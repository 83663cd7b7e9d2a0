import RtThread.Core.Machine

set_option linter.all false

/-!
# Bounded first-in-first-out queues

The abstract queue of a given capacity as a machine, what every run of it says
about the values put in and taken out, and the circular buffer that implements
it: a pool of slots with an input offset, an output offset and a count.
-/

namespace RtThread.Core

open Function

variable {Value : Type*}

namespace Fifo

inductive Action (Value : Type*)
  | put (value : Value)
  | take
  | clear
  /-- A step that does not concern the queue. -/
  | idle

/-- The queue; a `take` emits the value it returns. -/
def step (capacity : ℕ) (queue : List Value) :
    Action Value → Option (List Value × Option Value)
  | .put value =>
    if queue.length < capacity then some (queue ++ [value], none) else none
  | .take =>
    match queue with
    | value :: rest => some (rest, some value)
    | [] => none
  | .clear => some ([], none)
  | .idle => some (queue, none)

def machine (capacity : ℕ) : Machine (List Value) (Action Value) (Option Value) where
  step := step capacity

/-- The values put in and the values taken out since the last `clear`. -/
def history : List (Action Value × Option Value) → List Value × List Value :=
  List.foldl (fun record entry =>
    match entry with
    | (.put value, _) => (record.1 ++ [value], record.2)
    | (.take, output) => (record.1, record.2 ++ output.toList)
    | (.clear, _) => ([], [])
    | (.idle, _) => record) ([], [])

theorem history_snoc (trace : List (Action Value × Option Value))
    (entry : Action Value × Option Value) :
    history (trace ++ [entry]) =
      match entry with
      | (.put value, _) => ((history trace).1 ++ [value], (history trace).2)
      | (.take, output) => ((history trace).1, (history trace).2 ++ output.toList)
      | (.clear, _) => ([], [])
      | (.idle, _) => history trace := by
  rw [history, List.foldl_append]
  rfl

/-- In every run from the empty queue the values put in are the values taken out
followed by those still in the queue, which never exceeds its capacity. -/
theorem run_history {capacity : ℕ} {queue : List Value}
    {trace : List (Action Value × Option Value)}
    (hrun : (machine capacity).Run [] trace queue) :
    (history trace).1 = (history trace).2 ++ queue ∧ queue.length ≤ capacity := by
  refine hrun.traceInvariant
    (fun past queue => (history past).1 = (history past).2 ++ queue ∧ queue.length ≤ capacity)
    ?_ ⟨rfl, Nat.zero_le _⟩
  rintro past queue act next event ⟨hhistory, hlength⟩ - hstep
  rw [history_snoc]
  cases act with
  | put value =>
    simp only [machine, step] at hstep
    split at hstep
    · next hroom =>
        cases hstep
        simp only [hhistory, List.append_assoc, List.length_append, List.length_singleton]
        exact ⟨trivial, hroom⟩
    · contradiction
  | take =>
    cases queue with
    | nil => contradiction
    | cons value rest =>
      cases hstep
      simp only [List.length_cons] at hlength
      exact ⟨by simp [hhistory], by omega⟩
  | clear =>
    cases hstep
    exact ⟨rfl, Nat.zero_le _⟩
  | idle =>
    cases hstep
    exact ⟨hhistory, hlength⟩

end Fifo

/-- A circular buffer. -/
structure RingBuffer (Value : Type*) where
  pool : ℕ → Value
  size : ℕ
  entry : ℕ
  inOffset : ℕ
  outOffset : ℕ

namespace RingBuffer

structure Valid (ring : RingBuffer Value) : Prop where
  entry_le : ring.entry ≤ ring.size
  out_lt : ring.outOffset < ring.size
  in_eq : ring.inOffset = (ring.outOffset + ring.entry) % ring.size

/-- The stored values, oldest first. -/
def content (ring : RingBuffer Value) : List Value :=
  (List.range ring.entry).map fun index => ring.pool ((ring.outOffset + index) % ring.size)

/-- Advance an offset by one slot. -/
def advance (size offset : ℕ) : ℕ :=
  if size ≤ offset + 1 then 0 else offset + 1

def push (ring : RingBuffer Value) (value : Value) : RingBuffer Value :=
  { ring with
    pool := update ring.pool ring.inOffset value
    inOffset := advance ring.size ring.inOffset
    entry := ring.entry + 1 }

def pop (ring : RingBuffer Value) : RingBuffer Value :=
  { ring with
    outOffset := advance ring.size ring.outOffset
    entry := ring.entry - 1 }

def clear (ring : RingBuffer Value) : RingBuffer Value :=
  { ring with entry := 0, inOffset := 0, outOffset := 0 }

@[simp]
theorem length_content (ring : RingBuffer Value) : ring.content.length = ring.entry := by
  simp [content]

theorem advance_eq_mod {size offset : ℕ} (hlt : offset < size) :
    advance size offset = (offset + 1) % size := by
  rw [advance]
  split
  · next hle =>
      have heq : offset + 1 = size := by omega
      rw [heq, Nat.mod_self]
  · rw [Nat.mod_eq_of_lt (by omega)]

variable {ring : RingBuffer Value}

theorem Valid.in_lt (hvalid : ring.Valid) : ring.inOffset < ring.size := by
  rw [hvalid.in_eq]
  exact Nat.mod_lt _ (Nat.zero_lt_of_lt hvalid.out_lt)

theorem Valid.push (hvalid : ring.Valid) (hroom : ring.entry < ring.size) (value : Value) :
    (ring.push value).Valid where
  entry_le := hroom
  out_lt := hvalid.out_lt
  in_eq := by
    change advance ring.size ring.inOffset = (ring.outOffset + (ring.entry + 1)) % ring.size
    rw [advance_eq_mod hvalid.in_lt, hvalid.in_eq, Nat.mod_add_mod, Nat.add_assoc]

theorem Valid.pop (hvalid : ring.Valid) (hentry : 0 < ring.entry) : ring.pop.Valid where
  entry_le := (Nat.sub_le _ _).trans hvalid.entry_le
  out_lt := by
    change advance ring.size ring.outOffset < ring.size
    rw [advance_eq_mod hvalid.out_lt]
    exact Nat.mod_lt _ (Nat.zero_lt_of_lt hvalid.out_lt)
  in_eq := by
    change ring.inOffset = (advance ring.size ring.outOffset + (ring.entry - 1)) % ring.size
    rw [advance_eq_mod hvalid.out_lt, Nat.mod_add_mod, hvalid.in_eq]
    congr 1
    omega

theorem Valid.clear (hvalid : ring.Valid) : ring.clear.Valid where
  entry_le := Nat.zero_le _
  out_lt := Nat.zero_lt_of_lt hvalid.out_lt
  in_eq := (Nat.zero_mod _).symm

/-- No stored value is in a slot that is still to be written. -/
theorem Valid.slot_ne_add (hvalid : ring.Valid) {index offset : ℕ} (hindex : index < ring.entry)
    (hroom : ring.entry + offset < ring.size) :
    (ring.outOffset + index) % ring.size ≠ (ring.inOffset + offset) % ring.size := by
  rw [hvalid.in_eq, Nat.mod_add_mod, Nat.add_assoc]
  intro hsame
  have hmod : index ≡ ring.entry + offset [MOD ring.size] := Nat.ModEq.add_left_cancel' _ hsame
  rw [Nat.ModEq, Nat.mod_eq_of_lt (by omega), Nat.mod_eq_of_lt hroom] at hmod
  omega

theorem Valid.slot_ne (hvalid : ring.Valid) (hroom : ring.entry < ring.size) {index : ℕ}
    (hindex : index < ring.entry) : (ring.outOffset + index) % ring.size ≠ ring.inOffset := by
  have hne : (ring.outOffset + index) % ring.size ≠ (ring.inOffset + 0) % ring.size :=
    hvalid.slot_ne_add hindex hroom
  rwa [Nat.add_zero, Nat.mod_eq_of_lt hvalid.in_lt] at hne

theorem content_push (hvalid : ring.Valid) (hroom : ring.entry < ring.size) (value : Value) :
    (ring.push value).content = ring.content ++ [value] := by
  have hlast : update ring.pool ring.inOffset value
      ((ring.outOffset + ring.entry) % ring.size) = value := by
    rw [← hvalid.in_eq, update_self]
  simp only [content, push, List.range_succ, List.map_append, List.map_singleton, hlast]
  congr 1
  apply List.map_congr_left
  intro index hindex
  rw [update_of_ne (hvalid.slot_ne hroom (List.mem_range.1 hindex))]

theorem content_pop (hvalid : ring.Valid) (hentry : 0 < ring.entry) :
    ring.content = ring.pool ring.outOffset :: ring.pop.content := by
  obtain ⟨rest, hrest⟩ : ∃ rest, ring.entry = rest + 1 := ⟨ring.entry - 1, by omega⟩
  simp only [content, pop, hrest, Nat.add_sub_cancel, List.range_succ_eq_map, List.map_cons,
    Nat.add_zero, Nat.mod_eq_of_lt hvalid.out_lt, List.map_map]
  congr 1
  apply List.map_congr_left
  intro index _
  simp only [comp, advance_eq_mod hvalid.out_lt, Nat.mod_add_mod]
  congr 2
  omega

/-- Several values at once: the old slots are kept, and the new ones follow. -/
theorem content_append {ring' : RingBuffer Value} (hvalid : ring.Valid) (values : List Value)
    (hsize : ring'.size = ring.size) (hout : ring'.outOffset = ring.outOffset)
    (hentry : ring'.entry = ring.entry + values.length)
    (hold : ∀ index < ring.entry, ring'.pool ((ring.outOffset + index) % ring.size) =
      ring.pool ((ring.outOffset + index) % ring.size))
    (hnew : ∀ index (hindex : index < values.length),
      ring'.pool ((ring.inOffset + index) % ring.size) = values[index]) :
    ring'.content = ring.content ++ values := by
  rw [content, content, hsize, hout, hentry, List.range_add, List.map_append, List.map_map]
  congr 1
  · apply List.map_congr_left
    intro index hindex
    exact hold index (List.mem_range.1 hindex)
  · apply List.ext_getElem (by simp)
    intro index hleft hright
    have hslot := hnew index hright
    rw [hvalid.in_eq, Nat.mod_add_mod] at hslot
    rw [List.getElem_map, List.getElem_range, comp, ← hslot, Nat.add_assoc]

/-- The values from some slot on, without those before it. -/
theorem content_drop {ring' : RingBuffer Value} {count : ℕ} (hpool : ring'.pool = ring.pool)
    (hsize : ring'.size = ring.size) (hout : ring'.outOffset = (ring.outOffset + count) % ring.size)
    (hentry : ring'.entry = ring.entry - count) : ring'.content = ring.content.drop count := by
  apply List.ext_getElem
  · rw [List.length_drop, length_content, length_content, hentry]
  · intro index hleft hright
    rw [List.getElem_drop]
    simp only [content, List.getElem_map, List.getElem_range, hpool, hsize, hout, Nat.mod_add_mod,
      Nat.add_assoc]

theorem content_take {count : ℕ} (hcount : count ≤ ring.entry) : ring.content.take count =
      (List.range count).map fun index => ring.pool ((ring.outOffset + index) % ring.size) := by
  rw [content, ← List.map_take, List.take_range, min_eq_left hcount]

end RingBuffer

end RtThread.Core
