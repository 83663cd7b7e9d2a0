import RtThread.Core.BoundedFifo

set_option linter.all false

/-!
# Queues that keep the newest values

A queue of a given capacity that accepts everything and forgets the oldest values when it
is full, and the circular buffer that implements it by moving its output offset.
-/

namespace RtThread.Core

variable {Value : Type*}

/-- The newest values of a list, at most `capacity` of them. -/
def newest (capacity : ℕ) (values : List Value) : List Value :=
  values.drop (values.length - capacity)

namespace NewestFifo

inductive Action (Value : Type*)
  | arrive (values : List Value)
  | take (count : ℕ)

/-- The queue; a `take` emits the values it returns. -/
def step (capacity : ℕ) (queue : List Value) :
    Action Value → Option (List Value × List Value)
  | .arrive values => some (newest capacity (queue ++ values), [])
  | .take count => some (queue.drop count, queue.take count)

def machine (capacity : ℕ) : Machine (List Value) (Action Value) (List Value) where
  step := step capacity

end NewestFifo

@[simp]
theorem length_newest (capacity : ℕ) (values : List Value) :
    (newest capacity values).length = min values.length capacity := by
  rw [newest, List.length_drop]
  omega

theorem newest_append {capacity : ℕ} {queue values : List Value}
    (hfits : values.length ≤ capacity) :
    newest capacity (queue ++ values) =
      queue.drop (queue.length + values.length - capacity) ++ values := by
  rw [newest, List.length_append, List.drop_append_of_le_length (by omega)]

namespace RingBuffer

/-- `ring'` is `ring` after `values` were written at the input offset, with a room for
`capacity` values: the output offset has moved over the values that no longer fit. -/
structure Overwritten (capacity : ℕ) (ring : RingBuffer Value) (values : List Value)
    (ring' : RingBuffer Value) : Prop where
  fits : values.length ≤ capacity
  room : capacity ≤ ring.size
  size_eq : ring'.size = ring.size
  in_eq : ring'.inOffset = (ring.inOffset + values.length) % ring.size
  out_eq : ring'.outOffset =
    (ring.outOffset + (ring.entry + values.length - capacity)) % ring.size
  entry_eq : ring'.entry = min (ring.entry + values.length) capacity
  new : ∀ index (hindex : index < values.length),
    ring'.pool ((ring.inOffset + index) % ring.size) = values[index]
  old : ∀ slot < ring.size, (∀ index < values.length, slot ≠ (ring.inOffset + index) % ring.size) →
    ring'.pool slot = ring.pool slot

variable {capacity : ℕ} {ring ring' : RingBuffer Value} {values : List Value}

/-- The ring without the values that no longer fit. -/
def forget (ring : RingBuffer Value) (count : ℕ) : RingBuffer Value :=
  { ring with
    outOffset := (ring.outOffset + count) % ring.size
    entry := ring.entry - count }

theorem Valid.forget (hvalid : ring.Valid) {count : ℕ} (hcount : count ≤ ring.entry) :
    (ring.forget count).Valid where
  entry_le := (Nat.sub_le _ _).trans hvalid.entry_le
  out_lt := Nat.mod_lt _ (Nat.zero_lt_of_lt hvalid.out_lt)
  in_eq := by
    change ring.inOffset = ((ring.outOffset + count) % ring.size + (ring.entry - count)) % ring.size
    rw [Nat.mod_add_mod, Nat.add_assoc, Nat.add_sub_cancel' hcount, hvalid.in_eq]

theorem content_forget (ring : RingBuffer Value) (count : ℕ) :
    (ring.forget count).content = ring.content.drop count :=
  content_drop rfl rfl rfl rfl

theorem Overwritten.content_eq (hover : Overwritten capacity ring values ring')
    (hvalid : ring.Valid) :
    ring'.content = newest capacity (ring.content ++ values) := by
  have hfits := hover.fits
  have hroom := hover.room
  have hcount : ring.entry + values.length - capacity ≤ ring.entry := by omega
  have hkept := hvalid.forget hcount
  rw [newest_append hfits, length_content, ← content_forget]
  refine content_append hkept values hover.size_eq hover.out_eq ?_ ?_ hover.new
  · change ring'.entry = ring.entry - (ring.entry + values.length - capacity) + values.length
    rw [hover.entry_eq]
    omega
  · intro index hindex
    refine hover.old _ (Nat.mod_lt _ (Nat.zero_lt_of_lt hvalid.out_lt)) ?_
    intro offset hoffset
    refine hkept.slot_ne_add hindex ?_
    change ring.entry - (ring.entry + values.length - capacity) + offset < ring.size
    omega

end RingBuffer

end RtThread.Core
