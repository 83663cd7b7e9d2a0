import RtThread.Core.Recorder

set_option linter.all false

/-!
# Thread-specific data

`pthread_tls.c` and the end of a thread in `pthread_exit`.  The slots of the keys are shared
and used again; the values of a thread are in an array that it allocates at its first
`pthread_setspecific`.  A key that is deleted leaves its values in these arrays.
-/

namespace RtThread.Pthreads

open Function
open RtThread.Core

def pthreadKeyMax : ℕ := 8

/-- `_pthread_key_data_t`; `none` stands for `NULL`. -/
structure KeySlot (Dtor : Type*) where
  isUsed : Bool
  destructor : Option Dtor

/-- Where a thread is in `pthread_exit`: before it, at a slot, with a value and before the
call of its destructor, in the destructor, behind it. -/
inductive ExitPhase (Value : Type*)
  | alive
  | examining (index : ℕ)
  | calling (index : ℕ) (data : Value)
  | destroying (index : ℕ)
  | done
  deriving DecidableEq

/-- The values of a thread, with the key and the value that a `pthread_setspecific` has checked
and not stored yet. -/
structure ThreadData (Value : Type*) where
  tls : Option (ℕ → Option Value)
  setting : Option (ℕ × Option Value)
  phase : ExitPhase Value

/-- What the array of a thread holds. -/
def ThreadData.held {Value : Type*} (data : ThreadData Value) (key : ℕ) : Option Value :=
  match data.tls with
  | none => none
  | some tls => tls key

structure TlsState (Tid Value Dtor : Type*) where
  keys : ℕ → KeySlot Dtor
  threads : Tid → ThreadData Value

inductive TlsAction (Tid Value Dtor : Type*)
  | keyCreate (destructor : Option Dtor)
  | keyDelete (key : ℕ)
  | getspecific (tid : Tid) (key : ℕ)
  /-- `pthread_setspecific` up to its test of the key; `memory` is what `rt_malloc` returns. -/
  | setspecific (tid : Tid) (key : ℕ) (value : Option Value) (memory : Option (ℕ → Option Value))
  | store (tid : Tid)
  | exit (tid : Tid)
  /-- `pthread_exit` looks at a slot. -/
  | examine (tid : Tid)
  | call (tid : Tid)
  /-- The destructor returns. -/
  | leave (tid : Tid)

inductive TlsEvent (Value : Type*)
  | zero | einval | eagain
  | created (key : ℕ)
  | value (value : Option Value)
  | moved
  /-- The value is stored through `NULL`. -/
  | fault
  deriving DecidableEq

section Machine

variable {Tid Value Dtor : Type*} [DecidableEq Tid]

namespace TlsState

variable (st : TlsState Tid Value Dtor)

def live (key : ℕ) : Bool :=
  decide (key < pthreadKeyMax) && (st.keys key).isUsed

def pthreadGetspecific (tid : Tid) (key : ℕ) : Option Value :=
  match (st.threads tid).tls with
  | none => none
  | some tls => if st.live key = true then tls key else none

def setThread (tid : Tid) (data : ThreadData Value) : TlsState Tid Value Dtor :=
  { st with threads := update st.threads tid data }

def setPhase (tid : Tid) (phase : ExitPhase Value) : TlsState Tid Value Dtor :=
  st.setThread tid { st.threads tid with phase := phase }

def setKey (key : ℕ) (slot : KeySlot Dtor) : TlsState Tid Value Dtor :=
  { st with keys := update st.keys key slot }

/-- The first slot that is not used. -/
def freeSlot : Option ℕ :=
  (List.range pthreadKeyMax).find? fun index => !(st.keys index).isUsed

def pthreadKeyCreate (destructor : Option Dtor) : TlsState Tid Value Dtor × TlsEvent Value :=
  match st.freeSlot with
  | some index => (st.setKey index ⟨true, destructor⟩, .created index)
  | none => (st, .eagain)

def pthreadKeyDelete (key : ℕ) : TlsState Tid Value Dtor × TlsEvent Value :=
  if pthreadKeyMax ≤ key then (st, .einval)
  else (st.setKey key ⟨false, none⟩, .zero)

/-- `ptd->tls` when the key is tested. -/
def allocated (tid : Tid) (memory : Option (ℕ → Option Value)) : Option (ℕ → Option Value) :=
  match (st.threads tid).tls with
  | none => memory
  | some tls => some tls

def pthreadSetspecific (tid : Tid) (key : ℕ) (value : Option Value)
    (memory : Option (ℕ → Option Value)) : TlsState Tid Value Dtor × TlsEvent Value :=
  let data := { st.threads tid with tls := st.allocated tid memory }
  if st.live key = true then
    if data.tls.isSome = true then
      (st.setThread tid { data with setting := some (key, value) }, .moved)
    else (st, .fault)
  else (st.setThread tid data, .einval)

/-- The thread is in its own code, or in that of a destructor. -/
def runsFreely (tid : Tid) : Bool :=
  (st.threads tid).setting.isNone &&
    match (st.threads tid).phase with
    | .alive | .destroying _ => true
    | _ => false

/-- A turn of the loop of `pthread_exit`, and what follows it. -/
def examineSlot (tid : Tid) (index : ℕ) : TlsState Tid Value Dtor :=
  if index < pthreadKeyMax then
    if (st.keys index).isUsed = true then
      match (st.threads tid).held index with
      | some data => st.setPhase tid (.calling index data)
      | none => st.setPhase tid (.examining (index + 1))
    else st.setPhase tid (.examining (index + 1))
  else st.setThread tid { st.threads tid with tls := none, phase := .done }

end TlsState

def tlsStep (st : TlsState Tid Value Dtor) :
    TlsAction Tid Value Dtor → Option (TlsState Tid Value Dtor × TlsEvent Value)
  | .keyCreate destructor => some (st.pthreadKeyCreate destructor)
  | .keyDelete key => some (st.pthreadKeyDelete key)
  | .getspecific tid key =>
    if st.runsFreely tid = true then some (st, .value (st.pthreadGetspecific tid key))
    else none
  | .setspecific tid key value memory =>
    if st.runsFreely tid = true then some (st.pthreadSetspecific tid key value memory)
    else none
  | .store tid =>
    match (st.threads tid).setting, (st.threads tid).tls with
    | some (key, value), some tls =>
      some (st.setThread tid ⟨some (update tls key value), none,
        (st.threads tid).phase⟩, .zero)
    | _, _ => none
  | .exit tid =>
    match (st.threads tid).phase, (st.threads tid).setting with
    | .alive, none =>
      if (st.threads tid).tls.isSome = true then
        some (st.setPhase tid (.examining 0), .moved)
      else some (st.setPhase tid .done, .moved)
    | _, _ => none
  | .examine tid =>
    match (st.threads tid).phase with
    | .examining index => some (st.examineSlot tid index, .moved)
    | _ => none
  | .call tid =>
    match (st.threads tid).phase with
    | .calling index _ => some (st.setPhase tid (.destroying index), .moved)
    | _ => none
  | .leave tid =>
    match (st.threads tid).phase, (st.threads tid).setting with
    | .destroying index, none => some (st.setPhase tid (.examining (index + 1)), .moved)
    | _, _ => none

def tlsMachine : Machine (TlsState Tid Value Dtor) (TlsAction Tid Value Dtor) (TlsEvent Value) where
  step := tlsStep

/-- `pthread_key_system_init`, and threads that have set nothing. -/
def tlsInit : TlsState Tid Value Dtor :=
  ⟨fun _ => ⟨false, none⟩, fun _ => ⟨none, none, .alive⟩⟩

/-! ## What has been set, and which destructors are called -/

/-- A call of a destructor: of which key, with which value, of which function. -/
abbrev DtorCall (Value Dtor : Type*) := ℕ × Value × Option Dtor

/-- The value that each thread has set last for each key since the key was created, the calls of
destructors that a thread that exits has made and those it should have made, and the
destructor of the key at which it has looked last. -/
structure TlsNotes (Tid Value Dtor : Type*) where
  set : Tid → ℕ → Option Value
  made : Tid → List (DtorCall Value Dtor)
  due : Tid → List (DtorCall Value Dtor)
  found : Tid → Option Dtor

/-- The call that is due when a thread looks at a slot. -/
def dueCall (notes : TlsNotes Tid Value Dtor) (st : TlsState Tid Value Dtor) (tid : Tid)
    (index : ℕ) : List (DtorCall Value Dtor) :=
  if st.live index = true then
    match notes.set tid index, (st.keys index).destructor with
    | some value, some destructor => [(index, value, some destructor)]
    | _, _ => []
  else []

/-- The notes after a thread that exits has looked at a slot. -/
def TlsNotes.look (notes : TlsNotes Tid Value Dtor) (st : TlsState Tid Value Dtor) (tid : Tid)
    (index : ℕ) : TlsNotes Tid Value Dtor :=
  { notes with
    due := update notes.due tid (notes.due tid ++ dueCall notes st tid index)
    found := update notes.found tid (st.keys index).destructor }

def recordTls (notes : TlsNotes Tid Value Dtor) (st : TlsState Tid Value Dtor)
    (act : TlsAction Tid Value Dtor) (_ : TlsState Tid Value Dtor) (event : TlsEvent Value) :
    TlsNotes Tid Value Dtor :=
  match act with
  | .keyCreate _ =>
    match event with
    | .created key => { notes with set := fun tid => update (notes.set tid) key none }
    | _ => notes
  | .store tid =>
    match (st.threads tid).setting with
    | some (key, value) =>
      { notes with
        set := update notes.set tid
          (update (notes.set tid) key (if st.live key = true then value else none)) }
    | none => notes
  | .examine tid =>
    match (st.threads tid).phase with
    | .examining index => notes.look st tid index
    | _ => notes
  | .call tid =>
    match (st.threads tid).phase with
    | .calling index data =>
      { notes with
        made := update notes.made tid
          (notes.made tid ++ [(index, data, (st.keys index).destructor)]) }
    | _ => notes
  | _ => notes

/-- The thread has checked this key and not stored the value yet. -/
def ThreadData.sets (data : ThreadData Value) (key : ℕ) : Bool :=
  match data.setting with
  | some (other, _) => decide (other = key)
  | none => false

/-- `pthread_getspecific` returns what the thread has set, and a thread that is not about to call a
destructor has called those that it should. -/
structure TlsKept (st : TlsState Tid Value Dtor × TlsNotes Tid Value Dtor) : Prop where
  values : ∀ tid key, (st.1.threads tid).phase ≠ .done → (st.1.threads tid).sets key = false →
    st.1.pthreadGetspecific tid key =
      if st.1.live key = true then st.2.set tid key else none
  calls : ∀ tid, (∀ index data, (st.1.threads tid).phase ≠ .calling index data) →
    st.2.made tid = st.2.due tid

/-- No thread has a value in a slot that is given out, unless it is just setting it; the memory
that is allocated for a thread holds `NULL` at the keys that it is not setting; and a
destructor that is called is that of the key of which the value has been found. -/
def TlsFresh (st : TlsState Tid Value Dtor × TlsNotes Tid Value Dtor) :
    TlsAction Tid Value Dtor → Prop
  | .keyCreate _ => ∀ key, st.1.freeSlot = some key →
      ∀ tid, (st.1.threads tid).phase ≠ .done → (st.1.threads tid).sets key = false →
        (st.1.threads tid).held key = none
  | .setspecific tid key _ memory => (st.1.threads tid).tls = none → ∀ tls, memory = some tls →
      ∀ other, st.1.live other = true → other ≠ key → tls other = none
  | .call tid => ∀ index data, (st.1.threads tid).phase = .calling index data →
      st.2.found tid ≠ none ∧ (st.1.keys index).destructor = st.2.found tid
  | _ => True

def tlsRecorded : Machine (TlsState Tid Value Dtor × TlsNotes Tid Value Dtor)
    (TlsAction Tid Value Dtor) (TlsEvent Value) :=
  tlsMachine.recorded recordTls

def tlsNotesInit : TlsNotes Tid Value Dtor :=
  ⟨fun _ _ => none, fun _ => [], fun _ => [], fun _ => none⟩

/-! ## What the notes say about a thread -/

section Steps

variable {st next : TlsState Tid Value Dtor} {notes after : TlsNotes Tid Value Dtor}
variable {act : TlsAction Tid Value Dtor} {event : TlsEvent Value} {tid : Tid} {key : ℕ}

/-- The call that is due for a value that has been found with a destructor. -/
def foundCall (found : Option Dtor) (index : ℕ) (data : Value) : List (DtorCall Value Dtor) :=
  match found with
  | some destructor => [(index, data, some destructor)]
  | none => []

def ExitPhase.looping : ExitPhase Value → Bool
  | .examining _ | .calling _ _ => true
  | _ => false

/-- The values of a thread that exits or may still look at them, and its calls of destructors. -/
structure ThreadInv (live : ℕ → Bool) (data : ThreadData Value) (set : ℕ → Option Value)
    (made due : List (DtorCall Value Dtor)) (found : Option Dtor) : Prop where
  values : data.phase ≠ .done → ∀ key, data.sets key = false → live key = true →
    data.held key = set key
  calls : (∀ index value, data.phase ≠ .calling index value) → made = due
  calling : ∀ index value, data.phase = .calling index value →
    due = made ++ foundCall found index value
  setting : data.phase.looping = true → data.setting = none

def TlsInv (st : TlsState Tid Value Dtor) (notes : TlsNotes Tid Value Dtor) : Prop :=
  ∀ tid, ThreadInv st.live (st.threads tid) (notes.set tid) (notes.made tid) (notes.due tid)
    (notes.found tid)

omit [DecidableEq Tid] in
theorem getspecific_eq_held : st.pthreadGetspecific tid key =
    if st.live key = true then (st.threads tid).held key else none := by
  rw [TlsState.pthreadGetspecific, ThreadData.held]
  cases (st.threads tid).tls <;> simp

omit [DecidableEq Tid] in
theorem TlsInv.kept (hinv : TlsInv st notes) : TlsKept (st, notes) where
  values tid key hphase hsets := by
    dsimp only
    rw [getspecific_eq_held]
    split
    · rename_i hlive
      exact (hinv tid).values hphase key hsets hlive
    · rfl
  calls tid hcalling := (hinv tid).calls hcalling

omit [DecidableEq Tid] in
theorem tlsInv_init : TlsInv (tlsInit : TlsState Tid Value Dtor) tlsNotesInit := fun _ =>
  { values := fun _ _ _ _ => rfl
    calls := fun _ => rfl
    calling := fun _ _ h => by cases h
    setting := fun h => by cases h }

/-- One thread moves, and the notes change for it only. -/
theorem TlsInv.move (hinv : TlsInv st notes) {data : ThreadData Value}
    (hself : ThreadInv st.live data (after.set tid) (after.made tid) (after.due tid)
      (after.found tid))
    (hothers : ∀ other, other ≠ tid → after.set other = notes.set other ∧
      after.made other = notes.made other ∧ after.due other = notes.due other ∧
        after.found other = notes.found other) : TlsInv (st.setThread tid data) after := by
  intro other
  change ThreadInv st.live (update st.threads tid data other) _ _ _ _
  by_cases hother : other = tid
  · rw [hother, update_self]
    exact hself
  · obtain ⟨hset, hmade, hdue, hfound⟩ := hothers other hother
    rw [update_of_ne hother, hset, hmade, hdue, hfound]
    exact hinv other

/-- The values of the thread stay, and it goes on to a phase in which it calls nothing. -/
theorem ThreadInv.setPhase {live : ℕ → Bool} {data : ThreadData Value} {set : ℕ → Option Value}
    {made due : List (DtorCall Value Dtor)} {found found' : Option Dtor} {phase : ExitPhase Value}
    (hinv : ThreadInv live data set made due found) (hbefore : data.phase ≠ .done)
    (hcalls : made = due) (hcalling : ∀ index value, phase ≠ .calling index value)
    (hsetting : data.setting = none) :
    ThreadInv live { data with phase := phase } set made due found' where
  values _ key hsets hlive := hinv.values hbefore key hsets hlive
  calls _ := hcalls
  calling index value h := absurd h (hcalling index value)
  setting _ := hsetting

omit [DecidableEq Tid] in
theorem lt_of_freeSlot (hfree : st.freeSlot = some key) : key < pthreadKeyMax :=
  List.mem_range.1 (List.mem_of_find?_eq_some hfree)

omit [DecidableEq Tid] in
theorem live_setKey (hkey : key < pthreadKeyMax) (slot : KeySlot Dtor) (other : ℕ) :
    (st.setKey key slot).live other = if other = key then slot.isUsed else st.live other := by
  rw [TlsState.live, TlsState.setKey]
  dsimp only
  by_cases hother : other = key
  · subst hother
    rw [update_self, if_pos rfl, decide_eq_true hkey, Bool.true_and]
  · rw [update_of_ne hother, if_neg hother, TlsState.live]

theorem TlsInv.keyCreate (hinv : TlsInv st notes) {destructor : Option Dtor}
    (hgood : TlsFresh (st, notes) (.keyCreate destructor)) :
    TlsInv (st.pthreadKeyCreate destructor).1 (recordTls notes st (.keyCreate destructor)
      (st.pthreadKeyCreate destructor).1 (st.pthreadKeyCreate destructor).2) := by
  rw [TlsState.pthreadKeyCreate]
  cases hfree : st.freeSlot with
  | none => exact hinv
  | some key =>
    dsimp only [recordTls]
    intro tid
    have hthread := hinv tid
    refine ⟨fun hphase other hsets hlive => ?_, hthread.calls, hthread.calling, hthread.setting⟩
    rw [live_setKey (lt_of_freeSlot hfree)] at hlive
    change (st.threads tid).held other = update (notes.set tid) key none other
    by_cases hother : other = key
    · subst hother
      rw [update_self]
      exact hgood other hfree tid hphase hsets
    · rw [if_neg hother] at hlive
      rw [update_of_ne hother]
      exact hthread.values hphase other hsets hlive

omit [DecidableEq Tid] in
theorem TlsInv.keyDelete (hinv : TlsInv st notes) (key : ℕ) :
    TlsInv (st.pthreadKeyDelete key).1 notes := by
  rw [TlsState.pthreadKeyDelete]
  split
  · exact hinv
  · rename_i hkey
    intro tid
    have hthread := hinv tid
    refine ⟨fun hphase other hsets hlive => ?_, hthread.calls, hthread.calling, hthread.setting⟩
    rw [live_setKey (Nat.lt_of_not_le hkey)] at hlive
    by_cases hother : other = key
    · subst hother
      rw [if_pos rfl] at hlive
      cases hlive
    · rw [if_neg hother] at hlive
      exact hthread.values hphase other hsets hlive

omit [DecidableEq Tid] in
theorem runsFreely_cases (hfree : st.runsFreely tid = true) :
    (st.threads tid).setting = none ∧ (st.threads tid).phase ≠ .done ∧
      (st.threads tid).phase.looping = false := by
  simp only [TlsState.runsFreely, Bool.and_eq_true, Option.isNone_iff_eq_none] at hfree
  obtain ⟨hsetting, hphase⟩ := hfree
  refine ⟨hsetting, ?_⟩
  cases h : (st.threads tid).phase with
  | alive => exact ⟨nofun, rfl⟩
  | destroying index => exact ⟨nofun, rfl⟩
  | _ =>
    rw [h] at hphase
    cases hphase

theorem TlsInv.setspecific (hinv : TlsInv st notes) {value : Option Value}
    {memory : Option (ℕ → Option Value)} (hfree : st.runsFreely tid = true)
    (hgood : TlsFresh (st, notes) (.setspecific tid key value memory)) :
    TlsInv (st.pthreadSetspecific tid key value memory).1 notes := by
  obtain ⟨hsetting, hphase, hlooping⟩ := runsFreely_cases hfree
  have hthread := hinv tid
  have hnotSets : ∀ other, (st.threads tid).sets other = false := by
    intro other
    rw [ThreadData.sets, hsetting]
  -- the array at the keys that are not set now
  have hheld : ∀ other, st.live other = true → other ≠ key →
      ThreadData.held { st.threads tid with tls := st.allocated tid memory } other =
        notes.set tid other := by
    intro other hlive hother
    have hvalue := hthread.values hphase other (hnotSets other) hlive
    rw [ThreadData.held] at hvalue
    simp only [ThreadData.held, TlsState.allocated]
    cases htls : (st.threads tid).tls with
    | some tls =>
      rw [htls] at hvalue
      exact hvalue
    | none =>
      rw [htls] at hvalue
      cases hmemory : memory with
      | none => exact hvalue
      | some tls => exact (hgood htls tls hmemory other hlive hother).trans hvalue
  rw [TlsState.pthreadSetspecific]
  split
  · rename_i hlive
    dsimp only
    split
    · refine hinv.move ⟨fun _ other hsets hliveOther => hheld other hliveOther ?_, hthread.calls,
        hthread.calling, fun h => ?_⟩ fun _ _ => ⟨rfl, rfl, rfl, rfl⟩
      · rintro rfl
        simp [ThreadData.sets] at hsets
      · dsimp only at h
        rw [hlooping] at h
        cases h
    · exact hinv
  · rename_i hdead
    refine hinv.move ⟨fun _ other _ hlive => hheld other hlive ?_, hthread.calls, hthread.calling,
      fun _ => hsetting⟩ fun _ _ => ⟨rfl, rfl, rfl, rfl⟩
    rintro rfl
    exact hdead hlive

theorem TlsInv.store (hinv : TlsInv st notes)
    (hstep : tlsStep st (.store tid) = some (next, event)) :
    TlsInv next (recordTls notes st (.store tid) next event) := by
  simp only [tlsStep] at hstep
  split at hstep
  · rename_i key value tls hsetting htls
    cases hstep
    have hthread := hinv tid
    have hlooping : (st.threads tid).phase.looping = false := by
      by_contra h
      rw [hthread.setting (Bool.not_eq_false _ ▸ h)] at hsetting
      cases hsetting
    simp only [recordTls, hsetting]
    refine hinv.move ⟨fun hphase other _ hlive => ?_, hthread.calls, hthread.calling,
      fun _ => rfl⟩ fun other hother => ⟨update_of_ne hother _ _, rfl, rfl, rfl⟩
    dsimp only
    rw [update_self]
    change update tls key value other = _
    by_cases hother : other = key
    · subst hother
      rw [update_self, update_self, if_pos hlive]
    · rw [update_of_ne hother, update_of_ne hother]
      have hsets : (st.threads tid).sets other = false := by
        rw [ThreadData.sets, hsetting]
        exact decide_eq_false (Ne.symm hother)
      have hvalue := hthread.values hphase other hsets hlive
      rw [ThreadData.held, htls] at hvalue
      exact hvalue
  · cases hstep

theorem TlsInv.exit (hinv : TlsInv st notes)
    (hstep : tlsStep st (.exit tid) = some (next, event)) : TlsInv next notes := by
  simp only [tlsStep] at hstep
  split at hstep
  · rename_i hphase hsetting
    have hthread := hinv tid
    have hcalls := hthread.calls (by simp [hphase])
    split at hstep <;> cases hstep <;>
      exact hinv.move (hthread.setPhase (by simp [hphase]) hcalls (by simp) hsetting)
        fun _ _ => ⟨rfl, rfl, rfl, rfl⟩
  · cases hstep

theorem TlsInv.leave (hinv : TlsInv st notes)
    (hstep : tlsStep st (.leave tid) = some (next, event)) : TlsInv next notes := by
  simp only [tlsStep] at hstep
  split at hstep
  · rename_i index hphase hsetting
    have hthread := hinv tid
    have hcalls := hthread.calls (by simp [hphase])
    cases hstep
    exact hinv.move (hthread.setPhase (by simp [hphase]) hcalls (by simp) hsetting)
      fun _ _ => ⟨rfl, rfl, rfl, rfl⟩
  · cases hstep

omit [DecidableEq Tid] in
/-- What is due when a thread looks at a slot is what it has found there. -/
theorem ThreadInv.dueCall_eq (hthread : ThreadInv st.live (st.threads tid) (notes.set tid)
    (notes.made tid) (notes.due tid) (notes.found tid)) {index : ℕ}
    (hphase : (st.threads tid).phase = .examining index) :
    dueCall notes st tid index = if st.live index = true then
      match (st.threads tid).held index with
      | some value => foundCall (st.keys index).destructor index value
      | none => []
    else [] := by
  rw [dueCall]
  split
  · rename_i hlive
    have hsetting := hthread.setting (by rw [hphase]; rfl)
    have hvalue := hthread.values (by simp [hphase]) index (by rw [ThreadData.sets, hsetting]) hlive
    rw [← hvalue]
    cases (st.threads tid).held index with
    | none => rfl
    | some value => cases (st.keys index).destructor <;> rfl
  · rfl

theorem TlsInv.examine (hinv : TlsInv st notes)
    (hstep : tlsStep st (.examine tid) = some (next, event)) :
    TlsInv next (recordTls notes st (.examine tid) next event) := by
  simp only [tlsStep] at hstep
  split at hstep
  · rename_i index hphase
    cases hstep
    have hthread := hinv tid
    have hsetting := hthread.setting (by rw [hphase]; rfl)
    have hcalls := hthread.calls (by simp [hphase])
    have hdue := hthread.dueCall_eq hphase
    simp only [recordTls, hphase]
    have hself : (notes.look st tid index).due tid =
        notes.due tid ++ dueCall notes st tid index := update_self _ _ _
    have hfound : (notes.look st tid index).found tid = (st.keys index).destructor :=
      update_self _ _ _
    have hframe : ∀ other, other ≠ tid → (notes.look st tid index).set other = notes.set other ∧
        (notes.look st tid index).made other = notes.made other ∧
        (notes.look st tid index).due other = notes.due other ∧
          (notes.look st tid index).found other = notes.found other := fun other hother =>
      ⟨rfl, rfl, update_of_ne hother _ _, update_of_ne hother _ _⟩
    have hnothing : dueCall notes st tid index = [] → ∀ phase : ExitPhase Value,
        (∀ index value, phase ≠ .calling index value) →
        TlsInv (st.setPhase tid phase) (notes.look st tid index) := by
      intro hnone phase hphase'
      refine hinv.move ?_ hframe
      rw [hself, hnone, List.append_nil]
      exact hthread.setPhase (by simp [hphase]) hcalls hphase' hsetting
    rw [TlsState.examineSlot]
    split
    · rename_i hindex
      split
      · rename_i hused
        have hlive : st.live index = true := by
          rw [TlsState.live, hused, decide_eq_true hindex]
          rfl
        rw [if_pos hlive] at hdue
        cases hheld : (st.threads tid).held index with
        | none =>
          rw [hheld] at hdue
          exact hnothing hdue _ (by simp)
        | some value =>
          rw [hheld] at hdue
          refine hinv.move ⟨?_, fun h => absurd rfl (h index value), fun i v h => ?_,
            fun _ => hsetting⟩ hframe
          · exact fun _ => hthread.values (by simp [hphase])
          · cases h
            rw [hself, hfound, hdue, ← hcalls]
            rfl
      · rename_i hunused
        have hlive : st.live index = false := by
          rw [TlsState.live, Bool.eq_false_iff.2 hunused, Bool.and_false]
        rw [hlive] at hdue
        exact hnothing hdue _ (by simp)
    · rename_i hindex
      have hlive : st.live index = false := by
        rw [TlsState.live, decide_eq_false hindex, Bool.false_and]
      rw [hlive] at hdue
      refine hinv.move ⟨fun h => absurd rfl h, fun _ => ?_, nofun, nofun⟩ hframe
      rw [hself, hdue, ← hcalls]
      exact (List.append_nil _).symm
  · cases hstep

theorem TlsInv.call (hinv : TlsInv st notes) (hgood : TlsFresh (st, notes) (.call tid))
    (hstep : tlsStep st (.call tid) = some (next, event)) :
    TlsInv next (recordTls notes st (.call tid) next event) := by
  simp only [tlsStep] at hstep
  split at hstep
  · rename_i index value hphase
    cases hstep
    have hthread := hinv tid
    have hsetting := hthread.setting (by rw [hphase]; rfl)
    obtain ⟨hfound, hsame⟩ := hgood index value hphase
    simp only [recordTls, hphase]
    refine hinv.move ⟨?_, fun _ => ?_, nofun, nofun⟩
      fun other hother => ⟨rfl, update_of_ne hother _ _, rfl, rfl⟩
    · exact fun _ => hthread.values (by simp [hphase])
    · dsimp only at hfound hsame ⊢
      rw [update_self, hthread.calling index value hphase, hsame]
      cases hdtor : notes.found tid with
      | none => exact absurd hdtor hfound
      | some destructor => rfl
  · cases hstep

theorem TlsInv.step (hinv : TlsInv st notes) (hgood : TlsFresh (st, notes) act)
    (hstep : tlsStep st act = some (next, event)) :
    TlsInv next (recordTls notes st act next event) := by
  cases act with
  | keyCreate destructor =>
    simp only [tlsStep] at hstep
    obtain ⟨rfl, rfl⟩ := Prod.mk.inj (Option.some.inj hstep)
    exact hinv.keyCreate hgood
  | keyDelete key =>
    simp only [tlsStep] at hstep
    obtain ⟨rfl, rfl⟩ := Prod.mk.inj (Option.some.inj hstep)
    exact hinv.keyDelete key
  | getspecific tid key =>
    simp only [tlsStep] at hstep
    split at hstep <;> cases hstep
    exact hinv
  | setspecific tid key value memory =>
    simp only [tlsStep] at hstep
    split at hstep
    · rename_i hfree
      obtain ⟨rfl, rfl⟩ := Prod.mk.inj (Option.some.inj hstep)
      exact hinv.setspecific hfree hgood
    · cases hstep
  | store tid => exact hinv.store hstep
  | exit tid => exact hinv.exit hstep
  | examine tid => exact hinv.examine hstep
  | call tid => exact hinv.call hgood hstep
  | leave tid => exact hinv.leave hstep

/-- A key is given out in whose slot a thread has a value. -/
theorem not_kept_of_keyCreate {destructor : Option Dtor}
    (hbad : ¬TlsFresh (st, notes) (.keyCreate destructor))
    (hstep : tlsStep st (.keyCreate destructor) = some (next, event)) :
    ¬TlsKept (next, recordTls notes st (.keyCreate destructor) next event) := by
  simp only [TlsFresh, not_forall] at hbad
  obtain ⟨key, hfree, tid, hphase, hsets, hheld⟩ := hbad
  simp only [tlsStep, TlsState.pthreadKeyCreate, hfree] at hstep
  cases hstep
  intro hkept
  have hvalue := hkept.values tid key hphase hsets
  have hlive : (st.setKey key ⟨true, destructor⟩).live key = true := by
    rw [live_setKey (lt_of_freeSlot hfree), if_pos rfl]
  rw [getspecific_eq_held, hlive, if_pos rfl, if_pos rfl] at hvalue
  change _ = update (notes.set tid) key none key at hvalue
  rw [update_self] at hvalue
  exact hheld hvalue

/-- The memory of a new array holds something at a key that is not set now. -/
theorem not_kept_of_setspecific (hinv : TlsInv st notes) {value : Option Value}
    {memory : Option (ℕ → Option Value)} (hfree : st.runsFreely tid = true)
    (hbad : ¬TlsFresh (st, notes) (.setspecific tid key value memory)) :
    ¬TlsKept ((st.pthreadSetspecific tid key value memory).1, notes) := by
  simp only [TlsFresh, not_forall] at hbad
  obtain ⟨htls, tls, rfl, other, hlive, hother, hheld⟩ := hbad
  obtain ⟨hsetting, hphase, -⟩ := runsFreely_cases hfree
  have hnone : notes.set tid other = none := by
    have hvalue := (hinv tid).values hphase other (by rw [ThreadData.sets, hsetting]) hlive
    rw [ThreadData.held, htls] at hvalue
    exact hvalue.symm
  have hbroken : ∀ data : ThreadData Value, data.tls = some tls → data.phase ≠ .done →
      data.sets other = false → ¬TlsKept (st.setThread tid data, notes) := by
    intro data hdata hdone hsets hkept
    have hthread : (st.setThread tid data).threads tid = data := update_self _ _ _
    have hvalue := hkept.values tid other (by rw [hthread]; exact hdone)
      (by rw [hthread]; exact hsets)
    have hsame : (st.setThread tid data).live other = true := hlive
    rw [getspecific_eq_held, hsame, if_pos rfl, if_pos rfl, hthread, ThreadData.held, hdata]
      at hvalue
    exact hheld (hvalue.trans hnone)
  rw [TlsState.pthreadSetspecific, TlsState.allocated, htls]
  dsimp only
  split
  · exact hbroken _ rfl hphase (decide_eq_false (Ne.symm hother))
  · exact hbroken _ rfl hphase (by rw [ThreadData.sets, hsetting])

/-- The destructor that is called is not the one of the value that has been found. -/
theorem not_kept_of_call (hinv : TlsInv st notes) (hbad : ¬TlsFresh (st, notes) (.call tid))
    (hstep : tlsStep st (.call tid) = some (next, event)) :
    ¬TlsKept (next, recordTls notes st (.call tid) next event) := by
  simp only [TlsFresh, not_forall] at hbad
  obtain ⟨index, value, hphase, hbad⟩ := hbad
  simp only [tlsStep, hphase] at hstep
  cases hstep
  intro hkept
  have hthread : ((st.setPhase tid (.destroying index)).threads tid).phase =
      .destroying index := by
    rw [TlsState.setPhase, TlsState.setThread]
    dsimp only
    rw [update_self]
  have hcalls := hkept.calls tid (by simp [hthread])
  simp only [recordTls, hphase, update_self] at hcalls
  rw [(hinv tid).calling index value hphase, List.append_cancel_left_eq] at hcalls
  refine hbad ?_
  cases hfound : notes.found tid with
  | none =>
    rw [hfound] at hcalls
    cases hcalls
  | some destructor =>
    rw [hfound] at hcalls
    simp only [foundCall, List.cons.injEq, Prod.mk.injEq, true_and, and_true] at hcalls
    exact ⟨by simp, hcalls⟩

theorem not_kept_of_stale (hinv : TlsInv st notes) (hbad : ¬TlsFresh (st, notes) act)
    (hstep : tlsStep st act = some (next, event)) :
    ¬TlsKept (next, recordTls notes st act next event) := by
  cases act with
  | keyCreate destructor => exact not_kept_of_keyCreate hbad hstep
  | setspecific tid key value memory =>
    simp only [tlsStep] at hstep
    split at hstep
    · rename_i hfree
      obtain ⟨rfl, rfl⟩ := Prod.mk.inj (Option.some.inj hstep)
      exact not_kept_of_setspecific hinv hfree hbad
    · cases hstep
  | call tid => exact not_kept_of_call hinv hbad hstep
  | _ => exact absurd trivial hbad

end Steps

/-- In every state of a run each thread gets what it has set for each key and has called the
destructors that it should, exactly when no slot is given out in which a thread has a value,
new arrays hold `NULL`, and no destructor is called that is `NULL` or of another key. -/
theorem thread_specific_iff {trace : List (TlsAction Tid Value Dtor × TlsEvent Value)}
    {last : TlsState Tid Value Dtor} (hrun : tlsMachine.Run tlsInit trace last) :
    (∃ notes, tlsRecorded.Run (tlsInit, tlsNotesInit) trace (last, notes)) ∧
    ∀ notes, tlsRecorded.Run (tlsInit, tlsNotesInit) trace (last, notes) →
      ((tlsRecorded.RunWith (fun st _ => TlsKept st) (tlsInit, tlsNotesInit) trace
          (last, notes) ∧ TlsKept (last, notes)) ↔
        tlsRecorded.RunWith TlsFresh (tlsInit, tlsNotesInit) trace (last, notes)) := by
  refine ⟨hrun.recorded recordTls tlsNotesInit, fun notes hrecorded => ?_⟩
  refine hrecorded.always_iff (fun st => TlsInv st.1 st.2) TlsKept
    (fun _ hinv => hinv.kept) ?_ ?_ tlsInv_init
  · rintro ⟨st, notes⟩ act ⟨next, after⟩ event hinv hgood hstep
    obtain ⟨hstep, hnotes⟩ := Machine.recorded_step.1 hstep
    rw [show after = _ from hnotes]
    exact hinv.step hgood hstep
  · rintro ⟨st, notes⟩ act ⟨next, after⟩ event hinv hbad hstep
    obtain ⟨hstep, hnotes⟩ := Machine.recorded_step.1 hstep
    rw [show after = _ from hnotes]
    exact not_kept_of_stale hinv hbad hstep

instance [Fintype Tid] [DecidableEq Value] [DecidableEq Dtor]
    (st : TlsState Tid Value Dtor × TlsNotes Tid Value Dtor) :
    (act : TlsAction Tid Value Dtor) → Decidable (TlsFresh st act)
  | .keyCreate _ =>
    match hfree : st.1.freeSlot with
    | none => isTrue (by simp [TlsFresh, hfree])
    | some key =>
      decidable_of_iff (∀ tid, (st.1.threads tid).phase ≠ .done →
        (st.1.threads tid).sets key = false → (st.1.threads tid).held key = none)
        (by simp [TlsFresh, hfree])
  | .setspecific tid key _ memory =>
    match htls : (st.1.threads tid).tls, memory with
    | none, some tls =>
      decidable_of_iff (∀ other ∈ List.range pthreadKeyMax, st.1.live other = true →
        other ≠ key → tls other = none) (by
          simp only [TlsFresh, htls, Option.some.injEq, List.mem_range, TlsState.live,
            Bool.and_eq_true, decide_eq_true_eq]
          constructor
          · rintro hnone - _ rfl other ⟨hlt, hused⟩
            exact hnone other hlt ⟨hlt, hused⟩
          · exact fun hnone other _ => hnone trivial tls rfl other)
    | none, none => isTrue (by simp [TlsFresh])
    | some _, _ => isTrue (by simp [TlsFresh, htls])
  | .call tid =>
    match hphase : (st.1.threads tid).phase with
    | .calling index _ =>
      decidable_of_iff (st.2.found tid ≠ none ∧
        (st.1.keys index).destructor = st.2.found tid) (by simp [TlsFresh, hphase])
    | .alive | .examining _ | .destroying _ | .done => isTrue (by simp [TlsFresh, hphase])
  | .keyDelete _ | .getspecific _ _ | .store _ | .exit _ | .examine _ | .leave _ => isTrue trivial

/-- A thread sets a value, reads it and exits. -/
def scheduleExit (tid : Tid) (destructor : Dtor) (value : Value) :
    List (TlsAction Tid Value Dtor) :=
  List.flatten [[.keyCreate (some destructor), .setspecific tid 0 (some value) (some fun _ => none),
    .store tid, .getspecific tid 0, .exit tid, .examine tid, .call tid, .leave tid],
    List.replicate 8 (.examine tid)]

theorem isSome_scheduleExit : (tlsRecorded.exec TlsFresh (tlsInit, tlsNotesInit)
    (scheduleExit () () 5 : List (TlsAction Unit ℕ Unit))).isSome = true := by
  decide

theorem thread_specific_scheduleExit : ∃ trace, ∃ last :
    TlsState Unit ℕ Unit × TlsNotes Unit ℕ Unit,
    tlsRecorded.RunWith (fun st _ => TlsKept st) (tlsInit, tlsNotesInit) trace last ∧
      .value (some 5) ∈ trace.map Prod.snd ∧ last.2.made () = [(0, 5, some ())] := by
  have hrun := Machine.runWith_of_isSome _ isSome_scheduleExit
  exact ⟨_, _, (((thread_specific_iff hrun.of_recorded).2 _ hrun.run).2 hrun).1, by decide,
    by decide⟩

/-- A key is deleted, and its slot is given out again. -/
def scheduleRecycled (tid : Tid) (value : Value) : List (TlsAction Tid Value Dtor) :=
  [.keyCreate none, .setspecific tid 0 (some value) (some fun _ => none), .store tid, .keyDelete 0,
    .keyCreate none, .getspecific tid 0]

theorem isSome_scheduleRecycled : (tlsRecorded.exec (fun _ _ => True) (tlsInit, tlsNotesInit)
    (scheduleRecycled () 5 : List (TlsAction Unit ℕ Unit))).isSome = true := by
  decide

/-- The thread gets the value of the deleted key from the new one. -/
theorem stale_value_returned : ∃ trace, ∃ last : TlsState Unit ℕ Unit × TlsNotes Unit ℕ Unit,
    tlsRecorded.Run (tlsInit, tlsNotesInit) trace last ∧
      trace.map Prod.snd = [.created 0, .moved, .zero, .zero, .created 0, .value (some 5)] ∧
        last.2.set () 0 = none ∧ ¬TlsKept last := by
  refine ⟨_, _, Machine.runWith_of_isSome _ isSome_scheduleRecycled, by decide,
    by decide, fun hkept => ?_⟩
  have hvalue := hkept.values () 0 (by decide) (by decide)
  exact absurd hvalue (by decide)

end Machine

end RtThread.Pthreads
