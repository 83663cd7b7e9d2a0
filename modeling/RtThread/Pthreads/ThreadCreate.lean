import Mathlib

set_option linter.all false

/-!
# Creating a POSIX thread

`pthread_create` of `pthread.c` allocates the data of the thread, which it enters into
`pth_table`, a stack unless the caller has given one, the thread object and the semaphore of a
joinable thread.  Where one of them fails, `_pthread_data_destroy` cleans up.  It takes the stack
of the thread from the thread object, which may not be there, or may hold what was in the memory
before.

The log notes what is allocated, what is freed, and through which pointers the thread object is
read and written.
-/

namespace RtThread.Pthreads.ThreadCreate

/-- What the call allocates. -/
inductive Object
  | data | stack | thread | sem
  deriving DecidableEq

instance : Fintype Object where
  elems := {.data, .stack, .thread, .sem}
  complete object := by cases object <;> decide

inductive Pointer
  | null
  | object (object : Object)
  /-- The address of a stack of the caller. -/
  | given (address : ℕ)
  /-- Never assigned. -/
  | wild
  deriving DecidableEq

inductive Effect
  | allocate (object : Object)
  | free (pointer : Pointer)
  | access (pointer : Pointer)
  deriving DecidableEq

inductive Ret
  | zero | enomem | einval
  deriving DecidableEq

def pthreadCreateJoinable : ℕ := 0

/-- `pthread_attr_t`, as far as it is looked at. -/
structure PthreadAttr where
  stackaddr : ℕ
  schedPriority : ℕ
  detachstate : ℕ
  deriving DecidableEq

/-- `pthread_default_attr`. -/
def pthreadDefaultAttr (priorityMax : ℕ) : PthreadAttr where
  stackaddr := 0
  schedPriority := priorityMax / 2 + priorityMax / 4
  detachstate := pthreadCreateJoinable

/-- `_pthread_data_t`: its own address, whether the magic number is there, and the fields that
are looked at. -/
structure PthreadData where
  address : Pointer
  magic : Bool
  attr : PthreadAttr
  tid : Pointer
  joinableSem : Pointer
  tls : Pointer
  deriving DecidableEq

/-- The data after `memset`, with the magic number. -/
def freshData (address : Pointer) : PthreadData where
  address := address
  magic := true
  attr := ⟨0, 0, 0⟩
  tid := .null
  joinableSem := .null
  tls := .null

/-- `stackAddr` is the field of the thread object, `pid` what was written through the argument,
and `defunct` says that the thread object is in `rt_thread_defunct`. -/
structure State where
  table : List (Option PthreadData)
  stackAddr : Pointer
  pid : Option ℕ
  defunct : Bool
  log : List Effect

/-- Before a call. -/
def State.begin (table : List (Option PthreadData)) : State where
  table := table
  stackAddr := .wild
  pid := none
  defunct := false
  log := []

/-- What the allocations answer. -/
structure Answers where
  data : Bool
  stack : Bool
  thread : Bool
  sem : Bool

namespace State

variable (st : State)

def emit (effect : Effect) : State :=
  { st with log := st.log ++ [effect] }

def malloc (object : Object) (answer : Bool) : State × Pointer :=
  if answer = true then (st.emit (.allocate object), .object object) else (st, .null)

@[simp]
theorem malloc_true (object : Object) :
    st.malloc object true = (st.emit (.allocate object), .object object) := rfl

@[simp]
theorem malloc_false (object : Object) : st.malloc object false = (st, .null) := rfl

/-- `rt_free` does nothing for a null pointer. -/
def rtFree (pointer : Pointer) : State :=
  if pointer = .null then st else st.emit (.free pointer)

/-- `tid->stack_addr`. -/
def readStackAddr (tid : Pointer) : State × Pointer :=
  (st.emit (.access tid), if tid = .object .thread then st.stackAddr else .wild)

def writeStackAddr (tid pointer : Pointer) : State :=
  { st.emit (.access tid) with
    stackAddr := if tid = .object .thread then pointer else st.stackAddr }

def setData (pth : ℕ) (ptd : Option PthreadData) : State :=
  { st with table := st.table.set pth ptd }

def pthreadGetData (thread : ℕ) : Option PthreadData :=
  match st.table[thread]? with
  | some (some ptd) => if ptd.magic = true then some ptd else none
  | _ => none

/-- `pth_table` has as many entries as `PTHREAD_NUM_MAX` says, which is the result when the call
fails. -/
def pthreadDataCreate (answer : Bool) : State × ℕ :=
  let (st, pointer) := st.malloc .data answer
  if pointer = .null then (st, st.table.length)
  else
    let ptd := freshData pointer
    let index := st.table.findIdx Option.isNone
    if index = st.table.length then (st.rtFree pointer, index)
    else (st.setData index (some ptd), index)

/-- What `_pthread_data_destroy` does once the data is not in the table any more. -/
def releaseData (ptd : PthreadData) : State :=
  let unsem := st.rtFree ptd.joinableSem
  let unstacked :=
    if ptd.attr.stackaddr = 0 then
      let (read, stack) := unsem.readStackAddr ptd.tid
      read.rtFree stack
    else unsem
  let cleared := unstacked.writeStackAddr ptd.tid .null
  ((cleared.rtFree ptd.tls).rtFree ptd.tid).rtFree ptd.address

def pthreadDataDestroy (pth : ℕ) : State :=
  match st.pthreadGetData pth with
  | none => st
  | some ptd => (st.setData pth none).releaseData ptd

/-- `rt_thread_init` returns `RT_EOK`; `none` is the failed assertion on the priority. -/
def rtThreadInit (priorityMax : ℕ) (tid stack : Pointer) (priority : ℕ) :
    Option (State × Bool) :=
  if priority % 0x100 < priorityMax then some (st.writeStackAddr tid stack, true) else none

/-- A thread with a cleanup function goes to the defunct threads. -/
def rtThreadDetach : State :=
  { st with defunct := true }

end State

/-- `rt_thread_startup` returns `RT_EOK`. -/
def rtThreadStartup : Bool := true

/-- The exit of a call that has failed. -/
def failed (st : State) (pth : ℕ) (ret : Ret) : Option (State × Ret) :=
  some (st.pthreadDataDestroy pth, ret)

/-- `pthread_create` once the data is in the table and has its attributes. -/
def pthreadBuild (priorityMax : ℕ) (st : State) (pth : ℕ) (ptd : PthreadData)
    (answers : Answers) : Option (State × Ret) :=
  let (st, stack) :=
    if ptd.attr.stackaddr = 0 then st.malloc .stack answers.stack
    else (st, .given ptd.attr.stackaddr)
  if stack = .null then failed (st.setData pth (some ptd)) pth .enomem
  else
    let (st, tid) := st.malloc .thread answers.thread
    let ptd := { ptd with tid := tid }
    if tid = .null then failed (st.setData pth (some ptd)) pth .enomem
    else
      let (st, sem) :=
        if ptd.attr.detachstate = pthreadCreateJoinable then st.malloc .sem answers.sem
        else (st, .null)
      let ptd := { ptd with joinableSem := sem }
      if ptd.attr.detachstate = pthreadCreateJoinable ∧ sem = .null then
        failed (st.setData pth (some ptd)) pth .enomem
      else
        match (st.setData pth (some ptd)).rtThreadInit priorityMax tid stack
            ptd.attr.schedPriority with
        | none => none
        | some (st, false) => failed st pth .einval
        | some (st, true) =>
          let st := { st with pid := some pth }
          if rtThreadStartup = true then some (st, .zero)
          else failed st.rtThreadDetach pth .einval

/-- `none` is a failed assertion. -/
def pthreadCreate (priorityMax : ℕ) (st : State) (attr : Option PthreadAttr)
    (answers : Answers) : Option (State × Ret) :=
  let (st, pth) := st.pthreadDataCreate answers.data
  if pth = st.table.length then some (st, .enomem)
  else
    match st.pthreadGetData pth with
    | none => none
    | some ptd =>
      pthreadBuild priorityMax st pth
        { ptd with attr := attr.getD (pthreadDefaultAttr priorityMax) } answers

/-! ## What a failed call leaves -/

def Effect.Assigned : Effect → Prop
  | .allocate _ => True
  | .free pointer => pointer ≠ .wild
  | .access pointer => pointer ≠ .null ∧ pointer ≠ .wild

instance : DecidablePred Effect.Assigned
  | .allocate _ => isTrue trivial
  | .free pointer => inferInstanceAs (Decidable (pointer ≠ .wild))
  | .access pointer => inferInstanceAs (Decidable (pointer ≠ .null ∧ pointer ≠ .wild))

/-- Every allocation was freed exactly once, and no pointer that was never assigned was used. -/
def Balanced (log : List Effect) : Prop :=
  (∀ object, log.count (.free (.object object)) = log.count (.allocate object)) ∧
    ∀ effect ∈ log, effect.Assigned

instance : DecidablePred Balanced :=
  fun _ => inferInstanceAs (Decidable (_ ∧ _))

/-- The table is as before, and the log is balanced. -/
def Undone (table : List (Option PthreadData)) (st : State) : Prop :=
  st.table = table ∧ Balanced st.log

variable {table : List (Option PthreadData)} {st : State} {pth : ℕ} {ptd : PthreadData}

theorem exists_slot (hslot : none ∈ table) :
    table.findIdx Option.isNone < table.length ∧
      table[table.findIdx Option.isNone]? = some none := by
  have hlt : table.findIdx Option.isNone < table.length :=
    List.findIdx_lt_length_of_exists ⟨none, hslot, rfl⟩
  have hnone : (table[table.findIdx Option.isNone]).isNone = true := List.findIdx_getElem
  rw [List.getElem?_eq_getElem hlt, Option.isNone_iff_eq_none.1 hnone]
  exact ⟨hlt, rfl⟩

theorem pthreadGetData_setData (hpth : pth < st.table.length) (hmagic : ptd.magic = true) :
    (st.setData pth (some ptd)).pthreadGetData pth = some ptd := by
  rw [State.pthreadGetData, State.setData]
  simp [hpth, hmagic]

theorem pthreadDataDestroy_setData (hpth : pth < st.table.length) (hmagic : ptd.magic = true) :
    (st.setData pth (some ptd)).pthreadDataDestroy pth =
      (st.setData pth none).releaseData ptd := by
  rw [State.pthreadDataDestroy, pthreadGetData_setData hpth hmagic]
  simp [State.setData]

theorem set_slot (hslot : table[pth]? = some none) (ptd : Option PthreadData) :
    (table.set pth ptd).set pth none = table := by
  obtain ⟨hlt, hnone⟩ := List.getElem?_eq_some_iff.1 hslot
  rw [List.set_set, ← hnone, List.set_getElem_self]

theorem pthreadDataCreate_failed {answer : Bool} (hnot : ¬(answer = true ∧ none ∈ table)) :
    ((State.begin table).pthreadDataCreate answer).2 = table.length ∧
      Undone table ((State.begin table).pthreadDataCreate answer).1 := by
  cases answer with
  | false => exact ⟨rfl, rfl, (by decide : Balanced [])⟩
  | true =>
    have hindex : table.findIdx Option.isNone = table.length := by
      refine List.findIdx_eq_length.2 fun entry hentry => ?_
      cases entry with
      | none => exact absurd ⟨rfl, hentry⟩ hnot
      | some ptd => rfl
    simp only [State.pthreadDataCreate, State.malloc, State.begin, State.emit, if_true,
      reduceCtorEq, if_false, hindex, State.rtFree]
    exact ⟨trivial, rfl, (by decide :
      Balanced [.allocate .data, .free (.object .data)])⟩

theorem pthreadDataCreate_slot (hslot : none ∈ table) :
    (State.begin table).pthreadDataCreate true =
      (((State.begin table).emit (.allocate .data)).setData (table.findIdx Option.isNone)
        (some (freshData (.object .data))), table.findIdx Option.isNone) := by
  have hlt := (exists_slot hslot).1
  rw [State.pthreadDataCreate, State.malloc, if_pos rfl]
  dsimp only
  rw [if_neg (by simp)]
  exact if_neg (Nat.ne_of_lt hlt)

/-- The exit of a call whose data is in a slot that was empty. -/
theorem failed_setData (hslot : table[pth]? = some none) {before : State}
    {entry : Option PthreadData} (htable : before.table = table.set pth entry)
    (hmagic : ptd.magic = true) (ret : Ret) :
    failed (before.setData pth (some ptd)) pth ret =
      some (State.releaseData { before with table := table } ptd, ret) := by
  obtain ⟨hlt, -⟩ := List.getElem?_eq_some_iff.1 hslot
  have hpth : pth < before.table.length := by rwa [htable, List.length_set]
  rw [failed, pthreadDataDestroy_setData hpth hmagic, State.setData, htable, set_slot hslot]

/-! ## When a failed call is undone -/

/-- What `rt_free` logs. -/
def freeLog (pointer : Pointer) : List Effect :=
  if pointer = .null then [] else [.free pointer]

theorem rtFree_eq (st : State) (pointer : Pointer) :
    st.rtFree pointer = { st with log := st.log ++ freeLog pointer } := by
  rw [State.rtFree, freeLog]
  split
  · rw [List.append_nil]
  · rfl

/-- What the clean-up logs: the thread object is always used. -/
theorem releaseData_eq (st : State) (ptd : PthreadData) :
    (st.releaseData ptd).table = st.table ∧
    (st.releaseData ptd).log = st.log ++ freeLog ptd.joinableSem ++
      (if ptd.attr.stackaddr = 0 then
        .access ptd.tid ::
          freeLog (if ptd.tid = .object .thread then st.stackAddr else .wild)
      else []) ++ [.access ptd.tid] ++ freeLog ptd.tls ++ freeLog ptd.tid ++
        freeLog ptd.address := by
  simp only [State.releaseData, rtFree_eq, State.readStackAddr, State.writeStackAddr, State.emit]
  split <;> simp

/-- Without a thread object the clean-up goes through a null pointer. -/
theorem not_undone_of_null (htid : ptd.tid = .null) :
    ¬Undone table (st.releaseData ptd) := by
  rintro ⟨-, -, hassigned⟩
  refine absurd (hassigned (.access .null) ?_) (by decide)
  rw [(releaseData_eq st ptd).2, htid]
  simp

/-- The stack is taken from a thread object that was not initialised. -/
theorem not_undone_of_wild (hown : ptd.attr.stackaddr = 0) (htid : ptd.tid = .object .thread)
    (hwild : st.stackAddr = .wild) : ¬Undone table (st.releaseData ptd) := by
  rintro ⟨-, -, hassigned⟩
  refine absurd (hassigned (.free .wild) ?_) (by decide)
  rw [(releaseData_eq st ptd).2, if_pos hown, if_pos htid, hwild]
  simp [freeLog]

/-- The condition under which a failure is undone, once the data is in the table. -/
def CanUndo (attr : PthreadAttr) (answers : Answers) : Prop :=
  answers.thread = true ∧ (attr.stackaddr = 0 → answers.stack = true ∧
    (attr.detachstate = pthreadCreateJoinable → answers.sem = true))

instance (attr : PthreadAttr) (answers : Answers) : Decidable (CanUndo attr answers) :=
  inferInstanceAs (Decidable (_ ∧ _))

/-- A call that returns an error has left nothing. -/
def Atomic (table : List (Option PthreadData)) (result : Option (State × Ret)) : Prop :=
  ∀ next ret, result = some (next, ret) → ret ≠ .zero → Undone table next

theorem atomic_some {next : State} {ret : Ret} (hret : ret ≠ .zero) :
    Atomic table (some (next, ret)) ↔ Undone table next := by
  refine ⟨fun hatomic => hatomic next ret rfl hret, fun hundone next' ret' hresult _ => ?_⟩
  cases hresult
  exact hundone

theorem atomic_zero {next : State} : Atomic table (some (next, .zero)) := by
  intro next' ret hresult hret
  exact absurd (congrArg Prod.snd (Option.some.inj hresult)).symm hret

theorem atomic_none : Atomic table none := by
  intro next ret hresult
  contradiction

/-- The semaphore could not be allocated, and the stack is the caller's. -/
theorem undone_given (hlog : st.log = [.allocate .data, .allocate .thread])
    (hgiven : ptd.attr.stackaddr ≠ 0) (htable : st.table = table)
    (haddress : ptd.address = .object .data) (htid : ptd.tid = .object .thread)
    (hsem : ptd.joinableSem = .null) (htls : ptd.tls = .null) :
    Undone table (st.releaseData ptd) := by
  obtain ⟨htable', hlog'⟩ := releaseData_eq st ptd
  refine ⟨htable'.trans htable, ?_⟩
  rw [hlog', hlog, if_neg hgiven, haddress, htid, hsem, htls]
  decide

theorem atomic_pthreadBuild (priorityMax : ℕ) (hslot : table[pth]? = some none)
    {entry : Option PthreadData} (htable : st.table = table.set pth entry)
    (hlog : st.log = [.allocate .data]) (hwild : st.stackAddr = .wild)
    (attr : PthreadAttr) (answers : Answers) :
    Atomic table (pthreadBuild priorityMax st pth
        { freshData (.object .data) with attr := attr } answers) ↔
      CanUndo attr answers := by
  have hfailed : ∀ (before : State) (ptd : PthreadData), before.table = st.table →
      ptd.magic = true → (Atomic table (failed (before.setData pth (some ptd)) pth .enomem) ↔
        Undone table (State.releaseData { before with table := table } ptd)) := by
    intro before ptd hbefore hmagic
    rw [failed_setData hslot (hbefore.trans htable) hmagic, atomic_some (by decide)]
  by_cases hstack : attr.stackaddr = 0 ∧ answers.stack = false
  · -- no stack
    have hnot : ¬CanUndo attr answers := fun hcan => by
      have htrue := (hcan.2 hstack.1).1
      rw [hstack.2] at htrue
      contradiction
    rw [pthreadBuild, if_pos hstack.1, hstack.2, State.malloc_false]
    dsimp only
    rw [if_pos rfl, hfailed _ _ rfl rfl]
    exact iff_of_false (not_undone_of_null rfl) hnot
  obtain ⟨middle, stack, hmalloc, hstackNull, hmiddle, hmiddleWild, hmiddleLog⟩ :
      ∃ middle stack, (if attr.stackaddr = 0 then st.malloc .stack answers.stack
        else (st, .given attr.stackaddr)) = (middle, stack) ∧ stack ≠ .null ∧
        middle.table = st.table ∧ middle.stackAddr = .wild ∧
        (attr.stackaddr ≠ 0 → middle.log = [.allocate .data]) := by
    by_cases hown : attr.stackaddr = 0
    · have hanswer : answers.stack = true := by
        simpa [hown] using hstack
      rw [if_pos hown, hanswer, State.malloc_true]
      exact ⟨_, _, rfl, by simp, rfl, hwild, fun hgiven => absurd hown hgiven⟩
    · rw [if_neg hown]
      exact ⟨_, _, rfl, by simp, rfl, hwild, fun _ => hlog⟩
  rw [pthreadBuild, hmalloc]
  dsimp only
  rw [if_neg hstackNull]
  cases hthread : answers.thread with
  | false =>
    -- no thread object
    rw [State.malloc_false]
    dsimp only
    rw [if_pos rfl, hfailed _ _ hmiddle rfl]
    exact iff_of_false (not_undone_of_null rfl) (by simp [CanUndo, hthread])
  | true =>
    rw [State.malloc_true]
    dsimp only
    rw [if_neg (by simp)]
    by_cases hsem : attr.detachstate = pthreadCreateJoinable ∧ answers.sem = false
    · -- no semaphore: it depends on whose the stack is
      rw [if_pos hsem.1, hsem.2, State.malloc_false]
      dsimp only
      rw [if_pos ⟨hsem.1, rfl⟩, hfailed (middle.emit (.allocate .thread)) _ hmiddle rfl]
      by_cases hown : attr.stackaddr = 0
      · refine iff_of_false (not_undone_of_wild hown rfl hmiddleWild) fun hcan => ?_
        have htrue := (hcan.2 hown).2 hsem.1
        rw [hsem.2] at htrue
        contradiction
      · refine iff_of_true (undone_given ?_ hown rfl rfl rfl rfl rfl)
          ⟨hthread, fun hnull => absurd hnull hown⟩
        rw [State.emit, hmiddleLog hown]
        rfl
    · have hcan : CanUndo attr answers := by
        refine ⟨hthread, fun hown => ⟨by simpa [hown] using hstack, fun hjoin => ?_⟩⟩
        simpa [hjoin] using hsem
      refine iff_of_true ?_ hcan
      obtain ⟨after, sem, hmalloc', hsemNull⟩ : ∃ after sem,
          (if attr.detachstate = pthreadCreateJoinable then
            (middle.emit (.allocate .thread)).malloc .sem answers.sem
          else (middle.emit (.allocate .thread), .null)) = (after, sem) ∧
          ¬(attr.detachstate = pthreadCreateJoinable ∧ sem = .null) := by
        by_cases hjoin : attr.detachstate = pthreadCreateJoinable
        · have hanswer : answers.sem = true := by
            simpa [hjoin] using hsem
          rw [if_pos hjoin, hanswer, State.malloc_true]
          exact ⟨_, _, rfl, by simp⟩
        · rw [if_neg hjoin]
          exact ⟨_, _, rfl, fun hboth => hjoin hboth.1⟩
      rw [hmalloc']
      dsimp only
      rw [if_neg hsemNull, State.rtThreadInit]
      by_cases hpriority : attr.schedPriority % 0x100 < priorityMax
      · rw [if_pos hpriority]
        exact atomic_zero
      · rw [if_neg hpriority]
        exact atomic_none

/-- A call on any table: what fails is undone if and only if nothing was entered into the table,
or the thread object was allocated and, for a thread whose stack the call allocates, so were the
stack and the semaphore. -/
theorem pthread_create_atomic_iff (priorityMax : ℕ) (table : List (Option PthreadData))
    (attr : Option PthreadAttr) (answers : Answers) :
    Atomic table (pthreadCreate priorityMax (State.begin table) attr answers) ↔
      (answers.data = true → none ∈ table →
        CanUndo (attr.getD (pthreadDefaultAttr priorityMax)) answers) := by
  by_cases hentered : answers.data = true ∧ none ∈ table
  · obtain ⟨hdata, hslot⟩ := hentered
    obtain ⟨hlt, hempty⟩ := exists_slot hslot
    have hlength : table.findIdx Option.isNone ≠ (((State.begin table).emit
        (.allocate .data)).setData (table.findIdx Option.isNone)
          (some (freshData (.object .data)))).table.length := by
      rw [State.setData, List.length_set]
      exact Nat.ne_of_lt hlt
    rw [pthreadCreate, hdata, pthreadDataCreate_slot hslot]
    dsimp only
    rw [if_neg hlength, pthreadGetData_setData hlt rfl]
    dsimp only
    rw [atomic_pthreadBuild priorityMax hempty rfl rfl rfl]
    simp [hslot]
  · obtain ⟨hindex, hundone⟩ := pthreadDataCreate_failed hentered
    refine iff_of_true ?_ fun hdata hslot => absurd ⟨hdata, hslot⟩ hentered
    have hlength : ((State.begin table).pthreadDataCreate answers.data).2 =
        ((State.begin table).pthreadDataCreate answers.data).1.table.length := by
      rw [hindex, hundone.1]
    rw [pthreadCreate]
    dsimp only
    rw [if_pos hlength, atomic_some (by decide)]
    exact hundone

/-- The stack of a thread with the default attributes cannot be allocated. -/
theorem pthread_create_null :
    ∃ next, pthreadCreate 32 (State.begin [none]) none ⟨true, false, true, true⟩ =
        some (next, .enomem) ∧
      Effect.access .null ∈ next.log ∧ Effect.free .wild ∈ next.log ∧ ¬Undone [none] next := by
  refine ⟨_, rfl, by decide, by decide, ?_⟩
  rintro ⟨-, hbalanced⟩
  exact absurd hbalanced (by decide)

end RtThread.Pthreads.ThreadCreate
