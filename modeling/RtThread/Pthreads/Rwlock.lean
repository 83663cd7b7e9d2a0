import RtThread.Core.Recorder
import RtThread.Core.Tally

set_option linter.all false

/-!
# Read-write locks

`pthread_rwlock.c` over condition variables that are taken to be right: a wait lets go of the
mutex and blocks in one step, a signal wakes one thread that is blocked, and a broadcast all
of them.  Everything else is done with the mutex held.

Readers also wait for the writers that wait.  A writer that gives up with `ETIMEDOUT` stops
being waited for, and wakes nobody.
-/

namespace RtThread.Pthreads

open Function
open RtThread.Core

inductive RwKind
  | reader | writer
  deriving DecidableEq

inductive RwResult
  | zero | ebusy | etimedout
  deriving DecidableEq

/-- Where a thread is: outside, blocked on `rw_condreaders` or `rw_condwriters`, woken with
the result of its wait and before it has the mutex again. -/
inductive RwPc
  | out
  | blocked (kind : RwKind) (timed : Bool)
  | woken (kind : RwKind) (timed : Bool) (result : RwResult)
  deriving DecidableEq

structure RwState (Tid : Type*) where
  refcount : ℤ
  nwaitReaders : ℕ
  nwaitWriters : ℕ
  pc : Tid → RwPc

inductive RwAction (Tid : Type*)
  | rdlock (tid : Tid)
  | tryrdlock (tid : Tid)
  | timedrdlock (tid : Tid)
  | wrlock (tid : Tid)
  | trywrlock (tid : Tid)
  | timedwrlock (tid : Tid)
  /-- If a writer is signalled, it is `writer`. -/
  | unlock (tid writer : Tid)
  /-- The time of a thread that is blocked is over. -/
  | expire (tid : Tid)
  /-- A thread that has been woken has the mutex again. -/
  | resume (tid : Tid)

inductive RwEvent
  | returned (result : RwResult)
  | blocked
  | moved
  deriving DecidableEq

namespace RwPc

def isBlocked : RwPc → Bool
  | .blocked _ _ => true
  | _ => false

/-- Between a wake-up and what the thread does about it. -/
def inTransit : RwPc → Bool
  | .woken _ _ _ => true
  | _ => false

/-- What `pthread_cond_broadcast` of `rw_condreaders` does. -/
def wakeReader : RwPc → RwPc
  | .blocked .reader timed => .woken .reader timed .zero
  | pc => pc

/-- Counted by `rw_nwaitreaders` or `rw_nwaitwriters`. -/
def waits (kind : RwKind) : RwPc → ℕ
  | .blocked other _ | .woken other _ _ => if other = kind then 1 else 0
  | .out => 0

end RwPc

section Machine

variable {Tid : Type*} [DecidableEq Tid]

namespace RwState

variable (st : RwState Tid)

def setPc (tid : Tid) (pc : RwPc) : RwState Tid :=
  { st with pc := update st.pc tid pc }

def addWaiter : RwKind → RwState Tid
  | .reader => { st with nwaitReaders := st.nwaitReaders + 1 }
  | .writer => { st with nwaitWriters := st.nwaitWriters + 1 }

def dropWaiter : RwKind → RwState Tid
  | .reader => { st with nwaitReaders := st.nwaitReaders - 1 }
  | .writer => { st with nwaitWriters := st.nwaitWriters - 1 }

/-- The test of the loops: writers that wait go before readers. -/
def mustWait : RwKind → Bool
  | .reader => st.refcount < 0 ∨ st.nwaitWriters > 0
  | .writer => st.refcount ≠ 0

def acquire : RwKind → RwState Tid
  | .reader => { st with refcount := st.refcount + 1 }
  | .writer => { st with refcount := -1 }

/-- The loops of `pthread_rwlock_rdlock`, `_wrlock` and the timed functions. -/
def lockLoop (tid : Tid) (kind : RwKind) (timed : Bool) : RwState Tid × RwEvent :=
  if st.mustWait kind = true then
    ((st.addWaiter kind).setPc tid (.blocked kind timed), .blocked)
  else ((st.acquire kind).setPc tid .out, .returned .zero)

def pthreadRwlockRdlock (tid : Tid) : RwState Tid × RwEvent :=
  st.lockLoop tid .reader false

def pthreadRwlockTimedrdlock (tid : Tid) : RwState Tid × RwEvent :=
  st.lockLoop tid .reader true

def pthreadRwlockWrlock (tid : Tid) : RwState Tid × RwEvent :=
  st.lockLoop tid .writer false

def pthreadRwlockTimedwrlock (tid : Tid) : RwState Tid × RwEvent :=
  st.lockLoop tid .writer true

def tryLock (kind : RwKind) : RwState Tid × RwEvent :=
  if st.mustWait kind = true then (st, .returned .ebusy)
  else (st.acquire kind, .returned .zero)

def pthreadRwlockTryrdlock : RwState Tid × RwEvent :=
  st.tryLock .reader

def pthreadRwlockTrywrlock : RwState Tid × RwEvent :=
  st.tryLock .writer

/-- A thread comes back from its wait: an error ends the loop. -/
def resumeLoop (tid : Tid) (kind : RwKind) (timed : Bool) (result : RwResult) :
    RwState Tid × RwEvent :=
  if result = .zero then (st.dropWaiter kind).lockLoop tid kind timed
  else ((st.dropWaiter kind).setPc tid .out, .returned result)

/-- `rw_refcount` after `pthread_rwlock_unlock`. -/
def unlockedCount : ℤ :=
  if st.refcount > 0 then st.refcount - 1
  else if st.refcount = -1 then 0
  else st.refcount

variable [Fintype Tid]

/-- `pthread_cond_signal` of `rw_condwriters`: it wakes a thread that is blocked there, if there
is one. -/
def signalWriter (writer : Tid) : Option (RwState Tid) :=
  match st.pc writer with
  | .blocked .writer timed => some (st.setPc writer (.woken .writer timed .zero))
  | _ =>
    if ∀ tid, ∀ timed, st.pc tid ≠ .blocked .writer timed then some st else none

def pthreadRwlockUnlock (writer : Tid) : Option (RwState Tid) :=
  let unlocked := { st with refcount := st.unlockedCount }
  if unlocked.nwaitWriters > 0 then
    if unlocked.refcount = 0 then unlocked.signalWriter writer else some unlocked
  else if unlocked.nwaitReaders > 0 then
    some { unlocked with pc := fun tid => (unlocked.pc tid).wakeReader }
  else some unlocked

end RwState

variable [Fintype Tid]

def rwStep (st : RwState Tid) : RwAction Tid → Option (RwState Tid × RwEvent)
  | .rdlock tid => if st.pc tid = .out then some (st.pthreadRwlockRdlock tid) else none
  | .tryrdlock tid => if st.pc tid = .out then some st.pthreadRwlockTryrdlock else none
  | .timedrdlock tid =>
    if st.pc tid = .out then some (st.pthreadRwlockTimedrdlock tid) else none
  | .wrlock tid => if st.pc tid = .out then some (st.pthreadRwlockWrlock tid) else none
  | .trywrlock tid => if st.pc tid = .out then some st.pthreadRwlockTrywrlock else none
  | .timedwrlock tid =>
    if st.pc tid = .out then some (st.pthreadRwlockTimedwrlock tid) else none
  | .unlock tid writer =>
    if st.pc tid = .out then
      match st.pthreadRwlockUnlock writer with
      | some next => some (next, .returned .zero)
      | none => none
    else none
  | .expire tid =>
    match st.pc tid with
    | .blocked kind true => some (st.setPc tid (.woken kind true .etimedout), .moved)
    | _ => none
  | .resume tid =>
    match st.pc tid with
    | .woken kind timed result => some (st.resumeLoop tid kind timed result)
    | _ => none

def rwMachine : Machine (RwState Tid) (RwAction Tid) RwEvent where
  step := rwStep

/-- `pthread_rwlock_init`. -/
def rwInit : RwState Tid :=
  ⟨0, 0, 0, fun _ => .out⟩

/-! ## Who holds the lock -/

/-- How often a thread holds the lock for reading and for writing. -/
structure RwHold where
  reads : ℕ
  writes : ℕ

def RwHold.add (hold : RwHold) : RwKind → RwHold
  | .reader => { hold with reads := hold.reads + 1 }
  | .writer => { hold with writes := hold.writes + 1 }

def RwHold.drop (hold : RwHold) : RwHold :=
  if hold.writes > 0 then { hold with writes := hold.writes - 1 }
  else { hold with reads := hold.reads - 1 }

theorem RwHold.drop_reads (hold : RwHold) :
    hold.drop.reads = if hold.writes > 0 then hold.reads else hold.reads - 1 := by
  rw [RwHold.drop]
  split <;> rfl

theorem RwHold.drop_writes (hold : RwHold) : hold.drop.writes = hold.writes - 1 := by
  rw [RwHold.drop]
  split
  · rfl
  · dsimp only
    omega

/-- Whose call of which kind returns when the step returns. -/
def rwRequest (st : RwState Tid) : RwAction Tid → Option (Tid × RwKind)
  | .rdlock tid | .tryrdlock tid | .timedrdlock tid => some (tid, .reader)
  | .wrlock tid | .trywrlock tid | .timedwrlock tid => some (tid, .writer)
  | .resume tid =>
    match st.pc tid with
    | .woken kind _ _ => some (tid, kind)
    | _ => none
  | .unlock _ _ | .expire _ => none

def recordHolds (holds : Tid → RwHold) (st : RwState Tid) (act : RwAction Tid)
    (_ : RwState Tid) (event : RwEvent) : Tid → RwHold :=
  match act with
  | .unlock tid _ => update holds tid (holds tid).drop
  | _ =>
    match event, rwRequest st act with
    | .returned .zero, some (tid, kind) => update holds tid ((holds tid).add kind)
    | _, _ => holds

/-- The count tells who holds the lock, and when the lock is free and no thread is about to look
at it, no thread is blocked. -/
structure RwKept (st : RwState Tid × (Tid → RwHold)) : Prop where
  writer : st.1.refcount = -1 ↔ tally RwHold.writes st.2 = 1
  readers : ∀ n : ℕ, st.1.refcount = n ↔
    tally RwHold.reads st.2 = n ∧ tally RwHold.writes st.2 = 0
  free : st.1.refcount = 0 → (∀ tid, (st.1.pc tid).inTransit = false) →
    ∀ tid, (st.1.pc tid).isBlocked = false

/-- A thread that gives up with `ETIMEDOUT` when the lock is free leaves another thread that is
about to look at the lock, or nobody who is blocked; and a lock that is not free is unlocked by
a thread that holds it. -/
def LeavesSomeone (st : RwState Tid × (Tid → RwHold)) : RwAction Tid → Prop
  | .resume tid =>
    (∃ kind timed result, st.1.pc tid = .woken kind timed result ∧ result ≠ .zero) →
      st.1.refcount = 0 → (∃ other, other ≠ tid ∧ (st.1.pc other).inTransit = true) ∨
        ∀ other, (st.1.pc other).isBlocked = false
  | .unlock tid _ => st.1.refcount = 0 ∨ 0 < (st.2 tid).reads + (st.2 tid).writes
  | _ => True

def rwRecorded : Machine (RwState Tid × (Tid → RwHold)) (RwAction Tid) RwEvent :=
  rwMachine.recorded recordHolds

/-! ## What the fields say -/

/-- The counts: of the threads that hold the lock, and of those that wait. -/
structure RwCounted (st : RwState Tid) (holds : Tid → RwHold) : Prop where
  holders : st.refcount = -1 ∧ tally RwHold.writes holds = 1 ∧ tally RwHold.reads holds = 0 ∨
    tally RwHold.writes holds = 0 ∧ st.refcount = tally RwHold.reads holds
  readers : st.nwaitReaders = tally (RwPc.waits .reader) st.pc
  writers : st.nwaitWriters = tally (RwPc.waits .writer) st.pc

/-- When the lock is free and a writer is blocked, another one has been signalled. -/
def WriterSignalled (st : RwState Tid) : Prop :=
  st.refcount = 0 → ∀ tid timed, st.pc tid = .blocked .writer timed →
    ∃ other timed, st.pc other = .woken .writer timed .zero

/-- When the lock is free and a thread is blocked, another one is about to look at it. -/
def SomeoneLooks (st : RwState Tid) : Prop :=
  st.refcount = 0 → ∀ tid, (st.pc tid).isBlocked = true →
    ∃ other, (st.pc other).inTransit = true

structure RwInv (st : RwState Tid) (holds : Tid → RwHold) : Prop where
  counted : RwCounted st holds
  writerSignalled : WriterSignalled st
  someoneLooks : SomeoneLooks st

section Steps

variable {st next : RwState Tid} {holds : Tid → RwHold} {act : RwAction Tid}
variable {event : RwEvent} {tid : Tid} {kind : RwKind}

omit [DecidableEq Tid] in
theorem RwInv.kept (hinv : RwInv st holds) : RwKept (st, holds) where
  writer := by
    dsimp only
    rcases hinv.counted.holders with ⟨hcount, hwrites, _⟩ | ⟨hwrites, hcount⟩ <;> omega
  readers n := by
    dsimp only
    rcases hinv.counted.holders with ⟨hcount, hwrites, _⟩ | ⟨hwrites, hcount⟩ <;> omega
  free hfree hnone tid := by
    by_contra hblocked
    obtain ⟨other, hother⟩ := hinv.someoneLooks hfree tid (Bool.not_eq_false _ ▸ hblocked)
    exact absurd hother (by rw [hnone other]; exact Bool.false_ne_true)

omit [DecidableEq Tid] in
theorem rwInv_init : RwInv (rwInit : RwState Tid) fun _ => ⟨0, 0⟩ where
  counted := ⟨Or.inr ⟨by simp [tally], by simp [tally, rwInit]⟩,
    by simp [tally, rwInit, RwPc.waits],
    by simp [tally, rwInit, RwPc.waits]⟩
  writerSignalled _ tid timed hpc := by cases hpc
  someoneLooks _ tid hblocked := by cases hblocked

omit [Fintype Tid] in
theorem RwState.setPc_pc_self (pc : RwPc) : (st.setPc tid pc).pc tid = pc :=
  update_self _ _ _

omit [Fintype Tid] in
theorem RwState.setPc_pc_of_ne {other : Tid} (hne : other ≠ tid) (pc : RwPc) :
    (st.setPc tid pc).pc other = st.pc other :=
  update_of_ne hne _ _

theorem RwCounted.addWaiter (hcounted : RwCounted st holds) (hout : st.pc tid = .out)
    (kind : RwKind) (timed : Bool) :
    RwCounted ((st.addWaiter kind).setPc tid (.blocked kind timed)) holds := by
  have hreaders := tally_update (RwPc.waits .reader) st.pc tid (.blocked kind timed)
  have hwriters := tally_update (RwPc.waits .writer) st.pc tid (.blocked kind timed)
  have hcountReaders := hcounted.readers
  have hcountWriters := hcounted.writers
  rw [hout] at hreaders hwriters
  cases kind with
  | reader =>
    simp only [RwPc.waits, if_true, reduceCtorEq, if_false] at hreaders hwriters
    refine ⟨hcounted.holders, ?_, ?_⟩ <;> dsimp only [RwState.setPc, RwState.addWaiter] <;> omega
  | writer =>
    simp only [RwPc.waits, if_true, reduceCtorEq, if_false] at hreaders hwriters
    refine ⟨hcounted.holders, ?_, ?_⟩ <;> dsimp only [RwState.setPc, RwState.addWaiter] <;> omega

/-- A thread that has been woken is not counted any more. -/
theorem RwCounted.dropWaiter (hcounted : RwCounted st holds) {timed : Bool} {result : RwResult}
    (hwoken : st.pc tid = .woken kind timed result) :
    RwCounted ((st.dropWaiter kind).setPc tid .out) holds := by
  have hreaders := tally_update (RwPc.waits .reader) st.pc tid .out
  have hwriters := tally_update (RwPc.waits .writer) st.pc tid .out
  have hcountReaders := hcounted.readers
  have hcountWriters := hcounted.writers
  rw [hwoken] at hreaders hwriters
  cases kind with
  | reader =>
    simp only [RwPc.waits, if_true, reduceCtorEq, if_false] at hreaders hwriters
    refine ⟨hcounted.holders, ?_, ?_⟩ <;> dsimp only [RwState.setPc, RwState.dropWaiter] <;> omega
  | writer =>
    simp only [RwPc.waits, if_true, reduceCtorEq, if_false] at hreaders hwriters
    refine ⟨hcounted.holders, ?_, ?_⟩ <;> dsimp only [RwState.setPc, RwState.dropWaiter] <;> omega

omit [DecidableEq Tid] in
theorem RwCounted.wake (hcounted : RwCounted st holds) {pc : Tid → RwPc}
    (hpc : ∀ tid kind, (pc tid).waits kind = (st.pc tid).waits kind) :
    RwCounted { st with pc := pc } holds := by
  have hsame : ∀ kind, tally (RwPc.waits kind) pc = tally (RwPc.waits kind) st.pc :=
    fun kind => Finset.sum_congr rfl fun tid _ => hpc tid kind
  refine ⟨hcounted.holders, ?_, ?_⟩ <;> dsimp only <;> rw [hsame]
  · exact hcounted.readers
  · exact hcounted.writers

/-- The lock is given to a thread that need not wait. -/
theorem RwCounted.acquire (hcounted : RwCounted st holds)
    (hmust : st.mustWait kind = false) (tid : Tid) :
    RwCounted (st.acquire kind) (update holds tid ((holds tid).add kind)) ∧
      (st.acquire kind).refcount ≠ 0 := by
  have hreads := tally_update RwHold.reads holds tid ((holds tid).add kind)
  have hwrites := tally_update RwHold.writes holds tid ((holds tid).add kind)
  have hholders := hcounted.holders
  cases kind with
  | reader =>
    simp only [RwState.mustWait, decide_eq_false_iff_not, not_or] at hmust
    simp only [RwHold.add] at hreads hwrites
    refine ⟨⟨Or.inr ?_, hcounted.readers, hcounted.writers⟩, ?_⟩
    · dsimp only [RwState.acquire, RwHold.add]
      omega
    · dsimp only [RwState.acquire]
      omega
  | writer =>
    simp only [RwState.mustWait, decide_eq_false_iff_not, not_not] at hmust
    simp only [RwHold.add] at hreads hwrites
    refine ⟨⟨Or.inl ?_, hcounted.readers, hcounted.writers⟩, ?_⟩
    · dsimp only [RwState.acquire, RwHold.add]
      omega
    · dsimp only [RwState.acquire]
      omega

/-- The holds after a call of `tid` for `kind` that has gone as `event` says. -/
def granted (holds : Tid → RwHold) (tid : Tid) (kind : RwKind) : RwEvent → Tid → RwHold
  | .returned .zero => update holds tid ((holds tid).add kind)
  | _ => holds

omit [DecidableEq Tid] in
/-- In a state in which the lock is not free, nobody need look at it. -/
theorem RwInv.of_taken (hcounted : RwCounted st holds) (htaken : st.refcount ≠ 0) :
    RwInv st holds :=
  ⟨hcounted, fun hfree => absurd hfree htaken, fun hfree => absurd hfree htaken⟩

theorem RwInv.tryLock (hinv : RwInv st holds) (tid : Tid) (kind : RwKind) :
    RwInv (st.tryLock kind).1 (granted holds tid kind (st.tryLock kind).2) := by
  rw [RwState.tryLock]
  split
  · exact hinv
  · rename_i hmust
    obtain ⟨hcounted, htaken⟩ := hinv.counted.acquire (Bool.not_eq_true _ ▸ hmust) tid
    exact RwInv.of_taken hcounted htaken

/-- The loop, from the state in which the thread is outside. -/
theorem lockLoop_inv (hcounted : RwCounted st holds) (hout : st.pc tid = .out)
    (hsignalled : kind = .reader → WriterSignalled st) (timed : Bool) :
    RwInv (st.lockLoop tid kind timed).1
      (granted holds tid kind (st.lockLoop tid kind timed).2) := by
  rw [RwState.lockLoop]
  split
  · rename_i hmust
    have hwaits := hcounted.addWaiter hout kind timed
    by_cases htaken : st.refcount ≠ 0
    · refine RwInv.of_taken hwaits ?_
      cases kind <;> exact htaken
    · have hfree : st.refcount = 0 := not_not.1 htaken
      cases kind with
      | writer =>
        simp only [RwState.mustWait, hfree] at hmust
        cases hmust
      | reader =>
        have hsignalled := hsignalled rfl hfree
        -- a writer that waits has been signalled, or another one has
        have htransit : ∃ other, other ≠ tid ∧ (st.pc other).inTransit = true := by
          have hwriters : tally (RwPc.waits .writer) st.pc ≠ 0 := by
            rw [← hcounted.writers]
            simp only [RwState.mustWait, hfree, decide_eq_true_eq] at hmust
            omega
          rw [Ne, tally_eq_zero_iff, not_forall] at hwriters
          obtain ⟨writer, hwriter⟩ := hwriters
          have hne : ∀ other, st.pc other ≠ .out → other ≠ tid := by
            rintro other hother rfl
            exact hother hout
          cases hpc : st.pc writer with
          | out =>
            rw [hpc] at hwriter
            exact absurd rfl hwriter
          | woken other wokenTimed result =>
            exact ⟨writer, hne writer (by simp [hpc]), by rw [hpc]; rfl⟩
          | blocked other blockedTimed =>
            obtain rfl : other = .writer := by
              rw [hpc] at hwriter
              by_contra hreader
              exact hwriter (if_neg hreader)
            obtain ⟨other, otherTimed, hother⟩ := hsignalled writer blockedTimed hpc
            exact ⟨other, hne other (by simp [hother]), by rw [hother]; rfl⟩
        refine ⟨hwaits, fun _ other otherTimed hother => ?_, fun _ _ _ => ?_⟩
        · have hne : other ≠ tid := by
            rintro rfl
            rw [RwState.setPc_pc_self] at hother
            cases hother
          rw [RwState.setPc_pc_of_ne hne] at hother
          obtain ⟨signalled, signalledTimed, hpc⟩ := hsignalled other otherTimed hother
          refine ⟨signalled, signalledTimed, ?_⟩
          rw [RwState.setPc_pc_of_ne]
          · exact hpc
          · rintro rfl
            rw [hout] at hpc
            cases hpc
        · obtain ⟨other, hne, hother⟩ := htransit
          refine ⟨other, ?_⟩
          rw [RwState.setPc_pc_of_ne hne]
          exact hother
  · rename_i hmust
    obtain ⟨hgranted, htaken⟩ := hcounted.acquire (Bool.not_eq_true _ ▸ hmust) tid
    refine RwInv.of_taken ?_ htaken
    have hpc : ((st.acquire kind).setPc tid .out) = st.acquire kind := by
      have hsame : (st.acquire kind).pc = st.pc := by cases kind <;> rfl
      rw [RwState.setPc, hsame, ← hout, update_eq_self, ← hsame]
    rw [hpc]
    exact hgranted

omit [Fintype Tid] in
theorem lockLoop_setPc_out (timed : Bool) :
    (st.setPc tid .out).lockLoop tid kind timed = st.lockLoop tid kind timed := by
  have hmust : (st.setPc tid .out).mustWait kind = st.mustWait kind := by
    cases kind <;> rfl
  rw [RwState.lockLoop, RwState.lockLoop, hmust]
  cases kind <;>
    simp only [RwState.setPc, RwState.addWaiter, RwState.acquire, update_idem]

omit [Fintype Tid] in
theorem WriterSignalled.out (hsignalled : WriterSignalled st)
    (hnot : ∀ timed, st.pc tid ≠ .woken .writer timed .zero) :
    WriterSignalled ((st.dropWaiter kind).setPc tid .out) := by
  intro hfree other timed hother
  have hsame : (st.dropWaiter kind).pc = st.pc ∧
      (st.dropWaiter kind).refcount = st.refcount := by
    cases kind <;> exact ⟨rfl, rfl⟩
  have hne : other ≠ tid := by
    rintro rfl
    rw [RwState.setPc_pc_self] at hother
    cases hother
  rw [RwState.setPc_pc_of_ne hne, hsame.1] at hother
  obtain ⟨signalled, signalledTimed, hpc⟩ :=
    hsignalled (hsame.2.symm.trans hfree) other timed hother
  refine ⟨signalled, signalledTimed, ?_⟩
  rw [RwState.setPc_pc_of_ne, hsame.1]
  · exact hpc
  · rintro rfl
    exact hnot signalledTimed hpc

theorem RwInv.resume (hinv : RwInv st holds) {timed : Bool} {result : RwResult}
    (hpc : st.pc tid = .woken kind timed result)
    (hgood : LeavesSomeone (st, holds) (.resume tid)) :
    RwInv (st.resumeLoop tid kind timed result).1
      (granted holds tid kind (st.resumeLoop tid kind timed result).2) := by
  have hdropped := hinv.counted.dropWaiter hpc
  rw [RwState.resumeLoop]
  split
  · rename_i hzero
    subst hzero
    rw [← lockLoop_setPc_out]
    refine lockLoop_inv hdropped (RwState.setPc_pc_self _) ?_ timed
    rintro rfl
    exact hinv.writerSignalled.out (by simp [hpc])
  · rename_i hresult
    have hgranted : granted holds tid kind (.returned result) = holds := by
      cases result
      · exact absurd rfl hresult
      · rfl
      · rfl
    rw [hgranted]
    refine ⟨hdropped, hinv.writerSignalled.out fun other hother => ?_, fun hfree other hother => ?_⟩
    · rw [hpc] at hother
      cases hother
      exact hresult rfl
    · have hsame : (st.dropWaiter kind).pc = st.pc ∧
          (st.dropWaiter kind).refcount = st.refcount := by
        cases kind <;> exact ⟨rfl, rfl⟩
      have hne : other ≠ tid := by
        rintro rfl
        rw [RwState.setPc_pc_self] at hother
        cases hother
      rw [RwState.setPc_pc_of_ne hne, hsame.1] at hother
      rcases hgood ⟨kind, timed, result, hpc, hresult⟩ (hsame.2.symm.trans hfree) with
        ⟨looks, hlooks, htransit⟩ | hnone
      · refine ⟨looks, ?_⟩
        rw [RwState.setPc_pc_of_ne hlooks, hsame.1]
        exact htransit
      · exact absurd hother (by rw [hnone other]; exact Bool.false_ne_true)

theorem RwInv.expire (hinv : RwInv st holds) (hpc : st.pc tid = .blocked kind true) :
    RwInv (st.setPc tid (.woken kind true .etimedout)) holds := by
  refine ⟨hinv.counted.wake fun other otherKind => ?_, fun hfree other timed hother => ?_,
    fun _ _ _ => ⟨tid, ?_⟩⟩
  · by_cases hother : other = tid
    · subst hother
      rw [update_self, hpc]
      rfl
    · rw [update_of_ne hother]
  · have hne : other ≠ tid := by
      rintro rfl
      rw [RwState.setPc_pc_self] at hother
      cases hother
    rw [RwState.setPc_pc_of_ne hne] at hother
    obtain ⟨signalled, signalledTimed, hsignalled⟩ :=
      hinv.writerSignalled hfree other timed hother
    refine ⟨signalled, signalledTimed, ?_⟩
    rw [RwState.setPc_pc_of_ne]
    · exact hsignalled
    · rintro rfl
      rw [hpc] at hsignalled
      cases hsignalled
  · rw [RwState.setPc_pc_self]
    rfl

/-- The lock is unlocked by a thread that holds it, or is free. -/
theorem RwCounted.unlock (hcounted : RwCounted st holds)
    (hgood : st.refcount = 0 ∨ 0 < (holds tid).reads + (holds tid).writes) :
    RwCounted { st with refcount := st.unlockedCount }
      (update holds tid (holds tid).drop) := by
  have hreads := tally_update RwHold.reads holds tid (holds tid).drop
  have hwrites := tally_update RwHold.writes holds tid (holds tid).drop
  have hleReads := le_tally RwHold.reads holds tid
  have hleWrites := le_tally RwHold.writes holds tid
  have hholders := hcounted.holders
  rw [RwHold.drop_reads] at hreads
  rw [RwHold.drop_writes] at hwrites
  refine ⟨?_, hcounted.readers, hcounted.writers⟩
  simp only [RwState.unlockedCount]
  split_ifs at hreads ⊢ <;> omega

omit [DecidableEq Tid] in
theorem RwCounted.blocked_counted (hcounted : RwCounted st holds) {timed : Bool}
    (hpc : st.pc tid = .blocked kind timed) :
    match kind with
    | .reader => 0 < st.nwaitReaders
    | .writer => 0 < st.nwaitWriters := by
  have hle := le_tally (RwPc.waits kind) st.pc tid
  rw [hpc, RwPc.waits, if_pos rfl] at hle
  cases kind with
  | reader => exact hcounted.readers ▸ hle
  | writer => exact hcounted.writers ▸ hle

omit [DecidableEq Tid] in
/-- When no writer is blocked, one that is counted is about to look at the lock. -/
theorem RwCounted.writer_looks (hcounted : RwCounted st holds)
    (hwriters : 0 < st.nwaitWriters)
    (hnone : ∀ tid timed, st.pc tid ≠ .blocked .writer timed) :
    ∃ other, (st.pc other).inTransit = true := by
  rw [hcounted.writers] at hwriters
  have hsome := Nat.pos_iff_ne_zero.1 hwriters
  rw [Ne, tally_eq_zero_iff, not_forall] at hsome
  obtain ⟨writer, hwriter⟩ := hsome
  refine ⟨writer, ?_⟩
  cases hpc : st.pc writer with
  | out =>
    rw [hpc] at hwriter
    exact absurd rfl hwriter
  | woken kind timed result => rfl
  | blocked kind timed =>
    cases kind with
    | writer => exact absurd hpc (hnone writer timed)
    | reader =>
      rw [hpc] at hwriter
      exact absurd rfl hwriter

theorem RwInv.unlock (hinv : RwInv st holds) {writer : Tid}
    (hgood : LeavesSomeone (st, holds) (.unlock tid writer))
    (hunlock : st.pthreadRwlockUnlock writer = some next) :
    RwInv next (update holds tid (holds tid).drop) := by
  have hcounted := hinv.counted.unlock hgood
  have hreader : ∀ {other : Tid} {timed : Bool}, st.pc other = .blocked .reader timed →
      0 < st.nwaitReaders := fun hpc => hinv.counted.blocked_counted hpc
  have hwriter : ∀ {other : Tid} {timed : Bool}, st.pc other = .blocked .writer timed →
      0 < st.nwaitWriters := fun hpc => hinv.counted.blocked_counted hpc
  simp only [RwState.pthreadRwlockUnlock] at hunlock
  split_ifs at hunlock with hwriters hfree hreaders
  · rw [RwState.signalWriter] at hunlock
    split at hunlock
    · rename_i timed hpc
      cases hunlock
      refine ⟨hcounted.wake fun other kind => ?_, fun _ _ _ _ => ⟨writer, timed, ?_⟩,
        fun _ _ _ => ⟨writer, ?_⟩⟩
      · by_cases hother : other = writer
        · subst hother
          rw [update_self, hpc]
          rfl
        · rw [update_of_ne hother]
      · exact RwState.setPc_pc_self _
      · rw [RwState.setPc_pc_self]
        rfl
    · split_ifs at hunlock with hnone
      cases hunlock
      exact ⟨hcounted, fun _ other timed hpc => absurd hpc (hnone other timed),
        fun _ _ _ => hcounted.writer_looks hwriters hnone⟩
  · cases hunlock
    exact RwInv.of_taken hcounted hfree
  · cases hunlock
    have hnone : ∀ other timed, st.pc other ≠ .blocked .writer timed :=
      fun other timed hpc => hwriters (hwriter hpc)
    have hawake : ∀ other kind timed, (st.pc other).wakeReader ≠ .blocked kind timed := by
      intro other kind timed hpc
      cases hbefore : st.pc other with
      | blocked blockedKind blockedTimed =>
        cases blockedKind with
        | writer => exact hnone other blockedTimed hbefore
        | reader =>
          rw [hbefore] at hpc
          cases hpc
      | _ =>
        rw [hbefore] at hpc
        cases hpc
    refine ⟨hcounted.wake fun other kind => ?_, fun _ other timed hpc => ?_,
      fun _ other hpc => ?_⟩
    · dsimp only
      cases hbefore : st.pc other with
      | blocked blockedKind timed => cases blockedKind <;> rfl
      | _ => rfl
    · exact absurd hpc (hawake other .writer timed)
    · cases hbefore : (st.pc other).wakeReader with
      | blocked kind timed => exact absurd hbefore (hawake other kind timed)
      | _ =>
        dsimp only at hpc
        rw [hbefore] at hpc
        cases hpc
  · cases hunlock
    have hnone : ∀ other kind timed, st.pc other ≠ .blocked kind timed := by
      intro other kind timed hpc
      cases kind with
      | reader => exact hreaders (hreader hpc)
      | writer => exact hwriters (hwriter hpc)
    refine ⟨hcounted, fun _ other timed hpc => absurd hpc (hnone other .writer timed),
      fun _ other hpc => ?_⟩
    cases hbefore : st.pc other with
    | blocked kind timed => exact absurd hbefore (hnone other kind timed)
    | _ =>
      dsimp only at hpc
      rw [hbefore] at hpc
      cases hpc

theorem RwInv.of_eq {result : RwState Tid × RwEvent} (hresult : some result = some (next, event))
    (hinv : RwInv result.1 (granted holds tid kind result.2)) :
    RwInv next (granted holds tid kind event) := by
  rw [Option.some.inj hresult] at hinv
  exact hinv

theorem RwInv.step (hinv : RwInv st holds) (hgood : LeavesSomeone (st, holds) act)
    (hstep : rwStep st act = some (next, event)) :
    RwInv next (recordHolds holds st act next event) := by
  have hrecord : ∀ (tid : Tid) (kind : RwKind), (∀ other writer, act ≠ .unlock other writer) →
      rwRequest st act = some (tid, kind) →
      recordHolds holds st act next event = granted holds tid kind event := by
    intro tid kind hunlock hrequest
    cases act with
    | unlock other writer => exact absurd rfl (hunlock other writer)
    | _ =>
      simp only [recordHolds, hrequest]
      rcases event with result | _ | _
      · cases result <;> rfl
      · rfl
      · rfl
  cases act with
  | rdlock tid | timedrdlock tid =>
    rw [hrecord tid .reader (by simp) rfl]
    simp only [rwStep] at hstep
    split_ifs at hstep with hout
    exact RwInv.of_eq hstep (lockLoop_inv hinv.counted hout (fun _ => hinv.writerSignalled) _)
  | wrlock tid | timedwrlock tid =>
    rw [hrecord tid .writer (by simp) rfl]
    simp only [rwStep] at hstep
    split_ifs at hstep with hout
    exact RwInv.of_eq hstep (lockLoop_inv hinv.counted hout (fun _ => hinv.writerSignalled) _)
  | tryrdlock tid =>
    rw [hrecord tid .reader (by simp) rfl]
    simp only [rwStep] at hstep
    split_ifs at hstep with hout
    exact RwInv.of_eq hstep (hinv.tryLock tid .reader)
  | trywrlock tid =>
    rw [hrecord tid .writer (by simp) rfl]
    simp only [rwStep] at hstep
    split_ifs at hstep with hout
    exact RwInv.of_eq hstep (hinv.tryLock tid .writer)
  | unlock tid writer =>
    simp only [rwStep] at hstep
    split_ifs at hstep with hout
    split at hstep
    · rename_i after hunlock
      cases hstep
      exact hinv.unlock hgood hunlock
    · cases hstep
  | expire tid =>
    simp only [rwStep] at hstep
    split at hstep <;> cases hstep
    rename_i hpc
    exact hinv.expire hpc
  | resume tid =>
    simp only [rwStep] at hstep
    split at hstep
    · rename_i kind timed result hpc
      rw [hrecord tid kind (by simp) (by simp only [rwRequest, hpc])]
      exact RwInv.of_eq hstep (hinv.resume hpc hgood)
    · cases hstep

theorem unlock_refcount {writer : Tid} (hunlock : st.pthreadRwlockUnlock writer = some next) :
    next.refcount = st.unlockedCount := by
  simp only [RwState.pthreadRwlockUnlock] at hunlock
  split_ifs at hunlock
  · rw [RwState.signalWriter] at hunlock
    split at hunlock
    · cases hunlock
      rfl
    · split_ifs at hunlock
      cases hunlock
      rfl
  all_goals
    cases hunlock
    rfl

/-- A thread that gives up is the last one that would have looked at the lock. -/
theorem not_kept_of_resume (hbad : ¬LeavesSomeone (st, holds) (.resume tid))
    (hstep : rwStep st (.resume tid) = some (next, event)) (holds' : Tid → RwHold) :
    ¬RwKept (next, holds') := by
  simp only [LeavesSomeone, Classical.not_imp, not_or, not_exists, not_forall, not_and] at hbad
  obtain ⟨⟨kind, timed, result, hpc, hresult⟩, hfree, hnone, blocked, hblocked⟩ := hbad
  simp only [rwStep, hpc, RwState.resumeLoop, if_neg hresult] at hstep
  cases hstep
  have hsame : (st.dropWaiter kind).pc = st.pc ∧
      (st.dropWaiter kind).refcount = st.refcount := by
    cases kind <;> exact ⟨rfl, rfl⟩
  intro hkept
  have hquiet : ∀ other, (((st.dropWaiter kind).setPc tid .out).pc other).inTransit = false := by
    intro other
    by_cases hother : other = tid
    · subst hother
      rw [RwState.setPc_pc_self]
      rfl
    · rw [RwState.setPc_pc_of_ne hother, hsame.1]
      exact Bool.eq_false_iff.2 (hnone other hother)
  have hstays := hkept.free (hsame.2.trans hfree) hquiet blocked
  have hne : blocked ≠ tid := by
    rintro rfl
    rw [hpc] at hblocked
    exact hblocked rfl
  dsimp only at hstays
  rw [RwState.setPc_pc_of_ne hne, hsame.1] at hstays
  exact hblocked hstays

theorem not_kept_of_unlock (hinv : RwInv st holds) {writer : Tid}
    (hbad : ¬LeavesSomeone (st, holds) (.unlock tid writer))
    (hunlock : st.pthreadRwlockUnlock writer = some next) :
    ¬RwKept (next, update holds tid (holds tid).drop) := by
  simp only [LeavesSomeone, not_or, not_lt, Nat.le_zero] at hbad
  obtain ⟨htaken, hnone⟩ := hbad
  have hreads := tally_update RwHold.reads holds tid (holds tid).drop
  have hwrites := tally_update RwHold.writes holds tid (holds tid).drop
  rw [RwHold.drop_reads, if_neg (by omega)] at hreads
  rw [RwHold.drop_writes] at hwrites
  have hcount := unlock_refcount hunlock
  simp only [RwState.unlockedCount] at hcount
  intro hkept
  have hwriter := hkept.writer
  have hreaders := hkept.readers next.refcount.toNat
  dsimp only at hwriter hreaders
  rcases hinv.counted.holders with ⟨hrefcount, hone, hzero⟩ | ⟨hzero, hrefcount⟩
  · rw [hrefcount, if_neg (by decide), if_pos rfl] at hcount
    omega
  · split_ifs at hcount <;> omega

theorem not_kept_of_step (hinv : RwInv st holds)
    (hbad : ¬LeavesSomeone (st, holds) act)
    (hstep : rwStep st act = some (next, event)) :
    ¬RwKept (next, recordHolds holds st act next event) := by
  cases act with
  | resume tid => exact not_kept_of_resume hbad hstep _
  | unlock tid writer =>
    simp only [rwStep] at hstep
    split_ifs at hstep
    split at hstep
    · rename_i after hunlock
      cases hstep
      exact not_kept_of_unlock hinv hbad hunlock
    · cases hstep
  | _ => exact absurd trivial hbad

end Steps

instance (st : RwState Tid × (Tid → RwHold)) :
    (act : RwAction Tid) → Decidable (LeavesSomeone st act)
  | .resume tid =>
    match hpc : st.1.pc tid with
    | .woken _ _ result =>
      decidable_of_iff (result ≠ .zero → st.1.refcount = 0 →
        (∃ other, other ≠ tid ∧ (st.1.pc other).inTransit = true) ∨
          ∀ other, (st.1.pc other).isBlocked = false) (by simp [LeavesSomeone, hpc])
    | .out | .blocked _ _ => isTrue (by simp [LeavesSomeone, hpc])
  | .unlock tid _ =>
    inferInstanceAs (Decidable (st.1.refcount = 0 ∨
      0 < (st.2 tid).reads + (st.2 tid).writes))
  | .rdlock _ | .tryrdlock _ | .timedrdlock _ | .wrlock _ | .trywrlock _ | .timedwrlock _
  | .expire _ => isTrue trivial

/-- A writer waits for a reader, which then waits for the writer. -/
def scheduleTurns (reader writer : Tid) : List (RwAction Tid) :=
  [.rdlock reader, .timedwrlock writer, .unlock reader writer, .rdlock reader, .resume writer,
    .unlock writer writer, .resume reader, .unlock reader writer]

theorem isSome_scheduleTurns : (rwRecorded.exec LeavesSomeone (rwInit, fun _ => ⟨0, 0⟩)
    (scheduleTurns true false)).isSome = true := by
  decide

/-- The time of the writer is over when the reader unlocks, and the reader comes back before the
writer leaves. -/
def scheduleGivesUp (reader writer : Tid) : List (RwAction Tid) :=
  [.rdlock reader, .timedwrlock writer, .expire writer, .unlock reader writer, .rdlock reader,
    .resume writer]

theorem isSome_scheduleGivesUp : (rwRecorded.exec (fun _ _ => True) (rwInit, fun _ => ⟨0, 0⟩)
    (scheduleGivesUp true false)).isSome = true := by
  decide

end Machine

end RtThread.Pthreads
