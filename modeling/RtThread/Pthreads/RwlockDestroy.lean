import RtThread.Pthreads.Cond
import RtThread.Pthreads.Rwlock

set_option linter.all false

/-!
# Destroying a read-write lock

`pthread_rwlock_destroy` under the real condition variables: a wait unlocks the mutex and takes
the semaphore in two steps, and a signal or a broadcast may leave a token behind.  The function
takes the lock for idle if the counters are zero and if it can take a token from both semaphores;
and it returns with the mutex locked when the counters are not zero.

Sections between the lock and the unlock of the mutex are one step.  Where a call leaves the
mutex locked, `owner` says for whom.
-/

namespace RtThread.Pthreads.RwlockDestroy

open Function
open RtThread.Core
open RtThread.Kernel (Err)

inductive Result
  | zero | ebusy | etimedout | edeadlk
  deriving DecidableEq

/-- Where a thread is: outside, between the two steps of a wait, asleep on the semaphore, or in
front of the lock of the mutex that ends the wait. -/
inductive Pc
  | out
  | parting (kind : RwKind) (timed : Bool)
  | blocked (kind : RwKind) (timed : Bool)
  | woken (kind : RwKind) (timed : Bool) (result : Result)
  deriving DecidableEq

namespace Pc

def wake : Pc → Pc
  | .blocked kind timed => .woken kind timed .zero
  | pc => pc

/-- Counted by `rw_nwaitreaders` or `rw_nwaitwriters`. -/
def waits (kind : RwKind) : Pc → ℕ
  | .parting other _ | .blocked other _ | .woken other _ _ => if other = kind then 1 else 0
  | .out => 0

end Pc

/-- `pthread_mutex_t`; `destroyed` is `attr == -1`. -/
structure PthreadMutex (Tid : Type*) where
  owner : Option Tid
  destroyed : Bool

/-- `pthread_cond_t`. -/
structure PthreadCond (Tid : Type*) where
  sem : CondSem Tid
  destroyed : Bool

/-- `pthread_rwlock_t`: `nwait` is `rw_nwaitreaders` and `rw_nwaitwriters`, `cond` is
`rw_condreaders` and `rw_condwriters`. -/
structure PthreadRwlock (Tid : Type*) where
  mutex : PthreadMutex Tid
  cond : RwKind → PthreadCond Tid
  nwait : RwKind → ℕ
  refcount : ℤ

structure State (Tid : Type*) where
  lock : PthreadRwlock Tid
  pc : Tid → Pc

inductive Event
  | returned (result : Result)
  | moved
  deriving DecidableEq

/-- `pthread_rwlock_init`. -/
def pthreadRwlockInit {Tid : Type*} : State Tid where
  lock :=
    { mutex := ⟨none, false⟩, cond := fun _ => ⟨⟨0, []⟩, false⟩, nwait := fun _ => 0,
      refcount := 0 }
  pc _ := .out

variable {Tid : Type*} [DecidableEq Tid]

namespace State

variable (st : State Tid)

def setPc (tid : Tid) (pc : Pc) : State Tid :=
  { st with pc := update st.pc tid pc }

def setOwner (owner : Option Tid) : State Tid :=
  { st with lock := { st.lock with mutex := { st.lock.mutex with owner := owner } } }

def setRefcount (refcount : ℤ) : State Tid :=
  { st with lock := { st.lock with refcount := refcount } }

def setNwait (kind : RwKind) (count : ℕ) : State Tid :=
  { st with
    lock := { st.lock with nwait := update st.lock.nwait kind count } }

def setCond (kind : RwKind) (cond : PthreadCond Tid) : State Tid :=
  { st with lock := { st.lock with cond := update st.lock.cond kind cond } }

def setSem (kind : RwKind) (sem : CondSem Tid) : State Tid :=
  st.setCond kind { st.lock.cond kind with sem := sem }

/-- The threads that a semaphore has resumed. -/
def wake (resumed : List Tid) : State Tid :=
  { st with pc := fun tid => if tid ∈ resumed then (st.pc tid).wake else st.pc tid }

/-! ## Condition variables -/

/-- `rt_sem_release` of the semaphore of a condition variable. -/
def semRelease (kind : RwKind) : State Tid :=
  let (sem, resumed) := (st.lock.cond kind).sem.release
  (st.setSem kind sem).wake resumed.toList

def pthreadCondSignal (kind : RwKind) : State Tid :=
  st.semRelease kind

def pthreadCondBroadcast (kind : RwKind) : State Tid :=
  let (sem, resumed) := (st.lock.cond kind).sem.broadcast
  (st.setSem kind sem).wake resumed

/-- `rt_sem_trytake` of the semaphore of a condition variable. -/
def trytake (kind : RwKind) (tid : Tid) : State Tid × Bool :=
  let (sem, result) := (st.lock.cond kind).sem.take tid 0
  (st.setSem kind sem, result = .taken)

/-- The semaphore has been tried, so it is `rt_sem_trytake` that decides. -/
def pthreadCondDestroy (kind : RwKind) (tid : Tid) : State Tid × Result :=
  if (st.lock.cond kind).destroyed = true then (st, .zero)
  else if (st.trytake kind tid).2 = true then
    (st.setCond kind ⟨⟨0, []⟩, true⟩, .zero)
  else (st, .ebusy)

/-! ## The lock -/

/-- The test of the loops: writers that wait go before readers. -/
def mustWait : RwKind → Bool
  | .reader => st.lock.refcount < 0 ∨ st.lock.nwait .writer > 0
  | .writer => st.lock.refcount ≠ 0

def acquire : RwKind → State Tid
  | .reader => st.setRefcount (st.lock.refcount + 1)
  | .writer => st.setRefcount (-1)

/-- The loops of `pthread_rwlock_rdlock`, `_wrlock` and the timed functions, up to the unlock of
the mutex at the end or at the start of a wait. -/
def lockLoop (tid : Tid) (kind : RwKind) (timed : Bool) : State Tid × Event :=
  if st.mustWait kind = true then
    (((st.setNwait kind (st.lock.nwait kind + 1)).setPc tid
      (.parting kind timed)).setOwner none, .moved)
  else (((st.acquire kind).setPc tid .out).setOwner none, .returned .zero)

def tryLock (kind : RwKind) : State Tid × Event :=
  if st.mustWait kind = true then (st.setOwner none, .returned .ebusy)
  else ((st.acquire kind).setOwner none, .returned .zero)

def unlockedCount : ℤ :=
  if st.lock.refcount > 0 then st.lock.refcount - 1
  else if st.lock.refcount = -1 then 0
  else st.lock.refcount

def unlockSection : State Tid × Event :=
  let unlocked := st.setRefcount st.unlockedCount
  let signalled :=
    if unlocked.lock.nwait .writer > 0 then
      if unlocked.lock.refcount = 0 then unlocked.pthreadCondSignal .writer else unlocked
    else if unlocked.lock.nwait .reader > 0 then unlocked.pthreadCondBroadcast .reader
    else unlocked
  (signalled.setOwner none, .returned .zero)

/-- The end of `pthread_rwlock_destroy` of a lock whose mutex is unlocked. -/
def pthreadMutexDestroy : State Tid :=
  { st with lock := { st.lock with mutex := ⟨none, true⟩ } }

/-- `pthread_rwlock_destroy` after the lock of the mutex. -/
def destroySection (tid : Tid) : State Tid × Event :=
  if st.lock.refcount ≠ 0 ∨ st.lock.nwait .reader ≠ 0 ∨ st.lock.nwait .writer ≠ 0 then
    -- this exit does not unlock the mutex
    (st, .returned .ebusy)
  else if (st.trytake .reader tid).2 = true then
    let reader := (st.trytake .reader tid).1
    if (reader.trytake .writer tid).2 = true then
      let both := (reader.trytake .writer tid).1
      let released := (both.semRelease .reader).semRelease .writer
      let destroyed := (released.pthreadCondDestroy .reader tid).1
      (((destroyed.pthreadCondDestroy .writer tid).1.setOwner none).pthreadMutexDestroy,
        .returned .zero)
    else ((reader.semRelease .reader).setOwner none, .returned .ebusy)
  else (st.setOwner none, .returned .ebusy)

/-- `pthread_mutex_lock` of `rw_mutex` and what is done with the mutex; `none` where the thread
waits for the mutex, and for a lock that was destroyed. -/
def withMutex (tid : Tid) (locked : State Tid → State Tid × Event) :
    Option (State Tid × Event) :=
  if st.lock.mutex.destroyed = true then none
  else
    match st.lock.mutex.owner with
    | none => some (locked (st.setOwner (some tid)))
    | some owner => if owner = tid then some (st, .returned .edeadlk) else none

def pthreadRwlockDestroy (tid : Tid) : Option (State Tid × Event) :=
  st.withMutex tid fun st => st.destroySection tid

def pthreadRwlockRdlock (tid : Tid) : Option (State Tid × Event) :=
  st.withMutex tid fun st => st.lockLoop tid .reader false

def pthreadRwlockTryrdlock (tid : Tid) : Option (State Tid × Event) :=
  st.withMutex tid fun st => st.tryLock .reader

def pthreadRwlockTimedrdlock (tid : Tid) : Option (State Tid × Event) :=
  st.withMutex tid fun st => st.lockLoop tid .reader true

def pthreadRwlockWrlock (tid : Tid) : Option (State Tid × Event) :=
  st.withMutex tid fun st => st.lockLoop tid .writer false

def pthreadRwlockTrywrlock (tid : Tid) : Option (State Tid × Event) :=
  st.withMutex tid fun st => st.tryLock .writer

def pthreadRwlockTimedwrlock (tid : Tid) : Option (State Tid × Event) :=
  st.withMutex tid fun st => st.lockLoop tid .writer true

def pthreadRwlockUnlock (tid : Tid) : Option (State Tid × Event) :=
  st.withMutex tid unlockSection

/-- The second step of a wait: the semaphore is taken.  `ticks` is what is left of the time of a
timed wait. -/
def sleep (tid : Tid) (ticks : ℕ) : Option (State Tid) :=
  match st.pc tid with
  | .parting kind timed =>
    let (sem, result) := (st.lock.cond kind).sem.take tid (if timed then ticks else -1)
    match result with
    | .taken => some ((st.setSem kind sem).setPc tid (.woken kind timed .zero))
    | .empty => some ((st.setSem kind sem).setPc tid (.woken kind timed .etimedout))
    | .sleeps => some ((st.setSem kind sem).setPc tid (.blocked kind timed))
  | _ => none

/-- The time of a thread that sleeps is over. -/
def expire (tid : Tid) : Option (State Tid) :=
  match st.pc tid with
  | .blocked kind true =>
    let sem := (st.lock.cond kind).sem
    some ((st.setSem kind { sem with suspendThread := sem.suspendThread.erase tid }).setPc tid
      (.woken kind true .etimedout))
  | _ => none

/-- A wait ends with the mutex locked again, and the loop goes on. -/
def resume (tid : Tid) : Option (State Tid × Event) :=
  match st.pc tid with
  | .woken kind timed result =>
    st.withMutex tid fun st =>
      let dropped := st.setNwait kind (st.lock.nwait kind - 1)
      if result = .zero then dropped.lockLoop tid kind timed
      else ((dropped.setPc tid .out).setOwner none, .returned result)
  | _ => none

/-- Nobody holds the lock, and nobody waits for it. -/
def Idle : Prop :=
  st.lock.refcount = 0 ∧ ∀ tid, st.pc tid = .out

instance [Fintype Tid] : Decidable st.Idle :=
  inferInstanceAs (Decidable (_ ∧ _))

end State

inductive Action (Tid : Type*)
  | rdlock (tid : Tid)
  | tryrdlock (tid : Tid)
  | timedrdlock (tid : Tid)
  | wrlock (tid : Tid)
  | trywrlock (tid : Tid)
  | timedwrlock (tid : Tid)
  | unlock (tid : Tid)
  | destroy (tid : Tid)
  | sleep (tid : Tid) (ticks : ℕ)
  | expire (tid : Tid)
  | resume (tid : Tid)

/-- A thread that is outside makes a call. -/
def call (st : State Tid) (tid : Tid) (result : Option (State Tid × Event)) :
    Option (State Tid × Event) :=
  if st.pc tid = .out then result else none

def step (st : State Tid) : Action Tid → Option (State Tid × Event)
  | .rdlock tid => call st tid (st.pthreadRwlockRdlock tid)
  | .tryrdlock tid => call st tid (st.pthreadRwlockTryrdlock tid)
  | .timedrdlock tid => call st tid (st.pthreadRwlockTimedrdlock tid)
  | .wrlock tid => call st tid (st.pthreadRwlockWrlock tid)
  | .trywrlock tid => call st tid (st.pthreadRwlockTrywrlock tid)
  | .timedwrlock tid => call st tid (st.pthreadRwlockTimedwrlock tid)
  | .unlock tid => call st tid (st.pthreadRwlockUnlock tid)
  | .destroy tid => call st tid (st.pthreadRwlockDestroy tid)
  | .sleep tid ticks => (st.sleep tid ticks).map fun next => (next, .moved)
  | .expire tid => (st.expire tid).map fun next => (next, .moved)
  | .resume tid => st.resume tid

def machine : Machine (State Tid) (Action Tid) Event where
  step := step

/-! ## The counters and the semaphores -/

variable [Fintype Tid]

/-- The counters count the threads that wait, and no semaphore keeps a token from a thread. -/
structure Inv (st : State Tid) : Prop where
  counted : ∀ kind, st.lock.nwait kind = tally (Pc.waits kind) st.pc
  settled : ∀ kind, (st.lock.cond kind).sem.Settled
  bounded : ∀ kind, (st.lock.cond kind).sem.value < 0x10000

variable {st next : State Tid} {tid : Tid} {kind : RwKind} {event : Event}

omit [DecidableEq Tid] in
theorem inv_pthreadRwlockInit : Inv (pthreadRwlockInit : State Tid) where
  counted kind := by simp [pthreadRwlockInit, tally, Pc.waits]
  settled _ hnonempty := absurd rfl hnonempty
  bounded _ := by simp [pthreadRwlockInit]

omit [DecidableEq Tid] in
theorem Inv.setCond (hinv : Inv st) (kind : RwKind) {cond : PthreadCond Tid}
    (hsettled : cond.sem.Settled) (hbounded : cond.sem.value < 0x10000) :
    Inv (st.setCond kind cond) where
  counted := hinv.counted
  settled := (forall_update_iff _ fun _ (cond : PthreadCond Tid) => cond.sem.Settled).2
    ⟨hsettled, fun other _ => hinv.settled other⟩
  bounded := (forall_update_iff _ fun _ (cond : PthreadCond Tid) =>
    cond.sem.value < 0x10000).2 ⟨hbounded, fun other _ => hinv.bounded other⟩

theorem Inv.wake (hinv : Inv st) (resumed : List Tid) : Inv (st.wake resumed) := by
  refine ⟨fun kind => ?_, hinv.settled, hinv.bounded⟩
  rw [show (st.wake resumed).lock = st.lock from rfl, hinv.counted kind]
  refine Finset.sum_congr rfl fun tid _ => ?_
  rw [State.wake]
  dsimp only
  split
  · cases st.pc tid <;> rfl
  · rfl

theorem Inv.move (hinv : Inv st) {pc : Pc}
    (hpc : ∀ kind, pc.waits kind = (st.pc tid).waits kind) : Inv (st.setPc tid pc) := by
  refine ⟨fun kind => ?_, hinv.settled, hinv.bounded⟩
  have htally := tally_update (Pc.waits kind) st.pc tid pc
  have hcount := hinv.counted kind
  have hsame := hpc kind
  change st.lock.nwait kind = tally (Pc.waits kind) (update st.pc tid pc)
  omega

theorem Inv.enter (hinv : Inv st) (hout : st.pc tid = .out) (kind : RwKind)
    (timed : Bool) :
    Inv ((st.setNwait kind (st.lock.nwait kind + 1)).setPc tid (.parting kind timed)) := by
  refine ⟨fun other => ?_, hinv.settled, hinv.bounded⟩
  have htally := tally_update (Pc.waits other) st.pc tid (.parting kind timed)
  have hcount := hinv.counted other
  rw [hout] at htally
  change update st.lock.nwait kind _ other =
    tally (Pc.waits other) (update st.pc tid _)
  by_cases heq : other = kind
  · subst heq
    rw [update_self]
    simp only [Pc.waits, if_true] at htally
    omega
  · rw [update_of_ne heq]
    simp only [Pc.waits, if_neg (Ne.symm heq)] at htally
    omega

theorem Inv.leave (hinv : Inv st) {timed : Bool} {result : Result}
    (hwoken : st.pc tid = .woken kind timed result) :
    Inv ((st.setNwait kind (st.lock.nwait kind - 1)).setPc tid .out) := by
  refine ⟨fun other => ?_, hinv.settled, hinv.bounded⟩
  have htally := tally_update (Pc.waits other) st.pc tid .out
  have hcount := hinv.counted other
  rw [hwoken] at htally
  change update st.lock.nwait kind _ other =
    tally (Pc.waits other) (update st.pc tid _)
  by_cases heq : other = kind
  · subst heq
    rw [update_self]
    simp only [Pc.waits, if_true] at htally
    omega
  · rw [update_of_ne heq]
    simp only [Pc.waits, if_neg (Ne.symm heq)] at htally
    omega

omit [DecidableEq Tid] in
theorem Inv.setOwner (hinv : Inv st) (owner : Option Tid) : Inv (st.setOwner owner) :=
  ⟨hinv.counted, hinv.settled, hinv.bounded⟩

omit [DecidableEq Tid] in
theorem Inv.setRefcount (hinv : Inv st) (refcount : ℤ) : Inv (st.setRefcount refcount) :=
  ⟨hinv.counted, hinv.settled, hinv.bounded⟩

omit [DecidableEq Tid] in
theorem Inv.mutexDestroy (hinv : Inv st) : Inv st.pthreadMutexDestroy :=
  ⟨hinv.counted, hinv.settled, hinv.bounded⟩

omit [DecidableEq Tid] [Fintype Tid] in
theorem release_value_lt {sem : CondSem Tid} (hbounded : sem.value < 0x10000) :
    sem.release.1.value < 0x10000 := by
  unfold CondSem.release
  split
  · exact hbounded
  · exact Nat.mod_lt _ (by decide)

theorem Inv.semRelease (hinv : Inv st) (kind : RwKind) : Inv (st.semRelease kind) :=
  (hinv.setCond kind (hinv.settled kind).release (release_value_lt (hinv.bounded kind))).wake _

theorem Inv.broadcast (hinv : Inv st) (kind : RwKind) :
    Inv (st.pthreadCondBroadcast kind) := by
  have hbounded : (st.lock.cond kind).sem.broadcast.1.value < 0x10000 := by
    rw [CondSem.broadcast_eq (hinv.settled kind)]
    exact max_lt (hinv.bounded kind) (by decide)
  exact (hinv.setCond kind (hinv.settled kind).broadcast hbounded).wake _

omit [DecidableEq Tid] [Fintype Tid] in
theorem take_value_le (sem : CondSem Tid) (tid : Tid) (time : ℤ) :
    (sem.take tid time).1.value ≤ sem.value := by
  rw [CondSem.take]
  split
  · exact Nat.sub_le _ _
  · split <;> exact le_refl _

omit [DecidableEq Tid] in
theorem Inv.take (hinv : Inv st) (kind : RwKind) (tid : Tid) (time : ℤ) :
    Inv (st.setSem kind ((st.lock.cond kind).sem.take tid time).1) :=
  hinv.setCond kind ((hinv.settled kind).take tid time)
    (lt_of_le_of_lt (take_value_le _ tid time) (hinv.bounded kind))

omit [DecidableEq Tid] in
theorem Inv.condDestroy (hinv : Inv st) (kind : RwKind) (tid : Tid) :
    Inv (st.pthreadCondDestroy kind tid).1 := by
  rw [State.pthreadCondDestroy]
  split
  · exact hinv
  · split
    · exact hinv.setCond kind (fun hnonempty => absurd rfl hnonempty)
        (show (0 : ℕ) < 0x10000 by decide)
    · exact hinv

/-! ## The calls -/

omit [DecidableEq Tid] in
theorem Inv.acquire (hinv : Inv st) (kind : RwKind) : Inv (st.acquire kind) := by
  cases kind <;> exact hinv.setRefcount _

theorem Inv.lockLoop (hinv : Inv st) (hout : st.pc tid = .out) (kind : RwKind)
    (timed : Bool) : Inv (st.lockLoop tid kind timed).1 := by
  rw [State.lockLoop]
  split
  · exact (hinv.enter hout kind timed).setOwner none
  · refine ((hinv.acquire kind).move fun other => ?_).setOwner none
    have hpc : (st.acquire kind).pc = st.pc := by cases kind <;> rfl
    rw [hpc, hout]

omit [DecidableEq Tid] in
theorem Inv.tryLock (hinv : Inv st) (kind : RwKind) : Inv (st.tryLock kind).1 := by
  rw [State.tryLock]
  split
  · exact hinv.setOwner none
  · exact (hinv.acquire kind).setOwner none

theorem Inv.unlockSection (hinv : Inv st) : Inv st.unlockSection.1 := by
  have hunlocked := hinv.setRefcount st.unlockedCount
  rw [State.unlockSection]
  refine Inv.setOwner ?_ none
  split
  · split
    · exact hunlocked.semRelease .writer
    · exact hunlocked
  · split
    · exact hunlocked.broadcast .reader
    · exact hunlocked

theorem Inv.destroySection (hinv : Inv st) (tid : Tid) :
    Inv (st.destroySection tid).1 := by
  have hreader := hinv.take .reader tid 0
  rw [State.destroySection]
  split
  · exact hinv
  · split
    · dsimp only
      split
      · have hboth := hreader.take .writer tid 0
        have hreleased := (hboth.semRelease .reader).semRelease .writer
        exact (((hreleased.condDestroy .reader tid).condDestroy .writer tid).setOwner
          none).mutexDestroy
      · exact (hreader.semRelease .reader).setOwner none
    · exact hinv.setOwner none

theorem Inv.withMutex (hinv : Inv st) {locked : State Tid → State Tid × Event}
    (hlocked : ∀ owner, Inv (locked (st.setOwner owner)).1)
    (hcall : st.withMutex tid locked = some (next, event)) : Inv next := by
  rw [State.withMutex] at hcall
  split at hcall
  · contradiction
  · split at hcall
    · obtain rfl := congrArg Prod.fst (Option.some.inj hcall)
      exact hlocked (some tid)
    · split at hcall
      · obtain rfl := congrArg Prod.fst (Option.some.inj hcall)
        exact hinv
      · contradiction

theorem Inv.sleep (hinv : Inv st) {ticks : ℕ} (hstep : st.sleep tid ticks = some next) :
    Inv next := by
  rw [State.sleep] at hstep
  split at hstep
  · next kind timed hpc =>
    have htake := hinv.take kind tid (if timed then ticks else -1)
    dsimp only at hstep
    split at hstep
    all_goals
      cases hstep
      refine htake.move fun other => ?_
      change _ = (st.pc tid).waits other
      rw [hpc]
      rfl
  · contradiction

theorem Inv.expire (hinv : Inv st) (hstep : st.expire tid = some next) : Inv next := by
  rw [State.expire] at hstep
  split at hstep
  · next kind hpc =>
    cases hstep
    have herased : Inv (st.setSem kind { (st.lock.cond kind).sem with
        suspendThread := (st.lock.cond kind).sem.suspendThread.erase tid }) :=
      hinv.setCond kind ((hinv.settled kind).erase tid) (hinv.bounded kind)
    refine herased.move fun other => ?_
    change _ = (st.pc tid).waits other
    rw [hpc]
    rfl
  · contradiction

omit [Fintype Tid] in
theorem lockLoop_setPc (st : State Tid) (tid : Tid) (kind : RwKind) (timed : Bool) :
    (st.setPc tid .out).lockLoop tid kind timed = st.lockLoop tid kind timed := by
  have hmust : (st.setPc tid .out).mustWait kind = st.mustWait kind := by
    cases kind <;> rfl
  rw [State.lockLoop, State.lockLoop, hmust]
  split
  · simp [State.setPc, State.setNwait, State.setOwner]
  · cases kind <;> simp [State.setPc, State.acquire, State.setRefcount, State.setOwner]

theorem Inv.resume (hinv : Inv st) (hstep : st.resume tid = some (next, event)) :
    Inv next := by
  rw [State.resume] at hstep
  split at hstep
  · next kind timed result hpc =>
    refine hinv.withMutex (fun owner => ?_) hstep
    have hleft : Inv (((st.setOwner owner).setNwait kind
        ((st.setOwner owner).lock.nwait kind - 1)).setPc tid .out) :=
      (hinv.setOwner owner).leave hpc
    dsimp only
    split
    · rw [← lockLoop_setPc]
      exact hleft.lockLoop (update_self _ _ _) kind timed
    · exact hleft.setOwner none
  · contradiction

theorem inv_step {act : Action Tid} (hinv : Inv st)
    (hstep : step st act = some (next, event)) : Inv next := by
  have hcall : ∀ tid result, call st tid result = some (next, event) →
      st.pc tid = .out ∧ result = some (next, event) := by
    intro tid result hresult
    rw [call] at hresult
    split at hresult
    · next hout => exact ⟨hout, hresult⟩
    · contradiction
  cases act with
  | rdlock tid =>
    obtain ⟨hout, hresult⟩ := hcall _ _ hstep
    exact hinv.withMutex (fun owner => (hinv.setOwner owner).lockLoop hout _ _) hresult
  | timedrdlock tid =>
    obtain ⟨hout, hresult⟩ := hcall _ _ hstep
    exact hinv.withMutex (fun owner => (hinv.setOwner owner).lockLoop hout _ _) hresult
  | wrlock tid =>
    obtain ⟨hout, hresult⟩ := hcall _ _ hstep
    exact hinv.withMutex (fun owner => (hinv.setOwner owner).lockLoop hout _ _) hresult
  | timedwrlock tid =>
    obtain ⟨hout, hresult⟩ := hcall _ _ hstep
    exact hinv.withMutex (fun owner => (hinv.setOwner owner).lockLoop hout _ _) hresult
  | tryrdlock tid =>
    exact hinv.withMutex (fun owner => (hinv.setOwner owner).tryLock _) (hcall _ _ hstep).2
  | trywrlock tid =>
    exact hinv.withMutex (fun owner => (hinv.setOwner owner).tryLock _) (hcall _ _ hstep).2
  | unlock tid =>
    exact hinv.withMutex (fun owner => (hinv.setOwner owner).unlockSection)
      (hcall _ _ hstep).2
  | destroy tid =>
    exact hinv.withMutex (fun owner => (hinv.setOwner owner).destroySection tid)
      (hcall _ _ hstep).2
  | sleep tid ticks =>
    obtain ⟨slept, hslept, hnext⟩ := Option.map_eq_some_iff.1 hstep
    obtain rfl := congrArg Prod.fst hnext
    exact hinv.sleep hslept
  | expire tid =>
    obtain ⟨expired, hexpired, hnext⟩ := Option.map_eq_some_iff.1 hstep
    obtain rfl := congrArg Prod.fst hnext
    exact hinv.expire hexpired
  | resume tid => exact hinv.resume hstep

/-! ## When destroying is right -/

/-- The call returns 0 for a lock that is idle and `EBUSY` for one that is not, and `EBUSY` leaves
everything as it was. -/
def DestroysRight (st : State Tid) (tid : Tid) : Prop :=
  ∃ next result, st.pthreadRwlockDestroy tid = some (next, .returned result) ∧
    (st.Idle → result = .zero) ∧ (¬st.Idle → result = .ebusy) ∧
    (result = .ebusy → next = st)

omit [DecidableEq Tid] in
theorem Inv.idle_iff (hinv : Inv st) :
    ¬(st.lock.refcount ≠ 0 ∨ st.lock.nwait .reader ≠ 0 ∨ st.lock.nwait .writer ≠ 0) ↔
      st.Idle := by
  simp only [not_or, not_not, hinv.counted, tally_eq_zero_iff, State.Idle]
  refine and_congr_right fun _ => ⟨fun hnone tid => ?_, fun hout => ?_⟩
  · have hreader := hnone.1 tid
    have hwriter := hnone.2 tid
    cases hpc : st.pc tid with
    | out => rfl
    | parting kind _ => cases kind <;> simp [hpc, Pc.waits] at hreader hwriter
    | blocked kind _ => cases kind <;> simp [hpc, Pc.waits] at hreader hwriter
    | woken kind _ _ => cases kind <;> simp [hpc, Pc.waits] at hreader hwriter
  · exact ⟨fun tid => by rw [hout tid]; rfl, fun tid => by rw [hout tid]; rfl⟩

omit [DecidableEq Tid] [Fintype Tid] in
theorem trytake_iff : (st.trytake kind tid).2 = true ↔ 0 < (st.lock.cond kind).sem.value := by
  rw [State.trytake, CondSem.take]
  by_cases htoken : 0 < (st.lock.cond kind).sem.value <;> simp [htoken]

omit [Fintype Tid] in
/-- The mutex was free, and the call goes on with it. -/
theorem pthreadRwlockDestroy_of_free (hlive : st.lock.mutex.destroyed = false)
    (hfree : st.lock.mutex.owner = none) (tid : Tid) :
    st.pthreadRwlockDestroy tid = some ((st.setOwner (some tid)).destroySection tid) := by
  rw [State.pthreadRwlockDestroy, State.withMutex, if_neg (by simp [hlive]), hfree]

theorem destroySection_busy (hinv : Inv st) (hbusy : ¬st.Idle) (tid : Tid) :
    st.destroySection tid = (st, .returned .ebusy) := by
  rw [State.destroySection, if_pos (not_not.1 (mt hinv.idle_iff.1 hbusy))]

theorem destroySection_idle (hinv : Inv st) (hidle : st.Idle) (tid : Tid) :
    (0 < (st.lock.cond .reader).sem.value ∧ 0 < (st.lock.cond .writer).sem.value →
      (st.destroySection tid).2 = .returned .zero) ∧
    (¬(0 < (st.lock.cond .reader).sem.value ∧ 0 < (st.lock.cond .writer).sem.value) →
      (st.destroySection tid).2 = .returned .ebusy) := by
  have hother : ((st.trytake .reader tid).1.trytake .writer tid).2 = true ↔
      0 < (st.lock.cond .writer).sem.value := by
    rw [trytake_iff]
    rfl
  rw [State.destroySection, if_neg (hinv.idle_iff.2 hidle)]
  by_cases hreader : 0 < (st.lock.cond .reader).sem.value
  · rw [if_pos (trytake_iff.2 hreader)]
    dsimp only
    by_cases hwriter : 0 < (st.lock.cond .writer).sem.value
    · rw [if_pos (hother.2 hwriter)]
      exact ⟨fun _ => rfl, fun hnone => absurd ⟨hreader, hwriter⟩ hnone⟩
    · rw [if_neg (mt hother.1 hwriter)]
      exact ⟨fun htokens => absurd htokens.2 hwriter, fun _ => rfl⟩
  · rw [if_neg (mt trytake_iff.1 hreader)]
    exact ⟨fun htokens => absurd htokens.1 hreader, fun _ => rfl⟩

theorem destroysRight_iff (hinv : Inv st) (hlive : st.lock.mutex.destroyed = false)
    (tid : Tid) :
    DestroysRight st tid ↔ st.lock.mutex.owner = none ∧ st.Idle ∧
      0 < (st.lock.cond .reader).sem.value ∧ 0 < (st.lock.cond .writer).sem.value := by
  cases hfree : st.lock.mutex.owner with
  | some owner =>
    refine iff_of_false ?_ (by simp)
    rintro ⟨next, result, hcall, hzero, hbusy, -⟩
    rw [State.pthreadRwlockDestroy, State.withMutex, if_neg (by simp [hlive]), hfree] at hcall
    dsimp only at hcall
    split at hcall
    · cases hcall
      by_cases hidle : st.Idle
      · cases hzero hidle
      · cases hbusy hidle
    · contradiction
  | none =>
    have hcall := pthreadRwlockDestroy_of_free hlive hfree tid
    have hlocked := hinv.setOwner (some tid)
    by_cases hidle : st.Idle
    · obtain ⟨hboth, hmissing⟩ := destroySection_idle hlocked hidle tid
      by_cases htokens : 0 < (st.lock.cond .reader).sem.value ∧
          0 < (st.lock.cond .writer).sem.value
      · refine iff_of_true ⟨((st.setOwner (some tid)).destroySection tid).1, .zero, ?_,
          fun _ => rfl, fun hbusy => absurd hidle hbusy, by simp⟩ ⟨rfl, hidle, htokens⟩
        rw [hcall, ← hboth htokens]
      · refine iff_of_false ?_ fun hcondition => htokens hcondition.2.2
        rintro ⟨next, result, hdone, hzero, -, -⟩
        rw [hcall] at hdone
        have hresult := congrArg Prod.snd (Option.some.inj hdone)
        rw [hmissing htokens, hzero hidle] at hresult
        exact absurd hresult (by simp)
    · refine iff_of_false ?_ fun hcondition => hidle hcondition.2.1
      rintro ⟨next, result, hdone, -, hbusy, hsame⟩
      rw [hcall, destroySection_busy hlocked hidle] at hdone
      have hnext := congrArg Prod.fst (Option.some.inj hdone)
      rw [hsame (hbusy hidle)] at hnext
      have howner := congrArg (fun st => st.lock.mutex.owner) hnext
      rw [hfree] at howner
      contradiction

/-- In a state that is reached, and for a thread that is outside, destroying the lock is right if
and only if no call has left the mutex locked, the lock is idle, and both condition variables
have a token. -/
theorem rwlock_destroy_iff {trace : List (Action Tid × Event)} {last : State Tid}
    (hrun : machine.Run pthreadRwlockInit trace last)
    (hlive : last.lock.mutex.destroyed = false) (tid : Tid) :
    DestroysRight last tid ↔ last.lock.mutex.owner = none ∧ last.Idle ∧
      0 < (last.lock.cond .reader).sem.value ∧ 0 < (last.lock.cond .writer).sem.value :=
  destroysRight_iff (hrun.invariant Inv (fun _ _ _ _ hinv _ hstep => inv_step hinv hstep)
    inv_pthreadRwlockInit) hlive tid

/-- A reader waits for a writer and is woken by a broadcast; a writer gives up, and the signal
for it comes when it does not sleep any more. -/
def scheduleTokens : List (Action Bool) :=
  [.wrlock true, .rdlock false, .sleep false 0, .unlock true, .resume false, .timedwrlock true,
    .sleep true 5, .expire true, .unlock false, .resume true]

theorem isSome_scheduleTokens : (machine.exec (fun _ _ => True) (pthreadRwlockInit : State Bool)
    scheduleTokens).isSome = true := by
  decide

theorem rwlock_destroy_scheduleTokens : ∃ trace, ∃ last : State Bool,
    machine.Run pthreadRwlockInit trace last ∧ DestroysRight last true := by
  have hrun := Machine.runWith_of_isSome _ isSome_scheduleTokens
  exact ⟨_, _, hrun, (rwlock_destroy_iff hrun (by decide) true).2 (by decide)⟩

/-- A reader holds the lock. -/
def scheduleHeld : List (Action Bool) :=
  [.rdlock false, .destroy true]

theorem isSome_scheduleHeld : (machine.exec (fun _ _ => True) (pthreadRwlockInit : State Bool)
    scheduleHeld).isSome = true := by
  decide

/-- A new lock is busy; and after a thread has tried to destroy a lock that is held, the reader
can never unlock it. -/
theorem rwlock_destroy_wrong :
    ((pthreadRwlockInit : State Bool).Idle ∧ ¬DestroysRight (pthreadRwlockInit : State Bool) true) ∧
    ∃ trace, ∃ last : State Bool, machine.Run pthreadRwlockInit trace last ∧
      trace.map Prod.snd = [.returned .zero, .returned .ebusy] ∧
      last.lock.mutex.owner = some true ∧ step last (.unlock false) = none := by
  have hfirst := (destroysRight_iff (inv_pthreadRwlockInit : Inv (pthreadRwlockInit : State Bool))
    rfl true).not
  refine ⟨⟨by decide, hfirst.2 (by decide)⟩, _, _,
    Machine.runWith_of_isSome _ isSome_scheduleHeld, by decide, by decide, ?_⟩
  rfl

end RtThread.Pthreads.RwlockDestroy
