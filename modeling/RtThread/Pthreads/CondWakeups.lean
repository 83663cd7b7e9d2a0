import RtThread.Pthreads.Cond

set_option linter.all false

/-!
# Wake-ups of a condition variable

Threads that wait on one condition variable with its mutex, signal it and broadcast it.  A
recorder notes whom each broadcast and each signal owes a wake-up: a broadcast owes one
to every thread that has released the mutex, and a signal to one of them.
-/

namespace RtThread.Pthreads

open Function
open RtThread.Core
open RtThread.Kernel (Err)

/-- Where a thread is: outside, with the mutex, in `_pthread_cond_timedwait` before
`rt_sem_take`, suspended there, resumed with `thread->error`, before it locks the mutex
again. -/
inductive CondPc
  | out
  | holding
  | unlocked (timeout : ℤ)
  | asleep (timeout : ℤ)
  | woken (err : Err)
  | relocking (result : Err)
  deriving DecidableEq

structure CondState (Tid : Type*) where
  mutex : Option Tid
  sem : CondSem Tid
  pc : Tid → CondPc

inductive CondAction (Tid : Type*)
  | lock (tid : Tid)
  | unlock (tid : Tid)
  /-- `_pthread_cond_timedwait` up to its call of `rt_sem_take`. -/
  | wait (tid : Tid) (timeout : ℤ)
  | take (tid : Tid)
  /-- The thread timer of a suspended thread expires. -/
  | expire (tid : Tid)
  | resume (tid : Tid)
  | relock (tid : Tid)
  | signal
  | broadcast
  deriving DecidableEq

inductive CondEvent
  | returned (result : Err)
  | slept
  | moved
  deriving DecidableEq

/-- `rt_thread_resume` of a thread that sleeps in `rt_sem_take`. -/
def CondPc.resumed : CondPc → CondPc
  | .asleep _ => .woken .eok
  | pc => pc

def CondPc.between : CondPc → Bool
  | .unlocked _ => true
  | _ => false

/-- The thread has released the mutex and not taken the semaphore. -/
def CondPc.waiting : CondPc → Bool
  | .unlocked _ | .asleep _ => true
  | _ => false

section Machine

variable {Tid : Type*} [DecidableEq Tid]

def CondState.setPc (st : CondState Tid) (tid : Tid) (pc : CondPc) : CondState Tid :=
  { st with pc := update st.pc tid pc }

def condStep (st : CondState Tid) : CondAction Tid → Option (CondState Tid × CondEvent)
  | .lock tid =>
    match st.pc tid, st.mutex with
    | .out, none => some ({ st with mutex := some tid }.setPc tid .holding, .moved)
    | _, _ => none
  | .unlock tid =>
    match st.pc tid with
    | .holding => some ({ st with mutex := none }.setPc tid .out, .moved)
    | _ => none
  | .wait tid timeout =>
    match st.pc tid with
    | .out => some (st, .returned .error)
    | .holding => some ({ st with mutex := none }.setPc tid (.unlocked timeout), .moved)
    | _ => none
  | .take tid =>
    match st.pc tid with
    | .unlocked timeout =>
      match st.sem.take tid timeout with
      | (sem, .taken) => some ({ st with sem := sem }.setPc tid (.relocking .eok), .moved)
      | (sem, .empty) => some ({ st with sem := sem }.setPc tid (.relocking .etimeout), .moved)
      | (sem, .sleeps) => some ({ st with sem := sem }.setPc tid (.asleep timeout), .slept)
    | _ => none
  | .expire tid =>
    match st.pc tid with
    | .asleep timeout =>
      if 0 < timeout then
        some ({ st with sem := { st.sem with
          suspendThread := st.sem.suspendThread.erase tid } }.setPc tid (.woken .etimeout),
            .moved)
      else none
    | _ => none
  | .resume tid =>
    match st.pc tid with
    | .woken err => some (st.setPc tid (.relocking err), .moved)
    | _ => none
  | .relock tid =>
    match st.pc tid, st.mutex with
    | .relocking result, none =>
      some ({ st with mutex := some tid }.setPc tid .holding, .returned result)
    | _, _ => none
  | .signal =>
    match st.sem.release with
    | (sem, none) => some ({ st with sem := sem }, .moved)
    | (sem, some thread) =>
      some ({ st with sem := sem }.setPc thread (st.pc thread).resumed, .moved)
  | .broadcast =>
    let (sem, resumed) := st.sem.broadcast
    some ({ st with
      sem := sem
      pc := fun tid => if tid ∈ resumed then (st.pc tid).resumed else st.pc tid }, .moved)

def condMachine : Machine (CondState Tid) (CondAction Tid) CondEvent where
  step := condStep

/-- After `pthread_cond_init`. -/
def condInit : CondState Tid :=
  ⟨none, ⟨0, []⟩, fun _ => .out⟩

/-- What each step does, and where it is taken. -/
inductive CondMoves (st : CondState Tid) :
    CondAction Tid → CondState Tid → CondEvent → Prop
  | lock {tid : Tid} (hpc : st.pc tid = .out) :
      CondMoves st (.lock tid) (CondState.setPc { st with mutex := some tid } tid .holding) .moved
  | unlock {tid : Tid} (hpc : st.pc tid = .holding) :
      CondMoves st (.unlock tid) (CondState.setPc { st with mutex := none } tid .out) .moved
  | refused {tid : Tid} {timeout : ℤ} (hpc : st.pc tid = .out) :
      CondMoves st (.wait tid timeout) st (.returned .error)
  | wait {tid : Tid} {timeout : ℤ} (hpc : st.pc tid = .holding) :
      CondMoves st (.wait tid timeout)
        (CondState.setPc { st with mutex := none } tid (.unlocked timeout)) .moved
  | taken {tid : Tid} {timeout : ℤ} (hpc : st.pc tid = .unlocked timeout)
      (hvalue : 0 < st.sem.value) :
      CondMoves st (.take tid)
        (CondState.setPc { st with sem := { st.sem with value := st.sem.value - 1 } } tid
          (.relocking .eok)) .moved
  | empty {tid : Tid} (hpc : st.pc tid = .unlocked 0) (hzero : st.sem.value = 0) :
      CondMoves st (.take tid) (st.setPc tid (.relocking .etimeout)) .moved
  | sleeps {tid : Tid} {timeout : ℤ} (hpc : st.pc tid = .unlocked timeout)
      (hzero : st.sem.value = 0) (htimeout : timeout ≠ 0) :
      CondMoves st (.take tid)
        (CondState.setPc { st with sem := { st.sem with
          suspendThread := st.sem.suspendThread ++ [tid] } } tid (.asleep timeout)) .slept
  | expire {tid : Tid} {timeout : ℤ} (hpc : st.pc tid = .asleep timeout) :
      CondMoves st (.expire tid)
        (CondState.setPc { st with sem := { st.sem with
          suspendThread := st.sem.suspendThread.erase tid } } tid (.woken .etimeout)) .moved
  | resume {tid : Tid} {err : Err} (hpc : st.pc tid = .woken err) :
      CondMoves st (.resume tid) (st.setPc tid (.relocking err)) .moved
  | relock {tid : Tid} {result : Err} (hpc : st.pc tid = .relocking result) :
      CondMoves st (.relock tid) (CondState.setPc { st with mutex := some tid } tid .holding)
        (.returned result)
  | unheard (hthreads : st.sem.suspendThread = []) :
      CondMoves st .signal
        { st with sem := { st.sem with value := (st.sem.value + 1) % 0x10000 } } .moved
  | heard {thread : Tid} {rest : List Tid} (hthreads : st.sem.suspendThread = thread :: rest) :
      CondMoves st .signal
        (CondState.setPc { st with sem := { st.sem with suspendThread := rest } } thread
          (st.pc thread).resumed) .moved
  | broadcast :
      CondMoves st .broadcast
        { st with
          sem := st.sem.broadcast.1
          pc := fun tid =>
            if tid ∈ st.sem.broadcast.2 then (st.pc tid).resumed else st.pc tid } .moved

theorem condMoves_of_step {st next : CondState Tid} {act : CondAction Tid} {event : CondEvent}
    (hstep : condStep st act = some (next, event)) : CondMoves st act next event := by
  cases act with
  | lock tid =>
    simp only [condStep] at hstep
    split at hstep <;> cases hstep
    rename_i hpc _
    exact .lock hpc
  | unlock tid =>
    simp only [condStep] at hstep
    split at hstep <;> cases hstep
    rename_i hpc
    exact .unlock hpc
  | wait tid timeout =>
    simp only [condStep] at hstep
    split at hstep <;> cases hstep <;> rename_i hpc
    · exact .refused hpc
    · exact .wait hpc
  | take tid =>
    simp only [condStep, CondSem.take] at hstep
    split at hstep
    · rename_i timeout hpc
      split_ifs at hstep with hvalue htimeout
      · cases hstep
        exact .taken hpc hvalue
      · cases hstep
        exact .empty (htimeout ▸ hpc) (Nat.eq_zero_of_not_pos hvalue)
      · cases hstep
        exact .sleeps hpc (Nat.eq_zero_of_not_pos hvalue) htimeout
    · cases hstep
  | expire tid =>
    simp only [condStep] at hstep
    split at hstep
    · rename_i hpc
      split at hstep <;> cases hstep
      exact .expire hpc
    · cases hstep
  | resume tid =>
    simp only [condStep] at hstep
    split at hstep <;> cases hstep
    rename_i hpc
    exact .resume hpc
  | relock tid =>
    simp only [condStep] at hstep
    split at hstep <;> cases hstep
    rename_i hpc _
    exact .relock hpc
  | signal =>
    simp only [condStep, CondSem.release] at hstep
    cases hthreads : st.sem.suspendThread with
    | nil =>
      rw [hthreads] at hstep
      cases hstep
      rw [← hthreads]
      exact .unheard hthreads
    | cons thread rest =>
      rw [hthreads] at hstep
      cases hstep
      exact .heard hthreads
  | broadcast =>
    cases hstep
    exact .broadcast

/-! ## Wake-ups that are owed -/

/-- The threads that a broadcast owes a wake-up, and for each signal that has resumed no
thread, newest first, those of which it owes one a wake-up. -/
structure Owed (Tid : Type*) where
  all : Tid → Bool
  one : List (Finset Tid)

/-- A thread has taken the semaphore: the wake-up of the oldest signal that can have meant it. -/
def serve (tid : Tid) : List (Finset Tid) → List (Finset Tid)
  | [] => []
  | threads :: older =>
    if ∃ set ∈ older, tid ∈ set then threads.erase tid :: serve tid older
    else if tid ∈ threads then older
    else threads :: older

/-- A thread has found the semaphore empty. -/
def passBy (tid : Tid) (one : List (Finset Tid)) : List (Finset Tid) :=
  one.map fun threads => threads.erase tid

variable [Fintype Tid]

def CondState.inBetween (st : CondState Tid) : Finset Tid :=
  Finset.univ.filter fun tid => (st.pc tid).between = true

/-- A signal that resumes nobody is meant for the threads between the two steps, if there is one
for which no earlier signal has been. -/
def recordOwed (owed : Owed Tid) (st : CondState Tid) (act : CondAction Tid)
    (next : CondState Tid) (_ : CondEvent) : Owed Tid :=
  match act with
  | .take tid =>
    match next.pc tid with
    | .relocking .eok => ⟨update owed.all tid false, serve tid owed.one⟩
    | .asleep _ => ⟨owed.all, passBy tid owed.one⟩
    | _ => ⟨update owed.all tid false, passBy tid owed.one⟩
  | .signal =>
    if st.sem.suspendThread = [] ∧ owed.one.length < st.inBetween.card then
      { owed with one := st.inBetween :: owed.one }
    else owed
  | .broadcast =>
    { owed with all := fun tid => owed.all tid || (next.pc tid).waiting }
  | _ => owed

/-- Each of the signals can be given a thread of its own. -/
def Payable : List (Finset Tid) → Prop
  | [] => True
  | threads :: older => older.length < threads.card ∧ Payable older

/-- Nobody who is owed a wake-up by a broadcast sleeps, and the threads that can still take the
semaphore are enough for the signals that owe one of them a wake-up. -/
structure WakeupsKept (st : CondState Tid × Owed Tid) : Prop where
  all : ∀ tid, st.2.all tid = true → ∀ timeout, st.1.pc tid ≠ .asleep timeout
  one : Payable st.2.one
  between : ∀ threads ∈ st.2.one, threads ⊆ st.1.inBetween

/-- A thread that finds the semaphore empty is not owed a wake-up by a broadcast, unless it does
not want to wait, and the signals can do without it. -/
def TakesReach (st : CondState Tid × Owed Tid) : CondAction Tid → Prop
  | .take tid => (st.1.pc tid).between = true → st.1.sem.value = 0 →
      (st.2.all tid = true → st.1.pc tid = .unlocked 0) ∧ Payable (passBy tid st.2.one)
  | _ => True

/-- No thread is between the unlocking and `rt_sem_take` at a signal or a broadcast. -/
def NoneBetween (st : CondState Tid × Owed Tid) : CondAction Tid → Prop
  | .signal | .broadcast => st.1.inBetween = ∅
  | _ => True

def owedMachine : Machine (CondState Tid × Owed Tid) (CondAction Tid) CondEvent :=
  condMachine.recorded recordOwed

def owedInit : Owed Tid :=
  ⟨fun _ => false, []⟩

variable {tid : Tid} {one : List (Finset Tid)}

omit [Fintype Tid] in
theorem length_serve_lt (hmeant : ∃ set ∈ one, tid ∈ set) :
    (serve tid one).length < one.length := by
  induction one with
  | nil => exact absurd hmeant (by simp)
  | cons threads older ih =>
    rw [serve]
    split
    · rename_i hold
      exact Nat.succ_lt_succ (ih hold)
    · rename_i hold
      have hthreads : tid ∈ threads := by
        obtain ⟨set, hset, htid⟩ := hmeant
        rcases List.mem_cons.1 hset with rfl | hset
        · exact htid
        · exact absurd ⟨set, hset, htid⟩ hold
      rw [if_pos hthreads]
      exact Nat.lt_succ_self _

omit [Fintype Tid] in
/-- The wake-up of a signal is spent on one thread only. -/
theorem Payable.serve (hone : Payable one) (tid : Tid) : Payable (Pthreads.serve tid one) := by
  induction one with
  | nil => trivial
  | cons threads older ih =>
    obtain ⟨hthreads, holder⟩ := hone
    rw [Pthreads.serve]
    split
    · rename_i hold
      have hlength := length_serve_lt hold
      have hcard := Finset.pred_card_le_card_erase (s := threads) (a := tid)
      exact ⟨by omega, ih holder⟩
    · split
      · exact holder
      · exact ⟨hthreads, holder⟩

omit [Fintype Tid] in
theorem mem_serve {set : Finset Tid} (hset : set ∈ serve tid one) :
    tid ∉ set ∧ ∃ before ∈ one, set ⊆ before := by
  induction one with
  | nil => exact absurd hset List.not_mem_nil
  | cons threads older ih =>
    rw [serve] at hset
    split at hset
    · rcases List.mem_cons.1 hset with rfl | hset
      · exact ⟨Finset.notMem_erase tid threads, threads, List.mem_cons_self,
          Finset.erase_subset tid threads⟩
      · obtain ⟨htid, before, hbefore, hsubset⟩ := ih hset
        exact ⟨htid, before, List.mem_cons_of_mem _ hbefore, hsubset⟩
    · rename_i hold
      have hnone : ∀ set ∈ older, tid ∉ set := fun set hset htid => hold ⟨set, hset, htid⟩
      split at hset
      · exact ⟨hnone set hset, set, List.mem_cons_of_mem _ hset, Finset.Subset.refl set⟩
      · rename_i hthreads
        refine ⟨?_, set, hset, Finset.Subset.refl set⟩
        rcases List.mem_cons.1 hset with rfl | hset
        · exact hthreads
        · exact hnone set hset

omit [Fintype Tid] in
theorem mem_passBy {set : Finset Tid} (hset : set ∈ passBy tid one) :
    tid ∉ set ∧ ∃ before ∈ one, set ⊆ before := by
  obtain ⟨before, hbefore, rfl⟩ := List.mem_map.1 hset
  exact ⟨Finset.notMem_erase tid before, before, hbefore, Finset.erase_subset tid before⟩

/-! ## The threads and the list of the semaphore -/

@[simp]
theorem between_resumed (pc : CondPc) : pc.resumed.between = pc.between := by
  cases pc <;> rfl

omit [DecidableEq Tid] in
@[simp]
theorem mem_inBetween {st : CondState Tid} : tid ∈ st.inBetween ↔ (st.pc tid).between = true := by
  simp [CondState.inBetween]

section Steps

omit [Fintype Tid]

variable {st next : CondState Tid} {act : CondAction Tid} {event : CondEvent} {tid : Tid}

theorem setPc_pc_self (pc : CondPc) : (st.setPc tid pc).pc tid = pc :=
  update_self _ _ _

theorem setPc_pc_of_ne {other : Tid} (hne : other ≠ tid) (pc : CondPc) :
    (st.setPc tid pc).pc other = st.pc other :=
  update_of_ne hne _ _

/-- The list of the semaphore holds each thread that sleeps, once. -/
structure CondState.Linked (st : CondState Tid) : Prop where
  settled : st.sem.Settled
  nodup : st.sem.suspendThread.Nodup
  asleep : ∀ tid, tid ∈ st.sem.suspendThread ↔ ∃ timeout, st.pc tid = .asleep timeout

omit [DecidableEq Tid] in
theorem linked_condInit : (condInit : CondState Tid).Linked :=
  ⟨fun hnonempty => absurd rfl hnonempty, List.nodup_nil, by simp [condInit]⟩

namespace CondState.Linked

theorem setPc (hlinked : st.Linked) (mutex : Option Tid)
    (hbefore : ∀ timeout, st.pc tid ≠ .asleep timeout) {pc : CondPc}
    (hafter : ∀ timeout, pc ≠ .asleep timeout) :
    (CondState.setPc { st with mutex := mutex } tid pc).Linked := by
  refine ⟨hlinked.settled, hlinked.nodup, fun other => ?_⟩
  by_cases hother : other = tid
  · subst hother
    rw [setPc_pc_self]
    constructor
    · intro hmem
      obtain ⟨timeout, hasleep⟩ := (hlinked.asleep other).1 hmem
      exact absurd hasleep (hbefore timeout)
    · rintro ⟨timeout, hasleep⟩
      exact absurd hasleep (hafter timeout)
  · rw [setPc_pc_of_ne hother]
    exact hlinked.asleep other

theorem wake (hlinked : st.Linked) (tid : Tid) {pc : CondPc}
    (hafter : ∀ timeout, pc ≠ .asleep timeout) :
    (CondState.setPc { st with sem := { st.sem with
      suspendThread := st.sem.suspendThread.erase tid } } tid pc).Linked := by
  refine ⟨hlinked.settled.erase tid, hlinked.nodup.erase tid, fun other => ?_⟩
  by_cases hother : other = tid
  · subst hother
    rw [setPc_pc_self]
    constructor
    · exact fun hmem => absurd hmem hlinked.nodup.not_mem_erase
    · rintro ⟨timeout, hasleep⟩
      exact absurd hasleep (hafter timeout)
  · rw [setPc_pc_of_ne hother]
    exact (List.mem_erase_of_ne hother).trans (hlinked.asleep other)

theorem sleep (hlinked : st.Linked) {timeout : ℤ} (hpc : st.pc tid = .unlocked timeout)
    (hzero : st.sem.value = 0) :
    (CondState.setPc { st with sem := { st.sem with
      suspendThread := st.sem.suspendThread ++ [tid] } } tid (.asleep timeout)).Linked := by
  have hnew : tid ∉ st.sem.suspendThread := by
    rw [hlinked.asleep tid, hpc]
    rintro ⟨timeout, hasleep⟩
    cases hasleep
  refine ⟨fun _ => hzero, ?_, fun other => ?_⟩
  · exact List.nodup_append.2 ⟨hlinked.nodup, List.nodup_singleton tid, by
      rintro thread hthread _ hsingle rfl
      rw [List.mem_singleton.1 hsingle] at hthread
      exact hnew hthread⟩
  · by_cases hother : other = tid
    · subst hother
      rw [setPc_pc_self]
      simp [CondState.setPc]
    · rw [setPc_pc_of_ne hother]
      simpa [CondState.setPc, hother] using hlinked.asleep other

theorem heard (hlinked : st.Linked) {rest : List Tid}
    (hthreads : st.sem.suspendThread = tid :: rest) :
    (CondState.setPc { st with sem := { st.sem with suspendThread := rest } } tid
      (st.pc tid).resumed).Linked := by
  obtain ⟨timeout, hasleep⟩ :=
    (hlinked.asleep tid).1 (by rw [hthreads]; exact List.mem_cons_self)
  have hwake : (CondState.setPc { st with sem := { st.sem with
      suspendThread := st.sem.suspendThread.erase tid } } tid (.woken .eok)).Linked :=
    hlinked.wake tid (by simp)
  rw [hthreads, List.erase_cons_head] at hwake
  rw [hasleep]
  exact hwake

theorem broadcast (hlinked : st.Linked) :
    CondState.Linked { st with
      sem := st.sem.broadcast.1
      pc := fun tid => if tid ∈ st.sem.broadcast.2 then (st.pc tid).resumed else st.pc tid } := by
  rw [CondSem.broadcast_eq hlinked.settled]
  refine ⟨fun hnonempty => absurd rfl hnonempty, List.nodup_nil, fun other => ?_⟩
  simp only [List.not_mem_nil, false_iff, not_exists]
  intro timeout
  split
  · cases st.pc other <;> simp [CondPc.resumed]
  · rename_i hother
    exact fun hasleep => hother ((hlinked.asleep other).2 ⟨timeout, hasleep⟩)

theorem step (hlinked : st.Linked) (hstep : condStep st act = some (next, event)) :
    next.Linked := by
  cases condMoves_of_step hstep with
  | lock hpc | unlock hpc | wait hpc | empty hpc | resume hpc | relock hpc =>
    exact hlinked.setPc _ (by simp [hpc]) (by simp)
  | refused hpc => exact hlinked
  | @taken tid timeout hpc hvalue =>
    have hmoved : (st.setPc tid (.relocking .eok)).Linked :=
      hlinked.setPc st.mutex (by simp [hpc]) (by simp)
    exact ⟨fun hnonempty => absurd (hlinked.settled hnonempty) (Nat.pos_iff_ne_zero.1 hvalue),
      hmoved.nodup, hmoved.asleep⟩
  | sleeps hpc hzero htimeout => exact hlinked.sleep hpc hzero
  | @expire tid timeout hpc => exact hlinked.wake tid (by simp)
  | unheard hthreads =>
    exact ⟨fun hnonempty => absurd hthreads hnonempty, hlinked.nodup, hlinked.asleep⟩
  | heard hthreads => exact hlinked.heard hthreads
  | broadcast => exact hlinked.broadcast

end CondState.Linked

/-- Only `rt_sem_take` ends the phase between the two steps. -/
theorem between_of_step {other : Tid} (hother : (st.pc other).between = true)
    (htake : act ≠ .take other) (hstep : condStep st act = some (next, event)) :
    (next.pc other).between = true := by
  have hsetPc : ∀ (tid : Tid) (pc : CondPc), (st.pc tid).between = false →
      (update st.pc tid pc other).between = true := by
    intro tid pc htid
    have hne : other ≠ tid := by
      rintro rfl
      exact absurd hother (by rw [htid]; exact Bool.false_ne_true)
    rw [update_of_ne hne]
    exact hother
  cases condMoves_of_step hstep with
  | @taken tid _ _ _ | @empty tid _ _ | @sleeps tid _ _ _ _ =>
    have hne : other ≠ tid := fun heq => htake (by rw [heq])
    rw [setPc_pc_of_ne hne]
    exact hother
  | lock hpc | unlock hpc | wait hpc | expire hpc | resume hpc | relock hpc =>
    exact hsetPc _ _ (by rw [hpc]; rfl)
  | refused hpc => exact hother
  | unheard hthreads => exact hother
  | @heard thread rest hthreads =>
    by_cases hthread : other = thread
    · subst hthread
      rw [setPc_pc_self, between_resumed]
      exact hother
    · rw [setPc_pc_of_ne hthread]
      exact hother
  | broadcast =>
    dsimp only
    split
    · rw [between_resumed]
      exact hother
    · exact hother

end Steps

/-! ## What the notes say -/

variable {st next : CondState Tid} {owed : Owed Tid} {act : CondAction Tid}
variable {event : CondEvent}

/-- A thread that is owed a wake-up has not taken the semaphore yet. -/
structure OwedInv (st : CondState Tid) (owed : Owed Tid) : Prop where
  linked : st.Linked
  all : ∀ tid, owed.all tid = true → (st.pc tid).between = true
  one : Payable owed.one
  between : ∀ threads ∈ owed.one, threads ⊆ st.inBetween

omit [DecidableEq Tid] in
theorem owedInv_init : OwedInv (condInit : CondState Tid) owedInit :=
  ⟨linked_condInit, nofun, trivial, fun _ hset => absurd hset List.not_mem_nil⟩

omit [DecidableEq Tid] in
theorem OwedInv.kept (hinv : OwedInv st owed) : WakeupsKept (st, owed) where
  all tid htid timeout hasleep := by
    have hbetween := hinv.all tid htid
    rw [hasleep] at hbetween
    cases hbetween
  one := hinv.one
  between := hinv.between

theorem OwedInv.unchanged (hinv : OwedInv st owed) (htake : ∀ tid, act ≠ .take tid)
    (hstep : condStep st act = some (next, event)) : OwedInv next owed where
  linked := hinv.linked.step hstep
  all tid htid := between_of_step (hinv.all tid htid) (htake tid) hstep
  one := hinv.one
  between threads hthreads tid htid :=
    mem_inBetween.2 (between_of_step (mem_inBetween.1 (hinv.between threads hthreads htid))
      (htake tid) hstep)

variable {tid : Tid}

/-- What is left of the sets of the signals when a thread takes the semaphore, or finds it
empty. -/
theorem OwedInv.between_take (hinv : OwedInv st owed) {one : List (Finset Tid)}
    (hone : ∀ set ∈ one, tid ∉ set ∧ ∃ before ∈ owed.one, set ⊆ before)
    (hstep : condStep st (.take tid) = some (next, event)) :
    ∀ threads ∈ one, threads ⊆ next.inBetween := by
  intro threads hthreads other hother
  obtain ⟨htid, before, hbefore, hsubset⟩ := hone threads hthreads
  have hne : (CondAction.take tid : CondAction Tid) ≠ .take other := by
    rintro heq
    cases heq
    exact htid hother
  exact mem_inBetween.2 (between_of_step
    (mem_inBetween.1 (hinv.between before hbefore (hsubset hother))) hne hstep)

theorem OwedInv.all_take (hinv : OwedInv st owed) {all : Tid → Bool}
    (hall : ∀ other, all other = true → other ≠ tid ∧ owed.all other = true)
    (hstep : condStep st (.take tid) = some (next, event)) :
    ∀ other, all other = true → (next.pc other).between = true := by
  intro other hother
  obtain ⟨hne, hbefore⟩ := hall other hother
  refine between_of_step (hinv.all other hbefore) ?_ hstep
  rintro heq
  cases heq
  exact hne rfl

omit [Fintype Tid] in
theorem update_all_false {all : Tid → Bool} {other : Tid}
    (hother : update all tid false other = true) : other ≠ tid ∧ all other = true := by
  by_cases heq : other = tid
  · subst heq
    rw [update_self] at hother
    cases hother
  · rw [update_of_ne heq] at hother
    exact ⟨heq, hother⟩

theorem OwedInv.take (hinv : OwedInv st owed) (hgood : TakesReach (st, owed) (.take tid))
    (hstep : condStep st (.take tid) = some (next, event)) :
    OwedInv next (recordOwed owed st (.take tid) next event) := by
  have hlinked := hinv.linked.step hstep
  have hserved := hinv.between_take (fun set => mem_serve) hstep
  have hpassed := hinv.between_take (fun set => mem_passBy) hstep
  have hcleared := hinv.all_take (fun other => update_all_false) hstep
  have hframe : (∀ other, owed.all other = true → other ≠ tid ∧ owed.all other = true) →
      ∀ other, owed.all other = true → (next.pc other).between = true :=
    fun hnot => hinv.all_take hnot hstep
  cases condMoves_of_step hstep with
  | taken hpc hvalue =>
    rw [recordOwed, setPc_pc_self]
    exact ⟨hlinked, hcleared, hinv.one.serve tid, hserved⟩
  | empty hpc hzero =>
    obtain ⟨-, hone⟩ := hgood (by rw [hpc]; rfl) hzero
    rw [recordOwed, setPc_pc_self]
    exact ⟨hlinked, hcleared, hone, hpassed⟩
  | sleeps hpc hzero htimeout =>
    obtain ⟨hall, hone⟩ := hgood (by rw [hpc]; rfl) hzero
    have hnot : ∀ other, owed.all other = true → other ≠ tid ∧ owed.all other = true := by
      rintro other hother
      refine ⟨?_, hother⟩
      rintro rfl
      have hforever := hall hother
      dsimp only at hforever
      rw [hpc] at hforever
      exact htimeout (CondPc.unlocked.inj hforever)
    have hkept := hframe hnot
    rw [recordOwed, setPc_pc_self]
    exact ⟨hlinked, hkept, hone, hpassed⟩

theorem OwedInv.signal (hinv : OwedInv st owed)
    (hstep : condStep st .signal = some (next, event)) :
    OwedInv next (recordOwed owed st .signal next event) := by
  have hunchanged := hinv.unchanged (by simp) hstep
  rw [recordOwed]
  split
  · rename_i hmeant
    refine ⟨hunchanged.linked, hunchanged.all, ⟨hmeant.2, hinv.one⟩, ?_⟩
    intro threads hthreads
    rcases List.mem_cons.1 hthreads with rfl | hthreads
    · intro tid htid
      exact mem_inBetween.2 (between_of_step (mem_inBetween.1 htid) (by simp) hstep)
    · exact hunchanged.between threads hthreads
  · exact hunchanged

theorem OwedInv.broadcast (hinv : OwedInv st owed)
    (hstep : condStep st .broadcast = some (next, event)) :
    OwedInv next (recordOwed owed st .broadcast next event) := by
  have hunchanged := hinv.unchanged (by simp) hstep
  refine ⟨hunchanged.linked, fun tid htid => ?_, hunchanged.one, hunchanged.between⟩
  rcases Bool.or_eq_true_iff.1 htid with hbefore | hwaiting
  · exact hunchanged.all tid hbefore
  · -- the threads that slept have all been resumed
    have hawake : ∀ timeout, next.pc tid ≠ .asleep timeout := by
      intro timeout hasleep
      have hmem := (hunchanged.linked.asleep tid).2 ⟨timeout, hasleep⟩
      cases condMoves_of_step hstep
      rw [CondSem.broadcast_eq hinv.linked.settled] at hmem
      exact absurd hmem List.not_mem_nil
    cases hpc : next.pc tid with
    | unlocked timeout => rfl
    | asleep timeout => exact absurd hpc (hawake timeout)
    | _ =>
      rw [hpc] at hwaiting
      cases hwaiting

theorem OwedInv.step (hinv : OwedInv st owed) (hgood : TakesReach (st, owed) act)
    (hstep : condStep st act = some (next, event)) :
    OwedInv next (recordOwed owed st act next event) := by
  cases act with
  | take tid => exact hinv.take hgood hstep
  | signal => exact hinv.signal hstep
  | broadcast => exact hinv.broadcast hstep
  | _ => exact hinv.unchanged (by simp) hstep

/-- A thread that finds the semaphore empty loses its wake-up. -/
theorem lost_of_take (hbad : ¬TakesReach (st, owed) act)
    (hstep : condStep st act = some (next, event)) :
    ¬WakeupsKept (next, recordOwed owed st act next event) := by
  cases act with
  | take tid =>
    simp only [TakesReach, Classical.not_imp, not_and_or] at hbad
    obtain ⟨hbetween, hzero, hlost⟩ := hbad
    intro hkept
    cases condMoves_of_step hstep with
    | taken hpc hvalue => exact hvalue.ne' hzero
    | empty hpc =>
      rw [recordOwed, setPc_pc_self] at hkept
      rcases hlost with ⟨_, hnowait⟩ | hone
      · exact hnowait hpc
      · exact hone hkept.one
    | @sleeps _ timeout hpc _ htimeout =>
      rw [recordOwed, setPc_pc_self] at hkept
      rcases hlost with ⟨hall, _⟩ | hone
      · exact hkept.all tid hall timeout (setPc_pc_self _)
      · exact hone hkept.one
  | _ => exact absurd trivial hbad

/-- When nobody is between the two steps at a signal or a broadcast, nobody is owed a wake-up. -/
theorem noneOwed_step (howed : owed = owedInit) (hlinked : st.Linked)
    (hgood : NoneBetween (st, owed) act)
    (hstep : condStep st act = some (next, event)) :
    recordOwed owed st act next event = owedInit := by
  subst howed
  have hupdate : ∀ tid : Tid, update owedInit.all tid false = owedInit.all := by
    intro tid
    exact update_eq_self tid owedInit.all
  cases act with
  | take tid =>
    rw [recordOwed]
    split
    · rw [hupdate]
      rfl
    · rfl
    · rw [hupdate]
      rfl
  | signal =>
    have hnone : st.inBetween = ∅ := hgood
    rw [recordOwed, if_neg]
    rintro ⟨_, hcard⟩
    rw [hnone] at hcard
    exact absurd hcard (Nat.not_lt_zero _)
  | broadcast =>
    have hnone : st.inBetween = ∅ := hgood
    have hnext : ∀ tid, (next.pc tid).waiting = false := by
      intro tid
      have hbetween : (st.pc tid).between = false := by
        rw [← Bool.not_eq_true, ← mem_inBetween, hnone]
        exact Finset.notMem_empty tid
      cases condMoves_of_step hstep
      rw [CondSem.broadcast_eq hlinked.settled]
      dsimp only
      split
      · cases hpc : st.pc tid <;> simp_all [CondPc.resumed, CondPc.waiting, CondPc.between]
      · rename_i hmem
        rw [hlinked.asleep tid] at hmem
        cases hpc : st.pc tid <;> simp_all [CondPc.waiting, CondPc.between]
    simp only [recordOwed, hnext, owedInit, Bool.or_false]
  | _ => rfl

/-- The wake-ups are kept in every state of a run exactly when no thread that is owed one finds the
semaphore empty, and so in a run in which no thread is between the two steps at a signal or a
broadcast. -/
theorem cond_wakeups_kept_iff {trace : List (CondAction Tid × CondEvent)} {last : CondState Tid}
    (hrun : condMachine.Run condInit trace last) :
    (∃ owed, owedMachine.Run (condInit, owedInit) trace (last, owed)) ∧
    ∀ owed, owedMachine.Run (condInit, owedInit) trace (last, owed) →
      ((owedMachine.RunWith (fun st _ => WakeupsKept st) (condInit, owedInit) trace
          (last, owed) ∧ WakeupsKept (last, owed)) ↔
        owedMachine.RunWith TakesReach (condInit, owedInit) trace (last, owed)) ∧
      (owedMachine.RunWith NoneBetween (condInit, owedInit) trace (last, owed) →
        owedMachine.RunWith TakesReach (condInit, owedInit) trace (last, owed)) := by
  refine ⟨hrun.recorded recordOwed owedInit, fun owed hrecorded => ⟨?_, fun hnone => ?_⟩⟩
  · refine hrecorded.always_iff (fun st => OwedInv st.1 st.2) WakeupsKept
      (fun _ hinv => hinv.kept) ?_ ?_ owedInv_init
    · rintro ⟨st, owed⟩ act ⟨next, after⟩ event hinv hgood hstep
      obtain ⟨hstep, hnotes⟩ := Machine.recorded_step.1 hstep
      rw [show after = _ from hnotes]
      exact hinv.step hgood hstep
    · rintro ⟨st, owed⟩ act ⟨next, after⟩ event _ hbad hstep
      obtain ⟨hstep, hnotes⟩ := Machine.recorded_step.1 hstep
      rw [show after = _ from hnotes]
      exact lost_of_take hbad hstep
  · refine hnone.weaken (fun st => st.1.Linked ∧ st.2 = owedInit) ?_ ?_
      ⟨linked_condInit, rfl⟩
    · rintro ⟨st, owed⟩ act ⟨next, after⟩ event ⟨hlinked, howed⟩ hgood hstep
      obtain ⟨hstep, hnotes⟩ := Machine.recorded_step.1 hstep
      rw [show after = _ from hnotes]
      exact ⟨hlinked.step hstep, noneOwed_step howed hlinked hgood hstep⟩
    · rintro ⟨st, owed⟩ act ⟨_, rfl⟩ _
      cases act with
      | take tid => exact fun _ _ => ⟨nofun, trivial⟩
      | _ => trivial

section Schedules

instance : (one : List (Finset Tid)) → Decidable (Payable one)
  | [] => isTrue trivial
  | threads :: older =>
    have := instDecidablePayable older
    inferInstanceAs (Decidable (older.length < threads.card ∧ Payable older))

instance (st : CondState Tid × Owed Tid) :
    (act : CondAction Tid) → Decidable (NoneBetween st act)
  | .signal | .broadcast => inferInstanceAs (Decidable (st.1.inBetween = ∅))
  | .lock _ | .unlock _ | .wait _ _ | .take _ | .expire _ | .resume _ | .relock _ => isTrue trivial

end Schedules

/-- A thread waits, and another one signals and broadcasts. -/
def scheduleSignal (waiter : Tid) : List (CondAction Tid) :=
  [.lock waiter, .wait waiter (-1), .take waiter, .signal, .resume waiter, .relock waiter,
    .unlock waiter, .broadcast]

theorem isSome_scheduleSignal : (owedMachine.exec NoneBetween (condInit, owedInit)
    (scheduleSignal true)).isSome = true := by
  decide

theorem cond_wakeups_kept_scheduleSignal : ∃ trace, ∃ last : CondState Bool × Owed Bool,
    owedMachine.RunWith (fun st _ => WakeupsKept st) (condInit, owedInit) trace last ∧
      trace.map Prod.snd = [.moved, .moved, .slept, .moved, .moved, .returned .eok, .moved,
        .moved] ∧ last.1.sem.value = 1 := by
  have hrun := Machine.runWith_of_isSome _ isSome_scheduleSignal
  have hkept := (cond_wakeups_kept_iff hrun.of_recorded).2 _ hrun.run
  exact ⟨_, _, (hkept.1.2 (hkept.2 hrun)).1, by decide, by decide⟩

/-- Two threads have released the mutex at a broadcast, and neither has taken the semaphore. -/
def scheduleBroadcast (first second : Tid) : List (CondAction Tid) :=
  [.lock first, .wait first (-1), .lock second, .wait second (-1), .broadcast, .take first,
    .take second]

/-- A thread that waits after the signal takes its token. -/
def scheduleLatecomer (first second : Tid) : List (CondAction Tid) :=
  [.lock first, .wait first (-1), .signal, .lock second, .wait second (-1), .take second,
    .take first]

theorem isSome_scheduleBroadcast : (owedMachine.exec (fun _ _ => True) (condInit, owedInit)
    (scheduleBroadcast true false)).isSome = true := by
  decide

theorem isSome_scheduleLatecomer : (owedMachine.exec (fun _ _ => True) (condInit, owedInit)
    (scheduleLatecomer true false)).isSome = true := by
  decide

/-- A broadcast leaves one token for two threads, and a signal leaves its token to anybody. -/
theorem cond_wakeups_lost :
    (∃ trace, ∃ last : CondState Bool × Owed Bool,
      owedMachine.Run (condInit, owedInit) trace last ∧
        trace.map Prod.fst = scheduleBroadcast true false ∧
          last.1.pc false = .asleep (-1) ∧ last.2.all false = true ∧ ¬WakeupsKept last) ∧
    ∃ trace, ∃ last : CondState Bool × Owed Bool,
      owedMachine.Run (condInit, owedInit) trace last ∧
        trace.map Prod.fst = scheduleLatecomer true false ∧
          last.1.pc true = .asleep (-1) ∧ last.2.one = [∅] ∧ ¬WakeupsKept last := by
  constructor
  · refine ⟨_, _, Machine.runWith_of_isSome _ isSome_scheduleBroadcast,
      Machine.actions_of_isSome _ isSome_scheduleBroadcast, by decide, by decide, fun hkept => ?_⟩
    exact hkept.all false (by decide) (-1) (by decide)
  · refine ⟨_, _, Machine.runWith_of_isSome _ isSome_scheduleLatecomer,
      Machine.actions_of_isSome _ isSome_scheduleLatecomer, by decide, by decide, fun hkept => ?_⟩
    exact absurd hkept.one (by decide)

end Machine

end RtThread.Pthreads
