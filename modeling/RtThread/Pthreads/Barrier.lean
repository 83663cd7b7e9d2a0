import RtThread.Pthreads.CondWakeups

set_option linter.all false

/-!
# Barriers

`pthread_barrier.c`.  A barrier counts down to zero and is never set again: the threads of
the first round leave together, and a thread that comes back finds the count at zero and
gets `EINVAL`.
-/

namespace RtThread.Pthreads

open RtThread.Core
open RtThread.Kernel (Err)

/-- What `pthread_barrier_wait` returns: zero or `EINVAL`. -/
inductive BarrierResult
  | zero | einval
  deriving DecidableEq

/-- Where a thread is: outside, before it locks the mutex, before it looks at the count, in
`pthread_cond_wait`, before it unlocks the mutex. -/
inductive BarrierPc
  | out
  | entering
  | testing
  | waiting
  | leaving (result : BarrierResult)

structure BarrierState (Tid : Type*) where
  count : ℕ
  cond : CondState Tid
  pc : Tid → BarrierPc

inductive BarrierAction (Tid : Type*)
  | enter (tid : Tid)
  | lock (tid : Tid)
  /-- The test of the count, and what is done before the thread waits or leaves. -/
  | test (tid : Tid)
  | take (tid : Tid)
  | resume (tid : Tid)
  | relock (tid : Tid)
  | leave (tid : Tid)
  deriving DecidableEq

inductive BarrierEvent
  | returned (result : BarrierResult)
  | moved

section Machine

variable {Tid : Type*} [DecidableEq Tid]

def BarrierState.setPc (st : BarrierState Tid) (tid : Tid) (pc : BarrierPc) :
    BarrierState Tid :=
  { st with pc := Function.update st.pc tid pc }

/-- A step of `pthread_cond_wait`; its result is not looked at. -/
def barrierCondStep (st : BarrierState Tid) (tid : Tid) (act : CondAction Tid) :
    Option (BarrierState Tid × BarrierEvent) :=
  match st.pc tid, condStep st.cond act with
  | .waiting, some (cond, .returned _) =>
    some ({ st with cond := cond }.setPc tid (.leaving .zero), .moved)
  | .waiting, some (cond, _) => some ({ st with cond := cond }, .moved)
  | _, _ => none

/-- `RT_WAITING_FOREVER`. -/
def waitingForever : ℤ := -1

/-- The body of `pthread_barrier_wait`, with the mutex held. -/
def barrierTest (st : BarrierState Tid) (tid : Tid) : Option (BarrierState Tid) :=
  if st.count = 0 then some (st.setPc tid (.leaving .einval))
  else if st.count - 1 = 0 then
    match condStep st.cond .broadcast with
    | some (cond, _) =>
      some (BarrierState.setPc ⟨st.count - 1, cond, st.pc⟩ tid (.leaving .zero))
    | none => none
  else
    match condStep st.cond (.wait tid waitingForever) with
    | some (cond, _) =>
      some (BarrierState.setPc ⟨st.count - 1, cond, st.pc⟩ tid .waiting)
    | none => none

def barrierStep (st : BarrierState Tid) :
    BarrierAction Tid → Option (BarrierState Tid × BarrierEvent)
  | .enter tid =>
    match st.pc tid with
    | .out => some (st.setPc tid .entering, .moved)
    | _ => none
  | .lock tid =>
    match st.pc tid, condStep st.cond (.lock tid) with
    | .entering, some (cond, _) => some ({ st with cond := cond }.setPc tid .testing, .moved)
    | _, _ => none
  | .test tid =>
    match st.pc tid, barrierTest st tid with
    | .testing, some next => some (next, .moved)
    | _, _ => none
  | .take tid => barrierCondStep st tid (.take tid)
  | .resume tid => barrierCondStep st tid (.resume tid)
  | .relock tid => barrierCondStep st tid (.relock tid)
  | .leave tid =>
    match st.pc tid, condStep st.cond (.unlock tid) with
    | .leaving result, some (cond, _) =>
      some ({ st with cond := cond }.setPc tid .out, .returned result)
    | _, _ => none

def barrierMachine : Machine (BarrierState Tid) (BarrierAction Tid) BarrierEvent where
  step := barrierStep

/-- `pthread_barrier_init`. -/
def barrierInit (count : ℕ) : BarrierState Tid :=
  ⟨count, condInit, fun _ => .out⟩

/-! ## The calls of a thread -/

/-- The result of a call of the thread that the step ends. -/
def returnOf (tid : Tid) : BarrierAction Tid × BarrierEvent → Option BarrierResult
  | (.leave other, .returned result) => if other = tid then some result else none
  | _ => none

/-- What the calls of the thread have returned, in order. -/
def returnsOf (tid : Tid) (trace : List (BarrierAction Tid × BarrierEvent)) :
    List BarrierResult :=
  trace.filterMap (returnOf tid)

/-- The thread has called `pthread_barrier_wait`. -/
def Entered (tid : Tid) (trace : List (BarrierAction Tid × BarrierEvent)) : Prop :=
  BarrierAction.enter tid ∈ trace.map Prod.fst

/-- Only the first call takes part in a round. -/
def OneRound (results : List BarrierResult) : Prop :=
  results = [] ∨ ∃ later, results = .zero :: List.replicate later .einval

theorem OneRound.snoc {results : List BarrierResult} (hround : OneRound results)
    (hsome : results ≠ []) : OneRound (results ++ [.einval]) := by
  obtain ⟨later, rfl⟩ := hround.resolve_left hsome
  exact Or.inr ⟨later + 1, by rw [List.replicate_succ', List.cons_append]⟩

section Trace

variable {past : List (BarrierAction Tid × BarrierEvent)}

@[simp]
theorem returnsOf_append (tid : Tid) (entry : BarrierAction Tid × BarrierEvent) :
    returnsOf tid (past ++ [entry]) = returnsOf tid past ++ (returnOf tid entry).toList := by
  rw [returnsOf, List.filterMap_append, List.filterMap_cons, List.filterMap_nil]
  cases returnOf tid entry <;> rfl

omit [DecidableEq Tid] in
theorem Entered.append {tid : Tid} (hentered : Entered tid past)
    (entry : BarrierAction Tid × BarrierEvent) : Entered tid (past ++ [entry]) := by
  rw [Entered, List.map_append]
  exact List.mem_append_left _ hentered

end Trace

/-! ## The threads and the condition variable -/

/-- The thread has not looked at the count. -/
def BarrierPc.early : BarrierPc → Bool
  | .out | .entering | .testing => true
  | _ => false

/-- Where a thread is in the condition variable's machine. -/
def BarrierPc.Matches : BarrierPc → CondPc → Prop
  | .out, pc | .entering, pc => pc = .out
  | .testing, pc | .leaving _, pc => pc = .holding
  | .waiting, pc => pc ≠ .out ∧ pc ≠ .holding ∧
      ∀ timeout, pc = .unlocked timeout → timeout = waitingForever

/-- Nobody has signalled: there is no token, and no thread has been resumed. -/
structure CondState.Calm (st : CondState Tid) : Prop where
  value : st.sem.value = 0
  pc : ∀ tid, (∀ err, st.pc tid ≠ .woken err) ∧ ∀ err, st.pc tid ≠ .relocking err

theorem BarrierPc.Matches.resumed {pc : BarrierPc} {cond : CondPc} (hmatches : pc.Matches cond) :
    pc.Matches cond.resumed := by
  cases cond with
  | asleep timeout => cases pc <;> simp_all [BarrierPc.Matches, CondPc.resumed]
  | _ => exact hmatches

section Cond

variable {st next : CondState Tid} {act : CondAction Tid} {event : CondEvent} {tid : Tid}

theorem condStep_lock (hstep : condStep st (.lock tid) = some (next, event)) :
    next = CondState.setPc { st with mutex := some tid } tid .holding := by
  cases condMoves_of_step hstep
  rfl

theorem condStep_unlock (hstep : condStep st (.unlock tid) = some (next, event)) :
    next = CondState.setPc { st with mutex := none } tid .out := by
  cases condMoves_of_step hstep
  rfl

theorem condStep_wait {timeout : ℤ} (hholding : st.pc tid = .holding)
    (hstep : condStep st (.wait tid timeout) = some (next, event)) :
    next = CondState.setPc { st with mutex := none } tid (.unlocked timeout) := by
  cases condMoves_of_step hstep with
  | refused hpc =>
    rw [hpc] at hholding
    cases hholding
  | wait hpc => rfl

/-- The steps of a thread inside `_pthread_cond_timedwait`. -/
def CondAction.Inside (tid : Tid) (act : CondAction Tid) : Prop :=
  act = .take tid ∨ act = .resume tid ∨ act = .relock tid

theorem condStep_inside (hinside : act.Inside tid)
    (hstep : condStep st act = some (next, event)) :
    (∀ other, other ≠ tid → next.pc other = st.pc other) ∧
      ((∃ result, event = .returned result) ∧ next.pc tid = .holding ∨
        (∀ result, event ≠ .returned result) ∧ BarrierPc.Matches .waiting (next.pc tid)) := by
  rcases hinside with rfl | rfl | rfl
  · cases condMoves_of_step hstep <;>
      exact ⟨fun other hne => setPc_pc_of_ne hne _, Or.inr ⟨by simp, by
        rw [setPc_pc_self]; simp [BarrierPc.Matches]⟩⟩
  · cases condMoves_of_step hstep
    exact ⟨fun other hne => setPc_pc_of_ne hne _, Or.inr ⟨by simp, by
      rw [setPc_pc_self]; simp [BarrierPc.Matches]⟩⟩
  · cases condMoves_of_step hstep
    exact ⟨fun other hne => setPc_pc_of_ne hne _, Or.inl ⟨⟨_, rfl⟩, setPc_pc_self _⟩⟩

theorem CondState.Calm.setPc (hcalm : st.Calm) (mutex : Option Tid) {pc : CondPc}
    (hpc : (∀ err, pc ≠ .woken err) ∧ ∀ err, pc ≠ .relocking err) :
    (CondState.setPc { st with mutex := mutex } tid pc).Calm := by
  refine ⟨hcalm.value, fun other => ?_⟩
  by_cases hother : other = tid
  · subst hother
    rw [setPc_pc_self]
    exact hpc
  · rw [setPc_pc_of_ne hother]
    exact hcalm.pc other

/-- As long as nobody has signalled, a thread that waits falls asleep and goes no further. -/
theorem CondState.Calm.inside (hcalm : st.Calm) (hinside : act.Inside tid)
    (hforever : ∀ timeout, st.pc tid = .unlocked timeout → timeout = waitingForever)
    (hstep : condStep st act = some (next, event)) :
    next.Calm ∧ ∀ result, event ≠ .returned result := by
  rcases hinside with rfl | rfl | rfl
  · cases condMoves_of_step hstep with
    | taken hpc hvalue => exact absurd hcalm.value hvalue.ne'
    | empty hpc => exact absurd (hforever 0 hpc) (by decide)
    | @sleeps _ timeout hpc =>
      obtain rfl := hforever timeout hpc
      have hmoved : (st.setPc tid (.asleep waitingForever)).Calm :=
        hcalm.setPc st.mutex (by simp)
      exact ⟨⟨hcalm.value, hmoved.pc⟩, by simp⟩
  · cases condMoves_of_step hstep with
    | @resume _ err hpc => exact absurd hpc ((hcalm.pc tid).1 err)
  · cases condMoves_of_step hstep with
    | @relock _ err hpc => exact absurd hpc ((hcalm.pc tid).2 err)

end Cond

section Invariant

variable {past : List (BarrierAction Tid × BarrierEvent)} {st next : BarrierState Tid}
variable {act : BarrierAction Tid} {event : BarrierEvent} {tid : Tid}

theorem barrierCondStep_cases {condAction : CondAction Tid}
    (hstep : barrierCondStep st tid condAction = some (next, event)) :
    st.pc tid = .waiting ∧ event = .moved ∧
      ∃ cond condEvent, condStep st.cond condAction = some (cond, condEvent) ∧
        ((∃ result, condEvent = .returned result) ∧
            next = BarrierState.setPc { st with cond := cond } tid (.leaving .zero) ∨
          (∀ result, condEvent ≠ .returned result) ∧ next = { st with cond := cond }) := by
  simp only [barrierCondStep] at hstep
  split at hstep
  · rename_i cond result hpc hcond
    cases hstep
    exact ⟨hpc, rfl, cond, _, hcond, Or.inl ⟨⟨result, rfl⟩, rfl⟩⟩
  · rename_i cond condEvent hnot hpc hcond
    cases hstep
    exact ⟨hpc, rfl, cond, _, hcond, Or.inr ⟨fun result heq => hnot result heq, rfl⟩⟩
  · cases hstep

/-- What the calls of a thread have returned fits the place where it is. -/
structure CallsInv (entered : Prop) (results : List BarrierResult) (pc : BarrierPc) : Prop where
  entered : entered ∨ pc = .out ∧ results = []
  round : OneRound results
  first : pc = .waiting ∨ pc = .leaving .zero → results = []
  later : pc = .leaving .einval → results ≠ []

/-- The count is the number of the threads that have not looked at it yet. -/
structure BarrierInv (past : List (BarrierAction Tid × BarrierEvent))
    (st : BarrierState Tid) : Prop where
  matching : ∀ tid, (st.pc tid).Matches (st.cond.pc tid)
  calm : st.count ≠ 0 → st.cond.Calm ∧
    ∀ tid, returnsOf tid past = [] ∧ ∀ result, st.pc tid ≠ .leaving result
  fresh : ∃ fresh : Finset Tid, fresh.card = st.count ∧
    ∀ tid, tid ∈ fresh ↔ (st.pc tid).early = true ∧ returnsOf tid past = []
  calls : ∀ tid, CallsInv (Entered tid past) (returnsOf tid past) (st.pc tid)

namespace BarrierInv

/-- No call has returned before every thread has called. -/
theorem entered_of_returned (hinv : BarrierInv past st)
    (hreturned : returnsOf tid past ≠ []) (other : Tid) : Entered other past := by
  have hcount : st.count = 0 := by
    by_contra hcount
    exact hreturned ((hinv.calm hcount).2 tid).1
  obtain ⟨fresh, hcard, hfresh⟩ := hinv.fresh
  have hempty : fresh = ∅ := Finset.card_eq_zero.1 (hcard.trans hcount)
  refine (hinv.calls other).entered.resolve_right fun ⟨hout, hnone⟩ => ?_
  have hmem := (hfresh other).2 ⟨by rw [hout]; rfl, hnone⟩
  rw [hempty] at hmem
  exact Finset.notMem_empty other hmem

/-- One thread moves, and the count goes down when it is the thread's first look at it. -/
theorem update (hinv : BarrierInv past st) {count : ℕ} {cond : CondState Tid}
    {pc : BarrierPc} {entry : BarrierAction Tid × BarrierEvent}
    (hothers : ∀ other, other ≠ tid → returnOf other entry = none ∧
      (st.pc other).Matches (cond.pc other))
    (hmatches : pc.Matches (cond.pc tid))
    (hcalm : count ≠ 0 → st.count ≠ 0 ∧ cond.Calm ∧
      returnsOf tid (past ++ [entry]) = [] ∧ ∀ result, pc ≠ .leaving result)
    (hfresh : count = st.count ∧
        ((pc.early = true ∧ returnsOf tid (past ++ [entry]) = []) ↔
          ((st.pc tid).early = true ∧ returnsOf tid past = [])) ∨
      count + 1 = st.count ∧ pc.early = false ∧ (st.pc tid).early = true ∧
        returnsOf tid past = [])
    (hcalls : CallsInv (Entered tid (past ++ [entry])) (returnsOf tid (past ++ [entry])) pc) :
    BarrierInv (past ++ [entry]) ⟨count, cond, Function.update st.pc tid pc⟩ := by
  have hreturns : ∀ other, other ≠ tid →
      returnsOf other (past ++ [entry]) = returnsOf other past := by
    intro other hne
    rw [returnsOf_append, (hothers other hne).1]
    exact List.append_nil _
  refine ⟨fun other => ?_, fun hcount => ?_, ?_, fun other => ?_⟩
  · dsimp only
    by_cases hother : other = tid
    · subst hother
      rw [Function.update_self]
      exact hmatches
    · rw [Function.update_of_ne hother]
      exact (hothers other hother).2
  · obtain ⟨hbefore, hcond, hself⟩ := hcalm hcount
    refine ⟨hcond, fun other => ?_⟩
    dsimp only
    by_cases hother : other = tid
    · subst hother
      rw [Function.update_self]
      exact hself
    · rw [Function.update_of_ne hother, hreturns other hother]
      exact (hinv.calm hbefore).2 other
  · obtain ⟨fresh, hcard, hmem⟩ := hinv.fresh
    rcases hfresh with ⟨hcount, hself⟩ | ⟨hcount, hpc, hself⟩
    · refine ⟨fresh, hcard.trans hcount.symm, fun other => ?_⟩
      dsimp only
      by_cases hother : other = tid
      · subst hother
        rw [Function.update_self, hself]
        exact hmem other
      · rw [Function.update_of_ne hother, hreturns other hother]
        exact hmem other
    · have hin : tid ∈ fresh := (hmem tid).2 hself
      refine ⟨fresh.erase tid, ?_, fun other => ?_⟩
      · rw [Finset.card_erase_of_mem hin, hcard, ← hcount]
        exact Nat.add_sub_cancel count 1
      · dsimp only
        by_cases hother : other = tid
        · subst hother
          rw [Function.update_self, hpc]
          simp
        · rw [Function.update_of_ne hother, hreturns other hother, Finset.mem_erase]
          exact ⟨fun h => (hmem other).1 h.2, fun h => ⟨hother, (hmem other).2 h⟩⟩
  · dsimp only
    by_cases hother : other = tid
    · subst hother
      rw [Function.update_self]
      exact hcalls
    · rw [Function.update_of_ne hother, hreturns other hother]
      have hbefore := hinv.calls other
      refine ⟨?_, hbefore.round, hbefore.first, hbefore.later⟩
      exact hbefore.entered.imp_left fun h => h.append entry

theorem enter (hinv : BarrierInv past st)
    (hstep : barrierStep st (.enter tid) = some (next, event)) :
    BarrierInv (past ++ [(.enter tid, event)]) next := by
  simp only [barrierStep] at hstep
  split at hstep <;> cases hstep
  rename_i hpc
  have hmatches := hinv.matching tid
  have hcalls := hinv.calls tid
  rw [hpc] at hmatches
  refine hinv.update (fun other _ => ⟨rfl, hinv.matching other⟩) hmatches (fun hcount => ?_)
    (Or.inl ⟨rfl, ?_⟩) ⟨Or.inl ?_, ?_, by simp, by simp⟩
  · obtain ⟨hcalm, hnone⟩ := hinv.calm hcount
    exact ⟨hcount, hcalm, by simpa [returnOf] using (hnone tid).1, by simp⟩
  · rw [hpc]
    simp [BarrierPc.early, returnOf]
  · rw [Entered, List.map_append]
    exact List.mem_append_right _ (List.mem_singleton_self _)
  · simpa [returnOf] using hcalls.round

theorem lock (hinv : BarrierInv past st)
    (hstep : barrierStep st (.lock tid) = some (next, event)) :
    BarrierInv (past ++ [(.lock tid, event)]) next := by
  simp only [barrierStep] at hstep
  split at hstep <;> cases hstep
  rename_i cond _ hpc hcond
  obtain rfl := condStep_lock hcond
  have hcalls := hinv.calls tid
  refine hinv.update (fun other hother => ⟨rfl, ?_⟩) (setPc_pc_self _) (fun hcount => ?_)
    (Or.inl ⟨rfl, ?_⟩) ⟨Or.inl ?_, ?_, by simp, by simp⟩
  · rw [setPc_pc_of_ne hother]
    exact hinv.matching other
  · obtain ⟨hcalm, hnone⟩ := hinv.calm hcount
    exact ⟨hcount, hcalm.setPc (some tid) (by simp), by simpa [returnOf] using (hnone tid).1,
      by simp⟩
  · rw [hpc]
    simp [BarrierPc.early, returnOf]
  · have hentered := hcalls.entered.resolve_right (by simp [hpc])
    exact hentered.append _
  · simpa [returnOf] using hcalls.round

/-- A thread that finds the count at zero has returned before. -/
theorem returned_of_zero (hinv : BarrierInv past st) (hpc : (st.pc tid).early = true)
    (hzero : st.count = 0) : returnsOf tid past ≠ [] := by
  obtain ⟨fresh, hcard, hfresh⟩ := hinv.fresh
  have hempty : fresh = ∅ := Finset.card_eq_zero.1 (hcard.trans hzero)
  intro hnone
  have hmem := (hfresh tid).2 ⟨hpc, hnone⟩
  rw [hempty] at hmem
  exact Finset.notMem_empty tid hmem

theorem test (hinv : BarrierInv past st)
    (hstep : barrierStep st (.test tid) = some (next, event)) :
    BarrierInv (past ++ [(.test tid, event)]) next := by
  simp only [barrierStep] at hstep
  split at hstep
  · rename_i after hpc htest
    cases hstep
    have hmatches := hinv.matching tid
    have hcalls := hinv.calls tid
    rw [hpc] at hmatches
    have hentered : Entered tid (past ++ [(.test tid, .moved)]) :=
      (hcalls.entered.resolve_right (by simp [hpc])).append _
    simp only [barrierTest] at htest
    split_ifs at htest with hzero hlast
    · cases htest
      have hreturned := hinv.returned_of_zero (by rw [hpc]; rfl) hzero
      refine hinv.update (fun other _ => ⟨rfl, hinv.matching other⟩) hmatches
        (fun hcount => absurd hzero hcount) (Or.inl ⟨rfl, ?_⟩)
        ⟨Or.inl hentered, ?_, by simp, fun _ => ?_⟩
      · simp [returnOf, hreturned, BarrierPc.early]
      · simpa [returnOf] using hcalls.round
      · simpa [returnOf] using hreturned
    · have hnone := ((hinv.calm hzero).2 tid).1
      split at htest
      · rename_i cond _ hcond
        cases htest
        cases condMoves_of_step hcond
        refine hinv.update (fun other _ => ⟨rfl, ?_⟩) ?_ (fun hcount => absurd hlast hcount)
          (Or.inr ⟨Nat.succ_pred_eq_of_ne_zero hzero, rfl, by rw [hpc]; rfl, hnone⟩)
          ⟨Or.inl hentered, ?_, fun _ => by simpa [returnOf] using hnone, by simp⟩
        · dsimp only
          split
          · exact (hinv.matching other).resumed
          · exact hinv.matching other
        · dsimp only
          split
          · exact (show BarrierPc.Matches .testing _ from hmatches).resumed
          · exact hmatches
        · simpa [returnOf] using hcalls.round
      · cases htest
    · obtain ⟨hcalm, hnone⟩ := hinv.calm hzero
      split at htest
      · rename_i cond _ hcond
        cases htest
        obtain rfl := condStep_wait hmatches hcond
        refine hinv.update (fun other hother => ⟨rfl, ?_⟩) ?_ (fun _ => ?_)
          (Or.inr ⟨Nat.succ_pred_eq_of_ne_zero hzero, rfl, by rw [hpc]; rfl, (hnone tid).1⟩)
          ⟨Or.inl hentered, ?_, fun _ => by simpa [returnOf] using (hnone tid).1, by simp⟩
        · rw [setPc_pc_of_ne hother]
          exact hinv.matching other
        · rw [setPc_pc_self]
          simp [BarrierPc.Matches]
        · exact ⟨hzero, hcalm.setPc none (by simp), by simpa [returnOf] using (hnone tid).1,
            by simp⟩
        · simpa [returnOf] using hcalls.round
      · cases htest
  · cases hstep

theorem inside (hinv : BarrierInv past st) {condAction : CondAction Tid}
    (hinside : condAction.Inside tid) (hquiet : ∀ other, returnOf other (act, .moved) = none)
    (hstep : barrierCondStep st tid condAction = some (next, event)) :
    BarrierInv (past ++ [(act, event)]) next := by
  obtain ⟨hpc, rfl, cond, condEvent, hcond, hcases⟩ := barrierCondStep_cases hstep
  have hcalls := hinv.calls tid
  have hnone := hcalls.first (Or.inl hpc)
  have hreturns : returnsOf tid (past ++ [(act, .moved)]) = [] := by
    rw [returnsOf_append, hquiet tid, hnone]
    rfl
  have hentered := (hcalls.entered.resolve_right (by simp [hpc])).append (act, .moved)
  obtain ⟨hframe, hself⟩ := condStep_inside hinside hcond
  have hothers : ∀ other, other ≠ tid → returnOf other (act, .moved) = none ∧
      (st.pc other).Matches (cond.pc other) := by
    intro other hother
    rw [hframe other hother]
    exact ⟨hquiet other, hinv.matching other⟩
  have hmatches := hinv.matching tid
  rw [hpc] at hmatches
  have hcalm : st.count ≠ 0 → cond.Calm ∧ ∀ result, condEvent ≠ .returned result :=
    fun hcount => (hinv.calm hcount).1.inside hinside hmatches.2.2 hcond
  have hround : OneRound (returnsOf tid (past ++ [(act, .moved)])) := Or.inl hreturns
  rcases hcases with ⟨⟨result, hreturned⟩, rfl⟩ | ⟨hgoes, rfl⟩
  · refine hinv.update hothers ?_ (fun hcount => absurd hreturned ((hcalm hcount).2 result))
      (Or.inl ⟨rfl, by simp [hpc, BarrierPc.early]⟩)
      ⟨Or.inl hentered, hround, fun _ => hreturns, by simp⟩
    rcases hself with ⟨_, hholding⟩ | ⟨hgoes, _⟩
    · exact hholding
    · exact absurd hreturned (hgoes result)
  · have hwaiting : BarrierPc.Matches .waiting (cond.pc tid) := by
      rcases hself with ⟨⟨result, hreturned⟩, _⟩ | ⟨_, hwaiting⟩
      · exact absurd hreturned (hgoes result)
      · exact hwaiting
    have hupdate : BarrierInv (past ++ [(act, .moved)])
        ⟨st.count, cond, Function.update st.pc tid .waiting⟩ := hinv.update hothers hwaiting
      (fun hcount => ⟨hcount, (hcalm hcount).1, hreturns, by simp⟩)
      (Or.inl ⟨rfl, by simp [hpc, BarrierPc.early]⟩)
      ⟨Or.inl hentered, hround, fun _ => hreturns, by simp⟩
    rw [← hpc, Function.update_eq_self] at hupdate
    exact hupdate

theorem leave (hinv : BarrierInv past st)
    (hstep : barrierStep st (.leave tid) = some (next, event)) :
    BarrierInv (past ++ [(.leave tid, event)]) next := by
  simp only [barrierStep] at hstep
  split at hstep <;> cases hstep
  rename_i result cond _ hpc hcond
  obtain rfl := condStep_unlock hcond
  have hcalls := hinv.calls tid
  have hzero : st.count = 0 := by
    by_contra hcount
    exact ((hinv.calm hcount).2 tid).2 result hpc
  have hself : returnsOf tid (past ++ [(.leave tid, .returned result)]) =
      returnsOf tid past ++ [result] := by
    simp [returnOf]
  refine hinv.update (fun other hother => ⟨if_neg (Ne.symm hother), ?_⟩) (setPc_pc_self _)
    (fun hcount => absurd hzero hcount) (Or.inl ⟨rfl, ?_⟩) ⟨Or.inl ?_, ?_, by simp, by simp⟩
  · rw [setPc_pc_of_ne hother]
    exact hinv.matching other
  · rw [hself]
    simp [hpc, BarrierPc.early]
  · exact (hcalls.entered.resolve_right (by simp [hpc])).append _
  · rw [hself]
    cases result with
    | zero =>
      rw [hcalls.first (Or.inr hpc)]
      exact Or.inr ⟨0, rfl⟩
    | einval => exact hcalls.round.snoc (hcalls.later hpc)

theorem step (hinv : BarrierInv past st)
    (hstep : barrierStep st act = some (next, event)) :
    BarrierInv (past ++ [(act, event)]) next := by
  cases act with
  | enter tid => exact hinv.enter hstep
  | lock tid => exact hinv.lock hstep
  | test tid => exact hinv.test hstep
  | take tid => exact hinv.inside (Or.inl rfl) (fun _ => rfl) hstep
  | resume tid => exact hinv.inside (Or.inr (Or.inl rfl)) (fun _ => rfl) hstep
  | relock tid => exact hinv.inside (Or.inr (Or.inr rfl)) (fun _ => rfl) hstep
  | leave tid => exact hinv.leave hstep

end BarrierInv

theorem barrierInv_init [Fintype Tid] :
    BarrierInv [] (barrierInit (Fintype.card Tid) : BarrierState Tid) where
  matching _ := rfl
  calm _ := ⟨⟨rfl, fun _ => ⟨by simp [barrierInit, condInit], by simp [barrierInit, condInit]⟩⟩,
    fun _ => ⟨rfl, by simp [barrierInit]⟩⟩
  fresh := ⟨Finset.univ, rfl, fun _ => by simp [barrierInit, BarrierPc.early, returnsOf]⟩
  calls _ := ⟨Or.inr ⟨rfl, rfl⟩, Or.inl rfl, fun _ => rfl, by simp [barrierInit]⟩

end Invariant

/-- With one thread for each of the count, the first call of a thread returns zero and not before
every thread has called, and each further call returns `EINVAL`. -/
theorem barrier_one_round [Fintype Tid] {trace : List (BarrierAction Tid × BarrierEvent)}
    {last : BarrierState Tid}
    (hrun : barrierMachine.Run (barrierInit (Fintype.card Tid)) trace last) (tid : Tid) :
    OneRound (returnsOf tid trace) ∧
      (returnsOf tid trace ≠ [] → ∀ other, Entered other trace) := by
  have hinv : BarrierInv trace last := hrun.traceInvariant BarrierInv
    (fun _ _ _ _ _ hinv _ hstep => hinv.step hstep) barrierInv_init
  exact ⟨(hinv.calls tid).round, fun hreturned => hinv.entered_of_returned hreturned⟩

/-- A round of two threads, after which the first one calls again. -/
def scheduleRound (first second : Tid) : List (BarrierAction Tid) :=
  [.enter first, .lock first, .test first, .take first, .enter second, .lock second, .test second,
    .leave second, .resume first, .relock first, .leave first, .enter first, .lock first,
    .test first, .leave first]

theorem isSome_scheduleRound : (barrierMachine.exec (fun _ _ => True)
    (barrierInit (Fintype.card Bool)) (scheduleRound true false)).isSome = true := by
  decide

theorem barrier_one_round_scheduleRound : ∃ trace, ∃ last : BarrierState Bool,
    barrierMachine.Run (barrierInit (Fintype.card Bool)) trace last ∧
      trace.map Prod.fst = scheduleRound true false ∧ OneRound (returnsOf true trace) ∧
        ∀ other, Entered other trace := by
  have hrun := Machine.runWith_of_isSome _ isSome_scheduleRound
  obtain ⟨hround, hentered⟩ := barrier_one_round hrun true
  exact ⟨_, _, hrun, Machine.actions_of_isSome _ isSome_scheduleRound, hround, hentered (by decide)⟩

/-- The barrier is not set again: the second call of a thread fails. -/
theorem barrier_second_round_fails : ∃ trace, ∃ last : BarrierState Bool,
    barrierMachine.Run (barrierInit (Fintype.card Bool)) trace last ∧
      returnsOf true trace = [.zero, .einval] :=
  ⟨_, _, Machine.runWith_of_isSome _ isSome_scheduleRound, by decide⟩

end Machine

end RtThread.Pthreads
