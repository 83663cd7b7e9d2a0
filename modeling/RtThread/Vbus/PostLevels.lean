import RtThread.Vbus.Post

set_option linter.all false

/-!
# The level of a channel counts its packages

A package of a channel is counted from the moment its post has raised the level until
the out thread has lowered it: between the two calls of the post, in the out queue, and
with the out thread.  The level goes wrong where a post gives up between the two
calls, since it does not lower what it has raised.
-/

namespace RtThread.Vbus

open Function
open RtThread.Core
open RtThread.Core.PriorityFifo
open RtThread.Kernel (Err)
open RtThread.MemPool (sizeofPtr)
open RtThread.SmallMem (HeapConfig)

/-! ## Pushes that fail -/

section Push

variable {Tid Data : Type*} [DecidableEq Tid] {cfg : HeapConfig}
  {st next : PqState Tid Data} {event : PqEvent Data}

/-- The time that a woken allocator has left. -/
def timeLeft : MemPool.Pc → Option ℤ
  | .woken time => some time
  | .out | .waiting _ _ => none

/-- The priority is a good one, and `rt_mp_alloc` does not run out of time. -/
def PushSucceeds (st : PqState Tid Data) : PqAction Tid Data → Prop
  | .push _ prio _ timeout =>
    prio < rtPrioQueuePrioMax ∧ (timeout = 0 → st.pool.mp.blockFreeCount ≠ 0)
  | .poolResume tid => (st.pool.threads tid).error = .eok
  | .poolRetry tid => timeLeft (st.pool.pc tid) = some 0 → st.pool.mp.blockFreeCount ≠ 0
  | _ => True

/-- The steps of `rt_prio_queue_push`. -/
def PqAction.pusher : PqAction Tid Data → Option Tid
  | .push tid _ _ _ | .poolResume tid | .poolRetry tid | .fill tid | .link tid => some tid
  | _ => none

/-- What a call of `rt_prio_queue_push` is going to push. -/
def PqPc.pkg : PqPc Data → Option Data
  | .allocating _ data | .filling _ data _ | .linking _ data _ => some data
  | .out | .asleep _ | .woken _ _ | .copying _ | .freeing _ _ => none

variable {tid : Tid}

theorem allocTurn_failed_iff {pool after : MemPool.State Tid} {time : ℤ}
    {poolEvent : MemPool.Event Tid}
    (hturn : MemPool.allocTurn cfg pool tid time = (after, poolEvent)) :
    (∃ other err, poolEvent = .failed other err) ↔ pool.mp.blockFreeCount = 0 ∧ time = 0 := by
  rw [MemPool.allocTurn] at hturn
  split at hturn
  · rename_i hempty
    split at hturn
    · rename_i hzero
      cases hturn
      exact iff_of_true ⟨_, _, rfl⟩ ⟨hempty, hzero⟩
    · rename_i htime
      cases hturn
      exact iff_of_false (by simp) fun h => htime h.2
  · rename_i hfree
    refine iff_of_false ?_ fun h => hfree h.1
    rw [MemPool.takeBlock] at hturn
    split at hturn <;> cases hturn <;> simp

variable {data : Data}

theorem allocate_failed_iff {prio : ℕ} {act : MemPool.Action Tid}
    (hstep : allocate cfg st tid prio data act = some (next, event)) :
    ∃ after poolEvent, MemPool.step cfg st.pool act = some (after, poolEvent) ∧
      ((∃ err, event = .failed err) ↔ ∃ other err, poolEvent = .failed other err) := by
  rw [allocate] at hstep
  cases hpool : MemPool.step cfg st.pool act with
  | none =>
    rw [hpool] at hstep
    cases hstep
  | some result =>
    obtain ⟨after, poolEvent⟩ := result
    rw [hpool] at hstep
    refine ⟨after, poolEvent, rfl, ?_⟩
    cases poolEvent <;> cases hstep <;> simp

variable {act : PqAction Tid Data}

theorem pqStep_failed_iff (hpusher : act.pusher.isSome = true)
    (hstep : pqStep cfg st act = some (next, event)) :
    (∃ err, event = .failed err) ↔ ¬PushSucceeds st act := by
  cases act with
  | push tid prio data timeout =>
    simp only [pqStep] at hstep
    split at hstep
    · split at hstep
      · rename_i hprio
        cases hstep
        exact iff_of_true ⟨_, rfl⟩ fun h => absurd h.1 (not_lt.2 hprio)
      · rename_i hprio
        obtain ⟨after, poolEvent, hpool, hfailed⟩ := allocate_failed_iff hstep
        simp only [MemPool.step, MemPool.rtMpAlloc, Option.ite_none_right_eq_some,
          Option.some.injEq] at hpool
        rw [hfailed, allocTurn_failed_iff hpool.2, PushSucceeds]
        constructor
        · exact fun h hgood => hgood.2 h.2 h.1
        · intro hbad
          by_contra hnot
          exact hbad ⟨not_le.1 hprio, fun hzero hempty => hnot ⟨hempty, hzero⟩⟩
    · cases hstep
  | poolResume tid =>
    simp only [pqStep] at hstep
    split at hstep
    · obtain ⟨after, poolEvent, hpool, hfailed⟩ := allocate_failed_iff hstep
      rw [hfailed, PushSucceeds]
      simp only [MemPool.step, MemPool.afterSchedule] at hpool
      split at hpool
      · split at hpool
        · cases hpool
        · split at hpool
          · rename_i herror
            cases hpool
            exact iff_of_true ⟨_, _, rfl⟩ herror
          · rename_i herror
            cases hpool
            exact iff_of_false (by simp) herror
      · cases hpool
    · cases hstep
  | poolRetry tid =>
    simp only [pqStep] at hstep
    split at hstep
    · obtain ⟨after, poolEvent, hpool, hfailed⟩ := allocate_failed_iff hstep
      rw [hfailed, PushSucceeds]
      simp only [MemPool.step, MemPool.afterWakeup, Option.ite_none_right_eq_some] at hpool
      obtain ⟨-, hpool⟩ := hpool
      split at hpool
      · rename_i time hpc
        rw [allocTurn_failed_iff (Option.some.inj hpool), hpc, timeLeft, Option.some.injEq]
        tauto
      · cases hpool
    · cases hstep
  | fill tid =>
    simp only [pqStep] at hstep
    split at hstep
    · cases hstep
      exact iff_of_false (by simp) (not_not.2 trivial)
    · cases hstep
  | link tid =>
    simp only [pqStep, linkItem] at hstep
    refine iff_of_false ?_ (not_not.2 trivial)
    repeat' split at hstep
    all_goals cases hstep <;> simp
  | _ => cases hpusher

/-- A thread that has moved on is pushing what it was pushing before, or what it starts to
push. -/
theorem pkg_setPc {other : Tid} {pc : PqPc Data}
    (hpkg : ((st.setPc tid pc).pc other).pkg = some data) :
    (other = tid ∧ pc.pkg = some data) ∨ (st.pc other).pkg = some data := by
  change (update st.pc tid pc other).pkg = some data at hpkg
  by_cases heq : other = tid
  · subst heq
    rw [update_self] at hpkg
    exact Or.inl ⟨rfl, hpkg⟩
  · rw [update_of_ne heq] at hpkg
    exact Or.inr hpkg

theorem pkg_allocate {other : Tid} {prio : ℕ} {pushed : Data} {act : MemPool.Action Tid}
    (hstep : allocate cfg st tid prio data act = some (next, event))
    (hpkg : (next.pc other).pkg = some pushed) :
    (other = tid ∧ data = pushed) ∨ (st.pc other).pkg = some pushed := by
  rw [allocate] at hstep
  have hmoved : ∀ {pool : MemPool.State Tid} {pc : PqPc Data}, pc.pkg = some data ∨ pc.pkg = none →
      (({ st with pool := pool }.setPc tid pc).pc other).pkg = some pushed →
        (other = tid ∧ data = pushed) ∨ (st.pc other).pkg = some pushed := by
    intro pool pc hpc hafter
    rcases pkg_setPc hafter with ⟨heq, hdata⟩ | hold
    · rcases hpc with hpc | hpc
      · exact Or.inl ⟨heq, Option.some.inj (hpc.symm.trans hdata)⟩
      · rw [hpc] at hdata
        cases hdata
    · exact Or.inr hold
  split at hstep
  · cases hstep
  · cases hstep
    exact hmoved (Or.inl rfl) hpkg
  · cases hstep
    exact hmoved (Or.inr rfl) hpkg
  · cases hstep
    exact Or.inr hpkg
  · cases hstep
    exact hmoved (Or.inl rfl) hpkg

theorem pkg_linkItem {tid other : Tid} {prio item : ℕ} {data pushed : Data}
    (hpkg : ((linkItem st tid prio data item).1.pc other).pkg = some pushed) :
    (st.pc other).pkg = some pushed := by
  rw [linkItem] at hpkg
  split at hpkg
  · exact hpkg
  · split at hpkg
    · rcases pkg_setPc hpkg with ⟨-, hout⟩ | hold
      · cases hout
      · exact hold
    · rename_i thread _ _
      dsimp only at hpkg
      have hlinked : ∀ {after : PqState Tid Data}, (after.pc thread).resumed.pkg = some pushed →
          (after.pc thread).pkg = some pushed := by
        intro after hresumed
        cases hpc : after.pc thread <;> rw [hpc] at hresumed <;> exact hresumed
      rcases pkg_setPc hpkg with ⟨rfl, hresumed⟩ | hold
      · rcases pkg_setPc (hlinked hresumed) with ⟨-, hout⟩ | hold
        · cases hout
        · exact hold
      · rcases pkg_setPc hold with ⟨-, hout⟩ | hold
        · cases hout
        · exact hold

theorem pkg_popTurn {tid other : Tid} {timeout : ℤ} {pushed : Data}
    (hpkg : ((popTurn st tid timeout).1.pc other).pkg = some pushed) :
    (st.pc other).pkg = some pushed := by
  rw [popTurn] at hpkg
  repeat' split at hpkg
  · exact hpkg
  all_goals
    rcases pkg_setPc hpkg with ⟨-, hnone⟩ | hold
    · cases hnone
    · exact hold

theorem pqStep_pkg (hstep : pqStep cfg st act = some (next, event))
    (hpkg : (next.pc tid).pkg = some data) :
    (st.pc tid).pkg = some data ∨ ∃ prio timeout, act = .push tid prio data timeout := by
  cases act with
  | push other prio pushed timeout =>
    simp only [pqStep] at hstep
    split at hstep
    · split at hstep
      · cases hstep
        exact Or.inl hpkg
      · rcases pkg_allocate hstep hpkg with ⟨rfl, rfl⟩ | hold
        · exact Or.inr ⟨prio, timeout, rfl⟩
        · exact Or.inl hold
    · cases hstep
  | poolResume other =>
    simp only [pqStep] at hstep
    split at hstep
    · rename_i hpc
      rcases pkg_allocate hstep hpkg with ⟨rfl, rfl⟩ | hold
      · rw [hpc]
        exact Or.inl rfl
      · exact Or.inl hold
    · cases hstep
  | poolRetry other =>
    simp only [pqStep] at hstep
    split at hstep
    · rename_i hpc
      rcases pkg_allocate hstep hpkg with ⟨rfl, rfl⟩ | hold
      · rw [hpc]
        exact Or.inl rfl
      · exact Or.inl hold
    · cases hstep
  | fill other =>
    simp only [pqStep] at hstep
    split at hstep
    · rename_i hpc
      cases hstep
      rcases pkg_setPc hpkg with ⟨rfl, hdata⟩ | hold
      · rw [hpc]
        exact Or.inl hdata
      · exact Or.inl hold
    · cases hstep
  | link other =>
    simp only [pqStep] at hstep
    split at hstep
    · rename_i prio pushed item _
      have hlinked := @pkg_linkItem _ _ _ st other tid prio item pushed data
      rw [Option.some.inj hstep] at hlinked
      exact Or.inl (hlinked hpkg)
    · cases hstep
  | pop other timeout =>
    simp only [pqStep] at hstep
    split at hstep
    · have hturn := @pkg_popTurn _ _ _ st other tid timeout data
      rw [Option.some.inj hstep] at hturn
      exact Or.inl (hturn hpkg)
    · cases hstep
  | repop other =>
    simp only [pqStep] at hstep
    split at hstep
    · rename_i timeout _
      have hturn := @pkg_popTurn _ _ _ st other tid timeout data
      rw [Option.some.inj hstep] at hturn
      exact Or.inl (hturn hpkg)
    · cases hstep
      rcases pkg_setPc hpkg with ⟨-, hnone⟩ | hold
      · cases hnone
      · exact Or.inl hold
    · cases hstep
  | _ =>
    simp only [pqStep] at hstep
    repeat' split at hstep
    all_goals first
      | cases hstep; exact Or.inl hpkg
      | cases hstep; exact Or.inl ((pkg_setPc hpkg).resolve_left (by simp [PqPc.pkg]))
      | cases hstep

omit [DecidableEq Tid] in
theorem pkg_resumed (pc : PqPc Data) : pc.resumed.pkg = pc.pkg := by
  cases pc <;> rfl

/-- Only `_do_push` pushes, and it pushes what the thread has filled in. -/
theorem pqStep_pushed {prio : ℕ} (hstep : pqStep cfg st act = some (next, .pushed prio data)) :
    ∃ tid item, act = .link tid ∧ st.pc tid = .linking prio data item ∧
      (next.pc tid).pkg = none := by
  cases act with
  | link tid =>
    simp only [pqStep] at hstep
    split at hstep
    · rename_i linkPrio linkData item hpc
      simp only [linkItem] at hstep
      split at hstep
      · cases hstep
      · split at hstep
        · cases hstep
          exact ⟨tid, item, rfl, hpc, by simp [PqState.setPc, PqPc.pkg]⟩
        · rename_i thread rest _
          cases hstep
          refine ⟨tid, item, rfl, hpc, ?_⟩
          simp only [PqState.setPc]
          by_cases heq : tid = thread
          · rw [← heq, update_self, pkg_resumed, update_self]
            rfl
          · rw [update_of_ne heq, update_self]
            rfl
    · cases hstep
  | _ =>
    simp only [pqStep, allocate, popTurn] at hstep
    repeat' split at hstep
    all_goals cases hstep

end Push

/-! ## Packages -/

section Levels

variable {Tid : Type*} {cfg : HeapConfig}

/-- One package, if it is one of the channel. -/
def isOf (chnr : ℕ) (pkg : VbusPkg) : ℕ :=
  if pkg.id = chnr then 1 else 0

/-- The package of a post between `rt_wm_que_inc` and the push. -/
def PostPc.between (chnr : ℕ) : PostPc → ℕ
  | .pushing call => isOf chnr call.pkg
  | _ => 0

/-- The package that the out thread has popped and not lowered the level for. -/
def OutPc.held (chnr : ℕ) : OutPc → ℕ
  | .testing pkg | .lowering pkg => isOf chnr pkg
  | .popping | .stopped => 0

def PqPc.taken (chnr : ℕ) (data : ℕ → VbusPkg) : PqPc VbusPkg → ℕ
  | .copying item => isOf chnr (data item)
  | .freeing _ pkg => isOf chnr pkg
  | _ => 0

def channelCount (chnr : ℕ) (queue : List (ℕ × VbusPkg)) : ℕ :=
  queue.countP fun item => item.2.id = chnr

/-- The packages of a channel outside the queue. -/
def inFlight [Fintype Tid] (chnr : ℕ) (st : VbusState Tid) : ℕ :=
  (st.outQue.pc none).taken chnr st.outQue.que.data + tally (PostPc.between chnr) st.pc +
    st.outPc.held chnr

/-- The level of the channel is the number of its packages in the queue, in running posts
and with the out thread. -/
def LevelKept [Fintype Tid] (st : VbusState Tid) (chnr : ℕ) : Prop :=
  ∃ queue : List (ℕ × ℕ),
    (∀ prio, Chain st.outQue.que.next (st.outQue.que.head prio) (level queue prio)) ∧
      (st.wmQue chnr).level =
        channelCount chnr (queue.map (Prod.map id st.outQue.que.data)) + inFlight chnr st

/-- The level without the package that the out thread has taken. -/
def LevelQueued [Fintype Tid] (st : VbusState Tid) (chnr : ℕ) : Prop :=
  ∃ queue : List (ℕ × ℕ),
    (∀ prio, Chain st.outQue.que.next (st.outQue.que.head prio) (level queue prio)) ∧
      (st.wmQue chnr).level = channelCount chnr (queue.map (Prod.map id st.outQue.que.data)) +
        tally (PostPc.between chnr) st.pc

theorem channelCount_append (chnr : ℕ) (queue : List (ℕ × VbusPkg)) (prio : ℕ) (pkg : VbusPkg) :
    channelCount chnr (queue ++ [(prio, pkg)]) = channelCount chnr queue + isOf chnr pkg := by
  rw [channelCount, channelCount, List.countP_append, isOf]
  by_cases heq : pkg.id = chnr <;> simp [heq]

theorem channelCount_of_perm {chnr prio : ℕ} {pkg : VbusPkg} {queue after : List (ℕ × VbusPkg)}
    (hperm : queue.Perm ((prio, pkg) :: after)) :
    channelCount chnr queue = channelCount chnr after + isOf chnr pkg := by
  rw [channelCount, channelCount, hperm.countP_eq, List.countP_cons, isOf]
  by_cases heq : pkg.id = chnr <;> simp [heq]

theorem channelCount_unique {que : RtPrioQueue (Option Tid) VbusPkg} {queue other : List (ℕ × ℕ)}
    (hqueue : ∀ prio, Chain que.next (que.head prio) (level queue prio))
    (hother : ∀ prio, Chain que.next (que.head prio) (level other prio)) (chnr : ℕ) :
    channelCount chnr (queue.map (Prod.map id que.data)) =
      channelCount chnr (other.map (Prod.map id que.data)) := by
  have hperm : queue.Perm other :=
    perm_of_level_eq fun prio => (hqueue prio).unique (hother prio)
  exact (hperm.map (Prod.map id que.data)).countP_eq _

section Invariant

variable [Fintype Tid] {st next : VbusState Tid} {spec : PqSpec (Option Tid) VbusPkg}
  {free : List ℕ} {queue : List (ℕ × ℕ)} {event : VbusEvent}

/-- The out queue is one of the specification, the threads push their packages, and the
levels are right. -/
structure PostInv (cfg : HeapConfig) (st : VbusState Tid)
    (spec : PqSpec (Option Tid) VbusPkg) (free : List ℕ) (queue : List (ℕ × ℕ)) : Prop where
  rep : PqRep cfg st.outQue spec free queue
  pushing : ∀ tid pkg, (st.outQue.pc (some tid)).pkg = some pkg →
    ∃ call, st.pc tid = .pushing call ∧ call.pkg = pkg
  levels : ∀ chnr, (st.wmQue chnr).level = channelCount chnr spec.queue + inFlight chnr st

theorem PostInv.levelKept (hinv : PostInv cfg st spec free queue) (chnr : ℕ) :
    LevelKept st chnr :=
  ⟨queue, hinv.rep.lists.chain, by rw [← hinv.rep.queued]; exact hinv.levels chnr⟩

/-- A level that is off is off for every reading of the queue. -/
theorem PostInv.not_levelKept (hrep : PqRep cfg st.outQue spec free queue) {chnr : ℕ}
    (hlevel : (st.wmQue chnr).level ≠ channelCount chnr spec.queue + inFlight chnr st) :
    ¬LevelKept st chnr := by
  rintro ⟨other, hchain, heq⟩
  rw [channelCount_unique hchain hrep.lists.chain, ← hrep.queued] at heq
  exact hlevel heq

theorem taken_eq {que : PqState (Option Tid) VbusPkg} (hrep : PqRep cfg que spec free queue)
    (chnr : ℕ) :
    (que.pc none).taken chnr que.que.data = (spec.hand none).elim 0 (isOf chnr) := by
  have hcall := hrep.calls none
  cases hpc : que.pc none <;> rw [hpc] at hcall <;>
    simp only [CallMatches] at hcall <;> simp [PqPc.taken, hcall]

/-- The parts of the state that the levels depend on. -/
theorem PostInv.congr (hinv : PostInv cfg st spec free queue)
    (hque : next.outQue = st.outQue) (hout : ∀ chnr,
      next.outPc.held chnr = st.outPc.held chnr)
    (hlevel : ∀ chnr, (next.wmQue chnr).level = (st.wmQue chnr).level)
    (hpc : ∀ tid chnr, (next.pc tid).between chnr = (st.pc tid).between chnr)
    (hpushing : ∀ tid call, st.pc tid = .pushing call → next.pc tid = .pushing call) :
    PostInv cfg next spec free queue where
  rep := by
    rw [hque]
    exact hinv.rep
  pushing := by
    intro tid pkg hpkg
    rw [hque] at hpkg
    obtain ⟨call, hcall, hdata⟩ := hinv.pushing tid pkg hpkg
    exact ⟨call, hpushing tid call hcall, hdata⟩
  levels := by
    intro chnr
    have htally : tally (PostPc.between chnr) next.pc = tally (PostPc.between chnr) st.pc :=
      Finset.sum_congr rfl fun tid _ => hpc tid chnr
    rw [hlevel, hinv.levels, inFlight, inFlight, hque, hout, htally]

variable [DecidableEq Tid]

variable {tid : Tid}

/-- A thread that is not pushing goes on, and does not push then. -/
theorem PostInv.setPc (hinv : PostInv cfg st spec free queue) {pc : PostPc}
    (hbefore : ∀ call, st.pc tid ≠ .pushing call) (hafter : ∀ call, pc ≠ .pushing call) :
    PostInv cfg (st.setPc tid pc) spec free queue := by
  have hzero : ∀ {other : PostPc} (chnr : ℕ), (∀ call, other ≠ .pushing call) →
      other.between chnr = 0 := by
    intro other chnr hother
    cases other with
    | pushing call => exact absurd rfl (hother call)
    | _ => rfl
  refine hinv.congr rfl (fun _ => rfl) (fun _ => rfl) (fun other chnr => ?_)
    fun other call hcall => ?_
  · change (update st.pc tid pc other).between chnr = _
    by_cases heq : other = tid
    · subst heq
      rw [update_self, hzero chnr hafter, hzero chnr hbefore]
    · rw [update_of_ne heq]
  · change update st.pc tid pc other = _
    have hne : other ≠ tid := by
      rintro rfl
      exact hbefore call hcall
    rw [update_of_ne hne, hcall]

variable {call : PostCall}

/-- A package that a post starts to push was raised for. -/
theorem PostInv.incTurn (hinv : PostInv cfg st spec free queue)
    (hbefore : ∀ other, st.pc tid ≠ .pushing other)
    (hroom : (st.wmQue call.id).highMark < (st.wmQue call.id).level ∨
      (st.wmQue call.id).level + 1 ≠ wordSize)
    (hturn : st.incTurn tid call = (next, event)) : PostInv cfg next spec free queue := by
  -- the level stays as it is, and the thread does not push
  have hkept : ∀ {wg : RtWatermarkQueue Tid} {pc : PostPc},
      wg.level = (st.wmQue call.id).level → (∀ other, pc ≠ .pushing other) →
        PostInv cfg ((st.setWm call.id wg).setPc tid pc) spec free queue := by
    intro wg pc hlevel hpc
    have hwm : PostInv cfg (st.setWm call.id wg) spec free queue := by
      refine hinv.congr rfl (fun _ => rfl) (fun chnr => ?_) (fun _ _ => rfl) fun _ _ h => h
      change (update st.wmQue call.id wg chnr).level = _
      by_cases heq : chnr = call.id
      · rw [heq, update_self, hlevel]
      · rw [update_of_ne heq]
    exact hwm.setPc hbefore hpc
  simp only [VbusState.incTurn, RtWatermarkQueue.incTurn] at hturn
  split at hturn
  · rename_i wg hresult
    split at hresult
    · split at hresult <;> cases hresult
    · rename_i hmark
      cases hresult
      cases hturn
      refine ⟨hinv.rep, fun other pkg hpkg => ?_, fun chnr => ?_⟩
      · obtain ⟨found, hfound, hdata⟩ := hinv.pushing other pkg hpkg
        have hne : other ≠ tid := by
          rintro rfl
          exact hbefore found hfound
        exact ⟨found, (update_of_ne hne ..).trans hfound, hdata⟩
      · have hmove := tally_update (PostPc.between chnr) st.pc tid (.pushing call)
        have hold : (st.pc tid).between chnr = 0 := by
          cases hpc : st.pc tid with
          | pushing found => exact absurd hpc (hbefore found)
          | _ => rfl
        have hnew : (PostPc.pushing call).between chnr = if call.id = chnr then 1 else 0 := rfl
        have hlevels := hinv.levels chnr
        rw [hold, hnew] at hmove
        change (update st.wmQue call.id (st.wmQue call.id).raise chnr).level =
          channelCount chnr spec.queue + ((st.outQue.pc none).taken chnr st.outQue.que.data +
            tally (PostPc.between chnr) (update st.pc tid (.pushing call)) +
              st.outPc.held chnr)
        rw [inFlight] at hlevels
        by_cases heq : call.id = chnr
        · subst heq
          rw [if_pos rfl] at hmove
          rw [update_self, level_raise, if_neg (hroom.resolve_left hmark)]
          omega
        · rw [if_neg heq] at hmove
          rw [update_of_ne (Ne.symm heq)]
          omega
  · rename_i wg hresult
    split at hresult
    · split at hresult
      · cases hresult
        cases hturn
        exact hkept rfl (by simp)
      · cases hresult
    · cases hresult
  · rename_i wg hresult
    split at hresult
    · split at hresult
      · cases hresult
      · cases hresult
        cases hturn
        exact hkept rfl (by simp)
    · cases hresult

variable {que : PqState (Option Tid) VbusPkg}

omit [DecidableEq Tid] in
/-- A step of the out queue that the specification does not see. -/
theorem PostInv.quiet (hinv : PostInv cfg st spec free queue) {free' : List ℕ}
    {queue' : List (ℕ × ℕ)} (hrep : PqRep cfg que spec free' queue')
    (hpushing : ∀ tid pkg, (que.pc (some tid)).pkg = some pkg →
      ∃ call, st.pc tid = .pushing call ∧ call.pkg = pkg) :
    PostInv cfg { st with outQue := que } spec free' queue' where
  rep := hrep
  pushing := hpushing
  levels := by
    intro chnr
    rw [inFlight, taken_eq hrep, ← taken_eq hinv.rep]
    exact hinv.levels chnr

variable {act : PqAction (Option Tid) VbusPkg}

omit [Fintype Tid] in
theorem pqSpecStep_quiet {event : PqEvent VbusPkg} {after : PqSpec (Option Tid) VbusPkg}
    (hspec : pqSpecStep spec (pqLabel (act, event)).1 = some (after, (pqLabel (act, event)).2))
    (hpushed : ∀ prio pkg, event ≠ .pushed prio pkg)
    (hpopped : event = .popped → (∀ tid timeout, act ≠ .pop tid timeout) ∧ ∀ tid, act ≠ .repop tid)
    (hreturned : ∀ pkg, event = .returned pkg → ∀ tid, act ≠ .free tid) : after = spec := by
  cases event with
  | pushed prio pkg => exact absurd rfl (hpushed prio pkg)
  | asserted => cases act <;> simp [pqLabel, pqSpecStep] at hspec
  | popped =>
    obtain ⟨hpop, hrepop⟩ := hpopped rfl
    cases act with
    | pop tid timeout => exact absurd rfl (hpop tid timeout)
    | repop tid => exact absurd rfl (hrepop tid)
    | _ => simpa [pqLabel, pqSpecStep, eq_comm] using hspec
  | returned pkg =>
    cases act with
    | free tid => exact absurd rfl (hreturned pkg rfl tid)
    | _ => simpa [pqLabel, pqSpecStep, eq_comm] using hspec
  | _ =>
    cases act <;> simp only [pqLabel, pqSpecStep, Option.ite_none_right_eq_some,
      Option.some.injEq,
      Prod.mk.injEq, and_true] at hspec <;> first | exact hspec.symm | exact hspec.2.symm

omit [Fintype Tid] in
/-- The packages being pushed, after a step of the post of one thread. -/
theorem pushing_pqStep {next : PqState (Option Tid) VbusPkg} {event : PqEvent VbusPkg}
    {pc : Tid → PostPc}
    (hpushing : ∀ tid pkg, (que.pc (some tid)).pkg = some pkg →
      ∃ call, pc tid = .pushing call ∧ call.pkg = pkg)
    (hstep : pqStep cfg que act = some (next, event))
    (hstart : ∀ tid prio pkg timeout, act = .push (some tid) prio pkg timeout →
      ∃ call, pc tid = .pushing call ∧ call.pkg = pkg) :
    ∀ tid pkg, (next.pc (some tid)).pkg = some pkg →
      ∃ call, pc tid = .pushing call ∧ call.pkg = pkg := by
  intro tid pkg hpkg
  rcases pqStep_pkg hstep hpkg with hold | ⟨prio, timeout, haction⟩
  · exact hpushing tid pkg hold
  · exact hstart tid prio pkg timeout haction

theorem between_finished {after : PostPc} (chnr : ℕ) (hpc : st.pc tid = .pushing call)
    (hafter : ∀ other, after ≠ .pushing other) :
    tally (PostPc.between chnr) (update st.pc tid after) + isOf chnr call.pkg =
      tally (PostPc.between chnr) st.pc := by
  have hmove := tally_update (PostPc.between chnr) st.pc tid after
  have hzero : after.between chnr = 0 := by
    cases after with
    | pushing other => exact absurd rfl (hafter other)
    | _ => rfl
  rw [hpc, hzero] at hmove
  exact hmove

/-- A step of `rt_prio_queue_push` that does not fail. -/
theorem PostInv.pushStep (hinv : PostInv cfg st spec free queue) (hpc : st.pc tid = .pushing call)
    (hpusher : act.pusher = some (some tid))
    (hstart : ∀ other prio pkg timeout, act = .push other prio pkg timeout →
      other = some tid ∧ pkg = call.pkg)
    (hgood : PushSucceeds st.outQue act)
    (hstep : st.pushStep cfg tid call act = some (next, event)) :
    ∃ spec' free' queue', PostInv cfg next spec' free' queue' := by
  rw [VbusState.pushStep] at hstep
  cases hque : pqStep cfg st.outQue act with
  | none =>
    rw [hque] at hstep
    cases hstep
  | some result =>
    obtain ⟨que, queEvent⟩ := result
    rw [hque] at hstep
    obtain ⟨after, hspec, free', queue', hrep⟩ := hinv.rep.step hque
    have hpushing := pushing_pqStep hinv.pushing hque fun other prio pkg timeout haction => by
      obtain ⟨hother, rfl⟩ := hstart _ _ _ _ haction
      cases hother
      exact ⟨call, hpc, rfl⟩
    have hquiet : after = spec →
        PostInv cfg { st with outQue := que } spec free' queue' := by
      rintro rfl
      exact hinv.quiet hrep hpushing
    cases queEvent with
    | pushed prio pkg =>
      obtain ⟨pusher, item, rfl, hlinking, hover⟩ := pqStep_pushed hque
      cases hpusher
      obtain ⟨found, hfound, hdata⟩ := hinv.pushing tid pkg (by rw [hlinking]; rfl)
      obtain rfl : call = found := by
        rw [hpc] at hfound
        exact PostPc.pushing.inj hfound
      obtain rfl := hdata
      simp only [pqLabel, pqSpecStep, Option.some.injEq, Prod.mk.injEq, and_true] at hspec
      obtain rfl := hspec
      -- the package goes from the post into the queue
      have hfinished : ∀ pc : PostPc, (∀ other, pc ≠ .pushing other) →
          PostInv cfg ({ st with outQue := que }.setPc tid pc)
            { spec with queue := spec.queue ++ [(prio, call.pkg)] } free' queue' := by
        intro pc hnot
        refine ⟨hrep, fun other pkg hpkg => ?_, fun chnr => ?_⟩
        · have hne : other ≠ tid := by
            rintro rfl
            have hnone := hover
            rw [show (que.pc (some other)).pkg = some pkg from hpkg] at hnone
            cases hnone
          obtain ⟨found, hfound, hdata⟩ := hpushing other pkg hpkg
          exact ⟨found, (update_of_ne hne ..).trans hfound, hdata⟩
        · have hlevels := hinv.levels chnr
          have htally := between_finished chnr hpc hnot
          have htaken := taken_eq hrep chnr
          rw [inFlight, taken_eq hinv.rep] at hlevels
          change (st.wmQue chnr).level = _ + ((que.pc none).taken chnr que.que.data +
            tally (PostPc.between chnr) (update st.pc tid pc) + st.outPc.held chnr)
          rw [htaken, channelCount_append]
          dsimp only
          omega
      simp only [VbusState.chunk] at hstep
      split at hstep
      · cases hstep
        exact ⟨_, _, _, hfinished .out (by simp)⟩
      · cases hstep
        exact ⟨_, _, _, hfinished (.raising call.rest) (by simp)⟩
    | failed err =>
      have hfailed := (pqStep_failed_iff (by rw [hpusher]; rfl) hque).1 ⟨err, rfl⟩
      exact absurd hgood hfailed
    | popped =>
      cases hstep
      refine ⟨_, _, _, hquiet (pqSpecStep_quiet hspec (by simp) (fun _ => ⟨?_, ?_⟩) (by simp))⟩
      · rintro _ _ rfl
        cases hpusher
      · rintro _ rfl
        cases hpusher
    | returned pkg =>
      cases hstep
      refine ⟨_, _, _, hquiet (pqSpecStep_quiet hspec (by simp) (by simp) ?_)⟩
      rintro _ - _ rfl
      cases hpusher
    | _ =>
      cases hstep
      exact ⟨_, _, _, hquiet (pqSpecStep_quiet hspec (by simp) (by simp) (by simp))⟩

omit [Fintype Tid] in
/-- Only `rt_prio_queue_pop` at its end returns a package. -/
theorem pqStep_returned {next : PqState (Option Tid) VbusPkg} {pkg : VbusPkg}
    (hstep : pqStep cfg que act = some (next, .returned pkg)) : ∃ tid, act = .free tid := by
  cases act with
  | free tid => exact ⟨tid, rfl⟩
  | _ =>
    simp only [pqStep, allocate, popTurn, linkItem] at hstep
    repeat' split at hstep
    all_goals cases hstep

theorem PostInv.popStep (hinv : PostInv cfg st spec free queue) (hpusher : act.pusher = none)
    (hagent : (∃ timeout, act = .pop none timeout) ∨ act = .repop none ∨
      act = .copy none ∨ act = .free none)
    (hstep : st.popStep cfg act = some (next, event)) :
    ∃ spec' free' queue', PostInv cfg next spec' free' queue' := by
  rw [VbusState.popStep] at hstep
  split at hstep
  · rename_i hpopping
    cases hque : pqStep cfg st.outQue act with
    | none =>
      rw [hque] at hstep
      cases hstep
    | some result =>
      obtain ⟨que, queEvent⟩ := result
      rw [hque] at hstep
      obtain ⟨after, hspec, free', queue', hrep⟩ := hinv.rep.step hque
      have hpushing := pushing_pqStep hinv.pushing hque fun other prio pkg timeout haction => by
        rw [haction] at hpusher
        cases hpusher
      have hquiet : after = spec →
          PostInv cfg { st with outQue := que } spec free' queue' := by
        rintro rfl
        exact hinv.quiet hrep hpushing
      have htaken := taken_eq hrep
      cases queEvent with
      | pushed prio pkg =>
        obtain ⟨pusher, item, rfl, -⟩ := pqStep_pushed hque
        cases hpusher
      | popped =>
        cases hstep
        by_cases htake : (∃ timeout, act = .pop none timeout) ∨ act = .repop none
        · -- the package goes from the queue into the hand of the out thread
          have hlabel : pqLabel (act, .popped) = (.take none, .taken) := by
            rcases htake with ⟨timeout, rfl⟩ | rfl <;> rfl
          rw [hlabel] at hspec
          simp only [pqSpecStep] at hspec
          split at hspec
          · rename_i prio pkg rest hhand hpop
            cases hspec
            refine ⟨_, _, _, hrep, hpushing, fun chnr => ?_⟩
            have hlevels := hinv.levels chnr
            rw [inFlight, taken_eq hinv.rep, hhand, channelCount_of_perm (perm_of_pop hpop)]
              at hlevels
            rw [inFlight, htaken]
            dsimp only
            rw [update_self]
            simp only [Option.elim_none, Option.elim_some] at hlevels ⊢
            omega
          · cases hspec
        · rw [not_or] at htake
          refine ⟨_, _, _, hquiet (pqSpecStep_quiet hspec (by simp) (fun _ => ⟨?_, ?_⟩) (by simp))⟩
          · rintro tid timeout rfl
            rcases hagent with ⟨_, h⟩ | h | h | h <;> cases h
            exact htake.1 ⟨_, rfl⟩
          · rintro tid rfl
            rcases hagent with ⟨_, h⟩ | h | h | h <;> cases h
            exact htake.2 rfl
      | returned pkg =>
        obtain ⟨tid, rfl⟩ := pqStep_returned hque
        obtain rfl : tid = none := by
          rcases hagent with ⟨_, h⟩ | h | h | h <;> cases h
          rfl
        cases hstep
        simp only [pqLabel, pqSpecStep] at hspec
        split at hspec
        · rename_i data hhand
          cases hspec
          refine ⟨_, _, _, hrep, hpushing, fun chnr => ?_⟩
          have hlevels := hinv.levels chnr
          rw [inFlight, taken_eq hinv.rep, hhand, hpopping] at hlevels
          change (st.wmQue chnr).level = channelCount chnr spec.queue +
            ((que.pc none).taken chnr que.que.data + tally (PostPc.between chnr) st.pc +
              isOf chnr pkg)
          rw [htaken]
          dsimp only
          rw [update_self]
          simp only [Option.elim_none, Option.elim_some, OutPc.held] at hlevels ⊢
          omega
        · cases hspec
      | failed err =>
        cases hstep
        have hsame := hquiet (pqSpecStep_quiet hspec (by simp) (by simp) (by simp))
        exact ⟨_, _, _, hsame.congr rfl (fun _ => by rw [hpopping]; rfl) (fun _ => rfl)
          (fun _ _ => rfl) fun _ _ h => h⟩
      | _ =>
        cases hstep
        exact ⟨_, _, _, hquiet (pqSpecStep_quiet hspec (by simp) (by simp) (by simp))⟩
  · cases hstep

omit [DecidableEq Tid] in
/-- `rt_wm_que_dec` for the package that the out thread has popped. -/
theorem PostInv.lower (hinv : PostInv cfg st spec free queue) {pkg : VbusPkg}
    (hlowering : st.outPc = .lowering pkg) {pc : Tid → PostPc}
    (hbetween : ∀ tid chnr, (pc tid).between chnr = (st.pc tid).between chnr)
    (hpushing : ∀ tid call, st.pc tid = .pushing call → pc tid = .pushing call) :
    PostInv cfg { st.setWm pkg.id (st.wmQue pkg.id).dec.1 with
      outPc := .popping, pc := pc } spec free queue where
  rep := hinv.rep
  pushing := by
    intro tid data hdata
    obtain ⟨call, hcall, heq⟩ := hinv.pushing tid data hdata
    exact ⟨call, hpushing tid call hcall, heq⟩
  levels := by
    intro chnr
    have hlevels := hinv.levels chnr
    have htally : tally (PostPc.between chnr) pc = tally (PostPc.between chnr) st.pc :=
      Finset.sum_congr rfl fun tid _ => hbetween tid chnr
    rw [inFlight, hlowering] at hlevels
    change (update st.wmQue pkg.id (st.wmQue pkg.id).dec.1 chnr).level =
      channelCount chnr spec.queue + ((st.outQue.pc none).taken chnr st.outQue.que.data +
        tally (PostPc.between chnr) pc + 0)
    rw [htally]
    simp only [OutPc.held, isOf] at hlevels
    by_cases heq : pkg.id = chnr
    · subst heq
      rw [if_pos rfl] at hlevels
      have hlevel : (st.wmQue pkg.id).level ≠ 0 := by omega
      rw [update_self, level_dec, level_lower hlevel]
      omega
    · rw [if_neg heq] at hlevels
      rw [update_of_ne (Ne.symm heq)]
      exact hlevels

omit [DecidableEq Tid] in
/-- The out thread never finds the level of its package at zero. -/
theorem PostInv.level_ne_zero (hinv : PostInv cfg st spec free queue) {pkg : VbusPkg}
    (htesting : st.outPc = .testing pkg) : (st.wmQue pkg.id).level ≠ 0 := by
  have hlevels := hinv.levels pkg.id
  rw [inFlight, htesting, OutPc.held, isOf, if_pos rfl] at hlevels
  omega

theorem PostInv.poolStep (hinv : PostInv cfg st spec free queue)
    (haction : (∃ tid, act = .poolTimeout tid) ∨ act = .tick)
    (hstep : st.poolStep cfg act = some (next, event)) :
    ∃ free' queue', PostInv cfg next spec free' queue' := by
  rw [VbusState.poolStep] at hstep
  cases hque : pqStep cfg st.outQue act with
  | none =>
    rw [hque] at hstep
    cases hstep
  | some result =>
    obtain ⟨que, queEvent⟩ := result
    rw [hque] at hstep
    cases hstep
    obtain ⟨after, hspec, free', queue', hrep⟩ := hinv.rep.step hque
    have hpushing := pushing_pqStep hinv.pushing hque fun other prio pkg timeout heq => by
      rcases haction with ⟨tid, rfl⟩ | rfl <;> cases heq
    have hmoved : queEvent = .moved := by
      rcases haction with ⟨tid, rfl⟩ | rfl <;>
        (simp only [pqStep] at hque; split at hque <;> cases hque; rfl)
    subst hmoved
    obtain rfl : after = spec := pqSpecStep_quiet hspec (by simp) (by simp) (by simp)
    exact ⟨free', queue', hinv.quiet hrep hpushing⟩

/-! ## Posts that give up -/

/-- The call that a thread raises the level for, when it runs. -/
def PostPc.raiser : PostPc → Option PostCall
  | .raising call | .woken call .eok => some call
  | _ => none

def PostPc.pusher : PostPc → Option PostCall
  | .pushing call => some call
  | _ => none

/-- A level that is raised does not stay at the largest number. -/
def RaiseSucceeds (st : VbusState Tid) (tid : Tid) : Prop :=
  ∀ call ∈ (st.pc tid).raiser, (st.wmQue call.id).highMark < (st.wmQue call.id).level ∨
    (st.wmQue call.id).level + 1 ≠ wordSize

/-- No push of a post fails, and no level stays where it is when it is raised. -/
def PostAccounted (st : VbusState Tid) : VbusAction Tid → Prop
  | .inc tid | .incResume tid => RaiseSucceeds st tid
  | .push tid => ∀ call ∈ (st.pc tid).pusher,
      PushSucceeds st.outQue (.push (some tid) call.prio call.pkg call.timeout)
  | .poolResume tid => PushSucceeds st.outQue (.poolResume (some tid))
  | .poolRetry tid => PushSucceeds st.outQue (.poolRetry (some tid))
  | _ => True

theorem PostInv.step (hinv : PostInv cfg st spec free queue) {act : VbusAction Tid}
    (hgood : PostAccounted st act) (hstep : vbusStep cfg st act =
      some (next, event)) :
    ∃ spec' free' queue', PostInv cfg next spec' free' queue' := by
  -- a step that the out queue and the levels do not see
  have hsame : PostInv cfg next spec free queue →
      ∃ spec' free' queue', PostInv cfg next spec' free' queue' :=
    fun hnext => ⟨spec, free, queue, hnext⟩
  cases act with
  | post tid call =>
    simp only [vbusStep] at hstep
    split at hstep
    · rename_i hout
      split at hstep <;> cases hstep
      · exact hsame hinv
      · exact hsame (hinv.setPc (by simp [hout]) (by simp))
    · cases hstep
  | test tid =>
    simp only [vbusStep, VbusState.testStatus] at hstep
    split at hstep
    · rename_i call hpc
      split at hstep
      · split at hstep <;> cases hstep <;> exact hsame (hinv.setPc (by simp [hpc]) (by simp))
      · cases hstep
        exact hsame (hinv.setPc (by simp [hpc]) (by simp))
    · cases hstep
  | park tid =>
    simp only [vbusStep] at hstep
    split at hstep
    · rename_i call hpc
      cases hstep
      have hsuspended : PostInv cfg (st.setSuspended call.id
          (tid :: st.suspendedThreads call.id)) spec free queue :=
        hinv.congr rfl (fun _ => rfl) (fun _ => rfl) (fun _ _ => rfl) fun _ _ h => h
      refine hsame (hsuspended.setPc (fun other h => ?_) (by simp))
      cases hpc.symm.trans h
    · cases hstep
  | unpark tid =>
    simp only [vbusStep] at hstep
    split at hstep
    · rename_i hpc
      cases hstep
      exact hsame (hinv.setPc (by simp [hpc]) (by simp))
    · rename_i hpc
      cases hstep
      exact hsame (hinv.setPc (by simp [hpc]) (by simp))
    · cases hstep
  | check tid =>
    simp only [vbusStep, VbusState.chunk] at hstep
    split at hstep
    · rename_i hpc
      split at hstep
      · split at hstep <;> cases hstep <;> exact hsame (hinv.setPc (by simp [hpc]) (by simp))
      · cases hstep
        exact hsame (hinv.setPc (by simp [hpc]) (by simp))
    · cases hstep
  | inc tid =>
    simp only [vbusStep] at hstep
    split at hstep
    · rename_i call hpc
      have hroom := hgood call (by rw [hpc]; rfl)
      exact hsame (hinv.incTurn (by simp [hpc]) hroom (Option.some.inj hstep))
    · cases hstep
  | incResume tid =>
    simp only [vbusStep] at hstep
    split at hstep
    · rename_i call hpc
      have hroom := hgood call (by rw [hpc]; rfl)
      exact hsame (hinv.incTurn (by simp [hpc]) hroom (Option.some.inj hstep))
    · rename_i hpc
      cases hstep
      exact hsame (hinv.setPc (by simp [hpc]) (by simp))
    · cases hstep
  | expire tid =>
    simp only [vbusStep] at hstep
    split at hstep
    · rename_i call hpc
      split at hstep
      · cases hstep
        have herased : PostInv cfg (st.setSuspended call.id
            ((st.suspendedThreads call.id).erase tid)) spec free queue :=
          hinv.congr rfl (fun _ => rfl) (fun _ => rfl) (fun _ _ => rfl) fun _ _ h => h
        refine hsame (herased.setPc (fun other h => ?_) (by simp))
        cases hpc.symm.trans h
      · cases hstep
    · rename_i call hpc
      split at hstep
      · cases hstep
        have herased : PostInv cfg (st.setWm call.id { st.wmQue call.id with
            suspendedThreads := (st.wmQue call.id).suspendedThreads.erase tid })
              spec free queue := by
          refine hinv.congr rfl (fun _ => rfl) (fun chnr => ?_) (fun _ _ => rfl) fun _ _ h => h
          change (update st.wmQue call.id _ chnr).level = _
          by_cases heq : chnr = call.id
          · rw [heq, update_self]
          · rw [update_of_ne heq]
        refine hsame (herased.setPc (fun other h => ?_) (by simp))
        cases hpc.symm.trans h
      · cases hstep
    · cases hstep
  | push tid =>
    simp only [vbusStep] at hstep
    split at hstep
    · rename_i call hpc
      refine hinv.pushStep hpc rfl ?_ (hgood call (by rw [hpc]; rfl)) hstep
      intro other prio pkg timeout heq
      cases heq
      exact ⟨rfl, rfl⟩
    · cases hstep
  | poolResume tid =>
    simp only [vbusStep] at hstep
    split at hstep
    · rename_i hpc
      refine hinv.pushStep hpc ?_ ?_ ?_ hstep
      · rfl
      · nofun
      · exact hgood
    · cases hstep
  | poolRetry tid =>
    simp only [vbusStep] at hstep
    split at hstep
    · rename_i hpc
      refine hinv.pushStep hpc ?_ ?_ ?_ hstep
      · rfl
      · nofun
      · exact hgood
    · cases hstep
  | fill tid =>
    simp only [vbusStep] at hstep
    split at hstep
    · rename_i hpc
      refine hinv.pushStep hpc ?_ ?_ ?_ hstep
      · rfl
      · nofun
      · exact trivial
    · cases hstep
  | link tid =>
    simp only [vbusStep] at hstep
    split at hstep
    · rename_i hpc
      refine hinv.pushStep hpc ?_ ?_ ?_ hstep
      · rfl
      · nofun
      · exact trivial
    · cases hstep
  | poolTimeout tid =>
    obtain ⟨free', queue', hnext⟩ := hinv.poolStep (Or.inl ⟨some tid, rfl⟩) hstep
    exact ⟨spec, free', queue', hnext⟩
  | tick =>
    obtain ⟨free', queue', hnext⟩ := hinv.poolStep (Or.inr rfl) hstep
    exact ⟨spec, free', queue', hnext⟩
  | pop => exact hinv.popStep rfl (Or.inl ⟨-1, rfl⟩) hstep
  | repop => exact hinv.popStep rfl (Or.inr (Or.inl rfl)) hstep
  | copy => exact hinv.popStep rfl (Or.inr (Or.inr (Or.inl rfl))) hstep
  | free => exact hinv.popStep rfl (Or.inr (Or.inr (Or.inr rfl))) hstep
  | dec =>
    simp only [vbusStep] at hstep
    split at hstep
    · rename_i pkg htesting
      split at hstep
      · rename_i hzero
        exact absurd hzero (hinv.level_ne_zero htesting)
      · cases hstep
        exact hsame (hinv.congr rfl (fun _ => by rw [htesting]; rfl) (fun _ => rfl)
          (fun _ _ => rfl) fun _ _ h => h)
    · cases hstep
  | lower =>
    simp only [vbusStep] at hstep
    split at hstep
    · rename_i pkg hlowering
      cases hstep
      refine hsame (hinv.lower hlowering (fun tid chnr => ?_) fun tid call hcall => ?_)
      · split
        · cases st.pc tid <;> rfl
        · rfl
      · split
        · rw [hcall]
          rfl
        · exact hcall
    · cases hstep
  | suspend chnr =>
    simp only [vbusStep] at hstep
    repeat' split at hstep
    all_goals cases hstep
    all_goals exact hsame (hinv.congr rfl (fun _ => rfl) (fun _ => rfl) (fun _ _ => rfl)
      fun _ _ h => h)
  | resume chnr =>
    simp only [vbusStep] at hstep
    repeat' split at hstep
    all_goals cases hstep
    all_goals exact hsame (hinv.congr rfl (fun _ => rfl) (fun _ => rfl) (fun _ _ => rfl)
      fun _ _ h => h)
  | disable chnr =>
    simp only [vbusStep] at hstep
    split at hstep <;> cases hstep
    exact hsame (hinv.congr rfl (fun _ => rfl) (fun _ => rfl) (fun _ _ => rfl) fun _ _ h => h)
  | wake =>
    simp only [vbusStep] at hstep
    split at hstep
    · rename_i chnr err hwaking
      cases hstep
      refine hsame (hinv.congr rfl (fun _ => rfl) (fun _ => rfl) (fun tid chnr => ?_)
        fun tid call hcall => ?_)
      · dsimp only
        split
        · cases st.pc tid <;> rfl
        · rfl
      · dsimp only
        split
        · rw [hcall]
          rfl
        · exact hcall
    · cases hstep
  | setStatus chnr status =>
    cases hstep
    exact hsame (hinv.congr rfl (fun _ => rfl) (fun _ => rfl) (fun _ _ => rfl) fun _ _ h => h)

/-- A level that stays at the largest number does not count the package that was
raised for. -/
theorem PostInv.not_levelKept_incTurn (hinv : PostInv cfg st spec free queue)
    (hbefore : ∀ other, st.pc tid ≠ .pushing other)
    (hmark : ¬(st.wmQue call.id).highMark < (st.wmQue call.id).level)
    (hmax : (st.wmQue call.id).level + 1 = wordSize) (hturn : st.incTurn tid call = (next, event)) :
    ¬LevelKept next call.id := by
  have hraised : (st.wmQue call.id).incTurn tid call.timeout =
      ((st.wmQue call.id).raise, .raised) := if_neg hmark
  simp only [VbusState.incTurn, hraised] at hturn
  cases hturn
  have hrep : PqRep cfg ((st.setWm call.id (st.wmQue call.id).raise).setPc tid
    (.pushing call)).outQue spec free queue := hinv.rep
  refine PostInv.not_levelKept hrep ?_
  have hmove := tally_update (PostPc.between call.id) st.pc tid (.pushing call)
  have hold : (st.pc tid).between call.id = 0 := by
    cases hpc : st.pc tid with
    | pushing found => exact absurd hpc (hbefore found)
    | _ => rfl
  have hnew : (PostPc.pushing call).between call.id = 1 := if_pos rfl
  have hlevels := hinv.levels call.id
  rw [hold, hnew] at hmove
  rw [inFlight] at hlevels
  change (update st.wmQue call.id (st.wmQue call.id).raise call.id).level ≠
    channelCount call.id spec.queue + ((st.outQue.pc none).taken call.id st.outQue.que.data +
      tally (PostPc.between call.id) (update st.pc tid (.pushing call)) +
        st.outPc.held call.id)
  rw [update_self, level_raise, if_pos hmax]
  omega

/-- A post that gives up in its push leaves the level as it has raised it. -/
theorem PostInv.not_levelKept_pushStep (hinv : PostInv cfg st spec free queue)
    (hpc : st.pc tid = .pushing call) (hpusher : act.pusher = some (some tid))
    (hbad : ¬PushSucceeds st.outQue act)
    (hstep : st.pushStep cfg tid call act = some (next, event)) :
    ¬LevelKept next call.id := by
  rw [VbusState.pushStep] at hstep
  cases hque : pqStep cfg st.outQue act with
  | none =>
    rw [hque] at hstep
    cases hstep
  | some result =>
    obtain ⟨que, queEvent⟩ := result
    obtain ⟨err, rfl⟩ := (pqStep_failed_iff (by rw [hpusher]; rfl) hque).2 hbad
    rw [hque] at hstep
    cases hstep
    obtain ⟨after, hspec, free', queue', hrep⟩ := hinv.rep.step hque
    obtain rfl : after = spec := pqSpecStep_quiet hspec (by simp) (by simp) (by simp)
    refine PostInv.not_levelKept hrep ?_
    have hlevels := hinv.levels call.id
    have htally : tally (PostPc.between call.id) (update st.pc tid .out) +
        isOf call.id call.pkg = tally (PostPc.between call.id) st.pc :=
      between_finished call.id hpc (by simp)
    have htaken := taken_eq hrep call.id
    have hone : isOf call.id call.pkg = 1 := if_pos rfl
    rw [inFlight, taken_eq hinv.rep] at hlevels
    change (st.wmQue call.id).level ≠ _ + ((que.pc none).taken call.id que.que.data +
      tally (PostPc.between call.id) (update st.pc tid .out) + st.outPc.held call.id)
    rw [htaken]
    omega

/-- A step that is not accounted for leaves a level wrong. -/
theorem PostInv.broken (hinv : PostInv cfg st spec free queue) {act : VbusAction Tid}
    (hbad : ¬PostAccounted st act)
    (hstep : vbusStep cfg st act = some (next, event)) : ∃ chnr, ¬LevelKept next chnr := by
  have hraise : ∀ {tid call}, ¬RaiseSucceeds st tid → (st.pc tid).raiser = some call →
      st.incTurn tid call = (next, event) → ∃ chnr, ¬LevelKept next chnr := by
    intro tid call hbad hraiser hturn
    rw [RaiseSucceeds, hraiser] at hbad
    simp only [Option.mem_some_iff, forall_eq', not_or, not_not] at hbad
    refine ⟨call.id, hinv.not_levelKept_incTurn (fun other hpc => ?_) hbad.1 hbad.2 hturn⟩
    rw [hpc] at hraiser
    cases hraiser
  cases act with
  | inc tid =>
    simp only [vbusStep] at hstep
    split at hstep
    · rename_i call hpc
      exact hraise hbad (by rw [hpc]; rfl) (Option.some.inj hstep)
    · cases hstep
  | incResume tid =>
    simp only [vbusStep] at hstep
    split at hstep
    · rename_i call hpc
      exact hraise hbad (by rw [hpc]; rfl) (Option.some.inj hstep)
    · rename_i call err hok hpc
      refine absurd (fun found hfound => ?_) hbad
      rw [hpc] at hfound
      cases err with
      | eok => exact absurd rfl hok
      | _ => cases hfound
    · cases hstep
  | push tid =>
    simp only [vbusStep] at hstep
    split at hstep
    · rename_i call hpc
      simp only [PostAccounted, hpc, PostPc.pusher, Option.mem_some_iff, forall_eq'] at hbad
      exact ⟨call.id, hinv.not_levelKept_pushStep hpc rfl hbad hstep⟩
    · cases hstep
  | poolResume tid =>
    simp only [vbusStep] at hstep
    split at hstep
    · rename_i call hpc
      refine ⟨call.id, hinv.not_levelKept_pushStep hpc ?_ ?_ hstep⟩
      · rfl
      · exact hbad
    · cases hstep
  | poolRetry tid =>
    simp only [vbusStep] at hstep
    split at hstep
    · rename_i call hpc
      refine ⟨call.id, hinv.not_levelKept_pushStep hpc ?_ ?_ hstep⟩
      · rfl
      · exact hbad
    · cases hstep
  | _ => exact absurd trivial hbad

omit [DecidableEq Tid] in
theorem postInv_init {threads : Option Tid → Kernel.Thread} {word : ℕ → ℕ}
    {tick mpAddress buf bufsz itemsz : ℕ} {data : ℕ → VbusPkg}
    {outQue : PqState (Option Tid) VbusPkg}
    (hroom : cfg.rtAlign (sizeofPtr cfg + itemsz) + sizeofPtr cfg ≤
      cfg.rtAlignDown bufsz)
    (hinit : rtPrioQueueInit cfg threads tick mpAddress word buf bufsz itemsz data =
      some outQue) (status : ℕ → ChnStatus) (low high : ℕ → ℕ) :
    ∃ free, PostInv cfg (vbusInit status low high outQue) ⟨[], fun _ => none⟩ free [] := by
  obtain ⟨free, hrep⟩ := pqRep_init hroom hinit
  have hout : ∀ tid, outQue.pc tid = .out := by
    intro tid
    rw [rtPrioQueueInit] at hinit
    split at hinit
    · cases hinit
    · cases hinit
      rfl
  refine ⟨free, hrep, fun tid pkg hpkg => ?_, fun chnr => ?_⟩
  · change (outQue.pc (some tid)).pkg = some pkg at hpkg
    rw [hout] at hpkg
    cases hpkg
  · have htally : tally (PostPc.between chnr) (fun _ : Tid => PostPc.out) = 0 :=
      tally_eq_zero_iff.2 fun _ => rfl
    change 0 = 0 + ((outQue.pc none).taken chnr outQue.que.data +
      tally (PostPc.between chnr) (fun _ : Tid => PostPc.out) + 0)
    rw [hout, htally]
    rfl

/-- The level of every channel counts its packages in every state of a run exactly when no
push of a post fails and no level stays at the largest number. -/
theorem levels_kept_iff {threads : Option Tid → Kernel.Thread} {word : ℕ → ℕ}
    {tick mpAddress buf bufsz itemsz : ℕ} {data : ℕ → VbusPkg}
    {outQue : PqState (Option Tid) VbusPkg} {status : ℕ → ChnStatus} {low high : ℕ → ℕ}
    {trace : List (VbusAction Tid × VbusEvent)} {last : VbusState Tid}
    (hroom : cfg.rtAlign (sizeofPtr cfg + itemsz) + sizeofPtr cfg ≤
      cfg.rtAlignDown bufsz)
    (hinit : rtPrioQueueInit cfg threads tick mpAddress word buf bufsz itemsz data =
      some outQue)
    (hrun : (vbusMachine cfg).Run (vbusInit status low high outQue) trace last) :
    ((vbusMachine cfg).RunWith (fun st _ => ∀ chnr, LevelKept st chnr)
        (vbusInit status low high outQue) trace last ∧ ∀ chnr, LevelKept last chnr) ↔
      (vbusMachine cfg).RunWith PostAccounted (vbusInit status low high outQue) trace last := by
  refine hrun.always_iff
    (fun st => ∃ spec free queue, PostInv cfg st spec free queue)
    (fun st => ∀ chnr, LevelKept st chnr) ?_ ?_ ?_ ?_
  · rintro st ⟨spec, free, queue, hinv⟩ chnr
    exact hinv.levelKept chnr
  · rintro st act next event ⟨spec, free, queue, hinv⟩ hgood hstep
    exact hinv.step hgood hstep
  · rintro st act next event ⟨spec, free, queue, hinv⟩ hbad hstep hkept
    obtain ⟨chnr, hbroken⟩ := hinv.broken hbad hstep
    exact hbroken (hkept chnr)
  · obtain ⟨free, hfirst⟩ := postInv_init hroom hinit status low high
    exact ⟨_, free, [], hfirst⟩

/-! ## A queue of one block -/

instance {st : PqState (Option Tid) VbusPkg} : (act : PqAction (Option Tid) VbusPkg) →
    Decidable (PushSucceeds st act)
  | .push _ _ _ _ => inferInstanceAs (Decidable (_ ∧ (_ → _)))
  | .poolResume _ => inferInstanceAs (Decidable (_ = Err.eok))
  | .poolRetry _ => inferInstanceAs (Decidable (_ → _))
  | .fill _ | .link _ | .pop _ _ | .repop _ | .copy _ | .free _ | .expire _ | .poolTimeout _
  | .tick => inferInstanceAs (Decidable True)

instance (st : VbusState Tid) (tid : Tid) : Decidable (RaiseSucceeds st tid) :=
  inferInstanceAs (Decidable (∀ call ∈ (st.pc tid).raiser, _))

instance (st : VbusState Tid) :
    (act : VbusAction Tid) → Decidable (PostAccounted st act)
  | .inc tid | .incResume tid => inferInstanceAs (Decidable (RaiseSucceeds st tid))
  | .push tid => inferInstanceAs (Decidable (∀ call ∈ (st.pc tid).pusher, _))
  | .poolResume tid =>
    inferInstanceAs (Decidable (PushSucceeds st.outQue (.poolResume (some tid))))
  | .poolRetry tid =>
    inferInstanceAs (Decidable (PushSucceeds st.outQue (.poolRetry (some tid))))
  | .post _ _ | .test _ | .park _ | .unpark _ | .check _ | .expire _ | .fill _ | .link _
  | .poolTimeout _ | .tick | .pop | .repop | .copy | .free | .dec | .lower | .suspend _ | .resume _
  | .disable _ | .wake | .setStatus _ _ => inferInstanceAs (Decidable True)

/-- The out queue with room for one package of eight bytes. -/
def oneBlock : PqState (Option Bool) VbusPkg :=
  (rtPrioQueueInit MemPool.poolConfig (fun _ => Kernel.Thread.started 10) 0 64 (fun _ => 0) 100 16 8
    fun _ => ⟨0, 0, false, 0, 0⟩).get rfl

/-- All channels are established, with the marks 0 and 1. -/
def oneBlockBus : VbusState Bool :=
  vbusInit (fun _ => .established) (fun _ => 0) (fun _ => 1) oneBlock

/-- Ten bytes for channel 1, without waiting. -/
def tenBytes : PostCall :=
  { id := 1, prio := 5, data := 64, size := 10, timeout := 0 }

/-- A post, and the out thread that takes its package. -/
def scheduleTenBytes (poster : Tid) : List (VbusAction Tid) :=
  [.post poster tenBytes, .test poster, .check poster, .inc poster, .push poster, .fill poster,
    .link poster, .pop, .copy, .free, .dec, .lower]

theorem isSome_scheduleTenBytes : ((vbusMachine MemPool.poolConfig).exec PostAccounted oneBlockBus
    (scheduleTenBytes false)).isSome = true := by
  decide +kernel

theorem levels_kept_scheduleTenBytes : ∃ trace, ∃ last : VbusState Bool,
    (vbusMachine MemPool.poolConfig).RunWith (fun st _ => ∀ chnr, LevelKept st chnr)
      oneBlockBus trace last ∧
      trace.map Prod.snd = [.moved, .moved, .moved, .moved, .moved, .moved, .returned .eok, .moved,
        .moved, .moved, .moved, .moved] ∧ (last.wmQue 1).level = 0 := by
  have hrun := Machine.runWith_of_isSome _ isSome_scheduleTenBytes
  have hinit : rtPrioQueueInit MemPool.poolConfig (fun _ => Kernel.Thread.started 10) 0 64
      (fun _ => 0) 100 16 8 (fun _ => ⟨0, 0, false, 0, 0⟩) = some oneBlock := rfl
  exact ⟨_, _, ((levels_kept_iff (by decide) hinit hrun.run).2 hrun).1, by decide +kernel,
    by decide +kernel⟩

/-- A second post finds no block for its package. -/
def scheduleNoBlock (first second : Tid) : List (VbusAction Tid) :=
  [.post first tenBytes, .test first, .check first, .inc first, .push first,
    .post second tenBytes, .test second, .check second, .inc second, .push second]

theorem isSome_scheduleNoBlock : ((vbusMachine MemPool.poolConfig).exec (fun _ _ => True)
    oneBlockBus (scheduleNoBlock false true)).isSome = true := by
  decide +kernel

/-- The out thread has popped the package of a post. -/
def scheduleTaken (poster : Tid) : List (VbusAction Tid) :=
  [.post poster tenBytes, .test poster, .check poster, .inc poster, .push poster, .fill poster,
    .link poster, .pop]

theorem isSome_scheduleTaken : ((vbusMachine MemPool.poolConfig).exec PostAccounted oneBlockBus
    (scheduleTaken false)).isSome = true := by
  decide +kernel

omit [DecidableEq Tid] in
/-- While the out thread has a package of the channel, the level counts it. -/
theorem not_levelQueued {chnr : ℕ} (hkept : LevelKept st chnr)
    (htaken : inFlight chnr st ≠ tally (PostPc.between chnr) st.pc) :
    ¬LevelQueued st chnr := by
  obtain ⟨queue, hchain, hlevel⟩ := hkept
  rintro ⟨other, hother, heq⟩
  rw [hlevel, channelCount_unique hchain hother] at heq
  omega

omit [DecidableEq Tid] in
/-- Without items in the queue, the level is what is in flight. -/
theorem levelQueued_of_empty {chnr : ℕ} (hheads : ∀ prio, st.outQue.que.head prio = none)
    (hkept : LevelQueued st chnr) :
    (st.wmQue chnr).level = tally (PostPc.between chnr) st.pc := by
  obtain ⟨queue, hchain, heq⟩ := hkept
  have hempty : queue = [] := by
    refine List.eq_nil_iff_forall_not_mem.2 fun item hitem => ?_
    have hnil := (hchain item.1).start_eq_none_iff.1 (hheads item.1)
    have hmem : item.2 ∈ level queue item.1 := mem_level.2 hitem
    rw [hnil] at hmem
    cases hmem
  rw [hempty] at heq
  simpa [channelCount] using heq

/-- The level counts a package that the out thread has popped, and the package of a post that
has failed, which is nowhere. -/
theorem level_beyond_queue : (∃ trace, ∃ last : VbusState Bool,
    (vbusMachine MemPool.poolConfig).Run oneBlockBus trace last ∧
      trace.map Prod.snd = [.moved, .moved, .moved, .moved, .moved, .moved, .returned .eok,
        .moved] ∧ (last.wmQue 1).level = 1 ∧ ¬LevelQueued last 1) ∧
    ∃ trace, ∃ last : VbusState Bool, (vbusMachine MemPool.poolConfig).Run oneBlockBus trace last ∧
      trace.map Prod.snd = [.moved, .moved, .moved, .moved, .moved, .moved, .moved, .moved, .moved,
        .returned .enomem] ∧ (last.wmQue 1).level = 2 ∧ inFlight 1 last = 1 ∧
          (∀ prio, last.outQue.que.head prio = none) ∧ ¬LevelQueued last 1 := by
  constructor
  · have hrun := Machine.runWith_of_isSome _ isSome_scheduleTaken
    have hinit : rtPrioQueueInit MemPool.poolConfig (fun _ => Kernel.Thread.started 10) 0 64
        (fun _ => 0) 100 16 8 (fun _ => ⟨0, 0, false, 0, 0⟩) = some oneBlock := rfl
    obtain ⟨free, hfirst⟩ := postInv_init (by decide) hinit (fun _ => .established) (fun _ => 0)
      fun _ => 1
    obtain ⟨spec, free', queue, hinv⟩ := hrun.invariant
      (fun st => ∃ spec free queue, PostInv MemPool.poolConfig st spec free queue)
      (fun _ _ _ _ ⟨_, _, _, hinv⟩ hgood hstep => hinv.step hgood hstep)
      ⟨_, free, [], hfirst⟩
    exact ⟨_, _, hrun.run, by decide +kernel, by decide +kernel,
      not_levelQueued (hinv.levelKept 1) (by decide +kernel)⟩
  · have hrun := Machine.runWith_of_isSome _ isSome_scheduleNoBlock
    refine ⟨_, _, hrun, by decide +kernel, ?_⟩
    generalize hlast : ((vbusMachine MemPool.poolConfig).exec (fun _ _ => True) oneBlockBus
      (scheduleNoBlock false true)).get isSome_scheduleNoBlock = result
    have hlevel : (result.1.wmQue 1).level = 2 := by
      subst hlast
      decide +kernel
    have hflight : inFlight 1 result.1 = 1 ∧ tally (PostPc.between 1) result.1.pc = 1 := by
      subst hlast
      decide +kernel
    have hheads : ∀ prio, result.1.outQue.que.head prio = none := by
      subst hlast
      intro prio
      with_unfolding_all rfl
    refine ⟨hlevel, hflight.1, hheads, fun hkept => ?_⟩
    have heq := levelQueued_of_empty hheads hkept
    rw [hlevel, hflight.2] at heq
    cases heq

end Invariant

end Levels

end RtThread.Vbus
