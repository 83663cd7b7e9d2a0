import RtThread.Core.RoundRobin
import RtThread.Scheduler.Scheduler

set_option linter.all false

/-!
# Who gets the processor

After `rt_schedule` the current thread is the only one that runs and none of the ready
threads has a smaller priority number.  A thread that has to give way, or yields to its
equals, goes to the end of the list of its priority, so the threads of one priority take
turns: none of them gets the processor twice while another one stays in the list.
-/

namespace RtThread.Scheduler

open RtThread.Core
open RtThread.Core.RoundRobin
open RtThread.Kernel (Stat)

variable {cfg : Config} {Tid : Type*} [DecidableEq Tid]
variable {st next : State cfg Tid} {event : Event Tid}

theorem erase_append_singleton {gone element : Tid} (hne : gone ≠ element) (queue : List Tid) :
    (queue ++ [element]).erase gone = queue.erase gone ++ [element] := by
  rw [List.erase_append]
  split
  · rfl
  · next hnot =>
      rw [List.erase_of_not_mem hnot, List.erase_of_not_mem (by simpa using hne)]

section Switch

variable {fromThread toThread : Tid} (hne : toThread ≠ fromThread)

include hne

theorem current_switchTo : (switchTo st fromThread toThread).current = some toThread := by
  by_cases hrunning : (st.threads fromThread).stat = .running
  · rw [switchTo_of_running hne hrunning]
    rfl
  · rw [switchTo_of_not_running hrunning]
    rfl

theorem threads_switchTo (other : Tid) :
    (switchTo st fromThread toThread).threads other =
      if other = toThread then { st.threads toThread with stat := .running }
      else if other = fromThread ∧ (st.threads fromThread).stat = .running then
        { st.threads fromThread with stat := .ready }
      else st.threads other := by
  by_cases hrunning : (st.threads fromThread).stat = .running
  · rw [switchTo_of_running hne hrunning]
    by_cases hto : other = toThread
    · subst hto
      simp [setStat, setThread, rtScheduleRemoveThread, hne]
    · by_cases hfrom : other = fromThread
      · subst hfrom
        simp [setStat, setThread, rtScheduleRemoveThread, hto, hrunning]
      · simp [setStat, setThread, rtScheduleRemoveThread, hto, hfrom]
  · rw [switchTo_of_not_running hrunning]
    by_cases hto : other = toThread
    · subst hto
      simp [setStat, setThread, rtScheduleRemoveThread]
    · simp [setStat, setThread, rtScheduleRemoveThread, hto, hrunning]

/-- The lists after a switch: the thread that gives way is at the end of its list. -/
theorem priorityTable_switchTo (priority : ℕ) :
    (switchTo st fromThread toThread).queue.priorityTable priority =
      if (st.threads fromThread).stat = .running ∧
          priority = (st.threads fromThread).currentPriority then
        (st.queue.priorityTable priority).erase toThread ++ [fromThread]
      else (st.queue.priorityTable priority).erase toThread := by
  by_cases hrunning : (st.threads fromThread).stat = .running
  · rw [switchTo_of_running hne hrunning]
    simp only [setStat, setThread, rtScheduleRemoveThread, ReadyQueue.priorityTable_remove,
      ReadyQueue.priorityTable_insert, hrunning, true_and, Thread.currentPriority]
    split
    · exact erase_append_singleton hne _
    · rfl
  · rw [switchTo_of_not_running hrunning, if_neg fun hboth => hrunning hboth.1]
    exact ReadyQueue.priorityTable_remove _ _ _ _ _

end Switch

/-- After `rt_schedule`, when some thread is ready and the scheduler is not locked. -/
theorem rtSchedule_current (hinv : Inv st) (hstep : rtSchedule st = some (next, event))
    (hlock : next.lockNest = 0) (hready : ∃ tid, (next.threads tid).stat = .ready) :
    ∃ current, next.current = some current ∧ (next.threads current).stat = .running ∧
      ∀ tid, (next.threads tid).stat = .ready →
        (next.threads current).currentPriority ≤ (next.threads tid).currentPriority := by
  rcases rtSchedule_cases hinv hstep with ⟨hnothing, rfl, -⟩ |
    ⟨current, highest, -, hcurrent, hhighest, hne, hkept | hswitched⟩
  · -- no bit is set, so no thread is ready
    obtain ⟨tid, htid⟩ := hready
    have hmem := (hinv.queue.placed tid _).2 ⟨htid, rfl⟩
    exact absurd ⟨hlock, hinv.queue.bits.ne_zero_iff.2 ⟨_, List.ne_nil_of_mem hmem⟩⟩ hnothing
  · obtain ⟨hrunning, hlower, rfl, -⟩ := hkept
    refine ⟨current, hcurrent, by simp [setStat, setThread], fun tid htid => ?_⟩
    simp only [setStat, setThread, rtScheduleRemoveThread] at htid ⊢
    by_cases hself : tid = current
    · simp [hself] at htid
    · rw [Function.update_of_ne hself] at htid ⊢
      rw [Function.update_self]
      exact hlower.le.trans ((hinv.queue.highest hhighest).2.2 tid htid)
  · obtain ⟨hgives, rfl, -⟩ := hswitched
    obtain ⟨-, hpriority, hsmallest⟩ := hinv.queue.highest hhighest
    have hhead : (switchTo st current highest).threads highest =
        { st.threads highest with stat := .running } := by
      rw [threads_switchTo hne, if_pos rfl]
    refine ⟨highest, current_switchTo hne, by rw [hhead], fun tid htid => ?_⟩
    rw [hhead]
    change (st.threads highest).currentPriority ≤ _
    rw [threads_switchTo hne] at htid ⊢
    split at htid
    · contradiction
    · next hself =>
        rw [if_neg hself, hpriority]
        split at htid
        · next hfrom =>
            rw [if_pos hfrom]
            exact not_lt.1 fun hlt => hgives ⟨hfrom.2, hlt⟩
        · next hfrom =>
            rw [if_neg hfrom]
            exact hsmallest tid htid

/-! ## Turns -/

theorem keepsTurn_rtScheduleInsertThread (st : State cfg Tid) (tid waiting : Tid)
    (priority : ℕ) :
    KeepsTurn waiting (st.queue.priorityTable priority)
      ((rtScheduleInsertThread st tid).queue.priorityTable priority) := by
  rw [rtScheduleInsertThread]
  split
  · exact KeepsTurn.refl _ _
  · simp only [ReadyQueue.priorityTable_insert]
    split
    · exact KeepsTurn.append _ _ _
    · exact KeepsTurn.refl _ _

theorem keepsTurn_rtScheduleRemoveThread (hinv : Inv st) (tid waiting : Tid) (priority : ℕ) :
    KeepsTurn waiting (st.queue.priorityTable priority)
      ((rtScheduleRemoveThread st tid).queue.priorityTable priority) := by
  simp only [rtScheduleRemoveThread, ReadyQueue.priorityTable_remove]
  exact KeepsTurn.erase (hinv.queue.nodup priority) _ _

theorem keepsTurn_rtThreadResume (hinv : Inv st) (tid waiting : Tid) (priority : ℕ) :
    KeepsTurn waiting (st.queue.priorityTable priority)
      ((rtThreadResume st tid).1.queue.priorityTable priority) := by
  rw [rtThreadResume]
  split
  · next hstat =>
      rw [unlinkThread_eq hinv (by simp [hstat])]
      exact keepsTurn_rtScheduleInsertThread _ _ _ _
  · exact KeepsTurn.refl _ _

variable {tid : Tid}

theorem keepsTurn_rtThreadSuspend (hinv : Inv st)
    (hstep : rtThreadSuspend st tid = some (next, event)) (waiting : Tid) (priority : ℕ) :
    KeepsTurn waiting (st.queue.priorityTable priority)
      (next.queue.priorityTable priority) := by
  have hremove := keepsTurn_rtScheduleRemoveThread hinv tid waiting priority
  rw [rtThreadSuspend] at hstep
  split at hstep
  · cases hstep
    exact hremove
  · split at hstep
    · cases hstep
      exact hremove
    · contradiction
  · cases hstep
    exact KeepsTurn.refl _ _

variable {waiting : Tid}

theorem keepsTurn_changePriority (hinv : Inv st) (hne : tid ≠ waiting)
    (newPriority : Fin cfg.priorityMax) (priority : ℕ) :
    KeepsTurn waiting (st.queue.priorityTable priority)
      ((changePriority st tid newPriority).queue.priorityTable priority) := by
  rw [changePriority]
  split
  · have hmem : waiting ∈ st.queue.priorityTable priority →
        waiting ∈ (rtScheduleRemoveThread st tid).queue.priorityTable priority := by
      intro hwaiting
      simp only [rtScheduleRemoveThread, ReadyQueue.priorityTable_remove]
      exact (List.mem_erase_of_ne (Ne.symm hne)).2 hwaiting
    exact (keepsTurn_rtScheduleRemoveThread hinv tid waiting priority).trans
      (keepsTurn_rtScheduleInsertThread
        (setPriority (rtScheduleRemoveThread st tid) tid newPriority) tid waiting priority)
      fun hwaiting _ => hmem hwaiting
  · exact KeepsTurn.refl _ _

theorem keepsTurn_rtSchedule (hinv : Inv st) (hstep : rtSchedule st = some (next, event))
    (waiting : Tid) (priority : ℕ) :
    KeepsTurn waiting (st.queue.priorityTable priority)
      (next.queue.priorityTable priority) := by
  rcases rtSchedule_cases hinv hstep with ⟨-, rfl, -⟩ |
    ⟨current, highest, -, hcurrent, hhighest, hne, hkept | hswitched⟩
  · exact KeepsTurn.refl _ _
  · obtain ⟨-, -, rfl, -⟩ := hkept
    exact keepsTurn_rtScheduleRemoveThread hinv current waiting priority
  · obtain ⟨-, rfl, -⟩ := hswitched
    have herase := KeepsTurn.erase (hinv.queue.nodup priority) waiting highest
    rw [priorityTable_switchTo hne]
    split
    · refine herase.trans (KeepsTurn.append _ _ _) fun hwaiting hmem => ?_
      have hself : waiting ≠ current := by
        intro heq
        have hready := ((hinv.queue.placed waiting priority).1 hwaiting).1
        exact hinv.current.ready waiting hready (heq ▸ hcurrent)
      simpa [hself] using hmem
    · exact herase

variable {act : Action cfg Tid}

/-- Nothing gets ahead of a thread that stays in its list, unless its own priority is
set. -/
theorem keepsTurn_step (hinv : Inv st)
    (hnot : ∀ newPriority, act ≠ .changePriority waiting newPriority)
    (hstep : step st act = some (next, event)) (priority : ℕ) :
    KeepsTurn waiting (st.queue.priorityTable priority)
      (next.queue.priorityTable priority) := by
  cases act with
  | startup tid =>
    simp only [step, rtThreadStartup] at hstep
    split at hstep
    · next hstat =>
        have hsuspended := inv_setThread tid
          { st.threads tid with
            stat := .suspend, attributes := .calculate (st.threads tid).initPriority }
          hinv (by simp [hstat]) (by simp) (by simp) (.inl (by simp))
        have hresumed := keepsTurn_rtThreadResume hsuspended tid waiting priority
        rw [Option.some.inj hstep] at hresumed
        exact hresumed
    · contradiction
  | suspend tid => exact keepsTurn_rtThreadSuspend hinv hstep waiting priority
  | resume tid =>
    have hresumed := keepsTurn_rtThreadResume hinv tid waiting priority
    rw [Option.some.inj hstep] at hresumed
    exact hresumed
  | sleep =>
    rw [step, rtThreadSleep] at hstep
    split at hstep
    · obtain ⟨⟨suspended, _⟩, hresult, heq⟩ := Option.map_eq_some_iff.1 hstep
      rw [← (Prod.mk.inj heq).1]
      exact keepsTurn_rtThreadSuspend hinv hresult waiting priority
    · contradiction
  | changePriority tid newPriority =>
    cases hstep
    have hne : tid ≠ waiting := fun heq => hnot newPriority (heq ▸ rfl)
    exact keepsTurn_changePriority hinv hne newPriority priority
  | timeout tid =>
    rw [step, rtThreadTimeout] at hstep
    split at hstep
    · next hstat =>
        cases hstep
        rw [unlinkThread_eq hinv (by simp [hstat])]
        exact keepsTurn_rtScheduleInsertThread _ _ _ _
    · contradiction
  | exit =>
    rw [step, rtThreadExit] at hstep
    split at hstep
    · cases hstep
      exact keepsTurn_rtScheduleRemoveThread hinv _ waiting priority
    · contradiction
  | delete tid =>
    cases hstep
    rw [rtThreadDelete]
    split
    · exact KeepsTurn.refl _ _
    · exact keepsTurn_rtScheduleRemoveThread hinv tid waiting priority
  | tick =>
    rw [step, rtTickIncrease] at hstep
    split at hstep
    · simp only at hstep
      split at hstep
      · cases hstep
        exact KeepsTurn.refl _ _
      · cases hstep
        exact KeepsTurn.refl _ _
    · contradiction
  | enterCritical =>
    cases hstep
    exact KeepsTurn.refl _ _
  | exitCritical =>
    cases hstep
    rw [rtExitCritical]
    split
    · exact KeepsTurn.refl _ _
    · exact KeepsTurn.refl _ _
  | schedule => exact keepsTurn_rtSchedule hinv hstep waiting priority
  | yield => exact keepsTurn_rtSchedule hinv hstep waiting priority
  | start =>
    rw [step, rtSystemSchedulerStart] at hstep
    split at hstep
    · cases hstep
      simp only [setStat, setThread, rtScheduleRemoveThread, ReadyQueue.priorityTable_remove]
      exact KeepsTurn.erase (hinv.queue.nodup priority) _ _
    · contradiction

variable {priority : ℕ}

theorem dispatched_of_rtSchedule (hinv : Inv st)
    (hstep : rtSchedule st = some (next, .dispatched tid priority)) :
    (st.queue.priorityTable priority).head? = some tid ∧
      (next.threads tid).stat = .running := by
  rcases rtSchedule_cases hinv hstep with ⟨-, -, hevent⟩ |
    ⟨current, highest, -, hcurrent, hhighest, hne, ⟨-, -, -, hevent⟩ | ⟨-, rfl, hevent⟩⟩
  · cases hevent
  · cases hevent
  · obtain ⟨rfl, rfl⟩ := Event.dispatched.inj hevent
    refine ⟨hhighest, ?_⟩
    rw [threads_switchTo hne, if_pos rfl]

variable {other : Tid}

theorem event_rtThreadResume : (rtThreadResume st tid).2 ≠ .dispatched other priority := by
  rw [rtThreadResume]
  split
  · simp
  · simp

theorem event_rtThreadSuspend :
    rtThreadSuspend st tid ≠ some (next, .dispatched other priority) := by
  rw [rtThreadSuspend]
  split
  · simp
  · split
    · simp
    · simp
  · simp

/-- A dispatch takes the first thread of the list and makes it run. -/
theorem dispatched_step (hinv : Inv st)
    (hstep : step st act = some (next, .dispatched tid priority)) :
    (st.queue.priorityTable priority).head? = some tid ∧
      (next.threads tid).stat = .running := by
  cases act with
  | schedule => exact dispatched_of_rtSchedule hinv hstep
  | yield => exact dispatched_of_rtSchedule hinv hstep
  | start =>
    rw [step, rtSystemSchedulerStart] at hstep
    split at hstep
    · next toThread hcurrent hhighest =>
        obtain ⟨rfl, hevent⟩ := Prod.mk.inj (Option.some.inj hstep)
        obtain ⟨rfl, rfl⟩ := Event.dispatched.inj hevent
        exact ⟨hhighest, by simp [setStat, setThread]⟩
    · contradiction
  -- no other call dispatches a thread
  | startup other =>
    simp only [step, rtThreadStartup] at hstep
    split at hstep
    · exact absurd (congrArg Prod.snd (Option.some.inj hstep)) event_rtThreadResume
    · contradiction
  | suspend other => exact absurd hstep event_rtThreadSuspend
  | resume other =>
    exact absurd (congrArg Prod.snd (Option.some.inj hstep)) event_rtThreadResume
  | sleep =>
    rw [step, rtThreadSleep] at hstep
    split at hstep
    · simp at hstep
    · contradiction
  | timeout other =>
    rw [step, rtThreadTimeout] at hstep
    split at hstep
    · simp at hstep
    · contradiction
  | exit =>
    rw [step, rtThreadExit] at hstep
    split at hstep
    · simp at hstep
    · contradiction
  | tick =>
    rw [step, rtTickIncrease] at hstep
    split at hstep
    · simp only at hstep
      split at hstep
      · simp at hstep
      · simp at hstep
    · contradiction
  | changePriority other newPriority => simp [step] at hstep
  | delete other => simp [step] at hstep
  | enterCritical => simp [step] at hstep
  | exitCritical => simp [step] at hstep

/-- The thread is in the list of this priority, and the step does not put it there anew. -/
def Waits (waiting : Tid) (priority : ℕ) (st : State cfg Tid)
    (act : Action cfg Tid) : Prop :=
  waiting ∈ st.queue.priorityTable priority ∧
    ∀ newPriority, act ≠ .changePriority waiting newPriority

/-- The thread gets the processor from the list of this priority. -/
def takesTurn (tid : Tid) (priority : ℕ) (entry : Action cfg Tid × Event Tid) : Bool :=
  match entry.2 with
  | .dispatched dispatched source => dispatched = tid && source = priority
  | _ => false

theorem takesTurn_iff :
    takesTurn tid priority (act, event) = true ↔ event = .dispatched tid priority := by
  cases event with
  | dispatched dispatched source => simp [takesTurn]
  | _ => simp [takesTurn]

/-- While a thread waits in its list, each of the others there has at most one turn. -/
theorem takesTurn_at_most_once {trace : List (Action cfg Tid × Event Tid)} {last : State cfg Tid}
    (hinv : Inv st) (hne : other ≠ waiting)
    (hrun : (machine cfg).RunWith (Waits waiting priority) st trace last) :
    trace.countP (takesTurn other priority) ≤ 1 := by
  refine (hrun.countP_le_one
    (fun st => waiting ∈ st.queue.priorityTable priority ∧
      other ∈ ahead waiting (st.queue.priorityTable priority))
    (takesTurn other priority) Inv (fun _ _ _ _ hinv _ hstep => inv_step hinv hstep)
    (fun st act next event hinv hwaits hstep hahead => ?_)
    (fun st act next event hinv hwaits hstep hcounted => ?_) hinv).1
  · exact ⟨hwaits.1, keepsTurn_step hinv hwaits.2 hstep priority hwaits.1 hahead.1 hahead.2⟩
  · rw [takesTurn_iff] at hcounted
    subst hcounted
    obtain ⟨hhead, hrunning⟩ := dispatched_step hinv hstep
    obtain ⟨rest, hrest⟩ := List.head?_eq_some_iff.1 hhead
    refine ⟨⟨hwaits.1, ?_⟩, fun hahead => ?_⟩
    · rw [hrest, ahead_cons_of_ne hne]
      exact List.mem_cons_self
    · have hready := ((inv_step hinv hstep).queue.placed other priority).1
        (mem_of_mem_ahead hahead.2)
      rw [hrunning] at hready
      exact absurd hready.1 nofun

/-- In every state that the threads can reach, the ready threads are those in the lists,
each in the one list of its priority.  After `rt_schedule`, with the scheduler not locked
and some thread ready, exactly the current thread runs, and no ready thread has a smaller
priority number.  A running thread that `rt_schedule` takes the processor from goes to the
end of the list of its priority.  From then on, as long as a thread stays in a list and its
own priority is not set, no other thread gets the processor from this list twice. -/
theorem schedule_safe_and_fair {priority : Tid → Fin cfg.priorityMax} {tick : Tid → BitVec 32}
    {trace : List (Action cfg Tid × Event Tid)}
    (hrun : (machine cfg).Run (initial priority tick) trace st) :
    (∀ p, (st.queue.priorityTable p).Nodup ∧ ∀ tid, tid ∈ st.queue.priorityTable p ↔
      (st.threads tid).stat = .ready ∧ p = (st.threads tid).currentPriority) ∧
    (∀ next event, rtSchedule st = some (next, event) → next.lockNest = 0 →
      (∃ tid, (next.threads tid).stat = .ready) →
      ∃ current, next.current = some current ∧
        (∀ tid, (next.threads tid).stat = .running ↔ tid = current) ∧
        ∀ tid, (next.threads tid).stat = .ready →
          (next.threads current).currentPriority ≤ (next.threads tid).currentPriority) ∧
    (∀ next fromThread toThread p, rtSchedule st = some (next, .dispatched toThread p) →
      st.current = some fromThread → (st.threads fromThread).stat = .running →
      next.queue.priorityTable (st.threads fromThread).currentPriority =
        (st.queue.priorityTable (st.threads fromThread).currentPriority).erase toThread ++
          [fromThread]) ∧
    (∀ waiting p trace' last,
      (machine cfg).RunWith (Waits waiting p) st trace' last →
      ∀ other ≠ waiting, trace'.countP (takesTurn other p) ≤ 1) := by
  have hinv := inv_run hrun
  refine ⟨fun p => ⟨hinv.queue.nodup p, fun tid => hinv.queue.placed tid p⟩, ?_, ?_, ?_⟩
  · intro next event hstep hlock hready
    obtain ⟨current, hcurrent, hrunning, hsmallest⟩ := rtSchedule_current hinv hstep hlock hready
    refine ⟨current, hcurrent, fun tid => ⟨fun hstat => ?_, fun heq => heq ▸ hrunning⟩, hsmallest⟩
    have hself := (inv_rtSchedule hinv hstep).current.running tid hstat
    exact Option.some.inj (hself.symm.trans hcurrent)
  · intro next fromThread toThread p hstep hcurrent hrunning
    rcases rtSchedule_cases hinv hstep with ⟨-, -, hevent⟩ |
      ⟨current, highest, -, hcurrent', hhighest, hne, ⟨-, -, -, hevent⟩ | ⟨-, rfl, hevent⟩⟩
    · cases hevent
    · cases hevent
    · obtain ⟨rfl, -⟩ := Event.dispatched.inj hevent
      obtain rfl : current = fromThread := Option.some.inj (hcurrent'.symm.trans hcurrent)
      rw [priorityTable_switchTo hne, if_pos ⟨hrunning, rfl⟩]
  · intro waiting p trace' last hwaits other hne
    exact takesTurn_at_most_once hinv hne hwaits

/-- 32 priorities. -/
def config32 : Config where
  priorityMax := 32
  priorityMax_le := by decide

/-- Three threads of one priority. -/
def equalPriorities (_ : Fin 3) : Fin config32.priorityMax :=
  ⟨5, by decide⟩

/-- The first of three threads of one priority runs and yields. -/
theorem schedule_safe_and_fair_yield :
    ∃ trace, ∃ st : State config32 (Fin 3),
      (machine config32).Run (initial equalPriorities fun _ => 10) trace st ∧
      st.current = some 0 ∧ st.queue.priorityTable 5 = [1, 2] ∧
      ∃ next, rtSchedule st = some (next, .dispatched 1 5) ∧
        next.queue.priorityTable 5 = [2, 0] ∧
        ∃ current, next.current = some current ∧
          (∀ tid, (next.threads tid).stat = .running ↔ tid = current) ∧
          ∀ tid, (next.threads tid).stat = .ready →
            (next.threads current).currentPriority ≤ (next.threads tid).currentPriority := by
  have hrun : (machine config32).Run (initial equalPriorities fun _ => 10) _ _ :=
    Machine.runWith_of_exec [.startup 0, .startup 1, .startup 2, .start] rfl
  exact ⟨_, _, hrun, rfl, by decide, _, rfl, by decide,
    (schedule_safe_and_fair hrun).2.1 _ _ rfl rfl ⟨2, by decide⟩⟩

def startThree : List (Action config32 (Fin 3)) :=
  [.startup 0, .startup 1, .startup 2, .start]

theorem isSome_startThree :
    ((machine config32).exec (fun _ _ => True) (initial equalPriorities fun _ => 10)
      startThree).isSome = true := by
  decide

/-- The first thread runs, the others are ready. -/
def firstRuns : State config32 (Fin 3) :=
  (((machine config32).exec (fun _ _ => True) (initial equalPriorities fun _ => 10)
    startThree).get isSome_startThree).1

/-- The priority of thread 1 is set to what it is before each yield. -/
def setAgain : List (Action config32 (Fin 3)) :=
  [.changePriority 1 (equalPriorities 1), .yield, .changePriority 1 (equalPriorities 1), .yield,
    .changePriority 1 (equalPriorities 1), .yield]

theorem isSome_setAgain :
    ((machine config32).exec (fun st _ => 1 ∈ st.queue.priorityTable 5) firstRuns
      setAgain).isSome = true := by
  decide

/-- While thread 1 is ready all the time and its priority is set again and again to what it
is, thread 2 of the same priority gets the processor twice. -/
theorem changePriority_overtaken_twice :
    ∃ trace, (machine config32).Run (initial equalPriorities fun _ => 10) trace firstRuns ∧
      ∃ trace' last,
        (machine config32).RunWith (fun st _ => 1 ∈ st.queue.priorityTable 5)
          firstRuns trace' last ∧
        1 ∈ last.queue.priorityTable 5 ∧ trace'.countP (takesTurn 2 5) = 2 := by
  refine ⟨_, Machine.runWith_of_isSome startThree isSome_startThree, _, _,
    Machine.runWith_of_isSome setAgain isSome_setAgain, ?_, ?_⟩
  · decide +kernel
  · decide

end RtThread.Scheduler
