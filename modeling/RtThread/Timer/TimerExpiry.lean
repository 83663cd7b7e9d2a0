import RtThread.Timer.TimerOrder

set_option linter.all false

/-!
# The expiry of hard timers

A timer that is started with init tick `n` times out `n` ticks later, counted without
wrap-around.  When the timeout functions leave the timers alone, the check after a
tick calls exactly the timers that time out at this tick, each once and in the order
of the list, starts the periodic ones again and leaves the others inactive.
-/

namespace RtThread.Timer

open Function
open RtThread.Core
open RtThread.Core.WrapClock

/-- What a run says about time: how many ticks there were, the init ticks as they were
last set, and for each timer the tick at which its last start lets it time out. -/
structure Timeline (Id : Type*) where
  ticks : ℕ
  initTick : Id → ℕ
  deadline : Id → ℕ

variable {Id : Type*} [DecidableEq Id]

def Timeline.start (timeline : Timeline Id) (id : Id) : Timeline Id :=
  { timeline with
    deadline := update timeline.deadline id (timeline.ticks + timeline.initTick id) }

def Timeline.note (timeline : Timeline Id) (entry : Action Id × Event Id) : Timeline Id :=
  match entry.2 with
  | .ticked => { timeline with ticks := timeline.ticks + 1 }
  | .started id | .rearmed id => timeline.start id
  | .controlled id =>
    match entry.1 with
    | .op (.control _ (.setTime time)) =>
      { timeline with initTick := update timeline.initTick id time.toNat }
    | _ => timeline
  | _ => timeline

def timelineOf (time : Id → BitVec 32) (trace : List (Action Id × Event Id)) : Timeline Id :=
  trace.foldl Timeline.note ⟨0, fun id => (time id).toNat, fun _ => 0⟩

theorem timelineOf_snoc (time : Id → BitVec 32) (trace : List (Action Id × Event Id))
    (entry : Action Id × Event Id) :
    timelineOf time (trace ++ [entry]) = (timelineOf time trace).note entry := by
  rw [timelineOf, List.foldl_append]
  rfl

/-- The timeout functions that `rt_timer_check` calls leave the timers alone, and every
init tick that is set is between 1 and `RT_TICK_MAX / 2 - 1`. -/
def Untouched (st : State Id) : Action Id → Prop
  | .op (.control _ (.setTime time)) => st.hard = .idle ∧ 0 < time ∧ time < halfTickMax
  | .op _ => st.hard = .idle
  | _ => True

/-- The hard timers of the list, in an idle state all of them ahead. -/
structure Scheduled (cfg : Config) (idle : Prop) (timeline : Timeline Id)
    (st : State Id) : Prop where
  initTick : ∀ id, timeline.initTick id = (st.timers id).initTick.toNat
  range : ∀ id, 0 < (st.timers id).initTick ∧ (st.timers id).initTick < halfTickMax
  deadline : ∀ id ∈ st.rows .hard cfg.bottom,
    (timeline.deadline id : ℤ) = timeline.ticks + timeLeft st id
  ahead : idle → ∀ id ∈ st.rows .hard cfg.bottom, 0 < timeLeft st id
  activated : ∀ id ∈ st.rows .hard cfg.bottom, (st.timers id).activated = true

variable {cfg : Config} {idle : Prop} {timeline : Timeline Id} {st : State Id}

theorem timeLeft_rtTimerStart (cfg : Config) {id : Id}
    (hfits : (st.timers id).initTick < halfTickMax) :
    timeLeft (rtTimerStart cfg st id) id = (st.timers id).initTick.toNat := by
  rw [timeLeft, timers_rtTimerStart, tick_rtTimerStart]
  exact distance_add hfits

theorem timeLeft_rtTimerStart_of_ne (cfg : Config) {id other : Id} (hne : other ≠ id) :
    timeLeft (rtTimerStart cfg st id) other = timeLeft st other := by
  rw [timeLeft, timers_rtTimerStart_of_ne cfg st id hne, tick_rtTimerStart]
  rfl

theorem initTick_rtTimerStart (cfg : Config) (st : State Id) (id other : Id) :
    ((rtTimerStart cfg st id).timers other).initTick = (st.timers other).initTick := by
  by_cases hne : other = id
  · rw [hne, timers_rtTimerStart]
  · rw [timers_rtTimerStart_of_ne cfg st id hne]

theorem scheduled_rtTimerStart (hinv : Scheduled cfg idle timeline st)
    (hnodup : ∀ kind row, (st.rows kind row).Nodup) (id : Id) :
    Scheduled cfg idle (timeline.start id) (rtTimerStart cfg st id) := by
  have hmem : ∀ other ≠ id, other ∈ (rtTimerStart cfg st id).rows .hard cfg.bottom →
      other ∈ st.rows .hard cfg.bottom := by
    intro other hne hother
    rwa [mem_bottom_rtTimerStart cfg id hnodup, if_neg hne] at hother
  have hleft := timeLeft_rtTimerStart cfg (hinv.range id).2
  refine ⟨fun other => ?_, fun other => ?_, fun other hother => ?_, fun hidle other hother => ?_,
    fun other hother => ?_⟩
  · rw [initTick_rtTimerStart]
    exact hinv.initTick other
  · rw [initTick_rtTimerStart]
    exact hinv.range other
  · by_cases hne : other = id
    · subst hne
      rw [hleft, ← hinv.initTick other]
      simp [Timeline.start]
    · have hold := hinv.deadline other (hmem other hne hother)
      rw [timeLeft_rtTimerStart_of_ne cfg hne]
      simpa [Timeline.start, hne] using hold
  · by_cases hne : other = id
    · subst hne
      have hpos : 0 < (st.timers other).initTick.toNat := (hinv.range other).1
      rw [hleft]
      exact_mod_cast hpos
    · rw [timeLeft_rtTimerStart_of_ne cfg hne]
      exact hinv.ahead hidle other (hmem other hne hother)
  · by_cases hne : other = id
    · rw [hne, timers_rtTimerStart]
    · rw [timers_rtTimerStart_of_ne cfg st id hne]
      exact hinv.activated other (hmem other hne hother)

omit [DecidableEq Id] in
/-- Fewer timers in the list, and no other change to the linked ones. -/
theorem Scheduled.of_subset {idle' : Prop} {next : State Id}
    (hinv : Scheduled cfg idle timeline st) (hidle : idle' → idle)
    (htick : next.tick = st.tick)
    (hinit : ∀ id, (next.timers id).initTick = (st.timers id).initTick)
    (hsubset : ∀ id ∈ next.rows .hard cfg.bottom, id ∈ st.rows .hard cfg.bottom)
    (hsame : ∀ id ∈ next.rows .hard cfg.bottom,
      (next.timers id).timeoutTick = (st.timers id).timeoutTick ∧
        (next.timers id).activated = (st.timers id).activated) :
    Scheduled cfg idle' timeline next := by
  have hleft : ∀ id ∈ next.rows .hard cfg.bottom, timeLeft next id = timeLeft st id := by
    intro id hmem
    rw [timeLeft, timeLeft, htick, (hsame id hmem).1]
  refine ⟨fun id => ?_, fun id => ?_, fun id hmem => ?_, fun hnow id hmem => ?_, fun id hmem => ?_⟩
  · rw [hinit]
    exact hinv.initTick id
  · rw [hinit]
    exact hinv.range id
  · rw [hleft id hmem]
    exact hinv.deadline id (hsubset id hmem)
  · rw [hleft id hmem]
    exact hinv.ahead (hidle hnow) id (hsubset id hmem)
  · rw [(hsame id hmem).2]
    exact hinv.activated id (hsubset id hmem)

theorem scheduled_timerRemove (hinv : Scheduled cfg idle timeline st) (id : Id) :
    Scheduled cfg idle timeline (timerRemove st id) := by
  refine hinv.of_subset (fun hidle => hidle) rfl (fun _ => rfl) (fun other hmem => ?_)
    fun _ _ => ⟨rfl, rfl⟩
  exact List.mem_of_mem_erase hmem

/-- The flag of a timer that is not linked does not matter. -/
theorem scheduled_setActivated (hinv : Scheduled cfg idle timeline st) {id : Id}
    (hnot : id ∉ st.rows .hard cfg.bottom) (activated : Bool) :
    Scheduled cfg idle timeline (setActivated st id activated) := by
  refine hinv.of_subset (fun hidle => hidle) rfl (fun other => ?_) (fun _ hmem => hmem)
    fun other hmem => ?_
  · by_cases hne : other = id
    · rw [hne, setActivated, timers_setTimer]
    · rw [setActivated, timers_setTimer_of_ne st id _ hne]
  · have hne : other ≠ id := fun heq => hnot (heq ▸ hmem)
    rw [setActivated, timers_setTimer_of_ne st id _ hne]
    exact ⟨rfl, rfl⟩

theorem scheduled_endExpiry (hinv : Scheduled cfg idle timeline st)
    (hnodup : ∀ kind row, (st.rows kind row).Nodup) {id : Id}
    (hnot : id ∉ st.rows .hard cfg.bottom) (act : Action Id) :
    Scheduled cfg idle (timeline.note (act, endEvent st id))
      (endExpiry cfg st id) := by
  rw [endEvent, endExpiry]
  split
  · rw [rtTimerStart_setActivated]
    exact scheduled_rtTimerStart hinv hnodup id
  · exact scheduled_setActivated hinv hnot false

/-- A setting that leaves the time and the flag of the timer as they are. -/
theorem scheduled_setTimer (hinv : Scheduled cfg idle timeline st) {id : Id}
    {operation : RtTimer → RtTimer}
    (hsame : ∀ timer, (operation timer).timeoutTick = timer.timeoutTick ∧
      (operation timer).activated = timer.activated)
    (hinit : (operation (st.timers id)).initTick = (st.timers id).initTick) :
    Scheduled cfg idle timeline (setTimer st id operation) := by
  refine hinv.of_subset (fun hidle => hidle) rfl (fun other => ?_) (fun _ hmem => hmem)
    fun other _ => ?_
  · by_cases hne : other = id
    · rw [hne, timers_setTimer, hinit]
    · rw [timers_setTimer_of_ne st id _ hne]
  · by_cases hne : other = id
    · rw [hne, timers_setTimer]
      exact hsame _
    · rw [timers_setTimer_of_ne st id _ hne]
      exact ⟨rfl, rfl⟩

theorem scheduled_setTime (hinv : Scheduled cfg idle timeline st) {time : BitVec 32}
    (hpos : 0 < time) (hlt : time < halfTickMax) (id : Id) :
    Scheduled cfg idle
      { timeline with initTick := update timeline.initTick id time.toNat }
      (setTimer st id fun timer => { timer with initTick := time }) := by
  set next := setTimer st id fun timer => { timer with initTick := time } with hnext
  have htimer : ∀ other, (next.timers other).timeoutTick = (st.timers other).timeoutTick ∧
      (next.timers other).activated = (st.timers other).activated ∧
      (next.timers other).initTick =
        if other = id then time else (st.timers other).initTick := by
    intro other
    by_cases hne : other = id
    · subst hne
      simp [hnext]
    · rw [hnext, timers_setTimer_of_ne st id _ hne]
      simp [hne]
  have hleft : ∀ other, timeLeft next other = timeLeft st other := by
    intro other
    rw [timeLeft, (htimer other).1]
    rfl
  refine ⟨fun other => ?_, fun other => ?_, fun other hmem => ?_, fun hidle other hmem => ?_,
    fun other hmem => ?_⟩
  · rw [(htimer other).2.2]
    by_cases hne : other = id
    · simp [hne]
    · simp [hne, hinv.initTick other]
  · rw [(htimer other).2.2]
    split
    · exact ⟨hpos, hlt⟩
    · exact hinv.range other
  · rw [hleft]
    exact hinv.deadline other hmem
  · rw [hleft]
    exact hinv.ahead hidle other hmem
  · rw [(htimer other).2.1]
    exact hinv.activated other hmem

theorem scheduled_runOp (hinv : Scheduled cfg idle timeline st)
    (hnodup : ∀ kind row, (st.rows kind row).Nodup) {op : Op Id}
    (hquiet : Untouched st (.op op)) :
    Scheduled cfg idle (timeline.note (.op op, (runOp cfg st op).2))
      (runOp cfg st op).1 := by
  cases op with
  | start id => exact scheduled_rtTimerStart hinv hnodup id
  | stop id =>
    simp only [runOp, rtTimerStop]
    split
    · have hnot : id ∉ (timerRemove st id).rows .hard cfg.bottom :=
        (hnodup .hard cfg.bottom).not_mem_erase
      exact scheduled_setActivated (scheduled_timerRemove hinv id) hnot false
    · exact hinv
  | control id cmd =>
    cases cmd with
    | getTime => exact hinv
    | setTime time => exact scheduled_setTime hinv hquiet.2.1 hquiet.2.2 id
    | setOneshot =>
      change Scheduled cfg idle timeline
        (setTimer st id fun timer => { timer with periodic := false })
      exact scheduled_setTimer hinv (fun _ => ⟨rfl, rfl⟩) rfl
    | setPeriodic =>
      change Scheduled cfg idle timeline
        (setTimer st id fun timer => { timer with periodic := true })
      exact scheduled_setTimer hinv (fun _ => ⟨rfl, rfl⟩) rfl

/-- The timers `rt_soft_timer_check` still holds. -/
def SoftPhase.nodes : SoftPhase Id → List Id
  | .idle => []
  | .checking _ n => n.toList
  | .calling id n => id :: n.toList

structure ExpiryInv (cfg : Config) (timeline : Timeline Id) (st : State Id) : Prop where
  scheduled : Scheduled cfg (st.hard = .idle) timeline st
  removed : ∀ id, st.hard = .calling id → id ∉ st.rows .hard cfg.bottom
  soft : ∀ id ∈ st.soft.nodes, cfg.kind (st.timers id) = .soft

variable {record : Record Id} {low : ℤ}

omit [DecidableEq Id] in
/-- When the tick advances, every deadline comes one tick closer. -/
theorem scheduled_tick (hlist : ListInv cfg 0 record st)
    (hinv : Scheduled cfg idle timeline st) (hard : HardPhase Id) :
    Scheduled cfg False { timeline with ticks := timeline.ticks + 1 }
      { st with tick := st.tick + 1, hard := hard } := by
  refine ⟨hinv.initTick, hinv.range, fun id hmem => ?_, False.elim, hinv.activated⟩
  have hleft : distance (st.tick + 1) (st.timers id).timeoutTick = timeLeft st id - 1 :=
    distance_succ (lt_of_lt_of_le (by decide) (hlist.window id hmem).1)
  have hdeadline := hinv.deadline id hmem
  rw [timeLeft, hleft, hdeadline, Nat.cast_add, Nat.cast_one]
  ring

omit [DecidableEq Id] in
theorem Scheduled.setPhases {idle' : Prop} (hinv : Scheduled cfg idle timeline st)
    (hidle : idle' → idle) (hard : HardPhase Id) (soft : SoftPhase Id) :
    Scheduled cfg idle' timeline { st with hard := hard, soft := soft } :=
  hinv.of_subset hidle rfl (fun _ => rfl) (fun _ hmem => hmem) fun _ _ => ⟨rfl, rfl⟩

theorem kind_nextNode (hlist : ListInv cfg low record st) {id other : Id}
    (hid : cfg.kind (st.timers id) = .soft)
    (hnext : nextNode cfg st .soft id = some other) :
    cfg.kind (st.timers other) = .soft := by
  rw [nextNode] at hnext
  split at hnext
  · have hmem : other ∈ st.rows .soft cfg.bottom :=
      ((List.tail_sublist _).trans (List.dropWhile_sublist _)).subset
        (List.mem_of_mem_head? hnext)
    exact (hlist.own .soft cfg.bottom other hmem).symm
  · rwa [← Option.some.inj hnext]

omit [DecidableEq Id] in
theorem due_eq_some {currentTick : BitVec 32} {node : Option Id} {id : Id}
    (hdue : due st currentTick node = some id) :
    node = some id ∧ expired currentTick (st.timers id) = true := by
  rw [due, Option.filter_eq_some_iff] at hdue
  exact hdue

omit [DecidableEq Id] in
theorem Untouched.initTicksFit {act : Action Id} (hquiet : Untouched st act) :
    InitTicksFit st act := by
  cases act with
  | op op =>
    cases op with
    | control id cmd =>
      cases cmd with
      | setTime time => exact hquiet.2.2
      | _ => trivial
    | _ => trivial
  | _ => trivial

omit [DecidableEq Id] in
theorem Untouched.hard_eq {op : Op Id} (hquiet : Untouched st (.op op)) :
    st.hard = .idle := by
  cases op with
  | control id cmd =>
    cases cmd with
    | setTime time => exact hquiet.1
    | _ => exact hquiet
  | _ => exact hquiet

theorem expiryInv_step {next : State Id} {act : Action Id} {event : Event Id}
    (horder : OrderInv cfg record st) (hinv : ExpiryInv cfg timeline st)
    (hquiet : Untouched st act)
    (hstep : step cfg st act = some (next, event)) :
    ExpiryInv cfg (timeline.note (act, event)) next := by
  have hscheduled := hinv.scheduled
  have hlist := horder.list
  cases act with
  | op op =>
    have hidle := hquiet.hard_eq
    have hnext := scheduled_runOp hscheduled hlist.nodup hquiet
    have hhard := hard_runOp cfg st op
    have hsoft := soft_runOp cfg st op
    have hkind := kind_runOp cfg st op
    simp only [step, hidle, Option.some.injEq] at hstep
    rw [hstep] at hnext hhard hsoft hkind
    refine ⟨?_, fun id hcalling => ?_, fun id hmem => ?_⟩
    · rw [hhard]
      exact hnext
    · rw [hhard, hidle] at hcalling
      cases hcalling
    · rw [hsoft] at hmem
      rw [hkind]
      exact hinv.soft id hmem
  | tick =>
    simp only [step] at hstep
    split at hstep
    · next hidle =>
        rw [hidle] at hlist
        cases hstep
        refine ⟨?_, (fun _ hcalling => by cases hcalling), hinv.soft⟩
        exact (scheduled_tick hlist hscheduled .idle).setPhases (fun hidle => by cases hidle) _ _
    · contradiction
  | check =>
    simp only [step] at hstep
    split at hstep
    · next hidle =>
        cases hstep
        exact ⟨hscheduled.setPhases (fun _ => hidle) _ _,
          (fun _ hcalling => by cases hcalling), hinv.soft⟩
    · contradiction
  | loop =>
    simp only [step] at hstep
    split at hstep
    · next currentTick hchecking =>
        split at hstep
        · next id hdue =>
            cases hstep
            refine ⟨?_, fun other hcalling => ?_, hinv.soft⟩
            · exact (scheduled_timerRemove hscheduled id).setPhases
                (fun hidle => by cases hidle) _ _
            · rw [← HardPhase.calling.inj hcalling]
              exact (hlist.nodup .hard cfg.bottom).not_mem_erase
        · next hnone =>
            cases hstep
            rw [horder.current currentTick hchecking] at hnone
            rw [hchecking] at hlist
            have hahead : Scheduled cfg True timeline st :=
              ⟨hscheduled.initTick, hscheduled.range, hscheduled.deadline,
                fun _ id hmem => hlist.ahead_of_not_due hnone hmem, hscheduled.activated⟩
            exact ⟨hahead.setPhases (fun _ => trivial) _ _,
              (fun _ hcalling => by cases hcalling), hinv.soft⟩
    · contradiction
  | finish =>
    simp only [step] at hstep
    split at hstep
    · next id hcalling =>
        cases hstep
        have hnext :=
          scheduled_endExpiry hscheduled hlist.nodup (hinv.removed id hcalling) .finish
        refine ⟨hnext.setPhases (fun hidle => by cases hidle) _ _,
          (fun _ hcalling => by cases hcalling), fun other hmem => ?_⟩
        have hmem : other ∈ (endExpiry cfg st id).soft.nodes := hmem
        rw [soft_endExpiry] at hmem
        exact (kind_endExpiry cfg st id other).trans (hinv.soft other hmem)
    · contradiction
  | softCheck =>
    simp only [step] at hstep
    split at hstep
    · next hidle hsoft =>
        cases hstep
        refine ⟨hscheduled.setPhases (fun hidle => hidle) _ _, hinv.removed, fun id hmem => ?_⟩
        have hfirst : id ∈ st.rows .soft cfg.bottom :=
          List.mem_of_mem_head? (Option.mem_toList.1 hmem)
        exact (hlist.own .soft cfg.bottom id hfirst).symm
    · contradiction
  | softLoop =>
    simp only [step] at hstep
    split at hstep
    · next currentTick n hidle hchecking =>
        have hnode : ∀ id, n = some id → cfg.kind (st.timers id) = .soft := by
          intro id hn
          apply hinv.soft id
          simp [hchecking, SoftPhase.nodes, hn]
        split at hstep
        · next id hdue =>
            cases hstep
            have hid := hnode id (due_eq_some hdue).1
            refine ⟨(scheduled_timerRemove hscheduled id).setPhases (fun hidle => hidle) _ _,
              fun other hcalling => ?_, fun other hmem => ?_⟩
            · cases hidle.symm.trans hcalling
            · rcases List.mem_cons.1 hmem with rfl | hnext
              · exact hid
              · exact kind_nextNode hlist hid (Option.mem_toList.1 hnext)
        · cases hstep
          exact ⟨hscheduled.setPhases (fun hidle => hidle) _ _, hinv.removed,
            fun _ hmem => by cases hmem⟩
    · contradiction
  | softFinish =>
    simp only [step] at hstep
    split at hstep
    · next id n hidle hcalling =>
        cases hstep
        have hkind : cfg.kind (st.timers id) = .soft := by
          apply hinv.soft id
          simp [hcalling, SoftPhase.nodes]
        have hnot : id ∉ st.rows .hard cfg.bottom := by
          intro hmem
          have hhard := hlist.own .hard cfg.bottom id hmem
          rw [hkind] at hhard
          cases hhard
        have hnext := scheduled_endExpiry hscheduled hlist.nodup hnot .softFinish
        have hhard := hard_endExpiry cfg st id
        refine ⟨hnext.setPhases (fun hother => hhard ▸ hother) _ _,
          fun other hother => ?_, fun other hmem => ?_⟩
        · have hother : (endExpiry cfg st id).hard = .calling other := hother
          rw [hhard, hidle] at hother
          cases hother
        · have hold : other ∈ st.soft.nodes := by
            rw [hcalling]
            exact List.mem_cons_of_mem id hmem
          exact (kind_endExpiry cfg st id other).trans (hinv.soft other hold)
    · contradiction

omit [DecidableEq Id] in
theorem expiryInv_initial (cfg : Config) (tick : BitVec 32) {time : Id → BitVec 32}
    (periodic softTimer : Id → Bool) (htime : ∀ id, 0 < time id ∧ time id < halfTickMax) :
    ExpiryInv cfg ⟨0, fun id => (time id).toNat, fun _ => 0⟩
      (initial tick time periodic softTimer) := by
  refine ⟨⟨fun _ => rfl, htime, ?_, ?_, ?_⟩, (fun _ hcalling => by cases hcalling),
    fun _ hmem => by cases hmem⟩
  · exact fun id hmem => absurd hmem List.not_mem_nil
  · exact fun _ id hmem => absurd hmem List.not_mem_nil
  · exact fun id hmem => absurd hmem List.not_mem_nil

theorem expiryInv_run {tick : BitVec 32} {time : Id → BitVec 32} {periodic softTimer : Id → Bool}
    {trace : List (Action Id × Event Id)} (htime : ∀ id, 0 < time id ∧ time id < halfTickMax)
    (hrun : (machine cfg).RunWith Untouched (initial tick time periodic softTimer)
      trace st) :
    OrderInv cfg (recordOf trace) st ∧ ExpiryInv cfg (timelineOf time trace) st := by
  refine hrun.traceInvariant
    (fun past st => OrderInv cfg (recordOf past) st ∧
      ExpiryInv cfg (timelineOf time past) st)
    (fun past st act next event hinv hquiet hstep => ?_)
    ⟨orderInv_initial cfg tick periodic softTimer fun id => (htime id).2,
      expiryInv_initial cfg tick periodic softTimer htime⟩
  rw [recordOf_snoc, timelineOf_snoc]
  exact ⟨orderInv_step hinv.1 hquiet.initTicksFit hstep, expiryInv_step hinv.1 hinv.2 hquiet hstep⟩

/-! ## One check -/

/-- The timers a check finds expired, in the order of the list. -/
def dueTimers (cfg : Config) (st : State Id) : List Id :=
  (st.rows .hard cfg.bottom).filter fun id => expired st.tick (st.timers id)

/-- What becomes of an active timer that has expired. -/
def settled (tick : BitVec 32) (timer : RtTimer) : RtTimer :=
  if timer.periodic then { timer with timeoutTick := tick + timer.initTick }
  else { timer with activated := false }

omit [DecidableEq Id] in
/-- The check looks at the first timer only, and this suffices. -/
theorem due_firstTimer (hlist : ListInv cfg (-1) record st) :
    due st st.tick (firstTimer cfg st .hard) = (dueTimers cfg st).head? := by
  cases hdue : due st st.tick (firstTimer cfg st .hard) with
  | none =>
    have hnone : dueTimers cfg st = [] := by
      rw [dueTimers, List.filter_eq_nil_iff]
      intro id hmem hexpired
      have hahead := hlist.ahead_of_not_due hdue hmem
      exact absurd ((hlist.expired_iff hmem).1 hexpired) (not_le.2 hahead)
    rw [hnone]
    rfl
  | some id =>
    obtain ⟨hfirst, hexpired⟩ := due_eq_some hdue
    obtain ⟨rest, hrest⟩ := List.head?_eq_some_iff.1 hfirst
    simp [dueTimers, hrest, hexpired]

omit [DecidableEq Id] in
/-- A periodic timer that has been started again has not expired. -/
theorem not_expired_settled {tick : BitVec 32} {timer : RtTimer} (hperiodic : timer.periodic = true)
    (hrange : 0 < timer.initTick ∧ timer.initTick < halfTickMax) :
    ¬ expired tick (settled tick timer) = true := by
  have hleft : distance tick (tick + timer.initTick) = timer.initTick.toNat :=
    distance_add hrange.2
  have hpos : 0 < timer.initTick.toNat := hrange.1
  have hlt : timer.initTick.toNat < 0x7fffffff := hrange.2
  have hwindow : InWindow tick (tick + timer.initTick) := by
    constructor <;> omega
  rw [expired, settled, if_pos hperiodic, decide_eq_true_eq]
  intro hreached
  have hpassed := (reached_iff hwindow).1 hreached
  omega

section Turn

variable (hlist : ListInv cfg (-1) record st)
  (hscheduled : Scheduled cfg False timeline st) {id : Id}
  (hmem : id ∈ st.rows .hard cfg.bottom)

theorem timers_endExpiry_of_ne (cfg : Config) (st : State Id) {id other : Id}
    (hne : other ≠ id) :
    (endExpiry cfg (timerRemove st id) id).timers other = st.timers other := by
  rw [endExpiry]
  split
  · rw [rtTimerStart_setActivated, timers_rtTimerStart_of_ne cfg _ id hne]
    rfl
  · rw [setActivated, timers_setTimer_of_ne _ id _ hne]
    rfl

theorem erase_endExpiry (hlist : ListInv cfg (-1) record st) (id : Id) :
    ((endExpiry cfg (timerRemove st id) id).rows .hard cfg.bottom).erase id =
      (st.rows .hard cfg.bottom).erase id := by
  have hremoved := (listInv_timerRemove hlist id).nodup
  have hnot : id ∉ (st.rows .hard cfg.bottom).erase id :=
    (hlist.nodup .hard cfg.bottom).not_mem_erase
  rw [endExpiry]
  split
  · rw [rtTimerStart_setActivated, erase_rtTimerStart cfg id hremoved, rows_timerRemove,
      List.erase_of_not_mem hnot]
  · rw [setActivated, rows_setTimer, rows_timerRemove, List.erase_of_not_mem hnot]

/-- After a turn of the loop that leaves the timer unexpired, the expired timers are the
others. -/
theorem dueTimers_of_not_mem (hlist : ListInv cfg (-1) record st) {id : Id}
    (hself : id ∉ dueTimers cfg (endExpiry cfg (timerRemove st id) id)) :
    dueTimers cfg (endExpiry cfg (timerRemove st id) id) =
      (dueTimers cfg st).erase id := by
  have herase := erase_endExpiry hlist id
  set next := endExpiry cfg (timerRemove st id) id with hnext
  have htick : next.tick = st.tick := tick_endExpiry cfg (timerRemove st id) id
  have hsame : ∀ other ∈ (st.rows .hard cfg.bottom).erase id,
      expired next.tick (next.timers other) = expired st.tick (st.timers other) := by
    intro other hother
    have hne : other ≠ id := ((hlist.nodup .hard cfg.bottom).mem_erase_iff.1 hother).1
    rw [htick, hnext, timers_endExpiry_of_ne cfg st hne]
  calc dueTimers cfg next
    _ = (dueTimers cfg next).erase id := (List.erase_of_not_mem hself).symm
    _ = ((next.rows .hard cfg.bottom).erase id).filter
          fun other => expired next.tick (next.timers other) := List.erase_filter
    _ = ((st.rows .hard cfg.bottom).erase id).filter
          fun other => expired st.tick (st.timers other) := by
        rw [herase]
        exact List.filter_congr hsame
    _ = (dueTimers cfg st).erase id := List.erase_filter.symm

include hscheduled hmem

theorem timers_endExpiry :
    (endExpiry cfg (timerRemove st id) id).timers id =
      settled st.tick (st.timers id) := by
  have hactivated := hscheduled.activated id hmem
  rw [endExpiry, rearms, timers_timerRemove, hactivated, Bool.and_true, settled]
  split
  · rw [rtTimerStart_setActivated, timers_rtTimerStart]
    simp [hactivated]
  · simp [setActivated]

include hlist

theorem linked_endExpiry :
    id ∈ (endExpiry cfg (timerRemove st id) id).rows .hard cfg.bottom ↔
      (st.timers id).periodic = true := by
  have hactivated := hscheduled.activated id hmem
  have hkind := hlist.own .hard cfg.bottom id hmem
  have hremoved := (listInv_timerRemove hlist id).nodup
  have hnot : id ∉ (st.rows .hard cfg.bottom).erase id :=
    (hlist.nodup .hard cfg.bottom).not_mem_erase
  rw [endExpiry, rearms, timers_timerRemove, hactivated, Bool.and_true]
  split
  · next hperiodic =>
      rw [rtTimerStart_setActivated, mem_bottom_rtTimerStart cfg id hremoved, if_pos rfl]
      exact ⟨fun _ => hperiodic, fun _ => hkind⟩
  · next hperiodic =>
      rw [setActivated, rows_setTimer, rows_timerRemove]
      exact ⟨fun hself => absurd hself hnot, fun hself => absurd hself hperiodic⟩

/-- After a turn of the loop, the expired timers are the others. -/
theorem dueTimers_endExpiry :
    dueTimers cfg (endExpiry cfg (timerRemove st id) id) =
      (dueTimers cfg st).erase id := by
  have hlinked := linked_endExpiry hlist hscheduled hmem
  refine dueTimers_of_not_mem hlist fun hdue => ?_
  obtain ⟨hbottom, hexpired⟩ := List.mem_filter.1 hdue
  rw [tick_endExpiry, timers_endExpiry hscheduled hmem] at hexpired
  exact absurd hexpired (not_expired_settled (hlinked.1 hbottom) (hscheduled.range id))

end Turn

/-- What a check leaves behind that has called the timers `calls`. -/
structure Checked (cfg : Config) (st : State Id) (calls : List Id) (last : State Id) :
    Prop where
  tick : last.tick = st.tick
  timers : ∀ id, last.timers id =
    if id ∈ calls then settled st.tick (st.timers id) else st.timers id
  linked : ∀ id, id ∈ last.rows .hard cfg.bottom ↔
    if id ∈ calls then (st.timers id).periodic = true
    else id ∈ st.rows .hard cfg.bottom

/-- The timers whose timeout functions a run calls. -/
def callsOf (trace : List (Action Id × Event Id)) : List Id :=
  trace.filterMap fun entry =>
    match entry.2 with
    | .called id => some id
    | _ => none

omit [DecidableEq Id] in
theorem callsOf_turn (st : State Id) (id : Id) (trace : List (Action Id × Event Id)) :
    callsOf ((.loop, .called id) :: (.finish, endEvent st id) :: trace) =
      id :: callsOf trace := by
  have hend : endEvent st id = .rearmed id ∨ endEvent st id = .expired id := by
    rw [endEvent]
    split
    · exact .inl rfl
    · exact .inr rfl
  rcases hend with hend | hend
  · rw [hend]
    rfl
  · rw [hend]
    rfl

theorem endExpiry_setHard (cfg : Config) (st : State Id) (id : Id)
    (hard hard' : HardPhase Id) :
    ({ endExpiry cfg { st with hard := hard } id with hard := hard' } : State Id) =
      { endExpiry cfg st id with hard := hard' } := by
  rw [endExpiry, endExpiry]
  split <;> rfl

theorem step_loop {id : Id}
    (hdue : due st st.tick (firstTimer cfg st .hard) = some id) :
    (machine cfg).step { st with hard := .checking st.tick } .loop =
      some ({ timerRemove st id with hard := .calling id }, .called id) := by
  have hfirst : due { st with hard := .checking st.tick } st.tick
      (firstTimer cfg { st with hard := .checking st.tick } .hard) = some id := hdue
  simp only [machine, step, hfirst]
  rfl

theorem step_loop_none (hdue : due st st.tick (firstTimer cfg st .hard) = none) :
    (machine cfg).step { st with hard := .checking st.tick } .loop =
      some ({ st with hard := .idle }, .left) := by
  have hfirst : due { st with hard := .checking st.tick } st.tick
      (firstTimer cfg { st with hard := .checking st.tick } .hard) = none := hdue
  simp only [machine, step, hfirst]

theorem step_finish (cfg : Config) (st : State Id) (id : Id) :
    (machine cfg).step { st with hard := .calling id } .finish =
      some ({ endExpiry cfg st id with hard := .checking st.tick },
        endEvent st id) := by
  simp only [machine, step]
  rw [endExpiry_setHard]
  rfl

/-- One turn of the loop, then the rest of the check. -/
theorem Checked.turn {id : Id} {rest : List Id} {last : State Id}
    (hlist : ListInv cfg (-1) record st) (hscheduled : Scheduled cfg False timeline st)
    (hmem : id ∈ st.rows .hard cfg.bottom) (hnot : id ∉ rest)
    (hchecked : Checked cfg (endExpiry cfg (timerRemove st id) id) rest last) :
    Checked cfg st (id :: rest) last := by
  have hlinked := linked_endExpiry hlist hscheduled hmem
  have herase := erase_endExpiry hlist id
  have htick : (endExpiry cfg (timerRemove st id) id).tick = st.tick :=
    tick_endExpiry cfg (timerRemove st id) id
  refine ⟨hchecked.tick.trans htick, fun other => ?_, fun other => ?_⟩
  · rw [hchecked.timers other, htick]
    by_cases hne : other = id
    · subst hne
      rw [if_neg hnot, if_pos List.mem_cons_self, timers_endExpiry hscheduled hmem]
    · rw [timers_endExpiry_of_ne cfg st hne]
      simp [hne]
  · rw [hchecked.linked other]
    by_cases hne : other = id
    · subst hne
      rw [if_neg hnot, if_pos List.mem_cons_self]
      exact hlinked
    · have hplace : other ∈ (endExpiry cfg (timerRemove st id) id).rows .hard cfg.bottom ↔
          other ∈ st.rows .hard cfg.bottom := by
        rw [← List.mem_erase_of_ne hne, herase, List.mem_erase_of_ne hne]
      rw [timers_endExpiry_of_ne cfg st hne, hplace]
      simp [hne]

/-- The loop of `rt_timer_check` calls the expired timers in the order of the list, and
returns. -/
theorem checkLoop_untouched {calls : List Id} (hlist : ListInv cfg (-1) record st)
    (hscheduled : Scheduled cfg False timeline st)
    (hcalls : dueTimers cfg st = calls) :
    ∃ last trace,
      (∀ fuel called, calls.length < fuel →
        checkLoop cfg .hard (fun _ => []) fuel st.tick called st =
          ⟨called ++ calls, true, last⟩) ∧
      Checked cfg st calls last ∧ callsOf trace = calls ∧
      (machine cfg).RunWith Untouched { st with hard := .checking st.tick } trace
        { last with hard := .idle } := by
  have hdue := due_firstTimer hlist
  rw [hcalls] at hdue
  induction calls generalizing st record timeline with
  | nil =>
    refine ⟨st, [(.loop, .left)], fun fuel called hfuel => ?_, ?_, rfl, ?_⟩
    · obtain ⟨turns, rfl⟩ := Nat.exists_eq_add_of_lt hfuel
      simp [checkLoop, hdue]
    · exact ⟨rfl, fun _ => rfl, fun _ => Iff.rfl⟩
    · exact .cons trivial (step_loop_none hdue) (.nil _)
  | cons id rest ih =>
    have hmem : id ∈ st.rows .hard cfg.bottom := by
      have hfirst : id ∈ dueTimers cfg st := by simp [hcalls]
      exact (List.mem_filter.1 hfirst).1
    have hnodup : (id :: rest).Nodup := hcalls ▸ (hlist.nodup .hard cfg.bottom).filter _
    have hnot : id ∉ rest := (List.nodup_cons.1 hnodup).1
    have hremoved : id ∉ (timerRemove st id).rows .hard cfg.bottom :=
      (hlist.nodup .hard cfg.bottom).not_mem_erase
    set next := endExpiry cfg (timerRemove st id) id with hnext
    have htick : next.tick = st.tick := tick_endExpiry cfg (timerRemove st id) id
    have hlist' := listInv_endExpiry (listInv_timerRemove hlist id) le_rfl (by decide) id
    have hscheduled' := scheduled_endExpiry (scheduled_timerRemove hscheduled id)
      (listInv_timerRemove hlist id).nodup hremoved .finish
    have hrest : dueTimers cfg next = rest := by
      rw [hnext, dueTimers_endExpiry hlist hscheduled hmem, hcalls, List.erase_cons_head]
    have hdue' := due_firstTimer hlist'
    rw [← hnext, hrest] at hdue'
    obtain ⟨last, trace, hloop, hchecked, htrace, hrun⟩ := ih hlist' hscheduled' hrest hdue'
    have hrun' : (machine cfg).RunWith Untouched
        { next with hard := .checking st.tick } trace { last with hard := .idle } := by
      rw [← htick]
      exact hrun
    refine ⟨last, (.loop, .called id) :: (.finish, endEvent (timerRemove st id) id) :: trace,
      fun fuel called hfuel => ?_, hchecked.turn hlist hscheduled hmem hnot, ?_, ?_⟩
    · obtain ⟨turns, rfl⟩ := Nat.exists_eq_add_of_lt hfuel
      have hturns : rest.length < rest.length + 1 + turns := by omega
      have hnextLoop := hloop (rest.length + 1 + turns) (called ++ [id]) hturns
      rw [List.append_assoc] at hnextLoop
      rw [List.length_cons, checkLoop, hdue]
      exact hnextLoop
    · rw [callsOf_turn, htrace]
    · exact .cons trivial (step_loop hdue) (.cons trivial (step_finish cfg _ id) hrun')

/-- What the check after a tick has done, when it returns in `last` and has called the
timeout functions of `calls`. -/
structure Expires (cfg : Config) (timeline : Timeline Id) (st : State Id) (calls : List Id)
    (last : State Id) : Prop where
  once : calls.Nodup
  reached : ∀ id, id ∈ calls ↔ id ∈ st.rows .hard cfg.bottom ∧
    expired (st.tick + 1) (st.timers id) = true
  onTime : ∀ id, id ∈ calls ↔ id ∈ st.rows .hard cfg.bottom ∧
    timeline.deadline id = timeline.ticks + 1
  sorted : calls.Pairwise fun left right =>
    timeLeft { st with tick := st.tick + 1 } left ≤
      timeLeft { st with tick := st.tick + 1 } right
  rearmed : ∀ id ∈ calls, (st.timers id).periodic = true →
    id ∈ last.rows .hard cfg.bottom ∧ (last.timers id).activated = true ∧
      (last.timers id).timeoutTick = st.tick + 1 + (st.timers id).initTick
  stopped : ∀ id ∈ calls, (st.timers id).periodic = false →
    id ∉ last.rows .hard cfg.bottom ∧ (last.timers id).activated = false
  others : ∀ id, id ∉ calls → last.timers id = st.timers id ∧
    (id ∈ last.rows .hard cfg.bottom ↔ id ∈ st.rows .hard cfg.bottom)

theorem expires_of_checked {last : State Id} (hlist : ListInv cfg 0 record st)
    (hscheduled : Scheduled cfg True timeline st)
    (hchecked : Checked cfg { st with tick := st.tick + 1 }
      (dueTimers cfg { st with tick := st.tick + 1 }) last) :
    Expires cfg timeline st (dueTimers cfg { st with tick := st.tick + 1 })
      last := by
  set now : State Id := { st with tick := st.tick + 1 } with hnow
  have hlistNow : ListInv cfg (-1) record now := listInv_tick hlist st.hard
  have hmem : ∀ id, id ∈ dueTimers cfg now ↔ id ∈ st.rows .hard cfg.bottom ∧
      expired (st.tick + 1) (st.timers id) = true := fun id => List.mem_filter
  refine ⟨(hlist.nodup .hard cfg.bottom).filter _, hmem, fun id => ?_, ?_,
    fun id hcall hperiodic => ?_, fun id hcall hperiodic => ?_, fun id hcall => ?_⟩
  · rw [hmem]
    refine and_congr_right fun hlinked => ?_
    have hleft : timeLeft now id = timeLeft st id - 1 :=
      distance_succ (lt_of_lt_of_le (by decide) (hlist.window id hlinked).1)
    have hdeadline := hscheduled.deadline id hlinked
    have hahead := hscheduled.ahead trivial id hlinked
    rw [show expired (st.tick + 1) (st.timers id) = expired now.tick (now.timers id) from rfl,
      hlistNow.expired_iff hlinked, hleft]
    omega
  · refine List.Pairwise.imp (fun {left right} hbefore => ?_)
      ((hlistNow.ordered cfg.bottom (bottom_lt cfg)).sublist List.filter_sublist)
    exact hbefore.elim (fun hlt => hlt.le) fun heq => heq.1.le
  · have htimer := hchecked.timers id
    rw [if_pos hcall, settled, if_pos hperiodic] at htimer
    have hactivated := hscheduled.activated id ((hmem id).1 hcall).1
    rw [htimer, hchecked.linked id, if_pos hcall]
    exact ⟨hperiodic, hactivated, rfl⟩
  · have hnot : ¬ (now.timers id).periodic = true := by
      rw [hnow, hperiodic]
      exact Bool.false_ne_true
    have htimer := hchecked.timers id
    rw [if_pos hcall, settled, if_neg hnot] at htimer
    rw [htimer, hchecked.linked id, if_pos hcall]
    exact ⟨hnot, rfl⟩
  · have htimer := hchecked.timers id
    have hlinked := hchecked.linked id
    rw [if_neg hcall] at htimer hlinked
    exact ⟨htimer, hlinked⟩

/-- Any timers, started and stopped between the ticks with init ticks from 1 to
`RT_TICK_MAX / 2 - 1`, and any number of ticks, also beyond the wrap-around: no timer
that runs has been passed over, and the check after the next tick returns and has
called exactly the timers that reach their timeout tick, in the order of their timeouts
and each once.  These are the timers whose start lies exactly their init tick back.  A
periodic one times out again its init tick from now, a one-shot timer becomes inactive,
and the others are as before.  The check is a run of the machine, so that the same
holds of the ticks after it. -/
theorem timerCheck_calls_due {tick : BitVec 32} {time : Id → BitVec 32}
    {periodic softTimer : Id → Bool} {trace : List (Action Id × Event Id)}
    (htime : ∀ id, 0 < time id ∧ time id < halfTickMax)
    (hrun : (machine cfg).RunWith Untouched (initial tick time periodic softTimer) trace st)
    (hidle : st.hard = .idle) :
    (∀ id, cfg.kind (st.timers id) = .hard → (recordOf trace).running id = true →
      id ∈ st.rows .hard cfg.bottom ∧
        (timelineOf time trace).ticks < (timelineOf time trace).deadline id) ∧
    ∃ turns, ∃ last : State Id, ∃ calls trace',
      (∀ fuel, turns ≤ fuel →
        rtTimerCheck cfg (fun _ => []) fuel { st with tick := st.tick + 1 } =
          ⟨calls, true, last⟩) ∧
      Expires cfg (timelineOf time trace) st calls last ∧
      (machine cfg).RunWith Untouched st ((.tick, .ticked) :: trace')
        { last with hard := .idle } ∧
      callsOf trace' = calls := by
  obtain ⟨horder, hexpiry⟩ := expiryInv_run htime hrun
  have hlist := horder.list
  have hscheduled : Scheduled cfg True (timelineOf time trace) st := by
    have hphases := hexpiry.scheduled.setPhases (fun _ : True => hidle) st.hard st.soft
    exact hphases
  rw [hidle] at hlist
  constructor
  · intro id hkind hrunning
    have hmem := (hlist.running id hkind).2 hrunning
    have hdeadline := hscheduled.deadline id hmem
    have hahead := hscheduled.ahead trivial id hmem
    exact ⟨hmem, by omega⟩
  · have hlistNow := listInv_tick hlist st.hard
    have hscheduledNow := scheduled_tick hlist hscheduled st.hard
    obtain ⟨last, trace', hloop, hchecked, hcalls, hcheck⟩ :=
      checkLoop_untouched hlistNow hscheduledNow rfl
    refine ⟨_, last, _, trace', fun fuel hfuel => hloop fuel [] hfuel,
      expires_of_checked hlist hscheduled hchecked, .cons trivial ?_ hcheck, hcalls⟩
    simp only [machine, step, hidle]

instance (st : State Id) (act : Action Id) : Decidable (Untouched st act) :=
  match act with
  | .op (.control _ (.setTime time)) =>
    inferInstanceAs (Decidable (st.hard = .idle ∧ 0 < time ∧ time < halfTickMax))
  | .op (.control _ .getTime) => inferInstanceAs (Decidable (st.hard = .idle))
  | .op (.control _ .setOneshot) => inferInstanceAs (Decidable (st.hard = .idle))
  | .op (.control _ .setPeriodic) => inferInstanceAs (Decidable (st.hard = .idle))
  | .op (.start _) => inferInstanceAs (Decidable (st.hard = .idle))
  | .op (.stop _) => inferInstanceAs (Decidable (st.hard = .idle))
  | .tick | .check | .loop | .finish => isTrue trivial
  | .softCheck | .softLoop | .softFinish => isTrue trivial

/-- A periodic and a one-shot timer time out together at the wrap-around. -/
theorem timerCheck_calls_due_wrapAround :
    ∃ trace, ∃ st : State (Fin 2),
      (machine twoRows).RunWith Untouched
        (initial 0xfffffffe (fun id => if id = 0 then 2 else 1) (fun id => id = 0) fun _ => false)
        trace st ∧
      st.hard = .idle ∧ st.tick = 0xffffffff ∧ st.rows .hard 1 = [0, 1] ∧
      ∃ turns, ∃ last : State (Fin 2), ∃ calls trace',
        (∀ fuel, turns ≤ fuel →
          rtTimerCheck twoRows (fun _ => []) fuel { st with tick := st.tick + 1 } =
            ⟨calls, true, last⟩) ∧
        Expires twoRows (timelineOf (fun id => if id = 0 then 2 else 1) trace) st calls last ∧
        (machine twoRows).RunWith Untouched st ((.tick, .ticked) :: trace')
          { last with hard := .idle } ∧
        callsOf trace' = calls := by
  have hrun : (machine twoRows).RunWith Untouched
      (initial 0xfffffffe (fun id : Fin 2 => if id = 0 then 2 else 1) (fun id => id = 0)
        fun _ => false) _ _ :=
    Machine.runWith_of_exec [.op (.start 0), .tick, .loop, .op (.start 1)] rfl
  exact ⟨_, _, hrun, rfl, rfl, by decide, (timerCheck_calls_due (by decide) hrun rfl).2⟩

end RtThread.Timer
