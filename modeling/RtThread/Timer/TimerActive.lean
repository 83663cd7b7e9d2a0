import RtThread.Timer.Timer

set_option linter.all false

/-!
# The active flag of a timer

`rt_timer_stop` refuses a timer whose active flag is clear, so the flag has to say
whether the timer is linked.  While the timeout function of a timer runs, its timer
is off the list and still flagged; both checks settle the flag when the function
returns.  They start a periodic timer again and clear the flag of any other, also
when the timeout function has itself started its timer again.
-/

namespace RtThread.Timer

open RtThread.Core
open RtThread.Kernel

variable {Id : Type*} (cfg : Config)

/-- The timer is linked in the bottom row of its list. -/
def Linked (st : State Id) (id : Id) : Prop :=
  id ∈ st.rows (cfg.kind (st.timers id)) cfg.bottom

instance [DecidableEq Id] (st : State Id) (id : Id) : Decidable (Linked cfg st id) :=
  inferInstanceAs (Decidable (_ ∈ _))

/-- The timeout function of the timer runs. -/
def InCallback (st : State Id) (id : Id) : Prop :=
  st.hard = .calling id ∨ ∃ n, st.soft = .calling id n

/-- A timer is flagged exactly when it is linked, unless its timeout function runs. -/
structure ActiveInv (st : State Id) : Prop where
  nodup : ∀ kind row, (st.rows kind row).Nodup
  own : ∀ kind, ∀ id ∈ st.rows kind cfg.bottom, kind = cfg.kind (st.timers id)
  activated : ∀ id, Linked cfg st id → (st.timers id).activated = true
  linked : ∀ id, (st.timers id).activated = true →
    Linked cfg st id ∨ InCallback st id

theorem activeInv_initial (tick : BitVec 32) (time : Id → BitVec 32)
    (periodic softTimer : Id → Bool) :
    ActiveInv cfg (initial tick time periodic softTimer) where
  nodup _ _ := List.nodup_nil
  own kind id hmem := by simp [initial] at hmem
  activated id hlinked := by simp [Linked, initial] at hlinked
  linked id hactivated := by simp [initial, rtTimerInit] at hactivated

variable {cfg} [DecidableEq Id]

variable {st : State Id}

/-- A start flags its timer and links it in its own list. -/
theorem activeInv_rtTimerStart (hinv : ActiveInv cfg st) (id : Id) :
    ActiveInv cfg (rtTimerStart cfg st id) := by
  have hmem := mem_bottom_rtTimerStart cfg id hinv.nodup
  have hkind : cfg.kind ((rtTimerStart cfg st id).timers id) =
      cfg.kind (st.timers id) := by
    simp [Config.kind]
  refine ⟨nodup_rtTimerStart cfg id hinv.nodup, fun kind other hother => ?_,
    fun other hother => ?_, fun other hactivated => ?_⟩
  · rw [hmem] at hother
    by_cases hne : other = id
    · subst hne
      rw [hkind]
      simpa using hother
    · rw [timers_rtTimerStart_of_ne cfg st id hne]
      exact hinv.own kind other (by simpa [hne] using hother)
  · by_cases hne : other = id
    · subst hne
      simp
    · rw [Linked, hmem, if_neg hne, timers_rtTimerStart_of_ne cfg st id hne] at hother
      rw [timers_rtTimerStart_of_ne cfg st id hne]
      exact hinv.activated other hother
  · by_cases hne : other = id
    · subst hne
      left
      rw [Linked, hmem, if_pos rfl, hkind]
    · rw [timers_rtTimerStart_of_ne cfg st id hne] at hactivated
      rw [Linked, hmem, if_neg hne, timers_rtTimerStart_of_ne cfg st id hne]
      exact hinv.linked other hactivated

variable {next : State Id}

omit [DecidableEq Id] in
/-- What the flags mean depends only on the flags, the bottom rows and the timeout
functions that run. -/
theorem ActiveInv.congr (hinv : ActiveInv cfg st) (hrows : next.rows = st.rows)
    (hkind : ∀ id, cfg.kind (next.timers id) = cfg.kind (st.timers id))
    (hactivated : ∀ id, (next.timers id).activated = (st.timers id).activated)
    (hcallback : ∀ id, ¬ Linked cfg st id → InCallback st id → InCallback next id) :
    ActiveInv cfg next := by
  have hlinked : ∀ id, Linked cfg next id ↔ Linked cfg st id := by
    intro id
    rw [Linked, Linked, hrows, hkind]
  refine ⟨fun kind row => ?_, fun kind id hmem => ?_, fun id hmem => ?_, fun id hactive => ?_⟩
  · rw [hrows]
    exact hinv.nodup kind row
  · rw [hrows] at hmem
    rw [hkind]
    exact hinv.own kind id hmem
  · rw [hactivated]
    exact hinv.activated id ((hlinked id).1 hmem)
  · rw [hactivated] at hactive
    rw [hlinked]
    by_cases hmem : Linked cfg st id
    · exact .inl hmem
    · exact .inr (hcallback id hmem ((hinv.linked id hactive).resolve_left hmem))

/-- A timer that leaves the list without a flag, or for its timeout function. -/
theorem activeInv_timerRemove {id : Id} (hinv : ActiveInv cfg st)
    (hrows : next.rows = (timerRemove st id).rows)
    (hothers : ∀ other, other ≠ id → next.timers other = st.timers other)
    (hself : (next.timers id).activated = true → InCallback next id)
    (hcallback : ∀ other, other ≠ id → InCallback st other → InCallback next other) :
    ActiveInv cfg next := by
  have hmem : ∀ kind other, other ∈ next.rows kind cfg.bottom ↔
      other ≠ id ∧ other ∈ st.rows kind cfg.bottom := by
    intro kind other
    rw [hrows, rows_timerRemove]
    exact (hinv.nodup kind cfg.bottom).mem_erase_iff
  refine ⟨fun kind row => ?_, fun kind other hother => ?_, fun other hother => ?_,
    fun other hactivated => ?_⟩
  · rw [hrows]
    exact (hinv.nodup kind row).erase id
  · rw [hmem] at hother
    rw [hothers other hother.1]
    exact hinv.own kind other hother.2
  · rw [Linked, hmem] at hother
    rw [hothers other hother.1] at hother ⊢
    exact hinv.activated other hother.2
  · by_cases hne : other = id
    · subst hne
      exact .inr (hself hactivated)
    · rw [hothers other hne] at hactivated
      refine (hinv.linked other hactivated).imp (fun hlinked => ?_) (hcallback other hne)
      rw [Linked, hmem, hothers other hne]
      exact ⟨hne, hlinked⟩

theorem activeInv_rtTimerStop (hinv : ActiveInv cfg st) (id : Id) :
    ActiveInv cfg (rtTimerStop st id).1 := by
  rw [rtTimerStop]
  split
  · have hrows : (setActivated (timerRemove st id) id false).rows =
        (timerRemove st id).rows := rfl
    apply activeInv_timerRemove hinv hrows
    · intro other hne
      simp [setActivated, setTimer, hne]
    · intro hactivated
      simp [setActivated] at hactivated
    · exact fun other _ hcallback => hcallback
  · exact hinv

theorem activeInv_rtTimerControl (hinv : ActiveInv cfg st) (id : Id) (cmd : Cmd) :
    ActiveInv cfg (rtTimerControl st id cmd) := by
  have hset : ∀ operation : RtTimer → RtTimer,
      (∀ timer, (operation timer).activated = timer.activated ∧
        (operation timer).softTimer = timer.softTimer) →
      ActiveInv cfg (setTimer st id operation) := by
    intro operation hkeeps
    refine hinv.congr rfl (fun other => ?_) (fun other => ?_) (fun other _ hcallback => hcallback)
    · by_cases hne : other = id
      · subst hne
        simp [Config.kind, hkeeps]
      · rw [timers_setTimer_of_ne st id operation hne]
    · by_cases hne : other = id
      · subst hne
        simp [hkeeps]
      · rw [timers_setTimer_of_ne st id operation hne]
  cases cmd with
  | getTime => exact hinv
  | setTime time =>
    exact hset (fun timer => { timer with initTick := time }) fun timer => ⟨rfl, rfl⟩
  | setOneshot =>
    exact hset (fun timer => { timer with periodic := false }) fun timer => ⟨rfl, rfl⟩
  | setPeriodic =>
    exact hset (fun timer => { timer with periodic := true }) fun timer => ⟨rfl, rfl⟩

theorem activeInv_runOp (hinv : ActiveInv cfg st) (op : Op Id) :
    ActiveInv cfg (runOp cfg st op).1 := by
  cases op with
  | start id => exact activeInv_rtTimerStart hinv id
  | stop id => exact activeInv_rtTimerStop hinv id
  | control id cmd => exact activeInv_rtTimerControl hinv id cmd

/-- The timer whose timeout function has returned is settled. -/
theorem activeInv_endExpiry {id : Id} (hinv : ActiveInv cfg st)
    (howned : Linked cfg st id → (st.timers id).periodic = true)
    (hrows : next.rows = (endExpiry cfg st id).rows)
    (htimers : next.timers = (endExpiry cfg st id).timers)
    (hcallback : ∀ other, other ≠ id → InCallback st other → InCallback next other) :
    ActiveInv cfg next := by
  by_cases hrearms : rearms (st.timers id) = true
  · rw [endExpiry, if_pos hrearms, rtTimerStart_setActivated] at hrows htimers
    have hstarted := activeInv_rtTimerStart hinv id
    refine hstarted.congr hrows (fun other => by rw [htimers]) (fun other => by rw [htimers])
      fun other hnot hother => hcallback other ?_ hother
    -- the timer itself is linked again
    rintro rfl
    apply hnot
    rw [Linked, mem_bottom_rtTimerStart cfg other hinv.nodup]
    simp [Config.kind]
  · have hnot : ¬ Linked cfg st id := by
      intro hlinked
      simp [rearms, howned hlinked, hinv.activated id hlinked] at hrearms
    rw [endExpiry, if_neg hrearms] at hrows htimers
    have hothers : ∀ other, other ≠ id → next.timers other = st.timers other := by
      intro other hne
      rw [htimers, setActivated, timers_setTimer_of_ne st id _ hne]
    have hkind : ∀ other, cfg.kind (next.timers other) = cfg.kind (st.timers other) := by
      intro other
      by_cases hne : other = id
      · subst hne
        simp [htimers, setActivated, Config.kind]
      · rw [hothers other hne]
    have hlinked : ∀ other, Linked cfg next other ↔ Linked cfg st other := by
      intro other
      rw [Linked, Linked, hkind, hrows]
      rfl
    have hrows : next.rows = st.rows := hrows
    refine ⟨fun kind row => ?_, fun kind other hmem => ?_, fun other hmem => ?_,
      fun other hactivated => ?_⟩
    · rw [hrows]
      exact hinv.nodup kind row
    · rw [hrows] at hmem
      rw [hkind]
      exact hinv.own kind other hmem
    · rw [hlinked] at hmem
      have hne : other ≠ id := fun heq => hnot (heq ▸ hmem)
      rw [hothers other hne]
      exact hinv.activated other hmem
    · have hne : other ≠ id := by
        rintro rfl
        simp [htimers, setActivated] at hactivated
      rw [hothers other hne] at hactivated
      rw [hlinked]
      exact (hinv.linked other hactivated).imp_right (hcallback other hne)

/-- A timeout function does not return with its own timer started again and
one-shot. -/
def OwnTimerFits (cfg : Config) (st : State Id) : Action Id → Prop
  | .finish => ∀ id ∈ st.hard.timer, Linked cfg st id →
      (st.timers id).periodic = true
  | .softFinish => ∀ id ∈ st.soft.timer, Linked cfg st id →
      (st.timers id).periodic = true
  | _ => True

instance (cfg : Config) (st : State Id) :
    (act : Action Id) → Decidable (OwnTimerFits cfg st act)
  | .finish => inferInstanceAs (Decidable (∀ id ∈ st.hard.timer, _))
  | .softFinish => inferInstanceAs (Decidable (∀ id ∈ st.soft.timer, _))
  | .op _ | .tick | .check | .loop | .softCheck | .softLoop => inferInstanceAs (Decidable True)

theorem activeInv_step {act : Action Id} {event : Event Id} (hinv : ActiveInv cfg st)
    (hfits : OwnTimerFits cfg st act) (hstep : step cfg st act = some (next, event)) :
    ActiveInv cfg next := by
  cases act with
  | op op =>
    simp only [step] at hstep
    split at hstep
    · contradiction
    · have hnext := activeInv_runOp hinv op
      rwa [Option.some.inj hstep] at hnext
  | tick =>
    simp only [step] at hstep
    split at hstep
    · next hidle =>
        cases hstep
        exact hinv.congr rfl (fun _ => rfl) (fun _ => rfl)
          fun id _ hcallback => hcallback.imp (by simp [hidle]) fun hsoft => hsoft
    · contradiction
  | check =>
    simp only [step] at hstep
    split at hstep
    · next hidle =>
        cases hstep
        exact hinv.congr rfl (fun _ => rfl) (fun _ => rfl)
          fun id _ hcallback => hcallback.imp (by simp [hidle]) fun hsoft => hsoft
    · contradiction
  | loop =>
    simp only [step] at hstep
    split at hstep
    · next currentTick hchecking =>
        split at hstep
        · next id hdue =>
            cases hstep
            have hrows : ({ timerRemove st id with hard := .calling id } : State Id).rows =
                (timerRemove st id).rows := rfl
            exact activeInv_timerRemove hinv hrows (fun _ _ => rfl) (fun _ => .inl rfl)
              fun other _ hcallback => hcallback.imp (by simp [hchecking]) fun hsoft => hsoft
        · cases hstep
          exact hinv.congr rfl (fun _ => rfl) (fun _ => rfl)
            fun id _ hcallback => hcallback.imp (by simp [hchecking]) fun hsoft => hsoft
    · contradiction
  | finish =>
    simp only [step] at hstep
    split at hstep
    · next id hcalling =>
        cases hstep
        refine activeInv_endExpiry hinv (hfits id (by rw [hcalling]; rfl)) rfl rfl
          fun other hne hcallback => ?_
        rcases hcallback with hhard | hsoft
        · rw [hcalling] at hhard
          exact absurd (HardPhase.calling.inj hhard).symm hne
        · right
          simpa using hsoft
    · contradiction
  | softCheck =>
    simp only [step] at hstep
    split at hstep
    · next hidle =>
        cases hstep
        exact hinv.congr rfl (fun _ => rfl) (fun _ => rfl)
          fun id _ hcallback => hcallback.imp (fun hhard => hhard) (by simp [hidle])
    · contradiction
  | softLoop =>
    simp only [step] at hstep
    split at hstep
    · next currentTick n hhard hchecking =>
        split at hstep
        · next id hdue =>
            cases hstep
            have hrows : ({ timerRemove st id with
                soft := .calling id (nextNode cfg st .soft id) } : State Id).rows =
                (timerRemove st id).rows := rfl
            exact activeInv_timerRemove hinv hrows (fun _ _ => rfl) (fun _ => .inr ⟨_, rfl⟩)
              fun other _ hcallback => hcallback.imp (fun hhard => hhard) (by simp [hchecking])
        · cases hstep
          exact hinv.congr rfl (fun _ => rfl) (fun _ => rfl)
            fun id _ hcallback => hcallback.imp (fun hhard => hhard) (by simp [hchecking])
    · contradiction
  | softFinish =>
    simp only [step] at hstep
    split at hstep
    · next id n hidle hcalling =>
        cases hstep
        refine activeInv_endExpiry hinv (hfits id (by rw [hcalling]; rfl)) rfl rfl
          fun other hne hcallback => ?_
        rcases hcallback with hhard | ⟨n', hsoft⟩
        · left
          simpa using hhard
        · rw [hcalling] at hsoft
          exact absurd (SoftPhase.calling.inj hsoft).1.symm hne
    · contradiction

/-- Whatever timers the timeout functions start, stop or set, their own among them: if
none returns with its own timer started again and one-shot, a timer is flagged as
active between the calls exactly when it is linked. -/
theorem timer_active_iff_linked {tick : BitVec 32} {time : Id → BitVec 32}
    {periodic softTimer : Id → Bool} {trace : List (Action Id × Event Id)} {st : State Id}
    (hrun : (machine cfg).RunWith (OwnTimerFits cfg)
      (initial tick time periodic softTimer) trace st)
    (hhard : st.hard = .idle) (hsoft : st.soft = .idle) (id : Id) :
    (st.timers id).activated = true ↔ Linked cfg st id := by
  have hinv : ActiveInv cfg st :=
    hrun.invariant (ActiveInv cfg)
      (fun _ _ _ _ hinv hfits hstep => activeInv_step hinv hfits hstep)
      (activeInv_initial cfg tick time periodic softTimer)
  constructor
  · intro hactivated
    refine (hinv.linked id hactivated).resolve_right fun hcallback => ?_
    simp [InCallback, hhard, hsoft] at hcallback
  · exact hinv.activated id

/-- One row, no soft timers. -/
def hardOnly : Config where
  level := 1
  level_pos := Nat.one_pos
  mask := 3
  usingTimerSoft := false

/-- The timeout function of a periodic timer starts a one-shot timer. -/
theorem timer_active_iff_linked_startsOther :
    ∃ trace, ∃ st : State (Fin 2),
      (machine hardOnly).RunWith (OwnTimerFits hardOnly)
        (initial 0xffffffff (fun _ => 1) (fun id => id = 0) fun _ => false) trace st ∧
      st.hard = .idle ∧ st.rows .hard 0 = [1, 0] ∧
      ((st.timers 1).activated = true ↔ Linked hardOnly st 1) := by
  have hrun : (machine hardOnly).RunWith (OwnTimerFits hardOnly)
      (initial 0xffffffff (fun _ => 1) (fun id : Fin 2 => id = 0) fun _ => false) _ _ :=
    Machine.runWith_of_exec [.op (.start 0), .tick, .loop, .op (.start 1), .finish, .loop] rfl
  exact ⟨_, _, hrun, rfl, rfl, timer_active_iff_linked hrun rfl rfl 1⟩

/-- The timeout function of a one-shot timer starts its timer again: the timer is linked
and will fire, but it is not flagged as active, and `rt_timer_stop` refuses it. -/
theorem not_active_of_restarted :
    ∃ trace, ∃ st : State (Fin 1),
      (machine hardOnly).Run (initial 0 (fun _ => 1) (fun _ => false) fun _ => false)
        trace st ∧
      st.hard = .idle ∧ st.soft = .idle ∧ Linked hardOnly st 0 ∧
      (st.timers 0).activated = false ∧ (rtTimerStop st 0).2 = .error := by
  have hrun : (machine hardOnly).Run
      (initial 0 (fun _ : Fin 1 => 1) (fun _ => false) fun _ => false) _ _ :=
    Machine.runWith_of_exec [.op (.start 0), .tick, .loop, .op (.start 0), .finish, .loop] rfl
  exact ⟨_, _, hrun, rfl, rfl, by decide, rfl, rfl⟩

end RtThread.Timer
