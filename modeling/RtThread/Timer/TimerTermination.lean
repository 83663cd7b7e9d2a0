import RtThread.Timer.TimerExpiry

set_option linter.all false

/-!
# The end of a check

`rt_timer_check` takes the first timer out of the list it empties and puts it back when
it is periodic.  With an init tick of at least one the timer has not expired when it is
back, so every turn of the loop leaves one expired timer less.  The assertion of
`rt_timer_start` bounds the init tick from above only: a periodic timer with init tick 0
is expired again at once, and the loop does not end before the tick advances.
-/

namespace RtThread.Timer

open RtThread.Core
open RtThread.Core.WrapClock

variable {Id : Type*} [DecidableEq Id]

/-- A timer that is started again after its timeout function and has then expired
already. -/
def rearmsAtOnce (timer : RtTimer) : Bool :=
  rearms timer && timer.initTick == 0

variable {cfg : Config} {record : Record Id} {st : State Id}

omit [DecidableEq Id] in
theorem rearmsAtOnce_iff {timer : RtTimer} :
    rearmsAtOnce timer = true ↔ rearms timer = true ∧ timer.initTick = 0 := by
  rw [rearmsAtOnce, Bool.and_eq_true, beq_iff_eq]

omit [DecidableEq Id] in
/-- Back in the list, a timer with an init tick of at least one has not expired. -/
theorem not_expired_restarted {tick initTick : BitVec 32} (hfits : initTick < halfTickMax)
    (hne : initTick ≠ 0) : ¬ tick - (tick + initTick) < halfTickMax := by
  have hpos : 0 < initTick.toNat := by
    rw [Nat.pos_iff_ne_zero]
    intro hzero
    exact hne (BitVec.eq_of_toNat_eq hzero)
  have hlt : initTick.toNat < 0x7fffffff := hfits
  have hleft : distance tick (tick + initTick) = initTick.toNat := distance_add hfits
  have hwindow : InWindow tick (tick + initTick) := by
    constructor <;> omega
  intro hreached
  have hpassed := (reached_iff hwindow).1 hreached
  omega

section Turn

variable (hlist : ListInv cfg (-1) record st) {id : Id}

include hlist

theorem listInv_turn (id : Id) :
    ∃ record', ListInv cfg (-1) record' (endExpiry cfg (timerRemove st id) id) :=
  ⟨_, listInv_endExpiry (listInv_timerRemove hlist id) le_rfl (by decide) id⟩

/-- A timer that is not started again, or with an init tick of at least one. -/
theorem not_mem_dueTimers_turn (hslow : rearmsAtOnce (st.timers id) = false) :
    id ∉ dueTimers cfg (endExpiry cfg (timerRemove st id) id) := by
  intro hdue
  obtain ⟨hbottom, hexpired⟩ := List.mem_filter.1 hdue
  rw [tick_endExpiry] at hexpired
  by_cases hrearms : rearms (st.timers id) = true
  · have hne : (st.timers id).initTick ≠ 0 := by
      intro hzero
      rw [rearmsAtOnce_iff.2 ⟨hrearms, hzero⟩] at hslow
      contradiction
    rw [endExpiry, timers_timerRemove, if_pos hrearms, rtTimerStart_setActivated,
      timers_rtTimerStart, expired, decide_eq_true_eq] at hexpired
    exact not_expired_restarted (hlist.fits id) hne hexpired
  · rw [endExpiry, timers_timerRemove, if_neg hrearms, setActivated, rows_setTimer,
      rows_timerRemove] at hbottom
    exact (hlist.nodup .hard cfg.bottom).not_mem_erase hbottom

/-- A periodic timer with init tick 0 is due again after its own turn. -/
theorem mem_dueTimers_turn (hmem : id ∈ dueTimers cfg st)
    (hatOnce : rearmsAtOnce (st.timers id) = true) :
    id ∈ dueTimers cfg (endExpiry cfg (timerRemove st id) id) ∧
      rearmsAtOnce ((endExpiry cfg (timerRemove st id) id).timers id) = true := by
  obtain ⟨hrearms, hzero⟩ := rearmsAtOnce_iff.1 hatOnce
  have hkind := hlist.own .hard cfg.bottom id (List.mem_filter.1 hmem).1
  have hremoved := (listInv_timerRemove hlist id).nodup
  have hperiodic : (st.timers id).periodic = true := (Bool.and_eq_true _ _ ▸ hrearms).1
  have htimer : (endExpiry cfg (timerRemove st id) id).timers id =
      { st.timers id with timeoutTick := st.tick, activated := true } := by
    rw [endExpiry, timers_timerRemove, if_pos hrearms, rtTimerStart_setActivated,
      timers_rtTimerStart, timers_timerRemove, hzero, tick_timerRemove, add_zero]
  constructor
  · refine List.mem_filter.2 ⟨?_, ?_⟩
    · rw [endExpiry, timers_timerRemove, if_pos hrearms, rtTimerStart_setActivated,
        mem_bottom_rtTimerStart cfg id hremoved, if_pos rfl]
      exact hkind
    · rw [tick_endExpiry, htimer, expired, decide_eq_true_eq, tick_timerRemove, sub_self]
      decide
  · rw [htimer, rearmsAtOnce_iff, rearms, hperiodic]
    exact ⟨rfl, hzero⟩

theorem mem_dueTimers_turn_of_ne {other : Id} (hne : other ≠ id)
    (hmem : other ∈ dueTimers cfg st) :
    other ∈ dueTimers cfg (endExpiry cfg (timerRemove st id) id) := by
  obtain ⟨hbottom, hexpired⟩ := List.mem_filter.1 hmem
  have hplace : other ∈ (st.rows .hard cfg.bottom).erase id :=
    (List.mem_erase_of_ne hne).2 hbottom
  rw [← erase_endExpiry hlist id] at hplace
  refine List.mem_filter.2 ⟨List.mem_of_mem_erase hplace, ?_⟩
  rw [tick_endExpiry, timers_endExpiry_of_ne cfg st hne]
  exact hexpired

end Turn

/-- The loop returns when it has called each of the expired timers once. -/
theorem checkLoop_returns {turns : ℕ} (hlist : ListInv cfg (-1) record st)
    (hturns : (dueTimers cfg st).length ≤ turns)
    (hslow : ∀ id ∈ dueTimers cfg st, rearmsAtOnce (st.timers id) = false)
    (called : List Id) :
    (checkLoop cfg .hard (fun _ => []) (turns + 1) st.tick called st).returned =
      true := by
  -- the measure is the number of expired timers in the list
  induction turns generalizing record st called with
  | zero =>
    have hnone : dueTimers cfg st = [] := List.length_eq_zero_iff.1 (by omega)
    rw [checkLoop, due_firstTimer hlist, hnone]
    rfl
  | succ turns ih =>
    rw [checkLoop, due_firstTimer hlist]
    cases hdue : dueTimers cfg st with
    | nil => rfl
    | cons id rest =>
      have hself := not_mem_dueTimers_turn hlist
        (hslow id (hdue ▸ List.mem_cons_self))
      have hrest : dueTimers cfg (endExpiry cfg (timerRemove st id) id) = rest := by
        rw [dueTimers_of_not_mem hlist hself, hdue, List.erase_cons_head]
      obtain ⟨record', hnext⟩ := listInv_turn hlist id
      refine ih hnext ?_ (fun other hother => ?_) (called ++ [id])
      · rw [hrest]
        rw [hdue, List.length_cons] at hturns
        omega
      · change other ∈ dueTimers cfg (endExpiry cfg (timerRemove st id) id) at hother
        have hne : other ≠ id := fun heq => hself (heq ▸ hother)
        rw [hrest] at hother
        change rearmsAtOnce
          ((endExpiry cfg (timerRemove st id) id).timers other) = false
        rw [timers_endExpiry_of_ne cfg st hne]
        exact hslow other (hdue ▸ List.mem_cons_of_mem id hother)

/-- A timer that is due again at once keeps the loop going. -/
theorem checkLoop_spins {id : Id} (hlist : ListInv cfg (-1) record st)
    (hmem : id ∈ dueTimers cfg st) (hatOnce : rearmsAtOnce (st.timers id) = true)
    (fuel : ℕ) (called : List Id) :
    (checkLoop cfg .hard (fun _ => []) fuel st.tick called st).returned = false := by
  induction fuel generalizing record st called with
  | zero => rfl
  | succ fuel ih =>
    rw [checkLoop, due_firstTimer hlist]
    cases hdue : dueTimers cfg st with
    | nil =>
      rw [hdue] at hmem
      exact absurd hmem List.not_mem_nil
    | cons first rest =>
      obtain ⟨record', hnext⟩ := listInv_turn hlist first
      by_cases hsame : id = first
      · subst hsame
        obtain ⟨hdue', hatOnce'⟩ := mem_dueTimers_turn hlist hmem hatOnce
        exact ih hnext hdue' hatOnce' (called ++ [id])
      · have htimer := timers_endExpiry_of_ne cfg st hsame
        refine ih hnext (mem_dueTimers_turn_of_ne hlist hsame hmem) ?_ (called ++ [first])
        rw [htimer]
        exact hatOnce

/-- In every state that starts, stops, settings, ticks and checks lead to, with any
timeout functions up to there and init ticks less than half the range of ticks:
`rt_timer_check` returns, when the timeout functions it calls touch no timer and the
tick stands still, exactly when no expired timer of the list is an active periodic one
with init tick 0. -/
theorem timerCheck_returns_iff {tick : BitVec 32} {time : Id → BitVec 32}
    {periodic softTimer : Id → Bool} {trace : List (Action Id × Event Id)}
    (htime : ∀ id, time id < halfTickMax)
    (hrun : (machine cfg).RunWith InitTicksFit (initial tick time periodic softTimer)
      trace st) :
    (∃ fuel, (rtTimerCheck cfg (fun _ => []) fuel st).returned = true) ↔
      ∀ id ∈ st.rows .hard cfg.bottom, expired st.tick (st.timers id) = true →
        (st.timers id).periodic = true → (st.timers id).activated = true →
          (st.timers id).initTick ≠ 0 := by
  have hlist := (orderInv_run htime hrun).list.mono (lowest_bounds st.hard).1
  have hcondition : (∀ id ∈ dueTimers cfg st, rearmsAtOnce (st.timers id) = false) ↔
      ∀ id ∈ st.rows .hard cfg.bottom, expired st.tick (st.timers id) = true →
        (st.timers id).periodic = true → (st.timers id).activated = true →
          (st.timers id).initTick ≠ 0 := by
    simp only [dueTimers, List.mem_filter, rearmsAtOnce, rearms, Bool.and_eq_false_iff,
      beq_eq_false_iff_ne, and_imp]
    refine forall₃_congr fun id _ _ => ?_
    cases (st.timers id).periodic <;> cases (st.timers id).activated <;> simp
  rw [← hcondition]
  constructor
  · rintro ⟨fuel, hreturned⟩ id hmem
    by_contra hatOnce
    rw [rtTimerCheck, checkLoop_spins hlist hmem (Bool.not_eq_false _ ▸ hatOnce)] at hreturned
    contradiction
  · intro hslow
    exact ⟨_, checkLoop_returns hlist le_rfl hslow []⟩

/-- A periodic timer that times out at every tick. -/
theorem timerCheck_returns_iff_everyTick :
    ∃ trace, ∃ st : State Unit,
      (machine twoRows).RunWith InitTicksFit
        (initial 0xffffffff (fun _ => 1) (fun _ => true) fun _ => false) trace st ∧
      st.rows .hard 1 = [()] ∧ expired st.tick (st.timers ()) = true ∧
      ((∃ fuel, (rtTimerCheck twoRows (fun _ => []) fuel st).returned = true) ↔
        ∀ id ∈ st.rows .hard twoRows.bottom, expired st.tick (st.timers id) = true →
          (st.timers id).periodic = true → (st.timers id).activated = true →
            (st.timers id).initTick ≠ 0) := by
  have hrun : (machine twoRows).RunWith InitTicksFit
      (initial 0xffffffff (fun _ : Unit => 1) (fun _ => true) fun _ => false) _ _ :=
    Machine.runWith_of_exec [.op (.start ()), .tick] rfl
  exact ⟨_, _, hrun, by decide, by decide, timerCheck_returns_iff (by decide) hrun⟩

/-- A periodic timer with init tick 0 is initialized and started: the next check does not
return. -/
theorem timerCheck_spins :
    ∃ trace, ∃ st : State Unit,
      (machine twoRows).RunWith InitTicksFit
        (initial 0 (fun _ => 0) (fun _ => true) fun _ => false) trace st ∧
      ¬ ∃ fuel, (rtTimerCheck twoRows (fun _ => []) fuel st).returned = true := by
  have hrun : (machine twoRows).RunWith InitTicksFit
      (initial 0 (fun _ : Unit => 0) (fun _ => true) fun _ => false) _ _ :=
    Machine.runWith_of_exec [.op (.start ()), .check] rfl
  refine ⟨_, _, hrun, ?_⟩
  rintro ⟨fuel, hreturned⟩
  have hlist := (orderInv_run (by decide) hrun).list
  rw [rtTimerCheck, @checkLoop_spins _ _ _ _ _ () hlist (by decide) (by decide)] at hreturned
  contradiction

end RtThread.Timer
