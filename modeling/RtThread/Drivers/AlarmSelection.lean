import RtThread.Drivers.AlarmCalendar

set_option linter.all false

/-!
# The alarm that the RTC is set to

After an operation the current alarm should be the started one that the clock reaches first.
`alarm_update` never takes the current alarm or one for the present second, a one-shot alarm
whose time it is leaves the RTC disabled and stays current, and `rt_alarm_start` compares
with the current alarm only, by inequalities that leave out the present second.  In the runs
that stay away from these cases the selection is right after every operation.
-/

namespace RtThread.Alarm

open Function
open RtThread.Core CyclicClock

variable {calendar : Calendar} {st next : State} {alarm : ℕ} {now : Tm}

/-- If an alarm is started, the current one is started and programmed, and the clock reaches
it first. -/
def Selected (calendar : Calendar) (st : State) : Prop :=
  ∀ alarm ∈ st.head, (st.alarm alarm).start = true → ∃ current,
    st.current = some current ∧
    (current ∈ st.head ∧ (st.alarm current).start = true) ∧
    st.rtc = programmed (st.alarm current) ∧
    ∀ other ∈ st.head, (st.alarm other).start = true →
      untilAlarm calendar st current ≤ untilAlarm calendar st other

/-! ## The steps that select the right alarm -/

/-- An alarm that is still started after the first loop of `alarm_update`. -/
def Stays (calendar : Calendar) (st : State) (alarm : ℕ) : Prop :=
  (st.alarm alarm).start = true ∧
    ¬ fires calendar (calendar.localtimeR st.clock) (st.alarm alarm)

instance (alarm : ℕ) : Decidable (Stays calendar st alarm) :=
  inferInstanceAs (Decidable (_ ∧ _))

/-- `alarm_update` has no alarm to select, or has a candidate that the clock reaches no later
than the current alarm, or keeps the current alarm and does not touch the RTC. -/
def Settles (calendar : Calendar) (st : State) : Prop :=
  (∀ alarm ∈ st.head, ¬ Stays calendar st alarm) ∨
  (∃ alarm ∈ st.head, (Stays calendar st alarm ∧ Candidate calendar st alarm) ∧
    ∀ current ∈ st.current, Stays calendar st current →
      untilAlarm calendar st alarm ≤ untilAlarm calendar st current) ∨
  ((∃ current ∈ st.current, Stays calendar st current) ∧
    ∀ alarm ∈ st.head, ¬ Candidate calendar st alarm ∧
      ¬ fires calendar (calendar.localtimeR st.clock) (st.alarm alarm))

instance : Decidable (Settles calendar st) :=
  inferInstanceAs (Decidable (_ ∨ _ ∨ _))

/-- The state in which `rt_alarm_stop` and `rt_alarm_delete` select another alarm. -/
def stopped (st : State) (alarm : ℕ) : State :=
  leaveRtc (setStart st alarm false) alarm

/-- The comparison of `rt_alarm_start` is about the right alarm, and not within the present
second: the current alarm is not for this second, unless the new one is too, and if the
current alarm is stopped, the clock reaches the new one before it. -/
def Compares (calendar : Calendar) (st : State) (alarm : ℕ) : Prop :=
  ∀ old ∈ st.current,
    (daysec st old = present calendar st → daysec st alarm = present calendar st) ∧
    ((st.alarm old).start = false →
      untilAlarm calendar st alarm < untilAlarm calendar st old)

instance (alarm : ℕ) : Decidable (Compares calendar st alarm) :=
  inferInstanceAs (Decidable (∀ old ∈ st.current, _))

def Regular (calendar : Calendar) (st : State) : Action → Prop
  | .tick => True
  | .update => Settles calendar st
  | .start alarm => (st.alarm alarm).start = false → (prepare calendar st alarm).2 = rtEok →
      Compares calendar (prepare calendar st alarm).1 alarm
  | .stop alarm => (st.alarm alarm).start = true →
      st.current = some alarm ∧ Settles calendar (stopped st alarm)
  | .delete alarm => st.current = some alarm → Settles calendar (stopped st alarm)

instance (act : Action) : Decidable (Regular calendar st act) :=
  match act with
  | .tick => isTrue trivial
  | .update => inferInstanceAs (Decidable (Settles _ _))
  | .start _ => inferInstanceAs (Decidable (_ → _ → _))
  | .stop _ => inferInstanceAs (Decidable (_ → _))
  | .delete _ => inferInstanceAs (Decidable (_ → _))

/-! ## The first loop -/

namespace Woken

variable {seen : List ℕ} {woken : State}

theorem wktime (hwoken : Woken calendar now st seen woken) (alarm : ℕ) :
    (woken.alarm alarm).wktime = (st.alarm alarm).wktime := by
  by_cases hmem : alarm ∈ seen
  · rw [hwoken.alarm_mem alarm hmem, rung]
    split <;> rfl
  · rw [hwoken.alarm_not_mem alarm hmem]

theorem inited (hwoken : Woken calendar now st seen woken) (alarm : ℕ) :
    (woken.alarm alarm).inited = (st.alarm alarm).inited := by
  by_cases hmem : alarm ∈ seen
  · rw [hwoken.alarm_mem alarm hmem, rung]
    split <;> rfl
  · rw [hwoken.alarm_not_mem alarm hmem]

theorem present_eq (hwoken : Woken calendar now st seen woken) :
    present calendar woken = present calendar st := by
  rw [present, present, hwoken.clock]

theorem daysec_eq (hwoken : Woken calendar now st seen woken) (alarm : ℕ) :
    daysec woken alarm = daysec st alarm := by
  rw [daysec, daysec, hwoken.wktime]

theorem untilAlarm_eq (hwoken : Woken calendar now st seen woken) (alarm : ℕ) :
    untilAlarm calendar woken alarm = untilAlarm calendar st alarm := by
  rw [untilAlarm, untilAlarm, hwoken.present_eq, hwoken.daysec_eq]

theorem start_iff (hwoken : Woken calendar (calendar.localtimeR st.clock) st seen woken)
    (hmem : alarm ∈ seen) : (woken.alarm alarm).start = true ↔ Stays calendar st alarm := by
  rw [hwoken.alarm_mem alarm hmem, rung, Stays]
  split
  · next hfires => exact iff_of_false Bool.false_ne_true fun hand => hand.2 hfires
  · next hnot => exact (and_iff_left hnot).symm

theorem candidate_iff (hwoken : Woken calendar (calendar.localtimeR st.clock) st seen woken)
    (hmem : alarm ∈ seen) : Candidate calendar woken alarm ↔
      Stays calendar st alarm ∧ Candidate calendar st alarm := by
  rw [Candidate, Candidate, hwoken.start_iff hmem, hwoken.current, hwoken.daysec_eq,
    hwoken.present_eq]
  exact ⟨fun hand => ⟨hand.1, hand.1.1, hand.2⟩, fun hand => ⟨hand.1, hand.2.2⟩⟩

theorem alarm_eq (hwoken : Woken calendar now st seen woken)
    (hnot : ¬ fires calendar now (st.alarm alarm)) : woken.alarm alarm = st.alarm alarm := by
  by_cases hmem : alarm ∈ seen
  · rw [hwoken.alarm_mem alarm hmem]
    exact if_neg hnot
  · exact hwoken.alarm_not_mem alarm hmem

end Woken

theorem untilAlarm_le (calendar : Calendar) (st : State) (alarm : ℕ) :
    untilAlarm calendar st alarm ≤ 24 * 3600 :=
  wait_le (by decide)

theorem untilAlarm_of_present (hpresent : daysec st alarm = present calendar st) :
    untilAlarm calendar st alarm = 24 * 3600 := by
  rw [untilAlarm, hpresent, wait_of_le le_rfl (present_lt calendar st)]
  omega

/-! ## The invariant -/

/-- The alarms that can be started have times of day, and the current one has been started. -/
structure Base (st : State) : Prop where
  valid : ∀ alarm ∈ st.head, (st.alarm alarm).inited = true →
    ValidTime (st.alarm alarm).wktime
  inited : ∀ alarm ∈ st.head, (st.alarm alarm).start = true →
    (st.alarm alarm).inited = true
  current : ∀ current, st.current = some current →
    current ∈ st.head ∧ (st.alarm current).inited = true

/-- When an alarm is started, the current one is started and programmed. -/
def Held (st : State) : Prop :=
  ∀ alarm ∈ st.head, (st.alarm alarm).start = true → ∃ current,
    st.current = some current ∧ (st.alarm current).start = true ∧
    st.rtc = programmed (st.alarm current)

structure Inv (calendar : Calendar) (st : State) : Prop where
  base : Base st
  held : Held st
  /-- The selection is right until the RTC rings. -/
  selected : st.event = false → Selected calendar st

theorem Selected.held (hselected : Selected calendar st) : Held st := by
  intro alarm hmem hstart
  obtain ⟨current, hcurrent, hstarted, hrtc, -⟩ := hselected alarm hmem hstart
  exact ⟨current, hcurrent, hstarted.2, hrtc⟩

theorem Inv.of_selected (hbase : Base st) (hselected : Selected calendar st) :
    Inv calendar st :=
  ⟨hbase, hselected.held, fun _ => hselected⟩

theorem Base.timed (hbase : Base st) : Timed st st.head :=
  fun alarm hmem hstart => hbase.valid alarm hmem (hbase.inited alarm hmem hstart)

theorem Base.woken {woken : State} (hbase : Base st)
    (hwoken : Woken calendar (calendar.localtimeR st.clock) st st.head woken) :
    Base woken where
  valid := by
    intro alarm hmem hinited
    rw [hwoken.head] at hmem
    rw [hwoken.inited] at hinited
    rw [hwoken.wktime]
    exact hbase.valid alarm hmem hinited
  inited := by
    intro alarm hmem hstart
    rw [hwoken.head] at hmem
    rw [hwoken.start_iff hmem] at hstart
    rw [hwoken.inited]
    exact hbase.inited alarm hmem hstart.1
  current := by
    intro current hcurrent
    rw [hwoken.current] at hcurrent
    rw [hwoken.head, hwoken.inited]
    exact hbase.current current hcurrent

theorem makeCurrent_eq (st : State) (alarm : ℕ) : makeCurrent st alarm =
    { st with rtc := programmed (st.alarm alarm), current := some alarm } := by
  rw [makeCurrent, alarmSet_eq]

theorem Base.makeCurrent (hbase : Base st) (hmem : alarm ∈ st.head)
    (hinited : (st.alarm alarm).inited = true) : Base (makeCurrent st alarm) := by
  rw [makeCurrent_eq]
  refine ⟨hbase.valid, hbase.inited, fun current hcurrent => ?_⟩
  cases hcurrent
  exact ⟨hmem, hinited⟩

/-! ## `alarm_update` -/

/-- What `alarm_update` keeps. -/
structure Updated (st next : State) : Prop where
  head : next.head = st.head
  event : next.event = st.event
  stopped : ∀ alarm ∈ st.head, (next.alarm alarm).start = true →
    (st.alarm alarm).start = true
  current : ∀ current, next.current = some current →
    (next.alarm current).start = true ∨ st.current = some current

theorem alarmUpdate_selects (hbase : Base st)
    (hheld : ∀ current, st.current = some current → (st.alarm current).start = true →
      st.rtc = programmed (st.alarm current))
    (hsettles : Settles calendar st) :
    Base (alarmUpdate calendar st) ∧ Selected calendar (alarmUpdate calendar st) ∧
      Updated st (alarmUpdate calendar st) := by
  have hwoken := woken_wakeAll calendar st
  have hbaseWoken := hbase.woken hwoken
  have htimed : Timed (wakeAll calendar st) st.head := by
    have htimed := hbaseWoken.timed
    rwa [hwoken.head] at htimed
  have hstopped : ∀ alarm ∈ st.head, ((wakeAll calendar st).alarm alarm).start = true →
      (st.alarm alarm).start = true := fun alarm hmem hstart =>
    ((hwoken.start_iff hmem).1 hstart).1
  -- a started alarm that is no candidate is the current one, or for the present second
  have hother : ∀ other, ((wakeAll calendar st).alarm other).start = true →
      ¬ Candidate calendar (wakeAll calendar st) other →
        st.current = some other ∨ untilAlarm calendar (wakeAll calendar st)
          other = 24 * 3600 := by
    intro other hstart hnot
    by_cases hcurrent : st.current = some other
    · exact .inl hcurrent
    · refine .inr (untilAlarm_of_present ?_)
      by_contra hne
      refine hnot ⟨hstart, ?_, hne⟩
      rwa [hwoken.current]
  rcases alarmUpdate_cases htimed with ⟨alarm, ⟨⟨hmem, hcandidate⟩, hfirst⟩, hequation⟩ |
      ⟨hnone, hequation⟩
  · have hinited := hbaseWoken.inited alarm hmem hcandidate.1
    rw [hequation]
    refine ⟨hbaseWoken.makeCurrent hmem hinited, ?_, ?_⟩
    · rw [makeCurrent_eq]
      intro _ _ _
      refine ⟨alarm, rfl, ⟨hmem, hcandidate.1⟩, rfl, fun other hmem' hstart => ?_⟩
      change untilAlarm calendar (wakeAll calendar st) alarm ≤
        untilAlarm calendar (wakeAll calendar st) other
      by_cases hcase : Candidate calendar (wakeAll calendar st) other
      · exact hfirst other hmem' hcase
      · rcases hother other hstart hcase with hcurrent | hlast
        · have hmemState : alarm ∈ st.head := hwoken.head ▸ hmem
          have hotherState : other ∈ st.head := hwoken.head ▸ hmem'
          have hstays := (hwoken.candidate_iff hmemState).1 hcandidate
          rcases hsettles with hempty | ⟨best, hbest, hbestCandidate, hbefore⟩ | ⟨-, hkeeps⟩
          · exact absurd hstays.1 (hempty alarm hmemState)
          · have hle := hfirst best (hwoken.head.symm ▸ hbest)
              ((hwoken.candidate_iff hbest).2 hbestCandidate)
            have hle' := hbefore other hcurrent ((hwoken.start_iff hotherState).1 hstart)
            rw [hwoken.untilAlarm_eq, hwoken.untilAlarm_eq] at hle ⊢
            exact hle.trans hle'
          · exact absurd hstays.2 (hkeeps alarm hmemState).1
        · rw [hlast]
          exact untilAlarm_le ..
    · rw [makeCurrent_eq]
      refine ⟨hwoken.head, hwoken.event, hstopped, fun current hcurrent => ?_⟩
      cases hcurrent
      exact .inl hcandidate.1
  · rw [hequation]
    refine ⟨hbaseWoken, ?_, ⟨hwoken.head, hwoken.event, hstopped, fun current hcurrent => ?_⟩⟩
    · intro starter hmem hstart
      rw [hwoken.head] at hmem
      have hstays := (hwoken.start_iff hmem).1 hstart
      rcases hsettles with hempty | ⟨best, hbest, hbestCandidate, -⟩ |
          ⟨⟨current, hcurrent, hcurrentStays⟩, hkeeps⟩
      · exact absurd hstays (hempty starter hmem)
      · exact absurd ((hwoken.candidate_iff hbest).2 hbestCandidate) (hnone best hbest)
      · have hcurrentMem := (hbase.current current hcurrent).1
        have hsame := hwoken.alarm_eq hcurrentStays.2
        refine ⟨current, hwoken.current.trans hcurrent, ⟨hwoken.head.symm ▸ hcurrentMem, ?_⟩, ?_,
          fun other hmem' hstart' => ?_⟩
        · rw [hsame]
          exact hcurrentStays.1
        · rw [hsame, hwoken.rtc fun alarm hmem => (hkeeps alarm hmem).2]
          exact hheld current hcurrent hcurrentStays.1
        · rw [hwoken.head] at hmem'
          rcases hother other hstart' (hnone other hmem') with hcase | hlast
          · rw [Option.some.inj (hcurrent.symm.trans hcase)]
          · rw [hlast]
            exact untilAlarm_le ..
    · rw [hwoken.current] at hcurrent
      exact .inr hcurrent

/-! ## Operations that select no other alarm -/

theorem untilAlarm_congr (hclock : next.clock = st.clock)
    (halarm : next.alarm alarm = st.alarm alarm) :
    untilAlarm calendar next alarm = untilAlarm calendar st alarm := by
  rw [untilAlarm, untilAlarm, present, present, daysec, daysec, hclock, halarm]

/-- The selection stays right when no alarm is started and the current one is kept. -/
theorem Selected.mono (hselected : Selected calendar st)
    (hcurrent : next.current = st.current) (hclock : next.clock = st.clock)
    (hrtc : next.rtc = st.rtc)
    (hstarted : ∀ alarm ∈ next.head, (next.alarm alarm).start = true →
      alarm ∈ st.head ∧ next.alarm alarm = st.alarm alarm)
    (hkept : ∀ current, st.current = some current → current ∈ st.head →
      (st.alarm current).start = true →
        current ∈ next.head ∧ next.alarm current = st.alarm current) :
    Selected calendar next := by
  intro alarm hmem hstart
  obtain ⟨hmemState, halarm⟩ := hstarted alarm hmem hstart
  obtain ⟨current, hcurrentState, ⟨hcurrentMem, hcurrentStart⟩, hprogrammed, hfirst⟩ :=
    hselected alarm hmemState (halarm ▸ hstart)
  obtain ⟨hcurrentNext, hsame⟩ := hkept current hcurrentState hcurrentMem hcurrentStart
  refine ⟨current, hcurrent.trans hcurrentState, ⟨hcurrentNext, hsame ▸ hcurrentStart⟩, ?_,
    fun other hother hstart' => ?_⟩
  · rw [hrtc, hsame]
    exact hprogrammed
  · obtain ⟨hotherState, hotherSame⟩ := hstarted other hother hstart'
    rw [untilAlarm_congr hclock hsame, untilAlarm_congr hclock hotherSame]
    exact hfirst other hotherState (hotherSame ▸ hstart')

theorem setStart_self (st : State) (alarm : ℕ) (start : Bool) :
    (setStart st alarm start).alarm alarm = { st.alarm alarm with start := start } :=
  update_self ..

theorem setStart_of_ne {other : ℕ} (hne : other ≠ alarm) (st : State) (start : Bool) :
    (setStart st alarm start).alarm other = st.alarm other :=
  update_of_ne hne ..

theorem Base.setStart (hbase : Base st) (alarm : ℕ) (start : Bool)
    (hinited : start = true → (st.alarm alarm).inited = true) :
    Base (setStart st alarm start) where
  valid := by
    intro other hmem hinited
    by_cases hother : other = alarm
    · subst hother
      rw [setStart_self] at hinited ⊢
      exact hbase.valid other hmem hinited
    · rw [setStart_of_ne hother] at hinited ⊢
      exact hbase.valid other hmem hinited
  inited := by
    intro other hmem hstart
    by_cases hother : other = alarm
    · subst hother
      rw [setStart_self] at hstart ⊢
      exact hinited hstart
    · rw [setStart_of_ne hother] at hstart ⊢
      exact hbase.inited other hmem hstart
  current := by
    intro current hcurrent
    obtain ⟨hmem, hinited⟩ := hbase.current current hcurrent
    refine ⟨hmem, ?_⟩
    by_cases hother : current = alarm
    · subst hother
      rwa [setStart_self]
    · rwa [setStart_of_ne hother]

theorem stopped_eq (st : State) (alarm : ℕ) : stopped st alarm =
    { setStart st alarm false with
      rtc := programmed ((setStart st alarm false).alarm alarm), current := none } := by
  rw [stopped, leaveRtc, alarmSet_eq]

/-- The current alarm is stopped, and another one is selected. -/
theorem stopped_selects (hbase : Base st) (hsettles : Settles calendar (stopped st alarm)) :
    Base (alarmUpdate calendar (stopped st alarm)) ∧
      Selected calendar (alarmUpdate calendar (stopped st alarm)) ∧
      Updated (stopped st alarm) (alarmUpdate calendar (stopped st alarm)) := by
  have hset := hbase.setStart alarm false (fun hfalse => absurd hfalse Bool.false_ne_true)
  refine alarmUpdate_selects ?_ ?_ hsettles
  · rw [stopped_eq]
    exact ⟨hset.valid, hset.inited, fun _ hcurrent => absurd hcurrent (by simp)⟩
  · rw [stopped_eq]
    exact fun _ hcurrent => absurd hcurrent (by simp)

theorem rtAlarmStop_selects (hbase : Base st) (hselected : Selected calendar st)
    (hregular : (st.alarm alarm).start = true →
      st.current = some alarm ∧ Settles calendar (stopped st alarm)) :
    Base (rtAlarmStop calendar st alarm).1 ∧
      Selected calendar (rtAlarmStop calendar st alarm).1 ∧
      ((st.alarm alarm).start = true → (rtAlarmStop calendar st alarm).2 = rtEok) := by
  rw [rtAlarmStop]
  by_cases hstart : (st.alarm alarm).start = false
  · rw [if_pos hstart]
    exact ⟨hbase, hselected, fun htrue => absurd (htrue.symm.trans hstart) (by decide)⟩
  · obtain ⟨hcurrent, hsettles⟩ := hregular (by simpa using hstart)
    obtain ⟨hbase', hselected', -⟩ := stopped_selects hbase hsettles
    have hsame : (setStart st alarm false).current = some alarm := hcurrent
    rw [if_neg hstart]
    rw [if_pos hsame]
    exact ⟨hbase', hselected', fun _ => rfl⟩

theorem Base.erase (hbase : Base st)
    (hnot : ∀ current, st.current = some current → current ≠ alarm) :
    Base { st with head := st.head.erase alarm } where
  valid := fun other hmem => hbase.valid other (List.mem_of_mem_erase hmem)
  inited := fun other hmem => hbase.inited other (List.mem_of_mem_erase hmem)
  current := fun current hcurrent =>
    ⟨(List.mem_erase_of_ne (hnot current hcurrent)).2 (hbase.current current hcurrent).1,
      (hbase.current current hcurrent).2⟩

/-- An alarm that is not started is taken out of the list. -/
theorem Selected.erase (hselected : Selected calendar st)
    (hstop : (st.alarm alarm).start = false) :
    Selected calendar { st with head := st.head.erase alarm } := by
  refine hselected.mono rfl rfl rfl (fun other hmem _ => ⟨List.mem_of_mem_erase hmem, rfl⟩) ?_
  intro current _ hmem hstart
  refine ⟨(List.mem_erase_of_ne ?_).2 hmem, rfl⟩
  rintro rfl
  exact Bool.false_ne_true (hstop.symm.trans hstart)

theorem rtAlarmDelete_selects (hbase : Base st) (hselected : Selected calendar st)
    (hmem : alarm ∈ st.head)
    (hregular : st.current = some alarm → Settles calendar (stopped st alarm)) :
    Base (rtAlarmDelete calendar st alarm).1 ∧
      Selected calendar (rtAlarmDelete calendar st alarm).1 := by
  rw [rtAlarmDelete]
  have hstopped : (setStart st alarm false).alarm alarm =
      { st.alarm alarm with start := false } := setStart_self ..
  by_cases hcurrent : (setStart st alarm false).current = some alarm
  · obtain ⟨hbase', hselected', hupdated⟩ := stopped_selects hbase (hregular hcurrent)
    have hstop : ((alarmUpdate calendar (stopped st alarm)).alarm alarm).start = false := by
      rw [← Bool.not_eq_true]
      intro hstart
      have hold := hupdated.stopped alarm (by rw [stopped_eq]; exact hmem) hstart
      rw [stopped_eq, hstopped] at hold
      exact Bool.false_ne_true hold
    rw [if_pos hcurrent]
    refine ⟨hbase'.erase fun current hcase => ?_, hselected'.erase hstop⟩
    rintro rfl
    rcases hupdated.current current hcase with hstart | hold
    · exact Bool.false_ne_true (hstop.symm.trans hstart)
    · rw [stopped_eq] at hold
      cases hold
  · rw [if_neg hcurrent]
    have hset := hbase.setStart alarm false
      (fun hfalse => absurd hfalse Bool.false_ne_true)
    have hne : ∀ current, st.current = some current → current ≠ alarm := by
      rintro current hcase rfl
      exact hcurrent hcase
    refine ⟨hset.erase hne, Selected.erase (hselected.mono rfl rfl rfl ?_ ?_) ?_⟩
    · intro other hmem hstart
      by_cases hother : other = alarm
      · subst hother
        rw [hstopped] at hstart
        exact absurd hstart Bool.false_ne_true
      · exact ⟨hmem, setStart_of_ne hother ..⟩
    · exact fun current hcase hmem _ => ⟨hmem, setStart_of_ne (hne current hcase) ..⟩
    · rw [hstopped]

/-! ## `rt_alarm_start` -/

theorem orNow_bounds {value low high now : ℤ} (hnow : low ≤ now ∧ now ≤ high) :
    low ≤ orNow value low high now ∧ orNow value low high now ≤ high := by
  rw [orNow]
  split <;> omega

/-- The fields of the day are set, those of the time are left. -/
theorem setupDay_time (mode : ℕ) (setup now : Tm) :
    (setupDay mode setup now).1.tmSec = setup.tmSec ∧
      (setupDay mode setup now).1.tmMin = setup.tmMin ∧
      (setupDay mode setup now).1.tmHour = setup.tmHour := by
  rw [setupDay]
  split_ifs <;> exact ⟨rfl, rfl, rfl⟩

/-- `alarm_setup` leaves the flags but `RT_ALARM_STATE_INITED`, and ends with a time of day. -/
theorem alarmSetup_spec (hnow : ValidTime now) (self : RtAlarm) :
    (alarmSetup now self).1.start = self.start ∧
      ((alarmSetup now self).2 = rtEok → (alarmSetup now self).1.inited = true) ∧
      ((alarmSetup now self).1.inited = true → self.inited = false →
        ValidTime (alarmSetup now self).1.wktime) := by
  obtain ⟨hsecNow, hminNow, hhourNow⟩ := hnow
  have hsec : 0 ≤ orNow self.wktime.tmSec 0 59 now.tmSec ∧
      orNow self.wktime.tmSec 0 59 now.tmSec ≤ 59 := orNow_bounds hsecNow
  have hmin : 0 ≤ orNow self.wktime.tmMin 0 59 now.tmMin ∧
      orNow self.wktime.tmMin 0 59 now.tmMin ≤ 59 := orNow_bounds hminNow
  have hhour : 0 ≤ orNow self.wktime.tmHour 0 23 now.tmHour ∧
      orNow self.wktime.tmHour 0 23 now.tmHour ≤ 23 := orNow_bounds hhourNow
  rw [alarmSetup]
  have htime := setupDay_time self.mode { self.wktime with
    tmSec := orNow self.wktime.tmSec 0 59 now.tmSec
    tmMin := orNow self.wktime.tmMin 0 59 now.tmMin
    tmHour := orNow self.wktime.tmHour 0 23 now.tmHour } now
  generalize setupDay self.mode _ now = result at htime
  obtain ⟨setup, ret⟩ := result
  dsimp only at htime ⊢
  rw [← htime.1] at hsec
  rw [← htime.2.1] at hmin
  rw [← htime.2.2] at hhour
  split
  · refine ⟨rfl, fun _ => rfl, fun _ _ => ?_⟩
    split
    · refine ⟨?_, hmin, hhour⟩
      change (0 : ℤ) ≤ 60 - rtAlarmDelay ∧ (60 : ℤ) - rtAlarmDelay ≤ 59
      decide
    · exact ⟨hsec, hmin, hhour⟩
  · refine ⟨rfl, fun herror => ?_, fun hinited hnot => absurd (hinited.symm.trans hnot) (by decide)⟩
    have hne : rtError ≠ rtEok := by decide
    exact absurd herror hne

/-- What the first lines of `rt_alarm_start` lead to. -/
structure Prepared (st next : State) (alarm : ℕ) (ret : ℤ) : Prop where
  head : next.head = st.head
  current : next.current = st.current
  rtc : next.rtc = st.rtc
  clock : next.clock = st.clock
  event : next.event = st.event
  other : ∀ other, other ≠ alarm → next.alarm other = st.alarm other
  /-- An alarm that was started is left as it was. -/
  self : (st.alarm alarm).inited = true → next.alarm alarm = st.alarm alarm
  start : (next.alarm alarm).start = (st.alarm alarm).start
  inited : ret = rtEok → (next.alarm alarm).inited = true
  valid : (next.alarm alarm).inited = true → (st.alarm alarm).inited = false →
    ValidTime (next.alarm alarm).wktime

theorem prepare_spec (calendar : Calendar) (st : State) (alarm : ℕ) :
    Prepared st (prepare calendar st alarm).1 alarm (prepare calendar st alarm).2 := by
  rw [prepare]
  split
  · next hinited =>
    exact ⟨rfl, rfl, rfl, rfl, rfl, fun _ _ => rfl, fun _ => rfl, rfl, fun _ => hinited,
      fun _ hnot => absurd (hinited.symm.trans hnot) (by decide)⟩
  · next hnot =>
    obtain ⟨hstart, hinited, hvalid⟩ :=
      alarmSetup_spec (calendar.valid st.clock) (st.alarm alarm)
    refine ⟨rfl, rfl, rfl, rfl, rfl, fun other hne => update_of_ne hne ..,
      fun hinited => absurd hinited hnot, ?_, ?_, ?_⟩
    all_goals dsimp only
    all_goals rw [update_self]
    · exact hstart
    · exact hinited
    · exact hvalid

theorem Base.prepared {ret : ℤ} (hbase : Base st) (hmem : alarm ∈ st.head)
    (hprepared : Prepared st next alarm ret) : Base next where
  valid := by
    intro other hother hinited
    rw [hprepared.head] at hother
    by_cases hself : other = alarm
    · subst hself
      cases hcase : (st.alarm other).inited with
      | true =>
        rw [hprepared.self hcase]
        exact hbase.valid other hother hcase
      | false => exact hprepared.valid hinited hcase
    · rw [hprepared.other other hself] at hinited ⊢
      exact hbase.valid other hother hinited
  inited := by
    intro other hother hstart
    rw [hprepared.head] at hother
    by_cases hself : other = alarm
    · subst hself
      rw [hprepared.start] at hstart
      have hcase := hbase.inited other hother hstart
      rwa [hprepared.self hcase]
    · rw [hprepared.other other hself] at hstart ⊢
      exact hbase.inited other hother hstart
  current := by
    intro current hcurrent
    rw [hprepared.current] at hcurrent
    obtain ⟨hcurrentMem, hinited⟩ := hbase.current current hcurrent
    rw [hprepared.head]
    refine ⟨hcurrentMem, ?_⟩
    by_cases hself : current = alarm
    · subst hself
      rwa [hprepared.self hinited]
    · rwa [hprepared.other current hself]

theorem Selected.prepared {ret : ℤ} (hselected : Selected calendar st) (hbase : Base st)
    (hprepared : Prepared st next alarm ret) : Selected calendar next := by
  -- only an alarm that has not been started is set up
  have hkeep : ∀ other ∈ st.head, (st.alarm other).start = true →
      next.alarm other = st.alarm other := by
    intro other hmem hstart
    by_cases hself : other = alarm
    · subst hself
      exact hprepared.self (hbase.inited other hmem hstart)
    · exact hprepared.other other hself
  refine hselected.mono hprepared.current hprepared.clock hprepared.rtc
    (fun other hmem hstart => ?_)
    fun current _ hmem hstart => ⟨hprepared.head.symm ▸ hmem, hkeep current hmem hstart⟩
  rw [hprepared.head] at hmem
  refine ⟨hmem, hkeep other hmem ?_⟩
  by_cases hself : other = alarm
  · subst hself
    rwa [hprepared.start] at hstart
  · rwa [hprepared.other other hself] at hstart

/-- The test of `rt_alarm_start`, unless the old alarm is for the present second. -/
theorem ringsBefore_iff {secNow secNew secOld : ℕ} (hnow : secNow < 24 * 3600)
    (hnew : secNew < 24 * 3600) (hold : secOld < 24 * 3600) (hne : secOld ≠ secNow) :
    ringsBefore secNow secNew secOld ↔
      wait (24 * 3600) secNow secNew < wait (24 * 3600) secNow secOld := by
  rw [wait_lt_wait_iff hnow hnew hold, ringsBefore]
  omega

/-- The alarm that is started becomes the current one. -/
theorem makeCurrent_selects (hfirst : ∀ other ∈ st.head, other ≠ alarm →
      (st.alarm other).start = true →
        untilAlarm calendar st alarm ≤ untilAlarm calendar st other)
    (hmem : alarm ∈ st.head) (hstart : (st.alarm alarm).start = true) :
    Selected calendar (makeCurrent st alarm) := by
  rw [makeCurrent_eq]
  intro _ _ _
  refine ⟨alarm, rfl, ⟨hmem, hstart⟩, rfl, fun other hother hstarted => ?_⟩
  by_cases hself : other = alarm
  · rw [hself]
  · exact hfirst other hother hself hstarted

theorem daysec_setStart (st : State) (alarm other : ℕ) (start : Bool) :
    daysec (setStart st alarm start) other = daysec st other := by
  rw [daysec, daysec]
  by_cases hself : other = alarm
  · rw [hself, setStart_self]
  · rw [setStart_of_ne hself]

theorem untilAlarm_setStart (st : State) (alarm other : ℕ) (start : Bool) :
    untilAlarm calendar (setStart st alarm start) other = untilAlarm calendar st other := by
  rw [untilAlarm, untilAlarm, daysec_setStart]
  rfl

/-- An alarm that the clock reaches no later than the current one is started. -/
theorem Selected.start_ahead (hselected : Selected calendar st) (hmem : alarm ∈ st.head)
    (hahead : ∀ current, st.current = some current →
      untilAlarm calendar st alarm ≤ untilAlarm calendar st current) :
    Selected calendar (makeCurrent (setStart st alarm true) alarm) := by
  refine makeCurrent_selects (fun other hother hne hstart => ?_) hmem ?_
  · rw [setStart_of_ne hne] at hstart
    rw [untilAlarm_setStart, untilAlarm_setStart]
    obtain ⟨current, hcurrent, -, -, hfirst⟩ := hselected other hother hstart
    exact (hahead current hcurrent).trans (hfirst other hother hstart)
  · rw [setStart_self]

/-- An alarm that the clock does not reach before the current one is started. -/
theorem Selected.start_behind {old : ℕ} (hselected : Selected calendar st)
    (hcurrent : st.current = some old) (hmem : old ∈ st.head)
    (hstart : (st.alarm old).start = true) (hne : old ≠ alarm)
    (hbehind : untilAlarm calendar st old ≤ untilAlarm calendar st alarm) :
    Selected calendar (setStart st alarm true) := by
  obtain ⟨current, hsome, -, hprogrammed, hfirst⟩ := hselected old hmem hstart
  obtain rfl : old = current := Option.some.inj (hcurrent.symm.trans hsome)
  intro _ _ _
  refine ⟨old, hcurrent, ⟨hmem, ?_⟩, ?_, fun other hother hstarted => ?_⟩
  · rwa [setStart_of_ne hne]
  · rw [setStart_of_ne hne]
    exact hprogrammed
  · rw [untilAlarm_setStart, untilAlarm_setStart]
    by_cases hself : other = alarm
    · rw [hself]
      exact hbehind
    · rw [setStart_of_ne hself] at hstarted
      exact hfirst other hother hstarted

/-- The comparison of `rt_alarm_start` with the current alarm. -/
theorem ringsBefore_compares {old : ℕ} (hbase : Base st) (hmem : alarm ∈ st.head)
    (hinited : (st.alarm alarm).inited = true) (hcurrent : st.current = some old)
    (hcompares : Compares calendar st alarm) :
    (ringsBefore (asInt32 (present calendar st)) (asInt32 (daysec st alarm))
        (asInt32 (daysec st old)) →
      untilAlarm calendar st alarm ≤ untilAlarm calendar st old) ∧
    (¬ ringsBefore (asInt32 (present calendar st)) (asInt32 (daysec st alarm))
        (asInt32 (daysec st old)) →
      (st.alarm old).start = true ∧
        untilAlarm calendar st old ≤ untilAlarm calendar st alarm) := by
  obtain ⟨hsecond, hstale⟩ := hcompares old hcurrent
  obtain ⟨holdMem, holdInited⟩ := hbase.current old hcurrent
  have hnow := present_lt calendar st
  have hnew : daysec st alarm < 24 * 3600 :=
    (hbase.valid alarm hmem hinited).alarmMkdaysec_lt
  have hold : daysec st old < 24 * 3600 :=
    (hbase.valid old holdMem holdInited).alarmMkdaysec_lt
  rw [asInt32_eq hnow, asInt32_eq hnew, asInt32_eq hold]
  by_cases hcase : daysec st old = present calendar st
  · -- both are for the present second
    have heq : untilAlarm calendar st alarm = untilAlarm calendar st old := by
      rw [untilAlarm_of_present hcase, untilAlarm_of_present (hsecond hcase)]
    refine ⟨fun _ => heq.le, fun _ => ⟨?_, heq.ge⟩⟩
    by_contra hstop
    exact absurd (hstale (by simpa using hstop)) heq.not_lt
  · rw [ringsBefore_iff hnow hnew hold hcase]
    refine ⟨fun hlt => le_of_lt hlt, fun hnot => ⟨?_, not_lt.1 hnot⟩⟩
    by_contra hstop
    exact hnot (hstale (by simpa using hstop))

theorem rtAlarmStart_selects (hbase : Base st) (hselected : Selected calendar st)
    (hmem : alarm ∈ st.head)
    (hregular : (st.alarm alarm).start = false → (prepare calendar st alarm).2 = rtEok →
      Compares calendar (prepare calendar st alarm).1 alarm) :
    Base (rtAlarmStart calendar st alarm).1 ∧
      Selected calendar (rtAlarmStart calendar st alarm).1 := by
  have hprepared := prepare_spec calendar st alarm
  have hbase' := hbase.prepared hmem hprepared
  have hselected' := hselected.prepared hbase hprepared
  rw [rtAlarmStart]
  generalize prepare calendar st alarm = result at hregular hprepared hbase' hselected'
  obtain ⟨prepared, ret⟩ := result
  dsimp only at hregular hprepared hbase' hselected' ⊢
  by_cases herror : ret ≠ rtEok
  · rw [if_pos herror]
    exact ⟨hbase', hselected'⟩
  · rw [if_neg herror]
    have hinited := hprepared.inited (not_not.1 herror)
    have hmem' : alarm ∈ prepared.head := hprepared.head.symm ▸ hmem
    by_cases hstop : (prepared.alarm alarm).start = false
    · rw [if_pos hstop]
      have hcompares := hregular (hprepared.start.symm.trans hstop) (not_not.1 herror)
      have hset := hbase'.setStart alarm true fun _ => hinited
      have hinitedSet : ((setStart prepared alarm true).alarm alarm).inited = true := by
        rw [setStart_self]
        exact hinited
      have hcurrent : (setStart prepared alarm true).current = prepared.current := rfl
      rw [hcurrent]
      cases hcase : prepared.current with
      | none =>
        refine ⟨hset.makeCurrent hmem' hinitedSet, hselected'.start_ahead hmem' ?_⟩
        rw [hcase]
        exact fun _ hsome => absurd hsome (by simp)
      | some old =>
        obtain ⟨hbefore, hbehind⟩ :=
          ringsBefore_compares hbase' hmem' hinited hcase hcompares
        have hnew := daysec_setStart prepared alarm alarm true
        have hold := daysec_setStart prepared alarm old true
        rw [daysec] at hnew hold
        dsimp only
        rw [hnew, hold]
        split
        · next hrings =>
          refine ⟨hset.makeCurrent hmem' hinitedSet, hselected'.start_ahead hmem' ?_⟩
          intro current hsome
          obtain rfl := Option.some.inj (hcase.symm.trans hsome)
          exact hbefore hrings
        · next hnot =>
          obtain ⟨hstarted, hlater⟩ := hbehind hnot
          have hne : old ≠ alarm := by
            rintro rfl
            exact Bool.false_ne_true (hstop.symm.trans hstarted)
          have holdMem := (hbase'.current old hcase).1
          exact ⟨hset, hselected'.start_behind hcase holdMem hstarted hne hlater⟩
    · rw [if_neg hstop]
      exact ⟨hbase', hselected'⟩

/-! ## Runs -/

theorem tickClock_inv (hinv : Inv calendar st) (hevent : st.event = false) :
    Inv calendar (tickClock calendar st) := by
  have hselected := hinv.selected hevent
  refine ⟨⟨hinv.base.valid, hinv.base.inited, hinv.base.current⟩, hselected.held, fun hquiet => ?_⟩
  intro alarm hmem hstart
  obtain ⟨current, hcurrent, hstarted, hprogrammed, hfirst⟩ := hselected alarm hmem hstart
  refine ⟨current, hcurrent, hstarted, hprogrammed, fun other hother hstart' => ?_⟩
  have hnow := present_lt calendar st
  have hnext : present calendar (tickClock calendar st) =
      (present calendar st + 1) % (24 * 3600) := calendar.succ st.clock
  have hvalid := hinv.base.timed current hstarted.1 hstarted.2
  have hvalid' := hinv.base.timed other hother hstart'
  have hle := hfirst other hother hstart'
  by_cases hlast : daysec (tickClock calendar st)
    other = present calendar (tickClock calendar st)
  · rw [untilAlarm_of_present hlast]
    exact untilAlarm_le ..
  · -- the RTC would have rung for the current alarm
    have hne : daysec st current ≠ (present calendar st + 1) % (24 * 3600) := by
      intro heq
      rw [← hnext] at heq
      obtain ⟨hsec, hmin, hhour⟩ :=
        hvalid.fields_eq (calendar.valid (st.clock + 1)) heq
      have hrings : rings st.rtc (calendar.localtimeR (st.clock + 1)) = true := by
        rw [rings, decide_eq_true_eq, hprogrammed, programmed, hstarted.2, hsec, hmin, hhour]
      exact Bool.false_ne_true (hquiet.symm.trans hrings)
    rw [hnext] at hlast
    rw [untilAlarm, untilAlarm, hnext]
    exact (wait_succ_le_iff hnow hvalid.alarmMkdaysec_lt hvalid'.alarmMkdaysec_lt hne hlast).2 hle

/-- What an operation promises: the right alarm is selected, and an alarm that was started is
stopped with `RT_EOK`. -/
def Promised (calendar : Calendar) (st : State) (act : Action) : Prop :=
  ∀ next event, step calendar st act = some (next, event) →
    (act ≠ .tick → Selected calendar next) ∧
      ∀ alarm, act = .stop alarm → (st.alarm alarm).start = true → event = .returned rtEok

theorem call_inv {result : State × ℤ} {event : Event} (hbase : Base result.1)
    (hselected : Selected calendar result.1) (hcall : call st alarm result =
      some (next, event)) :
    Inv calendar next ∧ Selected calendar next ∧ event = .returned result.2 := by
  rw [call] at hcall
  split at hcall
  · cases hcall
    exact ⟨.of_selected hbase hselected, hselected, rfl⟩
  · contradiction

theorem call_mem {result : State × ℤ} {event : Event}
    (hcall : call st alarm result = some (next, event)) : alarm ∈ st.head := by
  rw [call] at hcall
  split at hcall
  · assumption
  · contradiction

theorem step_inv {act : Action} {event : Event} (hinv : Inv calendar st)
    (hregular : Regular calendar st act)
    (hstep : step calendar st act = some (next, event)) :
    Inv calendar next ∧ (act ≠ .tick → Selected calendar next) ∧
      ∀ alarm, act = .stop alarm → (st.alarm alarm).start = true →
        event = .returned rtEok := by
  unfold step at hstep
  split at hstep
  · contradiction
  · next hallowed =>
    have hquiet : act ≠ .update → st.event = false := by
      intro hne
      by_contra hevent
      exact hallowed ⟨by simpa using hevent, hne⟩
    cases act with
    | tick =>
      cases hstep
      exact ⟨tickClock_inv hinv (hquiet (by decide)), fun hne => absurd rfl hne, by simp⟩
    | update =>
      cases hstep
      have hheld : ∀ current, st.current = some current →
          (st.alarm current).start = true →
            st.rtc = programmed (st.alarm current) := by
        intro current hcurrent hstart
        obtain ⟨other, hother, -, hrtc⟩ :=
          hinv.held current (hinv.base.current current hcurrent).1 hstart
        obtain rfl := Option.some.inj (hcurrent.symm.trans hother)
        exact hrtc
      have hbase : Base { st with event := false } :=
        ⟨hinv.base.valid, hinv.base.inited, hinv.base.current⟩
      obtain ⟨hbase', hselected, -⟩ := alarmUpdate_selects hbase hheld hregular
      exact ⟨.of_selected hbase' hselected, fun _ => hselected, by simp⟩
    | start alarm =>
      have hselected := hinv.selected (hquiet (by simp))
      obtain ⟨hbase', hselected'⟩ :=
        rtAlarmStart_selects hinv.base hselected (call_mem hstep) hregular
      obtain ⟨hinv', hnext, -⟩ := call_inv hbase' hselected' hstep
      exact ⟨hinv', fun _ => hnext, by simp⟩
    | stop alarm =>
      have hselected := hinv.selected (hquiet (by simp))
      obtain ⟨hbase', hselected', hreturn⟩ :=
        rtAlarmStop_selects hinv.base hselected hregular
      obtain ⟨hinv', hnext, hevent⟩ := call_inv hbase' hselected' hstep
      refine ⟨hinv', fun _ => hnext, fun other hother hstart => ?_⟩
      obtain rfl := Action.stop.inj hother
      rw [hevent, hreturn hstart]
    | delete alarm =>
      have hselected := hinv.selected (hquiet (by simp))
      obtain ⟨hbase', hselected'⟩ :=
        rtAlarmDelete_selects hinv.base hselected (call_mem hstep) hregular
      obtain ⟨hinv', hnext, -⟩ := call_inv hbase' hselected' hstep
      exact ⟨hinv', fun _ => hnext, by simp⟩

/-- Alarms as `rt_alarm_create` leaves them, and no current alarm. -/
structure Created (st : State) : Prop where
  stopped : ∀ alarm ∈ st.head, (st.alarm alarm).start = false
  blank : ∀ alarm ∈ st.head, (st.alarm alarm).inited = false
  current : st.current = none

theorem Created.inv (hcreated : Created st) : Inv calendar st := by
  have hnone : ∀ alarm ∈ st.head, (st.alarm alarm).start = true → False :=
    fun alarm hmem hstart => Bool.false_ne_true ((hcreated.stopped alarm hmem).symm.trans hstart)
  refine .of_selected ⟨fun alarm hmem hinited => ?_, fun alarm hmem hstart => ?_, ?_⟩ ?_
  · exact absurd ((hcreated.blank alarm hmem).symm.trans hinited) (by decide)
  · exact (hnone alarm hmem hstart).elim
  · rw [hcreated.current]
    exact fun _ hsome => absurd hsome (by simp)
  · exact fun alarm hmem hstart => (hnone alarm hmem hstart).elim

/-- In every run whose steps are regular, the right alarm is selected after every operation,
and every started alarm is stopped with `RT_EOK`. -/
theorem alarm_selection {first last : State} {trace : List (Action × Event)}
    (hcreated : Created first)
    (hrun : (machine calendar).RunWith (Regular calendar) first trace last) :
    (machine calendar).RunWith (Promised calendar) first trace last := by
  refine hrun.weaken (Inv calendar) ?_ ?_ hcreated.inv
  · exact fun _ _ _ _ hinv hregular hstep => (step_inv hinv hregular hstep).1
  · exact fun _ _ hinv hregular _ _ hstep => (step_inv hinv hregular hstep).2

/-- An alarm at some second of the first minute of 1970. -/
def firstMinute (mode : ℕ) (second : ℤ) : RtAlarm :=
  ⟨mode, false, false, true, ⟨second, 0, 0, 1, 0, 70, 4⟩⟩

/-- A one-shot alarm and two daily ones at midnight of the first day of 1970. -/
def midnight : State where
  head := [3, 2, 1]
  alarm := fun alarm =>
    if alarm = 1 then firstMinute rtAlarmDaily 3
    else if alarm = 2 then firstMinute rtAlarmDaily 5
    else firstMinute rtAlarmOneshot 4
  current := none
  rtc := ⟨false, 0, 0, 0⟩
  clock := 0
  event := false
  calls := []

theorem created_midnight : Created midnight :=
  ⟨by decide, by decide, rfl⟩

/-- Every alarm rings, and two of them are stopped and deleted. -/
def regular : List Action :=
  [.start 2, .start 1, .start 3, .tick, .tick, .tick, .update, .tick, .update, .tick, .update,
    .tick, .stop 1, .delete 2]

theorem isSome_regular :
    ((machine minilibc).exec (Regular minilibc) midnight regular).isSome = true := by
  decide

theorem alarm_selection_midnight :
    ∃ trace last, (machine minilibc).RunWith (Promised minilibc) midnight trace last ∧
      trace.map Prod.fst = regular := by
  have hrun := Machine.runWith_of_isSome regular isSome_regular
  exact ⟨_, _, alarm_selection created_midnight hrun, by decide⟩

/-- The one-shot alarm rings, and the daily one is started in the same second. -/
def afterOneshot : List Action :=
  [.start 3, .tick, .tick, .tick, .tick, .update, .start 2]

theorem isSome_afterOneshot :
    ((machine minilibc).exec (fun _ _ => True) midnight afterOneshot).isSome = true := by
  decide

def twoStarted : List Action :=
  [.start 1, .start 2, .stop 2]

theorem isSome_twoStarted :
    ((machine minilibc).exec (fun _ _ => True) midnight twoStarted).isSome = true := by
  decide

/-- The alarm that rang stays current, and the one that is started is not programmed; and a
started alarm that is not the current one is stopped with an error. -/
theorem stale_alarm_stays_current :
    (∃ trace last, (machine minilibc).Run midnight trace last ∧
      trace.map Prod.fst = afterOneshot ∧ ¬ Selected minilibc last) ∧
    ∃ trace last, (machine minilibc).Run midnight trace last ∧
      trace = [(.start 1, .returned rtEok), (.start 2, .returned rtEok),
        (.stop 2, .returned rtError)] := by
  have hstale := Machine.runWith_of_isSome afterOneshot isSome_afterOneshot
  have hstop := Machine.runWith_of_isSome twoStarted isSome_twoStarted
  have hactions := Machine.actions_of_isSome afterOneshot isSome_afterOneshot
  refine ⟨⟨_, _, hstale, hactions, fun hselected => ?_⟩, _, _, hstop, by decide⟩
  obtain ⟨current, hcurrent, ⟨-, hstarted⟩, -⟩ :=
    hselected 2 (by decide) (by decide)
  have hthree : ∀ current ∈ (((machine minilibc).exec (fun _ _ => True) midnight
      afterOneshot).get isSome_afterOneshot).1.current, ((((machine minilibc).exec
        (fun _ _ => True) midnight afterOneshot).get isSome_afterOneshot).1.alarm current).start =
          false := by decide
  exact Bool.false_ne_true ((hthree current hcurrent).symm.trans hstarted)

end RtThread.Alarm
