import RtThread.Drivers.Alarm

set_option linter.all false

/-!
# What `alarm_update` selects

The first loop stops the one-shot alarms whose time it is.  The second one keeps the best
alarm behind the present time of day and the best one before it, and the first of the two
that exists is programmed: of all started alarms other than the current one, and other than
those for the present second, the one that the clock reaches first.
-/

namespace RtThread.Alarm

open Function
open RtThread.Core CyclicClock

variable {calendar : Calendar} {st : State} {alarm : ℕ} {now : Tm}

def present (calendar : Calendar) (st : State) : ℕ :=
  alarmMkdaysec (calendar.localtimeR st.clock)

def daysec (st : State) (alarm : ℕ) : ℕ :=
  alarmMkdaysec (st.alarm alarm).wktime

/-- The seconds until the clock next shows the time of an alarm. -/
def untilAlarm (calendar : Calendar) (st : State) (alarm : ℕ) : ℕ :=
  wait (24 * 3600) (present calendar st) (daysec st alarm)

/-- What `alarm_set` programs for an alarm. -/
def programmed (alarm : RtAlarm) : RtRtcWkalarm :=
  ⟨alarm.start, alarm.wktime.tmSec, alarm.wktime.tmMin, alarm.wktime.tmHour⟩

theorem alarmSet_eq (st : State) (alarm : ℕ) :
    alarmSet st alarm = { st with rtc := programmed (st.alarm alarm) } := by
  rw [alarmSet]
  split
  · rw [update_eq_self]
    rfl
  · rfl

/-! ## Times of day -/

theorem ValidTime.alarmMkdaysec_eq (hvalid : ValidTime now) :
    (alarmMkdaysec now : ℤ) = now.tmSec + now.tmMin * 60 + now.tmHour * 3600 := by
  obtain ⟨hsec, hmin, hhour⟩ := hvalid
  rw [alarmMkdaysec]
  omega

theorem ValidTime.alarmMkdaysec_lt (hvalid : ValidTime now) : alarmMkdaysec now < 24 * 3600 := by
  have heq := hvalid.alarmMkdaysec_eq
  obtain ⟨hsec, hmin, hhour⟩ := hvalid
  omega

/-- The fields are determined by the seconds of the day. -/
theorem ValidTime.fields_eq {other : Tm} (hvalid : ValidTime now) (hother : ValidTime other)
    (heq : alarmMkdaysec now = alarmMkdaysec other) :
    now.tmSec = other.tmSec ∧ now.tmMin = other.tmMin ∧ now.tmHour = other.tmHour := by
  have hnow := hvalid.alarmMkdaysec_eq
  have hthen := hother.alarmMkdaysec_eq
  obtain ⟨hsec, hmin, hhour⟩ := hvalid
  obtain ⟨hsec', hmin', hhour'⟩ := hother
  omega

theorem present_lt (calendar : Calendar) (st : State) : present calendar st < 24 * 3600 :=
  (calendar.valid st.clock).alarmMkdaysec_lt

theorem asInt32_eq {value : ℕ} (hlt : value < 24 * 3600) : asInt32 value = value :=
  if_pos (by omega)

/-! ## The alarms whose time it is -/

/-- A one-shot alarm whose time it is. -/
def fires (calendar : Calendar) (now : Tm) (alarm : RtAlarm) : Prop :=
  alarm.start = true ∧ wakes calendar alarm now = true ∧ alarm.mode = rtAlarmOneshot

instance (alarm : RtAlarm) : Decidable (fires calendar now alarm) :=
  inferInstanceAs (Decidable (_ ∧ _ ∧ _))

/-- What `alarm_wakeup` leaves of an alarm. -/
def rung (calendar : Calendar) (now : Tm) (alarm : RtAlarm) : RtAlarm :=
  if fires calendar now alarm then { alarm with start := false } else alarm

theorem rung_rung (alarm : RtAlarm) :
    rung calendar now (rung calendar now alarm) = rung calendar now alarm := by
  by_cases hfires : fires calendar now alarm
  · rw [rung, rung, if_pos hfires]
    exact if_neg fun hagain => Bool.false_ne_true hagain.1
  · rw [rung, rung, if_neg hfires]
    exact if_neg hfires

/-- The first loop of `alarm_update`, over some alarms. -/
structure Woken (calendar : Calendar) (now : Tm) (st : State) (seen : List ℕ)
    (woken : State) : Prop where
  head : woken.head = st.head
  current : woken.current = st.current
  clock : woken.clock = st.clock
  event : woken.event = st.event
  alarm_mem : ∀ alarm ∈ seen, woken.alarm alarm = rung calendar now (st.alarm alarm)
  alarm_not_mem : ∀ alarm, alarm ∉ seen → woken.alarm alarm = st.alarm alarm
  rtc : (∀ alarm ∈ seen, ¬ fires calendar now (st.alarm alarm)) → woken.rtc = st.rtc

theorem alarmWakeup_eq (calendar : Calendar) (now : Tm) (st : State) (alarm : ℕ) :
    ∃ rtc calls, alarmWakeup calendar now st alarm = { st with
        rtc := rtc, calls := calls
        alarm := update st.alarm alarm (rung calendar now (st.alarm alarm)) } ∧
      (¬ fires calendar now (st.alarm alarm) → rtc = st.rtc) := by
  have hkeep : ¬ fires calendar now (st.alarm alarm) →
      update st.alarm alarm (rung calendar now (st.alarm alarm)) = st.alarm := by
    intro hnot
    rw [rung, if_neg hnot]
    exact update_eq_self ..
  rw [alarmWakeup]
  split
  · next hwakes =>
    by_cases hmode : (st.alarm alarm).mode = rtAlarmOneshot
    · have hfires : fires calendar now (st.alarm alarm) := ⟨hwakes.1, hwakes.2, hmode⟩
      rw [if_pos hmode, alarmSet_eq, rung, if_pos hfires]
      split <;> exact ⟨_, _, rfl, fun hnot => absurd hfires hnot⟩
    · have hnot : ¬ fires calendar now (st.alarm alarm) := fun hfires => hmode hfires.2.2
      rw [if_neg hmode, hkeep hnot]
      split <;> exact ⟨_, _, rfl, fun _ => rfl⟩
  · next hsleeps =>
    have hnot : ¬ fires calendar now (st.alarm alarm) :=
      fun hfires => hsleeps ⟨hfires.1, hfires.2.1⟩
    rw [hkeep hnot]
    exact ⟨_, _, rfl, fun _ => rfl⟩

theorem Woken.snoc {seen : List ℕ} {woken : State} (hwoken : Woken calendar now st seen woken) :
    Woken calendar now st (seen ++ [alarm]) (alarmWakeup calendar now woken alarm) := by
  obtain ⟨rtc, calls, heq, hrtc⟩ := alarmWakeup_eq calendar now woken alarm
  rw [heq]
  have hself : rung calendar now (woken.alarm alarm) = rung calendar now (st.alarm alarm) := by
    by_cases hmem : alarm ∈ seen
    · rw [hwoken.alarm_mem alarm hmem, rung_rung]
    · rw [hwoken.alarm_not_mem alarm hmem]
  refine ⟨hwoken.head, hwoken.current, hwoken.clock, hwoken.event, fun other hmem => ?_,
    fun other hmem => ?_, fun hquiet => ?_⟩
  · dsimp only
    by_cases hother : other = alarm
    · rw [hother, update_self, hself]
    · rw [update_of_ne hother]
      refine hwoken.alarm_mem other ?_
      simpa [hother] using hmem
  · rw [List.mem_append, List.mem_singleton, not_or] at hmem
    exact (update_of_ne hmem.2 ..).trans (hwoken.alarm_not_mem other hmem.1)
  · have hseen : ∀ alarm ∈ seen, ¬ fires calendar now (st.alarm alarm) :=
      fun other hmem => hquiet other (List.mem_append_left _ hmem)
    have hsame : woken.alarm alarm = st.alarm alarm := by
      by_cases hmem : alarm ∈ seen
      · rw [hwoken.alarm_mem alarm hmem]
        exact if_neg (hseen alarm hmem)
      · exact hwoken.alarm_not_mem alarm hmem
    refine (hrtc ?_).trans (hwoken.rtc hseen)
    rw [hsame]
    exact hquiet alarm (by simp)

theorem woken_foldl (calendar : Calendar) (now : Tm) (st : State) (seen : List ℕ) :
    Woken calendar now st seen (seen.foldl (alarmWakeup calendar now) st) := by
  induction seen using List.reverseRecOn with
  | nil => exact ⟨rfl, rfl, rfl, rfl, by simp, fun _ _ => rfl, fun _ => rfl⟩
  | append_singleton seen alarm ih =>
    rw [List.foldl_append]
    exact ih.snoc

/-! ## The search -/

/-- The alarms that the second loop compares: started, not the current one, and not for the
present second. -/
def Candidate (calendar : Calendar) (st : State) (alarm : ℕ) : Prop :=
  (st.alarm alarm).start = true ∧ st.current ≠ some alarm ∧
    daysec st alarm ≠ present calendar st

instance (alarm : ℕ) : Decidable (Candidate calendar st alarm) :=
  inferInstanceAs (Decidable (_ ∧ _ ∧ _))

/-- The started alarms of a list have times of day. -/
def Timed (st : State) (seen : List ℕ) : Prop :=
  ∀ alarm ∈ seen, (st.alarm alarm).start = true → ValidTime (st.alarm alarm).wktime

/-- `sec_tmp`. -/
def secTmp (calendar : Calendar) (st : State) (alarm : ℕ) : ℤ :=
  (daysec st alarm : ℤ) - present calendar st

/-- What the loop has found in a list of alarms: the next one behind the present second, and
the first one before it. -/
structure Found (calendar : Calendar) (st : State) (seen : List ℕ) (best : Best) : Prop where
  next : Least (secTmp calendar st)
    (fun alarm => Candidate calendar st alarm ∧ 0 < secTmp calendar st alarm) (24 * 3600)
    seen best.secNext best.almNext
  prev : Least (secTmp calendar st)
    (fun alarm => Candidate calendar st alarm ∧ secTmp calendar st alarm < 0) 0
    seen best.secPrev best.almPrev

theorem found_foldl {seen : List ℕ} (htimed : Timed st seen) :
    Found calendar st seen (seen.foldl
      (consider st (asInt32 (present calendar st))) ⟨24 * 3600, none, 0, none⟩) := by
  induction seen using List.reverseRecOn with
  | nil => exact ⟨.nil .., .nil ..⟩
  | append_singleton seen alarm ih =>
    have hfound := ih fun other hmem => htimed other (List.mem_append_left _ hmem)
    have hpresent := present_lt calendar st
    rw [List.foldl_append]
    change Found calendar st _ (consider st _ _ alarm)
    generalize seen.foldl (consider st (asInt32 (present calendar st))) _ = best at hfound
    rw [consider]
    by_cases hcase : (st.alarm alarm).start = true ∧ st.current ≠ some alarm
    · have hvalid := htimed alarm (by simp) hcase.1
      have htmp : asInt32 (alarmMkdaysec (st.alarm alarm).wktime) -
          asInt32 (present calendar st) = secTmp calendar st alarm := by
        rw [asInt32_eq hvalid.alarmMkdaysec_lt, asInt32_eq hpresent]
        rfl
      have hcandidate : secTmp calendar st alarm ≠ 0 → Candidate calendar st alarm := by
        intro hne
        refine ⟨hcase.1, hcase.2, fun heq => hne ?_⟩
        rw [secTmp, heq, sub_self]
      rw [if_pos hcase, htmp]
      by_cases hbehind : 0 < secTmp calendar st alarm
      · rw [if_pos hbehind]
        have hprev := hfound.prev.pass alarm fun hand => absurd hand.2 (by omega)
        split
        · next hlt => exact ⟨hfound.next.take ⟨hcandidate hbehind.ne', hbehind⟩ hlt, hprev⟩
        · next hge => exact ⟨hfound.next.pass alarm fun _ => not_lt.1 hge, hprev⟩
      · rw [if_neg hbehind]
        have hnext := hfound.next.pass alarm fun hand => absurd hand.2 hbehind
        split
        · next hlt =>
          have hzero := hfound.prev.value_le
          exact ⟨hnext, hfound.prev.take ⟨hcandidate (by omega), by omega⟩ hlt⟩
        · next hge => exact ⟨hnext, hfound.prev.pass alarm fun _ => not_lt.1 hge⟩
    · rw [if_neg hcase]
      have hnot : ¬ Candidate calendar st alarm := fun hand => hcase ⟨hand.1, hand.2.1⟩
      exact ⟨hfound.next.pass alarm fun hand => absurd hand.1 hnot,
        hfound.prev.pass alarm fun hand => absurd hand.1 hnot⟩

/-- A candidate that the clock reaches first. -/
def First (calendar : Calendar) (st : State) (alarm : ℕ) : Prop :=
  (alarm ∈ st.head ∧ Candidate calendar st alarm) ∧
    ∀ other ∈ st.head, Candidate calendar st other →
      untilAlarm calendar st alarm ≤ untilAlarm calendar st other

/-- The search ends with a candidate that the clock reaches first, if there is a candidate. -/
theorem search_spec (calendar : Calendar) (htimed : Timed st st.head) :
    let best := search calendar st
    (best.secNext < 24 * 3600 ∧ ∃ alarm, best.almNext = some alarm ∧ First calendar st alarm) ∨
    (¬ best.secNext < 24 * 3600 ∧ best.secPrev < 0 ∧
      ∃ alarm, best.almPrev = some alarm ∧ First calendar st alarm) ∨
    (¬ best.secNext < 24 * 3600 ∧ ¬ best.secPrev < 0 ∧
      ∀ alarm ∈ st.head, ¬ Candidate calendar st alarm) := by
  intro best
  have hfound : Found calendar st st.head best := found_foldl htimed
  have hpresent := present_lt calendar st
  have hbound : ∀ alarm ∈ st.head, Candidate calendar st alarm →
      daysec st alarm < 24 * 3600 := fun alarm hmem hcandidate =>
    (htimed alarm hmem hcandidate.1).alarmMkdaysec_lt
  by_cases hnext : best.secNext < 24 * 3600
  · left
    obtain ⟨alarm, hmem, hfoundNext, ⟨hcandidate, hbehind⟩, hkey⟩ := hfound.next.mem hnext
    refine ⟨hnext, alarm, hfoundNext, ⟨hmem, hcandidate⟩, fun other hother hcandidate' => ?_⟩
    have hlt := hbound alarm hmem hcandidate
    have hlt' := hbound other hother hcandidate'
    rw [secTmp] at hbehind hkey
    rw [untilAlarm, untilAlarm, wait_of_lt (by omega) hlt]
    rcases Nat.lt_or_ge (present calendar st) (daysec st other) with hafter | hbefore
    · have hleast := hfound.next.least other hother
        ⟨hcandidate', by rw [secTmp]; omega⟩
      rw [secTmp] at hleast
      rw [wait_of_lt hafter hlt']
      omega
    · rw [wait_of_le hbefore hpresent]
      omega
  · right
    have hnone : ∀ alarm ∈ st.head, Candidate calendar st alarm →
        daysec st alarm < present calendar st := by
      intro alarm hmem hcandidate
      have hlt := hbound alarm hmem hcandidate
      have hne := hcandidate.2.2
      by_contra hge
      have hleast := hfound.next.least alarm hmem ⟨hcandidate, by rw [secTmp]; omega⟩
      rw [secTmp] at hleast
      omega
    by_cases hprev : best.secPrev < 0
    · left
      obtain ⟨alarm, hmem, hfoundPrev, ⟨hcandidate, hbefore⟩, hkey⟩ := hfound.prev.mem hprev
      refine ⟨hnext, hprev, alarm, hfoundPrev, ⟨hmem, hcandidate⟩,
        fun other hother hcandidate' => ?_⟩
      have hlt' := hnone other hother hcandidate'
      have hleast := hfound.prev.least other hother ⟨hcandidate', by rw [secTmp]; omega⟩
      rw [secTmp] at hbefore hkey hleast
      rw [untilAlarm, untilAlarm, wait_of_le (by omega) hpresent, wait_of_le hlt'.le hpresent]
      omega
    · refine .inr ⟨hnext, hprev, fun alarm hmem hcandidate => ?_⟩
      have hlt := hnone alarm hmem hcandidate
      have hleast := hfound.prev.least alarm hmem ⟨hcandidate, by rw [secTmp]; omega⟩
      rw [secTmp] at hleast
      omega

/-! ## `alarm_update` -/

/-- The state after the first loop. -/
def wakeAll (calendar : Calendar) (st : State) : State :=
  st.head.foldl (alarmWakeup calendar (calendar.localtimeR st.clock)) st

theorem woken_wakeAll (calendar : Calendar) (st : State) :
    Woken calendar (calendar.localtimeR st.clock) st st.head (wakeAll calendar st) :=
  woken_foldl ..

/-- An alarm is selected after the first loop, or there is no candidate. -/
theorem alarmUpdate_cases (htimed : Timed (wakeAll calendar st) st.head) :
    (∃ alarm, First calendar (wakeAll calendar st) alarm ∧
      alarmUpdate calendar st = makeCurrent (wakeAll calendar st) alarm) ∨
    ((∀ alarm ∈ st.head, ¬ Candidate calendar (wakeAll calendar st) alarm) ∧
      alarmUpdate calendar st = wakeAll calendar st) := by
  have hwoken := woken_wakeAll calendar st
  by_cases hempty : st.head = []
  · have hsame : wakeAll calendar st = st := by
      rw [wakeAll, hempty]
      rfl
    refine .inr ⟨?_, (if_pos hempty).trans hsame.symm⟩
    rw [hempty]
    exact fun _ hmem => absurd hmem List.not_mem_nil
  · have hequation : alarmUpdate calendar st =
        if (search calendar (wakeAll calendar st)).secNext < 24 * 3600 then
          enableFound (wakeAll calendar st) (search calendar (wakeAll calendar st)).almNext
        else if (search calendar (wakeAll calendar st)).secPrev < 0 then
          enableFound (wakeAll calendar st) (search calendar (wakeAll calendar st)).almPrev
        else wakeAll calendar st := if_neg hempty
    rw [← hwoken.head] at htimed ⊢
    rcases search_spec calendar htimed with ⟨hnext, alarm, hfound, hfirst⟩ |
        ⟨hnext, hprev, alarm, hfound, hfirst⟩ | ⟨hnext, hprev, hnone⟩
    · rw [if_pos hnext, hfound] at hequation
      exact .inl ⟨alarm, hfirst, hequation⟩
    · rw [if_neg hnext, if_pos hprev, hfound] at hequation
      exact .inl ⟨alarm, hfirst, hequation⟩
    · rw [if_neg hnext, if_neg hprev] at hequation
      exact .inr ⟨hnone, hequation⟩

end RtThread.Alarm
