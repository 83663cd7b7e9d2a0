import RtThread.Core.CyclicClock
import RtThread.Core.Machine

set_option linter.all false

/-!
# The alarms of `alarm.c`

The alarms share the one alarm of the RTC device: the container keeps the alarm that is
programmed as `current`, and every operation programs another one when it should ring first.
The alarms are kept by their addresses, `flag` by its three parts, and the calls of the
callbacks, with their timestamps, in a list.

The operations of the device succeed: it keeps the time that was set, and returns it.  A
second passes only when the event of the programmed time has been handled.
-/

namespace RtThread.Alarm

open Function
open RtThread.Core

def rtRtcYearsMax : ℤ := 137
def rtAlarmDelay : ℕ := 2
def rtAlarmTmNow : ℤ := -1

def rtAlarmOneshot : ℕ := 0x000
def rtAlarmDaily : ℕ := 0x100
def rtAlarmWeekly : ℕ := 0x200
def rtAlarmMonthly : ℕ := 0x400
def rtAlarmYaerly : ℕ := 0x800

def rtEok : ℤ := 0
def rtError : ℤ := 1

/-- `struct tm`, without the day of the year. -/
structure Tm where
  tmSec : ℤ
  tmMin : ℤ
  tmHour : ℤ
  tmMday : ℤ
  tmMon : ℤ
  tmYear : ℤ
  tmWday : ℤ

/-- `struct rt_rtc_wkalarm`: the alarm of the device. -/
structure RtRtcWkalarm where
  enable : Bool
  tmSec : ℤ
  tmMin : ℤ
  tmHour : ℤ
  deriving DecidableEq

/-- `struct rt_alarm`; `mode` is `flag & 0xFF00`, and `inited` and `start` are the bits
`RT_ALARM_STATE_INITED` and `RT_ALARM_STATE_START`. -/
structure RtAlarm where
  mode : ℕ
  inited : Bool
  start : Bool
  callback : Bool
  wktime : Tm

/-- The container, the RTC with its event, and the clock. -/
structure State where
  head : List ℕ
  alarm : ℕ → RtAlarm
  current : Option ℕ
  rtc : RtRtcWkalarm
  clock : ℕ
  event : Bool
  calls : List (ℕ × ℕ)

/-! ## Times -/

/-- A time of day. -/
def ValidTime (time : Tm) : Prop :=
  (0 ≤ time.tmSec ∧ time.tmSec ≤ 59) ∧ (0 ≤ time.tmMin ∧ time.tmMin ≤ 59) ∧
    0 ≤ time.tmHour ∧ time.tmHour ≤ 23

def alarmMkdaysec (time : Tm) : ℕ :=
  ((time.tmSec + time.tmMin * 60 + time.tmHour * 3600) % 2 ^ 32).toNat

/-- The value of an unsigned word in a variable of type `rt_int32_t`. -/
def asInt32 (value : ℕ) : ℤ :=
  if value < 2 ^ 31 then value else value - 2 ^ 32

/-- The functions of the C library on times: `localtime_r` goes through the times of day,
second by second, and `mktime`, which leaves a valid time as it is, gives a number of 32
bits. -/
structure Calendar where
  localtimeR : ℕ → Tm
  mktime : Tm → ℕ
  valid : ∀ timestamp, ValidTime (localtimeR timestamp)
  succ : ∀ timestamp, alarmMkdaysec (localtimeR (timestamp + 1)) =
    (alarmMkdaysec (localtimeR timestamp) + 1) % (24 * 3600)

/-! ## `alarm_set` and `alarm_wakeup` -/

def alarmSet (st : State) (alarm : ℕ) : State :=
  let self := st.alarm alarm
  let wkalarm : RtRtcWkalarm :=
    ⟨self.start, self.wktime.tmSec, self.wktime.tmMin, self.wktime.tmHour⟩
  if wkalarm.enable then
    -- the time is read back from the device
    { st with
      rtc := wkalarm
      alarm := update st.alarm alarm { self with
        wktime := { self.wktime with
          tmSec := wkalarm.tmSec, tmMin := wkalarm.tmMin, tmHour := wkalarm.tmHour } } }
  else { st with rtc := wkalarm }

/-- `(sec_now - sec_alarm) <= RT_ALARM_DELAY`, in unsigned words. -/
def withinDelay (secNow secAlarm : ℕ) : Bool :=
  decide ((secNow + (2 ^ 32 - secAlarm)) % 2 ^ 32 ≤ rtAlarmDelay)

/-- Whether it is time for an alarm that is started. -/
def wakes (calendar : Calendar) (alarm : RtAlarm) (now : Tm) : Bool :=
  let secAlarm := alarmMkdaysec alarm.wktime
  let secNow := alarmMkdaysec now
  if alarm.mode = rtAlarmOneshot then
    let secAlarm := calendar.mktime alarm.wktime
    let secNow := calendar.mktime now
    withinDelay secNow secAlarm && decide (secNow ≥ secAlarm)
  else if alarm.mode = rtAlarmDaily then
    withinDelay secNow secAlarm && decide (secNow ≥ secAlarm)
  else if alarm.mode = rtAlarmWeekly then
    let secAlarm := ((secAlarm + alarm.wktime.tmWday * 24 * 3600) % 2 ^ 32).toNat
    let secNow := ((secNow + now.tmWday * 24 * 3600) % 2 ^ 32).toNat
    withinDelay secNow secAlarm && decide (secNow ≥ secAlarm)
  else if alarm.mode = rtAlarmMonthly then
    decide (alarm.wktime.tmMday = now.tmMday) && withinDelay secNow secAlarm
  else if alarm.mode = rtAlarmYaerly then
    decide (alarm.wktime.tmMday = now.tmMday ∧ alarm.wktime.tmMon = now.tmMon) &&
      withinDelay secNow secAlarm
  else false

def alarmWakeup (calendar : Calendar) (now : Tm) (st : State) (alarm : ℕ) : State :=
  let self := st.alarm alarm
  if self.start = true ∧ wakes calendar self now = true then
    let st :=
      if self.mode = rtAlarmOneshot then
        alarmSet { st with
          alarm := update st.alarm alarm { self with start := false } } alarm
      else st
    if self.callback then { st with calls := st.calls ++ [(alarm, st.clock)] } else st
  else st

/-! ## `alarm_update` -/

/-- `sec_next`, `alm_next`, `sec_prev` and `alm_prev`. -/
structure Best where
  secNext : ℤ
  almNext : Option ℕ
  secPrev : ℤ
  almPrev : Option ℕ

/-- The loop that searches the alarms for the next one. -/
def consider (st : State) (secNow : ℤ) (best : Best) (alarm : ℕ) : Best :=
  let secAlarm := asInt32 (alarmMkdaysec (st.alarm alarm).wktime)
  if (st.alarm alarm).start = true ∧ st.current ≠ some alarm then
    let secTmp := secAlarm - secNow
    if 0 < secTmp then
      if secTmp < best.secNext then { best with secNext := secTmp, almNext := some alarm } else best
    else if secTmp < best.secPrev then { best with secPrev := secTmp, almPrev := some alarm }
    else best
  else best

/-- An alarm is programmed, and becomes the current one. -/
def makeCurrent (st : State) (alarm : ℕ) : State :=
  { alarmSet st alarm with current := some alarm }

def search (calendar : Calendar) (st : State) : Best :=
  let secNow := asInt32 (alarmMkdaysec (calendar.localtimeR st.clock))
  st.head.foldl (consider st secNow) ⟨24 * 3600, none, 0, none⟩

/-- The alarm that was found; the pointer is not `RT_NULL` then. -/
def enableFound (st : State) : Option ℕ → State
  | some alarm => makeCurrent st alarm
  | none => st

def alarmUpdate (calendar : Calendar) (st : State) : State :=
  if st.head = [] then st
  else
    let now := calendar.localtimeR st.clock
    let st := st.head.foldl (alarmWakeup calendar now) st
    let best := search calendar st
    if best.secNext < 24 * 3600 then enableFound st best.almNext
    else if best.secPrev < 0 then enableFound st best.almPrev
    else st

/-! ## `alarm_setup` -/

def daysOfYearMonth (tmYear tmMon : ℤ) : ℤ :=
  let year := tmYear + 1900
  if tmMon = 1 then
    if (year % 4 = 0 ∧ year % 100 ≠ 0) ∨ year % 400 = 0 then 29 else 28
  else if (tmMon ≤ 6 ∧ tmMon % 2 = 0) ∨ (6 < tmMon ∧ tmMon % 2 = 1) then 31
  else 30

def isValidDate (date : Tm) : Bool :=
  if date.tmYear < 0 ∨ date.tmYear > rtRtcYearsMax then false
  else if date.tmMon < 0 ∨ date.tmMon > 11 then false
  else if date.tmMday < 1 ∨ date.tmMday > daysOfYearMonth date.tmYear date.tmMon then false
  else true

/-- A field that is out of its range is set to the present value. -/
def orNow (value low high now : ℤ) : ℤ :=
  if value > high ∨ value < low then now else value

/-- The fields of the day, by the mode, and whether they are right. -/
def setupDay (mode : ℕ) (setup now : Tm) : Tm × ℤ :=
  if mode = rtAlarmDaily then (setup, rtEok)
  else if mode = rtAlarmOneshot then
    let setup := { setup with
      tmYear := if setup.tmYear = rtAlarmTmNow then now.tmYear else setup.tmYear
      tmMon := if setup.tmMon = rtAlarmTmNow then now.tmMon else setup.tmMon
      tmMday := if setup.tmMday = rtAlarmTmNow then now.tmMday else setup.tmMday }
    (setup, if isValidDate setup then rtEok else rtError)
  else if mode = rtAlarmWeekly then
    ({ setup with tmWday := orNow setup.tmWday 0 6 now.tmWday }, rtEok)
  else if mode = rtAlarmMonthly then
    ({ setup with tmMday := orNow setup.tmMday 1 31 now.tmMday }, rtEok)
  else if mode = rtAlarmYaerly then
    let setup := { setup with tmMon := orNow setup.tmMon 0 11 now.tmMon }
    let last :=
      if setup.tmMon = 1 then 29
      else if (setup.tmMon ≤ 6 ∧ setup.tmMon % 2 = 0) ∨
        (6 < setup.tmMon ∧ setup.tmMon % 2 = 1) then 31
      else 30
    ({ setup with tmMday := orNow setup.tmMday 1 last now.tmMday }, rtEok)
  else (setup, rtError)

def alarmSetup (now : Tm) (alarm : RtAlarm) : RtAlarm × ℤ :=
  let setup := { alarm.wktime with
    tmSec := orNow alarm.wktime.tmSec 0 59 now.tmSec
    tmMin := orNow alarm.wktime.tmMin 0 59 now.tmMin
    tmHour := orNow alarm.wktime.tmHour 0 23 now.tmHour }
  let (setup, ret) := setupDay alarm.mode setup now
  if ret = rtEok then
    -- the last second of the day rings ahead of its time
    let setup :=
      if setup.tmHour = 23 ∧ setup.tmMin = 59 ∧ setup.tmSec = 59 then
        { setup with tmSec := 60 - rtAlarmDelay }
      else setup
    ({ alarm with wktime := setup, inited := true }, rtEok)
  else ({ alarm with wktime := setup }, rtError)

/-! ## `rt_alarm_start`, `rt_alarm_stop` and `rt_alarm_delete` -/

/-- The first lines of `rt_alarm_start`. -/
def prepare (calendar : Calendar) (st : State) (alarm : ℕ) : State × ℤ :=
  if (st.alarm alarm).inited then (st, rtEok)
  else
    let (self, ret) := alarmSetup (calendar.localtimeR st.clock) (st.alarm alarm)
    ({ st with alarm := update st.alarm alarm self }, ret)

def setStart (st : State) (alarm : ℕ) (start : Bool) : State :=
  { st with
    alarm := update st.alarm alarm { st.alarm alarm with start := start } }

/-- The test of `rt_alarm_start` for programming the new alarm in place of the old one. -/
def ringsBefore (secNow secNew secOld : ℤ) : Prop :=
  (secNew < secOld ∧ secNew > secNow) ∨ (secNew > secNow ∧ secOld < secNow) ∨
    (secNew < secOld ∧ secOld < secNow)

instance (secNow secNew secOld : ℤ) : Decidable (ringsBefore secNow secNew secOld) :=
  inferInstanceAs (Decidable (_ ∨ _ ∨ _))

def rtAlarmStart (calendar : Calendar) (st : State) (alarm : ℕ) : State × ℤ :=
  let (st, ret) := prepare calendar st alarm
  if ret ≠ rtEok then (st, rtError)
  else if (st.alarm alarm).start = false then
    let st := setStart st alarm true
    match st.current with
    | none => (makeCurrent st alarm, rtEok)
    | some old =>
      let secNow := asInt32 (alarmMkdaysec (calendar.localtimeR st.clock))
      let secOld := asInt32 (alarmMkdaysec (st.alarm old).wktime)
      let secNew := asInt32 (alarmMkdaysec (st.alarm alarm).wktime)
      if ringsBefore secNow secNew secOld then (makeCurrent st alarm, rtEok)
      else (st, rtEok)
  else (st, rtError)

/-- An alarm that is stopped leaves the RTC. -/
def leaveRtc (st : State) (alarm : ℕ) : State :=
  { alarmSet st alarm with current := none }

def rtAlarmStop (calendar : Calendar) (st : State) (alarm : ℕ) : State × ℤ :=
  if (st.alarm alarm).start = false then (st, rtError)
  else
    let st := setStart st alarm false
    if st.current = some alarm then (alarmUpdate calendar (leaveRtc st alarm), rtEok)
    else (st, rtError)

def rtAlarmDelete (calendar : Calendar) (st : State) (alarm : ℕ) : State × ℤ :=
  let st := setStart st alarm false
  let (st, ret) :=
    if st.current = some alarm then (alarmUpdate calendar (leaveRtc st alarm), rtEok)
    else (st, rtError)
  ({ st with head := st.head.erase alarm }, ret)

/-! ## The machine -/

inductive Action
  /-- a second passes -/
  | tick
  /-- `alarm_update` in the thread of the alarms -/
  | update
  | start (alarm : ℕ)
  | stop (alarm : ℕ)
  | delete (alarm : ℕ)
  deriving DecidableEq

inductive Event
  | done
  | returned (ret : ℤ)
  deriving DecidableEq

/-- The RTC rings when its alarm is enabled for the time of day that the clock reaches. -/
def rings (rtc : RtRtcWkalarm) (now : Tm) : Bool :=
  decide (rtc = ⟨true, now.tmSec, now.tmMin, now.tmHour⟩)

def tickClock (calendar : Calendar) (st : State) : State :=
  { st with
    clock := st.clock + 1
    event := rings st.rtc (calendar.localtimeR (st.clock + 1)) }

/-- A call on an alarm of the container. -/
def call (st : State) (alarm : ℕ) (result : State × ℤ) : Option (State × Event) :=
  if alarm ∈ st.head then some (result.1, .returned result.2) else none

/-- The event of the RTC is handled before anything else happens. -/
def step (calendar : Calendar) (st : State) (act : Action) : Option (State × Event) :=
  if st.event = true ∧ act ≠ .update then none
  else
    match act with
    | .tick => some (tickClock calendar st, .done)
    | .update => some (alarmUpdate calendar { st with event := false }, .done)
    | .start alarm => call st alarm (rtAlarmStart calendar st alarm)
    | .stop alarm => call st alarm (rtAlarmStop calendar st alarm)
    | .delete alarm => call st alarm (rtAlarmDelete calendar st alarm)

def machine (calendar : Calendar) : Machine State Action Event where
  step := step calendar

end RtThread.Alarm
