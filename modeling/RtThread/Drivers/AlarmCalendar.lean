import RtThread.Drivers.AlarmUpdate

set_option linter.all false

/-!
# The calendar of the small C library

`gmtime_r` and `mktime` of `minilibc`, for the clock of the alarms.  The time zone is zero
there.
-/

namespace RtThread.Alarm

def isLeap (year : ℕ) : Bool :=
  decide (year % 4 = 0 ∧ (year % 100 ≠ 0 ∨ year % 400 = 0))

/-- `__spm`: the days before each month of a year that is not a leap year. -/
def spm : List ℕ :=
  [0, 31, 59, 90, 120, 151, 181, 212, 243, 273, 304, 334, 365]

def daysOfYear (year : ℕ) : ℕ :=
  if isLeap year then 366 else 365

/-- The loop over the years. -/
def skipYears : ℕ → ℕ → ℕ → ℕ × ℕ
  | 0, year, work => (year, work)
  | fuel + 1, year, work =>
    if work ≥ daysOfYear year then skipYears fuel (year + 1) (work - daysOfYear year)
    else (year, work)

/-- The loop over the months, from the last one down. -/
def monthOf (work : ℕ) : ℕ → ℕ
  | 0 => 0
  | month + 1 => if spm.getD (month + 1) 0 > work then monthOf work month else month + 1

def gmtimeR (timestamp : ℕ) : Tm :=
  let work := timestamp % (24 * 60 * 60)
  let days := timestamp / (24 * 60 * 60)
  let (year, yday) := skipYears (days / 365 + 1) 1970 days
  let mday := if isLeap year ∧ yday = 59 then 2 else 1
  let yday := if isLeap year ∧ yday > 58 then yday - 1 else yday
  let month := monthOf yday 11
  { tmSec := work % 60
    tmMin := work / 60 % 60
    tmHour := work / 60 / 60
    tmMday := mday + (yday - spm.getD month 0 : ℕ)
    tmMon := month
    tmYear := year - 1900
    tmWday := (4 + days) % 7 }

/-- `mktime` of a time whose fields are in their ranges. -/
def mktime (time : Tm) : ℕ :=
  if time.tmYear < 70 then 2 ^ 32 - 1
  else
    let years := (time.tmYear - 70).toNat
    let day := years * 365 + (years + 1) / 4
    let day :=
      if years ≥ 131 then
        let centuries := (years - 131) / 100
        let rest := centuries % 4
        day - (centuries / 4 * 3 + 1) - (if rest = 3 then rest - 1 else rest)
      else day
    let leap := if isLeap (time.tmYear + 1900).toNat ∧ time.tmMon > 1 then 1 else 0
    let day := day + (spm.getD time.tmMon.toNat 0 + time.tmMday.toNat - 1 + leap)
    (((day * 24 + time.tmHour.toNat) * 60 + time.tmMin.toNat) * 60 + time.tmSec.toNat) % 2 ^ 32

theorem validTime_gmtimeR (timestamp : ℕ) : ValidTime (gmtimeR timestamp) := by
  rw [gmtimeR]
  generalize skipYears _ _ _ = date
  dsimp only [ValidTime]
  omega

theorem alarmMkdaysec_gmtimeR (timestamp : ℕ) :
    alarmMkdaysec (gmtimeR timestamp) = timestamp % (24 * 60 * 60) := by
  have hvalid := (validTime_gmtimeR timestamp).alarmMkdaysec_eq
  have hsec : (gmtimeR timestamp).tmSec = (timestamp % (24 * 60 * 60) % 60 : ℕ) := rfl
  have hmin : (gmtimeR timestamp).tmMin = (timestamp % (24 * 60 * 60) / 60 % 60 : ℕ) := rfl
  have hhour : (gmtimeR timestamp).tmHour = (timestamp % (24 * 60 * 60) / 60 / 60 : ℕ) := rfl
  omega

/-- The clock in the time of `minilibc`. -/
def minilibc : Calendar where
  localtimeR := gmtimeR
  mktime := mktime
  valid := validTime_gmtimeR
  succ := by
    intro timestamp
    rw [alarmMkdaysec_gmtimeR, alarmMkdaysec_gmtimeR]
    omega

end RtThread.Alarm
