import TelnetServ.Time.Date
import TelnetServ.Common.Calendar
import TelnetServ.Common.LowerBound
/-!
# `TimeZone` — model

`toUtcTime` and `fromUtcTime`, and the two directions between a time and the
local time of a zone. A zone is a table of the types of local time and of the
transitions between them, as a zone file has it; nothing is known of it here.
What reads outside a vector is `none`.
-/

namespace TelnetServ

open Calendar

/-- `struct tm`, as `time.h` of the C library has it. -/
structure StructTm where
  sec : ℤ := 0
  min : ℤ := 0
  hour : ℤ := 0
  mday : ℤ := 0
  /-- Since January. -/
  mon : ℤ := 0
  /-- Since 1900. -/
  year : ℤ := 0
  wday : ℤ := 0
  yday : ℤ := 0
  isdst : Bool := false
  gmtoff : ℤ := 0
  zone : List UInt8 := []
  deriving DecidableEq

/-- A broken-down time with four digits for its year. -/
def tmOf (tm : StructTm) : Option Tm :=
  if h : (0 ≤ tm.year ∧ tm.year < 8100) ∧ (0 ≤ tm.mon ∧ tm.mon < 12) ∧
      (0 ≤ tm.mday ∧ tm.mday ≤ 31) ∧ (0 ≤ tm.hour ∧ tm.hour < 24) ∧
      (0 ≤ tm.min ∧ tm.min < 60) ∧ (0 ≤ tm.sec ∧ tm.sec ≤ 60) then
    some
      { year := tm.year.toNat, mon := tm.mon.toNat, mday := tm.mday.toNat, hour := tm.hour.toNat
        min := tm.min.toNat, sec := tm.sec.toNat
        year_lt := by omega
        mon_lt := by omega
        mday_le := by omega
        hour_lt := by omega
        min_lt := by omega
        sec_le := by omega }
  else none

/-- The first second of 1970. -/
def epochTm : Tm := (tmOf { year := 70, mday := 1 }).get (by decide)

/-! ## UTC -/

/-- `kSecondsPerDay`. -/
abbrev kSecondsPerDay : ℤ := 24 * 60 * 60

/-- `static_cast<int>`. -/
def castInt (x : ℤ) : ℤ := x.bmod (2 ^ 32)

/-- `fillHMS`; the number is not negative. -/
def fillHMS (seconds : ℤ) (utc : StructTm) : StructTm :=
  { utc with sec := seconds % 60, min := seconds / 60 % 60, hour := seconds / 60 / 60 }

/-- **`TimeZone::toUtcTime`**; `none` where an `int` overflows. -/
def toUtcTime (secondsSinceEpoch : ℤ) (yday : Bool) : Option StructTm :=
  let seconds := castInt (secondsSinceEpoch.tmod kSecondsPerDay)
  let days := castInt (secondsSinceEpoch.tdiv kSecondsPerDay)
  -- C rounds towards zero
  let r := if seconds < 0 then (seconds + kSecondsPerDay, days - 1) else (seconds, days)
  match ifInts [r.2, r.2 + kJulianDayOf1970] (r.2 + kJulianDayOf1970) with
  | none => none
  | some date =>
    match getYearMonthDay date, weekDay date with
    | some ymd, some wday =>
      let utc := { fillHMS r.1 { zone := [71, 77, 84] } with
        year := ymd.year - 1900, mon := ymd.month - 1, mday := ymd.day, wday := wday }
      if yday then
        (getJulianDayNumber ymd.year 1 1).map fun start => { utc with yday := date - start }
      else some utc
    | _, _ => none

/-- `TimeZone::fromUtcTime` of six numbers. -/
def fromUtcParts (year month day hour minute seconds : ℤ) : Option ℤ :=
  match getJulianDayNumber year month day with
  | none => none
  | some julianDayNumber =>
    let days := julianDayNumber - kJulianDayOf1970
    ifInts
      [hour * 3600, minute * 60, hour * 3600 + minute * 60,
        hour * 3600 + minute * 60 + seconds, days]
      (days * kSecondsPerDay + (hour * 3600 + minute * 60 + seconds))

/-- **`TimeZone::fromUtcTime`**; `none` where an `int` overflows. -/
def fromUtcTime (utc : StructTm) : Option ℤ :=
  match ifInts [utc.year + 1900, utc.mon + 1] (utc.year + 1900, utc.mon + 1) with
  | none => none
  | some (year, month) => fromUtcParts year month utc.mday utc.hour utc.min utc.sec

/-! ## Zones -/

/-- `Transition`. -/
structure Transition where
  gmttime : ℤ
  localtime : ℤ
  localtimeIdx : ℕ
  deriving DecidableEq

/-- `Localtime`. -/
structure Localtime where
  gmtOffset : ℤ
  isDst : Bool
  arrbIdx : ℕ
  deriving DecidableEq

/-- **`TimeZone::Data`.** -/
structure ZoneData where
  transitions : List Transition := []
  localtimes : List Localtime := []
  abbreviation : List UInt8 := []
  deriving DecidableEq

/-- The member `Comp` compares: `gmttime`, or `localtime`. -/
def Comp.key (compareGmt : Bool) (t : Transition) : ℤ :=
  if compareGmt then t.gmttime else t.localtime

/-- `lower_bound` over the transitions. -/
def lowerTransition (data : ZoneData) (sentry : ℤ) (compareGmt : Bool) : ℕ :=
  lowerBound (fun i => data.transitions[i]?.any fun t => Comp.key compareGmt t < sentry) 0
    data.transitions.length

/-- **`findLocaltime`**, `sentry` being the member of it that is compared;
`none` where a vector is read outside its bounds, or an iterator goes before
its beginning. -/
def findLocaltime (data : ZoneData) (sentry : ℤ) (compareGmt : Bool) : Option Localtime :=
  match data.transitions.head? with
  | none => data.localtimes.head?
  | some front =>
    if sentry < Comp.key compareGmt front then data.localtimes.head?
    else
      let i := lowerTransition data sentry compareGmt
      match data.transitions[i]? with
      | some t =>
        if sentry = Comp.key compareGmt t then data.localtimes[t.localtimeIdx]?
        -- `assert(transI != data.transitions.begin())`
        else if i = 0 then none
        else (data.transitions[i - 1]?).bind fun t => data.localtimes[t.localtimeIdx]?
      | none => data.transitions.getLast?.bind fun t => data.localtimes[t.localtimeIdx]?

/-- What the C library has for UTC. -/
structure TimeLib where
  gmtime : ℤ → StructTm
  timegm : StructTm → ℤ

/-- `&data.abbreviation[i]`, read as a string. -/
def abbreviationAt (data : ZoneData) (i : ℕ) : Option (List UInt8) :=
  if i ≤ data.abbreviation.length then some ((data.abbreviation.drop i).takeWhile (· ≠ 0)) else none

/-- **`TimeZone::toLocalTime`** of a zone that is valid. -/
def toLocalTime (lib : TimeLib) (data : ZoneData) (seconds : ℤ) : Option StructTm :=
  match findLocaltime data seconds true with
  | none => none
  | some l =>
    (abbreviationAt data l.arrbIdx).map fun zone =>
      { lib.gmtime (seconds + l.gmtOffset) with
        isdst := l.isDst, gmtoff := l.gmtOffset, zone := zone }

/-- **`TimeZone::fromLocalTime`** of a zone that is valid. -/
def fromLocalTime (lib : TimeLib) (data : ZoneData) (localTm : StructTm) : Option ℤ :=
  let seconds := lib.timegm localTm
  match findLocaltime data seconds false with
  | none => none
  | some l =>
    if localTm.isdst then
      (toLocalTime lib data (seconds - l.gmtOffset)).map fun tryTm =>
        if tryTm.isdst = false ∧ tryTm.hour = localTm.hour ∧ tryTm.min = localTm.min then
          seconds - 3600 - l.gmtOffset
        else seconds - l.gmtOffset
    else some (seconds - l.gmtOffset)

/-- A fixed zone, as the constructor with an offset makes it. -/
def fixedZone (eastOfUtc : ℤ) (name : List UInt8) : ZoneData where
  localtimes := [⟨eastOfUtc, false, 0⟩]
  abbreviation := name

end TelnetServ
