import TelnetServ.Output.Delivery
import TelnetServ.Time.Local
/-!
# The stamps

The stamp of a line is the local time of the call, looked up in the table of
`sLocalZone` and printed with a fixed width. Two lines sort by their stamps as
their calls do in local time (`stampsSort_iff`), so they sort by time but where
the clock has been put back between them.
-/

namespace TelnetServ

open Calendar Decimal CStr Gregorian

/-! ## The zone -/

/-- **`sLocalZone.toLocalTime`**, as `formatTime` uses it. What it is outside
the years of four digits does not matter. -/
def sLocalZone (lib : TimeLib) (data : ZoneData) (seconds : ℤ) : Tm :=
  ((toLocalTime lib data seconds).bind tmOf).getD epochTm

/-- The local time of a second, counted as a time is. -/
def localSeconds (data : ZoneData) (seconds : ℤ) : ℤ :=
  seconds + ((findLocaltime data seconds true).map Localtime.gmtOffset).getD 0

/-- The years from 1900 to 9999. -/
def FourDigitYear (t : ℤ) : Prop :=
  2415021 ≤ t / 86400 + kJulianDayOf1970 ∧ t / 86400 + kJulianDayOf1970 ≤ 5373484

instance (t : ℤ) : Decidable (FourDigitYear t) := by unfold FourDigitYear; infer_instance

/-- The first day of 1900 and the last day of 9999. -/
theorem fourDigitYear_bounds {tm : StructTm} {t : ℤ} {d : Civil} (hs : Shows tm t d)
    (hyear : FourDigitYear t) : 1900 ≤ d.year ∧ d.year ≤ 9999 := by
  have hd := hs.julianOf_eq
  obtain ⟨hlo, hhi⟩ := hyear
  obtain ⟨hbelow, habove⟩ := d.dayNumber_mem_year
  have h1900 : daysBeforeYear 1900 = 693595 := by decide
  have h10000 : daysBeforeYear 10000 = 3652059 := by decide
  rw [julianOf] at hd
  constructor
  · have hlt : daysBeforeYear 1900 < daysBeforeYear (d.year + 1) := by omega
    have := daysBeforeYear_strictMono.lt_iff_lt.mp hlt
    omega
  · have hlt : daysBeforeYear d.year < daysBeforeYear 10000 := by omega
    have := daysBeforeYear_strictMono.lt_iff_lt.mp hlt
    omega

/-- What is printed of a time is what is shown of it. -/
structure PrintsAs (r : Tm) (tm : StructTm) : Prop where
  year : (r.year : ℤ) = tm.year
  mon : (r.mon : ℤ) = tm.mon
  mday : (r.mday : ℤ) = tm.mday
  hour : (r.hour : ℤ) = tm.hour
  min : (r.min : ℤ) = tm.min
  sec : (r.sec : ℤ) = tm.sec

theorem tmOf_eq {tm : StructTm} {t : ℤ} {d : Civil} (hs : Shows tm t d) (hyear : FourDigitYear t) :
    ∃ r, tmOf tm = some r ∧ PrintsAs r tm := by
  have hbounds := fourDigitYear_bounds hs hyear
  have h1 := hs.year
  have h2 := hs.mon
  have h3 := hs.mday
  have hhour := hs.hour
  have hmin := hs.min
  have hsec := hs.sec
  have hpos := d.month_pos
  have hle := d.month_le
  have hday := d.day_pos
  have hdayLe := d.day_le.trans (monthLength_le ..)
  refine ⟨_, dif_pos (by omega), ?_, ?_, ?_, ?_, ?_, ?_⟩ <;> dsimp only <;> omega

/-- **The zone shows the local time.** -/
theorem sLocalZone_shows {lib : TimeLib} {data : ZoneData} (hlib : lib.Correct) (hs : data.Sound)
    (hnamed : data.Named) {t : ℤ} (hyear : FourDigitYear (localSeconds data t)) :
    ∃ tm d, Shows tm (localSeconds data t) d ∧ PrintsAs (sLocalZone lib data t) tm := by
  obtain ⟨l, hl, hfind⟩ := findLocaltime_isSome hs t true
  have hlocal : localSeconds data t = t + l.gmtOffset := by
    rw [localSeconds, hfind]
    rfl
  have hlast : lastJulian = 536838867 := rfl
  rw [hlocal] at hyear ⊢
  obtain ⟨d, hd⟩ := hlib.gmtime (t + l.gmtOffset)
    ⟨by have := hyear.1; omega, by have := hyear.2; omega⟩
  have htm : toLocalTime lib data t = some (shownTm lib data t l) := by
    rw [toLocalTime, hfind]
    simp only [abbreviationAt, if_pos (hnamed l hl)]
    rfl
  have hshown : Shows (shownTm lib data t l) (t + l.gmtOffset) d :=
    ⟨hd.year, hd.mon, hd.mday, hd.hour, hd.min, hd.sec, hd.time⟩
  obtain ⟨r, hr, hprints⟩ := tmOf_eq hshown hyear
  refine ⟨shownTm lib data t l, d, hshown, ?_⟩
  rw [sLocalZone, htm, Option.bind_some, hr]
  exact hprints

/-! ## The text -/

/-- Of two broken-down times the first is the earlier: the first part that
differs is smaller. -/
def TmBefore (s t : Tm) : Prop :=
  s.year < t.year ∨ s.year = t.year ∧
    (s.mon < t.mon ∨ s.mon = t.mon ∧
      (s.mday < t.mday ∨ s.mday = t.mday ∧
        (s.hour < t.hour ∨ s.hour = t.hour ∧
          (s.min < t.min ∨ s.min = t.min ∧ s.sec < t.sec))))

/-- A year of four digits needs no blanks. -/
theorem padLeft_year {n : ℕ} (h : 1000 ≤ n) : padLeft 32 4 n = padLeft 48 4 n := by
  have hlen : 4 ≤ (natDigits n).length := by
    by_contra hshort
    have hlt := digitsVal_lt fun c => isDigit_of_mem_natDigits (n := n) (c := c)
    rw [digitsVal_natDigits] at hlt
    have := Nat.pow_le_pow_right (show 0 < 10 by decide)
      (show (natDigits n).length ≤ 3 by omega)
    omega
  rw [padLeft, padLeft, Nat.sub_eq_zero_of_le hlen]
  rfl

/-- A number and what stands behind it. -/
theorem strncmp_number {w n a b : ℕ} {c : UInt8} (hw : 0 < w) (hc : c ≠ 0) (ha : a < 10 ^ w)
    (hb : b < 10 ^ w) (p q : List UInt8) :
    strncmp (w + (n + 1)) (padLeft 48 w a ++ c :: p) (padLeft 48 w b ++ c :: q) < 0 ↔
      a < b ∨ a = b ∧ strncmp n p q < 0 := by
  rw [strncmp_padLeft hw ha hb, strncmp_cons hc]

/-- **The texts of two times sort as the times.** -/
theorem strncmp_timeText (s t : Tm) (p q : List UInt8) :
    strncmp timeStrLen (timeText s ++ p) (timeText t ++ q) < 0 ↔ TmBefore s t := by
  have hs1 := s.mon_lt
  have hs2 := s.mday_le
  have hs3 := s.hour_lt
  have hs4 := s.min_lt
  have hs5 := s.sec_le
  have ht1 := t.mon_lt
  have ht2 := t.mday_le
  have ht3 := t.hour_lt
  have ht4 := t.min_lt
  have ht5 := t.sec_le
  have htext : ∀ (r : Tm) (u : List UInt8), timeText r ++ u =
      91 :: (padLeft 48 4 (r.year + 1900) ++ 45 :: (padLeft 48 2 (r.mon + 1) ++
        45 :: (padLeft 48 2 r.mday ++ 32 :: (padLeft 48 2 r.hour ++ 58 ::
          (padLeft 48 2 r.min ++ 58 :: (padLeft 48 2 r.sec ++ 93 :: u)))))) := by
    intro r u
    rw [timeText, padLeft_year (by omega)]
    simp only [List.append_assoc]
    rfl
  rw [htext, htext, show timeStrLen = 20 + 1 from rfl, strncmp_cons (by decide),
    strncmp_number (w := 4) (n := 15) (by decide) (by decide) s.year_lt t.year_lt,
    strncmp_number (w := 2) (n := 12) (by decide) (by decide) (by omega) (by omega),
    strncmp_number (w := 2) (n := 9) (by decide) (by decide) (by omega) (by omega),
    strncmp_number (w := 2) (n := 6) (by decide) (by decide) (by omega) (by omega),
    strncmp_number (w := 2) (n := 3) (by decide) (by decide) (by omega) (by omega),
    strncmp_number (w := 2) (n := 0) (by decide) (by decide) (by omega) (by omega)]
  unfold TmBefore
  simp only [strncmp, Int.lt_irrefl, and_false, or_false]
  omega

/-! ## The order -/

/-- **What is printed of two times sorts as the times.** -/
theorem tmBefore_iff {tm tm' : StructTm} {t t' : ℤ} {d d' : Civil} {r r' : Tm}
    (hs : Shows tm t d) (hs' : Shows tm' t' d') (hr : PrintsAs r tm) (hr' : PrintsAs r' tm') :
    TmBefore r r' ↔ t < t' := by
  have hdays : julianOf d < julianOf d' ↔ d.dayNumber < d'.dayNumber := by
    rw [julianOf, julianOf]
    omega
  have hdays' : julianOf d' < julianOf d ↔ d'.dayNumber < d.dayNumber := by
    rw [julianOf, julianOf]
    omega
  rw [Civil.dayNumber_lt_iff] at hdays hdays'
  have htime := hs.time
  have htime' := hs'.time
  have hday : 0 ≤ tm.hour * 3600 + tm.min * 60 + tm.sec ∧
      tm.hour * 3600 + tm.min * 60 + tm.sec < 86400 := by
    have := hs.hour
    have := hs.min
    have := hs.sec
    omega
  have hday' : 0 ≤ tm'.hour * 3600 + tm'.min * 60 + tm'.sec ∧
      tm'.hour * 3600 + tm'.min * 60 + tm'.sec < 86400 := by
    have := hs'.hour
    have := hs'.min
    have := hs'.sec
    omega
  -- the date decides, and within a day the time of the day
  have hdate : t < t' ↔ julianOf d < julianOf d' ∨ ¬ julianOf d' < julianOf d ∧
      tm.hour * 3600 + tm.min * 60 + tm.sec < tm'.hour * 3600 + tm'.min * 60 + tm'.sec := by
    omega
  have hclock : tm.hour * 3600 + tm.min * 60 + tm.sec < tm'.hour * 3600 + tm'.min * 60 + tm'.sec ↔
      tm.hour < tm'.hour ∨ tm.hour = tm'.hour ∧
        (tm.min < tm'.min ∨ tm.min = tm'.min ∧ tm.sec < tm'.sec) := by
    have := hs.min
    have := hs.sec
    have := hs'.min
    have := hs'.sec
    omega
  have hyear := hs.year
  have hmon := hs.mon
  have hmday := hs.mday
  have hyear' := hs'.year
  have hmon' := hs'.mon
  have hmday' := hs'.mday
  have hry := hr.year
  have hrmon := hr.mon
  have hrmday := hr.mday
  have hrhour := hr.hour
  have hrmin := hr.min
  have hrsec := hr.sec
  have hry' := hr'.year
  have hrmon' := hr'.mon
  have hrmday' := hr'.mday
  have hrhour' := hr'.hour
  have hrmin' := hr'.min
  have hrsec' := hr'.sec
  rw [hdate, hclock, hdays, hdays', TmBefore]
  omega

/-- Two times neither of which is before the other are the same. -/
theorem eq_of_not_tmBefore {s t : Tm} (h : ¬ TmBefore s t) (h' : ¬ TmBefore t s) : s = t := by
  unfold TmBefore at h h'
  cases s
  cases t
  dsimp only at h h'
  rw [Tm.mk.injEq]
  omega

/-- What a call hands on begins with the stamp of its second. -/
theorem stamp_of_mem {zone : ℤ → Tm} {calls : List PrintCall} {call : PrintCall} {m : List UInt8}
    (hret : ∀ printed ∈ call.szFormat, ¬ (-21 ≤ printed.ret ∧ printed.ret ≤ -1))
    (hm : m ∈ ((printMachine zone).step ((printMachine zone).after (some {}) calls) call).1) :
    ∃ text, m = timeText (zone call.seconds) ++ text := by
  obtain ⟨c, hafter, hc⟩ := cacheOk_run zone calls
  obtain ⟨c', -, heq⟩ := telPrintf_eq hc call fun printed h => hret printed h
  rw [hafter] at hm
  change m ∈ (telPrintf zone call c).1 at hm
  rw [heq] at hm
  dsimp only at hm
  split_ifs at hm with hclient
  · cases hm
  · cases hformat : call.szFormat with
    | none =>
      rw [hformat] at hm
      cases hm
    | some printed =>
      rw [hformat, lineFor] at hm
      split_ifs at hm
      · exact ⟨printed.text, List.mem_singleton.mp hm⟩
      · cases hm

/-- A call in a second. -/
def callAt (seconds : ℤ) (h : 0 < seconds) : PrintCall := ⟨5, seconds, h, some (printedText [72])⟩

/-- The line of such a call. -/
def lineAt (seconds : ℤ) : List UInt8 := timeText (sLocalZone utcLib oneWinter seconds) ++ [72]

end TelnetServ
