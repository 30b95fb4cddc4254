import TelnetServ.Time.Utc
/-!
# Local time

`findLocaltime` finds the type of local time in force, and in a vector that is
not even sorted reads nothing it may not read (`findLocaltime_isSome`). Going
back is harder: a local time that is shown twice is taken for the later of the
two, but for a daylight saving time of one hour (`local_roundTrip_iff`).
-/

namespace TelnetServ

open Gregorian

/-! ## What may be read -/

/-- **Every index of a type is one.** -/
structure ZoneData.Sound (data : ZoneData) : Prop where
  localtimes : data.localtimes ≠ []
  transitions : ∀ t ∈ data.transitions, t.localtimeIdx < data.localtimes.length

/-- Every type has a name. -/
def ZoneData.Named (data : ZoneData) : Prop :=
  ∀ l ∈ data.localtimes, l.arrbIdx ≤ data.abbreviation.length

variable {data : ZoneData} {compareGmt : Bool} {sentry : ℤ}

/-- The test `lower_bound` makes of a position. -/
def belowSentry (data : ZoneData) (sentry : ℤ) (compareGmt : Bool) (i : ℕ) : Bool :=
  data.transitions[i]?.any fun t => Comp.key compareGmt t < sentry

theorem belowSentry_of_getElem {i : ℕ} {t : Transition} (h : data.transitions[i]? = some t) :
    belowSentry data sentry compareGmt i = true ↔ Comp.key compareGmt t < sentry := by
  rw [belowSentry, h]
  simp

theorem lowerTransition_spec (data : ZoneData) (sentry : ℤ) (compareGmt : Bool) :
    Bounds (belowSentry data sentry compareGmt) 0 data.transitions.length
      (lowerTransition data sentry compareGmt) := lowerBound_spec ..

theorem getElem_isSome_of_lt {α : Type*} {l : List α} {i : ℕ} (h : i < l.length) :
    ∃ a ∈ l, l[i]? = some a := ⟨l[i], List.getElem_mem h, List.getElem?_eq_getElem h⟩

/-- The type of a transition. -/
theorem ZoneData.Sound.exists_type (hs : data.Sound) {t : Transition} (ht : t ∈ data.transitions) :
    ∃ l ∈ data.localtimes, data.localtimes[t.localtimeIdx]? = some l :=
  getElem_isSome_of_lt (hs.transitions t ht)

/-- **`findLocaltime` reads inside the vectors**, and its assertion holds, in
whatever order the transitions are. -/
theorem findLocaltime_isSome (hs : data.Sound) (sentry : ℤ) (compareGmt : Bool) :
    ∃ l ∈ data.localtimes, findLocaltime data sentry compareGmt = some l := by
  have hfront : ∃ l ∈ data.localtimes, data.localtimes.head? = some l :=
    ⟨_, List.head_mem hs.localtimes, List.head?_eq_some_head hs.localtimes⟩
  obtain ⟨-, hle, hbefore, hbehind⟩ := lowerTransition_spec data sentry compareGmt
  rw [Nat.zero_add] at hle hbehind
  unfold findLocaltime
  cases hhead : data.transitions.head? with
  | none => exact hfront
  | some front =>
    dsimp only
    by_cases hearly : sentry < Comp.key compareGmt front
    · rw [if_pos hearly]
      exact hfront
    rw [if_neg hearly]
    generalize lowerTransition data sentry compareGmt = i at *
    have hne : data.transitions ≠ [] := by
      rintro hnil
      rw [hnil] at hhead
      cases hhead
    rcases Nat.lt_or_ge i data.transitions.length with hlt | hge
    · obtain ⟨t, ht, hget⟩ := getElem_isSome_of_lt hlt
      simp only [hget]
      split_ifs with heq hzero
      · exact hs.exists_type ht
      · -- the first transition is not behind the sentry, and not before it
        subst hzero
        rw [List.head?_eq_getElem?, hget] at hhead
        obtain rfl := Option.some_inj.mp hhead
        have hnot := hbehind hlt
        rw [Bool.eq_false_iff, Ne, belowSentry_of_getElem hget] at hnot
        omega
      · have hprevLt : i - 1 < data.transitions.length := by omega
        obtain ⟨u, hu, hprev⟩ := getElem_isSome_of_lt hprevLt
        rw [hprev]
        exact hs.exists_type hu
    · rw [List.getElem?_eq_none hge]
      dsimp only
      rw [List.getLast?_eq_some_getLast hne]
      exact hs.exists_type (List.getLast_mem hne)

/-- **Both directions are defined** for every time and every local time. -/
theorem localTime_isSome (hs : data.Sound) (hnamed : data.Named) (lib : TimeLib) :
    (∀ seconds, (toLocalTime lib data seconds).isSome) ∧
      ∀ localTm, (fromLocalTime lib data localTm).isSome := by
  have hto : ∀ seconds, (toLocalTime lib data seconds).isSome := by
    intro seconds
    obtain ⟨l, hl, heq⟩ := findLocaltime_isSome hs seconds true
    rw [toLocalTime, heq]
    simp only [abbreviationAt, if_pos (hnamed l hl)]
    rfl
  refine ⟨hto, fun localTm => ?_⟩
  obtain ⟨l, hl, heq⟩ := findLocaltime_isSome hs (lib.timegm localTm) false
  simp only [fromLocalTime, heq]
  split_ifs
  · rw [Option.isSome_map]
    exact hto _
  · rfl

/-! ## The type in force -/

/-- The transitions are in their order. -/
def ZoneData.Ascends (data : ZoneData) (compareGmt : Bool) : Prop :=
  data.transitions.Pairwise fun t u => Comp.key compareGmt t < Comp.key compareGmt u

/-- How many transitions have passed. -/
def ZoneData.passed (data : ZoneData) (compareGmt : Bool) (sentry : ℤ) : ℕ :=
  data.transitions.findIdx fun t => sentry < Comp.key compareGmt t

/-- **The type of local time behind `n` transitions.** -/
def ZoneData.typeAfter (data : ZoneData) : ℕ → Option Localtime
  | 0 => data.localtimes.head?
  | n + 1 => (data.transitions[n]?).bind fun t => data.localtimes[t.localtimeIdx]?

/-- The transitions up to a time come first. -/
theorem le_iff_lt_passed (hasc : data.Ascends compareGmt) (sentry : ℤ) {i : ℕ} {t : Transition}
    (hget : data.transitions[i]? = some t) :
    Comp.key compareGmt t ≤ sentry ↔ i < data.passed compareGmt sentry := by
  obtain ⟨hi, rfl⟩ := List.getElem?_eq_some_iff.mp hget
  constructor
  · intro hle
    by_contra hge
    have hlt : data.passed compareGmt sentry < data.transitions.length :=
      (Nat.not_lt.mp hge).trans_lt hi
    have hlate := List.findIdx_getElem (w := hlt)
    rw [decide_eq_true_eq] at hlate
    rcases Nat.eq_or_lt_of_le (Nat.not_lt.mp hge) with heq | hbehind
    · change sentry < Comp.key compareGmt data.transitions[data.passed compareGmt sentry] at hlate
      simp only [heq] at hlate
      omega
    · have hmono := List.pairwise_iff_getElem.mp hasc _ _ hlt hi hbehind
      change sentry < Comp.key compareGmt data.transitions[data.passed compareGmt sentry] at hlate
      omega
  · intro hlt
    have hnot := List.not_of_lt_findIdx hlt
    rw [decide_eq_false_iff_not] at hnot
    exact Int.not_lt.mp hnot

theorem passed_le (data : ZoneData) (compareGmt : Bool) (sentry : ℤ) :
    data.passed compareGmt sentry ≤ data.transitions.length := List.findIdx_le_length

/-- The last transition that has passed, and the first that has not, say how
many have. -/
theorem passed_eq (hasc : data.Ascends compareGmt) {n : ℕ} (hn : n ≤ data.transitions.length)
    (hbefore : ∀ t, 0 < n → data.transitions[n - 1]? = some t → Comp.key compareGmt t ≤ sentry)
    (hbehind : ∀ t, data.transitions[n]? = some t → sentry < Comp.key compareGmt t) :
    data.passed compareGmt sentry = n := by
  have hle := passed_le data compareGmt sentry
  apply Nat.le_antisymm
  · by_contra hgt
    obtain ⟨t, -, hget⟩ := getElem_isSome_of_lt (show n < data.transitions.length by omega)
    have hlate := hbehind t hget
    have := (le_iff_lt_passed hasc sentry hget).mpr (by omega)
    omega
  · by_contra hlt
    obtain ⟨t, -, hget⟩ := getElem_isSome_of_lt (show n - 1 < data.transitions.length by omega)
    have := (le_iff_lt_passed hasc sentry hget).mp (hbefore t (by omega) hget)
    omega

/-- **In a table that is in order `findLocaltime` finds the type in force**:
that of the last transition that has passed, or the first of all. -/
theorem findLocaltime_eq (hasc : data.Ascends compareGmt) (sentry : ℤ) :
    findLocaltime data sentry compareGmt = data.typeAfter (data.passed compareGmt sentry) := by
  obtain ⟨-, hle, hbefore, hbehind⟩ := lowerTransition_spec data sentry compareGmt
  rw [Nat.zero_add] at hle hbehind
  unfold findLocaltime
  cases hhead : data.transitions.head? with
  | none =>
    have hnil := List.head?_eq_none_iff.mp hhead
    rw [ZoneData.passed, hnil]
    rfl
  | some front =>
    have hfirst : data.transitions[0]? = some front := by rw [← List.head?_eq_getElem?, hhead]
    have hlen : 0 < data.transitions.length := by
      obtain ⟨hi, -⟩ := List.getElem?_eq_some_iff.mp hfirst
      exact hi
    dsimp only
    by_cases hearly : sentry < Comp.key compareGmt front
    · have hnone : data.passed compareGmt sentry = 0 := by
        refine passed_eq hasc (Nat.zero_le _) (fun t h => absurd h (Nat.lt_irrefl 0)) fun t ht => ?_
        rw [hfirst] at ht
        obtain rfl := Option.some_inj.mp ht
        exact hearly
      rw [if_pos hearly, hnone]
      rfl
    rw [if_neg hearly]
    generalize lowerTransition data sentry compareGmt = i at *
    -- the transition before the border has passed
    have hprev : ∀ t, 0 < i → data.transitions[i - 1]? = some t → Comp.key compareGmt t < sentry :=
      fun t hpos ht => (belowSentry_of_getElem ht).mp (hbefore hpos)
    rcases Nat.lt_or_ge i data.transitions.length with hlt | hge
    · obtain ⟨t, ht, hget⟩ := getElem_isSome_of_lt hlt
      have hnot := hbehind hlt
      rw [Bool.eq_false_iff, Ne, belowSentry_of_getElem hget] at hnot
      simp only [hget]
      split_ifs with heq hzero
      · have hpassed : data.passed compareGmt sentry = i + 1 := by
          refine passed_eq hasc hlt (fun u _ hu => ?_) fun u hu => ?_
          · rw [Nat.add_sub_cancel, hget] at hu
            obtain rfl := Option.some_inj.mp hu
            omega
          · obtain ⟨hi, rfl⟩ := List.getElem?_eq_some_iff.mp hget
            obtain ⟨hi', rfl⟩ := List.getElem?_eq_some_iff.mp hu
            rw [heq]
            exact List.pairwise_iff_getElem.mp hasc _ _ hi hi' (Nat.lt_succ_self i)
        rw [hpassed, ZoneData.typeAfter, hget]
        rfl
      · subst hzero
        rw [hfirst] at hget
        obtain rfl := Option.some_inj.mp hget
        omega
      · have hpassed : data.passed compareGmt sentry = i := by
          refine passed_eq hasc hlt.le (fun u hpos hu => (hprev u hpos hu).le) fun u hu => ?_
          rw [hget] at hu
          obtain rfl := Option.some_inj.mp hu
          omega
        obtain ⟨k, rfl⟩ : ∃ k, i = k + 1 := ⟨i - 1, by omega⟩
        rw [hpassed]
        rfl
    · have hpassed : data.passed compareGmt sentry = data.transitions.length := by
        refine passed_eq hasc (Nat.le_refl _) (fun u hpos hu => ?_) fun u hu => ?_
        · rw [← Nat.le_antisymm hle hge] at hu
          exact (hprev u (by omega) hu).le
        · rw [List.getElem?_eq_none (Nat.le_refl _)] at hu
          cases hu
      obtain ⟨k, hk⟩ : ∃ k, data.transitions.length = k + 1 := ⟨_, (Nat.succ_pred hlen.ne').symm⟩
      rw [List.getElem?_eq_none hge, hpassed, hk, List.getLast?_eq_getElem?, hk]
      rfl

/-! ## And back -/

/-- `gmtime_r` and `timegm` of the C library. -/
structure TimeLib.Correct (lib : TimeLib) : Prop where
  gmtime : ∀ t, InDates t → ∃ d, Shows (lib.gmtime t) t d
  timegm : ∀ tm t d, InDates t → Shows tm t d → lib.timegm tm = t

/-- **A table whose transitions are further apart than its offsets**, as those
of the zone files are. -/
structure ZoneData.Spaced (data : ZoneData) (gap : ℤ) : Prop where
  sound : data.Sound
  named : data.Named
  shown : ∀ t ∈ data.transitions, ∀ l, data.localtimes[t.localtimeIdx]? = some l →
    t.localtime = t.gmttime + l.gmtOffset
  offsets : ∀ l ∈ data.localtimes, ∀ l' ∈ data.localtimes, l.gmtOffset - l'.gmtOffset ≤ gap
  apart : data.transitions.Pairwise fun t u => t.gmttime + gap < u.gmttime

/-- The local time of `t` is shown once more behind the next transition. -/
structure ZoneData.Repeats (data : ZoneData) (t : ℤ) (l l' : Localtime) (next : Transition) :
    Prop where
  type : data.typeAfter (data.passed true t) = some l
  comes : data.transitions[data.passed true t]? = some next
  type' : data.localtimes[next.localtimeIdx]? = some l'
  again : next.gmttime + l'.gmtOffset ≤ t + l.gmtOffset

/-- A daylight saving time of one hour ends. -/
def EndsDst (l l' : Localtime) : Prop :=
  l.isDst = true ∧ l'.isDst = false ∧ l.gmtOffset = l'.gmtOffset + 3600

section RoundTrip

variable {lib : TimeLib} {gap t : ℤ} {l l' : Localtime} {next : Transition}

theorem ZoneData.Spaced.gap_nonneg (hs : data.Spaced gap) : 0 ≤ gap := by
  obtain ⟨l, hl⟩ := List.exists_mem_of_ne_nil _ hs.sound.localtimes
  have := hs.offsets l hl l hl
  omega

theorem mem_of_typeAfter {n : ℕ} (h : data.typeAfter n = some l) : l ∈ data.localtimes := by
  cases n with
  | zero => exact List.mem_of_head? h
  | succ n =>
    obtain ⟨u, -, hu⟩ := Option.bind_eq_some_iff.mp h
    exact List.mem_of_getElem? hu

/-- **In local time the transitions keep their order.** -/
theorem ZoneData.Spaced.ascends (hs : data.Spaced gap) (compareGmt : Bool) :
    data.Ascends compareGmt := by
  refine hs.apart.imp_of_mem fun {t u} ht hu hlt => ?_
  have hgap := hs.gap_nonneg
  cases compareGmt with
  | true =>
    show t.gmttime < u.gmttime
    omega
  | false =>
    obtain ⟨l, hl, htype⟩ := hs.sound.exists_type ht
    obtain ⟨l', hl', htype'⟩ := hs.sound.exists_type hu
    have hoff := hs.offsets l hl l' hl'
    show t.localtime < u.localtime
    rw [hs.shown t ht l htype, hs.shown u hu l' htype']
    omega

/-- The transition before is shown at the type it brings. -/
theorem ZoneData.Spaced.shown_of_typeAfter (hs : data.Spaced gap) {n : ℕ} {u : Transition}
    (hpos : 0 < n) (hget : data.transitions[n - 1]? = some u) (htype : data.typeAfter n = some l) :
    u.localtime = u.gmttime + l.gmtOffset := by
  obtain ⟨k, rfl⟩ : ∃ k, n = k + 1 := ⟨n - 1, by omega⟩
  rw [Nat.add_sub_cancel] at hget
  rw [ZoneData.typeAfter, hget, Option.bind_some] at htype
  exact hs.shown u (List.mem_of_getElem? hget) l htype

/-- Two transitions that follow each other are apart. -/
theorem ZoneData.Spaced.apart_succ (hs : data.Spaced gap) {n : ℕ} {u v : Transition}
    (hu : data.transitions[n]? = some u) (hv : data.transitions[n + 1]? = some v) :
    u.gmttime + gap < v.gmttime := by
  obtain ⟨hi, rfl⟩ := List.getElem?_eq_some_iff.mp hu
  obtain ⟨hj, rfl⟩ := List.getElem?_eq_some_iff.mp hv
  exact List.pairwise_iff_getElem.mp hs.apart _ _ hi hj (Nat.lt_succ_self n)

/-- The next transition has not passed. -/
theorem ZoneData.Repeats.lt (hs : data.Spaced gap) (h : data.Repeats t l l' next) :
    t < next.gmttime := by
  have hnot := mt (le_iff_lt_passed (hs.ascends true) t h.comes).mp (Nat.lt_irrefl _)
  exact Int.not_le.mp hnot

/-- **The local time of `t` is looked up in the period of `t`**, if it is not
shown once more. -/
theorem passed_local (hs : data.Spaced gap) (htype : data.typeAfter (data.passed true t) = some l)
    (hnot : ∀ l' next, ¬ data.Repeats t l l' next) :
    data.passed false (t + l.gmtOffset) = data.passed true t := by
  refine passed_eq (hs.ascends false) (passed_le ..) (fun u hpos hu => ?_) fun u hu => ?_
  · have hle : u.gmttime ≤ t := (le_iff_lt_passed (hs.ascends true) t hu).mpr (by omega)
    show u.localtime ≤ t + l.gmtOffset
    rw [hs.shown_of_typeAfter hpos hu htype]
    omega
  · obtain ⟨l', -, htype'⟩ := hs.sound.exists_type (List.mem_of_getElem? hu)
    by_contra hagain
    refine hnot l' u ⟨htype, hu, htype', ?_⟩
    rw [← hs.shown u (List.mem_of_getElem? hu) l' htype']
    exact Int.not_lt.mp hagain

/-- **And in the period behind it**, if it is. -/
theorem passed_repeats (hs : data.Spaced gap) (h : data.Repeats t l l' next) :
    data.passed false (t + l.gmtOffset) = data.passed true t + 1 ∧
      data.passed true (t + l.gmtOffset - l'.gmtOffset) = data.passed true t + 1 := by
  obtain ⟨hi, -⟩ := List.getElem?_eq_some_iff.mp h.comes
  have hlt := h.lt hs
  have hagain := h.again
  have hl := mem_of_typeAfter h.type
  have hl' := List.mem_of_getElem? h.type'
  have hmem := List.mem_of_getElem? h.comes
  constructor
  · refine passed_eq (hs.ascends false) hi (fun u _ hu => ?_) fun u hu => ?_
    · rw [Nat.add_sub_cancel, h.comes] at hu
      obtain rfl := Option.some_inj.mp hu
      show next.localtime ≤ _
      rw [hs.shown next hmem l' h.type']
      exact hagain
    · obtain ⟨l'', hl'', htype''⟩ := hs.sound.exists_type (List.mem_of_getElem? hu)
      have hapart := hs.apart_succ h.comes hu
      have hoff := hs.offsets l hl l'' hl''
      show _ < u.localtime
      rw [hs.shown u (List.mem_of_getElem? hu) l'' htype'']
      omega
  · refine passed_eq (hs.ascends true) hi (fun u _ hu => ?_) fun u hu => ?_
    · rw [Nat.add_sub_cancel, h.comes] at hu
      obtain rfl := Option.some_inj.mp hu
      show next.gmttime ≤ _
      omega
    · have hapart := hs.apart_succ h.comes hu
      have hoff := hs.offsets l hl l' hl'
      show _ < u.gmttime
      omega

/-- What `toLocalTime` makes of a time in a period. -/
def shownTm (lib : TimeLib) (data : ZoneData) (seconds : ℤ) (l : Localtime) : StructTm :=
  { lib.gmtime (seconds + l.gmtOffset) with
    isdst := l.isDst
    gmtoff := l.gmtOffset
    zone := (data.abbreviation.drop l.arrbIdx).takeWhile (· ≠ 0) }

theorem toLocalTime_eq (hs : data.Spaced gap)
    (htype : data.typeAfter (data.passed true t) = some l) :
    toLocalTime lib data t = some (shownTm lib data t l) := by
  rw [toLocalTime, findLocaltime_eq (hs.ascends true), htype]
  simp only [abbreviationAt, if_pos (hs.named l (mem_of_typeAfter htype))]
  rfl

/-- What `fromLocalTime` makes of it, found in the period of `l'`. -/
theorem fromLocalTime_eq (hlib : lib.Correct) (hs : data.Spaced gap)
    (hdates : InDates (t + l.gmtOffset))
    (hfound : data.typeAfter (data.passed false (t + l.gmtOffset)) = some l') :
    fromLocalTime lib data (shownTm lib data t l) =
      if l.isDst then
        (toLocalTime lib data (t + l.gmtOffset - l'.gmtOffset)).map fun tryTm =>
          if tryTm.isdst = false ∧ tryTm.hour = (lib.gmtime (t + l.gmtOffset)).hour ∧
              tryTm.min = (lib.gmtime (t + l.gmtOffset)).min then
            t + l.gmtOffset - 3600 - l'.gmtOffset
          else t + l.gmtOffset - l'.gmtOffset
      else some (t + l.gmtOffset - l'.gmtOffset) := by
  obtain ⟨d, hd⟩ := hlib.gmtime _ hdates
  have htimegm : lib.timegm (shownTm lib data t l) = t + l.gmtOffset :=
    hlib.timegm _ _ d hdates ⟨hd.year, hd.mon, hd.mday, hd.hour, hd.min, hd.sec, hd.time⟩
  rw [fromLocalTime, htimegm, findLocaltime_eq (hs.ascends false), hfound]
  rfl

/-- **When local time leads back.** `fromLocalTime` makes of the local time of
`t` the time `t` if and only if that local time is not shown again behind the
next transition, but where a daylight saving time of one hour ends. -/
theorem local_roundTrip_iff (hlib : lib.Correct) (hs : data.Spaced gap) (t : ℤ)
    (hdates : ∀ l ∈ data.localtimes, InDates (t + l.gmtOffset)) :
    (toLocalTime lib data t).bind (fromLocalTime lib data) = some t ↔
      ∀ l l' next, data.Repeats t l l' next → EndsDst l l' := by
  obtain ⟨l, hl, hfind⟩ := findLocaltime_isSome hs.sound t true
  rw [findLocaltime_eq (hs.ascends true)] at hfind
  rw [toLocalTime_eq hs hfind, Option.bind_some]
  by_cases hrep : ∃ l' next, data.Repeats t l l' next
  · obtain ⟨l', next, hrep⟩ := hrep
    obtain ⟨hlocal, hback⟩ := passed_repeats hs hrep
    have htype' : data.typeAfter (data.passed true t + 1) = some l' := by
      rw [ZoneData.typeAfter, hrep.comes]
      exact hrep.type'
    -- the clock has gone back
    have hoff : l'.gmtOffset < l.gmtOffset := by
      have := hrep.lt hs
      have := hrep.again
      omega
    have htry : toLocalTime lib data (t + l.gmtOffset - l'.gmtOffset) =
        some (shownTm lib data (t + l.gmtOffset - l'.gmtOffset) l') :=
      toLocalTime_eq hs (by rw [hback, htype'])
    rw [fromLocalTime_eq hlib hs (hdates l hl) (hlocal ▸ htype'), htry]
    have hsame : t + l.gmtOffset - l'.gmtOffset + l'.gmtOffset = t + l.gmtOffset := by omega
    have honly : (∀ k k' next', data.Repeats t k k' next' → EndsDst k k') ↔ EndsDst l l' := by
      refine ⟨fun h => h l l' next hrep, fun h k k' next' hk => ?_⟩
      obtain rfl := Option.some_inj.mp (hrep.type.symm.trans hk.type)
      obtain rfl := Option.some_inj.mp (hrep.comes.symm.trans hk.comes)
      obtain rfl := Option.some_inj.mp (hrep.type'.symm.trans hk.type')
      exact h
    rw [honly]
    simp only [shownTm, hsame, Option.map_some, EndsDst, and_true]
    -- the hour is taken back from what is shown again without daylight saving
    cases l.isDst <;> cases l'.isDst <;> simp <;> omega
  · have hnone : ∀ l' next, ¬ data.Repeats t l l' next := fun l' next h => hrep ⟨l', next, h⟩
    have hlocal := passed_local hs hfind hnone
    rw [fromLocalTime_eq hlib hs (hdates l hl) (hlocal ▸ hfind)]
    have hback : t + l.gmtOffset - l.gmtOffset = t := by omega
    rw [hback, toLocalTime_eq hs hfind]
    refine iff_of_true ?_ fun k k' next hk => ?_
    · simp only [shownTm, Option.map_some]
      split_ifs with hdst hnodst
      · rw [hdst] at hnodst
        cases hnodst.1
      · rfl
      · rfl
    · obtain rfl := Option.some_inj.mp (hfind.symm.trans hk.type)
      exact absurd hk (hnone k' next)

end RoundTrip

/-- `toUtcTime` and `fromUtcTime` in place of the C library. -/
def utcLib : TimeLib where
  gmtime t := (toUtcTime t false).getD {}
  timegm tm := (fromUtcTime tm).getD 0

theorem utcLib_correct : utcLib.Correct where
  gmtime t h := by
    obtain ⟨tm, d, heq, hutc⟩ := toUtcTime_eq h false
    refine ⟨d, ?_⟩
    show Shows ((toUtcTime t false).getD {}) t d
    rw [heq]
    exact hutc.shows
  timegm tm t d h hs := by
    show (fromUtcTime tm).getD 0 = t
    rw [fromUtcTime_eq h hs]
    rfl

/-- **A fixed zone is such a table**: its local time leads back at all times. -/
theorem spaced_fixedZone (eastOfUtc : ℤ) (name : List UInt8) :
    (fixedZone eastOfUtc name).Spaced 0 where
  sound := ⟨List.cons_ne_nil _ _, fun t ht => absurd ht List.not_mem_nil⟩
  named := fun l hl => by
    rw [List.mem_singleton.mp hl]
    exact Nat.zero_le _
  shown := fun t ht => absurd ht List.not_mem_nil
  offsets := fun l hl l' hl' => by
    rw [List.mem_singleton.mp hl, List.mem_singleton.mp hl', Int.sub_self]
  apart := List.Pairwise.nil

/-- A summer and the winter behind it. -/
def oneWinter : ZoneData where
  transitions := [⟨1000000, 1003600, 1⟩]
  localtimes := [⟨7200, true, 0⟩, ⟨3600, false, 5⟩]
  abbreviation := [67, 69, 83, 84, 0, 67, 69, 84, 0]

theorem spaced_oneWinter : oneWinter.Spaced 3600 where
  sound := ⟨by decide, by decide⟩
  named := by unfold ZoneData.Named; decide
  shown := by decide
  offsets := by decide
  apart := by decide

/-- The last half hour of the summer is shown again, and found all the same. -/
theorem local_roundTrip_summer :
    (toLocalTime utcLib oneWinter 998200).bind (fromLocalTime utcLib oneWinter) = some 998200 ↔
      ∀ l l' next, oneWinter.Repeats 998200 l l' next → EndsDst l l' :=
  local_roundTrip_iff utcLib_correct spaced_oneWinter 998200 (by decide)

end TelnetServ
