import TelnetServ.Basic
import TelnetServ.Common.Codec
import TelnetServ.Time.Local
/-!
# Zone files

`readTimeZoneFile` reads a zone file of version 1. What goes wrong is thrown
as a `logic_error` and caught, so the table keeps what has been put into it by
then, and `true` is returned whatever has been read, also if there is no file.
An index of the file is used without a test, and so is the size of its
abbreviations.
-/

namespace TelnetServ

open Codec

/-! ## Model -/

/-- The numbers in the head of the file. -/
structure ZoneHead where
  isgmtcnt : ℤ
  isstdcnt : ℤ
  leapcnt : ℤ
  timecnt : ℤ
  typecnt : ℤ
  charcnt : ℤ

/-- `readInt32`. -/
def readInt32 : Reader ℤ := signedReader 4

/-- `readUInt8`. -/
def readUInt8 : Reader ℕ := byteReader

/-- `readTimeZoneFile`, up to its first loop; `none` where it throws. -/
def readHead (f : List UInt8) : Option (ZoneHead × List UInt8) := do
  let (head, f) ← take 4 f
  if head ≠ ascii "TZif" then none
  else
    let (_, f) ← take 1 f
    let (_, f) ← take 15 f
    let (isgmtcnt, f) ← readInt32 f
    let (isstdcnt, f) ← readInt32 f
    let (leapcnt, f) ← readInt32 f
    let (timecnt, f) ← readInt32 f
    let (typecnt, f) ← readInt32 f
    let (charcnt, f) ← readInt32 f
    some (⟨isgmtcnt, isstdcnt, leapcnt, timecnt, typecnt, charcnt⟩, f)

/-- One type of local time. -/
def readLocaltime (f : List UInt8) : Option (Localtime × List UInt8) := do
  let (gmtoff, f) ← readInt32 f
  let (isdst, f) ← readUInt8 f
  let (abbrind, f) ← readUInt8 f
  some (⟨gmtoff, isdst ≠ 0, abbrind⟩, f)

/-- The loop that puts the transitions together; `none` where
`data->localtimes` is read outside its bounds. -/
def makeTransitions (localtimes : List Localtime) : List (ℤ × ℕ) → Option (List Transition)
  | [] => some []
  | (gmttime, localIdx) :: times =>
    match localtimes[localIdx]?, makeTransitions localtimes times with
    | some l, some transitions =>
      some (⟨gmttime, gmttime + l.gmtOffset, localIdx⟩ :: transitions)
    | _, _ => none

/-- A file whose numbers and types are all there. -/
structure ZoneBody where
  head : ZoneHead
  /-- When, and to which type. -/
  times : List (ℤ × ℕ)
  localtimes : List Localtime
  /-- What is behind the types. -/
  rest : List UInt8

/-- `readTimeZoneFile`, up to its third loop; where it throws, the types that
are in the table by then. -/
def readBody (f : List UInt8) : Except (List Localtime) ZoneBody :=
  match readHead f with
  | none => .error []
  | some (head, f) =>
    -- `reserve` throws a `length_error`
    if head.timecnt < 0 then .error []
    else
      match many readInt32 head.timecnt.toNat f with
      | (_, none) => .error []
      | (times, some f) =>
        match many readUInt8 head.timecnt.toNat f with
        | (_, none) => .error []
        | (locals, some f) =>
          match many readLocaltime head.typecnt.toNat f with
          | (localtimes, none) => .error localtimes
          | (localtimes, some rest) => .ok ⟨head, times.zip locals, localtimes, rest⟩

/-- What is read behind the types; `none` where `char buf[n]` has no size, or
one the stack has no room for. -/
def readAbbreviation (stack : ℕ) (b : ZoneBody) (transitions : List Transition) :
    Option ZoneData :=
  if b.head.charcnt < 0 ∨ stack < b.head.charcnt then none
  else
    let data : ZoneData := { transitions := transitions, localtimes := b.localtimes }
    match take b.head.charcnt.toNat b.rest with
    | none => some data
    | some (abbreviation, _) => some { data with abbreviation := abbreviation }

/-- **`readTimeZoneFile`**, with room for `stack` bytes on the stack, `none`
being a file that cannot be opened: the table it leaves behind; `none` where it
does what is undefined. -/
def readTimeZoneFile (stack : ℕ) (zonefile : Option (List UInt8)) : Option ZoneData :=
  match zonefile with
  | none => some {}
  | some f =>
    match readBody f with
    | .error localtimes => some { localtimes := localtimes }
    | .ok b => (makeTransitions b.localtimes b.times).bind (readAbbreviation stack b)

/-! ## What is in the table -/

/-- **The transitions have a type each**, and show it. -/
def ZoneData.Typed (data : ZoneData) : Prop :=
  ∀ t ∈ data.transitions, ∃ l, data.localtimes[t.localtimeIdx]? = some l ∧
    t.localtime = t.gmttime + l.gmtOffset

theorem typed_of_makeTransitions {localtimes : List Localtime} {times : List (ℤ × ℕ)}
    {transitions : List Transition} (h : makeTransitions localtimes times = some transitions) :
    ∀ t ∈ transitions, ∃ l, localtimes[t.localtimeIdx]? = some l ∧
      t.localtime = t.gmttime + l.gmtOffset := by
  induction times generalizing transitions with
  | nil =>
    cases h
    exact fun t ht => absurd ht List.not_mem_nil
  | cons time times ih =>
    obtain ⟨gmttime, localIdx⟩ := time
    rw [makeTransitions] at h
    cases hl : localtimes[localIdx]? with
    | none =>
      rw [hl] at h
      cases h
    | some l =>
      cases hrest : makeTransitions localtimes times with
      | none =>
        rw [hl, hrest] at h
        cases h
      | some rest =>
        rw [hl, hrest] at h
        obtain rfl := Option.some_inj.mp h
        rw [List.forall_mem_cons]
        exact ⟨⟨l, hl, rfl⟩, ih hrest⟩

/-- The transitions are put together if each of them has a type. -/
theorem makeTransitions_times {types : List Localtime} {times : List (ℤ × ℕ)}
    (h : ∀ t ∈ times, t.2 < types.length) :
    makeTransitions types times = some (times.filterMap fun t =>
      types[t.2]?.map fun l => ⟨t.1, t.1 + l.gmtOffset, t.2⟩) := by
  induction times with
  | nil => rfl
  | cons t times ih =>
    rw [List.forall_mem_cons] at h
    have hget := List.getElem?_eq_getElem h.1
    rw [makeTransitions, hget, ih h.2]
    simp only [List.filterMap_cons, hget, Option.map_some]

/-- And only then. -/
theorem isSome_makeTransitions {types : List Localtime} {times : List (ℤ × ℕ)} :
    (makeTransitions types times).isSome ↔ ∀ t ∈ times, t.2 < types.length := by
  constructor
  · intro h
    induction times with
    | nil => exact fun t ht => absurd ht List.not_mem_nil
    | cons t times ih =>
      rw [makeTransitions] at h
      rw [List.forall_mem_cons]
      cases hget : types[t.2]? with
      | none =>
        rw [hget] at h
        cases h
      | some l =>
        refine ⟨(List.getElem?_eq_some_iff.mp hget).1, ih ?_⟩
        cases hrest : makeTransitions types times with
        | none =>
          rw [hget, hrest] at h
          cases h
        | some transitions => rfl
  · intro h
    rw [makeTransitions_times h]
    rfl

/-- **The numbers of a file are what its reader takes them for**: each
transition has a type, and the abbreviations fit on the stack. -/
structure ZoneBody.Sane (stack : ℕ) (b : ZoneBody) : Prop where
  index_lt : ∀ t ∈ b.times, t.2 < b.localtimes.length
  charcnt_nonneg : 0 ≤ b.head.charcnt
  charcnt_le : b.head.charcnt ≤ stack

/-- The numbers of the file are, if they are all there. -/
def SaneFile (stack : ℕ) (zonefile : Option (List UInt8)) : Prop :=
  ∀ f b, zonefile = some f → readBody f = .ok b → b.Sane stack

/-- The types of local time that have been read. -/
def typesRead (zonefile : Option (List UInt8)) : List Localtime :=
  match zonefile with
  | none => []
  | some f =>
    match readBody f with
    | .error localtimes => localtimes
    | .ok b => b.localtimes

theorem isSome_readAbbreviation {stack : ℕ} {b : ZoneBody} {transitions : List Transition} :
    (readAbbreviation stack b transitions).isSome ↔
      0 ≤ b.head.charcnt ∧ b.head.charcnt ≤ stack := by
  unfold readAbbreviation
  split_ifs with h
  · simp only [Option.isSome_none, Bool.false_eq_true, false_iff]
    omega
  · dsimp only
    split <;> simp only [Option.isSome_some, true_iff] <;> omega

theorem tables_readAbbreviation {stack : ℕ} {b : ZoneBody} {transitions : List Transition}
    {data : ZoneData} (h : readAbbreviation stack b transitions = some data) :
    data.transitions = transitions ∧ data.localtimes = b.localtimes := by
  unfold readAbbreviation at h
  split_ifs at h
  dsimp only at h
  split at h <;> cases h <;> exact ⟨rfl, rfl⟩

/-- **The reader does what is defined if and only if** the numbers of the file
are what it takes them for. -/
theorem isSome_readTimeZoneFile {stack : ℕ} {zonefile : Option (List UInt8)} :
    (readTimeZoneFile stack zonefile).isSome ↔ SaneFile stack zonefile := by
  cases zonefile with
  | none => exact ⟨fun _ f b hf => (nomatch hf), fun _ => rfl⟩
  | some f =>
    rw [readTimeZoneFile]
    cases hbody : readBody f with
    | error localtimes =>
      refine ⟨fun _ f' b hf hok => ?_, fun _ => rfl⟩
      cases hf
      rw [hbody] at hok
      cases hok
    | ok b =>
      dsimp only
      rw [Option.isSome_bind]
      constructor
      · intro h f' b' hf hok
        cases hf
        rw [hbody] at hok
        cases hok
        cases htrans : makeTransitions b.localtimes b.times with
        | none =>
          rw [htrans] at h
          cases h
        | some transitions =>
          rw [htrans] at h
          have hchars := isSome_readAbbreviation.mp h
          exact ⟨isSome_makeTransitions.mp (Option.isSome_of_eq_some htrans), hchars.1, hchars.2⟩
      · intro h
        have hsane := h f b rfl hbody
        rw [makeTransitions_times hsane.index_lt]
        exact isSome_readAbbreviation.mpr ⟨hsane.charcnt_nonneg, hsane.charcnt_le⟩

/-- **Whatever is in the file**, the table has the types that have been read,
and its transitions have one each. -/
theorem typed_readTimeZoneFile {stack : ℕ} {zonefile : Option (List UInt8)} {data : ZoneData}
    (h : readTimeZoneFile stack zonefile = some data) :
    data.Typed ∧ data.localtimes = typesRead zonefile := by
  have hempty : ∀ localtimes, ZoneData.Typed { localtimes := localtimes } :=
    fun localtimes t ht => absurd ht List.not_mem_nil
  cases zonefile with
  | none =>
    cases h
    exact ⟨hempty [], rfl⟩
  | some f =>
    rw [readTimeZoneFile] at h
    rw [typesRead]
    cases hbody : readBody f with
    | error localtimes =>
      rw [hbody] at h
      cases h
      exact ⟨hempty localtimes, rfl⟩
    | ok b =>
      rw [hbody] at h
      obtain ⟨transitions, htrans, hdata⟩ := Option.bind_eq_some_iff.mp h
      obtain ⟨htransitions, hlocaltimes⟩ := tables_readAbbreviation hdata
      refine ⟨?_, hlocaltimes⟩
      rw [ZoneData.Typed, htransitions, hlocaltimes]
      exact typed_of_makeTransitions htrans

/-- A table whose transitions have a type each may be looked up if and only if
it has a type. -/
theorem lookup_typed_iff {data : ZoneData} (htyped : data.Typed) :
    (∀ sentry compareGmt, (findLocaltime data sentry compareGmt).isSome) ↔
      data.localtimes ≠ [] := by
  constructor
  · intro hall hnil
    -- without a type there is no transition
    have hnone : data.transitions = [] := by
      refine List.eq_nil_iff_forall_not_mem.mpr fun t ht => ?_
      obtain ⟨l, hl, -⟩ := htyped t ht
      rw [hnil] at hl
      cases hl
    have hlookup := hall 0 true
    rw [findLocaltime, hnone, hnil] at hlookup
    cases hlookup
  · intro hne sentry compareGmt
    have hs : data.Sound := by
      refine ⟨hne, fun t ht => ?_⟩
      obtain ⟨l, hl, -⟩ := htyped t ht
      exact (List.getElem?_eq_some_iff.mp hl).1
    obtain ⟨l, -, heq⟩ := findLocaltime_isSome hs sentry compareGmt
    rw [heq]
    rfl

/-- **A zone file is read, and what it gives may be looked up, if and only if**
a type has been read and the numbers of the file are what its reader takes them
for. This holds of every file and of no file, and the zone is `valid` in either
case. -/
theorem lookup_defined_iff (stack : ℕ) (zonefile : Option (List UInt8)) :
    (∃ data, readTimeZoneFile stack zonefile = some data ∧
        ∀ sentry compareGmt, (findLocaltime data sentry compareGmt).isSome) ↔
      typesRead zonefile ≠ [] ∧ SaneFile stack zonefile := by
  constructor
  · rintro ⟨data, hdata, hlookup⟩
    obtain ⟨htyped, hlocaltimes⟩ := typed_readTimeZoneFile hdata
    rw [← hlocaltimes]
    exact ⟨(lookup_typed_iff htyped).mp hlookup,
      isSome_readTimeZoneFile.mp (Option.isSome_of_eq_some hdata)⟩
  · rintro ⟨hne, hsane⟩
    obtain ⟨data, hdata⟩ := Option.isSome_iff_exists.mp (isSome_readTimeZoneFile.mpr hsane)
    obtain ⟨htyped, hlocaltimes⟩ := typed_readTimeZoneFile hdata
    rw [← hlocaltimes] at hne
    exact ⟨data, hdata, (lookup_typed_iff htyped).mpr hne⟩

/-! ## The format -/

/-- **A zone, as a file can describe it**, with abbreviations the stack has room
for. -/
structure ZoneFile (stack : ℕ) where
  /-- When, and to which type. -/
  times : List (ℤ × ℕ)
  types : List Localtime
  chars : List UInt8
  length_times : times.length < 2 ^ 31
  length_types : types.length ≤ 256
  length_chars : chars.length < 2 ^ 31
  chars_le : chars.length ≤ stack
  times_ok : ∀ t ∈ times, FitsInt t.1 ∧ t.2 < types.length
  types_ok : ∀ l ∈ types, FitsInt l.gmtOffset ∧ l.arrbIdx < 256

/-- What a file says that is not read. -/
structure ZoneRest where
  version : UInt8
  reserved : List UInt8
  length_reserved : reserved.length = 15
  isgmtcnt : ℤ
  isstdcnt : ℤ
  leapcnt : ℤ
  fits : FitsInt isgmtcnt ∧ FitsInt isstdcnt ∧ FitsInt leapcnt
  /-- The leap seconds, and the second part of a file of version 2. -/
  tail : List UInt8

/-- The record of a type. -/
def typeBytes (l : Localtime) : List UInt8 :=
  signedBytes 4 l.gmtOffset ++ [if l.isDst then 1 else 0] ++ [UInt8.ofNat l.arrbIdx]

namespace ZoneFile

variable {stack : ℕ} (z : ZoneFile stack) (r : ZoneRest)

/-- The head. -/
def headBytes : List UInt8 :=
  ascii "TZif" ++ [r.version] ++ r.reserved ++ signedBytes 4 r.isgmtcnt ++
    signedBytes 4 r.isstdcnt ++ signedBytes 4 r.leapcnt ++ signedBytes 4 z.times.length ++
    signedBytes 4 z.types.length ++ signedBytes 4 z.chars.length

/-- **The file.** -/
def bytes : List UInt8 :=
  z.headBytes r ++ (z.times.map (·.1)).flatMap (signedBytes 4) ++
    (z.times.map (·.2)).flatMap (fun i => [UInt8.ofNat i]) ++ z.types.flatMap typeBytes ++
    z.chars ++ r.tail

/-- The table it describes. -/
def table : ZoneData where
  transitions := z.times.filterMap fun t =>
    z.types[t.2]?.map fun l => ⟨t.1, t.1 + l.gmtOffset, t.2⟩
  localtimes := z.types
  abbreviation := z.chars

end ZoneFile

theorem decodes_int32 {x : ℤ} (h : FitsInt x) : Decodes readInt32 (signedBytes 4 x) x := by
  unfold FitsInt at h
  exact decodes_signed (by norm_num; omega) (by norm_num; omega)

theorem fitsInt_length {α : Type*} {l : List α} (h : l.length < 2 ^ 31) :
    FitsInt (l.length : ℤ) := by
  unfold FitsInt
  omega

theorem decodes_type {l : Localtime} (h : FitsInt l.gmtOffset ∧ l.arrbIdx < 256) :
    Decodes readLocaltime (typeBytes l) l := by
  intro rest
  have hdst : byteReader ([if l.isDst then 1 else 0] ++ ([UInt8.ofNat l.arrbIdx] ++ rest)) =
      some (if l.isDst then 1 else 0, [UInt8.ofNat l.arrbIdx] ++ rest) := by
    cases l.isDst <;> rfl
  have hidx := decodes_byte h.2 rest
  rw [readLocaltime, typeBytes, List.append_assoc, List.append_assoc, decodes_int32 h.1]
  simp only [Option.bind_eq_bind, Option.bind_some, readUInt8, hdst, hidx]
  obtain ⟨gmtOffset, isDst, arrbIdx⟩ := l
  cases isDst <;> rfl

namespace ZoneFile

variable {stack : ℕ} (z : ZoneFile stack) (r : ZoneRest)

/-- What is read of the head. -/
def head : ZoneHead :=
  ⟨r.isgmtcnt, r.isstdcnt, r.leapcnt, z.times.length, z.types.length, z.chars.length⟩

theorem readHead_headBytes (f : List UInt8) :
    readHead (z.headBytes r ++ f) = some (z.head r, f) := by
  have hmagic : Decodes (take 4) (ascii "TZif") (ascii "TZif") := decodes_take rfl
  have hversion : Decodes (take 1) [r.version] [r.version] := decodes_take rfl
  have hreserved : Decodes (take 15) r.reserved r.reserved := decodes_take r.length_reserved
  have htypes : FitsInt (z.types.length : ℤ) :=
    fitsInt_length (lt_of_le_of_lt z.length_types (by decide))
  simp only [readHead, headBytes, List.append_assoc]
  simp only [hmagic _, hversion _, hreserved _,
    decodes_int32 r.fits.1 _, decodes_int32 r.fits.2.1 _, decodes_int32 r.fits.2.2 _,
    decodes_int32 (fitsInt_length z.length_times) _, decodes_int32 htypes _,
    decodes_int32 (fitsInt_length z.length_chars) _, Option.bind_eq_bind, Option.bind_some]
  rfl

/-- **A zone file is read as it is written**, whatever follows in it. -/
theorem readTimeZoneFile_bytes :
    readTimeZoneFile stack (some (z.bytes r)) = some z.table := by
  have htimes : ∀ f, many readInt32 z.times.length
      ((z.times.map (·.1)).flatMap (signedBytes 4) ++ f) = (z.times.map (·.1), some f) := by
    intro f
    have h : ∀ x ∈ z.times.map (·.1), Decodes readInt32 (signedBytes 4 x) x :=
      List.forall_mem_map.mpr fun t ht => decodes_int32 (z.times_ok t ht).1
    rw [← many_flatMap h f, List.length_map]
  have hlocals : ∀ f, many readUInt8 z.times.length
      ((z.times.map (·.2)).flatMap (fun i => [UInt8.ofNat i]) ++ f) =
        (z.times.map (·.2), some f) := by
    intro f
    have h : ∀ i ∈ z.times.map (·.2), Decodes readUInt8 [UInt8.ofNat i] i :=
      List.forall_mem_map.mpr fun t ht =>
        decodes_byte ((z.times_ok t ht).2.trans_le z.length_types)
    rw [← many_flatMap h f, List.length_map]
  have htypes : ∀ f, many readLocaltime z.types.length (z.types.flatMap typeBytes ++ f) =
      (z.types, some f) := many_flatMap fun l hl => decodes_type (z.types_ok l hl)
  have hchars : Decodes (take z.chars.length) z.chars z.chars := decodes_take rfl
  have hzip : (z.times.map (·.1)).zip (z.times.map (·.2)) = z.times := by
    rw [List.zip_map']
    exact List.map_id _
  have hcount : (z.head r).timecnt.toNat = z.times.length ∧
      (z.head r).typecnt.toNat = z.types.length ∧ (z.head r).charcnt.toNat = z.chars.length :=
    ⟨Int.toNat_natCast _, Int.toNat_natCast _, Int.toNat_natCast _⟩
  have hpos : ¬ (z.head r).timecnt < 0 := Int.not_lt.mpr (Int.natCast_nonneg _)
  have hfits : ¬ ((z.head r).charcnt < 0 ∨ (stack : ℤ) < (z.head r).charcnt) := by
    have := z.chars_le
    show ¬ ((z.chars.length : ℤ) < 0 ∨ (stack : ℤ) < z.chars.length)
    omega
  have hbody : readBody (z.bytes r) =
      .ok ⟨z.head r, z.times, z.types, z.chars ++ r.tail⟩ := by
    simp only [readBody, bytes, List.append_assoc, readHead_headBytes, if_neg hpos, hcount,
      htimes, hlocals, htypes, hzip]
  rw [readTimeZoneFile, hbody]
  dsimp only
  rw [makeTransitions_times fun t ht => (z.times_ok t ht).2, Option.bind_some, readAbbreviation,
    if_neg hfits]
  dsimp only
  rw [hcount.2.2, hchars r.tail]
  rfl

end ZoneFile

end TelnetServ
