import TelnetServ.Print.Model
/-!
# Printing — lines with a time stamp

The stamp is printed once a second and kept, so a call finds the one of its
own second. A small negative result of `vsnprintf` passes the test behind
it: stored in an unsigned variable it is not below zero, and with the length
of the stamp added it wraps around to less than the stamp.
`allOrNothing_iff` says that this is the only way to hand on part of a line.
-/

namespace TelnetServ

open Calendar

variable {zone : ℤ → Tm}

/-! ## The stamp -/

/-- **The invariant of the kept stamp.** It is the stamp of the second it
was printed in. -/
def CacheOk (zone : ℤ → Tm) (c : TimeCache) : Prop :=
  c.tLastSecond ≠ 0 → c.tTime.take timeStrLen = timeText (zone c.tLastSecond)

/-- **`formatTime` copies the stamp of the current second**, and its
assertion holds. -/
theorem formatTime_spec {c : TimeCache} (hc : CacheOk zone c) {seconds : ℤ} (hpos : 0 < seconds) :
    ∃ c', formatTime zone seconds c = some c' ∧ CacheOk zone c' ∧
      c'.tTime.take timeStrLen = timeText (zone seconds) := by
  have hlen := length_timeText (zone seconds)
  by_cases hsame : seconds = c.tLastSecond
  · have hstamp := hc (by omega)
    rw [← hsame] at hstamp
    exact ⟨c, if_pos hsame, hc, hstamp⟩
  · have hshort : (timeText (zone seconds)).take 24 = timeText (zone seconds) :=
      List.take_of_length_le (by rw [hlen]; decide)
    have hstamp : (CStr.padded 25 ((timeText (zone seconds)).take 24)).take timeStrLen =
        timeText (zone seconds) := by
      rw [hshort, ← hlen, CStr.take_padded]
    refine ⟨{ tTime := CStr.padded 25 ((timeText (zone seconds)).take 24), tLastSecond := seconds },
      ?_, fun _ => hstamp, hstamp⟩
    rw [formatTime, if_neg hsame, if_pos hlen]

/-- A call keeps the stamp what it should be. -/
theorem cacheOk_telPrintf {c : TimeCache} (hc : CacheOk zone c) (call : PrintCall) :
    ∃ c', (telPrintf zone call c).2 = some c' ∧ CacheOk zone c' := by
  unfold telPrintf
  split_ifs
  · exact ⟨c, rfl, hc⟩
  · split
    · exact ⟨c, rfl, hc⟩
    · obtain ⟨c', hformat, hc', -⟩ := formatTime_spec hc call.seconds_pos
      rw [hformat]
      exact ⟨c', rfl, hc'⟩

/-- **And so do all calls of a thread.** -/
theorem cacheOk_run (zone : ℤ → Tm) (calls : List PrintCall) :
    ∃ c, (printMachine zone).after (some {}) calls = some c ∧ CacheOk zone c := by
  refine Machine.after_induct _ (I := fun s => ∃ c, s = some c ∧ CacheOk zone c)
    ⟨{}, rfl, fun h => absurd rfl h⟩ ?_ calls
  rintro s call ⟨c, rfl, hc⟩
  exact cacheOk_telPrintf hc call

/-! ## The line -/

/-- **All or nothing.** What is handed to `appendToMsgBuf` is the stamp and
the whole text, where there is a text and it fits, and nothing elsewhere. -/
structure AllOrNothing (stamp : List UInt8) (printed : Printed) (handed : List (List UInt8)) :
    Prop where
  whole : 1 ≤ printed.ret → 21 + printed.ret < 2000 → handed = [stamp ++ printed.text]
  nothing : ¬ (1 ≤ printed.ret ∧ 21 + printed.ret < 2000) → handed = []
  /-- The length is never smaller than 22 and covers only bytes that were
  written. -/
  covered : ∀ m ∈ handed, 22 ≤ m.length ∧ m.length ≤ stamp.length + min printed.text.length 1978

/-- What is handed on of `msg`: all of it, part of the stamp, or nothing. -/
theorem passedOn_stampedMsg {stamp : List UInt8} (hstamp : stamp.length = timeStrLen)
    (printed : Printed) :
    let handed := (passedOn timeStrLen printed.ret (stampedMsg stamp printed.text)).toList
    AllOrNothing stamp printed handed ∧ ¬ (-21 ≤ printed.ret ∧ printed.ret ≤ -1) ∨
      (-21 ≤ printed.ret ∧ printed.ret ≤ -1) ∧ handed ≠ [] := by
  have hmax : maxLogMsgLen = 2000 := rfl
  have hstampLen : timeStrLen = 21 := rfl
  have hlen := printed.length_eq
  rcases passedOn_cases (show timeStrLen < maxLogMsgLen by decide) printed.le_ret printed.ret_lt
    (stampedMsg stamp printed.text) with ⟨h, hnone⟩ | ⟨hne, hlo, hhi, hsome⟩
  · left
    rw [hnone]
    exact ⟨⟨fun h1 h2 => by omega, fun _ => rfl, fun m hm => absurd hm List.not_mem_nil⟩, by omega⟩
  · rw [hsome]
    by_cases hpos : 0 ≤ printed.ret
    · left
      have htext : printed.text.take (maxLogMsgLen - timeStrLen - 1) = printed.text :=
        List.take_of_length_le (by have := hlen hpos; omega)
      have htake : (stampedMsg stamp printed.text).take (timeStrLen + printed.ret).toNat =
          stamp ++ printed.text := by
        rw [stampedMsg, htext, show (timeStrLen + printed.ret).toNat =
          (stamp ++ printed.text).length by rw [List.length_append, hlen hpos, hstamp]; omega,
          CStr.take_padded]
      rw [htake]
      refine ⟨⟨fun _ _ => rfl, fun h => absurd ⟨by omega, by omega⟩ h, fun m hm => ?_⟩, by omega⟩
      rw [List.mem_singleton.mp hm, List.length_append]
      have := hlen hpos
      omega
    · right
      exact ⟨⟨by omega, by omega⟩, by simp⟩

/-- **A call of `telPrintf` is all or nothing if and only if** the result of
`vsnprintf` is none of `-21`, …, `-1`. The calls are those the thread has
made before. -/
theorem allOrNothing_iff (zone : ℤ → Tm) (calls : List PrintCall) (call : PrintCall)
    {printed : Printed} (hclient : call.sockClient ≠ invalidSocket)
    (hformat : call.szFormat = some printed) :
    AllOrNothing (timeText (zone call.seconds)) printed
        ((printMachine zone).step ((printMachine zone).after (some {}) calls) call).1 ↔
      ¬ (-21 ≤ printed.ret ∧ printed.ret ≤ -1) := by
  obtain ⟨c, hafter, hc⟩ := cacheOk_run zone calls
  obtain ⟨c', hformatTime, -, hstamp⟩ := formatTime_spec hc call.seconds_pos
  have hhanded : ((printMachine zone).step ((printMachine zone).after (some {}) calls) call).1 =
      (passedOn timeStrLen printed.ret
        (stampedMsg (timeText (zone call.seconds)) printed.text)).toList := by
    rw [hafter]
    show (telPrintf zone call c).1 = _
    unfold telPrintf
    rw [if_neg hclient, hformat]
    simp only [hformatTime, hstamp]
  rw [hhanded]
  rcases passedOn_stampedMsg (length_timeText (zone call.seconds)) printed with
    ⟨hall, hret⟩ | ⟨hret, hne⟩
  · exact ⟨fun _ => hret, fun _ => hall⟩
  · exact ⟨fun hall => absurd (hall.nothing (by omega)) hne, fun h => absurd hret h⟩

/-- The first of May 2026, half past eight. -/
def mayMorning : Tm :=
  ⟨126, 4, 1, 8, 30, 0, by decide, by decide, by decide, by decide, by decide, by decide⟩

/-- A call in that second, with this result of `vsnprintf`. -/
def mayCall (printed : Printed) : PrintCall := ⟨5, 1777624200, by decide, some printed⟩

/-- The second line of a second. -/
theorem allOrNothing_hi : AllOrNothing (timeText mayMorning) (printedText [72, 105])
    ((printMachine fun _ => mayMorning).step
      ((printMachine fun _ => mayMorning).after (some {}) [mayCall (printedText [72])])
      (mayCall (printedText [72, 105]))).1 :=
  (allOrNothing_iff (fun _ => mayMorning) [mayCall (printedText [72])]
    (mayCall (printedText [72, 105])) (by decide) rfl).mpr (by decide)

/-- `vsnprintf` fails before it has written anything. -/
def failedPrint : Printed := ⟨[], -1, by decide, by decide, by decide⟩

/-- **An output error**: twenty bytes of the stamp are handed on. -/
theorem not_allOrNothing_failed :
    ((printMachine fun _ => mayMorning).step (some {}) (mayCall failedPrint)).1 =
        [(timeText mayMorning).take 20] ∧
      ¬ AllOrNothing (timeText mayMorning) failedPrint
        ((printMachine fun _ => mayMorning).step (some {}) (mayCall failedPrint)).1 := by
  have hhanded : ((printMachine fun _ => mayMorning).step (some {}) (mayCall failedPrint)).1 =
      [(timeText mayMorning).take 20] := by decide
  refine ⟨hhanded, fun h => ?_⟩
  rw [hhanded] at h
  exact absurd (h.nothing (by decide)) (by simp)

end TelnetServ
