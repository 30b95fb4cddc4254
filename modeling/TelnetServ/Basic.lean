import TelnetServ.Common.CStr
/-!
# The constants of `telnetServ.cc`

Bytes are `UInt8`, so that a `char` is compared by its bit pattern; none
of the constants reaches the sign bit.
-/

namespace TelnetServ

/-- The size of the daemon's line buffer. -/
abbrev maxCommandLength : ℕ := 2048

/-- What an `unsigned char` counts fits the line buffer. -/
theorem lt_maxCommandLength {n : ℕ} (h : n ≤ 255) : n < maxCommandLength :=
  lt_of_le_of_lt h (by decide)

/-- The longest log message, and the size of the formatting buffers. -/
abbrev maxLogMsgLen : ℕ := 2000

abbrev newlineChar : UInt8 := 10
abbrev backspaceChar : UInt8 := 8
abbrev blankChar : UInt8 := 32
abbrev returnChar : UInt8 := 13
abbrev tabChar : UInt8 := 9
abbrev ctrlS : UInt8 := 19
abbrev ctrlR : UInt8 := 18
abbrev upArrow : UInt8 := 27
abbrev downArrow : UInt8 := 28
abbrev leftArrow : UInt8 := 29
abbrev rightArrow : UInt8 := 30

/-- `INVALID_SOCKET`. -/
abbrev invalidSocket : ℤ := -1

/-- The bytes of a string literal of the source. -/
def ascii (s : String) : List UInt8 := s.toList.map fun c => UInt8.ofNat c.toNat

end TelnetServ
