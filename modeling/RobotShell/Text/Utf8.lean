/-!
# Lenient UTF-8

Every sequence of bytes is read as text. Well-formed UTF-8 is read as it stands, and each maximal
part of it that cannot be continued to a character is read as one U+FFFD. The decoder looks at one
byte at a time: a byte that does not continue the character begun before it begins another one.
-/

namespace RobotShell.Utf8

/-- What stands for an invalid part. -/
def replacement : Char := '\uFFFD'

/-- Where the decoder stands between two bytes. -/
inductive State where
  /-- Between characters. -/
  | start
  /-- Inside a character with value `code` so far. The next byte has to lie between `lo` and `hi`,
  and `more` bytes have to follow it. -/
  | inside (more : Nat) (lo hi : UInt8) (code : Nat)
  deriving DecidableEq

/-- The characters finished by the first byte of a character, and the state behind it. The bounds
on the second byte rule out overlong forms, surrogates and values beyond U+10FFFF. -/
def first (b : UInt8) : List Char × State :=
  if b < 0x80 then ([Char.ofNat b.toNat], .start)
  else if b < 0xC2 then ([replacement], .start)
  else if b < 0xE0 then ([], .inside 0 0x80 0xBF (b.toNat - 0xC0))
  else if b == 0xE0 then ([], .inside 1 0xA0 0xBF 0)
  else if b == 0xED then ([], .inside 1 0x80 0x9F 0xD)
  else if b < 0xF0 then ([], .inside 1 0x80 0xBF (b.toNat - 0xE0))
  else if b == 0xF0 then ([], .inside 2 0x90 0xBF 0)
  else if b < 0xF4 then ([], .inside 2 0x80 0xBF (b.toNat - 0xF0))
  else if b == 0xF4 then ([], .inside 2 0x80 0x8F 4)
  else ([replacement], .start)

/-- The characters finished by a byte, and the state behind it. -/
def State.step : State → UInt8 → List Char × State
  | .start, b => first b
  | .inside more lo hi code, b =>
    if lo ≤ b ∧ b ≤ hi then
      let code := 64 * code + (b.toNat - 0x80)
      match more with
      | 0 => ([Char.ofNat code], .start)
      | more + 1 => ([], .inside more 0x80 0xBF code)
    else
      let (cs, s) := first b
      (replacement :: cs, s)

/-- What is left to write where the bytes end. -/
def State.finish : State → List Char
  | .start => []
  | .inside .. => [replacement]

/-- Decodes the bytes behind the text `out`. -/
def decodeFrom (out : String) (s : State) : List UInt8 → String
  | [] => s.finish.foldl String.push out
  | b :: bs =>
    let (cs, s) := s.step b
    decodeFrom (cs.foldl String.push out) s bs

/-- The text of a sequence of bytes. -/
def decode (bytes : List UInt8) : String :=
  decodeFrom "" .start bytes

/-- The line feed. -/
def lineFeed : UInt8 := 0x0A

/-- Splits bytes behind each line feed. `current` holds the bytes of the line begun, and `done`
the lines before it, both latest first. -/
def splitFrom (current : List UInt8) (done : List (List UInt8)) : List UInt8 → List (List UInt8)
  | [] => (if current.isEmpty then done else current.reverse :: done).reverse
  | b :: bs =>
    if b = lineFeed then splitFrom [] ((b :: current).reverse :: done) bs
    else splitFrom (b :: current) done bs

/-- The lines of a sequence of bytes, each with its line feed. A last line without one counts. -/
def lines (bytes : List UInt8) : List (List UInt8) :=
  splitFrom [] [] bytes

end RobotShell.Utf8
