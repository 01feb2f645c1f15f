import RobotShell.Yaml.Scalar

/-!
# Quoted scalars

Between single quotes only the quote itself is special: it is written twice. Between double quotes a
backslash starts an escape, or joins a line to the next one. White space is folded in both.
-/

namespace RobotShell.Yaml

/-- The value of a hexadecimal digit. -/
def hexDigit? (c : Char) : Option Nat :=
  if c.isDigit then some (c.toNat - '0'.toNat)
  else if 'a' ≤ c ∧ c ≤ 'f' then some (c.toNat - 'a'.toNat + 10)
  else if 'A' ≤ c ∧ c ≤ 'F' then some (c.toNat - 'A'.toNat + 10)
  else none

/-- The value of a run of hexadecimal digits. -/
def hexValue? (ds : List Char) : Option Nat :=
  ds.foldlM (fun n d => (hexDigit? d).map (16 * n + ·)) 0

/-- The character with a code, unless the code is a surrogate or too large. -/
def charOfCode? (n : Nat) : Option Char :=
  if n.isValidChar then some (Char.ofNat n) else none

/-- The character that an escape of one letter stands for. -/
def shortEscape? : Char → Option Char
  | '0' => some '\x00'
  | 'a' => some '\x07'
  | 'b' => some '\x08'
  | 't' => some '\t'
  | '\t' => some '\t'
  | 'n' => some '\n'
  | 'v' => some '\x0b'
  | 'f' => some '\x0c'
  | 'r' => some '\r'
  | 'e' => some '\x1b'
  | ' ' => some ' '
  | '"' => some '"'
  | '/' => some '/'
  | '\\' => some '\\'
  | 'N' => some '\u0085'
  | '_' => some '\u00a0'
  | 'L' => some '\u2028'
  | 'P' => some '\u2029'
  | _ => none

/-- How many hexadecimal digits follow the letter of an escape. -/
def escapeDigits? : Char → Option Nat
  | 'x' => some 2
  | 'u' => some 4
  | 'U' => some 8
  | _ => none

/-- Reads an escape behind its backslash: the character, and how many characters it takes. -/
def readEscape : List Char → Option (Char × Nat)
  | [] => none
  | letter :: rest =>
    match escapeDigits? letter with
    | some n => do
      let ds := rest.take n
      guard (ds.length = n)
      return (← charOfCode? (← hexValue? ds), n + 1)
    | none => (shortEscape? letter).map (·, 1)

/-- Reads the rest of a quoted scalar up to and with its closing quote. -/
def quotedFrom (single : Bool) : List Char → List Char → Cursor → Option (List Char × Cursor)
  | [], _, _ => none
  | _ :: budget, out, c =>
    if c.atMarker then none
    else
      match c.rest with
      | [] => none
      | ch :: rest =>
        if ch == '\'' && single then
          if rest.head? == some '\'' then quotedFrom single budget ('\'' :: out) (c.advance 2)
          else some (out, c.advance 1)
        else if ch == '"' && !single then some (out, c.advance 1)
        else if ch == '\\' && !single then
          if rest.head?.any isBreak then
            let (_, c) := (c.advance 1).readBreak
            match readGap 0 c.rest true ⟨[], []⟩ c with
            | none => none
            | some (gap, c) => quotedFrom single budget (gap.breaks ++ out) c
          else
            match readEscape rest with
            | none => none
            | some (e, n) => quotedFrom single budget (e :: out) (c.advance (n + 1))
        else if isBlank ch || isBreak ch then
          match readGap 0 c.rest false ⟨[], []⟩ c with
          | none => none
          | some (gap, c) => quotedFrom single budget (gap.fold ++ out) c
        else quotedFrom single budget (ch :: out) (c.advance 1)

/-- Reads a quoted scalar from its opening quote. -/
def readQuoted (single : Bool) (c : Cursor) : Option (Scalar × Cursor) := do
  let (out, c) ← quotedFrom single c.rest [] (c.advance 1)
  return (⟨String.ofList out.reverse, .quoted, none⟩, c)

end RobotShell.Yaml
