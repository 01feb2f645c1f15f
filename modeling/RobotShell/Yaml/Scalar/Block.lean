import RobotShell.Yaml.Scalar

/-!
# Block scalars

A block scalar is the lines below its header that are indented far enough. The literal style keeps
its line breaks, the folded style joins lines with a space. The header may give the indentation, and
what becomes of the line breaks at the end.
-/

namespace RobotShell.Yaml

/-- What becomes of the line breaks at the end of a block scalar. -/
inductive Chomping where
  | strip
  | clip
  | keep
  deriving DecidableEq

/-- The chomping that an indicator asks for. -/
def Chomping.ofChar? : Char → Option Chomping
  | '+' => some .keep
  | '-' => some .strip
  | _ => none

/-- Reads the digit that gives an indentation, which is not zero; without one the answer is 0. -/
def readIncrement (c : Cursor) : Option (Nat × Cursor) :=
  match c.peek with
  | some d =>
    if d == '0' then none
    else if d.isDigit then some (d.toNat - '0'.toNat, c.advance 1)
    else some (0, c)
  | none => some (0, c)

/-- Reads the header of a block scalar behind its first character: the chomping, and how much
further than its parent the scalar is indented, 0 where the scalar itself shows that. -/
def readBlockHeader (c : Cursor) : Option (Chomping × Nat × Cursor) := do
  let (chomping, increment, c) ←
    match c.peek.bind Chomping.ofChar? with
    | some chomping =>
      let (increment, c) ← readIncrement (c.advance 1)
      pure (chomping, increment, c)
    | none =>
      let (increment, c) ← readIncrement c
      match (if increment = 0 then none else c.peek).bind Chomping.ofChar? with
      | some chomping => pure (chomping, increment, c.advance 1)
      | none => pure (.clip, increment, c)
  let c := c.skipWhile isBlank
  let c := if c.sees (· == '#') then c.skipLine else c
  guard (c.peek.all isBreak)
  return (chomping, increment, c.readBreak.2)

/-- Skips empty lines and indentation. An `indent` of 0 is not known yet. Returns the largest
column reached and the line breaks, latest first. -/
def readIndentation (indent : Nat) :
    List Char → Nat → List Char → Cursor → Option (Nat × List Char × Cursor)
  | [], reached, breaks, c => some (max reached c.column, breaks, c)
  | _ :: budget, reached, breaks, c =>
    let inMargin := indent == 0 || decide (c.column < indent)
    if inMargin && c.sees (· == ' ') then
      readIndentation indent budget reached breaks (c.advance 1)
    else if inMargin && c.sees (· == '\t') then none
    else
      let reached := max reached c.column
      if c.sees isBreak then
        let (kept, c) := c.readBreak
        readIndentation indent budget reached (kept ++ breaks) c
      else some (reached, breaks, c)

/-- What has been read of a block scalar. All lists are kept latest first. -/
structure BlockText where
  out : List Char
  /-- The line break behind the last line. -/
  lineBreak : List Char
  /-- The line breaks of empty lines behind that. -/
  emptyLines : List Char
  /-- Whether the last line starts with a blank. -/
  startsBlank : Bool

/-- What stands between the last line and the next one, in the folded style or not. -/
def BlockText.joint (b : BlockText) (isFolded nextStartsBlank : Bool) : List Char :=
  let lineBreak :=
    if isFolded && b.lineBreak == ['\n'] && !b.startsBlank && !nextStartsBlank then
      if b.emptyLines.isEmpty then [' '] else []
    else b.lineBreak
  b.emptyLines ++ lineBreak

/-- The text with its end treated as the chomping asks. -/
def BlockText.close (b : BlockText) (chomping : Chomping) : List Char :=
  match chomping with
  | .strip => b.out
  | .clip => b.lineBreak ++ b.out
  | .keep => b.emptyLines ++ (b.lineBreak ++ b.out)

/-- Reads the lines of a block scalar that start at the column `indent`. -/
def blockFrom (isFolded : Bool) (indent : Nat) :
    List Char → BlockText → Cursor → Option (BlockText × Cursor)
  | [], b, c => some (b, c)
  | _ :: budget, b, c =>
    if c.column ≠ indent ∨ c.peek = none then some (b, c)
    else
      let startsBlank := c.sees isBlank
      let text := c.rest.takeWhile (!isBreak ·)
      let out := text.reverse ++ (b.joint isFolded startsBlank ++ b.out)
      let (lineBreak, c) := (c.advance text.length).readBreak
      match readIndentation indent c.rest 0 [] c with
      | none => none
      | some (_, emptyLines, c) =>
        blockFrom isFolded indent budget ⟨out, lineBreak, emptyLines, startsBlank⟩ c

/-- Reads a block scalar from its first character. `parent` is the column right of its parent's
indentation. -/
def readBlock (isFolded : Bool) (parent : Nat) (c : Cursor) : Option (Scalar × Cursor) := do
  let (chomping, increment, c) ← readBlockHeader (c.advance 1)
  let given := if increment = 0 then 0 else parent - 1 + increment
  let (reached, emptyLines, c) ← readIndentation given c.rest 0 [] c
  let indent := if given = 0 then max (max reached parent) 1 else given
  let (b, c) ← blockFrom isFolded indent c.rest ⟨[], [], emptyLines, false⟩ c
  let style := if isFolded then Style.folded else Style.literal
  return (⟨String.ofList (b.close chomping).reverse, style, none⟩, c)

end RobotShell.Yaml
