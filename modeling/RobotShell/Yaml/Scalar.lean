import RobotShell.Yaml.Cursor
import RobotShell.Yaml.Tag

/-!
# Plain scalars

A scalar is a text, written in one of several styles. The plain style has no quotes: it ends before
a comment, before a colon that ends a word, or where the next line is not indented far enough.
White space inside a scalar is folded: blanks on one line stay, one line break becomes a space, and
of several the first is dropped.
-/

namespace RobotShell.Yaml

/-- How a scalar is written. -/
inductive Style where
  | plain
  | quoted
  | literal
  | folded
  deriving DecidableEq

/-- A text with the style and the tag it is written in. -/
structure Scalar where
  text : String
  style : Style
  tag : Option Tag
  deriving DecidableEq

/-- The scalar that stands where nothing is written. -/
def Scalar.empty (tag : Option Tag) : Scalar :=
  ⟨"", .plain, tag⟩

/-- White space inside a scalar: the blanks before the first line break, and the line breaks. Both
are kept latest first. -/
structure Gap where
  blanks : List Char
  breaks : List Char

/-- What a gap stands for, latest character first. -/
def Gap.fold (g : Gap) : List Char :=
  match g.breaks.reverse with
  | [] => g.blanks
  | ['\n'] => [' ']
  | '\n' :: more => more.reverse
  | _ => g.breaks

/-- Reads white space. `broken` says whether a line break has been read; from then on blanks are
dropped, and none of them may be a tab to the left of the column `indent`. -/
def readGap (indent : Nat) : List Char → Bool → Gap → Cursor → Option (Gap × Cursor)
  | [], _, gap, c => some (gap, c)
  | _ :: budget, broken, gap, c =>
    match c.peek with
    | none => some (gap, c)
    | some ch =>
      if isBlank ch then
        if !broken then
          readGap indent budget broken { gap with blanks := ch :: gap.blanks } (c.advance 1)
        else if ch == '\t' && decide (c.column < indent) then none
        else readGap indent budget broken gap (c.advance 1)
      else if isBreak ch then
        let (kept, c) := c.readBreak
        readGap indent budget true { gap with breaks := kept ++ gap.breaks } c
      else some (gap, c)

/-- Reads the characters of a plain scalar up to white space or the scalar's end, and returns them
latest first. Inside brackets a colon may not stand before punctuation. -/
def plainChunk (flow : Bool) : List Char → List Char → Option (List Char)
  | read, [] => some read
  | read, ch :: rest =>
    if isBlank ch || isBreak ch then some read
    else if flow && ch == ':' && rest.head?.any (",?[]\x7b\x7d".toList.contains ·) then none
    else if ch == ':' && endsWord rest.head? then some read
    else if flow && ",[]\x7b\x7d".toList.contains ch then some read
    else plainChunk flow (ch :: read) rest

/-- Reads the rest of a plain scalar. `out` holds what was read before, latest first, and `gap` the
white space behind that, which belongs to the scalar only if more follows. -/
def plainFrom (flow : Bool) (indent : Nat) :
    List Char → List Char → Gap → Cursor → Option (List Char × Gap × Cursor)
  | [], out, gap, c => some (out, gap, c)
  | _ :: budget, out, gap, c =>
    if c.atMarker || c.sees (· == '#') then some (out, gap, c)
    else
      match plainChunk flow [] c.rest with
      | none => none
      | some [] => some (out, gap, c)
      | some chunk =>
        let out := chunk ++ (gap.fold ++ out)
        let c := c.advance chunk.length
        match readGap indent c.rest false ⟨[], []⟩ c with
        | none => none
        | some (gap, c) =>
          if !flow && decide (c.column < indent) then some (out, gap, c)
          else plainFrom flow indent budget out gap c

/-- Reads a plain scalar whose further lines reach the column `indent` at least, and says whether
the cursor has come to another line. -/
def readPlain (flow : Bool) (indent : Nat) (c : Cursor) : Option (Scalar × Bool × Cursor) := do
  let (out, gap, c) ← plainFrom flow indent c.rest [] ⟨[], []⟩ c
  return (⟨String.ofList out.reverse, .plain, none⟩, !gap.breaks.isEmpty, c)

end RobotShell.Yaml
