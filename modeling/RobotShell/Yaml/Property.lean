import RobotShell.Yaml.Scalar.Quoted
import RobotShell.Yaml.Token

/-!
# Anchors, tags and directives

What stands before a node, and what stands before a document.
-/

namespace RobotShell.Yaml

/-- The name of an anchor or an alias, behind its first character. -/
def readAnchorName (c : Cursor) : Option (String × Cursor) := do
  let name := c.rest.takeWhile isWordChar
  let c := c.advance name.length
  guard (!name.isEmpty && (endsWord c.peek || c.sees ("?:,]\x7d%@\x60".toList.contains ·)))
  return (String.ofList name, c)

/-- The ASCII characters of which a tag is made, escapes apart. -/
def isTagChar (brackets : Bool) (c : Char) : Bool :=
  isWordChar c || ";/?:@&=+$.!~*'()".toList.contains c || (brackets && ",[]".toList.contains c)

/-- Reads an octet that is written as a percent sign and two digits. -/
def readOctet : List Char → Option (UInt8 × List Char)
  | '%' :: a :: b :: rest => do
    return ((16 * (← hexDigit? a) + (← hexDigit? b)).toUInt8, rest)
  | _ => none

/-- Reads octets that go on with a character. -/
def readFollowing : Nat → List Char → Option (List UInt8 × List Char)
  | 0, cs => some ([], cs)
  | n + 1, cs => do
    let (octet, cs) ← readOctet cs
    guard (octet / 64 = 2)
    let (more, cs) ← readFollowing n cs
    return (octet :: more, cs)

/-- How many octets go on with the character that an octet starts. -/
def following? (lead : UInt8) : Option Nat :=
  if lead < 0x80 then some 0
  else if lead / 32 = 6 then some 1
  else if lead / 16 = 14 then some 2
  else if lead / 8 = 30 then some 3
  else none

/-- Reads the octets of an escaped character. They need its shape, but may have any value. -/
def readEscapedOctets (cs : List Char) : Option (List UInt8 × List Char) := do
  let (lead, cs) ← readOctet cs
  let (more, cs) ← readFollowing (← following? lead) cs
  return (lead :: more, cs)

/-- Reads the octets of a tag, and returns them latest first. -/
def tagFrom (brackets : Bool) :
    List Char → List UInt8 → Cursor → Option (List UInt8 × Cursor)
  | [], out, c => some (out, c)
  | _ :: budget, out, c =>
    match c.rest with
    | [] => some (out, c)
    | ch :: _ =>
      if ch == '%' then
        match readEscapedOctets c.rest with
        | none => none
        | some (octets, rest) =>
          tagFrom brackets budget (octets.reverse ++ out)
            (c.advance (c.rest.length - rest.length))
      else if isTagChar brackets ch then
        tagFrom brackets budget (ch.toNat.toUInt8 :: out) (c.advance 1)
      else some (out, c)

/-- Reads the octets of a tag, of which there may be none. -/
def readTagOctets (brackets : Bool) (c : Cursor) : Option (List UInt8 × Cursor) := do
  let (out, c) ← tagFrom brackets c.rest [] c
  return (out.reverse, c)

/-- Reads a tag handle, which starts with an exclamation mark and may end with another one. -/
def readHandle (c : Cursor) : Option (List Char × Cursor) := do
  guard (c.sees (· == '!'))
  let name := '!' :: (c.advance 1).rest.takeWhile isWordChar
  let c := c.advance name.length
  return if c.sees (· == '!') then (name ++ ['!'], c.advance 1) else (name, c)

/-- Whether a handle has its second exclamation mark. -/
def isClosedHandle (handle : List Char) : Bool :=
  decide (2 ≤ handle.length) && handle.getLast? == some '!'

/-- Reads a tag. Between `<` and `>` it stands as it is; else it is a handle and what follows. -/
def readTag (flow : Bool) (c : Cursor) : Option (Token × Cursor) := do
  let (tag, c) ←
    if c.rest[1]? == some '<' then do
      let (octets, c) ← readTagOctets true (c.advance 2)
      guard (!octets.isEmpty && c.sees (· == '>'))
      pure (Token.tag "" (.ofOctets octets), c.advance 1)
    else do
      let (handle, c) ← readHandle c
      let (octets, c) ← readTagOctets false c
      if isClosedHandle handle then do
        guard (!octets.isEmpty)
        pure (.tag (String.ofList handle) (.ofOctets octets), c)
      else
        let tag := Tag.ofString (String.ofList handle.tail) ++ .ofOctets octets
        pure (if tag.isEmpty then .tag "" .nonspecific else .tag "!" tag, c)
  guard (endsWord c.peek || (flow && c.sees (· == ',')))
  return (tag, c)

/-- Reads a number of a version, which has nine digits at most. -/
def readVersionNumber (c : Cursor) : Option (Nat × Cursor) := do
  let digits := c.rest.takeWhile Char.isDigit
  guard (!digits.isEmpty && decide (digits.length ≤ 9))
  return (digits.foldl (fun n d => 10 * n + (d.toNat - '0'.toNat)) 0, c.advance digits.length)

/-- Reads what follows the word `YAML` of a directive. -/
def readVersion (c : Cursor) : Option (Token × Cursor) := do
  let (major, c) ← readVersionNumber (c.skipWhile isBlank)
  guard (c.sees (· == '.'))
  let (minor, c) ← readVersionNumber (c.advance 1)
  return (.version major minor, c)

/-- Reads what follows the word `TAG` of a directive. -/
def readTagHandle (c : Cursor) : Option (Token × Cursor) := do
  let (handle, c) ← readHandle (c.skipWhile isBlank)
  guard (isClosedHandle handle || handle == ['!'])
  guard (c.sees isBlank)
  let (octets, c) ← readTagOctets true (c.skipWhile isBlank)
  guard (!octets.isEmpty && endsWord c.peek)
  return (.tagHandle (String.ofList handle) (.ofOctets octets), c)

/-- Reads a directive and the rest of its line. -/
def readDirective (c : Cursor) : Option (Token × Cursor) := do
  let c := c.advance 1
  let name := c.rest.takeWhile isWordChar
  let c := c.advance name.length
  guard (!name.isEmpty && endsWord c.peek)
  let (directive, c) ←
    match String.ofList name with
    | "YAML" => readVersion c
    | "TAG" => readTagHandle c
    | _ => none
  let c := c.skipWhile isBlank
  let c := if c.sees (· == '#') then c.skipLine else c
  guard (c.peek.all isBreak)
  return (directive, c.readBreak.2)

end RobotShell.Yaml
