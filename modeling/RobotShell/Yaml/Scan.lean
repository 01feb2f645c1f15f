import RobotShell.Yaml.Property
import RobotShell.Yaml.Scalar.Block

/-!
# From text to tokens

The tokens of a YAML text depend on its columns. A line that starts right of the collection around
it opens a block collection, one that starts left of it closes some. A key shows only by the colon
behind it: wherever a key may start, the place is remembered, and the colon announces the key there.
-/

namespace RobotShell.Yaml

/-- A place where a key may have started. -/
structure KeyMark where
  /-- The number of tokens before it. -/
  token : Nat
  index : Nat
  line : Nat
  column : Nat
  /-- Whether nothing but a key can start there. -/
  required : Bool

/-- A reader between two tokens. -/
structure Scanner where
  cursor : Cursor
  tokens : Array Token
  /-- The columns of the block collections that are open, the innermost first. -/
  indents : List Nat
  /-- Whether a key may start at the next token. -/
  keyAllowed : Bool
  /-- Where the key may have started that a colon would end. -/
  key : Option KeyMark
  /-- The same for the collections around the open flow collections, the innermost first. -/
  outerKeys : List (Option KeyMark)

namespace Scanner

/-- A reader at the start of a text. -/
def start (cs : List Char) : Scanner :=
  ⟨.start cs, #[], [], true, none, []⟩

/-- Whether a flow collection is open. Columns mean nothing inside one. -/
def flow (s : Scanner) : Bool :=
  !s.outerKeys.isEmpty

/-- The column right of the innermost block collection. -/
def margin (s : Scanner) : Nat :=
  match s.indents with
  | [] => 0
  | column :: _ => column + 1

/-- Adds a token and steps over its characters. -/
def emit (s : Scanner) (t : Token) (c : Cursor) : Scanner :=
  { s with tokens := s.tokens.push t, cursor := c }

/-- Gives up the place where a key may have started; if it had to be one, the text is malformed. -/
def dropKey (s : Scanner) : Option Scanner :=
  if s.key.any (·.required) then none else some { s with key := none }

/-- Remembers that a key may start here. -/
def markKey (s : Scanner) : Option Scanner :=
  if s.keyAllowed then do
    let s ← s.dropKey
    let c := s.cursor
    let required := !s.flow && s.indents.head? == some c.column
    return { s with key := some ⟨s.tokens.size, c.index, c.line, c.column, required⟩ }
  else some s

/-- Whether a key that started there would now be too long: it has to lie on one line and within
1024 octets. -/
def isStale (s : Scanner) (k : KeyMark) : Bool :=
  decide (k.line < s.cursor.line) || decide (k.index + 1024 < s.cursor.index)

/-- Gives up the places where keys would now be too long. -/
def dropStale (s : Scanner) : Option Scanner :=
  let stale (k : Option KeyMark) : Bool := k.any s.isStale
  let lost (k : Option KeyMark) : Bool := k.any fun k => s.isStale k && k.required
  let fresh (k : Option KeyMark) : Option KeyMark := if stale k then none else k
  if lost s.key || s.outerKeys.any lost then none
  else some { s with key := fresh s.key, outerKeys := s.outerKeys.map fresh }

/-- Opens a block collection at a column, if none is open there. Its token goes to the given place
among the tokens. -/
def openBlock (s : Scanner) (column place : Nat) (t : Token) : Scanner :=
  if !s.flow && s.indents.all (· < column) then
    { s with indents := column :: s.indents, tokens := s.tokens.insertIdxIfInBounds place t }
  else s

/-- Closes the block collections right of a column, or all of them. -/
def closeBlocks (s : Scanner) (column : Option Nat) : Scanner :=
  if s.flow then s
  else
    let closes (indent : Nat) : Bool := column.all (· < indent)
    { s with
      tokens := s.tokens ++ Array.replicate (s.indents.takeWhile closes).length Token.blockEnd
      indents := s.indents.dropWhile closes }

/-- Skips blanks, comments and line breaks. A tab counts as a blank only where no key may start. -/
def skipBlanks : List Char → Scanner → Scanner
  | [], s => s
  | _ :: budget, s =>
    let c := s.cursor
    let c := if c.column == 0 && c.sees (· == '\uFEFF') then c.advance 1 else c
    let c := c.skipWhile fun ch => ch == ' ' || ((s.flow || !s.keyAllowed) && ch == '\t')
    let c := if c.sees (· == '#') then c.skipLine else c
    if c.sees isBreak then
      skipBlanks budget { s with cursor := c.readBreak.2, keyAllowed := s.keyAllowed || !s.flow }
    else { s with cursor := c }

/-- A token between documents: a directive or a marker. -/
def documentToken (s : Scanner) (t : Token) (c : Cursor) : Option Scanner := do
  let s ← (s.closeBlocks none).dropKey
  return { s with keyAllowed := false }.emit t c

/-- The bracket that opens a flow collection. -/
def openFlow (s : Scanner) (t : Token) : Option Scanner := do
  let s ← s.markKey
  return { s with outerKeys := s.key :: s.outerKeys, key := none, keyAllowed := true }.emit t
    (s.cursor.advance 1)

/-- The bracket that closes a flow collection. -/
def closeFlow (s : Scanner) (t : Token) : Option Scanner := do
  let s ← s.dropKey
  let s := match s.outerKeys with
    | [] => s
    | key :: outer => { s with key := key, outerKeys := outer }
  return { s with keyAllowed := false }.emit t (s.cursor.advance 1)

/-- The comma of a flow collection. -/
def comma (s : Scanner) : Option Scanner := do
  let s ← s.dropKey
  return { s with keyAllowed := true }.emit .comma (s.cursor.advance 1)

/-- The dash of an item. -/
def item (s : Scanner) : Option Scanner := do
  guard (s.flow || s.keyAllowed)
  let s ← (s.openBlock s.cursor.column s.tokens.size .blockSequence).dropKey
  return { s with keyAllowed := true }.emit .item (s.cursor.advance 1)

/-- The question mark that announces a key. -/
def explicitKey (s : Scanner) : Option Scanner := do
  guard (s.flow || s.keyAllowed)
  let s ← (s.openBlock s.cursor.column s.tokens.size .blockMapping).dropKey
  return { s with keyAllowed := !s.flow }.emit .key (s.cursor.advance 1)

/-- The colon before a value. It announces the key that is remembered, if there is one. -/
def value (s : Scanner) : Option Scanner :=
  match s.key with
  | some k =>
    let s := { s with tokens := s.tokens.insertIdxIfInBounds k.token .key, key := none }
    let s := s.openBlock k.column k.token .blockMapping
    some ({ s with keyAllowed := false }.emit .value (s.cursor.advance 1))
  | none => do
    guard (s.flow || s.keyAllowed)
    let s := s.openBlock s.cursor.column s.tokens.size .blockMapping
    return { s with keyAllowed := !s.flow }.emit .value (s.cursor.advance 1)

/-- An anchor, an alias or a tag, all of which may start a key. -/
def property (s : Scanner) (read : Cursor → Option (Token × Cursor)) : Option Scanner := do
  let s ← s.markKey
  let (t, c) ← read s.cursor
  return { s with keyAllowed := false }.emit t c

/-- A block scalar. -/
def blockScalar (s : Scanner) (isFolded : Bool) : Option Scanner := do
  let s ← s.dropKey
  let (text, c) ← readBlock isFolded s.margin s.cursor
  return { s with keyAllowed := true }.emit (.scalar text) c

/-- A plain scalar. Behind one that ends on another line a key may start. -/
def plainScalar (s : Scanner) : Option Scanner := do
  let s ← s.markKey
  let (text, broken, c) ← readPlain s.flow s.margin s.cursor
  return { s with keyAllowed := broken }.emit (.scalar text) c

/-- Whether a plain scalar may start with `ch`, when `next` follows it. -/
def startsPlain (flow : Bool) (ch : Char) (next : Option Char) : Bool :=
  !(isBlank ch || isBreak ch || "-?:,[]\x7b\x7d#&*!|>'\"%@\x60".toList.contains ch) ||
    (ch == '-' && !next.any isBlank) ||
    (!flow && (ch == '?' || ch == ':') && !endsWord next)

/-- Reads the token that starts with `ch`. -/
def token (s : Scanner) (ch : Char) : Option Scanner :=
  let c := s.cursor
  let next := c.rest[1]?
  let alone := s.flow || endsWord next
  if c.column == 0 && ch == '%' then do
    let (t, c) ← readDirective c
    s.documentToken t c
  else if c.atMarker then
    s.documentToken (if ch == '-' then .documentStart else .documentEnd) (c.advance 3)
  else if ch == '[' then s.openFlow .flowSequence
  else if ch == '\x7b' then s.openFlow .flowMapping
  else if ch == ']' then s.closeFlow .flowSequenceEnd
  else if ch == '\x7d' then s.closeFlow .flowMappingEnd
  else if ch == ',' then s.comma
  else if ch == '-' && endsWord next then s.item
  else if ch == '?' && alone then s.explicitKey
  else if ch == ':' && alone then s.value
  else if ch == '*' then
    s.property fun c => (readAnchorName (c.advance 1)).map fun (name, c) => (.alias name, c)
  else if ch == '&' then
    s.property fun c => (readAnchorName (c.advance 1)).map fun (name, c) => (.anchor name, c)
  else if ch == '!' then s.property (readTag s.flow)
  else if ch == '|' && !s.flow then s.blockScalar false
  else if ch == '>' && !s.flow then s.blockScalar true
  else if ch == '\'' || ch == '"' then
    s.property fun c => (readQuoted (ch == '\'') c).map fun (text, c) => (.scalar text, c)
  else if startsPlain s.flow ch next then s.plainScalar
  else none

/-- Ends the text: every block collection is closed. -/
def finish (s : Scanner) : Option (List Token) := do
  let s ← s.dropStale
  let s ← (s.closeBlocks none).dropKey
  return s.tokens.toList

/-- Reads the tokens that are left. Each takes a character at least. -/
def scanFrom : List Char → Scanner → Option (List Token)
  | [], s => s.finish
  | _ :: budget, s =>
    let s := skipBlanks s.cursor.rest s
    match s.cursor.peek with
    | none => s.finish
    | some ch =>
      match s.dropStale with
      | none => none
      | some s =>
        match (s.closeBlocks (some s.cursor.column)).token ch with
        | none => none
        | some s => scanFrom budget s

end Scanner

/-- The tokens of a text, if it is well formed so far. -/
def tokens? (cs : List Char) : Option (List Token) :=
  if cs.all isAllowed then Scanner.scanFrom cs (.start cs) else none

end RobotShell.Yaml
