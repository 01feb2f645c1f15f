import RobotShell.Yaml.Scan
import Std.Data.TreeMap

/-!
# From tokens to events

The documents of a YAML text, each as a row of events: collections start and end, and scalars stand
between. The reader keeps what it still expects on a list, so collections may be nested as deep as
they like.

An anchor puts its node into a slot, whose number is how many names have a slot already. A name that
is used again therefore moves to a new slot, and the next new name shares it. An alias stands for
what is last put into the slot that its name has where the alias is written: an alias of a scalar is
replaced by that scalar, an alias of a collection is only noted.
-/

namespace RobotShell.Yaml

/-- A step through a document. -/
inductive Event where
  | scalar (s : Scalar)
  | sequenceStart
  | sequenceEnd
  | mappingStart
  | mappingEnd
  /-- A node that stands elsewhere in the document, in a slot for anchors. -/
  | alias (slot : Nat)
  deriving DecidableEq

/-- What a reader of a document expects next. -/
inductive Goal where
  /-- A node. Only a block node may be a block collection, and only the key or value of a block
  mapping may be a sequence without indentation. -/
  | node (block bare : Bool)
  | blockItems
  | bareItems
  | blockKey
  | blockValue
  /-- The items of a flow sequence; behind the first, a comma comes before each. -/
  | flowItems (first : Bool)
  /-- The key, value and end of a pair that is an item of a flow sequence. -/
  | pairKey
  | pairValue
  | pairEnd
  | flowKey (first : Bool)
  | flowValue
  /-- The value of a key behind which none may be written. -/
  | noValue

/-- A reader inside a document. -/
structure Reader where
  goals : List Goal
  tokens : List Token
  /-- The events read, the latest first. -/
  events : List Event
  /-- The slots of the anchors' names. -/
  slots : Std.TreeMap String Nat
  /-- What is in the slots: a scalar, or else some collection. -/
  anchored : Std.TreeMap Nat (Option Scalar)
  /-- The tag handles and what they stand for. -/
  handles : List (String × Tag)

/-- The anchor and the tag before a node, in either order. -/
def properties : List Token → Option String × Option (String × Tag) × List Token
  | .anchor a :: .tag h t :: rest => (some a, some (h, t), rest)
  | .tag h t :: .anchor a :: rest => (some a, some (h, t), rest)
  | .anchor a :: rest => (some a, none, rest)
  | .tag h t :: rest => (none, some (h, t), rest)
  | rest => (none, none, rest)

/-- Whether a mapping's key or value is left out, as the next token shows. -/
def endsBlockPart : List Token → Bool
  | [] => false
  | t :: _ => t == .key || t == .value || t == .blockEnd

/-- Whether an item or value of a flow collection is left out. -/
def endsFlowPart (close : Token) : List Token → Bool
  | [] => false
  | t :: _ => t == .comma || t == close

namespace Reader

/-- Notes an event. -/
def note (r : Reader) (e : Event) : Reader :=
  { r with events := e :: r.events }

/-- Goes on behind some tokens with other goals. -/
def goTo (r : Reader) (goals : List Goal) (tokens : List Token) : Reader :=
  { r with goals := goals, tokens := tokens }

/-- Notes a scalar where nothing is written. -/
def noteEmpty (r : Reader) : Reader :=
  r.note (.scalar (.empty none))

/-- Puts what an anchor stands for into a slot. -/
def bindAnchor (r : Reader) (anchor : Option String) (s : Option Scalar) : Reader :=
  match anchor with
  | some a =>
    let slot := r.slots.size
    { r with slots := r.slots.insert a slot, anchored := r.anchored.insert slot s }
  | none => r

/-- The event that an event comes to once all slots are filled. -/
def resolve (r : Reader) : Event → Event
  | .alias slot =>
    match r.anchored[slot]? with
    | some (some s) => .scalar s
    | _ => .alias slot
  | e => e

/-- The tag that a handle and a rest stand for. -/
def resolveTag (r : Reader) : Option (String × Tag) → Option (Option Tag)
  | none => some none
  | some ("", t) => some (some t)
  | some (h, t) => (r.handles.lookup h).map fun start => some (start ++ t)

/-- Reads a node, with these goals behind it. -/
def node (r : Reader) (block bare : Bool) (goals : List Goal) : Option Reader :=
  match r.tokens with
  | .alias a :: rest =>
    match r.slots[a]? with
    | some slot => some ((r.note (.alias slot)).goTo goals rest)
    | none => none
  | ts =>
    let (anchor, tag, ts) := properties ts
    match r.resolveTag tag with
    | none => none
    | some resolved =>
      let sequence (g : Goal) (rest : List Token) : Option Reader :=
        some (((r.bindAnchor anchor none).note .sequenceStart).goTo (g :: goals) rest)
      let mapping (g : Goal) (rest : List Token) : Option Reader :=
        some (((r.bindAnchor anchor none).note .mappingStart).goTo (g :: goals) rest)
      let scalar (s : Scalar) (rest : List Token) : Option Reader :=
        some (((r.bindAnchor anchor (some s)).note (.scalar s)).goTo goals rest)
      let missing : Option Reader :=
        if anchor.isSome || tag.isSome then scalar (.empty resolved) ts else none
      match ts with
      | .item :: _ => if bare then sequence .bareItems ts else missing
      | .scalar s :: rest => scalar { s with tag := resolved } rest
      | .flowSequence :: rest => sequence (.flowItems true) rest
      | .flowMapping :: rest => mapping (.flowKey true) rest
      | .blockSequence :: rest => if block then sequence .blockItems rest else missing
      | .blockMapping :: rest => if block then mapping .blockKey rest else missing
      | _ => missing

/-- Expects a part of a collection, unless the part is left out. -/
def part (r : Reader) (omitted : Bool) (g : Goal) (goals : List Goal) (tokens : List Token) :
    Reader :=
  if omitted then r.noteEmpty.goTo goals tokens else r.goTo (g :: goals) tokens

/-- The tokens of a flow collection behind the comma that comes before all parts but the first. -/
def afterComma (first : Bool) : List Token → Option (List Token)
  | ts =>
    if first then some ts
    else
      match ts with
      | .comma :: rest => some rest
      | _ => none

/-- Takes up the first goal. -/
def step (r : Reader) : Goal → List Goal → Option Reader
  | .node block bare, goals => r.node block bare goals
  | .blockItems, goals =>
    match r.tokens with
    | .item :: rest =>
      let omitted := match rest with
        | t :: _ => t == .item || t == .blockEnd
        | [] => false
      some (r.part omitted (.node true false) (.blockItems :: goals) rest)
    | .blockEnd :: rest => some ((r.note .sequenceEnd).goTo goals rest)
    | _ => none
  | .bareItems, goals =>
    match r.tokens with
    | .item :: rest =>
      let omitted := endsBlockPart rest || rest.head? == some .item
      some (r.part omitted (.node true false) (.bareItems :: goals) rest)
    | ts => some ((r.note .sequenceEnd).goTo goals ts)
  | .blockKey, goals =>
    match r.tokens with
    | .key :: rest =>
      some (r.part (endsBlockPart rest) (.node true true) (.blockValue :: goals) rest)
    | .blockEnd :: rest => some ((r.note .mappingEnd).goTo goals rest)
    | _ => none
  | .blockValue, goals =>
    match r.tokens with
    | .value :: rest =>
      some (r.part (endsBlockPart rest) (.node true true) (.blockKey :: goals) rest)
    | ts => some (r.noteEmpty.goTo (.blockKey :: goals) ts)
  | .flowItems first, goals =>
    match r.tokens with
    | .flowSequenceEnd :: rest => some ((r.note .sequenceEnd).goTo goals rest)
    | ts =>
      match afterComma first ts with
      | none => none
      | some (.key :: rest) =>
        some ((r.note .mappingStart).goTo (.pairKey :: .flowItems false :: goals) rest)
      | some (.flowSequenceEnd :: rest) => some ((r.note .sequenceEnd).goTo goals rest)
      | some ts => some (r.goTo (.node false false :: .flowItems false :: goals) ts)
  | .pairKey, goals =>
    match r.tokens with
    | t :: rest =>
      if t == .value || endsFlowPart .flowSequenceEnd r.tokens then
        some (r.noteEmpty.goTo (.pairValue :: goals) rest)
      else some (r.goTo (.node false false :: .pairValue :: goals) r.tokens)
    | [] => none
  | .pairValue, goals =>
    match r.tokens with
    | .value :: rest =>
      let omitted := endsFlowPart .flowSequenceEnd rest
      some (r.part omitted (.node false false) (.pairEnd :: goals) rest)
    | ts => some (r.noteEmpty.goTo (.pairEnd :: goals) ts)
  | .pairEnd, goals => some ((r.note .mappingEnd).goTo goals r.tokens)
  | .flowKey first, goals =>
    match r.tokens with
    | .flowMappingEnd :: rest => some ((r.note .mappingEnd).goTo goals rest)
    | ts =>
      match afterComma first ts with
      | none => none
      | some (.key :: rest) =>
        let omitted := endsFlowPart .flowMappingEnd rest || rest.head? == some .value
        some (r.part omitted (.node false false) (.flowValue :: goals) rest)
      | some (.flowMappingEnd :: rest) => some ((r.note .mappingEnd).goTo goals rest)
      | some ts => some (r.goTo (.node false false :: .noValue :: goals) ts)
  | .flowValue, goals =>
    match r.tokens with
    | .value :: rest =>
      some (r.part (endsFlowPart .flowMappingEnd rest) (.node false false)
        (.flowKey false :: goals) rest)
    | ts => some (r.noteEmpty.goTo (.flowKey false :: goals) ts)
  | .noValue, goals => some (r.noteEmpty.goTo (.flowKey false :: goals) r.tokens)

/-- Takes up goals until none is left, in so many steps at most. -/
def run : Nat → Reader → Option Reader
  | 0, _ => none
  | fuel + 1, r =>
    match r.goals with
    | [] => some r
    | g :: goals =>
      match r.step g goals with
      | none => none
      | some r => run fuel r

end Reader

/-- The tag handles that every document knows. -/
def defaultHandles : List (String × Tag) :=
  [("!", .nonspecific), ("!!", .common)]

/-- Reads the directives of a document: the version may be given once, and each handle once. -/
def directives : Bool → List (String × Tag) → List Token →
    Option (List (String × Tag) × List Token)
  | versioned, handles, .version major minor :: rest =>
    if !versioned && major == 1 && (minor == 1 || minor == 2) then directives true handles rest
    else none
  | versioned, handles, .tagHandle handle start :: rest =>
    if (handles.lookup handle).isSome then none
    else directives versioned ((handle, start) :: handles) rest
  | _, handles, rest => some (handles, rest)

/-- Reads one document from its root. No token takes more than a few steps. -/
def document (handles : List (String × Tag)) (ts : List Token) :
    Option (List Event × List Token) := do
  let start : Reader := ⟨[.node true false], ts, [], ∅, ∅, handles ++ defaultHandles⟩
  let r ← Reader.run (8 * ts.length + 8) start
  return (r.events.reverse.map r.resolve, r.tokens)

/-- Whether a document whose start is marked holds nothing. -/
def isEmptyDocument : List Token → Bool
  | [] | .documentStart :: _ | .documentEnd :: _ | .version .. :: _ | .tagHandle .. :: _ => true
  | _ => false

/-- Reads the documents that are left. Only the first may start without a marker. -/
def documentsFrom : Nat → Bool → List (List Event) → List Token → Option (List (List Event))
  | 0, _, _, _ => none
  | fuel + 1, first, done, ts =>
    let ts := if first then ts else ts.dropWhile (· == .documentEnd)
    let go (read : Option (List Event × List Token)) : Option (List (List Event)) :=
      match read with
      | none => none
      | some (events, .documentEnd :: rest) => documentsFrom fuel false (events :: done) rest
      | some (events, rest) => documentsFrom fuel false (events :: done) rest
    match ts with
    | [] => some done.reverse
    | _ =>
      if first && (!isEmptyDocument ts || ts.head? == some .documentEnd) then go (document [] ts)
      else
        match directives false [] ts with
        | some (handles, .documentStart :: rest) =>
          if isEmptyDocument rest then go (some ([.scalar (.empty none)], rest))
          else go (document handles rest)
        | _ => none

/-- The documents of a text, if it is well formed. -/
def documents? (s : String) : Option (List (List Event)) := do
  let ts ← tokens? s.toList
  documentsFrom (ts.length + 1) true [] ts

end RobotShell.Yaml
