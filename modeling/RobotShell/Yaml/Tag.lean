/-!
# Tags

A tag says what kind of value a node is. It is kept as octets, because those that are written as
escapes need not be the UTF-8 form of a text. A zero octet ends a tag, wherever it stands.
-/

namespace RobotShell.Yaml

/-- The octets of a tag, none of which is zero. -/
abbrev Tag := List UInt8

namespace Tag

/-- The tag that is written as octets: those before the first zero octet. -/
def ofOctets (octets : List UInt8) : Tag :=
  octets.takeWhile (· != 0)

/-- The tag that a text spells. -/
def ofString (s : String) : Tag :=
  ofOctets s.toUTF8.toList

theorem zero_notMem_ofOctets (octets : List UInt8) : 0 ∉ ofOctets octets := by
  intro h
  simpa using List.all_eq_true.1 (List.all_takeWhile (p := (· != 0)) (l := octets)) 0 h

/-- The tag that is a lone exclamation mark. It is also what handles that are one stand for. -/
def nonspecific : Tag := ofString "!"

/-- What the tags of the common kinds of values start with. -/
def common : Tag := ofString "tag:yaml.org,2002:"

/-- The tag of integers. -/
def int : Tag := common ++ ofString "int"

/-- The tag of truth values. -/
def bool : Tag := common ++ ofString "bool"

end Tag

end RobotShell.Yaml
