/-!
# Tags of YAML

A tag says what type a node is of. It is kept in bytes, since escapes in it may write bytes that are
no text. A tag that starts with an exclamation mark is local: what it means is left to whoever reads
the node.
-/

set_option autoImplicit false

namespace FlowGate.Yaml

structure Tag where
  bytes : List UInt8
  deriving DecidableEq

namespace Tag

/-- The tag with these bytes, which end before a zero. -/
def ofBytes (bytes : List UInt8) : Tag :=
  ⟨bytes.takeWhile (· ≠ 0)⟩

def ofString (text : String) : Tag :=
  ⟨text.toUTF8.data.toList⟩

instance : Append Tag :=
  ⟨fun left right ↦ ⟨left.bytes ++ right.bytes⟩⟩

/-- The tag of a type that every reader knows. -/
def core (type : String) : Tag :=
  ofString ("tag:yaml.org,2002:" ++ type)

/-- Whether a tag is local. -/
def isLocal (tag : Tag) : Bool :=
  tag.bytes.head? == some '!'.toUInt8

/-- The name of a local tag, which is what follows the mark, or the mark if nothing does. Bytes that
are no text are no name. -/
def name? (tag : Tag) : Option String :=
  match tag.bytes with
  | mark :: rest =>
    if mark ≠ '!'.toUInt8 then none
    else String.fromUTF8? ⟨(if rest = [] then [mark] else rest).toArray⟩
  | [] => none

end Tag

end FlowGate.Yaml
