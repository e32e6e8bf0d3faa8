/-!
# Attribute references

A link text mentions attributes as `$name`. A name runs over ASCII letters and digits, points and
underscores; a bracket right after the `$` opens a name that may hold brackets too, up to the one
that closes the first:

* `$status` names `status`, and `$order.total` names `order.total`;
* `$order["total"]` names `order` and leaves the rest as it is;
* `$[node.out]` names `node.out`.

`pieces` cuts a text into references and the text between them, and `translate` lists the names
and puts a look-up in the place of each reference. `source_pieces` says that the pieces are the
text.
-/

set_option autoImplicit false

namespace FlowGate.Reference

/-- Whether a character may stand in a name outside brackets. -/
def isNameChar (c : Char) : Bool :=
  c.isAlphanum || c == '.' || c == '_'

/-- Reads on while `depth` brackets are open: the text taken, the brackets still open, the rest. -/
def scanBrackets (depth : Nat) : List Char → List Char × Nat × List Char
  | [] => ([], depth, [])
  | c :: cs =>
    if c = '[' ∧ 0 < depth then
      let (taken, left, rest) := scanBrackets (depth + 1) cs
      (c :: taken, left, rest)
    else if c = ']' ∧ 0 < depth then
      let (taken, left, rest) := scanBrackets (depth - 1) cs
      (c :: taken, left, rest)
    else if isNameChar c then
      let (taken, left, rest) := scanBrackets depth cs
      (c :: taken, left, rest)
    else
      ([], depth, c :: cs)

/-- What follows a `$`: the text of the reference, the name in it and the text after it. The name
is empty if there is no reference. -/
structure Scanned where
  text : List Char
  name : List Char
  rest : List Char

/-- Reads the reference after a `$`. A name in brackets that are closed ends one character before
the reference does. -/
def scan : List Char → Scanned
  | '[' :: cs =>
    let (taken, left, rest) := scanBrackets 1 cs
    ⟨'[' :: taken, if left = 0 then taken.dropLast else taken, rest⟩
  | cs => ⟨cs.takeWhile isNameChar, cs.takeWhile isNameChar, cs.dropWhile isNameChar⟩

theorem scanBrackets_append (depth : Nat) (cs : List Char) :
    (scanBrackets depth cs).1 ++ (scanBrackets depth cs).2.2 = cs := by
  fun_induction scanBrackets depth cs with
  | case1 => rfl
  | case2 _ _ _ _ _ _ _ heq ih => simpa [heq] using ih
  | case3 _ _ _ _ _ _ _ _ heq ih => simpa [heq] using ih
  | case4 _ _ _ _ _ _ _ _ _ heq ih => simpa [heq] using ih
  | case5 => rfl

/-- The text of a reference is what it takes from the input. -/
theorem text_append_rest (cs : List Char) : (scan cs).text ++ (scan cs).rest = cs := by
  unfold scan
  split
  · exact congrArg ('[' :: ·) (scanBrackets_append 1 _)
  · exact List.takeWhile_append_dropWhile

theorem length_rest_le (cs : List Char) : (scan cs).rest.length ≤ cs.length := by
  have h := congrArg List.length (text_append_rest cs)
  rw [List.length_append] at h
  omega

/-- A part of a link text: plain text, or a reference without its `$` and the name in it. -/
inductive Piece where
  | plain (text : List Char)
  | mention (text name : List Char)

namespace Piece

/-- The part as it stands in the link text. -/
def source : Piece → List Char
  | plain text => text
  | mention text _ => '$' :: text

/-- The expression that looks a name up. -/
def lookupForm (name : List Char) : List Char :=
  "lookup(\"".toList ++ name ++ "\")".toList

/-- The part with a look-up in place of a reference. -/
def rewritten : Piece → List Char
  | plain text => text
  | mention _ name => lookupForm name

def name? : Piece → Option String
  | plain _ => none
  | mention _ name => some (String.ofList name)

end Piece

/-- Cuts a text into references and the text between them. A `$` without a name after it is text.
-/
def pieces : List Char → List Piece
  | [] => []
  | c :: cs =>
    if c = '$' then
      let scanned := scan cs
      have := length_rest_le cs
      if scanned.name = [] then
        .plain (c :: scanned.text) :: pieces scanned.rest
      else
        .mention scanned.text scanned.name :: pieces scanned.rest
    else
      .plain [c] :: pieces cs
termination_by cs => cs.length
decreasing_by
  · exact Nat.lt_succ_of_le this
  · exact Nat.lt_succ_of_le this
  · exact Nat.lt_succ_self cs.length

/-- Nothing of a text is lost or added when it is cut. -/
theorem source_pieces (cs : List Char) : (pieces cs).flatMap Piece.source = cs := by
  fun_induction pieces cs with
  | case1 => rfl
  | case2 cs scanned _ _ ih => simp [Piece.source, ih, scanned, text_append_rest]
  | case3 cs scanned _ _ ih => simp [Piece.source, ih, scanned, text_append_rest]
  | case4 c cs _ ih => simp [Piece.source, ih]

end FlowGate.Reference

namespace FlowGate

/-- A link text with its references read: the names in order of appearance, and the text with a
look-up in place of each. -/
structure LinkText where
  attributes : List String
  rewritten : String
  deriving DecidableEq

/-- Reads the references of a link text. -/
def translate (text : String) : LinkText :=
  let parts := Reference.pieces text.toList
  ⟨parts.filterMap Reference.Piece.name?,
    String.ofList (parts.flatMap Reference.Piece.rewritten)⟩

end FlowGate
