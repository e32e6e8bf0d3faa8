/-!
# Lengths in bytes

Positions in a text are counted in bytes of UTF-8, and lengths add up when texts are joined.
-/

set_option autoImplicit false

namespace FlowGate

/-- The length of a text in bytes of UTF-8. -/
def byteLength : List Char → Nat
  | [] => 0
  | c :: cs => c.utf8Size + byteLength cs

theorem byteLength_append (left right : List Char) :
    byteLength (left ++ right) = byteLength left + byteLength right := by
  induction left with
  | nil => simp [byteLength]
  | cons c left ih => simp [byteLength, ih, Nat.add_assoc]

end FlowGate
