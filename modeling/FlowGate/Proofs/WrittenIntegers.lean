import FlowGate.Proofs.Dereferencing
import FlowGate.Proofs.IntegerArithmetic
import FlowGate.Proofs.LeastParentheses
import FlowGate.Proofs.LexicalFaults
import FlowGate.Proofs.LinkReading
import FlowGate.Proofs.Numerals
import FlowGate.Proofs.ReferenceNames
import FlowGate.Proofs.TranslationLocality

/-!
# Integers written in expressions

A literal has no sign: the digits of a negative integer are read by themselves and negated when they
are evaluated. So the decimal text of an integer compiles if 64 bits hold what its digits say, and
they do for every integer but the least (`exists_writes_toString`). The digits of the least one are
refused (`compile_toString_least`), and it has to be written as a difference
(`exists_writes_least`).

`Writes` is what these texts share: the expression that is read binds more tightly than an equation
and has the value of the integer in any context. That is enough to read a reference equated with the
text (`Writes.compile_equation`), so a link with such a text fires where the reference finds the
integer (`Writes.fires`).
-/

set_option autoImplicit false

namespace FlowGate

open Reference

/-! ### Texts of operators without parentheses -/

namespace Expr

/-- The text is read as tokens that the expression is printed as. -/
def ReadAs (text : List Char) (expr : Expr) : Prop :=
  ∃ tokens, Prints expr tokens ∧ Reads text tokens

theorem placed_eq_self {least : Nat} {expr : Expr} (h : least ≤ expr.level) (tokens : List Token) :
    placed least expr tokens = tokens :=
  if_neg (Nat.not_lt.mpr h)

theorem ReadAs.int {n : Int64} (hn : 0 ≤ n.toInt) :
    ReadAs (toString n.toInt).toList (.literal (.int n)) :=
  ⟨_, .literal (.int n), .int hn⟩

theorem ReadAs.lookup {name : String} (hname : ∀ c ∈ name.toList, isReferenceChar c = true) :
    ReadAs (lookupOf name) (.lookup name) :=
  ⟨_, .lookup name, .lookupOf hname⟩

/-- A unary operator may stand in front of an operand that binds as tightly as it does. -/
theorem ReadAs.unary {op : UnaryOp} {sign : String} (hsign : sign ∈ op.signs) {inner : List Char}
    {operand : Expr} (h : ReadAs inner operand) (hlevel : 6 ≤ operand.level)
    (hhead : ∃ c cs, inner = c :: cs ∧ c ≠ '=') :
    ReadAs (sign.toList ++ inner) (.unary op operand) := by
  obtain ⟨tokens, hprints, hreads⟩ := h
  obtain ⟨token, hprefix, hunary⟩ := hreads.unary hsign hhead
  have hprinted := Prints.unary hprefix hprints
  rw [placed_eq_self hlevel] at hprinted
  exact ⟨_, hprinted, hunary⟩

/-- An operator may stand between operands of which the left one binds as tightly as it does and the
right one more tightly. -/
theorem ReadAs.binary {op : BinaryOp} {sign : String} (hsign : sign ∈ op.signs)
    {front back : List Char} {left right : Expr} (hleft : ReadAs front left)
    (hright : ReadAs back right) (hleftLevel : op.level ≤ left.level)
    (hrightLevel : op.level < right.level) :
    ReadAs (front ++ ' ' :: (sign.toList ++ ' ' :: back)) (.binary op left right) := by
  obtain ⟨leftTokens, hleftPrints, hleftReads⟩ := hleft
  obtain ⟨rightTokens, hrightPrints, hrightReads⟩ := hright
  obtain ⟨token, hjoins, hbinary⟩ := hleftReads.binary hsign hrightReads
  have hprinted := Prints.binary hjoins hleftPrints hrightPrints
  rw [placed_eq_self hleftLevel, placed_eq_self hrightLevel] at hprinted
  exact ⟨_, hprinted, hbinary⟩

theorem ReadAs.compile {text : List Char} {expr : Expr} (h : ReadAs text expr)
    (hheight : expr.height ≤ 64) : compile (String.ofList text) = .ok expr := by
  obtain ⟨tokens, hprints, hreads⟩ := h
  obtain ⟨phrase, rfl, hexpr, hnesting⟩ := exists_phrase_of_prints hprints
  have hlexes := hreads [] [] (fun _ hc ↦ nomatch hc) .nil
  rw [List.append_nil, List.append_nil] at hlexes
  have hcompile := compile_of_lexes hlexes (by rw [hexpr, nestingLimit]; omega)
    (by rw [nestingLimit]; omega)
  rwa [hexpr] at hcompile

end Expr

/-! ### Ways to write an integer -/

/-- The text is read as an expression that has the value of the integer in any context. It mentions
nothing, and the expression is low and binds more tightly than an equation. -/
structure Writes (text : List Char) (expr : Expr) (n : Int64) : Prop where
  plain : '$' ∉ text
  reads : expr.ReadAs text
  tight : BinaryOp.equal.level < expr.level
  low : expr.height ≤ 3
  eval_eq : ∀ env, expr.eval env = .ok (.int n)

theorem writes_literal {n : Int64} (hn : 0 ≤ n.toInt) :
    Writes (toString n.toInt).toList (.literal (.int n)) n where
  plain := Expr.dollar_not_mem_toString hn
  reads := .int hn
  tight := Nat.le_of_ble_eq_true rfl
  low := Nat.le_of_ble_eq_true rfl
  eval_eq _ := rfl

/-- A minus in front of a text without one. -/
theorem writes_negation {n magnitude : Int64} (hmagnitude : 0 ≤ magnitude.toInt)
    (hn : n.toInt = -magnitude.toInt) :
    Writes ('-' :: (toString magnitude.toInt).toList) (.unary .neg (.literal (.int magnitude)))
      n where
  plain := by
    rw [List.mem_cons, not_or]
    exact ⟨by decide, Expr.dollar_not_mem_toString hmagnitude⟩
  reads := by
    have hsign : "-" ∈ UnaryOp.neg.signs := List.mem_cons_self
    have hhead := Expr.head_ne_of_written (.int magnitude) hmagnitude
    exact .unary hsign (.int hmagnitude) (Nat.le_of_ble_eq_true rfl) hhead
  tight := Nat.le_of_ble_eq_true rfl
  low := Nat.le_of_ble_eq_true rfl
  eval_eq env := by
    have hliteral : (Expr.literal (.int magnitude)).eval env = .ok (.int magnitude) := rfl
    have hvalue : Integer.neg? magnitude = some n := by
      rw [Integer.neg?, ← hn, Integer.ofInt?_toInt]
    rw [Expr.eval_unary .neg hliteral, UnaryOp.apply, hvalue]

/-- A difference of an integer and one that is not negative. -/
theorem Writes.sub {front : List Char} {left : Expr} {n a b : Int64} (hleft : Writes front left a)
    (hlevel : BinaryOp.sub.level ≤ left.level) (hlow : left.height ≤ 2) (hb : 0 ≤ b.toInt)
    (hn : n.toInt = a.toInt - b.toInt) :
    Writes (front ++ " - ".toList ++ (toString b.toInt).toList)
      (.binary .sub left (.literal (.int b))) n where
  plain := by
    rw [List.mem_append, List.mem_append, not_or, not_or]
    exact ⟨⟨hleft.plain, by decide⟩, Expr.dollar_not_mem_toString hb⟩
  reads := by
    have hsign : "-" ∈ BinaryOp.sub.signs := List.mem_cons_self
    have hread := Expr.ReadAs.binary hsign hleft.reads (.int hb) hlevel (Nat.le_of_ble_eq_true rfl)
    rw [List.append_assoc]
    exact hread
  tight := Nat.le_of_ble_eq_true rfl
  low := by
    show max left.height 1 + 1 ≤ 3
    omega
  eval_eq env := by
    have hliteral : (Expr.literal (.int b)).eval env = .ok (.int b) := rfl
    have hvalue : Integer.sub? a b = some n := by
      rw [Integer.sub?, ← hn, Integer.ofInt?_toInt]
    rw [Expr.eval_binary (by decide) (by decide) (hleft.eval_eq env) hliteral, BinaryOp.apply,
      BinaryOp.arithmetic, hvalue]

/-- The negation of every integer but the least is one of 64 bits. -/
theorem exists_negation {n : Int64} (hne : n ≠ Int64.minValue) :
    ∃ magnitude : Int64, n.toInt = -magnitude.toInt := by
  obtain ⟨hlow, hhigh⟩ := Integer.inRange_toInt n
  have hleast : n.toInt ≠ -9223372036854775808 := fun heq ↦ hne (Int64.toInt_inj.mp heq)
  have hrange : Integer.InRange (-n.toInt) := ⟨by omega, by omega⟩
  obtain ⟨magnitude, -, hmagnitude⟩ := Integer.exists_of_inRange hrange
  exact ⟨magnitude, by omega⟩

/-- The decimal text of a negative integer has a minus before the digits of its magnitude. -/
theorem toList_toString_of_neg {n : Int} (hn : n < 0) :
    (toString n).toList = '-' :: Nat.toDigits 10 n.natAbs := by
  rw [Json.Numeral.toList_toString, Json.Numeral.ofInt, decide_eq_true hn]
  rfl

/-- The decimal text of every integer but the least writes it. -/
theorem exists_writes_toString {n : Int64} (hne : n ≠ Int64.minValue) :
    ∃ expr, Writes (toString n.toInt).toList expr n := by
  by_cases hnegative : n.toInt < 0
  · obtain ⟨magnitude, hn⟩ := exists_negation hne
    have hmagnitude : 0 ≤ magnitude.toInt := by omega
    have htext : (toString n.toInt).toList = '-' :: (toString magnitude.toInt).toList := by
      rw [toList_toString_of_neg hnegative, Expr.toList_toString hmagnitude]
      congr 2
      omega
    rw [htext]
    exact ⟨_, writes_negation hmagnitude hn⟩
  · exact ⟨_, writes_literal (Int.not_lt.mp hnegative)⟩

/-- The least integer, written as one less than the negation of the greatest. -/
theorem exists_writes_least :
    ∃ expr, Writes "-9223372036854775807 - 1".toList expr Int64.minValue := by
  have hmagnitude : 0 ≤ Int64.maxValue.toInt := by decide
  have hnegation : (-9223372036854775807 : Int64).toInt = -Int64.maxValue.toInt := by decide
  have hgreatest := writes_negation hmagnitude hnegation
  have hone : 0 ≤ (1 : Int64).toInt := by decide
  exact ⟨_, hgreatest.sub (Nat.le_of_ble_eq_true rfl) (Nat.le_of_ble_eq_true rfl) hone (by decide)⟩

/-! ### Equations of references and integers -/

/-- The text is a reference to the name and nothing else. -/
def RefersTo (text name : String) : Prop :=
  translate text = ⟨[name], String.ofList (Expr.lookupOf name)⟩

theorem refersTo_of_isName {name : String} (h : Expr.IsName name) :
    RefersTo ("$" ++ name) name := by
  have htext : ("$" ++ name).toList = Expr.referenceTo name := by
    rw [String.toList_append]
    rfl
  have hreference := Expr.Translates.reference h
  rw [← htext] at hreference
  exact hreference.translate_eq

theorem RefersTo.names_eq {text name : String} (h : RefersTo text name) :
    names text.toList = [name] := by
  rw [RefersTo, translate_eq] at h
  exact congrArg LinkText.attributes h

theorem RefersTo.rewrite_eq {text name : String} (h : RefersTo text name) :
    rewrite text.toList = Expr.lookupOf name := by
  rw [RefersTo, translate_eq] at h
  exact String.ofList_injective (congrArg LinkText.rewritten h)

theorem RefersTo.isReferenceChar {text name : String} (h : RefersTo text name) :
    ∀ c ∈ name.toList, Reference.isReferenceChar c = true := by
  have hmem : name ∈ names text.toList := by
    rw [h.names_eq]
    exact List.mem_singleton_self name
  exact (chars_of_mem_names hmem).2

/-- A reference stays the only one where plain text follows that it does not go on into. -/
theorem RefersTo.translate_append {mention name : String} (h : RefersTo mention name)
    {rest : String} (hplain : '$' ∉ rest.toList) (hends : EndsReference rest.toList) :
    translate (mention ++ rest) = ⟨[name], String.ofList (Expr.lookupOf name ++ rest.toList)⟩ := by
  have hnames : names rest.toList = [] := by
    have hfront := names_append_of_plain hplain []
    rwa [List.append_nil, names_nil] at hfront
  have hrewrite : rewrite rest.toList = rest.toList := by
    have hfront := rewrite_append_of_plain hplain []
    rwa [List.append_nil, rewrite_nil, List.append_nil] at hfront
  rw [translate_eq, String.toList_append, names_append hends, rewrite_append hends, h.names_eq,
    h.rewrite_eq, hnames, hrewrite, List.append_nil]

section Equation

variable {text : String} {expr : Expr} {n : Int64} {mention name : String} {scope : Scope}

/-- A reference equated with an integer is read as the equation of the look-up and the integer. -/
theorem Writes.compile_equation (h : Writes text.toList expr n) (hmention : RefersTo mention name) :
    (translate (mention ++ " == " ++ text)).attributes = [name] ∧
      Expr.compile (translate (mention ++ " == " ++ text)).rewritten =
        .ok (.binary .equal (.lookup name) expr) := by
  have hrest : (" == " ++ text).toList = " == ".toList ++ text.toList := String.toList_append
  have hplain : '$' ∉ (" == " ++ text).toList := by
    rw [hrest, List.mem_append, not_or]
    exact ⟨by decide, h.plain⟩
  have hends : EndsReference (" == " ++ text).toList := by
    intro c hc
    rw [hrest] at hc
    obtain rfl : ' ' = c := Option.mem_some.mp hc
    rfl
  rw [String.append_assoc, hmention.translate_append hplain hends]
  refine ⟨rfl, ?_⟩
  have hsign : "==" ∈ BinaryOp.equal.signs := List.mem_cons_self
  have hread := Expr.ReadAs.binary hsign (.lookup hmention.isReferenceChar) h.reads
    (Nat.le_of_ble_eq_true rfl) h.tight
  have hlow : (Expr.binary .equal (.lookup name) expr).height ≤ 64 := by
    have hexpr := h.low
    show max 1 expr.height + 1 ≤ 64
    omega
  rw [hrest]
  exact hread.compile hlow

/-- The equation is true where the reference finds the integer. -/
theorem Writes.fires (h : Writes text.toList expr n) (hmention : RefersTo mention name)
    (hvalue : resolve? name scope = .ok (some (.int n))) {link : Link}
    (htext : link.text = mention ++ " == " ++ text) : link.Fires scope := by
  obtain ⟨hattributes, hcompile⟩ := h.compile_equation hmention
  right
  rw [htext, hattributes]
  constructor
  · intro hblank
    have hequals : Text.isBlank '=' = true := (Text.trim_eq_nil_iff _).mp hblank '=' (by simp)
    cases hequals
  · refine ⟨_, hcompile, ?_⟩
    have hlookup : (Expr.lookup name).eval (attributeValues [name] scope) = .ok (.int n) := by
      rw [Expr.eval, attributeValues, if_pos (List.mem_singleton_self name), referenceValue, hvalue]
    rw [Expr.eval_binary (by decide) (by decide) hlookup (h.eval_eq _), BinaryOp.apply,
      Value.equals, beq_self_eq_true]

end Equation

/-! ### Deciding the last link of an identity -/

/-- Each registry that is built from links of which this is the last of its identity lets the link
fire. -/
def Link.FiresWhenLast (link : Link) (scope : Scope) : Prop :=
  ∀ before after : List Link, (∀ other ∈ after, other.id ≠ link.id) →
    ((Registry.build (before ++ link :: after)).value.decide scope link).value = true

/-- The last link of an identity finds its own entry, if it has one. -/
theorem Registry.get?_build_last {link : Link} {entry : Entry} (hentry : link.entry? = some entry)
    (before : List Link) {after : List Link} (hlast : ∀ other ∈ after, other.id ≠ link.id) :
    OrderedMap.Entries.get? link.id (build (before ++ link :: after)).value = some entry := by
  have hafter : (after.filter fun other ↦ other.id = link.id) = [] := by
    simpa [List.filter_eq_nil_iff] using hlast
  rw [get?_build, List.filter_append, List.filter_cons_of_pos (by simp), hafter,
    List.filterMap_append, List.filterMap_cons_some hentry, List.filterMap_nil,
    List.getLast?_append, List.getLast?_singleton, Option.some_or]

/-- A link that fires when it is read by itself is let through where it is the last of its identity.
-/
theorem Link.Fires.firesWhenLast {link : Link} {scope : Scope} (h : link.Fires scope) :
    link.FiresWhenLast scope := by
  intro before after hlast
  rw [Registry.value_decide_eq_true_iff, Registry.value_tryDecide_eq_ok_true_iff]
  by_cases htype : link.type = .dependency
  · exact .inl htype
  · obtain ⟨hexpression, entry, hentry, htrue⟩ := (Registry.fires_iff_entry htype scope).mp h
    exact .inr ⟨hexpression, entry, Registry.get?_build_last hentry before hlast, htrue⟩

/-! ### Every integer can be written -/

/-- Digits are a literal that cannot be read if 64 bits do not hold their integer. -/
theorem beginsFault_toDigits {magnitude : Nat} (h : Integer.greatest < magnitude) :
    Expr.BeginsFault (.invalidNumber (toString magnitude)) (Nat.toDigits 10 magnitude) := by
  have hdigits : ∀ d ∈ Nat.toDigits 10 magnitude, d.isDigit = true := fun d hd ↦
    Nat.isDigit_of_mem_toDigits (by decide) (by decide) hd
  have hvalue : natOfDigits (Nat.toDigits 10 magnitude) = magnitude := Nat.ofDigitChars_ten_toDigits
  have hfault : Expr.BeginsFault (.invalidNumber (toString magnitude))
      (Nat.toDigits 10 magnitude ++ []) :=
    .invalidNumber Nat.toDigits_ne_nil hdigits (fun _ hd ↦ nomatch hd)
      (fun _ _ heq ↦ nomatch heq) (by rwa [hvalue])
  rwa [List.append_nil] at hfault

/-- A fault right behind a minus is what the text is refused for. -/
theorem compile_minus_of_fault {fault : LexFault} {text : List Char}
    (h : Expr.BeginsFault fault text) :
    Expr.compile (String.ofList ('-' :: text)) = .error (.lexical fault 1) := by
  obtain ⟨c, cs, rfl, hblank, -⟩ := h.exists_cons
  have hminus : Expr.scan '-' (c :: cs) = .ok ⟨.minus, ['-'], c :: cs⟩ := rfl
  have htokenize : Expr.tokenize ('-' :: c :: cs) = .error (.lexical fault 1) := by
    rw [Expr.tokenize, Expr.tokenizeFrom_scan rfl hminus,
      Expr.tokenizeFrom_fault hblank (h.scan_eq rfl)]
    rfl
  rw [Expr.compile, String.toList_ofList, htokenize]
  rfl

/-- The text writes the integer: it compiles to an expression with the value of the integer in any
context, and a link that equates a reference with the text fires wherever the reference finds the
integer, an attribute that holds it for one. -/
structure WritesInteger (text : String) (n : Int64) : Prop where
  compiles : ∃ expr, Expr.compile text = .ok expr ∧
    ∀ env : String → Value, expr.eval env = .ok (.int n)
  fires : ∀ (mention name : String) (scope : Scope) (link : Link), RefersTo mention name →
    resolve? name scope = .ok (some (.int n)) → link.text = mention ++ " == " ++ text →
      link.FiresWhenLast scope
  fires_attribute : ∀ (name : String) (scope : Scope) (link : Link), IsWord name →
    scope name = some (.int n) → link.text = "$" ++ name ++ " == " ++ text →
      link.FiresWhenLast scope

theorem IsWord.isName {name : String} (h : IsWord name) : Expr.IsName name :=
  ⟨h.1, h.isNameChar⟩

/-- A reference to a word finds what the scope holds. -/
theorem resolve?_word {name : String} (h : IsWord name) {scope : Scope} {value : Value}
    (hvalue : scope name = some value) : resolve? name scope = .ok (some value) := by
  rw [resolve?, splitPath_word h]
  simp [hvalue]

theorem Writes.writesInteger {text : String} {expr : Expr} {n : Int64}
    (h : Writes text.toList expr n) : WritesInteger text n where
  compiles := by
    have hlow : expr.height ≤ 64 := Nat.le_trans h.low (by decide)
    have hcompile := h.reads.compile hlow
    rw [String.ofList_toList] at hcompile
    exact ⟨expr, hcompile, h.eval_eq⟩
  fires _ _ _ _ hmention hvalue htext := (h.fires hmention hvalue htext).firesWhenLast
  fires_attribute _ _ _ hname hvalue htext :=
    (h.fires (refersTo_of_isName hname.isName) (resolve?_word hname hvalue) htext).firesWhenLast

/-- The digits of the least integer are those of no integer of 64 bits. -/
theorem compile_toString_least :
    Expr.compile (toString Int64.minValue.toInt) =
      .error (.lexical (.invalidNumber "9223372036854775808") 1) := by
  have htext : (toString Int64.minValue.toInt).toList =
      '-' :: Nat.toDigits 10 Int64.minValue.toInt.natAbs := toList_toString_of_neg (by decide)
  have hmagnitude : toString Int64.minValue.toInt.natAbs = "9223372036854775808" := by decide
  have hlarge : Integer.greatest < Int64.minValue.toInt.natAbs := by decide
  have hcompile := compile_minus_of_fault (beginsFault_toDigits hlarge)
  rwa [← htext, String.ofList_toList, hmagnitude] at hcompile

/-- The decimal text of every integer but the least writes the integer. That of the least is refused
at its digits, since the minus is no part of a literal, but the least integer is written as one less
than the negation of the greatest. -/
theorem writesInteger_toString :
    (∀ n : Int64, n ≠ Int64.minValue → WritesInteger (toString n.toInt) n) ∧
      Expr.compile (toString Int64.minValue.toInt) =
        .error (.lexical (.invalidNumber "9223372036854775808") 1) ∧
      WritesInteger "-9223372036854775807 - 1" Int64.minValue := by
  refine ⟨?_, compile_toString_least, ?_⟩
  · intro n hne
    obtain ⟨expr, hwrites⟩ := exists_writes_toString hne
    exact hwrites.writesInteger
  · obtain ⟨expr, hwrites⟩ := exists_writes_least
    exact hwrites.writesInteger

/-- A link that asks whether an attribute is as low as the digits of an integer go. -/
def floorLink : Link :=
  ⟨4, "open", "shipped", .expression, some "$floor == -9223372036854775807"⟩

def floorScope : RunScope :=
  RunScope.empty.set "floor" (.int (-9223372036854775807))

theorem writesInteger_toString_floor :
    (-9223372036854775807 : Int64) ≠ Int64.minValue ∧ IsWord "floor" ∧
      floorScope.get? "floor" = some (.int (-9223372036854775807)) ∧
      floorLink.text = "$" ++ "floor" ++ " == " ++ toString (-9223372036854775807 : Int64).toInt ∧
      (∃ expr, Expr.compile "-9223372036854775807" = .ok expr ∧
        ∀ env : String → Value, expr.eval env = .ok (.int (-9223372036854775807))) ∧
      ((Registry.build [floorLink]).value.decide floorScope.get? floorLink).value = true := by
  have hne : (-9223372036854775807 : Int64) ≠ Int64.minValue := by decide
  have hword : IsWord "floor" := ⟨by decide, List.all_eq_true.mp rfl⟩
  have hvalue : floorScope.get? "floor" = some (.int (-9223372036854775807)) := rfl
  have htext : floorLink.text =
      "$" ++ "floor" ++ " == " ++ toString (-9223372036854775807 : Int64).toInt := by decide
  have hwrites := writesInteger_toString.1 (-9223372036854775807) hne
  have hfires := hwrites.fires_attribute "floor" floorScope.get? floorLink hword hvalue htext
  exact ⟨hne, hword, hvalue, htext, hwrites.compiles, hfires [] [] (fun _ hmem ↦ nomatch hmem)⟩

/-- The decimal text of the least integer does not compile. -/
theorem not_forall_compile_toString :
    toString Int64.minValue.toInt = "-9223372036854775808" ∧
      Expr.compile "-9223372036854775808" =
        .error (.lexical (.invalidNumber "9223372036854775808") 1) ∧
      ¬∀ n : Int64, ∃ expr, Expr.compile (toString n.toInt) = .ok expr := by
  refine ⟨by decide, compile_toString_least, ?_⟩
  intro hall
  obtain ⟨expr, hcompile⟩ := hall Int64.minValue
  rw [compile_toString_least] at hcompile
  cases hcompile

end FlowGate
