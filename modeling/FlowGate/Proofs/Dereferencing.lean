import FlowGate.Proofs.AttributeContext
import FlowGate.Proofs.RegistryEntries
import FlowGate.Proofs.SurfaceText
import FlowGate.Scope.Schema

/-!
# Two ways to read an entry of an attribute

A link text can ask for an entry of an attribute with a point, which makes the key a part of the
reference, or with brackets, which index what the reference finds. `linkValue` is the value of a
link text as a gate evaluates it. Both ways find the same entry, but only the point reads a token as
a number (`linkValue_pointForm`, `linkValue_bracketForm`), so the two differ where a schema keeps a
nested number as a token.
-/

set_option autoImplicit false

namespace FlowGate

open OrderedMap Reference

/-- The value of a link text in a scope: what its compiled form evaluates to in the context that
holds the attributes of the text. -/
def linkValue (text : String) (scope : Scope) : Except CompileError (Except EvalError Value) :=
  (Expr.compile (translate text).rewritten).map fun expr ↦
    expr.eval (environment (contextOf (translate text).attributes scope).value)

/-- A word of ASCII letters, digits and underscores. -/
def IsWord (word : String) : Prop :=
  word.toList ≠ [] ∧ ∀ c ∈ word.toList, (c.isAlphanum || c == '_') = true

/-- A reference to an attribute and a key in it. -/
def pointForm (name key : String) : String :=
  "$" ++ name ++ "." ++ key

/-- A reference to an attribute, indexed with a key. -/
def bracketForm (name key : String) : String :=
  "$" ++ name ++ "[\"" ++ key ++ "\"]"

/-- What a scope holds under a name may have entries: it is a mapping or undefined, or the name is
not held at all. -/
def MayHaveEntries (scope : Scope) (name : String) : Prop :=
  scope name = none ∨ scope name = some .undefined ∨
    ∃ entries, scope name = some (.mapping entries)

/-- The entry under a key of what a scope holds under a name, as it is kept there. -/
def entryOf (scope : Scope) (name key : String) : Value :=
  match scope name with
  | some (.mapping entries) => (Entries.get? key entries).getD .undefined
  | _ => .undefined

/-- The registry evaluates the entry of a link to the value of its text. -/
theorem linkValue_of_entry {link : Link} {entry : Registry.Entry} (h : link.entry? = some entry)
    (scope : Scope) :
    linkValue link.text scope =
      .ok (entry.expr.eval (environment (contextOf entry.attributes scope).value)) := by
  obtain ⟨-, hattributes, -, hcompile⟩ := (link.entry?_eq_some_iff entry).mp h
  rw [linkValue, hcompile, hattributes]
  rfl

/-- A link text of an expression has the value of the expression where look-ups stand for what their
references find. -/
theorem linkValue_of_written {expr : Expr} {text : String}
    (h : Expr.Written Expr.referenceTo expr text.toList) (hplain : expr.Plain)
    (hheight : expr.height ≤ 64) (scope : Scope) :
    linkValue text scope = .ok (expr.eval (referenceValue scope)) := by
  obtain ⟨other, hother, htranslates⟩ := Expr.rewrite_of_written h hplain
  have hcompile := Expr.compile_of_written hother hplain hheight
  rw [linkValue, htranslates.translate_eq]
  dsimp only
  rw [hcompile]
  exact congrArg Except.ok (Expr.eval_contextOf (fun _ hname ↦ hname) scope)

/-! ### References to words -/

theorem IsWord.isNameChar {word : String} (h : IsWord word) : ∀ c ∈ word.toList,
    isNameChar c = true := by
  intro c hc
  rcases Bool.or_eq_true_iff.mp (h.2 c hc) with hc | hc <;> simp [Reference.isNameChar, hc]

theorem IsWord.not_mem {word : String} (h : IsWord word) {c : Char} (hletter : c.isAlphanum = false)
    (hc : c ≠ '_') : c ∉ word.toList := by
  intro hmem
  rcases Bool.or_eq_true_iff.mp (h.2 c hmem) with heq | heq
  · rw [hletter] at heq
    cases heq
  · exact hc (eq_of_beq heq)

/-- A reference is divided at its first point. -/
theorem splitPath_of_toList_eq {text name : String} {rest : List Char}
    (htext : text.toList = name.toList ++ rest) (hname : '.' ∉ name.toList)
    (hrest : ∀ c ∈ rest.head?, c = '.') :
    splitPath text = (name, match rest.drop 1 with
      | [] => none
      | path => some (String.ofList path)) := by
  have hfits : ∀ c ∈ name.toList, decide (c ≠ '.') = true := by
    intro c hc
    rw [decide_eq_true_iff]
    rintro rfl
    exact hname hc
  have hstop : ∀ c ∈ rest.head?, decide (c ≠ '.') = false := by
    intro c hc
    rw [hrest c hc]
    rfl
  obtain ⟨htake, hdrop⟩ := takeWhile_append_of_stop hfits hstop
  rw [splitPath, htext, htake, hdrop, String.ofList_toList]
  cases rest.drop 1 <;> rfl

/-- A name without points and a key joined by a point are divided there. -/
theorem splitPath_point {name key : String} (hname : '.' ∉ name.toList) (hkey : key.toList ≠ []) :
    splitPath (name ++ "." ++ key) = (name, some key) := by
  have htext : (name ++ "." ++ key).toList = name.toList ++ '.' :: key.toList := by
    rw [String.toList_append, String.toList_append, List.append_assoc]
    rfl
  rw [splitPath_of_toList_eq htext hname (by simp)]
  obtain ⟨c, cs, hcs⟩ := List.exists_cons_of_ne_nil hkey
  have hself : String.ofList (c :: cs) = key := by
    rw [← hcs, String.ofList_toList]
  simp [hcs, hself]

/-- A word has no key in it. -/
theorem splitPath_word {name : String} (hname : IsWord name) : splitPath name = (name, none) := by
  have htext : name.toList = name.toList ++ [] := (List.append_nil _).symm
  exact splitPath_of_toList_eq htext (hname.not_mem rfl (by decide)) (by simp)

/-! ### The two forms -/

section Forms

variable {scope : Scope} {name key : String}

/-- The point finds the entry and reads it as a number if it is a token. -/
theorem referenceValue_point (hname : IsWord name) (hkey : IsWord key)
    (hscope : MayHaveEntries scope name) :
    referenceValue scope (name ++ "." ++ key) = (entryOf scope name key).normalize := by
  have hpoint : '.' ∉ name.toList := hname.not_mem rfl (by decide)
  rw [referenceValue, resolve?, splitPath_point hpoint hkey.1, entryOf]
  obtain hnone | hundefined | ⟨entries, hentries⟩ := hscope
  · simp [hnone, Value.normalize]
  · simp [hundefined, Value.normalize]
  · cases hentry : Entries.get? key entries <;> simp [hentries, hentry, Value.normalize]

/-- Indexing what the attribute is finds the entry as it is kept. -/
theorem at_referenceValue_word (hname : IsWord name) (hscope : MayHaveEntries scope name) :
    (referenceValue scope name).at (.string key) = .ok (entryOf scope name key) := by
  rw [referenceValue, resolve?, splitPath_word hname, entryOf]
  obtain hnone | hundefined | ⟨entries, hentries⟩ := hscope
  · simp [hnone, Value.at]
  · simp [hundefined, Value.at]
  · simp [hentries, Value.at]

theorem linkValue_pointForm (hname : IsWord name) (hkey : IsWord key)
    (hscope : MayHaveEntries scope name) :
    linkValue (pointForm name key) scope = .ok (.ok (entryOf scope name key).normalize) := by
  have htext : (pointForm name key).toList = Expr.referenceTo (name ++ "." ++ key) := by
    simp [pointForm, Expr.referenceTo]
  have hwritten : Expr.Written Expr.referenceTo (.lookup (name ++ "." ++ key))
      (pointForm name key).toList := htext ▸ .lookup _
  have hplain : Expr.IsName (name ++ "." ++ key) := by
    constructor
    · simp
    · intro c hc
      simp only [String.toList_append, List.mem_append] at hc
      obtain (hc | hc) | hc := hc
      · exact hname.isNameChar c hc
      · obtain rfl : c = '.' := List.mem_singleton.mp hc
        rfl
      · exact hkey.isNameChar c hc
  have hheight : (Expr.lookup (name ++ "." ++ key)).height ≤ 64 := by
    show 1 ≤ 64
    decide
  rw [linkValue_of_written hwritten hplain hheight, Expr.eval,
    referenceValue_point hname hkey hscope]

theorem linkValue_bracketForm (hname : IsWord name) (hkey : IsWord key)
    (hscope : MayHaveEntries scope name) :
    linkValue (bracketForm name key) scope = .ok (.ok (entryOf scope name key)) := by
  have hescape : Expr.escape '"' key.toList = key.toList :=
    Expr.escape_eq_self (hkey.not_mem rfl (by decide)) (hkey.not_mem rfl (by decide))
  have htext : (bracketForm name key).toList = Expr.referenceTo name ++
      '[' :: (('"' :: (Expr.escape '"' key.toList ++ ['"'])) ++ [']']) := by
    simp [bracketForm, Expr.referenceTo, hescape]
  have hwritten : Expr.Written Expr.referenceTo (.index (.lookup name) (.literal (.string key)))
      (bracketForm name key).toList := htext ▸ .index (.lookup name) (.string key (.inr rfl))
  have hplain : Expr.Plain (.index (.lookup name) (.literal (.string key))) :=
    ⟨⟨hname.1, hname.isNameChar⟩, hkey.not_mem rfl (by decide)⟩
  have hheight : (Expr.index (.lookup name) (.literal (.string key))).height ≤ 64 := by
    show max 1 1 + 1 ≤ 64
    decide
  rw [linkValue_of_written hwritten hplain hheight]
  exact congrArg Except.ok (at_referenceValue_word hname hscope)

end Forms

/-- Reading a value as a number changes it unless it is no token, or a token of no number. -/
theorem Value.normalize_eq_self_iff (value : Value) :
    value.normalize = value ↔ ∀ text, value = .token text → ofToken text = .token text := by
  constructor
  · rintro h text rfl
    exact h
  · intro h
    cases value with
    | token text => exact h text rfl
    | _ => rfl

/-- Both forms compile and have a value. It is the entry in brackets, and behind a point the entry
read as a number, so they agree unless the entry is a token that reads as a number. -/
theorem linkValue_pointForm_and_bracketForm (scope : Scope) {name key : String}
    (hname : IsWord name) (hkey : IsWord key) (hscope : MayHaveEntries scope name) :
    linkValue (pointForm name key) scope = .ok (.ok (entryOf scope name key).normalize) ∧
      linkValue (bracketForm name key) scope = .ok (.ok (entryOf scope name key)) ∧
      (linkValue (pointForm name key) scope = linkValue (bracketForm name key) scope ↔
        ∀ text, entryOf scope name key = .token text → Value.ofToken text = .token text) := by
  have hpoint := linkValue_pointForm hname hkey hscope
  have hbracket := linkValue_bracketForm hname hkey hscope
  refine ⟨hpoint, hbracket, ?_⟩
  rw [hpoint, hbracket, Except.ok.injEq, Except.ok.injEq]
  exact Value.normalize_eq_self_iff _

/-- A schema that declares an object with a number in it. -/
def orderSchema : Schema :=
  OrderedMap.ofList [("order", ⟨.object, some (.object
    (OrderedMap.ofList [("total", .number (.ofInt64 10))]))⟩)]

/-- What the schema declares: the number is kept as a token. -/
def orderScope : RunScope :=
  RunScope.empty.set "order" (.mapping (OrderedMap.ofList [("total", .token "10")]))

theorem isWord_order : IsWord "order" :=
  ⟨by decide, List.all_eq_true.mp rfl⟩

theorem isWord_total : IsWord "total" :=
  ⟨by decide, List.all_eq_true.mp rfl⟩

theorem mayHaveEntries_orderScope : MayHaveEntries orderScope.get? "order" :=
  .inr (.inr ⟨_, rfl⟩)

theorem linkValue_pointForm_and_bracketForm_orderScope :
    IsWord "order" ∧ IsWord "total" ∧ MayHaveEntries orderScope.get? "order" ∧
      linkValue (pointForm "order" "total") orderScope.get? = .ok (.ok (.int 10)) ∧
      linkValue (bracketForm "order" "total") orderScope.get? = .ok (.ok (.token "10")) := by
  obtain ⟨hpoint, hbracket, -⟩ := linkValue_pointForm_and_bracketForm orderScope.get? isWord_order
    isWord_total mayHaveEntries_orderScope
  exact ⟨isWord_order, isWord_total, mayHaveEntries_orderScope, hpoint, hbracket⟩

/-- The two forms differ on a number that a schema declares in an object. -/
theorem linkValue_pointForm_ne_bracketForm :
    RunScope.ofSchema? orderSchema = .ok orderScope ∧
      IsWord "order" ∧ IsWord "total" ∧ MayHaveEntries orderScope.get? "order" ∧
      linkValue (pointForm "order" "total") orderScope.get? ≠
        linkValue (bracketForm "order" "total") orderScope.get? := by
  refine ⟨rfl, isWord_order, isWord_total, mayHaveEntries_orderScope, ?_⟩
  rw [linkValue_pointForm isWord_order isWord_total mayHaveEntries_orderScope,
    linkValue_bracketForm isWord_order isWord_total mayHaveEntries_orderScope]
  intro heq
  have hvalue : Value.int 10 = .token "10" := Except.ok.inj (Except.ok.inj heq)
  cases hvalue

end FlowGate
