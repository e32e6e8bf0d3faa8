import FlowGate.Proofs.ReferenceLookups

/-!
# The look-ups of mentioned names

The look-up that stands in for a reference has the name between quotes as it was read, without
escapes. It is the look-up of that name because no quote and no backslash can be part of a name
(`chars_of_mem_names`): whatever the text and its brackets are like, a name is made of the
characters of references, and these stand for themselves between quotes (`compile_lookupOf`). So
what the compiled look-up asks for is the key under which a context holds the value.
-/

set_option autoImplicit false

namespace FlowGate

open FlowGate.Expr FlowGate.Reference

namespace Reference

theorem isReferenceChar_iff {c : Char} :
    isReferenceChar c = true ↔ c.isAlphanum = true ∨ c ∈ ['.', '_', '[', ']'] := by
  simp [isReferenceChar, isNameChar, or_assoc]

/-- A mentioned name has characters, and they are those of references. -/
theorem chars_of_mem_names {cs : List Char} {name : String} (h : name ∈ names cs) :
    name ≠ "" ∧ ∀ c ∈ name.toList, isReferenceChar c = true := by
  induction cs using pieces_induction with
  | nil =>
    rw [names_nil] at h
    cases h
  | plain c cs hc ih =>
    rw [names_of_ne hc] at h
    exact ih h
  | unnamed cs hname ih =>
    rw [names_of_unnamed hname] at h
    exact ih h
  | named cs hname ih =>
    rw [names_of_named hname] at h
    rcases List.mem_cons.mp h with rfl | h
    · constructor
      · intro hempty
        have htoList := congrArg String.toList hempty
        rw [String.toList_ofList] at htoList
        exact hname htoList
      · intro c hc
        rw [String.toList_ofList] at hc
        exact isReferenceChar_of_mem_name hc
    · exact ih h

end Reference

/-- A look-up that is written out for a name of a reference is the look-up of the name. -/
theorem Expr.compile_lookupOf {name : String}
    (hname : ∀ c ∈ name.toList, isReferenceChar c = true) :
    compile (String.ofList (lookupOf name)) = .ok (.lookup name) := by
  have hread := Reads.lookupOf hname [] [] (fun _ hc ↦ nomatch hc) .nil
  rw [List.append_nil, List.append_nil] at hread
  have htokens : Lexes (lookupOf name) (Phrase.lookup name).tokens := hread
  have hheight : (Expr.lookup name).height ≤ nestingLimit := Nat.le_of_ble_eq_true rfl
  exact compile_of_lexes htokens hheight (Nat.zero_le _)

/-- Whatever the text, a name that it mentions is not empty and is made of ASCII letters and digits,
points, underscores and brackets. The look-up that stands in for the reference compiles to the
look-up of this very name, a context of the mentioned attributes holds the value of the reference
under it, and there the look-up has this value. -/
theorem compile_lookupForm_of_mem_attributes (text name : String)
    (hname : name ∈ (translate text).attributes) :
    name ≠ "" ∧ (∀ c ∈ name.toList, c.isAlphanum = true ∨ c ∈ ['.', '_', '[', ']']) ∧
      Expr.compile (String.ofList (Piece.lookupForm name.toList)) = .ok (.lookup name) ∧
      ∀ scope : Scope,
        let values := (contextOf (translate text).attributes scope).value
        OrderedMap.Entries.get? name values = some (referenceValue scope name) ∧
          (Expr.lookup name).eval (environment values) = .ok (referenceValue scope name) := by
  have hmem : name ∈ names text.toList := by
    rwa [translate_eq] at hname
  obtain ⟨hne, hchars⟩ := chars_of_mem_names hmem
  refine ⟨hne, fun c hc ↦ isReferenceChar_iff.mp (hchars c hc), compile_lookupOf hchars,
    fun scope ↦ ?_⟩
  have hvalue : OrderedMap.Entries.get? name
      (contextOf (translate text).attributes scope).value = some (referenceValue scope name) := by
    rw [get?_contextOf, if_pos hname]
  refine ⟨hvalue, ?_⟩
  rw [Expr.eval, environment, hvalue]
  rfl

/-- A bracket that is left open in front of a quote, a parenthesis and another reference. -/
theorem compile_lookupForm_openBracket :
    (translate "$[a[b]\") + $c").attributes = ["a[b]", "c"] ∧
      Expr.compile "lookup(\"a[b]\")" = .ok (.lookup "a[b]") ∧
      ∀ scope : Scope,
        OrderedMap.Entries.get? "a[b]" (contextOf ["a[b]", "c"] scope).value =
          some (referenceValue scope "a[b]") := by
  have hattributes : (translate "$[a[b]\") + $c").attributes = ["a[b]", "c"] := by
    have hopen : scan "[a[b]\") + $c".toList =
        ⟨"[a[b]".toList, "a[b]".toList, "\") + ".toList ++ '$' :: ("c".toList ++ [])⟩ := rfl
    have hfirst : names ('$' :: "[a[b]\") + $c".toList) =
        "a[b]" :: names ("\") + ".toList ++ '$' :: ("c".toList ++ [])) := by
      rw [names_of_named (by rw [hopen]; decide), hopen, String.ofList_toList]
    have hsecond : names ('$' :: ("c".toList ++ [])) = ["c"] := by
      have hends : Ends [] := by
        intro c hc
        cases hc
      rw [names_reference (by decide) (List.all_eq_true.mp rfl) hends, names_nil,
        String.ofList_toList]
    show names ('$' :: "[a[b]\") + $c".toList) = _
    rw [hfirst, names_append_of_plain (by decide), hsecond]
  obtain ⟨-, -, hcompile, hscope⟩ := compile_lookupForm_of_mem_attributes "$[a[b]\") + $c" "a[b]"
    (by rw [hattributes]; exact List.mem_cons_self)
  refine ⟨hattributes, hcompile, fun scope ↦ ?_⟩
  rw [← hattributes]
  exact (hscope scope).1

end FlowGate
