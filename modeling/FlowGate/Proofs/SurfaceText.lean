import FlowGate.Proofs.WrittenForm

/-!
# Expressions written as link texts

A link text of an expression has references where the expression has look-ups. `Translates` says
what becomes of a part of a text wherever it stands, if no name goes on after it; the parts of a
link text are put together by it, and the whole becomes the text with the look-ups written out
(`rewrite_of_written`). So a plain expression that is not too high is read back from each of its
link texts (`compile_translate_of_written`).
-/

set_option autoImplicit false

namespace FlowGate

open Reference

namespace Expr

/-! ### Texts without references -/

theorem dollar_not_mem_of_isDigit {text : List Char} (h : ∀ c ∈ text, c.isDigit = true) :
    '$' ∉ text :=
  fun hmem ↦ absurd (h '$' hmem) (by decide)

theorem dollar_not_mem_toString {n : Int} (hn : 0 ≤ n) : '$' ∉ (toString n).toList := by
  rw [toList_toString hn]
  exact dollar_not_mem_of_isDigit fun c hc ↦
    Nat.isDigit_of_mem_toDigits (by decide) (by decide) hc

theorem dollar_not_mem_escape {quote : Char} {content : List Char} (h : '$' ∉ content) :
    '$' ∉ escape quote content := by
  intro hmem
  obtain ⟨c, hc, hin⟩ := List.mem_flatMap.mp hmem
  have hne : '$' ≠ c := by
    rintro rfl
    exact h hc
  split at hin
  · rcases List.mem_cons.mp hin with heq | hin
    · exact absurd heq (by decide)
    · exact hne (List.mem_singleton.mp hin)
  · exact hne (List.mem_singleton.mp hin)

theorem dollar_not_mem_sign {sign : String} {op : BinaryOp} (h : sign ∈ op.signs) :
    '$' ∉ sign.toList := by
  have hall : ∀ sign ∈ op.signs, '$' ∉ sign.toList := by
    cases op <;> decide
  exact hall sign h

theorem dollar_not_mem_unarySign {sign : String} {op : UnaryOp} (h : sign ∈ op.signs) :
    '$' ∉ sign.toList := by
  have hall : ∀ sign ∈ op.signs, '$' ∉ sign.toList := by
    cases op <;> decide
  exact hall sign h

/-! ### Translating -/

/-- Wherever the text stands before the end of names, it becomes the other text and mentions the
names. -/
structure Translates (text other : List Char) (mentioned : List String) : Prop where
  rewrite_append : ∀ rest, Ends rest → rewrite (text ++ rest) = other ++ rewrite rest
  names_append : ∀ rest, Ends rest → names (text ++ rest) = mentioned ++ names rest

theorem Translates.nil : Translates [] [] [] :=
  ⟨fun _ _ ↦ rfl, fun _ _ ↦ rfl⟩

/-- Plain text may stand in front. -/
theorem Translates.plain_append {front : List Char} (hfront : '$' ∉ front) {text other : List Char}
    {mentioned : List String} (h : Translates text other mentioned) :
    Translates (front ++ text) (front ++ other) mentioned := by
  constructor
  · intro rest hrest
    rw [List.append_assoc, rewrite_append_of_plain hfront, h.rewrite_append rest hrest,
      List.append_assoc]
  · intro rest hrest
    rw [List.append_assoc, names_append_of_plain hfront, h.names_append rest hrest]

theorem Translates.of_plain {text : List Char} (h : '$' ∉ text) : Translates text text [] := by
  have happend := Translates.nil.plain_append h
  rwa [List.append_nil] at happend

/-- Two texts may be joined by a character that ends names. -/
theorem Translates.append {c : Char} (hname : isNameChar c = false) (hdollar : c ≠ '$')
    {front back front' back' : List Char} {before after : List String}
    (hfront : Translates front front' before) (hback : Translates back back' after) :
    Translates (front ++ c :: back) (front' ++ c :: back') (before ++ after) := by
  have hends : ∀ rest, Ends (c :: rest) := by
    intro rest d hd
    obtain rfl := Option.mem_some.mp hd
    exact hname
  constructor
  · intro rest hrest
    rw [List.append_assoc, List.cons_append, hfront.rewrite_append _ (hends _),
      rewrite_of_ne hdollar, hback.rewrite_append rest hrest, List.append_assoc, List.cons_append]
  · intro rest hrest
    rw [List.append_assoc, List.cons_append, hfront.names_append _ (hends _),
      names_of_ne hdollar, hback.names_append rest hrest, List.append_assoc]

/-- A character that ends names may close a text. -/
theorem Translates.close {c : Char} (hname : isNameChar c = false) (hdollar : c ≠ '$')
    {text other : List Char} {mentioned : List String} (h : Translates text other mentioned) :
    Translates (text ++ [c]) (other ++ [c]) mentioned := by
  have happend := h.append hname hdollar .nil
  rwa [List.append_nil] at happend

theorem Translates.group {text other : List Char} {mentioned : List String}
    (h : Translates text other mentioned) :
    Translates ('(' :: (text ++ [')'])) ('(' :: (other ++ [')'])) mentioned := by
  have hopen : '$' ∉ ['('] := by
    decide
  exact (h.close rfl (by decide : ')' ≠ '$')).plain_append hopen

theorem Translates.reference {name : String} (h : IsName name) :
    Translates (referenceTo name) (lookupOf name) [name] := by
  constructor
  · intro rest hrest
    exact rewrite_reference h.1 h.2 hrest
  · intro rest hrest
    have hnames := names_reference h.1 h.2 hrest
    rwa [String.ofList_toList] at hnames

/-- A link text of an expression becomes the text with look-ups in it, and it mentions the names
that the expression looks up. -/
theorem rewrite_of_written {expr : Expr} {text : List Char} (h : Written referenceTo expr text)
    (hplain : expr.Plain) :
    ∃ other, Written lookupOf expr other ∧ Translates text other expr.lookups := by
  induction h with
  | int n => exact ⟨_, .int n, .of_plain (dollar_not_mem_toString hplain)⟩
  | bool b =>
    have hbool : '$' ∉ (toString b).toList := by
      cases b <;> decide
    exact ⟨_, .bool b, .of_plain hbool⟩
  | null => exact ⟨_, .null, .of_plain (by decide)⟩
  | @string s quote hquote =>
    have hne : '$' ∉ [quote] := by
      rcases hquote with rfl | rfl <;> decide
    have hescape : '$' ∉ escape quote s.toList := dollar_not_mem_escape hplain
    have hinner := (Translates.of_plain hne).plain_append hescape
    exact ⟨_, .string s hquote, hinner.plain_append hne⟩
  | lookup name => exact ⟨_, .lookup name, .reference hplain⟩
  | index _ _ ihtarget ihkey =>
    obtain ⟨front, hfront, htarget⟩ := ihtarget hplain.1
    obtain ⟨inner, hinner, hkey⟩ := ihkey hplain.2
    refine ⟨_, .index hfront hinner, ?_⟩
    have hclosed := hkey.close rfl (by decide : ']' ≠ '$')
    exact htarget.append rfl (by decide : '[' ≠ '$') hclosed
  | unary hsign _ ih =>
    obtain ⟨inner, hinner, hoperand⟩ := ih hplain
    have hsigned := hoperand.plain_append (dollar_not_mem_unarySign hsign)
    exact ⟨_, .unary hsign hinner, hsigned.group⟩
  | binary hsign _ _ ihleft ihright =>
    obtain ⟨front, hfront, hleft⟩ := ihleft hplain.1
    obtain ⟨back, hback, hright⟩ := ihright hplain.2
    have hblank : '$' ∉ [' '] := by
      decide
    have hsigned := (hright.plain_append hblank).plain_append (dollar_not_mem_sign hsign)
    have hjoined := hleft.append rfl (by decide : ' ' ≠ '$') hsigned
    exact ⟨_, .binary hsign hfront hback, hjoined.group⟩

/-- What becomes of a text by itself is its translation. -/
theorem Translates.translate_eq {text : String} {other : List Char} {mentioned : List String}
    (h : Translates text.toList other mentioned) :
    translate text = ⟨mentioned, String.ofList other⟩ := by
  have hends : Ends [] := fun _ hc ↦ nomatch hc
  have hrewrite := h.rewrite_append [] hends
  have hnames := h.names_append [] hends
  rw [List.append_nil, rewrite_nil, List.append_nil] at hrewrite
  rw [List.append_nil, names_nil, List.append_nil] at hnames
  rw [Reference.translate_eq, hrewrite, hnames]

/-! ### Reading back -/

/-- A plain expression of height 64 at most can be written as a link text, and each link text of it
mentions the names that the expression looks up, in order, and compiles to the expression. -/
theorem compile_translate_of_written (expr : Expr) (hplain : expr.Plain)
    (hheight : expr.height ≤ 64) :
    (∃ text : String, Written referenceTo expr text.toList) ∧
      ∀ text : String, Written referenceTo expr text.toList →
        (translate text).attributes = expr.lookups ∧
          compile (translate text).rewritten = .ok expr := by
  constructor
  · obtain ⟨text, htext⟩ := exists_written referenceTo hplain
    refine ⟨String.ofList text, ?_⟩
    rwa [String.toList_ofList]
  · intro text htext
    obtain ⟨other, hother, htranslates⟩ := rewrite_of_written htext hplain
    have hends : Ends [] := fun _ hc ↦ nomatch hc
    have hrewrite := htranslates.rewrite_append [] hends
    have hnames := htranslates.names_append [] hends
    rw [List.append_nil, rewrite_nil, List.append_nil] at hrewrite
    rw [List.append_nil, names_nil, List.append_nil] at hnames
    rw [translate_eq]
    refine ⟨hnames, ?_⟩
    rw [hrewrite]
    exact compile_of_written hother hplain hheight

/-- An attribute is large and a named entry of another one is not set. -/
def sampleGuard : Expr :=
  .binary .and (.binary .greater (.lookup "a.b") (.literal (.int 3)))
    (.unary .not (.index (.lookup "c") (.literal (.string "it's"))))

def sampleText : String :=
  "(($a.b > 3) and (!$c['it\\'s']))"

theorem compile_translate_of_written_sampleGuard :
    sampleGuard.Plain ∧ sampleGuard.height ≤ 64 ∧
      Written referenceTo sampleGuard sampleText.toList ∧
      (translate sampleText).attributes = ["a.b", "c"] ∧
      compile (translate sampleText).rewritten = .ok sampleGuard := by
  have hname : IsName "a.b" ∧ IsName "c" :=
    ⟨⟨by decide, List.all_eq_true.mp rfl⟩, ⟨by decide, List.all_eq_true.mp rfl⟩⟩
  have hint : 0 ≤ (3 : Int64).toInt := by
    decide
  have hstring : '$' ∉ "it's".toList := by
    decide
  have hplain : sampleGuard.Plain := ⟨⟨hname.1, hint⟩, hname.2, hstring⟩
  have hheight : sampleGuard.height ≤ 64 := by
    decide
  have hwritten : Written referenceTo sampleGuard sampleText.toList := by
    have hgreater : ">" ∈ BinaryOp.greater.signs := List.mem_cons_self
    have hnot : "!" ∈ UnaryOp.not.signs := List.mem_cons_self
    have hand : "and" ∈ BinaryOp.and.signs := List.mem_cons_of_mem _ List.mem_cons_self
    have htext : Written referenceTo sampleGuard _ := .binary hand
      (.binary hgreater (.lookup "a.b") (.int 3))
      (.unary hnot (.index (.lookup "c") (.string "it's" (.inl rfl))))
    exact htext
  exact ⟨hplain, hheight, hwritten,
    (compile_translate_of_written sampleGuard hplain hheight).2 sampleText hwritten⟩

end Expr

end FlowGate
