import FlowGate.Proofs.Numerals

/-!
# Printed JSON is read back

A value without doubles that is not nested too deeply is what its printed text is read as
(`read?_pretty`). `Spells` says which tokens a piece of text is cut into wherever it stands, and
`Leads` that reading a piece takes the reader from one state to another. Pieces are put together
by `Leads.append`, so a value leads from where a value may stand to the value itself
(`Plain.leads`), by induction on the value and, inside of it, along its items and fields.
-/

set_option autoImplicit false

namespace FlowGate

/-! ### Maps and their entries -/

namespace OrderedMap

variable {κ α : Type} [LT κ] [DecidableLT κ] {p : α → Prop}

theorem Entries.forall_mem_insert {low : Option κ} {key : κ} {value : α}
    {above : ∀ bound ∈ low, bound < key} {entries : Entries κ α low} (hvalue : p value)
    (h : ∀ entry ∈ entries.toList, p entry.2) :
    ∀ entry ∈ (entries.insert key value above).toList, p entry.2 := by
  induction entries with
  | nil => exact List.forall_mem_singleton.mpr hvalue
  | cons head headAbove old rest ih =>
    obtain ⟨hold, hrest⟩ := List.forall_mem_cons.mp h
    rw [Entries.insert]
    split
    · exact List.forall_mem_cons.mpr ⟨hold, ih hrest⟩
    · split
      · exact List.forall_mem_cons.mpr ⟨hvalue, h⟩
      · exact List.forall_mem_cons.mpr ⟨hvalue, hrest⟩

/-- What holds of the values of a list holds of the values of its map. -/
theorem forall_mem_ofList {entries : List (κ × α)} (h : ∀ entry ∈ entries, p entry.2) :
    ∀ entry ∈ Entries.toList (ofList entries), p entry.2 := by
  have hfold : ∀ base : OrderedMap κ α, (∀ entry ∈ Entries.toList base, p entry.2) →
      ∀ entry ∈ Entries.toList (entries.foldl (fun map entry ↦ insert map entry.1 entry.2) base),
        p entry.2 := by
    induction entries with
    | nil => exact fun _ hbase ↦ hbase
    | cons first rest ih =>
      obtain ⟨hfirst, hrest⟩ := List.forall_mem_cons.mp h
      exact fun base hbase ↦ ih hrest _ (Entries.forall_mem_insert hfirst hbase)
  exact hfold empty (List.forall_mem_nil _)

/-- A map over the empty one is the map. -/
theorem empty_overlay [DecidableEq κ] [LE κ] [Std.IsLinearOrder κ] [Std.LawfulOrderLT κ]
    (map : OrderedMap κ α) : overlay empty map = map := by
  refine Entries.ext fun key ↦ ?_
  rw [get?_overlay, get?_empty, Option.or_none]

end OrderedMap

namespace Json

/-! ### Strings -/

/-- The code of a control character is read back from the digits of its escape. -/
theorem natOfHex?_control : ∀ n < 32,
    natOfHex? ['0', '0', Nat.digitChar (n / 16), Nat.digitChar (n % 16)] = some n := by
  decide

/-- An escaped character is read back as the character. -/
theorem scanString?_escape (c : Char) {content rest after : List Char}
    (h : scanString? rest = some (content, after)) :
    scanString? (escape c ++ rest) = some (c :: content, after) := by
  unfold escape
  split
  -- The characters without a short escape: written as a code or as they are.
  case h_8 _ hquote hbackslash _ _ _ _ _ =>
    split
    · rename_i hcontrol
      have hcode := natOfHex?_control c.toNat hcontrol
      have hhigh : ¬(0xD800 ≤ c.toNat ∧ c.toNat < 0xDC00) := by omega
      have hlow : ¬(0xDC00 ≤ c.toNat ∧ c.toNat < 0xE000) := by omega
      simp [scanString?, hcode, hhigh, hlow, h, Char.ofNat_toNat]
    · rename_i hcontrol
      rw [List.singleton_append, scanString?]
      · rw [if_neg (not_or.mpr ⟨hcontrol, hbackslash⟩), h]
        rfl
      · exact hquote
      · exact fun _ _ _ _ _ hc _ ↦ hbackslash hc
      · exact fun _ _ hc _ ↦ hbackslash hc
  all_goals simp [scanString?, h]

/-- Escaped characters are read back up to the closing quote. -/
theorem scanString?_flatMap_escape (content rest : List Char) :
    scanString? (content.flatMap escape ++ '"' :: rest) = some (content, rest) := by
  induction content with
  | nil => rw [List.flatMap_nil, List.nil_append, scanString?]
  | cons c content ih =>
    rw [List.flatMap_cons, List.append_assoc]
    exact scanString?_escape c ih

/-! ### Tokens -/

/-- The text is cut into the tokens. -/
def Scans (text : List Char) (tokens : List Token) : Prop :=
  ∀ fuel, text.length ≤ fuel → tokensWithin fuel text = some tokens

/-- The text does not go on with a numeral. -/
def Stops (text : List Char) : Prop :=
  ∀ c ∈ text.head?, Numeral.goesOn c = false

namespace Scans

variable {c : Char} {text rest : List Char} {tokens : List Token}

theorem nil : Scans [] [] := by
  intro fuel _
  cases fuel <;> rfl

theorem space (hc : isSpace c = true) (h : Scans rest tokens) : Scans (c :: rest) tokens := by
  intro fuel hfuel
  cases fuel with
  | zero => cases hfuel
  | succ fuel =>
    rw [tokensWithin, if_pos hc]
    exact h fuel (Nat.le_of_succ_le_succ hfuel)

theorem token {token : Token} (hc : isSpace c = false)
    (htoken : scanToken? c text = some (token, rest)) (hrest : rest.length ≤ text.length)
    (h : Scans rest tokens) : Scans (c :: text) (token :: tokens) := by
  intro fuel hfuel
  cases fuel with
  | zero => cases hfuel
  | succ fuel =>
    have hafter : tokensWithin fuel rest = some tokens :=
      h fuel (hrest.trans (Nat.le_of_succ_le_succ hfuel))
    rw [tokensWithin, hc, htoken]
    simp [hafter]

end Scans

/-- A piece of text is cut into the tokens wherever it stands, unless a numeral goes on behind it.
-/
def Spells (piece : List Char) (tokens : List Token) : Prop :=
  ∀ rest after, Stops rest → Scans rest after → Scans (piece ++ rest) (tokens ++ after)

theorem tokens?_eq_of_spells {text : List Char} {tokens : List Token} (h : Spells text tokens) :
    tokens? text = some tokens := by
  have hscans : Scans (text ++ []) (tokens ++ []) := h [] [] (by simp [Stops]) .nil
  rw [List.append_nil, List.append_nil] at hscans
  exact hscans _ (Nat.le_refl _)

theorem spells_null : Spells "null".toList [.null] :=
  fun _ _ _ hscans ↦ .token (by decide) rfl (Nat.le_add_right _ 3) hscans

theorem spells_bool (b : Bool) :
    Spells (if b then "true" else "false").toList [.bool b] := by
  intro rest after _ hscans
  cases b with
  | true => exact .token (by decide) rfl (Nat.le_add_right _ 3) hscans
  | false => exact .token (by decide) rfl (Nat.le_add_right _ 4) hscans

/-- A string in quotes is one token. -/
theorem spells_quote (s : String) : Spells (quote s).toList [.string s] := by
  intro rest after _ hscans
  have htext : (quote s).toList ++ rest = '"' :: (s.toList.flatMap escape ++ '"' :: rest) := by
    simp [quote]
  have htoken : scanToken? '"' (s.toList.flatMap escape ++ '"' :: rest) =
      some (.string s, rest) := by
    simp [scanToken?, scanString?_flatMap_escape]
  rw [htext]
  exact .token (by decide) htoken (by simp; omega) hscans

/-- The text of an integer is one token. -/
theorem spells_integer (n : Int) (hrange : Integer.least ≤ n ∧ n < UInt64.size) :
    Spells (toString n).toList [.number (.integer n hrange)] := by
  intro rest after hrest hscans
  have hne : (toString n).toList ≠ [] := by
    rw [Numeral.toList_toString]
    exact List.append_ne_nil_of_right_ne_nil _ Nat.toDigits_ne_nil
  obtain ⟨c, cs, htext⟩ := List.exists_cons_of_ne_nil hne
  have hc : c ∈ (toString n).toList := htext ▸ List.mem_cons_self
  have hscan : Numeral.scan? (c :: (cs ++ rest)) = some (Numeral.ofInt n, rest) := by
    rw [← List.cons_append, ← htext]
    exact Numeral.scan?_ofInt n hrest
  have htoken : scanToken? c (cs ++ rest) = some (.number (.integer n hrange), rest) := by
    have hfirst := Numeral.eq_minus_or_isDigit hc
    unfold scanToken?
    split
    -- A minus or a digit starts no other token.
    case h_11 => simp [hscan, Numeral.toNumber?_ofInt n hrange]
    all_goals exact absurd hfirst (by decide)
  rw [htext]
  exact .token (Numeral.isSpace_eq_false hc) htoken (by simp) hscans

/-! ### States -/

/-- Reading the text takes the reader from one state to the other. -/
def Leads (text : List Char) (before after : State) : Prop :=
  ∃ tokens, Spells text tokens ∧ tokens.foldlM step before = some after

theorem Stops.cons {c : Char} {rest : List Char} (hc : Numeral.goesOn c = false) :
    Stops (c :: rest) := by
  rintro d ⟨⟩
  exact hc

theorem Stops.append {front rest : List Char} (hfront : Stops front) (hrest : Stops rest) :
    Stops (front ++ rest) := by
  cases front with
  | nil => exact hrest
  | cons c front => exact .cons (hfront c rfl)

namespace Leads

variable {c : Char} {text rest : List Char} {before between after : State}

theorem nil (state : State) : Leads [] state state :=
  ⟨[], fun _ _ _ hscans ↦ hscans, rfl⟩

theorem space (hc : isSpace c = true) (h : Leads rest before after) :
    Leads (c :: rest) before after := by
  obtain ⟨tokens, hspells, hsteps⟩ := h
  refine ⟨tokens, fun tail after hstops hscans ↦ ?_, hsteps⟩
  exact .space hc (hspells tail after hstops hscans)

/-- A character that is a token by itself. -/
theorem punctuation {token : Token} (hc : isSpace c = false)
    (htoken : ∀ cs, scanToken? c cs = some (token, cs)) (hstep : step before token = some between)
    (h : Leads rest between after) : Leads (c :: rest) before after := by
  obtain ⟨tokens, hspells, hsteps⟩ := h
  refine ⟨token :: tokens, fun tail others hstops hscans ↦ ?_, ?_⟩
  · exact .token hc (htoken _) (Nat.le_refl _) (hspells tail others hstops hscans)
  · rw [List.foldlM_cons, hstep]
    exact hsteps

theorem append (hrest : Stops rest) (hfirst : Leads text before between)
    (h : Leads rest between after) : Leads (text ++ rest) before after := by
  obtain ⟨front, hfront, hfrontSteps⟩ := hfirst
  obtain ⟨back, hback, hbackSteps⟩ := h
  refine ⟨front ++ back, fun tail others hstops hscans ↦ ?_, ?_⟩
  · rw [List.append_assoc, List.append_assoc]
    exact hfront _ _ (hrest.append hstops) (hback tail others hstops hscans)
  · rw [List.foldlM_append, hfrontSteps]
    exact hbackSteps

/-- Where the first item of an array may stand, any value may. -/
theorem firstItem {frames others : List Frame} {value : Json}
    (h : Leads text ⟨frames, .value⟩ ⟨others, .continuation value⟩) :
    Leads text ⟨frames, .firstItem⟩ ⟨others, .continuation value⟩ := by
  obtain ⟨tokens, hspells, hsteps⟩ := h
  refine ⟨tokens, hspells, ?_⟩
  cases tokens with
  | nil => cases hsteps
  | cons token tokens =>
    cases token with
    | closeBracket => cases hsteps
    | _ => exact hsteps

end Leads

/-- The end of a line and the spaces that the next one starts with. -/
def newline (depth : Nat) : List Char :=
  '\n' :: List.replicate (2 * depth) ' '

theorem stops_newline_append (depth : Nat) (rest : List Char) : Stops (newline depth ++ rest) :=
  .cons (by decide)

theorem Leads.newline {rest : List Char} {before after : State} (depth : Nat)
    (h : Leads rest before after) : Leads (newline depth ++ rest) before after := by
  refine .space (by decide) ?_
  induction 2 * depth with
  | zero => exact h
  | succ n ih => exact .space (by decide) ih

theorem toList_spread_nil (depth : Nat) (left right : String) :
    (spread depth left [] right).toList = left.toList ++ right.toList := by
  simp [spread]

theorem toList_spread (depth : Nat) (left right : String) {parts : List String}
    (h : parts ≠ []) :
    (spread depth left parts right).toList =
      left.toList ++ (newline (depth + 1) ++
        ((',' :: newline (depth + 1)).intercalate (parts.map String.toList) ++
          (newline depth ++ right.toList))) := by
  have hparts : parts.isEmpty = false := by simpa using h
  simp [spread, hparts, newline, String.toList_intercalate]

section Sequences

variable {frames : List Frame} {text : Json → List Char} (inner outer : Nat)

/-- The rest of an array, after a comma or the opening bracket. -/
theorem leads_items {first : Json} {rest : List Json} (done : List Json)
    (h : ∀ item ∈ first :: rest, ∀ done,
      Leads (text item) ⟨.array done :: frames, .value⟩
        ⟨.array done :: frames, .continuation item⟩) :
    Leads ((',' :: newline inner).intercalate ((first :: rest).map text) ++
        (newline outer ++ [']'])) ⟨.array done :: frames, .value⟩
      ⟨frames, .continuation (.array (done.reverse ++ first :: rest))⟩ := by
  induction rest generalizing first done with
  | nil =>
    rw [List.map_singleton, List.intercalate_singleton]
    refine .append (stops_newline_append _ _) (h first List.mem_cons_self done) (.newline outer ?_)
    refine .punctuation (by decide) (fun _ ↦ rfl) rfl ?_
    rw [List.reverse_cons]
    exact .nil _
  | cons second rest ih =>
    have hrest := ih (first :: done) fun item hitem ↦ h item (List.mem_cons_of_mem _ hitem)
    rw [List.map_cons, List.map_cons, List.intercalate_cons_cons, List.append_assoc,
      List.append_assoc]
    refine .append (.cons (by decide)) (h first List.mem_cons_self done) ?_
    refine .punctuation (by decide) (fun _ ↦ rfl) rfl (.newline inner ?_)
    rw [List.reverse_cons, List.append_assoc] at hrest
    exact hrest

/-- A key with its value, as it stands in an object. -/
def fieldText (text : Json → List Char) (entry : String × Json) : List Char :=
  (quote entry.1).toList ++ ':' :: ' ' :: text entry.2

/-- A field of an object, where a key may stand. -/
theorem leads_field {before : State} {base held : OrderedMap String Json} {last : String}
    {entry : String × Json}
    (hbefore : step before (.string entry.1) =
      some ⟨.object held last :: frames, .colon base entry.1⟩)
    (h : Leads (text entry.2) ⟨.object base entry.1 :: frames, .value⟩
      ⟨.object base entry.1 :: frames, .continuation entry.2⟩) :
    Leads (fieldText text entry) before
      ⟨.object base entry.1 :: frames, .continuation entry.2⟩ := by
  have hkey : Leads (quote entry.1).toList before
      ⟨.object held last :: frames, .colon base entry.1⟩ :=
    ⟨[.string entry.1], spells_quote entry.1, by simp [hbefore]⟩
  refine .append (.cons (by decide)) hkey ?_
  exact .punctuation (by decide) (fun _ ↦ rfl) rfl (.space (by decide) h)

/-- The rest of an object, after a comma or the opening brace. The two differ in the state before,
of which only what it does with a key matters. -/
theorem leads_fields {first : String × Json} {rest : List (String × Json)} {before : State}
    {base held result : OrderedMap String Json} {last : String}
    (hbefore : step before (.string first.1) =
      some ⟨.object held last :: frames, .colon base first.1⟩)
    (hresult : (first :: rest).foldl
      (fun map entry ↦ OrderedMap.insert map entry.1 entry.2) base = result)
    (h : ∀ entry ∈ first :: rest, ∀ fields key,
      Leads (text entry.2) ⟨.object fields key :: frames, .value⟩
        ⟨.object fields key :: frames, .continuation entry.2⟩) :
    Leads ((',' :: newline inner).intercalate ((first :: rest).map (fieldText text)) ++
        (newline outer ++ ['\x7d'])) before ⟨frames, .continuation (.object result)⟩ := by
  subst hresult
  induction rest generalizing first before base held last with
  | nil =>
    have hfield := leads_field hbefore (h first List.mem_cons_self base first.1)
    rw [List.map_singleton, List.intercalate_singleton]
    refine .append (stops_newline_append _ _) hfield (.newline outer ?_)
    exact .punctuation (by decide) (fun _ ↦ rfl) rfl (.nil _)
  | cons second rest ih =>
    have hfield := leads_field hbefore (h first List.mem_cons_self base first.1)
    rw [List.map_cons, List.map_cons, List.intercalate_cons_cons, List.append_assoc,
      List.append_assoc]
    refine .append (.cons (by decide)) hfield ?_
    refine .punctuation (by decide) (fun _ ↦ rfl) rfl (.newline inner ?_)
    exact ih rfl fun entry hentry ↦ h entry (List.mem_cons_of_mem _ hentry)

end Sequences

/-! ### Values -/

/-- Values without doubles, nested no deeper than there is room. -/
inductive Plain : Nat → Json → Prop where
  | null {room : Nat} : Plain room .null
  | bool {room : Nat} (b : Bool) : Plain room (.bool b)
  | integer {room : Nat} (n : Int) (hrange : Integer.least ≤ n ∧ n < UInt64.size) :
      Plain room (.number (.integer n hrange))
  | string {room : Nat} (s : String) : Plain room (.string s)
  | array {room : Nat} {items : List Json} (h : ∀ item ∈ items, Plain room item) :
      Plain (room + 1) (.array items)
  | object {room : Nat} {fields : OrderedMap String Json}
      (h : ∀ entry ∈ OrderedMap.Entries.toList fields, Plain room entry.2) :
      Plain (room + 1) (.object fields)

/-- The object of a list has the values of the list. -/
theorem Plain.ofList {room : Nat} {entries : List (String × Json)}
    (h : ∀ entry ∈ entries, Plain room entry.2) :
    Plain (room + 1) (.object (OrderedMap.ofList entries)) :=
  .object (OrderedMap.forall_mem_ofList h)

theorem prettyItems_eq_map (depth : Nat) (items : List Json) :
    prettyItems depth items = items.map fun item ↦ item.prettyAt depth := by
  induction items with
  | nil => rfl
  | cons item rest ih => rw [prettyItems, ih, List.map_cons]

theorem map_toList_prettyFields (depth : Nat) {low : Option String}
    (fields : OrderedMap.Entries String Json low) :
    (prettyFields depth fields).map String.toList =
      fields.toList.map (fieldText fun value ↦ (value.prettyAt depth).toList) := by
  induction fields with
  | nil => rfl
  | cons key above value rest ih =>
    rw [prettyFields, OrderedMap.Entries.toList, List.map_cons, List.map_cons, ih]
    simp [fieldText]

/-- The text of a value takes the reader from where a value may stand to the value. -/
theorem Plain.leads {room : Nat} {json : Json} (h : Plain room json) (depth : Nat)
    (frames : List Frame) (hroom : frames.length + room ≤ nestingLimit) :
    Leads (json.prettyAt depth).toList ⟨frames, .value⟩ ⟨frames, .continuation json⟩ := by
  induction h generalizing depth frames with
  | null => exact ⟨[.null], spells_null, rfl⟩
  | bool b => exact ⟨[.bool b], spells_bool b, rfl⟩
  | integer n hrange => exact ⟨[.number (.integer n hrange)], spells_integer n hrange, rfl⟩
  | string s => exact ⟨[.string s], spells_quote s, rfl⟩
  | @array room items _ ih =>
    have hlt : frames.length < nestingLimit := by omega
    have hopen : step ⟨frames, .value⟩ .openBracket = some ⟨.array [] :: frames, .firstItem⟩ :=
      if_pos hlt
    rw [prettyAt, prettyItems_eq_map]
    cases items with
    | nil =>
      rw [List.map_nil, toList_spread_nil]
      refine .punctuation (by decide) (fun _ ↦ rfl) hopen ?_
      exact .punctuation (by decide) (fun _ ↦ rfl) rfl (.nil _)
    | cons first rest =>
      rw [toList_spread _ _ _ (by simp), List.map_map]
      refine .punctuation (by decide) (fun _ ↦ rfl) hopen (.newline _ (.firstItem ?_))
      refine leads_items _ _ [] fun item hitem done ↦ ih item hitem _ _ ?_
      rw [List.length_cons]
      omega
  | @object room fields _ ih =>
    have hlt : frames.length < nestingLimit := by omega
    have hopen : step ⟨frames, .value⟩ .openBrace =
        some ⟨.object OrderedMap.empty "" :: frames, .firstKey OrderedMap.empty⟩ :=
      if_pos hlt
    have hfields := OrderedMap.empty_overlay fields
    rw [prettyAt]
    cases fields with
    | nil =>
      rw [prettyFields, toList_spread_nil]
      refine .punctuation (by decide) (fun _ ↦ rfl) hopen ?_
      exact .punctuation (by decide) (fun _ ↦ rfl) rfl (.nil _)
    | cons key above value rest =>
      rw [toList_spread _ _ _ (by simp [prettyFields]), map_toList_prettyFields]
      refine .punctuation (by decide) (fun _ ↦ rfl) hopen (.newline _ ?_)
      refine leads_fields _ _ rfl hfields fun entry hentry fields key ↦ ih entry hentry _ _ ?_
      rw [List.length_cons]
      omega

theorem read?_eq_of_leads {text : String} {json : Json}
    (h : Leads text.toList ⟨[], .value⟩ ⟨[], .continuation json⟩) : read? text = some json := by
  obtain ⟨tokens, hspells, hsteps⟩ := h
  rw [read?, tokens?_eq_of_spells hspells]
  simp [hsteps]

/-- The text of a value is read back as the value, also at the end of a line. -/
theorem read?_pretty {json : Json} (h : Plain nestingLimit json) :
    read? json.pretty = some json ∧ read? (json.pretty ++ "\n") = some json := by
  have hleads : Leads json.pretty.toList ⟨[], .value⟩ ⟨[], .continuation json⟩ :=
    h.leads 0 [] (by simp)
  refine ⟨read?_eq_of_leads hleads, read?_eq_of_leads ?_⟩
  rw [String.toList_append]
  exact .append (.cons (by decide)) hleads (.space (by decide) (.nil _))

end Json

end FlowGate
