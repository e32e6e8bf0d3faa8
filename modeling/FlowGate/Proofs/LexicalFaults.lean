import FlowGate.Proofs.IntegerArithmetic
import FlowGate.Proofs.LexingLocality

/-!
# Where a text cannot be split into tokens

A text that cannot be split into tokens is reported with a fault and a place. `BeginsFault` says
what stands at the place of each fault: a character that no token begins with, a quote that is not
closed, or digits of too large a number. `Scans` lists the ways in which a token is read. One or the
other is the case wherever a token may begin (`scan_cases`).

The text before the place can be split. It ends behind a token or a blank, and a token is read alike
where the text is cut off behind it (`scan_cutOff`). So the tokens that were read before the fault
are those of the text before it (`exists_fault_of_tokenizeFrom`).
-/

set_option autoImplicit false

namespace FlowGate.Expr

/-- The characters outside escapes. A backslash and the character after it are an escape. -/
def outsideEscapes : List Char → List Char
  | [] => []
  | c :: cs =>
    if c = '\\' then
      match cs with
      | [] => []
      | _ :: more => outsideEscapes more
    else
      c :: outsideEscapes cs

/-- The ways in which a token that begins with the character is read. -/
inductive Scans (c : Char) : List Char → Scanned → Prop where
  | integer {digits rest : List Char} {n : Int64} (hdigits : ∀ d ∈ c :: digits, d.isDigit = true)
      (hrest : ∀ d ∈ rest.head?, d.isDigit = false)
      (hpoint : ∀ d more, rest = '.' :: d :: more → d.isDigit = false)
      (hvalue : Integer.ofInt? (natOfDigits (c :: digits)) = some n) :
      Scans c (digits ++ rest) ⟨.int n, c :: digits, rest⟩
  | float {digits fraction rest : List Char} {d : Char}
      (hdigits : ∀ e ∈ c :: digits, e.isDigit = true)
      (hfraction : ∀ e ∈ d :: fraction, e.isDigit = true)
      (hrest : ∀ e ∈ rest.head?, e.isDigit = false) :
      Scans c (digits ++ '.' :: d :: (fraction ++ rest))
        ⟨.float (Decimal.ofDigits (c :: digits) (d :: fraction)).toFloat,
          c :: digits ++ '.' :: d :: fraction, rest⟩
  | quoted {content text rest : List Char} (hquote : c = '\'' ∨ c = '"')
      (hspells : Spells c content text) :
      Scans c (text ++ c :: rest) ⟨.string (String.ofList content), c :: (text ++ [c]), rest⟩
  | word {tail rest : List Char} (hstart : startsWord c = true)
      (htail : ∀ d ∈ tail, continuesWord d = true)
      (hrest : ∀ d ∈ rest.head?, continuesWord d = false) :
      Scans c (tail ++ rest) ⟨.ofWord (c :: tail), c :: tail, rest⟩
  | single {rest : List Char} {token : Token}
      (hsymbol : symbol? c rest.head? = some (token, false)) : Scans c rest ⟨token, [c], rest⟩
  | double {rest : List Char} {token : Token} {next : Char}
      (hsymbol : symbol? c (some next) = some (token, true)) :
      Scans c (next :: rest) ⟨token, [c, next], rest⟩

/-- A token begins the text: a number, a quoted text, a word, or an operator or bracket. The equals
sign, the ampersand and the bar begin an operator only if they stand there twice. -/
inductive BeginsToken : List Char → Prop where
  | number {c : Char} {rest : List Char} (hdigit : c.isDigit = true) : BeginsToken (c :: rest)
  | quoted {c : Char} {rest : List Char} (hquote : c = '\'' ∨ c = '"') : BeginsToken (c :: rest)
  | word {c : Char} {rest : List Char} (hstart : startsWord c = true) : BeginsToken (c :: rest)
  | sign {c : Char} {rest : List Char}
      (hsign : c ∈ ['(', ')', '[', ']', '+', '-', '*', '/', '%', '!', '<', '>']) :
      BeginsToken (c :: rest)
  | doubled {c : Char} {rest : List Char} (hsign : c ∈ ['=', '&', '|']) :
      BeginsToken (c :: c :: rest)

/-- The text begins with what the fault is about: a character that is not blank and begins no token,
a quote without an equal one outside the escapes behind it, or all of the digits of a number that no
64 bits hold and that has no fraction. -/
inductive BeginsFault : LexFault → List Char → Prop where
  | unexpectedChar {c : Char} {rest : List Char} (hblank : Text.isBlank c = false)
      (htoken : ¬BeginsToken (c :: rest)) : BeginsFault (.unexpectedChar c) (c :: rest)
  | unterminatedString {quote : Char} {rest : List Char} (hquote : quote = '\'' ∨ quote = '"')
      (hopen : quote ∉ outsideEscapes rest) : BeginsFault .unterminatedString (quote :: rest)
  | invalidNumber {digits rest : List Char} (hne : digits ≠ [])
      (hdigits : ∀ d ∈ digits, d.isDigit = true) (hrest : ∀ d ∈ rest.head?, d.isDigit = false)
      (hpoint : ∀ d more, rest = '.' :: d :: more → d.isDigit = false)
      (hvalue : Integer.greatest < natOfDigits digits) :
      BeginsFault (.invalidNumber (String.ofList digits)) (digits ++ rest)

theorem outsideEscapes_of_ne {c : Char} (h : c ≠ '\\') (cs : List Char) :
    outsideEscapes (c :: cs) = c :: outsideEscapes cs := by
  rw [outsideEscapes.eq_def]
  exact if_neg h

theorem outsideEscapes_escape (c : Char) (cs : List Char) :
    outsideEscapes ('\\' :: c :: cs) = outsideEscapes cs := by
  rw [outsideEscapes.eq_def]
  rfl

/-! ### Single tokens -/

/-- A closing quote is missing iff no equal quote stands outside the escapes. -/
theorem scanQuoted_eq_none_iff {quote : Char} (hquote : quote ≠ '\\') {cs : List Char} :
    scanQuoted quote cs = none ↔ quote ∉ outsideEscapes cs := by
  fun_induction scanQuoted quote cs with
  | case1 => simp [outsideEscapes]
  | case2 cs => simp [outsideEscapes_of_ne hquote]
  | case3 => simp [outsideEscapes]
  | case4 escaped more _ ih => rw [Option.map_eq_none_iff, ih, outsideEscapes_escape]
  | case5 c cs hne hbackslash ih =>
    rw [Option.map_eq_none_iff, ih, outsideEscapes_of_ne hbackslash, List.mem_cons, not_or]
    exact (and_iff_right (Ne.symm hne)).symm

/-- What is read between quotes spells its content up to the closing quote. -/
theorem spells_of_scanQuoted {quote : Char} {cs content taken rest : List Char}
    (h : scanQuoted quote cs = some (content, taken, rest)) :
    ∃ text, cs = text ++ quote :: rest ∧ Spells quote content text := by
  fun_induction scanQuoted quote cs generalizing content taken rest with
  | case1 => cases h
  | case2 cs =>
    cases h
    exact ⟨[], rfl, .nil⟩
  | case3 => cases h
  | case4 escaped more _ ih =>
    obtain ⟨⟨content', taken', rest'⟩, hmore, heq⟩ := Option.map_eq_some_iff.mp h
    cases heq
    obtain ⟨text, rfl, hspells⟩ := ih hmore
    exact ⟨'\\' :: escaped :: text, rfl, .escaped escaped hspells⟩
  | case5 c cs hne hbackslash ih =>
    obtain ⟨⟨content', taken', rest'⟩, hmore, heq⟩ := Option.map_eq_some_iff.mp h
    cases heq
    obtain ⟨text, rfl, hspells⟩ := ih hmore
    exact ⟨c :: text, rfl, .plain hne hbackslash hspells⟩

/-- A literal has no 64 bits that hold it iff it is greater than the greatest integer. -/
theorem ofInt?_natOfDigits_eq_none_iff (digits : List Char) :
    Integer.ofInt? (natOfDigits digits) = none ↔ Integer.greatest < natOfDigits digits := by
  rw [Integer.ofInt?_eq_none_iff, Integer.InRange]
  show _ ↔ (9223372036854775807 : Int) < natOfDigits digits
  omega

/-- A point and a digit are at the start of a text, or they are not. -/
theorem exists_fraction_or (rest : List Char) :
    (∃ d more, rest = '.' :: d :: more ∧ d.isDigit = true) ∨
      ∀ d more, rest = '.' :: d :: more → d.isDigit = false := by
  by_cases h : ∃ d more, rest = '.' :: d :: more ∧ d.isDigit = true
  · exact .inl h
  · exact .inr fun d more hrest ↦ Bool.eq_false_iff.mpr fun hd ↦ h ⟨d, more, hrest, hd⟩

/-- A text begins with a run of what fits, and nothing that fits follows. -/
theorem exists_run (p : Char → Bool) (cs : List Char) :
    ∃ front rest, cs = front ++ rest ∧ (∀ d ∈ front, p d = true) ∧
      ∀ d ∈ rest.head?, p d = false := by
  refine ⟨cs.takeWhile p, cs.dropWhile p, List.takeWhile_append_dropWhile.symm,
    List.all_eq_true.mp List.all_takeWhile, fun d hd ↦ ?_⟩
  have hstop := List.head?_dropWhile_not p cs
  rwa [Option.mem_def.mp hd] at hstop

section Single

variable {c : Char} {cs : List Char} {scanned : Scanned} {fault : LexFault}

/-- No operator or bracket is read iff none begins there. -/
theorem symbol?_eq_none_iff :
    symbol? c cs.head? = none ↔
      c ∉ ['(', ')', '[', ']', '+', '-', '*', '/', '%', '!', '<', '>'] ∧
        ¬(c ∈ ['=', '&', '|'] ∧ cs.head? = some c) := by
  unfold symbol?
  grind

theorem symbol?_start {next : Option Char} {read : Token × Bool} (h : symbol? c next = some read) :
    c.isDigit = false ∧ ¬(c = '\'' ∨ c = '"') ∧ startsWord c = false := by
  unfold symbol? at h
  split at h
  case h_16 => cases h
  all_goals decide

theorem ne_of_isQuote (h : c = '\'' ∨ c = '"') : c ≠ '\\' ∧ ¬c.isDigit = true := by
  rcases h with rfl | rfl <;> decide

theorem scanNumber_cases (hdigit : c.isDigit = true) (cs : List Char) :
    (∃ scanned, scanNumber c cs = .ok scanned ∧ Scans c cs scanned) ∨
      ∃ fault, scanNumber c cs = .error fault ∧ BeginsFault fault (c :: cs) := by
  obtain ⟨digits, rest, rfl, hdigits, hrest⟩ := exists_run Char.isDigit cs
  obtain ⟨htake, hdrop⟩ := takeWhile_append_of_stop hdigits hrest
  have hall : ∀ d ∈ c :: digits, d.isDigit = true := List.forall_mem_cons.mpr ⟨hdigit, hdigits⟩
  obtain ⟨d, more, rfl, hd⟩ | hpoint := exists_fraction_or rest
  · obtain ⟨fraction, rest, rfl, hfraction, hstop⟩ := exists_run Char.isDigit more
    obtain ⟨hmore, hleft⟩ := takeWhile_append_of_stop hfraction hstop
    rw [scanNumber_eq_float hdrop hd, htake, hmore, hleft]
    exact .inl ⟨_, rfl, .float hall (List.forall_mem_cons.mpr ⟨hd, hfraction⟩) hstop⟩
  · rw [scanNumber_eq_integer (by rwa [hdrop]), htake, hdrop, scannedInteger]
    cases hvalue : Integer.ofInt? (natOfDigits (c :: digits)) with
    | some n => exact .inl ⟨_, rfl, .integer hall hrest hpoint hvalue⟩
    | none =>
      have hlarge := (ofInt?_natOfDigits_eq_none_iff _).mp hvalue
      exact .inr ⟨_, rfl, .invalidNumber (List.cons_ne_nil _ _) hall hrest hpoint hlarge⟩

/-- Where a token may begin, one is read, or a fault is found that the text begins with. -/
theorem scan_cases (c : Char) (cs : List Char) :
    (∃ scanned, scan c cs = .ok scanned ∧ Scans c cs scanned) ∨
      ∃ fault, scan c cs = .error fault ∧
        (Text.isBlank c = false → BeginsFault fault (c :: cs)) := by
  by_cases hdigit : c.isDigit = true
  · rw [scan, if_pos hdigit]
    obtain hread | ⟨fault, hscan, hfault⟩ := scanNumber_cases hdigit cs
    · exact .inl hread
    · exact .inr ⟨fault, hscan, fun _ ↦ hfault⟩
  rw [scan, if_neg hdigit]
  by_cases hquote : c = '\'' ∨ c = '"'
  · rw [if_pos hquote]
    cases hquoted : scanQuoted c cs with
    | none =>
      have hopen := (scanQuoted_eq_none_iff (ne_of_isQuote hquote).1).mp hquoted
      exact .inr ⟨_, rfl, fun _ ↦ .unterminatedString hquote hopen⟩
    | some read =>
      obtain ⟨content, taken, rest⟩ := read
      obtain ⟨text, rfl, hspells⟩ := spells_of_scanQuoted hquoted
      have htaken := scanQuoted_append hquoted
      rw [← List.singleton_append, ← List.append_assoc, List.append_cancel_right_eq] at htaken
      rw [htaken]
      exact .inl ⟨_, rfl, .quoted hquote hspells⟩
  rw [if_neg hquote]
  by_cases hstart : startsWord c = true
  · rw [if_pos hstart]
    obtain ⟨tail, rest, rfl, htail, hrest⟩ := exists_run continuesWord cs
    obtain ⟨htake, hdrop⟩ := takeWhile_append_of_stop htail hrest
    rw [htake, hdrop]
    exact .inl ⟨_, rfl, .word hstart htail hrest⟩
  rw [if_neg hstart]
  cases hsymbol : symbol? c cs.head? with
  | some read =>
    obtain ⟨token, more⟩ := read
    cases more with
    | false => exact .inl ⟨_, rfl, .single hsymbol⟩
    | true =>
      cases cs with
      | nil => rcases next_of_symbol? hsymbol with hnext | hnext | hnext <;> cases hnext
      | cons next cs => exact .inl ⟨_, rfl, .double hsymbol⟩
  | none =>
    obtain ⟨hsign, hdoubled⟩ := symbol?_eq_none_iff.mp hsymbol
    refine .inr ⟨_, rfl, fun hblank ↦ .unexpectedChar hblank fun htoken ↦ ?_⟩
    cases htoken with
    | number h => exact hdigit h
    | quoted h => exact hquote h
    | word h => exact hstart h
    | sign h => exact hsign h
    | doubled h => exact hdoubled ⟨h, rfl⟩

theorem Scans.scan_eq (h : Scans c cs scanned) : scan c cs = .ok scanned := by
  cases h with
  | integer hdigits hrest hpoint hvalue =>
    obtain ⟨hc, htail⟩ := List.forall_mem_cons.mp hdigits
    obtain ⟨htake, hdrop⟩ := takeWhile_append_of_stop htail hrest
    rw [scan, if_pos hc, scanNumber_eq_integer (by rwa [hdrop]), htake, hdrop, scannedInteger,
      hvalue]
  | @float digits fraction rest d hdigits hfraction hrest =>
    obtain ⟨hc, htail⟩ := List.forall_mem_cons.mp hdigits
    obtain ⟨hd, hmore⟩ := List.forall_mem_cons.mp hfraction
    have hpoint : ∀ e ∈ ('.' :: d :: (fraction ++ rest)).head?, e.isDigit = false := by
      intro e he
      obtain rfl := Option.mem_some.mp he
      rfl
    obtain ⟨htake, hdrop⟩ := takeWhile_append_of_stop htail hpoint
    obtain ⟨hfront, hleft⟩ := takeWhile_append_of_stop hmore hrest
    rw [scan, if_pos hc, scanNumber_eq_float hdrop hd, htake, hfront, hleft]
  | quoted hquote hspells => exact scan_quoted hquote hspells _
  | word hstart htail hrest => exact scan_word hstart htail hrest
  | single hsymbol =>
    obtain ⟨hdigit, hquote, hstart⟩ := symbol?_start hsymbol
    rw [scan, if_neg (by simp [hdigit]), if_neg hquote, if_neg (by simp [hstart]), hsymbol]
  | double hsymbol =>
    obtain ⟨hdigit, hquote, hstart⟩ := symbol?_start hsymbol
    rw [scan, if_neg (by simp [hdigit]), if_neg hquote, if_neg (by simp [hstart]),
      List.head?_cons, hsymbol]
    rfl

theorem BeginsFault.scan_eq {text : List Char} (h : BeginsFault fault text)
    (htext : c :: cs = text) : scan c cs = .error fault := by
  cases h with
  | @unexpectedChar d rest _ htoken =>
    obtain ⟨rfl, rfl⟩ := List.cons.inj htext
    have hdigit : ¬c.isDigit = true := fun h ↦ htoken (.number h)
    have hquote : ¬(c = '\'' ∨ c = '"') := fun h ↦ htoken (.quoted h)
    have hstart : ¬startsWord c = true := fun h ↦ htoken (.word h)
    have hnone : symbol? c cs.head? = none := by
      refine symbol?_eq_none_iff.mpr ⟨fun h ↦ htoken (.sign h), fun hdoubled ↦ htoken ?_⟩
      obtain ⟨rest, rfl⟩ := List.head?_eq_some_iff.mp hdoubled.2
      exact .doubled hdoubled.1
    rw [scan, if_neg hdigit, if_neg hquote, if_neg hstart, hnone]
  | unterminatedString hquote hopen =>
    obtain ⟨rfl, rfl⟩ := List.cons.inj htext
    obtain ⟨hbackslash, hdigit⟩ := ne_of_isQuote hquote
    rw [scan, if_neg hdigit, if_pos hquote, (scanQuoted_eq_none_iff hbackslash).mpr hopen]
  | @invalidNumber digits rest hne hdigits hrest hpoint hvalue =>
    obtain ⟨d, tail, rfl⟩ := List.exists_cons_of_ne_nil hne
    rw [List.cons_append] at htext
    obtain ⟨rfl, rfl⟩ := List.cons.inj htext
    obtain ⟨hdigit, htail⟩ := List.forall_mem_cons.mp hdigits
    obtain ⟨htake, hdrop⟩ := takeWhile_append_of_stop htail hrest
    rw [scan, if_pos hdigit, scanNumber_eq_integer (by rwa [hdrop]), htake, hdrop, scannedInteger,
      (ofInt?_natOfDigits_eq_none_iff _).mpr hvalue]

/-- The ways to read a token are those of the scan. -/
theorem scan_eq_ok_iff : scan c cs = .ok scanned ↔ Scans c cs scanned := by
  refine ⟨fun h ↦ ?_, Scans.scan_eq⟩
  obtain ⟨read, hread, hscans⟩ | ⟨fault, hfault, -⟩ := scan_cases c cs
  · obtain rfl := Except.ok.inj (hread.symm.trans h)
    exact hscans
  · cases hfault.symm.trans h

/-- A token is refused iff the text begins with the fault. -/
theorem scan_eq_error_iff (hblank : Text.isBlank c = false) :
    scan c cs = .error fault ↔ BeginsFault fault (c :: cs) := by
  refine ⟨fun h ↦ ?_, fun h ↦ h.scan_eq rfl⟩
  obtain ⟨read, hread, -⟩ | ⟨found, hfound, hbegins⟩ := scan_cases c cs
  · cases hread.symm.trans h
  · obtain rfl := Except.error.inj (hfound.symm.trans h)
    exact hbegins hblank

/-! ### Cutting off what follows a token -/

/-- A symbol of one character is read at the end of a text too. -/
theorem symbol?_none_of_single {next : Option Char} {token : Token}
    (h : symbol? c next = some (token, false)) : symbol? c none = some (token, false) := by
  unfold symbol? at h ⊢
  grind

theorem not_of_head?_append {p : Char → Bool} {front back : List Char}
    (h : ∀ d ∈ (front ++ back).head?, p d = false) : ∀ d ∈ front.head?, p d = false := by
  intro d hd
  refine h d ?_
  rw [List.head?_append, Option.mem_def.mp hd]
  rfl

/-- A token is read alike where the text is cut off somewhere behind it. -/
theorem scan_cutOff {front back : List Char} (h : scan c cs = .ok scanned)
    (hrest : scanned.rest = front ++ back) :
    ∃ ds, c :: ds = scanned.lexeme ++ front ∧ scan c ds = .ok { scanned with rest := front } := by
  simp only [scan_eq_ok_iff] at h ⊢
  cases h with
  | @integer digits rest n hdigits hstop hpoint hvalue =>
    obtain rfl : rest = front ++ back := hrest
    refine ⟨digits ++ front, rfl, .integer hdigits (not_of_head?_append hstop) ?_ hvalue⟩
    rintro d more rfl
    exact hpoint d (more ++ back) rfl
  | @float digits fraction rest d hdigits hfraction hstop =>
    obtain rfl : rest = front ++ back := hrest
    refine ⟨digits ++ '.' :: d :: (fraction ++ front), ?_,
      .float hdigits hfraction (not_of_head?_append hstop)⟩
    simp
  | @quoted content text rest hquote hspells =>
    refine ⟨text ++ c :: front, ?_, .quoted hquote hspells⟩
    simp
  | @word tail rest hstart htail hstop =>
    obtain rfl : rest = front ++ back := hrest
    exact ⟨tail ++ front, rfl, .word hstart htail (not_of_head?_append hstop)⟩
  | @single rest token hsymbol =>
    obtain rfl : cs = front ++ back := hrest
    refine ⟨front, rfl, .single ?_⟩
    cases front with
    | nil => exact symbol?_none_of_single hsymbol
    | cons d front => exact hsymbol
  | @double rest token next hsymbol => exact ⟨next :: front, rfl, .double hsymbol⟩

/-- A digit behind a token does not follow a digit of the token. -/
theorem not_isDigit_of_getLast? (h : scan c cs = .ok scanned)
    (hnext : ∃ d ∈ scanned.rest.head?, d.isDigit = true) :
    ∀ e ∈ scanned.lexeme.getLast?, e.isDigit = false := by
  obtain ⟨d, hd, hdigit⟩ := hnext
  cases scan_eq_ok_iff.mp h with
  | integer _ hstop =>
    rw [hstop d hd] at hdigit
    cases hdigit
  | float _ _ hstop =>
    rw [hstop d hd] at hdigit
    cases hdigit
  | quoted hquote =>
    intro e he
    rw [← List.cons_append, List.getLast?_concat] at he
    cases he
    rcases hquote with rfl | rfl <;> decide
  | word _ _ hstop =>
    have hd := hstop d hd
    simp [continuesWord, Char.isAlphanum, hdigit] at hd
  | single hsymbol =>
    intro e he
    cases he
    exact (symbol?_start hsymbol).1
  | double hsymbol =>
    intro e he
    cases he
    rcases next_of_symbol? hsymbol with hnext | hnext | hnext <;> cases hnext <;> rfl

end Single

/-! ### Faults of texts -/

/-- No fault begins with a blank, and the digits of a number begin with a digit. -/
theorem BeginsFault.exists_cons {fault : LexFault} {text : List Char} (h : BeginsFault fault text) :
    ∃ c rest, text = c :: rest ∧ Text.isBlank c = false ∧
      ∀ digits, fault = .invalidNumber digits → c.isDigit = true := by
  cases h with
  | unexpectedChar hblank => exact ⟨_, _, rfl, hblank, fun digits h ↦ nomatch h⟩
  | unterminatedString hquote => exact ⟨_, _, rfl, isBlank_quote hquote, fun digits h ↦ nomatch h⟩
  | invalidNumber hne hdigits =>
    obtain ⟨c, digits, rfl⟩ := List.exists_cons_of_ne_nil hne
    have hdigit := hdigits c List.mem_cons_self
    have hrange := toNat_of_isDigit hdigit
    exact ⟨c, _, rfl, isBlank_of_toNat (by omega) (by omega), fun _ _ ↦ hdigit⟩

/-- The last character of two texts is that of the second one, if that has any. -/
theorem forall_getLast?_append {p : Char → Prop} {front back : List Char}
    (hback : ∀ d ∈ back.getLast?, p d) (hfront : back = [] → ∀ d ∈ front.getLast?, p d) :
    ∀ d ∈ (front ++ back).getLast?, p d := by
  intro d hd
  cases hlast : back.getLast? with
  | none =>
    obtain rfl := List.getLast?_eq_none_iff.mp hlast
    rw [List.append_nil] at hd
    exact hfront rfl d hd
  | some last =>
    rw [List.getLast?_append, hlast] at hd
    obtain rfl := Option.mem_some.mp hd
    exact hback _ hlast

theorem not_isDigit_of_isBlank {c : Char} (h : Text.isBlank c = true) : c.isDigit = false := by
  refine Bool.eq_false_iff.mpr fun hdigit ↦ ?_
  have hrange := toNat_of_isDigit hdigit
  rw [isBlank_of_toNat (by omega) (by omega)] at h
  cases h

/-- The text before a fault can be split into tokens, and the fault stands behind it. A number that
is too large stands behind no digit. -/
theorem exists_fault_of_tokenizeFrom {position : Nat} {cs : List Char} {cause : CompileError}
    (h : tokenizeFrom position cs = .error cause) :
    ∃ front c rest fault tokens, cs = front ++ c :: rest ∧
      cause = .lexical fault (position + byteLength front) ∧ Text.isBlank c = false ∧
      scan c rest = .error fault ∧ tokenizeFrom position front = .ok tokens ∧
      (c.isDigit = true → ∀ d ∈ front.getLast?, d.isDigit = false) := by
  fun_induction tokenizeFrom position cs with
  | case1 => cases h
  | case2 position c cs hblank ih =>
    obtain ⟨front, d, rest, fault, tokens, rfl, rfl, hd, hscan, hfront, hdigit⟩ := ih h
    refine ⟨c :: front, d, rest, fault, tokens, rfl, by rw [byteLength, Nat.add_assoc], hd, hscan,
      by rwa [tokenizeFrom_blank hblank], fun hnext ↦ ?_⟩
    have hlast : ∀ e ∈ ([c] ++ front).getLast?, e.isDigit = false := by
      refine forall_getLast?_append (hdigit hnext) fun _ e he ↦ ?_
      obtain rfl := Option.mem_some.mp he
      exact not_isDigit_of_isBlank hblank
    exact hlast
  | case3 position c cs hblank fault hfault =>
    cases h
    refine ⟨[], c, cs, fault, [], rfl, rfl, by simpa using hblank, hfault, tokenizeFrom_nil _, ?_⟩
    intro _ e he
    cases he
  | case4 position c cs hblank scanned hscan _ ih =>
    obtain ⟨front, d, rest, fault, tokens, hrest, rfl, hd, hfault, hfront, hdigit⟩ :=
      ih (map_eq_error_iff.mp h)
    obtain ⟨ds, hds, hcut⟩ := scan_cutOff hscan hrest
    refine ⟨scanned.lexeme ++ front, d, rest, fault, ⟨scanned.token, position⟩ :: tokens, ?_,
      by rw [byteLength_append, Nat.add_assoc], hd, hfault, ?_, fun hnext ↦ ?_⟩
    · rw [List.append_assoc, ← hrest, lexeme_append_rest hscan]
    · rw [← hds, tokenizeFrom_scan (by simpa using hblank) hcut, hfront]
      rfl
    · refine forall_getLast?_append (hdigit hnext) fun hempty ↦ ?_
      subst hempty
      exact not_isDigit_of_getLast? hscan ⟨d, by rw [hrest]; rfl, hnext⟩

/-- A text that cannot be split into tokens is reported at a character boundary. The text before
it can be split, and what stands there is what the fault is about. A number that is too large is
reported with all of its digits. A text that begins with a fault is reported with it. -/
theorem lexical_faults_located :
    (∀ (text : String) (cause : CompileError), tokenize text.toList = .error cause →
      ∃ (front rest : String) (fault : LexFault) (tokens : List TokenAt),
        text = front ++ rest ∧ cause = .lexical fault front.utf8ByteSize ∧
          String.Pos.Raw.IsValid text ⟨front.utf8ByteSize⟩ ∧ tokenize front.toList = .ok tokens ∧
          BeginsFault fault rest.toList ∧
          ∀ digits, fault = .invalidNumber digits →
            ∀ d ∈ front.toList.getLast?, d.isDigit = false) ∧
      ∀ (fault : LexFault) (rest : String), BeginsFault fault rest.toList →
        tokenize rest.toList = .error (.lexical fault 0) := by
  constructor
  · intro text cause h
    obtain ⟨front, c, rest, fault, tokens, htext, rfl, hblank, hscan, hfront, hdigit⟩ :=
      exists_fault_of_tokenizeFrom h
    have hbegins := (scan_eq_error_iff hblank).mp hscan
    have hsize : (String.ofList front).utf8ByteSize = byteLength front :=
      (byteLength_eq_utf8ByteSize front).symm
    refine ⟨String.ofList front, String.ofList (c :: rest), fault, tokens, ?_, ?_, ?_, ?_, ?_, ?_⟩
    · rw [← String.ofList_append, ← htext, String.ofList_toList]
    · rw [hsize, Nat.zero_add]
    · have hvalid := Reference.isValid_of_toList_eq htext
      rwa [Reference.length_utf8, ← hsize] at hvalid
    · rwa [String.toList_ofList]
    · rwa [String.toList_ofList]
    · rintro digits rfl d hd
      rw [String.toList_ofList] at hd
      obtain ⟨_, _, heq, -, hnumber⟩ := hbegins.exists_cons
      obtain ⟨rfl, rfl⟩ := List.cons.inj heq
      exact hdigit (hnumber digits rfl) d hd
  · intro fault rest h
    obtain ⟨c, cs, htext, hblank, -⟩ := h.exists_cons
    rw [htext] at h ⊢
    exact tokenizeFrom_fault hblank ((scan_eq_error_iff hblank).mpr h) 0

/-- A lone ampersand behind a quoted text, a text whose second quote is escaped, and the least
integer that 64 bits do not hold. -/
theorem lexical_faults_located_ampersand :
    tokenize "'é'&".toList = .error (.lexical (.unexpectedChar '&') 4) ∧
      (∃ (front rest : String) (tokens : List TokenAt), "'é'&" = front ++ rest ∧
        front.utf8ByteSize = 4 ∧ String.Pos.Raw.IsValid "'é'&" ⟨4⟩ ∧
        tokenize front.toList = .ok tokens ∧ BeginsFault (.unexpectedChar '&') rest.toList) ∧
      BeginsFault .unterminatedString "\"a\\\"".toList ∧
      tokenize "\"a\\\"".toList = .error (.lexical .unterminatedString 0) ∧
      BeginsFault (.invalidNumber "9223372036854775808") "9223372036854775808.".toList ∧
      tokenize "9223372036854775808.".toList =
        .error (.lexical (.invalidNumber "9223372036854775808") 0) := by
  have hfault : tokenize "'é'&".toList = .error (.lexical (.unexpectedChar '&') 4) := by
    have hquoted : scan '\'' ['é', '\'', '&'] = .ok ⟨.string "é", ['\'', 'é', '\''], ['&']⟩ := rfl
    have hampersand : scan '&' [] = .error (.unexpectedChar '&') := rfl
    show tokenizeFrom 0 ['\'', 'é', '\'', '&'] = _
    rw [tokenizeFrom_scan rfl hquoted, tokenizeFrom_fault rfl hampersand]
    rfl
  have hescaped : '"' ∉ outsideEscapes ['a', '\\', '"'] := by decide
  have hopen : BeginsFault .unterminatedString "\"a\\\"".toList :=
    .unterminatedString (.inr rfl) hescaped
  have hlarge : BeginsFault (.invalidNumber "9223372036854775808") "9223372036854775808.".toList :=
    @BeginsFault.invalidNumber "9223372036854775808".toList ['.'] (by decide)
      (List.all_eq_true.mp rfl) (by intro d hd; cases hd; rfl) (by intro d more h; cases h)
      (by decide)
  obtain ⟨hlocated, hfirst⟩ := lexical_faults_located
  obtain ⟨front, rest, fault, tokens, htext, hcause, hvalid, hfront, hbegins, -⟩ :=
    hlocated _ _ hfault
  obtain ⟨rfl, hsize⟩ := CompileError.lexical.inj hcause
  rw [← hsize] at hvalid
  exact ⟨hfault, ⟨front, rest, tokens, htext, hsize.symm, hvalid, hfront, hbegins⟩, hopen,
    hfirst _ _ hopen, hlarge, hfirst _ _ hlarge⟩

end FlowGate.Expr
