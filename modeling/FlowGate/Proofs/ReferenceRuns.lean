import FlowGate.Proofs.Translation
import FlowGate.Text.Bytes

/-!
# References byte by byte

A link text is stored in UTF-8 and its references are read byte by byte. `Accepted` says which runs
of bytes may follow a `$` as its reference, `LongestRun` is the one that is taken, and `StartsNone`
lists what follows a `$` that starts no reference.

All bytes of an accepted run are ASCII, and a byte below 128 is a character of its own in UTF-8
(`utf8EncodeChar_of_mem`). So the text that `scan` takes is the longest accepted run
(`longestRun_scan`), and each position in a run is a character boundary of the text
(`isValid_of_accepted`).
-/

set_option autoImplicit false

namespace FlowGate.Reference

/-- The bytes of characters in UTF-8. -/
def utf8 (cs : List Char) : List UInt8 :=
  cs.flatMap String.utf8EncodeChar

/-- An ASCII letter or digit, a point or an underscore. -/
def IsNameByte (b : UInt8) : Prop :=
  ('0'.toUInt8 ≤ b ∧ b ≤ '9'.toUInt8) ∨ ('A'.toUInt8 ≤ b ∧ b ≤ 'Z'.toUInt8) ∨
    ('a'.toUInt8 ≤ b ∧ b ≤ 'z'.toUInt8) ∨ b = '.'.toUInt8 ∨ b = '_'.toUInt8

/-- A bracket is open at the end of a run. -/
def EndsOpen (run : List UInt8) : Prop :=
  run.count ']'.toUInt8 < run.count '['.toUInt8

instance (run : List UInt8) : Decidable (EndsOpen run) :=
  inferInstanceAs (Decidable (_ < _))

/-- A byte that continues a run: one of a name, a bracket right after the `$`, or a bracket while
another one is open. -/
inductive Continues (run : List UInt8) : UInt8 → Prop where
  | name {b : UInt8} : IsNameByte b → Continues run b
  | first : run = [] → Continues run '['.toUInt8
  | opening : EndsOpen run → Continues run '['.toUInt8
  | closing : EndsOpen run → Continues run ']'.toUInt8

/-- The runs of bytes that a reference may consist of after its `$`. -/
inductive Accepted : List UInt8 → Prop where
  | nil : Accepted []
  | snoc {run : List UInt8} {b : UInt8} : Accepted run → Continues run b → Accepted (run ++ [b])

/-- The longest accepted run at the start of some bytes. -/
structure LongestRun (run bytes : List UInt8) : Prop where
  accepted : Accepted run
  starts : run <+: bytes
  longest : ∀ other, Accepted other → other <+: bytes → other <+: run

/-- What follows a `$` that starts no reference: the end, a byte that is neither of a name nor an
opening bracket, an opening bracket and then no byte of a name and no bracket, or `[]` and then no
byte of a name. -/
inductive StartsNone : List UInt8 → Prop where
  | here {rest : List UInt8} : (∀ b ∈ rest.head?, ¬IsNameByte b ∧ b ≠ '['.toUInt8) →
      StartsNone rest
  | opened {rest : List UInt8} :
      (∀ b ∈ rest.head?, ¬IsNameByte b ∧ b ≠ '['.toUInt8 ∧ b ≠ ']'.toUInt8) →
      StartsNone ('['.toUInt8 :: rest)
  | closed {rest : List UInt8} : (∀ b ∈ rest.head?, ¬IsNameByte b) →
      StartsNone ('['.toUInt8 :: ']'.toUInt8 :: rest)

@[simp]
theorem utf8_nil : utf8 [] = [] :=
  rfl

@[simp]
theorem utf8_append (cs ds : List Char) : utf8 (cs ++ ds) = utf8 cs ++ utf8 ds :=
  List.flatMap_append

theorem utf8_cons (c : Char) (cs : List Char) :
    utf8 (c :: cs) = String.utf8EncodeChar c ++ utf8 cs :=
  rfl

theorem length_utf8 (cs : List Char) : (utf8 cs).length = byteLength cs := by
  induction cs with
  | nil => rfl
  | cons c cs ih =>
    rw [utf8_cons, List.length_append, String.length_utf8EncodeChar, ih, byteLength]

/-- The bytes of its characters are what a text is stored as. -/
theorem toByteArray_eq_utf8 (text : String) :
    text.toByteArray = (utf8 text.toList).toByteArray := by
  have hstored := String.toByteArray_ofList (l := text.toList)
  rwa [String.ofList_toList] at hstored

/-! ### ASCII bytes and characters -/

theorem utf8EncodeChar_of_ascii {c : Char} (h : c.toNat < 128) :
    String.utf8EncodeChar c = [c.toUInt8] := by
  have hsize : c.utf8Size = 1 := by
    rw [Char.utf8Size_eq_one_iff, UInt32.le_iff_toNat_le]
    exact Nat.le_of_lt_succ h
  exact String.utf8EncodeChar_eq_singleton hsize

theorem toNat_toUInt8_of_ascii {c : Char} (h : c.toNat < 128) : c.toUInt8.toNat = c.toNat := by
  show c.val.toUInt8.toNat = c.val.toNat
  rw [UInt32.toNat_toUInt8]
  exact Nat.mod_eq_of_lt (Nat.lt_trans h (by decide))

/-- The bytes of a character that is not ASCII are not ASCII either. -/
theorem le_of_mem_utf8EncodeChar {c : Char} (h : 128 ≤ c.toNat) {b : UInt8}
    (hb : b ∈ String.utf8EncodeChar c) : 128 ≤ b.toNat := by
  have hval : ¬c.val.toNat ≤ 127 := Nat.not_le.mpr h
  simp only [String.utf8EncodeChar, hval, if_false] at hb
  split at hb
  · simp only [List.mem_cons, List.not_mem_nil, or_false] at hb
    rcases hb with rfl | rfl <;> rw [UInt8.toNat_ofNat'] <;> omega
  · split at hb
    · simp only [List.mem_cons, List.not_mem_nil, or_false] at hb
      rcases hb with rfl | rfl | rfl <;> rw [UInt8.toNat_ofNat'] <;> omega
    · simp only [List.mem_cons, List.not_mem_nil, or_false] at hb
      rcases hb with rfl | rfl | rfl | rfl <;> rw [UInt8.toNat_ofNat'] <;> omega

/-- A byte below 128 in the encoding of a character is that character. -/
theorem utf8EncodeChar_of_mem {c : Char} {b : UInt8} (hb : b ∈ String.utf8EncodeChar c)
    (h : b.toNat < 128) : String.utf8EncodeChar c = [b] ∧ b.toNat = c.toNat := by
  have hascii : c.toNat < 128 := by
    by_contra hge
    have := le_of_mem_utf8EncodeChar (Nat.not_lt.mp hge) hb
    omega
  rw [utf8EncodeChar_of_ascii hascii] at hb ⊢
  obtain rfl := List.mem_singleton.mp hb
  exact ⟨rfl, toNat_toUInt8_of_ascii hascii⟩

/-- The first byte of a text and its first character are the same ASCII character, or neither is
ASCII. -/
theorem toNat_head_utf8 {c : Char} {cs : List Char} {b : UInt8} (h : b ∈ (utf8 (c :: cs)).head?) :
    b.toNat = c.toNat ∨ 128 ≤ b.toNat ∧ 128 ≤ c.toNat := by
  have hmem : b ∈ String.utf8EncodeChar c := by
    obtain ⟨d, others, hchar⟩ := List.exists_cons_of_ne_nil (String.utf8EncodeChar_ne_nil (c := c))
    rw [utf8_cons, hchar, List.cons_append, List.head?_cons, Option.mem_some_iff] at h
    rw [hchar, h]
    exact List.mem_cons_self
  by_cases hascii : c.toNat < 128
  · rw [utf8EncodeChar_of_ascii hascii, List.mem_singleton] at hmem
    left
    rw [hmem, toNat_toUInt8_of_ascii hascii]
  · right
    exact ⟨le_of_mem_utf8EncodeChar (Nat.not_lt.mp hascii) hmem, Nat.not_lt.mp hascii⟩

/-- Bytes below 128 stand for characters of their own, wherever they are. -/
theorem exists_chars_of_utf8_eq {cs : List Char} {front back : List UInt8} {b : UInt8}
    (h : utf8 cs = front ++ b :: back) (hb : b.toNat < 128) :
    ∃ before c after, cs = before ++ c :: after ∧ utf8 before = front ∧
      String.utf8EncodeChar c = [b] := by
  induction cs generalizing front with
  | nil => simp at h
  | cons c cs ih =>
    rw [utf8_cons] at h
    obtain ⟨others, hfront, hrest⟩ | ⟨others, hchar, hrest⟩ := List.append_eq_append_iff.mp h
    · obtain ⟨before, d, after, rfl, hbefore, hd⟩ := ih hrest
      exact ⟨c :: before, d, after, rfl, by rw [utf8_cons, hbefore, hfront], hd⟩
    · cases others with
      | nil =>
        rw [List.append_nil] at hchar
        have hlater : utf8 cs = [] ++ b :: back := hrest.symm
        obtain ⟨before, d, after, rfl, hbefore, hd⟩ := ih hlater
        refine ⟨c :: before, d, after, rfl, ?_, hd⟩
        rw [utf8_cons, hbefore, hchar, List.append_nil]
      | cons d others =>
        obtain ⟨rfl, -⟩ := List.cons.inj hrest
        have hmem : b ∈ String.utf8EncodeChar c := by simp [hchar]
        obtain ⟨hsingle, -⟩ := utf8EncodeChar_of_mem hmem hb
        rw [hsingle] at hchar
        have hnil : front = [] := by
          cases front with
          | nil => rfl
          | cons e front => simp at hchar
        exact ⟨[], c, cs, rfl, hnil.symm, hsingle⟩

/-- The bytes of an ASCII character are counted with the character. -/
theorem count_utf8 {d : Char} (hd : d.toNat < 128) (cs : List Char) :
    (utf8 cs).count d.toUInt8 = cs.count d := by
  induction cs with
  | nil => rfl
  | cons c cs ih =>
    rw [utf8_cons, List.count_append, ih, List.count_cons, Nat.add_comm]
    congr 1
    by_cases heq : c = d
    · rw [heq, utf8EncodeChar_of_ascii hd]
      simp
    · have hnot : d.toUInt8 ∉ String.utf8EncodeChar c := by
        intro hmem
        have hbyte := toNat_toUInt8_of_ascii hd
        obtain ⟨-, hc⟩ := utf8EncodeChar_of_mem hmem (by omega)
        exact heq (Char.toNat_inj.mp (hc.symm.trans hbyte))
      rw [List.count_eq_zero_of_not_mem hnot, if_neg (by simpa using heq)]

/-! ### Accepted runs -/

theorem isNameByte_iff_toNat {b : UInt8} :
    IsNameByte b ↔ 48 ≤ b.toNat ∧ b.toNat ≤ 57 ∨ 65 ≤ b.toNat ∧ b.toNat ≤ 90 ∨
      97 ≤ b.toNat ∧ b.toNat ≤ 122 ∨ b.toNat = 46 ∨ b.toNat = 95 := by
  simp only [IsNameByte, UInt8.le_iff_toNat_le, ← UInt8.toNat_inj]
  exact Iff.rfl

theorem isNameChar_iff_toNat {c : Char} :
    isNameChar c = true ↔ 48 ≤ c.toNat ∧ c.toNat ≤ 57 ∨ 65 ≤ c.toNat ∧ c.toNat ≤ 90 ∨
      97 ≤ c.toNat ∧ c.toNat ≤ 122 ∨ c.toNat = 46 ∨ c.toNat = 95 := by
  have hdigit : c.isDigit = true ↔ 48 ≤ c.toNat ∧ c.toNat ≤ 57 := Char.isDigit_iff_toNat
  have hpoint : (c == '.') = true ↔ c.toNat = 46 := beq_iff_eq.trans Char.toNat_inj.symm
  have hunderscore : (c == '_') = true ↔ c.toNat = 95 := beq_iff_eq.trans Char.toNat_inj.symm
  show (((c.isUpper || c.isLower) || c.isDigit) || c == '.' || c == '_') = true ↔ _
  rw [Bool.or_eq_true, Bool.or_eq_true, Bool.or_eq_true, Bool.or_eq_true, isUpper_iff_toNat,
    isLower_iff_toNat, hdigit, hpoint, hunderscore]
  omega

theorem IsNameByte.toNat_lt {b : UInt8} (h : IsNameByte b) : b.toNat < 128 := by
  have hrange := isNameByte_iff_toNat.mp h
  omega

/-- Brackets are no bytes of names. -/
theorem IsNameByte.ne_bracket {b : UInt8} (h : IsNameByte b) :
    b ≠ '['.toUInt8 ∧ b ≠ ']'.toUInt8 := by
  have hrange := isNameByte_iff_toNat.mp h
  constructor
  · rintro rfl
    exact absurd hrange (by decide)
  · rintro rfl
    exact absurd hrange (by decide)

/-- The bytes of names are those of the characters of names. -/
theorem isNameByte_iff {c : Char} {b : UInt8} (h : b.toNat = c.toNat) :
    IsNameByte b ↔ isNameChar c = true := by
  rw [isNameByte_iff_toNat, isNameChar_iff_toNat, h]

theorem Continues.toNat_lt {run : List UInt8} {b : UInt8} (h : Continues run b) :
    b.toNat < 128 := by
  cases h with
  | name hname => exact hname.toNat_lt
  | first => decide
  | opening => decide
  | closing => decide

theorem Accepted.toNat_lt {run : List UInt8} (h : Accepted run) : ∀ b ∈ run, b.toNat < 128 := by
  induction h with
  | nil => simp
  | snoc hrun hb ih =>
    intro d hd
    rcases List.mem_append.mp hd with hd | hd
    · exact ih d hd
    · rw [List.mem_singleton.mp hd]
      exact hb.toNat_lt

/-- Each byte of an accepted run continues the run in front of it. -/
theorem Accepted.continues {front back : List UInt8} {b : UInt8}
    (h : Accepted (front ++ b :: back)) : Continues front b := by
  generalize hrun : front ++ b :: back = run at h
  induction h generalizing back with
  | nil => simp at hrun
  | @snoc run d hrun' hd ih =>
    obtain rfl | ⟨others, e, rfl⟩ := List.eq_nil_or_concat back
    · obtain ⟨rfl, heq⟩ := List.append_inj' hrun rfl
      obtain rfl : b = d := List.singleton_inj.mp heq
      exact hd
    · have hshorter : front ++ b :: others = run := by
        have hlast : (front ++ b :: others) ++ [e] = run ++ [d] := by simpa using hrun
        exact (List.append_inj' hlast rfl).1
      exact ih hshorter

/-- An accepted run that no byte after it continues is the longest one. -/
theorem longestRun_of_stops {run rest : List UInt8} (h : Accepted run)
    (hstops : ∀ b ∈ rest.head?, ¬Continues run b) : LongestRun run (run ++ rest) := by
  refine ⟨h, List.prefix_append run rest, ?_⟩
  intro other hother hstart
  have hrun : run <+: run ++ rest := List.prefix_append run rest
  obtain hle | ⟨later, hlater⟩ := List.prefix_or_prefix_of_prefix hstart hrun
  · exact hle
  · cases later with
    | nil => simp [← hlater]
    | cons b later =>
      obtain ⟨last, hlast⟩ := hstart
      rw [← hlater] at hother hlast
      have hb : rest = b :: (later ++ last) := by simpa using hlast.symm
      exact absurd hother.continues (hstops b (by simp [hb]))

/-! ### The run that is read -/

/-- A byte of a name at the start of a text is the character there. -/
theorem isNameChar_of_head {c : Char} {cs : List Char} {b : UInt8} (hb : b ∈ (utf8 (c :: cs)).head?)
    (h : IsNameByte b) : isNameChar c = true := by
  obtain heq | hge := toNat_head_utf8 hb
  · exact (isNameByte_iff heq).mp h
  · exact absurd h.toNat_lt (Nat.not_lt.mpr hge.1)

/-- An ASCII byte at the start of a text is the character there. -/
theorem eq_of_head {c d : Char} {cs : List Char} (h : d.toUInt8 ∈ (utf8 (c :: cs)).head?)
    (hd : d.toNat < 128) : c = d := by
  have hbyte := toNat_toUInt8_of_ascii hd
  obtain heq | hge := toNat_head_utf8 h
  · exact Char.toNat_inj.mp (heq.symm.trans hbyte)
  · omega

theorem utf8_cons_of_ascii {c : Char} (h : c.toNat < 128) (cs : List Char) :
    utf8 (c :: cs) = c.toUInt8 :: utf8 cs := by
  rw [utf8_cons, utf8EncodeChar_of_ascii h]
  rfl

theorem toNat_lt_of_isNameChar {c : Char} (h : isNameChar c = true) : c.toNat < 128 := by
  have hrange := isNameChar_iff_toNat.mp h
  omega

theorem isNameByte_toUInt8 {c : Char} (h : isNameChar c = true) : IsNameByte c.toUInt8 :=
  (isNameByte_iff (toNat_toUInt8_of_ascii (toNat_lt_of_isNameChar h))).mpr h

/-- After an accepted run with as many open brackets as the depth says, reading on takes an
accepted run that the next byte does not continue. -/
theorem accepted_scanBrackets (depth : Nat) (cs : List Char) {front : List UInt8}
    (hfront : Accepted front)
    (hdepth : front.count '['.toUInt8 = depth + front.count ']'.toUInt8)
    (hfirst : front = [] → ∀ others, cs ≠ '[' :: others) :
    Accepted (front ++ utf8 (scanBrackets depth cs).1) ∧
      ∀ b ∈ (utf8 (scanBrackets depth cs).2.2).head?,
        ¬Continues (front ++ utf8 (scanBrackets depth cs).1) b := by
  fun_induction scanBrackets depth cs generalizing front with
  | case1 depth =>
    rw [utf8_nil, List.append_nil]
    exact ⟨hfront, by simp⟩
  | case2 depth c cs hopen taken left rest heq ih =>
    obtain ⟨rfl, hpos⟩ := hopen
    have hnext : Accepted (front ++ ['['.toUInt8]) :=
      hfront.snoc (.opening (by rw [EndsOpen]; omega))
    have hcount : (front ++ ['['.toUInt8]).count '['.toUInt8 =
        depth + 1 + (front ++ ['['.toUInt8]).count ']'.toUInt8 := by
      rw [List.count_append, List.count_append, hdepth]
      show depth + front.count ']'.toUInt8 + 1 = depth + 1 + (front.count ']'.toUInt8 + 0)
      omega
    have hread := ih hnext hcount (by simp)
    rw [heq] at hread
    rw [utf8_cons_of_ascii (by decide)]
    simpa using hread
  | case3 depth c cs _ hclose taken left rest heq ih =>
    obtain ⟨rfl, hpos⟩ := hclose
    have hnext : Accepted (front ++ [']'.toUInt8]) :=
      hfront.snoc (.closing (by rw [EndsOpen]; omega))
    have hcount : (front ++ [']'.toUInt8]).count '['.toUInt8 =
        depth - 1 + (front ++ [']'.toUInt8]).count ']'.toUInt8 := by
      rw [List.count_append, List.count_append, hdepth]
      show depth + front.count ']'.toUInt8 + 0 = depth - 1 + (front.count ']'.toUInt8 + 1)
      omega
    have hread := ih hnext hcount (by simp)
    rw [heq] at hread
    rw [utf8_cons_of_ascii (by decide)]
    simpa using hread
  | case4 depth c cs _ _ hname taken left rest heq ih =>
    have hbyte := isNameByte_toUInt8 hname
    have hnext : Accepted (front ++ [c.toUInt8]) := hfront.snoc (.name hbyte)
    have hcount : (front ++ [c.toUInt8]).count '['.toUInt8 =
        depth + (front ++ [c.toUInt8]).count ']'.toUInt8 := by
      rw [List.count_append, List.count_append, List.count_singleton, List.count_singleton,
        beq_false_of_ne hbyte.ne_bracket.1, beq_false_of_ne hbyte.ne_bracket.2]
      exact hdepth
    have hread := ih hnext hcount (by simp)
    rw [heq] at hread
    rw [utf8_cons_of_ascii (toNat_lt_of_isNameChar hname)]
    simpa using hread
  | case5 depth c cs hopen hclose hname =>
    rw [utf8_nil, List.append_nil]
    refine ⟨hfront, ?_⟩
    intro b hb hcontinues
    cases hcontinues with
    | name hbyte => exact hname (isNameChar_of_head hb hbyte)
    | first hnil =>
      obtain rfl := eq_of_head hb (by decide)
      exact hfirst hnil cs rfl
    | opening hends =>
      rw [EndsOpen] at hends
      exact hopen ⟨eq_of_head hb (by decide), by omega⟩
    | closing hends =>
      rw [EndsOpen] at hends
      exact hclose ⟨eq_of_head hb (by decide), by omega⟩

theorem scanBrackets_zero (cs : List Char) :
    scanBrackets 0 cs = (cs.takeWhile isNameChar, 0, cs.dropWhile isNameChar) := by
  induction cs with
  | nil => rfl
  | cons c cs ih => by_cases hname : isNameChar c = true <;> simp [scanBrackets, ih, hname]

/-- The text of a reference is an accepted run that the next byte does not continue. -/
theorem accepted_scan (cs : List Char) :
    Accepted (utf8 (scan cs).text) ∧
      ∀ b ∈ (utf8 (scan cs).rest).head?, ¬Continues (utf8 (scan cs).text) b := by
  by_cases hbracket : ∃ others, cs = '[' :: others
  · obtain ⟨others, rfl⟩ := hbracket
    have hopened : Accepted ['['.toUInt8] := Accepted.nil.snoc (.first rfl)
    have hread := accepted_scanBrackets 1 others hopened rfl (by simp)
    rw [scan_bracket, utf8_cons_of_ascii (by decide)]
    exact hread
  · have hfirst : ∀ others, cs ≠ '[' :: others := fun others heq ↦ hbracket ⟨others, heq⟩
    have hread := accepted_scanBrackets 0 cs .nil rfl fun _ ↦ hfirst
    rw [scanBrackets_zero] at hread
    rw [scan_of_ne hfirst]
    exact hread

theorem utf8_text_append_rest (cs : List Char) :
    utf8 (scan cs).text ++ utf8 (scan cs).rest = utf8 cs := by
  rw [← utf8_append, text_append_rest]

/-- A reference is read as far as it goes. -/
theorem longestRun_scan (cs : List Char) : LongestRun (utf8 (scan cs).text) (utf8 cs) := by
  obtain ⟨haccepted, hstops⟩ := accepted_scan cs
  rw [← utf8_text_append_rest cs]
  exact longestRun_of_stops haccepted hstops

/-- Where no name follows a `$`, nothing follows that starts a reference. -/
theorem startsNone_of_unnamed {cs : List Char} (h : (scan cs).name = []) :
    StartsNone (utf8 cs) := by
  have hstops := (accepted_scan cs).2
  rw [← utf8_text_append_rest cs]
  generalize utf8 (scan cs).rest = rest at hstops ⊢
  obtain htext | htext | htext := text_eq_of_unnamed h
  · rw [htext] at hstops ⊢
    refine .here fun b hb ↦ ⟨fun hname ↦ hstops b hb (.name hname), ?_⟩
    rintro rfl
    exact hstops _ hb (.first rfl)
  · rw [htext] at hstops ⊢
    refine .opened fun b hb ↦ ⟨fun hname ↦ hstops b hb (.name hname), ?_, ?_⟩
    · rintro rfl
      exact hstops _ hb (.opening (by decide))
    · rintro rfl
      exact hstops _ hb (.closing (by decide))
  · rw [htext] at hstops ⊢
    exact .closed fun b hb hname ↦ hstops b hb (.name hname)

/-! ### Character boundaries -/

/-- The end of characters at the start of a text is a character boundary. -/
theorem isValid_of_toList_eq {text : String} {before after : List Char}
    (h : text.toList = before ++ after) :
    String.Pos.Raw.IsValid text ⟨(utf8 before).length⟩ := by
  rw [String.Pos.Raw.isValid_iff_exists_append]
  refine ⟨String.ofList before, String.ofList after, ?_, ?_⟩
  · rw [← String.ofList_append, ← h, String.ofList_toList]
  · apply String.Pos.Raw.ext
    show (utf8 before).length = (String.ofList before).toByteArray.size
    rw [toByteArray_eq_utf8, String.toList_ofList, List.size_toByteArray]

/-- The positions in front of an ASCII byte and after it are character boundaries. -/
theorem isValid_of_ascii {text : String} {front back : List UInt8} {b : UInt8}
    (h : utf8 text.toList = front ++ b :: back) (hb : b.toNat < 128) :
    String.Pos.Raw.IsValid text ⟨front.length⟩ ∧
      String.Pos.Raw.IsValid text ⟨front.length + 1⟩ := by
  obtain ⟨before, c, after, hchars, rfl, hc⟩ := exists_chars_of_utf8_eq h hb
  constructor
  · exact isValid_of_toList_eq hchars
  · have hlength : (utf8 (before ++ [c])).length = (utf8 before).length + 1 := by
      rw [utf8_append, utf8_cons, hc]
      simp
    rw [← hlength]
    exact isValid_of_toList_eq (by simpa using hchars)

/-- Each position in a run after a `$` is a character boundary. -/
theorem isValid_of_accepted {text : String} {front run back : List UInt8}
    (h : utf8 text.toList = front ++ '$'.toUInt8 :: (run ++ back)) (hrun : Accepted run) {k : Nat}
    (hk : k ≤ run.length) : String.Pos.Raw.IsValid text ⟨front.length + 1 + k⟩ := by
  cases k with
  | zero => exact (isValid_of_ascii h (by decide)).2
  | succ k =>
    -- the byte in front of the position is one of the run
    have hrunSplit : run ++ back = run.take k ++ run[k] :: (run.drop (k + 1) ++ back) := by
      rw [← List.cons_append, ← List.drop_eq_getElem_cons hk, ← List.append_assoc,
        List.take_append_drop]
    have hsplit : utf8 text.toList =
        (front ++ '$'.toUInt8 :: run.take k) ++ run[k] :: (run.drop (k + 1) ++ back) := by
      rw [h, hrunSplit, List.append_assoc, List.cons_append]
    have hvalid := (isValid_of_ascii hsplit (hrun.toNat_lt _ (List.getElem_mem hk))).2
    have hlength : (front ++ '$'.toUInt8 :: run.take k).length = front.length + 1 + k := by
      simp only [List.length_append, List.length_cons, List.length_take]
      omega
    rw [hlength] at hvalid
    exact hvalid

end FlowGate.Reference
