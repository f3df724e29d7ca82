import SubrLang.Proofs.TokenSpans

/-!
# Tokens do not depend on layout

The texts of the tokens of a source, written one after another with a space between neighbours, are scanned
into the same tokens.

**Scanners.** A scanner looks past the end of its token: a word ends at the first character that is not in
it, a number at one that is neither a digit nor a point nor an exponent. `Lexeme.Stable` says that a space,
or the end of the source, in that position changes nothing. Each scanner is stable, so the first lexeme of
a source is (`Lexeme.stable_first`). Lexemes with an error are not: `:` alone is reported, and the space
behind it cannot stand for what was missing.

**Places.** `Place.text` reads the characters at a place by counting lines and columns from the start of the
source. No two places of a source have the same line and column (`Cursor.after_cases`), so it finds the
characters that the token was cut from (`Cursor.seek_append`).

**Sources.** `Lexeme.Spells` is what a token needs to be found again, and every token of a source without
errors has it (`Scan.spells_from`). Spelled tokens are found again one by one (`Scan.from_spaced`).
-/

namespace SubrLang

/-! ## Scanners -/

namespace Lexeme

/-- Nothing follows, or a space does. -/
def Apart (rest : List Char) : Prop := ∀ d ∈ rest.head?, d = ' '

/-- A scanner that finds a token without an error finds it again in front of a space or at the end of the
source. -/
def Stable (scanner : List Char → Lexeme) : Prop :=
  ∀ cs, (scanner cs).token.isSome → (scanner cs).error = none → ∀ rest, Apart rest →
    scanner (cs.take (scanner cs).extra ++ rest) = scanner cs

variable {c : Char} {cs w rest : List Char} {p : Char → Bool}

lemma Apart.stop (h : Apart rest) (hp : p ' ' = false) : ∀ d ∈ rest.head?, p d = false := by
  intro d hd
  rw [h d hd, hp]

/-- A class of characters takes all of `w` if what follows starts with a character outside of it. -/
lemma takeWhile_append_stop (hw : ∀ d ∈ w, p d) (hstop : ∀ d ∈ rest.head?, p d = false) :
    (w ++ rest).takeWhile p = w := by
  rw [List.takeWhile_append_of_pos hw]
  cases rest with
  | nil => simp
  | cons d rest => simp [hstop d rfl]

/-- A text splits into what a class of characters takes and a rest that starts outside of it. -/
lemma exists_takeWhile_append (p : Char → Bool) (cs : List Char) :
    ∃ w tail, cs = w ++ tail ∧ (∀ d ∈ w, p d) ∧ ∀ d ∈ tail.head?, p d = false := by
  refine ⟨cs.takeWhile p, cs.dropWhile p, List.takeWhile_append_dropWhile.symm,
    fun _ => List.mem_takeWhile_imp, ?_⟩
  intro d hd
  have hnot := List.head?_dropWhile_not p cs
  rw [Option.mem_def.mp hd] at hnot
  simpa using hnot

lemma stable_mark (k : TokenKind) : Stable fun _ => mark k :=
  fun _ _ _ _ _ => rfl

lemma stable_of_token {scanner : List Char → Lexeme} (h : ∀ cs, (scanner cs).token = none) :
    Stable scanner := by
  intro cs htoken
  simp [h] at htoken

lemma isDigit_space : Text.isDigit ' ' = false := by decide +kernel

lemma inWord_space : inWord ' ' = false := by decide +kernel

/-- A word ends where its characters end. -/
lemma word_append (hw : ∀ d ∈ w, inWord d) (hstop : ∀ d ∈ rest.head?, inWord d = false) :
    word c (w ++ rest) = word c w ∧ (word c w).extra = w.length := by
  have hall : w.takeWhile inWord = w := List.takeWhile_eq_self_iff.mpr hw
  unfold word
  rw [takeWhile_append_stop hw hstop, hall]
  refine ⟨rfl, ?_⟩
  dsimp only
  split <;> rfl

lemma stable_word : Stable (word c) := by
  intro cs _ _ rest hrest
  obtain ⟨w, tail, rfl, hw, hstop⟩ := exists_takeWhile_append inWord cs
  obtain ⟨heq, hextra⟩ := word_append (c := c) hw hstop
  rw [heq, hextra, List.take_left, (word_append hw (hrest.stop inWord_space)).1]

lemma stable_twoOr {next : Char} {double : TokenKind} {single : Lexeme} (hnext : next ≠ ' ')
    (hextra : single.extra = 0) : Stable (twoOr next double single) := by
  intro cs _ _ rest hrest
  unfold twoOr
  by_cases h : cs.head? = some next
  · obtain ⟨cs, rfl⟩ : ∃ ds, cs = next :: ds := List.head?_eq_some_iff.mp h
    simp [mark]
  · have hne : rest.head? ≠ some next := fun heq => hnext (hrest next heq)
    simp [h, hextra, hne]

lemma separator_plain (h : ∀ d ∈ cs.head?, d ≠ 's' ∧ d ≠ 'n' ∧ d ≠ 't') :
    separator cs = mark .printSep := by
  unfold separator
  split
  · exact absurd rfl (h _ rfl).1
  · exact absurd rfl (h _ rfl).2.1
  · exact absurd rfl (h _ rfl).2.2
  · rfl

lemma stable_separator : Stable separator := by
  intro cs _ _ rest hrest
  by_cases hplain : ∀ d ∈ cs.head?, d ≠ 's' ∧ d ≠ 'n' ∧ d ≠ 't'
  · rw [separator_plain hplain]
    refine separator_plain fun d hd => ?_
    rw [hrest d hd]
    decide
  · push Not at hplain
    obtain ⟨d, hd, hletter⟩ := hplain
    obtain ⟨ds, rfl⟩ := List.head?_eq_some_iff.mp hd
    by_cases hs : d = 's'
    · subst hs
      rfl
    by_cases hn : d = 'n'
    · subst hn
      rfl
    obtain rfl := hletter hs hn
    rfl

lemma string_append (hw : ∀ d ∈ w, d != '"' && d != '\n') (tail : List Char) :
    string (w ++ '"' :: tail) = ⟨w.length + 1, some (.string, String.ofList w), none⟩ := by
  unfold string
  rw [takeWhile_append_stop hw (by simp)]
  simp

lemma stable_string : Stable string := by
  intro cs _ herror rest _
  obtain ⟨w, tail, rfl, hw, hstop⟩ := exists_takeWhile_append (fun d => d != '"' && d != '\n') cs
  obtain ⟨tail, rfl⟩ : ∃ ds, tail = '"' :: ds := by
    unfold string at herror
    rw [takeWhile_append_stop hw hstop] at herror
    dsimp only at herror
    rw [List.drop_left] at herror
    split at herror
    · exact ⟨_, rfl⟩
    · cases herror
  rw [string_append hw, List.take_length_add_append]
  simpa using string_append hw rest

lemma stable_character : Stable character := by
  intro cs _ herror rest _
  unfold character at herror
  split at herror
  · cases herror
  split at herror
  · cases herror
  split at herror
  · next d cs hd hquote =>
    obtain ⟨cs, rfl⟩ := List.head?_eq_some_iff.mp (eq_of_beq hquote)
    simp [character, hd]
  · cases herror

lemma stable_octal : Stable octal := by
  intro cs _ _ rest hrest
  set digits := (cs.take 3).takeWhile fun c => '0' ≤ c && c ≤ '7' with hdigits
  have hextra : (octal cs).extra = digits.length := by
    unfold octal
    dsimp only
    rw [← hdigits]
    split
    · next hempty => simp [List.isEmpty_iff.mp hempty]
    · split <;> rfl
  have hlen : digits.length ≤ 3 := (length_takeWhile_le _ _).trans (List.length_take_le 3 cs)
  have htake : cs.take digits.length = digits := by
    have hprefix := take_length_takeWhile (fun c => '0' ≤ c && c ≤ '7') (cs.take 3)
    rw [← hdigits, List.take_take, Nat.min_eq_left hlen] at hprefix
    exact hprefix
  have hagain : ((digits ++ rest).take 3).takeWhile (fun c => '0' ≤ c && c ≤ '7') = digits := by
    rw [List.take_append, List.take_of_length_le hlen]
    refine takeWhile_append_stop (fun _ => List.mem_takeWhile_imp) fun d hd => ?_
    have hspace : d = ' ' := by
      refine hrest d ?_
      rw [List.head?_take] at hd
      split at hd
      · cases hd
      · exact hd
    rw [hspace]
    decide
  rw [hextra, htake]
  unfold octal
  rw [hagain]

/-- A float constant that no exponent follows. -/
lemma exponent_plain {seen : List Char} (h : ∀ d ∈ cs.head?, d ≠ 'e' ∧ d ≠ 'E') :
    exponent seen cs = ⟨seen.length - 1, some (.floatNumber, String.ofList seen), none⟩ := by
  cases cs with
  | nil => simp [exponent]
  | cons d cs => simp [exponent, h d rfl]

/-- A text splits into the sign that it starts with, if any, and the rest. -/
lemma exists_sign_append (cs : List Char) : ∃ sign tail, cs = sign ++ tail ∧
    (sign = [] ∨ sign = ['+'] ∨ sign = ['-']) ∧
      (cs.take 1).filter (fun c => c == '+' || c == '-') = sign := by
  cases cs with
  | nil => exact ⟨[], [], rfl, .inl rfl, rfl⟩
  | cons d cs =>
    by_cases hplus : d = '+'
    · exact ⟨['+'], cs, by rw [hplus]; rfl, .inr (.inl rfl), by simp [hplus]⟩
    by_cases hminus : d = '-'
    · exact ⟨['-'], cs, by rw [hminus]; rfl, .inr (.inr rfl), by simp [hminus]⟩
    exact ⟨[], d :: cs, rfl, .inl rfl, by simp [hplus, hminus]⟩

lemma exponent_append {seen sign digits : List Char} {e : Char} (he : e = 'e' ∨ e = 'E')
    (hsign : sign = [] ∨ sign = ['+'] ∨ sign = ['-']) (hdigits : ∀ d ∈ digits, Text.isDigit d)
    (hne : digits ≠ []) (hstop : ∀ d ∈ rest.head?, Text.isDigit d = false) :
    exponent seen (e :: (sign ++ digits) ++ rest) =
      ⟨seen.length + (e :: (sign ++ digits)).length - 1,
        some (.floatNumber, String.ofList (seen ++ e :: (sign ++ digits))), none⟩ := by
  obtain ⟨d, digits, rfl⟩ := List.exists_cons_of_ne_nil hne
  have hd : d ≠ '+' ∧ d ≠ '-' := by
    have hdigit := hdigits d List.mem_cons_self
    constructor <;> rintro rfl <;> revert hdigit <;> decide +kernel
  have hspan : (d :: digits ++ rest).takeWhile Text.isDigit = d :: digits :=
    takeWhile_append_stop hdigits hstop
  rw [List.cons_append] at hspan
  rcases hsign with rfl | rfl | rfl <;> simp [exponent, he, hd, hspan]

/-- An exponent that is accepted has digits. -/
lemma exponent_cases {seen : List Char} (herror : (exponent seen cs).error = none) :
    (∀ d ∈ cs.head?, d ≠ 'e' ∧ d ≠ 'E') ∨
      ∃ e sign digits tail, cs = e :: (sign ++ digits) ++ tail ∧ (e = 'e' ∨ e = 'E') ∧
        (sign = [] ∨ sign = ['+'] ∨ sign = ['-']) ∧ (∀ d ∈ digits, Text.isDigit d) ∧ digits ≠ [] ∧
        ∀ d ∈ tail.head?, Text.isDigit d = false := by
  refine or_iff_not_imp_left.mpr fun hplain => ?_
  push Not at hplain
  obtain ⟨e, he, hletter⟩ := hplain
  obtain ⟨cs, rfl⟩ := List.head?_eq_some_iff.mp he
  have hexp : e = 'e' ∨ e = 'E' := or_iff_not_imp_left.mpr hletter
  obtain ⟨sign, tail, rfl, hsign, hfilter⟩ := exists_sign_append cs
  obtain ⟨digits, tail, rfl, hdigits, hstop⟩ := exists_takeWhile_append Text.isDigit tail
  refine ⟨e, sign, digits, tail, by simp, hexp, hsign, hdigits, ?_, hstop⟩
  rintro rfl
  have hnone := takeWhile_append_stop hdigits hstop
  unfold exponent at herror
  simp only [hfilter, List.drop_left, hnone] at herror
  rcases hexp with rfl | rfl <;> cases herror

/-- What is taken of an exponent is taken again. -/
lemma exponent_again {seen : List Char} (herror : (exponent seen cs).error = none) :
    ∃ w tail, cs = w ++ tail ∧ (exponent seen cs).extra = seen.length + w.length - 1 ∧
      ∀ rest, Apart rest → exponent seen (w ++ rest) = exponent seen cs := by
  rcases exponent_cases herror with hplain | ⟨e, sign, digits, tail, rfl, hexp, hsign, hdigits, hne, hstop⟩
  · refine ⟨[], cs, rfl, by simp [exponent_plain hplain], fun rest hrest => ?_⟩
    rw [exponent_plain hplain, List.nil_append, exponent_plain]
    intro d hd
    rw [hrest d hd]
    decide
  · rw [exponent_append hexp hsign hdigits hne hstop]
    refine ⟨e :: (sign ++ digits), tail, rfl, rfl, fun rest hrest => ?_⟩
    exact exponent_append hexp hsign hdigits hne (hrest.stop isDigit_space)

lemma number_point {f : List Char} (hw : ∀ d ∈ w, Text.isDigit d) (hf : ∀ d ∈ f, Text.isDigit d)
    (hne : f ≠ []) (hstop : ∀ d ∈ rest.head?, Text.isDigit d = false) :
    number c (w ++ '.' :: (f ++ rest)) = exponent (c :: w ++ '.' :: f) rest := by
  have hpoint : Text.isDigit '.' = false := by decide +kernel
  unfold number
  rw [takeWhile_append_stop hw (by simpa using hpoint)]
  simp [takeWhile_append_stop hf hstop, hne]

lemma number_plain (hw : ∀ d ∈ w, Text.isDigit d) (hstop : ∀ d ∈ rest.head?, Text.isDigit d = false)
    (hpoint : rest.head? ≠ some '.') :
    number c (w ++ rest) = number c w ∧ (number c w).extra = w.length := by
  have hall : w.takeWhile Text.isDigit = w := List.takeWhile_eq_self_iff.mpr hw
  have hdrop : (w ++ rest).drop w.length = rest := List.drop_left
  unfold number
  rw [takeWhile_append_stop hw hstop, hall]
  dsimp only
  rw [List.length_cons, Nat.add_sub_cancel, hdrop, List.drop_length]
  constructor
  · split
    · exact absurd rfl hpoint
    · rfl
  · split
    · next h => cases h
    · split <;> rfl

/-- A number that is accepted and has a point has digits behind it. -/
lemma number_cases (herror : (number c cs).error = none) :
    (∃ w tail, cs = w ++ tail ∧ (∀ d ∈ w, Text.isDigit d) ∧ (∀ d ∈ tail.head?, Text.isDigit d = false) ∧
      tail.head? ≠ some '.') ∨
    ∃ w f tail, cs = w ++ '.' :: (f ++ tail) ∧ (∀ d ∈ w, Text.isDigit d) ∧ (∀ d ∈ f, Text.isDigit d) ∧
      f ≠ [] ∧ ∀ d ∈ tail.head?, Text.isDigit d = false := by
  obtain ⟨w, tail, rfl, hw, hstop⟩ := exists_takeWhile_append Text.isDigit cs
  by_cases hpoint : tail.head? = some '.'
  · obtain ⟨tail, rfl⟩ := List.head?_eq_some_iff.mp hpoint
    obtain ⟨f, tail, rfl, hf, hstop'⟩ := exists_takeWhile_append Text.isDigit tail
    refine .inr ⟨w, f, tail, rfl, hw, hf, ?_, hstop'⟩
    rintro rfl
    have hnone := takeWhile_append_stop hf hstop'
    unfold number at herror
    simp only [takeWhile_append_stop hw hstop, List.length_cons, Nat.add_sub_cancel, List.drop_left,
      hnone] at herror
    cases herror
  · exact .inl ⟨w, tail, rfl, hw, hstop, hpoint⟩

lemma stable_number : Stable (number c) := by
  intro cs _ herror rest hrest
  rcases number_cases herror with ⟨w, tail, rfl, hw, hstop, hpoint⟩ | ⟨w, f, tail, rfl, hw, hf, hne, hstop⟩
  · obtain ⟨heq, hextra⟩ := number_plain (c := c) hw hstop hpoint
    have hpoint' : rest.head? ≠ some '.' := fun h => absurd (hrest _ h) (by decide)
    rw [heq, hextra, List.take_left, (number_plain hw (hrest.stop isDigit_space) hpoint').1]
  · rw [number_point hw hf hne hstop] at herror ⊢
    obtain ⟨v, tail, rfl, hextra, hagain⟩ := exponent_again herror
    have htake : (w ++ '.' :: (f ++ (v ++ tail))).take (exponent (c :: w ++ '.' :: f) (v ++ tail)).extra =
        w ++ '.' :: (f ++ v) := by
      have hcs : w ++ '.' :: (f ++ (v ++ tail)) = w ++ '.' :: (f ++ v) ++ tail := by simp
      have hlen : (exponent (c :: w ++ '.' :: f) (v ++ tail)).extra = (w ++ '.' :: (f ++ v)).length := by
        rw [hextra]
        simp only [List.length_append, List.length_cons]
        omega
      rw [hlen, hcs, List.take_left]
    have hstop' : ∀ d ∈ (v ++ rest).head?, Text.isDigit d = false := by
      cases v with
      | nil => exact hrest.stop isDigit_space
      | cons e v => exact hstop
    rw [htake, ← hagain rest hrest]
    simpa using number_point hw hf hne hstop'

lemma stable_first (c : Char) : Stable (first c) := by
  show Stable fun cs => first c cs
  unfold first
  by_cases h₁ : isLayout c
  · simp only [h₁, if_true]
    exact stable_of_token fun _ => rfl
  by_cases h₂ : c == '#'
  · simp only [h₁, h₂, if_true, if_false, Bool.false_eq_true]
    exact stable_of_token fun _ => rfl
  by_cases h₃ : startsWord c
  · simp only [h₁, h₂, h₃, if_true, if_false, Bool.false_eq_true]
    exact stable_word
  by_cases h₄ : Text.isDigit c
  · simp only [h₁, h₂, h₃, h₄, if_true, if_false, Bool.false_eq_true]
    exact stable_number
  simp only [h₁, h₂, h₃, h₄, if_false, Bool.false_eq_true]
  split
  iterate 11 exact stable_mark _
  iterate 8 exact stable_twoOr (by decide) rfl
  · exact stable_separator
  · exact stable_string
  · exact stable_character
  · exact stable_octal
  · exact stable_of_token fun _ => rfl

/-- A text that is one token wherever nothing or a space follows it. -/
def Spells (text : List Char) (kind : TokenKind) (value : String) : Prop :=
  ∃ c cs, text = c :: cs ∧
    ∀ rest, Apart rest → first c (cs ++ rest) = ⟨cs.length, some (kind, value), none⟩

lemma spells_of_first {kind : TokenKind} {value : String} (htoken : (first c cs).token = some (kind, value))
    (herror : (first c cs).error = none) : Spells (c :: cs.take (first c cs).extra) kind value := by
  refine ⟨c, _, rfl, fun rest hrest => ?_⟩
  have hsize := (cut_first c cs).size
  rw [stable_first c cs (by simp [htoken]) herror rest hrest, List.length_take, Nat.min_eq_left hsize,
    ← htoken, ← herror]

lemma first_layout (h : isLayout c) : first c cs = { extra := (cs.takeWhile isLayout).length } := by
  unfold first
  exact if_pos h

/-- No token starts with layout. -/
lemma Spells.not_isLayout {text : List Char} {kind : TokenKind} {value : String}
    (h : Spells text kind value) : ∀ d ∈ text.head?, isLayout d = false := by
  obtain ⟨c, cs, rfl, hfirst⟩ := h
  rintro _ ⟨⟩
  have hone := hfirst [] (by simp [Apart])
  by_contra hlayout
  rw [first_layout (by simpa using hlayout)] at hone
  cases congrArg Lexeme.token hone

end Lexeme

/-! ## Texts of places -/

namespace Cursor

/-- Behind a text, the cursor is on a later line or further right on the same one. -/
lemma after_cases (p : Cursor) (cs : List Char) : p.line < (p.after cs).line ∨
    p.line = (p.after cs).line ∧ p.column + cs.length = (p.after cs).column := by
  induction cs generalizing p with
  | nil => exact .inr ⟨rfl, rfl⟩
  | cons c cs ih =>
    have hrest := ih (p.next c)
    have hafter : p.after (c :: cs) = (p.next c).after cs := rfl
    have hnext : p.line < (p.next c).line ∨
        p.line = (p.next c).line ∧ p.column + 1 = (p.next c).column := by
      unfold next
      split
      · exact .inl (Nat.lt_succ_self _)
      · exact .inr ⟨rfl, rfl⟩
    rw [hafter, List.length_cons]
    omega

/-- What stands in a text from a place on, if the text starts at `p`. -/
def seek (q : Place) (p : Cursor) : List Char → List Char
  | [] => []
  | c :: cs => if q.line = p.line ∧ q.column = p.column then c :: cs else seek q (p.next c) cs

lemma seek_append {q : Place} {p : Cursor} {xs : List Char} (hline : q.line = (p.after xs).line)
    (hcolumn : q.column = (p.after xs).column) (ys : List Char) : seek q p (xs ++ ys) = ys := by
  induction xs generalizing p with
  | nil =>
    cases ys with
    | nil => rfl
    | cons y ys => exact if_pos ⟨hline, hcolumn⟩
  | cons x xs ih =>
    have hne : ¬ (q.line = p.line ∧ q.column = p.column) := by
      have hcases := p.after_cases (x :: xs)
      rw [List.length_cons] at hcases
      omega
    rw [List.cons_append, seek, if_neg hne]
    exact ih hline hcolumn

end Cursor

/-- The characters of a source at a place. -/
def Place.text (q : Place) (source : List Char) : List Char :=
  (Cursor.seek q {} source).take q.len.toNat

/-! ## Sources -/

namespace Scan

open Lexeme

/-- What the tokens of a source are, wherever they stand. -/
def contents (s : Scan) : List (TokenKind × String) := s.tokens.map fun t => (t.kind, t.value)

/-- The texts of the tokens of a source. The end of input has none. -/
def texts (s : Scan) (source : List Char) : List (List Char) :=
  (s.tokens.filter (·.kind != .eof)).map (·.place.text source)

variable {file : Int} {p : Cursor} {text rest : List Char} {kind : TokenKind} {value : String}

lemma errors_withLexeme_eq_nil {s : Scan} {x : Lexeme} {q : Place} :
    (s.withLexeme x q).errors = [] ↔ x.error = none ∧ s.errors = [] := by
  unfold withLexeme
  cases x.error <;> simp

lemma mem_tokens_withLexeme {s : Scan} {x : Lexeme} {q : Place} {t : Token} :
    t ∈ (s.withLexeme x q).tokens ↔
      (∃ kind value, x.token = some (kind, value) ∧ t = ⟨kind, value, q⟩) ∨ t ∈ s.tokens := by
  unfold withLexeme
  rcases x.token with _ | ⟨kind, value⟩
  · simp
  · simp [Prod.ext_iff]

/-- A spelled token in front of a source that does not touch it. -/
lemma from_spelled (file : Int) (p : Cursor) (h : Spells text kind value) (hrest : Apart rest) :
    Scan.from file p (text ++ rest) =
      (Scan.from file (p.after text) rest).withLexeme ⟨text.length - 1, some (kind, value), none⟩
        (p.place file text.length) := by
  obtain ⟨c, cs, rfl, hfirst⟩ := h
  rw [List.cons_append, Scan.from]
  simp [hfirst rest hrest, withLexeme]

/-- A space in front of a source is passed over alone, unless more layout follows. -/
lemma from_space (h : ∀ c ∈ rest.head?, isLayout c = false) :
    Scan.from file p (' ' :: rest) = Scan.from file (p.after [' ']) rest := by
  have hfirst : first ' ' rest = ⟨0, none, none⟩ := by
    have hnone : rest.takeWhile isLayout = [] := takeWhile_append_stop (w := []) (by simp) h
    rw [first_layout (by decide), hnone]
    rfl
  rw [Scan.from]
  simp [hfirst]

lemma head?_spaced (h : Spells text kind value) (texts : List (List Char)) :
    ([' '].intercalate (text :: texts)).head? = text.head? := by
  obtain ⟨c, cs, rfl, -⟩ := h
  cases texts with
  | nil => rw [List.intercalate_singleton]
  | cons => rw [List.intercalate_cons_cons]; rfl

/-- Tokens that are spelled one after another with a space between neighbours are found again. -/
lemma from_spaced (file : Int) (spelling : Token → List Char) (ts : List Token)
    (h : ∀ t ∈ ts, Spells (spelling t) t.kind t.value) (p : Cursor) :
    (Scan.from file p ([' '].intercalate (ts.map spelling))).errors = [] ∧
      (Scan.from file p ([' '].intercalate (ts.map spelling))).contents =
        ts.map (fun t => (t.kind, t.value)) ++ [(.eof, "")] := by
  induction ts generalizing p with
  | nil =>
    rw [List.map_nil, List.intercalate_nil, Scan.from]
    exact ⟨rfl, rfl⟩
  | cons t ts ih =>
    obtain ⟨ht, hts⟩ := List.forall_mem_cons.mp h
    cases ts with
    | nil =>
      have heq := from_spelled file p ht (show Apart [] by simp [Apart])
      rw [List.append_nil, Scan.from] at heq
      simp only [List.map_cons, List.map_nil, List.intercalate_singleton, heq]
      exact ⟨rfl, rfl⟩
    | cons u us =>
      have hhead : ∀ d ∈ ([' '].intercalate ((u :: us).map spelling)).head?, isLayout d = false := by
        rw [List.map_cons, head?_spaced (hts u List.mem_cons_self)]
        exact (hts u List.mem_cons_self).not_isLayout
      rw [List.map_cons, List.map_cons, List.intercalate_cons_cons, List.append_assoc,
        from_spelled file p ht (by simp [Apart]), List.singleton_append, ← List.map_cons, from_space hhead]
      obtain ⟨herrors, htokens⟩ := ih hts ((p.after (spelling t)).after [' '])
      exact ⟨herrors, congrArg ((t.kind, t.value) :: ·) htokens⟩

/-- Every token of a source without errors is spelled by the characters at its place. -/
lemma spells_from (file : Int) (source : List Char) (p : Cursor) (cs : List Char) :
    ∀ front, source = front ++ cs → p = ({} : Cursor).after front → (Scan.from file p cs).errors = [] →
      ∀ t ∈ (Scan.from file p cs).tokens, t.kind ≠ .eof → Spells (t.place.text source) t.kind t.value := by
  fun_induction Scan.from file p cs with
  | case1 p =>
    intro front _ _ _ t ht hkind
    rw [List.mem_singleton.mp ht] at hkind
    exact absurd rfl hkind
  | case2 p c cs x place rest tokens errors ih =>
    intro front hsource hp herrors t ht hkind
    obtain ⟨herror, hrest⟩ := errors_withLexeme_eq_nil.mp herrors
    have hcut : c :: cs = c :: cs.take x.extra ++ cs.drop x.extra := by simp
    rcases mem_tokens_withLexeme.mp ht with ⟨k, v, htoken, rfl⟩ | ht
    · have htext : place.text source = c :: cs.take x.extra := by
        unfold Place.text
        rw [hsource, Cursor.seek_append (by rw [← hp]; rfl) (by rw [← hp]; rfl)]
        rfl
      rw [htext]
      exact spells_of_first htoken herror
    · refine ih (front ++ c :: cs.take x.extra) ?_ ?_ hrest t ht hkind
      · rw [hsource, hcut]
        simp
      · rw [hp, Cursor.after_append]

/-- The end of input is the last token of a source and no other. -/
lemma contents_from (file : Int) (p : Cursor) (cs : List Char) :
    (Scan.from file p cs).contents = ((Scan.from file p cs).tokens.filter (·.kind != .eof)).map
      (fun t => (t.kind, t.value)) ++ [(.eof, "")] := by
  fun_induction Scan.from file p cs with
  | case1 p => rfl
  | case2 p c cs x place rest tokens errors ih =>
    change (rest.withLexeme x place).contents =
      ((rest.withLexeme x place).tokens.filter _).map _ ++ _
    unfold withLexeme contents at *
    rcases htoken : x.token with _ | ⟨kind, value⟩
    · exact ih
    · have hne : (kind != TokenKind.eof) = true := by simpa using ((cut_first c cs).kind htoken).1
      simpa [hne] using ih

end Scan

/-- **Layout carries no meaning.** Where a source has no errors, the texts of its tokens with one space
between neighbours make up a source without errors that has the same tokens, at other places. -/
theorem scan_spaced (source : List Char) (file file' : Int) (h : (scan source file).errors = []) :
    (scan ([' '].intercalate ((scan source file).texts source)) file').errors = [] ∧
      (scan ([' '].intercalate ((scan source file).texts source)) file').contents =
        (scan source file).contents := by
  have hspells := Scan.spells_from file source {} source [] rfl rfl h
  obtain ⟨herrors, hcontents⟩ := Scan.from_spaced file' (·.place.text source)
    ((scan source file).tokens.filter (·.kind != .eof))
    (fun t ht => hspells t (List.mem_of_mem_filter ht) (by simpa using (List.mem_filter.mp ht).2)) {}
  exact ⟨herrors, hcontents.trans (Scan.contents_from file {} source).symm⟩

/-- A source of two lines in which most tokens touch their neighbours or a comment. -/
def touching : List Char := "print x\\s\"a # b\"%0417#note#-2.5e-1;\n\ty:=-y".toList

/-- The tokens of `touching`, set apart. -/
def touchingSpaced : List Char := "print x \\s \"a # b\" %041 7 - 2.5e-1 ; y := - y".toList

theorem scan_spaced_touching : (scan touching 0).errors = [] ∧
    [' '].intercalate ((scan touching 0).texts touching) = touchingSpaced ∧
      (scan touchingSpaced 1).errors = [] ∧
        (scan touchingSpaced 1).contents = (scan touching 0).contents := by
  have herrors : (scan touching 0).errors = [] := by decide +kernel
  have htexts : [' '].intercalate ((scan touching 0).texts touching) = touchingSpaced := by decide +kernel
  exact ⟨herrors, htexts, htexts ▸ scan_spaced touching 0 1 herrors⟩

end SubrLang
