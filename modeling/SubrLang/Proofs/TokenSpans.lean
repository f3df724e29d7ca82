import Mathlib
import SubrLang.Token.Scan

/-!
# The stretches that tokens take

A source is cut into stretches that follow one another without a gap: tokens, comments, layout, and
characters that start no token. `Scan.Tiles` says this about the tokens that were found, with the offset
at which each of them starts.

**Places.** `Place.StartsAt` ties the line and the column of a place to an offset. They count what lies in
front of it (`Cursor.startsAt_after`), so a scan that counted a character twice, or not at all, would have
a wrong place on every later token.

**Lexemes.** `Lexeme.Cut` lists what a lexeme can be. No scanner takes more characters than there are
(`Lexeme.cut_first`), also where it finds something wrong.

**Sources.** A lexeme in front of a source that is cut into stretches is one stretch more
(`Scan.Tiles.step`), so whole sources are cut up from their end (`Scan.tiles_from`).
-/

namespace SubrLang

/-! ## Places -/

/-- A place starts at an offset of a source: its line counts the line ends in front of it, and its column
the characters behind the last of them, both from one. -/
structure Place.StartsAt (p : Place) (source : List Char) (offset : Nat) : Prop where
  line : p.line = 1 + (source.take offset).count '\n'
  column : p.column = 1 + ((source.take offset).reverse.takeWhile (· != '\n')).length

namespace Cursor

lemma after_concat (p : Cursor) (cs : List Char) (c : Char) :
    p.after (cs ++ [c]) = (p.after cs).next c := by
  simp [after]

lemma after_append (p : Cursor) (cs ds : List Char) : p.after (cs ++ ds) = (p.after cs).after ds := by
  simp [after]

/-- Behind a text that starts a source, the cursor has counted its line ends and the characters of its
last line. -/
lemma after_start (cs : List Char) : (({} : Cursor).after cs).line = 1 + cs.count '\n' ∧
    (({} : Cursor).after cs).column = 1 + (cs.reverse.takeWhile (· != '\n')).length := by
  induction cs using List.reverseRecOn with
  | nil => exact ⟨rfl, rfl⟩
  | append_singleton cs c ih =>
    obtain ⟨hline, hcolumn⟩ := ih
    by_cases hc : c = '\n'
    · subst hc
      simp [after_concat, next, hline, Nat.add_assoc]
    · simp [after_concat, next, hc, hline, hcolumn, Nat.add_comm]

lemma startsAt_after (source : List Char) (offset : Nat) (file : Int) (len : Nat) :
    ((({} : Cursor).after (source.take offset)).place file len).StartsAt source offset := by
  obtain ⟨hline, hcolumn⟩ := after_start (source.take offset)
  constructor
  · simp [place, hline]
  · simp [place, hcolumn]

end Cursor

/-! ## Lexemes -/

/-- The least number of characters that a token is written with, as far as declarations need it. -/
def TokenKind.weight : TokenKind → Nat
  | .eof => 0
  | .kwVar | .kwConst => 3
  | .define => 2
  | _ => 1

/-- Whether a token is an integer or a float constant. -/
def TokenKind.isNumeric (k : TokenKind) : Bool := k = .number || k = .floatNumber

/-- A comment: it goes from a `#` to the next one or to the end of its line, or to the end of the source if
`rest`, what is behind it, is empty. -/
def IsComment (text rest : List Char) : Prop :=
  ∃ body, (∀ c ∈ body, c ≠ '#' ∧ c ≠ '\n') ∧
    (text = '#' :: body ++ ['#'] ∨ text = '#' :: body ++ ['\n'] ∨ text = '#' :: body ∧ rest = [])

namespace Lexeme

/-- What can be cut off as the first lexeme of `c :: cs`. Only what starts with a digit is a number. -/
inductive Cut (c : Char) (cs : List Char) : Lexeme → Prop
  | token {extra : Nat} {kind : TokenKind} {value : String} {error : Option ScanError}
      (size : extra ≤ cs.length) (kind_ne : kind ≠ .eof) (weight : kind.weight ≤ extra + 1)
      (digit : kind.isNumeric → Text.isDigit c ∧ number c cs = ⟨extra, some (kind, value), error⟩) :
      Cut c cs ⟨extra, some (kind, value), error⟩
  | layout {extra : Nat} (size : extra ≤ cs.length) (blank : ∀ d ∈ c :: cs.take extra, isLayout d) :
      Cut c cs ⟨extra, none, none⟩
  | comment {extra : Nat} (size : extra ≤ cs.length)
      (text : IsComment (c :: cs.take extra) (cs.drop extra)) : Cut c cs ⟨extra, none, none⟩
  | stray : Cut c cs ⟨0, none, some (.unexpectedCharacter c)⟩

variable {c : Char} {cs : List Char}

lemma Cut.size {x : Lexeme} (h : x.Cut c cs) : x.extra ≤ cs.length := by
  cases h with
  | token size | layout size | comment size => exact size
  | stray => exact Nat.zero_le _

lemma length_takeWhile_le (p : Char → Bool) (cs : List Char) : (cs.takeWhile p).length ≤ cs.length :=
  (List.takeWhile_sublist p).length_le

lemma take_length_takeWhile (p : Char → Bool) (cs : List Char) :
    cs.take (cs.takeWhile p).length = cs.takeWhile p :=
  (List.prefix_iff_eq_take.mp (List.takeWhile_prefix p)).symm

lemma cut_token {k : TokenKind} {extra : Nat} {value : String} {error : Option ScanError}
    (hsize : extra ≤ cs.length) (hk : k ≠ .eof ∧ k.isNumeric = false) (hweight : k.weight ≤ extra + 1) :
    Cut c cs ⟨extra, some (k, value), error⟩ :=
  .token hsize hk.1 hweight (by simp [hk.2])

/-- A token that weighs at most one character. -/
lemma cut_light {k : TokenKind} {extra : Nat} {value : String} {error : Option ScanError}
    (hsize : extra ≤ cs.length) (hk : (k ≠ .eof ∧ k.isNumeric = false) ∧ k.weight ≤ 1) :
    Cut c cs ⟨extra, some (k, value), error⟩ :=
  cut_token hsize hk.1 (hk.2.trans (Nat.le_add_left 1 extra))

lemma cut_layout (hc : isLayout c) : Cut c cs { extra := (cs.takeWhile isLayout).length } := by
  refine .layout (length_takeWhile_le _ _) fun d hd => ?_
  rw [take_length_takeWhile] at hd
  rcases List.mem_cons.mp hd with rfl | hd
  · exact hc
  · exact List.mem_takeWhile_imp hd

/-- What a class of characters does not take starts with a character outside of it. -/
lemma takeWhile_cases (p : Char → Bool) (cs : List Char) :
    cs.takeWhile p = cs ∨ ∃ d rest, cs = cs.takeWhile p ++ d :: rest ∧ p d = false := by
  induction cs with
  | nil => exact .inl rfl
  | cons c cs ih =>
    by_cases hc : p c
    · rw [List.takeWhile_cons_of_pos hc]
      rcases ih with ih | ⟨d, rest, ih, hd⟩
      · exact .inl (by rw [ih])
      · exact .inr ⟨d, rest, congrArg (c :: ·) ih, hd⟩
    · rw [List.takeWhile_cons_of_neg hc]
      exact .inr ⟨c, cs, rfl, by simpa using hc⟩

/-- A comment takes its end mark too, unless the source ends first. -/
lemma cut_comment : (comment cs).Cut '#' cs := by
  unfold comment
  dsimp only
  set body := cs.takeWhile fun c => c != '#' && c != '\n' with hbody
  have hinner : ∀ c ∈ body, c ≠ '#' ∧ c ≠ '\n' := by
    intro c hc
    have hp := List.mem_takeWhile_imp hc
    simpa using hp
  refine .comment (min_le_right _ _) ⟨body, hinner, ?_⟩
  rcases takeWhile_cases (fun c => c != '#' && c != '\n') cs with hall | ⟨d, rest, hcs, hd⟩
  · rw [← hbody] at hall
    right; right
    simp [hall]
  · rw [← hbody] at hcs
    have htake : cs.take (min (body.length + 1) cs.length) = body ++ [d] := by
      rw [hcs]
      simp [List.take_append]
    rw [htake]
    have hmark : d = '#' ∨ d = '\n' := by
      by_contra hne
      simp_all
    rcases hmark with rfl | rfl
    · exact .inl rfl
    · exact .inr (.inl rfl)

lemma ofWord?_spec {text : String} {k : TokenKind} (h : TokenKind.ofWord? text = some k) :
    (k ≠ .eof ∧ k.isNumeric = false) ∧ k.weight ≤ text.length := by
  have hall : ∀ x ∈ TokenKind.keywords, (x.2 ≠ .eof ∧ x.2.isNumeric = false) ∧ x.2.weight ≤ x.1.length := by
    decide
  obtain ⟨l₁, l₂, hl, -⟩ := List.lookup_eq_some_iff.mp h
  exact hall (text, k) (by rw [hl]; simp)

lemma cut_word : (word c cs).Cut c cs := by
  have hsize := length_takeWhile_le inWord cs
  unfold word
  dsimp only
  split
  · next k hk =>
    obtain ⟨hkind, hweight⟩ := ofWord?_spec hk
    exact cut_token hsize hkind (by simpa [Nat.add_comm] using hweight)
  · exact cut_light hsize (by decide)

/-- A lexeme inside the source that is a number. -/
def IsNumber (cs : List Char) (x : Lexeme) : Prop :=
  ∃ extra kind value error, x = ⟨extra, some (kind, value), error⟩ ∧ extra ≤ cs.length ∧ kind.isNumeric

/-- A float constant goes on behind `seen` at most to the end of the source. -/
lemma isNumber_exponent {seen rest : List Char} (hsize : seen.length + rest.length ≤ cs.length + 1) :
    (exponent seen rest).IsNumber cs := by
  unfold exponent
  dsimp only
  split
  · next e rest =>
    rw [List.length_cons] at hsize
    split
    · set sign := (rest.take 1).filter fun c => c == '+' || c == '-' with hsign
      have hsigned : sign.length ≤ rest.length :=
        (List.length_filter_le _ _).trans (List.length_take_le' 1 rest)
      have hdigits := length_takeWhile_le Text.isDigit (rest.drop sign.length)
      rw [List.length_drop] at hdigits
      split
      · exact ⟨_, _, _, _, rfl, by omega, rfl⟩
      · refine ⟨_, _, _, _, rfl, ?_, rfl⟩
        simp only [List.length_append, List.length_cons]
        omega
    · exact ⟨_, _, _, _, rfl, by simp only [List.length_nil]; omega, rfl⟩
  · exact ⟨_, _, _, _, rfl, by simp only [List.length_nil] at hsize ⊢; omega, rfl⟩

lemma isNumber_number : (number c cs).IsNumber cs := by
  have hdigits := length_takeWhile_le Text.isDigit cs
  unfold number
  dsimp only
  rw [List.length_cons, Nat.add_sub_cancel]
  split
  · next rest hrest =>
    have hlen : (cs.takeWhile Text.isDigit).length + (rest.length + 1) = cs.length := by
      rw [← List.length_cons, ← hrest, List.length_drop]
      omega
    have hfraction := length_takeWhile_le Text.isDigit rest
    split
    · exact ⟨_, _, _, _, rfl, by omega, rfl⟩
    · refine isNumber_exponent ?_
      simp only [List.length_append, List.length_cons, List.length_drop]
      omega
  · split <;> exact ⟨_, _, _, _, rfl, by omega, rfl⟩

lemma cut_number (hc : Text.isDigit c) : (number c cs).Cut c cs := by
  obtain ⟨extra, kind, value, error, hnumber, hsize, hkind⟩ := @isNumber_number c cs
  rw [hnumber]
  obtain rfl | rfl : kind = .number ∨ kind = .floatNumber := by simpa [TokenKind.isNumeric] using hkind
  all_goals exact .token hsize (by decide) (Nat.le_add_left 1 extra) fun _ => ⟨hc, hnumber⟩

lemma cut_separator : (separator cs).Cut c cs := by
  unfold separator
  split <;> exact cut_light (by simp) (by decide)

lemma cut_string : (string cs).Cut c cs := by
  have hbody := length_takeWhile_le (fun c => c != '"' && c != '\n') cs
  unfold string
  dsimp only
  split
  · next rest hrest =>
    have hlen := congrArg List.length hrest
    rw [List.length_drop, List.length_cons] at hlen
    exact cut_light (by omega) (by decide)
  · exact cut_light hbody (by decide)

lemma cut_character : (character cs).Cut c cs := by
  unfold character
  split
  · exact cut_light (by simp) (by decide)
  · next d rest =>
    split
    · exact cut_light (by simp) (by decide)
    · split
      · next hquote =>
        cases rest with
        | nil => simp at hquote
        | cons => exact cut_light (by simp) (by decide)
      · exact cut_light (by simp) (by decide)

lemma cut_octal : (octal cs).Cut c cs := by
  have hsize : ((cs.take 3).takeWhile fun c => '0' ≤ c && c ≤ '7').length ≤ cs.length :=
    (length_takeWhile_le _ _).trans (List.length_take_le' 3 cs)
  unfold octal
  dsimp only
  split
  · exact cut_light (Nat.zero_le _) (by decide)
  · split <;> exact cut_light hsize (by decide)

lemma cut_twoOr {next : Char} {double : TokenKind} {single : Lexeme}
    (hd : (double ≠ .eof ∧ double.isNumeric = false) ∧ double.weight ≤ 2) (hs : single.Cut c cs) :
    (twoOr next double single cs).Cut c cs := by
  unfold twoOr
  split
  · next hnext =>
    cases cs with
    | nil => simp at hnext
    | cons => exact cut_token (by simp) hd.1 hd.2
  · exact hs

/-- The first lexeme of a source lies inside it and is a token, layout, a comment or a stray character. -/
lemma cut_first (c : Char) (cs : List Char) : (first c cs).Cut c cs := by
  unfold first
  split
  · next hc => exact cut_layout hc
  split
  · next hc =>
    obtain rfl := eq_of_beq hc
    exact cut_comment
  split
  · exact cut_word
  split
  · next hc => exact cut_number hc
  split
  iterate 11 exact cut_light (Nat.zero_le _) (by decide)
  iterate 4 exact cut_twoOr (by decide) (cut_light (Nat.zero_le _) (by decide))
  iterate 4 exact cut_twoOr (by decide) .stray
  · exact cut_separator
  · exact cut_string
  · exact cut_character
  · exact cut_octal
  · exact .stray

/-- What is known of the kind of a token that was cut off. -/
lemma Cut.kind {x : Lexeme} {kind : TokenKind} {value : String} (h : x.Cut c cs)
    (htoken : x.token = some (kind, value)) : kind ≠ .eof ∧ kind.weight ≤ x.extra + 1 ∧
      (kind.isNumeric → Text.isDigit c ∧ number c cs = x) := by
  cases h with
  | token _ hne hweight hdigit =>
    cases htoken
    exact ⟨hne, hweight, hdigit⟩
  | layout | comment | stray => cases htoken

end Lexeme

/-! ## Stretches -/

/-- Characters of a source that follow one another. -/
structure Stretch where
  /-- The offset of the first of them. -/
  start : Nat
  len : Nat

namespace Stretch

/-- The offset behind the last character. -/
def stop (x : Stretch) : Nat := x.start + x.len

def Has (x : Stretch) (i : Nat) : Prop := x.start ≤ i ∧ i < x.stop

def text (x : Stretch) (source : List Char) : List Char := (source.drop x.start).take x.len

end Stretch

/-- From the offset `n` on, a source is cut up into the stretches of tokens, into comments, layout and
characters that were reported. -/
structure Scan.Tiles (s : Scan) (source : List Char) (n : Nat) (body : List (Stretch × Token))
    (comments : List Stretch) : Prop where
  /-- The tokens of the stretches are followed by the end of input. -/
  tokens : ∃ last, s.tokens = body.map (·.2) ++ [last] ∧ last.kind = .eof ∧ last.place.len = 0 ∧
    last.place.StartsAt source source.length
  kind_ne : ∀ p ∈ body, p.2.kind ≠ .eof
  len : ∀ p ∈ body, p.2.place.len = p.1.len ∧ 1 ≤ p.1.len
  place : ∀ p ∈ body, p.2.place.StartsAt source p.1.start
  /-- Each stretch ends before the next one starts, and all of them before the end of input. -/
  ordered : (body.map (·.1)).Pairwise fun x y => x.start < y.start ∧ x.stop ≤ y.start
  inside : ∀ p ∈ body, n ≤ p.1.start ∧ p.1.stop ≤ source.length
  comment : ∀ k ∈ comments, IsComment (k.text source) (source.drop k.stop)
  comments_ordered : comments.Pairwise fun k l => k.stop ≤ l.start
  comments_inside : ∀ k ∈ comments, n ≤ k.start
  comments_apart : ∀ k ∈ comments, ∀ p ∈ body, k.stop ≤ p.1.start ∨ p.1.stop ≤ k.start
  covers : ∀ i c, n ≤ i → source[i]? = some c → (∃ p ∈ body, p.1.Has i) ∨ (∃ k ∈ comments, k.Has i) ∨
    Lexeme.isLayout c ∨ ∃ q : Place, (q, .unexpectedCharacter c) ∈ s.errors ∧ q.StartsAt source i ∧
      q.len = 1

namespace Scan

open Lexeme

variable {source : List Char} {n m : Nat} {s : Scan} {body : List (Stretch × Token)}
  {comments : List Stretch} {errors : List (Place × ScanError)}

/-- A token in front of what is cut up. -/
lemma Tiles.token (h : s.Tiles source m body comments) {t : Token} {len : Nat} (hm : n + len = m)
    (hlen : 1 ≤ len) (hin : m ≤ source.length) (hkind : t.kind ≠ .eof) (ht : t.place.len = len)
    (hplace : t.place.StartsAt source n) (herrors : s.errors ⊆ errors) :
    Tiles ⟨t :: s.tokens, errors⟩ source n ((⟨n, len⟩, t) :: body) comments where
  tokens := by
    obtain ⟨last, htokens, hlast⟩ := h.tokens
    exact ⟨last, by simp [htokens], hlast⟩
  kind_ne := List.forall_mem_cons.mpr ⟨hkind, h.kind_ne⟩
  len := List.forall_mem_cons.mpr ⟨⟨ht, hlen⟩, h.len⟩
  place := List.forall_mem_cons.mpr ⟨hplace, h.place⟩
  ordered := by
    refine List.pairwise_cons.mpr ⟨?_, h.ordered⟩
    intro x hx
    obtain ⟨p, hp, rfl⟩ := List.mem_map.mp hx
    have hstart := (h.inside p hp).1
    simp only [Stretch.stop]
    omega
  inside := by
    refine List.forall_mem_cons.mpr ⟨⟨le_rfl, by simp only [Stretch.stop]; omega⟩, ?_⟩
    intro p hp
    have hstart := h.inside p hp
    exact ⟨by omega, hstart.2⟩
  comment := h.comment
  comments_ordered := h.comments_ordered
  comments_inside k hk := by
    have hstart := h.comments_inside k hk
    omega
  comments_apart k hk := by
    refine List.forall_mem_cons.mpr ⟨.inr ?_, h.comments_apart k hk⟩
    have hstart := h.comments_inside k hk
    simp only [Stretch.stop]
    omega
  covers i c hi hc := by
    by_cases him : i < m
    · exact .inl ⟨_, List.mem_cons_self, hi, by simp only [Stretch.stop]; omega⟩
    · rcases h.covers i c (by omega) hc with ⟨p, hp, hhas⟩ | hk | hl | ⟨q, hq, hplaced⟩
      · exact .inl ⟨p, List.mem_cons_of_mem _ hp, hhas⟩
      · exact .inr (.inl hk)
      · exact .inr (.inr (.inl hl))
      · exact .inr (.inr (.inr ⟨q, herrors hq, hplaced⟩))

/-- A comment in front of what is cut up. -/
lemma Tiles.addComment (h : s.Tiles source m body comments) {len : Nat} (hm : n + len = m)
    (htext : IsComment ((source.drop n).take len) (source.drop m)) (herrors : s.errors ⊆ errors) :
    Tiles ⟨s.tokens, errors⟩ source n body (⟨n, len⟩ :: comments) where
  tokens := h.tokens
  kind_ne := h.kind_ne
  len := h.len
  place := h.place
  ordered := h.ordered
  inside p hp := by
    have hstart := h.inside p hp
    exact ⟨by omega, hstart.2⟩
  comment := List.forall_mem_cons.mpr ⟨by simpa [Stretch.text, Stretch.stop, hm] using htext, h.comment⟩
  comments_ordered := by
    refine List.pairwise_cons.mpr ⟨?_, h.comments_ordered⟩
    intro k hk
    have hstart := h.comments_inside k hk
    simp only [Stretch.stop]
    omega
  comments_inside := by
    refine List.forall_mem_cons.mpr ⟨le_rfl, ?_⟩
    intro k hk
    have hstart := h.comments_inside k hk
    omega
  comments_apart := by
    refine List.forall_mem_cons.mpr ⟨?_, h.comments_apart⟩
    intro p hp
    have hstart := (h.inside p hp).1
    exact .inl (by simp only [Stretch.stop]; omega)
  covers i c hi hc := by
    by_cases him : i < m
    · exact .inr (.inl ⟨_, List.mem_cons_self, hi, by simp only [Stretch.stop]; omega⟩)
    · rcases h.covers i c (by omega) hc with hp | ⟨k, hk, hhas⟩ | hl | ⟨q, hq, hplaced⟩
      · exact .inl hp
      · exact .inr (.inl ⟨k, List.mem_cons_of_mem _ hk, hhas⟩)
      · exact .inr (.inr (.inl hl))
      · exact .inr (.inr (.inr ⟨q, herrors hq, hplaced⟩))

/-- Characters in front of what is cut up that are layout or were reported. -/
lemma Tiles.pass (h : s.Tiles source m body comments) (hm : n ≤ m) (herrors : s.errors ⊆ errors)
    (hpass : ∀ i c, n ≤ i → i < m → source[i]? = some c → isLayout c ∨
      ∃ q : Place, (q, .unexpectedCharacter c) ∈ errors ∧ q.StartsAt source i ∧ q.len = 1) :
    Tiles ⟨s.tokens, errors⟩ source n body comments where
  tokens := h.tokens
  kind_ne := h.kind_ne
  len := h.len
  place := h.place
  ordered := h.ordered
  inside p hp := by
    have hstart := h.inside p hp
    exact ⟨by omega, hstart.2⟩
  comment := h.comment
  comments_ordered := h.comments_ordered
  comments_inside k hk := hm.trans (h.comments_inside k hk)
  comments_apart := h.comments_apart
  covers i c hi hc := by
    by_cases him : i < m
    · exact .inr (.inr (hpass i c hi him hc))
    · rcases h.covers i c (by omega) hc with hp | hk | hl | ⟨q, hq, hplaced⟩
      · exact .inl hp
      · exact .inr (.inl hk)
      · exact .inr (.inr (.inl hl))
      · exact .inr (.inr (.inr ⟨q, herrors hq, hplaced⟩))

/-- A scan with one lexeme in front. -/
def withLexeme (x : Lexeme) (place : Place) (rest : Scan) : Scan where
  tokens := match x.token with
    | some (kind, value) => { kind, value, place } :: rest.tokens
    | none => rest.tokens
  errors := match x.error with
    | some e => (place, e) :: rest.errors
    | none => rest.errors

lemma errors_subset_withLexeme (x : Lexeme) (place : Place) (rest : Scan) :
    rest.errors ⊆ (rest.withLexeme x place).errors := by
  simp only [withLexeme]
  split
  · exact List.subset_cons_self _ _
  · exact List.Subset.refl _

/-- One lexeme in front of what is cut up. -/
lemma Tiles.step {c : Char} {cs : List Char} {x : Lexeme} {q : Place} (hx : x.Cut c cs)
    (hsource : source.drop n = c :: cs) (h : s.Tiles source (n + (x.extra + 1)) body comments)
    (hq : q.StartsAt source n) (hlen : q.len = (x.extra + 1 : Nat)) :
    ∃ body comments, (s.withLexeme x q).Tiles source n body comments := by
  have hsize := hx.size
  have htotal : source.length = n + (cs.length + 1) := by
    have hdrop := congrArg List.length hsource
    rw [List.length_drop, List.length_cons] at hdrop
    omega
  have herrors := errors_subset_withLexeme x q s
  -- the characters of the lexeme
  have hget : ∀ i d, n ≤ i → i < n + (x.extra + 1) → source[i]? = some d →
      d ∈ c :: cs.take x.extra := by
    intro i d hi hlt hd
    have hat : (c :: cs)[i - n]? = some d := by
      rw [← hsource, List.getElem?_drop, Nat.add_sub_cancel' hi, hd]
    have hmem : d ∈ (c :: cs).take (x.extra + 1) :=
      List.mem_of_getElem? (i := i - n) (by rw [List.getElem?_take, if_pos (by omega), hat])
    rwa [List.take_succ_cons] at hmem
  cases hx with
  | token _ hkind => exact ⟨_, _, h.token rfl (Nat.le_add_left 1 _) (by omega) hkind hlen hq herrors⟩
  | layout _ hblank =>
    refine ⟨_, _, h.pass (Nat.le_add_right _ _) herrors fun i d hi hlt hd => .inl ?_⟩
    exact hblank d (hget i d hi hlt hd)
  | comment _ htext =>
    refine ⟨_, _, h.addComment rfl ?_ herrors⟩
    rwa [← List.drop_drop, hsource, List.take_succ_cons, List.drop_succ_cons]
  | stray =>
    refine ⟨_, _, h.pass (Nat.le_add_right _ _) herrors fun i d hi hlt hd => .inr ?_⟩
    obtain rfl : d = c := by simpa using hget i d hi hlt hd
    obtain rfl : i = n := by simp only at hlt; omega
    exact ⟨q, List.mem_cons_self, hq, hlen⟩

/-- What is scanned from an offset on is cut up from there on. -/
lemma tiles_from (file : Int) (source : List Char) (p : Cursor) (cs : List Char) :
    ∀ n ≤ source.length, p = ({} : Cursor).after (source.take n) → source.drop n = cs →
      ∃ body comments, (Scan.from file p cs).Tiles source n body comments := by
  fun_induction Scan.from file p cs with
  | case1 p =>
    rintro n hn rfl hcs
    have hlen : source.length ≤ n := List.drop_eq_nil_iff.mp hcs
    obtain rfl : n = source.length := by omega
    refine ⟨[], [], ?_⟩
    constructor
    · exact ⟨_, rfl, rfl, rfl, Cursor.startsAt_after source _ file 0⟩
    all_goals simp
    intro i c hi hc
    have hlt := (List.getElem?_eq_some_iff.mp hc).1
    omega
  | case2 p c cs x place rest tokens errors ih =>
    rintro n hn rfl hcs
    have hsize : x.extra ≤ cs.length := (cut_first c cs).size
    have hlen := congrArg List.length hcs
    rw [List.length_drop, List.length_cons] at hlen
    have htake : source.take (n + (x.extra + 1)) = source.take n ++ (c :: cs.take x.extra) := by
      rw [List.take_add, hcs, List.take_succ_cons]
    have hdrop : source.drop (n + (x.extra + 1)) = cs.drop x.extra := by
      rw [← List.drop_drop, hcs, List.drop_succ_cons]
    obtain ⟨body, comments, hrest⟩ := ih (n + (x.extra + 1)) (by omega)
      (by rw [htake, Cursor.after_append]) hdrop
    exact hrest.step (cut_first c cs) hcs (Cursor.startsAt_after source n file (x.extra + 1)) rfl

end Scan

/-- **Tokens tile the source.** Every source is cut up into the stretches of its tokens, which say where they
start and how long they are, comments, layout, and single characters that are reported as unexpected. -/
theorem scan_tiles (source : List Char) (file : Int) :
    ∃ body comments, (scan source file).Tiles source 0 body comments :=
  Scan.tiles_from file source _ _ 0 (Nat.zero_le _) rfl rfl

end SubrLang
