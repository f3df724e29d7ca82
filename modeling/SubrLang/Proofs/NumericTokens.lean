import SubrLang.Proofs.LayoutFreeTokens

/-!
# Numerals in tokens

The scanner takes the digits of every script, and what reads the numerals of its tokens takes ASCII digits
only. For integers the scanner asks the reader, so every integer constant that it accepts has a value. For
floats it does not.

**Integers.** `Numeral.int_eq_ok_iff` says that what is accepted as an integer consists of ASCII digits and is
read as the number that they denote.

**Floats.** A `FloatText` is what the scanner accepts as a float constant. `FloatText.float?_of_ascii` and
`FloatText.float?_of_not_ascii` say what it is read as: the number that it denotes if all of its digits are
ASCII digits, and nothing otherwise, so that the constant counts as zero.
-/

namespace SubrLang

/-! ## Digits -/

/-- Apart from the ASCII digits, digits lie far behind ASCII. -/
lemma Text.isDigit_cases {c : Char} (h : Text.isDigit c) : c.isDigit ∨ 0x660 ≤ c.toNat := by
  have hranges : ∀ r ∈ digitRanges.ranges, r = (0x30, 0x39) ∨ 0x660 ≤ r.1 := by decide +kernel
  obtain ⟨r, hr, hlow, hhigh⟩ := (CharClass.contains_iff _ _).mp h
  rcases hranges r hr with rfl | hr
  · exact .inl (Char.isDigit_iff_toNat.mpr ⟨hlow, hhigh⟩)
  · exact .inr (by omega)

/-- A digit is no other ASCII character. -/
lemma Text.ne_of_isDigit {c d : Char} (h : Text.isDigit c) (hd : d.isDigit = false) (hascii : d.toNat < 128) :
    c ≠ d := by
  rintro rfl
  rcases isDigit_cases h with hc | hc
  · rw [hc] at hd
    cases hd
  · omega

lemma Text.toLower_of_isDigit {c : Char} (h : Text.isDigit c) : c.toLower = c := by
  apply Char.toLower_eq_of_not_isUpper
  intro hupper
  have hrange : 65 ≤ c.toNat ∧ c.toNat ≤ 90 := by
    simpa [Char.isUpper, UInt32.le_iff_toNat_le] using hupper
  rcases isDigit_cases h with hc | hc
  · have hdigit : c.toNat ≤ 57 := (Char.isDigit_iff_toNat.mp hc).2
    omega
  · omega

namespace Numeral

/-- The number that decimal digits denote. -/
def decimal (ds : List Char) : Nat := ds.foldl (fun n c => 10 * n + (c.toNat - '0'.toNat)) 0

/-- The number that decimal digits denote behind a number `n`. -/
def decimalFrom (n : Nat) (ds : List Char) : Nat := ds.foldl (fun n c => 10 * n + (c.toNat - '0'.toNat)) n

lemma digit?_eq (c : Char) : digit? c = if c.isDigit then some (c.toNat - '0'.toNat) else none := by
  have hiff : '0' ≤ c ∧ c ≤ '9' ↔ c.isDigit := by
    rw [Char.isDigit_iff_toNat]
    rfl
  simp only [digit?, hiff]

lemma le_decimalFrom (n : Nat) (ds : List Char) : n ≤ decimalFrom n ds := by
  induction ds generalizing n with
  | nil => exact le_rfl
  | cons c ds ih => exact le_trans (by omega) (ih (10 * n + (c.toNat - '0'.toNat)))

lemma natFrom_eq_ok_iff {limit n k : Nat} (hn : n ≤ limit) {ds : List Char} :
    natFrom limit n ds = .ok k ↔ (∀ c ∈ ds, c.isDigit) ∧ k = decimalFrom n ds ∧ k ≤ limit := by
  induction ds generalizing n with
  | nil =>
    simp only [natFrom, Except.ok.injEq, List.not_mem_nil, false_implies, implies_true, true_and]
    exact ⟨fun h => ⟨h.symm, h ▸ hn⟩, fun h => h.1.symm⟩
  | cons c ds ih =>
    rw [natFrom, digit?_eq, List.forall_mem_cons]
    by_cases hc : c.isDigit
    · have hfrom : decimalFrom n (c :: ds) = decimalFrom (10 * n + (c.toNat - '0'.toNat)) ds := rfl
      simp only [hc, if_true, true_and, hfrom]
      by_cases hlt : limit < 10 * n + (c.toNat - '0'.toNat)
      · rw [if_pos hlt]
        constructor
        · intro h
          cases h
        · rintro ⟨-, rfl, hle⟩
          exact absurd ((le_decimalFrom _ ds).trans hle) hlt.not_ge
      · rw [if_neg hlt]
        exact ih (not_lt.mp hlt)
    · simp [hc]

lemma nat_eq_ok_iff {bits k : Nat} {ds : List Char} :
    nat bits ds = .ok k ↔ ds ≠ [] ∧ (∀ c ∈ ds, c.isDigit) ∧ k = decimal ds ∧ k < 2 ^ bits := by
  unfold nat
  split
  · simp
  · next hne =>
    have hpos : 0 < 2 ^ bits := by positivity
    rw [natFrom_eq_ok_iff (Nat.zero_le _), Nat.one_shiftLeft, Nat.le_sub_one_iff_lt hpos]
    simp [show ds ≠ [] from hne, decimal, decimalFrom]

lemma sign_of_isDigit {c : Char} (hc : Text.isDigit c) (ds : List Char) :
    sign (c :: ds) = (false, c :: ds) := by
  have hplus := Text.ne_of_isDigit hc (d := '+') rfl (by decide)
  have hminus := Text.ne_of_isDigit hc (d := '-') rfl (by decide)
  unfold sign
  split <;> simp_all

/-- Digits that are accepted as an integer are ASCII digits, and are read as the number that they denote. -/
lemma int_eq_ok {c : Char} {ds : List Char} (hc : Text.isDigit c) (h : (int 32 (c :: ds)).2 = none) :
    (∀ d ∈ c :: ds, d.isDigit) ∧ decimal (c :: ds) ≤ 2147483647 ∧
      int 32 (c :: ds) = ((decimal (c :: ds) : Int), none) := by
  unfold int at h ⊢
  rw [sign_of_isDigit hc] at h ⊢
  cases hnat : nat 32 (c :: ds) with
  | error e =>
    simp only [hnat] at h
    cases e <;> cases h
  | ok n =>
    simp only [hnat] at h ⊢
    obtain ⟨-, hds, rfl, -⟩ := nat_eq_ok_iff.mp hnat
    by_cases hlt : decimal (c :: ds) < 2147483648
    · exact ⟨hds, by omega, by simp [hlt]⟩
    · simp [hlt] at h

/-- The signs that a numeral can start with, and whether they make it negative. -/
def signs : List (List Char × Bool) := [([], false), (['+'], false), (['-'], true)]

/-- A text is a sign, or none, in front of digits, and denotes an integer. -/
def Denotes (cs : List Char) (v : Int) : Prop :=
  ∃ s ∈ signs, ∃ ds, cs = s.1 ++ ds ∧ ds ≠ [] ∧ (∀ c ∈ ds, c.isDigit) ∧
    v = if s.2 then -(decimal ds : Int) else decimal ds

/-- An integer fits in a signed word. -/
def Fits (bits : Nat) (n : Int) : Prop := -2 ^ (bits - 1) ≤ n ∧ n < 2 ^ (bits - 1)

/-- A text is the sign that it starts with, in front of the rest. -/
lemma exists_sign (cs : List Char) : ∃ s ∈ signs, cs = s.1 ++ (sign cs).2 ∧ s.2 = (sign cs).1 := by
  unfold sign
  split
  · exact ⟨(['-'], true), by simp [signs], rfl, rfl⟩
  · exact ⟨(['+'], false), by simp [signs], rfl, rfl⟩
  · exact ⟨([], false), by simp [signs], rfl, rfl⟩

lemma sign_append {s : List Char × Bool} (hs : s ∈ signs) {ds : List Char} (hne : ds ≠ [])
    (hds : ∀ c ∈ ds, c.isDigit) : sign (s.1 ++ ds) = (s.2, ds) := by
  simp only [signs, List.mem_cons, List.not_mem_nil, or_false] at hs
  rcases hs with rfl | rfl | rfl
  · obtain ⟨c, ds, rfl⟩ := List.exists_cons_of_ne_nil hne
    have hc := hds c List.mem_cons_self
    unfold sign
    split
    · next h => cases h; cases hc
    · next h => cases h; cases hc
    · rfl
  · rfl
  · rfl

/-- What is accepted as an integer is a numeral that denotes a number of the range, and is read as that. -/
lemma int_eq_ok_iff {bits : Nat} (hbits : 0 < bits) {cs : List Char} {n : Int} :
    int bits cs = (n, none) ↔ Denotes cs n ∧ Fits bits n := by
  have hpow : 2 ^ bits = 2 * 2 ^ (bits - 1) := by rw [← pow_succ', Nat.sub_add_cancel hbits]
  have hpos : 0 < 2 ^ (bits - 1) := by positivity
  have hlimit : ((2 ^ (bits - 1) : Nat) : Int) = 2 ^ (bits - 1) := by push_cast; rfl
  have hread : int bits cs = (n, none) ↔ ∃ k, nat bits (sign cs).2 = .ok k ∧
      n = (if (sign cs).1 then -(k : Int) else k) ∧ Fits bits n := by
    rw [Fits, ← hlimit]
    unfold int
    rw [Nat.one_shiftLeft]
    rcases sign cs with ⟨negative, ds⟩
    generalize 2 ^ (bits - 1) = limit at hpos
    cases hnat : nat bits ds with
    | error e => cases e <;> simp [hnat]
    | ok k =>
      cases negative
      · simp [hnat]
        split <;> simp <;> omega
      · simp [hnat]
        split <;> simp <;> omega
  rw [hread]
  constructor
  · rintro ⟨k, hnat, rfl, hfits⟩
    obtain ⟨hne, hds, rfl, -⟩ := nat_eq_ok_iff.mp hnat
    obtain ⟨s, hs, hcs, hsign⟩ := exists_sign cs
    exact ⟨⟨s, hs, _, hcs, hne, hds, by rw [hsign]⟩, hfits⟩
  · rintro ⟨⟨s, hs, ds, rfl, hne, hds, rfl⟩, hfits⟩
    rw [sign_append hs hne hds]
    refine ⟨decimal ds, nat_eq_ok_iff.mpr ⟨hne, hds, rfl, ?_⟩, rfl, hfits⟩
    rw [Fits, ← hlimit] at hfits
    rw [hpow]
    split at hfits <;> omega

/-- A numeral is made up of digits and a sign. -/
lemma Denotes.chars {cs : List Char} {v : Int} (h : Denotes cs v) :
    ∀ c ∈ cs, c.isDigit ∨ c = '+' ∨ c = '-' := by
  obtain ⟨s, hs, ds, rfl, -, hds, -⟩ := h
  have hsign : ∀ s ∈ signs, ∀ c ∈ s.1, c = '+' ∨ c = '-' := by simp [signs]
  intro c hc
  rcases List.mem_append.mp hc with hc | hc
  · exact .inr (hsign s hs c hc)
  · exact .inl (hds c hc)

end Numeral

/-! ## Float constants -/

/-- The exponent of a float constant. -/
structure ExponentText where
  letter : Char
  sign : List Char
  digits : List Char
  letter_eq : letter = 'e' ∨ letter = 'E'
  sign_eq : sign = [] ∨ sign = ['+'] ∨ sign = ['-']
  digits_ne : digits ≠ []
  digits_all : ∀ c ∈ digits, Text.isDigit c

namespace ExponentText

def toList (x : ExponentText) : List Char := x.letter :: (x.sign ++ x.digits)

end ExponentText

/-- A float constant: digits on both sides of a point, and maybe an exponent. -/
structure FloatText where
  whole : List Char
  fraction : List Char
  exponent : Option ExponentText
  whole_ne : whole ≠ []
  whole_all : ∀ c ∈ whole, Text.isDigit c
  fraction_ne : fraction ≠ []
  fraction_all : ∀ c ∈ fraction, Text.isDigit c

namespace FloatText

def tail (x : FloatText) : List Char := x.exponent.elim [] ExponentText.toList

def toList (x : FloatText) : List Char := x.whole ++ '.' :: (x.fraction ++ x.tail)

/-- All digits, those of the exponent included. -/
def digits (x : FloatText) : List Char :=
  x.whole ++ x.fraction ++ x.exponent.elim [] ExponentText.digits

/-- The power of ten that a constant is multiplied by, if it can be read. -/
def power? (x : FloatText) : Option Int :=
  x.exponent.elim (some 0) fun y => Numeral.exponent? (y.sign ++ y.digits)

end FloatText

namespace Numeral

/-- Digits in front of what a mantissa goes on with. -/
lemma mantissa_append {ds : List Char} (hds : ∀ c ∈ ds, c.isDigit) (m : Mantissa) (rest : List Char) :
    mantissa 10 m (ds ++ rest) = mantissa 10
      { m with
        value := ds.foldl (fun n c => 10 * n + (c.toNat - '0'.toNat)) m.value
        places := if m.seenPoint then m.places + ds.length else m.places
        seenDigit := m.seenDigit || !ds.isEmpty } rest := by
  induction ds generalizing m with
  | nil => simp
  | cons c ds ih =>
    obtain ⟨hc, hds⟩ := List.forall_mem_cons.mp hds
    have hunder : c ≠ '_' := by
      rintro rfl
      cases hc
    have hpoint : c ≠ '.' := by
      rintro rfl
      cases hc
    have hstep : mantissa 10 m (c :: (ds ++ rest)) = mantissa 10
        { m with
          value := 10 * m.value + (c.toNat - '0'.toNat)
          places := if m.seenPoint then m.places + 1 else m.places
          seenDigit := true } (ds ++ rest) := by
      simp [mantissa, digit?_eq, hc]
    rw [List.cons_append, hstep, ih hds]
    congr 2
    · simp
      split <;> omega
    · simp

lemma mantissa_point (m : Mantissa) (hm : m.seenPoint = false) (rest : List Char) :
    mantissa 10 m ('.' :: rest) = mantissa 10 { m with seenPoint := true } rest := by
  simp [mantissa, hm]

/-- What a mantissa and the rest of a numeral stand for. -/
def ofMantissa (m : Mantissa) : Option Binary64 :=
  if !m.seenDigit then none
  else
    match m.rest with
    | [] => some (ofDecimal false m.value (-m.places))
    | p :: es =>
      if p.toLower = 'e' then (exponent? es).map fun e => ofDecimal false m.value (e - m.places) else none

/-- A mantissa ends in front of a character that is neither a digit nor a point. -/
lemma mantissa_stop {c : Char} (hc : c.isDigit = false) (hunder : c ≠ '_') (hpoint : c ≠ '.')
    (m : Mantissa) (rest : List Char) : mantissa 10 m (c :: rest) = { m with rest := c :: rest } := by
  simp [mantissa, digit?_eq, hc]

lemma special?_of_point {cs : List Char} (h : '.' ∈ cs) : special? cs = none := by
  have hlower : '.' ∈ cs.map Char.toLower := List.mem_map.mpr ⟨'.', h, rfl⟩
  have hname : '.' ∈ (sign (cs.map Char.toLower)).2 := by
    unfold sign
    split
    · next heq =>
      rw [heq] at hlower
      simpa using hlower
    · next heq =>
      rw [heq] at hlower
      simpa using hlower
    · exact hlower
  have hne {name : String} (hpoint : '.' ∉ name.toList) {ds : List Char} (hds : '.' ∈ ds) :
      ds ≠ name.toList := by
    rintro rfl
    exact hpoint hds
  simp only [special?]
  rw [if_neg (hne (by decide) hlower), if_neg]
  rw [not_or]
  exact ⟨hne (by decide) hname, hne (by decide) hname⟩

lemma exponentFrom_isSome {ds : List Char} (h : ∀ c ∈ ds, Text.isDigit c) (n : Nat) :
    (exponentFrom n ds).isSome ↔ ∀ c ∈ ds, c.isDigit := by
  induction ds generalizing n with
  | nil => simp [exponentFrom]
  | cons c ds ih =>
    obtain ⟨hc, hds⟩ := List.forall_mem_cons.mp h
    have hunder := Text.ne_of_isDigit hc (d := '_') rfl (by decide)
    rw [List.forall_mem_cons, ← ih hds (if n < exponentCap then 10 * n + (c.toNat - '0'.toNat) else n)]
    by_cases hdigit : c.isDigit
    · simp [exponentFrom, digit?_eq, hdigit]
    · simp [exponentFrom, digit?_eq, hdigit]

end Numeral

/-- An exponent can be read if its digits are ASCII digits. -/
lemma ExponentText.exponent?_isSome (x : ExponentText) :
    (Numeral.exponent? (x.sign ++ x.digits)).isSome ↔ ∀ c ∈ x.digits, c.isDigit := by
  obtain ⟨c, ds, hds⟩ := List.exists_cons_of_ne_nil x.digits_ne
  have hc : Text.isDigit c := x.digits_all c (by rw [hds]; exact List.mem_cons_self)
  have hsign : (Numeral.sign (x.sign ++ x.digits)).2 = x.digits := by
    rcases x.sign_eq with h | h | h <;> rw [h, hds]
    · rw [List.nil_append, Numeral.sign_of_isDigit hc]
    · rfl
    · rfl
  rw [hds] at hsign
  rw [← Numeral.exponentFrom_isSome x.digits_all 0, Numeral.exponent?, hds]
  simp only [hsign]
  by_cases hdigit : c.isDigit
  · simp only [Numeral.digit?_eq, hdigit, if_true, Option.isSome_some]
    cases Numeral.exponentFrom 0 (c :: ds) <;> simp
  · have hunder := Text.ne_of_isDigit hc (d := '_') rfl (by decide)
    simp [Numeral.digit?_eq, hdigit, Numeral.exponentFrom]

namespace FloatText

variable (x : FloatText)

lemma power?_isSome : x.power?.isSome ↔ ∀ c ∈ x.exponent.elim [] ExponentText.digits, c.isDigit := by
  cases h : x.exponent with
  | none => simp [power?, h]
  | some y =>
    simp only [power?, h, Option.elim_some]
    exact y.exponent?_isSome

/-- The mantissa of a constant ends with its fraction if its digits are ASCII digits. -/
lemma mantissa_eq (h : ∀ c ∈ x.whole ++ x.fraction, c.isDigit) :
    Numeral.mantissa 10 ⟨0, 0, false, false, []⟩ x.toList =
      ⟨Numeral.decimal (x.whole ++ x.fraction), x.fraction.length, true, true, x.tail⟩ := by
  obtain ⟨hwhole, hfraction⟩ := List.forall_mem_append.mp h
  have hend (m : Numeral.Mantissa) : Numeral.mantissa 10 m x.tail = { m with rest := x.tail } := by
    cases hx : x.exponent with
    | none => simp [tail, hx, Numeral.mantissa]
    | some y =>
      have hletter : y.letter.isDigit = false ∧ y.letter ≠ '_' ∧ y.letter ≠ '.' := by
        rcases y.letter_eq with h | h <;> rw [h] <;> decide
      have htail : x.tail = y.letter :: (y.sign ++ y.digits) := by simp [tail, hx, ExponentText.toList]
      rw [htail]
      exact Numeral.mantissa_stop hletter.1 hletter.2.1 hletter.2.2 m _
  rw [toList, Numeral.mantissa_append hwhole, Numeral.mantissa_point _ rfl,
    Numeral.mantissa_append hfraction, hend]
  simp [Numeral.decimal, x.whole_ne]

lemma isDigit_of_mem_digits {c : Char} (hc : c ∈ x.digits) : Text.isDigit c := by
  rw [digits, List.mem_append, List.mem_append] at hc
  rcases hc with (hc | hc) | hc
  · exact x.whole_all c hc
  · exact x.fraction_all c hc
  · cases hx : x.exponent with
    | none => simp [hx] at hc
    | some y =>
      rw [hx] at hc
      exact y.digits_all c hc

lemma mem_toList {c : Char} (hc : c ∈ x.toList) : c ∈ x.digits ∨ c ∈ ['.', 'e', 'E', '+', '-'] := by
  simp only [toList, digits, List.mem_append, List.mem_cons] at hc ⊢
  rcases hc with hc | hc | hc | hc
  · exact .inl (.inl (.inl hc))
  · exact .inr (.inl hc)
  · exact .inl (.inl (.inr hc))
  · cases hx : x.exponent with
    | none => simp [tail, hx] at hc
    | some y =>
      simp only [tail, hx, Option.elim_some, ExponentText.toList, List.mem_cons, List.mem_append] at hc
      rcases hc with rfl | hc | hc
      · rcases y.letter_eq with h | h <;> simp [h]
      · rcases y.sign_eq with h | h | h <;> simp_all
      · exact .inl (.inr hc)

/-- A constant is no hexadecimal numeral and has no underscores, so it is read as a decimal numeral. -/
lemma float?_eq : Numeral.float? x.toList =
    Numeral.ofMantissa (Numeral.mantissa 10 ⟨0, 0, false, false, []⟩ x.toList) := by
  have hunder : x.toList.contains '_' = false := by
    rw [List.contains_eq_mem, decide_eq_false_iff_not]
    intro hmem
    rcases x.mem_toList hmem with h | h
    · exact Text.ne_of_isDigit (x.isDigit_of_mem_digits h) rfl (by decide) rfl
    · revert h
      decide
  have hhex {d c : Char} {cs : List Char} (h : x.toList = '0' :: d :: c :: cs) : d.toLower ≠ 'x' := by
    rcases x.mem_toList (c := d) (by simp [h]) with hd | hd
    · have hdigit := x.isDigit_of_mem_digits hd
      rw [Text.toLower_of_isDigit hdigit]
      exact Text.ne_of_isDigit hdigit rfl (by decide)
    · simp only [List.mem_cons, List.not_mem_nil, or_false] at hd
      rcases hd with rfl | rfl | rfl | rfl | rfl <;> decide
  have hpoint : '.' ∈ x.toList := by simp [toList]
  obtain ⟨c, cs, hwhole⟩ := List.exists_cons_of_ne_nil x.whole_ne
  have hc : Text.isDigit c := x.whole_all c (by rw [hwhole]; exact List.mem_cons_self)
  have hsign : Numeral.sign x.toList = (false, x.toList) := by
    rw [toList, hwhole]
    exact Numeral.sign_of_isDigit hc _
  rw [Numeral.float?, Numeral.special?_of_point hpoint]
  simp only [hsign, Numeral.magnitude?, hunder, Bool.false_and, Bool.false_eq_true, if_false]
  split
  · next ds hds =>
    split at hds
    · next d c' cs' heq => simp [hhex heq] at hds
    · cases hds
  · rfl

/-- A constant of ASCII digits is read as the number that it denotes. -/
lemma float?_of_ascii (h : ∀ c ∈ x.whole ++ x.fraction, c.isDigit) : Numeral.float? x.toList =
    x.power?.map fun e => Numeral.ofDecimal false (Numeral.decimal (x.whole ++ x.fraction))
      (e - x.fraction.length) := by
  rw [float?_eq, mantissa_eq x h]
  cases hx : x.exponent with
  | none => simp [Numeral.ofMantissa, tail, power?, hx]
  | some y =>
    have hletter : y.letter.toLower = 'e' := by
      rcases y.letter_eq with h | h <;> rw [h] <;> decide
    simp [Numeral.ofMantissa, tail, power?, hx, ExponentText.toList, hletter]

/-- Of digits that are not all ASCII digits there is a first one that is not. -/
lemma exists_first_not_ascii {ds : List Char} (h : ¬ ∀ c ∈ ds, c.isDigit) :
    ∃ pre c post, ds = pre ++ c :: post ∧ (∀ d ∈ pre, d.isDigit) ∧ c.isDigit = false := by
  rcases Lexeme.takeWhile_cases Char.isDigit ds with hall | ⟨c, post, hds, hc⟩
  · exact absurd (List.takeWhile_eq_self_iff.mp hall) h
  · exact ⟨_, c, post, hds, fun d hd => List.mem_takeWhile_imp hd, hc⟩

/-- A constant with another digit in front of its exponent cannot be read. -/
lemma float?_of_not_ascii (h : ¬ ∀ c ∈ x.whole ++ x.fraction, c.isDigit) :
    Numeral.float? x.toList = none := by
  -- the mantissa ends at the digit
  obtain ⟨m, c, rest, hm, hc, hdigit⟩ : ∃ (m : Numeral.Mantissa) (c : Char) (rest : List Char),
      Numeral.mantissa 10 ⟨0, 0, false, false, []⟩ x.toList = { m with rest := c :: rest } ∧
        Text.isDigit c ∧ c.isDigit = false := by
    by_cases hwhole : ∀ c ∈ x.whole, c.isDigit
    · have hfraction : ¬ ∀ c ∈ x.fraction, c.isDigit := fun hf =>
        h (List.forall_mem_append.mpr ⟨hwhole, hf⟩)
      obtain ⟨pre, c, post, hds, hpre, hdigit⟩ := exists_first_not_ascii hfraction
      have hc : Text.isDigit c := x.fraction_all c (by rw [hds]; simp)
      rw [toList, Numeral.mantissa_append hwhole, Numeral.mantissa_point _ rfl, hds, List.append_assoc,
        Numeral.mantissa_append hpre, List.cons_append, Numeral.mantissa_stop hdigit
          (Text.ne_of_isDigit hc rfl (by decide)) (Text.ne_of_isDigit hc rfl (by decide))]
      exact ⟨_, c, _, rfl, hc, hdigit⟩
    · obtain ⟨pre, c, post, hds, hpre, hdigit⟩ := exists_first_not_ascii hwhole
      have hc : Text.isDigit c := x.whole_all c (by rw [hds]; simp)
      rw [toList, hds, List.append_assoc, Numeral.mantissa_append hpre, List.cons_append,
        Numeral.mantissa_stop hdigit (Text.ne_of_isDigit hc rfl (by decide))
          (Text.ne_of_isDigit hc rfl (by decide))]
      exact ⟨_, c, _, rfl, hc, hdigit⟩
  have hletter : c.toLower ≠ 'e' := by
    rw [Text.toLower_of_isDigit hc]
    exact Text.ne_of_isDigit hc rfl (by decide)
  rw [float?_eq, hm]
  simp [Numeral.ofMantissa, hletter]

/-- A constant can be read if all of its digits are ASCII digits. -/
lemma float?_isSome : (Numeral.float? x.toList).isSome ↔ ∀ c ∈ x.digits, c.isDigit := by
  rw [digits, List.forall_mem_append, ← power?_isSome]
  by_cases h : ∀ c ∈ x.whole ++ x.fraction, c.isDigit
  · rw [float?_of_ascii x h, Option.isSome_map]
    exact (and_iff_right h).symm
  · rw [float?_of_not_ascii x h]
    simp only [Option.isSome_none, Bool.false_eq_true, false_iff]
    exact fun hall => h hall.1

end FloatText

/-! ## Tokens -/

namespace Lexeme

variable {c : Char} {cs : List Char}

/-- The exponent of a float constant that is accepted. -/
lemma exists_exponentText {seen : List Char} (herror : (exponent seen cs).error = none) :
    ∃ y : Option ExponentText, (exponent seen cs).token =
      some (.floatNumber, String.ofList (seen ++ y.elim [] ExponentText.toList)) := by
  rcases exponent_cases herror with hplain | ⟨e, sign, digits, tail, rfl, hexp, hsign, hdigits, hne, hstop⟩
  · exact ⟨none, by rw [exponent_plain hplain]; simp⟩
  · rw [exponent_append hexp hsign hdigits hne hstop]
    exact ⟨some ⟨e, sign, digits, hexp, hsign, hne, hdigits⟩, rfl⟩

/-- What a numeric token that is accepted can be. -/
lemma number_token (hc : Text.isDigit c) (herror : (number c cs).error = none) :
    (∃ ds, (number c cs).token = some (.number, String.ofList (c :: ds)) ∧
      (Numeral.int 32 (c :: ds)).2 = none) ∨
    ∃ x : FloatText, (number c cs).token = some (.floatNumber, String.ofList x.toList) := by
  rcases number_cases herror with ⟨w, tail, rfl, hw, hstop, hpoint⟩ | ⟨w, f, tail, rfl, hw, hf, hne, hstop⟩
  · left
    refine ⟨w, ?_⟩
    rw [(number_plain hw hstop hpoint).1] at herror ⊢
    have hall : w.takeWhile Text.isDigit = w := List.takeWhile_eq_self_iff.mpr hw
    unfold number at herror ⊢
    simp only [hall, List.length_cons, Nat.add_sub_cancel, List.drop_length] at herror ⊢
    split
    · next hint => exact ⟨rfl, hint⟩
    · next hint =>
      rw [hint] at herror
      cases herror
  · right
    rw [number_point hw hf hne hstop] at herror ⊢
    obtain ⟨y, hy⟩ := exists_exponentText herror
    refine ⟨⟨c :: w, f, y, List.cons_ne_nil _ _, List.forall_mem_cons.mpr ⟨hc, hw⟩, hne, hf⟩, ?_⟩
    rw [hy]
    simp [FloatText.toList, FloatText.tail]

end Lexeme

/-- Without errors, every token but the last is a lexeme without an error. -/
lemma Scan.exists_lexeme (file : Int) (p : Cursor) (cs : List Char) :
    (Scan.from file p cs).errors = [] → ∀ t ∈ (Scan.from file p cs).tokens, t.kind = .eof ∨
      ∃ c cs, (Lexeme.first c cs).token = some (t.kind, t.value) ∧ (Lexeme.first c cs).error = none := by
  fun_induction Scan.from file p cs with
  | case1 p => simp
  | case2 p c cs x place rest tokens errors ih =>
    intro herrors t ht
    cases herror : x.error with
    | some e => simp [errors, herror] at herrors
    | none =>
      simp only [errors, herror] at herrors
      cases htoken : x.token with
      | none =>
        simp only [tokens, htoken] at ht
        exact ih herrors t ht
      | some kv =>
        simp only [tokens, htoken, List.mem_cons] at ht
        rcases ht with rfl | ht
        · exact .inr ⟨c, cs, htoken, herror⟩
        · exact ih herrors t ht

/-- **Numeric tokens.** In a source without scan errors an integer constant consists of ASCII digits and is
read as the number that they denote, which fits in 32 bits. A float constant consists of digits around a
point and maybe an exponent, but they can be digits of every script: it is read as the number that it
denotes if all of them are ASCII digits, and as zero, for it cannot be read, if one of them is not. -/
theorem scan_numeric_tokens (source : List Char) (file : Int) (h : (scan source file).errors = [])
    (t : Token) (ht : t ∈ (scan source file).tokens) :
    (t.kind = .number → t.value.toList ≠ [] ∧ (∀ c ∈ t.value.toList, c.isDigit) ∧
      Numeral.decimal t.value.toList ≤ 2147483647 ∧
      Numeral.int 32 t.value.toList = ((Numeral.decimal t.value.toList : Int), none)) ∧
    (t.kind = .floatNumber → ∃ x : FloatText, t.value.toList = x.toList ∧
      ((∀ c ∈ x.digits, c.isDigit) → ∃ e, x.power? = some e ∧ Numeral.float? t.value.toList =
        some (Numeral.ofDecimal false (Numeral.decimal (x.whole ++ x.fraction)) (e - x.fraction.length))) ∧
      ((∃ c ∈ x.digits, ¬ c.isDigit) →
        Numeral.float? t.value.toList = none ∧ Numeral.float t.value.toList = ⟨0⟩)) := by
  rcases Scan.exists_lexeme file _ source h t ht with heof | ⟨c, cs, htoken, herror⟩
  · rw [heof]
    exact ⟨fun hk => (by cases hk), fun hk => (by cases hk)⟩
  by_cases hnumeric : t.kind.isNumeric
  · obtain ⟨hc, hnumber⟩ := ((Lexeme.cut_first c cs).kind htoken).2.2 hnumeric
    rw [← hnumber] at htoken herror
    rcases Lexeme.number_token hc herror with ⟨ds, hint, hds⟩ | ⟨x, hfloat⟩
    · obtain ⟨hkind, hvalue⟩ : .number = t.kind ∧ String.ofList (c :: ds) = t.value := by
        simpa using hint.symm.trans htoken
      obtain ⟨hdigits, hmax, hread⟩ := Numeral.int_eq_ok hc hds
      rw [← hkind, ← hvalue, String.toList_ofList]
      exact ⟨fun _ => ⟨List.cons_ne_nil _ _, hdigits, hmax, hread⟩, fun hk => (by cases hk)⟩
    · obtain ⟨hkind, hvalue⟩ : .floatNumber = t.kind ∧ String.ofList x.toList = t.value := by
        simpa using hfloat.symm.trans htoken
      rw [← hkind, ← hvalue, String.toList_ofList]
      refine ⟨fun hk => (by cases hk), fun _ => ⟨x, rfl, fun hascii => ?_, fun hother => ?_⟩⟩
      · obtain ⟨hnumber, hpower⟩ := List.forall_mem_append.mp hascii
        obtain ⟨e, he⟩ := Option.isSome_iff_exists.mp (x.power?_isSome.mpr hpower)
        exact ⟨e, he, by rw [x.float?_of_ascii hnumber, he, Option.map_some]⟩
      · have hnone : Numeral.float? x.toList = none := by
          rw [← Option.not_isSome_iff_eq_none, x.float?_isSome]
          push Not
          exact hother
        exact ⟨hnone, by rw [Numeral.float, hnone, Option.getD_none]⟩
  · exact ⟨fun hk => absurd (by rw [hk]; rfl) hnumeric, fun hk => absurd (by rw [hk]; rfl) hnumeric⟩

/-- The Arabic digit three behind a point: the scanner accepts the constant, and it counts as zero. -/
theorem scan_numeric_tokens_arabic :
    let source := "1.٣".toList
    (scan source).errors = [] ∧ ∃ t ∈ (scan source).tokens, t.kind = .floatNumber ∧
      ∃ x : FloatText, t.value.toList = x.toList ∧ Numeral.float t.value.toList = ⟨0⟩ := by
  intro source
  have herrors : (scan source).errors = [] := by decide +kernel
  let t : Token := { kind := .floatNumber, value := "1.٣", place := ⟨0, 1, 1, 3⟩ }
  have ht : t ∈ (scan source).tokens := by decide +kernel
  obtain ⟨x, hx, -, hzero⟩ := (scan_numeric_tokens source 0 herrors t ht).2 rfl
  have hthree : '٣' ∈ x.toList := by
    rw [← hx]
    decide +kernel
  rcases x.mem_toList hthree with hmem | hmem
  · exact ⟨herrors, t, ht, rfl, x, hx, (hzero ⟨_, hmem, by decide⟩).2⟩
  · exact absurd hmem (by decide)

end SubrLang
