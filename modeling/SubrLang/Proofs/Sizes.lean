import SubrLang.Options
import SubrLang.Proofs.NumericTokens

/-!
# Sizes on the command line

A size is a decimal numeral, in which underscores do not count, and maybe a letter for a power of 1024. The
numeral has to fit in a signed word of 64 bits; the product with the power is not checked and wraps around.
So a size that fits in a word is read as it is written, and one that does not is read as another one
(`readSize_exact_iff_fits`).
-/

namespace SubrLang

open Numeral

/-- What a size can end in, and the factors that this stands for. -/
def sizeSuffixes : List (List Char × Nat) := ([], 1) :: sizeLetters.map fun l => ([l.1], l.2)

/-- A text is a numeral, perhaps with underscores in it, and a suffix. -/
def WritesSize (cs : List Char) (v : Int) (factor : Nat) : Prop :=
  ∃ given suffix, cs = given ++ suffix ∧ (suffix, factor) ∈ sizeSuffixes ∧ Denotes (given.filter (· != '_')) v

lemma sizeSuffix_append (cs : List Char) :
    ∃ suffix, cs = (sizeSuffix cs).2 ++ suffix ∧ (suffix, (sizeSuffix cs).1) ∈ sizeSuffixes := by
  unfold sizeSuffix
  split
  · next factor hfactor =>
    obtain ⟨c, hc, hlookup⟩ := Option.bind_eq_some_iff.mp hfactor
    obtain ⟨_, _, hletters, -⟩ := List.lookup_eq_some_iff.mp hlookup
    refine ⟨[c], (List.dropLast_append_getLast? c hc).symm, List.mem_cons_of_mem _ ?_⟩
    exact List.mem_map.mpr ⟨(c, factor), by simp [hletters], rfl⟩
  · exact ⟨[], by simp, List.mem_cons_self⟩

/-- A numeral is told apart from the suffix behind it. -/
lemma WritesSize.sizeSuffix_eq {cs : List Char} {v : Int} {factor : Nat} (h : WritesSize cs v factor) :
    (sizeSuffix cs).1 = factor ∧ Denotes ((sizeSuffix cs).2.filter (· != '_')) v := by
  obtain ⟨given, suffix, rfl, hsuffix, hv⟩ := h
  -- no character of a numeral is a letter for a factor
  have hnone : ∀ c ∈ given, sizeLetters.lookup c = none := by
    have hletters : ∀ l ∈ sizeLetters, ¬ (l.1 = '_' ∨ l.1.isDigit ∨ l.1 = '+' ∨ l.1 = '-') := by decide
    intro c hc
    refine List.lookup_eq_none_iff.mpr fun l hl => bne_iff_ne.mpr ?_
    rintro rfl
    refine hletters l hl (or_iff_not_imp_left.mpr fun hunder => ?_)
    exact hv.chars l.1 (List.mem_filter.mpr ⟨hc, by simpa using hunder⟩)
  have heq : sizeSuffix (given ++ suffix) = (factor, given) := by
    rcases List.mem_cons.mp hsuffix with heq | hmem
    · cases heq
      have hlast : (given ++ []).getLast?.bind (sizeLetters.lookup ·) = none := by
        refine Option.bind_eq_none_iff.mpr fun c hc => hnone c ?_
        rw [List.append_nil] at hc
        exact List.mem_of_getLast? hc
      rw [sizeSuffix, hlast, List.append_nil]
    · obtain ⟨l, hl, heq⟩ := List.mem_map.mp hmem
      cases heq
      have hlookup : ∀ l ∈ sizeLetters, sizeLetters.lookup l.1 = some l.2 := by decide
      simp [sizeSuffix, hlookup l hl]
  rw [heq]
  exact ⟨rfl, hv⟩

lemma readSize_eq_ok_iff {s : String} {n : Int} : readSize s = .ok n ↔
    ∃ v factor, WritesSize s.toList v factor ∧ Fits 64 v ∧ n = Int.bmod (v * factor) (2 ^ 64) := by
  have hread : readSize s = .ok n ↔ ∃ v, int 64 ((sizeSuffix s.toList).2.filter (· != '_')) = (v, none) ∧
      n = Int.bmod (v * (sizeSuffix s.toList).1) (2 ^ 64) := by
    rcases hint : int 64 ((sizeSuffix s.toList).2.filter (· != '_')) with ⟨v, _ | e⟩
    · simp [readSize, hint, eq_comm]
    · simp [readSize, hint]
  simp only [hread, int_eq_ok_iff (by decide : 0 < 64)]
  constructor
  · rintro ⟨v, ⟨hv, hfits⟩, rfl⟩
    obtain ⟨suffix, hcs, hsuffix⟩ := sizeSuffix_append s.toList
    exact ⟨v, _, ⟨_, suffix, hcs, hsuffix, hv⟩, hfits, rfl⟩
  · rintro ⟨v, factor, hwrites, hfits, rfl⟩
    obtain ⟨rfl, hv⟩ := hwrites.sizeSuffix_eq
    exact ⟨v, ⟨hv, hfits⟩, rfl⟩

/-- A product that fits in a word has a first factor that does. -/
lemma WritesSize.fits {cs : List Char} {v : Int} {factor : Nat} (h : WritesSize cs v factor)
    (hfits : Fits 64 (v * factor)) : Fits 64 v := by
  obtain ⟨_, suffix, -, hsuffix, -⟩ := h
  have hone : ∀ l ∈ sizeSuffixes, 1 ≤ l.2 := by decide
  have hfactor : (1 : Int) ≤ factor := by exact_mod_cast hone _ hsuffix
  obtain ⟨hlow, hhigh⟩ := hfits
  constructor
  · by_contra hlt
    nlinarith
  · by_contra hge
    nlinarith

/-- **Sizes and words.** A text is read as a size exactly if its numeral fits in a signed word of 64 bits, and the
result is the product with the factor modulo the size of a word. That is the number written exactly if it fits
in a word itself. -/
theorem readSize_exact_iff_fits (s : String) :
    (∀ n, readSize s = .ok n ↔
      ∃ v factor, WritesSize s.toList v factor ∧ Fits 64 v ∧ n = Int.bmod (v * factor) (2 ^ 64)) ∧
    ∀ v factor, WritesSize s.toList v factor → (readSize s = .ok (v * factor) ↔ Fits 64 (v * factor)) := by
  refine ⟨fun n => readSize_eq_ok_iff, fun v factor hwrites => ?_⟩
  constructor
  · intro hread
    obtain ⟨w, f, -, -, hbmod⟩ := readSize_eq_ok_iff.mp hread
    have hlow := Int.le_bmod (x := w * f) (m := 2 ^ 64) (by decide)
    have hhigh := Int.bmod_lt (x := w * f) (m := 2 ^ 64) (by decide)
    rw [Fits, hbmod]
    norm_num at hlow hhigh ⊢
    exact ⟨hlow, hhigh⟩
  · intro hfits
    refine readSize_eq_ok_iff.mpr ⟨v, factor, hwrites, hwrites.fits hfits, ?_⟩
    obtain ⟨hlow, hhigh⟩ := hfits
    rw [Int.bmod_eq_of_le] <;> norm_num at * <;> omega

/-- A size of 2^64 + 2^30 bytes is read as one of 2^30 bytes. -/
theorem readSize_exact_iff_fits_wrapping :
    WritesSize "17_179_869_185g".toList 17179869185 (1 <<< 30) ∧ ¬ Fits 64 (17179869185 * (1 <<< 30 : Nat)) ∧
      readSize "17_179_869_185g" = .ok 1073741824 ∧
      readSize "17_179_869_185g" ≠ .ok (17179869185 * (1 <<< 30 : Nat)) := by
  have hwrites : WritesSize "17_179_869_185g".toList 17179869185 (1 <<< 30) := by
    refine ⟨"17_179_869_185".toList, ['g'], rfl, by decide, ([], false), by decide, "17179869185".toList, ?_⟩
    exact ⟨rfl, by decide, List.all_eq_true.mp rfl, rfl⟩
  have hnot : ¬ Fits 64 (17179869185 * (1 <<< 30 : Nat)) := by unfold Fits; decide
  obtain ⟨hiff, hexact⟩ := readSize_exact_iff_fits "17_179_869_185g"
  refine ⟨hwrites, hnot, (hiff _).mpr ⟨_, _, hwrites, by unfold Fits; decide, by decide⟩, ?_⟩
  exact fun h => hnot ((hexact _ _ hwrites).mp h)

end SubrLang
