import Mathlib
import SubrLang.Code.Environment

/-!
# Fresh labels

Families of labels differ by their numbers, so labels of different families are different: the number of
a family can be read off any of its labels, as its digits (`LabelFamily.digits_label`). Labels made while
a counter went from one value to another (`FreshLabels`) are therefore different from those made before
and from those made later, and lists of such labels can be put together (`FreshLabels.add`).
-/

namespace SubrLang

/-- Whether a text has no digits. -/
def isWord (s : String) : Bool := s.toList.all (!·.isDigit)

namespace LabelFamily

lemma toList_label (f : LabelFamily) (role : String) : (f.label role).toList =
    '-' :: f.stem.toList ++ '-' :: Nat.toDigits 10 f.number ++
      (if role.isEmpty then [] else '-' :: role.toList) := by
  unfold label
  split
  · simp only [String.toList_append, toString, Nat.toList_repr]
    simp
  · simp only [String.toList_append, toString, Nat.toList_repr]
    simp

lemma filter_isDigit_of_isWord {s : String} (h : isWord s) : s.toList.filter Char.isDigit = [] := by
  simpa [isWord] using h

/-- The digits of a label are those of the number of its family. -/
lemma digits_label {f : LabelFamily} {role : String} (hs : isWord f.stem) (hr : isWord role) :
    (f.label role).toList.filter Char.isDigit = Nat.toDigits 10 f.number := by
  have hn : (Nat.toDigits 10 f.number).filter Char.isDigit = Nat.toDigits 10 f.number :=
    List.filter_eq_self.mpr fun c hc => Nat.isDigit_of_mem_toDigits (by omega) (by omega) hc
  have hdash : ∀ l : List Char, ('-' :: l).filter Char.isDigit = l.filter Char.isDigit :=
    fun _ => rfl
  have hrole : (if role.isEmpty then [] else '-' :: role.toList).filter Char.isDigit = [] := by
    split
    · rfl
    · rw [hdash, filter_isDigit_of_isWord hr]
  rw [toList_label, List.filter_append, List.filter_append, hdash, hdash, hn, hrole,
    filter_isDigit_of_isWord hs, List.nil_append, List.append_nil]

lemma number_eq_of_label_eq {f g : LabelFamily} {r q : String} (hf : isWord f.stem) (hr : isWord r)
    (hg : isWord g.stem) (hq : isWord q) (h : f.label r = g.label q) : f.number = g.number := by
  have hd : Nat.toDigits 10 f.number = Nat.toDigits 10 g.number := by
    rw [← digits_label hf hr, ← digits_label hg hq, h]
  rwa [← Nat.toList_repr, ← Nat.toList_repr, String.toList_inj, Nat.repr_inj] at hd

/-- The labels of a family for different roles are different. -/
lemma label_injective (f : LabelFamily) : Function.Injective f.label := by
  intro r q h
  have hl := congrArg String.toList h
  rw [toList_label, toList_label, List.append_cancel_left_eq] at hl
  split at hl <;> split at hl
  · next hr hq => rw [String.isEmpty_iff.mp hr, String.isEmpty_iff.mp hq]
  · cases hl
  · cases hl
  · exact String.toList_inj.mp (List.cons.inj hl).2

end LabelFamily

/-- Whether a label belongs to a family whose number is above `lo` and not above `hi`. -/
def Label.Numbered (lo hi : Nat) (l : Label) : Prop :=
  ∃ (f : LabelFamily) (role : String), l = .text (f.label role) ∧ isWord f.stem ∧ isWord role ∧
    lo < f.number ∧ f.number ≤ hi

/-- Different labels, made while the number of families went from `lo` to `hi`. -/
structure FreshLabels (lo hi : Nat) (ls : Multiset Label) : Prop where
  le : lo ≤ hi
  numbered : ∀ l ∈ ls, l.Numbered lo hi
  nodup : ls.Nodup

namespace FreshLabels

variable {lo mid hi : Nat} {ls ls' : Multiset Label}

lemma zero (h : lo ≤ hi) : FreshLabels lo hi 0 where
  le := h
  numbered := by simp
  nodup := by simp

/-- Labels made one after the other are different. -/
lemma add (h : FreshLabels lo mid ls) (h' : FreshLabels mid hi ls') :
    FreshLabels lo hi (ls + ls') where
  le := h.le.trans h'.le
  numbered := by
    intro l hl
    rcases Multiset.mem_add.mp hl with hl | hl
    · obtain ⟨f, role, rfl, hs, hr, hlo, hmid⟩ := h.numbered l hl
      exact ⟨f, role, rfl, hs, hr, hlo, hmid.trans h'.le⟩
    · obtain ⟨f, role, rfl, hs, hr, hmid, hhi⟩ := h'.numbered l hl
      exact ⟨f, role, rfl, hs, hr, h.le.trans_lt hmid, hhi⟩
  nodup := by
    refine Multiset.nodup_add.mpr ⟨h.nodup, h'.nodup, ?_⟩
    refine Multiset.disjoint_left.mpr fun {l} hl hl' => ?_
    obtain ⟨f, r, rfl, hf, hr, -, hmid⟩ := h.numbered l hl
    obtain ⟨g, q, heq, hg, hq, hmid', -⟩ := h'.numbered _ hl'
    have hnumber := LabelFamily.number_eq_of_label_eq hf hr hg hq (Label.text.inj heq)
    omega

/-- The labels of the family made next. -/
lemma family (lo : Nat) {stem : String} {roles : List String} (hs : isWord stem) (hr : ∀ r ∈ roles, isWord r)
    (hn : roles.Nodup) : FreshLabels lo (lo + 1)
      (roles.map fun r => Label.text (LabelFamily.label ⟨stem, lo + 1⟩ r) : List Label) where
  le := by omega
  numbered := by
    intro l hl
    obtain ⟨r, hmem, rfl⟩ := List.mem_map.mp (Multiset.mem_coe.mp hl)
    exact ⟨⟨stem, lo + 1⟩, r, rfl, hs, hr r hmem, by simp⟩
  nodup := by
    refine Multiset.coe_nodup.mpr (hn.map fun r q h => ?_)
    exact LabelFamily.label_injective _ (Label.text.inj h)

end FreshLabels

end SubrLang
