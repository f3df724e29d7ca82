import SubrLang.Proofs.TypeMatching

/-!
# Equality of types

Types without variables are compared as trees. The comparison looks at no more levels than the second type
has constructors, so that it ends with the same answer however many levels it may look at, it leaves the
bindings as they are, and it says yes exactly if the two types are equal (`Ty.matching_structural`).

This is a case of matching in general (`Ty.matchesWith_answers`), since a type without variables is a pattern
that no substitution changes.
-/

namespace SubrLang

namespace Ty

open Matching

variable {a b : Ty}

/-- Types without variables match exactly if they are equal, whatever is bound. -/
lemma yields_matchesType_true_iff (ha : a.isGround) (hb : b.isGround) (β : Bindings) :
    Yields (matchesType a b) β true β ↔ a = b := by
  obtain ⟨r, hr, heq⟩ := matchesWith_answers ha hb (weight_lt_matchFuel a b β).le β
  rw [yields_matchesType_iff, ← heq]
  constructor
  · intro h
    exact (hr.unique h).1
  · rintro rfl
    exact hr

/-- Equality of types is structural. With any bindings around, comparing types without variables has an
answer, which is that of every comparison that may look at as many levels as the second type has
constructors or more. Nothing is bound, the answer is yes exactly if the types are the same tree, and so the
comparison is an equivalence relation. -/
theorem matching_structural (β : Bindings) :
    (∀ a b : Ty, a.isGround → b.isGround → ∃ r, Yields (matchesType a b) β r β ∧
      (∀ fuel, b.weight ≤ fuel → Yields (matchesWith fuel a b) β r β) ∧
      a.same b = r ∧ (r = true ↔ a = b)) ∧
    Equivalence fun a b : { t : Ty // t.isGround } => Yields (matchesType a b) β true β := by
  refine ⟨fun a b ha hb => ?_, fun a => ?_, fun {a b} h => ?_, fun {a b c} hab hbc => ?_⟩
  · obtain ⟨r, hr, heq⟩ := matchesWith_answers ha hb (weight_lt_matchFuel a b β).le β
    -- every other run has an answer with the same meaning
    have hsame : ∀ {r' : Bool}, (r' = true ↔ a = b) → r' = r := fun h =>
      Bool.eq_iff_iff.mpr (h.trans heq.symm)
    refine ⟨r, yields_matchesType_iff.mpr hr, fun fuel hfuel => ?_, ?_, heq⟩
    · obtain ⟨r', hr', heq'⟩ := matchesWith_answers ha hb hfuel β
      rw [← hsame heq']
      exact hr'
    · obtain ⟨r', hr', heq'⟩ := matchesWith_answers ha hb (weight_lt_matchFuel a b []).le []
      rw [← hsame heq']
      exact same_eq_of_yields (yields_matchesType_iff.mpr hr')
  · exact (yields_matchesType_true_iff a.2 a.2 β).mpr rfl
  · rw [yields_matchesType_true_iff a.2 b.2] at h
    exact (yields_matchesType_true_iff b.2 a.2 β).mpr h.symm
  · rw [yields_matchesType_true_iff a.2 b.2] at hab
    rw [yields_matchesType_true_iff b.2 c.2] at hbc
    exact (yields_matchesType_true_iff a.2 c.2 β).mpr (hab.trans hbc)

/-- Arrays of functions, from arrays of integers to arrays of floating point numbers of the given depth. -/
def mappings (depth : Nat) : Ty := array (func [array integer] (array^[depth] float))

/-- Arrays of functions that return arrays of different depths differ, also where a variable is bound, and
each of them equals itself. -/
theorem matching_structural_mappings :
    (mappings 2).isGround ∧ (mappings 3).isGround ∧
    Yields (matchesType (mappings 2) (mappings 2)) [(Registry.castElem, integer)] true
      [(Registry.castElem, integer)] ∧
    Yields (matchesType (mappings 2) (mappings 3)) [(Registry.castElem, integer)] false
      [(Registry.castElem, integer)] := by
  obtain ⟨hanswers, hequiv⟩ := matching_structural [(Registry.castElem, integer)]
  obtain ⟨r, hr, -, -, heq⟩ := hanswers (mappings 2) (mappings 3) (by decide) (by decide)
  have hno : r = false := by simpa [mappings] using heq
  subst hno
  exact ⟨by decide, by decide, hequiv.refl ⟨mappings 2, by decide⟩, hr⟩

end Ty

end SubrLang
