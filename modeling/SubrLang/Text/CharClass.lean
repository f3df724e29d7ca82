/-!
# Character classes

A class of characters is a list of closed code point ranges. The tables of the neighbouring modules
are values of this type. A class of many ranges is given by the lengths of its runs.
-/

namespace SubrLang.Text

/-- A set of characters, given by closed ranges of code points. -/
structure CharClass where
  /-- Pairs of a first and a last code point. -/
  ranges : List (Nat × Nat)

namespace CharClass

/-- Runs of code points follow each other from zero on, and every other one belongs to the class. Given are their
lengths, of the run before the class first. -/
def ofRuns (runs : List Nat) : CharClass :=
  ⟨go 0 runs⟩
where
  /-- The ranges from a code point on. -/
  go (start : Nat) : List Nat → List (Nat × Nat)
    | gap :: size :: rest => (start + gap, start + gap + size - 1) :: go (start + gap + size) rest
    | _ => []

/-- Whether `c` lies in one of the ranges. -/
def contains (k : CharClass) (c : Char) : Bool :=
  k.ranges.any fun r => decide (r.1 ≤ c.toNat) && decide (c.toNat ≤ r.2)

/-- Membership is membership in some range. -/
theorem contains_iff (k : CharClass) (c : Char) :
    k.contains c = true ↔ ∃ r ∈ k.ranges, r.1 ≤ c.toNat ∧ c.toNat ≤ r.2 := by
  simp [contains]

end CharClass

end SubrLang.Text
