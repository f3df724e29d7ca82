/-!
# Indentation

The indentation of a text with nested parts: four spaces for every level. Levels are counted in a
byte.
-/

namespace SubrLang

/-- The level of the innermost part and of the parts around it. -/
structure Indent where
  level : UInt8 := 0
  /-- The levels to go back to, the nearest first. -/
  outer : List UInt8 := []
deriving DecidableEq, Repr

namespace Indent

/-- The number of spaces of one level. -/
def unit : Nat := 4

/-- Starts a part inside the present one. -/
def push (i : Indent) : Indent := ⟨i.level + 1, i.level :: i.outer⟩

/-- Ends a part; outside of all parts nothing changes. -/
def pop (i : Indent) : Indent :=
  match i.outer with
  | [] => i
  | l :: ls => ⟨l, ls⟩

/-- Why a level has no indentation. -/
inductive Fault where
  | negative
  | tooWide
deriving DecidableEq, Repr

/-- The longest indentation that there is. -/
def maxWidth : Nat := 1 <<< 48

/-- The number of spaces of a level. It is counted in a signed 64-bit word, so that a large level can
come out negative. -/
def width (level : Int) : Except Fault Nat :=
  match Int.bmod (unit * level) (1 <<< 64) with
  | .negSucc _ => .error .negative
  | .ofNat n => if n ≤ maxWidth then .ok n else .error .tooWide

/-- The spaces of a small level. -/
def atLevel (level : Nat) : String := String.ofList (List.replicate (unit * level) ' ')

/-- The spaces of the present level. -/
def current (i : Indent) : String := atLevel i.level.toNat

end Indent

end SubrLang
