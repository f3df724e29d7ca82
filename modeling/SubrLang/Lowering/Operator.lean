import SubrLang.Code.Environment
import SubrLang.Signature

/-!
# Code for operators

The instruction sequences of operators that take more than one instruction, for given code of the
operands.
-/

namespace SubrLang.Lowering

open Code

/-- The jumps on the sign of a difference. -/
structure SignJumps where
  subtract : PlainOp
  pos : LabelOp
  neg : LabelOp
  zero : LabelOp

/-- How the difference of two integers is tested. -/
def SignJumps.int : SignJumps := ⟨.subtract, .jumpPos, .jumpNeg, .jumpFalse⟩

/-- How the difference of two floats is tested. -/
def SignJumps.float : SignJumps := ⟨.fsubtract, .jumpFPos, .jumpFNeg, .jumpFZero⟩

/-- The branches of a comparison on the difference of its operands. For `≤` and `≥` the difference is
tested twice, so the case of a zero difference arrives with one word less. -/
def compareBranches (c : Comparison) (isFloat : Bool) (l : LabelFamily) : Code :=
  let j := if isFloat then SignJumps.float else SignJumps.int
  let whenTrue := l.label "true"
  let whenFalse := l.label "false"
  let twice (o : LabelOp) : Code :=
    ops [.duplicate] ++ branch o whenTrue ++ branch j.zero (l.label "zero") ++ jump whenFalse
  match c with
  | .gt => branch j.pos whenTrue ++ jump whenFalse
  | .lt => branch j.neg whenTrue ++ jump whenFalse
  | .eq => branch j.zero whenTrue ++ jump whenFalse
  | .ne =>
    if isFloat then
      ops [.duplicate] ++ branch j.pos (l.label "differ") ++ branch j.neg whenTrue ++
        jump whenFalse ++ label (l.label "differ") ++ ops [.pop] ++ jump whenTrue
    else branch .jumpTrue whenTrue ++ jump whenFalse
  | .ge => twice j.pos
  | .le => twice j.neg

/-- What follows the label of the true case. -/
def compareTrue (c : Comparison) (l : LabelFamily) : Code :=
  match c with
  | .ge | .le => ops [.pop] ++ label (l.label "zero")
  | _ => []

/-- A comparison: the operands are subtracted and the sign of the difference decides. -/
def compare (c : Comparison) (isFloat : Bool) (l : LabelFamily) (left right : Code) : Code :=
  let difference := if isFloat then SignJumps.float.subtract else SignJumps.int.subtract
  left ++ right ++ ops [difference] ++ compareBranches c isFloat l ++
    label (l.label "true") ++ compareTrue c l ++ pushI 1 ++ jump (l.label "join") ++
    label (l.label "false") ++ pushI 0 ++ label (l.label "join")

/-- A logical operator that looks at its right operand only if the left one does not decide. `test` jumps
on the deciding value and `decided` is the label of the result then. -/
def shortCircuit (test : LabelOp) (combine : PlainOp) (decided : String) (l : LabelFamily)
    (left right : Code) : Code :=
  left ++ ops [.duplicate] ++ branch test (l.label "short") ++ right ++ ops [combine] ++
    branch .jumpFalse (l.label "false") ++ jump (l.label "true") ++
    label (l.label "short") ++ ops [.pop] ++ jump (l.label decided) ++
    label (l.label "true") ++ pushI 1 ++ jump (l.label "join") ++
    label (l.label "false") ++ pushI 0 ++ label (l.label "join")

/-- A division that traps on a zero divisor, which `test` jumps on. -/
def divide (test : LabelOp) (op : PlainOp) (t : Trap) : Code :=
  ops [.duplicate] ++ branch test t.label ++ ops [op]

end SubrLang.Lowering
