import SubrLang.Tree

/-!
# Evaluating scalar programs

What a program without subroutines means that works with integers, characters and truth values only, said
by going over its tree.

**Values.** Integers have 32 bits; the results of arithmetic are taken modulo the width, and division goes
toward zero. A character stands for its number where an integer is needed.

**Names.** A `Store` has the variables in sight, the latest first, so that a name stands for its innermost
declaration. Behind a block the variables declared in it are forgotten (`World.leave`).

**Loops.** A loop goes round as often as the `fuel` says at most. A program ends if there is fuel that
suffices for all its loops, and runs forever if there is none (`Program.Behaves`).
-/

namespace SubrLang

/-! ## Scalar programs -/

/-- The types without parts that need no more than an integer of the machine. -/
inductive Scalar where
  | int | char | bool
deriving DecidableEq, Repr

namespace Scalar

def ty : Scalar → Ty
  | int => .integer
  | char => .character
  | bool => .boolean

def ofTy? : Ty → Option Scalar
  | .prim .integer => some int
  | .prim .character => some char
  | .prim .boolean => some bool
  | _ => none

/-- Whether values can stand where an integer is needed. -/
def isNumber : Scalar → Bool
  | int | char => true
  | bool => false

end Scalar

/-- The operators of scalar programs apart from conversions. -/
def TokenKind.isScalar : TokenKind → Bool
  | .plus | .minus | .star | .slash | .eqEq | .neq | .andAnd | .orOr | .not => true
  | _ => false

/-- The scalar type that an operand of a conversion names. -/
def Expr.scalarTarget? : Expr → Option Scalar
  | .typeLiteral _ t => Scalar.ofTy? t
  | _ => none

mutual

def Expr.isScalar : Expr → Bool
  | .number .. | .char .. | .bool .. | .ident .. => true
  | .operator _ op es _ => (op.isScalar || op == .cast) && Expr.areScalar (op == .cast) es
  | _ => false

/-- As `isScalar`, for a list whose first expression may be the target of a conversion. -/
def Expr.areScalar (conversion : Bool) : List Expr → Bool
  | [] => true
  | e :: es =>
    (if conversion then e.scalarTarget?.isSome else e.isScalar) && Expr.areScalar false es

end

def Expr.isName : Expr → Bool
  | .ident .. => true
  | _ => false

def PrintItem.isScalar : PrintItem → Bool
  | .separator _ _ => true
  | .value e => e.isScalar

mutual

def Stmt.isScalar : Stmt → Bool
  | .varDecl _ _ _ e _ => e.isScalar
  | .assign _ t v => t.isName && v.isScalar
  | .print _ is => is.all PrintItem.isScalar
  | .ifThen _ c b | .while _ c b => c.isScalar && Stmt.areScalar b
  | .ifElse _ c b a => c.isScalar && Stmt.areScalar b && a.isScalar
  | .block _ b => Stmt.areScalar b
  | .call .. | .give .. | .leave _ => false

def Stmt.areScalar : List Stmt → Bool
  | [] => true
  | s :: ss => s.isScalar && Stmt.areScalar ss

end

/-- Whether a program has no subroutines and works with integers, characters and truth values only. -/
def Program.isScalar (p : Program) : Bool :=
  p.funcs.isEmpty && Stmt.areScalar p.main

/-! ## Values -/

inductive Value where
  | int (v : Int32)
  | char (c : UInt8)
  | bool (b : Bool)
deriving DecidableEq, Repr

/-- Why an expression has no value. -/
inductive EvalFault where
  | divideByZero
  /-- A name without a value, or operands that the operator is not defined for. -/
  | illTyped
deriving DecidableEq, Repr

namespace Value

def scalar : Value → Scalar
  | int _ => .int
  | char _ => .char
  | bool _ => .bool

/-- How a value is printed. -/
def text : Value → List UInt8
  | int v => Text.Utf8.encode (toString v.toInt)
  | char c => [c]
  | bool b => Text.Utf8.encode (toString b)

/-- A number as an integer of 32 bits. -/
def wrap (n : Int) : Value := int (Int32.ofInt n)

/-- The number that a value stands for. -/
def number : Value → Except EvalFault Int
  | int v => .ok v.toInt
  | char c => .ok c.toNat
  | bool _ => .error .illTyped

def truth : Value → Except EvalFault Bool
  | bool b => .ok b
  | _ => .error .illTyped

def equals : Value → Value → Except EvalFault Bool
  | bool a, bool b => .ok (a == b)
  | a, b => return (← a.number) == (← b.number)

/-- A value as one of another type. An integer becomes the character with its low seven bits. -/
def convert (target : Scalar) (v : Value) : Except EvalFault Value :=
  match target, v with
  | .int, v => return wrap (← v.number)
  | .char, int v => .ok (char (UInt8.ofNat (v.toInt % 128).toNat))
  | .char, char c => .ok (char c)
  | .char, bool _ => .error .illTyped
  | .bool, bool b => .ok (bool b)
  | .bool, v => return bool ((← v.number) != 0)

end Value

/-! ## Expressions -/

/-- The variables in sight with their values, the latest first. -/
abbrev Store := List (String × Value)

/-- The value of an operator for the values of its operands; `target` is the type that a conversion names.
The second operand of a logical operator matters only if the first one does not decide. -/
def TokenKind.apply (target : Option Scalar) :
    TokenKind → List (Except EvalFault Value) → Except EvalFault Value
  | .plus, [a] => do return .wrap (← (← a).number)
  | .minus, [a] => do return .wrap (-(← (← a).number))
  | .plus, [a, b] => do return .wrap ((← (← a).number) + (← (← b).number))
  | .minus, [a, b] => do return .wrap ((← (← a).number) - (← (← b).number))
  | .star, [a, b] => do return .wrap ((← (← a).number) * (← (← b).number))
  | .slash, [a, b] => do
    let x ← (← a).number
    let y ← (← b).number
    if y = 0 then throw .divideByZero
    return .wrap (x.tdiv y)
  | .eqEq, [a, b] => do return .bool (← (← a).equals (← b))
  | .neq, [a, b] => do return .bool !(← (← a).equals (← b))
  | .andAnd, [a, b] => do
    if ← (← a).truth then return .bool (← (← b).truth) else return .bool false
  | .orOr, [a, b] => do
    if ← (← a).truth then return .bool true else return .bool (← (← b).truth)
  | .not, [a] => do return .bool !(← (← a).truth)
  | .cast, [_, a] =>
    match target with
    | some t => do (← a).convert t
    | none => throw .illTyped
  | _, _ => throw .illTyped

mutual

/-- The value of an expression. -/
def Expr.eval (ρ : Store) : Expr → Except EvalFault Value
  | .number _ v => .ok (.int v)
  | .char _ c => .ok (.char c)
  | .bool _ b => .ok (.bool b)
  | .ident _ x _ =>
    match ρ.lookup x with
    | some v => .ok v
    | none => .error .illTyped
  | .operator _ op es _ => op.apply (es.head?.bind Expr.scalarTarget?) (Expr.evalAll ρ es)
  | _ => .error .illTyped

def Expr.evalAll (ρ : Store) : List Expr → List (Except EvalFault Value)
  | [] => []
  | e :: es => e.eval ρ :: Expr.evalAll ρ es

end

/-! ## Statements -/

/-- What a program has got to: the values of its variables and what it has printed. -/
structure World where
  store : Store
  output : List UInt8
deriving DecidableEq, Repr

/-- Why an execution does not come to its end. -/
inductive Stop where
  /-- An integer was divided by zero, after some output. -/
  | divideByZero (output : List UInt8)
  | outOfFuel
  | illTyped
deriving DecidableEq, Repr

def EvalFault.stop (output : List UInt8) : EvalFault → Stop
  | divideByZero => .divideByZero output
  | illTyped => .illTyped

namespace Store

/-- Gives the variable that a name stands for another value. -/
def assign (x : String) (v : Value) : Store → Option Store
  | [] => none
  | (y, w) :: ρ => if x = y then some ((y, v) :: ρ) else (assign x v ρ).map ((y, w) :: ·)

end Store

namespace World

def start : World := ⟨[], []⟩

def value (w : World) (e : Expr) : Except Stop Value :=
  (e.eval w.store).mapError (·.stop w.output)

/-- Whether a condition holds. -/
def test (w : World) (e : Expr) : Except Stop Bool :=
  (e.eval w.store >>= Value.truth).mapError (·.stop w.output)

def declare (w : World) (x : String) (v : Value) : World :=
  { w with store := (x, v) :: w.store }

def assign (w : World) (x : String) (v : Value) : Except Stop World :=
  match w.store.assign x v with
  | some ρ => .ok { w with store := ρ }
  | none => .error .illTyped

def print (w : World) (text : List UInt8) : World :=
  { w with output := w.output ++ text }

/-- Behind a block that was entered in `w` and came to `w'`: the variables declared in the block are
forgotten. -/
def leave (w w' : World) : World :=
  { w' with store := w'.store.drop (w'.store.length - w.store.length) }

/-- Goes round a loop `fuel` times at most. -/
def loop (test : World → Except Stop Bool) (body : World → Except Stop World) :
    (fuel : Nat) → World → Except Stop World
  | 0, _ => .error .outOfFuel
  | fuel + 1, w => do
    if ← test w then loop test body fuel (← body w) else return w

end World

def Separator.text : Separator → List UInt8
  | .space => Text.Utf8.encode " "
  | .newline => Text.Utf8.encode "\n"
  | .tab => Text.Utf8.encode "\t"

def PrintItem.exec (w : World) : PrintItem → Except Stop World
  | .separator _ k => return w.print k.text
  | .value e => do return w.print (← w.value e).text

mutual

/-- Executes a statement, where every loop goes round `fuel` times at most. -/
def Stmt.exec (fuel : Nat) (w : World) : Stmt → Except Stop World
  | .varDecl _ x _ e _ => do return w.declare x (← w.value e)
  | .assign _ t e =>
    match t with
    | .ident _ x _ => do w.assign x (← w.value e)
    | _ => throw .illTyped
  | .print _ is => is.foldlM PrintItem.exec w
  | .ifThen _ c b => do
    if ← w.test c then return w.leave (← Stmt.execAll fuel w b) else return w
  | .ifElse _ c b a => do
    if ← w.test c then return w.leave (← Stmt.execAll fuel w b) else a.exec fuel w
  | .while _ c b =>
    w.loop (·.test c) (fun w => do return w.leave (← Stmt.execAll fuel w b)) fuel
  | .block _ b => do return w.leave (← Stmt.execAll fuel w b)
  | .call .. | .give .. | .leave _ => throw .illTyped

def Stmt.execAll (fuel : Nat) (w : World) : List Stmt → Except Stop World
  | [] => return w
  | s :: ss => do Stmt.execAll fuel (← s.exec fuel w) ss

end

/-! ## Programs -/

/-- Executes the main block of a program, where every loop goes round `fuel` times at most. -/
def Program.eval (fuel : Nat) (p : Program) : Except Stop World :=
  Stmt.execAll fuel .start p.main

/-- What can be seen of a program. -/
inductive Behaviour where
  /-- It comes to its end and has printed the output. -/
  | ends (output : List UInt8)
  /-- It divides an integer by zero, after some output. -/
  | dividesByZero (output : List UInt8)
  | runsForever

def Program.Behaves (p : Program) : Behaviour → Prop
  | .ends output => ∃ fuel w, p.eval fuel = .ok w ∧ w.output = output
  | .dividesByZero output => ∃ fuel, p.eval fuel = .error (.divideByZero output)
  | .runsForever => ∀ fuel, p.eval fuel = .error .outOfFuel

end SubrLang
