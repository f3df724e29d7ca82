import SubrLang.Code.Instr
import SubrLang.Token
import SubrLang.Ty.Matching

/-!
# Operator signatures

A signature says which operand types an operator takes, the type of its result, and how it turns into
code. Operators are overloaded: a registry holds the signatures of all operators in order, and looking
up an operator gives its first signature that accepts the operand types.

Signatures may mention type variables. Those that a signature lists are unbound before every check, so
that checks do not depend on each other.
-/

namespace SubrLang

/-- The six comparisons. -/
inductive Comparison where
  | gt | ge | lt | le | eq | ne
deriving DecidableEq, Repr

def Comparison.token : Comparison → TokenKind
  | .gt => .gt
  | .ge => .gte
  | .lt => .lt
  | .le => .lte
  | .eq => .eqEq
  | .ne => .neq

/-- Operators that take more than one instruction. -/
inductive Expansion where
  | arrayLength | intToBool | intToChar | charToBool | intDivide | floatDivide
  | compare (c : Comparison)
  | shortCircuitAnd | shortCircuitOr
deriving DecidableEq, Repr

def Expansion.name : Expansion → String
  | .arrayLength => "array-length"
  | .intToBool => "int-to-bool"
  | .intToChar => "int-to-char"
  | .charToBool => "char-to-bool"
  | .intDivide => "int-divide"
  | .floatDivide => "float-divide"
  | .compare c => s!"compare {c.token.name}"
  | .shortCircuitAnd => "and"
  | .shortCircuitOr => "or"

/-- How a signature turns into code. -/
inductive Variant where
  | opcode (o : Opcode)
  | expansion (e : Expansion)
deriving DecidableEq, Repr

def Variant.text : Variant → String
  | .opcode o => s!"opcode {o.name}"
  | .expansion e => s!"expansion {e.name}"

structure Signature where
  key : TokenKind
  params : List Ty
  result : Ty
  variant : Variant
  /-- The variables to unbind before each check. -/
  vars : List TyVar := []
deriving Repr

namespace Signature

def text (s : Signature) : String :=
  let params := ", ".intercalate (s.params.map Ty.text)
  s!"{s.key.name}({params}) -> {s.result.text}"

/-- Whether the signature takes operands of the given types. -/
def accepts (s : Signature) (actuals : List Ty) : Matching Bool := do
  if actuals.length = s.params.length then
    modify fun b => s.vars.foldl Bindings.reset b
    Ty.matchPairs Ty.matchesType s.params actuals
  else return false

/-- A type with its variables replaced by what they are bound to, looking into arrays. -/
def instantiate (b : Bindings) : Ty → Ty
  | .var v => (b.get? v).getD (.var v)
  | .array t => .array (instantiate b t)
  | t => t

/-- The result type after a check that bound `b`. -/
def resultType (s : Signature) (b : Bindings) : Ty :=
  instantiate b s.result

end Signature

/-- How a failed look-up is shown. -/
def Signature.nullText : String := "<null signature>"

/-- The signatures of all operators, in the order of their registration. -/
abbrev Registry := List Signature

namespace Registry

/-- The first of some signatures that accepts the operand types. -/
def firstAccepting (actuals : List Ty) : List Signature → Matching (Option Signature)
  | [] => return none
  | s :: ss => do
    if ← s.accepts actuals then return some s else firstAccepting actuals ss

/-- The first signature of an operator that accepts the operand types. -/
def lookup (r : Registry) (key : TokenKind) (actuals : List Ty) : Matching (Option Signature) :=
  firstAccepting actuals (r.filter (·.key == key))

/-- The first signature of an operator that accepts operand types without variables, and the type of
the result. -/
def resolve (r : Registry) (key : TokenKind) (actuals : List Ty) : Option (Signature × Ty) :=
  match (r.lookup key actuals).run.run [] with
  | (.ok (some s), b) => some (s, s.resultType b)
  | _ => none

/-! ## The operators of the language -/

/-- Signatures of one operator that are single instructions. -/
def simple (key : TokenKind) (rows : List (PlainOp × Ty × List Ty)) : Registry :=
  rows.map fun (o, result, params) => ⟨key, params, result, .opcode (.plain o), []⟩

/-- A signature of an operator that takes several instructions. -/
def expanded (key : TokenKind) (e : Expansion) (result : Ty) (params : List Ty) : Signature :=
  ⟨key, params, result, .expansion e, []⟩

/-- A comparison on operands of each of some types. -/
def comparison (c : Comparison) (types : List Ty) : Registry :=
  types.map fun t => expanded c.token (.compare c) .boolean [t, t]

/-- A conversion from one type to another. -/
def conversion (v : Variant) (target source : Ty) : Signature :=
  ⟨.cast, [.literal target, source], target, v, []⟩

/-- The element type in the signature of `length`. -/
def lengthElem : TyVar := ⟨"T", 1⟩

/-- The element type in the conversion of an array to its own type. -/
def castElem : TyVar := ⟨"T", 2⟩

/-- The signatures of the language's operators. -/
def standard : Registry :=
  simple .plus [
    (.nop, .integer, [.integer]), (.nop, .float, [.float]),
    (.add, .integer, [.integer, .integer]), (.fadd, .float, [.float, .float])] ++
  simple .minus [
    (.negate, .integer, [.integer]), (.fnegate, .float, [.float]),
    (.subtract, .integer, [.integer, .integer]), (.fsubtract, .float, [.float, .float])] ++
  simple .star [
    (.multiply, .integer, [.integer, .integer]), (.fmultiply, .float, [.float, .float])] ++
  [expanded .slash .intDivide .integer [.integer, .integer],
    expanded .slash .floatDivide .float [.float, .float]] ++
  [Comparison.gt, .ge, .lt, .le].flatMap (comparison · [.integer, .float, .character]) ++
  [Comparison.eq, .ne].flatMap
    (comparison · [.integer, .float, .character, .boolean, .string]) ++
  [expanded .andAnd .shortCircuitAnd .boolean [.boolean, .boolean],
    expanded .orOr .shortCircuitOr .boolean [.boolean, .boolean]] ++
  simple .not [(.bnegate, .boolean, [.boolean])] ++
  [{ expanded .kwLength .arrayLength .integer [.array (.var lengthElem)] with vars := [lengthElem] }] ++
  [Ty.boolean, .character, .integer, .float, .string].map
    (fun t => conversion (.opcode (.plain .nop)) t t) ++
  [{ conversion (.opcode (.plain .nop)) (.array (.var castElem)) (.array (.var castElem)) with
      vars := [castElem] },
    conversion (.opcode (.plain .nop)) .integer .character,
    conversion (.opcode (.plain .convertF)) .float .integer,
    conversion (.opcode (.plain .convertI)) .integer .float,
    conversion (.expansion .intToBool) .boolean .integer,
    conversion (.expansion .intToChar) .character .integer,
    conversion (.expansion .charToBool) .boolean .character]

end Registry

end SubrLang
