import SubrLang.Code.StringTable
import SubrLang.Lowering.Array
import SubrLang.Lowering.Call
import SubrLang.Lowering.Operator
import SubrLang.Settings

/-!
# Lowering

Turns a checked tree into the code of a whole program: initialisation, environment, global storage, the
main block, the bodies of all subroutines, string constants and the allocator.

The bodies of subroutines wait in a queue: a lambda met on the way is put at its end, and its address is
the label that it will start at.
-/

namespace SubrLang

/-- Why a tree cannot be lowered. -/
inductive LowerFault where
  /-- A binding, a type or the enclosing subroutine is missing. -/
  | unchecked
  | noSignature (op : TokenKind)
  | notPrintable (t : Option Ty)
  | notAddressable (kind : String)
  | noExpression (kind : String)
  | code (f : CodeFault)

def LowerFault.message : LowerFault → String
  | .unchecked => "the tree has not been checked"
  | .noSignature op => s!"codegen: operator {op.name} has no signature"
  | .notPrintable (some t) => s!"codegen: cannot print {t.text}"
  | .notPrintable none => "codegen: cannot print %!s(<nil>)"
  | .notAddressable kind => s!"codegen: {kind} is not addressable"
  | .noExpression kind => s!"codegen: unexpected expression {kind}"
  | .code f => f.message

/-- A subroutine whose body is yet to be lowered. -/
structure PendingFunc where
  labels : LabelFamily
  head : FuncHead
  body : List Stmt

structure LowerState where
  /-- The number of label families handed out so far. -/
  families : Nat := 0
  /-- The subroutines that wait, the next one first. -/
  pending : List PendingFunc := []
  strings : StringTable

abbrev Lower := StateT LowerState (Except LowerFault)

namespace Lower

open Code

/-- A family of labels that was not used before. -/
def fresh (stem : String) : Lower LabelFamily := do
  let n := (← get).families + 1
  modify ({ · with families := n })
  return ⟨stem, n⟩

/-- What checking should have filled in. -/
def required {α : Type} : Option α → Lower α
  | some a => return a
  | none => throw .unchecked

/-- Puts a subroutine into the queue and gives its labels. -/
def enqueue (head : FuncHead) (body : List Stmt) : Lower LabelFamily := do
  let labels ← fresh "function"
  modify fun st => { st with pending := st.pending ++ [⟨labels, head, body⟩] }
  return labels

/-- The label of the record of a string constant. -/
def string (text : String) : Lower String := do
  match (← get).strings.find? text with
  | some l => return l
  | none =>
    let l := (← fresh "string").label ""
    modify fun st => { st with strings := st.strings.insert text l }
    return l

/-- The code of a fragment for an expression of a type, with a load if it leaves an address. -/
def valueOf (t : Option Ty) (f : Fragment) : Lower Code :=
  match f.value (.plain ((t.map Ty.loadOp).getD .loadI)) with
  | .ok v => return v.code
  | .error e => throw (.code e)

/-- A fragment that leaves a value. -/
def asValue (c : Code) : Lower Fragment := return ⟨.value, c⟩

/-- Prints through a format. -/
def printf (f : PrintFormat) : Code := pushD f.label ++ ops [.printf]

/-- Prints an array, where `elem` prints an element that is on the stack. The cells that hold the array
and the position are saved on the operand stack, so that elements can be arrays themselves. -/
def printArray (l : LabelFamily) (t : Ty) (elem : Code) : Code :=
  load Cell.print1 ++ ops [.exchange] ++ load Cell.print2 ++ ops [.exchange] ++
    store Cell.print1 ++ pushD Cell.print2 ++ pushI 0 ++ ops [.storeI] ++
    printf .openBracket ++
    label (l.label "loop") ++ load Cell.print2 ++
    load Cell.print1 ++ plus ArrayRecord.lengthOffset ++ ops [.loadI, .subtract] ++
    branch .jumpFalse (l.label "end") ++
    load Cell.print2 ++ branch .jumpFalse (l.label "first") ++ printf .separator ++
    label (l.label "first") ++
    load Cell.print1 ++ plus ArrayRecord.headerSize ++
    load Cell.print2 ++ pushI t.size ++ ops [.multiply, .add, t.loadOp] ++ elem ++
    pushD Cell.print2 ++ load Cell.print2 ++ plus 1 ++ ops [.storeI] ++
    jump (l.label "loop") ++
    label (l.label "end") ++ printf .closeBracket ++
    store Cell.print2 ++ store Cell.print1

/-- Code that prints the value of a type that is on the stack. -/
def printValue : Ty → Lower Code
  | .prim .integer => return printf .integer
  | .prim .float => return printf .float
  | .prim .character => return printf .character
  | .prim .string => return plus StringRecord.headerSize ++ printf .string
  | .prim .boolean => do
    let l ← fresh "print-boolean"
    return branch .jumpTrue (l.label "true") ++ pushD PrintFormat.falseText.label ++
      jump (l.label "join") ++ label (l.label "true") ++ pushD PrintFormat.trueText.label ++
      label (l.label "join") ++ printf .boolean
  | .func _ _ => return ops [.pop] ++ printf .function
  | .array t => do
    let l ← fresh "print-array"
    return printArray l t (← printValue t)
  | t => throw (.notPrintable (some t))

/-- The code of an operator for given code of its operands. -/
def applyVariant (v : Variant) (isFloat : Bool) (l : LabelFamily) (operands : List Code) :
    Lower Code :=
  let all : Code := operands.flatten
  match v, operands with
  | .opcode (.plain .nop), _ => return all
  | .opcode o, _ =>
    match o.with .none with
    | .ok i => return all ++ one i
    | .error e => throw (.code e)
  | .expansion (.compare c), [a, b] => return Lowering.compare c isFloat l a b
  | .expansion .shortCircuitAnd, [a, b] =>
    return Lowering.shortCircuit .jumpFalse .and "false" l a b
  | .expansion .shortCircuitOr, [a, b] =>
    return Lowering.shortCircuit .jumpTrue .or "true" l a b
  | .expansion .arrayLength, _ => return all ++ plus ArrayRecord.lengthOffset ++ ops [.loadI]
  | .expansion .intToBool, _ => return all ++ ops [.bnegate, .bnegate]
  | .expansion .charToBool, _ => return all ++ ops [.bnegate, .bnegate]
  | .expansion .intToChar, _ => return all ++ pushI 127 ++ ops [.btAnd]
  | .expansion .intDivide, _ =>
    return all ++ Lowering.divide .jumpFalse .divide .intDivideByZero
  | .expansion .floatDivide, _ =>
    return all ++ Lowering.divide .jumpFZero .fdivide .floatDivideByZero
  | _, _ => throw .unchecked

/-- The labels that an operator needs. -/
def operatorLabels : Variant → Lower LabelFamily
  | .expansion (.compare _) => fresh "compare"
  | .expansion .shortCircuitAnd | .expansion .shortCircuitOr => fresh "short-circuit"
  | _ => return ⟨"", 0⟩

end Lower

mutual

/-- The code of an expression. Names and indexed arrays leave addresses, everything else values. -/
def Expr.lower : Expr → Lower Fragment
  | .number _ v => Lower.asValue (Code.pushI v.toInt)
  | .floatNumber _ v => Lower.asValue (Code.pushF v)
  | .char _ v => Lower.asValue (Code.pushI v.toNat)
  | .bool _ v => Lower.asValue (Code.pushI (if v then 1 else 0))
  | .string _ v => do Lower.asValue (Code.pushD (← Lower.string v))
  | .ident _ _ b => do return ⟨.address, (← Lower.required b).address⟩
  | .index _ a i => do
    let array ← Lower.valueOf a.ty? (← a.lower)
    let position ← Lower.valueOf i.ty? (← i.lower)
    return ⟨.address, Lowering.index array position⟩
  | .operator _ op es g =>
    match g with
    | none => throw (.noSignature op)
    | some s => do
      let labels ← Lower.operatorLabels s.variant
      let operands ← Expr.lowerAll (op == .cast) es
      let isFloat := (es.head?.bind Expr.ty?).any (·.isPrim .float)
      Lower.asValue (← Lower.applyVariant s.variant isFloat labels operands)
  | .arrayLiteral n es =>
    match n.ty with
    | some (.array t) => do Lower.asValue (Lowering.arrayLiteral t (← Expr.lowerAll false es))
    | _ => throw .unchecked
  | .arrayAlloc _ t l => do
    Lower.asValue (Lowering.arrayAlloc t (← Lower.valueOf l.ty? (← l.lower)))
  | .call _ f es =>
    match f.ty? with
    | some (.func params result) => do
      let args ← Expr.lowerAll false es
      let callee ← Lower.valueOf f.ty? (← f.lower)
      return ⟨if result.isVoid then .void else .value, Lowering.callSite params result args callee⟩
    | _ => throw .unchecked
  | .lambda _ h b => do
    let labels ← Lower.enqueue h b
    Lower.asValue (Code.pushD (Lowering.startLabel labels))
  | .typeLiteral n t => throw (.noExpression (Expr.typeLiteral n t).kind)

/-- The code of the values of expressions, perhaps without the first one. -/
def Expr.lowerAll (skipFirst : Bool) : List Expr → Lower (List Code)
  | [] => return []
  | e :: es => do
    if skipFirst then Expr.lowerAll false es
    else
      let c ← Lower.valueOf e.ty? (← e.lower)
      return c :: (← Expr.lowerAll false es)

end

/-- The code of the value of an expression. -/
def Expr.lowerValue (e : Expr) : Lower Code := do
  Lower.valueOf e.ty? (← e.lower)

/-- The format of a separator. -/
def Separator.format : Separator → PrintFormat
  | .space => .space
  | .newline => .newline
  | .tab => .tab

/-- The code of what a print statement writes. -/
def PrintItem.lower : PrintItem → Lower Code
  | .separator _ k => return Lower.printf k.format
  | .value e => do
    let c ← e.lowerValue
    match e.ty? with
    | some t => return c ++ (← Lower.printValue t)
    | none => throw (.notPrintable none)

mutual

/-- The code of a statement of a subroutine with the given way out, or of the main block. -/
def Stmt.lower (exit : Option String) : Stmt → Lower Code
  | .varDecl _ _ _ e b => do
    let b ← Lower.required b
    return b.address ++ (← e.lowerValue) ++ Code.ops [b.ty.storeOp]
  | .assign _ t v => do
    let target ← t.lower
    if target.residue ≠ .address then throw (.notAddressable t.kind)
    return target.code ++ (← v.lowerValue) ++ Code.ops [(t.ty?.map Ty.storeOp).getD .storeI]
  | .print _ is => return (← is.mapM PrintItem.lower).flatten
  | .call _ c => do
    let f ← c.lower
    return f.code ++ if c.ty?.any Ty.isVoid then [] else Code.ops [.pop]
  | .give _ v => do
    let exit ← Lower.required exit
    return (← v.lowerValue) ++ Code.jump exit
  | .leave _ => return Code.jump (← Lower.required exit)
  | .ifThen _ c b => do
    let l ← Lower.fresh "if"
    let cond ← c.lowerValue
    let body ← Stmt.lowerAll exit b
    return cond ++ Code.branch .jumpFalse (l.label "else") ++ body ++ Code.jump (l.label "join") ++
      Code.label (l.label "else") ++ Code.label (l.label "join")
  | .ifElse _ c b a => do
    let l ← Lower.fresh "if"
    let cond ← c.lowerValue
    let body ← Stmt.lowerAll exit b
    let alternative ← a.lower exit
    return cond ++ Code.branch .jumpFalse (l.label "else") ++ body ++ Code.jump (l.label "join") ++
      Code.label (l.label "else") ++ alternative ++ Code.label (l.label "join")
  | .while _ c b => do
    let l ← Lower.fresh "while"
    let cond ← c.lowerValue
    let body ← Stmt.lowerAll exit b
    return Code.label (l.label "start") ++ cond ++ Code.branch .jumpFalse (l.label "join") ++ body ++
      Code.jump (l.label "start") ++ Code.label (l.label "join")
  | .block _ b => Stmt.lowerAll exit b

/-- The code of statements one after the other. -/
def Stmt.lowerAll (exit : Option String) : List Stmt → Lower Code
  | [] => return []
  | s :: ss => do
    let c ← s.lower exit
    return c ++ (← Stmt.lowerAll exit ss)

end

/-! ## The number of subroutines -/

mutual

/-- The number of lambdas in an expression. -/
def Expr.lambdas : Expr → Nat
  | .operator _ _ es _ => Expr.lambdasAll es
  | .arrayLiteral _ es => Expr.lambdasAll es
  | .arrayAlloc _ _ l => l.lambdas
  | .index _ a i => a.lambdas + i.lambdas
  | .call _ f es => f.lambdas + Expr.lambdasAll es
  | .lambda _ _ b => Stmt.lambdasAll b + 1
  | .number .. | .floatNumber .. | .char .. | .string .. | .bool .. | .ident .. | .typeLiteral .. => 0

def Expr.lambdasAll : List Expr → Nat
  | [] => 0
  | e :: es => e.lambdas + Expr.lambdasAll es

def PrintItem.lambdasAll : List PrintItem → Nat
  | [] => 0
  | .separator _ _ :: is => PrintItem.lambdasAll is
  | .value e :: is => e.lambdas + PrintItem.lambdasAll is

/-- The number of lambdas in a statement. -/
def Stmt.lambdas : Stmt → Nat
  | .varDecl _ _ _ e _ => e.lambdas
  | .assign _ t v => t.lambdas + v.lambdas
  | .print _ is => PrintItem.lambdasAll is
  | .call _ c => c.lambdas
  | .give _ v => v.lambdas
  | .leave _ => 0
  | .ifThen _ c b => c.lambdas + Stmt.lambdasAll b
  | .ifElse _ c b a => c.lambdas + Stmt.lambdasAll b + a.lambdas
  | .while _ c b => c.lambdas + Stmt.lambdasAll b
  | .block _ b => Stmt.lambdasAll b

def Stmt.lambdasAll : List Stmt → Nat
  | [] => 0
  | s :: ss => s.lambdas + Stmt.lambdasAll ss

end

def Func.subroutinesAll : List Func → Nat
  | [] => 0
  | f :: fs => Stmt.lambdasAll f.body + 1 + Func.subroutinesAll fs

/-- The number of subroutines of a program, with or without a name. -/
def Program.subroutines (p : Program) : Nat :=
  Func.subroutinesAll p.funcs + Stmt.lambdasAll p.main

/-! ## Programs -/

/-- The code of a subroutine. -/
def PendingFunc.lower (s : Settings) (f : PendingFunc) : Lower Code := do
  let body ← Stmt.lowerAll (some (Lowering.exitLabel f.labels)) f.body
  return Lowering.subroutine f.head f.labels (s.feature .implicitVoidReturn) body

/-- The code of the subroutines in the queue, at most `fuel` of them. -/
def Lower.drain (s : Settings) : (fuel : Nat) → Lower Code
  | 0 => return []
  | fuel + 1 => do
    match (← get).pending with
    | [] => return []
    | f :: rest =>
      modify ({ · with pending := rest })
      let c ← f.lower s
      return c ++ (← Lower.drain s fuel)

/-- Puts a subroutine into the queue and stores its address in its variable. -/
def Func.lowerEntry (f : Func) : Lower Code := do
  let labels ← Lower.enqueue f.head f.body
  let b ← Lower.required f.head.binding
  return b.address ++ (Code.pushD (Lowering.startLabel labels)).note f.head.name ++ Code.ops [.storeI]

/-- The code of a whole program. -/
def Program.lowerAll (s : Settings) (p : Program) : Lower Code := do
  let entries ← p.funcs.mapM Func.lowerEntry
  let main ← Stmt.lowerAll none p.main
  let bodies ← Lower.drain s p.subroutines
  let strings := (← get).strings
  return Environment.heapInit ++ Environment.stackInit ++ Environment.body ++
    Code.cell Cell.globals (.int .dataZ p.globalSize) ++
    Code.label mainLabel ++ entries.flatten ++ main ++ Code.ops [.halt] ++
    bodies ++ strings.code ++ Environment.heap

/-- The code of a whole program, or the reason why there is none. -/
def Program.lower (s : Settings) (p : Program) : Except LowerFault Code :=
  ((p.lowerAll s).run { strings := { shared := s.feature .stringDedup } }).map (·.1)

end SubrLang
