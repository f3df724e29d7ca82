import SubrLang.Diagnostic
import SubrLang.Widening

/-!
# Typing

Checking a program gives every expression a type, every name its binding and every operator its
signature, and reports what is wrong. An expression that is found faulty gets the error type, and nothing
more is reported about what it is part of.

All subroutines are declared before any body is checked, so that a call may come before the definition
of what it calls. The rules for single constructs (`Rules.operator`, `Rules.elements`, …) look only at
types; the functions that go over the tree keep scopes and report.
-/

namespace SubrLang

/-- What checking can find wrong. -/
inductive TypeError where
  | alreadyDefined (name : String)
  | voidParam (name : String)
  | constAssigned (name : String)
  | assignMismatch (target value : Ty)
  | returnOutside
  | returnWithoutValue
  | returnMismatch (found expected : Ty)
  | conditionNotBoolean (found : Ty)
  | undefined (name : String)
  | captured (name : String)
  | noOperator (op : TokenKind) (operands : List Ty)
  | mixedElements (elems : List Ty)
  | voidValue
  | lengthNotInteger (found : Ty)
  | noIndex (operands : List Ty)
  | notCallable (found : Ty)
  | argumentCount (expected found : Nat)
  | argumentMismatch (callee : Ty) (args : List Ty)

/-- How messages name an operator. -/
def TokenKind.operatorName (k : TokenKind) : String :=
  if k = .cast then "cast" else k.name

def TypeError.message : TypeError → String
  | .alreadyDefined x => (ScopeError.defined x 0).message
  | .voidParam x => s!"parameter {Text.quote x} cannot be VOID"
  | .constAssigned x => s!"reassignment to const identifier {Text.quote x}"
  | .assignMismatch t v => s!"operator := not defined for types {Ty.listText [t, v]}"
  | .returnOutside => "return outside of a function"
  | .returnWithoutValue => "return without value in non-void function"
  | .returnMismatch t r => s!"return type {t.text} does not match function return type {r.text}"
  | .conditionNotBoolean t => s!"condition must be BOOLEAN, found {t.text}"
  | .undefined x => s!"identifier {Text.quote x} used before definition"
  | .captured x => s!"cannot capture local {Text.quote x} of an enclosing function"
  | .noOperator op ts => s!"operator {op.operatorName} not defined for types {Ty.listText ts}"
  | .mixedElements ts => s!"array literal elements must share one type, found {Ty.listText ts}"
  | .voidValue => "cannot use VOID function as an expression"
  | .lengthNotInteger t => s!"array length must be INTEGER, found {t.text}"
  | .noIndex ts => s!"operator [] not defined for types {Ty.listText ts}"
  | .notCallable t => s!"invoking function on non-function type {t.text}"
  | .argumentCount m n => s!"function expects {m} arguments, got {n}"
  | .argumentMismatch f ts => s!"cannot call {f.text} with argument types {Ty.listText ts}"

/-! ## The rules for types -/

/-- What the types of a program are checked against. -/
structure Rules where
  registry : Registry
  /-- Whether operands may be widened. -/
  widening : Bool

namespace Rules

/-- Operands as they are. -/
def unchanged (ts : List Ty) : List Widened := ts.map (·, [])

/-- A widening, if there may be one. -/
def widened {α : Type} (r : Rules) (w : Option α) : Option α :=
  if r.widening then w else none

/-- The signature of an operator, the type of its result and the conversions of its operands. -/
def operator (r : Rules) (op : TokenKind) (ts : List Ty) :
    Except TypeError (Signature × Ty × List Widened) :=
  match r.registry.resolve op ts with
  | some (s, t) => .ok (s, t, unchanged ts)
  | none =>
    match r.widened (Widening.operator r.registry op ts) with
    | some ((s, t), ws) => .ok (s, t, ws)
    | none => .error (.noOperator op ts)

/-- The element type of an array literal and the conversions of its elements. -/
def elements (r : Rules) (ts : List Ty) : Except TypeError (Ty × List Widened) :=
  let first := ts.headD .error
  if ts.tail.all first.same then
    if first.isVoid then .error .voidValue else .ok (first, unchanged ts)
  else
    match r.widened (Widening.elements ts) with
    | some found => .ok found
    | none => .error (.mixedElements ts)

/-- The conversion of the length of an array. -/
def length (r : Rules) (t : Ty) : Except TypeError Widened :=
  if t.isPrim .integer then .ok (t, [])
  else
    match r.widened (Widening.length t) with
    | some w => .ok w
    | none => .error (.lengthNotInteger t)

/-- The type of an element of an array. -/
def index (array index : Ty) : Except TypeError Ty :=
  match array, index with
  | .array t, .prim .integer => .ok t
  | _, _ => .error (.noIndex [array, index])

/-- The result type of a call and the conversions of its arguments. -/
def call (r : Rules) (callee : Ty) (args : List Ty) : Except TypeError (Ty × List Widened) :=
  match callee with
  | .func params result =>
    if args.length ≠ params.length then .error (.argumentCount params.length args.length)
    else if callee.same (.func args result) then .ok (result, unchanged args)
    else
      match r.widened (Widening.arguments params args) with
      | some ws => .ok (result, ws)
      | none => .error (.argumentMismatch callee args)
  | _ => .error (.notCallable callee)

/-- The type of a returned value in a subroutine with a result type. -/
def give (result found : Ty) : Except TypeError Ty :=
  if result.isVoid || !result.same found then .error (.returnMismatch found result) else .ok found

/-- The type of an assignment. -/
def assign (target value : Ty) : Except TypeError Ty :=
  if target.same value then .ok value else .error (.assignMismatch target value)

end Rules

/-! ## Checking -/

/-- Where checking has got to. -/
structure CheckState where
  table : SymbolTable
  /-- The scope that is open. -/
  scope : Nat
  report : Report
  /-- The place of the subroutine whose body is being checked. -/
  subroutine : Option Place := none

abbrev Check := StateM CheckState

namespace Check

/-- Reports an error. What it is about has the error type. -/
def fail (place : Place) (e : TypeError) : Check Ty := do
  modify fun st => { st with report := st.report.error place e.message }
  return .error

def warn (w : Warning) (place : Place) (message : String) : Check Unit :=
  modify fun st => { st with report := st.report.warn (some w) place message }

/-- The type that a rule gives, or the error type after a report. -/
def judge (place : Place) : Except TypeError Ty → Check Ty
  | .ok t => return t
  | .error e => fail place e

/-- Notes the conversions of operands, with a warning for each. -/
def widen : List Expr → List Widened → Check (List Expr)
  | e :: es, (t, chain) :: ws => do
    if chain.isEmpty then return e :: (← widen es ws)
    let was := (e.ty?.getD .error).text
    warn .promotion e.note.place s!"implicit conversion from {was} to {t.text}"
    return e.withWidening chain :: (← widen es ws)
  | es, _ => return es

/-- The binding of a name that is used, or what is wrong with the use. -/
def resolve (name : String) : Check (Except TypeError Binding) := do
  let st ← get
  match st.table.lookup st.scope name with
  | none => return .error (.undefined name)
  | some b =>
    if st.table.isCapture st.scope b then return .error (.captured name)
    return .ok (st.table.binding b)

/-- Declares a name in the open scope and gives the number of its binding. -/
def declare (name : String) (t : Ty) (mutable : Bool) : Check (Except TypeError Nat) := do
  let st ← get
  match st.table.declare st.scope name t mutable with
  | .ok (table, b) =>
    set { st with table }
    return .ok b
  | .error _ => return .error (.alreadyDefined name)

/-- Runs a check inside a block of its own. -/
def inBlock {α : Type} (x : Check α) : Check α := do
  let outer := (← get).scope
  modify fun st =>
    let (table, scope) := st.table.enter outer
    { st with table, scope }
  let a ← x
  modify fun st =>
    match st.table.leave st.scope with
    | .ok (table, _) => { st with table, scope := outer }
    | .error _ => { st with scope := outer }
  return a

/-- Runs a check of what belongs to the subroutine at a place. -/
def inBody {α : Type} (place : Place) (x : Check α) : Check α := do
  let around := (← get).subroutine
  modify ({ · with subroutine := some place })
  let a ← x
  modify ({ · with subroutine := around })
  return a

/-- Declares the parameters of a subroutine in the open scope. -/
def declareParams : List Param → Check (List (Param × Option Nat))
  | [] => return []
  | p :: ps => do
    let done (t : Ty) (b : Option Nat) := ({ p with ty := some t, binding := none }, b)
    let head ←
      if p.declared.isVoid then do
        pure (done (← fail p.place (.voidParam p.name)) none)
      else
        match ← declare p.name p.declared true with
        | .ok b => pure (done p.declared (some b))
        | .error e => do pure (done (← fail p.place e) none)
    return head :: (← declareParams ps)

/-- Runs the check of a body inside the scopes of a subroutine, and completes its head. -/
def inFunc {α : Type} (h : FuncHead) (body : Check α) : Check (FuncHead × α) := do
  let outer := (← get).scope
  let (table, paramScope) := (← get).table.openParams outer
  modify ({ · with table, scope := paramScope })
  let params ← declareParams h.params
  let closed := match (← get).table.closeParams paramScope with
    | .ok table => table
    | .error _ => table
  let (table, bodyScope) := closed.openBody paramScope
  modify ({ · with table, scope := bodyScope })
  let a ← body
  modify ({ · with scope := outer })
  let table := (← get).table
  let head := { h with
    params := params.map fun (p, b) => { p with binding := b.map table.binding }
    argSize := table.allocatedSize paramScope
    frameSize := table.allocatedSize bodyScope }
  return (head, a)

end Check

/-- The note of a checked node. -/
def Note.typed (n : Note) (t : Ty) : Note := { place := n.place, ty := some t }

/-- The note of a checked return statement, which belongs to the subroutine that is being checked. -/
def Check.returned (n : Note) (t : Ty) : Check Note := do
  return { n.typed t with subroutine := (← get).subroutine }

/-- The type of a checked expression. -/
def Expr.checkedTy (e : Expr) : Ty := e.ty?.getD .error

/-- Whether some of the expressions are faulty. -/
def Expr.anyFaulty (es : List Expr) : Bool := es.any (·.checkedTy.isError)

/-- Requires that a checked expression decides on a branch. -/
def Expr.asCond (e : Expr) : Check Expr := do
  if e.checkedTy.isError || e.checkedTy.isPrim .boolean then return e
  return e.withTy (← Check.fail e.note.place (.conditionNotBoolean e.checkedTy))

mutual

/-- Checks an expression. Only a call that is a statement may be void. -/
def Expr.check (r : Rules) (isStmt : Bool) : Expr → Check Expr
  | .number n v => return .number (n.typed .integer) v
  | .floatNumber n v => return .floatNumber (n.typed .float) v
  | .char n v => return .char (n.typed .character) v
  | .string n v => return .string (n.typed .string) v
  | .bool n v => return .bool (n.typed .boolean) v
  | .typeLiteral n t => return .typeLiteral (n.typed (.literal t)) t
  | .ident n x _ => do
    match ← Check.resolve x with
    | .ok b => return .ident (n.typed b.ty) x (some b)
    | .error e => return .ident (n.typed (← Check.fail n.place e)) x none
  | .operator n op es _ => do
    let es ← Expr.checkAll r es
    if Expr.anyFaulty es then return .operator (n.typed .error) op es none
    match r.operator op (es.map Expr.checkedTy) with
    | .ok (s, t, ws) => return .operator (n.typed t) op (← Check.widen es ws) (some s)
    | .error e => return .operator (n.typed (← Check.fail n.place e)) op es none
  | .arrayLiteral n es => do
    let es ← Expr.checkAll r es
    if Expr.anyFaulty es then return .arrayLiteral (n.typed .error) es
    match r.elements (es.map Expr.checkedTy) with
    | .ok (t, ws) => return .arrayLiteral (n.typed (.array t)) (← Check.widen es ws)
    | .error e => return .arrayLiteral (n.typed (← Check.fail n.place e)) es
  | .arrayAlloc n t l => do
    let l ← l.check r false
    if l.checkedTy.isError then return .arrayAlloc (n.typed .error) t l
    match r.length l.checkedTy with
    | .ok w =>
      let ls ← Check.widen [l] [w]
      return .arrayAlloc (n.typed (.array t)) t (ls.headD l)
    | .error e => return .arrayAlloc (n.typed (← Check.fail n.place e)) t l
  | .index n a i => do
    let a ← a.check r false
    let i ← i.check r false
    if Expr.anyFaulty [a, i] then return .index (n.typed .error) a i
    return .index (n.typed (← Check.judge n.place (Rules.index a.checkedTy i.checkedTy))) a i
  | .call n f es => do
    let f ← f.check r false
    let es ← Expr.checkAll r es
    if Expr.anyFaulty (f :: es) then return .call (n.typed .error) f es
    match r.call f.checkedTy (es.map Expr.checkedTy) with
    | .ok (t, ws) =>
      let es ← Check.widen es ws
      if t.isVoid && !isStmt then
        return .call (n.typed (← Check.fail n.place .voidValue)) f es
      return .call (n.typed t) f es
    | .error e => return .call (n.typed (← Check.fail n.place e)) f es
  | .lambda n h b => do
    let (h, b) ← Check.inFunc h (Check.inBody n.place
      (Check.inBlock (Stmt.checkAll r (some h.result) false b)))
    return .lambda (n.typed h.ty) h b

/-- Checks expressions from the left to the right. -/
def Expr.checkAll (r : Rules) : List Expr → Check (List Expr)
  | [] => return []
  | e :: es => do
    let e ← e.check r false
    return e :: (← Expr.checkAll r es)

/-- Checks what a print statement writes. -/
def PrintItem.checkAll (r : Rules) : List PrintItem → Check (List PrintItem)
  | [] => return []
  | .separator p k :: is => return .separator p k :: (← PrintItem.checkAll r is)
  | .value e :: is => do
    let e ← e.check r false
    return .value e :: (← PrintItem.checkAll r is)

/-- Checks a statement inside a subroutine with a result type, or in the main block. -/
def Stmt.check (r : Rules) (result : Option Ty) : Stmt → Check Stmt
  | .varDecl n x isConst e _ => do
    let e ← e.check r false
    let st ← get
    if (st.table.lookupOuter st.scope x).isSome then
      Check.warn .extra n.place s!"declaration of {Text.quote x} shadows an outer declaration"
    match ← Check.declare x e.checkedTy !isConst with
    | .ok b => return .varDecl (n.typed e.checkedTy) x isConst e (some ((← get).table.binding b))
    | .error err => return .varDecl (n.typed (← Check.fail n.place err)) x isConst e none
  | .assign n target value => do
    let value ← value.check r false
    let target ← target.check r false
    if Expr.anyFaulty [value, target] then return .assign (n.typed .error) target value
    let judged := match target with
      | .ident _ x (some b) =>
        if b.mutable then Rules.assign target.checkedTy value.checkedTy else .error (.constAssigned x)
      | _ => Rules.assign target.checkedTy value.checkedTy
    return .assign (n.typed (← Check.judge n.place judged)) target value
  | .print n is => return .print n (← PrintItem.checkAll r is)
  | .call n c => return .call n (← c.check r true)
  | .give n v => do
    let v ← v.check r false
    match result with
    | none => return .give (n.typed (← Check.fail n.place .returnOutside)) v
    | some t =>
      if v.checkedTy.isError then return .give (← Check.returned n .error) v
      return .give (← Check.returned n (← Check.judge n.place (Rules.give t v.checkedTy))) v
  | .leave n => do
    match result with
    | none => return .leave (n.typed (← Check.fail n.place .returnOutside))
    | some t =>
      if t.isVoid then return .leave (← Check.returned n .void)
      return .leave (← Check.returned n (← Check.fail n.place .returnWithoutValue))
  | .ifThen n c b => do
    let c ← (← c.check r false).asCond
    return .ifThen n c (← Check.inBlock (Stmt.checkAll r result false b))
  | .ifElse n c b a => do
    let c ← (← c.check r false).asCond
    let b ← Check.inBlock (Stmt.checkAll r result false b)
    return .ifElse n c b (← a.check r result)
  | .while n c b => do
    let c ← (← c.check r false).asCond
    return .while n c (← Check.inBlock (Stmt.checkAll r result false b))
  | .block n b => return .block n (← Check.inBlock (Stmt.checkAll r result false b))

/-- Checks statements in order, where `returned` says that the one before was a return statement. -/
def Stmt.checkAll (r : Rules) (result : Option Ty) (returned : Bool) : List Stmt → Check (List Stmt)
  | [] => return []
  | s :: ss => do
    if returned then
      Check.warn .unreachableCode s.note.place "unreachable code after return"
    let s' ← s.check r result
    return s' :: (← Stmt.checkAll r result s.isReturn ss)

end

/-- Declares all subroutines in the global scope. -/
def Func.declareAll : List Func → Check (List Func)
  | [] => return []
  | f :: fs => do
    let binding ← match ← Check.declare f.head.name f.head.ty false with
      | .ok b => pure (some ((← get).table.binding b))
      | .error e => do
        let _ ← Check.fail f.note.place e
        pure none
    let f := { f with note := f.note.typed f.head.ty, head := { f.head with binding } }
    return f :: (← Func.declareAll fs)

/-- Checks the body of a subroutine. -/
def Func.check (r : Rules) (f : Func) : Check Func := do
  let (head, body) ←
    Check.inFunc f.head (Check.inBody f.note.place
      (Check.inBlock (Stmt.checkAll r (some f.head.result) false f.body)))
  return { f with head, body }

/-- Checks a whole program: its subroutines in order, then its main block. -/
def Program.checkAll (r : Rules) (p : Program) : Check Program := do
  let funcs ← Func.declareAll p.funcs
  let funcs ← funcs.mapM (Func.check r)
  let main ← Check.inBlock (Stmt.checkAll r none false p.main)
  return { p with funcs, main, globalSize := (← get).table.allocatedSize 0 }

/-- Checks a program and continues a report. -/
def Program.check (r : Rules) (report : Report) (p : Program) : Program × Report :=
  let (p, st) := (p.checkAll r).run { table := .program, scope := 0, report }
  (p, st.report)

end SubrLang
