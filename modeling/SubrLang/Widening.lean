import SubrLang.Tree

/-!
# Widening

A character can stand where an integer is needed, and either where a float is. Widening looks for such
conversions when operand types match no signature: it retypes operands one at a time, characters to
integers first and only then characters and integers to floats, and keeps a retyping when the operand
types then fit.

A conversion from character to float goes through integer. The conversions found are noted on the
operands (`Note.widening`) and turned into casts by `applyWidening` once checking is over.

The search itself (`pass`, `widen`, `search`) works with any test of whether types fit. The types of a
program have no variables, so for it the test is a plain function; `operatorMatching` and
`argumentsMatching` carry the bindings of type variables through the search.
-/

namespace SubrLang

/-- The type of an operand and the conversions that lead to it, innermost first. -/
abbrev Widened := Ty × List Prim

namespace Widening

/-- The conversions that make an integer of a type. -/
def toInteger? : Ty → Option (Ty × List Prim)
  | .prim .character => some (.integer, [.integer])
  | _ => none

/-- The conversions that make a float of a type. -/
def toFloat? : Ty → Option (Ty × List Prim)
  | .prim .character => some (.float, [.integer, .float])
  | .prim .integer => some (.float, [.float])
  | _ => none

/-- The operand types of a list. -/
def types (ws : List Widened) : List Ty := ws.map (·.1)

section

variable {m : Type → Type} [Monad m]

/-- Goes through the operands behind `done` and retypes those for which the types then fit. -/
def pass (fits : List Ty → m Bool) (retype : Ty → Option (Ty × List Prim)) (done : List Widened) :
    List Widened → m (List Widened)
  | [] => return done
  | w :: ws => do
    match retype w.1 with
    | some v =>
      if ← fits (types (done ++ v :: ws)) then pass fits retype (done ++ [v]) ws
      else pass fits retype (done ++ [w]) ws
    | none => pass fits retype (done ++ [w]) ws

/-- Widens operands from the number `first` on so that their types fit. -/
def widen (fits : List Ty → m Bool) (first : Nat) (actuals : List Ty) : m (Option (List Widened)) := do
  let start : List Widened := actuals.map (·, [])
  let integers ← pass fits toInteger? (start.take first) (start.drop first)
  if ← fits (types integers) then return some integers
  let floats ← pass fits toFloat? (integers.take first) (integers.drop first)
  if ← fits (types floats) then return some floats
  return none

/-- What `find` gives for operand types after widening. -/
def search {α : Type} (find : List Ty → m (Option α)) (first : Nat) (actuals : List Ty) :
    m (Option (α × List Widened)) := do
  match ← widen (fun ts => return (← find ts).isSome) first actuals with
  | none => return none
  | some ws => return (← find (types ws)).map (·, ws)

/-- Arguments that fit a parameter list after widening, where `same` compares two types. -/
def fitArguments (same : Ty → Ty → m Bool) (params actuals : List Ty) : m (Option (List Widened)) :=
  if actuals.length = params.length then widen (Ty.matchPairs same params) 0 actuals
  else return none

end

/-- The number of the first operand that can be widened: a conversion keeps its target. -/
def firstOperand (op : TokenKind) : Nat :=
  if op = .cast then 1 else 0

/-- The signature of an operator whose operands fit after widening, and the type of its result. -/
def operator (r : Registry) (op : TokenKind) (actuals : List Ty) :
    Option ((Signature × Ty) × List Widened) :=
  Id.run (search (fun ts => pure (r.resolve op ts)) (firstOperand op) actuals)

/-- Arguments that fit a parameter list after widening. -/
def arguments (params actuals : List Ty) : Option (List Widened) :=
  Id.run (fitArguments (fun p t => pure (p.same t)) params actuals)

/-- As `operator`, for operand types with variables. What one attempt binds stays bound for the next. -/
def operatorMatching (r : Registry) (op : TokenKind) (actuals : List Ty) :
    Matching (Option (Signature × List Widened)) :=
  search (r.lookup op) (firstOperand op) actuals

/-- As `arguments`, for types with variables. -/
def argumentsMatching (params actuals : List Ty) : Matching (Option (List Widened)) :=
  fitArguments Ty.matchesType params actuals

/-- The common type of array elements that are characters, integers and floats: integer if there is no
float among them, and float otherwise. -/
def elements (actuals : List Ty) : Option (Ty × List Widened) :=
  let common (p : Prim) (widen? : Ty → Option (Ty × List Prim)) : Option (List Widened) :=
    actuals.mapM fun t => if t.isPrim p then some (t, []) else widen? t
  match common .integer toInteger? with
  | some ws => some (.integer, ws)
  | none => (common .float toFloat?).map (.float, ·)

/-- The conversion of the length of an array. -/
def length (actual : Ty) : Option Widened :=
  toInteger? actual

/-- Notes conversions on operands. -/
def note (es : List Expr) (ws : List Widened) : List Expr :=
  List.zipWith (fun e (w : Widened) => e.withWidening w.2) es ws

/-! ## Inserting casts -/

/-- An expression inside a conversion to a type. -/
def cast (r : Registry) (e : Expr) (target : Prim) : Expr :=
  let place := e.note.place
  let operands := [Expr.ofType place (.prim target), e]
  match r.resolve .cast [.literal (.prim target), e.ty?.getD .error] with
  | some (s, t) => .operator { place, ty := some t } .cast operands (some s)
  | none => .operator { place, ty := some .error } .cast operands none

/-- An expression inside the conversions noted on it. The note moves to the outermost one, for which
they are pending where it stands. -/
def wrap (r : Registry) (e : Expr) : Expr :=
  match e.note.widening with
  | [] => e
  | chain => (chain.foldl (cast r) (e.withWidening [])).withWidening chain

end Widening

mutual

/-- The expression with all noted conversions inserted as casts. -/
def Expr.applyWidening (r : Registry) : Expr → Expr
  | .operator n o es g => Widening.wrap r (.operator n o (Expr.applyWidenings r es) g)
  | .arrayLiteral n es => Widening.wrap r (.arrayLiteral n (Expr.applyWidenings r es))
  | .arrayAlloc n t l => Widening.wrap r (.arrayAlloc n t (l.applyWidening r))
  | .index n a i => Widening.wrap r (.index n (a.applyWidening r) (i.applyWidening r))
  | .call n f es => Widening.wrap r (.call n (f.applyWidening r) (Expr.applyWidenings r es))
  | .lambda n h b => Widening.wrap r (.lambda n h (Stmt.applyWidenings r b))
  | .number n v => Widening.wrap r (.number n v)
  | .floatNumber n v => Widening.wrap r (.floatNumber n v)
  | .char n v => Widening.wrap r (.char n v)
  | .string n v => Widening.wrap r (.string n v)
  | .bool n v => Widening.wrap r (.bool n v)
  | .ident n s b => Widening.wrap r (.ident n s b)
  | .typeLiteral n t => Widening.wrap r (.typeLiteral n t)

def Expr.applyWidenings (r : Registry) : List Expr → List Expr
  | [] => []
  | e :: es => e.applyWidening r :: Expr.applyWidenings r es

def PrintItem.applyWidenings (r : Registry) : List PrintItem → List PrintItem
  | [] => []
  | .separator p k :: is => .separator p k :: PrintItem.applyWidenings r is
  | .value e :: is => .value (e.applyWidening r) :: PrintItem.applyWidenings r is

def Stmt.applyWidening (r : Registry) : Stmt → Stmt
  | .varDecl n s k e b => .varDecl n s k (e.applyWidening r) b
  | .assign n t v => .assign n (t.applyWidening r) (v.applyWidening r)
  | .print n is => .print n (PrintItem.applyWidenings r is)
  | .call n c => .call n (c.applyWidening r)
  | .give n v => .give n (v.applyWidening r)
  | .leave n => .leave n
  | .ifThen n c b => .ifThen n (c.applyWidening r) (Stmt.applyWidenings r b)
  | .ifElse n c b a =>
    .ifElse n (c.applyWidening r) (Stmt.applyWidenings r b) (a.applyWidening r)
  | .while n c b => .while n (c.applyWidening r) (Stmt.applyWidenings r b)
  | .block n b => .block n (Stmt.applyWidenings r b)

def Stmt.applyWidenings (r : Registry) : List Stmt → List Stmt
  | [] => []
  | s :: ss => s.applyWidening r :: Stmt.applyWidenings r ss

end

/-- The program with all noted conversions inserted as casts. -/
def Program.applyWidening (r : Registry) (p : Program) : Program :=
  { p with
    funcs := p.funcs.map fun f => { f with body := Stmt.applyWidenings r f.body }
    main := Stmt.applyWidenings r p.main }

/-! ## The conversions noted in a tree -/

namespace Widening

/-- The operands among some expressions that have conversions noted. -/
def noted (es : List Expr) : List Expr :=
  es.filter fun e => !e.note.widening.isEmpty

end Widening

mutual

/-- The expressions inside `e` with noted conversions, in the order in which checking noted them:
operands come before the operator they belong to. -/
def Expr.pending : Expr → List Expr
  | .operator _ _ es _ => Expr.pendings es ++ Widening.noted es
  | .arrayLiteral _ es => Expr.pendings es ++ Widening.noted es
  | .arrayAlloc _ _ l => l.pending ++ Widening.noted [l]
  | .index _ a i => a.pending ++ i.pending
  | .call _ f es => f.pending ++ Expr.pendings es ++ Widening.noted es
  | .lambda _ _ b => Stmt.pendings b
  | .number .. | .floatNumber .. | .char .. | .string .. | .bool .. | .ident .. | .typeLiteral .. => []

def Expr.pendings : List Expr → List Expr
  | [] => []
  | e :: es => e.pending ++ Expr.pendings es

def PrintItem.pendings : List PrintItem → List Expr
  | [] => []
  | .separator _ _ :: is => PrintItem.pendings is
  | .value e :: is => e.pending ++ PrintItem.pendings is

/-- The expressions of a statement with noted conversions. An assignment is checked value first. -/
def Stmt.pending : Stmt → List Expr
  | .varDecl _ _ _ e _ => e.pending
  | .assign _ t v => v.pending ++ t.pending
  | .print _ is => PrintItem.pendings is
  | .call _ c => c.pending
  | .give _ v => v.pending
  | .leave _ => []
  | .ifThen _ c b => c.pending ++ Stmt.pendings b
  | .ifElse _ c b a => c.pending ++ Stmt.pendings b ++ a.pending
  | .while _ c b => c.pending ++ Stmt.pendings b
  | .block _ b => Stmt.pendings b

def Stmt.pendings : List Stmt → List Expr
  | [] => []
  | s :: ss => s.pending ++ Stmt.pendings ss

end

/-- The expressions of a program with noted conversions, in the order in which checking noted them. -/
def Program.pending (p : Program) : List Expr :=
  p.funcs.flatMap (fun f => Stmt.pendings f.body) ++ Stmt.pendings p.main

end SubrLang
