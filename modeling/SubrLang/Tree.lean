import SubrLang.Number.Binary64
import SubrLang.Scope
import SubrLang.Signature

/-!
# Syntax trees

The tree of a program as it is read, and what checking adds to it. Every node has a note with its place
in the source. Checking fills in types, the bindings of names, the signatures of operators, the sizes of
frames and the subroutines that return statements belong to; until then these are missing.

An expression also carries the conversions that are pending for it where it stands: the types it has to
be widened to, innermost first.
-/

namespace SubrLang

/-- What is known about a node. -/
structure Note where
  place : Place
  ty : Option Ty := none
  /-- Conversions to be wrapped around an operand, innermost first. -/
  widening : List Prim := []
  /-- The place of the subroutine that a return statement belongs to. -/
  subroutine : Option Place := none
deriving Repr, Inhabited

/-- A parameter of a subroutine. -/
structure Param where
  place : Place
  name : String
  declared : Ty
  ty : Option Ty := none
  binding : Option Binding := none
deriving Repr

/-- A subroutine without its body. One without a name is an expression. -/
structure FuncHead where
  name : String
  params : List Param
  result : Ty
  binding : Option Binding := none
  /-- The bytes below the frame pointer: saved words and local variables. -/
  frameSize : Nat := 0
  /-- The bytes above the frame pointer: the arguments. -/
  argSize : Nat := 0
deriving Repr

/-- The type of the subroutine. -/
def FuncHead.ty (h : FuncHead) : Ty :=
  .func (h.params.map (·.declared)) h.result

/-- What a print statement writes between values. -/
inductive Separator where
  | space | newline | tab
deriving DecidableEq, Repr

def Separator.token : Separator → TokenKind
  | .space => .printSpace
  | .newline => .printNewline
  | .tab => .printTab

mutual

/-- Expressions. A conversion is an operator `cast` whose first operand is a type literal. -/
inductive Expr where
  | number (note : Note) (value : Int32)
  | floatNumber (note : Note) (value : Binary64)
  | char (note : Note) (value : UInt8)
  | string (note : Note) (value : String)
  | bool (note : Note) (value : Bool)
  | ident (note : Note) (name : String) (binding : Option Binding)
  | operator (note : Note) (op : TokenKind) (operands : List Expr) (signature : Option Signature)
  | typeLiteral (note : Note) (target : Ty)
  | arrayLiteral (note : Note) (elems : List Expr)
  | arrayAlloc (note : Note) (elem : Ty) (length : Expr)
  | index (note : Note) (array index : Expr)
  | call (note : Note) (callee : Expr) (args : List Expr)
  | lambda (note : Note) (head : FuncHead) (body : List Stmt)

/-- What a print statement writes. -/
inductive PrintItem where
  | separator (place : Place) (kind : Separator)
  | value (e : Expr)

/-- Statements. A return statement with a value is `give`, one without is `leave`. -/
inductive Stmt where
  | varDecl (note : Note) (name : String) (isConst : Bool) (init : Expr) (binding : Option Binding)
  | assign (note : Note) (target value : Expr)
  | print (note : Note) (items : List PrintItem)
  | call (note : Note) (call : Expr)
  | give (note : Note) (value : Expr)
  | leave (note : Note)
  | ifThen (note : Note) (cond : Expr) (body : List Stmt)
  | ifElse (note : Note) (cond : Expr) (body : List Stmt) (alternative : Stmt)
  | while (note : Note) (cond : Expr) (body : List Stmt)
  | block (note : Note) (body : List Stmt)

end

/-- A named subroutine. -/
structure Func where
  note : Note
  head : FuncHead
  body : List Stmt

/-- A program: its subroutines and its main block. -/
structure Program where
  place : Place
  funcs : List Func
  main : List Stmt
  /-- The bytes of the global block. -/
  globalSize : Nat := 0

namespace Expr

def note : Expr → Note
  | number n _ | floatNumber n _ | char n _ | string n _ | bool n _ | ident n _ _
  | operator n _ _ _ | typeLiteral n _ | arrayLiteral n _ | arrayAlloc n _ _ | index n _ _
  | call n _ _ | lambda n _ _ => n

/-- The expression with another note. -/
def withNote (e : Expr) (n : Note) : Expr :=
  match e with
  | number _ v => number n v
  | floatNumber _ v => floatNumber n v
  | char _ v => char n v
  | string _ v => string n v
  | bool _ v => bool n v
  | ident _ s b => ident n s b
  | operator _ o es g => operator n o es g
  | typeLiteral _ t => typeLiteral n t
  | arrayLiteral _ es => arrayLiteral n es
  | arrayAlloc _ t l => arrayAlloc n t l
  | index _ a i => index n a i
  | call _ f as => call n f as
  | lambda _ h b => lambda n h b

/-- The type that checking gave to an expression. -/
def ty? (e : Expr) : Option Ty := e.note.ty

/-- The expression with a type. -/
def withTy (e : Expr) (t : Ty) : Expr :=
  e.withNote { e.note with ty := some t }

/-- The expression with the conversions that are pending where it stands. -/
def withWidening (e : Expr) (chain : List Prim) : Expr :=
  e.withNote { e.note with widening := chain }

/-- A type as the operand of a conversion. -/
def ofType (place : Place) (t : Ty) : Expr :=
  typeLiteral { place, ty := some (.literal t) } t

/-- The name of the kind of an expression. -/
def kind : Expr → String
  | number .. => "Number"
  | floatNumber .. => "FloatNumber"
  | char .. => "Char"
  | string .. => "String"
  | bool .. => "Bool"
  | ident .. => "Ident"
  | operator .. => "Operator"
  | typeLiteral .. => "TypeLiteral"
  | arrayLiteral .. => "ArrayLiteral"
  | arrayAlloc .. => "ArrayAlloc"
  | index .. => "Index"
  | call .. => "FuncCall"
  | lambda .. => "Lambda"

end Expr

namespace Stmt

def note : Stmt → Note
  | varDecl n _ _ _ _ | assign n _ _ | print n _ | call n _ | give n _ | leave n | ifThen n _ _
  | ifElse n _ _ _ | «while» n _ _ | block n _ => n

/-- Whether control does not go past the statement. -/
def isReturn : Stmt → Bool
  | give .. | leave .. => true
  | _ => false

end Stmt

end SubrLang
