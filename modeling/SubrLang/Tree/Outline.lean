import SubrLang.Number.Decimal
import SubrLang.Text.Quoted
import SubrLang.Tree

/-!
# Outlines

The outline of a tree has, for every node, the name of its kind, a line that describes it and what
checking found out about it. Trees are shown and walked over through their outlines.
-/

namespace SubrLang

/-- What checking adds to a node beside its type. -/
inductive Mark where
  | program (globalSize : Nat)
  | func (binding : Option Binding) (frameSize argSize : Nat)
  | param (binding : Option Binding)
  | decl (binding : Option Binding)
  | ident (binding : Option Binding)
  | operator (signature : Option Signature)

inductive Outline where
  | node (kind : String) (line : String) (mark : Option Mark) (children : List Outline)

namespace Outline

mutual

/-- The lines of an outline, each indented by two spaces for every level. -/
def dumpFrom (indent : String) : Outline → String
  | node _ line _ children => indent ++ line ++ "\n" ++ dumpAll (indent ++ "  ") children

/-- The lines of several outlines. -/
def dumpAll (indent : String) : List Outline → String
  | [] => ""
  | o :: os => dumpFrom indent o ++ dumpAll indent os

end

/-- The outline as a text. -/
def dump (o : Outline) : String := dumpFrom "" o

mutual

/-- The kinds of the nodes in the order in which they are met, without what lies below a node of a kind
to be skipped. -/
def walk (skip : String → Bool) : Outline → List String
  | node kind _ _ children => kind :: if skip kind then [] else walkAll skip children

/-- The kinds of the nodes of several outlines. -/
def walkAll (skip : String → Bool) : List Outline → List String
  | [] => []
  | o :: os => walk skip o ++ walkAll skip os

end

mutual

/-- The marks of the nodes in the order in which they are met. -/
def marks : Outline → List Mark
  | node _ _ mark children => mark.toList ++ marksAll children

/-- The marks of several outlines. -/
def marksAll : List Outline → List Mark
  | [] => []
  | o :: os => marks o ++ marksAll os

end

/-- A description with the type of the node, if it has one. -/
def typed (line : String) : Option Ty → String
  | none => line
  | some t => s!"{line} : {t.text}"

/-- An inner node or a leaf. -/
def make (kind line : String) (ty : Option Ty) (children : List Outline) : Outline :=
  node kind (typed line ty) none children

/-- A node with a mark. -/
def marked (kind line : String) (ty : Option Ty) (mark : Mark) (children : List Outline) : Outline :=
  node kind (typed line ty) (some mark) children

/-- A sequence of statements. -/
def block (children : List Outline) : Outline := make "Block" "Block" none children

end Outline

def Param.outline (p : Param) : Outline :=
  .marked "Param" s!"Param {p.name} {p.declared.text}" p.ty (.param p.binding) []

mutual

def Expr.outline : Expr → Outline
  | .number n v => .make "Number" s!"Number {v.toInt}" n.ty []
  | .floatNumber n v => .make "FloatNumber" s!"FloatNumber {Decimal.shortest v}" n.ty []
  | .char n v => .make "Char" s!"Char {Text.quoteChar (Char.ofNat v.toNat)}" n.ty []
  | .string n v => .make "String" s!"String {Text.quote v}" n.ty []
  | .bool n v => .make "Bool" s!"Bool {v}" n.ty []
  | .ident n s b => .marked "Ident" s!"Ident {s}" n.ty (.ident b) []
  | .operator n o es g => .marked "Operator" s!"Operator {o.name}" n.ty (.operator g) (Expr.outlines es)
  | .typeLiteral n t => .make "TypeLiteral" s!"TypeLiteral {t.text}" n.ty []
  | .arrayLiteral n es => .make "ArrayLiteral" "ArrayLiteral" n.ty (Expr.outlines es)
  | .arrayAlloc n t l => .make "ArrayAlloc" s!"ArrayAlloc {t.text}" n.ty [l.outline]
  | .index n a i => .make "Index" "Index" n.ty [a.outline, i.outline]
  | .call n f es => .make "FuncCall" "FuncCall" n.ty (f.outline :: Expr.outlines es)
  | .lambda n h b =>
    .marked "Lambda" s!"Lambda -> {h.result.text}" n.ty (.func h.binding h.frameSize h.argSize)
      (h.params.map Param.outline ++ [.block (Stmt.outlines b)])

def Expr.outlines : List Expr → List Outline
  | [] => []
  | e :: es => e.outline :: Expr.outlines es

def PrintItem.outline : PrintItem → Outline
  | .separator _ k => .make "PrintSeparator" s!"PrintSeparator {k.token.name}" none []
  | .value e => e.outline

def PrintItem.outlines : List PrintItem → List Outline
  | [] => []
  | i :: is => i.outline :: PrintItem.outlines is

def Stmt.outline : Stmt → Outline
  | .varDecl n s isConst e b =>
    let word := if isConst then "const" else "var"
    .marked "VarDecl" s!"VarDecl {word} {s}" n.ty (.decl b) [e.outline]
  | .assign n t v => .make "Assign" "Assign" n.ty [t.outline, v.outline]
  | .print n is => .make "Print" "Print" n.ty (PrintItem.outlines is)
  | .call n c => .make "CallStmt" "CallStmt" n.ty [c.outline]
  | .give n v => .make "Return" "Return" n.ty [v.outline]
  | .leave n => .make "Return" "Return" n.ty []
  | .ifThen n c b => .make "If" "If" n.ty [c.outline, .block (Stmt.outlines b)]
  | .ifElse n c b a => .make "If" "If" n.ty [c.outline, .block (Stmt.outlines b), a.outline]
  | .while n c b => .make "While" "While" n.ty [c.outline, .block (Stmt.outlines b)]
  | .block _ b => .block (Stmt.outlines b)

def Stmt.outlines : List Stmt → List Outline
  | [] => []
  | s :: ss => s.outline :: Stmt.outlines ss

end

def Func.outline (f : Func) : Outline :=
  .marked "FuncDecl" s!"FuncDecl {f.head.name} -> {f.head.result.text}" f.note.ty
    (.func f.head.binding f.head.frameSize f.head.argSize)
    (f.head.params.map Param.outline ++ [.block (Stmt.outlines f.body)])

def Program.outline (p : Program) : Outline :=
  .marked "Program" "Program" none (.program p.globalSize)
    (p.funcs.map Func.outline ++ [.block (Stmt.outlines p.main)])

end SubrLang
