/-!
# Static types

The types of the language and the two kinds that only operator signatures mention: type variables,
which match any type, and type literals, the operand of a conversion that names its target.
-/

namespace SubrLang

/-- The types without parts. `error` is the type of an expression that was found faulty. -/
inductive Prim where
  | boolean | character | integer | float | string | void | error
deriving DecidableEq, Repr, Inhabited

namespace Prim

def name : Prim → String
  | boolean => "BOOLEAN"
  | character => "CHARACTER"
  | integer => "INTEGER"
  | float => "FLOAT"
  | string => "STRING"
  | void => "VOID"
  | error => "ERROR"

/-- The number of bytes that a value takes in memory. A string is a reference to its record. -/
def size : Prim → Nat
  | boolean => 1
  | character => 1
  | integer => 4
  | float => 8
  | string => 4
  | void => 0
  | error => 0

end Prim

/-- A type variable. Variables of different owners are different, whatever their names. -/
structure TyVar where
  name : String
  owner : Nat := 0
deriving DecidableEq, Repr

inductive Ty where
  | prim (p : Prim)
  | array (elem : Ty)
  | func (params : List Ty) (result : Ty)
  | var (v : TyVar)
  | literal (t : Ty)
deriving Repr, Inhabited

namespace Ty

abbrev boolean : Ty := prim .boolean
abbrev character : Ty := prim .character
abbrev integer : Ty := prim .integer
abbrev float : Ty := prim .float
abbrev string : Ty := prim .string
abbrev void : Ty := prim .void
abbrev error : Ty := prim .error

/-- The number of bytes that a value takes in memory. Arrays and functions are references; variables
and literals have no values. -/
def size : Ty → Nat
  | prim p => p.size
  | array _ => 4
  | func _ _ => 4
  | var _ => 0
  | literal _ => 0

mutual

/-- How a type is written. -/
def text : Ty → String
  | prim p => p.name
  | array t => s!"[{t.text}]"
  | func [] r => s!"<-> {r.text}>"
  | func (p :: ps) r => s!"<{p.text}{textTail ps} -> {r.text}>"
  | var v => s!"<{v.name}>"
  | literal t => s!"TYPE({t.text})"

/-- The remaining types of a list, each after a comma. -/
def textTail : List Ty → String
  | [] => ""
  | t :: ts => s!", {t.text}{textTail ts}"

end

/-- A list of types as messages show it. -/
def listText (ts : List Ty) : String :=
  let body := ", ".intercalate (ts.map text)
  s!"[{body}]"

/-- Whether values are references to records. -/
def isReference : Ty → Bool
  | array _ => true
  | prim .string => true
  | _ => false

def isError : Ty → Bool
  | prim .error => true
  | _ => false

def isVoid : Ty → Bool
  | prim .void => true
  | _ => false

/-- Whether the type is the given one without parts. -/
def isPrim (p : Prim) : Ty → Bool
  | prim q => p == q
  | _ => false

/-- The type that a keyword names. -/
def ofKeyword? (s : String) : Option Ty :=
  [("bool", boolean), ("char", character), ("int", integer), ("float", float), ("string", string),
    ("void", void)].lookup s

mutual

/-- The number of constructors of a type. -/
def weight : Ty → Nat
  | prim _ => 1
  | array t => t.weight + 1
  | func ps r => weights ps + r.weight + 1
  | var _ => 1
  | literal t => t.weight + 1

/-- The number of constructors of a list of types. -/
def weights : List Ty → Nat
  | [] => 0
  | t :: ts => t.weight + weights ts

end

end Ty

end SubrLang
