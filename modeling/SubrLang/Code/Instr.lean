import SubrLang.Code.Label
import SubrLang.Number.Decimal
import SubrLang.Text.Quoted

/-!
# Instructions

The instruction stream of the stack machine: code, labels and data directives in one sequence.
Instructions are sorted by the kind of operand they take, so that an instruction always has the
operand that belongs to it.
-/

namespace SubrLang

/-- Instructions without an operand. -/
inductive PlainOp where
  | nop | pop | duplicate | exchange
  | add | subtract | negate | multiply | divide
  | fadd | fsubtract | fnegate | fmultiply | fdivide | convertF | convertI
  | and | or | bnegate | btAnd | btOr | btNegate
  | loadC | loadI | loadF | storeC | storeI | storeF
  | callV | return | pushPC | halt | printf | memtop
  /-- A number that is no instruction; running it is a fault. -/
  | other (code : Int)
deriving DecidableEq, Repr, Inhabited

/-- Instructions and directives with an integer. -/
inductive IntOp where
  | pushI | dataC | dataI | dataZ
deriving DecidableEq, Repr

/-- Instructions and directives with a float. -/
inductive FloatOp where
  | pushF | dataF
deriving DecidableEq, Repr

/-- Instructions and directives with a label. -/
inductive LabelOp where
  | pushD | label | dlabel | dataD
  | jump | jumpTrue | jumpFalse | jumpPos | jumpNeg | jumpFZero | jumpFPos | jumpFNeg | call
deriving DecidableEq, Repr

/-- An instruction without its operand. -/
inductive Opcode where
  | plain (o : PlainOp)
  | int (o : IntOp)
  | float (o : FloatOp)
  | label (o : LabelOp)
  | dataS
deriving DecidableEq, Repr

namespace Opcode

/-- The names of the opcodes in the order of their numbers, which start at zero. -/
def table : List (String × Opcode) :=
  [("Nop", plain .nop), ("PushI", int .pushI), ("PushF", float .pushF), ("PushD", label .pushD),
   ("Pop", plain .pop), ("Duplicate", plain .duplicate), ("Exchange", plain .exchange),
   ("Add", plain .add), ("Subtract", plain .subtract), ("Negate", plain .negate),
   ("Multiply", plain .multiply), ("Divide", plain .divide),
   ("FAdd", plain .fadd), ("FSubtract", plain .fsubtract), ("FNegate", plain .fnegate),
   ("FMultiply", plain .fmultiply), ("FDivide", plain .fdivide),
   ("ConvertF", plain .convertF), ("ConvertI", plain .convertI),
   ("And", plain .and), ("Or", plain .or), ("BNegate", plain .bnegate),
   ("BTAnd", plain .btAnd), ("BTOr", plain .btOr), ("BTNegate", plain .btNegate),
   ("LoadC", plain .loadC), ("LoadI", plain .loadI), ("LoadF", plain .loadF),
   ("StoreC", plain .storeC), ("StoreI", plain .storeI), ("StoreF", plain .storeF),
   ("Label", label .label), ("DLabel", label .dlabel),
   ("DataC", int .dataC), ("DataI", int .dataI), ("DataF", float .dataF), ("DataS", dataS),
   ("DataZ", int .dataZ), ("DataD", label .dataD),
   ("Jump", label .jump), ("JumpTrue", label .jumpTrue), ("JumpFalse", label .jumpFalse),
   ("JumpPos", label .jumpPos), ("JumpNeg", label .jumpNeg), ("JumpFZero", label .jumpFZero),
   ("JumpFPos", label .jumpFPos), ("JumpFNeg", label .jumpFNeg),
   ("Call", label .call), ("CallV", plain .callV), ("Return", plain .return),
   ("PushPC", plain .pushPC), ("Halt", plain .halt), ("Printf", plain .printf),
   ("Memtop", plain .memtop)]

def name (o : Opcode) : String :=
  match o with
  | plain (.other n) => s!"Opcode({n})"
  | o => ((table.find? (·.2 == o)).map (·.1)).getD ""

def ofName? (s : String) : Option Opcode :=
  table.lookup s

/-- The opcode with a number. -/
def ofNumber (n : Int) : Opcode :=
  match (if n < 0 then none else table[n.toNat]?) with
  | some (_, o) => o
  | none => plain (.other n)

/-- Whether the opcode declares static data. -/
def isData : Opcode → Bool
  | int .pushI => false
  | int _ => true
  | float .dataF => true
  | label .dlabel => true
  | label .dataD => true
  | dataS => true
  | _ => false

end Opcode

/-- An instruction, a label or a data directive. -/
inductive Instr where
  | plain (o : PlainOp)
  | int (o : IntOp) (v : Int)
  | float (o : FloatOp) (v : Binary64)
  | label (o : LabelOp) (l : Label)
  | dataS (bytes : List UInt8)
deriving DecidableEq, Repr, Inhabited

namespace Instr

def opcode : Instr → Opcode
  | plain o => .plain o
  | int o _ => .int o
  | float o _ => .float o
  | label o _ => .label o
  | dataS _ => .dataS

/-- How the operand is written. -/
def operandText : Instr → List UInt8
  | plain _ => []
  | int _ v => Text.Utf8.encode s!"{v}"
  | float _ v => Text.Utf8.encode (Decimal.shortest v)
  | label _ l => l.toBytes
  | dataS bs => Text.Utf8.encode (Text.quoteBytes bs)

/-- Whether the instruction has an operand. -/
def hasOperand : Instr → Bool
  | plain _ => false
  | _ => true

/-- Whether the line of a listing starts at its left end. -/
def isFlush : Instr → Bool
  | label .label _ => true
  | label .dlabel _ => true
  | _ => false

end Instr

/-- A line of a listing: an instruction with a comment for the reader. -/
structure Line where
  instr : Instr
  comment : String := ""
deriving DecidableEq, Repr, Inhabited

/-- How a line is written. -/
def Line.text (l : Line) : List UInt8 :=
  let indent := if l.instr.isFlush then "" else "        "
  let operand := if l.instr.hasOperand then 0x20 :: l.instr.operandText else []
  let comment := if l.comment.isEmpty then "" else s!"  % {l.comment}"
  Text.Utf8.encode (indent ++ l.instr.opcode.name) ++ operand ++ Text.Utf8.encode comment

end SubrLang
