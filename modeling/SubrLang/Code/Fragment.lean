import SubrLang.Code.Instr

/-!
# Code fragments

A fragment is a sequence of lines together with what it leaves on the operand stack: nothing, a value
or the address of one. `Fragment.value` completes an address with the load that fetches the value.
-/

namespace SubrLang

/-- The code of a program or of a part of it. -/
abbrev Code := List Line

/-- What code leaves on the operand stack. -/
inductive Residue where
  | void | value | address
deriving DecidableEq, Repr

def Residue.name : Residue → String
  | .void => "void"
  | .value => "value"
  | .address => "address"

structure Fragment where
  residue : Residue
  code : Code
deriving DecidableEq, Repr

/-- How a fragment can be misused. -/
inductive CodeFault where
  | needsOperand (op : Opcode)
  | takesNoInt (op : Opcode)
  | takesNoFloat (op : Opcode)
  | takesNoLabel (op : Opcode)
  | takesNoString (op : Opcode)
  | voidMarkedValue
  | valueExpected
deriving DecidableEq, Repr

def CodeFault.message : CodeFault → String
  | .needsOperand o => s!"asm: {o.name} requires an operand"
  | .takesNoInt o => s!"asm: {o.name} does not take an integer operand"
  | .takesNoFloat o => s!"asm: {o.name} does not take a float operand"
  | .takesNoLabel o => s!"asm: {o.name} does not take a label operand"
  | .takesNoString o => s!"asm: {o.name} does not take a string operand"
  | .voidMarkedValue => "asm: void fragment cannot become a value"
  | .valueExpected => "asm: expected a value fragment, got void"

/-- An operand that is yet to meet its opcode. -/
inductive Operand where
  | none
  | int (v : Int)
  | float (v : Binary64)
  | label (l : Label)
  | text (bytes : List UInt8)

/-- The instruction of an opcode and an operand, if the opcode takes operands of that kind. -/
def Opcode.with (o : Opcode) (x : Operand) : Except CodeFault Instr :=
  match x, o with
  | .none, .plain p => .ok (.plain p)
  | .int v, .int p => .ok (.int p v)
  | .float v, .float p => .ok (.float p v)
  | .label l, .label p => .ok (.label p l)
  | .text bs, .dataS => .ok (.dataS bs)
  | .none, _ => .error (.needsOperand o)
  | .int _, _ => .error (.takesNoInt o)
  | .float _, _ => .error (.takesNoFloat o)
  | .label _, _ => .error (.takesNoLabel o)
  | .text _, _ => .error (.takesNoString o)

namespace Code

/-- Code of one line. -/
def one (i : Instr) : Code := [⟨i, ""⟩]

/-- A sequence of instructions without an operand. -/
def ops (os : List PlainOp) : Code := os.map fun o => ⟨.plain o, ""⟩

def pushI (v : Int) : Code := one (.int .pushI v)

def pushF (v : Binary64) : Code := one (.float .pushF v)

def pushD (l : Label) : Code := one (.label .pushD l)

def label (l : Label) : Code := one (.label .label l)

def jump (l : Label) : Code := one (.label .jump l)

/-- A jump on a condition, or a call, to a label. -/
def branch (o : LabelOp) (l : Label) : Code := one (.label o l)

/-- A labelled data directive. -/
def cell (l : Label) (i : Instr) : Code := [⟨.label .dlabel l, ""⟩, ⟨i, ""⟩]

/-- Attaches a comment to the last line, if there is one. -/
def note (text : String) : Code → Code
  | [] => []
  | [l] => [{ l with comment := text }]
  | l :: ls => l :: note text ls

/-- The code as a listing, one line of text for each. -/
def text (c : Code) : List UInt8 :=
  c.flatMap fun l => l.text ++ [0x0a]

/-- A listing for the reader, which a program without any line does not have. -/
def listing? (c : Code) : Option (List UInt8) :=
  if c.isEmpty then none else some c.text

end Code

namespace Fragment

/-- Marks a fragment whose address has been fetched through. -/
def markValue (f : Fragment) : Except CodeFault Fragment :=
  if f.residue = .void then .error .voidMarkedValue else .ok { f with residue := .value }

/-- The fragment completed to one that leaves a value: an address is followed by `load`. -/
def value (f : Fragment) (load : Opcode) : Except CodeFault Fragment :=
  match f.residue with
  | .void => .error .valueExpected
  | .value => .ok f
  | .address => do
    let i ← load.with .none
    return ⟨.value, f.code ++ Code.one i⟩

end Fragment

end SubrLang
