import SubrLang.Code.Instr
import SubrLang.Number.Amount

/-!
# Faults of the machine

What can go wrong when an instruction is executed, and how a run can end.
-/

namespace SubrLang

/-- An entry of the operand stack. -/
inductive Word where
  | int (v : Int32)
  | float (v : Binary64)
deriving DecidableEq, Repr

def Word.text : Word → String
  | .int v => s!"{v.toInt}"
  | .float v => Decimal.shortest v

/-- Why an instruction cannot be executed. -/
inductive Fault where
  | stackUnderflow
  | badAddress (addr : Int32)
  /-- No text starts at the address. -/
  | badText (addr : Int32)
  /-- The text at the address does not end inside memory. -/
  | endlessText (addr : Int32)
  | integerExpected (found : Binary64)
  | floatExpected (found : Int32)
  | badJump (target : Int32)
  | divideByZero
  /-- A format ends in a percent sign. -/
  | openConversion (format : List UInt8)
  | unknownConversion (letter : UInt8) (format : List UInt8)
  | notExecutable (op : Opcode)
deriving DecidableEq, Repr

def Fault.message : Fault → String
  | .stackUnderflow => "operand stack underflow"
  | .badAddress a => s!"memory access out of range: address {a.toInt}"
  | .badText a => s!"memory access out of range: string at {a.toInt}"
  | .endlessText a => s!"memory access out of range: unterminated string at {a.toInt}"
  | .integerExpected f => s!"operand type mismatch: expected integer, found float {Decimal.shortest f}"
  | .floatExpected v => s!"operand type mismatch: expected float, found integer {v.toInt}"
  | .badJump t => s!"jump target out of range: {t.toInt}"
  | .divideByZero => "unguarded division by zero"
  | .openConversion f => s!"format {Text.quoteBytes f} ends in '%'"
  | .unknownConversion c f =>
    let letter := String.singleton (Char.ofNat c.toNat)
    s!"unsupported conversion %{letter} in {Text.quoteBytes f}"
  | .notExecutable o => s!"cannot execute {o.name}"

/-- Why a run ends before the program does. -/
inductive RunError where
  | stepLimit (steps : Nat)
  | canceled
  | fault (pc : Nat) (op : Opcode) (f : Fault)
deriving DecidableEq, Repr

def RunError.message : RunError → String
  | .stepLimit n => s!"step limit exceeded after {Amount.grouped n} steps"
  | .canceled => "context canceled"
  | .fault pc op f => s!"instruction {pc} ({op.name}): {f.message}"

end SubrLang
