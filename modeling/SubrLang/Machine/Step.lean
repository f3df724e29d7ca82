import SubrLang.Machine.Format
import SubrLang.Machine.Image
import SubrLang.Machine.Memory

/-!
# Executing instructions

The machine has a memory, an operand stack of words and a program counter, and writes bytes. Integers
are 32 bits wide and wrap around; division goes toward zero. Operands are popped before they are looked
at, so an instruction that faults may have taken words off the stack.
-/

namespace SubrLang

structure Machine where
  memory : Memory
  /-- The operand stack, its bottom first. -/
  stack : Array Word := #[]
  /-- The number of the next instruction. -/
  pc : Nat := 0
  /-- What was written so far. -/
  output : ByteArray := .empty
  /-- The greatest height of the operand stack so far. -/
  peak : Nat := 0
  /-- The number of instructions executed so far. -/
  steps : Nat := 0
  /-- The bytes in use on the heap when a run ended well. -/
  heap : Int := 0

/-- Executing changes the machine, also when it ends in a fault. -/
abbrev Exec := EStateM Fault Machine

namespace Exec

def push (w : Word) : Exec Unit :=
  modify fun m =>
    let stack := m.stack.push w
    { m with stack, peak := max m.peak stack.size }

def pushInt (v : Int32) : Exec Unit := push (.int v)

def pushFloat (v : Binary64) : Exec Unit := push (.float v)

/-- A truth value as a word. -/
def pushBool (b : Bool) : Exec Unit := pushInt (if b then 1 else 0)

def pop : Exec Word := do
  match (← get).stack.back? with
  | some w =>
    modify fun m => { m with stack := m.stack.pop }
    return w
  | none => throw .stackUnderflow

def popInt : Exec Int32 := do
  match ← pop with
  | .int v => return v
  | .float f => throw (.integerExpected f)

def popFloat : Exec Binary64 := do
  match ← pop with
  | .float f => return f
  | .int v => throw (.floatExpected v)

/-- An instruction on two integers, of which the second is on top. -/
def intBinary (f : Int32 → Int32 → Int32) : Exec Unit := do
  let b ← popInt
  let a ← popInt
  pushInt (f a b)

/-- An instruction on two integers whose result is a truth value. -/
def boolBinary (f : Int32 → Int32 → Bool) : Exec Unit := do
  let b ← popInt
  let a ← popInt
  pushBool (f a b)

def floatBinary (f : Binary64 → Binary64 → Binary64) : Exec Unit := do
  let b ← popFloat
  let a ← popFloat
  pushFloat (f a b)

/-- A division, where zero does not divide. -/
def divide : Exec Unit := do
  let b ← popInt
  let a ← popInt
  if b = 0 then throw .divideByZero
  pushInt (a / b)

def duplicate : Exec Unit := do
  match (← get).stack.back? with
  | some w => push w
  | none => throw .stackUnderflow

/-- Exchanges the two words on top. Without two words the stack stays as it is. -/
def exchange : Exec Unit := do
  if (← get).stack.size < 2 then throw .stackUnderflow
  let b ← pop
  let a ← pop
  push b
  push a

/-- The result of an access to an address. -/
def access {α : Type} (addr : Int32) : Option α → Exec α
  | some a => return a
  | none => throw (.badAddress addr)

def loadChar : Exec Unit := do
  let addr ← popInt
  pushInt (← access addr ((← get).memory.loadChar? addr))

def loadInt : Exec Unit := do
  let addr ← popInt
  pushInt (← access addr ((← get).memory.loadInt? addr))

def loadFloat : Exec Unit := do
  let addr ← popInt
  pushFloat (← access addr ((← get).memory.loadFloat? addr))

/-- Changes `n` bytes of memory from an address on, if memory holds them. -/
def write (addr : Int32) (n : Nat) (f : Memory → Nat → Memory) : Exec Unit :=
  fun m =>
    if m.memory.holds addr n then
      .ok () { m with memory := f m.memory addr.toNatClampNeg }
    else .error (.badAddress addr) m

def storeChar : Exec Unit := do
  let v ← popInt
  let addr ← popInt
  write addr 1 (·.setChar · v)

def storeInt : Exec Unit := do
  let v ← popInt
  let addr ← popInt
  write addr 4 (·.setInt · v)

def storeFloat : Exec Unit := do
  let v ← popFloat
  let addr ← popInt
  write addr 8 (·.setFloat · v)

/-- Continues at the instruction with a number. The end of the code is a target too. -/
def jump (img : Image) (target : Int32) : Exec Unit := do
  if target < 0 || img.code.size < target.toNatClampNeg then throw (.badJump target)
  modify ({ · with pc := target.toNatClampNeg })

/-- Pops an integer and jumps if it has a property. -/
def jumpIf (img : Image) (target : Int32) (p : Int32 → Bool) : Exec Unit := do
  if p (← popInt) then jump img target

/-- Pops a float and jumps if it has a property. -/
def jumpIfFloat (img : Image) (target : Int32) (p : Binary64 → Bool) : Exec Unit := do
  if p (← popFloat) then jump img target

/-- Pushes the number of the next instruction. -/
def pushNext : Exec Unit := do
  pushInt (Int32.ofNat (← get).pc)

/-! ## Formatted output -/

/-- The text at an address. -/
def textAt (addr : Int32) : Exec (List UInt8) := do
  let memory := (← get).memory
  if addr < 0 || memory.size ≤ addr.toNatClampNeg then throw (.badText addr)
  match memory.textAt? addr.toNatClampNeg with
  | some bs => return bs
  | none => throw (.endlessText addr)

/-- Pops a word and writes it. -/
def popConverted : Conversion → Exec (List UInt8)
  | .float => return Text.Utf8.encode (Decimal.fixed 6 (← popFloat))
  | .int => return Text.Utf8.encode s!"{(← popInt).toInt}"
  | .char => return [(← popInt).toUInt32.toUInt8]
  | .text => do textAt (← popInt)

/-- Pops one word for each of some conversions, the last one first. -/
def popArgs : List Conversion → Exec (List (List UInt8))
  | [] => return []
  | c :: cs => do
    let rest ← popArgs cs
    let arg ← popConverted c
    return arg :: rest

/-- Pops the address of a format and one word for each of its conversions, the last one on top, and
writes them. Nothing is written if any of them is at fault. -/
def printf : Exec Unit := do
  let format ← textAt (← popInt)
  match Format.parts format format with
  | .error f => throw f
  | .ok parts =>
    let args ← popArgs (Format.conversions parts)
    let text : ByteArray := ⟨(Format.fill parts args).toArray⟩
    modify fun m => { m with output := m.output ++ text }

/-! ## Instructions -/

/-- Executes an instruction without an operand other than `Halt`. -/
def plain (img : Image) : PlainOp → Exec Unit
  | .nop => return ()
  | .pop => discard pop
  | .duplicate => duplicate
  | .exchange => exchange
  | .add => intBinary (· + ·)
  | .subtract => intBinary (· - ·)
  | .multiply => intBinary (· * ·)
  | .divide => divide
  | .and => boolBinary fun a b => a != 0 && b != 0
  | .or => boolBinary fun a b => a != 0 || b != 0
  | .btAnd => intBinary (· &&& ·)
  | .btOr => intBinary (· ||| ·)
  | .fadd => floatBinary Binary64.add
  | .fsubtract => floatBinary Binary64.sub
  | .fmultiply => floatBinary Binary64.mul
  | .fdivide => floatBinary Binary64.div
  | .negate => do pushInt (-(← popInt))
  | .bnegate => do pushBool ((← popInt) == 0)
  | .btNegate => do pushInt (~~~(← popInt))
  | .convertF => do pushFloat (Binary64.ofInt32 (← popInt))
  | .fnegate => do pushFloat (← popFloat).neg
  | .convertI => do pushInt (← popFloat).toInt32
  | .loadC => loadChar
  | .loadI => loadInt
  | .loadF => loadFloat
  | .storeC => storeChar
  | .storeI => storeInt
  | .storeF => storeFloat
  | .callV => do
    let target ← popInt
    pushNext
    jump img target
  | .return => do jump img (← popInt)
  | .pushPC => do pushInt (Int32.ofNat ((← get).pc - 1))
  | .halt => return ()
  | .printf => printf
  | .memtop => do pushInt (Int32.ofNat (← get).memory.size)
  | .other n => throw (.notExecutable (.plain (.other n)))

/-- Executes an instruction with a label that stands for `target`. -/
def labelled (img : Image) (target : Int32) : LabelOp → Exec Unit
  | .pushD => pushInt target
  | .jump => jump img target
  | .jumpTrue => jumpIf img target (· != 0)
  | .jumpFalse => jumpIf img target (· == 0)
  | .jumpPos => jumpIf img target (0 < ·)
  | .jumpNeg => jumpIf img target (· < 0)
  | .jumpFZero => jumpIfFloat img target Binary64.isZero
  | .jumpFPos => jumpIfFloat img target Binary64.isPositive
  | .jumpFNeg => jumpIfFloat img target Binary64.isBelowZero
  | .call => do
    pushNext
    jump img target
  | o => throw (.notExecutable (.label o))

/-- Executes an instruction. The program counter stands behind it already. -/
def instr (img : Image) (r : Resolved) : Exec Unit :=
  match r.instr with
  | .plain o => plain img o
  | .int .pushI v => pushInt (Int32.ofInt v)
  | .float .pushF v => pushFloat v
  | .label o _ => labelled img r.target o
  | i => throw (.notExecutable i.opcode)

end Exec

end SubrLang
