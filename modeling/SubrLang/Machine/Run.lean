import SubrLang.Code.Layout
import SubrLang.Machine.Stats
import SubrLang.Machine.Step
import SubrLang.Settings

/-!
# Runs

A run goes from the first instruction to a halt or to the end of the code. A machine can be run several
times: memory, stack and counters carry over. A run that ends well records how much of the heap is in
use.

Runs without a limit need not end, so `runFor` takes the number of instructions after which it stops
looking; `Machine.run` passes one that the limit makes sufficient, or one that is out of reach.
-/

namespace SubrLang

/-- Why a program cannot be loaded. -/
inductive LoadError where
  /-- The data of the program need more bytes than memory has. -/
  | dataTooLarge (data : Nat) (memory : Int)
  /-- There is no memory of that size. -/
  | hugeMemory (memory : Int)
deriving DecidableEq, Repr

def LoadError.message : LoadError → String
  | .dataTooLarge data memory =>
    let data := Amount.binarySize (UInt64.ofNat data)
    let memory := Amount.binarySize (UInt64.ofInt memory)
    s!"program data needs {data}, memory is {memory}"
  | .hugeMemory memory => s!"memory cannot have {memory} bytes"

/-- A machine with a program's data in memory. -/
def Image.load (img : Image) (size : Int) : Except LoadError Machine :=
  if size < img.dataSize then .error (.dataTooLarge img.dataSize size)
  else if maxBytes < size then .error (.hugeMemory size)
  else .ok { memory := .ofChunks img.chunks size.toNat }

/-- How a run ends. -/
inductive Ending where
  /-- The program came to its end. -/
  | finished
  | error (e : RunError)
  /-- The program was still running when watching it was given up. -/
  | running
deriving DecidableEq, Repr

/-- Under which conditions a run goes on. -/
structure RunLimits where
  /-- The number of instructions that may be executed; zero or less is no limit. -/
  steps : Int
  /-- Whether the run has been called off before it starts. -/
  canceled : Bool := false

/-- How many instructions are executed between two looks at whether the run was called off. -/
def cancelInterval : Nat := 16384

namespace Machine

def stats (m : Machine) : Stats := { steps := m.steps, peak := m.peak, heap := m.heap }

/-- Why a run stops before the next instruction. -/
def stop? (l : RunLimits) (m : Machine) : Option RunError :=
  if 0 < l.steps && l.steps ≤ m.steps then some (.stepLimit m.steps)
  else if l.canceled && m.steps % cancelInterval = 0 then some .canceled
  else none

/-- Counts an instruction and moves behind it. -/
def advance (m : Machine) : Machine :=
  { m with pc := m.pc + 1, steps := m.steps + 1 }

/-- Records how much of the heap is in use, if the program has one. -/
def recordHeap (img : Image) (m : Machine) : Machine :=
  match img.labels.data.lookup (.text Cell.heapNextFree),
      img.labels.data.lookup (.text Cell.heapStart) with
  | some cell, some start =>
    match m.memory.loadInt? cell with
    | some next => { m with heap := (next - start).toInt }
    | none => m
  | _, _ => m

/-- Goes on with a run for at most `fuel` instructions. -/
def runFor (img : Image) (l : RunLimits) : (fuel : Nat) → Machine → Machine × Ending
  | 0, m => (m, .running)
  | fuel + 1, m =>
    match img.code[m.pc]? with
    | none => (m.recordHeap img, .finished)
    | some r =>
      match stop? l m with
      | some e => (m, .error e)
      | none =>
        let pc := m.pc
        match Exec.instr img r m.advance with
        | .error f m => (m, .error (.fault pc r.instr.opcode f))
        | .ok () m => if r.isHalt then (m.recordHeap img, .finished) else runFor img l fuel m

/-- A number of instructions that no run reaches. It is above every limit of 64 bits. -/
def outOfReach : Nat := 1 <<< 63

/-- A number of instructions that suffices for a run within limits. -/
def fuel (l : RunLimits) (m : Machine) : Nat :=
  if 0 < l.steps then (l.steps - m.steps).toNat + 1 else outOfReach

/-- Runs a program from its start. -/
def run (img : Image) (l : RunLimits) (m : Machine) : Machine × Ending :=
  runFor img l (fuel l m) { m with pc := 0 }

/-- The operand stack as a text, its bottom first. -/
def stackText (m : Machine) : String :=
  " ".intercalate (m.stack.toList.map Word.text)

/-- The operand stack after each of the first `count` instructions that are executed within limits. -/
def trace (img : Image) (l : RunLimits) : (count : Nat) → Machine → List String
  | 0, _ => []
  | count + 1, m =>
    match img.code[m.pc]?, stop? l m with
    | some r, none =>
      match Exec.instr img r m.advance with
      | .error _ m => [m.stackText]
      | .ok () m => m.stackText :: if r.isHalt then [] else trace img l count m
    | _, _ => []

/-- Why the word at a data label cannot be read. -/
inductive SymbolError where
  | noLabel (l : Label)
  | fault (f : Fault)

def SymbolError.message : SymbolError → List UInt8
  | .noLabel l => Text.Utf8.encode "no data label " ++ l.toBytes
  | .fault f => Text.Utf8.encode f.message

/-- The word at a data label. -/
def symbol (img : Image) (m : Machine) (label : Label) : Except SymbolError Int32 :=
  match img.labels.data.lookup label with
  | none => .error (.noLabel label)
  | some addr =>
    match m.memory.loadInt? addr with
    | some v => .ok v
    | none => .error (.fault (.badAddress addr))

end Machine

end SubrLang
