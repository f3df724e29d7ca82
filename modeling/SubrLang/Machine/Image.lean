import SubrLang.Code.Fragment
import SubrLang.Machine.Memory

/-!
# Program images

Assembling sorts a program into code and data. Data directives are laid out from address zero in the
order in which they stand, wherever they stand; a data label is the address of what comes next, and a
code label the number of the instruction that comes next. Label operands may refer to either.
-/

namespace SubrLang

/-- Why a program cannot be assembled. -/
inductive AssembleError where
  | definedTwice (l : Label)
  | negativeSize (size : Int)
  /-- More bytes than there are addresses. -/
  | hugeSize (size : Int)
  | undefinedTarget (index : Nat) (op : Opcode) (l : Label)
  | undefinedData (addr : Nat) (l : Label)
deriving DecidableEq, Repr

open Text.Utf8 (encode) in
def AssembleError.message : AssembleError → List UInt8
  | .definedTwice l => encode "label " ++ l.toBytes ++ encode " defined twice"
  | .negativeSize n => encode s!"DataZ with negative size {n}"
  | .hugeSize n => encode s!"DataZ with huge size {n}"
  | .undefinedTarget i op l =>
    encode s!"instruction {i} ({op.name}): undefined label " ++ l.toBytes
  | .undefinedData a l => encode s!"DataD at {a}: undefined label " ++ l.toBytes

/-- Where labels are. -/
structure Labels where
  /-- Code labels with the numbers of instructions, the latest first. -/
  code : List (Label × Int32) := []
  /-- Data labels with addresses, the latest first. -/
  data : List (Label × Int32) := []
deriving Repr

namespace Labels

/-- What a label stands for. -/
def find? (ls : Labels) (l : Label) : Option Int32 :=
  (ls.data.lookup l).or (ls.code.lookup l)

end Labels

/-- The bytes of a word, the low one first. -/
def wordBytes (w : UInt32) : List UInt8 :=
  [w.toUInt8, (w >>> 8).toUInt8, (w >>> 16).toUInt8, (w >>> 24).toUInt8]

namespace Instr

/-- The number of bytes that a directive lays out. -/
def dataSize : Instr → Nat
  | int .dataC _ => 1
  | int .dataI _ => 4
  | int .dataZ n => n.toNat
  | float .dataF _ => 8
  | label .dataD _ => 4
  | dataS bs => bs.length + 1
  | _ => 0

/-- Whether the instruction is executed, rather than being a label or a data directive. -/
def isCode : Instr → Bool
  | plain _ => true
  | int .pushI _ => true
  | int _ _ => false
  | float .pushF _ => true
  | float .dataF _ => false
  | label .label _ | label .dlabel _ | label .dataD _ => false
  | label _ _ => true
  | dataS _ => false

end Instr

/-- An instruction with the number that its label operand stands for, or zero. -/
structure Resolved where
  line : Line
  target : Int32
deriving Repr, Inhabited

def Resolved.instr (r : Resolved) : Instr := r.line.instr

/-- Whether the instruction ends a run. -/
def Resolved.isHalt (r : Resolved) : Bool :=
  match r.instr with
  | .plain .halt => true
  | _ => false

/-- An assembled program. -/
structure Image where
  code : Array Resolved
  /-- The static data, from address zero on. -/
  chunks : List Chunk
  labels : Labels

/-- The bytes of the static data. -/
def Image.data (img : Image) : List UInt8 := img.chunks.flatMap Chunk.toList

def Image.dataSize (img : Image) : Nat := img.chunks.foldr (fun c n => c.size + n) 0

theorem Image.length_data (img : Image) : img.data.length = img.dataSize := by
  unfold data dataSize
  induction img.chunks with
  | nil => rfl
  | cons c cs ih => rw [List.flatMap_cons, List.length_append, ih, Chunk.length_toList, List.foldr_cons]

namespace Assemble

/-- Finds the places of all labels, behind `pc` instructions and `addr` bytes of data. -/
def collect (pc addr : Nat) (l : Labels) : Code → Except AssembleError Labels
  | [] => .ok l
  | line :: rest =>
    match line.instr with
    | .label .label x =>
      if (l.find? x).isSome then .error (.definedTwice x)
      else collect pc addr { l with code := (x, Int32.ofNat pc) :: l.code } rest
    | .label .dlabel x =>
      if (l.find? x).isSome then .error (.definedTwice x)
      else collect pc addr { l with data := (x, Int32.ofNat addr) :: l.data } rest
    | .int .dataZ n =>
      if n < 0 then .error (.negativeSize n)
      else if maxBytes < n then .error (.hugeSize n)
      else collect pc (addr + n.toNat) l rest
    | i => collect (if i.isCode then pc + 1 else pc) (addr + i.dataSize) l rest

/-- A line with its label operand resolved. -/
def resolve (l : Labels) (pc : Nat) (line : Line) : Except AssembleError Resolved :=
  match line.instr with
  | .label o x =>
    match l.find? x with
    | some t => .ok ⟨line, t⟩
    | none => .error (.undefinedTarget pc (.label o) x)
  | _ => .ok ⟨line, 0⟩

/-- The lines to be executed, with their label operands resolved. -/
def code (l : Labels) (pc : Nat) : Code → Except AssembleError (List Resolved)
  | [] => .ok []
  | line :: rest =>
    if line.instr.isCode then do
      let r ← resolve l pc line
      return r :: (← code l (pc + 1) rest)
    else code l pc rest

/-- What a directive lays out at an address. -/
def chunk (l : Labels) (addr : Nat) : Instr → Except AssembleError Chunk
  | .int .dataC v => .ok (.bytes [UInt8.ofInt v])
  | .int .dataI v => .ok (.bytes (wordBytes (UInt32.ofInt v)))
  | .int .dataZ n => .ok (.zeros n.toNat)
  | .float .dataF v => .ok (.bytes (wordBytes v.bits.toUInt32 ++ wordBytes (v.bits >>> 32).toUInt32))
  | .label .dataD x =>
    match l.find? x with
    | some t => .ok (.bytes (wordBytes t.toUInt32))
    | none => .error (.undefinedData addr x)
  | .dataS bs => .ok (.bytes (bs ++ [0]))
  | _ => .ok (.bytes [])

/-- The data from an address on. -/
def chunks (l : Labels) (addr : Nat) : Code → Except AssembleError (List Chunk)
  | [] => .ok []
  | line :: rest => do
    let c ← chunk l addr line.instr
    return c :: (← chunks l (addr + line.instr.dataSize) rest)

end Assemble

/-- Assembles a program. Labels defined twice are found first, then undefined ones in the code, then
undefined ones in the data. -/
def Code.assemble (c : Code) : Except AssembleError Image := do
  let labels ← Assemble.collect 0 0 {} c
  let code ← Assemble.code labels 0 c
  let chunks ← Assemble.chunks labels 0 c
  return { code := code.toArray, chunks, labels }

end SubrLang
