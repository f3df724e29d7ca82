import SubrLang.Number.Binary64

/-!
# Memory

The bytes of the machine, addressed from zero. A new memory is given by stretches of bytes and of zeros.
Words are stored with their low byte first. An access that does not lie inside memory as a whole has no
result, and an address below zero lies outside.
-/

namespace SubrLang

/-- A stretch of the first contents of a memory. -/
inductive Chunk where
  | bytes (bs : List UInt8)
  | zeros (n : Nat)
deriving DecidableEq, Repr

namespace Chunk

def size : Chunk → Nat
  | bytes bs => bs.length
  | zeros n => n

def toList : Chunk → List UInt8
  | bytes bs => bs
  | zeros n => List.replicate n 0

theorem length_toList (c : Chunk) : c.toList.length = c.size := by
  cases c <;> simp [toList, size]

end Chunk

/-- The greatest number of bytes that there can be. -/
def maxBytes : Nat := 1 <<< 48

structure Memory where
  bytes : ByteArray

namespace Memory

/-- So many zero bytes, made by doubling, where `levels` bounds the number of binary digits. -/
def zerosFrom : (levels : Nat) → Nat → ByteArray
  | 0, _ => .empty
  | levels + 1, n =>
    if n = 0 then .empty
    else
      let half := zerosFrom levels (n / 2)
      let both := half ++ half
      if n % 2 = 0 then both else both.push 0

/-- So many zero bytes. -/
def zeros (n : Nat) : ByteArray := zerosFrom (n.log2 + 1) n

/-- The bytes of a stretch of data. -/
def ofChunk : Chunk → ByteArray
  | .bytes bs => ⟨bs.toArray⟩
  | .zeros n => zeros n

/-- A memory of a size that starts with some data. -/
def ofChunks (chunks : List Chunk) (size : Nat) : Memory :=
  let data := chunks.foldl (fun bytes c => bytes ++ ofChunk c) .empty
  ⟨data ++ zeros (size - data.size)⟩

def size (m : Memory) : Nat := m.bytes.size

/-- Whether `n` bytes from an address on lie inside memory. -/
def holds (m : Memory) (addr : Int32) (n : Nat) : Bool :=
  0 ≤ addr && addr.toNatClampNeg + n ≤ m.size

/-- The byte at a position inside memory. -/
def byte (m : Memory) (i : Nat) : UInt8 := m.bytes.get! i

/-- The word of four bytes from a position on, the low one first. -/
def word (m : Memory) (i : Nat) : UInt32 :=
  (m.byte i).toUInt32 ||| ((m.byte (i + 1)).toUInt32 <<< 8) |||
    ((m.byte (i + 2)).toUInt32 <<< 16) ||| ((m.byte (i + 3)).toUInt32 <<< 24)

def setByte (m : Memory) (i : Nat) (b : UInt8) : Memory := ⟨m.bytes.set! i b⟩

def setWord (m : Memory) (i : Nat) (w : UInt32) : Memory :=
  (((m.setByte i w.toUInt8).setByte (i + 1) (w >>> 8).toUInt8).setByte (i + 2)
    (w >>> 16).toUInt8).setByte (i + 3) (w >>> 24).toUInt8

/-- Stores the low byte of a value. -/
def setChar (m : Memory) (i : Nat) (v : Int32) : Memory := m.setByte i v.toUInt32.toUInt8

def setInt (m : Memory) (i : Nat) (v : Int32) : Memory := m.setWord i v.toUInt32

def setFloat (m : Memory) (i : Nat) (v : Binary64) : Memory :=
  (m.setWord i v.bits.toUInt32).setWord (i + 4) (v.bits >>> 32).toUInt32

/-! ## Reading -/

/-- The byte at an address as a number from 0 to 255. -/
def loadChar? (m : Memory) (addr : Int32) : Option Int32 :=
  if m.holds addr 1 then some (m.byte addr.toNatClampNeg).toUInt32.toInt32 else none

def loadInt? (m : Memory) (addr : Int32) : Option Int32 :=
  if m.holds addr 4 then some (m.word addr.toNatClampNeg).toInt32 else none

def loadFloat? (m : Memory) (addr : Int32) : Option Binary64 :=
  if m.holds addr 8 then
    let i := addr.toNatClampNeg
    some ⟨(m.word i).toUInt64 ||| ((m.word (i + 4)).toUInt64 <<< 32)⟩
  else none

/-- The position of the first zero byte among `n` bytes from a position on. -/
def firstZero? (m : Memory) (i : Nat) : (n : Nat) → Option Nat
  | 0 => none
  | n + 1 => if m.byte i = 0 then some i else m.firstZero? (i + 1) n

/-- The bytes from a position up to the first zero byte, if one follows. -/
def textAt? (m : Memory) (i : Nat) : Option (List UInt8) :=
  (m.firstZero? i (m.size - i)).map fun stop => (List.range' i (stop - i)).map m.byte

end Memory

end SubrLang
