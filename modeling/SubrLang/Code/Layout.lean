import SubrLang.Code.Fragment
import SubrLang.Scope

/-!
# Memory layout

The labels of the cells that generated code works with, the layout of array and string records, and the
short sequences that read and write cells.

A value is kept in memory in as many bytes as its type has: booleans and characters in one, floats in
eight, everything else in a word of four.
-/

namespace SubrLang

namespace Cell

def stackPointer : String := "$stack-pointer"
def framePointer : String := Base.frame.label
def globals : String := Base.globals.label
def heapNextFree : String := "$heap-next-free"
def heapStart : String := "$heap-memory-start"
def heapCursor : String := "$mem-manager-cursor"

-- scratch cells
def array1 : String := "$array-temp-1"
def array2 : String := "$array-temp-2"
def print1 : String := "$print-temp-1"
def print2 : String := "$print-temp-2"
def index1 : String := "$index-temp-1"
def index2 : String := "$index-temp-2"
def returnAddress : String := "$func-return-addr-temp"

/-- The cells that hold a word only for a moment, in the order in which they are laid out. -/
def scratch : List String := [array1, array2, print1, print2, index1, index2, returnAddress]

end Cell

/-- The label where the main block starts. -/
def mainLabel : String := "$$main"

/-- The label of the routine that allocates a record. -/
def allocateLabel : String := "$$mem-manager-allocate"

/-! ## Records -/

/-! An array record has four words, then the elements. -/

namespace ArrayRecord

def tag : Int := 7

/-- The flag word of an array whose elements are references. -/
def referenceFlag : Int := 4

def tagOffset : Nat := 0
def flagsOffset : Nat := 4
def elemSizeOffset : Nat := 8
def lengthOffset : Nat := 12
def headerSize : Nat := 16

end ArrayRecord

/-! A string record has three words, then the bytes and a zero byte. -/

namespace StringRecord

def tag : Int := 3
def status : Int := 9
def headerSize : Nat := 12

end StringRecord

/-! ## Fetching and storing -/

namespace Ty

/-- The instruction that fetches a value of a type from memory. -/
def loadOp : Ty → PlainOp
  | .prim .boolean | .prim .character => .loadC
  | .prim .float => .loadF
  | _ => .loadI

/-- The instruction that stores a value of a type in memory. -/
def storeOp : Ty → PlainOp
  | .prim .boolean | .prim .character => .storeC
  | .prim .float => .storeF
  | _ => .storeI

end Ty

namespace Code

/-- Pushes the word in a cell. -/
def load (cell : String) : Code := pushD cell ++ ops [.loadI]

/-- Pops a word into a cell. -/
def store (cell : String) : Code := pushD cell ++ ops [.exchange, .storeI]

/-- Adds a number to the word on top of the stack. -/
def plus (n : Int) : Code := pushI n ++ ops [.add]

/-- Takes a number from the word on top of the stack. -/
def minus (n : Int) : Code := pushI n ++ ops [.subtract]

/-- Moves the stack pointer. -/
def moveStack (delta : Int) : Code :=
  if delta = 0 then []
  else pushD Cell.stackPointer ++ load Cell.stackPointer ++ plus delta ++ ops [.storeI]

end Code

/-- Code that leaves the address of a variable. -/
def Binding.address (b : Binding) : Code :=
  let start := match b.base with
    | .globals => Code.pushD Cell.globals
    | .frame => Code.load Cell.framePointer
  start ++ (Code.plus b.offset).note b.name

end SubrLang
