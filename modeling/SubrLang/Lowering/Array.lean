import SubrLang.Code.Environment

/-!
# Code for arrays

Indexing with bounds checks, and the making of array records.
-/

namespace SubrLang.Lowering

open Code

/-- Leaves the address of an element, after a trap on a negative index and on one past the end. -/
def index (array index : Code) : Code :=
  array ++ index ++ store Cell.index2 ++ store Cell.index1 ++
    load Cell.index2 ++ branch .jumpNeg Trap.negativeIndex.label ++
    -- length - 1 - index is negative if the index is out of bounds
    load Cell.index1 ++ plus ArrayRecord.lengthOffset ++ ops [.loadI] ++ minus 1 ++
    load Cell.index2 ++ ops [.subtract] ++ branch .jumpNeg Trap.indexOutOfBounds.label ++
    load Cell.index1 ++ plus ArrayRecord.headerSize ++
    load Cell.index2 ++ load Cell.index1 ++ plus ArrayRecord.elemSizeOffset ++ ops [.loadI] ++
    ops [.multiply, .add]

/-- Stores a word at an offset into the record whose address is on the stack, and keeps the address. -/
def headerField (offset : Nat) (word : Code) : Code :=
  ops [.duplicate] ++ (if offset = 0 then [] else plus offset) ++ word ++ ops [.storeI]

/-- Fills in the header of the record whose address is on the stack, and keeps the address. -/
def header (elem : Ty) (length : Code) : Code :=
  headerField ArrayRecord.tagOffset (pushI ArrayRecord.tag) ++
    headerField ArrayRecord.flagsOffset
      (pushI (if elem.isReference then ArrayRecord.referenceFlag else 0)) ++
    headerField ArrayRecord.elemSizeOffset (pushI elem.size) ++
    headerField ArrayRecord.lengthOffset length

/-- A new array of as many zero elements as the code of `length` says. -/
def arrayAlloc (elem : Ty) (length : Code) : Code :=
  length ++ ops [.duplicate] ++ branch .jumpNeg Trap.indexOutOfBounds.label ++ store Cell.array1 ++
    load Cell.array1 ++ pushI elem.size ++ ops [.multiply] ++ plus ArrayRecord.headerSize ++
    branch .call allocateLabel ++ header elem (load Cell.array1)

/-- Stores elements one after the other, the first at an offset into the record whose address is on the
stack, and keeps the address. -/
def storeElems (elem : Ty) (offset : Nat) : List Code → Code
  | [] => []
  | e :: es =>
    ops [.duplicate] ++ plus offset ++ e ++ ops [elem.storeOp] ++ storeElems elem (offset + elem.size) es

/-- A new array with the given elements. -/
def arrayLiteral (elem : Ty) (elems : List Code) : Code :=
  pushI (ArrayRecord.headerSize + elems.length * elem.size : Nat) ++ branch .call allocateLabel ++
    header elem (pushI elems.length) ++ storeElems elem ArrayRecord.headerSize elems

end SubrLang.Lowering
