import SubrLang.Code.Environment
import SubrLang.Tree

/-!
# The calling convention

A caller pushes the arguments onto the memory stack, the first one first, and calls. The callee saves
the return address and the caller's frame pointer just below the arguments, and makes the place where
they start its frame pointer. On its way out it takes frame and arguments off the stack again and leaves
its result there, where the caller picks it up.
-/

namespace SubrLang.Lowering

open Code

/-- How far below the frame pointer the return address is saved. -/
def returnDepth : Nat := 8

/-- How far below the frame pointer the caller's frame pointer is saved. -/
def linkDepth : Nat := 4

/-- Pushes arguments of given types, the first one first. -/
def pushArgs : List Ty → List Code → Code
  | p :: ps, a :: as =>
    moveStack (-(p.size : Int)) ++ load Cell.stackPointer ++ a ++ ops [p.storeOp] ++ pushArgs ps as
  | _, _ => []

/-- Fetches a result from the stack. -/
def takeResult (result : Ty) : Code :=
  if result.isVoid then []
  else load Cell.stackPointer ++ ops [result.loadOp] ++ moveStack result.size

/-- A call: the arguments, the subroutine and the result. -/
def callSite (params : List Ty) (result : Ty) (args : List Code) (callee : Code) : Code :=
  pushArgs params args ++ callee ++ ops [.callV] ++ takeResult result

/-- Traps if the stack has grown into the heap. -/
def checkStack : Code :=
  load Cell.stackPointer ++ load Cell.heapNextFree ++ ops [.subtract] ++
    branch .jumpNeg Trap.heapExhausted.label

/-- Sets up a frame. The return address is on the operand stack. -/
def prologue (frameSize : Nat) : Code :=
  load Cell.stackPointer ++ minus returnDepth ++ ops [.exchange, .storeI] ++
    load Cell.stackPointer ++ minus linkDepth ++ load Cell.framePointer ++ ops [.storeI] ++
    pushD Cell.framePointer ++ load Cell.stackPointer ++ ops [.storeI] ++
    moveStack (-(frameSize : Int)) ++ checkStack

/-- Takes down a frame and returns. The result, if there is one, is on the operand stack. -/
def epilogue (frameSize argSize : Nat) (result : Ty) : Code :=
  load Cell.framePointer ++ minus returnDepth ++ ops [.loadI] ++
    pushD Cell.framePointer ++ load Cell.framePointer ++ minus linkDepth ++ ops [.loadI, .storeI] ++
    moveStack (frameSize + argSize - result.size) ++ store Cell.returnAddress ++
    (if result.isVoid then []
      else load Cell.stackPointer ++ ops [.exchange, result.storeOp]) ++
    load Cell.returnAddress ++ ops [.return]

/-- The label where a subroutine starts. -/
def startLabel (l : LabelFamily) : String := l.label "start"

/-- The label of the way out of a subroutine. -/
def exitLabel (l : LabelFamily) : String := l.label "exit"

/-- A subroutine with the code of its body. If control can reach the end of the body, that is a trap
unless `implicitReturn` lets a void subroutine end there. -/
def subroutine (h : FuncHead) (l : LabelFamily) (implicitReturn : Bool) (body : Code) : Code :=
  (label (startLabel l)).note h.name ++ prologue h.frameSize ++ body ++
    (if h.result.isVoid && implicitReturn then [] else jump Trap.functionRunoff.label) ++
    label (exitLabel l) ++ epilogue h.frameSize h.argSize h.result

end SubrLang.Lowering
