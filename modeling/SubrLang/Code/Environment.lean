import SubrLang.Code.Layout

/-!
# The environment of a program

The fixed parts of every program: what runs before the main block, the formats and scratch cells, the
traps that end a run with a message, and the routine that allocates records.
-/

namespace SubrLang

/-- The ways in which a running program can fail. -/
inductive Trap where
  | intDivideByZero
  | floatDivideByZero
  | negativeIndex
  | indexOutOfBounds
  | functionRunoff
  | heapExhausted
deriving DecidableEq, Repr

namespace Trap

/-- The traps in the order in which their blocks are laid out. -/
def all : List Trap :=
  [intDivideByZero, floatDivideByZero, negativeIndex, indexOutOfBounds, functionRunoff, heapExhausted]

/-- What the labels of a trap are made from. -/
def stem : Trap → String
  | intDivideByZero => "i-divide-by-zero"
  | floatDivideByZero => "f-divide-by-zero"
  | negativeIndex => "negative-index"
  | indexOutOfBounds => "out-of-bounds-index"
  | functionRunoff => "function-runoff"
  | heapExhausted => "heap-exhausted"

/-- Where a failing program jumps to. -/
def label (t : Trap) : String := "$$" ++ t.stem

/-- Where the message of a trap is kept. -/
def messageLabel (t : Trap) : String := "$errors-" ++ t.stem

/-- What a failing program prints. -/
def message : Trap → String
  | intDivideByZero => "integer divide by zero"
  | floatDivideByZero => "float divide by zero"
  | negativeIndex => "negative index used for array"
  | indexOutOfBounds => "index out of bounds"
  | functionRunoff => "code run off the end of a function"
  | heapExhausted => "heap exhausted"

/-- The label of the block that prints the message of a trap. -/
def printLabel : String := "$$general-runtime-error"

/-- The label of the format for the messages of traps. -/
def formatLabel : String := "$errors-general-message"

end Trap

/-! ## Formats -/

/-- What a program can print: values, separators and parts of arrays. -/
inductive PrintFormat where
  | integer | float | boolean | character | string | function
  | newline | tab | space | openBracket | closeBracket | separator
  /-- The texts of the truth values. -/
  | trueText | falseText
deriving DecidableEq, Repr

namespace PrintFormat

/-- The formats in the order in which they are laid out. -/
def all : List PrintFormat :=
  [integer, float, boolean, character, string, function, newline, tab, space, openBracket,
   closeBracket, separator, trueText, falseText]

def label : PrintFormat → String
  | integer => "$print-format-integer"
  | float => "$print-format-float"
  | boolean => "$print-format-boolean"
  | character => "$print-format-character"
  | string => "$print-format-string"
  | function => "$print-format-function"
  | newline => "$print-format-newline"
  | tab => "$print-format-tab"
  | space => "$print-format-space"
  | openBracket => "$print-format-open-bracket"
  | closeBracket => "$print-format-close-bracket"
  | separator => "$print-format-separator"
  | trueText => "$boolean-true-string"
  | falseText => "$boolean-false-string"

def text : PrintFormat → String
  | integer => "%d"
  | float => "%f"
  | boolean => "%s"
  | character => "%c"
  | string => "%s"
  | function => "<function>"
  | newline => "\n"
  | tab => "\t"
  | space => " "
  | openBracket => "["
  | closeBracket => "]"
  | separator => ", "
  | trueText => "true"
  | falseText => "false"

end PrintFormat

namespace Environment

open Code

/-- A labelled text, ended by a zero byte. -/
def textCell (label text : String) : Code :=
  cell label (.dataS (Text.Utf8.encode text))

/-- A labelled word that is zero at the start. -/
def wordCell (label : String) : Code :=
  cell label (.int .dataI 0)

/-- Pushes the message of a trap and goes to the block that prints it. -/
def trapBlock (t : Trap) : Code :=
  textCell t.messageLabel t.message ++ label t.label ++ pushD t.messageLabel ++ jump Trap.printLabel

/-- The block that prints the message of a trap and stops, and the entries of all traps. -/
def trapBlocks : Code :=
  textCell Trap.formatLabel "Runtime error: %s\n" ++ label Trap.printLabel ++
    pushD Trap.formatLabel ++ ops [.printf, .halt] ++ Trap.all.flatMap trapBlock

/-- What follows the initialisation: a jump over data and traps to the main block. The first eight bytes
of memory are left unused, so that no record has the address zero. -/
def body : Code :=
  jump mainLabel ++ cell "$eat-location-zero" (.int .dataZ 8) ++
    wordCell Cell.stackPointer ++ wordCell Cell.framePointer ++
    PrintFormat.all.flatMap (fun f => textCell f.label f.text) ++
    Cell.scratch.flatMap wordCell ++ trapBlocks

/-- Starts the heap behind the static data. -/
def heapInit : Code :=
  pushD Cell.heapNextFree ++ pushD Cell.heapStart ++ ops [.storeI]

/-- Starts the call stack at the top of memory; it grows downward. -/
def stackInit : Code :=
  [Cell.stackPointer, Cell.framePointer].flatMap fun (c : String) => pushD c ++ ops [.memtop, .storeI]

/-- The label of the loop that clears a new record. -/
def zeroLoop : String := "$$mem-manager-zero-loop"

/-- The label behind that loop. -/
def zeroDone : String := "$$mem-manager-zero-done"

/-- The routine that allocates a record, the cells it uses and, last of all data, the start of the heap.
It is called with a size on the stack and leaves the address of a block of that many bytes, all zero:
the bytes may have been part of the call stack before. A block that would reach into the call stack is
a trap. -/
def heap : Code :=
  wordCell Cell.heapNextFree ++ wordCell Cell.heapCursor ++
    label allocateLabel ++
    -- size, return
    ops [.exchange] ++ load Cell.heapNextFree ++ ops [.exchange] ++
    -- return, base, size
    load Cell.heapNextFree ++ ops [.add, .duplicate] ++
    -- return, base, next, next
    load Cell.stackPointer ++ ops [.subtract] ++ branch .jumpPos Trap.heapExhausted.label ++
    store Cell.heapNextFree ++
    -- return, base
    ops [.duplicate] ++ store Cell.heapCursor ++
    label zeroLoop ++ load Cell.heapCursor ++ load Cell.heapNextFree ++ ops [.subtract] ++
    branch .jumpFalse zeroDone ++
    load Cell.heapCursor ++ pushI 0 ++ ops [.storeC] ++
    pushD Cell.heapCursor ++ load Cell.heapCursor ++ plus 1 ++ ops [.storeI] ++
    jump zeroLoop ++ label zeroDone ++
    ops [.exchange, .return] ++
    one (.label .dlabel Cell.heapStart)

end Environment

end SubrLang
