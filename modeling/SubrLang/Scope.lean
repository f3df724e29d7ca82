import SubrLang.Text.Quoted
import SubrLang.Ty

/-!
# Scopes and storage

A scope maps names to bindings, and a binding says where its variable is stored: at an offset into the
global block, or at an offset from the frame pointer. Scopes share allocators: a nested block hands out
storage from the allocator of the block around it and gives it back when it is left, so that blocks one
after the other use the same bytes. The greatest extent ever used is what has to be reserved.

Scopes, allocators and bindings live in a `SymbolTable` and are named by their numbers in it.
-/

namespace SubrLang

/-- What an offset is relative to. -/
inductive Base where
  /-- The start of the global block. -/
  | globals
  /-- The frame pointer. -/
  | frame
deriving DecidableEq, Repr, Inhabited

/-- The label of the cell or block that a base stands for. -/
def Base.label : Base → String
  | .globals => "$global-memory-block"
  | .frame => "$frame-pointer"

/-- A declared name and where its value is stored. -/
structure Binding where
  name : String
  ty : Ty
  mutable : Bool
  base : Base
  offset : Int
  /-- The activation record that the offset is meant in. -/
  frame : Nat
deriving Repr, Inhabited

/-- An integer with its sign. -/
def signed (n : Int) : String :=
  if n < 0 then s!"{n}" else s!"+{n}"

def Binding.text (b : Binding) : String :=
  s!"{b.name} {b.ty.text} @ {b.base.label}{signed b.offset}"

/-- A binding with the word of its declaration. -/
def Binding.declaration (b : Binding) : String :=
  if b.mutable then s!"var {b.text}" else s!"const {b.text}"

/-- In which direction an allocator hands out storage. -/
inductive Region where
  /-- Upward from the start of the global block. -/
  | globals
  /-- The parameters of a subroutine, which are placed once all are known. -/
  | params
  /-- Downward from the frame pointer. -/
  | locals
deriving DecidableEq, Repr, Inhabited

def Region.base : Region → Base
  | .globals => .globals
  | .params => .frame
  | .locals => .frame

/-- Bytes handed out one after the other. -/
structure Allocator where
  region : Region
  used : Nat := 0
  /-- The greatest number of bytes ever in use. -/
  peak : Nat := 0
  /-- The numbers of bytes in use when the open blocks were entered, innermost first. -/
  saved : List Nat := []
  /-- The parameters declared so far. -/
  params : List Nat := []
deriving Repr, Inhabited

namespace Allocator

/-- Takes `size` bytes more. -/
def take (a : Allocator) (size : Nat) : Allocator :=
  let used := a.used + size
  { a with used, peak := max a.peak used }

/-- The offset of `size` bytes that are handed out next. -/
def nextOffset (a : Allocator) (size : Nat) : Int :=
  match a.region with
  | .locals => -((a.used + size : Nat) : Int)
  | _ => a.used

/-- Remembers how much is in use. -/
def save (a : Allocator) : Allocator :=
  { a with saved := a.used :: a.saved }

/-- Goes back to what was in use when the innermost open block was entered. -/
def restore? (a : Allocator) : Option Allocator :=
  match a.saved with
  | [] => none
  | n :: ns => some { a with used := n, saved := ns }

end Allocator

structure Scope where
  /-- The scopes around this one, innermost first. -/
  outer : List Nat
  allocator : Nat
  /-- The activation record that the scope belongs to. -/
  frame : Nat
  /-- Names with the numbers of their bindings, the latest first. -/
  symbols : List (String × Nat) := []
deriving Repr, Inhabited

/-- The number of bytes below the frame pointer that hold the return address and the link to the
caller's frame. -/
def savedBytes : Nat := 8

/-- All scopes of a program, with their allocators and bindings. -/
structure SymbolTable where
  scopes : Array Scope
  allocators : Array Allocator
  bindings : Array Binding := #[]
  /-- The number of activation records so far. -/
  frames : Nat
deriving Repr, Inhabited

/-- What can go wrong with a scope. -/
inductive ScopeError where
  /-- The name has a binding in the scope already. -/
  | defined (name : String) (existing : Nat)
  /-- No block is open. -/
  | nothingToLeave
  /-- Only a list of parameters can be closed. -/
  | notParameters
deriving DecidableEq, Repr

def ScopeError.message : ScopeError → String
  | .defined name _ => s!"identifier {Text.quote name} already defined in this scope"
  | .nothingToLeave => "no block is open"
  | .notParameters => "symtab: CloseParameters on a non-parameter scope"

namespace SymbolTable

/-- A program has one scope with an empty global block. -/
def program : SymbolTable where
  scopes := #[{ outer := [], allocator := 0, frame := 0 }]
  allocators := #[{ region := .globals }]
  frames := 1

def scope (t : SymbolTable) (s : Nat) : Scope :=
  t.scopes.getD s default

def allocator (t : SymbolTable) (s : Nat) : Allocator :=
  t.allocators.getD (t.scope s).allocator default

def binding (t : SymbolTable) (b : Nat) : Binding :=
  t.bindings.getD b default

/-- Replaces the allocator of a scope. -/
def setAllocator (t : SymbolTable) (s : Nat) (a : Allocator) : SymbolTable :=
  { t with allocators := t.allocators.set! (t.scope s).allocator a }

/-- Adds a scope and gives its number. -/
def addScope (t : SymbolTable) (x : Scope) : SymbolTable × Nat :=
  ({ t with scopes := t.scopes.push x }, t.scopes.size)

/-- Opens a block in a scope. -/
def enter (t : SymbolTable) (s : Nat) : SymbolTable × Nat :=
  let x := t.scope s
  (t.setAllocator s (t.allocator s).save).addScope
    { outer := s :: x.outer, allocator := x.allocator, frame := x.frame }

/-- Closes a block and gives the scope around it, if there is one. -/
def leave (t : SymbolTable) (s : Nat) : Except ScopeError (SymbolTable × Option Nat) :=
  match (t.allocator s).restore? with
  | some a => .ok (t.setAllocator s a, (t.scope s).outer.head?)
  | none => .error .nothingToLeave

/-- Opens the parameter list of a subroutine that is defined in a scope. -/
def openParams (t : SymbolTable) (s : Nat) : SymbolTable × Nat :=
  { t with
    allocators := t.allocators.push { region := .params }
    frames := t.frames + 1 }.addScope
    { outer := s :: (t.scope s).outer, allocator := t.allocators.size, frame := t.frames }

/-- Opens the body of a subroutine whose parameter list is `s`. -/
def openBody (t : SymbolTable) (s : Nat) : SymbolTable × Nat :=
  { t with
    allocators := t.allocators.push (Allocator.take { region := .locals } savedBytes) }.addScope
    { outer := s :: (t.scope s).outer, allocator := t.allocators.size, frame := (t.scope s).frame }

/-- The greatest number of bytes that a scope and the scopes that share its allocator ever used. -/
def allocatedSize (t : SymbolTable) (s : Nat) : Nat :=
  (t.allocator s).peak

/-- The binding of a name in the scope itself. -/
def lookupLocal (t : SymbolTable) (s : Nat) (name : String) : Option Nat :=
  (t.scope s).symbols.lookup name

/-- The binding of a name in the scope or else in the innermost scope around it that has one. -/
def lookup (t : SymbolTable) (s : Nat) (name : String) : Option Nat :=
  (s :: (t.scope s).outer).findSome? fun x => t.lookupLocal x name

/-- The binding of a name in the innermost scope around a scope that has one. -/
def lookupOuter (t : SymbolTable) (s : Nat) (name : String) : Option Nat :=
  (t.scope s).outer.findSome? fun x => t.lookupLocal x name

/-- Declares a name in a scope and gives the number of its binding. -/
def declare (t : SymbolTable) (s : Nat) (name : String) (ty : Ty) (mutable : Bool) :
    Except ScopeError (SymbolTable × Nat) :=
  match t.lookupLocal s name with
  | some b => .error (.defined name b)
  | none =>
    let x := t.scope s
    let a := t.allocator s
    let n := t.bindings.size
    let b : Binding :=
      { name, ty, mutable, base := a.region.base, offset := a.nextOffset ty.size, frame := x.frame }
    let a := a.take ty.size
    let a := if a.region = .params then { a with params := a.params ++ [n] } else a
    .ok ({ (t.setAllocator s a) with
      bindings := t.bindings.push b
      scopes := t.scopes.set! s { x with symbols := (name, n) :: x.symbols } }, n)

/-- Places parameters of the given numbers below `top`, the first one highest. -/
def placeParams (bindings : Array Binding) (top : Int) : List Nat → Array Binding
  | [] => bindings
  | n :: ns =>
    let offset := top - (bindings.getD n default).ty.size
    placeParams (bindings.modify n ({ · with offset })) offset ns

/-- Places the parameters of a list, which is complete: the first one lies highest above the frame
pointer, in the order in which callers push the arguments. -/
def closeParams (t : SymbolTable) (s : Nat) : Except ScopeError SymbolTable :=
  let a := t.allocator s
  if a.region = .params then
    .ok { t with bindings := placeParams t.bindings a.used a.params }
  else .error .notParameters

/-- Whether a binding lives in the frame of another subroutine than the scope. -/
def isCapture (t : SymbolTable) (s b : Nat) : Bool :=
  (t.binding b).base == .frame && (t.binding b).frame != (t.scope s).frame

end SymbolTable

end SubrLang
