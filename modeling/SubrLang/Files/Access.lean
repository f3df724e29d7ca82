import SubrLang.Files.Path

/-!
# Files

Commands reach files through `FileAccess`, for any monad. `FileTree` holds files and directories as a
value. A path is resolved element by element, so that everything before its last element has to be a
directory, also where `..` leaves it again.
-/

namespace SubrLang

/-- Why a file cannot be used. -/
inductive FileReason where
  | missing
  | isDirectory
  | notDirectory
  | occupied
  | tooLong
  | other (text : String)
deriving DecidableEq, Repr

def FileReason.text : FileReason → String
  | missing => "no such file or directory"
  | isDirectory => "is a directory"
  | notDirectory => "not a directory"
  | occupied => "file exists"
  | tooLong => "file name too long"
  | other t => t

/-- What was tried with a path, and why it failed. -/
structure FileError where
  action : String
  path : String
  reason : FileReason
deriving DecidableEq, Repr

def FileError.message (e : FileError) : String := s!"{e.action} {e.path}: {e.reason.text}"

/-- What a command can do with files. -/
structure FileAccess (m : Type → Type) where
  workingDir : m String
  read : String → m (Except FileError (List UInt8))
  write : String → List UInt8 → m (Except FileError Unit)
  /-- Makes a directory and those around it, unless they are there. -/
  makeDirs : String → m (Except FileError Unit)
  /-- The names in a directory in increasing order, or `none` if it is none. -/
  names : String → m (Option (List String))
  /-- Whether there is anything with this path. -/
  present : String → m Bool
  isRegular : String → m Bool

/-- Files and directories as a value. A place is the list of the elements that lead to it. -/
structure FileTree where
  /-- The place that relative paths start from; it is a directory. -/
  workingDir : List String
  files : List (List String × List UInt8) := []
  /-- Directories beside those that lead to a file or to the working directory. -/
  dirs : List (List String) := []
  /-- Devices that are empty and stay so, whatever is written to them. -/
  sinks : List (List String) := []

namespace FileTree

/-- The number of bytes that an element of a path can have. -/
def maxElement : Nat := 255

/-- The number of bytes that a path can have. -/
def maxPath : Nat := 4095

/-- Whether a place is a directory. -/
def isDir (t : FileTree) (place : List String) : Bool :=
  place.isPrefixOf t.workingDir || t.dirs.any place.isPrefixOf ||
    (t.sinks ++ t.files.map (·.1)).any fun p => place.isPrefixOf p && place != p

/-- The content of what stands at a place, if that is no directory. -/
def content? (t : FileTree) (place : List String) : Option (List UInt8) :=
  if t.sinks.contains place then some [] else t.files.lookup place

/-- Goes on by one element from a place, which has to be a directory. -/
def enter (t : FileTree) (place : List String) (e : String) : Except FileReason (List String) :=
  if !t.isDir place then
    .error (if (t.content? place).isSome then .notDirectory else .missing)
  else if e.isEmpty || e = "." then .ok place
  else if e = ".." then .ok place.dropLast
  else if maxElement < e.utf8ByteSize then .error .tooLong
  else .ok (place ++ [e])

/-- The place of a path, where there need not be anything. -/
def resolve (t : FileTree) (p : String) : Except FileReason (List String) :=
  if p.isEmpty then .error .missing
  else if maxPath < p.utf8ByteSize then .error .tooLong
  else (Path.elements p).foldlM t.enter (if Path.isAbsolute p then [] else t.workingDir)

def read (t : FileTree) (p : String) : Except FileError (List UInt8) :=
  match t.resolve p with
  | .error r => .error ⟨"open", p, r⟩
  | .ok place =>
    match t.content? place with
    | some content => .ok content
    | none => .error (if t.isDir place then ⟨"read", p, .isDirectory⟩ else ⟨"open", p, .missing⟩)

/-- The place of a file to be written. A path that ends with a slash names a directory. -/
def target (t : FileTree) (p : String) : Except FileReason (List String) :=
  if p.toList.getLast? == some '/' then
    match t.resolve (String.ofList p.toList.dropLast) with
    | .error r => .error r
    | .ok place => .error (if (t.content? place).isSome then .notDirectory else .isDirectory)
  else
    match t.resolve p with
    | .error r => .error r
    | .ok place => if t.isDir place then .error .isDirectory else .ok place

/-- Writes a file. -/
def write (t : FileTree) (p : String) (content : List UInt8) : Except FileError FileTree :=
  match t.target p with
  | .error r => .error ⟨"open", p, r⟩
  | .ok place =>
    if t.sinks.contains place then .ok t
    else .ok { t with files := (place, content) :: t.files.filter (·.1 != place) }

/-- Makes a directory in one that is there, unless it is there itself. A path that ends with a slash can
only name a directory, so a file in its place is in the way. -/
def makeDir (t : FileTree) (p : String) : Except FileError FileTree :=
  match t.resolve (Path.withoutSlashes p) with
  | .error r => .error ⟨"mkdir", p, r⟩
  | .ok place =>
    if (t.content? place).isSome then
      .error ⟨"mkdir", p, if p.toList.getLast? == some '/' then .occupied else .notDirectory⟩
    else .ok { t with dirs := place :: t.dirs }

/-- Makes a directory and those around it. -/
def makeDirs (t : FileTree) (p : String) : Except FileError FileTree :=
  (Path.leading p).foldlM makeDir t

/-- The names in a directory. -/
def names (t : FileTree) (p : String) : Option (List String) :=
  match t.resolve p with
  | .error _ => none
  | .ok place =>
    if t.isDir place then
      let below := (t.workingDir :: t.dirs ++ t.sinks ++ t.files.map (·.1)).filterMap fun q =>
        if place.isPrefixOf q then q[place.length]? else none
      some (below.eraseDups.mergeSort fun a b => decide (a ≤ b))
    else none

def isRegular (t : FileTree) (p : String) : Bool :=
  match t.resolve p with
  | .error _ => false
  | .ok place => (t.files.lookup place).isSome

def present (t : FileTree) (p : String) : Bool :=
  match t.resolve p with
  | .error _ => false
  | .ok place => t.isDir place || (t.content? place).isSome

/-- Changes a tree, if that is possible. -/
def change (f : FileTree → Except FileError FileTree) : StateM FileTree (Except FileError Unit) := do
  match f (← get) with
  | .ok t =>
    set t
    return .ok ()
  | .error e => return .error e

/-- The files of a tree for a command. -/
def access : FileAccess (StateM FileTree) where
  workingDir := return "/" ++ "/".intercalate (← get).workingDir
  read p := return (← get).read p
  write p content := change (·.write p content)
  makeDirs p := change (·.makeDirs p)
  names p := return (← get).names p
  present p := return (← get).present p
  isRegular p := return (← get).isRegular p

end FileTree

end SubrLang
