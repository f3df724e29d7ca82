import SubrLang.Command.Compile
import SubrLang.Command.Golden

/-!
# Command lines

The two commands on the files of the machine they run on: `main` is the compiler and `goldenMain` the
golden test runner.
-/

namespace SubrLang

/-- Why an action on a file failed. -/
def FileReason.ofError : IO.Error → FileReason
  | .noFileOrDirectory .. => .missing
  | .inappropriateType .. => .notDirectory
  | e => .other (toString e)

namespace FileAccess

/-- Does something with a file, and tells why if it fails. -/
def attempt {α : Type} (action path : String) (x : IO α) : IO (Except FileError α) := do
  try
    return .ok (← x)
  catch e =>
    return .error ⟨action, path, .ofError e⟩

/-- The type of the file at a path, if there is one. -/
def type? (path : String) : IO (Option IO.FS.FileType) := do
  try
    return some (← (← IO.FS.realPath path).metadata).type
  catch _ =>
    return none

/-- The names in a directory. -/
def list? (path : String) : IO (Option (List String)) := do
  try
    let entries ← (← IO.FS.realPath path).readDir
    return some ((entries.toList.map (·.fileName)).mergeSort fun a b => decide (a ≤ b))
  catch _ =>
    return none

/-- The files of the machine. -/
def machine : FileAccess IO where
  workingDir := return toString (← IO.currentDir)
  read p := do
    if (← type? p) == some .dir then return .error ⟨"read", p, .isDirectory⟩
    attempt "open" p (do return (← IO.FS.readBinFile p).toList)
  write p content := do
    if (← type? p) == some .dir then return .error ⟨"open", p, .isDirectory⟩
    attempt "open" p (IO.FS.writeBinFile p ⟨content.toArray⟩)
  makeDirs p := attempt "mkdir" p (IO.FS.createDirAll p)
  names p := list? p
  present p := return (← type? p).isSome
  isRegular p := return (← type? p) == some .file

end FileAccess

/-- Shows an outcome; its exit code is that of the process. -/
def Outcome.emit (o : Outcome) : IO UInt32 := do
  (← IO.getStderr).write o.messages
  (← IO.getStdout).write o.output
  return o.exit.toUInt32

/-- The golden test runner. -/
def goldenMain (args : List String) : IO UInt32 := do
  (← goldenCommand .machine (return Int.ofNat (← IO.monoNanosNow)) args).emit

end SubrLang

/-- The compiler. -/
def main (args : List String) : IO UInt32 := do
  (← SubrLang.compilerCommand .machine args).emit
