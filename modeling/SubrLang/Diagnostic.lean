import SubrLang.Settings
import SubrLang.Token

/-!
# Diagnostics

Errors and warnings are collected in a report, which goes on after each of them. A diagnostic is shown
as one line with its place and its text, followed by the line of the source that it is about and a
mark under the stretch of it.
-/

namespace SubrLang

/-- A source file with its characters. -/
structure SourceFile where
  name : String
  content : List Char

/-- How serious a diagnostic is. -/
inductive Severity where
  | error
  /-- A warning, with its number in the settings if it has one. -/
  | warning (kind : Option Warning)
deriving DecidableEq, Repr

structure Diagnostic where
  severity : Severity
  place : Place
  message : String
deriving DecidableEq, Repr

/-- The diagnostics of a compilation, first one first, and what is needed to show them. -/
structure Report where
  files : List SourceFile := []
  /-- Which warnings are wanted. Without settings all are, and they are shown without their name. -/
  settings : Option Settings := none
  entries : List Diagnostic := []

namespace Report

def errorCount (r : Report) : Nat :=
  r.entries.countP (·.severity == .error)

def hasErrors (r : Report) : Bool :=
  r.errorCount != 0

/-- The texts of the errors. -/
def messages (r : Report) : List String :=
  (r.entries.filter (·.severity == .error)).map (·.message)

/-- Adds an error. -/
def error (r : Report) (place : Place) (message : String) : Report :=
  { r with entries := r.entries ++ [⟨.error, place, message⟩] }

/-- Whether a warning is wanted. -/
def wants (r : Report) (w : Option Warning) : Bool :=
  match r.settings, w with
  | none, _ => true
  | some s, some w => s.warning w
  | some _, none => false

/-- Adds a warning if it is wanted. -/
def warn (r : Report) (w : Option Warning) (place : Place) (message : String) : Report :=
  if r.wants w then { r with entries := r.entries ++ [⟨.warning w, place, message⟩] } else r

/-- The file that a place is in. -/
def file? (r : Report) (p : Place) : Option SourceFile :=
  if p.file < 0 then none else r.files[p.file.toNat]?

/-- The line of a text after `n` line ends, or its last line if it has fewer. -/
def lineAt : Nat → List Char → List Char
  | 0, cs => cs.takeWhile (· != '\n')
  | n + 1, cs =>
    match cs.dropWhile (· != '\n') with
    | [] => cs
    | _ :: rest => lineAt n rest

/-- How far a mark is indented: by the columns in front of it. Columns are signed 64-bit words, and the one
in front of the smallest is the largest. -/
def markIndent (p : Place) : Nat :=
  (Int.bmod (p.column - 1) (1 <<< 64)).toNat

/-- How far a mark goes on behind its first character. -/
def markTail (p : Place) : Nat :=
  (p.len - 1).toNat

/-- The line that a place starts on, and a mark below it. -/
def excerpt (content : List Char) (p : Place) : String :=
  let line := String.ofList (lineAt (p.line.toNat - 1) content)
  let indent := String.ofList (List.replicate (markIndent p) ' ')
  let tail := String.ofList (List.replicate (markTail p) '~')
  s!"  {line}\n  {indent}^{tail}\n"

/-- How a diagnostic is shown. -/
def render (r : Report) (d : Diagnostic) : String :=
  let (label, message) := match d.severity with
    | .error => ("error", d.message)
    | .warning (some w) =>
      ("warning", if r.settings.isSome then s!"{d.message} [-W{w.name}]" else d.message)
    | .warning none => ("warning", d.message)
  let name := ((r.file? d.place).map (·.name)).getD "unknown"
  let head := s!"{name}:{d.place.line}:{d.place.column}: {label}: {message}\n"
  match r.file? d.place with
  | some f => if d.place.line = 0 then head else head ++ excerpt f.content d.place
  | none => head

/-- The longest part of a mark that can be written. -/
def maxMark : Nat := 1 <<< 48

/-- How a diagnostic is shown, unless its mark is too long. -/
def render? (r : Report) (d : Diagnostic) : Option String :=
  if (r.file? d.place).isSome && d.place.line != 0 &&
      (maxMark < markIndent d.place || maxMark < markTail d.place) then none
  else some (r.render d)

/-- Everything the report shows. -/
def text (r : Report) : String :=
  String.join (r.entries.map r.render)

end Report

end SubrLang
