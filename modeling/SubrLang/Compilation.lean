import SubrLang.Lowering
import SubrLang.Machine.Run
import SubrLang.Token.Scan
import SubrLang.Tree.Parse
import SubrLang.Typing

/-!
# Compiling and running

The way from a source text to the code of a program, and from there to a run. Each stage adds a line to
the progress. A stage is entered only if the ones before it found no error.
-/

namespace SubrLang

/-- Why a source text has no code. -/
inductive CompileError where
  /-- The report has so many errors. -/
  | reported (count : Nat)
  /-- The checked tree could not be lowered. -/
  | lowering (f : LowerFault)

def CompileError.message : CompileError → String
  | .reported n => s!"compilation failed: {n} error(s)"
  | .lowering f => f.message

/-- What a compilation tells on its way. -/
inductive LogLine where
  /-- A stage was entered. -/
  | stage (text : String)
  | diagnostic (d : Diagnostic)

/-- A source text and what came of it. -/
structure Compilation where
  name : String
  tree : Program
  report : Report
  code : Except CompileError Code
  /-- The stages entered and the diagnostics, in order. -/
  log : List LogLine

namespace Compilation

/-- One line for each stage that was entered. -/
def progress (c : Compilation) : List String :=
  c.log.filterMap fun
    | .stage t => some t
    | .diagnostic _ => none

/-- The log as a text, with or without the stages. -/
def logText (c : Compilation) (stages : Bool) : String :=
  String.join (c.log.map fun
    | .stage t => if stages then t ++ "\n" else ""
    | .diagnostic d => c.report.render d)

end Compilation

/-- The log of a stage, which added to the diagnostics of the stages before. -/
def LogLine.ofStage (text : String) (before after : Report) : List LogLine :=
  .stage text :: (after.entries.drop before.entries.length).map .diagnostic

/-- Scans a source text. -/
def Report.scan (s : Settings) (name : String) (content : List Char) : List Token × Report :=
  let found := SubrLang.scan content
  (found.tokens, found.errors.foldl (fun r (p, e) => r.error p e.message)
    { files := [⟨name, content⟩], settings := some s })

/-- Scans and parses a source text. -/
def Program.read (s : Settings) (name : String) (content : List Char) : Program × Report :=
  let (tokens, report) := Report.scan s name content
  Program.parse tokens report (s.feature .lambdas)

/-- The rules that the settings choose. -/
def Settings.rules (s : Settings) : Rules where
  registry := Registry.standard
  widening := s.feature .promotion

/-- Compiles a source text. -/
def compile (s : Settings) (name : String) (source : List UInt8) : Compilation :=
  let content := Text.Utf8.decode source
  let (tokens, scanned) := Report.scan s name content
  let (tree, parsed) := Program.parse tokens scanned (s.feature .lambdas)
  let log := LogLine.ofStage s!"Tokenizing '{name}'..." {} scanned ++
    LogLine.ofStage "Parsing tokens into AST..." scanned parsed
  if parsed.hasErrors then
    { name, tree, log, report := parsed, code := .error (.reported parsed.errorCount) }
  else
    let (tree, checked) := tree.check s.rules parsed
    let log := log ++ LogLine.ofStage "Type checking..." parsed checked
    if checked.hasErrors then
      { name, tree, log, report := checked, code := .error (.reported checked.errorCount) }
    else
      let count := tree.pending.length
      let inserted :=
        if count = 0 then [] else [LogLine.stage s!"Inserting {count} implicit conversion(s)..."]
      let tree := tree.applyWidening Registry.standard
      { name, tree, report := checked
        log := log ++ inserted ++ [.stage "Generating code..."]
        code := (tree.lower s).mapError .lowering }

/-- Why a run did not come to the end of the program. -/
inductive ExecutionError where
  | nothingToRun (name : String)
  | assemble (e : AssembleError)
  | load (e : LoadError)
  | run (e : RunError)

open Text.Utf8 (encode) in
def ExecutionError.message : ExecutionError → List UInt8
  | .nothingToRun name => encode s!"{name}: nothing to run"
  | .assemble e => encode "assemble: " ++ e.message
  | .load e => encode s!"load: {e.message}"
  | .run e => encode e.message

/-- What a run did. -/
structure Execution where
  output : ByteArray := .empty
  stats : Stats := {}
  error : Option ExecutionError := none
  /-- One line for each stage that was entered. -/
  progress : List String := []

/-- The error in an ending. -/
def Ending.error? : Ending → Option ExecutionError
  | .error e => some (.run e)
  | _ => none

/-- Assembles and runs what a compilation made. What a program prints when it fails is ordinary output;
an error is one of the machine. A run that is called off before it starts executes nothing. -/
def Compilation.run (c : Compilation) (s : Settings) (canceled : Bool := false) : Execution :=
  match c.code with
  | .error _ => { error := some (.nothingToRun c.name) }
  | .ok code =>
    let progress := [s!"Assembling {code.length} instructions..."]
    match code.assemble with
    | .error e => { progress, error := some (.assemble e) }
    | .ok img =>
      match img.load s.memory with
      | .error e => { progress, error := some (.load e) }
      | .ok m =>
        let (m, ending) := m.run img { steps := s.stepLimit, canceled }
        { output := m.output, stats := m.stats, error := ending.error?
          progress := progress ++ ["Running..."] }

end SubrLang
