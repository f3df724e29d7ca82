import SubrLang.Command.Arguments
import SubrLang.Command.Outcome
import SubrLang.Files.Glob
import SubrLang.Golden.Pool
import SubrLang.Golden.Recording
import SubrLang.Golden.Summary

/-!
# The golden test runner as a command

The command runs the test programs that match its patterns and compares each with the golden file next to
it, or makes the golden files. It prints a summary and writes a report.

A program with the same content as an earlier one is not run again. The programs are tested by a pool of
workers; since the verdicts are sorted, their number and order have no bearing on what is reported.
-/

namespace SubrLang

/-- What the arguments of the command ask for. -/
structure Suite where
  generate : Bool := false
  /-- Patterns of files, with blanks between them. -/
  patterns : String := "tests/*.tan"
  /-- Files to be skipped, with blanks between them. -/
  skipped : String := ""
  report : String := ".test_results.json"
  /-- The time that a program may take, in nanoseconds. -/
  timeout : Int := 5000000000
  stepLimit : Int := Settings.standard.stepLimit
  jobs : Int := 4
  verbose : Bool := false
  /-- The directory of the golden files; that of the source if empty. -/
  dir : String := ""
  /-- Texts whose lines do not count, with commas between them. -/
  ignored : String := ""

/-- Why a test program has no record. -/
inductive TestError where
  | file (e : FileError)
  | flags (e : SourceFlagsError)

def TestError.message : TestError → List UInt8
  | .file e => Text.Utf8.encode e.message
  | .flags e => e.message

namespace Suite

/-- The arguments of the command. -/
def arguments : List (Argument Suite) :=
  let s : Suite := {}
  [.switch "generate-golden" "Write golden .json files for the selected tests instead of checking them."
     fun b s => { s with generate := b },
   .text "test-files" s.patterns "Glob pattern(s) for files to test (space-separated)."
     fun t s => { s with patterns := t },
   .text "skip-files" s.skipped "Files to skip (space-separated)." fun t s => { s with skipped := t },
   .text "output" s.report "Output file for the JSON test report." fun t s => { s with report := t },
   .duration "timeout" s.timeout "Time limit for each test program." fun n s => { s with timeout := n },
   .integer "step-limit" s.stepLimit "Instruction limit for each test program."
     fun n s => { s with stepLimit := n },
   .integer "j" s.jobs "Number of parallel test jobs." fun n s => { s with jobs := n },
   .switch "v" "Enable verbose logging." fun b s => { s with verbose := b },
   .text "dir" s.dir "Directory to store/read golden JSON files (defaults to source file dir)."
     fun t s => { s with dir := t },
   .text "ignore-lines" s.ignored "Comma-separated substrings to ignore during output comparison."
     fun t s => { s with ignored := t }]

/-- The texts whose lines do not count. -/
def ignoredTexts (s : Suite) : List String :=
  if s.ignored.isEmpty then [] else s.ignored.splitOn ","

/-- The golden file of a test program. -/
def goldenPath (s : Suite) (file : String) : String :=
  let name := s!".{Path.base file}.json"
  Path.join (if s.dir.isEmpty then Path.dir file else s.dir) name

/-- How a line about an error starts. -/
def errorHead : String := Colour.red.paint "[ERROR]" ++ " "

def errorLine (t : String) : String := errorHead ++ s!"{t}\n"

/-- The verdict on a file that is settled without comparing anything. -/
def remark (file : String) (status : Status) (message : String) : Verdict :=
  { file, status, message := Text.Utf8.encode message }

variable {m : Type → Type} [Monad m]

/-- Adds a file that a pattern names to those found before, unless it is there or is no regular file. -/
def addFile (files : FileAccess m) (found : List String) (p : String) : m (List String) := do
  let path := Path.absolute (← files.workingDir) p
  if found.contains path then return found
  return if ← files.isRegular path then found ++ [path] else found

/-- The files that match patterns, each once. -/
def expand (files : FileAccess m) (found : List String) : List String →
    m (Except BadPattern (List String))
  | [] => return .ok found
  | p :: ps => do
    match ← Glob.expand files p with
    | .error e => return .error e
    | .ok ms => expand files (← ms.foldlM (addFile files) found) ps

/-- Runs a test program. -/
def execute (files : FileAccess m) (clock : m Int) (s : Suite) (file : String) :
    m (Except TestError Golden) := do
  match ← files.read file with
  | .error e => return .error (.file e)
  | .ok source =>
    let start ← clock
    match Golden.record (Path.base file) s.stepLimit (decide (s.timeout ≤ 0)) source with
    | .error e => return .error (.flags e)
    | .ok g => return .ok { g with result.duration := (← clock) - start }

/-- What is logged of a run if the command is to be verbose. -/
def logRun (s : Suite) (file : String) (g : Golden) : Outcome :=
  .when s.verbose (.say (s!"[{file}] exit {g.result.exitCode} in {Duration.text g.result.duration} " ++
    s!"({g.result.steps} steps)\n"))

/-! ## Making golden files -/

/-- Writes a golden file, or tells why it cannot. -/
def save (files : FileAccess m) (s : Suite) (file : String) (g : Golden) : m Outcome := do
  let path := s.goldenPath file
  let made ← if s.dir.isEmpty then pure (.ok ()) else files.makeDirs s.dir
  match made with
  | .error e => return .failed (errorLine s!"Failed to create directory {s.dir}: {e.message}")
  | .ok () =>
    match ← files.write path (Text.Utf8.encode g.toJson.write) with
    | .error e => return .failed (errorLine s!"Failed to write golden file {path}: {e.message}")
    | .ok () => return .say (Colour.green.paint "[SUCCESS]" ++ s!" Golden file created at {path}\n")

/-- Makes the golden file of one test program. A run that did not end is not recorded. -/
def generateOne (files : FileAccess m) (clock : m Int) (s : Suite) (file : String) : m Outcome := do
  let start := Outcome.say s!"Generating golden file for {file}...\n"
  match ← s.execute files clock file with
  | .error e =>
    return start ++ .failedBytes (Text.Utf8.encode (errorHead ++
      s!"Could not generate golden file for {file}: ") ++ e.message ++ [0x0a])
  | .ok g =>
    let start := start ++ s.logRun file g
    if g.result.timedOut then
      return start ++ .failed (errorLine
        s!"{file} did not finish; refusing to record a timeout as golden output")
    return start ++ (← s.save files file g)

/-- Makes golden files up to the first that fails. -/
def generateAll (files : FileAccess m) (clock : m Int) (s : Suite) : List String → m Outcome
  | [] => return {}
  | f :: fs => do
    let one ← s.generateOne files clock f
    if one.exit != 0 then return one
    return one ++ (← s.generateAll files clock fs)

/-! ## Running the tests -/

/-- Tests one program against its golden file. -/
def test (files : FileAccess m) (clock : m Int) (s : Suite) (file : String) : m (Outcome × Verdict) := do
  let path := s.goldenPath file
  match ← files.read path with
  | .error { reason := .missing, .. } =>
    return ({}, remark file .skip "No golden file; run with --generate-golden")
  | .error e => return ({}, remark file .error s!"Could not read golden file {path}: {e.message}")
  | .ok content =>
    match Golden.read content with
    | .error e => return ({}, remark file .error s!"Could not parse golden file {path}: {e.message}")
    | .ok golden =>
      match ← s.execute files clock file with
      | .error e => return ({}, { file, status := .error, message := e.message, golden })
      | .ok target =>
        return (s.logRun file target,
          (Verdict.compare s.ignoredTexts file golden target).noteAge golden target)

/-- What is to be done with files, given the digests of those before: a verdict for one that is not
tested, or the file itself. -/
def plan (files : FileAccess m) (skip : List String) (seen : List (String × String)) :
    List String → m (List (Verdict ⊕ String))
  | [] => return []
  | f :: fs => do
    if skip.contains f then
      let rest ← plan files skip seen fs
      return .inl (remark f .skip "Explicitly skipped") :: rest
    match ← files.read f with
    | .error e =>
      let message := s!"Failed to read file for hashing: {e.message}"
      return .inl (remark f .error message) :: (← plan files skip seen fs)
    | .ok source =>
      let hash := Digest.text source
      match seen.lookup hash with
      | some first =>
        let message := s!"Content is identical to {first}"
        return .inl (remark f .skip message) :: (← plan files skip seen fs)
      | none => return .inr f :: (← plan files skip ((hash, f) :: seen) fs)

/-- What is to be done with the files of a suite. -/
def planned (files : FileAccess m) (s : Suite) (paths : List String) : m (List (Verdict ⊕ String)) := do
  let here ← files.workingDir
  plan files ((Text.wordsOf s.skipped).map (Path.absolute here)) [] paths

/-- The order in which planned files come out of the pool. More workers than files would have nothing
to do. -/
def schedule (s : Suite) (items : List (Verdict ⊕ String)) : List (Verdict ⊕ String) :=
  let known : List ((Verdict ⊕ String) ⊕ String) := items.map fun
    | .inl v => .inl (.inl v)
    | .inr f => .inr f
  Pool.run .inr known (max 1 (min s.jobs.toNat items.length))

/-- Does what is planned for a file. -/
def settle (files : FileAccess m) (clock : m Int) (s : Suite) : Verdict ⊕ String → m (Outcome × Verdict)
  | .inl v => return ({}, v)
  | .inr f => s.test files clock f

/-- Writes the report. That it cannot be written is told, and has no bearing on the exit code. -/
def writeReport (files : FileAccess m) (s : Suite) (vs : List Verdict) : m Outcome := do
  let made ← if s.dir.isEmpty then pure (.ok ()) else files.makeDirs s.dir
  let start : Outcome := match made with
    | .ok () => {}
    | .error e => .say (errorLine s!"Failed to create dir {s.dir}: {e.message}")
  let path := if s.dir.isEmpty then s.report else Path.join s.dir s.report
  match ← files.write path (Text.Utf8.encode (Verdict.report vs).write) with
  | .error e => return start ++ .say (errorLine s!"Failed to write JSON report to {path}: {e.message}")
  | .ok () => return start ++ .print s!"Full test report saved to {path}\n"

/-- Tests all programs, shows the summary and writes the report. -/
def testSuite (files : FileAccess m) (clock : m Int) (s : Suite) (paths : List String) : m Outcome := do
  let items ← s.planned files paths
  let settled ← (s.schedule items).mapM (s.settle files clock)
  let log := settled.foldl (fun o r => o ++ r.1) {}
  let vs := Verdict.sorted (settled.map (·.2))
  let report ← s.writeReport files vs
  let exit := if Verdict.anyFailure vs then 1 else 0
  return log ++ .printBytes ⟨(Summary.text s.verbose vs).toArray⟩ ++ { report with exit }

/-- Does the work of the command. -/
def run (files : FileAccess m) (clock : m Int) (s : Suite) : m Outcome := do
  match ← expand files [] (Text.wordsOf s.patterns) with
  | .error e => return .failed (errorLine s!"Invalid glob pattern(s): {e.message}")
  | .ok [] => return .say "No test files found matching the pattern(s).\n"
  | .ok paths =>
    if s.generate then s.generateAll files clock paths else s.testSuite files clock paths

end Suite

/-- The golden test runner, given its command line and a clock that counts nanoseconds. -/
def goldenCommand {m : Type → Type} [Monad m] (files : FileAccess m) (clock : m Int)
    (args : List String) : m Outcome := do
  let usage := Argument.usagePage "gtest" Suite.arguments
  match Argument.read Suite.arguments {} args with
  | .help => return .say usage
  | .refused e => return { Outcome.say (s!"{e.message}\n" ++ usage) with exit := 2 }
  | .act s => s.run files clock

end SubrLang
