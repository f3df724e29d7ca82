import SubrLang.Command.Outcome
import SubrLang.Compilation
import SubrLang.Files.Access
import SubrLang.Options.Page
import SubrLang.Options.Settings
import SubrLang.Tree.Outline

/-!
# The compiler as a command

The command takes one source file. It prints the checked tree or the listing if asked to, and otherwise
writes the listing to a file, runs the program, or does both. `Job` is what the options ask for.
-/

namespace SubrLang

/-- Why the command cannot do its work. -/
inductive JobError where
  | memory (size : Int)
  | inputs (count : Nat)
  | unreadable (path : String) (e : FileError)
  | lowering (f : LowerFault)
  | noListing
  | unwritable (path : String) (e : FileError)
  | machine (e : ExecutionError)

open Text.Utf8 (encode) in
def JobError.message : JobError → List UInt8
  | .memory n => encode s!"--memory must be positive, got {n}"
  | .inputs n => encode s!"expected exactly one input file, got {n}"
  | .unreadable p e => encode s!"could not read file '{p}': {e.message}"
  | .lowering f => encode f.message
  | .noListing => encode "assembly listing failed: empty program"
  | .unwritable p e => encode s!"could not write '{p}': {e.message}"
  | .machine e => encode "emulator: " ++ e.message

/-- What the command is to do. -/
structure Job where
  path : String
  settings : Settings
  /-- Where the listing goes; nowhere if empty. -/
  output : String := ""
  run : Bool := false
  dumpCode : Bool := false
  dumpTree : Bool := false
  verbose : Bool := false
  stats : Bool := false

namespace Job

/-- The command and what its pages say about it. -/
def app : App where
  name := "tanc"
  synopsis := "[options] <input.tan>"
  description := "A compiler for a small imperative language with arrays and first-class subroutines, " ++
    "targeting an abstract stack machine."
  authors := ["xplshn"]
  repository := "<https://github.com/xplshn/tanc>"
  since := 2025

def switch (name short usage : String) : OptionDef :=
  { name, short, usage, value := .switch false }

def number (name usage argument : String) (n : Int) : OptionDef :=
  { name, usage, argument, value := .number n, initial := (OptionValue.number n).showDefault }

/-- The options of the command itself. -/
def ownOptions : List OptionDef :=
  [{ name := "output", short := "o", usage := "Write the assembly listing to <file>.",
     argument := "file", value := .text "" },
   switch "run" "r" "Execute the program on the emulator.",
   switch "dump-asm" "d" "Print the assembly listing and exit.",
   switch "dump-ast" "" "Print the checked syntax tree and exit.",
   switch "verbose" "v" "Report each compilation stage on stderr.",
   switch "stats" "" "Print emulator statistics after a run.",
   number "memory" "Emulator memory size (accepts k/m/g suffixes)." "size" Settings.standard.memory,
   number "step-limit" "Stop the emulator after <n> instructions (0 for no limit)." "n"
     Settings.standard.stepLimit]

/-- All options, with those for warnings and features. -/
def options : Except OptionDefError OptionSet := do
  Settings.standard.addGroups (← ({} : OptionSet).defineAll ownOptions)

/-- What the options and arguments ask for. -/
def ofOptions (o : OptionSet) (args : List String) : Except JobError Job := do
  let memory := o.number "memory"
  if memory ≤ 0 then throw (.memory memory)
  match args with
  | [path] =>
    let settings := Settings.standard.applyGroups o
    return { path
             settings := { settings with memory, stepLimit := o.number "step-limit" }
             output := o.text "output"
             run := o.isOn "run"
             dumpCode := o.isOn "dump-asm"
             dumpTree := o.isOn "dump-ast"
             verbose := o.isOn "verbose"
             stats := o.isOn "stats" }
  | _ => throw (.inputs args.length)

/-- The end of the command with an error. -/
def fail (e : JobError) : Outcome :=
  .failedBytes (Text.Utf8.encode s!"{app.name}: error: " ++ e.message ++ [0x0a])

/-- Runs a compiled program. -/
def execute (j : Job) (c : Compilation) : Outcome :=
  let e := c.run j.settings
  .when j.verbose (.say (String.join (e.progress.map (· ++ "\n")))) ++ .printBytes e.output ++
    .when j.stats (.say s!"{app.name}: {e.stats.summary}\n") ++
    match e.error with
    | none => {}
    | some err => fail (.machine err)

/-- Writes the listing of a compiled program to a file. -/
def save {m : Type → Type} [Monad m] (files : FileAccess m) (j : Job) (listing : List UInt8) :
    m (Except JobError Outcome) := do
  match ← files.write j.output listing with
  | .error e => return .error (.unwritable j.output e)
  | .ok () =>
    let size := Amount.binarySize (UInt64.ofNat listing.length)
    return .ok (.when j.verbose (.say s!"Wrote {size} of assembly to '{j.output}'\n"))

/-- What is done with code, once the compilation is through. -/
def finish {m : Type → Type} [Monad m] (files : FileAccess m) (j : Job) (c : Compilation)
    (code : Code) : m Outcome := do
  if j.dumpTree then return .print c.tree.outline.dump
  if !j.dumpCode && j.output.isEmpty then return j.execute c
  match code.listing? with
  | none => return fail .noListing
  | some listing =>
    if j.dumpCode then return .printBytes ⟨listing.toArray⟩
    match ← j.save files listing with
    | .error e => return fail e
    | .ok saved => return saved ++ .when j.run (j.execute c)

/-- Does the work of the command. -/
def act {m : Type → Type} [Monad m] (files : FileAccess m) (j : Job) : m Outcome := do
  match ← files.read j.path with
  | .error e => return fail (.unreadable j.path e)
  | .ok source =>
    let c := compile j.settings j.path source
    let log := Outcome.say (c.logText j.verbose)
    match c.code with
    | .error (.reported n) => return log ++ .failed s!"{app.name}: {n} error(s) in '{j.path}'\n"
    | .error (.lowering f) => return log ++ fail (.lowering f)
    | .ok code => return log ++ (← j.finish files c code)

end Job

/-- The compiler, given its command line. -/
def compilerCommand {m : Type → Type} [Monad m] (files : FileAccess m) (args : List String) :
    m Outcome := do
  match Job.options with
  | .error e => return .failed s!"{e.message}\n"
  | .ok options =>
    match Job.app.read options args with
    | (_, .error e) => return .failed s!"{e.message}\n"
    | (_, .ok (.refused _ page)) => return .failedBytes page
    | (_, .ok (.help page)) => return .print page
    | (o, .ok (.act inputs)) =>
      match Job.ofOptions o inputs with
      | .error e => return Job.fail e
      | .ok job => job.act files

end SubrLang
