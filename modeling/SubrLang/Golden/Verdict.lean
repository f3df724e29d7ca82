import SubrLang.Golden
import SubrLang.Text.Quoted

/-!
# Verdicts

A run passes if it ended in time and agrees with its golden file in exit code, output and diagnostics.
Lines that hold one of the ignored texts do not count.
-/

namespace SubrLang

/-- What came of a test. -/
inductive Status where
  | pass
  | fail
  | skip
  | error
deriving DecidableEq, Repr

namespace Status

def all : List Status := [pass, fail, skip, error]

def name : Status → String
  | pass => "PASS"
  | fail => "FAIL"
  | skip => "SKIP"
  | error => "ERROR"

def ofName? (s : String) : Option Status := all.find? (·.name == s)

/-- Whether a suite fails with such a test. -/
def isFailure : Status → Bool
  | fail | error => true
  | pass | skip => false

end Status

/-- What is reported about a test file. -/
structure Verdict where
  file : String
  status : Status
  message : List UInt8 := []
  diff : List UInt8 := []
  golden : Option Golden := none
  target : Option Golden := none

namespace Verdict

/-- Whether bytes occur in a row somewhere. -/
def occurs (sub : List UInt8) : List UInt8 → Bool
  | [] => sub.isEmpty
  | b :: bs => sub.isPrefixOf (b :: bs) || occurs sub bs

/-- The lines of a text, of which there is at least one. -/
def lines : List UInt8 → List (List UInt8)
  | [] => [[]]
  | b :: bs =>
    if b = 0x0a then [] :: lines bs
    else
      match lines bs with
      | l :: ls => (b :: l) :: ls
      | [] => [[b]]

/-- A text without the lines that hold one of the ignored texts. An empty one is in no line. -/
def filter (ignored : List String) (output : List UInt8) : List UInt8 :=
  if ignored.isEmpty then output
  else
    let subs := (ignored.filter fun s => !s.isEmpty).map Text.Utf8.encode
    [0x0a].intercalate ((lines output).filter fun l => !subs.any fun s => occurs s l)

/-- Two different texts, the expected one first. -/
def textDiff (want got : List UInt8) : String :=
  s!"  string(\n- \t{Text.quoteBytes want},\n+ \t{Text.quoteBytes got},\n  )\n"

/-- In what a record differs from the expected one; empty if it does not. -/
def diffText (ignored : List String) (want got : RunRecord) : String :=
  let differ (a b : List UInt8) := filter ignored a != filter ignored b
  (if got.timedOut then "Program did not finish within the time or step limit.\n" else "") ++
  (if want.exitCode != got.exitCode then
    s!"Exit code mismatch:\n  - Golden: {want.exitCode}\n  - Target: {got.exitCode}\n" else "") ++
  (if differ want.stdout got.stdout then
    "STDOUT mismatch:\n" ++ textDiff want.stdout got.stdout else "") ++
  (if differ want.diagnostics got.diagnostics then
    "Diagnostics mismatch:\n" ++ textDiff want.diagnostics got.diagnostics else "")

/-- Compares a run with its golden file. -/
def compare (ignored : List String) (file : String) (golden target : Golden) : Verdict :=
  let diff := diffText ignored golden.result target.result
  if diff.isEmpty then
    { file, status := .pass, message := Text.Utf8.encode "Output matches golden file", golden, target }
  else
    { file, status := .fail, message := Text.Utf8.encode "Output or exit code mismatch"
      diff := Text.Utf8.encode diff, golden, target }

/-- Remarks that a golden file was made from another source than the one that ran. -/
def noteAge (v : Verdict) (golden target : Golden) : Verdict :=
  if golden.sourceHash.isEmpty || golden.sourceHash = target.sourceHash then v
  else { v with message := v.message ++ Text.Utf8.encode " (golden file is older than the source)" }

def toJson (v : Verdict) : JsonValue :=
  let golden (name : String) (g : Option Golden) :=
    (g.map fun g => JsonValue.member name g.toJson).getD []
  .object (JsonValue.member "file" (.ofString v.file) ++
    JsonValue.member "status" (.ofString v.status.name) ++
    JsonValue.member "message" (.text v.message) v.message.isEmpty ++
    JsonValue.member "diff" (.text v.diff) v.diff.isEmpty ++
    golden "golden" v.golden ++ golden "target" v.target)

/-- Verdicts in the order of their files. -/
def sorted (vs : List Verdict) : List Verdict :=
  vs.mergeSort fun a b => decide (a.file ≤ b.file)

/-- Whether a suite with these verdicts fails. -/
def anyFailure (vs : List Verdict) : Bool := vs.any fun v => v.status.isFailure

end Verdict

/-- The report on a suite: an object with a member for each file. -/
def Verdict.report (vs : List Verdict) : JsonValue :=
  .object (vs.map fun v => (Text.Utf8.encode v.file, v.toJson))

end SubrLang
