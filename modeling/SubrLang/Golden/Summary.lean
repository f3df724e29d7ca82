import SubrLang.Files.Path
import SubrLang.Golden.Verdict
import SubrLang.Number.Duration
import SubrLang.Options.Page

/-!
# Summaries

What is shown of a suite on a terminal: the tests that did not pass, with their differences, and how many
there were of each kind. All tests are shown if asked for.
-/

namespace SubrLang

/-- The colours of a summary, as the sequences that turn them on. -/
inductive Colour where
  | red
  | yellow
  | green
  | cyan
  | bold
  | none
deriving DecidableEq, Repr

def Colour.code : Colour → String
  | red => "\x1b[91m"
  | yellow => "\x1b[93m"
  | green => "\x1b[92m"
  | cyan => "\x1b[96m"
  | bold => "\x1b[1m"
  | none => "\x1b[0m"

/-- A text in a colour. -/
def Colour.paint (c : Colour) (s : String) : String := c.code ++ s ++ Colour.none.code

def Status.colour : Status → Colour
  | pass => .green
  | fail => .red
  | skip => .yellow
  | error => .red

namespace Summary

/-- The colour that a line of a difference starts with, by its first character that is not blank. -/
def lineColour (line : List UInt8) : String :=
  match (Text.Utf8.pieces line).dropWhile Text.Piece.isBlank with
  | .char '-' :: _ => Colour.red.code
  | .char '+' :: _ => Colour.green.code
  | _ => ""

/-- A difference for the terminal. -/
def diff (d : List UInt8) : List UInt8 :=
  if d.isEmpty then []
  else Text.Utf8.encode "    --- Diff ---\n" ++ (Verdict.lines d).flatMap fun l =>
    Text.Utf8.encode (lineColour l ++ "    ") ++ l ++ Text.Utf8.encode (Colour.none.code ++ "\n")

def rule : String := String.ofList (List.replicate 70 '-') ++ "\n"

/-- The lines about a test, with its name in a column of `width` characters. -/
def entry (width : Nat) (v : Verdict) : List UInt8 :=
  let head := v.status.colour.paint s!"[{v.status.name}]"
  let name := Page.pad width (Path.base v.file)
  let cost := match v.status, v.target with
    | .pass, some t =>
      let time := Colour.cyan.paint (Duration.column t.result.duration)
      s!"       {time}, {t.result.steps} steps\n"
    | _, _ => ""
  Text.Utf8.encode s!"{head} {name} " ++ v.message ++ Text.Utf8.encode ("\n" ++ cost) ++ diff v.diff

/-- How many tests there are of a kind. -/
def count (vs : List Verdict) (s : Status) (word : String) : String :=
  s.colour.paint s!"{(vs.filter fun v => v.status = s).length} {word}"

def sum (vs : List Verdict) (f : RunRecord → Int) : Int :=
  vs.foldl (fun n v => n + ((v.target.map fun t => f t.result).getD 0)) 0

/-- The summary of a suite. -/
def text (verbose : Bool) (vs : List Verdict) : List UInt8 :=
  let width := vs.foldl (fun n v => max n (Path.base v.file).utf8ByteSize) 0
  let shown := vs.filter fun v => verbose || v.status != .pass
  let counts := ", ".intercalate
    [count vs .pass "Passed", count vs .fail "Failed", count vs .skip "Skipped", count vs .error "Errored"]
  let title := Colour.bold.paint "Test Summary:"
  let total := if verbose then
      s!"Ran {sum vs (·.steps)} instructions in {Duration.text (sum vs (·.duration))}.\n"
    else ""
  Text.Utf8.encode rule ++ shown.flatMap (entry width) ++
    Text.Utf8.encode (rule ++ s!"{title} {counts}, {vs.length} Total\n" ++ total)

end Summary

end SubrLang
