import SubrLang.Compilation
import SubrLang.Digest
import SubrLang.Golden
import SubrLang.Text.Blank

/-!
# Recording a run

Compiles and runs a test program and keeps what it printed. A program can ask for flags in a comment that
starts with `# flags:`.

The exit code of a record is 0 for a program that came to its end, 1 for one with errors, 2 for one that the
machine stopped, and -1 for one that did not end within its limits.
-/

namespace SubrLang

/-- Flags in a source text that are not accepted. -/
structure SourceFlagsError where
  flags : List UInt8
  error : Settings.FlagError

def SourceFlagsError.message (e : SourceFlagsError) : List UInt8 :=
  Text.Utf8.encode s!"bad flags {Text.quoteBytes e.flags}: " ++ e.error.message

/-- Bytes without the blanks at their two ends. -/
def Text.trimBytes (bs : List UInt8) : List UInt8 :=
  (Text.trim Text.Piece.isBlank (Text.Utf8.pieces bs)).flatMap Text.Piece.bytes

namespace Golden

/-- What comes after the first occurrence of a marker. -/
def after? (marker : List UInt8) : List UInt8 → Option (List UInt8)
  | [] => marker.isPrefixOf? []
  | b :: bs => (marker.isPrefixOf? (b :: bs)).or (after? marker bs)

/-- The flags that a source text asks for: what stands behind the marker, up to the end of the line or
the next `#`. -/
def sourceFlags (source : List UInt8) : List UInt8 :=
  match after? (Text.Utf8.encode "# flags:") source with
  | none => []
  | some rest => Text.trimBytes (rest.takeWhile fun b => b != 0x23 && b != 0x0a)

/-- What is recorded of a run. -/
def ofExecution (diagnostics : String) (e : Execution) : RunRecord :=
  let r : RunRecord :=
    { stdout := e.output.toList, diagnostics := Text.Utf8.encode diagnostics, steps := e.stats.steps }
  match e.error with
  | none => r
  | some (.run (.stepLimit _)) | some (.run .canceled) => { r with exitCode := -1, timedOut := true }
  | some err =>
    { r with exitCode := 2, diagnostics := r.diagnostics ++ err.message ++ [0x0a] }

/-- Records a run of a source text. A run whose time is over before it starts does nothing. -/
def record (name : String) (stepLimit : Int) (expired : Bool) (source : List UInt8) :
    Except SourceFlagsError Golden :=
  let flags := sourceFlags source
  match { Settings.standard with stepLimit }.process (Text.Utf8.pieces flags) with
  | (_, some error) => .error { flags, error }
  | (settings, none) =>
    let c := compile settings name source
    let result := match c.code with
      | .error _ => { diagnostics := Text.Utf8.encode c.report.text, exitCode := 1 }
      | .ok _ => ofExecution c.report.text (c.run settings expired)
    .ok { sourceHash := Digest.text source, flags, result }

end Golden

end SubrLang
