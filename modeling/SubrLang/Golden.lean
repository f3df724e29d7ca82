import SubrLang.Json.Read

/-!
# Golden files

A golden file keeps what a test program printed, so that later runs can be compared with it. It is a JSON
object. Members that are empty or zero are left out where the format allows it.

When a golden file is read, unknown members are passed over, `null` leaves a member as it is, and the case
of names does not matter. Of several members with values of a wrong kind the first one is reported, with the
names that lead to it.
-/

namespace SubrLang

/-- What came of running a program. -/
structure RunRecord where
  stdout : List UInt8 := []
  diagnostics : List UInt8 := []
  exitCode : Int := 0
  steps : Int := 0
  /-- The time that it took, in nanoseconds. -/
  duration : Int := 0
  timedOut : Bool := false
deriving DecidableEq, Repr

/-- What a golden file says. -/
structure Golden where
  /-- The digest of the source that was run. -/
  sourceHash : String := ""
  flags : List UInt8 := []
  result : RunRecord := {}
deriving DecidableEq, Repr

/-! ## Writing -/

/-- A member that is left out under a condition. -/
def JsonValue.member (name : String) (v : JsonValue) (omitted : Bool := false) :
    List (List UInt8 × JsonValue) :=
  if omitted then [] else [(Text.Utf8.encode name, v)]

open JsonValue (member)

def RunRecord.toJson (r : RunRecord) : JsonValue :=
  .object (member "stdout" (.text r.stdout) ++
    member "diagnostics" (.text r.diagnostics) r.diagnostics.isEmpty ++
    member "exitCode" (.ofInt r.exitCode) ++
    member "steps" (.ofInt r.steps) (r.steps = 0) ++
    member "duration" (.ofInt r.duration) ++
    member "timed_out" (.bool r.timedOut) (!r.timedOut))

def Golden.toJson (g : Golden) : JsonValue :=
  .object (member "source_hash" (.ofString g.sourceHash) ++
    member "flags" (.text g.flags) g.flags.isEmpty ++
    member "result" g.result.toJson)

/-! ## Reading -/

/-- A value of a wrong kind, and what it was meant for. -/
structure Mismatch where
  found : String
  target : String
deriving DecidableEq, Repr

/-- Why a golden file cannot be read. -/
inductive GoldenError where
  | json (e : JsonError)
  | mismatch (m : Mismatch)
deriving DecidableEq, Repr

def GoldenError.message : GoldenError → String
  | .json e => e.message
  | .mismatch m => s!"json: cannot unmarshal {m.found} into {m.target}"

/-- The kind of a value. -/
def JsonValue.kind : JsonValue → String
  | null => "null"
  | bool _ => "bool"
  | number _ => "number"
  | text _ => "string"
  | array _ => "array"
  | object _ => "object"

namespace Golden

/-- Readings that keep the first mismatch. -/
abbrev Decode := StateM (Option Mismatch)

/-- Notes a mismatch and goes on with the value so far. -/
def keep {α : Type} (old : α) (m : Mismatch) : Decode α := do
  modify (·.or (some m))
  return old

def decodeText (target : String) (old : List UInt8) : JsonValue → Decode (List UInt8)
  | .text t => return t
  | .null => return old
  | v => keep old ⟨v.kind, target⟩

def decodeBool (target : String) (old : Bool) : JsonValue → Decode Bool
  | .bool b => return b
  | .null => return old
  | v => keep old ⟨v.kind, target⟩

def decodeInt (target : String) (old : Int) : JsonValue → Decode Int
  | .number literal =>
    match Numeral.int 64 literal.toList with
    | (n, none) => return n
    | (_, some _) => keep old ⟨s!"number {literal}", target⟩
  | .null => return old
  | v => keep old ⟨v.kind, target⟩

/-- A name in upper case. Two characters outside of ASCII have an upper case in it. -/
def foldName (name : List UInt8) : String :=
  String.ofList ((Text.Utf8.decode name).map fun c =>
    if c.toNat = 0x17f then 'S' else if c.toNat = 0x212a then 'K' else c.toUpper)

/-- What a value is meant for, given the names that lead to it as the file writes them. -/
def field (path : List (List UInt8)) (type : String) : String :=
  let names := ".".intercalate (path.map fun n => String.ofList (Text.Utf8.decode n))
  s!"Go struct field GoldenResult.{names} of type {type}"

/-- Reads one member of the result with the given name. -/
def decodeResultMember (result : List UInt8) (r : RunRecord) (m : List UInt8 × JsonValue) :
    Decode RunRecord := do
  let field := field [result, m.1]
  match foldName m.1 with
  | "STDOUT" => return { r with stdout := ← decodeText (field "string") r.stdout m.2 }
  | "DIAGNOSTICS" => return { r with diagnostics := ← decodeText (field "string") r.diagnostics m.2 }
  | "EXITCODE" => return { r with exitCode := ← decodeInt (field "int") r.exitCode m.2 }
  | "STEPS" => return { r with steps := ← decodeInt (field "int64") r.steps m.2 }
  | "DURATION" => return { r with duration := ← decodeInt (field "time.Duration") r.duration m.2 }
  | "TIMED_OUT" => return { r with timedOut := ← decodeBool (field "bool") r.timedOut m.2 }
  | _ => return r

def decodeResult (name : List UInt8) (old : RunRecord) : JsonValue → Decode RunRecord
  | .object ms => ms.foldlM (decodeResultMember name) old
  | .null => return old
  | v => keep old ⟨v.kind, field [name] "main.Execution"⟩

/-- Reads one member of a golden file. -/
def decodeMember (g : Golden) (m : List UInt8 × JsonValue) : Decode Golden := do
  match foldName m.1 with
  | "SOURCE_HASH" =>
    let bytes ← decodeText (field [m.1] "string") (Text.Utf8.encode g.sourceHash) m.2
    return { g with sourceHash := String.ofList (Text.Utf8.decode bytes) }
  | "FLAGS" => return { g with flags := ← decodeText (field [m.1] "string") g.flags m.2 }
  | "RESULT" => return { g with result := ← decodeResult m.1 g.result m.2 }
  | _ => return g

def decode : JsonValue → Decode Golden
  | .object ms => ms.foldlM decodeMember {}
  | .null => return {}
  | v => keep {} ⟨v.kind, "Go value of type main.GoldenResult"⟩

/-- Reads a golden file. -/
def read (bs : List UInt8) : Except GoldenError Golden :=
  match JsonValue.read bs with
  | .error e => .error (.json e)
  | .ok v =>
    match (decode v).run none with
    | (g, none) => .ok g
    | (_, some m) => .error (.mismatch m)

end Golden

end SubrLang
