import SubrLang.Text.Blank

/-!
# Settings

Which features of the language and which warnings are on, and how large a machine programs run on.
A list of flags such as `-Wall -Wno-extra -Fno-lambdas` changes them: `-Wall` and `-Wno-all` go first
wherever they stand, so that a flag for a single warning overrides them.
-/

namespace SubrLang

/-- The parts of the language that can be turned on and off. -/
inductive Feature where
  /-- Characters widen to integers and both to floats where an operand needs it. -/
  | promotion
  /-- Subroutines without a name are expressions. -/
  | lambdas
  /-- Equal string constants share one record. -/
  | stringDedup
  /-- A void subroutine may end without a return statement. -/
  | implicitVoidReturn
deriving DecidableEq, Repr

/-- The warnings that can be turned on and off. -/
inductive Warning where
  | promotion
  | unreachableCode
  | extra
deriving DecidableEq, Repr

namespace Feature

def all : List Feature := [promotion, lambdas, stringDedup, implicitVoidReturn]

def name : Feature → String
  | promotion => "promotion"
  | lambdas => "lambdas"
  | stringDedup => "string-dedup"
  | implicitVoidReturn => "implicit-void-return"

def description : Feature → String
  | promotion => "Implicitly widen char -> int -> float where an operator needs it."
  | lambdas => "Allow anonymous `subr` expressions."
  | stringDedup => "Emit identical string constants once."
  | implicitVoidReturn => "Let void subroutines return by falling off their end."

def ofName? (s : String) : Option Feature := all.find? (·.name == s)

end Feature

namespace Warning

def all : List Warning := [promotion, unreachableCode, extra]

def name : Warning → String
  | promotion => "promotion"
  | unreachableCode => "unreachable-code"
  | extra => "extra"

def description : Warning → String
  | promotion => "Warn whenever an implicit widening cast is inserted."
  | unreachableCode => "Warn about code that will never be executed."
  | extra => "Enable extra miscellaneous warnings."

def ofName? (s : String) : Option Warning := all.find? (·.name == s)

end Warning

/-- How programs are compiled and run. -/
structure Settings where
  feature : Feature → Bool
  warning : Warning → Bool
  /-- The size of the machine's memory in bytes. -/
  memory : Int
  /-- The number of instructions that a run may take; zero or less is no limit. -/
  stepLimit : Int

namespace Settings

/-- What holds where nothing is said. -/
def standard : Settings where
  feature
    | .implicitVoidReturn => false
    | _ => true
  warning
    | .promotion => false
    | _ => true
  memory := 1048576
  stepLimit := 50000000

def setFeature (s : Settings) (f : Feature) (on : Bool) : Settings :=
  { s with feature := fun g => if g = f then on else s.feature g }

def setWarning (s : Settings) (w : Warning) (on : Bool) : Settings :=
  { s with warning := fun v => if v = w then on else s.warning v }

def setAllWarnings (s : Settings) (on : Bool) : Settings :=
  { s with warning := fun _ => on }

/-- A flag or a part of one. Flags may come from a source file, and so need not be well formed. -/
abbrev Flag := List Text.Piece

def Flag.ofString (s : String) : Flag := s.toList.map .char

def Flag.bytes (f : Flag) : List UInt8 := f.flatMap Text.Piece.bytes

/-- Why a flag is not accepted. -/
inductive FlagError where
  | unrecognized (flag : Flag)
  | unknownWarning (name : Flag)
  | unknownFeature (name : Flag)
deriving DecidableEq, Repr

def FlagError.message (e : FlagError) : List UInt8 :=
  let (what, f) := match e with
    | .unrecognized f => ("unrecognized flag", f)
    | .unknownWarning f => ("unknown warning", f)
    | .unknownFeature f => ("unknown feature", f)
  Text.Utf8.encode s!"{what} '" ++ Flag.bytes f ++ Text.Utf8.encode "'"

/-- The name that a flag gives after its letter, and whether it turns that on. -/
def polarity (flag : Flag) : Bool × Flag :=
  match (Flag.ofString "no-").isPrefixOf? flag with
  | some name => (false, name)
  | none => (true, flag)

/-- Applies one flag; the hyphen in front of the letter may be missing. -/
def applyFlag (s : Settings) (flag : Flag) : Except FlagError Settings :=
  let body := match flag with
    | .char '-' :: ps => ps
    | ps => ps
  match body with
  | .char 'W' :: ps =>
    let (on, name) := polarity ps
    if name = Flag.ofString "all" then .ok (s.setAllWarnings on)
    else match Warning.all.find? (Flag.ofString ·.name == name) with
      | some w => .ok (s.setWarning w on)
      | none => .error (.unknownWarning name)
  | .char 'F' :: ps =>
    let (on, name) := polarity ps
    match Feature.all.find? (Flag.ofString ·.name == name) with
    | some f => .ok (s.setFeature f on)
    | none => .error (.unknownFeature name)
  | _ => .error (.unrecognized flag)

/-- Applies flags one after the other up to the first that is not accepted. What the earlier ones
changed stays. -/
def applyFlags (s : Settings) : List Flag → Settings × Option FlagError
  | [] => (s, none)
  | flag :: flags =>
    match s.applyFlag flag with
    | .ok t => t.applyFlags flags
    | .error e => (s, some e)

/-- The flags that speak of all warnings. -/
def isGeneral (flag : Flag) : Bool :=
  flag == Flag.ofString "-Wall" || flag == Flag.ofString "-Wno-all"

/-- Applies a list of flags with blanks between them, the general ones first. -/
def process (s : Settings) (flags : List Text.Piece) : Settings × Option FlagError :=
  let (general, special) := (Text.words Text.Piece.isBlank flags).partition isGeneral
  s.applyFlags (general ++ special)

end Settings

end SubrLang
