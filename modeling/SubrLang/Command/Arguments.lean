import SubrLang.Number.Duration
import SubrLang.Number.Numeral
import SubrLang.Text.Quoted

/-!
# Plain arguments

Arguments of the form `-name value`, `-name=value` or, for switches, `-name`; two hyphens do as well. The
first argument of another form ends them, and so does `--`. Each argument says how its value changes the
options of a command.
-/

namespace SubrLang

/-- Why a value is not accepted. -/
inductive ValueError where
  | badSyntax
  | outOfRange
deriving DecidableEq, Repr

def ValueError.message : ValueError → String
  | .badSyntax => "parse error"
  | .outOfRange => "value out of range"

/-- Why arguments are not accepted. -/
inductive ArgumentError where
  | badForm (arg : String)
  | undefined (name : String)
  | needsValue (name : String)
  | badValue (value name : String) (e : ValueError)
  | badSwitch (value name : String) (e : ValueError)
deriving DecidableEq, Repr

def ArgumentError.message : ArgumentError → String
  | .badForm a => s!"bad flag syntax: {a}"
  | .undefined n => s!"flag provided but not defined: -{n}"
  | .needsValue n => s!"flag needs an argument: -{n}"
  | .badValue v n e => s!"invalid value {Text.quote v} for flag -{n}: {e.message}"
  | .badSwitch v n e => s!"invalid boolean value {Text.quote v} for -{n}: {e.message}"

/-- An argument of a command with options `σ`. -/
structure Argument (σ : Type) where
  name : String
  /-- What kind of value follows; empty for a switch. -/
  kind : String
  usage : String
  /-- The value it starts with, if that is shown. -/
  initial : String := ""
  set : String → σ → Except ValueError σ

namespace Argument

variable {σ : Type}

def isSwitch (a : Argument σ) : Bool := a.kind.isEmpty

/-- A switch, given how it changes the options. -/
def switch (name usage : String) (f : Bool → σ → σ) : Argument σ where
  name := name
  kind := ""
  usage := usage
  set v o :=
    if ["1", "t", "T", "TRUE", "true", "True"].contains v then .ok (f true o)
    else if ["0", "f", "F", "FALSE", "false", "False"].contains v then .ok (f false o)
    else .error .badSyntax

def text (name initial usage : String) (f : String → σ → σ) : Argument σ where
  name := name
  kind := "string"
  usage := usage
  initial := if initial.isEmpty then "" else Text.quote initial
  set v o := .ok (f v o)

def integer (name : String) (initial : Int) (usage : String) (f : Int → σ → σ) : Argument σ where
  name := name
  kind := "int"
  usage := usage
  initial := if initial = 0 then "" else s!"{initial}"
  set v o :=
    match Numeral.marked 64 v.toList with
    | .ok n => .ok (f n o)
    | .error .badSyntax => .error .badSyntax
    | .error .outOfRange => .error .outOfRange

def duration (name : String) (initial : Int) (usage : String) (f : Int → σ → σ) : Argument σ where
  name := name
  kind := "duration"
  usage := usage
  initial := if initial = 0 then "" else Duration.text initial
  set v o :=
    match Duration.read? v with
    | some n => .ok (f n o)
    | none => .error .badSyntax

/-- The lines about an argument on a usage page. The description of a short switch follows on the line of
its name. -/
def usageLines (a : Argument σ) : String :=
  let kind := if a.isSwitch then "" else s!" {a.kind}"
  let head := s!"  -{a.name}{kind}"
  let gap := if head.utf8ByteSize ≤ 4 then "\t" else "\n    \t"
  let initial := if a.initial.isEmpty then "" else s!" (default {a.initial})"
  s!"{head}{gap}{a.usage}{initial}\n"

/-- The usage page of a command, its arguments by name. -/
def usagePage (command : String) (as : List (Argument σ)) : String :=
  s!"Usage of {command}:\n" ++
    String.join ((as.mergeSort fun a b => decide (a.name ≤ b.name)).map usageLines)

/-- What an argument of a command line is. -/
inductive Form where
  /-- The arguments are over before it. -/
  | other
  /-- A name, and the value after the equals sign. -/
  | named (name : String) (value : Option String)
  | bad

/-- The form of an argument of a command line. -/
def form (arg : String) : Form :=
  match arg.toList with
  | ['-', '-'] => .other
  | '-' :: '-' :: body => ofBody body
  | '-' :: c :: cs => ofBody (c :: cs)
  | _ => .other
where
  /-- The form of an argument without its hyphens. The equals sign cannot come first. -/
  ofBody : List Char → Form
    | [] => .bad
    | c :: cs =>
      if c = '-' || c = '=' then .bad
      else
        let (name, rest) := cs.span (· != '=')
        .named (String.ofList (c :: name)) (match rest with
          | _ :: value => some (String.ofList value)
          | [] => none)

/-- What is to happen after the arguments were read. -/
inductive Reading (σ : Type) where
  | act (options : σ)
  | help
  | refused (e : ArgumentError)

/-- Reads arguments, which change the options one after the other. -/
def read (as : List (Argument σ)) (o : σ) : List String → Reading σ
  | [] => .act o
  | arg :: args =>
    match form arg with
    | .other => .act o
    | .bad => .refused (.badForm arg)
    | .named name value =>
      match as.find? (·.name == name) with
      | none => if name = "help" || name = "h" then .help else .refused (.undefined name)
      | some a =>
        if a.isSwitch then
          match a.set (value.getD "true") o with
          | .ok o => read as o args
          | .error e => .refused (.badSwitch (value.getD "true") name e)
        else
          match value, args with
          | some v, args =>
            match a.set v o with
            | .ok o => read as o args
            | .error e => .refused (.badValue v name e)
          | none, v :: args =>
            match a.set v o with
            | .ok o => read as o args
            | .error e => .refused (.badValue v name e)
          | none, [] => .refused (.needsValue name)

end Argument

end SubrLang
