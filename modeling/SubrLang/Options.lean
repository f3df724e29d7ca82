import SubrLang.Number.Numeral
import SubrLang.Text.Quoted

/-!
# Command line options

An option has a name for two hyphens, perhaps a letter for one, and a value. Groups of toggles such as
the warning flags are pairs of switches `-Wname` and `-Wno-name`.

`OptionSet.parse` goes through the arguments: `--name`, `--name=value`, `--name value`, the same with one
hyphen for names of more than one byte, and `-x`, `-xvalue`, `-x=value`, `-x value` for letters. Anything
else is an ordinary argument, and so is everything after `--`.
-/

namespace SubrLang

/-- The value of an option. -/
inductive OptionValue where
  | text (s : String)
  | switch (b : Bool)
  | number (n : Int)
  | list (l : List String)
deriving DecidableEq, Repr

namespace OptionValue

def render : OptionValue → String
  | text s => s
  | switch b => if b then "true" else "false"
  | number n => s!"{n}"
  | list l => ", ".intercalate l

/-- How a help page shows a value that an option starts with. -/
def showDefault : OptionValue → String
  | list l => ",".intercalate l
  | v => v.render

def isSwitch : OptionValue → Bool
  | switch _ => true
  | _ => false

end OptionValue

/-- Why arguments are not accepted. -/
inductive OptionError where
  | emptyName
  | unknown (dashes name : String)
  /-- No option has this letter; a character of several bytes counts as its first one. -/
  | unknownLetter (b : UInt8)
  | needsArgument (option : String)
  | takesNoValue (c : Char)
  | badSwitch (value : String)
  /-- A number as it was given, without its suffix, and as it was read. -/
  | badNumber (given numeral : String) (e : Numeral.IntError)
deriving DecidableEq, Repr

open Text.Utf8 (encode) in
def OptionError.message : OptionError → List UInt8
  | .emptyName => encode "empty flag name"
  | .unknown dashes name => encode s!"unknown flag: {dashes}{name}"
  | .unknownLetter b => encode "unknown shorthand flag: -" ++ [b]
  | .needsArgument o => encode s!"flag needs an argument: {o}"
  | .takesNoValue c => encode s!"shorthand flag -{c} takes no value"
  | .badSwitch v =>
    encode s!"invalid boolean value '{v}': strconv.ParseBool: parsing {Text.quote v}: invalid syntax"
  | .badNumber given numeral e =>
    let reason := match e with
      | .badSyntax => "invalid syntax"
      | .outOfRange => "value out of range"
    encode s!"invalid integer value '{given}': strconv.ParseInt: parsing {Text.quote numeral}: {reason}"

/-- Reads a truth value. -/
def readSwitch? (s : String) : Option Bool :=
  if ["1", "t", "T", "TRUE", "true", "True"].contains s then some true
  else if ["0", "f", "F", "FALSE", "false", "False"].contains s then some false
  else none

/-- The letters that a size can end in, and the powers of 1024 that they stand for. -/
def sizeLetters : List (Char × Nat) :=
  [('k', 1 <<< 10), ('K', 1 <<< 10), ('m', 1 <<< 20), ('M', 1 <<< 20), ('g', 1 <<< 30), ('G', 1 <<< 30)]

/-- The factor that the last character of a size stands for, and what is before it. -/
def sizeSuffix (cs : List Char) : Nat × List Char :=
  match cs.getLast?.bind (sizeLetters.lookup ·) with
  | some factor => (factor, cs.dropLast)
  | none => (1, cs)

/-- Reads a number, which may have underscores in it and end in `k`, `m` or `g` for a power of 1024. The
product is a signed word of 64 bits, which wraps around. -/
def readSize (s : String) : Except OptionError Int :=
  let (factor, given) := sizeSuffix s.toList
  let numeral := given.filter (· != '_')
  match Numeral.int 64 numeral with
  | (n, none) => .ok (Int.bmod (n * factor) (1 <<< 64))
  | (_, some e) => .error (.badNumber (String.ofList given) (String.ofList numeral) e)

/-- The value of an option after a text was given for it. A switch without a text is turned on. -/
def OptionValue.set (v : OptionValue) (s : String) : Except OptionError OptionValue :=
  match v with
  | text _ => .ok (text s)
  | list l => .ok (list (l ++ [s]))
  | number _ => (readSize s).map number
  | switch _ =>
    if s.isEmpty then .ok (switch true)
    else match readSwitch? s with
      | some b => .ok (switch b)
      | none => .error (.badSwitch s)

/-- An option with its present value. -/
structure OptionDef where
  name : String
  /-- The letter, if there is one. -/
  short : String := ""
  usage : String := ""
  value : OptionValue
  /-- What a help page calls the value. -/
  argument : String := ""
  /-- The value at the start. -/
  initial : String := value.showDefault
deriving Repr

/-- A toggle of a group. Each of its two switches may be missing. -/
structure Toggle where
  name : String
  letter : String
  usage : String := ""
  on : Option Bool := none
  off : Option Bool := none
deriving Repr

namespace Toggle

def onName (t : Toggle) : String := t.letter ++ t.name

def offName (t : Toggle) : String := t.letter ++ "no-" ++ t.name

end Toggle

/-- A group of toggles and how a help page shows it. -/
structure ToggleGroup where
  name : String
  kind : String
  header : String
  toggles : List Toggle
deriving Repr

/-- How options can be defined wrongly. -/
inductive OptionDefError where
  | emptyName
  | redefined (name : String)
  | letterRedefined (letter : String)
deriving DecidableEq, Repr

def OptionDefError.message : OptionDefError → String
  | .emptyName => "flag name cannot be empty"
  | .redefined n => s!"flag redefined: {n}"
  | .letterRedefined l => s!"shorthand flag redefined: {l}"

structure OptionSet where
  options : List OptionDef := []
  groups : List ToggleGroup := []
  /-- The ordinary arguments found by the last parse. -/
  args : List String := []
deriving Repr

namespace OptionSet

def find? (s : OptionSet) (name : String) : Option OptionDef :=
  s.options.find? (·.name == name)

/-- The option with a letter. -/
def findLetter? (s : OptionSet) (c : Char) : Option OptionDef :=
  s.options.find? (·.short == String.singleton c)

/-- Adds an option. One whose letter is taken stays in the set. -/
def define (s : OptionSet) (o : OptionDef) : OptionSet × Option OptionDefError :=
  if o.name.isEmpty then (s, some .emptyName)
  else if (s.find? o.name).isSome then (s, some (.redefined o.name))
  else
    let taken := !o.short.isEmpty && s.options.any (·.short == o.short)
    if taken then
      ({ s with options := s.options ++ [{ o with short := "" }] }, some (.letterRedefined o.short))
    else ({ s with options := s.options ++ [o] }, none)

/-- Adds options up to the first that is wrong. -/
def defineAll (s : OptionSet) : List OptionDef → Except OptionDefError OptionSet
  | [] => .ok s
  | o :: os =>
    match s.define o with
    | (t, none) => t.defineAll os
    | (_, some e) => .error e

/-- The switches of a toggle. -/
def switches (t : Toggle) : List OptionDef :=
  (t.on.map fun b => { name := t.onName, usage := t.usage, value := .switch b : OptionDef }).toList ++
  (t.off.map fun b =>
    { name := t.offName, usage := s!"Disable '{t.name}'", value := .switch b : OptionDef }).toList

/-- Adds a group of toggles. -/
def addGroup (s : OptionSet) (g : ToggleGroup) : Except OptionDefError OptionSet := do
  let s ← s.defineAll (g.toggles.flatMap switches)
  return { s with groups := s.groups ++ [g] }

/-- Whether a switch of the set is on. -/
def isOn (s : OptionSet) (name : String) : Bool :=
  match s.find? name with
  | some { value := .switch b, .. } => b
  | _ => false

/-- The text of an option of the set. -/
def text (s : OptionSet) (name : String) : String :=
  match s.find? name with
  | some { value := .text t, .. } => t
  | _ => ""

/-- The number of an option of the set. -/
def number (s : OptionSet) (name : String) : Int :=
  match s.find? name with
  | some { value := .number n, .. } => n
  | _ => 0

/-- A toggle with the present positions of its switches. -/
def toggleNow (s : OptionSet) (t : Toggle) : Toggle :=
  { t with on := t.on.map fun _ => s.isOn t.onName, off := t.off.map fun _ => s.isOn t.offName }

/-- Whether a toggle is on: turning off wins over turning on. -/
def isToggled (s : OptionSet) (t : Toggle) : Bool :=
  (s.toggleNow t).on == some true && (s.toggleNow t).off != some true

/-- Gives a text for the value of an option. -/
def set (s : OptionSet) (name value : String) : Except OptionError OptionSet :=
  match s.find? name with
  | none => .ok s
  | some o => do
    let v ← o.value.set value
    return { s with options := s.options.map fun p => if p.name == name then { p with value := v } else p }

/-! ## Reading arguments -/

/-- What an argument is. -/
inductive ArgKind where
  | positional
  /-- Two hyphens alone: ordinary arguments follow. -/
  | endOfOptions
  /-- An option with its value. -/
  | assign (name value : String)
  /-- An option whose value is the next argument, and how a message shows it. -/
  | takesNext (name shown : String)
  | bad (e : OptionError)

/-- Divides a text at its first equals sign. -/
def cut (cs : List Char) : String × Option String :=
  match cs.dropWhile (· != '=') with
  | _ :: value => (String.ofList (cs.takeWhile (· != '=')), some (String.ofList value))
  | [] => (String.ofList cs, none)

/-- What follows hyphens in front of a name. -/
def named (s : OptionSet) (dashes : String) (body : List Char) : ArgKind :=
  let (name, value) := cut body
  if name.isEmpty then .bad .emptyName
  else
    match s.find? name, value with
    | none, _ => .bad (.unknown dashes name)
    | some _, some v => .assign name v
    | some o, none => if o.value.isSwitch then .assign name "" else .takesNext name (dashes ++ name)

/-- A letter and what follows it. Letters are single bytes. -/
def lettered (s : OptionSet) (c : Char) (rest : List Char) : ArgKind :=
  match (if c.utf8Size = 1 then s.findLetter? c else none) with
  | none => .bad (.unknownLetter ((Text.Utf8.encode (String.singleton c)).headD 0))
  | some o =>
    if o.value.isSwitch then
      if rest.isEmpty then .assign o.name "" else .bad (.takesNoValue c)
    else
      let value := match rest with
        | '=' :: cs => cs
        | cs => cs
      if value.isEmpty then .takesNext o.name s!"-{c}" else .assign o.name (String.ofList value)

/-- What an argument is. -/
def classify (s : OptionSet) (arg : String) : ArgKind :=
  match arg.toList with
  | ['-', '-'] => .endOfOptions
  | '-' :: '-' :: body => s.named "--" body
  | '-' :: c :: rest =>
    let (name, _) := cut (c :: rest)
    if 1 < name.utf8ByteSize && (s.find? name).isSome then s.named "-" (c :: rest)
    else s.lettered c rest
  | _ => .positional

/-- Goes through arguments; what was set before an error stays set. -/
def parseFrom (s : OptionSet) : List String → OptionSet × Option OptionError
  | [] => (s, none)
  | arg :: rest =>
    match s.classify arg with
    | .endOfOptions => ({ s with args := s.args ++ rest }, none)
    | .positional => parseFrom { s with args := s.args ++ [arg] } rest
    | .bad e => (s, some e)
    | .assign name value =>
      match s.set name value with
      | .ok t => parseFrom t rest
      | .error e => (s, some e)
    | .takesNext name shown =>
      match rest with
      | [] => (s, some (.needsArgument shown))
      | value :: rest =>
        match s.set name value with
        | .ok t => parseFrom t rest
        | .error e => (s, some e)

/-- Reads the arguments of a command. -/
def parse (s : OptionSet) (args : List String) : OptionSet × Option OptionError :=
  parseFrom { s with args := [] } args

end OptionSet

end SubrLang
