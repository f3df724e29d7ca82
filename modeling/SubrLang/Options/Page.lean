import SubrLang.Options
import SubrLang.Options.Indent
import SubrLang.Text.Blank

/-!
# Help pages

The usage and help pages of a command, eighty columns wide. All entries of a page have their
description in the same column. Widths are measured in bytes, and padding in characters.
-/

namespace SubrLang

/-- A command and what its pages say about it. -/
structure App where
  name : String
  synopsis : String := ""
  description : String := ""
  authors : List String := []
  repository : String := ""
  since : Int := 0
deriving Repr

namespace Page

/-- The number of columns. -/
def width : Nat := 80

/-- A text padded on the right. -/
def pad (n : Nat) (s : String) : String :=
  s ++ String.ofList (List.replicate (n - s.length) ' ')

/-- Puts words into lines of at most `n` bytes, where `line` is the line begun. A word that is longer
gets a line of its own. -/
def wrapWords (n : Nat) (line : String) : List String → List String
  | [] => if line.isEmpty then [] else [line]
  | w :: ws =>
    if line.isEmpty then wrapWords n w ws
    else if n < line.utf8ByteSize + 1 + w.utf8ByteSize then line :: wrapWords n w ws
    else wrapWords n s!"{line} {w}" ws

/-- The words of a text in lines of at most `n` bytes. -/
def wrap (n : Nat) (s : String) : List String :=
  wrapWords n "" (Text.wordsOf s)

/-- How the name of an option is shown. -/
def optionText (o : OptionDef) : String :=
  let arg := if o.value.isSwitch || o.argument.isEmpty then "" else s!" <{o.argument}>"
  let short := if o.short.isEmpty then "" else s!"-{o.short}{arg}, "
  s!"{short}--{o.name}{arg}"

def groupKind (g : ToggleGroup) : String :=
  if g.kind.isEmpty then "flag" else g.kind

/-- How the toggles of a group are shown together. -/
def groupText (g : ToggleGroup) (negated : Bool) : String :=
  let letter := (g.toggles.head?.map (·.letter)).getD ""
  if negated then s!"-{letter}no-<{groupKind g}>" else s!"-{letter}<{groupKind g}>"

/-- The options that do not belong to a group, by name. -/
def ownOptions (s : OptionSet) : List OptionDef :=
  let grouped := s.groups.flatMap fun g => g.toggles.flatMap fun t => [t.onName, t.offName]
  (s.options.filter fun o => !grouped.contains o.name).mergeSort fun a b => decide (a.name ≤ b.name)

/-- The width of the column of names. -/
def leftWidth (s : OptionSet) : Nat :=
  let names := (ownOptions s).map optionText ++
    s.groups.flatMap fun g => [groupText g false, groupText g true] ++ g.toggles.map (·.name)
  names.foldl (fun n t => max n t.utf8ByteSize) 0

def heading (title : String) : String := s!"\n{Indent.atLevel 1}{title}\n"

/-- An entry: a name, its description, and perhaps a remark at the right end of the first line. -/
def entry (left : Nat) (name usage right : String) : String :=
  let indent := Indent.atLevel 2
  let used := indent.utf8ByteSize + left + 1 + right.utf8ByteSize + 2
  let room := max (width - used) 10
  let lines := wrap room usage
  let first := lines.headD ""
  let head :=
    if right.isEmpty then s!"{indent}{pad left name} {first}\n"
    else s!"{indent}{pad left name} {pad room first}  {right}\n"
  let blank := String.ofList (List.replicate (left + 1) ' ')
  head ++ String.join (lines.tail.map fun l => s!"{indent}{blank}{l}\n")

end Page

namespace App

open Page

/-- What is shown after a mistake on the command line. -/
def usagePage (a : App) (s : OptionSet) : String :=
  let left := leftWidth s
  let options := ownOptions s
  s!"Usage: {a.name} {a.synopsis}\n" ++
    (if options.isEmpty then "" else
      heading "Options" ++ String.join (options.map fun o => entry left (optionText o) o.usage "")) ++
    s!"\nRun '{a.name} --help' for all available options and flags.\n"

/-- The part of a help page about a group of toggles. -/
def groupPart (s : OptionSet) (left : Nat) (g : ToggleGroup) : String :=
  let toggles := g.toggles.mergeSort fun a b => decide (a.name ≤ b.name)
  heading g.name ++
    entry left (groupText g false) s!"Enable a specific {groupKind g}" "" ++
    entry left (groupText g true) s!"Disable a specific {groupKind g}" "" ++
    (if g.header.isEmpty then "" else s!"{Indent.atLevel 1}{g.header}\n") ++
    String.join (toggles.map fun t => entry left t.name t.usage (if s.isToggled t then "|x|" else "|-|"))

/-- The full description of a command. -/
def helpPage (a : App) (s : OptionSet) : String :=
  let left := leftWidth s
  let authors := ", ".intercalate a.authors
  let synopsis := String.ofList (a.synopsis.toList.map fun c =>
    if c = '[' then '<' else if c = ']' then '>' else c)
  let lines := wrap (width - (Indent.atLevel 2).utf8ByteSize) a.description
  let options := ownOptions s
  let groups := s.groups.mergeSort fun g h => decide (g.name ≤ h.name)
  s!"\n{Indent.atLevel 1}Copyright (c) {a.since}: {authors} and contributors\n" ++
    (if a.repository.isEmpty then ""
      else s!"{Indent.atLevel 1}For more details refer to {a.repository}\n") ++
    (if a.synopsis.isEmpty then ""
      else heading "Synopsis" ++ s!"{Indent.atLevel 2}{a.name} {synopsis}\n") ++
    (if a.description.isEmpty then ""
      else heading "Description" ++ String.join (lines.map fun l => s!"{Indent.atLevel 2}{l}\n")) ++
    (if options.isEmpty then ""
      else heading "Options" ++ String.join (options.map fun o =>
        let right := if o.value.isSwitch || o.initial.isEmpty then "" else s!"|{o.initial}|"
        entry left (optionText o) o.usage right)) ++
    String.join (groups.map (groupPart s left))

/-- What a command line asks for. -/
inductive Request where
  /-- A page for standard output. -/
  | help (page : String)
  /-- The command is to act on its arguments. -/
  | act (args : List String)
  /-- The arguments were not accepted; the page is for standard error. -/
  | refused (e : OptionError) (page : List UInt8)

/-- The option that asks for the help page. -/
def helpOption : OptionDef :=
  { name := "help", short := "h", usage := "Display this information", value := .switch false }

/-- Reads a command line. The option for help is added to the others first. -/
def read (a : App) (s : OptionSet) (args : List String) : OptionSet × Except OptionDefError Request :=
  match s.define helpOption with
  | (s, some e) => (s, .error e)
  | (s, none) =>
    match s.parse args with
    | (s, some e) =>
      let usage := Text.Utf8.encode ("\n" ++ a.usagePage s)
      (s, .ok (.refused e (Text.Utf8.encode s!"{a.name}: " ++ e.message ++ usage)))
    | (s, none) =>
      (s, .ok (if s.isOn helpOption.name then .help (a.helpPage s) else .act s.args))

end App

end SubrLang
