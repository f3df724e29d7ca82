import SubrLang.Machine.Fault

/-!
# Formats

A format is a text in which a percent sign and a letter stand for a word that is to be written: `d` for
an integer, `f` for a float, `c` for a character and `s` for a text in memory. Two percent signs are one
that is written.
-/

namespace SubrLang

/-- How a word is written. -/
inductive Conversion where
  | int | float | char | text
deriving DecidableEq, Repr

/-- The conversion that a letter after a percent sign stands for. -/
def Conversion.ofLetter? (c : UInt8) : Option Conversion :=
  if c = 'd'.toUInt8 then some .int
  else if c = 'f'.toUInt8 then some .float
  else if c = 'c'.toUInt8 then some .char
  else if c = 's'.toUInt8 then some .text
  else none

/-- A part of a format. -/
inductive FormatPart where
  | literal (b : UInt8)
  | convert (c : Conversion)
deriving DecidableEq, Repr

namespace Format

/-- The parts of a format; `whole` is the format for messages. -/
def parts (whole : List UInt8) : List UInt8 → Except Fault (List FormatPart)
  | [] => .ok []
  | b :: bs =>
    if b = '%'.toUInt8 then
      match bs with
      | [] => .error (.openConversion whole)
      | c :: cs =>
        if c = '%'.toUInt8 then (parts whole cs).map (.literal c :: ·)
        else
          match Conversion.ofLetter? c with
          | some v => (parts whole cs).map (.convert v :: ·)
          | none => .error (.unknownConversion c whole)
    else (parts whole bs).map (.literal b :: ·)

/-- The conversions of a format. -/
def conversions (ps : List FormatPart) : List Conversion :=
  ps.filterMap fun
    | .convert c => some c
    | .literal _ => none

/-- A format with its conversions replaced, in order. -/
def fill : List FormatPart → List (List UInt8) → List UInt8
  | [], _ => []
  | .literal b :: ps, args => b :: fill ps args
  | .convert _ :: ps, arg :: args => arg ++ fill ps args
  | .convert _ :: ps, [] => fill ps []

end Format

end SubrLang
