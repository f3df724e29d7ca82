import SubrLang.Text.Printable
import SubrLang.Text.Utf8

/-!
# Quoted texts

A quoted text stands between two quotes. The quote and the backslash get a backslash in front,
printable characters stand for themselves, and the others are written with a letter (`\n`) or with
their code in two, four or eight hexadecimal digits. A byte that belongs to no character is written
like a control character, with its two digits.
-/

namespace SubrLang.Text

/-- The lower case hexadecimal digits of `n`, at least `width` of them. -/
def hex (width n : Nat) : List Char :=
  let ds := Nat.toDigits 16 n
  List.replicate (width - ds.length) '0' ++ ds

namespace Quoted

/-- The letter that stands for a control character after a backslash. -/
def letter? (c : Char) : Option Char :=
  match c.toNat with
  | 0x07 => some 'a'
  | 0x08 => some 'b'
  | 0x09 => some 't'
  | 0x0a => some 'n'
  | 0x0b => some 'v'
  | 0x0c => some 'f'
  | 0x0d => some 'r'
  | _ => none

/-- How `c` is written between two quotes `q`. -/
def escape (q c : Char) : List Char :=
  if c = q ∨ c = '\\' then ['\\', c]
  else if isPrintable c then [c]
  else match letter? c with
    | some l => ['\\', l]
    | none =>
      let n := c.toNat
      if n < 0x20 ∨ n = 0x7f then '\\' :: 'x' :: hex 2 n
      else if n < 0x10000 then '\\' :: 'u' :: hex 4 n
      else '\\' :: 'U' :: hex 8 n

/-- How a piece of a byte sequence is written between double quotes. -/
def escapePiece : Piece → List Char
  | .char c => escape '"' c
  | .stray b => '\\' :: 'x' :: hex 2 b.toNat

end Quoted

/-- The text between double quotes. -/
def quote (s : String) : String :=
  String.ofList ('"' :: s.toList.flatMap (Quoted.escape '"') ++ ['"'])

/-- The bytes as a text between double quotes. -/
def quoteBytes (bs : List UInt8) : String :=
  String.ofList ('"' :: (Utf8.pieces bs).flatMap Quoted.escapePiece ++ ['"'])

/-- The character between single quotes. -/
def quoteChar (c : Char) : String :=
  String.ofList ('\'' :: Quoted.escape '\'' c ++ ['\''])

end SubrLang.Text
