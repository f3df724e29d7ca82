import SubrLang.Text.CharClass
import SubrLang.Text.Utf8

/-!
# Blanks

The characters that separate the words of an option list, and what trimming a text removes.
-/

namespace SubrLang.Text

/-- Characters that separate words, as closed ranges of code points in increasing order. -/
def blankRanges : CharClass :=
  ⟨[(0x9, 0xd), (0x20, 0x20), (0x85, 0x85), (0xa0, 0xa0), (0x1680, 0x1680), (0x2000, 0x200a),
    (0x2028, 0x2029), (0x202f, 0x202f), (0x205f, 0x205f), (0x3000, 0x3000)]⟩

/-- Whether `c` separates words. -/
def isBlank (c : Char) : Bool :=
  blankRanges.contains c

/-- Whether a piece of a byte sequence separates words. -/
def Piece.isBlank : Piece → Bool
  | .char c => Text.isBlank c
  | .stray _ => false

section

variable {α : Type}

/-- The words of a sequence: its maximal runs of elements that are not blank. -/
def words (blank : α → Bool) (cs : List α) : List (List α) :=
  go cs []
where
  /-- Reads on with the word begun so far, last element first. -/
  go : List α → List α → List (List α)
    | [], [] => []
    | [], w => [w.reverse]
    | c :: cs, w =>
      if blank c then
        if w.isEmpty then go cs [] else w.reverse :: go cs []
      else go cs (c :: w)

/-- A sequence without the blanks at its two ends. -/
def trim (blank : α → Bool) (cs : List α) : List α :=
  ((cs.dropWhile blank).reverse.dropWhile blank).reverse

end

/-- The words of a text. -/
def wordsOf (s : String) : List String :=
  (words isBlank s.toList).map String.ofList

end SubrLang.Text
