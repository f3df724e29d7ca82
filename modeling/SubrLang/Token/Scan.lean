import SubrLang.Number.Numeral
import SubrLang.Text.Digit
import SubrLang.Text.Letter
import SubrLang.Token

/-!
# Scanning

The source is cut into lexemes from left to right. A lexeme says how many characters it takes, which
token it is, if any, and what is wrong with it, if anything: blanks and comments are lexemes without a
token, and so is a character that starts no token, which is reported and passed over. The scanner
goes on after every error.

* `lexeme` decides the first lexeme from the first character and what follows it.
* `Scan.from` walks over the source and keeps track of lines and columns.
-/

namespace SubrLang

/-- What can be wrong with a lexeme. -/
inductive ScanError where
  | unexpectedCharacter (c : Char)
  | integerTooLarge (numeral : String)
  | noFraction
  | noExponent
  | unterminatedString
  | characterNotAscii
  | unterminatedCharacter
  | noOctalDigits
  | octalTooLarge (value : Nat)
deriving DecidableEq, Repr

/-- The text of a scan error. -/
def ScanError.message : ScanError → String
  | .unexpectedCharacter c => s!"unexpected character '{c}'"
  | .integerTooLarge s => s!"integer constant {s} does not fit in 32 bits"
  | .noFraction => "malformed floating-point literal: no digits after '.'"
  | .noExponent => "malformed floating-point literal: exponent has no digits"
  | .unterminatedString => "unterminated string literal"
  | .characterNotAscii => "character literal must be ASCII"
  | .unterminatedCharacter => "unterminated character literal"
  | .noOctalDigits => "expected octal digits after '%'"
  | .octalTooLarge v => s!"character constant %{String.ofList (Nat.toDigits 8 v)} exceeds 127"

/-- The first lexeme of a source. -/
structure Lexeme where
  /-- The number of characters after the first one. -/
  extra : Nat
  /-- Its token with the text that the token carries. -/
  token : Option (TokenKind × String) := none
  error : Option ScanError := none
deriving DecidableEq, Repr

namespace Lexeme

/-- A token of fixed spelling with `extra` characters after the first. -/
def mark (k : TokenKind) (extra : Nat := 0) : Lexeme :=
  { extra, token := some (k, "") }

/-- A character that starts no token. -/
def unexpected (c : Char) : Lexeme :=
  { extra := 0, error := some (.unexpectedCharacter c) }

/-- Spaces, tabs and line ends. -/
def isLayout (c : Char) : Bool :=
  c == ' ' || c == '\t' || c == '\n' || c == '\r'

/-- Whether an identifier can start with `c`. -/
def startsWord (c : Char) : Bool :=
  Text.isLetter c || c == '_' || c == '@'

/-- Whether an identifier can go on with `c`. -/
def inWord (c : Char) : Bool :=
  startsWord c || Text.isDigit c

/-- A comment ends with the next `#` or at the end of its line; `cs` follows its first `#`. -/
def comment (cs : List Char) : Lexeme :=
  let body := cs.takeWhile fun c => c != '#' && c != '\n'
  { extra := min (body.length + 1) cs.length }

/-- An identifier or a keyword. -/
def word (c : Char) (cs : List Char) : Lexeme :=
  let tail := cs.takeWhile inWord
  let text := String.ofList (c :: tail)
  match TokenKind.ofWord? text with
  | some k => mark k tail.length
  | none => { extra := tail.length, token := some (.ident, text) }

/-- The exponent of a float constant that ends `seen`, the characters scanned so far. -/
def exponent (seen : List Char) (cs : List Char) : Lexeme :=
  let float (extra : List Char) : Lexeme :=
    { extra := seen.length + extra.length - 1
      token := some (.floatNumber, String.ofList (seen ++ extra)) }
  match cs with
  | e :: rest =>
    if e == 'e' || e == 'E' then
      let sign := (rest.take 1).filter fun c => c == '+' || c == '-'
      let digits := (rest.drop sign.length).takeWhile Text.isDigit
      if digits.isEmpty then
        { extra := seen.length + sign.length
          token := some (.floatNumber, "0")
          error := some .noExponent }
      else float (e :: sign ++ digits)
    else float []
  | [] => float []

/-- An integer constant, or a float constant if a point follows the digits. -/
def number (c : Char) (cs : List Char) : Lexeme :=
  let digits := c :: cs.takeWhile Text.isDigit
  match cs.drop (digits.length - 1) with
  | '.' :: rest =>
    let fraction := rest.takeWhile Text.isDigit
    if fraction.isEmpty then
      { extra := digits.length, token := some (.floatNumber, "0"), error := some .noFraction }
    else exponent (digits ++ '.' :: fraction) (rest.drop fraction.length)
  | _ =>
    let text := String.ofList digits
    match (Numeral.int 32 digits).2 with
    | none => { extra := digits.length - 1, token := some (.number, text) }
    | some _ =>
      { extra := digits.length - 1
        token := some (.number, "0")
        error := some (.integerTooLarge text) }

/-- What stands between two expressions of a print statement. -/
def separator : List Char → Lexeme
  | 's' :: _ => mark .printSpace 1
  | 'n' :: _ => mark .printNewline 1
  | 't' :: _ => mark .printTab 1
  | _ => mark .printSep

/-- A string constant: it ends with its quote, or with an error at the end of its line. -/
def string (cs : List Char) : Lexeme :=
  let body := cs.takeWhile fun c => c != '"' && c != '\n'
  let token := some (TokenKind.string, String.ofList body)
  match cs.drop body.length with
  | '"' :: _ => { extra := body.length + 1, token }
  | _ => { extra := body.length, token, error := some .unterminatedString }

/-- A character constant between single quotes. The character can be any ASCII one but NUL. -/
def character (cs : List Char) : Lexeme :=
  match cs with
  | [] => { extra := 0, token := some (.char, ""), error := some .characterNotAscii }
  | c :: rest =>
    if c.toNat > 127 || c.toNat == 0 then
      { extra := 1, token := some (.char, ""), error := some .characterNotAscii }
    else if rest.head? == some '\'' then
      { extra := 2, token := some (.char, String.singleton c) }
    else { extra := 1, token := some (.char, ""), error := some .unterminatedCharacter }

/-- A character constant given by one to three octal digits. -/
def octal (cs : List Char) : Lexeme :=
  let digits := (cs.take 3).takeWhile fun c => '0' ≤ c && c ≤ '7'
  let value := digits.foldl (fun n c => 8 * n + (c.toNat - '0'.toNat)) 0
  if digits.isEmpty then
    { extra := 0, token := some (.char, "\x00"), error := some .noOctalDigits }
  else if value > 127 then
    { extra := digits.length, token := some (.char, "\x00"), error := some (.octalTooLarge value) }
  else { extra := digits.length, token := some (.char, String.singleton (Char.ofNat value)) }

/-- A mark of two characters if `next` follows, and `single` otherwise. -/
def twoOr (next : Char) (double : TokenKind) (single : Lexeme) (cs : List Char) : Lexeme :=
  if cs.head? == some next then mark double 1 else single

/-- The first lexeme of the source `c :: cs`. -/
def first (c : Char) (cs : List Char) : Lexeme :=
  if isLayout c then { extra := (cs.takeWhile isLayout).length }
  else if c == '#' then comment cs
  else if startsWord c then word c cs
  else if Text.isDigit c then number c cs
  else
    match c with
    | '(' => mark .lparen
    | ')' => mark .rparen
    | '\x7b' => mark .lbrace
    | '\x7d' => mark .rbrace
    | '[' => mark .lbracket
    | ']' => mark .rbracket
    | ';' => mark .semi
    | ',' => mark .comma
    | '+' => mark .plus
    | '*' => mark .star
    | '/' => mark .slash
    | '-' => twoOr '>' .arrow (mark .minus) cs
    | '!' => twoOr '=' .neq (mark .not) cs
    | '<' => twoOr '=' .lte (mark .lt) cs
    | '>' => twoOr '=' .gte (mark .gt) cs
    | ':' => twoOr '=' .define (unexpected c) cs
    | '=' => twoOr '=' .eqEq (unexpected c) cs
    | '&' => twoOr '&' .andAnd (unexpected c) cs
    | '|' => twoOr '|' .orOr (unexpected c) cs
    | '\\' => separator cs
    | '"' => string cs
    | '\'' => character cs
    | '%' => octal cs
    | c => unexpected c

end Lexeme

/-- A place between two characters. -/
structure Cursor where
  line : Nat := 1
  column : Nat := 1
deriving DecidableEq, Repr

/-- The place after the character `c`. -/
def Cursor.next (p : Cursor) (c : Char) : Cursor :=
  if c = '\n' then ⟨p.line + 1, 1⟩ else ⟨p.line, p.column + 1⟩

/-- The place after a text. -/
def Cursor.after (p : Cursor) (cs : List Char) : Cursor :=
  cs.foldl Cursor.next p

/-- The stretch of `len` characters from here. -/
def Cursor.place (p : Cursor) (file : Int) (len : Nat) : Place :=
  { file, line := p.line, column := p.column, len }

/-- The tokens of a source and what was wrong with it, each with its place. -/
structure Scan where
  tokens : List Token
  errors : List (Place × ScanError)

/-- The tokens of a source that starts at `p`, with the end of input as the last one. -/
def Scan.from (file : Int) (p : Cursor) : List Char → Scan
  | [] => { tokens := [{ kind := .eof, place := p.place file 0 }], errors := [] }
  | c :: cs =>
    let x := Lexeme.first c cs
    let place := p.place file (x.extra + 1)
    let rest := Scan.from file (p.after (c :: cs.take x.extra)) (cs.drop x.extra)
    let tokens := match x.token with
      | some (kind, value) => { kind, value, place } :: rest.tokens
      | none => rest.tokens
    let errors := match x.error with
      | some e => (place, e) :: rest.errors
      | none => rest.errors
    { tokens, errors }
termination_by cs => cs.length
decreasing_by simp only [List.length_drop, List.length_cons]; omega

/-- The tokens of a source file. -/
def scan (cs : List Char) (file : Int := 0) : Scan :=
  Scan.from file {} cs

end SubrLang
