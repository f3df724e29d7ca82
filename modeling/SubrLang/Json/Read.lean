import SubrLang.Json.Value
import SubrLang.Number.Numeral
import SubrLang.Text.Blank

/-!
# Reading JSON

A text is read from left to right, and the first character that cannot stand where it stands is an error. So
is an end where more has to follow, and an escape that does not exist.

Texts in the result are well formed: a stray byte and half of a surrogate pair are read as U+FFFD.
-/

namespace SubrLang

inductive JsonError where
  /-- The text ends where more has to follow. -/
  | ended
  /-- A piece of the text that cannot stand there, and where it stands. -/
  | unexpected (p : Text.Piece) (place : String)
  /-- An escape that does not exist, with its backslash. -/
  | badEscape (bytes : List UInt8)
  /-- Arrays and objects stand too deep in each other. -/
  | tooDeep
deriving DecidableEq, Repr

namespace JsonError

/-- A piece of a text between single quotes. -/
def quotePiece : Text.Piece → String
  | .char c => Text.quoteChar c
  | .stray b => String.ofList ("'\\x".toList ++ Text.hex 2 b.toNat ++ ['\''])

/-- Whether a piece can be shown between backticks. -/
def isPlain : Text.Piece → Bool
  | .char c => c.toNat != 0x60 && c.toNat != 0xfffd && !Text.isBlank c && Text.isPrintable c
  | .stray _ => false

/-- Bytes between backticks, or quoted if that would not show them well. -/
def showBytes (bs : List UInt8) : String :=
  if (Text.Utf8.pieces bs).all isPlain then s!"`{String.ofList (Text.Utf8.decode bs)}`"
  else Text.quoteBytes bs

def message : JsonError → String
  | ended => "unexpected end of JSON input"
  | unexpected p place => s!"invalid character {quotePiece p} {place}"
  | badEscape bs => s!"invalid escape sequence {showBytes bs} in string"
  | tooDeep => "exceeded max depth"

end JsonError

namespace JsonValue

/-- What is read, and the bytes that follow it. -/
abbrev Reading (α : Type) := Except JsonError (α × List UInt8)

/-- The byte of an ASCII character. -/
def code (c : Char) : UInt8 := c.toNat.toUInt8

def isBlank (b : UInt8) : Bool := b = 0x20 || b = 0x09 || b = 0x0a || b = 0x0d

def isDigit (b : UInt8) : Bool := code '0' ≤ b && b ≤ code '9'

def isHexDigit (b : UInt8) : Bool := (Numeral.hexDigit? (Char.ofNat b.toNat)).isSome

def skipBlanks (bs : List UInt8) : List UInt8 := bs.dropWhile isBlank

/-- The error at a place in front of bytes that cannot stand there. -/
def refuse {α : Type} (place : String) (bs : List UInt8) : Except JsonError α :=
  match Text.Utf8.first? bs with
  | none => .error .ended
  | some p => .error (.unexpected p place)

/-! ## Literals and numbers -/

/-- The rest of a literal, of which `expected` is still to come. -/
def literal (name : String) (v : JsonValue) : List Char → List UInt8 → Reading JsonValue
  | [], bs => .ok (v, bs)
  | c :: cs, b :: bs =>
    if b = code c then literal name v cs bs
    else refuse s!"in literal {name} (expecting {Text.quoteChar c})" (b :: bs)
  | _ :: _, [] => .error .ended

def digits (bs : List UInt8) : List UInt8 × List UInt8 := bs.span isDigit

/-- One or more digits. -/
def someDigits (bs : List UInt8) : Reading (List UInt8) :=
  match digits bs with
  | ([], rest) => refuse "in numeric literal" rest
  | found => .ok found

/-- The digits before the point: a zero, or digits that do not start with one. -/
def whole : List UInt8 → Reading (List UInt8)
  | b :: bs => if b = code '0' then .ok ([b], bs) else someDigits (b :: bs)
  | [] => .error .ended

/-- The point and the digits after it, if there are any. -/
def fraction : List UInt8 → Reading (List UInt8)
  | b :: bs =>
    if b = code '.' then (someDigits bs).map fun (ds, rest) => (b :: ds, rest)
    else .ok ([], b :: bs)
  | [] => .ok ([], [])

/-- The exponent, if there is one. -/
def exponent : List UInt8 → Reading (List UInt8)
  | b :: bs =>
    if b = code 'e' || b = code 'E' then
      let (sign, bs) := match bs with
        | s :: cs => if s = code '+' || s = code '-' then ([s], cs) else ([], s :: cs)
        | [] => ([], [])
      (someDigits bs).map fun (ds, rest) => (b :: sign ++ ds, rest)
    else .ok ([], b :: bs)
  | [] => .ok ([], [])

/-- A number without its sign. -/
def magnitude (sign bs : List UInt8) : Except JsonError (JsonValue × List UInt8) := do
  let (a, bs) ← whole bs
  let (b, bs) ← fraction bs
  let (c, bs) ← exponent bs
  return (.number (String.ofList (Text.Utf8.decode (sign ++ a ++ b ++ c))), bs)

/-! ## Texts -/

/-- The letters and signs that make an escape with a backslash in front. -/
def isEscape (b : UInt8) : Bool := ("bfnrt\\/\"".toList.map code).contains b

/-- The bytes up to the quote that ends a text, and what follows it. -/
def textBody : List UInt8 → Reading (List UInt8)
  | [] => .error .ended
  | b :: bs =>
    if b = code '"' then .ok ([], bs)
    else if b < 0x20 then refuse "in string" (b :: bs)
    else if b = code '\\' then
      match bs with
      | [] => .error .ended
      | c :: cs =>
        if c = code 'u' then
          match cs with
          | d :: e :: f :: g :: rest =>
            if [d, e, f, g].all isHexDigit then
              (textBody rest).map fun (t, rest) => (b :: c :: d :: e :: f :: g :: t, rest)
            else .error (.badEscape [b, c, d, e, f, g])
          | few => .error (if few.all isHexDigit then .ended else .badEscape (b :: c :: few))
        else if isEscape c then (textBody cs).map fun (t, rest) => (b :: c :: t, rest)
        else .error (.badEscape [b, c])
    else (textBody bs).map fun (t, rest) => (b :: t, rest)

/-- The number that hexadecimal digits denote. -/
def hexValue (cs : List Char) : Nat :=
  cs.foldl (fun n c => 16 * n + (Numeral.hexDigit? c).getD 0) 0

/-- The character that a letter after a backslash stands for. -/
def escapedChar : Char → Char
  | 'b' => '\x08'
  | 'f' => '\x0c'
  | 'n' => '\n'
  | 'r' => '\r'
  | 't' => '\t'
  | c => c

/-- The code units of a text with escapes: characters, and numbers for those given by their code. -/
def units : List Char → List (Char ⊕ Nat)
  | '\\' :: 'u' :: a :: b :: c :: d :: cs => .inr (hexValue [a, b, c, d]) :: units cs
  | '\\' :: c :: cs => .inl (escapedChar c) :: units cs
  | c :: cs => .inl c :: units cs
  | [] => []

def isHigh (n : Nat) : Bool := 0xd800 ≤ n && n < 0xdc00

def isLow (n : Nat) : Bool := 0xdc00 ≤ n && n < 0xe000

/-- The characters of code units: two halves of a surrogate pair make one. -/
def joinUnits : List (Char ⊕ Nat) → List Char
  | [] => []
  | .inl c :: us => c :: joinUnits us
  | .inr n :: us =>
    if isHigh n then
      match us with
      | .inr k :: vs =>
        if isLow k then Char.ofNat (0x10000 + (n - 0xd800) * 0x400 + (k - 0xdc00)) :: joinUnits vs
        else '�' :: joinUnits (.inr k :: vs)
      | us => '�' :: joinUnits us
    else if isLow n then '�' :: joinUnits us
    else Char.ofNat n :: joinUnits us

/-- What the bytes between two quotes denote. -/
def unescape (bs : List UInt8) : List UInt8 :=
  Text.Utf8.encode (String.ofList (joinUnits (units (Text.Utf8.decode bs))))

/-- A text behind its first quote. -/
def quotedText (bs : List UInt8) : Reading (List UInt8) :=
  (textBody bs).map fun (t, rest) => (unescape t, rest)

/-! ## Values -/

/-- How deep arrays and objects may stand in each other. -/
def maxDepth : Nat := 10000

mutual

/-- A value that stands in `depth` others; `fuel` bounds the number of nested readings. -/
def value : (fuel depth : Nat) → List UInt8 → Reading JsonValue
  | 0, _, _ => .error .ended
  | fuel + 1, depth, bs =>
    match skipBlanks bs with
    | [] => .error .ended
    | b :: bs =>
      if b = 0x7b || b = code '[' then
        if maxDepth ≤ depth then .error .tooDeep
        else if b = code '[' then
          match skipBlanks bs with
          | c :: rest =>
            if c = code ']' then .ok (.array [], rest)
            else (elements fuel (depth + 1) bs).map fun (es, rest) => (.array es, rest)
          | [] => .error .ended
        else
          match skipBlanks bs with
          | c :: rest =>
            if c = 0x7d then .ok (.object [], rest)
            else (members fuel (depth + 1) bs).map fun (ms, rest) => (.object ms, rest)
          | [] => .error .ended
      else if b = code '"' then (quotedText bs).map fun (t, rest) => (.text t, rest)
      else if b = code '-' then magnitude [b] bs
      else if isDigit b then magnitude [] (b :: bs)
      else if b = code 't' then literal "true" (.bool true) "rue".toList bs
      else if b = code 'f' then literal "false" (.bool false) "alse".toList bs
      else if b = code 'n' then literal "null" .null "ull".toList bs
      else refuse "looking for beginning of value" (b :: bs)

/-- The elements of an array that has some. -/
def elements : (fuel depth : Nat) → List UInt8 → Except JsonError (List JsonValue × List UInt8)
  | 0, _, _ => .error .ended
  | fuel + 1, depth, bs => do
    let (v, bs) ← value fuel depth bs
    match skipBlanks bs with
    | b :: rest =>
      if b = code ',' then (elements fuel depth rest).map fun (vs, rest) => (v :: vs, rest)
      else if b = code ']' then .ok ([v], rest)
      else refuse "after array element" (b :: rest)
    | [] => .error .ended

/-- The members of an object that has some. -/
def members : (fuel depth : Nat) → List UInt8 →
    Except JsonError (List (List UInt8 × JsonValue) × List UInt8)
  | 0, _, _ => .error .ended
  | fuel + 1, depth, bs => do
    let (k, bs) ← match skipBlanks bs with
      | b :: rest =>
        if b = code '"' then quotedText rest
        else refuse "looking for beginning of object key string" (b :: rest)
      | [] => .error .ended
    let bs ← match skipBlanks bs with
      | b :: rest => if b = code ':' then .ok rest else refuse "after object key" (b :: rest)
      | [] => .error .ended
    let (v, bs) ← value fuel depth bs
    match skipBlanks bs with
    | b :: rest =>
      if b = code ',' then (members fuel depth rest).map fun (ms, rest) => ((k, v) :: ms, rest)
      else if b = 0x7d then .ok ([(k, v)], rest)
      else refuse "after object key:value pair" (b :: rest)
    | [] => .error .ended

end

/-- Reads a text that holds one value. -/
def read (bs : List UInt8) : Except JsonError JsonValue := do
  let (v, rest) ← value (2 * bs.length + 2) 0 bs
  match skipBlanks rest with
  | [] => return v
  | rest => refuse "after top-level value" rest

end JsonValue

end SubrLang
