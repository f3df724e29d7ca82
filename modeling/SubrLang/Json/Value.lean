import SubrLang.Text.Quoted

/-!
# JSON values

Values with the members of objects in order, and how they are written: every member and element on a line
of its own, two blanks deeper than what is around it.

Texts are bytes, since what a program prints need not be well formed. For a byte that belongs to no character
U+FFFD is written. The signs `<`, `>` and `&` and the two line separators are written with their codes.
-/

namespace SubrLang

inductive JsonValue where
  | null
  | bool (b : Bool)
  /-- A number as it is written. -/
  | number (literal : String)
  | text (bytes : List UInt8)
  | array (elements : List JsonValue)
  | object (members : List (List UInt8 × JsonValue))

namespace JsonValue

def ofInt (n : Int) : JsonValue := .number s!"{n}"

def ofString (s : String) : JsonValue := .text (Text.Utf8.encode s)

/-- How a character is written inside a text. -/
def escape (c : Char) : List Char :=
  let n := c.toNat
  if c = '"' || c = '\\' then ['\\', c]
  else if n = 0x08 then ['\\', 'b']
  else if n = 0x09 then ['\\', 't']
  else if n = 0x0a then ['\\', 'n']
  else if n = 0x0c then ['\\', 'f']
  else if n = 0x0d then ['\\', 'r']
  else if n < 0x20 || c = '<' || c = '>' || c = '&' || n = 0x2028 || n = 0x2029 then
    '\\' :: 'u' :: Text.hex 4 n
  else [c]

/-- How a piece of a text is written. -/
def escapePiece : Text.Piece → List Char
  | .char c => escape c
  | .stray _ => ['\ufffd']

/-- A text between its quotes. -/
def quoted (bs : List UInt8) : String :=
  String.ofList ('"' :: (Text.Utf8.pieces bs).flatMap escapePiece ++ ['"'])

/-- Items between brackets, each on a line of its own. Without any the brackets stand together. -/
def bracketed (opening closing indent : String) (items : List String) : String :=
  if items.isEmpty then opening ++ closing
  else
    let lines := items.map fun i => s!"\n{indent}  {i}"
    opening ++ ",".intercalate lines ++ s!"\n{indent}" ++ closing

mutual

/-- The text of a value that stands `indent` deep. -/
def writeAt (indent : String) : JsonValue → String
  | null => "null"
  | bool b => if b then "true" else "false"
  | number literal => literal
  | text bs => quoted bs
  | array es => bracketed "[" "]" indent (writeElements (indent ++ "  ") es)
  | object ms => bracketed "\x7b" "\x7d" indent (writeMembers (indent ++ "  ") ms)

def writeElements (indent : String) : List JsonValue → List String
  | [] => []
  | v :: vs => writeAt indent v :: writeElements indent vs

def writeMembers (indent : String) : List (List UInt8 × JsonValue) → List String
  | [] => []
  | (k, v) :: ms => (quoted k ++ ": " ++ writeAt indent v) :: writeMembers indent ms

end

/-- The text of a value. -/
def write (v : JsonValue) : String := writeAt "" v

end JsonValue

end SubrLang
