/-!
# Tokens

A token is a kind, the text it carries (identifiers and constants) and its place in a source file.
The name of a kind is how messages, listings and operator tables spell it.
-/

namespace SubrLang

/-- A stretch of a source file: lines and columns count from one, `len` counts characters. -/
structure Place where
  /-- The number of the file, from zero. -/
  file : Int := 0
  line : Int := 0
  column : Int := 0
  len : Int := 0
deriving DecidableEq, Repr, Inhabited

/-- The kinds of tokens. -/
inductive TokenKind where
  | eof | ident | number | floatNumber | char | string
  -- keywords
  | kwMain | kwSubr | kwConst | kwVar | kwPrint | kwCall | kwReturn | kwIf | kwElse | kwWhile
  | kwNew | kwLength | kwTrue | kwFalse | kwBool | kwChar | kwInt | kwFloat | kwString | kwVoid
  -- punctuation
  | lparen | rparen | lbrace | rbrace | lbracket | rbracket | semi | comma | define | arrow
  | printSep | printSpace | printNewline | printTab
  -- operators
  | plus | minus | star | slash | eqEq | neq | lt | gt | lte | gte | andAnd | orOr | not
  /-- A conversion. No source text scans to it: it is the operator of explicit and inserted casts. -/
  | cast
  /-- A kind that the language does not have. -/
  | other (code : Int)
deriving DecidableEq, Repr, Inhabited

namespace TokenKind

/-- The keywords with their spelling. -/
def keywords : List (String × TokenKind) :=
  [("main", kwMain), ("subr", kwSubr), ("const", kwConst), ("var", kwVar), ("print", kwPrint),
   ("call", kwCall), ("return", kwReturn), ("if", kwIf), ("else", kwElse), ("while", kwWhile),
   ("new", kwNew), ("length", kwLength), ("true", kwTrue), ("false", kwFalse), ("bool", kwBool),
   ("char", kwChar), ("int", kwInt), ("float", kwFloat), ("string", kwString), ("void", kwVoid)]

/-- The other kinds with their spelling. -/
def marks : List (String × TokenKind) :=
  [("(", lparen), (")", rparen), ("\x7b", lbrace), ("\x7d", rbrace), ("[", lbracket),
   ("]", rbracket), (";", semi), (",", comma), (":=", define), ("->", arrow),
   ("\\", printSep), ("\\s", printSpace), ("\\n", printNewline), ("\\t", printTab),
   ("+", plus), ("-", minus), ("*", star), ("/", slash), ("==", eqEq), ("!=", neq), ("<", lt),
   (">", gt), ("<=", lte), (">=", gte), ("&&", andAnd), ("||", orOr), ("!", not), ("<>()", cast),
   ("end of input", eof), ("identifier", ident), ("integer constant", number),
   ("float constant", floatNumber), ("character constant", char), ("string constant", string)]

/-- How a kind is spelled. -/
def name (k : TokenKind) : String :=
  match (keywords ++ marks).find? (·.2 == k) with
  | some (s, _) => s
  | none => "?"

/-- The kind with a given spelling. -/
def ofName? (s : String) : Option TokenKind :=
  (keywords ++ marks).lookup s

/-- The keyword that a word is, if it is one. -/
def ofWord? (s : String) : Option TokenKind :=
  keywords.lookup s

end TokenKind

/-- A token of a source file. -/
structure Token where
  kind : TokenKind
  /-- The text of an identifier or a constant, empty for the other kinds. -/
  value : String := ""
  place : Place := {}
deriving DecidableEq, Repr, Inhabited

/-- How a message names a token that it did not expect. -/
def Token.describe (t : Token) : String :=
  match t.kind with
  | .ident => s!"identifier '{t.value}'"
  | .eof | .number | .floatNumber | .string | .char => t.kind.name
  | k => s!"'{k.name}'"

end SubrLang
