import SubrLang.Diagnostic
import SubrLang.Number.Numeral
import SubrLang.Tree

/-!
# Reading programs

A recursive descent over the tokens. An error is reported where it is met and ends the statement or
subroutine that is being read; reading then goes on behind the next semicolon, or at the next brace, so
that one source gives all its errors and always a tree.

The functions that read recursive parts take a bound on the depth of recursion. A reader that runs out of
depth stops all of the reading; this is not an error of the source, and reading does not go on after it.
`Program.parse` starts with a bound that no token list reaches: at most nine nested calls are made before a
token is taken.
-/

namespace SubrLang

/-- What can be wrong with a sequence of tokens. -/
inductive SyntaxError where
  /-- Something particular has to stand here. -/
  | expected (what : String)
  /-- Something of a class has to stand here and another token does. -/
  | expectedFound (what : String) (found : Token)
  | comparisonChain
  | notInvocation
  | badTarget
  | lambdasDisabled
  | afterMain (found : Token)
deriving DecidableEq, Repr

def SyntaxError.message : SyntaxError → String
  | .expected what => s!"expected {what}"
  | .expectedFound what t => s!"expected {what}, found {t.describe}"
  | .comparisonChain => "comparison operators do not chain"
  | .notInvocation => "'call' must be followed by a subroutine invocation"
  | .badTarget => "invalid target for assignment"
  | .lambdasDisabled => "anonymous subroutines are disabled (-Fno-lambdas)"
  | .afterMain t => s!"unexpected {t.describe} after main block"

/-- The tokens that are left to read, and the report so far. -/
structure ParseState where
  tokens : List Token
  report : Report
  /-- Whether subroutines without a name are allowed. -/
  lambdas : Bool

/-- Why a reader gives up. -/
inductive ParseStop where
  /-- An error was reported. -/
  | reported
  /-- The bound on the depth of recursion is used up. -/
  | tooDeep
deriving DecidableEq, Repr

/-- A reader of a part of a program. -/
abbrev Parse := EStateM ParseStop ParseState

namespace Parse

/-- The list of tokens without its first one. The last token is never taken. -/
def rest : List Token → List Token
  | _ :: t :: ts => t :: ts
  | ts => ts

/-- The token to be read next; after an empty list that is the end of input. -/
def current : Parse Token := do
  return (← get).tokens.headD { kind := .eof }

/-- The kind of the token to be read next. -/
def peek : Parse TokenKind := do
  return (← current).kind

/-- Takes a token. -/
def advance : Parse Unit :=
  modify fun s => { s with tokens := rest s.tokens }

/-- Takes a token of the given kind, if it comes next. -/
def accept (k : TokenKind) : Parse Bool := do
  if (← peek) = k then
    advance
    return true
  else return false

/-- Adds an error to the report. -/
def report (p : Place) (e : SyntaxError) : Parse Unit :=
  modify fun s => { s with report := s.report.error p e.message }

/-- Reports an error and gives up. -/
def fail {α : Type} (p : Place) (e : SyntaxError) : Parse α := do
  report p e
  throw .reported

/-- Takes a token of the given kind, which has to come next. -/
def expect (k : TokenKind) (what : String) : Parse Token := do
  let t ← current
  if t.kind = k then
    advance
    return t
  else fail t.place (.expected what)

/-- Tokens from behind the next semicolon, or from the next brace. -/
def skipStatement : List Token → List Token
  | [] => []
  | [t] => [t]
  | t :: u :: ts =>
    if t.kind = .eof ∨ t.kind = .rbrace ∨ t.kind = .lbrace then t :: u :: ts
    else if t.kind = .semi then u :: ts
    else skipStatement (u :: ts)

/-- Tokens from behind the brace that closes the block starting here, where `depth` blocks are open. -/
def skipBlock (depth : Int) : List Token → List Token
  | [] => []
  | [t] => [t]
  | t :: u :: ts =>
    match t.kind with
    | .eof => t :: u :: ts
    | .lbrace => skipBlock (depth + 1) (u :: ts)
    | .rbrace => if depth ≤ 1 then u :: ts else skipBlock (depth - 1) (u :: ts)
    | _ => skipBlock depth (u :: ts)

/-- Reads a part and, if an error is reported there, goes on behind the statement. -/
def guarded {α : Type} (p : Parse α) : Parse (Option α) := fun s =>
  match p s with
  | .ok a s => .ok (some a) s
  | .error .reported s => .ok none { s with tokens := skipStatement s.tokens }
  | .error .tooDeep s => .error .tooDeep s

/-! ## Types -/

mutual

/-- Reads a type of values. -/
def type : (depth : Nat) → Parse Ty
  | 0 => throw .tooDeep
  | n + 1 => do
    let t ← current
    match t.kind with
    | .kwBool => advance; return .boolean
    | .kwChar => advance; return .character
    | .kwInt => advance; return .integer
    | .kwFloat => advance; return .float
    | .kwString => advance; return .string
    | .lbracket =>
      advance
      let elem ← type n
      let _ ← expect .rbracket "']' after array element type"
      return .array elem
    | .lt =>
      advance
      let params ← if (← peek) = .arrow then pure [] else types n
      let _ ← expect .arrow "'->' in function type"
      let result ← returnType n
      let _ ← expect .gt "'>' to close function type"
      return .func params result
    | _ => fail t.place (.expectedFound "a type" t)

/-- Reads one or more types with commas between them. -/
def types : (depth : Nat) → Parse (List Ty)
  | 0 => throw .tooDeep
  | n + 1 => do
    let t ← type n
    if ← accept .comma then return t :: (← types n) else return [t]

/-- Reads the type of what a subroutine returns. -/
def returnType : (depth : Nat) → Parse Ty
  | 0 => throw .tooDeep
  | n + 1 => do
    if ← accept .kwVoid then return .void else type n

end

/-- Reads one or more parameters with commas between them. -/
def paramList : (depth : Nat) → Parse (List Param)
  | 0 => throw .tooDeep
  | n + 1 => do
    let t ← current
    let declared ← returnType n
    let name ← expect .ident "parameter name"
    let p : Param := { place := t.place, name := name.value, declared }
    if ← accept .comma then return p :: (← paramList n) else return [p]

/-- Reads a parameter list. -/
def params (depth : Nat) : Parse (List Param) := do
  let _ ← expect .lparen "'(' before parameter list"
  let ps ← if (← peek) = .rparen then pure [] else paramList depth
  let _ ← expect .rparen "')' after parameter list"
  return ps

/-! ## Expressions and statements -/

/-- How tightly a binary operator binds. -/
def level? : TokenKind → Option Nat
  | .star | .slash => some 5
  | .plus | .minus => some 4
  | .lt | .gt | .lte | .gte | .eqEq | .neq => some 3
  | .andAnd => some 2
  | .orOr => some 1
  | _ => none

/-- The level of comparisons, which do not follow one another. -/
def comparisonLevel : Nat := 3

/-- Whether an operator stands in front of its operand. -/
def isUnary : TokenKind → Bool
  | .not | .minus | .plus | .kwLength => true
  | _ => false

def isInvocation : Expr → Bool
  | .call .. => true
  | _ => false

/-- Whether an expression can be assigned to. -/
def isTarget : Expr → Bool
  | .ident .. | .index .. => true
  | _ => false

/-- The separator that a token writes. -/
def separator? : TokenKind → Option Separator
  | .printSpace => some .space
  | .printNewline => some .newline
  | .printTab => some .tab
  | _ => none

mutual

/-- Reads an expression. -/
def expr : (depth : Nat) → Parse Expr
  | 0 => throw .tooDeep
  | n + 1 => binary n 1

/-- Reads operands and the operators between them that bind at least as tightly as `least`. -/
def binary : (depth : Nat) → (least : Nat) → Parse Expr
  | 0, _ => throw .tooDeep
  | n + 1, least => do
    let left ← unary n
    binaryTail n least left

/-- Reads on after the left operand of an operator. -/
def binaryTail : (depth : Nat) → (least : Nat) → Expr → Parse Expr
  | 0, _, _ => throw .tooDeep
  | n + 1, least, left => do
    let t ← current
    match level? t.kind with
    | none => return left
    | some level =>
      if level < least then return left
      else do
        advance
        let right ← binary n (level + 1)
        let next ← current
        if level = comparisonLevel ∧ level? next.kind = some comparisonLevel then
          fail next.place .comparisonChain
        else
          binaryTail n least (.operator { place := t.place } t.kind [left, right] none)

/-- Reads an operand with the operators in front of it. -/
def unary : (depth : Nat) → Parse Expr
  | 0 => throw .tooDeep
  | n + 1 => do
    let t ← current
    if isUnary t.kind then
      advance
      let operand ← unary n
      return .operator { place := t.place } t.kind [operand] none
    else
      let e ← primary n
      postfixTail n e

/-- Reads the argument lists and indices behind an operand. -/
def postfixTail : (depth : Nat) → Expr → Parse Expr
  | 0, _ => throw .tooDeep
  | n + 1, e => do
    let t ← current
    match t.kind with
    | .lparen =>
      advance
      let args ← if (← peek) = .rparen then pure [] else exprs n
      let _ ← expect .rparen "')' after function arguments"
      postfixTail n (.call { place := t.place } e args)
    | .lbracket =>
      advance
      let index ← expr n
      let _ ← expect .rbracket "']' after array index"
      postfixTail n (.index { place := t.place } e index)
    | _ => return e

/-- Reads one or more expressions with commas between them. -/
def exprs : (depth : Nat) → Parse (List Expr)
  | 0 => throw .tooDeep
  | n + 1 => do
    let e ← expr n
    if ← accept .comma then return e :: (← exprs n) else return [e]

/-- Reads an operand without what stands in front of it or behind it. -/
def primary : (depth : Nat) → Parse Expr
  | 0 => throw .tooDeep
  | n + 1 => do
    let t ← current
    let note : Note := { place := t.place }
    match t.kind with
    | .number => advance; return .number note (Int32.ofInt (Numeral.int 32 t.value.toList).1)
    | .floatNumber => advance; return .floatNumber note (Numeral.float t.value.toList)
    | .char => advance; return .char note (t.value.toUTF8.data.getD 0 0)
    | .string => advance; return .string note t.value
    | .kwTrue => advance; return .bool note true
    | .kwFalse => advance; return .bool note false
    | .ident => advance; return .ident note t.value none
    | .lparen =>
      advance
      let e ← expr n
      let _ ← expect .rparen "')' after expression"
      return e
    | .lt =>
      advance
      let target ← type n
      let _ ← expect .gt "'>' after cast type"
      let _ ← expect .lparen "'(' after cast type"
      let e ← expr n
      let _ ← expect .rparen "')' after cast operand"
      return .operator note .cast [.ofType t.place target, e] none
    | .lbracket =>
      advance
      let elems ← exprs n
      let _ ← expect .rbracket "']' after array elements"
      return .arrayLiteral note elems
    | .kwNew =>
      advance
      let _ ← expect .lbracket "'[' after 'new'"
      let elem ← type n
      let _ ← expect .rbracket "']' after array element type"
      let _ ← expect .lparen "'(' before array length"
      let length ← expr n
      let _ ← expect .rparen "')' after array length"
      return .arrayAlloc note elem length
    | .kwSubr =>
      advance
      if !(← get).lambdas then report t.place .lambdasDisabled
      let result ← returnType n
      let ps ← params n
      let body ← block n
      return .lambda note { name := "", params := ps, result } body
    | _ => fail t.place (.expectedFound "an expression" t)

/-- Reads a block with its braces. -/
def block : (depth : Nat) → Parse (List Stmt)
  | 0 => throw .tooDeep
  | n + 1 => do
    let _ ← expect .lbrace "'\x7b' to start a block"
    let body ← stmts n
    let _ ← expect .rbrace "'\x7d' after block"
    return body

/-- Reads the statements of a block. -/
def stmts : (depth : Nat) → Parse (List Stmt)
  | 0 => throw .tooDeep
  | n + 1 => do
    let k ← peek
    if k = .rbrace ∨ k = .eof then return []
    else do
      let s ← guarded (stmt n)
      let ss ← stmts n
      return s.toList ++ ss

/-- Reads a statement. -/
def stmt : (depth : Nat) → Parse Stmt
  | 0 => throw .tooDeep
  | n + 1 => do
    let t ← current
    let note : Note := { place := t.place }
    match t.kind with
    | .kwConst | .kwVar =>
      advance
      let name ← expect .ident "identifier in declaration"
      let _ ← expect .define "':=' in declaration"
      let init ← expr n
      let _ ← expect .semi "';' after declaration"
      return .varDecl { place := name.place } name.value (t.kind = .kwConst) init none
    | .kwPrint =>
      advance
      return .print note (← printItems n false)
    | .kwCall =>
      advance
      let e ← expr n
      if !isInvocation e then fail e.note.place .notInvocation
      let _ ← expect .semi "';' after call statement"
      return .call note e
    | .kwReturn =>
      advance
      if ← accept .semi then return .leave note
      else do
        let e ← expr n
        let _ ← expect .semi "';' after return"
        return .give note e
    | .kwIf => conditional n
    | .kwWhile =>
      advance
      let cond ← expr n
      let body ← block n
      return .while note cond body
    | .lbrace => return .block note (← block n)
    | _ =>
      let target ← expr n
      if !isTarget target then fail target.note.place .badTarget
      let d ← expect .define "':=' in assignment"
      let value ← expr n
      let _ ← expect .semi "';' after assignment"
      return .assign { place := d.place } target value

/-- Reads a conditional statement with its alternatives. -/
def conditional : (depth : Nat) → Parse Stmt
  | 0 => throw .tooDeep
  | n + 1 => do
    let t ← expect .kwIf "'if'"
    let note : Note := { place := t.place }
    let cond ← expr n
    let body ← block n
    if ← accept .kwElse then
      let e ← current
      if e.kind = .kwIf then return .ifElse note cond body (← conditional n)
      else return .ifElse note cond body (.block { place := e.place } (← block n))
    else return .ifThen note cond body

/-- Reads what a print statement writes, up to its semicolon. After a value a separator has to come;
`afterValue` says whether one has just been read. -/
def printItems : (depth : Nat) → (afterValue : Bool) → Parse (List PrintItem)
  | 0, _ => throw .tooDeep
  | n + 1, afterValue => do
    let t ← current
    if t.kind = .semi then
      advance
      return []
    else if t.kind = .printSep then
      advance
      printItems n false
    else match separator? t.kind with
      | some k =>
        advance
        return .separator t.place k :: (← printItems n false)
      | none =>
        if afterValue then fail t.place (.expectedFound "a print separator or ';'" t)
        else do
          let e ← expr n
          return .value e :: (← printItems n true)

end

/-- Reads a named subroutine. -/
def func (depth : Nat) : Parse Func := do
  let t ← expect .kwSubr "'subr'"
  let result ← returnType depth
  let name ← expect .ident "subroutine name"
  let ps ← params depth
  let body ← block depth
  return { note := { place := t.place }, head := { name := name.value, params := ps, result }, body }

/-- Reads a named subroutine. The body of one with a faulty head is passed over. -/
def guardedFunc (depth : Nat) : Parse (Option Func) := do
  let f ← guarded (func depth)
  if f.isNone ∧ (← peek) = .lbrace then
    modify fun s => { s with tokens := skipBlock 0 s.tokens }
  return f

/-- Reads the subroutines in front of the main block, fewer than `bound`. -/
def funcs (depth : Nat) : (bound : Nat) → Parse (List Func)
  | 0 => throw .tooDeep
  | n + 1 => do
    if (← peek) = .kwSubr then
      let f ← guardedFunc depth
      let fs ← funcs depth n
      return f.toList ++ fs
    else return []

/-- Reads a program. -/
def program (depth : Nat) : Parse Program := do
  let start ← current
  let fs ← funcs depth depth
  let main ←
    if ← accept .kwMain then guarded (block depth)
    else do
      let t ← current
      report t.place (.expectedFound "'main' block" t)
      pure none
  let t ← current
  if t.kind ≠ .eof then report t.place (.afterMain t)
  return { place := start.place, funcs := fs, main := main.getD [] }

end Parse

/-- A depth of recursion that reading a token list cannot reach. -/
def parseDepth (tokens : List Token) : Nat :=
  10 * tokens.length + 10

/-- Reads a program from a token list that ends with the end of input. Errors are added to the report;
the tree is what could be read. -/
def Program.parse (tokens : List Token) (report : Report) (lambdas : Bool := true) : Program × Report :=
  match Parse.program (parseDepth tokens) { tokens, report, lambdas } with
  | .ok p s => (p, s.report)
  | .error _ s => ({ place := {}, funcs := [], main := [] }, s.report)

end SubrLang
