import SubrLang.Number.Binary64

/-!
# Reading numerals

* `Numeral.int bits cs` reads a decimal integer that has to fit in a signed word of `bits` bits. What
  it returns next to an error is what a caller that ignores the error goes on with: the nearest end
  of the range, or zero for a text that is no numeral.
* `Numeral.float cs` reads a float: decimal or hexadecimal with a point and an exponent, `inf`,
  `infinity` or `nan`, where an underscore may separate two digits. It is the nearest word to the
  number written, or an infinity if that is too large.
-/

namespace SubrLang.Numeral

/-- Why a text is not accepted as an integer. -/
inductive IntError where
  | badSyntax
  | outOfRange
deriving DecidableEq, Repr

/-- The value of an ASCII digit. -/
def digit? (c : Char) : Option Nat :=
  if '0' ≤ c ∧ c ≤ '9' then some (c.toNat - '0'.toNat) else none

/-- The value of an ASCII hexadecimal digit. -/
def hexDigit? (c : Char) : Option Nat :=
  if '0' ≤ c ∧ c ≤ '9' then some (c.toNat - '0'.toNat)
  else if 'a' ≤ c ∧ c ≤ 'f' then some (c.toNat - 'a'.toNat + 10)
  else if 'A' ≤ c ∧ c ≤ 'F' then some (c.toNat - 'A'.toNat + 10)
  else none

/-- The value of a sequence of digits read after a number `n`. A value above `limit` is out of range
whatever follows. -/
def natFrom (limit n : Nat) : List Char → Except IntError Nat
  | [] => .ok n
  | c :: cs =>
    match digit? c with
    | none => .error .badSyntax
    | some d => if limit < 10 * n + d then .error .outOfRange else natFrom limit (10 * n + d) cs

/-- The value of a sequence of one or more digits that fits in an unsigned word of `bits` bits. -/
def nat (bits : Nat) : List Char → Except IntError Nat
  | [] => .error .badSyntax
  | cs => natFrom ((1 <<< bits) - 1) 0 cs

/-- A sign and what follows it; without a sign the number is positive. -/
def sign : List Char → Bool × List Char
  | '-' :: cs => (true, cs)
  | '+' :: cs => (false, cs)
  | cs => (false, cs)

/-- The integer denoted by a numeral with an optional sign, as a value of `bits` bits. -/
def int (bits : Nat) (cs : List Char) : Int × Option IntError :=
  let (negative, ds) := sign cs
  let limit : Nat := 1 <<< (bits - 1)
  match nat bits ds with
  | .error .badSyntax => (0, some .badSyntax)
  | .error .outOfRange => (if negative then -limit else limit - 1, some .outOfRange)
  | .ok n =>
    if negative then
      if n ≤ limit then (-n, none) else (-limit, some .outOfRange)
    else
      if n < limit then (n, none) else (limit - 1, some .outOfRange)

/-- What a sign with digits, or one of the names of a special word, denotes. -/
def special? (cs : List Char) : Option Binary64 :=
  let lower := cs.map Char.toLower
  if lower = "nan".toList then some .nan
  else
    let (negative, name) := sign lower
    if name = "inf".toList ∨ name = "infinity".toList then some (.infinity negative) else none

/-- A mantissa: the digits read as a natural number in the given base, the number of digits after the
point, and what follows. -/
structure Mantissa where
  value : Nat
  places : Nat
  seenPoint : Bool
  seenDigit : Bool
  rest : List Char

/-- Reads digits, at most one point, and underscores. -/
def mantissa (base : Nat) (m : Mantissa) : List Char → Mantissa
  | [] => { m with rest := [] }
  | '_' :: cs => mantissa base m cs
  | '.' :: cs =>
    if m.seenPoint then { m with rest := '.' :: cs } else mantissa base { m with seenPoint := true } cs
  | c :: cs =>
    match (if base = 16 then hexDigit? c else digit? c) with
    | some d =>
      mantissa base
        { m with
          value := base * m.value + d
          places := if m.seenPoint then m.places + 1 else m.places
          seenDigit := true } cs
    | none => { m with rest := c :: cs }

/-- The largest exponent that is told apart from larger ones. -/
def exponentCap : Nat := 10000

/-- Exponent digits and underscores up to the end; past the cap further digits change nothing. -/
def exponentFrom (n : Nat) : List Char → Option Nat
  | [] => some n
  | '_' :: cs => exponentFrom n cs
  | c :: cs => do
    let d ← digit? c
    exponentFrom (if n < exponentCap then 10 * n + d else n) cs

/-- The exponent after its mark, which needs a digit first. -/
def exponent? (cs : List Char) : Option Int :=
  let (negative, ds) := sign cs
  match ds with
  | [] => none
  | c :: _ =>
    if (digit? c).isSome then
      (exponentFrom 0 ds).map fun n => if negative then -(n : Int) else n
    else none

/-- Whether every underscore stands between two digits, where a base mark such as `0x` counts as a
digit. `prev` is the kind of the character before: a digit, an underscore or another one. -/
def underscoresFit (hex : Bool) : (prev : Char) → List Char → Bool
  | prev, [] => prev != '_'
  | prev, c :: cs =>
    if (digit? c).isSome || (hex && (hexDigit? c).isSome) then underscoresFit hex '0' cs
    else if c = '_' then prev == '0' && underscoresFit hex '_' cs
    else prev != '_' && underscoresFit hex '!' cs

/-- The check of underscores for a whole numeral without its sign. -/
def underscoresOk : List Char → Bool
  | '0' :: c :: cs =>
    let l := c.toLower
    if l = 'b' ∨ l = 'o' ∨ l = 'x' then underscoresFit (l == 'x') '0' cs
    else underscoresFit false '!' ('0' :: c :: cs)
  | cs => underscoresFit false '!' cs

/-- The word nearest to `± value · 10^k`. Numbers far outside the range need no exact arithmetic. -/
def ofDecimal (negative : Bool) (value : Nat) (k : Int) : Binary64 :=
  let leading : Int := (Nat.toDigits 10 value).length + k
  if value = 0 then .ofRatio negative 0 1
  else if 330 < leading then .infinity negative
  else if leading < -350 then .ofRatio negative 0 1
  else if 0 ≤ k then .ofRatio negative (value * Nat.pow 10 k.toNat) 1
  else .ofRatio negative value (Nat.pow 10 (-k).toNat)

/-- The word nearest to `± value · 2^k`. -/
def ofBinary (negative : Bool) (value : Nat) (k : Int) : Binary64 :=
  if 0 ≤ k then .ofRatio negative (value <<< k.toNat) 1
  else .ofRatio negative value (1 <<< (-k).toNat)

/-- The number that a numeral without its sign denotes. -/
def magnitude? (negative : Bool) (cs : List Char) : Option Binary64 :=
  let start : Mantissa := ⟨0, 0, false, false, []⟩
  let hexadecimal : Option (List Char) :=
    match cs with
    | '0' :: x :: c :: cs => if x.toLower = 'x' then some (c :: cs) else none
    | _ => none
  if cs.contains '_' && !underscoresOk cs then none
  else
    match hexadecimal with
    | some ds =>
      let m := mantissa 16 start ds
      match m.rest with
      | p :: es =>
        if m.seenDigit ∧ p.toLower = 'p' then
          (exponent? es).map fun e => ofBinary negative m.value (e - 4 * m.places)
        else none
      | [] => none
    | none =>
      let m := mantissa 10 start cs
      if !m.seenDigit then none
      else
        match m.rest with
        | [] => some (ofDecimal negative m.value (-m.places))
        | p :: es =>
          if p.toLower = 'e' then
            (exponent? es).map fun e => ofDecimal negative m.value (e - m.places)
          else none

/-- The word that a text denotes, or `none` if it is no numeral. -/
def float? (cs : List Char) : Option Binary64 :=
  match special? cs with
  | some x => some x
  | none =>
    let (negative, ds) := sign cs
    magnitude? negative ds

/-- The word that a text denotes, where a text that is no numeral counts as zero. -/
def float (cs : List Char) : Binary64 :=
  (float? cs).getD ⟨0⟩

/-! ## Integers with a base mark -/

/-- The base that a numeral without sign is written in, and its digits. A zero in front stands for base
eight, and `0b`, `0o` and `0x` with something behind them for two, eight and sixteen. -/
def baseAndDigits : List Char → Nat × List Char
  | '0' :: c :: d :: cs =>
    let l := c.toLower
    if l = 'b' then (2, d :: cs)
    else if l = 'o' then (8, d :: cs)
    else if l = 'x' then (16, d :: cs)
    else (8, c :: d :: cs)
  | '0' :: cs => (8, cs)
  | cs => (10, cs)

/-- The value of digits read after a number `n`, where underscores do not count. -/
def natInBase (base limit n : Nat) : List Char → Except IntError Nat
  | [] => .ok n
  | c :: cs =>
    if c = '_' then natInBase base limit n cs
    else
      match hexDigit? c with
      | none => .error .badSyntax
      | some d =>
        if base ≤ d then .error .badSyntax
        else if limit < base * n + d then .error .outOfRange
        else natInBase base limit (base * n + d) cs

/-- The integer denoted by a numeral that may have a sign, a base mark and underscores between its digits,
as a value of `bits` bits. -/
def marked (bits : Nat) (cs : List Char) : Except IntError Int := do
  let (negative, ds) := sign cs
  if ds.isEmpty then throw .badSyntax
  let (base, digits) := baseAndDigits ds
  let n ← natInBase base ((1 <<< bits) - 1) 0 digits
  if ds.contains '_' && !underscoresOk ds then throw .badSyntax
  let limit : Nat := 1 <<< (bits - 1)
  if negative then if n ≤ limit then return -n else throw .outOfRange
  else if n < limit then return n else throw .outOfRange

end SubrLang.Numeral
