import SubrLang.Number.Binary64

/-!
# Floats as decimal texts

Two ways to write a float. `Decimal.shortest` has the fewest significant digits that still read back
as the same word, and of those the nearest to it; it is written with an exponent when the exponent
lies below -4 or above 5. `Decimal.fixed` has a given number of places, rounded from the exact value.
-/

namespace SubrLang.Decimal

/-- Significant digits with the power of ten of the first: `d₁.d₂d₃… · 10^exponent`. -/
structure Digits where
  digits : List Char
  exponent : Int

/-- A positive rational number as numerator and denominator. -/
structure Ratio where
  num : Nat
  den : Nat

/-- The number `m · 2^q`. -/
def Ratio.ofBinary (m : Nat) (q : Int) : Ratio :=
  if 0 ≤ q then ⟨m <<< q.toNat, 1⟩ else ⟨m, 1 <<< (-q).toNat⟩

/-- The number `m · 10^k`. -/
def Ratio.ofDecimal (m : Nat) (k : Int) : Ratio :=
  if 0 ≤ k then ⟨m * Nat.pow 10 k.toNat, 1⟩ else ⟨m, Nat.pow 10 (-k).toNat⟩

def Ratio.lt (a b : Ratio) : Bool := decide (a.num * b.den < b.num * a.den)

def Ratio.le (a b : Ratio) : Bool := decide (a.num * b.den ≤ b.num * a.den)

/-- The power of ten of the leading digit of a positive number. -/
def Ratio.magnitude (a : Ratio) : Int :=
  -- one less than the number of digits of the integer part, or below it for numbers under one
  let guess : Int := ((a.num.log2 : Int) - (a.den.log2 : Int)) * 30103 / 100000 - 1
  let step (k : Int) : Int := if (Ratio.ofDecimal 1 (k + 1)).le a then k + 1 else k
  step (step (step guess))

/-- The reals that round to the word `m · 2^q`: between the two halfway points, which belong to it
when `m` is even. Below a power of two the words lie twice as close. -/
structure Cell where
  low : Ratio
  high : Ratio
  closed : Bool

def Cell.of (m : Nat) (q : Int) : Cell :=
  let lowGap := if m = (1 <<< 52) ∧ -1074 < q then 1 else 2
  ⟨Ratio.ofBinary (4 * m - lowGap) (q - 2), Ratio.ofBinary (4 * m + 2) (q - 2), m % 2 == 0⟩

def Cell.contains (c : Cell) (a : Ratio) : Bool :=
  if c.closed then c.low.le a && a.le c.high else c.low.lt a && a.lt c.high

/-- The nearest point to `a` on the grid of multiples of `10^k` that lies in the cell, as a number of
grid steps. -/
def gridPoint? (c : Cell) (a : Ratio) (k : Int) : Option Nat :=
  let unit := Ratio.ofDecimal 1 k
  let n := a.num * unit.den
  let d := a.den * unit.num
  let below := n / d
  let downward := c.contains (Ratio.ofDecimal below k)
  let upward := c.contains (Ratio.ofDecimal (below + 1) k)
  if downward && upward then some (Binary64.roundQuotient n d)
  else if downward then some below
  else if upward then some (below + 1)
  else none

/-- The shortest digits in the cell, tried with `count`, `count + 1`, … digits. -/
def search (c : Cell) (a : Ratio) (magnitude : Int) : (attempts count : Nat) → Digits
  | 0, _ => ⟨['0'], 0⟩
  | attempts + 1, count =>
    let k := magnitude - count + 1
    match gridPoint? c a k with
    | some n =>
      let ds := Nat.toDigits 10 n
      ⟨(ds.reverse.dropWhile (· == '0')).reverse, k + ds.length - 1⟩
    | none => search c a magnitude attempts (count + 1)

/-- The fewest digits that read back as `m · 2^q`, for a positive `m`. -/
def shortestDigits (m : Nat) (q : Int) : Digits :=
  let a := Ratio.ofBinary m q
  search (Cell.of m q) a a.magnitude 20 1

/-- The least and the greatest exponent that are written without an exponent. -/
def positional : Int × Int := (-4, 5)

/-- An exponent with its sign and at least two digits. -/
def exponentText (e : Int) : List Char :=
  let ds := Nat.toDigits 10 e.natAbs
  (if e < 0 then '-' else '+') :: List.replicate (2 - ds.length) '0' ++ ds

/-- The digits with a point in its place, or with an exponent. -/
def Digits.text (d : Digits) : List Char :=
  if d.exponent < positional.1 ∨ positional.2 < d.exponent then
    match d.digits with
    | [] => []
    | [c] => c :: 'e' :: exponentText d.exponent
    | c :: cs => c :: '.' :: cs ++ 'e' :: exponentText d.exponent
  else if d.exponent < 0 then
    '0' :: '.' :: List.replicate ((-d.exponent).toNat - 1) '0' ++ d.digits
  else
    let n := d.exponent.toNat + 1
    let whole := d.digits.take n
    let whole := whole ++ List.replicate (n - whole.length) '0'
    match d.digits.drop n with
    | [] => whole
    | fraction => whole ++ '.' :: fraction

/-- The texts of words that are no finite number. -/
def special (negative : Option Bool) : String :=
  match negative with
  | none => "NaN"
  | some true => "-Inf"
  | some false => "+Inf"

/-- The shortest text that reads back as the word. -/
def shortest (x : Binary64) : String :=
  match x.view with
  | .nan => special none
  | .infinite s => special (some s)
  | .finite s m q =>
    let ds := if m = 0 then ['0'] else (shortestDigits m q).text
    String.ofList (if s then '-' :: ds else ds)

/-- A natural number of units of `10^(-places)`, written with a point. -/
def pointed (places n : Nat) : List Char :=
  if places = 0 then Nat.toDigits 10 n
  else
    let ds := Nat.toDigits 10 (n % Nat.pow 10 places)
    Nat.toDigits 10 (n / Nat.pow 10 places) ++ '.' :: List.replicate (places - ds.length) '0' ++ ds

/-- The word with `places` places, rounded from the exact value, a tie to the even digit. -/
def fixed (places : Nat) (x : Binary64) : String :=
  match x.view with
  | .nan => special none
  | .infinite s => special (some s)
  | .finite s m q =>
    let a := Ratio.ofBinary m q
    let ds := pointed places (Binary64.roundQuotient (a.num * Nat.pow 10 places) a.den)
    String.ofList (if s then '-' :: ds else ds)

end SubrLang.Decimal
