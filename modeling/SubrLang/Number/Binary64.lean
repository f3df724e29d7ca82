/-!
# Binary floating-point words

A float of the machine is a 64-bit word in the binary64 format. Words are kept as their bits: two
words that are both "not a number" may differ, and the memory of the machine can tell them apart.

* `Binary64.view` reads a word as a sign with a magnitude `m · 2^q`, an infinity or a NaN.
* `Binary64.ofRatio` is the nearest word to a ratio of natural numbers, with ties to even.
* Arithmetic takes the operations of `Float`. The result with a NaN operand is that operand made quiet,
  and an operation with no meaning on numbers gives `Binary64.invalid`.
-/

namespace SubrLang

/-- A floating-point word. -/
structure Binary64 where
  /-- Sign, eleven bits of exponent and fifty-two bits of fraction. -/
  bits : UInt64
deriving DecidableEq, Repr, Inhabited

namespace Binary64

/-- What a word stands for. -/
inductive View where
  /-- No number. -/
  | nan
  /-- An infinity. -/
  | infinite (negative : Bool)
  /-- The number `± m · 2^q`. -/
  | finite (negative : Bool) (m : Nat) (q : Int)
deriving DecidableEq, Repr

/-- Whether the sign bit is set. -/
def isNegative (x : Binary64) : Bool :=
  x.bits >>> 63 != 0

/-- The meaning of a word. -/
def view (x : Binary64) : View :=
  let e := ((x.bits >>> 52) &&& 0x7ff).toNat
  let f := (x.bits &&& 0xfffffffffffff).toNat
  if e = 0x7ff then
    if f = 0 then .infinite x.isNegative else .nan
  else if e = 0 then .finite x.isNegative f (-1074)
  else .finite x.isNegative (f + (1 <<< 52)) (e - 1075)

/-- Whether a word is no number. -/
def isNaN (x : Binary64) : Bool :=
  x.view == .nan

/-- The word that the texts `NaN` and `nan` denote. -/
def nan : Binary64 := ⟨0x7ff8000000000001⟩

/-- The result of an operation that has none, such as `0 / 0`. -/
def invalid : Binary64 := ⟨0xfff8000000000000⟩

/-- The two infinities. -/
def infinity (negative : Bool) : Binary64 :=
  if negative then ⟨0xfff0000000000000⟩ else ⟨0x7ff0000000000000⟩

/-- The quotient `n / d`, rounded to the nearest natural number, a tie to the even one. -/
def roundQuotient (n d : Nat) : Nat :=
  let k := n / d
  let r := n % d
  if 2 * r > d ∨ (2 * r = d ∧ k % 2 = 1) then k + 1 else k

/-- The word nearest to `± n / d`, for a positive `d`. A tie goes to the even fraction, and what is
too large becomes an infinity. -/
def ofRatio (negative : Bool) (n d : Nat) : Binary64 :=
  if n = 0 then ⟨if negative then 0x8000000000000000 else 0⟩
  else
    -- `2 ^ e ≤ n / d < 2 ^ (e + 1)`
    let l : Int := n.log2 - d.log2
    let below := if 0 ≤ l then n < (d <<< l.toNat) else (n <<< (-l).toNat) < d
    let e := if below then l - 1 else l
    let q := max (e - 52) (-1074)
    let m := if 0 ≤ q then roundQuotient n (d <<< q.toNat) else roundQuotient (n <<< (-q).toNat) d
    -- a fraction that rounds up to `2 ^ 53` carries into the exponent
    let b := ((q + 1074).toNat <<< 52) + m
    if b < (0x7ff <<< 52) then ⟨(if negative then 0x8000000000000000 else 0) ||| b.toUInt64⟩
    else infinity negative

/-- The word as a `Float`. -/
def toFloat (x : Binary64) : Float :=
  Float.ofBits x.bits

/-- A `Float` as a word; a NaN becomes `invalid`. -/
def ofFloat (x : Float) : Binary64 :=
  if x.isNaN then invalid else ⟨x.toBits⟩

/-- A NaN with the highest bit of its fraction set, which marks it as quiet. -/
def quiet (x : Binary64) : Binary64 :=
  ⟨x.bits ||| 0x8000000000000⟩

/-- An operation on two words: a NaN operand made quiet, the first one before the second, is the
result. -/
def lift (f : Float → Float → Float) (x y : Binary64) : Binary64 :=
  if x.isNaN then x.quiet else if y.isNaN then y.quiet else ofFloat (f x.toFloat y.toFloat)

def add : Binary64 → Binary64 → Binary64 := lift (· + ·)

def sub : Binary64 → Binary64 → Binary64 := lift (· - ·)

def mul : Binary64 → Binary64 → Binary64 := lift (· * ·)

def div : Binary64 → Binary64 → Binary64 := lift (· / ·)

/-- The word with the other sign. -/
def neg (x : Binary64) : Binary64 :=
  ⟨x.bits ^^^ 0x8000000000000000⟩

/-- Whether the number is zero, of either sign. -/
def isZero (x : Binary64) : Bool :=
  match x.view with
  | .finite _ m _ => m == 0
  | _ => false

/-- Whether the number lies above zero. -/
def isPositive (x : Binary64) : Bool :=
  match x.view with
  | .finite s m _ => !s && m != 0
  | .infinite s => !s
  | .nan => false

/-- Whether the number lies below zero. -/
def isBelowZero (x : Binary64) : Bool :=
  match x.view with
  | .finite s m _ => s && m != 0
  | .infinite s => s
  | .nan => false

/-- The word for an integer, which is exact. -/
def ofInt32 (v : Int32) : Binary64 :=
  ofRatio (v < 0) v.toInt.natAbs 1

/-- The integer part of a number within the range of `Int32`. -/
def toInt32 (x : Binary64) : Int32 :=
  x.toFloat.toInt32

end Binary64

end SubrLang
