import SubrLang.Number.Decimal

/-!
# Amounts for people

`grouped` writes an integer with a comma between groups of three digits. `binarySize` writes a number
of bytes in the largest unit of a power of 1024 that it reaches.
-/

namespace SubrLang.Amount

/-- Puts a comma in front of every third digit, where the digits come last one first. -/
def commas : List Char → List Char
  | a :: b :: c :: d :: ds => a :: b :: c :: ',' :: commas (d :: ds)
  | ds => ds

/-- An integer in groups of three digits. -/
def grouped (n : Int) : String :=
  let ds := (commas (Nat.toDigits 10 n.natAbs).reverse).reverse
  String.ofList (if n < 0 then '-' :: ds else ds)

/-- The units of bytes, each 1024 times the one before. -/
def units : List String := ["B", "KiB", "MiB", "GiB", "TiB", "PiB", "EiB"]

/-- The integer part of the logarithm of `n` to the base 1024, computed with floats: a number less than
one part in `2^50` below a unit counts as having reached it. -/
def unitIndex (n : UInt64) : Nat :=
  (n.toFloat.log / (1024.0 : Float).log).floor.toUInt64.toNat

/-- A number of bytes in its unit, with one place below ten of it. -/
def binarySize (n : UInt64) : String :=
  if n < 10 then s!"{n.toNat} B"
  else
    let e := unitIndex n
    let amount := n.toFloat / (1 <<< (10 * e) : Nat).toUInt64.toFloat * 10.0 + 0.5
    let value := amount.floor / 10.0
    let text := Decimal.fixed (if value < 10.0 then 1 else 0) (Binary64.ofFloat value)
    let unit := units[e]?.getD ""
    s!"{text} {unit}"

end SubrLang.Amount
