import SubrLang.Number.Numeral

/-!
# Durations

Spans of time in nanoseconds. They are written like `1h2m3.5s` and read in the same form: numbers with a
unit each, where a number may have a fraction.
-/

namespace SubrLang.Duration

/-- The units and how many nanoseconds each has. The sign for micro has two code points. -/
def units : List (String × Nat) :=
  [("ns", 1), ("us", 1000), ("µs", 1000), ("μs", 1000), ("ms", 1000000), ("s", 1000000000),
   ("m", 60000000000), ("h", 3600000000000)]

def isNumeric (c : Char) : Bool := c = '.' || (Numeral.digit? c).isSome

def digitsValue (cs : List Char) : Nat :=
  cs.foldl (fun n c => 10 * n + (Numeral.digit? c).getD 0) 0

/-- The nanoseconds in a number and its unit, given as texts. -/
def part? (number unit : List Char) : Option Nat := do
  let size ← units.lookup (String.ofList unit)
  let whole := number.takeWhile (· != '.')
  let fraction := (number.drop whole.length).drop 1
  if whole.isEmpty && fraction.isEmpty || fraction.contains '.' then none
  else some (digitsValue whole * size + digitsValue fraction * size / Nat.pow 10 fraction.length)

/-- The sum of the parts of a duration; `fuel` bounds their number. -/
def sum? : (fuel : Nat) → List Char → Option Nat
  | _, [] => some 0
  | 0, _ => none
  | fuel + 1, cs => do
    let (number, cs) := cs.span isNumeric
    let (unit, cs) := cs.span (!isNumeric ·)
    return (← part? number unit) + (← sum? fuel cs)

/-- Reads a duration, which has to fit in a signed word of 64 bits. -/
def read? (s : String) : Option Int :=
  let (negative, cs) := Numeral.sign s.toList
  if cs = ['0'] then some 0
  else if cs.isEmpty then none
  else
    match sum? cs.length cs with
    | none => none
    | some n =>
      if negative then if n ≤ (1 <<< 63) then some (-n) else none
      else if n < (1 <<< 63) then some n else none

/-- A number of `unit`s with as many decimals as it needs, where `unit` is a power of ten. -/
def decimal (n unit : Nat) : String :=
  let width := (Nat.toDigits 10 unit).length - 1
  let ds := Nat.toDigits 10 (n % unit)
  let padded := List.replicate (width - ds.length) '0' ++ ds
  let kept := (padded.reverse.dropWhile (· = '0')).reverse
  let whole := s!"{n / unit}"
  if kept.isEmpty then whole else whole ++ "." ++ String.ofList kept

/-- The text of a duration. -/
def text (d : Int) : String :=
  let n := d.natAbs
  let sign := if d < 0 then "-" else ""
  let seconds := n / 1000000000
  sign ++
    if n = 0 then "0s"
    else if n < 1000 then s!"{n}ns"
    else if n < 1000000 then decimal n 1000 ++ "µs"
    else if n < 1000000000 then decimal n 1000000 ++ "ms"
    else
      (if 3600 ≤ seconds then s!"{seconds / 3600}h" else "") ++
      (if 60 ≤ seconds then s!"{seconds / 60 % 60}m" else "") ++
      decimal (n % 60000000000) 1000000000 ++ "s"

/-- A duration for a column of a table: whole microseconds below a millisecond, and whole milliseconds from
there on, in at least six places. -/
def column (d : Int) : String :=
  let (n, unit) := if d < 1000000 then (d.tdiv 1000, "µs") else (d.tdiv 1000000, "ms")
  let ds := s!"{n}"
  String.ofList (List.replicate (6 - ds.length) ' ') ++ ds ++ unit

end SubrLang.Duration
