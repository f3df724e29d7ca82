/-!
# Digests

The 64-bit xxHash of a byte sequence with seed zero. The bytes are taken as little-endian words. Whole
stripes of thirty-two bytes go through four lanes, one word each; the words and bytes that remain are
mixed in one after the other.
-/

namespace SubrLang.Digest

def prime1 : UInt64 := 11400714785074694791
def prime2 : UInt64 := 14029467366897019727
def prime3 : UInt64 := 1609587929392839161
def prime4 : UInt64 := 9650029242287828579
def prime5 : UInt64 := 2870177450012600261

/-- Rotates a word to the left by `n` bits, `0 < n < 64`. -/
def rotate (x n : UInt64) : UInt64 := (x <<< n) ||| (x >>> (64 - n))

/-- The word with the given bytes, the low ones first. -/
def word (bs : List UInt8) : UInt64 := bs.foldr (fun b x => (x <<< 8) ||| b.toUInt64) 0

/-- Mixes a word into a lane. -/
def mix (lane x : UInt64) : UInt64 := rotate (lane + x * prime2) 31 * prime1

structure Lanes where
  a : UInt64 := prime1 + prime2
  b : UInt64 := prime2
  c : UInt64 := 0
  d : UInt64 := 0 - prime1

/-- Mixes the words of a stripe into the lanes. -/
def Lanes.stripe (l : Lanes) (bs : List UInt8) : Lanes where
  a := mix l.a (word (bs.take 8))
  b := mix l.b (word ((bs.drop 8).take 8))
  c := mix l.c (word ((bs.drop 16).take 8))
  d := mix l.d (word ((bs.drop 24).take 8))

/-- Mixes the first `count` stripes into the lanes. -/
def Lanes.stripes : (count : Nat) → Lanes → List UInt8 → Lanes
  | 0, l, _ => l
  | count + 1, l, bs => (l.stripe bs).stripes count (bs.drop 32)

def Lanes.merge (h lane : UInt64) : UInt64 := (h ^^^ mix 0 lane) * prime1 + prime4

/-- The lanes as one word. -/
def Lanes.join (l : Lanes) : UInt64 :=
  [l.a, l.b, l.c, l.d].foldl merge
    (rotate l.a 1 + rotate l.b 7 + rotate l.c 12 + rotate l.d 18)

/-- Mixes in `count` words of eight bytes. -/
def words : (count : Nat) → UInt64 → List UInt8 → UInt64
  | 0, h, _ => h
  | count + 1, h, bs =>
    words count (rotate (h ^^^ mix 0 (word (bs.take 8))) 27 * prime1 + prime4) (bs.drop 8)

/-- Mixes in a word of four bytes. -/
def half (h : UInt64) (bs : List UInt8) : UInt64 :=
  rotate (h ^^^ (word bs * prime1)) 23 * prime2 + prime3

def byte (h : UInt64) (b : UInt8) : UInt64 :=
  rotate (h ^^^ (b.toUInt64 * prime5)) 11 * prime1

/-- Mixes in the fewer than thirty-two bytes behind the stripes. -/
def rest (h : UInt64) (bs : List UInt8) : UInt64 :=
  let h := words (bs.length / 8) h bs
  let bs := bs.drop (bs.length / 8 * 8)
  if 4 ≤ bs.length then (bs.drop 4).foldl byte (half h (bs.take 4)) else bs.foldl byte h

/-- Lets every bit of a word act on all others. -/
def spread (h : UInt64) : UInt64 :=
  let h := (h ^^^ (h >>> 33)) * prime2
  let h := (h ^^^ (h >>> 29)) * prime3
  h ^^^ (h >>> 32)

/-- The digest of a byte sequence. -/
def ofBytes (bs : List UInt8) : UInt64 :=
  let count := bs.length / 32
  let start := if count = 0 then prime5 else (({} : Lanes).stripes count bs).join
  spread (rest (start + UInt64.ofNat bs.length) (bs.drop (count * 32)))

/-- The digest in lower case hexadecimal digits. -/
def text (bs : List UInt8) : String := String.ofList (Nat.toDigits 16 (ofBytes bs).toNat)

end SubrLang.Digest
