/-!
# Reading bytes as UTF-8

Source files are bytes. `pieces` cuts them into characters and stray bytes; `decode` replaces each
stray byte by U+FFFD, so that every byte sequence has a reading and columns count characters.
-/

namespace SubrLang.Text

/-- A piece of a byte sequence: a well formed character or a byte that belongs to none. -/
inductive Piece where
  | char (c : Char)
  | stray (b : UInt8)
deriving DecidableEq, Repr

/-- The bytes of a piece. -/
def Piece.bytes : Piece → List UInt8
  | .char c => (String.singleton c).toUTF8.data.toList
  | .stray b => [b]

namespace Utf8

/-- The low six bits of a continuation byte, or `none` for any other byte. -/
def continuation (b : UInt8) : Option Nat :=
  if 0x80 ≤ b && b ≤ 0xbf then some (b.toNat - 0x80) else none

/-- The character with code point `n`, provided that `n` needs at least `least`, the first code
point of its encoded length, and is no surrogate and not too large. -/
def scalar (least n : Nat) : Option Char :=
  if h : n.isValidChar ∧ least ≤ n then some (Char.ofNatAux n h.1) else none

/-- The character that starts with byte `b`, followed by the bytes `bs`, and the number of bytes
of `bs` that belong to it. -/
def lead (b : UInt8) (bs : List UInt8) : Option (Char × Nat) :=
  if b < 0x80 then
    (scalar 0 b.toNat).map (·, 0)
  else if 0xc0 ≤ b && b < 0xe0 then do
    let x ← bs[0]? >>= continuation
    let c ← scalar 0x80 ((b.toNat - 0xc0) * 64 + x)
    return (c, 1)
  else if 0xe0 ≤ b && b < 0xf0 then do
    let x ← bs[0]? >>= continuation
    let y ← bs[1]? >>= continuation
    let c ← scalar 0x800 (((b.toNat - 0xe0) * 64 + x) * 64 + y)
    return (c, 2)
  else if 0xf0 ≤ b && b < 0xf8 then do
    let x ← bs[0]? >>= continuation
    let y ← bs[1]? >>= continuation
    let z ← bs[2]? >>= continuation
    let c ← scalar 0x10000 ((((b.toNat - 0xf0) * 64 + x) * 64 + y) * 64 + z)
    return (c, 3)
  else none

/-- The pieces of a byte sequence, from left to right. -/
def pieces : List UInt8 → List Piece
  | [] => []
  | b :: bs =>
    match lead b bs with
    | some (c, n) => .char c :: pieces (bs.drop n)
    | none => .stray b :: pieces bs
termination_by bs => bs.length
decreasing_by
  · simp only [List.length_drop, List.length_cons]; omega
  · simp

/-- The first piece of a byte sequence that is not empty. -/
def first? : List UInt8 → Option Piece
  | [] => none
  | b :: bs => some ((lead b bs).elim (.stray b) fun (c, _) => .char c)

/-- The characters of a byte sequence, with U+FFFD for every stray byte. -/
def decode (bs : List UInt8) : List Char :=
  (pieces bs).map fun
    | .char c => c
    | .stray _ => '�'

/-- The bytes of a text. -/
def encode (s : String) : List UInt8 :=
  s.toUTF8.data.toList

/-- The text that bytes encode, if they do. -/
def text? (bs : List UInt8) : Option String :=
  String.fromUTF8? ⟨bs.toArray⟩

theorem text?_encode (s : String) : text? (encode s) = some s := by
  simp only [text?, encode, String.fromUTF8?, String.toUTF8_eq_toByteArray, Array.toArray_toList,
    s.isValidUTF8, dite_true]
  rfl

theorem encode_of_text? {bs : List UInt8} {s : String} (h : text? bs = some s) : encode s = bs := by
  unfold text? String.fromUTF8? at h
  split at h
  · cases h
    rfl
  · cases h

end Utf8

end SubrLang.Text
