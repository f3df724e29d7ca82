import SubrLang.Code.Layout
import SubrLang.Machine.Fault
import SubrLang.Machine.Memory
import SubrLang.Proofs.TypeRules

/-!
# Values in memory

What the machine reads back from a place in memory after something was stored there, or elsewhere.

**Slots.** A value is kept in one byte, in a word or in two words. `Memory.fetch` and `Memory.put` are
the three loads and the three stores as one function each, and `Ty.slot` says which of them belongs to
a type.

**The round trip.** `fetch_put` says that a value that fits its slot comes back as it was, and
`fetch_put_of_apart` that a store leaves every slot alone that has no byte in common with it.

**Addresses.** The machine computes addresses as integers of 32 bits. Where a stretch of memory starts in
the lower half of their range (`Memory.Inside`), `Int32.ofNat` loses nothing, and `holds_ofNat` says that
the machine finds the stretch inside memory.
-/

namespace SubrLang

/-! ## Bytes and words -/

namespace Memory

variable {m : Memory} {i j n : Nat}

@[simp] lemma size_setByte (m : Memory) (i : Nat) (b : UInt8) : (m.setByte i b).size = m.size := by
  show (m.bytes.data.set! i b).size = m.bytes.data.size
  simp

lemma byte_setByte_self (b : UInt8) (h : i < m.size) : (m.setByte i b).byte i = b := by
  have hi : i < m.bytes.data.size := h
  show (m.bytes.data.set! i b)[i]! = b
  grind

lemma byte_setByte_of_ne (b : UInt8) (h : j ≠ i) : (m.setByte i b).byte j = m.byte j := by
  show (m.bytes.data.set! i b)[j]! = m.bytes.data[j]!
  grind

/-- Memories of one size with the same bytes are the same. -/
lemma eq_of_byte {m' : Memory} (hsize : m'.size = m.size) (h : ∀ i, m'.byte i = m.byte i) : m' = m := by
  obtain ⟨⟨a⟩⟩ := m
  obtain ⟨⟨b⟩⟩ := m'
  congr 2
  apply Array.ext hsize
  intro i hb ha
  simpa [byte, ByteArray.get!, getElem!_pos, hb, ha] using h i

lemma setByte_byte (m : Memory) (i : Nat) : m.setByte i (m.byte i) = m := by
  apply eq_of_byte (size_setByte m i _)
  intro j
  show (m.bytes.data.set! i m.bytes.data[i]!)[j]! = m.bytes.data[j]!
  grind

@[simp] lemma size_setWord (m : Memory) (i : Nat) (w : UInt32) : (m.setWord i w).size = m.size := by
  simp [setWord]

lemma byte_setWord_of_apart (w : UInt32) (h : j < i ∨ i + 4 ≤ j) :
    (m.setWord i w).byte j = m.byte j := by
  rw [setWord, byte_setByte_of_ne _ (by omega), byte_setByte_of_ne _ (by omega),
    byte_setByte_of_ne _ (by omega), byte_setByte_of_ne _ (by omega)]

end Memory

/-- A stretch of bits that is taken out of a bit vector and put back to its place. -/
lemma getLsbD_stretch {w : Nat} (x : BitVec w) (lo n : Nat) {k : Nat} (hk : k < w) :
    (((x >>> lo).setWidth n).setWidth w <<< lo).getLsbD k =
      (decide (lo ≤ k ∧ k < lo + n) && x.getLsbD k) := by
  by_cases h : lo ≤ k
  · have hback : lo + (k - lo) = k := by omega
    have hlast : (k < lo + n) = (k - lo < n) := by grind
    simp [hk, h, hback, hlast]
  · have hlow : k < lo := by omega
    simp [h, hlow]

/-- A word is made up of its four bytes. -/
lemma or_bytes (w : UInt32) : w.toUInt8.toUInt32 ||| ((w >>> 8).toUInt8.toUInt32 <<< 8) |||
    ((w >>> 16).toUInt8.toUInt32 <<< 16) ||| ((w >>> 24).toUInt8.toUInt32 <<< 24) = w := by
  apply UInt32.eq_of_toBitVec_eq
  apply BitVec.eq_of_getLsbD_eq
  intro k hk
  have h0 := getLsbD_stretch w.toBitVec 0 8 hk
  rw [BitVec.shiftLeft_zero, BitVec.ushiftRight_zero] at h0
  show BitVec.getLsbD ((w.toBitVec.setWidth 8).setWidth 32 |||
    ((w.toBitVec >>> 8).setWidth 8).setWidth 32 <<< 8 |||
    ((w.toBitVec >>> 16).setWidth 8).setWidth 32 <<< 16 |||
    ((w.toBitVec >>> 24).setWidth 8).setWidth 32 <<< 24) k = w.toBitVec.getLsbD k
  rw [BitVec.getLsbD_or, BitVec.getLsbD_or, BitVec.getLsbD_or, h0, getLsbD_stretch _ _ _ hk,
    getLsbD_stretch _ _ _ hk, getLsbD_stretch _ _ _ hk]
  rcases (by omega : k < 8 ∨ 8 ≤ k ∧ k < 16 ∨ 16 ≤ k ∧ k < 24 ∨ 24 ≤ k) with h | h | h | h
  all_goals grind

/-- The bits of a word that is made up of four bytes. -/
lemma getLsbD_or_bytes (b₀ b₁ b₂ b₃ : BitVec 8) {k : Nat} (hk : k < 8) :
    let x := b₀.setWidth 32 ||| b₁.setWidth 32 <<< 8 ||| b₂.setWidth 32 <<< 16 |||
      b₃.setWidth 32 <<< 24
    x.getLsbD k = b₀.getLsbD k ∧ x.getLsbD (8 + k) = b₁.getLsbD k ∧
      x.getLsbD (16 + k) = b₂.getLsbD k ∧ x.getLsbD (24 + k) = b₃.getLsbD k := by
  intro x
  have hhigh (b : BitVec 8) {n : Nat} (hn : 8 ≤ n) : b.getLsbD n = false :=
    BitVec.getLsbD_of_ge _ _ hn
  simp only [x, BitVec.getLsbD_or, BitVec.getLsbD_setWidth, BitVec.getLsbD_shiftLeft]
  refine ⟨?_, ?_, ?_, ?_⟩
  · simp [hk, show k < 32 by omega, show k < 16 by omega, show k < 24 by omega]
  · simp [show k < 32 by omega, show 8 + k < 32 by omega, show 8 + k < 16 by omega,
      show 8 + k < 24 by omega]
  · have h₀ := hhigh b₀ (show 8 ≤ 16 + k by omega)
    have h₁ := hhigh b₁ (show 8 ≤ 16 + k - 8 by omega)
    simp [h₀, h₁, show k < 32 by omega, show 16 + k < 32 by omega, show 16 + k < 24 by omega]
  · have h₀ := hhigh b₀ (show 8 ≤ 24 + k by omega)
    have h₁ := hhigh b₁ (show 8 ≤ 24 + k - 8 by omega)
    have h₂ := hhigh b₂ (show 8 ≤ 24 + k - 16 by omega)
    simp [h₀, h₁, h₂, show k < 32 by omega, show 24 + k < 32 by omega]

/-- The bytes that a word is made up of can be taken out of it again. -/
lemma toUInt8_or_bytes (b₀ b₁ b₂ b₃ : UInt8) :
    let w := b₀.toUInt32 ||| (b₁.toUInt32 <<< 8) ||| (b₂.toUInt32 <<< 16) ||| (b₃.toUInt32 <<< 24)
    w.toUInt8 = b₀ ∧ (w >>> 8).toUInt8 = b₁ ∧ (w >>> 16).toUInt8 = b₂ ∧ (w >>> 24).toUInt8 = b₃ := by
  intro w
  have hw {k : Nat} (hk : k < 8) :=
    getLsbD_or_bytes b₀.toBitVec b₁.toBitVec b₂.toBitVec b₃.toBitVec hk
  have hfield (n : Nat) (x : BitVec 32) (b : BitVec 8)
      (h : ∀ k < 8, x.getLsbD (n + k) = b.getLsbD k) : (x >>> n).setWidth 8 = b := by
    apply BitVec.eq_of_getLsbD_eq
    intro k hk
    rw [BitVec.getLsbD_setWidth, BitVec.getLsbD_ushiftRight, h k hk]
    simp [hk]
  refine ⟨?_, ?_, ?_, ?_⟩ <;> apply UInt8.eq_of_toBitVec_eq
  · rw [← hfield 0 _ b₀.toBitVec fun k hk => by rw [Nat.zero_add]; exact (hw hk).1]
    rfl
  · exact hfield 8 _ b₁.toBitVec fun k hk => (hw hk).2.1
  · exact hfield 16 _ b₂.toBitVec fun k hk => (hw hk).2.2.1
  · exact hfield 24 _ b₃.toBitVec fun k hk => (hw hk).2.2.2

/-- Two words make up one of twice the width. -/
lemma or_words (w : UInt64) :
    w.toUInt32.toUInt64 ||| ((w >>> 32).toUInt32.toUInt64 <<< 32) = w := by
  apply UInt64.eq_of_toBitVec_eq
  apply BitVec.eq_of_getLsbD_eq
  intro k hk
  have h0 := getLsbD_stretch w.toBitVec 0 32 hk
  rw [BitVec.shiftLeft_zero, BitVec.ushiftRight_zero] at h0
  show BitVec.getLsbD ((w.toBitVec.setWidth 32).setWidth 64 |||
    ((w.toBitVec >>> 32).setWidth 32).setWidth 64 <<< 32) k = w.toBitVec.getLsbD k
  rw [BitVec.getLsbD_or, h0, getLsbD_stretch _ _ _ hk]
  by_cases h : k < 32
  all_goals grind

namespace Memory

variable {m : Memory} {i j n : Nat}

/-- The four bytes of a word that was stored. -/
lemma byte_setWord_self (w : UInt32) (h : i + 4 ≤ m.size) :
    (m.setWord i w).byte i = w.toUInt8 ∧ (m.setWord i w).byte (i + 1) = (w >>> 8).toUInt8 ∧
      (m.setWord i w).byte (i + 2) = (w >>> 16).toUInt8 ∧
      (m.setWord i w).byte (i + 3) = (w >>> 24).toUInt8 := by
  refine ⟨?_, ?_, ?_, ?_⟩
  · rw [setWord, byte_setByte_of_ne _ (by omega), byte_setByte_of_ne _ (by omega),
      byte_setByte_of_ne _ (by omega), byte_setByte_self _ (by omega)]
  · rw [setWord, byte_setByte_of_ne _ (by omega), byte_setByte_of_ne _ (by omega),
      byte_setByte_self _ (by simp; omega)]
  · rw [setWord, byte_setByte_of_ne _ (by omega), byte_setByte_self _ (by simp; omega)]
  · rw [setWord, byte_setByte_self _ (by simp; omega)]

lemma word_setWord_self (w : UInt32) (h : i + 4 ≤ m.size) : (m.setWord i w).word i = w := by
  obtain ⟨h0, h1, h2, h3⟩ := byte_setWord_self w h
  rw [word, h0, h1, h2, h3, or_bytes]

/-- To store the word that is there changes nothing. -/
lemma setWord_word (m : Memory) (i : Nat) : m.setWord i (m.word i) = m := by
  obtain ⟨h₀, h₁, h₂, h₃⟩ :=
    toUInt8_or_bytes (m.byte i) (m.byte (i + 1)) (m.byte (i + 2)) (m.byte (i + 3))
  rw [setWord, word, h₀, setByte_byte, h₁, setByte_byte, h₂, setByte_byte, h₃, setByte_byte]

/-- A word depends on its four bytes only. -/
lemma word_congr {m' : Memory} (h : ∀ k < 4, m'.byte (i + k) = m.byte (i + k)) :
    m'.word i = m.word i := by
  rw [word, word, h 1 (by omega), h 2 (by omega), h 3 (by omega)]
  rw [show m'.byte i = m.byte i from h 0 (by omega)]

end Memory

/-! ## Slots -/

/-- The widths in which values are kept in memory. -/
inductive Slot where
  | byte | word | double
deriving DecidableEq, Repr

namespace Slot

def size : Slot → Nat
  | byte => 1
  | word => 4
  | double => 8

/-- Whether a word of the operand stack can be kept in a slot without loss. -/
def Fits : Slot → Word → Prop
  | byte, .int v => 0 ≤ v.toInt ∧ v.toInt < 256
  | word, .int _ => True
  | double, .float _ => True
  | _, _ => False

instance : ∀ (s : Slot) (w : Word), Decidable (s.Fits w)
  | byte, .int v => inferInstanceAs (Decidable (0 ≤ v.toInt ∧ v.toInt < 256))
  | word, .int _ => .isTrue trivial
  | double, .float _ => .isTrue trivial
  | byte, .float _ => .isFalse id
  | word, .float _ => .isFalse id
  | double, .int _ => .isFalse id

end Slot

/-- The slot in which values of a type are kept. -/
def Ty.slot : Ty → Slot
  | .prim .boolean | .prim .character => .byte
  | .prim .float => .double
  | _ => .word

lemma Ty.size_eq_of_isPrintable {t : Ty} (h : t.isPrintable) : t.size = t.slot.size := by
  cases t with
  | prim p => cases p <;> first | rfl | simp [isPrintable] at h
  | array t => rfl
  | func ps r => rfl
  | var v => simp [isPrintable] at h
  | literal t => simp [isPrintable] at h

lemma Ty.size_eq_of_isValue {t : Ty} (h : t.isValue) : t.size = t.slot.size :=
  size_eq_of_isPrintable (isPrintable_of_isValue h)

namespace Memory

/-- What a load finds at a position. -/
def fetch (m : Memory) (s : Slot) (i : Nat) : Word :=
  match s with
  | .byte => .int (m.byte i).toUInt32.toInt32
  | .word => .int (m.word i).toInt32
  | .double => .float ⟨(m.word i).toUInt64 ||| ((m.word (i + 4)).toUInt64 <<< 32)⟩

/-- The memory after a store. A word that does not fit the slot is not stored. -/
def put (m : Memory) (s : Slot) (i : Nat) (w : Word) : Memory :=
  match s, w with
  | .byte, .int v => m.setChar i v
  | .word, .int v => m.setInt i v
  | .double, .float f => m.setFloat i f
  | _, _ => m

variable {m : Memory} {s t : Slot} {i j : Nat} {w : Word}

@[simp] lemma size_put (m : Memory) (s : Slot) (i : Nat) (w : Word) : (m.put s i w).size = m.size := by
  cases s <;> cases w <;> simp [put, setChar, setInt, setFloat]

lemma byte_put_of_apart (h : j < i ∨ i + s.size ≤ j) : (m.put s i w).byte j = m.byte j := by
  cases s with
  | byte =>
    cases w with
    | int v => exact byte_setByte_of_ne _ (by simp only [Slot.size] at h; omega)
    | float f => rfl
  | word =>
    cases w with
    | int v => exact byte_setWord_of_apart _ h
    | float f => rfl
  | double =>
    cases w with
    | int v => rfl
    | float f =>
      simp only [Slot.size] at h
      rw [put, setFloat, byte_setWord_of_apart _ (by omega), byte_setWord_of_apart _ (by omega)]

/-- A load depends on the bytes of its slot only. -/
lemma fetch_congr {m' : Memory} (h : ∀ k < s.size, m'.byte (i + k) = m.byte (i + k)) :
    m'.fetch s i = m.fetch s i := by
  cases s with
  | byte => rw [fetch, fetch, show m'.byte i = m.byte i from h 0 (by decide)]
  | word => rw [fetch, fetch, word_congr h]
  | double =>
    have hlow : m'.word i = m.word i := word_congr fun k hk => h k (by simp [Slot.size]; omega)
    have hhigh : m'.word (i + 4) = m.word (i + 4) := by
      apply word_congr
      intro k hk
      rw [Nat.add_assoc]
      exact h (4 + k) (by simp only [Slot.size]; omega)
    rw [fetch, fetch, hlow, hhigh]

lemma fetch_put_of_apart (h : j + t.size ≤ i ∨ i + s.size ≤ j) :
    (m.put s i w).fetch t j = m.fetch t j :=
  fetch_congr fun k hk => byte_put_of_apart (by omega)

lemma toInt_eq_bmod (v : Int32) : v.toInt = (v.toUInt32.toNat : Int).bmod (2 ^ 32) := by
  rw [← Int32.toInt_toBitVec, BitVec.toInt_eq_toNat_bmod]
  rfl

lemma toInt32_toUInt8 {v : Int32} (h : 0 ≤ v.toInt) (h' : v.toInt < 256) :
    v.toUInt32.toUInt8.toUInt32.toInt32 = v := by
  have hv := toInt_eq_bmod v
  have hsmall : v.toUInt32.toNat < 256 := by
    have hlt := v.toUInt32.toNat_lt
    rw [Int.bmod_def] at hv
    split at hv <;> omega
  have hbyte : v.toUInt32.toUInt8.toUInt32 = v.toUInt32 := by
    apply UInt32.toNat.inj
    simp only [UInt8.toNat_toUInt32, UInt32.toNat_toUInt8]
    omega
  rw [hbyte, Int32.toInt32_toUInt32]

/-- What was stored is what is loaded. -/
theorem fetch_put (hi : i + s.size ≤ m.size) (hw : s.Fits w) : (m.put s i w).fetch s i = w := by
  cases s with
  | byte =>
    cases w with
    | int v =>
      have hb : (m.put .byte i (.int v)).byte i = v.toUInt32.toUInt8 := byte_setByte_self _ hi
      rw [fetch, hb, toInt32_toUInt8 hw.1 hw.2]
    | float f => exact hw.elim
  | word =>
    cases w with
    | int v =>
      have hv : (m.put .word i (.int v)).word i = v.toUInt32 := word_setWord_self _ hi
      rw [fetch, hv, Int32.toInt32_toUInt32]
    | float f => exact hw.elim
  | double =>
    cases w with
    | int v => exact hw.elim
    | float f =>
      simp only [Slot.size] at hi
      have hlow : (m.put .double i (.float f)).word i = f.bits.toUInt32 := by
        rw [put, setFloat]
        rw [word_congr fun k hk => byte_setWord_of_apart _ (by omega), word_setWord_self _ (by omega)]
      have hhigh : (m.put .double i (.float f)).word (i + 4) = (f.bits >>> 32).toUInt32 :=
        word_setWord_self _ (by simp; omega)
      rw [fetch, hlow, hhigh, or_words]

/-- The bytes of an integer that was stored are its digits, the low one first. -/
lemma toNat_byte_put {v : Int32} {k : Nat} (hs : s ≠ .double) (hi : i + s.size ≤ m.size)
    (hk : k < s.size) :
    ((m.put s i (.int v)).byte (i + k)).toNat = v.toUInt32.toNat / 256 ^ k % 256 := by
  cases s with
  | byte =>
    obtain rfl : k = 0 := Nat.lt_one_iff.mp hk
    rw [Nat.add_zero, put, setChar, byte_setByte_self _ hi]
    simp
  | word =>
    obtain ⟨h0, h1, h2, h3⟩ := byte_setWord_self v.toUInt32 hi
    rw [put, setInt]
    obtain rfl | rfl | rfl | rfl : k = 0 ∨ k = 1 ∨ k = 2 ∨ k = 3 := by
      simp only [Slot.size] at hk
      omega
    · simp [h0]
    · simp [h1, Nat.shiftRight_eq_div_pow]
    · simp [h2, Nat.shiftRight_eq_div_pow]
    · simp [h3, Nat.shiftRight_eq_div_pow]
  | double => exact absurd rfl hs

/-- They do not depend on what was there. -/
lemma byte_put_congr {m' : Memory} {v : Int32} (hs : s ≠ .double) (hsize : m'.size = m.size)
    (hi : i + s.size ≤ m.size) (hj : i ≤ j) (hj' : j < i + s.size) :
    (m'.put s i (.int v)).byte j = (m.put s i (.int v)).byte j := by
  obtain ⟨k, rfl⟩ := Nat.exists_eq_add_of_le hj
  apply UInt8.toNat.inj
  rw [toNat_byte_put hs (hsize ▸ hi) (by omega), toNat_byte_put hs hi (by omega)]

/-- Of two words that are stored at one place the second one counts. -/
lemma put_word_put_word {v v' : Int32} (hi : i + 4 ≤ m.size) :
    (m.put .word i (.int v)).put .word i (.int v') = m.put .word i (.int v') := by
  apply eq_of_byte (by simp)
  intro j
  by_cases hj : j < i ∨ i + 4 ≤ j
  · rw [byte_put_of_apart hj, byte_put_of_apart hj, byte_put_of_apart hj]
  · exact byte_put_congr (by decide) (by simp) hi (by omega) (by simp only [Slot.size]; omega)

/-- Integers at places without a common byte can be stored in either order. -/
lemma put_comm {v v' : Int32} (hs : s ≠ .double) (ht : t ≠ .double) (hi : i + s.size ≤ m.size)
    (hj : j + t.size ≤ m.size) (h : i + s.size ≤ j ∨ j + t.size ≤ i) :
    (m.put s i (.int v)).put t j (.int v') = (m.put t j (.int v')).put s i (.int v) := by
  apply eq_of_byte (by simp)
  intro k
  by_cases hki : k < i ∨ i + s.size ≤ k
  · rw [byte_put_of_apart (i := i) hki]
    by_cases hkj : k < j ∨ j + t.size ≤ k
    · rw [byte_put_of_apart hkj, byte_put_of_apart hki, byte_put_of_apart hkj]
    · exact byte_put_congr ht (by simp) hj (by omega) (by omega)
  · rw [byte_put_of_apart (by omega)]
    exact (byte_put_congr hs (by simp) hi (by omega) (by omega)).symm

lemma put_word_self (h : m.fetch .word i = w) : m.put .word i w = m := by
  subst h
  show m.setWord i (m.word i).toInt32.toUInt32 = m
  rw [UInt32.toUInt32_toInt32, setWord_word]

/-! ## Addresses -/

lemma toNatClampNeg_ofNat (h : i < 2 ^ 31) : (Int32.ofNat i).toNatClampNeg = i :=
  Int32.toNatClampNeg_ofNat_of_lt (by simpa using h)

lemma ofNat_inj_of_lt (hi : i < 2 ^ 31) (hj : j < 2 ^ 31) : Int32.ofNat i = Int32.ofNat j ↔ i = j := by
  constructor
  · intro h
    rw [← toNatClampNeg_ofNat hi, h, toNatClampNeg_ofNat hj]
  · rintro rfl
    rfl

/-- A stretch of bytes lies inside memory, and its start is an address. -/
def Inside (m : Memory) (i n : Nat) : Prop := i < 2 ^ 31 ∧ i + n ≤ m.size

@[simp] lemma inside_put {n : Nat} : (m.put s j w).Inside i n ↔ m.Inside i n := by
  simp [Inside]

lemma holds_ofNat {n : Nat} (h : m.Inside i n) : m.holds (Int32.ofNat i) n := by
  have h0 : (0 : Int32) ≤ Int32.ofNat i := by
    rw [Int32.le_iff_toInt_le, Int32.toInt_ofNat_of_lt (by simpa using h.1)]
    simp
  simp [holds, toNatClampNeg_ofNat h.1, h0, h.2]

end Memory

lemma ofNat_add_ofInt {i j : Nat} {k : Int} (h : i + k = j) :
    Int32.ofNat i + Int32.ofInt k = Int32.ofNat j := by
  rw [← Int32.ofInt_eq_ofNat, ← Int32.ofInt_eq_ofNat, ← Int32.ofInt_add, h]

lemma ofNat_sub_ofInt {i j : Nat} {k : Int} (h : i - k = j) :
    Int32.ofNat i - Int32.ofInt k = Int32.ofNat j := by
  rw [← Int32.ofInt_eq_ofNat, ← Int32.ofInt_eq_ofNat, ← Int32.ofInt_sub, h]

end SubrLang
