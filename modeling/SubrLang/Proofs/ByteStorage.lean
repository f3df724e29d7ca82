import SubrLang.Proofs.Execution

/-!
# Memory as storage of bytes

What the instructions that load and store integers do at every address, also below zero and across the
end of memory.

**Instructions.** `Exec.storing` and `Exec.loading` execute an instruction behind its operands.
`storing_eq` and `loading_eq` reduce them to `Memory.put` and `Memory.fetch`, with a fault where the bytes
do not all lie inside memory.

**Digits.** An integer is stored as its digits to the base 256 (`Memory.toNat_byte_put`), and a word is read
as the number that its four bytes are the digits of (`Memory.toInt_word`).
-/

namespace SubrLang

/-! ## Integers and their digits -/

namespace Memory

variable {m : Memory} {addr : Int32} {i n : Nat}

lemma holds_iff : m.holds addr n ↔ 0 ≤ addr.toInt ∧ addr.toInt + n ≤ m.size := by
  have hzero : (0 : Int32) ≤ addr ↔ 0 ≤ addr.toInt := Int32.le_iff_toInt_le
  have hnat : addr.toNatClampNeg = addr.toInt.toNat := rfl
  simp only [holds, Bool.and_eq_true, decide_eq_true_eq, hzero, hnat]
  omega

/-- A digit of an integer is one of the number that its word stands for. -/
lemma digit_toUInt32 (v : Int32) {k : Nat} (hk : k < 4) :
    ((v.toUInt32.toNat / 256 ^ k % 256 : Nat) : Int) = v.toInt / 256 ^ k % 256 := by
  have hlt := v.toUInt32.toNat_lt
  rw [Memory.toInt_eq_bmod, Int.bmod_def]
  interval_cases k <;> split <;> omega

lemma toInt_toUInt32 (b : UInt8) : b.toUInt32.toInt32.toInt = b.toNat := by
  have hlt := b.toNat_lt
  rw [← Int32.toInt_toBitVec, BitVec.toInt_eq_toNat_bmod]
  show ((b.toUInt32.toNat : Int)).bmod _ = _
  rw [UInt8.toNat_toUInt32, Int.bmod_def]
  split <;> omega

/-- A word is the number that its bytes are the digits of. -/
lemma toNat_word (m : Memory) (i : Nat) :
    (m.word i).toNat = ∑ k : Fin 4, 256 ^ (k : Nat) * (m.byte (i + k)).toNat := by
  have hbytes : (m.word i).toUInt8 = m.byte i ∧ (m.word i >>> 8).toUInt8 = m.byte (i + 1) ∧
      (m.word i >>> 16).toUInt8 = m.byte (i + 2) ∧ (m.word i >>> 24).toUInt8 = m.byte (i + 3) :=
    toUInt8_or_bytes _ _ _ _
  have hlt := (m.word i).toNat_lt
  simp only [← UInt8.toNat_inj, UInt32.toNat_toUInt8, UInt32.toNat_shiftRight,
    Nat.shiftRight_eq_div_pow] at hbytes
  simp only [Fin.sum_univ_four, Fin.val_zero, Fin.val_one, Fin.val_two, Nat.add_zero,
    show ((3 : Fin 4) : Nat) = 3 from rfl]
  simp at hbytes
  omega

end Memory

/-! ## Instructions -/

namespace Exec

/-- Executes a store behind an address and an integer. -/
def storing (img : Image) (s : Slot) (addr v : Int32) (m : Machine) : EStateM.Result Fault Machine Unit :=
  plain img s.storeOp (m.withWords [.int addr, .int v])

/-- Executes a load behind an address. -/
def loading (img : Image) (s : Slot) (addr : Int32) (m : Machine) : EStateM.Result Fault Machine Unit :=
  plain img s.loadOp (m.withWords [.int addr])

variable {s : Slot} (img : Image) (hs : s ≠ .double) (addr v : Int32) (m : Machine)
include hs

lemma storing_eq : storing img s addr v m =
    if m.memory.holds addr s.size then
      .ok () { m with memory := m.memory.put s addr.toNatClampNeg (.int v) }
    else .error (.badAddress addr) m := by
  have hpop (f : Int32 → Int32 → Exec Unit) : (do let b ← popInt; let a ← popInt; f b a)
      (m.withWords [.int addr, .int v]) = f v addr m := by
    rw [show [Word.int addr, .int v] = [.int addr] ++ [.int v] from rfl, m.withWords_append,
      bind_of_ok (popInt_withWords _ v), bind_of_ok (popInt_withWords _ addr)]
  cases s with
  | byte => exact hpop fun v addr => write addr 1 (·.setChar · v)
  | word => exact hpop fun v addr => write addr 4 (·.setInt · v)
  | double => exact absurd rfl hs

lemma loading_eq : loading img s addr m =
    if m.memory.holds addr s.size then push (m.memory.fetch s addr.toNatClampNeg) m
    else .error (.badAddress addr) m := by
  have hpop (f : Int32 → Exec Unit) : (do f (← popInt)) (m.withWords [.int addr]) = f addr m :=
    bind_of_ok (popInt_withWords _ addr)
  cases s with
  | byte =>
    refine (hpop fun addr => do pushInt (← access addr ((← get).memory.loadChar? addr))).trans ?_
    show (do pushInt (← access addr (m.memory.loadChar? addr)) : Exec Unit) m =
      if m.memory.holds addr 1 then _ else _
    unfold Memory.loadChar?
    split <;> rfl
  | word =>
    refine (hpop fun addr => do pushInt (← access addr ((← get).memory.loadInt? addr))).trans ?_
    show (do pushInt (← access addr (m.memory.loadInt? addr)) : Exec Unit) m =
      if m.memory.holds addr 4 then _ else _
    unfold Memory.loadInt?
    split <;> rfl
  | double => exact absurd rfl hs

end Exec

namespace Machine

/-- A load finds an integer and pushes it. -/
def Loads (img : Image) (m : Machine) (s : Slot) (addr v : Int32) : Prop :=
  ∃ m', Exec.loading img s addr m = .ok () m' ∧ m'.memory = m.memory ∧ m'.stack = m.stack.push (.int v)

/-- The machine after a store, whether it succeeds or not. -/
def stored (img : Image) (m : Machine) (s : Slot) (addr v : Int32) : Machine :=
  (Exec.plain img s.storeOp).after (m.withWords [.int addr, .int v])

variable {img : Image} {m m' : Machine} {s t : Slot} {addr addr' v v' : Int32}

lemma loads_iff (hs : s ≠ .double) : m.Loads img s addr v ↔
    m.memory.holds addr s.size ∧ m.memory.fetch s addr.toNatClampNeg = .int v := by
  rw [Loads, Exec.loading_eq img hs]
  constructor
  · rintro ⟨m', hm', -, hstack⟩
    split at hm'
    · next hin =>
      cases hm'
      exact ⟨hin, Array.push_inj_right.mp hstack⟩
    · cases hm'
  · rintro ⟨hin, hfetch⟩
    rw [if_pos hin, hfetch]
    exact ⟨_, rfl, rfl, rfl⟩

lemma storing_eq_ok_iff (hs : s ≠ .double) : Exec.storing img s addr v m = .ok () m' ↔
    m.memory.holds addr s.size ∧ m' = { m with memory := m.memory.put s addr.toNatClampNeg (.int v) } := by
  rw [Exec.storing_eq img hs]
  split
  · next hin => simp [hin, eq_comm]
  · next hin => simp [hin]

lemma stored_eq (hs : s ≠ .double) : m.stored img s addr v =
    if m.memory.holds addr s.size then { m with memory := m.memory.put s addr.toNatClampNeg (.int v) }
    else m := by
  have heq := Exec.storing_eq img hs addr v m
  rw [Exec.storing] at heq
  rw [stored, Exec.after, heq]
  by_cases hin : m.memory.holds addr s.size <;> simp [hin]

/-- The bytes of a store become the digits of the integer, and all others stay. -/
lemma byte_of_storing (hs : s ≠ .double) (h : Exec.storing img s addr v m = .ok () m') (i : Nat) :
    if addr.toInt ≤ i ∧ i < addr.toInt + s.size
    then ((m'.memory.byte i).toNat : Int) = v.toInt / 256 ^ (i - addr.toInt).toNat % 256
    else m'.memory.byte i = m.memory.byte i := by
  obtain ⟨hin, rfl⟩ := (storing_eq_ok_iff hs).mp h
  obtain ⟨hlow, hhigh⟩ := Memory.holds_iff.mp hin
  have hnat : addr.toNatClampNeg = addr.toInt.toNat := rfl
  split
  · next hi =>
    obtain ⟨k, rfl⟩ : ∃ k, i = addr.toNatClampNeg + k := ⟨i - addr.toNatClampNeg, by omega⟩
    have hk : k < s.size := by omega
    have hsize : s.size ≤ 4 := by cases s <;> simp_all [Slot.size]
    have hdigit : (((addr.toNatClampNeg + k : Nat) : Int) - addr.toInt).toNat = k := by omega
    have hinside : addr.toNatClampNeg + s.size ≤ m.memory.size := by omega
    rw [hdigit, ← Memory.digit_toUInt32 v (by omega), Memory.toNat_byte_put hs hinside hk]
  · exact Memory.byte_put_of_apart (by omega)

/-- Stores without a common byte can change places, also if one of them fails. -/
lemma stored_comm (hs : s ≠ .double) (ht : t ≠ .double)
    (h : addr.toInt + s.size ≤ addr'.toInt ∨ addr'.toInt + t.size ≤ addr.toInt) :
    (m.stored img s addr v).stored img t addr' v' = (m.stored img t addr' v').stored img s addr v := by
  have hkeep (i : Nat) (s : Slot) (w : Word) (a : Int32) (n : Nat) :
      (m.memory.put s i w).holds a n = m.memory.holds a n := by
    simp [Memory.holds]
  simp only [stored_eq hs, stored_eq ht]
  by_cases hin : m.memory.holds addr s.size <;> by_cases hin' : m.memory.holds addr' t.size
  · obtain ⟨hlow, hhigh⟩ := Memory.holds_iff.mp hin
    obtain ⟨hlow', hhigh'⟩ := Memory.holds_iff.mp hin'
    have hnat (a : Int32) : a.toNatClampNeg = a.toInt.toNat := rfl
    simp only [hin, hin', hkeep, if_true]
    rw [Memory.put_comm hs ht (by rw [hnat]; omega) (by rw [hnat]; omega) (by rw [hnat, hnat]; omega)]
  all_goals simp [hin, hin', hkeep]

/-- A load of a byte pushes it as a number from 0 to 255. -/
lemma loads_byte_iff : m.Loads img .byte addr v ↔ (0 ≤ addr.toInt ∧ addr.toInt + 1 ≤ m.memory.size) ∧
    v.toInt = (m.memory.byte addr.toNatClampNeg).toNat := by
  have hv (b : UInt8) : b.toUInt32.toInt32 = v ↔ v.toInt = b.toNat := by
    rw [← Int32.toInt_inj, Memory.toInt_toUInt32, eq_comm]
  rw [loads_iff (by decide), Memory.holds_iff]
  simp only [Memory.fetch, Word.int.injEq, hv]
  rfl

/-- A load of a word pushes the number that its bytes are the digits of, with the last bit as its sign. -/
lemma loads_word_iff : m.Loads img .word addr v ↔ (0 ≤ addr.toInt ∧ addr.toInt + 4 ≤ m.memory.size) ∧
    v.toInt = Int.bmod (∑ k : Fin 4, 256 ^ (k : Nat) *
      ((m.memory.byte (addr.toNatClampNeg + k)).toNat : Int)) (2 ^ 32) := by
  have hv (w : UInt32) : w.toInt32 = v ↔ v.toInt = Int.bmod w.toNat (2 ^ 32) := by
    rw [← Int32.toInt_inj, ← Int32.toInt_toBitVec, BitVec.toInt_eq_toNat_bmod, eq_comm]
    rfl
  rw [loads_iff (by decide), Memory.holds_iff]
  simp only [Memory.fetch, Word.int.injEq, hv, Memory.toNat_word]
  push_cast
  rfl

lemma loads_of_storing_word (h : Exec.storing img .word addr v m = .ok () m') :
    m'.Loads img .word addr v := by
  obtain ⟨hin, rfl⟩ := (storing_eq_ok_iff (by decide)).mp h
  have hinside : addr.toNatClampNeg + 4 ≤ m.memory.size := by
    simp only [Memory.holds, Bool.and_eq_true, decide_eq_true_eq] at hin
    exact hin.2
  refine (loads_iff (by decide)).mpr ⟨?_, Memory.fetch_put (s := .word) hinside trivial⟩
  simpa [Memory.holds] using hin

lemma loads_of_storing_byte (h : Exec.storing img .byte addr v m = .ok () m') :
    m'.Loads img .byte addr (Int32.ofInt (v.toInt % 256)) := by
  have hbyte := byte_of_storing (by decide) h addr.toNatClampNeg
  obtain ⟨hin, rfl⟩ := (storing_eq_ok_iff (by decide)).mp h
  obtain ⟨hlow, hhigh⟩ := Memory.holds_iff.mp hin
  have hnat : ((addr.toNatClampNeg : Nat) : Int) = addr.toInt := Int.toNat_of_nonneg hlow
  refine loads_byte_iff.mpr ⟨by simpa using ⟨hlow, hhigh⟩, ?_⟩
  rw [if_pos (by simp only [Slot.size]; omega), hnat, Int.sub_self] at hbyte
  rw [hbyte, Int32.toInt_ofInt_of_le (by simp; omega) (by simp; omega)]
  simp

/-- A word is loaded as the number that its bytes are loaded as the digits of. -/
lemma loads_word_iff_loads_bytes {place : Fin 4 → Int32} (hplace : ∀ k, (place k).toInt = addr.toInt + k) :
    m.Loads img .word addr v ↔ ∃ c : Fin 4 → Int32, (∀ k, m.Loads img .byte (place k) (c k)) ∧
      v.toInt = Int.bmod (∑ k : Fin 4, 256 ^ (k : Nat) * (c k).toInt) (2 ^ 32) := by
  have hbyte (hlow : 0 ≤ addr.toInt) (k : Fin 4) :
      (place k).toNatClampNeg = addr.toNatClampNeg + k := by
    have hnat (a : Int32) : a.toNatClampNeg = a.toInt.toNat := rfl
    rw [hnat, hnat, hplace k]
    omega
  simp only [loads_word_iff, loads_byte_iff]
  constructor
  · rintro ⟨⟨hlow, hhigh⟩, hv⟩
    refine ⟨fun k => (m.memory.byte (addr.toNatClampNeg + k)).toUInt32.toInt32, fun k => ⟨?_, ?_⟩, ?_⟩
    · have hk := k.isLt
      rw [hplace k]
      omega
    · rw [Memory.toInt_toUInt32, hbyte hlow]
    · simpa only [Memory.toInt_toUInt32] using hv
  · rintro ⟨c, hc, hv⟩
    have hfirst := (hc 0).1
    have hlast := (hc 3).1
    rw [hplace] at hfirst hlast
    simp at hfirst hlast
    refine ⟨by omega, ?_⟩
    simp only [(hc _).2, hbyte hfirst.1] at hv
    exact hv

end Machine

/-- **Memory is storage of bytes, with the low byte of an integer first.** -/
theorem Machine.memory_little_endian (img : Image) (m : Machine) (addr v : Int32) :
    (∀ s ≠ Slot.double,
      -- a store needs all of its bytes inside memory, which stays as it is otherwise
      ((∃ m', Exec.storing img s addr v m = .ok () m') ↔
        0 ≤ addr.toInt ∧ addr.toInt + s.size ≤ m.memory.size) ∧
      (∀ f m', Exec.storing img s addr v m = .error f m' →
        f = .badAddress addr ∧ m'.memory = m.memory) ∧
      -- its bytes become the digits of the integer, and all others stay
      (∀ m', Exec.storing img s addr v m = .ok () m' → m'.memory.size = m.memory.size ∧
        ∀ i : Nat, if addr.toInt ≤ i ∧ i < addr.toInt + s.size
          then ((m'.memory.byte i).toNat : Int) = v.toInt / 256 ^ (i - addr.toInt).toNat % 256
          else m'.memory.byte i = m.memory.byte i)) ∧
    -- what was stored is loaded
    (∀ m', Exec.storing img .word addr v m = .ok () m' → m'.Loads img .word addr v) ∧
    (∀ m', Exec.storing img .byte addr v m = .ok () m' →
      m'.Loads img .byte addr (Int32.ofInt (v.toInt % 256))) ∧
    -- a word is loaded as the signed number that its bytes are loaded as the digits of
    (∀ place : Fin 4 → Int32, (∀ k, (place k).toInt = addr.toInt + k) → ∀ w, m.Loads img .word addr w ↔
      ∃ c : Fin 4 → Int32, (∀ k, m.Loads img .byte (place k) (c k)) ∧
        w.toInt = Int.bmod (∑ k : Fin 4, 256 ^ (k : Nat) * (c k).toInt) (2 ^ 32)) ∧
    -- stores without a common byte can change places
    ∀ s ≠ Slot.double, ∀ t ≠ Slot.double, ∀ addr' v',
      (addr.toInt + s.size ≤ addr'.toInt ∨ addr'.toInt + t.size ≤ addr.toInt) →
        (m.stored img s addr v).stored img t addr' v' =
          (m.stored img t addr' v').stored img s addr v := by
  refine ⟨fun s hs => ⟨?_, ?_, ?_⟩, ?_, ?_, ?_, fun s hs t ht addr' v' h => stored_comm hs ht h⟩
  · simp only [storing_eq_ok_iff hs, ← Memory.holds_iff]
    simp
  · intro f m' hm'
    rw [Exec.storing_eq img hs] at hm'
    split at hm'
    · cases hm'
    · cases hm'
      exact ⟨rfl, rfl⟩
  · intro m' hm'
    refine ⟨?_, byte_of_storing hs hm'⟩
    obtain ⟨-, rfl⟩ := (storing_eq_ok_iff hs).mp hm'
    exact Memory.size_put _ _ _ _
  · exact fun m' => loads_of_storing_word
  · exact fun m' => loads_of_storing_byte
  · exact fun place hplace w => loads_word_iff_loads_bytes hplace

/-- In a memory of six bytes a word can be stored at address 2, where it is not aligned, but not at 3. -/
theorem Machine.memory_little_endian_unaligned :
    let img : Image := ⟨#[], [], .ofCode []⟩
    let m : Machine := { memory := ⟨⟨#[7, 7, 7, 7, 7, 7]⟩⟩ }
    (∃ m', Exec.storing img .word 2 (-2) m = .ok () m' ∧ m'.Loads img .word 2 (-2)) ∧
      ¬ ∃ m', Exec.storing img .word 3 (-2) m = .ok () m' := by
  intro img m
  have hat2 := memory_little_endian img m 2 (-2)
  have hat3 := memory_little_endian img m 3 (-2)
  obtain ⟨m', hm'⟩ := (hat2.1 .word (by decide)).1.mpr (by decide)
  refine ⟨⟨m', hm', hat2.2.1 m' hm'⟩, fun h => ?_⟩
  exact absurd ((hat3.1 .word (by decide)).1.mp h) (by decide)

end SubrLang
