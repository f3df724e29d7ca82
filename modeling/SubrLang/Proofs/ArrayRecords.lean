import SubrLang.Proofs.Allocator

/-!
# Records of new arrays

The code of `new [T](n)` asks the allocator for a block and fills in the header of the record.

**Size.** The number of bytes is computed as a word of 32 bits, `n` times the size of an element and 16 more.
Nothing looks at whether this is too large for a word. A record that fits the free heap is allocated as it
should be; one that does not is noticed if a word can hold its size. Otherwise the word may be that of a
small block, and the record claims more elements than it has bytes for (`Heap.arrayAlloc_allocates`).

**Header.** The four words are stored one after the other (`Heap.takes_header`), and the length is read from
the cell that it was kept in while the block was allocated.
-/

namespace SubrLang

open Code Lowering

namespace Heap

variable {P length : Code} {H : Heap P} {elem : Ty} {m m' : Memory} {base S total i k : Nat} {n w : Int32}
  {s : State} {st : List Word} {out : List UInt8}

/-! ## The header -/

lemma fetch_put_above {j : Nat} {v : Word} (h : i + 4 ≤ j) :
    (m.put .word j v).fetch .word i = m.fetch .word i :=
  Memory.fetch_put_of_apart (.inl h)

lemma takes_headerField {offset : Nat} {word : Code} (hin : m.Inside (base + offset) 4)
    (hword : ∀ st, Takes P word ⟨st, m, out⟩ ⟨.int w :: st, m, out⟩) :
    Takes P (headerField offset word) ⟨.address base :: st, m, out⟩
      ⟨.address base :: st, m.put .word (base + offset) (.int w), out⟩ := by
  have haddress : Takes P (if offset = 0 then [] else plus offset)
      ⟨.address base :: .address base :: st, m, out⟩
      ⟨.address (base + offset) :: .address base :: st, m, out⟩ := by
    split
    · next h =>
      subst h
      exact takes_nil _
    · exact takes_plus_address (Nat.cast_add base offset).symm
  exact (((takes_effect rfl).append haddress).append (hword _)).append (takes_storeOp .word hin trivial)

/-- The flags of an array are set if its elements are references. -/
def flags (elem : Ty) : Int32 := if elem.isReference then 4 else 0

/-- Memory with the header of a record filled in. -/
def headed (m : Memory) (base : Nat) (elem : Ty) (n : Int32) : Memory :=
  (((m.put .word base (.int 7)).put .word (base + 4) (.int (flags elem))).put .word (base + 8)
    (.int (Int32.ofNat elem.size))).put .word (base + 12) (.int n)

/-- The length is read from its cell, which lies in front of the heap. -/
lemma takes_header (hstart : H.start ≤ base) (hsize : base + 16 ≤ m.size) (hsmall : base + 16 ≤ 2 ^ 31)
    (hlength : m.fetch .word H.scratch = .int n) :
    Takes P (header elem (load Cell.array1)) ⟨.address base :: st, m, out⟩
      ⟨.address base :: st, headed m base elem n, out⟩ := by
  have hfree := H.scratch_free
  have hcursor := H.free_cursor
  have hcells := H.cursor_start
  have hpushFlags (st : List Word) (m : Memory) :
      Takes P (pushI (if elem.isReference then ArrayRecord.referenceFlag else 0)) ⟨st, m, out⟩
        ⟨.int (flags elem) :: st, m, out⟩ := by
    unfold flags
    split <;> exact takes_pushI _
  have hpushSize (st : List Word) (m : Memory) : Takes P (pushI elem.size) ⟨st, m, out⟩
      ⟨.int (Int32.ofNat elem.size) :: st, m, out⟩ := by
    rw [← Int32.ofInt_eq_ofNat]
    exact takes_pushI _
  have hin {j : Nat} (hj : j ≤ 12) (m' : Memory) (hm' : m'.size = m.size) : m'.Inside (base + j) 4 :=
    ⟨by omega, by omega⟩
  have hload : (((m.put .word base (.int 7)).put .word (base + 4) (.int (flags elem))).put .word (base + 8)
      (.int (Int32.ofNat elem.size))).fetch .word H.scratch = .int n := by
    rw [fetch_put_above (by omega), fetch_put_above (by omega), fetch_put_above (by omega), hlength]
  exact (((takes_headerField (hin (by decide) m rfl) fun st => takes_pushI 7).append
    (takes_headerField (hin (by decide) _ (by simp)) fun st => hpushFlags st _)).append
    (takes_headerField (hin (by decide) _ (by simp)) fun st => hpushSize st _)).append
    (takes_headerField (hin (by decide) _ (by simp)) fun st =>
      takes_load H.holds_scratch ⟨by omega, by simp only [Memory.size_put]; omega⟩ hload)

/-- A record of `total` bytes stands at `base`: its header says what the elements are and that there are `n`
of them, and what follows is zero. The free heap starts behind it. No byte has changed except in the record
and in three cells. -/
structure Recorded (H : Heap P) (m m' : Memory) (base total : Nat) (elem : Ty) (n : Int32) : Prop where
  tag : m'.fetch .word base = .int 7
  flags : m'.fetch .word (base + 4) = .int (if elem.isReference then 4 else 0)
  elemSize : m'.fetch .word (base + 8) = .int (Int32.ofNat elem.size)
  length : m'.fetch .word (base + 12) = .int n
  zero : ∀ j, base + 16 ≤ j → j < base + total → m'.byte j = 0
  free : m'.fetch .word H.free = .address (base + total)
  other : ∀ j, j < base ∨ base + total ≤ j → j < H.scratch ∨ H.scratch + 4 ≤ j →
    j < H.free ∨ H.free + 4 ≤ j → j < H.cursor ∨ H.cursor + 4 ≤ j → m'.byte j = m.byte j

lemma byte_headed {j : Nat} (hj : j < base ∨ base + 16 ≤ j) :
    (headed m base elem n).byte j = m.byte j := by
  rw [headed, Memory.byte_put_of_apart (by simp only [Slot.size]; omega),
    Memory.byte_put_of_apart (by simp only [Slot.size]; omega),
    Memory.byte_put_of_apart (by simp only [Slot.size]; omega),
    Memory.byte_put_of_apart (by simp only [Slot.size]; omega)]

/-- A block with a header in front is a record. -/
lemma Allocated.recorded (elem : Ty) {m₀ : Memory}
    (h : H.Allocated (m₀.put .word H.scratch (.int n)) m base total)
    (hstart : H.start ≤ base) (htotal : 16 ≤ total) (hsize : base + 16 ≤ m.size) :
    H.Recorded m₀ (headed m base elem n) base total elem n where
  tag := by
    rw [headed, fetch_put_above (by omega), fetch_put_above (by omega), fetch_put_above (by omega)]
    exact Memory.fetch_put (by simp only [Slot.size]; omega) trivial
  flags := by
    rw [headed, fetch_put_above (by omega), fetch_put_above (by omega)]
    exact Memory.fetch_put (by simp only [Slot.size, Memory.size_put]; omega) trivial
  elemSize := by
    rw [headed, fetch_put_above (by omega)]
    exact Memory.fetch_put (by simp only [Slot.size, Memory.size_put]; omega) trivial
  length := Memory.fetch_put (by simp only [Slot.size, Memory.size_put]; omega) trivial
  zero j hj hj' := by
    rw [byte_headed (.inr hj)]
    exact h.zero j (by omega) hj'
  free := by
    have hcursor := H.free_cursor
    have hcells := H.cursor_start
    rw [← h.free]
    refine Memory.fetch_congr fun b hb => byte_headed (.inl ?_)
    simp only [Slot.size] at hb
    omega
  other j hj hscratch hfree hcursor := by
    rw [byte_headed (by omega), h.other j hj hfree hcursor, Memory.byte_put_of_apart hscratch]

/-! ## The code of `new` -/

lemma Ready.put_scratch (hm : H.Ready m base S) (w : Word) : H.Ready (m.put .word H.scratch w) base S where
  start_le := hm.start_le
  le_stack := hm.le_stack
  inside := by
    rw [Memory.size_put]
    exact hm.inside
  small := hm.small
  free := by rw [Memory.fetch_put_of_apart (.inr H.scratch_free), hm.free]
  stack := by rw [Memory.fetch_put_of_apart (.inl H.sp_scratch), hm.stack]

lemma ofNat_mod (x : Nat) : Int32.ofNat (x % 2 ^ 32) = Int32.ofNat x := by
  apply Int32.toInt.inj
  rw [Int32.toInt_ofNat', Int32.toInt_ofNat', Int.natCast_emod]
  exact Int.emod_bmod _ _

/-- The word that the allocator is called with. -/
lemma ofNat_total (hk : n.toInt = k) (htotal : (16 + k * elem.size) % 2 ^ 32 = total) :
    n * Int32.ofInt elem.size + Int32.ofInt ArrayRecord.headerSize = Int32.ofNat total := by
  have hn : n = Int32.ofInt k := by rw [← hk, Int32.ofInt_toInt]
  have hword : n * Int32.ofInt elem.size + Int32.ofInt ArrayRecord.headerSize =
      Int32.ofInt (16 + k * elem.size : Nat) := by
    rw [hn, ← Int32.ofInt_mul, ← Int32.ofInt_add]
    congr 1
    simp only [ArrayRecord.headerSize]
    push_cast
    ring
  rw [hword, Int32.ofInt_eq_ofNat, ← htotal, ofNat_mod]

/-- The code in front of the call of the allocator. -/
def sizing (elem : Ty) (length : Code) : Code :=
  length ++ ops [.duplicate] ++ branch .jumpNeg Trap.indexOutOfBounds.label ++ store Cell.array1 ++
    load Cell.array1 ++ pushI elem.size ++ ops [.multiply] ++ plus ArrayRecord.headerSize

lemma arrayAlloc_eq (elem : Ty) (length : Code) : arrayAlloc elem length =
    sizing elem length ++ branch .call allocateLabel ++ header elem (load Cell.array1) := rfl

lemma takes_sizing (hm : H.Ready m base S) (hlength : Takes P length s ⟨.int n :: st, m, out⟩)
    (hk : n.toInt = k) (htotal : (16 + k * elem.size) % 2 ^ 32 = total) :
    Takes P (sizing elem length) s ⟨.address total :: st, m.put .word H.scratch (.int n), out⟩ := by
  have hcells := H.scratch_free
  have hcursor := H.free_cursor
  have hstart := H.cursor_start
  have hin : m.Inside H.scratch 4 := hm.cell_inside (by omega)
  have hnonneg : decide (n < 0) = false := by
    rw [decide_eq_false_iff_not, Int32.lt_iff_toInt_lt, hk]
    simp
  have hload : (m.put .word H.scratch (.int n)).fetch .word H.scratch = .int n :=
    Memory.fetch_put hin.2 trivial
  have hstored : Takes P (length ++ ops [.duplicate] ++ branch .jumpNeg Trap.indexOutOfBounds.label ++
      store Cell.array1) s ⟨st, m.put .word H.scratch (.int n), out⟩ :=
    ((hlength.append (takes_effect rfl)).append (takes_branch rfl hnonneg)).append
      (takes_store H.holds_scratch hin)
  rw [Word.address, ← ofNat_total hk htotal]
  exact (((hstored.append (takes_load H.holds_scratch (by simpa using hin) hload)).append
    (takes_pushI _)).append (takes_effect rfl)).append (takes_plus _)

/-- From the word that is asked for to the new record. -/
lemma Ready.reaches_recorded (hm : H.Ready m base S) (hlength : Takes P length s ⟨.int n :: st, m, out⟩)
    (hi : P.At i (arrayAlloc elem length)) (hk : n.toInt = k)
    (htotal : (16 + k * elem.size) % 2 ^ 32 = total) (hheader : 16 ≤ total) (hfits : base + total ≤ S) :
    ∃ m', H.Recorded m m' base total elem n ∧ Reaches P ⟨i, s⟩
      ⟨i + (arrayAlloc elem length).instrs.length, .address base :: st, m', out⟩ := by
  have hstart := hm.start_le
  have hinside := hm.inside
  have hsmall := hm.small
  have hcells := H.scratch_free
  have hcursor := H.free_cursor
  have hbehind := H.cursor_start
  rw [arrayAlloc_eq] at hi ⊢
  have hready := hm.put_scratch (.int n)
  have hreturn : i + (sizing elem length).instrs.length + 1 =
      i + (sizing elem length ++ branch .call allocateLabel).instrs.length := by
    rw [instrs_append, List.length_append, ← Nat.add_assoc]
    rfl
  have hle := hi.left.le
  obtain ⟨m', hallocated, hreaches⟩ :=
    hready.reaches_allocated (by omega) hfits (hreturn.le.trans hle) st out
  have hscratch : m'.fetch .word H.scratch = .int n := by
    rw [← Memory.fetch_put (m := m) (i := H.scratch) (s := .word) (w := .int n)
      (hm.cell_inside (by omega)).2 trivial]
    refine Memory.fetch_congr fun b hb => hallocated.other _ ?_ ?_ ?_ <;>
      (simp only [Slot.size] at hb; omega)
  have hsize : base + 16 ≤ m'.size := by
    rw [hallocated.size, Memory.size_put]
    omega
  refine ⟨_, hallocated.recorded elem hstart hheader hsize, ?_⟩
  have hcall : Reaches P _ ⟨H.routine, _ :: .address total :: st, m.put .word H.scratch (.int n), out⟩ :=
    ⟨1, hi.left.right.steps_call H.numbered H.marks_routine⟩
  have hfront := (takes_sizing hm hlength hk htotal _ hi.left.left).trans (hcall.trans hreaches)
  rw [hreturn] at hfront
  exact hfront.trans ((takes_header hstart hsize (by omega) hscratch).behind hi)

/-- **New arrays.** The code of `new [T](n)` is started in a state in which its length leaves `n` and the free
heap lies between `base` and `S`. If `n` is negative, it comes to the trap for bad indices. If the record fits
the free heap, it leaves the address of the record, whose header and elements are as they should be, and
the free heap starts behind it. Otherwise all depends on the word of the size. If it is that of a block that
does not fit either, as it is if a word can hold the size, the code comes to the trap for a full heap, and
only the cell that keeps the length has changed. But if it is that of a smaller block that fits, the code
leaves a record that says it has `n` elements, and only that block has been allocated. -/
theorem arrayAlloc_allocates (H : Heap P) (hm : H.Ready m base S)
    (hlength : Takes P length s ⟨.int n :: st, m, out⟩) (hi : P.At i (arrayAlloc elem length)) :
    (n.toInt < 0 → Reaches P ⟨i, s⟩ ⟨H.bounds, .int n :: st, m, out⟩) ∧
    ∀ k : Nat, n.toInt = k →
      (base + (16 + k * elem.size) ≤ S → ∃ m', H.Recorded m m' base (16 + k * elem.size) elem n ∧
        Reaches P ⟨i, s⟩ ⟨i + (arrayAlloc elem length).instrs.length, .address base :: st, m', out⟩) ∧
      (∀ total < 2 ^ 31, (16 + k * elem.size) % 2 ^ 32 = total → S < base + total → ∃ st',
        Reaches P ⟨i, s⟩ ⟨H.full, st', m.put .word H.scratch (.int n), out⟩) ∧
      ∀ total < 16 + k * elem.size, (16 + k * elem.size) % 2 ^ 32 = total → 16 ≤ total →
        base + total ≤ S → ∃ m', H.Recorded m m' base total elem n ∧
          Reaches P ⟨i, s⟩ ⟨i + (arrayAlloc elem length).instrs.length, .address base :: st, m', out⟩ := by
  have hsmall := hm.small
  refine ⟨fun hneg => ?_, fun k hk =>
    ⟨fun hfits => ?_, fun total hword htotal hfull => ?_, fun total _ htotal => ?_⟩⟩
  · have hjump : decide (n < 0) = true := by
      rw [decide_eq_true_iff, Int32.lt_iff_toInt_lt]
      exact hneg
    have hfront := hi.left.left.left.left.left.left.left
    have hdup : Takes P (ops [.duplicate]) ⟨.int n :: st, m, out⟩ ⟨.int n :: .int n :: st, m, out⟩ :=
      takes_effect rfl
    exact ((hlength.append hdup) _ hfront.left).trans
      ⟨1, hfront.right.steps_branch H.numbered rfl H.marks_bounds hjump⟩
  · exact hm.reaches_recorded hlength hi hk (Nat.mod_eq_of_lt (by omega)) (by omega) hfits
  · rw [arrayAlloc_eq] at hi
    have hsized := takes_sizing hm hlength hk htotal _ hi.left.left
    exact ⟨_, hsized.trans (.trans ⟨1, hi.left.right.steps_call H.numbered H.marks_routine⟩
      ((hm.put_scratch _).reaches_full hword hfull))⟩
  · exact hm.reaches_recorded hlength hi hk htotal

/-! ### A record that is too small -/

namespace TooSmall

def three : Code := arrayAlloc .integer (pushI 3)

/-- As many elements as make the number of their bytes `2 ^ 32`. -/
def many : Code := arrayAlloc .integer (pushI 1073741824)

def program : Code :=
  three ++ many ++ ops [.halt] ++ label Trap.indexOutOfBounds.label ++
    label Trap.heapExhausted.label ++ ops [.halt] ++ Environment.wordCell Cell.stackPointer ++
    Environment.wordCell Cell.array1 ++ Environment.heap

/-- Sixty-four bytes, with the call stack at their end. -/
def memory : Memory :=
  ((Memory.mk ⟨Array.replicate 64 0⟩).put .word 8 (.address 16)).put .word 0 (.address 64)

/-- The cells lie one after the other in front of the heap. -/
lemma exists_ready : ∃ H : Heap program, H.free = 8 ∧ H.Ready memory 16 64 := by
  refine ⟨{
    numbered := { assemblable := ⟨by decide, by decide, by decide⟩, short := by decide }
    sp := 0
    scratch := 4
    free := 8
    cursor := 12
    start := 16
    routine := (three ++ many ++ ops [.halt] ++ ops [.halt]).instrs.length
    full := (three ++ many ++ ops [.halt]).instrs.length
    bounds := (three ++ many ++ ops [.halt]).instrs.length
    holds_sp := by decide
    holds_scratch := by decide
    holds_free := by decide
    holds_cursor := by decide
    holds_start := by decide
    at_routine := (at_self program).right
    marks_full := ⟨by decide, by decide⟩
    marks_bounds := ⟨by decide, by decide⟩
    sp_scratch := by decide
    scratch_free := by decide
    free_cursor := by decide
    cursor_start := by decide }, rfl, ?_⟩
  exact ⟨by decide, by decide, by decide, by decide, by decide, by decide⟩

end TooSmall

open TooSmall in
/-- Three elements take 28 bytes with their header. The record of `2 ^ 30` elements takes 16. -/
theorem arrayAlloc_allocates_tooSmall : ∃ H : Heap program, H.free = 8 ∧
    (∃ m', H.Recorded memory m' 16 28 .integer 3 ∧
      Reaches program ⟨0, [], memory, []⟩ ⟨three.instrs.length, [.address 16], m', []⟩) ∧
    ∃ m', H.Recorded memory m' 16 16 .integer 1073741824 ∧
      Reaches program ⟨three.instrs.length, [], memory, []⟩
        ⟨three.instrs.length + many.instrs.length, [.address 16], m', []⟩ := by
  obtain ⟨H, hfree, hready⟩ := exists_ready
  have hboth : program.At 0 (three ++ many) := (at_self program).left.left.left.left.left.left.left
  have hpush (n : Int) : Takes program (pushI n) ⟨[], memory, []⟩ ⟨[.int (Int32.ofInt n)], memory, []⟩ :=
    takes_pushI n
  obtain ⟨hthree, -⟩ := (arrayAlloc_allocates H hready (hpush 3) hboth.left).2 3 rfl
  obtain ⟨-, -, hmany⟩ :=
    (arrayAlloc_allocates H hready (hpush 1073741824) hboth.right).2 1073741824 rfl
  obtain ⟨m₁, hrecorded₁, hreaches₁⟩ := hthree (by decide)
  obtain ⟨m₂, hrecorded₂, hreaches₂⟩ := hmany 16 (by decide) rfl le_rfl (by decide)
  rw [Nat.zero_add] at hreaches₁ hreaches₂
  exact ⟨H, hfree, ⟨m₁, hrecorded₁, hreaches₁⟩, m₂, hrecorded₂, hreaches₂⟩

end Heap

end SubrLang
