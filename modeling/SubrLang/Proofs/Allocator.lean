import SubrLang.Proofs.ScalarPrograms

/-!
# The allocator

The routine that allocates records takes a block from the start of the free heap and clears it.

**Places.** `Heap P` are the places of the cells and of the routine in a program. Every program that is laid
out has them (`Program.nonempty_heap`). `Heap.Ready` says where the free heap starts and where it ends: at
the call stack.

**The check.** The routine compares addresses by the sign of a difference. The end of the new block may be
too large for an address, but as the block starts below the call stack the difference is not too large for
a word (`Heap.sub_pos_iff`).

**The loop.** It ends when two cells hold the same address. `Heap.reaches_cleared` goes by induction on the
number of bytes that are left.
-/

namespace SubrLang

open Code

/-! ## Places -/

/-- The places that allocating an array works with: the cells, in the order in which they are laid out, the
start of the heap behind them, the routine and two traps. -/
structure Heap (P : Code) where
  numbered : P.Numbered
  sp : Nat
  scratch : Nat
  free : Nat
  cursor : Nat
  start : Nat
  routine : Nat
  full : Nat
  bounds : Nat
  holds_sp : P.Holds Cell.stackPointer sp
  holds_scratch : P.Holds Cell.array1 scratch
  holds_free : P.Holds Cell.heapNextFree free
  holds_cursor : P.Holds Cell.heapCursor cursor
  holds_start : P.Holds Cell.heapStart start
  at_routine : P.At routine Environment.heap
  marks_full : P.Marks Trap.heapExhausted.label full
  marks_bounds : P.Marks Trap.indexOutOfBounds.label bounds
  sp_scratch : sp + 4 ≤ scratch
  scratch_free : scratch + 4 ≤ free
  free_cursor : free + 4 ≤ cursor
  cursor_start : cursor + 4 ≤ start

namespace Heap

/-- The free heap is what lies between the addresses `base` and `S`. -/
structure Ready {P : Code} (H : Heap P) (m : Memory) (base S : Nat) : Prop where
  start_le : H.start ≤ base
  le_stack : base ≤ S
  inside : S ≤ m.size
  small : S < 2 ^ 31
  free : m.fetch .word H.free = .address base
  stack : m.fetch .word H.sp = .address S

/-- The bytes from `a` to `b` are cleared, and no other byte has changed except in the cell of the loop. -/
structure Cleared {P : Code} (H : Heap P) (m m' : Memory) (a b : Nat) : Prop where
  size : m'.size = m.size
  zero : ∀ i, a ≤ i → i < b → m'.byte i = 0
  other : ∀ i, i < a ∨ b ≤ i → i < H.cursor ∨ H.cursor + 4 ≤ i → m'.byte i = m.byte i

/-- A block of `n` bytes was taken from the start of the free heap and cleared. No other byte has changed
except in the two cells of the routine. -/
structure Allocated {P : Code} (H : Heap P) (m m' : Memory) (base n : Nat) : Prop where
  size : m'.size = m.size
  free : m'.fetch .word H.free = .address (base + n)
  zero : ∀ i, base ≤ i → i < base + n → m'.byte i = 0
  other : ∀ i, i < base ∨ base + n ≤ i → i < H.free ∨ H.free + 4 ≤ i →
    i < H.cursor ∨ H.cursor + 4 ≤ i → m'.byte i = m.byte i

/-! ## The routine -/

/-- Leaves, above the address of the new block, its end and how far that lies above the stack pointer. -/
def question : Code :=
  ops [.exchange] ++ load Cell.heapNextFree ++ ops [.exchange] ++ load Cell.heapNextFree ++
    ops [.add, .duplicate] ++ load Cell.stackPointer ++ ops [.subtract]

/-- Sets the start of the free heap to the end of the new block, and the cell of the loop to its start. -/
def claim : Code := store Cell.heapNextFree ++ ops [.duplicate] ++ store Cell.heapCursor

/-- The question of the loop: how far is its cell from the end of the block? -/
def distance : Code := load Cell.heapCursor ++ load Cell.heapNextFree ++ ops [.subtract]

/-- Clears one byte and goes to the next. -/
def clearOne : Code :=
  load Cell.heapCursor ++ pushI 0 ++ ops [.storeC] ++
    (pushD Cell.heapCursor ++ load Cell.heapCursor ++ plus 1 ++ ops [.storeI])

/-- The loop that clears the new block. -/
def clearing : Code :=
  label Environment.zeroLoop ++ distance ++ branch .jumpFalse Environment.zeroDone ++ clearOne ++
    jump Environment.zeroLoop ++ label Environment.zeroDone

def routineCode : Code :=
  label allocateLabel ++ question ++ branch .jumpPos Trap.heapExhausted.label ++ claim ++ clearing ++
    ops [.exchange, .return]

lemma heap_eq : Environment.heap =
    (Environment.wordCell Cell.heapNextFree ++ Environment.wordCell Cell.heapCursor) ++
      (routineCode ++ one (.label .dlabel Cell.heapStart)) := by
  unfold Environment.heap routineCode question claim clearing distance clearOne
  simp only [List.append_assoc]

variable {P : Code} {H : Heap P} {m : Memory} {base S n i j r : Nat} {st : List Word} {out : List UInt8}

lemma at_routineCode (H : Heap P) : P.At H.routine routineCode := by
  have hcells : (Environment.wordCell Cell.heapNextFree ++
      Environment.wordCell Cell.heapCursor).instrs.length = 0 := by decide
  have h := H.at_routine
  rw [heap_eq] at h
  have hroutine := h.right.left
  rwa [hcells, Nat.add_zero] at hroutine

lemma marks_routine (H : Heap P) : P.Marks allocateLabel H.routine :=
  H.at_routineCode.left.left.left.left.left.marks H.numbered

/-! ### The check -/

/-- The end of a block compared with an address that is not below its start. -/
lemma sub_pos_iff (hbase : base ≤ S) (hS : S < 2 ^ 31) (hn : n < 2 ^ 31) :
    0 < Int32.ofNat (base + n) - Int32.ofNat S ↔ S < base + n := by
  have hdifference : Int32.ofNat (base + n) - Int32.ofNat S = Int32.ofInt ((base + n : Nat) - S) := by
    rw [← Int32.ofInt_eq_ofNat, ← Int32.ofInt_eq_ofNat, Int32.ofInt_sub]
  rw [hdifference, Int32.lt_iff_toInt_lt, Int32.toInt_ofInt_of_le (by simp; omega) (by simp; omega)]
  simp
  omega

namespace Ready

variable (hm : H.Ready m base S)
include hm

lemma cell_inside (hi : i + 4 ≤ H.start) : m.Inside i 4 := by
  have hstart := hm.start_le
  have hbase := hm.le_stack
  have hsize := hm.inside
  have hsmall := hm.small
  exact ⟨by omega, by omega⟩

lemma takes_loadFree : Takes P (load Cell.heapNextFree) ⟨st, m, out⟩ ⟨.address base :: st, m, out⟩ := by
  have hcursor := H.free_cursor
  have hstart := H.cursor_start
  exact takes_load H.holds_free (hm.cell_inside (by omega)) hm.free

lemma takes_loadStack : Takes P (load Cell.stackPointer) ⟨st, m, out⟩ ⟨.address S :: st, m, out⟩ := by
  have hscratch := H.sp_scratch
  have hfree := H.scratch_free
  have hcursor := H.free_cursor
  have hstart := H.cursor_start
  exact takes_load H.holds_sp (hm.cell_inside (by omega)) hm.stack

lemma takes_question : Takes P question ⟨.address r :: .address n :: st, m, out⟩
    ⟨.int (Int32.ofNat (base + n) - Int32.ofNat S) :: .address (base + n) :: .address base ::
      .address r :: st, m, out⟩ := by
  have hsum : Int32.ofNat n + Int32.ofNat base = Int32.ofNat (base + n) := by
    rw [Nat.add_comm, Int32.ofNat_add]
  have hadd : Takes P (ops [.add, .duplicate])
      ⟨.address base :: .address n :: .address base :: .address r :: st, m, out⟩
      ⟨.address (base + n) :: .address (base + n) :: .address base :: .address r :: st, m, out⟩ := by
    have hsum' : Takes P (ops [.add])
        ⟨.address base :: .address n :: .address base :: .address r :: st, m, out⟩
        ⟨.address (base + n) :: .address base :: .address r :: st, m, out⟩ :=
      takes_effect (congrArg (fun v => some (Word.int v :: _)) hsum)
    exact takes_ops_cons hsum' (takes_effect rfl)
  exact ((((((takes_effect rfl).append hm.takes_loadFree).append (takes_effect rfl)).append
    hm.takes_loadFree).append hadd).append hm.takes_loadStack).append (takes_effect rfl)

/-- A block that would reach into the call stack is a trap, and nothing has changed. -/
lemma reaches_full (hn : n < 2 ^ 31) (hfull : S < base + n) :
    Reaches P ⟨H.routine, .address r :: .address n :: st, m, out⟩
      ⟨H.full, .address (base + n) :: .address base :: .address r :: st, m, out⟩ := by
  have hi := H.at_routineCode.left.left.left
  have hpos : decide (0 < Int32.ofNat (base + n) - Int32.ofNat S) = true := by
    rw [decide_eq_true_iff, sub_pos_iff hm.le_stack hm.small hn]
    exact hfull
  exact (((takes_label _ _).append hm.takes_question) _ hi.left).trans
    ⟨1, hi.right.steps_branch H.numbered rfl H.marks_full hpos⟩

end Ready

/-! ### The loop -/

/-- The loop is at the byte `i` of a block that ends at `stop`. -/
structure Clearing (H : Heap P) (m : Memory) (i stop : Nat) : Prop where
  start_le : H.start ≤ i
  le_stop : i ≤ stop
  inside : stop ≤ m.size
  small : stop < 2 ^ 31
  cursor : m.fetch .word H.cursor = .address i
  free : m.fetch .word H.free = .address stop

/-- Memory after the loop has cleared the byte `i`. -/
def clearedOne (H : Heap P) (m : Memory) (i : Nat) : Memory :=
  (m.put .byte i (.int 0)).put .word H.cursor (.address (i + 1))

lemma byte_clearedOne_self (h : H.start ≤ i) (hi : i < m.size) : (H.clearedOne m i).byte i = 0 := by
  have hstart := H.cursor_start
  rw [clearedOne, Memory.byte_put_of_apart (.inr (by simp only [Slot.size]; omega))]
  exact Memory.byte_setByte_self _ hi

lemma byte_clearedOne_of_ne (h : j ≠ i) (hcursor : j < H.cursor ∨ H.cursor + 4 ≤ j) :
    (H.clearedOne m i).byte j = m.byte j := by
  rw [clearedOne, Memory.byte_put_of_apart hcursor,
    Memory.byte_put_of_apart (by simp only [Slot.size]; omega)]

namespace Clearing

variable {stop : Nat} (h : H.Clearing m i stop)
include h

lemma cell_inside (hj : j + 4 ≤ H.start) : m.Inside j 4 := by
  have hstart := h.start_le
  have hstop := h.le_stop
  have hsize := h.inside
  have hsmall := h.small
  exact ⟨by omega, by omega⟩

lemma takes_loadCursor : Takes P (load Cell.heapCursor) ⟨st, m, out⟩ ⟨.address i :: st, m, out⟩ :=
  takes_load H.holds_cursor (h.cell_inside H.cursor_start) h.cursor

lemma takes_distance : Takes P distance ⟨st, m, out⟩
    ⟨.int (Int32.ofNat i - Int32.ofNat stop) :: st, m, out⟩ := by
  have hfree := H.free_cursor
  have hstart := H.cursor_start
  exact (h.takes_loadCursor.append (takes_load H.holds_free (h.cell_inside (by omega)) h.free)).append
    (takes_effect rfl)

lemma sub_beq_zero : (Int32.ofNat i - Int32.ofNat stop == 0) = decide (i = stop) := by
  have hstop := h.le_stop
  have hsmall := h.small
  exact Globals.ofNat_sub_beq_zero (by omega) hsmall

lemma takes_clearOne (hi : i < stop) :
    Takes P clearOne ⟨st, m, out⟩ ⟨st, H.clearedOne m i, out⟩ := by
  have hstart := h.start_le
  have hsize := h.inside
  have hsmall := h.small
  have hcursor := H.cursor_start
  have hbyte : Takes P (load Cell.heapCursor ++ pushI 0 ++ ops [.storeC]) ⟨st, m, out⟩
      ⟨st, m.put .byte i (.int 0), out⟩ :=
    (h.takes_loadCursor.append (takes_pushI 0)).append
      (takes_storeOp .byte ⟨by omega, by simp only [Slot.size]; omega⟩ (by decide))
  have hin : (m.put .byte i (.int 0)).Inside H.cursor 4 := by
    rw [Memory.inside_put]
    exact h.cell_inside hcursor
  have hload : (m.put .byte i (.int 0)).fetch .word H.cursor = .address i := by
    rw [Memory.fetch_put_of_apart (.inl (by simp only [Slot.size]; omega)), h.cursor]
  exact hbyte.append ((((takes_pushD_address H.holds_cursor).append
    (takes_load H.holds_cursor hin hload)).append (takes_plus_address (Nat.cast_succ i).symm)).append
    (takes_storeOp .word hin trivial))

/-- What one turn of the loop keeps. -/
lemma next (hi : i < stop) : H.Clearing (H.clearedOne m i) (i + 1) stop where
  start_le := h.start_le.trans (Nat.le_succ i)
  le_stop := hi
  inside := by simpa [clearedOne] using h.inside
  small := h.small
  cursor := by
    refine Memory.fetch_put ?_ trivial
    rw [Memory.size_put]
    exact (h.cell_inside H.cursor_start).2
  free := by
    have hcells := H.free_cursor
    have hcursor := H.cursor_start
    have hstart := h.start_le
    rw [clearedOne, Memory.fetch_put_of_apart (.inl hcells),
      Memory.fetch_put_of_apart (.inl (by simp only [Slot.size]; omega)), h.free]

end Clearing

/-- The loop clears what is left of the block. The induction is on the number of bytes that are left. -/
lemma reaches_cleared (hj : P.At j clearing) (st : List Word) (out : List UInt8) :
    ∀ {k i : Nat} {m : Memory}, H.Clearing m i (i + k) → ∃ m', H.Cleared m m' i (i + k) ∧
      Reaches P ⟨j, st, m, out⟩ ⟨j + clearing.instrs.length, st, m', out⟩ := by
  have hloop := hj.left.left.left.left.left.marks H.numbered
  have hdone := hj.marks_behind H.numbered
  intro k
  induction k with
  | zero =>
    intro i m h
    refine ⟨m, ⟨rfl, by omega, fun _ _ _ => rfl⟩, ?_⟩
    have hzero : (Int32.ofNat i - Int32.ofNat (i + 0) == 0) = true := by
      rw [h.sub_beq_zero]
      simp
    exact (((takes_label _ _).append h.takes_distance) _ hj.left.left.left.left).trans
      ⟨1, hj.left.left.left.right.steps_branch H.numbered rfl hdone hzero⟩
  | succ k ih =>
    intro i m h
    have hstop : i + (k + 1) = i + 1 + k := by omega
    obtain ⟨m', hcleared, hrest⟩ := ih (hstop ▸ h.next (by omega))
    refine ⟨m', ⟨?_, ?_, ?_⟩, ?_⟩
    · rw [hcleared.size]
      simp [clearedOne]
    · intro b hb hb'
      rcases Nat.eq_or_lt_of_le hb with rfl | hb
      · have hcursor := H.cursor_start
        have hstart := h.start_le
        have hsize := h.inside
        rw [hcleared.other i (.inl (by omega)) (.inr (by omega)), byte_clearedOne_self hstart (by omega)]
      · exact hcleared.zero b hb (by omega)
    · intro b hb hcursor
      rw [hcleared.other b (by omega) hcursor, byte_clearedOne_of_ne (by omega) hcursor]
    · have hne : (Int32.ofNat i - Int32.ofNat (i + (k + 1)) == 0) = false := by
        rw [h.sub_beq_zero]
        simp
      have hpass : Takes P (branch .jumpFalse Environment.zeroDone)
          ⟨.int (Int32.ofNat i - Int32.ofNat (i + (k + 1))) :: st, m, out⟩ ⟨st, m, out⟩ :=
        takes_branch rfl hne
      have hturn := (((takes_label Environment.zeroLoop _).append h.takes_distance).append hpass).append
        (h.takes_clearOne (by omega))
      exact ((hturn _ hj.left.left).trans ⟨1, hj.left.right.steps_jump H.numbered hloop _⟩).trans hrest

/-! ### Allocating -/

/-- Memory when the new block has been claimed and nothing of it is cleared yet. -/
def claimed (H : Heap P) (m : Memory) (base n : Nat) : Memory :=
  (m.put .word H.free (.address (base + n))).put .word H.cursor (.address base)

namespace Ready

variable (hm : H.Ready m base S)
include hm

lemma takes_claim : Takes P claim ⟨.address (base + n) :: .address base :: st, m, out⟩
    ⟨.address base :: st, H.claimed m base n, out⟩ := by
  have hcells := H.free_cursor
  have hstart := H.cursor_start
  have hfree : m.Inside H.free 4 := hm.cell_inside (by omega)
  have hcursor : (m.put .word H.free (.address (base + n))).Inside H.cursor 4 := by
    rw [Memory.inside_put]
    exact hm.cell_inside hstart
  exact ((takes_store H.holds_free hfree).append (takes_effect rfl)).append
    (takes_store H.holds_cursor hcursor)

lemma clearing_claimed (hfits : base + n ≤ S) : H.Clearing (H.claimed m base n) base (base + n) where
  start_le := hm.start_le
  le_stop := Nat.le_add_right _ _
  inside := by
    rw [claimed, Memory.size_put, Memory.size_put]
    exact hfits.trans hm.inside
  small := hfits.trans_lt hm.small
  cursor := by
    refine Memory.fetch_put ?_ trivial
    rw [Memory.size_put]
    exact (hm.cell_inside H.cursor_start).2
  free := by
    have hcells := H.free_cursor
    have hstart := H.cursor_start
    rw [claimed, Memory.fetch_put_of_apart (.inl hcells)]
    exact Memory.fetch_put (hm.cell_inside (by omega)).2 trivial

lemma allocated_of_cleared {m' : Memory} (hfits : base + n ≤ S)
    (h : H.Cleared (H.claimed m base n) m' base (base + n)) : H.Allocated m m' base n where
  size := by rw [h.size, claimed, Memory.size_put, Memory.size_put]
  free := by
    have hcells := H.free_cursor
    have hstart := H.cursor_start
    have hbase := hm.start_le
    rw [← (hm.clearing_claimed hfits).free]
    refine Memory.fetch_congr fun k hk => h.other _ ?_ ?_
    · simp only [Slot.size] at hk
      omega
    · simp only [Slot.size] at hk
      omega
  zero := h.zero
  other i hi hfree hcursor := by
    rw [h.other i hi hcursor, claimed, Memory.byte_put_of_apart hcursor, Memory.byte_put_of_apart hfree]

/-- A block that fits is taken from the start of the free heap. -/
lemma reaches_allocated (hn : n < 2 ^ 31) (hfits : base + n ≤ S) (hr : r ≤ P.instrs.length)
    (st : List Word) (out : List UInt8) : ∃ m', H.Allocated m m' base n ∧
      Reaches P ⟨H.routine, .address r :: .address n :: st, m, out⟩ ⟨r, .address base :: st, m', out⟩ := by
  have hi := H.at_routineCode
  have hpass : decide (0 < Int32.ofNat (base + n) - Int32.ofNat S) = false := by
    rw [decide_eq_false_iff_not, sub_pos_iff hm.le_stack hm.small hn]
    omega
  have hclaim : Takes P (label allocateLabel ++ question ++
      branch .jumpPos Trap.heapExhausted.label ++ claim) ⟨.address r :: .address n :: st, m, out⟩
      ⟨.address base :: .address r :: st, H.claimed m base n, out⟩ :=
    (((takes_label _ _).append hm.takes_question).append (takes_branch rfl hpass)).append hm.takes_claim
  obtain ⟨m', hcleared, hloop⟩ := reaches_cleared hi.left.right (.address base :: .address r :: st) out
    (hm.clearing_claimed hfits)
  have hswap : Takes P (ops [.exchange]) ⟨.address base :: .address r :: st, m', out⟩
      ⟨.address r :: .address base :: st, m', out⟩ := takes_effect rfl
  have hback : P.At _ (ops [.exchange] ++ ops [.return]) := hi.right
  rw [Nat.add_assoc, ← List.length_append, ← instrs_append] at hloop
  refine ⟨m', hm.allocated_of_cleared hfits hcleared, ?_⟩
  exact (hclaim _ hi.left.left).trans (hloop.trans ((hswap _ hback.left).trans
    ⟨1, hback.right.steps_return H.numbered hr⟩))

end Ready

/-- **Allocating.** The routine is called for `n` bytes, with the number of the instruction to go back to on
top of the operand stack. If the free heap has fewer bytes, the run comes to the trap for a full heap with
memory as it was. Otherwise it is back at that instruction with the address of the block on the operand
stack: the block is what was the start of the free heap, its bytes are zero, the free heap starts behind
it, and no other byte has changed except in the cell of the loop. -/
theorem routine_allocates (H : Heap P) (hm : H.Ready m base S) {size : Int32} (hn : size.toInt = n)
    (hr : r ≤ P.instrs.length) (st : List Word) (out : List UInt8) :
    (S - base < n → ∃ st', Reaches P ⟨H.routine, .address r :: .int size :: st, m, out⟩
      ⟨H.full, st', m, out⟩) ∧
    (n ≤ S - base → ∃ m', H.Allocated m m' base n ∧
      Reaches P ⟨H.routine, .address r :: .int size :: st, m, out⟩ ⟨r, .address base :: st, m', out⟩) := by
  have hle := hm.le_stack
  have hsmall : n < 2 ^ 31 := by
    have hlt := size.toInt_lt
    omega
  obtain rfl : size = Int32.ofNat n := by rw [← Int32.ofInt_eq_ofNat, ← hn, Int32.ofInt_toInt]
  refine ⟨fun hfull => ?_, fun hfits => ?_⟩
  · exact ⟨_, hm.reaches_full hsmall (by omega)⟩
  · exact hm.reaches_allocated hsmall (by omega) hr st out

/-! ### A heap of eight bytes -/

namespace EightBytes

def program : Code :=
  ops [.halt] ++ label Trap.indexOutOfBounds.label ++ label Trap.heapExhausted.label ++ ops [.halt] ++
    Environment.wordCell Cell.stackPointer ++ Environment.wordCell Cell.array1 ++ Environment.heap

/-- Twenty-four bytes, none of which is zero but in the cells. The call stack is at their end. -/
def memory : Memory :=
  ((Memory.mk ⟨Array.replicate 24 255⟩).put .word 8 (.address 16)).put .word 0 (.address 24)

lemma exists_ready : ∃ H : Heap program, H.routine = 2 ∧ H.full = 1 ∧ H.Ready memory 16 24 := by
  refine ⟨{
    numbered := { assemblable := ⟨by decide, by decide, by decide⟩, short := by decide }
    sp := 0
    scratch := 4
    free := 8
    cursor := 12
    start := 16
    routine := 2
    full := 1
    bounds := 1
    holds_sp := by decide
    holds_scratch := by decide
    holds_free := by decide
    holds_cursor := by decide
    holds_start := by decide
    at_routine := (at_self program).right
    marks_full := ⟨by decide, by decide⟩
    marks_bounds := ⟨by decide, by decide⟩
    sp_scratch := by decide
    scratch_free := by decide
    free_cursor := by decide
    cursor_start := by decide }, rfl, rfl, ?_⟩
  exact ⟨by decide, by decide, by decide, by decide, by decide, by decide⟩

end EightBytes

open EightBytes in
/-- Eight bytes are all there are; nine are too many. -/
theorem routine_allocates_eightBytes : ∃ H : Heap program,
    (∃ st, Reaches program ⟨2, [.address 0, .int 9], memory, []⟩ ⟨1, st, memory, []⟩) ∧
    ∃ m', H.Allocated memory m' 16 8 ∧
      Reaches program ⟨2, [.address 0, .int 8], memory, []⟩ ⟨0, [.address 16], m', []⟩ := by
  obtain ⟨H, hroutine, hfull, hready⟩ := exists_ready
  have hnine := (routine_allocates H hready (show (9 : Int32).toInt = (9 : Nat) by decide)
    (Nat.zero_le _) [] []).1 (by decide)
  have height := (routine_allocates H hready (show (8 : Int32).toInt = (8 : Nat) by decide)
    (Nat.zero_le _) [] []).2 le_rfl
  rw [hroutine] at hnine height
  rw [hfull] at hnine
  exact ⟨H, hnine, height⟩

end Heap

/-! ## Programs -/

namespace Environment

lemma mem_addresses_scratch : (.text Cell.array1, 66) ∈ addresses 0 prelude ∧ bytes prelude = 257 := by
  decide +kernel

/-- The cells of the allocator lie one after the other in front of the heap. -/
lemma mem_addresses_heap (d : Nat) : (.text Cell.heapNextFree, d) ∈ heap.addresses d ∧
    (.text Cell.heapCursor, d + 4) ∈ heap.addresses d ∧
    (.text Cell.heapStart, d + 8) ∈ heap.addresses d := by
  have hcode : Heap.routineCode.bytes = 0 := by decide
  have hcell (x : String) : (wordCell x).bytes = 4 := rfl
  have hlabel (x : String) (d : Nat) : (.text x, d) ∈ (wordCell x).addresses d := List.mem_cons_self
  rw [Heap.heap_eq]
  simp only [addresses_append, bytes_append, hcode, hcell, List.mem_append]
  exact ⟨.inl (.inl (hlabel _ _)), .inl (.inr (hlabel _ _)), .inr (.inr List.mem_cons_self)⟩

end Environment

open Environment in
/-- Every program that is laid out has an allocator. -/
lemma Program.nonempty_heap {n : Nat} {main bodies strings : Code}
    (hP : (layout n main bodies strings).Numbered) : Nonempty (Heap (layout n main bodies strings)) := by
  obtain ⟨i, hi⟩ := @exists_at_prelude n main bodies strings _ (trapBlock_isInfix .heapExhausted)
  obtain ⟨j, hj⟩ := @exists_at_prelude n main bodies strings _ (trapBlock_isInfix .indexOutOfBounds)
  obtain ⟨front, hfront⟩ : ∃ front, layout n main bodies strings = prelude ++ front ++ heap := by
    refine ⟨cell Cell.globals (.int .dataZ n) ++ (label mainLabel ++ main ++ ops [.halt] ++
      (bodies ++ strings)), ?_⟩
    rw [layout_eq]
    simp only [List.append_assoc]
  have hheap := mem_addresses_heap (prelude ++ front).bytes
  have hbehind {x : String} {a : Nat} (h : (.text x, a) ∈ heap.addresses (prelude ++ front).bytes) :
      (layout n main bodies strings).Holds x a := by
    refine hP.holds ?_
    rw [hfront, addresses_append, Nat.zero_add]
    exact List.mem_append_right _ h
  exact ⟨{
    numbered := hP
    sp := 8
    scratch := 66
    free := (prelude ++ front).bytes
    cursor := (prelude ++ front).bytes + 4
    start := (prelude ++ front).bytes + 8
    routine := (prelude ++ front).instrs.length
    full := _
    bounds := _
    holds_sp := holds_prelude hP addresses_stack.1
    holds_scratch := holds_prelude hP mem_addresses_scratch.1
    holds_free := hbehind hheap.1
    holds_cursor := hbehind hheap.2.1
    holds_start := hbehind hheap.2.2
    at_routine := ⟨prelude ++ front, [], by rw [hfront, List.append_nil], rfl⟩
    marks_full := hi.left.left.right.marks hP
    marks_bounds := hj.left.left.right.marks hP
    sp_scratch := by omega
    scratch_free := by
      rw [bytes_append, mem_addresses_scratch.2]
      omega
    free_cursor := le_rfl
    cursor_start := le_rfl }⟩

/-- Every program that a source is compiled to has an allocator. -/
theorem nonempty_heap_of_compile {s : Settings} {name : String} {source : List UInt8} {code : Code}
    (h : (compile s name source).code = .ok code) (hinstrs : code.instrs.length < 2 ^ 31)
    (hbytes : code.bytes ≤ 2 ^ 31) : Nonempty (Heap code) := by
  obtain ⟨n, main, bodies, strings, rfl, hP⟩ := exists_layout_of_compile h hinstrs hbytes
  exact Program.nonempty_heap hP

end SubrLang
