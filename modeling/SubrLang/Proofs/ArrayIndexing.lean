import SubrLang.Proofs.CallingConvention
import SubrLang.Proofs.ScalarPrograms

/-!
# Indexing arrays

The code that finds an element of an array checks the index against the length in the record.

**Operands.** Array and index are left on the operand stack before the two scratch cells are written, so it
does not matter what their code does with these cells: it may index arrays itself. `Lowering.index_eq`
separates the operands from the check that follows them.

**The check.** It is straight code with two jumps to traps. `Leaves` says where such code is left, and it is
left at one place only. The second jump is on the sign of `length - 1 - index`, which is computed with words
of 32 bits and does not overflow (`Indexing.room_neg_iff`).
-/

namespace SubrLang

open Code

/-! ## Places -/

/-- The places that indexing works with: two cells in the order in which they are laid out, and two
traps. -/
structure Indexing (P : Code) where
  numbered : P.Numbered
  first : Nat
  second : Nat
  negative : Nat
  bounds : Nat
  holds_first : P.Holds Cell.index1 first
  holds_second : P.Holds Cell.index2 second
  marks_negative : P.Marks Trap.negativeIndex.label negative
  marks_bounds : P.Marks Trap.indexOutOfBounds.label bounds
  first_second : first + 4 ≤ second
  negative_bounds : negative < bounds

/-- An array record lies in memory behind the cells. -/
structure Indexing.HasRecord {P : Code} (K : Indexing P) (m : Memory) (base : Nat)
    (elemSize length : Int32) : Prop where
  behind : K.second + 4 ≤ base
  inside : base + ArrayRecord.headerSize ≤ m.size
  small : base + ArrayRecord.headerSize ≤ 2 ^ 31
  nonneg : 0 ≤ length
  elemSize : m.fetch .word (base + ArrayRecord.elemSizeOffset) = .int elemSize
  length : m.fetch .word (base + ArrayRecord.lengthOffset) = .int length

/-! ## The check -/

namespace Lowering

/-- Keeps array and index in the cells. -/
def keep : Code := store Cell.index2 ++ store Cell.index1

/-- Leaves how many elements follow the one with the index. -/
def room : Code :=
  load Cell.index1 ++ plus ArrayRecord.lengthOffset ++ ops [.loadI] ++ minus 1 ++
    load Cell.index2 ++ ops [.subtract]

/-- Leaves the address of the element with the index. -/
def place : Code :=
  load Cell.index1 ++ plus ArrayRecord.headerSize ++ load Cell.index2 ++
    (load Cell.index1 ++ plus ArrayRecord.elemSizeOffset ++ ops [.loadI]) ++ ops [.multiply, .add]

/-- What follows the operands. -/
def checking : Code :=
  keep ++ load Cell.index2 ++ branch .jumpNeg Trap.negativeIndex.label ++ room ++
    branch .jumpNeg Trap.indexOutOfBounds.label ++ place

lemma index_eq (array position : Code) : index array position = (array ++ position) ++ checking := by
  unfold index checking keep room place
  simp only [List.append_assoc]

end Lowering

open Lowering

namespace Indexing

variable {P : Code} {K : Indexing P} {m : Memory} {base n : Nat} {elemSize length i : Int32}
  {st : List Word} {out : List UInt8}

/-- The difference of a length and an index is not too large for a word. -/
lemma room_neg_iff (hlength : 0 ≤ length) (hi : 0 ≤ i) : length - 1 - i < 0 ↔ length ≤ i := by
  rw [Int32.le_iff_toInt_le] at hlength hi ⊢
  have hlt := length.toInt_lt
  have hlt' := i.toInt_lt
  have hzero : (0 : Int32).toInt = 0 := rfl
  have hdifference : length - 1 - i = Int32.ofInt (length.toInt - 1 - i.toInt) := by
    rw [Int32.ofInt_sub, Int32.ofInt_sub, Int32.ofInt_toInt, Int32.ofInt_toInt]
    rfl
  rw [hdifference, Cells.ofInt_neg_iff (by omega) (by omega)]
  omega

/-- Memory with array and index in the cells. -/
def kept (K : Indexing P) (m : Memory) (base : Nat) (i : Int32) : Memory :=
  (m.put .word K.second (.int i)).put .word K.first (.address base)

lemma byte_kept {k : Nat} (hfirst : k < K.first ∨ K.first + 4 ≤ k)
    (hsecond : k < K.second ∨ K.second + 4 ≤ k) : (K.kept m base i).byte k = m.byte k := by
  rw [kept, Memory.byte_put_of_apart hfirst, Memory.byte_put_of_apart hsecond]

namespace HasRecord

variable (h : K.HasRecord m base elemSize length)

include h

lemma inside_cells : m.Inside K.first 4 ∧ m.Inside K.second 4 := by
  have hcells := K.first_second
  have hbehind := h.behind
  have hinside := h.inside
  have hsmall := h.small
  exact ⟨⟨by omega, by omega⟩, ⟨by omega, by omega⟩⟩

lemma fetch_first : (K.kept m base i).fetch .word K.first = .address base := by
  refine Memory.fetch_put ?_ trivial
  rw [Memory.size_put]
  exact h.inside_cells.1.2

lemma fetch_second : (K.kept m base i).fetch .word K.second = .int i := by
  rw [kept, Memory.fetch_put_of_apart (.inr K.first_second)]
  exact Memory.fetch_put h.inside_cells.2.2 trivial

/-- The record is not touched by what is kept in the cells. -/
lemma put_kept : K.HasRecord (K.kept m base i) base elemSize length := by
  have hcells := K.first_second
  have hbehind := h.behind
  have hfetch (offset : Nat) :
      (K.kept m base i).fetch .word (base + offset) = m.fetch .word (base + offset) := by
    rw [kept, Memory.fetch_put_of_apart (.inr (by simp only [Slot.size]; omega)),
      Memory.fetch_put_of_apart (.inr (by simp only [Slot.size]; omega))]
  exact ⟨hbehind, by simpa [kept] using h.inside, h.small, h.nonneg,
    (hfetch _).trans h.elemSize, (hfetch _).trans h.length⟩

lemma passes_keep : Passes P keep ⟨.int i :: .address base :: st, m, out⟩ ⟨st, K.kept m base i, out⟩ :=
  (passes_store K.holds_second h.inside_cells.2).append
    (passes_store K.holds_first (by simpa using h.inside_cells.1))

lemma passes_loadFirst : Passes P (load Cell.index1) ⟨st, K.kept m base i, out⟩
    ⟨.address base :: st, K.kept m base i, out⟩ :=
  passes_load K.holds_first h.put_kept.inside_cells.1 h.fetch_first

lemma passes_loadSecond : Passes P (load Cell.index2) ⟨st, K.kept m base i, out⟩
    ⟨.int i :: st, K.kept m base i, out⟩ :=
  passes_load K.holds_second h.put_kept.inside_cells.2 h.fetch_second

/-- A word of the header is loaded. -/
lemma passes_field {offset : Nat} {w : Word} (hoffset : offset + 4 ≤ ArrayRecord.headerSize)
    (hw : (K.kept m base i).fetch .word (base + offset) = w) :
    Passes P (load Cell.index1 ++ plus offset ++ ops [.loadI]) ⟨st, K.kept m base i, out⟩
      ⟨w :: st, K.kept m base i, out⟩ := by
  have hinside := h.put_kept (i := i).inside
  have hsmall := h.small
  exact (h.passes_loadFirst.append (passes_plus_address (by simp))).append
    (passes_loadOp .word ⟨by omega, by simp only [Slot.size]; omega⟩ hw)

lemma passes_room : Passes P room ⟨st, K.kept m base i, out⟩
    ⟨.int (length - 1 - i) :: st, K.kept m base i, out⟩ :=
  (((h.passes_field (by decide) h.put_kept.length).append (passes_minus 1)).append
    h.passes_loadSecond).append (passes_effect rfl)

lemma passes_place : Passes P place ⟨st, K.kept m base i, out⟩
    ⟨.int (Int32.ofNat base + 16 + i * elemSize) :: st, K.kept m base i, out⟩ :=
  (((h.passes_loadFirst.append (passes_plus _)).append h.passes_loadSecond).append
    (h.passes_field (by decide) h.put_kept.elemSize)).append
    (passes_ops_cons (passes_effect rfl) (passes_effect rfl))

lemma passes_sign : Passes P (keep ++ load Cell.index2)
    ⟨.int i :: .address base :: st, m, out⟩ ⟨.int i :: st, K.kept m base i, out⟩ :=
  h.passes_keep.append h.passes_loadSecond

lemma passes_bounds (hi : 0 ≤ i) :
    Passes P (keep ++ load Cell.index2 ++ branch .jumpNeg Trap.negativeIndex.label ++ room)
      ⟨.int i :: .address base :: st, m, out⟩ ⟨.int (length - 1 - i) :: st, K.kept m base i, out⟩ :=
  (h.passes_sign.append (passes_branch rfl (by simpa using Int32.not_lt.mpr hi))).append h.passes_room

/-- An index that is in bounds passes the check. -/
lemma passes_checking (hi : 0 ≤ i) (hlength : i < length) :
    Passes P checking ⟨.int i :: .address base :: st, m, out⟩
      ⟨.int (Int32.ofNat base + 16 + i * elemSize) :: st, K.kept m base i, out⟩ := by
  have hroom : ¬ length - 1 - i < 0 := by
    rw [room_neg_iff h.nonneg hi]
    exact Int32.not_le.mpr hlength
  exact ((h.passes_bounds hi).append (passes_branch rfl (by simpa using hroom))).append h.passes_place

/-- Where the check is left, by the sign of the index and its place in the array. -/
lemma leaves_checking (hn : P.At n checking) (hbehind : K.bounds < n) :
    Leaves P n (n + checking.instrs.length) ⟨n, .int i :: .address base :: st, m, out⟩
      (if i < 0 then ⟨K.negative, st, K.kept m base i, out⟩
      else if length ≤ i then ⟨K.bounds, st, K.kept m base i, out⟩
      else ⟨n + checking.instrs.length, .int (Int32.ofNat base + 16 + i * elemSize) :: st,
        K.kept m base i, out⟩) := by
  have hfront := K.negative_bounds
  split
  · next hneg =>
    refine ⟨?_, by simp only; omega⟩
    have hcode : checking = keep ++ load Cell.index2 ++ branch .jumpNeg Trap.negativeIndex.label ++
        (room ++ (branch .jumpNeg Trap.indexOutOfBounds.label ++ place)) := by
      simp only [checking, List.append_assoc]
    rw [hcode] at hn ⊢
    exact h.passes_sign.within_branch K.numbered rfl (by simpa using hneg) K.marks_negative hn
  · next hneg =>
    have hi : 0 ≤ i := Int32.not_lt.mp hneg
    split
    · next hlength =>
      refine ⟨?_, by simp only; omega⟩
      have hroom := (room_neg_iff h.nonneg hi).mpr hlength
      exact (h.passes_bounds hi).within_branch K.numbered rfl (by simpa using hroom) K.marks_bounds hn
    · next hlength =>
      exact ⟨h.passes_checking hi (Int32.not_le.mp hlength) n hn, by simp⟩

lemma leaves_negative_iff {s' : State} (hn : P.At n checking) (hbehind : K.bounds < n) :
    Leaves P n (n + checking.instrs.length) ⟨n, .int i :: .address base :: st, m, out⟩
      ⟨K.negative, s'⟩ ↔ i < 0 ∧ s' = ⟨st, K.kept m base i, out⟩ := by
  have hfront := K.negative_bounds
  have hend : K.negative ≠ n + checking.instrs.length := by omega
  rw [(h.leaves_checking hn hbehind).iff_eq]
  split_ifs with hneg hlength
  · simp [hneg]
  · simp [hneg, hfront.ne]
  · simp [hneg, hend]

lemma leaves_bounds_iff {s' : State} (hn : P.At n checking) (hbehind : K.bounds < n) :
    Leaves P n (n + checking.instrs.length) ⟨n, .int i :: .address base :: st, m, out⟩
      ⟨K.bounds, s'⟩ ↔ length ≤ i ∧ s' = ⟨st, K.kept m base i, out⟩ := by
  have hfront := K.negative_bounds
  have hend : K.bounds ≠ n + checking.instrs.length := by omega
  rw [(h.leaves_checking hn hbehind).iff_eq]
  split_ifs with hneg hlength
  · have hless : ¬ length ≤ i := fun hle => Int32.not_lt.mpr (Int32.le_trans h.nonneg hle) hneg
    simp [hless, hfront.ne']
  · simp [hlength]
  · simp [hlength, hend]

lemma leaves_end_iff {s' : State} (hn : P.At n checking) (hbehind : K.bounds < n) :
    Leaves P n (n + checking.instrs.length) ⟨n, .int i :: .address base :: st, m, out⟩
      ⟨n + checking.instrs.length, s'⟩ ↔ (0 ≤ i ∧ i < length) ∧
        s' = ⟨.int (Int32.ofNat base + 16 + i * elemSize) :: st, K.kept m base i, out⟩ := by
  have hfront := K.negative_bounds
  have hnegative : n + checking.instrs.length ≠ K.negative := by omega
  have hbounds : n + checking.instrs.length ≠ K.bounds := by omega
  rw [(h.leaves_checking hn hbehind).iff_eq]
  split_ifs with hneg hlength
  · simp [Int32.not_le.mpr hneg, hnegative]
  · simp [Int32.not_lt.mpr hlength, hbounds]
  · simp [Int32.not_lt.mp hneg, Int32.not_le.mp hlength]

end HasRecord

variable {s : State} {array position : Code} {m₁ : Memory} {out₁ : List UInt8}

/-- The code of an element whose index is in bounds leaves its address. -/
lemma takes_index (h : K.HasRecord m base elemSize length)
    (harray : Takes P array s ⟨.address base :: st, m₁, out₁⟩)
    (hposition : Takes P position ⟨.address base :: st, m₁, out₁⟩
      ⟨.int i :: .address base :: st, m, out⟩) (hi : 0 ≤ i) (hlength : i < length) :
    Takes P (index array position) s
      ⟨.int (Int32.ofNat base + 16 + i * elemSize) :: st, K.kept m base i, out⟩ := by
  rw [index_eq]
  exact (harray.append hposition).append (h.passes_checking hi hlength).takes

/-- The code of an element, behind its operands. Whatever these do, an index below zero leads to one trap,
one that is not below the length to the other, and any other to the address of the element. Apart from
the two cells nothing is changed. -/
theorem index_checks_bounds (K : Indexing P) (h : K.HasRecord m base elemSize length)
    (harray : Takes P array s ⟨.address base :: st, m₁, out₁⟩)
    (hposition : Takes P position ⟨.address base :: st, m₁, out₁⟩
      ⟨.int i :: .address base :: st, m, out⟩)
    (hn : P.At n (index array position)) (hbehind : K.bounds < n) {j stop : Nat}
    (hj : n + (array ++ position).instrs.length = j)
    (hstop : n + (index array position).instrs.length = stop) :
    Reaches P ⟨n, s⟩ ⟨j, .int i :: .address base :: st, m, out⟩ ∧ ∃ m',
      (∀ s', Leaves P j stop ⟨j, .int i :: .address base :: st, m, out⟩ ⟨K.negative, s'⟩ ↔
        i < 0 ∧ s' = ⟨st, m', out⟩) ∧
      (∀ s', Leaves P j stop ⟨j, .int i :: .address base :: st, m, out⟩ ⟨K.bounds, s'⟩ ↔
        length ≤ i ∧ s' = ⟨st, m', out⟩) ∧
      (∀ s', Leaves P j stop ⟨j, .int i :: .address base :: st, m, out⟩ ⟨stop, s'⟩ ↔
        (0 ≤ i ∧ i < length) ∧ s' = ⟨.int (Int32.ofNat base + 16 + i * elemSize) :: st, m', out⟩) ∧
      m'.size = m.size ∧
      ∀ k, k < K.first ∨ K.first + 4 ≤ k → k < K.second ∨ K.second + 4 ≤ k → m'.byte k = m.byte k := by
  rw [index_eq] at hn hstop
  have hoperands := (harray.append hposition) n hn.left
  have hcheck := hn.right
  rw [hj] at hoperands hcheck
  obtain rfl : j + checking.instrs.length = stop := by
    rw [← hstop, ← hj, instrs_append _ checking, List.length_append, Nat.add_assoc]
  have hfront : K.bounds < j := by omega
  exact ⟨hoperands, K.kept m base i, fun s' => h.leaves_negative_iff hcheck hfront,
    fun s' => h.leaves_bounds_iff hcheck hfront, fun s' => h.leaves_end_iff hcheck hfront, by simp [kept],
    fun k => byte_kept⟩

/-! ### An element of an array as an index -/

namespace Nested

/-- The element of the array at address 8 whose index is its own first element. -/
def element : Code := index (pushI 8) (index (pushI 8) (pushI 0) ++ ops [.loadI])

def program : Code :=
  label Trap.negativeIndex.label ++ ops [.halt] ++ label Trap.indexOutOfBounds.label ++ ops [.halt] ++
    element ++ Environment.wordCell Cell.index1 ++ Environment.wordCell Cell.index2

/-- An array with the one element 1. -/
def memory : Memory :=
  (((Memory.mk ⟨Array.replicate 28 0⟩).put .word 16 (.int 4)).put .word 20 (.int 1)).put .word 24 (.int 1)

lemma exists_hasRecord : ∃ K : Indexing program, K.bounds = 1 ∧ K.HasRecord memory 8 4 1 := by
  refine ⟨{
    numbered := { assemblable := ⟨by decide, by decide, by decide⟩, short := by decide }
    first := 0
    second := 4
    negative := 0
    bounds := 1
    holds_first := by decide
    holds_second := by decide
    marks_negative := ⟨by decide, by decide⟩
    marks_bounds := ⟨by decide, by decide⟩
    first_second := by decide
    negative_bounds := by decide }, rfl, ?_⟩
  exact ⟨by decide, by decide, by decide, by decide, by decide, by decide⟩

end Nested

open Nested in
/-- The index is the length of the array, one more than the index of its last element. -/
theorem index_checks_bounds_nested : ∃ (K : Indexing program) (j : Nat) (m : Memory) (s' : State),
    Reaches program ⟨2, [], memory, []⟩ ⟨j, [.int 1, .address 8], m, []⟩ ∧
      Leaves program j (2 + element.instrs.length) ⟨j, [.int 1, .address 8], m, []⟩ ⟨K.bounds, s'⟩ := by
  obtain ⟨K, hbounds, h⟩ := exists_hasRecord
  have harray (st : List Word) (m : Memory) :
      Takes program (pushI 8) ⟨st, m, []⟩ ⟨.address 8 :: st, m, []⟩ := takes_pushI 8
  have hinner := takes_index h (harray [.address 8] memory) (takes_pushI 0) (by decide) (by decide)
  have hkept := h.put_kept (i := 0)
  have hload : (K.kept memory 8 0).fetch .word 24 = .int 1 := by
    have hcells := K.first_second
    have hbehind := h.behind
    rw [kept, Memory.fetch_put_of_apart (.inr (by simp only [Slot.size]; omega)),
      Memory.fetch_put_of_apart (.inr (by simp only [Slot.size]; omega))]
    decide
  have hposition : Takes program (index (pushI 8) (pushI 0) ++ ops [.loadI]) ⟨[.address 8], memory, []⟩
      ⟨[.int 1, .address 8], K.kept memory 8 0, []⟩ :=
    hinner.append (takes_loadOp .word ⟨by decide, by simpa [kept] using by decide⟩ hload)
  have hat : program.At 2 element := (at_self program).left.left.right
  obtain ⟨hreaches, m', -, hout, -⟩ := index_checks_bounds K hkept (harray _ _) hposition hat
    (by rw [hbounds]; decide) rfl rfl
  exact ⟨K, _, _, _, hreaches, (hout _).mpr ⟨by decide, rfl⟩⟩

end Indexing

/-! ## Programs -/

namespace Environment

/-- The two cells and the two traps in what stands in front of every program. -/
lemma mem_prelude_index : (.text Cell.index1, 82) ∈ addresses 0 prelude ∧
    (.text Cell.index2, 86) ∈ addresses 0 prelude ∧ 90 ≤ bytes prelude ∧
    ∃ i j, (.text Trap.negativeIndex.label, i) ∈ marks 0 prelude ∧
      (.text Trap.indexOutOfBounds.label, j) ∈ marks 0 prelude ∧ i < j ∧ j < prelude.instrs.length := by
  refine ⟨by decide +kernel, by decide +kernel, by decide +kernel, 17, 19, ?_, ?_, ?_, ?_⟩
  all_goals decide +kernel

end Environment

open Environment in
/-- Every program that is laid out has the places that indexing works with, with the traps in front of its
main block and its subroutines. -/
lemma Program.exists_indexing {n : Nat} {main bodies strings : Code}
    (hP : (layout n main bodies strings).Numbered) : ∃ K : Indexing (layout n main bodies strings),
      K.bounds < prelude.instrs.length ∧ K.second + 4 ≤ prelude.bytes := by
  obtain ⟨hfirst, hsecond, hend, i, j, hi, hj, hij, hlast⟩ := mem_prelude_index
  exact ⟨{
    numbered := hP
    first := 82
    second := 86
    negative := i
    bounds := j
    holds_first := holds_prelude hP hfirst
    holds_second := holds_prelude hP hsecond
    marks_negative := marks_prelude hP hi
    marks_bounds := marks_prelude hP hj
    first_second := by omega
    negative_bounds := hij }, hlast, hend⟩

open Environment in
/-- Every program that a source is compiled to has them. -/
theorem exists_indexing_of_compile {s : Settings} {name : String} {source : List UInt8} {code : Code}
    (h : (compile s name source).code = .ok code) (hinstrs : code.instrs.length < 2 ^ 31)
    (hbytes : code.bytes ≤ 2 ^ 31) : ∃ K : Indexing code, K.bounds < prelude.instrs.length ∧
      K.second + 4 ≤ prelude.bytes ∧ prelude <+: code := by
  obtain ⟨n, main, bodies, strings, rfl, hP⟩ := exists_layout_of_compile h hinstrs hbytes
  obtain ⟨K, hbounds, hsecond⟩ := Program.exists_indexing hP
  refine ⟨K, hbounds, hsecond, ?_⟩
  rw [Program.layout_eq]
  exact List.prefix_append _ _

end SubrLang
