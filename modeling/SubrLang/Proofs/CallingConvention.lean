import SubrLang.Lowering.Call
import SubrLang.Proofs.Execution

/-!
# Calls restore the caller

What a call does to the machine, from the first argument to the result.

**Cells and pointers.** `Cells P` are the places of the four cells that calls of a program work with, and
`Cells.Pointers` says what the two pointers are. All that happens during a call is described by what it
does to these and to the bytes below the stack pointer.

**Entering.** `Pointers.takes_prologue` sets up a frame that fits, and `Pointers.reaches_heapExhausted`
ends in the trap if it does not. Both need the saved words to lie above the cell that the check reads:
they are stored before the check is made. `prologue_guards` puts the two together.

**Leaving.** The result may have more bytes than arguments and frame leave for it above the saved words, so
it may be put over them. `reaches_return` goes through the order of reads and writes that makes this
harmless: the saved words are on the operand stack and in a cell before the result is stored.

**The whole way.** `call_restores` joins the code of the call, whatever the arguments do on the way
(`Cells.Pushes`), with the subroutine, whatever its body does, as long as it keeps its frame.
-/

namespace SubrLang

open Code Lowering

/-! ## The cells of the convention -/

/-- The places of the cells that calls work with. They lie apart from each other, the one with the start
of the free heap behind the others. -/
structure Cells (P : Code) where
  sp : Nat
  fp : Nat
  ra : Nat
  free : Nat
  holds_sp : P.Holds Cell.stackPointer sp
  holds_fp : P.Holds Cell.framePointer fp
  holds_ra : P.Holds Cell.returnAddress ra
  holds_free : P.Holds Cell.heapNextFree free
  sp_fp : sp + 4 ≤ fp
  fp_ra : fp + 4 ≤ ra
  ra_free : ra + 4 ≤ free

/-- Memory holds the cells, the stack pointer is `S` and the frame pointer `F`. -/
structure Cells.Pointers {P : Code} (K : Cells P) (m : Memory) (S : Nat) (F : Int32) : Prop where
  small : m.size < 2 ^ 31
  cells : K.free + 4 ≤ m.size
  le : S ≤ m.size
  sp : m.fetch .word K.sp = .address S
  fp : m.fetch .word K.fp = .int F

namespace Cells

variable {P : Code} {K : Cells P} {m : Memory} {S S' : Nat} {F F' : Int32} {i j n : Nat}
  {st : List Word} {out : List UInt8} {w r : Word}

namespace Pointers

variable (hm : K.Pointers m S F)
include hm

/-- Above the frame pointer memory can change. -/
lemma put {s : Slot} (hj : K.fp + 4 ≤ j) : K.Pointers (m.put s j w) S F where
  small := by simpa using hm.small
  cells := by simpa using hm.cells
  le := by simpa using hm.le
  sp := by
    have := K.sp_fp
    rw [Memory.fetch_put_of_apart (.inl (by simp only [Slot.size]; omega)), hm.sp]
  fp := by rw [Memory.fetch_put_of_apart (.inl hj), hm.fp]

lemma inside (h : i + n ≤ m.size) : m.Inside i n := by
  have hsmall := hm.small
  exact ⟨by omega, h⟩

lemma sp_in : K.sp + 4 ≤ m.size := by
  have hsp := K.sp_fp
  have hfp := K.fp_ra
  have hra := K.ra_free
  have hcells := hm.cells
  omega

lemma fp_in : K.fp + 4 ≤ m.size := by
  have hfp := K.fp_ra
  have hra := K.ra_free
  have hcells := hm.cells
  omega

lemma put_sp (hS : S' ≤ m.size) : K.Pointers (m.put .word K.sp (.address S')) S' F := by
  refine ⟨by simpa using hm.small, by simpa using hm.cells, by simpa using hS, ?_, ?_⟩
  · exact Memory.fetch_put hm.sp_in trivial
  · rw [Memory.fetch_put_of_apart (.inr K.sp_fp), hm.fp]

lemma put_fp : K.Pointers (m.put .word K.fp (.int F')) S F' := by
  refine ⟨by simpa using hm.small, by simpa using hm.cells, by simpa using hm.le, ?_, ?_⟩
  · rw [Memory.fetch_put_of_apart (.inl K.sp_fp), hm.sp]
  · exact Memory.fetch_put hm.fp_in trivial

lemma takes_loadSp : Takes P (load Cell.stackPointer) ⟨st, m, out⟩ ⟨.address S :: st, m, out⟩ :=
  takes_load K.holds_sp (hm.inside hm.sp_in) hm.sp

lemma takes_loadFp : Takes P (load Cell.framePointer) ⟨st, m, out⟩ ⟨.int F :: st, m, out⟩ :=
  takes_load K.holds_fp (hm.inside hm.fp_in) hm.fp

lemma takes_moveStack (k : Int) : Takes P (moveStack k) ⟨st, m, out⟩
    ⟨st, m.put .word K.sp (.int (Int32.ofNat S + Int32.ofInt k)), out⟩ :=
  Code.takes_moveStack k K.holds_sp (hm.inside hm.sp_in) hm.sp

/-- A move of the stack pointer that stays inside memory. -/
lemma takes_moveTo {k : Int} (h : (S : Int) + k = S') : Takes P (moveStack k) ⟨st, m, out⟩
    ⟨st, m.put .word K.sp (.address S'), out⟩ := by
  rw [Word.address, ← ofNat_add_ofInt h]
  exact hm.takes_moveStack k

end Pointers

/-! ## Entering a subroutine -/

/-- Memory after the words of the caller were saved below `S` and the frame pointer was set to `S`. -/
def saved (K : Cells P) (m : Memory) (S : Nat) (r : Word) (F : Int32) : Memory :=
  ((m.put .word (S - returnDepth) r).put .word (S - linkDepth) (.int F)).put .word K.fp (.address S)

/-- Memory when a frame of `n` bytes below `S` has been set up. -/
def framed (K : Cells P) (m : Memory) (S : Nat) (r : Word) (F : Int32) (n : Nat) : Memory :=
  (K.saved m S r F).put .word K.sp (.int (Int32.ofNat S + Int32.ofInt (-n)))

lemma Pointers.saved (hm : K.Pointers m S F) (hS : K.fp + 12 ≤ S) :
    K.Pointers (K.saved m S r F) S (Int32.ofNat S) := by
  have hreturn : K.fp + 4 ≤ S - returnDepth := by simp only [returnDepth]; omega
  have hlink : K.fp + 4 ≤ S - linkDepth := by simp only [linkDepth]; omega
  exact ((hm.put hreturn).put hlink).put_fp

/-- The words of the caller lie inside memory. -/
lemma saved_inside (hS : K.fp + 12 ≤ S) (hle : S ≤ m.size) :
    ((S : Int) - returnDepth = (S - returnDepth : Nat) ∧ S - returnDepth + 4 ≤ m.size) ∧
      (S : Int) - linkDepth = (S - linkDepth : Nat) ∧ S - linkDepth + 4 ≤ m.size := by
  simp only [returnDepth, linkDepth]
  omega

/-- Stores a word that is on the operand stack so many bytes below the stack pointer. -/
lemma Pointers.takes_saveReturn (hm : K.Pointers m S F) (hS : K.fp + 12 ≤ S) :
    Takes P (load Cell.stackPointer ++ minus returnDepth ++ ops [.exchange, .storeI])
      ⟨.address i :: st, m, out⟩ ⟨st, m.put .word (S - returnDepth) (.address i), out⟩ := by
  obtain ⟨hdepth, hin⟩ := (saved_inside hS hm.le).1
  have hswap : Takes P (ops [.exchange])
      ⟨.address (S - returnDepth) :: .address i :: st, m, out⟩
      ⟨.address i :: .address (S - returnDepth) :: st, m, out⟩ := takes_effect rfl
  exact (hm.takes_loadSp.append (takes_minus_address hdepth)).append
    (takes_ops_cons hswap (takes_storeOp .word (hm.inside hin) trivial))

lemma Pointers.takes_saveLink (hm : K.Pointers m S F) (hS : K.fp + 12 ≤ S) :
    Takes P (load Cell.stackPointer ++ minus linkDepth ++ load Cell.framePointer ++ ops [.storeI])
      ⟨st, m, out⟩ ⟨st, m.put .word (S - linkDepth) (.int F), out⟩ := by
  obtain ⟨hdepth, hin⟩ := (saved_inside hS hm.le).2
  exact ((hm.takes_loadSp.append (takes_minus_address hdepth)).append hm.takes_loadFp).append
    (takes_storeOp .word (hm.inside hin) trivial)

lemma Pointers.takes_setFrame (hm : K.Pointers m S F) :
    Takes P (pushD Cell.framePointer ++ load Cell.stackPointer ++ ops [.storeI])
      ⟨st, m, out⟩ ⟨st, m.put .word K.fp (.address S), out⟩ :=
  ((takes_pushD_address K.holds_fp).append hm.takes_loadSp).append
    (takes_storeOp .word (hm.inside hm.fp_in) trivial)

/-- The part of the prologue in front of the check: saved words, frame pointer and stack pointer. -/
def frameCode (n : Nat) : Code :=
  (load Cell.stackPointer ++ minus returnDepth ++ ops [.exchange, .storeI]) ++
    (load Cell.stackPointer ++ minus linkDepth ++ load Cell.framePointer ++ ops [.storeI]) ++
    (pushD Cell.framePointer ++ load Cell.stackPointer ++ ops [.storeI]) ++ moveStack (-(n : Int))

lemma prologue_eq (n : Nat) : prologue n = frameCode n ++ checkStack := by
  simp only [prologue, frameCode, List.append_assoc]

lemma Pointers.takes_frame (hm : K.Pointers m S F) (hS : K.fp + 12 ≤ S) (n : Nat) :
    Takes P (frameCode n) ⟨.address i :: st, m, out⟩ ⟨st, K.framed m S (.address i) F n, out⟩ := by
  have hm₁ : K.Pointers (m.put .word (S - returnDepth) (.address i)) S F :=
    hm.put (by simp only [returnDepth]; omega)
  have hm₂ : K.Pointers ((m.put .word (S - returnDepth) (.address i)).put .word (S - linkDepth)
      (.int F)) S F := hm₁.put (by simp only [linkDepth]; omega)
  exact (((hm.takes_saveReturn hS).append (hm₁.takes_saveLink hS)).append
    hm₂.takes_setFrame).append ((hm.saved hS).takes_moveStack _)

/-- The sign of a difference of numbers that are not too far apart. -/
lemma ofInt_neg_iff {x : Int} (h : -2 ^ 31 ≤ x) (h' : x < 2 ^ 31) : Int32.ofInt x < 0 ↔ x < 0 := by
  rw [Int32.lt_iff_toInt_lt, Int32.toInt_ofInt_of_le (by simpa using h) (by simpa using h')]
  simp

lemma sub_neg_iff {H : Nat} (hS : S < 2 ^ 31) (hn : n + H ≤ 2 ^ 31 + S) :
    Int32.ofNat S + Int32.ofInt (-n) - Int32.ofNat H < 0 ↔ S < n + H := by
  rw [← Int32.ofInt_eq_ofNat, ← Int32.ofInt_eq_ofNat, ← Int32.ofInt_add, ← Int32.ofInt_sub,
    ofInt_neg_iff (by omega) (by omega)]
  omega

lemma fetch_framed_sp (hm : K.Pointers m S F) (hS : K.fp + 12 ≤ S) :
    (K.framed m S r F n).fetch .word K.sp = .int (Int32.ofNat S + Int32.ofInt (-n)) :=
  Memory.fetch_put (hm.saved hS).sp_in trivial

/-- Only the pointers and the two words below `S` are changed. -/
lemma byte_framed {k : Nat} (h : k < S - returnDepth ∨ S ≤ k)
    (hsp : k < K.sp ∨ K.sp + 4 ≤ k) (hfp : k < K.fp ∨ K.fp + 4 ≤ k) (hS : returnDepth ≤ S) :
    (K.framed m S r F n).byte k = m.byte k := by
  simp only [returnDepth] at h hS
  unfold framed Cells.saved
  simp only [returnDepth, linkDepth]
  rw [Memory.byte_put_of_apart hsp, Memory.byte_put_of_apart hfp,
    Memory.byte_put_of_apart (by simp only [Slot.size]; omega),
    Memory.byte_put_of_apart (by simp only [Slot.size]; omega)]

lemma fetch_framed_free (hS : K.free + 12 ≤ S) :
    (K.framed m S r F n).fetch .word K.free = m.fetch .word K.free := by
  have hsp := K.sp_fp
  have hfp := K.fp_ra
  have hra := K.ra_free
  apply Memory.fetch_congr
  intro k hk
  simp only [Slot.size] at hk
  refine byte_framed (.inl ?_) (by omega) (by omega) ?_ <;> simp only [returnDepth] <;> omega

/-- What the check compares. -/
lemma takes_compareStack {v v' : Int32} (hsize : m.size < 2 ^ 31) (hcells : K.free + 4 ≤ m.size)
    (hsp : m.fetch .word K.sp = .int v) (hfree : m.fetch .word K.free = .int v') :
    Takes P (load Cell.stackPointer ++ load Cell.heapNextFree ++ ops [.subtract])
      ⟨st, m, out⟩ ⟨.int (v - v') :: st, m, out⟩ := by
  have hsp' := K.sp_fp
  have hfp' := K.fp_ra
  have hra' := K.ra_free
  have hin : K.sp + 4 ≤ m.size := by omega
  exact ((takes_load K.holds_sp ⟨by omega, hin⟩ hsp).append
    (takes_load K.holds_free ⟨by omega, hcells⟩ hfree)).append (takes_effect rfl)

lemma size_framed : (K.framed m S r F n).size = m.size := by
  simp [framed, Cells.saved]

lemma Pointers.takes_prologue_compare {H : Nat} (hm : K.Pointers m S F) (hS : K.free + 12 ≤ S)
    (hfree : m.fetch .word K.free = .address H) :
    Takes P (load Cell.stackPointer ++ load Cell.heapNextFree ++ ops [.subtract])
      ⟨st, K.framed m S r F n, out⟩
      ⟨.int (Int32.ofNat S + Int32.ofInt (-n) - Int32.ofNat H) :: st, K.framed m S r F n, out⟩ := by
  have hfp := K.fp_ra
  have hra := K.ra_free
  apply takes_compareStack
  · rw [size_framed]
    exact hm.small
  · rw [size_framed]
    exact hm.cells
  · exact fetch_framed_sp hm (by omega)
  · rw [fetch_framed_free hS, hfree]
    rfl

/-- A frame that fits is set up. -/
theorem Pointers.takes_prologue {H : Nat} (hm : K.Pointers m S F) (hS : K.free + 12 ≤ S)
    (hfree : m.fetch .word K.free = .address H) (hroom : H + n ≤ S) :
    Takes P (prologue n) ⟨.address i :: st, m, out⟩ ⟨st, K.framed m S (.address i) F n, out⟩ := by
  have hfp := K.fp_ra
  have hra := K.ra_free
  have hsmall := hm.small
  have hle := hm.le
  have hpass : decide (Int32.ofNat S + Int32.ofInt (-n) - Int32.ofNat H < 0) = false := by
    rw [decide_eq_false_iff_not, sub_neg_iff (by omega) (by omega)]
    omega
  rw [prologue_eq]
  exact (hm.takes_frame (by omega) n).append
    ((hm.takes_prologue_compare hS hfree).append (takes_branch rfl hpass))

/-- A frame that does not fit is a trap. -/
theorem Pointers.reaches_heapExhausted {H t : Nat} (hP : P.Numbered) (hm : K.Pointers m S F)
    (hS : K.free + 12 ≤ S) (hfree : m.fetch .word K.free = .address H) (hfull : S < H + n)
    (hn : n + H ≤ 2 ^ 31 + S) (ht : P.Marks Trap.heapExhausted.label t)
    (hj : P.At j (prologue n)) :
    Reaches P ⟨j, .address i :: st, m, out⟩ ⟨t, st, K.framed m S (.address i) F n, out⟩ := by
  have hfp := K.fp_ra
  have hra := K.ra_free
  have hsmall := hm.small
  have hle := hm.le
  have hfail : decide (Int32.ofNat S + Int32.ofInt (-n) - Int32.ofNat H < 0) = true := by
    rw [decide_eq_true_iff, sub_neg_iff (by omega) hn]
    omega
  rw [prologue_eq] at hj
  exact ((hm.takes_frame (by omega) n _ hj.left).trans
    (hm.takes_prologue_compare hS hfree _ hj.right.left)).trans
    ⟨1, hj.right.right.steps_branch hP rfl ht hfail⟩

/-- **The check of the stack.** A subroutine that is entered with the stack pointer at `S` and the free heap
starting at `H` ends in the trap if its frame would reach below `H`. Otherwise the frame is set up, and
no byte below `H` has changed except for the two pointers. The saved words must not lie over the cell
with `H`, since they are stored before the check, and the sizes must not be so large that the difference
of the two addresses wraps around. -/
theorem prologue_guards {H t : Nat} (hP : P.Numbered) (hm : K.Pointers m S F)
    (hS : K.free + 12 ≤ S) (hfree : m.fetch .word K.free = .address H) (hn : returnDepth ≤ n)
    (hwrap : n + H ≤ 2 ^ 31 + S) (ht : P.Marks Trap.heapExhausted.label t)
    (hj : P.At j (prologue n)) :
    (S < H + n →
      Reaches P ⟨j, .address i :: st, m, out⟩ ⟨t, st, K.framed m S (.address i) F n, out⟩) ∧
    (H + n ≤ S →
      Reaches P ⟨j, .address i :: st, m, out⟩ ⟨j + (prologue n).instrs.length, st,
        K.framed m S (.address i) F n, out⟩ ∧
      ∀ k < H, (k < K.sp ∨ K.sp + 4 ≤ k) → (k < K.fp ∨ K.fp + 4 ≤ k) →
        (K.framed m S (.address i) F n).byte k = m.byte k) := by
  constructor
  · intro hfull
    exact hm.reaches_heapExhausted hP hS hfree hfull hwrap ht hj
  · intro hroom
    refine ⟨hm.takes_prologue hS hfree hroom j hj, fun k hk hsp hfp => ?_⟩
    exact byte_framed (.inl (by omega)) hsp hfp (by omega)

/-! ## Leaving a subroutine -/

/-- The epilogue in parts: the return address, the pointers of the caller, the result and the return. -/
lemma epilogue_eq (frameSize argSize : Nat) (result : Ty) : epilogue frameSize argSize result =
    (load Cell.framePointer ++ minus returnDepth ++ ops [.loadI]) ++
    (pushD Cell.framePointer ++ load Cell.framePointer ++ minus linkDepth ++ ops [.loadI, .storeI]) ++
    moveStack (frameSize + argSize - result.size) ++ store Cell.returnAddress ++
    (if result.isVoid then [] else load Cell.stackPointer ++ ops [.exchange, result.storeOp]) ++
    load Cell.returnAddress ++ ops [.return] := by
  simp only [epilogue, List.append_assoc]

section Leaving

variable {E : Nat} (hm : K.Pointers m E (Int32.ofNat S)) (hS : K.fp + 12 ≤ S) (hle : S ≤ m.size)
include hm hS hle

lemma takes_fetchReturn (hr : m.fetch .word (S - returnDepth) = r) :
    Takes P (load Cell.framePointer ++ minus returnDepth ++ ops [.loadI])
      ⟨st, m, out⟩ ⟨r :: st, m, out⟩ := by
  obtain ⟨hdepth, hin⟩ := (saved_inside hS hle).1
  exact (hm.takes_loadFp.append (takes_minus_address hdepth)).append
    (takes_loadOp .word (hm.inside hin) hr)

lemma takes_restoreFrame (hlink : m.fetch .word (S - linkDepth) = .int F) :
    Takes P (pushD Cell.framePointer ++ load Cell.framePointer ++ minus linkDepth ++
        ops [.loadI, .storeI])
      ⟨st, m, out⟩ ⟨st, m.put .word K.fp (.int F), out⟩ := by
  obtain ⟨hdepth, hin⟩ := (saved_inside hS hle).2
  have hload : Takes P (ops [.loadI]) ⟨.address (S - linkDepth) :: .address K.fp :: st, m, out⟩
      ⟨.int F :: .address K.fp :: st, m, out⟩ := takes_loadOp .word (hm.inside hin) hlink
  exact (((takes_pushD_address K.holds_fp).append hm.takes_loadFp).append
    (takes_minus_address hdepth)).append
    (takes_ops_cons hload (takes_storeOp .word (hm.inside hm.fp_in) trivial))

end Leaving

end Cells

/-- What a subroutine with a result of a type leaves on the operand stack. -/
def Ty.Returns (t : Ty) (ws : List Word) : Prop :=
  if t.isVoid then ws = [] else ∃ w, ws = [w] ∧ t.slot.Fits w

namespace Cells

variable {P : Code} {K : Cells P} {m : Memory} {S S' : Nat} {F F' : Int32} {i j n : Nat}
  {st ws : List Word} {out : List UInt8} {w r : Word}

/-- Memory with the pointers of the caller. -/
def unframed (K : Cells P) (m : Memory) (S : Nat) (F : Int32) (r : Word) : Memory :=
  ((m.put .word K.fp (.int F)).put .word K.sp (.address S)).put .word K.ra r

lemma Pointers.unframed (hm : K.Pointers m S F) (hS : S' ≤ m.size) :
    K.Pointers (K.unframed m S' F' r) S' F' :=
  (hm.put_fp.put_sp (by simpa using hS)).put K.fp_ra

@[simp] lemma size_unframed : (K.unframed m S F r).size = m.size := by simp [Cells.unframed]

lemma byte_unframed {k : Nat} (hk : K.ra + 4 ≤ k) : (K.unframed m S F r).byte k = m.byte k := by
  have hsp := K.sp_fp
  have hfp := K.fp_ra
  rw [Cells.unframed, Memory.byte_put_of_apart (.inr hk),
    Memory.byte_put_of_apart (.inr (by simp only [Slot.size]; omega)),
    Memory.byte_put_of_apart (.inr (by simp only [Slot.size]; omega))]

lemma Pointers.ra_in (hm : K.Pointers m S F) : K.ra + 4 ≤ m.size := by
  have hra := K.ra_free
  have hcells := hm.cells
  omega

/-- The part of the epilogue that brings back the pointers of the caller. -/
lemma takes_unframe {E : Nat} {k : Int} (hm : K.Pointers m E (Int32.ofNat S)) (hS : K.fp + 12 ≤ S)
    (hle : S ≤ m.size) (hr : m.fetch .word (S - returnDepth) = .address i)
    (hlink : m.fetch .word (S - linkDepth) = .int F) (hk : (E : Int) + k = S') :
    Takes P ((load Cell.framePointer ++ minus returnDepth ++ ops [.loadI]) ++
        (pushD Cell.framePointer ++ load Cell.framePointer ++ minus linkDepth ++
          ops [.loadI, .storeI]) ++
        moveStack k ++ store Cell.returnAddress)
      ⟨st, m, out⟩ ⟨st, K.unframed m S' F (.address i), out⟩ := by
  have hm' : K.Pointers (m.put .word K.fp (.int F)) E F := hm.put_fp
  have hra : ((m.put .word K.fp (.int F)).put .word K.sp (.address S')).Inside K.ra 4 := by
    simpa using hm.inside hm.ra_in
  exact (((takes_fetchReturn hm hS hle hr).append (takes_restoreFrame hm hS hle hlink)).append
    (hm'.takes_moveTo hk)).append (takes_store K.holds_ra hra)

end Cells

/-- Memory with the result of a subroutine, if it has one, at a place. -/
def Memory.putResult (m : Memory) (t : Ty) (S : Nat) (ws : List Word) : Memory :=
  ws.foldl (fun m w => m.put t.slot S w) m

@[simp] lemma Memory.size_putResult (m : Memory) (t : Ty) (S : Nat) (ws : List Word) :
    (m.putResult t S ws).size = m.size := by
  induction ws generalizing m with
  | nil => rfl
  | cons w ws ih =>
    show ((m.put t.slot S w).putResult t S ws).size = m.size
    rw [ih, Memory.size_put]

lemma Memory.fetch_putResult_of_below {m : Memory} {t : Ty} {S i : Nat} {s : Slot} {ws : List Word}
    (h : i + s.size ≤ S) : (m.putResult t S ws).fetch s i = m.fetch s i := by
  induction ws generalizing m with
  | nil => rfl
  | cons w ws ih =>
    show ((m.put t.slot S w).putResult t S ws).fetch s i = m.fetch s i
    rw [ih, Memory.fetch_put_of_apart (.inl h)]

/-- Either there is no result, or there is one that is kept in memory without loss. -/
lemma Ty.Returns.cases {t : Ty} {ws : List Word} (h : t.Returns ws) (ht : t.isResult) :
    (t = .void ∧ ws = []) ∨
      ∃ w, ws = [w] ∧ t.isVoid = false ∧ t.slot.Fits w ∧ t.size = t.slot.size := by
  unfold Returns at h
  split at h
  · next hvoid => exact .inl ⟨eq_void_of_isVoid hvoid, h⟩
  · next hvoid =>
    obtain ⟨w, hw, hfits⟩ := h
    have hvalue : t.isValue := by simpa [isResult, hvoid] using ht
    exact .inr ⟨w, hw, by simpa using hvoid, hfits, size_eq_of_isValue hvalue⟩

lemma Memory.byte_putResult_of_above {m : Memory} {t : Ty} {S k : Nat} {ws : List Word}
    (hw : t.Returns ws) (ht : t.isResult) (hk : S + t.size ≤ k) :
    (m.putResult t S ws).byte k = m.byte k := by
  obtain ⟨rfl, rfl⟩ | ⟨w, rfl, -, -, hsize⟩ := hw.cases ht
  · rfl
  · exact byte_put_of_apart (.inr (hsize ▸ hk))

/-- The result is there to be fetched. -/
lemma Memory.fetch_putResult {m : Memory} {t : Ty} {S : Nat} {ws : List Word}
    (hw : t.Returns ws) (ht : t.isResult) (hin : S + t.size ≤ m.size) :
    ∀ w ∈ ws, (m.putResult t S ws).fetch t.slot S = w := by
  obtain ⟨rfl, rfl⟩ | ⟨w, rfl, -, hfits, hsize⟩ := hw.cases ht
  · exact fun _ h => (List.not_mem_nil h).elim
  · intro u hu
    rw [List.mem_singleton.mp hu]
    exact fetch_put (hsize ▸ hin) hfits

namespace Cells

variable {P : Code} {K : Cells P} {m : Memory} {S : Nat} {F : Int32} {i j n : Nat}
  {st ws : List Word} {out : List UInt8} {w r : Word} {result : Ty}

lemma Pointers.putResult (hm : K.Pointers m S F) {p : Nat} (hp : K.fp + 4 ≤ p) :
    K.Pointers (m.putResult result p ws) S F := by
  induction ws generalizing m with
  | nil => exact hm
  | cons w ws ih => exact ih (hm.put hp)

lemma Pointers.takes_leaveResult (hm : K.Pointers m S F) (hresult : result.isResult)
    (hw : result.Returns ws) (hin : S + result.size ≤ m.size) :
    Takes P (if result.isVoid then [] else load Cell.stackPointer ++ ops [.exchange, result.storeOp])
      ⟨ws ++ st, m, out⟩ ⟨st, m.putResult result S ws, out⟩ := by
  obtain ⟨rfl, rfl⟩ | ⟨w, rfl, hvoid, hfits, hsize⟩ := hw.cases hresult
  · exact takes_nil _
  · have hswap : Takes P (ops [.exchange]) ⟨.address S :: w :: st, m, out⟩
        ⟨w :: .address S :: st, m, out⟩ := takes_effect rfl
    rw [if_neg (by simp [hvoid]), Ty.storeOp_eq]
    exact hm.takes_loadSp.append
      (takes_ops_cons hswap (takes_storeOp result.slot (hm.inside (hsize ▸ hin)) hfits))

lemma Pointers.takes_takeResult (hm : K.Pointers m S F) (hresult : result.isResult)
    (hw : result.Returns ws) (hin : S + result.size ≤ m.size) (hS : K.fp + 4 ≤ S) :
    Takes P (takeResult result) ⟨st, m.putResult result S ws, out⟩
      ⟨ws ++ st, (m.putResult result S ws).put .word K.sp (.address (S + result.size)), out⟩ := by
  unfold takeResult
  obtain ⟨rfl, rfl⟩ | ⟨w, rfl, hvoid, hfits, hsize⟩ := hw.cases hresult
  · have hsame : (m.putResult .void S []).put .word K.sp (.address (S + Ty.void.size)) = m :=
      Memory.put_word_self hm.sp
    rw [hsame]
    exact takes_nil _
  · have hm' : K.Pointers (m.putResult result S [w]) S F := hm.putResult hS
    have hload : Takes P (ops [result.slot.loadOp]) ⟨.address S :: st, m.putResult result S [w], out⟩
        ⟨w :: st, m.putResult result S [w], out⟩ := by
      apply takes_loadOp _
      · refine hm'.inside ?_
        rw [Memory.size_putResult, ← hsize]
        exact hin
      · exact Memory.fetch_put (hsize ▸ hin) hfits
    rw [if_neg (by simp [hvoid]), Ty.loadOp_eq]
    exact (hm'.takes_loadSp.append hload).append (hm'.takes_moveTo (by simp))

/-- From the way out of a subroutine to where it was called. -/
theorem reaches_return {E frameSize argSize S' : Nat} (hP : P.Numbered)
    (hm : K.Pointers m E (Int32.ofNat S)) (hS : K.fp + 12 ≤ S) (hle : S ≤ m.size)
    (hr : m.fetch .word (S - returnDepth) = .address i)
    (hlink : m.fetch .word (S - linkDepth) = .int F)
    (hresult : result.isResult) (hw : result.Returns ws)
    (hS' : E + frameSize + argSize = S' + result.size) (hin : S' + result.size ≤ m.size)
    (hfree : K.free ≤ S') (hi : i ≤ P.instrs.length)
    (hj : P.At j (epilogue frameSize argSize result)) :
    Reaches P ⟨j, ws ++ st, m, out⟩
      ⟨i, st, (K.unframed m S' F (.address i)).putResult result S' ws, out⟩ := by
  have hfp := K.fp_ra
  have hra := K.ra_free
  have hm' : K.Pointers (K.unframed m S' F (.address i)) S' F := hm.unframed (by omega)
  have hm'' : K.Pointers ((K.unframed m S' F (.address i)).putResult result S' ws) S' F :=
    hm'.putResult (by omega)
  have hfetch : ((K.unframed m S' F (.address i)).putResult result S' ws).fetch .word K.ra =
      .address i := by
    rw [Memory.fetch_putResult_of_below (by simp only [Slot.size]; omega)]
    refine Memory.fetch_put ?_ trivial
    simp only [Memory.size_put]
    exact hm.ra_in
  have hmove : (E : Int) + (frameSize + argSize - result.size) = S' := by omega
  rw [epilogue_eq] at hj
  refine .trans ?_ ⟨1, hj.right.steps_return hP hi⟩
  exact ((takes_unframe hm hS hle hr hlink hmove).append
    (hm'.takes_leaveResult hresult hw (by simpa using hin))).append
    (takes_load K.holds_ra (hm''.inside hm''.ra_in) hfetch) _ hj.left

/-! ## Calling -/

/-- Code that ran meanwhile left the pointers alone, and the bytes from `lo` up to `hi`. -/
structure Keeps (K : Cells P) (lo hi : Nat) (m m' : Memory) : Prop where
  sp : m'.fetch .word K.sp = m.fetch .word K.sp
  fp : m'.fetch .word K.fp = m.fetch .word K.fp
  bytes : ∀ k, lo ≤ k → k < hi → m'.byte k = m.byte k

lemma Keeps.pointers {lo hi : Nat} {m' : Memory} (h : K.Keeps lo hi m m') (hm : K.Pointers m S F)
    (hsize : m'.size = m.size) : K.Pointers m' S F where
  small := hsize ▸ hm.small
  cells := hsize ▸ hm.cells
  le := hsize ▸ hm.le
  sp := h.sp.trans hm.sp
  fp := h.fp.trans hm.fp

/-- **Evaluating arguments.** From the stack pointer on, each argument gets its place, and its code
pushes one value that fits there. Meanwhile the code may do what it likes to memory, as long as it
keeps the pointers and the arguments that are there already, which lie below `top`. -/
inductive Pushes (K : Cells P) (top : Nat) (st : List Word) : Nat → List Ty → List Code →
    Memory → List UInt8 → List Word → Memory → List UInt8 → Prop
  | nil (S : Nat) (m : Memory) (out : List UInt8) : K.Pushes top st S [] [] m out [] m out
  | cons {S : Nat} {t : Ty} {ts : List Ty} {a : Code} {as : List Code} {m m₁ m₂ : Memory}
      {out out₁ out₂ : List UInt8} {w : Word} {ws : List Word}
      (hcode : Takes P a
        ⟨.address (S - t.size) :: st, m.put .word K.sp (.address (S - t.size)), out⟩
        ⟨w :: .address (S - t.size) :: st, m₁, out₁⟩)
      (hw : t.slot.Fits w)
      (hkeep : K.Keeps S top (m.put .word K.sp (.address (S - t.size))) m₁)
      (hrest : K.Pushes top st (S - t.size) ts as (m₁.put t.slot (S - t.size) w) out₁ ws m₂ out₂) :
      K.Pushes top st S (t :: ts) (a :: as) m out (w :: ws) m₂ out₂

end Cells

/-- Values of given types lie next to each other below a place, the first one on top. -/
def Memory.Placed (m : Memory) : Nat → List Ty → List Word → Prop
  | S, t :: ts, w :: ws => m.fetch t.slot (S - t.size) = w ∧ m.Placed (S - t.size) ts ws
  | _, [], [] => True
  | _, _, _ => False

/-- The bytes that values of given types take. -/
def Ty.sizes (ts : List Ty) : Nat := (ts.map Ty.size).sum

lemma Ty.sizes_cons (t : Ty) (ts : List Ty) : Ty.sizes (t :: ts) = t.size + Ty.sizes ts := by
  simp [Ty.sizes]

/-- The values stay where they are if their bytes do. -/
lemma Memory.Placed.congr {m m' : Memory} {S : Nat} {ts : List Ty} {ws : List Word}
    (h : m.Placed S ts ws) (hts : ∀ t ∈ ts, t.isValue) (hS : Ty.sizes ts ≤ S)
    (hbytes : ∀ k, S - Ty.sizes ts ≤ k → k < S → m'.byte k = m.byte k) : m'.Placed S ts ws := by
  induction ts generalizing S ws with
  | nil => cases ws <;> exact h
  | cons t ts ih =>
    cases ws with
    | nil => exact h
    | cons w ws =>
      rw [Ty.sizes_cons] at hS hbytes
      have ht := Ty.size_eq_of_isValue (hts t (by simp))
      refine ⟨?_, ih h.2 (fun u hu => hts u (by simp [hu])) (by omega) fun k hk hk' => ?_⟩
      · rw [← h.1]
        exact fetch_congr fun k hk => hbytes _ (by omega) (by omega)
      · exact hbytes k (by omega) (by omega)

namespace Cells

variable {P : Code} {K : Cells P} {m m' : Memory} {S : Nat} {F : Int32} {i j n top : Nat}
  {st ws : List Word} {out out' : List UInt8} {w r : Word} {result : Ty} {ts : List Ty} {as : List Code}

namespace Pushes

/-- The state from which the code of the first argument is run, and the one that it leaves. -/
lemma pointers_head {t : Ty} {a : Code} {m₁ : Memory} {out₁ : List UInt8} (ht : t.isValue)
    (hm : K.Pointers m S F) (hS : K.fp + 4 + t.size ≤ S) (hat : P.At i a)
    (hcode : Takes P a
      ⟨.address (S - t.size) :: st, m.put .word K.sp (.address (S - t.size)), out⟩
      ⟨w :: .address (S - t.size) :: st, m₁, out₁⟩)
    (hkeep : K.Keeps S top (m.put .word K.sp (.address (S - t.size))) m₁) :
    K.Pointers (m.put .word K.sp (.address (S - t.size))) (S - t.size) F ∧
      K.Pointers m₁ (S - t.size) F ∧ S - t.size + t.slot.size ≤ m₁.size := by
  have hle := hm.le
  have hsize : m₁.size = m.size := (hcode.size_eq hat).trans (Memory.size_put _ _ _ _)
  have hm₀ : K.Pointers (m.put .word K.sp (.address (S - t.size))) (S - t.size) F :=
    hm.put_sp (by omega)
  have hslot := Ty.size_eq_of_isValue ht
  exact ⟨hm₀, hkeep.pointers hm₀ (hcode.size_eq hat), by omega⟩

lemma takes (h : K.Pushes top st S ts as m out ws m' out') (hts : ∀ t ∈ ts, t.isValue)
    (hm : K.Pointers m S F) (hS : K.fp + 4 + Ty.sizes ts ≤ S) (hat : P.At i (pushArgs ts as)) :
    Takes P (pushArgs ts as) ⟨st, m, out⟩ ⟨st, m', out'⟩ ∧ K.Pointers m' (S - Ty.sizes ts) F := by
  induction h generalizing i with
  | nil S m out => exact ⟨takes_nil _, hm⟩
  | @cons S t ts a as m m₁ m₂ out out₁ out₂ w ws hcode hw hkeep hrest ih =>
    rw [Ty.sizes_cons] at hS ⊢
    obtain ⟨hm₀, hm₁, hin⟩ := pointers_head (hts t (by simp)) hm (by omega) hat.left.left.right
      hcode hkeep
    obtain ⟨htakes, hpointers⟩ := ih (fun u hu => hts u (by simp [hu])) (hm₁.put (by omega))
      (by omega) hat.right
    have hmove : (S : Int) + -(t.size : Int) = (S - t.size : Nat) := by omega
    refine ⟨?_, by rwa [Nat.sub_sub] at hpointers⟩
    rw [pushArgs, Ty.storeOp_eq]
    exact ((((hm.takes_moveTo hmove).append hm₀.takes_loadSp).append hcode).append
      (takes_storeOp t.slot (hm₁.inside hin) hw)).append htakes

/-- What lies above the stack pointer is kept while arguments are pushed. -/
lemma bytes (h : K.Pushes top st S ts as m out ws m' out') (hts : ∀ t ∈ ts, t.isValue)
    (hS : K.sp + 4 + Ty.sizes ts ≤ S) :
    ∀ k, S ≤ k → k < top → m'.byte k = m.byte k := by
  induction h with
  | nil S m out => exact fun k _ _ => rfl
  | @cons S t ts a as m m₁ m₂ out out₁ out₂ w ws hcode hw hkeep hrest ih =>
    rw [Ty.sizes_cons] at hS
    have ht := Ty.size_eq_of_isValue (hts t (by simp))
    intro k hk htop
    rw [ih (fun u hu => hts u (by simp [hu])) (by omega) k (by omega) htop,
      Memory.byte_put_of_apart (.inr (by omega)), hkeep.bytes k hk htop,
      Memory.byte_put_of_apart (.inr (by simp only [Slot.size]; omega))]

/-- The arguments are where they belong. -/
lemma placed (h : K.Pushes top st S ts as m out ws m' out') (hts : ∀ t ∈ ts, t.isValue)
    (hm : K.Pointers m S F) (hS : K.fp + 4 + Ty.sizes ts ≤ S) (htop : S ≤ top)
    (hat : P.At i (pushArgs ts as)) : m'.Placed S ts ws := by
  induction h generalizing i with
  | nil S m out => trivial
  | @cons S t ts a as m m₁ m₂ out out₁ out₂ w ws hcode hw hkeep hrest ih =>
    rw [Ty.sizes_cons] at hS
    have hsp := K.sp_fp
    have hslot := Ty.size_eq_of_isValue (hts t (by simp))
    have hts' : ∀ u ∈ ts, u.isValue := fun u hu => hts u (by simp [hu])
    obtain ⟨-, hm₁, hin⟩ := pointers_head (hts t (by simp)) hm (by omega) hat.left.left.right
      hcode hkeep
    refine ⟨?_, ih hts' (hm₁.put (by omega)) (by omega) (by omega) hat.right⟩
    rw [← Memory.fetch_put hin hw]
    exact Memory.fetch_congr fun k hk => hrest.bytes hts' (by omega) _ (by omega) (by omega)

end Pushes

/-- A frame of `n` bytes below `base`, with what the caller needs to go on at instruction `c`. -/
structure Frame (K : Cells P) (m : Memory) (base n c : Nat) (F : Int32) : Prop where
  pointers : K.Pointers m (base - n) (Int32.ofNat base)
  le : base ≤ m.size
  return_eq : m.fetch .word (base - returnDepth) = .address c
  link_eq : m.fetch .word (base - linkDepth) = .int F

lemma Pointers.frame {H c : Nat} (hm : K.Pointers m S F) (hn : 8 ≤ n) (hstatic : K.free + 4 ≤ H)
    (hroom : H + n ≤ S) : K.Frame (K.framed m S (.address c) F n) S n c F := by
  have hsp := K.sp_fp
  have hfp := K.fp_ra
  have hra := K.ra_free
  have hle := hm.le
  have hmove : Int32.ofNat S + Int32.ofInt (-n) = Int32.ofNat (S - n) := ofNat_add_ofInt (by omega)
  have hsaved : K.Pointers (K.saved m S (.address c) F) S (Int32.ofNat S) := hm.saved (by omega)
  refine ⟨?_, by rw [size_framed]; exact hle, ?_, ?_⟩
  · rw [framed, hmove]
    exact hsaved.put_sp (by simp only [Cells.saved, Memory.size_put]; omega)
  · rw [framed, Cells.saved]
    simp only [returnDepth, linkDepth]
    rw [Memory.fetch_put_of_apart (.inr (by simp only [Slot.size]; omega)),
      Memory.fetch_put_of_apart (.inr (by simp only [Slot.size]; omega)),
      Memory.fetch_put_of_apart (.inl (by simp only [Slot.size]; omega))]
    exact Memory.fetch_put (by simp only [Slot.size]; omega) trivial
  · rw [framed, Cells.saved]
    simp only [returnDepth, linkDepth]
    rw [Memory.fetch_put_of_apart (.inr (by simp only [Slot.size]; omega)),
      Memory.fetch_put_of_apart (.inr (by simp only [Slot.size]; omega))]
    exact Memory.fetch_put (by simp only [Slot.size, Memory.size_put]; omega) trivial

end Cells

/-! ## The whole way -/

section Parts

variable {P : Code} {j e : Nat} {h : FuncHead} {l : LabelFamily} {implicitReturn : Bool} {body : Code}

lemma At.prologue (hsub : P.At j (subroutine h l implicitReturn body)) :
    P.At j (Lowering.prologue h.frameSize) :=
  hsub.left.left.left.left.right

lemma At.epilogue (hP : P.Numbered) (hsub : P.At j (subroutine h l implicitReturn body))
    (he : P.Marks (exitLabel l) e) :
    P.At e (Lowering.epilogue h.frameSize h.argSize h.result) := by
  obtain rfl := he.unique hP (hsub.left.right.marks hP)
  have hexit := hsub.right
  rwa [instrs_append, List.length_append, show (instrs (label (exitLabel l))).length = 0 from rfl,
    Nat.add_zero] at hexit

end Parts

namespace Cells

variable {P : Code} {K : Cells P} {m m₁ m₂ exit : Memory} {S : Nat} {F : Int32} {i j e H : Nat}
  {st ws rs : List Word} {out out₁ out₂ out₃ : List UInt8} {params : List Ty} {args : List Code}
  {callee body : Code} {h : FuncHead} {l : LabelFamily} {implicitReturn : Bool}

/-- From a call to the body of the subroutine. -/
theorem reaches_body (hP : P.Numbered) (hsite : P.At i (callSite params h.result args callee))
    (hsub : P.At j (subroutine h l implicitReturn body)) (hparams : ∀ t ∈ params, t.isValue)
    (hsize : h.argSize = Ty.sizes params) (hm : K.Pointers m S F)
    (hargs : K.Pushes S st S params args m out ws m₁ out₁)
    (hcallee : Takes P callee ⟨st, m₁, out₁⟩ ⟨.address j :: st, m₂, out₂⟩)
    (hkeep : K.Keeps (S - h.argSize) S m₁ m₂) (hfree : m₂.fetch .word K.free = .address H)
    (hstatic : K.free + 4 ≤ H) (hframe : 8 ≤ h.frameSize) (hroom : H + h.frameSize + h.argSize ≤ S) :
    Reaches P ⟨i, st, m, out⟩
      ⟨j + (prologue h.frameSize).instrs.length, st, K.framed m₂ (S - h.argSize)
        (.address (i + (pushArgs params args ++ callee).instrs.length + 1)) F h.frameSize, out₂⟩ := by
  have hfp := K.fp_ra
  have hra := K.ra_free
  obtain ⟨hpush, hm₁⟩ := hargs.takes hparams hm (by omega) hsite.left.left.left
  rw [← hsize] at hm₁
  have hm₂ := hkeep.pointers hm₁ (hcallee.size_eq hsite.left.left.right)
  have hentry : j ≤ P.instrs.length := by have := hsub.le; omega
  refine ((hpush.append hcallee) i hsite.left.left).trans (.trans ⟨1, hsite.left.right.steps_callV hP hentry⟩ ?_)
  exact hm₂.takes_prologue (by omega) hfree (by omega) j (At.prologue hsub)

/-- From the exit of a subroutine to the end of the call. -/
theorem reaches_callEnd {c : Nat} (hP : P.Numbered)
    (hat : P.At c (takeResult h.result)) (hsub : P.At j (subroutine h l implicitReturn body))
    (he : P.Marks (exitLabel l) e) (hresult : h.result.isResult) (hframe : 8 ≤ h.frameSize)
    (hS : S ≤ exit.size) (hroom : K.free + 4 + h.frameSize + h.argSize ≤ S)
    (hexit : K.Frame exit (S - h.argSize) h.frameSize c F) (hreturns : h.result.Returns rs) :
    ∃ back done, Reaches P ⟨e, rs ++ st, exit, out⟩ ⟨c, st, back, out⟩ ∧
      K.Pointers back (S - h.result.size) F ∧
      (∀ w ∈ rs, back.fetch h.result.slot (S - h.result.size) = w) ∧
      Reaches P ⟨c, st, back, out⟩ ⟨c + (takeResult h.result).instrs.length, rs ++ st, done, out⟩ ∧
      K.Pointers done S F ∧ ∀ k, S ≤ k → done.byte k = exit.byte k := by
  have hsp := K.sp_fp
  have hfp := K.fp_ra
  have hra := K.ra_free
  have hresultSize := h.result.size_le
  have hplace : S - h.result.size + h.result.size = S := by omega
  let caller := K.unframed exit (S - h.result.size) F (.address c)
  let back := caller.putResult h.result (S - h.result.size) rs
  have hcaller : K.Pointers caller (S - h.result.size) F := hexit.pointers.unframed (by omega)
  have hin : S - h.result.size + h.result.size ≤ caller.size := by
    rw [size_unframed]
    omega
  have hback : K.Pointers back (S - h.result.size) F := hcaller.putResult (by omega)
  have hreturned : Reaches P ⟨e, rs ++ st, exit, out⟩ ⟨c, st, back, out⟩ :=
    reaches_return hP hexit.pointers (by omega) hexit.le hexit.return_eq hexit.link_eq hresult
      hreturns (by omega) (by omega) (by omega) (by have := hat.le; omega) (At.epilogue hP hsub he)
  have htaken : Reaches P ⟨c, st, back, out⟩ ⟨c + (takeResult h.result).instrs.length, rs ++ st,
      back.put .word K.sp (.address (S - h.result.size + h.result.size)), out⟩ :=
    hcaller.takes_takeResult hresult hreturns hin (by omega) c hat
  rw [hplace] at htaken
  refine ⟨back, back.put .word K.sp (.address S), hreturned, hback,
    Memory.fetch_putResult hreturns hresult hin, htaken, hback.put_sp ?_, ?_⟩
  · rw [Memory.size_putResult, size_unframed]
    exact hS
  · intro k hk
    rw [Memory.byte_put_of_apart (.inr (by simp only [Slot.size]; omega)),
      Memory.byte_putResult_of_above hreturns hresult (by omega), byte_unframed (by omega)]

/-- **A call restores its caller.** From the first argument to the result: the body of the subroutine is
entered with its frame set up and the arguments in their places. If it then comes to the exit with that
frame and with its result on top of the operand stack of the caller, control is back behind the call,
with the result on the memory stack, and the rest of the call fetches it from there: both pointers are
what they were, the operand stack has the result on top and is otherwise what it was. -/
theorem call_restores (hP : P.Numbered) (hsite : P.At i (callSite params h.result args callee))
    (hsub : P.At j (subroutine h l implicitReturn body)) (he : P.Marks (exitLabel l) e)
    (hparams : ∀ t ∈ params, t.isValue) (hresult : h.result.isResult)
    (hsize : h.argSize = Ty.sizes params) (hframe : 8 ≤ h.frameSize) (hm : K.Pointers m S F)
    (hargs : K.Pushes S st S params args m out ws m₁ out₁)
    (hcallee : Takes P callee ⟨st, m₁, out₁⟩ ⟨.address j :: st, m₂, out₂⟩)
    (hkeep : K.Keeps (S - h.argSize) S m₁ m₂) (hfree : m₂.fetch .word K.free = .address H)
    (hstatic : K.free + 4 ≤ H) (hroom : H + h.frameSize + h.argSize ≤ S) :
    let base := S - h.argSize
    let next := i + (pushArgs params args ++ callee).instrs.length + 1
    let entry := K.framed m₂ base (.address next) F h.frameSize
    let start := j + (prologue h.frameSize).instrs.length
    Reaches P ⟨i, st, m, out⟩ ⟨start, st, entry, out₂⟩ ∧
    K.Frame entry base h.frameSize next F ∧ entry.Placed S params ws ∧
    ∀ rs exit out₃, Reaches P ⟨start, st, entry, out₂⟩ ⟨e, rs ++ st, exit, out₃⟩ →
      K.Frame exit base h.frameSize next F → h.result.Returns rs →
      ∃ back done, Reaches P ⟨i, st, m, out⟩ ⟨next, st, back, out₃⟩ ∧
        K.Pointers back (S - h.result.size) F ∧
        (∀ w ∈ rs, back.fetch h.result.slot (S - h.result.size) = w) ∧
        Reaches P ⟨next, st, back, out₃⟩
          ⟨i + (callSite params h.result args callee).instrs.length, rs ++ st, done, out₃⟩ ∧
        K.Pointers done S F ∧ ∀ k, S ≤ k → done.byte k = exit.byte k := by
  intro base next entry start
  have hsp := K.sp_fp
  have hfp := K.fp_ra
  have hra := K.ra_free
  have hle := hm.le
  have hentered : Reaches P ⟨i, st, m, out⟩ ⟨start, st, entry, out₂⟩ :=
    reaches_body hP hsite hsub hparams hsize hm hargs hcallee hkeep hfree hstatic hframe hroom
  obtain ⟨-, hm₁⟩ := hargs.takes hparams hm (by omega) hsite.left.left.left
  rw [← hsize] at hm₁
  have hm₂ := hkeep.pointers hm₁ (hcallee.size_eq hsite.left.left.right)
  refine ⟨hentered, hm₂.frame hframe hstatic (by omega), ?_, ?_⟩
  · have hargs₁ := hargs.placed hparams hm (by omega) le_rfl hsite.left.left.left
    apply hargs₁.congr hparams (by omega)
    intro k hk hk'
    rw [← hsize] at hk
    rw [← hkeep.bytes k hk hk']
    exact byte_framed (.inr hk) (by omega) (by omega) (by simp only [returnDepth]; omega)
  · intro rs exit out₃ hbody hexit hreturns
    have hexitSize : exit.size = m.size := (hentered.trans hbody).size_eq
    have hnext : i + (pushArgs params args ++ callee ++ ops [.callV]).instrs.length = next := by
      rw [instrs_append _ (ops [.callV]), List.length_append]
      rfl
    have hat : P.At next (takeResult h.result) := hnext ▸ hsite.right
    have hend : i + (callSite params h.result args callee).instrs.length =
        next + (takeResult h.result).instrs.length := by
      rw [← hnext, callSite, instrs_append _ (takeResult _), List.length_append, Nat.add_assoc]
    obtain ⟨back, done, hreturned, hback, hvalue, htaken, hdone, hbytes⟩ :=
      reaches_callEnd hP hat hsub he hresult hframe (hexitSize ▸ hle) (by omega) hexit hreturns
    rw [hend]
    exact ⟨back, done, (hentered.trans hbody).trans hreturned, hback, hvalue, htaken, hdone, hbytes⟩

end Cells

/-! ## A call whose result lies over the saved words -/

namespace OverlappingCall

def labels : LabelFamily := ⟨"function", 1⟩

/-- A subroutine with one byte of arguments whose result takes eight. -/
def head : FuncHead where
  name := "f"
  params := [{ place := {}, name := "c", declared := .character }]
  result := .float
  frameSize := 8
  argSize := 1

/-- One and a half. -/
def value : Binary64 := ⟨0x3ff8000000000000⟩

def caller : Code :=
  callSite [.character] head.result [pushI 65] (pushD (startLabel labels))

def callee : Code :=
  subroutine head labels false (pushF value ++ Code.jump (exitLabel labels))

/-- The call, the subroutine, the traps it mentions and the cells. -/
def program : Code :=
  caller ++ ops [.halt] ++ callee ++ label Trap.functionRunoff.label ++
    label Trap.heapExhausted.label ++ ops [.halt] ++
    Environment.wordCell Cell.stackPointer ++ Environment.wordCell Cell.framePointer ++
    Environment.wordCell Cell.returnAddress ++ Environment.wordCell Cell.heapNextFree

lemma numbered : program.Numbered where
  assemblable := ⟨by decide, by decide, by decide⟩
  short := by decide

/-- The cells lie one after the other. -/
def cells : Cells program where
  sp := 0
  fp := 4
  ra := 8
  free := 12
  holds_sp := by decide
  holds_fp := by decide
  holds_ra := by decide
  holds_free := by decide
  sp_fp := by decide
  fp_ra := by decide
  ra_free := by decide

/-- Forty bytes, with the stack at their end and the heap behind the cells. -/
def memory : Memory :=
  (((Memory.mk ⟨Array.replicate 40 0⟩).put .word 12 (.address 16)).put .word 4 (.int 7)).put .word 0
    (.address 40)

lemma pointers : cells.Pointers memory 40 7 where
  small := by decide
  cells := by decide
  le := by decide
  sp := by decide
  fp := by decide

lemma at_both : program.At 0 (caller ++ ops [.halt] ++ callee) :=
  (at_self program).left.left.left.left.left.left.left

/-- Where the subroutine starts, its body and its way out. -/
def entry : Nat := (caller ++ ops [.halt]).instrs.length

def start : Nat := entry + (prologue head.frameSize).instrs.length

def exit : Nat := start + 3

lemma at_callee : program.At entry callee := Nat.zero_add entry ▸ at_both.right

lemma at_body : program.At start (pushF value ++ Code.jump (exitLabel labels)) :=
  at_callee.left.left.left.right

lemma marks_exit : program.Marks (exitLabel labels) exit := at_callee.left.right.marks numbered

lemma at_trap : program.At (entry + callee.instrs.length) (label Trap.heapExhausted.label) :=
  (at_self program).left.left.left.left.left.right

lemma reaches_exit (m : Memory) :
    Reaches program ⟨start, [], m, []⟩ ⟨exit, [.float value], m, []⟩ :=
  (takes_pushF value start at_body.left).trans ⟨1, at_body.right.steps_jump numbered marks_exit _⟩

end OverlappingCall

open OverlappingCall in
/-- The frame of eight bytes does not fit between the stack at 40 and a heap that ends at 33. -/
theorem Cells.prologue_guards_overlapping : Reaches program
    ⟨entry, [.address 0], memory.put .word 12 (.address 33), []⟩
    ⟨entry + (callee.instrs.length), [], cells.framed (memory.put .word 12 (.address 33)) 40
      (.address 0) 7 8, []⟩ := by
  have hmarks : program.Marks Trap.heapExhausted.label (entry + callee.instrs.length) :=
    at_trap.marks numbered
  have hfree : (memory.put .word 12 (.address 33)).fetch .word 12 = .address 33 :=
    Memory.fetch_put (by decide) trivial
  exact (Cells.prologue_guards numbered (pointers.put (by decide)) (by decide) hfree (by decide)
    (by decide) hmarks (At.prologue at_callee)).1 (by decide)

open OverlappingCall in
/-- The result of eight bytes comes back whole, although it is put over the argument, the saved frame
pointer and a part of the saved return address. -/
theorem Cells.call_restores_overlapping :
    ∃ back done, Reaches program ⟨0, [], memory, []⟩ ⟨12, [], back, []⟩ ∧
      cells.Pointers back 32 7 ∧ back.fetch .double 32 = .float value ∧
      Reaches program ⟨12, [], back, []⟩ ⟨caller.instrs.length, [.float value], done, []⟩ ∧
      cells.Pointers done 40 7 := by
  have hpush : cells.Pushes 40 [] 40 [.character] [pushI 65] memory [] [.int 65]
      ((memory.put .word 0 (.address 39)).put .byte 39 (.int 65)) [] :=
    .cons (takes_pushI 65) (by decide) ⟨rfl, rfl, fun _ _ _ => rfl⟩ (.nil _ _ _)
  have hstart : program.Holds (startLabel labels) entry := by decide
  have hfree : ((memory.put .word 0 (.address 39)).put .byte 39 (.int 65)).fetch .word 12 =
      .address 16 := by
    rw [Memory.fetch_put_of_apart (by decide), Memory.fetch_put_of_apart (by decide)]
    decide
  have hreturns : head.result.Returns [.float value] := ⟨.float value, rfl, trivial⟩
  obtain ⟨-, hframe, -, hback⟩ := Cells.call_restores (h := head) (H := 16) numbered
    at_both.left.left at_callee marks_exit (by simp [Ty.isValue]) (by decide) (by decide) (by decide)
    pointers hpush (takes_pushD_address hstart) ⟨rfl, rfl, fun _ _ _ => rfl⟩ hfree (by decide)
    (by decide)
  obtain ⟨back, done, hnext, hpointers, hvalue, hend, hdone, -⟩ :=
    hback [.float value] _ [] (reaches_exit _) hframe hreturns
  rw [Nat.zero_add] at hend
  exact ⟨back, done, hnext, hpointers, hvalue _ (by simp), hend, hdone⟩

end SubrLang
