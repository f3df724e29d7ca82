import SubrLang.Proofs.CallingConvention
import SubrLang.Proofs.Checking

/-!
# Arguments lie where parameters are read

The places of the parameters are computed twice. A caller takes the sizes of the types off the stack
pointer one after the other and stores each argument there; the symbol table hands out the bytes upward
while the parameters are declared, and places them downward from the end when the list is closed.

**Sizes.** Both come down to the sizes of the first types of a list (`Ty.sizes_take_succ`). A byte of the
whole belongs to exactly one type (`Ty.exists_from_end_iff`, `Ty.from_end_unique`).

**The table.** `SymbolTable.withParams` opens a list, declares the parameters and closes it, which is what
checking does if there is no error (`Check.closeParams_eq_withParams`). `SymbolTable.withParams_spec` says
that it succeeds and where the parameters are then.

**The call.** `Cells.Calling` is a call with what happens until the body of the subroutine starts.
`Cells.Pushes.reaches_store` finds the place of an argument on the operand stack when the argument is
stored.
-/

namespace SubrLang

open Code Lowering

/-! ## Sizes -/

namespace Ty

variable {ts : List Ty} {i j : Nat}

lemma sizes_append (ts us : List Ty) : sizes (ts ++ us) = sizes ts + sizes us := by
  simp [sizes]

lemma sizes_take_succ (hi : i < ts.length) :
    sizes (ts.take (i + 1)) = sizes (ts.take i) + ts[i].size := by
  rw [← List.take_append_getElem hi, sizes_append]
  simp [sizes]

lemma sizes_take_le (ts : List Ty) (i : Nat) : sizes (ts.take i) ≤ sizes ts := by
  have hall := sizes_append (ts.take i) (ts.drop i)
  rw [List.take_append_drop] at hall
  omega

lemma sizes_take_mono (ts : List Ty) (h : i ≤ j) : sizes (ts.take i) ≤ sizes (ts.take j) := by
  have hle := sizes_take_le (ts.take j) i
  rwa [List.take_take, Nat.min_eq_left h] at hle

/-- A byte of all values belongs to one of them. -/
lemma exists_take_sizes {n : Nat} (h : n < sizes ts) :
    ∃ i < ts.length, sizes (ts.take i) ≤ n ∧ n < sizes (ts.take (i + 1)) := by
  induction ts generalizing n with
  | nil => simp [sizes] at h
  | cons t ts ih =>
    rw [sizes_cons] at h
    by_cases hfirst : n < t.size
    · exact ⟨0, by simp, by simp [sizes], by simpa [sizes] using hfirst⟩
    · obtain ⟨i, hi, hle, hlt⟩ := ih (n := n - t.size) (by omega)
      refine ⟨i + 1, by simpa using hi, ?_, ?_⟩
      · rw [List.take_succ_cons, sizes_cons]
        omega
      · rw [List.take_succ_cons, sizes_cons]
        omega

/-- The values laid out downward from the end, the first one highest: they fill the whole. -/
lemma exists_from_end_iff (ts : List Ty) (o : Int) : (0 ≤ o ∧ o < sizes ts) ↔
    ∃ i < ts.length, (sizes ts - sizes (ts.take (i + 1)) : Int) ≤ o ∧
      o < sizes ts - sizes (ts.take i) := by
  constructor
  · rintro ⟨hnonneg, hlt⟩
    have hfromEnd : sizes ts - 1 - o.toNat < sizes ts := by omega
    obtain ⟨i, hi, hle, hlt'⟩ := exists_take_sizes hfromEnd
    exact ⟨i, hi, by omega, by omega⟩
  · rintro ⟨i, -, hle, hlt⟩
    have hpart := sizes_take_le ts (i + 1)
    omega

/-- No byte belongs to two of them. -/
lemma from_end_unique {o : Int} (hi : sizes ts - sizes (ts.take (i + 1)) ≤ o)
    (hi' : o < sizes ts - sizes (ts.take i)) (hj : sizes ts - sizes (ts.take (j + 1)) ≤ o)
    (hj' : o < sizes ts - sizes (ts.take j)) : i = j := by
  rcases Nat.lt_trichotomy i j with h | h | h
  · have hmono := sizes_take_mono ts (show i + 1 ≤ j from h)
    omega
  · exact h
  · have hmono := sizes_take_mono ts (show j + 1 ≤ i from h)
    omega

end Ty

/-! ## The table -/

/-- The types of the parameters of a subroutine. -/
def FuncHead.types (h : FuncHead) : List Ty := h.params.map (·.declared)

namespace FuncHead

lemma sizes_types (h : FuncHead) : Ty.sizes h.types = h.argBytes := by
  rw [Ty.sizes, types, argBytes, List.map_map]
  rfl

@[simp] lemma length_types (h : FuncHead) : h.types.length = h.params.length := by simp [types]

/-- Where a parameter is placed. -/
lemma getElem_placed (k : Nat) {ps : List Param} {top : Int} {i : Nat} (hi : i < ps.length) :
    (placed k top ps)[i]? = some
      { name := ps[i].name, ty := ps[i].declared, mutable := true, base := .frame,
        offset := top - Ty.sizes ((ps.map (·.declared)).take (i + 1)), frame := k } := by
  induction ps generalizing top i with
  | nil => simp at hi
  | cons p ps ih =>
    cases i with
    | zero => simp [placed, Ty.sizes]
    | succ i =>
      rw [placed, List.getElem?_cons_succ, ih (by simpa using hi)]
      simp only [List.map_cons, List.take_succ_cons, Ty.sizes_cons, List.getElem_cons_succ,
        Option.some.injEq, Binding.mk.injEq, true_and, and_true]
      omega

end FuncHead

namespace SymbolTable

variable {t : SymbolTable} {s : Nat}

/-- Opens a list of parameters in a scope, declares them and closes the list. -/
def withParams (t : SymbolTable) (s : Nat) (ps : List Param) : Except ScopeError SymbolTable := do
  let (t, params) := t.openParams s
  let t ← ps.foldlM (fun t p => return (← t.declare params p.name p.declared true).1) t
  t.closeParams params

lemma foldlM_declare {ps : List Param} (ht : t.Good) (hs : s < t.scopes.size)
    (hnames : (ps.map (·.name)).Nodup) (hnew : ∀ p ∈ ps, t.lookupLocal s p.name = none) :
    ps.foldlM (fun t p => return (← t.declare s p.name p.declared true).1) t =
      (.ok (t.declaredParams s ps) : Except ScopeError SymbolTable) := by
  induction ps generalizing t with
  | nil => rfl
  | cons p ps ih =>
    rw [List.map_cons, List.nodup_cons] at hnames
    have hone : t.declare s p.name p.declared true =
        .ok (t.declared s p.name p.declared true, t.bindings.size) :=
      declare_eq (hnew p List.mem_cons_self) _ _
    have hrest := ih (good_declared p.name p.declared true ht hs) (by simpa using hs) hnames.2 ?_
    · rw [List.foldlM_cons, hone]
      exact hrest
    · intro q hq
      have hne : q.name ≠ p.name := fun h => hnames.1 (h ▸ List.mem_map_of_mem hq)
      rw [Check.lookupLocal_declared hs, if_neg (by simpa using hne)]
      exact hnew q (List.mem_cons_of_mem _ hq)

/-- Parameters with different names can be declared. When the list is closed, the first one lies highest
above the frame pointer. -/
lemma withParams_spec (ht : t.Good) (hs : s < t.scopes.size) (h : FuncHead)
    (hnames : (h.params.map (·.name)).Nodup) :
    ∃ t', t.withParams s h.params = .ok t' ∧ t'.allocatedSize t.scopes.size = Ty.sizes h.types ∧
      ∀ i (hi : i < h.params.length), t'.binding (t.bindings.size + i) =
        { name := h.params[i].name, ty := h.params[i].declared, mutable := true, base := .frame,
          offset := Ty.sizes h.types - Ty.sizes (h.types.take (i + 1)), frame := t.frames } := by
  have hsize : t.scopes.size < (t.openedParams s).scopes.size := by
    simp [openedParams, openParams, addScope]
  have hregion : ((t.openedParams s).allocator t.scopes.size).region = .params := by
    rw [allocator_openedParams]
  have hp := paramsDeclared h.params (good_openedParams ht hs) hsize hregion
  obtain ⟨-, hbindings, -, -⟩ := opened_spec ht hs h
  set t₁ := (t.openedParams s).declaredParams t.scopes.size h.params
  have hdeclared : h.params.foldlM
      (fun t' p => return (← t'.declare t.scopes.size p.name p.declared true).1) (t.openedParams s) =
        (.ok t₁ : Except ScopeError SymbolTable) := by
    refine foldlM_declare (good_openedParams ht hs) hsize hnames fun p _ => ?_
    rw [lookupLocal, scope_openedParams_self]
    rfl
  refine ⟨{ t₁ with
      bindings := placeParams t₁.bindings (t₁.allocator t.scopes.size).used
        (t₁.allocator t.scopes.size).params }, ?_, ?_, fun i hi => ?_⟩
  · show (h.params.foldlM _ (t.openedParams s) >>= fun t' => t'.closeParams t.scopes.size) = _
    rw [hdeclared]
    exact if_pos (hp.growsAt.region_at.trans hregion)
  · show (t₁.allocator t.scopes.size).peak = _
    rw [hp.peak (by rw [allocator_openedParams]), hp.used, allocator_openedParams, h.sizes_types]
    exact Nat.zero_add _
  · have hget := congrArg (·[i]?) hbindings
    simp only [FuncHead.bindings, FuncHead.getElem_placed t.frames hi] at hget
    rw [List.getElem?_map, List.getElem?_range' hi, Option.map_some, Option.some.injEq, Nat.one_mul]
      at hget
    rw [h.sizes_types]
    exact hget

end SymbolTable

/-- Checking parameters without an error declares them in a list of their own. -/
lemma Check.closeParams_eq_withParams {st : CheckState} (hst : st.Ok) (ps : List Param)
    (hclean : ((declareParams ps).run (atParams st)).2.isClean) :
    ((declareParams ps).run (atParams st)).2.table.closeParams st.table.scopes.size =
      st.table.withParams st.scope ps := by
  have hok := ok_atParams hst
  have hps := (declareParams_spec ps hok).2 hclean
  have hdeclared := SymbolTable.foldlM_declare hok.good hok.scope_lt hps.distinct hps.free
  have hclosed := congrArg (fun r => r >>= fun t => t.closeParams st.table.scopes.size) hdeclared
  rw [hps.table]
  exact hclosed.symm

/-- A byte at a distance from the base belongs to a variable. -/
def Binding.Covers (b : Binding) (o : Int) : Prop := b.offset ≤ o ∧ o < b.offset + b.ty.size

/-! ## The call -/

/-- A value is found as many bytes below the place as the values up to it take. -/
lemma Memory.Placed.getElem? {m : Memory} {S : Nat} {ts : List Ty} {ws : List Word}
    (h : m.Placed S ts ws) {i : Nat} (hi : i < ts.length) :
    ws[i]? = some (m.fetch ts[i].slot (S - Ty.sizes (ts.take (i + 1)))) := by
  induction ts generalizing S ws i with
  | nil => simp at hi
  | cons t ts ih =>
    cases ws with
    | nil => exact h.elim
    | cons w ws =>
      cases i with
      | zero => simp [Ty.sizes, ← h.1]
      | succ i =>
        rw [List.getElem?_cons_succ, ih h.2 (by simpa using hi), List.take_succ_cons, Ty.sizes_cons,
          Nat.sub_sub]
        rfl

namespace Cells

variable {P : Code} {K : Cells P} {m m' : Memory} {S top i j : Nat} {F : Int32} {st ws : List Word}
  {out out' : List UInt8} {ts : List Ty} {as : List Code}

/-- Leaves the place of an argument and, above it, the argument. -/
def argument (t : Ty) (a : Code) : Code := moveStack (-(t.size : Int)) ++ load Cell.stackPointer ++ a

/-- When an argument is stored, the address below it on the operand stack is the stack pointer less the
sizes of the arguments up to this one. -/
lemma Pushes.reaches_store (h : K.Pushes top st S ts as m out ws m' out') (hts : ∀ t ∈ ts, t.isValue)
    (hm : K.Pointers m S F) (hS : K.fp + 4 + Ty.sizes ts ≤ S) (hat : P.At j (pushArgs ts as))
    (hi : i < ts.length) :
    ∃ front m₀ out₀ w, ws[i]? = some w ∧
      pushArgs ts as =
        front ++ (ops [ts[i].storeOp] ++ pushArgs (ts.drop (i + 1)) (as.drop (i + 1))) ∧
      Reaches P ⟨j, st, m, out⟩ ⟨j + front.instrs.length,
        w :: .address (S - Ty.sizes (ts.take (i + 1))) :: st, m₀, out₀⟩ := by
  induction h generalizing i j with
  | nil S m out => simp at hi
  | @cons S t ts a as m m₁ m₂ out out₁ out₂ w ws hcode hw hkeep hrest ih =>
    rw [Ty.sizes_cons] at hS
    obtain ⟨hm₀, hm₁, hin⟩ := pointers_head (hts t (by simp)) hm (by omega) hat.left.left.right
      hcode hkeep
    have hmove : (S : Int) + -(t.size : Int) = (S - t.size : Nat) := by omega
    have hvalue : Takes P (argument t a) ⟨st, m, out⟩
        ⟨w :: .address (S - t.size) :: st, m₁, out₁⟩ :=
      ((hm.takes_moveTo hmove).append hm₀.takes_loadSp).append hcode
    cases i with
    | zero =>
      refine ⟨argument t a, m₁, out₁, w, rfl, ?_, ?_⟩
      · simp [pushArgs, argument]
      · simpa [Ty.sizes] using hvalue j hat.left.left
    | succ i =>
      have hstore : Takes P (ops [t.storeOp]) ⟨w :: .address (S - t.size) :: st, m₁, out₁⟩
          ⟨st, m₁.put t.slot (S - t.size) w, out₁⟩ := by
        rw [Ty.storeOp_eq]
        exact takes_storeOp t.slot (hm₁.inside hin) hw
      obtain ⟨front, m₀, out₀, v, hv, hcode', hreaches⟩ := ih (fun u hu => hts u (by simp [hu]))
        (hm₁.put (by omega)) (by omega) hat.right (by simpa using hi)
      refine ⟨argument t a ++ ops [t.storeOp] ++ front, m₀, out₀, v, hv, ?_, ?_⟩
      · rw [pushArgs, hcode']
        simp [argument]
      · have hall := ((hvalue.append hstore) j hat.left).trans hreaches
        rw [Nat.sub_sub, ← Ty.sizes_cons, ← List.take_succ_cons] at hall
        rw [instrs_append _ front, List.length_append, ← Nat.add_assoc]
        exact hall

/-- A call of a subroutine, with what happens until its body starts: the arguments are pushed, the
subroutine is found, and there is room for arguments and frame. -/
structure Calling {P : Code} (K : Cells P) (f : FuncHead) (params : List Ty) where
  numbered : P.Numbered
  -- the code
  site : Nat
  entry : Nat
  args : List Code
  callee : Code
  labels : LabelFamily
  implicitReturn : Bool
  body : Code
  at_site : P.At site (callSite params f.result args callee)
  at_entry : P.At entry (subroutine f labels implicitReturn body)
  isValue : ∀ t ∈ params, t.isValue
  -- the caller
  sp : Nat
  fp : Int32
  stack : List Word
  memory : Memory
  output : List UInt8
  pointers : K.Pointers memory sp fp
  -- the run
  values : List Word
  pushed : Memory
  pushedOutput : List UInt8
  called : Memory
  calledOutput : List UInt8
  pushes : K.Pushes sp stack sp params args memory output values pushed pushedOutput
  takes_callee : Takes P callee ⟨stack, pushed, pushedOutput⟩
    ⟨.address entry :: stack, called, calledOutput⟩
  keeps : K.Keeps (sp - f.argSize) sp pushed called
  free : Nat
  fetch_free : called.fetch .word K.free = .address free
  cells_free : K.free + 4 ≤ free
  saved_frame : 8 ≤ f.frameSize
  room : free + f.frameSize + f.argSize ≤ sp

namespace Calling

variable {f : FuncHead} (C : K.Calling f ts)

/-- Where the call starts. -/
def start : Config := ⟨C.site, C.stack, C.memory, C.output⟩

/-- The frame pointer of the subroutine. -/
def base : Nat := C.sp - f.argSize

/-- Memory when the frame is set up. -/
def framed : Memory :=
  K.framed C.called C.base (.address (C.site + (pushArgs ts C.args ++ C.callee).instrs.length + 1)) C.fp
    f.frameSize

/-- Where the body of the subroutine starts. -/
def entered : Config :=
  ⟨C.entry + (prologue f.frameSize).instrs.length, C.stack, C.framed, C.calledOutput⟩

section

variable (hsize : f.argSize = Ty.sizes ts)

include hsize

lemma reaches_entered : Reaches P C.start C.entered :=
  reaches_body C.numbered C.at_site C.at_entry C.isValue hsize C.pointers C.pushes C.takes_callee C.keeps
    C.fetch_free C.cells_free C.saved_frame C.room

/-- There is room for the arguments. -/
lemma sizes_le : K.fp + 4 + Ty.sizes ts ≤ C.sp := by
  have hfp := K.fp_ra
  have hra := K.ra_free
  have hfree := C.cells_free
  have hroom := C.room
  omega

lemma pointers_called : K.Pointers C.called C.base C.fp := by
  obtain ⟨-, hpushed⟩ := C.pushes.takes C.isValue C.pointers (C.sizes_le hsize) C.at_site.left.left.left
  rw [← hsize] at hpushed
  exact C.keeps.pointers hpushed (C.takes_callee.size_eq C.at_site.left.left.right)

/-- The prologue makes the place where the arguments start the frame pointer. -/
lemma fetch_fp : C.framed.fetch .word K.fp = .address C.base := by
  have hroom := C.room
  have hframe : C.free + f.frameSize ≤ C.base := by
    rw [base]
    omega
  exact ((C.pointers_called hsize).frame C.saved_frame C.cells_free hframe).pointers.fp

lemma placed : C.framed.Placed C.sp ts C.values := by
  have hle := C.sizes_le hsize
  have hsp := K.sp_fp
  have hfp := K.fp_ra
  have hra := K.ra_free
  have hfree := C.cells_free
  have hroom := C.room
  have hsaved := C.saved_frame
  have hargs := C.pushes.placed C.isValue C.pointers hle le_rfl C.at_site.left.left.left
  apply hargs.congr C.isValue (by omega)
  intro k hk hk'
  rw [← hsize] at hk
  rw [← C.keeps.bytes k hk hk', framed]
  exact byte_framed (.inr hk) (by omega) (by omega) (by simp only [base, returnDepth]; omega)

end

end Calling

end Cells

/-! ## A call with arguments of all sizes -/

namespace MixedCall

open OverlappingCall (labels value)

/-- A subroutine with arguments of one, eight and four bytes. -/
def head : FuncHead where
  name := "f"
  params := [{ place := {}, name := "c", declared := .character },
    { place := {}, name := "x", declared := .float }, { place := {}, name := "n", declared := .integer }]
  result := .void
  frameSize := 8
  argSize := 13

def args : List Code := [pushI 65, pushF value, pushI 7]

def caller : Code := callSite head.types head.result args (pushD (startLabel labels))

def callee : Code := subroutine head labels true []

/-- The call, the subroutine, the trap that it mentions and the cells. -/
def program : Code :=
  caller ++ ops [.halt] ++ callee ++ label Trap.heapExhausted.label ++ ops [.halt] ++
    Environment.wordCell Cell.stackPointer ++ Environment.wordCell Cell.framePointer ++
    Environment.wordCell Cell.returnAddress ++ Environment.wordCell Cell.heapNextFree

lemma numbered : program.Numbered where
  assemblable := ⟨by decide, by decide, by decide⟩
  short := by decide

/-- The cells lie where they do in the overlapping call. -/
def cells : Cells program where
  sp := 0
  fp := 4
  ra := 8
  free := 12
  holds_sp := by decide
  holds_fp := by decide
  holds_ra := by decide
  holds_free := by decide
  sp_fp := OverlappingCall.cells.sp_fp
  fp_ra := OverlappingCall.cells.fp_ra
  ra_free := OverlappingCall.cells.ra_free

/-- Forty bytes, with the stack at their end and the heap behind the cells. -/
def memory : Memory :=
  (((Memory.mk ⟨Array.replicate 40 0⟩).put .word 12 (.address 16)).put .word 4 (.int 9)).put .word 0
    (.address 40)

/-- Memory with the arguments. -/
def pushed : Memory :=
  (((((memory.put .word 0 (.address 39)).put .byte 39 (.int 65)).put .word 0 (.address 31)).put .double 31
    (.float value)).put .word 0 (.address 27)).put .word 27 (.int 7)

lemma at_both : program.At 0 (caller ++ ops [.halt] ++ callee) :=
  (at_self program).left.left.left.left.left.left

def entry : Nat := (caller ++ ops [.halt]).instrs.length

lemma pushes : cells.Pushes 40 [] 40 head.types args memory [] [.int 65, .float value, .int 7] pushed [] :=
  .cons (takes_pushI 65) (by decide) ⟨rfl, rfl, fun _ _ _ => rfl⟩
    (.cons (takes_pushF value) trivial ⟨rfl, rfl, fun _ _ _ => rfl⟩
      (.cons (takes_pushI 7) trivial ⟨rfl, rfl, fun _ _ _ => rfl⟩ (.nil _ _ _)))

lemma fetch_free : pushed.fetch .word 12 = .address 16 := by
  simp only [pushed]
  iterate 6 rw [Memory.fetch_put_of_apart (by decide)]
  decide

/-- The call of the subroutine. -/
def call : cells.Calling head head.types where
  numbered := numbered
  site := 0
  entry := entry
  args := args
  callee := pushD (startLabel labels)
  labels := labels
  implicitReturn := true
  body := []
  at_site := at_both.left.left
  at_entry := Nat.zero_add entry ▸ at_both.right
  isValue := by simp [head, FuncHead.types, Ty.isValue]
  sp := 40
  fp := 9
  stack := []
  memory := memory
  output := []
  pointers := ⟨by decide, by decide, by decide, by decide, by decide⟩
  values := [.int 65, .float value, .int 7]
  pushed := pushed
  pushedOutput := []
  called := pushed
  calledOutput := []
  pushes := pushes
  takes_callee := takes_pushD_address (by decide)
  keeps := ⟨rfl, rfl, fun _ _ _ => rfl⟩
  free := 16
  fetch_free := fetch_free
  cells_free := by decide
  saved_frame := by decide
  room := by decide

end MixedCall

/-! ## Both together -/

/-- **Arguments lie where parameters are read.** Parameters with different names can be declared. The bytes
above the frame pointer that they take are as many as the caller takes off the stack pointer, and each
belongs to one of them. The place at which a call stores an argument is the frame pointer of the
subroutine plus the offset of the parameter, and the argument is there when the body starts. -/
theorem arguments_meet_parameters {t : SymbolTable} {s : Nat} (ht : t.Good) (hs : s < t.scopes.size)
    (h : FuncHead) (hnames : (h.params.map (·.name)).Nodup) :
    ∃ t', t.withParams s h.params = .ok t' ∧
      t'.allocatedSize t.scopes.size = Ty.sizes h.types ∧
      (∀ i (hi : i < h.params.length), let b := t'.binding (t.bindings.size + i)
        b.name = h.params[i].name ∧ b.ty = h.params[i].declared ∧ b.base = .frame) ∧
      (∀ o : Int, (0 ≤ o ∧ o < t'.allocatedSize t.scopes.size) ↔
        ∃ i < h.params.length, (t'.binding (t.bindings.size + i)).Covers o) ∧
      (∀ i < h.params.length, ∀ j < h.params.length, ∀ o,
        (t'.binding (t.bindings.size + i)).Covers o → (t'.binding (t.bindings.size + j)).Covers o →
          i = j) ∧
      ∀ {P : Code} {K : Cells P} {f : FuncHead} (C : K.Calling f h.types),
        f.argSize = t'.allocatedSize t.scopes.size →
          Reaches P C.start C.entered ∧ C.framed.fetch .word K.fp = .address C.base ∧
          ∀ i (hi : i < h.types.length), ∃ (a : Nat) (front : Code) (m : Memory) (out : List UInt8),
            (a : Int) = C.sp - Ty.sizes (h.types.take (i + 1)) ∧
            (a : Int) = C.base + (t'.binding (t.bindings.size + i)).offset ∧
            pushArgs h.types C.args = front ++ (ops [h.types[i].storeOp] ++
              pushArgs (h.types.drop (i + 1)) (C.args.drop (i + 1))) ∧
            Reaches P C.start ⟨C.site + front.instrs.length,
              C.framed.fetch h.types[i].slot a :: .address a :: C.stack, m, out⟩ := by
  obtain ⟨t', hopened, hsize, hbinding⟩ := SymbolTable.withParams_spec ht hs h hnames
  have hcovers {i : Nat} (hi : i < h.params.length) (o : Int) :
      (t'.binding (t.bindings.size + i)).Covers o ↔
        (Ty.sizes h.types - Ty.sizes (h.types.take (i + 1)) : Int) ≤ o ∧
          o < Ty.sizes h.types - Ty.sizes (h.types.take i) := by
    have hi' : i < h.types.length := by simpa using hi
    have hnext := Ty.sizes_take_succ hi'
    have htype : h.types[i].size = h.params[i].declared.size := by simp [FuncHead.types]
    rw [hbinding i hi, Binding.Covers]
    simp only
    omega
  refine ⟨t', hopened, hsize, fun i hi => ?_, fun o => ?_, fun i hi j hj o hio hjo => ?_, ?_⟩
  · rw [hbinding i hi]
    exact ⟨rfl, rfl, rfl⟩
  · rw [hsize, Ty.exists_from_end_iff, h.length_types]
    exact exists_congr fun i => and_congr_right fun hi => (hcovers hi o).symm
  · rw [hcovers hi] at hio
    rw [hcovers hj] at hjo
    exact Ty.from_end_unique hio.1 hio.2 hjo.1 hjo.2
  · intro P K f C hargs
    rw [hsize] at hargs
    refine ⟨C.reaches_entered hargs, C.fetch_fp hargs, fun i hi => ?_⟩
    have hle := C.sizes_le hargs
    have hpart := Ty.sizes_take_le h.types (i + 1)
    obtain ⟨front, m, out, w, hw, hcode, hreaches⟩ := C.pushes.reaches_store C.isValue C.pointers hle
      C.at_site.left.left.left hi
    -- the value on the operand stack is the one that is found in memory when the body starts
    obtain rfl : C.framed.fetch h.types[i].slot (C.sp - Ty.sizes (h.types.take (i + 1))) = w := by
      rw [(C.placed hargs).getElem? hi] at hw
      exact Option.some.inj hw
    refine ⟨_, front, m, out, by omega, ?_, hcode, hreaches⟩
    rw [hbinding i (by simpa using hi), Cells.Calling.base, hargs]
    simp only
    omega

open MixedCall in
/-- Of arguments of one, eight and four bytes below a stack pointer of 40 the second is stored at 31, which
is four bytes above the frame pointer. -/
theorem arguments_meet_parameters_mixed :
    ∃ t', SymbolTable.program.withParams 0 head.params = .ok t' ∧ t'.allocatedSize 1 = 13 ∧
      (∀ o : Int, (0 ≤ o ∧ o < 13) ↔ ∃ i < 3, (t'.binding (0 + i)).Covers o) ∧
      Reaches program call.start call.entered ∧ call.framed.fetch .word 4 = .address 27 ∧
      (t'.binding 1).offset = 4 ∧
      ∃ j m out, Reaches program call.start
        ⟨j, [call.framed.fetch .double 31, .address 31], m, out⟩ := by
  obtain ⟨t', hopened, hsize, -, hfill, -, hcall⟩ :=
    arguments_meet_parameters SymbolTable.good_program (s := 0) (by decide) head (by decide)
  have hbytes : t'.allocatedSize 1 = 13 := hsize
  obtain ⟨hentered, hframe, hargs⟩ := hcall call hbytes.symm
  obtain ⟨a, front, m, out, ha, hoffset, -, hreaches⟩ := hargs 1 (by decide)
  obtain rfl : a = 31 := Int.ofNat_inj.mp (show (a : Int) = (31 : Nat) from ha)
  have hbase : ((31 : Nat) : Int) = (27 : Nat) + (t'.binding 1).offset := hoffset
  refine ⟨t', hopened, hbytes, fun o => ?_, hentered, hframe, by omega, _, m, out, hreaches⟩
  have hrange := hfill o
  rw [show t'.allocatedSize SymbolTable.program.scopes.size = 13 from hsize] at hrange
  exact hrange

end SubrLang
