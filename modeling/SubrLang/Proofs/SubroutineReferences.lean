import SubrLang.Proofs.Assembly
import SubrLang.Proofs.FreshLabels
import SubrLang.Proofs.TreeNodes

namespace SubrLang

open Registry (standard)

/-! ## Labels of subroutines -/

namespace Label

/-- Whether a label is one that subroutines have. -/
def isSubroutine : Label → Bool
  | .text s => "-function-".toList.isPrefixOf s.toList
  | .bytes .. => false

lemma isSubroutine_cell : (text Cell.stackPointer).isSubroutine = false ∧
    (text Cell.framePointer).isSubroutine = false ∧ (text Cell.globals).isSubroutine = false ∧
    (text Cell.heapNextFree).isSubroutine = false ∧ (text Cell.returnAddress).isSubroutine = false ∧
    (text Cell.array1).isSubroutine = false ∧ (text Cell.print1).isSubroutine = false ∧
    (text Cell.print2).isSubroutine = false ∧ (text Cell.index1).isSubroutine = false ∧
    (text Cell.index2).isSubroutine = false ∧ (text allocateLabel).isSubroutine = false := by
  decide +kernel

@[simp] lemma isSubroutine_trap (t : Trap) : (text t.label).isSubroutine = false := by
  cases t <;> decide +kernel

@[simp] lemma isSubroutine_format (f : PrintFormat) : (text f.label).isSubroutine = false := by
  cases f <;> decide +kernel

/-- Labels of other constructs do not look like those of subroutines. -/
lemma isSubroutine_stem {stem : String} (h : stem.toList.head? ≠ some 'f') (n : Nat) (role : String) :
    (text (LabelFamily.label ⟨stem, n⟩ role)).isSubroutine = false := by
  rw [isSubroutine, LabelFamily.toList_label]
  cases hs : stem.toList with
  | nil => rfl
  | cons c cs =>
    have hc : ('f' == c) = false := beq_false_of_ne fun hc => h (by rw [hs, ← hc]; rfl)
    have hstart : "-function-".toList = '-' :: 'f' :: "unction-".toList := by decide
    rw [hstart]
    simp only [List.cons_append, List.isPrefixOf_cons_cons, hc, Bool.false_and, Bool.and_false]

lemma isSubroutine_function (n : Nat) (role : String) :
    (text (LabelFamily.label ⟨"function", n⟩ role)).isSubroutine = true := by
  rw [isSubroutine, LabelFamily.toList_label]
  simp

end Label

namespace Code

/-- The instructions that refer to labels of subroutines, in order. -/
def references (c : Code) : List Instr := (c.map (·.instr)).filter (·.mentioned?.any Label.isSubroutine)

@[simp] lemma references_nil : references [] = [] := rfl

@[simp] lemma references_append (a b : Code) : (a ++ b).references = a.references ++ b.references := by
  simp [references]

lemma references_flatten (cs : List Code) : references cs.flatten = cs.flatMap references := by
  induction cs with
  | nil => rfl
  | cons c cs ih => simp [ih]

@[simp] lemma references_ops (os : List PlainOp) : (ops os).references = [] := by
  simp [references, ops, Instr.mentioned?]

@[simp] lemma references_pushI (v : Int) : (pushI v).references = [] := rfl

@[simp] lemma references_pushF (v : Binary64) : (pushF v).references = [] := rfl

@[simp] lemma references_label (l : Label) : (label l).references = [] := rfl

@[simp] lemma references_branch (o : LabelOp) {l : Label} (h : l.isSubroutine = false) :
    (branch o l).references = [] := by
  cases o <;> simp [references, branch, one, Instr.mentioned?, h]

@[simp] lemma references_pushD {l : Label} (h : l.isSubroutine = false) : (pushD l).references = [] :=
  references_branch .pushD h

@[simp] lemma references_jump {l : Label} (h : l.isSubroutine = false) : (jump l).references = [] :=
  references_branch .jump h

lemma references_exit {l : Label} (h : l.isSubroutine) : (jump l).references = [.label .jump l] := by
  simp [references, jump, one, Instr.mentioned?, h]

lemma references_start {l : Label} (h : l.isSubroutine) : (pushD l).references = [.label .pushD l] := by
  simp [references, pushD, one, Instr.mentioned?, h]

@[simp] lemma references_note (text : String) (c : Code) : (c.note text).references = c.references := by
  have hinstrs : (c.note text).map (·.instr) = c.map (·.instr) := by
    induction c using note.induct <;> simp_all [note]
  rw [references, hinstrs, references]

@[simp] lemma references_load (c : String) : (load c).references = (pushD c).references := by simp [load]

@[simp] lemma references_store (c : String) : (store c).references = (pushD c).references := by simp [store]

@[simp] lemma references_plus (n : Int) : (plus n).references = [] := by simp [plus]

@[simp] lemma references_minus (n : Int) : (minus n).references = [] := by simp [minus]

@[simp] lemma references_moveStack (n : Int) : (moveStack n).references = [] := by
  unfold moveStack
  split <;> simp [Label.isSubroutine_cell]

end Code

open Code Label

namespace Lowering

lemma references_index (a p : Code) : (index a p).references = a.references ++ p.references := by
  unfold index
  simp only [references_append, references_load, references_store, references_plus, references_minus, references_ops, references_pushD, references_branch, isSubroutine_cell, isSubroutine_trap, List.append_nil]

lemma references_header (t : Ty) (c : Code) : (header t c).references = c.references := by
  have hfield : ∀ (n : Nat) (w : Code), (headerField n w).references = w.references := by
    intro n w
    unfold headerField
    split <;> simp
  simp [header, hfield]

lemma references_arrayAlloc (t : Ty) (c : Code) : (arrayAlloc t c).references = c.references := by
  simp [arrayAlloc, references_header, isSubroutine_cell]

lemma references_arrayLiteral (t : Ty) (cs : List Code) :
    (arrayLiteral t cs).references = cs.flatMap references := by
  have helems : ∀ n, (storeElems t n cs).references = cs.flatMap references := by
    induction cs with
    | nil => exact fun _ => rfl
    | cons c cs ih => simp [storeElems, ih]
  simp [arrayLiteral, references_header, helems, isSubroutine_cell]

lemma references_pushArgs : ∀ {ps : List Ty} {as : List Code}, ps.length = as.length →
    (pushArgs ps as).references = as.flatMap references
  | [], [], _ => rfl
  | p :: ps, a :: as, h => by
    simp [pushArgs, isSubroutine_cell, references_pushArgs (Nat.succ.inj h)]

lemma references_callSite {ps : List Ty} {as : List Code} (h : ps.length = as.length) (t : Ty) (c : Code) :
    (callSite ps t as c).references = as.flatMap references ++ c.references := by
  have hresult : (takeResult t).references = [] := by
    unfold takeResult
    split <;> simp [isSubroutine_cell]
  simp [callSite, references_pushArgs h, hresult]

lemma references_subroutine (h : FuncHead) (l : LabelFamily) (i : Bool) (body : Code) :
    (subroutine h l i body).references = body.references := by
  have hend : (epilogue h.frameSize h.argSize h.result).references = [] := by
    unfold epilogue
    split <;> simp [isSubroutine_cell]
  unfold subroutine
  split <;> simp [prologue, checkStack, hend, isSubroutine_cell]

variable {l : LabelFamily} (hl : ∀ role, (text (l.label role)).isSubroutine = false)
include hl

lemma references_compare (c : Comparison) (isFloat : Bool) (a b : Code) :
    (compare c isFloat l a b).references = a.references ++ b.references := by
  cases c <;> cases isFloat <;> simp [compare, compareBranches, compareTrue, hl]

lemma references_shortCircuit (test : LabelOp) (combine : PlainOp) (decided : String) (a b : Code) :
    (shortCircuit test combine decided l a b).references = a.references ++ b.references := by
  simp [shortCircuit, hl]

lemma references_printArray (t : Ty) (elem : Code) : (Lower.printArray l t elem).references = elem.references := by
  unfold Lower.printArray
  simp only [Lower.printf, references_append, references_load, references_store, references_plus, references_ops,
    references_pushD, references_branch, references_pushI, references_label, references_jump, isSubroutine_cell,
    isSubroutine_format, hl, List.append_nil, List.nil_append]

end Lowering

lemma Binding.references_address (b : Binding) : b.address.references = [] := by
  unfold Binding.address
  split <;> simp [isSubroutine_cell]

/-! ## Links -/

/-- A subroutine of a tree in the queue, with the number of its labels. -/
structure Queued where
  node : Subroutine
  number : Nat

namespace Queued

variable (q : Queued)

def labels : LabelFamily := ⟨"function", q.number⟩

/-- The label that the subroutine starts at. -/
def start : String := Lowering.startLabel q.labels

/-- The label of the way out of the subroutine. -/
def exit : String := Lowering.exitLabel q.labels

/-- What the queue holds of the subroutine. -/
def pending : PendingFunc := ⟨q.labels, q.node.head, q.node.body⟩

/-- The subroutines in a queue and those inside them. -/
def all (qs : List Queued) : Multiset Subroutine := (qs.map fun q : Queued => q.node.all).sum

end Queued

/-- The instructions for the references of a tree: for the address of a subroutine, which is queued, one that
pushes the label that it starts at, and for a return statement a jump to the way out. -/
inductive Linked (exit : Option String) : List Reference → List Queued → List Instr → Prop
  | nil : Linked exit [] [] []
  | address {q : Queued} {xs : List Reference} {qs : List Queued} {is : List Instr} (rest : Linked exit xs qs is) :
      Linked exit (.address q.node :: xs) (q :: qs) (.label .pushD q.start :: is)
  | exit {o : Option Place} {l : String} {xs : List Reference} {qs : List Queued} {is : List Instr}
      (way : exit = some l) (rest : Linked exit xs qs is) :
      Linked exit (.exit o :: xs) qs (.label .jump l :: is)

section Linked

variable {exit : Option String} {xs ys : List Reference} {qs qs' : List Queued} {is is' : List Instr}

lemma Linked.append (h : Linked exit xs qs is) (h' : Linked exit ys qs' is') :
    Linked exit (xs ++ ys) (qs ++ qs') (is ++ is') := by
  induction h with
  | nil => exact h'
  | address _ ih => exact .address ih
  | exit way _ ih => exact .exit way ih

/-- The subroutines that references lead to. -/
lemma Linked.all_eq (h : Linked exit xs qs is) : Queued.all qs = Reference.subroutines xs := by
  induction h with
  | nil => rfl
  | address _ ih => simpa [Queued.all, Reference.subroutines, Reference.addresses] using ih
  | exit _ _ ih => simpa [Queued.all, Reference.subroutines, Reference.addresses] using ih

end Linked

end SubrLang
