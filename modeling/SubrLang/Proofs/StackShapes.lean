import SubrLang.Lowering
import SubrLang.Machine.Step
import SubrLang.Proofs.Assembly

/-!
# Shapes of the operand stack

A shape says of each word that the current activation has on the operand stack whether it is an integer
or a float. Instructions need words of certain kinds and leave words of certain kinds (`Instr.flow`), so
code takes a shape to a shape; where control can come together, at labels, the shapes have to agree.

* **Sites.** `Sites` says what is expected at the code labels of a program: the shape, and what the
  activation will leave behind for its caller when it returns.
* **Code.** `Code.Shaped X c e e'` says that `c` finds the words that it needs when it starts at `e`, and
  falls through at `e'`. Traps can be reached with any shape. Straight code is evaluated
  (`Code.Shaped.straight`).
* **Constructs.** For each construct of the lowering a lemma says how its shape follows from the shapes of
  its parts, and which labels it defines with which shapes.
-/

namespace SubrLang

/-! ## Kinds and shapes -/

/-- The two kinds of words. -/
inductive Kind where
  | int | float
deriving DecidableEq, Repr

/-- The kind of the word that a conversion of a format writes. -/
def Conversion.kind : Conversion → Kind
  | .float => .float
  | .int | .char | .text => .int

/-- The kinds of the words on the operand stack, its top first. -/
abbrev Shape := List Kind

/-- The kind of the values of a type. -/
def Ty.kind (t : Ty) : Kind := if t.isPrim .float then .float else .int

/-- What a subroutine with a result of a type brings to its way out. -/
def Ty.residue (t : Ty) : Shape := if t.isVoid then [] else [t.kind]

/-- The shape below some words on top. -/
def Shape.below : Shape → Shape → Option Shape
  | [], s => some s
  | k :: ks, j :: s => if j = k then below ks s else none
  | _ :: _, [] => none

/-- The words that an instruction takes off the stack and those that it leaves there, for instructions
that go on to the next one and treat all words of a kind alike. A call through an address leaves
nothing. -/
def PlainOp.words? : PlainOp → Option (Shape × Shape)
  | .nop => some ([], [])
  | .add | .subtract | .multiply | .divide | .and | .or | .btAnd | .btOr =>
    some ([.int, .int], [.int])
  | .fadd | .fsubtract | .fmultiply | .fdivide => some ([.float, .float], [.float])
  | .negate | .bnegate | .btNegate | .loadC | .loadI => some ([.int], [.int])
  | .convertF | .loadF => some ([.int], [.float])
  | .fnegate => some ([.float], [.float])
  | .convertI => some ([.float], [.int])
  | .storeC | .storeI => some ([.int, .int], [])
  | .storeF => some ([.float, .int], [])
  | .callV => some ([.int], [])
  | .pushPC | .memtop => some ([], [.int])
  | _ => none

/-- The shape behind an instruction that goes on to the next one, if it finds the words it needs. -/
def PlainOp.flow : PlainOp → Shape → Option Shape
  | .pop, _ :: s => some s
  | .duplicate, k :: s => some (k :: k :: s)
  | .exchange, j :: k :: s => some (k :: j :: s)
  | o, s =>
    match o.words? with
    | some (pops, pushes) => (Shape.below pops s).map (pushes ++ ·)
    | none => none

/-- The kind of word that a conditional jump looks at. -/
def LabelOp.tests? : LabelOp → Option Kind
  | .jumpTrue | .jumpFalse | .jumpPos | .jumpNeg => some .int
  | .jumpFZero | .jumpFPos | .jumpFNeg => some .float
  | _ => none

/-- The shape behind an instruction from where control falls through. Calling the allocator replaces a
size by an address. -/
def Instr.flow : Instr → Shape → Option Shape
  | .plain o, s => o.flow s
  | .int .pushI _, s => some (.int :: s)
  | .float .pushF _, s => some (.float :: s)
  | .label .pushD _, s => some (.int :: s)
  | .label .call _, .int :: s => some (.int :: s)
  | .label o _, s =>
    match o.tests? with
    | some k => Shape.below [k] s
    | none => none
  | _, _ => none

/-- The words that a format takes off the stack, the top one first. -/
def formatWords (text : String) : Option Shape :=
  match Format.parts (Text.Utf8.encode text) (Text.Utf8.encode text) with
  | .ok ps => some ((Format.conversions ps).reverse.map Conversion.kind)
  | .error _ => none

/-! ## Shaped code -/

/-- The operand stack of an activation at a place of the code. -/
structure Entry where
  shape : Shape
  /-- What the activation leaves on the stack for its caller, unless it never returns. -/
  owed : Option Shape
deriving DecidableEq, Repr

/-- How the allocator is entered: a size and on top of it a return address. It leaves an address. -/
def Entry.allocator : Entry := ⟨[.int, .int], some [.int]⟩

/-- How a subroutine is entered: with a return address. Its result is left in memory. -/
def Entry.subroutine : Entry := ⟨[.int], some []⟩

/-- What is known of the labels of a program. -/
structure Sites where
  code : List (Label × Entry)
  data : List Label

namespace Sites

/-- Whether a label can be jumped to: it expects what is there, or it is that of a trap. -/
def Reaches (X : Sites) (l : Label) (e : Entry) : Prop :=
  (∃ t : Trap, l = .text t.label) ∨ (l, e) ∈ X.code

/-- Whether a label is defined. -/
def Knows (X : Sites) (l : Label) : Prop := l ∈ X.data ∨ l ∈ X.code.map (·.1)

end Sites

/-- The texts of all formats, with their labels. -/
def Environment.formats : List (String × String) :=
  (Trap.formatLabel, "Runtime error: %s\n") :: PrintFormat.all.map fun f => (f.label, f.text)

/-- An instruction that is no part of printing finds what it needs at `e`, and control falls through at
`e'`. Behind a jump, a return and a halt anything can be expected. -/
inductive Instr.Shaped (X : Sites) : Instr → Entry → Entry → Prop
  | plain {o s s' d} (flow : PlainOp.flow o s = some s') : Instr.Shaped X (.plain o) ⟨s, d⟩ ⟨s', d⟩
  | pushI {v s d} : Instr.Shaped X (.int .pushI v) ⟨s, d⟩ ⟨.int :: s, d⟩
  | pushF {v s d} : Instr.Shaped X (.float .pushF v) ⟨s, d⟩ ⟨.float :: s, d⟩
  | pushD {l s d} (known : X.Knows l) : Instr.Shaped X (.label .pushD l) ⟨s, d⟩ ⟨.int :: s, d⟩
  | test {o l k s d} (tests : o.tests? = some k) (target : X.Reaches l ⟨s, d⟩) :
      Instr.Shaped X (.label o l) ⟨k :: s, d⟩ ⟨s, d⟩
  | call {s d} (allocator : (.text allocateLabel, Entry.allocator) ∈ X.code) :
      Instr.Shaped X (.label .call (.text allocateLabel)) ⟨.int :: s, d⟩ ⟨.int :: s, d⟩
  | label {l e} (site : (l, e) ∈ X.code) : Instr.Shaped X (.label .label l) e e
  | jump {l e e'} (target : X.Reaches l e) : Instr.Shaped X (.label .jump l) e e'
  | return {s e'} : Instr.Shaped X (.plain .return) ⟨.int :: s, some s⟩ e'
  | halt {e e'} : Instr.Shaped X (.plain .halt) e e'

/-- Code finds what it needs at `e`, and control falls through at `e'`. A format is pushed right before
it is used. -/
inductive Code.Shaped (X : Sites) : Code → Entry → Entry → Prop
  | nil {e} : Code.Shaped X [] e e
  | cons {i text c e e' e''} (head : Instr.Shaped X i e e') (tail : Code.Shaped X c e' e'') :
      Code.Shaped X (⟨i, text⟩ :: c) e e''
  | printf {l text words t₁ t₂ c s d e} (format : (l, text) ∈ Environment.formats)
      (takes : formatWords text = some words) (known : X.Knows (.text l))
      (tail : Code.Shaped X c ⟨s, d⟩ e) :
      Code.Shaped X (⟨.label .pushD (.text l), t₁⟩ :: ⟨.plain .printf, t₂⟩ :: c) ⟨words ++ s, d⟩ e

namespace Code

variable {X : Sites} {a b c : Code} {s s' : Shape} {d : Option Shape} {e e' e'' : Entry}

lemma Shaped.append (ha : Shaped X a e e') (hb : Shaped X b e' e'') : Shaped X (a ++ b) e e'' := by
  induction ha with
  | nil => exact hb
  | cons head _ ih => exact .cons head (ih hb)
  | printf format takes known _ ih => exact .printf format takes known (ih hb)

lemma Shaped.single {i : Instr} {text : String} (h : Instr.Shaped X i e e') :
    Shaped X [⟨i, text⟩] e e' :=
  .cons h .nil

section Labels

variable {l : Label} {x : String} {n : Int} {os : List PlainOp}

@[simp] lemma codeLabels_ops : codeLabels (ops os) = [] := by
  simp [codeLabels, ops, Instr.codeLabel?]

@[simp] lemma codeLabels_pushI : codeLabels (pushI n) = [] := rfl

@[simp] lemma codeLabels_pushF {v : Binary64} : codeLabels (pushF v) = [] := rfl

@[simp] lemma codeLabels_pushD : codeLabels (pushD l) = [] := rfl

@[simp] lemma codeLabels_label : codeLabels (label l) = [l] := rfl

@[simp] lemma codeLabels_jump : codeLabels (jump l) = [] := rfl

@[simp] lemma codeLabels_plus : codeLabels (plus n) = [] := rfl

@[simp] lemma codeLabels_minus : codeLabels (minus n) = [] := rfl

@[simp] lemma codeLabels_load : codeLabels (load x) = [] := rfl

@[simp] lemma codeLabels_store : codeLabels (store x) = [] := rfl

@[simp] lemma codeLabels_moveStack : codeLabels (moveStack n) = [] := by
  unfold moveStack
  split <;> simp

lemma codeLabels_branch {o : LabelOp} (h : o ≠ .label) : codeLabels (branch o l) = [] := by
  cases o <;> first | rfl | exact absurd rfl h

@[simp] lemma codeLabels_note {c : Code} {text : String} : codeLabels (c.note text) = codeLabels c := by
  fun_induction note text c <;> simp_all [codeLabels, List.filterMap_cons]

end Labels

end Code

/-! ## Straight code -/

/-- Whether the label of an instruction from where control falls through is one it may have. -/
def Instr.Straight (X : Sites) : Instr → Prop
  | .label .pushD l => X.Knows l
  | .label .call l => l = .text allocateLabel
  | .label _ l => ∃ t : Trap, l = .text t.label
  | _ => True

lemma Instr.shaped_of_flow {X : Sites} {i : Instr} {s s' : Shape} {d : Option Shape}
    (hcall : (.text allocateLabel, Entry.allocator) ∈ X.code)
    (hi : i.Straight X) (hf : i.flow s = some s') : Instr.Shaped X i ⟨s, d⟩ ⟨s', d⟩ := by
  unfold Instr.flow at hf
  split at hf
  · exact .plain hf
  · cases hf
    exact .pushI
  · cases hf
    exact .pushF
  · cases hf
    exact .pushD hi
  · cases hf
    cases hi
    exact .call hcall
  · next o l h₁ h₂ =>
    split at hf
    · next k hk =>
      cases s with
      | nil => simp [Shape.below] at hf
      | cons j s =>
        simp only [Shape.below] at hf
        split at hf
        · next hj =>
          cases hf
          subst hj
          refine .test hk (.inl ?_)
          cases o <;> simp_all [LabelOp.tests?, Instr.Straight]
        · cases hf
    · cases hf
  · cases hf

namespace Code

/-- Whether the labels in straight code are those of traps and cells. -/
def Straight (X : Sites) (c : Code) : Prop := ∀ line ∈ c, line.instr.Straight X

/-- The shape behind straight code. -/
def flow : Code → Shape → Option Shape
  | [], s => some s
  | line :: c, s =>
    match line.instr.flow s with
    | some s' => flow c s'
    | none => none

section Straight

variable {X : Sites} {a b : Code} {x : String} {n : Int}

@[simp] lemma straight_append : Straight X (a ++ b) ↔ Straight X a ∧ Straight X b := by
  simp [Straight, or_imp, forall_and]

@[simp] lemma straight_nil : Straight X [] := by simp [Straight]

@[simp] lemma straight_ops {os : List PlainOp} : Straight X (ops os) := by
  simp [Straight, ops, Instr.Straight]

@[simp] lemma straight_pushI : Straight X (pushI n) := by
  simp [Straight, pushI, one, Instr.Straight]

@[simp] lemma straight_pushD {l : Label} : Straight X (pushD l) ↔ X.Knows l := by
  simp [Straight, pushD, one, Instr.Straight]

@[simp] lemma straight_plus : Straight X (plus n) := by simp [plus]

@[simp] lemma straight_minus : Straight X (minus n) := by simp [minus]

@[simp] lemma straight_load : Straight X (load x) ↔ X.Knows (.text x) := by simp [load]

@[simp] lemma straight_store : Straight X (store x) ↔ X.Knows (.text x) := by simp [store]

@[simp] lemma straight_call : Straight X (branch .call allocateLabel) := by
  simp [Straight, branch, one, Instr.Straight]

/-- Conditional jumps to traps. -/
@[simp] lemma straight_trap {t : Trap} :
    Straight X (branch .jumpNeg t.label) ∧ Straight X (branch .jumpPos t.label) ∧
      Straight X (branch .jumpFalse t.label) ∧ Straight X (branch .jumpFZero t.label) := by
  simp [Straight, branch, one, Instr.Straight]

lemma straight_note {text : String} : Straight X (a.note text) ↔ Straight X a := by
  fun_induction note text a <;> simp_all [Straight]

end Straight

variable {X : Sites} {c : Code} {s s' : Shape} {d : Option Shape}

/-- Straight code can be evaluated. -/
lemma Shaped.straight (hcall : (.text allocateLabel, Entry.allocator) ∈ X.code)
    (hc : Straight X c) (hf : flow c s = some s') : Shaped X c ⟨s, d⟩ ⟨s', d⟩ := by
  induction c generalizing s with
  | nil =>
    cases hf
    exact .nil
  | cons line c ih =>
    simp only [flow] at hf
    split at hf
    · next s₁ hs₁ =>
      refine .cons (Instr.shaped_of_flow hcall (hc line (by simp)) hs₁) (ih ?_ hf)
      exact fun l hl => hc l (by simp [hl])
    · cases hf

end Code

/-! ## The environment -/

/-- The cells that code works with. -/
def Environment.cells : List String :=
  [Cell.stackPointer, Cell.framePointer, Cell.globals, Cell.heapNextFree, Cell.heapStart,
    Cell.heapCursor] ++ Cell.scratch

/-- Whether the sites have the environment that every program has. -/
structure Sites.IsStandard (X : Sites) : Prop where
  mem_cells : ∀ x ∈ Environment.cells, X.Knows (.text x)
  format : ∀ f : PrintFormat, X.Knows (.text f.label)
  allocator : (.text allocateLabel, Entry.allocator) ∈ X.code

lemma Sites.IsStandard.cells {X : Sites} (hX : X.IsStandard) :
    X.Knows (.text Cell.stackPointer) ∧ X.Knows (.text Cell.framePointer) ∧
      X.Knows (.text Cell.globals) ∧ X.Knows (.text Cell.heapNextFree) ∧
      X.Knows (.text Cell.heapStart) ∧ X.Knows (.text Cell.heapCursor) ∧
      X.Knows (.text Cell.array1) ∧ X.Knows (.text Cell.print1) ∧ X.Knows (.text Cell.print2) ∧
      X.Knows (.text Cell.index1) ∧ X.Knows (.text Cell.index2) ∧
      X.Knows (.text Cell.returnAddress) := by
  refine ⟨?_, ?_, ?_, ?_, ?_, ?_, ?_, ?_, ?_, ?_, ?_, ?_⟩ <;>
    exact hX.mem_cells _ (by simp [Environment.cells, Cell.scratch])

/-- The words that a format takes. -/
def PrintFormat.words : PrintFormat → Shape
  | .integer | .boolean | .character | .string => [.int]
  | .float => [.float]
  | _ => []

lemma PrintFormat.formatWords_text (f : PrintFormat) : formatWords f.text = some f.words := by
  cases f <;> rfl

/-- The load and the store of a type move a word of its kind. -/
lemma Ty.flow_loadOp (t : Ty) (s : Shape) : t.loadOp.flow (.int :: s) = some (t.kind :: s) := by
  cases t with
  | prim p => cases p <;> rfl
  | _ => rfl

lemma Ty.flow_storeOp (t : Ty) (s : Shape) : t.storeOp.flow (t.kind :: .int :: s) = some s := by
  cases t with
  | prim p => cases p <;> rfl
  | _ => rfl

namespace Code

variable {X : Sites} (hX : X.IsStandard) {s : Shape} {d : Option Shape}
include hX

lemma shaped_printf (f : PrintFormat) : Shaped X (Lower.printf f) ⟨f.words ++ s, d⟩ ⟨s, d⟩ := by
  refine .printf (List.mem_cons_of_mem _ (List.mem_map.mpr ⟨f, ?_, rfl⟩)) f.formatWords_text
    (hX.format f) .nil
  cases f <;> simp [PrintFormat.all]

end Code

namespace Lowering

open Code

variable {X : Sites} (hX : X.IsStandard) {s : Shape} {d : Option Shape}
include hX

lemma shaped_index {array position : Code} (ha : Shaped X array ⟨s, d⟩ ⟨.int :: s, d⟩)
    (hp : Shaped X position ⟨.int :: s, d⟩ ⟨.int :: .int :: s, d⟩) :
    Shaped X (index array position) ⟨s, d⟩ ⟨.int :: s, d⟩ := by
  unfold index
  simp only [List.append_assoc]
  refine ha.append (hp.append (Shaped.straight hX.allocator ?_ rfl))
  simp [hX.cells]

omit hX in
lemma straight_headerField {offset : Nat} {word : Code} :
    Straight X (headerField offset word) ↔ Straight X word := by
  unfold headerField
  split <;> simp

lemma shaped_arrayAlloc {elem : Ty} {length : Code} (hl : Shaped X length ⟨s, d⟩ ⟨.int :: s, d⟩) :
    Shaped X (arrayAlloc elem length) ⟨s, d⟩ ⟨.int :: s, d⟩ := by
  unfold arrayAlloc
  simp only [List.append_assoc]
  refine hl.append (Shaped.straight hX.allocator ?_ rfl)
  simp [hX.cells, header, straight_headerField]

/-- Elements are stored one after the other below the address of the record. -/
lemma shaped_storeElems {elem : Ty} {elems : List Code} {offset : Nat}
    (he : ∀ c ∈ elems, Shaped X c ⟨.int :: .int :: s, d⟩ ⟨elem.kind :: .int :: .int :: s, d⟩) :
    Shaped X (storeElems elem offset elems) ⟨.int :: s, d⟩ ⟨.int :: s, d⟩ := by
  induction elems generalizing offset with
  | nil => exact .nil
  | cons c elems ih =>
    simp only [storeElems, List.append_assoc]
    refine (Shaped.straight hX.allocator straight_ops rfl).append
      ((Shaped.straight hX.allocator straight_plus rfl).append ((he c (by simp)).append ?_))
    refine (Shaped.single (.plain (Ty.flow_storeOp _ _))).append (ih fun c' hc' => he c' ?_)
    exact List.mem_cons_of_mem _ hc'

lemma shaped_arrayLiteral {elem : Ty} {elems : List Code}
    (he : ∀ c ∈ elems, Shaped X c ⟨.int :: .int :: s, d⟩ ⟨elem.kind :: .int :: .int :: s, d⟩) :
    Shaped X (arrayLiteral elem elems) ⟨s, d⟩ ⟨.int :: s, d⟩ := by
  unfold arrayLiteral
  refine (Shaped.straight hX.allocator ?_ rfl).append (shaped_storeElems hX he)
  simp [header, straight_headerField]

end Lowering

/-! ### Labels of constructs -/

/-- The labels of a family for some roles, each with the words that are expected there above `s`. -/
def LabelFamily.sites (l : LabelFamily) (roles : List (String × Shape)) (s : Shape)
    (d : Option Shape) : List (Label × Entry) :=
  roles.map fun r => (.text (l.label r.1), ⟨r.2 ++ s, d⟩)

/-- The labels of a family for some roles. -/
def LabelFamily.labels (l : LabelFamily) (roles : List (String × Shape)) : List Label :=
  roles.map fun r => .text (l.label r.1)

lemma LabelFamily.mem_of_sites {l : LabelFamily} {roles : List (String × Shape)} {s : Shape} {d : Option Shape}
    {xs : List (Label × Entry)} (h : l.sites roles s d ⊆ xs) (r : String) (k : Shape) (hr : (r, k) ∈ roles) :
    (.text (l.label r), ⟨k ++ s, d⟩) ∈ xs :=
  h (List.mem_map.mpr ⟨(r, k), hr, rfl⟩)

lemma LabelFamily.map_fst_sites (l : LabelFamily) (roles : List (String × Shape)) (s : Shape)
    (d : Option Shape) : (l.sites roles s d).map (·.1) = l.labels roles := by
  simp [sites, labels]

namespace Lowering

open Code

/-- The kind of the operands of a comparison. -/
def comparedKind (isFloat : Bool) : Kind := if isFloat then .float else .int

/-- The labels of a comparison. Where the difference is tested twice it is still there in the true
case. -/
def compareRoles (c : Comparison) (k : Kind) : List (String × Shape) :=
  match c, k with
  | .gt, _ | .lt, _ | .eq, _ | .ne, .int => [("true", []), ("false", []), ("join", [.int])]
  | .ne, .float => [("differ", [.float]), ("true", []), ("false", []), ("join", [.int])]
  | .ge, k | .le, k => [("true", [k]), ("zero", []), ("false", []), ("join", [.int])]

/-- The labels of a logical operator. -/
def shortCircuitRoles : List (String × Shape) :=
  [("short", [.int]), ("true", []), ("false", []), ("join", [.int])]

variable {X : Sites} {l : LabelFamily} {s : Shape} {d : Option Shape} {a b : Code}

/-- A test that decides between the true and the false case. -/
lemma shaped_testOnce {o : LabelOp} {k : Kind} {e : Entry} (ho : o.tests? = some k)
    (htrue : (.text (l.label "true"), ⟨s, d⟩) ∈ X.code)
    (hfalse : (.text (l.label "false"), ⟨s, d⟩) ∈ X.code) :
    Shaped X (branch o (l.label "true") ++ jump (l.label "false")) ⟨k :: s, d⟩ e :=
  .cons (.test ho (.inr htrue)) (.single (.jump (.inr hfalse)))

/-- Two tests of the same difference. -/
lemma shaped_testTwice {o z : LabelOp} {k : Kind} {e : Entry} (ho : o.tests? = some k)
    (hz : z.tests? = some k) (htrue : (.text (l.label "true"), ⟨k :: s, d⟩) ∈ X.code)
    (hzero : (.text (l.label "zero"), ⟨s, d⟩) ∈ X.code)
    (hfalse : (.text (l.label "false"), ⟨s, d⟩) ∈ X.code) :
    Shaped X (ops [.duplicate] ++ branch o (l.label "true") ++ branch z (l.label "zero") ++
      jump (l.label "false")) ⟨k :: s, d⟩ e :=
  .cons (.plain rfl) (.cons (.test ho (.inr htrue)) (.cons (.test hz (.inr hzero))
    (.single (.jump (.inr hfalse)))))

/-- The branches of a comparison find the difference of its operands, and control does not fall
through. -/
lemma shaped_compareBranches {c : Comparison} {isFloat : Bool} {e : Entry}
    (hl : l.sites (compareRoles c (comparedKind isFloat)) s d ⊆ X.code) :
    Shaped X (compareBranches c isFloat l) ⟨comparedKind isFloat :: s, d⟩ e := by
  have site := LabelFamily.mem_of_sites hl
  have hfalse := site "false" [] (by cases c <;> cases isFloat <;> simp [compareRoles, comparedKind])
  cases c with
  | gt => cases isFloat <;> exact shaped_testOnce rfl (site "true" [] (.head _)) hfalse
  | lt => cases isFloat <;> exact shaped_testOnce rfl (site "true" [] (.head _)) hfalse
  | eq => cases isFloat <;> exact shaped_testOnce rfl (site "true" [] (.head _)) hfalse
  | ge =>
    cases isFloat <;> exact shaped_testTwice rfl rfl (site "true" [_] (.head _))
      (site "zero" [] (.tail _ (.head _))) hfalse
  | le =>
    cases isFloat <;> exact shaped_testTwice rfl rfl (site "true" [_] (.head _))
      (site "zero" [] (.tail _ (.head _))) hfalse
  | ne =>
    cases isFloat with
    | false => exact shaped_testOnce rfl (site "true" [] (.head _)) hfalse
    | true =>
      have hdiffer := site "differ" [.float] (.head _)
      have htrue := site "true" [] (.tail _ (.head _))
      exact .cons (.plain rfl) (.cons (.test rfl (.inr hdiffer)) (.cons (.test rfl (.inr htrue))
        (.cons (.jump (.inr hfalse)) (.cons (.label hdiffer) (.cons (.plain rfl)
          (.single (.jump (.inr htrue))))))))

/-- The true and the false case come together with a truth value. -/
lemma shaped_truth {e : Entry} {c : Code} (hc : Shaped X c e ⟨s, d⟩)
    (hfalse : (.text (l.label "false"), ⟨s, d⟩) ∈ X.code)
    (hjoin : (.text (l.label "join"), ⟨.int :: s, d⟩) ∈ X.code) :
    Shaped X (c ++ pushI 1 ++ jump (l.label "join") ++ label (l.label "false") ++ pushI 0 ++
      label (l.label "join")) e ⟨.int :: s, d⟩ := by
  simp only [List.append_assoc]
  exact hc.append (.cons .pushI (.cons (.jump (.inr hjoin)) (.cons (.label hfalse) (.cons .pushI
    (.single (.label hjoin))))))

lemma shaped_compare {c : Comparison} {isFloat : Bool}
    (hl : l.sites (compareRoles c (comparedKind isFloat)) s d ⊆ X.code)
    (ha : Shaped X a ⟨s, d⟩ ⟨comparedKind isFloat :: s, d⟩)
    (hb : Shaped X b ⟨comparedKind isFloat :: s, d⟩
      ⟨comparedKind isFloat :: comparedKind isFloat :: s, d⟩) :
    Shaped X (compare c isFloat l a b) ⟨s, d⟩ ⟨.int :: s, d⟩ := by
  have site := LabelFamily.mem_of_sites hl
  have hfalse := site "false" [] (by cases c <;> cases isFloat <;> simp [compareRoles, comparedKind])
  have hjoin := site "join" [.int]
    (by cases c <;> cases isFloat <;> simp [compareRoles, comparedKind])
  have hsubtract : Shaped X
      (ops [if isFloat then SignJumps.float.subtract else SignJumps.int.subtract])
      ⟨comparedKind isFloat :: comparedKind isFloat :: s, d⟩ ⟨comparedKind isFloat :: s, d⟩ := by
    cases isFloat <;> exact .single (.plain rfl)
  have htrue : Shaped X (compareBranches c isFloat l ++ label (l.label "true") ++ compareTrue c l)
      ⟨comparedKind isFloat :: s, d⟩ ⟨s, d⟩ := by
    have hbranches : ∀ e, Shaped X (compareBranches c isFloat l) ⟨comparedKind isFloat :: s, d⟩ e :=
      fun _ => shaped_compareBranches hl
    rw [List.append_assoc]
    cases c with
    | ge | le =>
      exact (hbranches _).append (.cons (.label (site "true" [_] (.head _))) (.cons (.plain rfl)
        (.single (.label (site "zero" [] (.tail _ (.head _)))))))
    | gt | lt | eq => exact (hbranches _).append (.single (.label (site "true" [] (.head _))))
    | ne =>
      cases isFloat with
      | false => exact (hbranches _).append (.single (.label (site "true" [] (.head _))))
      | true => exact (hbranches _).append (.single (.label (site "true" [] (.tail _ (.head _)))))
  have hall := shaped_truth (((ha.append hb).append hsubtract).append htrue) hfalse hjoin
  simpa only [compare, List.append_assoc] using hall

lemma shaped_shortCircuit {test : LabelOp} {combine : PlainOp} {decided : String}
    (htest : test.tests? = some .int) (hcombine : combine.words? = some ([.int, .int], [.int]))
    (hdecided : decided = "true" ∨ decided = "false") (hl : l.sites shortCircuitRoles s d ⊆ X.code)
    (ha : Shaped X a ⟨s, d⟩ ⟨.int :: s, d⟩)
    (hb : Shaped X b ⟨.int :: s, d⟩ ⟨.int :: .int :: s, d⟩) :
    Shaped X (shortCircuit test combine decided l a b) ⟨s, d⟩ ⟨.int :: s, d⟩ := by
  have site := LabelFamily.mem_of_sites hl
  have hshort := site "short" [.int] (by simp [shortCircuitRoles])
  have htrue := site "true" [] (by simp [shortCircuitRoles])
  have hfalse := site "false" [] (by simp [shortCircuitRoles])
  have hjoin := site "join" [.int] (by simp [shortCircuitRoles])
  have hdecided' : (.text (l.label decided), ⟨s, d⟩) ∈ X.code := by
    rcases hdecided with rfl | rfl
    · exact htrue
    · exact hfalse
  have hflow : combine.flow (.int :: .int :: s) = some (.int :: s) := by
    cases combine <;> simp_all [PlainOp.words?] <;> rfl
  have hleft : Shaped X (a ++ ops [.duplicate] ++ branch test (l.label "short")) ⟨s, d⟩
      ⟨.int :: s, d⟩ :=
    (ha.append (.single (.plain rfl))).append (.single (.test htest (.inr hshort)))
  have hright : Shaped X (b ++ ops [combine] ++ branch .jumpFalse (l.label "false") ++
      jump (l.label "true") ++ label (l.label "short") ++ ops [.pop] ++ jump (l.label decided) ++
      label (l.label "true")) ⟨.int :: s, d⟩ ⟨s, d⟩ := by
    simp only [List.append_assoc]
    exact hb.append (.cons (.plain hflow) (.cons (.test rfl (.inr hfalse)) (.cons
      (.jump (.inr htrue)) (.cons (.label hshort) (.cons (.plain rfl) (.cons
        (.jump (.inr hdecided')) (.single (.label htrue))))))))
  have hall := shaped_truth (hleft.append hright) hfalse hjoin
  simpa only [shortCircuit, List.append_assoc] using hall

/-- A division of two words of a kind, one of which was tested. -/
lemma shaped_divide {test : LabelOp} {op : PlainOp} {t : Trap} {k : Kind}
    (htest : test.tests? = some k) (hop : op.flow (k :: k :: s) = some (k :: s)) :
    Shaped X (divide test op t) ⟨k :: k :: s, d⟩ ⟨k :: s, d⟩ :=
  .cons (.plain rfl) (.cons (.test htest (.inl ⟨t, rfl⟩)) (.single (.plain hop)))

lemma codeLabels_compare (c : Comparison) (isFloat : Bool) (l : LabelFamily) (a b : Code) :
    (compare c isFloat l a b).codeLabels =
      a.codeLabels ++ b.codeLabels ++ l.labels (compareRoles c (comparedKind isFloat)) := by
  cases c <;> cases isFloat <;> simp [compare] <;> rfl

lemma codeLabels_shortCircuit {test : LabelOp} {combine : PlainOp} {decided : String}
    {l : LabelFamily} {a b : Code} (htest : test.tests? = some .int) :
    (shortCircuit test combine decided l a b).codeLabels =
      a.codeLabels ++ b.codeLabels ++ l.labels shortCircuitRoles := by
  cases test <;> simp [LabelOp.tests?] at htest <;> simp [shortCircuit] <;> rfl

/-! ### Calls and subroutines -/

section Calls

variable (hX : X.IsStandard)
include hX

lemma shaped_moveStack {n : Int} : Shaped X (moveStack n) ⟨s, d⟩ ⟨s, d⟩ := by
  unfold moveStack
  split
  · exact .nil
  · exact Shaped.straight hX.allocator (by simp [hX.cells]) rfl

/-- Arguments of the kinds of the parameters are moved to the memory stack. -/
lemma shaped_pushArgs {params : List Ty} {args : List Code}
    (h : List.Forall₂ (fun p c => Shaped X c ⟨.int :: s, d⟩ ⟨p.kind :: .int :: s, d⟩) params args) :
    Shaped X (pushArgs params args) ⟨s, d⟩ ⟨s, d⟩ := by
  induction h with
  | nil => exact .nil
  | @cons p c ps cs hc _ ih =>
    simp only [pushArgs, List.append_assoc]
    refine (shaped_moveStack hX).append (.append (Shaped.straight hX.allocator ?_ rfl)
      (hc.append (.append (.single (.plain (Ty.flow_storeOp _ _))) ih)))
    simp [hX.cells]

lemma shaped_takeResult {result : Ty} :
    Shaped X (takeResult result) ⟨s, d⟩ ⟨result.residue ++ s, d⟩ := by
  unfold takeResult Ty.residue
  split
  · exact .nil
  · refine .append (.append (Shaped.straight hX.allocator ?_ rfl)
      (.single (.plain (Ty.flow_loadOp _ _)))) (shaped_moveStack hX)
    simp [hX.cells]

lemma shaped_callSite {params : List Ty} {result : Ty} {args : List Code} {callee : Code}
    (hargs : List.Forall₂ (fun p c => Shaped X c ⟨.int :: s, d⟩ ⟨p.kind :: .int :: s, d⟩) params args)
    (hf : Shaped X callee ⟨s, d⟩ ⟨.int :: s, d⟩) :
    Shaped X (callSite params result args callee) ⟨s, d⟩ ⟨result.residue ++ s, d⟩ :=
  .append (.append (.append (shaped_pushArgs hX hargs) hf) (.single (.plain rfl)))
    (shaped_takeResult hX)

/-- A frame is set up with the return address from the operand stack. -/
lemma shaped_prologue {frameSize : Nat} :
    Shaped X (prologue frameSize) ⟨.int :: s, d⟩ ⟨s, d⟩ := by
  refine .append (.append (Shaped.straight hX.allocator ?_ rfl) (shaped_moveStack hX))
    (Shaped.straight hX.allocator ?_ rfl)
  · simp [hX.cells]
  · simp [checkStack, hX.cells]

/-- A frame is taken down, and the result is moved to memory. -/
lemma shaped_epilogue {frameSize argSize : Nat} {result : Ty} {e : Entry} :
    Shaped X (epilogue frameSize argSize result) ⟨result.residue, some []⟩ e := by
  have hstore : Shaped X (if result.isVoid then []
      else load Cell.stackPointer ++ ops [.exchange, result.storeOp])
      ⟨result.residue, some []⟩ ⟨[], some []⟩ := by
    unfold Ty.residue
    split
    · exact .nil
    · exact .cons (.pushD hX.cells.1) (.cons (.plain rfl) (.cons (.plain rfl)
        (.single (.plain (Ty.flow_storeOp _ _)))))
  have hframe : Shaped X (load Cell.framePointer ++ minus returnDepth ++ ops [.loadI] ++
      pushD Cell.framePointer ++ load Cell.framePointer ++ minus linkDepth ++ ops [.loadI, .storeI])
      ⟨result.residue, some []⟩ ⟨.int :: result.residue, some []⟩ :=
    Shaped.straight hX.allocator (by simp [hX.cells]) rfl
  have hreturn : Shaped X (store Cell.returnAddress) ⟨.int :: result.residue, some []⟩
      ⟨result.residue, some []⟩ :=
    Shaped.straight hX.allocator (by simp [hX.cells]) rfl
  have hload : Shaped X (load Cell.returnAddress) ⟨[], some []⟩ ⟨[.int], some []⟩ :=
    Shaped.straight hX.allocator (by simp [hX.cells]) rfl
  exact ((((hframe.append (shaped_moveStack hX)).append hreturn).append hstore).append
    hload).append (.single .return)

/-- A subroutine starts with a return address and comes to its way out with its result. -/
lemma shaped_subroutine {h : FuncHead} {implicitReturn : Bool} {body : Code} {e : Entry}
    (hstart : (.text (startLabel l), Entry.subroutine) ∈ X.code)
    (hexit : (.text (exitLabel l), ⟨h.result.residue, some []⟩) ∈ X.code)
    (hb : Shaped X body ⟨[], some []⟩ ⟨[], some []⟩) :
    Shaped X (subroutine h l implicitReturn body) Entry.subroutine e := by
  have hend : Shaped X (if h.result.isVoid && implicitReturn then []
      else jump Trap.functionRunoff.label) ⟨[], some []⟩ ⟨h.result.residue, some []⟩ := by
    split
    · next hvoid =>
      rw [Bool.and_eq_true] at hvoid
      rw [Ty.residue, if_pos hvoid.1]
      exact .nil
    · exact .single (.jump (.inl ⟨_, rfl⟩))
  have hhead : Shaped X ((label (startLabel l)).note h.name ++ prologue h.frameSize)
      Entry.subroutine ⟨[], some []⟩ :=
    .cons (.label hstart) (shaped_prologue hX)
  exact (((hhead.append hb).append hend).append (.single (.label hexit))).append
    (shaped_epilogue hX)

end Calls

/-! ### Printing -/

/-- The labels of printing a truth value. -/
def printBoolRoles : List (String × Shape) := [("true", []), ("join", [.int])]

/-- The labels of printing an array, where two cells are saved on the stack. -/
def printArrayRoles : List (String × Shape) :=
  [("loop", [.int, .int]), ("first", [.int, .int]), ("end", [.int, .int])]

variable (hX : X.IsStandard)
include hX

lemma shaped_printArray {t : Ty} {elem : Code} (hl : l.sites printArrayRoles s d ⊆ X.code)
    (he : Shaped X elem ⟨t.kind :: .int :: .int :: s, d⟩ ⟨.int :: .int :: s, d⟩) :
    Shaped X (Lower.printArray l t elem) ⟨.int :: s, d⟩ ⟨s, d⟩ := by
  have site := LabelFamily.mem_of_sites hl
  have hloop := site "loop" [.int, .int] (by simp [printArrayRoles])
  have hfirst := site "first" [.int, .int] (by simp [printArrayRoles])
  have hend := site "end" [.int, .int] (by simp [printArrayRoles])
  have hsave : Shaped X (load Cell.print1 ++ ops [.exchange] ++ load Cell.print2 ++
      ops [.exchange] ++ store Cell.print1 ++ pushD Cell.print2 ++ pushI 0 ++ ops [.storeI])
      ⟨.int :: s, d⟩ ⟨.int :: .int :: s, d⟩ :=
    Shaped.straight hX.allocator (by simp [hX.cells]) rfl
  -- the loop is left when the position is the length
  have htest : Shaped X (label (l.label "loop") ++ (load Cell.print2 ++ load Cell.print1 ++
      plus ArrayRecord.lengthOffset ++ ops [.loadI, .subtract]) ++ branch .jumpFalse (l.label "end"))
      ⟨.int :: .int :: s, d⟩ ⟨.int :: .int :: s, d⟩ :=
    .append (.append (.single (.label hloop)) (Shaped.straight hX.allocator (by simp [hX.cells]) rfl))
      (.single (.test rfl (.inr hend)))
  have hseparate : Shaped X (load Cell.print2 ++ branch .jumpFalse (l.label "first") ++
      Lower.printf .separator ++ label (l.label "first"))
      ⟨.int :: .int :: s, d⟩ ⟨.int :: .int :: s, d⟩ :=
    .append (.append (.append (Shaped.straight hX.allocator (by simp [hX.cells]) rfl)
      (.single (.test rfl (.inr hfirst)))) (shaped_printf hX .separator)) (.single (.label hfirst))
  have hfetch : Shaped X (load Cell.print1 ++ plus ArrayRecord.headerSize ++ load Cell.print2 ++
      pushI t.size ++ ops [.multiply, .add, t.loadOp])
      ⟨.int :: .int :: s, d⟩ ⟨t.kind :: .int :: .int :: s, d⟩ :=
    .append (Shaped.straight hX.allocator (by simp [hX.cells]) rfl) (.cons (.plain rfl)
      (.cons (.plain rfl) (.single (.plain (Ty.flow_loadOp _ _)))))
  have hnext : Shaped X (pushD Cell.print2 ++ load Cell.print2 ++ plus 1 ++ ops [.storeI] ++
      jump (l.label "loop") ++ label (l.label "end"))
      ⟨.int :: .int :: s, d⟩ ⟨.int :: .int :: s, d⟩ :=
    .append (.append (Shaped.straight hX.allocator (by simp [hX.cells]) rfl)
      (.single (.jump (.inr hloop)))) (.single (.label hend))
  have hrestore : Shaped X (store Cell.print2 ++ store Cell.print1)
      ⟨.int :: .int :: s, d⟩ ⟨s, d⟩ :=
    Shaped.straight hX.allocator (by simp [hX.cells]) rfl
  have hall := (((((((hsave.append (shaped_printf hX .openBracket)).append htest).append
    hseparate).append hfetch).append he).append hnext).append
    (shaped_printf hX .closeBracket)).append hrestore
  unfold Lower.printArray
  simp only [List.append_assoc] at hall ⊢
  exact hall

lemma shaped_printBool (hl : l.sites printBoolRoles s d ⊆ X.code) :
    Shaped X (branch .jumpTrue (l.label "true") ++ pushD PrintFormat.falseText.label ++
      jump (l.label "join") ++ label (l.label "true") ++ pushD PrintFormat.trueText.label ++
      label (l.label "join") ++ Lower.printf .boolean) ⟨.int :: s, d⟩ ⟨s, d⟩ := by
  have site := LabelFamily.mem_of_sites hl
  have htrue := site "true" [] (by simp [printBoolRoles])
  have hjoin := site "join" [.int] (by simp [printBoolRoles])
  exact .append (.cons (.test rfl (.inr htrue)) (.cons (.pushD (hX.format _)) (.cons
    (.jump (.inr hjoin)) (.cons (.label htrue) (.cons (.pushD (hX.format _))
      (.single (.label hjoin))))))) (shaped_printf hX .boolean)

omit hX in
lemma codeLabels_printArray (t : Ty) (elem : Code) :
    (Lower.printArray l t elem).codeLabels =
      [.text (l.label "loop"), .text (l.label "first")] ++ elem.codeLabels ++
        [.text (l.label "end")] := by
  unfold Lower.printArray
  simp only [Lower.printf, codeLabels_append, codeLabels_load, codeLabels_ops, codeLabels_store,
    codeLabels_pushI, codeLabels_pushD, codeLabels_label, codeLabels_jump, codeLabels_plus,
    codeLabels_branch (o := .jumpFalse) (by decide), List.append_nil, List.nil_append,
    List.append_assoc, List.cons_append]

/-! ### The labels of constructs without labels of their own -/

omit hX

lemma codeLabels_index (a p : Code) : (index a p).codeLabels = a.codeLabels ++ p.codeLabels := by
  unfold index
  simp only [codeLabels_append, codeLabels_load, codeLabels_ops, codeLabels_store, codeLabels_plus,
    codeLabels_minus, codeLabels_branch (o := .jumpNeg) (by decide), List.append_nil]

lemma codeLabels_header (t : Ty) (c : Code) : (header t c).codeLabels = c.codeLabels := by
  have hfield : ∀ (n : Nat) (w : Code), (headerField n w).codeLabels = w.codeLabels := by
    intro n w
    unfold headerField
    split <;> simp
  simp [header, hfield]

lemma codeLabels_arrayAlloc (t : Ty) (c : Code) : (arrayAlloc t c).codeLabels = c.codeLabels := by
  unfold arrayAlloc
  simp only [codeLabels_append, codeLabels_load, codeLabels_ops, codeLabels_store, codeLabels_plus,
    codeLabels_pushI, codeLabels_header, codeLabels_branch (o := .jumpNeg) (by decide),
    codeLabels_branch (o := .call) (by decide), List.append_nil]

lemma codeLabels_arrayLiteral (t : Ty) (cs : List Code) :
    (arrayLiteral t cs).codeLabels = cs.flatMap codeLabels := by
  have helems : ∀ n, (storeElems t n cs).codeLabels = cs.flatMap codeLabels := by
    induction cs with
    | nil =>
      intro n
      rfl
    | cons c cs ih =>
      intro n
      simp [storeElems, ih]
  unfold arrayLiteral
  simp only [codeLabels_append, codeLabels_pushI, codeLabels_header, helems,
    codeLabels_branch (o := .call) (by decide), List.nil_append]

lemma codeLabels_pushArgs {params : List Ty} {args : List Code}
    (h : params.length = args.length) :
    (pushArgs params args).codeLabels = args.flatMap codeLabels := by
  induction params generalizing args with
  | nil =>
    cases args with
    | nil => rfl
    | cons => simp at h
  | cons p ps ih =>
    cases args with
    | nil => simp at h
    | cons c cs => simp [pushArgs, ih (Nat.succ.inj h)]

lemma codeLabels_callSite {params : List Ty} {result : Ty} {args : List Code} {callee : Code}
    (h : params.length = args.length) : (callSite params result args callee).codeLabels =
      args.flatMap codeLabels ++ callee.codeLabels := by
  have hresult : (takeResult result).codeLabels = [] := by
    unfold takeResult
    split <;> simp
  simp [callSite, hresult, codeLabels_pushArgs h]

lemma codeLabels_subroutine (h : FuncHead) (l : LabelFamily) (implicitReturn : Bool) (body : Code) :
    (subroutine h l implicitReturn body).codeLabels =
      .text (startLabel l) :: (body.codeLabels ++ [.text (exitLabel l)]) := by
  have hstart : (prologue h.frameSize).codeLabels = [] := by
    simp [prologue, checkStack, codeLabels_branch]
  have hend : (epilogue h.frameSize h.argSize h.result).codeLabels = [] := by
    unfold epilogue
    split <;> simp
  unfold subroutine
  split <;> simp [hstart, hend]

end Lowering

end SubrLang
