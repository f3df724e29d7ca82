import SubrLang.Proofs.LoweredCode

/-!
# The nodes of a tree
-/

namespace SubrLang

/-! ## The expressions of a tree -/

mutual

/-- The expressions inside an expression, at any depth. Those in the body of a subroutine are among them. -/
def Expr.innerNodes : Expr → List Expr
  | .operator _ _ es _ | .arrayLiteral _ es => Expr.nodes es
  | .arrayAlloc _ _ l => l :: l.innerNodes
  | .index _ a i => a :: a.innerNodes ++ i :: i.innerNodes
  | .call _ f es => f :: f.innerNodes ++ Expr.nodes es
  | .lambda _ _ b => Stmt.nodesAll b
  | .number .. | .floatNumber .. | .char .. | .string .. | .bool .. | .ident .. | .typeLiteral .. => []

/-- Expressions and those inside them. -/
def Expr.nodes : List Expr → List Expr
  | [] => []
  | e :: es => e :: e.innerNodes ++ Expr.nodes es

/-- The expressions of what a print statement writes. -/
def PrintItem.nodes : List PrintItem → List Expr
  | [] => []
  | .separator .. :: is => PrintItem.nodes is
  | .value e :: is => e :: e.innerNodes ++ PrintItem.nodes is

/-- The expressions of a statement. -/
def Stmt.nodes : Stmt → List Expr
  | .varDecl _ _ _ e _ | .call _ e | .give _ e => e :: e.innerNodes
  | .assign _ t v => t :: t.innerNodes ++ v :: v.innerNodes
  | .print _ is => PrintItem.nodes is
  | .leave _ => []
  | .ifThen _ c b | .while _ c b => c :: c.innerNodes ++ Stmt.nodesAll b
  | .ifElse _ c b a => c :: c.innerNodes ++ Stmt.nodesAll b ++ a.nodes
  | .block _ b => Stmt.nodesAll b

/-- The expressions of statements. -/
def Stmt.nodesAll : List Stmt → List Expr
  | [] => []
  | s :: ss => s.nodes ++ Stmt.nodesAll ss

end

/-- The expressions of a program. -/
def Program.nodes (p : Program) : List Expr :=
  p.funcs.flatMap (fun f => Stmt.nodesAll f.body) ++ Stmt.nodesAll p.main

namespace Expr

lemma innerNodes_withNote (e : Expr) (n : Note) : (e.withNote n).innerNodes = e.innerNodes := by
  cases e <;> simp only [withNote, innerNodes]

lemma mem_nodes {e : Expr} {es : List Expr} : e ∈ nodes es ↔ ∃ p ∈ es, e ∈ p :: p.innerNodes := by
  induction es with
  | nil => simp [nodes]
  | cons p es ih => simp [nodes, ih, or_assoc]

end Expr

/-! ## Subroutines -/

/-- A subroutine of a tree, with a name or without. -/
structure Subroutine where
  place : Place
  head : FuncHead
  body : List Stmt

mutual

/-- The subroutines without a name in an expression, also those inside other subroutines. -/
def Expr.subroutines : Expr → Multiset Subroutine
  | .operator _ _ es _ | .arrayLiteral _ es => Expr.subroutinesAll es
  | .arrayAlloc _ _ l => l.subroutines
  | .index _ a i => a.subroutines + i.subroutines
  | .call _ f es => f.subroutines + Expr.subroutinesAll es
  | .lambda n h b => ⟨n.place, h, b⟩ ::ₘ Stmt.subroutinesAll b
  | .number .. | .floatNumber .. | .char .. | .string .. | .bool .. | .ident .. | .typeLiteral .. => 0

def Expr.subroutinesAll : List Expr → Multiset Subroutine
  | [] => 0
  | e :: es => e.subroutines + Expr.subroutinesAll es

def PrintItem.subroutinesAll : List PrintItem → Multiset Subroutine
  | [] => 0
  | .separator .. :: is => PrintItem.subroutinesAll is
  | .value e :: is => e.subroutines + PrintItem.subroutinesAll is

/-- The subroutines in a statement. -/
def Stmt.subroutines : Stmt → Multiset Subroutine
  | .varDecl _ _ _ e _ | .call _ e | .give _ e => e.subroutines
  | .assign _ t v => t.subroutines + v.subroutines
  | .print _ is => PrintItem.subroutinesAll is
  | .leave _ => 0
  | .ifThen _ c b | .while _ c b => c.subroutines + Stmt.subroutinesAll b
  | .ifElse _ c b a => c.subroutines + Stmt.subroutinesAll b + a.subroutines
  | .block _ b => Stmt.subroutinesAll b

def Stmt.subroutinesAll : List Stmt → Multiset Subroutine
  | [] => 0
  | s :: ss => s.subroutines + Stmt.subroutinesAll ss

end

namespace Subroutine

/-- The subroutine and those inside it. -/
def all (f : Subroutine) : Multiset Subroutine := f ::ₘ Stmt.subroutinesAll f.body

/-- The subroutine with all noted conversions inserted in its body. -/
def applyWidening (r : Registry) (f : Subroutine) : Subroutine := { f with body := Stmt.applyWidenings r f.body }

end Subroutine

def Func.subroutine (f : Func) : Subroutine := ⟨f.note.place, f.head, f.body⟩

/-- The subroutines of a program, with or without a name and at any depth. -/
def Program.allSubroutines (p : Program) : Multiset Subroutine :=
  (p.funcs.map (·.subroutine.all)).sum + Stmt.subroutinesAll p.main

lemma Program.mem_allSubroutines {p : Program} {f : Subroutine} :
    f ∈ p.allSubroutines ↔ (∃ g ∈ p.funcs, f ∈ g.subroutine.all) ∨ f ∈ Stmt.subroutinesAll p.main := by
  have hfuncs : ∀ fs : List Func, f ∈ (fs.map fun g : Func => g.subroutine.all).sum ↔
      ∃ g ∈ fs, f ∈ g.subroutine.all := by
    intro fs
    induction fs with
    | nil => simp
    | cons g fs ih => simp [ih]
  rw [allSubroutines, Multiset.mem_add, hfuncs]

/-- There are as many subroutines as lowering allows for. -/
lemma Expr.card_subroutines : (∀ e : Expr, e.subroutines.card = e.lambdas) ∧
    (∀ ss, (Stmt.subroutinesAll ss).card = Stmt.lambdasAll ss) ∧ (∀ s : Stmt, s.subroutines.card = s.lambdas) ∧
    (∀ is, (PrintItem.subroutinesAll is).card = PrintItem.lambdasAll is) ∧
    ∀ es, (Expr.subroutinesAll es).card = Expr.lambdasAll es := by
  apply Expr.subroutines.mutual_induct <;> intros
  all_goals simp_all [Expr.subroutines, Expr.subroutinesAll, PrintItem.subroutinesAll, Stmt.subroutines,
    Stmt.subroutinesAll, Expr.lambdas, Expr.lambdasAll, PrintItem.lambdasAll, Stmt.lambdas, Stmt.lambdasAll]

lemma Program.card_allSubroutines (p : Program) : p.allSubroutines.card = p.subroutines := by
  have hfuncs : ∀ fs : List Func, (fs.map fun f : Func => f.subroutine.all).sum.card = Func.subroutinesAll fs := by
    intro fs
    induction fs with
    | nil => rfl
    | cons f fs ih =>
      rw [List.map_cons, List.sum_cons, Multiset.card_add, ih, Subroutine.all, Multiset.card_cons,
        Expr.card_subroutines.2.1]
      rfl
  simp [allSubroutines, subroutines, hfuncs, Expr.card_subroutines.2.1]

/-! ## References -/

/-- A part of a tree whose own code refers to a subroutine. -/
inductive Reference where
  /-- A subroutine without a name, the address of which is taken. -/
  | address (f : Subroutine)
  /-- A return statement, with the place of the subroutine that it belongs to. -/
  | exit (owner : Option Place)

namespace Reference

/-- The subroutines whose addresses are taken. -/
def addresses (xs : List Reference) : List Subroutine :=
  xs.filterMap fun
    | .address f => some f
    | .exit _ => none

/-- What return statements are noted to belong to. -/
def owners (xs : List Reference) : List (Option Place) :=
  xs.filterMap fun
    | .address _ => none
    | .exit owner => some owner

end Reference

mutual

/-- What refers to subroutines in an expression, in the order of its code. The bodies of subroutines have their
code elsewhere. -/
def Expr.references : Expr → List Reference
  | .operator _ _ es _ | .arrayLiteral _ es => Expr.referencesAll es
  | .arrayAlloc _ _ l => l.references
  | .index _ a i => a.references ++ i.references
  -- the arguments stand in front of what is called
  | .call _ f es => Expr.referencesAll es ++ f.references
  | .lambda n h b => [.address ⟨n.place, h, b⟩]
  | .number .. | .floatNumber .. | .char .. | .string .. | .bool .. | .ident .. | .typeLiteral .. => []

def Expr.referencesAll : List Expr → List Reference
  | [] => []
  | e :: es => e.references ++ Expr.referencesAll es

end

def PrintItem.references : PrintItem → List Reference
  | .separator .. => []
  | .value e => e.references

mutual

/-- What refers to subroutines in a statement, in the order of its code. -/
def Stmt.references : Stmt → List Reference
  | .varDecl _ _ _ e _ | .call _ e => e.references
  | .assign _ t v => t.references ++ v.references
  | .print _ is => is.flatMap PrintItem.references
  | .give n v => v.references ++ [.exit n.subroutine]
  | .leave n => [.exit n.subroutine]
  | .ifThen _ c b | .while _ c b => c.references ++ Stmt.referencesAll b
  | .ifElse _ c b a => c.references ++ Stmt.referencesAll b ++ a.references
  | .block _ b => Stmt.referencesAll b

def Stmt.referencesAll : List Stmt → List Reference
  | [] => []
  | s :: ss => s.references ++ Stmt.referencesAll ss

end

namespace Reference

@[simp] lemma owners_nil : owners [] = [] := rfl

@[simp] lemma owners_append (xs ys : List Reference) : owners (xs ++ ys) = owners xs ++ owners ys :=
  List.filterMap_append

@[simp] lemma owners_exit (o : Option Place) : owners [.exit o] = [o] := rfl

/-- The subroutines whose addresses are taken, and those inside them. -/
def subroutines (xs : List Reference) : Multiset Subroutine := ((addresses xs).map Subroutine.all).sum

@[simp] lemma subroutines_nil : subroutines [] = 0 := rfl

@[simp] lemma subroutines_append (xs ys : List Reference) :
    subroutines (xs ++ ys) = subroutines xs + subroutines ys := by
  simp [subroutines, addresses]

@[simp] lemma subroutines_address (f : Subroutine) : subroutines [.address f] = f.all := by
  simp [subroutines, addresses]

@[simp] lemma subroutines_exit (o : Option Place) : subroutines [.exit o] = 0 := rfl

end Reference

/-- Whether return statements in the body of a subroutine are noted to belong to it. -/
def Subroutine.OwnsReturns (f : Subroutine) : Prop :=
  ∀ o ∈ Reference.owners (Stmt.referencesAll f.body), o = some f.place

/-- There are no return statements in an expression, other than in the bodies of subroutines. -/
lemma Expr.owners_references : (∀ e : Expr, Reference.owners e.references = []) ∧
    ∀ es, Reference.owners (Expr.referencesAll es) = [] := by
  apply Expr.references.mutual_induct <;> intros
  all_goals simp_all [Expr.references, Expr.referencesAll, Reference.owners]

lemma PrintItem.owners_references (is : List PrintItem) :
    Reference.owners (is.flatMap PrintItem.references) = [] := by
  induction is with
  | nil => rfl
  | cons i is ih => cases i <;> simp_all [PrintItem.references, Expr.owners_references]

/-- The subroutines in a tree are those whose addresses it takes and the ones inside these. -/
lemma Expr.subroutines_references : (∀ e : Expr, Reference.subroutines e.references = e.subroutines) ∧
    (∀ ss, Reference.subroutines (Stmt.referencesAll ss) = Stmt.subroutinesAll ss) ∧
    (∀ s : Stmt, Reference.subroutines s.references = s.subroutines) ∧
    (∀ is, Reference.subroutines (is.flatMap PrintItem.references) = PrintItem.subroutinesAll is) ∧
    ∀ es, Reference.subroutines (Expr.referencesAll es) = Expr.subroutinesAll es := by
  apply Expr.subroutines.mutual_induct <;> intros
  all_goals simp_all [Expr.references, Expr.referencesAll, PrintItem.references, Stmt.references,
    Stmt.referencesAll, Expr.subroutines, Expr.subroutinesAll, PrintItem.subroutinesAll, Stmt.subroutines,
    Stmt.subroutinesAll, Subroutine.all, add_comm, add_left_comm]

/-- Whether return statements are noted to belong to the subroutine that they stand in: those of a part of the
subroutine at a place, or of the main block, and those of the subroutines inside it. -/
def Reference.Home (o : Option Place) (isInside : Bool) (xs : List Reference) : Prop :=
  (isInside → ∀ q ∈ owners xs, q = o) ∧ ∀ f ∈ subroutines xs, f.OwnsReturns

section Home

variable {o : Option Place} {isInside : Bool}

namespace Reference

@[simp] lemma home_nil : Home o isInside [] := by simp [Home]

@[simp] lemma home_append {xs ys : List Reference} :
    Home o isInside (xs ++ ys) ↔ Home o isInside xs ∧ Home o isInside ys := by
  simp only [Home, owners_append, subroutines_append, List.forall_mem_append, Multiset.mem_add, or_imp, forall_and]
  tauto

@[simp] lemma home_exit {q : Option Place} : Home o isInside [.exit q] ↔ (isInside → q = o) := by simp [Home]

end Reference

/-- Whether return statements in the subroutines in an expression are noted to belong to these. -/
def Expr.IsHome (e : Expr) : Prop := ∀ f ∈ e.subroutines, f.OwnsReturns

lemma Expr.IsHome.home {e : Expr} (h : e.IsHome) : Reference.Home o isInside e.references := by
  simpa [Reference.Home, Expr.owners_references, Expr.subroutines_references, Expr.IsHome] using h

/-- Return statements in the body of a subroutine are at home there. -/
lemma Expr.isHome_lambda {n : Note} {h : FuncHead} {b : List Stmt}
    (hb : Reference.Home (some n.place) true (Stmt.referencesAll b)) : (Expr.lambda n h b).IsHome := by
  simp only [Expr.IsHome, Expr.subroutines, Multiset.mem_cons, forall_eq_or_imp]
  exact ⟨hb.1 rfl, by simpa [Expr.subroutines_references] using hb.2⟩

lemma Expr.isHome_subroutinesAll {es : List Expr} :
    (∀ f ∈ Expr.subroutinesAll es, f.OwnsReturns) ↔ ∀ e ∈ es, e.IsHome := by
  induction es with
  | nil => simp [Expr.subroutinesAll]
  | cons e es ih =>
    simp only [Expr.subroutinesAll, Multiset.mem_add, or_imp, forall_and, ih, List.forall_mem_cons]
    rfl

end Home

/-! ## Conversions -/

section Conversions

variable (r : Registry)

lemma Expr.references_withWidening (e : Expr) (chain : List Prim) :
    (e.withWidening chain).references = e.references := by
  cases e <;> rfl

/-- Conversions around an expression do not change what it refers to. -/
lemma Widening.references_wrap (e : Expr) : (wrap r e).references = e.references := by
  have hcast : ∀ (e : Expr) (p : Prim), (cast r e p).references = e.references := by
    intro e p
    unfold cast
    split <;> simp [Expr.references, Expr.referencesAll, Expr.ofType]
  have hcasts : ∀ (chain : List Prim) (e : Expr), (chain.foldl (cast r) e).references = e.references := by
    intro chain
    induction chain with
    | nil => exact fun _ => rfl
    | cons p chain ih => exact fun e => (ih (cast r e p)).trans (hcast e p)
  unfold wrap
  split
  · rfl
  · rw [Expr.references_withWidening, hcasts, Expr.references_withWidening]

lemma Widening.references_attached (e : Expr) (w : Widened) :
    ((attached e w).applyWidening r).references = (e.applyWidening r).references := by
  unfold attached
  split
  · rfl
  · cases e <;> simp [Expr.withWidening, Expr.withNote, Expr.applyWidening, references_wrap, Expr.references, Expr.note]

lemma Widening.subroutines_wrap (e : Expr) : (wrap r e).subroutines = e.subroutines := by
  rw [← Expr.subroutines_references.1, references_wrap, Expr.subroutines_references.1]

/-- Inserting conversions keeps the subroutines, apart from what is inserted inside them. -/
lemma Expr.subroutines_applyWidening :
    (∀ e : Expr, (e.applyWidening r).subroutines = e.subroutines.map (·.applyWidening r)) ∧
    (∀ ss, Stmt.subroutinesAll (Stmt.applyWidenings r ss) = (Stmt.subroutinesAll ss).map (·.applyWidening r)) ∧
    (∀ s : Stmt, (s.applyWidening r).subroutines = s.subroutines.map (·.applyWidening r)) ∧
    (∀ is, PrintItem.subroutinesAll (PrintItem.applyWidenings r is) =
      (PrintItem.subroutinesAll is).map (·.applyWidening r)) ∧
    ∀ es, Expr.subroutinesAll (Expr.applyWidenings r es) = (Expr.subroutinesAll es).map (·.applyWidening r) := by
  apply Expr.subroutines.mutual_induct <;> intros
  all_goals simp_all [Expr.applyWidening, Expr.applyWidenings, PrintItem.applyWidenings, Stmt.applyWidening,
    Stmt.applyWidenings, Widening.subroutines_wrap, Expr.subroutines, Expr.subroutinesAll,
    PrintItem.subroutinesAll, Stmt.subroutines, Stmt.subroutinesAll, Subroutine.applyWidening]

lemma Program.allSubroutines_applyWidening (p : Program) :
    (p.applyWidening r).allSubroutines = p.allSubroutines.map (·.applyWidening r) := by
  have hall : ∀ f : Subroutine, (f.applyWidening r).all = f.all.map (·.applyWidening r) := fun f => by
    simp [Subroutine.all, Subroutine.applyWidening, Expr.subroutines_applyWidening]
  have hfuncs : ∀ fs : List Func, (fs.map fun f => (f.subroutine.applyWidening r).all).sum =
      (fs.map fun f : Func => f.subroutine.all).sum.map (·.applyWidening r) := by
    intro fs
    induction fs with
    | nil => rfl
    | cons f fs ih => rw [List.map_cons, List.sum_cons, ih, hall, ← Multiset.map_add, List.map_cons, List.sum_cons]
  have hmain := (Expr.subroutines_applyWidening r).2.1 p.main
  rw [allSubroutines, allSubroutines, Multiset.map_add, ← hfuncs, ← hmain, applyWidening, List.map_map]
  rfl

/-- Inserting conversions keeps what return statements are noted to belong to. -/
lemma Stmt.owners_applyWidening :
    (∀ s : Stmt, Reference.owners (s.applyWidening r).references = Reference.owners s.references) ∧
    ∀ ss, Reference.owners (Stmt.referencesAll (Stmt.applyWidenings r ss)) =
      Reference.owners (Stmt.referencesAll ss) := by
  apply Stmt.references.mutual_induct <;> intros
  all_goals simp_all [Stmt.applyWidening, Stmt.applyWidenings, Stmt.references, Stmt.referencesAll,
    Expr.owners_references, PrintItem.owners_references]

lemma Subroutine.ownsReturns_applyWidening {f : Subroutine} (h : f.OwnsReturns) :
    (f.applyWidening r).OwnsReturns := by
  intro o ho
  rw [Subroutine.applyWidening, (Stmt.owners_applyWidening r).2] at ho
  exact h o ho

end Conversions

end SubrLang
