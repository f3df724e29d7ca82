import SubrLang.Tree.Parse
import SubrLang.Proofs.TypeRules

/-!
# Elaboration

What checking makes of a tree, said as rules and without the state of the checker. A context `Ctx` is
what the rules need of the symbol table: the names in sight with their bindings, how far the storage of
the enclosing subroutine has been handed out, and the number of its activation record.

* **Rules.** `Expr.Elab r Γ k e e'` says that `e` checks to `e'` in the context `Γ`; a statement also
  changes the context, so `Stmt.Elab r result Γ s s' Γ'` has one before and one behind it. A block hands
  storage on: behind it the names and the bytes in use are those of before, and only the peak grows.
* **Types.** `Expr.isSource` holds for trees all of whose written types are types of values, as those of
  sources are. Elaborating such a tree gives types of values again (`Expr.Elab.isValue`).
-/

namespace SubrLang

/-! ## Trees of sources -/

/-- Whether the types written in the head of a subroutine are such that values can have. -/
def FuncHead.isSource (h : FuncHead) : Bool :=
  h.params.all (·.declared.isResult) && h.result.isResult

/-- Whether an expression is a type of values, written as the target of a conversion. -/
def Expr.isConversionTarget : Expr → Bool
  | .typeLiteral _ t => t.isValue
  | _ => false

/-- Whether a statement can stand behind `else`. -/
def Stmt.isAlternative : Stmt → Bool
  | .block .. | .ifThen .. | .ifElse .. => true
  | _ => false

mutual

/-- Whether a tree is one that a source can have: types are types of values, types stand as operands only
where a conversion names its target, array literals have elements, names and indexed arrays are assigned
to, and behind `else` there is a block or another conditional. -/
def Expr.isSource : Expr → Bool
  | .number .. | .floatNumber .. | .char .. | .string .. | .bool .. | .ident .. => true
  | .operator _ op es _ => Expr.areSource (op == .cast) es
  | .typeLiteral .. => false
  | .arrayLiteral _ es => !es.isEmpty && Expr.areSource false es
  | .arrayAlloc _ t l => t.isValue && l.isSource
  | .index _ a i => a.isSource && i.isSource
  | .call _ f es => f.isSource && Expr.areSource false es
  | .lambda _ h b => h.isSource && Stmt.areSource b

/-- As `isSource`, for a list whose first expression may be the target of a conversion. -/
def Expr.areSource (conversion : Bool) : List Expr → Bool
  | [] => true
  | e :: es => (if conversion then e.isConversionTarget else e.isSource) && Expr.areSource false es

def PrintItem.areSource : List PrintItem → Bool
  | [] => true
  | .separator _ _ :: is => PrintItem.areSource is
  | .value e :: is => e.isSource && PrintItem.areSource is

def Stmt.isSource : Stmt → Bool
  | .varDecl _ _ _ e _ => e.isSource
  | .assign _ t v => Parse.isTarget t && t.isSource && v.isSource
  | .print _ is => PrintItem.areSource is
  | .call _ c => c.isSource
  | .give _ v => v.isSource
  | .leave _ => true
  | .ifThen _ c b => c.isSource && Stmt.areSource b
  | .ifElse _ c b a => c.isSource && Stmt.areSource b && (a.isAlternative && a.isSource)
  | .while _ c b => c.isSource && Stmt.areSource b
  | .block _ b => Stmt.areSource b

def Stmt.areSource : List Stmt → Bool
  | [] => true
  | s :: ss => s.isSource && Stmt.areSource ss

end

/-- Whether a program is one that a source can have. -/
def Program.isSource (p : Program) : Bool :=
  p.funcs.all (fun f => f.head.isSource && Stmt.areSource f.body) && Stmt.areSource p.main

/-! ## Contexts -/

/-- What checking knows at a place of a program. -/
structure Ctx where
  /-- The names in sight, the innermost scope first, and in it the latest name. -/
  scopes : List (List (String × Binding))
  /-- Where storage is handed out. -/
  region : Region
  /-- The number of bytes handed out and not given back. -/
  used : Nat
  /-- The greatest number of bytes in use so far. -/
  peak : Nat
  /-- The activation record of the enclosing subroutine. -/
  frame : Nat

namespace Ctx

/-- The binding that a name refers to. -/
def find? (Γ : Ctx) (x : String) : Option Binding :=
  Γ.scopes.findSome? (·.lookup x)

/-- The binding of a name in the innermost scope. -/
def local? (Γ : Ctx) (x : String) : Option Binding :=
  (Γ.scopes.headD []).lookup x

/-- Whether a binding lives in the frame of another subroutine. -/
def captures (Γ : Ctx) (b : Binding) : Bool :=
  b.base == .frame && b.frame != Γ.frame

/-- Inside a new block. -/
def enter (Γ : Ctx) : Ctx :=
  { Γ with scopes := [] :: Γ.scopes }

/-- Behind a block that came to the context `Γ'`. -/
def leave (Γ Γ' : Ctx) : Ctx :=
  { Γ with peak := Γ'.peak }

/-- The binding of a name that is declared next. -/
def binding (Γ : Ctx) (x : String) (t : Ty) (mutable : Bool) : Binding where
  name := x
  ty := t
  mutable := mutable
  base := Γ.region.base
  offset := ({ region := Γ.region, used := Γ.used } : Allocator).nextOffset t.size
  frame := Γ.frame

/-- Behind the declaration of a name. -/
def declare (Γ : Ctx) (x : String) (t : Ty) (mutable : Bool) : Ctx :=
  { Γ with
    scopes := ((x, Γ.binding x t mutable) :: Γ.scopes.headD []) :: Γ.scopes.tail
    used := Γ.used + t.size
    peak := max Γ.peak (Γ.used + t.size) }

/-- Whether a number belongs to no activation record that is in sight. -/
def isFresh (Γ : Ctx) (k : Nat) : Prop :=
  Γ.frame < k ∧ ∀ s ∈ Γ.scopes, ∀ p ∈ s, p.2.frame < k

/-- The bindings in sight. -/
def visible (Γ : Ctx) : List Binding := Γ.scopes.flatten.map (·.2)

/-- Whether all names in sight have values. -/
def allValues (Γ : Ctx) : Prop := ∀ b ∈ Γ.visible, b.ty.isValue

end Ctx

/-! ## Heads of subroutines -/

namespace FuncHead

/-- The bindings of parameters below `top`, the first one highest. -/
def placed (k : Nat) (top : Int) : List Param → List Binding
  | [] => []
  | p :: ps =>
    let offset := top - p.declared.size
    { name := p.name, ty := p.declared, mutable := true, base := .frame, offset, frame := k } ::
      placed k offset ps

/-- The bytes of the arguments. -/
def argBytes (h : FuncHead) : Nat := (h.params.map (·.declared.size)).sum

/-- The bindings of the parameters in the activation record `k`. -/
def bindings (h : FuncHead) (k : Nat) : List Binding := placed k h.argBytes h.params

/-- The head after its body was checked, which needs so many bytes below the frame pointer. -/
def completed (h : FuncHead) (k frameSize : Nat) : FuncHead :=
  { h with
    params := List.zipWith (fun p b => { p with ty := some p.declared, binding := some b })
      h.params (h.bindings k)
    argSize := h.argBytes
    frameSize := frameSize }

/-- Whether the parameters can be declared: none is void, and no two have the same name. -/
def hasGoodParams (h : FuncHead) : Prop :=
  (∀ p ∈ h.params, p.declared.isVoid = false) ∧ (h.params.map (·.name)).Nodup

end FuncHead

/-- At the start of the body of a subroutine with the activation record `k`. -/
def Ctx.inFunc (Γ : Ctx) (h : FuncHead) (k : Nat) : Ctx where
  scopes := [] :: ((h.bindings k).map fun b => (b.name, b)).reverse :: Γ.scopes
  region := .locals
  used := savedBytes
  peak := savedBytes
  frame := k

/-! ## The rules -/

/-- Notes conversions on operands. -/
def Widening.attach : List Expr → List Widened → List Expr
  | e :: es, (_, chain) :: ws =>
    (if chain.isEmpty then e else e.withWidening chain) :: attach es ws
  | es, _ => es

mutual

/-- In a context an expression checks to another. Only a call that is a statement may be void. -/
inductive Expr.Elab (r : Rules) : Ctx → Bool → Expr → Expr → Prop
  | number {Γ k n v} : Expr.Elab r Γ k (.number n v) (.number (n.typed .integer) v)
  | floatNumber {Γ k n v} : Expr.Elab r Γ k (.floatNumber n v) (.floatNumber (n.typed .float) v)
  | char {Γ k n v} : Expr.Elab r Γ k (.char n v) (.char (n.typed .character) v)
  | string {Γ k n v} : Expr.Elab r Γ k (.string n v) (.string (n.typed .string) v)
  | bool {Γ k n v} : Expr.Elab r Γ k (.bool n v) (.bool (n.typed .boolean) v)
  | typeLiteral {Γ k n t} :
      Expr.Elab r Γ k (.typeLiteral n t) (.typeLiteral (n.typed (.literal t)) t)
  | ident {Γ k n x b₀ b} (find : Γ.find? x = some b) (own : Γ.captures b = false) :
      Expr.Elab r Γ k (.ident n x b₀) (.ident (n.typed b.ty) x (some b))
  | operator {Γ k n op es g es' s t ws} (operands : Expr.ElabAll r Γ es es')
      (rule : r.operator op (es'.map Expr.checkedTy) = .ok (s, t, ws)) :
      Expr.Elab r Γ k (.operator n op es g)
        (.operator (n.typed t) op (Widening.attach es' ws) (some s))
  | arrayLiteral {Γ k n es es' t ws} (elems : Expr.ElabAll r Γ es es')
      (rule : r.elements (es'.map Expr.checkedTy) = .ok (t, ws)) :
      Expr.Elab r Γ k (.arrayLiteral n es)
        (.arrayLiteral (n.typed (.array t)) (Widening.attach es' ws))
  | arrayAlloc {Γ k n t l l' t' chain} (length : Expr.Elab r Γ false l l')
      (rule : r.length l'.checkedTy = .ok (t', chain)) :
      Expr.Elab r Γ k (.arrayAlloc n t l)
        (.arrayAlloc (n.typed (.array t)) t (if chain.isEmpty then l' else l'.withWidening chain))
  | index {Γ k n a i a' i' t} (array : Expr.Elab r Γ false a a') (position : Expr.Elab r Γ false i i')
      (rule : Rules.index a'.checkedTy i'.checkedTy = .ok t) :
      Expr.Elab r Γ k (.index n a i) (.index (n.typed t) a' i')
  | call {Γ k n f es f' es' t ws} (callee : Expr.Elab r Γ false f f') (args : Expr.ElabAll r Γ es es')
      (rule : r.call f'.checkedTy (es'.map Expr.checkedTy) = .ok (t, ws))
      (value : t.isVoid = true → k = true) :
      Expr.Elab r Γ k (.call n f es) (.call (n.typed t) f' (Widening.attach es' ws))
  | lambda {Γ k n h b act b' Γ'} (params : h.hasGoodParams) (fresh : Γ.isFresh act)
      (body : Stmt.ElabAll r (some h.result) (Γ.inFunc h act).enter b b' Γ') :
      Expr.Elab r Γ k (.lambda n h b) (.lambda (n.typed h.ty) (h.completed act Γ'.peak) b')

inductive Expr.ElabAll (r : Rules) : Ctx → List Expr → List Expr → Prop
  | nil {Γ} : Expr.ElabAll r Γ [] []
  | cons {Γ e es e' es'} (head : Expr.Elab r Γ false e e') (tail : Expr.ElabAll r Γ es es') :
      Expr.ElabAll r Γ (e :: es) (e' :: es')

inductive PrintItem.ElabAll (r : Rules) : Ctx → List PrintItem → List PrintItem → Prop
  | nil {Γ} : PrintItem.ElabAll r Γ [] []
  | separator {Γ p k is is'} (tail : PrintItem.ElabAll r Γ is is') :
      PrintItem.ElabAll r Γ (.separator p k :: is) (.separator p k :: is')
  | value {Γ e is e' is'} (head : Expr.Elab r Γ false e e') (tail : PrintItem.ElabAll r Γ is is') :
      PrintItem.ElabAll r Γ (.value e :: is) (.value e' :: is')

/-- In a context a statement of a subroutine with a result type, or of the main block, checks to another
and leads to a context. -/
inductive Stmt.Elab (r : Rules) : Option Ty → Ctx → Stmt → Stmt → Ctx → Prop
  | varDecl {result Γ n x isConst e b₀ e'} (init : Expr.Elab r Γ false e e')
      (new : Γ.local? x = none) :
      Stmt.Elab r result Γ (.varDecl n x isConst e b₀)
        (.varDecl (n.typed e'.checkedTy) x isConst e' (some (Γ.binding x e'.checkedTy !isConst)))
        (Γ.declare x e'.checkedTy !isConst)
  | assign {result Γ n x v x' v' t} (value : Expr.Elab r Γ false v v')
      (target : Expr.Elab r Γ false x x')
      (mutable : ∀ m y b, x' = .ident m y (some b) → b.mutable = true)
      (rule : Rules.assign x'.checkedTy v'.checkedTy = .ok t) :
      Stmt.Elab r result Γ (.assign n x v) (.assign (n.typed t) x' v') Γ
  | print {result Γ n is is'} (items : PrintItem.ElabAll r Γ is is') :
      Stmt.Elab r result Γ (.print n is) (.print n is') Γ
  | call {result Γ n c c'} (call : Expr.Elab r Γ true c c') :
      Stmt.Elab r result Γ (.call n c) (.call n c') Γ
  | give {result Γ n v v' t} {owner : Option Place} (value : Expr.Elab r Γ false v v')
      (rule : Rules.give result v'.checkedTy = .ok t) :
      Stmt.Elab r (some result) Γ (.give n v) (.give { n.typed t with subroutine := owner } v') Γ
  | leave {Γ n} {owner : Option Place} :
      Stmt.Elab r (some .void) Γ (.leave n) (.leave { n.typed .void with subroutine := owner }) Γ
  | ifThen {result Γ n c b c' b' Γ'} (cond : Expr.Elab r Γ false c c') (truth : c'.checkedTy = .boolean)
      (body : Stmt.ElabAll r result Γ.enter b b' Γ') :
      Stmt.Elab r result Γ (.ifThen n c b) (.ifThen n c' b') (Γ.leave Γ')
  | ifElse {result Γ n c b a c' b' a' Γ' Γ''} (cond : Expr.Elab r Γ false c c')
      (truth : c'.checkedTy = .boolean) (body : Stmt.ElabAll r result Γ.enter b b' Γ')
      (alternative : Stmt.Elab r result (Γ.leave Γ') a a' Γ'') :
      Stmt.Elab r result Γ (.ifElse n c b a) (.ifElse n c' b' a') Γ''
  | while {result Γ n c b c' b' Γ'} (cond : Expr.Elab r Γ false c c') (truth : c'.checkedTy = .boolean)
      (body : Stmt.ElabAll r result Γ.enter b b' Γ') :
      Stmt.Elab r result Γ (.while n c b) (.while n c' b') (Γ.leave Γ')
  | block {result Γ n b b' Γ'} (body : Stmt.ElabAll r result Γ.enter b b' Γ') :
      Stmt.Elab r result Γ (.block n b) (.block n b') (Γ.leave Γ')

inductive Stmt.ElabAll (r : Rules) : Option Ty → Ctx → List Stmt → List Stmt → Ctx → Prop
  | nil {result Γ} : Stmt.ElabAll r result Γ [] [] Γ
  | cons {result Γ s ss s' ss' Γ' Γ''} (head : Stmt.Elab r result Γ s s' Γ')
      (tail : Stmt.ElabAll r result Γ' ss ss' Γ'') :
      Stmt.ElabAll r result Γ (s :: ss) (s' :: ss') Γ''

end

/-- The context at the start of a program. -/
def Ctx.global : Ctx where
  scopes := [[]]
  region := .globals
  used := 0
  peak := 0
  frame := 0

/-- Subroutines are declared one after the other in a context, which leads to another. -/
inductive Func.DeclaredAll : Ctx → List Func → List Func → Ctx → Prop
  | nil {Γ} : Func.DeclaredAll Γ [] [] Γ
  | cons {Γ f fs fs' Γ'} (new : Γ.local? f.head.name = none)
      (tail : Func.DeclaredAll (Γ.declare f.head.name f.head.ty false) fs fs' Γ') :
      Func.DeclaredAll Γ (f :: fs) ({ f with
        note := f.note.typed f.head.ty
        head := { f.head with binding := some (Γ.binding f.head.name f.head.ty false) } } :: fs') Γ'

/-- In a context a subroutine checks to another. -/
inductive Func.Elab (r : Rules) (Γ : Ctx) : Func → Func → Prop
  | intro {f act b' Γ'} (params : f.head.hasGoodParams) (fresh : Γ.isFresh act)
      (body : Stmt.ElabAll r (some f.head.result) (Γ.inFunc f.head act).enter f.body b' Γ') :
      Func.Elab r Γ f { f with head := f.head.completed act Γ'.peak, body := b' }

/-- A program checks to another. -/
inductive Program.Elab (r : Rules) : Program → Program → Prop
  | intro {p fs fs' Γ main' Γ'} (declared : Func.DeclaredAll Ctx.global p.funcs fs Γ)
      (bodies : List.Forall₂ (Func.Elab r Γ) fs fs')
      (main : Stmt.ElabAll r none Γ.enter p.main main' Γ') :
      Program.Elab r p { p with funcs := fs', main := main', globalSize := Γ'.peak }

lemma exists_of_forall₂ {α β : Type} {R : α → β → Prop} {as : List α} {bs : List β}
    (h : List.Forall₂ R as bs) {b : β} (hb : b ∈ bs) : ∃ a ∈ as, R a b := by
  induction h with
  | nil => cases hb
  | cons hr _ ih =>
    rcases List.mem_cons.mp hb with rfl | hb
    · exact ⟨_, List.mem_cons_self, hr⟩
    · obtain ⟨a, ha, hab⟩ := ih hb
      exact ⟨a, List.mem_cons_of_mem _ ha, hab⟩

/-! ## Names in sight -/

namespace Ctx

lemma mem_visible {Γ : Ctx} {b : Binding} : b ∈ Γ.visible ↔ ∃ s ∈ Γ.scopes, ∃ x, (x, b) ∈ s := by
  simp only [visible, List.mem_map, List.mem_flatten, Prod.exists, exists_eq_right]
  constructor
  · rintro ⟨x, s, hs, hx⟩
    exact ⟨s, hs, x, hx⟩
  · rintro ⟨s, hs, x, hx⟩
    exact ⟨x, s, hs, hx⟩

lemma mem_visible_of_find? {Γ : Ctx} {x : String} {b : Binding} (h : Γ.find? x = some b) :
    b ∈ Γ.visible := by
  obtain ⟨s, hs, hl⟩ := List.exists_of_findSome?_eq_some h
  obtain ⟨l₁, l₂, rfl, -⟩ := List.lookup_eq_some_iff.mp hl
  exact mem_visible.mpr ⟨_, hs, x, by simp⟩

@[simp] lemma visible_enter (Γ : Ctx) : Γ.enter.visible = Γ.visible := by
  simp [visible, enter]

@[simp] lemma visible_leave (Γ Γ' : Ctx) : (Γ.leave Γ').visible = Γ.visible := rfl

lemma visible_declare (Γ : Ctx) (x : String) (t : Ty) (m : Bool) :
    (Γ.declare x t m).visible = Γ.binding x t m :: Γ.visible := by
  cases hs : Γ.scopes <;> simp [visible, declare, hs]

lemma visible_inFunc (Γ : Ctx) (h : FuncHead) (k : Nat) :
    (Γ.inFunc h k).visible = (h.bindings k).reverse ++ Γ.visible := by
  simp [visible, inFunc, Function.comp_def]

/-- The names in sight with their bindings, the latest first. -/
def names (Γ : Ctx) : List (String × Binding) := Γ.scopes.flatten

lemma find?_eq_lookup (Γ : Ctx) (x : String) : Γ.find? x = Γ.names.lookup x := by
  obtain ⟨scopes⟩ := Γ
  simp only [find?, names]
  induction scopes with
  | nil => rfl
  | cons s ss ih =>
    rw [List.findSome?_cons, List.flatten_cons, List.lookup_append, ih]
    cases s.lookup x <;> rfl

@[simp] lemma names_enter (Γ : Ctx) : Γ.enter.names = Γ.names := rfl

@[simp] lemma names_leave (Γ Γ' : Ctx) : (Γ.leave Γ').names = Γ.names := rfl

lemma names_declare (Γ : Ctx) (x : String) (t : Ty) (m : Bool) :
    (Γ.declare x t m).names = (x, Γ.binding x t m) :: Γ.names := by
  cases hs : Γ.scopes <;> simp [names, declare, hs]

lemma names_inFunc (Γ : Ctx) (h : FuncHead) (k : Nat) :
    (Γ.inFunc h k).names = ((h.bindings k).map fun b => (b.name, b)).reverse ++ Γ.names := by
  simp [names, inFunc]

end Ctx

/-! ## Contexts behind statements -/

mutual

/-- The storage that was ever in use does not shrink, and names that are in sight stay so. -/
lemma Stmt.Elab.extends {r : Rules} : ∀ {result : Option Ty} {Γ Γ' : Ctx} {s s' : Stmt},
    Stmt.Elab r result Γ s s' Γ' → Γ.peak ≤ Γ'.peak ∧ Γ.names <:+ Γ'.names
  | _, _, _, _, _, .varDecl .. => by
    rw [Ctx.names_declare]
    exact ⟨le_max_left _ _, List.suffix_cons _ _⟩
  | _, _, _, _, _, .assign .. | _, _, _, _, _, .print _ | _, _, _, _, _, .call _
  | _, _, _, _, _, .give .. | _, _, _, _, _, .leave => ⟨le_rfl, List.suffix_rfl⟩
  | _, _, _, _, _, .ifThen _ _ body | _, _, _, _, _, .while _ _ body | _, _, _, _, _, .block body => by
    have hbody := Stmt.ElabAll.extends body
    exact ⟨hbody.1, List.suffix_rfl⟩
  | _, _, _, _, _, .ifElse _ _ body alternative => by
    have halternative := Stmt.Elab.extends alternative
    exact ⟨(Stmt.ElabAll.extends body).1.trans halternative.1, halternative.2⟩

lemma Stmt.ElabAll.extends {r : Rules} : ∀ {result : Option Ty} {Γ Γ' : Ctx} {ss ss' : List Stmt},
    Stmt.ElabAll r result Γ ss ss' Γ' → Γ.peak ≤ Γ'.peak ∧ Γ.names <:+ Γ'.names
  | _, _, _, _, _, .nil => ⟨le_rfl, List.suffix_rfl⟩
  | _, _, _, _, _, .cons head tail => by
    have htail := Stmt.ElabAll.extends tail
    exact ⟨(Stmt.Elab.extends head).1.trans htail.1, (Stmt.Elab.extends head).2.trans htail.2⟩

end

/-- What stands behind `else` declares nothing for what follows. -/
lemma Stmt.Elab.eq_leave {r : Rules} : ∀ {result : Option Ty} {Γ Γ' : Ctx} {s s' : Stmt},
    Stmt.Elab r result Γ s s' Γ' → s.isAlternative → s.isSource → ∃ Γ₁, Γ' = Γ.leave Γ₁
  | _, _, _, _, _, .ifThen .., _, _ | _, _, _, _, _, .block _, _, _ => ⟨_, rfl⟩
  | _, _, _, _, _, .ifElse _ _ _ alternative, _, hs => by
    simp only [Stmt.isSource, Bool.and_eq_true] at hs
    obtain ⟨Γ₁, rfl⟩ := Stmt.Elab.eq_leave alternative hs.2.1 hs.2.2
    exact ⟨Γ₁, rfl⟩
  | _, _, _, _, _, .varDecl .., h, _ | _, _, _, _, _, .assign .., h, _ | _, _, _, _, _, .print _, h, _
  | _, _, _, _, _, .call _, h, _ | _, _, _, _, _, .give .., h, _ | _, _, _, _, _, .leave, h, _
  | _, _, _, _, _, .while .., h, _ => by cases h

/-! ## Types of elaborated expressions -/

lemma FuncHead.length_placed (k : Nat) : ∀ (ps : List Param) (top : Int),
    (placed k top ps).length = ps.length
  | [], _ => rfl
  | _ :: ps, _ => congrArg (· + 1) (length_placed k ps _)

/-- Completing a head does not change its type. -/
@[simp] lemma FuncHead.ty_completed (h : FuncHead) (k n : Nat) : (h.completed k n).ty = h.ty := by
  have hmap : ∀ (ps : List Param) (bs : List Binding), bs.length = ps.length →
      (List.zipWith (fun p b => { p with ty := some p.declared, binding := some b }) ps bs).map
        (·.declared) = ps.map (·.declared) := by
    intro ps
    induction ps with
    | nil => simp
    | cons p ps ih =>
      intro bs hlen
      cases bs with
      | nil => simp at hlen
      | cons b bs => simp [ih bs (by simpa using hlen)]
  simp only [ty, completed, bindings]
  rw [hmap _ _ (length_placed k _ _)]

lemma FuncHead.ty_mem_of_mem_placed {k : Nat} {b : Binding} :
    ∀ {ps : List Param} {top : Int}, b ∈ placed k top ps → ∃ p ∈ ps, b.ty = p.declared := by
  intro ps
  induction ps with
  | nil => simp [placed]
  | cons p ps ih =>
    intro top h
    simp only [placed, List.mem_cons] at h
    rcases h with rfl | h
    · exact ⟨p, by simp, rfl⟩
    · obtain ⟨q, hq, hb⟩ := ih h
      exact ⟨q, by simp [hq], hb⟩

lemma FuncHead.declared_isValue {h : FuncHead} (hs : h.isSource) (hp : h.hasGoodParams) :
    ∀ p ∈ h.params, p.declared.isValue := by
  intro p hmem
  simp only [isSource, Bool.and_eq_true, List.all_eq_true] at hs
  have hres : p.declared.isVoid ∨ p.declared.isValue := by
    simpa [Ty.isResult] using hs.1 p hmem
  exact hres.resolve_left (by simp [hp.1 p hmem])

lemma FuncHead.ty_isValue {h : FuncHead} (hs : h.isSource) : h.ty.isValue := by
  simp only [isSource, Bool.and_eq_true, List.all_eq_true] at hs
  simpa [FuncHead.ty, Ty.isValue_func] using hs

lemma Ctx.allValues_inFunc {Γ : Ctx} {h : FuncHead} {k : Nat} (hΓ : Γ.allValues) (hs : h.isSource)
    (hp : h.hasGoodParams) : (Γ.inFunc h k).allValues := by
  intro b hb
  simp only [Ctx.visible_inFunc, List.mem_append, List.mem_reverse] at hb
  rcases hb with hb | hb
  · obtain ⟨p, hmem, hty⟩ := FuncHead.ty_mem_of_mem_placed hb
    rw [hty]
    exact FuncHead.declared_isValue hs hp p hmem
  · exact hΓ b hb

/-- A type that an operand can have: one of values, or the literal that names the target of a
conversion. -/
def Ty.isOperand : Ty → Bool
  | .literal t => t.isValue
  | t => t.isValue

lemma Ty.isOperand_of_isValue {t : Ty} (h : t.isValue) : t.isOperand := by
  cases t <;> first | exact h | simp [isValue] at h

lemma Ty.isGround_of_isOperand {t : Ty} (h : t.isOperand) : t.isGround := by
  cases t with
  | literal t => exact isGround_of_isValue t h
  | _ => exact isGround_of_isValue _ h

/-- The result of an operator on operands of the language is a value. -/
lemma Rules.operator_isValue {r : Rules} (hr : r.registry = Registry.standard) {op : TokenKind}
    {ts : List Ty} {s : Signature} {t : Ty} {ws : List Widened} (ht : ∀ t ∈ ts, t.isOperand)
    (h : r.operator op ts = .ok (s, t, ws)) : t.isValue := by
  obtain ⟨-, -, htakes, hws⟩ :=
    Rules.operator_spec hr (fun t hmem => Ty.isGround_of_isOperand (ht t hmem)) h
  generalize htypes : Widening.types ws = us at htakes
  cases htakes with
  | plain _ hres => exact hres
  | length => rfl
  | arrayCast e =>
    -- no conversion leads to an array, so the operand has the type of the result
    rcases hws with _ | ⟨_, _ | ⟨hw, _⟩⟩
    · simp [Widening.types] at htypes
    · simp [Widening.types] at htypes
    · simp only [Widening.types, List.map_cons, List.cons.injEq] at htypes
      obtain ⟨-, harr, -⟩ := htypes
      cases hw with
      | same u =>
        simp only at harr
        exact ht (.array e) (by simp [harr])
      | charToInt | charToFloat | intToFloat => simp at harr

lemma Ty.isResult_of_isValue {t : Ty} (h : t.isValue) : t.isResult := by
  simp [isResult, h]

/-- As many expressions are checked as there are. -/
lemma Expr.ElabAll.map_ne_nil {r : Rules} {Γ : Ctx} {es es' : List Expr} (h : Expr.ElabAll r Γ es es')
    (hne : es ≠ []) : es'.map Expr.checkedTy ≠ [] := by
  cases h with
  | nil => exact absurd rfl hne
  | cons => simp

mutual

/-- An expression of a source is a value if it is not a call in the place of a statement. -/
theorem Expr.Elab.isResult {r : Rules} (hr : r.registry = Registry.standard) {Γ : Ctx}
    (hΓ : Γ.allValues) : ∀ {k : Bool} {e e' : Expr}, Expr.Elab r Γ k e e' → e.isSource →
      e'.checkedTy.isResult ∧ (k = false → e'.checkedTy.isValue)
  | _, _, _, .number, _ | _, _, _, .floatNumber, _ | _, _, _, .char, _ | _, _, _, .string, _
  | _, _, _, .bool, _ => ⟨rfl, fun _ => rfl⟩
  | _, _, _, .typeLiteral, hs => by simp [Expr.isSource] at hs
  | _, _, _, .ident (b := b) find _, _ => by
    have hv : b.ty.isValue := hΓ b (Ctx.mem_visible_of_find? find)
    exact ⟨Ty.isResult_of_isValue hv, fun _ => hv⟩
  | _, _, _, .operator (t := t) operands rule, hs => by
    have hes := (Expr.ElabAll.isOperand hr hΓ operands hs).1
    have hv : t.isValue := Rules.operator_isValue hr (by simpa using hes) rule
    exact ⟨Ty.isResult_of_isValue hv, fun _ => hv⟩
  | _, _, _, @Expr.Elab.arrayLiteral _ _ _ _ _ es' t _ elems rule, hs => by
    simp only [Expr.isSource, Bool.and_eq_true, Bool.not_eq_true', List.isEmpty_eq_false_iff] at hs
    have hes := (Expr.ElabAll.isOperand hr hΓ elems hs.2).2 rfl
    have hv : t.isValue := (Rules.elements_spec (elems.map_ne_nil hs.1) (by simpa using hes) rule).1
    exact ⟨Ty.isResult_of_isValue (t := .array t) hv, fun _ => hv⟩
  | _, _, _, .arrayAlloc (t := t) _ _, hs => by
    simp only [Expr.isSource, Bool.and_eq_true] at hs
    exact ⟨Ty.isResult_of_isValue (t := .array t) hs.1, fun _ => hs.1⟩
  | _, _, _, .index (t := t) array _ rule, hs => by
    simp only [Expr.isSource, Bool.and_eq_true] at hs
    have ha := (Expr.Elab.isResult hr hΓ array hs.1).2 rfl
    rw [(Rules.index_spec rule).1] at ha
    exact ⟨Ty.isResult_of_isValue (t := t) ha, fun _ => ha⟩
  | k, _, _, .call (t := t) callee args rule value, hs => by
    simp only [Expr.isSource, Bool.and_eq_true] at hs
    have hf := (Expr.Elab.isResult hr hΓ callee hs.1).2 rfl
    have hes := (Expr.ElabAll.isOperand hr hΓ args hs.2).1
    obtain ⟨hfun, -⟩ := Rules.call_spec (Ty.isGround_of_isValue _ hf)
      (by simpa using fun e he => Ty.isGround_of_isOperand (hes e he)) rule
    rw [hfun, Ty.isValue_func] at hf
    refine ⟨hf.2, fun hk => ?_⟩
    have hres : t.isVoid ∨ t.isValue := by simpa [Ty.isResult] using hf.2
    exact hres.resolve_left fun hvoid => by simp [value hvoid] at hk
  | _, _, _, .lambda .., hs => by
    simp only [Expr.isSource, Bool.and_eq_true] at hs
    have hv := FuncHead.ty_isValue hs.1
    exact ⟨Ty.isResult_of_isValue hv, fun _ => hv⟩

theorem Expr.ElabAll.isOperand {r : Rules} (hr : r.registry = Registry.standard) {Γ : Ctx}
    (hΓ : Γ.allValues) : ∀ {conversion : Bool} {es es' : List Expr}, Expr.ElabAll r Γ es es' →
      Expr.areSource conversion es → (∀ e ∈ es', e.checkedTy.isOperand) ∧
        (conversion = false → ∀ e ∈ es', e.checkedTy.isValue)
  | _, _, _, .nil, _ => by simp
  | true, _, _, .cons (e := e) head tail, hs => by
    simp only [Expr.areSource, if_true, Bool.and_eq_true] at hs
    obtain ⟨hes, -⟩ := Expr.ElabAll.isOperand hr hΓ tail hs.2
    -- the target of a conversion
    have he : e.isConversionTarget := hs.1
    cases head with
    | typeLiteral => simpa using ⟨he, hes⟩
    | _ => simp [Expr.isConversionTarget] at he
  | false, _, _, @Expr.ElabAll.cons _ _ _ _ e' es' head tail, hs => by
    simp only [Expr.areSource, Bool.false_eq_true, if_false, Bool.and_eq_true] at hs
    have he := (Expr.Elab.isResult hr hΓ head hs.1).2 rfl
    obtain ⟨-, hes⟩ := Expr.ElabAll.isOperand hr hΓ tail hs.2
    have hall : ∀ e ∈ e' :: es', e.checkedTy.isValue := List.forall_mem_cons.mpr ⟨he, hes rfl⟩
    exact ⟨fun e hmem => Ty.isOperand_of_isValue (hall e hmem), fun _ => hall⟩

end

lemma Expr.ElabAll.isGround {r : Rules} (hr : r.registry = Registry.standard) {Γ : Ctx} {conversion : Bool}
    {es es' : List Expr} (hΓ : Γ.allValues) (h : Expr.ElabAll r Γ es es') (hs : Expr.areSource conversion es) :
    ∀ t ∈ es'.map Expr.checkedTy, t.isGround := by
  simpa using fun e he => Ty.isGround_of_isOperand ((h.isOperand hr hΓ hs).1 e he)

lemma Expr.Elab.isValue {r : Rules} (hr : r.registry = Registry.standard) {Γ : Ctx} {e e' : Expr}
    (hΓ : Γ.allValues) (h : Expr.Elab r Γ false e e') (hs : e.isSource) : e'.checkedTy.isValue :=
  (Expr.Elab.isResult hr hΓ h hs).2 rfl

lemma Ctx.allValues_declare {Γ : Ctx} (hΓ : Γ.allValues) {x : String} {t : Ty} {m : Bool}
    (ht : t.isValue) : (Γ.declare x t m).allValues := by
  intro b hb
  rw [Ctx.visible_declare] at hb
  rcases List.mem_cons.mp hb with rfl | hb
  · exact ht
  · exact hΓ b hb

lemma Ctx.allValues_enter {Γ : Ctx} (hΓ : Γ.allValues) : Γ.enter.allValues := by
  rwa [Ctx.allValues, Ctx.visible_enter]

lemma Ctx.allValues_global : Ctx.global.allValues := by
  simp [Ctx.allValues, Ctx.visible, Ctx.global]

/-- Declared subroutines are still those of a source. -/
lemma Func.DeclaredAll.isSource : ∀ {Γ Γ' : Ctx} {fs fs' : List Func},
    Func.DeclaredAll Γ fs fs' Γ' → (∀ f ∈ fs, f.head.isSource && Stmt.areSource f.body) →
      ∀ f ∈ fs', f.head.isSource && Stmt.areSource f.body
  | _, _, _, _, .nil, hs => hs
  | _, _, _, _, .cons _ tail, hs => by
    rw [List.forall_mem_cons] at hs
    exact List.forall_mem_cons.mpr ⟨hs.1, tail.isSource hs.2⟩

/-- Behind the declarations of subroutines of a source all names in sight have values. -/
lemma Func.DeclaredAll.allValues : ∀ {Γ Γ' : Ctx} {fs fs' : List Func},
    Func.DeclaredAll Γ fs fs' Γ' → (∀ f ∈ fs, f.head.isSource) → Γ.allValues → Γ'.allValues
  | _, _, _, _, .nil, _, hΓ => hΓ
  | _, _, _, _, .cons (f := f) _ tail, hs, hΓ =>
    tail.allValues (fun g hg => hs g (by simp [hg]))
      (Ctx.allValues_declare hΓ (FuncHead.ty_isValue (hs f (by simp))))

/-- Behind a statement of a source all names in sight have values, if they had before. -/
theorem Stmt.Elab.allValues {r : Rules} (hr : r.registry = Registry.standard) {result : Option Ty} :
    ∀ {Γ Γ' : Ctx} {s s' : Stmt}, Stmt.Elab r result Γ s s' Γ' → s.isSource → Γ.allValues →
      Γ'.allValues
  | _, _, _, _, .varDecl init _, hs, hΓ => Ctx.allValues_declare hΓ (init.isValue hr hΓ hs)
  | _, _, _, _, .assign .., _, hΓ | _, _, _, _, .print .., _, hΓ | _, _, _, _, .call .., _, hΓ
  | _, _, _, _, .give .., _, hΓ | _, _, _, _, .leave, _, hΓ | _, _, _, _, .ifThen .., _, hΓ
  | _, _, _, _, .while .., _, hΓ | _, _, _, _, .block .., _, hΓ => hΓ
  | _, _, _, _, .ifElse _ _ _ alternative, hs, hΓ => by
    simp only [Stmt.isSource, Bool.and_eq_true] at hs
    exact Stmt.Elab.allValues hr alternative hs.2.2 hΓ

end SubrLang
