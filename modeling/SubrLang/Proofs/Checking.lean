import SubrLang.Compilation
import SubrLang.Proofs.CheckerSteps
import SubrLang.Proofs.InsertedCasts
import SubrLang.Proofs.Readers

/-!
# Checking is elaboration

A program that is checked without an error elaborates to the checked tree (`Program.check_elab`), and with
its casts inserted it is accepted again, by rules that need not allow widening (`Program.check_again`).

* **One construct.** Its parts are checked first, by induction. What the rule for the construct gives is what
  elaboration asks for. Checked again, the parts are accepted, and the rule that widened the operands takes
  the types that it widened them to (`Rules.operator_again`, `Rules.elements_again`, `Rules.call_again`).
* **The whole tree.** The second check goes through the same scopes and the same storage as the first, so
  names get the same bindings. It gives the same tree with the notes of conversions cleared.
-/

namespace SubrLang

open CheckState Check

/-! ## Checking a tree -/

lemma Expr.not_anyFaulty {es : List Expr} (h : ∀ e ∈ es, e.checkedTy.isOperand) :
    Expr.anyFaulty es = false := by
  simp only [Expr.anyFaulty, List.any_eq_false, Bool.not_eq_true]
  intro e he
  have ho := h e he
  generalize e.checkedTy = t at ho
  cases t with
  | literal => rfl
  | _ => exact Ty.not_isError_of_isValue ho

/-- What is left of checking a declaration once its value is checked. -/
def Check.declaration (n : Note) (x : String) (isConst : Bool) (e : Expr) : Check Stmt := do
  match ← Check.declare x e.checkedTy !isConst with
  | .ok b => return .varDecl (n.typed e.checkedTy) x isConst e (some ((← get).table.binding b))
  | .error err => return .varDecl (n.typed (← Check.fail n.place err)) x isConst e none

/-- The warning about a hidden name changes nothing else. -/
lemma Stmt.run_varDecl (r : Rules) (n : Note) (x : String) (isConst : Bool) (e : Expr)
    (b : Option Binding) (result : Option Ty) (st : CheckState) :
    ∃ report : Report, report.errorCount = ((e.check r false).run st).2.report.errorCount ∧
      ((Stmt.varDecl n x isConst e b).check r result).run st =
        (Check.declaration n x isConst ((e.check r false).run st).1).run
          { ((e.check r false).run st).2 with report } := by
  obtain ⟨report, hcount, hrest⟩ := run_warnIf
    (((e.check r false).run st).2.table.lookupOuter ((e.check r false).run st).2.scope x).isSome .extra
    n.place s!"declaration of {Text.quote x} shadows an outer declaration"
    (Check.declaration n x isConst ((e.check r false).run st).1) ((e.check r false).run st).2
  refine ⟨report, hcount, ?_⟩
  simp only [Stmt.check, run_bind]
  exact hrest

/-- The type of an assignment, which a constant cannot have. -/
def Expr.assigned (x v : Expr) : Except TypeError Ty :=
  match x with
  | .ident _ y (some b) =>
    if b.mutable then Rules.assign x.checkedTy v.checkedTy else .error (.constAssigned y)
  | _ => Rules.assign x.checkedTy v.checkedTy

lemma Expr.assigned_ok {x v : Expr} {t : Ty} (h : x.assigned v = .ok t) :
    (∀ m y b, x = .ident m y (some b) → b.mutable = true) ∧
      Rules.assign x.checkedTy v.checkedTy = .ok t := by
  unfold Expr.assigned at h
  split at h
  · next m y b =>
    split at h
    · next hm =>
      refine ⟨?_, h⟩
      rintro m' y' b' heq
      cases heq
      exact hm
    · cases h
  · next hne =>
    exact ⟨fun m y b heq => absurd heq (hne m y b), h⟩

lemma CheckState.local?_ctx_eq_none {st : CheckState} {x : String}
    (hx : st.table.lookupLocal st.scope x = none) : st.ctx.local? x = none := by
  rw [ctx, SymbolTable.local?_ctx, hx]
  rfl

lemma Check.moving_declaration {st : CheckState} {Γ : Ctx} (hst : st.Ready Γ) (n : Note) (x : String)
    (isConst : Bool) (e : Expr) :
    Moving (Check.declaration n x isConst e) st fun s' st' =>
      Γ.local? x = none ∧ st.table.lookupLocal st.scope x = none ∧
      s' = .varDecl (n.typed e.checkedTy) x isConst e (some (Γ.binding x e.checkedTy !isConst)) ∧
      st' = { st with table := st.table.declared st.scope x e.checkedTy !isConst } ∧
      st'.ctx = Γ.declare x e.checkedTy !isConst := by
  rw [← hst.ctx_eq]
  simp only [Moving, Check.declaration, run_bind, run_declare]
  cases hx : st.table.lookupLocal st.scope x with
  | none =>
    refine (moves_declared hst.toOk x e.checkedTy !isConst).imp fun _ hctx =>
      ⟨local?_ctx_eq_none hx, rfl, ?_, rfl, hctx⟩
    change Stmt.varDecl _ x isConst e (some ((st.table.declared ..).binding st.table.bindings.size)) = _
    rw [SymbolTable.binding_declared_self]
    rfl
  | some b => exact (passes_fail hst.toOk _ _ _).moves hst.toOk

/-- A return statement is noted to belong to the subroutine that is being checked. -/
lemma Check.passing_returned {α : Type} {st : CheckState} (hst : st.Ok) {n : Note} {t : Ty} {g : Note → α}
    {P : α → CheckState → Prop}
    (h : st.isClean → P (g { n.typed t with subroutine := st.subroutine }) st) :
    Passing (returned n t >>= fun m => pure (g m)) st P :=
  passing_pure hst h

/-! ## The rules of the checker

What is accepted when the parts of a construct are, and a rule takes them as they are. -/

section Rules

variable {r : Rules} {st st₁ st₂ : CheckState} {k : Bool} {n : Note}

lemma Expr.accepts_ident {x : String} {b₀ : Option Binding} {b : Nat}
    (hl : st.table.lookup st.scope x = some b) (hcap : st.table.isCapture st.scope b = false) :
    Accepts ((Expr.ident n x b₀).check r k) st
      (.ident (n.typed (st.table.binding b).ty) x (some (st.table.binding b))) st := by
  intro report
  refine ⟨report, rfl, ?_⟩
  simp only [Expr.check, Check.resolve, run_bind, run_get, hl, hcap]
  rfl

lemma Expr.accepts_operator {op : TokenKind} {es es' : List Expr} {g : Option Signature}
    {s : Signature} {t : Ty} (hes : Accepts (Expr.checkAll r es) st es' st₁)
    (hok : Expr.anyFaulty es' = false)
    (rule : r.operator op (es'.map Expr.checkedTy) =
      .ok (s, t, Rules.unchanged (es'.map Expr.checkedTy))) :
    Accepts ((Expr.operator n op es g).check r k) st (.operator (n.typed t) op es' (some s)) st₁ := by
  rw [Expr.check]
  refine hes.bind ?_
  simp only [hok, Bool.false_eq_true, if_false, rule]
  exact (accepts_widen _ _ _).then_pure _

lemma Expr.accepts_arrayLiteral {es es' : List Expr} {t : Ty}
    (hes : Accepts (Expr.checkAll r es) st es' st₁) (hok : Expr.anyFaulty es' = false)
    (rule : r.elements (es'.map Expr.checkedTy) =
      .ok (t, Rules.unchanged (es'.map Expr.checkedTy))) :
    Accepts ((Expr.arrayLiteral n es).check r k) st (.arrayLiteral (n.typed (.array t)) es') st₁ := by
  rw [Expr.check]
  refine hes.bind ?_
  simp only [hok, Bool.false_eq_true, if_false, rule]
  exact (accepts_widen _ _ _).then_pure _

lemma Expr.accepts_arrayAlloc {t : Ty} {l l' : Expr} (hl : Accepts (l.check r false) st l' st₁)
    (hty : l'.checkedTy = .integer) :
    Accepts ((Expr.arrayAlloc n t l).check r k) st (.arrayAlloc (n.typed (.array t)) t l') st₁ := by
  rw [Expr.check]
  refine hl.bind ?_
  simp only [hty, Ty.isError, Bool.false_eq_true, if_false]
  exact (accepts_widen [l'] [.integer] _).then_pure _

lemma Expr.accepts_index {a i a' i' : Expr} {t : Ty} (ha : Accepts (a.check r false) st a' st₁)
    (hi : Accepts (i.check r false) st₁ i' st₂) (hok : Expr.anyFaulty [a', i'] = false)
    (rule : Rules.index a'.checkedTy i'.checkedTy = .ok t) :
    Accepts ((Expr.index n a i).check r k) st (.index (n.typed t) a' i') st₂ := by
  rw [Expr.check]
  refine ha.bind (hi.bind ?_)
  simp only [hok, Bool.false_eq_true, if_false, rule]
  exact accepts_pure

lemma Expr.accepts_call {f f' : Expr} {es es' : List Expr} {t : Ty}
    (hf : Accepts (f.check r false) st f' st₁) (hes : Accepts (Expr.checkAll r es) st₁ es' st₂)
    (hok : Expr.anyFaulty (f' :: es') = false)
    (rule : r.call f'.checkedTy (es'.map Expr.checkedTy) =
      .ok (t, Rules.unchanged (es'.map Expr.checkedTy)))
    (hvoid : (t.isVoid && !k) = false) :
    Accepts ((Expr.call n f es).check r k) st (.call (n.typed t) f' es') st₂ := by
  rw [Expr.check]
  refine hf.bind (hes.bind ?_)
  simp only [hok, Bool.false_eq_true, if_false, rule]
  refine (accepts_widen _ _ _).bind ?_
  simp only [hvoid, Bool.false_eq_true, if_false]
  exact accepts_pure

lemma Expr.accepts_checkAll_cons {e e' : Expr} {es es' : List Expr}
    (he : Accepts (e.check r false) st e' st₁) (hes : Accepts (Expr.checkAll r es) st₁ es' st₂) :
    Accepts (Expr.checkAll r (e :: es)) st (e' :: es') st₂ := by
  rw [Expr.checkAll]
  exact he.bind (hes.then_pure _)

/-- A conversion between types without parts is accepted if its operand is. -/
lemma Expr.accepts_cast {e e' : Expr} {source p : Prim} {s : Signature} {place : Place}
    {g : Option Signature} (he : Accepts (e.check r false) st e' st₁)
    (hty : e'.checkedTy = .prim source) (hsource : source ≠ .error)
    (hres : r.registry.resolve .cast [.literal (.prim p), .prim source] = some (s, .prim p)) :
    Accepts ((Expr.operator n .cast [.ofType place (.prim p), e] g).check r k) st
      (.operator (n.typed (.prim p)) .cast [.ofType place (.prim p), e'] (some s)) st₁ := by
  have hops : Accepts (Expr.checkAll r [.ofType place (.prim p), e]) st
      [.ofType place (.prim p), e'] st₁ :=
    accepts_checkAll_cons accepts_pure (accepts_checkAll_cons he accepts_pure)
  refine accepts_operator hops ?_ ?_
  · have herror : (Ty.prim source).isError = false := by cases source <;> first | rfl | contradiction
    simp only [Expr.anyFaulty, List.any_cons, List.any_nil, hty, herror]
    rfl
  · simp only [List.map_cons, List.map_nil, hty]
    unfold Rules.operator
    have htypes : Expr.checkedTy (.ofType place (.prim p)) = .literal (.prim p) := rfl
    rw [htypes, hres]

lemma Expr.accepts_asCond {e : Expr} (hty : e.checkedTy = .boolean) : Accepts e.asCond st e st := by
  rw [Expr.asCond, hty]
  exact accepts_pure

variable {result : Option Ty}

lemma Stmt.accepts_varDecl {x : String} {isConst : Bool} {e e' : Expr} {b₀ : Option Binding}
    (he : Accepts (e.check r false) st e' st₁)
    (hx : st₁.table.lookupLocal st₁.scope x = none) :
    Accepts ((Stmt.varDecl n x isConst e b₀).check r result) st
      (.varDecl (n.typed e'.checkedTy) x isConst e'
        (some ((st₁.table.declared st₁.scope x e'.checkedTy !isConst).binding st₁.table.bindings.size)))
      { st₁ with table := st₁.table.declared st₁.scope x e'.checkedTy !isConst } := by
  have hdecl : Accepts (Check.declaration n x isConst e') st₁
      (.varDecl (n.typed e'.checkedTy) x isConst e'
        (some ((st₁.table.declared st₁.scope x e'.checkedTy !isConst).binding st₁.table.bindings.size)))
      { st₁ with table := st₁.table.declared st₁.scope x e'.checkedTy !isConst } := by
    intro report
    refine ⟨report, rfl, ?_⟩
    simp only [Check.declaration, run_bind, run_declare, hx]
    rfl
  rw [Stmt.check]
  exact he.bind (accepts_get fun report => accepts_warnIf _ _ _ _ hdecl)

lemma Stmt.accepts_assign {x x' v v' : Expr} {t : Ty} (hv : Accepts (v.check r false) st v' st₁)
    (hx : Accepts (x.check r false) st₁ x' st₂) (hok : Expr.anyFaulty [v', x'] = false)
    (rule : x'.assigned v' = .ok t) :
    Accepts ((Stmt.assign n x v).check r result) st (.assign (n.typed t) x' v') st₂ := by
  rw [Stmt.check]
  refine hv.bind (hx.bind ?_)
  simp only [hok, Bool.false_eq_true, if_false]
  change Accepts (judge n.place (x'.assigned v') >>= _) _ _ _
  rw [rule]
  exact accepts_pure

lemma Stmt.accepts_checkAll_cons {s s' : Stmt} {ss ss' : List Stmt} {returned : Bool}
    (hs : Accepts (s.check r result) st s' st₁)
    (hss : Accepts (Stmt.checkAll r result s.isReturn ss) st₁ ss' st₂) :
    Accepts (Stmt.checkAll r result returned (s :: ss)) st (s' :: ss') st₂ := by
  rw [Stmt.checkAll]
  exact accepts_warnIf returned _ _ _ (hs.bind (hss.then_pure _))

end Rules

/-! ## Checking a tree again -/

open Registry (standard)

/-- A checked expression with its casts inserted is accepted as it is. -/
def Expr.Again (r : Rules) (k : Bool) (st : CheckState) (e : Expr) (st' : CheckState) : Prop :=
  Accepts ((e.applyWidening standard).check r k) st (e.applyWidening standard).settled st'

/-- Checked expressions with their casts inserted are accepted as they are. -/
def Expr.AgainAll (r : Rules) (st : CheckState) (es : List Expr) (st' : CheckState) : Prop :=
  Accepts (Expr.checkAll r (Expr.applyWidenings standard es)) st
    (Expr.settledAll (Expr.applyWidenings standard es)) st'

def PrintItem.AgainAll (r : Rules) (st : CheckState) (is : List PrintItem) (st' : CheckState) : Prop :=
  Accepts (PrintItem.checkAll r (PrintItem.applyWidenings standard is)) st
    (PrintItem.settledAll (PrintItem.applyWidenings standard is)) st'

/-- A checked statement with its casts inserted is accepted as it is. -/
def Stmt.Again (r : Rules) (result : Option Ty) (st : CheckState) (s : Stmt) (st' : CheckState) : Prop :=
  Accepts ((s.applyWidening standard).check r result) st (s.applyWidening standard).settled st'

/-- Checked statements with their casts inserted are accepted as they are. -/
def Stmt.AgainAll (r : Rules) (result : Option Ty) (st : CheckState) (ss : List Stmt)
    (st' : CheckState) : Prop :=
  ∀ returned, Accepts (Stmt.checkAll r result returned (Stmt.applyWidenings standard ss)) st
    (Stmt.settledAll (Stmt.applyWidenings standard ss)) st'

/-- What checking an expression comes to: it elaborates, and is accepted again. -/
structure Expr.Checks (r r' : Rules) (Γ : Ctx) (k : Bool) (st : CheckState) (e e' : Expr)
    (st' : CheckState) : Prop where
  rules : Expr.Elab r Γ k e e'
  again : e'.Again r' k st st'

/-- What checking expressions comes to: they elaborate, and are accepted again with any conversions. -/
structure Expr.ChecksAll (r r' : Rules) (Γ : Ctx) (st : CheckState) (es es' : List Expr)
    (st' : CheckState) : Prop where
  rules : Expr.ElabAll r Γ es es'
  again : ∀ {ws : List Widened}, List.Forall₂ Widens (es'.map Expr.checkedTy) ws →
    Expr.AgainAll r' st (Widening.attach es' ws) st'

structure PrintItem.ChecksAll (r r' : Rules) (Γ : Ctx) (st : CheckState) (is is' : List PrintItem)
    (st' : CheckState) : Prop where
  rules : PrintItem.ElabAll r Γ is is'
  again : PrintItem.AgainAll r' st is' st'

/-- What checking a statement comes to: it elaborates, and is accepted again. -/
structure Stmt.Checks (r r' : Rules) (result : Option Ty) (Γ : Ctx) (st : CheckState) (s s' : Stmt)
    (st' : CheckState) : Prop where
  rules : Stmt.Elab r result Γ s s' st'.ctx
  again : s'.Again r' result st st'

structure Stmt.ChecksAll (r r' : Rules) (result : Option Ty) (Γ : Ctx) (st : CheckState)
    (ss ss' : List Stmt) (st' : CheckState) : Prop where
  rules : Stmt.ElabAll r result Γ ss ss' st'.ctx
  again : Stmt.AgainAll r' result st ss' st'

section

variable {r r' : Rules} {st st₁ : CheckState}

lemma Expr.Elab.checkedTy_again {Γ : Ctx} {k : Bool} {e e' : Expr} (h : Expr.Elab r Γ k e e') :
    (e'.applyWidening standard).settled.checkedTy = e'.checkedTy := by
  rw [Expr.checkedTy_settled, Expr.checkedTy, Expr.ty?_applyWidening h.ty?_eq.2, Expr.checkedTy]

/-- An operand with its conversions inserted is accepted if the operand is. -/
lemma Widens.again_attached (hr' : r'.registry = standard) {e : Expr} {t : Ty} {w : Widened}
    (h : Widens t w) (he : e.ty? = some t ∧ e.note.widening = []) (hagain : e.Again r' false st st₁) :
    (Widening.attached e w).Again r' false st st₁ := by
  refine h.attached_induction (motive := fun x => Accepts (x.check r' false) st x.settled st₁)
    he hagain ?_ ?_
  · intro x source p s hty hsource hres hx
    rw [Widening.cast_eq hty hres]
    have hty' : x.settled.checkedTy = .prim source := by
      rw [Expr.checkedTy_settled, Expr.checkedTy, hty]
      rfl
    exact Expr.accepts_cast hx hty' hsource (hr' ▸ hres)
  · intro x chain hx
    have hcheck : (x.withWidening chain).check r' false = x.check r' false := by
      cases x <;> simp only [Expr.withWidening, Expr.withNote, Expr.note, Expr.check, Note.typed]
    rw [Expr.settled_withWidening, hcheck]
    exact hx

lemma Widens.isOperand {t : Ty} {w : Widened} (h : Widens t w) (ht : t.isOperand) : w.1.isOperand := by
  cases h with
  | same => exact ht
  | charToInt | charToFloat | intToFloat => rfl

/-- Operands with their conversions inserted have types of operands. -/
lemma Expr.ElabAll.isOperand_attach {Γ : Ctx} {es es' : List Expr} {ws : List Widened}
    (h : Expr.ElabAll r Γ es es') (hops : ∀ e ∈ es', e.checkedTy.isOperand)
    (hws : List.Forall₂ Widens (es'.map Expr.checkedTy) ws) :
    ∀ e ∈ Expr.settledAll (Expr.applyWidenings standard (Widening.attach es' ws)),
      e.checkedTy.isOperand := by
  have htypes : ∀ t ∈ Widening.types ws, t.isOperand := by
    intro t ht
    obtain ⟨w, hw, rfl⟩ := List.mem_map.mp ht
    obtain ⟨u, hu, huw⟩ := exists_of_forall₂ hws hw
    obtain ⟨e, he, rfl⟩ := List.mem_map.mp hu
    exact huw.isOperand (hops e he)
  rw [← h.checkedTy_attach hws] at htypes
  simpa using htypes

/-- Inserting casts changes neither what is assigned to nor the types on both sides. -/
lemma Expr.assigned_again {Γ : Ctx} {k k' : Bool} {x x' v v' : Expr} (hx : Expr.Elab r Γ k x x')
    (hv : Expr.Elab r Γ k' v v') :
    (x'.applyWidening standard).settled.assigned (v'.applyWidening standard).settled =
      x'.assigned v' := by
  have hxt := hx.checkedTy_again
  have hvt := hv.checkedTy_again
  generalize (v'.applyWidening standard).settled = v'' at hvt
  cases hx with
  | ident find own =>
    show (if _ then Rules.assign _ v''.checkedTy else _) = (if _ then Rules.assign _ v'.checkedTy else _)
    rw [hvt]
    rfl
  | _ =>
    show Rules.assign _ v''.checkedTy = Rules.assign _ v'.checkedTy
    rw [hvt]
    rfl

/-- Two operands that elaborate are not faulty, the first time and again. -/
lemma Expr.Elab.not_anyFaulty_pair (hr : r.registry = standard) {Γ : Ctx} (hΓ : Γ.allValues)
    {a a' b b' : Expr} (ha : Expr.Elab r Γ false a a') (hb : Expr.Elab r Γ false b b') (hsa : a.isSource)
    (hsb : b.isSource) : Expr.anyFaulty [a', b'] = false ∧ Expr.anyFaulty
      [(a'.applyWidening standard).settled, (b'.applyWidening standard).settled] = false := by
  have hva := Ty.isOperand_of_isValue (ha.isValue hr hΓ hsa)
  have hvb := Ty.isOperand_of_isValue (hb.isValue hr hΓ hsb)
  exact ⟨Expr.not_anyFaulty (by simpa using ⟨hva, hvb⟩),
    Expr.not_anyFaulty (by simpa [ha.checkedTy_again, hb.checkedTy_again] using ⟨hva, hvb⟩)⟩

/-- A condition is a truth value, and accepted as one again. -/
lemma Expr.passing_cond (hr : r.registry = standard) {c : Expr} {Γ : Ctx} (hst : st.Ready Γ)
    (hs : c.isSource) (ih : Passing (c.check r false) st (c.Checks r r' Γ false st)) :
    Passing (c.check r false >>= Expr.asCond) st fun c' st' => Expr.Elab r Γ false c c' ∧
      c'.checkedTy = .boolean ∧
      Accepts ((c'.applyWidening standard).check r' false >>= Expr.asCond) st
        (c'.applyWidening standard).settled st' := by
  refine ih.bind fun c' st₁ h => ?_
  unfold Expr.asCond
  split
  · next hor =>
    refine passing_pure h.ok fun hc => ?_
    obtain ⟨hc₀, hrules, hagain⟩ := h.clean hc
    rw [Ty.not_isError_of_isValue (hrules.isValue hr (hst.values hc₀) hs), Bool.false_or] at hor
    have hty := Ty.eq_of_isPrim hor
    exact ⟨hrules, hty, hagain.bind (Expr.accepts_asCond (hrules.checkedTy_again.trans hty))⟩
  · exact passing_fail h.ok

/-- Statements that are checked wherever they stand are checked in a block. -/
lemma Stmt.moving_block {result : Option Ty} {ss : List Stmt} {Γ : Ctx} (hst : st.Ready Γ)
    (ih : ∀ {Γ : Ctx} {st₁ : CheckState}, st₁.Ready Γ →
      Moving (Stmt.checkAll r result false ss) st₁ (Stmt.ChecksAll r r' result Γ st₁ ss)) :
    Moving (inBlock (Stmt.checkAll r result false ss)) st fun ss' st' =>
      (∃ Γ', Stmt.ElabAll r result Γ.enter ss ss' Γ' ∧ st'.ctx = Γ.leave Γ') ∧
      Accepts (inBlock (Stmt.checkAll r' result false (Stmt.applyWidenings standard ss'))) st
        (Stmt.settledAll (Stmt.applyWidenings standard ss')) st' := by
  have hctx : (atBlock st).ctx = Γ.enter := by rw [ctx_atBlock hst.toOk, hst.ctx_eq]
  refine Moves.imp (moving_inBlock hst.toOk
    (ih ⟨ok_atBlock hst.toOk, hctx, fun hc => Ctx.allValues_enter (hst.values hc)⟩)) ?_
  rintro - ⟨st₂, ⟨hrules, hagain⟩, hleave, hafter⟩
  rw [hst.ctx_eq] at hleave
  exact ⟨⟨st₂.ctx, hrules, hleave⟩, hafter ▸ accepts_inBlock (hagain false)⟩

/-- Statements that are checked wherever they stand are checked as the body of a subroutine. -/
lemma Stmt.passing_func {h : FuncHead} (p : Place) {ss : List Stmt} {Γ : Ctx} (hst : st.Ready Γ)
    (hs : h.isSource) (ih : ∀ {Γ : Ctx} {st₁ : CheckState}, st₁.Ready Γ →
      Moving (Stmt.checkAll r (some h.result) false ss) st₁ (Stmt.ChecksAll r r' (some h.result) Γ st₁ ss)) :
    Passing (inFunc h (inBody p (inBlock (Stmt.checkAll r (some h.result) false ss)))) st
      fun made st' => h.hasGoodParams ∧ Γ.isFresh st.table.frames ∧
        (∃ Γ', Stmt.ElabAll r (some h.result) (Γ.inFunc h st.table.frames).enter ss made.2 Γ' ∧
          made.1 = h.completed st.table.frames Γ'.peak) ∧
        Accepts (inFunc made.1 (inBody p (inBlock (Stmt.checkAll r' (some made.1.result) false
          (Stmt.applyWidenings standard made.2))))) st
          (made.1, Stmt.settledAll (Stmt.applyWidenings standard made.2)) st' := by
  rw [← hst.ctx_eq]
  refine Passes.imp (passing_inFunc h _ hst.toOk fun st₁ hst₁ hclean => moving_inBody
    (Stmt.moving_block (Γ := st₁.ctx) ⟨⟨hst₁.good, hst₁.scope_lt⟩, rfl, fun hc => ?_⟩ ih)) ?_
  · obtain ⟨hc₀, hgood, hctx⟩ := hclean hc
    rw [hctx]
    exact Ctx.allValues_inFunc (hst.ctx_eq ▸ hst.values hc₀) hs hgood
  · rintro - ⟨hgood, hfresh, st₁, st₂, hctx, ⟨st₃, ⟨⟨Γ', hrules, hleave⟩, hagain⟩, rfl⟩, hhead, haccepts⟩
    have hpeak : st₃.ctx.peak = Γ'.peak := by rw [show st₃.ctx = _ from hleave, Ctx.leave]
    replace hhead := hhead.trans (congrArg (h.completed st.table.frames) hpeak)
    rw [hctx] at hrules
    refine ⟨hgood, hfresh, ⟨Γ', hrules, hhead⟩, haccepts _ _ (accepts_inBody ?_)⟩
    rw [hhead]
    exact hagain

end

section

variable {r r' : Rules}

mutual

/-- Checking an expression of a source elaborates it, if there is no error, and it is accepted again. -/
theorem Expr.check_passing (hr : r.registry = standard) (hr' : r'.registry = standard) :
    ∀ (e : Expr) (k : Bool) {Γ : Ctx} {st : CheckState}, st.Ready Γ → e.isSource →
    Passing (e.check r k) st (e.Checks r r' Γ k st)
  | .number .., _, _, _, hst, _ => passing_pure hst.toOk fun _ => ⟨.number, accepts_pure⟩
  | .floatNumber .., _, _, _, hst, _ => passing_pure hst.toOk fun _ => ⟨.floatNumber, accepts_pure⟩
  | .char .., _, _, _, hst, _ => passing_pure hst.toOk fun _ => ⟨.char, accepts_pure⟩
  | .string .., _, _, _, hst, _ => passing_pure hst.toOk fun _ => ⟨.string, accepts_pure⟩
  | .bool .., _, _, _, hst, _ => passing_pure hst.toOk fun _ => ⟨.bool, accepts_pure⟩
  | .typeLiteral .., _, _, _, hst, _ => passing_pure hst.toOk fun _ => ⟨.typeLiteral, accepts_pure⟩
  | .ident n x b₀, k, Γ, st, hst, _ => by
    simp only [Passing, Expr.check, Check.resolve, run_bind, run_get]
    cases hl : st.table.lookup st.scope x with
    | none => exact passes_fail hst.toOk _ _ _
    | some b =>
      cases hcap : st.table.isCapture st.scope b with
      | true =>
        simp only [hcap, if_true, run_pure]
        exact passes_fail hst.toOk _ _ _
      | false =>
        simp only [hcap]
        have hfind : st.ctx.find? x = some (st.table.binding b) := by
          rw [ctx, SymbolTable.find?_ctx, hl]
          rfl
        rw [← hst.ctx_eq]
        exact .refl hst.toOk ⟨.ident hfind hcap, Expr.accepts_ident hl hcap⟩
  | .operator n op es g, k, Γ, st, hst, hs => by
    rw [Expr.check]
    refine (Expr.checkAll_passing hr hr' es (op == .cast) hst hs).bind fun es' st₁ h => ?_
    have hops := fun hc => ((h.clean hc).2.rules.isOperand hr (hst.values (h.clean hc).1) hs).1
    refine passing_unless h.ok (fun hc => by simp [Expr.not_anyFaulty (hops hc)]) ?_
    split
    · next s t ws hrule =>
      refine (passing_widen h.ok es' ws).then_pure ?_
      rintro _ _ hc ⟨rfl, report, rfl⟩
      have hes := (h.clean hc).2
      have hws := (Rules.operator_resolves hrule).2
      refine ⟨.operator hes.rules hrule, Expr.accepts_operator (hes.again hws)
        (Expr.not_anyFaulty (hes.rules.isOperand_attach (hops hc) hws)) ?_⟩
      rw [hes.rules.checkedTy_attach hws]
      exact Rules.operator_again (hr'.trans hr.symm) hrule
    · exact passing_fail h.ok
  | .arrayLiteral n es, k, Γ, st, hst, hs => by
    simp only [Expr.isSource, Bool.and_eq_true, Bool.not_eq_true', List.isEmpty_eq_false_iff] at hs
    rw [Expr.check]
    refine (Expr.checkAll_passing hr hr' es false hst hs.2).bind fun es' st₁ h => ?_
    have hops := fun hc => (h.clean hc).2.rules.isOperand hr (hst.values (h.clean hc).1) hs.2
    refine passing_unless h.ok (fun hc => by simp [Expr.not_anyFaulty (hops hc).1]) ?_
    split
    · next t ws hrule =>
      refine (passing_widen h.ok es' ws).then_pure ?_
      rintro _ _ hc ⟨rfl, report, rfl⟩
      have hes := (h.clean hc).2
      have hne := hes.rules.map_ne_nil hs.1
      have htypes : ∀ t ∈ es'.map Expr.checkedTy, t.isValue := by simpa using (hops hc).2 rfl
      have hws := (Rules.elements_spec hne htypes hrule).2.2
      refine ⟨.arrayLiteral hes.rules hrule, Expr.accepts_arrayLiteral (hes.again hws)
        (Expr.not_anyFaulty (hes.rules.isOperand_attach (hops hc).1 hws)) ?_⟩
      rw [hes.rules.checkedTy_attach hws]
      exact Rules.elements_again hne htypes hrule
    · exact passing_fail h.ok
  | .arrayAlloc n t l, k, Γ, st, hst, hs => by
    simp only [Expr.isSource, Bool.and_eq_true] at hs
    rw [Expr.check]
    refine (Expr.check_passing hr hr' l false hst hs.2).bind fun l' st₁ h => ?_
    have hval := fun hc => (h.clean hc).2.rules.isValue hr (hst.values (h.clean hc).1) hs.2
    refine passing_unless h.ok (fun hc => by simp [Ty.not_isError_of_isValue (hval hc)]) ?_
    split
    · next w hrule =>
      refine (passing_widen h.ok [l'] [w]).then_pure ?_
      rintro _ _ hc ⟨rfl, report, rfl⟩
      obtain ⟨hrules, hagain⟩ := (h.clean hc).2
      obtain ⟨hint, hw⟩ := Rules.length_spec hrule
      refine ⟨.arrayAlloc hrules hrule, Expr.accepts_arrayAlloc
        (hw.again_attached hr' hrules.ty?_eq hagain) ?_⟩
      have hty : ((Widening.attached l' w).applyWidening standard).ty? = some w.1 :=
        (hw.lowerValue_eq hrules.ty?_eq.2 hrules.ty?_eq.1).2
      rw [Expr.checkedTy_settled]
      exact (congrArg (Option.getD · Ty.error) hty).trans hint
    · exact passing_fail h.ok
  | .index n a i, k, Γ, st, hst, hs => by
    simp only [Expr.isSource, Bool.and_eq_true] at hs
    rw [Expr.check]
    refine (Expr.check_passing hr hr' a false hst hs.1).bind fun a' st₁ ha => ?_
    refine (Expr.check_passing hr hr' i false (ha.ready hst) hs.2).bind fun i' st₂ hi => ?_
    have h := ha.trans hi
    have hsound := fun hc => (h.clean hc).2.1.rules.not_anyFaulty_pair hr (hst.values (h.clean hc).1)
      (h.clean hc).2.2.rules hs.1 hs.2
    refine passing_unless h.ok (fun hc => by simp [(hsound hc).1])
      ((passing_judge h.ok _ _).then_pure ?_)
    rintro t _ hc ⟨hrule, rfl⟩
    obtain ⟨-, ⟨ha', hagain⟩, hi', hagain'⟩ := h.clean hc
    refine ⟨.index ha' hi' hrule, Expr.accepts_index hagain hagain' (hsound hc).2 ?_⟩
    rw [ha'.checkedTy_again, hi'.checkedTy_again, hrule]
  | .call n f es, k, Γ, st, hst, hs => by
    simp only [Expr.isSource, Bool.and_eq_true] at hs
    rw [Expr.check]
    refine (Expr.check_passing hr hr' f false hst hs.1).bind fun f' st₁ hf => ?_
    refine (Expr.checkAll_passing hr hr' es false (hf.ready hst) hs.2).bind fun es' st₂ hes => ?_
    have h := hf.trans hes
    have hval := fun hc => (h.clean hc).2.1.rules.isValue hr (hst.values (h.clean hc).1) hs.1
    have hops := fun hc => ((h.clean hc).2.2.rules.isOperand hr (hst.values (h.clean hc).1) hs.2).1
    refine passing_unless h.ok (fun hc => ?_) ?_
    · have hall : ∀ e ∈ f' :: es', e.checkedTy.isOperand :=
        List.forall_mem_cons.mpr ⟨Ty.isOperand_of_isValue (hval hc), hops hc⟩
      simp [Expr.not_anyFaulty hall]
    · split
      · next t ws hrule =>
        refine (passing_widen h.ok es' ws).bind fun es'' st₃ hw => ?_
        split
        · exact passing_fail hw.ok
        · next hvoid =>
          refine passing_pure hw.ok fun hc => ?_
          obtain ⟨hc₂, rfl, report, rfl⟩ := hw.clean hc
          obtain ⟨-, ⟨hf', hagain⟩, hes', hagains⟩ := h.clean hc₂
          have hground : ∀ t ∈ es'.map Expr.checkedTy, t.isGround := by
            simpa using fun e he => Ty.isGround_of_isOperand (hops hc₂ e he)
          have hws := (Rules.call_spec (Ty.isGround_of_isValue _ (hval hc₂)) hground hrule).2
          refine ⟨.call hf' hes' hrule fun hv => by simpa [hv] using hvoid,
            Expr.accepts_call hagain (hagains hws) (Expr.not_anyFaulty ?_) ?_ (by simpa using hvoid)⟩
          · refine List.forall_mem_cons.mpr ⟨?_, hes'.isOperand_attach (hops hc₂) hws⟩
            rw [hf'.checkedTy_again]
            exact Ty.isOperand_of_isValue (hval hc₂)
          · rw [hf'.checkedTy_again, hes'.checkedTy_attach hws]
            exact Rules.call_again (Ty.isGround_of_isValue _ (hval hc₂)) hground hrule
      · exact passing_fail h.ok
  | .lambda n h b, k, Γ, st, hst, hs => by
    simp only [Expr.isSource, Bool.and_eq_true] at hs
    rw [Expr.check]
    refine (Stmt.passing_func n.place hst hs.1 fun hst₁ =>
      Stmt.checkAll_moving hr hr' b (some h.result) false hst₁ hs.2).then_pure ?_
    rintro ⟨h', b'⟩ st' - ⟨hgood, hfresh, ⟨Γ', hbody, hhead⟩, hagain⟩
    refine ⟨?_, hagain.then_pure fun p => Expr.lambda ((n.typed h'.ty).typed p.1.ty) p.1 p.2⟩
    rw [show h' = _ from hhead, FuncHead.ty_completed]
    exact .lambda hgood hfresh hbody

theorem Expr.checkAll_passing (hr : r.registry = standard) (hr' : r'.registry = standard) :
    ∀ (es : List Expr) (conversion : Bool) {Γ : Ctx} {st : CheckState},
    st.Ready Γ → Expr.areSource conversion es →
    Passing (Expr.checkAll r es) st (Expr.ChecksAll r r' Γ st es)
  | [], _, _, _, hst, _ => passing_pure hst.toOk fun _ => ⟨.nil, fun h => by cases h; exact accepts_pure⟩
  | e :: es, conversion, Γ, st, hst, hs => by
    simp only [Expr.areSource, Bool.and_eq_true] at hs
    have ih : Passing (e.check r false) st (e.Checks r r' Γ false st) := by
      cases conversion with
      | true =>
        cases e with
        | typeLiteral => exact passing_pure hst.toOk fun _ => ⟨.typeLiteral, accepts_pure⟩
        | _ => simp [Expr.isConversionTarget] at hs
      | false => exact Expr.check_passing hr hr' e false hst hs.1
    rw [Expr.checkAll]
    refine ih.bind fun e' st₁ he => (Expr.checkAll_passing hr hr' es false (he.ready hst) hs.2).then_pure ?_
    rintro es' st₂ hc hes
    obtain ⟨-, hrules, hagain⟩ := he.clean hc
    refine ⟨.cons hrules hes.rules, ?_⟩
    rintro _ (_ | ⟨hw, hws⟩)
    exact Expr.accepts_checkAll_cons (hw.again_attached hr' hrules.ty?_eq hagain) (hes.again hws)

theorem PrintItem.checkAll_passing (hr : r.registry = standard) (hr' : r'.registry = standard) :
    ∀ (is : List PrintItem) {Γ : Ctx} {st : CheckState}, st.Ready Γ →
    PrintItem.areSource is → Passing (PrintItem.checkAll r is) st (PrintItem.ChecksAll r r' Γ st is)
  | [], _, _, hst, _ => passing_pure hst.toOk fun _ => ⟨.nil, accepts_pure⟩
  | .separator p k :: is, Γ, st, hst, hs =>
    (PrintItem.checkAll_passing hr hr' is hst hs).then_pure fun _ _ _ h =>
      ⟨.separator h.rules, h.again.then_pure _⟩
  | .value e :: is, Γ, st, hst, hs => by
    simp only [PrintItem.areSource, Bool.and_eq_true] at hs
    rw [PrintItem.checkAll]
    refine (Expr.check_passing hr hr' e false hst hs.1).bind fun e' st₁ he =>
      (PrintItem.checkAll_passing hr hr' is (he.ready hst) hs.2).then_pure fun is' st₂ hc his => ?_
    obtain ⟨-, hrules, hagain⟩ := he.clean hc
    exact ⟨.value hrules his.rules, hagain.bind (his.again.then_pure _)⟩

/-- Checking a statement of a source elaborates it, if there is no error, and it is accepted again. -/
theorem Stmt.check_moving (hr : r.registry = standard) (hr' : r'.registry = standard) :
    ∀ (s : Stmt) (result : Option Ty) {Γ : Ctx} {st : CheckState}, st.Ready Γ →
    s.isSource → Moving (s.check r result) st (s.Checks r r' result Γ st)
  | .varDecl n x isConst e b₀, result, Γ, st, hst, hs => by
    rw [Stmt.check]
    refine (Expr.check_passing hr hr' e false hst hs).bind_moving hst.toOk fun e' st₁ he => ?_
    refine moving_warnIf he.ok _ _ _ _ (x := Check.declaration n x isConst e') fun report hwarn => ?_
    refine Moves.imp (moving_declaration (hwarn.ready (he.ready hst)) n x isConst e') ?_
    rintro hc ⟨hnew, hx, htree, hstate, hctx⟩
    obtain ⟨-, hrules, hagain⟩ := he.clean (hwarn.clean hc).1
    have haccepts := @Stmt.accepts_varDecl r' st st₁ (n.typed e'.checkedTy) result x isConst _ _ none hagain hx
    rw [hrules.checkedTy_again, SymbolTable.binding_declared_self] at haccepts
    rw [htree]
    refine ⟨hctx ▸ .varDecl hrules hnew, ?_⟩
    rw [hstate, ← (he.ready hst).ctx_eq]
    exact haccepts
  | .assign n x v, result, Γ, st, hst, hs => by
    simp only [Stmt.isSource, Bool.and_eq_true] at hs
    rw [Stmt.check]
    refine Passing.moving hst.toOk ((Expr.check_passing hr hr' v false hst hs.2).bind fun v' st₁ hv => ?_)
    refine (Expr.check_passing hr hr' x false (hv.ready hst) hs.1.2).bind fun x' st₂ hx => ?_
    have h := hv.trans hx
    have hsound := fun hc => (h.clean hc).2.1.rules.not_anyFaulty_pair hr (hst.values (h.clean hc).1)
      (h.clean hc).2.2.rules hs.2 hs.1.2
    refine passing_unless h.ok (fun hc => by simp [(hsound hc).1])
      ((passing_judge h.ok n.place (x'.assigned v')).then_pure ?_)
    rintro t _ hc ⟨hrule, rfl⟩ hctx
    obtain ⟨-, ⟨hv', hagain⟩, hx', hagain'⟩ := h.clean hc
    obtain ⟨hmutable, hassign⟩ := Expr.assigned_ok hrule
    refine ⟨?_, Stmt.accepts_assign hagain hagain' (hsound hc).2 ((Expr.assigned_again hx' hv').trans hrule)⟩
    rw [hctx, hst.ctx_eq]
    exact .assign hv' hx' hmutable hassign
  | .print n is, result, Γ, st, hst, hs => by
    rw [Stmt.check]
    refine Passing.moving hst.toOk ((PrintItem.checkAll_passing hr hr' is hst hs).then_pure ?_)
    rintro is' st₁ - ⟨hrules, hagain⟩ hctx
    refine ⟨?_, hagain.then_pure _⟩
    rw [hctx, hst.ctx_eq]
    exact .print hrules
  | .call n c, result, Γ, st, hst, hs => by
    rw [Stmt.check]
    refine Passing.moving hst.toOk ((Expr.check_passing hr hr' c true hst hs).then_pure ?_)
    rintro c' st₁ - ⟨hrules, hagain⟩ hctx
    refine ⟨?_, hagain.then_pure _⟩
    rw [hctx, hst.ctx_eq]
    exact .call hrules
  | .give n v, result, Γ, st, hst, hs => by
    rw [Stmt.check]
    refine Passing.moving hst.toOk ((Expr.check_passing hr hr' v false hst hs).bind fun v' st₁ h => ?_)
    cases result with
    | none => exact passing_fail h.ok
    | some t =>
      have hval := fun hc => (h.clean hc).2.rules.isValue hr (hst.values (h.clean hc).1) hs
      simp only
      split
      · next hfaulty =>
        refine passing_returned h.ok fun hc => ?_
        simp [Ty.not_isError_of_isValue (hval hc)] at hfaulty
      · next hfaulty =>
        refine (passing_judge h.ok n.place (Rules.give t v'.checkedTy)).bind fun u st₂ hu => ?_
        refine passing_returned hu.ok fun hc hctx => ?_
        obtain ⟨hc₁, hrule, rfl⟩ := hu.clean hc
        obtain ⟨-, hrules, hagain⟩ := h.clean hc₁
        constructor
        · rw [hctx, hst.ctx_eq]
          exact .give hrules hrule
        · refine hagain.bind ?_
          simp only [hrules.checkedTy_again, hfaulty, hrule]
          exact (accepts_returned _ u st₂).then_pure fun m =>
            Stmt.give m (v'.applyWidening standard).settled
  | .leave n, result, Γ, st, hst, hs => by
    cases result with
    | none => exact (passes_fail hst.toOk _ _ _).moves hst.toOk
    | some t =>
      refine Passing.moving hst.toOk ?_
      simp only [Stmt.check]
      split
      · next hvoid =>
        refine passing_returned hst.toOk fun _ hctx => ?_
        rw [Ty.eq_void_of_isVoid hvoid]
        refine ⟨?_, (accepts_returned _ .void st).then_pure Stmt.leave⟩
        rw [hst.ctx_eq]
        exact .leave
      · exact passes_fail hst.toOk _ _ _
  | .ifThen n c b, result, Γ, st, hst, hs | .while n c b, result, Γ, st, hst, hs => by
    simp only [Stmt.isSource, Bool.and_eq_true] at hs
    rw [Stmt.check, ← bind_assoc]
    refine (Expr.passing_cond hr hst hs.1 (Expr.check_passing hr hr' c false hst hs.1)).bind_moving hst.toOk
      fun c' st₁ hcond => ?_
    refine (Stmt.moving_block (hcond.ready hst) fun hst₂ =>
      Stmt.checkAll_moving hr hr' b result false hst₂ hs.2).then_pure ?_
    rintro b' st₂ hc ⟨⟨Γ', hbody, hctx⟩, hagain⟩
    obtain ⟨-, hrules, hty, haccepts⟩ := hcond.clean hc
    refine ⟨?_, ?_⟩
    · rw [hctx]
      constructor <;> assumption
    rw [Stmt.Again, Stmt.applyWidening, Stmt.check, ← bind_assoc]
    exact haccepts.bind (hagain.then_pure _)
  | .ifElse n c b a, result, Γ, st, hst, hs => by
    simp only [Stmt.isSource, Bool.and_eq_true] at hs
    rw [Stmt.check, ← bind_assoc]
    refine (Expr.passing_cond hr hst hs.1.1 (Expr.check_passing hr hr' c false hst hs.1.1)).bind_moving
      hst.toOk fun c' st₁ hcond => ?_
    refine (Stmt.moving_block (hcond.ready hst) fun hst₂ =>
      Stmt.checkAll_moving hr hr' b result false hst₂ hs.1.2).bind fun b' st₂ hblock => ?_
    have hready : st₂.isClean → st₂.ctx.allValues := fun hc => by
      obtain ⟨hc₁, ⟨Γ', -, hctx⟩, -⟩ := hblock.clean hc
      rw [hctx]
      exact hst.values (hcond.clean hc₁).1
    refine (Stmt.check_moving hr hr' a result ⟨hblock.ok, rfl, hready⟩ hs.2.2).then_pure ?_
    rintro a' st₃ hc ⟨halt, hagain'⟩
    obtain ⟨hc₁, ⟨Γ', hbody, hctx⟩, hagain⟩ := hblock.clean hc
    obtain ⟨-, hrules, hty, haccepts⟩ := hcond.clean hc₁
    rw [hctx] at halt
    refine ⟨.ifElse hrules hty hbody halt, ?_⟩
    rw [Stmt.Again, Stmt.applyWidening, Stmt.check, ← bind_assoc]
    exact haccepts.bind (hagain.bind (hagain'.then_pure _))
  | .block n b, result, Γ, st, hst, hs => by
    rw [Stmt.check]
    refine (Stmt.moving_block hst fun hst₁ =>
      Stmt.checkAll_moving hr hr' b result false hst₁ hs).then_pure ?_
    rintro b' st₁ - ⟨⟨Γ', hbody, hctx⟩, hagain⟩
    exact ⟨hctx ▸ .block hbody, hagain.then_pure _⟩

theorem Stmt.checkAll_moving (hr : r.registry = standard) (hr' : r'.registry = standard) :
    ∀ (ss : List Stmt) (result : Option Ty) (returned : Bool) {Γ : Ctx}
    {st : CheckState}, st.Ready Γ → Stmt.areSource ss →
    Moving (Stmt.checkAll r result returned ss) st (Stmt.ChecksAll r r' result Γ st ss)
  | [], _, _, _, _, hst, _ => (passing_pure hst.toOk fun _ =>
    ⟨hst.ctx_eq ▸ .nil, fun _ => accepts_pure⟩).moves hst.toOk
  | s :: ss, result, returned, Γ, st, hst, hs => by
    simp only [Stmt.areSource, Bool.and_eq_true] at hs
    rw [Stmt.checkAll]
    refine moving_warnIf hst.toOk _ _ _ _ fun report hwarn => ?_
    have hst₁ := hwarn.ready hst
    refine (Stmt.check_moving hr hr' s result hst₁ hs.1).bind fun s' st₂ h => ?_
    have hready : st₂.isClean → st₂.ctx.allValues := fun hc =>
      (h.clean hc).2.rules.allValues hr hs.1 (hst₁.values (h.clean hc).1)
    refine (Stmt.checkAll_moving hr hr' ss result s.isReturn ⟨h.ok, rfl, hready⟩ hs.2).then_pure ?_
    rintro ss' st₃ hc ⟨hrules, hagain⟩
    obtain ⟨-, hs', hagain'⟩ := h.clean hc
    exact ⟨.cons hs' hrules, fun _ => Stmt.accepts_checkAll_cons hagain' (hagain _)⟩

end

/-! ## Checking a program -/

/-- What is left of declaring subroutines behind the first one. -/
lemma Func.run_declareAll_cons (f : Func) (fs : List Func) (st : CheckState) :
    (Func.declareAll (f :: fs)).run st =
      match st.table.lookupLocal st.scope f.head.name with
      | none =>
        let st₁ := { st with table := st.table.declared st.scope f.head.name f.head.ty false }
        ({ f with
          note := f.note.typed f.head.ty
          head := { f.head with
            binding := some (st₁.table.binding st.table.bindings.size) } } ::
          ((Func.declareAll fs).run st₁).1, ((Func.declareAll fs).run st₁).2)
      | some _ =>
        let st₁ := ((Check.fail f.note.place (.alreadyDefined f.head.name)).run st).2
        ({ f with note := f.note.typed f.head.ty, head := { f.head with binding := none } } ::
          ((Func.declareAll fs).run st₁).1, ((Func.declareAll fs).run st₁).2) := by
  simp only [Func.declareAll, run_bind, run_declare]
  cases hx : st.table.lookupLocal st.scope f.head.name <;> rfl

/-- What declaring a subroutine looks at and fills in is the same for two subroutines. -/
structure Func.SameHead (f g : Func) : Prop where
  note : g.note = f.note
  name : g.head.name = f.head.name
  ty : g.head.ty = f.head.ty
  binding : g.head.binding = f.head.binding

/-- Declaring a subroutine that is declared already and the ones behind it. -/
lemma Func.accepts_declareAll_cons {f : Func} {gs : List Func} {st st' : CheckState}
    (hx : st.table.lookupLocal st.scope f.head.name = none) (hnote : f.note.typed f.head.ty = f.note)
    (hbinding : f.head.binding = some ((st.table.declared st.scope f.head.name f.head.ty false).binding
      st.table.bindings.size))
    (hgs : Accepts (Func.declareAll gs)
      { st with table := st.table.declared st.scope f.head.name f.head.ty false } gs st') :
    Accepts (Func.declareAll (f :: gs)) st (f :: gs) st' := by
  intro report
  obtain ⟨report', hcount, hrun⟩ := hgs report
  refine ⟨report', hcount, ?_⟩
  rw [Func.run_declareAll_cons]
  simp only [hx]
  rw [hrun, ← hbinding, hnote]

/-- Subroutines that are declared without an error are declared again as they are. -/
lemma Func.moving_declareAll (fs : List Func) {st : CheckState} (hst : st.Ok) :
    Moving (Func.declareAll fs) st fun fs' st' => Func.DeclaredAll st.ctx fs fs' st'.ctx ∧
      ∀ gs, List.Forall₂ Func.SameHead fs' gs → Accepts (Func.declareAll gs) st gs st' := by
  induction fs generalizing st with
  | nil => exact Passing.moving hst (passing_pure hst fun _ _ =>
    ⟨.nil, fun _ h => by cases h; exact accepts_pure⟩)
  | cons f fs ih =>
    rw [Moving, Func.run_declareAll_cons]
    cases hx : st.table.lookupLocal st.scope f.head.name with
    | none =>
      have hmove := moves_declared hst f.head.name f.head.ty false
      refine (hmove.trans (ih hmove.ok)).imp fun _ hrest => ?_
      obtain ⟨hctx, htail, hagain⟩ := hrest
      rw [hctx] at htail
      simp only [SymbolTable.binding_declared_self]
      refine ⟨.cons (local?_ctx_eq_none hx) htail, ?_⟩
      rintro _ (_ | ⟨⟨hnote, hname, hty, hbinding⟩, hgs⟩)
      replace hname : _ = f.head.name := hname
      replace hty : _ = f.head.ty := hty
      refine Func.accepts_declareAll_cons (hname ▸ hx) ?_ ?_ ?_
      · rw [hnote, hty]
        rfl
      · rw [hbinding, hname, hty, SymbolTable.binding_declared_self]
      · rw [hname, hty]
        exact hagain _ hgs
    | some b =>
      have hfail := (passes_fail hst f.note.place (.alreadyDefined f.head.name) False).moves hst
      exact (hfail.trans (ih hfail.ok)).imp fun _ h => h.1.elim

/-- What declaring subroutines adds to them does not matter for whether they are such of a source. -/
lemma Func.isSource_declareAll : ∀ (fs : List Func) (st : CheckState), (∀ f ∈ fs, f.isSource) →
    ∀ f ∈ ((Func.declareAll fs).run st).1, f.isSource
  | [], _, hs => hs
  | f :: fs, st, hs => by
    have hf : f.isSource := hs f (by simp)
    have hfs : ∀ g ∈ fs, g.isSource := fun g hg => hs g (by simp [hg])
    rw [Func.run_declareAll_cons]
    cases st.table.lookupLocal st.scope f.head.name with
    | none => exact List.forall_mem_cons.mpr ⟨hf, Func.isSource_declareAll fs _ hfs⟩
    | some b => exact List.forall_mem_cons.mpr ⟨hf, Func.isSource_declareAll fs _ hfs⟩

/-- A subroutine that is checked without an error elaborates, and is accepted again with its casts inserted. -/
lemma Func.passing_check (hr : r.registry = standard) (hr' : r'.registry = standard) {f : Func} {Γ : Ctx}
    {st : CheckState} (hst : st.Ready Γ) (hs : f.isSource) :
    Passing (f.check r) st fun f' st' => Func.Elab r Γ f f' ∧
      Accepts (Func.check r' { f' with body := Stmt.applyWidenings standard f'.body }) st
        { f' with body := Stmt.settledAll (Stmt.applyWidenings standard f'.body) } st' := by
  simp only [Func.isSource, Bool.and_eq_true] at hs
  rw [Func.check]
  refine (Stmt.passing_func f.note.place hst hs.1 fun hst₁ =>
    Stmt.checkAll_moving hr hr' f.body (some f.head.result) false hst₁ hs.2).then_pure ?_
  rintro ⟨h', b'⟩ st' - ⟨hgood, hfresh, ⟨Γ', hbody, hhead⟩, hagain⟩
  refine ⟨?_, hagain.then_pure fun p => Func.mk f.note p.1 p.2⟩
  rw [show h' = _ from hhead]
  exact .intro hgood hfresh hbody

lemma Func.passing_checkAll (hr : r.registry = standard) (hr' : r'.registry = standard) :
    ∀ (fs : List Func) {Γ : Ctx} {st : CheckState}, st.Ready Γ → (∀ f ∈ fs, f.isSource) →
    Passing (fs.mapM (Func.check r)) st fun fs' st' => List.Forall₂ (Func.Elab r Γ) fs fs' ∧
      Accepts ((fs'.map fun f => { f with body := Stmt.applyWidenings standard f.body }).mapM (Func.check r'))
        st (fs'.map fun f => { f with body := Stmt.settledAll (Stmt.applyWidenings standard f.body) }) st'
  | [], _, _, hst, _ => passing_pure hst.toOk fun _ => ⟨.nil, accepts_pure⟩
  | f :: fs, Γ, st, hst, hs => by
    rw [List.forall_mem_cons] at hs
    rw [List.mapM_cons]
    refine (Func.passing_check hr hr' hst hs.1).bind fun f' st₁ hf =>
      (Func.passing_checkAll hr hr' fs (hf.ready hst) hs.2).then_pure ?_
    rintro fs' st₂ hc ⟨hrules, hagain⟩
    obtain ⟨-, hrule, haccepts⟩ := hf.clean hc
    rw [List.map_cons, List.mapM_cons]
    exact ⟨.cons hrule hrules, haccepts.bind (hagain.then_pure _)⟩

lemma Func.Elab.sameHead {Γ : Ctx} {f f' : Func} (h : Func.Elab r Γ f f') (body : List Stmt) :
    Func.SameHead f { f' with body := body } := by
  cases h
  exact ⟨rfl, rfl, FuncHead.ty_completed _ _ _, rfl⟩

/-- Where the check of a program starts. -/
def CheckState.start (report : Report) : CheckState := { table := .program, scope := 0, report }

/-- A program of a source that is checked without an error elaborates, and is accepted again with its casts
inserted. -/
lemma Program.moving_checkAll (hr : r.registry = standard) (hr' : r'.registry = standard) {p : Program}
    (hs : p.isSource) (report : Report) : Moving (p.checkAll r) (start report) fun p' st' =>
      Program.Elab r p p' ∧ Accepts ((p'.applyWidening standard).checkAll r') (start report)
        (p'.applyWidening standard).settled st' := by
  have hok : (start report).Ok := ⟨SymbolTable.good_program, by simp [start, SymbolTable.program]⟩
  simp only [Program.isSource, Bool.and_eq_true, List.all_eq_true] at hs
  have hfuncs : ∀ f ∈ p.funcs, f.isSource := fun f hf => by simpa [Func.isSource] using hs.1 f hf
  -- the subroutines are declared, then their bodies and the main block are checked
  have hsource := Func.isSource_declareAll p.funcs (start report) hfuncs
  have hdecl := Func.moving_declareAll p.funcs hok
  rw [Program.checkAll]
  rw [Moving] at hdecl ⊢
  rw [run_bind]
  rcases hrun : (Func.declareAll p.funcs).run (start report) with ⟨fs, st₁⟩
  rw [hrun] at hsource hdecl
  have hready : st₁.Ready st₁.ctx := ⟨hdecl.ok, rfl, fun hc =>
    (hdecl.clean hc).2.1.allValues (fun f hf => (hs.1 f hf).1) Ctx.allValues_global⟩
  refine (hdecl.trans ((Func.passing_checkAll hr hr' fs hready hsource).bind_moving hdecl.ok
    (Q := fun p' st' => Program.Elab r p p' ∧ Accepts ((p'.applyWidening standard).checkAll r')
      (start report) (p'.applyWidening standard).settled st')
    fun fs' st₂ hbodies => ?_)).imp fun _ h => h.2
  refine (Stmt.moving_block (hbodies.ready hready) fun hst₃ =>
    Stmt.checkAll_moving hr hr' p.main none false hst₃ hs.2).bind fun main' st₃ hmain => ?_
  refine Passing.moving hmain.ok (passing_get (passing_pure hmain.ok fun hc _ => ?_))
  obtain ⟨hc₂, ⟨Γ', hmain', hctx⟩, hagain₃⟩ := hmain.clean hc
  obtain ⟨hc₁, hrules, hagain₂⟩ := hbodies.clean hc₂
  obtain ⟨-, hdeclared, hagain₁⟩ := hdecl.clean hc₁
  have hsize : st₃.table.allocatedSize 0 = Γ'.peak := by
    have hscope : st₃.scope = 0 := hmain.scope_eq.trans (hbodies.scope_eq.trans hdecl.scope_eq)
    have hpeak := congrArg Ctx.peak hctx
    rw [ctx, hscope] at hpeak
    exact hpeak
  constructor
  · rw [hsize]
    exact .intro hdeclared hrules hmain'
  · rw [Program.checkAll]
    refine (hagain₁ _ ?_).bind (hagain₂.bind (hagain₃.bind (accepts_get fun _ => ?_)))
    · rw [Program.applyWidening, List.forall₂_map_right_iff]
      exact hrules.imp fun f f' hf => hf.sameHead _
    · simp only [Program.settled, Program.applyWidening, List.map_map]
      exact accepts_pure

/-- A program of a source that checks without an error elaborates to what checking returns. -/
theorem Program.check_elab (hr : r.registry = standard) {p : Program} (hs : p.isSource) {report : Report}
    (hclean : (p.check r report).2.errorCount = 0) : Program.Elab r p (p.check r report).1 :=
  ((Program.moving_checkAll hr hr hs report).clean hclean).2.1

/-- A program that checks without an error is accepted again with its casts inserted, and becomes the
same tree without notes of conversions. -/
theorem Program.check_again (hr : r.registry = standard) (hr' : r'.registry = standard) {p : Program}
    (hs : p.isSource) {report : Report} (hclean : (p.check r report).2.errorCount = 0)
    (report' : Report) : ∃ report'' : Report, report''.errorCount = report'.errorCount ∧
      ((p.check r report).1.applyWidening standard).check r' report' =
        (((p.check r report).1.applyWidening standard).settled, report'') := by
  obtain ⟨report'', hcount, hrun⟩ := ((Program.moving_checkAll hr hr' hs report).clean hclean).2.2 report'
  refine ⟨report'', hcount, ?_⟩
  unfold Program.check
  exact congrArg (fun x : Program × CheckState => (x.1, x.2.report)) hrun

/-- In an elaborated program with its casts inserted every signature takes operands as they are. -/
theorem Program.Elab.signed (hr : r.registry = standard) {p p' : Program} (h : Program.Elab r p p')
    (hs : p.isSource) : (p'.applyWidening standard).settled.Signed := by
  simp only [Program.isSource, Bool.and_eq_true, List.all_eq_true] at hs
  cases h with
  | intro declared bodies main =>
    have hΓ := declared.allValues (fun f hf => (hs.1 f hf).1) Ctx.allValues_global
    refine ⟨?_, main.signed hr hs.2 (Ctx.allValues_enter hΓ)⟩
    intro g hg
    simp only [Program.settled, Program.applyWidening, List.map_map, List.mem_map,
      Function.comp_apply] at hg
    obtain ⟨f', hf', rfl⟩ := hg
    obtain ⟨f, hf, hrules⟩ := exists_of_forall₂ bodies hf'
    have hsf := declared.isSource (by simpa using hs.1) f hf
    rw [Bool.and_eq_true] at hsf
    cases hrules with
    | intro params _ body =>
      exact body.signed hr hsf.2 (Ctx.allValues_enter (Ctx.allValues_inFunc hΓ hsf.1 params))

end

/-- A source with conversions of operands, arguments, elements and a length. -/
def wideningSource : List Char :=
  "subr float half(float x) { return x / 2; }
   subr float mix(char c) {
     var a := [c, 1, 2.5];
     var b := new [bool](c);
     return half(c) + a[0];
   }
   main { print 1 + 2.5; }".toList

end SubrLang
