import SubrLang.Proofs.CheckedVisits

/-!
# Errors do not cascade

An expression that is found faulty gets the error type, and what it is part of gets it too without a word.

What a visit of the checker reports is counted apart from what is reported inside (`Visit.reports`). So a chain
of nested expressions has at most one error (`Visit.sum_reports_le`): what lies around a faulty part is silent,
and what lies inside a part that is not faulty has nothing to report. In the other direction the error type
has a cause (`Visit.Proper.exists_cause`): going down from a faulty expression to a faulty part of it ends at
one that is reported, or at the name of a variable that was declared with the error type.
-/

namespace SubrLang

open CheckState Check Relation

/-! ## What is reported about a node -/

namespace Visit

variable (r : Rules) (v w : Visit)

/-- Whether the expression gets the error type. -/
def isFaulty : Bool := (v.run r).1.checkedTy.isError

/-- The parts as they are checked, and the state behind them. -/
def parts : List Expr × CheckState := (Expr.checkAll r v.expr.parts).run v.state

/-- The state in which only the node itself is left. Of a subroutine everything belongs to its body. -/
def inner : CheckState :=
  if v.expr.isLambda then ((v.expr.check r false).run v.state).2 else (v.parts r).2

/-- The number of errors that are reported about the node itself. -/
def reports : Nat := (v.run r).2.report.errorCount - (v.inner r).report.errorCount

/-- Whether `w` is the visit of a direct part of the expression that `v` visits. -/
def Part : Prop := ∃ before after, v.expr.parts = before ++ w.expr :: after ∧ w.role = .operand ∧
  w.state = ((Expr.checkAll r before).run v.state).2

/-- Whether the expression is a name whose variable was declared with the error type. -/
def NamesFaulty : Prop := ∃ n x o b, v.expr = .ident n x o ∧
  (resolve x).run v.state = (.ok b, v.state) ∧ b.ty = .error

end Visit

namespace Expr

lemma ty?_withTy (e : Expr) (t : Ty) : (e.withTy t).ty? = some t := by
  cases e <;> rfl

lemma IsNoted.ty?_eq {e e' : Expr} (h : IsNoted e e') : e'.ty? = e.ty? := by
  rw [h]
  cases e <;> rfl

end Expr

namespace Visit

variable {r : Rules} {v w : Visit}

lemma Part.mem (h : Part r v w) : w.expr ∈ v.expr.parts := by
  obtain ⟨before, after, hparts, -⟩ := h
  simp [hparts]

/-- Some part is faulty exactly if its visit finds it so. -/
lemma anyFaulty_parts_iff : Expr.anyFaulty (v.parts r).1 ↔ ∃ w, Part r v w ∧ w.isFaulty r := by
  rw [parts, Expr.anyFaulty, List.any_eq_true, Expr.checkAll_eq_mapM]
  constructor
  · rintro ⟨e', he', hfaulty⟩
    obtain ⟨before, e, after, hparts, rfl⟩ := mem_run_mapM_iff.mp he'
    rw [← Expr.checkAll_eq_mapM] at hfaulty
    exact ⟨⟨.operand, e, _⟩, ⟨before, after, hparts, rfl, rfl⟩, hfaulty⟩
  · rintro ⟨⟨role, e, st⟩, ⟨before, after, hparts, rfl, rfl⟩, hfaulty⟩
    refine ⟨_, mem_run_mapM_iff.mpr ⟨before, e, after, hparts, rfl⟩, ?_⟩
    rw [← Expr.checkAll_eq_mapM]
    exact hfaulty

/-- What a visit comes to: nothing is said after a faulty part, or one error about the node, or none. -/
inductive Outcome (r : Rules) (v : Visit) : Prop
  | silent (faulty : Expr.anyFaulty (v.parts r).1) (error : (v.run r).1.ty? = some .error)
      (state : (v.run r).2 = v.inner r)
  | reported (sound : Expr.anyFaulty (v.parts r).1 = false) (error : (v.run r).1.ty? = some .error)
      (count : (v.run r).2.report.errorCount = (v.inner r).report.errorCount + 1)
  | typed {t : Ty} (sound : Expr.anyFaulty (v.parts r).1 = false) (ty : (v.run r).1.ty? = some t)
      (rule : (∃ ps u, t = .func ps u) ∨ ∃ isStmt,
        Expr.Gives r isStmt (v.parts r).2 v.expr ((v.parts r).1.map Expr.checkedTy) t)
      (count : (v.run r).2.report.errorCount = (v.inner r).report.errorCount)

/-- Checking an expression that does not decide on a branch. -/
lemma outcome_of_run {isStmt : Bool} (h : v.run r = (v.expr.check r isStmt).run v.state) : v.Outcome r := by
  cases hlambda : v.expr.isLambda with
  | true =>
    obtain ⟨role, e, st⟩ := v
    cases e with
    | lambda n head b =>
      have hstate : (Visit.run r ⟨role, .lambda n head b, st⟩).2 =
          Visit.inner r ⟨role, .lambda n head b, st⟩ := by
        rw [h, inner, if_pos hlambda]
        simp only [Expr.check]
      exact .typed rfl (by rw [h]; simp only [Expr.check]; rfl) (.inl ⟨_, _, rfl⟩) (by rw [hstate])
    | _ => cases hlambda
  | false =>
    have hinner : v.inner r = (v.parts r).2 := if_neg (by simp [hlambda])
    have houtcome := Expr.check_outcome r isStmt v.expr hlambda v.state
    rw [← h] at houtcome
    change Expr.Outcome r isStmt v.expr (v.parts r).1 (v.parts r).2 (v.run r).1 (v.run r).2 at houtcome
    generalize hrun : v.run r = found at houtcome
    obtain ⟨e', st'⟩ := found
    dsimp only at houtcome
    cases houtcome with
    | silent faulty _ ty => exact .silent faulty (by rw [hrun, ty]) (by rw [hrun, hinner])
    | reported sound _ ty count =>
      refine .reported sound (by rw [hrun, ty]) ?_
      rw [hrun, hinner, Report.errorCount_error, count]
    | typed report sound _ ty rule count =>
      exact .typed sound (by rw [hrun, ty]) (.inr ⟨isStmt, rule⟩) (by rw [hrun, hinner, count])

/-- A condition is checked as an operand first, and one that is no truth value is reported only if nothing was
reported about it. -/
lemma outcome_condition {e : Expr} {st : CheckState} (h : Outcome r ⟨.operand, e, st⟩) :
    Outcome r ⟨.condition, e, st⟩ := by
  have hrun : Visit.run r ⟨.condition, e, st⟩ =
      (Visit.run r ⟨.operand, e, st⟩).1.asCond.run (Visit.run r ⟨.operand, e, st⟩).2 := rfl
  have hkeep : (Visit.run r ⟨.operand, e, st⟩).1.checkedTy.isError →
      Visit.run r ⟨.condition, e, st⟩ = Visit.run r ⟨.operand, e, st⟩ := by
    intro herror
    rw [hrun, Expr.asCond, if_pos (by simp [herror])]
    rfl
  cases h with
  | silent faulty error state =>
    have h := hkeep (by rw [Expr.checkedTy_of_ty? error]; rfl)
    exact .silent faulty (by rw [h, error]) (by rw [h, state]; rfl)
  | reported sound error count =>
    have h := hkeep (by rw [Expr.checkedTy_of_ty? error]; rfl)
    exact .reported sound (by rw [h, error]) (by rw [h, count]; rfl)
  | typed sound ty rule count =>
    cases hcond : (Visit.run r ⟨.operand, e, st⟩).1.checkedTy.isError ||
        (Visit.run r ⟨.operand, e, st⟩).1.checkedTy.isPrim .boolean with
    | true =>
      have h : Visit.run r ⟨.condition, e, st⟩ = Visit.run r ⟨.operand, e, st⟩ := by
        rw [hrun, Expr.asCond, if_pos hcond]
        rfl
      exact .typed sound (by rw [h, ty]) rule (by rw [h, count]; rfl)
    | false =>
      have h : Visit.run r ⟨.condition, e, st⟩ = _ := hrun
      rw [Expr.asCond, if_neg (by simp [hcond]), run_bind, run_fail] at h
      refine .reported sound (by rw [h]; exact Expr.ty?_withTy _ _) ?_
      have hcount : (Visit.run r ⟨.condition, e, st⟩).2.report.errorCount =
          (Visit.run r ⟨.operand, e, st⟩).2.report.errorCount + 1 := by
        rw [h]
        exact Report.errorCount_error ..
      rw [hcount, count]
      rfl

/-- What a visit comes to. -/
lemma outcome (r : Rules) (v : Visit) : v.Outcome r := by
  obtain ⟨role, e, st⟩ := v
  cases role with
  | operand => exact outcome_of_run rfl
  | statement => exact outcome_of_run rfl
  | condition => exact outcome_condition (outcome_of_run rfl)

/-- A node with a faulty part is faulty, and nothing is reported about it. -/
lemma reports_of_part (hpart : Part r v w) (hw : w.isFaulty r) : v.isFaulty r ∧ v.reports r = 0 := by
  have hfaulty := anyFaulty_parts_iff.mpr ⟨w, hpart, hw⟩
  cases v.outcome r with
  | silent _ error state =>
    refine ⟨by rw [isFaulty, Expr.checkedTy_of_ty? error]; rfl, ?_⟩
    rw [reports, state, Nat.sub_self]
  | reported sound => simp [sound] at hfaulty
  | typed sound => simp [sound] at hfaulty

/-- At most one error is reported about a node, and then the node is faulty. -/
lemma reports_le (v : Visit) : v.reports r ≤ if v.isFaulty r then 1 else 0 := by
  have herror : (v.run r).1.ty? = some .error → v.isFaulty r := fun error => by
    rw [isFaulty, Expr.checkedTy_of_ty? error]
    rfl
  cases v.outcome r with
  | silent _ _ state => simp [reports, state]
  | reported _ error count => simp [reports, count, herror error]
  | typed _ _ _ count => simp [reports, count]

/-- Of nested expressions at most one is reported, and then the outermost one is faulty. -/
lemma sum_reports_le : ∀ {v : Visit} {vs : List Visit}, (v :: vs).IsChain (Part r) →
    ((v :: vs).map (reports r)).sum ≤ if v.isFaulty r then 1 else 0
  | v, [], _ => by simpa using reports_le v
  | v, w :: vs, h => by
    obtain ⟨hpart, hchain⟩ := List.isChain_cons_cons.mp h
    have ih := sum_reports_le hchain
    rw [List.map_cons, List.sum_cons]
    cases hw : w.isFaulty r with
    | true =>
      obtain ⟨hv, hnone⟩ := reports_of_part hpart hw
      simpa [hw, hv, hnone] using ih
    | false =>
      have hle := reports_le (r := r) v
      simp only [hw, Bool.false_eq_true, if_false, Nat.le_zero] at ih
      rwa [ih, Nat.add_zero]

end Visit

/-! ## Causes -/

lemma Ty.eq_error_of_isError {t : Ty} (h : t.isError) : t = .error := by
  unfold isError at h
  split at h
  · rfl
  · cases h

lemma Ty.not_isError_of_isResult {t : Ty} (h : t.isResult) : t.isError = false := by
  simp only [isResult, Bool.or_eq_true] at h
  rcases h with h | h
  · unfold isVoid at h
    split at h
    · rfl
    · cases h
  · exact not_isError_of_isValue h

namespace Expr

lemma sizeOf_lt_of_mem_parts {e p : Expr} (h : p ∈ e.parts) : sizeOf p < sizeOf e := by
  cases e with
  | operator n op es g | arrayLiteral n es =>
    have hes : sizeOf p < sizeOf es := List.sizeOf_lt_of_mem h
    simp
    omega
  | arrayAlloc n t l =>
    obtain rfl := List.mem_singleton.mp h
    simp
  | index n a i =>
    simp only [parts, List.mem_cons, List.not_mem_nil, or_false] at h
    rcases h with rfl | rfl
    · simp
      omega
    · simp
  | call n f es =>
    rcases List.mem_cons.mp h with rfl | h
    · simp
      omega
    · have hes : sizeOf p < sizeOf es := List.sizeOf_lt_of_mem h
      simp
      omega
  | _ => simp [parts] at h

/-- A list of operands of a source, cut in front of one of them. -/
lemma areSource_append {conversion : Bool} {before after : List Expr} {p : Expr}
    (h : areSource conversion (before ++ p :: after)) :
    areSource conversion before ∧ (p.isSource ∨ p.isConversionTarget) := by
  induction before generalizing conversion with
  | nil =>
    simp only [List.nil_append, areSource, Bool.and_eq_true] at h
    refine ⟨rfl, ?_⟩
    cases conversion with
    | true => exact .inr h.1
    | false => exact .inl h.1
  | cons e before ih =>
    simp only [List.cons_append, areSource, Bool.and_eq_true] at h ⊢
    exact ⟨⟨h.1, (ih h.2).1⟩, (ih h.2).2⟩

end Expr

namespace Visit

variable {r : Rules} {v w : Visit}

/-- Whether the expression is one of a source, and the names in sight have types of values or were found
faulty. -/
structure Proper (v : Visit) : Prop where
  typed : v.state.table.Typed
  source : v.expr.isSource ∨ v.expr.isConversionTarget ∧ v.role = .operand

/-- Only an expression of a source that is no subroutine has parts. -/
lemma Proper.of_mem_parts (hv : v.Proper) {p : Expr} (h : p ∈ v.expr.parts) :
    v.expr.isSource ∧ v.expr.isLambda = false := by
  obtain ⟨role, e, st⟩ := v
  obtain ⟨-, hs⟩ := hv
  refine ⟨hs.resolve_right fun ht => ?_, ?_⟩
  · cases e with
    | typeLiteral => simp [Expr.parts] at h
    | _ => simp [Expr.isConversionTarget] at ht
  · cases e with
    | lambda => simp [Expr.parts] at h
    | _ => rfl

lemma Proper.part (hr : r.registry = Registry.standard) (hv : v.Proper) (h : Part r v w) : w.Proper := by
  obtain ⟨role, e, st⟩ := w
  obtain ⟨before, after, hparts, rfl, rfl⟩ := h
  obtain ⟨hs, hlambda⟩ := hv.of_mem_parts (p := e) (by simp [hparts])
  have hsource := Expr.areSource_parts hs hlambda
  rw [hparts] at hsource
  obtain ⟨hbefore, he⟩ := Expr.areSource_append hsource
  exact ⟨(Expr.checkAll_keeps hr before _ hbefore).typed hv.typed, he.imp_right fun h => ⟨h, rfl⟩⟩

/-- Where the parts are not faulty, the rule for a node gives it the error type only if it is a name that was
declared with it. -/
lemma Proper.namesFaulty (hr : r.registry = Registry.standard) (hv : v.Proper) {isStmt : Bool} {t : Ty}
    (sound : Expr.anyFaulty (v.parts r).1 = false)
    (rule : Expr.Gives r isStmt (v.parts r).2 v.expr ((v.parts r).1.map Expr.checkedTy) t)
    (h : t.isError) : v.NamesFaulty := by
  obtain ⟨role, e, st⟩ := v
  obtain ⟨htyped, hs | ⟨htarget, -⟩⟩ := hv
  · have hlambda : e.isLambda = false := by
      cases rule <;> rfl
    obtain ⟨hst, hlength, hes⟩ :=
      Expr.checkAll_keeps hr e.parts e.isCast (Expr.areSource_parts hs hlambda) st ⟨htyped, rfl⟩
    obtain ⟨hts, hvalues⟩ := hes.types sound
    rcases rule.judged hr hs hst.1 ((List.length_map _).trans hlength) hts hvalues with
      hres | ⟨n, x, o, b, rfl, hb, rfl, -⟩
    · rw [Ty.not_isError_of_isResult hres.1] at h
      cases h
    · exact ⟨n, x, o, b, rfl, hb, Ty.eq_error_of_isError h⟩
  · cases e with
    | typeLiteral n t =>
      cases rule
      cases h
    | _ => simp [Expr.isConversionTarget] at htarget

/-- A faulty expression has a faulty part, or is reported, or is a name declared with the error type. -/
lemma Proper.cause (hr : r.registry = Registry.standard) (hv : v.Proper) (h : v.isFaulty r) :
    (∃ w, Part r v w ∧ w.isFaulty r) ∨ v.reports r = 1 ∨ v.NamesFaulty := by
  cases v.outcome r with
  | silent faulty => exact .inl (anyFaulty_parts_iff.mp faulty)
  | reported _ _ count => exact .inr (.inl (by simp [reports, count]))
  | typed sound ty rule _ =>
    rw [isFaulty, Expr.checkedTy_of_ty? ty] at h
    rcases rule with ⟨ps, u, rfl⟩ | ⟨isStmt, rule⟩
    · cases h
    · exact .inr (.inr (hv.namesFaulty hr sound rule h))

/-- Inside a faulty expression, itself included, one is reported or is a name declared with the error type. -/
lemma Proper.exists_cause (hr : r.registry = Registry.standard) (hv : v.Proper) (h : v.isFaulty r) :
    ∃ w, ReflTransGen (Part r) v w ∧ (w.reports r = 1 ∨ w.NamesFaulty) := by
  induction hsize : sizeOf v.expr using Nat.strong_induction_on generalizing v with
  | _ size ih =>
    rcases hv.cause hr h with ⟨w, hpart, hw⟩ | hcause
    · have hlt := Expr.sizeOf_lt_of_mem_parts hpart.mem
      obtain ⟨u, hu, hcause⟩ := ih _ (hsize ▸ hlt) (hv.part hr hpart) hw rfl
      exact ⟨u, .head hpart hu, hcause⟩
    · exact ⟨v, .refl, hcause⟩

end Visit

/-! ## The visits of a source -/

/-- Whether the checker comes to a part of a source in a state where the names in sight have types of values
or were found faulty. -/
structure Task.Proper (x : Task × CheckState) : Prop where
  typed : x.2.table.Typed
  source : match x.1 with
    | .expr role e => e.isSource ∨ e.isConversionTarget ∧ role = .operand
    | .stmt _ s => s.isSource
    | .stmts _ _ ss => Stmt.areSource ss

lemma Check.typed_atSubroutine {st : CheckState} (h : st.table.Typed) {head : FuncHead} (hs : head.isSource)
    (place : Place) : (atSubroutine head place st).table.Typed :=
  (Keeps.inFunc hs (.inBody place (.inBlock keeps_get)) st ⟨h, rfl⟩).2.2.1

lemma Role.keeps_check {r : Rules} (hr : r.registry = Registry.standard) (role : Role) {e : Expr}
    (hs : e.isSource) {o : Option Place} : Keeps o (role.check r e) fun _ => True := by
  cases role with
  | operand => exact (Expr.check_keeps hr e false hs).imp fun _ _ => trivial
  | statement => exact (Expr.check_keeps hr e true hs).imp fun _ _ => trivial
  | condition => exact (Expr.check_keeps hr e false hs).bind fun _ h =>
    (Expr.keeps_asCond h.2).imp fun _ _ => trivial

lemma PrintItem.areSource_append {before after : List PrintItem} {e : Expr}
    (h : PrintItem.areSource (before ++ .value e :: after)) : PrintItem.areSource before ∧ e.isSource := by
  induction before with
  | nil =>
    simp only [List.nil_append, areSource, Bool.and_eq_true] at h
    exact ⟨rfl, h.1⟩
  | cons i before ih =>
    cases i with
    | separator p k => exact ih h
    | value e' =>
      simp only [List.cons_append, areSource, Bool.and_eq_true] at h ⊢
      exact ⟨⟨h.1, (ih h.2).1⟩, (ih h.2).2⟩

lemma Stmt.isSource_branch {s : Stmt} {c : Expr} {b : List Stmt} (h : s.branch? = some (c, b))
    (hs : s.isSource) : c.isSource ∧ Stmt.areSource b := by
  cases s with
  | ifThen | «while» =>
    cases h
    simpa [Stmt.isSource] using hs
  | ifElse =>
    cases h
    simp only [Stmt.isSource, Bool.and_eq_true] at hs
    exact hs.1
  | _ => cases h

/-- What is begun on the way through a part of a source is such a part again. -/
lemma Task.Begins.proper {r : Rules} (hr : r.registry = Registry.standard) {x y : Task × CheckState}
    (h : Task.Begins r x y) (hx : Task.Proper x) : Task.Proper y := by
  obtain ⟨hst, hs⟩ := hx
  cases h with
  | @part role e p before after st parts =>
    have hv : Visit.Proper ⟨role, e, st⟩ := ⟨hst, hs⟩
    have hw : Visit.Proper ⟨.operand, p, ((Expr.checkAll r before).run st).2⟩ :=
      hv.part hr ⟨before, after, parts, rfl, rfl⟩
    exact ⟨hw.typed, hw.source⟩
  | lambda =>
    rcases hs with hs | ⟨hs, -⟩
    · simp only [Expr.isSource, Bool.and_eq_true] at hs
      exact ⟨typed_atSubroutine hst hs.1 _, hs.2⟩
    · simp [Expr.isConversionTarget] at hs
  | varDecl => exact ⟨hst, .inl hs⟩
  | value =>
    simp only [Stmt.isSource, Bool.and_eq_true] at hs
    exact ⟨hst, .inl hs.2⟩
  | target =>
    simp only [Stmt.isSource, Bool.and_eq_true] at hs
    exact ⟨(Expr.check_keeps hr _ false hs.2).typed hst, .inl hs.1.2⟩
  | print =>
    obtain ⟨hbefore, he⟩ := PrintItem.areSource_append hs
    exact ⟨(PrintItem.checkAll_keeps hr _ hbefore).typed hst, .inl he⟩
  | call => exact ⟨hst, .inl hs⟩
  | give => exact ⟨hst, .inl hs⟩
  | condition branch => exact ⟨hst, .inl (Stmt.isSource_branch branch hs).1⟩
  | branch branch =>
    obtain ⟨hc, hb⟩ := Stmt.isSource_branch branch hs
    exact ⟨(Role.keeps_check hr .condition hc).typed hst, hb⟩
  | alternative =>
    simp only [Stmt.isSource, Bool.and_eq_true] at hs
    have hcond := (Role.keeps_check hr .condition hs.1.1).typed hst
    exact ⟨(Keeps.inBlock (Stmt.checkAll_keeps hr _ _ false hs.1.2)).typed hcond, hs.2.2⟩
  | block => exact ⟨hst, hs⟩
  | first =>
    simp only [Stmt.areSource, Bool.and_eq_true] at hs
    refine ⟨?_, hs.1⟩
    dsimp only
    split <;> exact hst
  | @rest result returned s ss st =>
    simp only [Stmt.areSource, Bool.and_eq_true] at hs
    have hone : Stmt.areSource [s] := by simp only [Stmt.areSource, hs.1, Bool.and_true]
    exact ⟨(Stmt.checkAll_keeps hr _ _ _ hone).typed hst, hs.2⟩

namespace Program

variable {r : Rules} {report : Report} {p : Program}

lemma Begins.proper (hr : r.registry = Registry.standard) (hs : p.isSource) {x : Task × CheckState}
    (h : p.Begins r report x) : Task.Proper x := by
  simp only [Program.isSource, Bool.and_eq_true, List.all_eq_true] at hs
  have hfuncs : ∀ f ∈ p.funcs, f.isSource := fun f hf => by
    simpa [Func.isSource] using hs.1 f hf
  obtain ⟨hst, hdeclared⟩ : Check.Within none (p.declared report).2 ∧ ∀ f ∈ (p.declared report).1, f.isSource :=
    Func.keeps_declareAll hfuncs { table := .program, scope := 0, report } ⟨SymbolTable.typed_program, rfl⟩
  cases h with
  | func funcs =>
    rw [funcs] at hdeclared
    have hf := hdeclared _ (List.mem_append_right _ List.mem_cons_self)
    simp only [Func.isSource, Bool.and_eq_true] at hf
    have hbefore := Func.keeps_mapM_check hr (fun g hg => hdeclared g (List.mem_append_left _ hg)) _ hst
    exact ⟨typed_atSubroutine hbefore.1.1 hf.1 _, hf.2⟩
  | main => exact ⟨(Func.keeps_mapM_check hr hdeclared _ hst).1.1, hs.2⟩

/-- Every visit of a program of a source is one of a part of a source, in a state where names have types. -/
lemma Visits.proper (hr : r.registry = Registry.standard) (hs : p.isSource) {v : Visit}
    (h : p.Visits r report v) : v.Proper := by
  obtain ⟨t, hbegins, hsteps⟩ := h
  have hrun : ∀ {x : Task × CheckState}, ReflTransGen (Task.Begins r) t x → Task.Proper x := by
    intro x hx
    induction hx with
    | refl => exact hbegins.proper hr hs
    | tail _ hstep ih => exact hstep.proper hr ih
  have hproper := hrun hsteps
  exact ⟨hproper.typed, hproper.source⟩

end Program

/-! ## Nodes with faulty parts -/

section FaultyParts

variable {r : Rules} {st : CheckState}

/-- An expression with a faulty part is faulty, and the state stays as its parts leave it. -/
lemma Expr.check_of_anyFaulty {isStmt : Bool} {e : Expr}
    (h : Expr.anyFaulty ((Expr.checkAll r e.parts).run st).1) :
    ∃ e', (e.check r isStmt).run st = (e', ((Expr.checkAll r e.parts).run st).2) ∧ e'.ty? = some .error := by
  have hlambda : e.isLambda = false := by
    cases e with
    | lambda =>
      simp only [Expr.parts, Expr.checkAll, run_pure] at h
      cases h
    | _ => rfl
  have houtcome := Expr.check_outcome r isStmt e hlambda st
  generalize (e.check r isStmt).run st = found at houtcome ⊢
  obtain ⟨e', st'⟩ := found
  dsimp only at houtcome
  cases houtcome with
  | silent _ _ ty => exact ⟨e', rfl, ty⟩
  | reported sound => simp [sound] at h
  | typed _ sound => simp [sound] at h

/-- An assignment to or of a faulty expression. -/
lemma Stmt.check_assign_of_anyFaulty {result : Option Ty} {n : Note} {target value : Expr}
    (h : Expr.anyFaulty ((Expr.checkAll r [value, target]).run st).1) :
    ∃ s', ((Stmt.assign n target value).check r result).run st =
      (s', ((Expr.checkAll r [value, target]).run st).2) ∧ s'.note.ty = some .error := by
  simp only [Stmt.check, Expr.checkAll, run_bind, run_pure] at h ⊢
  rw [if_pos h]
  exact ⟨_, rfl, rfl⟩

/-- A return statement with a faulty value. -/
lemma Stmt.check_give_of_anyFaulty {t : Ty} {n : Note} {value : Expr}
    (h : Expr.anyFaulty ((Expr.checkAll r [value]).run st).1) :
    ∃ s', ((Stmt.give n value).check r (some t)).run st =
      (s', ((Expr.checkAll r [value]).run st).2) ∧ s'.note.ty = some .error := by
  simp only [Stmt.check, Expr.checkAll, run_bind, run_pure, Expr.anyFaulty, List.any_cons, List.any_nil,
    Bool.or_false] at h ⊢
  rw [if_pos h]
  exact ⟨_, rfl, rfl⟩

end FaultyParts

/-- **Errors do not cascade.** If a direct part of an expression, of an assignment or of a return statement in a
subroutine has the error type then the node has it too, and checking the node leaves the report, and all else,
as checking the parts left it. So of expressions nested in each other at most one is reported, and only once.
And every expression of a checked program that has the error type is what a visit came to, inside of which an
expression is reported or is a name of a variable that was declared with the error type. -/
theorem Program.errors_do_not_cascade (widening : Bool) :
    let r : Rules := ⟨Registry.standard, widening⟩
    (∀ (isStmt : Bool) (e : Expr) (st : CheckState),
      Expr.anyFaulty ((Expr.checkAll r e.parts).run st).1 → ∃ e',
        (e.check r isStmt).run st = (e', ((Expr.checkAll r e.parts).run st).2) ∧ e'.ty? = some .error) ∧
    (∀ (result : Option Ty) (n : Note) (target value : Expr) (st : CheckState),
      Expr.anyFaulty ((Expr.checkAll r [value, target]).run st).1 → ∃ s',
        ((Stmt.assign n target value).check r result).run st =
          (s', ((Expr.checkAll r [value, target]).run st).2) ∧ s'.note.ty = some .error) ∧
    (∀ (t : Ty) (n : Note) (value : Expr) (st : CheckState),
      Expr.anyFaulty ((Expr.checkAll r [value]).run st).1 → ∃ s',
        ((Stmt.give n value).check r (some t)).run st =
          (s', ((Expr.checkAll r [value]).run st).2) ∧ s'.note.ty = some .error) ∧
    (∀ vs : List Visit, vs.IsChain (Visit.Part r) → (vs.map (Visit.reports r)).sum ≤ 1) ∧
    ∀ (tokens : List Token) (parsed : Report) (lambdas : Bool) (report : Report),
      ∀ e ∈ ((Program.parse tokens parsed lambdas).1.check r report).1.nodes, e.ty? = some .error →
        ∃ v, (Program.parse tokens parsed lambdas).1.Visits r report v ∧ Expr.IsNoted (v.run r).1 e ∧
          ∃ w, ReflTransGen (Visit.Part r) v w ∧ (w.reports r = 1 ∨ w.NamesFaulty) := by
  intro r
  refine ⟨fun _ _ _ h => Expr.check_of_anyFaulty h, fun _ _ _ _ _ h => Stmt.check_assign_of_anyFaulty h,
    fun _ _ _ _ h => Stmt.check_give_of_anyFaulty h, fun vs hvs => ?_, ?_⟩
  · cases vs with
    | nil => simp
    | cons v vs =>
      refine (Visit.sum_reports_le hvs).trans ?_
      split <;> simp
  · intro tokens parsed lambdas report e he herror
    obtain ⟨v, hv, hrun⟩ := Program.exists_visit he
    have hfaulty : v.isFaulty r := by
      rw [Visit.isFaulty, Expr.checkedTy_of_ty? (hrun.ty?_eq.symm.trans herror)]
      rfl
    exact ⟨v, hv, hrun, (hv.proper rfl (Program.isSource_parse tokens parsed lambdas)).exists_cause rfl hfaulty⟩

/-- The tokens of a main block where a variable gets its value from an unknown name, and is used. -/
def unknownTokens : List Token :=
  [{ kind := .kwMain }, { kind := .lbrace },
    { kind := .kwVar }, { kind := .ident, value := "x" }, { kind := .define },
    { kind := .ident, value := "y" }, { kind := .plus }, { kind := .number, value := "1" }, { kind := .semi },
    { kind := .kwPrint }, { kind := .ident, value := "x" }, { kind := .star },
    { kind := .number, value := "2" }, { kind := .semi }, { kind := .rbrace }, { kind := .eof }]

/-- The product that the variable is used in, once it is checked. -/
def unknownProduct : Expr := .operator { place := {}, ty := some .error } .star
  [.ident { place := {}, ty := some .error } "x"
      (some { name := "x", ty := .error, mutable := true, base := .globals, offset := 0, frame := 0 }),
    .number { place := {}, ty := some .integer } 2] none

/-- One error is reported, about the unknown name, and the product of the variable is faulty without one. -/
theorem Program.errors_do_not_cascade_unknown :
    let r : Rules := ⟨Registry.standard, true⟩
    let p := (Program.parse unknownTokens {} true).1
    (p.check r {}).2.errorCount = 1 ∧ unknownProduct ∈ (p.check r {}).1.nodes ∧
      ∃ v, p.Visits r {} v ∧ Expr.IsNoted (v.run r).1 unknownProduct ∧
        ∃ w, ReflTransGen (Visit.Part r) v w ∧ (w.reports r = 1 ∨ w.NamesFaulty) := by
  intro r p
  have hmem : unknownProduct ∈ (p.check r {}).1.nodes := List.mem_of_getElem? (i := 3) rfl
  exact ⟨by decide +kernel, hmem,
    (Program.errors_do_not_cascade true).2.2.2.2 unknownTokens {} true {} _ hmem rfl⟩

end SubrLang
