import SubrLang.Proofs.Checking

/-!
# Programs that need no widening

Rules that allow widening look for it only where the types of operands do not fit as they are. So a program
that is accepted without widening is checked in the same way with it.

* **Two checks.** `Check.Extends x y Q` compares a check `x` by rules without widening with the check `y` of
  the same construct by rules with it: whenever `x` adds no error, `y` does the same, report and tables
  included. It composes along `>>=`, so each construct needs only its rule (`Rules.operator_exact`,
  `Rules.elements_exact`, `Rules.length_exact`, `Rules.call_exact`).
* **Notes.** The results of `x` are trees in which no conversion is noted: they are their own
  `Expr.settled`. Such a tree has nothing pending, and inserting casts leaves it as it is.
-/

namespace SubrLang

/-! ## Inserting casts into trees without notes -/

lemma Expr.applyWidening_settled (r : Registry) : (∀ e : Expr, e.settled.applyWidening r = e.settled) ∧
    (∀ ss, Stmt.applyWidenings r (Stmt.settledAll ss) = Stmt.settledAll ss) ∧
    (∀ s : Stmt, s.settled.applyWidening r = s.settled) ∧
    (∀ is, PrintItem.applyWidenings r (PrintItem.settledAll is) = PrintItem.settledAll is) ∧
    ∀ es, Expr.applyWidenings r (Expr.settledAll es) = Expr.settledAll es := by
  apply Expr.settled.mutual_induct <;> intros
  all_goals simp_all [Expr.settled, Expr.settledAll, PrintItem.settledAll, Stmt.settled, Stmt.settledAll,
    Expr.applyWidening, Expr.applyWidenings, PrintItem.applyWidenings, Stmt.applyWidening, Stmt.applyWidenings,
    Widening.wrap, Expr.note]

lemma Program.applyWidening_settled (r : Registry) (p : Program) :
    p.settled.applyWidening r = p.settled := by
  simp [Program.settled, Program.applyWidening, Expr.applyWidening_settled, Function.comp_def]

/-! ## The rules -/

namespace Rules

variable {g : Registry}

lemma operator_exact {op : TokenKind} {ts : List Ty} {found : Signature × Ty × List Widened}
    (h : operator ⟨g, false⟩ op ts = .ok found) :
    operator ⟨g, true⟩ op ts = .ok found ∧ found.2.2 = unchanged ts := by
  unfold operator at h ⊢
  split at h
  · next s t hresolve =>
    cases h
    simp [hresolve]
  · cases h

lemma elements_exact {ts : List Ty} {found : Ty × List Widened}
    (h : elements ⟨g, false⟩ ts = .ok found) :
    elements ⟨g, true⟩ ts = .ok found ∧ found.2 = unchanged ts := by
  unfold elements at h ⊢
  dsimp only at h ⊢
  split at h
  · next hsame =>
    rw [if_pos hsame]
    refine ⟨h, ?_⟩
    split at h
    · cases h
    · cases h
      rfl
  · cases h

lemma length_exact {t : Ty} {found : Widened} (h : length ⟨g, false⟩ t = .ok found) :
    length ⟨g, true⟩ t = .ok found ∧ found = (t, []) := by
  unfold length at h ⊢
  split at h
  · next hint =>
    rw [if_pos hint]
    cases h
    exact ⟨rfl, rfl⟩
  · cases h

lemma call_exact {callee : Ty} {ts : List Ty} {found : Ty × List Widened}
    (h : call ⟨g, false⟩ callee ts = .ok found) :
    call ⟨g, true⟩ callee ts = .ok found ∧ found.2 = unchanged ts := by
  unfold call at h ⊢
  split at h
  · next params result =>
    split at h
    · cases h
    · next hlength =>
      rw [if_neg hlength]
      split at h
      · next hsame =>
        rw [if_pos hsame]
        cases h
        exact ⟨rfl, rfl⟩
      · cases h
  · cases h

end Rules

/-! ## Two checks -/

namespace Check

variable {α β : Type} {x y : Check α} {Q : α → Prop}

/-- The check `y` does what `x` does wherever `x` adds no error, and what `x` gives satisfies `Q`. -/
structure Extends (x y : Check α) (Q : α → Prop) : Prop where
  grows : ∀ st, st.report.errorCount ≤ (x.run st).2.report.errorCount
  gives : ∀ st, Q (x.run st).1
  agrees : ∀ st, (x.run st).2.report.errorCount = st.report.errorCount → y.run st = x.run st

lemma Extends.bind {f f' : α → Check β} {R : β → Prop} (hx : Extends x y Q)
    (hf : ∀ a, Q a → Extends (f a) (f' a) R) : Extends (x >>= f) (y >>= f') R where
  grows st := (hx.grows st).trans ((hf _ (hx.gives st)).grows _)
  gives st := (hf _ (hx.gives st)).gives _
  agrees st h := by
    have hfx := hf _ (hx.gives st)
    have hfirst := hx.grows st
    have hsecond := hfx.grows (x.run st).2
    simp only [run_bind] at h ⊢
    rw [hx.agrees st (by omega)]
    exact hfx.agrees _ (by omega)

lemma extends_pure {a : α} (ha : Q a) : Extends (pure a) (pure a) Q where
  grows _ := le_rfl
  gives _ := ha
  agrees _ _ := rfl

/-- A check that does not look at the rules and adds no error. -/
lemma extends_silent (h : ∀ st, (x.run st).2.report.errorCount = st.report.errorCount) :
    Extends x x fun _ => True where
  grows st := (h st).ge
  gives _ := trivial
  agrees _ _ := rfl

lemma extends_get : Extends (get : Check CheckState) get fun _ => True := extends_silent fun _ => rfl

lemma extends_modify {f : CheckState → CheckState} (hf : ∀ st, (f st).report = st.report) :
    Extends (modify f : Check Unit) (modify f) fun _ => True :=
  extends_silent fun st => congrArg Report.errorCount (hf st)

lemma extends_warn (w : Warning) (p : Place) (m : String) :
    Extends (warn w p m) (warn w p m) fun _ => True :=
  extends_silent fun _ => Report.errorCount_warn ..

/-- Behind an error it does not matter what the other check does. -/
lemma extends_fail {f : Ty → α} (hf : ∀ t, Q (f t)) (p : Place) (e : TypeError) (y : Check α) :
    Extends (fail p e >>= fun t => pure (f t)) y Q where
  grows st := by
    simp only [run_bind, run_fail, run_pure, Report.errorCount_error]
    omega
  gives st := hf _
  agrees st h := by
    simp only [run_bind, run_fail, run_pure, Report.errorCount_error] at h
    omega

lemma extends_judge (p : Place) (r : Except TypeError Ty) :
    Extends (judge p r) (judge p r) fun _ => True := by
  cases r with
  | ok t => exact extends_pure trivial
  | error e => exact extends_fail (f := id) (fun _ => trivial) p e _

lemma extends_resolve (name : String) : Extends (resolve name) (resolve name) fun _ => True := by
  refine extends_get.bind fun st _ => ?_
  split
  · exact extends_pure trivial
  · split
    · exact extends_pure trivial
    · exact extends_pure trivial

lemma extends_declare (name : String) (t : Ty) (mutable : Bool) :
    Extends (declare name t mutable) (declare name t mutable) fun _ => True := by
  refine extends_silent fun st => ?_
  rw [run_declare]
  cases st.table.lookupLocal st.scope name <;> rfl

/-- Operands that are taken as they are have nothing noted on them. -/
lemma widen_unchanged : ∀ (es : List Expr) (ts : List Ty), widen es (Rules.unchanged ts) = pure es
  | [], _ => rfl
  | _ :: _, [] => rfl
  | e :: es, _ :: ts => by
    show (do return e :: (← widen es (Rules.unchanged ts))) = pure (e :: es)
    rw [widen_unchanged es ts]
    rfl

lemma Extends.inBlock (h : Extends x y Q) : Extends (inBlock x) (inBlock y) Q := by
  refine extends_get.bind fun outer _ => ?_
  refine .bind (extends_modify fun _ => rfl) fun _ _ => h.bind fun a ha => ?_
  refine .bind (extends_modify fun st => ?_) fun _ _ => extends_pure ha
  split <;> rfl

lemma extends_declareParams : ∀ ps : List Param,
    Extends (declareParams ps) (declareParams ps) fun _ => True
  | [] => extends_pure trivial
  | p :: ps => by
    rw [declareParams_cons]
    refine .bind (Q := fun _ => True) ?_ fun q _ =>
      (extends_declareParams ps).bind fun qs _ => extends_pure trivial
    unfold declareParam
    split
    · exact extends_fail (fun _ => trivial) _ _ _
    · refine (extends_declare _ _ _).bind fun b _ => ?_
      cases b with
      | ok b => exact extends_pure trivial
      | error e => exact extends_fail (fun _ => trivial) _ _ _

lemma Extends.inFunc (h : FuncHead) (hx : Extends x y Q) :
    Extends (inFunc h x) (inFunc h y) fun found => Q found.2 := by
  refine extends_get.bind fun outer _ => extends_get.bind fun st _ => ?_
  refine .bind (extends_modify fun _ => rfl) fun _ _ => (extends_declareParams _).bind fun qs _ => ?_
  refine extends_get.bind fun st₂ _ => .bind (extends_modify fun _ => rfl) fun _ _ => ?_
  refine hx.bind fun a ha => .bind (extends_modify fun _ => rfl) fun _ _ => ?_
  exact extends_get.bind fun st₃ _ => extends_pure ha

lemma Extends.inBody (p : Place) (hx : Extends x y Q) : Extends (inBody p x) (inBody p y) Q := by
  refine extends_get.bind fun around _ => .bind (extends_modify fun _ => rfl) fun _ _ => ?_
  exact hx.bind fun a ha => .bind (extends_modify fun _ => rfl) fun _ _ => extends_pure ha

lemma extends_returned (n : Note) (t : Ty) : Extends (returned n t) (returned n t) fun _ => True :=
  extends_get.bind fun _ _ => extends_pure trivial

end Check

open Check

/-! ## Trees -/

lemma Expr.settled_withTy (e : Expr) (t : Ty) : (e.withTy t).settled = e.settled.withTy t := by
  cases e <;> simp only [Expr.withTy, Expr.withNote, Expr.note, Expr.settled]

lemma Expr.extends_asCond {e : Expr} (h : e.settled = e) :
    Extends e.asCond e.asCond fun e => e.settled = e := by
  unfold Expr.asCond
  split
  · exact extends_pure h
  · refine extends_fail (fun t => ?_) _ _ _
    rw [Expr.settled_withTy, h]

mutual

/-- Checking an expression with widening allowed. -/
theorem Expr.check_extends (g : Registry) : ∀ (isStmt : Bool) (e : Expr),
    Extends (e.check ⟨g, false⟩ isStmt) (e.check ⟨g, true⟩ isStmt) fun e => e.settled = e
  | _, .number .. | _, .floatNumber .. | _, .char .. | _, .string .. | _, .bool .. | _, .typeLiteral .. => by
    simp only [Expr.check]
    exact extends_pure (by simp only [Expr.settled]; rfl)
  | _, .ident n x _ => by
    simp only [Expr.check]
    refine (extends_resolve x).bind fun found _ => ?_
    cases found with
    | ok b => exact extends_pure (by simp only [Expr.settled]; rfl)
    | error e => exact extends_fail (fun t => by simp only [Expr.settled]; rfl) _ _ _
  | _, .operator n op es _ => by
    simp only [Expr.check]
    refine (Expr.checkAll_extends g es).bind fun es' hes => ?_
    have hnode : ∀ t s, (Expr.operator (n.typed t) op es' s).settled = .operator (n.typed t) op es' s := by
      intro t s
      simp only [Expr.settled, hes]
      rfl
    split
    · exact extends_pure (hnode _ _)
    · cases hrule : Rules.operator ⟨g, false⟩ op (es'.map Expr.checkedTy) with
      | ok found =>
        obtain ⟨s, t, ws⟩ := found
        obtain ⟨hexact, hws⟩ := Rules.operator_exact hrule
        dsimp only at hws
        simp only [hexact, hws, widen_unchanged, pure_bind]
        exact extends_pure (hnode _ _)
      | error e => exact extends_fail (fun t => hnode t none) _ _ _
  | _, .arrayLiteral n es => by
    simp only [Expr.check]
    refine (Expr.checkAll_extends g es).bind fun es' hes => ?_
    have hnode : ∀ t, (Expr.arrayLiteral (n.typed t) es').settled = .arrayLiteral (n.typed t) es' := by
      intro t
      simp only [Expr.settled, hes]
      rfl
    split
    · exact extends_pure (hnode _)
    · cases hrule : Rules.elements ⟨g, false⟩ (es'.map Expr.checkedTy) with
      | ok found =>
        obtain ⟨t, ws⟩ := found
        obtain ⟨hexact, hws⟩ := Rules.elements_exact hrule
        dsimp only at hws
        simp only [hexact, hws, widen_unchanged, pure_bind]
        exact extends_pure (hnode _)
      | error e => exact extends_fail (fun t => hnode t) _ _ _
  | _, .arrayAlloc n elem l => by
    simp only [Expr.check]
    refine (Expr.check_extends g false l).bind fun l' hl => ?_
    have hnode : ∀ t, (Expr.arrayAlloc (n.typed t) elem l').settled = .arrayAlloc (n.typed t) elem l' := by
      intro t
      simp only [Expr.settled, hl]
      rfl
    split
    · exact extends_pure (hnode _)
    · cases hrule : Rules.length ⟨g, false⟩ l'.checkedTy with
      | ok w =>
        obtain ⟨hexact, rfl⟩ := Rules.length_exact hrule
        simp only [hexact, show [(l'.checkedTy, ([] : List Prim))] = Rules.unchanged [l'.checkedTy] from rfl,
          widen_unchanged, pure_bind]
        exact extends_pure (hnode _)
      | error e => exact extends_fail (fun t => hnode t) _ _ _
  | _, .index n a i => by
    simp only [Expr.check]
    refine (Expr.check_extends g false a).bind fun a' ha => ?_
    refine (Expr.check_extends g false i).bind fun i' hi => ?_
    have hnode : ∀ t, (Expr.index (n.typed t) a' i').settled = .index (n.typed t) a' i' := by
      intro t
      simp only [Expr.settled, ha, hi]
      rfl
    split
    · exact extends_pure (hnode _)
    · exact (extends_judge _ _).bind fun t _ => extends_pure (hnode t)
  | isStmt, .call n f es => by
    simp only [Expr.check]
    refine (Expr.check_extends g false f).bind fun f' hf => ?_
    refine (Expr.checkAll_extends g es).bind fun es' hes => ?_
    have hnode : ∀ t, (Expr.call (n.typed t) f' es').settled = .call (n.typed t) f' es' := by
      intro t
      simp only [Expr.settled, hf, hes]
      rfl
    split
    · exact extends_pure (hnode _)
    · cases hrule : Rules.call ⟨g, false⟩ f'.checkedTy (es'.map Expr.checkedTy) with
      | ok found =>
        obtain ⟨t, ws⟩ := found
        obtain ⟨hexact, hws⟩ := Rules.call_exact hrule
        dsimp only at hws
        simp only [hexact, hws, widen_unchanged, pure_bind]
        split
        · exact extends_fail (fun t => hnode t) _ _ _
        · exact extends_pure (hnode _)
      | error e => exact extends_fail (fun t => hnode t) _ _ _
  | _, .lambda n h b => by
    simp only [Expr.check]
    refine (Extends.inFunc h ((Stmt.checkAll_extends g (some h.result) false b).inBlock.inBody
      n.place)).bind fun found hb => ?_
    obtain ⟨h', b'⟩ := found
    exact extends_pure (by simp only [Expr.settled, hb]; rfl)

theorem Expr.checkAll_extends (g : Registry) : ∀ es : List Expr,
    Extends (Expr.checkAll ⟨g, false⟩ es) (Expr.checkAll ⟨g, true⟩ es) fun es => Expr.settledAll es = es
  | [] => by
    simp only [Expr.checkAll]
    exact extends_pure (by simp only [Expr.settledAll])
  | e :: es => by
    simp only [Expr.checkAll]
    refine (Expr.check_extends g false e).bind fun e' he => ?_
    refine (Expr.checkAll_extends g es).bind fun es' hes => extends_pure ?_
    simp only [Expr.settledAll, he, hes]

theorem PrintItem.checkAll_extends (g : Registry) : ∀ is : List PrintItem,
    Extends (PrintItem.checkAll ⟨g, false⟩ is) (PrintItem.checkAll ⟨g, true⟩ is)
      fun is => PrintItem.settledAll is = is
  | [] => by
    simp only [PrintItem.checkAll]
    exact extends_pure (by simp only [PrintItem.settledAll])
  | .separator p k :: is => by
    simp only [PrintItem.checkAll]
    refine (PrintItem.checkAll_extends g is).bind fun is' his => extends_pure ?_
    simp only [PrintItem.settledAll, his]
  | .value e :: is => by
    simp only [PrintItem.checkAll]
    refine (Expr.check_extends g false e).bind fun e' he => ?_
    refine (PrintItem.checkAll_extends g is).bind fun is' his => extends_pure ?_
    simp only [PrintItem.settledAll, he, his]

theorem Stmt.check_extends (g : Registry) (result : Option Ty) : ∀ s : Stmt,
    Extends (s.check ⟨g, false⟩ result) (s.check ⟨g, true⟩ result) fun s => s.settled = s
  | .varDecl n x isConst e _ => by
    simp only [Stmt.check]
    refine (Expr.check_extends g false e).bind fun e' he => extends_get.bind fun st _ => ?_
    have hrest : Extends (declaration n x isConst e') (declaration n x isConst e')
        fun s => s.settled = s := by
      refine (extends_declare _ _ _).bind fun found _ => ?_
      cases found with
      | ok b => exact extends_get.bind fun st _ => extends_pure (by simp only [Stmt.settled, he])
      | error err => exact extends_fail (fun t => by simp only [Stmt.settled, he]) _ _ _
    split
    · exact (extends_warn _ _ _).bind fun _ _ => hrest
    · exact hrest
  | .assign n t v => by
    simp only [Stmt.check]
    refine (Expr.check_extends g false v).bind fun v' hv => ?_
    refine (Expr.check_extends g false t).bind fun t' ht => ?_
    split
    · exact extends_pure (by simp only [Stmt.settled, ht, hv])
    · exact (extends_judge _ _).bind fun _ _ => extends_pure (by simp only [Stmt.settled, ht, hv])
  | .print n is => by
    simp only [Stmt.check]
    exact (PrintItem.checkAll_extends g is).bind fun is' his =>
      extends_pure (by simp only [Stmt.settled, his])
  | .call n c => by
    simp only [Stmt.check]
    exact (Expr.check_extends g true c).bind fun c' hc => extends_pure (by simp only [Stmt.settled, hc])
  | .give n v => by
    simp only [Stmt.check]
    refine (Expr.check_extends g false v).bind fun v' hv => ?_
    have hnode : ∀ m, (Stmt.give m v').settled = .give m v' := by
      intro m
      simp only [Stmt.settled, hv]
    cases result with
    | none => exact extends_fail (fun t => hnode (n.typed t)) _ _ _
    | some t =>
      dsimp only
      split
      · exact (extends_returned _ _).bind fun m _ => extends_pure (hnode m)
      · exact (extends_judge _ _).bind fun _ _ => (extends_returned _ _).bind fun m _ =>
          extends_pure (hnode m)
  | .leave n => by
    simp only [Stmt.check]
    have hnode : ∀ m, (Stmt.leave m).settled = .leave m := fun m => by simp only [Stmt.settled]
    cases result with
    | none => exact extends_fail (fun t => hnode (n.typed t)) _ _ _
    | some t =>
      dsimp only
      split
      · exact (extends_returned _ _).bind fun m _ => extends_pure (hnode m)
      · exact (extends_judge _ (.error .returnWithoutValue)).bind fun _ _ =>
          (extends_returned _ _).bind fun m _ => extends_pure (hnode m)
  | .ifThen n c b | .while n c b => by
    simp only [Stmt.check]
    refine (Expr.check_extends g false c).bind fun c' hc => (Expr.extends_asCond hc).bind fun c'' hc' => ?_
    refine (Stmt.checkAll_extends g result false b).inBlock.bind fun b' hb => extends_pure ?_
    simp only [Stmt.settled, hc', hb]
  | .ifElse n c b a => by
    simp only [Stmt.check]
    refine (Expr.check_extends g false c).bind fun c' hc => (Expr.extends_asCond hc).bind fun c'' hc' => ?_
    refine (Stmt.checkAll_extends g result false b).inBlock.bind fun b' hb => ?_
    refine (Stmt.check_extends g result a).bind fun a' ha => extends_pure ?_
    simp only [Stmt.settled, hc', hb, ha]
  | .block n b => by
    simp only [Stmt.check]
    refine (Stmt.checkAll_extends g result false b).inBlock.bind fun b' hb => extends_pure ?_
    simp only [Stmt.settled, hb]

theorem Stmt.checkAll_extends (g : Registry) (result : Option Ty) : ∀ (returned : Bool) (ss : List Stmt),
    Extends (Stmt.checkAll ⟨g, false⟩ result returned ss) (Stmt.checkAll ⟨g, true⟩ result returned ss)
      fun ss => Stmt.settledAll ss = ss
  | _, [] => by
    simp only [Stmt.checkAll]
    exact extends_pure (by simp only [Stmt.settledAll])
  | returned, s :: ss => by
    have hrest := (Stmt.check_extends g result s).bind fun s' hs =>
      (Stmt.checkAll_extends g result s.isReturn ss).bind fun ss' hss =>
        extends_pure (a := s' :: ss') (Q := fun ss => Stmt.settledAll ss = ss)
          (by simp only [Stmt.settledAll, hs, hss])
    simp only [Stmt.checkAll]
    split
    · exact (extends_warn _ _ _).bind fun _ _ => hrest
    · exact hrest

end

/-! ## Programs -/

lemma Func.declareAll_extends : ∀ fs : List Func,
    Extends (Func.declareAll fs) (Func.declareAll fs) fun _ => True
  | [] => extends_pure trivial
  | f :: fs => by
    unfold Func.declareAll
    have htail : Extends (Func.declareAll fs) (Func.declareAll fs) fun _ => True :=
      Func.declareAll_extends fs
    refine (extends_declare _ _ _).bind fun found _ => ?_
    cases found with
    | ok b => exact extends_get.bind fun st _ => htail.bind fun fs' _ => extends_pure trivial
    | error e =>
      exact (extends_judge _ (.error e)).bind fun _ _ => htail.bind fun fs' _ => extends_pure trivial

/-- No conversion is noted in the body of a subroutine. -/
def Func.Unnoted (f : Func) : Prop := Stmt.settledAll f.body = f.body

lemma Func.check_extends (g : Registry) (f : Func) :
    Extends (f.check ⟨g, false⟩) (f.check ⟨g, true⟩) Func.Unnoted :=
  (Extends.inFunc f.head ((Stmt.checkAll_extends g _ false f.body).inBlock.inBody f.note.place)).bind
    fun _ hbody => extends_pure hbody

lemma Func.mapM_check_extends (g : Registry) : ∀ fs : List Func,
    Extends (fs.mapM (Func.check ⟨g, false⟩)) (fs.mapM (Func.check ⟨g, true⟩))
      fun fs => ∀ f ∈ fs, f.Unnoted
  | [] => extends_pure (by simp)
  | f :: fs => by
    rw [List.mapM_cons, List.mapM_cons]
    refine (Func.check_extends g f).bind fun f' hf => ?_
    exact (Func.mapM_check_extends g fs).bind fun fs' hfs => extends_pure (by simpa using ⟨hf, hfs⟩)

lemma Program.settled_eq_self {p : Program} (hfuncs : ∀ f ∈ p.funcs, f.Unnoted)
    (hmain : Stmt.settledAll p.main = p.main) : p.settled = p := by
  have hmap : (p.funcs.map fun f => { f with body := Stmt.settledAll f.body }) = p.funcs := by
    refine (List.map_congr_left fun f hf => ?_).trans (List.map_id _)
    show { f with body := Stmt.settledAll f.body } = f
    rw [hfuncs f hf]
  rw [Program.settled, hmap, hmain]

lemma Program.checkAll_extends (g : Registry) (p : Program) :
    Extends (p.checkAll ⟨g, false⟩) (p.checkAll ⟨g, true⟩) fun p => p.settled = p := by
  refine (Func.declareAll_extends p.funcs).bind fun fs _ => ?_
  refine (Func.mapM_check_extends g fs).bind fun fs' hfs => ?_
  refine (Stmt.checkAll_extends g none false p.main).inBlock.bind fun main hmain => ?_
  exact extends_get.bind fun st _ => extends_pure (Program.settled_eq_self hfs hmain)

/-! ### Code -/

variable {s s' : Settings}

lemma Lower.drain_congr (h : s.feature .implicitVoidReturn = s'.feature .implicitVoidReturn)
    (fuel : Nat) : Lower.drain s fuel = Lower.drain s' fuel := by
  induction fuel with
  | zero => rfl
  | succ fuel ih => simp only [Lower.drain, PendingFunc.lower, h, ih]

/-- Only two of the features matter to the code of a checked program. -/
lemma Program.lower_congr (h : s.feature .implicitVoidReturn = s'.feature .implicitVoidReturn)
    (h' : s.feature .stringDedup = s'.feature .stringDedup) (p : Program) : p.lower s = p.lower s' := by
  simp only [Program.lower, Program.lowerAll, Lower.drain_congr h, h']

open Registry (standard)

/-- **Widening is a conservative extension.** A program that is accepted with widening switched off is
checked in the same way with widening switched on: the trees, with all types, bindings and signatures,
and the reports are the same. No conversion is pending, no cast is inserted, and the code is the same. -/
theorem Program.check_promotion (s : Settings) (p : Program) (report : Report)
    (h : (p.check (s.setFeature .promotion false).rules report).2.errorCount = report.errorCount) :
    let off := p.check (s.setFeature .promotion false).rules report
    let on := p.check (s.setFeature .promotion true).rules report
    on = off ∧ on.1.pending = [] ∧ on.1.applyWidening standard = on.1 ∧
      (on.1.applyWidening standard).lower (s.setFeature .promotion true) =
        (off.1.applyWidening standard).lower (s.setFeature .promotion false) := by
  intro off on
  have hextends := Program.checkAll_extends standard p
  have hrun := hextends.agrees { table := .program, scope := 0, report } h
  have hon : on = off := congrArg (fun found : Program × CheckState => (found.1, found.2.report)) hrun
  have hsettled : off.1.settled = off.1 := hextends.gives _
  refine ⟨hon, ?_, ?_, ?_⟩
  · rw [hon, ← hsettled, Program.pending_settled]
  · rw [hon, ← hsettled, Program.applyWidening_settled]
  · rw [hon]
    refine Program.lower_congr ?_ ?_ _ <;> rfl

/-- A source with operands, elements, a length and arguments that fit as they are. -/
def exactSource : List Char :=
  "subr int f(int n) { return n + 1; } main { var a := new [int](f([1, 2][0])); }".toList

theorem Program.check_promotion_exactSource :
    let p := (Program.parse (scan exactSource).tokens {} true).1
    let off := p.check (Settings.standard.setFeature .promotion false).rules {}
    let on := p.check (Settings.standard.setFeature .promotion true).rules {}
    off.2.errorCount = 0 ∧ off.1.funcs.length = 1 ∧ on = off ∧ on.1.pending = [] ∧
      on.1.applyWidening standard = on.1 ∧
      (on.1.applyWidening standard).lower (Settings.standard.setFeature .promotion true) =
        (off.1.applyWidening standard).lower (Settings.standard.setFeature .promotion false) := by
  delta exactSource
  rw [String.toList_ofList]
  intro p off on
  have haccepted : off.2.errorCount = 0 ∧ off.1.funcs.length = 1 := by
    decide +kernel
  exact ⟨haccepted.1, haccepted.2, Program.check_promotion .standard p {} haccepted.1⟩

end SubrLang
