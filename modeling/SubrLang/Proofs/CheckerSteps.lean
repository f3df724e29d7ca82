import SubrLang.Proofs.SymbolTables

/-!
# The steps of the checker

Checking goes on after an error, so what a part of the checker does is said of all its runs, with more if
there is no error in the end.

* **`Check.Passing`.** Nothing that was in the table changes; so it is with expressions.
* **`Check.Moving`.** Only the open scope and its allocator change; so it is with statements.
* **`Check.Accepts x st a st'`.** From a state and whatever was reported, a check gives a result and comes to
  another state, and adds no error.

The first two say that the report has errors afterwards if it had some before, and what holds of the result
and of the state behind it if it has none. All three go through a check one bind at a time.
-/

namespace SubrLang

namespace Report

@[simp] lemma errorCount_error (r : Report) (p : Place) (m : String) :
    (r.error p m).errorCount = r.errorCount + 1 := by
  simp [errorCount, error]

@[simp] lemma errorCount_warn (r : Report) (w : Option Warning) (p : Place) (m : String) :
    (r.warn w p m).errorCount = r.errorCount := by
  unfold warn
  split
  · simp [errorCount]
  · rfl

end Report

namespace CheckState

/-- The context of the open scope. -/
def ctx (st : CheckState) : Ctx := st.table.ctx st.scope

/-- Whether no error was reported. -/
def isClean (st : CheckState) : Prop := st.report.errorCount = 0

/-- Whether the state is one that checking can be in. -/
structure Ok (st : CheckState) : Prop where
  good : st.table.Good
  scope_lt : st.scope < st.table.scopes.size

/-- Nothing in the table was changed, and if there is no error then there was none before and `P` holds. -/
structure Passes (st st' : CheckState) (P : Prop) : Prop where
  ok : st'.Ok
  scope_eq : st'.scope = st.scope
  ext : st.table.Extends st'.table
  clean : st'.isClean → st.isClean ∧ P

/-- Only the open scope was changed, and if there is no error then there was none before and `P` holds. -/
structure Moves (st st' : CheckState) (P : Prop) : Prop where
  ok : st'.Ok
  scope_eq : st'.scope = st.scope
  grows : st.table.GrowsAt st.scope st'.table
  clean : st'.isClean → st.isClean ∧ P

variable {st st' st'' : CheckState} {P Q : Prop}

lemma Passes.refl (hst : st.Ok) (hP : P) : st.Passes st P :=
  ⟨hst, rfl, .refl _, fun h => ⟨h, hP⟩⟩

lemma Passes.trans (h : st.Passes st' P) (h' : st'.Passes st'' Q) : st.Passes st'' (P ∧ Q) where
  ok := h'.ok
  scope_eq := h'.scope_eq.trans h.scope_eq
  ext := h.ext.trans h'.ext
  clean hc := by
    obtain ⟨hc', hQ⟩ := h'.clean hc
    obtain ⟨hc'', hP⟩ := h.clean hc'
    exact ⟨hc'', hP, hQ⟩

lemma Passes.imp (h : st.Passes st' P) (hPQ : st.isClean → P → Q) : st.Passes st' Q :=
  ⟨h.ok, h.scope_eq, h.ext, fun hc => ⟨(h.clean hc).1, hPQ (h.clean hc).1 (h.clean hc).2⟩⟩

lemma Passes.ctx_eq (h : st.Passes st' P) (hst : st.Ok) : st'.ctx = st.ctx := by
  rw [ctx, ctx, h.scope_eq, h.ext.ctx_eq hst.good hst.scope_lt]

lemma Passes.moves (h : st.Passes st' P) (hst : st.Ok) : st.Moves st' P :=
  ⟨h.ok, h.scope_eq, h.ext.growsAt hst.good hst.scope_lt, h.clean⟩

lemma Moves.trans (h : st.Moves st' P) (h' : st'.Moves st'' Q) : st.Moves st'' (P ∧ Q) where
  ok := h'.ok
  scope_eq := h'.scope_eq.trans h.scope_eq
  grows := h.grows.trans (h.scope_eq ▸ h'.grows)
  clean hc := by
    obtain ⟨hc', hQ⟩ := h'.clean hc
    obtain ⟨hc'', hP⟩ := h.clean hc'
    exact ⟨hc'', hP, hQ⟩

lemma Moves.imp (h : st.Moves st' P) (hPQ : st.isClean → P → Q) : st.Moves st' Q :=
  ⟨h.ok, h.scope_eq, h.grows, fun hc => ⟨(h.clean hc).1, hPQ (h.clean hc).1 (h.clean hc).2⟩⟩

/-- Whether the state is one that checking can be in, in a context where names stand for values if there is
no error. -/
structure Ready (st : CheckState) (Γ : Ctx) : Prop extends st.Ok where
  ctx_eq : st.ctx = Γ
  values : st.isClean → Γ.allValues

lemma Passes.ready {Γ : Ctx} (h : st.Passes st' P) (hst : st.Ready Γ) : st'.Ready Γ :=
  ⟨h.ok, (h.ctx_eq hst.toOk).trans hst.ctx_eq, fun hc => hst.values (h.clean hc).1⟩

end CheckState

lemma Widening.attach_unchanged : ∀ (es : List Expr) (ts : List Ty),
    Widening.attach es (Rules.unchanged ts) = es
  | [], _ | _ :: _, [] => by simp [Widening.attach, Rules.unchanged]
  | e :: es, t :: ts => congrArg (e :: ·) (Widening.attach_unchanged es ts)

/-- A parameter as it is written. -/
def Param.bare (p : Param) : Param := { p with ty := none, binding := none }

/-! ## The steps of the checker -/

namespace Check

open CheckState

variable {α β : Type} {st : CheckState}

lemma run_bind (x : Check α) (f : α → Check β) (st : CheckState) :
    (x >>= f).run st = (f (x.run st).1).run (x.run st).2 := rfl

lemma run_pure (a : α) (st : CheckState) : (pure a : Check α).run st = (a, st) := rfl

lemma run_get (st : CheckState) : (get : Check CheckState).run st = (st, st) := rfl

lemma run_modify (f : CheckState → CheckState) (st : CheckState) :
    (modify f : Check Unit).run st = ((), f st) := rfl

lemma run_fail (p : Place) (e : TypeError) (st : CheckState) :
    (fail p e).run st = (.error, { st with report := st.report.error p e.message }) := rfl

lemma run_warn (w : Warning) (p : Place) (m : String) (st : CheckState) :
    (warn w p m).run st = ((), { st with report := st.report.warn (some w) p m }) := rfl

/-- After an error nothing is claimed any more. -/
lemma passes_fail (hst : st.Ok) (p : Place) (e : TypeError) (P : Prop) :
    st.Passes ((fail p e).run st).2 P where
  ok := ⟨hst.good, hst.scope_lt⟩
  scope_eq := rfl
  ext := .refl _
  clean h := by
    rw [run_fail] at h
    simp [isClean] at h

/-- What was reported changes nothing else. -/
lemma passes_report (hst : st.Ok) {report : Report}
    (h : report.errorCount = st.report.errorCount) : st.Passes { st with report } True where
  ok := ⟨hst.good, hst.scope_lt⟩
  scope_eq := rfl
  ext := .refl _
  clean hc := ⟨h.symm.trans hc, trivial⟩

/-- What goes on after a warning goes on as it would without it. -/
lemma run_warnIf (c : Bool) (w : Warning) (p : Place) (m : String) (x : Check α) (st : CheckState) :
    ∃ report : Report, report.errorCount = st.report.errorCount ∧
      (if c then (do warn w p m; x) else x).run st = x.run { st with report } := by
  cases c with
  | true => exact ⟨_, Report.errorCount_warn .., rfl⟩
  | false => exact ⟨st.report, rfl, rfl⟩

/-- Noting conversions changes only the report, and adds no error to it. -/
lemma run_widen : ∀ (es : List Expr) (ws : List Widened) (st : CheckState), ∃ report : Report,
    report.errorCount = st.report.errorCount ∧
      (widen es ws).run st = (Widening.attach es ws, { st with report })
  | [], ws, st => ⟨st.report, rfl, by cases ws <;> rfl⟩
  | e :: es, [], st => ⟨st.report, rfl, rfl⟩
  | e :: es, (t, chain) :: ws, st => by
    by_cases hchain : chain.isEmpty
    · obtain ⟨report, hcount, hrun⟩ := run_widen es ws st
      refine ⟨report, hcount, ?_⟩
      simp only [widen, hchain, if_true, run_bind, run_pure, Widening.attach, hrun]
    · obtain ⟨report, hcount, hrun⟩ := run_widen es ws ((warn .promotion e.note.place
        s!"implicit conversion from {(e.ty?.getD .error).text} to {t.text}").run st).2
      refine ⟨report, hcount.trans (by simp [run_warn]), ?_⟩
      simp only [widen, hchain, run_bind, run_pure, Widening.attach, hrun, if_false,
        Bool.false_eq_true]
      rfl

/-! ### Following a check -/

/-- A check passes from a state, and `P` is what holds of its result and the state behind it. -/
def Passing (x : Check α) (st : CheckState) (P : α → CheckState → Prop) : Prop :=
  st.Passes (x.run st).2 (P (x.run st).1 (x.run st).2)

/-- A check moves from a state, and `P` is what holds of its result and the state behind it. -/
def Moving (x : Check α) (st : CheckState) (P : α → CheckState → Prop) : Prop :=
  st.Moves (x.run st).2 (P (x.run st).1 (x.run st).2)

section Following

variable {x : Check α} {f : α → Check β} {a : α} {P : α → CheckState → Prop} {Q : β → CheckState → Prop}

lemma Passing.bind (hx : Passing x st P)
    (hf : ∀ a st₁, st.Passes st₁ (P a st₁) → Passing (f a) st₁ Q) : Passing (x >>= f) st Q :=
  (Passes.trans hx (hf _ _ hx)).imp fun _ h => h.2

lemma Passing.bind_moving (hst : st.Ok) (hx : Passing x st P)
    (hf : ∀ a st₁, st.Passes st₁ (P a st₁) → Moving (f a) st₁ Q) : Moving (x >>= f) st Q :=
  (Moves.trans (Passes.moves hx hst) (hf _ _ hx)).imp fun _ h => h.2

lemma Moving.bind (hx : Moving x st P)
    (hf : ∀ a st₁, st.Moves st₁ (P a st₁) → Moving (f a) st₁ Q) : Moving (x >>= f) st Q :=
  (Moves.trans hx (hf _ _ hx)).imp fun _ h => h.2

/-- A check that changes nothing in the table keeps the context. -/
lemma Passing.moving (hst : st.Ok) (hx : Passing x st fun a st' => st'.ctx = st.ctx → P a st') :
    Moving x st P :=
  (Passes.imp hx fun _ h => h (Passes.ctx_eq hx hst)).moves hst

lemma passing_pure (hst : st.Ok) (h : st.isClean → P a st) : Passing (pure a) st P :=
  ⟨hst, rfl, .refl _, fun hc => ⟨hc, h hc⟩⟩

lemma passing_get {f : CheckState → Check β} (h : Passing (f st) st Q) : Passing (get >>= f) st Q := h

lemma Passing.then_pure {g : α → β} (hx : Passing x st P)
    (hg : ∀ a st₁, st.isClean → P a st₁ → Q (g a) st₁) : Passing (x >>= fun a => pure (g a)) st Q :=
  Passes.imp hx (hg _ _)

lemma Moving.then_pure {g : α → β} (hx : Moving x st P)
    (hg : ∀ a st₁, st.isClean → P a st₁ → Q (g a) st₁) : Moving (x >>= fun a => pure (g a)) st Q :=
  Moves.imp hx (hg _ _)

/-- After an error nothing is claimed any more. -/
lemma passing_fail (hst : st.Ok) {p : Place} {e : TypeError} {g : Ty → α} :
    Passing (fail p e >>= fun t => pure (g t)) st P :=
  passes_fail hst p e _

lemma passing_judge (hst : st.Ok) (p : Place) (rule : Except TypeError Ty) :
    Passing (judge p rule) st fun t st' => rule = .ok t ∧ st' = st := by
  cases rule with
  | ok t => exact passing_pure hst fun _ => ⟨rfl, rfl⟩
  | error e => exact passes_fail hst p e _

/-- What is not said about faulty parts does not matter, since there are none without an error. -/
lemma passing_unless {c : Prop} [Decidable c] (hst : st.Ok) (hc : st.isClean → ¬ c)
    (hx : Passing x st P) : Passing (if c then pure a else x) st P := by
  split
  · next h => exact passing_pure hst fun hclean => absurd h (hc hclean)
  · exact hx

lemma passing_widen (hst : st.Ok) (es : List Expr) (ws : List Widened) :
    Passing (widen es ws) st fun es' st' =>
      es' = Widening.attach es ws ∧ ∃ report, st' = { st with report } := by
  obtain ⟨report, hcount, hrun⟩ := run_widen es ws st
  rw [Passing, hrun]
  exact (passes_report hst hcount).imp fun _ _ => ⟨rfl, report, rfl⟩

/-- What follows a warning starts with another report. -/
lemma moving_warnIf (hst : st.Ok) (c : Bool) (w : Warning) (p : Place) (m : String)
    (hx : ∀ report, st.Passes { st with report } True → Moving x { st with report } P) :
    Moving (if c then (do warn w p m; x) else x) st P := by
  obtain ⟨report, hcount, hrun⟩ := run_warnIf c w p m x st
  have hwarn := passes_report hst hcount
  rw [Moving, hrun]
  exact (Moves.trans (hwarn.moves hst) (hx report hwarn)).imp fun _ h => h.2

end Following

/-! ### Acceptance -/

section Acceptance

variable {st₁ st₂ : CheckState} {a : α} {b : β}

/-- From a state, whatever was reported, a check gives a result and comes to another state, and adds no
error. -/
def Accepts (x : Check α) (st : CheckState) (a : α) (st' : CheckState) : Prop :=
  ∀ report, ∃ report' : Report, report'.errorCount = report.errorCount ∧
    x.run { st with report } = (a, { st' with report := report' })

lemma accepts_pure : Accepts (pure a) st a st :=
  fun report => ⟨report, rfl, rfl⟩

lemma Accepts.bind {x : Check α} {f : α → Check β} (hx : Accepts x st a st₁)
    (hf : Accepts (f a) st₁ b st₂) : Accepts (x >>= f) st b st₂ := by
  intro report
  obtain ⟨report₁, hcount₁, hrun₁⟩ := hx report
  obtain ⟨report₂, hcount₂, hrun₂⟩ := hf report₁
  refine ⟨report₂, hcount₂.trans hcount₁, ?_⟩
  rw [run_bind, hrun₁, hrun₂]

lemma Accepts.then_pure {x : Check α} (hx : Accepts x st a st₁) (f : α → β) :
    Accepts (x >>= fun a => pure (f a)) st (f a) st₁ :=
  hx.bind accepts_pure

/-- What is read from a state is known up to its report. -/
lemma accepts_get {f : CheckState → Check α}
    (h : ∀ report, Accepts (f { st with report }) st a st₁) : Accepts (get >>= f) st a st₁ :=
  fun report => h report report

lemma accepts_warnIf {x : Check α} (c : Bool) (w : Warning) (p : Place) (m : String)
    (hx : Accepts x st a st₁) : Accepts (if c then (do warn w p m; x) else x) st a st₁ := by
  intro report
  obtain ⟨report₁, hcount₁, hrun₁⟩ := run_warnIf c w p m x { st with report }
  obtain ⟨report₂, hcount₂, hrun₂⟩ := hx report₁
  exact ⟨report₂, hcount₂.trans hcount₁, hrun₁.trans hrun₂⟩

/-- Operands that are taken as they are stay as they are. -/
lemma accepts_widen (es : List Expr) (ts : List Ty) (st : CheckState) :
    Accepts (widen es (Rules.unchanged ts)) st es st := by
  intro report
  obtain ⟨report', hcount, hrun⟩ := run_widen es (Rules.unchanged ts) { st with report }
  rw [Widening.attach_unchanged] at hrun
  exact ⟨report', hcount, hrun⟩

end Acceptance

/-! ### Blocks -/

/-- At the start of a block. -/
def atBlock (st : CheckState) : CheckState :=
  { st with table := st.table.entered st.scope, scope := st.table.scopes.size }

/-- Behind a block in the scope `outer`. -/
def afterBlock (outer : Nat) (st : CheckState) : CheckState :=
  match st.table.leave st.scope with
  | .ok (table, _) => { st with table, scope := outer }
  | .error _ => { st with scope := outer }

lemma run_inBlock (x : Check α) (st : CheckState) : (inBlock x).run st =
    ((x.run (atBlock st)).1, afterBlock st.scope (x.run (atBlock st)).2) := rfl

lemma run_inBody (p : Place) (x : Check α) (st : CheckState) : (inBody p x).run st =
    ((x.run { st with subroutine := some p }).1,
      { (x.run { st with subroutine := some p }).2 with subroutine := st.subroutine }) := rfl

lemma ok_atBlock (hst : st.Ok) : (atBlock st).Ok :=
  ⟨SymbolTable.good_entered hst.good hst.scope_lt, by simp [atBlock]⟩

lemma ctx_atBlock (hst : st.Ok) : (atBlock st).ctx = st.ctx.enter :=
  SymbolTable.ctx_entered hst.good hst.scope_lt

/-- A check inside a block of its own moves from the context of the block to one behind it. -/
lemma moving_inBlock {x : Check α} (hst : st.Ok) {P : α → CheckState → Prop}
    (hx : Moving x (atBlock st) P) :
    Moving (inBlock x) st fun a st' =>
      ∃ st₂, P a st₂ ∧ st'.ctx = st.ctx.leave st₂.ctx ∧ st' = afterBlock st.scope st₂ := by
  rw [Moving] at hx ⊢
  rw [run_inBlock]
  rcases hrun : x.run (atBlock st) with ⟨a, st₂⟩
  rw [hrun] at hx
  have hgrow : (st.table.entered st.scope).GrowsAt st.table.scopes.size st₂.table := hx.grows
  obtain ⟨t, o, hleave, hgood, hgrows, hctx⟩ :=
    SymbolTable.leave_spec hst.good hst.scope_lt hgrow hx.ok.good
  have hscope : st₂.scope = st.table.scopes.size := hx.scope_eq
  have hafter : afterBlock st.scope st₂ = { st₂ with table := t, scope := st.scope } := by
    simp only [afterBlock, hscope, hleave]
  refine hafter ▸ {
    ok := ⟨hgood, hst.scope_lt.trans_le hgrows.scopes_le⟩
    scope_eq := rfl
    grows := hgrows
    clean := fun hc => ?_ }
  obtain ⟨hc', hP⟩ := hx.clean hc
  refine ⟨hc', st₂, hP, ?_, hafter.symm⟩
  rw [ctx, hctx, ctx, ctx, hscope]

lemma accepts_inBlock {x : Check α} {a : α} {st₂ : CheckState} (hx : Accepts x (atBlock st) a st₂) :
    Accepts (inBlock x) st a (afterBlock st.scope st₂) := by
  intro report
  obtain ⟨report', hcount, hrun⟩ := hx report
  refine ⟨report', hcount, ?_⟩
  have hstart : atBlock { st with report } = { atBlock st with report } := rfl
  rw [run_inBlock, hstart, hrun]
  simp only [afterBlock]
  cases st₂.table.leave st₂.scope <;> rfl

lemma moving_inBody {p : Place} {x : Check α} {P : α → CheckState → Prop}
    (hx : Moving x { st with subroutine := some p } P) :
    Moving (inBody p x) st fun a st' => ∃ st₂, P a st₂ ∧ st' = { st₂ with subroutine := st.subroutine } := by
  rw [Moving] at hx ⊢
  rw [run_inBody]
  exact ⟨⟨hx.ok.good, hx.ok.scope_lt⟩, hx.scope_eq, hx.grows, fun hc =>
    ⟨(hx.clean hc).1, _, (hx.clean hc).2, rfl⟩⟩

lemma accepts_inBody {p : Place} {x : Check α} {a : α} {st₂ : CheckState}
    (hx : Accepts x { st with subroutine := some p } a st₂) : Accepts (inBody p x) st a { st₂ with subroutine := st.subroutine } := by
  intro report
  obtain ⟨report', hcount, hrun⟩ := hx report
  refine ⟨report', hcount, ?_⟩
  rw [run_inBody, hrun]

/-- A return statement belongs to the same subroutine again. -/
lemma accepts_returned (n : Note) (t : Ty) (st : CheckState) :
    Accepts (returned n t) st { n.typed t with subroutine := st.subroutine } st :=
  fun report => ⟨report, rfl, rfl⟩

/-! ### Subroutines -/

lemma run_declare (x : String) (t : Ty) (m : Bool) (st : CheckState) :
    (declare x t m).run st =
      match st.table.lookupLocal st.scope x with
      | none => (.ok st.table.bindings.size, { st with table := st.table.declared st.scope x t m })
      | some _ => (.error (.alreadyDefined x), st) := by
  cases hx : st.table.lookupLocal st.scope x with
  | none =>
    simp only [declare, run_bind, run_get, SymbolTable.declare_eq hx]
    rfl
  | some b =>
    have hd : st.table.declare st.scope x t m = .error (.defined x b) := by
      simp [SymbolTable.declare, hx]
    simp only [declare, run_bind, run_get, hd]
    rfl

lemma moves_declared (hst : st.Ok) (x : String) (t : Ty) (m : Bool) :
    st.Moves { st with table := st.table.declared st.scope x t m }
      (ctx { st with table := st.table.declared st.scope x t m } = st.ctx.declare x t m) where
  ok := ⟨SymbolTable.good_declared x t m hst.good hst.scope_lt, by simpa using hst.scope_lt⟩
  scope_eq := rfl
  grows := SymbolTable.growsAt_declared x t m hst.good hst.scope_lt
  clean hc := ⟨hc, SymbolTable.ctx_declared x t m hst.good hst.scope_lt⟩

/-- What declaring parameters does, whether or not there are errors. -/
structure ParamsRun (st st' : CheckState) : Prop where
  ok : st'.Ok
  scope_eq : st'.scope = st.scope
  grows : st.table.GrowsAt st.scope st'.table
  new : ∀ n ∈ (st'.table.allocator st.scope).params,
    n ∈ (st.table.allocator st.scope).params ∨ st.table.bindings.size ≤ n

/-- What declaring parameters does if there is no error. -/
structure ParamsClean (ps : List Param) (st : CheckState) (qs : List (Param × Option Nat))
    (st' : CheckState) : Prop where
  clean : st.isClean
  value : ∀ p ∈ ps, p.declared.isVoid = false
  distinct : (ps.map (·.name)).Nodup
  free : ∀ p ∈ ps, st.table.lookupLocal st.scope p.name = none
  table : st'.table = st.table.declaredParams st.scope ps
  params : qs = List.zipWith (fun p i => ({ p with ty := some p.declared, binding := none }, some i)) ps
    (List.range' st.table.bindings.size ps.length)

lemma lookupLocal_declared {t : SymbolTable} {s : Nat} (hs : s < t.scopes.size) (x : String) (ty : Ty)
    (m : Bool) (y : String) : (t.declared s x ty m).lookupLocal s y =
      if y == x then some t.bindings.size else t.lookupLocal s y := by
  rw [SymbolTable.lookupLocal, SymbolTable.scope_declared_self x ty m hs, List.lookup_cons]
  rcases y == x <;> rfl

lemma mem_params_allocatorAfter {t : SymbolTable} {s n : Nat} {ty : Ty}
    (h : n ∈ (t.allocatorAfter s ty).params) :
    n ∈ (t.allocator s).params ∨ t.bindings.size ≤ n := by
  simp only [SymbolTable.allocatorAfter] at h
  split at h
  · simp only [List.mem_append, List.mem_singleton] at h
    rcases h with h | rfl
    · exact .inl h
    · exact .inr le_rfl
  · exact .inl h

/-- Declaring one more parameter without an error. -/
lemma paramsRun_declared (hst : st.Ok) (x : String) (ty : Ty) (m : Bool) :
    ParamsRun st { st with table := st.table.declared st.scope x ty m } where
  ok := ⟨SymbolTable.good_declared x ty m hst.good hst.scope_lt, by simpa using hst.scope_lt⟩
  scope_eq := rfl
  grows := SymbolTable.growsAt_declared x ty m hst.good hst.scope_lt
  new n hn := by
    rw [SymbolTable.allocator_eq, SymbolTable.scope_declared_self x ty m hst.scope_lt,
      SymbolTable.alloc_declared_self x ty m hst.good hst.scope_lt] at hn
    exact mem_params_allocatorAfter hn

lemma ParamsRun.trans {st st' st'' : CheckState} (h : ParamsRun st st') (h' : ParamsRun st' st'') :
    ParamsRun st st'' where
  ok := h'.ok
  scope_eq := h'.scope_eq.trans h.scope_eq
  grows := h.grows.trans (h.scope_eq ▸ h'.grows)
  new n hn := by
    have hn' := h'.new n (h.scope_eq ▸ hn)
    rw [h.scope_eq] at hn'
    rcases hn' with hn' | hn'
    · exact h.new n hn'
    · exact .inr (h.grows.bindings_le.trans hn')

lemma paramsRun_fail (hst : st.Ok) (p : Place) (e : TypeError) :
    ParamsRun st ((fail p e).run st).2 where
  ok := (passes_fail hst p e True).ok
  scope_eq := rfl
  grows := (SymbolTable.Extends.refl _).growsAt hst.good hst.scope_lt
  new _ hn := .inl hn

/-- Declares one parameter. -/
def declareParam (p : Param) : Check (Param × Option Nat) := do
  let done (t : Ty) (b : Option Nat) := ({ p with ty := some t, binding := none }, b)
  if p.declared.isVoid then do
    pure (done (← fail p.place (.voidParam p.name)) none)
  else
    match ← declare p.name p.declared true with
    | .ok b => pure (done p.declared (some b))
    | .error e => do pure (done (← fail p.place e) none)

lemma declareParams_cons (p : Param) (ps : List Param) :
    declareParams (p :: ps) = (do
      let q ← declareParam p
      return q :: (← declareParams ps)) := by
  simp only [declareParams, declareParam]
  split
  · simp only [bind_assoc, pure_bind]
  · simp only [bind_assoc]
    refine congrArg _ (funext fun b => ?_)
    cases b with
    | ok => simp only [pure_bind]
    | error => simp only [bind_assoc, pure_bind]

/-- What declaring one parameter does. -/
lemma declareParam_spec (p : Param) (hst : st.Ok) :
    ParamsRun st ((declareParam p).run st).2 ∧
      (((declareParam p).run st).2.isClean → st.isClean ∧ p.declared.isVoid = false ∧
        st.table.lookupLocal st.scope p.name = none ∧
        (declareParam p).run st =
          (({ p with ty := some p.declared, binding := none }, some st.table.bindings.size),
            { st with table := st.table.declared st.scope p.name p.declared true })) := by
  by_cases hvoid : p.declared.isVoid = true
  · simp only [declareParam, hvoid, if_true, run_bind, run_pure]
    exact ⟨paramsRun_fail hst _ _, fun hc => ((passes_fail hst _ _ False).clean hc).2.elim⟩
  · simp only [declareParam, hvoid, if_false, run_bind, run_declare, Bool.false_eq_true]
    cases hx : st.table.lookupLocal st.scope p.name with
    | none => exact ⟨paramsRun_declared hst _ _ _, fun hc => ⟨hc, by simp, rfl, rfl⟩⟩
    | some b =>
      exact ⟨paramsRun_fail hst _ _, fun hc => ((passes_fail hst _ _ False).clean hc).2.elim⟩

/-- What declaring a list of parameters does. -/
lemma declareParams_spec : ∀ (ps : List Param) {st : CheckState}, st.Ok →
    ParamsRun st ((declareParams ps).run st).2 ∧
      (((declareParams ps).run st).2.isClean →
        ParamsClean ps st ((declareParams ps).run st).1 ((declareParams ps).run st).2)
  | [], st, hst => by
    refine ⟨⟨hst, rfl, (SymbolTable.Extends.refl _).growsAt hst.good hst.scope_lt,
      fun n hn => .inl hn⟩, fun hc => ⟨hc, by simp, by simp, by simp, rfl, rfl⟩⟩
  | p :: ps, st, hst => by
    obtain ⟨hone, hclean⟩ := declareParam_spec p hst
    obtain ⟨hrest, hcleans⟩ := declareParams_spec ps hone.ok
    rw [declareParams_cons]
    simp only [run_bind, run_pure]
    refine ⟨hone.trans hrest, fun hc => ?_⟩
    have hps := hcleans hc
    obtain ⟨hc₀, hvalue, hfree, hrun⟩ := hclean hps.clean
    rw [hrun] at hps ⊢
    -- the names of the later parameters are free behind the first, so they differ from it
    have hlater : ∀ q ∈ ps, q.name ≠ p.name ∧ st.table.lookupLocal st.scope q.name = none := by
      intro q hq
      have hl := hps.free q hq
      rw [lookupLocal_declared hst.scope_lt] at hl
      split at hl
      · simp at hl
      · next hne => exact ⟨by simpa using hne, hl⟩
    exact {
      clean := hc₀
      value := by simpa using ⟨hvalue, hps.value⟩
      distinct := by
        rw [List.map_cons, List.nodup_cons]
        refine ⟨?_, hps.distinct⟩
        simp only [List.mem_map, not_exists, not_and]
        exact fun q hq => (hlater q hq).1
      free := by simpa using ⟨hfree, fun q hq => (hlater q hq).2⟩
      table := hps.table
      params := by
        rw [List.length_cons, List.range'_succ, List.zipWith_cons_cons]
        congr 1
        rw [hps.params]
        simp }

/-- At the parameters of a subroutine. -/
def atParams (st : CheckState) : CheckState :=
  { st with table := st.table.openedParams st.scope, scope := st.table.scopes.size }

/-- At the start of the body of a subroutine whose parameters are declared in the scope `params`. -/
def atBody (params : Nat) (st : CheckState) : CheckState :=
  { st with table := st.table.bodyTable params, scope := st.table.scopes.size }

/-- The head of a subroutine whose parameters and body were checked in the scopes `params` and `body`. -/
def headOf (h : FuncHead) (qs : List (Param × Option Nat)) (params body : Nat) (table : SymbolTable) :
    FuncHead :=
  { h with
    params := qs.map fun (p, b) => { p with binding := b.map table.binding }
    argSize := table.allocatedSize params
    frameSize := table.allocatedSize body }

lemma ok_atParams (hst : st.Ok) : (atParams st).Ok :=
  ⟨SymbolTable.good_openedParams hst.good hst.scope_lt,
    by simp [atParams, SymbolTable.openedParams, SymbolTable.openParams, SymbolTable.addScope]⟩

lemma region_params {st₂ : CheckState} (hparams : ParamsRun (atParams st) st₂) :
    (st₂.table.allocator st.table.scopes.size).region = .params := by
  have hregion := hparams.grows.region_at
  rw [atParams, SymbolTable.allocator_openedParams] at hregion
  exact hregion

/-- Checks a body in the scope that is open and completes the head of its subroutine, whose scopes are
`params` and `scope`. -/
def finishFunc (h : FuncHead) (qs : List (Param × Option Nat)) (outer params scope : Nat)
    (body : Check α) : Check (FuncHead × α) := do
  let a ← body
  modify ({ · with scope := outer })
  return (headOf h qs params scope (← get).table, a)

lemma run_finishFunc {h : FuncHead} {qs : List (Param × Option Nat)} {outer params scope : Nat}
    {body : Check α} {a : α} {st' : CheckState} (hbody : body.run st = (a, st')) :
    (finishFunc h qs outer params scope body).run st =
      ((headOf h qs params scope st'.table, a), { st' with scope := outer }) := by
  rw [finishFunc, run_bind, hbody]
  rfl

/-- Once the parameters of a subroutine are declared its body is left. -/
lemma run_inFunc_params (h : FuncHead) (body : Check α) {qs : List (Param × Option Nat)}
    {st₂ : CheckState} {closed : SymbolTable}
    (hparams : (declareParams h.params).run (atParams st) = (qs, st₂))
    (hclose : st₂.table.closeParams st.table.scopes.size = .ok closed) :
    (inFunc h body).run st =
      (finishFunc h qs st.scope st.table.scopes.size closed.scopes.size body).run
        { st₂ with table := (closed.openBody st.table.scopes.size).1, scope := closed.scopes.size } := by
  have hopen : st.table.openParams st.scope =
      (st.table.openedParams st.scope, st.table.scopes.size) := rfl
  have hparams' : (declareParams h.params).run { st with
      table := st.table.openedParams st.scope, scope := st.table.scopes.size } = (qs, st₂) := hparams
  -- one step at a time, since unfolding all of them together is slow to check
  rw [inFunc, run_bind, run_get]
  dsimp only
  rw [run_bind, run_get, hopen]
  dsimp only
  rw [run_bind, run_modify]
  dsimp only
  rw [run_bind, hparams']
  dsimp only
  rw [run_bind, run_get]
  dsimp only
  rw [hclose]
  rfl

/-- A subroutine is checked in the scopes of its parameters and its body. -/
lemma run_inFunc (h : FuncHead) (body : Check α) (hst : st.Ok) {qs : List (Param × Option Nat)}
    {a : α} {st₂ st₄ : CheckState} (hparams : (declareParams h.params).run (atParams st) = (qs, st₂))
    (hbody : body.run (atBody st.table.scopes.size st₂) = (a, st₄)) :
    (inFunc h body).run st =
      ((headOf h qs st.table.scopes.size st₂.table.scopes.size st₄.table, a),
        { st₄ with scope := st.scope }) := by
  have hrun := (declareParams_spec h.params (ok_atParams hst)).1
  rw [hparams] at hrun
  have hclose : st₂.table.closeParams st.table.scopes.size = .ok { st₂.table with
      bindings := SymbolTable.placeParams st₂.table.bindings
        (st₂.table.allocator st.table.scopes.size).used
        (st₂.table.allocator st.table.scopes.size).params } := by
    simp [SymbolTable.closeParams, region_params hrun]
  rw [run_inFunc_params h body hparams hclose]
  exact run_finishFunc hbody

/-- What is known at the start of a body, whether or not there were errors. -/
structure BodyStart (h : FuncHead) (st st₂ : CheckState) : Prop where
  ok : (atBody st.table.scopes.size st₂).Ok
  scopes_lt : st.table.scopes.size < st₂.table.scopes.size
  ext : st.table.Extends (atBody st.table.scopes.size st₂).table
  clean : (atBody st.table.scopes.size st₂).isClean → st.isClean ∧ h.hasGoodParams ∧
    (atBody st.table.scopes.size st₂).table = st.table.opened st.scope h ∧
    (atBody st.table.scopes.size st₂).ctx = st.ctx.inFunc h st.table.frames

lemma bodyStart (h : FuncHead) (hst : st.Ok) :
    BodyStart h st ((declareParams h.params).run (atParams st)).2 := by
  obtain ⟨hparams, hclean⟩ := declareParams_spec h.params (ok_atParams hst)
  rcases hrun : (declareParams h.params).run (atParams st) with ⟨qs, st₂⟩
  rw [hrun] at hparams hclean
  have hlt : st.table.scopes.size < st₂.table.scopes.size :=
    (ok_atParams hst).scope_lt.trans_le hparams.grows.scopes_le
  have hnew : ∀ n ∈ (st₂.table.allocator st.table.scopes.size).params, st.table.bindings.size ≤ n := by
    intro n hn
    rcases hparams.new n hn with hn | hn
    · rw [atParams, SymbolTable.allocator_openedParams] at hn
      simp at hn
    · exact hn
  exact {
    ok := ⟨SymbolTable.good_bodyTable hparams.ok.good hlt, by simp [atBody]⟩
    scopes_lt := hlt
    ext := SymbolTable.extends_bodyTable hparams.grows hnew
    clean := fun hc => by
      have hps := hclean hc
      have htable : st₂.table.bodyTable st.table.scopes.size = st.table.opened st.scope h := by
        rw [hps.table]
        rfl
      have hscope : st₂.table.scopes.size = st.table.openedScope st.scope h := by
        rw [hps.table]
        rfl
      refine ⟨hps.clean, ⟨hps.value, hps.distinct⟩, htable, ?_⟩
      rw [ctx, atBody, htable, hscope, (SymbolTable.opened_spec hst.good hst.scope_lt h).1]
      rfl }

/-- Declaring parameters looks only at how they are written. -/
lemma declareParams_bare : ∀ ps : List Param, declareParams (ps.map Param.bare) = declareParams ps
  | [] => rfl
  | p :: ps => by
    rw [List.map_cons, declareParams_cons, declareParams_cons, declareParams_bare ps]
    rfl

lemma bare_declareParam (p : Param) (st : CheckState) :
    ((declareParam p).run st).1.1.bare = p.bare := by
  unfold declareParam
  split
  · rfl
  · rw [run_bind, run_declare]
    cases st.table.lookupLocal st.scope p.name <;> rfl

lemma map_bare_declareParams : ∀ (ps : List Param) (st : CheckState),
    ((declareParams ps).run st).1.map (·.1.bare) = ps.map Param.bare
  | [], _ => rfl
  | p :: ps, st => by
    rw [declareParams_cons]
    simp only [run_bind, run_pure, List.map_cons, bare_declareParam, map_bare_declareParams ps]

lemma accepts_declareParam {p : Param} (hvalue : p.declared.isVoid = false)
    (hfree : st.table.lookupLocal st.scope p.name = none) :
    Accepts (declareParam p) st
      ({ p with ty := some p.declared, binding := none }, some st.table.bindings.size)
      { st with table := st.table.declared st.scope p.name p.declared true } := by
  intro report
  refine ⟨report, rfl, ?_⟩
  simp only [declareParam, hvalue, Bool.false_eq_true, if_false, run_bind, run_declare, hfree, run_pure]

lemma accepts_declareParams : ∀ (ps : List Param) {st : CheckState}, st.Ok →
    ((declareParams ps).run st).2.isClean →
    Accepts (declareParams ps) st ((declareParams ps).run st).1 ((declareParams ps).run st).2
  | [], st, _, _ => accepts_pure
  | p :: ps, st, hst, hc => by
    obtain ⟨hone, hclean⟩ := declareParam_spec p hst
    rw [declareParams_cons] at hc ⊢
    simp only [run_bind, run_pure] at hc ⊢
    have hps := ((declareParams_spec ps hone.ok).2 hc).clean
    have ih := accepts_declareParams ps hone.ok hc
    obtain ⟨-, hvalue, hfree, hrun⟩ := hclean hps
    rw [hrun] at ih ⊢
    exact (accepts_declareParam hvalue hfree).bind (ih.then_pure _)

lemma accepts_inFunc (hst : st.Ok) {h : FuncHead} {body : Check α} {qs : List (Param × Option Nat)}
    {a : α} {st₂ st₄ : CheckState} (hparams : Accepts (declareParams h.params) (atParams st) qs st₂)
    (hbody : Accepts body (atBody st.table.scopes.size st₂) a st₄) :
    Accepts (inFunc h body) st
      (headOf h qs st.table.scopes.size st₂.table.scopes.size st₄.table, a)
      { st₄ with scope := st.scope } := by
  intro report
  obtain ⟨report₂, hcount₂, hrun₂⟩ := hparams report
  obtain ⟨report₄, hcount₄, hrun₄⟩ := hbody report₂
  have hok : CheckState.Ok { st with report } := ⟨hst.good, hst.scope_lt⟩
  exact ⟨report₄, hcount₄.trans hcount₂, run_inFunc h body hok hrun₂ hrun₄⟩

/-- The head of a checked subroutine has the parameters that it had, up to what is noted on them. -/
lemma map_bare_headOf {h : FuncHead} {qs : List (Param × Option Nat)} {st₂ : CheckState}
    (hparams : (declareParams h.params).run (atParams st) = (qs, st₂)) (params body : Nat)
    (table : SymbolTable) : (headOf h qs params body table).params.map Param.bare = h.params.map Param.bare := by
  have hbare := map_bare_declareParams h.params (atParams st)
  rw [hparams] at hbare
  rw [← hbare, headOf, List.map_map]
  rfl

/-- Checking a body inside a subroutine moves from the context of its start, and another body with the same
outcome is accepted with the completed head. -/
lemma passing_inFunc (h : FuncHead) (body : Check α) (hst : st.Ok) {P : CheckState → α → CheckState → Prop}
    (hbody : ∀ st₁ : CheckState, st₁.Ok →
      (st₁.isClean → st.isClean ∧ h.hasGoodParams ∧ st₁.ctx = st.ctx.inFunc h st.table.frames) →
      Moving body st₁ (P st₁)) :
    Passing (inFunc h body) st fun made st' =>
      h.hasGoodParams ∧ st.ctx.isFresh st.table.frames ∧ ∃ st₁ st₂,
        st₁.ctx = st.ctx.inFunc h st.table.frames ∧ P st₁ made.2 st₂ ∧
        made.1 = h.completed st.table.frames st₂.ctx.peak ∧
        ∀ (body' : Check α) (a' : α), Accepts body' st₁ a' st₂ →
          Accepts (inFunc made.1 body') st (made.1, a') st' := by
  obtain ⟨hparams, hclean⟩ := declareParams_spec h.params (ok_atParams hst)
  have hstart := bodyStart h hst
  rcases hrun : (declareParams h.params).run (atParams st) with ⟨qs, st₂⟩
  rw [hrun] at hparams hclean hstart
  set st₃ := atBody st.table.scopes.size st₂ with hst₃
  have hmoves := hbody st₃ hstart.ok fun hc => by
    obtain ⟨hc', hgood, -, hctx⟩ := hstart.clean hc
    exact ⟨hc', hgood, hctx⟩
  rcases hrun' : body.run st₃ with ⟨a, st₄⟩
  rw [Moving, hrun'] at hmoves
  rw [Passing, run_inFunc h body hst hrun hrun']
  have hplt := hstart.scopes_lt
  have hown : (st₃.table.scope st₃.scope).allocator = st₂.table.allocators.size := by
    rw [hst₃, atBody, SymbolTable.scope_bodyTable_self]
  have hallocs : st.table.allocators.size ≤ st₂.table.allocators.size :=
    SymbolTable.extends_openedParams.allocators_le.trans hparams.grows.allocators_le
  have hext : st.table.Extends st₄.table :=
    hstart.ext.trans_growsAt hmoves.grows hplt.le (hown ▸ hallocs)
  have hopened := SymbolTable.opened_spec hst.good hst.scope_lt h
  exact {
    ok := ⟨hmoves.ok.good, hst.scope_lt.trans_le hext.scopes_le⟩
    scope_eq := rfl
    ext := hext
    clean := fun hc => by
      obtain ⟨hc₃, hP⟩ := hmoves.clean hc
      obtain ⟨hc₀, hgood, htable, hctx⟩ := hstart.clean hc₃
      refine ⟨hc₀, hgood, SymbolTable.isFresh_frames hst.good hst.scope_lt, st₃, st₄, hctx, hP, ?_,
        fun body' a' haccepts => accepts_inFunc hst ?_ haccepts⟩
      rotate_left
      · have hagain := accepts_declareParams h.params (ok_atParams hst)
        rw [hrun] at hagain
        rw [← declareParams_bare, map_bare_headOf hrun, declareParams_bare]
        exact hagain hc₃
      have hframe : st₄.table.allocatedSize st₂.table.scopes.size = st₄.ctx.peak := by
        have hscope₄ : st₄.scope = st₂.table.scopes.size := hmoves.scope_eq
        rw [ctx, hscope₄]
        rfl
      have hplt₃ : st.table.scopes.size < st₃.table.scopes.size := hplt.trans hstart.ok.scope_lt
      have hargs : st₄.table.allocatedSize st.table.scopes.size = h.argBytes := by
        have hscope₄ : st₄.table.scope st.table.scopes.size = st₃.table.scope st.table.scopes.size :=
          hmoves.grows.scope_eq _ hplt₃ hplt.ne
        have hlt : (st₃.table.scope st.table.scopes.size).allocator < st₂.table.allocators.size := by
          rw [hst₃, atBody, SymbolTable.scope_bodyTable_lt hplt]
          exact hparams.ok.good.allocator_lt _ hplt
        rw [SymbolTable.allocatedSize, SymbolTable.allocator_eq, hscope₄,
          hmoves.grows.alloc_eq _ (hstart.ok.good.allocator_lt _ hplt₃) (hown ▸ hlt.ne),
          ← SymbolTable.allocator_eq, htable, hopened.2.2.2]
      have hplaced : (qs.map fun (p, b) => { p with binding := b.map st₄.table.binding }) =
          List.zipWith (fun p b => { p with ty := some p.declared, binding := some b }) h.params
            (h.bindings st.table.frames) := by
        have hmap : (List.range' st.table.bindings.size h.params.length).map st₄.table.binding =
            h.bindings st.table.frames := by
          rw [← hopened.2.1, ← htable]
          refine List.map_congr_left fun i hi => hmoves.grows.binding_eq i ?_
          rw [htable, hopened.2.2.1]
          exact (List.mem_range'_1.mp hi).2
        have hqs : qs = _ := (hclean hc₃).params
        rw [hqs, List.map_zipWith, ← hmap, List.zipWith_map_right]
        rfl
      simp only [headOf, FuncHead.completed, hframe, hargs, hplaced] }

end Check

end SubrLang
