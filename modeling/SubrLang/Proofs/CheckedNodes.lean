import SubrLang.Proofs.Checking
import SubrLang.Proofs.LiveStorage
import SubrLang.Proofs.TreeNodes

/-!
# Checking a single node

What the checker does with one node, apart from what it does with the parts of it.

* **`Expr.Outcome`.** Once the parts are checked there are three ways on: a part is faulty and nothing is said,
  or the parts do not fit and one error is reported, or the rule for the node gives it a type
  (`Expr.check_outcome`). The state behind the parts is otherwise kept.
* **`Check.Keeps`.** Names are declared with types of values or with the error type, and so the rules never
  give the error type by themselves (`Expr.check_keeps`): where no part is faulty and nothing is reported, only
  a name that was declared with the error type has it (`Expr.Gives.judged`).
-/

namespace SubrLang

open CheckState Check Reference

/-! ## What checking a node comes to -/

/-- Looking up a name changes nothing, and finds one of the bindings of the table or an error. -/
lemma Check.run_resolve (x : String) (st : CheckState) :
    (∃ err, (resolve x).run st = (.error err, st)) ∨ ∃ i, (resolve x).run st = (.ok (st.table.binding i), st) := by
  simp only [resolve, run_bind, run_get]
  cases st.table.lookup st.scope x with
  | none => exact .inl ⟨_, rfl⟩
  | some i =>
    cases hcapture : st.table.isCapture st.scope i with
    | true =>
      simp only [hcapture]
      exact .inl ⟨_, rfl⟩
    | false =>
      simp only [hcapture]
      exact .inr ⟨i, rfl⟩

namespace Expr

/-- The direct parts of an expression, in the order in which they are checked. The body of a subroutine is no
part of it. -/
def parts : Expr → List Expr
  | .operator _ _ es _ | .arrayLiteral _ es => es
  | .arrayAlloc _ _ l => [l]
  | .index _ a i => [a, i]
  | .call _ f es => f :: es
  | _ => []

/-- The type that the rule for a node gives it in a state, where its parts have given types. -/
inductive Gives (r : Rules) (isStmt : Bool) (st : CheckState) : Expr → List Ty → Ty → Prop
  | number {n : Note} {v : Int32} : Gives r isStmt st (.number n v) [] .integer
  | floatNumber {n : Note} {v : Binary64} : Gives r isStmt st (.floatNumber n v) [] .float
  | char {n : Note} {v : UInt8} : Gives r isStmt st (.char n v) [] .character
  | string {n : Note} {v : String} : Gives r isStmt st (.string n v) [] .string
  | bool {n : Note} {v : Bool} : Gives r isStmt st (.bool n v) [] .boolean
  | typeLiteral {n : Note} {t : Ty} : Gives r isStmt st (.typeLiteral n t) [] (.literal t)
  | ident {n : Note} {x : String} {o : Option Binding} {b : Binding}
      (found : (resolve x).run st = (.ok b, st)) : Gives r isStmt st (.ident n x o) [] b.ty
  | operator {n : Note} {op : TokenKind} {es : List Expr} {g : Option Signature} {ts : List Ty} {t : Ty}
      {s : Signature} {ws : List Widened} (rule : r.operator op ts = .ok (s, t, ws)) :
      Gives r isStmt st (.operator n op es g) ts t
  | arrayLiteral {n : Note} {es : List Expr} {ts : List Ty} {t : Ty} {ws : List Widened}
      (rule : r.elements ts = .ok (t, ws)) : Gives r isStmt st (.arrayLiteral n es) ts (.array t)
  | arrayAlloc {n : Note} {t length : Ty} {l : Expr} {w : Widened} (rule : r.length length = .ok w) :
      Gives r isStmt st (.arrayAlloc n t l) [length] (.array t)
  | index {n : Note} {a i : Expr} {array index t : Ty} (rule : Rules.index array index = .ok t) :
      Gives r isStmt st (.index n a i) [array, index] t
  | call {n : Note} {f : Expr} {es : List Expr} {callee t : Ty} {ts : List Ty} {ws : List Widened}
      (rule : r.call callee ts = .ok (t, ws)) (void : t.isVoid → isStmt) :
      Gives r isStmt st (.call n f es) (callee :: ts) t

/-- Whether an expression is another one, up to the conversions noted on it. -/
def IsNoted (e e' : Expr) : Prop := e' = e.withWidening e'.note.widening

/-- Whether an expression is a subroutine. -/
def isLambda : Expr → Bool
  | .lambda .. => true
  | _ => false

/-- Whether a node has given parts, up to the conversions noted on them. -/
structure HasParts (es : List Expr) (e : Expr) : Prop where
  not_lambda : e.isLambda = false
  parts : List.Forall₂ IsNoted es e.parts

/-- What checking a node comes to once its parts are checked, in the state behind them. -/
inductive Outcome (r : Rules) (isStmt : Bool) (e : Expr) (es : List Expr) (st : CheckState) :
    Expr → CheckState → Prop
  /-- A part is faulty, so the node is, and nothing is said about it. -/
  | silent {e' : Expr} (faulty : anyFaulty es) (parts : HasParts es e')
      (ty : e'.ty? = some .error) : Outcome r isStmt e es st e' st
  /-- The parts do not fit, which is reported. -/
  | reported {e' : Expr} {report : Report} {message : String} (sound : anyFaulty es = false)
      (parts : HasParts es e') (ty : e'.ty? = some .error)
      (count : report.errorCount = st.report.errorCount) :
      Outcome r isStmt e es st e' { st with report := report.error e.note.place message }
  | typed {e' : Expr} {t : Ty} (report : Report) (sound : anyFaulty es = false)
      (parts : HasParts es e') (ty : e'.ty? = some t)
      (rule : Gives r isStmt st e (es.map checkedTy) t)
      (count : report.errorCount = st.report.errorCount) : Outcome r isStmt e es st e' { st with report }

lemma checkedTy_of_ty? {e : Expr} {t : Ty} (h : e.ty? = some t) : e.checkedTy = t := by
  rw [checkedTy, h, Option.getD_some]

variable {r : Rules} {isStmt : Bool} {e : Expr} {es : List Expr} {st : CheckState}

lemma isNoted_refl (e : Expr) : IsNoted e e := by
  cases e <;> rfl

lemma isNoted_withWidening (e : Expr) (chain : List Prim) : IsNoted e (e.withWidening chain) := by
  cases e <;> rfl

lemma HasParts.of_eq {e' : Expr} (he : e'.isLambda = false) (hparts : e'.parts = es) : HasParts es e' :=
  ⟨he, hparts ▸ List.forall₂_same.mpr fun e _ => isNoted_refl e⟩

lemma forall₂_isNoted_attach : ∀ (es : List Expr) (ws : List Widened),
    List.Forall₂ IsNoted es (Widening.attach es ws)
  | [], ws => by cases ws <;> exact .nil
  | e :: es, [] => List.forall₂_same.mpr fun e _ => isNoted_refl e
  | e :: es, (t, chain) :: ws => by
    rw [Widening.attach]
    refine .cons ?_ (forall₂_isNoted_attach es ws)
    split
    · exact isNoted_refl e
    · exact isNoted_withWidening e chain

/-- A node that is typed without any report. -/
lemma Outcome.plain {e' : Expr} {t : Ty} (sound : anyFaulty es = false) (parts : HasParts es e')
    (ty : e'.ty? = some t) (rule : Gives r isStmt st e (es.map checkedTy) t) : Outcome r isStmt e es st e' st :=
  .typed st.report sound parts ty rule rfl

/-- What a check comes to after an error about the node. -/
lemma outcome_fail {err : TypeError} {f : Ty → Expr} (sound : anyFaulty es = false)
    (hparts : HasParts es (f .error)) (hf : ∀ t, (f t).ty? = some t) :
    Outcome r isStmt e es st ((fail e.note.place err >>= fun t => pure (f t)).run st).1
      ((fail e.note.place err >>= fun t => pure (f t)).run st).2 :=
  .reported sound hparts (hf _) rfl

/-- Every node but a subroutine has its parts checked first, and what follows is one of three things. -/
lemma check_outcome (r : Rules) (isStmt : Bool) (e : Expr) (he : e.isLambda = false) (st : CheckState) :
    Outcome r isStmt e ((checkAll r e.parts).run st).1 ((checkAll r e.parts).run st).2
      ((e.check r isStmt).run st).1 ((e.check r isStmt).run st).2 := by
  cases e with
  | number n v => exact .plain rfl (.of_eq rfl rfl) rfl .number
  | floatNumber n v => exact .plain rfl (.of_eq rfl rfl) rfl .floatNumber
  | char n v => exact .plain rfl (.of_eq rfl rfl) rfl .char
  | string n v => exact .plain rfl (.of_eq rfl rfl) rfl .string
  | bool n v => exact .plain rfl (.of_eq rfl rfl) rfl .bool
  | typeLiteral n t => exact .plain rfl (.of_eq rfl rfl) rfl .typeLiteral
  | lambda n h b => cases he
  | ident n x o =>
    simp only [parts, checkAll, Expr.check, run_bind, run_pure]
    rcases run_resolve x st with ⟨err, hrun⟩ | ⟨i, hrun⟩
    · rw [hrun]
      exact outcome_fail rfl (.of_eq rfl rfl) fun _ => rfl
    · rw [hrun]
      exact .plain rfl (.of_eq rfl rfl) rfl (.ident hrun)
  | operator n op es g =>
    simp only [parts, Expr.check, run_bind]
    generalize (checkAll r es).run st = checked
    obtain ⟨es', st'⟩ := checked
    dsimp only
    split
    · next hfaulty => exact .silent hfaulty (.of_eq rfl rfl) rfl
    · next hsound =>
      rw [Bool.not_eq_true] at hsound
      cases hrule : r.operator op (es'.map checkedTy) with
      | ok found =>
        obtain ⟨s, t, ws⟩ := found
        obtain ⟨report, hcount, hrun⟩ := run_widen es' ws st'
        simp only [run_bind, hrun, run_pure]
        exact .typed report hsound ⟨rfl, forall₂_isNoted_attach es' ws⟩ rfl (.operator hrule) hcount
      | error err => exact outcome_fail hsound (.of_eq rfl rfl) fun _ => rfl
  | arrayLiteral n es =>
    simp only [parts, Expr.check, run_bind]
    generalize (checkAll r es).run st = checked
    obtain ⟨es', st'⟩ := checked
    dsimp only
    split
    · next hfaulty => exact .silent hfaulty (.of_eq rfl rfl) rfl
    · next hsound =>
      rw [Bool.not_eq_true] at hsound
      cases hrule : r.elements (es'.map checkedTy) with
      | ok found =>
        obtain ⟨t, ws⟩ := found
        obtain ⟨report, hcount, hrun⟩ := run_widen es' ws st'
        simp only [run_bind, hrun, run_pure]
        exact .typed report hsound ⟨rfl, forall₂_isNoted_attach es' ws⟩ rfl (.arrayLiteral hrule) hcount
      | error err => exact outcome_fail hsound (.of_eq rfl rfl) fun _ => rfl
  | arrayAlloc n t l =>
    simp only [parts, checkAll, Expr.check, run_bind, run_pure]
    generalize (l.check r false).run st = checked
    obtain ⟨l', st'⟩ := checked
    dsimp only
    split
    · next hfaulty => exact .silent (by simpa [anyFaulty] using hfaulty) (.of_eq rfl rfl) rfl
    · next hsound =>
      have hsound' : anyFaulty [l'] = false := by simpa [anyFaulty] using hsound
      cases hrule : r.length l'.checkedTy with
      | ok w =>
        obtain ⟨report, hcount, hrun⟩ := run_widen [l'] [w] st'
        simp only [run_bind, hrun, run_pure]
        exact .typed report hsound' ⟨rfl, forall₂_isNoted_attach [l'] [w]⟩ rfl (.arrayAlloc hrule) hcount
      | error err => exact outcome_fail hsound' (.of_eq rfl rfl) fun _ => rfl
  | index n a i =>
    simp only [parts, checkAll, Expr.check, run_bind, run_pure]
    generalize (a.check r false).run st = checked
    obtain ⟨a', st₁⟩ := checked
    dsimp only
    generalize (i.check r false).run st₁ = checked
    obtain ⟨i', st₂⟩ := checked
    dsimp only
    split
    · next hfaulty => exact .silent hfaulty (.of_eq rfl rfl) rfl
    · next hsound =>
      rw [Bool.not_eq_true] at hsound
      cases hrule : Rules.index a'.checkedTy i'.checkedTy with
      | ok t => exact .plain hsound (.of_eq rfl rfl) rfl (.index hrule)
      | error err => exact outcome_fail hsound (.of_eq rfl rfl) fun _ => rfl
  | call n f es =>
    simp only [parts, checkAll, Expr.check, run_bind, run_pure]
    generalize (f.check r false).run st = checked
    obtain ⟨f', st₁⟩ := checked
    dsimp only
    generalize (checkAll r es).run st₁ = checked
    obtain ⟨es', st₂⟩ := checked
    dsimp only
    split
    · next hfaulty => exact .silent hfaulty (.of_eq rfl rfl) rfl
    · next hsound =>
      rw [Bool.not_eq_true] at hsound
      cases hrule : r.call f'.checkedTy (es'.map checkedTy) with
      | ok found =>
        obtain ⟨t, ws⟩ := found
        obtain ⟨report, hcount, hrun⟩ := run_widen es' ws st₂
        have hparts : ∀ t, HasParts (f' :: es') (.call (n.typed t) f' (Widening.attach es' ws)) :=
          fun _ => ⟨rfl, .cons (isNoted_refl f') (forall₂_isNoted_attach es' ws)⟩
        simp only [run_bind, hrun]
        split
        · exact .reported hsound (hparts _) rfl hcount
        · next hvoid =>
          exact .typed report hsound (hparts _) rfl (.call hrule fun hv => by simpa [hv] using hvoid) hcount
      | error err => exact outcome_fail hsound (.of_eq rfl rfl) fun _ => rfl

/-- Every part of a node is one of those that it was given, up to the conversions noted on it. -/
lemma HasParts.exists_of_mem {p : Expr} (h : HasParts es e) (hp : p ∈ e.parts) : ∃ q ∈ es, IsNoted q p := by
  obtain ⟨-, h⟩ := h
  generalize e.parts = ps at h hp
  induction h with
  | nil => simp at hp
  | cons hq _ ih =>
    rcases List.mem_cons.mp hp with rfl | hp
    · exact ⟨_, List.mem_cons_self, hq⟩
    · obtain ⟨q, hmem, hq⟩ := ih hp
      exact ⟨q, List.mem_cons_of_mem _ hmem, hq⟩

lemma Outcome.hasParts {e' : Expr} {st' : CheckState} (h : Outcome r isStmt e es st e' st') : HasParts es e' := by
  cases h with
  | silent _ parts | reported _ parts | typed _ _ parts => exact parts

/-- The subroutines in a node other than a subroutine are those in its parts. -/
lemma HasParts.isHome (h : HasParts es e) (hes : ∀ q ∈ es, q.IsHome) : e.IsHome := by
  have hparts : ∀ p ∈ e.parts, p.IsHome := by
    intro p hp
    obtain ⟨q, hq, hnoted⟩ := h.exists_of_mem hp
    rw [IsHome, hnoted, ← subroutines_references.1, references_withWidening, subroutines_references.1]
    exact hes q hq
  have hsubroutines : e.subroutines = subroutinesAll e.parts := by
    have hlambda := h.not_lambda
    cases e with
    | lambda => cases hlambda
    | _ => simp [Expr.parts, subroutines, subroutinesAll]
  rwa [← isHome_subroutinesAll, ← hsubroutines] at hparts

end Expr

/-! ## Tables whose names have types of values -/

/-- Whether every binding has a type of values, or was found faulty. -/
def SymbolTable.Typed (t : SymbolTable) : Prop :=
  ∀ b, (t.binding b).ty.isError ∨ (t.binding b).ty.isValue

namespace SymbolTable

variable {t : SymbolTable} {s : Nat}

lemma typed_program : program.Typed := fun _ => .inr rfl

/-- A binding more. -/
lemma Typed.declared (h : t.Typed) (x : String) {ty : Ty} (m : Bool) (hty : ty.isError ∨ ty.isValue) :
    (t.declared s x ty m).Typed := by
  intro b
  rcases Nat.lt_trichotomy b t.bindings.size with hb | rfl | hb
  · rw [binding_declared_lt x ty m hb]
    exact h b
  · rw [binding_declared_self]
    exact hty
  · have hnone : (t.declared s x ty m).binding b = default := by
      simp [SymbolTable.binding, SymbolTable.declared, hb]
    rw [hnone]
    exact .inr rfl

lemma Typed.leave (h : t.Typed) {t' : SymbolTable} {o : Option Nat} (hleave : t.leave s = .ok (t', o)) :
    t'.Typed := by
  unfold SymbolTable.leave at hleave
  split at hleave
  · cases hleave
    exact h
  · cases hleave

lemma Typed.closeParams (h : t.Typed) {t' : SymbolTable} (hclose : t.closeParams s = .ok t') :
    t'.Typed := by
  unfold SymbolTable.closeParams at hclose
  dsimp only at hclose
  split at hclose
  · cases hclose
    intro b
    rw [SymbolTable.binding, getD_placeParams Binding.ty fun _ _ => rfl]
    exact h b
  · cases hclose

end SymbolTable

namespace Check

variable {α β : Type} {x : Check α} {Q : α → Prop} {o : Option Place}

/-- In a check of what belongs to the subroutine at a place, or to the main block, where names have types. -/
structure Within (o : Option Place) (st : CheckState) : Prop where
  typed : st.table.Typed
  owner : st.subroutine = o

/-- A check inside a subroutine, or the main block, that keeps tables typed and comes to something with a
property. -/
def Keeps (o : Option Place) (x : Check α) (Q : α → Prop) : Prop :=
  ∀ st : CheckState, Within o st → Within o (x.run st).2 ∧ Q (x.run st).1

lemma keeps_pure {a : α} (ha : Q a) : Keeps o (pure a) Q := fun _ hst => ⟨hst, ha⟩

lemma Keeps.bind {f : α → Check β} {R : β → Prop} (hx : Keeps o x Q) (hf : ∀ a, Q a → Keeps o (f a) R) :
    Keeps o (x >>= f) R := by
  intro st hst
  obtain ⟨hst', ha⟩ := hx st hst
  exact hf _ ha _ hst'

lemma Keeps.imp {R : α → Prop} (hx : Keeps o x Q) (hQR : ∀ a, Q a → R a) : Keeps o x R := fun st hst =>
  ⟨(hx st hst).1, hQR _ (hx st hst).2⟩

lemma Keeps.typed {st : CheckState} (hx : Keeps st.subroutine x Q) (h : st.table.Typed) :
    (x.run st).2.table.Typed :=
  (hx st ⟨h, rfl⟩).1.typed

lemma keeps_get : Keeps o (get : Check CheckState) (Within o) := fun _ hst => ⟨hst, hst⟩

lemma keeps_modify {f : CheckState → CheckState} (hf : ∀ st, Within o st → Within o (f st)) :
    Keeps o (modify f : Check Unit) fun _ => True := fun st hst => ⟨hf st hst, trivial⟩

lemma keeps_fail (p : Place) (e : TypeError) : Keeps o (fail p e) fun t => t = .error :=
  fun _ hst => ⟨⟨hst.1, hst.2⟩, rfl⟩

lemma keeps_warn (w : Warning) (p : Place) (m : String) : Keeps o (warn w p m) fun _ => True :=
  fun _ hst => ⟨⟨hst.1, hst.2⟩, trivial⟩

lemma keeps_judge (p : Place) (found : Except TypeError Ty) : Keeps o (judge p found) fun _ => True := by
  cases found with
  | ok t => exact keeps_pure trivial
  | error e => exact (keeps_fail p e).imp fun _ _ => trivial

lemma keeps_declare (name : String) {t : Ty} (mutable : Bool) (ht : t.isError ∨ t.isValue) :
    Keeps o (declare name t mutable) fun _ => True := by
  intro st hst
  rw [run_declare]
  cases st.table.lookupLocal st.scope name with
  | none => exact ⟨⟨hst.1.declared name mutable ht, hst.2⟩, trivial⟩
  | some b => exact ⟨hst, trivial⟩

lemma Keeps.inBlock (hx : Keeps o x Q) : Keeps o (inBlock x) Q := by
  intro st hst
  rw [run_inBlock]
  obtain ⟨hst', ha⟩ := hx (atBlock st) ⟨hst.1, hst.2⟩
  refine ⟨?_, ha⟩
  unfold afterBlock
  split
  · next t _ hleave => exact ⟨hst'.1.leave hleave, hst'.2⟩
  · exact ⟨hst'.1, hst'.2⟩

/-- Behind the body of a subroutine the check goes on in the one around it. -/
lemma Keeps.inBody (p : Place) (hx : Keeps (some p) x Q) : Keeps o (inBody p x) Q := by
  intro st hst
  obtain ⟨hst', ha⟩ := hx { st with subroutine := some p } ⟨hst.1, rfl⟩
  exact ⟨⟨hst'.1, hst.2⟩, ha⟩

lemma keeps_declareParam {p : Param} (hp : p.declared.isResult) :
    Keeps o (declareParam p) fun q => q.1.declared = p.declared := by
  unfold declareParam
  split
  · exact (keeps_fail _ _).bind fun _ _ => keeps_pure rfl
  · next hvoid =>
    have hvalue : p.declared.isValue := by
      simpa [Ty.isResult, hvoid] using hp
    refine (keeps_declare _ _ (.inr hvalue)).bind fun b _ => ?_
    cases b with
    | ok b => exact keeps_pure rfl
    | error e => exact (keeps_fail _ _).bind fun _ _ => keeps_pure rfl

lemma keeps_declareParams : ∀ {ps : List Param}, (∀ p ∈ ps, p.declared.isResult) →
    Keeps o (declareParams ps) fun qs => qs.map (·.1.declared) = ps.map (·.declared)
  | [], _ => keeps_pure rfl
  | p :: ps, hps => by
    rw [declareParams_cons]
    refine (keeps_declareParam (hps p List.mem_cons_self)).bind fun q hq => ?_
    refine (keeps_declareParams fun q hq => hps q (List.mem_cons_of_mem _ hq)).bind fun qs hqs => ?_
    exact keeps_pure (by rw [List.map_cons, List.map_cons, hq, hqs])

/-- A subroutine has the type that its head says, whatever is found in it. -/
lemma Keeps.inFunc {h : FuncHead} (hs : h.isSource) (hx : Keeps o x Q) :
    Keeps o (inFunc h x) fun found => found.1.ty = h.ty ∧ Q found.2 := by
  simp only [FuncHead.isSource, Bool.and_eq_true, List.all_eq_true] at hs
  refine keeps_get.bind fun outer _ => keeps_get.bind fun st hst => ?_
  refine .bind (keeps_modify fun _ h => ⟨hst.1, h.2⟩) fun _ _ => ?_
  refine (keeps_declareParams hs.1).bind fun qs hqs => keeps_get.bind fun st₂ hst₂ => ?_
  refine .bind (keeps_modify fun _ h => ⟨fun b => ?_, h.2⟩) fun _ _ => ?_
  · dsimp only [SymbolTable.openBody]
    split
    · next t hclose => exact hst₂.1.closeParams hclose b
    · exact hst.1 b
  refine hx.bind fun a ha => .bind (keeps_modify fun _ h => ⟨h.1, h.2⟩) fun _ _ => ?_
  refine keeps_get.bind fun st₃ _ => keeps_pure ⟨?_, ha⟩
  rw [FuncHead.ty, FuncHead.ty, ← hqs, List.map_map]
  rfl

/-- A return statement is noted to belong to the subroutine that is being checked. -/
lemma keeps_returned (n : Note) (t : Ty) : Keeps o (returned n t) fun n' => n'.subroutine = o :=
  keeps_get.bind fun _ h => keeps_pure h.owner

end Check

/-! ## Types of checked expressions -/

namespace Expr

variable {r : Rules} {isStmt : Bool} {e : Expr} {st : CheckState} {o : Option Place}

/-- Whether an expression is a conversion. -/
def isCast : Expr → Bool
  | .operator _ op _ _ => op == .cast
  | _ => false

lemma areSource_parts (hs : e.isSource) (he : e.isLambda = false) : areSource e.isCast e.parts := by
  cases e with
  | number | floatNumber | char | string | bool | ident => rfl
  | operator => exact hs
  | typeLiteral => cases hs
  | arrayLiteral =>
    simp only [isSource, Bool.and_eq_true] at hs
    exact hs.2
  | arrayAlloc =>
    simp only [isSource, Bool.and_eq_true] at hs
    simp [parts, areSource, isCast, hs.2]
  | index => simpa [parts, areSource, isCast, isSource] using hs
  | call => simpa [parts, areSource, isCast, isSource] using hs
  | lambda => cases he

/-- What a checked expression can be: one of the error type, or of that of a value, or void for a call that is
a statement. -/
def Judged (isStmt : Bool) (e : Expr) : Prop :=
  (e.checkedTy.isError ∨ e.checkedTy.isResult ∧ (isStmt = false → e.checkedTy.isValue)) ∧ e.IsHome

lemma Judged.isError_or_isValue (h : e.Judged false) : e.checkedTy.isError ∨ e.checkedTy.isValue :=
  h.1.imp_right fun h => h.2 rfl

/-- What checked operands can be. Only the first operand of a conversion names a type. -/
def JudgedAll (conversion : Bool) (es : List Expr) : Prop :=
  ∀ e ∈ es, (e.checkedTy.isError ∨ e.checkedTy.isOperand ∧ (conversion = false → e.checkedTy.isValue)) ∧ e.IsHome

/-- Operands of which none is faulty have types that operands can have. -/
lemma JudgedAll.types {conversion : Bool} {es : List Expr} (h : JudgedAll conversion es)
    (sound : anyFaulty es = false) : (∀ t ∈ es.map checkedTy, t.isOperand) ∧
      (conversion = false → ∀ t ∈ es.map checkedTy, t.isValue) := by
  simp only [anyFaulty, List.any_eq_false] at sound
  simp only [List.forall_mem_map]
  exact ⟨fun e he => ((h e he).1.resolve_left (sound e he)).1,
    fun hc e he => ((h e he).1.resolve_left (sound e he)).2 hc⟩

/-- The rule for a node gives it the type of a value, if the names in sight and its operands have such types;
only a name can have been declared with the error type. -/
lemma Gives.judged {ts : List Ty} {t : Ty} (h : Gives r isStmt st e ts t)
    (hr : r.registry = Registry.standard) (hs : e.isSource) (hst : st.table.Typed)
    (hlength : ts.length = e.parts.length) (hts : ∀ t ∈ ts, t.isOperand)
    (hvalues : e.isCast = false → ∀ t ∈ ts, t.isValue) :
    (t.isResult ∧ (isStmt = false → t.isValue)) ∨
      ∃ n x o b, e = .ident n x o ∧ (resolve x).run st = (.ok b, st) ∧ b.ty = t ∧ t.isError := by
  have hvalue : t.isValue → t.isResult ∧ (isStmt = false → t.isValue) := fun hv =>
    ⟨Ty.isResult_of_isValue hv, fun _ => hv⟩
  cases h with
  | number | floatNumber | char | string | bool => exact .inl (hvalue rfl)
  | typeLiteral => cases hs
  | ident found =>
    obtain ⟨i, rfl⟩ : ∃ i, _ = st.table.binding i := by
      rcases run_resolve _ st with ⟨err, hrun⟩ | ⟨i, hrun⟩
      · cases found.symm.trans hrun
      · exact ⟨i, Except.ok.inj (Prod.mk.inj (found.symm.trans hrun)).1⟩
    rcases hst i with herror | hv
    · exact .inr ⟨_, _, _, _, rfl, found, rfl, herror⟩
    · exact .inl (hvalue hv)
  | operator rule => exact .inl (hvalue (Rules.operator_isValue hr hts rule))
  | arrayLiteral rule =>
    simp only [isSource, Bool.and_eq_true, Bool.not_eq_true', List.isEmpty_eq_false_iff] at hs
    have hne : ts ≠ [] := by
      rintro rfl
      exact hs.1 (List.length_eq_zero_iff.mp hlength.symm)
    have hv := (Rules.elements_spec hne (hvalues rfl) rule).1
    exact .inl (hvalue hv)
  | arrayAlloc rule =>
    simp only [isSource, Bool.and_eq_true] at hs
    exact .inl (hvalue hs.1)
  | index rule =>
    have ha := hvalues rfl _ List.mem_cons_self
    rw [(Rules.index_spec rule).1] at ha
    exact .inl (hvalue ha)
  | call rule void =>
    obtain ⟨hf, hargs⟩ := List.forall_mem_cons.mp (hvalues rfl)
    obtain ⟨hfun, -⟩ := Rules.call_spec (Ty.isGround_of_isValue _ hf)
      (fun u hu => Ty.isGround_of_isValue u (hargs u hu)) rule
    rw [hfun, Ty.isValue_func] at hf
    refine .inl ⟨hf.2, fun hk => ?_⟩
    have hres : t.isVoid ∨ t.isValue := by simpa [Ty.isResult] using hf.2
    exact hres.resolve_left fun hvoid => by simp [void hvoid] at hk

/-- Checking a node keeps tables typed if checking its parts does. -/
lemma keeps_check (hr : r.registry = Registry.standard) (hs : e.isSource) (he : e.isLambda = false)
    (hparts : Keeps o (checkAll r e.parts) fun es => es.length = e.parts.length ∧ JudgedAll e.isCast es) :
    Keeps o (e.check r isStmt) (Judged isStmt) := by
  intro st hst
  have houtcome := check_outcome r isStmt e he st
  obtain ⟨hst', hlength, hes⟩ := hparts st hst
  generalize (checkAll r e.parts).run st = checked at houtcome hst' hlength hes
  generalize (e.check r isStmt).run st = found at houtcome
  obtain ⟨es, st₁⟩ := checked
  obtain ⟨e', st₂⟩ := found
  dsimp only at houtcome hst' hlength hes ⊢
  have hhome : e'.IsHome := houtcome.hasParts.isHome fun q hq => (hes q hq).2
  have herror : e'.ty? = some .error → Judged isStmt e' := fun h =>
    ⟨.inl (by rw [checkedTy_of_ty? h]; rfl), hhome⟩
  cases houtcome with
  | silent _ _ ty => exact ⟨hst', herror ty⟩
  | reported _ _ ty _ => exact ⟨⟨hst'.1, hst'.2⟩, herror ty⟩
  | typed _ sound _ ty rule _ =>
    obtain ⟨hts, hvalues⟩ := hes.types sound
    have hty := checkedTy_of_ty? ty
    refine ⟨⟨hst'.1, hst'.2⟩, ?_, hhome⟩
    rcases rule.judged hr hs hst'.1 (by simpa using hlength) hts hvalues with h | ⟨-, -, -, -, -, -, -, h⟩
    · exact .inr (hty ▸ h)
    · exact .inl (hty ▸ h)

lemma keeps_checkAll_nil (conversion : Bool) :
    Keeps o (checkAll r []) fun es => es.length = 0 ∧ JudgedAll conversion es := by
  rw [checkAll]
  exact keeps_pure ⟨rfl, fun _ h => absurd h List.not_mem_nil⟩

/-- Operands that are not the target of a conversion. -/
lemma keeps_checkAll_cons {es : List Expr} (he : Keeps o (e.check r false) (Judged false))
    (hes : Keeps o (checkAll r es) fun es' => es'.length = es.length ∧ JudgedAll false es') :
    Keeps o (checkAll r (e :: es)) fun es' => es'.length = (e :: es).length ∧ JudgedAll false es' := by
  rw [checkAll]
  refine he.bind fun e' he' => hes.bind fun es' hes' => keeps_pure ⟨congrArg (· + 1) hes'.1, ?_⟩
  refine List.forall_mem_cons.mpr ⟨⟨he'.isError_or_isValue.imp_right fun hv => ?_, he'.2⟩, hes'.2⟩
  exact ⟨Ty.isOperand_of_isValue hv, fun _ => hv⟩

lemma keeps_asCond (he : e.IsHome) : Keeps o e.asCond IsHome := by
  unfold asCond
  split
  · exact keeps_pure he
  · refine (keeps_fail _ _).bind fun _ _ => keeps_pure ?_
    cases e <;> exact he

end Expr

mutual

/-- Checking an expression of a source keeps tables typed, and its type is that of a value or it is faulty. -/
theorem Expr.check_keeps {r : Rules} (hr : r.registry = Registry.standard) : ∀ (e : Expr) (isStmt : Bool) {o : Option Place},
    e.isSource → Keeps o (e.check r isStmt) (Expr.Judged isStmt)
  | .number .., _, _, hs | .floatNumber .., _, _, hs | .char .., _, _, hs | .string .., _, _, hs
  | .bool .., _, _, hs | .ident .., _, _, hs => Expr.keeps_check hr hs rfl (Expr.keeps_checkAll_nil false)
  | .typeLiteral .., _, _, hs => by simp [Expr.isSource] at hs
  | .operator n op es g, _, _, hs => Expr.keeps_check hr hs rfl (Expr.checkAll_keeps hr es (op == .cast) hs)
  | .arrayLiteral n es, _, _, hs => by
    refine Expr.keeps_check hr hs rfl (Expr.checkAll_keeps hr es false ?_)
    simp only [Expr.isSource, Bool.and_eq_true] at hs
    exact hs.2
  | .arrayAlloc n t l, _, _, hs => by
    refine Expr.keeps_check hr hs rfl
      (Expr.keeps_checkAll_cons (Expr.check_keeps hr l false ?_) (Expr.keeps_checkAll_nil false))
    simp only [Expr.isSource, Bool.and_eq_true] at hs
    exact hs.2
  | .index n a i, _, _, hs => by
    have hs' := hs
    simp only [Expr.isSource, Bool.and_eq_true] at hs'
    exact Expr.keeps_check hr hs rfl (Expr.keeps_checkAll_cons (Expr.check_keeps hr a false hs'.1)
      (Expr.keeps_checkAll_cons (Expr.check_keeps hr i false hs'.2) (Expr.keeps_checkAll_nil false)))
  | .call n f es, _, _, hs => by
    have hs' := hs
    simp only [Expr.isSource, Bool.and_eq_true] at hs'
    exact Expr.keeps_check hr hs rfl (Expr.keeps_checkAll_cons (Expr.check_keeps hr f false hs'.1)
      (Expr.checkAll_keeps hr es false hs'.2))
  | .lambda n h b, _, _, hs => by
    simp only [Expr.isSource, Bool.and_eq_true] at hs
    rw [Expr.check]
    refine (Keeps.inFunc hs.1 (.inBody n.place (.inBlock (Stmt.checkAll_keeps hr b _ _ hs.2)))).bind ?_
    rintro ⟨h', b'⟩ ⟨hty, hb⟩
    have hv := FuncHead.ty_isValue hs.1
    exact keeps_pure ⟨.inr (hty ▸ ⟨Ty.isResult_of_isValue hv, fun _ => hv⟩), Expr.isHome_lambda hb⟩

theorem Expr.checkAll_keeps {r : Rules} (hr : r.registry = Registry.standard) :
    ∀ (es : List Expr) (conversion : Bool) {o : Option Place},
    Expr.areSource conversion es →
      Keeps o (Expr.checkAll r es) fun es' => es'.length = es.length ∧ Expr.JudgedAll conversion es'
  | [], conversion, _, _ => Expr.keeps_checkAll_nil conversion
  | e :: es, false, _, hs => by
    simp only [Expr.areSource, Bool.false_eq_true, if_false, Bool.and_eq_true] at hs
    exact Expr.keeps_checkAll_cons (Expr.check_keeps hr e false hs.1) (Expr.checkAll_keeps hr es false hs.2)
  | e :: es, true, _, hs => by
    simp only [Expr.areSource, if_true, Bool.and_eq_true] at hs
    -- the target of a conversion
    obtain ⟨n, t, rfl, ht⟩ : ∃ n t, e = .typeLiteral n t ∧ t.isValue := by
      cases e with
      | typeLiteral n t => exact ⟨n, t, rfl, hs.1⟩
      | _ => simp [Expr.isConversionTarget] at hs
    simp only [Expr.checkAll, Expr.check, pure_bind]
    refine (Expr.checkAll_keeps hr es false hs.2).bind fun es' hes' =>
      keeps_pure ⟨congrArg (· + 1) hes'.1, ?_⟩
    refine List.forall_mem_cons.mpr ⟨⟨.inr ⟨ht, fun h => by cases h⟩, by simp [Expr.IsHome, Expr.subroutines]⟩,
      fun e' he' => ?_⟩
    exact (hes'.2 e' he').imp_left fun h => h.imp_right fun h => ⟨h.1, fun h' => by cases h'⟩

theorem PrintItem.checkAll_keeps {r : Rules} (hr : r.registry = Registry.standard) :
    ∀ (is : List PrintItem) {o : Option Place}, PrintItem.areSource is →
      Keeps o (PrintItem.checkAll r is) fun is' => ∀ isInside, Home o isInside (is'.flatMap PrintItem.references)
  | [], _, _ => by
    rw [PrintItem.checkAll]
    exact keeps_pure fun _ => home_nil
  | .separator p k :: is, _, hs => by
    rw [PrintItem.checkAll]
    exact (PrintItem.checkAll_keeps hr is hs).bind fun _ h => keeps_pure h
  | .value e :: is, _, hs => by
    simp only [PrintItem.areSource, Bool.and_eq_true] at hs
    rw [PrintItem.checkAll]
    exact (Expr.check_keeps hr e false hs.1).bind fun _ he =>
      (PrintItem.checkAll_keeps hr is hs.2).bind fun _ h => keeps_pure fun i => home_append.mpr ⟨he.2.home, h i⟩

/-- Checking a statement of a source keeps tables typed, and notes of a return statement which subroutine it
belongs to. -/
theorem Stmt.check_keeps {r : Rules} (hr : r.registry = Registry.standard) :
    ∀ (s : Stmt) (result : Option Ty) {o : Option Place}, s.isSource →
    Keeps o (s.check r result) fun s' => Home o result.isSome s'.references
  | .varDecl n x isConst e b, result, o, hs => by
    rw [Stmt.check]
    refine (Expr.check_keeps hr e false hs).bind fun e' he' => keeps_get.bind fun st _ => ?_
    have hrest : Keeps o (Check.declaration n x isConst e') fun s' => Home o result.isSome s'.references := by
      refine (keeps_declare x (!isConst) he'.isError_or_isValue).bind fun found _ => ?_
      cases found with
      | ok b => exact keeps_get.bind fun _ _ => keeps_pure he'.2.home
      | error err => exact (keeps_fail _ _).bind fun _ _ => keeps_pure he'.2.home
    split
    · exact (keeps_warn _ _ _).bind fun _ _ => hrest
    · exact hrest
  | .assign n t v, result, _, hs => by
    simp only [Stmt.isSource, Bool.and_eq_true] at hs
    rw [Stmt.check]
    refine (Expr.check_keeps hr v false hs.2).bind fun v' hv =>
      (Expr.check_keeps hr t false hs.1.2).bind fun t' ht => ?_
    split
    · exact keeps_pure (home_append.mpr ⟨ht.2.home, hv.2.home⟩)
    · exact (keeps_judge _ _).bind fun _ _ => keeps_pure (home_append.mpr ⟨ht.2.home, hv.2.home⟩)
  | .print n is, result, _, hs => by
    rw [Stmt.check]
    exact (PrintItem.checkAll_keeps hr is hs).bind fun _ h => keeps_pure (h _)
  | .call n c, result, _, hs => by
    rw [Stmt.check]
    exact (Expr.check_keeps hr c true hs).bind fun _ h => keeps_pure h.2.home
  | .give n v, result, o, hs => by
    rw [Stmt.check]
    refine (Expr.check_keeps hr v false hs).bind fun v' hv => ?_
    have hgive : ∀ n' : Note, (result.isSome → n'.subroutine = o) →
        Home o result.isSome (Stmt.give n' v').references :=
      fun n' h => home_append.mpr ⟨hv.2.home, home_exit.mpr h⟩
    cases result with
    | none => exact (keeps_fail _ _).bind fun _ _ => keeps_pure (hgive _ nofun)
    | some t =>
      dsimp only
      split
      · exact (keeps_returned n _).bind fun _ h => keeps_pure (hgive _ fun _ => h)
      · exact (keeps_judge _ _).bind fun _ _ =>
          (keeps_returned n _).bind fun _ h => keeps_pure (hgive _ fun _ => h)
  | .leave n, result, _, hs => by
    cases result with
    | none =>
      simp only [Stmt.check]
      exact (keeps_fail _ _).bind fun _ _ => keeps_pure (home_exit.mpr nofun)
    | some t =>
      simp only [Stmt.check]
      split
      · exact (keeps_returned n _).bind fun _ h => keeps_pure (home_exit.mpr fun _ => h)
      · exact (keeps_fail _ _).bind fun _ _ =>
          (keeps_returned n _).bind fun _ h => keeps_pure (home_exit.mpr fun _ => h)
  | .ifThen n c b, result, _, hs | .while n c b, result, _, hs => by
    simp only [Stmt.isSource, Bool.and_eq_true] at hs
    rw [Stmt.check]
    exact (Expr.check_keeps hr c false hs.1).bind fun c' h => (Expr.keeps_asCond h.2).bind fun _ hc =>
      (Keeps.inBlock (Stmt.checkAll_keeps hr b result false hs.2)).bind fun _ hb =>
        keeps_pure (home_append.mpr ⟨hc.home, hb⟩)
  | .ifElse n c b a, result, _, hs => by
    simp only [Stmt.isSource, Bool.and_eq_true] at hs
    rw [Stmt.check]
    exact (Expr.check_keeps hr c false hs.1.1).bind fun c' h => (Expr.keeps_asCond h.2).bind fun _ hc =>
      (Keeps.inBlock (Stmt.checkAll_keeps hr b result false hs.1.2)).bind fun _ hb =>
        (Stmt.check_keeps hr a result hs.2.2).bind fun _ ha =>
          keeps_pure (home_append.mpr ⟨home_append.mpr ⟨hc.home, hb⟩, ha⟩)
  | .block n b, result, _, hs => by
    rw [Stmt.check]
    exact (Keeps.inBlock (Stmt.checkAll_keeps hr b result false hs)).bind fun _ h => keeps_pure h

theorem Stmt.checkAll_keeps {r : Rules} (hr : r.registry = Registry.standard) :
    ∀ (ss : List Stmt) (result : Option Ty) (returned : Bool) {o : Option Place},
    Stmt.areSource ss →
      Keeps o (Stmt.checkAll r result returned ss) fun ss' => Home o result.isSome (Stmt.referencesAll ss')
  | [], _, _, _, _ => by
    rw [Stmt.checkAll]
    exact keeps_pure home_nil
  | s :: ss, result, returned, o, hs => by
    simp only [Stmt.areSource, Bool.and_eq_true] at hs
    rw [Stmt.checkAll]
    have hrest : Keeps o (do
        let s' ← s.check r result
        return s' :: (← Stmt.checkAll r result s.isReturn ss))
        fun ss' => Home o result.isSome (Stmt.referencesAll ss') :=
      (Stmt.check_keeps hr s result hs.1).bind fun _ hs' =>
        (Stmt.checkAll_keeps hr ss result s.isReturn hs.2).bind fun _ hss =>
          keeps_pure (home_append.mpr ⟨hs', hss⟩)
    cases returned with
    | true => exact (keeps_warn _ _ _).bind fun _ _ => hrest
    | false => exact hrest

end

/-! ## Programs -/

namespace Func

lemma keeps_declareAll {fs : List Func} (hfs : ∀ f ∈ fs, f.isSource) {o : Option Place} :
    Keeps o (declareAll fs) fun fs' => ∀ f ∈ fs', f.isSource := by
  intro st hst
  refine ⟨?_, isSource_declareAll fs st hfs⟩
  induction fs generalizing st with
  | nil => exact hst
  | cons f fs ih =>
    obtain ⟨hf, hfs⟩ := List.forall_mem_cons.mp hfs
    simp only [isSource, Bool.and_eq_true] at hf
    rw [run_declareAll_cons]
    cases st.table.lookupLocal st.scope f.head.name with
    | none => exact ih hfs _ ⟨hst.1.declared _ _ (.inr (FuncHead.ty_isValue hf.1)), hst.2⟩
    | some b => exact ih hfs _ ⟨hst.1, hst.2⟩

variable {r : Rules} (hr : r.registry = Registry.standard)
include hr

lemma keeps_check {f : Func} (hs : f.isSource) {o : Option Place} :
    Keeps o (f.check r) fun f' => ∀ g ∈ f'.subroutine.all, g.OwnsReturns := by
  simp only [isSource, Bool.and_eq_true] at hs
  refine (Keeps.inFunc hs.1 (.inBody _ (.inBlock (Stmt.checkAll_keeps hr f.body _ _ hs.2)))).bind ?_
  rintro ⟨h', b'⟩ ⟨-, hb⟩
  exact keeps_pure (Expr.isHome_lambda (n := f.note) (h := h') hb)

lemma keeps_mapM_check : ∀ {fs : List Func}, (∀ f ∈ fs, f.isSource) → ∀ {o : Option Place},
    Keeps o (fs.mapM (check r)) fun fs' => ∀ f' ∈ fs', ∀ g ∈ f'.subroutine.all, g.OwnsReturns
  | [], _, _ => keeps_pure (List.forall_mem_nil _)
  | f :: fs, hs, _ => by
    rw [List.mapM_cons]
    exact (keeps_check hr (hs f List.mem_cons_self)).bind fun _ hf =>
      (keeps_mapM_check fun g hg => hs g (List.mem_cons_of_mem _ hg)).bind fun _ hfs =>
        keeps_pure (List.forall_mem_cons.mpr ⟨hf, hfs⟩)

end Func

/-- Return statements of a checked program are noted to belong to the subroutine that they stand in. -/
lemma Program.ownsReturns_check {r : Rules} (hr : r.registry = Registry.standard) {p : Program} (hs : p.isSource)
    (report : Report) : ∀ f ∈ (p.check r report).1.allSubroutines, f.OwnsReturns := by
  simp only [Program.isSource, Bool.and_eq_true, List.all_eq_true] at hs
  have hfuncs : ∀ f ∈ p.funcs, f.isSource := fun f hf => by
    simpa [Func.isSource] using hs.1 f hf
  have hkeeps : Keeps none (p.checkAll r) fun p' => ∀ f ∈ p'.allSubroutines, f.OwnsReturns := by
    refine (Func.keeps_declareAll hfuncs).bind fun fs hfs => (Func.keeps_mapM_check hr hfs).bind fun fs' hfs' => ?_
    refine (Keeps.inBlock (Stmt.checkAll_keeps hr p.main none false hs.2)).bind fun main hmain => ?_
    refine keeps_get.bind fun _ _ => keeps_pure fun f hf => ?_
    obtain ⟨g, hg, hf⟩ | hf := mem_allSubroutines.mp hf
    · exact hfs' g hg f hf
    · exact hmain.2 f (by rwa [Expr.subroutines_references.2.1])
  exact (hkeeps _ ⟨SymbolTable.typed_program, rfl⟩).2

end SubrLang
