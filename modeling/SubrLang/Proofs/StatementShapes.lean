import SubrLang.Proofs.StackTyping

/-!
# Lowered statements and subroutines are shaped

Between statements an activation has nothing on the operand stack. A statement of a subroutine can also
jump to the way out of the subroutine, which expects the result there; `Stmt.wayOut` is that expectation.

* **Printing.** `Lower.makes_printValue` goes through the types that can be printed.
* **Statements.** `Stmt.Elab.makes` and `Stmt.ElabAll.makes` go through the rules of elaboration.
* **Queue.** Draining the queue lowers every subroutine of the program, those found on the way included
  (`Lower.makes_drain`).
-/

namespace SubrLang

open Code (Shaped)
open Registry (standard)

/-! ## Printing -/

namespace Lower

variable {st st' : LowerState}

/-- Printing an array, where the code of an element is shaped. -/
lemma makes_printArray {t : Ty} {elem : Code} {s : Shape} {d : Option Shape}
    (h : Makes (counted st)
      [⟨elem, ⟨t.kind :: .int :: .int :: s, d⟩, ⟨.int :: .int :: s, d⟩⟩] 0 [] st') :
    Makes st [⟨printArray ⟨"print-array", st.families + 1⟩ t elem, ⟨.int :: s, d⟩, ⟨s, d⟩⟩] 0 []
      st' := by
  refine Makes.build (LabelFamily.sites _ Lowering.printArrayRoles s d) ?_ h ?_
    fun X hX hown _ hparts =>
      Lowering.shaped_printArray hX.toIsStandard hown (hparts _ List.mem_cons_self)
  · rw [LabelFamily.map_fst_sites]
    exact Grows.family (by decide) (by decide) (by decide)
  · rw [LabelFamily.map_fst_sites, Lowering.codeLabels_printArray]
    simp only [List.flatMap_cons, List.flatMap_nil, List.append_nil, Multiset.coe_add,
      Multiset.coe_eq_coe, List.append_assoc]
    exact List.perm_append_comm.append_left [_, _]

/-- Printing a value takes its word off the stack. -/
lemma makes_printValue : ∀ {t : Ty} {st st' : LowerState} {c : Code},
    (printValue t).run st = .ok (c, st') → ∀ s d,
      Makes st [⟨c, ⟨t.kind :: s, d⟩, ⟨s, d⟩⟩] 0 [] st'
  | .prim .integer, _, _, _, h, s, d | .prim .float, _, _, _, h, s, d
  | .prim .character, _, _, _, h, s, d => by
    obtain ⟨rfl, rfl⟩ := run_pure h
    exact Makes.leaf rfl fun X hX => Code.shaped_printf hX.toIsStandard _
  | .prim .string, _, _, _, h, s, d => by
    obtain ⟨rfl, rfl⟩ := run_pure h
    refine Makes.leaf rfl fun X hX => ?_
    exact (Shaped.straight hX.allocator (by simp) rfl).append
      (Code.shaped_printf hX.toIsStandard .string)
  | .prim .boolean, st, _, _, h, s, d => by
    obtain ⟨l, st₁, hl, h⟩ := run_bind h
    obtain ⟨rfl, rfl⟩ := run_fresh hl
    obtain ⟨rfl, rfl⟩ := run_pure h
    refine Makes.build (LabelFamily.sites _ Lowering.printBoolRoles s d) ?_ (Makes.nil _) ?_
      fun X hX hown _ _ => Lowering.shaped_printBool hX.toIsStandard hown
    · rw [LabelFamily.map_fst_sites]
      exact Grows.family (by decide) (by decide) (by decide)
    · rfl
  | .func _ _, _, _, _, h, s, d => by
    obtain ⟨rfl, rfl⟩ := run_pure h
    refine Makes.leaf rfl fun X hX => ?_
    exact (Shaped.single (.plain rfl)).append (Code.shaped_printf hX.toIsStandard .function)
  | .array t, st, _, _, h, s, d => by
    obtain ⟨l, st₁, hl, h⟩ := run_bind h
    obtain ⟨rfl, rfl⟩ := run_fresh hl
    obtain ⟨elem, st₂, helem, h⟩ := run_bind h
    obtain ⟨hc, hst⟩ := run_pure h
    rw [hc, hst]
    exact makes_printArray (makes_printValue helem (.int :: .int :: s) d)
  | .prim .void, _, _, _, h, _, _ | .prim .error, _, _, _, h, _, _ | .var _, _, _, _, h, _, _
  | .literal _, _, _, _, h, _, _ => (run_throw h).elim

end Lower

/-- The value of a checked expression. -/
lemma Expr.Elab.makes_lowerValue {r : Rules} (hr : r.registry = standard) {Γ : Ctx}
    (hΓ : Γ.allValues) {k : Bool} {e e' : Expr} (h : Expr.Elab r Γ k e e') (hs : e.isSource)
    {st st' : LowerState} {c : Code}
    (hrun : (e'.applyWidening standard).lowerValue.run st = .ok (c, st')) (s : Shape)
    (d : Option Shape) :
    Lower.Makes st [⟨c, ⟨s, d⟩, ⟨e'.checkedTy.kind :: s, d⟩⟩] (e'.applyWidening standard).heads []
      st' :=
  Lower.Makes.value ((Expr.ty?_applyWidening h.ty?_eq.2).trans h.ty?_eq.1) hrun fun hf =>
    (Expr.Elab.makes hr hΓ h hs hf).2 s d

open Lower

/-- What a print statement writes leaves nothing on the stack. -/
lemma PrintItem.ElabAll.makes {r : Rules} (hr : r.registry = standard) {Γ : Ctx}
    (hΓ : Γ.allValues) {is is' : List PrintItem} (h : PrintItem.ElabAll r Γ is is')
    (hs : PrintItem.areSource is) {st st' : LowerState} {cs : List Code}
    (hrun : ((PrintItem.applyWidenings standard is').mapM PrintItem.lower).run st = .ok (cs, st'))
    (d : Option Shape) : Makes st [⟨cs.flatten, ⟨[], d⟩, ⟨[], d⟩⟩]
      (PrintItem.headsAll (PrintItem.applyWidenings standard is')) [] st' := by
  induction is generalizing is' st st' cs with
  | nil =>
    cases h with
    | nil =>
      obtain ⟨rfl, rfl⟩ := run_pure hrun
      exact Makes.leaf rfl fun X _ => .nil
  | cons item is ih =>
    cases h with
    | @separator _ _ k _ _ tail =>
      obtain ⟨c, st₁, cs, hc, hcs, rfl⟩ := run_mapM_cons hrun
      obtain ⟨rfl, rfl⟩ := run_pure hc
      refine Makes.map (ih tail hs hcs) (by simp [printf])
        fun X hX _ hparts => ?_
      have hformat := Code.shaped_printf (s := []) (d := d) hX.toIsStandard k.format
      cases k <;> exact hformat.append (hparts _ List.mem_cons_self)
    | value head tail =>
      simp only [PrintItem.areSource, Bool.and_eq_true] at hs
      obtain ⟨c, st₁, cs, hc, hcs, rfl⟩ := run_mapM_cons hrun
      obtain ⟨v, st₃, hv, hc⟩ := run_bind hc
      rw [Expr.ty?_applyWidening head.ty?_eq.2, head.ty?_eq.1] at hc
      obtain ⟨p, st₄, hp, hc⟩ := run_bind hc
      obtain ⟨rfl, rfl⟩ := run_pure hc
      have hparts := ((head.makes_lowerValue hr hΓ hs.1 hv [] d).append
        (makes_printValue hp [] d)).append (ih tail hs.2 hcs)
      rw [add_zero] at hparts
      refine Makes.map hparts (by simp) fun X _ _ hshaped => ?_
      simp only [List.cons_append, List.nil_append, List.forall_mem_cons] at hshaped
      exact (hshaped.1.append hshaped.2.1).append hshaped.2.2.1

/-! ## Statements -/

namespace Stmt

/-- What the activation of a subroutine with a result of a type, or of the main block, owes. -/
def owed (result : Option Ty) : Option Shape := result.map fun _ => []

/-- What statements expect of the way out that they may jump to. -/
def wayOut : Option String → Option Ty → List (Label × Entry)
  | some exit, some result => [(.text exit, ⟨result.residue, some []⟩)]
  | _, _ => []

/-- The labels of a branch. -/
def ifRoles : List (String × Shape) := [("else", []), ("join", [])]

/-- The labels of a loop. -/
def whileRoles : List (String × Shape) := [("start", []), ("join", [])]

variable {X : Sites} {l : LabelFamily} {d : Option Shape} {cond body alternative : Code}

lemma shaped_ifElse (hl : l.sites ifRoles [] d ⊆ X.code) (hc : Shaped X cond ⟨[], d⟩ ⟨[.int], d⟩)
    (hb : Shaped X body ⟨[], d⟩ ⟨[], d⟩) (ha : Shaped X alternative ⟨[], d⟩ ⟨[], d⟩) :
    Shaped X (Lowering.ifElse l cond body alternative) ⟨[], d⟩ ⟨[], d⟩ := by
  have helse : (.text (l.label "else"), ⟨[], d⟩) ∈ X.code := hl (.head _)
  have hjoin : (.text (l.label "join"), ⟨[], d⟩) ∈ X.code := hl (.tail _ (.head _))
  have htest : Shaped X (Code.branch .jumpFalse (l.label "else")) ⟨[.int], d⟩ ⟨[], d⟩ :=
    .single (.test rfl (.inr helse))
  have hjump : Shaped X (Code.jump (l.label "join")) ⟨[], d⟩ ⟨[], d⟩ := .single (.jump (.inr hjoin))
  exact (((((hc.append htest).append hb).append hjump).append (.single (.label helse))).append
    ha).append (.single (.label hjoin))

lemma shaped_loop (hl : l.sites whileRoles [] d ⊆ X.code)
    (hc : Shaped X cond ⟨[], d⟩ ⟨[.int], d⟩) (hb : Shaped X body ⟨[], d⟩ ⟨[], d⟩) :
    Shaped X (Lowering.loop l cond body) ⟨[], d⟩ ⟨[], d⟩ := by
  have hstart : (.text (l.label "start"), ⟨[], d⟩) ∈ X.code := hl (.head _)
  have hjoin : (.text (l.label "join"), ⟨[], d⟩) ∈ X.code := hl (.tail _ (.head _))
  have htest : Shaped X (Code.branch .jumpFalse (l.label "join")) ⟨[.int], d⟩ ⟨[], d⟩ :=
    .single (.test rfl (.inr hjoin))
  have hjump : Shaped X (Code.jump (l.label "start")) ⟨[], d⟩ ⟨[], d⟩ :=
    .single (.jump (.inr hstart))
  exact (((((Shaped.single (.label hstart)).append hc).append htest).append hb).append
    hjump).append (.single (.label hjoin))

/-- The labels of branches and loops besides those of their parts. -/
lemma codeLabels_branches (l : LabelFamily) (cond body alternative : Code) :
    ((Lowering.ifElse l cond body alternative).codeLabels : Multiset Label) =
        l.labels ifRoles + (cond.codeLabels ++ body.codeLabels ++ alternative.codeLabels : List Label) ∧
      ((Lowering.loop l cond body).codeLabels : Multiset Label) =
        l.labels whileRoles + (cond.codeLabels ++ body.codeLabels : List Label) := by
  have hroles : ∀ r r' : String, (l.labels [(r, []), (r', [])] : Multiset Label) =
    ([.text (l.label r)] : List Label) + ([.text (l.label r')] : List Label) := fun _ _ => rfl
  simp only [Lowering.ifElse, Lowering.loop, Code.codeLabels_append,
    Code.codeLabels_branch (o := .jumpFalse) (by decide), Code.codeLabels_jump, Code.codeLabels_label,
    List.append_nil, ← Multiset.coe_add, ifRoles, whileRoles, hroles]
  constructor <;> abel

/-- A branch, where the condition and the two ways are shaped. -/
lemma makes_ifElse {st st₁ st₂ st' : LowerState} {hs hs' hs'' : Multiset FuncHead}
    {ext : List (Label × Entry)} (hc : Makes (counted st) [⟨cond, ⟨[], d⟩, ⟨[.int], d⟩⟩] hs ext st₁)
    (hb : Makes st₁ [⟨body, ⟨[], d⟩, ⟨[], d⟩⟩] hs' ext st₂)
    (ha : Makes st₂ [⟨alternative, ⟨[], d⟩, ⟨[], d⟩⟩] hs'' ext st') :
    Makes st [⟨Lowering.ifElse ⟨"if", st.families + 1⟩ cond body alternative, ⟨[], d⟩, ⟨[], d⟩⟩]
      (hs + hs' + hs'') ext st' := by
  refine Makes.build (LabelFamily.sites ⟨"if", st.families + 1⟩ ifRoles [] d) ?_
    ((hc.append hb).append ha) ?_ fun X _ hown _ hshaped => ?_
  · rw [LabelFamily.map_fst_sites]
    exact Grows.family (by decide) (by decide) (by decide)
  · have hlabels := (codeLabels_branches ⟨"if", st.families + 1⟩ cond body alternative).1
    simpa [LabelFamily.map_fst_sites] using hlabels
  · simp only [List.cons_append, List.nil_append, List.forall_mem_cons] at hshaped
    exact shaped_ifElse hown hshaped.1 hshaped.2.1 hshaped.2.2.1

/-- A loop, where the condition and the body are shaped. -/
lemma makes_loop {st st₁ st' : LowerState} {hs hs' : Multiset FuncHead}
    {ext : List (Label × Entry)} (hc : Makes (counted st) [⟨cond, ⟨[], d⟩, ⟨[.int], d⟩⟩] hs ext st₁)
    (hb : Makes st₁ [⟨body, ⟨[], d⟩, ⟨[], d⟩⟩] hs' ext st') :
    Makes st [⟨Lowering.loop ⟨"while", st.families + 1⟩ cond body, ⟨[], d⟩, ⟨[], d⟩⟩] (hs + hs') ext st' := by
  refine Makes.build (LabelFamily.sites ⟨"while", st.families + 1⟩ whileRoles [] d) ?_
    (hc.append hb) ?_ fun X _ hown _ hshaped => ?_
  · rw [LabelFamily.map_fst_sites]
    exact Grows.family (by decide) (by decide) (by decide)
  · have hlabels := (codeLabels_branches ⟨"while", st.families + 1⟩ cond body []).2
    simpa [LabelFamily.map_fst_sites] using hlabels
  · simp only [List.cons_append, List.nil_append, List.forall_mem_cons] at hshaped
    exact shaped_loop hown hshaped.1 hshaped.2.1

lemma isGround_of_isResult {t : Ty} (h : t.isResult) : t.isGround := by
  rcases Bool.or_eq_true _ _ |>.mp h with hvoid | hvalue
  · rw [Ty.eq_void_of_isVoid hvoid]
    rfl
  · exact Ty.isGround_of_isValue t hvalue

variable {exit : Option String} {r : Rules}

mutual

/-- What lowering makes of a statement: code that starts and ends with nothing on the stack. -/
theorem Elab.makes (hr : r.registry = standard) :
    ∀ {result : Option Ty} {Γ Γ' : Ctx} {s s' : Stmt}, Stmt.Elab r result Γ s s' Γ' →
    (∀ t, result = some t → t.isResult) → Γ.allValues → s.isSource →
    ∀ {st st' : LowerState} {c : Code},
      ((s'.applyWidening standard).lower exit).run st = .ok (c, st') →
      Makes st [⟨c, ⟨[], owed result⟩, ⟨[], owed result⟩⟩] (s'.applyWidening standard).heads
        (wayOut exit result) st'
  | result, _, _, _, _, .varDecl init _, hres, hΓ, hs, _, _, _, hrun => by
    obtain ⟨b, st₁, hb, hrest⟩ := run_bind hrun
    obtain ⟨c, st₂, hc, hpure⟩ := run_bind hrest
    obtain ⟨hb, rfl⟩ := run_required hb
    obtain ⟨rfl, rfl⟩ := run_pure hpure
    cases hb
    have hvalue := (init.makes_lowerValue hr hΓ hs hc [.int] (owed result)).weaken
      (List.nil_subset (wayOut exit result))
    refine Makes.map hvalue (by simp [Binding.codeLabels_address]) fun X hX _ hshaped => ?_
    exact ((Binding.shaped_address hX.toIsStandard).append (hshaped _ List.mem_cons_self)).append
      (.single (.plain (Ty.flow_storeOp _ _)))
  | result, _, _, _, _, .assign value target _ rule, hres, hΓ, hs, _, _, _, hrun => by
    simp only [Stmt.isSource, Bool.and_eq_true] at hs
    have hty := Rules.assign_spec (Ty.isGround_of_isValue _ (target.isValue hr hΓ hs.1.2))
      (Ty.isGround_of_isValue _ (value.isValue hr hΓ hs.2)) rule
    obtain ⟨f, st₁, hf, hrest⟩ := run_bind hrun
    split at hrest
    · exact (run_throw hrest).elim
    · next hres =>
      obtain ⟨c, st₂, hc, hpure⟩ := run_bind hrest
      obtain ⟨rfl, rfl⟩ := run_pure hpure
      have htarget := (Expr.Elab.makes hr hΓ target hs.1.2 hf).2 [] (owed result)
      rw [not_not.mp hres] at htarget
      have hvalue := value.makes_lowerValue hr hΓ hs.2 hc [.int] (owed result)
      refine Makes.map ((htarget.append hvalue).weaken (List.nil_subset _)) (by simp)
        fun X hX _ hshaped => ?_
      simp only [List.cons_append, List.nil_append, List.forall_mem_cons] at hshaped
      rw [Expr.ty?_applyWidening target.ty?_eq.2, target.ty?_eq.1, hty]
      exact (hshaped.1.append hshaped.2.1).append (.single (.plain (Ty.flow_storeOp _ _)))
  | result, _, _, _, _, .print items, hres, hΓ, hs, _, _, _, hrun => by
    obtain ⟨cs, st₁, hcs, hpure⟩ := run_bind hrun
    obtain ⟨rfl, rfl⟩ := run_pure hpure
    exact (items.makes hr hΓ hs hcs (owed result)).weaken (List.nil_subset _)
  | result, _, _, _, _, @Stmt.Elab.call _ _ _ _ _ c' hcall, hres, hΓ, hs, _, _, _, hrun => by
    obtain ⟨f, st₁, hf, hpure⟩ := run_bind hrun
    obtain ⟨rfl, rfl⟩ := run_pure hpure
    obtain ⟨hvoid, hmakes⟩ := Expr.Elab.makes hr hΓ hcall hs hf
    have hty : (c'.applyWidening standard).ty? = some c'.checkedTy :=
      (Expr.ty?_applyWidening hcall.ty?_eq.2).trans hcall.ty?_eq.1
    refine Makes.map ((hmakes [] (owed result)).weaken (List.nil_subset _)) ?_
      fun X hX _ hshaped => (hshaped _ List.mem_cons_self).append ?_
    · split <;> simp
    · rw [hty, Option.any_some]
      split
      · next h =>
        rw [hvoid.mpr h]
        exact .nil
      · next h =>
        cases hf : f.residue with
        | void => exact absurd (hvoid.mp hf) h
        | value | address => exact .single (.plain rfl)
  | _, _, _, _, _, @Stmt.Elab.give _ t _ _ _ _ _ _ value rule, hres, hΓ, hs, _, _, _, hrun => by
    obtain ⟨hty, hvoid⟩ := Rules.give_spec (isGround_of_isResult (hres t rfl))
      (Ty.isGround_of_isValue _ (value.isValue hr hΓ hs)) rule
    obtain ⟨l, st₁, hl, hrest⟩ := run_bind hrun
    obtain ⟨c, st₂, hc, hpure⟩ := run_bind hrest
    obtain ⟨rfl, rfl⟩ := run_required hl
    obtain ⟨rfl, rfl⟩ := run_pure hpure
    have hvalue := (value.makes_lowerValue hr hΓ hs hc [] (some [])).weaken
      (List.nil_subset (wayOut (some l) (some t)))
    refine Makes.map hvalue (by simp) fun X hX hext hshaped => ?_
    refine (hshaped _ List.mem_cons_self).append (.single (.jump (.inr (hext ?_))))
    simp [wayOut, hty, Ty.residue, hvoid]
  | _, _, _, _, _, .leave, _, _, _, _, _, _, hrun => by
    obtain ⟨l, st₁, hl, hpure⟩ := run_bind hrun
    obtain ⟨rfl, rfl⟩ := run_required hl
    obtain ⟨rfl, rfl⟩ := run_pure hpure
    exact Makes.map (Makes.nil _) rfl fun X _ hext _ =>
      .single (.jump (.inr (hext List.mem_cons_self)))
  | result, _, _, _, _, .ifThen cond truth body, hres, hΓ, hs, st, _, _, hrun => by
    simp only [Stmt.isSource, Bool.and_eq_true] at hs
    obtain ⟨c, st₁, b, st₂, hc, hb, hpure⟩ := run_branch hrun
    obtain ⟨rfl, rfl⟩ := run_pure hpure
    have hcond := (cond.makes_lowerValue hr hΓ hs.1 hc [] (owed result)).weaken
      (List.nil_subset (wayOut exit result))
    rw [truth] at hcond
    have hbody := ElabAll.makes hr body hres (Ctx.allValues_enter hΓ) hs.2 hb
    have hall := makes_ifElse hcond hbody (Makes.leaf rfl fun X _ => .nil)
    rwa [Lowering.ifElse, List.append_nil, add_zero] at hall
  | result, _, _, _, _, .ifElse cond truth body alternative, hres, hΓ, hs, st, _, _, hrun => by
    simp only [Stmt.isSource, Bool.and_eq_true] at hs
    obtain ⟨c, st₁, b, st₂, hc, hb, hrest⟩ := run_branch hrun
    obtain ⟨a, st₃, ha, hpure⟩ := run_bind hrest
    obtain ⟨rfl, rfl⟩ := run_pure hpure
    have hcond := (cond.makes_lowerValue hr hΓ hs.1.1 hc [] (owed result)).weaken
      (List.nil_subset (wayOut exit result))
    rw [truth] at hcond
    have hbody := ElabAll.makes hr body hres (Ctx.allValues_enter hΓ) hs.1.2 hb
    have halternative := Elab.makes hr alternative hres hΓ hs.2.2 ha
    exact makes_ifElse hcond hbody halternative
  | result, _, _, _, _, .while cond truth body, hres, hΓ, hs, st, _, _, hrun => by
    simp only [Stmt.isSource, Bool.and_eq_true] at hs
    obtain ⟨c, st₁, b, st₂, hc, hb, hpure⟩ := run_branch hrun
    obtain ⟨rfl, rfl⟩ := run_pure hpure
    have hcond := (cond.makes_lowerValue hr hΓ hs.1 hc [] (owed result)).weaken
      (List.nil_subset (wayOut exit result))
    rw [truth] at hcond
    have hbody := ElabAll.makes hr body hres (Ctx.allValues_enter hΓ) hs.2 hb
    exact makes_loop hcond hbody
  | _, _, _, _, _, .block body, hres, hΓ, hs, _, _, _, hrun =>
    ElabAll.makes hr body hres (Ctx.allValues_enter hΓ) hs hrun

theorem ElabAll.makes (hr : r.registry = standard) :
    ∀ {result : Option Ty} {Γ Γ' : Ctx} {ss ss' : List Stmt}, Stmt.ElabAll r result Γ ss ss' Γ' →
    (∀ t, result = some t → t.isResult) → Γ.allValues → Stmt.areSource ss → ∀ {st st' : LowerState} {c : Code},
      (Stmt.lowerAll exit (Stmt.applyWidenings standard ss')).run st = .ok (c, st') →
      Makes st [⟨c, ⟨[], owed result⟩, ⟨[], owed result⟩⟩]
        (Stmt.headsAll (Stmt.applyWidenings standard ss')) (wayOut exit result) st'
  | _, _, _, _, _, .nil, _, _, _, _, _, _, hrun => by
    obtain ⟨rfl, rfl⟩ := run_pure hrun
    exact Makes.leaf rfl fun X _ => .nil
  | _, _, _, _, _, .cons head tail, hres, hΓ, hs, _, _, _, hrun => by
    simp only [Stmt.areSource, Bool.and_eq_true] at hs
    obtain ⟨a, st₁, ha, hrest⟩ := run_bind hrun
    obtain ⟨b, st₂, hb, hpure⟩ := run_bind hrest
    obtain ⟨rfl, rfl⟩ := run_pure hpure
    have hhead := Elab.makes hr head hres hΓ hs.1 ha
    have htail := ElabAll.makes hr tail hres (head.allValues hr hs.1 hΓ) hs.2 hb
    refine Makes.map (hhead.append htail) (by simp) fun X _ _ hshaped => ?_
    simp only [List.cons_append, List.nil_append, List.forall_mem_cons] at hshaped
    exact hshaped.1.append hshaped.2.1

end

end Stmt

/-! ## The queue of subroutines -/

/-- What is expected at the start and at the way out of a subroutine. -/
def PendingFunc.sites (p : PendingFunc) : List (Label × Entry) :=
  [(.text (Lowering.startLabel p.labels), Entry.subroutine),
    (.text (Lowering.exitLabel p.labels), ⟨p.head.result.residue, some []⟩)]

lemma PendingFunc.map_fst_sites (p : PendingFunc) : p.sites.map (·.1) = p.ends := rfl

namespace Lower

variable {s : Settings} {st st₁ st' : LowerState}

/-- What lowering a queued subroutine makes of its body. -/
lemma makes_body {p : PendingFunc} (hp : p.Checked) {c : Code}
    (hrun : (p.lower s).run st = .ok (c, st')) : ∃ body,
      c = Lowering.subroutine p.head p.labels (s.feature .implicitVoidReturn) body ∧
      Makes st [⟨body, ⟨[], some []⟩, ⟨[], some []⟩⟩] (Stmt.headsAll p.body) p.sites st' := by
  obtain ⟨r, Γ, Γ', b, b', hr, hΓ, hres, hs, hrules, hbody⟩ := hp
  obtain ⟨body, st₁, hb, hpure⟩ := run_bind hrun
  obtain ⟨rfl, rfl⟩ := run_pure hpure
  rw [hbody] at hb ⊢
  have hresult : ∀ t, some p.head.result = some t → t.isResult := by
    rintro t ⟨⟩
    exact hres
  refine ⟨body, rfl, (Stmt.ElabAll.makes hr hrules hresult hΓ hs hb).weaken ?_⟩
  exact List.cons_subset.mpr ⟨.tail _ (.head _), List.nil_subset _⟩

/-- What draining the queue makes: the code of the subroutines `fs`, which expects `own` at its labels.
Code in front of it from where control does not go on stays such code. -/
structure Drained (st : LowerState) (fs : List PendingFunc) (own : List (Label × Entry)) (c : Code)
    (st' : LowerState) : Prop where
  queued : st.pending ⊆ fs
  heads : (fs.map (·.head) : Multiset FuncHead) = (st.pending.map PendingFunc.heads).sum
  sites : ∀ p ∈ fs, p.sites ⊆ own
  labels : (own.map (·.1) : Multiset Label) = c.codeLabels
  fresh : ∃ (ls : Multiset Label) (ss : List (String × String)),
    st'.strings.entries = st.strings.entries ++ ss ∧
    (c.codeLabels : Multiset Label) = (st.pending.flatMap PendingFunc.ends : List Label) + ls ∧
    FreshLabels st.families st'.families (ls + (ss.map fun x => .text x.2 : List Label))
  shaped : ∀ X : Sites, X.IsStandard → own ⊆ X.code →
    (∀ x ∈ st'.strings.entries, .text x.2 ∈ X.data) →
    ∀ (b : Code) (e₀ : Entry), (∀ e, Shaped X b e₀ e) → ∀ e, Shaped X (b ++ c) e₀ e

lemma Drained.nil (h : st.pending = []) : Drained st [] [] [] st where
  queued := by simp [h]
  heads := by simp [h]
  sites := by simp
  labels := rfl
  fresh := ⟨0, [], by simp, by simp [h], by simpa using FreshLabels.zero le_rfl⟩
  shaped X _ _ _ b e₀ hb e := by simpa using hb e

/-- One more subroutine is lowered, which puts those found in it at the end of the queue. -/
lemma Drained.cons {p : PendingFunc} {rest : List PendingFunc} (hp : st.pending = p :: rest)
    {body : Code} {implicitReturn : Bool}
    (hb : Makes { st with pending := rest } [⟨body, ⟨[], some []⟩, ⟨[], some []⟩⟩]
      (Stmt.headsAll p.body) p.sites st₁)
    {fs : List PendingFunc} {own : List (Label × Entry)} {c : Code} (h : Drained st₁ fs own c st') :
    ∃ own', Drained st (p :: fs) own'
      (Lowering.subroutine p.head p.labels implicitReturn body ++ c) st' := by
  obtain ⟨⟨ps, ss, hpending, hstrings, hchecked, hheads, hfresh⟩, own₁, hown₁, hshaped⟩ := hb
  obtain ⟨ls, ss', hstrings', hlabels, hfresh'⟩ := h.fresh
  have hbody : (([⟨body, ⟨[], some []⟩, ⟨[], some []⟩⟩] : List Part).flatMap
    (·.code.codeLabels) : Multiset Label) = body.codeLabels := by simp
  have hends : ((Lowering.subroutine p.head p.labels implicitReturn body).codeLabels :
      Multiset Label) = p.ends + (body.codeLabels : List Label) := by
    rw [Lowering.codeLabels_subroutine, Multiset.coe_add, Multiset.coe_eq_coe]
    exact (List.perm_append_singleton _ _).cons _
  rw [hbody] at hown₁ hfresh
  refine ⟨p.sites ++ own₁ ++ own, ?_, ?_, ?_, ?_, ?_, ?_⟩
  · rw [hp]
    refine List.cons_subset_cons p (List.Subset.trans ?_ h.queued)
    rw [hpending]
    exact List.subset_append_left _ _
  · have hfs := h.heads
    rw [hpending, List.map_append, List.sum_append, hheads] at hfs
    rw [List.map_cons, ← Multiset.cons_coe, hfs, hp, List.map_cons, List.sum_cons,
      PendingFunc.heads, Multiset.cons_add, add_comm]
  · intro q hq
    rcases List.mem_cons.mp hq with rfl | hq
    · exact List.Subset.trans (List.subset_append_left _ _) (List.subset_append_left _ _)
    · exact List.Subset.trans (h.sites q hq) (List.subset_append_right _ _)
  · simp only [List.map_append, ← Multiset.coe_add, Code.codeLabels_append, hown₁, h.labels, hends,
      PendingFunc.map_fst_sites]
  · refine ⟨body.codeLabels + (ps.flatMap PendingFunc.ends : List Label) + ls, ss ++ ss', ?_, ?_, ?_⟩
    · rw [hstrings', hstrings, List.append_assoc]
    · rw [Code.codeLabels_append, ← Multiset.coe_add, hends, hlabels, hpending, hp]
      simp only [List.flatMap_append, List.flatMap_cons, ← Multiset.coe_add]
      abel
    · convert hfresh.add hfresh' using 1
      simp only [List.map_append, ← Multiset.coe_add]
      abel
  · intro X hX hown hdata b e₀ hb e
    have hsites : p.sites ⊆ X.code := List.Subset.trans
      (List.Subset.trans (List.subset_append_left _ _) (List.subset_append_left _ _)) hown
    have hbodies : own ⊆ X.code := List.Subset.trans (List.subset_append_right _ _) hown
    have hcovers : X.Covers st₁ := by
      refine ⟨hX, fun q hq => hbodies (h.sites q (h.queued hq) (.head _)), fun x hx => hdata x ?_⟩
      rw [hstrings']
      exact List.mem_append_left _ hx
    have hbody := hshaped X hcovers (List.Subset.trans
      (List.Subset.trans (List.subset_append_right _ _) (List.subset_append_left _ _)) hown)
      hsites _ List.mem_cons_self
    rw [← List.append_assoc]
    refine h.shaped X hX hbodies hdata _ e₀ (fun e => (hb Entry.subroutine).append ?_) e
    exact Lowering.shaped_subroutine hX (hsites (.head _)) (hsites (.tail _ (.head _))) hbody

/-- Draining the queue lowers every subroutine, if there is fuel for all of them. -/
theorem drained_drain : ∀ {fuel : Nat} {st st' : LowerState} {c : Code},
    (drain s fuel).run st = .ok (c, st') → (∀ p ∈ st.pending, p.Checked) →
    (st.pending.map PendingFunc.heads).sum.card ≤ fuel → ∃ fs own, Drained st fs own c st' := by
  intro fuel
  induction fuel with
  | zero =>
    intro st st' c hrun _ hfuel
    obtain ⟨rfl, rfl⟩ := run_pure hrun
    refine ⟨[], [], Drained.nil ?_⟩
    cases hp : st'.pending with
    | nil => rfl
    | cons p rest => simp [hp, PendingFunc.heads] at hfuel
  | succ fuel ih =>
    intro st st' c hrun hchecked hfuel
    obtain ⟨_, _, hget, hrun⟩ := run_bind hrun
    cases hget
    split at hrun
    · next hp =>
      obtain ⟨rfl, rfl⟩ := run_pure hrun
      exact ⟨[], [], Drained.nil hp⟩
    · next p rest hp =>
      obtain ⟨_, _, hset, hrest⟩ := run_bind hrun
      cases hset
      obtain ⟨a, st₁, ha, hrest'⟩ := run_bind hrest
      obtain ⟨c', st₂, hc', hpure⟩ := run_bind hrest'
      obtain ⟨rfl, rfl⟩ := run_pure hpure
      rw [hp, List.forall_mem_cons] at hchecked
      obtain ⟨body, rfl, hbody⟩ := makes_body hchecked.1 ha
      obtain ⟨ps, ss, hpending, -, hps, hheads, -⟩ := hbody.1
      have hpending : st₁.pending = rest ++ ps := hpending
      have hall : ∀ p ∈ st₁.pending, p.Checked := by
        rw [hpending]
        exact List.forall_mem_append.mpr ⟨hchecked.2, hps⟩
      have hcard : (st₁.pending.map PendingFunc.heads).sum.card ≤ fuel := by
        rw [hp] at hfuel
        simp only [List.map_cons, List.sum_cons, PendingFunc.heads, Multiset.card_add,
          Multiset.card_cons] at hfuel
        rw [hpending, List.map_append, List.sum_append, hheads, Multiset.card_add]
        omega
      obtain ⟨fs, own, hdrained⟩ := ih hc' hall hcard
      obtain ⟨own', hdrained'⟩ := hdrained.cons hp hbody
      exact ⟨p :: fs, own', hdrained'⟩

end Lower

end SubrLang
