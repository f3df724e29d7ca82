import SubrLang.Proofs.AssembledLayout
import SubrLang.Proofs.ProgramShapes
import SubrLang.Proofs.SubroutineReferences

/-!
# Lowering succeeds
-/

namespace SubrLang

open Code Label
open Registry (standard)

/-! ## Steps -/

/-- Whether no label of a string constant is like one of a subroutine. -/
def StringTable.IsPlain (t : StringTable) : Prop := ∀ x ∈ t.entries, Label.isSubroutine x.2 = false

namespace Lower

/-- From one state to another lowering has made code with the instructions `is` for the references `xs`. -/
structure Links (exit : Option String) (st : LowerState) (xs : List Reference) (is : List Instr)
    (st' : LowerState) : Prop where
  linked : ∃ qs : List Queued, st'.pending = st.pending ++ qs.map Queued.pending ∧ Linked exit xs qs is
  strings : st'.strings.IsPlain

/-- A step that succeeds, and goes on from code with the instructions `is` for the references `xs` to more of
both. -/
def Adds {α : Type} (exit : Option String) (xs : List Reference) (is : List Instr) (x : Lower α)
    (xs' : List Reference) (out : α → List Instr) : Prop :=
  ∀ st₀ st, Links exit st₀ xs is st → ∃ a st', x.run st = .ok (a, st') ∧ Links exit st₀ xs' (out a) st'

/-- A step that succeeds and makes code for the references `xs`. -/
def Refers {α : Type} (exit : Option String) (x : Lower α) (xs : List Reference) (out : α → List Instr) : Prop :=
  ∀ (ys : List Reference) (is : List Instr), Adds exit ys is x (ys ++ xs) fun a => is ++ out a

variable {α β : Type} {exit : Option String} {xs ys xs' xs'' : List Reference} {is : List Instr} {x : Lower α}
  {f : α → Lower β} {out : α → List Instr} {out' : β → List Instr}

lemma run_bind_of_ok {st st' : LowerState} {a : α} (hx : x.run st = .ok (a, st')) :
    (x >>= f).run st = (f a).run st' := by
  rw [StateT.run_bind, hx]
  rfl

lemma Adds.bind (hx : Adds exit xs is x xs' out)
    (hf : ∀ a, (∃ st st', x.run st = .ok (a, st')) → Adds exit xs' (out a) (f a) xs'' out') :
    Adds exit xs is (x >>= f) xs'' out' := by
  intro st₀ st hst
  obtain ⟨a, st₁, ha, hst₁⟩ := hx st₀ st hst
  obtain ⟨b, st₂, hb, hst₂⟩ := hf a ⟨st, st₁, ha⟩ st₀ st₁ hst₁
  exact ⟨b, st₂, (run_bind_of_ok ha).trans hb, hst₂⟩

lemma Refers.bind (hx : Refers exit x ys out)
    (hf : ∀ a, (∃ st st', x.run st = .ok (a, st')) → Adds exit (xs ++ ys) (is ++ out a) (f a) xs' out') :
    Adds exit xs is (x >>= f) xs' out' :=
  (hx xs is).bind hf

lemma Adds.pure {a : α} (hxs : xs = xs') (his : is = out a) : Adds exit xs is (pure a) xs' out := by
  intro st₀ st hst
  rw [hxs, his] at hst
  exact ⟨a, st, rfl, hst⟩

lemma Adds.required {a : α} (hf : Adds exit xs is (f a) xs' out') :
    Adds exit xs is (required (some a) >>= f) xs' out' :=
  hf

lemma Adds.fresh {stem : String} (hstem : stem.toList.head? ≠ some 'f') {f : LabelFamily → Lower β}
    (hf : ∀ l : LabelFamily, (∀ role, (text (l.label role)).isSubroutine = false) →
      Adds exit xs is (f l) xs' out') : Adds exit xs is (fresh stem >>= f) xs' out' := fun st₀ st hst =>
  hf _ (isSubroutine_stem hstem _) st₀ (counted st) ⟨hst.linked, hst.strings⟩

/-- Putting a subroutine into the queue, whose label is pushed next. -/
lemma Adds.enqueue {p : Place} {h : FuncHead} {b : List Stmt} {f : LabelFamily → Lower β}
    (hf : ∀ l, (pushD (Lowering.startLabel l)).references = [.label .pushD (Lowering.startLabel l)] →
      Adds exit (xs ++ [.address ⟨p, h, b⟩]) (is ++ [.label .pushD (Lowering.startLabel l)]) (f l) xs' out') :
    Adds exit xs is (enqueue h b >>= f) xs' out' := by
  intro st₀ st hst
  obtain ⟨⟨qs, hpending, hlinked⟩, hstrings⟩ := hst
  refine hf _ (references_start (isSubroutine_function (st.families + 1) _)) st₀ _
    ⟨⟨qs ++ [⟨⟨p, h, b⟩, st.families + 1⟩], ?_, hlinked.append (.address (q := ⟨_, _⟩) .nil)⟩, hstrings⟩
  show st.pending ++ _ = _
  simp [hpending, Queued.pending, Queued.labels]

lemma Adds.string {text : String} {f : String → Lower β}
    (hf : ∀ l : String, isSubroutine l = false → Adds exit xs is (f l) xs' out') :
    Adds exit xs is (string text >>= f) xs' out' := by
  intro st₀ st hst
  have hrun : ∃ l st₁, (Lower.string text).run st = .ok (l, st₁) ∧ Links exit st₀ xs is st₁ := by
    cases hl : st.strings.find? text with
    | some l => exact ⟨l, st, by simp [Lower.string, hl]; rfl, hst⟩
    | none =>
      have hplain := isSubroutine_stem (show "string".toList.head? ≠ some 'f' by decide) (st.families + 1) ""
      exact ⟨_, { counted st with strings := st.strings.insert text _ }, by simp [Lower.string, hl, Lower.fresh]; rfl,
        hst.linked, List.forall_mem_append.mpr ⟨hst.strings, by simpa using hplain⟩⟩
  obtain ⟨l, st₁, hl, hst₁⟩ := hrun
  obtain ⟨x, hx, hxl⟩ := (run_string hl).2
  obtain ⟨b, st₂, hb, hst₂⟩ := hf l (hxl ▸ hst₁.strings x hx) st₀ st₁ hst₁
  exact ⟨b, st₂, (run_bind_of_ok hl).trans hb, hst₂⟩

/-- A jump to the way out. -/
lemma Adds.leave {o : Option Place} {l : String} {a : α} (hl : exit = some l)
    (his : is ++ [.label .jump l] = out a) : Adds exit xs is (Pure.pure a) (xs ++ [.exit o]) out := by
  rintro st₀ st ⟨⟨qs, hpending, hlinked⟩, hstrings⟩
  refine ⟨a, st, rfl, ⟨qs ++ [], by simpa using hpending, ?_⟩, hstrings⟩
  rw [← his]
  exact hlinked.append (.exit hl .nil)

/-- A fragment that leaves something can be completed to one that leaves a value. -/
lemma adds_valueOf {t : Option Ty} {g : Fragment} (h : g.residue ≠ .void) :
    Adds exit xs (is ++ g.code.references) (valueOf t g) xs fun c => is ++ c.references := by
  obtain ⟨residue, c⟩ := g
  cases residue with
  | void => exact absurd rfl h
  | value => exact .pure rfl rfl
  | address => exact .pure rfl (by simp [references, one, Instr.mentioned?])

/-- A value that can be printed is printed by some code. -/
lemma adds_printValue {t : Ty} (h : t.isPrintable) :
    Adds exit xs is (printValue t) xs fun c => is ++ c.references := by
  fun_induction Ty.isPrintable t with
  | case3 p =>
    cases p with
    | boolean => exact .fresh (by decide) fun l hl => .pure rfl (by simp [printf, hl])
    | void | error => contradiction
    | _ => exact .pure rfl (by simp [printf])
  | case4 t ih =>
    exact .fresh (by decide) fun l hl => (ih h).bind fun c _ =>
      .pure rfl (by rw [Lowering.references_printArray hl])
  | case5 ps r => exact .pure rfl (by simp [printf])
  | _ => cases h

lemma Adds.operatorLabels {v : Variant} {f : LabelFamily → Lower β}
    (hf : ∀ l : LabelFamily, (∀ role, (text (l.label role)).isSubroutine = false) →
      Adds exit xs is (f l) xs' out') : Adds exit xs is (operatorLabels v >>= f) xs' out' := by
  unfold Lower.operatorLabels
  split
  · exact .fresh (by decide) hf
  · exact .fresh (by decide) hf
  · exact .fresh (by decide) hf
  · exact hf _ (isSubroutine_stem (by decide) 0)

/-- An operator has code for as many operands as it takes. -/
lemma adds_applyVariant {v : Variant} {isFloat : Bool} {l : LabelFamily} {cs : List Code} {ks : List Kind} {k : Kind}
    (hl : ∀ role, (text (l.label role)).isSubroutine = false) (hk : v.result? ks = some k)
    (hlen : ks.length = cs.length) :
    Adds exit xs (is ++ cs.flatMap references) (applyVariant v isFloat l cs) xs fun c => is ++ c.references := by
  unfold Variant.result? at hk
  split at hk
  · rw [applyVariant_plain]
    exact .pure rfl (by split <;> simp [references_flatten])
  · obtain ⟨a, b, rfl⟩ := List.length_eq_two.mp hlen.symm
    exact .pure rfl (by simp [Lowering.references_compare hl])
  · obtain ⟨a, b, rfl⟩ := List.length_eq_two.mp hlen.symm
    exact .pure rfl (by simp [Lowering.references_shortCircuit hl])
  · obtain ⟨a, b, rfl⟩ := List.length_eq_two.mp hlen.symm
    exact .pure rfl (by simp [Lowering.references_shortCircuit hl])
  · exact .pure rfl (by simp [references_flatten, Lowering.divide])
  · exact .pure rfl (by simp [references_flatten, Lowering.divide])
  · exact .pure rfl (by simp [references_flatten])
  · exact .pure rfl (by simp [references_flatten])
  · exact .pure rfl (by simp [references_flatten])
  · exact .pure rfl (by simp [references_flatten])
  · cases hk

end Lower

/-! ## Expressions -/

namespace Expr

open Lower

variable {exit : Option String} {r : Rules}

/-- The value of an expression that is not void. -/
lemma Elab.refers_lowerValue (hr : r.registry = standard) {Γ : Ctx} (hΓ : Γ.allValues) {e e' : Expr}
    (h : Expr.Elab r Γ false e e') (hs : e.isSource)
    (hlower : Refers exit (e'.applyWidening standard).lower (e'.applyWidening standard).references
      (·.code.references)) :
    Refers exit (e'.applyWidening standard).lowerValue (e'.applyWidening standard).references Code.references := by
  refine fun _ _ => hlower.bind fun f ⟨st, st', hrun⟩ => adds_valueOf fun hvoid => ?_
  have hvalue := Ty.not_isVoid_of_isValue (h.isValue hr hΓ hs)
  rw [((Expr.Elab.makes hr hΓ h hs hrun).1.mp hvoid)] at hvalue
  cases hvalue

/-- The value of an operand with the conversions noted on it. -/
lemma refers_attached {e : Expr} {t : Ty} {w : Widened} (hw : Widens t w)
    (he : e.ty? = some t ∧ e.note.widening = [])
    (hvalue : Refers exit (e.applyWidening standard).lowerValue (e.applyWidening standard).references
      Code.references) :
    Refers exit ((Widening.attached e w).applyWidening standard).lowerValue
      ((Widening.attached e w).applyWidening standard).references Code.references := by
  have hcode : (Widening.code w.2).references = [] := by cases hw <;> rfl
  rw [(hw.lowerValue_eq he.2 he.1).1, Widening.references_attached, map_eq_pure_bind]
  exact fun _ _ => hvalue.bind fun c _ => .pure rfl (by simp [hcode])

mutual

/-- A checked expression can be lowered, and its code refers to subroutines where the expression does. -/
theorem Elab.refers (hr : r.registry = standard) {Γ : Ctx} (hΓ : Γ.allValues) :
    ∀ {k : Bool} {e e' : Expr}, Expr.Elab r Γ k e e' → e.isSource →
      Refers exit (e'.applyWidening standard).lower (e'.applyWidening standard).references (·.code.references)
  | _, _, _, .number, _ | _, _, _, .floatNumber, _ | _, _, _, .char, _ | _, _, _, .bool, _ => fun _ _ =>
    .pure (List.append_nil _).symm (List.append_nil _).symm
  | _, _, _, .ident .., _ => fun _ _ =>
    .pure (List.append_nil _).symm (by simp [Binding.references_address])
  | _, _, _, .string, _ => fun _ _ => .string fun l hl => .pure (List.append_nil _).symm (by simp [hl])
  | _, _, _, .typeLiteral, hs => by simp [Expr.isSource] at hs
  | _, _, _, @Expr.Elab.operator _ _ _ _ op es _ es' g t ws operands rule, hs => by
    obtain ⟨hg, hkey, htakes, hws⟩ := Rules.operator_spec hr (operands.isGround hr hΓ hs) rule
    have hresult : g.variant.result?
        (((Widening.types ws).drop (Registry.targets op)).map Ty.kind) = some t.kind := by
      rw [List.map_drop, htakes.kinds.1, htakes.kinds.2, ← List.map_drop, ← hkey]
      exact Registry.result?_standard hg
    refine fun _ _ => .operatorLabels fun l hl => (ElabAll.refers hr hΓ operands hs hws).bind ?_
    rintro cs ⟨st, st', hcs⟩
    have hlen := (ElabAll.makes hr hΓ operands hs hws st st' cs hcs).1
    exact (adds_applyVariant hl hresult (by simpa [Registry.targets] using hlen.symm)).bind fun c _ =>
      .pure rfl rfl
  | _, _, _, .arrayLiteral elems rule, hs => by
    simp only [Expr.isSource, Bool.and_eq_true, Bool.not_eq_true', List.isEmpty_eq_false_iff] at hs
    have hes := (Expr.ElabAll.isOperand hr hΓ elems hs.2).2 rfl
    have hws := (Rules.elements_spec (elems.map_ne_nil hs.1) (by simpa using hes) rule).2.2
    exact fun _ _ => (ElabAll.refers hr hΓ elems hs.2 hws).bind fun cs _ =>
      .pure rfl (by simp [Lowering.references_arrayLiteral])
  | _, _, _, @Expr.Elab.arrayAlloc _ _ _ _ t l l' t' chain length rule, hs => by
    simp only [Expr.isSource, Bool.and_eq_true] at hs
    show Refers exit (Expr.arrayAlloc _ t ((Widening.attached l' (t', chain)).applyWidening
      standard)).lower _ _
    rw [lower_arrayAlloc]
    exact fun _ _ => (refers_attached (Rules.length_spec rule).2 length.ty?_eq (length.refers_lowerValue hr hΓ hs.2
      (Elab.refers hr hΓ length hs.2))).bind fun c _ => .pure rfl (by simp [Lowering.references_arrayAlloc])
  | _, _, _, .index array position rule, hs => by
    simp only [Expr.isSource, Bool.and_eq_true] at hs
    show Refers exit (Expr.index _ _ _).lower _ _
    rw [lower_index]
    exact fun _ _ => (array.refers_lowerValue hr hΓ hs.1 (Elab.refers hr hΓ array hs.1)).bind fun _ _ =>
      (position.refers_lowerValue hr hΓ hs.2 (Elab.refers hr hΓ position hs.2)).bind fun _ _ => .pure (List.append_assoc ..) (by simp [Lowering.references_index])
  | _, _, _, @Expr.Elab.call _ _ _ _ _ _ f' _ t ws callee args rule value, hs => by
    simp only [Expr.isSource, Bool.and_eq_true] at hs
    obtain ⟨hfun, hws⟩ := Rules.call_spec (Ty.isGround_of_isValue _ (callee.isValue hr hΓ hs.1))
      (args.isGround hr hΓ hs.2) rule
    have hty : (f'.applyWidening standard).ty? = some (.func (Widening.types ws) t) := by
      rw [Expr.ty?_applyWidening callee.ty?_eq.2, callee.ty?_eq.1, hfun]
    show Refers exit (Expr.call _ _ _).lower _ _
    rw [lower_call hty]
    refine fun _ _ => (ElabAll.refers hr hΓ args hs.2 hws).bind ?_
    rintro cs ⟨st, st', hcs⟩
    have hlen : (Widening.types ws).length = cs.length :=
      (ElabAll.makes hr hΓ args hs.2 hws st st' cs hcs).1.symm
    exact (callee.refers_lowerValue hr hΓ hs.1 (Elab.refers hr hΓ callee hs.1)).bind fun c _ =>
      .pure (List.append_assoc ..) (by simp [Lowering.references_callSite hlen])
  | _, _, _, .lambda .., _ => fun _ _ => .enqueue fun l hl => .pure rfl (by simp [hl])

theorem ElabAll.refers (hr : r.registry = standard) {Γ : Ctx} (hΓ : Γ.allValues) :
    ∀ {conversion : Bool} {es es' : List Expr}, Expr.ElabAll r Γ es es' →
    Expr.areSource conversion es → ∀ {ws : List Widened},
      List.Forall₂ Widens (es'.map Expr.checkedTy) ws →
      Refers exit (Expr.lowerAll conversion (Expr.applyWidenings standard (Widening.attach es' ws)))
        (Expr.referencesAll (Expr.applyWidenings standard (Widening.attach es' ws))) (·.flatMap Code.references)
  | _, _, _, .nil, _, _, .nil => fun _ _ => .pure (List.append_nil _).symm (List.append_nil _).symm
  | true, _, _, .cons (e := e) head tail, hs, _, .cons hw hws => by
    simp only [Expr.areSource, if_true, Bool.and_eq_true] at hs
    -- the target of a conversion is passed over, and refers to nothing
    have he : e.isConversionTarget := hs.1
    cases head with
    | typeLiteral =>
      show Refers exit (Expr.lowerAll true (_ :: _)) (Expr.referencesAll
        ((Widening.attached _ _).applyWidening standard :: _)) _
      rw [Expr.referencesAll, Widening.references_attached]
      exact ElabAll.refers hr hΓ tail hs.2 hws
    | _ => cases he
  | false, _, _, .cons head tail, hs, _, .cons hw hws => by
    simp only [Expr.areSource, Bool.false_eq_true, if_false, Bool.and_eq_true] at hs
    show Refers exit (Expr.lowerAll false (_ :: _)) (Expr.referencesAll (_ :: _)) _
    rw [lowerAll_cons]
    exact fun _ _ => (refers_attached hw head.ty?_eq (head.refers_lowerValue hr hΓ hs.1
      (Elab.refers hr hΓ head hs.1))).bind fun _ _ => (ElabAll.refers hr hΓ tail hs.2 hws).bind fun _ _ => .pure (List.append_assoc ..) (by simp)

end

/-- The code of a name or of an indexed array leaves an address. -/
lemma Elab.residue_eq_address {Γ : Ctx} {k : Bool} {e e' : Expr}
    (h : Expr.Elab r Γ k e e') (ht : Parse.isTarget e) {f : Fragment} {st st' : LowerState}
    (hrun : (e'.applyWidening standard).lower.run st = .ok (f, st')) : f.residue = .address := by
  cases h with
  | ident find own =>
    cases hrun
    rfl
  | @index _ _ n a i a' i' t array position rule =>
    change (Expr.index _ (a'.applyWidening standard) (i'.applyWidening standard)).lower.run st =
      .ok (f, st') at hrun
    rw [lower_index] at hrun
    obtain ⟨ca, st₁, -, hrest⟩ := run_bind hrun
    obtain ⟨ci, st₂, -, hpure⟩ := run_bind hrest
    obtain ⟨rfl, -⟩ := run_pure hpure
    rfl
  | _ => simp [Parse.isTarget] at ht

end Expr

/-! ## Statements -/

section Statements

open Lower

variable {exit : Option String} {r : Rules} (hr : r.registry = standard)
include hr

/-- The value of a checked expression that stands for itself. -/
lemma Expr.Elab.refers_value {Γ : Ctx} (hΓ : Γ.allValues) {e e' : Expr}
    (h : Expr.Elab r Γ false e e') (hs : e.isSource) :
    Refers exit (e'.applyWidening standard).lowerValue (e'.applyWidening standard).references Code.references :=
  h.refers_lowerValue hr hΓ hs (h.refers hr hΓ hs)

lemma PrintItem.ElabAll.refers {Γ : Ctx} (hΓ : Γ.allValues) {is is' : List PrintItem}
    (h : PrintItem.ElabAll r Γ is is') (hs : PrintItem.areSource is) :
    Refers exit ((PrintItem.applyWidenings standard is').mapM PrintItem.lower)
      ((PrintItem.applyWidenings standard is').flatMap PrintItem.references) (·.flatMap Code.references) := by
  induction is generalizing is' with
  | nil =>
    cases h with
    | nil => exact fun _ _ => .pure (List.append_nil _).symm (List.append_nil _).symm
  | cons item is ih =>
    cases h with
    | separator tail =>
      rw [PrintItem.applyWidenings, List.mapM_cons]
      refine fun _ _ => (ih tail hs).bind fun _ _ => .pure (by simp [PrintItem.references]) (by simp [printf])
    | @value _ _ _ e' _ head tail =>
      simp only [PrintItem.areSource, Bool.and_eq_true] at hs
      have hprintable := Ty.isPrintable_of_isValue (head.isValue hr hΓ hs.1)
      have hitem : Refers exit (PrintItem.value (e'.applyWidening standard)).lower
          (e'.applyWidening standard).references Code.references := by
        refine fun _ _ => (head.refers_value hr hΓ hs.1).bind fun _ _ => ?_
        rw [Expr.ty?_applyWidening head.ty?_eq.2, head.ty?_eq.1]
        exact (adds_printValue hprintable).bind fun _ _ => .pure rfl (by simp)
      rw [PrintItem.applyWidenings, List.mapM_cons]
      exact fun _ _ => hitem.bind fun _ _ => (ih tail hs.2).bind fun _ _ =>
        .pure (by simp [PrintItem.references]) (by simp)

mutual

/-- A checked statement can be lowered, if there is a way out of the subroutine that it belongs to, and its code
refers to subroutines where the statement does. -/
theorem Stmt.Elab.refers (hexit : ∀ l, exit = some l → (text l).isSubroutine) :
    ∀ {result : Option Ty} {Γ Γ' : Ctx} {s s' : Stmt}, Stmt.Elab r result Γ s s' Γ' →
      (result.isSome → exit.isSome) → Γ.allValues → s.isSource →
      Refers exit ((s'.applyWidening standard).lower exit) (s'.applyWidening standard).references Code.references
  | _, _, _, _, _, .varDecl init _, _, hΓ, hs => fun _ _ =>
    .required ((init.refers_value hr hΓ hs).bind fun _ _ => .pure rfl (by simp [Binding.references_address]))
  | _, _, _, _, _, .assign value target _ _, _, hΓ, hs => by
    simp only [Stmt.isSource, Bool.and_eq_true] at hs
    refine fun _ _ => (target.refers hr hΓ hs.1.2).bind fun f ⟨st, st', hf⟩ => ?_
    rw [if_neg (not_not.mpr (target.residue_eq_address hs.1.1 hf))]
    exact (value.refers_value hr hΓ hs.2).bind fun _ _ => .pure (List.append_assoc ..) (by simp)
  | _, _, _, _, _, .print items, _, hΓ, hs => fun _ _ =>
    (items.refers hr hΓ hs).bind fun cs _ => .pure rfl (by rw [references_flatten])
  | _, _, _, _, _, .call invocation, _, hΓ, hs => fun _ _ =>
    (invocation.refers hr hΓ hs).bind fun f _ => .pure rfl (by simp only [references_append]; split <;> simp)
  | _, _, _, _, _, .give value _, hsome, hΓ, hs => by
    obtain ⟨l, rfl⟩ := Option.isSome_iff_exists.mp (hsome rfl)
    refine fun _ _ => .required ((value.refers_value hr hΓ hs).bind fun c _ => ?_)
    rw [Stmt.applyWidening, Stmt.references, ← List.append_assoc]
    exact .leave rfl (by simp [references_exit (hexit l rfl)])
  | _, _, _, _, _, .leave, hsome, _, _ => by
    obtain ⟨l, rfl⟩ := Option.isSome_iff_exists.mp (hsome rfl)
    exact fun _ _ => .leave rfl (by simp [references_exit (hexit l rfl)])
  | _, _, _, _, _, .ifThen cond _ body, hsome, hΓ, hs | _, _, _, _, _, .while cond _ body, hsome, hΓ, hs => by
    simp only [Stmt.isSource, Bool.and_eq_true] at hs
    exact fun _ _ => .fresh (by decide) fun l hl => (cond.refers_value hr hΓ hs.1).bind fun _ _ =>
      (Stmt.ElabAll.refers hexit body hsome (Ctx.allValues_enter hΓ) hs.2).bind fun _ _ =>
        .pure (List.append_assoc ..) (by simp [hl])
  | _, _, _, _, _, .ifElse cond _ body alternative, hsome, hΓ, hs => by
    simp only [Stmt.isSource, Bool.and_eq_true] at hs
    exact fun _ _ => .fresh (by decide) fun l hl => (cond.refers_value hr hΓ hs.1.1).bind fun _ _ =>
      (Stmt.ElabAll.refers hexit body hsome (Ctx.allValues_enter hΓ) hs.1.2).bind fun _ _ =>
        (Stmt.Elab.refers hexit alternative hsome hΓ hs.2.2).bind fun _ _ =>
          .pure (by simp [Stmt.references, Stmt.applyWidening]) (by simp [hl])
  | _, _, _, _, _, .block body, hsome, hΓ, hs =>
    Stmt.ElabAll.refers hexit body hsome (Ctx.allValues_enter hΓ) hs

theorem Stmt.ElabAll.refers (hexit : ∀ l, exit = some l → (text l).isSubroutine) :
    ∀ {result : Option Ty} {Γ Γ' : Ctx} {ss ss' : List Stmt}, Stmt.ElabAll r result Γ ss ss' Γ' →
      (result.isSome → exit.isSome) → Γ.allValues → Stmt.areSource ss →
      Refers exit (Stmt.lowerAll exit (Stmt.applyWidenings standard ss'))
        (Stmt.referencesAll (Stmt.applyWidenings standard ss')) Code.references
  | _, _, _, _, _, .nil, _, _, _ => fun _ _ => .pure (List.append_nil _).symm (List.append_nil _).symm
  | _, _, _, _, _, .cons head tail, hsome, hΓ, hs => by
    simp only [Stmt.areSource, Bool.and_eq_true] at hs
    exact fun _ _ => (Stmt.Elab.refers hexit head hsome hΓ hs.1).bind fun _ _ =>
      (Stmt.ElabAll.refers hexit tail hsome (head.allValues hr hs.1 hΓ) hs.2).bind fun _ _ =>
        .pure (List.append_assoc ..) (by simp)

end

end Statements

/-! ## Subroutines -/

/-- A subroutine whose code was made. -/
structure Emitted extends Queued where
  /-- The code of the body. -/
  lines : Code
  /-- The subroutines whose addresses the body takes. -/
  found : List Queued

namespace Emitted

/-- The code of the subroutine. -/
def code (s : Settings) (x : Emitted) : Code :=
  Lowering.subroutine x.node.head x.labels (s.feature .implicitVoidReturn) x.lines

/-- Whether the code of the body is that of the body of the subroutine, and its references are linked: those of
return statements with the way out of the subroutine. -/
structure IsLinked (x : Emitted) : Prop where
  lowered : ∃ st st', (Stmt.lowerAll (some x.exit) x.node.body).run st = .ok (x.lines, st')
  linked : Linked (some x.exit) (Stmt.referencesAll x.node.body) x.found x.lines.references

end Emitted

namespace Lower

variable {s : Settings}

/-- A subroutine that waits in the queue can be lowered. -/
lemma exists_emitted {q : Queued} (hq : q.pending.Checked) {st : LowerState} (hstrings : st.strings.IsPlain) :
    ∃ (x : Emitted) (st' : LowerState), (q.pending.lower s).run st = .ok (x.code s, st') ∧ x.toQueued = q ∧
      x.IsLinked ∧ st'.pending = st.pending ++ x.found.map Queued.pending ∧ st'.strings.IsPlain := by
  obtain ⟨r, Γ, Γ', b, b', hr, hΓ, -, hs, hrules, hbody⟩ := hq
  have hexit : ∀ l, some q.exit = some l → (Label.text l).isSubroutine := by
    rintro _ ⟨⟩
    exact Label.isSubroutine_function _ _
  have hrefers := hrules.refers hr hexit (fun _ => rfl) hΓ hs [] []
  rw [← hbody] at hrefers
  obtain ⟨lines, st', hrun, ⟨found, hpending, hlinked⟩, hstrings'⟩ :=
    hrefers st st ⟨⟨[], (List.append_nil _).symm, .nil⟩, hstrings⟩
  exact ⟨⟨q, lines, found⟩, st', run_bind_of_ok hrun, rfl, ⟨⟨st, st', hrun⟩, hlinked⟩, hpending, hstrings'⟩

/-- Draining the queue makes the code of all subroutines that wait and of those inside them, each once. -/
lemma exists_drained : ∀ (fuel : Nat) {qs : List Queued} {st : LowerState}, st.pending = qs.map Queued.pending →
    (∀ p ∈ st.pending, p.Checked) → st.strings.IsPlain → (Queued.all qs).card ≤ fuel →
    ∃ (xs : List Emitted) (st' : LowerState), (drain s fuel).run st = .ok (xs.flatMap (·.code s), st') ∧
      st'.pending = [] ∧ (∀ x ∈ xs, x.IsLinked) ∧ xs.map (·.toQueued) = qs ++ xs.flatMap (·.found) ∧
      (xs.map (·.node) : Multiset Subroutine) = Queued.all qs
  | 0, [], st, hpending, _, _, _ => ⟨[], st, rfl, hpending, by simp [Queued.all]⟩
  | fuel + 1, [], st, hpending, _, _, _ =>
    ⟨[], st, by simp [drain, hpending]; rfl, hpending, by simp [Queued.all]⟩
  | 0, q :: qs, _, _, _, _, hfuel => by simp [Queued.all, Subroutine.all] at hfuel
  | fuel + 1, q :: qs, st, hpending, hchecked, hstrings, hfuel => by
    rw [hpending, List.map_cons, List.forall_mem_cons] at hchecked
    obtain ⟨x, st₁, hx, rfl, hlinked, hpending₁, hstrings₁⟩ := exists_emitted (s := s) hchecked.1
      (show StringTable.IsPlain { st with pending := qs.map Queued.pending }.strings from hstrings)
    obtain ⟨-, -, ⟨ps, ss, hgrown, -, hps, -⟩, -⟩ := makes_body hchecked.1 hx
    have hpending₁ : st₁.pending = (qs ++ x.found).map Queued.pending := by simpa using hpending₁
    have hall : Queued.all (x.toQueued :: qs) = x.node ::ₘ Queued.all (qs ++ x.found) := by
      have hfound := hlinked.linked.all_eq.trans (Expr.subroutines_references.2.1 _)
      simp [Queued.all, Subroutine.all, ← hfound, add_comm]
    obtain ⟨xs, st₂, hxs, hdone, hall', hqueue, hnodes⟩ := exists_drained fuel hpending₁
      (hgrown ▸ List.forall_mem_append.mpr ⟨hchecked.2, hps⟩) hstrings₁
      (by rw [hall, Multiset.card_cons] at hfuel; omega)
    refine ⟨x :: xs, st₂, ?_, hdone, List.forall_mem_cons.mpr ⟨hlinked, hall'⟩, by simp [hqueue], ?_⟩
    · have hget : (get : Lower LowerState).run st = .ok (st, st) := rfl
      have hset : (modify ({ · with pending := qs.map Queued.pending }) : Lower Unit).run st =
        .ok ((), { st with pending := qs.map Queued.pending }) := rfl
      rw [drain, run_bind_of_ok hget, hpending, List.map_cons]
      dsimp only
      rw [run_bind_of_ok hset, run_bind_of_ok hx, run_bind_of_ok hxs]
      rfl
    · rw [hall, ← hnodes]
      rfl

/-- Storing the addresses of declared subroutines in their variables. -/
lemma refers_entries {exit : Option String} : ∀ {fs : List Func}, (∀ f ∈ fs, f.head.binding.isSome) →
    Refers exit (fs.mapM Func.lowerEntry) (fs.map fun f => .address f.subroutine) fun cs => references cs.flatten
  | [], _ => fun _ _ => .pure (List.append_nil _).symm (List.append_nil _).symm
  | f :: fs, h => by
    rw [List.forall_mem_cons] at h
    obtain ⟨b, hb⟩ := Option.isSome_iff_exists.mp h.1
    rw [List.mapM_cons, Func.lowerEntry, bind_assoc, hb]
    exact fun _ _ => .enqueue (p := f.note.place) fun l hl => (refers_entries h.2).bind fun cs _ =>
      .pure (List.append_assoc ..) (by simp [hl, Binding.references_address])

end Lower

/-! ## Programs -/

/-- Every declared subroutine has a binding. -/
lemma Func.DeclaredAll.isSome_binding : ∀ {Γ Γ' : Ctx} {fs fs' : List Func},
    Func.DeclaredAll Γ fs fs' Γ' → ∀ f ∈ fs', f.head.binding.isSome
  | _, _, _, _, .nil => by simp
  | _, _, _, _, .cons _ tail => List.forall_mem_cons.mpr ⟨rfl, tail.isSome_binding⟩

namespace Program

/-- What refers to subroutines outside of these: the addresses of named ones are stored first. -/
def references (p : Program) : List Reference :=
  (p.funcs.map fun f => .address f.subroutine) ++ Stmt.referencesAll p.main

lemma subroutines_references (p : Program) : Reference.subroutines p.references = p.allSubroutines := by
  have hfuncs : ∀ fs : List Func, Reference.subroutines (fs.map fun f => .address f.subroutine) =
      (fs.map fun f : Func => f.subroutine.all).sum := by
    intro fs
    induction fs with
    | nil => rfl
    | cons f fs ih => simpa [Reference.subroutines, Reference.addresses] using ih
  rw [references, Reference.subroutines_append, hfuncs, Expr.subroutines_references.2.1, allSubroutines]

/-- Code of a program that holds each of its subroutines once. The part that runs first is `start`, and `xs` are
the subroutines in the order of their code. -/
structure Emits (s : Settings) (p : Program) (code start : Code) (queue : List Queued) (xs : List Emitted) :
    Prop where
  layout : ∃ strings, code = layout p.globalSize start (xs.flatMap (·.code s)) strings
  /-- Outside of subroutines the addresses of those in the queue are taken, and there is no way out. -/
  linked : Linked none p.references queue start.references
  bodies : ∀ x ∈ xs, x.IsLinked
  /-- Each subroutine is there because its address is taken at one place. -/
  queued : xs.map (·.toQueued) = queue ++ xs.flatMap (·.found)
  once : (xs.map (·.node) : Multiset Subroutine) = p.allSubroutines
  labels : ∀ x ∈ xs, (Code.labels code).count (.text x.start) = 1 ∧ (Code.labels code).count (.text x.exit) = 1
  /-- Nothing else refers to subroutines. -/
  references_eq : code.references = start.references ++ xs.flatMap (·.lines.references)

lemma references_layout (n : Nat) (start bodies : Code) (t : StringTable) :
    Code.references (layout n start bodies t.code) = start.references ++ bodies.references := by
  have hstrings : Code.references t.code = [] := by
    unfold StringTable.code
    induction t.entries with
    | nil => rfl
    | cons x xs ih =>
      rw [List.flatMap_cons, references_append, ih]
      rfl
  have henv : Code.references Environment.prelude = [] ∧ Code.references Environment.heap = [] := by
    decide +kernel
  have hcell : Code.references (cell Cell.globals (.int .dataZ n)) = [] := rfl
  rw [Environment.prelude] at henv
  simp only [layout, references_append] at henv ⊢
  simp [henv, hcell, hstrings]

lemma mem_labels_layout {n : Nat} {start bodies strings : Code} {l : Label} (hl : l ∈ codeLabels bodies) :
    l ∈ Code.labels (layout n start bodies strings) := by
  refine Code.mem_labels.mpr (.inl ?_)
  simp only [layout, codeLabels_append, List.mem_append]
  tauto

open Lower

variable {r : Rules} {p p' : Program}

/-- What comes in front of the queue: the addresses of declared subroutines and the main block. -/
lemma Elab.links (hr : r.registry = standard) (h : Program.Elab r p p') (hs : p.isSource) (s : Settings) :
    ∃ entries st₁ main st₂, ((p'.applyWidening standard).funcs.mapM Func.lowerEntry).run (initial s) =
        .ok (entries, st₁) ∧
      (Stmt.lowerAll none (p'.applyWidening standard).main).run st₁ = .ok (main, st₂) ∧
      Links none (initial s) (p'.applyWidening standard).references (Code.references (entries.flatten ++ main))
        st₂ := by
  simp only [Program.isSource, Bool.and_eq_true, List.all_eq_true] at hs
  have hstart : Links none (initial s) [] [] (initial s) :=
    ⟨⟨[], rfl, .nil⟩, by simp [StringTable.IsPlain, initial]⟩
  cases h with
  | @intro fs fs' _ _ _ declared checked block =>
    have hΓ := declared.allValues (fun f hf => (hs.1 f hf).1) Ctx.allValues_global
    have hbinding : ∀ f ∈ fs'.map fun f => { f with body := Stmt.applyWidenings standard f.body },
        f.head.binding.isSome := by
      intro f hf
      obtain ⟨f', hf', rfl⟩ := List.mem_map.mp hf
      obtain ⟨f₀, hf₀, ⟨⟩⟩ := exists_of_forall₂ checked hf'
      exact declared.isSome_binding f₀ hf₀
    obtain ⟨entries, st₁, hentries, hst₁⟩ := refers_entries hbinding [] [] _ _ hstart
    obtain ⟨main, st₂, hmain, hst₂⟩ :=
      block.refers hr (by simp) (by simp) (Ctx.allValues_enter hΓ) hs.2 _ _ _ _ hst₁
    refine ⟨entries, st₁, main, st₂, hentries, hmain, ?_⟩
    rw [references_append]
    exact hst₂

lemma lower_of_run {s : Settings} {code : Code} {st : LowerState}
    (h : (p.lowerAll s).run (initial s) = .ok (code, st)) : p.lower s = .ok code := by
  show Except.map _ ((p.lowerAll s).run (initial s)) = _
  rw [h]
  rfl

/-- A checked program can be lowered, and its code holds each of its subroutines once. -/
theorem Elab.exists_emits (hr : r.registry = standard) (h : Program.Elab r p p') (hs : p.isSource)
    (s : Settings) : ∃ code st start queue xs,
      ((p'.applyWidening standard).lowerAll s).run (initial s) = .ok (code, st) ∧ st.pending = [] ∧
      Emits s (p'.applyWidening standard) code start queue xs := by
  obtain ⟨entries, st₁, main, st₂, hentries, hmain, ⟨queue, hqueue, hlinked⟩, hstrings⟩ := h.links hr hs s
  obtain ⟨ps, -, hpending, -, hps, -⟩ := (h.makes hr hs hentries hmain).1
  have hpending : st₂.pending = ps := hpending
  have hall : Queued.all queue = (p'.applyWidening standard).allSubroutines :=
    hlinked.all_eq.trans (subroutines_references _)
  obtain ⟨xs, st₃, hdrain, hdone, hxs, hqueued, hnodes⟩ := exists_drained (s := s)
    (p'.applyWidening standard).subroutines hqueue (hpending ▸ hps) hstrings (hall ▸ (card_allSubroutines _).le)
  have hrun : ((p'.applyWidening standard).lowerAll s).run (initial s) = .ok (layout p'.globalSize
      (entries.flatten ++ main) (xs.flatMap (·.code s)) st₃.strings.code, st₃) := by
    have hget : (get : Lower LowerState).run st₃ = .ok (st₃, st₃) := rfl
    rw [lowerAll, run_bind_of_ok hentries, run_bind_of_ok hmain, run_bind_of_ok hdrain, run_bind_of_ok hget]
    simp only [layout, List.append_assoc]
    rfl
  have hnodup : (Code.labels (layout p'.globalSize (entries.flatten ++ main) (xs.flatMap (·.code s))
      st₃.strings.code)).Nodup := by
    obtain ⟨P, hparts, -⟩ := h.exists_parts hr hs (lower_of_run hrun)
    rw [hparts]
    exact (Code.labels_perm _).nodup_iff.mpr (P.nodup_labels_code p'.globalSize)
  refine ⟨_, st₃, _, queue, xs, hrun, hdone, ⟨_, rfl⟩, hlinked, hxs, hqueued, hnodes.trans hall, ?_, ?_⟩
  · intro x hx
    have hlabels : ∀ l ∈ codeLabels (x.code s), (Code.labels _).count l = 1 := fun l hl => by
      refine List.count_eq_one_of_mem hnodup (mem_labels_layout ?_)
      obtain ⟨line, hline, hdef⟩ := List.mem_filterMap.mp hl
      exact List.mem_filterMap.mpr ⟨line, List.mem_flatMap.mpr ⟨x, hx, hline⟩, hdef⟩
    rw [Emitted.code, Lowering.codeLabels_subroutine] at hlabels
    exact ⟨hlabels _ List.mem_cons_self, hlabels _ (by simp [Queued.exit])⟩
  · rw [references_layout, List.flatMap_def, references_flatten, List.flatMap_map]
    simp only [Emitted.code, Lowering.references_subroutine]

/-- A checked program can be lowered. -/
lemma Elab.exists_lower (hr : r.registry = standard) (h : Program.Elab r p p') (hs : p.isSource)
    (s : Settings) : ∃ code, (p'.applyWidening standard).lower s = .ok code := by
  obtain ⟨code, st, -, -, -, hrun, -⟩ := h.exists_emits hr hs s
  exact ⟨code, lower_of_run hrun⟩

end Program

end SubrLang
