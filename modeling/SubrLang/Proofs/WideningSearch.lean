import SubrLang.Proofs.ConservativeWidening

/-!
# The search for a widening

The search goes over the operands twice and keeps a retyping when the types then fit. It goes on behind the
first one that it keeps, and yet it finds something exactly if retyping a single operand is enough.

* **One pass.** The first operand that a pass keeps stands in the original list, as all before it were put
  back; and behind it the types fit and go on fitting. So a pass ends with types that fit if and only if one
  of its retypings alone makes them fit (`Widening.fits_pass_iff`).
* **Two passes.** If the first pass ends with types that do not fit it has changed nothing, so the second one
  starts from the original types (`Widening.widen_eq`).
* **Notes.** Checking notes conversions only on the operands of a search that succeeded
  (`Expr.pending_check_operator`, `Expr.pending_check_call`).
-/

namespace SubrLang

namespace Widening

variable {fits : List Ty → Bool} {retype : Ty → Option (Ty × List Prim)} {first : Nat}
  {actuals : List Ty}

/-! ## One pass -/

lemma types_set (ws : List Widened) (i : Nat) (w : Widened) :
    types (ws.set i w) = (types ws).set i w.1 := by
  simp [types, List.map_set]

/-- A pass over types that do not fit makes them fit if and only if one retyping does. -/
lemma fits_pass_iff : ∀ (ws done : List Widened), fits (types (done ++ ws)) = false →
    (fits (types (pass (m := Id) fits retype done ws)) = true ↔
      ∃ i, done.length ≤ i ∧ ∃ w v, (done ++ ws)[i]? = some w ∧ retype w.1 = some v ∧
        fits (types ((done ++ ws).set i v)) = true) := by
  intro ws
  induction ws with
  | nil =>
    intro done hfit
    have hpass : pass (m := Id) fits retype done [] = done := rfl
    rw [List.append_nil] at hfit ⊢
    rw [hpass]
    constructor
    · intro h
      rw [hfit] at h
      cases h
    · rintro ⟨i, hi, w, v, hw, -⟩
      rw [List.getElem?_eq_none hi] at hw
      cases hw
  | cons w ws ih =>
    intro done hfit
    have hhead : (done ++ w :: ws)[done.length]? = some w := by simp
    have hset : ∀ v, (done ++ w :: ws).set done.length v = done ++ v :: ws := by simp
    -- the operand stays as it is, and the pass goes on behind it
    have hkeep : (∀ v, retype w.1 = some v → fits (types (done ++ v :: ws)) = false) →
        (fits (types (pass (m := Id) fits retype (done ++ [w]) ws)) = true ↔
          ∃ i, done.length ≤ i ∧ ∃ u v, (done ++ w :: ws)[i]? = some u ∧ retype u.1 = some v ∧
            fits (types ((done ++ w :: ws).set i v)) = true) := by
      intro hne
      have hsplit : done ++ w :: ws = done ++ [w] ++ ws := List.append_cons done w ws
      rw [hsplit] at hfit hhead hset ⊢
      rw [ih (done ++ [w]) hfit]
      refine exists_congr fun i => ⟨fun ⟨hi, h⟩ => ⟨?_, h⟩, fun ⟨hi, u, v, hu, hv, h⟩ =>
        ⟨?_, u, v, hu, hv, h⟩⟩
      · rw [List.length_append] at hi
        omega
      · rcases hi.eq_or_lt with rfl | hi
        · obtain rfl : w = u := by simpa [hhead] using hu
          rw [hset v, hne v hv] at h
          cases h
        · simpa using hi
    simp only [pass]
    split
    · next v hv =>
      by_cases hfits : fits (types (done ++ v :: ws)) = true
      · refine iff_of_true ?_ ⟨done.length, le_rfl, w, v, hhead, hv, ?_⟩
        · simp only [bind, hfits, if_true]
          obtain ⟨ws', he, -, rfl | hfits'⟩ := pass_spec fits retype ws (done ++ [v])
          · rw [he, ← List.append_cons]
            exact hfits
          · rw [he]
            exact hfits'
        · rw [hset]
          exact hfits
      · simp only [bind, hfits]
        refine hkeep fun v' hv' => ?_
        obtain rfl : v = v' := by simpa [hv] using hv'
        simpa using hfits
    · next hnone => exact hkeep fun v hv => by simp [hnone] at hv

/-- Whether replacing one operand of type `s`, from the number `first` on, by one of type `t` makes the types
fit. -/
def Suffices (fits : List Ty → Bool) (first : Nat) (actuals : List Ty) (s t : Ty) : Prop :=
  ∃ i ≥ first, actuals[i]? = some s ∧ fits (actuals.set i t) = true

lemma fits_passAll_iff (hfit : fits actuals = false) :
    fits (types (passAll fits retype first actuals)) = true ↔
      ∃ s v, retype s = some v ∧ Suffices fits first actuals s v.1 := by
  have hall := List.take_append_drop first (Rules.unchanged actuals)
  rw [passAll, fits_pass_iff _ _ (by rw [hall, types_unchanged]; exact hfit), hall]
  simp only [types_set, types_unchanged]
  simp only [Rules.unchanged, List.length_take, List.length_map, List.getElem?_map,
    Option.map_eq_some_iff]
  constructor
  · rintro ⟨i, hi, w, v, ⟨s, hs, rfl⟩, hv, h⟩
    have hlt : i < actuals.length := (List.getElem?_eq_some_iff.mp hs).1
    exact ⟨s, v, hv, i, by omega, hs, h⟩
  · rintro ⟨s, v, hv, i, hi, hs, h⟩
    exact ⟨i, by omega, (s, []), v, ⟨s, hs, rfl⟩, hv, h⟩

/-! ## Two passes -/

lemma fits_integers_iff (hfit : fits actuals = false) :
    fits (types (passAll fits toInteger? first actuals)) = true ↔
      Suffices fits first actuals .character .integer := by
  simp [fits_passAll_iff hfit, toInteger?_eq_some_iff]

lemma fits_floats_iff (hfit : fits actuals = false) :
    fits (types (passAll fits toFloat? first actuals)) = true ↔
      Suffices fits first actuals .character .float ∨ Suffices fits first actuals .integer .float := by
  rw [fits_passAll_iff hfit]
  constructor
  · rintro ⟨s, v, hv, h⟩
    rcases toFloat?_eq_some_iff.mp hv with ⟨rfl, rfl⟩ | ⟨rfl, rfl⟩
    · exact .inl h
    · exact .inr h
  · rintro (h | h)
    · exact ⟨.character, (.float, [.integer, .float]), rfl, h⟩
    · exact ⟨.integer, (.float, [.float]), rfl, h⟩

/-- What is found comes from one of the passes, from the second only if the first one failed. -/
lemma eq_passAll_of_widen {ws : List Widened} (h : widen (m := Id) fits first actuals = some ws) :
    ws = passAll fits toInteger? first actuals ∨
      ws = passAll fits toFloat? first actuals ∧
        ¬ fits (types (passAll fits toInteger? first actuals)) = true := by
  rw [widen_eq] at h
  split at h
  · exact .inl (Option.some.inj h).symm
  · next hints =>
    split at h
    · exact .inr ⟨(Option.some.inj h).symm, hints⟩
    · cases h

lemma types_getElem?_of_lt (retype : Ty → Option (Ty × List Prim)) {i : Nat} (hi : i < first) :
    (types (passAll fits retype first actuals))[i]? = actuals[i]? := by
  have htake : (types (passAll fits retype first actuals)).take first = actuals.take first := by
    rw [types, ← List.map_take, (passAll_spec fits retype first actuals).1, List.map_take]
    exact congrArg (List.take first) (types_unchanged actuals)
  rw [← List.getElem?_take_of_lt hi, htake, List.getElem?_take_of_lt hi]

/-- The first pass makes no floats. -/
lemma eq_float_of_integers {i : Nat}
    (h : (types (passAll fits toInteger? first actuals))[i]? = some .float) :
    actuals[i]? = some .float := by
  have hws := (passAll_spec fits toInteger? first actuals).2.1
  simp only [types, List.getElem?_map, Option.map_eq_some_iff] at h
  obtain ⟨w, hw, hfloat⟩ := h
  obtain ⟨hlt, rfl⟩ := List.getElem?_eq_some_iff.mp hw
  have hlt' : i < actuals.length := hws.length_eq ▸ hlt
  rw [List.getElem?_eq_getElem hlt']
  rcases hws.get hlt' hlt with hsame | hint
  · exact congrArg some ((congrArg Prod.fst hsame).symm.trans hfloat)
  · have hw := (toInteger?_eq_some_iff.mp hint).2
    exact absurd ((congrArg Prod.fst hw).symm.trans hfloat) (by simp)

/-- What a widening says about the operand: conversions are given if its type changes and only then, the last
one leads to the new type, and a character becomes a float by way of an integer. -/
lemma chain_of_widens {t u : Ty} {chain : List Prim} (h : Widens t (u, chain)) :
    (chain ≠ [] ↔ u ≠ t) ∧ (chain ≠ [] → chain.getLast?.map Ty.prim = some u) ∧
      (t = .character → u = .float → chain = [.integer, .float]) := by
  cases h with
  | same =>
    refine ⟨by simp, by simp, ?_⟩
    rintro rfl h
    cases h
  | charToInt | charToFloat | intToFloat => simp

end Widening

/-! ## Notes -/

namespace Check

variable {α β : Type} {x : Check α} {f : α → Check β} {Q : β → Prop}

/-- Whatever a check starts from, what it gives has a property. -/
def Gives (x : Check β) (Q : β → Prop) : Prop := ∀ st, Q (x.run st).1

lemma gives_bind (h : ∀ a, Gives (f a) Q) : Gives (x >>= f) Q := fun _ => h _ _

lemma gives_pure {b : β} (h : Q b) : Gives (pure b) Q := fun _ => h

end Check

open Check

/-- A checked expression has no conversion noted yet: that is up to what it is part of. -/
lemma Expr.gives_plain (r : Rules) (isStmt : Bool) (e : Expr) :
    Check.Gives (e.check r isStmt) fun e' => e'.note.widening = [] := by
  cases e with
  | number | floatNumber | char | string | bool | typeLiteral =>
    simp only [Expr.check]
    exact gives_pure rfl
  | ident n x b =>
    simp only [Expr.check]
    refine gives_bind fun found => ?_
    cases found with
    | ok b => exact gives_pure rfl
    | error e => exact gives_bind fun t => gives_pure rfl
  | operator n op es g =>
    simp only [Expr.check]
    refine gives_bind fun es' => ?_
    split
    · exact gives_pure rfl
    · split
      · exact gives_bind fun es'' => gives_pure rfl
      · exact gives_bind fun t => gives_pure rfl
  | arrayLiteral n es =>
    simp only [Expr.check]
    refine gives_bind fun es' => ?_
    split
    · exact gives_pure rfl
    · split
      · exact gives_bind fun es'' => gives_pure rfl
      · exact gives_bind fun t => gives_pure rfl
  | arrayAlloc n t l =>
    simp only [Expr.check]
    refine gives_bind fun l' => ?_
    split
    · exact gives_pure rfl
    · split
      · exact gives_bind fun ls => gives_pure rfl
      · exact gives_bind fun t => gives_pure rfl
  | index n a i =>
    simp only [Expr.check]
    refine gives_bind fun a' => gives_bind fun i' => ?_
    split
    · exact gives_pure rfl
    · exact gives_bind fun t => gives_pure rfl
  | call n f es =>
    simp only [Expr.check]
    refine gives_bind fun f' => gives_bind fun es' => ?_
    split
    · exact gives_pure rfl
    · split
      · refine gives_bind fun es'' => ?_
        split
        · exact gives_bind fun t => gives_pure rfl
        · exact gives_pure rfl
      · exact gives_bind fun t => gives_pure rfl
  | lambda n h b =>
    simp only [Expr.check]
    exact gives_bind fun found => gives_pure rfl

lemma Expr.noted_checkAll (r : Rules) (es : List Expr) :
    Check.Gives (Expr.checkAll r es) fun es' => Widening.noted es' = [] := by
  induction es with
  | nil =>
    simp only [Expr.checkAll]
    exact gives_pure rfl
  | cons e es ih =>
    intro st
    simp only [Expr.checkAll, run_bind, run_pure]
    have hhead := Expr.gives_plain r false e st
    have htail := ih ((e.check r false).run st).2
    simp only [Widening.noted] at htail ⊢
    simp [hhead, htail]

namespace Expr

variable {r : Rules} {isStmt : Bool} {n : Note} {es es' : List Expr} {st st' : CheckState}

/-- An operator whose operands cannot be widened adds no conversion to those noted inside its operands. -/
lemma pending_check_operator {op : TokenKind} {g : Option Signature}
    (hes : (Expr.checkAll r es).run st = (es', st'))
    (h : Widening.operator r.registry op (es'.map Expr.checkedTy) = none) :
    (((Expr.operator n op es g).check r isStmt).run st).1.pending = Expr.pendings es' := by
  have hnoted : Widening.noted es' = [] := by
    have := Expr.noted_checkAll r es st
    rwa [hes] at this
  have hnode : ∀ m s, (Expr.operator m op es' s).pending = Expr.pendings es' := fun m s => by
    rw [Expr.pending, hnoted, List.append_nil]
  simp only [Expr.check, run_bind, hes]
  split
  · exact hnode _ _
  · split
    · next s t ws hrule =>
      have hws : ws = Rules.unchanged (es'.map Expr.checkedTy) := by
        unfold Rules.operator at hrule
        split at hrule
        · cases hrule
          rfl
        · simp [Rules.widened, h] at hrule
      rw [hws, run_bind, Check.widen_unchanged]
      exact hnode _ _
    · exact hnode _ _

/-- A call whose arguments cannot be widened adds no conversion to those noted inside its parts. -/
lemma pending_check_call {f f' : Expr} {st₁ : CheckState} (hf : (f.check r false).run st = (f', st₁))
    (hes : (Expr.checkAll r es).run st₁ = (es', st'))
    (h : ∀ params result, f'.checkedTy = .func params result →
      Widening.arguments params (es'.map Expr.checkedTy) = none) :
    (((Expr.call n f es).check r isStmt).run st).1.pending = f'.pending ++ Expr.pendings es' := by
  have hnoted : Widening.noted es' = [] := by
    have := Expr.noted_checkAll r es st₁
    rwa [hes] at this
  have hnode : ∀ m, (Expr.call m f' es').pending = f'.pending ++ Expr.pendings es' := fun m => by
    rw [Expr.pending, hnoted, List.append_nil]
  simp only [Expr.check, run_bind, hf, hes]
  split
  · exact hnode _
  · split
    · next t ws hrule =>
      have hws : ws = Rules.unchanged (es'.map Expr.checkedTy) := by
        unfold Rules.call at hrule
        split at hrule
        · next params result hty =>
          split at hrule
          · cases hrule
          · split at hrule
            · cases hrule
              rfl
            · simp [Rules.widened, h params result hty] at hrule
        · cases hrule
      rw [hws, run_bind, Check.widen_unchanged]
      simp only [run_pure]
      split
      · exact hnode _
      · exact hnode _
    · exact hnode _

end Expr

namespace Widening

/-- A search over types that do not fit succeeds if and only if one operand from the number `first` on can be
replaced, a character by an integer or either by a float, so that they fit. Floats are used only where no
integer does. What is found fits, leaves the operands before `first` as they are and gives conversions for
exactly the operands whose type changes. Where the search fails, checking an operator or a call notes
nothing. -/
theorem widen_single (fits : List Ty → Bool) (first : Nat) (actuals : List Ty)
    (hfit : fits actuals = false) :
    ((widen (m := Id) fits first actuals).isSome = true ↔
      Suffices fits first actuals .character .integer ∨ Suffices fits first actuals .character .float ∨
        Suffices fits first actuals .integer .float) ∧
    (∀ ws, widen (m := Id) fits first actuals = some ws →
      fits (types ws) = true ∧ ws.length = actuals.length ∧
      (∀ i < first, (types ws)[i]? = actuals[i]?) ∧
      (∀ i : Nat, actuals[i]? ≠ some .float → (types ws)[i]? = some .float →
        ¬ Suffices fits first actuals .character .integer) ∧
      ∀ (i : Nat) t u chain, actuals[i]? = some t → ws[i]? = some (u, chain) →
        (chain ≠ [] ↔ u ≠ t) ∧ (chain ≠ [] → chain.getLast?.map Ty.prim = some u) ∧
        (t = .character → u = .float → chain = [.integer, .float])) ∧
    (∀ r isStmt n op es g st es' st', (Expr.checkAll r es).run st = (es', st') →
      operator r.registry op (es'.map Expr.checkedTy) = none →
      (((Expr.operator n op es g).check r isStmt).run st).1.pending = Expr.pendings es') ∧
    ∀ r isStmt n f es st f' st₁ es' st', (f.check r false).run st = (f', st₁) →
      (Expr.checkAll r es).run st₁ = (es', st') →
      (∀ params result, f'.checkedTy = .func params result →
        arguments params (es'.map Expr.checkedTy) = none) →
      (((Expr.call n f es).check r isStmt).run st).1.pending = f'.pending ++ Expr.pendings es' := by
  refine ⟨?_, fun ws hws => ?_, fun _ _ _ _ _ _ _ _ _ => Expr.pending_check_operator,
    fun _ _ _ _ _ _ _ _ _ _ => Expr.pending_check_call⟩
  · rw [← fits_integers_iff hfit, ← fits_floats_iff hfit, widen_eq]
    split
    · next hints => simp [hints]
    · next hints =>
      split
      · next hfloats => simp [hfloats]
      · next hfloats => simp [hints, hfloats]
  · obtain ⟨hfits, hwidens⟩ := widen_spec hws
    refine ⟨hfits, hwidens.length_eq.symm, fun i hi => ?_, fun i hne hfloat hints => ?_,
      fun i t u chain ht hu => ?_⟩
    · rcases eq_passAll_of_widen hws with rfl | ⟨rfl, -⟩
      · exact types_getElem?_of_lt toInteger? hi
      · exact types_getElem?_of_lt toFloat? hi
    · rcases eq_passAll_of_widen hws with rfl | ⟨-, hfail⟩
      · exact hne (eq_float_of_integers hfloat)
      · exact hfail ((fits_integers_iff hfit).mpr hints)
    · obtain ⟨hlt, rfl⟩ := List.getElem?_eq_some_iff.mp ht
      obtain ⟨hlt', hu⟩ := List.getElem?_eq_some_iff.mp hu
      have h := hwidens.get hlt hlt'
      exact chain_of_widens (hu ▸ h)

theorem widen_single_charPlusFloat :
    (Registry.standard.resolve .plus [.character, .float]).isSome = false ∧
      (widen (m := Id) (fun ts => (Registry.standard.resolve .plus ts).isSome) 0
        [.character, .float]).isSome = true := by
  have hfit : (Registry.standard.resolve .plus [.character, .float]).isSome = false := by decide +kernel
  refine ⟨hfit, (widen_single _ 0 _ hfit).1.mpr (.inr (.inl ⟨0, le_rfl, rfl, ?_⟩))⟩
  decide +kernel

end Widening

end SubrLang
