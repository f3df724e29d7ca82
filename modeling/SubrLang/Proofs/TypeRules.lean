import SubrLang.Typing
import SubrLang.Proofs.TypeMatching

/-!
# The rules for types

The types of a program have no type variables, and on such types matching is equality (`Ty.same_iff`). From
this follows what the rules of the checker say.

* **Signatures.** A signature that is found takes the operand types as they are, and the two with a type
  variable take an array (`Registry.resolve_standard`).
* **Widening.** A search retypes an operand only along `Widens`: a character to an integer, or a character
  or an integer to a float. If the first pass retypes anything the operands fit, so that the second pass
  always starts from the original types (`Widening.widen_spec`).
* **Rules.** `Rules.operator_spec`, `Rules.elements_spec`, `Rules.length_spec` and `Rules.call_spec` put
  both together.
-/

namespace SubrLang

/-! ## Types of values -/

namespace Ty

mutual

/-- Whether variables can have a type. The head of a subroutine may say that a parameter is void, and then
only checking its body finds that wrong; so parts of a function type may be void. -/
def isValue : Ty → Bool
  | prim .void => false
  | prim .error => false
  | prim _ => true
  | array t => t.isValue
  | func ps r => areResults ps && (r.isVoid || r.isValue)
  | var _ => false
  | literal _ => false

/-- Whether each type of a list is void or one that variables can have. -/
def areResults : List Ty → Bool
  | [] => true
  | t :: ts => (t.isVoid || t.isValue) && areResults ts

end

/-- Whether values of a type can be printed. -/
def isPrintable : Ty → Bool
  | prim .void => false
  | prim .error => false
  | prim _ => true
  | array t => t.isPrintable
  | func _ _ => true
  | var _ => false
  | literal _ => false

lemma isPrintable_of_isValue {t : Ty} (h : t.isValue) : t.isPrintable := by
  fun_induction isPrintable t with
  | case4 t ih => exact ih h
  | _ => simp_all [isValue]

/-- Whether a subroutine can have a result of the type. -/
def isResult (t : Ty) : Bool := t.isVoid || t.isValue

lemma areResults_iff {ts : List Ty} : areResults ts ↔ ∀ t ∈ ts, t.isResult := by
  induction ts with
  | nil => simp [areResults]
  | cons t ts ih => simp [areResults, isResult, ih]

@[simp] lemma isValue_func {ps : List Ty} {r : Ty} :
    (func ps r).isValue ↔ (∀ p ∈ ps, p.isResult) ∧ r.isResult := by
  simp [isValue, areResults_iff, isResult]

lemma not_isError_of_isValue {t : Ty} (h : t.isValue) : t.isError = false := by
  cases t with
  | prim p => cases p <;> simp_all [isValue, isError]
  | _ => rfl

lemma not_isVoid_of_isValue {t : Ty} (h : t.isValue) : t.isVoid = false := by
  cases t with
  | prim p => cases p <;> simp_all [isValue, isVoid]
  | _ => rfl

lemma eq_of_isPrim {p : Prim} {t : Ty} (h : t.isPrim p) : t = prim p := by
  cases t <;> simp_all [isPrim]

lemma size_le (t : Ty) : t.size ≤ 8 := by
  cases t with
  | prim p => cases p <;> decide
  | array | func | var | literal => simp [size]

lemma eq_void_of_isVoid {t : Ty} (h : t.isVoid) : t = void := by
  cases t with
  | prim p => cases p <;> simp_all [isVoid]
  | _ => simp [isVoid] at h

mutual

lemma isGround_of_isValue : ∀ t : Ty, t.isValue → t.isGround
  | prim _, _ => rfl
  | array t, h => isGround_of_isValue t h
  | func ps r, h => by
    simp only [isValue, Bool.and_eq_true, Bool.or_eq_true] at h
    simp only [isGround, Bool.and_eq_true]
    refine ⟨areGround_of_areResults ps h.1, ?_⟩
    rcases h.2 with hv | hv
    · rw [eq_void_of_isVoid hv]
      rfl
    · exact isGround_of_isValue r hv

lemma areGround_of_areResults : ∀ ts : List Ty, areResults ts → areGround ts
  | [], _ => rfl
  | t :: ts, h => by
    simp only [areResults, Bool.and_eq_true, Bool.or_eq_true] at h
    simp only [areGround, Bool.and_eq_true]
    refine ⟨?_, areGround_of_areResults ts h.2⟩
    rcases h.1 with hv | hv
    · rw [eq_void_of_isVoid hv]
      rfl
    · exact isGround_of_isValue t hv

end

end Ty

/-! ## Signatures -/

namespace Registry

/-- The signature of `length`. -/
def lengthSignature : Signature :=
  { expanded .kwLength .arrayLength .integer [.array (.var lengthElem)] with vars := [lengthElem] }

/-- The signature of the conversion of an array to its own type. -/
def arrayCastSignature : Signature :=
  { conversion (.opcode (.plain .nop)) (.array (.var castElem)) (.array (.var castElem)) with
    vars := [castElem] }

end Registry

namespace Signature

open Matching

/-- A signature without variables takes operands of exactly its types. -/
lemma params_eq_of_accepts {s : Signature} {ts : List Ty} {b b' : Bindings} (hp : Ty.areGround s.params)
    (ht : ∀ t ∈ ts, t.isGround) (h : Yields (s.accepts ts) b true b') : s.params = ts := by
  have hvars : Ty.varsAll s.params = [] := by
    simpa [Ty.vars] using Ty.vars_of_isGround (t := .func s.params .void) (by simp [Ty.isGround, hp])
  obtain ⟨σ, hσ, -⟩ := exists_unifies_of_accepts (by simp [ListsVars, hvars]) ht h
  rw [← hσ, ← Ty.substAll_eq_map]
  conv_lhs => rw [← Ty.substAll_var s.params]
  rw [Ty.substAll_eq_substAll_iff, hvars]
  simp

/-- A type without variables stays as it is. -/
lemma instantiate_ground (b : Bindings) : ∀ {t : Ty}, t.isGround → instantiate b t = t
  | .var _, h => by simp [Ty.isGround] at h
  | .array t, h => by rw [instantiate, instantiate_ground b (t := t) h]
  | .prim _, _ => rfl
  | .func _ _, _ => rfl
  | .literal _, _ => rfl

end Signature

namespace Registry

open Matching

lemma mem_of_firstAccepting {ts : List Ty} {s : Signature} :
    ∀ {ss : List Signature} {b b' : Bindings}, Yields (firstAccepting ts ss) b (some s) b' →
      s ∈ ss ∧ ∃ b₀, Yields (s.accepts ts) b₀ true b' := by
  intro ss
  induction ss with
  | nil =>
    intro b b' h
    simp [firstAccepting] at h
  | cons s' ss ih =>
    intro b b' h
    simp only [firstAccepting, yields_bind] at h
    obtain ⟨v, b₁, hv, h⟩ := h
    cases v with
    | false =>
      obtain ⟨hm, hb⟩ := ih h
      exact ⟨List.mem_cons_of_mem _ hm, hb⟩
    | true =>
      simp only [if_true, yields_pure, Option.some.injEq] at h
      obtain ⟨rfl, rfl⟩ := h
      exact ⟨List.mem_cons_self, b, hv⟩

/-- All signatures but two take types without variables, and have a type of values as result. -/
lemma standard_cases {s : Signature} (h : s ∈ standard) :
    (Ty.areGround s.params ∧ s.result.isValue ∧ s.vars = []) ∨
      s = lengthSignature ∨ s = arrayCastSignature := by
  simp only [standard, simple, comparison, List.map_cons, List.map_nil, List.flatMap_cons,
    List.flatMap_nil, List.cons_append, List.nil_append, List.append_nil, List.mem_cons,
    List.not_mem_nil, or_false] at h
  casesm* _ ∨ _ <;> subst h <;>
    first
      | exact .inl ⟨rfl, rfl, rfl⟩
      | exact .inr (.inl rfl)
      | exact .inr (.inr rfl)

/-- What a signature of the language says about operand types without variables that it takes: they are
its own, or it is one of the two for arrays. -/
inductive Takes : Signature → List Ty → Ty → Prop
  | plain {s : Signature} (vars : s.vars = []) (result : s.result.isValue) : Takes s s.params s.result
  | length (e : Ty) : Takes lengthSignature [.array e] .integer
  | arrayCast (e : Ty) : Takes arrayCastSignature [.literal (.array e), .array e] (.array e)

lemma takes_of_accepts {s : Signature} (hs : s ∈ standard) {ts : List Ty} {b b' : Bindings}
    (ht : ∀ t ∈ ts, t.isGround) (h : Yields (s.accepts ts) b true b') :
    Takes s ts (s.resultType b') := by
  rcases standard_cases hs with ⟨hp, hr, hv⟩ | rfl | rfl
  · obtain rfl := Signature.params_eq_of_accepts hp ht h
    rw [Signature.resultType, Signature.instantiate_ground _ (Ty.isGround_of_isValue _ hr)]
    exact .plain hv hr
  · obtain ⟨σ, rfl, -⟩ := Signature.exists_unifies_of_accepts
      (by simp [Signature.ListsVars, lengthSignature, expanded, Ty.varsAll, Ty.vars]) ht h
    exact .length (σ lengthElem)
  · obtain ⟨σ, rfl, hb⟩ := Signature.exists_unifies_of_accepts
      (by simp [Signature.ListsVars, arrayCastSignature, conversion, Ty.varsAll, Ty.vars]) ht h
    have hres : arrayCastSignature.resultType b' = .array (σ castElem) := by
      simp [Signature.resultType, arrayCastSignature, conversion, Signature.instantiate,
        hb castElem (by decide)]
    rw [hres]
    exact .arrayCast (σ castElem)

/-- What the language's signatures say about operand types without variables. -/
theorem resolve_standard {op : TokenKind} {ts : List Ty} {s : Signature} {t : Ty}
    (ht : ∀ t ∈ ts, t.isGround) (h : standard.resolve op ts = some (s, t)) :
    s ∈ standard ∧ s.key = op ∧ Takes s ts t := by
  unfold resolve at h
  split at h
  · next s' b hs =>
    simp only [Option.some.injEq, Prod.mk.injEq] at h
    obtain ⟨rfl, rfl⟩ := h
    obtain ⟨hm, b₀, hb⟩ := mem_of_firstAccepting (b := []) hs
    simp only [List.mem_filter, beq_iff_eq] at hm
    exact ⟨hm.1, hm.2, takes_of_accepts hm.1 ht hb⟩
  · simp at h

end Registry

/-! ## Widening -/

/-- The conversions that an operand may undergo where it stands. -/
inductive Widens : Ty → Widened → Prop
  | same (t : Ty) : Widens t (t, [])
  | charToInt : Widens .character (.integer, [.integer])
  | charToFloat : Widens .character (.float, [.integer, .float])
  | intToFloat : Widens .integer (.float, [.float])

namespace Widening

lemma toInteger?_eq_some_iff {t : Ty} {w : Widened} :
    toInteger? t = some w ↔ t = .character ∧ w = (.integer, [.integer]) := by
  unfold toInteger?
  split
  · simp [eq_comm]
  · next hne => exact iff_of_false (by simp) fun h => hne h.1

lemma toFloat?_eq_some_iff {t : Ty} {w : Widened} :
    toFloat? t = some w ↔
      t = .character ∧ w = (.float, [.integer, .float]) ∨ t = .integer ∧ w = (.float, [.float]) := by
  unfold toFloat?
  split
  · simp [eq_comm]
  · simp [eq_comm]
  · next hchar hint =>
    exact iff_of_false (by simp) fun h => h.elim (fun h => hchar h.1) fun h => hint h.1

lemma widens_of_toInteger? {t : Ty} {w : Widened} (h : toInteger? t = some w) : Widens t w := by
  obtain ⟨rfl, rfl⟩ := toInteger?_eq_some_iff.mp h
  exact .charToInt

lemma widens_of_toFloat? {t : Ty} {w : Widened} (h : toFloat? t = some w) : Widens t w := by
  rcases toFloat?_eq_some_iff.mp h with ⟨rfl, rfl⟩ | ⟨rfl, rfl⟩
  · exact .charToFloat
  · exact .intToFloat

/-- A pass changes operands only by retyping, and if it changes any then the types fit. -/
lemma pass_spec (fits : List Ty → Bool) (retype : Ty → Option (Ty × List Prim)) :
    ∀ (ws done : List Widened),
      ∃ ws', pass (m := Id) fits retype done ws = done ++ ws' ∧
        List.Forall₂ (fun w w' => w' = w ∨ retype w.1 = some w') ws ws' ∧
        (ws' = ws ∨ fits (types (done ++ ws'))) := by
  intro ws
  induction ws with
  | nil =>
    intro done
    exact ⟨[], (List.append_nil done).symm, .nil, .inl rfl⟩
  | cons w ws ih =>
    intro done
    have keep : ∃ ws', pass (m := Id) fits retype (done ++ [w]) ws = done ++ ws' ∧
        List.Forall₂ (fun w w' => w' = w ∨ retype w.1 = some w') (w :: ws) ws' ∧
        (ws' = w :: ws ∨ fits (types (done ++ ws'))) := by
      obtain ⟨ws', he, hr, hf⟩ := ih (done ++ [w])
      exact ⟨w :: ws', he.trans (List.append_cons done w ws').symm, .cons (.inl rfl) hr,
        by simpa using hf⟩
    simp only [pass]
    split
    · next v hv =>
      by_cases hfit : fits (types (done ++ v :: ws)) = true
      · obtain ⟨ws', he, hr, hf⟩ := ih (done ++ [v])
        refine ⟨v :: ws', ?_, .cons (.inr hv) hr, .inr ?_⟩
        · simp only [bind, hfit, if_true]
          exact he.trans (List.append_cons done v ws').symm
        · rcases hf with rfl | hf
          · exact hfit
          · simpa using hf
      · simp only [bind, hfit]
        exact keep
    · exact keep

/-- A pass over all operands, of which the first ones are left alone. -/
def passAll (fits : List Ty → Bool) (retype : Ty → Option (Ty × List Prim)) (first : Nat)
    (actuals : List Ty) : List Widened :=
  pass (m := Id) fits retype ((Rules.unchanged actuals).take first) ((Rules.unchanged actuals).drop first)

/-- What a pass does to each operand, and that it does nothing at all if the types do not fit at its end. -/
lemma passAll_spec (fits : List Ty → Bool) (retype : Ty → Option (Ty × List Prim)) (first : Nat)
    (actuals : List Ty) :
    (passAll fits retype first actuals).take first = (Rules.unchanged actuals).take first ∧
      List.Forall₂ (fun t w => w = (t, []) ∨ retype t = some w) actuals
        (passAll fits retype first actuals) ∧
      (passAll fits retype first actuals = Rules.unchanged actuals ∨
        fits (types (passAll fits retype first actuals)) = true) := by
  obtain ⟨ws', he, hws, hfit⟩ := pass_spec fits retype ((Rules.unchanged actuals).drop first)
    ((Rules.unchanged actuals).take first)
  have hpass : passAll fits retype first actuals = (Rules.unchanged actuals).take first ++ ws' := he
  rw [hpass]
  refine ⟨?_, ?_, ?_⟩
  · by_cases hlen : first ≤ (Rules.unchanged actuals).length
    · rw [List.take_left' (List.length_take_of_le hlen)]
    · -- nothing stands behind the first operands
      rw [List.drop_eq_nil_of_le (by omega)] at hws
      cases hws
      rw [List.append_nil, List.take_take, Nat.min_self]
  · have hall : List.Forall₂ (fun w w' => w' = w ∨ retype w.1 = some w') (Rules.unchanged actuals)
        ((Rules.unchanged actuals).take first ++ ws') := by
      conv => arg 2; rw [← List.take_append_drop first (Rules.unchanged actuals)]
      exact List.rel_append (List.forall₂_same.mpr fun w _ => .inl rfl) hws
    rwa [Rules.unchanged, List.forall₂_map_left_iff] at hall
  · rcases hfit with rfl | hfit
    · exact .inl (List.take_append_drop _ _)
    · exact .inr hfit

/-- The second pass goes over the original operands. -/
lemma widen_eq (fits : List Ty → Bool) (first : Nat) (actuals : List Ty) :
    widen (m := Id) fits first actuals =
      if fits (types (passAll fits toInteger? first actuals)) then
        some (passAll fits toInteger? first actuals)
      else if fits (types (passAll fits toFloat? first actuals)) then
        some (passAll fits toFloat? first actuals)
      else none := by
  have hints : pass (m := Id) fits toInteger? ((actuals.map (·, [])).take first)
      ((actuals.map (·, [])).drop first) = passAll fits toInteger? first actuals := rfl
  simp only [widen, bind, hints]
  split
  · rfl
  · next hfit =>
    rw [(passAll_spec fits toInteger? first actuals).2.2.resolve_right hfit]
    rfl

/-- What a search for a widening finds fits, and retypes operands in the ways there are. -/
lemma widen_spec {fits : List Ty → Bool} {first : Nat} {actuals : List Ty} {ws : List Widened}
    (h : widen (m := Id) fits first actuals = some ws) :
    fits (types ws) ∧ List.Forall₂ Widens actuals ws := by
  have hall : ∀ retype, (∀ t w, retype t = some w → Widens t w) →
      List.Forall₂ Widens actuals (passAll fits retype first actuals) := by
    intro retype hr
    refine (passAll_spec fits retype first actuals).2.1.imp ?_
    rintro t w (rfl | hw)
    · exact .same t
    · exact hr t w hw
  rw [widen_eq] at h
  split at h
  · next hfit =>
    cases h
    exact ⟨hfit, hall toInteger? fun t w => widens_of_toInteger?⟩
  · split at h
    · next hfit =>
      cases h
      exact ⟨hfit, hall toFloat? fun t w => widens_of_toFloat?⟩
    · cases h

lemma types_ground {ts : List Ty} {ws : List Widened} (hw : List.Forall₂ Widens ts ws)
    (ht : ∀ t ∈ ts, t.isGround) : ∀ t ∈ types ws, t.isGround := by
  induction hw with
  | nil => simp [types]
  | @cons t w ts ws h _ ih =>
    intro t' ht'
    simp only [types, List.map_cons, List.mem_cons] at ht'
    rcases ht' with rfl | ht'
    · cases h with
      | same => exact ht t (by simp)
      | charToInt | charToFloat | intToFloat => rfl
    · exact ih (fun t ht'' => ht t (by simp [ht''])) t' ht'

lemma forall₂_unchanged (ts : List Ty) : List.Forall₂ Widens ts (Rules.unchanged ts) := by
  rw [Rules.unchanged, List.forall₂_map_right_iff]
  exact List.forall₂_same.mpr fun t _ => .same t

@[simp] lemma types_unchanged (ts : List Ty) : types (Rules.unchanged ts) = ts := by
  simp [types, Rules.unchanged, Function.comp_def]

/-- A widening of operands gives them types that the signature takes. -/
lemma operator_spec {r : Registry} {op : TokenKind} {ts : List Ty} {s : Signature} {t : Ty}
    {ws : List Widened} (h : operator r op ts = some ((s, t), ws)) :
    r.resolve op (types ws) = some (s, t) ∧ List.Forall₂ Widens ts ws := by
  simp only [operator, search, Id.run, bind] at h
  split at h
  · cases h
  · next ws' hw =>
    obtain ⟨-, hws⟩ := widen_spec hw
    simp only [pure, Option.map_eq_some_iff, Prod.mk.injEq] at h
    obtain ⟨_, h, rfl, rfl⟩ := h
    exact ⟨h, hws⟩

lemma eq_of_matchPairs_same : ∀ {ps ts : List Ty}, ps.length = ts.length →
    (∀ p ∈ ps, p.isGround) → (∀ t ∈ ts, t.isGround) →
    Ty.matchPairs (m := Id) (fun p t => pure (p.same t)) ps ts = true → ps = ts
  | [], [], _, _, _, _ => rfl
  | p :: ps, t :: ts, hl, hp, ht, h => by
    simp only [Ty.matchPairs, bind, pure] at h
    split at h
    · next hs =>
      rw [(Ty.same_iff (hp p (by simp)) (ht t (by simp))).mp hs,
        eq_of_matchPairs_same (by simpa using hl) (fun p' hp' => hp p' (by simp [hp']))
          (fun t' ht' => ht t' (by simp [ht'])) h]
    · cases h

/-- A widening of arguments gives them the types of the parameters. -/
lemma arguments_spec {params actuals : List Ty} {ws : List Widened}
    (hp : ∀ t ∈ params, t.isGround) (ha : ∀ t ∈ actuals, t.isGround)
    (h : arguments params actuals = some ws) :
    types ws = params ∧ List.Forall₂ Widens actuals ws := by
  simp only [arguments, fitArguments, Id.run] at h
  split at h
  · next hl =>
    obtain ⟨hfit, hws⟩ := widen_spec h
    have hlw : params.length = (types ws).length := by
      rw [types, List.length_map, ← hws.length_eq, hl]
    exact ⟨(eq_of_matchPairs_same hlw hp (types_ground hws ha) hfit).symm, hws⟩
  · cases h

/-- Elements that all can be given the type `p` are given it. -/
lemma common_spec {p : Prim} {widen? : Ty → Option (Ty × List Prim)}
    (hw : ∀ s w, widen? s = some w → w.1 = .prim p ∧ Widens s w) :
    ∀ {ts : List Ty} {ws : List Widened},
      (ts.mapM fun s => if s.isPrim p then some (s, []) else widen? s) = some ws →
      (∀ u ∈ types ws, u = .prim p) ∧ List.Forall₂ Widens ts ws := by
  intro ts
  induction ts with
  | nil =>
    intro ws h
    cases h
    simp [types]
  | cons t ts ih =>
    intro ws h
    simp only [List.mapM_cons, Option.bind_eq_bind, Option.bind_eq_some_iff, Option.pure_def,
      Option.some.injEq] at h
    obtain ⟨w, hwt, us, hus, rfl⟩ := h
    have hone : w.1 = .prim p ∧ Widens t w := by
      split at hwt
      · next hp =>
        cases hwt
        exact ⟨Ty.eq_of_isPrim hp, .same t⟩
      · exact hw t w hwt
    obtain ⟨hall, hws⟩ := ih hus
    exact ⟨by simpa [types, hone.1] using hall, .cons hone.2 hws⟩

/-- A widening of elements gives all of them one type. -/
lemma elements_spec {ts : List Ty} {t : Ty} {ws : List Widened} (h : elements ts = some (t, ws)) :
    t.isValue ∧ (∀ u ∈ types ws, u = t) ∧ List.Forall₂ Widens ts ws := by
  have hint : ∀ s w, toInteger? s = some w → w.1 = .integer ∧ Widens s w := by
    intro s w hw
    obtain ⟨-, rfl⟩ := toInteger?_eq_some_iff.mp hw
    exact ⟨rfl, widens_of_toInteger? hw⟩
  have hfloat : ∀ s w, toFloat? s = some w → w.1 = .float ∧ Widens s w := by
    intro s w hw
    refine ⟨?_, widens_of_toFloat? hw⟩
    rcases toFloat?_eq_some_iff.mp hw with ⟨-, rfl⟩ | ⟨-, rfl⟩ <;> rfl
  simp only [elements] at h
  split at h
  · next us hus =>
    cases h
    exact ⟨rfl, common_spec hint hus⟩
  · simp only [Option.map_eq_some_iff, Prod.mk.injEq] at h
    obtain ⟨us, hus, rfl, rfl⟩ := h
    exact ⟨rfl, common_spec hfloat hus⟩

end Widening

namespace Rules

variable {r : Rules}

/-- A signature that an operator has is found for its operands, perhaps after widening. -/
lemma operator_resolves {op : TokenKind} {ts : List Ty} {s : Signature} {t : Ty} {ws : List Widened}
    (h : r.operator op ts = .ok (s, t, ws)) :
    r.registry.resolve op (Widening.types ws) = some (s, t) ∧ List.Forall₂ Widens ts ws := by
  unfold operator at h
  split at h
  · next s' t' hs =>
    cases h
    exact ⟨by simpa using hs, Widening.forall₂_unchanged ts⟩
  · split at h
    · next s' t' ws' hw =>
      cases h
      unfold widened at hw
      split at hw
      · exact Widening.operator_spec hw
      · cases hw
    · cases h

/-- An operator has a signature that takes its operands, perhaps after widening. -/
theorem operator_spec (hr : r.registry = Registry.standard) {op : TokenKind} {ts : List Ty}
    {s : Signature} {t : Ty} {ws : List Widened} (ht : ∀ t ∈ ts, t.isGround)
    (h : r.operator op ts = .ok (s, t, ws)) :
    s ∈ Registry.standard ∧ s.key = op ∧ Registry.Takes s (Widening.types ws) t ∧
      List.Forall₂ Widens ts ws := by
  have hfound := operator_resolves h
  rw [hr] at hfound
  obtain ⟨hm, hk, htakes⟩ :=
    Registry.resolve_standard (Widening.types_ground hfound.2 ht) hfound.1
  exact ⟨hm, hk, htakes, hfound.2⟩

/-- Elements have one type, perhaps after widening. -/
theorem elements_spec {ts : List Ty} {t : Ty} {ws : List Widened} (hne : ts ≠ [])
    (ht : ∀ t ∈ ts, t.isValue) (h : r.elements ts = .ok (t, ws)) :
    t.isValue ∧ (∀ u ∈ Widening.types ws, u = t) ∧ List.Forall₂ Widens ts ws := by
  simp only [elements] at h
  split at h
  · next hall =>
    split at h
    · cases h
    · cases h
      obtain ⟨first, rest, rfl⟩ := List.exists_cons_of_ne_nil hne
      refine ⟨ht first (by simp), ?_, Widening.forall₂_unchanged _⟩
      simp only [Widening.types_unchanged, List.mem_cons, List.headD_cons]
      rintro u (rfl | hu)
      · rfl
      · simp only [List.headD_cons, List.tail_cons, List.all_eq_true] at hall
        exact ((Ty.same_iff (Ty.isGround_of_isValue _ (ht first (by simp)))
          (Ty.isGround_of_isValue _ (ht u (by simp [hu])))).mp (hall u hu)).symm
  · split at h
    · next found hw =>
      cases h
      unfold widened at hw
      split at hw
      · exact Widening.elements_spec hw
      · cases hw
    · cases h

/-- The length of an array is an integer, perhaps after widening. -/
theorem length_spec {t : Ty} {w : Widened} (h : r.length t = .ok w) : w.1 = .integer ∧ Widens t w := by
  unfold length at h
  split at h
  · next hp =>
    cases h
    exact ⟨Ty.eq_of_isPrim hp, .same t⟩
  · split at h
    · next found hw =>
      cases h
      unfold widened at hw
      split at hw
      · obtain ⟨-, rfl⟩ := Widening.toInteger?_eq_some_iff.mp hw
        exact ⟨rfl, Widening.widens_of_toInteger? hw⟩
      · cases hw
    · cases h

/-- Only an array is indexed, and only by an integer. -/
theorem index_spec {a i t : Ty} (h : Rules.index a i = .ok t) : a = .array t ∧ i = .integer := by
  unfold index at h
  split at h
  · cases h
    exact ⟨rfl, rfl⟩
  · cases h

/-- A subroutine is called with arguments of the types of its parameters, perhaps after widening. -/
theorem call_spec {f t : Ty} {ts : List Ty} {ws : List Widened} (hf : f.isGround)
    (ht : ∀ t ∈ ts, t.isGround) (h : r.call f ts = .ok (t, ws)) :
    f = .func (Widening.types ws) t ∧ List.Forall₂ Widens ts ws := by
  unfold call at h
  split at h
  · next params result =>
    have hg : (∀ p ∈ params, p.isGround) ∧ result.isGround := by
      simpa [Ty.isGround, Ty.areGround_iff] using hf
    split at h
    · cases h
    · split at h
      · next hs =>
        cases h
        have hfun : (Ty.func ts t).isGround := by
          simp only [Ty.isGround, Bool.and_eq_true, Ty.areGround_iff]
          exact ⟨ht, hg.2⟩
        refine ⟨?_, Widening.forall₂_unchanged ts⟩
        rw [Widening.types_unchanged]
        exact (Ty.same_iff hf hfun).mp hs
      · split at h
        · next ws' hw =>
          cases h
          unfold widened at hw
          split at hw
          · obtain ⟨rfl, hws⟩ := Widening.arguments_spec hg.1 ht hw
            exact ⟨rfl, hws⟩
          · cases hw
        · cases h
  · cases h

/-- A subroutine with a result returns values of that type. -/
theorem give_spec {result found t : Ty} (hr : result.isGround) (hf : found.isGround)
    (h : Rules.give result found = .ok t) : found = result ∧ result.isVoid = false := by
  unfold give at h
  split at h
  · cases h
  · next hs =>
    simp only [Bool.or_eq_true, Bool.not_eq_true', not_or, Bool.not_eq_true, Bool.not_eq_false] at hs
    exact ⟨((Ty.same_iff hr hf).mp hs.2).symm, hs.1⟩

/-- A variable is assigned values of its type. -/
theorem assign_spec {target value t : Ty} (ht : target.isGround) (hv : value.isGround)
    (h : Rules.assign target value = .ok t) : target = value := by
  unfold assign at h
  split at h
  · next hs => exact (Ty.same_iff ht hv).mp hs
  · cases h

/-! ### Operands that were widened

The types that a rule widens operands to fit without widening. -/

lemma operator_again {r' : Rules} (hr : r'.registry = r.registry) {op : TokenKind} {ts : List Ty}
    {s : Signature} {t : Ty} {ws : List Widened} (h : r.operator op ts = .ok (s, t, ws)) :
    r'.operator op (Widening.types ws) = .ok (s, t, unchanged (Widening.types ws)) := by
  unfold operator
  rw [hr, (operator_resolves h).1]

/-- Elements of one type need no widening. -/
lemma elements_of_forall_eq {us : List Ty} {t : Ty} (hne : us ≠ []) (hv : t.isValue)
    (hall : ∀ u ∈ us, u = t) : r.elements us = .ok (t, unchanged us) := by
  obtain ⟨first, rest, rfl⟩ := List.exists_cons_of_ne_nil hne
  obtain rfl : first = t := hall first (by simp)
  have hrest : rest.all first.same = true := by
    rw [List.all_eq_true]
    intro u hu
    rw [hall u (by simp [hu])]
    exact (Ty.same_iff (Ty.isGround_of_isValue first hv) (Ty.isGround_of_isValue first hv)).mpr rfl
  simp [elements, hrest, Ty.not_isVoid_of_isValue hv]

lemma elements_again {r' : Rules} {ts : List Ty} {t : Ty} {ws : List Widened} (hne : ts ≠ [])
    (ht : ∀ t ∈ ts, t.isValue) (h : r.elements ts = .ok (t, ws)) :
    r'.elements (Widening.types ws) = .ok (t, unchanged (Widening.types ws)) := by
  obtain ⟨hv, hall, hws⟩ := elements_spec hne ht h
  refine elements_of_forall_eq (fun hnil => hne ?_) hv hall
  rw [Widening.types, List.map_eq_nil_iff] at hnil
  rw [hnil] at hws
  exact List.forall₂_nil_right_iff.mp hws

lemma call_again {r' : Rules} {f t : Ty} {ts : List Ty} {ws : List Widened} (hf : f.isGround)
    (ht : ∀ t ∈ ts, t.isGround) (h : r.call f ts = .ok (t, ws)) :
    r'.call f (Widening.types ws) = .ok (t, unchanged (Widening.types ws)) := by
  obtain ⟨rfl, hws⟩ := call_spec hf ht h
  simp [call, (Ty.same_iff hf hf).mpr rfl]

end Rules

end SubrLang
