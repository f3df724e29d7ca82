import SubrLang.Proofs.TypeMatching

/-!
# Signatures as patterns

What the theory of patterns says about looking up operators: checks and look-ups do not depend on what is
bound before them.

* **Look-ups.** The first signature of an operator that unifies is found (`Registry.matching_unifies`).
* **Results.** The type of the result has its variables replaced only where they do not stand inside a
  function or a literal (`Signature.resultType_replaces`).
-/

namespace SubrLang

/-! ## Look-ups -/

namespace Registry

open Matching Classical

/-- Of signatures that list their variables the first one that unifies is found, whatever is bound. -/
lemma firstAccepting_eq_find? {ts : List Ty} (ht : ∀ t ∈ ts, t.isGround) :
    ∀ {ss : List Signature}, (∀ s ∈ ss, s.ListsVars) → ∀ b : Bindings,
      ∃ b', Yields (firstAccepting ts ss) b (ss.find? fun s => decide (∃ σ, s.Unifies σ ts)) b'
  | [], _, b => ⟨b, by simp [firstAccepting]⟩
  | s :: ss, hs, b => by
    obtain ⟨ok, b₁, hx, -, hno⟩ := Signature.accepts_solves (hs s (by simp)) ht b
    have hss : ∀ s' ∈ ss, s'.ListsVars := fun s' hs' => hs s' (by simp [hs'])
    cases ok with
    | false =>
      obtain ⟨b₂, hrest⟩ := firstAccepting_eq_find? ht hss b₁
      refine ⟨b₂, ?_⟩
      rw [List.find?_cons_of_neg (by simpa using hno rfl)]
      exact yields_bind.mpr ⟨false, b₁, hx, hrest⟩
    | true =>
      obtain ⟨σ, hσ, -⟩ := Signature.exists_unifies_of_accepts (hs s (by simp)) ht hx
      refine ⟨b₁, ?_⟩
      rw [List.find?_cons_of_pos (by simpa using ⟨σ, hσ⟩)]
      exact yields_bind.mpr ⟨true, b₁, hx, by simp⟩

/-- Checking operand types without variables against signatures that list their variables, whatever earlier
checks and look-ups have left bound. A check answers whether types for the variables make the parameters
equal to the operand types, and after success each variable of the parameters is bound to its type. Looking
up an operator gives its first signature with such types, as it does when nothing is bound. -/
theorem matching_unifies (r : Registry) (hr : ∀ s ∈ r, s.ListsVars) (ts : List Ty)
    (ht : ∀ t ∈ ts, t.isGround) (b : Bindings) :
    (∀ s : Signature, s.ListsVars → ∃ ok b', Yields (s.accepts ts) b ok b' ∧
      (ok = true ↔ ∃ σ, s.Unifies σ ts) ∧
      (ok = true → ∀ σ, s.Unifies σ ts → ∀ v ∈ Ty.varsAll s.params, b'.get? v = some (σ v))) ∧
    ∀ key, ∃ found b' b₀, Yields (r.lookup key ts) b found b' ∧ Yields (r.lookup key ts) [] found b₀ ∧
      found = (r.filter (·.key == key)).find? fun s => decide (∃ σ, s.Unifies σ ts) := by
  constructor
  · intro s hs
    obtain ⟨ok, b', hx, hyes, hno⟩ := Signature.accepts_solves hs ht b
    refine ⟨ok, b', hx, ⟨?_, ?_⟩, fun hok σ hσ v hv => Signature.get?_of_unifies (hyes hok) hs hσ hv⟩
    · rintro rfl
      obtain ⟨σ, hσ, -⟩ := Signature.exists_unifies_of_accepts hs ht hx
      exact ⟨σ, hσ⟩
    · rintro ⟨σ, hσ⟩
      cases ok with
      | true => rfl
      | false => exact absurd hσ (hno rfl σ)
  · intro key
    have hfilter : ∀ s ∈ r.filter (·.key == key), s.ListsVars := fun s hs =>
      hr s (List.mem_filter.mp hs).1
    obtain ⟨b', hb'⟩ := firstAccepting_eq_find? ht hfilter b
    obtain ⟨b₀, hb₀⟩ := firstAccepting_eq_find? ht hfilter []
    exact ⟨_, b', b₀, hb', hb₀, rfl⟩

/-- A signature with variables inside a function, an array and a literal, each of them twice. -/
def mapping : Signature where
  key := .star
  params := [.func [.var ⟨"A", 0⟩] (.var ⟨"B", 0⟩), .array (.var ⟨"A", 0⟩), .literal (.var ⟨"B", 0⟩)]
  result := .array (.var ⟨"B", 0⟩)
  variant := .opcode (.plain .nop)
  vars := [⟨"A", 0⟩, ⟨"B", 0⟩]

/-- Operand types for `mapping`. -/
def mappingOperands : List Ty :=
  [.func [.integer] (.array .float), .array .integer, .literal (.array .float)]

lemma listsVars_mapping : mapping.ListsVars := by
  simp [Signature.ListsVars, mapping, Ty.varsAll, Ty.vars]

lemma unifies_mapping : mapping.Unifies
    (fun v => if v.name = "A" then .integer else .array .float) mappingOperands := by
  simp [Signature.Unifies, mapping, mappingOperands, Ty.subst, Ty.substAll]

theorem matching_unifies_mapping :
    (∀ s ∈ [mapping], s.ListsVars) ∧ (∀ t ∈ mappingOperands, t.isGround) ∧
      ∃ b', Yields (mapping.accepts mappingOperands) [(⟨"A", 0⟩, .string), (⟨"B", 0⟩, .var ⟨"A", 0⟩)]
        true b' ∧ b'.get? ⟨"B", 0⟩ = some (.array .float) := by
  have hr : ∀ s ∈ [mapping], s.ListsVars := by simpa using listsVars_mapping
  have ht : ∀ t ∈ mappingOperands, t.isGround := by decide
  refine ⟨hr, ht, ?_⟩
  obtain ⟨ok, b', hx, hok, hbound⟩ := (matching_unifies [mapping] hr mappingOperands ht
    [(⟨"A", 0⟩, .string), (⟨"B", 0⟩, .var ⟨"A", 0⟩)]).1 mapping listsVars_mapping
  obtain rfl := hok.mpr ⟨_, unifies_mapping⟩
  exact ⟨b', hx, hbound rfl _ unifies_mapping ⟨"B", 0⟩ (by decide)⟩

end Registry

/-! ## Results -/

/-- Whether the variables of a type stand where replacing them in a result looks: at the end of arrays. -/
def Ty.isReplaceable : Ty → Bool
  | var _ => true
  | array t => t.isReplaceable
  | t => t.isGround

namespace Signature

open Matching

lemma instantiate_of_isReplaceable {b : Bindings} {σ : TyVar → Ty} {t : Ty} (h : t.isReplaceable)
    (hb : ∀ v ∈ t.vars, b.get? v = some (σ v)) : instantiate b t = t.subst σ := by
  fun_induction instantiate b t with
  | case1 v => simp [hb v (by simp [Ty.vars]), Ty.subst]
  | case2 t ih => rw [Ty.subst, ih h hb]
  | case3 t hvar harray =>
    have hground : t.isGround := by
      unfold Ty.isReplaceable at h
      split at h
      · exact absurd rfl (hvar _)
      · exact absurd rfl (harray _)
      · exact h
    rw [Ty.subst_of_isGround hground]

/-- A variable inside a function or a literal stays where it is. -/
lemma isReplaceable_of_isGround {b : Bindings} {t : Ty} (h : (instantiate b t).isGround) :
    t.isReplaceable := by
  fun_induction instantiate b t with
  | case1 v => rfl
  | case2 t ih => exact ih h
  | case3 t hvar harray =>
    unfold Ty.isReplaceable
    split
    · rfl
    · exact absurd rfl (harray _)
    · exact h

/-- After a check of a signature whose result has no other variables than its parameters, the type of the
result is the declared one with all variables replaced, and has none left, exactly if no variable of the
declared result stands inside a function or a literal. -/
theorem resultType_replaces (s : Signature) (hs : s.ListsVars)
    (hresult : ∀ v ∈ s.result.vars, v ∈ Ty.varsAll s.params) (ts : List Ty) (ht : ∀ t ∈ ts, t.isGround)
    (b b' : Bindings) (h : Yields (s.accepts ts) b true b') :
    ∃ σ, s.Unifies σ ts ∧ (∀ v ∈ Ty.varsAll s.params, b'.get? v = some (σ v)) ∧
      (s.resultType b' = s.result.subst σ ↔ s.result.isReplaceable) ∧
      ((s.resultType b').isGround ↔ s.result.isReplaceable) := by
  obtain ⟨σ, hσ, hbound⟩ := exists_unifies_of_accepts hs ht h
  have hparams : ∀ v ∈ Ty.varsAll s.params, (σ v).isGround := by
    rw [← Ty.areGround_substAll_iff, Ty.substAll_eq_map, hσ]
    exact Ty.areGround_iff.mpr ht
  have hground : (s.result.subst σ).isGround :=
    (Ty.isGround_subst_iff s.result).mpr fun v hv => hparams v (hresult v hv)
  have hreplaced : s.result.isReplaceable → s.resultType b' = s.result.subst σ := fun hrep =>
    instantiate_of_isReplaceable hrep fun v hv => hbound v (hresult v hv)
  refine ⟨σ, hσ, hbound, ⟨fun heq => ?_, hreplaced⟩, ⟨isReplaceable_of_isGround, fun hrep => ?_⟩⟩
  · exact isReplaceable_of_isGround (heq ▸ hground : (s.resultType b').isGround)
  · rw [hreplaced hrep]
    exact hground

/-- A signature with a variable inside a function as its result. -/
def wrapping : Signature where
  key := .plus
  params := [.var ⟨"T", 0⟩]
  result := .func [] (.var ⟨"T", 0⟩)
  variant := .opcode (.plain .nop)
  vars := [⟨"T", 0⟩]

theorem resultType_replaces_wrapping :
    wrapping.ListsVars ∧ (∀ v ∈ wrapping.result.vars, v ∈ Ty.varsAll wrapping.params) ∧
      Yields (wrapping.accepts [.integer]) [] true [(⟨"T", 0⟩, .integer)] ∧
      ¬ (wrapping.resultType [(⟨"T", 0⟩, .integer)]).isGround := by
  have hs : wrapping.ListsVars := by
    simp [ListsVars, wrapping, Ty.varsAll, Ty.vars]
  have hresult : ∀ v ∈ wrapping.result.vars, v ∈ Ty.varsAll wrapping.params := by decide
  have h : Yields (wrapping.accepts [.integer]) [] true [(⟨"T", 0⟩, .integer)] := rfl
  obtain ⟨σ, -, -, -, hground⟩ := resultType_replaces wrapping hs hresult [.integer] (by decide) _ _ h
  refine ⟨hs, hresult, h, fun hg => ?_⟩
  exact absurd (hground.mp hg) (by decide)

end Signature

end SubrLang
