import Mathlib
import SubrLang.Signature

/-!
# Types as patterns

The parameters of a signature are patterns: a signature takes operand types without variables if types for
its variables make the parameters equal to them. Checking finds these types one comparison at a time, and
what is bound on the way is all that it remembers.

* **Substitution.** `Ty.subst σ` replaces the variables of a type wherever they stand. What it gives is
  determined by the variables that occur, and determines them (`Ty.subst_eq_subst_iff`).
* **Comparisons as equations.** `Matching.Decides V b x E` says that the comparison `x` decides the equation
  `E` for types of the variables `V`, some of which `b` binds already: it ends without a clash, and either
  the bindings it leaves allow exactly the solutions that `b` allows, or there are none. Comparisons in a row
  decide their equations together (`Decides.and`), so one case for each kind of type is enough
  (`Ty.matchesWith_decides`). Types without variables match exactly if they are equal (`Ty.same_iff`).
* **Checks.** A check starts by unbinding the variables of the signature, so nothing that was bound before
  matters (`Signature.accepts_solves`).
-/

namespace SubrLang

/-! ## Substitution -/

namespace Ty

mutual

/-- Whether no type variable occurs in a type. -/
def isGround : Ty → Bool
  | prim _ => true
  | array t => t.isGround
  | func ps r => areGround ps && r.isGround
  | var _ => false
  | literal t => t.isGround

/-- Whether no type variable occurs in the types of a list. -/
def areGround : List Ty → Bool
  | [] => true
  | t :: ts => t.isGround && areGround ts

end

lemma areGround_iff {ts : List Ty} : areGround ts ↔ ∀ t ∈ ts, t.isGround := by
  induction ts with
  | nil => simp [areGround]
  | cons t ts ih => simp [areGround, ih]

mutual

/-- The type with all its variables replaced. -/
def subst (σ : TyVar → Ty) : Ty → Ty
  | prim p => prim p
  | array t => array (t.subst σ)
  | func ps r => func (substAll σ ps) (r.subst σ)
  | var v => σ v
  | literal t => literal (t.subst σ)

def substAll (σ : TyVar → Ty) : List Ty → List Ty
  | [] => []
  | t :: ts => t.subst σ :: substAll σ ts

end

mutual

/-- The variables that occur in a type. -/
def vars : Ty → List TyVar
  | prim _ => []
  | array t => t.vars
  | func ps r => varsAll ps ++ r.vars
  | var v => [v]
  | literal t => t.vars

def varsAll : List Ty → List TyVar
  | [] => []
  | t :: ts => t.vars ++ varsAll ts

end

lemma substAll_eq_map (σ : TyVar → Ty) (ts : List Ty) : substAll σ ts = ts.map (subst σ) := by
  induction ts with
  | nil => rfl
  | cons t ts ih => rw [substAll, ih, List.map_cons]

lemma vars_subset_varsAll {t : Ty} {ts : List Ty} (h : t ∈ ts) : t.vars ⊆ varsAll ts := by
  induction ts with
  | nil => cases h
  | cons u ts ih =>
    rcases List.mem_cons.mp h with rfl | h
    · exact List.subset_append_left _ _
    · exact List.Subset.trans (ih h) (List.subset_append_right _ _)

section

variable {σ τ : TyVar → Ty}

mutual

/-- Two substitutions do the same to a type if they agree on its variables, and only then. -/
lemma subst_eq_subst_iff : ∀ t : Ty, t.subst σ = t.subst τ ↔ ∀ v ∈ t.vars, σ v = τ v
  | prim _ => by simp [subst, vars]
  | array t => by simpa [subst, vars] using subst_eq_subst_iff t
  | func ps r => by
    simp only [subst, vars, func.injEq, List.mem_append, or_imp, forall_and]
    exact and_congr (substAll_eq_substAll_iff ps) (subst_eq_subst_iff r)
  | var v => by simp [subst, vars]
  | literal t => by simpa [subst, vars] using subst_eq_subst_iff t

lemma substAll_eq_substAll_iff : ∀ ts : List Ty,
    substAll σ ts = substAll τ ts ↔ ∀ v ∈ varsAll ts, σ v = τ v
  | [] => by simp [substAll, varsAll]
  | t :: ts => by
    simp only [substAll, varsAll, List.cons.injEq, List.mem_append, or_imp, forall_and]
    exact and_congr (subst_eq_subst_iff t) (substAll_eq_substAll_iff ts)

end

mutual

/-- What comes of a type has no variables if nothing that its variables are replaced by has. -/
lemma isGround_subst_iff : ∀ t : Ty, (t.subst σ).isGround ↔ ∀ v ∈ t.vars, (σ v).isGround
  | prim _ => by simp [subst, vars, isGround]
  | array t => by simpa [subst, vars, isGround] using isGround_subst_iff t
  | func ps r => by
    simp only [subst, vars, isGround, Bool.and_eq_true, List.mem_append, or_imp, forall_and]
    exact and_congr (areGround_substAll_iff ps) (isGround_subst_iff r)
  | var v => by simp [subst, vars]
  | literal t => by simpa [subst, vars, isGround] using isGround_subst_iff t

lemma areGround_substAll_iff : ∀ ts : List Ty,
    areGround (substAll σ ts) ↔ ∀ v ∈ varsAll ts, (σ v).isGround
  | [] => by simp [substAll, varsAll, areGround]
  | t :: ts => by
    simp only [substAll, varsAll, areGround, Bool.and_eq_true, List.mem_append, or_imp, forall_and]
    exact and_congr (isGround_subst_iff t) (areGround_substAll_iff ts)

end

end

mutual

lemma subst_var : ∀ t : Ty, t.subst var = t
  | prim _ => rfl
  | array t => by rw [subst, subst_var t]
  | func ps r => by rw [subst, substAll_var ps, subst_var r]
  | var _ => rfl
  | literal t => by rw [subst, subst_var t]

lemma substAll_var : ∀ ts : List Ty, substAll var ts = ts
  | [] => rfl
  | t :: ts => by rw [substAll, subst_var t, substAll_var ts]

end

/-- A type without variables has none. -/
lemma vars_of_isGround {t : Ty} (h : t.isGround) : t.vars = [] := by
  rw [← subst_var t, isGround_subst_iff] at h
  rw [List.eq_nil_iff_forall_not_mem]
  intro v hv
  simpa [isGround] using h v hv

lemma subst_of_isGround {t : Ty} (h : t.isGround) (σ : TyVar → Ty) : t.subst σ = t := by
  conv_rhs => rw [← subst_var t]
  rw [subst_eq_subst_iff, vars_of_isGround h]
  simp

lemma weight_pos (t : Ty) : 0 < t.weight := by
  cases t <;> simp [weight]

lemma array_ne_self (t : Ty) : array t ≠ t := by
  intro h
  simpa [weight] using congrArg weight h

lemma weight_le_weights {t : Ty} : ∀ {ts : List Ty}, t ∈ ts → t.weight ≤ weights ts
  | u :: ts, h => by
    rw [weights]
    rcases List.mem_cons.mp h with rfl | h
    · omega
    · have := weight_le_weights h
      omega

end Ty

/-! ## Comparisons as equations -/

namespace Matching

variable {α β : Type}

/-- A comparison that starts with some bindings ends well, with a result and other bindings. -/
def Yields (x : Matching α) (b : Bindings) (a : α) (b' : Bindings) : Prop :=
  x.run.run b = (.ok a, b')

@[simp] lemma yields_pure {a a' : α} {b b' : Bindings} :
    Yields (pure a) b a' b' ↔ a = a' ∧ b = b' := by
  constructor
  · intro h
    cases h
    exact ⟨rfl, rfl⟩
  · rintro ⟨rfl, rfl⟩
    rfl

@[simp] lemma yields_bind {x : Matching α} {f : α → Matching β} {b b'' : Bindings} {c : β} :
    Yields (x >>= f) b c b'' ↔ ∃ a b', Yields x b a b' ∧ Yields (f a) b' c b'' := by
  simp only [Yields, bind, ExceptT.run, ExceptT.bind, ExceptT.mk, StateT.run, StateT.bind]
  rcases x b with ⟨v, b₁⟩
  cases v with
  | ok a =>
    constructor
    · intro h
      exact ⟨a, b₁, rfl, h⟩
    · rintro ⟨a', b', h, h'⟩
      cases h
      exact h'
  | error e =>
    constructor
    · intro h
      cases h
    · rintro ⟨a', b', h, -⟩
      cases h

@[simp] lemma yields_get {b b' c : Bindings} : Yields get b c b' ↔ b = c ∧ b = b' := by
  simp only [Yields]
  constructor
  · intro h
    cases h
    exact ⟨rfl, rfl⟩
  · rintro ⟨rfl, rfl⟩
    rfl

@[simp] lemma yields_modify {f : Bindings → Bindings} {b b' : Bindings} {u : Unit} :
    Yields (modify f) b u b' ↔ b' = f b := by
  simp only [Yields]
  constructor
  · intro h
    cases h
    rfl
  · rintro rfl
    rfl

lemma Yields.unique {x : Matching α} {b b₁ b₂ : Bindings} {a a' : α} (h : Yields x b a b₁)
    (h' : Yields x b a' b₂) : a = a' ∧ b₁ = b₂ := by
  have heq : (Except.ok a, b₁) = (Except.ok a', b₂) := Eq.trans h.symm h'
  simpa using heq

end Matching

namespace Bindings

/-- Whether types for variables are those that the variables among `V` are bound to. -/
def Agrees (b : Bindings) (V : List TyVar) (σ : TyVar → Ty) : Prop :=
  ∀ v ∈ V, ∀ t, b.get? v = some t → σ v = t

/-- Whether the variables among `V` are bound to types without variables only. -/
def GroundOn (b : Bindings) (V : List TyVar) : Prop :=
  ∀ v ∈ V, ∀ t, b.get? v = some t → t.isGround

lemma get?_cons (b : Bindings) (v w : TyVar) (t : Ty) :
    get? ((v, t) :: b) w = if w = v then some t else b.get? w := by
  by_cases h : w = v
  · simp [get?, h]
  · have hne : (w == v) = false := by simpa using h
    simp [get?, List.lookup_cons, h, hne]

variable {b : Bindings} {V : List TyVar} {v : TyVar} {t : Ty}

lemma GroundOn.bind (h : b.GroundOn V) (ht : t.isGround) : GroundOn ((v, t) :: b) V := by
  intro w hw u hu
  rw [get?_cons] at hu
  split at hu
  · cases hu
    exact ht
  · exact h w hw u hu

/-- Binding one more variable leaves the solutions that give it that type. -/
lemma agrees_bind_iff (hv : v ∈ V) (hfree : b.get? v = none) {σ : TyVar → Ty} :
    Agrees ((v, t) :: b) V σ ↔ b.Agrees V σ ∧ σ v = t := by
  simp only [Agrees, get?_cons]
  constructor
  · intro h
    refine ⟨fun w hw u hu => h w hw u ?_, h v hv t (by simp)⟩
    have hne : w ≠ v := by
      rintro rfl
      simp [hfree] at hu
    simpa [hne] using hu
  · rintro ⟨h, hvt⟩ w hw u hu
    split at hu
    · next heq =>
      cases hu
      rw [heq, hvt]
    · exact h w hw u hu

lemma get?_reset (b : Bindings) (v : TyVar) : (b.reset v).get? v = none := by
  rw [Bindings.get?, Bindings.reset, List.lookup_eq_none_iff]
  intro p hp
  have hne : (p.1 != v) = true := (List.mem_filter.mp hp).2
  exact bne_iff_ne.mpr (Ne.symm (bne_iff_ne.mp hne))

lemma get?_reset_of_ne {w : TyVar} (h : w ≠ v) : (b.reset v).get? w = b.get? w := by
  induction b with
  | nil => rfl
  | cons p b ih =>
    obtain ⟨x, u⟩ := p
    by_cases hx : x = v
    · have hreset : reset ((x, u) :: b) v = reset b v := by simp [reset, hx]
      rw [hreset, ih, get?_cons, if_neg (by rw [hx]; exact h)]
    · have hreset : reset ((x, u) :: b) v = (x, u) :: reset b v := by simp [reset, hx]
      rw [hreset, get?_cons, get?_cons, ih]

/-- Variables that are taken back are unbound, whatever they were bound to. -/
lemma get?_foldl_reset (hv : v ∈ V) : (V.foldl reset b).get? v = none := by
  have hnone : ∀ (V : List TyVar) (b : Bindings), b.get? v = none → (V.foldl reset b).get? v = none := by
    intro V
    induction V with
    | nil => exact fun _ h => h
    | cons w V ih =>
      intro b h
      refine ih _ ?_
      by_cases hw : v = w
      · rw [hw]
        exact get?_reset b w
      · rw [get?_reset_of_ne hw, h]
  induction V generalizing b with
  | nil => cases hv
  | cons w V ih =>
    rcases List.mem_cons.mp hv with rfl | hv
    · exact hnone V _ (get?_reset b v)
    · exact ih hv

end Bindings

namespace Matching

variable {V : List TyVar} {b : Bindings} {x y : Matching Bool} {E F : (TyVar → Ty) → Prop}

/-- The comparison `x`, started with the bindings `b`, decides the equation `E`: it ends, binds nothing if
there are no variables, and either leaves bindings that allow exactly the solutions among those that `b`
allows, or there are none. -/
def Decides (V : List TyVar) (b : Bindings) (x : Matching Bool) (E : (TyVar → Ty) → Prop) : Prop :=
  ∃ ok b', Yields x b ok b' ∧ (V = [] → b' = b) ∧
    (ok = true → b'.GroundOn V ∧ ∀ σ, b'.Agrees V σ ↔ b.Agrees V σ ∧ E σ) ∧
    (ok = false → ∀ σ, b.Agrees V σ → ¬ E σ)

lemma Decides.congr (h : Decides V b x E) (hEF : ∀ σ, b.Agrees V σ → (E σ ↔ F σ)) :
    Decides V b x F := by
  obtain ⟨ok, b', hx, hbinds, hyes, hno⟩ := h
  refine ⟨ok, b', hx, hbinds, fun hok => ⟨(hyes hok).1, fun σ => ?_⟩, fun hok σ hσ hF => ?_⟩
  · rw [(hyes hok).2]
    exact and_congr_right (hEF σ)
  · exact hno hok σ hσ ((hEF σ hσ).mpr hF)

/-- A comparison that only says whether something holds whatever the variables are. -/
lemma decides_pure {ok : Bool} {P : Prop} (hb : b.GroundOn V) (h : ok = true ↔ P) :
    Decides V b (pure ok) fun _ => P := by
  refine ⟨ok, b, yields_pure.mpr ⟨rfl, rfl⟩, fun _ => rfl, fun hok => ⟨hb, fun σ => ?_⟩,
    fun hok σ _ hP => ?_⟩
  · exact (and_iff_left (h.mp hok)).symm
  · rw [h.mpr hP] at hok
    cases hok

lemma decides_false (h : ∀ σ, ¬ E σ) : Decides V b (pure false) E :=
  ⟨false, b, yields_pure.mpr ⟨rfl, rfl⟩, fun _ => rfl, fun hok => (by cases hok), fun _ σ _ => h σ⟩

/-- A comparison and, if it succeeds, another one decide both equations. -/
lemma Decides.and (hx : Decides V b x E) (hy : ∀ b', b'.GroundOn V → Decides V b' y F) :
    Decides V b (do if ← x then y else return false) fun σ => E σ ∧ F σ := by
  obtain ⟨ok, b₁, hx, hbinds, hyes, hno⟩ := hx
  cases ok with
  | false =>
    refine ⟨false, b₁, yields_bind.mpr ⟨false, b₁, hx, ?_⟩, hbinds, fun hok => (by cases hok),
      fun _ σ hσ hEF => hno rfl σ hσ hEF.1⟩
    simp
  | true =>
    obtain ⟨hground, hsol⟩ := hyes rfl
    obtain ⟨ok, b₂, hy, hbinds', hyes', hno'⟩ := hy b₁ hground
    refine ⟨ok, b₂, yields_bind.mpr ⟨true, b₁, hx, by simpa using hy⟩,
      fun hV => (hbinds' hV).trans (hbinds hV), fun hok => ?_, fun hok σ hσ hEF => ?_⟩
    · refine ⟨(hyes' hok).1, fun σ => ?_⟩
      rw [(hyes' hok).2, hsol, and_assoc]
    · exact hno' hok σ ((hsol σ).mpr ⟨hσ, hEF.1⟩) hEF.2

end Matching

namespace Ty

open Matching

variable {V : List TyVar} {b : Bindings}

/-- Comparing lists pair by pair decides the equations of all pairs. -/
lemma matchPairs_decides {f : Ty → Ty → Matching Bool} {ps ts : List Ty}
    (h : List.Forall₂ (fun p t => ∀ b, Bindings.GroundOn b V →
      Decides V b (f p t) fun σ => p.subst σ = t) ps ts) (hb : b.GroundOn V) :
    Decides V b (matchPairs f ps ts) fun σ => substAll σ ps = ts := by
  induction h generalizing b with
  | nil => exact decides_pure hb (iff_of_true rfl rfl)
  | cons hpt _ ih =>
    refine ((hpt b hb).and fun b' hb' => ih hb').congr fun σ _ => ?_
    rw [substAll, List.cons.injEq]

/-- With a type without variables a variable does not clash. -/
lemma matchVar_eq (f : Ty → Ty → Matching Bool) (v : TyVar) {t : Ty} (ht : t.isGround) :
    matchVar f v t = (do ((← get).get? v).elim (do modify ((v, t) :: ·); return true) (f · t)) := by
  cases t with
  | var x => simp [isGround] at ht
  | _ =>
    refine congrArg (bind get) (funext fun b => ?_)
    cases b.get? v <;> rfl

/-- A variable decides what it is: a free one is bound, and for a bound one types are compared. -/
lemma matchVar_decides {f : Ty → Ty → Matching Bool} {v : TyVar} {t : Ty} (hv : v ∈ V)
    (hb : b.GroundOn V) (ht : t.isGround)
    (hf : ∀ s, s.isGround → Decides V b (f s t) fun σ => s.subst σ = t) :
    Decides V b (matchVar f v t) fun σ => σ v = t := by
  rw [matchVar_eq f v ht]
  cases hbound : b.get? v with
  | none =>
    refine ⟨true, (v, t) :: b, ?_, fun hV => absurd hv (by simp [hV]),
      fun _ => ⟨hb.bind ht, fun σ => ?_⟩, fun hok => by cases hok⟩
    · rw [yields_bind]
      refine ⟨b, b, by simp, ?_⟩
      rw [hbound, Option.elim_none, yields_bind]
      exact ⟨(), _, yields_modify.mpr rfl, by simp⟩
    · exact Bindings.agrees_bind_iff hv hbound
  | some s =>
    have hs : s.isGround := hb v hv s hbound
    obtain ⟨ok, b', hx, h⟩ := (hf s hs).congr (F := fun σ => σ v = t) fun σ hσ => by
      rw [subst_of_isGround hs, hσ v hv s hbound]
    exact ⟨ok, b', by simpa [hbound] using hx, h⟩

/-- Comparing a pattern with a type without variables decides whether the pattern can become that type. The
levels to look down are those of the type, and one more if a variable has to be looked up on the way. -/
lemma matchesWith_decides (fuel : Nat) : ∀ (p t : Ty) (b : Bindings), p.vars ⊆ V → t.isGround →
    b.GroundOn V → t.weight ≤ fuel ∧ (p.isGround ∨ t.weight < fuel) →
    Decides V b (matchesWith fuel p t) fun σ => p.subst σ = t := by
  induction fuel with
  | zero =>
    intro p t b _ _ _ hfuel
    have := t.weight_pos
    omega
  | succ fuel ih =>
    intro p t b hp ht hb hfuel
    -- one level down on both sides, the weight of the part is smaller
    have hpart : ∀ {p' t' : Ty}, (p.isGround → p'.isGround) → t'.weight < t.weight →
        t'.weight ≤ fuel ∧ (p'.isGround ∨ t'.weight < fuel) := by
      intro p' t' hp' ht'
      refine ⟨by omega, hfuel.2.imp hp' fun h => by omega⟩
    cases p with
    | var v =>
      have hlt : t.weight < fuel + 1 := hfuel.2.resolve_left (by simp [isGround])
      refine matchVar_decides (hp (by simp [vars])) hb ht fun s hs => ?_
      exact ih s t b (by simp [vars_of_isGround hs]) ht hb ⟨by omega, .inl hs⟩
    | prim p =>
      cases t with
      | prim q =>
        rw [matchesWith]
        exact (decides_pure hb beq_iff_eq).congr fun σ _ => by rw [subst, prim.injEq]
      | var x => simp [isGround] at ht
      | array | func | literal => exact decides_false fun σ => by simp [subst]
    | array s =>
      cases t with
      | array t =>
        have hstep : matchesWith (fuel + 1) (array s) (array t) = matchesWith fuel s t := by
          cases t with
          | var x => simp [isGround] at ht
          | _ => cases s <;> rfl
        rw [hstep]
        refine (ih s t b hp ht hb (hpart id (by simp [weight]))).congr fun σ _ => ?_
        rw [subst, array.injEq]
      | var x => simp [isGround] at ht
      | prim | func | literal => exact decides_false fun σ => by simp [subst]
    | func ps r =>
      cases t with
      | func qs u =>
        simp only [isGround, Bool.and_eq_true, areGround_iff] at ht
        simp only [vars, List.append_subset] at hp
        simp only [matchesWith]
        split
        · next hl =>
          have hpairs : List.Forall₂ (fun p t => ∀ b, Bindings.GroundOn b V →
              Decides V b (matchesWith fuel p t) fun σ => p.subst σ = t) ps qs := by
            refine List.forall₂_iff_zip.mpr ⟨hl, fun {p q} hpq b' hb' => ?_⟩
            obtain ⟨hmp, hmq⟩ := List.of_mem_zip hpq
            refine ih p q b' (List.Subset.trans (vars_subset_varsAll hmp) hp.1) (ht.1 q hmq) hb'
              (hpart (fun hg => ?_) ?_)
            · simp only [isGround, Bool.and_eq_true, areGround_iff] at hg
              exact hg.1 p hmp
            · have := weight_le_weights hmq
              simp only [weight]
              omega
          refine ((matchPairs_decides hpairs hb).and fun b' hb' =>
            ih r u b' hp.2 ht.2 hb' (hpart (fun hg => ?_) ?_)).congr fun σ _ => ?_
          · simp only [isGround, Bool.and_eq_true] at hg
            exact hg.2
          · simp only [weight]
            omega
          · rw [subst, func.injEq]
        · next hl =>
          refine decides_false fun σ heq => hl ?_
          rw [subst, func.injEq, substAll_eq_map] at heq
          rw [← heq.1, List.length_map]
      | var x => simp [isGround] at ht
      | prim | array | literal => exact decides_false fun σ => by simp [subst]
    | literal s =>
      cases t with
      | literal t =>
        refine (ih s t b hp ht hb (hpart id (by simp [weight]))).congr fun σ _ => ?_
        rw [subst, literal.injEq]
      | var x => simp [isGround] at ht
      | prim | func | array => exact decides_false fun σ => by simp [subst]

/-- Comparing two types without variables ends, binds nothing and says whether they are equal. -/
lemma matchesWith_answers {a b : Ty} (ha : a.isGround) (hb : b.isGround) {fuel : Nat}
    (hfuel : b.weight ≤ fuel) (β : Bindings) :
    ∃ r, Yields (matchesWith fuel a b) β r β ∧ (r = true ↔ a = b) := by
  obtain ⟨r, β', hx, hbinds, hyes, hno⟩ := matchesWith_decides (V := []) fuel a b β
    (List.subset_nil.mpr (vars_of_isGround ha)) hb (by simp [Bindings.GroundOn]) ⟨hfuel, .inl ha⟩
  obtain rfl := hbinds rfl
  have hagrees : Bindings.Agrees β' [] var := by simp [Bindings.Agrees]
  simp only [subst_of_isGround ha] at hyes hno
  refine ⟨r, hx, fun hr => (((hyes hr).2 var).mp hagrees).2, fun hab => ?_⟩
  by_contra hr
  exact hno (Bool.eq_false_iff.mpr hr) var hagrees hab

lemma weight_lt_matchFuel (a b : Ty) (β : Bindings) : b.weight < matchFuel a b β := by
  have h := Nat.le_mul_self (a.weight + b.weight + β.weight + 2)
  simp only [matchFuel]
  omega

lemma yields_matchesType_iff {a b : Ty} {β β' : Bindings} {r : Bool} :
    Yields (matchesType a b) β r β' ↔ Yields (matchesWith (matchFuel a b β) a b) β r β' := by
  simp only [matchesType, yields_bind, yields_get]
  constructor
  · rintro ⟨_, _, ⟨rfl, rfl⟩, h⟩
    exact h
  · intro h
    exact ⟨β, β, ⟨rfl, rfl⟩, h⟩

lemma same_eq_of_yields {a b : Ty} {r : Bool} {β : Bindings} (h : Yields (matchesType a b) [] r β) :
    a.same b = r := by
  unfold same
  rw [show (matchesType a b).run.run [] = (.ok r, β) from h]

/-- Types without variables are the same if they are equal. -/
lemma same_iff {a b : Ty} (ha : a.isGround) (hb : b.isGround) : a.same b ↔ a = b := by
  obtain ⟨r, hr, heq⟩ := matchesWith_answers ha hb (weight_lt_matchFuel a b []).le []
  rw [same_eq_of_yields (yields_matchesType_iff.mpr hr), heq]

lemma matchesType_decides {p t : Ty} (hp : p.vars ⊆ V) (ht : t.isGround) (hb : b.GroundOn V) :
    Decides V b (matchesType p t) fun σ => p.subst σ = t := by
  obtain ⟨ok, b', hx, h⟩ := matchesWith_decides _ p t b hp ht hb
    ⟨(weight_lt_matchFuel p t b).le, .inr (weight_lt_matchFuel p t b)⟩
  exact ⟨ok, b', yields_matchesType_iff.mpr hx, h⟩

end Ty

/-! ## Checks -/

namespace Signature

open Matching

/-- Whether the signature lists the variables of its parameters, so that a check unbinds them. -/
def ListsVars (s : Signature) : Prop := ∀ v ∈ Ty.varsAll s.params, v ∈ s.vars

/-- Whether types for variables make the parameters equal to operand types. -/
def Unifies (s : Signature) (σ : TyVar → Ty) (ts : List Ty) : Prop := s.params.map (Ty.subst σ) = ts

variable {s : Signature} {ts : List Ty} {b b' : Bindings}

/-- A check ends, and either binds what makes the parameters equal to the operand types or shows that
nothing does. -/
lemma accepts_solves (hs : s.ListsVars) (ht : ∀ t ∈ ts, t.isGround) (b : Bindings) :
    ∃ ok b', Yields (s.accepts ts) b ok b' ∧
      (ok = true → ∀ σ, b'.Agrees s.vars σ ↔ s.Unifies σ ts) ∧
      (ok = false → ∀ σ, ¬ s.Unifies σ ts) := by
  unfold accepts
  split
  · next hl =>
    have hfree : ∀ v ∈ s.vars, (s.vars.foldl Bindings.reset b).get? v = none := fun v hv =>
      Bindings.get?_foldl_reset hv
    have hpairs : List.Forall₂ (fun p t => ∀ b, Bindings.GroundOn b s.vars →
        Decides s.vars b (Ty.matchesType p t) fun σ => p.subst σ = t) s.params ts := by
      refine List.forall₂_iff_zip.mpr ⟨hl.symm, fun {p t} hpt b' hb' => ?_⟩
      obtain ⟨hmp, hmt⟩ := List.of_mem_zip hpt
      exact Ty.matchesType_decides (fun v hv => hs v (Ty.vars_subset_varsAll hmp hv)) (ht t hmt) hb'
    obtain ⟨ok, b', hx, -, hyes, hno⟩ := Ty.matchPairs_decides hpairs (b := s.vars.foldl Bindings.reset b)
      fun v hv t hvt => by simp [hfree v hv] at hvt
    -- nothing is bound at the start, so the bindings at the end are the whole solution
    have hstart : ∀ σ, (s.vars.foldl Bindings.reset b).Agrees s.vars σ := fun σ v hv t hvt => by
      simp [hfree v hv] at hvt
    simp only [Ty.substAll_eq_map] at hyes hno
    refine ⟨ok, b', ?_, fun hok σ => ?_, fun hok σ => hno hok σ (hstart σ)⟩
    · simpa using hx
    · rw [(hyes hok).2]
      exact and_iff_right (hstart σ)
  · next hl =>
    refine ⟨false, b, by simp, fun hok => (by cases hok), fun _ σ hσ => hl ?_⟩
    rw [← hσ, List.length_map]

/-- Bindings that stand for all solutions bind every variable of the parameters. -/
lemma get?_of_unifies (h : ∀ σ, b.Agrees s.vars σ ↔ s.Unifies σ ts) (hs : s.ListsVars) {σ : TyVar → Ty}
    (hσ : s.Unifies σ ts) {v : TyVar} (hv : v ∈ Ty.varsAll s.params) : b.get? v = some (σ v) := by
  cases hbound : b.get? v with
  | some t => rw [(h σ).mpr hσ v (hs v hv) t hbound]
  | none =>
    -- a free variable could be given another type, but the parameters leave it no choice
    have hother : b.Agrees s.vars (Function.update σ v (.array (σ v))) := by
      intro w hw t hwt
      have hne : w ≠ v := by
        rintro rfl
        simp [hbound] at hwt
      rw [Function.update_of_ne hne]
      exact (h σ).mpr hσ w hw t hwt
    have heq : Ty.substAll (Function.update σ v (.array (σ v))) s.params = Ty.substAll σ s.params := by
      rw [Ty.substAll_eq_map, Ty.substAll_eq_map, (h _).mp hother, hσ]
    have hval := (Ty.substAll_eq_substAll_iff s.params).mp heq v hv
    rw [Function.update_self] at hval
    exact absurd hval (Ty.array_ne_self _)

/-- A check that succeeds binds the variables of the parameters to types that unify. -/
lemma exists_unifies_of_accepts (hs : s.ListsVars) (ht : ∀ t ∈ ts, t.isGround)
    (h : Yields (s.accepts ts) b true b') :
    ∃ σ, s.Unifies σ ts ∧ ∀ v ∈ Ty.varsAll s.params, b'.get? v = some (σ v) := by
  obtain ⟨ok, b₁, hx, hyes, -⟩ := accepts_solves hs ht b
  obtain ⟨rfl, rfl⟩ := hx.unique h
  have hsol := hyes rfl
  have hσ : b₁.Agrees s.vars fun v => (b₁.get? v).getD .error := fun v _ t hvt => by simp [hvt]
  exact ⟨_, (hsol _).mp hσ, fun v hv => get?_of_unifies hsol hs ((hsol _).mp hσ) hv⟩

end Signature

end SubrLang
