import SubrLang.Proofs.FreshLabels
import SubrLang.Proofs.LoweredCode
import SubrLang.Proofs.StackShapes

/-!
# Lowered code is shaped

Code that is lowered from a checked tree finds the words that it needs on the operand stack, of the kinds
that it needs, and leaves a word of the kind of the expression's type.

* **State.** Lowering hands out numbers for families of labels, queues subroutines and collects string
  constants. `Lower.Grows` says what it adds to its state: the labels defined by the code, by the queued
  subroutines and by the strings are all different.
* **Parts.** `Lower.Makes st ps hs ext st'` says that lowering went from `st` to `st'` and made the parts
  `ps`, each of which takes one shape to another at whatever sites expect the shapes at its labels. Parts
  are put together with `Lower.Makes.append` and `Lower.Makes.build`.
* **Trees.** `Expr.Elab.makes` and `Stmt.Elab.makes` go through the rules of elaboration.
-/

namespace SubrLang

open Code (Shaped)
open Registry (standard)

/-! ## What lowering adds to its state -/

namespace PendingFunc

/-- The labels that the code of a queued subroutine will define besides those of its body. -/
def ends (p : PendingFunc) : List Label :=
  [.text (Lowering.startLabel p.labels), .text (Lowering.exitLabel p.labels)]

/-- The heads of a queued subroutine and of the lambdas inside it. -/
def heads (p : PendingFunc) : Multiset FuncHead := p.head ::ₘ Stmt.headsAll p.body

/-- Whether a queued subroutine comes from a checked tree. -/
def Checked (p : PendingFunc) : Prop :=
  ∃ (r : Rules) (Γ Γ' : Ctx) (b b' : List Stmt), r.registry = standard ∧ Γ.allValues ∧
    p.head.result.isResult ∧ Stmt.areSource b ∧ Stmt.ElabAll r (some p.head.result) Γ b b' Γ' ∧
    p.body = Stmt.applyWidenings standard b'

end PendingFunc

/-- A part of the code, with the shapes that it starts and falls through with. -/
structure Part where
  code : Code
  start : Entry
  stop : Entry

/-- Whether the sites have the labels that a state of lowering has promised. -/
structure Sites.Covers (X : Sites) (st : LowerState) : Prop extends X.IsStandard where
  starts : ∀ p ∈ st.pending, (.text (Lowering.startLabel p.labels), Entry.subroutine) ∈ X.code
  strings : ∀ x ∈ st.strings.entries, .text x.2 ∈ X.data

namespace Lower

/-- From one state to the other lowering has made code with the labels `ls`, and has queued subroutines
with the heads `hs`; new labels differ from each other and from those before. -/
def Grows (st : LowerState) (ls : Multiset Label) (hs : Multiset FuncHead) (st' : LowerState) : Prop :=
  ∃ (ps : List PendingFunc) (ss : List (String × String)),
    st'.pending = st.pending ++ ps ∧ st'.strings.entries = st.strings.entries ++ ss ∧
    (∀ p ∈ ps, p.Checked) ∧ (ps.map PendingFunc.heads).sum = hs ∧
    FreshLabels st.families st'.families
      (ls + (ps.flatMap PendingFunc.ends : List Label) + (ss.map fun x => .text x.2 : List Label))

variable {st st₀ st₁ st' : LowerState} {ls ls' : Multiset Label} {hs hs' : Multiset FuncHead}
  {ps qs : List Part} {q : Part} {ext ext' : List (Label × Entry)} {X : Sites}

lemma Grows.refl (st : LowerState) : Grows st 0 0 st :=
  ⟨[], [], by simp, by simp, by simp, by simp, by simpa using FreshLabels.zero le_rfl⟩

lemma Grows.trans (h : Grows st ls hs st₁) (h' : Grows st₁ ls' hs' st') :
    Grows st (ls + ls') (hs + hs') st' := by
  obtain ⟨ps, ss, hp, hss, hc, hh, hf⟩ := h
  obtain ⟨ps', ss', hp', hss', hc', hh', hf'⟩ := h'
  refine ⟨ps ++ ps', ss ++ ss', by simp [hp', hp], by simp [hss', hss], ?_, by simp [hh, hh'], ?_⟩
  · intro p hmem
    rcases List.mem_append.mp hmem with hmem | hmem
    · exact hc p hmem
    · exact hc' p hmem
  · convert hf.add hf' using 1
    simp only [List.flatMap_append, List.map_append, ← Multiset.coe_add]
    abel

/-- Making a family of labels. -/
lemma Grows.family {stem : String} {roles : List (String × Shape)} (hs : isWord stem)
    (hr : ∀ r ∈ roles, isWord r.1) (hn : (roles.map (·.1)).Nodup) :
    Grows st (LabelFamily.labels ⟨stem, st.families + 1⟩ roles : List Label) 0 (counted st) := by
  refine ⟨[], [], by simp [counted], by simp [counted], by simp, by simp, ?_⟩
  have hf := FreshLabels.family st.families hs (by simpa using hr) hn
  simpa [LabelFamily.labels, counted, Function.comp_def] using hf

/-- Sites that cover a later state cover the earlier one. -/
lemma Grows.covers (h : Grows st ls hs st') (hX : X.Covers st') : X.Covers st := by
  obtain ⟨ps, ss, hp, hss, -⟩ := h
  refine ⟨hX.toIsStandard, fun p hmem => hX.starts p ?_, fun x hmem => hX.strings x ?_⟩
  · rw [hp]
    exact List.mem_append_left _ hmem
  · rw [hss]
    exact List.mem_append_left _ hmem

/-- Lowering went from one state to the other and made parts with the heads `hs` in their lambdas. At
sites that cover the state and expect the right shapes at the labels of the parts, and at those of
`ext`, the parts are shaped. -/
def Makes (st : LowerState) (ps : List Part) (hs : Multiset FuncHead) (ext : List (Label × Entry))
    (st' : LowerState) : Prop :=
  Grows st (ps.flatMap (·.code.codeLabels) : List Label) hs st' ∧
    ∃ own : List (Label × Entry),
      (own.map (·.1) : Multiset Label) = (ps.flatMap (·.code.codeLabels) : List Label) ∧
      ∀ X : Sites, X.Covers st' → own ⊆ X.code → ext ⊆ X.code →
        ∀ p ∈ ps, Shaped X p.code p.start p.stop

lemma Makes.nil (st : LowerState) : Makes st [] 0 ext st :=
  ⟨Grows.refl st, [], by simp, by simp⟩

lemma Makes.append (h : Makes st ps hs ext st₁) (h' : Makes st₁ qs hs' ext st') :
    Makes st (ps ++ qs) (hs + hs') ext st' := by
  obtain ⟨hg, own, hown, hshape⟩ := h
  obtain ⟨hg', own', hown', hshape'⟩ := h'
  refine ⟨by simpa using hg.trans hg', own ++ own', ?_, fun X hX hmem hext p hp => ?_⟩
  · simp only [List.map_append, List.flatMap_append, ← Multiset.coe_add, hown, hown']
  · have hleft := List.Subset.trans (List.subset_append_left own own') hmem
    have hright := List.Subset.trans (List.subset_append_right own own') hmem
    rcases List.mem_append.mp hp with hp | hp
    · exact hshape X (hg'.covers hX) hleft hext p hp
    · exact hshape' X hX hright hext p hp

lemma Makes.weaken (h : Makes st ps hs ext st') (hext : ext ⊆ ext') : Makes st ps hs ext' st' := by
  obtain ⟨hg, own, hown, hshape⟩ := h
  exact ⟨hg, own, hown, fun X hX hmem hext' => hshape X hX hmem (List.Subset.trans hext hext')⟩

/-- A part is made from others and from a family of labels, which was made before them. -/
lemma Makes.build (own : List (Label × Entry))
    (hown : Grows st (own.map (·.1) : List Label) 0 st₀) (h : Makes st₀ ps hs ext st')
    (hlabels : (q.code.codeLabels : Multiset Label) =
      (own.map (·.1) : List Label) + (ps.flatMap (·.code.codeLabels) : List Label))
    (hshape : ∀ X : Sites, X.Covers st' → own ⊆ X.code → ext ⊆ X.code →
      (∀ p ∈ ps, Shaped X p.code p.start p.stop) → Shaped X q.code q.start q.stop) :
    Makes st [q] hs ext st' := by
  obtain ⟨hg, own', hown', hparts⟩ := h
  refine ⟨by simpa [hlabels] using hown.trans hg, own ++ own', ?_, fun X hX hmem hext p hp => ?_⟩
  · simp only [List.map_append, ← Multiset.coe_add, hown', List.flatMap_cons, List.flatMap_nil,
      List.append_nil, hlabels]
  · have hleft := List.Subset.trans (List.subset_append_left own own') hmem
    have hright := List.Subset.trans (List.subset_append_right own own') hmem
    obtain rfl := List.mem_singleton.mp hp
    exact hshape X hX hleft hext (hparts X hX hright hext)

/-- A part is made from others without further labels. -/
lemma Makes.map (h : Makes st ps hs ext st')
    (hlabels : q.code.codeLabels = ps.flatMap (·.code.codeLabels))
    (hshape : ∀ X : Sites, X.Covers st' → ext ⊆ X.code →
      (∀ p ∈ ps, Shaped X p.code p.start p.stop) → Shaped X q.code q.start q.stop) :
    Makes st [q] hs ext st' :=
  Makes.build [] (Grows.refl st) h (by simp [hlabels])
    fun X hX _ hext hparts => hshape X hX hext hparts

end Lower

/-! ## Operators -/

lemma Shape.below_append {ks s r : Shape} (u : Shape) (h : below ks s = some r) :
    below ks (s ++ u) = some (r ++ u) := by
  induction ks generalizing s with
  | nil =>
    cases h
    rfl
  | cons k ks ih =>
    cases s with
    | nil => cases h
    | cons j s =>
      simp only [below, List.cons_append] at h ⊢
      split at h
      · next hj =>
        rw [if_pos hj]
        exact ih h
      · cases h

/-- Words below those that an instruction works with do not matter. -/
lemma PlainOp.flow_append {o : PlainOp} {s s' : Shape} (u : Shape) (h : o.flow s = some s') :
    o.flow (s ++ u) = some (s' ++ u) := by
  unfold flow at h
  split at h
  · cases h
    rfl
  · cases h
    rfl
  · cases h
    rfl
  · split at h
    · next pops pushes hw =>
      obtain ⟨r, hr, rfl⟩ := Option.map_eq_some_iff.mp h
      have hflow : o.flow (s ++ u) = (Shape.below pops (s ++ u)).map (pushes ++ ·) := by
        cases o <;> first | cases hw; rfl | cases hw
      rw [hflow, Shape.below_append u hr, Option.map_some, List.append_assoc]
    · cases h

/-- The kind of the result of an operator on operands of given kinds. -/
def Variant.result? : Variant → List Kind → Option Kind
  | .opcode (.plain o), ks =>
    match o.flow ks.reverse with
    | some [k] => some k
    | _ => none
  | .expansion (.compare _), [j, k] => if j = k then some .int else none
  | .expansion .shortCircuitAnd, [.int, .int] | .expansion .shortCircuitOr, [.int, .int]
  | .expansion .intDivide, [.int, .int] => some .int
  | .expansion .floatDivide, [.float, .float] => some .float
  | .expansion .arrayLength, [.int] | .expansion .intToBool, [.int]
  | .expansion .charToBool, [.int] | .expansion .intToChar, [.int] => some .int
  | _, _ => none

/-- The labels of an operator whose first operand is of a kind. -/
def Variant.roles : Variant → Kind → List (String × Shape)
  | .expansion (.compare c), k => Lowering.compareRoles c k
  | .expansion .shortCircuitAnd, _ | .expansion .shortCircuitOr, _ => Lowering.shortCircuitRoles
  | _, _ => []

/-- The number of operands that are there for their types only. -/
def Registry.targets (op : TokenKind) : Nat := if op == .cast then 1 else 0

/-- The variants of the language's signatures give results of the right kinds. -/
lemma Registry.result?_standard {s : Signature} (hs : s ∈ standard) :
    s.variant.result? ((s.params.drop (targets s.key)).map Ty.kind) = some s.result.kind := by
  have hall : standard.all fun s =>
      s.variant.result? ((s.params.drop (targets s.key)).map Ty.kind) == some s.result.kind := rfl
  simpa using List.all_eq_true.mp hall s hs

lemma Registry.targets_compare {s : Signature} (hs : s ∈ standard) {c : Comparison}
    (hc : s.variant = .expansion (.compare c)) : targets s.key = 0 := by
  have hall : standard.all fun s => s.variant != .expansion (.compare c) || targets s.key == 0 := by
    cases c <;> rfl
  simpa [hc] using List.all_eq_true.mp hall s hs

lemma Registry.Takes.kinds {s : Signature} {ts : List Ty} {t : Ty} (h : Takes s ts t) :
    ts.map Ty.kind = s.params.map Ty.kind ∧ t.kind = s.result.kind := by
  cases h with
  | plain => exact ⟨rfl, rfl⟩
  | length e => exact ⟨rfl, rfl⟩
  | arrayCast e => exact ⟨rfl, rfl⟩

/-- Parts one after the other, each with its own shape below its result. -/
def Part.each (d : Option Shape) : (below : Nat → Shape) → List Kind → List Code → List Part
  | below, k :: ks, c :: cs =>
    ⟨c, ⟨below 0, d⟩, ⟨k :: below 0, d⟩⟩ :: each d (fun i => below (i + 1)) ks cs
  | _, _, _ => []

lemma Part.flatMap_each {d : Option Shape} {below : Nat → Shape} {ks : List Kind} {cs : List Code}
    (h : ks.length = cs.length) :
    (each d below ks cs).flatMap (·.code.codeLabels) = cs.flatMap Code.codeLabels := by
  induction ks generalizing below cs with
  | nil =>
    cases cs with
    | nil => rfl
    | cons => cases h
  | cons k ks ih =>
    cases cs with
    | nil => cases h
    | cons c cs => simp [each, ih (Nat.succ.inj h)]

/-- Parts with the same shape below them. -/
lemma Part.forall₂_each {X : Sites} {d : Option Shape} {s : Shape} {us : List Ty} {cs : List Code}
    (hlen : cs.length = us.length)
    (h : ∀ p ∈ each d (fun _ => s) (us.map Ty.kind) cs, Shaped X p.code p.start p.stop) :
    List.Forall₂ (fun u c => Shaped X c ⟨s, d⟩ ⟨u.kind :: s, d⟩) us cs := by
  induction us generalizing cs with
  | nil =>
    cases cs with
    | nil => exact .nil
    | cons => cases hlen
  | cons u us ih =>
    cases cs with
    | nil => cases hlen
    | cons c cs =>
      obtain ⟨hc, hcs⟩ := List.forall_mem_cons.mp h
      exact .cons hc (ih (Nat.succ.inj hlen) hcs)

/-- The words below an operand are those of the operands before it. -/
def Part.operands (d : Option Shape) (s : Shape) (ks : List Kind) (cs : List Code) : List Part :=
  each d (fun i => (ks.take i).reverse ++ s) ks cs

lemma Part.operands_cons (d : Option Shape) (s : Shape) (k : Kind) (ks : List Kind) (c : Code)
    (cs : List Code) :
    operands d s (k :: ks) (c :: cs) = ⟨c, ⟨s, d⟩, ⟨k :: s, d⟩⟩ :: operands d (k :: s) ks cs := by
  simp [operands, each]

lemma Part.shaped_operands {X : Sites} {d : Option Shape} {s : Shape} {ks : List Kind}
    {cs : List Code} (hlen : ks.length = cs.length)
    (h : ∀ p ∈ operands d s ks cs, Shaped X p.code p.start p.stop) :
    Shaped X cs.flatten ⟨s, d⟩ ⟨ks.reverse ++ s, d⟩ := by
  induction ks generalizing s cs with
  | nil =>
    cases cs with
    | nil => exact .nil
    | cons => cases hlen
  | cons k ks ih =>
    cases cs with
    | nil => cases hlen
    | cons c cs =>
      rw [operands_cons] at h
      obtain ⟨hc, hcs⟩ := List.forall_mem_cons.mp h
      simpa using hc.append (ih (Nat.succ.inj hlen) hcs)

namespace Lower

variable {st st' : LowerState}

/-- An operator makes the labels that it needs. -/
lemma run_operatorLabels {v : Variant} {l : LabelFamily}
    (h : (operatorLabels v).run st = .ok (l, st')) (k : Kind) :
    Grows st (l.labels (v.roles k) : List Label) 0 st' := by
  unfold operatorLabels at h
  split at h
  · next c =>
    obtain ⟨rfl, rfl⟩ := run_fresh h
    cases c <;> cases k <;> exact Grows.family (by decide) (by decide) (by decide)
  iterate 2
    next =>
      obtain ⟨rfl, rfl⟩ := run_fresh h
      cases k <;> exact Grows.family (by decide) (by decide) (by decide)
  · next hcompare hand hor =>
    obtain ⟨-, rfl⟩ := run_pure h
    have hroles : v.roles k = [] := by
      unfold Variant.roles
      split <;> simp_all
    simpa [hroles, LabelFamily.labels] using Grows.refl st'

/-- Code that leaves a word of the kind `k`, made from operands of the kinds `ks` and from labels of a
family. -/
def Applied (l : LabelFamily) (roles : List (String × Shape)) (ks : List Kind) (cs : List Code)
    (k : Kind) (c : Code) : Prop :=
  c.codeLabels = cs.flatMap Code.codeLabels ++ l.labels roles ∧
    ∀ (X : Sites) (s : Shape) (d : Option Shape), X.IsStandard → l.sites roles s d ⊆ X.code →
      (∀ p ∈ Part.operands d s ks cs, Shaped X p.code p.start p.stop) →
      Shaped X c ⟨s, d⟩ ⟨k :: s, d⟩

/-- Instructions behind the operands. -/
lemma Applied.behind {l : LabelFamily} {ks : List Kind} {cs : List Code} {k : Kind} {tail : Code}
    (hlen : ks.length = cs.length) (htail : tail.codeLabels = [])
    (hshape : ∀ (X : Sites) (s : Shape) (d : Option Shape), X.IsStandard →
      Shaped X tail ⟨ks.reverse ++ s, d⟩ ⟨k :: s, d⟩) :
    Applied l [] ks cs k (cs.flatten ++ tail) := by
  have hlabels : Code.codeLabels cs.flatten = cs.flatMap Code.codeLabels := by
    clear hlen
    induction cs with
    | nil => rfl
    | cons c cs ih => simp [ih]
  refine ⟨by simp [hlabels, htail, LabelFamily.labels], fun X s d hX _ hparts => ?_⟩
  exact (Part.shaped_operands hlen hparts).append (hshape X s d hX)

/-- Two operands and labels. -/
lemma Applied.pair {l : LabelFamily} {roles : List (String × Shape)} {j k : Kind} {a b c : Code}
    (hlabels : c.codeLabels = a.codeLabels ++ b.codeLabels ++ l.labels roles)
    (hshape : ∀ (X : Sites) (s : Shape) (d : Option Shape), l.sites roles s d ⊆ X.code →
      Shaped X a ⟨s, d⟩ ⟨j :: s, d⟩ → Shaped X b ⟨j :: s, d⟩ ⟨j :: j :: s, d⟩ →
      Shaped X c ⟨s, d⟩ ⟨k :: s, d⟩) :
    Applied l roles [j, j] [a, b] k c := by
  refine ⟨by simp [hlabels], fun X s d _ hl hparts => ?_⟩
  simp only [Part.operands_cons, List.forall_mem_cons] at hparts
  exact hshape X s d hl hparts.1 hparts.2.1

/-- The code of an operator, for operands of kinds that it takes. -/
lemma run_applyVariant {v : Variant} {isFloat : Bool} {l : LabelFamily} {cs : List Code} {c : Code}
    (h : (applyVariant v isFloat l cs).run st = .ok (c, st')) {ks : List Kind} {k : Kind}
    (hk : v.result? ks = some k) (hlen : ks.length = cs.length)
    (hfloat : ∀ x, v = .expansion (.compare x) →
      ks.head? = some (Lowering.comparedKind isFloat)) :
    st' = st ∧ Applied l (v.roles (Lowering.comparedKind isFloat)) ks cs k c := by
  unfold Variant.result? at hk
  split at hk
  · next o ks =>
    rw [applyVariant_plain] at h
    obtain ⟨rfl, rfl⟩ := run_pure h
    split at hk
    · next hflow =>
      cases hk
      refine ⟨rfl, Applied.behind hlen (by split <;> simp) fun X s d _ => ?_⟩
      split
      · next ho =>
        subst ho
        have hks : ks.reverse = [k] := by
          simpa [PlainOp.flow, PlainOp.words?, Shape.below] using hflow
        rw [hks]
        exact .nil
      · exact .single (.plain (PlainOp.flow_append s hflow))
    · cases hk
  · next x j j' =>
    split at hk
    · next hj =>
      cases hk
      subst hj
      obtain ⟨a, b, rfl⟩ := List.length_eq_two.mp hlen.symm
      obtain ⟨rfl, rfl⟩ := run_pure h
      cases hfloat x rfl
      exact ⟨rfl, Applied.pair (Lowering.codeLabels_compare ..) fun X s d hl ha hb =>
        Lowering.shaped_compare hl ha hb⟩
    · cases hk
  iterate 2
    next =>
      cases hk
      obtain ⟨a, b, rfl⟩ := List.length_eq_two.mp hlen.symm
      obtain ⟨rfl, rfl⟩ := run_pure h
      exact ⟨rfl, Applied.pair (Lowering.codeLabels_shortCircuit rfl) fun X s d hl ha hb =>
        Lowering.shaped_shortCircuit rfl rfl (by simp) hl ha hb⟩
  iterate 2
    next =>
      cases hk
      obtain ⟨rfl, rfl⟩ := run_pure h
      exact ⟨rfl, Applied.behind hlen rfl fun X s d _ => Lowering.shaped_divide rfl rfl⟩
  · cases hk
    obtain ⟨rfl, rfl⟩ := run_pure h
    rw [List.append_assoc]
    exact ⟨rfl, Applied.behind hlen rfl fun X s d hX => .straight hX.allocator (by simp) rfl⟩
  iterate 2
    next =>
      cases hk
      obtain ⟨rfl, rfl⟩ := run_pure h
      exact ⟨rfl, Applied.behind hlen rfl fun X s d hX => .straight hX.allocator (by simp) rfl⟩
  · cases hk
    obtain ⟨rfl, rfl⟩ := run_pure h
    rw [List.append_assoc]
    exact ⟨rfl, Applied.behind hlen rfl fun X s d hX => .straight hX.allocator (by simp) rfl⟩
  · cases hk

end Lower

/-! ## Expressions -/

/-- The words that a fragment for an expression of a type leaves. -/
def Residue.words (t : Ty) : Residue → Shape
  | .void => []
  | .value => [t.kind]
  | .address => [.int]

/-- What a call leaves on the stack. -/
abbrev Residue.ofResult (t : Ty) : Residue := if t.isVoid then .void else .value

lemma Residue.ofResult_eq_void_iff (t : Ty) : ofResult t = .void ↔ t.isVoid := by
  unfold ofResult
  split <;> simp_all

lemma Residue.words_ofResult (t : Ty) : (ofResult t).words t = t.residue := by
  unfold ofResult Ty.residue
  split <;> rfl

lemma Binding.shaped_address {X : Sites} (hX : X.IsStandard) {b : Binding} {s : Shape}
    {d : Option Shape} : Shaped X b.address ⟨s, d⟩ ⟨.int :: s, d⟩ := by
  unfold Binding.address
  split
  · exact Shaped.straight hX.allocator (by simp [hX.cells, Code.straight_note]) rfl
  · exact Shaped.straight hX.allocator (by simp [hX.cells, Code.straight_note]) rfl

lemma Binding.codeLabels_address (b : Binding) : b.address.codeLabels = [] := by
  unfold Binding.address
  split <;> simp

lemma Widens.shaped_code {X : Sites} {t : Ty} {w : Widened} (h : Widens t w) {s : Shape}
    {d : Option Shape} : Shaped X (Widening.code w.2) ⟨t.kind :: s, d⟩ ⟨w.1.kind :: s, d⟩ := by
  cases h with
  | same => exact .nil
  | charToInt => exact .nil
  | charToFloat => exact .single (.plain rfl)
  | intToFloat => exact .single (.plain rfl)

lemma Widens.codeLabels_code {t : Ty} {w : Widened} (h : Widens t w) :
    (Widening.code w.2).codeLabels = [] := by
  cases h <;> rfl

namespace Lower

variable {st st' : LowerState} {hs : Multiset FuncHead} {s : Shape} {d : Option Shape}

/-- Code without labels, which may use what was put into the state for it. -/
lemma Makes.bare {c : Code} {e e' : Entry} {ext : List (Label × Entry)} (hg : Grows st 0 hs st')
    (hc : c.codeLabels = []) (h : ∀ X : Sites, X.Covers st' → Shaped X c e e') :
    Makes st [⟨c, e, e'⟩] hs ext st' := by
  refine ⟨by simpa [hc] using hg, [], by simp [hc], fun X hX _ _ p hp => ?_⟩
  obtain rfl := List.mem_singleton.mp hp
  exact h X hX

lemma Makes.leaf {c : Code} {e e' : Entry} {ext : List (Label × Entry)} (hc : c.codeLabels = [])
    (h : ∀ X : Sites, X.Covers st → Shaped X c e e') : Makes st [⟨c, e, e'⟩] 0 ext st :=
  Makes.bare (Grows.refl st) hc h

/-- The value of an expression whose fragment is shaped. -/
lemma Makes.value {e : Expr} {t : Ty} {c : Code} (ht : e.ty? = some t)
    (hrun : e.lowerValue.run st = .ok (c, st'))
    (h : ∀ {f st₁}, e.lower.run st = .ok (f, st₁) →
      Makes st [⟨f.code, ⟨s, d⟩, ⟨f.residue.words t ++ s, d⟩⟩] hs [] st₁) :
    Makes st [⟨c, ⟨s, d⟩, ⟨t.kind :: s, d⟩⟩] hs [] st' := by
  obtain ⟨f, st₁, hf, hv⟩ := run_bind hrun
  have hmakes := h hf
  obtain ⟨rfl, ⟨hres, rfl⟩ | ⟨hres, rfl⟩⟩ := run_valueOf hv
  · simpa [hres, Residue.words] using hmakes
  · rw [hres] at hmakes
    refine Makes.map hmakes (by simp) fun X _ _ hparts => ?_
    refine (hparts _ List.mem_cons_self).append ?_
    rw [ht]
    exact .single (.plain (Ty.flow_loadOp t s))

/-- The value of an operand with the conversions noted on it. -/
lemma Makes.widened {e : Expr} {t : Ty} {w : Widened} {c : Code} (hw : Widens t w)
    (he : e.note.widening = []) (ht : e.ty? = some t)
    (hrun : ((Widening.attached e w).applyWidening standard).lowerValue.run st = .ok (c, st'))
    (h : ∀ {f st₁}, (e.applyWidening standard).lower.run st = .ok (f, st₁) →
      Makes st [⟨f.code, ⟨s, d⟩, ⟨f.residue.words t ++ s, d⟩⟩]
        (e.applyWidening standard).heads [] st₁) :
    Makes st [⟨c, ⟨s, d⟩, ⟨w.1.kind :: s, d⟩⟩]
      ((Widening.attached e w).applyWidening standard).heads [] st' := by
  rw [(hw.lowerValue_eq he ht).1] at hrun
  obtain ⟨c, hc, rfl⟩ := run_map hrun
  rw [Widening.heads_attached he]
  refine Makes.map (Makes.value ((Expr.ty?_applyWidening he).trans ht) hc h) ?_
    fun X _ _ hparts => (hparts _ List.mem_cons_self).append hw.shaped_code
  simp [hw.codeLabels_code]

/-- The label of a string constant is one of the table. -/
lemma run_string {text l : String} (h : (string text).run st = .ok (l, st')) :
    Grows st 0 0 st' ∧ ∃ x ∈ st'.strings.entries, x.2 = l := by
  unfold string at h
  obtain ⟨_, _, hget, h⟩ := run_bind h
  cases hget
  split at h
  · next l' hl =>
    obtain ⟨rfl, rfl⟩ := run_pure h
    refine ⟨Grows.refl st', (text, l), ?_, rfl⟩
    rw [StringTable.find?_eq] at hl
    split at hl
    · obtain ⟨l₁, l₂, he, -⟩ := List.lookup_eq_some_iff.mp hl
      simp [he]
    · cases hl
  · obtain ⟨f, st₁, hf, h⟩ := run_bind h
    obtain ⟨rfl, rfl⟩ := run_fresh hf
    cases h
    have hfresh := FreshLabels.family st.families (show isWord "string" by decide)
      (show ∀ r ∈ [""], isWord r by decide) (by decide)
    refine ⟨⟨[], [(text, LabelFamily.label ⟨"string", st.families + 1⟩ "")], (List.append_nil _).symm,
      rfl, by simp, by simp, ?_⟩, (text, LabelFamily.label ⟨"string", st.families + 1⟩ ""), ?_, rfl⟩
    · simpa [counted] using hfresh
    · exact List.mem_append_right _ (List.mem_singleton_self _)

end Lower

/-- Putting a checked subroutine into the queue. -/
lemma Lower.grows_enqueue {st st' : LowerState} {h : FuncHead} {b : List Stmt} {l : LabelFamily}
    (hrun : (enqueue h b).run st = .ok (l, st')) (hc : PendingFunc.Checked ⟨l, h, b⟩) :
    Grows st 0 (h ::ₘ Stmt.headsAll b) st' ∧ ⟨l, h, b⟩ ∈ st'.pending := by
  obtain ⟨rfl, rfl⟩ := run_enqueue hrun
  refine ⟨⟨[⟨_, h, b⟩], [], rfl, (List.append_nil _).symm, by simpa using hc,
    by simp [PendingFunc.heads], ?_⟩, by simp⟩
  have hfresh := FreshLabels.family st.families (show isWord "function" by decide)
    (show ∀ r ∈ ["start", "exit"], isWord r by decide) (by decide)
  simpa [PendingFunc.ends, counted, Lowering.startLabel, Lowering.exitLabel] using hfresh

namespace Expr

open Lower

/-- What checking fills in is there. -/
lemma Elab.ty?_eq {r : Rules} {Γ : Ctx} {k : Bool} {e e' : Expr} (h : Expr.Elab r Γ k e e') :
    e'.ty? = some e'.checkedTy ∧ e'.note.widening = [] := by
  cases h <;> exact ⟨rfl, rfl⟩

/-- The types of operands after the noted conversions were inserted. -/
lemma ElabAll.ty?_attach {r : Rules} {Γ : Ctx} : ∀ {es es' : List Expr}, Expr.ElabAll r Γ es es' →
    ∀ {ws : List Widened}, List.Forall₂ Widens (es'.map Expr.checkedTy) ws →
      (Expr.applyWidenings standard (Widening.attach es' ws)).map Expr.ty? =
        (Widening.types ws).map some
  | _, _, .nil, _, .nil => rfl
  | _, _, .cons head tail, _, .cons hw hws => by
    obtain ⟨hty, hplain⟩ := head.ty?_eq
    exact congrArg₂ List.cons (hw.lowerValue_eq hplain hty).2 (ElabAll.ty?_attach tail hws)

/-- What lowering makes of expressions, in terms of the types that operands are widened to. -/
def MakesAll (es : List Expr) (conversion : Bool) (us : List Ty) : Prop :=
  ∀ (st st' : LowerState) (cs : List Code), (Expr.lowerAll conversion es).run st = .ok (cs, st') →
    cs.length = us.length ∧ ∀ below d,
      Makes st (Part.each d below (us.map Ty.kind) cs) (Expr.headsAll es) [] st'

lemma makesAll_nil : MakesAll [] false [] := by
  intro st st' cs hrun
  obtain ⟨rfl, rfl⟩ := run_pure hrun
  exact ⟨rfl, fun below d => Makes.nil st'⟩

lemma MakesAll.cons {e : Expr} {es : List Expr} {u : Ty} {us : List Ty}
    (he : ∀ {st st' c}, e.lowerValue.run st = .ok (c, st') → ∀ s d,
      Makes st [⟨c, ⟨s, d⟩, ⟨u.kind :: s, d⟩⟩] e.heads [] st')
    (hes : MakesAll es false us) : MakesAll (e :: es) false (u :: us) := by
  intro st st' cs hrun
  rw [lowerAll_cons] at hrun
  obtain ⟨c, st₁, hc, hrun⟩ := run_bind hrun
  obtain ⟨cs, st₂, hcs, hrun⟩ := run_bind hrun
  obtain ⟨rfl, rfl⟩ := run_pure hrun
  obtain ⟨hlen, hmakes⟩ := hes _ _ _ hcs
  exact ⟨by simp [hlen], fun below d => (he hc (below 0) d).append (hmakes _ d)⟩

/-- The code of an operator, whose operands are shaped. -/
lemma makes_operator {n : Note} {op : TokenKind} {es : List Expr} {g : Signature} {t : Ty}
    {us : List Ty} {st st' : LowerState} {f : Fragment} (hg : g ∈ standard) (hkey : g.key = op)
    (htakes : Registry.Takes g us t) (hus : es.map Expr.ty? = us.map some)
    (hrun : (Expr.operator n op es (some g)).lower.run st = .ok (f, st'))
    (h : MakesAll es (op == .cast) (us.drop (Registry.targets op))) (s : Shape) (d : Option Shape) :
    f.residue = .value ∧
      Makes st [⟨f.code, ⟨s, d⟩, ⟨t.kind :: s, d⟩⟩] (Expr.headsAll es) [] st' := by
  obtain ⟨l, st₀, hl, hrun⟩ := run_bind hrun
  obtain ⟨cs, st₁, hcs, hrun⟩ := run_bind hrun
  obtain ⟨c, st₂, hc, hrun⟩ := run_bind hrun
  obtain ⟨rfl, rfl⟩ := run_pure hrun
  obtain ⟨hlen, hmakes⟩ := h _ _ _ hcs
  obtain ⟨hkinds, hkind⟩ := htakes.kinds
  have hresult : g.variant.result? ((us.drop (Registry.targets op)).map Ty.kind) = some t.kind := by
    rw [List.map_drop, hkinds, hkind, ← List.map_drop, ← hkey]
    exact Registry.result?_standard hg
  have hfloat : ∀ x, g.variant = .expansion (.compare x) →
      ((us.drop (Registry.targets op)).map Ty.kind).head? = some (Lowering.comparedKind
        ((es.head?.bind Expr.ty?).any (·.isPrim .float))) := by
    intro x hx
    rw [← hkey, Registry.targets_compare hg hx, List.drop_zero]
    cases us with
    | nil => simp [hx, Variant.result?] at hresult
    | cons u us =>
      obtain ⟨e, es, rfl, he, -⟩ := List.map_eq_cons_iff.mp hus
      simp [he, Ty.kind, Lowering.comparedKind]
  obtain ⟨rfl, happlied⟩ := run_applyVariant hc hresult (by simpa using hlen.symm) hfloat
  refine ⟨rfl, ?_⟩
  have hparts := hmakes
    (fun i => (((us.drop (Registry.targets op)).map Ty.kind).take i).reverse ++ s) d
  refine Makes.build (l.sites _ s d) ?_ hparts ?_ fun X hX hown _ hshaped =>
    happlied.2 X s d hX.toIsStandard hown hshaped
  · rw [LabelFamily.map_fst_sites]
    exact run_operatorLabels hl _
  · rw [LabelFamily.map_fst_sites, Part.flatMap_each (by simpa using hlen.symm), happlied.1,
      ← Multiset.coe_add, add_comm]

mutual

/-- What lowering makes of an expression: code that leaves what its fragment says. -/
theorem Elab.makes {r : Rules} (hr : r.registry = standard) {Γ : Ctx} (hΓ : Γ.allValues) :
    ∀ {k : Bool} {e e' : Expr}, Expr.Elab r Γ k e e' → e.isSource →
    ∀ {st st' : LowerState} {f : Fragment},
      (e'.applyWidening standard).lower.run st = .ok (f, st') →
      (f.residue = .void ↔ e'.checkedTy.isVoid) ∧ ∀ s d,
        Makes st [⟨f.code, ⟨s, d⟩, ⟨f.residue.words e'.checkedTy ++ s, d⟩⟩]
          (e'.applyWidening standard).heads [] st'
  | _, _, _, .number, _, _, _, _, hrun | _, _, _, .char, _, _, _, _, hrun | _, _, _, .bool, _, _, _, _, hrun => by
    obtain ⟨rfl, rfl⟩ := run_pure hrun
    exact ⟨iff_of_false nofun nofun, fun s d => Makes.leaf rfl fun X _ => .single .pushI⟩
  | _, _, _, .floatNumber, _, _, _, _, hrun => by
    obtain ⟨rfl, rfl⟩ := run_pure hrun
    exact ⟨iff_of_false nofun nofun, fun s d => Makes.leaf rfl fun X _ => .single .pushF⟩
  | _, _, _, .string, _, st, st', _, hrun => by
    obtain ⟨l, st₁, hl, hrun⟩ := run_bind hrun
    obtain ⟨rfl, rfl⟩ := run_pure hrun
    obtain ⟨hgrows, x, hx, rfl⟩ := run_string hl
    exact ⟨iff_of_false nofun nofun, fun s d => Makes.bare hgrows rfl fun X hX =>
      .single (.pushD (.inl (hX.strings x hx)))⟩
  | _, _, _, .typeLiteral, hs, _, _, _, _ => by simp [Expr.isSource] at hs
  | _, _, _, .ident (b := b) find _, _, _, _, _, hrun => by
    obtain ⟨b', st₁, hb, hrun⟩ := run_bind hrun
    obtain ⟨rfl, rfl⟩ := run_pure hrun
    obtain ⟨hb, rfl⟩ := run_required hb
    cases hb
    have hvalue : b.ty.isVoid = false :=
      Ty.not_isVoid_of_isValue (hΓ b (Ctx.mem_visible_of_find? find))
    refine ⟨iff_of_false nofun (ne_true_of_eq_false hvalue), fun s d => ?_⟩
    exact Makes.leaf b.codeLabels_address fun X hX => Binding.shaped_address hX.toIsStandard
  | _, _, _, @Expr.Elab.operator _ _ _ _ op es _ es' g t ws operands rule, hs, st, st', f, hrun => by
    have hes := (Expr.ElabAll.isOperand hr hΓ operands hs).1
    obtain ⟨hg, hkey, htakes, hws⟩ := Rules.operator_spec hr (operands.isGround hr hΓ hs) rule
    have hvalue : t.isVoid = false :=
      Ty.not_isVoid_of_isValue (Rules.operator_isValue hr (by simpa using hes) rule)
    have hall := ElabAll.makes hr hΓ operands hs hws
    have hop := makes_operator hg hkey htakes (operands.ty?_attach hws) hrun hall
    refine ⟨iff_of_false (by simp [(hop [] none).1]) (ne_true_of_eq_false hvalue), fun s d => ?_⟩
    rw [(hop s d).1]
    exact (hop s d).2
  | _, _, _, @Expr.Elab.arrayLiteral _ _ _ _ es es' t ws elems rule, hs, st, st', f, hrun => by
    simp only [Expr.isSource, Bool.and_eq_true, Bool.not_eq_true', List.isEmpty_eq_false_iff] at hs
    have hes := (Expr.ElabAll.isOperand hr hΓ elems hs.2).2 rfl
    obtain ⟨-, hsame, hws⟩ := Rules.elements_spec (elems.map_ne_nil hs.1) (by simpa using hes) rule
    obtain ⟨cs, st₁, hcs, hrun⟩ := run_bind hrun
    obtain ⟨rfl, rfl⟩ := run_pure hrun
    obtain ⟨hlen, hparts⟩ := ElabAll.makes hr hΓ elems hs.2 hws _ _ _ hcs
    refine ⟨iff_of_false nofun nofun, fun s d => ?_⟩
    refine Makes.map (hparts (fun _ => .int :: .int :: s) d) ?_ fun X hX _ hshaped => ?_
    · rw [Part.flatMap_each (by simpa using hlen.symm), Lowering.codeLabels_arrayLiteral]
    · refine Lowering.shaped_arrayLiteral hX.toIsStandard fun c hc => ?_
      obtain ⟨u, hu, hc⟩ := exists_of_forall₂ (Part.forall₂_each hlen hshaped) hc
      rwa [hsame u hu] at hc
  | _, _, _, @Expr.Elab.arrayAlloc _ _ _ _ t l l' t' chain length rule, hs, st, st', f, hrun => by
    simp only [Expr.isSource, Bool.and_eq_true] at hs
    obtain ⟨hint, hw⟩ := Rules.length_spec rule
    obtain ⟨hty, hplain⟩ := length.ty?_eq
    have hrun' : ((Expr.arrayAlloc _ t ((Widening.attached l' (t', chain)).applyWidening
        standard)).lower).run st = .ok (f, st') := hrun
    rw [lower_arrayAlloc] at hrun'
    obtain ⟨c, st₁, hc, hrun'⟩ := run_bind hrun'
    obtain ⟨rfl, rfl⟩ := run_pure hrun'
    refine ⟨iff_of_false nofun nofun, fun s d => ?_⟩
    have hlength := Makes.widened (s := s) (d := d) hw hplain hty hc fun hf =>
      (Elab.makes hr hΓ length hs.2 hf).2 s d
    cases hint
    exact Makes.map hlength (by simp [Lowering.codeLabels_arrayAlloc]) fun X hX _ hshaped =>
      Lowering.shaped_arrayAlloc hX.toIsStandard (hshaped _ List.mem_cons_self)
  | _, _, _, @Expr.Elab.index _ _ _ _ a i a' i' t array position rule, hs, st, st', f, hrun => by
    simp only [Expr.isSource, Bool.and_eq_true] at hs
    obtain ⟨harray, hint⟩ := Rules.index_spec rule
    have hrun' : (Expr.index _ (a'.applyWidening standard) (i'.applyWidening standard)).lower.run st =
      .ok (f, st') := hrun
    rw [lower_index] at hrun'
    obtain ⟨ca, st₁, hca, hrun'⟩ := run_bind hrun'
    obtain ⟨ci, st₂, hci, hrun'⟩ := run_bind hrun'
    obtain ⟨rfl, rfl⟩ := run_pure hrun'
    have hvalue : t.isVoid = false := by
      have ha := (array.isValue hr hΓ hs.1)
      rw [harray] at ha
      exact Ty.not_isVoid_of_isValue (t := t) ha
    refine ⟨iff_of_false nofun (ne_true_of_eq_false hvalue), fun s d => ?_⟩
    have ha := Makes.value (s := s) (d := d)
      ((Expr.ty?_applyWidening array.ty?_eq.2).trans array.ty?_eq.1) hca fun hf =>
      (Elab.makes hr hΓ array hs.1 hf).2 s d
    have hi := Makes.value (s := .int :: s) (d := d)
      ((Expr.ty?_applyWidening position.ty?_eq.2).trans position.ty?_eq.1) hci fun hf =>
      (Elab.makes hr hΓ position hs.2 hf).2 _ d
    rw [harray] at ha
    rw [hint] at hi
    refine Makes.map (ha.append hi) (by simp [Lowering.codeLabels_index]) fun X hX _ hshaped => ?_
    simp only [List.cons_append, List.nil_append, List.forall_mem_cons] at hshaped
    exact Lowering.shaped_index hX.toIsStandard hshaped.1 hshaped.2.1
  | k, _, _, @Expr.Elab.call _ _ _ _ g es g' es' t ws callee args rule value, hs, st, st', f, hrun => by
    simp only [Expr.isSource, Bool.and_eq_true] at hs
    obtain ⟨hfun, hws⟩ := Rules.call_spec (Ty.isGround_of_isValue _ (callee.isValue hr hΓ hs.1))
      (args.isGround hr hΓ hs.2) rule
    have hty : (g'.applyWidening standard).ty? = some (.func (Widening.types ws) t) := by
      rw [Expr.ty?_applyWidening callee.ty?_eq.2, callee.ty?_eq.1, hfun]
    have hrun' : (Expr.call _ (g'.applyWidening standard)
      (Expr.applyWidenings standard (Widening.attach es' ws))).lower.run st = .ok (f, st') := hrun
    rw [lower_call hty] at hrun'
    obtain ⟨cs, st₁, hcs, hrun'⟩ := run_bind hrun'
    obtain ⟨c, st₂, hc, hrun'⟩ := run_bind hrun'
    obtain ⟨rfl, rfl⟩ := run_pure hrun'
    obtain ⟨hlen, hparts⟩ := ElabAll.makes hr hΓ args hs.2 hws _ _ _ hcs
    have hlen : cs.length = (Widening.types ws).length := hlen
    refine ⟨Residue.ofResult_eq_void_iff t, fun s d => ?_⟩
    have hcallee := Makes.value (s := s) (d := d) hty hc fun hf =>
      hfun ▸ (Elab.makes hr hΓ callee hs.1 hf).2 s d
    have hall := (hparts (fun _ => .int :: s) d).append hcallee
    rw [add_comm] at hall
    refine Makes.map hall ?_ fun X hX _ hshaped => ?_
    · rw [Lowering.codeLabels_callSite hlen.symm, List.flatMap_append,
        Part.flatMap_each (by simpa using hlen.symm)]
      simp
    · simp only [List.forall_mem_append, List.forall_mem_singleton] at hshaped
      change Shaped X _ _ ⟨Residue.words t (.ofResult t) ++ s, d⟩
      rw [Residue.words_ofResult]
      exact Lowering.shaped_callSite hX.toIsStandard (Part.forall₂_each hlen hshaped.1) hshaped.2
  | _, _, _, @Expr.Elab.lambda _ _ _ _ h b act b' Γ' params fresh body, hs, st, st', f, hrun => by
    simp only [Expr.isSource, Bool.and_eq_true] at hs
    obtain ⟨l, st₁, hl, hrun⟩ := run_bind hrun
    obtain ⟨rfl, rfl⟩ := run_pure hrun
    have hchecked : PendingFunc.Checked ⟨l, h.completed act Γ'.peak, Stmt.applyWidenings standard b'⟩ := by
      refine ⟨r, _, Γ', b, b', hr, ?_, ?_, hs.2, body, rfl⟩
      · exact Ctx.allValues_enter (Ctx.allValues_inFunc hΓ hs.1 params)
      · simp only [FuncHead.isSource, Bool.and_eq_true] at hs
        exact hs.1.2
    obtain ⟨hgrows, hpending⟩ := grows_enqueue hl hchecked
    exact ⟨iff_of_false nofun nofun, fun s d => Makes.bare hgrows rfl fun X hX =>
      .single (.pushD (.inr (List.mem_map_of_mem (hX.starts _ hpending))))⟩

theorem ElabAll.makes {r : Rules} (hr : r.registry = standard) {Γ : Ctx} (hΓ : Γ.allValues) :
    ∀ {conversion : Bool} {es es' : List Expr}, Expr.ElabAll r Γ es es' →
    Expr.areSource conversion es → ∀ {ws : List Widened},
      List.Forall₂ Widens (es'.map Expr.checkedTy) ws →
      MakesAll (Expr.applyWidenings standard (Widening.attach es' ws)) conversion
        ((Widening.types ws).drop (if conversion then 1 else 0))
  | true, _, _, .nil, _, _, .nil => makesAll_nil
  | false, _, _, .nil, _, _, .nil => makesAll_nil
  | true, _, _, .cons (e := e) head tail, hs, _, .cons hw hws => by
    simp only [Expr.areSource, if_true, Bool.and_eq_true] at hs
    -- the target of a conversion is there for its type only
    have he : e.isConversionTarget := hs.1
    cases head with
    | typeLiteral =>
      cases hw
      intro st st' cs hrun
      obtain ⟨hlen, hparts⟩ := ElabAll.makes hr hΓ tail hs.2 hws st st' cs hrun
      refine ⟨hlen, fun below d => ?_⟩
      change Makes _ (Part.each d below ((Widening.types _).map Ty.kind) cs) (0 + _) [] _
      rw [zero_add]
      exact hparts below d
    | _ => simp [Expr.isConversionTarget] at he
  | false, _, _, .cons head tail, hs, _, .cons hw hws => by
    simp only [Expr.areSource, Bool.false_eq_true, if_false, Bool.and_eq_true] at hs
    refine MakesAll.cons (fun hrun s d => ?_) (ElabAll.makes hr hΓ tail hs.2 hws)
    exact Makes.widened hw head.ty?_eq.2 head.ty?_eq.1 hrun fun hf =>
      (Elab.makes hr hΓ head hs.1 hf).2 s d

end

end Expr

end SubrLang
