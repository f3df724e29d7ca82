import SubrLang.Proofs.SymbolTables

/-!
# Storage of live bindings

Blocks that follow one another use the same bytes, so two bindings of a program may well lie in the same
place. Two bindings in blocks that are open at the same time never do.

**One allocator.** `Allocator.Holds` ties an allocator to the bindings in its open blocks, innermost block
first: they lie one behind the other, and the saved marks are where each block starts. Opening a block,
declaring a name in the innermost block and leaving it keep this (`Allocator.Holds.save`,
`Allocator.Holds.take`, `Allocator.Holds.restore`). A name declared in an outer block would not: it would get
bytes that the next name in that block gets again once the inner block is left. What the invariant gives is in
`Region.Packed.pairwise` and `Region.Packed.subset`.

**Sessions.** A `Session` is a symbol table with its open scopes, and `Session.Follows` is the discipline:
names go to the innermost scope of an allocator, and only that scope is left. Subroutines can be opened at
any time, so several allocators are in use at once, and an operation on one leaves the others alone
(`Session.Ok.change`). Placing parameters moves bindings, but none outside parameter lists
(`SymbolTable.ParamsApart`). `Session.Ok.step` is the step, `Session.Ok.run` the run.

**Peaks.** Each operation raises a peak to what is in use afterwards, if that is more
(`Session.Advances.peak`); so the peak is the greatest of all these numbers (`Session.isGreatest_peak`).
-/

namespace SubrLang

/-! ## Bytes -/

/-- The bytes that a binding is stored in, as offsets from its base. -/
def Binding.bytes (b : Binding) : Set Int := Set.Ico b.offset (b.offset + b.ty.size)

/-- The number of bytes that bindings take together. -/
def Binding.total (bs : List Binding) : Nat := (bs.map (·.ty.size)).sum

namespace Region

/-- The number of bytes that are taken before any name is declared. -/
def reserved : Region → Nat
  | .locals => savedBytes
  | _ => 0

/-- The bytes from the one with number `lo` up to the one with number `hi`, in the order in which a region
hands them out. -/
def bytes (r : Region) (lo hi : Nat) : Set Int :=
  match r with
  | .locals => Set.Ico (-(hi : Int)) (-(lo : Int))
  | _ => Set.Ico (lo : Int) hi

lemma bytes_subset (r : Region) {lo lo' hi hi' : Nat} (hlo : lo' ≤ lo) (hhi : hi ≤ hi') :
    r.bytes lo hi ⊆ r.bytes lo' hi' := by
  cases r <;> exact Set.Ico_subset_Ico (by omega) (by omega)

lemma disjoint_bytes (r : Region) {lo mid mid' hi : Nat} (h : mid ≤ mid') :
    Disjoint (r.bytes lo mid) (r.bytes mid' hi) := by
  cases r <;> simp only [bytes, Set.Ico_disjoint_Ico] <;> omega

/-- The bytes that are handed out next when `n` are in use. -/
lemma bytes_of_nextOffset {r : Region} {n : Nat} {b : Binding}
    (h : b.offset = Allocator.nextOffset { region := r, used := n } b.ty.size) :
    b.bytes = r.bytes n (n + b.ty.size) := by
  unfold Binding.bytes
  rw [h]
  cases r <;> simp [bytes, Allocator.nextOffset]

/-- Bindings, the latest first, that lie one behind the other where a region starts with `n` bytes in use. -/
def Packed (r : Region) (n : Nat) : List Binding → Prop
  | [] => True
  | b :: bs => b.offset = Allocator.nextOffset { region := r, used := n + Binding.total bs } b.ty.size ∧
      Packed r n bs

variable {r : Region} {n : Nat} {bs bs' : List Binding}

lemma Packed.subset (h : r.Packed n bs) : ∀ b ∈ bs, b.bytes ⊆ r.bytes n (n + Binding.total bs) := by
  induction bs with
  | nil => simp
  | cons b bs ih =>
    have htotal : Binding.total (b :: bs) = b.ty.size + Binding.total bs := rfl
    refine List.forall_mem_cons.mpr ⟨?_, fun c hc => (ih h.2 c hc).trans ?_⟩
    · rw [bytes_of_nextOffset h.1]
      exact r.bytes_subset (by omega) (by omega)
    · exact r.bytes_subset le_rfl (by omega)

lemma Packed.pairwise (h : r.Packed n bs) : bs.Pairwise fun b c => Disjoint b.bytes c.bytes := by
  induction bs with
  | nil => exact .nil
  | cons b bs ih =>
    refine List.pairwise_cons.mpr ⟨fun c hc => ?_, ih h.2⟩
    rw [bytes_of_nextOffset h.1]
    exact ((r.disjoint_bytes le_rfl).mono_left (h.2.subset c hc)).symm

lemma Packed.of_append (h : r.Packed n (bs ++ bs')) : r.Packed n bs' := by
  induction bs with
  | nil => exact h
  | cons b bs ih => exact ih h.2

end Region

/-! ## One allocator -/

namespace Allocator

/-- The numbers of bytes that were in use when blocks were opened. The bindings of the blocks are given, those
of the innermost block first, and `n` bytes were in use before. -/
inductive Marks (n : Nat) : List Nat → List (List Binding) → Prop
  | root (block : List Binding) : Marks n [] [block]
  | nested {saved : List Nat} {blocks : List (List Binding)} (block : List Binding)
      (h : Marks n saved blocks) : Marks n ((n + Binding.total blocks.flatten) :: saved) (block :: blocks)

/-- An allocator has handed out the storage of the bindings in the open blocks. -/
structure Holds (a : Allocator) (blocks : List (List Binding)) : Prop where
  used : a.used = a.region.reserved + Binding.total blocks.flatten
  peak : a.used ≤ a.peak
  marks : Marks a.region.reserved a.saved blocks
  /-- Parameters get their places later. -/
  packed : a.region ≠ .params → a.region.Packed a.region.reserved blocks.flatten

variable {a a' : Allocator} {block block' : List Binding} {blocks blocks' : List (List Binding)}

lemma holds_new {r : Region} (hregion : a.region = r) (hsaved : a.saved = []) (hused : a.used = r.reserved)
    (hpeak : a.peak = r.reserved) : a.Holds [[]] where
  used := by rw [hused, hregion]; rfl
  peak := by rw [hused, hpeak]
  marks := by rw [hsaved]; exact .root []
  packed _ := trivial

lemma Holds.save (h : a.Holds blocks) : a.save.Holds ([] :: blocks) where
  used := h.used
  peak := h.peak
  marks := by
    have hmark := Marks.nested [] h.marks
    rw [← h.used] at hmark
    exact hmark
  packed := h.packed

/-- Leaving a block changes what is in use and the marks. -/
lemma restore?_fields (h : a.restore? = some a') :
    a'.region = a.region ∧ a'.peak = a.peak ∧ a'.params = a.params := by
  unfold restore? at h
  split at h
  · cases h
  · cases h
    exact ⟨rfl, rfl, rfl⟩

lemma Marks.change {n : Nat} {saved : List Nat} (h : Marks n saved (block :: blocks)) (block' : List Binding) :
    Marks n saved (block' :: blocks) := by
  cases h with
  | root => exact .root block'
  | nested _ h => exact .nested block' h

/-- Another binding in the innermost block. -/
lemma Holds.take (h : a.Holds (block :: blocks)) {b : Binding} (hoffset : b.offset = a.nextOffset b.ty.size)
    (hregion : a'.region = a.region) (hsaved : a'.saved = a.saved) (hused : a'.used = a.used + b.ty.size)
    (hpeak : a'.peak = max a.peak (a.used + b.ty.size)) : a'.Holds ((b :: block) :: blocks) where
  used := by
    have htotal : Binding.total ((b :: block) :: blocks).flatten =
      b.ty.size + Binding.total (block :: blocks).flatten := rfl
    rw [hused, h.used, hregion, htotal]
    omega
  peak := by omega
  marks := by
    rw [hregion, hsaved]
    exact h.marks.change _
  packed hne := by
    rw [hregion] at hne ⊢
    refine ⟨?_, h.packed hne⟩
    have hlater : b.offset = nextOffset { region := a.region, used := a.used } b.ty.size := hoffset
    rw [h.used] at hlater
    exact hlater

/-- The innermost block is left. -/
lemma Holds.restore (h : a.Holds (block :: blocks)) (hrestore : a.restore? = some a') :
    a'.Holds blocks := by
  obtain ⟨hused, hpeak, hmarks, hpacked⟩ := h
  cases hsaved : a.saved with
  | nil => simp [restore?, hsaved] at hrestore
  | cons n saved =>
    simp only [restore?, hsaved, Option.some.injEq] at hrestore
    subst hrestore
    rw [hsaved] at hmarks
    cases hmarks with
    | nested _ hmarks =>
      have htotal : Binding.total (block :: blocks).flatten =
          Binding.total block + Binding.total blocks.flatten := by
        simp [Binding.total]
      refine ⟨rfl, ?_, hmarks, fun hne => (hpacked hne).of_append⟩
      dsimp only
      omega

lemma total_flatten (blocks : List (List Binding)) :
    Binding.total blocks.flatten = (blocks.map (·.map (·.ty.size))).flatten.sum := by
  rw [Binding.total, List.map_flatten]

lemma Marks.congr {n : Nat} {saved : List Nat} (h : Marks n saved blocks)
    (hsizes : blocks'.map (·.map (·.ty.size)) = blocks.map (·.map (·.ty.size))) : Marks n saved blocks' := by
  induction h generalizing blocks' with
  | root block =>
    obtain ⟨block', rfl, -⟩ := List.map_eq_singleton_iff.mp hsizes
    exact .root block'
  | nested block _ ih =>
    obtain ⟨block', blocks', rfl, -, hblocks⟩ := List.map_eq_cons_iff.mp hsizes
    rw [total_flatten, ← hblocks, ← total_flatten]
    exact .nested block' (ih hblocks)

/-- Parameters keep their sizes when they get their places. -/
lemma Holds.congr (h : a.Holds blocks) (hregion : a.region = .params)
    (hsizes : blocks'.map (·.map (·.ty.size)) = blocks.map (·.map (·.ty.size))) : a.Holds blocks' where
  used := by rw [h.used, total_flatten, total_flatten, hsizes]
  peak := h.peak
  marks := h.marks.congr hsizes
  packed hne := absurd hregion hne

end Allocator

/-! ## Sessions -/

/-- What can be done with scopes. -/
inductive ScopeOp where
  | enter (s : Nat)
  | declare (s : Nat) (name : String) (ty : Ty) (mutable : Bool)
  | leave (s : Nat)
  | openParams (s : Nat)
  | closeParams (s : Nat)
  | openBody (s : Nat)
deriving Repr

/-- A symbol table with the scopes in it that are open, the latest first. -/
structure Session where
  table : SymbolTable
  opened : List Nat

namespace Session

/-- A program with its scope. -/
def start : Session := ⟨.program, [0]⟩

/-- The open scopes that share an allocator, innermost first. -/
def openAt (S : Session) (a : Nat) : List Nat :=
  S.opened.filter fun s => (S.table.scope s).allocator == a

/-- The bindings of those scopes, for each scope the latest first. -/
def blocks (S : Session) (a : Nat) : List (List Binding) :=
  (S.openAt a).map fun s => (S.table.named s).map (·.2)

/-- The bindings that were declared in the open scopes that share an allocator. -/
def live (S : Session) (a : Nat) : List Binding := (S.blocks a).flatten

/-- The number of bytes of an allocator that are in use. -/
def inUse (S : Session) (a : Nat) : Nat :=
  (S.table.alloc a).region.reserved + Binding.total (S.live a)

/-- Whether a scope is the innermost open one of those that share its allocator. -/
def Innermost (S : Session) (s : Nat) : Prop :=
  (S.openAt (S.table.scope s).allocator).head? = some s

/-- Names are declared in innermost scopes, and only these are left. Blocks and subroutines can be opened in
any scope. -/
def Allows (S : Session) : ScopeOp → Prop
  | .declare s _ _ _ | .leave s => S.Innermost s
  | .enter s | .openParams s | .closeParams s | .openBody s => s < S.table.scopes.size

/-- What an operation does. One that fails does nothing. -/
def step (S : Session) : ScopeOp → Session
  | .enter s => ⟨(S.table.enter s).1, (S.table.enter s).2 :: S.opened⟩
  | .declare s name ty mutable =>
    match S.table.declare s name ty mutable with
    | .ok (t, _) => { S with table := t }
    | .error _ => S
  | .leave s =>
    match S.table.leave s with
    | .ok (t, _) => ⟨t, S.opened.filter (· != s)⟩
    | .error _ => S
  | .openParams s => ⟨(S.table.openParams s).1, (S.table.openParams s).2 :: S.opened⟩
  | .closeParams s =>
    match S.table.closeParams s with
    | .ok t => { S with table := t }
    | .error _ => S
  | .openBody s => ⟨(S.table.openBody s).1, (S.table.openBody s).2 :: S.opened⟩

/-- The session after some operations. -/
def run (S : Session) (ops : List ScopeOp) : Session := ops.foldl step S

/-- Whether each operation is allowed when its turn comes. -/
def Follows (S : Session) : List ScopeOp → Prop
  | [] => True
  | op :: ops => S.Allows op ∧ (S.step op).Follows ops

instance (S : Session) : DecidablePred S.Allows
  | .declare s _ _ _ | .leave s => inferInstanceAs (Decidable (_ = some s))
  | .enter s | .openParams s | .closeParams s | .openBody s => inferInstanceAs (Decidable (s < _))

instance decidableFollows : (S : Session) → (ops : List ScopeOp) → Decidable (S.Follows ops)
  | _, [] => isTrue trivial
  | S, op :: ops =>
    have := decidableFollows (S.step op) ops
    inferInstanceAs (Decidable (S.Allows op ∧ (S.step op).Follows ops))

end Session

/-! ## Tables -/

namespace SymbolTable

/-- The bindings that are placed as parameters are not in scopes that hold none. -/
structure ParamsApart (t : SymbolTable) : Prop where
  lt : ∀ a, ∀ b ∈ (t.alloc a).params, b < t.bindings.size
  apart : ∀ i < t.scopes.size, (t.allocator i).region ≠ .params → ∀ p ∈ (t.scope i).symbols, ∀ a,
    p.2 ∉ (t.alloc a).params

variable {t t' : SymbolTable} {s : Nat}

lemma paramsApart_program : program.ParamsApart where
  lt a b hb := by
    have hnone : (program.alloc a).params = [] := by
      cases a <;> rfl
    rw [hnone] at hb
    cases hb
  apart i hi _ p hp := by
    obtain rfl : i = 0 := by simpa [program] using hi
    simp [program, scope] at hp

/-- Where no parameter is declared, it is enough that scopes keep their names and their regions. -/
lemma ParamsApart.keep (h : t.ParamsApart) (hbindings : t.bindings.size ≤ t'.bindings.size)
    (hparams : ∀ a, (t'.alloc a).params = (t.alloc a).params)
    (hscopes : ∀ i < t'.scopes.size, (t'.scope i).symbols = [] ∨ i < t.scopes.size ∧
      (t'.scope i).symbols = (t.scope i).symbols ∧ (t'.allocator i).region = (t.allocator i).region) :
    t'.ParamsApart where
  lt a b hb := by
    rw [hparams] at hb
    exact (h.lt a b hb).trans_le hbindings
  apart i hi hregion p hp a := by
    rw [hparams]
    rcases hscopes i hi with hnone | ⟨hlt, hsymbols, hsame⟩
    · rw [hnone] at hp
      cases hp
    · rw [hsymbols] at hp
      exact h.apart i hlt (hsame ▸ hregion) p hp a

lemma region_declared (x : String) (ty : Ty) (m : Bool) (ht : t.Good) (hs : s < t.scopes.size) (a : Nat) :
    ((t.declared s x ty m).alloc a).region = (t.alloc a).region := by
  by_cases ha : a = (t.scope s).allocator
  · subst ha
    rw [alloc_declared_self x ty m ht hs]
    exact (allocatorAfter_spec ty).1
  · rw [alloc_declared_ne x ty m ha]

lemma ParamsApart.declared (h : t.ParamsApart) (ht : t.Good) (hs : s < t.scopes.size) (x : String) (ty : Ty)
    (m : Bool) : (t.declared s x ty m).ParamsApart := by
  have hallocator : ∀ i, ((t.declared s x ty m).scope i).allocator = (t.scope i).allocator := by
    intro i
    by_cases hi : i = s
    · rw [hi, scope_declared_self x ty m hs]
    · rw [scope_declared_ne x ty m hi]
  -- the new binding is a parameter of its own allocator at most
  have hparams : ∀ a, ∀ b ∈ ((t.declared s x ty m).alloc a).params, b ∈ (t.alloc a).params ∨
      b = t.bindings.size ∧ a = (t.scope s).allocator ∧ (t.allocator s).region = .params := by
    intro a b hb
    by_cases ha : a = (t.scope s).allocator
    · subst ha
      rw [alloc_declared_self x ty m ht hs, allocatorAfter] at hb
      split at hb
      · next hregion =>
        rcases List.mem_append.mp hb with hb | hb
        · exact .inl hb
        · exact .inr ⟨List.mem_singleton.mp hb, rfl, hregion⟩
      · exact .inl hb
    · rw [alloc_declared_ne x ty m ha] at hb
      exact .inl hb
  constructor
  · intro a b hb
    rw [size_bindings_declared]
    rcases hparams a b hb with hb | ⟨rfl, -⟩
    · exact (h.lt a b hb).trans (Nat.lt_succ_self _)
    · exact Nat.lt_succ_self _
  · intro i hi hregion p hp a hmem
    rw [size_scopes_declared] at hi
    have hregion' : (t.allocator i).region ≠ .params := by
      rwa [allocator_eq, hallocator, region_declared x ty m ht hs] at hregion
    have hold : p ∈ (t.scope i).symbols ∨ p.2 = t.bindings.size ∧ i = s := by
      by_cases his : i = s
      · subst his
        rw [scope_declared_self x ty m hs] at hp
        rcases List.mem_cons.mp hp with rfl | hp
        · exact .inr ⟨rfl, rfl⟩
        · exact .inl hp
      · rw [scope_declared_ne x ty m his] at hp
        exact .inl hp
    rcases hold with hold | ⟨hnew, rfl⟩ <;> rcases hparams a p.2 hmem with hb | ⟨hb, ha, hr⟩
    · exact h.apart i hi hregion' p hold a hb
    · exact absurd (ht.symbol_lt i hi p hold) (by omega)
    · exact absurd (h.lt a _ hb) (by omega)
    · exact hregion' hr

end SymbolTable

/-! ## Operations -/

namespace Session

open SymbolTable

/-- What holds of every session: each allocator has handed out the storage of the bindings in its open
scopes. -/
structure Ok (S : Session) : Prop where
  good : S.table.Good
  nodup : S.opened.Nodup
  opened_lt : ∀ s ∈ S.opened, s < S.table.scopes.size
  holds : ∀ a < S.table.allocators.size, (S.table.alloc a).Holds (S.blocks a)
  apart : S.table.ParamsApart

/-- What an operation does to the allocators. Peaks grow with what is in use. -/
structure Advances (S S' : Session) : Prop where
  ok : S'.Ok
  scopes_le : S.table.scopes.size ≤ S'.table.scopes.size
  allocator_eq : ∀ i < S.table.scopes.size, (S'.table.scope i).allocator = (S.table.scope i).allocator
  allocators_le : S.table.allocators.size ≤ S'.table.allocators.size
  peak : ∀ a < S.table.allocators.size,
    (S'.table.alloc a).peak = max (S.table.alloc a).peak (S'.table.alloc a).used
  peak_new : ∀ a < S'.table.allocators.size, S.table.allocators.size ≤ a →
    (S'.table.alloc a).peak = (S'.table.alloc a).used

variable {S : Session} {t : SymbolTable} {s a : Nat}

lemma Ok.refl (h : S.Ok) : S.Advances S where
  ok := h
  scopes_le := le_rfl
  allocator_eq _ _ := rfl
  allocators_le := le_rfl
  peak a ha := (max_eq_left (h.holds a ha).peak).symm
  peak_new a ha hle := absurd ha (by omega)

lemma mem_openAt {i : Nat} : i ∈ S.openAt a ↔ i ∈ S.opened ∧ (S.table.scope i).allocator = a := by
  simp [openAt]

lemma openAt_congr (hscopes : ∀ i ∈ S.opened, (t.scope i).allocator = (S.table.scope i).allocator) :
    (⟨t, S.opened⟩ : Session).openAt a = S.openAt a := by
  unfold openAt
  refine List.filter_congr fun i hi => ?_
  simp only [hscopes i hi]

lemma blocks_congr (hscopes : ∀ i ∈ S.opened, (t.scope i).allocator = (S.table.scope i).allocator)
    (hnamed : ∀ i ∈ S.openAt a, t.named i = S.table.named i) :
    (⟨t, S.opened⟩ : Session).blocks a = S.blocks a := by
  unfold blocks
  rw [openAt_congr hscopes]
  exact List.map_congr_left fun i hi => by rw [hnamed i hi]

lemma blocks_cons_of_eq {n : Nat} {opened : List Nat} (h : (t.scope n).allocator = a) :
    (⟨t, n :: opened⟩ : Session).blocks a = (t.named n).map (·.2) :: (⟨t, opened⟩ : Session).blocks a := by
  simp [blocks, openAt, h]

lemma blocks_cons_of_ne {n : Nat} {opened : List Nat} (h : (t.scope n).allocator ≠ a) :
    (⟨t, n :: opened⟩ : Session).blocks a = (⟨t, opened⟩ : Session).blocks a := by
  simp [blocks, openAt, h]

/-- An operation that changes one allocator and the blocks that it holds. -/
lemma Ok.change (h : S.Ok) {S' : Session} {a : Nat} (hgood : S'.table.Good) (hnodup : S'.opened.Nodup)
    (hlt : ∀ s ∈ S'.opened, s < S'.table.scopes.size)
    (hscopes : S.table.scopes.size ≤ S'.table.scopes.size)
    (hallocator : ∀ i < S.table.scopes.size, (S'.table.scope i).allocator = (S.table.scope i).allocator)
    (hsize : S'.table.allocators.size = S.table.allocators.size)
    (hother : ∀ b, b ≠ a → S'.table.alloc b = S.table.alloc b ∧ S'.blocks b = S.blocks b)
    (hholds : (S'.table.alloc a).Holds (S'.blocks a))
    (hpeak : (S'.table.alloc a).peak = max (S.table.alloc a).peak (S'.table.alloc a).used)
    (hapart : S'.table.ParamsApart) : S.Advances S' where
  ok :=
    { good := hgood
      nodup := hnodup
      opened_lt := hlt
      holds := fun b hb => by
        by_cases hba : b = a
        · rw [hba]
          exact hholds
        · rw [(hother b hba).1, (hother b hba).2]
          exact h.holds b (hsize ▸ hb)
      apart := hapart }
  scopes_le := hscopes
  allocator_eq := hallocator
  allocators_le := hsize.ge
  peak b hb := by
    by_cases hba : b = a
    · rw [hba, hpeak]
    · rw [(hother b hba).1]
      exact (max_eq_left (h.holds b hb).peak).symm
  peak_new b hb hle := absurd hb (by omega)

lemma Ok.enter (h : S.Ok) (hs : s < S.table.scopes.size) : S.Advances (S.step (.enter s)) := by
  have hself : ((S.table.entered s).scope S.table.scopes.size).allocator = (S.table.scope s).allocator := by
    rw [scope_entered_self]
    rfl
  have hblocks : ∀ a, (⟨S.table.entered s, S.opened⟩ : Session).blocks a = S.blocks a := by
    intro a
    refine blocks_congr (fun i hi => by rw [scope_entered_lt (h.opened_lt i hi)]) fun i hi => ?_
    have hlt := h.opened_lt i (mem_openAt.mp hi).1
    exact named_eq h.good hlt (scope_entered_lt hlt) fun b _ => rfl
  have hempty : (S.table.entered s).named S.table.scopes.size = [] := by
    unfold named
    rw [scope_entered_self]
    rfl
  have hfields : ∀ a, ((S.table.entered s).alloc a).params = (S.table.alloc a).params ∧
      ((S.table.entered s).alloc a).region = (S.table.alloc a).region := by
    intro a
    by_cases ha : a = (S.table.scope s).allocator
    · subst ha
      rw [alloc_entered_self h.good hs]
      exact ⟨rfl, rfl⟩
    · rw [alloc_entered_ne ha]
      exact ⟨rfl, rfl⟩
  have hstep : S.step (.enter s) = ⟨S.table.entered s, S.table.scopes.size :: S.opened⟩ := rfl
  have hallocator : ∀ i < S.table.scopes.size,
      ((S.table.entered s).scope i).allocator = (S.table.scope i).allocator :=
    fun i hi => by rw [scope_entered_lt hi]
  rw [hstep]
  refine h.change (a := (S.table.scope s).allocator) (good_entered h.good hs) ?_ ?_ (by simp) hallocator
    (by simp) ?_ ?_ ?_ ?_
  · exact List.nodup_cons.mpr ⟨fun hmem => absurd (h.opened_lt _ hmem) (lt_irrefl _), h.nodup⟩
  · simp only [size_scopes_entered]
    exact List.forall_mem_cons.mpr ⟨Nat.lt_succ_self _, fun i hi => (h.opened_lt i hi).trans (Nat.lt_succ_self _)⟩
  · intro b hb
    exact ⟨alloc_entered_ne hb, (blocks_cons_of_ne (hself ▸ Ne.symm hb)).trans (hblocks b)⟩
  · rw [blocks_cons_of_eq hself, hblocks, hempty, alloc_entered_self h.good hs]
    exact (h.holds _ (h.good.allocator_lt s hs)).save
  · rw [alloc_entered_self h.good hs]
    exact (max_eq_left (h.holds _ (h.good.allocator_lt s hs)).peak).symm
  · refine h.apart.keep le_rfl (fun a => (hfields a).1) fun i hi => ?_
    rcases Nat.lt_succ_iff_lt_or_eq.mp (size_scopes_entered (s := s) ▸ hi) with hi | rfl
    · refine .inr ⟨hi, by rw [scope_entered_lt hi], ?_⟩
      rw [SymbolTable.allocator_eq, (hfields _).2, hallocator i hi]
      rfl
    · left
      rw [scope_entered_self]
      rfl

/-- The innermost scope is the first block of its allocator. -/
lemma Innermost.exists_cons (h : S.Innermost s) : ∃ rest, S.openAt (S.table.scope s).allocator = s :: rest ∧
    s ∈ S.opened := by
  obtain ⟨rest, hrest⟩ := List.head?_eq_some_iff.mp h
  exact ⟨rest, hrest, (mem_openAt.mp (hrest ▸ List.mem_cons_self)).1⟩

lemma Ok.declare (h : S.Ok) (hs : S.Innermost s) (x : String) (ty : Ty) (m : Bool) :
    S.Advances (S.step (.declare s x ty m)) := by
  cases hlookup : S.table.lookupLocal s x with
  | some b =>
    have hstep : S.step (.declare s x ty m) = S := by
      simp [Session.step, SymbolTable.declare, hlookup]
    rw [hstep]
    exact h.refl
  | none =>
    obtain ⟨rest, hopen, hmem⟩ := hs.exists_cons
    have hlt := h.opened_lt s hmem
    have hstep : S.step (.declare s x ty m) = ⟨S.table.declared s x ty m, S.opened⟩ := by
      simp [Session.step, declare_eq hlookup]
    have hgrow := growsAt_declared x ty m h.good hlt
    have hallocator : ∀ i < S.table.scopes.size,
        ((S.table.declared s x ty m).scope i).allocator = (S.table.scope i).allocator := by
      intro i hi
      by_cases his : i = s
      · rw [his, hgrow.allocator_at]
      · rw [hgrow.scope_eq i hi his]
    have hnamed : ∀ i ∈ S.opened, i ≠ s → (S.table.declared s x ty m).named i = S.table.named i :=
      fun i hi his => named_eq h.good (h.opened_lt i hi) (scope_declared_ne x ty m his) hgrow.binding_eq
    have hrest : ∀ i ∈ rest, i ≠ s := by
      have hnodup : (s :: rest).Nodup := hopen ▸ h.nodup.filter _
      rintro i hi rfl
      exact (List.nodup_cons.mp hnodup).1 hi
    have hblocks : (⟨S.table.declared s x ty m, S.opened⟩ : Session).blocks (S.table.scope s).allocator =
        ((S.table.ctx s).binding x ty m :: (S.table.named s).map (·.2)) ::
          rest.map fun i => (S.table.named i).map (·.2) := by
      unfold blocks
      rw [openAt_congr fun i hi => hallocator i (h.opened_lt i hi), hopen, List.map_cons,
        named_declared_self x ty m h.good hlt]
      refine congrArg₂ List.cons rfl (List.map_congr_left fun i hi => ?_)
      have hi' : i ∈ S.opened := (mem_openAt.mp (hopen ▸ List.mem_cons_of_mem s hi)).1
      rw [hnamed i hi' (hrest i hi)]
    rw [hstep]
    obtain ⟨hregion, hsaved, hused, hpeak⟩ := allocatorAfter_spec (t := S.table) (s := s) ty
    refine h.change (a := (S.table.scope s).allocator) (good_declared x ty m h.good hlt) h.nodup ?_ (by simp)
      hallocator (by simp) ?_ ?_ ?_ (h.apart.declared h.good hlt x ty m)
    · simpa using h.opened_lt
    · intro b hb
      refine ⟨alloc_declared_ne x ty m hb, blocks_congr (fun i hi => hallocator i (h.opened_lt i hi)) ?_⟩
      intro i hi
      obtain ⟨hi, hib⟩ := mem_openAt.mp hi
      refine hnamed i hi ?_
      rintro rfl
      exact hb hib.symm
    · rw [hblocks, alloc_declared_self x ty m h.good hlt]
      have hholds := h.holds _ (h.good.allocator_lt s hlt)
      unfold blocks at hholds
      rw [hopen] at hholds
      exact hholds.take rfl hregion hsaved hused hpeak
    · rw [alloc_declared_self x ty m h.good hlt, hpeak, hused]
      rfl

lemma Ok.leave (h : S.Ok) (hs : S.Innermost s) : S.Advances (S.step (.leave s)) := by
  cases hrestore : (S.table.allocator s).restore? with
  | none =>
    have hstep : S.step (.leave s) = S := by
      simp [Session.step, SymbolTable.leave, hrestore]
    rw [hstep]
    exact h.refl
  | some x =>
    obtain ⟨rest, hopen, hmem⟩ := hs.exists_cons
    have hlt := h.opened_lt s hmem
    have hstep : S.step (.leave s) = ⟨S.table.setAllocator s x, S.opened.filter (· != s)⟩ := by
      simp [Session.step, SymbolTable.leave, hrestore]
    have hself : (S.table.setAllocator s x).alloc (S.table.scope s).allocator = x := by
      rw [alloc_setAllocator, if_pos ⟨rfl, h.good.allocator_lt s hlt⟩]
    have hne : ∀ b, b ≠ (S.table.scope s).allocator →
        (S.table.setAllocator s x).alloc b = S.table.alloc b := by
      intro b hb
      rw [alloc_setAllocator, if_neg fun hand => hb hand.1]
    obtain ⟨hregion, hpeak, hparams⟩ := Allocator.restore?_fields hrestore
    have hfields : ∀ b, ((S.table.setAllocator s x).alloc b).params = (S.table.alloc b).params ∧
        ((S.table.setAllocator s x).alloc b).region = (S.table.alloc b).region := by
      intro b
      by_cases hb : b = (S.table.scope s).allocator
      · rw [hb, hself]
        exact ⟨hparams, hregion⟩
      · rw [hne b hb]
        exact ⟨rfl, rfl⟩
    have hopenAt : ∀ b, (⟨S.table.setAllocator s x, S.opened.filter (· != s)⟩ : Session).openAt b =
        (S.openAt b).filter (· != s) := by
      intro b
      unfold openAt
      rw [List.filter_filter, List.filter_filter]
      refine List.filter_congr fun i _ => Bool.and_comm _ _
    have hnodup : (s :: rest).Nodup := hopen ▸ h.nodup.filter _
    have hleft : x.Holds (rest.map fun i => (S.table.named i).map (·.2)) := by
      have hholds := h.holds _ (h.good.allocator_lt s hlt)
      unfold blocks at hholds
      rw [hopen] at hholds
      exact hholds.restore hrestore
    rw [hstep]
    refine h.change (a := (S.table.scope s).allocator) (good_setAllocator h.good s x) (h.nodup.filter _) ?_
      le_rfl (fun i _ => rfl) (by simp [setAllocator]) ?_ ?_ ?_ ?_
    · exact fun i hi => h.opened_lt i (List.mem_of_mem_filter hi)
    · intro b hb
      refine ⟨hne b hb, ?_⟩
      have hkeep : (S.openAt b).filter (· != s) = S.openAt b := by
        refine List.filter_eq_self.mpr fun i hi => ?_
        have hib := (mem_openAt.mp hi).2
        simp only [bne_iff_ne]
        rintro rfl
        exact hb hib.symm
      unfold blocks
      rw [hopenAt, hkeep]
      rfl
    · have hdrop : (s :: rest).filter (· != s) = rest := by
        rw [List.filter_cons_of_neg (by simp)]
        refine List.filter_eq_self.mpr fun i hi => ?_
        simp only [bne_iff_ne]
        rintro rfl
        exact (List.nodup_cons.mp hnodup).1 hi
      rw [blocks, hopenAt, hopen, hdrop, hself]
      exact hleft
    · have hle : x.used ≤ (S.table.allocator s).peak := hpeak ▸ hleft.peak
      rw [hself, hpeak]
      exact (max_eq_left hle).symm
    · refine h.apart.keep le_rfl (fun b => (hfields b).1) fun i hi => .inr ⟨hi, rfl, (hfields _).2⟩

lemma Ok.opening (h : S.Ok) (hs : s < S.table.scopes.size) {x : Scope} {r : Region} {a : Allocator}
    {frames : Nat} (hallocator : x.allocator = S.table.allocators.size)
    (houter : x.outer = s :: (S.table.scope s).outer) (hsymbols : x.symbols = []) (hframe : x.frame < frames)
    (hframes : S.table.frames ≤ frames) (hregion : a.region = r) (hsaved : a.saved = [])
    (hused : a.used = r.reserved) (hpeak : a.peak = r.reserved) (hparams : a.params = []) :
    S.Advances ⟨S.table.opening x a frames, S.table.scopes.size :: S.opened⟩ := by
  have hscopes : (S.table.opening x a frames).scopes.size = S.table.scopes.size + 1 := by
    simp [SymbolTable.opening]
  have hallocators : (S.table.opening x a frames).allocators.size = S.table.allocators.size + 1 := by
    simp [SymbolTable.opening]
  have hblocks : ∀ b, (⟨S.table.opening x a frames, S.opened⟩ : Session).blocks b = S.blocks b := by
    intro b
    refine blocks_congr (fun i hi => by rw [scope_opening_lt (h.opened_lt i hi)]) fun i hi => ?_
    have hlt := h.opened_lt i (mem_openAt.mp hi).1
    exact named_eq h.good hlt (scope_opening_lt hlt) fun b _ => rfl
  have hself : ((S.table.opening x a frames).scope S.table.scopes.size).allocator = S.table.allocators.size := by
    rw [scope_opening_self, hallocator]
  have hempty : S.blocks S.table.allocators.size = [] := by
    have hnone : S.openAt S.table.allocators.size = [] := by
      refine List.filter_eq_nil_iff.mpr fun i hi => ?_
      have hlt := h.good.allocator_lt i (h.opened_lt i hi)
      simpa using hlt.ne
    rw [blocks, hnone, List.map_nil]
  have hcases : ∀ b < S.table.allocators.size + 1, b < S.table.allocators.size ∨ b = S.table.allocators.size :=
    fun b hb => Nat.lt_succ_iff_lt_or_eq.mp hb
  exact {
    ok :=
      { good := good_opening h.good hs hallocator houter hsymbols hframe hframes
        nodup := List.nodup_cons.mpr ⟨fun hmem => absurd (h.opened_lt _ hmem) (lt_irrefl _), h.nodup⟩
        opened_lt := by
          simp only [hscopes]
          exact List.forall_mem_cons.mpr
            ⟨Nat.lt_succ_self _, fun i hi => (h.opened_lt i hi).trans (Nat.lt_succ_self _)⟩
        holds := by
          intro b hb
          rcases hcases b (hallocators ▸ hb) with hb | rfl
          · rw [blocks_cons_of_ne (hself ▸ hb.ne'), hblocks, alloc_opening_lt hb]
            exact h.holds b hb
          · rw [blocks_cons_of_eq hself, hblocks, hempty, alloc_opening_self, named, scope_opening_self,
              hsymbols]
            exact Allocator.holds_new hregion hsaved hused hpeak
        apart := by
          refine h.apart.keep le_rfl (fun b => ?_) fun i hi => ?_
          · rw [alloc_opening]
            split
            · next hb =>
              rw [hb, hparams, alloc_of_le le_rfl]
              rfl
            · rfl
          · rcases Nat.lt_succ_iff_lt_or_eq.mp (hscopes ▸ hi) with hi | rfl
            · refine .inr ⟨hi, by rw [scope_opening_lt hi], ?_⟩
              rw [SymbolTable.allocator_eq, scope_opening_lt hi, alloc_opening_lt (h.good.allocator_lt i hi)]
              rfl
            · left
              rw [scope_opening_self, hsymbols] }
    scopes_le := hscopes.ge.trans' (Nat.le_succ _)
    allocator_eq := fun i hi => by rw [scope_opening_lt hi]
    allocators_le := hallocators.ge.trans' (Nat.le_succ _)
    peak := fun b hb => by
      rw [alloc_opening_lt hb]
      exact (max_eq_left (h.holds b hb).peak).symm
    peak_new := fun b hb hle => by
      obtain rfl : b = S.table.allocators.size := by
        rcases hcases b (hallocators ▸ hb) with hb | rfl
        · omega
        · rfl
      rw [alloc_opening_self, hused, hpeak] }

lemma Ok.closeParams (h : S.Ok) (s : Nat) : S.Advances (S.step (.closeParams s)) := by
  by_cases hregion : (S.table.allocator s).region = .params
  · set bindings := placeParams S.table.bindings (S.table.allocator s).used (S.table.allocator s).params
      with hbindings
    have hstep : S.step (.closeParams s) = ⟨{ S.table with bindings }, S.opened⟩ := by
      simp [Session.step, SymbolTable.closeParams, hregion, hbindings]
    rw [hstep]
    have hsize : bindings.size = S.table.bindings.size := size_placeParams _ _ _
    have hblocks : ∀ a < S.table.allocators.size,
        (S.table.alloc a).Holds ((⟨{ S.table with bindings }, S.opened⟩ : Session).blocks a) := by
      intro a ha
      by_cases hparams : (S.table.alloc a).region = .params
      · refine (h.holds a ha).congr hparams ?_
        unfold blocks named
        simp only [List.map_map]
        refine List.map_congr_left fun i hi => ?_
        simp only [Function.comp_apply, List.map_map]
        refine List.map_congr_left fun p hp => ?_
        exact congrArg Ty.size (getD_placeParams Binding.ty (fun _ _ => rfl) p.2 _ _ _)
      · have hkeep : (⟨{ S.table with bindings }, S.opened⟩ : Session).blocks a = S.blocks a := by
          refine blocks_congr (fun _ _ => rfl) fun i hi => ?_
          obtain ⟨hopen, rfl⟩ := mem_openAt.mp hi
          refine List.map_congr_left fun p hp => congrArg (p.1, ·) ?_
          exact placeParams_of_not_mem _ _ (h.apart.apart i (h.opened_lt i hopen) hparams p hp _)
        rw [hkeep]
        exact h.holds a ha
    exact {
      ok :=
        { good := good_placed h.good _ _
          nodup := h.nodup
          opened_lt := h.opened_lt
          holds := hblocks
          apart := h.apart.keep hsize.ge (fun _ => rfl) fun i hi => .inr ⟨hi, rfl, rfl⟩ }
      scopes_le := le_rfl
      allocator_eq := fun _ _ => rfl
      allocators_le := le_rfl
      peak := fun a ha => (max_eq_left (h.holds a ha).peak).symm
      peak_new := fun a ha hle => absurd ha (not_lt.mpr hle) }
  · have hstep : S.step (.closeParams s) = S := by
      simp [Session.step, SymbolTable.closeParams, hregion]
    rw [hstep]
    exact h.refl

lemma Ok.step (h : S.Ok) {op : ScopeOp} (hop : S.Allows op) : S.Advances (S.step op) := by
  cases op with
  | enter s => exact h.enter hop
  | declare s x ty m => exact h.declare hop x ty m
  | leave s => exact h.leave hop
  | openParams s => exact h.opening hop rfl rfl rfl (Nat.lt_succ_self _) (Nat.le_succ _) rfl rfl rfl rfl rfl
  | closeParams s => exact h.closeParams s
  | openBody s =>
    exact h.opening hop rfl rfl rfl (h.good.scope_frame_lt s hop) le_rfl (r := .locals) rfl rfl rfl rfl rfl

/-! ## Runs -/

lemma ok_start : start.Ok where
  good := good_program
  nodup := List.nodup_singleton 0
  opened_lt := by simp [start, program]
  holds a ha := by
    obtain rfl : a = 0 := by simpa [start, program] using ha
    exact Allocator.holds_new rfl rfl rfl rfl
  apart := paramsApart_program

lemma run_append (ops ops' : List ScopeOp) : S.run (ops ++ ops') = (S.run ops).run ops' := by
  simp [run]

lemma run_concat (ops : List ScopeOp) (op : ScopeOp) : S.run (ops ++ [op]) = (S.run ops).step op := by
  simp [run]

lemma follows_append {ops ops' : List ScopeOp} :
    S.Follows (ops ++ ops') ↔ S.Follows ops ∧ (S.run ops).Follows ops' := by
  induction ops generalizing S with
  | nil => simp [Follows, run]
  | cons op ops ih =>
    rw [List.cons_append, Follows, ih, Follows, and_assoc]
    rfl

lemma follows_concat {ops : List ScopeOp} {op : ScopeOp} :
    S.Follows (ops ++ [op]) ↔ S.Follows ops ∧ (S.run ops).Allows op := by
  rw [follows_append, Follows, Follows, and_true]

lemma Ok.run (h : S.Ok) {ops : List ScopeOp} (hops : S.Follows ops) : (S.run ops).Ok := by
  induction ops using List.reverseRecOn with
  | nil => exact h
  | append_singleton ops op ih =>
    obtain ⟨hops, hop⟩ := follows_concat.mp hops
    rw [run_concat]
    exact ((ih hops).step hop).ok

lemma Ok.inUse_eq (h : S.Ok) {a : Nat} (ha : a < S.table.allocators.size) :
    S.inUse a = (S.table.alloc a).used :=
  (h.holds a ha).used.symm

/-- Scopes and allocators stay, and scopes keep their allocators. -/
lemma Ok.run_keeps (h : S.Ok) {ops : List ScopeOp} (hops : S.Follows ops) :
    S.table.allocators.size ≤ (S.run ops).table.allocators.size ∧
      ∀ i < S.table.scopes.size, i < (S.run ops).table.scopes.size ∧
        ((S.run ops).table.scope i).allocator = (S.table.scope i).allocator := by
  induction ops using List.reverseRecOn with
  | nil => exact ⟨le_rfl, fun i hi => ⟨hi, rfl⟩⟩
  | append_singleton ops op ih =>
    obtain ⟨hops, hop⟩ := follows_concat.mp hops
    obtain ⟨hallocators, hscopes⟩ := ih hops
    have hstep := (h.run hops).step hop
    rw [run_concat]
    refine ⟨hallocators.trans hstep.allocators_le, fun i hi => ?_⟩
    obtain ⟨hlt, hsame⟩ := hscopes i hi
    exact ⟨hlt.trans_le hstep.scopes_le, (hstep.allocator_eq i hlt).trans hsame⟩

/-- The numbers of bytes of an allocator that were in use at some time. -/
def everInUse (ops : List ScopeOp) (a : Nat) : Set Nat :=
  {n | ∃ front, front <+: ops ∧ a < (start.run front).table.allocators.size ∧ (start.run front).inUse a = n}

lemma everInUse_concat {ops : List ScopeOp} {op : ScopeOp} {a : Nat}
    (ha : a < (start.run (ops ++ [op])).table.allocators.size) :
    everInUse (ops ++ [op]) a = everInUse ops a ∪ {(start.run (ops ++ [op])).inUse a} := by
  ext n
  constructor
  · rintro ⟨front, hfront, hlt, rfl⟩
    rcases List.prefix_concat_iff.mp hfront with rfl | hfront
    · exact .inr rfl
    · exact .inl ⟨front, hfront, hlt, rfl⟩
  · rintro (⟨front, hfront, hlt, rfl⟩ | rfl)
    · exact ⟨front, hfront.trans (List.prefix_append _ _), hlt, rfl⟩
    · exact ⟨_, List.prefix_rfl, ha, rfl⟩

/-- The peak of an allocator is the greatest number of bytes that were ever in use. -/
lemma isGreatest_peak {ops : List ScopeOp} (hops : start.Follows ops) {a : Nat}
    (ha : a < (start.run ops).table.allocators.size) :
    IsGreatest (everInUse ops a) ((start.run ops).table.alloc a).peak := by
  induction ops using List.reverseRecOn with
  | nil =>
    obtain rfl : a = 0 := by simpa [start, run, program] using ha
    refine ⟨⟨[], List.prefix_rfl, ha, rfl⟩, ?_⟩
    rintro n ⟨front, hfront, -, rfl⟩
    rw [List.prefix_nil.mp hfront]
    exact le_rfl
  | append_singleton ops op ih =>
    obtain ⟨hops', hop⟩ := follows_concat.mp hops
    have hstep := (ok_start.run hops').step hop
    rw [everInUse_concat ha, (ok_start.run hops).inUse_eq ha]
    rw [run_concat] at ha ⊢
    by_cases hold : a < (start.run ops).table.allocators.size
    · rw [hstep.peak a hold]
      exact (ih hops' hold).union isGreatest_singleton
    · -- the allocator is new, so no bytes of it were in use before
      have hnone : everInUse ops a = ∅ := by
        refine Set.eq_empty_of_forall_notMem ?_
        rintro n ⟨front, ⟨back, rfl⟩, hlt, -⟩
        obtain ⟨hfront, hback⟩ := follows_append.mp hops'
        have hle := ((ok_start.run hfront).run_keeps hback).1
        rw [run_append] at hold
        omega
      rw [hnone, Set.empty_union, hstep.peak_new a ha (not_lt.mp hold)]
      exact isGreatest_singleton

/-- Peaks never get less. -/
lemma peak_le_append {front back : List ScopeOp} (hops : start.Follows (front ++ back)) {a : Nat}
    (ha : a < (start.run front).table.allocators.size) :
    ((start.run front).table.alloc a).peak ≤ ((start.run (front ++ back)).table.alloc a).peak := by
  obtain ⟨hfront, hback⟩ := follows_append.mp hops
  have hle := ((ok_start.run hfront).run_keeps hback).1
  rw [← run_append] at hle
  obtain ⟨early, hearly, hlt, hused⟩ := (isGreatest_peak hfront ha).1
  rw [← hused]
  exact (isGreatest_peak hops (ha.trans_le hle)).2
    ⟨early, hearly.trans (List.prefix_append _ _), hlt, rfl⟩

end Session

/-- **Live bindings never overlap.** Names are declared in innermost scopes only, and only these are left. Then,
at any time, the bindings in the open scopes that share an allocator lie in different bytes. These are bytes
of the storage that is reserved for the scopes, in frames behind the eight that are taken. What is reserved
is the greatest number of bytes that were ever in use, and it never gets less. -/
theorem live_bindings_disjoint (ops : List ScopeOp) (h : Session.start.Follows ops) (s : Nat)
    (hs : s < (Session.start.run ops).table.scopes.size)
    (hregion : ((Session.start.run ops).table.allocator s).region ≠ .params) :
    let S := Session.start.run ops
    let a := (S.table.scope s).allocator
    (S.live a).Pairwise (fun b c => Disjoint b.bytes c.bytes) ∧
      ((S.table.allocator s).region = .globals →
        ∀ b ∈ S.live a, b.bytes ⊆ Set.Ico 0 (S.table.allocatedSize s : Int)) ∧
      ((S.table.allocator s).region = .locals →
        ∀ b ∈ S.live a, b.bytes ⊆ Set.Ico (-(S.table.allocatedSize s : Int)) (-8)) ∧
      IsGreatest (Session.everInUse ops a) (S.table.allocatedSize s) ∧
      ∀ front, front <+: ops → s < (Session.start.run front).table.scopes.size →
        (Session.start.run front).table.allocatedSize s ≤ S.table.allocatedSize s := by
  intro S a
  have hok := Session.ok_start.run h
  have ha := hok.good.allocator_lt s hs
  have hholds := hok.holds a ha
  have hsubset : ∀ b ∈ S.live a, b.bytes ⊆
      (S.table.allocator s).region.bytes (S.table.allocator s).region.reserved (S.table.allocatedSize s) := by
    intro b hb
    refine ((hholds.packed hregion).subset b hb).trans (Region.bytes_subset _ le_rfl ?_)
    rw [← hholds.used]
    exact hholds.peak
  refine ⟨(hholds.packed hregion).pairwise, ?_, ?_, Session.isGreatest_peak h ha, ?_⟩
  · intro hr b hb
    simpa [hr, Region.bytes, Region.reserved] using hsubset b hb
  · intro hr b hb
    simpa [hr, Region.bytes, Region.reserved, savedBytes] using hsubset b hb
  · rintro front ⟨back, rfl⟩ hfront
    obtain ⟨hfollows, hback⟩ := Session.follows_append.mp h
    have hfrontOk := Session.ok_start.run hfollows
    have hsame := ((hfrontOk.run_keeps hback).2 s hfront).2
    rw [← Session.run_append] at hsame
    have hpeak := Session.peak_le_append h (hfrontOk.good.allocator_lt s hfront)
    rw [← hsame] at hpeak
    unfold SymbolTable.allocatedSize
    rw [SymbolTable.allocator_eq, ← hsame]
    exact hpeak

/-- A program with a block that was left and one that is open, and in it a subroutine with another two. -/
def blocksAndBody : List ScopeOp :=
  [.declare 0 "g" .integer true, .enter 0, .declare 1 "x" .float true, .leave 1, .enter 0,
    .declare 2 "x" .character true, .declare 2 "x" .integer true, .openParams 2,
    .declare 3 "p" .integer true, .closeParams 3, .openBody 3, .declare 4 "a" .integer true, .enter 4,
    .declare 5 "b" .float true, .leave 5, .enter 4, .declare 6 "c" .integer false]

theorem live_bindings_disjoint_blocksAndBody : Session.start.Follows blocksAndBody ∧
    ((Session.start.run blocksAndBody).live 2).map (fun b => (b.name, b.offset)) =
      [("c", -16), ("a", -12)] ∧
    ((Session.start.run blocksAndBody).live 2).Pairwise (fun b c => Disjoint b.bytes c.bytes) ∧
    (∀ b ∈ (Session.start.run blocksAndBody).live 2, b.bytes ⊆ Set.Ico (-20) (-8)) ∧
    IsGreatest (Session.everInUse blocksAndBody 2) 20 := by
  have hfollows : Session.start.Follows blocksAndBody := by decide +kernel
  obtain ⟨hdisjoint, -, hinside, hgreatest, -⟩ := live_bindings_disjoint blocksAndBody hfollows 6
    (by decide +kernel) (by decide +kernel)
  have hallocator : ((Session.start.run blocksAndBody).table.scope 6).allocator = 2 := by decide +kernel
  have hsize : (Session.start.run blocksAndBody).table.allocatedSize 6 = 20 := by decide +kernel
  rw [hallocator] at hdisjoint hinside hgreatest
  rw [hsize] at hinside hgreatest
  exact ⟨hfollows, by decide +kernel, hdisjoint, hinside (by decide +kernel), hgreatest⟩

end SubrLang
