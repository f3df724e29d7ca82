import SubrLang.Proofs.Elaboration

/-!
# Symbol tables and contexts

A symbol table keeps scopes, allocators and bindings under numbers. `SymbolTable.ctx` reads off the context
that checking has in a scope, and the operations on tables are those on contexts: looking up a name,
declaring one, opening and closing a block, and opening a subroutine.

* **What stays.** `SymbolTable.Extends` says that a table has everything another has, unchanged. Checking an
  expression extends the table; so the context stays as it is (`SymbolTable.Extends.ctx_eq`).
* **What changes.** A statement may change the open scope and its allocator and nothing else, which is
  `SymbolTable.GrowsAt`. A block undoes its own changes up to the peak (`SymbolTable.leave_spec`).
-/

namespace SubrLang

namespace SymbolTable

/-- The allocator with a number. -/
def alloc (t : SymbolTable) (a : Nat) : Allocator := t.allocators.getD a default

/-- The names of a scope with their bindings. -/
def named (t : SymbolTable) (s : Nat) : List (String × Binding) :=
  (t.scope s).symbols.map fun p => (p.1, t.binding p.2)

/-- The context that checking has in a scope. -/
def ctx (t : SymbolTable) (s : Nat) : Ctx where
  scopes := (s :: (t.scope s).outer).map t.named
  region := (t.allocator s).region
  used := (t.allocator s).used
  peak := (t.allocator s).peak
  frame := (t.scope s).frame

lemma allocator_eq (t : SymbolTable) (s : Nat) : t.allocator s = t.alloc (t.scope s).allocator := rfl

/-- Whether all numbers in a scope refer to something in a table, those of scopes to ones before `i`. -/
structure Fits (t : SymbolTable) (i : Nat) (x : Scope) : Prop where
  allocator_lt : x.allocator < t.allocators.size
  outer_lt : ∀ j ∈ x.outer, j < i
  symbol_lt : ∀ p ∈ x.symbols, p.2 < t.bindings.size
  frame_lt : x.frame < t.frames

/-- Whether all numbers in a table refer to something in it. -/
structure Good (t : SymbolTable) : Prop where
  fits : ∀ i < t.scopes.size, t.Fits i (t.scope i)
  binding_frame_lt : ∀ b < t.bindings.size, (t.binding b).frame < t.frames

namespace Good

variable {t t' : SymbolTable} {s : Nat} (ht : t.Good)
include ht

lemma allocator_lt (i : Nat) (hi : i < t.scopes.size) : (t.scope i).allocator < t.allocators.size :=
  (ht.fits i hi).allocator_lt

lemma symbol_lt (i : Nat) (hi : i < t.scopes.size) : ∀ p ∈ (t.scope i).symbols, p.2 < t.bindings.size :=
  (ht.fits i hi).symbol_lt

lemma scope_frame_lt (i : Nat) (hi : i < t.scopes.size) : (t.scope i).frame < t.frames :=
  (ht.fits i hi).frame_lt

/-- The scopes that are visible in a scope are in the table. -/
lemma visible_lt (hs : s < t.scopes.size) : ∀ i ∈ s :: (t.scope s).outer, i < t.scopes.size :=
  List.forall_mem_cons.mpr ⟨hs, fun i hi => ((ht.fits s hs).outer_lt i hi).trans hs⟩

/-- A scope more. -/
lemma push {x : Scope} (hscopes : t'.scopes = t.scopes.push x) (hbindings : t'.bindings = t.bindings)
    (hallocators : t.allocators.size ≤ t'.allocators.size) (hframes : t.frames ≤ t'.frames)
    (hx : t'.Fits t.scopes.size x) : t'.Good where
  fits i hi := by
    rw [hscopes, Array.size_push] at hi
    rcases Nat.lt_succ_iff_lt_or_eq.mp hi with hi | rfl
    · have hold : t'.scope i = t.scope i := by simp [scope, hscopes, Array.getElem?_push_lt hi, hi]
      obtain ⟨hallocator, houter, hsymbol, hframe⟩ := ht.fits i hi
      rw [hold]
      exact ⟨hallocator.trans_le hallocators, houter, hbindings ▸ hsymbol, hframe.trans_le hframes⟩
    · have hnew : t'.scope t.scopes.size = x := by simp [scope, hscopes]
      rwa [hnew]
  binding_frame_lt b hb := by
    rw [binding, hbindings]
    exact (ht.binding_frame_lt b (hbindings ▸ hb)).trans_le hframes

end Good

lemma good_program : program.Good where
  fits i hi := by
    obtain rfl : i = 0 := by simpa [program] using hi
    constructor <;> simp [program, scope]
  binding_frame_lt b hb := by simp [program] at hb

/-! ## Looking up -/

lemma lookup_named (t : SymbolTable) (s : Nat) (x : String) :
    (t.named s).lookup x = (t.lookupLocal s x).map t.binding := by
  unfold named lookupLocal
  induction (t.scope s).symbols with
  | nil => rfl
  | cons p ps ih =>
    obtain ⟨y, b⟩ := p
    simp only [List.map_cons, List.lookup_cons]
    cases x == y with
    | false => exact ih
    | true => rfl

lemma find?_ctx (t : SymbolTable) (s : Nat) (x : String) :
    (t.ctx s).find? x = (t.lookup s x).map t.binding := by
  unfold Ctx.find? lookup ctx
  induction s :: (t.scope s).outer with
  | nil => rfl
  | cons i is ih =>
    simp only [List.map_cons, List.findSome?_cons, lookup_named]
    cases t.lookupLocal i x with
    | none => exact ih
    | some b => rfl

lemma local?_ctx (t : SymbolTable) (s : Nat) (x : String) :
    (t.ctx s).local? x = (t.lookupLocal s x).map t.binding :=
  lookup_named t s x

/-! ## What stays -/

/-- Everything in a table is in another one too. -/
structure Extends (t t' : SymbolTable) : Prop where
  scopes_le : t.scopes.size ≤ t'.scopes.size
  scope_eq : ∀ i < t.scopes.size, t'.scope i = t.scope i
  allocators_le : t.allocators.size ≤ t'.allocators.size
  alloc_eq : ∀ a < t.allocators.size, t'.alloc a = t.alloc a
  bindings_le : t.bindings.size ≤ t'.bindings.size
  binding_eq : ∀ b < t.bindings.size, t'.binding b = t.binding b
  frames_le : t.frames ≤ t'.frames

/-- Everything in a table is in another one too, but for the names of a scope and the bytes that its
allocator has handed out. -/
structure GrowsAt (s : Nat) (t t' : SymbolTable) : Prop where
  scopes_le : t.scopes.size ≤ t'.scopes.size
  scope_eq : ∀ i < t.scopes.size, i ≠ s → t'.scope i = t.scope i
  outer_at : (t'.scope s).outer = (t.scope s).outer
  allocator_at : (t'.scope s).allocator = (t.scope s).allocator
  frame_at : (t'.scope s).frame = (t.scope s).frame
  allocators_le : t.allocators.size ≤ t'.allocators.size
  alloc_eq : ∀ a < t.allocators.size, a ≠ (t.scope s).allocator → t'.alloc a = t.alloc a
  region_at : (t'.allocator s).region = (t.allocator s).region
  saved_at : (t'.allocator s).saved = (t.allocator s).saved
  bindings_le : t.bindings.size ≤ t'.bindings.size
  binding_eq : ∀ b < t.bindings.size, t'.binding b = t.binding b
  frames_le : t.frames ≤ t'.frames

variable {t t' t'' : SymbolTable} {s : Nat}

lemma Extends.refl (t : SymbolTable) : t.Extends t :=
  ⟨le_rfl, fun _ _ => rfl, le_rfl, fun _ _ => rfl, le_rfl, fun _ _ => rfl, le_rfl⟩

lemma Extends.trans (h : t.Extends t') (h' : t'.Extends t'') : t.Extends t'' where
  scopes_le := h.scopes_le.trans h'.scopes_le
  scope_eq i hi := (h'.scope_eq i (hi.trans_le h.scopes_le)).trans (h.scope_eq i hi)
  allocators_le := h.allocators_le.trans h'.allocators_le
  alloc_eq a ha := (h'.alloc_eq a (ha.trans_le h.allocators_le)).trans (h.alloc_eq a ha)
  bindings_le := h.bindings_le.trans h'.bindings_le
  binding_eq b hb := (h'.binding_eq b (hb.trans_le h.bindings_le)).trans (h.binding_eq b hb)
  frames_le := h.frames_le.trans h'.frames_le

lemma Extends.growsAt (h : t.Extends t') (ht : t.Good) (hs : s < t.scopes.size) : t.GrowsAt s t' where
  scopes_le := h.scopes_le
  scope_eq i hi _ := h.scope_eq i hi
  outer_at := by rw [h.scope_eq s hs]
  allocator_at := by rw [h.scope_eq s hs]
  frame_at := by rw [h.scope_eq s hs]
  allocators_le := h.allocators_le
  alloc_eq a ha _ := h.alloc_eq a ha
  region_at := by
    rw [allocator_eq, allocator_eq, h.scope_eq s hs, h.alloc_eq _ (ht.allocator_lt s hs)]
  saved_at := by
    rw [allocator_eq, allocator_eq, h.scope_eq s hs, h.alloc_eq _ (ht.allocator_lt s hs)]
  bindings_le := h.bindings_le
  binding_eq := h.binding_eq
  frames_le := h.frames_le

lemma GrowsAt.trans (h : t.GrowsAt s t') (h' : t'.GrowsAt s t'') : t.GrowsAt s t'' where
  scopes_le := h.scopes_le.trans h'.scopes_le
  scope_eq i hi hne := (h'.scope_eq i (hi.trans_le h.scopes_le) hne).trans (h.scope_eq i hi hne)
  outer_at := h'.outer_at.trans h.outer_at
  allocator_at := h'.allocator_at.trans h.allocator_at
  frame_at := h'.frame_at.trans h.frame_at
  allocators_le := h.allocators_le.trans h'.allocators_le
  alloc_eq a ha hne := by
    rw [h'.alloc_eq a (ha.trans_le h.allocators_le) (by rwa [h.allocator_at]), h.alloc_eq a ha hne]
  region_at := h'.region_at.trans h.region_at
  saved_at := h'.saved_at.trans h.saved_at
  bindings_le := h.bindings_le.trans h'.bindings_le
  binding_eq b hb := (h'.binding_eq b (hb.trans_le h.bindings_le)).trans (h.binding_eq b hb)
  frames_le := h.frames_le.trans h'.frames_le

/-- A table that only a new scope has changed still has everything that was there before. -/
lemma Extends.trans_growsAt (h : t.Extends t') (h' : t'.GrowsAt s t'') (hs : t.scopes.size ≤ s)
    (ha : t.allocators.size ≤ (t'.scope s).allocator) : t.Extends t'' where
  scopes_le := h.scopes_le.trans h'.scopes_le
  scope_eq i hi := by
    rw [h'.scope_eq i (hi.trans_le h.scopes_le) (hi.trans_le hs).ne, h.scope_eq i hi]
  allocators_le := h.allocators_le.trans h'.allocators_le
  alloc_eq a hlt := by
    rw [h'.alloc_eq a (hlt.trans_le h.allocators_le) (hlt.trans_le ha).ne, h.alloc_eq a hlt]
  bindings_le := h.bindings_le.trans h'.bindings_le
  binding_eq b hb := (h'.binding_eq b (hb.trans_le h.bindings_le)).trans (h.binding_eq b hb)
  frames_le := h.frames_le.trans h'.frames_le

lemma named_eq (ht : t.Good) {i : Nat} (hi : i < t.scopes.size) (hscope : t'.scope i = t.scope i)
    (hb : ∀ b < t.bindings.size, t'.binding b = t.binding b) : t'.named i = t.named i := by
  unfold named
  rw [hscope]
  exact List.map_congr_left fun p hp => by rw [hb p.2 (ht.symbol_lt i hi p hp)]

/-- The context of a scope that was there before is the same afterwards. -/
lemma Extends.ctx_eq (h : t.Extends t') (ht : t.Good) (hs : s < t.scopes.size) :
    t'.ctx s = t.ctx s := by
  have hnamed : ∀ i ∈ s :: (t.scope s).outer, t'.named i = t.named i := fun i hi =>
    named_eq ht (ht.visible_lt hs i hi) (h.scope_eq i (ht.visible_lt hs i hi)) h.binding_eq
  unfold ctx
  rw [allocator_eq, allocator_eq, h.scope_eq s hs, h.alloc_eq _ (ht.allocator_lt s hs),
    List.map_congr_left hnamed]

/-! ## Declaring a name -/

lemma alloc_setAllocator (t : SymbolTable) (s : Nat) (x : Allocator) (a : Nat) :
    (t.setAllocator s x).alloc a =
      if a = (t.scope s).allocator ∧ a < t.allocators.size then x else t.alloc a := by
  by_cases h : a = (t.scope s).allocator
  · subst h
    by_cases hlt : (t.scope s).allocator < t.allocators.size <;> simp [alloc, setAllocator, hlt]
  · simp [alloc, setAllocator, h, Ne.symm h]

/-- The allocator of a scope after a declaration. -/
def allocatorAfter (t : SymbolTable) (s : Nat) (ty : Ty) : Allocator :=
  let a := (t.allocator s).take ty.size
  if a.region = .params then { a with params := a.params ++ [t.bindings.size] } else a

/-- The table after a declaration that is allowed. -/
def declared (t : SymbolTable) (s : Nat) (x : String) (ty : Ty) (m : Bool) : SymbolTable :=
  { t.setAllocator s (t.allocatorAfter s ty) with
    bindings := t.bindings.push ((t.ctx s).binding x ty m)
    scopes := t.scopes.set! s
      { t.scope s with symbols := (x, t.bindings.size) :: (t.scope s).symbols } }

lemma declare_eq {x : String} (hx : t.lookupLocal s x = none) (ty : Ty) (m : Bool) :
    t.declare s x ty m = .ok (t.declared s x ty m, t.bindings.size) := by
  simp only [declare, hx]
  rfl

section declared

variable (x : String) (ty : Ty) (m : Bool)

@[simp] lemma size_scopes_declared : (t.declared s x ty m).scopes.size = t.scopes.size := by
  simp [declared]

@[simp] lemma size_allocators_declared :
    (t.declared s x ty m).allocators.size = t.allocators.size := by
  simp [declared, setAllocator]

@[simp] lemma size_bindings_declared :
    (t.declared s x ty m).bindings.size = t.bindings.size + 1 := by
  simp [declared]

@[simp] lemma frames_declared : (t.declared s x ty m).frames = t.frames := rfl

lemma scope_declared_self (hs : s < t.scopes.size) : (t.declared s x ty m).scope s =
    { t.scope s with symbols := (x, t.bindings.size) :: (t.scope s).symbols } := by
  simp [declared, scope, hs]

lemma scope_declared_ne {i : Nat} (hi : i ≠ s) : (t.declared s x ty m).scope i = t.scope i := by
  simp [declared, scope, Ne.symm hi]

lemma alloc_declared_self (ht : t.Good) (hs : s < t.scopes.size) :
    (t.declared s x ty m).alloc (t.scope s).allocator = t.allocatorAfter s ty := by
  change (t.setAllocator s _).alloc _ = _
  rw [alloc_setAllocator, if_pos ⟨rfl, ht.allocator_lt s hs⟩]

lemma alloc_declared_ne {a : Nat} (ha : a ≠ (t.scope s).allocator) :
    (t.declared s x ty m).alloc a = t.alloc a := by
  change (t.setAllocator s _).alloc _ = _
  rw [alloc_setAllocator, if_neg fun h => ha h.1]

lemma binding_declared_self :
    (t.declared s x ty m).binding t.bindings.size = (t.ctx s).binding x ty m := by
  simp [declared, binding]

lemma binding_declared_lt {b : Nat} (hb : b < t.bindings.size) :
    (t.declared s x ty m).binding b = t.binding b := by
  simp [declared, binding, Array.getElem?_push_lt hb, hb]

lemma allocatorAfter_spec : (t.allocatorAfter s ty).region = (t.allocator s).region ∧
    (t.allocatorAfter s ty).saved = (t.allocator s).saved ∧
    (t.allocatorAfter s ty).used = (t.allocator s).used + ty.size ∧
    (t.allocatorAfter s ty).peak = max (t.allocator s).peak ((t.allocator s).used + ty.size) := by
  simp only [allocatorAfter]
  split <;> exact ⟨rfl, rfl, rfl, rfl⟩

/-- A declaration changes the open scope and its allocator. -/
lemma growsAt_declared (ht : t.Good) (hs : s < t.scopes.size) :
    t.GrowsAt s (t.declared s x ty m) where
  scopes_le := by simp
  scope_eq i _ hne := scope_declared_ne x ty m hne
  outer_at := by rw [scope_declared_self x ty m hs]
  allocator_at := by rw [scope_declared_self x ty m hs]
  frame_at := by rw [scope_declared_self x ty m hs]
  allocators_le := by simp
  alloc_eq a _ hne := alloc_declared_ne x ty m hne
  region_at := by
    rw [allocator_eq, scope_declared_self x ty m hs, alloc_declared_self x ty m ht hs]
    exact (allocatorAfter_spec ty).1
  saved_at := by
    rw [allocator_eq, scope_declared_self x ty m hs, alloc_declared_self x ty m ht hs]
    exact (allocatorAfter_spec ty).2.1
  bindings_le := by simp
  binding_eq b hb := binding_declared_lt x ty m hb
  frames_le := le_rfl

lemma good_declared (ht : t.Good) (hs : s < t.scopes.size) : (t.declared s x ty m).Good where
  fits i hi := by
    rw [size_scopes_declared] at hi
    obtain ⟨hallocator, houter, hsymbol, hframe⟩ := ht.fits i hi
    have hold : ∀ p ∈ (t.scope i).symbols, p.2 < (t.declared s x ty m).bindings.size := fun p hp => by
      simpa using (hsymbol p hp).trans (Nat.lt_succ_self _)
    by_cases h : i = s
    · subst h
      rw [scope_declared_self x ty m hs]
      exact ⟨by simpa using hallocator, houter, List.forall_mem_cons.mpr ⟨by simp, hold⟩, hframe⟩
    · rw [scope_declared_ne x ty m h]
      exact ⟨by simpa using hallocator, houter, hold, hframe⟩
  binding_frame_lt b hb := by
    rw [size_bindings_declared] at hb
    rcases Nat.lt_succ_iff_lt_or_eq.mp hb with hb | rfl
    · rw [binding_declared_lt x ty m hb]
      exact ht.binding_frame_lt b hb
    · rw [binding_declared_self]
      exact ht.scope_frame_lt s hs

lemma named_declared_self (ht : t.Good) (hs : s < t.scopes.size) :
    (t.declared s x ty m).named s = (x, (t.ctx s).binding x ty m) :: t.named s := by
  unfold named
  rw [scope_declared_self x ty m hs, List.map_cons, binding_declared_self]
  refine congrArg₂ List.cons rfl (List.map_congr_left fun p hp => ?_)
  rw [binding_declared_lt x ty m (ht.symbol_lt s hs p hp)]

/-- A declaration in a table is the one in its context. -/
lemma ctx_declared (ht : t.Good) (hs : s < t.scopes.size) :
    (t.declared s x ty m).ctx s = (t.ctx s).declare x ty m := by
  have houter : (t.scope s).outer.map (t.declared s x ty m).named = (t.scope s).outer.map t.named := by
    refine List.map_congr_left fun i hi => ?_
    have hlt := (ht.fits s hs).outer_lt i hi
    exact named_eq ht (hlt.trans hs) (scope_declared_ne x ty m hlt.ne)
      fun b hb => binding_declared_lt x ty m hb
  obtain ⟨hregion, -, hused, hpeak⟩ := allocatorAfter_spec (t := t) (s := s) ty
  unfold ctx Ctx.declare
  rw [allocator_eq, scope_declared_self x ty m hs, alloc_declared_self x ty m ht hs]
  simp only [List.map_cons, houter, named_declared_self x ty m ht hs, hregion, hused, hpeak, List.headD_cons,
    List.tail_cons]
  rfl

end declared

/-! ## Blocks -/

section block

/-- The scope of a new block. -/
def blockScope (t : SymbolTable) (s : Nat) : Scope :=
  { outer := s :: (t.scope s).outer, allocator := (t.scope s).allocator, frame := (t.scope s).frame }

/-- The table inside a new block. -/
def entered (t : SymbolTable) (s : Nat) : SymbolTable :=
  { t.setAllocator s (t.allocator s).save with scopes := t.scopes.push (t.blockScope s) }

lemma scope_entered_self : (t.entered s).scope t.scopes.size = t.blockScope s := by
  simp [entered, scope]

lemma scope_entered_lt {i : Nat} (hi : i < t.scopes.size) : (t.entered s).scope i = t.scope i := by
  simp [entered, scope, Array.getElem?_push_lt hi, hi]

@[simp] lemma size_scopes_entered : (t.entered s).scopes.size = t.scopes.size + 1 := by
  simp [entered]

@[simp] lemma size_allocators_entered : (t.entered s).allocators.size = t.allocators.size := by
  simp [entered, setAllocator]

lemma alloc_entered_self (ht : t.Good) (hs : s < t.scopes.size) :
    (t.entered s).alloc (t.scope s).allocator = (t.allocator s).save := by
  change (t.setAllocator s _).alloc _ = _
  rw [alloc_setAllocator, if_pos ⟨rfl, ht.allocator_lt s hs⟩]

lemma alloc_entered_ne {a : Nat} (ha : a ≠ (t.scope s).allocator) :
    (t.entered s).alloc a = t.alloc a := by
  change (t.setAllocator s _).alloc _ = _
  rw [alloc_setAllocator, if_neg fun h => ha h.1]

lemma good_entered (ht : t.Good) (hs : s < t.scopes.size) : (t.entered s).Good :=
  ht.push rfl rfl (by simp) le_rfl
    ⟨(ht.allocator_lt s hs).trans_eq (by simp), ht.visible_lt hs, nofun, ht.scope_frame_lt s hs⟩

/-- A block starts in the context inside a new block. -/
lemma ctx_entered (ht : t.Good) (hs : s < t.scopes.size) :
    (t.entered s).ctx t.scopes.size = (t.ctx s).enter := by
  have hnamed : ∀ i ∈ s :: (t.scope s).outer, (t.entered s).named i = t.named i := fun i hi =>
    named_eq ht (ht.visible_lt hs i hi) (scope_entered_lt (ht.visible_lt hs i hi)) fun b _ => rfl
  have hself : (t.entered s).named t.scopes.size = [] := by
    unfold named
    rw [scope_entered_self]
    rfl
  unfold ctx Ctx.enter
  rw [allocator_eq, scope_entered_self, blockScope, alloc_entered_self ht hs, List.map_cons, hself,
    List.map_congr_left hnamed]
  rfl

lemma good_setAllocator (ht : t.Good) (s : Nat) (a : Allocator) : (t.setAllocator s a).Good where
  fits i hi :=
    { ht.fits i hi with allocator_lt := (ht.allocator_lt i hi).trans_eq (by simp [setAllocator]) }
  binding_frame_lt := ht.binding_frame_lt

/-- Leaving a block takes back what it did to the allocator, up to the peak. -/
lemma leave_spec (ht : t.Good) (hs : s < t.scopes.size)
    (hgrow : (t.entered s).GrowsAt t.scopes.size t') (ht' : t'.Good) :
    ∃ t'' o, t'.leave t.scopes.size = .ok (t'', o) ∧ t''.Good ∧ t.GrowsAt s t'' ∧
      t''.ctx s = (t.ctx s).leave (t'.ctx t.scopes.size) := by
  have hlt : t.scopes.size < t'.scopes.size :=
    (by simp : t.scopes.size < (t.entered s).scopes.size).trans_le hgrow.scopes_le
  -- the allocator of the block is that of the scope around it
  have hown : (t'.scope t.scopes.size).allocator = (t.scope s).allocator := by
    rw [hgrow.allocator_at, scope_entered_self]
    rfl
  have hsaved : (t'.allocator t.scopes.size).saved = (t.allocator s).used :: (t.allocator s).saved := by
    rw [hgrow.saved_at, allocator_eq, scope_entered_self, blockScope, alloc_entered_self ht hs]
    rfl
  have hregion : (t'.allocator t.scopes.size).region = (t.allocator s).region := by
    rw [hgrow.region_at, allocator_eq, scope_entered_self, blockScope, alloc_entered_self ht hs]
    rfl
  set a : Allocator := { t'.allocator t.scopes.size with
    used := (t.allocator s).used, saved := (t.allocator s).saved } with ha
  have hleave : t'.leave t.scopes.size =
      .ok (t'.setAllocator t.scopes.size a, (t'.scope t.scopes.size).outer.head?) := by
    simp only [leave, Allocator.restore?, hsaved]
    rfl
  have hscope : ∀ i < t.scopes.size, t'.scope i = t.scope i := fun i hi => by
    rw [hgrow.scope_eq i (by simp; omega) hi.ne, scope_entered_lt hi]
  have hself : (t'.setAllocator t.scopes.size a).allocator s = a := by
    rw [allocator_eq]
    change (t'.setAllocator t.scopes.size a).alloc (t'.scope s).allocator = a
    have hlt' : (t.scope s).allocator < t'.allocators.size :=
      ((ht.allocator_lt s hs).trans_eq (by simp)).trans_le hgrow.allocators_le
    rw [hscope s hs, alloc_setAllocator, hown, if_pos ⟨rfl, hlt'⟩]
  refine ⟨_, _, hleave, good_setAllocator ht' _ _, ?_, ?_⟩
  · exact {
      scopes_le := hlt.le
      scope_eq := fun i hi _ => hscope i hi
      outer_at := congrArg Scope.outer (hscope s hs)
      allocator_at := congrArg Scope.allocator (hscope s hs)
      frame_at := congrArg Scope.frame (hscope s hs)
      allocators_le := by
        simpa [setAllocator] using hgrow.allocators_le
      alloc_eq := fun b hb hne => by
        have hne' : b ≠ ((t.entered s).scope t.scopes.size).allocator := by
          rwa [scope_entered_self]
        rw [alloc_setAllocator, hown, if_neg fun h => hne h.1, hgrow.alloc_eq b (by simpa using hb) hne',
          alloc_entered_ne hne]
      region_at := by rw [hself, ha, hregion]
      saved_at := by rw [hself]
      bindings_le := hgrow.bindings_le
      binding_eq := hgrow.binding_eq
      frames_le := hgrow.frames_le }
  · have hnamed : ∀ i ∈ s :: (t.scope s).outer,
        (t'.setAllocator t.scopes.size a).named i = t.named i := fun i hi =>
      named_eq ht (ht.visible_lt hs i hi) (hscope i (ht.visible_lt hs i hi)) hgrow.binding_eq
    unfold ctx Ctx.leave
    rw [hself]
    change Ctx.mk ((s :: (t'.scope s).outer).map _) _ _ _ (t'.scope s).frame = _
    rw [hscope s hs, List.map_congr_left hnamed, ha]
    simp only [hregion]

end block

/-- The table with a scope more that has an allocator of its own. -/
def opening (t : SymbolTable) (x : Scope) (a : Allocator) (frames : Nat) : SymbolTable :=
  { scopes := t.scopes.push x, allocators := t.allocators.push a, bindings := t.bindings, frames }

section opening

variable {x : Scope} {a : Allocator} {frames : Nat}

lemma scope_opening_self : (t.opening x a frames).scope t.scopes.size = x := by
  simp [opening, scope]

lemma scope_opening_lt {i : Nat} (hi : i < t.scopes.size) : (t.opening x a frames).scope i = t.scope i := by
  simp [opening, scope, Array.getElem?_push_lt hi, hi]

lemma alloc_of_le {b : Nat} (hb : t.allocators.size ≤ b) : t.alloc b = default := by
  simp [alloc, hb]

lemma alloc_opening (b : Nat) :
    (t.opening x a frames).alloc b = if b = t.allocators.size then a else t.alloc b := by
  simp only [opening, alloc, Array.getD_eq_getD_getElem?, Array.getElem?_push]
  split <;> rfl

lemma alloc_opening_self : (t.opening x a frames).alloc t.allocators.size = a := by
  rw [alloc_opening, if_pos rfl]

lemma alloc_opening_lt {b : Nat} (hb : b < t.allocators.size) :
    (t.opening x a frames).alloc b = t.alloc b := by
  rw [alloc_opening, if_neg hb.ne]

lemma good_opening (ht : t.Good) (hs : s < t.scopes.size) (hallocator : x.allocator = t.allocators.size)
    (houter : x.outer = s :: (t.scope s).outer) (hsymbols : x.symbols = []) (hframe : x.frame < frames)
    (hframes : t.frames ≤ frames) : (t.opening x a frames).Good :=
  ht.push rfl rfl (by simp [opening]) hframes
    ⟨by simp [opening, hallocator], houter ▸ ht.visible_lt hs, by simp [hsymbols], hframe⟩

end opening

/-! ## Subroutines -/

section func

/-- Parameters as they are declared, each behind the ones before, when `used` bytes are in use. -/
def rawParams (k : Nat) : (used : Nat) → List Param → List Binding
  | _, [] => []
  | used, p :: ps =>
    { name := p.name, ty := p.declared, mutable := true, base := .frame, offset := used, frame := k } ::
      rawParams k (used + p.declared.size) ps

/-- Bindings moved to their places below `top`, the first one highest. -/
def relocate (top : Int) : List Binding → List Binding
  | [] => []
  | b :: bs => { b with offset := top - b.ty.size } :: relocate (top - b.ty.size) bs

lemma length_rawParams (k : Nat) : ∀ (used : Nat) (ps : List Param),
    (rawParams k used ps).length = ps.length
  | _, [] => rfl
  | used, p :: ps => by simp [rawParams, length_rawParams k _ ps]

lemma relocate_rawParams (k : Nat) : ∀ (used : Nat) (top : Int) (ps : List Param),
    relocate top (rawParams k used ps) = FuncHead.placed k top ps
  | _, _, [] => rfl
  | used, top, p :: ps => by
    simp only [rawParams, relocate, FuncHead.placed, relocate_rawParams k _ _ ps]

/-- Placing the last bindings of an array moves them and leaves the others alone. -/
lemma placeParams_append : ∀ (raw done : List Binding) (top : Int),
    placeParams (done ++ raw).toArray top (List.range' done.length raw.length) =
      (done ++ relocate top raw).toArray
  | [], done, top => by simp [placeParams, relocate]
  | b :: raw, done, top => by
    have hget : ((done ++ b :: raw).toArray.getD done.length default) = b := by simp
    have hmod : (done ++ b :: raw).toArray.modify done.length
        (fun x => { x with offset := top - b.ty.size }) =
          ((done ++ [{ b with offset := top - b.ty.size }]) ++ raw).toArray := by
      simp [List.modify_eq_take_drop]
    have ih := placeParams_append raw (done ++ [{ b with offset := top - b.ty.size }])
      (top - b.ty.size)
    rw [List.length_append, List.length_singleton] at ih
    rw [List.length_cons, List.range'_succ, placeParams, hget, hmod, ih]
    simp [relocate]

/-- The table after the parameters of a list were declared. -/
def declaredParams (t : SymbolTable) (s : Nat) (ps : List Param) : SymbolTable :=
  ps.foldl (fun t p => t.declared s p.name p.declared true) t

/-- What declaring parameters does to a table. -/
structure ParamsDeclared (t : SymbolTable) (s : Nat) (ps : List Param) (t' : SymbolTable) : Prop where
  good : t'.Good
  growsAt : t.GrowsAt s t'
  scopes : t'.scopes.size = t.scopes.size
  allocators : t'.allocators.size = t.allocators.size
  frames : t'.frames = t.frames
  bindings : t'.bindings.toList =
    t.bindings.toList ++ rawParams (t.scope s).frame (t.allocator s).used ps
  symbols : (t'.scope s).symbols =
    (List.zipWith (fun p i => (p.name, i)) ps (List.range' t.bindings.size ps.length)).reverse ++
      (t.scope s).symbols
  params : (t'.allocator s).params =
    (t.allocator s).params ++ List.range' t.bindings.size ps.length
  used : (t'.allocator s).used = (t.allocator s).used + (ps.map (·.declared.size)).sum
  peak : (t.allocator s).peak = (t.allocator s).used → (t'.allocator s).peak = (t'.allocator s).used

lemma paramsDeclared : ∀ (ps : List Param) {t : SymbolTable}, t.Good → s < t.scopes.size →
    (t.allocator s).region = .params → t.ParamsDeclared s ps (t.declaredParams s ps)
  | [], t, ht, hs, _ => by
    exact {
      good := ht
      growsAt := (Extends.refl t).growsAt ht hs
      scopes := rfl
      allocators := rfl
      frames := rfl
      bindings := by simp [declaredParams, rawParams]
      symbols := rfl
      params := by simp [declaredParams]
      used := by simp [declaredParams]
      peak := fun h => h }
  | p :: ps, t, ht, hs, hr => by
    set t₁ := t.declared s p.name p.declared true with ht₁
    have hgood := good_declared p.name p.declared true ht hs
    have hgrow := growsAt_declared p.name p.declared true ht hs
    have hs₁ : s < t₁.scopes.size := by simpa [ht₁] using hs
    have halloc : t₁.allocator s = t.allocatorAfter s p.declared := by
      rw [allocator_eq, ht₁, scope_declared_self _ _ _ hs, alloc_declared_self _ _ _ ht hs]
    obtain ⟨-, -, hused, hpeak⟩ := allocatorAfter_spec (t := t) (s := s) p.declared
    have hparams : (t₁.allocator s).params = (t.allocator s).params ++ [t.bindings.size] := by
      have hr' : ((t.allocator s).take p.declared.size).region = .params := hr
      rw [halloc, allocatorAfter]
      simp only [hr', if_true]
      rfl
    have ih := paramsDeclared ps hgood hs₁ (by rw [hgrow.region_at, hr])
    have hsize : t₁.bindings.size = t.bindings.size + 1 := by simp [ht₁]
    exact {
      good := ih.good
      growsAt := hgrow.trans ih.growsAt
      scopes := ih.scopes.trans (by simp)
      allocators := ih.allocators.trans (by simp)
      frames := ih.frames
      bindings := by
        have hone : t₁.bindings.toList = t.bindings.toList ++
            rawParams (t.scope s).frame (t.allocator s).used [p] := by
          simp [ht₁, declared, Ctx.binding, ctx, rawParams, hr, Region.base, Allocator.nextOffset]
        rw [declaredParams, List.foldl_cons, ← ht₁]
        refine ih.bindings.trans ?_
        rw [hone, halloc, hused, hgrow.frame_at]
        simp [rawParams]
      symbols := by
        refine ih.symbols.trans ?_
        rw [hsize, scope_declared_self _ _ _ hs]
        simp [List.range'_succ]
      params := by
        refine ih.params.trans ?_
        rw [hparams, hsize, List.length_cons, List.range'_succ]
        simp
      used := by
        refine ih.used.trans ?_
        rw [halloc, hused, List.map_cons, List.sum_cons]
        omega
      peak := fun h => ih.peak (by rw [halloc, hused, hpeak, h]; omega) }

/-- The table in which the parameters of a subroutine are declared. -/
def openedParams (t : SymbolTable) (s : Nat) : SymbolTable := (t.openParams s).1

lemma openedParams_eq : t.openedParams s =
    t.opening { outer := s :: (t.scope s).outer, allocator := t.allocators.size, frame := t.frames }
      { region := .params } (t.frames + 1) := rfl

lemma scope_openedParams_self : (t.openedParams s).scope t.scopes.size =
    { outer := s :: (t.scope s).outer, allocator := t.allocators.size, frame := t.frames } := by
  rw [openedParams_eq, scope_opening_self]

lemma size_scopes_openedParams : (t.openedParams s).scopes.size = t.scopes.size + 1 := Array.size_push ..

lemma size_allocators_openedParams : (t.openedParams s).allocators.size = t.allocators.size + 1 :=
  Array.size_push ..

lemma extends_openedParams : t.Extends (t.openedParams s) where
  scopes_le := (Nat.le_succ _).trans_eq size_scopes_openedParams.symm
  scope_eq _ hi := by rw [openedParams_eq, scope_opening_lt hi]
  allocators_le := (Nat.le_succ _).trans_eq size_allocators_openedParams.symm
  alloc_eq _ ha := by rw [openedParams_eq, alloc_opening_lt ha]
  bindings_le := le_rfl
  binding_eq _ _ := rfl
  frames_le := Nat.le_succ _

lemma allocator_openedParams : (t.openedParams s).allocator t.scopes.size = { region := .params } := by
  rw [allocator_eq, scope_openedParams_self, openedParams_eq, alloc_opening_self]

lemma good_openedParams (ht : t.Good) (hs : s < t.scopes.size) : (t.openedParams s).Good :=
  good_opening ht hs rfl rfl rfl (Nat.lt_succ_self _) (Nat.le_succ _)

/-! ### The body of a subroutine -/

lemma size_placeParams : ∀ (ns : List Nat) (bs : Array Binding) (top : Int),
    (placeParams bs top ns).size = bs.size
  | [], _, _ => rfl
  | n :: ns, bs, top => by rw [placeParams, size_placeParams ns, Array.size_modify]

/-- Placing parameters changes their offsets only. -/
lemma getD_placeParams {β : Type} (f : Binding → β) (hf : ∀ b o, f { b with offset := o } = f b) (i : Nat)
    (ns : List Nat) (bs : Array Binding) (top : Int) :
    f ((placeParams bs top ns).getD i default) = f (bs.getD i default) := by
  induction ns generalizing bs top with
  | nil => rfl
  | cons n ns ih =>
    rw [placeParams, ih]
    by_cases h : n = i
    · subst h
      cases hb : bs[n]? <;> simp [Array.getElem?_modify, hb, hf]
    · simp [Array.getElem?_modify, h]

lemma good_placed (ht : t.Good) (top : Int) (ns : List Nat) :
    { t with bindings := placeParams t.bindings top ns }.Good where
  fits i hi :=
    { ht.fits i hi with
      symbol_lt := fun p hp => (ht.symbol_lt i hi p hp).trans_eq (size_placeParams _ _ _).symm }
  binding_frame_lt b hb := (getD_placeParams Binding.frame (fun _ _ => rfl) b _ _ _).trans_lt
    (ht.binding_frame_lt b (hb.trans_eq (size_placeParams _ _ _)))

lemma placeParams_of_not_mem {i : Nat} : ∀ {ns : List Nat} (bs : Array Binding) (top : Int), i ∉ ns →
    (placeParams bs top ns).getD i default = bs.getD i default
  | [], _, _, _ => rfl
  | n :: ns, bs, top, h => by
    simp only [List.mem_cons, not_or] at h
    rw [placeParams, placeParams_of_not_mem _ _ h.2]
    simp [Array.getElem?_modify, Ne.symm h.1]

/-- The table at the start of a body, after the parameters were declared in the scope `p`. -/
def bodyTable (t : SymbolTable) (p : Nat) : SymbolTable :=
  ({ t with
    bindings := placeParams t.bindings (t.allocator p).used (t.allocator p).params }.openBody p).1

lemma bodyTable_eq (p : Nat) : t.bodyTable p =
    { t with bindings := placeParams t.bindings (t.allocator p).used (t.allocator p).params }.opening
      { outer := p :: (t.scope p).outer, allocator := t.allocators.size, frame := (t.scope p).frame }
      (Allocator.take { region := .locals } savedBytes) t.frames := rfl

lemma scope_bodyTable_self {p : Nat} : (t.bodyTable p).scope t.scopes.size =
    { outer := p :: (t.scope p).outer, allocator := t.allocators.size, frame := (t.scope p).frame } := by
  rw [bodyTable_eq]
  exact scope_opening_self

lemma scope_bodyTable_lt {p i : Nat} (hi : i < t.scopes.size) : (t.bodyTable p).scope i = t.scope i := by
  rw [bodyTable_eq]
  exact scope_opening_lt hi

@[simp] lemma size_scopes_bodyTable {p : Nat} : (t.bodyTable p).scopes.size = t.scopes.size + 1 :=
  Array.size_push ..

@[simp] lemma size_allocators_bodyTable {p : Nat} : (t.bodyTable p).allocators.size = t.allocators.size + 1 :=
  Array.size_push ..

@[simp] lemma size_bindings_bodyTable {p : Nat} : (t.bodyTable p).bindings.size = t.bindings.size :=
  size_placeParams _ _ _

lemma alloc_bodyTable_lt {p a : Nat} (ha : a < t.allocators.size) : (t.bodyTable p).alloc a = t.alloc a := by
  rw [bodyTable_eq]
  exact alloc_opening_lt ha

lemma allocator_bodyTable {p : Nat} : (t.bodyTable p).allocator t.scopes.size =
    Allocator.take { region := .locals } savedBytes := by
  rw [allocator_eq, scope_bodyTable_self, bodyTable_eq]
  exact alloc_opening_self

lemma good_bodyTable (ht : t.Good) {p : Nat} (hp : p < t.scopes.size) : (t.bodyTable p).Good :=
  good_opening (good_placed ht _ _) hp rfl rfl rfl (ht.scope_frame_lt p hp) le_rfl

/-- Declaring parameters in any way, and then opening the body, only adds to the table that a subroutine
is defined in, if the parameters are new. -/
lemma extends_bodyTable (hgrow : (t.openedParams s).GrowsAt t.scopes.size t')
    (hnew : ∀ n ∈ (t'.allocator t.scopes.size).params, t.bindings.size ≤ n) :
    t.Extends (t'.bodyTable t.scopes.size) := by
  have hext := extends_openedParams (t := t) (s := s)
  have hscopes := size_scopes_openedParams (t := t) (s := s)
  have hallocs := size_allocators_openedParams (t := t) (s := s)
  exact {
    scopes_le := by
      have := hgrow.scopes_le
      rw [size_scopes_bodyTable]
      omega
    scope_eq := fun i hi => by
      have := hgrow.scopes_le
      rw [scope_bodyTable_lt (by omega), hgrow.scope_eq i (by omega) hi.ne, hext.scope_eq i hi]
    allocators_le := by
      have := hgrow.allocators_le
      rw [size_allocators_bodyTable]
      omega
    alloc_eq := fun a ha => by
      have := hgrow.allocators_le
      have hne : a ≠ ((t.openedParams s).scope t.scopes.size).allocator := by
        rw [scope_openedParams_self]
        exact ha.ne
      rw [alloc_bodyTable_lt (by omega), hgrow.alloc_eq a (by omega) hne, hext.alloc_eq a ha]
    bindings_le := by
      rw [size_bindings_bodyTable]
      exact hgrow.bindings_le
    binding_eq := fun b hb => by
      have hnot : b ∉ (t'.allocator t.scopes.size).params := fun hmem =>
        absurd (hnew b hmem) (by omega)
      exact (placeParams_of_not_mem _ _ hnot).trans (hgrow.binding_eq b hb)
    frames_le := hext.frames_le.trans hgrow.frames_le }

/-- The numbers behind some bindings, read in an array, are the bindings that follow there. -/
lemma map_getD_range' : ∀ (bs done : List Binding),
    (List.range' done.length bs.length).map (fun i => (done ++ bs).toArray.getD i default) = bs
  | [], _ => rfl
  | b :: bs, done => by
    have ih := map_getD_range' bs (done ++ [b])
    simp only [List.length_append, List.length_singleton, List.append_assoc,
      List.singleton_append] at ih
    rw [List.length_cons, List.range'_succ, List.map_cons, ih]
    simp

/-- Parameters have the names of their bindings. -/
lemma zipWith_placed (k : Nat) : ∀ (ps : List Param) (top : Int),
    List.zipWith (fun (p : Param) b => (p.name, b)) ps (FuncHead.placed k top ps) =
      (FuncHead.placed k top ps).map fun b => (b.name, b)
  | [], _ => rfl
  | p :: ps, top => by
    simp only [FuncHead.placed, List.zipWith_cons_cons, List.map_cons, zipWith_placed k ps]

/-- The table at the start of the body of a subroutine with good parameters. -/
def opened (t : SymbolTable) (s : Nat) (h : FuncHead) : SymbolTable :=
  ((t.openedParams s).declaredParams t.scopes.size h.params).bodyTable t.scopes.size

/-- The scope of that body. -/
def openedScope (t : SymbolTable) (s : Nat) (h : FuncHead) : Nat :=
  ((t.openedParams s).declaredParams t.scopes.size h.params).scopes.size

/-- Opening a subroutine with good parameters is what the context says. -/
lemma opened_spec (ht : t.Good) (hs : s < t.scopes.size) (h : FuncHead) :
    (t.opened s h).ctx (t.openedScope s h) = (t.ctx s).inFunc h t.frames ∧
      (List.range' t.bindings.size h.params.length).map (t.opened s h).binding = h.bindings t.frames ∧
      (t.opened s h).bindings.size = t.bindings.size + h.params.length ∧
      ((t.opened s h).allocator t.scopes.size).peak = h.argBytes := by
  have hp := paramsDeclared h.params (good_openedParams ht hs)
    (by simp [size_scopes_openedParams] : t.scopes.size < (t.openedParams s).scopes.size)
    (by rw [allocator_openedParams])
  set t₁ := (t.openedParams s).declaredParams t.scopes.size h.params
  have hbindings : t₁.bindings = (t.bindings.toList ++ rawParams t.frames 0 h.params).toArray := by
    have hb := hp.bindings
    rw [scope_openedParams_self, allocator_openedParams] at hb
    exact Array.toList_inj.mp hb
  have hused : (t₁.allocator t.scopes.size).used = h.argBytes := by
    rw [hp.used, allocator_openedParams]
    exact Nat.zero_add _
  have hparams : (t₁.allocator t.scopes.size).params =
      List.range' t.bindings.toList.length (rawParams t.frames 0 h.params).length := by
    rw [hp.params, allocator_openedParams, length_rawParams, Array.length_toList]
    rfl
  have hplaced : (t.opened s h).bindings = (t.bindings.toList ++ h.bindings t.frames).toArray := by
    change placeParams t₁.bindings (t₁.allocator t.scopes.size).used
      (t₁.allocator t.scopes.size).params = _
    rw [hbindings, hused, hparams, placeParams_append, relocate_rawParams]
    rfl
  have houter : (t₁.scope t.scopes.size).outer = s :: (t.scope s).outer := by
    rw [hp.growsAt.outer_at, scope_openedParams_self]
  have hnew : ∀ n ∈ (t₁.allocator t.scopes.size).params, t.bindings.size ≤ n := by
    intro n hn
    rw [hparams] at hn
    simpa using (List.mem_range'_1.mp hn).1
  have hext : t.Extends (t.opened s h) := extends_bodyTable hp.growsAt hnew
  have hplt : t.scopes.size < t₁.scopes.size := by
    rw [hp.scopes]
    simp [size_scopes_openedParams]
  have hmap : (List.range' t.bindings.size h.params.length).map (t.opened s h).binding =
      h.bindings t.frames := by
    have hrange := map_getD_range' (h.bindings t.frames) t.bindings.toList
    rw [Array.length_toList, FuncHead.bindings, FuncHead.length_placed, ← FuncHead.bindings, ← hplaced]
      at hrange
    exact hrange
  refine ⟨?_, hmap, by simp [hplaced, FuncHead.bindings, FuncHead.length_placed], ?_⟩
  · -- the scopes of the body: its own, the parameters and those around
    have hself : (t.opened s h).named (t.openedScope s h) = [] := by
      unfold named
      change List.map _ ((t₁.bodyTable t.scopes.size).scope t₁.scopes.size).symbols = []
      rw [scope_bodyTable_self]
      rfl
    have hparamsNamed : (t.opened s h).named t.scopes.size =
        ((h.bindings t.frames).map fun b => (b.name, b)).reverse := by
      unfold named
      change List.map _ ((t₁.bodyTable t.scopes.size).scope t.scopes.size).symbols = _
      rw [scope_bodyTable_lt hplt, hp.symbols, scope_openedParams_self, List.append_nil,
        List.map_reverse]
      congr 1
      rw [List.map_zipWith]
      have hzip : List.zipWith (fun (p : Param) i => (p.name, (t.opened s h).binding i)) h.params
          (List.range' t.bindings.size h.params.length) =
          List.zipWith (fun (p : Param) b => (p.name, b)) h.params (h.bindings t.frames) := by
        rw [← hmap, List.zipWith_map_right]
      exact hzip.trans (zipWith_placed _ _ _)
    have hold : (s :: (t.scope s).outer).map (t.opened s h).named =
        (s :: (t.scope s).outer).map t.named := by
      refine List.map_congr_left fun i hi => ?_
      have hlt := ht.visible_lt hs i hi
      exact named_eq ht hlt (hext.scope_eq i hlt) hext.binding_eq
    have hscope : (t.opened s h).scope (t.openedScope s h) =
        { outer := t.scopes.size :: s :: (t.scope s).outer, allocator := t₁.allocators.size,
          frame := t.frames } := by
      change (t₁.bodyTable t.scopes.size).scope t₁.scopes.size = _
      rw [scope_bodyTable_self, houter, hp.growsAt.frame_at, scope_openedParams_self]
    have hallocator : (t.opened s h).allocator (t.openedScope s h) =
        Allocator.take { region := .locals } savedBytes := allocator_bodyTable
    unfold ctx Ctx.inFunc
    rw [hallocator, hscope, List.map_cons, List.map_cons, hself, hparamsNamed, hold]
    rfl
  · have hown : ((t.opened s h).allocator t.scopes.size) = t₁.allocator t.scopes.size := by
      have halt : (t₁.scope t.scopes.size).allocator < t₁.allocators.size :=
        hp.good.allocator_lt _ hplt
      rw [allocator_eq, allocator_eq]
      change (t₁.bodyTable t.scopes.size).alloc
        ((t₁.bodyTable t.scopes.size).scope t.scopes.size).allocator = _
      rw [scope_bodyTable_lt hplt, alloc_bodyTable_lt halt]
    rw [hown, hp.peak (by rw [allocator_openedParams]), hused]

/-- The number of the next activation record is new. -/
lemma isFresh_frames (ht : t.Good) (hs : s < t.scopes.size) : (t.ctx s).isFresh t.frames := by
  refine ⟨ht.scope_frame_lt s hs, ?_⟩
  intro names hnames p hp
  simp only [ctx, List.mem_map] at hnames
  obtain ⟨i, hi, rfl⟩ := hnames
  simp only [named, List.mem_map] at hp
  obtain ⟨q, hq, rfl⟩ := hp
  exact ht.binding_frame_lt _ (ht.symbol_lt i (ht.visible_lt hs i hi) q hq)

end func

end SymbolTable

end SubrLang
