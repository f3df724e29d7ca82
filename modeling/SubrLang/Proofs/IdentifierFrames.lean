import SubrLang.Proofs.Checking

/-!
# Identifiers stay inside their own frame

In a program that was checked without an error every identifier is bound to the innermost declaration in
sight, and the bytes of its variable lie in the global block or in the activation record of the subroutine
that the identifier stands in, outside of the two saved words (`Program.check_identifiers`).

**Occurrences.** `Program.occurrences` goes over a checked tree and collects its identifiers, each with the
declarations in sight, the latest first, and the heads of the subroutines around it. It reads the
declarations off the tree, not off the symbol table.

**Contexts.** `Ctx.Places` compares a context of the rules of elaboration with what is in sight in the tree:
the names are the same, those of the global block lie in it, those of the open activation record lie in the
record of the innermost subroutine, and all other ones belong to older activation records, which an
identifier cannot refer to. A declaration keeps this up (`Ctx.Places.declare`), and a subroutine establishes
it for its body (`Ctx.Places.inFunc`). The sizes of records are known only behind their bodies; the
storage in use grows up to them (`Stmt.ElabAll.extends`).
-/

namespace SubrLang

open Registry (standard)

/-! ## Identifiers in a tree -/

/-- What a name was declared as, with the number of subroutines around the declaration. -/
inductive Origin where
  | subroutine
  | parameter (depth : Nat)
  | declared (depth : Nat)
deriving DecidableEq

/-- Whether a declaration is inside of no subroutine. -/
def Origin.isGlobal : Origin → Bool
  | .subroutine | .declared 0 => true
  | _ => false

structure Declaration where
  name : String
  binding : Option Binding
  origin : Origin

/-- What is in sight at a place of a tree. -/
structure Site where
  /-- The declarations in sight, the latest first. -/
  visible : List Declaration
  /-- The subroutines around the place, the innermost first. -/
  enclosing : List FuncHead

namespace Site

def depth (σ : Site) : Nat := σ.enclosing.length

/-- Behind a declaration. -/
def declare (σ : Site) (d : Declaration) : Site := { σ with visible := d :: σ.visible }

/-- The declarations of the parameters of a subroutine, the latest first. -/
def paramsOf (h : FuncHead) (depth : Nat) : List Declaration :=
  (h.params.map fun p => ⟨p.name, p.binding, .parameter depth⟩).reverse

/-- Inside a subroutine. -/
def inFunc (σ : Site) (h : FuncHead) : Site where
  visible := paramsOf h (σ.depth + 1) ++ σ.visible
  enclosing := h :: σ.enclosing

end Site

/-- An identifier at a place of a tree. -/
structure Occurrence where
  name : String
  binding : Option Binding
  site : Site

/-- What is in sight behind a statement. A block forgets its declarations; what stands behind `else` is no
block by itself. -/
def Stmt.behind (σ : Site) : Stmt → Site
  | .varDecl _ x _ _ b => σ.declare ⟨x, b, .declared σ.depth⟩
  | .ifElse _ _ _ a => a.behind σ
  | _ => σ

mutual

/-- The identifiers in an expression. -/
def Expr.occurrences (σ : Site) : Expr → List Occurrence
  | .ident _ x b => [⟨x, b, σ⟩]
  | .number .. | .floatNumber .. | .char .. | .string .. | .bool .. | .typeLiteral .. => []
  | .operator _ _ es _ | .arrayLiteral _ es => Expr.occurrencesAll σ es
  | .arrayAlloc _ _ l => l.occurrences σ
  | .index _ a i => a.occurrences σ ++ i.occurrences σ
  | .call _ f es => f.occurrences σ ++ Expr.occurrencesAll σ es
  | .lambda _ h b => Stmt.occurrencesAll (σ.inFunc h) b

def Expr.occurrencesAll (σ : Site) : List Expr → List Occurrence
  | [] => []
  | e :: es => e.occurrences σ ++ Expr.occurrencesAll σ es

def PrintItem.occurrencesAll (σ : Site) : List PrintItem → List Occurrence
  | [] => []
  | .separator _ _ :: is => PrintItem.occurrencesAll σ is
  | .value e :: is => e.occurrences σ ++ PrintItem.occurrencesAll σ is

def Stmt.occurrences (σ : Site) : Stmt → List Occurrence
  | .varDecl _ _ _ e _ => e.occurrences σ
  | .assign _ t v => t.occurrences σ ++ v.occurrences σ
  | .print _ is => PrintItem.occurrencesAll σ is
  | .call _ c => c.occurrences σ
  | .give _ v => v.occurrences σ
  | .leave _ => []
  | .ifThen _ c b | .while _ c b => c.occurrences σ ++ Stmt.occurrencesAll σ b
  | .ifElse _ c b a => c.occurrences σ ++ Stmt.occurrencesAll σ b ++ a.occurrences σ
  | .block _ b => Stmt.occurrencesAll σ b

def Stmt.occurrencesAll (σ : Site) : List Stmt → List Occurrence
  | [] => []
  | s :: ss => s.occurrences σ ++ Stmt.occurrencesAll (s.behind σ) ss

end

/-- All subroutines are in sight everywhere. -/
def Site.global (fs : List Func) : Site where
  visible := (fs.map fun f => ⟨f.head.name, f.head.binding, .subroutine⟩).reverse
  enclosing := []

/-- The identifiers in a program. -/
def Program.occurrences (p : Program) : List Occurrence :=
  p.funcs.flatMap (fun f => Stmt.occurrencesAll ((Site.global p.funcs).inFunc f.head) f.body) ++
    Stmt.occurrencesAll (.global p.funcs) p.main

/-! ## Where the bytes of a variable lie -/

/-- All bytes of a variable lie from one offset on and below another. -/
structure Binding.Within (b : Binding) (lo hi : Int) : Prop where
  lo_le : lo ≤ b.offset
  le_hi : b.offset + b.ty.size ≤ hi

/-- A declaration outside of all subroutines, in a global block of `size` bytes. -/
structure Declaration.IsGlobal (d : Declaration) (b : Binding) (size : Nat) : Prop where
  origin : d.origin.isGlobal
  base : b.base = .globals
  within : b.Within 0 size

/-- A parameter or a variable of the subroutine `h`, which has `depth - 1` subroutines around it. -/
inductive Declaration.IsOwn (d : Declaration) (b : Binding) (h : FuncHead) (depth : Nat) : Prop
  | parameter (origin : d.origin = .parameter depth) (base : b.base = .frame)
      (mem : ∃ p ∈ h.params, p.name = d.name ∧ p.binding = some b) (within : b.Within 0 h.argSize)
  | declared (origin : d.origin = .declared depth) (base : b.base = .frame)
      (within : b.Within (-h.frameSize) (-savedBytes))

/-- An identifier is bound to the innermost declaration in sight, which is a global one or one of the
subroutine that the identifier stands in. -/
def Occurrence.Resolved (o : Occurrence) (globalSize : Nat) : Prop :=
  ∃ d b, o.site.visible.find? (·.name == o.name) = some d ∧ d.binding = some b ∧ o.binding = some b ∧
    match o.site.enclosing with
    | [] => d.IsGlobal b globalSize
    | h :: _ => d.IsGlobal b globalSize ∨ d.IsOwn b h o.site.depth

/-! ## Contexts -/

/-- Where a declared variable lies, seen from the activation record `frame` of the first of some
subroutines. -/
inductive Declaration.Lies (d : Declaration) (b : Binding) (size frame : Nat) : List FuncHead → Prop
  | global {hs} (global : d.IsGlobal b size) : Lies d b size frame hs
  | own {h hs} (frame_eq : b.frame = frame) (own : d.IsOwn b h (hs.length + 1)) :
      Lies d b size frame (h :: hs)
  /-- In the activation record of another subroutine. -/
  | other {hs} (base : b.base = .frame) (frame_ne : b.frame ≠ frame) : Lies d b size frame hs

/-- A name of a context stands for a declaration of a tree. -/
structure Declaration.Names (size frame : Nat) (hs : List FuncHead) (p : String × Binding)
    (d : Declaration) : Prop where
  name : d.name = p.1
  binding : d.binding = some p.2
  lies : d.Lies p.2 size frame hs

/-- The storage that declarations at a place can use, in a program with a global block of `size` bytes. -/
def Site.limit (σ : Site) (size : Nat) : Nat :=
  match σ.enclosing with
  | [] => size
  | h :: _ => h.frameSize

lemma Stmt.enclosing_behind (σ : Site) : ∀ s : Stmt, (s.behind σ).enclosing = σ.enclosing
  | .varDecl .. => rfl
  | .ifElse _ _ _ a => a.enclosing_behind σ
  | .assign .. | .print .. | .call .. | .give .. | .leave _ | .ifThen .. | .while .. | .block .. => rfl

lemma Stmt.limit_behind (σ : Site) (s : Stmt) (size : Nat) : (s.behind σ).limit size = σ.limit size := by
  rw [Site.limit, Stmt.enclosing_behind, Site.limit]

/-- A context has in sight what is in sight at a place of a tree. -/
structure Ctx.Places (Γ : Ctx) (σ : Site) (size : Nat) : Prop where
  names : List.Forall₂ (Declaration.Names size Γ.frame σ.enclosing) Γ.names σ.visible
  storage : match σ.enclosing with
    | [] => Γ.region = .globals
    | _ :: _ => Γ.region = .locals ∧ savedBytes ≤ Γ.used

lemma Declaration.exists_find? {size frame : Nat} {hs : List FuncHead} {x : String} {b : Binding}
    {ns : List (String × Binding)} {ds : List Declaration}
    (h : List.Forall₂ (Declaration.Names size frame hs) ns ds) (hx : ns.lookup x = some b) :
    ∃ d, ds.find? (·.name == x) = some d ∧ Declaration.Names size frame hs (x, b) d := by
  induction h with
  | nil => simp at hx
  | @cons p d ns ds head tail ih =>
    obtain ⟨y, b'⟩ := p
    have hname : d.name = y := head.name
    by_cases hxy : x = y
    · subst hxy
      obtain rfl : b' = b := by simpa using hx
      exact ⟨d, by simp [hname], head⟩
    · have hne : (d.name == x) = false := by simpa [hname] using Ne.symm hxy
      rw [List.lookup_cons, beq_false_of_ne hxy] at hx
      rw [List.find?_cons_of_neg (by simp [hne])]
      exact ih hx

namespace Ctx.Places

variable {Γ : Ctx} {σ : Site} {size : Nat}

/-- A name that may be used is that of an innermost declaration. -/
lemma resolved (hΓ : Γ.Places σ size) {x : String} {b : Binding} (hx : Γ.find? x = some b)
    (hown : Γ.captures b = false) : Occurrence.Resolved ⟨x, some b, σ⟩ size := by
  rw [Ctx.find?_eq_lookup] at hx
  obtain ⟨d, hd, hnames⟩ := Declaration.exists_find? hΓ.names hx
  refine ⟨d, b, hd, hnames.binding, rfl, ?_⟩
  obtain ⟨visible, enclosing⟩ := σ
  cases hnames.lies with
  | global hglobal =>
    cases enclosing with
    | nil => exact hglobal
    | cons h hs => exact .inl hglobal
  | own _ hown => exact .inr hown
  | other hbase hframe =>
    replace hbase : b.base = .frame := hbase
    simp [Ctx.captures, hbase, hframe] at hown

lemma enter (hΓ : Γ.Places σ size) : Γ.enter.Places σ size := ⟨hΓ.names, hΓ.storage⟩

lemma leave (hΓ : Γ.Places σ size) (Γ' : Ctx) : (Γ.leave Γ').Places σ size := ⟨hΓ.names, hΓ.storage⟩

/-- A declaration takes the bytes behind those in use. -/
lemma declare (hΓ : Γ.Places σ size) {x : String} {t : Ty} {m : Bool} (origin : Origin)
    (hlimit : Γ.used + t.size ≤ σ.limit size)
    (horigin : match σ.enclosing with
      | [] => origin.isGlobal = true
      | _ :: _ => origin = .declared σ.depth) :
    (Γ.declare x t m).Places (σ.declare ⟨x, some (Γ.binding x t m), origin⟩) size := by
  obtain ⟨hnames, hstorage⟩ := hΓ
  obtain ⟨visible, enclosing⟩ := σ
  refine ⟨?_, ?_⟩
  · rw [Ctx.names_declare]
    refine .cons ⟨rfl, rfl, ?_⟩ hnames
    cases enclosing with
    | nil =>
      replace hstorage : Γ.region = .globals := hstorage
      replace hlimit : Γ.used + t.size ≤ size := hlimit
      refine .global ⟨horigin, ?_, ?_⟩
      · simp [Ctx.binding, hstorage, Region.base]
      · constructor <;> simp [Ctx.binding, hstorage, Allocator.nextOffset]
        omega
    | cons h hs =>
      replace hlimit : Γ.used + t.size ≤ h.frameSize := hlimit
      obtain ⟨hregion, hused⟩ := hstorage
      refine .own rfl (.declared horigin ?_ ?_)
      · simp [Ctx.binding, hregion, Region.base]
      · constructor <;> simp [Ctx.binding, hregion, Allocator.nextOffset] <;> omega
  · cases enclosing with
    | nil => exact hstorage
    | cons h hs => exact ⟨hstorage.1, hstorage.2.trans (Nat.le_add_right _ _)⟩

/-- The names of a context are in the records of others than a new one. -/
lemma names_fresh {k : Nat} (hk : ∀ p ∈ Γ.names, p.2.frame < k) (h : FuncHead)
    (hΓ : Γ.Places σ size) :
    List.Forall₂ (Declaration.Names size k (h :: σ.enclosing)) Γ.names σ.visible := by
  obtain ⟨hnames, -⟩ := hΓ
  obtain ⟨visible, enclosing⟩ := σ
  dsimp only at hnames ⊢
  generalize Γ.names = ns at hk hnames
  induction hnames with
  | nil => exact .nil
  | @cons p d ns ds head tail ih =>
    have hlt : p.2.frame < k := hk p List.mem_cons_self
    refine .cons ⟨head.name, head.binding, ?_⟩ (ih fun q hq => hk q (List.mem_cons_of_mem _ hq))
    cases head.lies with
    | global hglobal => exact .global hglobal
    | own _ hown =>
      cases hown with
      | parameter _ hbase _ _ => exact .other hbase hlt.ne
      | declared _ hbase _ => exact .other hbase hlt.ne
    | other hbase _ => exact .other hbase hlt.ne

/-- Parameters placed below `top` are those of a head, if they lie inside of its arguments. -/
lemma names_placed {h : FuncHead} {hs : List FuncHead} {k : Nat} : ∀ (ps : List Param) (top : Int),
    (ps.map (·.declared.size)).sum ≤ top → top ≤ h.argSize →
    (∀ q ∈ List.zipWith (fun (p : Param) b => { p with ty := some p.declared, binding := some b })
      ps (FuncHead.placed k top ps), q ∈ h.params) →
    List.Forall₂ (Declaration.Names size k (h :: hs))
      ((FuncHead.placed k top ps).map fun b => (b.name, b))
      ((List.zipWith (fun (p : Param) b => { p with ty := some p.declared, binding := some b })
        ps (FuncHead.placed k top ps)).map fun q => ⟨q.name, q.binding, .parameter (hs.length + 1)⟩) := by
  intro ps
  induction ps with
  | nil =>
    intro top _ _ _
    exact .nil
  | cons p ps ih =>
    intro top hsum htop hmem
    simp only [FuncHead.placed, List.zipWith_cons_cons, List.forall_mem_cons] at hmem
    simp only [List.map_cons, List.sum_cons, Nat.cast_add] at hsum
    refine .cons ⟨rfl, rfl, .own rfl (.parameter rfl rfl ⟨_, hmem.1, rfl, rfl⟩ ⟨?_, ?_⟩)⟩
      (ih _ (by omega) (by omega) hmem.2)
    · change (0 : Int) ≤ top - p.declared.size
      omega
    · change top - p.declared.size + p.declared.size ≤ (h.argSize : Int)
      omega

/-- A body starts with the parameters in sight and nothing but the saved words in its record. -/
lemma inFunc (hΓ : Γ.Places σ size) {act : Nat} (hact : Γ.isFresh act) (h : FuncHead) (n : Nat) :
    (Γ.inFunc h act).Places (σ.inFunc (h.completed act n)) size := by
  refine ⟨?_, rfl, le_rfl⟩
  have hold : ∀ p ∈ Γ.names, p.2.frame < act := by
    intro p hp
    obtain ⟨s, hs, hps⟩ := List.mem_flatten.mp hp
    exact hact.2 s hs p hps
  rw [Ctx.names_inFunc]
  refine List.rel_append ?_ (names_fresh hold _ hΓ)
  refine List.forall₂_reverse_iff.mpr (names_placed h.params h.argBytes ?_ le_rfl fun q hq => hq)
  exact le_rfl

end Ctx.Places

/-! ## The rules of elaboration -/

lemma Expr.occurrences_withNote (e : Expr) (n : Note) (σ : Site) :
    (e.withNote n).occurrences σ = e.occurrences σ := by
  cases e <;> simp [withNote, occurrences]

/-- Conversions add no identifiers. -/
lemma Expr.occurrencesAll_attach (σ : Site) : ∀ (es : List Expr) (ws : List Widened),
    Expr.occurrencesAll σ (Widening.attach es ws) = Expr.occurrencesAll σ es
  | [], _ => by simp [Widening.attach]
  | _ :: _, [] => by simp [Widening.attach]
  | e :: es, (_, chain) :: ws => by
    rw [Widening.attach, Expr.occurrencesAll, Expr.occurrencesAll, Expr.occurrencesAll_attach σ es ws]
    split
    · rfl
    · rw [Expr.withWidening, Expr.occurrences_withNote]

mutual

/-- The identifiers of a checked expression stay inside their frame. -/
theorem Expr.Elab.resolved {r : Rules} {size : Nat} :
    ∀ {Γ : Ctx} {k : Bool} {e e' : Expr} {σ : Site}, Expr.Elab r Γ k e e' → Γ.Places σ size →
      ∀ o ∈ e'.occurrences σ, o.Resolved size
  | _, _, _, _, _, .number, _ | _, _, _, _, _, .floatNumber, _ | _, _, _, _, _, .char, _
  | _, _, _, _, _, .string, _ | _, _, _, _, _, .bool, _ | _, _, _, _, _, .typeLiteral, _ => by
    simp [Expr.occurrences]
  | _, _, _, _, _, .ident find own, hΓ => by
    simpa [Expr.occurrences] using hΓ.resolved find own
  | _, _, _, _, _, .operator operands _, hΓ => by
    rw [Expr.occurrences, Expr.occurrencesAll_attach]
    exact Expr.ElabAll.resolved operands hΓ
  | _, _, _, _, _, .arrayLiteral elems _, hΓ => by
    rw [Expr.occurrences, Expr.occurrencesAll_attach]
    exact Expr.ElabAll.resolved elems hΓ
  | _, _, _, _, _, .arrayAlloc length _, hΓ => by
    rw [Expr.occurrences]
    split
    · exact Expr.Elab.resolved length hΓ
    · rw [Expr.withWidening, Expr.occurrences_withNote]
      exact Expr.Elab.resolved length hΓ
  | _, _, _, _, _, .index array position _, hΓ => by
    rw [Expr.occurrences, List.forall_mem_append]
    exact ⟨Expr.Elab.resolved array hΓ, Expr.Elab.resolved position hΓ⟩
  | _, _, _, _, _, .call callee args _ _, hΓ => by
    rw [Expr.occurrences, Expr.occurrencesAll_attach, List.forall_mem_append]
    exact ⟨Expr.Elab.resolved callee hΓ, Expr.ElabAll.resolved args hΓ⟩
  | _, _, _, _, _, .lambda (h := h) _ fresh body, hΓ => by
    rw [Expr.occurrences]
    exact Stmt.ElabAll.resolved body (hΓ.inFunc fresh h _).enter le_rfl

theorem Expr.ElabAll.resolved {r : Rules} {size : Nat} :
    ∀ {Γ : Ctx} {es es' : List Expr} {σ : Site}, Expr.ElabAll r Γ es es' → Γ.Places σ size →
      ∀ o ∈ Expr.occurrencesAll σ es', o.Resolved size
  | _, _, _, _, .nil, _ => by simp [Expr.occurrencesAll]
  | _, _, _, _, .cons head tail, hΓ => by
    rw [Expr.occurrencesAll, List.forall_mem_append]
    exact ⟨Expr.Elab.resolved head hΓ, Expr.ElabAll.resolved tail hΓ⟩

theorem PrintItem.ElabAll.resolved {r : Rules} {size : Nat} :
    ∀ {Γ : Ctx} {is is' : List PrintItem} {σ : Site}, PrintItem.ElabAll r Γ is is' → Γ.Places σ size →
      ∀ o ∈ PrintItem.occurrencesAll σ is', o.Resolved size
  | _, _, _, _, .nil, _ => by simp [PrintItem.occurrencesAll]
  | _, _, _, _, .separator tail, hΓ => by
    rw [PrintItem.occurrencesAll]
    exact PrintItem.ElabAll.resolved tail hΓ
  | _, _, _, _, .value head tail, hΓ => by
    rw [PrintItem.occurrencesAll, List.forall_mem_append]
    exact ⟨Expr.Elab.resolved head hΓ, PrintItem.ElabAll.resolved tail hΓ⟩

/-- As long as the storage in use stays below what the enclosing subroutine has in the end, the identifiers
of a checked statement stay inside their frame, and so does what it declares. -/
theorem Stmt.Elab.resolved {r : Rules} {size : Nat} :
    ∀ {result : Option Ty} {Γ Γ' : Ctx} {s s' : Stmt} {σ : Site}, Stmt.Elab r result Γ s s' Γ' →
      Γ.Places σ size → Γ'.peak ≤ σ.limit size →
      (∀ o ∈ s'.occurrences σ, o.Resolved size) ∧ Γ'.Places (s'.behind σ) size
  | _, Γ, _, _, _, σ, .varDecl init _, hΓ, hpeak => by
    refine ⟨Expr.Elab.resolved init hΓ, hΓ.declare _ ((le_max_right _ _).trans hpeak) ?_⟩
    split
    · next hmain => simp [Site.depth, hmain, Origin.isGlobal]
    · rfl
  | _, _, _, _, _, _, .assign value target _ _, hΓ, _ => by
    rw [Stmt.occurrences, List.forall_mem_append]
    exact ⟨⟨Expr.Elab.resolved target hΓ, Expr.Elab.resolved value hΓ⟩, hΓ⟩
  | _, _, _, _, _, _, .print items, hΓ, _ => ⟨PrintItem.ElabAll.resolved items hΓ, hΓ⟩
  | _, _, _, _, _, _, .call call, hΓ, _ => ⟨Expr.Elab.resolved call hΓ, hΓ⟩
  | _, _, _, _, _, _, .give value _, hΓ, _ => ⟨Expr.Elab.resolved value hΓ, hΓ⟩
  | _, _, _, _, _, _, .leave, hΓ, _ => ⟨by simp [Stmt.occurrences], hΓ⟩
  | _, _, _, _, _, _, .ifThen cond _ body, hΓ, hpeak
  | _, _, _, _, _, _, .while cond _ body, hΓ, hpeak => by
    rw [Stmt.occurrences, List.forall_mem_append]
    exact ⟨⟨Expr.Elab.resolved cond hΓ, Stmt.ElabAll.resolved body hΓ.enter hpeak⟩, hΓ.leave _⟩
  | _, _, _, _, _, _, .ifElse cond _ body alternative, hΓ, hpeak => by
    have hbody := (Stmt.Elab.extends alternative).1.trans hpeak
    obtain ⟨halternative, hbehind⟩ := Stmt.Elab.resolved alternative (hΓ.leave _) hpeak
    rw [Stmt.occurrences, List.forall_mem_append, List.forall_mem_append]
    exact ⟨⟨⟨Expr.Elab.resolved cond hΓ, Stmt.ElabAll.resolved body hΓ.enter hbody⟩, halternative⟩,
      hbehind⟩
  | _, _, _, _, _, _, .block body, hΓ, hpeak =>
    ⟨Stmt.ElabAll.resolved body hΓ.enter hpeak, hΓ.leave _⟩

theorem Stmt.ElabAll.resolved {r : Rules} {size : Nat} :
    ∀ {result : Option Ty} {Γ Γ' : Ctx} {ss ss' : List Stmt} {σ : Site},
      Stmt.ElabAll r result Γ ss ss' Γ' → Γ.Places σ size → Γ'.peak ≤ σ.limit size →
      ∀ o ∈ Stmt.occurrencesAll σ ss', o.Resolved size
  | _, _, _, _, _, _, .nil, _, _ => by simp [Stmt.occurrencesAll]
  | _, _, _, _, _, σ, .cons head tail, hΓ, hpeak => by
    have htail := (Stmt.ElabAll.extends tail).1
    obtain ⟨hhead, hbehind⟩ := Stmt.Elab.resolved head hΓ (htail.trans hpeak)
    rw [Stmt.occurrencesAll, List.forall_mem_append]
    refine ⟨hhead, Stmt.ElabAll.resolved tail hbehind ?_⟩
    rwa [Stmt.limit_behind]

end

/-! ## Programs -/

lemma Func.DeclaredAll.peak_le : ∀ {Γ Γ' : Ctx} {fs fs' : List Func},
    Func.DeclaredAll Γ fs fs' Γ' → Γ.peak ≤ Γ'.peak
  | _, _, _, _, .nil => le_rfl
  | _, _, _, _, .cons _ tail => (le_max_left _ _).trans tail.peak_le

/-- The subroutines of a program are in sight behind their declarations. -/
lemma Func.DeclaredAll.places {size : Nat} : ∀ {Γ Γ' : Ctx} {fs fs' : List Func} {ds : List Declaration},
    Func.DeclaredAll Γ fs fs' Γ' → Γ.Places ⟨ds, []⟩ size → Γ'.peak ≤ size →
      Γ'.Places ⟨(Site.global fs').visible ++ ds, []⟩ size
  | _, _, _, _, _, .nil, hΓ, _ => by simpa [Site.global] using hΓ
  | _, _, _, _, ds, .cons _ tail, hΓ, hpeak => by
    have hused := (le_max_right _ _).trans (tail.peak_le.trans hpeak)
    have htail := tail.places (hΓ.declare .subroutine hused rfl) hpeak
    simpa [Site.global] using htail

/-- Checking the body of a subroutine does not change what it was declared as. -/
lemma Site.global_of_elab {r : Rules} {Γ : Ctx} {fs fs' : List Func}
    (h : List.Forall₂ (Func.Elab r Γ) fs fs') : Site.global fs' = Site.global fs := by
  induction h with
  | nil => rfl
  | cons head tail ih =>
    cases head with
    | intro => simpa [Site.global, FuncHead.completed] using ih

lemma Func.Elab.resolved {r : Rules} {Γ : Ctx} {f f' : Func} {σ : Site} {size : Nat}
    (h : Func.Elab r Γ f f') (hΓ : Γ.Places σ size) :
    ∀ o ∈ Stmt.occurrencesAll (σ.inFunc f'.head) f'.body, o.Resolved size := by
  cases h with
  | intro _ fresh body => exact Stmt.ElabAll.resolved body (hΓ.inFunc fresh f.head _).enter le_rfl

/-- The identifiers of a checked program stay inside their frames. -/
theorem Program.Elab.resolved {r : Rules} {p p' : Program} (h : Program.Elab r p p') :
    ∀ o ∈ p'.occurrences, o.Resolved p'.globalSize := by
  cases h with
  | @intro fs fs' Γ main' Γ' declared bodies main =>
    have hstart : Ctx.global.Places ⟨[], []⟩ Γ'.peak := ⟨.nil, rfl⟩
    have hΓ : Γ.Places (.global fs') Γ'.peak := by
      have hdeclared := declared.places hstart main.extends.1
      rw [List.append_nil] at hdeclared
      rw [Site.global_of_elab bodies]
      exact hdeclared
    rw [Program.occurrences, List.forall_mem_append, List.forall_mem_flatMap]
    refine ⟨?_, Stmt.ElabAll.resolved main hΓ.enter le_rfl⟩
    intro f hf
    obtain ⟨g, -, hg⟩ := exists_of_forall₂ bodies hf
    exact hg.resolved hΓ

/-- **Identifiers stay inside their own frame.** In a program that was read from tokens and checked without
an error, every identifier is bound to the innermost declaration in sight. In the main block that is a
declaration of the global block; in a subroutine it is one of the global block, or a parameter or a variable
of the innermost subroutine around the identifier, apart from the two saved words. -/
theorem Program.check_identifiers (tokens : List Token) (parsed : Report) (lambdas widening : Bool)
    {report : Report}
    (h : ((Program.parse tokens parsed lambdas).1.check ⟨standard, widening⟩ report).2.errorCount = 0) :
    let checked := ((Program.parse tokens parsed lambdas).1.check ⟨standard, widening⟩ report).1
    ∀ o ∈ checked.occurrences, o.Resolved checked.globalSize :=
  (Program.check_elab rfl (Program.isSource_parse tokens parsed lambdas) h).resolved

/-- A source where names are declared again in a block, as a parameter and in a subroutine inside of a
subroutine. -/
def shadowingSource : List Char :=
  "subr int f(int x, char c) {
{ var x := c; print x; }
var g := subr int (int y) { var x := y; return x + f(y, %141); };
return g(x);
}
main { var x := 1; { var y := x; x := f(y, %142); } print x; }".toList

theorem Program.check_identifiers_shadowingSource :
    let checked := (Program.parse (scan shadowingSource).tokens {} true).1.check ⟨standard, true⟩ {}
    checked.2.errorCount = 0 ∧ checked.1.occurrences.length = 13 ∧
      ∀ o ∈ checked.1.occurrences, o.Resolved checked.1.globalSize :=
  have hchecked :
      let checked := (Program.parse (scan shadowingSource).tokens {} true).1.check ⟨standard, true⟩ {}
      checked.2.errorCount = 0 ∧ checked.1.occurrences.length = 13 := by
    delta shadowingSource
    rw [String.toList_ofList]
    decide +kernel
  ⟨hchecked.1, hchecked.2, Program.check_identifiers _ {} true true hchecked.1⟩

end SubrLang
