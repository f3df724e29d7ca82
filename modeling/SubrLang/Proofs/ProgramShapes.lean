import SubrLang.Proofs.StatementShapes

/-!
# Shapes of whole programs

The code of a program is put together from the environment, the main block, the subroutines and the string
constants (`Program.layout`). All of it is shaped, at the sites that the parts expect.

* **Parts.** `Program.Elab.parts` takes the lowering of a checked program apart and says of each part what
  it defines and what it needs.
* **Labels.** Labels of the environment start with another character than those of families, so no label
  of a program is defined twice and every label that is mentioned is defined (`Program.Parts.assemblable`).
* **Flow.** Data between instructions do not matter for shapes; `Code.flowLines` leaves them out, and what
  is left of the whole program is shaped (`Program.Parts.shaped`).
-/

namespace SubrLang

open Code (Shaped)
open Registry (standard)
open Lower

/-! ## Code without data -/

namespace Instr

/-- Whether a line is executed or defines a code label. -/
def isFlow (i : Instr) : Bool := i.isCode || i.codeLabel?.isSome

variable {X : Sites} {i : Instr} {e e' : Entry}

/-- A shaped instruction lays out nothing. -/
lemma Shaped.isFlow (h : Shaped X i e e') :
    i.isFlow ∧ i.dataLabel? = none ∧ i.dataSize = 0 ∧ i.isSized := by
  cases h with
  | @test o l k s d tests _ => cases o <;> first | exact ⟨rfl, rfl, rfl, rfl⟩ | cases tests
  | _ => exact ⟨rfl, rfl, rfl, rfl⟩

/-- The labels that a shaped instruction mentions are known. -/
lemma Shaped.knows (h : Shaped X i e e') {l : Label} (hl : l ∈ i.mentioned?) :
    X.Knows l ∨ ∃ t : Trap, l = .text t.label := by
  have reaches : ∀ {e : Entry}, X.Reaches l e → X.Knows l ∨ ∃ t : Trap, l = .text t.label := by
    rintro e (htrap | hmem)
    · exact .inr htrap
    · exact .inl (.inr (List.mem_map_of_mem hmem))
  cases h with
  | pushD known =>
    cases hl
    exact .inl known
  | @test o l' k s d tests target =>
    have heq : l' = l := by
      cases o <;> first | cases tests; done | exact Option.some.inj hl
    exact reaches (heq ▸ target)
  | call allocator =>
    cases hl
    exact .inl (.inr (List.mem_map_of_mem allocator))
  | jump target =>
    cases hl
    exact reaches target
  | _ => cases hl

end Instr

namespace Code

/-- The lines that are executed or define code labels. -/
def flowLines (c : Code) : Code := c.filter (·.instr.isFlow)

variable (a b c : Code)

@[simp] lemma flowLines_append : (a ++ b).flowLines = a.flowLines ++ b.flowLines := by
  simp [flowLines]

@[simp] lemma instrs_flowLines : c.flowLines.instrs = c.instrs := by
  rw [instrs, flowLines, List.filter_filter, instrs]
  refine List.filter_congr fun line _ => ?_
  cases h : line.instr.isCode <;> simp [Instr.isFlow, h]

@[simp] lemma marks_flowLines (pc : Nat) : c.flowLines.marks pc = c.marks pc := by
  induction c generalizing pc with
  | nil => rfl
  | cons line c ih =>
    have hcons : flowLines (line :: c) =
        if line.instr.isFlow then line :: flowLines c else flowLines c := List.filter_cons
    rw [hcons]
    split
    · rw [marks, marks, ih]
    · next h =>
      have hcode : line.instr.isCode = false ∧ line.instr.codeLabel? = none := by
        simpa [Instr.isFlow] using h
      rw [ih, marks, hcode.2]
      simp [Instr.weight, hcode.1]

variable {c} {X : Sites} {e e' : Entry}

lemma Shaped.isFlow (h : Shaped X c e e') : ∀ line ∈ c, line.instr.isFlow ∧
    line.instr.dataLabel? = none ∧ line.instr.dataSize = 0 ∧ line.instr.isSized := by
  induction h with
  | nil => simp
  | cons head _ ih => exact List.forall_mem_cons.mpr ⟨head.isFlow, ih⟩
  | printf _ _ _ _ ih =>
    exact List.forall_mem_cons.mpr ⟨⟨rfl, rfl, rfl, rfl⟩,
      List.forall_mem_cons.mpr ⟨⟨rfl, rfl, rfl, rfl⟩, ih⟩⟩

lemma Shaped.flowLines_eq (h : Shaped X c e e') : c.flowLines = c :=
  List.filter_eq_self.mpr fun line hline => (h.isFlow line hline).1

lemma Shaped.dataLabels_eq (h : Shaped X c e e') : c.dataLabels = [] :=
  List.filterMap_eq_nil_iff.mpr fun line hline => (h.isFlow line hline).2.1

lemma Shaped.knows (h : Shaped X c e e') : ∀ l ∈ c.mentions,
    X.Knows l ∨ ∃ t : Trap, l = .text t.label := by
  induction h with
  | nil => simp
  | @cons i text c e e' e'' head _ ih =>
    intro l hl
    obtain ⟨line, hline, hm⟩ := List.mem_filterMap.mp hl
    rcases List.mem_cons.mp hline with rfl | hline
    · exact head.knows hm
    · exact ih l (List.mem_filterMap.mpr ⟨line, hline, hm⟩)
  | @printf l text words t₁ t₂ c s d e format takes known tail ih =>
    intro l' hl
    rcases List.mem_cons.mp (show l' ∈ .text l :: c.mentions from hl) with rfl | hl
    · exact .inl known
    · exact ih l' hl

end Code

/-! ## The parts of a program -/

/-- Storing the addresses of declared subroutines in their variables. -/
lemma Lower.makes_entries : ∀ {fs : List Func} {st st' : LowerState} {cs : List Code},
    (fs.mapM Func.lowerEntry).run st = .ok (cs, st') →
    (∀ f ∈ fs, ∀ l, PendingFunc.Checked ⟨l, f.head, f.body⟩) →
    ∀ d, Makes st [⟨cs.flatten, ⟨[], d⟩, ⟨[], d⟩⟩]
      (fs.map fun f => f.head ::ₘ Stmt.headsAll f.body).sum [] st'
  | [], _, _, _, hrun, _, d => by
    obtain ⟨rfl, rfl⟩ := run_pure hrun
    exact Makes.leaf rfl fun X _ => .nil
  | f :: fs, st, _, _, hrun, hchecked, d => by
    obtain ⟨c, st₁, cs, hc, hcs, rfl⟩ := run_mapM_cons hrun
    obtain ⟨l, st₃, hl, hrest⟩ := run_bind hc
    obtain ⟨b, st₄, hb, hpure⟩ := run_bind hrest
    obtain ⟨-, rfl⟩ := run_required hb
    obtain ⟨rfl, rfl⟩ := run_pure hpure
    rw [List.forall_mem_cons] at hchecked
    obtain ⟨hgrows, hpending⟩ := grows_enqueue hl (hchecked.1 l)
    have hentry : Makes st [⟨b.address ++
        (Code.pushD (Lowering.startLabel l)).note f.head.name ++ Code.ops [.storeI],
        ⟨[], d⟩, ⟨[], d⟩⟩] (f.head ::ₘ Stmt.headsAll f.body) [] st₁ := by
      refine Makes.bare hgrows (by simp [Binding.codeLabels_address]) fun X hX => ?_
      have hknows : X.Knows (.text (Lowering.startLabel l)) :=
        .inr (List.mem_map_of_mem (hX.starts _ hpending))
      exact ((Binding.shaped_address hX.toIsStandard).append (.single (.pushD hknows))).append
        (.single (.plain rfl))
    refine Makes.map (hentry.append (makes_entries hcs hchecked.2 d)) (by simp)
      fun X _ _ hshaped => ?_
    simp only [List.cons_append, List.nil_append, List.forall_mem_cons] at hshaped
    exact hshaped.1.append hshaped.2.1

namespace Program

/-- A program with a number of bytes for global variables, put together from its parts. -/
def layout (globalSize : Nat) (main bodies strings : Code) : Code :=
  Environment.heapInit ++ Environment.stackInit ++ Environment.body ++
    Code.cell Cell.globals (.int .dataZ globalSize) ++ Code.label mainLabel ++ main ++
    Code.ops [.halt] ++ bodies ++ strings ++ Environment.heap

/-- The state of lowering at the start of a program. -/
def initial (s : Settings) : LowerState where
  strings := { shared := s.feature .stringDedup, bucket_eq := StringTable.bucket_nil }

/-- The lowering of a program, part by part. -/
lemma exists_runs {s : Settings} {p : Program} {code : Code} (h : p.lower s = .ok code) :
    ∃ entries st₁ main st₂ bodies st₃,
      (p.funcs.mapM Func.lowerEntry).run (initial s) = .ok (entries, st₁) ∧
      (Stmt.lowerAll none p.main).run st₁ = .ok (main, st₂) ∧
      (drain s p.subroutines).run st₂ = .ok (bodies, st₃) ∧
      code = layout p.globalSize (entries.flatten ++ main) bodies st₃.strings.code := by
  unfold lower at h
  change Except.map _ ((p.lowerAll s).run (initial s)) = _ at h
  cases hrun : (p.lowerAll s).run (initial s) with
  | error e =>
    rw [hrun] at h
    cases h
  | ok x =>
    obtain ⟨c, st⟩ := x
    rw [hrun] at h
    cases h
    obtain ⟨entries, st₁, hentries, hrest⟩ := run_bind hrun
    obtain ⟨main, st₂, hmain, hrest'⟩ := run_bind hrest
    obtain ⟨bodies, st₃, hbodies, hrest''⟩ := run_bind hrest'
    obtain ⟨st₄, _, hget, hpure⟩ := run_bind hrest''
    cases hget
    obtain ⟨rfl, rfl⟩ := run_pure hpure
    refine ⟨entries, st₁, main, st₂, bodies, _, hentries, hmain, hbodies, ?_⟩
    simp only [layout, List.append_assoc]

/-- The parts of a program that depend on its source, with what is expected at their labels. -/
structure Parts where
  main : Code
  bodies : Code
  strings : StringTable
  subroutines : List PendingFunc
  sites : List (Label × Entry)
  labels : (sites.map (·.1) : Multiset Label) = (main.codeLabels ++ bodies.codeLabels : List Label)
  fresh : ∃ n, FreshLabels 0 n ((main.codeLabels ++ bodies.codeLabels : List Label) +
    (strings.entries.map fun x => .text x.2 : List Label))
  ends : ∀ p ∈ subroutines, p.sites ⊆ sites
  shaped : ∀ X : Sites, X.IsStandard → sites ⊆ X.code →
    (∀ x ∈ strings.entries, .text x.2 ∈ X.data) → Shaped X main ⟨[], none⟩ ⟨[], none⟩ ∧
      ∀ (b : Code) (e₀ : Entry), (∀ e, Shaped X b e₀ e) → ∀ e, Shaped X (b ++ bodies) e₀ e

/-- The parts of a program whose main block and whose queue were lowered. -/
lemma Parts.exists_of_drained {s : Settings} {st st' : LowerState} {main bodies : Code}
    {hs : Multiset FuncHead} {subroutines : List PendingFunc} {own' : List (Label × Entry)}
    (hm : Makes (initial s) [⟨main, ⟨[], none⟩, ⟨[], none⟩⟩] hs [] st)
    (hd : Drained st subroutines own' bodies st') :
    ∃ P : Parts, P.main = main ∧ P.bodies = bodies ∧ P.strings = st'.strings ∧
      P.subroutines = subroutines := by
  obtain ⟨hgrows, own, hown, hshaped⟩ := hm
  obtain ⟨ps, ss, hpending, hstrings, -, -, hfresh⟩ := hgrows
  obtain ⟨ls, ss', hstrings', hlabels, hfresh'⟩ := hd.fresh
  have hmain : (([⟨main, ⟨[], none⟩, ⟨[], none⟩⟩] : List Part).flatMap (·.code.codeLabels) :
    Multiset Label) = main.codeLabels := by simp
  have hpending : st.pending = ps := hpending
  have hstrings : st.strings.entries = ss := hstrings
  rw [hmain] at hown hfresh
  refine ⟨⟨main, bodies, st'.strings, subroutines, own ++ own', ?_, ⟨st'.families, ?_⟩, ?_, ?_⟩,
    rfl, rfl, rfl, rfl⟩
  · rw [List.map_append, ← Multiset.coe_add, ← Multiset.coe_add, hown, hd.labels]
  · change FreshLabels (initial s).families _ _
    convert hfresh.add hfresh' using 1
    rw [← Multiset.coe_add, hlabels, hpending, hstrings', hstrings, List.map_append,
      ← Multiset.coe_add]
    abel
  · exact fun p hp => List.Subset.trans (hd.sites p hp) (List.subset_append_right _ _)
  · intro X hX hsites hdata
    have hright := List.Subset.trans (List.subset_append_right own own') hsites
    have hcovers : X.Covers st := by
      refine ⟨hX, fun p hp => hright (hd.sites p (hd.queued hp) (.head _)), fun x hx => hdata x ?_⟩
      rw [hstrings']
      exact List.mem_append_left _ hx
    refine ⟨?_, hd.shaped X hX hright hdata⟩
    exact hshaped X hcovers (List.Subset.trans (List.subset_append_left own own') hsites)
      (List.nil_subset _) _ List.mem_cons_self

end Program

/-- A checked subroutine can be put into the queue. -/
lemma Func.Elab.checked {r : Rules} (hr : r.registry = standard) {Γ : Ctx} (hΓ : Γ.allValues)
    {f f' : Func} (h : Func.Elab r Γ f f') (hs : f.head.isSource && Stmt.areSource f.body)
    (l : LabelFamily) : PendingFunc.Checked ⟨l, f'.head, Stmt.applyWidenings standard f'.body⟩ := by
  rw [Bool.and_eq_true] at hs
  cases h with
  | @intro act b' Γ' params fresh body =>
    refine ⟨r, _, Γ', f.body, b', hr, ?_, ?_, hs.2, body, rfl⟩
    · exact Ctx.allValues_enter (Ctx.allValues_inFunc hΓ hs.1 params)
    · have hhead := hs.1
      simp only [FuncHead.isSource, Bool.and_eq_true] at hhead
      exact hhead.2

/-- What lowering makes of the declared subroutines and the main block of a checked program. -/
lemma Program.Elab.makes {r : Rules} (hr : r.registry = standard) {p p' : Program}
    (h : Program.Elab r p p') (hs : p.isSource) {s : Settings} {st₁ st₂ : LowerState}
    {entries : List Code} {main : Code}
    (hentries : ((p'.applyWidening standard).funcs.mapM Func.lowerEntry).run (initial s) =
      .ok (entries, st₁))
    (hmain : (Stmt.lowerAll none (p'.applyWidening standard).main).run st₁ = .ok (main, st₂)) :
    Makes (initial s) [⟨entries.flatten ++ main, ⟨[], none⟩, ⟨[], none⟩⟩]
      (p'.applyWidening standard).heads [] st₂ := by
  obtain ⟨hfuncs, hblock⟩ : (∀ f ∈ p.funcs, f.head.isSource && Stmt.areSource f.body) ∧
      Stmt.areSource p.main := by
    simpa [Program.isSource] using hs
  cases h with
  | @intro fs fs' Γ main' Γ' declared checked block =>
    have hΓ : Γ.allValues := declared.allValues
      (fun f hf => (Bool.and_eq_true _ _ ▸ hfuncs f hf).1) Ctx.allValues_global
    have hchecked : ∀ f ∈ fs'.map fun f => { f with body := Stmt.applyWidenings standard f.body },
        ∀ l, PendingFunc.Checked ⟨l, f.head, f.body⟩ := by
      intro f hf l
      obtain ⟨f', hf', rfl⟩ := List.mem_map.mp hf
      obtain ⟨f₀, hf₀, hrules⟩ := exists_of_forall₂ checked hf'
      exact hrules.checked hr hΓ (declared.isSource hfuncs f₀ hf₀) l
    refine Makes.map ((makes_entries hentries hchecked none).append
      (Stmt.ElabAll.makes hr block nofun (Ctx.allValues_enter hΓ) hblock hmain)) (by simp)
      fun X _ _ hshaped => ?_
    simp only [List.cons_append, List.nil_append, List.forall_mem_cons] at hshaped
    exact hshaped.1.append hshaped.2.1

/-- The code of a checked program has parts, and its subroutines are all those of the tree. -/
theorem Program.Elab.exists_parts {r : Rules} (hr : r.registry = standard) {p p' : Program}
    (h : Program.Elab r p p') (hs : p.isSource) {s : Settings} {code : Code}
    (hrun : (p'.applyWidening standard).lower s = .ok code) :
    ∃ P : Program.Parts, code = layout p'.globalSize P.main P.bodies P.strings.code ∧
      (P.subroutines.map (·.head) : Multiset FuncHead) = (p'.applyWidening standard).heads := by
  obtain ⟨entries, st₁, main, st₂, bodies, st₃, hentries, hblock, hdrain, rfl⟩ := exists_runs hrun
  have hmakes := h.makes hr hs hentries hblock
  obtain ⟨ps, -, hpending, -, hps, hheads, -⟩ := hmakes.1
  have hpending : st₂.pending = ps := hpending
  subst hpending
  have hfuel := (congrArg Multiset.card hheads).trans (Program.card_heads _)
  obtain ⟨subroutines, own, hdrained⟩ := drained_drain hdrain hps hfuel.le
  obtain ⟨P, hmain, rfl, hstrings, hsubroutines⟩ := Parts.exists_of_drained hmakes hdrained
  refine ⟨P, ?_, by rw [hsubroutines, hdrained.heads, hheads]⟩
  rw [hmain, hstrings]
  rfl

/-! ## The environment -/

namespace Environment

open Code

/-- What stands in front of the global variables. -/
def prelude : Code := heapInit ++ stackInit ++ body

/-- What is expected at the code labels of the environment. -/
def sites : List (Label × Entry) :=
  (.text Trap.printLabel, ⟨[.int], none⟩) :: Trap.all.map (fun t => (.text t.label, ⟨[], none⟩)) ++
    [(.text mainLabel, ⟨[], none⟩), (.text allocateLabel, Entry.allocator),
      (.text zeroLoop, ⟨[.int, .int], some [.int]⟩), (.text zeroDone, ⟨[.int, .int], some [.int]⟩)]

/-- The labels of the data of the environment. -/
def dataLabels : List Label :=
  Code.dataLabels prelude ++ .text Cell.globals :: Code.dataLabels heap

/-- Whether sites have the labels of the environment. -/
structure Covered (X : Sites) : Prop where
  code : sites ⊆ X.code
  data : dataLabels ⊆ X.data

variable {X : Sites} (hX : Covered X)
include hX

lemma Covered.isStandard : X.IsStandard where
  mem_cells := by
    have hcells : ∀ x ∈ cells, Label.text x ∈ dataLabels := by decide
    exact fun x hx => .inl (hX.data (hcells x hx))
  format := by
    intro f
    refine .inl (hX.data ?_)
    cases f <;> decide
  allocator := hX.code (by decide)

lemma shaped_prelude : Shaped X prelude.flowLines ⟨[], none⟩ ⟨[], none⟩ := by
  have hS := hX.isStandard
  have hprint : (.text Trap.printLabel, ⟨[.int], none⟩) ∈ X.code := hX.code (by decide)
  have hmain : (.text mainLabel, ⟨[], none⟩) ∈ X.code := hX.code (by decide)
  have htrap : ∀ t : Trap, (.text t.label, ⟨[], none⟩) ∈ X.code ∧ X.Knows (.text t.messageLabel) := by
    intro t
    cases t <;> exact ⟨hX.code (by decide), .inl (hX.data (by decide))⟩
  have hinit : Shaped X (heapInit ++ stackInit) ⟨[], none⟩ ⟨[], none⟩ :=
    Shaped.straight hS.allocator (by simp [heapInit, stackInit, hS.cells]) rfl
  have hfail : Shaped X (jump mainLabel ++ label Trap.printLabel ++ pushD Trap.formatLabel ++
      ops [.printf, .halt]) ⟨[], none⟩ ⟨[], none⟩ :=
    .cons (.jump (.inr hmain)) (.cons (.label hprint) (@Shaped.printf X _ _ [.int] _ _ _ _ _ _
      (.head _) rfl (.inl (hX.data (by decide))) (.single .halt)))
  have htraps : ∀ ts : List Trap, Shaped X (ts.flatMap fun t => label t.label ++
      pushD t.messageLabel ++ jump Trap.printLabel) ⟨[], none⟩ ⟨[], none⟩ := by
    intro ts
    induction ts with
    | nil => exact .nil
    | cons t ts ih =>
      exact .cons (.label (htrap t).1) (.cons (.pushD (htrap t).2) (.cons (.jump (.inr hprint)) ih))
  exact (hinit.append hfail).append (htraps Trap.all)

/-- The allocator replaces a size by an address and leaves the return address for the return. -/
lemma shaped_heap {e : Entry} : Shaped X heap.flowLines Entry.allocator e := by
  have hS := hX.isStandard
  have hloop : (.text zeroLoop, ⟨[.int, .int], some [.int]⟩) ∈ X.code := hX.code (by decide)
  have hdone : (.text zeroDone, ⟨[.int, .int], some [.int]⟩) ∈ X.code := hX.code (by decide)
  have hblock : Shaped X (ops [.exchange] ++ load Cell.heapNextFree ++ ops [.exchange] ++
      load Cell.heapNextFree ++ ops [.add, .duplicate] ++ load Cell.stackPointer ++
      ops [.subtract] ++ branch .jumpPos Trap.heapExhausted.label ++ store Cell.heapNextFree ++
      ops [.duplicate] ++ store Cell.heapCursor) Entry.allocator ⟨[.int, .int], some [.int]⟩ :=
    Shaped.straight hS.allocator (by simp [hS.cells]) rfl
  have hdistance : Shaped X (load Cell.heapCursor ++ load Cell.heapNextFree ++ ops [.subtract])
      ⟨[.int, .int], some [.int]⟩ ⟨[.int, .int, .int], some [.int]⟩ :=
    Shaped.straight hS.allocator (by simp [hS.cells]) rfl
  have hclear : Shaped X (load Cell.heapCursor ++ pushI 0 ++ ops [.storeC] ++
      pushD Cell.heapCursor ++ load Cell.heapCursor ++ plus 1 ++ ops [.storeI])
      ⟨[.int, .int], some [.int]⟩ ⟨[.int, .int], some [.int]⟩ :=
    Shaped.straight hS.allocator (by simp [hS.cells]) rfl
  have hreturn : Shaped X (jump zeroLoop ++ label zeroDone ++ ops [.exchange, .return])
      ⟨[.int, .int], some [.int]⟩ e :=
    .cons (.jump (.inr hloop)) (.cons (.label hdone) (.cons (.plain rfl) (.single .return)))
  exact ((((((Shaped.single (.label hS.allocator)).append hblock).append
    (.single (.label hloop))).append hdistance).append
    (.single (.test (o := .jumpFalse) rfl (.inr hdone)))).append hclear).append hreturn

end Environment

namespace Program

lemma flowLines_strings (t : StringTable) : t.code.flowLines = [] := by
  unfold StringTable.code
  induction t.entries with
  | nil => rfl
  | cons x xs ih =>
    rw [List.flatMap_cons, Code.flowLines_append, ih]
    rfl

namespace Parts

variable (P : Parts)

/-- What is expected at all labels of a program. -/
def allSites : Sites where
  code := Environment.sites ++ P.sites
  data := Environment.dataLabels ++ P.strings.entries.map fun x => .text x.2

lemma covered : Environment.Covered P.allSites :=
  ⟨List.subset_append_left _ _, List.subset_append_left _ _⟩

/-- The main block and the subroutines. -/
def text : Code := P.main ++ Code.ops [.halt] ++ P.bodies

lemma shaped_text (e : Entry) : Shaped P.allSites P.text ⟨[], none⟩ e := by
  obtain ⟨hmain, hbodies⟩ := P.shaped P.allSites P.covered.isStandard (List.subset_append_right _ _)
    fun _ hx => List.mem_append_right _ (List.mem_map_of_mem hx)
  exact hbodies _ _ (fun _ => hmain.append (.single .halt)) e

/-- The code of the program. -/
def code (globalSize : Nat) : Code := layout globalSize P.main P.bodies P.strings.code

lemma code_eq (globalSize : Nat) : P.code globalSize = Environment.prelude ++
    Code.cell Cell.globals (.int .dataZ globalSize) ++ Code.label mainLabel ++ P.text ++
    P.strings.code ++ Environment.heap := by
  simp only [code, layout, Environment.prelude, text, List.append_assoc]

/-- The whole program is shaped. -/
lemma shaped_code (globalSize : Nat) (e : Entry) :
    Shaped P.allSites (P.code globalSize).flowLines ⟨[], none⟩ e := by
  have hmain : Shaped P.allSites (Code.label mainLabel) ⟨[], none⟩ ⟨[], none⟩ :=
    .single (.label (P.covered.code (by decide)))
  have hglobals : (Code.cell Cell.globals (.int .dataZ globalSize)).flowLines = [] := rfl
  simp only [code_eq, Code.flowLines_append, hglobals, hmain.flowLines_eq,
    (P.shaped_text Entry.allocator).flowLines_eq, flowLines_strings, List.append_nil]
  exact (((Environment.shaped_prelude P.covered).append hmain).append
    (P.shaped_text Entry.allocator)).append (Environment.shaped_heap P.covered)

end Parts

end Program

/-! ## The labels of a program -/

/-- The first character of a label. -/
def Label.first? : Label → Option Char
  | .text s => s.toList.head?
  | .bytes _ _ => none

lemma Label.Numbered.first? {lo hi : Nat} {l : Label} (h : l.Numbered lo hi) : l.first? = some '-' := by
  obtain ⟨f, role, rfl, -⟩ := h
  simp [Label.first?, LabelFamily.toList_label]

namespace Environment

/-- The code labels of the environment. -/
def codeLabels : List Label :=
  Code.codeLabels prelude ++ .text mainLabel :: Code.codeLabels heap

lemma nodup_labels : (codeLabels ++ dataLabels).Nodup := by decide

lemma first?_labels : ∀ l ∈ codeLabels ++ dataLabels, l.first? = some '$' := by decide

lemma defined_labels : ∀ l ∈ Code.mentions prelude ++ Code.mentions heap,
    l ∈ codeLabels ∨ l ∈ dataLabels := by
  decide

lemma map_fst_sites : ∀ x ∈ sites, x.1 ∈ codeLabels := by decide

/-- The texts that the environment keeps, with their labels: formats and the messages of traps. -/
def texts : List (String × String) := formats ++ Trap.all.map fun t => (t.messageLabel, t.message)

lemma dataOf_textCell (ls : Labels) (l text : String) :
    (textCell l text).dataOf ls = Text.Utf8.encode text ++ [0] := by
  simp [textCell, Code.cell, Code.dataOf, Assemble.laidOut, Assemble.chunk, Chunk.toList]

lemma trapBlocks_isInfix : trapBlocks <:+: prelude := (List.suffix_append _ _).isInfix.trans
  (List.suffix_append (heapInit ++ stackInit) body).isInfix

lemma trapBlock_isInfix (t : Trap) : trapBlock t <:+: prelude := by
  have ht : t ∈ Trap.all := by cases t <;> decide
  have hblock : trapBlock t <:+: Trap.all.flatMap trapBlock :=
    List.infix_of_mem_flatten (List.mem_map_of_mem ht)
  exact (hblock.trans (List.suffix_append _ _).isInfix).trans trapBlocks_isInfix

lemma textCell_isInfix {x : String × String} (h : x ∈ texts) : textCell x.1 x.2 <:+: prelude := by
  simp only [texts, formats, List.cons_append, List.mem_cons, List.mem_append, List.mem_map] at h
  rcases h with rfl | ⟨f, hf, rfl⟩ | ⟨t, ht, rfl⟩
  · refine List.IsInfix.trans ?_ trapBlocks_isInfix
    exact ⟨[], _, by simp only [trapBlocks, List.nil_append, List.append_assoc]; rfl⟩
  · have hformats : textCell f.label f.text <:+:
        PrintFormat.all.flatMap (fun f => textCell f.label f.text) :=
      List.infix_of_mem_flatten (List.mem_map_of_mem hf)
    refine hformats.trans ⟨heapInit ++ stackInit ++ (Code.jump mainLabel ++
      Code.cell "$eat-location-zero" (.int .dataZ 8) ++ wordCell Cell.stackPointer ++
      wordCell Cell.framePointer), Cell.scratch.flatMap wordCell ++ trapBlocks, ?_⟩
    simp only [prelude, body, List.append_assoc]
  · refine List.IsInfix.trans ?_ (trapBlock_isInfix t)
    exact ⟨[], _, by simp only [trapBlock, List.nil_append, List.append_assoc]; rfl⟩

/-- The texts of the environment are in the static data of a program, each with a zero byte behind it. -/
lemma exists_text_prelude {b : Code} (hb : Code.Assemblable (prelude ++ b)) {x : String × String}
    (h : x ∈ texts) : ∃ n, (.text x.1, n) ∈ Code.addresses 0 prelude ∧
      Text.Utf8.encode x.2 ++ [0] <+: (Code.image (prelude ++ b)).data.drop n := by
  obtain ⟨a, c, hac⟩ := textCell_isInfix h
  have hprelude : prelude = a ++ (textCell x.1 x.2 ++ c) := by rw [← hac, List.append_assoc]
  have hcode : prelude ++ b = a ++ (textCell x.1 x.2 ++ (c ++ b)) := by
    rw [hprelude]
    simp only [List.append_assoc]
  rw [hcode] at hb ⊢
  refine ⟨Code.bytes a, ?_, ?_⟩
  · rw [hprelude]
    exact Code.mem_addresses_cell a _ _ _
  · rw [Code.drop_data_image hb, Code.dataOf_append, dataOf_textCell]
    exact List.prefix_append _ _

end Environment

namespace Program

namespace Parts

variable (P : Parts) (globalSize : Nat)

lemma codeLabels_text : P.text.codeLabels = P.main.codeLabels ++ P.bodies.codeLabels := by
  simp [text]

/-- The labels of the string constants. -/
def stringLabels : List Label := P.strings.entries.map fun x => .text x.2

lemma labels_strings : P.strings.code.codeLabels = [] ∧ P.strings.code.dataLabels = P.stringLabels ∧
    P.strings.code.mentions = [] ∧ ∀ line ∈ P.strings.code, line.instr.isSized := by
  unfold StringTable.code stringLabels
  induction P.strings.entries with
  | nil => exact ⟨rfl, rfl, rfl, by simp⟩
  | cons x xs ih =>
    obtain ⟨hcode, hdata, hmentions, hsized⟩ := ih
    simp only [List.flatMap_cons, Code.codeLabels_append, Code.dataLabels_append,
      Code.mentions_append, hcode, hdata, hmentions, List.forall_mem_append]
    exact ⟨rfl, rfl, rfl, by simp [StringRecord.code, StringRecord.ofBytes, Code.cell, Code.one,
      Instr.isSized], hsized⟩

lemma codeLabels_code : ((P.code globalSize).codeLabels : Multiset Label) =
    Environment.codeLabels + (P.text.codeLabels : List Label) := by
  have hcell : (Code.cell Cell.globals (.int .dataZ globalSize)).codeLabels = [] := rfl
  simp only [code_eq, Code.codeLabels_append, hcell, P.labels_strings.1, Code.codeLabels_label,
    Environment.codeLabels, ← Multiset.coe_add, ← Multiset.cons_coe, Multiset.coe_nil,
    ← Multiset.singleton_add]
  abel

lemma dataLabels_code : ((P.code globalSize).dataLabels : Multiset Label) =
    Environment.dataLabels + (P.stringLabels : List Label) := by
  have hcell : (Code.cell Cell.globals (.int .dataZ globalSize)).dataLabels =
    [.text Cell.globals] := rfl
  have hmain : (Code.label mainLabel).dataLabels = [] := rfl
  simp only [code_eq, Code.dataLabels_append, hcell, hmain, P.labels_strings.2.1,
    (P.shaped_text Entry.allocator).dataLabels_eq, Environment.dataLabels, ← Multiset.coe_add,
    ← Multiset.cons_coe, Multiset.coe_nil, ← Multiset.singleton_add]
  abel

lemma mem_codeLabels_code {l : Label} : l ∈ (P.code globalSize).codeLabels ↔
    l ∈ Environment.codeLabels ∨ l ∈ P.text.codeLabels := by
  rw [← Multiset.mem_coe, codeLabels_code, Multiset.mem_add, Multiset.mem_coe, Multiset.mem_coe]

lemma mem_dataLabels_code {l : Label} : l ∈ (P.code globalSize).dataLabels ↔
    l ∈ Environment.dataLabels ∨ l ∈ P.stringLabels := by
  rw [← Multiset.mem_coe, dataLabels_code, Multiset.mem_add, Multiset.mem_coe, Multiset.mem_coe]

/-- No label of a program is defined twice. -/
lemma nodup_labels_code :
    ((P.code globalSize).codeLabels ++ (P.code globalSize).dataLabels).Nodup := by
  obtain ⟨n, hfresh⟩ := P.fresh
  rw [← codeLabels_text] at hfresh
  have hall : (((P.code globalSize).codeLabels ++ (P.code globalSize).dataLabels : List Label) :
      Multiset Label) = (Environment.codeLabels ++ Environment.dataLabels : List Label) +
        ((P.text.codeLabels : List Label) + (P.stringLabels : List Label)) := by
    rw [← Multiset.coe_add, codeLabels_code, dataLabels_code, ← Multiset.coe_add]
    abel
  rw [← Multiset.coe_nodup, hall, Multiset.nodup_add]
  refine ⟨Environment.nodup_labels, hfresh.nodup, Multiset.disjoint_left.mpr fun {l} hl hl' => ?_⟩
  have hdollar := Environment.first?_labels l hl
  rw [(hfresh.numbered l hl').first?] at hdollar
  simp at hdollar

/-- Labels at which something is expected are defined. -/
lemma defined_of_knows {l : Label} (h : P.allSites.Knows l ∨ ∃ t : Trap, l = .text t.label) :
    l ∈ (P.code globalSize).codeLabels ∨ l ∈ (P.code globalSize).dataLabels := by
  rw [mem_codeLabels_code, mem_dataLabels_code]
  rcases h with (hdata | hcode) | ⟨t, rfl⟩
  · exact .inr (List.mem_append.mp hdata)
  · simp only [allSites, List.map_append, List.mem_append] at hcode
    rcases hcode with hcode | hcode
    · obtain ⟨x, hx, rfl⟩ := List.mem_map.mp hcode
      exact .inl (.inl (Environment.map_fst_sites x hx))
    · rw [← Multiset.mem_coe, P.labels, ← codeLabels_text] at hcode
      exact .inl (.inr hcode)
  · have htrap : Label.text t.label ∈ Environment.codeLabels := by cases t <;> decide
    exact .inl (.inl htrap)

lemma defined_code : ∀ l ∈ (P.code globalSize).mentions,
    l ∈ (P.code globalSize).codeLabels ∨ l ∈ (P.code globalSize).dataLabels := by
  have hcell : (Code.cell Cell.globals (.int .dataZ globalSize)).mentions = [] := rfl
  have hmain : (Code.label mainLabel).mentions = [] := rfl
  have henv : ∀ l, l ∈ Environment.codeLabels ∨ l ∈ Environment.dataLabels →
      l ∈ (P.code globalSize).codeLabels ∨ l ∈ (P.code globalSize).dataLabels := by
    intro l hl
    rw [mem_codeLabels_code, mem_dataLabels_code]
    exact hl.imp .inl .inl
  intro l hl
  conv at hl => rw [code_eq]
  simp only [Code.mentions_append, hcell, hmain, P.labels_strings.2.2.1, List.append_nil,
    List.mem_append] at hl
  rcases hl with (hl | hl) | hl
  · exact henv l (Environment.defined_labels l (List.mem_append_left _ hl))
  · exact P.defined_of_knows globalSize ((P.shaped_text Entry.allocator).knows l hl)
  · exact henv l (Environment.defined_labels l (List.mem_append_right _ hl))

lemma sized_code_iff : (∀ line ∈ P.code globalSize, line.instr.isSized) ↔ globalSize ≤ maxBytes := by
  have henv : (∀ line ∈ Environment.prelude, line.instr.isSized) ∧
      ∀ line ∈ Environment.heap, line.instr.isSized :=
    ⟨List.all_eq_true.mp rfl, List.all_eq_true.mp rfl⟩
  have htext : ∀ line ∈ P.text, line.instr.isSized := fun line hline =>
    ((P.shaped_text Entry.allocator).isFlow line hline).2.2.2
  have hcell : (∀ line ∈ Code.cell Cell.globals (.int .dataZ globalSize), line.instr.isSized) ↔
      globalSize ≤ maxBytes := by
    simp [Code.cell, Instr.isSized]
  have hmain : ∀ line ∈ Code.label mainLabel, line.instr.isSized := by
    simp [Code.label, Code.one, Instr.isSized]
  simp only [code_eq, List.forall_mem_append, hcell]
  exact ⟨fun h => h.1.1.1.1.2,
    fun h => ⟨⟨⟨⟨⟨henv.1, h⟩, hmain⟩, htext⟩, P.labels_strings.2.2.2⟩, henv.2⟩⟩

variable {globalSize} in
lemma assemblable (h : globalSize ≤ maxBytes) : (P.code globalSize).Assemblable :=
  ⟨(P.sized_code_iff globalSize).mpr h, P.nodup_labels_code globalSize, P.defined_code globalSize⟩

/-- A program can be assembled exactly if there are addresses for its global variables. -/
lemma assemble_eq_ok_iff {img : Image} : (P.code globalSize).assemble = .ok img ↔
    globalSize ≤ maxBytes ∧ img = (P.code globalSize).image := by
  constructor
  · intro h
    have hsize := (P.sized_code_iff globalSize).mp (Code.isSized_of_assemble h)
    rw [Code.assemble_eq (P.assemblable hsize)] at h
    exact ⟨hsize, (Except.ok.inj h).symm⟩
  · rintro ⟨hsize, rfl⟩
    exact Code.assemble_eq (P.assemblable hsize)

variable {globalSize} in
lemma exists_text (hsize : globalSize ≤ maxBytes) {x : String × String}
    (h : x ∈ Environment.texts) : ∃ n, (.text x.1, n) ∈ (P.code globalSize).addresses 0 ∧
      Text.Utf8.encode x.2 ++ [0] <+: (P.code globalSize).image.data.drop n := by
  obtain ⟨b, hb⟩ : ∃ b, P.code globalSize = Environment.prelude ++ b :=
    ⟨_, by rw [code_eq]; simp only [List.append_assoc]; rfl⟩
  have hassemblable := P.assemblable hsize
  rw [hb] at hassemblable ⊢
  obtain ⟨n, hn, hdata⟩ := Environment.exists_text_prelude hassemblable h
  refine ⟨n, ?_, hdata⟩
  rw [Code.addresses_append]
  exact List.mem_append_left _ hn

end Parts

end Program

end SubrLang
