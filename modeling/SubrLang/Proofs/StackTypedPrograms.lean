import SubrLang.Proofs.AcceptedSources
import SubrLang.Proofs.ProgramShapes

/-!
# Compiled programs are stack-typed

From shaped code one can read off the shape of the operand stack at every instruction of the assembled
program.

* **Assignments.** `Code.Shaped.exists_assigned` turns the judgement on code into an assignment of entries
  to the numbers of instructions, which agrees with what is expected at labels.
* **Typing.** `Code.StackTyped` says what an assignment has to fulfil: every instruction finds the words
  that it needs, control comes to each label with the same shape from everywhere, and subroutines, the
  allocator and the main block are entered as they expect. Traps can be entered with any shape, since
  `Code.Halts` from there on.
* **Result.** `compile_stackTyped` is the theorem for compiled sources.
-/

namespace SubrLang

open Code (Shaped)
open Registry (standard)

namespace Code

/-! ## Assignments -/

/-- The instruction behind the one with the number `j` prints through the format that it pushes, no label
stands between the two, and the words that the format takes are there. -/
structure Prints (X : Sites) (pc : Nat) (c : Code) (τ : Nat → Entry) (j : Nat) (l text : String)
    (words s : Shape) (d : Option Shape) : Prop where
  format : (l, text) ∈ Environment.formats
  takes : formatWords text = some words
  known : X.Knows (.text l)
  push : c.instrs[j]?.map (·.instr) = some (.label .pushD (.text l))
  print : c.instrs[j + 1]?.map (·.instr) = some (.plain .printf)
  unlabelled : ∀ p ∈ c.marks pc, p.2 ≠ pc + j + 1
  before : τ (pc + j + 1) = ⟨.int :: (words ++ s), d⟩
  behind : τ (pc + j + 2) = ⟨s, d⟩

/-- The entries assigned to the instructions of a part of a program, which stands behind `pc` others,
agree with what is expected at labels. -/
structure Assigned (X : Sites) (pc : Nat) (c : Code) (τ : Nat → Entry) : Prop where
  labels : ∀ p ∈ c.marks pc, (p.1, τ p.2) ∈ X.code
  fits : ∀ k line, c.instrs[k]? = some line →
    Instr.Shaped X line.instr (τ (pc + k)) (τ (pc + k + 1)) ∨
      ∃ j l text words s d, k = j + 1 ∧ c.Prints X pc τ j l text words s d

variable {X : Sites} {pc : Nat} {a c : Code} {τ τ' : Nat → Entry}

/-- Only the entries of the part itself and the one behind it matter. -/
lemma Assigned.congr (h : Assigned X pc c τ) (hτ : ∀ n, pc ≤ n → τ' n = τ n) :
    Assigned X pc c τ' := by
  refine ⟨fun p hp => ?_, fun k line hline => ?_⟩
  · rw [hτ p.2 (le_of_mem_marks c hp).1]
    exact h.labels p hp
  · rw [hτ _ (by omega), hτ _ (by omega)]
    refine (h.fits k line hline).imp id ?_
    rintro ⟨j, l, text, words, s, d, hk, hp⟩
    exact ⟨j, l, text, words, s, d, hk, { hp with
      before := (hτ _ (by omega)).trans hp.before
      behind := (hτ _ (by omega)).trans hp.behind }⟩

/-- Code in front of a part with an assignment. -/
lemma Assigned.append (h : Assigned X (pc + a.instrs.length) c τ)
    (hlabels : ∀ p ∈ a.marks pc, (p.1, τ p.2) ∈ X.code)
    (hfits : ∀ k line, a.instrs[k]? = some line →
      Instr.Shaped X line.instr (τ (pc + k)) (τ (pc + k + 1)) ∨
        ∃ j l text words s d, k = j + 1 ∧ (a ++ c).Prints X pc τ j l text words s d) :
    Assigned X pc (a ++ c) τ := by
  refine ⟨?_, fun k line hline => ?_⟩
  · rw [marks_append]
    exact List.forall_mem_append.mpr ⟨hlabels, h.labels⟩
  · rw [instrs_append] at hline
    by_cases hk : k < a.instrs.length
    · rw [List.getElem?_append_left hk] at hline
      exact hfits k line hline
    · obtain ⟨n, rfl⟩ := Nat.exists_eq_add_of_le (Nat.not_lt.mp hk)
      rw [List.getElem?_append_right (by omega), Nat.add_sub_cancel_left] at hline
      rw [← Nat.add_assoc]
      refine (h.fits n line hline).imp id ?_
      rintro ⟨j, l, text, words, s, d, rfl, hp⟩
      have hshift : pc + a.instrs.length + j = pc + (a.instrs.length + j) := Nat.add_assoc ..
      refine ⟨a.instrs.length + j, l, text, words, s, d, rfl, hp.format, hp.takes, hp.known, ?_, ?_,
        ?_, hshift ▸ hp.before, hshift ▸ hp.behind⟩
      · rw [instrs_append, List.getElem?_append_right (by omega), Nat.add_sub_cancel_left]
        exact hp.push
      · rw [instrs_append, List.getElem?_append_right (by omega),
          show a.instrs.length + j + 1 - a.instrs.length = j + 1 by omega]
        exact hp.print
      · rw [marks_append, ← hshift]
        refine List.forall_mem_append.mpr ⟨fun p hp => ?_, hp.unlabelled⟩
        have := le_of_mem_marks a hp
        omega

end Code

lemma Instr.Shaped.isCode_or_label {X : Sites} {i : Instr} {e e' : Entry}
    (h : Instr.Shaped X i e e') : (i.isCode ∧ i.codeLabel? = none) ∨
      ∃ l, i = .label .label l ∧ e = e' ∧ (l, e) ∈ X.code := by
  cases h with
  | @test o l k s d tests _ => exact .inl (by cases o <;> first | exact ⟨rfl, rfl⟩ | cases tests)
  | label site => exact .inr ⟨_, rfl, rfl, site⟩
  | _ => exact .inl ⟨rfl, rfl⟩

/-- Shaped code has an assignment of entries to its instructions. -/
theorem Code.Shaped.exists_assigned {X : Sites} {c : Code} {e e' : Entry} (h : Shaped X c e e') :
    ∀ pc, ∃ τ, τ pc = e ∧ Code.Assigned X pc c τ := by
  induction h with
  | @nil e => exact fun pc => ⟨fun _ => e, rfl, by simp [marks], by simp⟩
  | @cons i text c e e' e'' head _ ih =>
    intro pc
    rcases head.isCode_or_label with ⟨hcode, hlabel⟩ | ⟨l, rfl, rfl, hsite⟩
    · obtain ⟨τ, hstart, hτ⟩ := ih (pc + 1)
      have hinstrs : Code.instrs [⟨i, text⟩] = [⟨i, text⟩] := by simp [Code.instrs, hcode]
      refine ⟨Function.update τ pc e, Function.update_self .., .append (a := [⟨i, text⟩]) ?_ ?_ ?_⟩
      · rw [hinstrs]
        exact hτ.congr fun n hn => Function.update_of_ne (by simp at hn; omega) _ _
      · simp [marks, hlabel]
      · intro k line hline
        rw [hinstrs, List.getElem?_singleton] at hline
        obtain ⟨rfl, rfl⟩ : k = 0 ∧ ⟨i, text⟩ = line := by
          split at hline <;> simp_all
        left
        simpa [hstart] using head
    · obtain ⟨τ, hstart, hτ⟩ := ih pc
      refine ⟨τ, hstart, .append (a := [⟨.label .label l, text⟩]) hτ ?_ (by simp [Code.instrs, Instr.isCode])⟩
      simpa [marks, Instr.codeLabel?, hstart] using hsite
  | @printf l text words t₁ t₂ c s d e format takes known tail ih =>
    intro pc
    obtain ⟨τ, hstart, hτ⟩ := ih (pc + 2)
    obtain ⟨τ', hfirst, hbefore, hlater⟩ : ∃ τ' : Nat → Entry, τ' pc = ⟨words ++ s, d⟩ ∧
        τ' (pc + 1) = ⟨.int :: (words ++ s), d⟩ ∧ ∀ n, pc + 2 ≤ n → τ' n = τ n := by
      refine ⟨Function.update (Function.update τ (pc + 1) ⟨.int :: (words ++ s), d⟩) pc
        ⟨words ++ s, d⟩, Function.update_self .., ?_, fun n hn => ?_⟩
      · rw [Function.update_of_ne (by omega), Function.update_self]
      · rw [Function.update_of_ne (by omega), Function.update_of_ne (by omega)]
    refine ⟨τ', hfirst, .append (a := [⟨.label .pushD (.text l), t₁⟩, ⟨.plain .printf, t₂⟩])
      (hτ.congr hlater) (by simp [marks, Instr.codeLabel?]) ?_⟩
    intro k line hline
    rcases k with _ | _ | k
    · cases hline
      left
      rw [Nat.add_zero, hfirst, hbefore]
      exact .pushD known
    · right
      refine ⟨0, l, text, words, s, d, rfl, format, takes, known, rfl, rfl, fun p hp => ?_,
        hbefore, (hlater _ (by omega)).trans hstart⟩
      have hle : pc + 2 ≤ p.2 := (le_of_mem_marks c hp).1
      omega
    · cases hline

/-! ## Typings of programs -/

namespace Code

/-- The number of the instruction that a code label stands for. -/
def place? (c : Code) (l : Label) : Option Nat := (c.marks 0).lookup l

/-- What an assignment expects at the labels of a program. -/
def sites (c : Code) (τ : Nat → Entry) : Sites where
  code := (c.marks 0).map fun p => (p.1, τ p.2)
  data := c.dataLabels

/-- From an instruction on the program comes to a halt, whatever words are below those that it pushes
itself. -/
inductive Halts (c : Code) : Nat → Shape → Prop
  | halt {i text s} (here : c.instrs[i]? = some ⟨.plain .halt, text⟩) : Halts c i s
  | push {i l text s} (here : c.instrs[i]? = some ⟨.label .pushD l, text⟩)
      (next : Halts c (i + 1) (.int :: s)) : Halts c i s
  | jump {i l text j s} (here : c.instrs[i]? = some ⟨.label .jump l, text⟩)
      (place : c.place? l = some j) (target : Halts c j s) : Halts c i s
  | printf {i l text words t₁ t₂ s} (here : c.instrs[i]? = some ⟨.label .pushD (.text l), t₁⟩)
      (print : c.instrs[i + 1]? = some ⟨.plain .printf, t₂⟩) (format : (l, text) ∈ Environment.formats)
      (takes : formatWords text = some words) (next : Halts c (i + 2) s) : Halts c i (words ++ s)

/-- One entry for each instruction of an assembled program with the subroutines `fs`. -/
structure StackTyped (c : Code) (img : Image) (fs : List (LabelFamily × FuncHead))
    (τ : Nat → Entry) : Prop where
  /-- The image has the instructions of the program. -/
  code : ∀ i : Nat, img.code[i]?.map Resolved.line = c.instrs[i]?
  /-- Operands are what labels stand for, -/
  targets : ∀ (i : Nat) r o l, img.code[i]? = some r → r.instr = .label o l →
    img.labels.find? l = some r.target
  /-- which for a code label is the number of an instruction. -/
  places : ∀ l i, c.place? l = some i → i ≤ img.code.size ∧ img.labels.find? l = some (Int32.ofNat i)
  /-- The texts of formats are in the static data. -/
  formats : ∀ x ∈ Environment.formats, ∃ n, img.labels.find? (.text x.1) = some (Int32.ofNat n) ∧
    Text.Utf8.encode x.2 ++ [0] <+: img.data.drop n
  start : τ 0 = ⟨[], none⟩
  main : (c.place? mainLabel).map τ = some ⟨[], none⟩
  allocator : (c.place? allocateLabel).map τ = some Entry.allocator
  starts : ∀ f ∈ fs, (c.place? (Lowering.startLabel f.1)).map τ = some Entry.subroutine
  exits : ∀ f ∈ fs, (c.place? (Lowering.exitLabel f.1)).map τ = some ⟨f.2.result.residue, some []⟩
  /-- Every instruction finds the words that it needs, and wherever control goes from it, the entries
  agree. -/
  fits : ∀ i line, c.instrs[i]? = some line →
    Instr.Shaped (c.sites τ) line.instr (τ i) (τ (i + 1)) ∨
      ∃ j l text words s d, i = j + 1 ∧ c.Prints (c.sites τ) 0 τ j l text words s d
  traps : ∀ t : Trap, ∃ i, c.place? t.label = some i ∧ ∀ s, c.Halts i s

end Code

lemma Instr.Shaped.mono {X Y : Sites} {i : Instr} {e e' : Entry} (h : Instr.Shaped X i e e')
    (hcode : X.code ⊆ Y.code) (hknows : ∀ l, X.Knows l → Y.Knows l) : Instr.Shaped Y i e e' := by
  have reaches : ∀ {l : Label} {e : Entry}, X.Reaches l e → Y.Reaches l e := fun h =>
    h.imp id fun hmem => hcode hmem
  cases h with
  | plain flow => exact .plain flow
  | pushI => exact .pushI
  | pushF => exact .pushF
  | pushD known => exact .pushD (hknows _ known)
  | test tests target => exact .test tests (reaches target)
  | call allocator => exact .call (hcode allocator)
  | label site => exact .label (hcode site)
  | jump target => exact .jump (reaches target)
  | «return» => exact .return
  | halt => exact .halt

namespace Code

variable {X Y : Sites} {pc : Nat} {c : Code} {τ : Nat → Entry}

lemma Assigned.mono (h : Assigned X pc c τ) (hcode : X.code ⊆ Y.code)
    (hknows : ∀ l, X.Knows l → Y.Knows l) : Assigned Y pc c τ := by
  refine ⟨fun p hp => hcode (h.labels p hp), fun k line hline => ?_⟩
  refine (h.fits k line hline).imp (fun hs => hs.mono hcode hknows) ?_
  rintro ⟨j, l, text, words, s, d, hk, hp⟩
  exact ⟨j, l, text, words, s, d, hk, { hp with known := hknows _ hp.known }⟩

/-- Data between instructions do not matter. -/
lemma Assigned.of_flowLines (h : Assigned X pc c.flowLines τ) : Assigned X pc c τ := by
  refine ⟨by simpa using h.labels, fun k line hline => ?_⟩
  refine (h.fits k line (by simpa using hline)).imp id ?_
  rintro ⟨j, l, text, words, s, d, hk, hp⟩
  exact ⟨j, l, text, words, s, d, hk, { hp with
    push := by simpa using hp.push
    print := by simpa using hp.print
    unlabelled := by simpa using hp.unlabelled }⟩

/-- What is expected at labels is what is assigned to their places. -/
lemma Assigned.place? (h : Assigned X 0 c τ)
    (hlabels : (X.code.map (·.1) : Multiset Label) = c.codeLabels) (hnodup : c.codeLabels.Nodup)
    {l : Label} {e : Entry} (hl : (l, e) ∈ X.code) : ∃ i, (l, i) ∈ c.marks 0 ∧
      c.place? l = some i ∧ τ i = e := by
  have hmem : l ∈ c.codeLabels := by
    rw [← Multiset.mem_coe, ← hlabels]
    exact Multiset.mem_coe.mpr (List.mem_map_of_mem hl)
  rw [← map_fst_marks c 0] at hmem hnodup
  obtain ⟨⟨l, i⟩, hp, rfl⟩ := List.mem_map.mp hmem
  refine ⟨i, hp, lookup_of_mem hnodup hp, ?_⟩
  have hkeys : (X.code.map (·.1)).Nodup := by
    rw [← Multiset.coe_nodup, hlabels, Multiset.coe_nodup, ← map_fst_marks c 0]
    exact hnodup
  have hτ := lookup_of_mem hkeys (h.labels _ hp)
  rw [lookup_of_mem hkeys hl] at hτ
  exact (Option.some.inj hτ).symm

lemma mem_marks_of_place? {l : Label} {i : Nat} (h : c.place? l = some i) : (l, i) ∈ c.marks 0 := by
  obtain ⟨l₁, l₂, hmarks, -⟩ := List.lookup_eq_some_iff.mp h
  rw [hmarks]
  exact List.mem_append_right _ List.mem_cons_self

/-- What stands in front keeps its place. -/
lemma place?_append {a b : Code} {l : Label} {i : Nat} (h : a.place? l = some i) :
    (a ++ b).place? l = some i := by
  rw [place?] at h
  rw [place?, marks_append, List.lookup_append, h, Option.some_or]

lemma instrs_append_of_some {a b : Code} {i : Nat} {line : Line} (h : a.instrs[i]? = some line) :
    (a ++ b).instrs[i]? = some line := by
  obtain ⟨hi, -⟩ := List.getElem?_eq_some_iff.mp h
  rw [instrs_append, List.getElem?_append_left hi, h]

end Code

/-- A trap prints its message and halts. -/
lemma Environment.halts_trap (c : Code) (t : Trap) :
    ∃ i, (prelude ++ c).place? t.label = some i ∧ ∀ s, (prelude ++ c).Halts i s := by
  obtain ⟨k, hprint, hformat, hprintf, hhalt⟩ : ∃ k, prelude.place? Trap.printLabel = some k ∧
      prelude.instrs[k]? = some ⟨.label .pushD (.text Trap.formatLabel), ""⟩ ∧
      prelude.instrs[k + 1]? = some ⟨.plain .printf, ""⟩ ∧
      prelude.instrs[k + 2]? = some ⟨.plain .halt, ""⟩ := ⟨10, rfl, rfl, rfl, rfl⟩
  obtain ⟨i, hi, hmessage, hjump⟩ : ∃ i, prelude.place? t.label = some i ∧
      prelude.instrs[i]? = some ⟨.label .pushD (.text t.messageLabel), ""⟩ ∧
      prelude.instrs[i + 1]? = some ⟨.label .jump (.text Trap.printLabel), ""⟩ := by
    cases t <;> exact ⟨_, rfl, rfl, rfl⟩
  refine ⟨i, Code.place?_append hi, fun s => ?_⟩
  have htake : formatWords "Runtime error: %s\n" = some [.int] := rfl
  have hend : (prelude ++ c).Halts k ([.int] ++ s) :=
    .printf (Code.instrs_append_of_some hformat) (Code.instrs_append_of_some hprintf) (.head _) htake
      (.halt (Code.instrs_append_of_some hhalt))
  exact .push (Code.instrs_append_of_some hmessage)
    (.jump (Code.instrs_append_of_some hjump) (Code.place?_append hprint) hend)

namespace Program.Parts

variable (P : Parts) {globalSize : Nat}

lemma map_fst_allSites (globalSize : Nat) : (P.allSites.code.map (·.1) : Multiset Label) =
    (P.code globalSize).codeLabels := by
  have henv : (Environment.sites.map (·.1) : Multiset Label) = Environment.codeLabels := by decide
  rw [codeLabels_code, allSites, List.map_append, ← Multiset.coe_add, henv, P.labels,
    codeLabels_text]

/-- The code of a program has a typing. -/
theorem exists_stackTyped (hsize : globalSize ≤ maxBytes) : ∃ τ,
    (P.code globalSize).StackTyped (P.code globalSize).image
      (P.subroutines.map fun p => (p.labels, p.head)) τ := by
  obtain ⟨τ, hstart, hτ⟩ := (P.shaped_code globalSize ⟨[], none⟩).exists_assigned 0
  have hassigned : Code.Assigned P.allSites 0 (P.code globalSize) τ := hτ.of_flowLines
  have hassemblable := P.assemblable hsize
  have hnodup := (List.nodup_append.mp hassemblable.nodup)
  have hplace := fun {l : Label} {e : Entry} => hassigned.place? (P.map_fst_allSites globalSize)
    hnodup.1 (l := l) (e := e)
  have hmap : ∀ {l : Label} {e : Entry}, (l, e) ∈ P.allSites.code →
      ((P.code globalSize).place? l).map τ = some e := by
    intro l e hl
    obtain ⟨i, -, hi, rfl⟩ := hplace hl
    rw [hi, Option.map_some]
  have hends : ∀ f ∈ P.subroutines, f.sites ⊆ P.allSites.code := fun f hf =>
    List.Subset.trans (P.ends f hf) (List.subset_append_right _ _)
  have hknows : ∀ l, P.allSites.Knows l → ((P.code globalSize).sites τ).Knows l := by
    rintro l (hl | hl)
    · exact .inl ((P.mem_dataLabels_code globalSize).mpr (List.mem_append.mp hl))
    · obtain ⟨⟨l, e⟩, hsite, rfl⟩ := List.mem_map.mp hl
      obtain ⟨i, hi, -, -⟩ := hplace hsite
      exact .inr (List.mem_map.mpr ⟨_, List.mem_map_of_mem hi, rfl⟩)
  have hsites : P.allSites.code ⊆ ((P.code globalSize).sites τ).code := by
    rintro ⟨l, e⟩ hl
    obtain ⟨i, hi, -, rfl⟩ := hplace hl
    exact List.mem_map_of_mem (f := fun p : Label × Nat => (p.1, τ p.2)) hi
  refine ⟨τ, {
    code := fun i => ?_
    targets := fun i r o l hr hi => Code.find?_target hassemblable hr hi
    places := fun l i hi => ?_
    formats := fun x hx => ?_
    start := hstart
    main := hmap (P.covered.code (by decide))
    allocator := hmap P.covered.isStandard.allocator
    starts := fun f hf => ?_
    exits := fun f hf => ?_
    fits := fun i line hline => ?_
    traps := fun t => ?_ }⟩
  · simp [Code.image, Function.comp_def, Assemble.resolved]
  · have hmem : (l, i) ∈ (P.code globalSize).marks 0 := Code.mem_marks_of_place? hi
    refine ⟨?_, Labels.find?_code hassemblable.nodup hmem⟩
    rw [Code.length_code_image]
    have := Code.le_of_mem_marks _ hmem
    omega
  · obtain ⟨n, hn, hdata⟩ := P.exists_text hsize (List.mem_append_left _ hx)
    exact ⟨n, Labels.find?_data hnodup.2.1 hn, hdata⟩
  · obtain ⟨p, hp, rfl⟩ := List.mem_map.mp hf
    exact hmap (hends p hp (.head _))
  · obtain ⟨p, hp, rfl⟩ := List.mem_map.mp hf
    exact hmap (hends p hp (.tail _ (.head _)))
  · simpa using (hassigned.mono hsites hknows).fits i line hline
  · rw [code_eq]
    simpa only [List.append_assoc] using Environment.halts_trap _ t

end Program.Parts

/-- The code of an accepted source can be assembled exactly if there are addresses for its global
variables, and the image is stack-typed, with the subroutines of the compiled tree. -/
theorem compile_stackTyped {s : Settings} {name : String} {source : List UInt8} {code : Code}
    (h : (compile s name source).code = .ok code) :
    ((∃ img, code.assemble = .ok img) ↔ (compile s name source).tree.globalSize ≤ maxBytes) ∧
      ∀ img, code.assemble = .ok img → ∃ fs τ,
        (fs.map (·.2) : Multiset FuncHead) = (compile s name source).tree.heads ∧
        code.StackTyped img fs τ := by
  obtain ⟨p, hrules, htree, hlower⟩ := elab_of_compile_ok h
  obtain ⟨P, rfl, hheads⟩ := hrules.exists_parts rfl (isSource_sourceTree s name source) hlower
  have hsize : (compile s name source).tree.globalSize = p.globalSize := by
    rw [htree]
    rfl
  have hok : ∀ img, (P.code p.globalSize).assemble = .ok img ↔ p.globalSize ≤ maxBytes ∧
      img = (P.code p.globalSize).image := fun _ => P.assemble_eq_ok_iff p.globalSize
  rw [hsize, htree]
  refine ⟨⟨fun ⟨img, himg⟩ => ((hok img).mp himg).1, fun hle => ⟨_, (hok _).mpr ⟨hle, rfl⟩⟩⟩, ?_⟩
  intro img himg
  obtain ⟨hle, rfl⟩ := (hok img).mp himg
  obtain ⟨τ, hτ⟩ := P.exists_stackTyped hle
  refine ⟨_, τ, ?_, hτ⟩
  rw [List.map_map, ← hheads]
  rfl

/-- A source with a subroutine, a lambda, a comparison of floats and an array of arrays. -/
def nestedSource : List UInt8 := Text.Utf8.encode
  "subr float half(float x) { return x / 2.0; }
   main {
     var f := subr int (int n) { return n + 1; };
     var rows := [[1, 2], [3]];
     if half(3.0) != 1.5 { print rows; } else { print f(rows[1][0]) >= 4; }
   }"

theorem compile_stackTyped_nestedSource : ∃ code img,
    (compile .standard "nested" nestedSource).code = .ok code ∧ code.assemble = .ok img ∧
      ∃ fs τ, (fs.map (·.2) : Multiset FuncHead) =
          (compile .standard "nested" nestedSource).tree.heads ∧
        code.StackTyped img fs τ := by
  have hok : (compile .standard "nested" nestedSource).code.isOk ∧
      (compile .standard "nested" nestedSource).tree.globalSize ≤ maxBytes := by
    decide +kernel
  obtain ⟨code, hcode⟩ := Except.exists_ok_of_isOk hok.1
  obtain ⟨hassemble, htyped⟩ := compile_stackTyped hcode
  obtain ⟨img, himg⟩ := hassemble.mpr hok.2
  exact ⟨code, img, hcode, himg, htyped img himg⟩

end SubrLang
