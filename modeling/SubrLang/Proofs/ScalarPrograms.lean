import SubrLang.Proofs.CompiledPrograms
import SubrLang.Proofs.ScalarStatements

/-!
# Scalar programs run as they are evaluated

A source without subroutines that works with integers, characters and truth values only is compiled to code
that does what the evaluation of its tree does (`compile_scalar_runs`).

**Loading.** The static data of an image are the first bytes of memory (`Memory.toList_ofChunks`), so the
formats and messages of the environment are found there.

**Start.** What stands in front of the main block fills three cells of the environment, none of which is a
text or a variable, and jumps to the main block (`Globals.reaches_main`).

**Ends.** Behind the main block the program halts; from the trap for divisions by zero it comes to a halt
with the message printed (`Globals.reaches_message`).
-/

namespace SubrLang

open Text.Utf8 (encode)
open Registry (standard)

/-! ## Loading -/

namespace Memory

lemma toList_zerosFrom : ∀ {levels n : Nat}, n < 2 ^ levels →
    (zerosFrom levels n).data.toList = List.replicate n 0 := by
  intro levels
  induction levels with
  | zero =>
    intro n hn
    obtain rfl : n = 0 := by omega
    rfl
  | succ levels ih =>
    intro n hn
    have hhalf := ih (n := n / 2) (by omega)
    unfold zerosFrom
    split
    · next h =>
      subst h
      rfl
    · split
      · next h =>
        have hn : n = n / 2 + n / 2 := by omega
        conv_rhs => rw [hn, List.replicate_add]
        simp [ByteArray.data_append, hhalf]
      · next h =>
        have hn : n = n / 2 + n / 2 + 1 := by omega
        conv_rhs => rw [hn, List.replicate_succ']
        simp [ByteArray.data_push, ByteArray.data_append, hhalf, ← List.append_assoc]

lemma toList_ofChunk (c : Chunk) : (ofChunk c).data.toList = c.toList := by
  cases c with
  | bytes bs => rfl
  | zeros n => exact toList_zerosFrom Nat.lt_log2_self

/-- A new memory has the data first and zeros behind. -/
lemma toList_ofChunks (chunks : List Chunk) (size : Nat) :
    (ofChunks chunks size).bytes.data.toList = chunks.flatMap Chunk.toList ++
      List.replicate (size - (chunks.flatMap Chunk.toList).length) 0 := by
  have hfold : ∀ (chunks : List Chunk) (front : ByteArray),
      (chunks.foldl (fun bytes c => bytes ++ ofChunk c) front).data.toList =
        front.data.toList ++ chunks.flatMap Chunk.toList := by
    intro chunks
    induction chunks with
    | nil => simp
    | cons c chunks ih =>
      intro front
      rw [List.foldl_cons, ih]
      simp [ByteArray.data_append, toList_ofChunk]
  have hdata := hfold chunks .empty
  have hlength : (chunks.foldl (fun bytes c => bytes ++ ofChunk c) .empty).size =
      (chunks.flatMap Chunk.toList).length := by
    rw [← ByteArray.size_data, ← Array.length_toList, hdata]
    simp
  simp only [ofChunks, ByteArray.data_append, Array.toList_append, hdata, hlength, zeros]
  rw [toList_zerosFrom Nat.lt_log2_self]
  simp

/-- A text is found where the data of a memory have it. -/
lemma hasText_of_prefix {m : Memory} {a : Nat} {text data rest : List UInt8}
    (hm : m.bytes.data.toList = data ++ rest) (h : text ++ [0] <+: data.drop a) (hzero : 0 ∉ text)
    (ha : a < 2 ^ 31) : m.HasText a text := by
  obtain ⟨tail, htail⟩ := h
  have hlength := congrArg List.length htail
  simp only [List.length_append, List.length_cons, List.length_nil, List.length_drop] at hlength
  have hsize : m.size = data.length + rest.length := by
    rw [Memory.size, ← ByteArray.size_data, ← Array.length_toList, hm, List.length_append]
  refine ⟨⟨ha, by omega⟩, ?_, hzero⟩
  refine List.ext_getElem (by simp) fun k hk hk' => ?_
  simp only [List.length_map, List.length_range'] at hk
  have hbyte : m.bytes.data[a + k]? = (text ++ [0])[k]? := by
    rw [← Array.getElem?_toList, hm, List.getElem?_append_left (by omega), ← List.getElem?_drop, ← htail,
      List.getElem?_append_left (by simpa using hk)]
  rw [List.getElem_map, List.getElem_range', Nat.one_mul]
  change m.bytes.data[a + k]! = _
  rw [getElem!_def, hbyte, List.getElem?_eq_getElem hk']

end Memory

/-! ## Start -/

namespace Code

variable {P c : Code} {x : String} {a : Nat} {st : List Word} {mem : Memory} {out : List UInt8}

lemma exists_at_of_isInfix (h : c <:+: P) : ∃ i, P.At i c := by
  obtain ⟨a, b, hab⟩ := h
  exact ⟨_, a, b, by rw [← hab, List.append_assoc], rfl⟩

lemma Numbered.holds (hP : P.Numbered) (h : (.text x, a) ∈ P.addresses 0) : P.Holds x a :=
  Labels.find?_data (List.nodup_append.mp hP.assemblable.nodup).2.1 h

/-- Fills a cell with the size of memory. -/
lemma takes_memtop (hx : P.Holds x a) (ha : mem.Inside a 4) :
    Takes P (pushD x ++ ops [.memtop, .storeI]) ⟨st, mem, out⟩
      ⟨st, mem.put .word a (.int (Int32.ofNat mem.size)), out⟩ := by
  have htop : Takes P (ops [.memtop]) ⟨.address a :: st, mem, out⟩
      ⟨.int (Int32.ofNat mem.size) :: .address a :: st, mem, out⟩ := by
    refine takes_plain (by simp) fun i => Exec.does_get fun m hm => ?_
    rw [show m.memory = mem from congrArg (·.state.memory) hm]
    exact Exec.does_push _
  exact (takes_pushD hx).append (takes_ops_cons htop (takes_storeOp .word ha trivial))

end Code

namespace Environment

/-- The texts of the environment lie behind the cells of the call stack and in front of the variables. -/
lemma apart_texts : ∀ x ∈ texts, ∀ p ∈ Code.addresses 0 prelude, p.1 = .text x.1 →
    16 ≤ p.2 ∧ p.2 + (encode x.2).length < Code.bytes prelude := by
  decide +kernel

lemma notMem_texts : ∀ x ∈ texts, 0 ∉ encode x.2 := by decide +kernel

lemma addresses_stack : (.text Cell.stackPointer, 8) ∈ Code.addresses 0 prelude ∧
    (.text Cell.framePointer, 12) ∈ Code.addresses 0 prelude := by
  decide +kernel

/-- Heap and call stack are set up by filling three cells. -/
lemma takes_init {P : Code} {a : Nat} {t : Int32} {mem : Memory} {out : List UInt8}
    (hnext : P.Holds Cell.heapNextFree a)
    (hheap : (Labels.ofCode P).find? (.text Cell.heapStart) = some t)
    (hstack : P.Holds Cell.stackPointer 8) (hframe : P.Holds Cell.framePointer 12)
    (ha : mem.Inside a 4) (hmem : mem.Inside 8 8) :
    ∃ w, Code.Takes P (heapInit ++ stackInit) ⟨[], mem, out⟩
      ⟨[], ((mem.put .word a (.int t)).put .word 8 w).put .word 12 w, out⟩ := by
  have h8 : (mem.put .word a (.int t)).Inside 8 4 := by
    simp only [Memory.Inside, Memory.size_put] at hmem ⊢
    omega
  have h12 (w : Word) : ((mem.put .word a (.int t)).put .word 8 w).Inside 12 4 := by
    simp only [Memory.Inside, Memory.size_put] at hmem ⊢
    omega
  have hfirst : Code.Takes P heapInit ⟨[], mem, out⟩ ⟨[], mem.put .word a (.int t), out⟩ :=
    ((Code.takes_pushD_address hnext).append (Code.takes_pushD hheap)).append
      (Code.takes_storeOp .word ha trivial)
  have hsecond : Code.Takes P stackInit ⟨[], mem.put .word a (.int t), out⟩ _ :=
    (Code.takes_memtop hstack h8).append ((Code.takes_memtop hframe (h12 _)).append (Code.takes_nil _))
  simp only [Memory.size_put] at hsecond
  exact ⟨_, hfirst.append hsecond⟩

end Environment

namespace Program

open Code Environment

variable {n : Nat} {main bodies strings : Code}

lemma layout_eq : layout n main bodies strings = prelude ++ (cell Cell.globals (.int .dataZ n) ++
    (label mainLabel ++ main ++ ops [.halt] ++ (bodies ++ strings ++ heap))) := by
  simp only [layout, prelude, List.append_assoc]

lemma exists_heapNextFree : ∃ a,
    (.text Cell.heapNextFree, a) ∈ (layout n main bodies strings).addresses 0 ∧
      bytes prelude + n ≤ a ∧ a + 4 ≤ (layout n main bodies strings).bytes := by
  obtain ⟨d, hd⟩ : ∃ d, heap = cell Cell.heapNextFree (.int .dataI 0) ++ d := ⟨_, rfl⟩
  have hcode : layout n main bodies strings = (prelude ++ cell Cell.globals (.int .dataZ n) ++
      (label mainLabel ++ main ++ ops [.halt] ++ (bodies ++ strings))) ++
        (cell Cell.heapNextFree (.int .dataI 0) ++ d) := by
    rw [layout_eq, hd]
    simp only [List.append_assoc]
  have hglobals : (cell Cell.globals (.int .dataZ n)).bytes = n := by simp [cell, bytes, Instr.dataSize]
  have hcell : (cell Cell.heapNextFree (.int .dataI 0)).bytes = 4 := rfl
  rw [hcode]
  refine ⟨_, mem_addresses_cell _ _ _ _, ?_, ?_⟩
  · rw [bytes_append, bytes_append, hglobals]
    exact Nat.le_add_right _ _
  · rw [bytes_append _ (_ ++ d), bytes_append (cell _ _) d, hcell]
    omega

lemma holds_prelude {x : String} {a : Nat} (hP : (layout n main bodies strings).Numbered)
    (h : (.text x, a) ∈ prelude.addresses 0) : (layout n main bodies strings).Holds x a := by
  refine hP.holds ?_
  rw [layout_eq, addresses_append]
  exact List.mem_append_left _ h

lemma marks_prelude {l : Label} {i : Nat} (hP : (layout n main bodies strings).Numbered)
    (h : (l, i) ∈ prelude.marks 0) : (layout n main bodies strings).Marks l i := by
  have hmem : (l, i) ∈ (layout n main bodies strings).marks 0 := by
    rw [layout_eq, marks_append]
    exact List.mem_append_left _ h
  refine ⟨Labels.find?_code hP.assemblable.nodup hmem, ?_⟩
  simpa using (le_of_mem_marks _ hmem).2

lemma exists_at_prelude {c : Code} (h : c <:+: prelude) : ∃ i, (layout n main bodies strings).At i c := by
  rw [layout_eq]
  exact exists_at_of_isInfix (h.trans (List.prefix_append _ _).isInfix)

/-- The global block of a program is as large as its variables need. -/
lemma exists_globals (hP : (layout n main bodies strings).Numbered)
    (hsmall : (layout n main bodies strings).bytes ≤ 2 ^ 31) :
    ∃ G : Globals (layout n main bodies strings), G.start = bytes prelude ∧ G.size = n := by
  obtain ⟨i, hi⟩ := @exists_at_prelude n main bodies strings _ (trapBlock_isInfix .intDivideByZero)
  obtain ⟨a, -, ha, ha'⟩ := @exists_heapNextFree n main bodies strings
  refine ⟨⟨hP, bytes prelude, n, _, hP.holds ?_, hi.left.left.right.marks hP, by omega⟩, rfl, rfl⟩
  rw [layout_eq]
  exact mem_addresses_cell prelude _ _ _

end Program

namespace Globals

open Code Environment Program

variable {n : Nat} {main bodies strings : Code} {G : Globals (layout n main bodies strings)}
  {mem : Memory} {st : List Word} {out rest : List UInt8}

/-- Filling the cells of heap and call stack changes no text of the environment. -/
lemma ready_start (hstart : G.start = bytes prelude) (hsize : G.size = n)
    (hmem : mem.bytes.data.toList = (layout n main bodies strings).image.data ++ rest) {a : Nat}
    (ha : bytes prelude + n ≤ a) (ha' : a + 4 ≤ mem.size) (hsmall : a < 2 ^ 31) (w₁ w₂ w₃ : Word) :
    G.Ready (((mem.put .word a w₁).put .word 8 w₂).put .word 12 w₃) where
  inside := by
    simp only [Memory.size_put]
    omega
  texts := by
    intro x hx
    have hassemblable := G.numbered.assemblable
    rw [layout_eq] at hassemblable
    obtain ⟨k, hk, hdata⟩ := exists_text_prelude hassemblable hx
    rw [← layout_eq] at hdata
    obtain ⟨hlow, hhigh⟩ := apart_texts x hx _ hk rfl
    refine ⟨k, holds_prelude G.numbered hk, by omega, ?_⟩
    have htext := Memory.hasText_of_prefix hmem hdata (notMem_texts x hx) (by omega)
    exact ((htext.put (.inr (by omega))).put (.inl (by simp [Slot.size]; omega))).put
      (.inl (by simp [Slot.size]; omega))

/-- A loaded program comes to its main block. -/
lemma reaches_main (hstart : G.start = bytes prelude) (hsize : G.size = n)
    (hsmall : (layout n main bodies strings).bytes ≤ 2 ^ 31)
    (hmem : mem.bytes.data.toList = (layout n main bodies strings).image.data ++ rest) :
    ∃ i mem', (layout n main bodies strings).At i (main ++ ops [.halt]) ∧ G.Ready mem' ∧
      Reaches (layout n main bodies strings) ⟨0, [], mem, out⟩ ⟨i, [], mem', out⟩ := by
  have hP := G.numbered
  have hlength : (layout n main bodies strings).bytes ≤ mem.size := by
    rw [← dataSize_image hP.assemblable, ← Image.length_data, Memory.size, ← ByteArray.size_data,
      ← Array.length_toList, hmem, List.length_append]
    exact Nat.le_add_right _ _
  obtain ⟨a, hnext, ha, ha'⟩ := @exists_heapNextFree n main bodies strings
  have hbytes : 16 ≤ bytes prelude := by decide +kernel
  obtain ⟨t, ht⟩ : ∃ t, (Labels.ofCode (layout n main bodies strings)).find?
      (.text Cell.heapStart) = some t := by
    refine Option.isSome_iff_exists.mp (hP.assemblable.isSome_find? _ ?_)
    rw [layout_eq, mentions_append]
    exact List.mem_append_left _ (by decide)
  obtain ⟨d, hd⟩ : ∃ d, prelude = heapInit ++ stackInit ++ jump mainLabel ++ d :=
    ⟨_, by simp only [prelude, body, List.append_assoc]; rfl⟩
  have hinit : (layout n main bodies strings).At 0 (heapInit ++ stackInit ++ jump mainLabel) :=
    ⟨[], _, by rw [layout_eq, hd, List.append_assoc]; rfl, rfl⟩
  obtain ⟨i, hi⟩ : ∃ i, (layout n main bodies strings).At i (label mainLabel ++ (main ++ ops [.halt])) := by
    refine exists_at_of_isInfix ⟨prelude ++ cell Cell.globals (.int .dataZ n), bodies ++ strings ++ heap, ?_⟩
    rw [layout_eq]
    simp only [List.append_assoc]
  obtain ⟨w, hw⟩ := takes_init (hP.holds hnext) ht (holds_prelude hP addresses_stack.1)
    (holds_prelude hP addresses_stack.2) (show mem.Inside a 4 from ⟨by omega, by omega⟩)
    ⟨by omega, by omega⟩
  refine ⟨i, _, hi.right, ready_start hstart hsize hmem ha (by omega) (by omega) (.int t) w w, ?_⟩
  exact (hw 0 hinit.left).trans ⟨1, hinit.right.steps_jump hP (hi.left.marks hP) _⟩

/-! ## Ends -/

/-- From the trap for divisions by zero a program comes to a halt, with the message printed. -/
lemma reaches_message (h : G.Ready mem) : ∃ i, (layout n main bodies strings).At i (ops [.halt]) ∧
    Reaches (layout n main bodies strings) ⟨G.trap, st, mem, out⟩
      ⟨i, st, mem, out ++ encode "Runtime error: integer divide by zero\n"⟩ := by
  have hP := G.numbered
  obtain ⟨i, hi⟩ : ∃ i, (layout n main bodies strings).At i (trapBlock .intDivideByZero) :=
    exists_at_prelude (trapBlock_isInfix _)
  obtain ⟨k, hk⟩ : ∃ k, (layout n main bodies strings).At k
      (label Trap.printLabel ++ (pushD Trap.formatLabel ++ ops [.printf]) ++ ops [.halt]) := by
    refine exists_at_prelude (List.IsInfix.trans ⟨textCell Trap.formatLabel "Runtime error: %s\n",
      Trap.all.flatMap trapBlock, ?_⟩ trapBlocks_isInfix)
    simp only [trapBlocks, List.append_assoc]
    rfl
  obtain ⟨a, ha, -, htext⟩ := h.texts
    (Trap.intDivideByZero.messageLabel, Trap.intDivideByZero.message) (by decide)
  obtain ⟨b, hb, -, hformat⟩ := h.texts (Trap.formatLabel, "Runtime error: %s\n") (by decide)
  obtain ⟨parts, hparts, hconversions, hfill⟩ : ∃ parts,
      Format.parts (encode "Runtime error: %s\n") (encode "Runtime error: %s\n") = .ok parts ∧
      Format.conversions parts = [.text] ∧ Format.fill parts [encode Trap.intDivideByZero.message] =
        encode "Runtime error: integer divide by zero\n" := ⟨_, rfl, rfl, rfl⟩
  have hargs : Conversion.WritesAll mem (Format.conversions parts) [.address a]
      [encode Trap.intDivideByZero.message] := by
    rw [hconversions]
    exact .cons (.text htext) .nil
  have htrap := G.marks.unique hP (hi.left.left.right.marks hP)
  have hpush : Takes (layout n main bodies strings) (pushD Trap.intDivideByZero.messageLabel)
      ⟨st, mem, out⟩ ⟨.address a :: st, mem, out⟩ := takes_pushD_address ha
  have hprint : Takes (layout n main bodies strings)
      (label Trap.printLabel ++ (pushD Trap.formatLabel ++ ops [.printf])) ⟨.address a :: st, mem, out⟩
        ⟨st, mem, out ++ encode "Runtime error: integer divide by zero\n"⟩ := by
    rw [← hfill]
    exact (takes_label _ _).append (takes_printf hb hformat hparts hargs)
  refine ⟨_, hk.right, ?_⟩
  rw [htrap]
  exact ((hpush _ hi.left.right).trans ⟨1, hi.right.steps_jump hP (hk.left.left.marks hP) _⟩).trans
    (hprint k hk.left)

end Globals

/-! ## Programs -/

/-- What can be seen of a run without a limit: it comes to its end with nothing on the operand stack, or with
the message for a division by zero behind the output, or it never ends. -/
def Machine.Behaves (img : Image) (m : Machine) : Behaviour → Prop
  | .ends output => ∃ m', m.EndsIn img m' ∧ m'.output.data.toList = output ∧ m'.stack = #[]
  | .dividesByZero output => ∃ m', m.EndsIn img m' ∧
      m'.output.data.toList = output ++ encode "Runtime error: integer divide by zero\n"
  | .runsForever => m.NeverEnds img

namespace Globals

open Code Program

variable {n : Nat} {main bodies strings : Code} {G : Globals (layout n main bodies strings)}

/-- A machine that follows the evaluation of a program up to a halt shows the behaviour of the program. -/
lemma behaves_of_leads {p : Program} {Γ : Ctx} {m : Machine} {j : Nat}
    (h : ∀ fuel, G.Leads fuel Γ m.config j (p.eval fuel))
    (hj : (layout n main bodies strings).At j (ops [.halt])) :
    (∃ b, p.Behaves b) ∧
      ∀ b, p.Behaves b → m.Behaves (layout n main bodies strings).image b := by
  refine ⟨?_, fun b hb => ?_⟩
  · by_cases hforever : ∀ fuel, p.eval fuel = .error .outOfFuel
    · exact ⟨.runsForever, hforever⟩
    · obtain ⟨fuel, hfuel⟩ := not_forall.mp hforever
      have hleads := h fuel
      match hx : p.eval fuel with
      | .ok w => exact ⟨.ends w.output, fuel, w, hx, rfl⟩
      | .error (.divideByZero out) => exact ⟨.dividesByZero out, fuel, hx⟩
      | .error .outOfFuel => exact absurd hx hfuel
      | .error .illTyped =>
        rw [hx] at hleads
        exact hleads.elim
  · cases b with
    | ends output =>
      obtain ⟨fuel, w, hw, rfl⟩ := hb
      have hleads := h fuel
      rw [hw] at hleads
      obtain ⟨mem, -, hreaches⟩ := hleads
      obtain ⟨m', hends, hstate⟩ := hreaches.endsIn hj rfl
      refine ⟨m', hends, congrArg State.output hstate, ?_⟩
      have hstack : m'.stack.toList.reverse = [] := congrArg State.stack hstate
      simpa using hstack
    | dividesByZero output =>
      obtain ⟨fuel, hw⟩ := hb
      have hleads := h fuel
      rw [hw] at hleads
      obtain ⟨st, mem, hready, hreaches⟩ := hleads
      obtain ⟨i, hi, hmessage⟩ := reaches_message hready
      obtain ⟨m', hends, hstate⟩ := (hreaches.trans hmessage).endsIn hi rfl
      exact ⟨m', hends, congrArg State.output hstate⟩
    | runsForever =>
      refine Machine.neverEnds_of_unbounded fun k => ?_
      have hleads := h k
      rw [hb k] at hleads
      obtain ⟨n, c', hn, hsteps⟩ := hleads
      obtain ⟨m', -, hrun⟩ := hsteps m rfl
      exact ⟨n, m', hn, hrun⟩

end Globals

/-- The code of a checked scalar program follows its evaluation from the main block on. -/
lemma Program.Elab.leads {r : Rules} (hr : r.registry = standard) {p p' : Program}
    (h : Program.Elab r p p') (hs : p.isSource) (hscalar : p.isScalar) {s : Settings} {code : Code}
    (hrun : (p'.applyWidening standard).lower s = .ok code) :
    ∃ main bodies strings, code = layout p'.globalSize main bodies strings ∧
      ∀ {G : Globals code}, p'.globalSize ≤ G.size → ∃ Γ, ∀ {fuel i mem}, code.At i main → G.Ready mem →
        G.Leads fuel Γ ⟨i, [], mem, []⟩ (i + main.instrs.length) (p.eval fuel) := by
  obtain ⟨entries, st₁, main, st₂, bodies, st₃, hentries, hmain, -, hcode⟩ := exists_runs hrun
  simp only [Program.isScalar, Bool.and_eq_true, List.isEmpty_iff] at hscalar
  have hsource : Stmt.areSource p.main := by
    simp only [Program.isSource, Bool.and_eq_true] at hs
    exact hs.2
  cases h with
  | @intro fs fs' Γ main' Γ' declared checked block =>
    rw [hscalar.1] at declared
    cases declared
    cases checked
    cases hentries
    refine ⟨main, bodies, _, hcode, fun {G} hsize => ⟨Γ', fun {fuel i mem} hi hready => ?_⟩⟩
    have hagrees : G.Agrees Ctx.global.enter World.start.store mem :=
      ⟨rfl, Nat.zero_le _, hready, .nil⟩
    exact block.leads hr hsource hscalar.2 hsize hmain hi hagrees

/-- What a source is compiled to is a program that is laid out. -/
lemma exists_layout_of_compile {s : Settings} {name : String} {source : List UInt8} {code : Code}
    (h : (compile s name source).code = .ok code) (hinstrs : code.instrs.length < 2 ^ 31)
    (hbytes : code.bytes ≤ 2 ^ 31) :
    ∃ n main bodies strings, code = Program.layout n main bodies strings ∧ code.Numbered := by
  obtain ⟨p, hrules, -, hlower⟩ := elab_of_compile_ok h
  obtain ⟨P, rfl, -⟩ := hrules.exists_parts rfl (isSource_sourceTree s name source) hlower
  obtain ⟨a, -, ha, ha'⟩ := @Program.exists_heapNextFree p.globalSize P.main P.bodies P.strings.code
  exact ⟨_, _, _, _, rfl, P.assemblable (by simp only [maxBytes]; omega), hinstrs⟩

/-- Where there is memory for its static data, the code of a scalar program does what the evaluation of the
tree does. Words of 32 bits have to suffice for the numbers of the instructions and for the addresses of the
static data. -/
theorem compile_scalar_runs {s : Settings} {name : String} {source : List UInt8} {code : Code}
    (h : (compile s name source).code = .ok code) (hscalar : (sourceTree s name source).isScalar)
    (hinstrs : code.instrs.length < 2 ^ 31) (hbytes : code.bytes ≤ 2 ^ 31) :
    ∃ img, code.assemble = .ok img ∧ ∀ size : Int, img.dataSize ≤ size → size ≤ maxBytes →
      ∃ m, img.load size = .ok m ∧ (∃ b, (sourceTree s name source).Behaves b) ∧
        ∀ b, (sourceTree s name source).Behaves b → m.Behaves img b := by
  have hsource := isSource_sourceTree s name source
  obtain ⟨p, hrules, -, hlower⟩ := elab_of_compile_ok h
  obtain ⟨P, hparts, -⟩ := hrules.exists_parts rfl hsource hlower
  obtain ⟨main, bodies, strings, rfl, hleads⟩ := hrules.leads rfl hsource hscalar hlower
  obtain ⟨a, -, ha, ha'⟩ := @Program.exists_heapNextFree p.globalSize main bodies strings
  have hassemblable : (Program.layout p.globalSize main bodies strings).Assemblable := by
    rw [hparts]
    exact P.assemblable (by simp only [maxBytes]; omega)
  obtain ⟨G, hstart, hsize⟩ := Program.exists_globals ⟨hassemblable, hinstrs⟩ hbytes
  obtain ⟨Γ, hΓ⟩ := hleads (le_of_eq hsize.symm)
  refine ⟨_, Code.assemble_eq hassemblable, fun size hdata hmax => ?_⟩
  set img := (Program.layout p.globalSize main bodies strings).image
  have hload : img.load size = .ok { memory := .ofChunks img.chunks size.toNat } := by
    rw [Image.load, if_neg (by omega), if_neg (by omega)]
  obtain ⟨i, mem, hi, hready, hreaches⟩ := Globals.reaches_main hstart hsize hbytes
    (Memory.toList_ofChunks img.chunks size.toNat)
  exact ⟨_, hload, Globals.behaves_of_leads (fun fuel => (hΓ hi.left hready).behind hreaches) hi.right⟩

lemma Except.exists_ok_of_any {α ε : Type} {x : Except ε α} {p : α → Bool} (h : x.toOption.any p) :
    ∃ a, x = .ok a ∧ p a := by
  cases x with
  | error e => cases h
  | ok a => exact ⟨a, rfl, h⟩

/-- A source with a loop, a block with a variable of its own, a character where an integer is needed, and a
division by zero at the end. -/
def countdownSource : List UInt8 := encode
  "main { var i := 2; while i != 0 { var c := <char>(97); print c + i; i := i - 1; } print 6 / i; }"

theorem compile_scalar_runs_countdownSource : ∃ code img m m',
    (compile .standard "countdown" countdownSource).code = .ok code ∧ code.assemble = .ok img ∧
      img.load 2048 = .ok m ∧ m.EndsIn img m' ∧
        m'.output.data.toList = encode "9998Runtime error: integer divide by zero\n" := by
  have htree : (sourceTree .standard "countdown" countdownSource).isScalar ∧
      (sourceTree .standard "countdown" countdownSource).eval 3 =
        .error (.divideByZero (encode "9998")) := by
    decide +kernel
  have hcompiled : (compile .standard "countdown" countdownSource).code.toOption.any fun code =>
      code.instrs.length < 2 ^ 31 && code.bytes ≤ 2 ^ 31 &&
        code.assemble.toOption.any (·.dataSize ≤ 2048) := by
    decide +kernel
  obtain ⟨code, hcode, hsizes⟩ := Except.exists_ok_of_any hcompiled
  simp only [Bool.and_eq_true, decide_eq_true_eq] at hsizes
  obtain ⟨img, himg, hruns⟩ := compile_scalar_runs hcode htree.1 hsizes.1.1 hsizes.1.2
  have hdata : img.dataSize ≤ 2048 := by
    have hany := hsizes.2
    rw [himg] at hany
    exact of_decide_eq_true hany
  obtain ⟨m, hload, -, hbehaves⟩ := hruns 2048 (by omega) (by decide)
  obtain ⟨m', hends, houtput⟩ := hbehaves (.dividesByZero (encode "9998")) ⟨3, htree.2⟩
  exact ⟨code, img, m, m', hcode, himg, hload, hends, houtput⟩

end SubrLang
