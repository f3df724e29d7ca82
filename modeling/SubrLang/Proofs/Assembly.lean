import Mathlib
import SubrLang.Machine.Image

/-!
# Assembled programs

What assembling makes of a program, part by part. The instructions of a program are its executed lines
(`Code.instrs`), and a label stands for a number of instructions or of bytes in front of it
(`Code.marks`, `Code.addresses`). All of these go over to a program that is put together from parts.

* **Success.** A program in which no label is defined twice and every label that is mentioned is defined
  can be assembled, unless a block of zeros is larger than there are addresses (`Code.assemble_eq`).
* **Contents.** The image then has the instructions and the data of the program, and each label stands
  for the number or the address of its place (`Code.image`).
-/

namespace SubrLang

/-! ## Labels, instructions and data of a program -/

namespace Instr

/-- The number of instructions that a line adds to the code. -/
def weight (i : Instr) : Nat := if i.isCode then 1 else 0

/-- The code label that a line defines. -/
def codeLabel? : Instr → Option Label
  | label .label x => some x
  | _ => none

/-- The data label that a line defines. -/
def dataLabel? : Instr → Option Label
  | label .dlabel x => some x
  | _ => none

/-- The label that a line refers to. -/
def mentioned? : Instr → Option Label
  | label .label _ | label .dlabel _ => none
  | label _ x => some x
  | _ => none

/-- Whether a block of zeros has a size that memory can have. -/
def isSized : Instr → Bool
  | int .dataZ n => 0 ≤ n && n ≤ maxBytes
  | _ => true

end Instr

namespace Code

/-- The lines that are executed. -/
def instrs (c : Code) : Code := c.filter (·.instr.isCode)

/-- The number of bytes of data. -/
def bytes (c : Code) : Nat := (c.map (·.instr.dataSize)).sum

/-- The code labels, each with the number of instructions in front of it. -/
def marks (pc : Nat) : Code → List (Label × Nat)
  | [] => []
  | line :: rest =>
    (line.instr.codeLabel?.map (·, pc)).toList ++ marks (pc + line.instr.weight) rest

/-- The data labels, each with the number of bytes in front of it. -/
def addresses (addr : Nat) : Code → List (Label × Nat)
  | [] => []
  | line :: rest =>
    (line.instr.dataLabel?.map (·, addr)).toList ++ addresses (addr + line.instr.dataSize) rest

/-- The code labels that are defined. -/
def codeLabels (c : Code) : List Label := c.filterMap (·.instr.codeLabel?)

/-- The data labels that are defined. -/
def dataLabels (c : Code) : List Label := c.filterMap (·.instr.dataLabel?)

/-- The labels that are referred to. -/
def mentions (c : Code) : List Label := c.filterMap (·.instr.mentioned?)

variable (a b c : Code)

@[simp] lemma instrs_append : (a ++ b).instrs = a.instrs ++ b.instrs := by simp [instrs]

@[simp] lemma bytes_append : (a ++ b).bytes = a.bytes + b.bytes := by simp [bytes]

@[simp] lemma codeLabels_append : (a ++ b).codeLabels = a.codeLabels ++ b.codeLabels := by
  simp [codeLabels]

@[simp] lemma dataLabels_append : (a ++ b).dataLabels = a.dataLabels ++ b.dataLabels := by
  simp [dataLabels]

@[simp] lemma mentions_append : (a ++ b).mentions = a.mentions ++ b.mentions := by
  simp [mentions]

@[simp] lemma instrs_nil : instrs [] = [] := rfl

@[simp] lemma bytes_nil : bytes [] = 0 := rfl

@[simp] lemma codeLabels_nil : codeLabels [] = [] := rfl

@[simp] lemma dataLabels_nil : dataLabels [] = [] := rfl

@[simp] lemma mentions_nil : mentions [] = [] := rfl

variable {c} in
lemma mem_mentions_head {line : Line} {l : Label} (h : l ∈ line.instr.mentioned?) :
    l ∈ mentions (line :: c) := by
  simp [mentions, Option.mem_def.mp h]

variable {c} in
lemma mem_mentions_tail {line : Line} {l : Label} (h : l ∈ c.mentions) :
    l ∈ mentions (line :: c) := by
  rw [← List.singleton_append, mentions_append]
  exact List.mem_append_right _ h

lemma length_instrs_cons (line : Line) :
    (instrs (line :: c)).length = line.instr.weight + c.instrs.length := by
  by_cases h : line.instr.isCode <;> simp [instrs, Instr.weight, h, Nat.add_comm]

lemma marks_append (pc : Nat) : (a ++ b).marks pc = a.marks pc ++ b.marks (pc + a.instrs.length) := by
  induction a generalizing pc with
  | nil => simp [marks]
  | cons line a ih =>
    simp only [List.cons_append, marks, ih, List.append_assoc, length_instrs_cons, Nat.add_assoc]

lemma addresses_append (addr : Nat) :
    (a ++ b).addresses addr = a.addresses addr ++ b.addresses (addr + a.bytes) := by
  induction a generalizing addr with
  | nil => simp [addresses]
  | cons line a ih =>
    simp only [List.cons_append, addresses, ih, List.append_assoc, bytes, List.map_cons,
      List.sum_cons, Nat.add_assoc]

lemma map_fst_marks (pc : Nat) : (c.marks pc).map (·.1) = c.codeLabels := by
  induction c generalizing pc with
  | nil => rfl
  | cons line c ih =>
    simp only [marks, List.map_append, ih, codeLabels, List.filterMap_cons]
    cases line.instr.codeLabel? <;> simp

lemma map_fst_addresses (addr : Nat) : (c.addresses addr).map (·.1) = c.dataLabels := by
  induction c generalizing addr with
  | nil => rfl
  | cons line c ih =>
    simp only [addresses, List.map_append, ih, dataLabels, List.filterMap_cons]
    cases line.instr.dataLabel? <;> simp

/-- The label in front of a part of a program stands for the number of instructions before the part. -/
lemma mem_marks_label (l : Label) : (l, a.instrs.length) ∈ (a ++ (label l ++ b)).marks 0 := by
  rw [marks_append]
  exact List.mem_append_right _ (by simp [label, one, marks, Instr.codeLabel?])

/-- The label of a cell stands for the number of bytes before the cell. -/
lemma mem_addresses_cell (l : Label) (i : Instr) :
    (l, a.bytes) ∈ (a ++ (cell l i ++ b)).addresses 0 := by
  rw [addresses_append]
  exact List.mem_append_right _ (by simp [cell, addresses, Instr.dataLabel?])

/-- No label stands behind the last instruction of the code. -/
lemma le_of_mem_marks {pc i : Nat} {l : Label} (h : (l, i) ∈ c.marks pc) :
    pc ≤ i ∧ i ≤ pc + c.instrs.length := by
  induction c generalizing pc with
  | nil => simp [marks] at h
  | cons line c ih =>
    rw [length_instrs_cons]
    rcases List.mem_append.mp h with h | h
    · cases hl : line.instr.codeLabel? with
      | none => simp [hl] at h
      | some x =>
        simp only [hl, Option.map_some, Option.mem_toList, Option.some.injEq,
          Prod.mk.injEq] at h
        omega
    · have := ih h
      omega

end Code

/-! ## Looking up labels -/

/-- In a list without repeated keys a key is found with its value. -/
lemma lookup_of_mem {α β : Type} [BEq α] [LawfulBEq α] {l : List (α × β)} {a : α} {b : β}
    (hl : (l.map (·.1)).Nodup) (h : (a, b) ∈ l) : l.lookup a = some b := by
  obtain ⟨l₁, l₂, rfl⟩ := List.append_of_mem h
  refine List.lookup_eq_some_iff.mpr ⟨l₁, l₂, rfl, fun p hp => ?_⟩
  simp only [List.map_append, List.map_cons, List.nodup_append] at hl
  have hne : p.1 ≠ a := hl.2.2 p.1 (List.mem_map_of_mem hp) a (by simp)
  simpa using hne.symm

lemma lookup_of_notMem {α β : Type} [BEq α] [LawfulBEq α] {l : List (α × β)} {a : α}
    (h : a ∉ l.map (·.1)) : l.lookup a = none := by
  refine List.lookup_eq_none_iff.mpr fun p hp => ?_
  have hne : a ≠ p.1 := fun heq => h (heq ▸ List.mem_map_of_mem hp)
  simpa using hne

namespace Labels

/-- The labels of a program that stands behind `pc` instructions and `addr` bytes, in front of those
found before. -/
def extended (ls : Labels) (pc addr : Nat) (c : Code) : Labels where
  code := ((c.marks pc).map fun p => (p.1, Int32.ofNat p.2)).reverse ++ ls.code
  data := ((c.addresses addr).map fun p => (p.1, Int32.ofNat p.2)).reverse ++ ls.data

/-- The labels of a program. -/
def ofCode (c : Code) : Labels := extended {} 0 0 c

variable {c : Code}

lemma code_ofCode (c : Code) :
    (ofCode c).code = ((c.marks 0).map fun p => (p.1, Int32.ofNat p.2)).reverse := by
  simp [ofCode, extended]

lemma data_ofCode (c : Code) :
    (ofCode c).data = ((c.addresses 0).map fun p => (p.1, Int32.ofNat p.2)).reverse := by
  simp [ofCode, extended]

lemma lookup_code_ofCode (hn : c.codeLabels.Nodup) {l : Label} {i : Nat} (h : (l, i) ∈ c.marks 0) :
    (ofCode c).code.lookup l = some (Int32.ofNat i) := by
  rw [code_ofCode]
  refine lookup_of_mem ?_ (List.mem_reverse.mpr (List.mem_map_of_mem h))
  have hkeys : (c.marks 0).map ((·.1) ∘ fun p => (p.1, Int32.ofNat p.2)) = c.codeLabels :=
    Code.map_fst_marks c 0
  simpa [List.map_reverse, hkeys] using hn

lemma lookup_data_ofCode (hn : c.dataLabels.Nodup) {l : Label} {n : Nat}
    (h : (l, n) ∈ c.addresses 0) : (ofCode c).data.lookup l = some (Int32.ofNat n) := by
  rw [data_ofCode]
  refine lookup_of_mem ?_ (List.mem_reverse.mpr (List.mem_map_of_mem h))
  have hkeys : (c.addresses 0).map ((·.1) ∘ fun p => (p.1, Int32.ofNat p.2)) = c.dataLabels :=
    Code.map_fst_addresses c 0
  simpa [List.map_reverse, hkeys] using hn

lemma find?_data {l : Label} {n : Nat} (hn : c.dataLabels.Nodup) (h : (l, n) ∈ c.addresses 0) :
    (ofCode c).find? l = some (Int32.ofNat n) := by
  simp [find?, lookup_data_ofCode hn h]

lemma find?_code {l : Label} {i : Nat} (hn : (c.codeLabels ++ c.dataLabels).Nodup)
    (h : (l, i) ∈ c.marks 0) : (ofCode c).find? l = some (Int32.ofNat i) := by
  have hmem : l ∈ c.codeLabels := Code.map_fst_marks c 0 ▸ List.mem_map_of_mem h
  have hdata : (ofCode c).data.lookup l = none := by
    refine lookup_of_notMem fun hl => ?_
    have hkeys : (c.addresses 0).map ((·.1) ∘ fun p => (p.1, Int32.ofNat p.2)) = c.dataLabels :=
      Code.map_fst_addresses c 0
    rw [data_ofCode, List.map_reverse, List.map_map, hkeys, List.mem_reverse] at hl
    exact List.disjoint_of_nodup_append hn hmem hl
  simp [find?, hdata, lookup_code_ofCode (List.nodup_append.mp hn).1 h]

lemma isSome_lookup_iff {α β : Type} [BEq α] [LawfulBEq α] {l : List (α × β)} {a : α} :
    (l.lookup a).isSome ↔ a ∈ l.map (·.1) := by
  constructor
  · intro h
    by_contra hmem
    simp [lookup_of_notMem hmem] at h
  · intro h
    rw [Option.isSome_iff_ne_none]
    intro hnone
    obtain ⟨p, hp, rfl⟩ := List.mem_map.mp h
    simpa using List.lookup_eq_none_iff.mp hnone p hp

lemma isSome_find?_iff {ls : Labels} {l : Label} :
    (ls.find? l).isSome ↔ l ∈ ls.code.map (·.1) ∨ l ∈ ls.data.map (·.1) := by
  simp only [find?, Option.isSome_or, Bool.or_eq_true, isSome_lookup_iff]
  exact or_comm

lemma find?_eq_none_iff {ls : Labels} {l : Label} :
    ls.find? l = none ↔ l ∉ ls.code.map (·.1) ∧ l ∉ ls.data.map (·.1) := by
  rw [← not_or, ← isSome_find?_iff, Option.not_isSome_iff_eq_none]

lemma isSome_find?_ofCode {l : Label} :
    ((ofCode c).find? l).isSome ↔ l ∈ c.codeLabels ∨ l ∈ c.dataLabels := by
  rw [isSome_find?_iff, code_ofCode, data_ofCode]
  simp only [List.map_reverse, List.mem_reverse, List.map_map]
  rw [← Code.map_fst_marks c 0, ← Code.map_fst_addresses c 0]
  rfl

end Labels

/-! ## Assembling -/

namespace Assemble

/-- The labels found behind one more line. -/
def noted (ls : Labels) (pc addr : Nat) (i : Instr) : Labels where
  code := (i.codeLabel?.map (·, Int32.ofNat pc)).toList ++ ls.code
  data := (i.dataLabel?.map (·, Int32.ofNat addr)).toList ++ ls.data

lemma collect_cons {ls : Labels} {pc addr : Nat} {line : Line} {rest : Code}
    (hsize : line.instr.isSized) (hcode : ∀ l ∈ line.instr.codeLabel?, ls.find? l = none)
    (hdata : ∀ l ∈ line.instr.dataLabel?, ls.find? l = none) :
    collect pc addr ls (line :: rest) =
      collect (pc + line.instr.weight) (addr + line.instr.dataSize) (noted ls pc addr line.instr)
        rest := by
  conv_lhs => unfold collect
  split
  · next x hx => simp [hx, hcode x (by simp [hx, Instr.codeLabel?]), noted, Instr.codeLabel?,
      Instr.dataLabel?, Instr.weight, Instr.isCode, Instr.dataSize]
  · next x hx => simp [hx, hdata x (by simp [hx, Instr.dataLabel?]), noted, Instr.codeLabel?,
      Instr.dataLabel?, Instr.weight, Instr.isCode, Instr.dataSize]
  · next n hn =>
    simp only [hn, Instr.isSized, Bool.and_eq_true, decide_eq_true_eq] at hsize
    rw [if_neg (by omega), if_neg (by omega), hn]
    rfl
  · next i h₁ h₂ h₃ =>
    have hc : line.instr.codeLabel? = none := by
      unfold Instr.codeLabel?
      split <;> simp_all
    have hd : line.instr.dataLabel? = none := by
      unfold Instr.dataLabel?
      split <;> simp_all
    simp only [noted, hc, hd, Option.map_none, Option.toList_none, List.nil_append, Instr.weight]
    split <;> rfl

lemma extended_cons (ls : Labels) (pc addr : Nat) (line : Line) (rest : Code) :
    ls.extended pc addr (line :: rest) =
      (noted ls pc addr line.instr).extended (pc + line.instr.weight) (addr + line.instr.dataSize)
        rest := by
  simp only [Labels.extended, noted, Code.marks, Code.addresses, List.map_append,
    List.reverse_append, List.append_assoc]
  cases line.instr.codeLabel? <;> cases line.instr.dataLabel? <;> rfl

/-- Collecting the labels of a program that defines no label twice. -/
lemma collect_eq (c : Code) (hsize : ∀ line ∈ c, line.instr.isSized) :
    ∀ (pc addr : Nat) (ls : Labels), (c.codeLabels ++ c.dataLabels).Nodup →
      (∀ l ∈ c.codeLabels ++ c.dataLabels, ls.find? l = none) →
      collect pc addr ls c = .ok (ls.extended pc addr c) := by
  induction c with
  | nil =>
    intro pc addr ls _ _
    rfl
  | cons line c ih =>
    intro pc addr ls hn hnew
    have hcode : Code.codeLabels (line :: c) =
        line.instr.codeLabel?.toList ++ Code.codeLabels c := by
      cases h : line.instr.codeLabel? <;> simp [Code.codeLabels, h]
    have hdata : Code.dataLabels (line :: c) =
        line.instr.dataLabel?.toList ++ Code.dataLabels c := by
      cases h : line.instr.dataLabel? <;> simp [Code.dataLabels, h]
    rw [hcode, hdata] at hn hnew
    rw [collect_cons (hsize line List.mem_cons_self)
      (fun l hl => hnew l (by simp [Option.mem_def.mp hl]))
      (fun l hl => hnew l (by simp [Option.mem_def.mp hl])), extended_cons]
    refine ih (fun l hl => hsize l (List.mem_cons_of_mem _ hl)) _ _ _ ?_ ?_
    · exact hn.sublist (List.Sublist.append (List.sublist_append_right _ _)
        (List.sublist_append_right _ _))
    · intro l hl
      have hperm : (line.instr.codeLabel?.toList ++ Code.codeLabels c ++
          (line.instr.dataLabel?.toList ++ Code.dataLabels c)).Perm
          (line.instr.codeLabel?.toList ++ line.instr.dataLabel?.toList ++
            (Code.codeLabels c ++ Code.dataLabels c)) := by
        simpa only [List.append_assoc] using (List.perm_append_comm_assoc _ _ _).append_left _
      have hls := Labels.find?_eq_none_iff.mp
        (hnew l (hperm.mem_iff.mpr (List.mem_append_right _ hl)))
      -- what the line defines is not defined again behind it
      have hline : l ∉ line.instr.codeLabel?.toList ++ line.instr.dataLabel?.toList := fun h =>
        List.disjoint_of_nodup_append (hperm.nodup hn) h hl
      rw [Labels.find?_eq_none_iff]
      cases hc : line.instr.codeLabel? <;> cases hd : line.instr.dataLabel? <;>
        simp_all [noted]

/-- Labels are collected only if there are addresses for all blocks of zeros. -/
lemma isSized_of_collect {c : Code} : ∀ {pc addr : Nat} {ls ls' : Labels},
    collect pc addr ls c = .ok ls' → ∀ line ∈ c, line.instr.isSized := by
  induction c with
  | nil => simp
  | cons line c ih =>
    intro pc addr ls ls' h
    refine List.forall_mem_cons.mpr ?_
    unfold collect at h
    split at h
    · next hi =>
      split at h
      · cases h
      · exact ⟨by rw [hi]; rfl, ih h⟩
    · next hi =>
      split at h
      · cases h
      · exact ⟨by rw [hi]; rfl, ih h⟩
    · next n hi =>
      split at h
      · cases h
      · split at h
        · cases h
        · refine ⟨?_, ih h⟩
          simp only [hi, Instr.isSized, Bool.and_eq_true, decide_eq_true_eq]
          omega
    · next hlabel hdlabel hzeros =>
      refine ⟨?_, ih h⟩
      unfold Instr.isSized
      split
      · next n hi => exact absurd hi (hzeros n)
      · rfl

/-- The line with what its label operand stands for. -/
def resolved (ls : Labels) (line : Line) : Resolved where
  line := line
  target := match line.instr with
    | .label _ x => (ls.find? x).getD 0
    | _ => 0

lemma resolve_eq {ls : Labels} {pc : Nat} {line : Line} (hcode : line.instr.isCode)
    (h : ∀ l ∈ line.instr.mentioned?, (ls.find? l).isSome) :
    resolve ls pc line = .ok (resolved ls line) := by
  cases hi : line.instr with
  | label o x =>
    have hm : x ∈ line.instr.mentioned? := by
      rw [hi] at hcode ⊢
      cases o <;> simp_all [Instr.mentioned?, Instr.isCode]
    obtain ⟨t, ht⟩ := Option.isSome_iff_exists.mp (h x hm)
    simp [resolve, resolved, hi, ht]
  | plain | int | float | dataS => simp [resolve, resolved, hi]

lemma code_eq {ls : Labels} (c : Code) (h : ∀ l ∈ c.mentions, (ls.find? l).isSome) :
    ∀ pc, code ls pc c = .ok (c.instrs.map (resolved ls)) := by
  induction c with
  | nil =>
    intro pc
    rfl
  | cons line c ih =>
    intro pc
    have htail : ∀ l ∈ Code.mentions c, (ls.find? l).isSome := fun l hl =>
      h l (Code.mem_mentions_tail hl)
    unfold code
    by_cases hcode : line.instr.isCode
    · have hline : ∀ l ∈ line.instr.mentioned?, (ls.find? l).isSome := fun l hl =>
        h l (Code.mem_mentions_head hl)
      rw [if_pos hcode, resolve_eq hcode hline, ih htail]
      simp [Code.instrs, hcode]
      rfl
    · rw [if_neg hcode, ih htail]
      simp [Code.instrs, hcode]

/-- What a line lays out. -/
def laidOut (ls : Labels) (i : Instr) : Chunk :=
  match chunk ls 0 i with
  | .ok c => c
  | .error _ => .bytes []

lemma chunk_eq {ls : Labels} {addr : Nat} {i : Instr}
    (h : ∀ l ∈ i.mentioned?, (ls.find? l).isSome) : chunk ls addr i = .ok (laidOut ls i) := by
  unfold laidOut chunk
  split <;> try rfl
  next x =>
    obtain ⟨t, ht⟩ := Option.isSome_iff_exists.mp (h x (by simp [Instr.mentioned?]))
    simp [ht]

lemma size_laidOut {ls : Labels} {i : Instr} (h : ∀ l ∈ i.mentioned?, (ls.find? l).isSome) :
    (laidOut ls i).size = i.dataSize := by
  have hi : chunk ls 0 i = .ok (laidOut ls i) := chunk_eq h
  generalize laidOut ls i = c at hi
  unfold chunk at hi
  split at hi
  case h_5 => split at hi <;> cases hi; rfl
  case h_6 => cases hi; simp [Chunk.size, Instr.dataSize]
  case h_7 =>
    cases hi
    unfold Instr.dataSize
    split <;> simp_all [Chunk.size]
  all_goals cases hi; rfl

lemma chunks_eq {ls : Labels} (c : Code) (h : ∀ l ∈ c.mentions, (ls.find? l).isSome) :
    ∀ addr, chunks ls addr c = .ok (c.map fun line => laidOut ls line.instr) := by
  induction c with
  | nil =>
    intro addr
    rfl
  | cons line c ih =>
    intro addr
    have hline : ∀ l ∈ line.instr.mentioned?, (ls.find? l).isSome := fun l hl =>
      h l (Code.mem_mentions_head hl)
    unfold chunks
    rw [chunk_eq hline, ih fun l hl => h l (Code.mem_mentions_tail hl)]
    rfl

end Assemble

namespace Code

/-- Whether labels are used as they have to be for assembling. -/
structure Assemblable (c : Code) : Prop where
  sized : ∀ line ∈ c, line.instr.isSized
  nodup : (c.codeLabels ++ c.dataLabels).Nodup
  defined : ∀ l ∈ c.mentions, l ∈ c.codeLabels ∨ l ∈ c.dataLabels

/-- The image of a program that can be assembled. -/
def image (c : Code) : Image where
  code := (c.instrs.map (Assemble.resolved (.ofCode c))).toArray
  chunks := c.map fun line => Assemble.laidOut (.ofCode c) line.instr
  labels := .ofCode c

variable {c : Code} (h : c.Assemblable)
include h

lemma Assemblable.isSome_find? : ∀ l ∈ c.mentions, ((Labels.ofCode c).find? l).isSome :=
  fun l hl => Labels.isSome_find?_ofCode.mpr (h.defined l hl)

theorem assemble_eq : c.assemble = .ok c.image := by
  unfold assemble
  rw [Assemble.collect_eq c h.sized 0 0 {} h.nodup fun _ _ => rfl]
  change (Assemble.code (.ofCode c) 0 c >>= _) = _
  rw [Assemble.code_eq c h.isSome_find?]
  change (Assemble.chunks (.ofCode c) 0 c >>= _) = _
  rw [Assemble.chunks_eq c h.isSome_find?]
  rfl

omit h in
lemma isSized_of_assemble {img : Image} (h : c.assemble = .ok img) :
    ∀ line ∈ c, line.instr.isSized := by
  unfold assemble at h
  cases hcollect : Assemble.collect 0 0 {} c with
  | error e =>
    rw [hcollect] at h
    cases h
  | ok ls => exact Assemble.isSized_of_collect hcollect

omit h in
lemma length_code_image (c : Code) : c.image.code.size = c.instrs.length := by
  simp [image]

/-- The label operand of an instruction of the image is what its label stands for. -/
lemma find?_target {i : Nat} {r : Resolved} {o : LabelOp} {l : Label}
    (hr : c.image.code[i]? = some r) (hi : r.instr = .label o l) :
    c.image.labels.find? l = some r.target := by
  simp only [image, List.getElem?_toArray, List.getElem?_map, Option.map_eq_some_iff] at hr
  obtain ⟨line, hline, rfl⟩ := hr
  have hline := List.mem_filter.mp (List.mem_of_getElem? hline)
  have hi : line.instr = .label o l := hi
  have hmention : l ∈ line.instr.mentioned? := by
    have hcode := hline.2
    rw [hi] at hcode ⊢
    cases o <;> first | rfl | cases hcode
  obtain ⟨t, ht⟩ := Option.isSome_iff_exists.mp
    (h.isSome_find? l (List.mem_filterMap.mpr ⟨line, hline.1, hmention⟩))
  change (Labels.ofCode c).find? l = _
  simp [Assemble.resolved, hi, ht]

omit h

/-- The bytes that code lays out, where labels stand for what a table says. -/
def dataOf (ls : Labels) (c : Code) : List UInt8 :=
  c.flatMap fun line => (Assemble.laidOut ls line.instr).toList

@[simp] lemma dataOf_append (ls : Labels) (a b : Code) :
    (a ++ b).dataOf ls = a.dataOf ls ++ b.dataOf ls := by
  simp [dataOf]

lemma data_image (c : Code) : c.image.data = c.dataOf (.ofCode c) := by
  simp [Image.data, image, dataOf, List.flatMap_map]

lemma length_dataOf {ls : Labels} (hls : ∀ l ∈ c.mentions, (ls.find? l).isSome) :
    (c.dataOf ls).length = c.bytes := by
  simp only [dataOf, List.length_flatMap, Chunk.length_toList, bytes]
  refine congrArg List.sum (List.map_congr_left fun line hline => ?_)
  exact Assemble.size_laidOut fun l hl => hls l (List.mem_filterMap.mpr ⟨line, hline, hl⟩)

/-- The static data of a program take as many bytes as its directives say. -/
lemma dataSize_image (h : c.Assemblable) : c.image.dataSize = c.bytes := by
  rw [← Image.length_data, data_image, length_dataOf h.isSome_find?]

/-- The static data behind the part that lays out as many bytes. -/
lemma drop_data_image {a b : Code} (h : (a ++ b).Assemblable) :
    (a ++ b).image.data.drop a.bytes = b.dataOf (.ofCode (a ++ b)) := by
  have hlen : (a.dataOf (.ofCode (a ++ b))).length = a.bytes :=
    length_dataOf fun l hl => h.isSome_find? l (by simp [hl])
  rw [data_image, dataOf_append, ← hlen, List.drop_left]

end Code

end SubrLang
