import SubrLang.Proofs.Assembly

/-!
# The layout of an image

Which programs can be assembled, and what their images hold, said without the tables that assembling keeps.
The place of a label is read off the lines in front of the one that defines it (`Code.before`), and a number
in the data is a row of bytes with the low one first (`littleEndian`).

* **Labels.** A program has labels of two kinds in one namespace. If none is defined twice, each stands for
  the number of instructions or of bytes in front of it, wherever it is used (`Code.find?_ofCode`).
* **Success.** Assembling gets past a line only if its label is new and its block of zeros is not negative
  (`Assemble.collect_cons_inv`), and to an image only if every label that is mentioned was found
  (`Code.assemblable_of_assemble`).
* **Contents.** `Code.LaidOut` lists what the image of a program holds, and `Code.assemble_lays_out` says that
  assembling succeeds exactly for programs that use labels as they have to, with such an image.
-/

namespace SubrLang

/-! ## Numbers as bytes -/

/-- The lowest bytes of a number, the low one first. -/
def littleEndian (size : Nat) (v : Int) : List UInt8 :=
  (List.range size).map fun k => UInt8.ofInt (v / 256 ^ k)

lemma ofInt_eq_iff {v w : Int} : UInt8.ofInt v = UInt8.ofInt w ↔ v % 256 = w % 256 := by
  rw [← UInt8.toNat_inj, UInt8.ofInt, UInt8.ofInt, UInt8.toNat_ofNat', UInt8.toNat_ofNat']
  omega

lemma littleEndian_add (m n : Nat) (v : Int) :
    littleEndian (m + n) v = littleEndian m v ++ littleEndian n (v / 256 ^ m) := by
  simp only [littleEndian, List.range_add, List.map_append, List.map_map, Function.comp_def]
  refine congrArg (_ ++ ·) (List.map_congr_left fun k _ => ?_)
  rw [pow_add, Int.ediv_ediv_of_nonneg (by positivity)]

/-- What lies above the lowest bytes does not matter for them. -/
lemma littleEndian_emod (size : Nat) (v : Int) :
    littleEndian size (v % 256 ^ size) = littleEndian size v := by
  refine List.map_congr_left fun k hk => ofInt_eq_iff.mpr ?_
  obtain ⟨d, rfl⟩ := Nat.exists_eq_add_of_lt (List.mem_range.mp hk)
  -- what is taken away is a multiple of a higher power, so the division leaves a multiple of 256
  have hsplit : v % 256 ^ (k + d + 1) =
      v + 256 ^ k * (256 * -(256 ^ d * (v / 256 ^ (k + d + 1)))) := by
    rw [Int.emod_def]
    ring
  rw [hsplit, Int.add_mul_ediv_left _ _ (by positivity), Int.add_mul_emod_self_left]

lemma wordBytes_eq (w : UInt32) : wordBytes w = littleEndian 4 w.toNat := by
  have hbyte : ∀ (b : UInt8) (v : Int), (b.toNat : Int) = v % 256 → b = UInt8.ofInt v := by
    intro b v h
    rw [← UInt8.toNat_inj, UInt8.ofInt, UInt8.toNat_ofNat']
    omega
  simp only [wordBytes, littleEndian, List.range_succ, List.range_zero, List.nil_append,
    List.cons_append, List.map_cons, List.map_nil]
  congr 1
  · exact hbyte _ _ (by simp)
  congr 1
  · exact hbyte _ _ (by simp [Nat.shiftRight_eq_div_pow])
  congr 1
  · exact hbyte _ _ (by simp [Nat.shiftRight_eq_div_pow])
  congr 1
  · exact hbyte _ _ (by simp [Nat.shiftRight_eq_div_pow])

lemma wordBytes_ofInt (v : Int) : wordBytes (UInt32.ofInt v) = littleEndian 4 v := by
  have hv : ((UInt32.ofInt v).toNat : Int) = v % 256 ^ 4 := by
    rw [UInt32.ofInt, UInt32.toNat_ofNat']
    omega
  rw [wordBytes_eq, hv, littleEndian_emod]

lemma wordBytes_ofNat (n : Nat) : wordBytes (Int32.ofNat n).toUInt32 = littleEndian 4 n := by
  rw [← wordBytes_ofInt]
  refine congrArg wordBytes (UInt32.toNat_inj.mp ?_)
  rw [UInt32.ofInt, UInt32.toNat_ofNat']
  have h : (Int32.ofNat n).toUInt32.toNat = n % 2 ^ 32 := by simp
  omega

lemma wordBytes_halves (w : UInt64) :
    wordBytes w.toUInt32 ++ wordBytes (w >>> 32).toUInt32 = littleEndian 8 w.toNat := by
  have hlow : (w.toUInt32.toNat : Int) = (w.toNat : Int) % 256 ^ 4 := by simp
  have hhigh : ((w >>> 32).toUInt32.toNat : Int) = (w.toNat : Int) / 256 ^ 4 := by
    have := w.toNat_lt
    simp [Nat.shiftRight_eq_div_pow]
    omega
  rw [littleEndian_add 4 4, wordBytes_eq, wordBytes_eq, hlow, hhigh, littleEndian_emod]

/-! ## What a program says about its image -/

namespace Instr

/-- The label that a line defines. -/
def defined? (i : Instr) : Option Label := i.codeLabel?.or i.dataLabel?

/-- What a directive lays out, where labels stand for numbers. -/
def layout (value : Label → Int) : Instr → List UInt8
  | int .dataC v => littleEndian 1 v
  | int .dataI v => littleEndian 4 v
  | int .dataZ n => List.replicate n.toNat 0
  | float .dataF v => littleEndian 8 v.bits.toNat
  | label .dataD x => littleEndian 4 (value x)
  | dataS bs => bs ++ [0]
  | _ => []

/-- No line defines labels of both kinds. -/
lemma dataLabel?_of_codeLabel? {i : Instr} {l : Label} (h : i.codeLabel? = some l) :
    i.dataLabel? = none := by
  unfold codeLabel? at h
  split at h
  · rfl
  · cases h

lemma defined?_eq_some_iff {i : Instr} {l : Label} :
    i.defined? = some l ↔ i.codeLabel? = some l ∨ i.dataLabel? = some l := by
  unfold defined?
  cases hcode : i.codeLabel? with
  | none => simp
  | some x => simp [dataLabel?_of_codeLabel? hcode]

lemma isCode_eq (i : Instr) : i.isCode = (i.opcode != .label .label && !i.opcode.isData) := by
  cases i with
  | plain | dataS => rfl
  | int o | float o | label o => cases o <;> rfl

end Instr

namespace Code

/-- The labels that are defined, of code and of data, in order. -/
def labels (c : Code) : List Label := c.filterMap (·.instr.defined?)

/-- The lines in front of the one that defines a label. -/
def before (c : Code) (l : Label) : Code := c.takeWhile (·.instr.defined? != some l)

/-- What a label stands for: a data label for the bytes of data in front of it, a code label for the
instructions. -/
def valueOf (c : Code) (l : Label) : Int :=
  if l ∈ c.dataLabels then (c.before l).bytes else (c.before l).instrs.length

/-- Whether a program uses labels as it has to and says no negative size. -/
structure WellLabelled (c : Code) : Prop where
  nodup : c.labels.Nodup
  defined : ∀ l ∈ c.mentions, l ∈ c.labels
  nonneg : ∀ line ∈ c, ∀ n, line.instr = .int .dataZ n → 0 ≤ n

/-- What the image of a program holds. -/
structure LaidOut (c : Code) (img : Image) : Prop where
  /-- The code is what remains of the program without labels and data directives. -/
  code : img.code.toList.map (·.line) =
    c.filter fun line => line.instr.opcode != .label .label && !line.instr.opcode.isData
  codeLabels : ∀ l, (img.labels.code.lookup l).map Int32.toInt =
    if l ∈ c.codeLabels then some ((c.before l).instrs.length : Int) else none
  dataLabels : ∀ l, (img.labels.data.lookup l).map Int32.toInt =
    if l ∈ c.dataLabels then some ((c.before l).bytes : Int) else none
  targets : ∀ r ∈ img.code.toList, r.target.toInt = (r.instr.mentioned?.map c.valueOf).getD 0
  data : img.data = c.flatMap fun line => line.instr.layout c.valueOf

variable {c : Code} {l : Label}

lemma labels_perm (c : Code) : c.labels.Perm (c.codeLabels ++ c.dataLabels) := by
  induction c with
  | nil => exact .nil
  | cons line c ih =>
    simp only [labels, codeLabels, dataLabels, List.filterMap_cons, Instr.defined?] at ih ⊢
    cases hcode : line.instr.codeLabel? with
    | none =>
      cases hdata : line.instr.dataLabel? with
      | none => exact ih
      | some x => exact (ih.cons x).trans List.perm_middle.symm
    | some x =>
      rw [Instr.dataLabel?_of_codeLabel? hcode]
      exact ih.cons x

lemma mem_labels : l ∈ c.labels ↔ l ∈ c.codeLabels ∨ l ∈ c.dataLabels := by
  rw [(labels_perm c).mem_iff, List.mem_append]

/-- The line that defines a label stands behind those in front of it. -/
lemma exists_before (h : l ∈ c.labels) :
    ∃ line rest, c = c.before l ++ line :: rest ∧ line.instr.defined? = some l := by
  have hsplit : c.before l ++ c.dropWhile (·.instr.defined? != some l) = c :=
    List.takeWhile_append_dropWhile
  cases hdrop : c.dropWhile (·.instr.defined? != some l) with
  | nil =>
    obtain ⟨line, hline, hl⟩ := List.mem_filterMap.mp h
    have := List.dropWhile_eq_nil_iff.mp hdrop line hline
    simp [hl] at this
  | cons line rest =>
    refine ⟨line, rest, by rw [← hdrop, hsplit], ?_⟩
    have hne : c.dropWhile (·.instr.defined? != some l) ≠ [] := by simp [hdrop]
    have := List.head_dropWhile_not (fun line : Line => line.instr.defined? != some l) hne
    simpa [hdrop] using this

lemma length_instrs_before (h : l ∈ c.labels) : (c.before l).instrs.length ≤ c.instrs.length := by
  obtain ⟨line, rest, hc, -⟩ := exists_before h
  conv_rhs => rw [hc, instrs_append, List.length_append]
  exact Nat.le_add_right _ _

lemma bytes_before (h : l ∈ c.labels) : (c.before l).bytes ≤ c.bytes := by
  obtain ⟨line, rest, hc, -⟩ := exists_before h
  conv_rhs => rw [hc, bytes_append]
  exact Nat.le_add_right _ _

/-- A code label stands for the number of instructions in front of it. -/
lemma mem_marks_before (hn : c.labels.Nodup) (h : l ∈ c.codeLabels) :
    (l, (c.before l).instrs.length) ∈ c.marks 0 := by
  obtain ⟨line, rest, hc, hl⟩ := exists_before (mem_labels.mpr (.inl h))
  have hcode : line.instr.codeLabel? = some l := by
    refine (Instr.defined?_eq_some_iff.mp hl).resolve_right fun hdata => ?_
    have hmem : l ∈ c.dataLabels := List.mem_filterMap.mpr ⟨line, by rw [hc]; simp, hdata⟩
    exact absurd hmem (List.disjoint_of_nodup_append ((labels_perm c).nodup_iff.mp hn) h)
  have hmarks := marks_append (c.before l) (line :: rest) 0
  rw [← hc] at hmarks
  rw [hmarks]
  exact List.mem_append_right _ (by simp [marks, hcode])

/-- A data label stands for the number of bytes in front of it. -/
lemma mem_addresses_before (hn : c.labels.Nodup) (h : l ∈ c.dataLabels) :
    (l, (c.before l).bytes) ∈ c.addresses 0 := by
  obtain ⟨line, rest, hc, hl⟩ := exists_before (mem_labels.mpr (.inr h))
  have hdata : line.instr.dataLabel? = some l := by
    refine (Instr.defined?_eq_some_iff.mp hl).resolve_left fun hcode => ?_
    have hmem : l ∈ c.codeLabels := List.mem_filterMap.mpr ⟨line, by rw [hc]; simp, hcode⟩
    exact absurd h (List.disjoint_of_nodup_append ((labels_perm c).nodup_iff.mp hn) hmem)
  have haddresses := addresses_append (c.before l) (line :: rest) 0
  rw [← hc] at haddresses
  rw [haddresses]
  exact List.mem_append_right _ (by simp [addresses, hdata])

/-- What a label is resolved to is what it stands for. -/
lemma find?_ofCode (hn : c.labels.Nodup) (h : l ∈ c.labels) :
    ∃ n : Nat, c.valueOf l = n ∧ (Labels.ofCode c).find? l = some (Int32.ofNat n) := by
  have hn' := (labels_perm c).nodup_iff.mp hn
  by_cases hdata : l ∈ c.dataLabels
  · exact ⟨_, if_pos hdata,
      Labels.find?_data (List.nodup_append.mp hn').2.1 (mem_addresses_before hn hdata)⟩
  · exact ⟨_, if_neg hdata,
      Labels.find?_code hn' (mem_marks_before hn ((mem_labels.mp h).resolve_right hdata))⟩

end Code

/-! ## Success -/

namespace Assemble

lemma bind_eq_ok {ε α β : Type} {x : Except ε α} {f : α → Except ε β} {b : β} (h : x >>= f = .ok b) :
    ∃ a, x = .ok a ∧ f a = .ok b := by
  cases x with
  | error e => cases h
  | ok a => exact ⟨a, rfl, h⟩

variable {ls ls' : Labels} {pc addr : Nat}

/-- Collecting labels gets past a line only if the label that it defines is new. -/
lemma collect_cons_inv {line : Line} {rest : Code} (h : collect pc addr ls (line :: rest) = .ok ls') :
    (∀ l ∈ line.instr.defined?, ls.find? l = none) ∧
      collect (pc + line.instr.weight) (addr + line.instr.dataSize) (noted ls pc addr line.instr) rest =
        .ok ls' := by
  have hsize : line.instr.isSized := isSized_of_collect h line List.mem_cons_self
  have hnew : ∀ l ∈ line.instr.defined?, ls.find? l = none := by
    intro l hl
    rw [collect] at h
    split at h
    · next x hi =>
      obtain rfl : x = l := by simpa [hi, Instr.defined?, Instr.codeLabel?] using hl
      split at h
      · cases h
      · next hnone => simpa using hnone
    · next x hi =>
      obtain rfl : x = l := by simpa [hi, Instr.defined?, Instr.codeLabel?, Instr.dataLabel?] using hl
      split at h
      · cases h
      · next hnone => simpa using hnone
    · next n hi => simp [hi, Instr.defined?, Instr.codeLabel?, Instr.dataLabel?] at hl
    · next hcode hdata _ =>
      rcases Instr.defined?_eq_some_iff.mp hl with hl | hl
      · unfold Instr.codeLabel? at hl
        split at hl
        · next x hi => exact absurd hi (hcode x)
        · cases hl
      · unfold Instr.dataLabel? at hl
        split at hl
        · next x hi => exact absurd hi (hdata x)
        · cases hl
  refine ⟨hnew, ?_⟩
  rwa [collect_cons hsize (fun l hl => hnew l (Instr.defined?_eq_some_iff.mpr (.inl hl)))
    (fun l hl => hnew l (Instr.defined?_eq_some_iff.mpr (.inr hl)))] at h

lemma find?_noted_eq_none {i : Instr} {l : Label} (h : (noted ls pc addr i).find? l = none) :
    ls.find? l = none ∧ i.defined? ≠ some l := by
  simp only [Labels.find?_eq_none_iff, noted, List.map_append, List.mem_append, not_or] at h
  refine ⟨Labels.find?_eq_none_iff.mpr ⟨h.1.2, h.2.2⟩, fun hl => ?_⟩
  rcases Instr.defined?_eq_some_iff.mp hl with hl | hl
  · exact h.1.1 (by simp [hl])
  · exact h.2.1 (by simp [hl])

/-- Labels are collected only if no label is defined twice, or again. -/
lemma nodup_of_collect {c : Code} : ∀ {pc addr : Nat} {ls ls' : Labels},
    collect pc addr ls c = .ok ls' → c.labels.Nodup ∧ ∀ l ∈ c.labels, ls.find? l = none := by
  induction c with
  | nil => simp [Code.labels]
  | cons line c ih =>
    intro pc addr ls ls' h
    obtain ⟨hnew, hrest⟩ := collect_cons_inv h
    obtain ⟨hn, hfresh⟩ := ih hrest
    cases hl : line.instr.defined? with
    | none =>
      have hlabels : Code.labels (line :: c) = Code.labels c := by simp [Code.labels, hl]
      rw [hlabels]
      exact ⟨hn, fun l h => (find?_noted_eq_none (hfresh l h)).1⟩
    | some x =>
      have hlabels : Code.labels (line :: c) = x :: Code.labels c := by simp [Code.labels, hl]
      rw [hlabels, List.nodup_cons]
      refine ⟨⟨fun hx => (find?_noted_eq_none (hfresh x hx)).2 hl, hn⟩, ?_⟩
      refine List.forall_mem_cons.mpr ⟨hnew x hl, fun l h => (find?_noted_eq_none (hfresh l h)).1⟩

/-- Instructions are resolved only if the labels that they mention were found. -/
lemma isSome_of_code {c : Code} : ∀ {pc : Nat} {rs : List Resolved}, code ls pc c = .ok rs →
    ∀ line ∈ c, line.instr.isCode → ∀ l ∈ line.instr.mentioned?, (ls.find? l).isSome := by
  induction c with
  | nil => simp
  | cons line c ih =>
    intro pc rs h
    rw [code] at h
    refine List.forall_mem_cons.mpr ?_
    split at h
    · obtain ⟨r, hr, h⟩ := bind_eq_ok h
      obtain ⟨rs', hrs, -⟩ := bind_eq_ok h
      refine ⟨fun _ l hl => ?_, ih hrs⟩
      unfold resolve at hr
      split at hr
      · next o x hi =>
        obtain rfl : x = l := by
          rw [hi] at hl
          cases o <;> simp_all [Instr.mentioned?]
        split at hr
        · next t ht => simp [ht]
        · cases hr
      · next hnone =>
        cases hi : line.instr with
        | label o x => exact absurd hi (hnone o x)
        | plain | int | float | dataS => simp [hi, Instr.mentioned?] at hl
    · next hcode => exact ⟨fun h => absurd h hcode, ih h⟩

/-- Data are laid out only if the labels that they mention were found. -/
lemma isSome_of_chunks {c : Code} : ∀ {addr : Nat} {cs : List Chunk}, chunks ls addr c = .ok cs →
    ∀ line ∈ c, ∀ l, line.instr = .label .dataD l → (ls.find? l).isSome := by
  induction c with
  | nil => simp
  | cons line c ih =>
    intro addr cs h
    rw [chunks] at h
    obtain ⟨ch, hch, h⟩ := bind_eq_ok h
    obtain ⟨cs', hcs, -⟩ := bind_eq_ok h
    refine List.forall_mem_cons.mpr ⟨fun l hi => ?_, ih hcs⟩
    rw [hi, chunk] at hch
    split at hch
    · next t ht => simp [ht]
    · cases hch

end Assemble

namespace Code

variable {c : Code}

lemma isCode_or_of_mentioned? {i : Instr} {l : Label} (h : l ∈ i.mentioned?) :
    i.isCode ∨ i = .label .dataD l := by
  cases i with
  | label o x => cases o <;> simp_all [Instr.mentioned?, Instr.isCode]
  | plain | int | float | dataS => simp [Instr.mentioned?] at h

/-- Only a program that uses labels as it has to can be assembled. -/
lemma assemblable_of_assemble {img : Image} (h : c.assemble = .ok img) : c.Assemblable := by
  have hsized := isSized_of_assemble h
  unfold assemble at h
  obtain ⟨ls, hls, h⟩ := Assemble.bind_eq_ok h
  obtain ⟨rs, hrs, h⟩ := Assemble.bind_eq_ok h
  obtain ⟨cs, hcs, -⟩ := Assemble.bind_eq_ok h
  have hn := (labels_perm c).nodup_iff.mp (Assemble.nodup_of_collect hls).1
  obtain rfl : Labels.ofCode c = ls :=
    Except.ok.inj ((Assemble.collect_eq c hsized 0 0 {} hn fun _ _ => rfl).symm.trans hls)
  refine ⟨hsized, hn, fun l hl => Labels.isSome_find?_ofCode.mp ?_⟩
  obtain ⟨line, hline, hl⟩ := List.mem_filterMap.mp hl
  rcases isCode_or_of_mentioned? hl with hcode | hdata
  · exact Assemble.isSome_of_code hrs line hline hcode l hl
  · exact Assemble.isSome_of_chunks hcs line hline l hdata

lemma dataSize_le_bytes {line : Line} (h : line ∈ c) : line.instr.dataSize ≤ c.bytes :=
  List.single_le_sum (fun _ _ => Nat.zero_le _) _ (List.mem_map_of_mem h)

/-- Where all data fit into the addresses that a word can hold, every block of zeros does. -/
lemma assemblable_iff (hdata : c.bytes < 2 ^ 31) : c.Assemblable ↔ c.WellLabelled := by
  constructor
  · rintro ⟨hsized, hn, hdefined⟩
    refine ⟨(labels_perm c).nodup_iff.mpr hn, fun l hl => mem_labels.mpr (hdefined l hl), ?_⟩
    intro line hline n hi
    have := hsized line hline
    simp only [hi, Instr.isSized, Bool.and_eq_true, decide_eq_true_eq] at this
    exact this.1
  · rintro ⟨hn, hdefined, hnonneg⟩
    refine ⟨fun line hline => ?_, (labels_perm c).nodup_iff.mp hn,
      fun l hl => mem_labels.mp (hdefined l hl)⟩
    unfold Instr.isSized
    split
    · next n hi =>
      have hn := hnonneg line hline n hi
      have hle := dataSize_le_bytes hline
      have hmax : maxBytes = 2 ^ 48 := rfl
      simp only [hi, Instr.dataSize] at hle
      simp only [Bool.and_eq_true, decide_eq_true_eq, hmax]
      omega
    · rfl

/-! ## Contents -/

lemma lookup_code (hn : c.labels.Nodup) (hcode : c.instrs.length < 2 ^ 31) (l : Label) :
    ((Labels.ofCode c).code.lookup l).map Int32.toInt =
      if l ∈ c.codeLabels then some ((c.before l).instrs.length : Int) else none := by
  split
  · next hl =>
    have hle := length_instrs_before (mem_labels.mpr (.inl hl))
    rw [Labels.lookup_code_ofCode (List.nodup_append.mp ((labels_perm c).nodup_iff.mp hn)).1
      (mem_marks_before hn hl), Option.map_some, Int32.toInt_ofNat_of_lt (by omega)]
  · next hl =>
    rw [lookup_of_notMem, Option.map_none]
    rw [Labels.code_ofCode, List.map_reverse, List.mem_reverse, List.map_map]
    exact fun h => hl (map_fst_marks c 0 ▸ h)

lemma lookup_data (hn : c.labels.Nodup) (hdata : c.bytes < 2 ^ 31) (l : Label) :
    ((Labels.ofCode c).data.lookup l).map Int32.toInt =
      if l ∈ c.dataLabels then some ((c.before l).bytes : Int) else none := by
  split
  · next hl =>
    have hle := bytes_before (mem_labels.mpr (.inr hl))
    rw [Labels.lookup_data_ofCode (List.nodup_append.mp ((labels_perm c).nodup_iff.mp hn)).2.1
      (mem_addresses_before hn hl), Option.map_some, Int32.toInt_ofNat_of_lt (by omega)]
  · next hl =>
    rw [lookup_of_notMem, Option.map_none]
    rw [Labels.data_ofCode, List.map_reverse, List.mem_reverse, List.map_map]
    exact fun h => hl (map_fst_addresses c 0 ▸ h)

/-- What a label stands for is the number of a word. -/
lemma valueOf_lt (hcode : c.instrs.length < 2 ^ 31) (hdata : c.bytes < 2 ^ 31) {l : Label}
    (hl : l ∈ c.labels) : c.valueOf l < 2 ^ 31 := by
  have hinstrs := length_instrs_before hl
  have hbytes := bytes_before hl
  unfold valueOf
  split <;> omega

lemma target_resolved (h : c.WellLabelled) (hcode : c.instrs.length < 2 ^ 31) (hdata : c.bytes < 2 ^ 31)
    {line : Line} (hline : line ∈ c.instrs) :
    (Assemble.resolved (.ofCode c) line).target.toInt = (line.instr.mentioned?.map c.valueOf).getD 0 := by
  obtain ⟨hmem, hisCode⟩ := List.mem_filter.mp hline
  cases hi : line.instr with
  | label o x =>
    have hmention : line.instr.mentioned? = some x := by
      rw [hi] at hisCode ⊢
      cases o <;> first | rfl | cases hisCode
    have hx : x ∈ c.labels := h.defined x (List.mem_filterMap.mpr ⟨line, hmem, hmention⟩)
    obtain ⟨n, hn, hfind⟩ := find?_ofCode h.nodup hx
    have hlt := valueOf_lt hcode hdata hx
    rw [← hi, hmention]
    simp only [Assemble.resolved, hi, hfind, Option.getD_some, Option.map_some, hn]
    exact Int32.toInt_ofNat_of_lt (by omega)
  | plain | int | float | dataS => simp [Assemble.resolved, hi, Instr.mentioned?]

lemma toList_laidOut (h : c.WellLabelled) {line : Line} (hline : line ∈ c) :
    (Assemble.laidOut (.ofCode c) line.instr).toList = line.instr.layout c.valueOf := by
  cases hi : line.instr with
  | plain | dataS => rfl
  | int o v =>
    cases o with
    | pushI | dataZ => rfl
    | dataC => simp [Assemble.laidOut, Assemble.chunk, Instr.layout, Chunk.toList, littleEndian]
    | dataI => exact wordBytes_ofInt v
  | float o v =>
    cases o with
    | pushF => rfl
    | dataF => exact wordBytes_halves v.bits
  | label o x =>
    cases o with
    | dataD =>
      have hx : x ∈ c.labels := h.defined x (List.mem_filterMap.mpr ⟨line, hline, by rw [hi]; rfl⟩)
      obtain ⟨n, hn, hfind⟩ := find?_ofCode h.nodup hx
      simp only [Assemble.laidOut, Assemble.chunk, hfind, Chunk.toList, Instr.layout, hn]
      exact wordBytes_ofNat n
    | _ => rfl

/-- A program whose code and data fit into the numbers of a word can be assembled if and only if no label is
defined twice, every label that is mentioned is defined and no block of zeros has a negative size. Its image
has the instructions of the program, with each label standing for its place in code or data, wherever it is
used, and the bytes of all directives in a row. -/
theorem assemble_lays_out (c : Code) (hcode : c.instrs.length < 2 ^ 31) (hdata : c.bytes < 2 ^ 31) :
    ((∃ img, c.assemble = .ok img) ↔ c.WellLabelled) ∧ ∀ img, c.assemble = .ok img → c.LaidOut img := by
  refine ⟨⟨fun ⟨img, h⟩ => ?_, fun h => ?_⟩, fun img himg => ?_⟩
  · exact (assemblable_iff hdata).mp (assemblable_of_assemble h)
  · exact ⟨c.image, assemble_eq ((assemblable_iff hdata).mpr h)⟩
  · have hc := assemblable_of_assemble himg
    have h := (assemblable_iff hdata).mp hc
    obtain rfl : c.image = img := Except.ok.inj ((assemble_eq hc).symm.trans himg)
    refine ⟨?_, lookup_code h.nodup hcode, lookup_data h.nodup hdata, fun r hr => ?_, ?_⟩
    · have hlines : c.image.code.toList.map (·.line) = c.filter (·.instr.isCode) := by
        simp [image, instrs, Assemble.resolved, Function.comp_def]
      rw [hlines]
      exact List.filter_congr fun line _ => Instr.isCode_eq line.instr
    · simp only [image, List.mem_map] at hr
      obtain ⟨line, hline, rfl⟩ := hr
      exact target_resolved h hcode hdata hline
    · rw [data_image, dataOf, List.flatMap_congr fun line hline => toList_laidOut h hline]

/-- A program with data between its instructions, and labels used before and after their definition. -/
def interleaved : Code :=
  pushD "word" ++ jump "end" ++ cell "word" (.label .dataD "end") ++ pushI 1 ++ label "end" ++
    cell "back" (.label .dataD "back") ++ one (.int .dataZ 1) ++ ops [.halt]

theorem assemble_lays_out_interleaved :
    interleaved.instrs.length < 2 ^ 31 ∧ interleaved.bytes < 2 ^ 31 ∧
      ∃ img, interleaved.assemble = .ok img ∧ img.data = [3, 0, 0, 0, 4, 0, 0, 0, 0] := by
  have hcode : interleaved.instrs.length < 2 ^ 31 := by decide
  have hdata : interleaved.bytes < 2 ^ 31 := by decide
  have hnonneg : ∀ line ∈ interleaved, ∀ n, line.instr = .int .dataZ n → 0 ≤ n := by
    simp [interleaved, pushD, jump, cell, pushI, label, one, ops]
  have h : interleaved.WellLabelled := ⟨by decide, by decide, hnonneg⟩
  obtain ⟨hok, hout⟩ := assemble_lays_out interleaved hcode hdata
  obtain ⟨img, himg⟩ := hok.mpr h
  refine ⟨hcode, hdata, img, himg, ?_⟩
  rw [(hout img himg).data]
  decide +kernel

end Code

end SubrLang
