import SubrLang.Proofs.AssembledLayout
import SubrLang.Proofs.LoweredCode
import SubrLang.Proofs.FreshLabels

/-!
# String constants

Texts are turned into labels while other labels are handed out from the same counter, and each label stands
for a record in the data. Strings are compared by their addresses, so what matters is which texts get the
same address.

* **Labels.** `LowerState.Interned` relates the table to the texts asked for so far and the labels that they
  got. Asking for one more text keeps it (`Lower.interned_string`), and so does a whole sequence of requests
  (`Lower.interned_serve`). The digest that texts are sorted by plays no part, so texts with the same digest
  are kept apart like any others.
* **Records.** Each record takes at least the bytes of its header, so records that stand one behind the other
  have different addresses, wherever the table is put (`StringTable.address_lt`).
-/

namespace SubrLang

open Lower

/-! ## Requests for labels -/

/-- What labels are asked for: the label of a text, or a family of labels for something else. -/
inductive LabelRequest where
  | text (s : String)
  | family (stem : String)

/-- The text that a request is about. -/
def LabelRequest.text? : LabelRequest → Option String
  | text s => some s
  | family _ => none

/-- Serves requests one after the other and notes which label each text gets. -/
def Lower.serve : List LabelRequest → Lower (List (String × String))
  | [] => return []
  | .text s :: rs => do
    let l ← string s
    return (s, l) :: (← serve rs)
  | .family stem :: rs => do
    let _ ← fresh stem
    serve rs

lemma StringTable.entries_insert (t : StringTable) (text label : String) :
    (t.insert text label).entries = t.entries ++ [(text, label)] := rfl

/-- What holds of the table after texts got labels: it has the records of exactly these labels, each once. -/
structure LowerState.Interned (st : LowerState) (calls : List (String × String)) : Prop where
  mem_entries : ∀ x, x ∈ st.strings.entries ↔ x ∈ calls
  numbered : ∀ x ∈ st.strings.entries, ∃ n ≤ st.families, x.2 = LabelFamily.label ⟨"string", n⟩ ""
  labels : (st.strings.entries.map (·.2)).Nodup
  /-- Records are shared: no text has two. -/
  texts : st.strings.shared = true → (st.strings.entries.map (·.1)).Nodup
  /-- Records are not shared: each call has its own. -/
  apart : st.strings.shared = false → st.strings.entries = calls

namespace LowerState.Interned

variable {st : LowerState} {calls : List (String × String)}

/-- The number of families can grow. -/
lemma counted (h : st.Interned calls) : (Lower.counted st).Interned calls :=
  { h with
    numbered := fun x hx => by
      obtain ⟨n, hn, hl⟩ := h.numbered x hx
      exact ⟨n, Nat.le_succ_of_le hn, hl⟩ }

/-- A label of the next family is new. -/
lemma label_notMem (h : st.Interned calls) :
    LabelFamily.label ⟨"string", st.families + 1⟩ "" ∉ st.strings.entries.map (·.2) := by
  intro hmem
  obtain ⟨x, hx, hl⟩ := List.mem_map.mp hmem
  obtain ⟨n, hn, hlabel⟩ := h.numbered x hx
  have hword : isWord "string" := by decide
  have : n = st.families + 1 :=
    LabelFamily.number_eq_of_label_eq hword rfl hword rfl (hlabel.symm.trans hl)
  omega

/-- A text that has a record which it can use. -/
lemma found (h : st.Interned calls) {text l : String} (hl : st.strings.find? text = some l) :
    st.Interned (calls ++ [(text, l)]) := by
  rw [StringTable.find?_eq] at hl
  split at hl
  · next hshared =>
    have hmem : (text, l) ∈ calls := by
      obtain ⟨es₁, es₂, hes, -⟩ := List.lookup_eq_some_iff.mp hl
      exact (h.mem_entries _).mp (by simp [hes])
    refine { h with mem_entries := fun x => ?_, apart := fun hs => ?_ }
    · rw [h.mem_entries, List.mem_append, List.mem_singleton]
      exact ⟨.inl, fun hx => hx.elim id fun hx => hx ▸ hmem⟩
    · rw [hshared] at hs
      cases hs
  · cases hl

/-- A text that gets a new record. -/
lemma inserted (h : st.Interned calls) {text l : String} (hnone : st.strings.find? text = none)
    (hl : l = LabelFamily.label ⟨"string", st.families + 1⟩ "") :
    LowerState.Interned { Lower.counted st with strings := st.strings.insert text l }
      (calls ++ [(text, l)]) where
  mem_entries x := by
    rw [StringTable.entries_insert, List.mem_append, List.mem_append, h.mem_entries]
  numbered x hx := by
    rcases List.mem_append.mp hx with hx | hx
    · exact h.counted.numbered x hx
    · rw [List.mem_singleton.mp hx]
      exact ⟨st.families + 1, le_rfl, hl⟩
  labels := by
    rw [StringTable.entries_insert, List.map_append]
    exact h.labels.append (List.nodup_singleton l) (by simpa [hl] using h.label_notMem)
  texts hs := by
    have hshared : st.strings.shared = true := hs
    have hnew : text ∉ st.strings.entries.map (·.1) := by
      rw [StringTable.find?_eq, if_pos hshared, List.lookup_eq_none_iff] at hnone
      intro hmem
      obtain ⟨x, hx, rfl⟩ := List.mem_map.mp hmem
      simpa using hnone x hx
    rw [StringTable.entries_insert, List.map_append]
    exact (h.texts hshared).append (List.nodup_singleton text) (by simpa using hnew)
  apart hs := by
    have hshared : st.strings.shared = false := hs
    rw [StringTable.entries_insert, h.apart hshared]

/-- Where records are shared, two calls got the same label exactly if their texts are equal. -/
lemma label_eq_iff (h : st.Interned calls) (hshared : st.strings.shared = true) {x y : String × String}
    (hx : x ∈ calls) (hy : y ∈ calls) : x.2 = y.2 ↔ x.1 = y.1 := by
  rw [← h.mem_entries] at hx hy
  constructor
  · intro heq
    rw [List.inj_on_of_nodup_map h.labels hx hy heq]
  · intro heq
    rw [List.inj_on_of_nodup_map (h.texts hshared) hx hy heq]

end LowerState.Interned

namespace Lower

variable {st : LowerState} {calls : List (String × String)}

/-- A text gets a label, and the table then fits one more call. -/
lemma interned_string (h : st.Interned calls) (text : String) :
    ∃ l st', (string text).run st = .ok (l, st') ∧ st'.strings.shared = st.strings.shared ∧
      st'.Interned (calls ++ [(text, l)]) := by
  cases hfind : st.strings.find? text with
  | some l =>
    have hrun : (string text).run st = .ok (l, st) := by
      simp only [string, StateT.run_bind, StateT.run_get, pure_bind, hfind]
      rfl
    exact ⟨l, st, hrun, rfl, h.found hfind⟩
  | none =>
    have hrun : (string text).run st = .ok (LabelFamily.label ⟨"string", st.families + 1⟩ "",
        { counted st with
          strings := st.strings.insert text (LabelFamily.label ⟨"string", st.families + 1⟩ "") }) := by
      simp only [string, StateT.run_bind, StateT.run_get, pure_bind, hfind]
      rfl
    exact ⟨_, _, hrun, rfl, h.inserted hfind rfl⟩

/-- Serving requests gives each text its label, and the table then fits all calls. -/
lemma interned_serve (rs : List LabelRequest) : ∀ {st : LowerState} {calls : List (String × String)},
    st.Interned calls → ∃ new st', (serve rs).run st = .ok (new, st') ∧
      st'.strings.shared = st.strings.shared ∧ new.map (·.1) = rs.filterMap LabelRequest.text? ∧
      st'.Interned (calls ++ new) := by
  induction rs with
  | nil => exact fun {st calls} h => ⟨[], st, rfl, rfl, rfl, by rwa [List.append_nil]⟩
  | cons r rs ih =>
    intro st calls h
    cases r with
    | text s =>
      obtain ⟨l, st₁, hl, hshared, h₁⟩ := interned_string h s
      obtain ⟨new, st', hnew, hshared', htexts, h'⟩ := ih h₁
      refine ⟨(s, l) :: new, st', ?_, hshared'.trans hshared, ?_, ?_⟩
      · rw [serve, StateT.run_bind, hl]
        change (serve rs >>= fun x => pure ((s, l) :: x)).run st₁ = _
        rw [StateT.run_bind, hnew]
        rfl
      · rw [List.map_cons, htexts]
        rfl
      · rwa [List.append_assoc, List.singleton_append] at h'
    | family stem =>
      obtain ⟨new, st', hnew, hshared, htexts, h'⟩ := ih h.counted
      exact ⟨new, st', hnew, hshared, htexts, h'⟩

end Lower

/-! ## Records -/

namespace StringRecord

/-- The bytes of a record: the words of its header, the text and a zero byte. -/
def bytes (text : String) : List UInt8 :=
  littleEndian 4 tag ++ littleEndian 4 status ++
    littleEndian 4 ((Text.Utf8.encode text).length : Nat) ++ (Text.Utf8.encode text ++ [0])

variable (label text : String)

lemma dataOf_code (ls : Labels) : (code label text).dataOf ls = bytes text := by
  simp only [code, ofBytes, Code.cell, Code.one, Code.dataOf, Assemble.laidOut, Assemble.chunk, bytes,
    List.cons_append, List.nil_append, List.flatMap_cons, List.flatMap_nil, Chunk.toList,
    wordBytes_ofInt, List.append_nil, List.append_assoc]

lemma bytes_code_pos : 0 < (code label text).bytes := by
  simp [code, ofBytes, Code.cell, Code.one, Code.bytes, Instr.dataSize]

end StringRecord

namespace Code

/-- Where a data label stands in the data. -/
def address (c : Code) (l : Label) : Nat := ((c.addresses 0).lookup l).getD 0

end Code

namespace StringTable

/-- The records of entries. -/
def codeOf (es : List (String × String)) : Code :=
  es.flatMap fun (text, label) => StringRecord.code label text

/-- A program with the records of entries somewhere in it. -/
def around (front : Code) (es : List (String × String)) (back : Code) : Code := front ++ codeOf es ++ back

variable {front back : Code} {es es₁ es₂ es₃ : List (String × String)} {x y : String × String}

lemma around_append (front back : Code) (es₁ es₂ : List (String × String)) (x : String × String) :
    around front (es₁ ++ x :: es₂) back =
      (front ++ codeOf es₁) ++ (StringRecord.code x.2 x.1 ++ (codeOf es₂ ++ back)) := by
  simp [around, codeOf, List.append_assoc]

/-- The label of a record stands for the bytes in front of the record, and behind these are its own. -/
lemma placed_record (h : (around front (es₁ ++ x :: es₂) back).Assemblable) :
    (around front (es₁ ++ x :: es₂) back).address x.2 = (front ++ codeOf es₁).bytes ∧
      (around front (es₁ ++ x :: es₂) back).image.labels.find? x.2 =
        some (Int32.ofNat (front ++ codeOf es₁).bytes) ∧
      StringRecord.bytes x.1 <+:
        (around front (es₁ ++ x :: es₂) back).image.data.drop (front ++ codeOf es₁).bytes := by
  rw [around_append] at h ⊢
  have hmem : ((x.2 : Label), (front ++ codeOf es₁).bytes) ∈
      ((front ++ codeOf es₁) ++ (StringRecord.code x.2 x.1 ++ (codeOf es₂ ++ back))).addresses 0 :=
    Code.mem_addresses_cell _ _ x.2 _
  have hdata := (List.nodup_append.mp h.nodup).2.1
  refine ⟨?_, Labels.find?_data hdata hmem, ?_⟩
  · rw [Code.address, lookup_of_mem (by rwa [Code.map_fst_addresses]) hmem, Option.getD_some]
  · rw [Code.drop_data_image h, Code.dataOf_append, StringRecord.dataOf_code]
    exact List.prefix_append _ _

/-- A record stands behind the bytes of those in front of it. -/
lemma address_lt (h : (around front (es₁ ++ x :: (es₂ ++ y :: es₃)) back).Assemblable) :
    (around front (es₁ ++ x :: (es₂ ++ y :: es₃)) back).address x.2 <
      (around front (es₁ ++ x :: (es₂ ++ y :: es₃)) back).address y.2 := by
  have hx := (placed_record h).1
  have hsplit : es₁ ++ x :: (es₂ ++ y :: es₃) = (es₁ ++ x :: es₂) ++ y :: es₃ := by simp
  have hy : (around front (es₁ ++ x :: (es₂ ++ y :: es₃)) back).address y.2 =
      (front ++ codeOf (es₁ ++ x :: es₂)).bytes := by
    rw [hsplit] at h ⊢
    exact (placed_record h).1
  have hrecord := StringRecord.bytes_code_pos x.2 x.1
  have hcode : codeOf (es₁ ++ x :: es₂) = codeOf es₁ ++ (StringRecord.code x.2 x.1 ++ codeOf es₂) := by
    simp [codeOf]
  rw [hx, hy, hcode]
  simp only [Code.bytes_append]
  omega

/-- Records with different labels have different addresses. -/
lemma address_eq_iff (h : (around front es back).Assemblable) (hx : x ∈ es) (hy : y ∈ es) :
    (around front es back).address x.2 = (around front es back).address y.2 ↔ x.2 = y.2 := by
  refine ⟨fun heq => ?_, fun heq => by rw [heq]⟩
  by_contra hne
  obtain ⟨es₁, es₂, rfl⟩ := List.append_of_mem hx
  rw [List.mem_append, List.mem_cons] at hy
  rcases hy with hy | rfl | hy
  · obtain ⟨es₀, es₁, rfl⟩ := List.append_of_mem hy
    rw [List.append_assoc, List.cons_append] at h heq
    exact (address_lt h).ne' heq
  · exact hne rfl
  · obtain ⟨es₂, es₃, rfl⟩ := List.append_of_mem hy
    exact (address_lt h).ne heq

/-- A record lies inside the data. -/
lemma address_lt_length (h : (around front es back).Assemblable) (hx : x ∈ es) :
    (around front es back).address x.2 < (around front es back).image.data.length := by
  obtain ⟨es₁, es₂, rfl⟩ := List.append_of_mem hx
  obtain ⟨haddress, -, hbytes⟩ := placed_record h
  have hle := hbytes.length_le
  rw [List.length_drop, ← haddress] at hle
  have hpos : 0 < (StringRecord.bytes x.1).length := by simp [StringRecord.bytes]
  omega

/-- Words stand for different addresses below the number of words there are. -/
lemma ofNat_eq_iff {m n : Nat} (hm : m < 2 ^ 32) (hn : n < 2 ^ 32) :
    Int32.ofNat m = Int32.ofNat n ↔ m = n := by
  refine ⟨fun h => ?_, fun h => by rw [h]⟩
  have := congrArg (·.toUInt32.toNat) h
  simp only [Int32.toUInt32_ofNat', UInt32.toNat_ofNat'] at this
  omega

/-- Records with different labels can be assembled. -/
lemma assemblable_codeOf (h : (es.map (·.2)).Nodup) : (codeOf es).Assemblable := by
  have hlines : ∀ line ∈ codeOf es, line.instr.isSized ∧ line.instr.codeLabel? = none ∧
      line.instr.mentioned? = none := by
    intro line hline
    obtain ⟨x, -, hx⟩ := List.mem_flatMap.mp hline
    simp only [StringRecord.code, StringRecord.ofBytes, Code.cell, Code.one, List.mem_append,
      List.mem_cons, List.not_mem_nil, or_false] at hx
    rcases hx with (((rfl | rfl) | rfl) | rfl) | rfl <;> exact ⟨rfl, rfl, rfl⟩
  have hcode : (codeOf es).codeLabels = [] :=
    List.filterMap_eq_nil_iff.mpr fun line hline => (hlines line hline).2.1
  have hmentions : (codeOf es).mentions = [] :=
    List.filterMap_eq_nil_iff.mpr fun line hline => (hlines line hline).2.2
  have hdata : (codeOf es).dataLabels = (es.map (·.2)).map Label.text := by
    rw [codeOf, Code.dataLabels, List.filterMap_flatMap, List.map_map, List.map_eq_flatMap]
    rfl
  refine ⟨fun line hline => (hlines line hline).1, ?_, by simp [hmentions]⟩
  rw [hcode, hdata, List.nil_append]
  exact h.map fun _ _ => Label.text.inj

/-- String constants are kept exactly. A sequence of requests, for labels of texts and for other labels of the
same counter, is served whatever the digest of texts is. Where records are shared, two calls get the same
label exactly if their texts are equal, and otherwise all labels are different. In both cases the data has one
record for each label that was given, with the text of the calls that got it. So in an assembled program the
addresses of two calls are the same exactly if their labels are, where the words for them do not wrap around
as long as there are no more bytes of data than words. -/
theorem interning_exact (shared : Bool) (digest : String → UInt64) (families : Nat)
    (pending : List PendingFunc) (rs : List LabelRequest) :
    ∃ (calls records : List (String × String)) (st : LowerState),
      (serve rs).run { families, pending, strings := { shared, digest } } = .ok (calls, st) ∧
      calls.map (·.1) = rs.filterMap LabelRequest.text? ∧
      (shared = true → ∀ x ∈ calls, ∀ y ∈ calls, x.2 = y.2 ↔ x.1 = y.1) ∧
      (shared = false → (calls.map (·.2)).Nodup) ∧
      st.strings.code = codeOf records ∧ (records.map (·.2)).Nodup ∧ (∀ x, x ∈ records ↔ x ∈ calls) ∧
      (∃ img, st.strings.code.assemble = .ok img) ∧
      ∀ (front back : Code) (img : Image), (front ++ st.strings.code ++ back).assemble = .ok img →
        ∃ address : String → Nat,
          (∀ x ∈ calls, img.labels.find? x.2 = some (Int32.ofNat (address x.2)) ∧
            StringRecord.bytes x.1 <+: img.data.drop (address x.2)) ∧
          (∀ x ∈ calls, ∀ y ∈ calls, address x.2 = address y.2 ↔ x.2 = y.2) ∧
          (img.data.length ≤ 2 ^ 32 → ∀ x ∈ calls, ∀ y ∈ calls,
            img.labels.find? x.2 = img.labels.find? y.2 ↔ x.2 = y.2) := by
  have hempty : LowerState.Interned { families, pending, strings := { shared, digest } } [] :=
    ⟨fun _ => Iff.rfl, by simp, .nil, fun _ => .nil, fun _ => rfl⟩
  obtain ⟨calls, st, hrun, hshared, htexts, h⟩ := interned_serve rs hempty
  rw [List.nil_append] at h
  refine ⟨calls, st.strings.entries, st, hrun, htexts, fun hs x hx y hy => ?_, fun hs => ?_, rfl, h.labels,
    h.mem_entries, ⟨_, Code.assemble_eq (assemblable_codeOf h.labels)⟩, fun front back img himg => ?_⟩
  · exact h.label_eq_iff (hshared.trans hs) hx hy
  · rw [← h.apart (hshared.trans hs)]
    exact h.labels
  · have hc : (around front st.strings.entries back).Assemblable := Code.assemblable_of_assemble himg
    obtain rfl : (around front st.strings.entries back).image = img :=
      Except.ok.inj ((Code.assemble_eq hc).symm.trans himg)
    simp only [← h.mem_entries]
    have hplaced : ∀ x ∈ st.strings.entries,
        (around front st.strings.entries back).image.labels.find? x.2 =
            some (Int32.ofNat ((around front st.strings.entries back).address x.2)) ∧
          StringRecord.bytes x.1 <+: (around front st.strings.entries back).image.data.drop
            ((around front st.strings.entries back).address x.2) := by
      intro x hx
      obtain ⟨es₁, es₂, hes⟩ := List.append_of_mem hx
      rw [hes] at hc ⊢
      obtain ⟨haddress, hplaced⟩ := placed_record hc
      rwa [haddress]
    refine ⟨fun l => (around front st.strings.entries back).address l, hplaced,
      fun x hx y hy => address_eq_iff hc hx hy, fun hlen x hx y hy => ?_⟩
    have hx' := address_lt_length hc hx
    have hy' := address_lt_length hc hy
    rw [(hplaced x hx).1, (hplaced y hy).1, Option.some.injEq, ofNat_eq_iff (by omega) (by omega)]
    exact address_eq_iff hc hx hy

/-- A text asked for twice, another one and other labels in between. -/
def repeatedText : List LabelRequest := [.text "a", .family "loop", .text "b", .text "a"]

/-- Texts that all have the same digest. -/
theorem interning_exact_colliding : ∃ a b st img,
    (serve repeatedText).run { strings := { shared := true, digest := fun _ => 0 } } =
      .ok ([("a", a), ("b", b), ("a", a)], st) ∧
    st.strings.code.assemble = .ok img ∧ img.data.length ≤ 2 ^ 32 ∧
    a ≠ b ∧ img.labels.find? a ≠ img.labels.find? b := by
  obtain ⟨calls, records, st, hrun, htexts, hlabels, -, -, -, -, ⟨img, himg⟩, hplaced⟩ :=
    interning_exact true (fun _ => 0) 0 [] repeatedText
  have hst : (serve repeatedText).run { strings := { shared := true, digest := fun _ => 0 } } =
      .ok ([("a", LabelFamily.label ⟨"string", 1⟩ ""), ("b", LabelFamily.label ⟨"string", 3⟩ ""),
        ("a", LabelFamily.label ⟨"string", 1⟩ "")],
        { families := 3, strings := (StringTable.insert { shared := true, digest := fun _ => 0 } "a"
          (LabelFamily.label ⟨"string", 1⟩ "")).insert "b" (LabelFamily.label ⟨"string", 3⟩ "") }) := rfl
  obtain ⟨rfl, rfl⟩ := Prod.mk.inj (Except.ok.inj (hrun.symm.trans hst))
  have hc := Code.assemblable_of_assemble himg
  obtain rfl := Except.ok.inj ((Code.assemble_eq hc).symm.trans himg)
  have hbytes := (Image.length_data _).trans (Code.dataSize_image hc)
  have hlen : (Code.image _).data.length ≤ 2 ^ 32 := hbytes.trans_le (by decide)
  have hne : LabelFamily.label ⟨"string", 1⟩ "" ≠ LabelFamily.label ⟨"string", 3⟩ "" := fun heq =>
    absurd ((hlabels rfl _ List.mem_cons_self _ (List.mem_cons_of_mem _ List.mem_cons_self)).mp heq)
      (by decide)
  refine ⟨_, _, _, _, hst, himg, hlen, hne, fun heq => hne ?_⟩
  obtain ⟨address, -, -, hfind⟩ := hplaced [] [] _ (by rwa [List.nil_append, List.append_nil])
  exact (hfind hlen _ List.mem_cons_self _ (List.mem_cons_of_mem _ List.mem_cons_self)).mp heq

end StringTable

end SubrLang
