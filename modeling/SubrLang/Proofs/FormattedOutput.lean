import SubrLang.Proofs.Printing

/-!
# Formatted output

Printing through a format succeeds for exactly the formats and words that `Format.Written` relates to a
text, and writes that text; otherwise it writes nothing.

**Scans.** A format can be read from left to right by position, once for its conversions
(`Format.conversionsFrom`) and once more to write it (`Format.writtenFrom`). Neither scan checks what the
other one has found, so either could read behind the end of the format or of the arguments; `none` stands
for that. `conversionsFrom_eq` and `writtenFrom_eq` say that they read the same parts.

**Words.** The words are taken off the operand stack from the last conversion to the first, which
`Exec.popArgs_eq_ok_iff` turns into their order on the stack.
-/

namespace SubrLang

/-! ## Parts of a format -/

namespace Format

/-- A format and its parts. -/
inductive Splits : List UInt8 → List FormatPart → Prop
  | nil : Splits [] []
  | literal {b : UInt8} {f : List UInt8} {ps : List FormatPart} (ne : b ≠ '%'.toUInt8)
      (rest : Splits f ps) : Splits (b :: f) (.literal b :: ps)
  | percent {f : List UInt8} {ps : List FormatPart} (rest : Splits f ps) :
      Splits ('%'.toUInt8 :: '%'.toUInt8 :: f) (.literal '%'.toUInt8 :: ps)
  | convert {l : UInt8} {c : Conversion} {f : List UInt8} {ps : List FormatPart}
      (letter : Conversion.ofLetter? l = some c) (rest : Splits f ps) :
      Splits ('%'.toUInt8 :: l :: f) (.convert c :: ps)

lemma Splits.of_ne {b : UInt8} {f : List UInt8} {ps : List FormatPart} (h : Splits (b :: f) ps)
    (hb : b ≠ '%'.toUInt8) : ∃ qs, ps = .literal b :: qs ∧ Splits f qs := by
  cases h with
  | literal _ rest => exact ⟨_, rfl, rest⟩
  | percent => exact absurd rfl hb
  | convert => exact absurd rfl hb

@[simp] lemma conversions_literal (b : UInt8) (ps : List FormatPart) :
    conversions (.literal b :: ps) = conversions ps := rfl

@[simp] lemma conversions_convert (c : Conversion) (ps : List FormatPart) :
    conversions (.convert c :: ps) = c :: conversions ps := rfl

section

variable {whole f : List UInt8} {b l : UInt8} {c : Conversion}

lemma parts_literal (hb : b ≠ '%'.toUInt8) :
    parts whole (b :: f) = (parts whole f).map (.literal b :: ·) := by
  rw [parts.eq_def]
  simp [hb]

lemma parts_percent :
    parts whole ('%'.toUInt8 :: '%'.toUInt8 :: f) = (parts whole f).map (.literal '%'.toUInt8 :: ·) := by
  rw [parts.eq_def]
  simp

lemma parts_convert (hl : Conversion.ofLetter? l = some c) :
    parts whole ('%'.toUInt8 :: l :: f) = (parts whole f).map (.convert c :: ·) := by
  have hne : l ≠ '%'.toUInt8 := by
    rintro rfl
    cases hl
  rw [parts.eq_def]
  simp [hne, hl]

lemma exists_of_map_cons {p : FormatPart} {x : Except Fault (List FormatPart)} {ps : List FormatPart}
    (h : x.map (p :: ·) = .ok ps) : ∃ qs, x = .ok qs ∧ ps = p :: qs := by
  cases x with
  | error e => cases h
  | ok qs =>
    cases h
    exact ⟨qs, rfl, rfl⟩

lemma parts_eq_ok_iff {ps : List FormatPart} : parts whole f = .ok ps ↔ Splits f ps := by
  constructor
  · intro h
    fun_induction parts whole f generalizing ps with
    | case1 =>
      cases h
      exact .nil
    | case2 => cases h
    | case3 cs ih =>
      obtain ⟨qs, hqs, rfl⟩ := exists_of_map_cons h
      exact .percent (ih hqs)
    | case4 c cs hne v hv ih =>
      obtain ⟨qs, hqs, rfl⟩ := exists_of_map_cons h
      exact .convert hv (ih hqs)
    | case5 => cases h
    | case6 b bs hne ih =>
      obtain ⟨qs, hqs, rfl⟩ := exists_of_map_cons h
      exact .literal hne (ih hqs)
  · intro h
    induction h with
    | nil => rfl
    | literal ne rest ih => rw [parts_literal ne, ih, Except.map]
    | percent rest ih => rw [parts_percent, ih, Except.map]
    | convert letter rest ih => rw [parts_convert letter, ih, Except.map]

end

/-! ## Scans of a format -/

/-- The conversions of a format from a position on. -/
def conversionsFrom (format : List UInt8) (i : Nat) : Option (Except Fault (List Conversion)) :=
  if i < format.length then
    match format[i]? with
    | none => none
    | some b =>
      if b = '%'.toUInt8 then
        if i + 1 = format.length then some (.error (.openConversion format))
        else
          match format[i + 1]? with
          | none => none
          | some c =>
            if c = '%'.toUInt8 then conversionsFrom format (i + 2)
            else
              match Conversion.ofLetter? c with
              | some v => (conversionsFrom format (i + 2)).map (·.map (v :: ·))
              | none => some (.error (.unknownConversion c format))
      else conversionsFrom format (i + 1)
  else some (.ok [])
termination_by format.length - i

/-- A format from a position on, with its conversions replaced by the arguments from a position on. -/
def writtenFrom (format : List UInt8) (args : List (List UInt8)) (i n : Nat) : Option (List UInt8) :=
  if i < format.length then
    match format[i]? with
    | none => none
    | some b =>
      if b = '%'.toUInt8 then
        match format[i + 1]? with
        | none => none
        | some c =>
          if c = '%'.toUInt8 then (writtenFrom format args (i + 2) n).map ('%'.toUInt8 :: ·)
          else
            match args[n]? with
            | none => none
            | some arg => (writtenFrom format args (i + 2) (n + 1)).map (arg ++ ·)
      else (writtenFrom format args (i + 1) n).map (b :: ·)
  else some []
termination_by format.length - i

lemma drop_of_getElem? {α : Type} {l : List α} {i : Nat} {a : α} (h : l[i]? = some a) :
    l.drop i = a :: l.drop (i + 1) := by
  obtain ⟨hi, rfl⟩ := List.getElem?_eq_some_iff.mp h
  exact List.drop_eq_getElem_cons hi

/-- The first scan finds the conversions of the parts of a format. -/
lemma conversionsFrom_eq (format : List UInt8) (i : Nat) :
    conversionsFrom format i = some ((parts format (format.drop i)).map conversions) := by
  have hmap (p : FormatPart) (x : Except Fault (List FormatPart)) :
      (x.map (p :: ·)).map conversions = (x.map conversions).map (conversions [p] ++ ·) := by
    cases x with
    | error e => rfl
    | ok ps => cases p <;> rfl
  fun_induction conversionsFrom format i with
  | case1 i hi hnone => simp_all
  | case2 i hi hlast hb =>
    rw [drop_of_getElem? hb, List.drop_eq_nil_of_le hlast.ge]
    simp [parts, Except.map]
  | case3 i hi hlast hnone hb =>
    rw [List.getElem?_eq_none_iff] at hnone
    omega
  | case4 i hi hlast hb hc ih =>
    rw [ih, drop_of_getElem? hb, drop_of_getElem? hc, parts_percent, hmap]
    cases parts format (format.drop (i + 2)) <;> rfl
  | case5 i hi hlast c hc hne v hv hb ih =>
    rw [ih, drop_of_getElem? hb, drop_of_getElem? hc, parts_convert hv, hmap]
    cases parts format (format.drop (i + 2)) <;> rfl
  | case6 i hi hlast c hc hne hv hb =>
    rw [drop_of_getElem? hb, drop_of_getElem? hc]
    simp [parts, hne, hv, Except.map]
  | case7 i hi b hb hne ih =>
    rw [ih, drop_of_getElem? hb, parts_literal hne, hmap]
    cases parts format (format.drop (i + 1)) <;> rfl
  | case8 i hi =>
    rw [List.drop_eq_nil_of_le (by omega)]
    rfl

/-- The second scan stays inside the format and the arguments, and fills in the parts of the format. -/
lemma writtenFrom_eq {format : List UInt8} {args : List (List UInt8)} {i n : Nat} {ps : List FormatPart}
    (hps : Splits (format.drop i) ps) (hargs : n + (conversions ps).length ≤ args.length) :
    writtenFrom format args i n = some (fill ps (args.drop n)) := by
  fun_induction writtenFrom format args i n generalizing ps with
  | case1 i n hi hnone => simp_all
  | case2 i n hi hnone hb =>
    rw [drop_of_getElem? hb, List.drop_eq_nil_of_le (List.getElem?_eq_none_iff.mp hnone)] at hps
    cases hps with
    | literal ne => exact absurd rfl ne
  | case3 i n hi hb hc ih =>
    rw [drop_of_getElem? hb, drop_of_getElem? hc] at hps
    cases hps with
    | literal ne => exact absurd rfl ne
    | percent rest => rw [ih rest hargs, Option.map_some, fill]
    | convert letter => cases letter
  | case4 i n hi c hc hne hnone hb =>
    rw [drop_of_getElem? hb, drop_of_getElem? hc] at hps
    have hlen := List.getElem?_eq_none_iff.mp hnone
    cases hps with
    | literal ne => exact absurd rfl ne
    | percent rest => exact absurd rfl hne
    | convert letter rest =>
      rw [conversions_convert, List.length_cons] at hargs
      omega
  | case5 i n hi c hc hne arg harg hb ih =>
    rw [drop_of_getElem? hb, drop_of_getElem? hc] at hps
    cases hps with
    | literal ne => exact absurd rfl ne
    | percent rest => exact absurd rfl hne
    | convert letter rest =>
      rw [conversions_convert, List.length_cons] at hargs
      rw [ih rest (by omega), Option.map_some, drop_of_getElem? harg, fill]
  | case6 i n hi b hb hne ih =>
    rw [drop_of_getElem? hb] at hps
    obtain ⟨qs, rfl, rest⟩ := hps.of_ne hne
    rw [ih rest hargs, Option.map_some, fill]
  | case7 i n hi =>
    rw [List.drop_eq_nil_of_le (by omega)] at hps
    cases hps
    rfl

/-! ## Texts that are written -/

/-- A format is written with some words, from first to last, where its conversions stand. -/
inductive Written (mem : Memory) : List UInt8 → List Word → List UInt8 → Prop
  | nil : Written mem [] [] []
  | literal {b : UInt8} {f : List UInt8} {ws : List Word} {text : List UInt8} (ne : b ≠ '%'.toUInt8)
      (rest : Written mem f ws text) : Written mem (b :: f) ws (b :: text)
  | percent {f : List UInt8} {ws : List Word} {text : List UInt8} (rest : Written mem f ws text) :
      Written mem ('%'.toUInt8 :: '%'.toUInt8 :: f) ws ('%'.toUInt8 :: text)
  | convert {l : UInt8} {c : Conversion} {w : Word} {bs f : List UInt8} {ws : List Word} {text : List UInt8}
      (letter : Conversion.ofLetter? l = some c) (word : c.Writes mem w bs) (rest : Written mem f ws text) :
      Written mem ('%'.toUInt8 :: l :: f) (w :: ws) (bs ++ text)

lemma written_iff {mem : Memory} {f : List UInt8} {ws : List Word} {text : List UInt8} :
    Written mem f ws text ↔ ∃ ps texts, Splits f ps ∧
      Conversion.WritesAll mem (conversions ps) ws texts ∧ text = fill ps texts := by
  constructor
  · intro h
    induction h with
    | nil => exact ⟨[], [], .nil, .nil, rfl⟩
    | literal ne rest ih =>
      obtain ⟨ps, texts, hsplits, hall, rfl⟩ := ih
      exact ⟨_, texts, .literal ne hsplits, hall, rfl⟩
    | percent rest ih =>
      obtain ⟨ps, texts, hsplits, hall, rfl⟩ := ih
      exact ⟨_, texts, .percent hsplits, hall, rfl⟩
    | convert letter word rest ih =>
      obtain ⟨ps, texts, hsplits, hall, rfl⟩ := ih
      exact ⟨_, _, .convert letter hsplits, .cons word hall, rfl⟩
  · rintro ⟨ps, texts, hsplits, hall, rfl⟩
    induction hsplits generalizing ws texts with
    | nil =>
      cases hall
      exact .nil
    | literal ne rest ih => exact .literal ne (ih texts hall)
    | percent rest ih => exact .percent (ih texts hall)
    | convert letter rest ih =>
      cases hall with
      | cons word tail => exact .convert letter word (ih _ tail)

end Format

/-! ## Texts in memory -/

namespace Memory

variable {m : Memory} {i n stop : Nat} {text : List UInt8}

lemma of_firstZero? (h : m.firstZero? i n = some stop) :
    (i ≤ stop ∧ stop < i + n) ∧ m.byte stop = 0 ∧ ∀ k, i ≤ k → k < stop → m.byte k ≠ 0 := by
  induction n generalizing i with
  | zero => cases h
  | succ n ih =>
    rw [firstZero?] at h
    split at h
    · next hzero =>
      cases h
      exact ⟨by omega, hzero, by omega⟩
    · next hne =>
      obtain ⟨hrange, hstop, hbefore⟩ := ih h
      refine ⟨by omega, hstop, fun k hk hlt => ?_⟩
      obtain rfl | hk' := hk.eq_or_lt
      · exact hne
      · exact hbefore k hk' hlt

lemma hasText_of_textAt? (hi : i < 2 ^ 31) (h : m.textAt? i = some text) : m.HasText i text := by
  obtain ⟨stop, hstop, rfl⟩ := Option.map_eq_some_iff.mp h
  obtain ⟨hrange, hzero, hbefore⟩ := of_firstZero? hstop
  have hback : i + (stop - i) = stop := by omega
  refine ⟨⟨hi, ?_⟩, ?_, ?_⟩
  · simp only [List.length_map, List.length_range']
    omega
  · simp only [List.length_map, List.length_range']
    rw [List.range'_1_concat, List.map_append, hback, List.map_singleton, hzero]
  · intro hmem
    obtain ⟨k, hk, hbyte⟩ := List.mem_map.mp hmem
    rw [List.mem_range'_1] at hk
    exact hbefore k hk.1 (by omega) hbyte

end Memory

/-! ## Words of the operand stack -/

namespace Exec

variable {m m' : Machine} {text : List UInt8}

lemma textAt_eq (v : Int32) (m : Machine) : textAt v m =
    if v < 0 ∨ m.memory.size ≤ v.toNatClampNeg then .error (.badText v) m
    else (m.memory.textAt? v.toNatClampNeg).elim (.error (.endlessText v) m) (.ok · m) := by
  refine (bind_of_ok (show (get : Exec Machine) m = .ok m m from rfl)).trans ?_
  by_cases hbad : v < 0 ∨ m.memory.size ≤ v.toNatClampNeg
  · simp only [Bool.or_eq_true, decide_eq_true_eq, if_pos hbad]
    rfl
  · simp only [Bool.or_eq_true, decide_eq_true_eq, if_neg hbad]
    cases m.memory.textAt? v.toNatClampNeg <;> rfl

lemma textAt_eq_ok_iff {v : Int32} : textAt v m = .ok text m' ↔
    m = m' ∧ ∃ a, v = Int32.ofNat a ∧ m'.memory.HasText a text := by
  rw [textAt_eq]
  constructor
  · intro h
    split at h
    · cases h
    · next hgood =>
      cases htext : m.memory.textAt? v.toNatClampNeg with
      | none =>
        rw [htext] at h
        cases h
      | some bs =>
        rw [htext] at h
        cases h
        have hv : 0 ≤ v.toInt := by
          rw [not_or, Int32.lt_iff_toInt_lt, Int32.toInt_zero] at hgood
          omega
        have hlt : v.toNatClampNeg < 2 ^ 31 := by
          have := v.toInt_lt
          rw [show v.toNatClampNeg = v.toInt.toNat from rfl]
          omega
        refine ⟨rfl, v.toNatClampNeg, ?_, Memory.hasText_of_textAt? hlt htext⟩
        rw [← Int32.toInt_inj, Int32.toInt_ofNat_of_lt (by simpa using hlt)]
        exact (Int.toNat_of_nonneg hv).symm
  · rintro ⟨rfl, a, rfl, htext⟩
    obtain ⟨ha, hin⟩ := htext.inside
    have hgood : ¬ (Int32.ofNat a < 0 ∨ m.memory.size ≤ (Int32.ofNat a).toNatClampNeg) := by
      rw [Memory.toNatClampNeg_ofNat ha, Int32.lt_iff_toInt_lt, Int32.toInt_ofNat_of_lt (by simpa using ha),
        Int32.toInt_zero]
      omega
    rw [if_neg hgood, Memory.toNatClampNeg_ofNat ha, htext.textAt?]
    rfl

/-- A word is popped and converted if it can be written. -/
lemma popConverted_eq_ok_iff {c : Conversion} : popConverted c m = .ok text m' ↔
    ∃ w, m = m'.withWords [w] ∧ c.Writes m'.memory w text := by
  constructor
  · intro h
    cases c with
    | int =>
      obtain ⟨v, m₁, hpop, hv⟩ := bind_eq_ok_iff.mp h
      cases hv
      exact ⟨_, popInt_eq_ok_iff.mp hpop, .int v⟩
    | char =>
      obtain ⟨v, m₁, hpop, hv⟩ := bind_eq_ok_iff.mp h
      cases hv
      exact ⟨_, popInt_eq_ok_iff.mp hpop, .char v⟩
    | float =>
      obtain ⟨f, m₁, hpop, hf⟩ := bind_eq_ok_iff.mp h
      cases hf
      exact ⟨_, popFloat_eq_ok_iff.mp hpop, .float f⟩
    | text =>
      obtain ⟨v, m₁, hpop, hv⟩ := bind_eq_ok_iff.mp h
      obtain ⟨rfl, a, rfl, htext⟩ := textAt_eq_ok_iff.mp hv
      exact ⟨_, popInt_eq_ok_iff.mp hpop, .text htext⟩
  · rintro ⟨w, rfl, hw⟩
    cases hw with
    | int v => exact (bind_of_ok (popInt_withWords m' v)).trans rfl
    | char v => exact (bind_of_ok (popInt_withWords m' v)).trans rfl
    | float f => exact (bind_of_ok (popFloat_eq_ok_iff.mpr rfl)).trans rfl
    | text htext =>
      exact (bind_of_ok (popInt_withWords m' _)).trans (textAt_eq_ok_iff.mpr ⟨rfl, _, rfl, htext⟩)

/-- The words of some conversions lie on the stack in the order of the conversions. -/
lemma popArgs_eq_ok_iff {cs : List Conversion} {texts : List (List UInt8)} : popArgs cs m = .ok texts m' ↔
    ∃ ws, m = m'.withWords ws ∧ Conversion.WritesAll m'.memory cs ws texts := by
  induction cs generalizing m m' texts with
  | nil =>
    constructor
    · rintro h
      cases h
      exact ⟨[], m.withWords_nil.symm, .nil⟩
    · rintro ⟨ws, rfl, hall⟩
      cases hall
      rw [m'.withWords_nil]
      rfl
  | cons c cs ih =>
    constructor
    · intro h
      obtain ⟨rest, m₁, hrest, h⟩ := bind_eq_ok_iff.mp h
      obtain ⟨arg, m₂, harg, h⟩ := bind_eq_ok_iff.mp h
      cases h
      obtain ⟨ws, rfl, hall⟩ := ih.mp hrest
      obtain ⟨w, rfl, hw⟩ := popConverted_eq_ok_iff.mp harg
      exact ⟨w :: ws, (Machine.withWords_append _ [w] ws).symm, .cons hw hall⟩
    · rintro ⟨ws, rfl, hall⟩
      cases hall with
      | @cons _ _ w ws bs bss head tail =>
        have hrest : popArgs cs (m'.withWords (w :: ws)) = .ok bss (m'.withWords [w]) :=
          ih.mpr ⟨ws, m'.withWords_append [w] ws, tail⟩
        exact (bind_of_ok hrest).trans
          ((bind_of_ok (popConverted_eq_ok_iff.mpr ⟨w, rfl, head⟩)).trans rfl)

/-! ## Printing -/

/-- Prints by two scans of the format; `none` stands for a position outside of the format or of the
arguments. -/
def printfByScans : Exec (Option Unit) := do
  let format ← textAt (← popInt)
  match Format.conversionsFrom format 0 with
  | none => return none
  | some (.error f) => throw f
  | some (.ok cs) =>
    let args ← popArgs cs
    match Format.writtenFrom format args 0 0 with
    | none => return none
    | some bs =>
      let text : ByteArray := ⟨bs.toArray⟩
      modify fun m => { m with output := m.output ++ text }
      return some ()

lemma length_of_writesAll {mem : Memory} {cs : List Conversion} {ws : List Word}
    {texts : List (List UInt8)} (h : Conversion.WritesAll mem cs ws texts) : texts.length = cs.length := by
  induction h with
  | nil => rfl
  | cons _ _ ih => rw [List.length_cons, List.length_cons, ih]

/-- The two scans agree, so they never look outside. -/
lemma printfByScans_eq : printfByScans = some <$> printf := by
  unfold printfByScans printf
  simp only [map_bind]
  refine congrArg _ (funext fun addr => congrArg _ (funext fun format => ?_))
  rw [Format.conversionsFrom_eq, List.drop_zero]
  cases hparts : Format.parts format format with
  | error f => rfl
  | ok ps =>
    refine (?_ : _ = some <$> (popArgs (Format.conversions ps) >>= _))
    rw [map_bind]
    funext m
    refine bind_congr_of_ok fun args m' hargs => ?_
    obtain ⟨ws, -, hall⟩ := popArgs_eq_ok_iff.mp hargs
    have hsplits : Format.Splits (format.drop 0) ps := Format.parts_eq_ok_iff.mp hparts
    rw [Format.writtenFrom_eq (n := 0) hsplits (by rw [length_of_writesAll hall, Nat.zero_add])]
    rfl

/-- Everything that printing does before it writes. -/
def formatted : Exec (List UInt8) := do
  let format ← textAt (← popInt)
  match Format.parts format format with
  | .error f => throw f
  | .ok parts => return Format.fill parts (← popArgs (Format.conversions parts))

lemma printf_eq_bind : printf = formatted >>= fun text =>
    modify fun m => { m with output := m.output ++ ⟨text.toArray⟩ } := by
  unfold printf formatted
  simp only [bind_assoc]
  refine congrArg _ (funext fun addr => congrArg _ (funext fun format => ?_))
  cases Format.parts format format with
  | error f => rfl
  | ok ps => simp

lemma pops_formatted : Pops formatted := by
  refine pops_popInt.bind fun addr => (pops_textAt addr).bind fun format => ?_
  split
  · exact pops_throw _
  · exact (pops_popArgs _).bind fun _ => pops_pure _

lemma formatted_eq_ok_iff : formatted m = .ok text m' ↔ ∃ a format ws,
    m = m'.withWords (ws ++ [.address a]) ∧ m'.memory.HasText a format ∧
      Format.Written m'.memory format ws text := by
  constructor
  · intro h
    obtain ⟨addr, m₁, hpop, h⟩ := bind_eq_ok_iff.mp h
    obtain ⟨format, m₂, htext, h⟩ := bind_eq_ok_iff.mp h
    cases hparts : Format.parts format format with
    | error f =>
      rw [hparts] at h
      cases h
    | ok ps =>
      rw [hparts] at h
      obtain ⟨texts, m₃, hargs, h⟩ := bind_eq_ok_iff.mp h
      cases h
      obtain ⟨rfl, a, rfl, hformat⟩ := textAt_eq_ok_iff.mp htext
      obtain ⟨ws, rfl, hall⟩ := popArgs_eq_ok_iff.mp hargs
      refine ⟨a, format, ws, ?_, hformat, ?_⟩
      · rw [Machine.withWords_append]
        exact popInt_eq_ok_iff.mp hpop
      · exact Format.written_iff.mpr ⟨ps, texts, Format.parts_eq_ok_iff.mp hparts, hall, rfl⟩
  · rintro ⟨a, format, ws, rfl, hformat, hwritten⟩
    obtain ⟨ps, texts, hsplits, hall, rfl⟩ := Format.written_iff.mp hwritten
    have htext : textAt (Int32.ofNat a) (m'.withWords ws) = .ok format (m'.withWords ws) :=
      textAt_eq_ok_iff.mpr ⟨rfl, a, rfl, hformat⟩
    rw [Machine.withWords_append]
    refine (bind_of_ok (popInt_withWords _ _)).trans ((bind_of_ok htext).trans ?_)
    rw [Format.parts_eq_ok_iff.mpr hsplits]
    exact (bind_of_ok (popArgs_eq_ok_iff.mpr ⟨ws, rfl, hall⟩)).trans rfl

end Exec

/-- **Printing writes all or nothing.** The two scans of a format never look outside of it or of the
arguments. Where a format and words that can be written lie on the operand stack, they are taken off it
and the text is written; otherwise nothing is written. -/
theorem Exec.printf_writes_all_or_nothing (m : Machine) :
    printfByScans m = (some <$> printf) m ∧
    (∀ m', printf m = .ok () m' ↔ ∃ (m₀ : Machine) (a : Nat) (format : List UInt8) (ws : List Word)
      (text : List UInt8), m = m₀.withWords (ws ++ [.address a]) ∧ m₀.memory.HasText a format ∧
        Format.Written m₀.memory format ws text ∧
        m' = { m₀ with output := m₀.output ++ ⟨text.toArray⟩ }) ∧
    ∀ f m', printf m = .error f m' → ∃ st, m' = { m with stack := st } := by
  refine ⟨congrFun printfByScans_eq m, fun m' => ?_, fun f m' h => ?_⟩
  · rw [printf_eq_bind, bind_eq_ok_iff]
    constructor
    · rintro ⟨text, m₀, hformatted, hm'⟩
      obtain ⟨a, format, ws, hm, hformat, hwritten⟩ := formatted_eq_ok_iff.mp hformatted
      cases hm'
      exact ⟨m₀, a, format, ws, text, hm, hformat, hwritten, rfl⟩
    · rintro ⟨m₀, a, format, ws, text, hm, hformat, hwritten, rfl⟩
      exact ⟨text, m₀, formatted_eq_ok_iff.mpr ⟨a, format, ws, hm, hformat, hwritten⟩, rfl⟩
  · rw [printf_eq_bind] at h
    rcases of_bind_eq_error h with hformatted | ⟨text, m₀, -, hm'⟩
    · have hpops := pops_formatted m
      rwa [after, hformatted] at hpops
    · cases hm'

/-- The format `%%%d` takes one word. -/
theorem Exec.printf_writes_percent_and_integer :
    let m : Machine := { memory := ⟨⟨#[37, 37, 37, 100, 0]⟩⟩, stack := #[.int 3, .int 5, .int 0] }
    ∃ m', printf m = .ok () m' ∧ m'.stack = #[.int 3] ∧ m'.output = ⟨#[37, 53]⟩ := by
  intro m
  let m₀ : Machine := { m with stack := #[.int 3] }
  have hformat : m₀.memory.HasText 0 [37, 37, 37, 100] := ⟨⟨by decide, by decide⟩, by decide, by decide⟩
  have hwritten : Format.Written m₀.memory [37, 37, 37, 100] [.int 5] (37 :: ([53] ++ [])) := by
    have hint : Conversion.int.Writes m₀.memory (.int 5) [53] := .int 5
    exact .percent (.convert (by decide) hint .nil)
  exact ⟨_, ((printf_writes_all_or_nothing m).2.1 _).mpr
    ⟨m₀, 0, _, [.int 5], _, rfl, hformat, hwritten, rfl⟩, rfl, rfl⟩

end SubrLang
