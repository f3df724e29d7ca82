import SubrLang.Proofs.Execution

/-!
# Printing and coming to an end

**Texts.** `Memory.HasText` says that a text ended by a zero byte lies in memory, which is how the machine
finds formats and the texts that it prints.

**Formats.** `Code.takes_printf` is the effect of printing through a format: the words that its conversions
stand for are taken off the operand stack, and the format with their texts filled in is written.

**Ends.** A run without a limit is the same however long it is watched once it has come to its end
(`Machine.runFor_mono`). `Machine.EndsIn` and `Machine.NeverEnds` say what becomes of it.
-/

namespace SubrLang

/-! ## Texts in memory -/

/-- A text without zero bytes lies at an address, with a zero byte behind it. -/
structure Memory.HasText (m : Memory) (a : Nat) (text : List UInt8) : Prop where
  inside : m.Inside a (text.length + 1)
  bytes : (List.range' a (text.length + 1)).map m.byte = text ++ [0]
  nonzero : 0 ∉ text

namespace Memory

variable {m : Memory} {a : Nat} {text : List UInt8}

lemma firstZero?_eq : ∀ {text : List UInt8} {a n : Nat},
    (List.range' a (text.length + 1)).map m.byte = text ++ [0] → 0 ∉ text → text.length < n →
      m.firstZero? a n = some (a + text.length) := by
  intro text
  induction text with
  | nil =>
    intro a n hbytes _ hn
    obtain ⟨n, rfl⟩ := Nat.exists_eq_add_one_of_ne_zero (Nat.ne_of_gt hn)
    have ha : m.byte a = 0 := by simpa using hbytes
    simp [firstZero?, ha]
  | cons b text ih =>
    intro a n hbytes hzero hn
    obtain ⟨n, rfl⟩ := Nat.exists_eq_add_one_of_ne_zero (Nat.ne_zero_of_lt hn)
    rw [List.length_cons, List.range'_succ, List.map_cons, List.cons_append, List.cons.injEq] at hbytes
    simp only [List.mem_cons, not_or] at hzero
    have ha : m.byte a ≠ 0 := by
      rw [hbytes.1]
      exact Ne.symm hzero.1
    rw [firstZero?, if_neg ha, ih hbytes.2 hzero.2 (by simpa using hn)]
    simp only [List.length_cons, Option.some.injEq]
    omega

lemma HasText.textAt? (h : m.HasText a text) : m.textAt? a = some text := by
  have hin := h.inside.2
  have hbytes : (List.range' a text.length).map m.byte = text := by
    have hall := h.bytes
    rw [List.range'_1_concat, List.map_append] at hall
    exact (List.append_inj' hall rfl).1
  rw [Memory.textAt?, firstZero?_eq h.bytes h.nonzero (by omega), Option.map_some, Nat.add_sub_cancel_left,
    hbytes]

/-- A store elsewhere leaves a text as it is. -/
lemma HasText.put {s : Slot} {j : Nat} {w : Word} (h : m.HasText a text)
    (hj : j + s.size ≤ a ∨ a + text.length < j) : (m.put s j w).HasText a text where
  inside := by simpa using h.inside
  bytes := by
    rw [← h.bytes]
    refine List.map_congr_left fun k hk => byte_put_of_apart ?_
    rw [List.mem_range'_1] at hk
    omega
  nonzero := h.nonzero

end Memory

/-! ## Formats -/

/-- A word is written as some bytes where a conversion stands. -/
inductive Conversion.Writes (mem : Memory) : Conversion → Word → List UInt8 → Prop
  | int (v : Int32) : Writes mem .int (.int v) (Text.Utf8.encode s!"{v.toInt}")
  | float (f : Binary64) : Writes mem .float (.float f) (Text.Utf8.encode (Decimal.fixed 6 f))
  | char (v : Int32) : Writes mem .char (.int v) [v.toUInt32.toUInt8]
  | text {a : Nat} {text : List UInt8} (h : mem.HasText a text) : Writes mem .text (.address a) text

/-- Words are written where conversions stand, one after the other. -/
inductive Conversion.WritesAll (mem : Memory) :
    List Conversion → List Word → List (List UInt8) → Prop
  | nil : WritesAll mem [] [] []
  | cons {c cs w ws bs bss} (head : Writes mem c w bs) (tail : WritesAll mem cs ws bss) :
      WritesAll mem (c :: cs) (w :: ws) (bs :: bss)

namespace Exec

variable {i a : Nat} {st ws : List Word} {mem : Memory} {out text : List UInt8} {w : Word}

lemma does_textAt (h : mem.HasText a text) :
    Does (textAt (Int32.ofNat a)) ⟨i, st, mem, out⟩ text ⟨i, st, mem, out⟩ := by
  apply does_get
  intro m hm
  cases hm
  obtain ⟨ha, hin⟩ := h.inside
  have hneg : ¬ Int32.ofNat a < 0 := by
    rw [Int32.lt_iff_toInt_lt, Int32.toInt_ofNat_of_lt (by simpa using ha)]
    simp
  have hend : ¬ m.memory.size ≤ a := by
    change a + (text.length + 1) ≤ m.memory.size at hin
    omega
  simp only [Memory.toNatClampNeg_ofNat ha, hneg, hend, decide_false, Bool.or_self, Bool.false_eq_true,
    if_false]
  have htext : m.memory.textAt? a = some text := h.textAt?
  rw [htext]
  exact does_pure text

lemma does_popConverted {c : Conversion} (h : c.Writes mem w text) :
    Does (popConverted c) ⟨i, w :: st, mem, out⟩ text ⟨i, st, mem, out⟩ := by
  cases h with
  | int v => exact does_popInt.bind (does_pure _)
  | float f => exact does_popFloat.bind (does_pure _)
  | char v => exact does_popInt.bind (does_pure _)
  | text h => exact does_popInt.bind (does_textAt h)

lemma does_popArgs {cs : List Conversion} {texts : List (List UInt8)}
    (h : Conversion.WritesAll mem cs ws texts) :
    Does (popArgs cs) ⟨i, ws.reverse ++ st, mem, out⟩ texts ⟨i, st, mem, out⟩ := by
  induction h generalizing st with
  | nil => exact does_pure _
  | @cons c cs w ws bs bss head tail ih =>
    rw [List.reverse_cons, List.append_assoc]
    exact ih.bind ((does_popConverted head).bind (does_pure _))

lemma does_printf {format : List UInt8} {parts : List FormatPart} {texts : List (List UInt8)}
    (hformat : mem.HasText a format) (hparts : Format.parts format format = .ok parts)
    (hargs : Conversion.WritesAll mem (Format.conversions parts) ws texts) :
    Does printf ⟨i, .address a :: (ws.reverse ++ st), mem, out⟩ ()
      ⟨i, st, mem, out ++ Format.fill parts texts⟩ := by
  refine does_popInt.bind ((does_textAt hformat).bind ?_)
  rw [hparts]
  refine (does_popArgs hargs).bind ?_
  intro m hm
  refine ⟨_, rfl, ?_⟩
  cases hm
  simp [Machine.config, Machine.state, Array.toList_append]

end Exec

/-- Prints through a format. -/
lemma Code.takes_printf {P : Code} {l : String} {a : Nat} {st ws : List Word} {mem : Memory}
    {out format : List UInt8} {parts : List FormatPart} {texts : List (List UInt8)} (hl : P.Holds l a)
    (hformat : mem.HasText a format) (hparts : Format.parts format format = .ok parts)
    (hargs : Conversion.WritesAll mem (Format.conversions parts) ws texts) :
    Takes P (pushD l ++ ops [.printf]) ⟨ws.reverse ++ st, mem, out⟩
      ⟨st, mem, out ++ Format.fill parts texts⟩ :=
  (takes_pushD_address hl).append
    (takes_plain (by simp) fun _ => Exec.does_printf hformat hparts hargs)

/-! ## Ends -/

namespace Machine

variable {img : Image} {m m' : Machine} {n k : Nat}

/-- A run that came to an end is not changed by watching it longer. -/
lemma runFor_mono {l : RunLimits} {e : Ending} (h : m.runFor img l n = (m', e)) (he : e ≠ .running)
    (hk : n ≤ k) : m.runFor img l k = (m', e) := by
  induction n generalizing m k with
  | zero =>
    cases h
    exact absurd rfl he
  | succ n ih =>
    obtain ⟨k, rfl⟩ := Nat.exists_eq_add_one_of_ne_zero (Nat.ne_zero_of_lt hk)
    by_cases hpass : m.Passes img l
    · rw [runFor_succ_of_passes hpass] at h ⊢
      split at h
      · exact ih h (by omega)
      · exact h
    · obtain ⟨_, -, hrun⟩ := runFor_succ_of_stops hpass
      rw [hrun] at h ⊢
      exact h

/-- A run without a limit comes to the end of the program. -/
def EndsIn (img : Image) (m m' : Machine) : Prop :=
  ∃ n, ∀ k, n ≤ k → m.runFor img .unlimited k = (m', .finished)

/-- A run without a limit goes on however long it is watched. -/
def NeverEnds (img : Image) (m : Machine) : Prop :=
  ∀ k, (m.runFor img .unlimited k).2 = .running

lemma neverEnds_of_unbounded
    (h : ∀ k, ∃ n m', k ≤ n ∧ m.runFor img .unlimited n = (m', .running)) : NeverEnds img m := by
  intro k
  obtain ⟨n, m', hk, hn⟩ := h k
  by_contra hend
  have hlonger := runFor_mono rfl hend hk
  rw [hn, Prod.ext_iff] at hlonger
  exact hend hlonger.2.symm

lemma state_recordHeap (img : Image) (m : Machine) : (m.recordHeap img).state = m.state := by
  unfold recordHeap
  split
  · split <;> rfl
  · rfl

end Machine

/-- A run that comes to a halt ends there. -/
lemma Reaches.endsIn {P : Code} {c : Config} {i : Nat} {s : State} {m : Machine}
    (h : Reaches P c ⟨i, s⟩) (hi : P.At i (Code.ops [.halt])) (hm : m.config = c) :
    ∃ m', m.EndsIn P.image m' ∧ m'.state = s := by
  obtain ⟨n, hn⟩ := h
  obtain ⟨m₁, hm₁, hrun⟩ := hn m hm
  have hstate : m₁.state = s := congrArg Config.state hm₁
  have hcode : P.image.code[m₁.pc]? =
      some (Assemble.resolved (.ofCode P) ⟨.plain .halt, ""⟩) := by
    rw [show m₁.pc = i from congrArg Config.pc hm₁]
    exact hi.resolved rfl
  have hone : m₁.runFor P.image .unlimited 1 = (m₁.advance.recordHeap P.image, .finished) := by
    simp only [Machine.runFor, hcode, Machine.stop?_unlimited]
    rfl
  refine ⟨m₁.advance.recordHeap P.image, ⟨n + 1, fun k hk => ?_⟩, ?_⟩
  · exact Machine.runFor_mono ((Machine.runFor_add 1 hrun).trans hone) (by simp) hk
  · rw [Machine.state_recordHeap, ← hstate]
    rfl

end SubrLang
