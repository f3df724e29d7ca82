import SubrLang.Proofs.ScalarPrograms

/-!
# Printed values

The code that prints a value of any type writes its text and leaves memory as it was.

**Values.** A `Datum` is a value without its place in memory, and `Datum.text` is how it is printed.
`Memory.Represents` says that a word on the operand stack stands for a value: a number itself, a reference
by the records in memory that it leads to.

**Two cells.** The loop over the elements of an array keeps the array and the position in two cells. An
element may be an array too, whose loop works with the same cells; so each loop saves them on the operand
stack and restores them at its end (`Printer.Ready.restored_holding`). That is why the induction is on
the type, and the statement for the elements has to hold for the memory that the outer loop works with.

**The loop.** It ends when the position is equal to the length. `Printer.Prints.reaches_loop` goes by
induction on the number of elements that are left.
-/

namespace SubrLang

open Code
open Text.Utf8 (encode)

/-! ## Values -/

/-- What can be printed. -/
inductive Datum where
  | scalar (v : Value)
  | float (f : Binary64)
  | string (bytes : List UInt8)
  | function
  | array (elems : List Datum)

namespace Datum

mutual

/-- How a value is printed. The text of a string ends in front of its first zero byte. -/
def text : Datum → List UInt8
  | scalar v => v.text
  | float f => encode (Decimal.fixed 6 f)
  | string bs => bs.takeWhile (· ≠ 0)
  | function => encode "<function>"
  | array es => encode "[" ++ (encode ", ").intercalate (texts es) ++ encode "]"

def texts : List Datum → List (List UInt8)
  | [] => []
  | e :: es => e.text :: texts es

end

lemma texts_append (es fs : List Datum) : texts (es ++ fs) = texts es ++ texts fs := by
  induction es with
  | nil => rfl
  | cons e es ih => rw [List.cons_append, texts, ih, texts, List.cons_append]

end Datum

lemma intercalate_concat {α : Type} (sep x : List α) (xs : List (List α)) :
    sep.intercalate (xs ++ [x]) = sep.intercalate xs ++ ((if xs = [] then [] else sep) ++ x) := by
  induction xs with
  | nil => simp [List.intercalate]
  | cons y xs ih =>
    cases xs with
    | nil => simp [List.intercalate]
    | cons z xs =>
      simp only [List.intercalate, List.cons_append, List.intersperse_cons_cons, List.flatten_cons,
        reduceCtorEq, if_false, List.append_assoc] at ih ⊢
      rw [ih]

namespace Datum

/-- How the elements of an array are printed. -/
def joined (es : List Datum) : List UInt8 := (encode ", ").intercalate (texts es)

lemma joined_take_succ {es : List Datum} {k : Nat} (hk : k < es.length) :
    joined (es.take (k + 1)) =
      joined (es.take k) ++ ((if k = 0 then [] else encode ", ") ++ es[k].text) := by
  have hempty : texts (es.take k) = [] ↔ k = 0 := by
    cases es with
    | nil => simp at hk
    | cons e es => cases k <;> simp [texts]
  rw [← List.take_append_getElem hk, joined, texts_append, texts, texts, intercalate_concat, joined]
  simp only [hempty]

end Datum

/-! ## Values in memory -/

namespace Memory

variable {m m' : Memory} {lo a : Nat} {t : Ty} {w : Word} {d : Datum}

/-- A word of the operand stack stands for a value of a type. All records that it leads to start at `lo` or
behind. -/
inductive Represents (m : Memory) (lo : Nat) : Ty → Word → Datum → Prop
  | int (v : Int32) : Represents m lo .integer (.int (Value.int v).word) (.scalar (.int v))
  | char (c : UInt8) : Represents m lo .character (.int (Value.char c).word) (.scalar (.char c))
  | bool (b : Bool) : Represents m lo .boolean (.int (Value.bool b).word) (.scalar (.bool b))
  | float (f : Binary64) : Represents m lo .float (.float f) (.float f)
  | string {a : Nat} {bs : List UInt8} (behind : lo ≤ a)
      (inside : m.Inside (a + StringRecord.headerSize) (bs.length + 1))
      (bytes : (List.range' (a + StringRecord.headerSize) (bs.length + 1)).map m.byte = bs ++ [0]) :
      Represents m lo .string (.address a) (.string bs)
  | function (ps : List Ty) (r : Ty) (w : Word) : Represents m lo (.func ps r) w .function
  | array {t : Ty} {base : Nat} {n : Int32} {es : List Datum} (behind : lo ≤ base)
      (inside : base + ArrayRecord.headerSize + es.length * t.size ≤ m.size)
      (small : base + ArrayRecord.headerSize + es.length * t.size ≤ 2 ^ 31)
      (length : m.fetch .word (base + ArrayRecord.lengthOffset) = .int n)
      (count : n.toInt = es.length)
      (elems : ∀ k (h : k < es.length),
        Represents m lo t (m.fetch t.slot (base + ArrayRecord.headerSize + k * t.size)) es[k]) :
      Represents m lo (.array t) (.address base) (.array es)

/-- What lies in front of the records has no part in the value. -/
lemma Represents.frame (h : m.Represents lo t w d) (hsize : m'.size = m.size)
    (hbytes : ∀ j, lo ≤ j → m'.byte j = m.byte j) : m'.Represents lo t w d := by
  induction h with
  | int v => exact .int v
  | char c => exact .char c
  | bool b => exact .bool b
  | float f => exact .float f
  | string behind inside bytes =>
    refine .string behind ⟨inside.1, hsize ▸ inside.2⟩ (Eq.trans ?_ bytes)
    refine List.map_congr_left fun k hk => hbytes k ?_
    rw [List.mem_range'_1] at hk
    omega
  | function ps r w => exact .function ps r w
  | array behind inside small length count elems ih =>
    refine .array behind (hsize ▸ inside) small ?_ count fun k hk => ?_
    · exact (fetch_congr fun j _ => hbytes _ (by omega)).trans length
    · rw [fetch_congr fun j _ => hbytes _ (by omega)]
      exact ih k hk

lemma map_byte_takeWhile {bs : List UInt8}
    (h : (List.range' a (bs.length + 1)).map m.byte = bs ++ [0]) :
    (List.range' a ((bs.takeWhile (· ≠ 0)).length + 1)).map m.byte = bs.takeWhile (· ≠ 0) ++ [0] := by
  induction bs generalizing a with
  | nil => exact h
  | cons b bs ih =>
    rw [List.length_cons, List.range'_succ, List.map_cons, List.cons_append, List.cons.injEq] at h
    by_cases hb : b = 0
    · simp [hb, h.1]
    · have htail := ih h.2
      simp only [List.takeWhile_cons, hb, ne_eq, not_false_eq_true, decide_true, if_true]
      rw [List.length_cons, List.range'_succ, List.map_cons, List.cons_append, h.1, ← htail]

/-- The bytes of a string up to the first zero byte are a text in memory. -/
lemma hasText_takeWhile {bs : List UInt8} (hin : m.Inside a (bs.length + 1))
    (h : (List.range' a (bs.length + 1)).map m.byte = bs ++ [0]) :
    m.HasText a (bs.takeWhile (· ≠ 0)) where
  inside := by
    have hle : (bs.takeWhile (· ≠ 0)).length ≤ bs.length := (List.takeWhile_prefix _).length_le
    exact ⟨hin.1, by have := hin.2; omega⟩
  bytes := map_byte_takeWhile h
  nonzero := fun hzero => by simpa using List.mem_takeWhile_imp hzero

end Memory

/-! ## Places -/

/-- The places of the two cells that printing works with, in the order in which they are laid out. -/
structure Printer (P : Code) where
  numbered : P.Numbered
  first : Nat
  second : Nat
  holds_first : P.Holds Cell.print1 first
  holds_second : P.Holds Cell.print2 second
  first_second : first + 4 ≤ second

namespace Printer

/-- Memory holds the two cells, and the formats lie in front of them. -/
structure Ready {P : Code} (K : Printer P) (m : Memory) : Prop where
  small : K.second < 2 ^ 31
  inside : K.second + 4 ≤ m.size
  formats : ∀ f : PrintFormat, ∃ a, P.Holds f.label a ∧ a + (encode f.text).length < K.first ∧
    m.HasText a (encode f.text)

variable {P : Code} {K : Printer P} {m : Memory} {base k : Nat} {st : List Word} {out : List UInt8}
  {t : Ty} {w : Word} {d : Datum} {es : List Datum}

lemma Ready.hasFormats (h : K.Ready m) : P.HasFormats m := by
  intro f
  obtain ⟨a, ha, -, htext⟩ := h.formats f
  exact ⟨a, ha, htext⟩

lemma Ready.inside_first (h : K.Ready m) : m.Inside K.first 4 := by
  have hcells := K.first_second
  have hsmall := h.small
  have hinside := h.inside
  exact ⟨by omega, by omega⟩

lemma Ready.inside_second (h : K.Ready m) : m.Inside K.second 4 := ⟨h.small, h.inside⟩

/-- Memory with an array and a position in the cells. -/
def holding (K : Printer P) (m : Memory) (base k : Nat) : Memory :=
  (m.put .word K.first (.address base)).put .word K.second (.address k)

@[simp] lemma size_holding : (K.holding m base k).size = m.size := by simp [holding]

lemma byte_holding {j : Nat} (hfirst : j < K.first ∨ K.first + 4 ≤ j)
    (hsecond : j < K.second ∨ K.second + 4 ≤ j) : (K.holding m base k).byte j = m.byte j := by
  rw [holding, Memory.byte_put_of_apart hsecond, Memory.byte_put_of_apart hfirst]

lemma byte_holding_behind {j : Nat} (hj : K.second + 4 ≤ j) :
    (K.holding m base k).byte j = m.byte j := by
  have hcells := K.first_second
  exact byte_holding (.inr (by omega)) (.inr hj)

lemma fetch_holding_behind {s : Slot} {j : Nat} (hj : K.second + 4 ≤ j) :
    (K.holding m base k).fetch s j = m.fetch s j :=
  Memory.fetch_congr fun i _ => byte_holding_behind (by omega)

namespace Ready

/-- The loop does not touch the formats. -/
lemma holding (h : K.Ready m) (base k : Nat) : K.Ready (K.holding m base k) := by
  refine ⟨h.small, by simpa using h.inside, fun f => ?_⟩
  obtain ⟨a, ha, hlt, htext⟩ := h.formats f
  have hcells := K.first_second
  have hbefore : a + (encode f.text).length < K.second := by omega
  exact ⟨a, ha, hlt, (htext.put (.inr hlt)).put (.inr hbefore)⟩

lemma fetch_first (h : K.Ready m) : (K.holding m base k).fetch .word K.first = .address base := by
  rw [Printer.holding, Memory.fetch_put_of_apart (.inl K.first_second)]
  exact Memory.fetch_put h.inside_first.2 trivial

lemma fetch_second (h : K.Ready m) : (K.holding m base k).fetch .word K.second = .address k := by
  refine Memory.fetch_put ?_ trivial
  rw [Memory.size_put]
  exact h.inside

lemma put_holding (h : K.Ready m) {k' : Nat} :
    (K.holding m base k).put .word K.second (.address k') = K.holding m base k' :=
  Memory.put_word_put_word (by simpa using h.inside)

/-- When both cells are given back what they held, memory is as it was. -/
lemma restored_holding (h : K.Ready m) (base k : Nat) :
    ((K.holding m base k).put .word K.second (m.fetch .word K.second)).put .word K.first
      (m.fetch .word K.first) = m := by
  have hcells := K.first_second
  have hinside := h.inside
  have hsecond : (K.holding m base k).put .word K.second (m.fetch .word K.second) =
      (m.put .word K.second (m.fetch .word K.second)).put .word K.first (.address base) :=
    (Memory.put_word_put_word (by simpa using hinside)).trans <|
      Memory.put_comm (by decide) (by decide) (h.inside_first.2) hinside (.inl hcells)
  rw [hsecond, Memory.put_word_self rfl]
  exact (Memory.put_word_put_word (by omega)).trans (Memory.put_word_self rfl)

lemma takes_loadFirst (h : K.Ready m) : Takes P (load Cell.print1) ⟨st, K.holding m base k, out⟩
    ⟨.address base :: st, K.holding m base k, out⟩ :=
  takes_load K.holds_first (h.holding base k).inside_first h.fetch_first

lemma takes_loadSecond (h : K.Ready m) : Takes P (load Cell.print2) ⟨st, K.holding m base k, out⟩
    ⟨.address k :: st, K.holding m base k, out⟩ :=
  takes_load K.holds_second (h.holding base k).inside_second h.fetch_second

end Ready

/-! ## The code for arrays -/

/-- Saves the cells on the operand stack and begins with the first element. -/
def opening : Code :=
  (load Cell.print1 ++ ops [.exchange]) ++ (load Cell.print2 ++ ops [.exchange]) ++
    store Cell.print1 ++ (pushD Cell.print2 ++ pushI 0 ++ ops [.storeI]) ++ Lower.printf .openBracket

/-- The question of the loop: how far is the position from the length? -/
def distance : Code :=
  load Cell.print2 ++ (load Cell.print1 ++ plus ArrayRecord.lengthOffset ++ ops [.loadI]) ++
    ops [.subtract]

/-- Prints what stands in front of each element but the first. -/
def separating (l : LabelFamily) : Code :=
  load Cell.print2 ++ branch .jumpFalse (l.label "first") ++ Lower.printf .separator ++
    label (l.label "first")

/-- Leaves the element. -/
def fetching (t : Ty) : Code :=
  load Cell.print1 ++ plus ArrayRecord.headerSize ++ load Cell.print2 ++ pushI t.size ++
    ops [.multiply, .add] ++ ops [t.loadOp]

/-- Goes to the next element. -/
def advancing : Code := pushD Cell.print2 ++ (load Cell.print2 ++ plus 1) ++ ops [.storeI]

/-- The loop over the elements. -/
def loop (l : LabelFamily) (t : Ty) (elem : Code) : Code :=
  label (l.label "loop") ++ distance ++ branch .jumpFalse (l.label "end") ++
    (separating l ++ fetching t ++ elem ++ advancing) ++ jump (l.label "loop") ++ label (l.label "end")

/-- Gives the cells back what they held. -/
def closing : Code := Lower.printf .closeBracket ++ store Cell.print2 ++ store Cell.print1

lemma printArray_eq (l : LabelFamily) (t : Ty) (elem : Code) :
    Lower.printArray l t elem = opening ++ loop l t elem ++ closing := by
  have hload : ops [.loadI, .subtract] = ops [.loadI] ++ ops [.subtract] := rfl
  have hfetch : ops [.multiply, .add, t.loadOp] = ops [.multiply, .add] ++ ops [t.loadOp] := rfl
  unfold Lower.printArray opening loop closing distance separating fetching advancing
  simp only [hload, hfetch, List.append_assoc]

/-- An array lies in memory behind the cells. -/
structure Listing (K : Printer P) (m : Memory) (t : Ty) (base : Nat) (es : List Datum) : Prop where
  ready : K.Ready m
  printable : t.isPrintable
  behind : K.second + 4 ≤ base
  inside : base + ArrayRecord.headerSize + es.length * t.size ≤ m.size
  small : base + ArrayRecord.headerSize + es.length * t.size ≤ 2 ^ 31
  count : es.length < 2 ^ 31
  length : m.fetch .word (base + ArrayRecord.lengthOffset) = .int (Int32.ofNat es.length)
  elems : ∀ k (h : k < es.length), m.Represents (K.second + 4) t
    (m.fetch t.slot (base + ArrayRecord.headerSize + k * t.size)) es[k]

lemma Ready.takes_opening (h : K.Ready m) :
    Takes P opening ⟨.address base :: st, m, out⟩
      ⟨m.fetch .word K.second :: m.fetch .word K.first :: st, K.holding m base 0, out ++ encode "["⟩ := by
  have hsave : Takes P (load Cell.print1 ++ ops [.exchange]) ⟨.address base :: st, m, out⟩
      ⟨.address base :: m.fetch .word K.first :: st, m, out⟩ :=
    (takes_load K.holds_first h.inside_first rfl).append (takes_effect rfl)
  have hsave' : Takes P (load Cell.print2 ++ ops [.exchange])
      ⟨.address base :: m.fetch .word K.first :: st, m, out⟩
      ⟨.address base :: m.fetch .word K.second :: m.fetch .word K.first :: st, m, out⟩ :=
    (takes_load K.holds_second h.inside_second rfl).append (takes_effect rfl)
  have hzero {st : List Word} {mem : Memory} (hin : mem.Inside K.second 4) :
      Takes P (pushD Cell.print2 ++ pushI 0 ++ ops [.storeI]) ⟨st, mem, out⟩
        ⟨st, mem.put .word K.second (.address 0), out⟩ :=
    ((takes_pushD_address K.holds_second).append (takes_pushI 0)).append
      (takes_storeOp .word hin trivial)
  have hbracket {st : List Word} : Takes P (Lower.printf .openBracket) ⟨st, K.holding m base 0, out⟩
      ⟨st, K.holding m base 0, out ++ encode "["⟩ :=
    (h.holding base 0).hasFormats.takes_printf (f := .openBracket) rfl .nil
  exact (((hsave.append hsave').append (takes_store K.holds_first h.inside_first)).append
    (hzero (by simpa using h.inside_second))).append hbracket

lemma Ready.takes_separating (h : K.Ready m) (l : LabelFamily) (hk : k < 2 ^ 31) :
    Takes P (separating l) ⟨st, K.holding m base k, out⟩
      ⟨st, K.holding m base k, out ++ if k = 0 then [] else encode ", "⟩ := by
  have hzero : (Int32.ofNat k == 0) = decide (k = 0) := by
    rw [← Globals.ofNat_sub_beq_zero hk (by decide : 0 < 2 ^ 31)]
    exact congrArg (· == 0) (Int32.sub_zero _).symm
  intro i hi
  by_cases hfirst : k = 0
  · rw [if_pos hfirst, List.append_nil]
    exact (h.takes_loadSecond _ hi.left.left.left).trans
      ⟨1, hi.left.left.right.steps_branch K.numbered rfl (hi.marks_behind K.numbered)
        (by simpa [hzero] using hfirst)⟩
  · rw [if_neg hfirst]
    have hpass : Takes P (branch .jumpFalse (l.label "first"))
        ⟨.address k :: st, K.holding m base k, out⟩ ⟨st, K.holding m base k, out⟩ :=
      takes_branch rfl (by simpa [hzero] using hfirst)
    have hprint : Takes P (Lower.printf .separator) ⟨st, K.holding m base k, out⟩
        ⟨st, K.holding m base k, out ++ encode ", "⟩ :=
      (h.holding base k).hasFormats.takes_printf (f := .separator) rfl .nil
    exact (((h.takes_loadSecond.append hpass).append hprint).append (takes_label _ _)) i hi

lemma Ready.takes_advancing (h : K.Ready m) :
    Takes P advancing ⟨st, K.holding m base k, out⟩ ⟨st, K.holding m base (k + 1), out⟩ := by
  have hput : (K.holding m base k).put .word K.second (.address (k + 1)) = K.holding m base (k + 1) :=
    h.put_holding
  have hstore : Takes P (ops [.storeI])
      ⟨.address (k + 1) :: .address K.second :: st, K.holding m base k, out⟩
      ⟨st, K.holding m base (k + 1), out⟩ := by
    rw [← hput]
    exact takes_storeOp .word (h.holding base k).inside_second trivial
  exact ((takes_pushD_address K.holds_second).append
    (h.takes_loadSecond.append (takes_plus_address (by simp)))).append hstore

lemma Ready.takes_closing (h : K.Ready m) :
    Takes P closing
      ⟨m.fetch .word K.second :: m.fetch .word K.first :: st, K.holding m base k, out⟩
      ⟨st, m, out ++ encode "]"⟩ := by
  have hbracket {st : List Word} : Takes P (Lower.printf .closeBracket) ⟨st, K.holding m base k, out⟩
      ⟨st, K.holding m base k, out ++ encode "]"⟩ :=
    (h.holding base k).hasFormats.takes_printf (f := .closeBracket) rfl .nil
  have hin := h.holding base k
  have hrestore : Takes P (store Cell.print2 ++ store Cell.print1)
      ⟨m.fetch .word K.second :: m.fetch .word K.first :: st, K.holding m base k, out ++ encode "]"⟩
      ⟨st, ((K.holding m base k).put .word K.second (m.fetch .word K.second)).put .word K.first
        (m.fetch .word K.first), out ++ encode "]"⟩ :=
    (takes_store K.holds_second hin.inside_second).append
      (takes_store K.holds_first (Memory.inside_put.mpr hin.inside_first))
  rw [h.restored_holding] at hrestore
  have hall := hbracket.append hrestore
  rwa [← List.append_assoc] at hall

/-! ## Arrays -/

namespace Listing

lemma fetch_length (h : K.Listing m t base es) :
    (K.holding m base k).fetch .word (base + ArrayRecord.lengthOffset) =
      .int (Int32.ofNat es.length) := by
  have hbehind := h.behind
  rw [fetch_holding_behind (by omega), h.length]

lemma takes_distance (h : K.Listing m t base es) :
    Takes P distance ⟨st, K.holding m base k, out⟩
      ⟨.int (Int32.ofNat k - Int32.ofNat es.length) :: st, K.holding m base k, out⟩ := by
  have hinside := h.inside
  have hsmall := h.small
  simp only [ArrayRecord.headerSize] at hinside hsmall
  have hin : (K.holding m base k).Inside (base + ArrayRecord.lengthOffset) 4 := by
    refine ⟨?_, ?_⟩
    · simp only [ArrayRecord.lengthOffset]
      omega
    · simp only [ArrayRecord.lengthOffset, size_holding]
      omega
  have hlength : Takes P (load Cell.print1 ++ plus ArrayRecord.lengthOffset ++ ops [.loadI])
      ⟨.address k :: st, K.holding m base k, out⟩
      ⟨.int (Int32.ofNat es.length) :: .address k :: st, K.holding m base k, out⟩ :=
    (h.ready.takes_loadFirst.append (takes_plus_address (by simp))).append
      (takes_loadOp .word hin h.fetch_length)
  exact (h.ready.takes_loadSecond.append hlength).append (takes_effect rfl)

lemma takes_fetching (h : K.Listing m t base es) (hk : k < es.length) :
    Takes P (fetching t) ⟨st, K.holding m base k, out⟩
      ⟨m.fetch t.slot (base + ArrayRecord.headerSize + k * t.size) :: st, K.holding m base k, out⟩ := by
  have hslot := Ty.size_eq_of_isPrintable h.printable
  have hbehind := h.behind
  have hinside := h.inside
  have hsmall := h.small
  have hend : (k + 1) * t.size ≤ es.length * t.size := Nat.mul_le_mul_right _ hk
  rw [Nat.succ_mul] at hend
  have hpos : 0 < t.slot.size := by cases t.slot <;> decide
  have haddress : Word.address (base + ArrayRecord.headerSize + k * t.size) =
      .int (Int32.ofNat (base + ArrayRecord.headerSize) + Int32.ofNat k * Int32.ofInt t.size) := by
    rw [Word.address, Int32.ofInt_eq_ofNat, ← Int32.ofNat_mul, ← Int32.ofNat_add]
  have hplace : Takes P (ops [.multiply, .add])
      ⟨.int (Int32.ofInt t.size) :: .address k :: .address (base + ArrayRecord.headerSize) :: st,
        K.holding m base k, out⟩
      ⟨.address (base + ArrayRecord.headerSize + k * t.size) :: st, K.holding m base k, out⟩ := by
    rw [haddress]
    exact takes_ops_cons (takes_effect rfl) (takes_effect rfl)
  have hload : Takes P (ops [t.loadOp])
      ⟨.address (base + ArrayRecord.headerSize + k * t.size) :: st, K.holding m base k, out⟩
      ⟨m.fetch t.slot (base + ArrayRecord.headerSize + k * t.size) :: st, K.holding m base k, out⟩ := by
    rw [Ty.loadOp_eq]
    refine takes_loadOp t.slot ⟨by omega, ?_⟩ (fetch_holding_behind (by omega))
    rw [size_holding]
    omega
  exact ((((h.ready.takes_loadFirst.append (takes_plus_address (by simp))).append
    h.ready.takes_loadSecond).append (takes_pushI _)).append hplace).append hload

end Listing

/-- Code prints the values of a type, whatever is in the two cells. -/
def Prints (K : Printer P) (t : Ty) (c : Code) : Prop :=
  ∀ ⦃m w d⦄, K.Ready m → m.Represents (K.second + 4) t w d →
    ∀ st out, Takes P c ⟨w :: st, m, out⟩ ⟨st, m, out ++ d.text⟩

namespace Prints

variable {l : LabelFamily} {elem : Code} {i : Nat}

/-- One turn of the loop prints one element. -/
lemma takes_turn (he : K.Prints t elem) (h : K.Listing m t base es) (l : LabelFamily)
    (hk : k < es.length) :
    Takes P (separating l ++ fetching t ++ elem ++ advancing)
      ⟨st, K.holding m base k, out ++ Datum.joined (es.take k)⟩
      ⟨st, K.holding m base (k + 1), out ++ Datum.joined (es.take (k + 1))⟩ := by
  have hcount := h.count
  have hvalue : (K.holding m base k).Represents (K.second + 4) t
      (m.fetch t.slot (base + ArrayRecord.headerSize + k * t.size)) es[k] :=
    (h.elems k hk).frame size_holding fun j hj => byte_holding_behind hj
  have hturn := (((h.ready.takes_separating l (by omega)).append (h.takes_fetching hk)).append
    (he (h.ready.holding base k) hvalue st (out ++ Datum.joined (es.take k) ++
      if k = 0 then [] else encode ", "))).append h.ready.takes_advancing
  rw [Datum.joined_take_succ hk]
  simpa only [List.append_assoc] using hturn

/-- The loop prints the elements that are left. The induction is on their number. -/
lemma reaches_loop (he : K.Prints t elem) (h : K.Listing m t base es) (hi : P.At i (loop l t elem))
    (st : List Word) (out : List UInt8) : ∀ {n k : Nat}, k + n = es.length →
      Reaches P ⟨i, st, K.holding m base k, out ++ Datum.joined (es.take k)⟩
        ⟨i + (loop l t elem).instrs.length, st, K.holding m base es.length, out ++ Datum.joined es⟩ := by
  have hstart := hi.left.left.left.left.left.marks K.numbered
  have hend := hi.marks_behind K.numbered
  have hcount := h.count
  intro n
  induction n with
  | zero =>
    intro k hk
    obtain rfl : k = es.length := by omega
    rw [List.take_length]
    have hzero : (Int32.ofNat es.length - Int32.ofNat es.length == 0) = true := by simp
    exact (((takes_label _ _).append h.takes_distance) _ hi.left.left.left.left).trans
      ⟨1, hi.left.left.left.right.steps_branch K.numbered rfl hend hzero⟩
  | succ n ih =>
    intro k hk
    have hne : (Int32.ofNat k - Int32.ofNat es.length == 0) = false := by
      rw [Globals.ofNat_sub_beq_zero (by omega) hcount]
      simp only [decide_eq_false_iff_not]
      omega
    have hpass : Takes P (branch .jumpFalse (l.label "end"))
        ⟨.int (Int32.ofNat k - Int32.ofNat es.length) :: st, K.holding m base k,
          out ++ Datum.joined (es.take k)⟩
        ⟨st, K.holding m base k, out ++ Datum.joined (es.take k)⟩ := takes_branch rfl hne
    have hturn := (((takes_label (l.label "loop") _).append h.takes_distance).append hpass).append
      (he.takes_turn h l (by omega))
    exact ((hturn _ hi.left.left).trans ⟨1, hi.left.right.steps_jump K.numbered hstart _⟩).trans
      (ih (by omega))

/-- Where the elements can be printed, so can the array. -/
lemma array (he : K.Prints t elem) (ht : t.isPrintable) :
    K.Prints (.array t) (Lower.printArray l t elem) := by
  intro m w d hm hw st out
  cases hw with
  | @array _ base n es behind inside small length count elems =>
    have hn : n = Int32.ofNat es.length := by
      rw [← Int32.ofInt_eq_ofNat, ← count, Int32.ofInt_toInt]
    have hlt := n.toInt_lt
    have hlisting : K.Listing m t base es :=
      ⟨hm, ht, behind, inside, small, by omega, hn ▸ length, elems⟩
    have hloop : Takes P (loop l t elem)
        ⟨m.fetch .word K.second :: m.fetch .word K.first :: st, K.holding m base 0, out ++ encode "["⟩
        ⟨m.fetch .word K.second :: m.fetch .word K.first :: st, K.holding m base es.length,
          out ++ encode "[" ++ Datum.joined es⟩ := by
      intro i hi
      have hrun := he.reaches_loop hlisting hi (m.fetch .word K.second :: m.fetch .word K.first :: st)
        (out ++ encode "[") (Nat.zero_add es.length)
      simpa [Datum.joined, Datum.texts, List.intercalate] using hrun
    rw [printArray_eq]
    have hall := (hm.takes_opening.append hloop).append hm.takes_closing
    simpa [Datum.text, Datum.joined] using hall

end Prints

/-! ## Types -/

lemma prints_float : K.Prints .float (Lower.printf .float) := by
  intro m w d hm hw st out
  cases hw with
  | float f =>
    have hprint : Takes P (Lower.printf .float) ⟨[.float f].reverse ++ st, m, out⟩ _ :=
      hm.hasFormats.takes_printf rfl (.cons (.float f) .nil)
    simpa [Format.fill, Datum.text] using hprint

lemma prints_string : K.Prints .string (plus StringRecord.headerSize ++ Lower.printf .string) := by
  intro m w d hm hw st out
  cases hw with
  | @string a bs behind inside bytes =>
    have hrecord : Takes P (plus StringRecord.headerSize) ⟨.address a :: st, m, out⟩
        ⟨.address (a + StringRecord.headerSize) :: st, m, out⟩ := takes_plus_address (by simp)
    have htext := Memory.hasText_takeWhile inside bytes
    have hprint : Takes P (Lower.printf .string)
        ⟨[.address (a + StringRecord.headerSize)].reverse ++ st, m, out⟩ _ :=
      hm.hasFormats.takes_printf rfl (.cons (.text htext) .nil)
    refine hrecord.append ?_
    simpa [Format.fill, Datum.text] using hprint

lemma prints_function (ps : List Ty) (r : Ty) :
    K.Prints (.func ps r) (ops [.pop] ++ Lower.printf .function) := by
  intro m w d hm hw st out
  cases hw
  have hprint : Takes P (Lower.printf .function) ⟨st, m, out⟩ ⟨st, m, out ++ encode "<function>"⟩ :=
    hm.hasFormats.takes_printf (f := .function) rfl .nil
  exact (takes_effect rfl).append hprint

/-- The code that is made for a type prints its values. -/
lemma prints_printValue {c : Code} {s s' : LowerState} (ht : t.isPrintable)
    (hrun : (Lower.printValue t).run s = .ok (c, s')) : K.Prints t c := by
  fun_induction Ty.isPrintable t generalizing c s s' with
  | case3 p =>
    cases p with
    | void | error => contradiction
    | float =>
      obtain ⟨rfl, -⟩ := Lower.run_pure hrun
      exact prints_float
    | string =>
      obtain ⟨rfl, -⟩ := Lower.run_pure hrun
      exact prints_string
    | integer | character | boolean =>
      intro m w d hm hw st out
      cases hw
      exact hm.hasFormats.takes_printValue K.numbered _ hrun
  | case4 t ih =>
    obtain ⟨l, s₁, -, hrun⟩ := Lower.run_bind hrun
    obtain ⟨elem, s₂, helem, hrun⟩ := Lower.run_bind hrun
    obtain ⟨hc, -⟩ := Lower.run_pure hrun
    rw [hc]
    exact (ih ht helem).array ht
  | case5 ps r =>
    obtain ⟨rfl, -⟩ := Lower.run_pure hrun
    exact prints_function ps r
  | _ => cases ht

/-- A value that can be printed is printed by some code. -/
lemma exists_printValue (ht : t.isPrintable) (s : LowerState) : ∃ c s', (Lower.printValue t).run s = .ok (c, s') := by
  fun_induction Ty.isPrintable t generalizing s with
  | case3 p =>
    cases p with
    | void | error => contradiction
    | _ => exact ⟨_, _, rfl⟩
  | case4 t ih =>
    obtain ⟨c, s', hc⟩ := ih ht (Lower.counted s)
    have hfresh : (Lower.fresh "print-array").run s = .ok (⟨"print-array", s.families + 1⟩, Lower.counted s) := rfl
    refine ⟨Lower.printArray ⟨"print-array", s.families + 1⟩ t c, s', ?_⟩
    rw [Lower.printValue, Lower.run_bind_of_ok hfresh, Lower.run_bind_of_ok hc]
    rfl
  | case5 ps r => exact ⟨_, _, rfl⟩
  | _ => cases ht

/-- For every type that can be printed there is code that takes a value off the operand stack, writes its
text and leaves memory, the two cells included, as it was. -/
theorem printValue_writes_text (K : Printer P) (hm : K.Ready m) (ht : t.isPrintable)
    (hw : m.Represents (K.second + 4) t w d) (s : LowerState) :
    ∃ c s', (Lower.printValue t).run s = .ok (c, s') ∧
      ∀ st out, Takes P c ⟨w :: st, m, out⟩ ⟨st, m, out ++ d.text⟩ := by
  obtain ⟨c, s', hrun⟩ := exists_printValue ht s
  exact ⟨c, s', hrun, prints_printValue ht hrun hm hw⟩

/-! ### An array of arrays of truth values -/

namespace Nested

def type : Ty := .array (.array .boolean)

def value : Datum := .array [.array [.scalar (.bool true), .scalar (.bool false)], .array []]

def start : LowerState := { strings := { shared := true, bucket_eq := StringTable.bucket_nil } }

def code : Code := ((Lower.printValue type).run start).toOption.elim [] (·.1)

def program : Code :=
  code ++ (ops [.halt] ++ PrintFormat.all.flatMap (fun f => Environment.textCell f.label f.text) ++
    Environment.wordCell Cell.print1 ++ Environment.wordCell Cell.print2)

/-- The bytes of some formats. -/
def formats (fs : List PrintFormat) : List UInt8 := fs.flatMap fun f => encode f.text ++ [0]

def word (b : UInt8) : List UInt8 := [b, 0, 0, 0]

/-- The formats, the two cells, the two inner records and the outer one. -/
def memory : Memory :=
  ⟨⟨(formats PrintFormat.all ++ word 1 ++ word 2 ++
    (word 7 ++ word 0 ++ word 1 ++ word 2 ++ [1, 0]) ++ (word 7 ++ word 0 ++ word 1 ++ word 0) ++
    (word 7 ++ word 4 ++ word 4 ++ word 2 ++ word 58 ++ word 76)).toArray⟩⟩

lemma exists_run : ∃ s', (Lower.printValue type).run start = .ok (code, s') := ⟨_, rfl⟩

lemma exists_ready : ∃ K : Printer program, K.second = 54 ∧ K.Ready memory := by
  refine ⟨{
    numbered := { assemblable := ⟨by decide +kernel, by decide +kernel, by decide +kernel⟩,
                  short := by decide +kernel }
    first := 50
    second := 54
    holds_first := by decide +kernel
    holds_second := by decide +kernel
    first_second := by decide }, rfl, by decide, ?_, fun f => ?_⟩
  · show 58 ≤ memory.size
    decide +kernel
  · refine ⟨(formats (PrintFormat.all.takeWhile (· ≠ f))).length, ?_, ?_, ⟨?_, ?_⟩, ?_, ?_⟩
    all_goals cases f <;> decide +kernel

lemma represents_value : memory.Represents 58 type (.address 92) value := by
  have hat {t : Ty} {w w' : Word} {d : Datum} (h : memory.Represents 58 t w' d) (hw : w = w') :
      memory.Represents 58 t w d := hw ▸ h
  have hfirst : memory.Represents 58 (.array .boolean) (.address 58)
      (.array [.scalar (.bool true), .scalar (.bool false)]) := by
    refine .array (n := 2) le_rfl (by decide +kernel) (by decide) (by decide +kernel) (by decide) ?_
    intro k (hk : k < 2)
    interval_cases k
    · exact hat (.bool true) (by decide +kernel)
    · exact hat (.bool false) (by decide +kernel)
  have hsecond : memory.Represents 58 (.array .boolean) (.address 76) (.array []) := by
    refine .array (n := 0) (by decide) (by decide +kernel) (by decide) (by decide +kernel) (by decide) ?_
    intro k hk
    exact absurd hk (Nat.not_lt_zero k)
  refine .array (n := 2) (by decide) (by decide +kernel) (by decide) (by decide +kernel) (by decide) ?_
  intro k (hk : k < 2)
  interval_cases k
  · exact hat hfirst (by decide +kernel)
  · exact hat hsecond (by decide +kernel)

end Nested

open Nested in
theorem printValue_writes_text_nested : type.isPrintable ∧ ∃ c s',
    (Lower.printValue type).run start = .ok (c, s') ∧ program.At 0 c ∧
      Reaches program ⟨0, [.address 92], memory, []⟩
        ⟨c.instrs.length, [], memory, encode "[[true, false], []]"⟩ := by
  obtain ⟨K, hsecond, hready⟩ := exists_ready
  have hvalue : memory.Represents (K.second + 4) type (.address 92) value := hsecond ▸ represents_value
  obtain ⟨c, s', hrun, htakes⟩ := printValue_writes_text K hready rfl hvalue start
  obtain ⟨s₁, hcode⟩ := exists_run
  obtain rfl : code = c := by
    rw [hcode] at hrun
    cases hrun
    rfl
  have hat : program.At 0 code := (at_self program).left
  have hreaches := htakes [] [] 0 hat
  have htext : value.text = encode "[[true, false], []]" := by decide +kernel
  rw [htext, Nat.zero_add] at hreaches
  exact ⟨rfl, code, s', hrun, hat, hreaches⟩

end Printer

/-! ## Programs -/

namespace Environment

/-- The formats lie in front of the two cells. -/
lemma mem_prelude_print : (.text Cell.print1, 74) ∈ addresses 0 prelude ∧
    (.text Cell.print2, 78) ∈ addresses 0 prelude ∧ 82 ≤ bytes prelude ∧
    ∀ f ∈ PrintFormat.all, ∀ p ∈ addresses 0 prelude, p.1 = .text f.label →
      p.2 + (encode f.text).length < 74 := by
  decide +kernel

end Environment

open Environment in
/-- Every program that is laid out has the two cells, and the formats of the environment lie in front of
them. -/
lemma Program.exists_printer {n : Nat} {main bodies strings : Code}
    (hP : (layout n main bodies strings).Numbered) : ∃ K : Printer (layout n main bodies strings),
      K.second + 4 ≤ prelude.bytes ∧ ∀ {G : Globals (layout n main bodies strings)} {m : Memory},
        prelude.bytes ≤ G.start → G.Ready m → K.Ready m := by
  obtain ⟨hfirst, hsecond, hend, hformats⟩ := mem_prelude_print
  refine ⟨{
    numbered := hP
    first := 74
    second := 78
    holds_first := holds_prelude hP hfirst
    holds_second := holds_prelude hP hsecond
    first_second := le_rfl }, hend, fun {G m} hstart hm => ⟨?_, ?_, fun f => ?_⟩⟩
  · show 78 < 2 ^ 31
    decide
  · have hinside := hm.inside
    show 78 + 4 ≤ m.size
    omega
  · have hf : f ∈ PrintFormat.all := by cases f <;> decide
    have htexts : (f.label, f.text) ∈ texts := by cases f <;> decide
    have hassemblable := hP.assemblable
    rw [layout_eq] at hassemblable
    obtain ⟨k, hk, -⟩ := exists_text_prelude hassemblable htexts
    obtain ⟨a, ha, -, htext⟩ := hm.texts _ htexts
    have hlt := hformats f hf _ hk rfl
    -- a label stands for one address only
    obtain rfl : a = k := (Memory.ofNat_inj_of_lt htext.inside.1 (by omega)).mp
      (Option.some.inj (ha.symm.trans (holds_prelude hP hk)))
    exact ⟨a, ha, hlt, htext⟩

/-- A program that a source is compiled to can print from its main block on. -/
theorem exists_printer_of_compile {s : Settings} {name : String} {source : List UInt8} {code : Code}
    (h : (compile s name source).code = .ok code) (hinstrs : code.instrs.length < 2 ^ 31)
    (hbytes : code.bytes ≤ 2 ^ 31) : ∃ K : Printer code, ∀ {m : Memory} {rest out : List UInt8},
      m.bytes.data.toList = code.image.data ++ rest → ∃ main i m', code.At i (main ++ ops [.halt]) ∧
        K.Ready m' ∧ Reaches code ⟨0, [], m, out⟩ ⟨i, [], m', out⟩ := by
  obtain ⟨n, main, bodies, strings, rfl, hP⟩ := exists_layout_of_compile h hinstrs hbytes
  obtain ⟨K, -, hready⟩ := Program.exists_printer hP
  obtain ⟨G, hstart, hsize⟩ := Program.exists_globals hP hbytes
  refine ⟨K, fun hm => ?_⟩
  obtain ⟨i, m', hi, hm', hreaches⟩ := Globals.reaches_main hstart hsize hbytes hm
  exact ⟨main, i, m', hi, hready hstart.ge hm', hreaches⟩

end SubrLang
