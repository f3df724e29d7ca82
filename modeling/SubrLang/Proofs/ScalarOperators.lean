import SubrLang.Proofs.Printing
import SubrLang.Proofs.ProgramShapes
import SubrLang.Proofs.ScalarEvaluation

/-!
# Operators on scalars

The code of an operator on integers, characters and truth values computes what the operator means.

**Rules.** `Scalar.operation?` and `Scalar.conversion?` list how operators on scalars turn into code. The
rules of the language say the same (`Rules.operator_scalar`, `Rules.conversion_scalar`); the conversions
that they insert are from characters to integers and need no instructions.

**Words.** A value is one word on the operand stack. `Globals.Computes` says that code takes some words off
the stack and leaves the value, or that it comes to the trap for a division by zero. It composes along `++`
(`Computes.bind`), so the code of a strict operator is looked at behind its operands only.
-/

namespace SubrLang

open Registry (standard)

/-! ## Rules -/

namespace Scalar

def prim : Scalar → Prim
  | int => .integer
  | char => .character
  | bool => .boolean

/-- How an operator on scalars turns into code, and the type of its result. -/
def operation? : TokenKind → List Scalar → Option (Variant × Scalar)
  | .plus, [a] => if a.isNumber then some (.opcode (.plain .nop), .int) else none
  | .minus, [a] => if a.isNumber then some (.opcode (.plain .negate), .int) else none
  | .plus, [a, b] => if a.isNumber && b.isNumber then some (.opcode (.plain .add), .int) else none
  | .minus, [a, b] =>
    if a.isNumber && b.isNumber then some (.opcode (.plain .subtract), .int) else none
  | .star, [a, b] =>
    if a.isNumber && b.isNumber then some (.opcode (.plain .multiply), .int) else none
  | .slash, [a, b] => if a.isNumber && b.isNumber then some (.expansion .intDivide, .int) else none
  | .eqEq, [a, b] =>
    if a.isNumber = b.isNumber then some (.expansion (.compare .eq), .bool) else none
  | .neq, [a, b] =>
    if a.isNumber = b.isNumber then some (.expansion (.compare .ne), .bool) else none
  | .andAnd, [.bool, .bool] => some (.expansion .shortCircuitAnd, .bool)
  | .orOr, [.bool, .bool] => some (.expansion .shortCircuitOr, .bool)
  | .not, [.bool] => some (.opcode (.plain .bnegate), .bool)
  | _, _ => none

/-- How a conversion between scalars turns into code. -/
def conversion? : (target source : Scalar) → Option Variant
  | .int, .int | .int, .char | .char, .char | .bool, .bool => some (.opcode (.plain .nop))
  | .bool, .int => some (.expansion .intToBool)
  | .bool, .char => some (.expansion .charToBool)
  | .char, .int => some (.expansion .intToChar)
  | .int, .bool | .char, .bool => none

def all : List Scalar := [int, char, bool]

lemma mem_all (t : Scalar) : t ∈ all := by cases t <;> decide

/-- The types of one operand or two. -/
def operands : List (List Scalar) := all.map ([·]) ++ all.flatMap fun a => all.map fun b => [a, b]

lemma mem_operands {ts : List Scalar} (h : ts.length = 1 ∨ ts.length = 2) : ts ∈ operands := by
  simp only [operands, List.mem_append, List.mem_map, List.mem_flatMap]
  rcases h with h | h
  · obtain ⟨a, rfl⟩ := List.length_eq_one_iff.mp h
    exact .inl ⟨a, mem_all a, rfl⟩
  · obtain ⟨a, b, rfl⟩ := List.length_eq_two.mp h
    exact .inr ⟨a, mem_all a, b, mem_all b, rfl⟩

lemma isGround_ty (t : Scalar) : t.ty.isGround := by cases t <;> rfl

lemma eq_ty_of_isPrim {t : Ty} {u : Scalar} (h : t.isPrim u.prim) : t = u.ty := by
  rw [Ty.eq_of_isPrim h]
  cases u <;> rfl

end Scalar

/-- Whether widening leaves all operands integers, or what they were: it needs no instructions then. -/
def Widening.isQuiet (ws : List Widened) : Bool :=
  ws.all fun w => w.2.all (· == .integer) && !w.1.isPrim .float

lemma Widening.code_of_integers {chain : List Prim} (h : chain.all (· == .integer)) :
    Widening.code chain = [] := by
  induction chain with
  | nil => rfl
  | cons p chain ih =>
    simp only [List.all_cons, Bool.and_eq_true, beq_iff_eq] at h
    rw [h.1]
    exact ih h.2

namespace Rules

/-- Whether a rule turns an operator into the given code, with a result of the given type. -/
def agrees (expected : Option (Variant × Scalar)) :
    Except TypeError (Signature × Ty × List Widened) → Bool
  | .ok (s, t, ws) =>
    expected.any (fun (v, u) => s.variant == v && t.isPrim u.prim) && Widening.isQuiet ws
  | .error _ => true

lemma agrees_operation : ∀ w, ∀ op ∈ [TokenKind.plus, .minus, .star, .slash, .eqEq, .neq, .andAnd,
    .orOr, .not], ∀ ts ∈ Scalar.operands,
      agrees (Scalar.operation? op ts) (operator ⟨standard, w⟩ op (ts.map Scalar.ty)) := by
  decide +kernel

lemma agrees_conversion : ∀ w, ∀ t ∈ Scalar.all, ∀ u ∈ Scalar.all,
    agrees ((Scalar.conversion? t u).map (·, t)) (operator ⟨standard, w⟩ .cast [.literal t.ty, u.ty]) := by
  decide +kernel

lemma eq_of_agrees {expected : Option (Variant × Scalar)} {s : Signature} {t : Ty} {ws : List Widened}
    (h : agrees expected (.ok (s, t, ws))) :
    ∃ u, expected = some (s.variant, u) ∧ t = u.ty ∧ Widening.isQuiet ws := by
  cases expected with
  | none => simp [agrees] at h
  | some x =>
    obtain ⟨v, u⟩ := x
    simp only [agrees, Option.any_some, Bool.and_eq_true, beq_iff_eq] at h
    obtain ⟨⟨rfl, ht⟩, hquiet⟩ := h
    exact ⟨u, rfl, Scalar.eq_ty_of_isPrim ht, hquiet⟩

lemma length_of_takes {s : Signature} {us : List Ty} {t : Ty} (h : Registry.Takes s us t) :
    us.length = s.params.length := by
  cases h <;> rfl

/-- As many operands are looked at as the signature has. -/
lemma length_params {r : Rules} (hr : r.registry = standard) {op : TokenKind} {ts : List Ty}
    {s : Signature} {t : Ty} {ws : List Widened} (ht : ∀ t ∈ ts, t.isGround)
    (h : r.operator op ts = .ok (s, t, ws)) :
    s ∈ standard ∧ s.key = op ∧ ts.length = s.params.length := by
  obtain ⟨hs, hkey, htakes, hws⟩ := operator_spec hr ht h
  refine ⟨hs, hkey, ?_⟩
  rw [← length_of_takes htakes, Widening.types, List.length_map, hws.length_eq]

variable {r : Rules} {s : Signature} {t : Ty} {ws : List Widened}

/-- What the language says about an operator on scalars. -/
theorem operator_scalar (hr : r.registry = standard) {op : TokenKind} (hop : op.isScalar)
    {ts : List Scalar} (h : r.operator op (ts.map Scalar.ty) = .ok (s, t, ws)) :
    ∃ u, Scalar.operation? op ts = some (s.variant, u) ∧ t = u.ty ∧ Widening.isQuiet ws := by
  have hground : ∀ t ∈ ts.map Scalar.ty, t.isGround := by simp [Scalar.isGround_ty]
  obtain ⟨hs, rfl, hlength⟩ := length_params hr hground h
  have hparams : ∀ s ∈ standard, s.key.isScalar → s.params.length = 1 ∨ s.params.length = 2 := by
    decide
  have hts : ts ∈ Scalar.operands := by
    rw [List.length_map] at hlength
    exact Scalar.mem_operands (hlength ▸ hparams s hs hop)
  have hmem : s.key ∈ [TokenKind.plus, .minus, .star, .slash, .eqEq, .neq, .andAnd, .orOr, .not] := by
    revert hop
    generalize s.key = op
    cases op <;> simp [TokenKind.isScalar]
  obtain ⟨registry, w⟩ := r
  change registry = standard at hr
  subst hr
  have hagrees := agrees_operation w _ hmem ts hts
  rw [h] at hagrees
  exact eq_of_agrees hagrees

/-- What the language says about a conversion between scalars. -/
theorem conversion_scalar (hr : r.registry = standard) {u u' : Scalar}
    (h : r.operator .cast [.literal u.ty, u'.ty] = .ok (s, t, ws)) :
    Scalar.conversion? u u' = some s.variant ∧ t = u.ty ∧ Widening.isQuiet ws := by
  obtain ⟨registry, w⟩ := r
  change registry = standard at hr
  subst hr
  have hagrees := agrees_conversion w u (Scalar.mem_all u) u' (Scalar.mem_all u')
  rw [h] at hagrees
  obtain ⟨u₁, hvariant, ht, hquiet⟩ := eq_of_agrees hagrees
  obtain ⟨v, hv, hpair⟩ := Option.map_eq_some_iff.mp hvariant
  cases hpair
  exact ⟨hv, ht, hquiet⟩

end Rules

/-! ## Words -/

namespace Value

/-- A value as a word of the operand stack. -/
def word : Value → Int32
  | int v => v
  | char c => Int32.ofNat c.toNat
  | bool b => if b then 1 else 0

lemma toInt_ofNat_toNat (c : UInt8) : (Int32.ofNat c.toNat).toInt = c.toNat := by
  have hc := c.toNat_lt
  exact Int32.toInt_ofNat_of_lt (by omega)

/-- A value can be kept in memory. -/
lemma fits (v : Value) : v.scalar.ty.slot.Fits (.int v.word) := by
  cases v with
  | int v => trivial
  | char c =>
    have hc := c.toNat_lt
    show 0 ≤ (Int32.ofNat c.toNat).toInt ∧ (Int32.ofNat c.toNat).toInt < 256
    rw [toInt_ofNat_toNat]
    omega
  | bool b => cases b <;> decide

lemma number_eq {v : Value} (h : v.scalar.isNumber) : v.number = .ok v.word.toInt := by
  cases v with
  | int v => rfl
  | char c => rw [number, word, toInt_ofNat_toNat]
  | bool b => cases h

lemma exists_bool {v : Value} (h : v.scalar = .bool) : ∃ b, v = bool b := by
  cases v with
  | bool b => exact ⟨b, rfl⟩
  | _ => cases h

lemma equals_eq {v v' : Value} (h : v.scalar.isNumber = v'.scalar.isNumber) :
    v.equals v' = .ok (v.word == v'.word) := by
  cases hv : v.scalar.isNumber with
  | true =>
    have hequals : v.equals v' = (do return (← v.number) == (← v'.number)) := by
      cases v <;> cases v' <;> first | rfl | cases hv
    rw [hequals, number_eq hv, number_eq (h ▸ hv)]
    have hword : (v.word.toInt == v'.word.toInt) = (v.word == v'.word) := by
      rw [Bool.eq_iff_iff, beq_iff_eq, beq_iff_eq, Int32.toInt_inj]
    exact congrArg _ hword
  | false =>
    rw [hv] at h
    obtain ⟨a, rfl⟩ : ∃ a, v = bool a := by
      cases v <;> first | exact ⟨_, rfl⟩ | cases hv
    obtain ⟨b, rfl⟩ : ∃ b, v' = bool b := by
      cases v' <;> first | exact ⟨_, rfl⟩ | cases h
    cases a <;> cases b <;> rfl

lemma convert_bool {v : Value} (h : v.scalar.isNumber) : v.convert .bool = .ok (bool (v.word != 0)) := by
  have hconvert : v.convert .bool = (do return bool ((← v.number) != 0)) := by
    cases v <;> first | rfl | cases h
  have hzero : (v.word.toInt != 0) = (v.word != 0) := by
    rw [Bool.eq_iff_iff, bne_iff_ne, bne_iff_ne]
    exact not_congr (Int32.toInt_inj (y := 0))
  rw [hconvert, number_eq h, ← hzero]
  rfl

/-- The character with the low seven bits of an integer. -/
lemma word_char_low (x : Int32) :
    (char (UInt8.ofNat (x.toInt % 128).toNat)).word = x &&& 127 := by
  have hmod : (x.toInt % 128).toNat = x.toUInt32.toNat % 128 := by
    rw [Memory.toInt_eq_bmod, Int.bmod_def]
    split <;> omega
  have hlow : x.toUInt32.toNat % 128 < 128 := Nat.mod_lt _ (by decide)
  have hand : (x &&& 127).toUInt32.toNat = x.toUInt32.toNat % 128 :=
    Nat.and_two_pow_sub_one_eq_mod _ 7
  have hbyte : (UInt8.ofNat (x.toUInt32.toNat % 128)).toNat = x.toUInt32.toNat % 128 :=
    UInt8.toNat_ofNat_of_lt' (by simp only [UInt8.size]; omega)
  rw [hmod, word, hbyte, ← hand]
  show (UInt32.ofNat (x &&& 127).toUInt32.toNat).toInt32 = x &&& 127
  rw [UInt32.ofNat_toNat, Int32.toInt32_toUInt32]

end Value

/-! ## Computing -/

/-- Where the global block and the trap for divisions by zero are in a program. -/
structure Globals (P : Code) where
  numbered : P.Numbered
  start : Nat
  size : Nat
  trap : Nat
  holds : P.Holds Cell.globals start
  marks : P.Marks Trap.intDivideByZero.label trap
  small : start + size ≤ 2 ^ 31

namespace Globals

open Code

variable {P : Code} (G : Globals P) {mem : Memory} {a b c : Code} {s s' : State} {st ws ws' : List Word}
  {out : List UInt8} {t u : Scalar} {v : Value} {r r' : Except EvalFault Value}

/-- Memory holds the global block, and the texts of the environment lie in front of it. -/
structure Ready (mem : Memory) : Prop where
  inside : G.start + G.size ≤ mem.size
  texts : ∀ x ∈ Environment.texts, ∃ a, P.Holds x.1 a ∧
    a + (Text.Utf8.encode x.2).length < G.start ∧ mem.HasText a (Text.Utf8.encode x.2)

/-- Code comes to the trap, with the given output. -/
def Traps (c : Code) (s : State) (out : List UInt8) : Prop :=
  ∀ i, P.At i c → ∃ st mem, G.Ready mem ∧ Reaches P ⟨i, s⟩ ⟨G.trap, st, mem, out⟩

/-- Code takes words off the operand stack and leaves a value there, unless it comes to the trap. -/
def Computes (mem : Memory) (c : Code) (ws : List Word) (t : Scalar) : Except EvalFault Value → Prop
  | .ok v => v.scalar = t ∧
      ∀ st out, Takes P c ⟨ws ++ st, mem, out⟩ ⟨.int v.word :: st, mem, out⟩
  | .error .divideByZero => ∀ st out, G.Traps c ⟨ws ++ st, mem, out⟩ out
  | .error .illTyped => False

variable {G}

lemma Ready.put {slot : Slot} {j : Nat} {w : Word} (h : G.Ready mem) (hj : G.start ≤ j) :
    G.Ready (mem.put slot j w) where
  inside := by simpa using h.inside
  texts := by
    intro x hx
    obtain ⟨a, ha, hlt, htext⟩ := h.texts x hx
    exact ⟨a, ha, hlt, htext.put (.inr (by omega))⟩

lemma Traps.left (h : G.Traps a s out) : G.Traps (a ++ b) s out := fun i hi => h i hi.left

lemma Traps.behind (ha : Takes P a s s') (h : G.Traps b s' out) : G.Traps (a ++ b) s out := by
  intro i hi
  obtain ⟨st, mem, hmem, hreaches⟩ := h _ hi.right
  exact ⟨st, mem, hmem, (ha i hi.left).trans hreaches⟩

/-- Code in front that changes only the words that are taken. -/
lemma Computes.behind (hb : G.Computes mem b ws' t r)
    (ha : ∀ st out, Takes P a ⟨ws ++ st, mem, out⟩ ⟨ws' ++ st, mem, out⟩) :
    G.Computes mem (a ++ b) ws t r := by
  match r, hb with
  | .ok v, hb => exact ⟨hb.1, fun st out => (ha st out).append (hb.2 st out)⟩
  | .error .divideByZero, hb => exact fun st out => .behind (ha st out) (hb st out)
  | .error .illTyped, hb => exact hb.elim

/-- An operand, and then what is done with it. -/
lemma Computes.bind {f : Value → Except EvalFault Value} (ha : G.Computes mem a [] t r)
    (hb : ∀ v, v.scalar = t → G.Computes mem b (.int v.word :: ws) u (f v)) :
    G.Computes mem (a ++ b) ws u (r >>= f) := by
  match r, ha with
  | .ok v, ha => exact (hb v ha.1).behind fun st out => ha.2 (ws ++ st) out
  | .error .divideByZero, ha => exact fun st out => (ha (ws ++ st) out).left
  | .error .illTyped, ha => exact ha.elim

lemma computes_effect {o : PlainOp} (hv : v.scalar = t)
    (ho : ∀ st, o.effect (ws ++ st) = some (.int v.word :: st)) :
    G.Computes mem (ops [o]) ws t (.ok v) :=
  ⟨hv, fun st _ => takes_effect (ho st)⟩

end Globals

/-! ## Tests -/

namespace Code

variable {P a b : Code} {i : Nat} {l : LabelFamily} {st : List Word} {mem : Memory} {out : List UInt8}

lemma Takes.behind {s s' : State} (h : Takes P b s s') (hi : P.At i (a ++ b)) :
    Reaches P ⟨i + a.instrs.length, s⟩ ⟨i + (a ++ b).instrs.length, s'⟩ := by
  have hb := h _ hi.right
  rwa [Nat.add_assoc, ← List.length_append, ← instrs_append] at hb

/-- A label at the end of code stands for the place behind it. -/
lemma At.marks_behind {x : Label} (hP : P.Numbered) (h : P.At i (a ++ label x)) :
    P.Marks x (i + (a ++ label x).instrs.length) := by
  have hlength : (a ++ label x).instrs.length = a.instrs.length := by
    simp [instrs, label, one, Instr.isCode]
  rw [hlength]
  exact h.right.marks hP

/-- What ends the code of a test: the true case, the false case and the place where they join. -/
def truthCases (l : LabelFamily) : Code :=
  label (l.label "true") ++ pushI 1 ++ jump (l.label "join") ++ label (l.label "false") ++ pushI 0 ++
    label (l.label "join")

lemma At.reaches_truth (hP : P.Numbered) (h : P.At i (a ++ truthCases l)) (b : Bool) :
    ∃ j, P.Marks (l.label (toString b)) j ∧ ∀ st mem out, Reaches P ⟨j, st, mem, out⟩
      ⟨i + (a ++ truthCases l).instrs.length, .ofBool b :: st, mem, out⟩ := by
  have hcases := h.right
  rw [instrs_append, List.length_append, ← Nat.add_assoc]
  have hjoin : P.Marks (l.label "join") (i + a.instrs.length + (truthCases l).instrs.length) :=
    hcases.right.marks hP
  cases b with
  | true =>
    refine ⟨_, hcases.left.left.left.left.left.marks hP, fun st mem out => ?_⟩
    exact (takes_pushI 1 _ hcases.left.left.left.left.right).trans
      ⟨1, hcases.left.left.left.right.steps_jump hP hjoin _⟩
  | false =>
    exact ⟨_, hcases.left.left.right.marks hP, fun st mem out => takes_pushI 0 _ hcases.left.right⟩

/-- A test of the word on top of the stack. -/
lemma takes_test (hP : P.Numbered) {o : LabelOp} {p : Int32 → Bool} (ho : o.test? = some p) (v : Int32) :
    Takes P (branch o (l.label "true") ++ jump (l.label "false") ++ truthCases l)
      ⟨.int v :: st, mem, out⟩ ⟨.ofBool (p v) :: st, mem, out⟩ := by
  intro i hi
  obtain ⟨j, hj, hreaches⟩ := hi.reaches_truth hP (p v)
  refine .trans ?_ (hreaches st mem out)
  cases hv : p v with
  | true =>
    rw [hv] at hj
    exact ⟨1, hi.left.left.steps_branch hP ho hj hv⟩
  | false =>
    rw [hv] at hj
    exact (takes_branch ho hv _ hi.left.left).trans ⟨1, hi.left.right.steps_jump hP hj _⟩

end Code

/-! ## Operators -/

namespace Globals

open Code

variable {P : Code} {G : Globals P} {mem : Memory} {a b c : Code} {l : LabelFamily} {ws : List Word}
  {t u : Scalar} {v w : Value} {r r' : Except EvalFault Value}

/-- The operands of an operator with their types and what they mean. -/
inductive Operands (G : Globals P) (mem : Memory) :
    List Code → List Scalar → List (Except EvalFault Value) → Prop
  | nil : Operands G mem [] [] []
  | cons {c cs t ts r rs} (head : G.Computes mem c [] t r) (tail : Operands G mem cs ts rs) :
      Operands G mem (c :: cs) (t :: ts) (r :: rs)

/-- A character is the integer that it stands for. -/
lemma computes_promotion (ht : t.isNumber) (ha : G.Computes mem a [] t r) :
    G.Computes mem (a ++ []) [] .int (do return .wrap (← (← r).number)) := by
  refine ha.bind fun v hv => ?_
  rw [Value.number_eq (hv ▸ ht)]
  refine ⟨rfl, fun st out => ?_⟩
  have hword : (Value.wrap v.word.toInt).word = v.word := Int32.ofInt_toInt _
  rw [hword]
  exact takes_nil _

/-- Division of words goes toward zero, and wraps around where the quotient is too large. -/
lemma ofInt_tdiv_toInt (x y : Int32) : Int32.ofInt (x.toInt.tdiv y.toInt) = x / y := by
  apply Int32.toInt.inj
  rw [Int32.toInt_div, Int32.toInt_ofInt]

/-- The words of two integers and what a wrapping operation makes of them. -/
lemma computes_arithmetic {o : PlainOp} {f : Int → Int → Int} {g : Int32 → Int32 → Int32}
    (hf : ∀ x y : Int32, Int32.ofInt (f x.toInt y.toInt) = g x y)
    (ho : ∀ x y st, o.effect (.int y :: .int x :: st) = some (.int (g x y) :: st))
    (ht : t.isNumber && u.isNumber) (ha : G.Computes mem a [] t r) (hb : G.Computes mem b [] u r') :
    G.Computes mem (a ++ (b ++ ops [o])) [] .int
      (do return .wrap (f (← (← r).number) (← (← r').number))) := by
  rw [Bool.and_eq_true] at ht
  refine ha.bind fun v hv => ?_
  rw [Value.number_eq (hv ▸ ht.1)]
  refine hb.bind fun w hw => ?_
  rw [Value.number_eq (hw ▸ ht.2)]
  refine computes_effect rfl fun st => ?_
  show o.effect (.int w.word :: .int v.word :: st) =
    some (.int (Int32.ofInt (f v.word.toInt w.word.toInt)) :: st)
  rw [hf, ho]

lemma beq_zero_sub (x y : Int32) : (x - y == 0) = (x == y) := by
  rw [Bool.eq_iff_iff, beq_iff_eq, beq_iff_eq]
  constructor
  · intro h
    rw [← Int32.sub_add_cancel x y, h, Int32.zero_add]
  · rintro rfl
    exact Int32.sub_self x

/-- The difference of two addresses is zero only if they are the same. -/
lemma ofNat_sub_beq_zero {i j : Nat} (hi : i < 2 ^ 31) (hj : j < 2 ^ 31) :
    (Int32.ofNat i - Int32.ofNat j == 0) = decide (i = j) := by
  rw [beq_zero_sub, Bool.eq_iff_iff, beq_iff_eq, decide_eq_true_iff, Memory.ofNat_inj_of_lt hi hj]

/-- The test that ends a comparison. -/
lemma computes_comparison {c : Comparison} {o : LabelOp} {p : Int32 → Bool}
    (hc : Lowering.compareBranches c false l = branch o (l.label "true") ++ jump (l.label "false"))
    (htrue : Lowering.compareTrue c l = []) (ho : o.test? = some p)
    (ht : t.isNumber = u.isNumber) (ha : G.Computes mem a [] t r) (hb : G.Computes mem b [] u r')
    {f : Bool → Bool} (hp : ∀ x y : Int32, p (x - y) = f (x == y)) :
    G.Computes mem (Lowering.compare c false l a b) [] .bool
      (do return .bool (f (← (← r).equals (← r')))) := by
  have hcode : Lowering.compare c false l a b = a ++ (b ++ (ops [.subtract] ++
      (branch o (l.label "true") ++ jump (l.label "false") ++ truthCases l))) := by
    simp [Lowering.compare, hc, htrue, Lowering.SignJumps.int, truthCases]
  rw [hcode]
  refine ha.bind fun v hv => hb.bind fun w hw => ?_
  rw [Value.equals_eq (by rw [hv, hw, ht])]
  refine ⟨rfl, fun st out => ?_⟩
  have hword : (Value.bool (f (v.word == w.word))).word = if p (v.word - w.word) then 1 else 0 := by
    rw [hp]
    rfl
  rw [hword]
  exact (takes_effect rfl).append (takes_test G.numbered ho _)

lemma computes_divide (hmem : G.Ready mem) (ht : t.isNumber && u.isNumber)
    (ha : G.Computes mem a [] t r) (hb : G.Computes mem b [] u r') :
    G.Computes mem (a ++ (b ++ Lowering.divide .jumpFalse .divide .intDivideByZero)) [] .int
      (TokenKind.apply none .slash [r, r']) := by
  rw [Bool.and_eq_true] at ht
  refine ha.bind fun v hv => ?_
  rw [Value.number_eq (hv ▸ ht.1)]
  refine hb.bind fun w hw => ?_
  rw [Value.number_eq (hw ▸ ht.2)]
  change G.Computes _ _ _ _ (if w.word.toInt = 0 then .error .divideByZero
    else .ok (.wrap (v.word.toInt.tdiv w.word.toInt)))
  have hdup : ∀ st out, Takes P (ops [.duplicate]) ⟨.int w.word :: st, mem, out⟩
      ⟨.int w.word :: .int w.word :: st, mem, out⟩ := fun st out => takes_effect rfl
  by_cases hzero : w.word = 0
  · rw [if_pos (by rw [hzero]; rfl)]
    intro st out i hi
    refine ⟨.int w.word :: .int v.word :: st, mem, hmem, (hdup _ out i hi.left.left).trans ⟨1, ?_⟩⟩
    exact hi.left.right.steps_branch G.numbered rfl G.marks (by simp [hzero])
  · rw [if_neg (by rwa [← Int32.toInt_inj] at hzero)]
    refine ⟨rfl, fun st out => ?_⟩
    have hdivide : PlainOp.divide.effect (.int w.word :: .int v.word :: st) =
        some (.int (Int32.ofInt (v.word.toInt.tdiv w.word.toInt)) :: st) := by
      rw [ofInt_tdiv_toInt]
      simp [PlainOp.effect, hzero]
    exact ((hdup _ out).append (takes_branch rfl (by simp [hzero]))).append (takes_effect hdivide)

/-- The code of a logical operator behind its left operand. If that has the value `d`, it decides. -/
lemma computes_shortCircuit {o : LabelOp} {p : Int32 → Bool} {combine : PlainOp} {d x : Bool}
    (ho : o.test? = some p) (hp : p (Value.bool x).word = (x == d))
    (hcombine : ∀ y st, combine.effect (.int (Value.bool y).word :: .int (Value.bool !d).word :: st) =
      some (.int (Value.bool y).word :: st))
    (hb : G.Computes mem b [] .bool r) :
    G.Computes mem (ops [.duplicate] ++ branch o (l.label "short") ++ b ++ ops [combine] ++
        branch .jumpFalse (l.label "false") ++ jump (l.label "true") ++
        label (l.label "short") ++ ops [.pop] ++ jump (l.label (toString d)) ++ truthCases l)
      [.int (Value.bool x).word] .bool (if x = d then .ok (.bool d) else r) := by
  have hdup : ∀ st out, Takes P (ops [.duplicate]) ⟨.int (Value.bool x).word :: st, mem, out⟩
      ⟨.int (Value.bool x).word :: .int (Value.bool x).word :: st, mem, out⟩ :=
    fun st out => takes_effect rfl
  by_cases hx : x = d
  · rw [if_pos hx]
    refine ⟨rfl, fun st out i hi => ?_⟩
    obtain ⟨j, hj, htruth⟩ := hi.reaches_truth G.numbered d
    have hshort := hi.left.left.left.marks_behind G.numbered
    have hpop : Takes P (ops [.pop]) ⟨.int (Value.bool x).word :: st, mem, out⟩ ⟨st, mem, out⟩ :=
      takes_effect rfl
    refine .trans ?_ (htruth st mem out)
    refine .trans ?_ ⟨1, hi.left.right.steps_jump G.numbered hj _⟩
    refine .trans ?_ (hpop.behind hi.left.left)
    have hfront := hi.left.left.left.left.left.left.left.left
    exact (hdup st out _ hfront.left).trans
      ⟨1, hfront.right.steps_branch G.numbered ho hshort (by rw [hp]; simp [hx])⟩
  · rw [if_neg hx]
    have hfront : ∀ st out, Takes P (ops [.duplicate] ++ branch o (l.label "short"))
        ⟨.int (Value.bool x).word :: st, mem, out⟩ ⟨.int (Value.bool x).word :: st, mem, out⟩ :=
      fun st out => (hdup st out).append (takes_branch ho (by rw [hp]; simp [hx]))
    match r, hb with
    | .error .divideByZero, hb =>
      intro st out i hi
      exact Traps.behind (hfront st out) (hb _ out) i hi.left.left.left.left.left.left.left
    | .error .illTyped, hb => exact hb.elim
    | .ok w, ⟨hw, hb⟩ =>
      obtain ⟨y, rfl⟩ := Value.exists_bool hw
      obtain rfl : x = !d := Bool.eq_not_of_ne hx
      refine ⟨rfl, fun st out i hi => ?_⟩
      obtain ⟨j, hj, htruth⟩ := hi.reaches_truth G.numbered y
      have hcombined : Takes P (ops [combine])
          ⟨.int (Value.bool y).word :: .int (Value.bool !d).word :: st, mem, out⟩
          ⟨.int (Value.bool y).word :: st, mem, out⟩ := takes_effect (hcombine y st)
      have hright := ((hfront st out).append (hb _ out)).append hcombined
      refine .trans ?_ (htruth st mem out)
      refine .trans (hright _ hi.left.left.left.left.left.left) ?_
      cases y with
      | false => exact ⟨1, hi.left.left.left.left.left.right.steps_branch G.numbered rfl hj rfl⟩
      | true =>
        have hpass : Takes P (branch .jumpFalse (l.label "false"))
            ⟨.int (Value.bool true).word :: st, mem, out⟩ ⟨st, mem, out⟩ := takes_branch rfl rfl
        exact (hpass.behind hi.left.left.left.left.left).trans
          ⟨1, hi.left.left.left.left.right.steps_jump G.numbered hj _⟩

/-- What a logical operator means whose left operand decides if it has the value `d`. -/
def logical (d : Bool) (r r' : Except EvalFault Value) : Except EvalFault Value := do
  if (← (← r).truth) = d then return .bool d else return .bool (← (← r').truth)

lemma computes_logical {o : LabelOp} {p : Int32 → Bool} {combine : PlainOp} {d : Bool}
    (ho : o.test? = some p) (hp : ∀ x, p (Value.bool x).word = (x == d))
    (hcombine : ∀ y st, combine.effect (.int (Value.bool y).word :: .int (Value.bool !d).word :: st) =
      some (.int (Value.bool y).word :: st))
    (ha : G.Computes mem a [] .bool r) (hb : G.Computes mem b [] .bool r') :
    G.Computes mem (Lowering.shortCircuit o combine (toString d) l a b) [] .bool (logical d r r') := by
  have hcode : Lowering.shortCircuit o combine (toString d) l a b =
      a ++ (ops [.duplicate] ++ branch o (l.label "short") ++ b ++ ops [combine] ++
        branch .jumpFalse (l.label "false") ++ jump (l.label "true") ++
        label (l.label "short") ++ ops [.pop] ++ jump (l.label (toString d)) ++ truthCases l) := by
    simp only [Lowering.shortCircuit, truthCases, List.append_assoc]
  have hsecond : (do return Value.bool (← (← r').truth)) = r' := by
    cases r' with
    | ok w =>
      obtain ⟨y, rfl⟩ := Value.exists_bool hb.1
      rfl
    | error e => rfl
  rw [hcode, logical]
  refine ha.bind fun v hv => ?_
  obtain ⟨x, rfl⟩ := Value.exists_bool hv
  rw [hsecond]
  exact computes_shortCircuit ho (hp x) hcombine hb

lemma Operands.one {cs : List Code} {rs : List (Except EvalFault Value)} (h : G.Operands mem cs [t] rs) :
    ∃ a r, cs = [a] ∧ rs = [r] ∧ G.Computes mem a [] t r := by
  rcases h with _ | ⟨ha, _ | _⟩
  exact ⟨_, _, rfl, rfl, ha⟩

lemma Operands.two {cs : List Code} {rs : List (Except EvalFault Value)}
    (h : G.Operands mem cs [t, u] rs) : ∃ a b r r', cs = [a, b] ∧ rs = [r, r'] ∧
      G.Computes mem a [] t r ∧ G.Computes mem b [] u r' := by
  rcases h with _ | ⟨ha, _ | ⟨hb, _ | _⟩⟩
  exact ⟨_, _, _, _, rfl, rfl, ha, hb⟩

lemma flatten_append (cs : List Code) (k : Code) : cs.flatten ++ k = cs.foldr (· ++ ·) k := by
  induction cs with
  | nil => rfl
  | cons c cs ih => rw [List.flatten_cons, List.append_assoc, ih, List.foldr_cons]

/-- The code of an operator that is one instruction. -/
lemma run_plain {o : PlainOp} {cs : List Code} {st st' : LowerState} (ho : o ≠ .nop)
    (hrun : (Lower.applyVariant (.opcode (.plain o)) false l cs).run st = .ok (c, st')) :
    c = cs.foldr (· ++ ·) (ops [o]) := by
  rw [Lower.applyVariant_plain, if_neg ho] at hrun
  rw [(Lower.run_pure hrun).1, flatten_append]

/-- The code of an operator on scalars computes what the operator means. -/
theorem computes_operation {op : TokenKind} {ts : List Scalar} {variant : Variant} {cs : List Code}
    {rs : List (Except EvalFault Value)} {st st' : LowerState} (hmem : G.Ready mem)
    (hop : Scalar.operation? op ts = some (variant, u)) (h : G.Operands mem cs ts rs)
    (hrun : (Lower.applyVariant variant false l cs).run st = .ok (c, st')) (target : Option Scalar) :
    G.Computes mem c [] u (op.apply target rs) := by
  fun_cases Scalar.operation? op ts with
  | case1 t ht =>
    obtain ⟨a, r, rfl, rfl, ha⟩ := h.one
    rw [Scalar.operation?, if_pos ht] at hop
    cases hop
    obtain ⟨rfl, -⟩ := Lower.run_pure hrun
    exact computes_promotion ht ha
  | case3 t ht =>
    obtain ⟨a, r, rfl, rfl, ha⟩ := h.one
    rw [Scalar.operation?, if_pos ht] at hop
    cases hop
    obtain rfl := run_plain (by decide) hrun
    refine ha.bind fun v hv => ?_
    rw [Value.number_eq (hv ▸ ht)]
    refine computes_effect rfl fun st => ?_
    have hword : (Value.wrap (-v.word.toInt)).word = -v.word := by
      rw [Value.wrap, Value.word, Int32.ofInt_neg, Int32.ofInt_toInt]
    rw [hword]
    rfl
  | case5 t u ht =>
    obtain ⟨a, b, r, r', rfl, rfl, ha, hb⟩ := h.two
    rw [Scalar.operation?, if_pos ht] at hop
    cases hop
    obtain rfl := run_plain (by decide) hrun
    exact computes_arithmetic (f := (· + ·)) (by simp) (fun _ _ _ => rfl) ht ha hb
  | case7 t u ht =>
    obtain ⟨a, b, r, r', rfl, rfl, ha, hb⟩ := h.two
    rw [Scalar.operation?, if_pos ht] at hop
    cases hop
    obtain rfl := run_plain (by decide) hrun
    exact computes_arithmetic (f := (· - ·)) (by simp) (fun _ _ _ => rfl) ht ha hb
  | case9 t u ht =>
    obtain ⟨a, b, r, r', rfl, rfl, ha, hb⟩ := h.two
    rw [Scalar.operation?, if_pos ht] at hop
    cases hop
    obtain rfl := run_plain (by decide) hrun
    exact computes_arithmetic (f := (· * ·)) (by simp) (fun _ _ _ => rfl) ht ha hb
  | case11 t u ht =>
    obtain ⟨a, b, r, r', rfl, rfl, ha, hb⟩ := h.two
    rw [Scalar.operation?, if_pos ht] at hop
    cases hop
    obtain ⟨rfl, -⟩ := Lower.run_pure hrun
    rw [flatten_append]
    exact computes_divide hmem ht ha hb
  | case13 t u ht =>
    obtain ⟨a, b, r, r', rfl, rfl, ha, hb⟩ := h.two
    rw [Scalar.operation?, if_pos ht] at hop
    cases hop
    obtain ⟨rfl, -⟩ := Lower.run_pure hrun
    exact computes_comparison (f := fun x => x) rfl rfl rfl ht ha hb beq_zero_sub
  | case15 t u ht =>
    obtain ⟨a, b, r, r', rfl, rfl, ha, hb⟩ := h.two
    rw [Scalar.operation?, if_pos ht] at hop
    cases hop
    obtain ⟨rfl, -⟩ := Lower.run_pure hrun
    exact computes_comparison (f := fun x => !x) rfl rfl rfl ht ha hb
      fun x y => congrArg (!·) (beq_zero_sub x y)
  | case17 =>
    obtain ⟨a, b, r, r', rfl, rfl, ha, hb⟩ := h.two
    cases hop
    obtain ⟨rfl, -⟩ := Lower.run_pure hrun
    have hand : TokenKind.apply target .andAnd [r, r'] = logical false r r' := by
      rcases r with e | (v | c | x)
      · rfl
      · rfl
      · rfl
      · cases x <;> rfl
    rw [hand]
    refine computes_logical (d := false) rfl (by decide) ?_ ha hb
    intro y st
    cases y <;> rfl
  | case18 =>
    obtain ⟨a, b, r, r', rfl, rfl, ha, hb⟩ := h.two
    cases hop
    obtain ⟨rfl, -⟩ := Lower.run_pure hrun
    have hor : TokenKind.apply target .orOr [r, r'] = logical true r r' := by
      rcases r with e | (v | c | x)
      · rfl
      · rfl
      · rfl
      · cases x <;> rfl
    rw [hor]
    refine computes_logical (d := true) rfl (by decide) ?_ ha hb
    intro y st
    cases y <;> rfl
  | case19 =>
    obtain ⟨a, r, rfl, rfl, ha⟩ := h.one
    cases hop
    obtain rfl := run_plain (by decide) hrun
    refine ha.bind fun v hv => ?_
    obtain ⟨x, rfl⟩ := Value.exists_bool hv
    refine computes_effect rfl fun st => ?_
    cases x <;> rfl
  | case2 | case4 | case6 | case8 | case10 | case12 | case14 | case16 | case20 =>
    simp_all [Scalar.operation?]

/-- The code of a conversion between scalars computes what the conversion means. -/
theorem computes_conversion {variant : Variant} {isFloat : Bool} {st st' : LowerState}
    (hop : Scalar.conversion? u t = some variant) (ha : G.Computes mem a [] t r)
    (hrun : (Lower.applyVariant variant isFloat l [a]).run st = .ok (c, st')) :
    G.Computes mem c [] u (do (← r).convert u) := by
  cases u with
  | int =>
    obtain ⟨ht, rfl⟩ : t.isNumber ∧ .opcode (.plain .nop) = variant := by
      cases t <;> simp_all [Scalar.conversion?, Scalar.isNumber]
    obtain ⟨rfl, -⟩ := Lower.run_pure hrun
    exact computes_promotion ht ha
  | char =>
    cases t with
    | int =>
      cases hop
      obtain ⟨rfl, -⟩ := Lower.run_pure hrun
      rw [List.append_assoc, flatten_append]
      refine ha.bind fun v hv => ?_
      obtain ⟨x, rfl⟩ : ∃ x, v = .int x := by cases v <;> first | exact ⟨_, rfl⟩ | cases hv
      refine ⟨rfl, fun st out => ?_⟩
      rw [Value.word_char_low]
      exact (takes_pushI 127).append (takes_effect rfl)
    | char =>
      cases hop
      obtain ⟨rfl, -⟩ := Lower.run_pure hrun
      refine ha.bind fun v hv => ?_
      obtain ⟨x, rfl⟩ : ∃ x, v = .char x := by cases v <;> first | exact ⟨_, rfl⟩ | cases hv
      exact ⟨rfl, fun st out => takes_nil _⟩
    | bool => cases hop
  | bool =>
    by_cases ht : t.isNumber
    · have hcode : c = a ++ (ops [.bnegate] ++ ops [.bnegate]) := by
        cases t with
        | int | char =>
          cases hop
          rw [(Lower.run_pure hrun).1, flatten_append]
          rfl
        | bool => cases ht
      rw [hcode]
      refine ha.bind fun v hv => ?_
      rw [Value.convert_bool (hv ▸ ht)]
      refine ⟨rfl, fun st out => ?_⟩
      have hagain : ∀ x : Bool, PlainOp.bnegate.effect (.ofBool x :: st) = some (.ofBool (!x) :: st) := by
        intro x
        cases x <;> rfl
      exact (takes_effect rfl).append (takes_effect (hagain (v.word == 0)))
    · obtain rfl : t = .bool := by cases t <;> first | rfl | exact absurd rfl ht
      cases hop
      obtain ⟨rfl, -⟩ := Lower.run_pure hrun
      refine ha.bind fun v hv => ?_
      obtain ⟨x, rfl⟩ := Value.exists_bool hv
      exact ⟨rfl, fun st out => takes_nil _⟩

end Globals

end SubrLang
