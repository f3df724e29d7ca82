import SubrLang.Proofs.ScalarOperators

/-!
# Comparisons of integers

The code of a comparison subtracts its operands and decides by the sign of the difference.

**Code.** `Code.takes_compare` says what the code answers: how the word of the difference compares with zero.
Four of the comparisons test that word once; for `≤` and `≥` it is tested twice (`Code.takes_twice`).

**Order.** A word holds the difference of two integers if it is not too large (`Word.Holds`). Where it is too
large the word has the other sign and is not zero, so that a question about the order of the operands gets
the wrong answer, and one about their equality the right one (`Comparison.relates_sub_iff`).
-/

namespace SubrLang

/-! ## Order -/

/-- The integers that a word can hold. -/
def Word.Holds (x : Int) : Prop := -2 ^ 31 ≤ x ∧ x < 2 ^ 31

/-- A difference of words that is too large comes out on the other side of zero. -/
lemma Word.toInt_sub_cases (x y : Int32) :
    Word.Holds (x.toInt - y.toInt) ∧ (x - y).toInt = x.toInt - y.toInt ∨
    2 ^ 31 ≤ x.toInt - y.toInt ∧ (x - y).toInt < 0 ∨
    x.toInt - y.toInt < -2 ^ 31 ∧ 0 < (x - y).toInt := by
  have hx := x.toInt_lt
  have hx' := x.le_toInt
  have hy := y.toInt_lt
  have hy' := y.le_toInt
  rw [Int32.toInt_sub, Int.bmod_def, Word.Holds]
  omega

namespace Comparison

/-- The relation of integers that a comparison asks for. -/
def relates : Comparison → Int → Int → Bool
  | .gt, x, y => y < x
  | .ge, x, y => y ≤ x
  | .lt, x, y => x < y
  | .le, x, y => x ≤ y
  | .eq, x, y => x = y
  | .ne, x, y => x ≠ y

/-- A comparison asks for the order of its operands, and not only whether they are equal. -/
def AsksOrder (c : Comparison) : Prop := c ≠ .eq ∧ c ≠ .ne

/-- The sign of the difference gives the right answer, except about the order of operands that are too far
from each other. -/
lemma relates_sub_iff (c : Comparison) (x y : Int32) :
    c.relates (x - y).toInt 0 = c.relates x.toInt y.toInt ↔
      (c.AsksOrder → Word.Holds (x.toInt - y.toInt)) := by
  rcases Word.toInt_sub_cases x y with ⟨hholds, hsub⟩ | hfar
  · rw [hsub]
    cases c <;> simp only [relates, hholds, implies_true, iff_true, decide_eq_decide] <;> omega
  · have hholds : ¬ Word.Holds (x.toInt - y.toInt) := by
      rw [Word.Holds]
      omega
    cases c <;> simp only [relates, AsksOrder, hholds, decide_eq_decide] <;> grind

end Comparison

/-! ## Code -/

namespace Code

open Lowering

variable {P left right : Code} {l : LabelFamily} {s : State} {st : List Word} {mem : Memory}
  {out : List UInt8} {o : LabelOp} {p : Int32 → Bool} {c : Comparison} {v : Int32} {b : Bool}

/-- What the code of a comparison does with the difference of its operands. -/
def signCases (c : Comparison) (l : LabelFamily) : Code :=
  compareBranches c false l ++ label (l.label "true") ++ compareTrue c l ++ pushI 1 ++
    jump (l.label "join") ++ label (l.label "false") ++ pushI 0 ++ label (l.label "join")

lemma compare_eq_signCases (c : Comparison) (l : LabelFamily) (left right : Code) :
    Lowering.compare c false l left right = left ++ right ++ ops [.subtract] ++ signCases c l := by
  simp [Lowering.compare, signCases, SignJumps.int]

lemma takes_once (hP : P.Numbered)
    (hbranches : compareBranches c false l = branch o (l.label "true") ++ jump (l.label "false"))
    (htrue : compareTrue c l = []) (ho : o.test? = some p) (hb : p v = b) :
    Takes P (signCases c l) ⟨.int v :: st, mem, out⟩ ⟨.ofBool b :: st, mem, out⟩ := by
  have hcode : signCases c l = branch o (l.label "true") ++ jump (l.label "false") ++ truthCases l := by
    simp [signCases, truthCases, hbranches, htrue]
  rw [hcode, ← hb]
  exact takes_test hP ho v

/-- A test that also succeeds on zero. Zero arrives behind the instruction that drops the second copy. -/
lemma takes_twice (hP : P.Numbered)
    (hbranches : compareBranches c false l = ops [.duplicate] ++ branch o (l.label "true") ++
      branch .jumpFalse (l.label "zero") ++ jump (l.label "false"))
    (htrue : compareTrue c l = ops [.pop] ++ label (l.label "zero")) (ho : o.test? = some p)
    (hb : (p v || v == 0) = b) :
    Takes P (signCases c l) ⟨.int v :: st, mem, out⟩ ⟨.ofBool b :: st, mem, out⟩ := by
  intro i hi
  subst hb
  have hcode : signCases c l = ops [.duplicate] ++ branch o (l.label "true") ++
      branch .jumpFalse (l.label "zero") ++ jump (l.label "false") ++ label (l.label "true") ++
      ops [.pop] ++ label (l.label "zero") ++ pushI 1 ++ jump (l.label "join") ++
      label (l.label "false") ++ pushI 0 ++ label (l.label "join") := by
    simp [signCases, hbranches, htrue]
  rw [hcode] at hi ⊢
  have hjoin := hi.marks_behind hP
  have hfalse := hi.left.left.marks_behind hP
  have hzero := hi.left.left.left.left.left.marks_behind hP
  have htrue := hi.left.left.left.left.left.left.left.marks_behind hP
  have hfront := hi.left.left.left.left.left.left.left.left
  have hdup : Takes P (ops [.duplicate]) ⟨.int v :: st, mem, out⟩ ⟨.int v :: .int v :: st, mem, out⟩ :=
    takes_effect rfl
  have hone := ((takes_pushI 1).behind hi.left.left.left.left).trans
    ⟨1, hi.left.left.left.right.steps_jump hP hjoin ⟨.int 1 :: st, mem, out⟩⟩
  refine (hdup _ hfront.left.left.left).trans ?_
  cases hv : p v with
  | true =>
    have hpop : Takes P (ops [.pop]) ⟨.int v :: st, mem, out⟩ ⟨st, mem, out⟩ := takes_effect rfl
    exact .trans ⟨1, hfront.left.left.right.steps_branch hP ho htrue hv⟩
      ((hpop.behind hi.left.left.left.left.left.left).trans hone)
  | false =>
    refine ((takes_branch ho hv).behind hfront.left.left).trans ?_
    cases hv0 : v == 0 with
    | true => exact .trans ⟨1, hfront.left.right.steps_branch hP rfl hzero hv0⟩ hone
    | false =>
      refine ((takes_branch (p := (· == 0)) rfl hv0).behind hfront.left).trans ?_
      exact .trans ⟨1, hfront.right.steps_jump hP hfalse _⟩ ((takes_pushI 0).behind hi.left)

lemma takes_signCases (hP : P.Numbered) (c : Comparison) (v : Int32) :
    Takes P (signCases c l) ⟨.int v :: st, mem, out⟩ ⟨.ofBool (c.relates v.toInt 0) :: st, mem, out⟩ := by
  have hzero : v = 0 ↔ v.toInt = 0 := Int32.toInt_inj.symm
  have hpos : 0 < v ↔ 0 < v.toInt := Int32.lt_iff_toInt_lt
  have hneg : v < 0 ↔ v.toInt < 0 := Int32.lt_iff_toInt_lt
  cases c with
  | gt => exact takes_once hP rfl rfl rfl (by simp [Comparison.relates, hpos])
  | lt => exact takes_once hP rfl rfl rfl (by simp [Comparison.relates, hneg])
  | eq => exact takes_once hP rfl rfl rfl (by simp [Comparison.relates, beq_eq_decide, hzero])
  | ne => exact takes_once hP rfl rfl rfl (by simp [Comparison.relates, bne, beq_eq_decide, hzero])
  | ge =>
    refine takes_twice hP rfl rfl rfl ?_
    rw [Bool.eq_iff_iff]
    simp only [Comparison.relates, Bool.or_eq_true, decide_eq_true_eq, beq_iff_eq, hpos, hzero]
    omega
  | le =>
    refine takes_twice hP rfl rfl rfl ?_
    rw [Bool.eq_iff_iff]
    simp only [Comparison.relates, Bool.or_eq_true, decide_eq_true_eq, beq_iff_eq, hneg, hzero]
    omega

/-- What the code of a comparison answers. -/
lemma takes_compare (hP : P.Numbered) (c : Comparison) {x y : Int32}
    (hoperands : Takes P (left ++ right) s ⟨.int y :: .int x :: st, mem, out⟩) :
    Takes P (Lowering.compare c false l left right) s
      ⟨.ofBool (c.relates (x - y).toInt 0) :: st, mem, out⟩ := by
  rw [compare_eq_signCases]
  exact (hoperands.append (takes_effect rfl)).append (takes_signCases hP c (x - y))

/-- **Comparing by a difference.** Behind code that leaves two integers on the operand stack, the code of a
comparison replaces them by an answer and changes nothing else. The answer is right if the question is
whether the two are equal, and if a word can hold their difference. In all other cases it is wrong. -/
theorem takes_compare_iff (hP : P.Numbered) (c : Comparison) {x y : Int32}
    (hoperands : Takes P (left ++ right) s ⟨.int y :: .int x :: st, mem, out⟩) :
    ∃ b : Bool, Takes P (Lowering.compare c false l left right) s ⟨.ofBool b :: st, mem, out⟩ ∧
      (b = c.relates x.toInt y.toInt ↔ (c.AsksOrder → Word.Holds (x.toInt - y.toInt))) :=
  ⟨_, takes_compare hP c hoperands, c.relates_sub_iff x y⟩

/-- The code that asks whether the largest integer is below `-1`. -/
def farApart : Code := Lowering.compare .lt false ⟨"compare", 1⟩ (pushI 2147483647) (pushI (-1))

lemma numbered_farApart : farApart.Numbered where
  assemblable := ⟨by decide, by decide, by decide⟩
  short := by decide

/-- The difference is `-2147483648` as a word, so the largest integer is taken to be below `-1`. -/
theorem takes_compare_iff_farApart : Comparison.lt.relates 2147483647 (-1) = false ∧
    Reaches farApart ⟨0, [], ⟨.empty⟩, []⟩ ⟨farApart.instrs.length, [.ofBool true], ⟨.empty⟩, []⟩ := by
  have hpush : Takes farApart (pushI 2147483647 ++ pushI (-1)) ⟨[], ⟨.empty⟩, []⟩
      ⟨[.int (-1), .int 2147483647], ⟨.empty⟩, []⟩ := (takes_pushI _).append (takes_pushI _)
  obtain ⟨b, htakes, hb⟩ := takes_compare_iff (l := ⟨"compare", 1⟩) numbered_farApart .lt hpush
  have hwrong : ¬ b = Comparison.lt.relates 2147483647 (-1) := fun h =>
    absurd (hb.1 h ⟨by decide, by decide⟩).2 (by decide)
  obtain rfl : b = true := by simpa [Comparison.relates] using hwrong
  have hreaches := htakes 0 (at_self farApart)
  rw [Nat.zero_add] at hreaches
  exact ⟨by decide, hreaches⟩

end Code

end SubrLang
