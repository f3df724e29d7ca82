import Mathlib.Logic.Relation
import SubrLang.Proofs.CheckedNodes

/-!
# Visits of the checker

The checker goes over a program once, and comes to every expression in some state. `Task.Begins` is the relation
between something that it checks and what it begins on the way through that, with the states; the visits of a
program are what is reached along it from the bodies of the subroutines and the main block.

No expression of the checked program is left out: each is what some visit came to, up to the conversions that
were noted on it afterwards (`Program.exists_visit`).
-/

namespace SubrLang

open CheckState Check Relation

/-! ## Visits -/

/-- What an expression is checked as. -/
inductive Role where
  | operand
  /-- A call that is a statement. -/
  | statement
  | condition

/-- Checks an expression as what it is. -/
def Role.check (r : Rules) : Role → Expr → Check Expr
  | operand, e => e.check r false
  | statement, e => e.check r true
  | condition, e => do (← e.check r false).asCond

/-- An expression and the state in which the checker comes to it. -/
structure Visit where
  role : Role
  expr : Expr
  state : CheckState

namespace Visit

variable (r : Rules) (v : Visit)

/-- The checked expression and the state behind it. -/
def run : Expr × CheckState := (v.role.check r v.expr).run v.state

end Visit

/-- What the checker does from a state: it checks an expression, a statement or the statements of a block. -/
inductive Task where
  | expr (role : Role) (e : Expr)
  | stmt (result : Option Ty) (s : Stmt)
  | stmts (result : Option Ty) (returned : Bool) (ss : List Stmt)

namespace Stmt

/-- The condition of a statement and the block that it decides on. -/
def branch? : Stmt → Option (Expr × List Stmt)
  | .ifThen _ c b | .ifElse _ c b _ | .while _ c b => some (c, b)
  | _ => none

end Stmt

/-- At the start of the statements of a subroutine. -/
def Check.atSubroutine (h : FuncHead) (place : Place) (st : CheckState) : CheckState :=
  ((inFunc h (inBody place (inBlock get))).run st).1.2

/-- What the checker begins on its way through something, and in which state. -/
inductive Task.Begins (r : Rules) : Task × CheckState → Task × CheckState → Prop
  | part {role : Role} {e p : Expr} {before after : List Expr} {st : CheckState}
      (parts : e.parts = before ++ p :: after) :
      Begins r (.expr role e, st) (.expr .operand p, ((Expr.checkAll r before).run st).2)
  | lambda {role : Role} {n : Note} {h : FuncHead} {b : List Stmt} {st : CheckState} :
      Begins r (.expr role (.lambda n h b), st)
        (.stmts (some h.result) false b, atSubroutine h n.place st)
  | varDecl {result : Option Ty} {n : Note} {x : String} {isConst : Bool} {e : Expr} {o : Option Binding}
      {st : CheckState} : Begins r (.stmt result (.varDecl n x isConst e o), st) (.expr .operand e, st)
  | value {result : Option Ty} {n : Note} {t v : Expr} {st : CheckState} :
      Begins r (.stmt result (.assign n t v), st) (.expr .operand v, st)
  | target {result : Option Ty} {n : Note} {t v : Expr} {st : CheckState} :
      Begins r (.stmt result (.assign n t v), st) (.expr .operand t, ((v.check r false).run st).2)
  | print {result : Option Ty} {n : Note} {e : Expr} {before after : List PrintItem} {st : CheckState} :
      Begins r (.stmt result (.print n (before ++ .value e :: after)), st)
        (.expr .operand e, ((PrintItem.checkAll r before).run st).2)
  | call {result : Option Ty} {n : Note} {c : Expr} {st : CheckState} :
      Begins r (.stmt result (.call n c), st) (.expr .statement c, st)
  | give {result : Option Ty} {n : Note} {v : Expr} {st : CheckState} :
      Begins r (.stmt result (.give n v), st) (.expr .operand v, st)
  | condition {result : Option Ty} {s : Stmt} {c : Expr} {b : List Stmt} {st : CheckState}
      (branch : s.branch? = some (c, b)) : Begins r (.stmt result s, st) (.expr .condition c, st)
  | branch {result : Option Ty} {s : Stmt} {c : Expr} {b : List Stmt} {st : CheckState}
      (branch : s.branch? = some (c, b)) :
      Begins r (.stmt result s, st)
        (.stmts result false b, atBlock ((Role.condition.check r c).run st).2)
  | alternative {result : Option Ty} {n : Note} {c : Expr} {b : List Stmt} {a : Stmt} {st : CheckState} :
      Begins r (.stmt result (.ifElse n c b a), st)
        (.stmt result a, ((inBlock (Stmt.checkAll r result false b)).run
          ((Role.condition.check r c).run st).2).2)
  | block {result : Option Ty} {n : Note} {b : List Stmt} {st : CheckState} :
      Begins r (.stmt result (.block n b), st) (.stmts result false b, atBlock st)
  | first {result : Option Ty} {returned : Bool} {s : Stmt} {ss : List Stmt} {st : CheckState} :
      Begins r (.stmts result returned (s :: ss), st)
        (.stmt result s, if returned then ((warn .unreachableCode s.note.place
          "unreachable code after return").run st).2 else st)
  | rest {result : Option Ty} {returned : Bool} {s : Stmt} {ss : List Stmt} {st : CheckState} :
      Begins r (.stmts result returned (s :: ss), st)
        (.stmts result s.isReturn ss, ((Stmt.checkAll r result returned [s]).run st).2)

namespace Program

variable (r : Rules) (report : Report) (p : Program)

/-- The subroutines of a program once all are declared, and the state then. -/
def declared : List Func × CheckState :=
  (Func.declareAll p.funcs).run { table := .program, scope := 0, report }

/-- The blocks that the checker begins by itself: the bodies of the subroutines and the main block. -/
inductive Begins : Task × CheckState → Prop
  | func {f : Func} {before after : List Func} (funcs : (p.declared report).1 = before ++ f :: after) :
      Begins (.stmts (some f.head.result) false f.body,
        atSubroutine f.head f.note.place ((before.mapM (Func.check r)).run (p.declared report).2).2)
  | main : Begins (.stmts none false p.main,
      atBlock (((p.declared report).1.mapM (Func.check r)).run (p.declared report).2).2)

/-- The visits of expressions while a program is checked. -/
def Visits (v : Visit) : Prop := ∃ t, Begins r report p t ∧
  ReflTransGen (Task.Begins r) t (.expr v.role v.expr, v.state)

end Program

/-- What checks of a list come to is what each comes to in the state behind those before it. -/
lemma Check.mem_run_mapM_iff {α β : Type} {f : α → Check β} {b : β} {as : List α} {st : CheckState} :
    b ∈ ((as.mapM f).run st).1 ↔ ∃ before a after, as = before ++ a :: after ∧
      b = ((f a).run ((before.mapM f).run st).2).1 := by
  induction as generalizing st with
  | nil =>
    rw [List.mapM_nil, run_pure]
    simp
  | cons a as ih =>
    rw [List.mapM_cons, run_bind, run_bind, run_pure, List.mem_cons, ih]
    constructor
    · rintro (rfl | ⟨before, a', after, rfl, rfl⟩)
      · exact ⟨[], a, as, rfl, by rw [List.mapM_nil, run_pure]⟩
      · exact ⟨a :: before, a', after, rfl, by rw [List.mapM_cons, run_bind, run_bind, run_pure]⟩
    · rintro ⟨before, a', after, has, rfl⟩
      cases before with
      | nil =>
        cases has
        exact .inl (by rw [List.mapM_nil, run_pure])
      | cons a'' before =>
        cases has
        exact .inr ⟨before, a', after, rfl, by rw [List.mapM_cons, run_bind, run_bind, run_pure]⟩

/-! ## Parts and what is inside -/

namespace Expr

lemma IsNoted.innerNodes_eq {e e' : Expr} (h : IsNoted e e') : e'.innerNodes = e.innerNodes := by
  rw [h, withWidening, innerNodes_withNote]

/-- What is inside an expression other than a subroutine is its parts and what is inside these. -/
lemma innerNodes_eq_nodes_parts {e : Expr} (he : e.isLambda = false) : e.innerNodes = nodes e.parts := by
  cases e with
  | lambda => cases he
  | _ => simp [innerNodes, parts, nodes]

lemma checkAll_eq_mapM (r : Rules) (es : List Expr) : checkAll r es = es.mapM (check r false) := by
  induction es with
  | nil => rw [checkAll, List.mapM_nil]
  | cons e es ih => rw [checkAll, List.mapM_cons, ih]

end Expr

/-! ## Every expression of a checked program is visited -/

/-- Whether every one of some expressions is what a visit begun from a task came to, up to the conversions
noted on it where it stands. -/
def Task.Covers (r : Rules) (x : Task × CheckState) (es : List Expr) : Prop :=
  ∀ e ∈ es, ∃ v : Visit, ReflTransGen (Task.Begins r) x (.expr v.role v.expr, v.state) ∧
    Expr.IsNoted (v.run r).1 e

namespace Task.Covers

variable {r : Rules} {x y : Task × CheckState} {es es' : List Expr}

lemma nil : Covers r x [] := fun _ he => by cases he

lemma append (h : Covers r x es) (h' : Covers r x es') : Covers r x (es ++ es') := fun e he =>
  (List.mem_append.mp he).elim (h e) (h' e)

lemma of_begins (hxy : Task.Begins r x y) (h : Covers r y es) : Covers r x es := by
  intro e he
  obtain ⟨v, hv, hrun⟩ := h e he
  exact ⟨v, .head hxy hv, hrun⟩

/-- A visit covers what it comes to, if it covers what is inside. -/
lemma visit {role : Role} {e e' : Expr} {st : CheckState} (he : ((role.check r e).run st).1.IsNoted e')
    (h : Covers r (.expr role e, st) es) : Covers r (.expr role e, st) (e' :: es) := by
  rw [Covers, List.forall_mem_cons]
  exact ⟨⟨⟨role, e, st⟩, .refl, he⟩, h⟩

end Task.Covers

lemma Expr.innerNodes_asCond (e : Expr) (st : CheckState) : (e.asCond.run st).1.innerNodes = e.innerNodes := by
  unfold asCond
  split
  · rfl
  · exact innerNodes_withNote _ _

/-- A node other than a subroutine covers what is inside it, if its parts do. -/
lemma Expr.covers_of_parts {r : Rules} {e : Expr} (he : e.isLambda = false)
    (ih : ∀ p ∈ e.parts, ∀ st, Task.Covers r (.expr .operand p, st) ((p.check r false).run st).1.innerNodes)
    (isStmt : Bool) (role : Role) (st : CheckState) :
    Task.Covers r (.expr role e, st) ((e.check r isStmt).run st).1.innerNodes := by
  have hparts := (check_outcome r isStmt e he st).hasParts
  rw [innerNodes_eq_nodes_parts hparts.not_lambda]
  intro e' he'
  obtain ⟨p', hp', he'⟩ := mem_nodes.mp he'
  obtain ⟨q, hq, hnoted⟩ := hparts.exists_of_mem hp'
  rw [checkAll_eq_mapM] at hq
  obtain ⟨before, p, after, hsplit, rfl⟩ := mem_run_mapM_iff.mp hq
  rw [← checkAll_eq_mapM] at hnoted
  have hcovers := ih p (by simp [hsplit]) ((checkAll r before).run st).2
  rw [hnoted.innerNodes_eq] at he'
  exact Task.Covers.of_begins (.part hsplit) (.visit hnoted hcovers) e' he'

/-- A condition covers itself and what is inside it. -/
lemma Expr.covers_condition {r : Rules} {c : Expr} {st : CheckState}
    (h : Task.Covers r (.expr .condition c, st) ((c.check r false).run st).1.innerNodes) :
    Task.Covers r (.expr .condition c, st)
      (((Role.condition.check r c).run st).1 :: ((Role.condition.check r c).run st).1.innerNodes) := by
  refine .visit (isNoted_refl _) ?_
  rw [Role.check, run_bind, innerNodes_asCond]
  exact h

lemma PrintItem.run_checkAll_append (r : Rules) : ∀ (is js : List PrintItem) (st : CheckState),
    ((PrintItem.checkAll r (is ++ js)).run st).2 =
      ((PrintItem.checkAll r js).run ((PrintItem.checkAll r is).run st).2).2
  | [], js, st => by simp only [PrintItem.checkAll, run_pure, List.nil_append]
  | .separator p k :: is, js, st => by
    simp only [PrintItem.checkAll, List.cons_append, run_bind, run_pure]
    exact run_checkAll_append r is js st
  | .value e :: is, js, st => by
    simp only [PrintItem.checkAll, List.cons_append, run_bind, run_pure]
    exact run_checkAll_append r is js _

section Stmts

variable (r : Rules) (result : Option Ty) (n : Note) (st : CheckState)

lemma Stmt.check_varDecl (x : String) (isConst : Bool) (e : Expr) (b : Option Binding) :
    ∃ n' b', (((Stmt.varDecl n x isConst e b).check r result).run st).1 =
      .varDecl n' x isConst ((e.check r false).run st).1 b' := by
  obtain ⟨report, -, hrun⟩ := Stmt.run_varDecl r n x isConst e b result st
  rw [hrun, Check.declaration, run_bind, run_declare]
  cases ({ ((e.check r false).run st).2 with report } : CheckState).table.lookupLocal _ x <;>
    exact ⟨_, _, rfl⟩

lemma Stmt.check_assign (target value : Expr) :
    ∃ n', (((Stmt.assign n target value).check r result).run st).1 =
      .assign n' ((target.check r false).run ((value.check r false).run st).2).1
        ((value.check r false).run st).1 := by
  simp only [Stmt.check, run_bind]
  split <;> exact ⟨_, rfl⟩

lemma Stmt.check_give (value : Expr) :
    ∃ n', (((Stmt.give n value).check r result).run st).1 = .give n' ((value.check r false).run st).1 := by
  simp only [Stmt.check, run_bind]
  cases result with
  | none => exact ⟨_, rfl⟩
  | some t =>
    dsimp only
    split <;> exact ⟨_, rfl⟩

lemma Stmt.check_leave : ∃ n', (((Stmt.leave n).check r result).run st).1 = .leave n' := by
  cases result with
  | none =>
    simp only [Stmt.check]
    exact ⟨_, rfl⟩
  | some t =>
    simp only [Stmt.check]
    split <;> exact ⟨_, rfl⟩

end Stmts

mutual

/-- What is inside a checked expression was visited on the way through it. -/
theorem Expr.covers_innerNodes (r : Rules) : ∀ (e : Expr) (isStmt : Bool) (role : Role) (st : CheckState),
    Task.Covers r (.expr role e, st) ((e.check r isStmt).run st).1.innerNodes
  | .number .. | .floatNumber .. | .char .. | .string .. | .bool .. | .typeLiteral .. | .ident .. =>
    Expr.covers_of_parts rfl (List.forall_mem_nil _)
  | .operator _ _ es _ | .arrayLiteral _ es =>
    Expr.covers_of_parts rfl (Expr.covers_mem r es)
  | .arrayAlloc n t l => by
    refine Expr.covers_of_parts rfl ?_
    simpa [Expr.parts] using Expr.covers_innerNodes r l false .operand
  | .index _ a i => by
    have ha := Expr.covers_innerNodes r a false .operand
    have hi := Expr.covers_innerNodes r i false .operand
    refine Expr.covers_of_parts rfl ?_
    simpa [Expr.parts] using ⟨ha, hi⟩
  | .call _ f es => by
    refine Expr.covers_of_parts rfl ?_
    rw [Expr.parts, List.forall_mem_cons]
    exact ⟨Expr.covers_innerNodes r f false .operand, Expr.covers_mem r es⟩
  | .lambda n h b => by
    intro isStmt role st
    have hbody := Stmt.covers_nodesAll r b (some h.result) false (atSubroutine h n.place st)
    simp only [Expr.check]
    exact .of_begins .lambda hbody

theorem Expr.covers_mem (r : Rules) : ∀ (es : List Expr), ∀ e ∈ es, ∀ st : CheckState,
    Task.Covers r (.expr .operand e, st) ((e.check r false).run st).1.innerNodes
  | [] => List.forall_mem_nil _
  | e :: es => List.forall_mem_cons.mpr ⟨Expr.covers_innerNodes r e false .operand, Expr.covers_mem r es⟩

theorem PrintItem.covers_nodes (r : Rules) : ∀ (is before : List PrintItem) (result : Option Ty) (n : Note)
    (st : CheckState), Task.Covers r (.stmt result (.print n (before ++ is)), st)
      (PrintItem.nodes ((PrintItem.checkAll r is).run ((PrintItem.checkAll r before).run st).2).1)
  | [], before, result, n, st => .nil
  | .separator p k :: is, before, result, n, st => by
    have his := PrintItem.covers_nodes r is (before ++ [.separator p k]) result n st
    rw [List.append_assoc, PrintItem.run_checkAll_append] at his
    exact his
  | .value e :: is, before, result, n, st => by
    have he := Expr.covers_innerNodes r e false .operand ((PrintItem.checkAll r before).run st).2
    have his := PrintItem.covers_nodes r is (before ++ [.value e]) result n st
    rw [List.append_assoc, PrintItem.run_checkAll_append] at his
    exact .append (.of_begins .print (.visit (Expr.isNoted_refl _) he)) his

/-- The expressions of a checked statement were visited on the way through it. -/
theorem Stmt.covers_nodes (r : Rules) : ∀ (s : Stmt) (result : Option Ty) (st : CheckState),
    Task.Covers r (.stmt result s, st) ((s.check r result).run st).1.nodes
  | .varDecl n x isConst e b, result, st => by
    obtain ⟨n', b', hs⟩ := Stmt.check_varDecl r result n st x isConst e b
    rw [hs]
    exact .of_begins .varDecl (.visit (Expr.isNoted_refl _) (Expr.covers_innerNodes r e false .operand st))
  | .assign n t v, result, st => by
    have ht := Expr.covers_innerNodes r t false .operand ((v.check r false).run st).2
    have hv := Expr.covers_innerNodes r v false .operand st
    obtain ⟨n', hs⟩ := Stmt.check_assign r result n st t v
    rw [hs]
    exact .append (.of_begins .target (.visit (Expr.isNoted_refl _) ht))
      (.of_begins .value (.visit (Expr.isNoted_refl _) hv))
  | .print n is, result, st => PrintItem.covers_nodes r is [] result n st
  | .call n c, result, st => by
    simp only [Stmt.check]
    exact .of_begins .call (.visit (Expr.isNoted_refl _) (Expr.covers_innerNodes r c true .statement st))
  | .give n v, result, st => by
    obtain ⟨n', hs⟩ := Stmt.check_give r result n st v
    rw [hs]
    exact .of_begins .give (.visit (Expr.isNoted_refl _) (Expr.covers_innerNodes r v false .operand st))
  | .leave n, result, st => by
    obtain ⟨n', hs⟩ := Stmt.check_leave r result n st
    rw [hs]
    exact .nil
  | .ifThen n c b, result, st | .while n c b, result, st => by
    have hc := Expr.covers_condition (Expr.covers_innerNodes r c false .condition st)
    have hb := Stmt.covers_nodesAll r b result false (atBlock ((Role.condition.check r c).run st).2)
    simp only [Stmt.check]
    exact .append (.of_begins (.condition rfl) hc) (.of_begins (.branch rfl) hb)
  | .ifElse n c b a, result, st => by
    have hc := Expr.covers_condition (Expr.covers_innerNodes r c false .condition st)
    have hb := Stmt.covers_nodesAll r b result false (atBlock ((Role.condition.check r c).run st).2)
    have ha := Stmt.covers_nodes r a result ((inBlock (Stmt.checkAll r result false b)).run
      ((Role.condition.check r c).run st).2).2
    simp only [Stmt.check]
    exact .append (.append (.of_begins (.condition rfl) hc) (.of_begins (.branch rfl) hb))
      (.of_begins .alternative ha)
  | .block n b, result, st => by
    have hb := Stmt.covers_nodesAll r b result false (atBlock st)
    simp only [Stmt.check]
    exact .of_begins .block hb

theorem Stmt.covers_nodesAll (r : Rules) : ∀ (ss : List Stmt) (result : Option Ty) (returned : Bool)
    (st : CheckState), Task.Covers r (.stmts result returned ss, st)
      (Stmt.nodesAll ((Stmt.checkAll r result returned ss).run st).1)
  | [], result, returned, st => .nil
  | s :: ss, result, returned, st => by
    have hs := Stmt.covers_nodes r s result
    have hrest := Stmt.covers_nodesAll r ss result s.isReturn
      ((Stmt.checkAll r result returned [s]).run st).2
    simp only [Stmt.checkAll] at hrest ⊢
    cases returned with
    | true => exact .append (.of_begins .first (hs _)) (.of_begins .rest hrest)
    | false => exact .append (.of_begins .first (hs _)) (.of_begins .rest hrest)

end

namespace Program

variable {r : Rules} {report : Report} {p : Program}

/-- Every expression of a checked program is what a visit came to, up to the conversions noted on it. -/
lemma exists_visit {e : Expr} (he : e ∈ (p.check r report).1.nodes) :
    ∃ v, p.Visits r report v ∧ Expr.IsNoted (v.run r).1 e := by
  obtain ⟨x, hbegins, hcovers⟩ : ∃ x, p.Begins r report x ∧
      ∃ v : Visit, ReflTransGen (Task.Begins r) x (.expr v.role v.expr, v.state) ∧
        Expr.IsNoted (v.run r).1 e := by
    rcases List.mem_append.mp he with he | he
    · obtain ⟨f', hf', he⟩ := List.mem_flatMap.mp he
      obtain ⟨before, f, after, hsplit, rfl⟩ := mem_run_mapM_iff.mp hf'
      exact ⟨_, .func hsplit, Stmt.covers_nodesAll r f.body _ _ _ e he⟩
    · exact ⟨_, .main, Stmt.covers_nodesAll r p.main _ _ _ e he⟩
  obtain ⟨v, hsteps, hrun⟩ := hcovers
  exact ⟨v, ⟨x, hbegins, hsteps⟩, hrun⟩

end Program

end SubrLang
