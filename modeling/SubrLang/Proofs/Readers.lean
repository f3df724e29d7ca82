import SubrLang.Proofs.Elaboration
import SubrLang.Proofs.ReaderRuns

/-!
# What readers do

Each reader of the parser is looked at here once, by induction on the depth of recursion. Its results are parts
of trees of sources: the types that are written in them are types of values, types stand as operands only where
a conversion names its target, array literals have elements, and only names and indexed arrays are assigned
to. The tokens that it takes pay for the storage that its result asks for, are a word of its rule if nothing is
reported, and bound the depth that it needs.

**Progress.** A statement that fails before its first token is passed over from there, which takes a token
unless a brace comes first. A brace that opens a block has been taken by the statement itself
(`TreesTaken.stmtAt`), and one that closes a block ends the loop over its statements.
-/

namespace SubrLang

open Computability

mutual

/-- The number of declarations in a statement, without those inside lambdas. -/
def Stmt.decls : Stmt → Nat
  | .varDecl .. => 1
  | .ifThen _ _ b | .while _ _ b | .block _ b => Stmt.declsAll b
  | .ifElse _ _ b a => Stmt.declsAll b + a.decls
  | .assign .. | .print .. | .call .. | .give .. | .leave _ => 0

def Stmt.declsAll : List Stmt → Nat
  | [] => 0
  | s :: ss => s.decls + Stmt.declsAll ss

end

/-- The bytes that global variables take if no two of them share storage. -/
def Program.storage (p : Program) : Nat := 8 * Stmt.declsAll p.main + 4 * p.funcs.length

/-- Whether a subroutine is one that a source can have. -/
def Func.isSource (f : Func) : Bool := f.head.isSource && Stmt.areSource f.body

namespace Parse

variable {α β : Type} {s₀ s : ParseState} {i j k m n r r' w : Nat} {L M : Language Token}

/-! ## Types -/

/-- What the readers of types take. -/
structure TypesTaken (n : Nat) : Prop where
  type : Takes n 1 1 (fun _ => 1) (fun _ => Nonterminal.type.words) (·.isValue) type
  types : Takes n 2 1 (fun _ => 1) (fun _ => (Phrase.list Nonterminal.type).words) (fun ts => ∀ t ∈ ts, t.isValue)
    types
  returnType : Takes n 2 1 (fun _ => 1) (fun _ => Nonterminal.retType.words) (·.isResult) returnType

lemma typesTaken (n : Nat) : TypesTaken n := by
  induction n with
  | zero => exact ⟨takes_zero rfl, takes_zero rfl, takes_zero rfl⟩
  | succ n ih =>
    constructor
    · intro s₀ k w L m r hm
      unfold Parse.type
      refine runs_current fun t => ?_
      split
      iterate 5
        next ht => exact runs_take ht (by decide) (runs_rule rfl (by omega) (by simp [Nonterminal.rule]))
      · next ht =>
        refine runs_take ht (by decide) (ih.type.bind (by omega) fun elem helem => ?_)
        refine runs_expect (by decide) _ (by omega) fun _ => ?_
        exact runs_rule helem (by omega) (by simp [Nonterminal.rule, mul_assoc])
      · next ht =>
        refine runs_take ht (by decide) (ih.types.option (by simp) (by omega) fun params hparams => ?_)
        refine runs_expect (by decide) _ (by omega) fun _ => ?_
        refine ih.returnType.bind (by omega) fun result hresult => ?_
        refine runs_expect (by decide) _ (by omega) fun _ => ?_
        refine runs_rule (Ty.isValue_func.mpr ⟨?_, hresult⟩) (by omega) (by simp [Nonterminal.rule, mul_assoc])
        exact fun p hp => Ty.isResult_of_isValue (hparams p hp)
      · exact runs_fail _ _ (fun _ h => h.1) le_rfl
    · intro s₀ k w L m r hm
      unfold Parse.types
      refine ih.type.bind (by omega) fun t ht => runs_accept (by decide) ?_ ?_
      · refine ih.types.bind (by omega) fun ts hts => ?_
        refine runs_done (List.forall_mem_cons.mpr ⟨ht, hts⟩) (by omega) ?_
        simp only [mul_assoc]
        exact mul_le_mul_right (Phrase.cons_le_words_list _) L
      · exact runs_done (by simpa using ht) (by omega) (mul_le_mul_right (Phrase.le_words_list _) L)
    · intro s₀ k w L m r hm
      unfold Parse.returnType
      refine runs_accept (by decide) ?_ ?_
      · exact runs_rule rfl (by omega) (by simp [Nonterminal.rule])
      · refine (ih.type.runs (by omega)).imp (fun _ => id) fun t s hs => ?_
        refine ⟨Ty.isResult_of_isValue hs.1, hs.2.mono ⟨le_rfl, le_rfl⟩ ?_⟩
        exact Nonterminal.mul_le_words (by simp [Nonterminal.rule])

lemma takes_paramList (n : Nat) : Takes n 3 1 (fun _ => 1) (fun _ => (Phrase.list Nonterminal.param).words)
    (fun ps => ∀ p ∈ ps, p.declared.isResult) paramList := by
  induction n with
  | zero => exact takes_zero rfl
  | succ n ih =>
    intro s₀ k w L m r hm
    unfold Parse.paramList
    have hparam : Nonterminal.param.words = Nonterminal.retType.words * tok .ident := by
      simp [Nonterminal.words_eq .param, Nonterminal.rule]
    refine runs_current fun t => Runs.left ?_
    refine (typesTaken n).returnType.bind (by omega) fun declared hd => ?_
    refine runs_expect (by decide) _ (by omega) fun name => runs_accept (by decide) ?_ ?_
    · refine ih.bind (by omega) fun ps hps => runs_done (List.forall_mem_cons.mpr ⟨hd, hps⟩) (by omega) ?_
      rw [mul_assoc L, ← hparam, mul_assoc, mul_assoc]
      exact mul_le_mul_right (Phrase.cons_le_words_list _) L
    · refine runs_done (by simpa using hd) (by omega) ?_
      rw [mul_assoc L, ← hparam]
      exact mul_le_mul_right (Phrase.le_words_list _) L

lemma takes_params (n : Nat) : Takes n 3 1 (fun _ => 1)
    (fun _ => tok .lparen * (Phrase.opt (.list Nonterminal.param)).words * tok .rparen)
    (fun ps => ∀ p ∈ ps, p.declared.isResult) params := by
  intro s₀ k w L m r hm
  unfold Parse.params
  refine runs_expect (by decide) _ le_rfl fun _ => ?_
  refine (takes_paramList n).option (by simp) (by omega) fun ps hps => ?_
  refine runs_expect (by decide) _ (by omega) fun _ => runs_done hps (by omega) ?_
  simp only [mul_assoc, le_rfl]

/-! ## Expressions and statements -/

/-- Words of a language from which an expression was read: an expression that can be assigned to was read
from a target, and an invocation from an invocation. -/
def shaped (N : Language Token) (e : Expr) : Language Token :=
  {w | w ∈ N ∧ (isTarget e → w ∈ Nonterminal.target.words) ∧
    (isInvocation e → w ∈ Nonterminal.invocation.words)}

variable {N : Language Token} {e : Expr}

lemma shaped_le : shaped N e ≤ N := fun _ h => h.1

lemma shaped_le_target (h : isTarget e = true) : shaped N e ≤ Nonterminal.target.words :=
  fun _ hw => hw.2.1 h

lemma shaped_le_invocation (h : isInvocation e = true) : shaped N e ≤ Nonterminal.invocation.words :=
  fun _ hw => hw.2.2 h

lemma le_shaped (hN : M ≤ N) (ht : isTarget e = true → M ≤ Nonterminal.target.words)
    (hi : isInvocation e = true → M ≤ Nonterminal.invocation.words) : M ≤ shaped N e :=
  fun _ hw => ⟨hN hw, fun h => ht h hw, fun h => hi h hw⟩

lemma shaped_mono (h : M ≤ N) : shaped M e ≤ shaped N e :=
  fun _ hw => ⟨h hw.1, hw.2⟩

/-- An expression that can neither be assigned to nor called. -/
lemma le_shaped_plain (hN : M ≤ N) (ht : isTarget e = false) (hi : isInvocation e = false) :
    M ≤ shaped N e :=
  le_shaped hN (by simp [ht]) (by simp [hi])

/-- The end of a reader that has taken an alternative of its rule for such an expression. -/
lemma runs_plain {E : ParseState → Prop} {deep : Prop} {k' w' v : Nat} {x : Nonterminal} (he : e.isSource)
    (hkw : k + j ≤ k' ∧ w + v ≤ w') (hM : ∃ p ∈ x.rule.alts, M = L * p.words) (ht : isTarget e = false)
    (hi : isInvocation e = false) :
    Runs (Took s₀ k' w' M) (pure e) (pure e)
      (fun e s => e.isSource ∧ Took s₀ (k + j) (w + v) (L * shaped x.words e) s) E deep :=
  runs_done (x := fun _ => v) (T := (·.isSource)) he hkw
    ((Nonterminal.mul_le_words hM).trans (mul_le_mul_right (le_shaped_plain le_rfl ht hi) L))

/-- An expression in parentheses. -/
lemma paren_shaped_le (e : Expr) : tok .lparen * (shaped Nonterminal.expr.words e * tok .rparen) ≤
    shaped Nonterminal.primary.words e := by
  refine le_shaped ?_ (fun ht => ?_) fun hi => ?_
  · refine (mul_le_mul_right (mul_le_mul_left shaped_le _) _).trans (Nonterminal.le_words ?_)
    simp [Nonterminal.rule, mul_assoc]
  · refine (mul_le_mul_right (mul_le_mul_left (shaped_le_target ht) _) _).trans (Nonterminal.le_words ?_)
    simp [Nonterminal.rule, mul_assoc]
  · refine (mul_le_mul_right (mul_le_mul_left (shaped_le_invocation hi) _) _).trans (Nonterminal.le_words ?_)
    simp [Nonterminal.rule, mul_assoc]

/-- One more argument list. -/
lemma shaped_mul_call_le (f : Expr) (args : List Expr) (note : Note) :
    shaped Nonterminal.suffixed.words f * suffixWords true ≤
      shaped Nonterminal.suffixed.words (.call note f args) := by
  have hwords := mul_le_mul_left (shaped_le (N := Nonterminal.suffixed.words) (e := f)) (suffixWords true)
  refine le_shaped (hwords.trans (suffixed_mul_suffix_le true)) (fun h => by cases h) fun _ => ?_
  refine hwords.trans (Nonterminal.le_words ?_)
  simp [Nonterminal.rule, suffixWords, mul_assoc]

/-- One more index. -/
lemma shaped_mul_index_le (a i : Expr) (note : Note) :
    shaped Nonterminal.suffixed.words a * suffixWords false ≤
      shaped Nonterminal.suffixed.words (.index note a i) := by
  have hwords := mul_le_mul_left (shaped_le (N := Nonterminal.suffixed.words) (e := a)) (suffixWords false)
  refine le_shaped (hwords.trans (suffixed_mul_suffix_le false)) (fun _ => ?_) fun h => by cases h
  refine hwords.trans (Nonterminal.le_words ?_)
  simp [Nonterminal.rule, suffixWords, mul_assoc]

/-- The next operator, if it binds at least as tightly as `least`, can have a left operand of a level. -/
def Ready (least level : Nat) (k : TokenKind) : Prop :=
  ∀ l, level? k = some l → least ≤ l → l ≤ level ∧ (l = comparisonLevel → level ≠ comparisonLevel)

/-- The next token is no operator that binds at least as tightly as `least`. -/
def Stops (least : Nat) (k : TokenKind) : Prop := ∀ l, level? k = some l → l < least

lemma level?_bounds {k : TokenKind} {l : Nat} (h : level? k = some l) : 1 ≤ l ∧ l ≤ 5 := by
  cases k <;> simp_all [level?] <;> omega

lemma ne_eof_of_level? {k : TokenKind} {l : Nat} (h : level? k = some l) : k ≠ .eof := by
  rintro rfl
  cases h

lemma ne_eof_of_isUnary {k : TokenKind} (h : isUnary k = true) : k ≠ .eof := by
  rintro rfl
  cases h

/-- What is taken from a left operand on. -/
def TakesBinary (n least : Nat) : Prop :=
  1 ≤ least → least ≤ 6 → ∀ s₀ k w L m r, m + 3 ≤ n + r + 10 * k →
    Runs (Took s₀ k w L) (binary n least) (binary (n + 1) least)
      (fun e s => (e.isSource ∧ Took s₀ (k + 1) (w + 1) (L * shaped (binaryWords least) e) s) ∧
        Stops least (next s.tokens).kind) (Took s₀ k 0 0) (Shallow s₀ m r)

/-- What is taken behind a left operand. -/
def TakesOperators (n least level : Nat) (left : Expr) : Prop :=
  1 ≤ least → least ≤ level → level ≤ 6 → left.isSource → ∀ s₀ k w L m r, m + 2 ≤ n + r + 10 * k →
    Runs (fun s => Took s₀ k w (L * shaped (binaryWords level) left) s ∧ Ready least level (next s.tokens).kind)
      (binaryTail n least left) (binaryTail (n + 1) least left)
      (fun e s => (e.isSource ∧ Took s₀ k w (L * shaped (binaryWords least) e) s) ∧
        Stops least (next s.tokens).kind) (Took s₀ k 0 0) (Shallow s₀ m r)

/-- What is taken behind an expression that is called or indexed. -/
def TakesSuffixes (n : Nat) (e : Expr) : Prop := e.isSource → ∀ s₀ k w L m r, m + 1 ≤ n + r + 10 * k →
  Runs (Took s₀ k w (L * shaped Nonterminal.suffixed.words e)) (postfixTail n e) (postfixTail (n + 1) e)
    (fun e s => e.isSource ∧ Took s₀ k w (L * shaped Nonterminal.suffixed.words e) s) (Took s₀ k 0 0)
    (Shallow s₀ m r)

/-- What is taken of a print statement, perhaps behind one of its values. -/
def TakesItems (n : Nat) (afterValue : Bool) : Prop := ∀ s₀ k w L m r, m + 5 ≤ n + r + 10 * k →
  Runs (Took s₀ k w (L * if afterValue then Nonterminal.expr.words else 1)) (printItems n afterValue)
    (printItems (n + 1) afterValue) (fun is s => PrintItem.areSource is ∧ Took s₀ (k + 1) w (L * printWords) s)
    (Took s₀ k 0 0) (Shallow s₀ m r)

/-- What a reader takes where its first token `c` comes next. If it fails behind that, it has taken it. -/
def TakesAt (c : TokenKind) (n r : Nat) (v : α → Nat) (N : Language Token) (Q : α → Prop) (p : Nat → Parse α) :
    Prop :=
  ∀ s₀ k w L m r', m + r ≤ n + r' + 10 * k →
    Runs (fun s => Took s₀ k w L s ∧ (next s.tokens).kind = c) (p n) (p (n + 1))
      (fun a s => Q a ∧ Took s₀ (k + 1) (w + v a) (L * N) s) (Took s₀ (k + 1) 0 0) (Shallow s₀ m r')

/-- What the readers of expressions and statements take. -/
structure TreesTaken (n : Nat) : Prop where
  expr : Takes n 4 1 (fun _ => 1) (shaped Nonterminal.expr.words) (·.isSource) expr
  binary (least : Nat) : TakesBinary n least
  binaryTail (least level : Nat) (left : Expr) : TakesOperators n least level left
  unary : Takes n 2 1 (fun _ => 1) (shaped Nonterminal.unary.words) (·.isSource) unary
  postfixTail (e : Expr) : TakesSuffixes n e
  exprs : Takes n 5 1 (fun _ => 1) (fun _ => (Phrase.list Nonterminal.expr).words)
    (fun es => es ≠ [] ∧ Expr.areSource false es) exprs
  primary : Takes n 1 1 (fun _ => 1) (shaped Nonterminal.primary.words) (·.isSource) primary
  block : Takes n 1 1 (8 * Stmt.declsAll ·) (fun _ => Nonterminal.block.words) (Stmt.areSource ·) block
  stmts : Takes n 6 0 (8 * Stmt.declsAll ·) (fun _ => Nonterminal.stmt.words∗) (Stmt.areSource ·) stmts
  stmt : Takes n 5 1 (8 * ·.decls) (fun _ => Nonterminal.stmt.words) (·.isSource) stmt
  conditional : Takes n 1 1 (8 * ·.decls) (fun _ => Nonterminal.ifStmt.words)
    (fun s => s.isAlternative ∧ s.isSource) conditional
  printItems (afterValue : Bool) : TakesItems n afterValue
  blockAt : TakesAt .lbrace n 1 (8 * Stmt.declsAll ·) Nonterminal.block.words (Stmt.areSource ·) Parse.block
  stmtAt : TakesAt .lbrace n 5 (8 * ·.decls) Nonterminal.stmt.words (·.isSource) Parse.stmt

section Readers

variable (ih : TreesTaken n)
include ih

lemma takes_exprWords : Takes n 4 1 (fun _ => 1) (fun _ => Nonterminal.expr.words) (·.isSource) expr :=
  ih.expr.imp (fun _ => shaped_le) fun _ => id

lemma takes_expr : Takes (n + 1) 4 1 (fun _ => 1) (shaped Nonterminal.expr.words) (·.isSource) expr := by
  intro s₀ k w L m r hm
  have hwords : binaryWords 1 = Nonterminal.expr.words := by
    simp [binaryWords, Nonterminal.words_eq .expr, Nonterminal.rule]
  have hbinary := ih.binary 1 le_rfl (by decide) s₀ k w L m r (by omega)
  rw [hwords] at hbinary
  exact hbinary.imp (fun _ => id) fun _ _ h => h.1

lemma takes_binary (least : Nat) : TakesBinary (n + 1) least := by
  intro hpos hsix s₀ k w L m r hm
  unfold Parse.binary
  refine ih.unary.bind (by omega) fun left hleft => ?_
  refine ((ih.binaryTail least 6 left hpos hsix le_rfl hleft _ _ _ L _ _ (by omega)).fails (by omega)).imp ?_
    fun _ _ => id
  -- an operand can be the left one of every operator
  intro s hs
  refine ⟨hs, fun l hl _ => ⟨?_, fun _ => by decide⟩⟩
  have := (level?_bounds hl).2
  omega

lemma takes_binaryTail (least level : Nat) (left : Expr) : TakesOperators (n + 1) least level left := by
  intro hpos hle hsix hleft s₀ k w L m r hm
  unfold Parse.binaryTail
  have hkeep : shaped (binaryWords level) left ≤ shaped (binaryWords least) left :=
    shaped_mono (binaryWords_anti hpos hle hsix)
  refine runs_current fun t => ?_
  cases hl : level? t.kind with
  | none =>
    refine runs_pure fun s h => ⟨⟨hleft, h.1.1.mono ⟨le_rfl, le_rfl⟩ (mul_le_mul_right hkeep L)⟩, fun l hl' => ?_⟩
    rw [h.2, hl] at hl'
    cases hl'
  | some l =>
    refine runs_ite (fun hlt => ?_) fun hge => ?_
    · refine runs_pure fun s h =>
        ⟨⟨hleft, h.1.1.mono ⟨le_rfl, le_rfl⟩ (mul_le_mul_right hkeep L)⟩, fun l' hl' => ?_⟩
      rw [h.2, hl] at hl'
      cases hl'
      exact hlt
    · obtain ⟨hone, hfive⟩ := level?_bounds hl
      -- whether the left operand is one of this operator is known from the state
      refine runs_of_fact (φ := l ≤ level ∧ (l = comparisonLevel → level ≠ comparisonLevel))
        (fun s h => h.1.2 l (by rw [h.2, hl]) (by omega)) ?_
      rintro ⟨hlevel, hcmp⟩
      have hcast : (t.kind == .cast) = false := by
        cases hk : t.kind <;> simp_all [level?]
      refine Runs.imp (runs_take rfl (ne_eof_of_level? hl) (runs_bind
        ((ih.binary (l + 1) (by omega) (by omega) _ _ _ _ _ _ (by omega)).fails (by omega)) fun right => ?_))
        (fun s h => ⟨h.1.1, h.2⟩) fun _ _ => id
      refine runs_current fun t' => runs_ite (fun _ => ?_) fun hchain => ?_
      · exact runs_fail _ _ (fun _ h => h.1.1.2) (by omega)
      refine runs_of_fact (fun s h => h.1.1.1) fun hright => ?_
      refine ((ih.binaryTail least l _ hpos (by omega) (by omega) ?_ s₀ (k + 1 + 1) (w + 1 + 1) L m r (by omega)).fails
        (by omega)).imp ?_ fun _ s h => ⟨⟨h.1.1, h.1.2.mono (by omega) le_rfl⟩, h.2⟩
      · simp [Expr.isSource, Expr.areSource, hcast, hleft, hright]
      rintro s ⟨⟨⟨-, htook⟩, hstops⟩, hkind⟩
      refine ⟨htook.mono ⟨le_rfl, le_rfl⟩ ?_, fun l' hl' _ => ?_⟩
      · rw [mul_assoc L, mul_assoc L, mul_assoc]
        refine mul_le_mul_right (le_shaped_plain ?_ rfl rfl) L
        exact (mul_le_mul' shaped_le (mul_le_mul' (tok_le_opTok hl) shaped_le)).trans
          (binaryWords_mul_op_le hone hlevel hfive hsix hcmp)
      · have hlt := hstops l' hl'
        refine ⟨by omega, fun hl'cmp hlcmp => hchain ⟨hlcmp, ?_⟩⟩
        rw [← hkind, hl', hl'cmp]

lemma takes_unary : Takes (n + 1) 2 1 (fun _ => 1) (shaped Nonterminal.unary.words) (·.isSource) unary := by
  intro s₀ k w L m r hm
  unfold Parse.unary
  refine runs_current fun t => runs_ite (fun ht => ?_) fun _ => Runs.left ?_
  · have hcast : (t.kind == .cast) = false := by
      cases hk : t.kind <;> simp_all [isUnary]
    refine runs_take rfl (ne_eof_of_isUnary ht) (ih.unary.bind (by omega) fun operand he => ?_)
    refine runs_done (by simp [Expr.isSource, Expr.areSource, hcast, he]) (by omega) ?_
    rw [mul_assoc]
    refine mul_le_mul_right (le_shaped_plain ?_ rfl rfl) L
    exact (mul_le_mul_right shaped_le _).trans (tok_mul_unary_le ht)
  · refine ih.primary.bind (by omega) fun e he => ?_
    refine ((ih.postfixTail e he s₀ (k + 1) (w + 1) L m r (by omega)).fails (by omega)).imp (fun s h => ?_) fun e' s h => ?_
    · exact h.mono ⟨le_rfl, le_rfl⟩ (mul_le_mul_right (shaped_mono primary_le_suffixed) L)
    · refine ⟨h.1, h.2.mono ⟨le_rfl, le_rfl⟩ (mul_le_mul_right (shaped_mono ?_) L)⟩
      exact Nonterminal.le_words (by simp [Nonterminal.rule])

lemma takes_postfixTail (e : Expr) : TakesSuffixes (n + 1) e := by
  intro he s₀ k w L m r hm
  unfold Parse.postfixTail
  refine runs_current fun t => ?_
  split
  · next ht =>
    have hexprs : Takes n 5 1 (fun _ => 1) (fun _ => (Phrase.list Nonterminal.expr).words)
        (fun es => Expr.areSource false es) exprs := ih.exprs.imp (fun _ => le_rfl) fun _ h => h.2
    refine runs_take ht (by decide) (hexprs.option rfl (by omega) fun args hargs => ?_)
    refine runs_expect (by decide) _ (by omega) fun _ => ?_
    refine ((ih.postfixTail _ ?_ _ _ _ L _ _ (by omega)).fails (by omega)).imp
      (fun s h => h.mono ⟨le_rfl, le_rfl⟩ ?_) fun _ s h => ⟨h.1, h.2.mono (by omega) le_rfl⟩
    · simp [Expr.isSource, he, hargs]
    · simpa [suffixWords, mul_assoc] using mul_le_mul_right (shaped_mul_call_le e args _) L
  · next ht =>
    refine runs_take ht (by decide) ((takes_exprWords ih).bind (by omega) fun index hi => ?_)
    refine runs_expect (by decide) _ (by omega) fun _ => ?_
    refine ((ih.postfixTail _ ?_ _ _ _ L _ _ (by omega)).fails (by omega)).imp
      (fun s h => h.mono ⟨le_rfl, le_rfl⟩ ?_) fun _ s h => ⟨h.1, h.2.mono (by omega) le_rfl⟩
    · simp [Expr.isSource, he, hi]
    · simpa [suffixWords, mul_assoc] using mul_le_mul_right (shaped_mul_index_le e index _) L
  · exact runs_pure fun s h => ⟨he, h.1⟩

lemma takes_exprs : Takes (n + 1) 5 1 (fun _ => 1) (fun _ => (Phrase.list Nonterminal.expr).words)
    (fun es => es ≠ [] ∧ Expr.areSource false es) exprs := by
  intro s₀ k w L m r hm
  unfold Parse.exprs
  refine (takes_exprWords ih).bind (by omega) fun e he => runs_accept (by decide) ?_ ?_
  · refine ih.exprs.bind (by omega) fun es hes => runs_done ⟨by simp, ?_⟩ (by omega) ?_
    · simp [Expr.areSource, he, hes.2]
    · simp only [mul_assoc]
      exact mul_le_mul_right (Phrase.cons_le_words_list _) L
  · refine runs_done ⟨by simp, ?_⟩ (by omega) (mul_le_mul_right (Phrase.le_words_list _) L)
    simp [Expr.areSource, he]

lemma takes_primary : Takes (n + 1) 1 1 (fun _ => 1) (shaped Nonterminal.primary.words) (·.isSource) primary := by
  intro s₀ k w L m r hm
  unfold Parse.primary
  refine runs_current fun t => ?_
  dsimp only
  split
  -- literals
  iterate 6
    next ht =>
      refine runs_take ht (by decide) (runs_plain rfl (by omega) ?_ rfl rfl)
      simp [Nonterminal.rule]
  · next ht =>
    refine runs_take ht (by decide) (runs_done rfl (by omega) (mul_le_mul_right (le_shaped ?_ (fun _ => ?_) ?_) L))
    · exact Nonterminal.le_words (by simp [Nonterminal.rule])
    · exact Nonterminal.le_words (by simp [Nonterminal.rule])
    · exact fun h => by cases h
  · next ht =>
    refine runs_take ht (by decide) (ih.expr.bind (by omega) fun e he => ?_)
    refine runs_expect (by decide) _ (by omega) fun _ => runs_done he (by omega) ?_
    rw [mul_assoc, mul_assoc]
    exact mul_le_mul_right (paren_shaped_le e) L
  · next ht =>
    refine runs_take ht (by decide) ((typesTaken n).type.bind (by omega) fun target hty => ?_)
    refine runs_expect (by decide) _ (by omega) fun _ => runs_expect (by decide) _ (by omega) fun _ => ?_
    refine (takes_exprWords ih).bind (by omega) fun e he => runs_expect (by decide) _ (by omega) fun _ => ?_
    refine runs_plain ?_ (by omega) (by simp [Nonterminal.rule, mul_assoc]) rfl rfl
    simp [Expr.isSource, Expr.areSource, Expr.ofType, Expr.isConversionTarget, hty, he]
  · next ht =>
    refine runs_take ht (by decide) (ih.exprs.bind (by omega) fun es hes => ?_)
    refine runs_expect (by decide) _ (by omega) fun _ => ?_
    refine runs_plain ?_ (by omega) (by simp [Nonterminal.rule, mul_assoc]) rfl rfl
    simp [Expr.isSource, hes.1, hes.2]
  · next ht =>
    refine runs_take ht (by decide) (runs_expect (by decide) _ (by omega) fun _ => ?_)
    refine (typesTaken n).type.bind (by omega) fun elem hty => runs_expect (by decide) _ (by omega) fun _ => ?_
    refine runs_expect (by decide) _ (by omega) fun _ => (takes_exprWords ih).bind (by omega) fun l hl => ?_
    refine runs_expect (by decide) _ (by omega) fun _ => ?_
    exact runs_plain (by simp [Expr.isSource, hty, hl]) (by omega) (by simp [Nonterminal.rule, mul_assoc]) rfl rfl
  · next ht =>
    refine runs_take ht (by decide) (runs_get fun st => runs_when (J := Took s₀ (k + 1) (w + 1) (L * tok .kwSubr))
      (fun _ => runs_report _ _ fun s h => h.report _ _) (fun _ _ => id) ?_)
    refine (typesTaken n).returnType.bind (by omega) fun result hresult => ?_
    refine (takes_params n).bind (by omega) fun ps hps => ih.block.bind (by omega) fun b hb => ?_
    refine runs_plain ?_ (by omega) (by simp [Nonterminal.rule, mul_assoc]) rfl rfl
    simpa [Expr.isSource, FuncHead.isSource, hresult, hb] using hps
  · exact runs_fail _ _ (fun _ h => h.1) le_rfl

/-- What follows the brace that a block starts with. -/
lemma runs_blockTail (hi : i ≤ k + 1) (hm : m + 1 ≤ n + 1 + r + 10 * k) :
    Runs (Took s₀ (k + 1) (w + 1) (L * tok .lbrace)) (do
      let body ← stmts n
      let _ ← expect .rbrace "'\x7d' after block"
      pure body) (do
      let body ← stmts (n + 1)
      let _ ← expect .rbrace "'\x7d' after block"
      pure body)
      (fun b s => Stmt.areSource b ∧ Took s₀ (k + 1) (w + 8 * Stmt.declsAll b) (L * Nonterminal.block.words) s)
      (Took s₀ i 0 0) (Shallow s₀ m r) := by
  refine ih.stmts.bind (by omega) fun b hb => runs_expect (by decide) _ (by omega) fun _ => ?_
  exact runs_rule hb (by omega) (by simp [Nonterminal.rule, mul_assoc])

/-- Trying to read a statement takes a token, unless the block ends here. -/
lemma outcome_guardedStmt {E : ParseState → Prop} (hstop : (next s.tokens).kind ≠ .rbrace)
    (heof : (next s.tokens).kind ≠ .eof) (hm : m + 5 ≤ n + r) :
    Outcome (guarded (stmt n)) (guarded (stmt (n + 1))) s (fun o s' => Stmt.areSource o.toList ∧
      Took s 1 (8 * Stmt.declsAll o.toList) Nonterminal.stmt.words s') E (Shallow s m r) := by
  have hread : ∀ a s', Stmt.isSource a ∧ Took s (0 + 1) (0 + 8 * a.decls) (1 * Nonterminal.stmt.words) s' →
      Stmt.areSource (some a).toList ∧
        Took s 1 (8 * Stmt.declsAll (some a).toList) Nonterminal.stmt.words s' := by
    simp [Stmt.areSource, Stmt.declsAll]
  by_cases hbrace : (next s.tokens).kind = .lbrace
  · refine runs_guarded ((ih.stmtAt s 0 0 1 m r (by omega)).imp (fun _ => id) hread) (fun s' h => ?_) s
      ⟨took_refl s, hbrace⟩
    exact ⟨rfl, h.skip (skipStatement_suffix _)⟩
  · refine runs_guarded ((ih.stmt s 0 0 1 m r (by omega)).imp (fun _ => id) hread) (fun s' h => ?_) s
      (took_refl s)
    exact ⟨rfl, h.skipStatement (by tauto)⟩

lemma takes_stmts : Takes (n + 1) 6 0 (8 * Stmt.declsAll ·) (fun _ => Nonterminal.stmt.words∗) (Stmt.areSource ·)
    stmts := by
  intro s₀ k w L m r hm
  unfold Parse.stmts
  refine runs_peek fun c => runs_ite (fun _ => ?_) fun hstop => ?_
  · exact runs_pure fun s h => ⟨rfl, h.1.mono ⟨le_rfl, le_rfl⟩ (le_mul_of_one_le_right' one_le_kstar)⟩
  refine runs_bind (Q := fun o s => Stmt.areSource o.toList ∧
    Took s₀ (k + 1) (w + 8 * Stmt.declsAll o.toList) (L * Nonterminal.stmt.words) s) ?_ fun o => ?_
  · rintro s ⟨hs, rfl⟩
    rw [not_or] at hstop
    exact (outcome_guardedStmt ih hstop.1 hstop.2 (by omega)).lift hs
  · refine runs_of_fact (fun _ h => h.1) fun ho => Runs.imp (ih.stmts.bind (by omega) fun ss hss => ?_)
      (fun _ h => h.2) fun _ _ => id
    have happend : Stmt.areSource (o.toList ++ ss) ∧
        Stmt.declsAll (o.toList ++ ss) = Stmt.declsAll o.toList + Stmt.declsAll ss := by
      cases o <;> simp_all [Stmt.areSource, Stmt.declsAll]
    refine runs_done happend.1 (by rw [happend.2]; omega) ?_
    rw [mul_assoc]
    exact mul_le_mul_right mul_kstar_le_kstar L

lemma takes_stmt : Takes (n + 1) 5 1 (8 * ·.decls) (fun _ => Nonterminal.stmt.words) (·.isSource) stmt := by
  intro s₀ k w L m r hm
  unfold Parse.stmt
  have hexpr := takes_exprWords ih
  refine runs_current fun t => ?_
  dsimp only
  split
  iterate 2
    next ht =>
      -- `var` or `const`, the name, `:=`, the expression and the semicolon
      refine runs_takeWeight (v := 3) ht (by decide) (by decide) (runs_expect (by decide) _ (by omega) fun name => ?_)
      refine runs_expectWeight (v := 2) (by decide) _ (by decide) (by omega) fun _ => ?_
      refine hexpr.bind (by omega) fun e he => runs_expect (by decide) _ (by omega) fun _ => ?_
      refine runs_done he (by simp only [Stmt.decls]; omega) ?_
      simp only [mul_assoc]
      exact mul_le_mul_right (declaration_le_stmt (by decide)) L
  · next ht =>
    refine runs_take ht (by decide) (runs_bind (Runs.imp ((ih.printItems false s₀ (k + 1) (w + 1)
      (L * tok .kwPrint) m r (by omega)).fails (by omega)) (fun s h => by simpa using h) fun _ _ => id) fun is => ?_)
    refine runs_pure fun s h => ⟨h.1, h.2.mono (by simp only [Stmt.decls]; omega) (Nonterminal.mul_le_words ?_)⟩
    simp [Nonterminal.rule, printWords, separatorWords, mul_assoc]
  · next ht =>
    refine runs_take ht (by decide) (ih.expr.bind (by omega) fun e he => ?_)
    refine runs_ite (fun _ => runs_fail_bind _ _ (by omega)) fun hcall => ?_
    refine runs_expect (by decide) _ (by omega) fun _ => runs_done he (by simp only [Stmt.decls]; omega) ?_
    refine le_trans ?_ (Nonterminal.mul_le_words
      (M := L * (tok .kwCall * (Nonterminal.invocation.words * tok .semi))) ?_)
    · simp only [mul_assoc]
      gcongr
      exact shaped_le_invocation (by simpa using hcall)
    · simp [Nonterminal.rule, mul_assoc]
  · next ht =>
    have hrule : L * tok .kwReturn * (Phrase.opt Nonterminal.expr).words * tok .semi ≤
        L * Nonterminal.stmt.words :=
      Nonterminal.mul_le_words (by simp [Nonterminal.rule, mul_assoc])
    refine runs_take ht (by decide) (runs_accept (by decide) ?_ ?_)
    · refine runs_done rfl (by simp only [Stmt.decls]; omega) (le_trans ?_ hrule)
      exact mul_le_mul_left (Phrase.le_mul_words_opt_none _ _) _
    · refine hexpr.bind (by omega) fun e he => runs_expect (by decide) _ (by omega) fun _ => ?_
      refine runs_done he (by simp only [Stmt.decls]; omega) (le_trans ?_ hrule)
      exact mul_le_mul_left (Phrase.le_mul_words_opt_some _ _) _
  · refine Runs.left ((ih.conditional.runs (by omega)).imp (fun _ => id) fun a s h => ⟨h.1.2, ?_⟩)
    exact h.2.mono ⟨le_rfl, le_rfl⟩ (Nonterminal.mul_le_words (by simp [Nonterminal.rule]))
  · next ht =>
    refine runs_take ht (by decide) (hexpr.bind (by omega) fun e he => ih.block.bind (by omega) fun b hb => ?_)
    refine runs_rule (by simp [Stmt.isSource, he, hb]) (by simp only [Stmt.decls]; omega) ?_
    simp [Nonterminal.rule, mul_assoc]
  · refine Runs.left (ih.block.bind (by omega) fun b hb => ?_)
    exact runs_rule hb (by simp only [Stmt.decls]; omega) (by simp [Nonterminal.rule])
  · refine Runs.left (ih.expr.bind (by omega) fun e he => ?_)
    refine runs_ite (fun _ => runs_fail_bind _ _ (by omega)) fun htarget => ?_
    refine runs_expect (by decide) _ (by omega) fun _ => hexpr.bind (by omega) fun v hv => ?_
    refine runs_expect (by decide) _ (by omega) fun _ => ?_
    refine runs_done (by simp_all [Stmt.isSource]) (by simp only [Stmt.decls]; omega) ?_
    refine le_trans ?_ (Nonterminal.mul_le_words
      (M := L * (Nonterminal.target.words * (tok .define * (Nonterminal.expr.words * tok .semi)))) ?_)
    · simp only [mul_assoc]
      gcongr
      exact shaped_le_target (by simpa using htarget)
    · simp [Nonterminal.rule, mul_assoc]

lemma takes_stmtAt : TakesAt .lbrace (n + 1) 5 (8 * ·.decls) Nonterminal.stmt.words (·.isSource) stmt := by
  intro s₀ k w L m r hm
  unfold Parse.stmt
  refine runs_current fun t => ?_
  by_cases ht : t.kind = .lbrace
  · simp only [ht]
    refine Runs.left (runs_bind (ih.blockAt s₀ k w L m r (by omega)) fun b => runs_pure fun s h => ⟨h.1, ?_⟩)
    refine h.2.mono (by simp only [Stmt.decls]; omega) (Nonterminal.mul_le_words ?_)
    simp [Nonterminal.rule]
  · exact runs_of_fact (φ := False) (fun s h => ht (h.2.symm.trans h.1.2)) False.elim

lemma takes_conditional : Takes (n + 1) 1 1 (8 * ·.decls) (fun _ => Nonterminal.ifStmt.words)
    (fun s => s.isAlternative ∧ s.isSource) conditional := by
  intro s₀ k w L m r hm
  unfold Parse.conditional
  let alternative : Phrase := TokenKind.kwElse ++ (Nonterminal.block ||| Nonterminal.ifStmt)
  have hrule : L * tok .kwIf * Nonterminal.expr.words * Nonterminal.block.words *
      (Phrase.opt alternative).words ≤ L * Nonterminal.ifStmt.words :=
    Nonterminal.mul_le_words (by simp [alternative, Nonterminal.rule, mul_assoc])
  have helse : ∀ M : Language Token, M ≤ Nonterminal.block.words + Nonterminal.ifStmt.words →
      L * tok .kwIf * Nonterminal.expr.words * Nonterminal.block.words * tok .kwElse * M ≤
        L * Nonterminal.ifStmt.words := by
    intro M hM
    refine le_trans ?_ ((Phrase.le_mul_words_opt_some alternative _).trans hrule)
    have hwords : alternative.words = tok .kwElse * (Nonterminal.block.words + Nonterminal.ifStmt.words) := by
      simp [alternative]
    rw [hwords, mul_assoc]
    exact mul_le_mul_right (mul_le_mul_right hM _) _
  refine runs_expect (by decide) _ le_rfl fun t => (takes_exprWords ih).bind (by omega) fun e he => ?_
  refine ih.block.bind (by omega) fun b hb => runs_accept (by decide) ?_ ?_
  · refine runs_current fun u => Runs.left (runs_ite (fun _ => ?_) fun _ => ?_)
    · refine ih.conditional.bind (by omega) fun a ha => ?_
      refine runs_done ⟨rfl, ?_⟩ (by simp only [Stmt.decls]; omega) (helse _ le_add_self)
      simp [Stmt.isSource, he, hb, ha]
    · refine ih.block.bind (by omega) fun b' hb' => ?_
      refine runs_done ⟨rfl, ?_⟩ (by simp only [Stmt.decls]; omega) (helse _ le_self_add)
      simp [Stmt.isSource, Stmt.isAlternative, he, hb, hb']
  · refine runs_done ⟨rfl, by simp [Stmt.isSource, he, hb]⟩ (by simp only [Stmt.decls]; omega) ?_
    exact (Phrase.le_mul_words_opt_none alternative _).trans hrule

lemma takes_printItems (afterValue : Bool) : TakesItems (n + 1) afterValue := by
  intro s₀ k w L m r hm
  unfold Parse.printItems
  have hvalue : (if afterValue then Nonterminal.expr.words else 1) ≤ 1 + Nonterminal.expr.words := by
    cases afterValue with
    | true => exact le_add_self
    | false => exact le_self_add
  -- behind a separator anything can follow
  have hseparator : ∀ c, tok c ≤ separatorWords → Runs
      (Took s₀ (k + 1) (w + 1) (L * (if afterValue then Nonterminal.expr.words else 1) * tok c)) (printItems n false)
      (printItems (n + 1) false) (fun is s => PrintItem.areSource is ∧ Took s₀ (k + 1) w (L * printWords) s)
      (Took s₀ k 0 0) (Shallow s₀ m r) := by
    intro c hc
    refine ((ih.printItems false s₀ (k + 1) (w + 1) (L * (if afterValue then Nonterminal.expr.words else 1) * tok c)
      m r (by omega)).fails (by omega)).imp (fun s h => by simpa using h) fun _ s h => ⟨h.1, h.2.mono (by omega) ?_⟩
    rw [mul_assoc, mul_assoc]
    exact mul_le_mul_right (separator_mul_printWords_le hvalue hc) L
  refine runs_current fun t => runs_ite (fun ht => ?_) fun _ => runs_ite (fun ht => ?_) fun _ => ?_
  · refine runs_take ht (by decide) (runs_pure fun s h => ⟨rfl, h.mono (by omega) ?_⟩)
    rw [mul_assoc]
    exact mul_le_mul_right (semi_le_printWords hvalue) L
  · exact runs_take ht (by decide) (hseparator _ (tok_le_separatorWords (.inl rfl)))
  · cases hk : separator? t.kind with
    | some x =>
      have hkind : t.kind ≠ .eof := by
        intro heof
        rw [heof] at hk
        cases hk
      refine runs_take rfl hkind (runs_bind (hseparator _ (tok_le_separatorWords ?_)) fun is => ?_)
      · simp [hk]
      · exact runs_pure fun s h => ⟨by simpa [PrintItem.areSource] using h.1, h.2⟩
    | none =>
      refine runs_ite (fun _ => runs_fail _ _ (fun _ h => h.1) le_rfl) fun hafter => Runs.left ?_
      obtain rfl : afterValue = false := by simpa using hafter
      refine (takes_exprWords ih).bind (by omega) fun e he => ?_
      refine runs_bind (Runs.imp ((ih.printItems true s₀ (k + 1) (w + 1) L m r (by omega)).fails (by omega))
        (fun s h => by simpa using h) fun _ _ => id) fun is => runs_pure fun s h => ⟨?_, ?_⟩
      · simp [PrintItem.areSource, he, h.1]
      · exact h.2.mono (by omega) le_rfl

end Readers

lemma treesTaken (n : Nat) : TreesTaken n := by
  induction n with
  | zero =>
    exact {
      expr := takes_zero rfl
      binary := fun _ _ _ _ _ _ _ _ _ hm => runs_zero hm
      binaryTail := fun _ _ _ _ _ _ _ _ _ _ _ _ _ hm => (runs_zero hm).left
      unary := takes_zero rfl
      postfixTail := fun _ _ _ _ _ _ _ _ hm => runs_zero hm
      exprs := takes_zero rfl
      primary := takes_zero rfl
      block := takes_zero rfl
      stmts := takes_zero rfl
      stmt := takes_zero rfl
      conditional := takes_zero rfl
      printItems := fun _ _ _ _ _ _ _ hm => runs_zero hm
      blockAt := fun _ _ _ _ _ _ hm => (runs_zero hm).left
      stmtAt := fun _ _ _ _ _ _ hm => (runs_zero hm).left }
  | succ n ih =>
    exact {
      expr := takes_expr ih
      binary := takes_binary ih
      binaryTail := takes_binaryTail ih
      unary := takes_unary ih
      postfixTail := takes_postfixTail ih
      exprs := takes_exprs ih
      primary := takes_primary ih
      block := fun _ _ _ _ _ _ hm => runs_expect (by decide) _ le_rfl fun _ => runs_blockTail ih (by omega) hm
      stmts := takes_stmts ih
      stmt := takes_stmt ih
      conditional := takes_conditional ih
      printItems := takes_printItems ih
      blockAt := fun _ _ _ _ _ _ hm => runs_expectAt (by decide) _ fun _ => runs_blockTail ih le_rfl hm
      stmtAt := takes_stmtAt ih }

/-! ## Programs -/

/-- The head of a subroutine has four characters at least. -/
lemma takes_func (n : Nat) : TakesAt .kwSubr n 3 (fun _ => 4) Nonterminal.funcDef.words (·.isSource) func := by
  intro s₀ k w L m r hm
  unfold Parse.func
  refine runs_expectAt (by decide) _ fun t => ?_
  refine (typesTaken n).returnType.bind (by omega) fun result hresult => ?_
  refine runs_expect (by decide) _ (by omega) fun name => (takes_params n).bind (by omega) fun ps hps => ?_
  refine (treesTaken n).block.bind (by omega) fun b hb => runs_rule ?_ (by omega) ?_
  · simpa [Func.isSource, FuncHead.isSource, hresult, hb] using hps
  · simp [Nonterminal.rule, mul_assoc]

/-- Trying to read a subroutine takes a token. -/
lemma outcome_guardedFunc {E : ParseState → Prop} (hkind : (next s.tokens).kind = .kwSubr) (hm : m + 3 ≤ n + r) :
    Outcome (guardedFunc n) (guardedFunc (n + 1)) s (fun o s' => (∀ f ∈ o.toList, f.isSource) ∧
      Took s 1 (4 * o.toList.length) Nonterminal.funcDef.words s') E (Shallow s m r) := by
  unfold Parse.guardedFunc
  have htried : Runs (fun s' => Took s 0 0 1 s' ∧ (next s'.tokens).kind = .kwSubr) (guarded (func n))
      (guarded (func (n + 1))) (fun o s' => (∀ f ∈ o.toList, f.isSource) ∧ Took s 1 (4 * o.toList.length)
        (if o.isNone then 0 else Nonterminal.funcDef.words) s') E (Shallow s m r) := by
    refine runs_guarded ((takes_func n s 0 0 1 m r (by omega)).imp (fun _ => id) fun f s' h => ⟨?_, ?_⟩) fun s' h => ?_
    · simpa using h.1
    · simpa using h.2
    · exact ⟨by simp, h.skip (skipStatement_suffix _)⟩
  refine runs_bind htried (fun o => ?_) s ⟨took_refl s, hkind⟩
  refine runs_peek fun c => Runs.left (runs_when (J := fun s' => (∀ f ∈ o.toList, f.isSource) ∧
    Took s 1 (4 * o.toList.length) Nonterminal.funcDef.words s') (fun hnone => runs_modify fun s' h => ?_)
    (fun _ s' h => ⟨h.1, h.2.mono ⟨le_rfl, le_rfl⟩ ?_⟩) (runs_pure fun _ h => h))
  · have htook := h.2
    rw [if_pos hnone.1] at htook
    exact ⟨h.1, htook.skip (skipBlock_suffix _ 0)⟩
  · split
    · exact bot_le
    · exact le_rfl

lemma runs_funcs {E : ParseState → Prop} (bound : Nat) (hm : m + 3 ≤ n + r + 10 * k)
    (hbound : m ≤ bound + r + 10 * k) :
    Runs (Took s₀ k w L) (funcs n bound) (funcs (n + 1) (bound + 1)) (fun fs s => (∀ f ∈ fs, f.isSource) ∧
      Took s₀ k (w + 4 * fs.length) (L * Nonterminal.funcDef.words∗) s) E (Shallow s₀ m r) := by
  induction bound generalizing k w L with
  | zero => exact runs_zero (r := 0) (by omega)
  | succ bound ih =>
    rw [Parse.funcs, Parse.funcs]
    refine runs_peek fun c => runs_ite (fun hc => ?_) fun _ => ?_
    · refine runs_bind (Q := fun o s => (∀ f ∈ o.toList, f.isSource) ∧
        Took s₀ (k + 1) (w + 4 * o.toList.length) (L * Nonterminal.funcDef.words) s) ?_ fun o => ?_
      · rintro s ⟨hs, rfl⟩
        exact (outcome_guardedFunc hc (by omega)).lift hs
      · refine runs_of_fact (fun _ h => h.1) fun ho => runs_bind
          ((ih (by omega) (by omega)).imp (fun _ h => h.2) fun _ _ => id) fun fs => ?_
        refine runs_pure fun s h => ⟨List.forall_mem_append.mpr ⟨ho, h.1⟩, h.2.mono ?_ ?_⟩
        · rw [List.length_append]
          omega
        · rw [mul_assoc]
          exact mul_le_mul_right mul_kstar_le_kstar L
    · exact runs_pure fun s h => ⟨by simp, h.1.mono ⟨le_rfl, le_rfl⟩ (le_mul_of_one_le_right' one_le_kstar)⟩

/-- No error leaves the reader of a program. If none is reported, it goes up to the end of input. -/
lemma runs_program (hm : m + 3 ≤ n + r) :
    Runs (Took s₀ 0 0 1) (program n) (program (n + 1)) (fun p s => p.isSource ∧
      Took s₀ 0 p.storage Nonterminal.program.words s ∧ ((next s.tokens).kind = .eof ∨ Took s₀ 0 0 0 s))
      (fun _ => False) (Shallow s₀ m r) := by
  unfold Parse.program
  refine runs_current fun start => Runs.left (runs_bind (runs_funcs n (by omega) (by omega)) fun fs => ?_)
  refine runs_of_fact (fun _ h => h.1) fun hfs => Runs.imp (P := Took s₀ 0 (0 + 4 * fs.length)
    (1 * Nonterminal.funcDef.words∗)) (runs_accept (by decide) (runs_bind (Q := fun main s =>
      Stmt.areSource (main.getD []) ∧ Took s₀ 0 (8 * Stmt.declsAll (main.getD []) + 4 * fs.length)
        Nonterminal.program.words s) ?_ ?rest)
    (runs_current fun t => Runs.left (runs_bind (Q := fun _ => Took s₀ 0 (4 * fs.length) 0)
      (runs_report _ _ fun s h => ?_) fun _ => runs_bind (runs_pure fun s h => ?_) ?rest)))
    (fun _ h => h.2) fun _ _ => id
  case rest =>
    intro main
    refine runs_of_fact (fun _ h => h.1) fun hmain => runs_current fun t => ?_
    have hprogram : Program.isSource { place := start.place, funcs := fs, main := main.getD [] } := by
      simpa [Program.isSource, Func.isSource, hmain] using hfs
    refine runs_when (J := fun s => Took s₀ 0 (8 * Stmt.declsAll (main.getD []) + 4 * fs.length)
      Nonterminal.program.words s ∧ ((next s.tokens).kind = .eof ∨ Took s₀ 0 0 0 s)) (fun _ => ?_) (fun ht s h => ?_)
      (runs_pure fun s h => ⟨hprogram, h.1, h.2⟩)
    · refine runs_report _ _ fun s h => ⟨h.1.2.report _ _, .inr ?_⟩
      exact (h.1.2.report _ _).mono ⟨le_rfl, Nat.zero_le _⟩ le_rfl
    · exact ⟨h.1.2, .inl (h.2.trans (of_not_not ht))⟩
  · intro s hs
    have htried := runs_guarded (Q := fun main s' => Stmt.areSource (main.getD []) ∧
      Took s 0 (8 * Stmt.declsAll (main.getD [])) Nonterminal.block.words s') (E := fun _ => False)
      (((treesTaken n).block s 0 0 1 m (r + 10 * 1) (by omega)).imp (fun _ => id) fun b s' h => ⟨h.1, ?_⟩)
      (fun s' h => ⟨rfl, h.skip (skipStatement_suffix _)⟩) s (took_refl s)
    · refine (htried.lift hs).imp (fun main s' h => ⟨h.1, h.2.mono (by omega) ?_⟩) (fun _ => id) id
      exact Nonterminal.le_words (by simp [Nonterminal.rule, mul_assoc])
    · exact h.2.mono (by simp) (by simp)
  · exact (h.report _ _).mono (by omega) le_rfl
  · exact ⟨rfl, h.mono ⟨le_rfl, by simp [Stmt.declsAll]⟩ bot_le⟩

/-- Tokens that end with the end of input are read to a program, in the same way from some depth on. -/
lemma exists_program {tokens : List Token} (h : Ended tokens) (report : Report) (lambdas : Bool) : ∃ p s,
    (∀ depth, parseDepth tokens ≤ depth → program depth ⟨tokens, report, lambdas⟩ = .ok p s) ∧
    Took ⟨tokens, report, lambdas⟩ 0 p.storage Nonterminal.program.words s ∧
    ((next s.tokens).kind = .eof ∨ Took ⟨tokens, report, lambdas⟩ 0 0 0 s) := by
  have hrun : ∀ depth, parseDepth tokens ≤ depth → ∃ p s, program depth ⟨tokens, report, lambdas⟩ = .ok p s ∧
      program (depth + 1) ⟨tokens, report, lambdas⟩ = .ok p s ∧
      Took ⟨tokens, report, lambdas⟩ 0 p.storage Nonterminal.program.words s ∧
      ((next s.tokens).kind = .eof ∨ Took ⟨tokens, report, lambdas⟩ 0 0 0 s) := by
    intro depth hdepth
    rw [parseDepth] at hdepth
    cases runs_program (m := depth) (r := 3) (n := depth) le_rfl ⟨tokens, report, lambdas⟩ (took_refl _) with
    | result run same holds => exact ⟨_, _, run, same, holds.2⟩
    | reported _ _ holds => exact holds.elim
    | tooDeep _ holds =>
      have hlt : depth < 10 * tokens.length + 3 := holds h
      omega
  obtain ⟨p, s, hp, -, htook, hend⟩ := hrun _ le_rfl
  refine ⟨p, s, fun depth hdepth => ?_, htook, hend⟩
  induction hdepth with
  | refl => exact hp
  | @step depth hdepth ih =>
    obtain ⟨p', s', hp', hsame, -⟩ := hrun depth hdepth
    rw [ih] at hp'
    cases hp'
    exact hsame

end Parse

/-- Whatever the tokens, what is read from them is a tree of a source. -/
theorem Program.isSource_parse (tokens : List Token) (report : Report) (lambdas : Bool) :
    (Program.parse tokens report lambdas).1.isSource := by
  unfold Program.parse
  split
  · next p s hp =>
    cases Parse.runs_program (m := 0) (r := 3) (by omega) _ (Parse.took_refl ⟨tokens, report, lambdas⟩) with
    | result run _ holds =>
      rw [hp] at run
      cases run
      exact holds.1
    | reported run | tooDeep run =>
      rw [hp] at run
      cases run
  · rfl

end SubrLang
