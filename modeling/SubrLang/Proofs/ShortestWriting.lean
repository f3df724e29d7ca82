import SubrLang.Proofs.WrittenExpressions

/-!
# Shortest writings of expressions

Writing a tree with parentheses where the levels call for them takes the fewest tokens from which it can be
read (`Expr.reads_back`).

**Lengths.** How many tokens write a tree depends on the tree alone (`Writes.length_eq`).

**What reading takes.** `Parse.Costs p W` says that for a result `a` the reader `p` takes at least as many
tokens as some token list in `W a` has. For readers of expressions `W` is writing at the level of the position
(`Parse.Spells`), so this also says that what is read can be written. Parentheses in the tokens pay for a lower
level inside them.

**Left operands.** Behind the operators that have been read comes one that does not bind more tightly than the
last of them, since its right operand ended there, and no second comparison. So what has been read is written
as the left operand of that operator without parentheses (`TreesCost.binaryTail`).
-/

namespace SubrLang

/-! ## Lengths -/

mutual

/-- The number of tokens that a type is written with. -/
def Ty.width : Ty → Nat
  | .prim _ => 1
  | .array t => t.width + 2
  | .func ps r => (Ty.widths ps - 1) + r.width + 3
  | .var _ | .literal _ => 0

/-- The number of tokens of types with a comma behind each. -/
def Ty.widths : List Ty → Nat
  | [] => 0
  | t :: ts => t.width + 1 + Ty.widths ts

end

/-- The number of parentheses around an expression where at least the given level is called for. -/
def Expr.parens (least : Nat) (e : Expr) : Nat := if e.level < least then 2 else 0

mutual

/-- The number of tokens that a tree is written with. -/
def Expr.width : Expr → Nat
  | .operator _ _ [e] _ => e.width + e.parens 6 + 1
  | .operator _ op [a, b] _ =>
    match Parse.level? op with
    | some l => a.width + a.parens (leftLevel l) + (b.width + b.parens (l + 1)) + 1
    | none => a.width + b.width + 4
  | .typeLiteral _ t => t.width
  | .arrayLiteral _ es => (Expr.widths es - 1) + 2
  | .arrayAlloc _ t l => t.width + l.width + 5
  | .index _ a i => a.width + a.parens 7 + i.width + 2
  | .call _ f es => f.width + f.parens 7 + (Expr.widths es - 1) + 2
  | _ => 1

/-- The number of tokens of expressions with a comma behind each. -/
def Expr.widths : List Expr → Nat
  | [] => 0
  | e :: es => e.width + 1 + Expr.widths es

end

def TyWording.width : TyWording → Nat
  | .value t | .result t => t.width
  | .list ts => Ty.widths ts - 1

def Wording.width : Wording → Nat
  | .bare e => e.width
  | .operand least e => e.width + e.parens least
  | .list es => Expr.widths es - 1

lemma Opens.length_pos {ts : List Token} (h : Opens ts) : 0 < ts.length := by
  obtain ⟨t, us, rfl, -⟩ := h
  simp

lemma WritesTy.length_eq {ty : TyWording} {ts : List Token} (h : WritesTy ty ts) : ts.length = ty.width := by
  induction h with
  | prim | void => rfl
  | array _ _ _ ih | action _ _ _ _ ih | returned _ ih | last _ ih =>
    simp [TyWording.width, Ty.width, Ty.widths] at ih ⊢
    omega
  | func _ _ _ _ _ ih ih' =>
    simp [TyWording.width, Ty.width] at ih ih' ⊢
    omega
  | more _ _ others ih ih' =>
    have hpos := others.opens.length_pos
    simp [TyWording.width, Ty.widths] at ih ih' ⊢
    omega

@[simp] lemma Expr.parens_one (e : Expr) : e.parens 1 = 0 := if_neg (by have := e.level_bounds; omega)

lemma Writes.length_eq {part : Wording} {ts : List Token} (h : Writes part ts) : ts.length = part.width := by
  induction h with
  | @atom p e t atom =>
    unfold Token.atom? at atom
    split at atom
    iterate 7
      next hk =>
        obtain rfl := Option.some.inj atom
        rfl
    · cases atom
  | cast _ type _ _ _ _ ih | arrayAlloc _ _ type _ _ _ _ ih =>
    have htype := type.length_eq
    simp [Wording.width, TyWording.width, Expr.width, Expr.ofType, Parse.level?] at htype ih ⊢
    omega
  | more _ _ others ih ih' =>
    have hpos := others.opens.length_pos
    simp [Wording.width, Expr.widths] at ih ih' ⊢
    omega
  | index _ _ _ _ ih ih' | call _ _ _ _ ih ih' =>
    simp [Wording.width, Expr.width] at ih ih' ⊢
    omega
  | invoke _ _ _ ih | unary _ _ ih | last _ ih | arrayLiteral _ _ _ ih =>
    simp [Wording.width, Expr.width, Expr.widths] at ih ⊢
    omega
  | binary op _ _ ih ih' =>
    simp [Wording.width, Expr.width, op] at ih ih' ⊢
    omega
  | plain tight _ ih =>
    have hnone := Nat.not_lt.mpr tight
    simpa [Wording.width, Expr.parens, hnone] using ih
  | parens loose _ _ _ ih => simpa [Wording.width, Expr.parens, loose] using ih

/-! ## Levels of positions -/

/-- A position that calls for a lower level takes no more tokens. -/
lemma Writes.exists_operand {e : Expr} {least level : Nat} {ts : List Token} (h : Writes (.operand level e) ts)
    (hle : least ≤ level) : ∃ us, Writes (.operand least e) us ∧ us.length ≤ ts.length := by
  cases h with
  | plain tight bare => exact ⟨ts, .plain (hle.trans tight) bare, le_rfl⟩
  | @parens _ _ a b us loose left bare right =>
    rcases Nat.lt_or_ge e.level least with hloose | htight
    · exact ⟨_, .parens hloose left bare right, le_rfl⟩
    · exact ⟨us, .plain htight bare, by rw [List.length_cons, List.length_append]; omega⟩

/-- A position that calls for a higher level takes two tokens more. -/
lemma Writes.exists_operand_add {e : Expr} {ts : List Token} (h : Writes (.operand 1 e) ts) (least : Nat) :
    ∃ us, Writes (.operand least e) us ∧ us.length ≤ ts.length + 2 := by
  cases h with
  | plain _ bare =>
    rcases Nat.lt_or_ge e.level least with hloose | htight
    · exact ⟨_, .parens (a := { kind := .lparen }) (b := { kind := .rparen }) hloose rfl bare rfl, by simp⟩
    · exact ⟨ts, .plain htight bare, by omega⟩
  | parens loose => exact absurd loose (by have := e.level_bounds; omega)

lemma leftLevel_le_five {l : Nat} (h : l ≤ 5) : leftLevel l ≤ 5 := by
  unfold leftLevel Parse.comparisonLevel
  split <;> omega

namespace Parse

variable {α β : Type} {P : ParseState → Prop} {Q : α → ParseState → Prop} {R : β → ParseState → Prop}
  {E : ParseState → Prop} {deep : Prop} {s₀ s : ParseState} {c : TokenKind} {j k n : Nat}

/-! ## What reading takes -/

/-- At least `k` tokens have been taken since `s₀`. -/
def Left (s₀ : ParseState) (k : Nat) (s : ParseState) : Prop := ∃ w L, Took s₀ k w L s

lemma Left.mono (h : Left s₀ k s) (hjk : j ≤ k) : Left s₀ j s := by
  obtain ⟨w, L, h⟩ := h
  exact ⟨w, L, h.mono ⟨hjk, le_rfl⟩ le_rfl⟩

lemma left_fail (p : Place) (e : SyntaxError) (h : ∀ s, P s → Left s₀ k s) :
    Runs P (fail p e : Parse α) (fail p e) Q (Took s₀ 0 0 0) deep := by
  intro s hs
  obtain ⟨w, L, hs⟩ := h s hs
  exact runs_fail p e (fun _ => id) (Nat.zero_le k) s hs

lemma left_take {t : Token} {f g : Unit → Parse β} (ht : t.kind = c) (hc : c ≠ .eof)
    (h : Runs (Left s₀ (k + 1)) (f ()) (g ()) R E deep) :
    Runs (fun s => Left s₀ k s ∧ (next s.tokens).kind = t.kind) (advance >>= f) (advance >>= g) R E deep := by
  rintro s ⟨⟨w, L, hs⟩, hkind⟩
  exact runs_take ht hc (fun s hs => h s ⟨_, _, hs⟩) s ⟨hs, hkind⟩

lemma left_accept {p p' q q' : Parse β} (hc : c ≠ .eof) (hp : Runs (Left s₀ (k + 1)) p p' R E deep)
    (hq : Runs (Left s₀ k) q q' R E deep) :
    Runs (Left s₀ k) (do if ← accept c then p else q) (do if ← accept c then p' else q') R E deep := by
  rintro s ⟨w, L, hs⟩
  exact runs_accept hc (fun s hs => hp s ⟨_, _, hs⟩) (fun s hs => hq s ⟨_, _, hs⟩) s hs

lemma left_expect {f g : Token → Parse β} (hc : c ≠ .eof) (what : String)
    (h : ∀ t, Runs (Left s₀ (k + 1)) (f t) (g t) R (Took s₀ 0 0 0) deep) :
    Runs (Left s₀ k) (expect c what >>= f) (expect c what >>= g) R (Took s₀ 0 0 0) deep := by
  rintro s ⟨w, L, hs⟩
  exact runs_expect hc what (Nat.zero_le k) (fun t s hs => h t s ⟨_, _, hs⟩) s hs

/-- The tokens behind a part: one of the token lists in `W` is no longer than what has been taken for it. -/
def Paid (W : List Token → Prop) (s₀ : ParseState) (k : Nat) (s : ParseState) : Prop :=
  ∃ w, W w ∧ Left s₀ (k + w.length) s

/-- Reading takes no fewer tokens than writing the result does. -/
def Costs (n : Nat) (p : Nat → Parse α) (W : α → List Token → Prop) : Prop :=
  ∀ s₀ k, Runs (Left s₀ k) (p n) (p (n + 1)) (fun a => Paid (W a) s₀ k) (Took s₀ 0 0 0) True

variable {p : Nat → Parse α} {W : α → List Token → Prop}

lemma Costs.bind {f g : α → Parse β} (h : Costs n p W)
    (hf : ∀ a w, W a w → Runs (Left s₀ (k + w.length)) (f a) (g a) R (Took s₀ 0 0 0) True) :
    Runs (Left s₀ k) (p n >>= f) (p (n + 1) >>= g) R (Took s₀ 0 0 0) True := by
  refine runs_bind (h s₀ k) fun a => ?_
  rintro s ⟨w, hw, hleft⟩
  exact hf a w hw s hleft

/-- A list that may be missing in front of a token. -/
lemma Costs.option {γ : Type} {p : Nat → Parse (List γ)} {W : List γ → List Token → Prop} {f g : List γ → Parse β}
    (h : Costs n p W) (hf : ∀ as us, (us = [] ∧ as = [] ∨ W as us) →
      Runs (Left s₀ (k + us.length)) (f as) (g as) R (Took s₀ 0 0 0) True) :
    Runs (Left s₀ k) (peek >>= fun d => if d = c then pure [] >>= f else p n >>= f)
      (peek >>= fun d => if d = c then pure [] >>= g else p (n + 1) >>= g) R (Took s₀ 0 0 0) True := by
  refine runs_peek fun d => Runs.left (runs_ite (fun _ => ?_) fun _ => h.bind fun as us hus => hf as us (.inr hus))
  exact fun s hs => (hf [] [] (.inl ⟨rfl, rfl⟩) s hs).of_eq rfl rfl

lemma Costs.paid {a : α} {s' : ParseState} (h : Costs n p W) (hp : p n s = .ok a s') :
    Paid (W a) s 0 s' := by
  cases h s 0 s ⟨0, 1, took_refl s⟩ with
  | result run _ holds =>
    rw [hp] at run
    cases run
    exact holds
  | reported run | tooDeep run =>
    rw [hp] at run
    cases run

lemma costs_zero (h : p 0 = throw .tooDeep) : Costs 0 p W :=
  fun _ _ => h ▸ runs_tooDeep fun _ _ => trivial

/-- The end of a reader that has taken enough tokens. -/
lemma runs_written {a : α} (w : List Token) (hw : W a w) (hj : k + w.length ≤ j) :
    Runs (Left s₀ j) (pure a) (pure a) (fun a => Paid (W a) s₀ k) E deep :=
  runs_pure fun _ h => ⟨w, hw, h.mono hj⟩

/-- A reader whose result is not written. -/
lemma Takes.keeps {r : Nat} {x : α → Nat} {N : α → Language Token} {T : α → Prop} (h : Takes n r j x N T p) :
    Runs (Left s₀ k) (p n) (p (n + 1)) (fun _ => Left s₀ k) (Took s₀ 0 0 0) True := by
  rintro s ⟨w, L, hs⟩
  have hside : 0 ≤ k ∧ 0 + r ≤ n + r + 10 * k := by omega
  refine (h.runs hside s hs).imp (fun a s h => ?_) (fun _ => id) fun _ => trivial
  exact ⟨_, _, h.2.mono ⟨by omega, le_rfl⟩ le_rfl⟩

/-- A token without a place. -/
def mark (k : TokenKind) : Token := { kind := k }

/-! ## Types -/

structure TypesCost (n : Nat) : Prop where
  type : Costs n type fun t => WritesTy (.value t)
  types : Costs n types fun ts => WritesTy (.list ts)
  returnType : Costs n returnType fun t => WritesTy (.result t)

lemma typesCost (n : Nat) : TypesCost n := by
  induction n with
  | zero => exact ⟨costs_zero rfl, costs_zero rfl, costs_zero rfl⟩
  | succ n ih =>
    constructor
    · intro s₀ k
      unfold Parse.type
      refine runs_current fun t => ?_
      split
      iterate 5
        next ht =>
          exact left_take ht (by decide) (runs_written [t] (.prim (by rw [ht]; rfl)) le_rfl)
      · next ht =>
        refine left_take ht (by decide) (ih.type.bind fun elem w hw => ?_)
        refine left_expect (by decide) _ fun u => ?_
        exact runs_written (t :: (w ++ [mark .rbracket])) (.array ht hw rfl) (by simp; omega)
      · next ht =>
        refine left_take ht (by decide) (ih.types.option fun params us hparams => ?_)
        refine left_expect (by decide) _ fun _ => ih.returnType.bind fun result w hw => ?_
        refine left_expect (by decide) _ fun _ => ?_
        rcases hparams with ⟨rfl, rfl⟩ | hparams
        · exact runs_written (t :: mark .arrow :: (w ++ [mark .gt])) (.action ht rfl hw rfl) (by simp; omega)
        · exact runs_written (t :: (us ++ mark .arrow :: (w ++ [mark .gt]))) (.func ht hparams rfl hw rfl)
            (by simp; omega)
      · exact left_fail _ _ fun _ h => h.1
    · intro s₀ k
      unfold Parse.types
      refine ih.type.bind fun t w hw => left_accept (by decide) ?_ ?_
      · refine ih.types.bind fun ts us hus => ?_
        exact runs_written (w ++ mark .comma :: us) (.more hw rfl hus) (by simp; omega)
      · exact runs_written w (.last hw) le_rfl
    · intro s₀ k
      unfold Parse.returnType
      refine left_accept (by decide) ?_ ?_
      · exact runs_written [mark .kwVoid] (.void rfl) (by simp)
      · refine (ih.type s₀ k).imp (fun _ => id) ?_
        rintro t s ⟨w, hw, hleft⟩
        exact ⟨w, .returned hw, hleft⟩

/-! ## Expressions -/

/-- The tokens write an expression where at least the given level is called for. A tree with subroutines
in it is not written, and nothing is said about it. -/
def Spells (least : Nat) (e : Expr) (w : List Token) : Prop := e.isPlain = true → Writes (.operand least e) w

def SpellsAll (es : List Expr) (w : List Token) : Prop := Expr.arePlain es = true → Writes (.list es) w

lemma spells_of_bare {e : Expr} {w : List Token} {least level : Nat}
    (h : e.isPlain = true → Writes (.bare e) w) (hlevel : e.level = level) (hle : least ≤ level) :
    Spells least e w :=
  fun he => .plain (hlevel ▸ hle) (h he)

lemma Spells.exists_le {e : Expr} {w : List Token} {least level : Nat} (h : Spells level e w)
    (hle : least ≤ level) : ∃ us, Spells least e us ∧ us.length ≤ w.length := by
  by_cases he : e.isPlain
  · obtain ⟨us, hus, hlength⟩ := (h he).exists_operand hle
    exact ⟨us, fun _ => hus, hlength⟩
  · exact ⟨[], fun h => absurd h he, by simp⟩

lemma Spells.exists_le_add {e : Expr} {w : List Token} (h : Spells 1 e w) (least : Nat) :
    ∃ us, Spells least e us ∧ us.length ≤ w.length + 2 := by
  by_cases he : e.isPlain
  · obtain ⟨us, hus, hlength⟩ := (h he).exists_operand_add least
    exact ⟨us, fun _ => hus, hlength⟩
  · exact ⟨[], fun h => absurd h he, by simp⟩

/-- What reading expressions takes. -/
structure TreesCost (n : Nat) : Prop where
  expr : Costs n expr (Spells 1)
  binary : ∀ least, least ≤ 6 → ∀ s₀ k, Runs (Left s₀ k) (binary n least) (binary (n + 1) least)
    (fun e s => Paid (Spells least e) s₀ k s ∧ Stops least (next s.tokens).kind) (Took s₀ 0 0 0) True
  /-- What has been read so far is a left operand of the operator that comes next. -/
  binaryTail : ∀ least left w level, Spells level left w → least ≤ level → ∀ s₀ k,
    Runs (fun s => Left s₀ (k + w.length) s ∧ ∀ l, level? (next s.tokens).kind = some l → leftLevel l ≤ level)
      (binaryTail n least left) (binaryTail (n + 1) least left)
      (fun e s => Paid (Spells least e) s₀ k s ∧ Stops least (next s.tokens).kind) (Took s₀ 0 0 0) True
  unary : Costs n unary (Spells 6)
  postfixTail : ∀ e w, Spells 7 e w → ∀ s₀ k, Runs (Left s₀ (k + w.length)) (postfixTail n e)
    (postfixTail (n + 1) e) (fun e => Paid (Spells 7 e) s₀ k) (Took s₀ 0 0 0) True
  exprs : Costs n exprs SpellsAll
  primary : Costs n primary (Spells 7)

section Readers

variable (ih : TreesCost n)
include ih

lemma costs_binary (least : Nat) (hleast : least ≤ 6) : Runs (Left s₀ k) (binary (n + 1) least)
    (binary (n + 2) least) (fun e s => Paid (Spells least e) s₀ k s ∧ Stops least (next s.tokens).kind) (Took s₀ 0 0 0) True := by
  unfold Parse.binary
  refine ih.unary.bind fun left w hw => ?_
  refine (ih.binaryTail least left w 6 hw hleast s₀ k).imp (fun s h => ⟨h, fun l hl => ?_⟩) fun _ _ => id
  exact (leftLevel_le_five (level?_bounds hl).2).trans (by omega)

lemma costs_binaryTail (least : Nat) (left : Expr) (w : List Token) (level : Nat) (hw : Spells level left w)
    (hleast : least ≤ level) :
    Runs (fun s => Left s₀ (k + w.length) s ∧ ∀ l, level? (next s.tokens).kind = some l → leftLevel l ≤ level)
      (binaryTail (n + 1) least left) (binaryTail (n + 2) least left)
      (fun e s => Paid (Spells least e) s₀ k s ∧ Stops least (next s.tokens).kind) (Took s₀ 0 0 0) True := by
  unfold Parse.binaryTail
  refine runs_current fun t => ?_
  have hdone : ∀ {P : ParseState → Prop},
      (∀ s, P s → Left s₀ (k + w.length) s ∧ Stops least (next s.tokens).kind) →
      Runs P (pure left) (pure left) (fun e s => Paid (Spells least e) s₀ k s ∧ Stops least (next s.tokens).kind)
        (Took s₀ 0 0 0) True := by
    intro P hP
    obtain ⟨us, hus, hlength⟩ := hw.exists_le hleast
    exact runs_pure fun s h => ⟨⟨us, hus, (hP s h).1.mono (by omega)⟩, (hP s h).2⟩
  cases hl : level? t.kind with
  | none => exact hdone fun s h => ⟨h.1.1, by simp [Stops, h.2, hl]⟩
  | some l =>
    refine runs_ite (fun hlt => hdone fun s h => ⟨h.1.1, by simpa [Stops, h.2, hl]⟩) fun hge => ?_
    -- the left operand may stand where the operator calls for it
    refine runs_of_fact (fun s h => h.1.2 l (h.2 ▸ hl)) fun hlevel => ?_
    obtain ⟨us, hus, hlength⟩ := hw.exists_le hlevel
    have hbounds := level?_bounds hl
    refine Runs.imp (P := fun s => Left s₀ (k + us.length) s ∧ (next s.tokens).kind = t.kind) ?_
      (fun s h => ⟨h.1.1.mono (by omega), h.2⟩) fun _ _ => id
    refine left_take rfl (ne_eof_of_level? hl) (runs_bind (ih.binary (l + 1) (by omega) _ _) fun right => ?_)
    refine runs_current fun u => runs_ite (fun _ => ?_) fun hchain => ?_
    · refine left_fail (k := 0) _ _ ?_
      rintro s ⟨⟨⟨vs, -, hleft⟩, -⟩, -⟩
      exact hleft.mono (by omega)
    · rintro s ⟨⟨⟨vs, hvs, hleft⟩, hstop⟩, hu⟩
      have hbare : Expr.isPlain (.operator { place := t.place } t.kind [left, right] none) = true →
          Writes (.bare (.operator { place := t.place } t.kind [left, right] none)) (us ++ t :: vs) := by
        intro he
        simp only [Expr.isPlain, Expr.arePlain, Bool.and_eq_true, and_true] at he
        exact .binary hl (hus he.1) (hvs he.2)
      have hspells : Spells l (.operator { place := t.place } t.kind [left, right] none) (us ++ t :: vs) :=
        spells_of_bare hbare (Expr.level_binary hl) le_rfl
      refine ih.binaryTail least _ _ l hspells (by omega) s₀ k s ⟨hleft.mono (by simp; omega), ?_⟩
      -- the right operand ended in front of the next operator, which is no second comparison
      intro l' hl'
      have hlt := hstop l' hl'
      unfold leftLevel
      split
      · next hcomparison =>
        subst hcomparison
        rw [hu] at hl'
        have hne : l ≠ comparisonLevel := fun h => hchain ⟨h, hl'⟩
        omega
      · omega

lemma costs_unary : Costs (n + 1) unary (Spells 6) := by
  intro s₀ k
  unfold Parse.unary
  refine runs_current fun t => runs_ite (fun ht => ?_) fun _ => Runs.left ?_
  · refine left_take rfl (ne_eof_of_isUnary ht) (ih.unary.bind fun e w hw => ?_)
    refine runs_written (t :: w) (spells_of_bare (fun he => .unary ht (hw ?_)) rfl le_rfl) (by simp; omega)
    simpa [Expr.isPlain, Expr.arePlain] using he
  · refine ih.primary.bind fun e w hw => ?_
    refine (ih.postfixTail e w hw s₀ k).imp (fun _ => id) ?_
    rintro e s ⟨w, hw, hleft⟩
    obtain ⟨us, hus, hlength⟩ := hw.exists_le (show 6 ≤ 7 by omega)
    exact ⟨us, hus, hleft.mono (by omega)⟩

lemma costs_postfixTail (e : Expr) (w : List Token) (hw : Spells 7 e w) :
    Runs (Left s₀ (k + w.length)) (postfixTail (n + 1) e) (postfixTail (n + 2) e)
      (fun e => Paid (Spells 7 e) s₀ k) (Took s₀ 0 0 0) True := by
  unfold Parse.postfixTail
  refine runs_current fun t => ?_
  split
  · next ht =>
    refine left_take ht (by decide) (ih.exprs.option fun args us hargs => left_expect (by decide) _ fun _ => ?_)
    have hcall : Spells 7 (.call { place := t.place } e args) (w ++ t :: (us ++ [mark .rparen])) := by
      refine spells_of_bare (fun he => ?_) rfl le_rfl
      simp only [Expr.isPlain, Bool.and_eq_true] at he
      rcases hargs with ⟨rfl, rfl⟩ | hargs
      · exact .invoke (hw he.1) ht rfl
      · exact .call (hw he.1) ht (hargs he.2) rfl
    exact (ih.postfixTail _ _ hcall s₀ k).imp (fun _ h => h.mono (by simp; omega)) fun _ _ => id
  · next ht =>
    refine left_take ht (by decide) (ih.expr.bind fun i us hus => ?_)
    refine left_expect (by decide) _ fun _ => ?_
    have hindex : Spells 7 (.index { place := t.place } e i) (w ++ t :: (us ++ [mark .rbracket])) := by
      refine spells_of_bare (fun he => ?_) rfl le_rfl
      simp only [Expr.isPlain, Bool.and_eq_true] at he
      exact .index (hw he.1) ht (hus he.2) rfl
    exact (ih.postfixTail _ _ hindex s₀ k).imp (fun _ h => h.mono (by simp; omega)) fun _ _ => id
  · exact runs_pure fun s h => ⟨w, hw, h.1⟩

lemma costs_exprs : Costs (n + 1) exprs SpellsAll := by
  intro s₀ k
  unfold Parse.exprs
  refine ih.expr.bind fun e w hw => left_accept (by decide) ?_ ?_
  · refine ih.exprs.bind fun es us hus => ?_
    refine runs_written (w ++ mark .comma :: us) (fun he => ?_) (by simp; omega)
    simp only [Expr.arePlain, Bool.and_eq_true] at he
    exact .more (hw he.1) rfl (hus he.2)
  · refine runs_written w (fun he => ?_) le_rfl
    simp only [Expr.arePlain, Bool.and_true] at he
    exact .last (hw he)

lemma costs_primary : Costs (n + 1) primary (Spells 7) := by
  intro s₀ k
  unfold Parse.primary
  refine runs_current fun t => ?_
  dsimp only
  split
  iterate 7
    next ht =>
      refine left_take ht (by decide) (runs_written [t] (spells_of_bare (fun _ => ?_) rfl le_rfl) le_rfl)
      exact .atom (p := t.place) (by simp [Token.atom?, ht])
  · next ht =>
    refine left_take ht (by decide) (ih.expr.bind fun e w hw => ?_)
    refine left_expect (by decide) _ fun _ => ?_
    obtain ⟨us, hus, hlength⟩ := hw.exists_le_add 7
    exact runs_written us hus (by omega)
  · next ht =>
    refine left_take ht (by decide) ((typesCost n).type.bind fun target w hw => ?_)
    refine left_expect (by decide) _ fun _ => left_expect (by decide) _ fun _ => ?_
    refine ih.expr.bind fun e us hus => left_expect (by decide) _ fun _ => ?_
    refine runs_written (t :: (w ++ mark .gt :: mark .lparen :: (us ++ [mark .rparen])))
      (spells_of_bare (fun he => .cast ht hw rfl rfl (hus ?_) rfl) rfl le_rfl) (by simp; omega)
    simpa [Expr.isPlain, Expr.arePlain, Expr.ofType] using he
  · next ht =>
    refine left_take ht (by decide) (ih.exprs.bind fun es us hus => ?_)
    refine left_expect (by decide) _ fun _ => ?_
    exact runs_written (t :: (us ++ [mark .rbracket]))
      (spells_of_bare (fun he => .arrayLiteral ht (hus he) rfl) rfl le_rfl) (by simp; omega)
  · next ht =>
    refine left_take ht (by decide) (left_expect (by decide) _ fun _ => ?_)
    refine (typesCost n).type.bind fun elem w hw => ?_
    refine left_expect (by decide) _ fun _ => left_expect (by decide) _ fun _ => ?_
    refine ih.expr.bind fun e us hus => left_expect (by decide) _ fun _ => ?_
    exact runs_written (t :: mark .lbracket :: (w ++ mark .rbracket :: mark .lparen :: (us ++ [mark .rparen])))
      (spells_of_bare (fun he => .arrayAlloc ht rfl hw rfl rfl (hus he) rfl) rfl le_rfl) (by simp; omega)
  · next ht =>
    refine left_take ht (by decide) (runs_get fun st => runs_when (J := Left s₀ (k + 1)) (fun _ => ?_)
      (fun _ _ => id) ?_)
    · refine runs_report _ _ ?_
      rintro s ⟨w, L, h⟩
      exact ⟨w, L, h.report _ _⟩
    · refine runs_bind (typesTaken n).returnType.keeps fun result => runs_bind (takes_params n).keeps fun ps => ?_
      refine runs_bind (treesTaken n).block.keeps fun body => ?_
      exact runs_written [] (fun he => by cases he) (by simp)
  · exact left_fail _ _ fun _ h => h.1

end Readers

lemma treesCost (n : Nat) : TreesCost n := by
  induction n with
  | zero =>
    have hdeep : ∀ {α : Type} {P : ParseState → Prop} {q : Parse α} {Q : α → ParseState → Prop}
        {E : ParseState → Prop}, Runs P (throw .tooDeep) q Q E True := runs_tooDeep fun _ _ => trivial
    exact ⟨costs_zero rfl, fun _ _ _ _ => hdeep, fun _ _ _ _ _ _ _ _ => hdeep, costs_zero rfl,
      fun _ _ _ _ _ => hdeep, costs_zero rfl, costs_zero rfl⟩
  | succ n ih =>
    exact {
      expr := fun s₀ k => (ih.binary 1 (by omega) s₀ k).imp (fun _ => id) fun _ _ h => h.1
      binary := fun least hleast _ _ => costs_binary ih least hleast
      binaryTail := fun least left w level hw hleast _ _ => costs_binaryTail ih least left w level hw hleast
      unary := costs_unary ih
      postfixTail := fun e w hw _ _ => costs_postfixTail ih e w hw
      exprs := costs_exprs ih
      primary := costs_primary ih }

end Parse

/-! ## Shortest writings -/

/-- **Expressions read back from their shortest writing.** A tree without subroutines that can be read at all
can be written with parentheses only where the levels call for them. However that is done, reading it in front
of a token with which no expression goes on takes these tokens and no more, reports nothing and gives the tree
again, up to places. No tokens that are read as the tree are fewer. -/
theorem Expr.reads_back (e : Expr)
    (hbuilt : ∃ depth s s', Parse.Ended s.tokens ∧ Parse.expr depth s = .ok e s') (hplain : e.isPlain = true) :
    (∃ ts, Writes (.operand 1 e) ts) ∧
    ∀ ts, Writes (.operand 1 e) ts →
      (∀ (t : Token) (more : List Token), Parse.level? t.kind = none → t.kind ≠ .lparen → t.kind ≠ .lbracket →
        ∀ depth, parseDepth ts ≤ depth → ∀ report lambdas, ∃ e',
          Parse.expr depth ⟨ts ++ t :: more, report, lambdas⟩ = .ok e' ⟨t :: more, report, lambdas⟩ ∧
          e'.unplaced = e.unplaced) ∧
      ∀ (us rest : List Token) (depth : Nat) (report report' : Report) (lambdas : Bool), Parse.Ended rest →
        Parse.expr depth ⟨us ++ rest, report, lambdas⟩ = .ok e ⟨rest, report', lambdas⟩ →
          ts.length ≤ us.length := by
  refine ⟨?_, fun ts hts => ⟨fun t more hlevel hcall hindex depth hdepth report lambdas => ?_, ?_⟩⟩
  · obtain ⟨depth, s, s', hended, hread⟩ := hbuilt
    obtain ⟨w, hw, -⟩ := (Parse.treesCost depth).expr.paid hread
    exact ⟨w, hw hplain⟩
  · obtain ⟨e', heq, hread⟩ := hts.readFrom (by omega)
    have hend : Parse.EndsExpr (Parse.next (t :: more)).kind := ⟨hlevel, hcall, hindex⟩
    have henough : 10 * ts.length + 4 ≤ depth := by
      rw [parseDepth] at hdepth
      omega
    exact ⟨e', hread.expr le_rfl depth (t :: more) (by simp) hend henough report lambdas, heq⟩
  · intro us rest depth report report' lambdas hended hread
    have hne : rest ≠ [] := by
      rintro rfl
      simp [Parse.Ended] at hended
    have hall : Parse.Ended (us ++ rest) := by
      rwa [Parse.Ended, List.getLast?_append_of_ne_nil _ hne]
    obtain ⟨w, hw, _, _, htook⟩ := (Parse.treesCost depth).expr.paid (s := ⟨us ++ rest, report, lambdas⟩) hread
    have hlength : 0 + w.length + rest.length ≤ (us ++ rest).length := (htook.length_le hall).1
    rw [List.length_append] at hlength
    rw [hts.length_eq, ← (hw hplain).length_eq]
    omega

/-- The tree of `(a < b) == -c[i] * <int>(d) - f(x, y)`, without places. -/
def mixedTree : Expr :=
  let name (s : String) : Expr := .ident { place := {} } s none
  let op (k : TokenKind) (es : List Expr) : Expr := .operator { place := {} } k es none
  op .eqEq [op .lt [name "a", name "b"],
    op .minus [op .star [op .minus [.index { place := {} } (name "c") (name "i")],
      op .cast [.ofType {} .integer, name "d"]], .call { place := {} } (name "f") [name "x", name "y"]]]

open Parse in
/-- Tokens that are read as this tree. -/
def mixedTokens : List Token :=
  let name (s : String) : Token := { kind := .ident, value := s }
  [mark .lparen, name "a", mark .lt, name "b", mark .rparen, mark .eqEq, mark .minus, name "c",
    mark .lbracket, name "i", mark .rbracket, mark .star, mark .lt, mark .kwInt, mark .gt, mark .lparen,
    name "d", mark .rparen, mark .minus, name "f", mark .lparen, name "x", mark .comma, name "y",
    mark .rparen, mark .eof]

theorem Expr.reads_back_mixed :
    (∃ depth s s', Parse.Ended s.tokens ∧ Parse.expr depth s = .ok mixedTree s') ∧ mixedTree.isPlain = true ∧
    ∃ ts, Writes (.operand 1 mixedTree) ts ∧ ts.length ≤ 25 ∧ ∃ e',
      Parse.expr (parseDepth ts) ⟨ts ++ [{ kind := .eof }], {}, true⟩ = .ok e' ⟨[{ kind := .eof }], {}, true⟩ ∧
      e'.unplaced = mixedTree.unplaced := by
  have hread : Parse.expr 270 ⟨mixedTokens, {}, true⟩ = .ok mixedTree ⟨[{ kind := .eof }], {}, true⟩ := rfl
  have hbuilt : ∃ depth s s', Parse.Ended s.tokens ∧ Parse.expr depth s = .ok mixedTree s' :=
    ⟨270, ⟨mixedTokens, {}, true⟩, _, rfl, hread⟩
  have hplain : mixedTree.isPlain = true := rfl
  obtain ⟨⟨ts, hts⟩, hall⟩ := Expr.reads_back mixedTree hbuilt hplain
  obtain ⟨hback, hfewest⟩ := hall ts hts
  refine ⟨hbuilt, hplain, ts, hts, ?_, ?_⟩
  · exact hfewest (mixedTokens.take 25) [{ kind := .eof }] 270 {} {} true rfl hread
  · exact hback { kind := .eof } [] rfl (by decide) (by decide) _ le_rfl {} true

end SubrLang
