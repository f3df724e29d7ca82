import SubrLang.Proofs.AcceptedTokens

/-!
# Expressions read back from their tokens

A tree that stands for an expression is written with parentheses only where they are needed, and what is
written is read as that tree again.

**Levels.** A binary operator has the level that the parser gives it, an operator in front of its operand has
level six, and everything else has level seven (`Expr.level`). Each position calls for a least level: seven in
front of an argument list or an index, six behind an operator in front, and beside a binary operator what its
level and left association call for (`leftLevel`). A tree of a lower level is put in parentheses there.

**Writing.** `Writes` says which tokens write an expression, and `WritesTy` which write a type. Tokens are free
in their places, and a constant in its spelling.

**Reading.** `Parse.Reaches p ts q us` says that a run of `p` from the tokens `ts` goes on as a run of `q` from
the tokens `us`, with nothing reported in between. For the left side of an operator this is what one needs:
reading it ends where `Parse.binaryTail` looks for the operator, not with a result (`Parse.ReadBinary`), and
the same goes for an operand and what stands behind it (`Parse.ReadSuffixed`). `Writes.readFrom` is the
induction on how an expression is written.
-/

namespace SubrLang

/-! ## Trees without places -/

def Note.unplaced (n : Note) : Note := { n with place := {} }

mutual

/-- A tree without the places of its nodes. Subroutines without a name are left as they are. -/
def Expr.unplaced : Expr → Expr
  | .number n v => .number n.unplaced v
  | .floatNumber n v => .floatNumber n.unplaced v
  | .char n v => .char n.unplaced v
  | .string n v => .string n.unplaced v
  | .bool n v => .bool n.unplaced v
  | .ident n s b => .ident n.unplaced s b
  | .operator n op es g => .operator n.unplaced op (Expr.unplacedAll es) g
  | .typeLiteral n t => .typeLiteral n.unplaced t
  | .arrayLiteral n es => .arrayLiteral n.unplaced (Expr.unplacedAll es)
  | .arrayAlloc n t l => .arrayAlloc n.unplaced t l.unplaced
  | .index n a i => .index n.unplaced a.unplaced i.unplaced
  | .call n f es => .call n.unplaced f.unplaced (Expr.unplacedAll es)
  | .lambda n h b => .lambda n h b

def Expr.unplacedAll : List Expr → List Expr
  | [] => []
  | e :: es => e.unplaced :: Expr.unplacedAll es

end

mutual

/-- Whether a tree has no subroutine without a name in it. -/
def Expr.isPlain : Expr → Bool
  | .number .. | .floatNumber .. | .char .. | .string .. | .bool .. | .ident .. | .typeLiteral .. => true
  | .operator _ _ es _ | .arrayLiteral _ es => Expr.arePlain es
  | .arrayAlloc _ _ l => l.isPlain
  | .index _ a i => a.isPlain && i.isPlain
  | .call _ f es => f.isPlain && Expr.arePlain es
  | .lambda .. => false

def Expr.arePlain : List Expr → Bool
  | [] => true
  | e :: es => e.isPlain && Expr.arePlain es

end

/-! ## Writing -/

/-- How tightly the outermost operator of a tree binds. Operators in front of their operand have level six,
and what needs no operator level seven. -/
def Expr.level : Expr → Nat
  | .operator _ _ [_] _ => 6
  | .operator _ op _ _ => (Parse.level? op).getD 7
  | _ => 7

/-- The level of what can stand on the left of a binary operator of the given level. Operators associate to
the left, but comparisons do not follow one another. -/
def leftLevel (level : Nat) : Nat := if level = Parse.comparisonLevel then level + 1 else level

/-- The word that names a type of values. -/
def Prim.word? : Prim → Option TokenKind
  | .boolean => some .kwBool
  | .character => some .kwChar
  | .integer => some .kwInt
  | .float => some .kwFloat
  | .string => some .kwString
  | .void | .error => none

/-- The tree at a place that a single token writes. -/
def Token.atom? (t : Token) (p : Place) : Option Expr :=
  match t.kind with
  | .number => some (.number { place := p } (Int32.ofInt (Numeral.int 32 t.value.toList).1))
  | .floatNumber => some (.floatNumber { place := p } (Numeral.float t.value.toList))
  | .char => some (.char { place := p } (t.value.toUTF8.data.getD 0 0))
  | .string => some (.string { place := p } t.value)
  | .kwTrue => some (.bool { place := p } true)
  | .kwFalse => some (.bool { place := p } false)
  | .ident => some (.ident { place := p } t.value none)
  | _ => none

/-- What is written of types. -/
inductive TyWording where
  /-- A type of values, and a type of what is returned. -/
  | value (t : Ty) | result (t : Ty)
  | list (ts : List Ty)

/-- How types are written. -/
inductive WritesTy : TyWording → List Token → Prop
  | prim {p : Prim} {t : Token} (word : p.word? = some t.kind) : WritesTy (.value (.prim p)) [t]
  | array {elem : Ty} {a b : Token} {ts : List Token} (opening : a.kind = .lbracket)
      (inner : WritesTy (.value elem) ts) (closing : b.kind = .rbracket) :
      WritesTy (.value (.array elem)) (a :: (ts ++ [b]))
  | action {r : Ty} {a b c : Token} {us : List Token} (opening : a.kind = .lt) (arrow : b.kind = .arrow)
      (result : WritesTy (.result r) us) (closing : c.kind = .gt) :
      WritesTy (.value (.func [] r)) (a :: b :: (us ++ [c]))
  | func {ps : List Ty} {r : Ty} {a b c : Token} {ts us : List Token} (opening : a.kind = .lt)
      (params : WritesTy (.list ps) ts) (arrow : b.kind = .arrow) (result : WritesTy (.result r) us)
      (closing : c.kind = .gt) : WritesTy (.value (.func ps r)) (a :: (ts ++ b :: (us ++ [c])))
  | void {t : Token} (word : t.kind = .kwVoid) : WritesTy (.result .void) [t]
  | returned {t : Ty} {ts : List Token} (value : WritesTy (.value t) ts) : WritesTy (.result t) ts
  | last {t : Ty} {ts : List Token} (last : WritesTy (.value t) ts) : WritesTy (.list [t]) ts
  | more {t : Ty} {tys : List Ty} {c : Token} {ts us : List Token} (first : WritesTy (.value t) ts)
      (comma : c.kind = .comma) (others : WritesTy (.list tys) us) :
      WritesTy (.list (t :: tys)) (ts ++ c :: us)

/-- What is written of expressions. -/
inductive Wording where
  /-- An expression without parentheses around it. -/
  | bare (e : Expr)
  /-- An expression where at least the given level is called for. -/
  | operand (least : Nat) (e : Expr)
  | list (es : List Expr)

/-- How expressions are written with parentheses only where they are needed. -/
inductive Writes : Wording → List Token → Prop
  | atom {p : Place} {e : Expr} {t : Token} (atom : t.atom? p = some e) : Writes (.bare e) [t]
  | cast {p q : Place} {target : Ty} {e : Expr} {a b c d : Token} {ts us : List Token}
      (opening : a.kind = .lt) (type : WritesTy (.value target) ts) (closing : b.kind = .gt)
      (left : c.kind = .lparen) (inner : Writes (.operand 1 e) us) (right : d.kind = .rparen) :
      Writes (.bare (.operator { place := p } .cast [.ofType q target, e] none))
        (a :: (ts ++ b :: c :: (us ++ [d])))
  | arrayLiteral {p : Place} {es : List Expr} {a b : Token} {ts : List Token} (opening : a.kind = .lbracket)
      (elems : Writes (.list es) ts) (closing : b.kind = .rbracket) :
      Writes (.bare (.arrayLiteral { place := p } es)) (a :: (ts ++ [b]))
  | arrayAlloc {p : Place} {elem : Ty} {e : Expr} {w a b c d : Token} {ts us : List Token}
      (word : w.kind = .kwNew) (opening : a.kind = .lbracket) (type : WritesTy (.value elem) ts)
      (closing : b.kind = .rbracket) (left : c.kind = .lparen) (length : Writes (.operand 1 e) us)
      (right : d.kind = .rparen) :
      Writes (.bare (.arrayAlloc { place := p } elem e)) (w :: a :: (ts ++ b :: c :: (us ++ [d])))
  | index {p : Place} {e i : Expr} {a b : Token} {ts us : List Token} (array : Writes (.operand 7 e) ts)
      (opening : a.kind = .lbracket) (index : Writes (.operand 1 i) us) (closing : b.kind = .rbracket) :
      Writes (.bare (.index { place := p } e i)) (ts ++ a :: (us ++ [b]))
  | invoke {p : Place} {f : Expr} {a b : Token} {ts : List Token} (callee : Writes (.operand 7 f) ts)
      (opening : a.kind = .lparen) (closing : b.kind = .rparen) :
      Writes (.bare (.call { place := p } f [])) (ts ++ [a, b])
  | call {p : Place} {f : Expr} {es : List Expr} {a b : Token} {ts us : List Token}
      (callee : Writes (.operand 7 f) ts) (opening : a.kind = .lparen) (args : Writes (.list es) us)
      (closing : b.kind = .rparen) : Writes (.bare (.call { place := p } f es)) (ts ++ a :: (us ++ [b]))
  | unary {p : Place} {e : Expr} {t : Token} {ts : List Token} (op : Parse.isUnary t.kind = true)
      (inner : Writes (.operand 6 e) ts) :
      Writes (.bare (.operator { place := p } t.kind [e] none)) (t :: ts)
  | binary {p : Place} {level : Nat} {e₁ e₂ : Expr} {t : Token} {ts us : List Token}
      (op : Parse.level? t.kind = some level) (left : Writes (.operand (leftLevel level) e₁) ts)
      (right : Writes (.operand (level + 1) e₂) us) :
      Writes (.bare (.operator { place := p } t.kind [e₁, e₂] none)) (ts ++ t :: us)
  | plain {least : Nat} {e : Expr} {ts : List Token} (tight : least ≤ e.level) (bare : Writes (.bare e) ts) :
      Writes (.operand least e) ts
  | parens {least : Nat} {e : Expr} {a b : Token} {ts : List Token} (loose : e.level < least)
      (left : a.kind = .lparen) (bare : Writes (.bare e) ts) (right : b.kind = .rparen) :
      Writes (.operand least e) (a :: (ts ++ [b]))
  | last {e : Expr} {ts : List Token} (last : Writes (.operand 1 e) ts) : Writes (.list [e]) ts
  | more {e : Expr} {es : List Expr} {c : Token} {ts us : List Token} (first : Writes (.operand 1 e) ts)
      (comma : c.kind = .comma) (others : Writes (.list es) us) : Writes (.list (e :: es)) (ts ++ c :: us)

/-- Tokens whose first one does not end a list of arguments or of parameter types. -/
def Opens (ts : List Token) : Prop := ∃ t us, ts = t :: us ∧ t.kind ≠ .rparen ∧ t.kind ≠ .arrow

lemma Opens.append {ts us : List Token} (h : Opens ts) : Opens (ts ++ us) := by
  obtain ⟨t, vs, rfl, ht⟩ := h
  exact ⟨t, vs ++ us, rfl, ht⟩

lemma Opens.next_ne {ts us : List Token} (h : Opens ts) :
    (Parse.next (ts ++ us)).kind ≠ .rparen ∧ (Parse.next (ts ++ us)).kind ≠ .arrow := by
  obtain ⟨t, vs, rfl, ht⟩ := h
  exact ht

lemma opens_cons {t : Token} {ts : List Token} {k : TokenKind} (ht : t.kind = k) (hparen : k ≠ .rparen)
    (harrow : k ≠ .arrow) : Opens (t :: ts) :=
  ⟨t, ts, rfl, ht ▸ hparen, ht ▸ harrow⟩

lemma WritesTy.opens {ty : TyWording} {ts : List Token} (h : WritesTy ty ts) : Opens ts := by
  induction h with
  | @prim p t word =>
    refine ⟨t, [], rfl, fun hk => ?_, fun hk => ?_⟩
    all_goals cases p <;> simp [Prim.word?, hk] at word
  | void hk | array hk | action hk | func hk => exact opens_cons hk (by decide) (by decide)
  | returned _ ih | last _ ih => exact ih
  | more _ _ _ ih => exact ih.append

lemma Writes.opens {part : Wording} {ts : List Token} (h : Writes part ts) : Opens ts := by
  induction h with
  | @atom p e t atom =>
    refine ⟨t, [], rfl, fun hk => ?_, fun hk => ?_⟩
    all_goals simp [Token.atom?, hk] at atom
  | @unary p e t ts op inner =>
    refine ⟨t, ts, rfl, fun hk => ?_, fun hk => ?_⟩
    all_goals simp [Parse.isUnary, hk] at op
  | cast hk | arrayLiteral hk | arrayAlloc hk | parens _ hk => exact opens_cons hk (by decide) (by decide)
  | plain _ _ ih | last _ ih => exact ih
  | more _ _ _ ih | binary _ _ _ ih | index _ _ _ _ ih | invoke _ _ _ ih | call _ _ _ _ ih => exact ih.append

lemma WritesTy.value_ne_void {t : Ty} {ts us : List Token} (h : WritesTy (.value t) ts) :
    (Parse.next (ts ++ us)).kind ≠ .kwVoid := by
  cases h with
  | @prim p t word =>
    change t.kind ≠ .kwVoid
    intro hk
    cases p <;> simp [Prim.word?, hk] at word
  | array hk | action hk | func hk => exact fun hvoid => by cases hk.symm.trans hvoid

namespace Parse

@[simp] lemma next_cons (t : Token) (ts : List Token) : next (t :: ts) = t := rfl

variable {α β : Type} {p q r : Parse α} {f : α → Parse β} {g : Parse β} {ts us vs : List Token} {t : Token}
  {k : TokenKind} {n m : Nat}

/-! ## Runs that report nothing -/

/-- A run of `p` from the tokens `ts` goes on as one of `q` from the tokens `us`. -/
def Reaches (p : Parse α) (ts : List Token) (q : Parse α) (us : List Token) : Prop :=
  ∀ report lambdas, p ⟨ts, report, lambdas⟩ = q ⟨us, report, lambdas⟩

lemma reaches_refl : Reaches p ts p ts := fun _ _ => rfl

lemma Reaches.trans (h : Reaches p ts q us) (h' : Reaches q us r vs) : Reaches p ts r vs :=
  fun report lambdas => (h report lambdas).trans (h' report lambdas)

lemma Reaches.bind {a : α} (h : Reaches p ts (pure a) us) (h' : Reaches (f a) us g vs) :
    Reaches (p >>= f) ts g vs := by
  intro report lambdas
  have hbind : (p >>= f) ⟨ts, report, lambdas⟩ = EStateM.bind p f ⟨ts, report, lambdas⟩ := rfl
  rw [hbind, EStateM.bind, h]
  exact h' report lambdas

lemma reaches_current {f : Token → Parse β} (h : Reaches (f (next ts)) ts g us) :
    Reaches (current >>= f) ts g us := h

lemma reaches_peek {f : TokenKind → Parse β} (h : Reaches (f (next ts).kind) ts g us) :
    Reaches (peek >>= f) ts g us := h

lemma rest_cons (hts : ts ≠ []) : rest (t :: ts) = ts := by
  cases ts with
  | nil => exact absurd rfl hts
  | cons => rfl

lemma reaches_advance {f : Unit → Parse β} (hts : ts ≠ []) (h : Reaches (f ()) ts g us) :
    Reaches (advance >>= f) (t :: ts) g us := by
  intro report lambdas
  have hstep : (advance >>= f) ⟨t :: ts, report, lambdas⟩ = f () ⟨rest (t :: ts), report, lambdas⟩ := rfl
  rw [hstep, rest_cons hts]
  exact h report lambdas

lemma reaches_pos {c : Prop} [Decidable c] {p' : Parse α} (hc : c) (h : Reaches p ts q us) :
    Reaches (if c then p else p') ts q us := by
  rwa [if_pos hc]

lemma reaches_neg {c : Prop} [Decidable c] {p' : Parse α} (hc : ¬c) (h : Reaches p ts q us) :
    Reaches (if c then p' else p) ts q us := by
  rwa [if_neg hc]

lemma reaches_expect {f : Token → Parse β} {what : String} (ht : t.kind = k) (hts : ts ≠ [])
    (h : Reaches (f t) ts g us) : Reaches (expect k what >>= f) (t :: ts) g us := by
  have htake : Reaches (expect k what) (t :: ts) (pure t) ts :=
    reaches_current (reaches_pos ht (reaches_advance hts reaches_refl))
  exact htake.bind h

lemma reaches_accept {f : Bool → Parse β} (ht : t.kind = k) (hts : ts ≠ []) (h : Reaches (f true) ts g us) :
    Reaches (accept k >>= f) (t :: ts) g us := by
  have htake : Reaches (accept k) (t :: ts) (pure true) ts :=
    reaches_peek (reaches_pos ht (reaches_advance hts reaches_refl))
  exact htake.bind h

lemma reaches_accept_not {f : Bool → Parse β} (hk : (next ts).kind ≠ k) (h : Reaches (f false) ts g us) :
    Reaches (accept k >>= f) ts g us := by
  have hkeep : Reaches (accept k) ts (pure false) ts := reaches_peek (reaches_neg hk reaches_refl)
  exact hkeep.bind h

/-! ## Types -/

/-- The tokens `ts` are read as `a`, with `r` calls more than the tokens pay for, if a token of a certain kind
comes behind them. -/
def ReadAs (p : Nat → Parse α) (F : TokenKind → Prop) (r : Nat) (ts : List Token) (a : α) : Prop :=
  ∀ n rest, rest ≠ [] → F (next rest).kind → 10 * ts.length + r ≤ n → Reaches (p n) (ts ++ rest) (pure a) rest

lemma readAs_succ {p : Nat → Parse α} {F : TokenKind → Prop} {c : Nat} {a : α}
    (h : ∀ n rest, rest ≠ [] → F (next rest).kind → 10 * ts.length + c ≤ n →
      Reaches (p (n + 1)) (ts ++ rest) (pure a) rest) : ReadAs p F (c + 1) ts a := by
  intro n rest hrest hk hn
  obtain ⟨n, rfl⟩ : ∃ m, n = m + 1 := ⟨n - 1, by omega⟩
  exact h n rest hrest hk (by omega)

lemma readAs_prim {p : Prim} (h : p.word? = some t.kind) :
    ReadAs type (fun _ => True) 1 [t] (.prim p) := by
  refine readAs_succ fun n rest hrest _ hn => ?_
  unfold Parse.type
  refine reaches_current ?_
  have hkind : (next ([t] ++ rest)).kind = t.kind := rfl
  rw [hkind]
  cases p with
  | void | error => cases h
  | boolean | character | integer | float | string =>
    rw [← Option.some.inj h]
    exact reaches_advance hrest reaches_refl

lemma readAs_array {elem : Ty} {a b : Token} (ha : a.kind = .lbracket) (hb : b.kind = .rbracket)
    (h : ReadAs type (fun _ => True) 1 ts elem) :
    ReadAs type (fun _ => True) 1 (a :: (ts ++ [b])) (.array elem) := by
  refine readAs_succ fun n rest hrest _ hn => ?_
  simp only [List.cons_append, List.append_assoc, List.nil_append, List.length_append, List.length_cons,
    List.length_nil] at hn ⊢
  unfold Parse.type
  refine reaches_current ?_
  rw [next_cons, ha]
  refine reaches_advance (by simp) ((h n _ (by simp) trivial (by omega)).bind ?_)
  exact reaches_expect hb hrest reaches_refl

lemma readAs_func {ps : List Ty} {result : Ty} {a b c : Token} (ha : a.kind = .lt) (hb : b.kind = .arrow)
    (hc : c.kind = .gt)
    (hparams : ts = [] ∧ ps = [] ∨ Opens ts ∧ ReadAs types (· ≠ .comma) 2 ts ps)
    (h : ReadAs returnType (fun _ => True) 2 us result) :
    ReadAs type (fun _ => True) 1 (a :: (ts ++ b :: (us ++ [c]))) (.func ps result) := by
  refine readAs_succ fun n rest hrest _ hn => ?_
  simp only [List.cons_append, List.append_assoc, List.nil_append, List.length_append, List.length_cons,
    List.length_nil] at hn ⊢
  unfold Parse.type
  refine reaches_current ?_
  rw [next_cons, ha]
  have hjoin : Reaches (do
      let _ ← expect .arrow "'->' in function type"
      let result ← returnType n
      let _ ← expect .gt "'>' to close function type"
      pure (Ty.func ps result)) (b :: (us ++ c :: rest)) (pure (.func ps result)) rest := by
    refine reaches_expect hb (by simp) ((h n _ (by simp) trivial (by omega)).bind ?_)
    exact reaches_expect hc hrest reaches_refl
  refine reaches_advance (by simp) (reaches_peek ?_)
  rcases hparams with ⟨rfl, rfl⟩ | ⟨hopens, hparams⟩
  · exact reaches_pos hb hjoin
  · refine reaches_neg hopens.next_ne.2 ((hparams n _ (by simp) ?_ (by omega)).bind hjoin)
    rw [next_cons, hb]
    decide

lemma readAs_types {t : Ty} {tys : List Ty} {c : Token} (hc : c.kind = .comma)
    (h : ReadAs type (fun _ => True) 1 ts t) (hmore : ReadAs types (· ≠ .comma) 2 us tys) :
    ReadAs types (· ≠ .comma) 2 (ts ++ c :: us) (t :: tys) := by
  refine readAs_succ fun n rest hrest hcomma hn => ?_
  simp only [List.cons_append, List.append_assoc, List.length_append, List.length_cons] at hn ⊢
  unfold Parse.types
  refine (h n _ (by simp) trivial (by omega)).bind (reaches_accept hc (by simp [hrest]) (reaches_pos rfl ?_))
  exact (hmore n _ hrest hcomma (by omega)).bind reaches_refl

lemma readAs_type_last {t : Ty} (h : ReadAs type (fun _ => True) 1 ts t) :
    ReadAs types (· ≠ .comma) 2 ts [t] := by
  refine readAs_succ fun n rest hrest hcomma hn => ?_
  unfold Parse.types
  refine (h n _ hrest trivial (by omega)).bind (reaches_accept_not hcomma ?_)
  exact reaches_neg (by decide) reaches_refl

lemma readAs_void (ht : t.kind = .kwVoid) : ReadAs returnType (fun _ => True) 2 [t] .void := by
  refine readAs_succ fun n rest hrest _ hn => ?_
  unfold Parse.returnType
  exact reaches_accept ht hrest (reaches_pos rfl reaches_refl)

lemma readAs_value {t : Ty} (hvoid : ∀ us, (next (ts ++ us)).kind ≠ .kwVoid)
    (h : ReadAs type (fun _ => True) 1 ts t) : ReadAs returnType (fun _ => True) 2 ts t := by
  refine readAs_succ fun n rest hrest _ hn => ?_
  unfold Parse.returnType
  exact reaches_accept_not (hvoid rest) (reaches_neg (by decide) (h n _ hrest trivial (by omega)))

/-! ## Expressions -/

/-- Tokens with which neither an expression of a level nor the operand that it ends with goes on. -/
def Leaves (level : Nat) (k : TokenKind) : Prop := EndsOperand k ∧ ∀ l, level? k = some l → leftLevel l ≤ level

/-- Tokens with which no expression goes on. -/
def EndsExpr (k : TokenKind) : Prop := level? k = none ∧ EndsOperand k

/-- Tokens with which no list of expressions goes on. -/
def EndsExprs (k : TokenKind) : Prop := EndsExpr k ∧ k ≠ .comma

/-- The tokens `ts` are an operand `e` that may have argument lists and indices behind it. -/
def ReadSuffixed (ts : List Token) (e : Expr) : Prop :=
  ∀ n rest, rest ≠ [] → 10 * ts.length + 2 ≤ n →
    ∃ m, n ≤ m + 10 * ts.length ∧ Reaches (unary n) (ts ++ rest) (postfixTail m e) rest

/-- The tokens `ts` are an expression `e` that may have operators of at most the given level behind it. -/
def ReadBinary (level : Nat) (ts : List Token) (e : Expr) : Prop :=
  ∀ n least rest, rest ≠ [] → least ≤ level → Leaves level (next rest).kind → 10 * ts.length + 3 ≤ n →
    ∃ m, n ≤ m + 10 * ts.length + 1 ∧ Reaches (binary n least) (ts ++ rest) (binaryTail m least e) rest

/-- The tokens `ts` are read as `e` where an expression of at least the given level may stand. -/
structure ReadOperand (level : Nat) (ts : List Token) (e : Expr) : Prop where
  suffixed : level = 7 → ReadSuffixed ts e
  unary : 6 ≤ level → ReadAs unary EndsOperand 2 ts e
  binary : ReadBinary level ts e

variable {e e₁ e₂ : Expr} {level least l : Nat}

lemma reaches_postfixTail_pure (hn : 0 < n) (hk : EndsOperand (next ts).kind) :
    Reaches (postfixTail n e) ts (pure e) ts := by
  obtain ⟨n, rfl⟩ : ∃ m, n = m + 1 := ⟨n - 1, by omega⟩
  unfold Parse.postfixTail
  refine reaches_current ?_
  split
  · next h => exact absurd h hk.1
  · next h => exact absurd h hk.2
  · exact reaches_refl

lemma reaches_binaryTail_pure (hn : 0 < n) (hk : Stops least (next ts).kind) :
    Reaches (binaryTail n least e) ts (pure e) ts := by
  obtain ⟨n, rfl⟩ : ∃ m, n = m + 1 := ⟨n - 1, by omega⟩
  unfold Parse.binaryTail
  refine reaches_current ?_
  cases hl : level? (next ts).kind with
  | none => exact reaches_refl
  | some l => exact reaches_pos (hk l hl) reaches_refl

lemma ReadSuffixed.unary (h : ReadSuffixed ts e) : ReadAs unary EndsOperand 2 ts e := by
  intro n rest hrest hk hn
  obtain ⟨m, hm, hreach⟩ := h n rest hrest hn
  exact hreach.trans (reaches_postfixTail_pure (by omega) hk)

lemma readBinary_of_unary (h : ReadAs unary EndsOperand 2 ts e) : ReadBinary level ts e := by
  intro n least rest hrest _ hk hn
  obtain ⟨n, rfl⟩ : ∃ m, n = m + 1 := ⟨n - 1, by omega⟩
  refine ⟨n, by omega, ?_⟩
  unfold Parse.binary
  exact (h n rest hrest hk.1 (by omega)).bind reaches_refl

lemma ReadBinary.mono (h : ReadBinary level ts e) (hle : least ≤ level) : ReadBinary least ts e :=
  fun n least' rest hrest hleast hk hn =>
    h n least' rest hrest (hleast.trans hle) ⟨hk.1, fun l hl => (hk.2 l hl).trans hle⟩ hn

lemma ReadSuffixed.operand (h : ReadSuffixed ts e) : ReadOperand level ts e :=
  ⟨fun _ => h, fun _ => h.unary, readBinary_of_unary h.unary⟩

lemma ReadOperand.mono (h : ReadOperand level ts e) (hle : least ≤ level) (hlevel : level ≤ 7) :
    ReadOperand least ts e :=
  ⟨fun h7 => h.suffixed (by omega), fun h6 => h.unary (by omega), h.binary.mono hle⟩

/-- A whole expression. -/
lemma ReadOperand.expr (h : ReadOperand level ts e) (hlevel : 1 ≤ level) : ReadAs expr EndsExpr 4 ts e := by
  refine readAs_succ fun n rest hrest hk hn => ?_
  unfold Parse.expr
  have hnone : ∀ l, level? (next rest).kind ≠ some l := by simp [hk.1]
  obtain ⟨m, hm, hreach⟩ := h.binary n 1 rest hrest hlevel ⟨hk.2, fun l hl => absurd hl (hnone l)⟩ (by omega)
  exact hreach.trans (reaches_binaryTail_pure (by omega) fun l hl => absurd hl (hnone l))

lemma endsExpr_of {k : TokenKind} (h : t.kind = k) (hk : level? k = none ∧ k ≠ .lparen ∧ k ≠ .lbracket) :
    EndsExpr (next (t :: ts)).kind := by
  rw [next_cons, h]
  exact hk

lemma endsExprs_of {k : TokenKind} (h : t.kind = k)
    (hk : (level? k = none ∧ k ≠ .lparen ∧ k ≠ .lbracket) ∧ k ≠ .comma) : EndsExprs (next (t :: ts)).kind := by
  rw [next_cons, h]
  exact hk

/-- A first token that is no operator starts an operand. -/
lemma readSuffixed_of_primary (ht : isUnary t.kind = false)
    (h : ReadAs primary (fun _ => True) 1 (t :: ts) e) : ReadSuffixed (t :: ts) e := by
  intro n rest hrest hn
  obtain ⟨n, rfl⟩ : ∃ m, n = m + 1 := ⟨n - 1, by omega⟩
  refine ⟨n, by simp only [List.length_cons]; omega, ?_⟩
  unfold Parse.unary
  refine reaches_current (reaches_neg (by simp [ht]) ?_)
  exact (h n rest hrest trivial (by omega)).bind reaches_refl

lemma readSuffixed_atom (h : t.atom? t.place = some e) : ReadSuffixed [t] e := by
  have hunary : isUnary t.kind = false := by
    unfold Token.atom? at h
    split at h
    iterate 7 · next hk => rw [hk]; rfl
    · cases h
  refine readSuffixed_of_primary hunary (readAs_succ fun n rest hrest _ hn => ?_)
  unfold Parse.primary
  refine reaches_current ?_
  have hnext : next ([t] ++ rest) = t := rfl
  rw [hnext]
  unfold Token.atom? at h
  split at h
  iterate 7
    next hk =>
      rw [← Option.some.inj h, hk]
      exact reaches_advance hrest reaches_refl
  · cases h

section Primary

variable {a b c d w : Token} {tys : List Ty} {ty : Ty} {es : List Expr}

lemma readSuffixed_parens (ha : a.kind = .lparen) (hb : b.kind = .rparen) (h : ReadAs expr EndsExpr 4 ts e) :
    ReadSuffixed (a :: (ts ++ [b])) e := by
  refine readSuffixed_of_primary (by rw [ha]; rfl) (readAs_succ fun n rest hrest _ hn => ?_)
  simp only [List.cons_append, List.append_assoc, List.nil_append, List.length_append, List.length_cons,
    List.length_nil] at hn ⊢
  unfold Parse.primary
  refine reaches_current ?_
  rw [next_cons, ha]
  refine reaches_advance (by simp) ((h n _ (by simp) (endsExpr_of hb (by decide)) (by omega)).bind ?_)
  exact reaches_expect hb hrest reaches_refl

lemma readSuffixed_cast (ha : a.kind = .lt) (hty : ReadAs type (fun _ => True) 1 ts ty) (hb : b.kind = .gt)
    (hc : c.kind = .lparen) (h : ReadAs expr EndsExpr 4 us e) (hd : d.kind = .rparen) :
    ReadSuffixed (a :: (ts ++ b :: c :: (us ++ [d])))
      (.operator { place := a.place } .cast [.ofType a.place ty, e] none) := by
  refine readSuffixed_of_primary (by rw [ha]; rfl) (readAs_succ fun n rest hrest _ hn => ?_)
  simp only [List.cons_append, List.append_assoc, List.nil_append, List.length_append, List.length_cons,
    List.length_nil] at hn ⊢
  unfold Parse.primary
  refine reaches_current ?_
  rw [next_cons, ha]
  refine reaches_advance (by simp) ((hty n _ (by simp) trivial (by omega)).bind ?_)
  refine reaches_expect hb (by simp) (reaches_expect hc (by simp) ?_)
  refine (h n _ (by simp) (endsExpr_of hd (by decide)) (by omega)).bind ?_
  exact reaches_expect hd hrest reaches_refl

lemma readSuffixed_arrayLiteral (ha : a.kind = .lbracket)
    (h : ReadAs exprs EndsExprs 5 ts es) (hb : b.kind = .rbracket) :
    ReadSuffixed (a :: (ts ++ [b])) (.arrayLiteral { place := a.place } es) := by
  refine readSuffixed_of_primary (by rw [ha]; rfl) (readAs_succ fun n rest hrest _ hn => ?_)
  simp only [List.cons_append, List.append_assoc, List.nil_append, List.length_append, List.length_cons,
    List.length_nil] at hn ⊢
  unfold Parse.primary
  refine reaches_current ?_
  rw [next_cons, ha]
  refine reaches_advance (by simp) ((h n _ (by simp) (endsExprs_of hb (by decide)) (by omega)).bind ?_)
  exact reaches_expect hb hrest reaches_refl

lemma readSuffixed_arrayAlloc (hw : w.kind = .kwNew) (ha : a.kind = .lbracket)
    (hty : ReadAs type (fun _ => True) 1 ts ty) (hb : b.kind = .rbracket) (hc : c.kind = .lparen)
    (h : ReadAs expr EndsExpr 4 us e) (hd : d.kind = .rparen) :
    ReadSuffixed (w :: a :: (ts ++ b :: c :: (us ++ [d]))) (.arrayAlloc { place := w.place } ty e) := by
  refine readSuffixed_of_primary (by rw [hw]; rfl) (readAs_succ fun n rest hrest _ hn => ?_)
  simp only [List.cons_append, List.append_assoc, List.nil_append, List.length_append, List.length_cons,
    List.length_nil] at hn ⊢
  unfold Parse.primary
  refine reaches_current ?_
  rw [next_cons, hw]
  refine reaches_advance (by simp) (reaches_expect ha (by simp) ?_)
  refine (hty n _ (by simp) trivial (by omega)).bind ?_
  refine reaches_expect hb (by simp) (reaches_expect hc (by simp) ?_)
  refine (h n _ (by simp) (endsExpr_of hd (by decide)) (by omega)).bind ?_
  exact reaches_expect hd hrest reaches_refl

/-- Tokens that are taken behind an operand. -/
lemma ReadSuffixed.append (h : ReadSuffixed ts e₁) (hus : us ≠ [])
    (hstep : ∀ m rest, rest ≠ [] → 10 * us.length ≤ m →
      Reaches (postfixTail (m + 1) e₁) (us ++ rest) (postfixTail m e₂) rest) :
    ReadSuffixed (ts ++ us) e₂ := by
  intro n rest hrest hn
  have hpos := List.length_pos_iff.mpr hus
  rw [List.length_append] at hn ⊢
  rw [List.append_assoc]
  obtain ⟨m, hm, hreach⟩ := h n (us ++ rest) (by simp [hrest]) (by omega)
  obtain ⟨m, rfl⟩ : ∃ k, m = k + 1 := ⟨m - 1, by omega⟩
  exact ⟨m, by omega, hreach.trans (hstep m rest hrest (by omega))⟩

lemma readSuffixed_index (h : ReadSuffixed ts e₁) (ha : a.kind = .lbracket) (hi : ReadAs expr EndsExpr 4 us e₂)
    (hb : b.kind = .rbracket) : ReadSuffixed (ts ++ a :: (us ++ [b])) (.index { place := a.place } e₁ e₂) := by
  refine h.append (by simp) fun m rest hrest hm => ?_
  simp only [List.cons_append, List.append_assoc, List.nil_append, List.length_append, List.length_cons,
    List.length_nil] at hm ⊢
  rw [Parse.postfixTail]
  refine reaches_current ?_
  rw [next_cons, ha]
  refine reaches_advance (by simp) ((hi m _ (by simp) (endsExpr_of hb (by decide)) (by omega)).bind ?_)
  exact reaches_expect hb hrest reaches_refl

lemma readSuffixed_call (h : ReadSuffixed ts e) (ha : a.kind = .lparen)
    (hargs : us = [] ∧ es = [] ∨ Opens us ∧ ReadAs exprs EndsExprs 5 us es) (hb : b.kind = .rparen) :
    ReadSuffixed (ts ++ a :: (us ++ [b])) (.call { place := a.place } e es) := by
  refine h.append (by simp) fun m rest hrest hm => ?_
  simp only [List.cons_append, List.append_assoc, List.nil_append, List.length_append, List.length_cons,
    List.length_nil] at hm ⊢
  rw [Parse.postfixTail]
  refine reaches_current ?_
  rw [next_cons, ha]
  have hjoin : Reaches (do
      let _ ← expect .rparen "')' after function arguments"
      postfixTail m (.call { place := a.place } e es)) (b :: rest)
      (postfixTail m (.call { place := a.place } e es)) rest := reaches_expect hb hrest reaches_refl
  refine reaches_advance (by simp) (reaches_peek ?_)
  rcases hargs with ⟨rfl, rfl⟩ | ⟨hopens, hargs⟩
  · exact reaches_pos hb hjoin
  · refine reaches_neg hopens.next_ne.1 ?_
    exact (hargs m _ (by simp) (endsExprs_of hb (by decide)) (by omega)).bind hjoin

lemma readAs_exprs (h : ReadAs expr EndsExpr 4 ts e) (hc : c.kind = .comma)
    (hmore : ReadAs exprs EndsExprs 5 us es) :
    ReadAs exprs EndsExprs 5 (ts ++ c :: us) (e :: es) := by
  refine readAs_succ fun n rest hrest hk hn => ?_
  simp only [List.cons_append, List.append_assoc, List.length_append, List.length_cons] at hn ⊢
  unfold Parse.exprs
  refine (h n _ (by simp) (endsExpr_of hc (by decide)) (by omega)).bind ?_
  refine reaches_accept hc (by simp [hrest]) (reaches_pos rfl ?_)
  exact (hmore n _ hrest hk (by omega)).bind reaches_refl

lemma readAs_expr_last (h : ReadAs expr EndsExpr 4 ts e) :
    ReadAs exprs EndsExprs 5 ts [e] := by
  refine readAs_succ fun n rest hrest hk hn => ?_
  unfold Parse.exprs
  refine (h n _ hrest hk.1 (by omega)).bind (reaches_accept_not hk.2 ?_)
  exact reaches_neg (by decide) reaches_refl

end Primary

/-- An operator in front of its operand. -/
lemma readOperand_unary (ht : isUnary t.kind = true) (h : ReadAs unary EndsOperand 2 ts e) :
    ReadOperand 6 (t :: ts) (.operator { place := t.place } t.kind [e] none) := by
  have hunary : ReadAs unary EndsOperand 2 (t :: ts) (.operator { place := t.place } t.kind [e] none) := by
    refine readAs_succ fun n rest hrest hk hn => ?_
    rw [List.length_cons] at hn
    unfold Parse.unary
    refine reaches_current (reaches_pos ht (reaches_advance (by simp [hrest]) ?_))
    exact (h n rest hrest hk (by omega)).bind reaches_refl
  exact ⟨by omega, fun _ => hunary, readBinary_of_unary hunary⟩

lemma le_leftLevel (l : Nat) : l ≤ leftLevel l := by
  unfold leftLevel
  split <;> omega

/-- An operator between its operands. The left one is read on its own level, and the operator is taken
where its right side goes on. -/
lemma readBinary_binary (ht : level? t.kind = some l) (hleft : ReadBinary (leftLevel l) ts e₁)
    (hright : ReadBinary (l + 1) us e₂) :
    ReadBinary l (ts ++ t :: us) (.operator { place := t.place } t.kind [e₁, e₂] none) := by
  intro n least rest hrest hleast hk hn
  simp only [List.cons_append, List.append_assoc, List.length_append, List.length_cons] at hn ⊢
  have hop : Leaves (leftLevel l) (next (t :: (us ++ rest))).kind := by
    refine ⟨endsOperand_of_level? ht, fun l' hl' => ?_⟩
    rw [next_cons, ht] at hl'
    cases hl'
    exact le_rfl
  obtain ⟨m, hm, hreach⟩ := hleft n least _ (by simp) (hleast.trans (le_leftLevel l)) hop (by omega)
  obtain ⟨m, rfl⟩ : ∃ k, m = k + 1 := ⟨m - 1, by omega⟩
  refine ⟨m, by omega, hreach.trans ?_⟩
  rw [Parse.binaryTail]
  refine reaches_current ?_
  simp only [next_cons, ht]
  refine reaches_neg (by omega) (reaches_advance (by simp [hrest]) ?_)
  -- what comes behind the right operand is no operator that binds more tightly
  have hless : ∀ l', level? (next rest).kind = some l' → leftLevel l' ≤ l := hk.2
  obtain ⟨m', hm', hreach'⟩ := hright m (l + 1) rest hrest le_rfl
    ⟨hk.1, fun l' hl' => (hless l' hl').trans (by omega)⟩ (by omega)
  have hstop : Stops (l + 1) (next rest).kind := fun l' hl' => by
    have hle := (le_leftLevel l').trans (hless l' hl')
    omega
  refine (hreach'.trans (reaches_binaryTail_pure (by omega) hstop)).bind (reaches_current ?_)
  refine reaches_neg ?_ reaches_refl
  rintro ⟨rfl, hchain⟩
  have hle := hless _ hchain
  simp [leftLevel] at hle

end Parse

/-! ## Reading back -/

lemma Expr.level_bounds (e : Expr) : 1 ≤ e.level ∧ e.level ≤ 7 := by
  unfold Expr.level
  split
  · omega
  · next op _ _ _ =>
    cases hl : Parse.level? op with
    | none => simp
    | some l =>
      have hbounds := Parse.level?_bounds hl
      rw [Option.getD_some]
      omega
  · omega

lemma Expr.level_binary {k : TokenKind} {l : Nat} {n : Note} {a b : Expr} {g : Option Signature}
    (h : Parse.level? k = some l) : Expr.level (.operator n k [a, b] g) = l := by
  simp [Expr.level, h]

lemma Token.exists_atom? {t : Token} {p : Place} {e : Expr} (h : t.atom? p = some e) (q : Place) :
    e.level = 7 ∧ ∃ e', t.atom? q = some e' ∧ e'.unplaced = e.unplaced := by
  unfold Token.atom? at h ⊢
  split at h
  iterate 7
    next hk =>
      obtain rfl := Option.some.inj h
      exact ⟨rfl, _, rfl, rfl⟩
  · cases h

/-- Tokens are read as the types that they write. -/
def TyWording.ReadFrom : TyWording → List Token → Prop
  | .value t, ts => Parse.ReadAs Parse.type (fun _ => True) 1 ts t
  | .result t, ts => Parse.ReadAs Parse.returnType (fun _ => True) 2 ts t
  | .list tys, ts => Parse.ReadAs Parse.types (· ≠ .comma) 2 ts tys

open Parse in
lemma WritesTy.readFrom {ty : TyWording} {ts : List Token} (h : WritesTy ty ts) : ty.ReadFrom ts := by
  induction h with
  | prim word => exact readAs_prim word
  | array opening _ closing ih => exact readAs_array opening closing ih
  | action opening arrow _ closing ih => exact readAs_func opening arrow closing (.inl ⟨rfl, rfl⟩) ih
  | func opening params arrow _ closing ihparams ihresult =>
    exact readAs_func opening arrow closing (.inr ⟨params.opens, ihparams⟩) ihresult
  | void word => exact readAs_void word
  | returned value ih => exact readAs_value (fun _ => value.value_ne_void) ih
  | last _ ih => exact readAs_type_last ih
  | more _ comma _ ihfirst ihothers => exact readAs_types comma ihfirst ihothers

/-- Tokens are read as the expressions that they write, up to places. -/
def Wording.ReadFrom : Wording → List Token → Prop
  | .bare e, ts => ∃ e', e'.unplaced = e.unplaced ∧ Parse.ReadOperand e.level ts e'
  | .operand least e, ts => least ≤ 7 → ∃ e', e'.unplaced = e.unplaced ∧ Parse.ReadOperand least ts e'
  | .list es, ts => ∃ es', Expr.unplacedAll es' = Expr.unplacedAll es ∧
      Parse.ReadAs Parse.exprs Parse.EndsExprs 5 ts es'

open Parse in
lemma Writes.readFrom {part : Wording} {ts : List Token} (h : Writes part ts) : part.ReadFrom ts := by
  induction h with
  | @atom p e t atom =>
    obtain ⟨hlevel, e', hatom, heq⟩ := Token.exists_atom? atom t.place
    exact ⟨e', heq, (readSuffixed_atom hatom).operand⟩
  | cast opening type closing left _ right ih =>
    obtain ⟨e', heq, hread⟩ := ih (by omega)
    refine ⟨_, ?_, (readSuffixed_cast opening type.readFrom closing left (hread.expr le_rfl) right).operand⟩
    simp only [Expr.unplaced, Expr.unplacedAll, Expr.ofType, Note.unplaced, heq]
  | arrayLiteral opening _ closing ih =>
    obtain ⟨es', heq, hread⟩ := ih
    refine ⟨_, ?_, (readSuffixed_arrayLiteral opening hread closing).operand⟩
    simp only [Expr.unplaced, Note.unplaced, heq]
  | arrayAlloc word opening type closing left _ right ih =>
    obtain ⟨e', heq, hread⟩ := ih (by omega)
    refine ⟨_, ?_,
      (readSuffixed_arrayAlloc word opening type.readFrom closing left (hread.expr le_rfl) right).operand⟩
    simp only [Expr.unplaced, Note.unplaced, heq]
  | index _ opening _ closing iharray ihindex =>
    obtain ⟨a', heq, hread⟩ := iharray (by omega)
    obtain ⟨i', heq', hread'⟩ := ihindex (by omega)
    refine ⟨_, ?_,
      (readSuffixed_index (hread.suffixed rfl) opening (hread'.expr le_rfl) closing).operand⟩
    simp only [Expr.unplaced, Note.unplaced, heq, heq']
  | invoke _ opening closing ih =>
    obtain ⟨f', heq, hread⟩ := ih (by omega)
    refine ⟨_, ?_,
      (readSuffixed_call (hread.suffixed rfl) opening (.inl ⟨rfl, rfl⟩) closing).operand⟩
    simp only [Expr.unplaced, Note.unplaced, heq]
  | call _ opening args closing ihcallee ihargs =>
    obtain ⟨f', heq, hread⟩ := ihcallee (by omega)
    obtain ⟨es', heq', hread'⟩ := ihargs
    refine ⟨_, ?_,
      (readSuffixed_call (hread.suffixed rfl) opening (.inr ⟨args.opens, hread'⟩) closing).operand⟩
    simp only [Expr.unplaced, Note.unplaced, heq, heq']
  | unary op _ ih =>
    obtain ⟨e', heq, hread⟩ := ih (by omega)
    refine ⟨_, ?_, readOperand_unary op (hread.unary le_rfl)⟩
    simp only [Expr.unplaced, Expr.unplacedAll, Note.unplaced, heq]
  | @binary p level a b t ts us op _ _ ihleft ihright =>
    have hbounds := level?_bounds op
    have hlevel : leftLevel level ≤ 5 := by
      unfold leftLevel comparisonLevel
      split <;> omega
    obtain ⟨a', heq, hread⟩ := ihleft (by omega)
    obtain ⟨b', heq', hread'⟩ := ihright (by omega)
    have hbinary : ReadOperand level (ts ++ t :: us) (.operator { place := t.place } t.kind [a', b'] none) :=
      ⟨by omega, by omega, readBinary_binary op hread.binary hread'.binary⟩
    refine ⟨_, ?_, Expr.level_binary op ▸ hbinary⟩
    simp only [Expr.unplaced, Expr.unplacedAll, Note.unplaced, heq, heq']
  | @plain least e ts tight _ ih =>
    intro _
    obtain ⟨e', heq, hread⟩ := ih
    exact ⟨e', heq, hread.mono tight e.level_bounds.2⟩
  | @parens least e a b ts _ left _ right ih =>
    intro _
    obtain ⟨e', heq, hread⟩ := ih
    exact ⟨e', heq, (readSuffixed_parens left right (hread.expr e.level_bounds.1)).operand⟩
  | last _ ih =>
    obtain ⟨e', heq, hread⟩ := ih (by omega)
    refine ⟨[e'], ?_, readAs_expr_last (hread.expr le_rfl)⟩
    simp only [Expr.unplacedAll, heq]
  | more _ comma _ ihfirst ihothers =>
    obtain ⟨e', heq, hread⟩ := ihfirst (by omega)
    obtain ⟨es', heq', hread'⟩ := ihothers
    refine ⟨e' :: es', ?_, readAs_exprs (hread.expr le_rfl) comma hread'⟩
    simp only [Expr.unplacedAll, heq, heq']

end SubrLang
