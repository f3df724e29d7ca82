import SubrLang.Proofs.Readers

/-!
# The parser accepts exactly its language

Tokens that are derivable from the grammar are read without an error and up to their end; together with the
other direction this says what the parser accepts (`Program.parse_accepts_iff`).

**Tokens ahead.** `Parse.Ahead K c` is the assertion of all readers: the tokens ahead are a word of the
language `K`, and the credit `c` pays for them. A reader of a part `N` starts with a word of `N * K` ahead and
ends with one of `K` ahead (`Parse.Reads`). Which alternative it takes is decided by the next token, so the
cases of a proof are the alternatives of the rule.

**What may follow.** Expressions, lists and conditional statements go on as long as the next token allows it.
Their readers leave a word of `K` only if no word of `K` starts with such a token (`Follow`).
-/

namespace SubrLang

open Computability

/-- The words of a language start with tokens of certain kinds. -/
def Follow (K : Language Token) (F : TokenKind → Prop) : Prop := ∀ ts ∈ K, F (Parse.next ts).kind

namespace Follow

variable {K : Language Token} {F : TokenKind → Prop}

lemma mono {F' : TokenKind → Prop} (h : Follow K F) (hF : ∀ k, F k → F' k) : Follow K F' :=
  fun ts hts => hF _ (h ts hts)

lemma of_true : Follow K fun _ => True := fun _ _ => trivial

lemma add {K' : Language Token} (h : Follow K F) (h' : Follow K' F) : Follow (K + K') F := by
  rintro ts (hts | hts)
  · exact h ts hts
  · exact h' ts hts

lemma tok_mul {k : TokenKind} (h : F k) : Follow (tok k * K) F := by
  intro ts hts
  obtain ⟨t, us, rfl, -, rfl⟩ := mem_tok_mul.mp hts
  exact h

/-- A phrase in front of a language. -/
lemma words_mul {p : Phrase} (hp : ∀ k ∈ p.first, F k) (h : Follow K F) : Follow (p.words * K) F := by
  rintro _ ⟨w, hw, us, hus, rfl⟩
  cases w with
  | nil => exact h us hus
  | cons t w => exact hp t.kind (Phrase.Derives.kind_mem_first hw t w rfl)

/-- A phrase without an empty word in front of a language. -/
lemma nonempty_mul {p : Phrase} (hnull : p.nullable = false) (hp : ∀ k ∈ p.first, F k) :
    Follow (p.words * K) F := by
  rintro _ ⟨w, hw, us, hus, rfl⟩
  cases w with
  | nil => exact absurd rfl (Phrase.Derives.ne_nil hw hnull)
  | cons t w => exact hp t.kind (Phrase.Derives.kind_mem_first hw t w rfl)

end Follow

namespace Parse

variable {α β : Type} {ts us : List Token} {Q Q' : α → List Token → Prop} {R : β → List Token → Prop}

/-- A reader gives a result and reports nothing. -/
def Accepts (p : Parse α) (ts : List Token) (Q : α → List Token → Prop) : Prop :=
  ∀ report, ∃ a us, p ⟨ts, report, true⟩ = .ok a ⟨us, report, true⟩ ∧ Q a us

lemma Accepts.imp {p : Parse α} (h : Accepts p ts Q) (hQ : ∀ a us, Q a us → Q' a us) : Accepts p ts Q' := by
  intro report
  obtain ⟨a, us, hp, ha⟩ := h report
  exact ⟨a, us, hp, hQ a us ha⟩

lemma accepts_pure {a : α} (h : Q a ts) : Accepts (pure a) ts Q :=
  fun _ => ⟨a, ts, rfl, h⟩

lemma Accepts.bind {p : Parse α} {f : α → Parse β} (hp : Accepts p ts Q)
    (hf : ∀ a us, Q a us → Accepts (f a) us R) : Accepts (p >>= f) ts R := by
  intro report
  obtain ⟨a, us, hps, ha⟩ := hp report
  obtain ⟨b, vs, hfs, hb⟩ := hf a us ha report
  refine ⟨b, vs, ?_, hb⟩
  have hbind : (p >>= f) ⟨ts, report, true⟩ = EStateM.bind p f ⟨ts, report, true⟩ := rfl
  simp only [hbind, EStateM.bind, hps, hfs]

lemma accepts_guarded {p : Parse α} (h : Accepts p ts Q) :
    Accepts (guarded p) ts fun o us => ∃ a, o = some a ∧ Q a us := by
  intro report
  obtain ⟨a, us, hp, ha⟩ := h report
  exact ⟨some a, us, by simp only [guarded, hp], a, rfl, ha⟩

lemma accepts_current {f : Token → Parse β} (h : Accepts (f (next ts)) ts R) :
    Accepts (current >>= f) ts R := h

lemma accepts_get {f : ParseState → Parse β} (h : ∀ report, Accepts (f ⟨ts, report, true⟩) ts R) :
    Accepts (get >>= f) ts R :=
  fun report => h report report

lemma accepts_peek {f : TokenKind → Parse β} (h : Accepts (f (next ts).kind) ts R) :
    Accepts (peek >>= f) ts R := h

/-! ## Tokens ahead -/

/-- The tokens ahead are a word of `K`, and the credit `c` pays for ten calls for each of them. -/
structure Ahead (K : Language Token) (c : Nat) (ts : List Token) : Prop where
  mem : ts ∈ K
  ended : Ended ts
  credit : 10 * ts.length ≤ c

variable {K L N : Language Token} {c d : Nat} {k : TokenKind}

lemma Ahead.mono (h : Ahead K c ts) (hc : c ≤ d) : Ahead K d ts :=
  ⟨h.mem, h.ended, h.credit.trans hc⟩

lemma Ahead.credit_pos (h : Ahead K c ts) : 0 < c := by
  have := h.ended.length_pos
  have := h.credit
  omega

lemma Ahead.of_add (h : Ahead (K + L) c ts) : Ahead K c ts ∨ Ahead L c ts := by
  obtain ⟨hmem, hended, hcredit⟩ := h
  rcases hmem with hmem | hmem
  · exact .inl ⟨hmem, hended, hcredit⟩
  · exact .inr ⟨hmem, hended, hcredit⟩

/-- One of the alternatives of a phrase is ahead. -/
lemma Ahead.alt {p : Phrase} (h : Ahead (p.words * K) c ts) : ∃ q ∈ p.alts, Ahead (q.words * K) c ts := by
  obtain ⟨q, hq, hmem⟩ := Phrase.exists_alt_of_mem_mul h.mem
  exact ⟨q, hq, hmem, h.ended, h.credit⟩

/-- One of the alternatives of a rule is ahead. -/
lemma Ahead.rule {x : Nonterminal} (h : Ahead (x.words * K) c ts) :
    ∃ p ∈ x.rule.alts, Ahead (p.words * K) c ts :=
  Ahead.alt (x.words_eq ▸ h)

/-- The next token, if a phrase without an empty word is ahead. -/
lemma Ahead.kind_mem_first {p : Phrase} (h : Ahead (p.words * K) c ts) (hp : p.nullable = false) :
    (next ts).kind ∈ p.first :=
  Follow.nonempty_mul hp (fun _ hk => hk) ts h.mem

lemma Ahead.kind_ne {p : Phrase} (h : Ahead (p.words * K) c ts) (hp : p.nullable = false)
    (hk : k ∉ p.first) : (next ts).kind ≠ k := by
  rintro rfl
  exact hk (h.kind_mem_first hp)

lemma Ahead.kind (h : Ahead (tok k * K) c ts) : (next ts).kind = k :=
  (Follow.tok_mul (F := (· = k)) rfl ts h.mem)

/-- An operator ahead. -/
lemma Ahead.op {l : Nat} (h : Ahead (opTok l * K) c ts) :
    level? (next ts).kind = some l ∧ Ahead (tok (next ts).kind * K) c ts := by
  obtain ⟨hmem, hended, hcredit⟩ := h
  obtain ⟨t, us, ht, hus, rfl⟩ := mem_opTok_mul.mp hmem
  exact ⟨ht, mem_tok_mul.mpr ⟨t, us, rfl, hus, rfl⟩, hended, hcredit⟩

/-- Behind a token ahead. -/
lemma Ahead.rest (h : Ahead (tok k * K) c ts) (hk : k ≠ .eof) : Ahead K (c - 10) (rest ts) := by
  obtain ⟨hmem, hended, hcredit⟩ := h
  obtain ⟨t, us, rfl, hus, rfl⟩ := mem_tok_mul.mp hmem
  obtain ⟨hcons, hended⟩ := hended.rest hk
  have hrest : Parse.rest (t :: us) = us := (List.cons.inj hcons).2.symm
  rw [hrest] at hended ⊢
  refine ⟨hus, hended, ?_⟩
  rw [List.length_cons] at hcredit
  omega

lemma accepts_take {f : Unit → Parse β} (h : Ahead (tok k * K) c ts) (hk : k ≠ .eof)
    (hf : ∀ us, Ahead K (c - 10) us → Accepts (f ()) us R) : Accepts (advance >>= f) ts R :=
  hf (rest ts) (h.rest hk)

lemma accepts_pos {b : Prop} [Decidable b] {p q : Parse α} (hb : b) (h : Accepts p ts Q) :
    Accepts (if b then p else q) ts Q := by
  rwa [if_pos hb]

lemma accepts_neg {b : Prop} [Decidable b] {p q : Parse α} (hb : ¬b) (h : Accepts q ts Q) :
    Accepts (if b then p else q) ts Q := by
  rwa [if_neg hb]

lemma accepts_expect {f : Token → Parse β} {what : String} (h : Ahead (tok k * K) c ts) (hk : k ≠ .eof)
    (hf : ∀ t us, Ahead K (c - 10) us → Accepts (f t) us R) : Accepts (expect k what >>= f) ts R := by
  refine Accepts.bind (Q := fun _ us => Ahead K (c - 10) us) ?_ hf
  exact accepts_current (accepts_pos h.kind (accepts_take h hk fun us hus => accepts_pure hus))

/-- The last token of what is read. -/
lemma accepts_close {f : Token → β} {what : String} (h : Ahead (tok k * K) c ts) (hk : k ≠ .eof)
    (hc : c - 10 ≤ d) : Accepts (expect k what >>= fun t => pure (f t)) ts fun _ us => Ahead K d us :=
  accepts_expect h hk fun _ _ hus => accepts_pure (hus.mono hc)

lemma accepts_accept {f : Bool → Parse β} (h : Ahead (tok k * K) c ts) (hk : k ≠ .eof)
    (hf : ∀ us, Ahead K (c - 10) us → Accepts (f true) us R) : Accepts (accept k >>= f) ts R := by
  refine Accepts.bind (Q := fun b us => b = true ∧ Ahead K (c - 10) us) ?_ ?_
  · exact accepts_peek (accepts_pos h.kind (accepts_take h hk fun us hus => accepts_pure ⟨rfl, hus⟩))
  · rintro _ us ⟨rfl, hus⟩
    exact hf us hus

lemma accepts_accept_not {f : Bool → Parse β} (h : (next ts).kind ≠ k) (hf : Accepts (f false) ts R) :
    Accepts (accept k >>= f) ts R := by
  refine Accepts.bind (Q := fun b us => b = false ∧ us = ts) ?_ ?_
  · exact accepts_peek (accepts_neg h (accepts_pure ⟨rfl, rfl⟩))
  · rintro _ _ ⟨rfl, rfl⟩
    exact hf

/-- A reader takes a word of `N` that is ahead and leaves the rest, if the token behind it is of a certain
kind and the credit is at most `b`. -/
def Reads (b : Nat) (N : Language Token) (F : TokenKind → Prop) (p : Parse α) : Prop :=
  ∀ K, Follow K F → ∀ c ≤ b, ∀ ts, Ahead (N * K) c ts → Accepts p ts fun _ us => Ahead K (c - 10) us

lemma Reads.bind {b : Nat} {F : TokenKind → Prop} {p : Parse α} {f : α → Parse β} (hp : Reads b N F p)
    (h : Ahead (N * K) c ts) (hK : Follow K F) (hc : c ≤ b)
    (hf : ∀ a us, Ahead K (c - 10) us → Accepts (f a) us R) : Accepts (p >>= f) ts R :=
  (hp K hK c hc ts h).bind hf

/-- The same, with what is known about the result. -/
def ReadsAs (b : Nat) (N : Language Token) (F : TokenKind → Prop) (P : α → Prop) (p : Parse α) : Prop :=
  ∀ K, Follow K F → ∀ c ≤ b, ∀ ts, Ahead (N * K) c ts → Accepts p ts fun a us => P a ∧ Ahead K (c - 10) us

lemma reads_zero {r : Nat} {F : TokenKind → Prop} {e : ParseStop} :
    Reads (0 - r) N F (throw e : Parse α) := by
  intro K _ c hc ts h
  have := h.credit_pos
  omega

/-! ## Types -/

/-- What the readers of types read. -/
structure TypesRead (n : Nat) : Prop where
  type : Reads (n - 1) Nonterminal.type.words (fun _ => True) (type n)
  types : Reads (n - 2) (Phrase.list Nonterminal.type).words (· ≠ .comma) (types n)
  returnType : Reads (n - 2) Nonterminal.retType.words (fun _ => True) (returnType n)

lemma typesRead (n : Nat) : TypesRead n := by
  induction n with
  | zero => exact ⟨reads_zero, reads_zero, reads_zero⟩
  | succ n ih =>
    constructor
    · intro K _ c hc ts h
      unfold Parse.type
      obtain ⟨p, hp, h⟩ := h.rule
      simp [Nonterminal.rule] at hp
      rcases hp with rfl | rfl | rfl | rfl | rfl | rfl | rfl
      iterate 5
        next =>
          rw [Phrase.words_token] at h
          refine accepts_current ?_
          rw [h.kind]
          exact accepts_take h (by decide) fun us hus => accepts_pure hus
      · simp only [Phrase.words_append_mul, Phrase.words_token, Phrase.words_part] at h
        refine accepts_current ?_
        rw [h.kind]
        refine accepts_take h (by decide) fun us hus => ?_
        refine ih.type.bind hus Follow.of_true (by omega) fun elem us hus => ?_
        exact accepts_close hus (by decide) (by omega)
      · simp only [Phrase.words_append_mul, Phrase.words_token, Phrase.words_part] at h
        have hjoin : ∀ (params : List Ty) (us : List Token),
            Ahead (tok .arrow * (Nonterminal.retType.words * (tok .gt * K))) (c - 10) us → Accepts (do
              let _ ← expect .arrow "'->' in function type"
              let result ← returnType n
              let _ ← expect .gt "'>' to close function type"
              pure (Ty.func params result)) us fun _ us => Ahead K (c - 10) us := by
          intro params us hus
          refine accepts_expect hus (by decide) fun _ us hus => ?_
          refine ih.returnType.bind hus Follow.of_true (by omega) fun result us hus => ?_
          exact accepts_close hus (by decide) (by omega)
        refine accepts_current ?_
        rw [h.kind]
        refine accepts_take h (by decide) fun us hus => accepts_peek ?_
        rw [Phrase.words_opt_mul] at hus
        rcases hus.of_add with hus | hus
        · exact accepts_pos hus.kind (hjoin [] us hus)
        · refine accepts_neg (hus.kind_ne rfl (by decide)) ?_
          refine ih.types.bind hus (Follow.tok_mul (by decide)) (by omega) fun params us hus => ?_
          exact hjoin params us (hus.mono (by omega))
    · intro K hK c hc ts h
      unfold Parse.types
      rw [Phrase.words_list_mul] at h
      refine ih.type.bind h Follow.of_true (by omega) fun t us hus => ?_
      rcases hus.of_add with hus | hus
      · refine accepts_accept_not (hK _ hus.mem) (accepts_neg (by decide) (accepts_pure hus))
      · refine accepts_accept hus (by decide) fun vs hvs => accepts_pos rfl ?_
        refine ih.types.bind hvs hK (by omega) fun _ ws hws => ?_
        exact accepts_pure (hws.mono (by omega))
    · intro K _ c hc ts h
      unfold Parse.returnType
      obtain ⟨p, hp, h⟩ := h.rule
      simp [Nonterminal.rule] at hp
      rcases hp with rfl | rfl
      · refine accepts_accept_not (h.kind_ne rfl (by decide)) ?_
        exact accepts_neg (by decide) (ih.type K Follow.of_true c (by omega) ts h)
      · rw [Phrase.words_token] at h
        exact accepts_accept h (by decide) fun us hus => accepts_pos rfl (accepts_pure hus)

lemma reads_paramList (n : Nat) :
    Reads (n - 3) (Phrase.list Nonterminal.param).words (· ≠ .comma) (paramList n) := by
  induction n with
  | zero => exact reads_zero
  | succ n ih =>
    intro K hK c hc ts h
    unfold Parse.paramList
    have hparam : Nonterminal.param.words = Nonterminal.retType.words * tok .ident := by
      simp [Nonterminal.words_eq .param, Nonterminal.rule]
    rw [Phrase.words_list_mul, Phrase.words_part, hparam, mul_assoc] at h
    refine accepts_current ((typesRead n).returnType.bind h Follow.of_true (by omega) fun d us hus => ?_)
    refine accepts_expect hus (by decide) fun name us hus => ?_
    rcases hus.of_add with hus | hus
    · refine accepts_accept_not (hK _ hus.mem) (accepts_neg (by decide) (accepts_pure ?_))
      exact hus.mono (by omega)
    · refine accepts_accept hus (by decide) fun us hus => accepts_pos rfl ?_
      refine ih.bind hus hK (by omega) fun _ us hus => accepts_pure (hus.mono (by omega))

/-- The parentheses and parameters of a subroutine. -/
lemma accepts_params {n : Nat} {f : List Param → Parse β} (hc : c ≤ n - 3)
    (h : Ahead (tok .lparen * ((Phrase.opt (.list Nonterminal.param)).words * (tok .rparen * K))) c ts)
    (hf : ∀ ps us, Ahead K (c - 20) us → Accepts (f ps) us R) : Accepts (params n >>= f) ts R := by
  refine Accepts.bind (Q := fun _ us => Ahead K (c - 20) us) ?_ hf
  unfold Parse.params
  have hjoin : ∀ (ps : List Param) (us : List Token), Ahead (tok .rparen * K) (c - 10) us → Accepts (do
      let _ ← expect .rparen "')' after parameter list"
      pure ps) us fun _ us => Ahead K (c - 20) us :=
    fun ps us hus => accepts_close hus (by decide) (by omega)
  refine accepts_expect h (by decide) fun _ us hus => accepts_peek ?_
  rw [Phrase.words_opt_mul] at hus
  rcases hus.of_add with hus | hus
  · exact accepts_pos hus.kind (hjoin [] us hus)
  · refine accepts_neg (hus.kind_ne rfl (by decide)) ?_
    refine (reads_paramList n).bind hus (Follow.tok_mul (by decide)) (by omega) fun ps us hus => ?_
    exact hjoin ps us (hus.mono (by omega))

/-! ## Expressions and statements -/

/-- Tokens with which neither an operand nor operators that bind as tightly as `least` go on. -/
def Ends (least : Nat) (k : TokenKind) : Prop := Stops least k ∧ k ≠ .lparen ∧ k ≠ .lbracket

/-- Invocations, or what can be assigned to. -/
def formWords (call : Bool) : Language Token :=
  if call then Nonterminal.invocation.words else Nonterminal.target.words

/-- An expression is an invocation, or can be assigned to. -/
def HasForm (call : Bool) (e : Expr) : Prop := (if call then isInvocation e else isTarget e) = true

/-- The last suffix of an operand, if it is to be an invocation or can be assigned to. -/
def lastSuffix : Option Bool → Language Token
  | none => 1
  | some call => suffixWords call

/-- Tokens with which an operand does not go on. -/
def EndsOperand (k : TokenKind) : Prop := k ≠ .lparen ∧ k ≠ .lbracket

/-- What the readers of expressions and statements read. -/
structure TreesRead (n : Nat) : Prop where
  expr : Reads (n - 4) Nonterminal.expr.words (Ends 1) (expr n)
  exprForm : ∀ call, ReadsAs (n - 4) (formWords call) (Ends 1) (HasForm call) (Parse.expr n)
  binary : ∀ least, 1 ≤ least → least ≤ 6 → Reads (n - 3) (binaryWords least) (Ends least) (binary n least)
  binaryForm : ∀ call, ReadsAs (n - 3) (formWords call) (Ends 1) (HasForm call) (Parse.binary n 1)
  binaryTail : ∀ least level left, 1 ≤ least → level ≤ 5 → ∀ K, Follow K (Ends least) → ∀ c ≤ n - 2, ∀ ts,
    Ahead (fallingTails least level * K) c ts → Accepts (binaryTail n least left) ts fun _ us => Ahead K c us
  unary : Reads (n - 2) Nonterminal.unary.words EndsOperand (unary n)
  unaryForm : ∀ call, ReadsAs (n - 2) (formWords call) EndsOperand (HasForm call) (Parse.unary n)
  postfixTail : ∀ form e K, Follow K EndsOperand → ∀ c ≤ n - 1, ∀ ts,
    Ahead ((suffixWords true + suffixWords false)∗ * (lastSuffix form * K)) c ts →
      Accepts (postfixTail n e) ts fun e us => (∀ call ∈ form, HasForm call e) ∧ Ahead K c us
  exprs : Reads (n - 5) (Phrase.list Nonterminal.expr).words (fun k => Ends 1 k ∧ k ≠ .comma) (exprs n)
  primary : Reads (n - 1) Nonterminal.primary.words (fun _ => True) (primary n)
  parenthesised : ∀ call, ReadsAs (n - 1) (tok .lparen * (formWords call * tok .rparen)) (fun _ => True)
    (HasForm call) (Parse.primary n)
  block : Reads (n - 1) Nonterminal.block.words (fun _ => True) (block n)
  stmts : ∀ K, ∀ c ≤ n - 6, ∀ ts, Ahead (Nonterminal.stmt.words∗ * (tok .rbrace * K)) c ts →
    Accepts (stmts n) ts fun _ us => Ahead (tok .rbrace * K) c us
  stmt : Reads (n - 5) Nonterminal.stmt.words (· ≠ .kwElse) (stmt n)
  conditional : Reads (n - 1) Nonterminal.ifStmt.words (· ≠ .kwElse) (conditional n)
  printItems : Reads (n - 5) printWords (fun _ => True) (printItems n false)
  printRest : ∀ afterValue, Reads (n - 5) (tok .semi + separatorWords * printWords) (fun _ => True)
    (Parse.printItems n afterValue)

lemma Ends.operand {least : Nat} (h : Ends least k) : EndsOperand k := h.2

lemma endsOperand_of_level? {l : Nat} (h : level? k = some l) : EndsOperand k := by
  constructor
  · rintro rfl
    cases h
  · rintro rfl
    cases h

/-- Operators of falling levels in front of a language. -/
lemma follow_fallingTails {F : TokenKind → Prop} {least level : Nat} (hK : Follow K F)
    (hF : ∀ k l, level? k = some l → l ≤ level → F k) : Follow (fallingTails least level * K) F := by
  induction level with
  | zero => rwa [fallingTails, one_mul]
  | succ level ih =>
    by_cases hle : least ≤ level + 1
    · rw [fallingTails_succ_mul hle]
      refine Follow.add (ih fun k l hl hl' => hF k l hl (by omega)) ?_
      intro ts hts
      obtain ⟨t, us, ht, -, rfl⟩ := mem_opTok_mul.mp hts
      exact hF _ _ ht le_rfl
    · rwa [fallingTails, if_pos (by omega), one_mul]

lemma isUnary_of_mem_firstOperand : ∀ k ∈ Nonterminal.firstOperand, isUnary k = false := by
  decide

lemma ends_of {least : Nat} (h : level? k = none ∧ k ≠ .lparen ∧ k ≠ .lbracket) : Ends least k :=
  ⟨fun l hl => by simp [h.1] at hl, h.2⟩

lemma accepts_name {n : Nat} (hn : 0 < n) (h : Ahead (tok .ident * K) c ts) :
    Accepts (primary n) ts fun e us => HasForm false e ∧ Ahead K (c - 10) us := by
  obtain ⟨n, rfl⟩ := Nat.exists_eq_succ_of_ne_zero hn.ne'
  unfold Parse.primary
  refine accepts_current ?_
  rw [h.kind]
  exact accepts_take h (by decide) fun us hus => accepts_pure ⟨rfl, hus⟩

/-- What is ahead if something that can be assigned to, or an invocation, is. -/
lemma Ahead.form {call : Bool} (h : Ahead (formWords call * K) c ts) :
    (call = false ∧ Ahead (tok .ident * K) c ts) ∨
    Ahead (Nonterminal.suffixed.words * (suffixWords call * K)) c ts ∨
    Ahead (tok .lparen * (Parse.formWords call * (tok .rparen * K))) c ts := by
  cases call with
  | true =>
    obtain ⟨p, hp, h⟩ := Ahead.rule (x := .invocation) h
    simp [Nonterminal.rule] at hp
    rcases hp with rfl | rfl
    · exact .inr (.inl (by simpa [suffixWords, mul_assoc] using h))
    · exact .inr (.inr (by simpa [Parse.formWords, mul_assoc] using h))
  | false =>
    obtain ⟨p, hp, h⟩ := Ahead.rule (x := .target) h
    simp [Nonterminal.rule] at hp
    rcases hp with rfl | rfl | rfl
    · exact .inl ⟨rfl, by simpa using h⟩
    · exact .inr (.inl (by simpa [suffixWords, mul_assoc] using h))
    · exact .inr (.inr (by simpa [Parse.formWords, mul_assoc] using h))

/-- Without an operator that binds as tightly as `least` the left operand is the result. -/
lemma accepts_binaryTail_stop {n least : Nat} {left : Expr} (hn : 0 < n) (h : Stops least (next ts).kind) :
    Accepts (binaryTail n least left) ts fun e us => e = left ∧ us = ts := by
  obtain ⟨n, rfl⟩ := Nat.exists_eq_succ_of_ne_zero hn.ne'
  unfold Parse.binaryTail
  refine accepts_current ?_
  cases hl : level? (next ts).kind with
  | none => exact accepts_pure ⟨rfl, rfl⟩
  | some l => exact accepts_pos (h l hl) (accepts_pure ⟨rfl, rfl⟩)

/-- Nothing more is read behind an operand. -/
lemma accepts_postfixTail_stop {n : Nat} {e : Expr} (hn : 0 < n) (h : EndsOperand (next ts).kind) :
    Accepts (postfixTail n e) ts fun e' us => e' = e ∧ us = ts := by
  obtain ⟨n, rfl⟩ := Nat.exists_eq_succ_of_ne_zero hn.ne'
  unfold Parse.postfixTail
  refine accepts_current ?_
  split
  · next heq => exact absurd heq h.1
  · next heq => exact absurd heq h.2
  · exact accepts_pure ⟨rfl, rfl⟩

/-- What stands behind a value in a print statement does not go on with the value. -/
lemma follow_printRest : Follow ((tok .semi + separatorWords * printWords) * K) (Ends 1) := by
  simp only [separatorWords, add_mul, mul_assoc]
  have htok : ∀ k, level? k = none ∧ k ≠ .lparen ∧ k ≠ .lbracket → ∀ K, Follow (tok k * K) (Ends 1) :=
    fun k hk K => Follow.tok_mul (ends_of hk)
  refine (htok _ (by decide) _).add (Follow.add (Follow.add (Follow.add ?_ ?_) ?_) ?_)
  all_goals exact htok _ (by decide) _

section Readers

variable {n : Nat} (ih : TreesRead n)
include ih

lemma reads_expr : Reads (n + 1 - 4) Nonterminal.expr.words (Ends 1) (expr (n + 1)) := by
  intro K hK c hc ts h
  have hwords : binaryWords 1 = Nonterminal.expr.words := by
    simp [binaryWords, Nonterminal.words_eq .expr, Nonterminal.rule]
  rw [← hwords] at h
  exact ih.binary 1 le_rfl (by decide) K hK c (by omega) ts h

lemma reads_exprForm (call : Bool) :
    ReadsAs (n + 1 - 4) (formWords call) (Ends 1) (HasForm call) (expr (n + 1)) :=
  fun K hK c hc ts h => ih.binaryForm call K hK c (by omega) ts h

lemma reads_binary (least : Nat) (hpos : 1 ≤ least) (hsix : least ≤ 6) :
    Reads (n + 1 - 3) (binaryWords least) (Ends least) (binary (n + 1) least) := by
  intro K hK c hc ts h
  unfold Parse.binary
  rw [binaryWords_eq_tails hpos hsix, mul_assoc] at h
  have hfollow : Follow (fallingTails least 5 * K) EndsOperand :=
    follow_fallingTails (hK.mono fun _ h => h.operand) fun k l hl _ => endsOperand_of_level? hl
  refine ih.unary.bind h hfollow (by omega) fun left us hus => ?_
  exact ih.binaryTail least 5 left hpos le_rfl K hK (c - 10) (by omega) us hus

lemma reads_binaryForm (call : Bool) :
    ReadsAs (n + 1 - 3) (formWords call) (Ends 1) (HasForm call) (binary (n + 1) 1) := by
  intro K hK c hc ts h
  unfold Parse.binary
  refine (ih.unaryForm call K (hK.mono fun _ h => h.operand) c (by omega) ts h).bind ?_
  rintro e us ⟨he, hus⟩
  have hpos := hus.credit_pos
  refine (accepts_binaryTail_stop (by omega) (hK us hus.mem).1).imp ?_
  rintro _ _ ⟨rfl, rfl⟩
  exact ⟨he, hus⟩

lemma accepts_binaryTail (least level : Nat) (left : Expr) (hpos : 1 ≤ least) (hlevel : level ≤ 5)
    (hK : Follow K (Ends least)) (hc : c ≤ n + 1 - 2) (h : Ahead (fallingTails least level * K) c ts) :
    Accepts (binaryTail (n + 1) least left) ts fun _ us => Ahead K c us := by
  have hstop : Ahead K c ts → Accepts (binaryTail (n + 1) least left) ts fun _ us => Ahead K c us := by
    intro h
    refine (accepts_binaryTail_stop n.succ_pos (hK ts h.mem).1).imp ?_
    rintro _ _ ⟨-, rfl⟩
    exact h
  -- on the levels: an operator of the highest one comes next, or none of that level
  induction level with
  | zero => exact hstop (by simpa [fallingTails] using h)
  | succ level ihlevel =>
    by_cases hle : least ≤ level + 1
    · rw [fallingTails_succ_mul hle] at h
      rcases h.of_add with h | h
      · exact ihlevel (by omega) h
      · obtain ⟨hop, h⟩ := h.op
        have hbehind : levelBehind (level + 1) ≤ level + 1 := by
          rw [levelBehind]
          split <;> omega
        have hfollow : Follow (fallingTails least (levelBehind (level + 1)) * K) (Ends (level + 2)) := by
          refine follow_fallingTails (hK.mono fun k h => ⟨fun l hl => ?_, h.2⟩) fun k l hl hl' => ?_
          · have := h.1 l hl
            omega
          · refine ⟨fun l' hl'' => ?_, endsOperand_of_level? hl⟩
            obtain rfl : l = l' := Option.some.inj (hl.symm.trans hl'')
            omega
        have hchain : Follow (fallingTails least (levelBehind (level + 1)) * K)
            fun k => ¬(level + 1 = comparisonLevel ∧ level? k = some comparisonLevel) := by
          refine follow_fallingTails (hK.mono fun k h hcmp => ?_) fun k l hl hl' hcmp => ?_
          · have := h.1 _ hcmp.2
            omega
          · obtain rfl : l = comparisonLevel := Option.some.inj (hl.symm.trans hcmp.2)
            rw [levelBehind, if_pos hcmp.1] at hl'
            omega
        unfold Parse.binaryTail
        refine accepts_current ?_
        rw [hop]
        refine accepts_neg (by omega) (accepts_take h (ne_eof_of_level? hop) fun us hus => ?_)
        refine (ih.binary (level + 2) (by omega) (by omega)).bind hus hfollow (by omega) fun right us hus => ?_
        refine accepts_current (accepts_neg (hchain us hus.mem) ?_)
        refine (ih.binaryTail least _ _ hpos (by omega) K hK _ (by omega) us hus).imp fun _ us hus => ?_
        exact hus.mono (by omega)
    · rw [fallingTails, if_pos (by omega), one_mul] at h
      exact hstop h

lemma reads_unary : Reads (n + 1 - 2) Nonterminal.unary.words EndsOperand (unary (n + 1)) := by
  intro K hK c hc ts h
  unfold Parse.unary
  obtain ⟨p, hp, h⟩ := h.rule
  simp [Nonterminal.rule] at hp
  rcases hp with rfl | rfl
  · rw [Phrase.words_append_mul] at h
    obtain ⟨q, hq, h⟩ := h.alt
    obtain ⟨k, rfl, hk⟩ : ∃ k, q = .token k ∧ isUnary k = true := by
      simp at hq
      rcases hq with rfl | rfl | rfl | rfl <;> exact ⟨_, rfl, rfl⟩
    rw [Phrase.words_token] at h
    refine accepts_current (accepts_pos (by rw [h.kind, hk]) ?_)
    refine accepts_take h (ne_eof_of_isUnary hk) fun us hus => ?_
    refine ih.unary.bind hus hK (by omega) fun e us hus => accepts_pure (hus.mono (by omega))
  · have hfirst := isUnary_of_mem_firstOperand _ (h.kind_mem_first rfl)
    rw [Phrase.words_part, words_suffixed, mul_assoc] at h
    refine accepts_current (accepts_neg (by simp [hfirst]) ?_)
    refine ih.primary.bind h Follow.of_true (by omega) fun e us hus => ?_
    rw [← one_mul K] at hus
    exact (ih.postfixTail none e K hK (c - 10) (by omega) us hus).imp fun _ _ h => h.2

lemma reads_unaryForm (call : Bool) :
    ReadsAs (n + 1 - 2) (formWords call) EndsOperand (HasForm call) (unary (n + 1)) := by
  intro K hK c hc ts h
  unfold Parse.unary
  -- behind a whole operand nothing more is read
  have hstop : ∀ e us, HasForm call e ∧ Ahead K (c - 10) us →
      Accepts (postfixTail n e) us fun e us => HasForm call e ∧ Ahead K (c - 10) us := by
    rintro e us ⟨he, hus⟩
    have hpos := hus.credit_pos
    refine (accepts_postfixTail_stop (by omega) (hK us hus.mem)).imp ?_
    rintro _ _ ⟨rfl, rfl⟩
    exact ⟨he, hus⟩
  rcases h.form with ⟨rfl, hname⟩ | h | h
  · refine accepts_current (accepts_neg (by rw [hname.kind]; decide) (Accepts.bind ?_ hstop))
    have hpos := hname.credit_pos
    exact accepts_name (by omega) hname
  · have hfirst := isUnary_of_mem_firstOperand _ (Ahead.kind_mem_first (p := Nonterminal.suffixed) h rfl)
    rw [words_suffixed, mul_assoc] at h
    refine accepts_current (accepts_neg (by simp [hfirst]) ?_)
    refine ih.primary.bind h Follow.of_true (by omega) fun e us hus => ?_
    refine (ih.postfixTail (some call) e K hK (c - 10) (by omega) us hus).imp fun e us h => ?_
    exact ⟨h.1 call rfl, h.2⟩
  · refine accepts_current (accepts_neg (by rw [h.kind]; decide) (Accepts.bind ?_ hstop))
    refine ih.parenthesised call K Follow.of_true c (by omega) ts ?_
    simpa only [mul_assoc] using h

/-- An argument list or an index behind an operand. -/
lemma accepts_suffix (call : Bool) (e : Expr) {Q : Expr → List Token → Prop} (hc : c ≤ n + 1 - 1)
    (h : Ahead (suffixWords call * K) c ts)
    (hrest : ∀ e us, HasForm call e → Ahead K (c - 20) us → Accepts (postfixTail n e) us Q) :
    Accepts (postfixTail (n + 1) e) ts Q := by
  unfold Parse.postfixTail
  cases call with
  | true =>
    rw [suffixWords, if_pos rfl, mul_assoc, mul_assoc] at h
    have hjoin : ∀ (args : List Expr) (us : List Token), Ahead (tok .rparen * K) (c - 10) us → Accepts (do
        let _ ← expect .rparen "')' after function arguments"
        postfixTail n (.call { place := (next ts).place } e args)) us Q :=
      fun args us hus => accepts_expect hus (by decide) fun _ us hus => hrest _ us rfl (hus.mono (by omega))
    refine accepts_current ?_
    rw [h.kind]
    refine accepts_take h (by decide) fun us hus => accepts_peek ?_
    rw [Phrase.words_opt_mul] at hus
    rcases hus.of_add with hus | hus
    · exact accepts_pos hus.kind (hjoin [] us hus)
    · refine accepts_neg (hus.kind_ne rfl (by decide)) ?_
      refine ih.exprs.bind hus (Follow.tok_mul ⟨ends_of (by decide), by decide⟩) (by omega) ?_
      exact fun args us hus => hjoin args us (hus.mono (by omega))
  | false =>
    rw [suffixWords, if_neg (by decide), mul_assoc, mul_assoc] at h
    refine accepts_current ?_
    rw [h.kind]
    refine accepts_take h (by decide) fun us hus => ?_
    refine ih.expr.bind hus (Follow.tok_mul (ends_of (by decide))) (by omega) fun index us hus => ?_
    exact accepts_expect hus (by decide) fun _ us hus => hrest _ us rfl (hus.mono (by omega))

lemma accepts_postfixTail (form : Option Bool) (e : Expr) (hK : Follow K EndsOperand) (hc : c ≤ n + 1 - 1)
    (h : Ahead ((suffixWords true + suffixWords false)∗ * (lastSuffix form * K)) c ts) :
    Accepts (postfixTail (n + 1) e) ts fun e us => (∀ call ∈ form, HasForm call e) ∧ Ahead K c us := by
  rw [kstar_mul_eq, add_mul] at h
  have hsuffix : ∀ any, Ahead (suffixWords any *
      ((suffixWords true + suffixWords false)∗ * (lastSuffix form * K))) c ts →
      Accepts (postfixTail (n + 1) e) ts fun e us => (∀ call ∈ form, HasForm call e) ∧ Ahead K c us := by
    intro any h
    refine accepts_suffix ih any e hc h fun e us _ hus => ?_
    refine (ih.postfixTail form e K hK (c - 20) (by omega) us hus).imp ?_
    exact fun _ us hus => ⟨hus.1, hus.2.mono (by omega)⟩
  rcases h.of_add with h | h
  · cases form with
    | none =>
      rw [lastSuffix, one_mul] at h
      refine (accepts_postfixTail_stop n.succ_pos (hK ts h.mem)).imp ?_
      rintro _ _ ⟨-, rfl⟩
      exact ⟨by simp, h⟩
    | some call =>
      refine accepts_suffix ih call e hc h fun e us he hus => ?_
      have hpos := hus.credit_pos
      refine (accepts_postfixTail_stop (by omega) (hK us hus.mem)).imp ?_
      rintro _ _ ⟨rfl, rfl⟩
      exact ⟨by simpa using he, hus.mono (by omega)⟩
  · rcases h.of_add with h | h
    · exact hsuffix true h
    · exact hsuffix false h

lemma reads_exprs : Reads (n + 1 - 5) (Phrase.list Nonterminal.expr).words (fun k => Ends 1 k ∧ k ≠ .comma)
    (exprs (n + 1)) := by
  intro K hK c hc ts h
  unfold Parse.exprs
  rw [Phrase.words_list_mul] at h
  have hfollow : Follow (K + tok .comma * ((Phrase.list Nonterminal.expr).words * K)) (Ends 1) :=
    Follow.add (hK.mono fun _ h => h.1) (Follow.tok_mul (ends_of (by decide)))
  refine ih.expr.bind h hfollow (by omega) fun e us hus => ?_
  rcases hus.of_add with hus | hus
  · exact accepts_accept_not (hK _ hus.mem).2 (accepts_neg (by decide) (accepts_pure hus))
  · refine accepts_accept hus (by decide) fun us hus => accepts_pos rfl ?_
    exact ih.exprs.bind hus hK (by omega) fun _ us hus => accepts_pure (hus.mono (by omega))

lemma reads_parenthesised (call : Bool) : ReadsAs (n + 1 - 1)
    (tok .lparen * (formWords call * tok .rparen)) (fun _ => True) (HasForm call) (primary (n + 1)) := by
  intro K _ c hc ts h
  unfold Parse.primary
  simp only [mul_assoc] at h
  refine accepts_current ?_
  rw [h.kind]
  refine accepts_take h (by decide) fun us hus => ?_
  refine (ih.exprForm call _ (Follow.tok_mul (ends_of (by decide))) _ (by omega) us hus).bind ?_
  rintro e us ⟨he, hus⟩
  exact accepts_expect hus (by decide) fun _ us hus => accepts_pure ⟨he, hus.mono (by omega)⟩

lemma reads_primary : Reads (n + 1 - 1) Nonterminal.primary.words (fun _ => True) (primary (n + 1)) := by
  intro K _ c hc ts h
  unfold Parse.primary
  obtain ⟨p, hp, h⟩ := h.rule
  simp [Nonterminal.rule] at hp
  rcases hp with rfl | rfl | rfl | rfl | rfl | rfl | rfl | rfl | rfl | rfl | rfl | rfl
  -- literals and names
  iterate 7
    next =>
      rw [Phrase.words_token] at h
      refine accepts_current ?_
      rw [h.kind]
      exact accepts_take h (by decide) fun us hus => accepts_pure hus
  all_goals
    simp only [Phrase.words_append_mul, Phrase.words_token, Phrase.words_part] at h
    refine accepts_current ?_
    rw [h.kind]
    refine accepts_take h (by decide) fun us hus => ?_
  · refine ih.expr.bind hus (Follow.tok_mul (ends_of (by decide))) (by omega) fun e us hus => ?_
    exact accepts_close hus (by decide) (by omega)
  · refine (typesRead n).type.bind hus Follow.of_true (by omega) fun target us hus => ?_
    refine accepts_expect hus (by decide) fun _ us hus => accepts_expect hus (by decide) fun _ us hus => ?_
    refine ih.expr.bind hus (Follow.tok_mul (ends_of (by decide))) (by omega) fun e us hus => ?_
    exact accepts_close hus (by decide) (by omega)
  · refine ih.exprs.bind hus (Follow.tok_mul ⟨ends_of (by decide), by decide⟩) (by omega) fun es us hus => ?_
    exact accepts_close hus (by decide) (by omega)
  · refine accepts_expect hus (by decide) fun _ us hus => ?_
    refine (typesRead n).type.bind hus Follow.of_true (by omega) fun elem us hus => ?_
    refine accepts_expect hus (by decide) fun _ us hus => accepts_expect hus (by decide) fun _ us hus => ?_
    refine ih.expr.bind hus (Follow.tok_mul (ends_of (by decide))) (by omega) fun e us hus => ?_
    exact accepts_close hus (by decide) (by omega)
  · refine accepts_get fun report => accepts_neg (by simp) ?_
    refine (typesRead n).returnType.bind hus Follow.of_true (by omega) fun result us hus => ?_
    refine accepts_params (by omega) hus fun ps us hus => ?_
    exact ih.block.bind hus Follow.of_true (by omega) fun b us hus => accepts_pure (hus.mono (by omega))

lemma reads_block : Reads (n + 1 - 1) Nonterminal.block.words (fun _ => True) (block (n + 1)) := by
  intro K _ c hc ts h
  unfold Parse.block
  have hwords : Nonterminal.block.words * K =
      tok .lbrace * (Nonterminal.stmt.words∗ * (tok .rbrace * K)) := by
    simp [Nonterminal.words_eq .block, Nonterminal.rule, mul_assoc]
  rw [hwords] at h
  refine accepts_expect h (by decide) fun _ us hus => ?_
  refine (ih.stmts K (c - 10) (by omega) us hus).bind fun body us hus => ?_
  exact accepts_close hus (by decide) (by omega)

lemma accepts_stmts (hc : c ≤ n + 1 - 6) (h : Ahead (Nonterminal.stmt.words∗ * (tok .rbrace * K)) c ts) :
    Accepts (stmts (n + 1)) ts fun _ us => Ahead (tok .rbrace * K) c us := by
  unfold Parse.stmts
  rw [kstar_mul_eq] at h
  rcases h.of_add with h | h
  · exact accepts_peek (accepts_pos (.inl h.kind) (accepts_pure h))
  · have hfollow : Follow (Nonterminal.stmt.words∗ * (tok .rbrace * K)) (· ≠ .kwElse) := by
      rw [← Phrase.words_part, ← Phrase.words_many]
      exact Follow.words_mul (by decide) (Follow.tok_mul (by decide))
    have hrbrace := Ahead.kind_ne (p := Nonterminal.stmt) h rfl (k := .rbrace) (by decide)
    have heof := Ahead.kind_ne (p := Nonterminal.stmt) h rfl (k := .eof) (by decide)
    refine accepts_peek (accepts_neg (by simp [hrbrace, heof]) ?_)
    refine (accepts_guarded (ih.stmt _ hfollow c (by omega) ts h)).bind ?_
    rintro _ us ⟨s, rfl, hus⟩
    refine (ih.stmts K (c - 10) (by omega) us hus).bind fun ss us hus => ?_
    exact accepts_pure (hus.mono (by omega))

lemma reads_conditional :
    Reads (n + 1 - 1) Nonterminal.ifStmt.words (· ≠ .kwElse) (conditional (n + 1)) := by
  intro K hK c hc ts h
  unfold Parse.conditional
  obtain ⟨p, hp, h⟩ := h.rule
  obtain rfl := by simpa [Nonterminal.rule] using hp
  simp only [Phrase.words_append_mul, Phrase.words_token, Phrase.words_part] at h
  refine accepts_expect h (by decide) fun t us hus => ?_
  refine ih.expr.bind hus ?_ (by omega) fun e us hus => ?_
  · exact Follow.nonempty_mul (p := Nonterminal.block) rfl (fun k hk => ends_of (by revert k; decide))
  refine ih.block.bind hus Follow.of_true (by omega) fun b us hus => ?_
  rw [Phrase.words_opt_mul] at hus
  rcases hus.of_add with hus | hus
  · refine accepts_accept_not (hK us hus.mem) (accepts_neg (by decide) (accepts_pure ?_))
    exact hus.mono (by omega)
  · rw [Phrase.words_append_mul, Phrase.words_token] at hus
    refine accepts_accept hus (by decide) fun us hus => accepts_pos rfl (accepts_current ?_)
    obtain ⟨q, hq, hus⟩ := hus.alt
    simp at hq
    rcases hq with rfl | rfl
    · refine accepts_neg (hus.kind_ne rfl (by decide)) ?_
      exact ih.block.bind hus Follow.of_true (by omega) fun a us hus => accepts_pure (hus.mono (by omega))
    · have hkind : (next us).kind = .kwIf := by simpa [Phrase.first, Nonterminal.first] using hus.kind_mem_first rfl
      refine accepts_pos hkind ?_
      exact ih.conditional.bind hus hK (by omega) fun a us hus => accepts_pure (hus.mono (by omega))

lemma reads_printRest (afterValue : Bool) : Reads (n + 1 - 5) (tok .semi + separatorWords * printWords)
    (fun _ => True) (printItems (n + 1) afterValue) := by
  intro K hK c hc ts h
  have hnext : ∀ us, Ahead (printWords * K) (c - 10) us →
      Accepts (printItems n false) us fun _ us => Ahead K (c - 10) us := by
    intro us hus
    exact (ih.printItems K hK _ (by omega) us hus).imp fun _ us hus => hus.mono (by omega)
  have hprinted : ∀ k, k ≠ .semi → k ≠ .printSep → (separator? k).isSome →
      Ahead (tok k * (printWords * K)) c ts →
        Accepts (printItems (n + 1) afterValue) ts fun _ us => Ahead K (c - 10) us := by
    intro k hsemi hsep hsome h
    obtain ⟨x, hx⟩ := Option.isSome_iff_exists.mp hsome
    unfold Parse.printItems
    refine accepts_current (accepts_neg (by rwa [h.kind]) (accepts_neg (by rwa [h.kind]) ?_))
    rw [h.kind, hx]
    refine accepts_take h (by rintro rfl; cases hx) fun us hus => ?_
    exact (hnext us hus).bind fun _ us hus => accepts_pure hus
  simp only [separatorWords, add_mul, mul_assoc] at h
  rcases h.of_add with h | h
  · unfold Parse.printItems
    refine accepts_current (accepts_pos h.kind ?_)
    exact accepts_take h (by decide) fun us hus => accepts_pure hus
  rcases h.of_add with h | h
  · rcases h.of_add with h | h
    · rcases h.of_add with h | h
      · unfold Parse.printItems
        refine accepts_current (accepts_neg (by rw [h.kind]; decide) (accepts_pos h.kind ?_))
        exact accepts_take h (by decide) hnext
      · exact hprinted .printSpace (by decide) (by decide) rfl h
    · exact hprinted .printNewline (by decide) (by decide) rfl h
  · exact hprinted .printTab (by decide) (by decide) rfl h

lemma reads_printItems : Reads (n + 1 - 5) printWords (fun _ => True) (printItems (n + 1) false) := by
  intro K hK c hc ts h
  rw [printWords_eq, mul_assoc, add_mul, one_mul] at h
  rcases h.of_add with h | h
  · exact reads_printRest ih false K hK c hc ts h
  · have hsep : ∀ k ∈ Nonterminal.expr.first, separator? k = none := by decide
    unfold Parse.printItems
    refine accepts_current (accepts_neg (Ahead.kind_ne (p := Nonterminal.expr) h rfl (by decide)) ?_)
    refine accepts_neg (Ahead.kind_ne (p := Nonterminal.expr) h rfl (by decide)) ?_
    rw [hsep _ (Ahead.kind_mem_first (p := Nonterminal.expr) h rfl)]
    refine accepts_neg (by decide) (ih.expr.bind h follow_printRest (by omega) fun e us hus => ?_)
    refine (ih.printRest true).bind hus Follow.of_true (by omega) fun _ us hus => ?_
    exact accepts_pure (hus.mono (by omega))

lemma reads_stmt : Reads (n + 1 - 5) Nonterminal.stmt.words (· ≠ .kwElse) (stmt (n + 1)) := by
  intro K hK c hc ts h
  unfold Parse.stmt
  obtain ⟨p, hp, h⟩ := h.rule
  simp [Nonterminal.rule] at hp
  have hends : ∀ k, level? k = none ∧ k ≠ .lparen ∧ k ≠ .lbracket → ∀ K, Follow (tok k * K) (Ends 1) :=
    fun k hk K => Follow.tok_mul (ends_of hk)
  rcases hp with rfl | rfl | rfl | rfl | rfl | rfl | rfl | rfl
  all_goals simp only [Phrase.words_append_mul, Phrase.words_token, Phrase.words_part] at h
  · obtain ⟨q, hq, h⟩ := h.alt
    simp at hq
    rcases hq with rfl | rfl
    all_goals
      rw [Phrase.words_token] at h
      refine accepts_current ?_
      rw [h.kind]
      refine accepts_take h (by decide) fun us hus => accepts_expect hus (by decide) fun name us hus => ?_
      refine accepts_expect hus (by decide) fun _ us hus => ?_
      refine ih.expr.bind hus (hends _ (by decide) _) (by omega) fun e us hus => ?_
      exact accepts_close hus (by decide) (by omega)
  · have hfirst := Ahead.kind_mem_first (p := Nonterminal.target) h rfl
    refine accepts_current ?_
    dsimp only
    split
    iterate 8
      next heq =>
        rw [heq] at hfirst
        exact absurd hfirst (by decide)
    refine (ih.exprForm false _ (hends _ (by decide) _) _ (by omega) ts h).bind ?_
    rintro e us ⟨he, hus⟩
    have htarget : isTarget e = true := he
    refine accepts_neg (by simp [htarget]) (accepts_expect hus (by decide) fun d us hus => ?_)
    refine ih.expr.bind hus (hends _ (by decide) _) (by omega) fun v us hus => ?_
    exact accepts_close hus (by decide) (by omega)
  · refine accepts_current ?_
    rw [h.kind]
    refine accepts_take h (by decide) fun us hus => ?_
    have hus' : Ahead (printWords * K) (c - 10) us := by
      simpa [printWords, separatorWords, mul_assoc] using hus
    refine ih.printItems.bind hus' Follow.of_true (by omega) fun is us hus => ?_
    exact accepts_pure (hus.mono (by omega))
  · refine accepts_current ?_
    rw [h.kind]
    refine accepts_take h (by decide) fun us hus => ?_
    refine (ih.exprForm true _ (hends _ (by decide) _) _ (by omega) us hus).bind ?_
    rintro e us ⟨he, hus⟩
    have hinvocation : isInvocation e = true := he
    refine accepts_neg (by simp [hinvocation]) ?_
    exact accepts_close hus (by decide) (by omega)
  · refine accepts_current ?_
    rw [h.kind]
    refine accepts_take h (by decide) fun us hus => ?_
    rw [Phrase.words_opt_mul] at hus
    rcases hus.of_add with hus | hus
    · exact accepts_accept hus (by decide) fun us hus => accepts_pos rfl (accepts_pure (hus.mono (by omega)))
    · refine accepts_accept_not (hus.kind_ne rfl (by decide)) (accepts_neg (by decide) ?_)
      refine ih.expr.bind hus (hends _ (by decide) _) (by omega) fun e us hus => ?_
      exact accepts_close hus (by decide) (by omega)
  · have hkind : (next ts).kind = .kwIf := by
      simpa [Phrase.first, Nonterminal.first] using Ahead.kind_mem_first (p := Nonterminal.ifStmt) h rfl
    refine accepts_current ?_
    rw [hkind]
    exact ih.conditional K hK c (by omega) ts h
  · refine accepts_current ?_
    rw [h.kind]
    refine accepts_take h (by decide) fun us hus => ?_
    refine ih.expr.bind hus ?_ (by omega) fun e us hus => ?_
    · exact Follow.nonempty_mul (p := Nonterminal.block) rfl (fun k hk => ends_of (by revert k; decide))
    exact ih.block.bind hus Follow.of_true (by omega) fun b us hus => accepts_pure (hus.mono (by omega))
  · have hkind : (next ts).kind = .lbrace := by
      simpa [Phrase.first, Nonterminal.first] using Ahead.kind_mem_first (p := Nonterminal.block) h rfl
    refine accepts_current ?_
    rw [hkind]
    exact ih.block.bind h Follow.of_true (by omega) fun b us hus => accepts_pure hus

end Readers

lemma treesRead (n : Nat) : TreesRead n := by
  induction n with
  | zero =>
    have hpos : ∀ {K : Language Token} {c : Nat} {ts : List Token}, c ≤ 0 → ¬ Ahead K c ts := by
      intro K c ts hc h
      have := h.credit_pos
      omega
    exact {
      expr := reads_zero
      exprForm := fun _ K _ c hc ts h => absurd h (hpos (by omega))
      binary := fun _ _ _ => reads_zero
      binaryForm := fun _ K _ c hc ts h => absurd h (hpos (by omega))
      binaryTail := fun _ _ _ _ _ K _ c hc ts h => absurd h (hpos (by omega))
      unary := reads_zero
      unaryForm := fun _ K _ c hc ts h => absurd h (hpos (by omega))
      postfixTail := fun _ _ K _ c hc ts h => absurd h (hpos (by omega))
      exprs := reads_zero
      primary := reads_zero
      parenthesised := fun _ K _ c hc ts h => absurd h (hpos (by omega))
      block := reads_zero
      stmts := fun K c hc ts h => absurd h (hpos (by omega))
      stmt := reads_zero
      conditional := reads_zero
      printItems := reads_zero
      printRest := fun _ => reads_zero }
  | succ n ih =>
    exact {
      expr := reads_expr ih
      exprForm := reads_exprForm ih
      binary := reads_binary ih
      binaryForm := reads_binaryForm ih
      binaryTail := fun least level left hpos hlevel K hK c hc ts h =>
        accepts_binaryTail ih least level left hpos hlevel hK hc h
      unary := reads_unary ih
      unaryForm := reads_unaryForm ih
      postfixTail := fun form e K hK c hc ts h => accepts_postfixTail ih form e hK hc h
      exprs := reads_exprs ih
      primary := reads_primary ih
      parenthesised := reads_parenthesised ih
      block := reads_block ih
      stmts := fun K c hc ts h => accepts_stmts ih hc h
      stmt := reads_stmt ih
      conditional := reads_conditional ih
      printItems := reads_printItems ih
      printRest := reads_printRest ih }

/-! ## Programs -/

lemma reads_func (depth : Nat) : Reads (depth - 3) Nonterminal.funcDef.words (fun _ => True) (func depth) := by
  intro K _ c hc ts h
  unfold Parse.func
  obtain ⟨p, hp, h⟩ := h.rule
  obtain rfl := by simpa [Nonterminal.rule] using hp
  simp only [Phrase.words_append_mul, Phrase.words_token, Phrase.words_part] at h
  refine accepts_expect h (by decide) fun t us hus => ?_
  refine (typesRead depth).returnType.bind hus Follow.of_true (by omega) fun result us hus => ?_
  refine accepts_expect hus (by decide) fun name us hus => accepts_params (by omega) hus fun ps us hus => ?_
  refine (treesRead depth).block.bind hus Follow.of_true (by omega) fun b us hus => ?_
  exact accepts_pure (hus.mono (by omega))

lemma reads_guardedFunc (depth : Nat) :
    Reads (depth - 3) Nonterminal.funcDef.words (fun _ => True) (guardedFunc depth) := by
  intro K hK c hc ts h
  unfold Parse.guardedFunc
  refine (accepts_guarded (reads_func depth K hK c hc ts h)).bind ?_
  rintro _ us ⟨f, rfl, hus⟩
  exact accepts_peek (accepts_neg (by simp) (accepts_pure hus))

lemma accepts_funcs (depth bound : Nat) (hc : c ≤ depth - 3) (hbound : c ≤ bound)
    (h : Ahead (Nonterminal.funcDef.words∗ * (tok .kwMain * K)) c ts) :
    Accepts (funcs depth bound) ts fun _ us => Ahead (tok .kwMain * K) c us := by
  induction bound generalizing c ts with
  | zero =>
    have := h.credit_pos
    omega
  | succ bound ih =>
    unfold Parse.funcs
    rw [kstar_mul_eq] at h
    rcases h.of_add with h | h
    · exact accepts_peek (accepts_neg (by rw [h.kind]; decide) (accepts_pure h))
    · have hkind : (next ts).kind = .kwSubr := by
        simpa [Phrase.first, Nonterminal.first] using Ahead.kind_mem_first (p := Nonterminal.funcDef) h rfl
      refine accepts_peek (accepts_pos hkind ?_)
      refine (reads_guardedFunc depth).bind h Follow.of_true hc fun f us hus => ?_
      refine (ih (by omega) (by omega) hus).bind fun fs us hus => ?_
      exact accepts_pure (hus.mono (by omega))

/-- Derivable tokens are read up to the end of input. -/
lemma accepts_program {body : List Token} {last : Token} (hlast : last.kind = .eof) (h : (Phrase.part .program).Derives body) :
    Accepts (program (parseDepth (body ++ [last]))) (body ++ [last]) fun _ us => us = [last] := by
  have hended : Ended (body ++ [last]) := by simp [Ended, hlast]
  have hahead : Ahead (Nonterminal.program.words * {[last]}) (10 * (body ++ [last]).length) (body ++ [last]) :=
    ⟨Language.append_mem_mul h rfl, hended, le_rfl⟩
  obtain ⟨p, hp, hahead⟩ := hahead.rule
  obtain rfl := by simpa [Nonterminal.rule] using hp
  simp only [Phrase.words_append_mul, Phrase.words_token, Phrase.words_part, Phrase.words_many] at hahead
  unfold Parse.program
  refine accepts_current ((accepts_funcs _ _ ?_ ?_ hahead).bind fun fs us hus => ?_)
  · rw [parseDepth]
    omega
  · rw [parseDepth]
    omega
  refine accepts_accept hus (by decide) fun us hus => accepts_pos rfl ?_
  refine (accepts_guarded ((treesRead _).block _ Follow.of_true _ ?_ us hus)).bind ?_
  · rw [parseDepth]
    omega
  rintro _ us ⟨b, rfl, hus⟩
  have hus : us = [last] := hus.mem
  subst hus
  exact accepts_current (accepts_neg (by simpa [next] using hlast) (accepts_pure rfl))

/-- Tokens that are read without an error are derivable, and all of them are read. -/
lemma derives_of_clean {body : List Token} {last : Token} {report : Report} (hlast : last.kind = .eof)
    (hbody : ∀ t ∈ body, t.kind ≠ .eof)
    (hclean : (Program.parse (body ++ [last]) report).2.errorCount = report.errorCount) :
    (Phrase.part .program).Derives body := by
  have hended : Ended (body ++ [last]) := by simp [Ended, hlast]
  obtain ⟨p, s, hrun, htook, hstop⟩ := exists_program hended report true
  rw [Program.parse, hrun _ le_rfl] at hclean
  obtain ⟨hend, -, u, hu, -, -, hmem⟩ := htook hended
  have hkind : (next s.tokens).kind = .eof := hstop.resolve_right fun h => by
    obtain ⟨-, -, v, -, -, -, hnone⟩ := h hended
    exact Language.notMem_zero _ (hnone hclean)
  -- the end of input stands at the end only, so that is where reading stopped
  rcases List.append_eq_append_iff.mp hu with ⟨_ | ⟨t, ts⟩, rfl, htokens⟩ | ⟨_ | ⟨t, ts⟩, rfl, htokens⟩
  · rw [List.append_nil]
    exact hmem hclean
  · rw [htokens] at hkind
    exact absurd hkind (hbody t (by simp))
  · rw [List.append_nil] at hmem
    exact hmem hclean
  · simp_all [Ended]

end Parse

/-- **The parser accepts exactly its language.** Of tokens that end with the end of input, which stands
nowhere else, no error is reported if and only if the ones in front of it are derivable from the grammar.
Then all of them have been read. -/
theorem Program.parse_accepts_iff (body : List Token) (last : Token) (report : Report)
    (hlast : last.kind = .eof) (hbody : ∀ t ∈ body, t.kind ≠ .eof) :
    ((Program.parse (body ++ [last]) report).2.errorCount = report.errorCount ↔
      (Phrase.part .program).Derives body) ∧
    ((Phrase.part .program).Derives body → ∃ p,
      Parse.program (parseDepth (body ++ [last])) ⟨body ++ [last], report, true⟩ =
        .ok p ⟨[last], report, true⟩) := by
  have hread : (Phrase.part .program).Derives body → ∃ p,
      Parse.program (parseDepth (body ++ [last])) ⟨body ++ [last], report, true⟩ =
        .ok p ⟨[last], report, true⟩ := by
    intro h
    obtain ⟨p, _, hrun, rfl⟩ := Parse.accepts_program hlast h report
    exact ⟨p, hrun⟩
  refine ⟨⟨fun hclean => ?_, fun h => ?_⟩, hread⟩
  · exact Parse.derives_of_clean hlast hbody hclean
  · obtain ⟨p, hrun⟩ := hread h
    rw [Program.parse, hrun]

/-- `main { call (f)(<int>(x) < y); }` -/
def comparedArgument : List Token :=
  [.kwMain, .lbrace, .kwCall, .lparen, .ident, .rparen, .lparen, .lt, .kwInt, .gt, .lparen, .ident, .rparen,
    .lt, .ident, .rparen, .semi, .rbrace].map fun k => { kind := k }

/-- `main { x := y < y < y; }` -/
def chainedComparison : List Token :=
  [.kwMain, .lbrace, .ident, .define, .ident, .lt, .ident, .lt, .ident, .semi, .rbrace].map
    fun k => { kind := k }

theorem Program.parse_accepts_iff_comparisons :
    (Phrase.part .program).Derives comparedArgument ∧ ¬ (Phrase.part .program).Derives chainedComparison := by
  have haccepts := Program.parse_accepts_iff comparedArgument { kind := .eof } {} rfl (by decide)
  have hrejects := Program.parse_accepts_iff chainedComparison { kind := .eof } {} rfl (by decide)
  refine ⟨haccepts.1.mp (by decide +kernel), fun h => ?_⟩
  exact absurd (hrejects.1.mpr h) (by decide +kernel)

end SubrLang
