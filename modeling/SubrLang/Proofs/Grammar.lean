import Mathlib
import SubrLang.Tree.Parse

/-!
# The grammar of programs

`Nonterminal.rule` is the grammar, one phrase for each part of a program that it names, and
`Phrase.Derives` says which token lists are derivable from a phrase.

**Restrictions.** Beyond the usual shape of expressions and statements the grammar says that comparisons do
not chain, that two values of a print statement have a separator between them, that `call` takes an
invocation, and that names and indexed arrays are assigned to; the last two may stand in parentheses. A
parameter may be declared with the type of no value.

**Languages.** The token lists that are derivable from a phrase are a language (`Phrase.words`). Following
one another, alternatives and repetition are product, sum and Kleene star of languages, so the algebra of
languages is at hand.

**First tokens.** `Phrase.first` lists the kinds of tokens with which the words of a phrase can start
(`Phrase.Derives.kind_mem_first`). No named part has an empty word (`Phrase.Derives.ne_nil`).

**Operators.** `binaryWords k` are the expressions whose operators bind at least as tightly as `k`. Reading
from the left, one is an operand followed by operators of falling levels (`binaryWords_eq_tails`).
-/

namespace SubrLang

open Computability

/-! ## Rules -/

/-- The parts of a program that the grammar names. -/
inductive Nonterminal where
  | program | funcDef | param | retType | type | block | stmt | ifStmt | target | invocation
  | expr | disjunction | conjunction | comparison | sum | product | unary | suffixed | primary
deriving DecidableEq, Repr

/-- The right side of a rule. -/
inductive Phrase where
  | token (k : TokenKind)
  | part (x : Nonterminal)
  | seq (p q : Phrase)
  | alt (p q : Phrase)
  | opt (p : Phrase)
  | many (p : Phrase)

namespace Phrase

instance : Coe TokenKind Phrase := ⟨token⟩
instance : Coe Nonterminal Phrase := ⟨part⟩
instance : Append Phrase := ⟨seq⟩
instance : OrOp Phrase := ⟨alt⟩

/-- One or more phrases with commas between them. -/
def list (p : Phrase) : Phrase := p ++ many (TokenKind.comma ++ p)

end Phrase

open TokenKind Nonterminal Phrase in
/-- The grammar. -/
def Nonterminal.rule : Nonterminal → Phrase
  | program => many funcDef ++ kwMain ++ block
  | funcDef => kwSubr ++ retType ++ ident ++ lparen ++ opt (list param) ++ rparen ++ block
  | param => retType ++ ident
  | retType => type ||| kwVoid
  | type => kwBool ||| kwChar ||| kwInt ||| kwFloat ||| kwString ||| lbracket ++ type ++ rbracket |||
      lt ++ opt (list type) ++ arrow ++ retType ++ gt
  | block => lbrace ++ many stmt ++ rbrace
  | stmt => (kwConst ||| kwVar) ++ ident ++ define ++ expr ++ semi |||
      target ++ define ++ expr ++ semi |||
      kwPrint ++ many (opt expr ++ (printSep ||| printSpace ||| printNewline ||| printTab)) ++ opt expr ++
        semi |||
      kwCall ++ invocation ++ semi |||
      kwReturn ++ opt expr ++ semi |||
      ifStmt |||
      kwWhile ++ expr ++ block |||
      block
  | ifStmt => kwIf ++ expr ++ block ++ opt (kwElse ++ (block ||| ifStmt))
  | target => ident ||| suffixed ++ lbracket ++ expr ++ rbracket ||| lparen ++ target ++ rparen
  | invocation => suffixed ++ lparen ++ opt (list expr) ++ rparen ||| lparen ++ invocation ++ rparen
  | expr => disjunction
  | disjunction => conjunction ++ many (orOr ++ conjunction)
  | conjunction => comparison ++ many (andAnd ++ comparison)
  | comparison => sum ++ opt ((lt ||| lte ||| eqEq ||| neq ||| gt ||| gte) ++ sum)
  | sum => product ++ many ((plus ||| minus) ++ product)
  | product => unary ++ many ((TokenKind.star ||| slash) ++ unary)
  | unary => (minus ||| plus ||| TokenKind.not ||| kwLength) ++ unary ||| suffixed
  | suffixed => primary ++ many (lparen ++ opt (list expr) ++ rparen ||| lbracket ++ expr ++ rbracket)
  | primary => number ||| floatNumber ||| char ||| string ||| kwTrue ||| kwFalse ||| ident |||
      lparen ++ expr ++ rparen |||
      lt ++ type ++ gt ++ lparen ++ expr ++ rparen |||
      lbracket ++ list expr ++ rbracket |||
      kwNew ++ lbracket ++ type ++ rbracket ++ lparen ++ expr ++ rparen |||
      kwSubr ++ retType ++ lparen ++ opt (list param) ++ rparen ++ block

/-- A list of tokens is derivable from a phrase. -/
inductive Phrase.Derives : Phrase → List Token → Prop
  | token {k t} (kind : t.kind = k) : Derives (.token k) [t]
  | part {x w} (rule : Derives x.rule w) : Derives (.part x) w
  | seq {p q u v} (left : Derives p u) (right : Derives q v) : Derives (.seq p q) (u ++ v)
  | left {p q w} (left : Derives p w) : Derives (.alt p q) w
  | right {p q w} (right : Derives q w) : Derives (.alt p q) w
  | none {p} : Derives (.opt p) []
  | some {p w} (once : Derives p w) : Derives (.opt p) w
  | done {p} : Derives (.many p) []
  | more {p u v} (head : Derives p u) (tail : Derives (.many p) v) : Derives (.many p) (u ++ v)

/-! ## Languages -/

/-- Single tokens of a kind. -/
def tok (k : TokenKind) : Language Token := {w | ∃ t : Token, t.kind = k ∧ w = [t]}

/-- The token lists that are derivable from a phrase. -/
def Phrase.words (p : Phrase) : Language Token := {w | p.Derives w}

/-- The token lists that are derivable from a named part. -/
def Nonterminal.words (x : Nonterminal) : Language Token := (Phrase.part x).words

lemma mem_tok {k : TokenKind} {w : List Token} : w ∈ tok k ↔ ∃ t : Token, t.kind = k ∧ w = [t] := Iff.rfl

lemma mem_tok_mul {k : TokenKind} {L : Language Token} {w : List Token} :
    w ∈ tok k * L ↔ ∃ t v, t.kind = k ∧ v ∈ L ∧ w = t :: v := by
  constructor
  · rintro ⟨_, ⟨t, ht, rfl⟩, v, hv, rfl⟩
    exact ⟨t, v, ht, hv, rfl⟩
  · rintro ⟨t, v, ht, hv, rfl⟩
    exact ⟨[t], ⟨t, ht, rfl⟩, v, hv, rfl⟩

lemma kstar_mul_eq (L K : Language Token) : L∗ * K = K + L * (L∗ * K) := by
  nth_rewrite 1 [← Language.one_add_self_mul_kstar_eq_kstar L]
  rw [add_mul, one_mul, mul_assoc]

namespace Phrase

@[simp] lemma words_token (k : TokenKind) : (token k).words = tok k := by
  ext w
  constructor
  · rintro ⟨ht⟩
    exact ⟨_, ht, rfl⟩
  · rintro ⟨t, ht, rfl⟩
    exact .token ht

@[simp] lemma words_part (x : Nonterminal) : (part x).words = x.words := rfl

@[simp] lemma words_append (p q : Phrase) : (p ++ q).words = p.words * q.words := by
  ext w
  constructor
  · intro h
    cases h with
    | seq left right => exact Language.append_mem_mul left right
  · rintro ⟨u, hu, v, hv, rfl⟩
    exact .seq hu hv

@[simp] lemma words_or (p q : Phrase) : (p ||| q).words = p.words + q.words := by
  ext w
  constructor
  · intro h
    cases h with
    | left h => exact .inl h
    | right h => exact .inr h
  · rintro (h | h)
    · exact .left h
    · exact .right h

@[simp] lemma words_opt (p : Phrase) : (opt p).words = 1 + p.words := by
  ext w
  constructor
  · intro h
    cases h with
    | none => exact .inl rfl
    | some h => exact .inr h
  · rintro (rfl | h)
    · exact .none
    · exact .some h

lemma Derives.mem_kstar {q p : Phrase} {w : List Token} (h : q.Derives w) (hq : q = many p) :
    w ∈ p.words∗ := by
  induction h with
  | done => exact Language.nil_mem_kstar _
  | more head _ _ ih =>
    cases hq
    have hle : p.words * p.words∗ ≤ p.words∗ := mul_kstar_le_kstar
    exact hle (Language.append_mem_mul head (ih rfl))
  | _ => cases hq

@[simp] lemma words_many (p : Phrase) : (many p).words = p.words∗ := by
  refine le_antisymm (fun w h => Derives.mem_kstar h rfl) ?_
  refine kstar_le_of_mul_le_right ?_ ?_
  · rintro _ rfl
    exact .done
  · rintro _ ⟨u, hu, v, hv, rfl⟩
    exact .more hu hv

@[simp] lemma words_list (p : Phrase) :
    (list p).words = p.words * (tok .comma * p.words)∗ := by
  rw [list, words_append, words_many, words_append, words_token]

end Phrase

namespace Phrase

lemma le_words_list (p : Phrase) : p.words ≤ (list p).words := by
  rw [words_list]
  exact le_mul_of_one_le_right' one_le_kstar

/-- One more phrase in front of a list. -/
lemma cons_le_words_list (p : Phrase) : p.words * (tok .comma * (list p).words) ≤ (list p).words := by
  rw [words_list, ← mul_assoc (tok .comma)]
  exact mul_le_mul_right mul_kstar_le_kstar p.words

/-- The tokens behind the first phrase of a list. -/
lemma words_list_mul (p : Phrase) (K : Language Token) :
    (list p).words * K = p.words * (K + tok .comma * ((list p).words * K)) := by
  have hstar := Language.one_add_self_mul_kstar_eq_kstar (tok .comma * p.words)
  rw [words_list]
  nth_rewrite 1 [← hstar]
  simp only [mul_add, add_mul, mul_one, mul_assoc]

lemma words_append_mul (p q : Phrase) (K : Language Token) :
    (p ++ q).words * K = p.words * (q.words * K) := by
  rw [words_append, mul_assoc]

lemma words_opt_mul (p : Phrase) (K : Language Token) : (opt p).words * K = K + p.words * K := by
  rw [words_opt, add_mul, one_mul]

lemma le_mul_words_opt_none (p : Phrase) (L : Language Token) : L ≤ L * (opt p).words := by
  rw [words_opt]
  exact le_mul_of_one_le_right' le_self_add

lemma le_mul_words_opt_some (p : Phrase) (L : Language Token) : L * p.words ≤ L * (opt p).words := by
  rw [words_opt]
  exact mul_le_mul_right le_add_self L

/-- The alternatives of a phrase. -/
def alts : Phrase → List Phrase
  | alt p q => p.alts ++ q.alts
  | p => [p]

@[simp] lemma alts_or (p q : Phrase) : (p ||| q).alts = p.alts ++ q.alts := rfl
@[simp] lemma alts_append (p q : Phrase) : (p ++ q).alts = [p ++ q] := rfl
@[simp] lemma alts_token (k : TokenKind) : (token k).alts = [token k] := rfl
@[simp] lemma alts_part (x : Nonterminal) : (part x).alts = [part x] := rfl

lemma words_le_of_mem_alts {p q : Phrase} (h : q ∈ p.alts) : q.words ≤ p.words := by
  induction p with
  | alt p₁ p₂ ih₁ ih₂ =>
    have hsum : (alt p₁ p₂).words = p₁.words + p₂.words := words_or p₁ p₂
    rw [hsum]
    rcases List.mem_append.mp h with h | h
    · exact (ih₁ h).trans le_self_add
    · exact (ih₂ h).trans le_add_self
  | _ => exact (List.mem_singleton.mp h ▸ le_rfl)

lemma exists_alt_of_mem {p : Phrase} {w : List Token} (h : w ∈ p.words) : ∃ q ∈ p.alts, w ∈ q.words := by
  induction p with
  | alt p₁ p₂ ih₁ ih₂ =>
    have hsum : (alt p₁ p₂).words = p₁.words + p₂.words := words_or p₁ p₂
    rw [hsum] at h
    rcases h with h | h
    · obtain ⟨q, hq, hw⟩ := ih₁ h
      exact ⟨q, List.mem_append_left _ hq, hw⟩
    · obtain ⟨q, hq, hw⟩ := ih₂ h
      exact ⟨q, List.mem_append_right _ hq, hw⟩
  | _ => exact ⟨_, List.mem_singleton_self _, h⟩

end Phrase

lemma Nonterminal.words_eq (x : Nonterminal) : x.words = x.rule.words := by
  ext w
  constructor
  · rintro ⟨⟩
    assumption
  · exact .part

/-- Words of an alternative of a rule, behind words of some language. -/
lemma Nonterminal.mul_le_words {x : Nonterminal} {L M : Language Token}
    (h : ∃ p ∈ x.rule.alts, M = L * p.words) : M ≤ L * x.words := by
  obtain ⟨p, hp, rfl⟩ := h
  rw [x.words_eq]
  exact mul_le_mul_right (Phrase.words_le_of_mem_alts hp) L

/-- Words of an alternative of a rule. -/
lemma Nonterminal.le_words {x : Nonterminal} {M : Language Token} (h : ∃ p ∈ x.rule.alts, M = p.words) :
    M ≤ x.words := by
  have hone := x.mul_le_words (L := 1) (by simpa using h)
  rwa [one_mul] at hone

/-- Words of a phrase, in front of words of some language, are words of one of its alternatives. -/
lemma Phrase.exists_alt_of_mem_mul {p : Phrase} {K : Language Token} {w : List Token}
    (h : w ∈ p.words * K) : ∃ q ∈ p.alts, w ∈ q.words * K := by
  obtain ⟨u, hu, v, hv, rfl⟩ := h
  obtain ⟨q, hq, hmem⟩ := Phrase.exists_alt_of_mem hu
  exact ⟨q, hq, Language.append_mem_mul hmem hv⟩

/-- Argument lists and indices, which can follow an operand. -/
def suffixWords (call : Bool) : Language Token :=
  if call then tok .lparen * (Phrase.opt (.list Nonterminal.expr)).words * tok .rparen
  else tok .lbracket * Nonterminal.expr.words * tok .rbracket

/-- The separators of print statements. -/
def separatorWords : Language Token :=
  tok .printSep + tok .printSpace + tok .printNewline + tok .printTab

/-- What can follow the word `print`. -/
def printWords : Language Token :=
  ((1 + Nonterminal.expr.words) * separatorWords)∗ * (1 + Nonterminal.expr.words) * tok .semi

lemma words_suffixed : Nonterminal.suffixed.words =
    Nonterminal.primary.words * (suffixWords true + suffixWords false)∗ := by
  simp [Nonterminal.words_eq .suffixed, Nonterminal.rule, suffixWords]

/-- One more argument list or index. -/
lemma suffixed_mul_suffix_le (call : Bool) :
    Nonterminal.suffixed.words * suffixWords call ≤ Nonterminal.suffixed.words := by
  have hsuffix : suffixWords call ≤ suffixWords true + suffixWords false := by
    cases call with
    | true => exact le_self_add
    | false => exact le_add_self
  rw [words_suffixed, mul_assoc]
  exact mul_le_mul_right ((mul_le_mul_right hsuffix _).trans kstar_mul_le_kstar) _

lemma primary_le_suffixed : Nonterminal.primary.words ≤ Nonterminal.suffixed.words := by
  rw [words_suffixed]
  exact le_mul_of_one_le_right' one_le_kstar

/-- An operator in front of an operand. -/
lemma tok_mul_unary_le {k : TokenKind} (h : Parse.isUnary k = true) :
    tok k * Nonterminal.unary.words ≤ Nonterminal.unary.words := by
  let ops : Phrase := TokenKind.minus ||| TokenKind.plus ||| TokenKind.not ||| TokenKind.kwLength
  have hop : (Phrase.token k).words ≤ ops.words :=
    Phrase.words_le_of_mem_alts (by cases k <;> simp_all [ops, Parse.isUnary])
  have hrule : ops.words * Nonterminal.unary.words ≤ Nonterminal.unary.words :=
    Nonterminal.le_words (by simp [ops, Nonterminal.rule])
  rw [Phrase.words_token] at hop
  exact (mul_le_mul_left hop _).trans hrule

lemma tok_le_separatorWords {k : TokenKind} (h : k = .printSep ∨ (Parse.separator? k).isSome) :
    tok k ≤ separatorWords := by
  let seps : Phrase :=
    TokenKind.printSep ||| TokenKind.printSpace ||| TokenKind.printNewline ||| TokenKind.printTab
  have hwords : seps.words = separatorWords := by simp [seps, separatorWords]
  rw [← Phrase.words_token, ← hwords]
  exact Phrase.words_le_of_mem_alts (by cases k <;> simp_all [seps, Parse.separator?])

/-- A separator in front of the rest of a print statement, with or without a value in front of it. -/
lemma separator_mul_printWords_le {V S : Language Token} (hV : V ≤ 1 + Nonterminal.expr.words)
    (hS : S ≤ separatorWords) : V * (S * printWords) ≤ printWords := by
  rw [printWords, ← mul_assoc S, ← mul_assoc S, ← mul_assoc V, ← mul_assoc V, ← mul_assoc V]
  exact mul_le_mul_left (mul_le_mul_left ((mul_le_mul_left (mul_le_mul' hV hS) _).trans mul_kstar_le_kstar) _) _

/-- The end of a print statement, with or without a value in front of it. -/
lemma semi_le_printWords {V : Language Token} (hV : V ≤ 1 + Nonterminal.expr.words) :
    V * tok .semi ≤ printWords :=
  mul_le_mul_left (hV.trans (le_mul_of_one_le_left' one_le_kstar)) _

/-- A print statement starts with a value or without one, and a separator or its end follows. -/
lemma printWords_eq :
    printWords = (1 + Nonterminal.expr.words) * (tok .semi + separatorWords * printWords) := by
  nth_rewrite 1 [printWords]
  rw [mul_assoc, kstar_mul_eq, ← mul_assoc _ _ (tok .semi), ← printWords, mul_add, mul_assoc]

/-- The two words that declarations start with. -/
lemma declaration_le_stmt {k : TokenKind} (h : k = .kwConst ∨ k = .kwVar) :
    tok k * (tok .ident * (tok .define * (Nonterminal.expr.words * tok .semi))) ≤ Nonterminal.stmt.words := by
  have hword : tok k ≤ tok .kwConst + tok .kwVar := by
    rcases h with rfl | rfl
    · exact le_self_add
    · exact le_add_self
  exact (mul_le_mul_left hword _).trans (Nonterminal.le_words (by simp [Nonterminal.rule, mul_assoc]))

/-! ## First tokens -/

namespace Phrase

/-- Whether the empty list is derivable. -/
def nullable : Phrase → Bool
  | token _ | part _ => false
  | seq p q => p.nullable && q.nullable
  | alt p q => p.nullable || q.nullable
  | opt _ | many _ => true

lemma nullable_rule (x : Nonterminal) : x.rule.nullable = false := by
  cases x <;> rfl

/-- Derivable lists have tokens, those of a phrase with an empty list apart. -/
lemma Derives.ne_nil {p : Phrase} {w : List Token} (h : p.Derives w) (hp : p.nullable = false) : w ≠ [] := by
  induction h with
  | token => simp
  | @part x _ _ ih => exact ih (nullable_rule x)
  | seq _ _ ihl ihr =>
    rcases Bool.and_eq_false_iff.mp hp with hp | hp
    · simp [ihl hp]
    · simp [ihr hp]
  | left _ ih => exact ih (Bool.or_eq_false_iff.mp hp).1
  | right _ ih => exact ih (Bool.or_eq_false_iff.mp hp).2
  | none | some | done | more => cases hp

end Phrase

open TokenKind in
/-- The kinds of tokens that expressions without an operator start with. -/
def Nonterminal.firstOperand : List TokenKind :=
  [number, floatNumber, char, string, kwTrue, kwFalse, ident, lparen, lt, lbracket, kwNew, kwSubr]

open TokenKind in
/-- The kinds of tokens that the words of a named part can start with. -/
def Nonterminal.first : Nonterminal → List TokenKind
  | .program => [kwSubr, kwMain]
  | .funcDef => [kwSubr]
  | .param | .retType => [kwBool, kwChar, kwInt, kwFloat, kwString, lbracket, lt, kwVoid]
  | .type => [kwBool, kwChar, kwInt, kwFloat, kwString, lbracket, lt]
  | .block => [lbrace]
  | .stmt => [kwConst, kwVar, kwPrint, kwCall, kwReturn, kwIf, kwWhile, lbrace] ++ firstOperand
  | .ifStmt => [kwIf]
  | .target | .invocation | .suffixed | .primary => firstOperand
  | .expr | .disjunction | .conjunction | .comparison | .sum | .product | .unary =>
    [minus, plus, TokenKind.not, kwLength] ++ firstOperand

namespace Phrase

/-- The kinds of tokens that the words of a phrase can start with. -/
def first : Phrase → List TokenKind
  | token k => [k]
  | part x => x.first
  | seq p q => if p.nullable then p.first ++ q.first else p.first
  | alt p q => p.first ++ q.first
  | opt p | many p => p.first

lemma first_rule (x : Nonterminal) : x.rule.first ⊆ x.first := by
  cases x <;> decide

lemma first_left_subset (p q : Phrase) : p.first ⊆ (seq p q).first := by
  simp only [first]
  split
  · exact List.subset_append_left _ _
  · exact List.Subset.refl _

/-- The words of a phrase start with its first tokens. -/
lemma Derives.kind_mem_first {p : Phrase} {w : List Token} (h : p.Derives w) :
    ∀ t v, w = t :: v → t.kind ∈ p.first := by
  induction h with
  | token kind =>
    rintro t v ⟨⟩
    simp [first, kind]
  | @part x _ _ ih => exact fun t v hw => first_rule x (ih t v hw)
  | @seq p q u _ left _ ihl ihr =>
    intro t v hw
    rcases List.append_eq_cons_iff.mp hw with ⟨rfl, hv⟩ | ⟨u', rfl, -⟩
    · have hp : p.nullable = true := by
        by_contra hp
        exact left.ne_nil (by simpa using hp) rfl
      simp [first, hp, ihr t v hv]
    · exact first_left_subset p q (ihl t u' rfl)
  | left _ ih => exact fun t v hw => List.mem_append_left _ (ih t v hw)
  | right _ ih => exact fun t v hw => List.mem_append_right _ (ih t v hw)
  | none | done => rintro t v ⟨⟩
  | some _ ih => exact ih
  | more _ _ ihl ihr =>
    intro t v hw
    rcases List.append_eq_cons_iff.mp hw with ⟨rfl, hv⟩ | ⟨u', rfl, -⟩
    · exact ihr t v hv
    · exact ihl t u' rfl

end Phrase

/-! ## Operators -/

/-- Single operators of a level. -/
def opTok (level : Nat) : Language Token :=
  {w | ∃ t : Token, Parse.level? t.kind = some level ∧ w = [t]}

/-- Expressions whose operators bind at least as tightly as a level. -/
def binaryWords : Nat → Language Token
  | 0 | 1 => Nonterminal.disjunction.words
  | 2 => Nonterminal.conjunction.words
  | 3 => Nonterminal.comparison.words
  | 4 => Nonterminal.sum.words
  | 5 => Nonterminal.product.words
  | _ => Nonterminal.unary.words

/-- What can follow operands that bind more tightly than a level: operators of the level, each with its
right operand. Comparisons do not chain. -/
def tailWords (level : Nat) : Language Token :=
  if level = Parse.comparisonLevel then 1 + opTok level * binaryWords (level + 1)
  else (opTok level * binaryWords (level + 1))∗

lemma tok_le_opTok {k : TokenKind} {level : Nat} (h : Parse.level? k = some level) : tok k ≤ opTok level := by
  rintro _ ⟨t, rfl, rfl⟩
  exact ⟨t, h, rfl⟩

lemma mem_opTok_mul {level : Nat} {L : Language Token} {w : List Token} :
    w ∈ opTok level * L ↔ ∃ t v, Parse.level? t.kind = some level ∧ v ∈ L ∧ w = t :: v := by
  constructor
  · rintro ⟨_, ⟨t, ht, rfl⟩, v, hv, rfl⟩
    exact ⟨t, v, ht, hv, rfl⟩
  · rintro ⟨t, v, ht, hv, rfl⟩
    exact ⟨[t], ⟨t, ht, rfl⟩, v, hv, rfl⟩

lemma opTok_eq_sum {level : Nat} {ks : List TokenKind}
    (h : ∀ k, Parse.level? k = some level ↔ k ∈ ks) : opTok level = (ks.map tok).sum := by
  have hsum : ∀ ks : List TokenKind, ∀ w, w ∈ (ks.map tok).sum ↔ ∃ t : Token, t.kind ∈ ks ∧ w = [t] := by
    intro ks w
    induction ks with
    | nil => simp
    | cons k ks ih =>
      rw [List.map_cons, List.sum_cons, Language.mem_add, ih, mem_tok]
      simp only [List.mem_cons, or_and_right, exists_or]
  ext w
  rw [hsum]
  simp only [← h]
  rfl

/-- Operators of a level in front of words of some language: none, or a first one. -/
lemma tailWords_mul (level : Nat) (K : Language Token) :
    tailWords level * K = K + opTok level * (binaryWords (level + 1) *
      (if level = Parse.comparisonLevel then K else tailWords level * K)) := by
  rw [tailWords]
  split
  · rw [add_mul, one_mul, mul_assoc]
  · nth_rewrite 1 [kstar_mul_eq]
    rw [mul_assoc]

/-- A level of expressions is the next one, followed by operators of the level. -/
lemma binaryWords_eq {level : Nat} (hpos : 1 ≤ level) (hle : level ≤ 5) :
    binaryWords level = binaryWords (level + 1) * tailWords level := by
  have hop : ∀ ks : List TokenKind, (∀ k, Parse.level? k = some level ↔ k ∈ ks) →
      opTok level = (ks.map tok).sum := fun ks => opTok_eq_sum
  interval_cases level
  · rw [tailWords, if_neg (by decide), hop [.orOr] (fun k => by cases k <;> simp [Parse.level?])]
    simp [binaryWords, Nonterminal.words_eq .disjunction, Nonterminal.rule]
  · rw [tailWords, if_neg (by decide), hop [.andAnd] (fun k => by cases k <;> simp [Parse.level?])]
    simp [binaryWords, Nonterminal.words_eq .conjunction, Nonterminal.rule]
  · rw [tailWords, if_pos (by decide), hop [.lt, .lte, .eqEq, .neq, .gt, .gte]
      (fun k => by cases k <;> simp [Parse.level?])]
    simp [binaryWords, Nonterminal.words_eq .comparison, Nonterminal.rule, sup_assoc]
  · rw [tailWords, if_neg (by decide), hop [.plus, .minus] (fun k => by cases k <;> simp [Parse.level?])]
    simp [binaryWords, Nonterminal.words_eq .sum, Nonterminal.rule]
  · rw [tailWords, if_neg (by decide), hop [.star, .slash] (fun k => by cases k <;> simp [Parse.level?])]
    simp [binaryWords, Nonterminal.words_eq .product, Nonterminal.rule]

lemma one_le_tailWords (level : Nat) : 1 ≤ tailWords level := by
  rw [tailWords]
  split
  · exact le_self_add
  · exact one_le_kstar

lemma binaryWords_succ_le {level : Nat} (hpos : 1 ≤ level) (hle : level ≤ 5) :
    binaryWords (level + 1) ≤ binaryWords level := by
  rw [binaryWords_eq hpos hle]
  exact le_mul_of_one_le_right' (one_le_tailWords level)

/-- What binds more tightly is an expression of every lower level. -/
lemma binaryWords_anti {least level : Nat} (hpos : 1 ≤ least) (hle : least ≤ level) (hsix : level ≤ 6) :
    binaryWords level ≤ binaryWords least := by
  induction level, hle using Nat.le_induction with
  | base => exact le_rfl
  | succ level hle ih => exact (binaryWords_succ_le (by omega) (by omega)).trans (ih (by omega))

/-- An operator makes an expression of its level from a left operand of the level and a tighter right one.
The left operand of a comparison is no comparison. -/
lemma binaryWords_mul_op_le {level left : Nat} (hpos : 1 ≤ level) (hle : level ≤ left) (hfive : level ≤ 5)
    (hsix : left ≤ 6) (hchain : level = Parse.comparisonLevel → left ≠ Parse.comparisonLevel) :
    binaryWords left * (opTok level * binaryWords (level + 1)) ≤ binaryWords level := by
  rw [binaryWords_eq hpos hfive, tailWords]
  split
  · next hcmp =>
    have hleft : level + 1 ≤ left := by
      have := hchain hcmp
      omega
    exact mul_le_mul' (binaryWords_anti (by omega) hleft hsix) le_add_self
  · next hcmp =>
    calc binaryWords left * (opTok level * binaryWords (level + 1))
        ≤ binaryWords level * (opTok level * binaryWords (level + 1)) :=
          mul_le_mul_left (binaryWords_anti hpos hle hsix) _
      _ = binaryWords (level + 1) *
            ((opTok level * binaryWords (level + 1))∗ * (opTok level * binaryWords (level + 1))) := by
          rw [binaryWords_eq hpos hfive, tailWords, if_neg hcmp, mul_assoc]
      _ ≤ binaryWords (level + 1) * (opTok level * binaryWords (level + 1))∗ :=
          mul_le_mul_right kstar_mul_le_kstar _

/-- What can follow a single operand: operators of levels that fall from one down to another. -/
def fallingTails (least : Nat) : (level : Nat) → Language Token
  | 0 => 1
  | level + 1 => if level + 1 < least then 1 else tailWords (level + 1) * fallingTails least level

/-- The highest level that is left behind an operator of some level and its right operand. -/
def levelBehind (level : Nat) : Nat := if level = Parse.comparisonLevel then level - 1 else level

/-- Operators of falling levels in front of words of some language: none of the highest level, or a first
one. -/
lemma fallingTails_succ_mul {least level : Nat} (hle : least ≤ level + 1) (K : Language Token) :
    fallingTails least (level + 1) * K = fallingTails least level * K +
      opTok (level + 1) * (binaryWords (level + 2) * (fallingTails least (levelBehind (level + 1)) * K)) := by
  rw [fallingTails, if_neg (by omega), mul_assoc, tailWords_mul, levelBehind]
  split
  · rw [Nat.add_sub_cancel]
  · rw [fallingTails, if_neg (by omega), mul_assoc]

/-- An expression is an operand that is followed by operators of falling levels. -/
lemma binaryWords_eq_tails {least : Nat} (hpos : 1 ≤ least) (hsix : least ≤ 6) :
    binaryWords least = Nonterminal.unary.words * fallingTails least 5 := by
  have hunary : binaryWords 6 = Nonterminal.unary.words := rfl
  interval_cases least <;> simp [fallingTails, binaryWords_eq, hunary, mul_assoc]

end SubrLang
