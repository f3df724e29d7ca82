import SubrLang.Proofs.Readers

/-!
# Reading always ends with a tree

Whatever the tokens are, as long as the end of input is the last of them, a program is read to its end, and the
bound on the depth of recursion is never what ends the reading. Going on behind an error always takes a token,
so it comes to an end.
-/

namespace SubrLang

namespace Parse

/-- A call ends with a result behind at least one token, or the depth `n` is too small for the tokens. -/
def TakesToken {α : Type} (n : Nat) (p : Parse α) (s : ParseState) : Prop :=
  match p s with
  | .ok _ s' => s'.tokens <:+ s.tokens ∧ s'.tokens.length < s.tokens.length
  | .error stop _ => stop = .tooDeep ∧ n < parseDepth s.tokens

lemma Outcome.takesToken {α : Type} {p q : Parse α} {s : ParseState} {T : α → Prop} {x : α → Nat}
    {N : α → Language Token} {n r : Nat} (hs : Ended s.tokens) (hr : r ≤ 10)
    (h : Outcome p q s (fun a s' => T a ∧ Took s 1 (x a) (N a) s') (fun _ => False) (Shallow s n r)) :
    TakesToken n p s := by
  unfold TakesToken
  cases h with
  | @result a s' run _ holds =>
    obtain ⟨-, -, u, hu, hk, -⟩ := holds.2 hs
    rw [run]
    refine ⟨⟨u, hu⟩, ?_⟩
    rw [← hu, List.length_append]
    omega
  | reported _ _ holds => exact holds.elim
  | tooDeep run holds =>
    rw [run]
    have hlt := holds hs
    exact ⟨rfl, by rw [parseDepth]; omega⟩

/-- Where tokens are left in front of the end of input, it is still to come. -/
lemma ended_of_suffix {tokens ts : List Token} (h : tokens = [] ∨ Ended tokens) (hts : ts <:+ tokens)
    (hkind : (next ts).kind ≠ .eof) : Ended ts := by
  have hne : ts ≠ [] := by
    rintro rfl
    exact hkind rfl
  obtain ⟨front, rfl⟩ := hts
  rcases h with h | h
  · exact absurd (List.append_eq_nil_iff.mp h).2 hne
  · rwa [Ended, List.getLast?_append_of_ne_nil _ hne] at h

end Parse

/-- **Reading ends with a tree and makes progress.** Tokens that end with the end of input, or none at all,
give a program whatever stands among them: no error escapes, and from `parseDepth` on more depth changes
nothing, so the bound is never what ends the reading. Wherever the reading stands in the tokens, trying to
read a statement of a block that goes on takes at least one of them, and so does trying to read a
subroutine. -/
theorem Program.parse_recovers (tokens : List Token) (hend : tokens = [] ∨ Parse.Ended tokens) (report : Report)
    (lambdas : Bool) :
    (∃ p s, (∀ depth, parseDepth tokens ≤ depth →
        Parse.program depth ⟨tokens, report, lambdas⟩ = .ok p s) ∧
      Program.parse tokens report lambdas = (p, s.report)) ∧
    ∀ (depth : Nat) (s : ParseState), s.tokens <:+ tokens →
      ((Parse.next s.tokens).kind ≠ .rbrace → (Parse.next s.tokens).kind ≠ .eof →
        Parse.TakesToken depth (Parse.guarded (Parse.stmt depth)) s) ∧
      ((Parse.next s.tokens).kind = .kwSubr → Parse.TakesToken depth (Parse.guardedFunc depth) s) := by
  refine ⟨?_, fun depth s hs => ⟨fun hbrace heof => ?_, fun hsubr => ?_⟩⟩
  · have hread : ∃ p s, ∀ depth, parseDepth tokens ≤ depth →
        Parse.program depth ⟨tokens, report, lambdas⟩ = .ok p s := by
      rcases hend with rfl | hend
      · refine ⟨?tree, ?state, fun depth hdepth => ?run⟩
        case run =>
          obtain ⟨n, rfl⟩ : ∃ n, depth = n + 1 := ⟨depth - 1, by rw [parseDepth] at hdepth; omega⟩
          rfl
      · obtain ⟨p, s, hrun, -⟩ := Parse.exists_program hend report lambdas
        exact ⟨p, s, hrun⟩
    obtain ⟨p, s, hrun⟩ := hread
    exact ⟨p, s, hrun, by rw [Program.parse, hrun _ le_rfl]⟩
  · exact Parse.Outcome.takesToken (r := 5) (Parse.ended_of_suffix hend hs heof) (by omega)
      (Parse.outcome_guardedStmt (Parse.treesTaken depth) hbrace heof le_rfl)
  · exact Parse.Outcome.takesToken (r := 3) (Parse.ended_of_suffix hend hs (by rw [hsubr]; decide)) (by omega)
      (Parse.outcome_guardedFunc hsubr le_rfl)

/-- A subroutine without a name, then a block with a stray word, a block that is left open and an end of input
with tokens behind it. -/
def brokenTokens : List Token :=
  [.kwSubr, .kwInt, .lparen, .lbrace, .semi, .rbrace, .kwMain, .lbrace, .kwElse, .semi, .lbrace, .eof, .define,
    .eof].map fun k => { kind := k }

theorem Program.parse_recovers_broken : Parse.Ended brokenTokens ∧
    (∃ p s, ∀ depth, parseDepth brokenTokens ≤ depth →
      Parse.program depth ⟨brokenTokens, {}, true⟩ = .ok p s) ∧
    (∀ depth, Parse.TakesToken depth (Parse.guardedFunc depth) ⟨brokenTokens, {}, true⟩) ∧
    ∀ depth, Parse.TakesToken depth (Parse.guarded (Parse.stmt depth)) ⟨brokenTokens.drop 8, {}, true⟩ := by
  have hended : Parse.Ended brokenTokens := rfl
  obtain ⟨⟨p, s, hrun, -⟩, htakes⟩ := Program.parse_recovers brokenTokens (.inr hended) {} true
  refine ⟨hended, ⟨p, s, hrun⟩, fun depth => ?_, fun depth => ?_⟩
  · exact (htakes depth ⟨brokenTokens, {}, true⟩ List.suffix_rfl).2 rfl
  · exact (htakes depth ⟨brokenTokens.drop 8, {}, true⟩ (List.drop_suffix 8 _)).1 (by decide) (by decide)

end SubrLang
