import SubrLang.Proofs.Checking

/-!
# Accepted sources

A source that compiles was parsed to a tree with the types of sources (`Program.isSource_parse`) and
checked without an error, so the compiled tree is an elaboration of the parsed one
(`Program.check_elab`) with its conversions inserted.
-/

namespace SubrLang

open Registry (standard)

/-- The tree that a source text is parsed to. -/
def sourceTree (s : Settings) (name : String) (source : List UInt8) : Program :=
  (Program.read s name (Text.Utf8.decode source)).1

lemma isSource_sourceTree (s : Settings) (name : String) (source : List UInt8) :
    (sourceTree s name source).isSource :=
  Program.isSource_parse _ _ _

lemma Except.ok_of_mapError_eq_ok {α ε ε' : Type} {f : ε → ε'} {x : Except ε α} {a : α}
    (h : x.mapError f = .ok a) : x = .ok a := by
  cases x with
  | error e => cases h
  | ok b => exact congrArg _ (Except.ok.inj h)

lemma Except.exists_ok_of_isOk {α ε : Type} {x : Except ε α} (h : x.isOk) : ∃ a, x = .ok a := by
  cases x with
  | error e => cases h
  | ok a => exact ⟨a, rfl⟩

/-- A source is compiled unless an error was reported: its tree is checked, and what comes of it is what
comes of lowering the checked tree. -/
theorem compile_cases (s : Settings) (name : String) (source : List UInt8) :
    ((compile s name source).report.hasErrors ∧ (compile s name source).code =
        .error (.reported (compile s name source).report.errorCount)) ∨
      ((compile s name source).report.hasErrors = false ∧
        ∃ p, Program.Elab s.rules (sourceTree s name source) p ∧
          (compile s name source).tree = p.applyWidening standard ∧
          (compile s name source).code = ((p.applyWidening standard).lower s).mapError .lowering) := by
  unfold compile
  dsimp only
  split
  · next hparsed => exact .inl ⟨hparsed, rfl⟩
  · split
    · next hchecked => exact .inl ⟨hchecked, rfl⟩
    · next hchecked =>
      refine .inr ⟨Bool.eq_false_of_not_eq_true hchecked, _, ?_, rfl, rfl⟩
      refine Program.check_elab rfl (isSource_sourceTree s name source) ?_
      exact by_contra fun hne => hchecked (bne_iff_ne.mpr hne)

/-- What is behind the code of a source. -/
theorem elab_of_compile_ok {s : Settings} {name : String} {source : List UInt8} {code : Code}
    (h : (compile s name source).code = .ok code) :
    ∃ p, Program.Elab s.rules (sourceTree s name source) p ∧
      (compile s name source).tree = p.applyWidening standard ∧
      (p.applyWidening standard).lower s = .ok code := by
  obtain ⟨-, hcode⟩ | ⟨-, p, hrules, htree, hcode⟩ := compile_cases s name source
  · rw [hcode] at h
    cases h
  · exact ⟨p, hrules, htree, Except.ok_of_mapError_eq_ok (hcode.symm.trans h)⟩

end SubrLang
