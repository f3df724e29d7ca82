import SubrLang.Proofs.AcceptedSources
import SubrLang.Proofs.CheckedNodes
import SubrLang.Proofs.LoweringSucceeds

/-!
# Every subroutine is emitted once
-/

namespace SubrLang

open Registry (standard)

/-- The tree of an accepted source is the checked one with its conversions inserted. -/
lemma exists_tree_compile {s : Settings} {name : String} {source : List UInt8}
    (h : (compile s name source).report.hasErrors = false) : ∃ report, (compile s name source).tree =
      ((sourceTree s name source).check s.rules report).1.applyWidening standard := by
  unfold compile at h ⊢
  dsimp only at h ⊢
  split
  · next hparsed => simp_all
  · split
    · next hchecked => simp_all
    · exact ⟨_, rfl⟩

/-- Every subroutine of an accepted source, with a name or without and at whatever depth, has its code made once:
with its labels defined once, what it is known by where its address is taken, and where return statements go that
checking noted to belong to it. -/
theorem compile_emits_subroutines {s : Settings} {name : String} {source : List UInt8}
    (h : (compile s name source).report.hasErrors = false) :
    ∃ code st start queue xs, (compile s name source).code = .ok code ∧
      ((compile s name source).tree.lowerAll s).run (Program.initial s) = .ok (code, st) ∧ st.pending = [] ∧
      (compile s name source).tree.Emits s code start queue xs ∧ ∀ x ∈ xs, x.node.OwnsReturns := by
  have hs := isSource_sourceTree s name source
  obtain ⟨herrors, -⟩ | ⟨-, p, hrules, htree, hcode⟩ := compile_cases s name source
  · simp [h] at herrors
  obtain ⟨code, st, start, queue, xs, hrun, hdone, hemits⟩ := hrules.exists_emits rfl hs s
  refine ⟨code, st, start, queue, xs, by rw [hcode, Program.lower_of_run hrun]; rfl, htree ▸ hrun, hdone, htree ▸ hemits, ?_⟩
  intro x hx
  obtain ⟨report, hreport⟩ := exists_tree_compile h
  have hmem : x.node ∈ (compile s name source).tree.allSubroutines := by
    rw [htree, ← hemits.once]
    exact List.mem_map_of_mem (f := fun y : Emitted => y.node) hx
  rw [hreport, Program.allSubroutines_applyWidening] at hmem
  obtain ⟨f, hf, hnode⟩ := Multiset.mem_map.mp hmem
  exact hnode ▸ Subroutine.ownsReturns_applyWidening _ (Program.ownsReturns_check rfl hs report f hf)

/-- A source with subroutines inside a named one and in the main block. -/
def returningSource : List UInt8 := Text.Utf8.encode
  "subr int outer(int x) {
     var f := subr int (int y) { var g := subr int (int z) { return z; }; return g(y); };
     return f(x);
   }
   main { print subr int () { return 1; }(); print outer(2); }"

theorem compile_emits_subroutines_returning :
    (compile .standard "returning" returningSource).report.hasErrors = false ∧
    ∃ code st start queue xs, (compile .standard "returning" returningSource).code = .ok code ∧
      ((compile .standard "returning" returningSource).tree.lowerAll .standard).run (Program.initial .standard) =
        .ok (code, st) ∧ st.pending = [] ∧
      (compile .standard "returning" returningSource).tree.Emits .standard code start queue xs ∧
      (∀ x ∈ xs, x.node.OwnsReturns) ∧ xs.length = 4 := by
  have herrors : (compile .standard "returning" returningSource).report.hasErrors = false := by decide +kernel
  have hcount : (compile .standard "returning" returningSource).tree.subroutines = 4 := by decide +kernel
  obtain ⟨code, st, start, queue, xs, hcode, hrun, hdone, hemits, hhome⟩ := compile_emits_subroutines herrors
  refine ⟨herrors, code, st, start, queue, xs, hcode, hrun, hdone, hemits, hhome, ?_⟩
  rw [← hcount, ← Program.card_allSubroutines, ← hemits.once, Multiset.coe_card, List.length_map]

end SubrLang
