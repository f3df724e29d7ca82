import SubrLang.Proofs.Comparisons
import SubrLang.Proofs.StringConstants

/-!
# Comparisons of strings

A string is the address of its record, and the code of a comparison subtracts addresses as it does integers. So
string constants are equal if they have the same record (`StringTable.takes_compare`): where records are
shared if their texts are equal, and otherwise never.
-/

namespace SubrLang

open Code Lower

lemma Comparison.relates_eq {c : Comparison} (hc : ¬ c.AsksOrder) (x y : Int) :
    c.relates x y = ((c == .eq) == decide (x = y)) := by
  cases c with
  | eq | ne => simp [relates, BEq.beq]
  | _ => exact absurd ⟨by decide, by decide⟩ hc

namespace StringTable

variable {front back : Code} {es : List (String × String)} {x y : String × String} {c : Comparison}
  {st : List Word} {mem : Memory} {out : List UInt8}

/-- Two records are equal if their labels are. -/
lemma takes_compare (hP : (around front es back).Numbered) (hbytes : (around front es back).bytes ≤ 2 ^ 32)
    (hx : x ∈ es) (hy : y ∈ es) (hc : ¬ c.AsksOrder) (l : LabelFamily) :
    Takes (around front es back) (Lowering.compare c false l (pushD x.2) (pushD y.2)) ⟨st, mem, out⟩
      ⟨.ofBool ((c == .eq) == (x.2 == y.2)) :: st, mem, out⟩ := by
  have hplaced : ∀ z ∈ es, (around front es back).Holds z.2 ((around front es back).address z.2) ∧
      (around front es back).address z.2 < 2 ^ 32 := by
    intro z hz
    have hlt := address_lt_length hP.assemblable hz
    rw [Image.length_data, Code.dataSize_image hP.assemblable] at hlt
    refine ⟨?_, by omega⟩
    obtain ⟨es₁, es₂, rfl⟩ := List.append_of_mem hz
    obtain ⟨haddress, hfind, -⟩ := placed_record hP.assemblable
    rwa [haddress]
  have hsame := (ofNat_eq_iff (hplaced x hx).2 (hplaced y hy).2).trans (address_eq_iff hP.assemblable hx hy)
  have htakes := Code.takes_compare (l := l) (s := ⟨st, mem, out⟩) hP c
    ((takes_pushD (hplaced x hx).1).append (takes_pushD (hplaced y hy).1))
  rwa [(c.relates_sub_iff _ _).mpr fun h => absurd h hc, Comparison.relates_eq hc,
    decide_eq_decide.mpr (Int32.toInt_inj.trans hsame), ← beq_eq_decide] at htakes

/-- **Comparing string constants.** In a program with the records of all texts that were asked for, the code
that asks whether two of them are equal, or whether they are not, gives the right answer for their texts where
records are shared. Where they are not, it takes all constants for different, whatever their texts are. -/
theorem constants_compare (shared : Bool) (digest : String → UInt64) (families : Nat)
    (pending : List PendingFunc) (rs : List LabelRequest) :
    ∃ (calls : List (String × String)) (st : LowerState),
      (serve rs).run { families, pending, strings := { shared, digest } } = .ok (calls, st) ∧
      calls.map (·.1) = rs.filterMap LabelRequest.text? ∧
      ∀ front back : Code, (front ++ st.strings.code ++ back).Numbered →
        (front ++ st.strings.code ++ back).bytes ≤ 2 ^ 32 → ∀ i j : Fin calls.length, i ≠ j →
        ∀ c : Comparison, ¬ c.AsksOrder → ∀ l stack mem out,
          Takes (front ++ st.strings.code ++ back)
            (Lowering.compare c false l (pushD calls[i].2) (pushD calls[j].2)) ⟨stack, mem, out⟩
            ⟨.ofBool ((c == .eq) == (shared && calls[i].1 == calls[j].1)) :: stack, mem, out⟩ := by
  have hempty : LowerState.Interned { families, pending, strings := { shared, digest } } [] :=
    ⟨fun _ => Iff.rfl, by simp, .nil, fun _ => .nil, fun _ => rfl⟩
  obtain ⟨calls, st, hrun, hshared, htexts, h⟩ := interned_serve rs hempty
  rw [List.nil_append] at h
  refine ⟨calls, st, hrun, htexts, fun front back hP hbytes i j hij c hc l stack mem out => ?_⟩
  have hi : calls[i] ∈ calls := List.getElem_mem _
  have hj : calls[j] ∈ calls := List.getElem_mem _
  have hlabels : (calls[i].2 == calls[j].2) = (shared && calls[i].1 == calls[j].1) := by
    cases shared with
    | true =>
      rw [Bool.true_and, beq_eq_decide, beq_eq_decide]
      exact decide_eq_decide.mpr (h.label_eq_iff hshared hi hj)
    | false =>
      have hnodup := h.labels
      rw [h.apart hshared] at hnodup
      have hne : calls[i].2 ≠ calls[j].2 := fun heq => by
        have hcalls := List.inj_on_of_nodup_map hnodup hi hj heq
        exact hij (Fin.ext ((hnodup.of_map _).getElem_inj_iff.mp hcalls))
      simpa using hne
  rw [← hlabels]
  rw [← h.mem_entries] at hi hj
  exact takes_compare hP hbytes hi hj hc l

/-- The code that asks whether two labels have the same record. -/
def sameRecord (a b : String) : Code := Lowering.compare .eq false ⟨"compare", 3⟩ (pushD a) (pushD b)

/-- A text is taken to be different from itself. -/
theorem constants_compare_unshared : ∃ a b st,
    (serve [.text "a", .text "a"]).run { strings := { shared := false, digest := fun _ => 0 } } =
      .ok ([("a", a), ("a", b)], st) ∧
    Reaches (sameRecord a b ++ st.strings.code) ⟨0, [], ⟨.empty⟩, []⟩
      ⟨(sameRecord a b).instrs.length, [.ofBool false], ⟨.empty⟩, []⟩ := by
  obtain ⟨calls, st, hrun, -, h⟩ := constants_compare false (fun _ => 0) 0 [] [.text "a", .text "a"]
  have hst : ∃ a b st', (serve [.text "a", .text "a"]).run
      { strings := { shared := false, digest := fun _ => 0 } } = .ok ([("a", a), ("a", b)], st') ∧
      (sameRecord a b ++ st'.strings.code ++ []).Numbered ∧
      (sameRecord a b ++ st'.strings.code ++ []).bytes ≤ 2 ^ 32 :=
    ⟨_, _, _, rfl, ⟨⟨by decide, by decide, by decide⟩, by decide⟩, by decide⟩
  obtain ⟨a, b, st', hst, hP, hbytes⟩ := hst
  obtain ⟨rfl, rfl⟩ := Prod.mk.inj (Except.ok.inj (hrun.symm.trans hst))
  have htakes := h _ _ hP hbytes (0 : Fin 2) (1 : Fin 2) (Fin.zero_ne_one (n := 0)) .eq (fun h => h.1 rfl)
    ⟨"compare", 3⟩ [] ⟨.empty⟩ []
  have hreaches := htakes 0 ⟨[], st.strings.code, by simp [sameRecord], rfl⟩
  rw [Nat.zero_add, List.append_nil] at hreaches
  exact ⟨a, b, st, hst, hreaches⟩

end StringTable

end SubrLang
