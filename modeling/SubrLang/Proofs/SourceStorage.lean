import SubrLang.Proofs.AcceptedSources

/-!
# The storage that a source asks for

The global block of a program has at most as many bytes as its source (`Program.Elab.globalSize_le`
together with `storage_sourceTree_le`). A variable takes eight bytes at most, and its declaration is written
with eight characters at least: `var`, a name, `:=`, an expression and a semicolon.

* **Trees.** `Program.storage` counts eight bytes for each declaration and four for each subroutine. Blocks
  may share storage, so the global block can be smaller but is never larger.
* **Tokens.** The tokens that a program is read from weigh at least as much as it takes storage
  (`Parse.exists_program`), and no more than the characters that they are written with.
-/

namespace SubrLang

/-! ## The storage of a tree -/

mutual

/-- A statement takes eight bytes for each of its declarations at most. -/
lemma Stmt.Elab.used_le {r : Rules} : ∀ {result : Option Ty} {Γ Γ' : Ctx} {s s' : Stmt},
    Stmt.Elab r result Γ s s' Γ' →
      Γ'.used ≤ Γ.used + 8 * s.decls ∧ Γ'.peak ≤ max Γ.peak (Γ.used + 8 * s.decls)
  | _, Γ, _, _, _, @Stmt.Elab.varDecl _ _ _ _ _ _ _ _ e' _ _ => by
    have hsize := e'.checkedTy.size_le
    simp only [Ctx.declare, Stmt.decls]
    omega
  | _, Γ, _, _, _, .assign .. | _, Γ, _, _, _, .print _ | _, Γ, _, _, _, .call _
  | _, Γ, _, _, _, .give .. | _, Γ, _, _, _, .leave => by
    simp only [Stmt.decls]
    omega
  | _, Γ, _, _, _, .ifThen _ _ body | _, Γ, _, _, _, .while _ _ body | _, Γ, _, _, _, .block body => by
    have hbody := Stmt.ElabAll.used_le body
    simp only [Ctx.enter] at hbody
    simp only [Ctx.leave, Stmt.decls]
    omega
  | _, Γ, _, _, _, .ifElse _ _ body alternative => by
    have hbody := Stmt.ElabAll.used_le body
    have halternative := Stmt.Elab.used_le alternative
    simp only [Ctx.enter] at hbody
    simp only [Ctx.leave] at halternative
    simp only [Stmt.decls]
    omega

lemma Stmt.ElabAll.used_le {r : Rules} : ∀ {result : Option Ty} {Γ Γ' : Ctx} {ss ss' : List Stmt},
    Stmt.ElabAll r result Γ ss ss' Γ' →
      Γ'.used ≤ Γ.used + 8 * Stmt.declsAll ss ∧
        Γ'.peak ≤ max Γ.peak (Γ.used + 8 * Stmt.declsAll ss)
  | _, _, _, _, _, .nil => by simp [Stmt.declsAll]
  | _, _, _, _, _, .cons head tail => by
    have hhead := Stmt.Elab.used_le head
    have htail := Stmt.ElabAll.used_le tail
    simp only [Stmt.declsAll]
    omega

end

lemma Func.DeclaredAll.used_le {Γ Γ' : Ctx} {fs fs' : List Func} (h : Func.DeclaredAll Γ fs fs' Γ') :
    Γ'.used ≤ Γ.used + 4 * fs.length ∧ Γ'.peak ≤ max Γ.peak (Γ.used + 4 * fs.length) := by
  induction h with
  | nil => simp
  | cons _ _ ih =>
    simp only [Ctx.declare, FuncHead.ty, Ty.size] at ih
    simp only [List.length_cons]
    omega

/-- The global block is not larger than what the declarations ask for. -/
theorem Program.Elab.globalSize_le {r : Rules} {p p' : Program} (h : Program.Elab r p p') :
    p'.globalSize ≤ p.storage := by
  cases h with
  | intro declared bodies main =>
    have hfuncs := declared.used_le
    have hmain := main.used_le
    simp only [Ctx.global] at hfuncs
    simp only [Ctx.enter] at hmain
    simp only [Program.storage]
    omega

/-! ## The storage of what is read -/

/-- What is read from tokens asks for no more bytes than they weigh. -/
theorem Program.storage_parse_le (tokens : List Token) (report : Report) (lambdas : Bool)
    (h : Parse.Ended tokens) : (Program.parse tokens report lambdas).1.storage ≤ Parse.weight tokens := by
  obtain ⟨p, s, hrun, htook, -⟩ := Parse.exists_program h report lambdas
  obtain ⟨-, -, u, hu, -, hweight, -⟩ := htook h
  have htokens : u ++ s.tokens = tokens := hu
  rw [Program.parse, hrun _ le_rfl, ← htokens, Parse.weight_append]
  exact hweight.trans (Nat.le_add_right _ _)

/-! ## The weight of a source -/

/-- The tokens of a source end with the end of input and weigh no more than its characters. -/
lemma Scan.weight_from_le (file : Int) (p : Cursor) (cs : List Char) :
    Parse.Ended (Scan.from file p cs).tokens ∧
      Parse.weight (Scan.from file p cs).tokens ≤ cs.length := by
  fun_induction Scan.from file p cs with
  | case1 p => exact ⟨rfl, by simp [Parse.weight, TokenKind.weight]⟩
  | case2 p c cs x place rest tokens errors ih =>
    obtain ⟨hend, hle⟩ := ih
    have hdrop : (cs.drop x.extra).length ≤ cs.length := by
      rw [List.length_drop]
      omega
    show Parse.Ended tokens ∧ Parse.weight tokens ≤ (c :: cs).length
    cases hx : x.token with
    | none =>
      have htokens : tokens = rest.tokens := by simp only [tokens, hx]
      rw [htokens]
      exact ⟨hend, hle.trans (hdrop.trans (Nat.le_succ _))⟩
    | some t =>
      have hweight : t.1.weight ≤ x.extra + 1 := ((Lexeme.cut_first c cs).kind hx).2.1
      have hsize : x.extra ≤ cs.length := (Lexeme.cut_first c cs).size
      have htokens : tokens = { kind := t.1, value := t.2, place } :: rest.tokens := by
        simp only [tokens, hx]
      rw [htokens]
      refine ⟨?_, ?_⟩
      · cases hrest : rest.tokens with
        | nil => simp [rest, Parse.Ended, hrest] at hend
        | cons u ts => exact Parse.ended_cons.mpr (hrest ▸ hend)
      · have hrest : Parse.weight rest.tokens ≤ cs.length - x.extra := by rwa [← List.length_drop]
        show t.1.weight + Parse.weight rest.tokens ≤ cs.length + 1
        omega

/-- Characters are made of bytes. -/
lemma Text.Utf8.length_decode_le (bs : List UInt8) : (decode bs).length ≤ bs.length := by
  rw [decode, List.length_map]
  fun_induction pieces bs with
  | case1 => exact le_rfl
  | case2 b bs c n h ih =>
    rw [List.length_drop] at ih
    simp only [List.length_cons]
    omega
  | case3 b bs h ih => exact Nat.succ_le_succ ih

/-- A source asks for no more bytes than it has. -/
theorem storage_sourceTree_le (s : Settings) (name : String) (source : List UInt8) :
    (sourceTree s name source).storage ≤ source.length := by
  obtain ⟨hend, hweight⟩ := Scan.weight_from_le 0 {} (Text.Utf8.decode source)
  calc (sourceTree s name source).storage
      ≤ Parse.weight (scan (Text.Utf8.decode source)).tokens := Program.storage_parse_le _ _ _ hend
    _ ≤ (Text.Utf8.decode source).length := hweight
    _ ≤ source.length := Text.Utf8.length_decode_le source

end SubrLang
