import SubrLang.Lowering
import SubrLang.Proofs.Elaboration

/-!
# Lowering step by step

Facts about lowering that do not depend on what is said of the code.

* **Runs.** A run of two steps that succeeds is a run of the first and then one of the second
  (`Lower.run_bind`); the small steps of lowering have equations for their runs.
* **Conversions.** Inserting the conversions noted on an operand puts the instructions of the conversions
  behind the code of the operand, and nothing else changes (`Widens.lowerValue_eq`).
* **Subroutines.** The heads of all subroutines of a tree, as a multiset; there are as many as
  `Program.subroutines` counts (`Program.card_heads`).
-/

namespace SubrLang

/-! ## Runs -/

/-- A table without entries has nothing under any digest. -/
lemma StringTable.bucket_nil (h : UInt64) :
    ([] : List (String × String)) = [].filter (Digest.ofText ·.1 == h) := rfl

namespace Lower

variable {α β : Type} {st st' : LowerState}

lemma run_bind {x : Lower α} {f : α → Lower β} {b : β} (h : (x >>= f).run st = .ok (b, st')) :
    ∃ a st₁, x.run st = .ok (a, st₁) ∧ (f a).run st₁ = .ok (b, st') := by
  rw [StateT.run_bind] at h
  cases hx : x.run st with
  | error e =>
    rw [hx] at h
    cases h
  | ok p =>
    rw [hx] at h
    exact ⟨p.1, p.2, rfl, h⟩

lemma run_pure {a b : α} (h : (pure a : Lower α).run st = .ok (b, st')) : b = a ∧ st' = st := by
  cases h
  exact ⟨rfl, rfl⟩

lemma run_throw {e : LowerFault} {a : α} (h : (throw e : Lower α).run st = .ok (a, st')) : False := by
  cases h

/-- The state behind the making of a family of labels. -/
def counted (st : LowerState) : LowerState := { st with families := st.families + 1 }

lemma run_fresh {stem : String} {l : LabelFamily} (h : (fresh stem).run st = .ok (l, st')) :
    l = ⟨stem, st.families + 1⟩ ∧ st' = counted st := by
  cases h
  exact ⟨rfl, rfl⟩

lemma run_required {o : Option α} {a : α} (h : (required o).run st = .ok (a, st')) :
    o = some a ∧ st' = st := by
  cases o with
  | none => exact (run_throw h).elim
  | some b =>
    obtain ⟨rfl, rfl⟩ := run_pure h
    exact ⟨rfl, rfl⟩

lemma run_enqueue {head : FuncHead} {body : List Stmt} {l : LabelFamily}
    (h : (enqueue head body).run st = .ok (l, st')) : l = ⟨"function", st.families + 1⟩ ∧
      st' = { counted st with pending := st.pending ++ [⟨l, head, body⟩] } := by
  cases h
  exact ⟨rfl, rfl⟩

/-- The code of a value is the code of its fragment, with a load behind it if that leaves an address. -/
lemma run_valueOf {t : Option Ty} {f : Fragment} {c : Code}
    (h : (valueOf t f).run st = .ok (c, st')) : st' = st ∧
      (f.residue = .value ∧ c = f.code ∨
        f.residue = .address ∧ c = f.code ++ Code.ops [(t.map Ty.loadOp).getD .loadI]) := by
  obtain ⟨residue, code⟩ := f
  cases residue with
  | void => cases h
  | value =>
    cases h
    exact ⟨rfl, .inl ⟨rfl, rfl⟩⟩
  | address =>
    cases h
    exact ⟨rfl, .inr ⟨rfl, rfl⟩⟩

/-- An operator that is one instruction, or none. -/
lemma applyVariant_plain (o : PlainOp) (isFloat : Bool) (l : LabelFamily) (cs : List Code) :
    applyVariant (.opcode (.plain o)) isFloat l cs =
      pure (cs.flatten ++ if o = .nop then [] else Code.ops [o]) := by
  cases o with
  | nop => simp [applyVariant]
  | _ => simp [applyVariant, Opcode.with, Code.ops, Code.one]

lemma run_mapM_cons {f : α → Lower β} {a : α} {as : List α} {bs : List β}
    (h : ((a :: as).mapM f).run st = .ok (bs, st')) :
    ∃ b st₁ bs', (f a).run st = .ok (b, st₁) ∧ (as.mapM f).run st₁ = .ok (bs', st') ∧ bs = b :: bs' := by
  rw [List.mapM_cons] at h
  obtain ⟨b, st₁, hb, hrest⟩ := run_bind h
  obtain ⟨bs', st₂, hbs, hpure⟩ := run_bind hrest
  obtain ⟨rfl, rfl⟩ := run_pure hpure
  exact ⟨b, st₁, bs', hb, hbs, rfl⟩

lemma run_map {g : α → β} {x : Lower α} {b : β} (h : (g <$> x).run st = .ok (b, st')) :
    ∃ a, x.run st = .ok (a, st') ∧ b = g a := by
  rw [map_eq_pure_bind] at h
  obtain ⟨a, st₁, hx, hp⟩ := run_bind h
  obtain ⟨rfl, rfl⟩ := run_pure hp
  exact ⟨a, hx, rfl⟩

end Lower

/-! ## Lowering through values -/

namespace Expr

lemma lower_index (n : Note) (a i : Expr) : (Expr.index n a i).lower = (do
    let array ← a.lowerValue
    let position ← i.lowerValue
    return ⟨.address, Lowering.index array position⟩) := by
  simp only [Expr.lower, Expr.lowerValue, bind_assoc]

lemma lower_arrayAlloc (n : Note) (t : Ty) (l : Expr) : (Expr.arrayAlloc n t l).lower = (do
    let length ← l.lowerValue
    Lower.asValue (Lowering.arrayAlloc t length)) := by
  simp only [Expr.lower, Expr.lowerValue, bind_assoc]

lemma lower_call {n : Note} {f : Expr} {es : List Expr} {params : List Ty} {result : Ty}
    (hf : f.ty? = some (.func params result)) : (Expr.call n f es).lower = (do
    let args ← Expr.lowerAll false es
    let callee ← f.lowerValue
    return ⟨if result.isVoid then .void else .value,
      Lowering.callSite params result args callee⟩) := by
  simp only [Expr.lower, hf, Expr.lowerValue, bind_assoc]

lemma lowerAll_cons (e : Expr) (es : List Expr) : Expr.lowerAll false (e :: es) = (do
    let c ← e.lowerValue
    let cs ← Expr.lowerAll false es
    return c :: cs) := by
  simp only [Expr.lowerAll, Expr.lowerValue, bind_assoc, Bool.false_eq_true, if_false]

end Expr

/-! ## Branches and loops -/

namespace Lowering

open Code

/-- The code of a branch. -/
def ifElse (l : LabelFamily) (cond body alternative : Code) : Code :=
  cond ++ branch .jumpFalse (l.label "else") ++ body ++ jump (l.label "join") ++ label (l.label "else") ++
    alternative ++ label (l.label "join")

/-- The code of a loop. -/
def loop (l : LabelFamily) (cond body : Code) : Code :=
  label (l.label "start") ++ cond ++ branch .jumpFalse (l.label "join") ++ body ++ jump (l.label "start") ++
    label (l.label "join")

end Lowering

/-- A condition and what depends on it are lowered one after the other, behind a family of labels. -/
lemma Lower.run_branch {α : Type} {stem : String} {c : Expr} {exit : Option String} {b : List Stmt}
    {k : LabelFamily → Code → Code → Lower α} {a : α} {st st' : LowerState}
    (h : (do k (← fresh stem) (← c.lowerValue) (← Stmt.lowerAll exit b)).run st = .ok (a, st')) :
    ∃ cond st₁ body st₂, c.lowerValue.run (counted st) = .ok (cond, st₁) ∧
      (Stmt.lowerAll exit b).run st₁ = .ok (body, st₂) ∧
      (k ⟨stem, st.families + 1⟩ cond body).run st₂ = .ok (a, st') := by
  obtain ⟨l, st₀, hl, hrest⟩ := run_bind h
  obtain ⟨rfl, rfl⟩ := run_fresh hl
  obtain ⟨cond, st₁, hcond, hrest'⟩ := run_bind hrest
  obtain ⟨body, st₂, hbody, hk⟩ := run_bind hrest'
  exact ⟨cond, st₁, body, st₂, hcond, hbody, hk⟩

/-! ## Conversions -/

namespace Widening

/-- The instructions of a conversion that is noted on an operand. -/
def code : List Prim → Code
  | [] => []
  | .float :: chain => Code.ops [.convertF] ++ code chain
  | _ :: chain => code chain

end Widening

section Conversions

open Registry (standard)

/-- Inserting noted conversions does not look at the notes of other expressions. -/
lemma Expr.applyWidening_withWidening {e : Expr} {chain : List Prim} (he : e.note.widening = [])
    (hc : chain ≠ []) : (e.withWidening chain).applyWidening standard =
      (chain.foldl (Widening.cast standard) (e.applyWidening standard)).withWidening chain := by
  obtain ⟨p, ps, rfl⟩ := List.exists_cons_of_ne_nil hc
  cases e with
  | number n | floatNumber n | char n | string n | bool n | ident n | operator n | typeLiteral n
  | arrayLiteral n | arrayAlloc n | index n | call n | lambda n =>
    obtain ⟨place, ty, widening⟩ := n
    cases he
    simp only [Expr.withWidening, Expr.withNote, Expr.note, Expr.applyWidening]
    rfl

lemma Expr.ty?_applyWidening {e : Expr} (he : e.note.widening = []) :
    (e.applyWidening standard).ty? = e.ty? := by
  cases e with
  | number n | floatNumber n | char n | string n | bool n | ident n | operator n | typeLiteral n
  | arrayLiteral n | arrayAlloc n | index n | call n | lambda n =>
    obtain ⟨place, ty, widening⟩ := n
    cases he
    simp only [Expr.applyWidening]
    rfl

lemma Expr.lower_withWidening (e : Expr) (chain : List Prim) :
    (e.withWidening chain).lower = e.lower := by
  cases e <;> simp only [Expr.withWidening, Expr.withNote, Expr.note, Expr.lower, Expr.kind]

/-- The code of an operand inside a conversion that is one instruction, or none. -/
lemma Widening.lowerValue_cast {e : Expr} {p : Prim} {source : Ty} {o : PlainOp}
    (he : e.ty? = some source) (hr : standard.resolve .cast [.literal (.prim p), source] =
      some (Registry.conversion (.opcode (.plain o)) (.prim p) source, .prim p)) :
    (cast standard e p).lowerValue =
        (fun c => c ++ if o = .nop then [] else Code.ops [o]) <$> e.lowerValue ∧
      (cast standard e p).ty? = some (.prim p) := by
  have hcast : cast standard e p = .operator { place := e.note.place, ty := some (.prim p) }
      .cast [.ofType e.note.place (.prim p), e]
      (some (Registry.conversion (.opcode (.plain o)) (.prim p) source)) := by
    simp [cast, he, hr]
  have hvalue : ∀ (t : Option Ty) (c : Code),
      (Lower.asValue c >>= fun f => Lower.valueOf t f) = pure c := fun _ _ => rfl
  rw [hcast]
  refine ⟨?_, rfl⟩
  simp only [Expr.lowerValue, Expr.lower, Expr.lowerAll, Registry.conversion,
    Lower.operatorLabels, Lower.applyVariant_plain, pure_bind, bind_assoc, map_eq_pure_bind]
  simp [hvalue]

lemma Expr.ty?_withWidening (e : Expr) (chain : List Prim) :
    (e.withWidening chain).ty? = e.ty? := by
  cases e <;> rfl

/-- An expression with the conversions noted that widening asks for. -/
def Widening.attached (e : Expr) (w : Widened) : Expr :=
  if w.2.isEmpty then e else e.withWidening w.2

/-- Inserting the conversions of an operand puts their instructions behind its code. -/
theorem Widens.lowerValue_eq {e : Expr} {t : Ty} {w : Widened} (h : Widens t w)
    (he : e.note.widening = []) (ht : e.ty? = some t) :
    ((Widening.attached e w).applyWidening standard).lowerValue =
        (fun c => c ++ Widening.code w.2) <$> (e.applyWidening standard).lowerValue ∧
      ((Widening.attached e w).applyWidening standard).ty? = some w.1 := by
  have ht' : (e.applyWidening standard).ty? = some t := (Expr.ty?_applyWidening he).trans ht
  have hvalue : ∀ (e : Expr) (chain : List Prim),
      (e.withWidening chain).lowerValue = e.lowerValue := by
    intro e chain
    rw [Expr.lowerValue, Expr.lower_withWidening, Expr.ty?_withWidening, Expr.lowerValue]
  cases h with
  | same t => simp [Widening.attached, Widening.code, ht']
  | charToInt =>
    obtain ⟨hcode, hty⟩ := Widening.lowerValue_cast (p := .integer) (o := .nop) ht' rfl
    simp only [Widening.attached, List.isEmpty_cons, Bool.false_eq_true, if_false,
      Expr.applyWidening_withWidening he (List.cons_ne_nil _ _), hvalue, Expr.ty?_withWidening,
      List.foldl_cons, List.foldl_nil]
    exact ⟨hcode, hty⟩
  | intToFloat =>
    obtain ⟨hcode, hty⟩ := Widening.lowerValue_cast (p := .float) (o := .convertF) ht' rfl
    simp only [Widening.attached, List.isEmpty_cons, Bool.false_eq_true, if_false,
      Expr.applyWidening_withWidening he (List.cons_ne_nil _ _), hvalue, Expr.ty?_withWidening,
      List.foldl_cons, List.foldl_nil]
    exact ⟨hcode, hty⟩
  | charToFloat =>
    obtain ⟨hcode, hty⟩ := Widening.lowerValue_cast (p := .integer) (o := .nop) ht' rfl
    obtain ⟨hcode', hty'⟩ := Widening.lowerValue_cast (p := .float) (o := .convertF) hty rfl
    simp only [Widening.attached, List.isEmpty_cons, Bool.false_eq_true, if_false,
      Expr.applyWidening_withWidening he (List.cons_ne_nil _ _), hvalue, Expr.ty?_withWidening,
      List.foldl_cons, List.foldl_nil]
    rw [hcode', hcode]
    refine ⟨?_, hty'⟩
    simp [Widening.code]

end Conversions

/-! ## The subroutines of a tree -/

mutual

/-- The heads of the lambdas in an expression, also of those inside other lambdas. -/
def Expr.heads : Expr → Multiset FuncHead
  | .operator _ _ es _ => Expr.headsAll es
  | .arrayLiteral _ es => Expr.headsAll es
  | .arrayAlloc _ _ l => l.heads
  | .index _ a i => a.heads + i.heads
  | .call _ f es => f.heads + Expr.headsAll es
  | .lambda _ h b => h ::ₘ Stmt.headsAll b
  | .number .. | .floatNumber .. | .char .. | .string .. | .bool .. | .ident .. | .typeLiteral .. => 0

def Expr.headsAll : List Expr → Multiset FuncHead
  | [] => 0
  | e :: es => e.heads + Expr.headsAll es

def PrintItem.headsAll : List PrintItem → Multiset FuncHead
  | [] => 0
  | .separator _ _ :: is => PrintItem.headsAll is
  | .value e :: is => e.heads + PrintItem.headsAll is

/-- The heads of the lambdas in a statement. -/
def Stmt.heads : Stmt → Multiset FuncHead
  | .varDecl _ _ _ e _ => e.heads
  | .assign _ t v => t.heads + v.heads
  | .print _ is => PrintItem.headsAll is
  | .call _ c => c.heads
  | .give _ v => v.heads
  | .leave _ => 0
  | .ifThen _ c b => c.heads + Stmt.headsAll b
  | .ifElse _ c b a => c.heads + Stmt.headsAll b + a.heads
  | .while _ c b => c.heads + Stmt.headsAll b
  | .block _ b => Stmt.headsAll b

def Stmt.headsAll : List Stmt → Multiset FuncHead
  | [] => 0
  | s :: ss => s.heads + Stmt.headsAll ss

end

/-- The heads of all subroutines of a program, with or without a name. -/
def Program.heads (p : Program) : Multiset FuncHead :=
  (p.funcs.map fun f => f.head ::ₘ Stmt.headsAll f.body).sum + Stmt.headsAll p.main

lemma Expr.card_heads : (∀ e : Expr, e.heads.card = e.lambdas) ∧
    (∀ ss, (Stmt.headsAll ss).card = Stmt.lambdasAll ss) ∧ (∀ s : Stmt, s.heads.card = s.lambdas) ∧
    (∀ is, (PrintItem.headsAll is).card = PrintItem.lambdasAll is) ∧
    ∀ es, (Expr.headsAll es).card = Expr.lambdasAll es := by
  apply Expr.heads.mutual_induct <;> intros
  all_goals simp_all [Expr.heads, Expr.headsAll, PrintItem.headsAll, Stmt.heads, Stmt.headsAll, Expr.lambdas,
    Expr.lambdasAll, PrintItem.lambdasAll, Stmt.lambdas, Stmt.lambdasAll]

/-- Lowering allows for as many subroutines as there are. -/
lemma Program.card_heads (p : Program) : p.heads.card = p.subroutines := by
  have hfuncs : ∀ fs : List Func, (fs.map fun f => f.head ::ₘ Stmt.headsAll f.body).sum.card =
      Func.subroutinesAll fs := by
    intro fs
    induction fs with
    | nil => rfl
    | cons f fs ih =>
      simp only [List.map_cons, List.sum_cons, Multiset.card_add, Multiset.card_cons, ih,
        Expr.card_heads, Func.subroutinesAll]
  simp [Program.heads, Program.subroutines, hfuncs, Expr.card_heads]

lemma Expr.heads_withWidening (e : Expr) (chain : List Prim) :
    (e.withWidening chain).heads = e.heads := by
  cases e <;> simp only [Expr.withWidening, Expr.withNote, Expr.heads]

lemma Widening.heads_cast (r : Registry) (e : Expr) (p : Prim) : (cast r e p).heads = e.heads := by
  unfold cast
  split <;> simp [Expr.heads, Expr.headsAll, Expr.ofType]

/-- Noting and inserting conversions does not change the lambdas of an operand. -/
lemma Widening.heads_attached {e : Expr} {w : Widened} (he : e.note.widening = []) :
    ((Widening.attached e w).applyWidening Registry.standard).heads =
      (e.applyWidening Registry.standard).heads := by
  have hcasts : ∀ (chain : List Prim) (e : Expr),
      (chain.foldl (cast Registry.standard) e).heads = e.heads := by
    intro chain
    induction chain with
    | nil => simp
    | cons p chain ih => simp [ih, heads_cast]
  unfold Widening.attached
  split
  · rfl
  · next hw =>
    rw [Expr.applyWidening_withWidening he (by simpa using hw), Expr.heads_withWidening, hcasts]

end SubrLang
