import SubrLang.Proofs.StackTyping

/-!
# Inserted casts

Checking notes conversions on operands, and `applyWidening` puts a cast around the operand for each.

* **Nothing else changes.** `Program.unwrapped` takes the casts out again that the notes speak of, and it
  is a left inverse (`Program.unwrapped_applyWidening`): around every operand stand the casts noted on it,
  once, and the rest of the tree is as it was.
* **Signatures.** In a tree that was elaborated and had its casts inserted, the signature of every operator
  takes the types of the operands as they are (`Program.Elab.signed`).
* **Notes.** `Program.settled` is the tree with the notes of conversions cleared. No conversion is pending
  in it.
-/

namespace SubrLang

/-! ## Trees without notes of conversions -/

mutual

/-- The expression with no conversions noted. -/
def Expr.settled : Expr → Expr
  | .number n v => .number { n with widening := [] } v
  | .floatNumber n v => .floatNumber { n with widening := [] } v
  | .char n v => .char { n with widening := [] } v
  | .string n v => .string { n with widening := [] } v
  | .bool n v => .bool { n with widening := [] } v
  | .ident n x b => .ident { n with widening := [] } x b
  | .operator n op es g => .operator { n with widening := [] } op (Expr.settledAll es) g
  | .typeLiteral n t => .typeLiteral { n with widening := [] } t
  | .arrayLiteral n es => .arrayLiteral { n with widening := [] } (Expr.settledAll es)
  | .arrayAlloc n t l => .arrayAlloc { n with widening := [] } t l.settled
  | .index n a i => .index { n with widening := [] } a.settled i.settled
  | .call n f es => .call { n with widening := [] } f.settled (Expr.settledAll es)
  | .lambda n h b => .lambda { n with widening := [] } h (Stmt.settledAll b)

def Expr.settledAll : List Expr → List Expr
  | [] => []
  | e :: es => e.settled :: Expr.settledAll es

def PrintItem.settledAll : List PrintItem → List PrintItem
  | [] => []
  | .separator p k :: is => .separator p k :: PrintItem.settledAll is
  | .value e :: is => .value e.settled :: PrintItem.settledAll is

def Stmt.settled : Stmt → Stmt
  | .varDecl n x c e b => .varDecl n x c e.settled b
  | .assign n t v => .assign n t.settled v.settled
  | .print n is => .print n (PrintItem.settledAll is)
  | .call n c => .call n c.settled
  | .give n v => .give n v.settled
  | .leave n => .leave n
  | .ifThen n c b => .ifThen n c.settled (Stmt.settledAll b)
  | .ifElse n c b a => .ifElse n c.settled (Stmt.settledAll b) a.settled
  | .while n c b => .while n c.settled (Stmt.settledAll b)
  | .block n b => .block n (Stmt.settledAll b)

def Stmt.settledAll : List Stmt → List Stmt
  | [] => []
  | s :: ss => s.settled :: Stmt.settledAll ss

end

def Program.settled (p : Program) : Program :=
  { p with
    funcs := p.funcs.map fun f => { f with body := Stmt.settledAll f.body }
    main := Stmt.settledAll p.main }

lemma Expr.widening_settled (e : Expr) : e.settled.note.widening = [] := by
  cases e <;> simp only [Expr.settled] <;> rfl

lemma Expr.noted_settledAll (es : List Expr) : Widening.noted (Expr.settledAll es) = [] := by
  induction es with
  | nil => simp [Expr.settledAll, Widening.noted]
  | cons e es ih =>
    simp only [Widening.noted] at ih
    simp [Expr.settledAll, Widening.noted, Expr.widening_settled, ih]

lemma Expr.pending_settled : (∀ e : Expr, e.settled.pending = []) ∧
    (∀ ss, Stmt.pendings (Stmt.settledAll ss) = []) ∧ (∀ s : Stmt, s.settled.pending = []) ∧
    (∀ is, PrintItem.pendings (PrintItem.settledAll is) = []) ∧ ∀ es, Expr.pendings (Expr.settledAll es) = [] := by
  have hone : ∀ e : Expr, Widening.noted [e.settled] = [] := by simp [Widening.noted, Expr.widening_settled]
  apply Expr.settled.mutual_induct <;> intros
  all_goals simp_all [Expr.settled, Expr.settledAll, PrintItem.settledAll, Stmt.settled, Stmt.settledAll,
    Expr.pending, Expr.pendings, PrintItem.pendings, Stmt.pending, Stmt.pendings, Expr.noted_settledAll]

lemma Program.pending_settled (p : Program) : p.settled.pending = [] := by
  simp [Program.pending, Program.settled, Expr.pending_settled]

/-! ## Taking casts out again -/

mutual

/-- The expression inside `k` casts. Inside of it the casts are taken out that the notes on operands speak
of. -/
def Expr.inside : Nat → Expr → Expr
  | k + 1, .operator n op es g =>
    if op = .cast then Expr.insideOperand k es else .operator n op es g
  | 0, .operator n op es g => .operator n op (Expr.unwrappedAll es) g
  | _, .arrayLiteral n es => .arrayLiteral n (Expr.unwrappedAll es)
  | _, .arrayAlloc n t l =>
    .arrayAlloc n t ((l.inside l.note.widening.length).withWidening l.note.widening)
  | _, .index n a i =>
    .index n ((a.inside a.note.widening.length).withWidening a.note.widening)
      ((i.inside i.note.widening.length).withWidening i.note.widening)
  | _, .call n f es =>
    .call n ((f.inside f.note.widening.length).withWidening f.note.widening) (Expr.unwrappedAll es)
  | _, .lambda n h b => .lambda n h (Stmt.unwrappedAll b)
  | _, e => e

/-- The expression inside `k` casts that stands last in a list. -/
def Expr.insideOperand (k : Nat) : List Expr → Expr
  | [] => .number { place := default } 0
  | [e] => e.inside k
  | _ :: es => Expr.insideOperand k es

def Expr.unwrappedAll : List Expr → List Expr
  | [] => []
  | e :: es =>
    (e.inside e.note.widening.length).withWidening e.note.widening :: Expr.unwrappedAll es

def PrintItem.unwrappedAll : List PrintItem → List PrintItem
  | [] => []
  | .separator p k :: is => .separator p k :: PrintItem.unwrappedAll is
  | .value e :: is =>
    .value ((e.inside e.note.widening.length).withWidening e.note.widening) ::
      PrintItem.unwrappedAll is

def Stmt.unwrapped : Stmt → Stmt
  | .varDecl n x c e b =>
    .varDecl n x c ((e.inside e.note.widening.length).withWidening e.note.widening) b
  | .assign n t v =>
    .assign n ((t.inside t.note.widening.length).withWidening t.note.widening)
      ((v.inside v.note.widening.length).withWidening v.note.widening)
  | .print n is => .print n (PrintItem.unwrappedAll is)
  | .call n c => .call n ((c.inside c.note.widening.length).withWidening c.note.widening)
  | .give n v => .give n ((v.inside v.note.widening.length).withWidening v.note.widening)
  | .leave n => .leave n
  | .ifThen n c b =>
    .ifThen n ((c.inside c.note.widening.length).withWidening c.note.widening) (Stmt.unwrappedAll b)
  | .ifElse n c b a =>
    .ifElse n ((c.inside c.note.widening.length).withWidening c.note.widening)
      (Stmt.unwrappedAll b) a.unwrapped
  | .while n c b =>
    .while n ((c.inside c.note.widening.length).withWidening c.note.widening) (Stmt.unwrappedAll b)
  | .block n b => .block n (Stmt.unwrappedAll b)

def Stmt.unwrappedAll : List Stmt → List Stmt
  | [] => []
  | s :: ss => s.unwrapped :: Stmt.unwrappedAll ss

end

/-- The expression that a tree with inserted casts came from: as many casts are taken from around an
operand as there are conversions noted on it, and the note goes back to what was inside. -/
def Expr.unwrapped (e : Expr) : Expr :=
  (e.inside e.note.widening.length).withWidening e.note.widening

/-- The program that one with inserted casts came from. -/
def Program.unwrapped (p : Program) : Program :=
  { p with
    funcs := p.funcs.map fun f => { f with body := Stmt.unwrappedAll f.body }
    main := Stmt.unwrappedAll p.main }

namespace Widening

lemma inside_cast (r : Registry) (e : Expr) (p : Prim) (chain : List Prim) (k : Nat) :
    ((cast r e p).withWidening chain).inside (k + 1) = e.inside k := by
  unfold cast
  cases r.resolve .cast [.literal (.prim p), e.ty?.getD .error] <;>
    simp [Expr.withWidening, Expr.withNote, Expr.inside, Expr.insideOperand]

lemma withWidening_cast (r : Registry) (e : Expr) (p : Prim) :
    (cast r e p).withWidening [] = cast r e p := by
  unfold cast
  cases r.resolve .cast [.literal (.prim p), e.ty?.getD .error] <;> rfl

/-- Inside as many casts as were put around an expression is that expression. -/
lemma inside_foldl_cast (r : Registry) (e : Expr) (chain : List Prim) :
    (chain.foldl (cast r) e).inside chain.length = e.inside 0 := by
  induction chain using List.reverseRecOn with
  | nil => rfl
  | append_singleton chain p ih =>
    rw [List.foldl_concat, List.length_append, List.length_singleton, ← withWidening_cast,
      inside_cast, ih]

lemma note_withWidening (e : Expr) (chain : List Prim) :
    (e.withWidening chain).note = { e.note with widening := chain } := by
  cases e <;> rfl

/-- Taking out what `wrap` puts around an expression. -/
lemma unwrapped_wrap (r : Registry) (e : Expr) :
    (wrap r e).unwrapped = ((e.withWidening []).inside 0).withWidening e.note.widening := by
  unfold wrap
  split
  · next hchain =>
    have he : e.withWidening [] = e := by
      cases e with
      | number n | floatNumber n | char n | string n | bool n | ident n | operator n | typeLiteral n
      | arrayLiteral n | arrayAlloc n | index n | call n | lambda n =>
        obtain ⟨place, ty, widening⟩ := n
        cases hchain
        rfl
    rw [Expr.unwrapped, hchain, he, List.length_nil]
  · next hne =>
    rw [Expr.unwrapped, note_withWidening]
    dsimp only
    congr 1
    obtain hnil | ⟨chain, p, hchain⟩ := List.eq_nil_or_concat e.note.widening
    · exact absurd hnil hne
    · rw [hchain, List.concat_eq_append, List.foldl_concat, List.length_append, List.length_singleton, inside_cast,
        inside_foldl_cast]

end Widening

mutual

/-- Taking out the casts that were inserted gives back the tree. -/
theorem Expr.unwrapped_applyWidening (r : Registry) : ∀ e : Expr, (e.applyWidening r).unwrapped = e
  | .number .. | .floatNumber .. | .char .. | .string .. | .bool .. | .ident .. | .typeLiteral .. => by
    rw [Expr.applyWidening, Widening.unwrapped_wrap]
    rfl
  | .operator _ op es g => by
    rw [Expr.applyWidening, Widening.unwrapped_wrap]
    exact congrArg (Expr.operator _ op · g) (Expr.unwrappedAll_applyWidenings r es)
  | .arrayLiteral _ es => by
    rw [Expr.applyWidening, Widening.unwrapped_wrap]
    exact congrArg (Expr.arrayLiteral _) (Expr.unwrappedAll_applyWidenings r es)
  | .arrayAlloc _ t l => by
    rw [Expr.applyWidening, Widening.unwrapped_wrap]
    exact congrArg (Expr.arrayAlloc _ t) (Expr.unwrapped_applyWidening r l)
  | .index _ a i => by
    rw [Expr.applyWidening, Widening.unwrapped_wrap]
    exact congrArg₂ (Expr.index _) (Expr.unwrapped_applyWidening r a)
      (Expr.unwrapped_applyWidening r i)
  | .call _ f es => by
    rw [Expr.applyWidening, Widening.unwrapped_wrap]
    exact congrArg₂ (Expr.call _) (Expr.unwrapped_applyWidening r f)
      (Expr.unwrappedAll_applyWidenings r es)
  | .lambda _ h b => by
    rw [Expr.applyWidening, Widening.unwrapped_wrap]
    exact congrArg (Expr.lambda _ h) (Stmt.unwrappedAll_applyWidenings r b)

theorem Expr.unwrappedAll_applyWidenings (r : Registry) : ∀ es : List Expr,
    Expr.unwrappedAll (Expr.applyWidenings r es) = es
  | [] => by simp only [Expr.applyWidenings, Expr.unwrappedAll]
  | e :: es => by
    simp only [Expr.applyWidenings, Expr.unwrappedAll]
    exact congrArg₂ List.cons (Expr.unwrapped_applyWidening r e)
      (Expr.unwrappedAll_applyWidenings r es)

theorem PrintItem.unwrappedAll_applyWidenings (r : Registry) : ∀ is : List PrintItem,
    PrintItem.unwrappedAll (PrintItem.applyWidenings r is) = is
  | [] => by simp only [PrintItem.applyWidenings, PrintItem.unwrappedAll]
  | .separator p k :: is => by
    simp only [PrintItem.applyWidenings, PrintItem.unwrappedAll,
      PrintItem.unwrappedAll_applyWidenings r is]
  | .value e :: is => by
    simp only [PrintItem.applyWidenings, PrintItem.unwrappedAll]
    exact congrArg₂ (fun e is => PrintItem.value e :: is) (Expr.unwrapped_applyWidening r e)
      (PrintItem.unwrappedAll_applyWidenings r is)

theorem Stmt.unwrapped_applyWidening (r : Registry) : ∀ s : Stmt, (s.applyWidening r).unwrapped = s
  | .varDecl _ _ _ e _ => by
    simp only [Stmt.applyWidening, Stmt.unwrapped]
    exact congrArg (Stmt.varDecl _ _ _ · _) (Expr.unwrapped_applyWidening r e)
  | .assign _ t v => by
    simp only [Stmt.applyWidening, Stmt.unwrapped]
    exact congrArg₂ (Stmt.assign _) (Expr.unwrapped_applyWidening r t)
      (Expr.unwrapped_applyWidening r v)
  | .print _ is => by
    simp only [Stmt.applyWidening, Stmt.unwrapped, PrintItem.unwrappedAll_applyWidenings r is]
  | .call _ c => by
    simp only [Stmt.applyWidening, Stmt.unwrapped]
    exact congrArg (Stmt.call _) (Expr.unwrapped_applyWidening r c)
  | .give _ v => by
    simp only [Stmt.applyWidening, Stmt.unwrapped]
    exact congrArg (Stmt.give _) (Expr.unwrapped_applyWidening r v)
  | .leave _ => by simp only [Stmt.applyWidening, Stmt.unwrapped]
  | .ifThen _ c b => by
    simp only [Stmt.applyWidening, Stmt.unwrapped]
    exact congrArg₂ (Stmt.ifThen _) (Expr.unwrapped_applyWidening r c)
      (Stmt.unwrappedAll_applyWidenings r b)
  | .ifElse _ c b a => by
    simp only [Stmt.applyWidening, Stmt.unwrapped, Stmt.unwrappedAll_applyWidenings r b,
      Stmt.unwrapped_applyWidening r a]
    exact congrArg (Stmt.ifElse _ · _ _) (Expr.unwrapped_applyWidening r c)
  | .while _ c b => by
    simp only [Stmt.applyWidening, Stmt.unwrapped]
    exact congrArg₂ (Stmt.while _) (Expr.unwrapped_applyWidening r c)
      (Stmt.unwrappedAll_applyWidenings r b)
  | .block _ b => by
    simp only [Stmt.applyWidening, Stmt.unwrapped, Stmt.unwrappedAll_applyWidenings r b]

theorem Stmt.unwrappedAll_applyWidenings (r : Registry) : ∀ ss : List Stmt,
    Stmt.unwrappedAll (Stmt.applyWidenings r ss) = ss
  | [] => by simp only [Stmt.applyWidenings, Stmt.unwrappedAll]
  | s :: ss => by
    simp only [Stmt.applyWidenings, Stmt.unwrappedAll, Stmt.unwrapped_applyWidening r s,
      Stmt.unwrappedAll_applyWidenings r ss]

end

/-- Taking out the casts that were inserted into a program gives back the program. -/
theorem Program.unwrapped_applyWidening (r : Registry) (p : Program) :
    (p.applyWidening r).unwrapped = p := by
  simp [Program.applyWidening, Program.unwrapped, Stmt.unwrappedAll_applyWidenings,
    Function.comp_def]

/-! ## Signatures that take operands as they are -/

mutual

/-- Whether every operator has a signature of the language that takes its operands as they are and gives
its type. -/
def Expr.Signed : Expr → Prop
  | .operator n op es g =>
    (∃ s t, g = some s ∧ n.ty = some t ∧ s ∈ Registry.standard ∧ s.key = op ∧
      Registry.Takes s (es.map Expr.checkedTy) t) ∧ Expr.SignedAll es
  | .arrayLiteral _ es => Expr.SignedAll es
  | .arrayAlloc _ _ l => l.Signed
  | .index _ a i => a.Signed ∧ i.Signed
  | .call _ f es => f.Signed ∧ Expr.SignedAll es
  | .lambda _ _ b => Stmt.SignedAll b
  | .number .. | .floatNumber .. | .char .. | .string .. | .bool .. | .ident .. | .typeLiteral .. => True

def Expr.SignedAll : List Expr → Prop
  | [] => True
  | e :: es => e.Signed ∧ Expr.SignedAll es

def PrintItem.SignedAll : List PrintItem → Prop
  | [] => True
  | .separator _ _ :: is => PrintItem.SignedAll is
  | .value e :: is => e.Signed ∧ PrintItem.SignedAll is

def Stmt.Signed : Stmt → Prop
  | .varDecl _ _ _ e _ => e.Signed
  | .assign _ t v => t.Signed ∧ v.Signed
  | .print _ is => PrintItem.SignedAll is
  | .call _ c => c.Signed
  | .give _ v => v.Signed
  | .leave _ => True
  | .ifThen _ c b => c.Signed ∧ Stmt.SignedAll b
  | .ifElse _ c b a => c.Signed ∧ Stmt.SignedAll b ∧ a.Signed
  | .while _ c b => c.Signed ∧ Stmt.SignedAll b
  | .block _ b => Stmt.SignedAll b

def Stmt.SignedAll : List Stmt → Prop
  | [] => True
  | s :: ss => s.Signed ∧ Stmt.SignedAll ss

end

/-- Whether every operator of a program has a signature that takes its operands as they are. -/
def Program.Signed (p : Program) : Prop :=
  (∀ f ∈ p.funcs, Stmt.SignedAll f.body) ∧ Stmt.SignedAll p.main

section

open Registry (standard)

lemma Expr.settled_withWidening (e : Expr) (chain : List Prim) :
    (e.withWidening chain).settled = e.settled := by
  cases e <;> simp only [Expr.withWidening, Expr.withNote, Expr.note, Expr.settled]

lemma Expr.checkedTy_settled (e : Expr) : e.settled.checkedTy = e.checkedTy := by
  cases e <;> simp only [Expr.settled] <;> rfl

lemma Expr.map_checkedTy_settledAll : ∀ es : List Expr,
    (Expr.settledAll es).map Expr.checkedTy = es.map Expr.checkedTy
  | [] => by simp only [Expr.settledAll, List.map_nil]
  | e :: es => by
    simp only [Expr.settledAll, List.map_cons, Expr.checkedTy_settled,
      Expr.map_checkedTy_settledAll es]

namespace Widening

lemma cast_eq {e : Expr} {p : Prim} {source t : Ty} {s : Signature} (he : e.ty? = some source)
    (hs : standard.resolve .cast [.literal (.prim p), source] = some (s, t)) :
    cast standard e p = .operator { place := e.note.place, ty := some t } .cast
      [.ofType e.note.place (.prim p), e] (some s) := by
  simp [cast, he, hs]

lemma signed_cast {e : Expr} {p : Prim} {source t : Ty} {s : Signature} (h : e.settled.Signed)
    (he : e.ty? = some source) (hg : source.isGround)
    (hs : standard.resolve .cast [.literal (.prim p), source] = some (s, t)) :
    (cast standard e p).settled.Signed := by
  have hground : ∀ u ∈ [Ty.literal (.prim p), source], u.isGround := by
    simpa using ⟨rfl, hg⟩
  obtain ⟨hmem, hkey, htakes⟩ := Registry.resolve_standard hground hs
  have hty : e.settled.checkedTy = source := by
    rw [Expr.checkedTy_settled, Expr.checkedTy, he]
    rfl
  rw [cast_eq he hs]
  simp only [Expr.settled, Expr.settledAll, Expr.Signed, Expr.SignedAll, Expr.ofType, List.map_cons,
    List.map_nil, hty]
  exact ⟨⟨s, t, rfl, rfl, hmem, hkey, htakes⟩, trivial, h, trivial⟩

end Widening

/-- What holds of an operand, is kept by a cast to the next type and does not look at the notes of
conversions, holds of the operand with its casts inserted. -/
lemma Widens.attached_induction {motive : Expr → Prop} {e : Expr} {t : Ty} {w : Widened}
    (h : Widens t w) (he : e.ty? = some t ∧ e.note.widening = [])
    (base : motive (e.applyWidening standard))
    (cast : ∀ (x : Expr) (source p : Prim) (s : Signature), x.ty? = some (.prim source) →
      source ≠ .error → standard.resolve .cast [.literal (.prim p), .prim source] = some (s, .prim p) →
      motive x → motive (Widening.cast standard x p))
    (note : ∀ x chain, motive x → motive (x.withWidening chain)) :
    motive ((Widening.attached e w).applyWidening standard) := by
  have hty : (e.applyWidening standard).ty? = some t := (Expr.ty?_applyWidening he.2).trans he.1
  cases h with
  | same t => exact base
  | charToInt =>
    rw [Widening.attached, if_neg (by simp),
      Expr.applyWidening_withWidening he.2 (List.cons_ne_nil _ _)]
    exact note _ _ (cast _ .character .integer _ hty (by decide) rfl base)
  | intToFloat =>
    rw [Widening.attached, if_neg (by simp),
      Expr.applyWidening_withWidening he.2 (List.cons_ne_nil _ _)]
    exact note _ _ (cast _ .integer .float _ hty (by decide) rfl base)
  | charToFloat =>
    rw [Widening.attached, if_neg (by simp),
      Expr.applyWidening_withWidening he.2 (List.cons_ne_nil _ _)]
    have hint : (Widening.cast standard (e.applyWidening standard) .integer).ty? = some .integer := by
      rw [Widening.cast_eq hty rfl]
      rfl
    exact note _ _ (cast _ .integer .float _ hint (by decide) rfl
      (cast _ .character .integer _ hty (by decide) rfl base))

lemma Widens.signed_attached {e : Expr} {t : Ty} {w : Widened} (h : Widens t w)
    (he : e.ty? = some t ∧ e.note.widening = []) (hs : (e.applyWidening standard).settled.Signed) :
    ((Widening.attached e w).applyWidening standard).settled.Signed := by
  refine h.attached_induction (motive := fun x => x.settled.Signed) he hs ?_ ?_
  · intro x source p s hty _ hres hx
    exact Widening.signed_cast hx hty rfl hres
  · intro x chain hx
    rwa [Expr.settled_withWidening]

/-- The types of operands with their casts inserted. -/
lemma Expr.ElabAll.checkedTy_attach {r : Rules} {Γ : Ctx} {es es' : List Expr} {ws : List Widened}
    (h : Expr.ElabAll r Γ es es') (hws : List.Forall₂ Widens (es'.map Expr.checkedTy) ws) :
    (Expr.settledAll (Expr.applyWidenings standard (Widening.attach es' ws))).map Expr.checkedTy =
      Widening.types ws := by
  have hty := congrArg (List.map fun t : Option Ty => t.getD .error) (h.ty?_attach hws)
  rw [List.map_map, List.map_map] at hty
  rw [Expr.map_checkedTy_settledAll]
  exact hty.trans (List.map_id _)

mutual

/-- In an elaborated expression with its casts inserted every signature takes operands as they are. -/
theorem Expr.Elab.signed {r : Rules} (hr : r.registry = standard) {Γ : Ctx} (hΓ : Γ.allValues) :
    ∀ {k : Bool} {e e' : Expr}, Expr.Elab r Γ k e e' → e.isSource →
      (e'.applyWidening standard).settled.Signed
  | _, _, _, .number, _ | _, _, _, .floatNumber, _ | _, _, _, .char, _ | _, _, _, .string, _
  | _, _, _, .bool, _ | _, _, _, .ident .., _ | _, _, _, .typeLiteral, _ => trivial
  | _, _, _, @Expr.Elab.operator _ _ _ n op _ _ es' s t ws operands rule, hs => by
    obtain ⟨hmem, hkey, htakes, hws⟩ := Rules.operator_spec hr (operands.isGround hr hΓ hs) rule
    refine ⟨⟨s, t, rfl, rfl, hmem, hkey, ?_⟩, operands.signed hr hΓ hs hws⟩
    rw [operands.checkedTy_attach hws]
    exact htakes
  | _, _, _, @Expr.Elab.arrayLiteral _ _ _ n _ es' t ws elems rule, hs => by
    simp only [Expr.isSource, Bool.and_eq_true, Bool.not_eq_true', List.isEmpty_eq_false_iff] at hs
    have hes := (elems.isOperand hr hΓ hs.2).2 rfl
    have hws := (Rules.elements_spec (elems.map_ne_nil hs.1) (by simpa using hes) rule).2.2
    exact elems.signed hr hΓ hs.2 hws
  | _, _, _, @Expr.Elab.arrayAlloc _ _ _ _ _ _ l' t' chain length rule, hs => by
    simp only [Expr.isSource, Bool.and_eq_true] at hs
    exact (Rules.length_spec rule).2.signed_attached length.ty?_eq (length.signed hr hΓ hs.2)
  | _, _, _, .index array position _, hs => by
    simp only [Expr.isSource, Bool.and_eq_true] at hs
    exact ⟨array.signed hr hΓ hs.1, position.signed hr hΓ hs.2⟩
  | _, _, _, .call callee args rule _, hs => by
    simp only [Expr.isSource, Bool.and_eq_true] at hs
    have hws := (Rules.call_spec (Ty.isGround_of_isValue _ (callee.isValue hr hΓ hs.1))
      (args.isGround hr hΓ hs.2) rule).2
    exact ⟨callee.signed hr hΓ hs.1, args.signed hr hΓ hs.2 hws⟩
  | _, _, _, .lambda params _ body, hs => by
    simp only [Expr.isSource, Bool.and_eq_true] at hs
    exact body.signed hr hs.2 (Ctx.allValues_enter (Ctx.allValues_inFunc hΓ hs.1 params))

theorem Expr.ElabAll.signed {r : Rules} (hr : r.registry = standard) {Γ : Ctx} (hΓ : Γ.allValues) :
    ∀ {conversion : Bool} {es es' : List Expr} {ws : List Widened}, Expr.ElabAll r Γ es es' →
      Expr.areSource conversion es → List.Forall₂ Widens (es'.map Expr.checkedTy) ws →
      Expr.SignedAll (Expr.settledAll (Expr.applyWidenings standard (Widening.attach es' ws)))
  | _, _, _, _, .nil, _, .nil => trivial
  | conversion, _, _, _, @Expr.ElabAll.cons _ _ e _ e' _ head tail, hs, .cons hw hws => by
    simp only [Expr.areSource, Bool.and_eq_true] at hs
    have he : (e'.applyWidening standard).settled.Signed := by
      cases conversion with
      | true =>
        cases head with
        | typeLiteral => trivial
        | _ => simp [Expr.isConversionTarget] at hs
      | false => exact head.signed hr hΓ hs.1
    exact ⟨hw.signed_attached head.ty?_eq he, tail.signed hr hΓ hs.2 hws⟩

theorem PrintItem.ElabAll.signed {r : Rules} (hr : r.registry = standard) {Γ : Ctx}
    (hΓ : Γ.allValues) : ∀ {is is' : List PrintItem}, PrintItem.ElabAll r Γ is is' →
      PrintItem.areSource is →
      PrintItem.SignedAll (PrintItem.settledAll (PrintItem.applyWidenings standard is'))
  | _, _, .nil, _ => trivial
  | _, _, .separator tail, hs => tail.signed hr hΓ hs
  | _, _, .value head tail, hs => by
    simp only [PrintItem.areSource, Bool.and_eq_true] at hs
    exact ⟨head.signed hr hΓ hs.1, tail.signed hr hΓ hs.2⟩

theorem Stmt.Elab.signed {r : Rules} (hr : r.registry = standard) {result : Option Ty} :
    ∀ {Γ Γ' : Ctx} {s s' : Stmt}, Stmt.Elab r result Γ s s' Γ' → s.isSource → Γ.allValues →
      (s'.applyWidening standard).settled.Signed
  | _, _, _, _, .varDecl init _, hs, hΓ => init.signed hr hΓ hs
  | _, _, _, _, .assign value target _ _, hs, hΓ => by
    simp only [Stmt.isSource, Bool.and_eq_true] at hs
    exact ⟨target.signed hr hΓ hs.1.2, value.signed hr hΓ hs.2⟩
  | _, _, _, _, .print items, hs, hΓ => items.signed hr hΓ hs
  | _, _, _, _, .call call, hs, hΓ => call.signed hr hΓ hs
  | _, _, _, _, .give value _, hs, hΓ => value.signed hr hΓ hs
  | _, _, _, _, .leave, _, _ => trivial
  | _, _, _, _, .ifThen cond _ body, hs, hΓ | _, _, _, _, .while cond _ body, hs, hΓ => by
    simp only [Stmt.isSource, Bool.and_eq_true] at hs
    exact ⟨cond.signed hr hΓ hs.1, body.signed hr hs.2 (Ctx.allValues_enter hΓ)⟩
  | _, _, _, _, .ifElse cond _ body alternative, hs, hΓ => by
    simp only [Stmt.isSource, Bool.and_eq_true] at hs
    exact ⟨cond.signed hr hΓ hs.1.1, body.signed hr hs.1.2 (Ctx.allValues_enter hΓ),
      alternative.signed hr hs.2.2 hΓ⟩
  | _, _, _, _, .block body, hs, hΓ => body.signed hr hs (Ctx.allValues_enter hΓ)

theorem Stmt.ElabAll.signed {r : Rules} (hr : r.registry = standard) {result : Option Ty} :
    ∀ {Γ Γ' : Ctx} {ss ss' : List Stmt}, Stmt.ElabAll r result Γ ss ss' Γ' → Stmt.areSource ss →
      Γ.allValues → Stmt.SignedAll (Stmt.settledAll (Stmt.applyWidenings standard ss'))
  | _, _, _, _, .nil, _, _ => trivial
  | _, _, _, _, .cons head tail, hs, hΓ => by
    simp only [Stmt.areSource, Bool.and_eq_true] at hs
    exact ⟨head.signed hr hs.1 hΓ, tail.signed hr hs.2 (head.allValues hr hs.1 hΓ)⟩

end

end

end SubrLang
