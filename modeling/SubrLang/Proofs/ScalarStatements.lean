import SubrLang.Proofs.ScalarOperators

/-!
# Scalar statements

The code of an expression or a statement of a scalar program does what the evaluation of the tree does.

**Variables.** Variables are kept in the global block of the program, one behind the other, so the bytes of
a variable lie above those of all older ones. `Globals.Stores` says that memory has the values of a store in
this way. A block gives its storage back, and what it declared is overwritten later.

**Expressions.** `Expr.Elab.computes` goes along the rules of elaboration: the code that lowering makes of
a checked expression computes the value of the unchecked one.

**Statements.** `Globals.Leads` compares the outcome of an execution with what the machine does: it comes to
a place of the program with the same values and the same output, or to the trap, or, where the fuel did not
suffice, it is still running after as many instructions. `Stmt.Elab.leads` goes along the rules again, and a
loop is followed round by round.
-/

namespace SubrLang

open Registry (standard)

/-! ## Variables -/

namespace Globals

open Code

variable {P : Code} (G : Globals P)

/-- The address of a variable. -/
def place (b : Binding) : Nat := G.start + b.offset.toNat

/-- A variable lies in the first `n` bytes of the global block, and memory has its value there. -/
structure Has (mem : Memory) (n : Nat) (b : Binding) (v : Value) : Prop where
  ty : b.ty = v.scalar.ty
  base : b.base = .globals
  nonneg : 0 ≤ b.offset
  fits : b.offset.toNat + b.ty.slot.size ≤ n
  value : mem.fetch b.ty.slot (G.place b) = .int v.word

/-- Names are bound to variables in the first `n` bytes of the global block that have the values of a store.
Each lies above the older ones. -/
inductive Stores (mem : Memory) : Nat → List (String × Binding) → Store → Prop
  | nil {n} : Stores mem n [] []
  | cons {n x b v ns ρ} (head : G.Has mem n b v) (older : Stores mem b.offset.toNat ns ρ) :
      Stores mem n ((x, b) :: ns) ((x, v) :: ρ)

variable {G} {mem : Memory} {x : String} {b : Binding} {v : Value} {n k : Nat}
  {ms ns : List (String × Binding)} {ρ ρ' : Store}

lemma Has.mono (h : G.Has mem n b v) (hn : n ≤ k) : G.Has mem k b v :=
  { h with fits := h.fits.trans hn }

/-- A store above a variable does not change it. -/
lemma Has.put {s : Slot} {j : Nat} {w : Word} (h : G.Has mem n b v) (hj : G.start + n ≤ j) :
    G.Has (mem.put s j w) n b v := by
  have hfits := h.fits
  refine { h with value := ?_ }
  rw [Memory.fetch_put_of_apart (.inl (by simp only [place]; omega))]
  exact h.value

lemma Stores.put {s : Slot} {j : Nat} {w : Word} (h : G.Stores mem n ns ρ) (hj : G.start + n ≤ j) :
    G.Stores (mem.put s j w) n ns ρ := by
  induction h with
  | nil => exact .nil
  | cons head older ih =>
    have hfits := head.fits
    exact .cons (head.put hj) (ih (by omega))

lemma Stores.length_eq (h : G.Stores mem n ns ρ) : ρ.length = ns.length := by
  induction h with
  | nil => rfl
  | cons head older ih => simp [ih]

/-- The variables that are left when the latest ones are forgotten. -/
lemma Stores.drop (h : G.Stores mem n (ms ++ ns) ρ) : ∃ k, G.Stores mem k ns (ρ.drop ms.length) := by
  induction ms generalizing n ρ with
  | nil => exact ⟨n, h⟩
  | cons p ms ih =>
    rcases h with _ | ⟨head, older⟩
    exact ih older

/-- Where variables lie does not depend on their values. -/
lemma Stores.within {mem' : Memory} (h : G.Stores mem n ns ρ) (h' : G.Stores mem' k ns ρ') :
    G.Stores mem' n ns ρ' := by
  rcases h with _ | ⟨head, older⟩
  · rcases h' with _ | _
    exact .nil
  · rcases h' with _ | ⟨head', older'⟩
    exact .cons { head' with fits := head.fits } older'

lemma Stores.exists_lookup (h : G.Stores mem n ns ρ) (hx : ns.lookup x = some b) :
    ∃ v, ρ.lookup x = some v ∧ G.Has mem n b v := by
  induction h with
  | nil => cases hx
  | @cons n y b' v ns ρ head older ih =>
    rw [List.lookup_cons] at hx ⊢
    cases hxy : x == y with
    | true =>
      rw [hxy] at hx
      cases hx
      exact ⟨v, rfl, head⟩
    | false =>
      rw [hxy] at hx
      obtain ⟨v', hv', hb⟩ := ih hx
      exact ⟨v', hv', hb.mono (by have := head.fits; omega)⟩

/-- Storing a value in the variable that a name stands for is an assignment. -/
lemma Stores.assign (h : G.Stores mem n ns ρ) (hx : ns.lookup x = some b) (hv : b.ty = v.scalar.ty)
    (hn : G.start + n ≤ mem.size) : ∃ ρ', ρ.assign x v = some ρ' ∧
      G.Stores (mem.put b.ty.slot (G.place b) (.int v.word)) n ns ρ' := by
  induction h with
  | nil => cases hx
  | @cons n y b' v' ns ρ head older ih =>
    have hfits := head.fits
    rw [List.lookup_cons] at hx
    rw [Store.assign]
    by_cases hxy : x = y
    · subst hxy
      rw [beq_self_eq_true] at hx
      cases hx
      rw [if_pos rfl]
      refine ⟨_, rfl, .cons { head with ty := hv, value := ?_ } (older.put (by rfl))⟩
      refine Memory.fetch_put (by simp only [place]; omega) ?_
      rw [hv]
      exact v.fits
    · rw [beq_false_of_ne hxy] at hx
      obtain ⟨ρ', hρ', hstores⟩ := ih hx (by omega)
      obtain ⟨w, -, hb⟩ := older.exists_lookup hx
      rw [if_neg hxy, hρ']
      refine ⟨_, rfl, .cons { head with value := ?_ } hstores⟩
      -- the variable of the name is an older one
      have hbelow := hb.fits
      rw [Memory.fetch_put_of_apart (.inr (by simp only [place]; omega))]
      exact head.value

lemma takes_address {st : List Word} {out : List UInt8} (hbase : b.base = .globals)
    (hoffset : 0 ≤ b.offset) :
    Takes P b.address ⟨st, mem, out⟩ ⟨.address (G.place b) :: st, mem, out⟩ := by
  have hcode : b.address =
      pushD Cell.globals ++ (pushI b.offset ++ [⟨.plain .add, b.name⟩]) := by
    simp only [Binding.address, hbase]
    rfl
  have hsum : Int32.ofNat G.start + Int32.ofInt b.offset = Int32.ofNat (G.place b) :=
    ofNat_add_ofInt (by simp only [place]; omega)
  rw [hcode, Word.address, ← hsum]
  exact (takes_pushD_address G.holds).append ((takes_pushI _).append (takes_effect rfl))

/-- The bytes of the global block can be addressed. -/
lemma Ready.inside_place (h : G.Ready mem) (hn : n ≤ G.size) (hb : b.offset.toNat + k ≤ n)
    (hk : 0 < k) : mem.Inside (G.place b) k := by
  have hsmall := G.small
  have hinside := h.inside
  constructor <;> simp only [place] <;> omega

end Globals

lemma Slot.size_pos (s : Slot) : 0 < s.size := by cases s <;> decide

lemma Scalar.size_ty (t : Scalar) : t.ty.size = t.ty.slot.size := by cases t <;> rfl

/-! ## Expressions -/

lemma Scalar.eq_ty_of_ofTy? {t : Ty} {u : Scalar} (h : Scalar.ofTy? t = some u) : t = u.ty := by
  unfold Scalar.ofTy? at h
  split at h <;> cases h <;> rfl

/-- No operand is a float if widening needs no instructions. -/
lemma Widening.any_isFloat {es : List Expr} {ws : List Widened}
    (h : es.map Expr.ty? = (Widening.types ws).map some) (hquiet : Widening.isQuiet ws) :
    (es.head?.bind Expr.ty?).any (·.isPrim .float) = false := by
  cases es with
  | nil => rfl
  | cons e es =>
    cases ws with
    | nil => cases h
    | cons w ws =>
      simp only [List.map_cons, Widening.types, List.cons.injEq] at h
      simp only [Widening.isQuiet, List.all_cons, Bool.and_eq_true] at hquiet
      simpa [h.1] using hquiet.1.2

namespace Expr

open Code Globals Lower

variable {P : Code} {G : Globals P} {mem : Memory} {Γ : Ctx} {ρ : Store} {r : Rules}

/-- The lowering of an operator, part by part. -/
lemma run_operator {n : Note} {op : TokenKind} {es : List Expr} {s : Signature} {t : Ty}
    {st st' : LowerState} {c : Code}
    (hrun : ((Expr.operator (n.typed t) op es (some s)).applyWidening standard).lowerValue.run st =
      .ok (c, st')) :
    ∃ l cs st₁ st₂,
      (Expr.lowerAll (op == .cast) (Expr.applyWidenings standard es)).run st₁ = .ok (cs, st₂) ∧
      (applyVariant s.variant
        (((Expr.applyWidenings standard es).head?.bind Expr.ty?).any (·.isPrim .float)) l cs).run st₂ =
          .ok (c, st') := by
  obtain ⟨f, st₁, hlower, hvalue⟩ := run_bind hrun
  obtain ⟨l, st₂, -, hlower⟩ := run_bind hlower
  obtain ⟨cs, st₃, hcs, hlower⟩ := run_bind hlower
  obtain ⟨c', st₄, hc, hlower⟩ := run_bind hlower
  obtain ⟨rfl, rfl⟩ := run_pure hlower
  obtain ⟨rfl, rfl⟩ := run_pure hvalue
  exact ⟨l, cs, st₂, st₃, hcs, hc⟩

lemma exists_typeLiteral {e : Expr} {u : Scalar} (h : e.scalarTarget? = some u) :
    ∃ n, e = .typeLiteral n u.ty := by
  cases e with
  | typeLiteral n t => exact ⟨n, by rw [Scalar.eq_ty_of_ofTy? h]⟩
  | _ => cases h

mutual

/-- The code of a checked expression computes the value of the expression. -/
theorem Elab.computes {m : Nat} (hr : r.registry = standard) (hready : G.Ready mem)
    (hm : m ≤ G.size) (hstores : G.Stores mem m Γ.names ρ) :
    ∀ {k : Bool} {e e' : Expr}, Expr.Elab r Γ k e e' → e.isScalar →
      ∃ t : Scalar, e'.checkedTy = t.ty ∧ ∀ {st st' : LowerState} {c : Code},
        (e'.applyWidening standard).lowerValue.run st = .ok (c, st') →
          G.Computes mem c [] t (e.eval ρ)
  | _, _, _, .number (v := v), _ => by
    refine ⟨.int, rfl, fun hrun => ?_⟩
    obtain ⟨rfl, -⟩ := run_pure hrun
    refine ⟨rfl, fun st out => ?_⟩
    have hpush : Takes P (pushI v.toInt) ⟨st, mem, out⟩
      ⟨.int (Int32.ofInt v.toInt) :: st, mem, out⟩ := takes_pushI _
    rwa [Int32.ofInt_toInt] at hpush
  | _, _, _, .char (v := c), _ => by
    refine ⟨.char, rfl, fun hrun => ?_⟩
    obtain ⟨rfl, -⟩ := run_pure hrun
    exact ⟨rfl, fun st out => takes_pushI c.toNat⟩
  | _, _, _, .bool (v := b), _ => by
    refine ⟨.bool, rfl, fun hrun => ?_⟩
    obtain ⟨rfl, -⟩ := run_pure hrun
    refine ⟨rfl, fun st out => ?_⟩
    cases b <;> exact takes_pushI _
  | _, _, _, .ident (x := x) (b := b) find own, _ => by
    rw [Ctx.find?_eq_lookup] at find
    obtain ⟨v, hv, hhas⟩ := hstores.exists_lookup find
    refine ⟨v.scalar, hhas.ty, fun hrun => ?_⟩
    obtain ⟨rfl, -⟩ := run_pure hrun
    rw [Expr.eval, hv]
    refine ⟨rfl, fun st out => ?_⟩
    have hload : Takes P (ops [b.ty.loadOp]) ⟨.address (G.place b) :: st, mem, out⟩
        ⟨.int v.word :: st, mem, out⟩ := by
      rw [Ty.loadOp_eq]
      exact takes_loadOp _ (hready.inside_place hm hhas.fits (Slot.size_pos _)) hhas.value
    exact (takes_address hhas.base hhas.nonneg).append hload
  | _, _, _, @Expr.Elab.operator _ _ _ _ op es _ es' g t ws operands rule, hs => by
    simp only [Expr.isScalar, Bool.and_eq_true] at hs
    by_cases hcast : op = .cast
    · subst hcast
      obtain ⟨u, u', a, hes, rfl, hoperation, hcomputes⟩ :=
        ElabAll.computes_cast hr hready hm hstores operands hs.2 rule
      refine ⟨u, rfl, fun hrun => ?_⟩
      obtain ⟨l, cs, st₁, st₂, hcs, hcode⟩ := run_operator hrun
      obtain ⟨c, rfl, hc⟩ := hcomputes hcs
      rw [Expr.eval, hes]
      exact computes_conversion hoperation hc hcode
    · have hop : op.isScalar := by simpa [hcast] using hs.1
      have hes : Expr.areScalar false es := by simpa [beq_false_of_ne hcast] using hs.2
      obtain ⟨ts, hts, hall⟩ := ElabAll.computes hr hready hm hstores operands hes
      have hground : ∀ t ∈ es'.map Expr.checkedTy, t.isGround := by
        rw [hts]
        simp [Scalar.isGround_ty]
      obtain ⟨-, -, -, hws⟩ := Rules.operator_spec hr hground rule
      rw [hts] at rule
      obtain ⟨u, hoperation, rfl, hquiet⟩ := Rules.operator_scalar hr hop rule
      refine ⟨u, rfl, fun hrun => ?_⟩
      obtain ⟨l, cs, st₁, st₂, hcs, hcode⟩ := run_operator hrun
      rw [Widening.any_isFloat (operands.ty?_attach hws) hquiet] at hcode
      rw [beq_false_of_ne hcast] at hcs
      exact computes_operation hready hoperation (hall hws hquiet hcs) hcode _
  | _, _, _, .floatNumber, hs | _, _, _, .string, hs | _, _, _, .typeLiteral, hs
  | _, _, _, .arrayLiteral .., hs | _, _, _, .arrayAlloc .., hs | _, _, _, .index .., hs
  | _, _, _, .call .., hs | _, _, _, .lambda .., hs => by simp [Expr.isScalar] at hs

theorem ElabAll.computes {m : Nat} (hr : r.registry = standard) (hready : G.Ready mem)
    (hm : m ≤ G.size) (hstores : G.Stores mem m Γ.names ρ) :
    ∀ {es es' : List Expr}, Expr.ElabAll r Γ es es' → Expr.areScalar false es →
      ∃ ts : List Scalar, es'.map Expr.checkedTy = ts.map Scalar.ty ∧ ∀ {ws : List Widened},
        List.Forall₂ Widens (es'.map Expr.checkedTy) ws → Widening.isQuiet ws →
          ∀ {st st' : LowerState} {cs : List Code},
            (Expr.lowerAll false (Expr.applyWidenings standard (Widening.attach es' ws))).run st =
                .ok (cs, st') →
              G.Operands mem cs ts (Expr.evalAll ρ es)
  | _, _, .nil, _ => by
    refine ⟨[], rfl, fun _ _ _ _ _ hrun => ?_⟩
    obtain ⟨rfl, -⟩ := run_pure hrun
    exact .nil
  | _, _, .cons head tail, hs => by
    simp only [Expr.areScalar, Bool.false_eq_true, if_false, Bool.and_eq_true] at hs
    obtain ⟨t, ht, hhead⟩ := Elab.computes hr hready hm hstores head hs.1
    obtain ⟨ts, hts, htail⟩ := ElabAll.computes hr hready hm hstores tail hs.2
    refine ⟨t :: ts, by simp [ht, hts], fun hws hquiet st st' cs hrun => ?_⟩
    rcases hws with _ | ⟨hw, hws⟩
    simp only [Widening.isQuiet, List.all_cons, Bool.and_eq_true] at hquiet
    obtain ⟨hty, hplain⟩ := head.ty?_eq
    rw [Widening.attach, Expr.applyWidenings, lowerAll_cons] at hrun
    obtain ⟨c, st₁, hc, hrun⟩ := run_bind hrun
    obtain ⟨cs, st₂, hcs, hrun⟩ := run_bind hrun
    obtain ⟨rfl, -⟩ := run_pure hrun
    change ((Widening.attached _ _).applyWidening standard).lowerValue.run st = _ at hc
    rw [(hw.lowerValue_eq hplain hty).1] at hc
    obtain ⟨a, ha, rfl⟩ := run_map hc
    rw [Widening.code_of_integers hquiet.1.1, List.append_nil]
    exact .cons (hhead ha) (htail hws hquiet.2 hcs)

/-- The operands of a conversion are its target and one expression. -/
theorem ElabAll.computes_cast {m : Nat} (hr : r.registry = standard) (hready : G.Ready mem)
    (hm : m ≤ G.size) (hstores : G.Stores mem m Γ.names ρ) :
    ∀ {es es' : List Expr} {s : Signature} {t : Ty} {ws : List Widened}, Expr.ElabAll r Γ es es' →
      Expr.areScalar true es → r.operator .cast (es'.map Expr.checkedTy) = .ok (s, t, ws) →
      ∃ (u u' : Scalar) (result : Except EvalFault Value),
        TokenKind.apply (es.head?.bind Expr.scalarTarget?) .cast (Expr.evalAll ρ es) =
          (do (← result).convert u) ∧ t = u.ty ∧ Scalar.conversion? u u' = some s.variant ∧
        ∀ {st st' : LowerState} {cs : List Code},
          (Expr.lowerAll true (Expr.applyWidenings standard (Widening.attach es' ws))).run st =
              .ok (cs, st') →
            ∃ c, cs = [c] ∧ G.Computes mem c [] u' result
  | _, _, s, t, ws, .nil, _, rule => by
    obtain ⟨hs, hkey, hlength⟩ := Rules.length_params hr (by simp) rule
    have hparams : ∀ s ∈ standard, s.key = .cast → s.params.length = 2 := by decide
    rw [hparams s hs hkey] at hlength
    cases hlength
  | _, _, s, t, ws, .cons (e := e) head tail, hs, rule => by
    simp only [Expr.areScalar, if_true, Bool.and_eq_true] at hs
    obtain ⟨u, hu⟩ := Option.isSome_iff_exists.mp hs.1
    obtain ⟨n, rfl⟩ := exists_typeLiteral hu
    cases head
    obtain ⟨ts, hts, hall⟩ := ElabAll.computes hr hready hm hstores tail hs.2
    rw [List.map_cons, hts] at rule
    have hground : ∀ t ∈ Ty.literal u.ty :: ts.map Scalar.ty, t.isGround := by
      simp [Scalar.isGround_ty, Ty.isGround]
    obtain ⟨hs, hkey, hlength⟩ := Rules.length_params hr hground rule
    have hparams : ∀ s ∈ standard, s.key = .cast → s.params.length = 2 := by decide
    rw [hparams s hs hkey] at hlength
    obtain ⟨u', rfl⟩ : ∃ u', ts = [u'] := List.length_eq_one_iff.mp (by simpa using hlength)
    obtain ⟨-, -, -, hws⟩ := Rules.operator_spec hr hground rule
    obtain ⟨hconversion, ht, hquiet⟩ := Rules.conversion_scalar hr rule
    cases tail with
    | nil => cases hts
    | @cons _ e _ _ _ head tail =>
      cases tail with
      | cons => simp at hts
      | nil =>
        refine ⟨u, u', e.eval ρ, ?_, ht, hconversion, fun hrun => ?_⟩
        · rw [List.head?_cons, Option.bind_some, hu]
          rfl
        · rw [← hts] at hws
          rcases hws with _ | ⟨-, hws⟩
          simp only [Widening.isQuiet, List.all_cons, Bool.and_eq_true] at hquiet
          obtain ⟨c, result, rfl, hresult, hc⟩ := (hall hws hquiet.2 hrun).one
          cases hresult
          exact ⟨c, rfl, hc⟩

end

end Expr

/-! ## Printing -/

/-- The formats, and the texts that are printed through them, lie in memory. -/
def Code.HasFormats (P : Code) (mem : Memory) : Prop :=
  ∀ f : PrintFormat, ∃ a, P.Holds f.label a ∧ mem.HasText a (Text.Utf8.encode f.text)

lemma Globals.Ready.hasFormats {P : Code} {G : Globals P} {mem : Memory} (h : G.Ready mem) :
    P.HasFormats mem := by
  intro f
  have hf : (f.label, f.text) ∈ Environment.texts := by cases f <;> decide
  obtain ⟨a, ha, -, htext⟩ := h.texts _ hf
  exact ⟨a, ha, htext⟩

namespace Code

open Lower
open Text.Utf8 (encode)

variable {P : Code} {mem : Memory} {st ws : List Word} {out : List UInt8}

lemma HasFormats.takes_printf {f : PrintFormat} {parts : List FormatPart} {texts : List (List UInt8)}
    (h : P.HasFormats mem) (hparts : Format.parts (encode f.text) (encode f.text) = .ok parts)
    (hargs : Conversion.WritesAll mem (Format.conversions parts) ws texts) :
    Takes P (Lower.printf f) ⟨ws.reverse ++ st, mem, out⟩
      ⟨st, mem, out ++ Format.fill parts texts⟩ := by
  obtain ⟨a, ha, htext⟩ := h f
  exact Code.takes_printf ha htext hparts hargs

lemma HasFormats.takes_separator (h : P.HasFormats mem) (k : Separator) :
    Takes P (Lower.printf k.format) ⟨st, mem, out⟩ ⟨st, mem, out ++ k.text⟩ := by
  cases k with
  | space => exact h.takes_printf (f := .space) rfl .nil
  | newline => exact h.takes_printf (f := .newline) rfl .nil
  | tab => exact h.takes_printf (f := .tab) rfl .nil

/-- A truth value is replaced by the address of its text. -/
lemma takes_truthText (hP : P.Numbered) {l : LabelFamily} {x y : String} {a : Nat} (b : Bool)
    (ha : P.Holds (if b then y else x) a) :
    Takes P (branch .jumpTrue (l.label "true") ++ pushD x ++ jump (l.label "join") ++
      label (l.label "true") ++ pushD y ++ label (l.label "join"))
      ⟨.ofBool b :: st, mem, out⟩ ⟨.address a :: st, mem, out⟩ := by
  intro i hi
  have hjoin := hi.marks_behind hP
  cases b with
  | true =>
    have htrue := hi.left.left.marks_behind hP
    exact .trans ⟨1, hi.left.left.left.left.left.steps_branch hP rfl htrue rfl⟩
      (takes_pushD_address ha _ hi.left.right)
  | false =>
    have hskip : Takes P (branch .jumpTrue (l.label "true")) ⟨.ofBool false :: st, mem, out⟩
      ⟨st, mem, out⟩ := takes_branch rfl rfl
    exact (hskip.append (takes_pushD_address ha) _ hi.left.left.left.left).trans
      ⟨1, hi.left.left.left.right.steps_jump hP hjoin _⟩

/-- The code that prints a value writes its text. -/
lemma HasFormats.takes_printValue (h : P.HasFormats mem) (hP : P.Numbered) (v : Value)
    {s s' : LowerState} {c : Code}
    (hrun : (printValue v.scalar.ty).run s = .ok (c, s')) :
    Takes P c ⟨.int v.word :: st, mem, out⟩ ⟨st, mem, out ++ v.text⟩ := by
  cases v with
  | int v =>
    obtain ⟨rfl, -⟩ := run_pure hrun
    have hprint : Takes P (Lower.printf .integer) ⟨[.int v].reverse ++ st, mem, out⟩ _ :=
      h.takes_printf rfl (.cons (.int v) .nil)
    simpa [Format.fill, Value.text, Value.word] using hprint
  | char c =>
    obtain ⟨rfl, -⟩ := run_pure hrun
    have hprint : Takes P (Lower.printf .character)
        ⟨[.int (Int32.ofNat c.toNat)].reverse ++ st, mem, out⟩ _ :=
      h.takes_printf rfl (.cons (.char _) .nil)
    have hbyte : (Int32.ofNat c.toNat).toUInt32.toUInt8 = c := by
      show (UInt32.ofNat c.toNat).toUInt8 = c
      simp
    rw [hbyte] at hprint
    exact hprint
  | bool b =>
    obtain ⟨l, s₁, -, hpure⟩ := run_bind hrun
    obtain ⟨rfl, -⟩ := run_pure hpure
    obtain ⟨a, ha, htext⟩ : ∃ a, P.Holds (if b then PrintFormat.trueText.label else
        PrintFormat.falseText.label) a ∧ mem.HasText a (encode (toString b)) := by
      cases b with
      | true => exact h .trueText
      | false => exact h .falseText
    have hprint : Takes P (Lower.printf .boolean) ⟨[.address a].reverse ++ st, mem, out⟩ _ :=
      h.takes_printf rfl (.cons (.text htext) .nil)
    refine (takes_truthText hP b ha).append ?_
    simpa [Format.fill, Value.text] using hprint

end Code

/-! ## Outcomes -/

namespace Globals

open Code

variable {P : Code} (G : Globals P)

/-- Memory has the variables in sight at a place of the program, with the values of a store. -/
structure Agrees (Γ : Ctx) (ρ : Store) (mem : Memory) : Prop where
  region : Γ.region = .globals
  bound : Γ.used ≤ G.size
  ready : G.Ready mem
  stores : G.Stores mem Γ.used Γ.names ρ

/-- What the machine does from a configuration on, compared with the outcome of an execution: it comes to an
instruction with the same values and output, or to the trap. Where the fuel did not suffice, it executes as
many instructions at least. -/
def Leads (fuel : Nat) (Γ : Ctx) (c : Config) (j : Nat) : Except Stop World → Prop
  | .ok w => ∃ mem, G.Agrees Γ w.store mem ∧ Reaches P c ⟨j, [], mem, w.output⟩
  | .error (.divideByZero out) => ∃ st mem, G.Ready mem ∧ Reaches P c ⟨G.trap, st, mem, out⟩
  | .error .outOfFuel => ∃ n c', fuel ≤ n ∧ Steps P n c c'
  | .error .illTyped => False

variable {G} {Γ Γ' Γ₁ Γ₂ : Ctx} {ρ : Store} {mem mem₁ : Memory} {w w₁ : World} {c c' : Config}
  {fuel n i j k : Nat} {a b : Code} {st : List Word} {out : List UInt8} {t : Scalar} {v : Value}
  {r : Except EvalFault Value} {x : Except Stop World}

lemma leads_pure (h : G.Agrees Γ w.store mem) :
    G.Leads fuel Γ ⟨j, [], mem, w.output⟩ j (pure w) := ⟨mem, h, .refl _⟩

lemma Leads.behind (hc : Reaches P c c') (h : G.Leads fuel Γ c' j x) : G.Leads fuel Γ c j x := by
  match x, h with
  | .ok w, ⟨mem, hmem, hreaches⟩ => exact ⟨mem, hmem, hc.trans hreaches⟩
  | .error (.divideByZero out), ⟨st, mem, hmem, hreaches⟩ =>
    exact ⟨st, mem, hmem, hc.trans hreaches⟩
  | .error .outOfFuel, ⟨n, c'', hn, hsteps⟩ =>
    obtain ⟨k, hk⟩ := hc
    exact ⟨k + n, c'', by omega, hk.trans hsteps⟩
  | .error .illTyped, h => exact h.elim

/-- An instruction pays for one round of a loop. -/
lemma Leads.step (hc : Steps P 1 c c') (h : G.Leads fuel Γ c' j x) : G.Leads (fuel + 1) Γ c j x := by
  match x, h with
  | .ok w, h => exact h.behind ⟨1, hc⟩
  | .error (.divideByZero out), h => exact h.behind ⟨1, hc⟩
  | .error .outOfFuel, ⟨n, c'', hn, hsteps⟩ => exact ⟨1 + n, c'', by omega, hc.trans hsteps⟩
  | .error .illTyped, h => exact h.elim

lemma Leads.mono (h : G.Leads fuel Γ c j x) (hn : n ≤ fuel) : G.Leads n Γ c j x := by
  match x, h with
  | .ok w, h => exact h
  | .error (.divideByZero out), h => exact h
  | .error .outOfFuel, ⟨m, c', hm, hsteps⟩ => exact ⟨m, c', hn.trans hm, hsteps⟩
  | .error .illTyped, h => exact h.elim

lemma Leads.bind {f : World → Except Stop World} (h : G.Leads fuel Γ c j x)
    (hf : ∀ w mem, G.Agrees Γ w.store mem → G.Leads fuel Γ' ⟨j, [], mem, w.output⟩ k (f w)) :
    G.Leads fuel Γ' c k (x >>= f) := by
  match x, h with
  | .ok w, ⟨mem, hmem, hreaches⟩ => exact (hf w mem hmem).behind hreaches
  | .error (.divideByZero out), h => exact h
  | .error .outOfFuel, h => exact h
  | .error .illTyped, h => exact h.elim

/-- A jump at the end. -/
lemma Leads.jump (h : G.Leads fuel Γ c j x) (hj : ∀ s, Reaches P ⟨j, s⟩ ⟨k, s⟩) :
    G.Leads fuel Γ c k x := by
  match x, h with
  | .ok w, ⟨mem, hmem, hreaches⟩ => exact ⟨mem, hmem, hreaches.trans (hj _)⟩
  | .error (.divideByZero out), h => exact h
  | .error .outOfFuel, h => exact h
  | .error .illTyped, h => exact h.elim

/-- The value of an expression, and then what is done with it. -/
lemma Computes.leads {f : Value → Except Stop World} (h : G.Computes mem a [] t r) (hi : P.At i a)
    (hf : ∀ v, v.scalar = t →
      G.Leads fuel Γ ⟨i + a.instrs.length, .int v.word :: st, mem, out⟩ j (f v)) :
    G.Leads fuel Γ ⟨i, st, mem, out⟩ j (r.mapError (·.stop out) >>= f) := by
  match r, h with
  | .ok v, ⟨hv, htakes⟩ => exact (hf v hv).behind (htakes st out i hi)
  | .error .divideByZero, h => exact h st out i hi
  | .error .illTyped, h => exact h.elim

/-- The truth of a condition, and then what depends on it. -/
lemma Computes.leads_test {f : Bool → Except Stop World} (h : G.Computes mem a [] .bool r)
    (hi : P.At i a)
    (hf : ∀ b, G.Leads fuel Γ ⟨i + a.instrs.length, .ofBool b :: st, mem, out⟩ j (f b)) :
    G.Leads fuel Γ ⟨i, st, mem, out⟩ j ((r >>= Value.truth).mapError (·.stop out) >>= f) := by
  match r, h with
  | .ok v, ⟨hv, htakes⟩ =>
    obtain ⟨b, rfl⟩ := Value.exists_bool hv
    exact (hf b).behind (htakes st out i hi)
  | .error .divideByZero, h => exact h st out i hi
  | .error .illTyped, h => exact h.elim

lemma Agrees.enter (h : G.Agrees Γ ρ mem) : G.Agrees Γ.enter ρ mem :=
  ⟨h.region, h.bound, h.ready, h.stores⟩

lemma Agrees.leaving (h : G.Agrees Γ ρ mem) : G.Agrees (Γ.leave Γ₁) ρ mem :=
  ⟨h.region, h.bound, h.ready, h.stores⟩

lemma Agrees.left (h : G.Agrees (Γ.leave Γ₁) ρ mem) : G.Agrees Γ ρ mem :=
  ⟨h.region, h.bound, h.ready, h.stores⟩

/-- Behind a block its variables are forgotten. -/
lemma Agrees.leave (h : G.Agrees Γ w.store mem) (h₁ : G.Agrees Γ₁ w₁.store mem₁)
    (hnames : Γ.names <:+ Γ₁.names) : G.Agrees (Γ.leave Γ₂) (w.leave w₁).store mem₁ := by
  obtain ⟨ms, hms⟩ := hnames
  have hstores := h₁.stores
  rw [← hms] at hstores
  obtain ⟨k, hdrop⟩ := hstores.drop
  have hlength : w₁.store.length - w.store.length = ms.length := by
    rw [hstores.length_eq, h.stores.length_eq, List.length_append, Nat.add_sub_cancel]
  refine ⟨h.region, h.bound, h₁.ready, ?_⟩
  rw [World.leave, hlength]
  exact h.stores.within hdrop

lemma Leads.leave (h : G.Agrees Γ w.store mem) (hnames : Γ.names <:+ Γ₁.names)
    (hbody : G.Leads fuel Γ₁ c j x) : G.Leads fuel (Γ.leave Γ₂) c j (do return w.leave (← x)) :=
  hbody.bind fun _ _ h₁ => leads_pure (h.leave h₁ hnames)

/-! ## Statements -/

/-- The code of a conditional, for what its branches do. -/
lemma leads_ifElse (l : LabelFamily) {cond : Code} (body alternative : Code) {y z : Except Stop World}
    (hi : P.At i a) (ha : a = Lowering.ifElse l cond body alternative)
    (hcond : G.Computes mem cond [] .bool r)
    (hbody : ∀ k, P.At k body → G.Leads fuel Γ ⟨k, [], mem, out⟩ (k + body.instrs.length) y)
    (halternative : ∀ k, P.At k alternative →
      G.Leads fuel Γ ⟨k, [], mem, out⟩ (k + alternative.instrs.length) z) :
    G.Leads fuel Γ ⟨i, [], mem, out⟩ (i + a.instrs.length)
      ((r >>= Value.truth).mapError (·.stop out) >>= fun b => if b then y else z) := by
  rw [Lowering.ifElse] at ha
  subst ha
  have hjoin := hi.marks_behind G.numbered
  have helse := hi.left.left.marks_behind G.numbered
  have htest := hi.left.left.left.left.left
  refine hcond.leads_test htest.left fun b => ?_
  cases b with
  | true =>
    have hskip : Takes P (branch .jumpFalse (l.label "else")) ⟨[.ofBool true], mem, out⟩ ⟨[], mem, out⟩ :=
      takes_branch rfl rfl
    refine .behind (hskip.behind htest) ((hbody _ hi.left.left.left.left.right).jump fun s => ?_)
    have hjump := hi.left.left.left.right.steps_jump G.numbered hjoin s
    exact ⟨1, by simpa only [instrs_append, List.length_append, Nat.add_assoc] using hjump⟩
  | false =>
    refine .behind ⟨1, htest.right.steps_branch G.numbered rfl helse rfl⟩
      ((halternative _ hi.left.right).jump fun s => ?_)
    have hend := (takes_label (l.label "join") s).behind hi
    simpa only [instrs_append, List.length_append, Nat.add_assoc] using hend

/-- The code of a loop goes round as the loop does. -/
lemma leads_loop {l : LabelFamily} {cond body : Code} {e : Expr} {f : World → Except Stop World}
    (hi : P.At i a) (ha : a = Lowering.loop l cond body)
    (hcond : ∀ (w : World) mem, G.Agrees Γ w.store mem →
      G.Computes mem cond [] .bool (e.eval w.store))
    (hbody : ∀ (w : World) mem k, G.Agrees Γ w.store mem → P.At k body →
      G.Leads fuel Γ ⟨k, [], mem, w.output⟩ (k + body.instrs.length) (f w)) :
    ∀ n ≤ fuel, ∀ (w : World) mem, G.Agrees Γ w.store mem →
      G.Leads n Γ ⟨i, [], mem, w.output⟩ (i + a.instrs.length) (World.loop (·.test e) f n w) := by
  rw [Lowering.loop] at ha
  subst ha
  have hjoin := hi.marks_behind G.numbered
  have hstart := hi.left.left.left.left.left.marks G.numbered
  have htest : P.At i (cond ++ branch .jumpFalse (l.label "join")) := by
    have hfront := hi.left.left.left
    rw [List.append_assoc] at hfront
    exact hfront.right
  intro n
  induction n with
  | zero => exact fun _ w mem _ => ⟨0, _, le_rfl, .refl _⟩
  | succ n ih =>
    intro hn w mem hw
    refine (hcond w mem hw).leads_test htest.left fun b => ?_
    cases b with
    | true =>
      have hskip : Takes P (branch .jumpFalse (l.label "join")) ⟨[.ofBool true], mem, w.output⟩
        ⟨[], mem, w.output⟩ := takes_branch rfl rfl
      refine .behind (hskip.behind htest) (.bind ((hbody w mem _ hw hi.left.left.right).mono hn) ?_)
      intro w₁ mem₁ h₁
      have hjump := hi.left.right.steps_jump G.numbered hstart ⟨[], mem₁, w₁.output⟩
      refine .step ?_ (ih (by omega) w₁ mem₁ h₁)
      simpa only [instrs_append, List.length_append, Nat.add_assoc] using hjump
    | false =>
      exact .behind ⟨1, htest.right.steps_branch G.numbered rfl hjoin rfl⟩ (leads_pure hw)

/-- The code that stores the value of an expression in a variable. -/
lemma leads_store {β : Binding} {f : Value → Except Stop World}
    (hi : P.At i (β.address ++ a ++ ops [β.ty.storeOp])) (hready : G.Ready mem)
    (hbase : β.base = .globals) (hnonneg : 0 ≤ β.offset)
    (hfits : β.offset.toNat + β.ty.slot.size ≤ G.size) (hcomputes : G.Computes mem a [] t r)
    (ht : β.ty = t.ty)
    (hf : ∀ v, v.scalar = t → G.Leads fuel Γ
      ⟨i + (β.address ++ a ++ ops [β.ty.storeOp]).instrs.length, [],
        mem.put β.ty.slot (G.place β) (.int v.word), out⟩ j (f v)) :
    G.Leads fuel Γ ⟨i, [], mem, out⟩ j (r.mapError (·.stop out) >>= f) := by
  refine .behind (takes_address (G := G) hbase hnonneg _ hi.left.left) ?_
  refine hcomputes.leads hi.left.right fun v hv => (hf v hv).behind ?_
  have hstore : Takes P (ops [β.ty.storeOp]) ⟨[.int v.word, .address (G.place β)], mem, out⟩
      ⟨[], mem.put β.ty.slot (G.place β) (.int v.word), out⟩ := by
    rw [Ty.storeOp_eq]
    refine takes_storeOp _ (hready.inside_place le_rfl hfits (Slot.size_pos _)) ?_
    rw [ht, ← hv]
    exact v.fits
  simpa only [instrs_append, List.length_append, Nat.add_assoc] using hstore.behind hi

/-- A variable that is declared gets the bytes behind those in use. -/
lemma Agrees.offset_binding {y : String} {τ : Ty} {m : Bool} (h : G.Agrees Γ ρ mem) :
    (Γ.binding y τ m).offset = Γ.used := by
  simp [Ctx.binding, Allocator.nextOffset, h.region]

lemma Agrees.base_binding {y : String} {τ : Ty} {m : Bool} (h : G.Agrees Γ ρ mem) :
    (Γ.binding y τ m).base = .globals := by
  simp [Ctx.binding, h.region, Region.base]

lemma Agrees.declare {y : String} {m : Bool} (h : G.Agrees Γ ρ mem)
    (hused : Γ.used + v.scalar.ty.slot.size ≤ G.size) :
    G.Agrees (Γ.declare y v.scalar.ty m) ((y, v) :: ρ)
      (mem.put v.scalar.ty.slot (G.place (Γ.binding y v.scalar.ty m)) (.int v.word)) := by
  have hoffset := h.offset_binding (y := y) (τ := v.scalar.ty) (m := m)
  have hplace : G.place (Γ.binding y v.scalar.ty m) = G.start + Γ.used := by simp [place, hoffset]
  have hinside := h.ready.inside
  have hsize := v.scalar.size_ty
  refine ⟨h.region, by simpa [Ctx.declare, hsize] using hused, h.ready.put (by omega), ?_⟩
  rw [Ctx.names_declare]
  refine .cons ⟨rfl, h.base_binding, by omega, ?_, ?_⟩ ?_
  · show (Γ.binding y v.scalar.ty m).offset.toNat + v.scalar.ty.slot.size ≤ Γ.used + v.scalar.ty.size
    omega
  · exact Memory.fetch_put (by rw [hplace]; omega) v.fits
  · rw [hoffset, Int.toNat_natCast]
    exact h.stores.put (by omega)

lemma Agrees.assign {y : String} {β : Binding} (h : G.Agrees Γ w.store mem) (hy : Γ.find? y = some β)
    (hv : β.ty = v.scalar.ty) : ∃ w', w.assign y v = .ok w' ∧ w'.output = w.output ∧
      G.Agrees Γ w'.store (mem.put β.ty.slot (G.place β) (.int v.word)) := by
  rw [Ctx.find?_eq_lookup] at hy
  have hinside := h.ready.inside
  have hbound := h.bound
  obtain ⟨ρ', hρ', hstores⟩ := h.stores.assign hy hv (by omega)
  refine ⟨{ w with store := ρ' }, by simp [World.assign, hρ'], rfl, h.region, h.bound, ?_, hstores⟩
  exact h.ready.put (Nat.le_add_right _ _)

end Globals

section Leads

open Code Globals Lower

variable {P : Code} {G : Globals P} {r : Rules} {fuel : Nat}

lemma Expr.Elab.computes_value {Γ : Ctx} {ρ : Store} {mem : Memory} (hr : r.registry = standard)
    (h : G.Agrees Γ ρ mem) {k : Bool} {e e' : Expr} (he : Expr.Elab r Γ k e e') (hs : e.isScalar)
    {t : Scalar} (ht : e'.checkedTy = t.ty) {st st' : LowerState} {c : Code}
    (hrun : (e'.applyWidening standard).lowerValue.run st = .ok (c, st')) :
    G.Computes mem c [] t (e.eval ρ) := by
  obtain ⟨u, hu, hcomputes⟩ := he.computes hr h.ready h.bound h.stores hs
  obtain rfl : u = t := by
    rw [hu] at ht
    revert ht
    cases u <;> cases t <;> simp [Scalar.ty, Ty.integer, Ty.character, Ty.boolean]
  exact hcomputes hrun

/-- The code of what a print statement writes. -/
theorem PrintItem.ElabAll.leads (hr : r.registry = standard) {Γ : Ctx} :
    ∀ {is is' : List PrintItem}, PrintItem.ElabAll r Γ is is' → is.all PrintItem.isScalar →
    ∀ {st st' : LowerState} {cs : List Code},
      ((PrintItem.applyWidenings standard is').mapM PrintItem.lower).run st = .ok (cs, st') →
    ∀ {i : Nat} {w : World} {mem : Memory}, P.At i cs.flatten → G.Agrees Γ w.store mem →
      G.Leads fuel Γ ⟨i, [], mem, w.output⟩ (i + (Code.instrs cs.flatten).length)
        (is.foldlM PrintItem.exec w)
  | _, _, .nil, _, _, _, _, hrun, _, _, _, _, hw => by
    obtain ⟨rfl, -⟩ := run_pure hrun
    exact leads_pure hw
  | _, _, .separator (k := k) tail, hs, _, _, _, hrun, i, w, mem, hi, hw => by
    simp only [List.all_cons, Bool.and_eq_true] at hs
    obtain ⟨c, st₁, cs, hc, hcs, rfl⟩ := run_mapM_cons hrun
    obtain ⟨rfl, -⟩ := run_pure hc
    have htail := PrintItem.ElabAll.leads hr tail hs.2 hcs (w := w.print k.text) hi.right hw
    rw [List.foldlM_cons, List.flatten_cons, instrs_append, List.length_append, ← Nat.add_assoc]
    exact htail.behind (hw.ready.hasFormats.takes_separator k _ hi.left)
  | _, _, .value (e := e) head tail, hs, _, _, _, hrun, i, w, mem, hi, hw => by
    simp only [List.all_cons, Bool.and_eq_true] at hs
    obtain ⟨c, st₁, cs, hc, hcs, rfl⟩ := run_mapM_cons hrun
    obtain ⟨a, st₃, ha, hc⟩ := run_bind hc
    rw [Expr.ty?_applyWidening head.ty?_eq.2, head.ty?_eq.1] at hc
    obtain ⟨p, st₄, hp, hc⟩ := run_bind hc
    obtain ⟨rfl, -⟩ := run_pure hc
    obtain ⟨t, ht, hcomputes⟩ := head.computes hr hw.ready hw.bound hw.stores hs.1
    rw [List.foldlM_cons, List.flatten_cons, instrs_append, List.length_append, ← Nat.add_assoc]
    have hvalue : PrintItem.exec w (.value e) = ((e.eval w.store).mapError (·.stop w.output) >>=
      fun v => pure (w.print v.text)) := rfl
    rw [hvalue, bind_assoc]
    refine (hcomputes ha).leads hi.left.left fun v hv => ?_
    rw [ht, ← hv] at hp
    have hprint : Takes P p ⟨[.int v.word], mem, w.output⟩ ⟨[], mem, w.output ++ v.text⟩ :=
      hw.ready.hasFormats.takes_printValue G.numbered v hp
    have htail := PrintItem.ElabAll.leads hr tail hs.2 hcs (w := w.print v.text) hi.right hw
    exact htail.behind (hprint.behind hi.left)

mutual

/-- The code of a statement does what the statement does. -/
theorem Stmt.Elab.leads (hr : r.registry = standard) {exit : Option String} :
    ∀ {result : Option Ty} {Γ Γ' : Ctx} {s s' : Stmt}, Stmt.Elab r result Γ s s' Γ' → s.isSource →
    s.isScalar → Γ'.peak ≤ G.size → ∀ {st st' : LowerState} {c : Code},
      ((s'.applyWidening standard).lower exit).run st = .ok (c, st') →
    ∀ {i : Nat} {w : World} {mem : Memory}, P.At i c → G.Agrees Γ w.store mem →
      G.Leads fuel Γ' ⟨i, [], mem, w.output⟩ (i + c.instrs.length) (s.exec fuel w)
  | _, Γ, _, _, _, .varDecl (x := x) init _, _, hs, hpeak, _, _, _, hrun, i, w, mem, hi,
      hw => by
    obtain ⟨β, st₁, hβ, hrest⟩ := run_bind hrun
    obtain ⟨a, st₂, ha, hpure⟩ := run_bind hrest
    obtain ⟨hβ, rfl⟩ := run_required hβ
    obtain ⟨rfl, -⟩ := run_pure hpure
    cases hβ
    obtain ⟨t, ht, hcomputes⟩ := init.computes hr hw.ready hw.bound hw.stores hs
    rw [ht] at hi hpeak ⊢
    have hused : Γ.used + t.ty.slot.size ≤ G.size := by
      rw [← Scalar.size_ty]
      exact (le_max_right _ _).trans hpeak
    refine leads_store hi hw.ready hw.base_binding (by rw [hw.offset_binding]; omega)
      (by rw [hw.offset_binding]; exact hused) (hcomputes ha) rfl fun v hv => ?_
    subst hv
    exact leads_pure (w := w.declare x v) (hw.declare hused)
  | _, Γ, _, _, _, .assign value target _ rule, hsource, hs, hpeak, _, _, _, hrun, i, w, mem, hi,
      hw => by
    simp only [Stmt.isScalar, Bool.and_eq_true] at hs
    cases target with
    | @ident _ _ n x b₀ β find own =>
      obtain ⟨f, st₁, hf, hrest⟩ := run_bind hrun
      obtain ⟨rfl, rfl⟩ := run_pure hf
      dsimp only at hrest
      rw [if_neg (not_not.mpr rfl)] at hrest
      obtain ⟨a, st₂, ha, hpure⟩ := run_bind hrest
      obtain ⟨rfl, -⟩ := run_pure hpure
      obtain ⟨t, ht, hcomputes⟩ := value.computes hr hw.ready hw.bound hw.stores hs.2
      have hlookup := find
      rw [Ctx.find?_eq_lookup] at hlookup
      obtain ⟨v₀, -, hhas⟩ := hw.stores.exists_lookup hlookup
      have hty : β.ty = t.ty := by
        rw [ht] at rule
        refine Rules.assign_spec ?_ (Scalar.isGround_ty t) rule
        show β.ty.isGround
        rw [hhas.ty]
        exact Scalar.isGround_ty _
      refine leads_store hi hw.ready hhas.base hhas.nonneg (hhas.fits.trans hw.bound) (hcomputes ha) hty
        fun v hv => ?_
      obtain ⟨w', hw', hout, hagrees⟩ := hw.assign find (hv ▸ hty)
      rw [hw', ← hout]
      exact leads_pure hagrees
    | _ => simp [Expr.isName] at hs
  | _, _, _, _, _, .print items, _, hs, _, _, _, _, hrun, i, w, mem, hi, hw => by
    obtain ⟨cs, st₁, hcs, hpure⟩ := run_bind hrun
    obtain ⟨rfl, -⟩ := run_pure hpure
    exact items.leads hr hs hcs hi hw
  | _, _, _, _, _, .ifThen cond truth body, hsource, hs, hpeak, _, _, _, hrun, i, w, mem, hi, hw => by
    simp only [Stmt.isSource, Bool.and_eq_true] at hsource
    simp only [Stmt.isScalar, Bool.and_eq_true] at hs
    obtain ⟨c, st₁, b, st₂, hc, hb, hpure⟩ := run_branch hrun
    obtain ⟨rfl, -⟩ := run_pure hpure
    have hcond := cond.computes_value hr hw hs.1 (t := .bool) truth hc
    refine leads_ifElse _ b [] hi (by rw [Lowering.ifElse, List.append_nil]) hcond
      (fun k hk => ?_) fun k _ => leads_pure (w := w) hw.leaving
    exact .leave hw body.extends.2
      (Stmt.ElabAll.leads hr body hsource.2 hs.2 hpeak hb hk hw.enter)
  | _, _, _, _, _, .ifElse cond truth body alternative, hsource, hs, hpeak, _, _, _, hrun, i, w, mem,
      hi, hw => by
    simp only [Stmt.isSource, Bool.and_eq_true] at hsource
    simp only [Stmt.isScalar, Bool.and_eq_true] at hs
    obtain ⟨c, st₁, b, st₂, hc, hb, hrest⟩ := run_branch hrun
    obtain ⟨a, st₃, ha, hpure⟩ := run_bind hrest
    obtain ⟨rfl, -⟩ := run_pure hpure
    have hcond := cond.computes_value hr hw hs.1.1 (t := .bool) truth hc
    refine leads_ifElse _ b a hi rfl hcond (fun k hk => ?_) (fun k hk => ?_)
    · have hbody := Stmt.ElabAll.leads hr body hsource.1.2 hs.1.2
        (alternative.extends.1.trans hpeak) hb hk hw.enter
      obtain ⟨Γ₁, rfl⟩ := alternative.eq_leave hsource.2.1 hsource.2.2
      exact .leave hw.leaving body.extends.2 hbody
    · exact Stmt.Elab.leads hr alternative hsource.2.2 hs.2 hpeak ha hk hw.leaving
  | _, Γ, _, _, _, .while cond truth body, hsource, hs, hpeak, _, _, _, hrun, i, w, mem, hi, hw => by
    simp only [Stmt.isSource, Bool.and_eq_true] at hsource
    simp only [Stmt.isScalar, Bool.and_eq_true] at hs
    obtain ⟨c, st₁, b, st₂, hc, hb, hpure⟩ := run_branch hrun
    obtain ⟨rfl, -⟩ := run_pure hpure
    refine leads_loop hi rfl (fun w mem hw => ?_) (fun w mem k hw hk => ?_) fuel le_rfl w mem hw.leaving
    · exact cond.computes_value hr hw.left hs.1 (t := .bool) truth hc
    · exact .leave hw.left body.extends.2
        (Stmt.ElabAll.leads hr body hsource.2 hs.2 hpeak hb hk hw.left.enter)
  | _, _, _, _, _, .block body, hsource, hs, hpeak, _, _, _, hrun, i, w, mem, hi, hw =>
    Leads.leave hw body.extends.2 (Stmt.ElabAll.leads hr body hsource hs hpeak hrun hi hw.enter)
  | _, _, _, _, _, .call _, _, hs, _, _, _, _, _, _, _, _, _, _
  | _, _, _, _, _, .give .., _, hs, _, _, _, _, _, _, _, _, _, _
  | _, _, _, _, _, .leave, _, hs, _, _, _, _, _, _, _, _, _, _ => by simp [Stmt.isScalar] at hs

theorem Stmt.ElabAll.leads (hr : r.registry = standard) {exit : Option String} :
    ∀ {result : Option Ty} {Γ Γ' : Ctx} {ss ss' : List Stmt}, Stmt.ElabAll r result Γ ss ss' Γ' →
    Stmt.areSource ss → Stmt.areScalar ss → Γ'.peak ≤ G.size → ∀ {st st' : LowerState} {c : Code},
      (Stmt.lowerAll exit (Stmt.applyWidenings standard ss')).run st = .ok (c, st') →
    ∀ {i : Nat} {w : World} {mem : Memory}, P.At i c → G.Agrees Γ w.store mem →
      G.Leads fuel Γ' ⟨i, [], mem, w.output⟩ (i + c.instrs.length) (Stmt.execAll fuel w ss)
  | _, _, _, _, _, .nil, _, _, _, _, _, _, hrun, _, _, _, _, hw => by
    obtain ⟨rfl, -⟩ := run_pure hrun
    exact leads_pure hw
  | _, _, _, _, _, .cons head tail, hsource, hs, hpeak, _, _, _, hrun, i, w, mem, hi, hw => by
    simp only [Stmt.areSource, Bool.and_eq_true] at hsource
    simp only [Stmt.areScalar, Bool.and_eq_true] at hs
    obtain ⟨a, st₁, ha, hrun⟩ := run_bind hrun
    obtain ⟨b, st₂, hb, hrun⟩ := run_bind hrun
    obtain ⟨rfl, -⟩ := run_pure hrun
    have hhead := Stmt.Elab.leads hr head hsource.1 hs.1 (tail.extends.1.trans hpeak) ha hi.left hw
    rw [instrs_append, List.length_append, ← Nat.add_assoc]
    exact hhead.bind fun w₁ mem₁ h₁ => Stmt.ElabAll.leads hr tail hsource.2 hs.2 hpeak hb hi.right h₁

end

end Leads

end SubrLang
