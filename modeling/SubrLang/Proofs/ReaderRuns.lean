import SubrLang.Proofs.Grammar
import SubrLang.Proofs.TokenSpans

/-!
# Runs of readers

The terms in which the readers of the parser are described, and what its steps do in these terms.

**How runs end.** `Parse.Runs P p q Q E deep` says where a run of `p` from a state with `P` gets: behind a
result to a state with `Q`, behind a reported error to a state with `E`, and out of depth only if `deep`
holds. As long as it does not run out of depth, `q` does the same; this is `p` with more depth. Going on
behind an error (`runs_guarded`) turns the second case into the first and leaves the third as it is.

**Tokens taken.** `Parse.Took s₀ k w L` is the assertion of all readers: since `s₀` at least `k` tokens have
been taken, they weigh at least `w`, and if nothing has been reported since, they are a word of the language
`L`. Reading a part multiplies the language. Behind an error the language is empty.

**Depth.** A reader of depth `n` that makes at most `r` calls before it takes a token does not run out of depth
if `n` pays for ten calls for each token and `r` more (`Parse.Shallow`).
-/

namespace SubrLang

open Computability

lemma TokenKind.one_le_weight {k : TokenKind} (h : k ≠ .eof) : 1 ≤ k.weight := by
  cases k with
  | eof => exact absurd rfl h
  | _ => simp [TokenKind.weight]

namespace Parse

variable {α β : Type}

/-- The weight of tokens that are left to read. -/
def weight (ts : List Token) : Nat := (ts.map (·.kind.weight)).sum

/-- Whether the last token is the end of input. -/
def Ended (ts : List Token) : Prop := ts.getLast?.map (·.kind) = some .eof

/-- The token to be read next. -/
def next (ts : List Token) : Token := ts.headD { kind := .eof }

lemma weight_append (ts us : List Token) : weight (ts ++ us) = weight ts + weight us := by
  simp [weight]

lemma ended_cons {t u : Token} {ts : List Token} : Ended (t :: u :: ts) ↔ Ended (u :: ts) := by
  simp [Ended, List.getLast?_cons_cons]

lemma Ended.length_pos {ts : List Token} (h : Ended ts) : 0 < ts.length := by
  cases ts with
  | nil => simp [Ended] at h
  | cons => simp

/-- A token in front of the end of input can be taken. -/
lemma Ended.rest {ts : List Token} (h : Ended ts) (hkind : (next ts).kind ≠ .eof) :
    ts = next ts :: Parse.rest ts ∧ Ended (Parse.rest ts) := by
  rcases ts with _ | ⟨t, _ | ⟨u, ts⟩⟩
  · simp [Ended] at h
  · exact absurd (by simpa [Ended, next] using h) hkind
  · exact ⟨rfl, ended_cons.mp h⟩

lemma skipStatement_suffix (ts : List Token) (h : Ended ts) :
    Ended (skipStatement ts) ∧ skipStatement ts <:+ ts := by
  induction ts using skipStatement.induct with
  | case1 => exact ⟨h, List.suffix_rfl⟩
  | case2 t => exact ⟨h, List.suffix_rfl⟩
  | case3 t u ts hstop =>
    rw [skipStatement, if_pos hstop]
    exact ⟨h, List.suffix_rfl⟩
  | case4 t u ts hgo hsemi =>
    rw [skipStatement, if_neg hgo, if_pos hsemi]
    exact ⟨ended_cons.mp h, List.suffix_cons _ _⟩
  | case5 t u ts hgo hsemi ih =>
    rw [skipStatement, if_neg hgo, if_neg hsemi]
    obtain ⟨hended, hsuffix⟩ := ih (ended_cons.mp h)
    exact ⟨hended, hsuffix.trans (List.suffix_cons _ _)⟩

/-- Tokens are passed over unless a brace or the end of input comes first. -/
lemma length_skipStatement_lt {ts : List Token} (h : Ended ts) (hstop : ¬ ((next ts).kind = .eof ∨
    (next ts).kind = .rbrace ∨ (next ts).kind = .lbrace)) : (skipStatement ts).length < ts.length := by
  rcases ts with _ | ⟨t, _ | ⟨u, ts⟩⟩
  · simp [Ended] at h
  · exact absurd (.inl (by simpa [Ended, next] using h)) hstop
  · have hkind : ¬ (t.kind = .eof ∨ t.kind = .rbrace ∨ t.kind = .lbrace) := hstop
    rw [skipStatement, if_neg hkind]
    split
    · simp
    · exact Nat.lt_succ_of_le (skipStatement_suffix _ (ended_cons.mp h)).2.length_le

lemma skipBlock_suffix (ts : List Token) : ∀ depth : Int, Ended ts →
    Ended (skipBlock depth ts) ∧ skipBlock depth ts <:+ ts := by
  induction ts with
  | nil => exact fun _ h => ⟨h, List.suffix_rfl⟩
  | cons t ts ih =>
    cases ts with
    | nil => exact fun _ h => ⟨h, List.suffix_rfl⟩
    | cons u ts =>
      intro depth h
      have hskip : ∀ d, Ended (skipBlock d (u :: ts)) ∧ skipBlock d (u :: ts) <:+ t :: u :: ts := by
        intro d
        obtain ⟨hended, hsuffix⟩ := ih d (ended_cons.mp h)
        exact ⟨hended, hsuffix.trans (List.suffix_cons _ _)⟩
      unfold skipBlock
      split
      · exact ⟨h, List.suffix_rfl⟩
      · exact hskip _
      · split
        · exact ⟨ended_cons.mp h, List.suffix_cons _ _⟩
        · exact hskip _
      · exact hskip _

/-! ## How runs end -/

/-- How a run of `p` from `s` ends, where `q` does the same as long as `p` does not run out of depth. -/
inductive Outcome (p q : Parse α) (s : ParseState) (Q : α → ParseState → Prop) (E : ParseState → Prop)
    (deep : Prop) : Prop
  | result {a : α} {s' : ParseState} (run : p s = .ok a s') (same : q s = .ok a s') (holds : Q a s')
  | reported {s' : ParseState} (run : p s = .error .reported s') (same : q s = .error .reported s')
      (holds : E s')
  | tooDeep {s' : ParseState} (run : p s = .error .tooDeep s') (holds : deep)

/-- How runs of `p` end that start in a state with `P`. -/
def Runs (P : ParseState → Prop) (p q : Parse α) (Q : α → ParseState → Prop) (E : ParseState → Prop)
    (deep : Prop) : Prop :=
  ∀ s, P s → Outcome p q s Q E deep

variable {P P' : ParseState → Prop} {p q : Parse α} {Q Q' : α → ParseState → Prop}
  {R : β → ParseState → Prop} {E E' : ParseState → Prop} {deep deep' : Prop}

lemma Outcome.imp {s : ParseState} (h : Outcome p q s Q E deep) (hQ : ∀ a s, Q a s → Q' a s)
    (hE : ∀ s, E s → E' s) (hdeep : deep → deep') : Outcome p q s Q' E' deep' := by
  cases h with
  | result run same holds => exact .result run same (hQ _ _ holds)
  | reported run same holds => exact .reported run same (hE _ holds)
  | tooDeep run holds => exact .tooDeep run (hdeep holds)

/-- A run that goes on as another one. -/
lemma Outcome.of_eq {p' q' : Parse α} {s s' : ParseState} (h : Outcome p' q' s' Q E deep)
    (hp : p s = p' s') (hq : q s = q' s') : Outcome p q s Q E deep := by
  cases h with
  | result run same holds => exact .result (hp.trans run) (hq.trans same) holds
  | reported run same holds => exact .reported (hp.trans run) (hq.trans same) holds
  | tooDeep run holds => exact .tooDeep (hp.trans run) holds

lemma Runs.imp (h : Runs P p q Q E deep) (hP : ∀ s, P' s → P s) (hQ : ∀ a s, Q a s → Q' a s) :
    Runs P' p q Q' E deep :=
  fun s hs => (h s (hP s hs)).imp hQ (fun _ => id) id

lemma Runs.left (h : Runs P p q Q E deep) : Runs (fun s => P s ∧ P' s) p q Q E deep :=
  h.imp (fun _ hs => hs.1) fun _ _ => id

/-- A fact that the first state shows. -/
lemma runs_of_fact {φ : Prop} (h : ∀ s, P s → φ) (hp : φ → Runs P p q Q E deep) : Runs P p q Q E deep :=
  fun s hs => hp (h s hs) s hs

lemma runs_pure {a : α} (h : ∀ s, P s → Q a s) : Runs P (pure a) (pure a) Q E deep :=
  fun s hs => .result rfl rfl (h s hs)

lemma runs_tooDeep (h : ∀ s, P s → deep) : Runs P (throw .tooDeep) q Q E deep :=
  fun s hs => .tooDeep rfl (h s hs)

lemma runs_bind {f g : α → Parse β} (hp : Runs P p q Q E deep) (hf : ∀ a, Runs (Q a) (f a) (g a) R E deep) :
    Runs P (p >>= f) (q >>= g) R E deep := by
  intro s hs
  have hbind : ∀ (p : Parse α) (f : α → Parse β), (p >>= f) s = EStateM.bind p f s := fun _ _ => rfl
  cases hp s hs with
  | @result a s₁ run same holds =>
    exact (hf a s₁ holds).of_eq (by rw [hbind, EStateM.bind, run]) (by rw [hbind, EStateM.bind, same])
  | reported run same holds =>
    exact .reported (by rw [hbind, EStateM.bind, run]) (by rw [hbind, EStateM.bind, same]) holds
  | tooDeep run holds => exact .tooDeep (by rw [hbind, EStateM.bind, run]) holds

lemma runs_ite {c : Prop} [Decidable c] {p' q' : Parse α} (hp : c → Runs P p q Q E deep)
    (hq : ¬c → Runs P p' q' Q E deep) : Runs P (if c then p else p') (if c then q else q') Q E deep := by
  split
  · next hc => exact hp hc
  · next hc => exact hq hc

/-- A step that is not always made. -/
lemma runs_when {c : Prop} [Decidable c] {J : ParseState → Prop} {x : Parse Unit} {f g : Parse β}
    (hx : c → Runs P x x (fun _ => J) E deep) (hskip : ¬c → ∀ s, P s → J s) (hf : Runs J f g R E deep) :
    Runs P (if c then x >>= fun _ => f else f) (if c then x >>= fun _ => g else g) R E deep :=
  runs_ite (fun hc => runs_bind (hx hc) fun _ => hf) fun hc s hs => hf s (hskip hc s hs)

lemma runs_current {f g : Token → Parse β}
    (h : ∀ t, Runs (fun s => P s ∧ (next s.tokens).kind = t.kind) (f t) (g t) R E deep) :
    Runs P (current >>= f) (current >>= g) R E deep :=
  fun s hs => (h (next s.tokens) s ⟨hs, rfl⟩).of_eq rfl rfl

lemma runs_peek {f g : TokenKind → Parse β}
    (h : ∀ k, Runs (fun s => P s ∧ (next s.tokens).kind = k) (f k) (g k) R E deep) :
    Runs P (peek >>= f) (peek >>= g) R E deep :=
  fun s hs => (h (next s.tokens).kind s ⟨hs, rfl⟩).of_eq rfl rfl

lemma runs_get {f g : ParseState → Parse β} (h : ∀ st, Runs P (f st) (g st) R E deep) :
    Runs P (get >>= f) (get >>= g) R E deep :=
  fun s hs => (h s s hs).of_eq rfl rfl

/-- What a step does to the tokens alone. -/
lemma runs_modify {g : List Token → List Token} {R : Unit → ParseState → Prop}
    (h : ∀ s, P s → R () { s with tokens := g s.tokens }) :
    Runs P (modify fun s => { s with tokens := g s.tokens })
      (modify fun s => { s with tokens := g s.tokens }) R E deep :=
  fun s hs => .result rfl rfl (h s hs)

/-- A part that is tried: behind an error reading goes on after the statement. -/
lemma runs_guarded {Q : Option α → ParseState → Prop} (h : Runs P p q (fun a => Q (some a)) E' deep)
    (hE : ∀ s, E' s → Q none { s with tokens := skipStatement s.tokens }) :
    Runs P (guarded p) (guarded q) Q E deep := by
  intro s hs
  cases h s hs with
  | result run same holds =>
    exact .result (by simp only [guarded, run]) (by simp only [guarded, same]) holds
  | reported run same holds =>
    exact .result (by simp only [guarded, run]) (by simp only [guarded, same]) (hE _ holds)
  | tooDeep run holds => exact .tooDeep (by simp only [guarded, run]; rfl) holds

/-! ## Tokens taken -/

/-- Where reading stands that started at `s₀`. -/
structure Stands (s₀ : ParseState) (k w : Nat) (L : Language Token) (s : ParseState) : Prop where
  ended : Ended s.tokens
  errors : s₀.report.errorCount ≤ s.report.errorCount
  taken : ∃ u, u ++ s.tokens = s₀.tokens ∧ k ≤ u.length ∧ w ≤ weight u ∧
    (s.report.errorCount = s₀.report.errorCount → u ∈ L)

/-- Since `s₀`, if its tokens end with the end of input, at least `k` tokens of weight `w` have been taken, and
they are a word of `L` unless an error has been reported. -/
def Took (s₀ : ParseState) (k w : Nat) (L : Language Token) (s : ParseState) : Prop :=
  Ended s₀.tokens → Stands s₀ k w L s

variable {s₀ s s' : ParseState} {i j k k' m n r v w w' : Nat} {L M : Language Token} {c : TokenKind}

lemma took_refl (s : ParseState) : Took s 0 0 1 s :=
  fun h => ⟨h, le_rfl, [], rfl, le_rfl, Nat.zero_le _, fun _ => Language.nil_mem_one⟩

lemma Took.mono (h : Took s₀ k w L s) (hkw : j ≤ k ∧ v ≤ w) (hL : L ≤ M) : Took s₀ j v M s := by
  intro hended
  obtain ⟨hend, herrors, u, hu, hk, hw, hmem⟩ := h hended
  exact ⟨hend, herrors, u, hu, hkw.1.trans hk, hkw.2.trans hw, fun hclean => hL (hmem hclean)⟩

lemma Took.trans (h : Took s₀ k w L s) (h' : Took s j v M s') : Took s₀ (k + j) (w + v) (L * M) s' := by
  intro hended
  obtain ⟨hend, herrors, u, hu, hk, hw, hmem⟩ := h hended
  obtain ⟨hend', herrors', u', hu', hk', hw', hmem'⟩ := h' hend
  refine ⟨hend', herrors.trans herrors', u ++ u', by rw [List.append_assoc, hu', hu], ?_, ?_, fun hclean => ?_⟩
  · rw [List.length_append]
    omega
  · rw [weight_append]
    omega
  · exact Language.append_mem_mul (hmem (by omega)) (hmem' (by omega))

lemma Took.length_le (h : Took s₀ k w L s) (hended : Ended s₀.tokens) :
    k + s.tokens.length ≤ s₀.tokens.length ∧ Ended s.tokens := by
  obtain ⟨hend, -, u, hu, hk, -⟩ := h hended
  refine ⟨?_, hend⟩
  rw [← hu, List.length_append]
  omega

/-- Taking a token. -/
lemma Took.advance (h : Took s₀ k w L s) (hkind : (next s.tokens).kind = c) (hc : c ≠ .eof)
    (hv : v ≤ c.weight) : Took s₀ (k + 1) (w + v) (L * tok c) { s with tokens := rest s.tokens } := by
  intro hended
  obtain ⟨hend, herrors, u, hu, hk, hw, hmem⟩ := h hended
  subst hkind
  obtain ⟨htokens, hrest⟩ := hend.rest hc
  refine ⟨hrest, herrors, u ++ [next s.tokens], ?_, ?_, ?_, fun hclean => ?_⟩
  · rw [List.append_assoc, List.singleton_append, ← htokens, hu]
  · simpa using hk
  · rw [weight_append]
    simpa [weight] using Nat.add_le_add hw hv
  · exact Language.append_mem_mul (hmem hclean) ⟨_, rfl, rfl⟩

/-- Behind an error no word is asked for. -/
lemma Took.report (h : Took s₀ k w L s) (p : Place) (e : SyntaxError) :
    Took s₀ k w M { s with report := s.report.error p e.message } := by
  intro hended
  obtain ⟨hend, herrors, u, hu, hk, hw, -⟩ := h hended
  have hcount : (s.report.error p e.message).errorCount = s.report.errorCount + 1 := by
    simp [Report.errorCount, Report.error]
  exact ⟨hend, by simp only [hcount]; omega, u, hu, hk, hw, fun hclean => by simp only [hcount] at hclean; omega⟩

/-- Passing over tokens behind an error. -/
lemma Took.skip (h : Took s₀ k w 0 s) {ts : List Token}
    (hts : Ended s.tokens → Ended ts ∧ ts <:+ s.tokens) : Took s₀ k w M { s with tokens := ts } := by
  intro hended
  obtain ⟨hend, herrors, u, hu, hk, hw, hmem⟩ := h hended
  obtain ⟨hend', u', hu'⟩ := hts hend
  refine ⟨hend', herrors, u ++ u', by rw [List.append_assoc, hu', hu], ?_, ?_, fun hclean => ?_⟩
  · rw [List.length_append]
    omega
  · rw [weight_append]
    omega
  · exact (Language.notMem_zero _ (hmem hclean)).elim

/-- Passing over a statement that took nothing before it failed, unless it starts with a brace. -/
lemma Took.skipStatement (h : Took s₀ 0 0 0 s) (hstop : ¬ ((next s₀.tokens).kind = .eof ∨
    (next s₀.tokens).kind = .rbrace ∨ (next s₀.tokens).kind = .lbrace)) :
    Took s₀ 1 0 M { s with tokens := Parse.skipStatement s.tokens } := by
  intro hended
  obtain ⟨hend, herrors, u, hu, -, -, hmem⟩ := h hended
  obtain ⟨hend', u', hu'⟩ := skipStatement_suffix s.tokens hend
  refine ⟨hend', herrors, u ++ u', by rw [List.append_assoc, hu', hu], ?_, Nat.zero_le _, fun hclean => ?_⟩
  · have hlength := congrArg List.length hu'
    rw [List.length_append] at hlength ⊢
    cases u with
    | cons =>
      rw [List.length_cons]
      omega
    | nil =>
      have hlt := length_skipStatement_lt hended hstop
      rw [← hu, List.nil_append] at hlt
      omega
  · exact (Language.notMem_zero _ (hmem hclean)).elim

/-- A reader that fails has taken enough tokens. -/
lemma Runs.fails (h : Runs P p q Q (Took s₀ k 0 0) deep) (hi : i ≤ k) : Runs P p q Q (Took s₀ i 0 0) deep :=
  fun s hs => (h s hs).imp (fun _ _ => id) (fun _ h => h.mono ⟨hi, le_rfl⟩ le_rfl) id

/-- The depth `m` does not pay for ten calls for each token ahead of `s` and `r` more. -/
def Shallow (s : ParseState) (m r : Nat) : Prop := Ended s.tokens → m < 10 * s.tokens.length + r

lemma Took.shallow (h : Took s₀ k w L s) (hs : Shallow s m (r + 10 * k)) : Shallow s₀ m r := by
  intro hended
  obtain ⟨hlength, hend⟩ := h.length_le hended
  have := hs hend
  omega

/-- A run is looked at from its first state on. -/
lemma Outcome.lift {x : α → Nat} {N : α → Language Token} {T : α → Prop} (hs : Took s₀ k w L s)
    (h : Outcome p q s (fun a s' => T a ∧ Took s j (x a) (N a) s') E (Shallow s m (r + 10 * k))) :
    Outcome p q s (fun a s' => T a ∧ Took s₀ (k + j) (w + x a) (L * N a) s') E (Shallow s₀ m r) :=
  h.imp (fun _ _ h => ⟨h.1, hs.trans h.2⟩) (fun _ => id) hs.shallow

/-! ## Steps -/

section Steps

variable {f g : α → Parse β}

lemma runs_report {R : Unit → ParseState → Prop} (p : Place) (e : SyntaxError)
    (h : ∀ s, P s → R () { s with report := s.report.error p e.message }) :
    Runs P (report p e) (report p e) R E deep :=
  fun s hs => .result rfl rfl (h s hs)

lemma runs_fail (p : Place) (e : SyntaxError) (h : ∀ s, P s → Took s₀ k w L s) (hi : i ≤ k) :
    Runs P (fail p e : Parse α) (fail p e) Q (Took s₀ i 0 0) deep :=
  fun s hs => .reported rfl rfl (((h s hs).report p e).mono ⟨hi, Nat.zero_le w⟩ le_rfl)

/-- Nothing is read behind a failure. -/
lemma runs_fail_bind (p : Place) (e : SyntaxError) (hi : i ≤ k) :
    Runs (Took s₀ k w L) (fail p e >>= f) (fail p e >>= g) R (Took s₀ i 0 0) deep :=
  runs_bind (Q := fun _ _ => False) (runs_fail p e (fun _ => id) hi) fun _ _ h => h.elim

lemma runs_advance {R : Unit → ParseState → Prop} (hc : c ≠ .eof) (hv : v ≤ c.weight)
    (h : ∀ s, Took s₀ (k + 1) (w + v) (L * tok c) s → R () s) :
    Runs (fun s => Took s₀ k w L s ∧ (next s.tokens).kind = c) advance advance R E deep :=
  runs_modify fun _ hs => h _ (hs.1.advance hs.2 hc hv)

variable {f g : Unit → Parse β}

/-- Taking a token whose kind has been looked at, with its weight. -/
lemma runs_takeWeight {t : Token} (ht : t.kind = c) (hc : c ≠ .eof) (hv : v ≤ c.weight)
    (h : Runs (Took s₀ (k + 1) (w + v) (L * tok c)) (f ()) (g ()) R E deep) :
    Runs (fun s => Took s₀ k w L s ∧ (next s.tokens).kind = t.kind) (advance >>= f) (advance >>= g) R E deep := by
  rw [ht]
  exact runs_bind (runs_advance (R := fun _ => Took s₀ (k + 1) (w + v) (L * tok c)) hc hv fun _ => id) fun _ => h

lemma runs_take {t : Token} (ht : t.kind = c) (hc : c ≠ .eof)
    (h : Runs (Took s₀ (k + 1) (w + 1) (L * tok c)) (f ()) (g ()) R E deep) :
    Runs (fun s => Took s₀ k w L s ∧ (next s.tokens).kind = t.kind) (advance >>= f) (advance >>= g) R E deep :=
  runs_takeWeight ht hc (TokenKind.one_le_weight hc) h

/-- Reading on behind a token that may stand there. -/
lemma runs_accept {p p' q q' : Parse β} (hc : c ≠ .eof)
    (hp : Runs (Took s₀ (k + 1) (w + 1) (L * tok c)) p p' R E deep) (hq : Runs (Took s₀ k w L) q q' R E deep) :
    Runs (Took s₀ k w L) (do if ← accept c then p else q) (do if ← accept c then p' else q') R E deep := by
  refine runs_bind (Q := fun b => if b then Took s₀ (k + 1) (w + 1) (L * tok c) else Took s₀ k w L) ?_ fun b => ?_
  · refine runs_peek fun c' => runs_ite (fun hc' => ?_) fun _ => runs_pure fun _ h => h.1
    subst hc'
    exact runs_bind (runs_advance (R := fun _ => Took s₀ (k + 1) (w + 1) (L * tok c')) hc
      (TokenKind.one_le_weight hc) fun _ => id) fun _ => runs_pure fun _ h => h
  · cases b with
    | true => exact hp
    | false => exact hq

variable {f g : Token → Parse β}

/-- Taking a token that has to come next, with its weight. -/
lemma runs_expectWeight (hc : c ≠ .eof) (what : String) (hv : v ≤ c.weight) (hi : i ≤ k)
    (h : ∀ t, Runs (Took s₀ (k + 1) (w + v) (L * tok c)) (f t) (g t) R (Took s₀ i 0 0) deep) :
    Runs (Took s₀ k w L) (expect c what >>= f) (expect c what >>= g) R (Took s₀ i 0 0) deep := by
  refine runs_bind (Q := fun _ => Took s₀ (k + 1) (w + v) (L * tok c)) (runs_current fun t => ?_) h
  refine runs_ite (fun ht => ?_) fun _ => ?_
  · exact runs_takeWeight ht hc hv (runs_pure fun _ h => h)
  · exact runs_fail _ _ (fun _ h => h.1) hi

lemma runs_expect (hc : c ≠ .eof) (what : String) (hi : i ≤ k)
    (h : ∀ t, Runs (Took s₀ (k + 1) (w + 1) (L * tok c)) (f t) (g t) R (Took s₀ i 0 0) deep) :
    Runs (Took s₀ k w L) (expect c what >>= f) (expect c what >>= g) R (Took s₀ i 0 0) deep :=
  runs_expectWeight hc what (TokenKind.one_le_weight hc) hi h

/-- A token that is known to come next is there when it is expected. -/
lemma runs_expectAt (hc : c ≠ .eof) (what : String)
    (h : ∀ t, Runs (Took s₀ (k + 1) (w + 1) (L * tok c)) (f t) (g t) R E deep) :
    Runs (fun s => Took s₀ k w L s ∧ (next s.tokens).kind = c) (expect c what >>= f) (expect c what >>= g) R E
      deep := by
  refine runs_bind (Q := fun _ => Took s₀ (k + 1) (w + 1) (L * tok c)) (runs_current fun t => ?_) h
  refine runs_ite (fun ht => ?_) fun ht => runs_of_fact (φ := False) (fun _ hs => ht ?_) False.elim
  · refine Runs.imp (runs_take ht hc (L := L) (runs_pure fun _ h => h)) (fun _ hs => ⟨hs.1.1, hs.2⟩) fun _ _ => id
  · rw [← hs.2, hs.1.2]

end Steps

/-! ## Readers -/

/-- What a reader `p` of depth `n` takes wherever it starts, and that it does the same with more depth. For a
result `a` with `Q a` it takes at least `j` tokens of weight `v a`, a word of `N a`. It makes at most `r` calls
before it takes a token. -/
def Takes (n r j : Nat) (v : α → Nat) (N : α → Language Token) (Q : α → Prop) (p : Nat → Parse α) : Prop :=
  ∀ s₀ k w L m r', m + r ≤ n + r' + 10 * k → Runs (Took s₀ k w L) (p n) (p (n + 1))
    (fun a s => Q a ∧ Took s₀ (k + j) (w + v a) (L * N a) s) (Took s₀ k 0 0) (Shallow s₀ m r')

variable {x : α → Nat} {N : α → Language Token} {T : α → Prop} {p : Nat → Parse α} {r' : Nat} {f g : α → Parse β}

/-- A part of a reader. -/
lemma Takes.runs (h : Takes n r j x N T p) (hside : i ≤ k ∧ m + r ≤ n + r' + 10 * k) :
    Runs (Took s₀ k w L) (p n) (p (n + 1)) (fun a s => T a ∧ Took s₀ (k + j) (w + x a) (L * N a) s)
      (Took s₀ i 0 0) (Shallow s₀ m r') :=
  (h s₀ k w L m r' hside.2).fails hside.1

lemma Takes.imp {N' : α → Language Token} {T' : α → Prop} (h : Takes n r j x N T p) (hN : ∀ a, N a ≤ N' a)
    (hT : ∀ a, T a → T' a) : Takes n r j x N' T' p :=
  fun s₀ k w L m r' hm => (h s₀ k w L m r' hm).imp (fun _ => id) fun a _ hs =>
    ⟨hT a hs.1, hs.2.mono ⟨le_rfl, le_rfl⟩ (mul_le_mul_right (hN a) L)⟩

lemma Takes.bind (h : Takes n r j x N T p) (hside : i ≤ k ∧ m + r ≤ n + r' + 10 * k)
    (hf : ∀ a, T a → Runs (Took s₀ (k + j) (w + x a) (L * N a)) (f a) (g a) R (Took s₀ i 0 0) (Shallow s₀ m r')) :
    Runs (Took s₀ k w L) (p n >>= f) (p (n + 1) >>= g) R (Took s₀ i 0 0) (Shallow s₀ m r') :=
  runs_bind (h.runs hside) fun a s hs => hf a hs.1 s hs.2

/-- Tokens are always left, so without any depth a reader runs out of it. -/
lemma runs_zero {q : Parse α} (hm : m + r ≤ 0 + r' + 10 * k) :
    Runs (Took s₀ k w L) (throw .tooDeep) q Q E (Shallow s₀ m r') := by
  refine runs_tooDeep fun _ hs hended => ?_
  obtain ⟨hlength, hend⟩ := hs.length_le hended
  have := hend.length_pos
  omega

lemma takes_zero (h : p 0 = throw .tooDeep) : Takes 0 r j x N T p :=
  fun _ _ _ _ _ _ hm => h ▸ runs_zero hm

/-- The end of a reader: what has been taken is a word of its language. -/
lemma runs_done {a : α} (hT : T a) (hkw : k + j ≤ k' ∧ w + x a ≤ w') (hM : M ≤ L * N a) :
    Runs (Took s₀ k' w' M) (pure a) (pure a) (fun a s => T a ∧ Took s₀ (k + j) (w + x a) (L * N a) s) E deep :=
  runs_pure fun _ h => ⟨hT, h.mono hkw hM⟩

/-- The end of a reader that has taken an alternative of its rule. -/
lemma runs_rule {a : α} {y : Nonterminal} (hT : T a) (hkw : k + j ≤ k' ∧ w + x a ≤ w')
    (hM : ∃ p ∈ y.rule.alts, M = L * p.words) :
    Runs (Took s₀ k' w' M) (pure a) (pure a) (fun a s => T a ∧ Took s₀ (k + j) (w + x a) (L * y.words) s) E deep :=
  runs_done (N := fun _ => y.words) hT hkw (Nonterminal.mul_le_words hM)

/-- A list that may be missing in front of a token. -/
lemma Takes.option {γ : Type} {T : List γ → Prop} {p : Nat → Parse (List γ)} {y : Phrase}
    {f g : List γ → Parse β} (h : Takes n r j (fun _ => v) (fun _ => y.words) T p) (hnil : T [])
    (hside : i ≤ k ∧ m + r ≤ n + r' + 10 * k)
    (hf : ∀ as, T as → Runs (Took s₀ k w (L * (Phrase.opt y).words)) (f as) (g as) R (Took s₀ i 0 0)
      (Shallow s₀ m r')) :
    Runs (Took s₀ k w L) (peek >>= fun d => if d = c then pure [] >>= f else p n >>= f)
      (peek >>= fun d => if d = c then pure [] >>= g else p (n + 1) >>= g) R (Took s₀ i 0 0) (Shallow s₀ m r') := by
  refine runs_peek fun d => Runs.left (runs_ite (fun _ => ?_) fun _ => h.bind hside fun as has s hs => ?_)
  · exact fun s hs => (hf [] hnil s (hs.mono ⟨le_rfl, le_rfl⟩ (Phrase.le_mul_words_opt_none _ _))).of_eq rfl rfl
  · exact hf as has s (hs.mono ⟨by omega, by omega⟩ (Phrase.le_mul_words_opt_some _ _))

end Parse

end SubrLang
