import SubrLang.Machine.Run
import SubrLang.Proofs.Assembly
import SubrLang.Proofs.StoredValues

/-!
# Executing fragments of code

How a piece of code changes the state of the machine when it is executed from its first instruction to
its end, wherever in a program it stands.

**States.** `State` is what a program can observe of a machine: operand stack, memory and output. The
counters of the machine are left out. `Steps P n c c'` says that a machine in the configuration `c` of
the assembled program `P` is in `c'` after `n` instructions and still running.

**Positions.** `Code.At P i c` says that `c` is a part of `P` that starts with instruction `i`. A label
in it stands for its own position, so code that contains jumps to its own labels can be described
without saying where it is.

**Fragments.** `Code.Takes P c s s'` says that the fragment `c` of `P`, started in the state `s`, comes
to its end in the state `s'`. It composes along `++` (`Takes.append`), so the effect of a sequence is
put together from the effects of its parts. Straight code is not left on the way; where that matters,
`Code.Passes` says it.
-/

namespace SubrLang

/-! ## States -/

/-- What a program can observe of a machine. -/
structure State where
  /-- The operand stack, its top first. -/
  stack : List Word
  memory : Memory
  output : List UInt8

/-- A state together with the number of the next instruction. -/
structure Config where
  pc : Nat
  state : State

namespace Machine

def state (m : Machine) : State := ⟨m.stack.toList.reverse, m.memory, m.output.data.toList⟩

def config (m : Machine) : Config := ⟨m.pc, m.state⟩

/-- The machine with more words on its operand stack, the last one on top. -/
def withWords (m : Machine) (ws : List Word) : Machine := { m with stack := m.stack ++ ws.toArray }

lemma withWords_append (m : Machine) (ws ws' : List Word) :
    m.withWords (ws ++ ws') = (m.withWords ws).withWords ws' := by
  simp [withWords]

lemma withWords_nil (m : Machine) : m.withWords [] = m := by simp [withWords]

/-- The operand stack is empty or has a word on top. -/
lemma eq_withWords (m : Machine) : m.stack = #[] ∨ ∃ m₀ w, m = withWords m₀ [w] := by
  obtain ⟨memory, ⟨stack⟩, pc, output, peak, steps, heap⟩ := m
  rcases stack.eq_nil_or_concat' with rfl | ⟨st, w, rfl⟩
  · exact .inl rfl
  · exact .inr ⟨⟨memory, ⟨st⟩, pc, output, peak, steps, heap⟩, w, by simp [withWords]⟩

end Machine

/-! ## Instructions -/

namespace Exec

variable {α β : Type} {c c' c'' : Config} {i j : Nat} {st : List Word} {mem : Memory}
  {out : List UInt8} {w : Word} {v v' : Int32} {img : Image} {m m' m'' : Machine}

lemma bind_of_ok {x : Exec α} {f : α → Exec β} {a : α} (h : x m = .ok a m') : (x >>= f) m = f a m' := by
  show EStateM.bind x f m = f a m'
  rw [EStateM.bind, h]

/-- A sequence succeeds if both of its parts do. -/
lemma bind_eq_ok_iff {x : Exec α} {f : α → Exec β} {b : β} :
    (x >>= f) m = .ok b m'' ↔ ∃ a m', x m = .ok a m' ∧ f a m' = .ok b m'' := by
  constructor
  · intro h
    change EStateM.bind x f m = .ok b m'' at h
    unfold EStateM.bind at h
    split at h
    · next a m' hx => exact ⟨a, m', hx, h⟩
    · cases h
  · rintro ⟨a, m', hx, hf⟩
    rw [bind_of_ok hx, hf]

/-- A sequence fails in its first part or in the second one. -/
lemma of_bind_eq_error {x : Exec α} {f : α → Exec β} {e : Fault} (h : (x >>= f) m = .error e m'') :
    x m = .error e m'' ∨ ∃ a m', x m = .ok a m' ∧ f a m' = .error e m'' := by
  change EStateM.bind x f m = .error e m'' at h
  unfold EStateM.bind at h
  split at h
  · next a m' hx => exact .inr ⟨a, m', hx, h⟩
  · next e' m' hx =>
    cases h
    exact .inl hx

lemma bind_congr_of_ok {x : Exec α} {f g : α → Exec β} (h : ∀ a m', x m = .ok a m' → f a m' = g a m') :
    (x >>= f) m = (x >>= g) m := by
  show EStateM.bind x f m = EStateM.bind x g m
  unfold EStateM.bind
  split
  · next a m' hx => exact h a m' hx
  · rfl

lemma pop_withWords (m : Machine) (w : Word) : pop (m.withWords [w]) = .ok w m := by
  simp [Machine.withWords, pop, get, getThe, MonadStateOf.get, modify, modifyGet, MonadStateOf.modifyGet,
    EStateM.get, EStateM.modifyGet, bind, EStateM.bind, pure, EStateM.pure]

lemma pop_of_empty (h : m.stack = #[]) : pop m = .error .stackUnderflow m := by
  simp [pop, h, get, getThe, MonadStateOf.get, EStateM.get, bind, EStateM.bind, throw, throwThe,
    MonadExceptOf.throw, EStateM.throw]

lemma popInt_withWords (m : Machine) (v : Int32) : popInt (m.withWords [.int v]) = .ok v m :=
  (bind_of_ok (pop_withWords m _)).trans rfl

lemma pop_eq_ok_iff : pop m = .ok w m' ↔ m = m'.withWords [w] := by
  refine ⟨fun h => ?_, fun h => h ▸ pop_withWords m' w⟩
  rcases m.eq_withWords with hempty | ⟨m₀, w₀, rfl⟩
  · rw [pop_of_empty hempty] at h
    cases h
  · rw [pop_withWords] at h
    cases h
    rfl

lemma popInt_eq_ok_iff : popInt m = .ok v m' ↔ m = m'.withWords [.int v] := by
  refine ⟨fun h => ?_, fun h => h ▸ popInt_withWords m' v⟩
  obtain ⟨w, m₁, hpop, hw⟩ := bind_eq_ok_iff.mp h
  cases w with
  | int v' =>
    cases hw
    exact pop_eq_ok_iff.mp hpop
  | float f => cases hw

lemma popFloat_eq_ok_iff {f : Binary64} : popFloat m = .ok f m' ↔ m = m'.withWords [.float f] := by
  refine ⟨fun h => ?_, fun h => h ▸ (bind_of_ok (pop_withWords m' _)).trans rfl⟩
  obtain ⟨w, m₁, hpop, hw⟩ := bind_eq_ok_iff.mp h
  cases w with
  | float f' =>
    cases hw
    exact pop_eq_ok_iff.mp hpop
  | int v => cases hw

/-- Started in a configuration, an action succeeds and leads to another one. -/
def Does {α : Type} (x : Exec α) (c : Config) (a : α) (c' : Config) : Prop :=
  ∀ m : Machine, m.config = c → ∃ m', x m = .ok a m' ∧ m'.config = c'

lemma does_pure (a : α) : Does (pure a) c a c := fun m hm => ⟨m, rfl, hm⟩

lemma Does.bind {x : Exec α} {f : α → Exec β} {a : α} {b : β} (hx : Does x c a c')
    (hf : Does (f a) c' b c'') : Does (x >>= f) c b c'' := by
  intro m hm
  obtain ⟨m', hx', hm'⟩ := hx m hm
  obtain ⟨m'', hf', hm''⟩ := hf m' hm'
  exact ⟨m'', (bind_of_ok hx').trans hf', hm''⟩

lemma does_push (w : Word) : Does (push w) ⟨i, st, mem, out⟩ () ⟨i, w :: st, mem, out⟩ := by
  rintro m hm
  cases hm
  refine ⟨_, rfl, ?_⟩
  simp [Machine.config, Machine.state]

lemma does_pop : Does pop ⟨i, w :: st, mem, out⟩ w ⟨i, st, mem, out⟩ := by
  intro m hm
  rcases m.eq_withWords with hempty | ⟨m', w', rfl⟩
  · simp [Machine.config, Machine.state, hempty] at hm
  · have hconfig : (m'.withWords [w']).config =
        ⟨m'.pc, w' :: m'.state.stack, m'.memory, m'.state.output⟩ := by
      simp [Machine.config, Machine.state, Machine.withWords]
    rw [hconfig] at hm
    cases hm
    exact ⟨m', pop_withWords m' w, rfl⟩

lemma does_popInt : Does popInt ⟨i, .int v :: st, mem, out⟩ v ⟨i, st, mem, out⟩ :=
  does_pop.bind (does_pure v)

lemma does_popFloat {f : Binary64} : Does popFloat ⟨i, .float f :: st, mem, out⟩ f ⟨i, st, mem, out⟩ :=
  does_pop.bind (does_pure f)

lemma does_get {x : Machine → Exec α} {a : α}
    (h : ∀ m : Machine, m.config = c → Does (x m) c a c') : Does (do x (← get)) c a c' :=
  fun m hm => h m hm m hm

lemma does_jump (hj : j ≤ img.code.size) (hsize : img.code.size < 2 ^ 31) :
    Does (jump img (Int32.ofNat j)) ⟨i, st, mem, out⟩ () ⟨j, st, mem, out⟩ := by
  intro m hm
  cases hm
  have hj' : j < 2 ^ 31 := by omega
  refine ⟨{ m with pc := j }, ?_, rfl⟩
  have hneg : ¬ Int32.ofNat j < 0 := by
    rw [Int32.lt_iff_toInt_lt, Int32.toInt_ofNat_of_lt (by simpa using hj')]
    simp
  have hin : ¬ img.code.size < j := by omega
  simp [jump, hneg, Memory.toNatClampNeg_ofNat hj', hin, modify, modifyGet, MonadStateOf.modifyGet,
    EStateM.modifyGet]

end Exec

/-- A truth value as a word. -/
def Word.ofBool (b : Bool) : Word := .int (if b then 1 else 0)

/-- What an instruction that works on the operand stack alone makes of it. -/
def PlainOp.effect : PlainOp → List Word → Option (List Word)
  | .nop, st => some st
  | .pop, _ :: st => some st
  | .duplicate, a :: st => some (a :: a :: st)
  | .exchange, b :: a :: st => some (a :: b :: st)
  | .add, .int b :: .int a :: st => some (.int (a + b) :: st)
  | .subtract, .int b :: .int a :: st => some (.int (a - b) :: st)
  | .multiply, .int b :: .int a :: st => some (.int (a * b) :: st)
  | .divide, .int b :: .int a :: st => if b = 0 then none else some (.int (a / b) :: st)
  | .and, .int b :: .int a :: st => some (.ofBool (a != 0 && b != 0) :: st)
  | .or, .int b :: .int a :: st => some (.ofBool (a != 0 || b != 0) :: st)
  | .btAnd, .int b :: .int a :: st => some (.int (a &&& b) :: st)
  | .btOr, .int b :: .int a :: st => some (.int (a ||| b) :: st)
  | .negate, .int a :: st => some (.int (-a) :: st)
  | .bnegate, .int a :: st => some (.ofBool (a == 0) :: st)
  | .btNegate, .int a :: st => some (.int (~~~a) :: st)
  | _, _ => none

namespace Exec

variable {α β : Type} {c c' c'' : Config} {i j : Nat} {st st' : List Word} {mem : Memory}
  {out : List UInt8} {w w' : Word} {v v' : Int32} {img : Image}

lemma does_intBinary (f : Int32 → Int32 → Int32) :
    Does (intBinary f) ⟨i, .int v' :: .int v :: st, mem, out⟩ () ⟨i, .int (f v v') :: st, mem, out⟩ :=
  does_popInt.bind (does_popInt.bind (does_push _))

lemma does_boolBinary (f : Int32 → Int32 → Bool) :
    Does (boolBinary f) ⟨i, .int v' :: .int v :: st, mem, out⟩ ()
      ⟨i, .ofBool (f v v') :: st, mem, out⟩ :=
  does_popInt.bind (does_popInt.bind (does_push _))

lemma does_duplicate : Does duplicate ⟨i, w :: st, mem, out⟩ () ⟨i, w :: w :: st, mem, out⟩ := by
  apply does_get
  intro m hm
  have hback : m.stack.back? = some w := by
    simp only [Machine.config, Machine.state, Config.mk.injEq, State.mk.injEq] at hm
    rw [← Array.getLast?_toList, ← List.head?_reverse, hm.2.1, List.head?_cons]
  rw [hback]
  exact does_push w

lemma does_exchange :
    Does exchange ⟨i, w :: w' :: st, mem, out⟩ () ⟨i, w' :: w :: st, mem, out⟩ := by
  apply does_get
  intro m hm
  have hsize : ¬ m.stack.size < 2 := by
    simp only [Machine.config, Machine.state, Config.mk.injEq, State.mk.injEq] at hm
    have := congrArg List.length hm.2.1
    simp at this
    omega
  rw [if_neg hsize]
  exact does_pop.bind (does_pop.bind ((does_push _).bind (does_push _)))

/-- What the machine does to the operand stack is what `PlainOp.effect` says. -/
lemma does_effect {o : PlainOp} (h : o.effect st = some st') :
    Does (plain img o) ⟨i, st, mem, out⟩ () ⟨i, st', mem, out⟩ := by
  fun_cases PlainOp.effect o st with
  | case1 st => cases h; exact does_pure ()
  | case2 w st => cases h; exact does_pop.bind (does_pure ())
  | case3 w st => cases h; exact does_duplicate
  | case4 b a st => cases h; exact does_exchange
  | case5 b a st => cases h; exact does_intBinary _
  | case6 b a st => cases h; exact does_intBinary _
  | case7 b a st => cases h; exact does_intBinary _
  | case8 a st => simp [PlainOp.effect] at h
  | case9 b a st hb =>
    simp only [PlainOp.effect, if_neg hb, Option.some.injEq] at h
    subst h
    refine does_popInt.bind (does_popInt.bind ?_)
    rw [if_neg hb]
    exact does_push _
  | case10 b a st => cases h; exact does_boolBinary _
  | case11 b a st => cases h; exact does_boolBinary _
  | case12 b a st => cases h; exact does_intBinary _
  | case13 b a st => cases h; exact does_intBinary _
  | case14 a st => cases h; exact does_popInt.bind (does_push _)
  | case15 a st => cases h; exact does_popInt.bind (does_push _)
  | case16 a st => cases h; exact does_popInt.bind (does_push _)
  | case17 => simp [PlainOp.effect] at h

end Exec

/-! ## Loads and stores -/

namespace Slot

def loadOp : Slot → PlainOp
  | byte => .loadC
  | word => .loadI
  | double => .loadF

def storeOp : Slot → PlainOp
  | byte => .storeC
  | word => .storeI
  | double => .storeF

end Slot

lemma Ty.loadOp_eq (t : Ty) : t.loadOp = t.slot.loadOp := by
  cases t with
  | prim p => cases p <;> rfl
  | _ => rfl

lemma Ty.storeOp_eq (t : Ty) : t.storeOp = t.slot.storeOp := by
  cases t with
  | prim p => cases p <;> rfl
  | _ => rfl

/-- A place in memory as a word. -/
def Word.address (i : Nat) : Word := .int (Int32.ofNat i)

namespace Exec

variable {c c' c'' : Config} {i j : Nat} {st st' : List Word} {mem : Memory} {s : Slot}
  {out : List UInt8} {w w' : Word} {v v' : Int32} {img : Image}

lemma does_pushNext : Does pushNext ⟨i, st, mem, out⟩ () ⟨i, .address i :: st, mem, out⟩ := by
  apply does_get
  intro m hm
  rw [show m.pc = i from congrArg Config.pc hm]
  exact does_push _

lemma does_load (s : Slot) (hj : mem.Inside j s.size) :
    Does (plain img s.loadOp) ⟨i, .address j :: st, mem, out⟩ ()
      ⟨i, mem.fetch s j :: st, mem, out⟩ := by
  cases s with
  | byte =>
    have hholds : mem.holds (Int32.ofNat j) 1 := Memory.holds_ofNat hj
    refine does_popInt.bind (does_get fun m hm => ?_)
    cases hm
    rw [Memory.loadChar?, if_pos hholds, Memory.toNatClampNeg_ofNat hj.1]
    exact does_push _
  | word =>
    have hholds : mem.holds (Int32.ofNat j) 4 := Memory.holds_ofNat hj
    refine does_popInt.bind (does_get fun m hm => ?_)
    cases hm
    rw [Memory.loadInt?, if_pos hholds, Memory.toNatClampNeg_ofNat hj.1]
    exact does_push _
  | double =>
    have hholds : mem.holds (Int32.ofNat j) 8 := Memory.holds_ofNat hj
    refine does_popInt.bind (does_get fun m hm => ?_)
    cases hm
    rw [Memory.loadFloat?, if_pos hholds, Memory.toNatClampNeg_ofNat hj.1]
    exact does_push _

lemma does_write {n : Nat} (f : Memory → Nat → Memory) (hj : mem.Inside j n) :
    Does (write (Int32.ofNat j) n f) ⟨i, st, mem, out⟩ () ⟨i, st, f mem j, out⟩ := by
  intro m hm
  cases hm
  refine ⟨{ m with memory := f m.memory j }, ?_, rfl⟩
  rw [write, if_pos (Memory.holds_ofNat hj), Memory.toNatClampNeg_ofNat hj.1]

lemma does_store (s : Slot) (hj : mem.Inside j s.size) (hw : s.Fits w) :
    Does (plain img s.storeOp) ⟨i, w :: .address j :: st, mem, out⟩ ()
      ⟨i, st, mem.put s j w, out⟩ := by
  cases s with
  | byte =>
    cases w with
    | int v => exact does_popInt.bind (does_popInt.bind (does_write _ hj))
    | float f => exact hw.elim
  | word =>
    cases w with
    | int v => exact does_popInt.bind (does_popInt.bind (does_write _ hj))
    | float f => exact hw.elim
  | double =>
    cases w with
    | int v => exact hw.elim
    | float f => exact does_popFloat.bind (does_popInt.bind (does_write _ hj))

end Exec

/-! ## Runs -/

/-- A run that only the program itself ends. -/
def RunLimits.unlimited : RunLimits := { steps := 0 }

namespace Machine

lemma stop?_unlimited (m : Machine) : stop? .unlimited m = none := by
  simp [stop?, RunLimits.unlimited]

/-! ### Turns -/

variable {img : Image} {l : RunLimits} {m m' : Machine} {r : Resolved} {n : Nat}

/-- What a machine does next where no limit stops it. -/
def turn (img : Image) (m : Machine) : Machine × Ending := m.runFor img .unlimited 1

lemma turn_of_end (h : img.code[m.pc]? = none) : m.turn img = (m.recordHeap img, .finished) := by
  simp [turn, runFor, h]

lemma turn_of_code (h : img.code[m.pc]? = some r) : m.turn img =
    match Exec.instr img r m.advance with
    | .error f m' => (m', .error (.fault m.pc r.instr.opcode f))
    | .ok () m' => if r.isHalt then (m'.recordHeap img, .finished) else (m', .running) := by
  cases hx : Exec.instr img r m.advance <;> simp [turn, runFor, h, stop?_unlimited, hx]

/-- Limits let a machine take its next turn. The end of the code is looked for first. -/
def Passes (img : Image) (l : RunLimits) (m : Machine) : Prop :=
  img.code[m.pc]? = none ∨ stop? l m = none

/-- Where limits let it, a run goes on with the next turn. -/
lemma runFor_succ_of_passes (h : m.Passes img l) : m.runFor img l (n + 1) =
    match m.turn img with
    | (m', .running) => m'.runFor img l n
    | ended => ended := by
  cases hr : img.code[m.pc]? with
  | none => simp [turn_of_end hr, runFor, hr]
  | some r =>
    have hstop : stop? l m = none := h.resolve_left (by simp [hr])
    simp only [turn_of_code hr, runFor, hr, hstop]
    cases Exec.instr img r m.advance with
    | error f m₁ => rfl
    | ok u m₁ => cases r.isHalt <;> rfl

lemma runFor_succ_of_stops (h : ¬ m.Passes img l) :
    ∃ e, stop? l m = some e ∧ ∀ n, m.runFor img l (n + 1) = (m, .error e) := by
  obtain ⟨hr, hstop⟩ := not_or.mp h
  obtain ⟨r, hr⟩ := Option.ne_none_iff_exists'.mp hr
  obtain ⟨e, he⟩ := Option.ne_none_iff_exists'.mp hstop
  exact ⟨e, he, fun n => by simp only [runFor, hr, he]⟩

/-- A run that goes on has taken a turn and goes on from there. -/
lemma turn_of_running (h : m.runFor img l (n + 1) = (m', .running)) :
    m.Passes img l ∧ ∃ m₁, m.turn img = (m₁, .running) ∧ m₁.runFor img l n = (m', .running) := by
  by_cases hpass : m.Passes img l
  · rw [runFor_succ_of_passes hpass] at h
    split at h
    · next m₁ hm₁ => exact ⟨hpass, m₁, hm₁, h⟩
    · next hended => exact absurd h (hended m')
  · obtain ⟨e, -, hrun⟩ := runFor_succ_of_stops hpass
    rw [hrun] at h
    cases h

/-- A run can be watched in two parts. -/
lemma runFor_add (k : Nat) (h : runFor img l n m = (m', .running)) :
    runFor img l (n + k) m = runFor img l k m' := by
  induction n generalizing m with
  | zero =>
    cases h
    rw [Nat.zero_add]
  | succ n ih =>
    obtain ⟨hpass, m₁, hm₁, h⟩ := turn_of_running h
    rw [Nat.add_right_comm, runFor_succ_of_passes hpass, hm₁]
    exact ih h

end Machine

/-- After `n` instructions of a program a machine in one configuration is in another one and still
running. -/
def Steps (P : Code) (n : Nat) (c c' : Config) : Prop :=
  ∀ m : Machine, m.config = c →
    ∃ m', m'.config = c' ∧ m.runFor P.image .unlimited n = (m', .running)

/-- A run of a program comes from one configuration to another. -/
def Reaches (P : Code) (c c' : Config) : Prop := ∃ n, Steps P n c c'

variable {P : Code} {c c' c'' : Config} {s s' s'' : State}

lemma Steps.refl (c : Config) : Steps P 0 c c := fun m hm => ⟨m, hm, rfl⟩

lemma Steps.trans {n k : Nat} (h : Steps P n c c') (h' : Steps P k c' c'') :
    Steps P (n + k) c c'' := by
  intro m hm
  obtain ⟨m', hm', hrun⟩ := h m hm
  obtain ⟨m'', hm'', hrun'⟩ := h' m' hm'
  exact ⟨m'', hm'', (Machine.runFor_add k hrun).trans hrun'⟩

lemma Steps.one {i : Nat} {r : Resolved} (hr : P.image.code[i]? = some r) (hhalt : r.isHalt = false)
    (h : (Exec.instr P.image r).Does ⟨i + 1, s⟩ () c') : Steps P 1 ⟨i, s⟩ c' := by
  intro m hm
  cases hm
  obtain ⟨m', hx, hm'⟩ := h m.advance rfl
  refine ⟨m', hm', ?_⟩
  simp [Machine.runFor, hr, Machine.stop?_unlimited, hx, hhalt]

lemma Reaches.refl (c : Config) : Reaches P c c := ⟨0, .refl c⟩

lemma Reaches.trans (h : Reaches P c c') (h' : Reaches P c' c'') : Reaches P c c'' := by
  obtain ⟨n, hn⟩ := h
  obtain ⟨k, hk⟩ := h'
  exact ⟨n + k, hn.trans hk⟩

/-- A run comes from one configuration to another and is at instructions from `lo` up to `hi` all the way. -/
def Within (P : Code) (lo hi : Nat) (c c' : Config) : Prop :=
  ∃ n, ∀ m : Machine, m.config = c →
    ∃ m', m'.config = c' ∧ m.runFor P.image .unlimited n = (m', .running) ∧
      ∀ k < n, lo ≤ (m.runFor P.image .unlimited k).1.pc ∧ (m.runFor P.image .unlimited k).1.pc < hi

namespace Within

variable {lo hi lo' hi' : Nat}

lemma one (h : Steps P 1 c c') (hlo : lo ≤ c.pc) (hhi : c.pc < hi) : Within P lo hi c c' := by
  refine ⟨1, fun m hm => ?_⟩
  obtain ⟨m', hm', hrun⟩ := h m hm
  refine ⟨m', hm', hrun, fun k hk => ?_⟩
  obtain rfl : k = 0 := by omega
  have hpc : m.pc = c.pc := congrArg Config.pc hm
  simpa [Machine.runFor, hpc] using ⟨hlo, hhi⟩

lemma trans (h : Within P lo hi c c') (h' : Within P lo hi c' c'') : Within P lo hi c c'' := by
  obtain ⟨n, hn⟩ := h
  obtain ⟨n', hn'⟩ := h'
  refine ⟨n + n', fun m hm => ?_⟩
  obtain ⟨m', hm', hrun, hstays⟩ := hn m hm
  obtain ⟨m'', hm'', hrun', hstays'⟩ := hn' m' hm'
  refine ⟨m'', hm'', (Machine.runFor_add n' hrun).trans hrun', fun k hk => ?_⟩
  by_cases hfirst : k < n
  · exact hstays k hfirst
  · obtain ⟨j, rfl⟩ := Nat.exists_eq_add_of_le (Nat.le_of_not_lt hfirst)
    rw [Machine.runFor_add j hrun]
    exact hstays' j (by omega)

lemma mono (h : Within P lo hi c c') (hlo : lo' ≤ lo) (hhi : hi ≤ hi') : Within P lo' hi' c c' := by
  obtain ⟨n, hn⟩ := h
  refine ⟨n, fun m hm => ?_⟩
  obtain ⟨m', hm', hrun, hstays⟩ := hn m hm
  exact ⟨m', hm', hrun, fun k hk => ⟨hlo.trans (hstays k hk).1, (hstays k hk).2.trans_le hhi⟩⟩

lemma reaches (h : Within P lo hi c c') : Reaches P c c' := by
  obtain ⟨n, hn⟩ := h
  refine ⟨n, fun m hm => ?_⟩
  obtain ⟨m', hm', hrun, -⟩ := hn m hm
  exact ⟨m', hm', hrun⟩

end Within

/-! ## Positions -/

namespace Code

/-- A program that can be assembled and whose instructions can all be numbered. -/
structure Numbered (P : Code) : Prop where
  assemblable : P.Assemblable
  short : P.instrs.length < 2 ^ 31

/-- Code is a part of a program and starts with the instruction of a given number. -/
def At (P : Code) (i : Nat) (c : Code) : Prop :=
  ∃ a b, P = a ++ (c ++ b) ∧ a.instrs.length = i

/-- A label stands for the number of an instruction, or for the end of the code. -/
structure Marks (P : Code) (l : Label) (i : Nat) : Prop where
  find? : (Labels.ofCode P).find? l = some (Int32.ofNat i)
  le : i ≤ P.instrs.length

variable {i j : Nat} {a b : Code} {l : Label}

lemma at_self (P : Code) : P.At 0 P := ⟨[], [], by simp, rfl⟩

lemma At.left (h : P.At i (a ++ b)) : P.At i a := by
  obtain ⟨x, y, rfl, rfl⟩ := h
  exact ⟨x, b ++ y, by simp, rfl⟩

lemma At.right (h : P.At i (a ++ b)) : P.At (i + a.instrs.length) b := by
  obtain ⟨x, y, rfl, rfl⟩ := h
  exact ⟨x ++ a, y, by simp, by simp⟩

lemma At.resolved {line : Line} (h : P.At i [line]) (hcode : line.instr.isCode) :
    P.image.code[i]? = some (Assemble.resolved (.ofCode P) line) := by
  obtain ⟨x, y, hP, rfl⟩ := h
  have hinstrs : P.instrs = x.instrs ++ (line :: y.instrs) := by
    rw [hP]
    simp [instrs, hcode]
  simp [image, hinstrs]

lemma At.marks (hP : P.Numbered) (h : P.At i (label l)) : P.Marks l i := by
  obtain ⟨x, y, hx, rfl⟩ := h
  have hmark : (l, x.instrs.length) ∈ P.marks 0 := by
    rw [hx]
    exact mem_marks_label x y l
  exact ⟨Labels.find?_code hP.assemblable.nodup hmark, by rw [hx]; simp⟩

lemma At.le {c : Code} (h : P.At i c) : i + c.instrs.length ≤ P.instrs.length := by
  obtain ⟨x, y, rfl, rfl⟩ := h
  simp only [instrs_append, List.length_append]
  omega

/-- A label stands for one instruction only. -/
lemma Marks.unique (hP : P.Numbered) (h : P.Marks l i) (h' : P.Marks l j) : i = j := by
  have hshort := hP.short
  have hi := h.le
  have hj := h'.le
  exact (Memory.ofNat_inj_of_lt (by omega) (by omega)).mp
    (Option.some.inj (h.find?.symm.trans h'.find?))

/-! ## Fragments -/

/-- Wherever it stands in a program, code that is started in one state comes to its end in another. -/
def Takes (P c : Code) (s s' : State) : Prop :=
  ∀ i, P.At i c → Reaches P ⟨i, s⟩ ⟨i + c.instrs.length, s'⟩

/-- Code takes one state to another and is not left on the way. -/
def Passes (P c : Code) (s s' : State) : Prop :=
  ∀ i, P.At i c → Within P i (i + c.instrs.length) ⟨i, s⟩ ⟨i + c.instrs.length, s'⟩

lemma Passes.takes {c : Code} (h : Passes P c s s') : Takes P c s s' := fun i hi => (h i hi).reaches

lemma takes_nil (s : State) : Takes P [] s s := fun _ _ => .refl _

lemma Takes.append (ha : Takes P a s s') (hb : Takes P b s' s'') : Takes P (a ++ b) s s'' := by
  intro i hi
  have h := (ha i hi.left).trans (hb _ hi.right)
  rwa [Nat.add_assoc, ← List.length_append, ← instrs_append] at h

lemma Passes.append (ha : Passes P a s s') (hb : Passes P b s' s'') : Passes P (a ++ b) s s'' := by
  intro i hi
  have hlength : i + (a ++ b).instrs.length = i + a.instrs.length + b.instrs.length := by
    rw [instrs_append, List.length_append, Nat.add_assoc]
  rw [hlength]
  exact ((ha i hi.left).mono le_rfl (Nat.le_add_right _ _)).trans
    ((hb _ hi.right).mono (Nat.le_add_right _ _) le_rfl)

lemma passes_line {line : Line} (hcode : line.instr.isCode)
    (hhalt : (Assemble.resolved (.ofCode P) line).isHalt = false)
    (h : ∀ i, (Exec.instr P.image (Assemble.resolved (.ofCode P) line)).Does ⟨i, s⟩ () ⟨i, s'⟩) :
    Passes P [line] s s' := by
  intro i hi
  have hlength : (instrs [line]).length = 1 := by simp [instrs, hcode]
  rw [hlength]
  exact .one (.one (hi.resolved hcode) hhalt (h _)) le_rfl (Nat.lt_succ_self i)

variable {st st' : List Word} {mem : Memory} {out : List UInt8} {text : String} {w : Word} {v : Int32}

lemma takes_label (l : Label) (s : State) : Takes P (label l) s s := fun _ _ => .refl _

lemma passes_plain {o : PlainOp} (ho : o ≠ .halt)
    (h : ∀ i, (Exec.plain P.image o).Does ⟨i, s⟩ () ⟨i, s'⟩) : Passes P [⟨.plain o, text⟩] s s' := by
  refine passes_line (by rfl) ?_ h
  cases o <;> first | rfl | exact absurd rfl ho

lemma takes_plain {o : PlainOp} (ho : o ≠ .halt)
    (h : ∀ i, (Exec.plain P.image o).Does ⟨i, s⟩ () ⟨i, s'⟩) : Takes P [⟨.plain o, text⟩] s s' :=
  (passes_plain ho h).takes

lemma passes_effect {o : PlainOp} (h : o.effect st = some st') :
    Passes P [⟨.plain o, text⟩] ⟨st, mem, out⟩ ⟨st', mem, out⟩ := by
  refine passes_plain ?_ fun i => Exec.does_effect h
  rintro rfl
  simp [PlainOp.effect] at h

lemma takes_effect {o : PlainOp} (h : o.effect st = some st') :
    Takes P [⟨.plain o, text⟩] ⟨st, mem, out⟩ ⟨st', mem, out⟩ :=
  (passes_effect h).takes

lemma takes_ops_cons {o : PlainOp} {os : List PlainOp} (h : Takes P (ops [o]) s s')
    (h' : Takes P (ops os) s' s'') : Takes P (ops (o :: os)) s s'' :=
  h.append h'

lemma passes_ops_cons {o : PlainOp} {os : List PlainOp} (h : Passes P (ops [o]) s s')
    (h' : Passes P (ops os) s' s'') : Passes P (ops (o :: os)) s s'' :=
  h.append h'

lemma passes_pushI (n : Int) :
    Passes P (pushI n) ⟨st, mem, out⟩ ⟨.int (Int32.ofInt n) :: st, mem, out⟩ :=
  passes_line (by rfl) (by rfl) fun _ => Exec.does_push _

lemma takes_pushI (n : Int) : Takes P (pushI n) ⟨st, mem, out⟩ ⟨.int (Int32.ofInt n) :: st, mem, out⟩ :=
  (passes_pushI n).takes

lemma takes_pushF (f : Binary64) : Takes P (pushF f) ⟨st, mem, out⟩ ⟨.float f :: st, mem, out⟩ := by
  refine Passes.takes (passes_line (by rfl) (by rfl) fun _ => ?_)
  exact Exec.does_push _

lemma passes_pushD {t : Int32} (h : (Labels.ofCode P).find? l = some t) :
    Passes P (pushD l) ⟨st, mem, out⟩ ⟨.int t :: st, mem, out⟩ := by
  refine passes_line (by rfl) (by rfl) fun i => ?_
  have htarget : (Assemble.resolved (.ofCode P) ⟨.label .pushD l, ""⟩).target = t := by
    simp [Assemble.resolved, h]
  show (Exec.pushInt _).Does _ _ _
  rw [htarget]
  exact Exec.does_push _

lemma takes_pushD {t : Int32} (h : (Labels.ofCode P).find? l = some t) :
    Takes P (pushD l) ⟨st, mem, out⟩ ⟨.int t :: st, mem, out⟩ :=
  (passes_pushD h).takes

lemma passes_loadOp (slot : Slot) (hj : mem.Inside j slot.size)
    (hw : mem.fetch slot j = w) :
    Passes P (ops [slot.loadOp]) ⟨.address j :: st, mem, out⟩ ⟨w :: st, mem, out⟩ := by
  subst hw
  refine passes_plain ?_ fun i => Exec.does_load slot hj
  cases slot <;> simp [Slot.loadOp]

lemma takes_loadOp (slot : Slot) (hj : mem.Inside j slot.size)
    (hw : mem.fetch slot j = w) :
    Takes P (ops [slot.loadOp]) ⟨.address j :: st, mem, out⟩ ⟨w :: st, mem, out⟩ :=
  (passes_loadOp slot hj hw).takes

lemma passes_storeOp (slot : Slot) (hj : mem.Inside j slot.size)
    (hw : slot.Fits w) :
    Passes P (ops [slot.storeOp]) ⟨w :: .address j :: st, mem, out⟩ ⟨st, mem.put slot j w, out⟩ := by
  refine passes_plain ?_ fun i => Exec.does_store slot hj hw
  cases slot <;> simp [Slot.storeOp]

lemma takes_storeOp (slot : Slot) (hj : mem.Inside j slot.size)
    (hw : slot.Fits w) :
    Takes P (ops [slot.storeOp]) ⟨w :: .address j :: st, mem, out⟩ ⟨st, mem.put slot j w, out⟩ :=
  (passes_storeOp slot hj hw).takes

/-! ## Cells -/

lemma passes_plus (n : Int) : Passes P (plus n) ⟨.int v :: st, mem, out⟩
    ⟨.int (v + Int32.ofInt n) :: st, mem, out⟩ :=
  (passes_pushI n).append (passes_effect rfl)

lemma takes_plus (n : Int) : Takes P (plus n) ⟨.int v :: st, mem, out⟩
    ⟨.int (v + Int32.ofInt n) :: st, mem, out⟩ :=
  (passes_plus n).takes

lemma passes_plus_address {k : Int} (h : (i : Int) + k = j) :
    Passes P (plus k) ⟨.address i :: st, mem, out⟩ ⟨.address j :: st, mem, out⟩ := by
  rw [Word.address, Word.address, ← ofNat_add_ofInt h]
  exact passes_plus k

lemma takes_plus_address {k : Int} (h : (i : Int) + k = j) :
    Takes P (plus k) ⟨.address i :: st, mem, out⟩ ⟨.address j :: st, mem, out⟩ :=
  (passes_plus_address h).takes

lemma passes_minus (n : Int) : Passes P (minus n) ⟨.int v :: st, mem, out⟩
    ⟨.int (v - Int32.ofInt n) :: st, mem, out⟩ :=
  (passes_pushI n).append (passes_effect rfl)

lemma takes_minus_address {k : Int} (h : (i : Int) - k = j) :
    Takes P (minus k) ⟨.address i :: st, mem, out⟩ ⟨.address j :: st, mem, out⟩ := by
  rw [Word.address, Word.address, ← ofNat_sub_ofInt h]
  exact (passes_minus k).takes

/-- A label stands for an address. -/
def Holds (P : Code) (x : String) (a : Nat) : Prop :=
  (Labels.ofCode P).find? (.text x) = some (Int32.ofNat a)

instance (P : Code) (x : String) (a : Nat) : Decidable (P.Holds x a) :=
  inferInstanceAs (Decidable ((Labels.ofCode P).find? (.text x) = some (Int32.ofNat a)))

lemma takes_pushD_address {x : String} {a : Nat} (hx : P.Holds x a) :
    Takes P (pushD x) ⟨st, mem, out⟩ ⟨.address a :: st, mem, out⟩ := takes_pushD hx

lemma passes_load {x : String} {a : Nat} (hx : P.Holds x a) (ha : mem.Inside a 4)
    (hw : mem.fetch .word a = w) :
    Passes P (load x) ⟨st, mem, out⟩ ⟨w :: st, mem, out⟩ :=
  (passes_pushD hx).append (passes_loadOp .word ha hw)

lemma takes_load {x : String} {a : Nat} (hx : P.Holds x a) (ha : mem.Inside a 4)
    (hw : mem.fetch .word a = w) :
    Takes P (load x) ⟨st, mem, out⟩ ⟨w :: st, mem, out⟩ :=
  (passes_load hx ha hw).takes

lemma passes_store {x : String} {a : Nat} (hx : P.Holds x a) (ha : mem.Inside a 4) :
    Passes P (store x) ⟨.int v :: st, mem, out⟩ ⟨st, mem.put .word a (.int v), out⟩ :=
  (passes_pushD hx).append (passes_ops_cons (passes_effect rfl) (passes_storeOp .word ha trivial))

lemma takes_store {x : String} {a : Nat} (hx : P.Holds x a) (ha : mem.Inside a 4) :
    Takes P (store x) ⟨.int v :: st, mem, out⟩ ⟨st, mem.put .word a (.int v), out⟩ :=
  (passes_store hx ha).takes

lemma takes_moveStack {a : Nat} (k : Int) (ha : P.Holds Cell.stackPointer a)
    (hin : mem.Inside a 4) (hv : mem.fetch .word a = .int v) :
    Takes P (moveStack k) ⟨st, mem, out⟩ ⟨st, mem.put .word a (.int (v + Int32.ofInt k)), out⟩ := by
  unfold moveStack
  split
  · next hk =>
    rw [hk, show v + Int32.ofInt 0 = v from Int32.add_zero v, Memory.put_word_self hv]
    exact takes_nil _
  · exact ((takes_pushD ha).append (takes_load ha hin hv) |>.append (takes_plus k)).append
      (takes_storeOp .word hin trivial)

/-! ## Jumps -/

lemma At.resolved_target {o : LabelOp} {t : Int32} (h : P.At i (branch o l))
    (hcode : (Instr.label o l).isCode) (hl : (Labels.ofCode P).find? l = some t) :
    P.image.code[i]? = some ⟨⟨.label o l, ""⟩, t⟩ := by
  rw [h.resolved hcode]
  simp [Assemble.resolved, hl]

lemma Numbered.does_jump (hP : P.Numbered) (hj : j ≤ P.instrs.length) (s : State) :
    (Exec.jump P.image (Int32.ofNat j)).Does ⟨i, s⟩ () ⟨j, s⟩ := by
  apply Exec.does_jump
  · rw [length_code_image]
    exact hj
  · rw [length_code_image]
    exact hP.short

lemma At.steps_jump (hP : P.Numbered) (h : P.At i (jump l)) (hl : P.Marks l j) (s : State) :
    Steps P 1 ⟨i, s⟩ ⟨j, s⟩ :=
  .one (h.resolved_target (by rfl) hl.find?) (by rfl) (hP.does_jump hl.le s)

/-- A call through the operand stack goes to its target and leaves the number of the instruction
behind it. -/
lemma At.steps_callV (hP : P.Numbered) (h : P.At i (ops [.callV])) (hj : j ≤ P.instrs.length) :
    Steps P 1 ⟨i, .address j :: st, mem, out⟩ ⟨j, .address (i + 1) :: st, mem, out⟩ := by
  refine .one (h.resolved (by rfl)) (by rfl) (Exec.does_popInt.bind ?_)
  exact Exec.does_pushNext.bind (hP.does_jump hj _)

lemma At.steps_call (hP : P.Numbered) (h : P.At i (branch .call l)) (hl : P.Marks l j) :
    Steps P 1 ⟨i, st, mem, out⟩ ⟨j, .address (i + 1) :: st, mem, out⟩ :=
  .one (h.resolved_target (by rfl) hl.find?) (by rfl) (Exec.does_pushNext.bind (hP.does_jump hl.le _))

lemma At.steps_return (hP : P.Numbered) (h : P.At i (ops [.return])) (hj : j ≤ P.instrs.length) :
    Steps P 1 ⟨i, .address j :: st, mem, out⟩ ⟨j, st, mem, out⟩ :=
  .one (h.resolved (by rfl)) (by rfl) (Exec.does_popInt.bind (hP.does_jump hj _))

end Code

/-- On which integers a conditional jump is taken. -/
def LabelOp.test? : LabelOp → Option (Int32 → Bool)
  | .jumpTrue => some (· != 0)
  | .jumpFalse => some (· == 0)
  | .jumpPos => some (0 < ·)
  | .jumpNeg => some (· < 0)
  | _ => none

namespace Code

variable {i j : Nat} {l : Label} {st : List Word} {mem : Memory} {out : List UInt8} {v t : Int32}
  {o : LabelOp} {p : Int32 → Bool}

lemma labelled_eq_jumpIf (ho : o.test? = some p) (img : Image) :
    Exec.labelled img t o = Exec.jumpIf img t p := by
  cases o <;> simp only [LabelOp.test?, Option.some.injEq, reduceCtorEq] at ho <;> subst ho <;> rfl

lemma isCode_of_test? (ho : o.test? = some p) : (Instr.label o l).isCode := by
  cases o <;> first | rfl | cases ho

lemma At.steps_branch (hP : P.Numbered) (h : P.At i (branch o l)) (ho : o.test? = some p)
    (hl : P.Marks l j) (hv : p v = true) :
    Steps P 1 ⟨i, .int v :: st, mem, out⟩ ⟨j, st, mem, out⟩ := by
  refine .one (h.resolved_target (isCode_of_test? ho) hl.find?) (by rfl) ?_
  show (Exec.labelled _ _ o).Does _ _ _
  rw [labelled_eq_jumpIf ho]
  refine Exec.does_popInt.bind ?_
  rw [if_pos hv]
  exact hP.does_jump hl.le _

lemma passes_branch (ho : o.test? = some p) (hv : p v = false) :
    Passes P (branch o l) ⟨.int v :: st, mem, out⟩ ⟨st, mem, out⟩ := by
  refine passes_line (isCode_of_test? ho) (by rfl) fun i => ?_
  show (Exec.labelled _ _ o).Does _ _ _
  rw [labelled_eq_jumpIf ho]
  refine Exec.does_popInt.bind ?_
  rw [if_neg (by simp [hv])]
  exact Exec.does_pure ()

lemma takes_branch (ho : o.test? = some p) (hv : p v = false) :
    Takes P (branch o l) ⟨.int v :: st, mem, out⟩ ⟨st, mem, out⟩ :=
  (passes_branch ho hv).takes

/-- Straight code is left through a jump in it. -/
lemma Passes.within_branch {a b : Code} (hP : P.Numbered) (ha : Passes P a s ⟨.int v :: st, mem, out⟩)
    (ho : o.test? = some p) (hv : p v = true) (hl : P.Marks l j) (hi : P.At i (a ++ branch o l ++ b)) :
    Within P i (i + (a ++ branch o l ++ b).instrs.length) ⟨i, s⟩ ⟨j, st, mem, out⟩ := by
  have hbranch : (branch o l).instrs.length = 1 := by simp [branch, one, instrs, isCode_of_test? ho]
  have hlength : (a ++ branch o l ++ b).instrs.length = a.instrs.length + 1 + b.instrs.length := by
    rw [instrs_append, instrs_append, List.length_append, List.length_append, hbranch]
  rw [hlength]
  have hjump : Steps P 1 ⟨i + a.instrs.length, .int v :: st, mem, out⟩ ⟨j, st, mem, out⟩ :=
    hi.left.right.steps_branch hP ho hl hv
  have hin : i + a.instrs.length < i + (a.instrs.length + 1 + b.instrs.length) := by omega
  exact ((ha i hi.left.left).mono le_rfl hin.le).trans (.one hjump (Nat.le_add_right _ _) hin)

end Code

/-! ## What instructions keep -/

/-- What no instruction takes back: memory is as large as it was, the same number of instructions has been
counted, and what was written is still there. -/
structure Machine.Evolves (m m' : Machine) : Prop where
  size : m'.memory.size = m.memory.size
  steps : m'.steps = m.steps
  output : m.output.data.toList <+: m'.output.data.toList

lemma Machine.Evolves.refl (m : Machine) : m.Evolves m := ⟨rfl, rfl, List.prefix_rfl⟩

lemma Machine.Evolves.trans {m m' m'' : Machine} (h : m.Evolves m') (h' : m'.Evolves m'') :
    m.Evolves m'' :=
  ⟨h'.size.trans h.size, h'.steps.trans h.steps, h.output.trans h'.output⟩

namespace Exec

variable {α β : Type}

/-- The machine that an action leaves, whether it succeeds or not. -/
def after (x : Exec α) (m : Machine) : Machine :=
  match x m with
  | .ok _ m' => m'
  | .error _ m' => m'

/-- Whether it succeeds or not, an action leaves a machine that is related to the one before. -/
def Always (R : Machine → Machine → Prop) (x : Exec α) : Prop := ∀ m : Machine, R m (x.after m)

lemma Always.bind {R : Machine → Machine → Prop} (hR : ∀ m m' m'', R m m' → R m' m'' → R m m'')
    {x : Exec α} {f : α → Exec β} (hx : Always R x) (hf : ∀ a, Always R (f a)) : Always R (x >>= f) := by
  intro m
  have hxm := hx m
  unfold after at hxm ⊢
  show R m (match EStateM.bind x f m with | .ok _ m' => m' | .error _ m' => m')
  unfold EStateM.bind
  split at hxm
  · next a m' hok =>
    rw [hok]
    exact hR _ _ _ hxm (hf a m')
  · next e m' herror =>
    rw [herror]
    exact hxm

/-! ### Actions that only take words off the stack -/

/-- An action changes nothing but the operand stack. -/
def Pops (x : Exec α) : Prop := Always (fun m m' => ∃ st, m' = { m with stack := st }) x

lemma pops_pure (a : α) : Pops (pure a) := fun m => ⟨m.stack, rfl⟩

lemma pops_throw (f : Fault) : Pops (throw f : Exec α) := fun m => ⟨m.stack, rfl⟩

lemma pops_get : Pops (get : Exec Machine) := fun m => ⟨m.stack, rfl⟩

lemma Pops.bind {x : Exec α} {f : α → Exec β} (hx : Pops x) (hf : ∀ a, Pops (f a)) : Pops (x >>= f) := by
  refine Always.bind ?_ hx hf
  rintro m m' m'' ⟨st, rfl⟩ ⟨st', rfl⟩
  exact ⟨st', rfl⟩

lemma pops_pop : Pops pop := by
  refine pops_get.bind fun m => ?_
  split
  · exact Pops.bind (fun m => ⟨m.stack.pop, rfl⟩) fun _ => pops_pure _
  · exact pops_throw _

lemma pops_popInt : Pops popInt := by
  refine pops_pop.bind fun w => ?_
  cases w with
  | int v => exact pops_pure _
  | float f => exact pops_throw _

lemma pops_popFloat : Pops popFloat := by
  refine pops_pop.bind fun w => ?_
  cases w with
  | float f => exact pops_pure _
  | int v => exact pops_throw _

lemma pops_textAt (addr : Int32) : Pops (textAt addr) := by
  refine pops_get.bind fun m => ?_
  dsimp only
  split
  on_goal 1 => refine (pops_throw _).bind fun _ => ?_
  all_goals
    split
    · exact pops_pure _
    · exact pops_throw _

lemma pops_popArgs (cs : List Conversion) : Pops (popArgs cs) := by
  induction cs with
  | nil => exact pops_pure _
  | cons c cs ih =>
    refine ih.bind fun rest => .bind ?_ fun arg => pops_pure _
    cases c with
    | float => exact pops_popFloat.bind fun _ => pops_pure _
    | int => exact pops_popInt.bind fun _ => pops_pure _
    | char => exact pops_popInt.bind fun _ => pops_pure _
    | text => exact pops_popInt.bind fun _ => pops_textAt _

/-! ### All actions -/

/-- An action keeps what instructions keep. -/
def Keeps (x : Exec α) : Prop := Always Machine.Evolves x

lemma Pops.keeps {x : Exec α} (h : Pops x) : Keeps x := by
  intro m
  obtain ⟨st, hst⟩ := h m
  rw [hst]
  exact ⟨rfl, rfl, List.prefix_rfl⟩

lemma keeps_pure (a : α) : Keeps (pure a) := fun m => .refl m

lemma keeps_throw (f : Fault) : Keeps (throw f : Exec α) := fun m => .refl m

lemma keeps_modify {f : Machine → Machine} (hf : ∀ m : Machine, m.Evolves (f m)) : Keeps (modify f) := hf

lemma keeps_get : Keeps (get : Exec Machine) := fun m => .refl m

lemma Keeps.bind {x : Exec α} {f : α → Exec β} (hx : Keeps x) (hf : ∀ a, Keeps (f a)) :
    Keeps (x >>= f) :=
  Always.bind (R := Machine.Evolves) (fun _ _ _ => .trans) hx hf

lemma keeps_push (w : Word) : Keeps (push w) :=
  keeps_modify fun _ => ⟨rfl, rfl, List.prefix_rfl⟩

lemma keeps_popInt : Keeps popInt := pops_popInt.keeps

lemma keeps_popFloat : Keeps popFloat := pops_popFloat.keeps

lemma keeps_access (addr : Int32) (r : Option α) : Keeps (access addr r) := by
  cases r with
  | some a => exact keeps_pure _
  | none => exact keeps_throw _

lemma keeps_write (addr : Int32) (n : Nat) {f : Memory → Nat → Memory}
    (hf : ∀ m i, (f m i).size = m.size) : Keeps (write addr n f) := by
  intro m
  by_cases hin : m.memory.holds addr n
  · rw [after, write, if_pos hin]
    exact ⟨hf _ _, rfl, List.prefix_rfl⟩
  · rw [after, write, if_neg hin]
    exact .refl m

lemma keeps_jump (img : Image) (target : Int32) : Keeps (jump img target) := by
  unfold jump
  split
  · exact (keeps_throw _).bind fun _ => keeps_modify fun _ => ⟨rfl, rfl, List.prefix_rfl⟩
  · exact keeps_modify fun _ => ⟨rfl, rfl, List.prefix_rfl⟩

lemma keeps_printf : Keeps printf := by
  refine keeps_popInt.bind fun a => (pops_textAt a).keeps.bind fun format => ?_
  split
  · exact keeps_throw _
  · refine (pops_popArgs _).keeps.bind fun args => keeps_modify fun m => ⟨rfl, rfl, ?_⟩
    rw [ByteArray.data_append, Array.toList_append]
    exact List.prefix_append _ _

lemma keeps_plain (img : Image) (o : PlainOp) : Keeps (plain img o) := by
  have hint (f : Int32 → Int32 → Int32) : Keeps (intBinary f) :=
    keeps_popInt.bind fun _ => keeps_popInt.bind fun _ => keeps_push _
  have hbool (f : Int32 → Int32 → Bool) : Keeps (boolBinary f) :=
    keeps_popInt.bind fun _ => keeps_popInt.bind fun _ => keeps_push _
  have hfloat (f : Binary64 → Binary64 → Binary64) : Keeps (floatBinary f) :=
    keeps_popFloat.bind fun _ => keeps_popFloat.bind fun _ => keeps_push _
  cases o with
  | nop | halt => exact keeps_pure _
  | pop => exact pops_pop.keeps.bind fun _ => keeps_pure _
  | duplicate =>
    refine keeps_get.bind fun m => ?_
    split
    · exact keeps_push _
    · exact keeps_throw _
  | exchange =>
    refine keeps_get.bind fun m => ?_
    have hswap : Keeps (do let b ← pop; let a ← pop; push b; push a : Exec Unit) :=
      pops_pop.keeps.bind fun _ => pops_pop.keeps.bind fun _ =>
        (keeps_push _).bind fun _ => keeps_push _
    split
    · exact (keeps_throw _).bind fun _ => hswap
    · exact hswap
  | add | subtract | multiply | btAnd | btOr => exact hint _
  | and | or => exact hbool _
  | fadd | fsubtract | fmultiply | fdivide => exact hfloat _
  | divide =>
    refine keeps_popInt.bind fun b => keeps_popInt.bind fun a => ?_
    split
    · exact (keeps_throw _).bind fun _ => keeps_push _
    · exact keeps_push _
  | negate | bnegate | btNegate | convertF => exact keeps_popInt.bind fun _ => keeps_push _
  | fnegate | convertI => exact keeps_popFloat.bind fun _ => keeps_push _
  | loadC | loadI | loadF =>
    exact keeps_popInt.bind fun _ => keeps_get.bind fun _ =>
      (keeps_access _ _).bind fun _ => keeps_push _
  | storeC =>
    exact keeps_popInt.bind fun v => keeps_popInt.bind fun _ =>
      keeps_write _ _ fun m i => Memory.size_put m .byte i (.int v)
  | storeI =>
    exact keeps_popInt.bind fun v => keeps_popInt.bind fun _ =>
      keeps_write _ _ fun m i => Memory.size_put m .word i (.int v)
  | storeF =>
    exact keeps_popFloat.bind fun v => keeps_popInt.bind fun _ =>
      keeps_write _ _ fun m i => Memory.size_put m .double i (.float v)
  | callV =>
    exact keeps_popInt.bind fun _ =>
      (keeps_get.bind fun _ => keeps_push _).bind fun _ => keeps_jump _ _
  | «return» => exact keeps_popInt.bind fun _ => keeps_jump _ _
  | pushPC | memtop => exact keeps_get.bind fun _ => keeps_push _
  | printf => exact keeps_printf
  | other n => exact keeps_throw _

lemma keeps_instr (img : Image) (r : Resolved) : Keeps (instr img r) := by
  have hjump (p : Int32 → Bool) : Keeps (jumpIf img r.target p) := by
    refine keeps_popInt.bind fun v => ?_
    split
    · exact keeps_jump _ _
    · exact keeps_pure _
  have hjumpF (p : Binary64 → Bool) : Keeps (jumpIfFloat img r.target p) := by
    refine keeps_popFloat.bind fun v => ?_
    split
    · exact keeps_jump _ _
    · exact keeps_pure _
  unfold instr
  split
  · exact keeps_plain _ _
  · exact keeps_push _
  · exact keeps_push _
  · next o l hr =>
    cases o with
    | pushD => exact keeps_push _
    | jump => exact keeps_jump _ _
    | jumpTrue | jumpFalse | jumpPos | jumpNeg => exact hjump _
    | jumpFZero | jumpFPos | jumpFNeg => exact hjumpF _
    | call => exact (keeps_get.bind fun _ => keeps_push _).bind fun _ => keeps_jump _ _
    | label | dlabel | dataD => exact keeps_throw _
  · exact keeps_throw _

end Exec

namespace Machine

/-- No run changes how much memory there is. -/
lemma size_runFor {img : Image} {l : RunLimits} {n : Nat} {m m' : Machine}
    (h : runFor img l n m = (m', .running)) : m'.memory.size = m.memory.size := by
  induction n generalizing m with
  | zero =>
    cases h
    rfl
  | succ n ih =>
    obtain ⟨-, m₁, hm₁, h⟩ := turn_of_running h
    refine (ih h).trans ?_
    cases hr : img.code[m.pc]? with
    | none => simp [turn_of_end hr] at hm₁
    | some r =>
      have hone := (Exec.keeps_instr img r m.advance).size
      rw [turn_of_code hr] at hm₁
      split at hm₁
      · cases hm₁
      · next hx =>
        rw [Exec.after, hx] at hone
        split at hm₁ <;> cases hm₁
        exact hone

end Machine

lemma State.exists_machine (i : Nat) (s : State) : ∃ m : Machine, m.config = ⟨i, s⟩ :=
  ⟨{ memory := s.memory, stack := s.stack.reverse.toArray, pc := i, output := ⟨s.output.toArray⟩ },
    by simp [Machine.config, Machine.state]⟩

/-- A run comes to a configuration when it is no more at instructions from `lo` up to `hi`. -/
def Leaves (P : Code) (lo hi : Nat) (c c' : Config) : Prop :=
  Within P lo hi c c' ∧ ¬ (lo ≤ c'.pc ∧ c'.pc < hi)

/-- A run leaves a stretch of code at one place only. -/
lemma Leaves.unique {P : Code} {lo hi : Nat} {c c₁ c₂ : Config} (h₁ : Leaves P lo hi c c₁)
    (h₂ : Leaves P lo hi c c₂) : c₁ = c₂ := by
  obtain ⟨⟨n₁, hn₁⟩, hout₁⟩ := h₁
  obtain ⟨⟨n₂, hn₂⟩, hout₂⟩ := h₂
  obtain ⟨m, hm⟩ := c.state.exists_machine c.pc
  obtain ⟨m₁, rfl, hrun₁, hstays₁⟩ := hn₁ m hm
  obtain ⟨m₂, rfl, hrun₂, hstays₂⟩ := hn₂ m hm
  -- the run that is said to be longer would still be inside where the other one has left
  rcases Nat.lt_trichotomy n₁ n₂ with hlt | rfl | hlt
  · have hin := hstays₂ n₁ hlt
    rw [hrun₁] at hin
    exact absurd hin hout₁
  · rw [hrun₁] at hrun₂
    cases hrun₂
    rfl
  · have hin := hstays₁ n₂ hlt
    rw [hrun₂] at hin
    exact absurd hin hout₂

lemma Leaves.iff_eq {P : Code} {lo hi : Nat} {c c₁ c₂ : Config} (h : Leaves P lo hi c c₁) :
    Leaves P lo hi c c₂ ↔ c₂ = c₁ := by
  constructor
  · exact fun h' => h'.unique h
  · rintro rfl
    exact h

lemma Reaches.size_eq {P : Code} {i j : Nat} {s s' : State} (h : Reaches P ⟨i, s⟩ ⟨j, s'⟩) :
    s'.memory.size = s.memory.size := by
  obtain ⟨n, hn⟩ := h
  obtain ⟨m, hm⟩ := s.exists_machine i
  obtain ⟨m', hm', hrun⟩ := hn m hm
  have hsize := Machine.size_runFor hrun
  cases hm
  cases hm'
  exact hsize

lemma Code.Takes.size_eq {P c : Code} {i : Nat} {s s' : State} (h : Takes P c s s') (hi : P.At i c) :
    s'.memory.size = s.memory.size :=
  (h i hi).size_eq

end SubrLang
