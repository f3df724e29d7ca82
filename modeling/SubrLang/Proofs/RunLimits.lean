import SubrLang.Proofs.Printing

/-!
# Limits of runs

A limit on the number of instructions cuts a run short and changes nothing else about it
(`Machine.run_stepLimit`).

**Turns.** `Machine.turn` is what a machine does next where no limit stops it: it executes an instruction,
or its run is at the end. Runs under all limits take the same turns (`runFor_succ_of_passes`) up to the
point where a limit stops them (`runFor_succ_of_stops`). A turn inside the code counts one instruction and
leaves what was written (`turn_counts`).

**Runs.** All that follows is by induction on the turns that are watched. A run under a limit counts at most
so many instructions and ends (`runFor_limited`); if it is not the limit that ends it, it is the run under
every looser limit (`runFor_looser`), and if it is, it is an initial part of that run
(`runFor_of_stepLimit`).
-/

namespace SubrLang

/-- A limit on the number of instructions only. -/
def RunLimits.limited (k : Nat) : RunLimits := { steps := k }

namespace Machine

variable {img : Image} {l l' : RunLimits} {m m' : Machine} {e : Ending} {r : Resolved} {j k n : Nat}

/-! ## Turns -/

lemma recordHeap_keeps (img : Image) (m : Machine) : m.Evolves (m.recordHeap img) := by
  unfold recordHeap
  split
  · split <;> exact ⟨rfl, rfl, List.prefix_rfl⟩
  · exact .refl m

/-- A turn inside the code counts one instruction, at the end of the code it counts none, and in either case
what was written is still there. No turn ends by a limit. -/
lemma turn_counts (img : Image) (m : Machine) :
    (m.turn img).1.steps = m.steps + (if img.code[m.pc]? = none then 0 else 1) ∧
      m.output.data.toList <+: (m.turn img).1.output.data.toList ∧
      ∀ j, (m.turn img).2 ≠ .error (.stepLimit j) := by
  cases hr : img.code[m.pc]? with
  | none =>
    have hheap := m.recordHeap_keeps img
    rw [turn_of_end hr]
    exact ⟨hheap.steps, hheap.output, by simp⟩
  | some r =>
    have hkeeps := Exec.keeps_instr img r m.advance
    rw [turn_of_code hr]
    unfold Exec.after at hkeeps
    split at hkeeps
    · next m₁ hx =>
      have hheap := hkeeps.trans (m₁.recordHeap_keeps img)
      rw [hx]
      cases r.isHalt with
      | false => exact ⟨hkeeps.steps, hkeeps.output, by simp⟩
      | true => exact ⟨hheap.steps, hheap.output, by simp⟩
    · next f m₁ hx =>
      rw [hx]
      exact ⟨hkeeps.steps, hkeeps.output, by simp⟩

/-- A turn after which a run goes on is one inside the code. -/
lemma code_of_running (h : m.turn img = (m', .running)) :
    img.code[m.pc]? ≠ none ∧ m'.steps = m.steps + 1 := by
  have hcode : img.code[m.pc]? ≠ none := by
    intro hr
    rw [turn_of_end hr] at h
    cases h
  have hsteps := (turn_counts img m).1
  rw [if_neg hcode, h] at hsteps
  exact ⟨hcode, hsteps⟩

/-! ## Runs under a limit -/

lemma stop?_limited (hk : 0 < k) (m : Machine) :
    stop? (.limited k) m = if k ≤ m.steps then some (.stepLimit m.steps) else none := by
  simp [stop?, RunLimits.limited, hk]

lemma lt_of_passes (hk : 0 < k) (hr : img.code[m.pc]? ≠ none) (h : m.Passes img (.limited k)) :
    m.steps < k := by
  have hstop := h.resolve_left hr
  rw [stop?_limited hk] at hstop
  split at hstop
  · cases hstop
  · omega

/-- A limit stops a run when so many instructions were counted, and names their number. -/
lemma runFor_succ_of_limit (hk : 0 < k) (h : ¬ m.Passes img (.limited k)) :
    k ≤ m.steps ∧ m.runFor img (.limited k) (n + 1) = (m, .error (.stepLimit m.steps)) := by
  obtain ⟨e, he, hrun⟩ := runFor_succ_of_stops h
  rw [stop?_limited hk] at he
  split at he
  · next hle =>
    cases he
    exact ⟨hle, hrun n⟩
  · cases he

/-- Whatever ends it, a run leaves what was written. -/
lemma output_runFor (img : Image) (l : RunLimits) (n : Nat) (m : Machine) :
    m.output.data.toList <+: (m.runFor img l n).1.output.data.toList := by
  induction n generalizing m with
  | zero => exact List.prefix_rfl
  | succ n ih =>
    by_cases hpass : m.Passes img l
    · have hturn := (turn_counts img m).2.1
      rw [runFor_succ_of_passes hpass]
      split
      · next m₁ hm₁ =>
        rw [hm₁] at hturn
        exact hturn.trans (ih m₁)
      · exact hturn
    · obtain ⟨e, -, hrun⟩ := runFor_succ_of_stops hpass
      rw [hrun]

/-- A run under a limit counts no more instructions than the limit allows, and exactly so many if it is ended
by the limit. Watched for more turns than are left, it ends. -/
lemma runFor_limited (hk : 0 < k) (hm : m.steps ≤ k) (h : m.runFor img (.limited k) n = (m', e)) :
    m'.steps ≤ k ∧ (∀ j, e = .error (.stepLimit j) → m'.steps = k ∧ j = k) ∧
      (k < m.steps + n → e ≠ .running) := by
  induction n generalizing m with
  | zero =>
    cases h
    exact ⟨hm, by simp, by omega⟩
  | succ n ih =>
    by_cases hpass : m.Passes img (.limited k)
    · obtain ⟨hsteps, -, hlimit⟩ := turn_counts img m
      have hbound : (m.turn img).1.steps ≤ k := by
        rw [hsteps]
        split
        · exact hm
        · next hr => exact lt_of_passes hk hr hpass
      rw [runFor_succ_of_passes hpass] at h
      split at h
      · next m₁ hm₁ =>
        obtain ⟨-, hone⟩ := code_of_running hm₁
        rw [hm₁] at hbound
        obtain ⟨hle, hexact, hends⟩ := ih (m := m₁) hbound h
        exact ⟨hle, hexact, fun hn => hends (by omega)⟩
      · next hended =>
        refine ⟨?_, fun j hj => ?_, fun _ he => ?_⟩
        · rwa [h] at hbound
        · exact absurd (hj ▸ congrArg Prod.snd h) (hlimit j)
        · exact hended m' (h.trans (congrArg _ he))
    · obtain ⟨hle, hrun⟩ := runFor_succ_of_limit (n := n) hk hpass
      rw [hrun] at h
      cases h
      exact ⟨hm, fun j hj => by cases hj; omega, by simp⟩

/-! ## Looser limits -/

/-- Limits stop a run nowhere where others let it go on. -/
def Looser (l' l : RunLimits) : Prop := ∀ m : Machine, stop? l m = none → stop? l' m = none

lemma looser_limited (hk : 0 < k) (h : k ≤ j) : Looser (.limited j) (.limited k) := by
  intro m hm
  rw [stop?_limited hk] at hm
  rw [stop?_limited (by omega)]
  split at hm
  · cases hm
  · rw [if_neg (by omega)]

/-- Zero and what is below it are no limit. -/
lemma looser_of_nonpos {j : Int} (hj : j ≤ 0) (l : RunLimits) : Looser { steps := j } l := by
  intro m _
  simp [stop?, hj]

lemma Looser.passes (hl : Looser l' l) (h : m.Passes img l) : m.Passes img l' := h.imp_right (hl m)

/-- A run that is not ended by its limit is the run under every looser limit. -/
lemma runFor_looser (hk : 0 < k) (hl : Looser l (.limited k))
    (h : m.runFor img (.limited k) n = (m', e)) (he : ∀ j, e ≠ .error (.stepLimit j)) :
    m.runFor img l n = (m', e) := by
  induction n generalizing m with
  | zero => exact h
  | succ n ih =>
    by_cases hpass : m.Passes img (.limited k)
    · rw [runFor_succ_of_passes hpass] at h
      rw [runFor_succ_of_passes (hl.passes hpass)]
      split at h
      · next m₁ hm₁ => exact ih h
      · exact h
    · rw [(runFor_succ_of_limit hk hpass).2] at h
      cases h
      exact absurd rfl (he _)

/-- A run that is ended by its limit is the first part of the run under every looser limit. -/
lemma runFor_of_stepLimit (hk : 0 < k) (hl : Looser l (.limited k)) (hm : m.steps ≤ k)
    (h : m.runFor img (.limited k) n = (m', .error (.stepLimit j))) :
    m.runFor img l (k - m.steps) = (m', .running) := by
  induction n generalizing m with
  | zero => cases h
  | succ n ih =>
    by_cases hpass : m.Passes img (.limited k)
    · rw [runFor_succ_of_passes hpass] at h
      split at h
      · next m₁ hm₁ =>
        obtain ⟨hcode, hone⟩ := code_of_running hm₁
        have hlt := lt_of_passes hk hcode hpass
        have hleft : k - m.steps = k - m₁.steps + 1 := by omega
        rw [hleft, runFor_succ_of_passes (hl.passes hpass), hm₁]
        exact ih (by omega) h
      · exact absurd (congrArg Prod.snd h) ((turn_counts img m).2.2 j)
    · obtain ⟨hle, hrun⟩ := runFor_succ_of_limit (n := n) hk hpass
      rw [hrun] at h
      cases h
      rw [Nat.sub_eq_zero_of_le hle]
      rfl

/-! ## Whole runs -/

lemma load_spec {size : Int} (h : img.load size = .ok m) : m.steps = 0 ∧ m.pc = 0 := by
  unfold Image.load at h
  split at h
  · cases h
  · split at h
    · cases h
    · cases h
      exact ⟨rfl, rfl⟩

lemma run_limited (hk : 0 < k) (hsteps : m.steps = 0) (hpc : m.pc = 0) :
    m.run img { steps := k } = m.runFor img (.limited k) (k + 1) := by
  have hfuel : fuel { steps := k } m = k + 1 := by simp [fuel, hk, hsteps]
  have hstart : { m with pc := 0 } = m := by rw [← hpc]
  rw [run, hfuel, hstart]
  rfl

/-- **A limit only cuts runs short.** A machine that was just loaded is run under a limit `k`, and again under
one that is not smaller. The first run executes at most `k` instructions and ends. If it is not the limit that
ends it, the second run leaves the same machine and ends in the same way, and so does the run without a
limit, once it is watched for more than `k` instructions. If it is, then exactly `k` instructions were
executed, and what was written by then is the first part of what the second run writes. -/
theorem run_stepLimit {size : Int} (hload : img.load size = .ok m) {k k' : Int} (hk : 0 < k)
    (hkk' : k ≤ k') :
    let short := m.run img { steps := k }
    let long := m.run img { steps := k' }
    short.2 ≠ .running ∧ short.1.steps ≤ k ∧
    ((∀ n, short.2 ≠ .error (.stepLimit n)) →
      long = short ∧ ∀ j : Int, j ≤ 0 →
        (∀ n : Nat, k < n → m.runFor img { steps := j } n = short) ∧
          (k < outOfReach → m.run img { steps := j } = short)) ∧
    ∀ n, short.2 = .error (.stepLimit n) →
      n = k ∧ short.1.steps = k ∧ short.1.output.data.toList <+: long.1.output.data.toList := by
  intro short long
  obtain ⟨hsteps, hpc⟩ := load_spec hload
  lift k to Nat using hk.le
  lift k' to Nat using hk.le.trans hkk'
  have hk₀ : 0 < k := by omega
  have hle : k ≤ k' := by omega
  have hshort : m.runFor img (.limited k) (k + 1) = short := (run_limited hk₀ hsteps hpc).symm
  have hlong : m.runFor img (.limited k') (k' + 1) = long :=
    (run_limited (hk₀.trans_le hle) hsteps hpc).symm
  obtain ⟨hbound, hexact, hends⟩ := runFor_limited hk₀ (by omega) hshort
  have hended : short.2 ≠ .running := hends (by omega)
  refine ⟨hended, by exact_mod_cast hbound, fun hother => ?_, fun n hn => ?_⟩
  · have hlooser {l : RunLimits} (hl : Looser l (.limited k)) {n : Nat} (hn : k < n) :
        m.runFor img l n = short :=
      runFor_mono (runFor_looser hk₀ hl hshort hother) hended hn
    refine ⟨?_, fun j hj => ⟨fun n hn => ?_, fun hreach => ?_⟩⟩
    · rw [← hlong]
      exact hlooser (looser_limited hk₀ hle) (by omega)
    · exact hlooser (looser_of_nonpos hj _) (by omega)
    · have hfuel : fuel { steps := j } m = outOfReach := by simp [fuel, hj]
      have hstart : { m with pc := 0 } = m := by rw [← hpc]
      rw [run, hfuel, hstart]
      exact hlooser (looser_of_nonpos hj _) (by omega)
  · obtain ⟨hcount, hlimit⟩ := hexact n hn
    refine ⟨by exact_mod_cast hlimit, by exact_mod_cast hcount, ?_⟩
    have hpart : m.runFor img (.limited k') k = (short.1, .running) := by
      have hfirst := runFor_of_stepLimit hk₀ (looser_limited hk₀ hle) (by omega)
        (hshort.trans (Prod.ext rfl hn))
      rwa [hsteps] at hfirst
    have hrest : k' + 1 = k + (k' + 1 - k) := by omega
    rw [← hlong, hrest, runFor_add _ hpart]
    exact output_runFor _ _ _ _

/-- A program that writes a text twice and halts with its fifth instruction. -/
def twice : Code :=
  Code.cell "text" (.dataS (Text.Utf8.encode "ab")) ++ Code.pushD "text" ++ Code.ops [.printf] ++
    Code.pushD "text" ++ Code.ops [.printf, .halt]

/-- Three instructions write the text once. The limit of five is reached by the halt, so that a larger one,
or none, changes nothing. -/
theorem run_stepLimit_twice : ∃ m, twice.image.load 3 = .ok m ∧
    (m.run twice.image { steps := 3 }).2 = .error (.stepLimit 3) ∧
    (m.run twice.image { steps := 3 }).1.steps = 3 ∧
    (m.run twice.image { steps := 3 }).1.output.data.toList <+:
      (m.run twice.image { steps := 5 }).1.output.data.toList ∧
    (m.run twice.image { steps := 5 }).2 = .finished ∧
    m.run twice.image { steps := 9 } = m.run twice.image { steps := 5 } ∧
    m.run twice.image { steps := 0 } = m.run twice.image { steps := 5 } := by
  obtain ⟨m, hload⟩ : ∃ m, twice.image.load 3 = .ok m := ⟨_, rfl⟩
  have hends : (m.run twice.image { steps := 3 }).2 = .error (.stepLimit 3) ∧
      (m.run twice.image { steps := 5 }).2 = .finished := by
    cases hload
    decide +kernel
  obtain ⟨-, -, -, hcut⟩ := run_stepLimit hload (show (0 : Int) < 3 by decide)
    (show (3 : Int) ≤ 5 by decide)
  obtain ⟨-, -, hwhole, -⟩ := run_stepLimit hload (show (0 : Int) < 5 by decide)
    (show (5 : Int) ≤ 9 by decide)
  obtain ⟨-, hsteps, hprefix⟩ := hcut 3 hends.1
  obtain ⟨hlonger, hfree⟩ := hwhole (by simp [hends.2])
  exact ⟨m, hload, hends.1, by exact_mod_cast hsteps, hprefix, hends.2, hlonger,
    (hfree 0 le_rfl).2 (by decide)⟩

end Machine

end SubrLang
