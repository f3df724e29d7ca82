import Mathlib
import SubrLang.Golden.Pool

/-!
# Every order of moves of a worker pool

The moves of a feeder and its workers can come in many orders. What they come to is the same.

**Steps.** `Step` says what a move does to a pool, with the workers before and after the one that moves.

**The account.** `account` has what the feeder still has, what is in the queue, what workers are busy with and
what was delivered, all as results. No step changes it (`Step.account_eq`). So results are neither lost nor
duplicated, and there is always room for what is sent: the queues hold as many as there are items.

**Ends.** A step makes `toDo` smaller, and a pool that can make none has come to its end
(`Invariant.done_of_stuck`). So every run can be brought to its end, and at the end there is one result for each
item (`Invariant.results_perm`). `run` is one of these runs.
-/

namespace SubrLang

/-- The task of a busy worker. -/
def Worker.task? {α : Type} : Worker α → Option α
  | busy a => some a
  | _ => none

namespace Pool

variable {α ρ : Type} {work : α → ρ} {p q : Pool α ρ} {items : List (ρ ⊕ α)} {n : Nat}

/-! ## Steps -/

/-- What a move does to a pool. -/
inductive Step (work : α → ρ) (p : Pool α ρ) : Pool α ρ → Prop
  | feedResult {r : ρ} {rest : List (ρ ⊕ α)} (hwaiting : p.waiting = .inl r :: rest)
      (hroom : p.results.length < p.capacity) :
      Step work p { p with waiting := rest, results := p.results ++ [r] }
  | feedTask {a : α} {rest : List (ρ ⊕ α)} (hwaiting : p.waiting = .inr a :: rest)
      (hroom : p.tasks.length < p.capacity) : Step work p { p with waiting := rest, tasks := p.tasks ++ [a] }
  | close (hwaiting : p.waiting = []) (hclosed : p.closed = false) : Step work p { p with closed := true }
  | take {before after : List (Worker α)} {a : α} {rest : List α}
      (hworkers : p.workers = before ++ .idle :: after) (htasks : p.tasks = a :: rest) :
      Step work p { p with tasks := rest, workers := before ++ .busy a :: after }
  | deliver {before after : List (Worker α)} {a : α} (hworkers : p.workers = before ++ .busy a :: after)
      (hroom : p.results.length < p.capacity) :
      Step work p { p with results := p.results ++ [work a], workers := before ++ .idle :: after }
  | leave {before after : List (Worker α)} (hworkers : p.workers = before ++ .idle :: after)
      (hclosed : p.closed = true) (htasks : p.tasks = []) :
      Step work p { p with workers := before ++ .finished :: after }

/-- A worker at a position stands between others. -/
lemma exists_between {l : List (Worker α)} {w : Nat} {x : Worker α} (h : l[w]? = some x) :
    ∃ before after, l = before ++ x :: after ∧ ∀ y, l.set w y = before ++ y :: after := by
  obtain ⟨hw, rfl⟩ := List.getElem?_eq_some_iff.mp h
  refine ⟨l.take w, l.drop (w + 1), ?_, fun y => List.set_eq_take_append_cons_drop.trans (if_pos hw)⟩
  rw [← List.drop_eq_getElem_cons hw, List.take_append_drop]

lemma Step.of_move? {m : Move} (h : p.move? work m = some q) : Step work p q := by
  cases m with
  | feed =>
    simp only [move?, feed?] at h
    split at h
    · next hwaiting =>
      split_ifs at h with hroom
      cases h
      exact .feedResult hwaiting hroom
    · next hwaiting =>
      split_ifs at h with hroom
      cases h
      exact .feedTask hwaiting hroom
    · cases h
  | close =>
    simp only [move?] at h
    split_ifs at h with hclose
    cases h
    simp only [Bool.and_eq_true, List.isEmpty_iff, Bool.not_eq_true'] at hclose
    exact .close hclose.1 hclose.2
  | take w =>
    simp only [move?] at h
    split at h
    · next hidle htasks =>
      obtain ⟨before, after, hworkers, hset⟩ := exists_between hidle
      rw [hset] at h
      cases h
      exact .take hworkers htasks
    · cases h
  | deliver w =>
    simp only [move?] at h
    split at h
    · next hbusy =>
      obtain ⟨before, after, hworkers, hset⟩ := exists_between hbusy
      rw [hset] at h
      split_ifs at h with hroom
      cases h
      exact .deliver hworkers hroom
    · cases h
  | leave w =>
    simp only [move?] at h
    split at h
    · next hidle =>
      obtain ⟨before, after, hworkers, hset⟩ := exists_between hidle
      rw [hset] at h
      split_ifs at h with hleave
      cases h
      simp only [Bool.and_eq_true, List.isEmpty_iff] at hleave
      exact .leave hworkers hleave.1 hleave.2
    · cases h

lemma mem_moves {m : Move} (h : p.move? work m = some q) : m ∈ p.moves := by
  have hin : ∀ w, ¬ w < p.workers.length → p.workers[w]? = none := fun w hw =>
    List.getElem?_eq_none (not_lt.mp hw)
  cases m with
  | feed => simp [moves]
  | close => simp [moves]
  | take w | deliver w | leave w =>
    by_cases hw : w < p.workers.length
    · simp [moves, hw]
    · simp [move?, hin w hw] at h

/-! ## The account -/

/-- The results that were delivered and those that are to come. -/
def account (work : α → ρ) (p : Pool α ρ) : Multiset ρ :=
  (p.waiting.map (Sum.elim id work) : Multiset ρ) + (p.tasks.map work : Multiset ρ) +
    ((p.workers.filterMap Worker.task?).map work : Multiset ρ) + (p.results : Multiset ρ)

/-- **No step loses or duplicates a result.** -/
lemma Step.account_eq (h : Step work p q) : q.account work = p.account work := by
  have hcons : ∀ (r : ρ) (l : List ρ), ((r :: l : List ρ) : Multiset ρ) = {r} + l := fun r l => rfl
  have hsnoc : ∀ (l : List ρ) (r : ρ), ((l ++ [r] : List ρ) : Multiset ρ) = l + {r} := fun l r => rfl
  have hmiddle : ∀ l l' : List ρ, ((l ++ l' : List ρ) : Multiset ρ) = l + l' := fun l l' => rfl
  unfold account
  cases h with
  | feedResult hwaiting =>
    simp only [hwaiting, List.map_cons, Sum.elim_inl, id, hcons, hsnoc]
    abel
  | feedTask hwaiting =>
    simp only [hwaiting, List.map_cons, Sum.elim_inr, List.map_append, List.map_nil, hcons, hsnoc]
    abel
  | close => rfl
  | take hworkers htasks =>
    simp only [hworkers, htasks, List.filterMap_append, List.filterMap_cons, Worker.task?, List.map_append,
      List.map_cons, hcons, hmiddle]
    abel
  | deliver hworkers =>
    simp only [hworkers, List.filterMap_append, List.filterMap_cons, Worker.task?, List.map_append, List.map_cons,
      hcons, hsnoc, hmiddle]
    abel
  | leave hworkers => simp only [hworkers, List.filterMap_append, List.filterMap_cons, Worker.task?]

/-! ## Runs -/

/-- A pool and one that it can become. -/
def Reaches (work : α → ρ) : Pool α ρ → Pool α ρ → Prop :=
  Relation.ReflTransGen fun p q => ∃ m, p.move? work m = some q

/-- All workers have finished. -/
def Done (p : Pool α ρ) : Prop := ∀ w ∈ p.workers, w = .finished

/-- What holds of a pool of `n` workers at any time. -/
structure Invariant (work : α → ρ) (items : List (ρ ⊕ α)) (n : Nat) (p : Pool α ρ) : Prop where
  account : p.account work = (items.map (Sum.elim id work) : Multiset ρ)
  capacity : p.capacity = items.length
  workers : p.workers.length = n
  closed : p.closed = true → p.waiting = []
  finished : .finished ∈ p.workers → p.closed = true ∧ p.tasks = []

lemma invariant_start : Invariant work items n (start items n) where
  account := by simp [start, Pool.account, List.filterMap_replicate, Worker.task?]
  capacity := rfl
  workers := List.length_replicate
  closed := nofun
  finished := by simp [start]

namespace Invariant

lemma step (h : Invariant work items n p) (hstep : Step work p q) : Invariant work items n q := by
  have haccount := hstep.account_eq.trans h.account
  cases hstep with
  | feedResult hwaiting =>
    exact ⟨haccount, h.capacity, h.workers, fun hclosed => absurd (h.closed hclosed) (by simp [hwaiting]),
      h.finished⟩
  | feedTask hwaiting =>
    have hopen : p.closed ≠ true := fun hclosed => absurd (h.closed hclosed) (by simp [hwaiting])
    exact ⟨haccount, h.capacity, h.workers, fun hclosed => absurd hclosed hopen,
      fun hfinished => absurd (h.finished hfinished).1 hopen⟩
  | close hwaiting =>
    exact ⟨haccount, h.capacity, h.workers, fun _ => hwaiting,
      fun hfinished => ⟨rfl, (h.finished hfinished).2⟩⟩
  | take hworkers htasks =>
    refine ⟨haccount, h.capacity, by simpa [hworkers] using h.workers, h.closed, fun hfinished => ?_⟩
    have htasks' := (h.finished (by simpa [hworkers] using hfinished)).2
    exact absurd htasks' (by simp [htasks])
  | deliver hworkers =>
    exact ⟨haccount, h.capacity, by simpa [hworkers] using h.workers, h.closed,
      fun hfinished => h.finished (by simpa [hworkers] using hfinished)⟩
  | leave hworkers hclosed htasks =>
    exact ⟨haccount, h.capacity, by simpa [hworkers] using h.workers, h.closed, fun _ => ⟨hclosed, htasks⟩⟩

lemma reaches (h : Invariant work items n p) (hreaches : Reaches work p q) : Invariant work items n q := by
  induction hreaches with
  | refl => exact h
  | tail _ hmove ih => exact ih.step (.of_move? hmove.choose_spec)

/-- The feeder, the queues and the workers hold as many as there are items. -/
lemma counts (h : Invariant work items n p) : p.waiting.length + p.tasks.length +
    (p.workers.filterMap Worker.task?).length + p.results.length = p.capacity := by
  simpa [Pool.account, h.capacity, Nat.add_assoc] using congrArg Multiset.card h.account

/-- The feeder never has to wait. -/
lemma feeds (h : Invariant work items n p) (hwaiting : p.waiting ≠ []) :
    (p.move? work .feed).isSome := by
  have hcounts := h.counts
  have hlength := List.length_pos_iff.mpr hwaiting
  obtain ⟨x, rest, hcons⟩ := List.exists_cons_of_ne_nil hwaiting
  rcases x with r | a
  · have hroom : p.results.length < p.capacity := by omega
    simp [move?, feed?, hcons, hroom]
  · have hroom : p.tasks.length < p.capacity := by omega
    simp [move?, feed?, hcons, hroom]

/-- No worker ever has to wait before it delivers. -/
lemma delivers (h : Invariant work items n p) {w : Nat} {a : α} (hbusy : p.workers[w]? = some (.busy a)) :
    (p.move? work (.deliver w)).isSome := by
  have hcounts := h.counts
  have hmem : a ∈ p.workers.filterMap Worker.task? :=
    List.mem_filterMap.mpr ⟨_, List.mem_of_getElem? hbusy, rfl⟩
  have hlength := List.length_pos_of_mem hmem
  have hroom : p.results.length < p.capacity := by omega
  simp [move?, hbusy, hroom]

/-- A pool that no move is possible for has come to its end. -/
lemma done_of_stuck (h : Invariant work items n p) (hstuck : ∀ m, p.move? work m = none) : p.Done := by
  have hwaiting : p.waiting = [] := by
    by_contra hne
    simpa [hstuck] using h.feeds hne
  have hclosed : p.closed = true := by
    by_contra hopen
    have hclose := hstuck .close
    simp [move?, hwaiting, hopen] at hclose
  intro x hx
  obtain ⟨w, hw⟩ := List.mem_iff_getElem?.mp hx
  cases x with
  | idle =>
    cases htasks : p.tasks with
    | nil => simpa [move?, hw, hclosed, htasks] using hstuck (.leave w)
    | cons a rest => simpa [move?, hw, htasks] using hstuck (.take w)
  | busy a => simpa [hstuck] using h.delivers hw
  | finished => rfl

/-- **Results are neither lost nor duplicated.** When all workers have finished, the results are those of all
items. -/
lemma results_perm (h : Invariant work items n p) (hn : 0 < n) (hdone : p.Done) :
    p.results.Perm (items.map (Sum.elim id work)) := by
  obtain ⟨x, hx⟩ := List.exists_mem_of_length_pos (h.workers ▸ hn)
  obtain ⟨hclosed, htasks⟩ := h.finished (hdone x hx ▸ hx)
  have hbusy : p.workers.filterMap Worker.task? = [] :=
    List.filterMap_eq_nil_iff.mpr fun y hy => by simp [hdone y hy, Worker.task?]
  have haccount := h.account
  simp only [Pool.account, h.closed hclosed, htasks, hbusy, List.map_nil, Multiset.coe_nil, zero_add] at haccount
  exact Multiset.coe_eq_coe.mp haccount

end Invariant

/-! ## Ends of runs -/

/-- How many moves a worker has to make before it is finished. -/
def workerToDo : Worker α → Nat
  | .idle => 1
  | .busy _ => 2
  | .finished => 0

/-- More than the moves that are still to come. -/
def toDo (p : Pool α ρ) : Nat :=
  3 * p.waiting.length + 2 * p.tasks.length + (if p.closed then 0 else 1) + (p.workers.map workerToDo).sum

lemma Step.toDo_lt (h : Step work p q) : q.toDo < p.toDo := by
  unfold toDo
  cases h with
  | feedResult hwaiting => simp [hwaiting]
  | feedTask hwaiting => simp [hwaiting]; omega
  | close hwaiting hclosed => simp [hclosed]
  | take hworkers htasks => simp [hworkers, htasks, workerToDo]; omega
  | deliver hworkers => simp [hworkers, workerToDo]
  | leave hworkers => simp [hworkers, workerToDo]

/-- With enough moves, the order of `runFor` comes to an end. -/
lemma runFor_stuck {fuel : Nat} (h : p.toDo ≤ fuel) :
    Reaches work p (runFor work fuel p) ∧ ∀ m, (runFor work fuel p).move? work m = none := by
  induction fuel generalizing p with
  | zero =>
    refine ⟨.refl, fun m => Option.eq_none_iff_forall_ne_some.mpr fun q hq => ?_⟩
    exact absurd (Step.of_move? hq).toDo_lt (by simp [runFor, Nat.le_zero.mp h])
  | succ fuel ih =>
    rw [runFor]
    split
    · next q hfound =>
      obtain ⟨m, -, hm⟩ := List.exists_of_findSome?_eq_some hfound
      have hlt := (Step.of_move? hm).toDo_lt
      obtain ⟨hreaches, hstuck⟩ := ih (p := q) (by omega)
      exact ⟨.head ⟨m, hm⟩ hreaches, hstuck⟩
    · next hnone =>
      refine ⟨.refl, fun m => Option.eq_none_iff_forall_ne_some.mpr fun q hq => ?_⟩
      simp [List.findSome?_eq_none_iff.mp hnone m (mem_moves hq)] at hq

/-- Every run can be brought to its end. -/
lemma Invariant.exists_done (h : Invariant work items n p) : ∃ q, Reaches work p q ∧ q.Done := by
  obtain ⟨hreaches, hstuck⟩ := runFor_stuck (p := p) le_rfl
  exact ⟨_, hreaches, (h.reaches hreaches).done_of_stuck hstuck⟩

/-- The run that `run` makes has the results of all items. -/
lemma run_perm (hn : 0 < n) : (run work items n).Perm (items.map (Sum.elim id work)) := by
  have htoDo : (start items n : Pool α ρ).toDo = 3 * items.length + 1 + n := by
    simp [toDo, start, workerToDo]
  obtain ⟨hreaches, hstuck⟩ := runFor_stuck htoDo.le
  have hinvariant := invariant_start.reaches hreaches
  exact hinvariant.results_perm hn (hinvariant.done_of_stuck hstuck)

end Pool

end SubrLang
