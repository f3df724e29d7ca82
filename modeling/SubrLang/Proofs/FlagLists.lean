import Mathlib
import SubrLang.Settings

/-!
# Lists of flags

A list of flags goes over the settings twice: first the flags for all warnings, then the others, each time
from left to right. So what decides on a warning is the last flag that names it, then the last flag for all
warnings, then what was set before (`Settings.process_last_flag`), and the general flags can stand anywhere
between the others.

A pass over a list is a fold, and what it leaves of one setting is the last thing that was said about it
(`Settings.KnownFlag.last_said`).
-/

namespace SubrLang

/-! ## Words -/

/-- The words of a sequence are what stands between blanks, without the empty parts. -/
lemma Text.words_eq_splitOnP {α : Type} (blank : α → Bool) (cs : List α) :
    words blank cs = (cs.splitOnP blank).filter fun w => !w.isEmpty := by
  have hid : ∀ ws : List (List α), ws.modifyHead (fun w => w) = ws := congrFun List.modifyHead_id
  -- the word begun so far belongs to the first part
  have hgo : ∀ (cs w : List α), words.go blank cs w =
      ((cs.splitOnP blank).modifyHead (w.reverse ++ ·)).filter fun w => !w.isEmpty := by
    intro cs
    induction cs with
    | nil =>
      intro w
      cases w <;> simp [words.go]
    | cons c cs ih =>
      intro w
      rw [List.splitOnP_cons_eq_if_modifyHead]
      by_cases hc : blank c
      · cases w <;> simp [words.go, hc, ih, hid]
      · simp [words.go, hc, ih, List.modifyHead_modifyHead, Function.comp_def]
  exact (hgo cs []).trans (by simp [hid])

namespace Settings

/-! ## Flags of known forms -/

/-- The flags that there are. -/
inductive KnownFlag where
  | warning (w : Warning) (on : Bool)
  | feature (f : Feature) (on : Bool)
  | allWarnings (on : Bool)

namespace KnownFlag

/-- How a flag is written. -/
def text : KnownFlag → Flag
  | warning w on => Flag.ofString ((if on then "-W" else "-Wno-") ++ w.name)
  | feature f on => Flag.ofString ((if on then "-F" else "-Fno-") ++ f.name)
  | allWarnings on => Flag.ofString (if on then "-Wall" else "-Wno-all")

def isGeneral : KnownFlag → Bool
  | allWarnings _ => true
  | _ => false

/-- The position that a flag asks for all warnings. -/
def forAll? : KnownFlag → Option Bool
  | allWarnings on => some on
  | _ => none

/-- The position that a flag asks for a warning by its name. -/
def forWarning? (w : Warning) : KnownFlag → Option Bool
  | warning v on => if v = w then some on else none
  | _ => none

def forFeature? (f : Feature) : KnownFlag → Option Bool
  | feature g on => if g = f then some on else none
  | _ => none

/-- The settings after a flag. -/
def apply (s : Settings) : KnownFlag → Settings
  | warning w on => s.setWarning w on
  | feature f on => s.setFeature f on
  | allWarnings on => s.setAllWarnings on

lemma isGeneral_text (k : KnownFlag) : Settings.isGeneral k.text = k.isGeneral := by
  rcases k with ⟨w, on⟩ | ⟨f, on⟩ | on
  · cases w <;> cases on <;> decide
  · cases f <;> cases on <;> decide
  · cases on <;> decide

/-- A flag of a known form is accepted. -/
lemma applyFlag_text (s : Settings) (k : KnownFlag) : s.applyFlag k.text = .ok (apply s k) := by
  rcases k with ⟨w, on⟩ | ⟨f, on⟩ | on
  · cases w <;> cases on <;> rfl
  · cases f <;> cases on <;> rfl
  · cases on <;> rfl

lemma applyFlags_text (s : Settings) (ks : List KnownFlag) :
    s.applyFlags (ks.map text) = (ks.foldl apply s, none) := by
  induction ks generalizing s with
  | nil => rfl
  | cons k ks ih => simp only [List.map_cons, applyFlags, applyFlag_text, ih, List.foldl_cons]

/-- If every flag either says what a setting becomes or leaves it alone, the setting becomes what was said
last. -/
lemma last_said {β : Type} (get : Settings → β) (said : KnownFlag → Option β)
    (h : ∀ s k, get (apply s k) = (said k).getD (get s)) (s : Settings) (ks : List KnownFlag) :
    get (ks.foldl apply s) = (ks.filterMap said).getLast?.getD (get s) := by
  induction ks using List.reverseRecOn with
  | nil => rfl
  | append_singleton ks k ih =>
    rw [List.foldl_concat, h, ih, List.filterMap_append]
    cases hk : said k <;> simp [hk]

lemma warning_apply (w : Warning) (s : Settings) (k : KnownFlag) :
    (apply s k).warning w = ((k.forWarning? w).or k.forAll?).getD (s.warning w) := by
  rcases k with ⟨v, on⟩ | ⟨f, on⟩ | on
  · by_cases hv : v = w
    · simp [apply, setWarning, forWarning?, hv]
    · simp [apply, setWarning, forWarning?, forAll?, hv, Ne.symm hv]
  · rfl
  · rfl

lemma feature_apply (f : Feature) (s : Settings) (k : KnownFlag) :
    (apply s k).feature f = (k.forFeature? f).getD (s.feature f) := by
  rcases k with ⟨v, on⟩ | ⟨g, on⟩ | on
  · rfl
  · by_cases hg : g = f
    · simp [apply, setFeature, forFeature?, hg]
    · simp [apply, setFeature, forFeature?, hg, Ne.symm hg]
  · rfl

lemma machine_foldl (s : Settings) (ks : List KnownFlag) :
    (ks.foldl apply s).memory = s.memory ∧ (ks.foldl apply s).stepLimit = s.stepLimit := by
  induction ks generalizing s with
  | nil => exact ⟨rfl, rfl⟩
  | cons k ks ih => cases k <;> exact ih _

end KnownFlag

open KnownFlag

/-- The flags in the order in which they act. -/
def inOrder (ks : List KnownFlag) : List KnownFlag :=
  ks.filter (·.isGeneral) ++ ks.filter (!·.isGeneral)

/-- The flags that a text is made up of. -/
def Lists (text : List Text.Piece) (ks : List KnownFlag) : Prop :=
  ((text.splitOnP Text.Piece.isBlank).filter fun w => !w.isEmpty) = ks.map KnownFlag.text

lemma process_eq_foldl (s : Settings) {text : List Text.Piece} {ks : List KnownFlag} (h : Lists text ks) :
    s.process text = ((inOrder ks).foldl KnownFlag.apply s, none) := by
  unfold process
  rw [Text.words_eq_splitOnP, h, List.partition_eq_filter_filter]
  dsimp only
  rw [List.filter_map, List.filter_map, ← List.map_append, KnownFlag.applyFlags_text]
  simp [inOrder, Function.comp_def, isGeneral_text]

/-- What the specific flags say comes after what the general ones say. -/
lemma getLast?_inOrder {β : Type} {said : KnownFlag → Option β} (special general : KnownFlag → Option β)
    (hspecial : ∀ k, (if k.isGeneral then none else said k) = special k)
    (hgeneral : ∀ k, (if k.isGeneral then said k else none) = general k) (ks : List KnownFlag) :
    ((inOrder ks).filterMap said).getLast? =
      (ks.filterMap special).getLast?.or (ks.filterMap general).getLast? := by
  have hparts : (inOrder ks).filterMap said = ks.filterMap general ++ ks.filterMap special := by
    rw [inOrder, List.filterMap_append, List.filterMap_filter, List.filterMap_filter, ← funext hspecial,
      ← funext hgeneral]
    congr 2
    funext k
    cases k.isGeneral <;> rfl
  rw [hparts, List.getLast?_append]

/-- **The last flag wins.** A list of known flags is accepted. A warning gets the position of the last flag that
names it, else of the last flag for all warnings, else it stays as it was; a feature gets the position of the
last flag that names it. Flags for all warnings can be moved past the others. -/
theorem process_last_flag (s : Settings) {text : List Text.Piece} {ks : List KnownFlag} (h : Lists text ks) :
    ∃ t, s.process text = (t, none) ∧
      (∀ w, t.warning w = ((ks.filterMap (forWarning? w)).getLast?.or (ks.filterMap forAll?).getLast?).getD
        (s.warning w)) ∧
      (∀ f, t.feature f = (ks.filterMap (forFeature? f)).getLast?.getD (s.feature f)) ∧
      t.memory = s.memory ∧ t.stepLimit = s.stepLimit ∧
      ∀ text' ks', Lists text' ks' → ks'.filter (·.isGeneral) = ks.filter (·.isGeneral) →
        ks'.filter (!·.isGeneral) = ks.filter (!·.isGeneral) → s.process text' = (t, none) := by
  obtain ⟨hmemory, hsteps⟩ := machine_foldl s (inOrder ks)
  refine ⟨_, process_eq_foldl s h, fun w => ?_, fun f => ?_, hmemory, hsteps, ?_⟩
  · rw [last_said (·.warning w) _ (warning_apply w), getLast?_inOrder (forWarning? w) forAll?]
    · rintro (_ | _ | _) <;> simp [KnownFlag.isGeneral, forWarning?, forAll?]
    · rintro (_ | _ | _) <;> rfl
  · rw [last_said (·.feature f) _ (feature_apply f), getLast?_inOrder (forFeature? f)
      fun _ => none]
    · simp
    · rintro (_ | _ | _) <;> rfl
    · rintro (_ | _ | _) <;> rfl
  · intro text' ks' h' hgeneral hspecial
    rw [process_eq_foldl s h', inOrder, hgeneral, hspecial]
    rfl

/-- Flags with different blanks between them, the general ones last. -/
def generalLast : String := " -Wno-extra\t-Flambdas  -Wextra -Fno-lambdas\n-Wall -Wno-all"

/-- The flags of `generalLast`. -/
def generalLastFlags : List KnownFlag :=
  [.warning .extra false, .feature .lambdas true, .warning .extra true, .feature .lambdas false,
    .allWarnings true, .allWarnings false]

theorem process_last_flag_generalLast : Lists (Flag.ofString generalLast) generalLastFlags ∧
    ∃ t, standard.process (Flag.ofString generalLast) = (t, none) ∧ t.warning .extra = true ∧
      t.warning .unreachableCode = false ∧ t.feature .lambdas = false ∧ t.feature .stringDedup = true := by
  have hlists : Lists (Flag.ofString generalLast) generalLastFlags := by
    unfold Lists
    decide +kernel
  obtain ⟨t, hprocess, hwarning, hfeature, -⟩ := process_last_flag standard hlists
  exact ⟨hlists, t, hprocess, hwarning .extra, hwarning .unreachableCode, hfeature .lambdas,
    hfeature .stringDedup⟩

end Settings

end SubrLang
