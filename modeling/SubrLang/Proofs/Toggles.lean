import Mathlib
import SubrLang.Options.Settings

/-!
# Toggles on the command line

A warning or feature has two switches on the command line, one to turn it on and one to turn it off. The help
page shows it as on if the first is on and the second is not. What the settings become is decided by the
switches too, but a switch for turning on that is off leaves the setting as it was.

**Arguments.** `OptionSet.given` lists the texts that arguments give to options, however they are spelled. After
the arguments have been read, a switch has the position that it was given last (`OptionSet.isOn_parseFrom`).

**Settings.** So what is shown and what holds differ for a setting exactly if it is on from the start, its
switch for turning on was last turned off, and the other one was not turned on
(`Settings.applyGroups_differs_iff`).
-/

namespace SubrLang

namespace OptionSet

/-! ## Definitions of options -/

variable {s t p : OptionSet} {n name text : String}

/-- The value of an option. -/
def value? (s : OptionSet) (n : String) : Option OptionValue := (s.find? n).map (·.value)

lemma isOn_of_value? {b : Bool} (h : s.value? n = some (.switch b)) : s.isOn n = b := by
  obtain ⟨⟨⟩, ho, rfl⟩ := Option.map_eq_some_iff.mp h
  simp [isOn, ho]

/-- An option that is defined without an error is found, and what was found before still is. -/
lemma find?_define {o : OptionDef} (h : s.define o = (t, none)) :
    t.find? o.name = some o ∧ ∀ n d, s.find? n = some d → t.find? n = some d := by
  simp only [define] at h
  split_ifs at h with _ hfound
  · cases h
  · cases h
  · cases h
  · have hnone : s.find? o.name = none := by simpa using hfound
    cases h
    unfold find? at *
    exact ⟨by simp [List.find?_append, hnone], fun n d hd => by simp [List.find?_append, hd]⟩

lemma find?_defineAll {os : List OptionDef} (h : s.defineAll os = .ok t) :
    (∀ o ∈ os, t.find? o.name = some o) ∧ ∀ n d, s.find? n = some d → t.find? n = some d := by
  induction os generalizing s with
  | nil =>
    cases h
    exact ⟨by simp, fun _ _ hd => hd⟩
  | cons o os ih =>
    rw [defineAll] at h
    split at h
    · next hdefine =>
      obtain ⟨hself, hkeeps⟩ := find?_define hdefine
      obtain ⟨hall, hkeeps'⟩ := ih h
      exact ⟨List.forall_mem_cons.mpr ⟨hkeeps' _ _ hself, hall⟩, fun n d hd => hkeeps' n d (hkeeps n d hd)⟩
    · cases h

lemma find?_addGroup {g : ToggleGroup} (h : s.addGroup g = .ok t) :
    (∀ x ∈ g.toggles, ∀ o ∈ switches x, t.find? o.name = some o) ∧
      ∀ n d, s.find? n = some d → t.find? n = some d := by
  unfold addGroup at h
  cases hdefine : s.defineAll (g.toggles.flatMap switches) with
  | error e => simp [hdefine, bind, Except.bind] at h
  | ok u =>
    simp only [hdefine, bind, Except.bind, pure, Except.pure, Except.ok.injEq] at h
    obtain ⟨hall, hkeeps⟩ := find?_defineAll hdefine
    subst h
    exact ⟨fun x hx o ho => hall o (List.mem_flatMap.mpr ⟨x, hx, ho⟩), hkeeps⟩

/-! ## Reading arguments -/

/-- The position that a text given to a switch asks for. -/
def position? (text : String) : Option Bool :=
  if text.isEmpty then some true else readSwitch? text

lemma set_switch {b : Bool} {v : OptionValue} (h : (OptionValue.switch b).set text = .ok v) :
    v = .switch ((position? text).getD b) := by
  by_cases hempty : text.isEmpty
  · simp only [OptionValue.set, hempty, if_true, Except.ok.injEq] at h
    simp [← h, position?, hempty]
  · cases hread : readSwitch? text with
    | none => simp [OptionValue.set, hempty, hread] at h
    | some b' =>
      simp only [OptionValue.set, hempty, hread, Bool.false_eq_true, if_false, Except.ok.injEq] at h
      simp [← h, position?, hempty, hread]

/-- A text given to an option changes the value of that option and of no other. -/
lemma value?_set (h : s.set name text = .ok t) : (∀ n, name ≠ n → t.value? n = s.value? n) ∧
    ∀ v, s.value? name = some v → ∃ v', v.set text = .ok v' ∧ t.value? name = some v' := by
  unfold set at h
  split at h
  · next hnone =>
    cases h
    exact ⟨fun _ _ => rfl, fun v hv => by simp [value?, hnone] at hv⟩
  · next o ho =>
    cases hset : o.value.set text with
    | error e => simp [hset, bind, Except.bind] at h
    | ok v =>
      simp only [hset, bind, Except.bind, pure, Except.pure, Except.ok.injEq] at h
      have hfind : ∀ n, t.find? n =
          (s.find? n).map fun p => if p.name == name then { p with value := v } else p := by
        intro n
        subst h
        unfold find?
        rw [List.find?_map]
        congr 2
        funext p
        simp only [Function.comp_apply]
        split <;> rfl
      have hname : ∀ n p, s.find? n = some p → p.name = n := fun n p hp => by
        simpa using List.find?_some hp
      refine ⟨fun n hn => ?_, fun w hw => ⟨v, ?_, ?_⟩⟩
      · rw [value?, hfind, value?]
        cases hp : s.find? n with
        | none => rfl
        | some p => simp [hname n p hp, Ne.symm hn]
      · rw [value?, ho] at hw
        cases hw
        exact hset
      · simp [value?, hfind, ho, hname name o ho]

/-- The texts that arguments give to options, in their order. -/
def givenFrom (s : OptionSet) : List String → List (String × String)
  | [] => []
  | arg :: rest =>
    match s.classify arg with
    | .endOfOptions | .bad _ => []
    | .positional => givenFrom { s with args := s.args ++ [arg] } rest
    | .assign name text => (name, text) :: givenFrom ((s.set name text).toOption.getD s) rest
    | .takesNext name _ =>
      match rest with
      | [] => []
      | text :: rest => (name, text) :: givenFrom ((s.set name text).toOption.getD s) rest

/-- The last position that texts given to options ask for. -/
def lastPosition? (given : List (String × String)) (n : String) : Option Bool :=
  (given.filterMap fun a => if a.1 = n then position? a.2 else none).getLast?

lemma lastPosition?_cons {given : List (String × String)} {b : Bool} :
    (lastPosition? ((name, text) :: given) n).getD b =
      (lastPosition? given n).getD (if name = n then (position? text).getD b else b) := by
  unfold lastPosition?
  by_cases hn : name = n
  · cases hpos : position? text <;> simp [hn, hpos, List.getLast?_cons]
  · simp [hn]

lemma value?_set_switch {b : Bool} (h : s.set name text = .ok t) (hn : s.value? n = some (.switch b)) :
    t.value? n = some (.switch (if name = n then (position? text).getD b else b)) := by
  obtain ⟨hother, hself⟩ := value?_set h
  by_cases heq : name = n
  · subst heq
    obtain ⟨v, hv, hvalue⟩ := hself _ hn
    rw [hvalue, set_switch hv, if_pos rfl]
  · rw [hother n heq, hn, if_neg heq]

/-- After arguments have been read, a switch has the position that they asked for last. -/
lemma isOn_parseFrom {args : List String} {b : Bool} (h : t.parseFrom args = (p, none))
    (hn : t.value? n = some (.switch b)) : p.isOn n = (lastPosition? (t.givenFrom args) n).getD b := by
  fun_induction parseFrom t args generalizing b with
  | case1 t =>
    cases h
    exact isOn_of_value? hn
  | case2 t arg rest hc =>
    cases h
    simp only [givenFrom, hc]
    exact isOn_of_value? hn
  | case3 t arg rest hc ih =>
    simp only [givenFrom, hc]
    exact ih h hn
  | case4 t arg rest e hc => cases h
  | case5 t arg rest name value hc u hset ih =>
    simp only [givenFrom, hc, hset]
    rw [lastPosition?_cons]
    exact ih h (value?_set_switch hset hn)
  | case6 t arg rest name value hc e hset => cases h
  | case7 t arg name shown hc => cases h
  | case8 t arg name shown hc value rest u hset ih =>
    simp only [givenFrom, hc, hset]
    rw [lastPosition?_cons]
    exact ih h (value?_set_switch hset hn)
  | case9 t arg name shown hc value rest e hset => cases h

/-- The texts that arguments of a command give to options. -/
def given (s : OptionSet) (args : List String) : List (String × String) :=
  givenFrom { s with args := [] } args

/-- A toggle is defined if both of its switches are, in positions that leave it as it is. -/
def Has (s : OptionSet) (t : Toggle) (b : Bool) : Prop :=
  s.value? t.onName = some (.switch b) ∧ s.value? t.offName = some (.switch false)

lemma Has.of_addGroup {g : ToggleGroup} {x : Toggle} {b : Bool} (h : s.addGroup g = .ok t) (hx : x ∈ g.toggles)
    (hon : x.on = some b) (hoff : x.off = some false) : t.Has x b := by
  have hfound := (find?_addGroup h).1 x hx
  simp only [switches, hon, hoff, Option.map_some, Option.toList_some, List.cons_append, List.nil_append,
    List.forall_mem_cons] at hfound
  simp [Has, value?, hfound.1, hfound.2.1]

lemma Has.mono {x : Toggle} {b : Bool} (h : s.Has x b) (hkeeps : ∀ n d, s.find? n = some d → t.find? n = some d) :
    t.Has x b := by
  have hvalue : ∀ n v, s.value? n = some v → t.value? n = some v := by
    intro n v hv
    obtain ⟨d, hd, rfl⟩ := Option.map_eq_some_iff.mp hv
    simp [value?, hkeeps n d hd]
  exact ⟨hvalue _ _ h.1, hvalue _ _ h.2⟩

/-- The position that the switches of a toggle ask for is not the one that is shown exactly if the toggle was
on, its first switch was turned off, and its second one was not turned on. -/
lemma asked?_differs_iff {args : List String} {x : Toggle} {b : Bool} (hx : s.Has x b) (hon : x.on = some b)
    (hoff : x.off = some false) (h : s.parse args = (p, none)) :
    (Settings.asked? p x.letter x.name).getD b ≠ p.isToggled x ↔
      b = true ∧ lastPosition? (s.given args) x.onName = some false ∧
        lastPosition? (s.given args) x.offName ≠ some true := by
  have hontext : p.isOn (x.letter ++ x.name) = (lastPosition? (s.given args) x.onName).getD b :=
    isOn_parseFrom h hx.1
  have hofftext : p.isOn (x.letter ++ "no-" ++ x.name) = (lastPosition? (s.given args) x.offName).getD false :=
    isOn_parseFrom h hx.2
  simp only [Settings.asked?, isToggled, toggleNow, Toggle.onName, Toggle.offName, hon, hoff, Option.map_some]
  rw [hontext, hofftext, ← Toggle.onName, ← Toggle.offName]
  cases b <;> rcases lastPosition? (s.given args) x.onName with _ | _ | _ <;>
    rcases lastPosition? (s.given args) x.offName with _ | _ | _ <;> decide

end OptionSet

/-! ## Settings -/

lemma Warning.name_injective : Function.Injective Warning.name := by
  intro v w h
  cases v <;> cases w <;> first | rfl | exact absurd h (by decide)

lemma Feature.name_injective : Function.Injective Feature.name := by
  intro f g h
  cases f <;> cases g <;> first | rfl | exact absurd h (by decide)

namespace Settings

open OptionSet

/-- The toggles of all warnings and features are there after both groups were added, and whatever options are
added later. -/
lemma has_addGroups {c : Settings} {o o' s : OptionSet} {later : List OptionDef}
    (hgroups : c.addGroups o = .ok o') (hlater : o'.defineAll later = .ok s) :
    (∀ x ∈ c.warningGroup.toggles, ∀ b, x.on = some b → x.off = some false → s.Has x b) ∧
      ∀ x ∈ c.featureGroup.toggles, ∀ b, x.on = some b → x.off = some false → s.Has x b := by
  unfold addGroups at hgroups
  cases hwarnings : o.addGroup c.warningGroup with
  | error e => simp [hwarnings, bind, Except.bind] at hgroups
  | ok u =>
    simp only [hwarnings, bind, Except.bind] at hgroups
    have hkeeps := (find?_defineAll hlater).2
    constructor
    · intro x hx b hon hoff
      exact ((Has.of_addGroup hwarnings hx hon hoff).mono (find?_addGroup hgroups).2).mono hkeeps
    · intro x hx b hon hoff
      exact (Has.of_addGroup hgroups hx hon hoff).mono hkeeps

/-- **What is shown and what holds.** After arguments were accepted, a warning or feature is what its toggle is
shown as, unless it was on from the start, its switch for turning on was last turned off, and its other switch
was not turned on: then it stays on and is shown as off. -/
theorem applyGroups_differs_iff {c : Settings} {o o' s p : OptionSet} {later : List OptionDef} {args : List String}
    (hgroups : c.addGroups o = .ok o') (hlater : o'.defineAll later = .ok s) (hparse : s.parse args = (p, none)) :
    (∀ w, ∀ x ∈ c.warningGroup.toggles, x.name = w.name →
      ((c.applyGroups p).warning w ≠ p.isToggled x ↔ c.warning w = true ∧
        lastPosition? (s.given args) x.onName = some false ∧
          lastPosition? (s.given args) x.offName ≠ some true)) ∧
    ∀ f, ∀ x ∈ c.featureGroup.toggles, x.name = f.name →
      ((c.applyGroups p).feature f ≠ p.isToggled x ↔ c.feature f = true ∧
        lastPosition? (s.given args) x.onName = some false ∧
          lastPosition? (s.given args) x.offName ≠ some true) := by
  obtain ⟨hwarnings, hfeatures⟩ := has_addGroups hgroups hlater
  constructor
  · intro w x hx hname
    obtain ⟨v, -, rfl⟩ := List.mem_map.mp hx
    obtain rfl := Warning.name_injective hname
    have hdiffers := asked?_differs_iff (hwarnings _ hx (c.warning v) rfl rfl) rfl rfl hparse
    exact hdiffers
  · intro f x hx hname
    obtain ⟨g, -, rfl⟩ := List.mem_map.mp hx
    obtain rfl := Feature.name_injective hname
    have hdiffers := asked?_differs_iff (hfeatures _ hx (c.feature g) rfl rfl) rfl rfl hparse
    exact hdiffers

/-- The toggle of extra warnings. -/
def extraToggle : Toggle :=
  { name := "extra", letter := "W", usage := Warning.extra.description, on := some true, off := some false }

/-- The options of the standard settings. -/
def standardOptions : OptionSet := (standard.addGroups {}).toOption.getD {}

/-- The same after the switch for turning on extra warnings was given the value false. -/
def extraOff : OptionSet := (standardOptions.parse ["-Wextra=false"]).1

/-- Extra warnings then stay on and are shown as off. -/
theorem applyGroups_differs_extra : standard.addGroups {} = .ok standardOptions ∧
    standardOptions.parse ["-Wextra=false"] = (extraOff, none) ∧ extraToggle ∈ standard.warningGroup.toggles ∧
      (standard.applyGroups extraOff).warning .extra ≠ extraOff.isToggled extraToggle := by
  have hgroups : standard.addGroups {} = .ok standardOptions := rfl
  have hlater : standardOptions.defineAll [] = .ok standardOptions := rfl
  have hparse : standardOptions.parse ["-Wextra=false"] = (extraOff, none) := rfl
  have hmem : extraToggle ∈ standard.warningGroup.toggles := List.mem_map.mpr ⟨.extra, by decide, rfl⟩
  refine ⟨hgroups, hparse, hmem, ?_⟩
  exact ((applyGroups_differs_iff hgroups hlater hparse).1 .extra extraToggle hmem rfl).mpr
    ⟨rfl, by decide, by decide⟩

end Settings

end SubrLang
