import SubrLang.Options
import SubrLang.Settings

/-!
# Settings as options

The warnings and features as groups of toggles on the command line.
-/

namespace SubrLang

namespace Settings

/-- The toggles of the warnings, in the positions that the settings have. -/
def warningGroup (s : Settings) : ToggleGroup where
  name := "Warning Flags"
  kind := "warning flag"
  header := "Available Warning Flags:"
  toggles := Warning.all.map fun w =>
    { name := w.name, letter := "W", usage := w.description, on := some (s.warning w), off := some false }

/-- The toggles of the features, in the positions that the settings have. -/
def featureGroup (s : Settings) : ToggleGroup where
  name := "Feature Flags"
  kind := "feature flag"
  header := "Available feature flags:"
  toggles := Feature.all.map fun f =>
    { name := f.name, letter := "F", usage := f.description, on := some (s.feature f), off := some false }

/-- Adds both groups to a set of options. -/
def addGroups (s : Settings) (o : OptionSet) : Except OptionDefError OptionSet := do
  (← o.addGroup s.warningGroup).addGroup s.featureGroup

/-- The position that a pair of switches asks for, if it asks for one. -/
def asked? (o : OptionSet) (letter name : String) : Option Bool :=
  if o.isOn (letter ++ "no-" ++ name) then some false
  else if o.isOn (letter ++ name) then some true
  else none

/-- The settings that a set of options asks for. -/
def applyGroups (s : Settings) (o : OptionSet) : Settings :=
  { s with
    warning := fun w => (asked? o "W" w.name).getD (s.warning w)
    feature := fun f => (asked? o "F" f.name).getD (s.feature f) }

end Settings

end SubrLang
