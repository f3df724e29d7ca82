import Mathlib.Tactic.Lemma
import SubrLang.Options.Indent

/-!
# Indentation of nested parts

The indentation remembers all parts that are open, however many they are: after any opening and closing it is
the one that as many openings alone would give (`after_eq_nested`). Only its levels are bytes. So there are four
spaces for every open part exactly if fewer than 256 are open (`current_tracks_depth_iff`).
-/

namespace SubrLang

namespace Indent

/-- What happens to the parts of a text. -/
inductive Move where
  | opens
  | closes
deriving DecidableEq, Repr

def move (i : Indent) : Move → Indent
  | .opens => i.push
  | .closes => i.pop

def after (ms : List Move) : Indent := ms.foldl move {}

/-- The number of open parts after a move. A closing does nothing if no part is open. -/
def Move.depth (d : Nat) : Move → Nat
  | .opens => d + 1
  | .closes => d - 1

def depth (ms : List Move) : Nat := ms.foldl Move.depth 0

/-- The indentation after openings alone. -/
def nested : Nat → Indent
  | 0 => {}
  | d + 1 => (nested d).push

lemma move_nested (d : Nat) (m : Move) : (nested d).move m = nested (m.depth d) := by
  cases m with
  | opens => rfl
  | closes => cases d <;> rfl

lemma foldl_move_nested (ms : List Move) (d : Nat) :
    ms.foldl move (nested d) = nested (ms.foldl Move.depth d) := by
  induction ms generalizing d with
  | nil => rfl
  | cons m ms ih => rw [List.foldl_cons, List.foldl_cons, move_nested, ih]

lemma after_eq_nested (ms : List Move) : after ms = nested (depth ms) := foldl_move_nested ms 0

lemma level_nested (d : Nat) : (nested d).level = UInt8.ofNat d := by
  induction d with
  | zero => rfl
  | succ d ih => rw [nested, push, ih, UInt8.ofNat_add, UInt8.ofNat_one]

lemma current_nested (d : Nat) :
    (nested d).current = String.ofList (List.replicate (4 * (d % 256)) ' ') := by
  rw [current, level_nested, UInt8.toNat_ofNat', atLevel, unit]

/-- **Indentation and depth.** After any moves the indentation is four spaces for every open part, with the parts
counted modulo 256. So it follows the depth exactly as long as that is below 256. -/
theorem current_tracks_depth_iff (ms : List Move) :
    (after ms).current = String.ofList (List.replicate (4 * (depth ms % 256)) ' ') ∧
      ((after ms).current = String.ofList (List.replicate (4 * depth ms) ' ') ↔ depth ms < 256) := by
  rw [after_eq_nested, current_nested]
  refine ⟨rfl, ?_⟩
  simp only [String.ofList_inj, List.replicate_inj, or_true, and_true]
  omega

/-- Inside of 256 parts there is no indentation. With the last of them closed it is there again. -/
theorem current_tracks_depth_lost :
    depth (.replicate 256 .opens) = 256 ∧ (after (.replicate 256 .opens)).current = "" ∧
      (after (.replicate 256 .opens ++ [.closes])).current = String.ofList (.replicate 1020 ' ') := by
  have hfull : depth (.replicate 256 .opens) = 256 := by decide +kernel
  have hback : depth (.replicate 256 .opens ++ [.closes]) = 255 := by decide +kernel
  refine ⟨hfull, ?_, ?_⟩
  · rw [(current_tracks_depth_iff _).1, hfull]
    rfl
  · rw [(current_tracks_depth_iff _).1, hback]

end Indent

end SubrLang
