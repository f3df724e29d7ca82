import SubrLang.Number.Amount

/-!
# What a run used

The counters of a run and the line that sums them up.
-/

namespace SubrLang

/-- The counters of a run. -/
structure Stats where
  /-- Instructions executed. -/
  steps : Int := 0
  /-- The greatest height of the operand stack. -/
  peak : Int := 0
  /-- Bytes taken from the heap, known once a run has ended well. -/
  heap : Int := 0
deriving DecidableEq, Repr, Inhabited

/-- The counters as a line of text. -/
def Stats.summary (s : Stats) : String :=
  let steps := Amount.grouped s.steps
  let peak := Amount.grouped s.peak
  let heap := Amount.binarySize (UInt64.ofInt s.heap)
  s!"{steps} steps, peak operand stack {peak} words, {heap} heap"

end SubrLang
