/-!
# Outcomes of commands

What a command printed and the exit code it ended with. Outcomes are joined in the order in which the
parts of a command act.
-/

namespace SubrLang

structure Outcome where
  exit : Nat := 0
  /-- What went to standard output. -/
  output : ByteArray := .empty
  /-- What went to standard error. -/
  messages : ByteArray := .empty

namespace Outcome

def print (s : String) : Outcome := { output := s.toUTF8 }

def printBytes (bs : ByteArray) : Outcome := { output := bs }

def say (s : String) : Outcome := { messages := s.toUTF8 }

/-- The end of a command that could not do its work. -/
def failed (s : String) : Outcome := { exit := 1, messages := s.toUTF8 }

/-- As `failed`, for a message that need not be well formed. -/
def failedBytes (bs : List UInt8) : Outcome := { exit := 1, messages := ⟨bs.toArray⟩ }

/-- Both outcomes, one after the other; the second one decides on the exit code. -/
def andThen (a b : Outcome) : Outcome where
  exit := b.exit
  output := a.output ++ b.output
  messages := a.messages ++ b.messages

instance : Append Outcome := ⟨andThen⟩

/-- The outcome if a condition holds, and nothing otherwise. -/
def when (c : Bool) (o : Outcome) : Outcome := if c then o else {}

end Outcome

end SubrLang
