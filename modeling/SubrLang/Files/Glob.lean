import SubrLang.Files.Access

/-!
# Patterns of file names

In a pattern `*` stands for any run of characters without a slash, `?` for one such character, `[a-z]`
for a character of a class, `[^a-z]` for one outside of it, and a backslash takes the next character as
it is.
-/

namespace SubrLang

/-- A part of a pattern. -/
inductive GlobPart where
  | run
  | one
  | literal (c : Char)
  | set (negated : Bool) (ranges : List (Char × Char))
deriving DecidableEq, Repr

/-- A pattern that is not well formed. -/
structure BadPattern where
  pattern : String

def BadPattern.message (e : BadPattern) : String :=
  s!"bad pattern {e.pattern}: syntax error in pattern"

namespace Glob

/-- A character of a class, behind which the class goes on. -/
def classChar : List Char → Option (Char × List Char)
  | '\\' :: c :: d :: cs => some (c, d :: cs)
  | c :: d :: cs => if c = '-' || c = ']' || c = '\\' then none else some (c, d :: cs)
  | _ => none

/-- The ranges of a class up to its bracket, and what follows; `fuel` bounds their number. -/
def ranges : (fuel : Nat) → (any : Bool) → List Char → Option (List (Char × Char) × List Char)
  | 0, _, _ => none
  | fuel + 1, any, cs =>
    match any, cs with
    | true, ']' :: rest => some ([], rest)
    | _, cs => do
      let (lo, rest) ← classChar cs
      let (hi, rest) ← match rest with
        | '-' :: more => classChar more
        | more => some (lo, more)
      let (others, rest) ← ranges fuel true rest
      return ((lo, hi) :: others, rest)

/-- The parts of a pattern; `fuel` bounds their number. -/
def partsFrom : (fuel : Nat) → List Char → Option (List GlobPart)
  | _, [] => some []
  | 0, _ => none
  | fuel + 1, '*' :: cs => (partsFrom fuel cs).map (.run :: ·)
  | fuel + 1, '?' :: cs => (partsFrom fuel cs).map (.one :: ·)
  | fuel + 1, '\\' :: c :: cs => (partsFrom fuel cs).map (.literal c :: ·)
  | _ + 1, ['\\'] => none
  | fuel + 1, '[' :: cs => do
    let (negated, cs) := match cs with
      | '^' :: rest => (true, rest)
      | rest => (false, rest)
    let (rs, rest) ← ranges fuel false cs
    return .set negated rs :: (← partsFrom fuel rest)
  | fuel + 1, c :: cs => (partsFrom fuel cs).map (.literal c :: ·)

/-- The parts of a pattern, if it is well formed. -/
def parts? (pattern : String) : Option (List GlobPart) :=
  partsFrom (pattern.length + 1) pattern.toList

/-- Whether a run may end before one of the characters of a name, with `rest` matching from there. -/
def matchRun (rest : List Char → Bool) : List Char → Bool
  | [] => rest []
  | c :: cs => rest (c :: cs) || (c != '/' && matchRun rest cs)

/-- Whether a name matches a pattern. -/
def fits : List GlobPart → List Char → Bool
  | [], cs => cs.isEmpty
  | .run :: ps, cs => matchRun (fits ps) cs
  | _ :: _, [] => false
  | .one :: ps, c :: cs => c != '/' && fits ps cs
  | .literal d :: ps, c :: cs => c == d && fits ps cs
  | .set negated rs :: ps, c :: cs =>
    (rs.any fun (lo, hi) => lo ≤ c && c ≤ hi) != negated && fits ps cs

/-- Whether a text has characters that patterns give a meaning to. -/
def isPattern (p : String) : Bool :=
  p.toList.any fun c => c = '*' || c = '?' || c = '[' || c = '\\'

/-- The files of a directory that match. -/
def inDir {m : Type → Type} [Monad m] (files : FileAccess m) (parts : List GlobPart) (dir : String) :
    m (List String) := do
  match ← files.names dir with
  | none => return []
  | some ns => return (ns.filter fun n => fits parts n.toList).map (Path.join dir)

/-- The files that match a pattern, given as its elements, the last one first. -/
def search {m : Type → Type} [Monad m] (files : FileAccess m) (rooted : Bool) :
    List String → m (List String)
  | [] => return [if rooted then "/" else "."]
  | e :: outer => do
    let whole := "/".intercalate (e :: outer).reverse
    if !isPattern whole then
      return if ← files.present whole then [whole] else []
    else
      let before := "/".intercalate outer.reverse
      let dirs ←
        if outer.isEmpty then pure [if rooted then "/" else "."]
        else if isPattern before then search files rooted outer
        else pure [if before.isEmpty then "/" else before]
      let found ← dirs.mapM (inDir files ((parts? e).getD []))
      return found.flatten

/-- The files that match a pattern. -/
def expand {m : Type → Type} [Monad m] (files : FileAccess m) (pattern : String) :
    m (Except BadPattern (List String)) := do
  if (parts? pattern).isNone then return .error ⟨pattern⟩
  return .ok (← search files (Path.isAbsolute pattern) (Path.elements pattern).reverse)

end Glob

end SubrLang
