/-!
# Paths

Paths with slashes between their elements, taken as texts. Cleaning removes empty elements and `.`, and
an element before `..`.
-/

namespace SubrLang.Path

/-- The elements of a path, empty ones included. -/
def elements (p : String) : List String := p.splitOn "/"

/-- Adds an element to cleaned ones, the last of which comes first. Nothing lies above the root. -/
def push (rooted : Bool) (done : List String) (e : String) : List String :=
  if e.isEmpty || e = "." then done
  else if e = ".." then
    match done with
    | d :: ds => if d = ".." then e :: done else ds
    | [] => if rooted then [] else [e]
  else e :: done

def isAbsolute (p : String) : Bool := p.toList.head? == some '/'

/-- The shortest path that names the same thing. -/
def clean (p : String) : String :=
  let body := "/".intercalate ((elements p).foldl (push (isAbsolute p)) []).reverse
  if isAbsolute p then "/" ++ body else if body.isEmpty then "." else body

/-- A path below another one. -/
def join (dir p : String) : String :=
  if dir.isEmpty && p.isEmpty then ""
  else if dir.isEmpty then clean p
  else if p.isEmpty then clean dir
  else clean s!"{dir}/{p}"

/-- A path from the root on, for one that may be relative to a directory. -/
def absolute (dir p : String) : String :=
  if isAbsolute p then clean p else join dir p

/-- The last element of a path. -/
def base (p : String) : String :=
  if p.isEmpty then "."
  else
    match (elements p).reverse.dropWhile String.isEmpty with
    | e :: _ => e
    | [] => "/"

/-- All but the last element of a path. -/
def dir (p : String) : String :=
  clean (String.ofList (p.toList.reverse.dropWhile (· != '/')).reverse)

/-- A path without the slashes at its end, unless it is made of slashes only. -/
def withoutSlashes (p : String) : String :=
  match p.toList.reverse.dropWhile (· == '/') with
  | [] => p
  | cs => String.ofList cs.reverse

/-- The paths that lead to a path: what stands before each of its elements but the first, and the path
itself. -/
def leading (p : String) : List String :=
  go [] p.toList
where
  /-- Goes on behind the characters `done`, the last of which comes first. -/
  go (done : List Char) : List Char → List String
    | [] => [String.ofList done.reverse]
    | c :: cs =>
      if c != '/' && done.head? == some '/' then String.ofList done.reverse :: go (c :: done) cs
      else go (c :: done) cs

end SubrLang.Path
