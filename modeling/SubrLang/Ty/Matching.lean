import SubrLang.Ty

/-!
# Matching types

Two types match when they are the same tree, where a type variable matches the type it is bound to,
or any type if it is not bound, which binds it. Bindings are kept from one comparison to the next, also
after one that failed on the way, until they are taken back.

Two variables are never compared: that is a clash. A type literal does not match a variable, although a
variable that stands first, or inside an array, matches a type literal.
-/

namespace SubrLang

/-- A comparison of two type variables. -/
inductive Clash where
  | twoVariables
deriving DecidableEq, Repr

def Clash.message : Clash → String
  | .twoVariables => "types: equality attempted between two type variables"

/-- What type variables are bound to. -/
abbrev Bindings := List (TyVar × Ty)

/-- A comparison reads and extends bindings and can end in a clash. -/
abbrev Matching := ExceptT Clash (StateM Bindings)

namespace Bindings

/-- The type that a variable is bound to. -/
def get? (b : Bindings) (v : TyVar) : Option Ty :=
  b.lookup v

/-- Takes back what a variable is bound to. -/
def reset (b : Bindings) (v : TyVar) : Bindings :=
  b.filter (·.1 != v)

/-- The number of constructors of all types bound. -/
def weight (b : Bindings) : Nat :=
  Ty.weights (b.map (·.2))

end Bindings

namespace Ty

/-- Whether two lists of types of one length match pair by pair; the first pair that does not ends the
comparison. -/
def matchPairs {m : Type → Type} [Monad m] (f : Ty → Ty → m Bool) : List Ty → List Ty → m Bool
  | p :: ps, q :: qs => do
    if ← f p q then matchPairs f ps qs else return false
  | _, _ => return true

/-- Whether a variable matches a type, where `f` compares the type it is bound to. -/
def matchVar (f : Ty → Ty → Matching Bool) (v : TyVar) (t : Ty) : Matching Bool := do
  match t with
  | var _ => throw .twoVariables
  | t =>
    match (← get).get? v with
    | some bound => f bound t
    | none =>
      modify ((v, t) :: ·)
      return true

/-- Whether two types match, looking at most `fuel` levels deep. -/
def matchesWith : (fuel : Nat) → Ty → Ty → Matching Bool
  | 0, _, _ => return false
  | fuel + 1, a, b =>
    match a, b with
    | var v, t => matchVar (matchesWith fuel) v t
    | literal s, literal t => matchesWith fuel s t
    | literal _, _ => return false
    | t, var v => matchVar (matchesWith fuel) v t
    | prim p, prim q => return p == q
    | array s, array t =>
      match s, t with
      | literal _, var v => matchVar (matchesWith fuel) v s
      | _, _ => matchesWith fuel s t
    | func ps r, func qs s =>
      if ps.length = qs.length then do
        if ← matchPairs (matchesWith fuel) ps qs then matchesWith fuel r s else return false
      else return false
    | _, _ => return false

/-- A number of levels that suffices for types of the given weights unless a variable is bound to a
type that it occurs in. -/
def matchFuel (a b : Ty) (bound : Bindings) : Nat :=
  let n := a.weight + b.weight + bound.weight + 2
  n * n + 1

/-- Whether two types match. -/
def matchesType (a b : Ty) : Matching Bool := do
  matchesWith (matchFuel a b (← get)) a b

/-- Whether two types without variables are the same. -/
def same (a b : Ty) : Bool :=
  match (matchesType a b).run.run [] with
  | (.ok r, _) => r
  | (.error _, _) => false

end Ty

end SubrLang
