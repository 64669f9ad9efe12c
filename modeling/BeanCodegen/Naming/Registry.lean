import BeanCodegen.Naming.Reserved
/-! # Name registries

A registry hands out names that are unique within one scope. Claiming a name that is free takes
it as it is; claiming one that is taken appends the least positive number that gives a free
name. Among `n + 1` numbered candidates at most `n` are taken, so the search is bounded by the
number of names taken.
-/

namespace BeanCodegen.Naming

/-- The names taken in one scope. -/
structure Registry where
  taken : List String
  deriving Inhabited

namespace Registry

/-- A registry with no name taken. -/
def empty : Registry := ⟨[]⟩

/-- Adds names to the taken ones. -/
def reserve (r : Registry) (names : List String) : Registry := ⟨names.reverse ++ r.taken⟩

/-- A registry where the Java keywords and builtin class names are taken. -/
def withReserved : Registry := empty.reserve (javaKeywords ++ builtinTypes)

/-- Whether a name is taken. -/
def contains (r : Registry) (name : String) : Bool := r.taken.contains name

/-- The first of `base ++ n`, `base ++ (n + 1)`, … that is not taken, trying `fuel` numbers. -/
def numberedFrom (r : Registry) (base : String) : Nat → Nat → String
  | 0, n => base ++ toString n
  | fuel + 1, n =>
    let name := base ++ toString n
    if r.contains name then r.numberedFrom base fuel (n + 1) else name

/-- The name a claim of `base` gives: `base` itself when free, else `base` followed by the
least positive number that makes it free. -/
def fresh (r : Registry) (base : String) : String :=
  if r.contains base then r.numberedFrom base r.taken.length 1 else base

/-- Claims a name: returns the name given and the registry where it is taken. -/
def claim (r : Registry) (base : String) : String × Registry :=
  let name := r.fresh base
  (name, ⟨name :: r.taken⟩)

end Registry

end BeanCodegen.Naming
