/-! # Qualified names

  The qualified name of a declaration lists the identifiers on the way from its
  root, which itself is not named, and joins them by dots. The same rule serves the
  table of a compilation and the flat list of an object file, which is why it is
  stated over a lookup of identifiers and owners.
-/

namespace StateScript

/-- Identifiers from the root down to `id`, following at most `steps` owners. -/
def scopePath (lookup : Nat → Option (String × Option Nat)) : Nat → Nat → List String
  | 0, _ => []
  | steps + 1, id =>
    match lookup id with
    | some (identifier, some owner) => scopePath lookup steps owner ++ [identifier]
    | _ => []

/-- Identifiers from the root down to `id`, joined by dots. -/
def qualifiedName (lookup : Nat → Option (String × Option Nat)) (steps id : Nat) : String :=
  String.intercalate "." (scopePath lookup steps id)

end StateScript
