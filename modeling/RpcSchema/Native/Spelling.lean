/-
  RpcSchema.Native.Spelling
  ─────────────────────────
  **How a native type is written.**

  A named type is written with the last segment of its package path in
  front, a builtin one alone.  Of the methods of an unnamed interface only
  the names are written.

  Every id inside an unnamed shape is older than the shape, so a budget of
  one step per entry is never used up.
-/
import RpcSchema.Native.Universe

namespace RpcSchema

/-- The part of a package path after its last slash. -/
def lastSegment (path : String) : String :=
  String.ofList (path.toList.reverse.takeWhile (· ≠ '/')).reverse

namespace Universe

/-- The spelling of a type, unfolding at most `n` levels. -/
def spellWithin (u : Universe) : Nat → NativeId → String
  | _, .undefined => "<undefined>"
  | 0, .entry _ => ""
  | n + 1, .entry i =>
    match u.kind (.entry i) with
    | .basic kind => kind.name
    | .named decl =>
      match decl.package with
      | some package => lastSegment package ++ "." ++ decl.name
      | none => decl.name
    | .pointer elem => "*" ++ u.spellWithin n elem
    | .slice elem => "[]" ++ u.spellWithin n elem
    | .map key value => "map[" ++ u.spellWithin n key ++ "]" ++ u.spellWithin n value
    | .interface shape =>
      -- an interface that lists nothing holds anything
      if shape.methods.isEmpty && shape.embedded.isEmpty then "interface\x7b\x7d"
      else
        let parts := shape.embedded.map (u.spellWithin n) ++ shape.methods.map (·.name ++ "()")
        "interface\x7b " ++ String.intercalate "; " parts ++ " \x7d"
    | .struct fields =>
      let part := fun (f : Field) =>
        (if f.embedded then "" else f.name ++ " ") ++ u.spellWithin n f.type
      "struct\x7b" ++ String.intercalate "; " (fields.map part) ++ "\x7d"
    | .tuple elems => "(" ++ String.intercalate ", " (elems.map (u.spellWithin n)) ++ ")"

/-- The spelling of a type. -/
def spell (u : Universe) (id : NativeId) : String :=
  u.spellWithin (u.size + 1) id

/-- The type that is not there has a spelling, too. -/
@[simp] theorem spell_undefined (u : Universe) : u.spell .undefined = "<undefined>" := rfl

end Universe

end RpcSchema
