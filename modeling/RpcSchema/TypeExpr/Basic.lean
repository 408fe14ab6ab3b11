/-
  RpcSchema.TypeExpr.Basic
  ────────────────────────
  **Type expressions, and the faults of their texts.**

      expr := "..." expr              outermost only
            | "*" expr | "[" "]" expr | "map" "[" expr "]" expr
            | "interface" "{" "}"
            | name | name "." name

  Blanks may stand before every token but the dot, and after the last one.
-/

namespace RpcSchema

/-- A type as it is written. -/
inductive TypeExpr where
  | unqualified (name : String)
  | qualified (package name : String)
  | pointer (elem : TypeExpr)
  | slice (elem : TypeExpr)
  | map (key value : TypeExpr)
  | emptyInterface
  | variadic (elem : TypeExpr)
  deriving DecidableEq, Repr

namespace TypeExpr

/-- The name an embedded field of this type has: that of a possibly qualified name under any
number of pointers. -/
def baseName? : TypeExpr → Option String
  | .unqualified name => some name
  | .qualified _ name => some name
  | .pointer elem => elem.baseName?
  | _ => none

/-- What is wrong with a type expression, or with the place it stands in. -/
inductive Fault where
  | trailingInput
  | nestedVariadic
  | fixedSizeArray
  | expectedName
  | expectedKeyOpening
  | expectedKeyClosing
  | inlineInterface
  | embeddedShape
  | variadicOutsideParameters
  deriving DecidableEq, Repr

/-- The wording of a fault. -/
def Fault.message : Fault → String
  | .trailingInput => "unexpected trailing input"
  | .nestedVariadic => "`...` is only allowed on a parameter type"
  | .fixedSizeArray => "fixed-size arrays are not supported"
  | .expectedName => "expected a type name"
  | .expectedKeyOpening => "expected `[` after `map`"
  | .expectedKeyClosing => "expected `]` after map key"
  | .inlineInterface => "only the empty interface can be written inline"
  | .embeddedShape => "embedded field must name a type"
  | .variadicOutsideParameters => "`...` is only allowed on the last parameter"

end TypeExpr

end RpcSchema
