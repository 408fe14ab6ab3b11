/-
  RpcSchema.Conversion.Scalar
  ───────────────────────────
  **Basic kinds and their scalars.**

  Schema text has no integers of 8 or 16 bits: a narrow integer widens to
  the 32-bit scalar of its signedness.  Pointer-sized and complex numbers
  have no scalar.
-/
import RpcSchema.Pool.Entry

namespace RpcSchema

/-- The scalar of a basic kind. -/
def BasicKind.scalar? : BasicKind → Option Scalar
  | .bool => some .bool
  | .string => some .string
  | .int | .int8 | .int16 | .int32 => some .int32
  | .uint | .uint8 | .uint16 | .uint32 => some .uint32
  | .int64 => some .int64
  | .uint64 => some .uint64
  | .float32 => some .float
  | .float64 => some .double
  | .uintptr | .complex64 | .complex128 | .unsafePointer => none

/-- Four basic kinds have no scalar: words that hold an address, and complex numbers. -/
theorem BasicKind.scalar?_eq_none_iff {kind : BasicKind} :
    kind.scalar? = none ↔
      kind = .uintptr ∨ kind = .complex64 ∨ kind = .complex128 ∨ kind = .unsafePointer := by
  cases kind <;> decide

end RpcSchema
