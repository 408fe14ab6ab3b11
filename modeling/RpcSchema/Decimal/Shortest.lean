/-
  RpcSchema.Decimal.Shortest
  ──────────────────────────
  **The shortest decimal that reads back.**

  A decimal reads back as a magnitude when it lies in the interval of
  reals that round to it, ends included exactly if the mantissa is even.
  On the grid of multiples of `10 ^ k` only the two neighbours of the
  magnitude can lie in that interval; the coarsest grid with a hit wins,
  of two hits the nearer, of two equally near the even one.

  The text is positional from `1e-5` up to `1e16`, with at least one
  fraction digit, and scientific outside, with an explicit sign in front
  of the exponent.
-/
import RpcSchema.Decimal.Binary64

namespace RpcSchema.Decimal

/-! ## §1. Digits. -/

/-- A decimal, `digits · 10 ^ exponent`. -/
structure Digits where
  digits : Nat
  exponent : Int
  deriving DecidableEq, Repr

/-- `10 ^ k` as a quotient of naturals. -/
def powTen (k : Int) : Nat × Nat :=
  if 0 ≤ k then (Nat.pow 10 k.toNat, 1) else (1, Nat.pow 10 (-k).toNat)

/-- The neighbour of `x` on the grid `10 ^ k` that reads back as `x`, if there is one. -/
def hitOnGrid (x : Binary64) (k : Int) : Option Nat :=
  let (two, perTwo) := Binary64.powTwo (x.exponent - 2)
  let (ten, perTen) := powTen k
  -- quarter units of `x` and multiples of `10 ^ k`, over one denominator
  let quarters := fun n => n * two * perTen
  let grid := fun c => c * ten * perTwo
  let value := quarters (4 * x.mantissa)
  let low := quarters
    (if x.mantissa = Binary64.hiddenBit ∧ Binary64.minExponent < x.exponent
      then 4 * x.mantissa - 1 else 4 * x.mantissa - 2)
  let high := quarters (4 * x.mantissa + 2)
  let reads := fun c =>
    if x.mantissa % 2 = 0 then low ≤ grid c && grid c ≤ high
    else low < grid c && grid c < high
  let down := value / grid 1
  match reads down, reads (down + 1) with
  | true, false => some down
  | false, true => some (down + 1)
  | false, false => none
  | true, true =>
    let toDown := value - grid down
    let toUp := grid (down + 1) - value
    if toDown < toUp then some down
    else if toUp < toDown then some (down + 1)
    else some (down + down % 2)

/-- The exponents of the grids, from coarse to fine: no magnitude needs more. -/
def gridExponents : List Int :=
  (List.range 660).map fun (i : Nat) => (310 : Int) - i

/-- The shortest decimal that reads back as `x`, for `x` other than zero. -/
def shortest (x : Binary64) : Digits :=
  match gridExponents.findSome? fun k => (hitOnGrid x k).map fun c => Digits.mk c k with
  | some d => d
  | none => ⟨0, 0⟩

/-! ## §2. Text. -/

/-- The decimal digits of a natural number. -/
def digitChars (n : Nat) : List Char :=
  (toString n).toList

/-- The text of `0.d₁d₂… · 10 ^ point`. -/
def layout (ds : List Char) (point : Int) : List Char :=
  -- far from the point, so in exponent form
  if point < -4 ∨ 16 < point then
    let e := point - 1
    let fraction := if ds.length ≤ 1 then [] else '.' :: ds.drop 1
    ds.take 1 ++ fraction ++ ['e', if e < 0 then '-' else '+'] ++ digitChars e.natAbs
  -- the point stands in front of all digits
  else if point ≤ 0 then
    ['0', '.'] ++ List.replicate (-point).toNat '0' ++ ds
  else
    let whole := point.toNat
    if ds.length ≤ whole then
      ds ++ List.replicate (whole - ds.length) '0' ++ ['.', '0']
    else ds.take whole ++ ['.'] ++ ds.drop whole

/-- The text of a magnitude. -/
def Binary64.text (x : Binary64) : String :=
  if x.mantissa = 0 then "0.0"
  else
    let d := shortest x
    let ds := digitChars d.digits
    String.ofList (layout ds (ds.length + d.exponent))

end RpcSchema.Decimal
