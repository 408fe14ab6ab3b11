/-
  RpcSchema.Decimal.Binary64
  ──────────────────────────
  **64-bit floating point, as exact arithmetic on naturals.**

  A finite magnitude is `mantissa · 2 ^ exponent`.  Every operation is one
  exact rational followed by one rounding to the nearest such magnitude,
  ties to the even mantissa; what would exceed the largest one is `none`.

  Main statement: `roundHalfEven_error` — a rounded quotient is at most
  half a unit from the exact one.
-/

namespace RpcSchema.Decimal

/-! ## §1. Rounding a quotient. -/

/-- The natural nearest to `num / den`; of two equally near ones, the even one. -/
def roundHalfEven (num den : Nat) : Nat :=
  let q := num / den
  let r := num % den
  if 2 * r < den then q
  else if den < 2 * r then q + 1
  else q + q % 2

/-- Rounding is off by half a unit at most, in either direction. -/
theorem roundHalfEven_error (num : Nat) {den : Nat} (h : 0 < den) :
    2 * (roundHalfEven num den * den) ≤ 2 * num + den
      ∧ 2 * num ≤ 2 * (roundHalfEven num den * den) + den := by
  -- the quotient and its remainder, as `omega` can read them
  have hdiv := Nat.div_add_mod num den
  have hmod := Nat.mod_lt num h
  have hcomm : den * (num / den) = num / den * den := Nat.mul_comm _ _
  simp only [roundHalfEven]
  split
  · omega
  · split
    · rw [Nat.add_mul]; omega
    · rw [Nat.add_mul]
      rcases Nat.mod_two_eq_zero_or_one (num / den) with h2 | h2 <;> rw [h2] <;> omega

/-! ## §2. Magnitudes. -/

/-- A finite magnitude, `mantissa · 2 ^ exponent`. -/
structure Binary64 where
  mantissa : Nat
  exponent : Int
  deriving DecidableEq, Repr

namespace Binary64

/-- The exponent of the subnormal range. -/
def minExponent : Int := -1074

/-- The exponent of the largest magnitudes. -/
def maxExponent : Int := 971

/-- The least mantissa outside the subnormal range, `2 ^ 52`. -/
def hiddenBit : Nat := 4503599627370496

/-- The magnitude of zero. -/
def zero : Binary64 := ⟨0, minExponent⟩

/-- `2 ^ e` as a quotient of naturals. -/
def powTwo (e : Int) : Nat × Nat :=
  if 0 ≤ e then (Nat.pow 2 e.toNat, 1) else (1, Nat.pow 2 (-e).toNat)

/-- The magnitude nearest to `num / den`. -/
def ofRatio? (num den : Nat) : Option Binary64 :=
  if num = 0 then some zero
  else
    let guess : Int := (num.log2 : Int) - den.log2 - 52
    -- the guess is off by at most one: the significand has 53 bits
    let below := let (p, r) := powTwo guess; num * r / (den * p) < hiddenBit
    let e := max (if below then guess - 1 else guess) minExponent
    let (p, r) := powTwo e
    let m := roundHalfEven (num * r) (den * p)
    -- rounding can carry into one more bit
    let rounded : Binary64 := if m = 2 * hiddenBit then ⟨hiddenBit, e + 1⟩ else ⟨m, e⟩
    if maxExponent < rounded.exponent then none else some rounded

/-- The magnitude nearest to a natural number. -/
def ofNat? (n : Nat) : Option Binary64 :=
  ofRatio? n 1

/-- The rounded product. -/
def mul? (a b : Binary64) : Option Binary64 :=
  let (p, r) := powTwo (a.exponent + b.exponent)
  ofRatio? (a.mantissa * b.mantissa * p) r

/-- The rounded quotient by a magnitude that is not zero. -/
def div? (a b : Binary64) : Option Binary64 :=
  let (p, r) := powTwo (a.exponent - b.exponent)
  ofRatio? (a.mantissa * p) (b.mantissa * r)

/-- The magnitude nearest to `10 ^ k`. -/
def powTen? (k : Nat) : Option Binary64 :=
  ofNat? (Nat.pow 10 k)

end Binary64

end RpcSchema.Decimal
