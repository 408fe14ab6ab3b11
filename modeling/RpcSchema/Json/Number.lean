/-
  RpcSchema.Json.Number
  ─────────────────────
  **Reading a number.**

  The significand takes digits as long as it fits 64 bits.  A whole part
  without fraction and exponent that fits is an integer.  Everything else
  is a float: the rounded significand, scaled by a rounded power of ten in
  one multiplication, or in divisions by at most `1e308` each.  Digits
  beyond 64 bits are dropped, those of the whole part after raising the
  exponent, and a result beyond the largest float is a fault.

  Each reader returns the value together with the text after it.
-/
import RpcSchema.Json.Value
import RpcSchema.Text.Letter

namespace RpcSchema.Json.Number

open Decimal (Binary64)
open Text (isAsciiDigit)

/-! ## §1. Digits. -/

/-- The value of a decimal digit. -/
def digitValue (c : Char) : Nat :=
  c.toNat - 48

/-- The largest significand, `2 ^ 64 - 1`. -/
def maxSignificand : Nat := 18446744073709551615

/-- The largest magnitude of a negative integer, `2 ^ 63`. -/
def maxNegative : Nat := 9223372036854775808

/-- The largest exponent that is read as a number, `2 ^ 31 - 1`. -/
def maxWrittenExponent : Nat := 2147483647

/-- A significand with its power of ten, and the text after it. -/
structure Scan where
  significand : Nat
  exponent : Int
  rest : List Char
  deriving DecidableEq, Repr

/-- Takes digits of the whole part while they fit; each later one raises the exponent. -/
def wholePart (significand : Nat) : List Char → Scan
  | [] => ⟨significand, 0, []⟩
  | c :: cs =>
    if isAsciiDigit c then
      let next := significand * 10 + digitValue c
      if next ≤ maxSignificand then wholePart next cs
      else
        -- digits beyond 64 bits only count for the scale
        let dropped := (c :: cs).takeWhile isAsciiDigit
        ⟨significand, dropped.length, (c :: cs).dropWhile isAsciiDigit⟩
    else ⟨significand, 0, c :: cs⟩

/-- Takes digits of the fraction while they fit, each lowering the exponent; later ones are
dropped. -/
def fractionPart (significand : Nat) (exponent : Int) : List Char → Scan
  | [] => ⟨significand, exponent, []⟩
  | c :: cs =>
    if isAsciiDigit c then
      let next := significand * 10 + digitValue c
      if next ≤ maxSignificand then fractionPart next (exponent - 1) cs
      else ⟨significand, exponent, (c :: cs).dropWhile isAsciiDigit⟩
    else ⟨significand, exponent, c :: cs⟩

/-! ## §2. Scaling. -/

/-- The largest power of ten used in one step. -/
def stepExponent : Nat := 308

/-- The magnitude of `x · 10 ^ k`, if it is finite. -/
def scaleUp (x : Binary64) (k : Nat) : Option Binary64 :=
  if x.mantissa = 0 then some x
  else if k ≤ stepExponent then do (x.mul? (← Binary64.powTen? k)) else none

/-- `x / 10 ^ k`, dividing by at most `10 ^ 308` at a time. -/
def scaleDown (x : Binary64) (k : Nat) : Binary64 :=
  let dividedBy (j : Nat) := ((Binary64.powTen? j).bind x.div?).getD Binary64.zero
  if k ≤ stepExponent then dividedBy k
  else if x.mantissa = 0 then x
  else scaleDown (dividedBy stepExponent) (k - stepExponent)
termination_by k
decreasing_by simp only [stepExponent] at *; omega

/-- The float `significand · 10 ^ exponent`. -/
def ofParts (isNegative : Bool) (significand : Nat) (exponent : Int) : Except Fault Number :=
  let x := (Binary64.ofNat? significand).getD Binary64.zero
  if 0 ≤ exponent then
    match scaleUp x exponent.toNat with
    | some y => .ok (.float isNegative y)
    | none => .error .numberOutOfRange
  else .ok (.float isNegative (scaleDown x (-exponent).toNat))

/-! ## §3. The number. -/

/-- The value of a run of digits. -/
def digitsValue (cs : List Char) : Nat :=
  cs.foldl (fun n c => n * 10 + digitValue c) 0

/-- Reads what follows an exponent mark. -/
def exponentPart (isNegative : Bool) (scan : Scan) : Except Fault (Number × List Char) := do
  let (down, cs) := match scan.rest with
    | '+' :: cs => (false, cs)
    | '-' :: cs => (true, cs)
    | cs => (false, cs)
  let digits := cs.takeWhile isAsciiDigit
  let rest := cs.dropWhile isAsciiDigit
  if digits.isEmpty then
    throw (if rest.isEmpty then .unexpectedEnd else .invalidNumber)
  let e := digitsValue digits
  if e ≤ maxWrittenExponent then
    let exponent := if down then scan.exponent - e else scan.exponent + e
    return (← ofParts isNegative scan.significand exponent, rest)
  -- beyond any scale: out of range, or zero
  else if scan.significand ≠ 0 ∧ down = false then
    throw .numberOutOfRange
  else return (.float isNegative Binary64.zero, rest)

/-- Reads an exponent, if one follows, and scales. -/
def finish (isNegative : Bool) (scan : Scan) : Except Fault (Number × List Char) :=
  match scan.rest with
  | 'e' :: cs | 'E' :: cs => exponentPart isNegative { scan with rest := cs }
  | cs => do return (← ofParts isNegative scan.significand scan.exponent, cs)

/-- An integer with its sign: zero has no negative, and neither has what exceeds 64 bits. -/
def ofWhole (isNegative : Bool) (n : Nat) : Number :=
  if !isNegative then .natural n
  else if 1 ≤ n ∧ n ≤ maxNegative then .negative n
  else .float true ((Binary64.ofNat? n).getD Binary64.zero)

/-- Reads a number after its sign. -/
def readUnsigned (isNegative : Bool) : List Char → Except Fault (Number × List Char)
  | [] => .error .unexpectedEnd
  | c :: cs =>
    if !isAsciiDigit c then .error .invalidNumber
    -- no leading zero before another digit
    else if c = '0' ∧ (cs.head?.map isAsciiDigit).getD false then .error .invalidNumber
    else
      let scan := wholePart 0 (c :: cs)
      match scan.rest with
      | '.' :: rest =>
        match rest with
        | [] => .error .unexpectedEnd
        | d :: _ =>
          if isAsciiDigit d then
            finish isNegative (fractionPart scan.significand scan.exponent rest)
          else .error .invalidNumber
      | 'e' :: _ | 'E' :: _ => finish isNegative scan
      | rest =>
        if scan.exponent = 0 then .ok (ofWhole isNegative scan.significand, rest)
        else finish isNegative scan

/-- Reads a number, a leading minus sign included. -/
def read : List Char → Except Fault (Number × List Char)
  | '-' :: cs => readUnsigned true cs
  | cs => readUnsigned false cs

end RpcSchema.Json.Number
