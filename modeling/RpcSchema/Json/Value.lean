/-
  RpcSchema.Json.Value
  ────────────────────
  **Structured text as a value, and what can be wrong with it.**

  An object keeps its entries in writing order, repeated keys included:
  whether a repetition is allowed is for the reader of the record to say.
  A number that fits 64 bits is an integer, every other one a 64-bit
  float.
-/
import RpcSchema.Decimal.Shortest

namespace RpcSchema

open Decimal (Binary64)

/-! ## §1. Values. -/

/-- A number: an integer of at most 64 bits, or a float. -/
inductive Json.Number where
  /-- A natural number below `2 ^ 64`. -/
  | natural (n : Nat)
  /-- The negative of a number from `1` to `2 ^ 63`. -/
  | negative (n : Nat)
  | float (isNegative : Bool) (magnitude : Binary64)
  deriving DecidableEq, Repr

/-- The text a number is kept as: an integer as written, a float by its shortest decimal. -/
def Json.Number.text : Json.Number → String
  | .natural n => toString n
  | .negative n => "-" ++ toString n
  | .float isNegative x => (if isNegative then "-" else "") ++ x.text

/-- A structured value. -/
inductive Json where
  | null
  | bool (b : Bool)
  | number (n : Json.Number)
  | text (s : String)
  | array (items : List Json)
  | object (entries : List (String × Json))
  deriving Repr

/-! ## §2. Faults. -/

/-- What is wrong with a structured text, or with the record it holds. -/
inductive Json.Fault where
  | unexpectedEnd
  | unexpectedCharacter (c : Char)
  | controlCharacter
  | invalidEscape
  | loneSurrogate
  | invalidNumber
  | numberOutOfRange
  | trailingText
  | wrongShape (expected : String)
  | unknownKey (key : String)
  | repeatedKey (key : String)
  | missingKey (key : String)
  deriving DecidableEq, Repr

/-- The wording of a fault. -/
def Json.Fault.message : Json.Fault → String
  | .unexpectedEnd => "the text ends inside a value"
  | .unexpectedCharacter c => "unexpected character " ++ String.ofList ['\'', c, '\'']
  | .controlCharacter => "control character inside a string"
  | .invalidEscape => "invalid escape"
  | .loneSurrogate => "lone surrogate in an escape"
  | .invalidNumber => "invalid number"
  | .numberOutOfRange => "number out of range"
  | .trailingText => "text after the value"
  | .wrongShape expected => "expected " ++ expected
  | .unknownKey key => "unknown key `" ++ key ++ "`"
  | .repeatedKey key => "repeated key `" ++ key ++ "`"
  | .missingKey key => "missing key `" ++ key ++ "`"

end RpcSchema
