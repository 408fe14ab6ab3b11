/-
  RpcSchema.Json.Record
  ─────────────────────
  **Records with a fixed set of keys.**

  A record is written as an object, in which no key may be unknown or
  repeated, or as a list of its fields in their fixed order, of which
  trailing ones may be left off.  `Json.slots keys` brings both spellings
  to one list of optional values, aligned with `keys`; the decoders of
  this module read a slot.
-/
import RpcSchema.Json.Value

namespace RpcSchema.Json

/-! ## §1. Slots. -/

/-- The value of a key. -/
def valueOf (entries : List (String × Json)) (key : String) : Option Json :=
  entries.lookup key

/-- The first entry whose key is not among `keys`, or is repeated by a later entry. -/
def checkKeys (keys : List String) : List (String × Json) → Except Fault Unit
  | [] => .ok ()
  | (key, _) :: rest =>
    if !keys.contains key then .error (.unknownKey key)
    else if rest.any (·.1 == key) then .error (.repeatedKey key)
    else checkKeys keys rest

/-- The values of a record, aligned with `keys`. -/
def slots (keys : List String) : Json → Except Fault (List (Option Json))
  | .object entries => do
    checkKeys keys entries
    return keys.map (valueOf entries)
  -- a list fills the slots from the front
  | .array items =>
    if items.length ≤ keys.length then
      .ok (items.map some ++ List.replicate (keys.length - items.length) none)
    else .error (.wrongShape "a shorter list")
  | _ => .error (.wrongShape "a record")

/-- The slot of the `i`-th key. -/
def slot (values : List (Option Json)) (i : Nat) : Option Json :=
  (values[i]?).getD none

/-- A record that is accepted has a slot for each of its keys. -/
theorem length_slots {keys : List String} {j : Json} {values : List (Option Json)}
    (h : slots keys j = .ok values) : values.length = keys.length := by
  cases j with
  | object entries =>
    simp only [slots] at h
    -- with keys that pass the check there is a slot for each key
    cases hc : checkKeys keys entries with
    | error e => rw [hc] at h; cases h
    | ok u => rw [hc] at h; cases h; simp
  | array items =>
    simp only [slots] at h
    -- an array has to be as long as the list of keys
    split at h
    · cases h; simp; omega
    · cases h
  | _ => simp [slots] at h

/-! ## §2. Decoders. -/

/-- Decodes a string. -/
def asText : Json → Except Fault String
  | .text s => .ok s
  | _ => .error (.wrongShape "a string")

/-- Decodes a boolean. -/
def asBool : Json → Except Fault Bool
  | .bool b => .ok b
  | _ => .error (.wrongShape "a boolean")

/-- A list whose items are read by `item`. -/
def asList {α : Type} (item : Json → Except Fault α) : Json → Except Fault (List α)
  | .array items => items.mapM item
  | _ => .error (.wrongShape "a list")

/-- An object of strings; a repeated key is allowed here. -/
def asTexts : Json → Except Fault (List (String × String))
  | .object entries => entries.mapM fun e => do return (e.1, ← asText e.2)
  | _ => .error (.wrongShape "an object of strings")

/-- A slot that must hold a value. -/
def required {α : Type} (key : String) (decode : Json → Except Fault α) :
    Option Json → Except Fault α
  | some j => decode j
  | none => .error (.missingKey key)

/-- A slot that may be left off or hold `null`. -/
def optional {α : Type} (decode : Json → Except Fault α) :
    Option Json → Except Fault (Option α)
  | none | some .null => .ok none
  | some j => some <$> decode j

/-- A slot with a default: `null` is not a way to leave it off. -/
def defaulted {α : Type} (default : α) (decode : Json → Except Fault α) :
    Option Json → Except Fault α
  | none => .ok default
  | some j => decode j

end RpcSchema.Json
