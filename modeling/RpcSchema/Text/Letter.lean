/-
  RpcSchema.Text.Letter
  ─────────────────────
  **Letter classes, and the lowercase mapping.**

  ASCII is decided by range, everything above by the runs of
  `RpcSchema.Text.CaseTable`.  A name is exported when its first character
  is a capital letter, an identifier is made of word characters, and names
  of alternatives are written in snake case, which needs the full
  lowercase mapping.
-/
import RpcSchema.Text.CaseTable

namespace RpcSchema.Text

/-! ## §1. Classes. -/

/-- The Uppercase property. -/
def isUpper (c : Char) : Bool :=
  if c.toNat < 0x80 then 'A' ≤ c && c ≤ 'Z' else inRuns upperRuns c.toNat

/-- The Lowercase property. -/
def isLower (c : Char) : Bool :=
  if c.toNat < 0x80 then 'a' ≤ c && c ≤ 'z' else inRuns lowerRuns c.toNat

/-- The digits `0` to `9`. -/
def isAsciiDigit (c : Char) : Bool :=
  '0' ≤ c && c ≤ '9'

/-- Letters and numbers of any script. -/
def isAlphanumeric (c : Char) : Bool :=
  if c.toNat < 0x80 then
    ('A' ≤ c && c ≤ 'Z') || ('a' ≤ c && c ≤ 'z') || isAsciiDigit c
  else inRuns alphanumericRuns c.toNat

/-- The characters an identifier is made of. -/
def isWordChar (c : Char) : Bool :=
  isAlphanumeric c || c == '_'

/-! ## §2. The lowercase mapping. -/

/-- The lowercase of a character: the capital dotted I alone has two characters. -/
def toLower (c : Char) : List Char :=
  let n := c.toNat
  if n < 0x80 then
    [c.toLower]
  -- the dotted capital I is the only letter with two lowercase characters
  else if n = 0x130 then ['i', '\u0307']
  else
    match lowercaseShifts.find? (·.1.contains n) with
    | some (_, shift) => [Char.ofNat (n + shift).toNat]
    | none => [c]

/-- A character has a small form of one character at least. -/
theorem toLower_ne_nil (c : Char) : toLower c ≠ [] := by
  simp only [toLower]
  split
  · simp
  · split
    · simp
    · split <;> simp

/-- A first character is a capital letter: the name is visible outside its package. -/
def isExported (name : String) : Bool :=
  match name.toList with
  | [] => false
  | c :: _ => isUpper c

/-! ## §3. Snake case. -/

/-- A word starts at the capital `c` when a small letter or a digit stands before it, or when
it is the last capital of a run of capitals. -/
def startsWord (before c : Char) (after : Option Char) : Bool :=
  isUpper c
    && (isLower before || isAsciiDigit before
        || (isUpper before && (after.map isLower).getD false))

/-- `HTTPServer` becomes `http_server`, `Circle` becomes `circle`. -/
def snakeCase (name : String) : String :=
  match name.toList with
  | [] => ""
  | c :: rest => String.ofList (toLower c ++ go c rest)
where
  /-- The words after a character `before` of the name. -/
  go (before : Char) : List Char → List Char
    | [] => []
    | c :: rest =>
      (if startsWord before c rest.head? then ['_'] else []) ++ toLower c ++ go c rest

end RpcSchema.Text
