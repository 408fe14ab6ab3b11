/-
  RpcSchema.Json.Reader
  ─────────────────────
  **Reading structured text.**

  The grammar is the strict one: blanks are the space, the tab, the line
  feed and the carriage return, no comma may trail, no control character
  may stand in a string, an escaped surrogate needs its partner, and
  nothing may follow the value.

  The readers take a depth budget; `Json.read` grants two steps per
  character, and every two steps consume one.
-/
import RpcSchema.Json.Number

namespace RpcSchema.Json

/-! ## §1. Blanks and strings. -/

/-- The blanks between tokens. -/
def isSpace (c : Char) : Bool :=
  c = ' ' || c = '\n' || c = '\t' || c = '\r'

/-- The text without the blanks in front. -/
def skipSpace (cs : List Char) : List Char :=
  cs.dropWhile isSpace

/-- The value of a hexadecimal digit. -/
def hexValue (c : Char) : Option Nat :=
  if '0' ≤ c && c ≤ '9' then some (c.toNat - 48)
  else if 'a' ≤ c && c ≤ 'f' then some (c.toNat - 87)
  else if 'A' ≤ c && c ≤ 'F' then some (c.toNat - 55)
  else none

/-- The value of four hexadecimal digits. -/
def hexUnit (a b c d : Char) : Option Nat := do
  return (((← hexValue a) * 16 + (← hexValue b)) * 16 + (← hexValue c)) * 16 + (← hexValue d)

/-- The character of a one-letter escape. -/
def simpleEscape : Char → Option Char
  | '"' => some '"'
  | '\\' => some '\\'
  | '/' => some '/'
  | 'b' => some '\x08'
  | 'f' => some '\x0c'
  | 'n' => some '\n'
  | 'r' => some '\r'
  | 't' => some '\t'
  | _ => none

/-- The first half of a pair that stands for one character. -/
def isHighSurrogate (n : Nat) : Bool := 0xD800 ≤ n && n < 0xDC00

/-- The second half of such a pair. -/
def isLowSurrogate (n : Nat) : Bool := 0xDC00 ≤ n && n < 0xE000

/-- Reads the inside of a string up to its closing quote; `acc` holds the characters read so
far, last one first. -/
def readString (acc : List Char) : List Char → Except Fault (String × List Char)
  | [] => .error .unexpectedEnd
  | '"' :: rest => .ok (String.ofList acc.reverse, rest)
  | '\\' :: 'u' :: a :: b :: c :: d :: rest =>
    match hexUnit a b c d with
    | none => .error .invalidEscape
    | some high =>
      -- the second half of a pair never comes first
      if isLowSurrogate high then .error .loneSurrogate
      else if isHighSurrogate high then
        match rest with
        | '\\' :: 'u' :: e :: f :: g :: h :: rest =>
          match hexUnit e f g h with
          | none => .error .invalidEscape
          | some low =>
            if isLowSurrogate low then
              let code := 0x10000 + (high - 0xD800) * 0x400 + (low - 0xDC00)
              readString (Char.ofNat code :: acc) rest
            else .error .loneSurrogate
        | _ => .error .loneSurrogate
      else readString (Char.ofNat high :: acc) rest
  | '\\' :: c :: rest =>
    match simpleEscape c with
    | some d => readString (d :: acc) rest
    | none => .error .invalidEscape
  | c :: rest =>
    -- a backslash with nothing after it
    if c = '\\' then .error .unexpectedEnd
    else if c.toNat < 0x20 then .error .controlCharacter
    else readString (c :: acc) rest

/-! ## §2. Values. -/

/-- Consumes a fixed word. -/
def readWord (word : List Char) (value : Json) (cs : List Char) :
    Except Fault (Json × List Char) :=
  if word.isPrefixOf cs then .ok (value, cs.drop word.length)
  else .error (match cs with
    | [] => .unexpectedEnd
    | c :: _ => .unexpectedCharacter c)

/-- The fault of meeting `cs` where something else is needed. -/
def unexpected : List Char → Fault
  | [] => .unexpectedEnd
  | c :: _ => .unexpectedCharacter c

mutual

/-- Reads one value. -/
def readValue : Nat → List Char → Except Fault (Json × List Char)
  | 0, _ => .error .unexpectedEnd
  | k + 1, cs =>
    match skipSpace cs with
    | [] => .error .unexpectedEnd
    | '"' :: rest => do
      let (s, rest) ← readString [] rest
      return (.text s, rest)
    | '[' :: rest =>
      match skipSpace rest with
      | ']' :: rest => .ok (.array [], rest)
      | rest => do
        let (items, rest) ← readItems k rest
        return (.array items, rest)
    | '\x7b' :: rest =>
      match skipSpace rest with
      | '\x7d' :: rest => .ok (.object [], rest)
      | rest => do
        let (entries, rest) ← readEntries k rest
        return (.object entries, rest)
    -- the three words of the grammar
    | 'n' :: rest => readWord ['n', 'u', 'l', 'l'] .null ('n' :: rest)
    | 't' :: rest => readWord ['t', 'r', 'u', 'e'] (.bool true) ('t' :: rest)
    | 'f' :: rest => readWord ['f', 'a', 'l', 's', 'e'] (.bool false) ('f' :: rest)
    | c :: rest =>
      if c = '-' || Text.isAsciiDigit c then do
        let (n, rest) ← Number.read (c :: rest)
        return (.number n, rest)
      else .error (.unexpectedCharacter c)

/-- Reads the items of a list that has at least one, up to the closing bracket. -/
def readItems : Nat → List Char → Except Fault (List Json × List Char)
  | 0, _ => .error .unexpectedEnd
  | n + 1, cs => do
    let (item, rest) ← readValue n cs
    match skipSpace rest with
    | ']' :: rest => return ([item], rest)
    | ',' :: rest =>
      let (items, rest) ← readItems n rest
      return (item :: items, rest)
    | rest => throw (unexpected rest)

/-- Reads the entries of an object that has at least one, up to the closing brace. -/
def readEntries : Nat → List Char → Except Fault (List (String × Json) × List Char)
  | 0, _ => .error .unexpectedEnd
  | n + 1, cs =>
    match skipSpace cs with
    | '"' :: rest => do
      let (key, rest) ← readString [] rest
      match skipSpace rest with
      | ':' :: rest =>
        let (value, rest) ← readValue n rest
        match skipSpace rest with
        | '\x7d' :: rest => return ([(key, value)], rest)
        | ',' :: rest =>
          let (entries, rest) ← readEntries n rest
          return ((key, value) :: entries, rest)
        | rest => throw (unexpected rest)
      | rest => throw (unexpected rest)
    | rest => .error (unexpected rest)

end

/-- Reads a text that holds one value and nothing else. -/
def read (s : String) : Except Fault Json := do
  let (value, rest) ← readValue (2 * s.length + 2) s.toList
  if (skipSpace rest).isEmpty then return value else throw .trailingText

end RpcSchema.Json
