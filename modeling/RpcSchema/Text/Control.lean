/-
  RpcSchema.Text.Control
  ──────────────────────
  **A literal kept on one line.**

  A member's literal stands in a line comment, so its control characters
  are written as escapes: the tab, the line feed and the carriage return
  by a letter, the others by their hexadecimal code point.

  Main statement: `singleLine_no_control` — no control character, hence
  no line end, is left.
-/

namespace RpcSchema.Text

/-- The control characters U+0000 to U+001F and U+007F to U+009F. -/
def isControl (c : Char) : Bool :=
  c.toNat < 0x20 || (0x7F ≤ c.toNat && c.toNat < 0xA0)

/-- One hexadecimal digit, in small letters. -/
def hexDigit (n : Nat) : Char :=
  if n < 10 then Char.ofNat (48 + n) else Char.ofNat (87 + n)

/-- The hexadecimal digits of a code below 256, without a leading zero. -/
def hexByte (n : Nat) : List Char :=
  if n < 16 then [hexDigit n] else [hexDigit (n / 16), hexDigit (n % 16)]

/-- A character as it stands in a line comment. -/
def escapeControl (c : Char) : List Char :=
  if c = '\t' then ['\\', 't']
  else if c = '\n' then ['\\', 'n']
  else if c = '\r' then ['\\', 'r']
  else if isControl c then ['\\', 'u', '\x7b'] ++ hexByte c.toNat ++ ['\x7d']
  else [c]

/-- A text with its control characters escaped. -/
def singleLine (s : String) : String :=
  String.ofList (s.toList.flatMap escapeControl)

/-- Hexadecimal digits are no control characters. -/
theorem isControl_hexDigit {n : Nat} (h : n < 16) : isControl (hexDigit n) = false := by
  have : ∀ m : Fin 16, isControl (hexDigit m.val) = false := by decide
  exact this ⟨n, h⟩

/-- One or two hexadecimal digits neither. -/
theorem isControl_hexByte {n : Nat} (h : n < 256) : ∀ d ∈ hexByte n, isControl d = false := by
  unfold hexByte
  split
  · rename_i hn
    simpa using isControl_hexDigit hn
  · intro d hd
    simp only [List.mem_cons, List.not_mem_nil, or_false] at hd
    rcases hd with rfl | rfl
    · exact isControl_hexDigit (by omega)
    · exact isControl_hexDigit (by omega)

/-- A pair of characters is free of control characters if both are. -/
theorem isControl_of_mem_pair {a b : Char} (ha : isControl a = false) (hb : isControl b = false) :
    ∀ d ∈ [a, b], isControl d = false := by
  intro d hd
  simp only [List.mem_cons, List.not_mem_nil, or_false] at hd
  rcases hd with rfl | rfl
  · exact ha
  · exact hb

/-- An escape is free of control characters. -/
theorem isControl_escapeControl (c : Char) : ∀ d ∈ escapeControl c, isControl d = false := by
  unfold escapeControl
  split
  · exact isControl_of_mem_pair (by decide) (by decide)
  · split
    · exact isControl_of_mem_pair (by decide) (by decide)
    · split
      · exact isControl_of_mem_pair (by decide) (by decide)
      · split
        · rename_i hc
          -- a control character has a code of one byte
          have hlt : c.toNat < 256 := by
            simp only [isControl, Bool.or_eq_true, Bool.and_eq_true, decide_eq_true_eq] at hc
            omega
          intro d hd
          simp only [List.cons_append, List.nil_append, List.mem_cons, List.mem_append,
            List.not_mem_nil, or_false] at hd
          rcases hd with rfl | rfl | rfl | hd | rfl
          · decide
          · decide
          · decide
          · exact isControl_hexByte hlt d hd
          · decide
        · rename_i hc
          intro d hd
          simp only [List.mem_cons, List.not_mem_nil, or_false] at hd
          -- any other character stands for itself, and is none
          simpa [hd] using hc

/-- **A text on a single line is free of control characters.** -/
theorem singleLine_no_control (s : String) :
    ∀ d ∈ (singleLine s).toList, isControl d = false := by
  intro d hd
  simp only [singleLine, String.toList_ofList, List.mem_flatMap] at hd
  obtain ⟨c, _, hd⟩ := hd
  exact isControl_escapeControl c d hd

end RpcSchema.Text
