/-
  RpcSchema.Text.Blank
  ────────────────────
  **White space.**

  A character is blank when it has the White_Space property.  Type
  expressions may hold blanks between their tokens, list-valued flags are
  trimmed, and a blank log filter counts as not given.

  Main statements: `dropBlank` removes exactly the leading blanks
  (`dropBlank_append_of_all`, `isBlank_head_dropBlank`) and never lengthens
  its input (`length_dropBlank_le`).
-/

namespace RpcSchema.Text

/-! ## §1. The class. -/

/-- The White_Space property. -/
def isBlank (c : Char) : Bool :=
  let n := c.toNat
  (0x09 ≤ n && n ≤ 0x0D) || n == 0x20 || n == 0x85 || n == 0xA0 || n == 0x1680
    || (0x2000 ≤ n && n ≤ 0x200A) || n == 0x2028 || n == 0x2029 || n == 0x202F
    || n == 0x205F || n == 0x3000

/-- Every character core calls white space is blank. -/
theorem isBlank_of_isWhitespace {c : Char} (h : c.isWhitespace = true) : isBlank c = true := by
  simp only [Char.isWhitespace, Bool.or_eq_true, decide_eq_true_eq] at h
  rcases h with ((rfl | rfl) | rfl) | rfl <;> rfl

/-! ## §2. Trimming. -/

/-- The text without its leading blanks. -/
def dropBlank (cs : List Char) : List Char :=
  cs.dropWhile isBlank

/-- The text without leading and trailing blanks. -/
def trim (s : String) : String :=
  String.ofList (dropBlank (dropBlank s.toList).reverse).reverse

/-- A text is blank when trimming leaves nothing of it. -/
def isBlankText (s : String) : Bool :=
  s.toList.all isBlank

/-- Dropping blanks makes no text longer. -/
theorem length_dropBlank_le (cs : List Char) : (dropBlank cs).length ≤ cs.length :=
  (List.dropWhile_suffix isBlank).length_le

/-- What is left stands at the end of the text. -/
theorem dropBlank_suffix (cs : List Char) : dropBlank cs <:+ cs :=
  List.dropWhile_suffix isBlank

/-- What is left does not start with a blank. -/
theorem isBlank_head_dropBlank {cs : List Char} {c : Char} {rest : List Char}
    (h : dropBlank cs = c :: rest) : isBlank c = false := by
  have := List.head?_dropWhile_not isBlank cs
  rw [show cs.dropWhile isBlank = c :: rest from h] at this
  simpa using this

/-- Blanks in front do not matter. -/
theorem dropBlank_append_of_all {ws cs : List Char} (h : ∀ c ∈ ws, isBlank c = true) :
    dropBlank (ws ++ cs) = dropBlank cs := by
  induction ws with
  | nil => rfl
  | cons w ws ih =>
    have hw := h w (List.mem_cons_self)
    simp only [dropBlank, List.cons_append, List.dropWhile_cons, hw, if_true]
    exact ih fun c hc => h c (List.mem_cons_of_mem _ hc)

/-- Nothing is dropped from a text that starts with no blank. -/
theorem dropBlank_of_not_blank {c : Char} (rest : List Char) (h : isBlank c = false) :
    dropBlank (c :: rest) = c :: rest := by
  simp [dropBlank, h]

end RpcSchema.Text
