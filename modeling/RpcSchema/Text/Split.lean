/-
  RpcSchema.Text.Split
  ────────────────────
  **Cutting a text at a separator.**

  A text with `n` separators has `n + 1` pieces, any of which may be
  empty; joining the pieces gives the text back.

  Main statements: `join_split`, and `splitChars_joinChars` for pieces
  without separators.
-/

namespace RpcSchema.Text

/-- The pieces of a list between its separators. -/
def splitChars (separator : Char) : List Char → List (List Char)
  | [] => [[]]
  | c :: cs =>
    if c = separator then [] :: splitChars separator cs
    else
      match splitChars separator cs with
      | [] => [[c]]
      | piece :: rest => (c :: piece) :: rest

/-- The pieces of a text between its separators. -/
def split (separator : Char) (s : String) : List String :=
  (splitChars separator s.toList).map String.ofList

/-- Pieces with a separator between two of them. -/
def joinChars (separator : Char) : List (List Char) → List Char
  | [] => []
  | [piece] => piece
  | piece :: rest => piece ++ separator :: joinChars separator rest

/-- Pieces of text with a separator between two of them. -/
def join (separator : Char) (pieces : List String) : String :=
  String.ofList (joinChars separator (pieces.map String.toList))

/-- A text cut at the first occurrence of a separator, which belongs to neither part. -/
def splitFirst (separator : Char) (s : String) : Option (String × String) :=
  let cs := s.toList
  match cs.dropWhile (· ≠ separator) with
  | [] => none
  | _ :: rest => some (String.ofList (cs.takeWhile (· ≠ separator)), String.ofList rest)

/-- There is a piece, if only an empty one. -/
theorem splitChars_ne_nil (separator : Char) (cs : List Char) : splitChars separator cs ≠ [] := by
  cases cs with
  | nil => simp [splitChars]
  | cons c cs =>
    simp only [splitChars]
    split
    · simp
    · split <;> simp

/-- A character in front of the first piece stands in front of the text. -/
theorem joinChars_cons_cons (separator c : Char) (piece : List Char) (rest : List (List Char)) :
    joinChars separator ((c :: piece) :: rest) = c :: joinChars separator (piece :: rest) := by
  cases rest <;> simp [joinChars]

/-- Pieces joined with their separator make up the text. -/
theorem joinChars_splitChars (separator : Char) (cs : List Char) :
    joinChars separator (splitChars separator cs) = cs := by
  induction cs with
  | nil => rfl
  | cons c cs ih =>
    simp only [splitChars]
    split
    · rename_i h
      -- splitting gives at least one piece, which is where the character goes
      cases hs : splitChars separator cs with
      | nil => exact absurd hs (splitChars_ne_nil separator cs)
      | cons piece rest => rw [hs] at ih; simp [joinChars, ih, h]
    · cases hs : splitChars separator cs with
      | nil => exact absurd hs (splitChars_ne_nil separator cs)
      | cons piece rest => rw [hs] at ih; simp only [joinChars_cons_cons, ih]

/-- A separator cuts the text in two, and each side is split alone. -/
theorem splitChars_append_cons (separator : Char) (front back : List Char) :
    splitChars separator (front ++ separator :: back)
      = splitChars separator front ++ splitChars separator back := by
  induction front with
  | nil => simp [splitChars]
  | cons c front ih =>
    simp only [List.cons_append, splitChars, ih]
    split
    · rfl
    · -- the character belongs to the first piece, and there is one
      cases h : splitChars separator front with
      | nil => exact absurd h (splitChars_ne_nil separator front)
      | cons piece rest => rfl

/-- A text without a separator is one piece. -/
theorem splitChars_of_not_mem {separator : Char} {cs : List Char} (h : separator ∉ cs) :
    splitChars separator cs = [cs] := by
  induction cs with
  | nil => rfl
  | cons c cs ih =>
    rw [List.mem_cons, not_or] at h
    unfold splitChars
    rw [if_neg (fun hc => h.1 hc.symm), ih h.2]

/-- Joined pieces are split again, if none of them holds a separator. -/
theorem splitChars_joinChars {separator : Char} {pieces : List (List Char)} (hne : pieces ≠ [])
    (h : ∀ piece ∈ pieces, separator ∉ piece) :
    splitChars separator (joinChars separator pieces) = pieces := by
  induction pieces with
  | nil => exact absurd rfl hne
  | cons piece rest ih =>
    obtain ⟨hpiece, hrest⟩ := List.forall_mem_cons.1 h
    cases rest with
    | nil => exact splitChars_of_not_mem hpiece
    | cons next rest =>
      -- the first separator stands behind the first piece, which has none
      rw [joinChars, splitChars_append_cons, splitChars_of_not_mem hpiece,
        ih (List.cons_ne_nil _ _) hrest]
      · rfl
      · exact List.cons_ne_nil _ _

/-- A text that was split is joined again. -/
theorem join_split (separator : Char) (s : String) : join separator (split separator s) = s := by
  simp [join, split, joinChars_splitChars, Function.comp_def]

end RpcSchema.Text
