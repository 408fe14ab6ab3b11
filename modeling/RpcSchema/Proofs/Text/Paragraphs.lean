/-
  RpcSchema.Proofs.Text.Paragraphs
  ────────────────────────────────
  **LINES, AND TEXTS CUT AT BLANK LINES.**

  A text is on one line if no line end is in it.  Numbers are, and what is
  escaped is, whatever it is made from; lowercasing adds no line end.

  Lines that are not blank, laid out with a blank line between two of
  their groups, are told apart again by cutting at the blank lines.

  Main statements: `paragraphs_join` and `not_ends_join`.
-/
import RpcSchema.Proofs.Text.SnakeCase
import RpcSchema.Text.Control
import RpcSchema.Text.Lines
import RpcSchema.Text.Quoted

namespace RpcSchema.Text

/-! ## §1. Texts on one line. -/

/-- No line end is in the text. -/
def OneLine (s : String) : Prop :=
  '\n' ∉ s.toList

instance : DecidablePred OneLine := fun s => inferInstanceAs (Decidable ('\n' ∉ s.toList))

@[simp]
theorem oneLine_append {a b : String} : OneLine (a ++ b) ↔ OneLine a ∧ OneLine b := by
  unfold OneLine
  rw [String.toList_append, List.mem_append, not_or]

@[simp]
theorem oneLine_repr (n : Nat) : OneLine n.repr := by
  intro hmem
  rw [Nat.toList_repr] at hmem
  exact absurd (Nat.isDigit_of_mem_toDigits (by decide) (by decide) hmem) (by decide)

@[simp]
theorem oneLine_int_repr (n : Int) : OneLine n.repr := by
  cases n with
  | ofNat n => exact oneLine_repr n
  | negSucc n => exact oneLine_append.2 ⟨(by decide : OneLine "-"), oneLine_repr (n + 1)⟩

/-- An escaped character has no line end in it. -/
theorem Quoted.newline_not_mem_escape (c : Char) : '\n' ∉ escape c := by
  unfold escape
  split
  · decide
  · split
    · decide
    · split
      · decide
      · rename_i hc
        rw [List.mem_singleton]
        exact fun h => hc h.symm

/-- **A quoted value stays on its line**, whatever it is. -/
theorem Quoted.oneLine_encode (value : String) : OneLine (encode value) := by
  show '\n' ∉ (encode value).toList
  unfold encode
  rw [String.toList_ofList, List.mem_cons, List.mem_append, List.mem_flatMap]
  rintro (h | ⟨c, _, hc⟩ | h)
  · exact absurd h (by decide)
  · exact newline_not_mem_escape c hc
  · exact absurd h (by decide)

/-- **A literal stays on its line**, whatever it is. -/
theorem oneLine_singleLine (s : String) : OneLine (singleLine s) := by
  intro hmem
  exact absurd (singleLine_no_control s '\n' hmem) (by decide)

theorem newline_not_mem_toLower {c : Char} (hc : c ≠ '\n') : '\n' ∉ toLower c :=
  ascii_not_mem_toLower (by decide) (by decide) (by decide) hc

/-- A name on one line stays so in snake case. -/
theorem oneLine_snakeCase {name : String} (h : OneLine name) : OneLine (snakeCase name) := by
  -- whatever character stands before: it only says whether there is an underscore
  have hgo : ∀ (cs : List Char) (before : Char), '\n' ∉ cs → '\n' ∉ snakeCase.go before cs := by
    intro cs
    induction cs with
    | nil => exact fun _ _ => List.not_mem_nil
    | cons c cs ih =>
      intro before hcs
      obtain ⟨hc, hcs⟩ := not_or.1 (mt List.mem_cons.2 hcs)
      unfold snakeCase.go
      rw [List.mem_append, List.mem_append, not_or, not_or]
      refine ⟨⟨?_, newline_not_mem_toLower (Ne.symm hc)⟩, ih c hcs⟩
      split <;> decide
  unfold snakeCase
  split
  · decide
  · rename_i c rest hname
    have hname : '\n' ∉ c :: rest := hname ▸ h
    obtain ⟨hc, hrest⟩ := not_or.1 (mt List.mem_cons.2 hname)
    show '\n' ∉ (String.ofList (toLower c ++ snakeCase.go c rest)).toList
    rw [String.toList_ofList, List.mem_append, not_or]
    exact ⟨newline_not_mem_toLower (Ne.symm hc), hgo rest c hrest⟩

/-! ## §2. Lines. -/

/-- **Pieces that were joined are found again by splitting**, if the separator is in none. -/
theorem split_join {separator : Char} {pieces : List String} (hne : pieces ≠ [])
    (h : ∀ piece ∈ pieces, separator ∉ piece.toList) :
    split separator (join separator pieces) = pieces := by
  unfold split join
  rw [String.toList_ofList, splitChars_joinChars]
  · simp
  · simpa using hne
  · simpa using h

theorem ofLines_append (a b : List String) : ofLines (a ++ b) = ofLines a ++ ofLines b := by
  simp [ofLines]

theorem ofLines_cons (l : String) (rest : List String) :
    ofLines (l :: rest) = l ++ "\n" ++ ofLines rest := by
  simp [ofLines]

/-- Lines that are ended are lines with an end between two of them, and one end more. -/
theorem ofLines_eq_join {lines : List String} (hne : lines ≠ []) :
    ofLines lines = join '\n' lines ++ "\n" := by
  induction lines with
  | nil => exact absurd rfl hne
  | cons l rest ih =>
    cases rest with
    | nil => simp [ofLines, join, joinChars]
    | cons next rest =>
      rw [ofLines_cons, ih (List.cons_ne_nil _ _)]
      apply String.ext
      simp [join, joinChars]

/-- Lines behind a line end are ended too. -/
theorem ends_ofLines (front : String) (lines : List String) :
    ∃ front', front ++ "\n" ++ ofLines lines = front' ++ "\n" := by
  by_cases hne : lines = []
  · exact ⟨front, by rw [hne]; exact String.append_empty⟩
  · refine ⟨front ++ "\n" ++ join '\n' lines, ?_⟩
    rw [ofLines_eq_join hne, ← String.append_assoc]

/-! ## §3. Groups of lines. -/

/-- The groups of lines of a text, cut at the blank lines. -/
def paragraphs (s : String) : List (List String) :=
  (split '\n' s).splitOn ""

/-- A group of lines: there is one at least, and none is blank or has a line end in it. -/
def IsParagraph (lines : List String) : Prop :=
  lines ≠ [] ∧ ∀ l ∈ lines, OneLine l ∧ l ≠ ""

/-- Groups of lines with a blank line between two of them. -/
def spaced (groups : List (List String)) : List String :=
  [""].intercalate groups

theorem spaced_singleton (g : List String) : spaced [g] = g :=
  List.intercalate_singleton

/-- Between two groups there is a blank line. -/
theorem spaced_cons_cons (g next : List String) (groups : List (List String)) :
    spaced (g :: next :: groups) = g ++ "" :: spaced (next :: groups) := by
  unfold spaced
  rw [List.intercalate_cons_cons, List.append_assoc]
  rfl

variable {groups : List (List String)}

theorem spaced_append_cons (hne : groups ≠ []) (g : List String) (rest : List (List String)) :
    spaced (groups ++ g :: rest) = spaced groups ++ "" :: spaced (g :: rest) := by
  induction groups with
  | nil => exact absurd rfl hne
  | cons first groups ih =>
    cases groups with
    | nil => rw [spaced_singleton, List.singleton_append, spaced_cons_cons]
    | cons next groups =>
      rw [List.cons_append, List.cons_append, spaced_cons_cons, ← List.cons_append,
        ih (List.cons_ne_nil _ _), spaced_cons_cons, List.append_assoc]
      rfl

/-- A line is blank or belongs to a group. -/
theorem mem_spaced {l : String} (h : l ∈ spaced groups) : l = "" ∨ ∃ g ∈ groups, l ∈ g := by
  induction groups with
  | nil => exact absurd h List.not_mem_nil
  | cons g groups ih =>
    -- the last group has no blank line behind it
    cases groups with
    | nil =>
      rw [spaced_singleton] at h
      exact Or.inr ⟨g, List.mem_cons_self, h⟩
    | cons next groups =>
      rw [spaced_cons_cons, List.mem_append, List.mem_cons] at h
      rcases h with h | h | h
      · exact Or.inr ⟨g, List.mem_cons_self, h⟩
      · exact Or.inl h
      · rcases ih h with h | ⟨g', hg', hl⟩
        · exact Or.inl h
        · exact Or.inr ⟨g', List.mem_cons_of_mem g hg', hl⟩

/-- Groups make lines. -/
theorem spaced_ne_nil (hne : groups ≠ []) (h : ∀ g ∈ groups, IsParagraph g) :
    spaced groups ≠ [] := by
  obtain ⟨g, rest, rfl⟩ := List.exists_cons_of_ne_nil hne
  cases rest with
  | nil =>
    rw [spaced_singleton]
    exact (h g List.mem_cons_self).1
  | cons next rest =>
    rw [spaced_cons_cons]
    simp

/-- The lines of the groups are those of the text. -/
theorem split_spaced (hne : groups ≠ []) (h : ∀ g ∈ groups, IsParagraph g) :
    split '\n' (join '\n' (spaced groups)) = spaced groups := by
  apply split_join (spaced_ne_nil hne h)
  intro l hl
  rcases mem_spaced hl with rfl | ⟨g, hg, hl⟩
  · decide
  · exact ((h g hg).2 l hl).1

/-- **Cutting at the blank lines gives the groups back.** -/
theorem paragraphs_join (hne : groups ≠ []) (h : ∀ g ∈ groups, IsParagraph g) :
    paragraphs (join '\n' (spaced groups)) = groups := by
  unfold paragraphs
  rw [split_spaced hne h]
  exact List.splitOn_intercalate "" (fun g hg hblank => ((h g hg).2 "" hblank).2 rfl) hne

/-- **No line end stands behind the last line**: there would be an empty group behind it. -/
theorem not_ends_join (hne : groups ≠ []) (h : ∀ g ∈ groups, IsParagraph g) (rest : String) :
    join '\n' (spaced groups) ≠ rest ++ "\n" := by
  intro hends
  -- a line feed at the end would leave an empty last paragraph
  have hlast : paragraphs (rest ++ "\n") = paragraphs rest ++ [[]] := by
    unfold paragraphs split
    rw [String.toList_append, show "\n".toList = '\n' :: [] from rfl, splitChars_append_cons,
      List.map_append]
    exact List.splitOnP_append_cons _ _ rfl
  have hempty : [] ∈ groups := by
    rw [← paragraphs_join hne h, hends, hlast]
    simp
  exact (h [] hempty).1 rfl

end RpcSchema.Text
