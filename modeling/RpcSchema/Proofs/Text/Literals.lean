/-
  RpcSchema.Proofs.Text.Literals
  ──────────────────────────────
  **WHERE A LITERAL ENDS.**

  Two readers go over a text that holds a quoted value.  The one takes a
  single literal apart, and gives its value.  The other takes statements
  apart: it ends a statement at the first semicolon outside of a literal,
  and only minds where it stands.

      outside ──"──▶ inside ──\──▶ escaped
         ◀─────"───────┘  ◀─────────┘

    • a literal on one line that is read as a value is the one that is
      written for it (`Quoted.eq_encode_of_decode`);
    • between the delimiters a quote is behind a backslash that is not
      itself escaped, and the closing one is not (`Quoted.escaped_iff`);
    • a statement takes in a literal as a whole (`cutStatement_encode`), so
      the semicolon behind it is where it ends (`cutStatement_option`).
-/
import RpcSchema.Text.Quoted

namespace RpcSchema.Text

/-! ## §1. Literals that are read. -/

namespace Quoted

/-- In front of the rest stands the inside of a literal: what is written for the value, unless it
has a line end in it, which is read as itself but never written. -/
def IsInside (value cs rest : List Char) : Prop :=
  ∃ body, cs = body ++ '"' :: rest ∧ ('\n' ∉ body → body = value.flatMap escape)

/-- One character of the value is read from the piece in front. -/
theorem IsInside.of_map (piece : List Char) {value cs rest : List Char} {c : Char}
    (hread : (decodeBody cs).map (fun r => (c :: r.1, r.2)) = some (value, rest))
    (hpiece : '\n' ∉ piece → piece = escape c)
    (h : ∀ tail, decodeBody cs = some (tail, rest) → IsInside tail cs rest) :
    IsInside value (piece ++ cs) rest := by
  obtain ⟨⟨tail, behind⟩, htail, hpair⟩ := Option.map_eq_some_iff.1 hread
  obtain ⟨rfl, rfl⟩ := Prod.mk.inj hpair
  obtain ⟨body, rfl, hbody⟩ := h tail htail
  refine ⟨piece ++ body, (List.append_assoc _ _ _).symm, fun hline => ?_⟩
  rw [List.mem_append, not_or] at hline
  rw [List.flatMap_cons, ← hpiece hline.1, ← hbody hline.2]

/-- What is decoded is what the characters in front of the closing quote stand for. -/
theorem isInside_of_decodeBody {cs value rest : List Char}
    (h : decodeBody cs = some (value, rest)) : IsInside value cs rest := by
  fun_induction decodeBody cs generalizing value with
  | case1 => cases h
  | case2 tail =>
    obtain ⟨rfl, rfl⟩ := Prod.mk.inj (Option.some.inj h)
    exact ⟨[], rfl, fun _ => rfl⟩
  | case3 tail ih => exact .of_map ['\\', '"'] h (fun _ => rfl) fun _ => ih
  | case4 tail ih => exact .of_map ['\\', '\\'] h (fun _ => rfl) fun _ => ih
  | case5 tail ih => exact .of_map ['\\', 'n'] h (fun _ => rfl) fun _ => ih
  | case6 => cases h
  | case7 c tail hquote _ _ _ hslash ih =>
    -- any other character is read as itself, a line end too, which is never written so
    refine .of_map [c] h (fun hline => ?_) fun _ => ih
    have hend : c ≠ '\n' := fun hc => hline (List.mem_singleton.2 hc.symm)
    unfold escape
    rw [if_neg hquote, if_neg hslash, if_neg hend]

theorem toList_encode (value : String) :
    (encode value).toList = '"' :: (value.toList.flatMap escape ++ ['"']) :=
  String.toList_ofList

/-- **On one line a value has one literal.** -/
theorem eq_encode_of_decode {literal rest : List Char} {value : String}
    (h : decode (literal ++ rest) = some (value.toList, rest)) (hline : '\n' ∉ literal) :
    literal = (encode value).toList := by
  unfold decode at h
  split at h
  · rename_i cs hcs
    obtain ⟨body, rfl, hbody⟩ := isInside_of_decodeBody h
    have hwhole : literal ++ rest = '"' :: (body ++ ['"']) ++ rest := by
      rw [hcs, List.cons_append, List.append_assoc]
      rfl
    have hliteral := List.append_cancel_right hwhole
    -- a line feed inside would have been escaped
    have hinside : '\n' ∉ body := fun hmem => hline (by simp [hliteral, hmem])
    rw [toList_encode, hliteral, hbody hinside]
  · cases h

/-- Two literals that are written in front of something can be told apart. -/
theorem encode_append_inj {value value' rest rest' : String}
    (h : encode value ++ rest = encode value' ++ rest') : value = value' ∧ rest = rest' := by
  have hread := decode_encode value rest.toList
  rw [← String.toList_append, h, String.toList_append, decode_encode] at hread
  obtain ⟨hvalue, hrest⟩ := Prod.mk.inj (Option.some.inj hread)
  exact ⟨String.toList_inj.1 hvalue.symm, String.toList_inj.1 hrest.symm⟩

end Quoted

/-! ## §2. Where a reader of statements stands. -/

/-- Between literals, in one, or in one behind a backslash that escapes what comes next. -/
inductive Position where
  | outside
  | inside
  | escaped
  deriving DecidableEq, Repr

namespace Position

/-- The position behind a character. -/
def next : Position → Char → Position
  | .outside, c => if c = '"' then .inside else .outside
  | .inside, c => if c = '"' then .outside else if c = '\\' then .escaped else .inside
  | .escaped, _ => .inside

/-- The position behind a text. -/
def after (p : Position) (cs : List Char) : Position :=
  cs.foldl next p

theorem after_append (p : Position) (a b : List Char) : p.after (a ++ b) = (p.after a).after b :=
  List.foldl_append

/-- A text without quotes leads into no literal. -/
theorem after_plain {cs : List Char} (h : '"' ∉ cs) : Position.outside.after cs = .outside := by
  induction cs with
  | nil => rfl
  | cons c cs ih =>
    obtain ⟨hc, hcs⟩ := not_or.1 (mt List.mem_cons.2 h)
    show (Position.outside.next c).after cs = .outside
    rw [show Position.outside.next c = .outside from if_neg (Ne.symm hc), ih hcs]

end Position

namespace Quoted

/-- A character is written as itself, or as one character behind a backslash. -/
theorem escape_cases (c : Char) :
    (c ≠ '"' ∧ c ≠ '\\' ∧ escape c = [c]) ∨ ∃ d, escape c = ['\\', d] := by
  unfold escape
  split
  · exact Or.inr ⟨_, rfl⟩
  · split
    · exact Or.inr ⟨_, rfl⟩
    · split
      · exact Or.inr ⟨_, rfl⟩
      · exact Or.inl ⟨‹_›, ‹_›, rfl⟩

/-- An escaped character does not lead out of one. -/
theorem after_escape (c : Char) : Position.inside.after (escape c) = .inside := by
  rcases escape_cases c with ⟨hquote, hslash, h⟩ | ⟨d, h⟩
  · rw [h]
    show Position.inside.next c = .inside
    simp only [Position.next, if_neg hquote, if_neg hslash]
  · rw [h]
    rfl

/-- **What is written of a value leaves the reader inside the literal.** -/
theorem after_flatMap_escape (cs : List Char) :
    Position.inside.after (cs.flatMap escape) = .inside := by
  induction cs with
  | nil => rfl
  | cons c cs ih => rw [List.flatMap_cons, Position.after_append, after_escape, ih]

/-- No part of an escaped character leads out of a literal. -/
theorem after_ne_outside_of_escape {c : Char} {front back : List Char}
    (h : escape c = front ++ back) : Position.inside.after front ≠ .outside := by
  rcases escape_cases c with ⟨hquote, hslash, hc⟩ | ⟨d, hc⟩
  · -- a character that stands for itself is neither quote nor backslash
    have hfront : front = [] ∨ front = [c] :=
      (List.singleton_eq_append_iff.1 (hc.symm.trans h)).imp And.left And.left
    rcases hfront with rfl | rfl
    · decide
    · rw [← hc, after_escape]
      decide
  · -- an escape: after its backslash the literal goes on
    rw [hc, List.cons_eq_append_iff] at h
    rcases h with ⟨rfl, _⟩ | ⟨front, rfl, h⟩
    · decide
    · rcases List.singleton_eq_append_iff.1 h with ⟨rfl, _⟩ | ⟨rfl, _⟩
      · decide
      · rw [← hc, after_escape]
        decide

/-- **Nowhere in what is written of a value does the literal end.**

By induction on the value: a part of it ends within the first character, or behind it, where the
reader stands as it stood before. -/
theorem after_ne_outside {cs front back : List Char} (h : cs.flatMap escape = front ++ back) :
    Position.inside.after front ≠ .outside := by
  induction cs generalizing front with
  | nil =>
    obtain ⟨rfl, _⟩ := List.append_eq_nil_iff.1 h.symm
    decide
  | cons c cs ih =>
    rw [List.flatMap_cons, List.append_eq_append_iff] at h
    -- the cut lies behind the first escape, or inside it
    rcases h with ⟨front, rfl, h⟩ | ⟨piece, h, _⟩
    · rw [Position.after_append, after_escape]
      exact ih h
    · exact after_ne_outside_of_escape h

/-- **The closing quote is the only one that is not escaped.** -/
theorem escaped_iff {value : String} {front back : List Char}
    (h : value.toList.flatMap escape ++ ['"'] = front ++ '"' :: back) :
    Position.inside.after front = .escaped ↔ back ≠ [] := by
  rcases List.eq_nil_or_concat back with rfl | ⟨back, last, rfl⟩
  · obtain ⟨rfl, _⟩ := List.append_inj' h rfl
    rw [after_flatMap_escape]
    exact iff_of_false (by decide) (fun hne => hne rfl)
  · rw [List.concat_eq_append, ← List.cons_append, ← List.append_assoc] at h
    obtain ⟨h, _⟩ := List.append_inj' h rfl
    refine iff_of_true ?_ (by simp)
    -- the literal ends neither before this quote nor with it
    have hbefore := after_ne_outside h
    rw [List.append_cons] at h
    have hbehind := after_ne_outside h
    rw [Position.after_append] at hbehind
    cases hposition : Position.inside.after front with
    | outside => exact absurd hposition hbefore
    | inside =>
      rw [hposition] at hbehind
      exact absurd rfl hbehind
    | escaped => rfl

end Quoted

/-! ## §3. Statements. -/

/-- Cuts a text at the first semicolon outside of its literals: the statement, and what follows. -/
def cutStatement (p : Position) : List Char → Option (List Char × List Char)
  | [] => none
  | c :: rest =>
    if p = .outside ∧ c = ';' then some ([], rest)
    else (cutStatement (p.next c) rest).map fun r => (c :: r.1, r.2)

/-- A text through which the reader meets no end of a statement belongs to the statement. -/
theorem cutStatement_append {p : Position} (start rest : List Char)
    (h : ∀ front back, start = front ++ ';' :: back → p.after front ≠ .outside) :
    cutStatement p (start ++ rest)
      = (cutStatement (p.after start) rest).map fun r => (start ++ r.1, r.2) := by
  induction start generalizing p with
  | nil => simp [Position.after]
  | cons c start ih =>
    -- a semicolon here would be one outside all quotes
    have hhere : ¬(p = .outside ∧ c = ';') := by
      rintro ⟨hp, rfl⟩
      exact h [] start rfl hp
    have htail := ih (p := p.next c) fun front back hstart =>
      h (c :: front) back (by rw [hstart]; rfl)
    rw [List.cons_append, cutStatement, if_neg hhere, htail, Option.map_map]
    rfl

/-- **A statement takes in a literal as a whole.** -/
theorem cutStatement_encode (value : String) (rest : List Char) :
    cutStatement .outside ((Quoted.encode value).toList ++ rest)
      = (cutStatement .outside rest).map fun r => ((Quoted.encode value).toList ++ r.1, r.2) := by
  -- the reader steps in with the opening quote, and out with the closing one
  have hinside := cutStatement_append (value.toList.flatMap Quoted.escape) ('"' :: rest)
    fun _ _ h => Quoted.after_ne_outside h
  rw [Quoted.after_flatMap_escape] at hinside
  have hopen : ∀ cs, cutStatement .outside ('"' :: cs)
      = (cutStatement .inside cs).map fun r => ('"' :: r.1, r.2) := fun _ => rfl
  have hclose : cutStatement .inside ('"' :: rest)
      = (cutStatement .outside rest).map fun r => ('"' :: r.1, r.2) := rfl
  rw [Quoted.toList_encode, List.cons_append, List.append_assoc, hopen]
  show (cutStatement .inside (value.toList.flatMap Quoted.escape ++ '"' :: rest)).map _ = _
  rw [hinside, hclose, Option.map_map, Option.map_map]
  simp [Function.comp_def]

/-- A text without quotes and semicolons belongs to the statement that it begins. -/
theorem cutStatement_plain {start : List Char} (hquote : '"' ∉ start) (hend : ';' ∉ start)
    (rest : List Char) :
    cutStatement .outside (start ++ rest)
      = (cutStatement .outside rest).map fun r => (start ++ r.1, r.2) := by
  have hcut := cutStatement_append (p := .outside) start rest
    fun front back h => absurd (by simp [h]) hend
  rwa [Position.after_plain hquote] at hcut

/-- **A statement that ends with a literal ends behind it**, and not in it. -/
theorem cutStatement_option {start : List Char} (hquote : '"' ∉ start) (hend : ';' ∉ start)
    (value : String) (rest : List Char) :
    cutStatement .outside (start ++ ((Quoted.encode value).toList ++ ';' :: rest))
      = some (start ++ (Quoted.encode value).toList, rest) := by
  have hstop : cutStatement .outside (';' :: rest) = some ([], rest) := rfl
  rw [cutStatement_plain hquote hend, cutStatement_encode, hstop]
  simp

end RpcSchema.Text
