/-
  RpcSchema.Text.Quoted
  ─────────────────────
  **Option values as quoted literals.**

  A value is written between double quotes; a quote, a backslash and a
  line feed inside it are escaped.

  Main statement: `decode_encode` reads every written value back, and what
  follows the literal is untouched.
-/

namespace RpcSchema.Text.Quoted

/-- One character of a value as it stands inside the literal. -/
def escape (c : Char) : List Char :=
  if c = '"' then ['\\', '"']
  else if c = '\\' then ['\\', '\\']
  else if c = '\n' then ['\\', 'n']
  else [c]

/-- The literal of a value. -/
def encode (value : String) : String :=
  String.ofList ('"' :: (value.toList.flatMap escape ++ ['"']))

/-- Reads the inside of a literal up to its closing quote: the value and what follows. -/
def decodeBody : List Char → Option (List Char × List Char)
  | [] => none
  | '"' :: rest => some ([], rest)
  | '\\' :: '"' :: rest => (decodeBody rest).map fun r => ('"' :: r.1, r.2)
  | '\\' :: '\\' :: rest => (decodeBody rest).map fun r => ('\\' :: r.1, r.2)
  | '\\' :: 'n' :: rest => (decodeBody rest).map fun r => ('\n' :: r.1, r.2)
  | c :: rest => if c = '\\' then none else (decodeBody rest).map fun r => (c :: r.1, r.2)

/-- Reads a literal: its value and the text after it. -/
def decode : List Char → Option (List Char × List Char)
  | '"' :: rest => decodeBody rest
  | _ => none

/-- An escape is read back as the character it stands for. -/
theorem decodeBody_escape (c : Char) (rest : List Char) :
    decodeBody (escape c ++ rest) = (decodeBody rest).map fun r => (c :: r.1, r.2) := by
  unfold escape
  split
  · subst_vars; simp [decodeBody]
  · split
    · subst_vars; simp [decodeBody]
    · split
      · subst_vars; simp [decodeBody]
      · rename_i h₁ h₂ _
        simp [decodeBody, h₂]

/-- The inside of a literal is read back up to its closing quote. -/
theorem decodeBody_flatMap_escape (cs rest : List Char) :
    decodeBody (cs.flatMap escape ++ '"' :: rest) = some (cs, rest) := by
  induction cs with
  | nil => simp [decodeBody]
  | cons c cs ih =>
    rw [List.flatMap_cons, List.append_assoc, decodeBody_escape, ih]
    rfl

/-- **A literal is read back**, whatever stands behind it. -/
theorem decode_encode (value : String) (rest : List Char) :
    decode ((encode value).toList ++ rest) = some (value.toList, rest) := by
  simp only [encode, String.toList_ofList, List.cons_append, List.append_assoc, decode,
    List.nil_append]
  exact decodeBody_flatMap_escape value.toList rest

end RpcSchema.Text.Quoted
