/-
  RpcSchema.Proofs.Proto.OptionValues
  ───────────────────────────────────
  **THE VALUE OF AN OPTION IN THE TEXT OF A SCHEMA.**

  The value of an option may be any text.  It is read back from its
  literal, and it has a say in nothing but that literal:

    • the options have their own part of the text, and what stands around
      it does not depend on them (`Document.text_options`);
    • the statement of an option is a line, and it ends at the semicolon
      that is written behind the literal;
    • the text determines the values, if the keys are known
      (`Schema.options_eq_of_text`).

  Main statement: `option_values_survive`.
-/
import RpcSchema.Proofs.Proto.Sections
import RpcSchema.Proofs.Text.Literals

namespace RpcSchema

open Text (OneLine Position cutStatement)

/-! ## §1. The part of the options. -/

namespace Layout

/-- The statements of some options, each on its line. -/
def optionText (entries : List (String × String)) : String :=
  Text.ofLines (entries.map fun e => (optionLine e).text)

/-- The first statement, and those that follow. -/
theorem optionText_cons (key value : String) (entries : List (String × String)) :
    optionText ((key, value) :: entries)
      = "option " ++ (key ++ (" = " ++ (Text.Quoted.encode value ++ (";\n" ++ optionText entries))))
      := by
  have hend : (";\n" : String) = ";" ++ "\n" := rfl
  unfold optionText
  rw [List.map_cons, Text.ofLines_cons, hend]
  simp [optionLine, Line.text, String.append_assoc]

theorem optionText_append (a b : List (String × String)) :
    optionText (a ++ b) = optionText a ++ optionText b := by
  unfold optionText
  rw [List.map_append, Text.ofLines_append]

/-- By induction on the options: the literal of the first is read, and what is behind it is what is
written of the others. -/
theorem optionText_inj {entries entries' : List (String × String)}
    (hkeys : entries.map Prod.fst = entries'.map Prod.fst)
    (h : optionText entries = optionText entries') : entries = entries' := by
  induction entries generalizing entries' with
  | nil => exact (List.map_eq_nil_iff.1 hkeys.symm).symm
  | cons e entries ih =>
    cases entries' with
    | nil => cases hkeys
    | cons e' entries' =>
      obtain ⟨key, value⟩ := e
      obtain ⟨key', value'⟩ := e'
      obtain ⟨hkey, htail⟩ := List.cons.inj hkeys
      obtain rfl : key = key' := hkey
      rw [optionText_cons, optionText_cons, String.append_right_inj, String.append_right_inj,
        String.append_right_inj] at h
      -- two values of the same key: only their literals say where the rest begins
      obtain ⟨rfl, hrest⟩ := Text.Quoted.encode_append_inj h
      rw [String.append_right_inj] at hrest
      rw [ih htail hrest]

end Layout

/-- Neither the sections in front of the options nor those behind them mention an option. -/
theorem Document.paragraphs_options (d : Document) :
    ∃ head service rest, head ≠ [] ∧ ∀ o : Options, o.entries ≠ [] →
      ({ d with options := o } : Document).paragraphs
        = head ++ (o.entries.map fun e => (Layout.optionLine e).text) :: service :: rest := by
  refine ⟨[["syntax = \"proto3\";"], ["import \"google/protobuf/any.proto\";"]]
      ++ d.package.toList.map fun name => ["package " ++ name ++ ";"],
    Layout.bracedText ("service " ++ d.service) (d.methods.map fun r =>
      "  rpc " ++ r.name ++ "(" ++ r.request.text ++ ") returns (" ++ r.response.text ++ ");"),
    d.blocks.map Block.paragraph, List.cons_ne_nil _ _, fun o hne => ?_⟩
  unfold paragraphs
  rw [if_neg hne, List.append_assoc, List.append_assoc]
  rfl

/-- **The options have their own part of the text**, and what stands around it is the same for all
of them. -/
theorem Document.text_options (d : Document) :
    ∃ front back, ∀ o : Options, o.entries ≠ [] → ({ d with options := o } : Document).text
      = front ++ "\n" ++ Layout.optionText o.entries ++ back := by
  obtain ⟨head, service, rest, hhead, hparagraphs⟩ := d.paragraphs_options
  refine ⟨Text.ofLines (Text.spaced head), "\n" ++ Text.ofLines (Text.spaced (service :: rest)),
    fun o hne => ?_⟩
  rw [text_eq_ofLines, hparagraphs o hne, Text.spaced_append_cons hhead, Text.spaced_cons_cons,
    Text.ofLines_append, Text.ofLines_cons, Text.ofLines_append, Text.ofLines_cons]
  simp only [Layout.optionText, String.empty_append, String.append_assoc]

/-! ## §2. Options in the text of a schema. -/

namespace Schema

variable {s : Schema}

/-- **The text determines the values of the options**, of all of them at once. -/
theorem options_eq_of_text {o : Options}
    (hkeys : o.entries.map Prod.fst = s.options.entries.map Prod.fst)
    (h : ({ s with options := o } : Schema).text = s.text) : o = s.options := by
  have hentries : o.entries = s.options.entries := by
    -- without options there is no section for them either
    by_cases hne : o.entries = []
    · rw [hne] at hkeys ⊢
      exact (List.map_eq_nil_iff.1 hkeys.symm).symm
    · have hne' : s.options.entries ≠ [] := fun hnil => by
        rw [hnil] at hkeys
        exact hne (List.map_eq_nil_iff.1 hkeys)
      obtain ⟨front, back, htext⟩ := s.document.text_options
      have hparts : front ++ "\n" ++ Layout.optionText o.entries ++ back
          = front ++ "\n" ++ Layout.optionText s.options.entries ++ back :=
        (htext o hne).symm.trans (h.trans (htext s.options hne'))
      rw [String.append_left_inj, String.append_right_inj] at hparts
      exact Layout.optionText_inj hkeys hparts
  obtain ⟨entries, hordered⟩ := o
  obtain rfl : entries = s.options.entries := hentries
  rfl

/-- **The statement of an option is a line of the text.** -/
theorem exists_option_line {key value : String} (h : s.options.get? key = some value) :
    ∃ front back, s.text
      = front ++ "\noption " ++ key ++ " = " ++ Text.Quoted.encode value ++ ";\n" ++ back := by
  obtain ⟨before, behind, hentries⟩ := List.append_of_mem (Options.get?_eq_some_iff.1 h)
  obtain ⟨front, back, htext⟩ := s.document.text_options
  have hlines : s.text = front ++ "\n" ++ Layout.optionText s.options.entries ++ back :=
    htext s.options (by simp [hentries])
  -- the line in front, of another option or blank, is ended
  obtain ⟨front', hfront⟩ := Text.ends_ofLines front
    (before.map fun e => (Layout.optionLine e).text)
  have hstart : ("\noption " : String) = "\n" ++ "option " := rfl
  refine ⟨front', Layout.optionText behind ++ back, ?_⟩
  rw [hlines, hentries, Layout.optionText_append, Layout.optionText_cons, ← String.append_assoc,
    show front ++ "\n" ++ Layout.optionText before = front' ++ "\n" from hfront, hstart]
  simp only [String.append_assoc]

end Schema

/-! ## §3. Values. -/

/-- **The value of an option survives quoting**, whatever it is.

Its literal is read back as the value, whatever follows it, and what follows is left untouched; no
other literal on one line is read as the value.  The literal has no line end in it, and of the
quotes behind the opening one only the last is not escaped.

In the text of a schema the statement of an option is a line.  A reader that begins the statement
anywhere in front of the literal, with neither a quote nor a semicolon in between, ends it at the
semicolon behind the literal.  Options with the same keys that give the same text give this option
the same value, whatever the values of the other options are. -/
theorem option_values_survive (value : String) :
    (∀ rest, Text.Quoted.decode ((Text.Quoted.encode value).toList ++ rest)
      = some (value.toList, rest)) ∧
    (∀ literal rest, '\n' ∉ literal →
      Text.Quoted.decode (literal ++ rest) = some (value.toList, rest) →
      literal = (Text.Quoted.encode value).toList) ∧
    OneLine (Text.Quoted.encode value) ∧
    (∃ body, (Text.Quoted.encode value).toList = '"' :: (body ++ ['"']) ∧
      ∀ front back, body ++ ['"'] = front ++ '"' :: back →
        (Position.inside.after front = .escaped ↔ back ≠ [])) ∧
    ∀ (s : Schema) (key : String), s.options.get? key = some value →
      (∃ front back, s.text
          = front ++ "\noption " ++ key ++ " = " ++ Text.Quoted.encode value ++ ";\n" ++ back ∧
        ∀ start : String, '"' ∉ start.toList → ';' ∉ start.toList →
          cutStatement .outside (start ++ Text.Quoted.encode value ++ ";\n" ++ back).toList
            = some ((start ++ Text.Quoted.encode value).toList, ("\n" ++ back).toList)) ∧
      ∀ o : Options, o.entries.map Prod.fst = s.options.entries.map Prod.fst →
        ({ s with options := o } : Schema).text = s.text → o.get? key = some value := by
  refine ⟨Text.Quoted.decode_encode value,
    fun literal rest hline h => Text.Quoted.eq_encode_of_decode h hline,
    Text.Quoted.oneLine_encode value,
    ⟨value.toList.flatMap Text.Quoted.escape, Text.Quoted.toList_encode value,
      fun front back => Text.Quoted.escaped_iff⟩,
    fun s key hvalue => ⟨?_, fun o hkeys htext => ?_⟩⟩
  · -- the statement of the option, which ends at its own semicolon
    obtain ⟨front, back, htext⟩ := Schema.exists_option_line hvalue
    refine ⟨front, back, htext, fun start hquote hend => ?_⟩
    have hcut := Text.cutStatement_option hquote hend value ('\n' :: back.toList)
    simp only [String.toList_append, List.append_assoc] at hcut ⊢
    exact hcut
  · -- the text determines all options, since the keys are given
    rw [Schema.options_eq_of_text hkeys htext]
    exact hvalue

/-- Quotes, a semicolon, a backslash and a line end, next to each other. -/
def motto : String := "\";\\\n\""

/-- A placard with its motto, and with another option in front of it. -/
def placard : Schema where
  service := "Placard"
  package := none
  options := .ofList [("area", "7"), ("motto", motto)]
  methods := []
  pool := Pool.start

/-- Neither a quote nor the semicolon in the motto ends its statement, and another motto, with a
backslash and a letter for the line end, gives another text. -/
theorem option_values_survive_placard :
    placard.options.get? "motto" = some motto ∧
    "\"\\\";\\\\\\n\\\"\"".toList = (Text.Quoted.encode motto).toList ∧
    (∃ front back,
      placard.text = front ++ "\noption motto = \"\\\";\\\\\\n\\\"\";\n" ++ back ∧
      cutStatement .outside ("option motto = \"\\\";\\\\\\n\\\"\"" ++ ";\n" ++ back).toList
        = some ("option motto = \"\\\";\\\\\\n\\\"\"".toList, ("\n" ++ back).toList)) ∧
    ({ placard with options := placard.options.insert "motto" "\";\\\\n\"" } : Schema).text
      ≠ placard.text := by
  have hmotto : placard.options.get? "motto" = some motto := by decide
  obtain ⟨_, hunique, _, _, htext⟩ := option_values_survive motto
  obtain ⟨⟨front, back, hline, hcut⟩, hother⟩ := htext placard "motto" hmotto
  -- the statement as it is written
  have hstatement : "option motto = \"\\\";\\\\\\n\\\"\""
      = "option motto = " ++ Text.Quoted.encode motto := by decide
  refine ⟨hmotto, hunique _ ";\n".toList (by decide) (by decide), ⟨front, back, ?_, ?_⟩,
    fun hsame => ?_⟩
  · have hwhole : "\noption motto = \"\\\";\\\\\\n\\\"\";\n"
        = "\noption " ++ ("motto" ++ (" = " ++ (Text.Quoted.encode motto ++ ";\n"))) := by decide
    rw [hline, hwhole]
    simp only [String.append_assoc]
  · rw [hstatement, ← hcut "option motto = " (by decide) (by decide)]
  · exact absurd (hother _ (by decide) hsame) (by decide)

end RpcSchema
