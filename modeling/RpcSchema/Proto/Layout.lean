/-
  RpcSchema.Proto.Layout
  ──────────────────────
  **Schema text.**

  A document is laid out in sections, with a blank line between two of
  them: the syntax line, the import line, the package line if there is a
  package, one line per option by key if there are any, the service, and
  one section per block.

  A line is written in fragments, a write for each of them: the words and
  names that it is put together from, and the signs between them.

      rpc · Keep · ( · KeepRequest · ) returns ( · KeepResponse · );

  A field's tag is its position, counted from one.
-/
import RpcSchema.Proto.Document
import RpcSchema.Proto.Emission
import RpcSchema.Text.Control
import RpcSchema.Text.Quoted

namespace RpcSchema

/-! ## §1. Lines. -/

/-- An indented line, in the fragments that it is written in. -/
structure Line where
  level : Nat
  /-- Each of them is a write of its own. -/
  fragments : List String
  deriving DecidableEq, Repr

/-- What a line says behind its indentation. -/
def Line.text (l : Line) : String :=
  String.join l.fragments

namespace Layout

open Emission (Step)

/-- The steps of a line: its indentation, which writes nothing at level zero, its fragments one by
one, and the line end. -/
def lineSteps (l : Line) : List Step :=
  .indent l.level :: l.fragments.map .emit ++ [.newline]

/-- The fragments of a line are written one behind another. -/
theorem text_fragments (fragments : List String) :
    Emission.text (fragments.map .emit) = String.join fragments := by
  unfold Emission.text
  rw [List.map_map]
  exact congrArg String.join (List.map_id fragments)

theorem text_line (l : Line) :
    Emission.text (lineSteps l)
      = Emission.spaces (l.level * Emission.indentWidth) ++ l.text ++ "\n" := by
  show Emission.text (.indent l.level :: (l.fragments.map .emit ++ [.newline])) = _
  rw [Emission.text_cons, Emission.text_append, text_fragments, ← String.append_assoc]
  rfl

/-- The steps of some sections, with a blank line between two of them. -/
def sectionSteps : List (List Line) → List Step
  | [] => []
  | [lines] => lines.flatMap lineSteps
  | lines :: rest => lines.flatMap lineSteps ++ .newline :: sectionSteps rest

/-- A block of lines between braces; an empty one takes a single line. -/
def braced (head : List String) (body : List Line) : List Line :=
  if body.isEmpty then [⟨0, head ++ [" \x7b\x7d"]⟩]
  else ⟨0, head ++ [" \x7b"]⟩ :: body ++ [⟨0, ["\x7d"]⟩]

/-! ## §2. Blocks. -/

/-- The line of a field with its tag. -/
def fieldLine (level : Nat) (f : ProtoField) (tag : Nat) : Line :=
  ⟨level, [f.type.text, " ", f.name, " = ", toString tag, ";"]⟩

/-- Fields with their tags. -/
def fieldLines (level : Nat) (fields : List ProtoField) : List Line :=
  (fields.zipIdx 1).map fun (f, tag) => fieldLine level f tag

/-- The fragments of the comment behind a member whose constant is no ordinal. -/
def commentFragments : Option String → List String
  | some literal => [" // ", Text.singleLine literal]
  | none => []

/-- The line of a member, with its literal in a comment if it has one. -/
def memberLine (m : EnumMember) : Line :=
  ⟨1, [m.name, " = ", toString m.ordinal, ";"] ++ commentFragments m.literal⟩

/-- The keyword of a block. -/
def keyword : BlockBody → String
  | .message _ | .oneof _ => "message"
  | .enum _ => "enum"

/-- The lines between the braces of a block; a oneof has braces of its own. -/
def bodyLines : BlockBody → List Line
  | .message fields => fieldLines 1 fields
  | .enum members => members.map memberLine
  | .oneof fields => ⟨1, ["oneof value \x7b"]⟩ :: fieldLines 2 fields ++ [⟨1, ["\x7d"]⟩]

/-- The section of a block. -/
def blockLines (b : Block) : List Line :=
  braced [keyword b.body, " ", b.name] (bodyLines b.body)

/-! ## §3. Documents. -/

/-- The line of a method of the service. -/
def rpcLine (r : Rpc) : Line :=
  ⟨1, ["rpc ", r.name, "(", r.request.text, ") returns (", r.response.text, ");"]⟩

/-- The line of an option, with its value in quotes. -/
def optionLine (option : String × String) : Line :=
  ⟨0, ["option ", option.1, " = ", Text.Quoted.encode option.2, ";"]⟩

/-- The section of the package, if there is one. -/
def packageSections : Option String → List (List Line)
  | some package => [[⟨0, ["package ", package, ";"]⟩]]
  | none => []

/-- The section of the options, if there are any. -/
def optionSections (o : Options) : List (List Line) :=
  if o.entries.isEmpty then [] else [o.entries.map optionLine]

/-- The section of the service. -/
def serviceLines (d : Document) : List Line :=
  braced ["service ", d.service] (d.methods.map rpcLine)

/-- The sections of a document. -/
def sections (d : Document) : List (List Line) :=
  [[⟨0, ["syntax = \"proto3\";"]⟩], [⟨0, ["import \"google/protobuf/any.proto\";"]⟩]]
    ++ packageSections d.package
    ++ optionSections d.options
    ++ [serviceLines d]
    ++ d.blocks.map blockLines

end Layout

/-- The steps that write a document.  A sink is asked for a write per fragment; another cut of the
same text would be written as the same text, but could be refused at another place. -/
def Document.steps (d : Document) : List Emission.Step :=
  Layout.sectionSteps (Layout.sections d)

/-- The text of a document. -/
def Document.text (d : Document) : String :=
  Emission.text d.steps

/-- The schema text of a schema. -/
def Schema.text (s : Schema) : String :=
  s.document.text

end RpcSchema
