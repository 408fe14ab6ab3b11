/-
  RpcSchema.Text.Lines
  ────────────────────
  **Texts of lines.**
-/

namespace RpcSchema.Text

/-- The text of some lines, each ended by a line feed. -/
def ofLines (lines : List String) : String :=
  String.join (lines.map (· ++ "\n"))

end RpcSchema.Text
