/-
  RpcSchema.Main
  ──────────────
  **The command line program.**
-/
import RpcSchema.Command.Outcome
import RpcSchema.Files.Disk

/-- Runs the program on the disk and shows the outcome. -/
def main (arguments : List String) : IO UInt32 := do
  let outcome : RpcSchema.Outcome ← RpcSchema.Command.run arguments
  IO.print outcome.stdout
  IO.eprint outcome.stderr
  return outcome.exit.toUInt32
