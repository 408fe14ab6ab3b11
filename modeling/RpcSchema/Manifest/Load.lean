/-
  RpcSchema.Manifest.Load
  ───────────────────────
  **Packages from manifest files.**

  Below a directory, the manifest of `github.com/acme/chat` is the file
  `github.com/acme/chat.json`.  Given a file instead of a directory, that
  file is the only package there is.
-/
import RpcSchema.Files.Storage
import RpcSchema.Manifest.Build

namespace RpcSchema.Manifest

variable {m : Type → Type} [Monad m] [Storage m]

/-- The path of the manifest of a package. -/
def pathOf (root identifier : String) : m String := do
  if ← Storage.isFile root then return root
  else return Path.join root (identifier ++ ".json")

/-- Loads a package. -/
def load (root identifier : String) : m (Except LoadError Package) := do
  let path ← pathOf root identifier
  match ← Storage.readText path with
  | .error detail => return .error (.unreadable path detail)
  | .ok text => return Package.parseAs path text identifier

end RpcSchema.Manifest
