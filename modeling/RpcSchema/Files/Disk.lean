/-
  RpcSchema.Files.Disk
  ────────────────────
  **The disk as a store.**
-/
import RpcSchema.Files.Storage

namespace RpcSchema.Disk

/-- The answer of an action, or what the system says about its failure. -/
def attempt {α : Type} (action : IO α) : IO (Except String α) := do
  try
    return .ok (← action)
  catch e =>
    return .error (toString e)

/-- A file that can be read; a directory cannot. -/
def isFile (path : String) : IO Bool := do
  match ← attempt (IO.FS.readBinFile path) with
  | .ok _ => return true
  | .error _ => return false

/-- Creates an empty file, which must not be there yet. -/
def createNew (path : String) : IO Unit := do
  let _ ← IO.FS.Handle.mk path .writeNew

/-- A path as seen from the root. -/
def fromRoot (path : String) : IO String := do
  return Path.join (← IO.currentDir).toString path

/-- The name of a temporary file, with a number of six digits. -/
def temporaryName : IO String := do
  return ".tmp" ++ toString (← IO.rand 100000 999999)

/-- Creates a temporary file, drawing another name at most `n` times. -/
def createTemporary (dir : String) : Nat → IO (Except String String)
  | 0 => return .error "no unused name"
  | n + 1 => do
    let path ← fromRoot (Path.join dir (← temporaryName))
    match ← attempt (createNew path) with
    | .ok () => return .ok path
    | .error detail => if n = 0 then return .error detail else createTemporary dir n

/-- Adds text to the end of a file that is there. -/
def append (path text : String) : IO Unit :=
  IO.FS.withFile path .append fun file => file.putStr text

/-- Removes a file, if it is there. -/
def remove (path : String) : IO Unit := do
  let _ ← attempt (IO.FS.removeFile path)

/-- The names that are tried for a temporary file. -/
def attempts : Nat := 16

instance : Storage IO where
  isFile := isFile
  readText path := attempt (IO.FS.readFile path)
  createTemporary dir := createTemporary dir attempts
  append path text := attempt (append path text)
  rename source target := attempt (IO.FS.rename source target)
  remove := remove

instance : Surroundings IO where
  lookup name := IO.getEnv name

end RpcSchema.Disk
