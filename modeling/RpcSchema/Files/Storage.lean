/-
  RpcSchema.Files.Storage
  ───────────────────────
  **What the commands need of a file store, and of their surroundings.**

  The commands are written over any monad with these operations, so that
  they can run on a disk and on a tree of files alike.  A failure is given
  as the text that tells why.  Of its surroundings a command reads the
  variables that are set there, and nothing else.

  A file is replaced in two steps: the new content goes to a temporary
  file in the same directory, through a buffer, and the temporary file
  then takes the place of the old one.
  If any step fails, the temporary file is removed.
-/
import RpcSchema.Files.Path
import RpcSchema.Proto.Emission

namespace RpcSchema

/-- A store of files, named by paths. -/
class Storage (m : Type → Type) where
  /-- Whether a path leads to a file rather than a directory. -/
  isFile : String → m Bool
  /-- The content of a file that holds text. -/
  readText : String → m (Except String String)
  /-- Creates an empty file under an unused name in a directory, and gives its path. -/
  createTemporary : String → m (Except String String)
  /-- Adds text to the end of a file. -/
  append : String → String → m (Except String Unit)
  /-- Moves a file to another path, in place of the file that is there. -/
  rename : String → String → m (Except String Unit)
  /-- Removes a file; that there is none is no failure. -/
  remove : String → m Unit

/-- What a run finds set around it. -/
class Surroundings (m : Type → Type) where
  /-- The value of a variable, if it is set and is a text. -/
  lookup : String → m (Option String)

namespace Storage

variable {m : Type → Type} [Monad m] [Storage m]

/-- A file as a sink. -/
def sink (path : String) : Emission.Sink m String where
  write text := append path text
  flush := pure (.ok ())

/-- Writes some steps to a temporary file and moves it to its place. -/
def fill (temporary path : String) (steps : List Emission.Step) : m (Except String Unit) := do
  match ← Emission.streamBuffered (sink temporary) steps with
  | .error e => return .error e
  | .ok () => rename temporary path

/-- Replaces the file at a path by what some steps write, or leaves it as it is. -/
def replace (path : String) (steps : List Emission.Step) : m (Except String Unit) := do
  match ← createTemporary (Path.directory path) with
  | .error e => return .error e
  | .ok temporary =>
    match ← fill temporary path steps with
    | .ok () => return .ok ()
    -- a file that is not complete is not left behind
    | .error e =>
      remove temporary
      return .error e

end Storage

end RpcSchema
