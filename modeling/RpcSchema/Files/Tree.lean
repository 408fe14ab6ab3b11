/-
  RpcSchema.Files.Tree
  ────────────────────
  **A tree of files as a store.**

  A tree knows what there is below its root, and which place is the
  working directory.  A path is walked segment by segment, an absolute one
  from the root and any other from the working directory, and every
  segment, also an idle one, has to start from a directory.  The root is
  its own parent.

  Main statements: `at?_put_self`, `at?_put_of_ne`, `at?_erase_self` and
  `at?_erase_of_ne`.
-/
import RpcSchema.Files.Storage
import RpcSchema.Sequence.Association

namespace RpcSchema

/-! ## §1. Trees. -/

/-- What a file holds: text, or bytes that are none. -/
inductive Content where
  | text (s : String)
  | bytes (b : List UInt8)
  deriving DecidableEq, Repr

/-- What there may be at a place. -/
inductive Node where
  | file (content : Content)
  | directory
  deriving DecidableEq, Repr

/-- A place: the names that lead to it from the root. -/
abbrev Location := List String

/-- A tree of files with its working directory. -/
structure Tree where
  /-- The working directory. -/
  here : Location
  /-- What there is at each place but the root. -/
  nodes : List (Location × Node)
  deriving DecidableEq, Repr

namespace Tree

/-- What there is at a place. -/
def at? (t : Tree) (loc : Location) : Option Node :=
  if loc = [] then some .directory else t.nodes.lookup loc

/-- The tree without what is at a place. -/
def erase (t : Tree) (loc : Location) : Tree :=
  { t with nodes := t.nodes.filter (·.1 ≠ loc) }

/-- The tree with a node put at a place, instead of the one that is there. -/
def put (t : Tree) (loc : Location) (node : Node) : Tree :=
  { t with nodes := (loc, node) :: (t.erase loc).nodes }

/-- A place with a directory; the root is one. -/
def isDirectory (t : Tree) (loc : Location) : Bool :=
  t.at? loc = some .directory

/-! ## §2. Walking. -/

/-- Follows segments from a place. -/
def walkFrom (t : Tree) (loc : Location) : List String → Option Location
  | [] => some loc
  | segment :: rest =>
    if !t.isDirectory loc then none
    else if Path.isIdle segment then t.walkFrom loc rest
    -- above the root there is only the root
    else if segment = ".." then t.walkFrom loc.dropLast rest
    else
      let child := loc ++ [segment]
      if (t.at? child).isSome then t.walkFrom child rest else none

/-- The most bytes of a path. -/
def pathLimit : Nat := 4095

/-- The most bytes of a segment. -/
def segmentLimit : Nat := 255

/-- A path that can be walked. -/
def isWalkable (path : String) : Bool :=
  path ≠ "" && path.utf8ByteSize ≤ pathLimit

/-- The place a path starts from. -/
def start (t : Tree) (path : String) : Location :=
  if Path.isAbsolute path then [] else t.here

/-- The existing place a path leads to. -/
def walk (t : Tree) (path : String) : Option Location :=
  if isWalkable path then t.walkFrom (t.start path) (Path.segments path) else none

/-- A segment that can name a file. -/
def isName (segment : String) : Bool :=
  !Path.isIdle segment && segment ≠ ".." && segment.utf8ByteSize ≤ segmentLimit
    && !segment.toList.contains '\x00'

/-- The place where a path puts a file: its directory exists, and nothing but a file is
there. -/
def target (t : Tree) (path : String) : Option Location :=
  let segments := Path.segments path
  match segments.getLast? with
  | none => none
  | some name =>
    if isWalkable path && isName name then
      match t.walkFrom (t.start path) segments.dropLast with
      | none => none
      | some dir =>
        let loc := dir ++ [name]
        -- a directory is not replaced by a file
        if t.isDirectory dir && !t.isDirectory loc then some loc else none
    else none

/-! ## §3. Operations. -/

/-- The file a path leads to, with its content. -/
def fileAt (t : Tree) (path : String) : Option (Location × Content) :=
  match t.walk path with
  | none => none
  | some loc =>
    match t.at? loc with
    | some (.file content) => some (loc, content)
    | _ => none

/-- The text of the file a path leads to. -/
def readText (t : Tree) (path : String) : Except String String :=
  match t.fileAt path with
  | some (_, .text s) => .ok s
  | some (_, .bytes _) => .error "the file holds no text"
  | none => .error "no such file"

/-- The names of temporary files: their numbers have six digits, unless more than those are
needed. -/
def temporaryName (i : Nat) : String :=
  ".tmp" ++ toString (100000 + i)

/-- The first temporary name that is not used in a directory; one of as many names as there are
nodes, and one more, is unused. -/
def unusedName (t : Tree) (dir : Location) : String :=
  (((List.range (t.nodes.length + 1)).map temporaryName).find? fun name =>
    (t.at? (dir ++ [name])).isNone).getD ""

/-- A path as seen from the root. -/
def fromRoot (t : Tree) (path : String) : String :=
  Path.join ("/" ++ Text.join '/' t.here) path

/-- A temporary file is created by its path from the root, so that one must not be too long
either. -/
def createTemporary (t : Tree) (dir : String) : Except String String × Tree :=
  match t.walk dir with
  | none => (.error "no such directory", t)
  | some loc =>
    let name := t.unusedName loc
    let path := Path.join dir name
    if t.isDirectory loc && isWalkable (t.fromRoot path) then
      (.ok path, t.put (loc ++ [name]) (.file (.text "")))
    else (.error "no place for a file", t)

/-- Adds text to the end of the file a path leads to. -/
def append (t : Tree) (path text : String) : Except String Unit × Tree :=
  match t.fileAt path with
  | some (loc, .text s) => (.ok (), t.put loc (.file (.text (s ++ text))))
  | some (_, .bytes _) => (.error "the file holds no text", t)
  | none => (.error "no such file", t)

/-- Moves the file a path leads to; a file at the other path is replaced, a directory is not. -/
def rename (t : Tree) (source path : String) : Except String Unit × Tree :=
  match t.fileAt source, t.target path with
  | some (loc, content), some target => (.ok (), (t.erase loc).put target (.file content))
  | none, _ => (.error "no such file", t)
  | _, none => (.error "no place for a file", t)

/-- The tree without the file a path leads to; a directory stays. -/
def remove (t : Tree) (path : String) : Tree :=
  match t.fileAt path with
  | some (loc, _) => t.erase loc
  | none => t

instance : Storage (StateM Tree) where
  isFile path := fun t => ((t.fileAt path).isSome, t)
  readText path := fun t => (t.readText path, t)
  createTemporary dir := fun t => t.createTemporary dir
  append path text := fun t => t.append path text
  rename source path := fun t => t.rename source path
  remove path := fun t => ((), t.remove path)

/-- No variables are set around a tree. -/
instance : Surroundings (StateM Tree) where
  lookup _ := return none

/-! ## §4. Building. -/

/-- The tree with a directory at a place and at all places above it. -/
def addDirectory (t : Tree) (loc : Location) : Tree :=
  (List.range loc.length).foldl (fun t i => t.put (loc.take (i + 1)) .directory) t

/-- The tree with a file at a place, and the directories above it. -/
def addFile (t : Tree) (loc : Location) (content : Content) : Tree :=
  (t.addDirectory loc.dropLast).put loc (.file content)

/-- A tree with nothing but its working directory. -/
def bare (here : Location) : Tree :=
  addDirectory ⟨here, []⟩ here

/-- All files with their contents. -/
def files (t : Tree) : List (Location × Content) :=
  t.nodes.filterMap fun (loc, node) =>
    match node with
    | .file content => some (loc, content)
    | .directory => none

/-- The files that are new in a tree, or hold something else than in the tree before. -/
def changed (before after : Tree) : List (Location × Content) :=
  after.files.filter fun (loc, content) => before.at? loc ≠ some (.file content)

/-- A place as seen from the working directory, if it lies below that. -/
def fromHere? (t : Tree) (loc : Location) : Option Location :=
  if t.here.isPrefixOf loc then some (loc.drop t.here.length) else none

/-! ## §5. What there is after a change. -/

/-- Nothing is left at a place that is erased. -/
theorem at?_erase_self (t : Tree) {loc : Location} (h : loc ≠ []) :
    (t.erase loc).at? loc = none := by
  rw [at?, if_neg h]
  exact Sequence.lookup_filter_self loc _

/-- Nothing changes at any other place. -/
theorem at?_erase_of_ne (t : Tree) {loc other : Location} (h : other ≠ loc) :
    (t.erase loc).at? other = t.at? other := by
  unfold at?
  split
  · rfl
  · exact Sequence.lookup_filter_of_ne h _

/-- What is put at a place is there. -/
theorem at?_put_self (t : Tree) {loc : Location} (h : loc ≠ []) (node : Node) :
    (t.put loc node).at? loc = some node := by
  simp [put, at?, h]

/-- Nothing changes at any other place. -/
theorem at?_put_of_ne (t : Tree) {loc other : Location} (h : other ≠ loc) (node : Node) :
    (t.put loc node).at? other = t.at? other := by
  rw [← t.at?_erase_of_ne h]
  unfold at?
  split
  · rfl
  · exact Sequence.lookup_cons_of_ne h node _

end Tree

end RpcSchema
