/-
  RpcSchema.Files.Path
  ────────────────────
  **Paths as texts.**

  A path keeps the spelling it was given; joining and taking the parent
  only cut and extend it.

      join "cfg" "t.json"    "cfg/t.json"
      join "cfg" "/t.json"   "/t.json"
      parent? "cfg/t.json"   "cfg"
      parent? "t.json"       ""
      parent? "/"            nothing

  Idle segments — empty ones and dots — at the end of a path do not count,
  nor do those that stand before the removed segment.
-/
import RpcSchema.Text.Split

namespace RpcSchema.Path

/-- A path that does not depend on the working directory. -/
def isAbsolute (path : String) : Bool :=
  path.toList.head? = some '/'

/-- What separates a base from the path that is joined to it. -/
def separator (base : String) : String :=
  match base.toList.getLast? with
  | none | some '/' => ""
  | some _ => "/"

/-- A path as seen from a base; an absolute path stands for itself. -/
def join (base path : String) : String :=
  if isAbsolute path then path else base ++ separator base ++ path

/-- The segments of a path between its slashes. -/
def segments (path : String) : List String :=
  Text.split '/' path

/-- A segment that stays where it is. -/
def isIdle (segment : String) : Bool :=
  segment = "" || segment = "."

/-- Segments without the idle ones at their end. -/
def dropIdle (segments : List String) : List String :=
  (segments.reverse.dropWhile isIdle).reverse

/-- Segments without the last one that is not idle. -/
def dropLast (segments : List String) : List String :=
  dropIdle (dropIdle segments).dropLast

/-- The path without its last segment, if it has one. -/
def parent? (path : String) : Option String :=
  match segments path with
  | "" :: rest =>
    if (dropIdle rest).isEmpty then none else some ("/" ++ Text.join '/' (dropLast rest))
  | "." :: rest =>
    if (dropIdle rest).isEmpty then some "" else some (Text.join '/' ("." :: dropLast rest))
  | all => some (Text.join '/' (dropLast all))

/-- The directory a path lies in. -/
def directory (path : String) : String :=
  match parent? path with
  | none | some "" => "."
  | some parent => parent

/-- A base does not matter to an absolute path. -/
theorem join_of_isAbsolute {base path : String} (h : isAbsolute path = true) :
    join base path = path := by
  simp [join, h]

/-- The empty base stands for the working directory. -/
theorem join_empty {path : String} : join "" path = path := by
  unfold join
  split
  · rfl
  · show "" ++ "" ++ path = path
    simp

end RpcSchema.Path
