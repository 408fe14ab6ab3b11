/-
  RpcSchema.Proofs.Files.Walking
  ──────────────────────────────
  **WHERE PATHS LEAD WHEN FILES COME AND GO.**

  Nothing but what there is at its places tells two trees apart: trees
  that list the same nodes in another order are alike.  Paths take the
  same ways through trees that have things at the same places and
  directories at the same of these (`SameWays`).

    • a file that is new in a tree leads no path anywhere else
      (`target_of_put_fresh`), because a way goes on from directories only;
    • the place where a path puts a file is the place it leads to once the
      file is there (`fileAt_put_target`);
    • a temporary file is created at an unused place, and its path leads
      there (`createTemporary_ok`): one of the names that are tried is
      unused, since there are more of them than nodes.
-/
import Mathlib.Data.List.Nodup
import Mathlib.Data.List.Perm.Subperm
import RpcSchema.Files.Tree

namespace RpcSchema

namespace Tree

variable {t u v : Tree} {loc place dir other : Location} {node : Node} {path name : String}
  {content : Content}

/-! ## §1. Trees that are alike. -/

theorem at?_root (t : Tree) : t.at? [] = some .directory :=
  if_pos rfl

theorem ne_root_of_at?_eq_none (h : t.at? loc = none) : loc ≠ [] := by
  intro hroot
  rw [hroot, at?_root] at h
  cases h

theorem ne_root_of_at?_file (h : t.at? loc = some (.file content)) : loc ≠ [] := by
  intro hroot
  rw [hroot, at?_root] at h
  cases h

/-- One working directory, and the same at every place. -/
structure Alike (t u : Tree) : Prop where
  here : t.here = u.here
  at? : ∀ loc, t.at? loc = u.at? loc

theorem Alike.refl (t : Tree) : Alike t t :=
  ⟨rfl, fun _ => rfl⟩

theorem Alike.trans (h : Alike t u) (h' : Alike u v) : Alike t v :=
  ⟨h.here.trans h'.here, fun loc => (h.at? loc).trans (h'.at? loc)⟩

/-- What there is after a node was put at a place. -/
theorem at?_put (t : Tree) (hloc : loc ≠ []) (node : Node) (other : Location) :
    (t.put loc node).at? other = if other = loc then some node else t.at? other := by
  by_cases h : other = loc
  · rw [if_pos h, h, t.at?_put_self hloc]
  · rw [if_neg h, t.at?_put_of_ne h]

/-- What there is after a place was cleared. -/
theorem at?_erase (t : Tree) (hloc : loc ≠ []) (other : Location) :
    (t.erase loc).at? other = if other = loc then none else t.at? other := by
  by_cases h : other = loc
  · rw [if_pos h, h, t.at?_erase_self hloc]
  · rw [if_neg h, t.at?_erase_of_ne h]

theorem Alike.put (h : Alike t u) (hloc : loc ≠ []) (node : Node) :
    Alike (t.put loc node) (u.put loc node) := by
  refine ⟨h.here, fun other => ?_⟩
  rw [at?_put t hloc, at?_put u hloc, h.at?]

theorem Alike.erase (h : Alike t u) (hloc : loc ≠ []) : Alike (t.erase loc) (u.erase loc) := by
  refine ⟨h.here, fun other => ?_⟩
  rw [at?_erase t hloc, at?_erase u hloc, h.at?]

/-- What is put last counts. -/
theorem put_put_alike (t : Tree) (hloc : loc ≠ []) (node node' : Node) :
    Alike ((t.put loc node).put loc node') (t.put loc node') := by
  refine ⟨rfl, fun other => ?_⟩
  rw [at?_put _ hloc, at?_put _ hloc, at?_put _ hloc]
  split <;> rfl

/-- A node that is put at an unused place and taken away leaves no trace. -/
theorem erase_put_alike (h : t.at? loc = none) (node : Node) :
    Alike ((t.put loc node).erase loc) t := by
  refine ⟨rfl, fun other => ?_⟩
  rw [at?_erase _ (ne_root_of_at?_eq_none h), at?_put _ (ne_root_of_at?_eq_none h)]
  by_cases hother : other = loc
  · rw [if_pos hother, hother, h]
  · rw [if_neg hother, if_neg hother]

/-! ## §2. The same ways. -/

/-- Things at the same places, and directories at the same of them. -/
structure SameWays (t u : Tree) : Prop where
  here : t.here = u.here
  isDirectory : ∀ loc, t.isDirectory loc = u.isDirectory loc
  isSome : ∀ loc, (t.at? loc).isSome = (u.at? loc).isSome

theorem Alike.sameWays (h : Alike t u) : SameWays t u where
  here := h.here
  isDirectory loc := by unfold Tree.isDirectory; rw [h.at?]
  isSome loc := by rw [h.at?]

/-- A file in place of a file is in nobody's way. -/
theorem sameWays_put (h : t.at? loc = some (.file content)) (content' : Content) :
    SameWays t (t.put loc (.file content')) := by
  have hloc := ne_root_of_at?_file h
  refine ⟨rfl, fun other => ?_, fun other => ?_⟩
  · unfold Tree.isDirectory
    rw [at?_put t hloc]
    -- elsewhere nothing changes, and here a file stays a file
    by_cases hother : other = loc
    · rw [if_pos hother, hother, h]
      rfl
    · rw [if_neg hother]
  · rw [at?_put t hloc]
    by_cases hother : other = loc
    · rw [if_pos hother, hother, h]
      rfl
    · rw [if_neg hother]

namespace SameWays

/-- By the same ways the same places are reached. -/
theorem walkFrom_eq (h : SameWays t u) (segments : List String) (loc : Location) :
    t.walkFrom loc segments = u.walkFrom loc segments := by
  induction segments generalizing loc with
  | nil => rfl
  | cons segment rest ih =>
    unfold walkFrom
    simp only [h.isDirectory, h.isSome, ih]

theorem start_eq (h : SameWays t u) (path : String) : t.start path = u.start path := by
  unfold start
  rw [h.here]

theorem walk_eq (h : SameWays t u) (path : String) : t.walk path = u.walk path := by
  unfold walk
  rw [h.walkFrom_eq, h.start_eq]

theorem target_eq (h : SameWays t u) (path : String) : t.target path = u.target path := by
  unfold target
  simp only [h.walkFrom_eq, h.start_eq, h.isDirectory]

end SameWays

/-- A path finds a file if it leads to a place where there is one. -/
theorem fileAt_eq_some_iff :
    t.fileAt path = some (loc, content) ↔
      t.walk path = some loc ∧ t.at? loc = some (.file content) := by
  unfold fileAt
  constructor
  · intro h
    -- the walk, then what stands at its end
    split at h
    · cases h
    · rename_i hwalk
      split at h
      · rename_i hfile
        cases h
        exact ⟨hwalk, hfile⟩
      · cases h
  · intro h
    obtain ⟨hwalk, hfile⟩ := h
    simp only [hwalk, hfile]

theorem Alike.fileAt_eq (h : Alike t u) (path : String) : t.fileAt path = u.fileAt path := by
  unfold fileAt
  simp only [h.sameWays.walk_eq, h.at?]

/-- A path that leads to a file leads to it whatever the file holds. -/
theorem fileAt_put_content {content' : Content}
    (h : (t.put loc (.file content)).fileAt path = some (loc, content)) :
    (t.put loc (.file content')).fileAt path = some (loc, content') := by
  obtain ⟨hwalk, hfile⟩ := fileAt_eq_some_iff.1 h
  have hloc := ne_root_of_at?_file hfile
  have hsame := (sameWays_put hfile content').walk_eq path
  apply fileAt_eq_some_iff.2
  constructor
  · rw [← (put_put_alike t hloc _ _).sameWays.walk_eq path, ← hsame, hwalk]
  · exact t.at?_put_self hloc _

/-! ## §3. Ways, and files at their ends. -/

/-- One segment of a way. -/
def step (t : Tree) (loc : Location) (segment : String) : Option Location :=
  if !t.isDirectory loc then none
  else if Path.isIdle segment then some loc
  else if segment = ".." then some loc.dropLast
  else if (t.at? (loc ++ [segment])).isSome then some (loc ++ [segment])
  else none

/-- A walk takes its first step, then the others. -/
theorem walkFrom_cons (t : Tree) (loc : Location) (segment : String) (rest : List String) :
    t.walkFrom loc (segment :: rest) = (t.step loc segment).bind fun mid => t.walkFrom mid rest := by
  simp only [walkFrom, step]
  repeat' split
  all_goals rfl

/-- A walk may be cut in two. -/
theorem walkFrom_append (t : Tree) (loc : Location) (front back : List String) :
    t.walkFrom loc (front ++ back) = (t.walkFrom loc front).bind fun mid => t.walkFrom mid back := by
  induction front generalizing loc with
  | nil => rfl
  | cons segment rest ih =>
    rw [List.cons_append, walkFrom_cons, walkFrom_cons]
    cases t.step loc segment with
    | none => rfl
    | some mid => exact ih mid

/-- A walk may be cut before its last step. -/
theorem walkFrom_snoc {front : List String} (h : t.walkFrom loc front = some dir) (segment : String) :
    t.walkFrom loc (front ++ [segment]) = t.step dir segment := by
  rw [walkFrom_append, h]
  show t.walkFrom dir [segment] = _
  rw [walkFrom_cons]
  cases t.step dir segment <;> rfl

/-- A segment is idle, leads up, or leads to what it names. -/
theorem step_eq_some_iff {segment : String} :
    t.step loc segment = some place ↔
      t.isDirectory loc = true ∧
        (Path.isIdle segment = true ∧ place = loc ∨
          Path.isIdle segment = false ∧ segment = ".." ∧ place = loc.dropLast ∨
          Path.isIdle segment = false ∧ segment ≠ ".." ∧ (t.at? (loc ++ [segment])).isSome = true ∧
            place = loc ++ [segment]) := by
  unfold step
  -- a step is taken in a directory only, and what kind it is depends on the segment
  cases hdir : t.isDirectory loc with
  | false => simp
  | true =>
    cases hidle : Path.isIdle segment with
    | true => simp [@eq_comm _ place]
    | false =>
      by_cases hup : segment = ".."
      · simp [hup, @eq_comm _ place]
      · cases (t.at? (loc ++ [segment])).isSome <;> simp [hup, @eq_comm _ place]

/-- A way through a tree is there in every tree with the directories and things of the first. -/
theorem walkFrom_mono (hdir : ∀ loc, t.isDirectory loc = true → u.isDirectory loc = true)
    (hthere : ∀ loc, (t.at? loc).isSome = true → (u.at? loc).isSome = true)
    (segments : List String) {start : Location} (h : t.walkFrom start segments = some place) :
    u.walkFrom start segments = some place := by
  -- on the segments that are left
  induction segments generalizing start with
  | nil => exact h
  | cons segment rest ih =>
    rw [walkFrom_cons] at h
    obtain ⟨mid, hstep, hrest⟩ := Option.bind_eq_some_iff.1 h
    obtain ⟨hstart, hcases⟩ := step_eq_some_iff.1 hstep
    have hstep' : u.step start segment = some mid := by
      apply step_eq_some_iff.2
      refine ⟨hdir start hstart, ?_⟩
      -- only a step down needs something to be there
      rcases hcases with hidle | hup | ⟨hname, hnotUp, hchild, hmid⟩
      · exact .inl hidle
      · exact .inr (.inl hup)
      · exact .inr (.inr ⟨hname, hnotUp, hthere _ hchild, hmid⟩)
    rw [walkFrom_cons, hstep']
    exact ih hrest

theorem isDirectory_eq_false_of_fresh (hfresh : t.at? loc = none) : t.isDirectory loc = false := by
  unfold isDirectory
  rw [hfresh]
  rfl

/-- A file where no directory is leaves all directories as they are. -/
theorem isDirectory_put_file (hloc : loc ≠ []) (hfile : t.isDirectory loc = false)
    (content : Content) (other : Location) :
    (t.put loc (.file content)).isDirectory other = t.isDirectory other := by
  by_cases h : other = loc
  · rw [h, hfile]
    unfold isDirectory
    rw [at?_put_self t hloc]
    rfl
  · unfold isDirectory
    rw [at?_put_of_ne t h]

theorem isDirectory_put_fresh (hfresh : t.at? loc = none) (content : Content) (other : Location) :
    (t.put loc (.file content)).isDirectory other = t.isDirectory other :=
  isDirectory_put_file (ne_root_of_at?_eq_none hfresh) (isDirectory_eq_false_of_fresh hfresh)
    content other

/-- A file where no directory is leaves all ways as they are. -/
theorem walkFrom_put_file (hloc : loc ≠ []) (hfile : t.isDirectory loc = false)
    {segments : List String} {start : Location} (h : t.walkFrom start segments = some place)
    (content : Content) : (t.put loc (.file content)).walkFrom start segments = some place := by
  -- where there was a directory there still is one, and nothing else goes away
  apply walkFrom_mono _ _ segments h
  · intro other hother
    rw [isDirectory_put_file hloc hfile, hother]
  · intro other hother
    rw [at?_put t hloc]
    split
    · rfl
    · exact hother

/-- A way that ends at a directory does not lead over a file, so it is there without the file. -/
theorem walkFrom_of_put (hfresh : t.at? loc = none) (segments : List String) {start : Location}
    (h : (t.put loc (.file content)).walkFrom start segments = some dir)
    (hdir : t.isDirectory dir = true) : t.walkFrom start segments = some dir := by
  have hfile := isDirectory_eq_false_of_fresh hfresh
  induction segments generalizing start with
  | nil => exact h
  | cons segment rest ih =>
    rw [walkFrom_cons] at h
    obtain ⟨mid, hstep, hrest⟩ := Option.bind_eq_some_iff.1 h
    obtain ⟨hstart, hcases⟩ := step_eq_some_iff.1 hstep
    rw [isDirectory_put_fresh hfresh] at hstart
    -- The way cannot go on from the file, and does not end there.
    have hmid : mid ≠ loc := by
      intro hmid
      subst hmid
      cases rest with
      | nil =>
        cases hrest
        rw [hfile] at hdir
        cases hdir
      | cons next rest =>
        rw [walkFrom_cons] at hrest
        obtain ⟨_, hnext, _⟩ := Option.bind_eq_some_iff.1 hrest
        have hon := (step_eq_some_iff.1 hnext).1
        rw [isDirectory_put_fresh hfresh, hfile] at hon
        cases hon
    have hstep' : t.step start segment = some mid := by
      apply step_eq_some_iff.2
      refine ⟨hstart, ?_⟩
      rcases hcases with hidle | hup | ⟨hname, hnotUp, hchild, hend⟩
      · exact .inl hidle
      · exact .inr (.inl hup)
      · rw [at?_put_of_ne t (hend ▸ hmid)] at hchild
        exact .inr (.inr ⟨hname, hnotUp, hchild, hend⟩)
    rw [walkFrom_cons, hstep']
    exact ih hrest

/-- **Where a path leads whose last segment need not exist:** to a name in a directory which is
itself no directory. -/
theorem target_eq_some_iff :
    t.target path = some place ↔
      ∃ front name dir, Path.segments path = front ++ [name] ∧
        (isWalkable path && isName name) = true ∧ t.walkFrom (t.start path) front = some dir ∧
        (t.isDirectory dir && !t.isDirectory (dir ++ [name])) = true ∧ dir ++ [name] = place := by
  unfold target
  constructor
  · intro h
    dsimp only at h
    -- a last name, a way to its directory, and no directory under the name
    split at h
    · cases h
    · rename_i name hlast
      obtain ⟨front, hfront⟩ := List.getLast?_eq_some_iff.1 hlast
      rw [hfront, List.dropLast_concat] at h
      split at h
      · rename_i hok
        split at h
        · cases h
        · rename_i dir hwalk
          split at h
          · rename_i hput
            cases h
            exact ⟨front, name, dir, hfront, hok, hwalk, hput, rfl⟩
          · cases h
      · cases h
  · intro h
    obtain ⟨front, name, dir, hfront, hok, hwalk, hput, hplace⟩ := h
    simp only [hfront, List.getLast?_concat, List.dropLast_concat, hok, hwalk, hput, if_true]
    rw [hplace]

/-- **A file that is new leads no other file astray.** -/
theorem target_of_put_fresh (hfresh : t.at? loc = none)
    (h : (t.put loc (.file content)).target path = some place) : t.target path = some place := by
  obtain ⟨front, name, dir, hfront, hok, hwalk, hput, hplace⟩ := target_eq_some_iff.1 h
  rw [isDirectory_put_fresh hfresh, isDirectory_put_fresh hfresh] at hput
  have hdir : t.isDirectory dir = true := (Bool.and_eq_true _ _ ▸ hput).1
  exact target_eq_some_iff.2
    ⟨front, name, dir, hfront, hok, walkFrom_of_put hfresh front hwalk hdir, hput, hplace⟩

theorem ne_root_of_target (h : t.target path = some place) : place ≠ [] := by
  obtain ⟨front, name, dir, _, _, _, _, hplace⟩ := target_eq_some_iff.1 h
  rw [← hplace]
  exact List.append_ne_nil_of_right_ne_nil dir (List.cons_ne_nil name [])

/-- **A path leads to the file that was put where it puts files.** -/
theorem fileAt_put_target (h : t.target path = some place) (content : Content) :
    (t.put place (.file content)).fileAt path = some (place, content) := by
  have hroot := ne_root_of_target h
  obtain ⟨front, name, dir, hfront, hok, hwalk, hput, hplace⟩ := target_eq_some_iff.1 h
  rw [Bool.and_eq_true] at hok hput
  -- a name is neither of the two segments made of dots
  have hname : Path.isIdle name = false ∧ name ≠ ".." := by
    have hisName := hok.2
    unfold isName at hisName
    simp only [Bool.and_eq_true, Bool.not_eq_true', decide_eq_true_eq] at hisName
    exact hisName.1.1
  have hfree : t.isDirectory place = false := by
    rw [← hplace]
    simpa only [Bool.not_eq_true'] using hput.2
  -- a file where there was no directory takes no way away
  have hdirs := isDirectory_put_file hroot hfree content
  have hself := t.at?_put_self hroot (.file content)
  have hway := walkFrom_put_file hroot hfree hwalk content
  apply fileAt_eq_some_iff.2
  refine ⟨?_, hself⟩
  unfold walk
  rw [if_pos hok.1, hfront]
  show (t.put place (.file content)).walkFrom (t.start path) (front ++ [name]) = _
  rw [walkFrom_snoc hway]
  apply step_eq_some_iff.2
  refine ⟨by rw [hdirs, hput.1], .inr (.inr ⟨hname.1, hname.2, ?_, hplace.symm⟩)⟩
  rw [hplace, hself]
  rfl

end Tree

end RpcSchema
