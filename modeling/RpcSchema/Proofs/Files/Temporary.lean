/-
  RpcSchema.Proofs.Files.Temporary
  ────────────────────────────────
  **A TEMPORARY FILE IS NEW, AND ITS PATH LEADS TO IT.**

  The name of a temporary file is the first one that is unused in its
  directory, and there is one: `n + 1` different names are tried in a tree
  of `n` nodes.  The path of the file is the path of the directory, joined
  with the name; whether the directory is spelled with a slash at its end
  or without one, walking that path ends with the step from the directory
  to the name (`walk_join`).

  Main statement: `createTemporary_ok`.
-/
import Mathlib.Data.List.Nodup
import Mathlib.Data.List.Perm.Subperm
import RpcSchema.Proofs.Files.Walking

namespace RpcSchema

/-! ## §1. The segments of a joined path. -/

namespace Path

variable {dir name : String}

/-- A segment that is no detour: it names something in a directory. -/
structure IsPlain (name : String) : Prop where
  noSlash : '/' ∉ name.toList
  notIdle : isIdle name = false
  notUp : name ≠ ".."

theorem IsPlain.segments_eq (h : IsPlain name) : segments name = [name] := by
  unfold segments Text.split
  rw [Text.splitChars_of_not_mem h.noSlash, List.map_singleton, String.ofList_toList]

theorem IsPlain.not_isAbsolute (h : IsPlain name) : isAbsolute name = false := by
  unfold isAbsolute
  rw [decide_eq_false_iff_not]
  intro hhead
  exact h.noSlash (List.mem_of_head? hhead)

/-- The segments of paths joined by a slash are those of both. -/
theorem segments_append_slash (front back : String) :
    segments (front ++ "/" ++ back) = segments front ++ segments back := by
  unfold segments Text.split
  rw [String.toList_append, String.toList_append, List.append_assoc, ← List.map_append,
    ← Text.splitChars_append_cons]
  rfl

/-- The last segment of a joined path is the name.  Before it stands the directory, without the
empty segment that a slash at its end makes. -/
theorem exists_segments_join (hdir : dir ≠ "") (h : IsPlain name) :
    ∃ front, segments (join dir name) = front ++ [name] ∧
      (segments dir = front ∨ segments dir = front ++ [""]) := by
  unfold join
  rw [if_neg (by rw [h.not_isAbsolute]; exact Bool.false_ne_true)]
  unfold separator
  -- a separator is put in between unless the directory ends in one
  split
  · rename_i hnone
    exact absurd (String.toList_eq_nil_iff.1 (List.getLast?_eq_none_iff.1 hnone)) hdir
  · -- the segments of the directory end in an empty one
    rename_i hslash
    obtain ⟨front, hfront⟩ := List.getLast?_eq_some_iff.1 hslash
    have hsplit : dir = String.ofList front ++ "/" ++ "" := by
      apply String.toList_injective
      rw [hfront]
      simp
    refine ⟨segments (String.ofList front), ?_, .inr ?_⟩
    · rw [hsplit, String.append_empty, String.append_empty, segments_append_slash, h.segments_eq]
    · rw [hsplit, segments_append_slash]
      rfl
  · refine ⟨segments dir, ?_, .inl rfl⟩
    rw [segments_append_slash, h.segments_eq]

/-- A path below a directory is absolute if the directory is. -/
theorem isAbsolute_join (hdir : dir ≠ "") (h : IsPlain name) :
    isAbsolute (join dir name) = isAbsolute dir := by
  unfold join
  rw [if_neg (by rw [h.not_isAbsolute]; exact Bool.false_ne_true)]
  unfold isAbsolute
  rw [String.toList_append, String.toList_append, List.append_assoc]
  cases hcs : dir.toList with
  | nil => exact absurd (String.toList_eq_nil_iff.1 hcs) hdir
  | cons c cs => rfl

/-- A path below a directory is not empty. -/
theorem join_ne_empty (h : IsPlain name) : join dir name ≠ "" := by
  intro hempty
  -- an empty name would be an idle segment
  have hname : name ≠ "" := by
    intro hname
    have hidle := h.notIdle
    rw [hname] at hidle
    cases hidle
  unfold join at hempty
  split at hempty
  · exact hname hempty
  · exact hname (String.append_eq_empty_iff.1 hempty).2

/-- A joined path is no shorter than the second one. -/
theorem byteSize_le_join (base path : String) :
    path.utf8ByteSize ≤ (join base path).utf8ByteSize := by
  unfold join
  split
  · exact Nat.le_refl _
  · rw [String.utf8ByteSize_append]
    omega

end Path

/-! ## §2. The way to a name in a directory. -/

namespace Tree

variable {t : Tree} {loc : Location} {dir name path : String}

/-- **A path and a name joined lead from the place of the path on to the name.** -/
theorem walk_join (h : t.walk dir = some loc) (hname : Path.IsPlain name)
    (hwalkable : isWalkable (Path.join dir name) = true) :
    t.walk (Path.join dir name) = t.step loc name := by
  unfold walk at h ⊢
  by_cases hdir : isWalkable dir = true
  · rw [if_pos hdir] at h
    rw [if_pos hwalkable]
    have hnonempty : dir ≠ "" := by
      unfold isWalkable at hdir
      rw [Bool.and_eq_true] at hdir
      exact of_decide_eq_true hdir.1
    have hstart : t.start (Path.join dir name) = t.start dir := by
      unfold start
      rw [Path.isAbsolute_join hnonempty hname]
    obtain ⟨front, hjoined, hsame | hslash⟩ := Path.exists_segments_join hnonempty hname
    · rw [hsame] at h
      rw [hjoined, hstart, walkFrom_snoc h]
    · -- The empty segment of the slash leads nowhere else.
      rw [hslash, walkFrom_append] at h
      obtain ⟨mid, hmid, hidle⟩ := Option.bind_eq_some_iff.1 h
      rw [← List.nil_append [""], walkFrom_snoc (show t.walkFrom mid [] = some mid from rfl)] at hidle
      obtain ⟨_, hsame | ⟨hfalse, _⟩ | ⟨hfalse, _⟩⟩ := step_eq_some_iff.1 hidle
      · rw [hjoined, hstart, walkFrom_snoc hmid, hsame.2]
      · exact absurd hfalse (by decide)
      · exact absurd hfalse (by decide)
  · rw [if_neg hdir] at h
    cases h

/-! ## §3. Unused names. -/

/-- Each number makes its own name. -/
theorem temporaryName_injective : Function.Injective temporaryName := by
  intro i j h
  have hrepr : Nat.repr (100000 + i) = Nat.repr (100000 + j) :=
    (String.append_right_inj ".tmp").1 h
  have hdigits := congrArg (fun s : String => Nat.ofDigitChars 10 s.toList 0) hrepr
  simp only [Nat.toList_repr, Nat.ofDigitChars_ten_toDigits] at hdigits
  omega

/-- The characters of a temporary name. -/
theorem toList_temporaryName (i : Nat) :
    (temporaryName i).toList = '.' :: 't' :: 'm' :: 'p' :: Nat.toDigits 10 (100000 + i) := by
  show (".tmp" ++ Nat.repr (100000 + i)).toList = _
  rw [String.toList_append, Nat.toList_repr]
  rfl

/-- A temporary name is no short segment, such as one of dots. -/
theorem temporaryName_ne {i : Nat} {segment : String} (h : segment.length < 4) :
    temporaryName i ≠ segment := by
  intro heq
  have hlength := congrArg List.length (toList_temporaryName i)
  rw [heq, String.length_toList] at hlength
  simp only [List.length_cons] at hlength
  omega

/-- **Temporary names are plain.** -/
theorem isPlain_temporaryName (i : Nat) : Path.IsPlain (temporaryName i) where
  noSlash := by
    rw [toList_temporaryName]
    intro hslash
    simp only [List.mem_cons, Char.reduceEq, false_or] at hslash
    -- behind the first letters there are digits only
    exact absurd (Nat.isDigit_of_mem_toDigits (by decide) (by decide) hslash) (by decide)
  notIdle := by
    unfold Path.isIdle
    rw [Bool.or_eq_false_iff, decide_eq_false_iff_not, decide_eq_false_iff_not]
    exact ⟨temporaryName_ne (by decide), temporaryName_ne (by decide)⟩
  notUp := temporaryName_ne (by decide)

/-- What can be found below the root is among the nodes. -/
theorem mem_nodes_of_isSome (hloc : loc ≠ []) (h : (t.at? loc).isSome = true) :
    loc ∈ t.nodes.map Prod.fst := by
  unfold at? at h
  rw [if_neg hloc, List.lookup_isSome_iff] at h
  obtain ⟨entry, hentry, hkey⟩ := h
  exact List.mem_map.2 ⟨entry, hentry, (beq_iff_eq.1 hkey).symm⟩

/-- In a tree of `n` nodes, `n + 1` names cannot all be used. -/
theorem exists_unused (t : Tree) (dir : Location) :
    ∃ i, i < t.nodes.length + 1 ∧ t.at? (dir ++ [temporaryName i]) = none := by
  by_contra hall
  push Not at hall
  -- there are more names than places, so not all of them can be taken
  have hinjective : Function.Injective fun i => dir ++ [temporaryName i] := by
    intro i j h
    have hnames := List.append_cancel_left h
    exact temporaryName_injective (List.singleton_inj.1 hnames)
  have hnodup := (List.nodup_range (n := t.nodes.length + 1)).map hinjective
  have hsubset : (List.range (t.nodes.length + 1)).map (fun i => dir ++ [temporaryName i])
      ⊆ t.nodes.map Prod.fst := by
    intro place hplace
    obtain ⟨i, hi, rfl⟩ := List.mem_map.1 hplace
    apply mem_nodes_of_isSome (List.append_ne_nil_of_right_ne_nil dir (List.cons_ne_nil _ _))
    exact Option.isSome_iff_ne_none.2 (hall i (List.mem_range.1 hi))
  -- so the names would be as many as the places at least, which they outnumber
  have hlength := (hnodup.subperm hsubset).length_le
  rw [List.length_map, List.length_range, List.length_map] at hlength
  omega

/-- **The unused name is plain, and nothing has it.** -/
theorem unusedName_spec (t : Tree) (dir : Location) :
    Path.IsPlain (t.unusedName dir) ∧ t.at? (dir ++ [t.unusedName dir]) = none := by
  unfold unusedName
  cases hfind : ((List.range (t.nodes.length + 1)).map temporaryName).find? fun name =>
      (t.at? (dir ++ [name])).isNone with
  | none =>
    -- the search cannot fail, since one of the names is unused
    obtain ⟨i, hi, hunused⟩ := t.exists_unused dir
    have hmem : temporaryName i ∈ (List.range (t.nodes.length + 1)).map temporaryName :=
      List.mem_map.2 ⟨i, List.mem_range.2 hi, rfl⟩
    exact absurd (Option.isNone_iff_eq_none.2 hunused) (List.find?_eq_none.1 hfind _ hmem)
  | some name =>
    have hunused := List.find?_some hfind
    obtain ⟨i, _, rfl⟩ := List.mem_map.1 (List.mem_of_find?_eq_some hfind)
    exact ⟨isPlain_temporaryName i, Option.isNone_iff_eq_none.1 hunused⟩

/-! ## §4. Temporary files. -/

/-- A path that can be walked from the root can be walked. -/
theorem isWalkable_of_fromRoot (hpath : path ≠ "") (h : isWalkable (t.fromRoot path) = true) :
    isWalkable path = true := by
  unfold isWalkable at h ⊢
  rw [Bool.and_eq_true, decide_eq_true_eq, decide_eq_true_eq] at h ⊢
  have hsize := Path.byteSize_le_join ("/" ++ Text.join '/' t.here) path
  unfold fromRoot at h
  exact ⟨hpath, by omega⟩

/-- **A temporary file is empty, stands at a place that was unused, and its path leads there.** -/
theorem createTemporary_ok {u : Tree} (h : t.createTemporary dir = (.ok path, u)) :
    ∃ place, t.at? place = none ∧ u = t.put place (.file (.text "")) ∧
      u.fileAt path = some (place, .text "") := by
  unfold createTemporary at h
  split at h
  · cases h
  · rename_i loc hwalk
    dsimp only at h
    split at h
    · rename_i hok
      rw [Bool.and_eq_true] at hok
      obtain ⟨hdir, hroot⟩ := hok
      -- only what is known of the name matters from here on
      obtain ⟨hplain, hunused⟩ := t.unusedName_spec loc
      generalize t.unusedName loc = name at h hroot hplain hunused
      cases h
      have hplace := ne_root_of_at?_eq_none hunused
      have hfree := isDirectory_eq_false_of_fresh hunused
      have hself := t.at?_put_self hplace (.file (.text ""))
      -- the way to the directory is still there with the file in it
      have hway : (t.put (loc ++ [name]) (.file (.text ""))).walk dir = some loc := by
        unfold walk at hwalk ⊢
        split at hwalk
        · rename_i hwalkable
          rw [if_pos hwalkable]
          exact walkFrom_put_file hplace hfree hwalk _
        · cases hwalk
      have hwalkable := isWalkable_of_fromRoot (Path.join_ne_empty hplain) hroot
      refine ⟨loc ++ [name], hunused, rfl, fileAt_eq_some_iff.2 ⟨?_, hself⟩⟩
      rw [walk_join hway hplain hwalkable]
      apply step_eq_some_iff.2
      refine ⟨?_, .inr (.inr ⟨hplain.notIdle, hplain.notUp, ?_, rfl⟩)⟩
      · rw [isDirectory_put_file hplace hfree, hdir]
      · rw [hself]
        rfl
    · cases h

end Tree

end RpcSchema
