/-
  RpcSchema.Proofs.Files.Laws
  ───────────────────────────
  **WHAT A STORE OF FILES HAS TO KEEP TO.**

  A store acts on states of its own, and a view shows a state as a tree of
  files.  A lawful store may fail at any operation, and each of them does
  what it says to the view, or, if it fails, nothing:

    • reading changes nothing;
    • a temporary file is created empty at an unused place, and the path
      that is answered leads to it;
    • appending adds to the end of a file; if it fails, that file may hold
      anything, but no other place is touched;
    • renaming moves a file in one step to where the path puts files, in
      place of the file that is there, or leaves everything as it is;
    • a file that is removed is gone.

  Two stores are shown to be lawful: trees themselves (`lawful`), and
  trees on a disk in trouble, where any operation can be made to fail
  (`Troubled.lawful`).
-/
import RpcSchema.Proofs.Files.Temporary

namespace RpcSchema

/-! ## §1. The laws. -/

namespace Storage

open RpcSchema.Tree (Alike)

variable {σ α β : Type}

/-- In a state, an action answers and leads to another state. -/
def Gives (action : StateM σ α) (s : σ) (answer : α) (s' : σ) : Prop :=
  action.run s = (answer, s')

/-- To return gives what is returned, in the state as it is. -/
theorem gives_pure {a answer : α} {s s' : σ} :
    Gives (pure a) s answer s' ↔ answer = a ∧ s' = s := by
  constructor
  · intro h
    cases h
    exact ⟨rfl, rfl⟩
  · intro h
    rw [h.1, h.2]
    rfl

/-- **A sequence gives what its second action does from where the first led.** -/
theorem gives_bind {action : StateM σ α} {next : α → StateM σ β} {s s' : σ} {answer : β} :
    Gives (action >>= next) s answer s' ↔
      ∃ a mid, Gives action s a mid ∧ Gives (next a) mid answer s' := by
  constructor
  · intro h
    exact ⟨(action.run s).1, (action.run s).2, rfl, h⟩
  · intro h
    obtain ⟨a, mid, hfirst, hnext⟩ := h
    unfold Gives at hfirst hnext ⊢
    rw [StateT.run_bind, hfirst]
    exact hnext

theorem exists_gives {action : StateM σ α} {s : σ} {a : α} (h : (action.run s).1 = a) :
    ∃ s', Gives action s a s' :=
  ⟨(action.run s).2, Prod.ext h rfl⟩

/-- An action has one outcome in a state. -/
theorem Gives.unique {action : StateM σ α} {s s₁ s₂ : σ} {a b : α} (ha : Gives action s a s₁)
    (hb : Gives action s b s₂) : a = b ∧ s₁ = s₂ := by
  unfold Gives at ha hb
  rw [ha] at hb
  cases hb
  exact ⟨rfl, rfl⟩

/-- A store that does to its view what the operations say. -/
structure Lawful [Storage (StateM σ)] (view : σ → Tree) : Prop where
  isFile : ∀ {path : String} {answer : Bool} {s s' : σ},
    Gives (isFile path) s answer s' → Alike (view s') (view s)
  readText : ∀ {path : String} {answer : Except String String} {s s' : σ},
    Gives (readText path) s answer s' → Alike (view s') (view s)
  createTemporary_ok : ∀ {dir temporary : String} {s s' : σ},
    Gives (createTemporary dir) s (.ok temporary) s' →
      ∃ place, (view s).at? place = none ∧
        Alike (view s') ((view s).put place (.file (.text ""))) ∧
        (view s').fileAt temporary = some (place, .text "")
  createTemporary_error : ∀ {dir detail : String} {s s' : σ},
    Gives (createTemporary dir) s (.error detail) s' → Alike (view s') (view s)
  append_ok : ∀ {path held text : String} {place : Location} {s s' : σ},
    (view s).fileAt path = some (place, .text held) → Gives (append path text) s (.ok ()) s' →
      Alike (view s') ((view s).put place (.file (.text (held ++ text))))
  append_error : ∀ {path held text detail : String} {place : Location} {s s' : σ},
    (view s).fileAt path = some (place, .text held) →
    Gives (append path text) s (.error detail) s' →
      ∃ content, Alike (view s') ((view s).put place (.file content))
  rename_ok : ∀ {source path : String} {place : Location} {content : Content} {s s' : σ},
    (view s).fileAt source = some (place, content) → Gives (rename source path) s (.ok ()) s' →
      ∃ target, (view s).target path = some target ∧
        Alike (view s') (((view s).erase place).put target (.file content))
  rename_error : ∀ {source path detail : String} {s s' : σ},
    Gives (rename source path) s (.error detail) s' → Alike (view s') (view s)
  remove : ∀ {path : String} {place : Location} {content : Content} {s s' : σ},
    (view s).fileAt path = some (place, content) → Gives (remove path) s () s' →
      Alike (view s') ((view s).erase place)

end Storage

/-! ## §2. Trees are lawful. -/

namespace Tree

variable {t u : Tree} {path source held text detail : String} {place : Location}
  {content : Content}

/-- A temporary file that cannot be created leaves the tree as it is. -/
theorem createTemporary_error {dir : String} (h : t.createTemporary dir = (.error detail, u)) :
    u = t := by
  unfold createTemporary at h
  split at h
  · cases h
    rfl
  · dsimp only at h
    split at h
    · cases h
    · cases h
      rfl

theorem append_of_fileAt (h : t.fileAt path = some (place, .text held)) :
    t.append path text = (.ok (), t.put place (.file (.text (held ++ text)))) := by
  unfold append
  rw [h]

/-- A file that is moved is gone from its place and stands at the target. -/
theorem rename_ok (hsource : t.fileAt source = some (place, content))
    (h : t.rename source path = (.ok (), u)) :
    ∃ target, t.target path = some target ∧ u = (t.erase place).put target (.file content) := by
  unfold rename at h
  rw [hsource] at h
  cases htarget : t.target path with
  | none =>
    rw [htarget] at h
    cases h
  | some target =>
    rw [htarget] at h
    cases h
    exact ⟨target, rfl, rfl⟩

/-- A file that cannot be moved leaves the tree as it is. -/
theorem rename_error (h : t.rename source path = (.error detail, u)) : u = t := by
  unfold rename at h
  split at h
  · cases h
  · cases h
    rfl
  · cases h
    rfl

theorem remove_of_fileAt (h : t.fileAt path = some (place, content)) :
    t.remove path = t.erase place := by
  unfold remove
  rw [h]

/-- **Trees are a lawful store**, and they are their own view. -/
theorem lawful : Storage.Lawful (fun t : Tree => t) where
  isFile h := by
    cases h
    exact Alike.refl _
  readText h := by
    cases h
    exact Alike.refl _
  createTemporary_ok {dir temporary s s'} h := by
    obtain ⟨place, hfresh, hput, hfile⟩ := Tree.createTemporary_ok h
    exact ⟨place, hfresh, hput ▸ Alike.refl _, hfile⟩
  createTemporary_error h := Tree.createTemporary_error h ▸ Alike.refl _
  append_ok {path held text place s s'} hfile h := by
    have happend : s.append path text = (.ok (), s') := h
    rw [append_of_fileAt hfile] at happend
    cases happend
    exact Alike.refl _
  -- an append to a file that is there does not fail
  append_error {path held text detail place s s'} hfile h := by
    have happend : s.append path text = (.error detail, s') := h
    rw [append_of_fileAt hfile] at happend
    cases happend
  rename_ok hfile h := by
    obtain ⟨target, htarget, hmoved⟩ := Tree.rename_ok hfile h
    exact ⟨target, htarget, hmoved ▸ Alike.refl _⟩
  rename_error h := Tree.rename_error h ▸ Alike.refl _
  remove {path place content s s'} hfile h := by
    have hremove : ((), s.remove path) = ((), s') := h
    rw [remove_of_fileAt hfile] at hremove
    cases hremove
    exact Alike.refl _

end Tree

/-! ## §3. A disk in trouble. -/

/-- A tree of files on a disk that fails at times. -/
structure Troubled where
  tree : Tree
  /-- What is to come: an operation that goes well, or one that fails after so many characters. -/
  faults : List (Option Nat)

namespace Troubled

/-- An operation that fails if it is its turn to; a part of it may be done then. -/
def attempt {α : Type} (action : Tree → Except String α × Tree) (partly : Nat → Tree → Tree) :
    StateM Troubled (Except String α) := fun d =>
  match d.faults.head?.join with
  | some n => (.error "no space left on device", ⟨partly n d.tree, d.faults.tail⟩)
  | none => ((action d.tree).1, ⟨(action d.tree).2, d.faults.tail⟩)

instance : Storage (StateM Troubled) where
  isFile path := fun d => ((d.tree.fileAt path).isSome, d)
  readText path := fun d => (d.tree.readText path, d)
  createTemporary dir := attempt (fun t => t.createTemporary dir) fun _ t => t
  append path text := attempt (fun t => t.append path text) fun n t =>
    (t.append path (String.ofList (text.toList.take n))).2
  rename source path := attempt (fun t => t.rename source path) fun _ t => t
  remove path := fun d => ((), ⟨d.tree.remove path, d.faults⟩)

/-- An attempt does what the tree does, or fails with part of it done. -/
theorem attempt_cases {α : Type} {action : Tree → Except String α × Tree}
    {partly : Nat → Tree → Tree} {answer : Except String α} {d d' : Troubled}
    (h : Storage.Gives (attempt action partly) d answer d') :
    action d.tree = (answer, d'.tree) ∨
      ∃ n detail, answer = .error detail ∧ d'.tree = partly n d.tree := by
  have hrun : attempt action partly d = (answer, d') := h
  unfold attempt at hrun
  split at hrun
  · -- the step is cut short, with an error and part of its effect
    rename_i n _
    cases hrun
    exact .inr ⟨n, _, rfl, rfl⟩
  · cases hrun
    exact .inl rfl

/-- **A disk in trouble is a lawful store**, whatever fails. -/
theorem lawful : Storage.Lawful Troubled.tree where
  isFile h := by
    cases h
    exact Tree.Alike.refl _
  readText h := by
    cases h
    exact Tree.Alike.refl _
  createTemporary_ok h := by
    obtain hdone | ⟨_, _, hfailed, _⟩ := attempt_cases h
    · exact Tree.lawful.createTemporary_ok hdone
    · cases hfailed
  createTemporary_error h := by
    obtain hdone | ⟨_, _, _, hsame⟩ := attempt_cases h
    · exact Tree.lawful.createTemporary_error hdone
    · exact hsame ▸ Tree.Alike.refl _
  append_ok hfile h := by
    obtain hdone | ⟨_, _, hfailed, _⟩ := attempt_cases h
    · exact Tree.lawful.append_ok hfile hdone
    · cases hfailed
  -- a fault may leave a part of the text behind
  append_error hfile h := by
    obtain hdone | ⟨_, _, _, hpartly⟩ := attempt_cases h
    · exact Tree.lawful.append_error hfile hdone
    · rw [Tree.append_of_fileAt hfile] at hpartly
      rw [hpartly]
      exact ⟨_, Tree.Alike.refl _⟩
  rename_ok hfile h := by
    obtain hdone | ⟨_, _, hfailed, _⟩ := attempt_cases h
    · exact Tree.lawful.rename_ok hfile hdone
    · cases hfailed
  rename_error h := by
    obtain hdone | ⟨_, _, _, hsame⟩ := attempt_cases h
    · exact Tree.lawful.rename_error hdone
    · exact hsame ▸ Tree.Alike.refl _
  remove {path place content d d'} hfile h := by
    have hremove : ((), Troubled.mk (d.tree.remove path) d.faults) = ((), d') := h
    rw [Tree.remove_of_fileAt hfile] at hremove
    cases hremove
    exact Tree.Alike.refl _

end Troubled

end RpcSchema
