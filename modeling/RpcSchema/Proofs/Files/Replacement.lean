/-
  RpcSchema.Proofs.Files.Replacement
  ──────────────────────────────────
  **A FILE IS REPLACED AS A WHOLE, OR NOTHING HAS HAPPENED.**

  A replacement creates a temporary file, streams text to it through a
  buffer, and moves it.  It can fail when the file is created, at any of
  the writes, at the flush, and at the move.  Between these steps the tree
  is the one from before with a single file more, at a place that was
  unused (`sink_honest`); what that file holds is settled only once the
  flush went well.  So whatever fails, taking the file away brings back
  the tree from before, and a move that goes well moves a complete file.

  Main statements: `replace_ok` and `replace_error`, for every lawful store.
-/
import RpcSchema.Proofs.Files.Laws
import RpcSchema.Proofs.Proto.Streaming

namespace RpcSchema.Storage

open RpcSchema.Tree (Alike)
open Emission (Step Execution Honest Ends)

variable {σ : Type} [Storage (StateM σ)] {view : σ → Tree} {before : Tree} {place : Location}
  {temporary path : String} {steps : List Step} {s s' : σ}

/-! ## §1. The temporary file. -/

/-- The tree from before, with a new file in it, to which a path leads. -/
structure Added (before : Tree) (place : Location) (temporary : String) : Prop where
  fresh : before.at? place = none
  leads : ∀ content, (before.put place (.file content)).fileAt temporary = some (place, content)

/-- A temporary file that is created is new, and empty. -/
theorem Lawful.added (h : Lawful view)
    (hcreate : Gives (createTemporary (Path.directory path)) s (.ok temporary) s') :
    ∃ place, Added (view s) place temporary ∧
      Alike (view s') ((view s).put place (.file (.text ""))) := by
  obtain ⟨place, hfresh, halike, hfile⟩ := h.createTemporary_ok hcreate
  rw [halike.fileAt_eq] at hfile
  exact ⟨place, ⟨hfresh, fun _ => Tree.fileAt_put_content hfile⟩, halike⟩

namespace Added

variable (ha : Added before place temporary) {t : Tree} {content : Content}
include ha

theorem place_ne_root : place ≠ [] :=
  Tree.ne_root_of_at?_eq_none ha.fresh

theorem fileAt_eq (ht : Alike t (before.put place (.file content))) :
    t.fileAt temporary = some (place, content) := by
  rw [ht.fileAt_eq, ha.leads]

/-- Whatever was put in place of the new file, it is as if that had been put there at once. -/
theorem put_again (ht : Alike t (before.put place (.file content))) (content' : Content) :
    Alike (t.put place (.file content')) (before.put place (.file content')) :=
  (ht.put ha.place_ne_root _).trans (Tree.put_put_alike before ha.place_ne_root _ _)

theorem erase (ht : Alike t (before.put place (.file content))) : Alike (t.erase place) before :=
  (ht.erase ha.place_ne_root).trans (Tree.erase_put_alike ha.fresh _)

theorem target_eq {target : Location} (ht : Alike t (before.put place (.file content)))
    (htarget : t.target path = some target) : before.target path = some target := by
  rw [ht.sameWays.target_eq] at htarget
  exact Tree.target_of_put_fresh ha.fresh htarget

end Added

/-- A file that is added to a tree is added to one that is alike. -/
theorem Added.of_alike {t u : Tree} (ha : Added t place temporary) (h : Alike t u) :
    Added u place temporary where
  fresh := by
    rw [← h.at?]
    exact ha.fresh
  leads content := by
    rw [← (h.put ha.place_ne_root _).fileAt_eq]
    exact ha.leads content

/-- An operation of a replacement failed, with these words: the temporary file could not be
created in the tree from before, not be written to once it was there, or not be moved. -/
inductive Refused (view : σ → Tree) (before : Tree) (path detail : String) : Prop
  | creation {s s' : σ} (hs : Alike (view s) before)
      (hcreate : Gives (createTemporary (Path.directory path)) s (.error detail) s')
  | writing {place : Location} {temporary held text : String} {s s' : σ}
      (ha : Added before place temporary)
      (hs : Alike (view s) (before.put place (.file (.text held))))
      (happend : Gives (append temporary text) s (.error detail) s')
  | moving {place : Location} {temporary text : String} {s s' : σ}
      (ha : Added before place temporary)
      (hs : Alike (view s) (before.put place (.file (.text text))))
      (hrename : Gives (rename temporary path) s (.error detail) s')

/-- What was refused of a tree is refused of one that is alike. -/
theorem Refused.of_alike {t u : Tree} {detail : String} (hr : Refused view t path detail)
    (h : Alike t u) : Refused view u path detail := by
  cases hr with
  | creation hs hcreate => exact .creation (hs.trans h) hcreate
  | writing ha hs happend =>
    exact .writing (ha.of_alike h) (hs.trans (h.put ha.place_ne_root _)) happend
  | moving ha hs hrename =>
    exact .moving (ha.of_alike h) (hs.trans (h.put ha.place_ne_root _)) hrename

/-- What is known after a failure before the temporary file was moved. -/
structure Spoilt (view : σ → Tree) (before : Tree) (place : Location) (path detail : String)
    (s : σ) : Prop where
  alike : ∃ content, Alike (view s) (before.put place (.file content))
  refused : Refused view before path detail

/-- **A temporary file is an honest sink.**  Each append that goes well adds its text, and one that
fails spoils nothing but the file. -/
theorem sink_honest (h : Lawful view) (ha : Added before place temporary) (path : String) :
    Honest (Execution.state σ) (sink temporary)
      (fun held s => Alike (view s) (before.put place (.file (.text held))))
      (fun held s => Alike (view s) (before.put place (.file (.text held))))
      (Spoilt view before place path) where
  write {held s} text hs := by
    have hfile := ha.fileAt_eq hs
    rcases hend : (Execution.state σ).run ((sink temporary).write text) s with ⟨detail | u, s'⟩
    · obtain ⟨content, hspoilt⟩ := h.append_error hfile hend
      exact ⟨⟨content, hspoilt.trans (ha.put_again hs _)⟩, .writing ha hs hend⟩
    · exact (h.append_ok hfile hend).trans (ha.put_again hs _)
  flush hs := hs

/-! ## §2. Filling the temporary file and moving it. -/

/-- What a stream to the temporary file leaves there: the whole text, or anything. -/
theorem stream_ends (h : Lawful view) (ha : Added before place temporary) (path : String)
    (hs : Alike (view s) (before.put place (.file (.text "")))) {answer : Except String Unit}
    (hstream : Gives (Emission.streamBuffered (sink temporary) steps) s answer s') :
    Ends (fun s => Alike (view s) (before.put place (.file (.text (Emission.text steps)))))
      (Spoilt view before place path) answer s' := by
  have hend := (sink_honest h ha path).streamBuffered steps hs
  have hrun : (Execution.state σ).run (Emission.streamBuffered (sink temporary) steps) s
      = (answer, s') := hstream
  rw [hrun] at hend
  exact hend

/-- **A temporary file that is filled and moved stands at the target, with the whole text.** -/
theorem fill_ok (h : Lawful view) (ha : Added before place temporary)
    (hs : Alike (view s) (before.put place (.file (.text ""))))
    (hfill : Gives (fill temporary path steps) s (.ok ()) s') :
    ∃ target, before.target path = some target ∧
      Alike (view s') (before.put target (.file (.text (Emission.text steps)))) := by
  obtain ⟨answer, mid, hstream, hnext⟩ := gives_bind.1 hfill
  have hend := stream_ends h ha path hs hstream
  cases answer with
  | error detail => cases (gives_pure.1 hnext).1
  | ok u =>
    obtain ⟨target, htarget, hmoved⟩ := h.rename_ok (ha.fileAt_eq hend) hnext
    -- the temporary file has not changed where the path puts files
    have htarget' := ha.target_eq hend htarget
    exact ⟨target, htarget', hmoved.trans
      ((ha.erase hend).put (Tree.ne_root_of_target htarget') _)⟩

/-- **A failure on the way leaves the tree with no more than the temporary file.** -/
theorem fill_error (h : Lawful view) (ha : Added before place temporary)
    (hs : Alike (view s) (before.put place (.file (.text "")))) {detail : String}
    (hfill : Gives (fill temporary path steps) s (.error detail) s') :
    Spoilt view before place path detail s' := by
  obtain ⟨answer, mid, hstream, hnext⟩ := gives_bind.1 hfill
  have hend := stream_ends h ha path hs hstream
  -- either the writing failed, or the move after it
  cases answer with
  | error detail =>
    obtain ⟨hanswer, hsame⟩ := gives_pure.1 hnext
    cases hanswer
    rw [hsame]
    exact hend
  | ok u => exact ⟨⟨_, (h.rename_error hnext).trans hend⟩, .moving ha hend hnext⟩

/-! ## §3. Replacements. -/

/-- **A replacement that goes well puts the whole text where the path puts files**, and does
nothing else. -/
theorem replace_ok (h : Lawful view) (hrun : Gives (replace path steps) s (.ok ()) s') :
    ∃ target, (view s).target path = some target ∧
      Alike (view s') ((view s).put target (.file (.text (Emission.text steps)))) := by
  obtain ⟨created, s₁, hcreate, hnext⟩ := gives_bind.1 hrun
  cases created with
  -- without a temporary file the replacement has failed
  | error detail => cases (gives_pure.1 hnext).1
  | ok temporary =>
    obtain ⟨place, ha, hempty⟩ := h.added hcreate
    obtain ⟨filled, s₂, hfill, hlast⟩ := gives_bind.1 hnext
    cases filled with
    | ok u =>
      obtain ⟨_, hsame⟩ := gives_pure.1 hlast
      rw [hsame]
      exact fill_ok h ha hempty hfill
    | error detail =>
      obtain ⟨_, _, _, hanswer⟩ := gives_bind.1 hlast
      cases (gives_pure.1 hanswer).1

/-- **A replacement that fails has done nothing**, wherever it failed, and it fails with the words
of the operation that did. -/
theorem replace_error (h : Lawful view) {detail : String}
    (hrun : Gives (replace path steps) s (.error detail) s') :
    Alike (view s') (view s) ∧ Refused view (view s) path detail := by
  obtain ⟨created, s₁, hcreate, hnext⟩ := gives_bind.1 hrun
  cases created with
  | error detail =>
    obtain ⟨hanswer, hsame⟩ := gives_pure.1 hnext
    cases hanswer
    rw [hsame]
    exact ⟨h.createTemporary_error hcreate, .creation (Alike.refl _) hcreate⟩
  | ok temporary =>
    obtain ⟨place, ha, hempty⟩ := h.added hcreate
    obtain ⟨filled, s₂, hfill, hlast⟩ := gives_bind.1 hnext
    cases filled with
    | ok u => cases (gives_pure.1 hlast).1
    | error detail =>
      obtain ⟨⟨content, hspoilt⟩, hrefused⟩ := fill_error h ha hempty hfill
      obtain ⟨_, s₃, hremove, hlast⟩ := gives_bind.1 hlast
      obtain ⟨hanswer, hsame⟩ := gives_pure.1 hlast
      cases hanswer
      rw [hsame]
      -- whatever the failed step left in the file goes with it
      exact ⟨(h.remove (ha.fileAt_eq hspoilt) hremove).trans (ha.erase hspoilt), hrefused⟩

end RpcSchema.Storage
