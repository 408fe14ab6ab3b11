/-
  RpcSchema.Proofs.Command.Writing
  ────────────────────────────────
  **COMPILING IS CHECKING AND ONE WRITE.**

  `check` and `compile` go the same way up to the schema, which only reads
  files.  From there `check` is done, and `compile` replaces the file at
  the output by the text of the schema.  So there are three outcomes:

    • both fail with one error, and the tree of files is as before;
    • both succeed with one summary, and the tree is the one from before
      with the text of the schema where the output path puts files;
    • `check` succeeds and the store refuses to create, write or move a
      file: `compile` says so in the words of the store, and the tree is as
      before, with the old content of the output.

  Main statement: `compile_is_check_and_write`, for every job, every state
  of every lawful store, and whatever fails there.
-/
import RpcSchema.Command.Job
import RpcSchema.Proofs.Files.Replacement

namespace RpcSchema

open RpcSchema.Tree (Alike)
open Storage (Gives Lawful gives_bind gives_pure)

variable {σ : Type} [Storage (StateM σ)] {view : σ → Tree} {s s' : σ} {job : Job}

/-! ## §1. Reading leaves the files as they are. -/

/-- Loading a package changes no file. -/
theorem Manifest.load_alike (h : Lawful view) {root identifier : String}
    {loaded : Except LoadError Package}
    (hload : Gives (Manifest.load root identifier) s loaded s') : Alike (view s') (view s) := by
  obtain ⟨path, s₁, hpath, hnext⟩ := gives_bind.1 hload
  obtain ⟨content, s₂, hread, hlast⟩ := gives_bind.1 hnext
  obtain ⟨found, s₃, hfile, hjoin⟩ := gives_bind.1 hpath
  -- a path is joined, and a text is parsed, without the store
  have hkept : s₁ = s₃ := by
    cases found <;> exact (gives_pure.1 hjoin).2
  have hended : s' = s₂ := by
    cases content <;> exact (gives_pure.1 hlast).2
  rw [hended]
  exact (h.readText hread).trans (hkept ▸ h.isFile hfile)

namespace Job

/-- Making a schema changes no file. -/
theorem schema_alike (h : Lawful view) {built : Except CommandError Schema}
    (hbuilt : Gives job.schema s built s') : Alike (view s') (view s) := by
  obtain ⟨loaded, s₁, hload, hlast⟩ := gives_bind.1 hbuilt
  obtain ⟨_, hended⟩ := gives_pure.1 hlast
  rw [hended]
  exact Manifest.load_alike h hload

/-! ## §2. The two commands, once the schema is there or not. -/

/-- A check shows the summary of the schema, or why there is none. -/
theorem gives_check {checked : Except CommandError Summary} :
    Gives job.check s checked s' ↔
      ∃ built, Gives job.schema s built s' ∧ checked = built.map Schema.summary := by
  constructor
  · intro hcheck
    obtain ⟨built, s₁, hbuilt, hlast⟩ := gives_bind.1 hcheck
    refine ⟨built, ?_⟩
    -- a summary is drawn up only of a schema, and that changes nothing
    cases built with
    | error e =>
      obtain ⟨hanswer, hended⟩ := gives_pure.1 hlast
      exact ⟨hended ▸ hbuilt, hanswer⟩
    | ok schema =>
      obtain ⟨hanswer, hended⟩ := gives_pure.1 hlast
      exact ⟨hended ▸ hbuilt, hanswer⟩
  · intro h
    obtain ⟨built, hbuilt, hchecked⟩ := h
    apply gives_bind.2
    refine ⟨built, s', hbuilt, ?_⟩
    rw [hchecked]
    cases built <;> exact gives_pure.2 ⟨rfl, rfl⟩

theorem compile_of_schema_error {e : CommandError} (hbuilt : Gives job.schema s (.error e) s') :
    Gives job.compile s (.error e) s' :=
  gives_bind.2 ⟨.error e, s', hbuilt, gives_pure.2 ⟨rfl, rfl⟩⟩

/-- What compiling comes to is what the replacement of the output comes to. -/
theorem compile_cases {schema : Schema} {s₁ : σ} (hbuilt : Gives job.schema s (.ok schema) s₁)
    {answer : Except CommandError Summary} (hcompile : Gives job.compile s answer s') :
    (answer = .ok schema.summary ∧
        Gives (Storage.replace job.output schema.document.steps) s₁ (.ok ()) s') ∨
      ∃ detail, answer = .error (.unwritable job.output detail) ∧
        Gives (Storage.replace job.output schema.document.steps) s₁ (.error detail) s' := by
  obtain ⟨built, mid, hbuilt', hnext⟩ := gives_bind.1 hcompile
  -- a run has one outcome, so this is the schema that was given
  obtain ⟨hsame, hmid⟩ := hbuilt'.unique hbuilt
  subst hsame hmid
  obtain ⟨replaced, s₂, hreplace, hlast⟩ := gives_bind.1 hnext
  cases replaced with
  | ok u =>
    obtain ⟨hanswer, hended⟩ := gives_pure.1 hlast
    exact .inl ⟨hanswer, hended ▸ hreplace⟩
  | error detail =>
    obtain ⟨hanswer, hended⟩ := gives_pure.1 hlast
    exact .inr ⟨detail, hanswer, hended ▸ hreplace⟩

/-! ## §3. All or nothing. -/

/-- What compiling has done when it succeeds. -/
structure Written (view : σ → Tree) (job : Job) (schema : Schema) (s s' : σ) : Prop where
  /-- The tree is the one from before, with the text of the schema at the place of the output. -/
  replaced : ∃ place, (view s).target job.output = some place ∧
    Alike (view s') ((view s).put place (.file (.text schema.text)))
  /-- The path of the output leads to that text. -/
  readable : ∃ place, (view s').fileAt job.output = some (place, .text schema.text)

/-- A replacement that succeeds has written the text of the schema. -/
theorem written_of_replace (h : Lawful view) {schema : Schema} {s₁ : σ}
    (hsame : Alike (view s₁) (view s))
    (hreplace : Gives (Storage.replace job.output schema.document.steps) s₁ (.ok ()) s') :
    Written view job schema s s' := by
  obtain ⟨place, htarget, hput⟩ := Storage.replace_ok h hreplace
  -- the schema was made before; the tree it left has the same ways
  rw [hsame.sameWays.target_eq] at htarget
  have hafter := hput.trans (hsame.put (Tree.ne_root_of_target htarget) _)
  refine ⟨⟨place, htarget, hafter⟩, place, ?_⟩
  rw [hafter.fileAt_eq]
  exact Tree.fileAt_put_target htarget _

/-- **Compiling is checking and one write**, which is done as a whole or not at all. -/
theorem compile_is_check_and_write (h : Lawful view) (job : Job) (s : σ) :
    (∀ {checked s₁}, Gives job.check s checked s₁ → Alike (view s₁) (view s)) ∧
    (∀ {e s₁}, Gives job.check s (.error e) s₁ →
      ∃ s₂, Gives job.compile s (.error e) s₂ ∧ Alike (view s₂) (view s)) ∧
    (∀ {summary s₂}, Gives job.compile s (.ok summary) s₂ →
      ∃ schema s₁, Gives job.schema s (.ok schema) s₁ ∧ Gives job.check s (.ok summary) s₁ ∧
        summary = schema.summary ∧ Written view job schema s s₂) ∧
    (∀ {summary s₁ e s₂}, Gives job.check s (.ok summary) s₁ → Gives job.compile s (.error e) s₂ →
      (∃ detail, e = .unwritable job.output detail ∧
        Storage.Refused view (view s) job.output detail) ∧ Alike (view s₂) (view s)) := by
  refine ⟨?_, ?_, ?_, ?_⟩
  · -- a check
    intro checked s₁ hcheck
    obtain ⟨built, hbuilt, _⟩ := gives_check.1 hcheck
    exact schema_alike h hbuilt
  · -- compiling where the check fails
    intro e s₁ hcheck
    obtain ⟨built, hbuilt, hanswer⟩ := gives_check.1 hcheck
    cases built with
    | ok schema => cases hanswer
    | error e' =>
      cases hanswer
      exact ⟨s₁, compile_of_schema_error hbuilt, schema_alike h hbuilt⟩
  · -- compiling with success
    intro summary s₂ hcompile
    obtain ⟨built, s₁, hbuilt, _⟩ := gives_bind.1 hcompile
    cases built with
    | error e =>
      -- without a schema, compiling would have failed
      cases (hcompile.unique (compile_of_schema_error hbuilt)).1
    | ok schema =>
      obtain ⟨hanswer, hreplace⟩ | ⟨_, hanswer, _⟩ := compile_cases hbuilt hcompile
      · cases hanswer
        exact ⟨schema, s₁, hbuilt, gives_check.2 ⟨_, hbuilt, rfl⟩, rfl,
          written_of_replace h (schema_alike h hbuilt) hreplace⟩
      · cases hanswer
  · -- compiling that fails although the check does not: it is the write that failed
    intro summary s₁ e s₂ hcheck hcompile
    obtain ⟨built, hbuilt, hchecked⟩ := gives_check.1 hcheck
    cases built with
    | error e' => cases hchecked
    | ok schema =>
      obtain ⟨hanswer, _⟩ | ⟨detail, hanswer, hreplace⟩ := compile_cases hbuilt hcompile
      · cases hanswer
      · cases hanswer
        have hsame := schema_alike h hbuilt
        obtain ⟨hundone, hrefused⟩ := Storage.replace_error h hreplace
        exact ⟨⟨detail, rfl, hrefused.of_alike hsame⟩, hundone.trans hsame⟩

/-! ## §4. A service on a disk in trouble. -/

/-- A directory with a manifest and an older schema text. -/
def noticeTree : Tree :=
  ((Tree.bare ["srv"]).addFile ["srv", "notice.json"] (.text
    ("\x7b\"path\":\"notice\",\"types\":[\x7b\"name\":\"Notice\",\"underlying\":" ++
      "\x7b\"kind\":\"struct\"\x7d,\"methods\":[\x7b\"name\":\"Post\"\x7d]\x7d]\x7d"))).addFile
    ["srv", "notice.proto"] (.text "old")

/-- A job on the manifest in that directory. -/
def noticeJob (entrypoint : String) : Job where
  manifestRoot := "notice.json"
  output := "notice.proto"
  options :=
    { package := "notice", entrypoint, excluded := [], fieldless := [], service := none,
      protoPackage := none, options := .empty, sortMethods := false }

/-- A disk that fails while the buffer is flushed, after five characters of the text. -/
def fullDisk : Troubled := ⟨noticeTree, [none, some 5]⟩

/-- The three outcomes: the text is written, it is not, and there is none. -/
theorem compile_is_check_and_write_notice :
    (∃ schema s', Gives (noticeJob "Notice").compile ⟨noticeTree, []⟩ (.ok ⟨"Notice", 1, 2⟩) s' ∧
      Written Troubled.tree (noticeJob "Notice") schema ⟨noticeTree, []⟩ s') ∧
    (∃ s', Gives (noticeJob "Notice").compile fullDisk
        (.error (.unwritable "notice.proto" "no space left on device")) s' ∧
      Alike s'.tree noticeTree) ∧
    ∃ s', Gives (noticeJob "Board").compile fullDisk
        (.error (.compile (.missingEntrypoint "Board" "notice"))) s' ∧
      Alike s'.tree noticeTree := by
  refine ⟨?_, ?_, ?_⟩
  · -- nothing is in the way
    obtain ⟨s', hcompile⟩ : ∃ s', Gives (noticeJob "Notice").compile
        (⟨noticeTree, []⟩ : Troubled) (.ok ⟨"Notice", 1, 2⟩) s' :=
      Storage.exists_gives (by decide +kernel)
    obtain ⟨schema, _, _, _, _, hwritten⟩ :=
      (compile_is_check_and_write Troubled.lawful _ _).2.2.1 hcompile
    exact ⟨schema, s', hcompile, hwritten⟩
  · -- the disk is full, so the check succeeds and the file is refused
    obtain ⟨s₁, hcheck⟩ : ∃ s₁, Gives (noticeJob "Notice").check fullDisk
        (.ok ⟨"Notice", 1, 2⟩) s₁ :=
      Storage.exists_gives (by decide +kernel)
    obtain ⟨s', hcompile⟩ : ∃ s', Gives (noticeJob "Notice").compile fullDisk
        (.error (.unwritable "notice.proto" "no space left on device")) s' :=
      Storage.exists_gives (by decide +kernel)
    exact ⟨s', hcompile,
      ((compile_is_check_and_write Troubled.lawful _ _).2.2.2 hcheck hcompile).2⟩
  · -- there is no such entry point, so nothing is written
    obtain ⟨s₁, hcheck⟩ : ∃ s₁, Gives (noticeJob "Board").check fullDisk
        (.error (.compile (.missingEntrypoint "Board" "notice"))) s₁ :=
      Storage.exists_gives (by decide +kernel)
    exact (compile_is_check_and_write Troubled.lawful _ _).2.1 hcheck

end Job

end RpcSchema
