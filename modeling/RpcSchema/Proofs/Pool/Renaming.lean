/-
  RpcSchema.Proofs.Pool.Renaming
  ──────────────────────────────
  **POOLS THAT DIFFER IN THE IDS OF NATIVE TYPES ONLY.**

  A pool mentions native types in its references and by its slots, and in
  no other place.  With other ids for them it resolves, is added to and is
  written as text in the same way; only the texts of diagnostics show the
  difference, in the number of a type that is pending.

  Main statements: `intern_renamed`, `slot_renamed` and
  `refersTo_renamed` (conversions see no difference), `Schema.text_renamed`
  (nor does the text of a schema) and `display_renamed` (a diagnostic does,
  in those numbers).
-/
import RpcSchema.Conversion.Compile
import RpcSchema.Proto.Layout

namespace RpcSchema

/-! ## §1. Renaming. -/

/-- The same entry with other ids of native types. -/
def Entry.renamed (f : NativeId → NativeId) : Entry → Entry
  | .reference native => .reference (f native)
  | e => e

namespace Pool

/-- The same pool with other ids of native types. -/
def renamed (f : NativeId → NativeId) (p : Pool) : Pool where
  entries := p.entries.map (Entry.renamed f)
  slots := p.slots.map fun slot => (f slot.1, slot.2)

variable {f : NativeId → NativeId} {p : Pool} {id : EntryId} {n : NativeId}

theorem start_renamed (f : NativeId → NativeId) : start.renamed f = start := by
  simp [start, renamed, Entry.renamed, Scalar.all]

/-- Entries are renamed where they stand. -/
theorem entry_renamed (p : Pool) (id : EntryId) :
    (p.renamed f).entry id = (p.entry id).renamed f := by
  cases id with
  | absent => rfl
  | entry i =>
    show (p.entries.map _).getD i .any = Entry.renamed f (p.entries.getD i .any)
    rw [Array.getD_eq_getD_getElem?, Array.getD_eq_getD_getElem?, Array.getElem?_map]
    cases p.entries[i]? <;> rfl

theorem size_renamed (p : Pool) : (p.renamed f).size = p.size :=
  Array.size_map

theorem ids_renamed (p : Pool) : (p.renamed f).ids = p.ids := by
  unfold ids
  rw [size_renamed]

theorem isReference_renamed (e : Entry) : (e.renamed f).isReference = e.isReference := by
  cases e <;> rfl

theorem isDefinition_renamed (e : Entry) : (e.renamed f).isDefinition = e.isDefinition := by
  cases e <;> rfl

theorem parts_renamed (e : Entry) : (e.renamed f).parts = e.parts := by
  cases e <;> rfl

/-! ## §2. Adding. -/

section Adding

variable (hf : Function.Injective f)
include hf

/-- Entries that differ do so under a renaming that is one to one. -/
theorem renamed_injective : Function.Injective (Entry.renamed f) := by
  intro a b h
  cases a with
  | reference n =>
    cases b with
    | reference m => rw [hf (Entry.reference.inj h)]
    | _ => cases h
  | _ => cases b <;> first | exact h | cases h

omit hf in
theorem push_renamed (p : Pool) (e : Entry) :
    (p.renamed f).push (e.renamed f) = ((p.push e).1, (p.push e).2.renamed f) := by
  unfold push
  rw [size_renamed, renamed, renamed, Array.map_push]

/-- To intern one too, since equal entries are found alike. -/
theorem intern_renamed (p : Pool) (e : Entry) :
    (p.renamed f).intern (e.renamed f) = ((p.intern e).1, (p.intern e).2.renamed f) := by
  -- a renamed entry is found where the entry itself is
  have hfind : (p.renamed f).entries.findIdx? (· = e.renamed f) = p.entries.findIdx? (· = e) := by
    show (p.entries.map (Entry.renamed f)).findIdx? _ = _
    rw [Array.findIdx?_map]
    exact congrArg (Array.findIdx? · p.entries) (funext fun a =>
      decide_eq_decide.2 (renamed_injective hf).eq_iff)
  unfold intern
  rw [hfind]
  split
  · rfl
  · exact push_renamed p e

/-- A renamed native has the slot it had. -/
theorem slot_renamed (p : Pool) (n : NativeId) : (p.renamed f).slot (f n) = p.slot n := by
  show List.lookup (f n) (p.slots.map _) = p.slots.lookup n
  induction p.slots with
  | nil => rfl
  | cons slot slots ih =>
    have hkey : (f n == f slot.1) = (n == slot.1) :=
      Bool.eq_iff_iff.2 (by rw [beq_iff_eq, beq_iff_eq, hf.eq_iff])
    rw [List.map_cons, List.lookup_cons, List.lookup_cons, ih, hkey]

/-- To remove the slot of a native commutes with the renaming. -/
theorem filter_slots_renamed (n : NativeId) (slots : List (NativeId × Slot)) :
    (slots.map fun slot => (f slot.1, slot.2)).filter (·.1 ≠ f n)
      = (slots.filter (·.1 ≠ n)).map fun slot => (f slot.1, slot.2) := by
  rw [List.filter_map]
  congr 1
  refine List.filter_congr fun slot _ => ?_
  simp [hf.eq_iff]

theorem setSlot_renamed (p : Pool) (n : NativeId) (s : Slot) :
    (p.renamed f).setSlot (f n) s = (p.setSlot n s).renamed f := by
  unfold setSlot renamed
  rw [filter_slots_renamed hf, List.map_cons]

/-- To give a native up commutes with the renaming. -/
theorem abandon_renamed (p : Pool) (n : NativeId) :
    (p.renamed f).abandon (f n) = (p.abandon n).renamed f := by
  unfold abandon
  rw [slot_renamed hf]
  split
  · unfold renamed
    rw [filter_slots_renamed hf]
  · rfl

end Adding

/-! ## §3. Reading through references. -/

section Reading

variable (hf : Function.Injective f)
include hf

/-- Entries resolve alike within any budget. -/
theorem resolveWithin_renamed (p : Pool) (k : Nat) (id : EntryId) :
    (p.renamed f).resolveWithin k id = p.resolveWithin k id := by
  -- on the hops; a renamed reference has the slot that it had
  induction k generalizing id with
  | zero => rfl
  | succ k ih =>
    unfold resolveWithin
    rw [entry_renamed]
    cases p.entry id with
    | reference n =>
      simp only [Entry.renamed, slot_renamed hf]
      rcases p.slot n with _ | _ | target
      · rfl
      · rfl
      · exact ih target
    | _ => rfl

theorem resolve_renamed (p : Pool) (id : EntryId) : (p.renamed f).resolve id = p.resolve id := by
  have hslots : (p.renamed f).slots.length = p.slots.length := List.length_map _
  unfold resolve
  rw [entry_renamed, isReference_renamed, hslots, resolveWithin_renamed hf]

theorem resolved_renamed (p : Pool) (id : EntryId) :
    (p.renamed f).resolved id = (p.resolved id).renamed f := by
  unfold resolved
  rw [resolve_renamed hf, entry_renamed]

/-- What is searched inside an entry is the same. -/
theorem inside_renamed (p : Pool) (n : NativeId) (id : EntryId) :
    (p.renamed f).inside (f n) id = p.inside n id := by
  unfold inside
  rw [entry_renamed]
  cases p.entry id with
  | reference m =>
    show (if f m = f n then [] else _) = _
    rw [slot_renamed hf]
    simp only [hf.eq_iff]
  | _ => rfl

/-- **A search for references to a native finds the same under another name.** -/
theorem refersTo_renamed (p : Pool) (id : EntryId) (n : NativeId) :
    (p.renamed f).refersTo id (f n) = p.refersTo id n := by
  have hinside : (p.renamed f).inside (f n) = p.inside n := funext (inside_renamed hf p n)
  unfold refersTo
  rw [hinside, ids_renamed]
  congr 1
  funext a
  rw [entry_renamed, show Entry.reference (f n) = (Entry.reference n).renamed f from rfl]
  simp [(renamed_injective hf).eq_iff]

end Reading

/-! ## §4. Diagnostics. -/

end Pool

/-- The same text, but for the numbers of pending types. -/
inductive SameButPending : String → String → Prop
  | same (text : String) : SameButPending text text
  | pending (n m : Nat) :
      SameButPending ("<pending " ++ toString n ++ ">") ("<pending " ++ toString m ++ ">")
  | append {a b a' b' : String} (h : SameButPending a b) (h' : SameButPending a' b') :
      SameButPending (a ++ a') (b ++ b')

namespace Pool

variable {f : NativeId → NativeId}

/-- Entries are shown alike, but for the numbers of natives in progress. -/
theorem displayWithin_renamed (hf : Function.Injective f) (p : Pool) (k : Nat) (id : EntryId) :
    SameButPending (p.displayWithin k id) ((p.renamed f).displayWithin k id) := by
  -- on the levels; only a reference to a native without a result shows its number
  induction k generalizing id with
  | zero => cases id <;> exact .same _
  | succ k ih =>
    cases id with
    | absent => exact .same _
    | entry i =>
      unfold displayWithin
      rw [resolved_renamed hf]
      cases p.resolved (.entry i) with
      | optional of => exact .append (.same _) (ih of)
      | array of => exact .append (.same _) (ih of)
      | map key value =>
        exact .append (.append (.append (.append (.same _) (ih key)) (.same _)) (ih value)) (.same _)
      | reference n => exact .pending _ _
      | _ => exact .same _

/-- **A diagnostic is the same, but for the numbers of pending types.** -/
theorem display_renamed (hf : Function.Injective f) (p : Pool) (id : EntryId) :
    SameButPending (p.display id) ((p.renamed f).display id) := by
  unfold display
  rw [size_renamed]
  exact displayWithin_renamed hf p _ id

/-! ## §5. Schema text. -/

section Text

variable (hf : Function.Injective f)
include hf

theorem successors_renamed (p : Pool) : (p.renamed f).successors = p.successors := by
  funext id
  unfold successors
  rw [entry_renamed, parts_renamed, funext (resolve_renamed hf p)]

theorem visitOrder_renamed (p : Pool) (roots : List EntryId) :
    (p.renamed f).visitOrder roots = p.visitOrder roots := by
  unfold visitOrder
  rw [successors_renamed hf, ids_renamed, funext (resolve_renamed hf p)]

theorem reachable_renamed (p : Pool) (roots : List EntryId) :
    (p.renamed f).reachable roots = p.reachable roots := by
  unfold reachable
  rw [visitOrder_renamed hf]
  congr 1
  funext id
  rw [entry_renamed, isDefinition_renamed]

/-- Optionals are stripped alike within any budget. -/
theorem stripWithin_renamed (p : Pool) (k : Nat) (id : EntryId) :
    (p.renamed f).stripWithin k id = p.stripWithin k id := by
  induction k generalizing id with
  | zero => rfl
  | succ k ih =>
    unfold stripWithin
    rw [entry_renamed]
    cases p.entry id with
    | optional of =>
      show (p.renamed f).stripWithin k ((p.renamed f).resolve of) = _
      rw [resolve_renamed hf, ih]
    | _ => rfl

theorem element_renamed (p : Pool) : (p.renamed f).element = p.element := by
  funext id
  unfold element
  rw [size_renamed, resolve_renamed hf, stripWithin_renamed hf]

/-- Labels are the same within any budget. -/
theorem labelWithin_renamed (p : Pool) (k : Nat) (id : EntryId) :
    (p.renamed f).labelWithin k id = p.labelWithin k id := by
  induction k generalizing id with
  | zero => rfl
  | succ k ih =>
    unfold labelWithin
    rw [element_renamed hf, entry_renamed]
    cases p.entry (p.element id) with
    | array of => exact congrArg (· ++ "List") (ih of)
    | map key value => simp only [Entry.renamed, ih]
    | _ => rfl

theorem label_renamed (p : Pool) : (p.renamed f).label = p.label := by
  funext id
  unfold label
  rw [size_renamed, labelWithin_renamed hf]

/-- Nested containers are the same within any budget. -/
theorem nestedWithin_renamed (p : Pool) (k : Nat) (id : EntryId) :
    (p.renamed f).nestedWithin k id = p.nestedWithin k id := by
  -- neither containers nor their positions depend on the natives
  have hcontainer : (p.renamed f).isContainer = p.isContainer := by
    funext id
    unfold isContainer
    rw [element_renamed hf, entry_renamed]
    cases p.entry (p.element id) <;> rfl
  have hposition : ∀ e : Entry, elementPosition (e.renamed f) = elementPosition e := by
    intro e
    cases e <;> rfl
  induction k generalizing id with
  | zero => rfl
  | succ k ih =>
    unfold nestedWithin
    rw [element_renamed hf, entry_renamed, hposition, hcontainer]
    simp only [ih]

theorem nested_renamed (p : Pool) : (p.renamed f).nested = p.nested := by
  funext id
  unfold nested
  rw [size_renamed, nestedWithin_renamed hf]

/-- Wrappers are added alike. -/
theorem addWrappers_renamed (p : Pool) (found : List Wrapper) (containers : List EntryId) :
    (p.renamed f).addWrappers found containers = p.addWrappers found containers := by
  induction containers generalizing found with
  | nil => rfl
  | cons container rest ih =>
    unfold addWrappers
    rw [label_renamed hf]
    simp only [ih]

theorem wrappers_renamed (p : Pool) (definitions : List EntryId) :
    (p.renamed f).wrappers definitions = p.wrappers definitions := by
  have hfields : (fun d => fieldTypes ((p.renamed f).resolved d))
      = fun d => fieldTypes (p.resolved d) := by
    funext d
    rw [resolved_renamed hf]
    cases p.resolved d <;> rfl
  unfold wrappers discoverWrappers
  rw [hfields, nested_renamed hf]
  simp only [addWrappers_renamed hf]

/-- Definitions keep their names. -/
theorem nameOf?_renamed (p : Pool) : (p.renamed f).nameOf? = p.nameOf? := by
  funext id
  unfold nameOf?
  rw [resolved_renamed hf]
  cases p.resolved id <;> rfl

/-- Elements have the same names. -/
theorem elementName_renamed (p : Pool) : (p.renamed f).elementName = p.elementName := by
  funext id
  unfold elementName
  simp only [element_renamed hf, entry_renamed, label_renamed hf]
  cases p.entry (p.element id) <;> rfl

theorem keyName_renamed (p : Pool) : (p.renamed f).keyName = p.keyName := by
  funext id
  unfold keyName
  rw [resolved_renamed hf, elementName_renamed hf]
  cases p.resolved id <;> rfl

theorem containerType?_renamed (p : Pool) (e : Entry) :
    (p.renamed f).containerType? (e.renamed f) = p.containerType? e := by
  cases e <;> simp only [Entry.renamed, containerType?, elementName_renamed hf, keyName_renamed hf]

theorem fieldType_renamed (p : Pool) : (p.renamed f).fieldType = p.fieldType := by
  funext id
  unfold fieldType
  rw [resolved_renamed hf]
  cases p.resolved id with
  | optional of =>
    show ((p.renamed f).containerType? ((p.renamed f).entry ((p.renamed f).element of))).getD
      (.optional ((p.renamed f).elementName of)) = _
    rw [element_renamed hf, entry_renamed, containerType?_renamed hf, elementName_renamed hf]
  | _ => simp only [Entry.renamed, containerType?, elementName_renamed hf, keyName_renamed hf]

theorem definitionBlock_renamed (p : Pool) : (p.renamed f).definitionBlock = p.definitionBlock := by
  funext d
  unfold definitionBlock definitionBody messageField implementationField
  rw [fieldType_renamed hf, elementName_renamed hf]

/-- **The blocks of a document are the same.** -/
theorem blocks_renamed (p : Pool) (definitions : List EntryId) :
    (p.renamed f).blocks definitions = p.blocks definitions := by
  -- blocks are made of texts, which are not renamed
  have hentries : (p.renamed f).entryBlock? = p.entryBlock? := by
    funext id
    unfold entryBlock?
    rw [entry_renamed]
    cases p.entry id with
    | definition d => exact congrArg some (congrFun (definitionBlock_renamed hf p) d)
    | _ => rfl
  have hwrappers : (p.renamed f).wrapperBlock = p.wrapperBlock := by
    funext w
    unfold wrapperBlock wrapperField
    rw [fieldType_renamed hf, resolved_renamed hf]
    cases p.resolved w.container <;> rfl
  unfold blocks
  rw [hentries, hwrappers, wrappers_renamed hf]

end Text

end Pool

namespace Schema

variable {f : NativeId → NativeId}

/-- The same schema with other ids of native types. -/
def renamed (f : NativeId → NativeId) (s : Schema) : Schema :=
  { s with pool := s.pool.renamed f }

theorem definitions_renamed (hf : Function.Injective f) (s : Schema) :
    (s.renamed f).definitions = s.definitions :=
  Pool.reachable_renamed hf s.pool _

/-- **The text of a schema is the same.** -/
theorem text_renamed (hf : Function.Injective f) (s : Schema) : (s.renamed f).text = s.text := by
  have hrpc : (s.pool.renamed f).rpc = s.pool.rpc := by
    funext m
    unfold Pool.rpc
    rw [Pool.elementName_renamed hf]
  -- a document holds names and texts, no ids
  have hdocument : (s.renamed f).document = s.document := by
    unfold document
    rw [definitions_renamed hf]
    show Document.mk s.package s.options s.service (s.methods.map (s.pool.renamed f).rpc)
      ((s.pool.renamed f).blocks s.definitions) = _
    rw [hrpc, Pool.blocks_renamed hf]
  unfold text
  rw [hdocument]

theorem checkNames_renamed (hf : Function.Injective f) (s : Schema) :
    (s.renamed f).checkNames = s.checkNames := by
  have hnames : (s.renamed f).blockNames = s.blockNames := by
    unfold blockNames
    rw [definitions_renamed hf]
    show s.definitions.filterMap (s.pool.renamed f).nameOf?
      ++ ((s.pool.renamed f).wrappers s.definitions).map (·.name) = _
    rw [Pool.nameOf?_renamed hf, Pool.wrappers_renamed hf]
  unfold checkNames
  rw [hnames]

end Schema

end RpcSchema
