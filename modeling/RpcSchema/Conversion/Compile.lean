/-
  RpcSchema.Conversion.Compile
  ────────────────────────────
  **Compiling a package into a service schema.**

  The entrypoint is looked up, its methods are extracted, sorted if asked
  for, and the names of all blocks that the schema needs — definitions and
  wrappers — are checked to be different.
-/
import RpcSchema.Conversion.Service
import RpcSchema.Pool.Wrapper

namespace RpcSchema

/-! ## §1. The check of names. -/

/-- The first entry of a list that stands in it before. -/
def firstRepeated (seen : List String) : List String → Option String
  | [] => none
  | a :: rest => if a ∈ seen then some a else firstRepeated (a :: seen) rest

/-- The names of the blocks of a schema, definitions before wrappers. -/
def Schema.blockNames (s : Schema) : List String :=
  s.definitions.filterMap s.pool.nameOf?
    ++ (s.pool.wrappers s.definitions).map (·.name)

/-- Refuses a schema in which two blocks share a name. -/
def Schema.checkNames (s : Schema) : Except CompileError Unit :=
  match firstRepeated [] s.blockNames with
  | some name => .error (.duplicateTypeName name)
  | none => .ok ()

/-- Nothing is found exactly if the list has no repetition and holds nothing that was seen
before. -/
theorem firstRepeated_eq_none_iff {seen l : List String} :
    firstRepeated seen l = none ↔ l.Nodup ∧ ∀ a ∈ l, a ∉ seen := by
  -- what was seen grows along the list, so the induction is general in it
  induction l generalizing seen with
  | nil => simp [firstRepeated]
  | cons a rest ih =>
    simp only [firstRepeated]
    split
    · rename_i h
      simp only [reduceCtorEq, false_iff]
      rintro ⟨_, hall⟩
      exact hall a List.mem_cons_self h
    · rename_i h
      rw [ih, List.nodup_cons]
      constructor
      · rintro ⟨hnd, hall⟩
        refine ⟨⟨fun ha => hall a ha List.mem_cons_self, hnd⟩, fun b hb => ?_⟩
        rcases List.mem_cons.1 hb with rfl | hb
        · exact h
        · exact fun hs => hall b hb (List.mem_cons_of_mem _ hs)
      · rintro ⟨⟨ha, hnd⟩, hall⟩
        refine ⟨hnd, fun b hb hs => ?_⟩
        rcases List.mem_cons.1 hs with rfl | hs
        · exact ha hb
        · exact hall b (List.mem_cons_of_mem _ hb) hs

/-! ## §2. Compilation. -/

/-- Lifecycle methods, which have no meaningful request and response. -/
def defaultExcluded : List String :=
  ["Open", "Close", "AddHandler", "AddHandlerOnce"]

/-- What one compilation is asked for. -/
structure CompileOptions where
  /-- The identifier of the package to load. -/
  package : String
  /-- The type whose exported methods form the service. -/
  entrypoint : String
  excluded : List String
  /-- Struct types that are emitted without fields. -/
  fieldless : List String
  /-- The name of the service, if it is not that of the entrypoint. -/
  service : Option String
  protoPackage : Option String
  options : Options
  /-- Whether methods are emitted by name rather than in declaration order. -/
  sortMethods : Bool
  deriving DecidableEq

namespace Package

/-- What the conversion of a package reads. -/
def source (p : Package) (fieldless : List String) : Source :=
  ⟨p, p.enums, fieldless⟩

/-- The schema of given methods. -/
def schemaOf (o : CompileOptions) (methods : List RpcMethod) (pool : Pool) : Schema where
  service := o.service.getD o.entrypoint
  package := o.protoPackage
  options := o.options
  methods := if o.sortMethods then Sequence.sortBy (·.name) methods else methods
  pool := pool

/-- Compiles the service of an entrypoint. -/
def compile (p : Package) (o : CompileOptions) : Except CompileError Schema :=
  match p.lookup? o.entrypoint with
  | none => .error (.missingEntrypoint o.entrypoint p.path)
  | some entrypoint =>
    match ((p.source o.fieldless).extractMethods entrypoint o.excluded).run Pool.start with
    | (.error e, _) => .error e
    | (.ok methods, pool) =>
      let schema := schemaOf o methods pool
      -- names are checked last, over all blocks of the schema
      match schema.checkNames with
      | .error e => .error e
      | .ok () => .ok schema

end Package

/-- Compiles what loading a package came to. -/
def compileLoaded (o : CompileOptions) (loaded : Except LoadError Package) :
    Except CompileError Schema :=
  match loaded with
  | .error cause => .error (.loadFailure o.package cause)
  | .ok p => p.compile o

end RpcSchema
