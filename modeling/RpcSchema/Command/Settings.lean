/-
  RpcSchema.Command.Settings
  ──────────────────────────
  **Settings in layers.**

  Settings come from a config file and from flags.  A layer leaves open
  what it does not set; laid over another one it wins setting by setting,
  and for the options key by key.

  A config file is a record whose keys are the settings.  Relative paths in
  it are seen from the directory of the file.

  Main statements: `none_merge`, `merge_none` and `merge_assoc`.
-/
import RpcSchema.Command.Error
import RpcSchema.Files.Storage
import RpcSchema.Json.Reader
import RpcSchema.Json.Record
import RpcSchema.Schema.Options

namespace RpcSchema

/-! ## §1. Layers. -/

/-- Settings, as far as one source gives them. -/
structure Settings where
  manifestRoot : Option String
  package : Option String
  entrypoint : Option String
  excluded : Option (List String)
  fieldless : Option (List String)
  options : Options
  protoPackage : Option String
  service : Option String
  sortMethods : Option Bool
  output : Option String
  deriving DecidableEq

namespace Settings

/-- Nothing is set. -/
def none : Settings where
  manifestRoot := .none
  package := .none
  entrypoint := .none
  excluded := .none
  fieldless := .none
  options := .empty
  protoPackage := .none
  service := .none
  sortMethods := .none
  output := .none

/-- The settings of `s` with those of `upper` laid on top. -/
def merge (s upper : Settings) : Settings where
  manifestRoot := upper.manifestRoot <|> s.manifestRoot
  package := upper.package <|> s.package
  entrypoint := upper.entrypoint <|> s.entrypoint
  excluded := upper.excluded <|> s.excluded
  fieldless := upper.fieldless <|> s.fieldless
  -- options are joined key by key, everything else is replaced
  options := s.options.layer upper.options
  protoPackage := upper.protoPackage <|> s.protoPackage
  service := upper.service <|> s.service
  sortMethods := upper.sortMethods <|> s.sortMethods
  output := upper.output <|> s.output

/-- Settings laid over nothing are themselves. -/
theorem none_merge (s : Settings) : none.merge s = s := by
  simp [merge, none, Options.empty_layer]

/-- Nothing laid over settings changes nothing. -/
theorem merge_none (s : Settings) : s.merge none = s := by
  simp [merge, none, Options.layer_empty]

/-- Three layers may be laid over one another from below or from above. -/
theorem merge_assoc (a b c : Settings) : (a.merge b).merge c = a.merge (b.merge c) := by
  simp [merge, Options.layer_assoc, Option.or_assoc]

/-! ## §2. Config files. -/

open Json (slots slot optional defaulted asText asBool asList asTexts)

/-- The keys of a config file. -/
def keys : List String :=
  ["manifest_root", "package", "entrypoint", "exclude", "fieldless", "options", "proto_package",
    "service", "sort_methods", "output"]

/-- The settings that a record gives.  A key that is missing leaves its setting open, and so does
`null`, except for the options; an unknown key is a fault, and so is a value of another form. -/
def ofJson (j : Json) : Except Json.Fault Settings := do
  -- one slot a key, in the order of the keys
  let values ← slots keys j
  return {
    manifestRoot := ← optional asText (slot values 0)
    package := ← optional asText (slot values 1)
    entrypoint := ← optional asText (slot values 2)
    excluded := ← optional (asList asText) (slot values 3)
    fieldless := ← optional (asList asText) (slot values 4)
    options := .ofList (← defaulted [] asTexts (slot values 5))
    protoPackage := ← optional asText (slot values 6)
    service := ← optional asText (slot values 7)
    sortMethods := ← optional asBool (slot values 8)
    output := ← optional asText (slot values 9) }

/-- The settings with their paths seen from a directory. -/
def below (base : String) (s : Settings) : Settings :=
  { s with
    manifestRoot := s.manifestRoot.map (Path.join base)
    output := s.output.map (Path.join base) }

/-- The settings that the text of a config file gives. -/
def parse (path text : String) : Except CommandError Settings :=
  match Json.read text >>= ofJson with
  | .error fault => .error (.malformedConfig path fault)
  | .ok s => .ok (s.below ((Path.parent? path).getD ""))

/-- Loads a config file. -/
def load {m : Type → Type} [Monad m] [Storage m] (path : String) :
    m (Except CommandError Settings) := do
  match ← Storage.readText path with
  | .error detail => return .error (.unreadableConfig path detail)
  | .ok text => return parse path text

end Settings

end RpcSchema
