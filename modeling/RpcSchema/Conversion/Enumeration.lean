/-
  RpcSchema.Conversion.Enumeration
  ────────────────────────────────
  **Enumerations from typed constants.**

  The constants whose type is a named basic type of the package make up
  the enumeration of that type.  A literal that reads as a 32-bit integer
  is its own ordinal; any other constant has its position among the
  constants of its type, and keeps its literal.  If no ordinal is zero, a
  member `<Type>Internal` is put in front; of several members with one
  ordinal the first stays; the result ascends by ordinal.

  Main statements: `buildMembers_sorted`, `buildMembers_nodup` and
  `zero_mem_buildMembers`.
-/
import RpcSchema.Package.Basic
import RpcSchema.Pool.Entry
import RpcSchema.Sequence.KeepFirst
import RpcSchema.Sequence.Sorted
import RpcSchema.Text.Blank

namespace RpcSchema

/-! ## §1. Ordinals. -/

namespace Ordinal

/-- The least ordinal of 32 bits. -/
def least : Int := -2147483648

/-- The greatest ordinal of 32 bits. -/
def greatest : Int := 2147483647

/-- The value of a run of decimal digits, if it is one. -/
def digits? (cs : List Char) : Option Nat :=
  if !cs.isEmpty && cs.all Text.isAsciiDigit then
    some (cs.foldl (fun n c => n * 10 + (c.toNat - 48)) 0)
  else none

/-- An integer with an optional sign. -/
def signed? : List Char → Option Int
  | '-' :: cs => (digits? cs).map fun n => -(n : Int)
  | '+' :: cs => (digits? cs).map fun n => (n : Int)
  | cs => (digits? cs).map fun n => (n : Int)

/-- The 32-bit integer a text stands for, blanks around it aside. -/
def parse? (s : String) : Option Int :=
  match signed? (Text.trim s).toList with
  | some n => if least ≤ n ∧ n ≤ greatest then some n else none
  | none => none

/-- The ordinal of a position. -/
def ofPosition (i : Nat) : Int :=
  min i greatest

end Ordinal

/-! ## §2. Members. -/

/-- The member of the constant at a position. -/
def memberAt (position : Nat) (name literal : String) : EnumMember :=
  match Ordinal.parse? literal with
  | some n => ⟨name, n, none⟩
  | none => ⟨name, Ordinal.ofPosition position, some literal⟩

/-- The members of a list of constants, each given by name and literal, as they stand. -/
def declaredMembers (constants : List (String × String)) : List EnumMember :=
  constants.zipIdx.map fun (c, i) => memberAt i c.1 c.2

/-- The member that stands for zero when no constant does. -/
def zeroMember (type : String) : EnumMember :=
  ⟨type ++ "Internal", 0, none⟩

/-- The members of the enumeration of a type. -/
def buildMembers (type : String) (constants : List (String × String)) : List EnumMember :=
  let declared := declaredMembers constants
  let members := if declared.any (·.ordinal = 0) then declared else zeroMember type :: declared
  Sequence.sortBy (·.ordinal) (Sequence.keepFirst (·.ordinal) members)

/-- The members stand in the order of their ordinals. -/
theorem buildMembers_sorted (type : String) (constants : List (String × String)) :
    (buildMembers type constants).Pairwise fun a b => a.ordinal ≤ b.ordinal :=
  Sequence.sortBy_sorted _ _

/-- No two members share an ordinal. -/
theorem buildMembers_nodup (type : String) (constants : List (String × String)) :
    ((buildMembers type constants).map (·.ordinal)).Nodup :=
  (((Sequence.sortBy_perm _ _).map _).nodup_iff).2 (Sequence.keepFirst_nodup _ _)

/-- Zero always has a member: a constant that is zero, or the one that is added. -/
theorem zero_mem_buildMembers (type : String) (constants : List (String × String)) :
    0 ∈ (buildMembers type constants).map (·.ordinal) := by
  rw [buildMembers, ((Sequence.sortBy_perm _ _).map _).mem_iff, Sequence.mem_map_keepFirst]
  split
  · rename_i h
    simpa [List.any_eq_true] using h
  · exact List.mem_map.2 ⟨zeroMember type, List.mem_cons_self, rfl⟩

/-! ## §3. The enumerations of a package. -/

/-- An enumeration. -/
structure Enumeration where
  name : String
  members : List EnumMember
  deriving DecidableEq, Repr

/-- The enumeration as a definition of the schema. -/
def Enumeration.definition (e : Enumeration) : Definition :=
  .enum e.name e.members

/-- Enumerations by their named type. -/
abbrev EnumTable := List (NativeId × Enumeration)

/-- A kind that has no parts. -/
def NativeKind.isBasic : NativeKind → Bool
  | .basic _ => true
  | _ => false

namespace Package

/-- A named basic type of this very package. -/
def isEnumerable (p : Package) (id : NativeId) : Bool :=
  p.isLocal id && (p.types.kind (p.types.underlying id)).isBasic

/-- The constants of a type, each by name and literal. -/
def constantsOf (p : Package) (id : NativeId) : List (String × String) :=
  (p.constants.filter (·.type = id)).map fun c => (c.name, c.literal)

/-- The types that have an enumeration. -/
def enumerated (p : Package) : List NativeId :=
  (Sequence.keepFirst (·) (p.constants.map (·.type))).filter p.isEnumerable

/-- The enumeration of a type. -/
def enumeration (p : Package) (id : NativeId) : Enumeration :=
  let name := ((p.types.named? id).map (·.name)).getD ""
  ⟨name, buildMembers name (p.constantsOf id)⟩

/-- The enumerations of the package. -/
def enums (p : Package) : EnumTable :=
  p.enumerated.map fun id => (id, p.enumeration id)

end Package

end RpcSchema
