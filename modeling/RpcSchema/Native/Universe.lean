/-
  RpcSchema.Native.Universe
  ─────────────────────────
  **The universe: all native types of one package.**

  Entries are only ever added.  `intern` returns the entry that already
  holds a shape, so that `*T` is one entry wherever it is written;
  `declareNamed` always adds one.  The only change an entry can undergo is
  that a named type receives its underlying type or a further method.

  Main statements: `kind_intern` (the returned id holds the shape) and
  `kind_intern_of_lt` (older entries stay as they are).
-/
import RpcSchema.Native.Kind

namespace RpcSchema

/-- The native types of one package and its builtins. -/
structure Universe where
  kinds : Array NativeKind
  deriving DecidableEq, Repr

namespace Universe

/-! ## §1. Reading. -/

/-- The number of entries. -/
def size (u : Universe) : Nat := u.kinds.size

/-- The type behind an id.  An id that was never handed out reads as the empty tuple, which
nothing refers to and nothing converts. -/
def kind (u : Universe) : NativeId → NativeKind
  | .undefined => .tuple []
  | .entry i => u.kinds.getD i (.tuple [])

/-- The declaration behind an id of a named type. -/
def named? (u : Universe) (id : NativeId) : Option NamedType :=
  match u.kind id with
  | .named decl => some decl
  | _ => none

/-- The underlying type of a defined named type; every other type is its own. -/
def underlying (u : Universe) (id : NativeId) : NativeId :=
  match u.kind id with
  | .named decl => if decl.underlying = .undefined then id else decl.underlying
  | _ => id

/-- Follows pointers, at most `n` of them. -/
def derefWithin (u : Universe) : Nat → NativeId → NativeId
  | 0, id => id
  | n + 1, id =>
    match u.kind id with
    | .pointer elem => u.derefWithin n elem
    | _ => id

/-- The type behind any number of pointers. -/
def deref (u : Universe) (id : NativeId) : NativeId :=
  u.derefWithin (u.size + 1) id

/-- The builtin `error` interface. -/
def isError (u : Universe) (id : NativeId) : Bool :=
  match u.kind id with
  | .named decl =>
    decl.package = none && decl.name = "error"
      && (match u.kind decl.underlying with
          | .interface _ => true
          | _ => false)
  | _ => false

/-! ## §2. Adding. -/

/-- Adds an entry. -/
def push (u : Universe) (kind : NativeKind) : NativeId × Universe :=
  (.entry u.size, ⟨u.kinds.push kind⟩)

/-- The entry of an unnamed shape, added if there is none yet. -/
def intern (u : Universe) (kind : NativeKind) : NativeId × Universe :=
  match u.kinds.findIdx? (· = kind) with
  | some i => (.entry i, u)
  | none => u.push kind

/-- The pointer type to a type. -/
def pointer (u : Universe) (elem : NativeId) : NativeId × Universe :=
  u.intern (.pointer elem)

/-- The slice type of a type. -/
def slice (u : Universe) (elem : NativeId) : NativeId × Universe :=
  u.intern (.slice elem)

/-- The map type of two types. -/
def map (u : Universe) (key value : NativeId) : NativeId × Universe :=
  u.intern (.map key value)

/-- The unnamed interface type of a shape. -/
def interface (u : Universe) (shape : InterfaceShape) : NativeId × Universe :=
  u.intern (.interface shape)

/-- The unnamed struct type of some fields. -/
def struct (u : Universe) (fields : List Field) : NativeId × Universe :=
  u.intern (.struct fields)

/-- The tuple of some types. -/
def tuple (u : Universe) (elems : List NativeId) : NativeId × Universe :=
  u.intern (.tuple elems)

/-- A new named type without a shape. -/
def declareNamed (u : Universe) (name : String) (package : Option String) :
    NativeId × Universe :=
  u.push (.named ⟨name, package, .undefined, []⟩)

/-! ## §3. Defining. -/

/-- Changes the declaration of a named type; other entries stay. -/
def modifyNamed (u : Universe) (id : NativeId) (f : NamedType → NamedType) : Universe :=
  match id with
  | .undefined => u
  | .entry i =>
    ⟨u.kinds.modify i fun
      | .named decl => .named (f decl)
      | kind => kind⟩

/-- Gives a named type its underlying type. -/
def setUnderlying (u : Universe) (id underlying : NativeId) : Universe :=
  u.modifyNamed id fun decl => { decl with underlying }

/-- Adds a method to a named type, after those it has. -/
def addMethod (u : Universe) (id : NativeId) (method : Method) : Universe :=
  u.modifyNamed id fun decl => { decl with methods := decl.methods ++ [method] }

/-! ## §4. The predeclared types. -/

/-- The method of the `error` interface. -/
def errorMethod : Method :=
  ⟨"Error", [], [⟨none, .basic .string⟩], false⟩

/-- The id of the shape of the `error` interface. -/
def errorShape : NativeId := .entry 20

/-- The basic kinds, `error`, the empty interface and the shape of `error`. -/
def predeclared : Universe :=
  ⟨(BasicKind.all.map NativeKind.basic
    ++ [NativeKind.named ⟨"error", none, errorShape, []⟩,
        NativeKind.interface .empty,
        NativeKind.interface ⟨[errorMethod], []⟩]).toArray⟩

/-! ## §5. What is read, and what adding keeps. -/

/-- The declaration behind an id is that of a named type. -/
theorem named?_eq_some_iff {u : Universe} {id : NativeId} {decl : NamedType} :
    u.named? id = some decl ↔ u.kind id = .named decl := by
  unfold named?
  cases u.kind id <;> simp

@[simp] theorem size_push (u : Universe) (k : NativeKind) :
    (u.push k).2.size = u.size + 1 := by
  simp [push, size]

/-- What is pushed is found under its new id. -/
theorem kind_push (u : Universe) (k : NativeKind) : (u.push k).2.kind (u.push k).1 = k := by
  simp [push, kind, size]

/-- What was there before is the same. -/
theorem kind_push_of_lt (u : Universe) (k : NativeKind) {i : Nat} (h : i < u.size) :
    (u.push k).2.kind (.entry i) = u.kind (.entry i) := by
  simp only [size] at h
  simp [push, kind, Array.getElem?_push, Nat.ne_of_lt h]

/-- An interned shape is found under its id, whether that is new or not. -/
theorem kind_intern (u : Universe) (k : NativeKind) :
    (u.intern k).2.kind (u.intern k).1 = k := by
  unfold intern
  split
  · rename_i i hi
    obtain ⟨hlt, hp, _⟩ := Array.findIdx?_eq_some_iff_getElem.1 hi
    simp only [kind, Array.getD_eq_getD_getElem?, Array.getElem?_eq_getElem hlt,
      Option.getD_some]
    simpa using hp
  · exact kind_push u k

/-- What was there before is the same. -/
theorem kind_intern_of_lt (u : Universe) (k : NativeKind) {i : Nat} (h : i < u.size) :
    (u.intern k).2.kind (.entry i) = u.kind (.entry i) := by
  unfold intern
  split
  · rfl
  · exact kind_push_of_lt u k h

/-- Interning adds a type at most. -/
theorem size_le_intern (u : Universe) (k : NativeKind) : u.size ≤ (u.intern k).2.size := by
  unfold intern
  split
  · exact Nat.le_refl _
  · simp

/-- A declaration may change; no type comes or goes with that. -/
@[simp] theorem size_modifyNamed (u : Universe) (id : NativeId) (f : NamedType → NamedType) :
    (u.modifyNamed id f).size = u.size := by
  cases id <;> simp [modifyNamed, size]

/-- The basic kinds are there from the start. -/
theorem kind_predeclared_basic (kind : BasicKind) :
    predeclared.kind (.basic kind) = .basic kind := by
  cases kind <;> rfl

/-- The predeclared `error` is an error type. -/
theorem isError_error : predeclared.isError .error = true := by
  decide

end Universe

end RpcSchema
