/-
  RpcSchema.Proofs.Conversion.Members
  ───────────────────────────────────
  **WHICH MEMBERS AN ENUMERATION HAS.**

  A constant is a member of the enumeration of its type under the ordinal
  its literal reads as, or under its position if the literal is no 32-bit
  integer.  Of several constants with one ordinal the first is the member,
  and zero has a member even if no constant does.  So the members are
  told by the constants, one for each ordinal:

      read     a first constant of its ordinal, by its literal
      placed   a first constant of its ordinal, by its position
      zero     `<Type>Internal`, if no constant has zero

  The name `<Type>Internal` does not tell whether zero was added: a
  constant may bear it (`zero_name_of_constant`).

  Main statement: `enumerations_exact`.
-/
import RpcSchema.Proofs.Conversion.Renaming
import RpcSchema.Proofs.Text.Integer

namespace RpcSchema

/-! ## §1. The ordinal of a constant. -/

namespace Ordinal

/-- The ordinal that a constant has by its literal or by its position. -/
inductive Assigned (position : Nat) (literal : String) : Int → Prop
  | read {n : Int} (h : Reads literal n) : Assigned position literal n
  | placed (h : ∀ n, ¬ Reads literal n) : Assigned position literal (min position 2147483647)

variable {i : Nat} {name literal : String} {n o : Int}

/-- A text stands for one integer at most. -/
theorem Reads.unique {n' : Int} (h : Reads literal n) (h' : Reads literal n') : n = n' :=
  Option.some.inj ((parse?_eq_some_iff.2 h).symm.trans (parse?_eq_some_iff.2 h'))

theorem exists_reads_or_not (literal : String) :
    (∃ n, Reads literal n) ∨ ∀ n, ¬ Reads literal n :=
  (Classical.em _).imp_right not_exists.1

theorem memberAt_of_reads (h : Reads literal n) : memberAt i name literal = ⟨name, n, none⟩ := by
  unfold memberAt
  rw [parse?_eq_some_iff.2 h]

/-- A literal that does not read stays as a text, and the position is the ordinal, up to the
largest of 32 bits. -/
theorem memberAt_of_not_reads (h : ∀ n, ¬ Reads literal n) :
    memberAt i name literal = ⟨name, min i 2147483647, some literal⟩ := by
  have hnone : parse? literal = none :=
    Option.eq_none_iff_forall_not_mem.2 fun n hn => h n (parse?_eq_some_iff.1 hn)
  unfold memberAt
  rw [hnone]
  rfl

/-- A constant has one ordinal. -/
theorem Assigned.unique {o' : Int} (h : Assigned i literal o) (h' : Assigned i literal o') :
    o = o' := by
  -- either the literal reads as an integer, and only as one, or the position counts
  cases h with
  | read hn =>
    cases h' with
    | read hn' => exact hn.unique hn'
    | placed hnone => exact absurd hn (hnone _)
  | placed hnone =>
    cases h' with
    | read hn => exact absurd hn (hnone _)
    | placed _ => rfl

/-- The ordinal of the member made of a constant is the one assigned to it. -/
theorem assigned_memberAt (i : Nat) (name literal : String) :
    Assigned i literal (memberAt i name literal).ordinal := by
  obtain ⟨n, hn⟩ | hnone := exists_reads_or_not literal
  · rw [memberAt_of_reads hn]
    exact .read hn
  · rw [memberAt_of_not_reads hnone]
    exact .placed hnone

theorem ordinal_memberAt_iff : (memberAt i name literal).ordinal = o ↔ Assigned i literal o :=
  ⟨fun h => h ▸ assigned_memberAt i name literal, (assigned_memberAt i name literal).unique⟩

end Ordinal

/-! ## §2. The members by the constants. -/

namespace Enumeration

open RpcSchema.Ordinal (Reads Assigned)

/-- An ordinal is that of some constant; constants are given by name and literal. -/
def Taken (constants : List (String × String)) (o : Int) : Prop :=
  ∃ i name literal, constants[i]? = some (name, literal) ∧ Assigned i literal o

/-- A constant is the first one of an ordinal. -/
structure First (constants : List (String × String)) (i : Nat) (name literal : String)
    (o : Int) : Prop where
  declared : constants[i]? = some (name, literal)
  assigned : Assigned i literal o
  earlier : ∀ j < i, ∀ name literal, constants[j]? = some (name, literal) → ¬ Assigned j literal o

/-- What the constants of a type make a member of its enumeration. -/
inductive HasMember (type : String) (constants : List (String × String)) : EnumMember → Prop
  | read {i : Nat} {name literal : String} {o : Int} (h : First constants i name literal o)
      (hread : Reads literal o) : HasMember type constants ⟨name, o, none⟩
  | placed {i : Nat} {name literal : String} {o : Int} (h : First constants i name literal o)
      (hplaced : ∀ n, ¬ Reads literal n) : HasMember type constants ⟨name, o, some literal⟩
  | zero (h : ¬ Taken constants 0) : HasMember type constants ⟨type ++ "Internal", 0, none⟩

variable {type : String} {constants : List (String × String)} {m : EnumMember} {o : Int}

/-! ### The constants as they stand -/

/-- Each constant makes one member, at its own place. -/
theorem getElem?_declaredMembers_iff {i : Nat} :
    (declaredMembers constants)[i]? = some m ↔
      ∃ name literal, constants[i]? = some (name, literal) ∧ memberAt i name literal = m := by
  unfold declaredMembers
  rw [List.getElem?_map, List.getElem?_zipIdx, Option.map_map, Option.map_eq_some_iff,
    Nat.zero_add]
  simp only [Function.comp_apply]
  exact Prod.exists

/-- The ordinals of the members as declared are those that are taken. -/
theorem ordinal_mem_declaredMembers_iff :
    o ∈ (declaredMembers constants).map (·.ordinal) ↔ Taken constants o := by
  rw [List.mem_map]
  constructor
  · intro h
    obtain ⟨m, hm, ho⟩ := h
    -- a member stands at the place of its constant
    obtain ⟨i, hi⟩ := List.mem_iff_getElem?.1 hm
    obtain ⟨name, literal, hc, rfl⟩ := getElem?_declaredMembers_iff.1 hi
    exact ⟨i, name, literal, hc, Ordinal.ordinal_memberAt_iff.1 ho⟩
  · intro h
    obtain ⟨i, name, literal, hc, ho⟩ := h
    exact ⟨memberAt i name literal,
      List.mem_of_getElem? (getElem?_declaredMembers_iff.2 ⟨name, literal, hc, rfl⟩),
      Ordinal.ordinal_memberAt_iff.2 ho⟩

/-- What is found first under an ordinal is the first constant of it. -/
theorem find?_declaredMembers_iff :
    (declaredMembers constants).find? (fun d => d.ordinal = o) = some m ↔
      ∃ i name literal, First constants i name literal o ∧ memberAt i name literal = m := by
  rw [Sequence.find?_key_iff]
  constructor
  · intro h
    -- found first means that no constant in front has the ordinal
    obtain ⟨i, hi, ho, hearlier⟩ := h
    obtain ⟨name, literal, hc, rfl⟩ := getElem?_declaredMembers_iff.1 hi
    refine ⟨i, name, literal, ⟨hc, Ordinal.ordinal_memberAt_iff.1 ho, ?_⟩, rfl⟩
    intro j hj name' literal' hc' hassigned
    exact hearlier j hj (memberAt j name' literal')
      (getElem?_declaredMembers_iff.2 ⟨name', literal', hc', rfl⟩)
      (Ordinal.ordinal_memberAt_iff.2 hassigned)
  · intro h
    obtain ⟨i, name, literal, hfirst, rfl⟩ := h
    refine ⟨i, getElem?_declaredMembers_iff.2 ⟨name, literal, hfirst.declared, rfl⟩,
      Ordinal.ordinal_memberAt_iff.2 hfirst.assigned, ?_⟩
    intro j hj d hd ho
    obtain ⟨name', literal', hc', rfl⟩ := getElem?_declaredMembers_iff.1 hd
    exact hfirst.earlier j hj name' literal' hc' (Ordinal.ordinal_memberAt_iff.1 ho)

/-! ### The members as they are chosen -/

/-- The constants as they stand, behind a member for zero if it is the ordinal of none. -/
def candidates (type : String) (constants : List (String × String)) : List EnumMember :=
  if (declaredMembers constants).any (·.ordinal = 0) then declaredMembers constants
  else zeroMember type :: declaredMembers constants

theorem buildMembers_eq (type : String) (constants : List (String × String)) :
    buildMembers type constants =
      Sequence.sortBy (·.ordinal) (Sequence.keepFirst (·.ordinal) (candidates type constants)) :=
  rfl

theorem any_zero_iff :
    ((declaredMembers constants).any fun d => d.ordinal = 0) = true ↔ Taken constants 0 := by
  rw [← ordinal_mem_declaredMembers_iff, List.any_eq_true, List.mem_map]
  simp only [decide_eq_true_eq]

theorem candidates_of_taken (h : Taken constants 0) :
    candidates type constants = declaredMembers constants :=
  if_pos (any_zero_iff.2 h)

theorem candidates_of_not_taken (h : ¬ Taken constants 0) :
    candidates type constants = zeroMember type :: declaredMembers constants :=
  if_neg fun hany => h (any_zero_iff.1 hany)

/-- The ordinals of an enumeration are zero and those that its constants take. -/
theorem ordinal_mem_buildMembers_iff :
    o ∈ (buildMembers type constants).map (·.ordinal) ↔ o = 0 ∨ Taken constants o := by
  rw [buildMembers_eq, ((Sequence.sortBy_perm _ _).map _).mem_iff, Sequence.mem_map_keepFirst,
    ← ordinal_mem_declaredMembers_iff]
  -- sorting and keeping the first ones lose no ordinal; only zero may come from the front
  by_cases hzero : Taken constants 0
  · rw [candidates_of_taken hzero]
    constructor
    · exact Or.inr
    · intro h
      cases h with
      | inl h => exact h ▸ ordinal_mem_declaredMembers_iff.2 hzero
      | inr h => exact h
  · rw [candidates_of_not_taken hzero, List.map_cons, List.mem_cons]
    rfl

/-- A member is a first constant of its ordinal, or the one added for zero. -/
theorem hasMember_iff :
    HasMember type constants m ↔
      (∃ i name literal, First constants i name literal m.ordinal ∧ memberAt i name literal = m) ∨
        ¬ Taken constants 0 ∧ zeroMember type = m := by
  constructor
  · intro h
    cases h with
    | read h hread => exact Or.inl ⟨_, _, _, h, Ordinal.memberAt_of_reads hread⟩
    | placed h hplaced =>
      refine Or.inl ⟨_, _, _, h, ?_⟩
      rw [← Ordinal.ordinal_memberAt_iff.2 h.assigned, Ordinal.memberAt_of_not_reads hplaced]
    | zero h => exact Or.inr ⟨h, rfl⟩
  · intro h
    obtain ⟨i, name, literal, hfirst, hm⟩ | ⟨hzero, rfl⟩ := h
    · -- whether the literal reads decides what kind of member it is
      obtain ⟨n, hn⟩ | hplaced := Ordinal.exists_reads_or_not literal
      · rw [Ordinal.memberAt_of_reads hn] at hm
        subst hm
        exact .read hfirst hn
      · rw [Ordinal.memberAt_of_not_reads hplaced] at hm
        subst hm
        exact .placed hfirst hplaced
    · exact .zero hzero

/-- **The members are exactly those that the constants make.** -/
theorem mem_buildMembers_iff : m ∈ buildMembers type constants ↔ HasMember type constants m := by
  rw [buildMembers_eq, Sequence.mem_sortBy, Sequence.mem_keepFirst_iff, hasMember_iff,
    ← find?_declaredMembers_iff]
  by_cases hzero : Taken constants 0
  · rw [candidates_of_taken hzero]
    exact ⟨Or.inl, fun h => h.resolve_right fun hne => hne.1 hzero⟩
  · rw [candidates_of_not_taken hzero]
    by_cases hm : m.ordinal = 0
    · -- zero is the ordinal of no constant, so the member in front is found
      have hnone : (declaredMembers constants).find? (fun d => d.ordinal = m.ordinal) ≠ some m := by
        intro h
        obtain ⟨i, name, literal, hfirst, _⟩ := find?_declaredMembers_iff.1 h
        exact hzero ⟨i, name, literal, hfirst.declared, hm ▸ hfirst.assigned⟩
      have hfront : (zeroMember type).ordinal = m.ordinal := hm.symm
      rw [List.find?_cons_of_pos (by simpa using hfront), Option.some.injEq]
      exact ⟨fun h => Or.inr ⟨hzero, h⟩, fun h => (h.resolve_left hnone).2⟩
    · have hne : zeroMember type ≠ m := fun h => hm (h ▸ rfl)
      have hfront : (zeroMember type).ordinal ≠ m.ordinal := Ne.symm hm
      rw [List.find?_cons_of_neg (by simpa using hfront)]
      exact ⟨Or.inl, fun h => h.resolve_right fun heq => hne heq.2⟩

theorem buildMembers_ascends (type : String) (constants : List (String × String)) :
    (buildMembers type constants).Pairwise fun a b => a.ordinal < b.ordinal := by
  rw [buildMembers_eq]
  exact Sequence.sortBy_ascends _ (Sequence.keepFirst_nodup _ _)

end Enumeration

/-! ## §3. The enumerations of a package. -/

namespace Package

variable {p : Package} {n : NativeId}

/-- A type can be an enumeration if it is named, of the package, and basic underneath. -/
theorem isEnumerable_iff :
    p.isEnumerable n = true ↔
      (∃ decl, p.types.kind n = .named decl ∧ decl.package = some p.path) ∧
        ∃ kind, p.types.kind (p.types.underlying n) = .basic kind := by
  -- the two tests, one for the declaration and one for what is underneath
  have hlocal : p.isLocal n = true ↔
      ∃ decl, p.types.kind n = .named decl ∧ decl.package = some p.path := by
    simp only [← Universe.named?_eq_some_iff]
    unfold isLocal
    cases p.types.named? n <;> simp
  have hbasic : ∀ kind : NativeKind, kind.isBasic = true ↔ ∃ basic, kind = .basic basic := by
    intro kind
    cases kind <;> simp [NativeKind.isBasic]
  unfold isEnumerable
  rw [Bool.and_eq_true, hlocal, hbasic]

theorem constantsOf_ne_nil_iff : p.constantsOf n ≠ [] ↔ ∃ c ∈ p.constants, c.type = n := by
  unfold constantsOf
  simp

/-- The enumeration of a type, by what the package says about the type. -/
theorem lookup_enums_eq_some_iff {e : Enumeration} :
    p.enums.lookup n = some e ↔
      ∃ decl kind, p.types.kind n = .named decl ∧ decl.package = some p.path ∧
        p.types.kind (p.types.underlying n) = .basic kind ∧ (∃ c ∈ p.constants, c.type = n) ∧
        e = ⟨decl.name, buildMembers decl.name (p.constantsOf n)⟩ := by
  -- the name of the enumeration is that of the declaration
  have henumeration : ∀ decl, p.types.kind n = .named decl →
      p.enumeration n = ⟨decl.name, buildMembers decl.name (p.constantsOf n)⟩ := by
    intro decl hn
    unfold enumeration
    rw [Universe.named?_eq_some_iff.2 hn]
    rfl
  rw [lookup_enums]
  constructor
  · intro h
    split at h
    · rename_i hboth
      obtain ⟨⟨decl, hn, hlocal⟩, kind, hkind⟩ := isEnumerable_iff.1 hboth.1
      refine ⟨decl, kind, hn, hlocal, hkind, constantsOf_ne_nil_iff.1 hboth.2, ?_⟩
      rw [← henumeration decl hn]
      exact (Option.some.inj h).symm
    · cases h
  · intro h
    obtain ⟨decl, kind, hn, hlocal, hkind, hconstants, rfl⟩ := h
    have henumerable := isEnumerable_iff.2 ⟨⟨decl, hn, hlocal⟩, kind, hkind⟩
    rw [if_pos ⟨henumerable, constantsOf_ne_nil_iff.2 hconstants⟩, henumeration decl hn]

end Package

/-! ## §4. The member for zero. -/

namespace Enumeration

/-- A member made of nothing but a name and zero is either added or a constant that reads as
zero. -/
theorem plainZero_mem_buildMembers_iff {type name : String} {constants : List (String × String)} :
    (⟨name, 0, none⟩ : EnumMember) ∈ buildMembers type constants ↔
      (¬ Taken constants 0 ∧ name = type ++ "Internal") ∨
        ∃ i literal, First constants i name literal 0 ∧ Ordinal.Reads literal 0 := by
  rw [mem_buildMembers_iff]
  constructor
  · intro h
    cases h with
    -- a constant without a literal of its own to keep
    | read hfirst hread => exact Or.inr ⟨_, _, hfirst, hread⟩
    | zero hzero => exact Or.inl ⟨hzero, rfl⟩
  · intro h
    obtain ⟨hzero, rfl⟩ | ⟨i, literal, hfirst, hread⟩ := h
    · exact .zero hzero
    · exact .read hfirst hread

end Enumeration

/-- **Enumerations have exactly the members that the constants make.**

For every package: a type has an enumeration exactly if it is a named type of the package with a
basic underlying type and is the type of some constant; the enumeration has its name and is built
from the constants of it, in the order of their declaration.

For every name and every list of constants: the members ascend strictly by ordinal; their ordinals
are those of the constants, and zero; and a member is the first constant of its ordinal, with the
text of its literal if that is no integer, or `<Type>Internal` for zero if that is the ordinal of
no constant.  A literal reads as the integer that it spells between blanks with 32 bits, and gives
way to the position of the constant if it spells none.

Zero is therefore `<Type>Internal` in two cases: no constant has zero, or the first constant that
has it bears this name and reads as zero. -/
theorem enumerations_exact (p : Package) :
    (∀ n e, p.enums.lookup n = some e ↔
      ∃ decl kind, p.types.kind n = .named decl ∧ decl.package = some p.path ∧
        p.types.kind (p.types.underlying n) = .basic kind ∧ (∃ c ∈ p.constants, c.type = n) ∧
        e = ⟨decl.name, buildMembers decl.name
          ((p.constants.filter (·.type = n)).map fun c => (c.name, c.literal))⟩) ∧
    ∀ type constants,
      (buildMembers type constants).Pairwise (fun a b => a.ordinal < b.ordinal) ∧
      (∀ o, o ∈ (buildMembers type constants).map (·.ordinal) ↔
        o = 0 ∨ Enumeration.Taken constants o) ∧
      (∀ m, m ∈ buildMembers type constants ↔ Enumeration.HasMember type constants m) ∧
      ((⟨type ++ "Internal", 0, none⟩ : EnumMember) ∈ buildMembers type constants ↔
        ¬ Enumeration.Taken constants 0 ∨ ∃ i literal,
          Enumeration.First constants i (type ++ "Internal") literal 0 ∧
            Ordinal.Reads literal 0) := by
  refine ⟨fun _ _ => Package.lookup_enums_eq_some_iff, fun type constants =>
    ⟨Enumeration.buildMembers_ascends type constants,
      fun _ => Enumeration.ordinal_mem_buildMembers_iff,
      fun _ => Enumeration.mem_buildMembers_iff, ?_⟩⟩
  -- of the members for zero, the one that bears the name
  rw [Enumeration.plainZero_mem_buildMembers_iff, and_iff_left rfl]

/-- A constant may bear the name that is given to zero: zero is taken here, and its member is
`TierInternal` without a literal all the same. -/
theorem zero_name_of_constant :
    buildMembers "Tier" [("TierInternal", "0")] = [⟨"TierInternal", 0, none⟩] ∧
      Enumeration.Taken [("TierInternal", "0")] 0 ∧
      ¬ ((⟨"Tier" ++ "Internal", 0, none⟩ : EnumMember) ∈
          buildMembers "Tier" [("TierInternal", "0")] ↔
        ¬ Enumeration.Taken [("TierInternal", "0")] 0) := by
  have htaken : Enumeration.Taken [("TierInternal", "0")] 0 :=
    ⟨0, _, _, rfl, .read (Ordinal.parse?_eq_some_iff.1 (by decide))⟩
  exact ⟨by decide, htaken, fun h => h.1 (by decide) htaken⟩

example :
    buildMembers "Grade" [("Fine", " 2 "), ("Poor", "-1"), ("Good", "2"), ("Other", "any")] =
      [⟨"Poor", -1, none⟩, ⟨"GradeInternal", 0, none⟩, ⟨"Fine", 2, none⟩,
        ⟨"Other", 3, some "any"⟩] := by
  decide

end RpcSchema
