/-
  RpcSchema.Schema.Options
  ────────────────────────
  **Schema-level options: values by key, in ascending order of the keys.**

  A key that is set again keeps the later value.

  Main statements: `get?_insert` (the only key an insertion changes is its
  own), `ext_get?` (options are determined by their values) and
  `get?_layer` (of two layers the upper one wins key by key).
-/

namespace RpcSchema

/-- Values by key; the keys ascend strictly. -/
structure Options where
  entries : List (String × String)
  ordered : entries.Pairwise fun a b => a.1 < b.1
  deriving DecidableEq

namespace Options

/-! ## §1. Operations. -/

/-- No options. -/
def empty : Options := ⟨[], List.Pairwise.nil⟩

/-- The value of a key. -/
def get? (o : Options) (key : String) : Option String :=
  o.entries.lookup key

/-- Puts a value at its place, instead of the one its key has. -/
def insertEntry (key value : String) : List (String × String) → List (String × String)
  | [] => [(key, value)]
  | (k, v) :: rest =>
    if k < key then (k, v) :: insertEntry key value rest
    else if k = key then (key, value) :: rest
    else (key, value) :: (k, v) :: rest

/-- Insertion brings in the new entry and no other. -/
theorem mem_insertEntry {key value : String} {l : List (String × String)} {e : String × String}
    (h : e ∈ insertEntry key value l) : e = (key, value) ∨ e ∈ l := by
  induction l with
  | nil => simpa [insertEntry] using h
  | cons a rest ih =>
    obtain ⟨k, v⟩ := a
    simp only [insertEntry] at h
    -- the entry goes further on, replaces this one or stands in front
    split at h
    · rcases List.mem_cons.1 h with h | h
      · exact Or.inr (h ▸ List.mem_cons_self)
      · exact (ih h).imp_right (List.mem_cons_of_mem _)
    · split at h
      · exact (List.mem_cons.1 h).imp_right (List.mem_cons_of_mem _)
      · exact List.mem_cons.1 h

/-- Insertion keeps the keys in their order. -/
theorem insertEntry_ordered (key value : String) {l : List (String × String)}
    (h : l.Pairwise fun a b => a.1 < b.1) :
    (insertEntry key value l).Pairwise fun a b => a.1 < b.1 := by
  induction l with
  | nil => simp [insertEntry]
  | cons a rest ih =>
    obtain ⟨k, v⟩ := a
    rw [List.pairwise_cons] at h
    simp only [insertEntry]
    split
    · -- the entry goes in further behind, where it meets larger keys only
      rename_i hlt
      rw [List.pairwise_cons]
      refine ⟨fun e he => ?_, ih h.2⟩
      rcases mem_insertEntry he with rfl | he
      · exact hlt
      · exact h.1 e he
    · rename_i hge
      split
      · -- the key is there, and its value is replaced
        rename_i heq
        subst heq
        exact List.pairwise_cons.2 ⟨h.1, h.2⟩
      · rename_i hne
        -- the key is new and comes before all that are left
        have hlt : key < k :=
          Std.not_le.1 fun hle => hne (Std.le_antisymm hle (Std.not_lt.1 hge))
        rw [List.pairwise_cons]
        refine ⟨fun e he => ?_, List.pairwise_cons.2 h⟩
        rcases List.mem_cons.1 he with rfl | he
        · exact hlt
        · exact String.lt_trans hlt (h.1 e he)

/-- Sets the value of a key. -/
def insert (o : Options) (key value : String) : Options :=
  ⟨insertEntry key value o.entries, insertEntry_ordered key value o.ordered⟩

/-- Sets the values of a list, later ones over earlier ones. -/
def insertAll (o : Options) (l : List (String × String)) : Options :=
  l.foldl (fun o e => o.insert e.1 e.2) o

/-- The options of a list; a repeated key keeps its last value. -/
def ofList (l : List (String × String)) : Options :=
  empty.insertAll l

/-- The options of `o` with those of `upper` laid on top. -/
def layer (o upper : Options) : Options :=
  o.insertAll upper.entries

/-! ## §2. Values. -/

/-- The inserted key has the inserted value. -/
theorem lookup_insertEntry_self (key value : String) (l : List (String × String)) :
    (insertEntry key value l).lookup key = some value := by
  induction l with
  | nil => simp [insertEntry]
  | cons a rest ih =>
    obtain ⟨k, v⟩ := a
    simp only [insertEntry]
    split
    · rename_i hlt
      -- a smaller key is another key
      rw [List.lookup_cons, show (key == k) = false from ?_, ih]
      rw [beq_eq_false_iff_ne]
      rintro rfl
      exact String.lt_irrefl _ hlt
    · split <;> simp

/-- Other keys keep their values. -/
theorem lookup_insertEntry_of_ne {key other : String} (value : String) (h : other ≠ key)
    (l : List (String × String)) :
    (insertEntry key value l).lookup other = l.lookup other := by
  have hb : (other == key) = false := by simpa using h
  induction l with
  | nil => simp [insertEntry, List.lookup_cons, hb]
  | cons a rest ih =>
    obtain ⟨k, v⟩ := a
    simp only [insertEntry]
    split
    · rw [List.lookup_cons, List.lookup_cons, ih]
    · split
      · -- the entry replaced here has the inserted key, not the other one
        rename_i heq
        subst heq
        rw [List.lookup_cons, List.lookup_cons, hb]
      · rw [List.lookup_cons, hb]

/-- A lookup after an insertion. -/
theorem get?_insert (o : Options) (key value other : String) :
    (o.insert key value).get? other = if other = key then some value else o.get? other := by
  split
  · rename_i h
    subst h
    exact lookup_insertEntry_self _ _ _
  · rename_i h
    exact lookup_insertEntry_of_ne _ h _

/-- What is looked up is an entry: the keys ascend, so that none is there twice. -/
theorem get?_eq_some_iff {o : Options} {key value : String} :
    o.get? key = some value ↔ (key, value) ∈ o.entries := by
  obtain ⟨l, h⟩ := o
  show l.lookup key = some value ↔ (key, value) ∈ l
  induction l with
  | nil => simp
  | cons a rest ih =>
    obtain ⟨k, v⟩ := a
    rw [List.pairwise_cons] at h
    rw [List.lookup_cons, List.mem_cons]
    by_cases hk : key = k
    · subst hk
      -- keys ascend, so the key does not come again
      have hrest : (key, value) ∉ rest := fun hm => String.lt_irrefl key (h.1 (key, value) hm)
      simp [hrest, eq_comm]
    · rw [show (key == k) = false from by simpa using hk]
      simp only [ih h.2, Prod.mk.injEq, hk, false_and, false_or]

/-- **Options are told by their lookups.** -/
theorem ext_get? {a b : Options} (h : ∀ key, a.get? key = b.get? key) : a = b := by
  -- equal lookups have equal entries, and two ascending lists with the same entries are one
  have hmem : ∀ e, e ∈ a.entries ↔ e ∈ b.entries := fun e => by
    rw [← get?_eq_some_iff (o := a), ← get?_eq_some_iff (o := b), h]
  have hnd : ∀ o : Options, o.entries.Nodup := fun o =>
    o.ordered.imp fun hlt heq => by
      subst heq
      exact String.lt_irrefl _ hlt
  have hperm : a.entries.Perm b.entries :=
    (List.perm_ext_iff_of_nodup (hnd a) (hnd b)).2 hmem
  have heq : a.entries = b.entries :=
    @List.Perm.eq_of_pairwise _ (fun x y : String × String => x.1 < y.1) _ _
      (fun x y _ _ hxy hyx => absurd (String.lt_trans hxy hyx) (String.lt_irrefl _))
      a.ordered b.ordered hperm
  cases a
  cases b
  simpa using heq

/-! ## §3. Layers. -/

/-- Nothing is set in no options. -/
@[simp] theorem get?_empty (key : String) : empty.get? key = none := rfl

/-- A key below all keys of a list is not among them. -/
theorem lookup_eq_none_of_lt {key : String} {l : List (String × String)}
    (h : ∀ e ∈ l, key < e.1) : l.lookup key = none := by
  rw [List.lookup_eq_none_iff]
  intro e he
  simpa using fun heq : key = e.1 => String.lt_irrefl key (heq ▸ h e he)

/-- Options that are inserted one by one win over those that were there. -/
theorem get?_insertAll (o : Options) {l : List (String × String)}
    (h : l.Pairwise fun a b => a.1 < b.1) (key : String) :
    (o.insertAll l).get? key = (l.lookup key <|> o.get? key) := by
  induction l generalizing o with
  | nil => simp [insertAll]
  | cons a rest ih =>
    obtain ⟨k, v⟩ := a
    rw [List.pairwise_cons] at h
    show ((o.insert k v).insertAll rest).get? key = _
    rw [ih (o.insert k v) h.2, get?_insert, List.lookup_cons]
    -- the first key does not come again, since the keys ascend
    split
    · rename_i hk
      subst hk
      simp [lookup_eq_none_of_lt h.1]
    · rename_i hk
      simp [show (key == k) = false from by simpa using hk]

/-- **A layer wins key by key.** -/
theorem get?_layer (o upper : Options) (key : String) :
    (o.layer upper).get? key = (upper.get? key <|> o.get? key) :=
  o.get?_insertAll upper.ordered key

/-- A layer over nothing is itself. -/
theorem empty_layer (o : Options) : empty.layer o = o :=
  ext_get? fun key => by simp [get?_layer]

/-- An empty layer changes nothing. -/
theorem layer_empty (o : Options) : o.layer empty = o :=
  ext_get? fun key => by simp [get?_layer]

/-- Three layers may be put together from below or from above. -/
theorem layer_assoc (a b c : Options) : (a.layer b).layer c = a.layer (b.layer c) :=
  ext_get? fun key => by
    simp only [get?_layer]
    cases c.get? key <;> rfl

end Options

end RpcSchema
