/-
  RpcSchema.Proofs.Text.Integer
  ─────────────────────────────
  **WHICH TEXTS ARE 32-BIT INTEGERS.**

  A text is read as an integer if it is made of decimal digits, at least
  one of them, behind at most one sign, and of blanks around both.  It
  stands for the number of its digits, if that number is within 32 bits.

  Main statement: `Ordinal.parse?_eq_some_iff`.
-/
import Mathlib.Data.List.TakeWhile
import Mathlib.Data.Nat.Digits.Defs
import RpcSchema.Conversion.Enumeration

namespace RpcSchema

/-! ## §1. Trimming. -/

namespace Text

variable {before core after : List Char}

/-- Blanks around a text that neither begins nor ends with one are what trimming takes away. -/
theorem trim_append (hbefore : ∀ c ∈ before, isBlank c = true)
    (hafter : ∀ c ∈ after, isBlank c = true) (hfirst : ∃ c, core.head? = some c ∧ isBlank c = false)
    (hlast : ∃ c, core.getLast? = some c ∧ isBlank c = false) :
    trim (String.ofList (before ++ core ++ after)) = String.ofList core := by
  obtain ⟨c, hc, hblank⟩ := hfirst
  obtain ⟨d, hd, hblank'⟩ := hlast
  obtain ⟨rest, rfl⟩ := List.head?_eq_some_iff.1 hc
  obtain ⟨front, hfront⟩ := List.getLast?_eq_some_iff.1 hd
  -- from the left the blanks before it go, from the right those after it
  have hleft : dropBlank (before ++ c :: rest ++ after) = c :: rest ++ after := by
    rw [List.append_assoc, dropBlank_append_of_all hbefore, List.cons_append,
      dropBlank_of_not_blank _ hblank]
  have hright : dropBlank (c :: rest ++ after).reverse = (c :: rest).reverse := by
    rw [List.reverse_append, dropBlank_append_of_all fun x hx => hafter x (List.mem_reverse.1 hx),
      hfront, List.reverse_append]
    exact dropBlank_of_not_blank _ hblank'
  unfold trim
  rw [String.toList_ofList, hleft, hright, List.reverse_reverse]

/-- A text is what trimming leaves of it, with blanks around. -/
theorem exists_trim (s : String) :
    ∃ before after, (∀ c ∈ before, isBlank c = true) ∧ (∀ c ∈ after, isBlank c = true) ∧
      s.toList = before ++ (trim s).toList ++ after := by
  -- trimming drops blanks in front twice, the second time backwards
  have hsplit : ∀ cs : List Char, cs.takeWhile isBlank ++ dropBlank cs = cs :=
    fun _ => List.takeWhile_append_dropWhile
  refine ⟨s.toList.takeWhile isBlank,
    ((dropBlank s.toList).reverse.takeWhile isBlank).reverse,
    fun c hc => List.mem_takeWhile_imp hc,
    fun c hc => List.mem_takeWhile_imp (List.mem_reverse.1 hc), ?_⟩
  unfold trim
  rw [String.toList_ofList, List.append_assoc, ← List.reverse_append, hsplit,
    List.reverse_reverse, hsplit]

end Text

/-! ## §2. Digits and signs. -/

namespace Ordinal

open Text (isBlank isAsciiDigit)

/-- Decimal digits, at least one of them. -/
structure IsDigits (ds : List Char) : Prop where
  nonempty : ds ≠ []
  digits : ∀ c ∈ ds, isAsciiDigit c = true

/-- The number that decimal digits stand for. -/
def digitsValue (ds : List Char) : Nat :=
  Nat.ofDigits 10 (ds.reverse.map fun c => c.toNat - '0'.toNat)

/-- Digits behind at most one sign, and the integer they stand for. -/
inductive Signed : List Char → Int → Prop
  | unsigned {ds : List Char} (h : IsDigits ds) : Signed ds (digitsValue ds)
  | positive {ds : List Char} (h : IsDigits ds) : Signed ('+' :: ds) (digitsValue ds)
  | negative {ds : List Char} (h : IsDigits ds) : Signed ('-' :: ds) (-(digitsValue ds : Int))

/-- A text is read as a 32-bit integer. -/
structure Reads (s : String) (n : Int) : Prop where
  spelled : ∃ before core after, s.toList = before ++ core ++ after ∧
    (∀ c ∈ before, isBlank c = true) ∧ (∀ c ∈ after, isBlank c = true) ∧ Signed core n
  least : -2147483648 ≤ n
  greatest : n ≤ 2147483647

variable {cs ds : List Char} {n : Int} {s : String}

/-- Digits are read as the number they stand for. -/
theorem digits?_eq_some_iff {k : Nat} :
    digits? cs = some k ↔ IsDigits cs ∧ digitsValue cs = k := by
  -- reading from the left is Horner's rule
  have hvalue : cs.foldl (fun n c => n * 10 + (c.toNat - 48)) 0 = digitsValue cs := by
    unfold digitsValue
    rw [Nat.ofDigits_eq_foldr, List.foldr_map, List.foldr_reverse]
    refine congrArg (fun f => cs.foldl f 0) ?_
    funext n c
    rw [Nat.mul_comm, Nat.add_comm]
    rfl
  have hdigits : IsDigits cs ↔ (!cs.isEmpty && cs.all isAsciiDigit) = true := by
    rw [Bool.and_eq_true, List.all_eq_true, Bool.not_eq_true', List.isEmpty_eq_false_iff]
    exact ⟨fun h => ⟨h.nonempty, h.digits⟩, fun h => ⟨h.1, h.2⟩⟩
  unfold digits?
  rw [hvalue, hdigits]
  split
  · rename_i h
    rw [Option.some.injEq, and_iff_right h]
  · rename_i h
    simp [h]

/-- A sign is no digit. -/
theorem not_isDigits_cons {c : Char} (hc : isAsciiDigit c = false) : ¬ IsDigits (c :: ds) := by
  intro h
  have hdigit := h.digits c List.mem_cons_self
  rw [hc] at hdigit
  cases hdigit

/-- A text with or without a sign is read as the integer it stands for. -/
theorem signed?_eq_some_iff : signed? cs = some n ↔ Signed cs n := by
  -- behind its sign a text stands for what `f` makes of its digits
  have hmap : ∀ (f : Int → Int) (ds : List Char),
      Option.map f (do let k ← digits? ds; pure (k : Int)) = some n ↔
        IsDigits ds ∧ f (digitsValue ds) = n := by
    intro f ds
    have hsome : Option.map f (do let k ← digits? ds; pure (k : Int)) = some n ↔
        ∃ k, digits? ds = some k ∧ f k = n := by
      cases digits? ds <;> simp
    rw [hsome]
    simp only [digits?_eq_some_iff]
    exact ⟨fun ⟨_, ⟨hds, hk⟩, hn⟩ => ⟨hds, hk ▸ hn⟩, fun h => ⟨_, ⟨h.1, rfl⟩, h.2⟩⟩
  -- a text starts with a sign of either kind, or with a digit
  constructor
  · intro h
    unfold signed? at h
    split at h
    · obtain ⟨hdigits, rfl⟩ := (hmap _ _).1 h
      exact .negative hdigits
    · obtain ⟨hdigits, rfl⟩ := (hmap _ _).1 h
      exact .positive hdigits
    · obtain ⟨hdigits, rfl⟩ := (hmap _ _).1 h
      exact .unsigned hdigits
  · intro h
    cases h with
    | positive hdigits => exact (hmap (fun k => k) _).2 ⟨hdigits, rfl⟩
    | negative hdigits => exact (hmap (fun k => -k) _).2 ⟨hdigits, rfl⟩
    | unsigned hdigits =>
      unfold signed?
      split
      · exact absurd hdigits (not_isDigits_cons rfl)
      · exact absurd hdigits (not_isDigits_cons rfl)
      · exact (hmap (fun k => k) _).2 ⟨hdigits, rfl⟩

/-! ## §3. Integers between blanks. -/

/-- A digit is no blank. -/
theorem isBlank_of_isAsciiDigit {c : Char} (h : isAsciiDigit c = true) : isBlank c = false := by
  have hbounds : 48 ≤ c.toNat ∧ c.toNat ≤ 57 := by
    simp only [isAsciiDigit, Bool.and_eq_true, decide_eq_true_eq] at h
    exact ⟨h.1, h.2⟩
  simp only [isBlank, Bool.or_eq_false_iff, Bool.and_eq_false_iff, decide_eq_false_iff_not,
    beq_eq_false_iff_ne]
  omega

/-- An integer neither begins nor ends with a blank. -/
theorem Signed.ends (h : Signed cs n) :
    (∃ c, cs.head? = some c ∧ isBlank c = false) ∧
      ∃ c, cs.getLast? = some c ∧ isBlank c = false := by
  have hdigits : ∀ {ds : List Char}, IsDigits ds → ∀ c ∈ ds, isBlank c = false :=
    fun hds c hc => isBlank_of_isAsciiDigit (hds.digits c hc)
  have hlast : ∀ {ds : List Char}, IsDigits ds →
      ∃ c, ds.getLast? = some c ∧ isBlank c = false := by
    intro ds hds
    exact ⟨_, List.getLast?_eq_some_getLast hds.nonempty, hdigits hds _ (List.getLast_mem _)⟩
  cases h with
  | unsigned hds =>
    refine ⟨?_, hlast hds⟩
    exact ⟨_, List.head?_eq_some_head hds.nonempty, hdigits hds _ (List.head_mem _)⟩
  -- a sign is no blank either
  | positive hds | negative hds =>
    refine ⟨⟨_, rfl, rfl⟩, ?_⟩
    rw [List.getLast?_cons_of_ne_nil hds.nonempty]
    exact hlast hds

/-- **A text is read as an integer exactly if it is one of 32 bits, with blanks around it.** -/
theorem parse?_eq_some_iff : parse? s = some n ↔ Reads s n := by
  -- the bounds apply to the number, after it was read in full
  have hbounds : parse? s = some n ↔
      Signed (Text.trim s).toList n ∧ Ordinal.least ≤ n ∧ n ≤ Ordinal.greatest := by
    rw [← signed?_eq_some_iff]
    unfold parse?
    split
    · rename_i k hk
      rw [hk, Option.some.injEq]
      split
      · rename_i hwithin
        rw [Option.some.injEq]
        exact ⟨fun h => ⟨h, h ▸ hwithin⟩, fun h => h.1⟩
      · rename_i hout
        refine ⟨fun h => (nomatch h), fun h => ?_⟩
        exact absurd (h.1 ▸ h.2) hout
    · rename_i hnone
      rw [hnone]
      exact ⟨fun h => (nomatch h), fun h => (nomatch h.1)⟩
  rw [hbounds]
  constructor
  · intro h
    obtain ⟨before, after, hbefore, hafter, hs⟩ := Text.exists_trim s
    exact ⟨⟨before, _, after, hs, hbefore, hafter, h.1⟩, h.2.1, h.2.2⟩
  · intro h
    obtain ⟨before, core, after, hs, hbefore, hafter, hcore⟩ := h.spelled
    -- no digit and no sign is blank, so trimming takes the padding only
    have htrim : Text.trim s = String.ofList core := by
      rw [← String.ofList_toList (s := s), hs]
      exact Text.trim_append hbefore hafter hcore.ends.1 hcore.ends.2
    rw [htrim, String.toList_ofList]
    exact ⟨hcore, h.least, h.greatest⟩

end Ordinal

end RpcSchema
