/-
  RpcSchema.Proofs.TypeExpr.Grammar
  ─────────────────────────────────
  **THE GRAMMAR OF TYPE EXPRESSIONS, AND ITS READER.**

  The grammar says which texts spell an expression:

      text := blank* "..." expr blank*  |  expr blank*
      expr := blank* "*" expr  |  blank* "[" blank* "]" expr
            | blank* "map" blank* "[" expr blank* "]" expr
            | blank* "interface" blank* "{" blank* "}"
            | blank* name  |  blank* name "." blank* name

  What may follow a name — a blank, a dot, a bracket, the end — is no word
  character, so a name is always a longest run of them.

  The reader takes a text apart from the left.  It reads what the grammar
  spells, provided that the text that follows does not prolong a name
  (`Spells.expression_eq`), and what it reads is spelled by the text that
  it consumed (`spells_of_expression`).

  Main statement: `readWhole_eq_ok_iff`.
-/
import Mathlib.Data.List.TakeWhile
import RpcSchema.TypeExpr.Reader

namespace RpcSchema.TypeExpr

open Text (dropBlank isBlank isWordChar isAsciiDigit)

/-! ## §1. The grammar. -/

/-- White space, or nothing. -/
def Blanks (ws : List Char) : Prop :=
  ∀ c ∈ ws, isBlank c = true

/-- Word characters, at least one of them, and no digit first. -/
structure IsIdentifier (name : String) : Prop where
  isName : isName name.toList = true
  wordChars : ∀ c ∈ name.toList, isWordChar c = true

/-- A name that may open an expression: the keywords open others. -/
structure IsOpening (name : String) : Prop extends IsIdentifier name where
  free : isKeyword name = false

theorem isIdentifier_of_check {name : String}
    (h : (isName name.toList && name.toList.all isWordChar) = true) : IsIdentifier name := by
  rw [Bool.and_eq_true, List.all_eq_true] at h
  exact ⟨h.1, h.2⟩

/-- A check for names that open an expression. -/
theorem isOpening_of_check {name : String}
    (h : (isName name.toList && name.toList.all isWordChar && !isKeyword name) = true) :
    IsOpening name := by
  rw [Bool.and_eq_true, Bool.not_eq_true'] at h
  exact ⟨isIdentifier_of_check h.1, h.2⟩

/-- The texts of an expression, up to its last token. -/
inductive Spells : TypeExpr → List Char → Prop
  | unqualified {ws : List Char} {name : String} (hws : Blanks ws) (hname : IsOpening name) :
      Spells (.unqualified name) (ws ++ name.toList)
  | qualified {ws vs : List Char} {package name : String} (hws : Blanks ws)
      (hpackage : IsOpening package) (hvs : Blanks vs) (hname : IsIdentifier name) :
      Spells (.qualified package name) (ws ++ package.toList ++ '.' :: (vs ++ name.toList))
  | pointer {ws elem : List Char} {e : TypeExpr} (hws : Blanks ws) (helem : Spells e elem) :
      Spells (.pointer e) (ws ++ '*' :: elem)
  | slice {ws vs elem : List Char} {e : TypeExpr} (hws : Blanks ws) (hvs : Blanks vs)
      (helem : Spells e elem) :
      Spells (.slice e) (ws ++ '[' :: (vs ++ ']' :: elem))
  | map {ws vs us key value : List Char} {k v : TypeExpr} (hws : Blanks ws)
      (hvs : Blanks vs) (hkey : Spells k key) (hus : Blanks us) (hvalue : Spells v value) :
      Spells (.map k v) (ws ++ "map".toList ++ (vs ++ '[' :: (key ++ (us ++ ']' :: value))))
  | emptyInterface {ws vs us : List Char} (hws : Blanks ws) (hvs : Blanks vs)
      (hus : Blanks us) :
      Spells .emptyInterface (ws ++ "interface".toList ++ (vs ++ '\x7b' :: (us ++ ['\x7d'])))

/-- The texts of an expression that may be variadic if it is the outermost one. -/
inductive SpellsOuter (outermost : Bool) : TypeExpr → List Char → Prop
  | plain {e : TypeExpr} {text : List Char} (h : Spells e text) : SpellsOuter outermost e text
  | variadic {ws elem : List Char} {e : TypeExpr} (houter : outermost = true) (hws : Blanks ws)
      (helem : Spells e elem) :
      SpellsOuter outermost (.variadic e) (ws ++ '.' :: '.' :: '.' :: elem)

/-- A whole text: an expression, and blanks behind it. -/
inductive SpellsWhole (e : TypeExpr) : List Char → Prop
  | intro {text ws : List Char} (h : SpellsOuter true e text) (hws : Blanks ws) :
      SpellsWhole e (text ++ ws)

/-! ## §2. Tokens. -/

variable {cs rest ws word : List Char} {c : Char} {e : TypeExpr} {name : String}

theorem blanks_nil : Blanks [] := by
  intro c hc
  cases hc

/-- A text starts with blanks, and then comes what is left without them. -/
theorem exists_blanks (cs : List Char) : ∃ ws, Blanks ws ∧ cs = ws ++ dropBlank cs := by
  refine ⟨cs.takeWhile isBlank, ?_, (List.takeWhile_append_dropWhile).symm⟩
  intro c hc
  exact List.mem_takeWhile_imp hc

theorem Blanks.dropBlank_append (hws : Blanks ws) (cs : List Char) :
    dropBlank (ws ++ cs) = dropBlank cs :=
  Text.dropBlank_append_of_all hws

theorem Blanks.dropBlank_eq_nil (hws : Blanks ws) : dropBlank ws = [] := by
  have h := hws.dropBlank_append []
  rwa [List.append_nil] at h

theorem Blanks.dropBlank_append_cons (hws : Blanks ws) (hc : isBlank c = false)
    (rest : List Char) : dropBlank (ws ++ c :: rest) = c :: rest := by
  rw [hws.dropBlank_append, Text.dropBlank_of_not_blank rest hc]

/-- The blank characters, listed. -/
def blankCodes : List Nat :=
  List.range' 0x09 5 ++ [0x20, 0x85, 0xA0, 0x1680] ++ List.range' 0x2000 11
    ++ [0x2028, 0x2029, 0x202F, 0x205F, 0x3000]

/-- Every blank is on the list. -/
theorem mem_blankCodes_of_isBlank (h : isBlank c = true) : c.toNat ∈ blankCodes := by
  simp only [isBlank, Bool.or_eq_true, Bool.and_eq_true, decide_eq_true_eq, beq_iff_eq] at h
  simp only [blankCodes, List.mem_append, List.mem_range'_1, List.mem_cons, List.not_mem_nil,
    or_false]
  omega

/-- No word is made of blanks. -/
theorem isBlank_of_isWordChar (h : isWordChar c = true) : isBlank c = false := by
  have hall : ∀ n ∈ blankCodes, isWordChar (Char.ofNat n) = false := by
    decide +kernel
  cases hblank : isBlank c with
  | false => rfl
  | true =>
    have hno := hall c.toNat (mem_blankCodes_of_isBlank hblank)
    rw [Char.ofNat_toNat, h] at hno
    cases hno

/-- An identifier starts with a word character. -/
theorem IsIdentifier.exists_cons (h : IsIdentifier name) :
    ∃ c word, name.toList = c :: word ∧ isWordChar c = true := by
  have hname := h.isName
  have hall := h.wordChars
  cases hlist : name.toList with
  | nil =>
    rw [hlist] at hname
    cases hname
  | cons c word =>
    rw [hlist] at hall
    exact ⟨c, word, rfl, hall c List.mem_cons_self⟩

/-- The text that follows does not prolong a word. -/
def EndsWord (rest : List Char) : Prop :=
  ∀ c, rest.head? = some c → isWordChar c = false

/-- The text that follows prolongs neither a word nor a name. -/
def EndsName (rest : List Char) : Prop :=
  ∀ c, rest.head? = some c → isWordChar c = false ∧ c ≠ '.'

theorem EndsName.endsWord (h : EndsName rest) : EndsWord rest :=
  fun c hc => (h c hc).1

theorem endsName_nil : EndsName [] := by
  intro c hc
  cases hc

theorem endsName_cons (hc : isWordChar c = false) (hdot : c ≠ '.') (rest : List Char) :
    EndsName (c :: rest) := by
  intro d hd
  obtain rfl := Option.some.inj hd
  exact ⟨hc, hdot⟩

/-- A blank ends a name, and so does what follows if there is none. -/
theorem Blanks.endsName_append (hws : Blanks ws) (h : EndsName rest) : EndsName (ws ++ rest) := by
  cases ws with
  | nil => exact h
  | cons w ws =>
    have hw : isBlank w = true := hws w List.mem_cons_self
    refine endsName_cons ?_ ?_ _
    · cases hword : isWordChar w with
      | false => rfl
      | true =>
        rw [isBlank_of_isWordChar hword] at hw
        cases hw
    · -- nor is a blank a dot
      intro hdot
      rw [hdot] at hw
      exact absurd hw (by decide)

/-- A word is cut off where it is not prolonged. -/
theorem takeWhile_append_of_endsWord (hword : ∀ c ∈ word, isWordChar c = true)
    (hrest : EndsWord rest) :
    (word ++ rest).takeWhile isWordChar = word ∧ (word ++ rest).dropWhile isWordChar = rest := by
  rw [List.takeWhile_append_of_pos hword, List.dropWhile_append_of_pos hword]
  cases rest with
  | nil => exact ⟨List.append_nil _, rfl⟩
  | cons c rest =>
    have hc : isWordChar c = false := hrest c rfl
    rw [List.takeWhile_cons_of_neg (by simp [hc]), List.dropWhile_cons_of_neg (by simp [hc])]
    exact ⟨List.append_nil _, rfl⟩

/-- **A name is read where one stands.** -/
theorem IsIdentifier.identifier_eq (h : IsIdentifier name) (hws : Blanks ws)
    (hrest : EndsWord rest) :
    identifier (ws ++ (name.toList ++ rest)) = .ok (name, rest) := by
  obtain ⟨c, word, hlist, hc⟩ := h.exists_cons
  -- the word begins where the blanks end
  have hdrop : dropBlank (ws ++ (name.toList ++ rest)) = name.toList ++ rest := by
    rw [hlist]
    exact hws.dropBlank_append_cons (isBlank_of_isWordChar hc) _
  obtain ⟨htake, hleft⟩ := takeWhile_append_of_endsWord h.wordChars hrest
  unfold identifier
  dsimp only
  rw [hdrop, htake, hleft, if_pos h.isName, String.ofList_toList]

/-- **What is read as a name is one**, and it is not prolonged by what follows. -/
theorem exists_of_identifier (h : identifier cs = .ok (name, rest)) :
    ∃ ws, Blanks ws ∧ IsIdentifier name ∧ cs = ws ++ (name.toList ++ rest) ∧ EndsWord rest := by
  obtain ⟨ws, hws, hcs⟩ := exists_blanks cs
  unfold identifier at h
  dsimp only at h
  split at h
  · rename_i hname
    obtain ⟨rfl, rfl⟩ := Prod.mk.inj (Except.ok.inj h)
    refine ⟨ws, hws, ⟨?_, ?_⟩, ?_, ?_⟩
    · rwa [String.toList_ofList]
    · intro c hc
      rw [String.toList_ofList] at hc
      exact List.mem_takeWhile_imp hc
    · rw [String.toList_ofList, List.takeWhile_append_dropWhile]
      exact hcs
    · -- the word is taken whole, so what follows goes on with no word character
      intro c hc
      have hhead := List.head?_dropWhile_not isWordChar (dropBlank cs)
      rw [hc] at hhead
      simpa using hhead
  · cases h

/-! ## §3. What the grammar spells is read. -/

section Tokens

variable {n : Nat} {outermost : Bool} {inner : List Char → Reading}

theorem expression_of_dots (h : dropBlank cs = '.' :: '.' :: '.' :: rest) :
    expression (n + 1) outermost cs = afterDots (expression n false) outermost rest := by
  rw [expression, h]
  rfl

theorem expression_of_star (h : dropBlank cs = '*' :: rest) :
    expression (n + 1) outermost cs = (expression n false rest).map (wrap .pointer) := by
  rw [expression, h]
  rfl

theorem expression_of_bracket (h : dropBlank cs = '[' :: rest) :
    expression (n + 1) outermost cs = afterBracket (expression n false) rest := by
  rw [expression, h]
  rfl

/-- An expression that starts with a word character starts with a word. -/
theorem expression_of_wordChar (h : dropBlank cs = c :: rest) (hc : isWordChar c = true) :
    expression (n + 1) outermost cs = afterWord (expression n false) (c :: rest) := by
  unfold expression
  rw [h]
  -- the characters that open something else are no word characters
  split
  · rename_i heq
    rw [(List.cons.inj heq).1] at hc
    exact absurd hc (by decide)
  · rename_i heq
    rw [(List.cons.inj heq).1] at hc
    exact absurd hc (by decide)
  · rename_i heq
    rw [(List.cons.inj heq).1] at hc
    exact absurd hc (by decide)
  · rfl

/-- Behind the brackets there is the element. -/
theorem afterBracket_of_closing (h : dropBlank cs = ']' :: rest) :
    afterBracket inner cs = (inner rest).map (wrap .slice) := by
  unfold afterBracket
  rw [h]
  rfl

/-- Behind a key in brackets there is the value. -/
theorem afterKey_of_closing {key : TypeExpr} (h : dropBlank cs = ']' :: rest) :
    afterKey inner key cs = (inner rest).map (wrap (.map key)) := by
  unfold afterKey
  rw [h]
  rfl

/-- Behind the word `map` there is a key in brackets. -/
theorem afterMap_of_opening {left : List Char} {key : TypeExpr} (h : dropBlank cs = '[' :: rest)
    (hkey : inner rest = .ok (key, left)) : afterMap inner cs = afterKey inner key left := by
  unfold afterMap
  rw [h]
  simp only [hkey]

/-- Behind the word `interface` there are braces with nothing in them. -/
theorem afterInterface_of_braces {left : List Char} (h : dropBlank cs = '\x7b' :: rest)
    (hclose : dropBlank rest = '\x7d' :: left) :
    afterInterface cs = .ok (.emptyInterface, left) := by
  unfold afterInterface
  rw [h]
  show afterBrace rest = _
  unfold afterBrace
  rw [hclose]
  rfl

theorem afterName_of_dot {rest' : List Char} {word : String}
    (h : identifier rest = .ok (name, rest')) :
    afterName word ('.' :: rest) = .ok (.qualified word name, rest') := by
  simp only [afterName, h]

/-- A name that is not prolonged stands alone. -/
theorem afterName_of_endsName (h : EndsName rest) (word : String) :
    afterName word rest = .ok (.unqualified word, rest) := by
  unfold afterName
  split
  · exact absurd rfl (h '.' rfl).2
  · rfl

end Tokens

/-- The word that an expression starts with decides what is read. -/
theorem IsIdentifier.expression_eq (h : IsIdentifier name) (hws : Blanks ws)
    (hrest : EndsWord rest) (n : Nat) (outermost : Bool) :
    expression (n + 1) outermost (ws ++ (name.toList ++ rest)) =
      if name = "map" then afterMap (expression n false) rest
      else if name = "interface" then afterInterface rest
      else afterName name rest := by
  obtain ⟨c, word, hlist, hc⟩ := h.exists_cons
  -- a word begins with no token, so the reader falls through to names
  have hdrop : dropBlank (ws ++ (name.toList ++ rest)) = c :: (word ++ rest) := by
    rw [hlist]
    exact hws.dropBlank_append_cons (isBlank_of_isWordChar hc) _
  have hread : identifier (c :: (word ++ rest)) = .ok (name, rest) := by
    have hbare := h.identifier_eq blanks_nil hrest
    rwa [hlist, List.nil_append] at hbare
  rw [expression_of_wordChar hdrop hc]
  unfold afterWord
  rw [hread]

/-- A name that opens an expression is read as such. -/
theorem IsOpening.expression_eq (h : IsOpening name) (hws : Blanks ws) (hrest : EndsWord rest)
    (n : Nat) (outermost : Bool) :
    expression (n + 1) outermost (ws ++ (name.toList ++ rest)) = afterName name rest := by
  have hfree := h.free
  simp only [isKeyword, Bool.or_eq_false_iff, decide_eq_false_iff_not] at hfree
  rw [h.toIsIdentifier.expression_eq hws hrest, if_neg hfree.1, if_neg hfree.2]

theorem isIdentifier_map : IsIdentifier "map" :=
  isIdentifier_of_check (by decide)

theorem isIdentifier_interface : IsIdentifier "interface" :=
  isIdentifier_of_check (by decide)

/-- **What the grammar spells is read**, and the text behind it is left.  By induction on the
expression; each level of the reader is paid for by a character. -/
theorem Spells.expression_eq {text : List Char} (h : Spells e text) {n : Nat} {outermost : Bool}
    (hn : text.length < n) (hrest : EndsName rest) :
    expression n outermost (text ++ rest) = .ok (e, rest) := by
  induction h generalizing n outermost rest with
  | unqualified hws hname =>
    obtain ⟨n, rfl⟩ : ∃ m, n = m + 1 := ⟨n - 1, by omega⟩
    rw [List.append_assoc, hname.expression_eq hws hrest.endsWord]
    exact afterName_of_endsName hrest _
  | qualified hws hpackage hvs hname =>
    obtain ⟨n, rfl⟩ : ∃ m, n = m + 1 := ⟨n - 1, by omega⟩
    rw [List.append_assoc, List.append_assoc, List.cons_append, List.append_assoc,
      hpackage.expression_eq hws]
    · exact afterName_of_dot (hname.identifier_eq hvs hrest.endsWord)
    · intro c hc
      obtain rfl := Option.some.inj hc
      decide
  | pointer hws _ ih =>
    obtain ⟨n, rfl⟩ : ∃ m, n = m + 1 := ⟨n - 1, by omega⟩
    rw [List.append_assoc, List.cons_append,
      expression_of_star (hws.dropBlank_append_cons (by decide) _), ih (by simp at hn; omega) hrest]
    rfl
  | slice hws hvs _ ih =>
    obtain ⟨n, rfl⟩ : ∃ m, n = m + 1 := ⟨n - 1, by omega⟩
    rw [List.append_assoc, List.cons_append, List.append_assoc, List.cons_append,
      expression_of_bracket (hws.dropBlank_append_cons (by decide) _),
      afterBracket_of_closing (hvs.dropBlank_append_cons (by decide) _),
      ih (by simp at hn; omega) hrest]
    rfl
  | @map ws vs us key value k v hws hvs _ hus _ ihkey ihvalue =>
    obtain ⟨n, rfl⟩ : ∃ m, n = m + 1 := ⟨n - 1, by omega⟩
    have hlength : key.length < n ∧ value.length < n := by
      simp at hn
      omega
    -- the bracket, or a blank before it, ends the word
    have hopening : EndsName (vs ++ '[' :: (key ++ (us ++ ']' :: (value ++ rest)))) :=
      hvs.endsName_append (endsName_cons (by decide) (by decide) _)
    have hclosing : EndsName (us ++ ']' :: (value ++ rest)) :=
      hus.endsName_append (endsName_cons (by decide) (by decide) _)
    have htext : ws ++ "map".toList ++ (vs ++ '[' :: (key ++ (us ++ ']' :: value))) ++ rest
        = ws ++ ("map".toList ++ (vs ++ '[' :: (key ++ (us ++ ']' :: (value ++ rest))))) := by
      simp
    rw [htext, isIdentifier_map.expression_eq hws hopening.endsWord, if_pos rfl,
      afterMap_of_opening (hvs.dropBlank_append_cons (by decide) _) (ihkey hlength.1 hclosing),
      afterKey_of_closing (hus.dropBlank_append_cons (by decide) _), ihvalue hlength.2 hrest]
    rfl
  | @emptyInterface ws vs us hws hvs hus =>
    obtain ⟨n, rfl⟩ : ∃ m, n = m + 1 := ⟨n - 1, by omega⟩
    have hopening : EndsName (vs ++ '\x7b' :: (us ++ '\x7d' :: rest)) :=
      hvs.endsName_append (endsName_cons (by decide) (by decide) _)
    have htext : ws ++ "interface".toList ++ (vs ++ '\x7b' :: (us ++ ['\x7d'])) ++ rest
        = ws ++ ("interface".toList ++ (vs ++ '\x7b' :: (us ++ '\x7d' :: rest))) := by
      simp
    rw [htext, isIdentifier_interface.expression_eq hws hopening.endsWord, if_neg (by decide),
      if_pos rfl]
    exact afterInterface_of_braces (hvs.dropBlank_append_cons (by decide) _)
      (hus.dropBlank_append_cons (by decide) _)

/-- **What spells an expression is read as it**, dots in front of the outermost one included. -/
theorem SpellsOuter.expression_eq {text : List Char} {outermost : Bool}
    (h : SpellsOuter outermost e text) {n : Nat} (hn : text.length < n) (hrest : EndsName rest) :
    expression n outermost (text ++ rest) = .ok (e, rest) := by
  cases h with
  | plain h => exact h.expression_eq hn hrest
  -- the dots are read here, the element one level below
  | variadic houter hws helem =>
    obtain ⟨n, rfl⟩ : ∃ m, n = m + 1 := ⟨n - 1, by omega⟩
    rw [List.append_assoc, List.cons_append, List.cons_append, List.cons_append,
      expression_of_dots (hws.dropBlank_append_cons (by decide) _)]
    unfold afterDots
    rw [if_pos houter, helem.expression_eq (by simp at hn; omega) hrest]
    rfl

/-! ## §4. What is read is spelled. -/

/-- What was wrapped was read. -/
theorem exists_of_map_wrap {f : TypeExpr → TypeExpr} {r : Reading}
    (h : r.map (wrap f) = .ok (e, rest)) : ∃ e', r = .ok (e', rest) ∧ e = f e' := by
  cases r with
  | error failure => cases h
  | ok r =>
    obtain ⟨e', rest'⟩ := r
    obtain ⟨rfl, rfl⟩ := Prod.mk.inj (Except.ok.inj h)
    exact ⟨e', rfl, rfl⟩

/-- A token that is found stands behind blanks. -/
theorem exists_of_dropBlank (h : dropBlank cs = c :: rest) :
    ∃ ws, Blanks ws ∧ cs = ws ++ c :: rest := by
  obtain ⟨ws, hws, hcs⟩ := exists_blanks cs
  exact ⟨ws, hws, h ▸ hcs⟩

/-- What a reader reads is spelled by the text it consumes. -/
def Sound (inner : List Char → Reading) : Prop :=
  ∀ cs e rest, inner cs = .ok (e, rest) → ∃ text, cs = text ++ rest ∧ Spells e text

variable {inner : List Char → Reading}

/-- What is read behind a bracket spells a slice. -/
theorem spells_of_afterBracket (hinner : Sound inner) (hws : Blanks ws)
    (h : afterBracket inner cs = .ok (e, rest)) :
    ∃ text, ws ++ '[' :: cs = text ++ rest ∧ Spells e text := by
  unfold afterBracket at h
  split at h
  · rename_i hclosing
    obtain ⟨vs, hvs, rfl⟩ := exists_of_dropBlank hclosing
    obtain ⟨e', hread, rfl⟩ := exists_of_map_wrap h
    obtain ⟨text, rfl, htext⟩ := hinner _ _ _ hread
    exact ⟨_, by simp, .slice hws hvs htext⟩
  · cases h

/-- What is read behind the word `map` spells a map. -/
theorem spells_of_afterMap (hinner : Sound inner) (hws : Blanks ws)
    (h : afterMap inner cs = .ok (e, rest)) :
    ∃ text, ws ++ "map".toList ++ cs = text ++ rest ∧ Spells e text := by
  unfold afterMap at h
  split at h
  · rename_i hopening
    obtain ⟨vs, hvs, rfl⟩ := exists_of_dropBlank hopening
    split at h
    · cases h
    · rename_i key rest' hkey
      obtain ⟨text, rfl, htext⟩ := hinner _ _ _ hkey
      unfold afterKey at h
      split at h
      · rename_i hclosing
        obtain ⟨us, hus, rfl⟩ := exists_of_dropBlank hclosing
        obtain ⟨e', hread, rfl⟩ := exists_of_map_wrap h
        obtain ⟨text', rfl, htext'⟩ := hinner _ _ _ hread
        -- blanks, key, blanks and value, just as the rule for maps has them
        exact ⟨_, by simp, .map hws hvs htext hus htext'⟩
      · cases h
  · cases h

/-- What is read behind the word `interface` spells the empty interface. -/
theorem spells_of_afterInterface (hws : Blanks ws) (h : afterInterface cs = .ok (e, rest)) :
    ∃ text, ws ++ "interface".toList ++ cs = text ++ rest ∧ Spells e text := by
  unfold afterInterface at h
  split at h
  · rename_i hopening
    obtain ⟨vs, hvs, rfl⟩ := exists_of_dropBlank hopening
    unfold afterBrace at h
    split at h
    · rename_i hclosing
      obtain ⟨us, hus, rfl⟩ := exists_of_dropBlank hclosing
      obtain ⟨rfl, rfl⟩ := Prod.mk.inj (Except.ok.inj h)
      exact ⟨_, by simp, .emptyInterface hws hvs hus⟩
    · cases h
  · cases h

/-- What is read behind a name spells a name. -/
theorem spells_of_afterName (hws : Blanks ws) (hname : IsOpening name)
    (h : afterName name cs = .ok (e, rest)) :
    ∃ text, ws ++ name.toList ++ cs = text ++ rest ∧ Spells e text := by
  unfold afterName at h
  -- a dot right behind the word, or an unqualified name
  split at h
  · split at h
    · cases h
    · rename_i second rest' hsecond
      obtain ⟨vs, hvs, hident, rfl, _⟩ := exists_of_identifier hsecond
      obtain ⟨rfl, rfl⟩ := Prod.mk.inj (Except.ok.inj h)
      exact ⟨_, by simp, .qualified hws hname hvs hident⟩
  · obtain ⟨rfl, rfl⟩ := Prod.mk.inj (Except.ok.inj h)
    exact ⟨_, rfl, .unqualified hws hname⟩

/-- What is read from a word on spells a map, the empty interface or a name. -/
theorem spells_of_afterWord (hinner : Sound inner) (hws : Blanks ws)
    (h : afterWord inner cs = .ok (e, rest)) :
    ∃ text, ws ++ cs = text ++ rest ∧ Spells e text := by
  unfold afterWord at h
  split at h
  · cases h
  · rename_i word rest' hword
    obtain ⟨vs, hvs, hident, rfl, _⟩ := exists_of_identifier hword
    -- the blanks in front of the word belong to the expression
    have hboth : Blanks (ws ++ vs) := by
      intro c hc
      rcases List.mem_append.1 hc with hc | hc
      · exact hws c hc
      · exact hvs c hc
    rw [← List.append_assoc, ← List.append_assoc]
    split at h
    · rename_i hmap
      subst hmap
      exact spells_of_afterMap hinner hboth h
    · rename_i hmap
      split at h
      · rename_i hinterface
        subst hinterface
        exact spells_of_afterInterface hboth h
      · -- a word that is no keyword is a name
        rename_i hinterface
        refine spells_of_afterName hboth ⟨hident, ?_⟩ h
        simp [isKeyword, hmap, hinterface]

/-- **What is read is spelled by the text that is consumed.**  By induction on the budget. -/
theorem spells_of_expression {n : Nat} {outermost : Bool}
    (h : expression n outermost cs = .ok (e, rest)) :
    ∃ text, cs = text ++ rest ∧ SpellsOuter outermost e text := by
  induction n generalizing outermost cs e rest with
  | zero => cases h
  | succ n ih =>
    -- inside an expression no dots are read, so no spelling is variadic
    have hinner : Sound (expression n false) := by
      intro cs e rest h
      obtain ⟨text, hcs, htext⟩ := ih h
      cases htext with
      | plain htext => exact ⟨text, hcs, htext⟩
      | variadic houter => cases houter
    obtain ⟨ws, hws, hcs⟩ := exists_blanks cs
    unfold expression at h
    split at h
    · rename_i hdots
      rw [hdots] at hcs
      unfold afterDots at h
      split at h
      · rename_i houter
        obtain ⟨e', hread, rfl⟩ := exists_of_map_wrap h
        obtain ⟨text, rfl, htext⟩ := hinner _ _ _ hread
        exact ⟨_, by simp [hcs], .variadic houter hws htext⟩
      · cases h
    · rename_i hstar
      rw [hstar] at hcs
      obtain ⟨e', hread, rfl⟩ := exists_of_map_wrap h
      obtain ⟨text, rfl, htext⟩ := hinner _ _ _ hread
      exact ⟨_, by simp [hcs], .plain (.pointer hws htext)⟩
    · rename_i hbracket
      rw [hbracket] at hcs
      obtain ⟨text, heq, htext⟩ := spells_of_afterBracket hinner hws h
      exact ⟨text, hcs.trans heq, .plain htext⟩
    · obtain ⟨text, heq, htext⟩ := spells_of_afterWord hinner hws h
      exact ⟨text, hcs.trans heq, .plain htext⟩

/-! ## §5. Whole texts. -/

/-- **A text is read to an expression exactly if it spells it.** -/
theorem readWhole_eq_ok_iff : readWhole cs = .ok e ↔ SpellsWhole e cs := by
  constructor
  · intro h
    unfold readWhole at h
    split at h
    · cases h
    · rename_i rest hread
      split at h
      · rename_i hend
        obtain rfl := Except.ok.inj h
        obtain ⟨text, rfl, htext⟩ := spells_of_expression hread
        obtain ⟨ws, hws, hrest⟩ := exists_blanks rest
        rw [hend, List.append_nil] at hrest
        exact .intro htext (hrest ▸ hws)
      · cases h
  · intro h
    obtain ⟨htext, hws⟩ := h
    rename_i text ws
    -- behind the expression there are blanks only
    have hrest : EndsName ws := by
      have hend := hws.endsName_append endsName_nil
      rwa [List.append_nil] at hend
    have hread : expression ((text ++ ws).length + 1) true (text ++ ws) = .ok (e, ws) :=
      htext.expression_eq (by rw [List.length_append]; omega) hrest
    unfold readWhole
    rw [hread]
    dsimp only
    rw [hws.dropBlank_eq_nil]

/-- **A text is parsed to the expression that it spells.** -/
theorem parse_eq_ok_iff {s : String} : parse s = .ok e ↔ SpellsWhole e s.toList := by
  rw [← readWhole_eq_ok_iff]
  unfold parse
  split
  · rename_i e' hread
    rw [hread]
    constructor
    · intro h
      rw [Except.ok.inj h]
    · intro h
      rw [Except.ok.inj h]
  · rename_i fault rest hread
    rw [hread]
    exact iff_of_false (fun h => by cases h) (fun h => by cases h)

end RpcSchema.TypeExpr
