/-
  RpcSchema.Proofs.TypeExpr.Cursor
  ────────────────────────────────
  **READING BY BYTE POSITIONS TEARS NO CHARACTER.**

  The reader keeps the rest of its text.  The same algorithm over a cursor
  keeps a byte position instead, and takes slices of the source at it; a
  slice that does not start or end between two characters is a failure of
  its own, `Halt.torn`.  Every position the cursor takes is what a rest
  lacks of the source (`posOf`), so the two readers agree step by step and
  no slice is torn (`cursorParse_eq`).

  A level of either reader consumes a character, so no budget above the
  length of the text is felt (`expression_budget`).

  Main statement: `type_text_exact`.
-/
import RpcSchema.Proofs.TypeExpr.Grammar

namespace RpcSchema.TypeExpr

open Text (dropBlank isBlank isWordChar isAsciiDigit)

/-! ## §1. Slices. -/

/-- The text from a byte position on, if a character starts there or the text ends. -/
def sliceFrom : List Char → Nat → Option (List Char)
  | cs, 0 => some cs
  | [], _ + 1 => none
  | c :: cs, pos + 1 => if c.utf8Size ≤ pos + 1 then sliceFrom cs (pos + 1 - c.utf8Size) else none

/-- The text up to a byte position, under the same condition. -/
def sliceTo : List Char → Nat → Option (List Char)
  | _, 0 => some []
  | [], _ + 1 => none
  | c :: cs, pos + 1 =>
    if c.utf8Size ≤ pos + 1 then (sliceTo cs (pos + 1 - c.utf8Size)).map (c :: ·) else none

variable {src cs rest front word : List Char} {c : Char} {e : TypeExpr} {name : String}
variable {n m : Nat} {outermost : Bool}

/-- The slice from a character boundary on. -/
theorem sliceFrom_append (front rest : List Char) :
    sliceFrom (front ++ rest) (byteCount front) = some rest := by
  induction front with
  | nil =>
    unfold byteCount
    cases rest <;> rfl
  | cons c front ih =>
    have hpos := c.utf8Size_pos
    -- a character has at least one byte, so the position is a successor
    obtain ⟨pos, hsize⟩ : ∃ pos, c.utf8Size + byteCount front = pos + 1 :=
      ⟨c.utf8Size + byteCount front - 1, by omega⟩
    show sliceFrom (c :: (front ++ rest)) (c.utf8Size + byteCount front) = some rest
    rw [hsize, sliceFrom, if_pos (by omega), show pos + 1 - c.utf8Size = byteCount front by omega, ih]

/-- The slice up to a character boundary. -/
theorem sliceTo_append (front rest : List Char) :
    sliceTo (front ++ rest) (byteCount front) = some front := by
  induction front with
  | nil =>
    unfold byteCount
    cases rest <;> rfl
  | cons c front ih =>
    have hpos := c.utf8Size_pos
    obtain ⟨pos, hsize⟩ : ∃ pos, c.utf8Size + byteCount front = pos + 1 :=
      ⟨c.utf8Size + byteCount front - 1, by omega⟩
    show sliceTo (c :: (front ++ rest)) (c.utf8Size + byteCount front) = some (c :: front)
    rw [hsize, sliceTo, if_pos (by omega), show pos + 1 - c.utf8Size = byteCount front by omega, ih]
    rfl

/-! ## §2. The cursor. -/

/-- What stops the cursor: a fault of the text at a position, or a slice across a character. -/
inductive Halt where
  | fault (fault : Fault) (pos : Nat)
  | torn (pos : Nat)
  deriving DecidableEq

/-- What is left of the source at a position. -/
def restAt (src : List Char) (pos : Nat) : Except Halt (List Char) :=
  match sliceFrom src pos with
  | some cs => .ok cs
  | none => .error (.torn pos)

/-- Moves over the blanks. -/
def skipBlank (src : List Char) (pos : Nat) : Except Halt Nat := do
  let cs ← restAt src pos
  return byteCount src - byteCount (dropBlank cs)

/-- Moves over the blanks, and over a token if it is what follows. -/
def eat (src token : List Char) (pos : Nat) : Except Halt (Bool × Nat) := do
  let pos ← skipBlank src pos
  let cs ← restAt src pos
  if token.isPrefixOf cs then return (true, pos + byteCount token) else return (false, pos)

/-- The bytes of the word characters that a text starts with. -/
def wordLength (cs : List Char) : Nat :=
  byteCount (cs.takeWhile isWordChar)

/-- Whether a text starts with a digit. -/
def startsWithDigit (cs : List Char) : Bool :=
  cs.head?.any isAsciiDigit

/-- Reads a name. -/
def cursorName (src : List Char) (pos : Nat) : Except Halt (String × Nat) := do
  let pos ← skipBlank src pos
  let cs ← restAt src pos
  let length := wordLength cs
  if length = 0 || startsWithDigit cs then throw (.fault .expectedName pos)
  match sliceTo cs length with
  | some word => return (String.ofList word, pos + length)
  | none => throw (.torn (pos + length))

/-- Goes on behind a token if it is what follows, and otherwise in another way. -/
def ifEaten {α : Type} (src token : List Char) (yes no : Nat → Except Halt α) (pos : Nat) :
    Except Halt α := do
  let (found, pos) ← eat src token pos
  if found then yes pos else no pos

/-- Moves over a token that has to follow. -/
def expect (src token : List Char) (fault : Fault) : Nat → Except Halt Nat :=
  ifEaten src token .ok fun pos => .error (.fault fault pos)

/-- Wraps what is read. -/
def wrapped (f : TypeExpr → TypeExpr) (r : Except Halt (TypeExpr × Nat)) :
    Except Halt (TypeExpr × Nat) := do
  let (e, pos) ← r
  return (f e, pos)

/-- Reads what follows an opening bracket. -/
def cursorBracket (src : List Char) (inner : Nat → Except Halt (TypeExpr × Nat)) (pos : Nat) :
    Except Halt (TypeExpr × Nat) := do
  let pos ← expect src [']'] .fixedSizeArray pos
  wrapped .slice (inner pos)

/-- Reads what follows the word `map`. -/
def cursorMap (src : List Char) (inner : Nat → Except Halt (TypeExpr × Nat)) (pos : Nat) :
    Except Halt (TypeExpr × Nat) := do
  let pos ← expect src ['['] .expectedKeyOpening pos
  let (key, pos) ← inner pos
  let pos ← expect src [']'] .expectedKeyClosing pos
  wrapped (.map key) (inner pos)

/-- Reads what follows the word `interface`. -/
def cursorInterface (src : List Char) (pos : Nat) : Except Halt (TypeExpr × Nat) := do
  let pos ← expect src ['\x7b'] .inlineInterface pos
  let pos ← expect src ['\x7d'] .inlineInterface pos
  return (.emptyInterface, pos)

/-- Reads what follows a name. -/
def cursorQualified (src : List Char) (word : String) (pos : Nat) :
    Except Halt (TypeExpr × Nat) := do
  let cs ← restAt src pos
  if cs.head? = some '.' then
    let (name, pos) ← cursorName src (pos + 1)
    return (.qualified word name, pos)
  else return (.unqualified word, pos)

/-- Reads an expression that starts with a word. -/
def cursorWord (src : List Char) (inner : Nat → Except Halt (TypeExpr × Nat)) (pos : Nat) :
    Except Halt (TypeExpr × Nat) := do
  let (word, pos) ← cursorName src pos
  if word = "map" then cursorMap src inner pos
  else if word = "interface" then cursorInterface src pos
  else cursorQualified src word pos

/-- Reads what follows the three dots. -/
def cursorDots (inner : Nat → Except Halt (TypeExpr × Nat)) (outermost : Bool) (pos : Nat) :
    Except Halt (TypeExpr × Nat) :=
  if outermost then wrapped .variadic (inner pos) else .error (.fault .nestedVariadic pos)

/-- Reads an expression: what it starts with decides. -/
def cursorExpression (src : List Char) : Nat → Bool → Nat → Except Halt (TypeExpr × Nat)
  | 0, _ => fun pos => .error (.fault .expectedName pos)
  | n + 1, outermost =>
    let inner := cursorExpression src n false
    ifEaten src ['.', '.', '.'] (cursorDots inner outermost) <|
      ifEaten src ['*'] (fun pos => wrapped .pointer (inner pos)) <|
        ifEaten src ['['] (cursorBracket src inner) (cursorWord src inner)

/-- Reads a whole text within a budget of levels. -/
def cursorParse (budget : Nat) (s : String) : Except Halt TypeExpr := do
  let src := s.toList
  let (e, pos) ← cursorExpression src budget true 0
  let pos ← skipBlank src pos
  if pos < byteCount src then throw (.fault .trailingInput pos) else return e

/-! ## §3. The cursor stands where the rest begins. -/

theorem ok_bind {α β : Type} (a : α) (f : α → Except Halt β) : (Except.ok a >>= f) = f a := rfl

/-- The position of a rest in its source. -/
def posOf (src rest : List Char) : Nat :=
  byteCount src - byteCount rest

theorem posOf_append (front rest : List Char) : posOf (front ++ rest) rest = byteCount front := by
  unfold posOf
  rw [byteCount_append]
  omega

theorem posOf_self (src : List Char) : posOf src src = 0 := by
  unfold posOf
  omega

/-- Consuming a front moves the cursor by its bytes. -/
theorem posOf_add (h : front ++ rest <:+ src) :
    posOf src (front ++ rest) + byteCount front = posOf src rest := by
  obtain ⟨before, rfl⟩ := h
  rw [posOf_append, ← List.append_assoc, posOf_append, byteCount_append]

/-- **At the position of a rest there is the rest.** -/
theorem restAt_posOf (h : rest <:+ src) : restAt src (posOf src rest) = .ok rest := by
  obtain ⟨front, rfl⟩ := h
  unfold restAt
  rw [posOf_append, sliceFrom_append]

/-- Blanks are moved over as they are dropped. -/
theorem skipBlank_posOf (h : rest <:+ src) :
    skipBlank src (posOf src rest) = .ok (posOf src (dropBlank rest)) := by
  unfold skipBlank
  rw [restAt_posOf h]
  rfl

theorem dropBlank_suffix_of (h : rest <:+ src) : dropBlank rest <:+ src :=
  (Text.dropBlank_suffix rest).trans h

theorem dropBlank_dropBlank (cs : List Char) : dropBlank (dropBlank cs) = dropBlank cs := by
  cases h : dropBlank cs with
  | nil => rfl
  | cons c rest => exact Text.dropBlank_of_not_blank rest (Text.isBlank_head_dropBlank h)

/-- A token that follows is moved over. -/
theorem eat_of_token {token : List Char} (h : cs <:+ src) (htoken : dropBlank cs = token ++ rest) :
    eat src token (posOf src cs) = .ok (true, posOf src rest) := by
  have hrest : token ++ rest <:+ src := htoken ▸ dropBlank_suffix_of h
  unfold eat
  rw [skipBlank_posOf h, ok_bind, htoken, restAt_posOf hrest, ok_bind, posOf_add hrest,
    if_pos (List.isPrefixOf_iff_prefix.2 (List.prefix_append token rest))]
  rfl

/-- One that does not follow is left. -/
theorem eat_of_no_token {token : List Char} (h : cs <:+ src)
    (htoken : token.isPrefixOf (dropBlank cs) = false) :
    eat src token (posOf src cs) = .ok (false, posOf src (dropBlank cs)) := by
  unfold eat
  rw [skipBlank_posOf h, ok_bind, restAt_posOf (dropBlank_suffix_of h), ok_bind,
    if_neg (Bool.eq_false_iff.1 htoken)]
  rfl

/-! ## §4. Each step of the cursor is one of the reader. -/

/-- The answer of a reader, with positions for rests. -/
def located {α : Type} (src : List Char) : Except Failure (α × List Char) → Except Halt (α × Nat)
  | .ok r => .ok (r.1, posOf src r.2)
  | .error failure => .error (.fault failure.1 (posOf src failure.2))

theorem located_map_wrap (src : List Char) (f : TypeExpr → TypeExpr) (r : Reading) :
    located src (r.map (wrap f)) = wrapped f (located src r) := by
  cases r <;> rfl

/-- Behind a token that follows the first way is taken. -/
theorem ifEaten_of_token {α : Type} {token : List Char} (yes no : Nat → Except Halt α)
    (h : cs <:+ src) (htoken : dropBlank cs = token ++ rest) :
    ifEaten src token yes no (posOf src cs) = yes (posOf src rest) := by
  unfold ifEaten
  rw [eat_of_token h htoken]
  rfl

theorem ifEaten_of_no_token {α : Type} {token : List Char} (yes no : Nat → Except Halt α)
    (h : cs <:+ src) (htoken : ∀ rest, dropBlank cs ≠ token ++ rest) :
    ifEaten src token yes no (posOf src cs) = no (posOf src (dropBlank cs)) := by
  have hno : token.isPrefixOf (dropBlank cs) = false := by
    apply Bool.eq_false_iff.2
    intro hprefix
    obtain ⟨rest, hrest⟩ := List.isPrefixOf_iff_prefix.1 hprefix
    exact htoken rest hrest.symm
  unfold ifEaten
  rw [eat_of_no_token h hno]
  rfl

theorem expect_of_cons {fault : Fault} (h : cs <:+ src) (htoken : dropBlank cs = c :: rest) :
    expect src [c] fault (posOf src cs) = .ok (posOf src rest) :=
  ifEaten_of_token _ _ h htoken

theorem expect_of_ne {fault : Fault} (h : cs <:+ src) (htoken : ∀ rest, dropBlank cs ≠ c :: rest) :
    expect src [c] fault (posOf src cs) = .error (.fault fault (posOf src (dropBlank cs))) :=
  ifEaten_of_no_token _ _ h htoken

/-- Only the empty text has no bytes. -/
theorem byteCount_eq_zero_iff (cs : List Char) : byteCount cs = 0 ↔ cs = [] := by
  constructor
  · intro h
    cases cs with
    | nil => rfl
    | cons c cs =>
      have hpos := c.utf8Size_pos
      unfold byteCount at h
      omega
  · intro h
    rw [h]
    rfl

/-- The two tests of a name agree. -/
theorem isName_takeWhile (cs : List Char) :
    isName (cs.takeWhile isWordChar) = !(wordLength cs = 0 || startsWithDigit cs) := by
  unfold wordLength
  cases cs with
  | nil => rfl
  | cons c cs =>
    by_cases hc : isWordChar c = true
    · have hsize : byteCount (c :: cs.takeWhile isWordChar) ≠ 0 := by
        rw [Ne, byteCount_eq_zero_iff]
        exact List.cons_ne_nil _ _
      rw [List.takeWhile_cons_of_pos hc]
      show (!isAsciiDigit c) = _
      simp [hsize, startsWithDigit]
    · rw [List.takeWhile_cons_of_neg hc]
      rfl

/-- **The cursor reads names as the reader does.** -/
theorem cursorName_posOf (h : cs <:+ src) :
    cursorName src (posOf src cs) = located src (identifier cs) := by
  have hrest := dropBlank_suffix_of h
  unfold cursorName identifier
  rw [skipBlank_posOf h, ok_bind, restAt_posOf hrest, ok_bind]
  generalize dropBlank cs = cs at hrest
  have hsplit : cs.takeWhile isWordChar ++ cs.dropWhile isWordChar = cs :=
    List.takeWhile_append_dropWhile
  dsimp only
  rw [isName_takeWhile]
  by_cases hno : (decide (wordLength cs = 0) || startsWithDigit cs) = true
  · rw [if_pos hno, hno]
    rfl
  · -- the slice ends where the word ends, on a character boundary
    have hslice : sliceTo cs (wordLength cs) = some (cs.takeWhile isWordChar) := by
      have hto := sliceTo_append (cs.takeWhile isWordChar) (cs.dropWhile isWordChar)
      rwa [hsplit] at hto
    -- and the position moves on by the bytes of the word
    have hmove : posOf src cs + wordLength cs = posOf src (cs.dropWhile isWordChar) := by
      have hadd := posOf_add (hsplit.symm ▸ hrest)
      rwa [hsplit] at hadd
    rw [if_neg hno, Bool.eq_false_iff.2 hno, hslice, hmove]
    rfl

/-- A step of the cursor that does what a step of the reader does, at every rest of the source. -/
def Follows (src : List Char) (step : Nat → Except Halt (TypeExpr × Nat))
    (read : List Char → Reading) : Prop :=
  ∀ cs, cs <:+ src → step (posOf src cs) = located src (read cs)

variable {inner : List Char → Reading} {step : Nat → Except Halt (TypeExpr × Nat)}

theorem suffix_of_cons (h : c :: rest <:+ src) : rest <:+ src :=
  (List.suffix_cons c rest).trans h

/-- Behind an opening bracket the cursor follows the reader. -/
theorem follows_afterBracket (h : Follows src step inner) :
    Follows src (cursorBracket src step) (afterBracket inner) := by
  intro cs hcs
  unfold cursorBracket afterBracket
  split
  · rename_i rest hclosing
    have hrest : rest <:+ src := suffix_of_cons (hclosing ▸ dropBlank_suffix_of hcs)
    rw [expect_of_cons hcs hclosing, ok_bind, h rest hrest, located_map_wrap]
  · rename_i hno
    rw [expect_of_ne hcs hno]
    rfl

/-- Behind the word `map` the cursor follows the reader. -/
theorem follows_afterMap (h : Follows src step inner) (hend : LeavesEnd inner) :
    Follows src (cursorMap src step) (afterMap inner) := by
  intro cs hcs
  unfold cursorMap afterMap
  split
  · rename_i rest hopening
    have hrest : rest <:+ src := suffix_of_cons (hopening ▸ dropBlank_suffix_of hcs)
    rw [expect_of_cons hcs hopening, ok_bind, h rest hrest]
    -- the key, its closing bracket and the value, in this order
    cases hkey : inner rest with
    | error failure => rfl
    | ok r =>
      obtain ⟨key, rest'⟩ := r
      have hrest' : rest' <:+ src := by
        have hleft := hend rest
        rw [hkey] at hleft
        exact hleft.trans hrest
      show (expect src [']'] .expectedKeyClosing (posOf src rest') >>= fun pos =>
        wrapped (.map key) (step pos)) = located src (afterKey inner key rest')
      unfold afterKey
      split
      · rename_i rest'' hclosing
        have hrest'' : rest'' <:+ src := suffix_of_cons (hclosing ▸ dropBlank_suffix_of hrest')
        rw [expect_of_cons hrest' hclosing, ok_bind, h rest'' hrest'', located_map_wrap]
      · rename_i hno
        rw [expect_of_ne hrest' hno]
        rfl
  · rename_i hno
    rw [expect_of_ne hcs hno]
    rfl

/-- Behind the word `interface` the cursor follows the reader. -/
theorem follows_afterInterface : Follows src (cursorInterface src) afterInterface := by
  intro cs hcs
  unfold cursorInterface afterInterface
  split
  · rename_i rest hopening
    have hrest : rest <:+ src := suffix_of_cons (hopening ▸ dropBlank_suffix_of hcs)
    rw [expect_of_cons hcs hopening, ok_bind]
    unfold afterBrace
    split
    · rename_i rest' hclosing
      rw [expect_of_cons hrest hclosing]
      rfl
    · rename_i hno
      rw [expect_of_ne hrest hno]
      rfl
  · rename_i hno
    rw [expect_of_ne hcs hno]
    rfl

/-- Behind a name the cursor follows the reader. -/
theorem follows_afterName (word : String) : Follows src (cursorQualified src word) (afterName word) := by
  intro cs hcs
  unfold cursorQualified
  rw [restAt_posOf hcs, ok_bind]
  -- only a dot right behind the word qualifies it
  by_cases hdot : cs.head? = some '.'
  · obtain ⟨rest, rfl⟩ : ∃ rest, cs = '.' :: rest := List.head?_eq_some_iff.1 hdot
    have hmove : posOf src ('.' :: rest) + 1 = posOf src rest :=
      posOf_add (show ['.'] ++ rest <:+ src from hcs)
    rw [if_pos hdot, hmove, cursorName_posOf (suffix_of_cons hcs)]
    simp only [afterName]
    cases identifier rest <;> rfl
  · rw [if_neg hdot]
    unfold afterName
    split
    · exact absurd rfl hdot
    · rfl

/-- **And so it does from a word on.** -/
theorem follows_afterWord (h : Follows src step inner) (hend : LeavesEnd inner) :
    Follows src (cursorWord src step) (afterWord inner) := by
  intro cs hcs
  have hleft := identifier_suffix cs
  unfold cursorWord afterWord
  rw [cursorName_posOf hcs]
  cases hword : identifier cs with
  | error failure => rfl
  | ok r =>
    obtain ⟨word, rest⟩ := r
    rw [hword] at hleft
    have hrest : rest <:+ src := hleft.trans hcs
    show (if word = "map" then cursorMap src step (posOf src rest)
      else if word = "interface" then cursorInterface src (posOf src rest)
      else cursorQualified src word (posOf src rest)) = _
    dsimp only
    -- the two keywords come before any name
    split
    · exact follows_afterMap h hend rest hrest
    · split
      · exact follows_afterInterface rest hrest
      · exact follows_afterName word rest hrest

theorem follows_afterDots (h : Follows src step inner) (outermost : Bool) :
    Follows src (cursorDots step outermost) (afterDots inner outermost) := by
  intro cs hcs
  unfold cursorDots afterDots
  cases outermost with
  | false => rfl
  | true =>
    rw [if_pos rfl, if_pos rfl, h cs hcs, located_map_wrap]

/-- **Cursor and reader agree**, level by level. -/
theorem follows_expression (src : List Char) (n : Nat) (outermost : Bool) :
    Follows src (cursorExpression src n outermost) (expression n outermost) := by
  -- on the budget, for readers of any position in the text
  induction n generalizing outermost with
  | zero => exact fun cs _ => rfl
  | succ n ih =>
    have hinner := ih false
    have hend := expression_suffix n false
    intro cs hcs
    have hleft := dropBlank_suffix_of hcs
    -- the cursor skips blanks before each token it tries; once is enough
    have hsame := dropBlank_dropBlank cs
    rw [cursorExpression, expression]
    split
    · rename_i rest hdots
      rw [hdots] at hleft
      have hrest : rest <:+ src := (List.suffix_append ['.', '.', '.'] rest).trans hleft
      rw [ifEaten_of_token _ _ hcs hdots]
      exact follows_afterDots hinner outermost rest hrest
    · rename_i rest hstar
      have hrest : rest <:+ src := suffix_of_cons (hstar ▸ hleft)
      rw [ifEaten_of_no_token _ _ hcs (by simp [hstar]),
        ifEaten_of_token _ _ hleft (hsame.trans hstar), hinner rest hrest, located_map_wrap]
    · rename_i rest hbracket
      have hrest : rest <:+ src := suffix_of_cons (hbracket ▸ hleft)
      rw [ifEaten_of_no_token _ _ hcs (by simp [hbracket]),
        ifEaten_of_no_token _ _ hleft (by rw [hsame, hbracket]; simp), hsame,
        ifEaten_of_token _ _ hleft (hsame.trans hbracket)]
      exact follows_afterBracket hinner rest hrest
    · -- no token, so a word begins here
      rename_i hdots hstar hbracket
      rw [ifEaten_of_no_token _ _ hcs hdots,
        ifEaten_of_no_token _ _ hleft (hsame.symm ▸ hstar), hsame,
        ifEaten_of_no_token _ _ hleft (hsame.symm ▸ hbracket), hsame]
      exact follows_afterWord hinner hend _ hleft

/-! ## §5. No budget above the length is felt. -/

/-- Two readers that agree on the texts shorter than `k`. -/
def AgreeBelow (k : Nat) (inner inner' : List Char → Reading) : Prop :=
  ∀ rest, rest.length < k → inner rest = inner' rest

theorem length_lt_of_dropBlank (h : dropBlank cs = c :: rest) : rest.length < cs.length := by
  have hle := Text.length_dropBlank_le cs
  rw [h, List.length_cons] at hle
  omega

section Budget

variable {inner' : List Char → Reading} {k : Nat}

/-- Readers that agree on what is left do so behind a bracket. -/
theorem AgreeBelow.afterBracket_eq (h : AgreeBelow k inner inner') (hcs : cs.length ≤ k) :
    afterBracket inner cs = afterBracket inner' cs := by
  unfold afterBracket
  split
  · rename_i rest hclosing
    have hlt := length_lt_of_dropBlank hclosing
    rw [h rest (by omega)]
  · rfl

/-- Readers that agree on what is left do so behind a key. -/
theorem AgreeBelow.afterKey_eq (h : AgreeBelow k inner inner') (key : TypeExpr)
    (hcs : cs.length ≤ k) : afterKey inner key cs = afterKey inner' key cs := by
  unfold afterKey
  split
  · rename_i rest hclosing
    have hlt := length_lt_of_dropBlank hclosing
    rw [h rest (by omega)]
  · rfl

/-- Readers that agree on what is left do so behind the word `map`. -/
theorem AgreeBelow.afterMap_eq (h : AgreeBelow k inner inner') (hend : LeavesEnd inner)
    (hcs : cs.length ≤ k) : afterMap inner cs = afterMap inner' cs := by
  unfold afterMap
  split
  · rename_i rest hopening
    -- the opening bracket is gone, so less is left than the bound
    have hlt := length_lt_of_dropBlank hopening
    rw [← h rest (by omega)]
    cases hkey : inner rest with
    | error failure => rfl
    | ok r =>
      have hleft := hend rest
      rw [hkey] at hleft
      have hle : r.2.length ≤ rest.length := hleft.length_le
      exact h.afterKey_eq r.1 (by omega)
  · rfl

theorem AgreeBelow.afterWord_eq (h : AgreeBelow k inner inner') (hend : LeavesEnd inner)
    (hcs : cs.length ≤ k) : afterWord inner cs = afterWord inner' cs := by
  have hleft := identifier_suffix cs
  unfold afterWord
  cases hword : identifier cs with
  | error failure => rfl
  | ok r =>
    rw [hword] at hleft
    -- behind the word there is no more text than before
    have hle : r.2.length ≤ cs.length := hleft.length_le
    dsimp only
    rw [h.afterMap_eq hend (by omega)]

end Budget

/-- **No budget above the length is felt**: every level consumes a character. -/
theorem expression_budget (hn : cs.length < n) (hm : cs.length < m) :
    expression n outermost cs = expression m outermost cs := by
  -- on the first budget: every token shortens what is left
  induction n generalizing m cs outermost with
  | zero => omega
  | succ n ih =>
    obtain ⟨m, rfl⟩ : ∃ m', m = m' + 1 := ⟨m - 1, by omega⟩
    have hagree : AgreeBelow cs.length (expression n false) (expression m false) := by
      intro rest hrest
      exact ih (by omega) (by omega)
    have hend := expression_suffix n false
    have hle := Text.length_dropBlank_le cs
    rw [expression, expression]
    split
    · rename_i rest hdots
      rw [hdots] at hle
      have hlt : rest.length < cs.length := by
        simp only [List.length_cons] at hle
        omega
      unfold afterDots
      rw [hagree rest hlt]
    · rename_i rest hstar
      rw [hagree rest (length_lt_of_dropBlank hstar)]
    · rename_i rest hbracket
      exact hagree.afterBracket_eq (by have := length_lt_of_dropBlank hbracket; omega)
    · exact hagree.afterWord_eq hend hle

/-! ## §6. Whole texts. -/

/-- The answer on a whole text, as the cursor gives it. -/
def answered : Except (Fault × Nat) TypeExpr → Except Halt TypeExpr
  | .ok e => .ok e
  | .error (fault, offset) => .error (.fault fault offset)

/-- A fault is found at a rest of the source. -/
theorem readWhole_suffix {fault : Fault} (h : readWhole cs = .error (fault, rest)) :
    rest <:+ cs := by
  have hleft := expression_suffix (cs.length + 1) true cs
  unfold readWhole at h
  split at h
  · -- a failure inside the expression, or text left behind it
    rename_i failure hread
    rw [hread] at hleft
    rw [Except.error.inj h] at hleft
    exact hleft
  · rename_i e left hread
    rw [hread] at hleft
    split at h
    · cases h
    · obtain ⟨-, rfl⟩ := Prod.mk.inj (Except.error.inj h)
      exact dropBlank_suffix_of hleft

theorem posOf_nil (src : List Char) : posOf src [] = byteCount src := rfl

/-- Before a character the cursor is not at the end. -/
theorem posOf_cons_lt (h : c :: rest <:+ src) : posOf src (c :: rest) < byteCount src := by
  obtain ⟨front, rfl⟩ := h
  have hpos := c.utf8Size_pos
  rw [posOf_append, byteCount_append]
  show byteCount front < byteCount front + (c.utf8Size + byteCount rest)
  omega

/-- **The cursor reads what the reader reads**, and is never torn. -/
theorem cursorParse_eq {s : String} (hn : s.toList.length < n) :
    cursorParse n s = answered (parse s) := by
  have hread := follows_expression s.toList n true s.toList (List.suffix_refl _)
  have hleft := expression_suffix n true s.toList
  rw [posOf_self] at hread
  unfold cursorParse parse readWhole
  dsimp only
  rw [hread, ← expression_budget hn (Nat.lt_succ_self s.toList.length)]
  cases hr : expression n true s.toList with
  | error failure => rfl
  | ok r =>
    obtain ⟨e, rest⟩ := r
    rw [hr] at hleft
    have hrest : rest <:+ s.toList := hleft
    have hend := dropBlank_suffix_of hrest
    show (do
      let pos ← skipBlank s.toList (posOf s.toList rest)
      if pos < byteCount s.toList then throw (Halt.fault .trailingInput pos) else return e) = _
    rw [skipBlank_posOf hrest, ok_bind]
    dsimp only
    -- at the end of the text, or before something that is no blank
    cases hd : dropBlank rest with
    | nil =>
      rw [posOf_nil, if_neg (lt_irrefl _)]
      rfl
    | cons c rest =>
      rw [hd] at hend
      rw [if_pos (posOf_cons_lt hend)]
      rfl

/-- The bytes counted are those of the text. -/
theorem byteCount_eq_utf8ByteSize (cs : List Char) :
    byteCount cs = (String.ofList cs).utf8ByteSize := by
  induction cs with
  | nil => rfl
  | cons c cs ih =>
    have hcons : String.ofList (c :: cs) = String.singleton c ++ String.ofList cs := by
      rw [String.singleton_eq_ofList, ← String.ofList_append]
      rfl
    rw [hcons, String.utf8ByteSize_append, String.utf8ByteSize_singleton, ← ih]
    rfl

/-- A fault is met between two characters of the text. -/
theorem exists_split_of_fault {s : String} {fault : Fault} {offset : Nat}
    (h : parse s = .error (fault, offset)) :
    ∃ front rest : String, s = front ++ rest ∧ offset = front.utf8ByteSize := by
  unfold parse at h
  split at h
  · cases h
  · rename_i fault' rest hread
    obtain ⟨-, rfl⟩ := Prod.mk.inj (Except.error.inj h)
    -- the rest at the fault is an end of the text
    obtain ⟨front, hfront⟩ := readWhole_suffix hread
    refine ⟨String.ofList front, String.ofList rest, ?_, ?_⟩
    · rw [← String.ofList_append, hfront, String.ofList_toList]
    · rw [← hfront, ← byteCount_eq_utf8ByteSize]
      exact posOf_append front rest

/-- **TYPE EXPRESSIONS ARE READ EXACTLY AS THE GRAMMAR SPELLS THEM.**  A text is read to an
expression if and only if it spells it, and it spells one at most.  A fault is placed at a
boundary between characters of the text, the end at most.  And the cursor, which takes slices of
the text by byte positions, comes to the same on every text: no slice of it tears a character. -/
theorem type_text_exact (s : String) :
    (∀ e, parse s = .ok e ↔ SpellsWhole e s.toList) ∧
    (∀ e e', SpellsWhole e s.toList → SpellsWhole e' s.toList → e = e') ∧
    (∀ fault offset, parse s = .error (fault, offset) →
      offset ≤ s.utf8ByteSize ∧ String.Pos.Raw.IsValid s ⟨offset⟩) ∧
    ∀ budget, s.toList.length < budget → cursorParse budget s = answered (parse s) := by
  refine ⟨fun e => parse_eq_ok_iff, ?_, ?_, fun budget hn => cursorParse_eq hn⟩
  · -- both are what the one reader gives
    intro e e' he he'
    have hread := parse_eq_ok_iff.2 he
    rw [parse_eq_ok_iff.2 he'] at hread
    exact (Except.ok.inj hread).symm
  · -- the fault stands before a rest of the text, so at a boundary
    intro fault offset h
    obtain ⟨front, rest, rfl, rfl⟩ := exists_split_of_fault h
    constructor
    · rw [String.utf8ByteSize_append]
      omega
    · exact String.Pos.Raw.isValid_iff_exists_append.2 ⟨front, rest, rfl, rfl⟩

end RpcSchema.TypeExpr
