/-
  RpcSchema.TypeExpr.Reader
  ─────────────────────────
  **Reading a type expression.**

  Each reader takes the text from where it stands and returns what it read
  with the text after it, or a fault with the text from where the fault is
  met.  Positions are such rests: the byte offset of a fault is what the
  rest lacks of the whole, so it always lies between two characters.

  `expression` takes a budget of one level per character and one more;
  every level consumes a character.

  Main statement: `expression_suffix` — whatever is returned, its rest is
  an end piece of the text.
-/
import RpcSchema.Text.Blank
import RpcSchema.Text.Letter
import RpcSchema.TypeExpr.Basic

namespace RpcSchema.TypeExpr

open Text (dropBlank isWordChar isAsciiDigit)

/-! ## §1. Names. -/

/-- A fault with the text from where it is met. -/
abbrev Failure := Fault × List Char

/-- Words that open an expression of their own and name no type. -/
def isKeyword (word : String) : Bool :=
  word = "map" || word = "interface"

/-- A word is a name unless it is empty or starts with a digit. -/
def isName : List Char → Bool
  | [] => false
  | c :: _ => !isAsciiDigit c

/-- Reads a name: the longest run of word characters after the blanks. -/
def identifier (cs : List Char) : Except Failure (String × List Char) :=
  let cs := dropBlank cs
  let word := cs.takeWhile isWordChar
  if isName word then .ok (String.ofList word, cs.dropWhile isWordChar)
  else .error (.expectedName, cs)

/-! ## §2. Expressions. -/

/-- What reading an expression comes to. -/
abbrev Reading := Except Failure (TypeExpr × List Char)

/-- Wraps what was read. -/
def wrap (f : TypeExpr → TypeExpr) (r : TypeExpr × List Char) : TypeExpr × List Char :=
  (f r.1, r.2)

/-- Reads what follows an opening bracket. -/
def afterBracket (inner : List Char → Reading) (cs : List Char) : Reading :=
  match dropBlank cs with
  | ']' :: rest => (inner rest).map (wrap .slice)
  | rest => .error (.fixedSizeArray, rest)

/-- Reads what follows the key of a map. -/
def afterKey (inner : List Char → Reading) (key : TypeExpr) (cs : List Char) : Reading :=
  match dropBlank cs with
  | ']' :: rest => (inner rest).map (wrap (.map key))
  | rest => .error (.expectedKeyClosing, rest)

/-- Reads what follows the word `map`. -/
def afterMap (inner : List Char → Reading) (cs : List Char) : Reading :=
  match dropBlank cs with
  | '[' :: rest =>
    match inner rest with
    | .error failure => .error failure
    | .ok (key, rest) => afterKey inner key rest
  | rest => .error (.expectedKeyOpening, rest)

/-- Reads the closing brace of an interface without methods. -/
def afterBrace (cs : List Char) : Reading :=
  match dropBlank cs with
  | '\x7d' :: rest => .ok (.emptyInterface, rest)
  | rest => .error (.inlineInterface, rest)

/-- Reads what follows the word `interface`. -/
def afterInterface (cs : List Char) : Reading :=
  match dropBlank cs with
  | '\x7b' :: rest => afterBrace rest
  | rest => .error (.inlineInterface, rest)

/-- Reads what follows a name; a dot has to stand right behind it. -/
def afterName (word : String) : List Char → Reading
  | '.' :: rest =>
    match identifier rest with
    | .error failure => .error failure
    | .ok (name, rest) => .ok (.qualified word name, rest)
  | rest => .ok (.unqualified word, rest)

/-- Reads an expression that starts with a word. -/
def afterWord (inner : List Char → Reading) (cs : List Char) : Reading :=
  match identifier cs with
  | .error failure => .error failure
  | .ok (word, rest) =>
    if word = "map" then afterMap inner rest
    else if word = "interface" then afterInterface rest
    else afterName word rest

/-- Reads what follows the three dots; only an outermost expression may start with them. -/
def afterDots (inner : List Char → Reading) (outermost : Bool) (cs : List Char) : Reading :=
  if outermost then (inner cs).map (wrap .variadic) else .error (.nestedVariadic, cs)

/-- Reads an expression; only the outermost one may be variadic. -/
def expression : Nat → Bool → List Char → Reading
  | 0, _, cs => .error (.expectedName, cs)
  | n + 1, outermost, cs =>
    match dropBlank cs with
    | '.' :: '.' :: '.' :: rest => afterDots (expression n false) outermost rest
    | '*' :: rest => (expression n false rest).map (wrap .pointer)
    | '[' :: rest => afterBracket (expression n false) rest
    | cs => afterWord (expression n false) cs

/-- Reads a whole text: an expression, and nothing but blanks after it. -/
def readWhole (cs : List Char) : Except Failure TypeExpr :=
  match expression (cs.length + 1) true cs with
  | .error failure => .error failure
  | .ok (e, rest) =>
    match dropBlank rest with
    | [] => .ok e
    | rest => .error (.trailingInput, rest)

/-- The number of bytes a text takes. -/
def byteCount : List Char → Nat
  | [] => 0
  | c :: cs => c.utf8Size + byteCount cs

/-- Reads a type expression; a fault comes with its byte offset. -/
def parse (s : String) : Except (Fault × Nat) TypeExpr :=
  match readWhole s.toList with
  | .ok e => .ok e
  | .error (fault, rest) => .error (fault, byteCount s.toList - byteCount rest)

/-! ## §3. Rests are end pieces. -/

/-- The bytes of a text add up. -/
@[simp] theorem byteCount_append (as bs : List Char) :
    byteCount (as ++ bs) = byteCount as + byteCount bs := by
  induction as with
  | nil => simp [byteCount]
  | cons a as ih => simp [byteCount, ih, Nat.add_assoc]

/-- The rest of an answer, read or failed. -/
def restOf {α : Type} : Except Failure (α × List Char) → List Char
  | .ok r => r.2
  | .error failure => failure.2

/-- What is made of an expression does not move the reader. -/
@[simp] theorem restOf_map_wrap (f : TypeExpr → TypeExpr) (r : Reading) :
    restOf (r.map (wrap f)) = restOf r := by
  cases r <;> rfl

/-- A reader whose rests are end pieces of its texts. -/
def LeavesEnd (inner : List Char → Reading) : Prop :=
  ∀ cs, restOf (inner cs) <:+ cs

/-- Behind a character that comes after blanks there is an end of the text. -/
theorem suffix_of_dropBlank_eq {cs rest : List Char} {c : Char} (h : dropBlank cs = c :: rest) :
    rest <:+ cs :=
  ((List.suffix_cons c rest).trans (h ▸ List.suffix_refl _)).trans (Text.dropBlank_suffix cs)

/-- An identifier is read from the front. -/
theorem identifier_suffix (cs : List Char) : restOf (identifier cs) <:+ cs := by
  unfold identifier
  simp only
  split
  · exact (List.dropWhile_suffix _).trans (Text.dropBlank_suffix cs)
  · exact Text.dropBlank_suffix cs

/-- A list is read from the front, if its element is. -/
theorem afterBracket_suffix {inner : List Char → Reading} (h : LeavesEnd inner) :
    LeavesEnd (afterBracket inner) := by
  intro cs
  unfold afterBracket
  split
  · rename_i rest hd
    rw [restOf_map_wrap]
    exact (h rest).trans (suffix_of_dropBlank_eq hd)
  · exact Text.dropBlank_suffix cs

/-- A map is read from the front behind its key, if its value is. -/
theorem afterKey_suffix {inner : List Char → Reading} (h : LeavesEnd inner) (key : TypeExpr) :
    LeavesEnd (afterKey inner key) := by
  intro cs
  unfold afterKey
  split
  · rename_i rest hd
    rw [restOf_map_wrap]
    exact (h rest).trans (suffix_of_dropBlank_eq hd)
  · exact Text.dropBlank_suffix cs

/-- A map is read from the front, if its key and its value are. -/
theorem afterMap_suffix {inner : List Char → Reading} (h : LeavesEnd inner) :
    LeavesEnd (afterMap inner) := by
  intro cs
  unfold afterMap
  split
  · rename_i rest hd
    have hrest := h rest
    split
    · rename_i failure he
      rw [he] at hrest
      exact hrest.trans (suffix_of_dropBlank_eq hd)
    · rename_i key rest' he
      rw [he] at hrest
      exact ((afterKey_suffix h key rest').trans hrest).trans (suffix_of_dropBlank_eq hd)
  · exact Text.dropBlank_suffix cs

/-- The closing brace is read from the front. -/
theorem afterBrace_suffix : LeavesEnd afterBrace := by
  intro cs
  unfold afterBrace
  split
  · rename_i rest hd
    exact suffix_of_dropBlank_eq hd
  · exact Text.dropBlank_suffix cs

/-- Both braces are read from the front. -/
theorem afterInterface_suffix : LeavesEnd afterInterface := by
  intro cs
  unfold afterInterface
  split
  · rename_i rest hd
    exact (afterBrace_suffix rest).trans (suffix_of_dropBlank_eq hd)
  · exact Text.dropBlank_suffix cs

/-- The name behind a package is read from the front. -/
theorem afterName_suffix (word : String) : LeavesEnd (afterName word) := by
  intro cs
  unfold afterName
  split
  · rename_i rest
    have hrest := identifier_suffix rest
    split
    · rename_i failure he
      rw [he] at hrest
      exact hrest.trans (List.suffix_cons _ _)
    · rename_i name rest' he
      rw [he] at hrest
      exact hrest.trans (List.suffix_cons _ _)
  · exact List.suffix_refl cs

/-- What a word begins is read from the front. -/
theorem afterWord_suffix {inner : List Char → Reading} (h : LeavesEnd inner) :
    LeavesEnd (afterWord inner) := by
  intro cs
  have hrest := identifier_suffix cs
  unfold afterWord
  split
  · rename_i failure he
    rw [he] at hrest
    exact hrest
  · rename_i word rest he
    rw [he] at hrest
    split
    · exact (afterMap_suffix h rest).trans hrest
    · split
      · exact (afterInterface_suffix rest).trans hrest
      · exact (afterName_suffix word rest).trans hrest

/-- What follows the dots is read from the front; dots that may not stand there are not passed. -/
theorem afterDots_suffix {inner : List Char → Reading} (h : LeavesEnd inner) (outermost : Bool) :
    LeavesEnd (afterDots inner outermost) := by
  intro cs
  unfold afterDots
  split
  · rw [restOf_map_wrap]
    exact h cs
  · exact List.suffix_refl cs

/-- **An expression is read from the front**, whatever it is read with.  By induction on the
budget, with one case for each way an expression may begin. -/
theorem expression_suffix (n : Nat) (outermost : Bool) : LeavesEnd (expression n outermost) := by
  -- on the budget; each form leaves an end of what it was given
  induction n generalizing outermost with
  | zero => exact fun cs => List.suffix_refl cs
  | succ n ih =>
    intro cs
    unfold expression
    split
    · rename_i rest hd
      exact (afterDots_suffix (ih false) outermost rest).trans
        ((List.suffix_append ['.', '.'] rest).trans (suffix_of_dropBlank_eq hd))
    · rename_i rest hd
      rw [restOf_map_wrap]
      exact (ih false rest).trans (suffix_of_dropBlank_eq hd)
    · rename_i rest hd
      exact (afterBracket_suffix (ih false) rest).trans (suffix_of_dropBlank_eq hd)
    · exact (afterWord_suffix (ih false) _).trans (Text.dropBlank_suffix cs)

end RpcSchema.TypeExpr
