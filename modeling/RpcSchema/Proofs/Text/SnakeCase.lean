/-
  RpcSchema.Proofs.Text.SnakeCase
  ───────────────────────────────
  **SNAKE CASE KEEPS THE WORDS OF A NAME AND FORGETS ITS CAPITALS.**

  A name is cut into words where an underscore stands and before every
  capital that starts a word.  Snake case joins the words again, in small
  letters: what it forgets is which letters of a word were capitals, and
  whether it was an underscore that stood between two words.

  Names in camel case, in which no two capitals stand together, can be
  read back from their words.

  Main statements: `snakeCase_eq_iff`, `snakeCase_eq_value_iff` and
  `snakeCase_injective_of_isCamel`.
-/
import Mathlib.Data.List.Chain
import RpcSchema.Text.Letter
import RpcSchema.Text.Split

namespace RpcSchema.Text

/-! ## §1. Words. -/

/-- The words of what follows a character; what comes before the first cut belongs to the word of
that character. -/
def wordsAfter (before : Char) : List Char → List (List Char)
  | [] => [[]]
  | c :: rest =>
    if c = '_' then [] :: wordsAfter c rest
    else
      let words := (wordsAfter c rest).modifyHead (c :: ·)
      if startsWord before c rest.head? then [] :: words else words

/-- The words of a name as they are written: `HTTPServer` has `HTTP` and `Server`. -/
def words (name : String) : List String :=
  (wordsAfter '_' name.toList).map String.ofList

/-- A text in small letters. -/
def lowercase (s : String) : String :=
  String.ofList (s.toList.flatMap toLower)

/-- Every text has a word, which may be empty. -/
theorem wordsAfter_ne_nil (before : Char) (cs : List Char) : wordsAfter before cs ≠ [] := by
  induction cs generalizing before with
  | nil => simp [wordsAfter]
  | cons c rest ih =>
    unfold wordsAfter
    split
    · simp
    · dsimp only
      split
      · simp
      · simpa using ih c

/-- **Words have no underscores in them**: there they are cut. -/
theorem underscore_not_mem_wordsAfter {before : Char} {cs word : List Char}
    (h : word ∈ wordsAfter before cs) : '_' ∉ word := by
  -- on the text: a character belongs to the first word of what follows, or starts one
  induction cs generalizing before word with
  | nil =>
    rw [List.mem_singleton.1 h]
    exact List.not_mem_nil
  | cons c rest ih =>
    -- a character that is no underscore may stand in front of the first word
    have hhead : ∀ w ∈ (wordsAfter c rest).modifyHead (c :: ·), c ≠ '_' → '_' ∉ w := by
      intro w hw hc
      cases hws : wordsAfter c rest with
      | nil => exact absurd hws (wordsAfter_ne_nil c rest)
      | cons first others =>
        rw [hws, List.modifyHead_cons] at hw
        rcases List.mem_cons.1 hw with rfl | hw
        · rw [List.mem_cons, not_or]
          exact ⟨hc.symm, ih (hws ▸ List.mem_cons_self)⟩
        · exact ih (hws ▸ List.mem_cons_of_mem _ hw)
    unfold wordsAfter at h
    split at h
    · rcases List.mem_cons.1 h with rfl | h
      · exact List.not_mem_nil
      · exact ih h
    · rename_i hc
      dsimp only at h
      split at h
      · rcases List.mem_cons.1 h with rfl | h
        · exact List.not_mem_nil
        · exact hhead word h hc
      · exact hhead word h hc

/-! ## §2. Small letters. -/

/-- What holds of the first codes holds of the characters of ASCII. -/
theorem ascii_induction {P : Char → Prop} (h : ∀ n < 0x80, P (Char.ofNat n)) {c : Char}
    (hc : c.toNat < 0x80) : P c := by
  have := h c.toNat hc
  rwa [Char.ofNat_toNat] at this

theorem toLower_of_ascii {c : Char} (hc : c.toNat < 0x80) : toLower c = [c.toLower] := by
  unfold toLower
  dsimp only
  rw [if_pos hc]

/-- The runs lead to characters, and back into ASCII only from the sign for kelvin. -/
theorem lowercaseShifts_beyond : ∀ x ∈ lowercaseShifts,
    x = ((0x212A, 0x212A, 1), -8383) ∨ (0x80 ≤ (x.1.1 : Int) + x.2 ∧
      ((x.1.2.1 : Int) + x.2 < 0xD800 ∨ 0xDFFF < (x.1.1 : Int) + x.2 ∧
        (x.1.2.1 : Int) + x.2 < 0x110000)) := by
  decide +kernel

/-- **Small letters of ASCII come from ASCII**, except for `i` and `k`. -/
theorem toLower_beyond {c d : Char} (hc : ¬ c.toNat < 0x80) (hd : d ∈ toLower c) :
    ¬ d.toNat < 0x80 ∨ d = 'i' ∨ d = 'k' := by
  unfold toLower at hd
  dsimp only at hd
  rw [if_neg hc] at hd
  split at hd
  · -- the capital dotted I
    rcases List.mem_cons.1 hd with rfl | hd
    · exact Or.inr (Or.inl rfl)
    · rw [List.mem_singleton.1 hd]
      exact Or.inl (by decide)
  · split at hd
    · rename_i run shift hfind
      obtain rfl := List.mem_singleton.1 hd
      have hcontains := List.find?_some hfind
      simp only [Run.contains, Bool.and_eq_true, decide_eq_true_eq] at hcontains
      rcases lowercaseShifts_beyond _ (List.mem_of_find?_eq_some hfind) with hkelvin | hbeyond
      · obtain ⟨rfl, rfl⟩ := Prod.mk.inj hkelvin
        dsimp only at hcontains
        have hn : c.toNat = 0x212A := by omega
        rw [hn]
        exact Or.inr (Or.inr rfl)
      · left
        dsimp only at hbeyond
        have hvalid : (c.toNat + shift).toNat.isValidChar := by
          unfold Nat.isValidChar
          omega
        rw [Char.ofNat, dif_pos hvalid]
        show ¬ (c.toNat + shift).toNat < 0x80
        omega
    · rw [List.mem_singleton.1 hd]
      exact Or.inl hc

/-- A character of ASCII that is the lowercase of itself alone is that of no other character. -/
theorem ascii_not_mem_toLower {x c : Char} (hx : x.toNat < 0x80) (hletter : x ≠ 'i' ∧ x ≠ 'k')
    (hself : ∀ n < 0x80, x = (Char.ofNat n).toLower → Char.ofNat n = x) (hc : c ≠ x) :
    x ∉ toLower c := by
  intro hmem
  by_cases hascii : c.toNat < 0x80
  · rw [toLower_of_ascii hascii, List.mem_singleton] at hmem
    exact hc (ascii_induction (P := fun c => x = c.toLower → c = x) hself hascii hmem)
  · -- beyond ASCII, only two letters have a lowercase form within it
    rcases toLower_beyond hascii hmem with h | h | h
    · exact h hx
    · exact hletter.1 h
    · exact hletter.2 h

theorem underscore_not_mem_toLower {c : Char} (hc : c ≠ '_') : '_' ∉ toLower c :=
  ascii_not_mem_toLower (by decide) (by decide) (by decide) hc

/-! ## §3. Snake case joins the words. -/

/-- A first word may be written in front of what the words are joined to. -/
theorem joinChars_modifyHead_append (separator : Char) (front : List Char)
    {pieces : List (List Char)} (hne : pieces ≠ []) :
    joinChars separator (pieces.modifyHead (front ++ ·)) = front ++ joinChars separator pieces := by
  cases pieces with
  | nil => exact absurd rfl hne
  | cons piece rest => cases rest <;> simp [joinChars]

/-- The separator stands behind an empty first word. -/
theorem joinChars_nil_cons (separator : Char) {pieces : List (List Char)} (hne : pieces ≠ []) :
    joinChars separator ([] :: pieces) = separator :: joinChars separator pieces := by
  cases pieces with
  | nil => exact absurd rfl hne
  | cons piece rest => rfl

theorem map_modifyHead_cons {α β : Type} (f : α → List β) (a : α) (pieces : List (List α)) :
    (pieces.modifyHead (a :: ·)).map (·.flatMap f)
      = (pieces.map (·.flatMap f)).modifyHead (f a ++ ·) := by
  cases pieces <;> simp

/-- **What follows a character are its words in small letters.**  By induction on the text. -/
theorem go_eq_joinChars (before : Char) (cs : List Char) :
    snakeCase.go before cs = joinChars '_' ((wordsAfter before cs).map (·.flatMap toLower)) := by
  induction cs generalizing before with
  | nil => rfl
  | cons c rest ih =>
    have hne : (wordsAfter c rest).map (·.flatMap toLower) ≠ [] := by
      simpa using wordsAfter_ne_nil c rest
    unfold snakeCase.go wordsAfter
    rw [ih c]
    by_cases hc : c = '_'
    · -- an underscore starts no word, and is its own small letter
      subst hc
      have hstart : startsWord before '_' rest.head? = false := by simp [startsWord, isUpper]
      rw [hstart, if_pos rfl, List.map_cons, List.flatMap_nil, joinChars_nil_cons '_' hne]
      rfl
    · rw [if_neg hc]
      dsimp only
      split
      · rw [List.map_cons, List.flatMap_nil, joinChars_nil_cons, map_modifyHead_cons,
          joinChars_modifyHead_append '_' _ hne]
        · rfl
        · simpa using wordsAfter_ne_nil c rest
      · rw [map_modifyHead_cons, joinChars_modifyHead_append '_' _ hne]
        rfl

/-- The first character of a name starts no further word. -/
theorem snakeCase_eq_go (name : String) :
    snakeCase name = String.ofList (snakeCase.go '_' name.toList) := by
  unfold snakeCase
  split
  · rename_i hnil
    rw [hnil]
    rfl
  · rename_i c rest hcons
    have hstart : startsWord '_' c rest.head? = false := by
      simp [startsWord, isLower, isAsciiDigit, isUpper]
    rw [hcons, snakeCase.go, hstart]
    rfl

/-- **Snake case is the words in small letters, joined by underscores.** -/
theorem snakeCase_eq_join (name : String) :
    snakeCase name = join '_' ((words name).map lowercase) := by
  rw [snakeCase_eq_go, go_eq_joinChars]
  simp [join, words, lowercase, Function.comp_def]

/-- **Two names become the same exactly if they have the same words up to case.** -/
theorem snakeCase_eq_iff {a b : String} :
    snakeCase a = snakeCase b ↔ (words a).map lowercase = (words b).map lowercase := by
  constructor
  · intro h
    -- the words can be told apart, for none of them holds an underscore
    have hsplit : ∀ name : String, splitChars '_' (snakeCase.go '_' name.toList)
        = (wordsAfter '_' name.toList).map (·.flatMap toLower) := by
      intro name
      rw [go_eq_joinChars]
      refine splitChars_joinChars (by simpa using wordsAfter_ne_nil _ _) fun piece hpiece => ?_
      obtain ⟨word, hword, rfl⟩ := List.mem_map.1 hpiece
      intro hmem
      obtain ⟨c, hc, hlower⟩ := List.mem_flatMap.1 hmem
      exact underscore_not_mem_toLower
        (fun he => underscore_not_mem_wordsAfter hword (he ▸ hc)) hlower
    rw [snakeCase_eq_go, snakeCase_eq_go, String.ofList_inj] at h
    have hwords := (hsplit a).symm.trans ((congrArg _ h).trans (hsplit b))
    simpa [words, lowercase, Function.comp_def] using congrArg (List.map String.ofList) hwords
  · intro h
    rw [snakeCase_eq_join, snakeCase_eq_join, h]

/-- Case and underscores are forgotten. -/
example : words "HTTPServer" = ["HTTP", "Server"] ∧ words "Http_Server" = ["Http", "Server"] ∧
    snakeCase "HTTPServer" = snakeCase "Http_Server" := by
  decide

/-! ## §4. The name of the oneof. -/

/-- A small letter that is written first, and comes from ASCII only, comes from the first
character, which starts no word. -/
theorem go_eq_cons {before x : Char} {cs tail : List Char} (hx : x.toNat < 0x80)
    (hplain : x ≠ '_' ∧ x ≠ 'i' ∧ x ≠ 'k') (h : snakeCase.go before cs = x :: tail) :
    ∃ c rest, cs = c :: rest ∧ startsWord before c rest.head? = false ∧
      (c = x ∨ c = x.toUpper) ∧ snakeCase.go c rest = tail := by
  cases cs with
  | nil => cases h
  | cons c rest =>
    unfold snakeCase.go at h
    have hstart : startsWord before c rest.head? = false := by
      by_contra hstart
      rw [Bool.not_eq_false] at hstart
      rw [hstart] at h
      exact hplain.1 (List.cons.inj h).1.symm
    rw [hstart] at h
    -- of the letters beyond ASCII only two have a small letter in it
    have hascii : c.toNat < 0x80 := by
      by_contra hascii
      have hmem : x ∈ toLower c := by
        cases hlower : toLower c with
        | nil => exact absurd hlower (toLower_ne_nil c)
        | cons d others =>
          rw [hlower] at h
          rw [(List.cons.inj h).1]
          exact List.mem_cons_self
      rcases toLower_beyond hascii hmem with hbeyond | hi | hk
      · exact hbeyond hx
      · exact hplain.2.1 hi
      · exact hplain.2.2 hk
    rw [toLower_of_ascii hascii] at h
    obtain ⟨hc, htail⟩ := List.cons.inj h
    refine ⟨c, rest, rfl, hstart, ?_, htail⟩
    rw [← hc]
    exact ascii_induction (P := fun c => c = c.toLower ∨ c = c.toLower.toUpper) (by decide) hascii

/-- No word starts behind a small letter where the next one is small. -/
theorem eq_small_of_not_startsWord {before c x : Char} {after : Option Char}
    (hbefore : isLower before = true) (hx : isUpper x.toUpper = true)
    (h : startsWord before c after = false) (hc : c = x ∨ c = x.toUpper) : c = x := by
  rcases hc with hc | rfl
  · exact hc
  · simp [startsWord, hbefore, hx] at h

/-- No word starts behind a capital where the letter after the next is a capital. -/
theorem eq_capital_of_not_startsWord {before c after x : Char} (hbefore : isUpper before = true)
    (hc : isUpper c = true) (hx : isLower x = true) (h : startsWord before c (some after) = false)
    (hafter : after = x ∨ after = x.toUpper) : after = x.toUpper := by
  rcases hafter with rfl | hafter
  · simp [startsWord, hbefore, hc, hx] at h
  · exact hafter

/-- **Two exported names become `value`.**  In every other spelling a capital starts a word. -/
theorem snakeCase_eq_value_iff {name : String} (h : isExported name = true) :
    snakeCase name = "value" ↔ name = "Value" ∨ name = "VALUE" := by
  constructor
  · intro hvalue
    have hchars : "value".toList = ['v', 'a', 'l', 'u', 'e'] := rfl
    rw [snakeCase_eq_go, ← String.toList_inj, String.toList_ofList, hchars] at hvalue
    obtain ⟨v, _, hname, _, hv, hvalue⟩ := go_eq_cons (by decide) (by decide) hvalue
    obtain ⟨a, _, rfl, hva, ha, hvalue⟩ := go_eq_cons (by decide) (by decide) hvalue
    obtain ⟨l, _, rfl, hal, hl, hvalue⟩ := go_eq_cons (by decide) (by decide) hvalue
    obtain ⟨u, _, rfl, hlu, hu, hvalue⟩ := go_eq_cons (by decide) (by decide) hvalue
    obtain ⟨e, rest, rfl, hue, he, hvalue⟩ := go_eq_cons (by decide) (by decide) hvalue
    obtain rfl : rest = [] := by
      cases rest with
      | nil => rfl
      | cons c rest =>
        unfold snakeCase.go at hvalue
        simp [toLower_ne_nil] at hvalue
    have hcapital : isUpper v = true := by
      unfold isExported at h
      rwa [hname] at h
    obtain rfl : v = 'V' := by
      rcases hv with rfl | rfl
      · cases hcapital
      · rfl
    rw [← String.toList_inj, ← String.toList_inj, hname]
    -- the second letter decides on the others
    rcases ha with rfl | rfl
    · obtain rfl := eq_small_of_not_startsWord (by decide) (by decide) hal hl
      obtain rfl := eq_small_of_not_startsWord (by decide) (by decide) hlu hu
      obtain rfl := eq_small_of_not_startsWord (by decide) (by decide) hue he
      exact Or.inl rfl
    · obtain rfl := eq_capital_of_not_startsWord (by decide) (by decide) (by decide) hva hl
      obtain rfl := eq_capital_of_not_startsWord (by decide) (by decide) (by decide) hal hu
      obtain rfl := eq_capital_of_not_startsWord (by decide) (by decide) (by decide) hlu he
      exact Or.inr rfl
  · rintro (rfl | rfl) <;> decide

/-! ## §5. Camel case. -/

/-- Letters and digits of ASCII with a capital in front, in which no two capitals stand together:
`HttpServer`, and not `HTTPServer`. -/
structure IsCamel (name : String) : Prop where
  exported : isExported name = true
  plain : ∀ c ∈ name.toList, c.toNat < 0x80 ∧ isAlphanumeric c = true
  apart : name.toList.IsChain fun a b => ¬ (isUpper a = true ∧ isUpper b = true)

/-- Words with capitals in front and nothing between them; the first one gets its capital if one is
due. -/
def capitalized (due : Bool) : List Char → List Char
  | [] => []
  | c :: rest =>
    if c = '_' then capitalized true rest
    else (if due then c.toUpper else c) :: capitalized false rest

/-- A capital is the capital of its small letter. -/
theorem capital_ascii {c : Char} (hc : c.toNat < 0x80) (hupper : isUpper c = true) :
    c.toLower ≠ '_' ∧ c.toLower.toUpper = c :=
  ascii_induction (P := fun c => isUpper c = true → c.toLower ≠ '_' ∧ c.toLower.toUpper = c)
    (by decide) hc hupper

/-- Other letters and digits stay, and a word may start behind them. -/
theorem small_ascii {c : Char} (hc : c.toNat < 0x80 ∧ isAlphanumeric c = true)
    (hupper : ¬ isUpper c = true) :
    c ≠ '_' ∧ c.toLower = c ∧ (isLower c || isAsciiDigit c) = true :=
  ascii_induction (P := fun c => isAlphanumeric c = true → ¬ isUpper c = true →
    c ≠ '_' ∧ c.toLower = c ∧ (isLower c || isAsciiDigit c) = true) (by decide) hc.1 hc.2 hupper

/-- **Every capital of a name in camel case is the first letter of a word.**  By induction on what
follows a character. -/
theorem capitalized_go {before : Char} {cs : List Char}
    (hplain : ∀ c ∈ before :: cs, c.toNat < 0x80 ∧ isAlphanumeric c = true)
    (hapart : (before :: cs).IsChain fun a b => ¬ (isUpper a = true ∧ isUpper b = true)) :
    capitalized false (snakeCase.go before cs) = cs := by
  induction cs generalizing before with
  | nil => rfl
  | cons c rest ih =>
    obtain ⟨hbefore, hrest⟩ := List.forall_mem_cons.1 hplain
    obtain ⟨hstep, hchain⟩ := List.isChain_cons_cons.1 hapart
    have hc := hrest c List.mem_cons_self
    unfold snakeCase.go
    rw [toLower_of_ascii hc.1]
    by_cases hupper : isUpper c = true
    · -- what stands before is no capital, so a word starts
      obtain ⟨hne, hback⟩ := capital_ascii hc.1 hupper
      obtain ⟨_, _, hsmall⟩ := small_ascii hbefore fun h => hstep ⟨h, hupper⟩
      have hstart : startsWord before c rest.head? = true := by
        simp [startsWord, hupper, hsmall]
      rw [hstart, if_pos rfl]
      show capitalized true (c.toLower :: snakeCase.go c rest) = _
      rw [capitalized, if_neg hne, if_pos rfl, hback, ih hrest hchain]
    · obtain ⟨hne, hsame, _⟩ := small_ascii hc hupper
      have hstart : startsWord before c rest.head? = false := by
        simp [startsWord, hupper]
      rw [hstart, hsame]
      show capitalized false (c :: snakeCase.go c rest) = _
      rw [capitalized, if_neg hne, ih hrest hchain]
      rfl

/-- A name in camel case can be read off its snake case. -/
theorem IsCamel.capitalized_snakeCase {name : String} (h : IsCamel name) :
    capitalized true (snakeCase name).toList = name.toList := by
  obtain ⟨hexported, hplain, hapart⟩ := h
  unfold isExported at hexported
  unfold snakeCase
  split at hexported
  · cases hexported
  · rename_i c rest hname
    rw [hname] at hplain hapart ⊢
    have hc := hplain c List.mem_cons_self
    obtain ⟨hne, hback⟩ := capital_ascii hc.1 hexported
    rw [toLower_of_ascii hc.1, String.toList_ofList, List.singleton_append, capitalized, if_neg hne,
      if_pos rfl, hback, capitalized_go hplain hapart]

/-- **Different names in camel case stay different.** -/
theorem snakeCase_injective_of_isCamel {a b : String} (ha : IsCamel a) (hb : IsCamel b)
    (h : snakeCase a = snakeCase b) : a = b := by
  rw [← String.toList_inj, ← ha.capitalized_snakeCase, h, hb.capitalized_snakeCase]

end RpcSchema.Text
