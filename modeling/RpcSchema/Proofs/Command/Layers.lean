/-
  RpcSchema.Proofs.Command.Layers
  ───────────────────────────────
  **ARGUMENTS ADD UP LIKE THE SETTINGS THEY STAND FOR.**

  What a list of arguments says can be laid on top of what another one
  says.  Reading the two lists one after the other comes to the same, but
  for two things that hang on the place in the list:

    • a manifest root may stand only once, so the second of two is
      unexpected although each list is fine by itself;
    • an `-o` at the end of the first list takes the first argument of the
      second one as its value.

  Every other fault of the first list stays the fault of both.

  `add_layer` is one argument read on top of earlier ones; `addAll_layer`
  is the induction over the list.

  Main statement: `arguments_layer`.
-/
import RpcSchema.Command.Arguments

namespace RpcSchema

/-! ## §1. Settings laid on top of each other. -/

/-- What settings come to with others on top: each setting is the upper one where that is given,
and of the options each key by itself. -/
structure Settings.Layered (lower upper s : Settings) : Prop where
  manifestRoot : s.manifestRoot = (upper.manifestRoot <|> lower.manifestRoot)
  package : s.package = (upper.package <|> lower.package)
  entrypoint : s.entrypoint = (upper.entrypoint <|> lower.entrypoint)
  excluded : s.excluded = (upper.excluded <|> lower.excluded)
  fieldless : s.fieldless = (upper.fieldless <|> lower.fieldless)
  options : ∀ key, s.options.get? key = (upper.options.get? key <|> lower.options.get? key)
  protoPackage : s.protoPackage = (upper.protoPackage <|> lower.protoPackage)
  service : s.service = (upper.service <|> lower.service)
  sortMethods : s.sortMethods = (upper.sortMethods <|> lower.sortMethods)
  output : s.output = (upper.output <|> lower.output)

/-- Merging is laying on top. -/
theorem Settings.layered_merge (lower upper : Settings) :
    Layered lower upper (lower.merge upper) where
  manifestRoot := rfl
  package := rfl
  entrypoint := rfl
  excluded := rfl
  fieldless := rfl
  options := lower.options.get?_layer upper.options
  protoPackage := rfl
  service := rfl
  sortMethods := rfl
  output := rfl

/-- **There is one way to lay settings on top of each other.** -/
theorem Settings.layered_iff {lower upper s : Settings} :
    Layered lower upper s ↔ s = lower.merge upper := by
  constructor
  · intro h
    have hoptions : s.options = lower.options.layer upper.options :=
      Options.ext_get? fun key => by rw [h.options, Options.get?_layer]
    cases s
    -- options are equal when every key has the same value, the other settings as they are
    simp only [merge, Settings.mk.injEq]
    exact ⟨h.manifestRoot, h.package, h.entrypoint, h.excluded, h.fieldless, hoptions,
      h.protoPackage, h.service, h.sortMethods, h.output⟩
  · intro h
    rw [h]
    exact layered_merge lower upper

/-- Setting a key on top is setting it in what lies on top. -/
theorem Options.layer_insert (o upper : Options) (key value : String) :
    o.layer (upper.insert key value) = (o.layer upper).insert key value := by
  apply ext_get?
  intro other
  rw [get?_layer, get?_insert, get?_insert, get?_layer]
  split
  · rfl
  · rfl

namespace Arguments

/-! ## §2. One argument on top of earlier ones. -/

/-- What arguments say with what later ones say on top. -/
def layer (a upper : Arguments) : Arguments where
  config := upper.config <|> a.config
  log := upper.log <|> a.log
  settings := a.settings.merge upper.settings

/-- What comes of later arguments: their manifest root must not be a second one. -/
def extend (a upper : Arguments) : Except CommandError Arguments :=
  match a.settings.manifestRoot, upper.settings.manifestRoot with
  | some _, some root => .error (.unexpectedArgument root)
  | _, _ => .ok (a.layer upper)

variable {a s s' : Arguments} {argument : String}

theorem layer_none (a : Arguments) : a.layer none = a := by
  show (⟨_, _, a.settings.merge Settings.none⟩ : Arguments) = a
  rw [Settings.merge_none]
  rfl

/-- A second manifest root is unexpected. -/
theorem extend_of_both {first root : String} (ha : a.settings.manifestRoot = some first)
    (hs : s.settings.manifestRoot = some root) :
    a.extend s = .error (.unexpectedArgument root) := by
  unfold extend
  rw [ha, hs]

/-- Without a second manifest root the later arguments are laid on top. -/
theorem extend_of_not_both
    (h : a.settings.manifestRoot = .none ∨ s.settings.manifestRoot = .none) :
    a.extend s = .ok (a.layer s) := by
  unfold extend
  split
  · -- both roots are given, against the hypothesis
    rename_i hfirst hroot
    rcases h with h | h
    · rw [h] at hfirst
      cases hfirst
    · rw [h] at hroot
      cases hroot
  · rfl

/-- A change of arguments that says the same whatever lies below, and gives no manifest root. -/
structure Steady (change : Arguments → Arguments) : Prop where
  layer : ∀ a s : Arguments, change (a.layer s) = a.layer (change s)
  manifestRoot : ∀ s : Arguments, (change s).settings.manifestRoot = s.settings.manifestRoot

/-- What a flag with a value comes to is known without what stands before it: a fault that is no
missing value, or a change. -/
def Decided (add : Arguments → Except CommandError Arguments) : Prop :=
  (∃ e, (∀ flag, e ≠ .missingValue flag) ∧ ∀ a, add a = .error e) ∨
    ∃ change, Steady change ∧ ∀ a, add a = .ok (change a)

/-- A change that says the same whatever lies below is decided. -/
theorem decided_change {change : Arguments → Arguments}
    (hlayer : ∀ a s : Arguments, change (a.layer s) = a.layer (change s))
    (hroot : ∀ s : Arguments, (change s).settings.manifestRoot = s.settings.manifestRoot) :
    Decided fun a => .ok (change a) :=
  Or.inr ⟨change, ⟨hlayer, hroot⟩, fun _ => rfl⟩

/-- An option that is no entry is reported with its whole text. -/
theorem eq_invalidOption_of_optionEntry {value : String} {e : CommandError}
    (h : optionEntry value = .error e) : e = .invalidOption value := by
  unfold optionEntry at h
  split at h
  · split at h
    · cases h
      rfl
    · cases h
  · cases h
    rfl

/-- The options are the one setting that is added to and not replaced. -/
theorem decided_option (value : String) :
    Decided fun a => do
      let (key, value) ← optionEntry value
      return a.set fun s => { s with options := s.options.insert key value } := by
  cases hentry : optionEntry value with
  | error e =>
    -- the fault is in the value, so it is the same behind any arguments
    refine Or.inl ⟨e, ?_, fun _ => rfl⟩
    intro flag hmissing
    rw [eq_invalidOption_of_optionEntry hentry] at hmissing
    cases hmissing
  | ok entry =>
    -- inserting on top is inserting in what lies on top
    apply decided_change
    · intro a s
      show (⟨_, _, { a.settings.merge s.settings with
        options := (a.settings.options.layer s.settings.options).insert entry.1 entry.2 }⟩
          : Arguments) = _
      rw [← Options.layer_insert]
      rfl
    · intro s
      rfl

/-- A choice that does not look at earlier arguments is decided if both branches are. -/
theorem Decided.ite {c : Prop} [Decidable c] {add add' : Arguments → Except CommandError Arguments}
    (h : Decided add) (h' : Decided add') : Decided fun a => if c then add a else add' a := by
  by_cases hc : c
  · simp only [if_pos hc]
    exact h
  · simp only [if_neg hc]
    exact h'

/-- **A flag with a value says the same behind any arguments**, and it is no manifest root.  One
case for each flag, in the order of their tests. -/
theorem decided_addValue (flag value : String) : Decided (addValue · flag value) := by
  have hreplace : ∀ change : Settings → Settings,
      (∀ s upper : Settings, change (s.merge upper) = s.merge (change upper)) →
      (∀ s, (change s).manifestRoot = s.manifestRoot) →
      Decided fun a => .ok (a.set change) := by
    intro change hlayer hroot
    apply decided_change
    · intro a s
      show (⟨_, _, change (a.settings.merge s.settings)⟩ : Arguments) = _
      rw [hlayer]
      rfl
    · intro s
      exact hroot s.settings
  -- the flags that replace one setting
  unfold addValue
  apply Decided.ite
  · exact hreplace _ (fun _ _ => rfl) (fun _ => rfl)
  apply Decided.ite
  · exact hreplace _ (fun _ _ => rfl) (fun _ => rfl)
  apply Decided.ite
  · exact hreplace _ (fun _ _ => rfl) (fun _ => rfl)
  apply Decided.ite
  · exact hreplace _ (fun _ _ => rfl) (fun _ => rfl)
  apply Decided.ite
  · -- the only flag that adds to what is there
    exact decided_option value
  apply Decided.ite
  · exact hreplace _ (fun _ _ => rfl) (fun _ => rfl)
  apply Decided.ite
  · exact hreplace _ (fun _ _ => rfl) (fun _ => rfl)
  apply Decided.ite
  · exact decided_change (fun _ _ => rfl) (fun _ => rfl)
  apply Decided.ite
  · exact decided_change (fun _ _ => rfl) (fun _ => rfl)
  apply Decided.ite
  · exact hreplace _ (fun _ _ => rfl) (fun _ => rfl)
  · -- a flag that none of the tests knows
    exact Or.inl ⟨.unknownFlag flag, nofun, fun _ => rfl⟩

/-- What an argument comes to that is no flag: it is the manifest root if there is none yet. -/
theorem addPlain_eq_ok_iff :
    s.addPlain argument = .ok s' ↔ argument.toList.head? ≠ some '-' ∧
      s.settings.manifestRoot = .none ∧ s' = s.set ({ · with manifestRoot := argument }) := by
  unfold addPlain
  by_cases hdash : argument.toList.head? = some '-'
  · rw [if_pos hdash]
    split <;> simp [hdash]
  · rw [if_neg hdash]
    by_cases hroot : s.settings.manifestRoot = .none
    · simp [hdash, hroot, eq_comm]
    · simp [hdash, hroot]

/-- Behind a manifest root there is no place for a second one. -/
theorem addPlain_of_root {first : String} (hroot : s.settings.manifestRoot = some first)
    (hdash : argument.toList.head? ≠ some '-') :
    s.addPlain argument = .error (.unexpectedArgument argument) := by
  unfold addPlain
  rw [if_neg hdash, if_neg (by rw [hroot]; exact Bool.false_ne_true)]

/-- An argument that is no flag is taken in on top as it is alone, unless there is a root below. -/
theorem addPlain_layer (h : s.addPlain argument = .ok s') :
    (a.layer s).addPlain argument = a.extend s' := by
  obtain ⟨hdash, hnone, rfl⟩ := addPlain_eq_ok_iff.1 h
  have hroot : (a.layer s).settings.manifestRoot = a.settings.manifestRoot := by
    show (s.settings.manifestRoot <|> a.settings.manifestRoot) = _
    rw [hnone]
    rfl
  -- the argument is the first root of its list; it is the first of all unless there is one below
  cases ha : a.settings.manifestRoot with
  | none =>
    rw [extend_of_not_both (Or.inl ha)]
    exact addPlain_eq_ok_iff.2 ⟨hdash, hroot.trans ha, rfl⟩
  | some first =>
    have hgiven : (s.set ({ · with manifestRoot := argument })).settings.manifestRoot
        = some argument := rfl
    rw [extend_of_both ha hgiven]
    exact addPlain_of_root (hroot.trans ha) hdash

/-- Only an argument that is neither a flag with a value nor one of the single flags hangs on what
stands before it. -/
theorem add_cases (argument : String) :
    (∃ e, (∀ flag, e ≠ .missingValue flag) ∧ ∀ a : Arguments, a.add argument = .error e) ∨
      (∃ change, Steady change ∧ ∀ a : Arguments, a.add argument = .ok (change a)) ∨
      ∀ a : Arguments, a.add argument = a.addPlain argument := by
  have hdecided : Decided (add · argument) ∨
      ∀ a : Arguments, a.add argument = a.addPlain argument := by
    -- the single flags come first, then flags with a value, and the rest is plain
    unfold add
    by_cases hsort : argument = "--sort-methods"
    · simp only [if_pos hsort]
      exact Or.inl (decided_change (fun _ _ => rfl) (fun _ => rfl))
    · simp only [if_neg hsort]
      cases hflag : flagValue? argument with
      | none => exact Or.inr fun _ => rfl
      | some entry => exact Or.inl (decided_addValue entry.1 entry.2)
  exact or_assoc.1 hdecided

/-- A manifest root that is given stays. -/
theorem manifestRoot_of_add {root : String} (h : s.add argument = .ok s')
    (hroot : s.settings.manifestRoot = some root) : s'.settings.manifestRoot = some root := by
  rcases add_cases argument with ⟨e, _, herror⟩ | ⟨change, hsteady, hchange⟩ | hplain
  · rw [herror] at h
    cases h
  · rw [hchange] at h
    cases h
    exact (hsteady.manifestRoot s).trans hroot
  · rw [hplain] at h
    -- a second root would have been refused
    obtain ⟨_, hnone, _⟩ := addPlain_eq_ok_iff.1 h
    rw [hnone] at hroot
    cases hroot

/-- The flag that lacks a value is the argument itself. -/
theorem eq_of_add_missingValue {flag : String} (h : s.add argument = .error (.missingValue flag)) :
    flag = argument := by
  rcases add_cases argument with ⟨e, hother, herror⟩ | ⟨change, _, hchange⟩ | hplain
  · rw [herror] at h
    cases h
    exact absurd rfl (hother flag)
  · rw [hchange] at h
    cases h
  · rw [hplain] at h
    -- a plain argument is reported under its own text
    unfold addPlain at h
    split at h
    · split at h
      · cases h
        rfl
      · cases h
    · split at h
      · cases h
      · cases h

/-- **One argument on top of earlier ones.** -/
theorem add_layer (hfree : a.settings.manifestRoot = .none ∨ s.settings.manifestRoot = .none)
    (h : s.add argument = .ok s') : (a.layer s).add argument = a.extend s' := by
  rcases add_cases argument with ⟨e, _, herror⟩ | ⟨change, hsteady, hchange⟩ | hplain
  · rw [herror] at h
    cases h
  · rw [hchange] at h
    cases h
    rw [hchange, hsteady.layer, extend_of_not_both]
    rw [hsteady.manifestRoot]
    -- the change says nothing about roots, so it stays with one of the two
    exact hfree
  · rw [hplain] at h ⊢
    exact addPlain_layer h

/-! ## §3. Lists of arguments. -/

/-- The first argument is taken in alone, unless it is an `-o`. -/
theorem addAll_cons (h : argument ≠ outputFlag) (a : Arguments) (rest : List String) :
    a.addAll (argument :: rest) = (a.add argument).bind (·.addAll rest) := by
  -- the argument takes no other with it, whatever stands behind
  cases rest with
  | nil =>
    unfold addAll
    rw [if_neg h]
    cases a.add argument <;> rfl
  | cons next rest =>
    conv => lhs; unfold addAll
    rw [if_neg h]
    cases a.add argument <;> rfl

/-- Arguments one after the other, unless the first ones end in an `-o`. -/
theorem addAll_append (xs ys : List String) (a : Arguments)
    (h : a.addAll xs ≠ .error (.missingValue outputFlag)) :
    a.addAll (xs ++ ys) = (a.addAll xs).bind (·.addAll ys) := by
  fun_induction addAll a xs with
  | case1 a => rfl
  | case2 a => exact absurd rfl h
  | case3 a argument hne => exact addAll_cons hne a ys
  -- an output with its value is passed as a pair
  | case4 a next rest ih =>
    show (a.set _).addAll (rest ++ ys) = _
    exact ih h
  | case5 a argument next rest hne e he =>
    rw [List.cons_append, addAll_cons hne, he]
    rfl
  | case6 a argument next rest hne a' ha ih =>
    rw [List.cons_append, addAll_cons hne, ha]
    exact ih h

/-- A manifest root that is given stays, whatever comes behind it. -/
theorem manifestRoot_of_addAll {xs : List String} {root : String} (h : s.addAll xs = .ok s')
    (hroot : s.settings.manifestRoot = some root) : s'.settings.manifestRoot = some root := by
  fun_induction addAll s xs with
  | case1 a =>
    cases h
    exact hroot
  | case2 a => cases h
  | case3 a argument hne => exact manifestRoot_of_add h hroot
  | case4 a next rest ih => exact ih h hroot
  | case5 a argument next rest hne e he => cases h
  | case6 a argument next rest hne a' ha ih => exact ih h (manifestRoot_of_add ha hroot)

/-- **A list of arguments on top of earlier ones.**  By induction on the list: what stands before
it comes through each argument unchanged, until a manifest root turns out to be the second one;
then the root that the rest of the list would keep is the one that is reported. -/
theorem addAll_layer {ys : List String}
    (hfree : a.settings.manifestRoot = .none ∨ s.settings.manifestRoot = .none)
    (h : s.addAll ys = .ok s') : (a.layer s).addAll ys = a.extend s' := by
  fun_induction addAll s ys with
  | case1 s =>
    cases h
    exact (extend_of_not_both hfree).symm
  | case2 s => cases h
  | case3 s argument hne =>
    rw [addAll_cons hne, add_layer hfree h]
    cases a.extend s' <;> rfl
  | case4 s next rest ih =>
    show (a.layer (s.set ({ · with output := next }))).addAll rest = _
    exact ih hfree h
  | case5 s argument next rest hne e he => cases h
  | case6 s argument next rest hne t ht ih =>
    rw [addAll_cons hne, add_layer hfree ht]
    by_cases hboth : a.settings.manifestRoot = .none ∨ t.settings.manifestRoot = .none
    · rw [extend_of_not_both hboth]
      exact ih hboth h
    · -- this argument is the second root, and the rest of the list keeps it
      rw [not_or] at hboth
      obtain ⟨first, hfirst⟩ := Option.ne_none_iff_exists'.1 hboth.1
      obtain ⟨root, hroot⟩ := Option.ne_none_iff_exists'.1 hboth.2
      rw [extend_of_both hfirst hroot, extend_of_both hfirst (manifestRoot_of_addAll h hroot)]
      rfl

/-- **The missing value of an `-o`**: it stands at the end, and there is no fault before it. -/
theorem addAll_eq_missingValue_iff {xs : List String} :
    a.addAll xs = .error (.missingValue outputFlag) ↔
      ∃ front p, xs = front ++ [outputFlag] ∧ a.addAll front = .ok p := by
  constructor
  · intro h
    fun_induction addAll a xs with
    | case1 a => cases h
    | case2 a => exact ⟨[], a, rfl, rfl⟩
    | case3 a argument hne => exact absurd (eq_of_add_missingValue h).symm hne
    | case4 a next rest ih =>
      obtain ⟨front, p, rfl, hp⟩ := ih h
      exact ⟨outputFlag :: next :: front, p, rfl, hp⟩
    | case5 a argument next rest hne e he =>
      cases h
      exact absurd (eq_of_add_missingValue he).symm hne
    | case6 a argument next rest hne a' ha ih =>
      obtain ⟨front, p, hxs, hp⟩ := ih h
      refine ⟨argument :: front, p, by rw [hxs]; rfl, ?_⟩
      rw [addAll_cons hne, ha]
      exact hp
  · -- the arguments in front are read, and the last one lacks its value
    rintro ⟨front, p, rfl, hp⟩
    rw [addAll_append front [outputFlag] a (by rw [hp]; nofun), hp]
    rfl

end Arguments

/-! ## §4. Flags above a config file. -/

section Job

variable {m : Type → Type} [Monad m] [Storage m]

/-- The settings below the flags. -/
def Arguments.base (a : Arguments) : m (Except CommandError Settings) :=
  match a.config with
  | .none => return .ok Settings.none
  | some path => Settings.load path

/-- The job is made of the flags on top of what lies below them. -/
theorem Arguments.job_eq [LawfulMonad m] (a : Arguments) :
    (a.job : m (Except CommandError Job)) =
      (fun base : Except CommandError Settings => base.bind fun s => (s.merge a.settings).job)
        <$> a.base := by
  unfold job base
  -- with or without a file the base is what the settings are merged onto
  cases a.config with
  | none =>
    rw [map_pure]
    rfl
  | some path =>
    rw [map_eq_pure_bind]
    show Settings.load path >>= _ = Settings.load path >>= _
    congr 1
    funext loaded
    cases loaded <;> rfl

end Job

/-! ## §5. The law of arguments. -/

open Arguments (outputFlag parse)

/-- **Reading two lists of arguments one after the other lays the second one's settings on top of
the first one's.**  Two manifest roots do not go together, and an `-o` at the end of the first list
is no fault once the second one gives it a value; every other fault of the first list stays.
Layers are associative, with nothing below and above every layer, and each setting is the
uppermost one that is given. -/
theorem arguments_layer :
    (∀ (xs ys : List String) (p q : Arguments), parse xs = .ok p → parse ys = .ok q →
      (p.settings.manifestRoot = none ∨ q.settings.manifestRoot = none →
        parse (xs ++ ys) = .ok
          ⟨q.config <|> p.config, q.log <|> p.log, p.settings.merge q.settings⟩) ∧
      (∀ first root, p.settings.manifestRoot = some first → q.settings.manifestRoot = some root →
        parse (xs ++ ys) = .error (.unexpectedArgument root))) ∧
    (∀ (xs : List String) (e : CommandError), parse xs = .error e →
      (e = .missingValue outputFlag ↔
        ∃ front p, xs = front ++ [outputFlag] ∧ parse front = .ok p) ∧
      (e ≠ .missingValue outputFlag → ∀ ys, parse (xs ++ ys) = .error e)) ∧
    (∀ a b c : Settings, (a.merge b).merge c = a.merge (b.merge c)) ∧
    (∀ s : Settings, Settings.none.merge s = s ∧ s.merge Settings.none = s) ∧
    (∀ lower upper s : Settings, Settings.Layered lower upper s ↔ s = lower.merge upper) ∧
    (∀ (m : Type → Type) [Monad m] [LawfulMonad m] [Storage m] (p q : Arguments),
      ((p.layer q).job : m (Except CommandError Job)) =
        (fun base : Except CommandError Settings =>
          base.bind fun s => ((s.merge p.settings).merge q.settings).job) <$> (p.layer q).base) := by
  refine ⟨?_, ?_, Settings.merge_assoc, fun s => ⟨s.none_merge, s.merge_none⟩,
    fun _ _ _ => Settings.layered_iff, ?_⟩
  · intro xs ys p q hp hq
    -- the second list is read on top of nothing, and then on top of the first
    have hboth : parse (xs ++ ys) = p.extend q := by
      have hlater := Arguments.addAll_layer (a := p) (Or.inr rfl) hq
      rw [Arguments.layer_none] at hlater
      rw [← hlater]
      unfold parse at hp ⊢
      rw [Arguments.addAll_append xs ys _ (by rw [hp]; nofun), hp]
      rfl
    rw [hboth]
    exact ⟨Arguments.extend_of_not_both, fun first root => Arguments.extend_of_both⟩
  · intro xs e he
    constructor
    · refine Iff.trans ?_ Arguments.addAll_eq_missingValue_iff
      show _ ↔ parse xs = _
      rw [he, Except.error.injEq]
    · intro hother ys
      unfold parse at he ⊢
      rw [Arguments.addAll_append xs ys _ (by rw [he]; simpa using hother), he]
      rfl
  · intro m _ _ _ p q
    -- the flags of both lists lie on the same base
    rw [Arguments.job_eq]
    congr 1
    funext base
    cases base with
    | error e => rfl
    | ok s =>
      show (s.merge (p.settings.merge q.settings)).job = _
      rw [← Settings.merge_assoc]
      rfl

/-- Flags before and behind: the later owner wins, the team is added, and the output behind the
first list is the value of its `-o`. -/
theorem arguments_layer_desk :
    ∃ p q, parse ["desk.json", "--option=owner=ann", "--service=Desk"] = .ok p ∧
      parse ["--option=owner=bob", "--option=team=red", "-o", "desk.proto"] = .ok q ∧
      q.settings.manifestRoot = none ∧
      parse (["desk.json", "--option=owner=ann", "--service=Desk"]
        ++ ["--option=owner=bob", "--option=team=red", "-o", "desk.proto"]) = .ok
          ⟨q.config <|> p.config, q.log <|> p.log, p.settings.merge q.settings⟩ ∧
      (p.settings.merge q.settings).options.get? "owner" = some "bob" ∧
      p.settings.manifestRoot = some "desk.json" ∧
      parse (["desk.json", "--option=owner=ann", "--service=Desk"]
        ++ ["desk.json", "--option=owner=ann", "--service=Desk"])
        = .error (.unexpectedArgument "desk.json") ∧
      parse ["--quiet"] = .error (.unknownFlag "--quiet") ∧
      (∀ ys, parse (["--quiet"] ++ ys) = .error (.unknownFlag "--quiet")) := by
  have hp : parse ["desk.json", "--option=owner=ann", "--service=Desk"] = .ok
      ⟨none, none, { Settings.none with
        manifestRoot := "desk.json", options := .ofList [("owner", "ann")], service := "Desk" }⟩ := by
    rfl
  have hq : parse ["--option=owner=bob", "--option=team=red", "-o", "desk.proto"] = .ok
      ⟨none, none, { Settings.none with
        options := .ofList [("owner", "bob"), ("team", "red")], output := "desk.proto" }⟩ := by
    rfl
  have hquiet : parse ["--quiet"] = .error (.unknownFlag "--quiet") := by rfl
  -- what is parsed apart is added up where both are given, but for the two roots
  have hadd := arguments_layer.1
  exact ⟨_, _, hp, hq, rfl, (hadd _ _ _ _ hp hq).1 (Or.inr rfl), by decide, rfl,
    (hadd _ _ _ _ hp hp).2 _ _ rfl rfl, hquiet, (arguments_layer.2.1 _ _ hquiet).2 nofun⟩

end RpcSchema
