/-
  RpcSchema.Command.LogFilter
  ───────────────────────────
  **Which log filter is in force.**

  A run has one log filter from its start to its end.  There are three
  places to ask for one, and the first that gives one decides:

      --log=<filter>   an argument of the program
      TYRPC_LOG        the variable of the program
      RUST_LOG         the variable that programs share

  A blank text gives none, and then the next place is asked; where none
  gives any, the filter is `warn`.  The filter is put in force before a
  command reads its arguments: it is the first `--log` of all arguments,
  and not the one that a command finds and keeps (`Arguments.log`), which
  is the last.

  Main statements: `logFilter_of_flag` and `logFilter_of_blank_flag` (the
  first place that gives one decides) and `not_blank_logFilter`.
-/
import RpcSchema.Command.Arguments
import RpcSchema.Text.Blank

namespace RpcSchema

/-! ## §1. The places in their order. -/

/-- The filter when no source sets one. -/
def defaultLogFilter : String := "warn"

/-- A blank text counts as not given. -/
def nonblank (source : Option String) : Option String :=
  source.filter fun s => !Text.isBlankText s

/-- The first source that is given: the flag, the variable of the program, the general
variable. -/
def logFilter (flag own general : Option String) : String :=
  (nonblank flag <|> nonblank own <|> nonblank general).getD defaultLogFilter

variable {flag own general source : Option String} {filter : String}

theorem nonblank_eq_some_iff :
    nonblank source = some filter ↔ source = some filter ∧ Text.isBlankText filter = false := by
  unfold nonblank
  rw [Option.filter_eq_some_iff, Bool.not_eq_true']

/-- The flag decides if it is not blank. -/
theorem logFilter_of_flag (h : Text.isBlankText filter = false) :
    logFilter (some filter) own general = filter := by
  unfold logFilter
  rw [nonblank_eq_some_iff.2 ⟨rfl, h⟩]
  rfl

/-- **A source that gives nothing leaves the choice to the others**, in their order. -/
theorem logFilter_of_blank_flag (h : nonblank flag = none) :
    logFilter flag own general = logFilter own general none := by
  unfold logFilter
  rw [h, show nonblank none = none from rfl]
  cases nonblank own <;> cases nonblank general <;> rfl

/-- **The filter in force is never blank**, whatever the sources are. -/
theorem not_blank_logFilter (flag own general : Option String) :
    Text.isBlankText (logFilter flag own general) = false := by
  unfold logFilter
  cases hfirst : nonblank flag <|> nonblank own <|> nonblank general with
  | none => decide
  | some filter =>
    -- what is found is one of the three, and each of them was looked at
    have hsource : nonblank flag = some filter ∨ nonblank own = some filter ∨
        nonblank general = some filter := by
      cases hflag : nonblank flag <;> cases hown : nonblank own <;> simp_all
    rcases hsource with h | h | h <;> exact (nonblank_eq_some_iff.1 h).2

/-! ## §2. The filter of a run. -/

/-- The variable of the program. -/
def ownVariable : String := "TYRPC_LOG"

/-- The variable that is looked at after that. -/
def generalVariable : String := "RUST_LOG"

/-- The value of an argument that asks for a filter. -/
def logValue? (argument : String) : Option String :=
  match Arguments.flagValue? argument with
  | some (flag, value) => if flag = "--log" then some value else none
  | none => none

/-- The filter that the arguments ask for, with the name of the command among them: the first
one. -/
def logFlag? (arguments : List String) : Option String :=
  arguments.findSome? logValue?

/-- The filter that is in force in a run. -/
def logFilterOf {m : Type → Type} [Monad m] [Surroundings m] (arguments : List String) :
    m String := do
  let own ← Surroundings.lookup ownVariable
  let general ← Surroundings.lookup generalVariable
  return logFilter (logFlag? arguments) own general

example : logFlag? ["check", "-o", "--log=info", "--log=trace"] = some "info" := by
  decide

end RpcSchema
