/-
  RpcSchema.Proto.Emission
  ────────────────────────
  **Output as a sequence of steps, and where it goes.**

  The steps say what is written: a text, a line end, an indentation or a
  space.  They are read in two ways: as the text they make up, and as the
  writes that they are for a sink.

  A sink takes a write as a whole or refuses it.  The first refusal is
  kept, and everything after it is dropped, even what would have fitted;
  the sink is flushed only when nothing was refused.  A buffer before a
  sink holds small writes back, so that a write which was taken may still
  be refused later on, at the flush at the latest.

  Main statement: `join_writes` — the writes make up the text.
-/

namespace RpcSchema.Emission

/-! ## §1. Steps. -/

/-- What is asked for in one go. -/
inductive Step where
  /-- A text as it is. -/
  | emit (text : String)
  | newline
  /-- The blanks in front of a line at some level. -/
  | indent (level : Nat)
  /-- A single blank; it is written like the text of one. -/
  | space
  deriving DecidableEq, Repr

/-- The number of spaces of one level. -/
def indentWidth : Nat := 2

/-- A text of blanks. -/
def spaces (n : Nat) : String :=
  String.ofList (List.replicate n ' ')

/-- What a step adds to the text. -/
def Step.text : Step → String
  | .emit text => text
  | .newline => "\n"
  | .indent level => spaces (level * indentWidth)
  | .space => " "

/-- What a step writes; an indentation is a write per level. -/
def Step.writes : Step → List String
  | .emit text => [text]
  | .newline => ["\n"]
  | .indent level => List.replicate level (spaces indentWidth)
  | .space => [" "]

/-- The text of some steps. -/
def text (steps : List Step) : String :=
  String.join (steps.map Step.text)

/-- The writes of some steps. -/
def writes (steps : List Step) : List String :=
  steps.flatMap Step.writes

/-- No blanks are the empty text. -/
@[simp] theorem spaces_zero : spaces 0 = "" := rfl

/-- Blanks behind blanks are blanks. -/
theorem spaces_add (m n : Nat) : spaces (m + n) = spaces m ++ spaces n := by
  unfold spaces
  rw [← List.replicate_append_replicate, String.ofList_append]

/-- An indentation level by level is as wide as the indentation at once. -/
theorem join_replicate_spaces (width level : Nat) :
    String.join (List.replicate level (spaces width)) = spaces (level * width) := by
  induction level with
  | zero => rw [Nat.zero_mul]; rfl
  | succ level ih =>
    rw [List.replicate_succ, String.join_cons, ih, ← spaces_add, Nat.add_comm width,
      Nat.succ_mul]

/-- What a step writes makes up its text. -/
theorem Step.join_writes (s : Step) : String.join s.writes = s.text := by
  cases s with
  | emit text => simp [Step.writes, Step.text]
  | newline => rfl
  | indent level => exact join_replicate_spaces indentWidth level
  | space => rfl

/-- **What is written is the text**, however it is cut into steps. -/
theorem join_writes (steps : List Step) : String.join (writes steps) = text steps := by
  induction steps with
  | nil => rfl
  | cons s rest ih =>
    -- the writes of the first step come before those of the rest
    simp only [writes, text] at ih
    simp [writes, text, ih, s.join_writes]

/-- The texts of two sequences follow one another. -/
theorem text_append (a b : List Step) : text (a ++ b) = text a ++ text b := by
  simp [text]

/-- The text of the first step comes first. -/
theorem text_cons (a : Step) (b : List Step) : text (a :: b) = a.text ++ text b := by
  simp [text]

/-! ## §2. Sinks. -/

/-- A sink that is written to in `m` and fails with `ε`. -/
structure Sink (m : Type → Type) (ε : Type) where
  /-- Takes a text as a whole, or refuses it. -/
  write : String → m (Except ε Unit)
  flush : m (Except ε Unit)

/-- Writes a text, unless a write has failed; the answer is the first failure. -/
def writeUnlessFailed {m : Type → Type} [Monad m] {ε : Type} (sink : Sink m ε) :
    Option ε → String → m (Option ε)
  | some e, _ => return some e
  | none, text => do
    match ← sink.write text with
    | .ok () => return none
    | .error e => return some e

/-- Writes some steps to a sink and flushes it; the answer is the first failure. -/
def stream {m : Type → Type} [Monad m] {ε : Type} (sink : Sink m ε) (steps : List Step) :
    m (Except ε Unit) := do
  match ← (writes steps).foldlM (writeUnlessFailed sink) none with
  | some e => return .error e
  | none => sink.flush

/-! ## §3. A buffer before a sink. -/

section Buffer

variable {m : Type → Type} [Monad m] {ε : Type}

/-- Passes on to a sink what a buffer holds; what is refused stays in the buffer. -/
def passOn (sink : Sink m ε) : StateT String m (Except ε Unit) := fun held =>
  if held = "" then return (.ok (), held)
  else do
    match ← sink.write held with
    | .ok () => return (.ok (), "")
    | .error e => return (.error e, held)

/-- Adds a text to a buffer. -/
def hold (text : String) : StateT String m (Except ε Unit) := fun held =>
  return (.ok (), held ++ text)

/-- Holds a text back that is smaller than the whole buffer, and hands any other one to the sink. -/
def takeIn (capacity : Nat) (sink : Sink m ε) (text : String) : StateT String m (Except ε Unit) :=
  if text.utf8ByteSize < capacity then hold text else sink.write text

/-- The bytes that are free in a buffer. -/
def spare (capacity : Nat) (held : String) : Nat :=
  capacity - held.utf8ByteSize

/-- Writes a text to a buffer of some bytes, which is emptied first if the text does not fit. -/
def writeBuffered (capacity : Nat) (sink : Sink m ε) (text : String) :
    StateT String m (Except ε Unit) := do
  if spare capacity (← get) < text.utf8ByteSize then
    match ← passOn sink with
    | .error e => return .error e
    | .ok () => takeIn capacity sink text
  else takeIn capacity sink text

/-- Empties a buffer and flushes the sink. -/
def flushBuffered (sink : Sink m ε) : StateT String m (Except ε Unit) := do
  match ← passOn sink with
  | .error e => return .error e
  | .ok () => sink.flush

/-- A sink behind a buffer of some bytes. -/
def buffered (capacity : Nat) (sink : Sink m ε) : Sink (StateT String m) ε where
  write := writeBuffered capacity sink
  flush := flushBuffered sink

/-- The bytes of a buffer unless said otherwise. -/
def defaultCapacity : Nat := 8192

/-- Writes some steps to a sink through a buffer that is empty at first. -/
def streamBuffered (sink : Sink m ε) (steps : List Step) : m (Except ε Unit) := do
  let (result, _) ← (stream (buffered defaultCapacity sink) steps).run ""
  return result

end Buffer

/-! ## §4. A sink of limited size. -/

/-- Why a sink of limited size fails. -/
inductive SinkFault where
  /-- A write of so many bytes does not fit. -/
  | full (bytes : Nat)
  | flush
  deriving DecidableEq, Repr

/-- The wording of a fault. -/
def SinkFault.message : SinkFault → String
  | .full bytes => "disk full before " ++ toString bytes ++ " bytes"
  | .flush => "flush failed"

/-- Whether a text fits behind what is held. -/
def fits (budget : Option Nat) (held text : String) : Bool :=
  match budget with
  | none => true
  | some limit => held.utf8ByteSize + text.utf8ByteSize ≤ limit

/-- A sink that holds text up to a number of bytes, if there is one. -/
def limitedSink (budget : Option Nat) (flushFails : Bool) : Sink (StateM String) SinkFault where
  write text := fun held =>
    if fits budget held text then (.ok (), held ++ text)
    else (.error (.full text.utf8ByteSize), held)
  flush := fun held => (if flushFails then .error .flush else .ok (), held)

end RpcSchema.Emission
