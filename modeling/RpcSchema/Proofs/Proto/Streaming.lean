/-
  RpcSchema.Proofs.Proto.Streaming
  ────────────────────────────────
  **A SINK TAKES THE WHOLE TEXT OR SAYS THAT IT FAILED.**

  What a sink does is described by three properties of its state: `took`
  says that some texts were taken, one after the other; `kept` says so of
  a sink that was flushed; `lost` is all that is known after some failure.
  A sink that moves between these with every write and flush is honest.

    • `Honest.stream` — streaming to an honest sink ends with the whole
      text of the steps, flushed, or with a failure;
    • `Honest.buffered` — a buffer before an honest sink is an honest
      sink, of any capacity: what the buffer holds stands behind what the
      sink took, and nothing stands there after a flush.

  Sinks work in different monads, with a buffer and without.  An execution
  is what they have in common: actions are functions on states.

  Main statement: `Honest.streamBuffered`.
-/
import RpcSchema.Proto.Emission

namespace RpcSchema.Emission

/-! ## §1. Actions as functions on states. -/

/-- The actions of a monad as functions on some states. -/
structure Execution (m : Type → Type) [Monad m] (σ : Type) where
  run : {α : Type} → m α → σ → α × σ
  run_pure : ∀ {α : Type} (a : α) (s : σ), run (pure a) s = (a, s)
  run_bind : ∀ {α β : Type} (x : m α) (f : α → m β) (s : σ),
    run (x >>= f) s = run (f (run x s).1) (run x s).2

/-- Actions on a state. -/
def Execution.state (σ : Type) : Execution (StateM σ) σ where
  run x s := x s
  run_pure _ _ := rfl
  run_bind _ _ _ := rfl

variable {m : Type → Type} [Monad m] {σ ε : Type} {x : Execution m σ} {sink : Sink m ε}

/-- An answer beside a buffer, as an answer and a state that has the buffer in it. -/
def buffering {α : Type} (r : (α × String) × σ) : α × String × σ :=
  (r.1.1, r.1.2, r.2)

/-- Actions with a buffer, which is a part of the state. -/
def Execution.withBuffer (x : Execution m σ) : Execution (StateT String m) (String × σ) where
  run action s := buffering (x.run (action s.1) s.2)
  run_pure a s := congrArg buffering (x.run_pure (a, s.1) s.2)
  run_bind action f s := congrArg buffering (x.run_bind (action s.1) (fun r => f r.1 r.2) s.2)

/-! ## §2. Honest sinks. -/

/-- What holds after an action on a sink that may have failed. -/
def Ends (well : σ → Prop) (lost : ε → σ → Prop) : Except ε Unit → σ → Prop
  | .ok () => well
  | .error e => lost e

/-- A sink that takes a text as a whole unless it fails. -/
structure Honest (x : Execution m σ) (sink : Sink m ε) (took kept : String → σ → Prop)
    (lost : ε → σ → Prop) : Prop where
  write : ∀ {held : String} {s : σ} (text : String), took held s →
    Ends (took (held ++ text)) lost (x.run (sink.write text) s).1 (x.run (sink.write text) s).2
  flush : ∀ {held : String} {s : σ}, took held s →
    Ends (kept held) lost (x.run sink.flush s).1 (x.run sink.flush s).2

namespace Honest

variable {took kept : String → σ → Prop} {lost : ε → σ → Prop}

/-- What holds between two writes: the texts so far were taken, or a failure is kept. -/
def Stands (took : σ → Prop) (lost : ε → σ → Prop) : Option ε → σ → Prop
  | none => took
  | some e => lost e

/-- **What holds between writes holds behind one more.** -/
theorem stands_write (h : Honest x sink took kept lost) {held : String} {failed : Option ε} {s : σ}
    (hs : Stands (took held) lost failed s) (text : String) :
    Stands (took (held ++ text)) lost (x.run (writeUnlessFailed sink failed text) s).1
      (x.run (writeUnlessFailed sink failed text) s).2 := by
  cases failed with
  -- after a failure nothing more is written
  | some e =>
    show Stands _ lost (x.run (pure (some e)) s).1 (x.run (pure (some e)) s).2
    rw [x.run_pure]
    exact hs
  | none =>
    have hend := h.write text hs
    unfold writeUnlessFailed
    rw [x.run_bind]
    cases hr : (x.run (sink.write text) s).1 with
    | ok u =>
      rw [hr] at hend
      rw [x.run_pure]
      exact hend
    | error e =>
      rw [hr] at hend
      rw [x.run_pure]
      exact hend

/-- By induction on the texts: each of them is taken behind those before it, until one fails. -/
theorem stands_writes (h : Honest x sink took kept lost) (texts : List String) :
    ∀ {held : String} {failed : Option ε} {s : σ}, Stands (took held) lost failed s →
      Stands (took (held ++ String.join texts)) lost
        (x.run (texts.foldlM (writeUnlessFailed sink) failed) s).1
        (x.run (texts.foldlM (writeUnlessFailed sink) failed) s).2 := by
  -- on the writes, while the first failure is carried along
  induction texts with
  | nil =>
    intro held failed s hs
    rw [List.foldlM_nil, x.run_pure, String.join_nil, String.append_empty]
    exact hs
  | cons text texts ih =>
    intro held failed s hs
    rw [List.foldlM_cons, x.run_bind, String.join_cons, ← String.append_assoc]
    exact ih (h.stands_write hs text)

/-- **Streaming to an honest sink ends with the whole text, or with a failure.** -/
theorem stream (h : Honest x sink took kept lost) (steps : List Step) {held : String} {s : σ}
    (hs : took held s) :
    Ends (kept (held ++ text steps)) lost (x.run (stream sink steps) s).1
      (x.run (stream sink steps) s).2 := by
  have hnone : Stands (took held) lost (none : Option ε) s := hs
  have hwrites := h.stands_writes (writes steps) hnone
  unfold Emission.stream
  rw [x.run_bind]
  cases hr : (x.run ((writes steps).foldlM (writeUnlessFailed sink) none) s).1 with
  -- a failed write is reported and the flush left out
  | some e =>
    rw [hr] at hwrites
    rw [x.run_pure]
    exact hwrites
  | none =>
    rw [hr, join_writes] at hwrites
    exact h.flush hwrites

end Honest

/-! ## §3. A buffer before an honest sink. -/

variable {took kept : String → σ → Prop} {lost : ε → σ → Prop}

/-- The texts so far: what the sink took, and behind it what the buffer holds. -/
def Behind (took : String → σ → Prop) (held : String) (s : String × σ) : Prop :=
  ∃ sent, sent ++ s.1 = held ∧ took sent s.2

/-- A property of the state beside a buffer, whatever that holds. -/
def Beside (p : σ → Prop) (s : String × σ) : Prop :=
  p s.2

theorem ends_beside_iff {well : σ → Prop} {r : Except ε Unit} {s : String × σ} :
    Ends (Beside well) (fun e => Beside (lost e)) r s ↔ Ends well lost r s.2 := by
  cases r <;> exact Iff.rfl

/-- An action on the sink leaves the buffer alone. -/
theorem Execution.run_lift {α : Type} (x : Execution m σ) (action : m α) (s : String × σ) :
    x.withBuffer.run (liftM action) s = ((x.run action s.2).1, s.1, (x.run action s.2).2) := by
  show buffering (x.run (action >>= fun a => pure (a, s.1)) s.2) = _
  rw [x.run_bind, x.run_pure]
  rfl

section Buffered

variable {text held : String} {s : String × σ} {capacity : Nat}

/-- To hold a text adds it to the texts so far. -/
theorem ends_hold (hs : Behind took held s) :
    Ends (Behind took (held ++ text)) (fun e => Beside (lost e))
      (x.withBuffer.run (hold text : StateT String m (Except ε Unit)) s).1
      (x.withBuffer.run (hold text : StateT String m (Except ε Unit)) s).2 := by
  have hrun : x.withBuffer.run (hold text : StateT String m (Except ε Unit)) s
      = (.ok (), s.1 ++ text, s.2) :=
    congrArg buffering (x.run_pure ((.ok () : Except ε Unit), s.1 ++ text) s.2)
  rw [hrun]
  obtain ⟨sent, hsent, htook⟩ := hs
  refine ⟨sent, ?_, htook⟩
  rw [← String.append_assoc, hsent]

/-- A text goes to the sink behind the buffer's back only if the buffer is empty. -/
theorem Honest.ends_takeIn (h : Honest x sink took kept lost) (hs : Behind took held s)
    (hempty : capacity ≤ text.utf8ByteSize → s.1 = "") :
    Ends (Behind took (held ++ text)) (fun e => Beside (lost e))
      (x.withBuffer.run (takeIn capacity sink text) s).1
      (x.withBuffer.run (takeIn capacity sink text) s).2 := by
  unfold takeIn
  by_cases hsmall : text.utf8ByteSize < capacity
  · rw [if_pos hsmall]
    exact ends_hold hs
  · rw [if_neg hsmall, Execution.run_lift]
    obtain ⟨sent, hsent, htook⟩ := hs
    -- a large text goes past the buffer, which is empty by then
    rw [hempty (by omega), String.append_empty] at hsent
    have hend := h.write text htook
    show Ends _ _ (x.run (sink.write text) s.2).1 (s.1, (x.run (sink.write text) s.2).2)
    cases hr : (x.run (sink.write text) s.2).1 with
    | error e =>
      rw [hr] at hend
      exact hend
    | ok u =>
      rw [hr, hsent] at hend
      exact ⟨held ++ text, by rw [hempty (by omega), String.append_empty], hend⟩

/-- After the buffer was passed on, it is empty. -/
theorem Honest.ends_passOn (h : Honest x sink took kept lost) (hs : Behind took held s) :
    Ends (fun s' => s'.1 = "" ∧ took held s'.2) (fun e => Beside (lost e))
      (x.withBuffer.run (passOn sink) s).1 (x.withBuffer.run (passOn sink) s).2 := by
  obtain ⟨sent, hsent, htook⟩ := hs
  show Ends _ _ (buffering (x.run (passOn sink s.1) s.2)).1 (buffering (x.run (passOn sink s.1) s.2)).2
  unfold passOn
  -- an empty buffer passes nothing on, not even an empty write
  by_cases hnone : s.1 = ""
  · rw [if_pos hnone, x.run_pure]
    rw [hnone, String.append_empty] at hsent
    exact ⟨hnone, hsent ▸ htook⟩
  · have hend := h.write s.1 htook
    rw [if_neg hnone, x.run_bind]
    cases hr : (x.run (sink.write s.1) s.2).1 with
    | ok u =>
      rw [hr, hsent] at hend
      rw [x.run_pure]
      exact ⟨rfl, hend⟩
    | error e =>
      rw [hr] at hend
      rw [x.run_pure]
      exact hend

/-- **A write through the buffer adds its text to the texts so far, or fails as the sink does.** -/
theorem Honest.ends_writeBuffered (h : Honest x sink took kept lost) (hcapacity : 0 < capacity)
    (hs : Behind took held s) :
    Ends (Behind took (held ++ text)) (fun e => Beside (lost e))
      (x.withBuffer.run (writeBuffered capacity sink text) s).1
      (x.withBuffer.run (writeBuffered capacity sink text) s).2 := by
  have hget : x.withBuffer.run (get : StateT String m String) s = (s.1, s) :=
    congrArg buffering (x.run_pure (s.1, s.1) s.2)
  unfold writeBuffered
  rw [x.withBuffer.run_bind, hget]
  by_cases hfull : spare capacity s.1 < text.utf8ByteSize
  · have hpassed := h.ends_passOn hs
    rw [if_pos hfull, x.withBuffer.run_bind]
    cases hr : (x.withBuffer.run (passOn sink) s).1 with
    | error e =>
      rw [hr] at hpassed
      rw [x.withBuffer.run_pure]
      exact hpassed
    | ok u =>
      rw [hr] at hpassed
      exact h.ends_takeIn ⟨held, by rw [hpassed.1, String.append_empty], hpassed.2⟩
        (fun _ => hpassed.1)
  · rw [if_neg hfull]
    -- A text that fits and is as large as the buffer leaves no room for anything else in it.
    apply h.ends_takeIn hs
    intro hlarge
    have hempty : s.1.utf8ByteSize = 0 := by
      unfold spare at hfull
      omega
    exact String.utf8ByteSize_eq_zero_iff.1 hempty

/-- **A flush sends the buffer on, so that the sink has kept all texts.** -/
theorem Honest.ends_flushBuffered (h : Honest x sink took kept lost) (hs : Behind took held s) :
    Ends (Beside (kept held)) (fun e => Beside (lost e)) (x.withBuffer.run (flushBuffered sink) s).1
      (x.withBuffer.run (flushBuffered sink) s).2 := by
  -- first what is buffered goes to the sink, then the sink is flushed
  have hpassed := h.ends_passOn hs
  unfold flushBuffered
  rw [x.withBuffer.run_bind]
  cases hr : (x.withBuffer.run (passOn sink) s).1 with
  | error e =>
    rw [hr] at hpassed
    rw [x.withBuffer.run_pure]
    exact hpassed
  | ok u =>
    rw [hr] at hpassed
    have hend := h.flush hpassed.2
    rw [Execution.run_lift]
    exact ends_beside_iff.2 hend

end Buffered

/-- **A buffer before an honest sink is an honest sink.** -/
theorem Honest.buffered (h : Honest x sink took kept lost) {capacity : Nat}
    (hcapacity : 0 < capacity) :
    Honest x.withBuffer (buffered capacity sink) (Behind took) (fun held => Beside (kept held))
      (fun e => Beside (lost e)) where
  write _ hs := h.ends_writeBuffered hcapacity hs
  flush hs := h.ends_flushBuffered hs

/-- **What is streamed through a buffer reaches the sink as a whole, or there is a failure.** -/
theorem Honest.streamBuffered (h : Honest x sink took kept lost) (steps : List Step) {s : σ}
    (hs : took "" s) :
    Ends (kept (text steps)) lost (x.run (streamBuffered sink steps) s).1
      (x.run (streamBuffered sink steps) s).2 := by
  have hbehind : Behind took "" ("", s) := ⟨"", rfl, hs⟩
  have hcapacity : 0 < defaultCapacity := by decide
  -- the buffered sink is honest too, and starts with an empty buffer
  have hend := (h.buffered hcapacity).stream steps hbehind
  rw [String.empty_append] at hend
  unfold Emission.streamBuffered
  rw [x.run_bind, x.run_pure]
  exact ends_beside_iff.1 hend

end RpcSchema.Emission
