/-
  RpcSchema.Proofs.Proto.Refusal
  ──────────────────────────────
  **A STREAM ENDS WITH THE FIRST WRITE THAT IS REFUSED.**

  A sink that takes a write as a whole or leaves what it holds as it is may
  refuse any write and take later ones again.  Streaming to it goes one of
  three ways:

      all taken, flushed     the sink holds the whole text
      all taken, not flushed the answer is why the flush failed
      a write refused        the answer is why the first one was; the sink
                             is left as that refusal left it, so nothing was
                             written or flushed after it, and it holds the
                             writes before it, which begin the text

  `run_taken` and `run_after_failure` follow the writes one by one: those
  that are taken, and those that are dropped once one was refused.

  Main statement: `stream_until_refused`.
-/
import RpcSchema.Proofs.Proto.Streaming
import RpcSchema.Proto.Layout

namespace RpcSchema.Emission

variable {m : Type → Type} [Monad m] {σ ε : Type} {x : Execution m σ} {sink : Sink m ε}
  {held : σ → ByteArray}

/-! ## §1. Sinks, and the writes they take. -/

/-- A sink takes a text as a whole, behind what it holds, or refuses it and holds what it held. -/
structure Atomic (x : Execution m σ) (sink : Sink m ε) (held : σ → ByteArray) : Prop where
  taken : ∀ {text : String} {s s' : σ}, x.run (sink.write text) s = (.ok (), s') →
    held s' = held s ++ text.toByteArray
  refused : ∀ {text : String} {s s' : σ} {e : ε}, x.run (sink.write text) s = (.error e, s') →
    held s' = held s
  flushed : ∀ {s s' : σ}, x.run sink.flush s = (.ok (), s') → held s' = held s

/-- The sink takes some texts, one after the other. -/
inductive Takes (x : Execution m σ) (sink : Sink m ε) : σ → List String → σ → Prop
  | nil (s : σ) : Takes x sink s [] s
  | cons {s s' s'' : σ} {text : String} {texts : List String} :
    x.run (sink.write text) s = (.ok (), s') → Takes x sink s' texts s'' →
      Takes x sink s (text :: texts) s''

/-- The sink refuses a text, and took those before it. -/
def Refuses (x : Execution m σ) (sink : Sink m ε) (s : σ) (front : List String) (text : String)
    (e : ε) (s' : σ) : Prop :=
  ∃ before, Takes x sink s front before ∧ x.run (sink.write text) before = (.error e, s')

/-- A sink that takes some texts holds them behind what it held. -/
theorem Atomic.takes (h : Atomic x sink held) {s s' : σ} {texts : List String}
    (htakes : Takes x sink s texts s') :
    held s' = held s ++ (String.join texts).toByteArray := by
  induction htakes with
  | nil s => simp
  | cons hwrite _ ih =>
    rw [ih, h.taken hwrite, String.join_cons, String.toByteArray_append, ByteArray.append_assoc]

/-- **Either all texts are taken, or there is a first one that is refused.** -/
theorem takes_or_refuses (x : Execution m σ) (sink : Sink m ε) (texts : List String) (s : σ) :
    (∃ s', Takes x sink s texts s') ∨
      ∃ front text back e s', texts = front ++ text :: back ∧ Refuses x sink s front text e s' := by
  -- on the texts, from whatever the sink holds by then
  induction texts generalizing s with
  | nil => exact Or.inl ⟨s, .nil s⟩
  | cons text texts ih =>
    cases hwrite : x.run (sink.write text) s with
    | mk answer s' =>
      cases answer with
      | error e =>
        -- refused here: nothing before it, all the rest unwritten
        exact Or.inr ⟨[], text, texts, e, s', rfl, ⟨s, .nil s, hwrite⟩⟩
      | ok u =>
        rcases ih s' with ⟨s'', htakes⟩ | ⟨front, w, back, e, s'', rfl, ⟨before, htakes, hrefused⟩⟩
        · exact Or.inl ⟨s'', .cons hwrite htakes⟩
        · exact Or.inr
            ⟨text :: front, w, back, e, s'', rfl, ⟨before, .cons hwrite htakes, hrefused⟩⟩

/-! ## §2. The writes of a stream. -/

/-- A write that is taken leaves no failure. -/
theorem run_write_taken {text : String} {s s' : σ}
    (h : x.run (sink.write text) s = (.ok (), s')) :
    x.run (writeUnlessFailed sink none text) s = (none, s') := by
  show x.run (sink.write text >>= _) s = _
  rw [x.run_bind, h]
  exact x.run_pure _ _

/-- A write that is refused leaves its failure. -/
theorem run_write_refused {text : String} {s s' : σ} {e : ε}
    (h : x.run (sink.write text) s = (.error e, s')) :
    x.run (writeUnlessFailed sink none text) s = (some e, s') := by
  show x.run (sink.write text >>= _) s = _
  rw [x.run_bind, h]
  exact x.run_pure _ _

/-- Once a write was refused the sink is left alone. -/
theorem run_after_failure (texts : List String) (e : ε) (s : σ) :
    x.run (texts.foldlM (writeUnlessFailed sink) (some e)) s = (some e, s) := by
  induction texts with
  | nil => exact x.run_pure _ _
  | cons text texts ih =>
    have hdropped : x.run (writeUnlessFailed sink (some e) text) s = (some e, s) := x.run_pure _ _
    rw [List.foldlM_cons, x.run_bind, hdropped]
    exact ih

/-- Writes that are all taken leave no failure. -/
theorem run_taken {s s' : σ} {texts : List String} (h : Takes x sink s texts s') :
    x.run (texts.foldlM (writeUnlessFailed sink) none) s = (none, s') := by
  induction h with
  | nil s => exact x.run_pure _ _
  | cons hwrite _ ih =>
    rw [List.foldlM_cons, x.run_bind, run_write_taken hwrite]
    exact ih

/-- The first write that is refused is the last one that is made. -/
theorem run_refused {s s' : σ} {front back : List String} {text : String} {e : ε}
    (h : Refuses x sink s front text e s') :
    x.run ((front ++ text :: back).foldlM (writeUnlessFailed sink) none) s = (some e, s') := by
  obtain ⟨before, htakes, hrefused⟩ := h
  induction htakes with
  | nil s =>
    -- the writes behind the refused one do not reach the sink
    rw [List.nil_append, List.foldlM_cons, x.run_bind, run_write_refused hrefused]
    exact run_after_failure back e s'
  | cons hwrite _ ih =>
    rw [List.cons_append, List.foldlM_cons, x.run_bind, run_write_taken hwrite]
    exact ih hrefused

/-! ## §3. Streams. -/

/-- A stream whose writes are taken ends with the flush. -/
theorem run_stream_of_takes {steps : List Step} {s s' : σ}
    (h : Takes x sink s (writes steps) s') :
    x.run (stream sink steps) s = x.run sink.flush s' := by
  unfold stream
  rw [x.run_bind, run_taken h]

/-- A stream with a write that is refused ends without one. -/
theorem run_stream_of_refuses {steps : List Step} {s s' : σ} {front back : List String}
    {text : String} {e : ε} (hwrites : writes steps = front ++ text :: back)
    (h : Refuses x sink s front text e s') :
    x.run (stream sink steps) s = (.error e, s') := by
  unfold stream
  rw [x.run_bind, hwrites, run_refused h]
  exact x.run_pure _ _

/-- A stream that ends well leaves the whole text behind what the sink held. -/
theorem Atomic.stream (h : Atomic x sink held) {steps : List Step} {s s' : σ}
    (hrun : x.run (stream sink steps) s = (.ok (), s')) :
    held s' = held s ++ (text steps).toByteArray := by
  rcases takes_or_refuses x sink (writes steps) s with
    ⟨before, htakes⟩ | ⟨front, w, back, e, after, hwrites, hrefuses⟩
  · rw [run_stream_of_takes htakes] at hrun
    rw [h.flushed hrun, h.takes htakes, join_writes]
  · rw [run_stream_of_refuses hwrites hrefuses] at hrun
    cases hrun

/-! ## §4. The law of streams. -/

/-- **Streaming is writing the text of the steps, up to the first write that is refused.**  The
state of the sink is the one its last write or flush left, so nothing is written or flushed after a
refusal, whatever would have fitted.  A schema reaches the sink as its text, however that is cut
into steps. -/
theorem stream_until_refused (h : Atomic x sink held) (s : σ) :
    (∀ (steps : List Step) (full : σ), Takes x sink s (writes steps) full →
      (∀ s', x.run sink.flush full = (.ok (), s') → x.run (stream sink steps) s = (.ok (), s') ∧
        held s' = held s ++ (text steps).toByteArray) ∧
      (∀ e s', x.run sink.flush full = (.error e, s') →
        x.run (stream sink steps) s = (.error e, s'))) ∧
    (∀ (steps : List Step) (front back : List String) (w : String) (e : ε) (s' : σ),
      writes steps = front ++ w :: back → Refuses x sink s front w e s' →
      x.run (stream sink steps) s = (.error e, s') ∧
        held s' = held s ++ (String.join front).toByteArray ∧
        ∃ rest, text steps = String.join front ++ rest) ∧
    (∀ steps : List Step, (∃ full, Takes x sink s (writes steps) full) ∨
      ∃ front w back e s', writes steps = front ++ w :: back ∧ Refuses x sink s front w e s') ∧
    (∀ schema : Schema, text schema.document.steps = schema.text ∧
      ∀ (steps : List Step) (s' : σ), text steps = schema.text →
        x.run (stream sink steps) s = (.ok (), s') →
        held s' = held s ++ schema.text.toByteArray) := by
  refine ⟨?_, ?_, fun steps => takes_or_refuses x sink (writes steps) s, ?_⟩
  · -- every write is taken, so only the flush is left to fail
    intro steps full htakes
    rw [run_stream_of_takes htakes]
    refine ⟨fun s' hflush => ⟨hflush, ?_⟩, fun e s' hflush => hflush⟩
    rw [h.flushed hflush, h.takes htakes, join_writes]
  · -- a refused write ends the run; the sink keeps what came before it
    intro steps front back w e s' hwrites hrefuses
    obtain ⟨before, htakes, hrefused⟩ := hrefuses
    refine ⟨run_stream_of_refuses hwrites ⟨before, htakes, hrefused⟩, ?_, ?_⟩
    · rw [h.refused hrefused, h.takes htakes]
    · -- what was kept is a prefix, as writes join to the text
      refine ⟨String.join (w :: back), ?_⟩
      rw [← join_writes, hwrites, String.join_append]
  · -- however the text is cut into steps
    intro schema
    refine ⟨rfl, fun steps s' htext hrun => ?_⟩
    rw [h.stream hrun, htext]

/-- A sink with a limit takes a text as a whole or refuses it. -/
theorem atomic_limitedSink (budget : Option Nat) (flushFails : Bool) :
    Atomic (Execution.state String) (limitedSink budget flushFails) String.toByteArray where
  taken := by
    intro text s s' hrun
    have hrun : (if fits budget s text then ((.ok (), s ++ text) : Except SinkFault Unit × String)
      else (.error (.full text.utf8ByteSize), s)) = (.ok (), s') := hrun
    -- the budget either covers the whole text or none of it
    split at hrun
    · cases hrun
      exact String.toByteArray_append
    · cases hrun
  refused := by
    intro text s s' e hrun
    have hrun : (if fits budget s text then ((.ok (), s ++ text) : Except SinkFault Unit × String)
      else (.error (.full text.utf8ByteSize), s)) = (.error e, s') := hrun
    split at hrun
    · cases hrun
    · cases hrun
      rfl
  flushed := by
    intro s s' hrun
    have hrun : ((if flushFails then .error .flush else .ok (), s) : Except SinkFault Unit × String)
      = (.ok (), s') := hrun
    rw [(Prod.mk.inj hrun).2]

/-- A sink of ten bytes takes a line of nine and not the word after it, although the last line end
would have fitted; an unlimited one takes both lines. -/
theorem stream_until_refused_ten :
    let steps := [.indent 2, .emit "desk", .newline, .emit "lamp", .newline]
    writes steps = ["  ", "  ", "desk", "\n"] ++ "lamp" :: ["\n"] ∧
      Atomic (Execution.state String) (limitedSink (some 10) false) String.toByteArray ∧
      Refuses (Execution.state String) (limitedSink (some 10) false) "" ["  ", "  ", "desk", "\n"]
        "lamp" (.full 4) "    desk\n" ∧
      (stream (limitedSink (some 10) false) steps).run "" = (.error (.full 4), "    desk\n") ∧
      (∃ rest, text steps = String.join ["  ", "  ", "desk", "\n"] ++ rest) ∧
      Takes (Execution.state String) (limitedSink none false) "" (writes steps)
        "    desk\nlamp\n" ∧
      (stream (limitedSink none false) steps).run "" = (.ok (), "    desk\nlamp\n") ∧
      (limitedSink none false).flush.run "    desk\nlamp\n" = (.ok (), "    desk\nlamp\n") := by
  intro steps
  have hwrites : writes steps = ["  ", "  ", "desk", "\n"] ++ "lamp" :: ["\n"] := by decide
  have hatomic := atomic_limitedSink (some 10) false
  -- two indents, the word and the line end are eight bytes of ten
  have hrefuses : Refuses (Execution.state String) (limitedSink (some 10) false) ""
      ["  ", "  ", "desk", "\n"] "lamp" (.full 4) "    desk\n" :=
    ⟨_, .cons rfl (.cons rfl (.cons rfl (.cons rfl (.nil _)))), rfl⟩
  have htakes : Takes (Execution.state String) (limitedSink none false) "" (writes steps)
      "    desk\nlamp\n" := by
    rw [hwrites]
    exact .cons rfl (.cons rfl (.cons rfl (.cons rfl (.cons rfl (.cons rfl (.nil _))))))
  have hfull := (stream_until_refused (atomic_limitedSink none false) "").1 steps _ htakes
  have hends := (stream_until_refused hatomic "").2.1 steps _ _ _ _ _ hwrites hrefuses
  exact ⟨hwrites, hatomic, hrefuses, hends.1, hends.2.2, htakes, (hfull.1 _ rfl).1, rfl⟩

end RpcSchema.Emission
