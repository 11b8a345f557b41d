import ComputeArmada.Adapter.Exchange
import ComputeArmada.Lib.Run

/-!
# What a stream and a run let go of

`AgentChannel.stream` and `AgentChannel.run` while their request is open: chunks arrive, timers fire and the consumer
reads and cancels in any order.

* `Streaming` : a stream with its timer and its request; `Streaming.step` : its moves;
* `LetGo` : the timer is not set any more, and the request is over; `Released` : so it is, where the stream has
  finished;
* `taken` : what `pull` makes of a value; `Safe` : steps that do not end the stream with a value while something
  is held, `step_released` : no other step does harm;
* `Collecting` : a run, with its guard and its request;
* `stream_released` : both of them, over all their runs.
-/

namespace ComputeArmada.Adapter
open Streams Runs

inductive Timer
  | unset
  | pending
  | fired
  | cleared
  deriving DecidableEq

/-- `clearTimeout(timer)`. -/
def Timer.clear : Timer → Timer
  | .pending => .cleared
  | timer => timer

theorem Timer.clear_ne (timer : Timer) : timer.clear ≠ .pending := by
  cases timer <;> decide

/-- `setTimeout`, where there is a timeout. -/
def Timer.start (timeoutMs : Option Nat) : Timer := if timeoutMs.isSome then .pending else .unset

/-! ## A stream -/

/-- What `pull` makes of a value. -/
inductive Taken
  /-- It throws, and the stream is errored for it. -/
  | thrown (cause : JsError)
  | reported (text : JsonValue)
  | skipped
  | bytes (bytes : List UInt8)

def taken (engine : Engine) (value : JsonValue) : Taken :=
  match asEvent value with
  | .error cause => .thrown cause
  | .ok event =>
    match event.get? "error" with
    | some text => .reported text
    | none =>
      match event.get? "stdout" with
      | none => .skipped
      | some text =>
        match engine.base64Bytes text with
        | .error cause => .thrown cause
        | .ok bytes => .bytes bytes

/-- The stream that `AgentChannel.stream` has returned. -/
structure Streaming where
  events : Events
  timer : Timer
  output : Readable (List UInt8) JsError
  /-- The chunks that the consumer has. -/
  consumed : List (List UInt8)

inductive StreamAct
  | agent (move : AgentMove)
  /-- What the generator awaits has come. -/
  | advance
  /-- The platform calls `pull`. -/
  | pull
  /-- `pull` goes on with what `events.next()` has come to. -/
  | resume
  /-- The consumer takes a chunk. -/
  | read
  | cancel
  | fire

/-- What `enqueue` throws. -/
def enqueueError : JsError := { name := "TypeError", message := "Invalid state: Controller is already closed" }

namespace Streaming
variable (engine : Engine) (endpoint : AgentEndpoint) (command : List String)

def start (timeoutMs : Option Nat) : Streaming :=
  { events := { exchange := .answered, asked := .idle }, timer := .start timeoutMs, output := .empty, consumed := [] }

/-- `pull` returns. -/
def idle (s : Streaming) : Streaming := { s with events := { s.events with asked := .idle } }

/-- `pull` at the end of the events. -/
def ended (s : Streaming) : Streaming :=
  { s with timer := s.timer.clear, output := s.output.close.getD s.output }

def onValue (s : Streaming) (value : JsonValue) : Streaming :=
  match taken engine value with
  | .thrown cause => { s with output := s.output.fail cause }.idle
  | .reported text =>
    { s with timer := s.timer.clear
             output := s.output.fail (AgentChannel.failure endpoint (runWhat command) (error (engine.text text))) }.idle
  | .skipped => { s with events := s.events.ask engine }
  | .bytes bytes =>
    match s.output.enqueue bytes with
    | some output => { s with output }.idle
    | none => { s with output := s.output.fail enqueueError }.idle

/-- `pull` after `await events.next()`. -/
def resume (s : Streaming) : Next → Streaming
  | .threw cause =>
    -- The abort was its own, so this is an ending, not a failure.
    if s.events.exchange.aborted then s.ended.idle
    else { s with timer := s.timer.clear
                  output := s.output.fail (AgentChannel.failure endpoint (runWhat command) cause) }.idle
  | .done => s.ended.idle
  | .value value => s.onValue engine endpoint command value

def cancel (s : Streaming) : Streaming :=
  { s with events := s.events.abort, timer := s.timer.clear, output := s.output.cancel }

/-- What the consumer has after a read. -/
def consume (s : Streaming) : Got (List UInt8) JsError × Readable (List UInt8) JsError → Streaming
  | (.chunk bytes, output) => { s with output, consumed := s.consumed ++ [bytes] }
  | (.done, output) | (.failed _, output) => { s with output }

def step (s : Streaming) : StreamAct → Option Streaming
  | .agent move => (s.events.agent move).map fun events => { s with events }
  | .advance => (s.events.advance engine).map fun events => { s with events }
  | .pull =>
    match s.events.asked with
    | .idle => if s.output.accepts ∧ s.output.queue.isEmpty then some { s with events := s.events.ask engine } else none
    | _ => none
  | .resume =>
    match s.events.asked with
    | .came next => some (s.resume engine endpoint command next)
    | _ => none
  | .read => s.output.read.map s.consume
  | .cancel =>
    -- Of a stream that has finished it does nothing.
    match s.output.standing with
    | .readable => some s.cancel
    | _ => some s
  | .fire => if s.timer = .pending then some { s with timer := .fired, events := s.events.abort } else none

/-! ### What it lets go of -/

/-- The timer is not set any more, and the request is over. -/
def LetGo (s : Streaming) : Prop := s.timer ≠ .pending ∧ s.events.exchange.Over

instance (s : Streaming) : Decidable s.LetGo := inferInstanceAs (Decidable (_ ∧ _))

/-- A stream that has closed, errored or been cancelled has let go of its command. -/
def Released (s : Streaming) : Prop := s.output.Finished → s.LetGo

instance (s : Streaming) : Decidable s.Released := inferInstanceAs (Decidable (_ → _))

/-- `pull` ends no stream with a value that holds more than it lets go of then. -/
def Bears (s : Streaming) : Taken → Prop
  | .thrown _ => s.output.Finished ∨ s.LetGo
  | .reported _ => s.output.Finished ∨ s.events.exchange.Over
  | .skipped | .bytes _ => True

instance (s : Streaming) : (taken : Taken) → Decidable (s.Bears taken)
  | .thrown _ | .reported _ => inferInstanceAs (Decidable (_ ∨ _))
  | .skipped | .bytes _ => isTrue trivial

/-- A step in which no value does harm. -/
def Safe (s : Streaming) (a : StreamAct) : Prop :=
  a = .resume → ∀ value, s.events.asked = .came (.value value) → s.Bears (taken engine value)

instance (s : Streaming) (a : StreamAct) : Decidable (s.Safe engine a) :=
  match a with
  | .resume =>
    match hasked : s.events.asked with
    | .came (.value value) =>
      decidable_of_iff (s.Bears (taken engine value)) ⟨fun h _ _ hvalue => by
        cases hasked.symm.trans hvalue
        exact h, fun h => h rfl value hasked⟩
    | .idle | .waiting | .came .done | .came (.threw _) =>
      isTrue fun _ _ hvalue => nomatch hasked.symm.trans hvalue
  | .agent _ | .advance | .pull | .read | .cancel | .fire => isTrue fun h => nomatch h

/-- What every step keeps: the events do, and a stream is to be closed only when it has let go. -/
structure Kept (s : Streaming) : Prop where
  events : s.events.Kept
  closing : s.output.closing = true → s.LetGo

section
variable {engine : Engine} {endpoint : AgentEndpoint} {command : List String} {s t : Streaming}

theorem LetGo.later (h : s.LetGo) (htimer : s.timer ≠ .pending → t.timer ≠ .pending)
    (hlater : s.events.exchange.Later t.events.exchange) : t.LetGo := ⟨htimer h.1, hlater.over h.2⟩

theorem letGo_ended (h : s.events.exchange.Over) : s.ended.idle.LetGo := ⟨s.timer.clear_ne, h⟩

/-- What a step makes of a stream that keeps to it: it keeps to it, it lets go of no less, and it ends the stream
where it lets go, if it is safe. -/
structure Steps (engine : Engine) (s : Streaming) (a : StreamAct) (t : Streaming) : Prop where
  kept : t.Kept
  letGo : s.LetGo → t.LetGo
  released : s.Released → (t.Released ↔ s.Safe engine a)

theorem Steps.of_output {a : StreamAct} (hs : s.Kept) (hevents : t.events.Kept)
    (hlater : s.events.exchange.Later t.events.exchange) (htimer : s.timer ≠ .pending → t.timer ≠ .pending)
    (hclosing : t.output.closing = s.output.closing)
    (hfinished : t.output.Finished → s.output.Finished ∨ s.output.closing = true) (hsafe : s.Safe engine a) :
    Steps engine s a t where
  kept := ⟨hevents, fun h => (hs.closing (hclosing ▸ h)).later htimer hlater⟩
  letGo h := h.later htimer hlater
  released hreleased := by
    refine ⟨fun _ => hsafe, fun _ h => LetGo.later ?_ htimer hlater⟩
    rcases hfinished h with hfinished | hclosing
    · exact hreleased hfinished
    · exact hs.closing hclosing

theorem Steps.of_letGo {a : StreamAct} (hevents : t.events.Kept) (ht : t.LetGo) (hsafe : s.Safe engine a) :
    Steps engine s a t where
  kept := ⟨hevents, fun _ => ht⟩
  letGo _ := ht
  released _ := ⟨fun _ => hsafe, fun _ _ => ht⟩

theorem safe_value {value : JsonValue} (hcame : s.events.asked = .came (.value value)) :
    s.Safe engine .resume ↔ s.Bears (taken engine value) := by
  constructor
  · intro h
    exact h rfl value hcame
  · rintro h - value' hvalue
    cases hcame.symm.trans hvalue
    exact h

theorem steps_onValue {value : JsonValue} (hs : s.Kept) (hcame : s.events.asked = .came (.value value)) :
    Steps engine s .resume (s.onValue engine endpoint command value) := by
  unfold onValue
  cases htaken : taken engine value with
  | thrown cause =>
    have hfinished := Readable.finished_fail s.output cause
    refine ⟨⟨Events.kept_idle hs.events, fun h => ?_⟩, id, fun hreleased => ?_⟩
    · exact hs.closing ((Readable.closing_fail s.output cause).symm.trans h)
    · rw [safe_value hcame, htaken]
      constructor
      · intro h
        exact .inr (h hfinished)
      · rintro (h | h) -
        · exact hreleased h
        · exact h
  | reported text =>
    have hfinished := Readable.finished_fail s.output
      (AgentChannel.failure endpoint (runWhat command) (error (engine.text text)))
    refine ⟨⟨Events.kept_idle hs.events, fun h => ?_⟩, fun h => ⟨s.timer.clear_ne, h.2⟩, fun hreleased => ?_⟩
    · exact ⟨s.timer.clear_ne, (hs.closing ((Readable.closing_fail s.output _).symm.trans h)).2⟩
    · rw [safe_value hcame, htaken]
      constructor
      · intro h
        exact .inr (h hfinished).2
      · rintro (h | h) -
        · exact ⟨s.timer.clear_ne, (hreleased h).2⟩
        · exact ⟨s.timer.clear_ne, h⟩
  | skipped =>
    obtain ⟨hkept, hlater⟩ := hs.events.ask engine
    exact .of_output hs hkept hlater id rfl .inl ((safe_value hcame).mpr (by rw [htaken]; trivial))
  | bytes bytes =>
    have hsafe : s.Safe engine .resume := (safe_value hcame).mpr (by rw [htaken]; trivial)
    dsimp only
    cases houtput : s.output.enqueue bytes with
    | some output =>
      obtain rfl := Readable.of_enqueue houtput
      exact .of_output hs (Events.kept_idle hs.events) (.refl _) id rfl .inl hsafe
    | none =>
      refine .of_output hs (Events.kept_idle hs.events) (.refl _) id (Readable.closing_fail s.output _) ?_ hsafe
      exact fun _ => Readable.enqueue_eq_none houtput

/-- **A step ends no stream that holds something, unless it is not safe; and then it does.** -/
theorem step_released {a : StreamAct} (hs : s.Kept) (h : s.step engine endpoint command a = some t) :
    Steps engine s a t := by
  cases a with
  | agent move =>
    obtain ⟨events, hevents, rfl⟩ := Option.map_eq_some_iff.mp h
    obtain ⟨hkept, hlater⟩ := Events.kept_agent hs.events hevents
    exact .of_output hs hkept hlater id rfl .inl fun h => (nomatch h)
  | advance =>
    obtain ⟨events, hevents, rfl⟩ := Option.map_eq_some_iff.mp h
    obtain ⟨hkept, hlater⟩ := Events.kept_advance hs.events hevents
    exact .of_output hs hkept hlater id rfl .inl fun h => (nomatch h)
  | pull =>
    unfold step at h
    dsimp only at h
    split at h
    · split at h
      · cases h
        obtain ⟨hkept, hlater⟩ := hs.events.ask engine
        exact .of_output hs hkept hlater id rfl .inl fun h => (nomatch h)
      · cases h
    · cases h
  | resume =>
    unfold step at h
    dsimp only at h
    split at h
    · rename_i next hcame
      cases h
      have hsafe : (∀ value, next ≠ .value value) → s.Safe engine .resume := by
        rintro hnext - value hvalue
        exact absurd (Asked.came.inj (hcame.symm.trans hvalue)) (hnext value)
      cases next with
      | value value => exact steps_onValue hs hcame
      | done =>
        have hover : s.events.exchange.Over := .inr (.inl (hs.events.done hcame))
        exact .of_letGo (Events.kept_idle hs.events) (letGo_ended hover) (hsafe fun _ h => nomatch h)
      | threw cause =>
        have hover : s.events.exchange.Over := .inr (.inl (hs.events.threw cause hcame))
        unfold resume
        dsimp only
        split
        · exact .of_letGo (Events.kept_idle hs.events) (letGo_ended hover) (hsafe fun _ h => nomatch h)
        · exact .of_letGo (Events.kept_idle hs.events) ⟨s.timer.clear_ne, hover⟩ (hsafe fun _ h => nomatch h)
    · cases h
  | read =>
    obtain ⟨⟨got, output⟩, hread, rfl⟩ := Option.map_eq_some_iff.mp h
    obtain ⟨hclosing, hfinished⟩ := Readable.of_read hread
    cases got with
    | chunk bytes => exact .of_output hs hs.events (.refl _) id hclosing hfinished fun h => (nomatch h)
    | done => exact .of_output hs hs.events (.refl _) id hclosing hfinished fun h => (nomatch h)
    | failed cause => exact .of_output hs hs.events (.refl _) id hclosing hfinished fun h => (nomatch h)
  | cancel =>
    unfold step at h
    dsimp only at h
    split at h
    · cases h
      exact .of_letGo (Events.kept_abort hs.events) ⟨s.timer.clear_ne, .inl rfl⟩ fun h => (nomatch h)
    · cases h
      exact .of_output hs hs.events (.refl _) id rfl .inl fun h => (nomatch h)
  | fire =>
    unfold step at h
    dsimp only at h
    split at h
    · cases h
      exact .of_output hs (Events.kept_abort hs.events) (Exchange.later_abort _) (fun _ h => nomatch h) rfl .inl
        fun h => (nomatch h)
    · cases h

end

end Streaming

/-! ## A run -/

namespace AgentChannel

/-- What `run` makes of what it has read. -/
def outcome (endpoint : AgentEndpoint) (command : List String) (timeoutMs : Option Nat) :
    Except JsError Read → Except JsError CommandResult
  | .error cause => .error (failure endpoint (runWhat command) cause)
  | .ok read =>
    match read.exit with
    | none => .error (failure endpoint (runWhat command) (error "the response ended without an exit status"))
    | some event =>
      if booleanOf event "timedOut" = some true then
        .error { name := "CommandTimeoutError"
                 message := "Command timed out after " ++ (timeoutMs.map toString).getD "undefined" ++ "ms in " ++
                   place endpoint ++ ": " ++ programOf command }
      else .ok { stdout := utf8Text read.out, stderr := utf8Text read.err, exitCode := (event.get? "exit").getD .null }

theorem run_eq (engine : Engine) (endpoint : AgentEndpoint) (command : List String) (timeoutMs : Option Nat)
    (fetched : Fetched) : run engine endpoint command timeoutMs fetched =
      outcome endpoint command timeoutMs (do readEvents engine (← bodyOf (← exec engine fetched))) := rfl

end AgentChannel

/-- Where `run` is with its response: in the loop over the events, leaving it with an error, or through. -/
inductive Collection
  | looping
  | leaving (cause : JsError)
  | settled (result : Except JsError CommandResult)

structure Collecting where
  events : Events
  guard : Timer
  read : AgentChannel.Read
  collection : Collection

inductive RunAct
  | agent (move : AgentMove)
  /-- What the generator awaits has come. -/
  | advance
  /-- The loop goes on with what `events.next()` has come to. -/
  | resume
  | fire

namespace Collecting
variable (engine : Engine) (endpoint : AgentEndpoint) (command : List String) (timeoutMs : Option Nat)

def start : Collecting :=
  { events := Events.ask engine { exchange := .answered, asked := .idle }, guard := .start timeoutMs
    read := { out := [], err := [], exit := none }, collection := .looping }

/-- The `finally` of `run`, and what comes after it. -/
def settle (s : Collecting) (read : Except JsError AgentChannel.Read) : Collecting :=
  { s with guard := s.guard.clear
           collection := .settled (AgentChannel.outcome endpoint command timeoutMs read) }

def resume (s : Collecting) : Next → Collecting
  | .done => s.settle endpoint command timeoutMs (.ok s.read)
  | .threw cause => s.settle endpoint command timeoutMs (.error cause)
  | .value value =>
    match AgentChannel.onEvent engine s.read value with
    | .ok read => { s with events := s.events.ask engine, read }
    | .error cause => { s with events := s.events.leave, collection := .leaving cause }

def step (s : Collecting) : RunAct → Option Collecting
  | .agent move => (s.events.agent move).map fun events => { s with events }
  | .advance =>
    match s.collection with
    | .looping => (s.events.advance engine).map fun events => { s with events }
    | .leaving cause => (s.events.advance engine).map fun events =>
        { s with events }.settle endpoint command timeoutMs (.error cause)
    | .settled _ => none
  | .resume =>
    match s.collection, s.events.asked with
    | .looping, .came next => some (s.resume engine endpoint command timeoutMs next)
    | _, _ => none
  | .fire => if s.guard = .pending then some { s with guard := .fired, events := s.events.abort } else none

/-- What every step keeps: the events do, a run that leaves its loop has cancelled the body, and so has one that is
through. -/
structure Kept (s : Collecting) : Prop where
  events : s.events.Kept
  leaving : ∀ cause, s.collection = .leaving cause → s.events.exchange.cancelled = true
  settled : ∀ result, s.collection = .settled result → s.guard ≠ .pending ∧ s.events.exchange.cancelled = true

section
variable {engine : Engine} {endpoint : AgentEndpoint} {command : List String} {timeoutMs : Option Nat}
  {s t : Collecting}

theorem kept_settle (hevents : s.events.Kept) (hcancelled : s.events.exchange.cancelled = true)
    (read : Except JsError AgentChannel.Read) : (s.settle endpoint command timeoutMs read).Kept :=
  ⟨hevents, fun _ h => (nomatch h), fun _ _ => ⟨s.guard.clear_ne, hcancelled⟩⟩

theorem Kept.later (h : s.Kept) (hevents : t.events.Kept) (hlater : s.events.exchange.Later t.events.exchange)
    (hguard : s.guard ≠ .pending → t.guard ≠ .pending) (hcollection : t.collection = s.collection) : t.Kept where
  events := hevents
  leaving cause hleaving := hlater.cancelled (h.leaving cause (hcollection ▸ hleaving))
  settled result hsettled := by
    obtain ⟨hset, hcancelled⟩ := h.settled result (hcollection ▸ hsettled)
    exact ⟨hguard hset, hlater.cancelled hcancelled⟩

theorem step_kept {a : RunAct} (hs : s.Kept) (h : s.step engine endpoint command timeoutMs a = some t) : t.Kept := by
  cases a with
  | agent move =>
    obtain ⟨events, hevents, rfl⟩ := Option.map_eq_some_iff.mp h
    obtain ⟨hkept, hlater⟩ := Events.kept_agent hs.events hevents
    exact hs.later hkept hlater id rfl
  | advance =>
    unfold step at h
    dsimp only at h
    split at h
    · obtain ⟨events, hevents, rfl⟩ := Option.map_eq_some_iff.mp h
      obtain ⟨hkept, hlater⟩ := Events.kept_advance hs.events hevents
      exact hs.later hkept hlater id rfl
    · rename_i cause hleaving
      obtain ⟨events, hevents, rfl⟩ := Option.map_eq_some_iff.mp h
      obtain ⟨hkept, hlater⟩ := Events.kept_advance hs.events hevents
      exact kept_settle hkept (hlater.cancelled (hs.leaving cause hleaving)) _
    · cases h
  | resume =>
    unfold step at h
    dsimp only at h
    split at h
    · rename_i next hlooping hcame
      cases h
      cases next with
      | done => exact kept_settle hs.events (hs.events.done hcame) _
      | threw cause => exact kept_settle hs.events (hs.events.threw cause hcame) _
      | value value =>
        unfold resume
        dsimp only
        split
        · obtain ⟨hkept, -⟩ := hs.events.ask engine
          exact ⟨hkept, fun _ h => (nomatch hlooping.symm.trans h), fun _ h => (nomatch hlooping.symm.trans h)⟩
        · obtain ⟨hkept, hcancelled⟩ := Events.kept_leave (hs.events.yielding value hcame)
          exact ⟨hkept, fun _ _ => hcancelled, fun _ h => nomatch h⟩
    · cases h
  | fire =>
    unfold step at h
    dsimp only at h
    split at h
    · cases h
      exact hs.later (Events.kept_abort hs.events) (Exchange.later_abort _) (fun _ h => nomatch h) rfl
    · cases h

end

end Collecting

/-! ## Over all runs -/

theorem Streaming.kept_start (timeoutMs : Option Nat) : (Streaming.start timeoutMs).Kept where
  events := ⟨trivial, fun _ h => (nomatch h), fun h => (nomatch h), fun _ h => (nomatch h)⟩
  closing h := nomatch h

theorem Collecting.kept_start (engine : Engine) (timeoutMs : Option Nat) :
    (Collecting.start engine timeoutMs).Kept where
  events := ⟨trivial, fun _ h => (nomatch h), fun h => (nomatch h), fun _ h => (nomatch h)⟩
  leaving _ h := nomatch h
  settled _ h := nomatch h

/-- **In a run of safe steps a stream that has finished has let go of its command**, and no step that is not safe
leaves it so; a run that has settled always has. -/
theorem stream_released (engine : Engine) (endpoint : AgentEndpoint) (command : List String) (timeoutMs : Option Nat) :
    (∀ t, Run (Fires (Streaming.step engine endpoint command)) (Streaming.Safe engine) (.start timeoutMs) t →
      t.Released) ∧
    (∀ s a t, Run (Fires (Streaming.step engine endpoint command)) Any (.start timeoutMs) s →
      s.step engine endpoint command a = some t → s.Released → (t.Released ↔ s.Safe engine a)) ∧
    ∀ t result, Run (Fires (Collecting.step engine endpoint command timeoutMs)) Any (.start engine timeoutMs) t →
      t.collection = .settled result → t.events.exchange.Over := by
  refine ⟨fun t hrun => ?_, fun s a t hrun hstep hreleased => ?_, fun t result hrun hsettled => ?_⟩
  · refine hrun.inv_of Streaming.Kept Streaming.Released ?_ ?_ (Streaming.kept_start timeoutMs) ?_
    · intro s a t hs _ hstep
      exact (Streaming.step_released hs hstep).kept
    · intro s a t hs hreleased hsafe hstep
      exact ((Streaming.step_released hs hstep).released hreleased).mpr hsafe
    · intro h
      exact absurd rfl h
  · have hs : s.Kept := hrun.inv Streaming.Kept (fun s a t hs _ hstep => (Streaming.step_released hs hstep).kept)
      (Streaming.kept_start timeoutMs)
    exact (Streaming.step_released hs hstep).released hreleased
  · have ht : t.Kept := hrun.inv Collecting.Kept (fun s a t hs _ hstep => Collecting.step_kept hs hstep)
      (Collecting.kept_start engine timeoutMs)
    exact .inr (.inl (ht.settled result hsettled).2)

def soleAgent : AgentEndpoint :=
  { url := "http://10.0.0.1:30718", token := "t"
    pod := { clusterId := "c", podName := "armada-job-0", podNamespace := "default", nodeName := none } }

/-- A line of ASCII, as it is sent. -/
def lineOf (text : String) : List UInt8 := text.toList.map (fun c => UInt8.ofNat c.toNat) ++ [10]

theorem stream_released_hello :
    (∃ t, Run (Fires (Streaming.step laconic soleAgent ["sh"])) (Streaming.Safe laconic) (.start (some 100)) t ∧
      t.output.Finished ∧ t.LetGo) ∧
    ∃ t result, Run (Fires (Collecting.step laconic soleAgent ["sh"] none)) Any (.start laconic none) t ∧
      t.collection = .settled result ∧ t.events.exchange.Over := by
  obtain ⟨t, hrun, hfinished⟩ := Run.exists_of_exec (Streaming.step laconic soleAgent ["sh"]) (Streaming.Safe laconic)
    (fun t => t.output.Finished) (.start (some 100))
    [.pull, .agent (.receive (lineOf "\x7b\"stdout\":\"aGk=\"\x7d")), .advance, .resume, .read,
     .pull, .agent .finish, .advance, .advance, .resume] (by decide +kernel)
  obtain ⟨t', hrun', hsettled⟩ := Run.exists_of_exec (Collecting.step laconic soleAgent ["sh"] none) Any
    (fun t => (match t.collection with | .settled _ => true | _ => false) = true) (.start laconic none)
    [.agent (.receive (lineOf "\x7b\"exit\":0\x7d")), .advance, .resume, .agent .finish, .advance, .advance, .resume]
    (by decide +kernel)
  refine ⟨⟨t, hrun, hfinished, (stream_released laconic soleAgent ["sh"] (some 100)).1 t hrun hfinished⟩, ?_⟩
  cases hcollection : t'.collection with
  | settled result =>
    exact ⟨t', result, hrun', hcollection, (stream_released laconic soleAgent ["sh"] none).2.2 t' result
      hrun' hcollection⟩
  | looping =>
    rw [hcollection] at hsettled
    cases hsettled
  | leaving cause =>
    rw [hcollection] at hsettled
    cases hsettled

/-- After an error of the agent the stream has errored, and the request that the agent has left open is not over. -/
theorem stream_held : ¬ ∀ (engine : Engine) (endpoint : AgentEndpoint) (command : List String) (timeoutMs : Option Nat)
    (t : Streaming), Run (Fires (Streaming.step engine endpoint command)) Any (.start timeoutMs) t → t.Released := by
  intro h
  obtain ⟨t, hrun, hheld⟩ := Run.exists_of_exec (Streaming.step laconic soleAgent ["sh"]) Any
    (fun t => ¬ t.Released) (.start none)
    [.pull, .agent (.receive (lineOf "\x7b\"error\":\"gone\"\x7d")), .advance, .resume] (by decide +kernel)
  exact hheld (h laconic soleAgent ["sh"] none t hrun)

end ComputeArmada.Adapter
