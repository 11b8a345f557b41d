import ComputeArmada.Adapter.Channel
import ComputeArmada.Lib.Streams

/-!
# A request that is read line by line

`readNdjson` as it runs: a generator over the body of a response that is still arriving, of a request that may be
aborted at any time.

* `Generator` : where it is; `Exchange` : the request, its body, and the generator that reads it;
* `Exchange.next`, `Exchange.advance`, `Exchange.leave` : `events.next()`, what it awaits, and `events.return()`;
* `Exchange.Over` : a request that is aborted, cancelled or read to the end;
* `Exchange.Went` : what a turn of the generator comes to; one that ends has cancelled the body (`went_next`,
  `went_advance`);
* `Events` : the generator and what its consumer knows of it; `Events.Kept` : what each of its steps keeps.
-/

namespace ComputeArmada.Adapter
open Streams

/-- What `events.next()` comes to. -/
inductive Next
  | value (value : JsonValue)
  | done
  | threw (cause : JsError)

inductive Generator
  | start
  /-- It awaits the next chunk. -/
  | reading (decoder : TextDecoder) (buffered : List Char)
  /-- At the `yield` of the loop, with the lines of a chunk still to come. -/
  | paused (decoder : TextDecoder) (lines : List (List Char)) (buffered : List Char)
  /-- At the `yield` after the loop. -/
  | last
  /-- It awaits `reader.cancel()`, in its `finally`. -/
  | closing (outcome : Except JsError Unit)
  | finished

/-- A chunk arrives, the response ends, or the connection breaks. -/
inductive AgentMove
  | receive (bytes : List UInt8)
  | finish
  | breakOff (cause : JsError)

/-- A request that has been answered. -/
structure Exchange where
  body : Readable (List UInt8) JsError
  aborted : Bool
  cancelled : Bool
  readToEnd : Bool
  generator : Generator
  /-- What the generator has read of the body: its chunks so far, and the error that a read has come to. -/
  read : ResponseBody

/-- What reading rejects with when the request has been aborted. -/
def abortError : JsError := { name := "AbortError", message := "This operation was aborted" }

/-- The first line that is not blank, parsed, and the lines after it. -/
def nextLine (engine : Engine) : List (List Char) → Option (Except JsError JsonValue × List (List Char))
  | [] => none
  | line :: lines =>
    let line := Js.trimList line
    if line = [] then nextLine engine lines else some (engine.parse line, lines)

namespace Exchange

def answered : Exchange :=
  { body := .empty, aborted := false, cancelled := false, readToEnd := false, generator := .start
    read := { chunks := [], failure := none } }

/-- The request is over, so that the agent stops its command. -/
def Over (x : Exchange) : Prop := x.aborted = true ∨ x.cancelled = true ∨ x.readToEnd = true

instance (x : Exchange) : Decidable x.Over := inferInstanceAs (Decidable (_ ∨ _ ∨ _))

/-! ## The agent's side -/

/-- What the agent sends, or what becomes of the connection. -/
def agent (x : Exchange) : AgentMove → Option Exchange
  | .receive bytes => (x.body.enqueue bytes).map fun body => { x with body }
  | .finish => x.body.close.map fun body => { x with body }
  | .breakOff cause => some { x with body := x.body.fail cause }

/-! ## The reader's side -/

/-- `controller.abort()`. -/
def abort (x : Exchange) : Exchange := { x with aborted := true, body := x.body.fail abortError }

/-- The `finally` of the generator. -/
def close (x : Exchange) (outcome : Except JsError Unit) : Exchange :=
  { x with body := x.body.cancel, cancelled := true, generator := .closing outcome }

section
variable (engine : Engine)

/-- The loop over the lines of a chunk. -/
def scan (x : Exchange) (decoder : TextDecoder) (lines : List (List Char)) (buffered : List Char) :
    Exchange × Option Next :=
  match nextLine engine lines with
  | none => ({ x with generator := .reading decoder buffered }, none)
  | some (.ok value, lines) => ({ x with generator := .paused decoder lines buffered }, some (.value value))
  | some (.error cause, _) => (x.close (.error cause), none)

/-- What comes after the loop. -/
def rest (x : Exchange) (buffered : List Char) : Exchange × Option Next :=
  match nextLine engine [buffered] with
  | none => (x.close (.ok ()), none)
  | some (.ok value, _) => ({ x with generator := .last }, some (.value value))
  | some (.error cause, _) => (x.close (.error cause), none)

/-- `events.next()`: the generator runs to its next `yield`, or until it awaits. -/
def next (x : Exchange) : Exchange × Option Next :=
  match x.generator with
  | .start => ({ x with generator := .reading .new [] }, none)
  | .paused decoder lines buffered => x.scan engine decoder lines buffered
  | .last => (x.close (.ok ()), none)
  | .finished => (x, some .done)
  | .reading _ _ | .closing _ => (x, none)

/-- The generator goes on with what its read has come to. -/
def goOn (x : Exchange) (decoder : TextDecoder) (buffered : List Char) :
    Got (List UInt8) JsError × Readable (List UInt8) JsError → Exchange × Option Next
  | (.chunk bytes, body) =>
    let (decoder, text) := decoder.decode bytes
    let (lines, buffered) := takeLines (buffered ++ text)
    { x with body, read.chunks := x.read.chunks ++ [bytes] }.scan engine decoder lines buffered
  | (.done, body) => { x with body, readToEnd := true }.rest engine buffered
  | (.failed cause, body) => ({ x with body, read.failure := some cause }.close (.error cause), none)

/-- What the generator awaits has come. -/
def advance (x : Exchange) : Option (Exchange × Option Next) :=
  match x.generator with
  | .reading decoder buffered => x.body.read.map (x.goOn engine decoder buffered)
  | .closing (.ok ()) => some ({ x with generator := .finished }, some .done)
  | .closing (.error cause) => some ({ x with generator := .finished }, some (.threw cause))
  | _ => none

end

/-- `events.return()`, by a consumer that leaves its loop. -/
def leave (x : Exchange) : Exchange :=
  match x.generator with
  | .paused _ _ _ | .last => x.close (.ok ())
  | .start => { x with generator := .finished }
  | _ => x

/-! ## What becomes of a request -/

/-- What is over stays so. -/
structure Later (x x' : Exchange) : Prop where
  aborted : x.aborted = true → x'.aborted = true
  cancelled : x.cancelled = true → x'.cancelled = true
  readToEnd : x.readToEnd = true → x'.readToEnd = true

theorem Later.refl (x : Exchange) : Later x x := ⟨id, id, id⟩

theorem Later.trans {x x' x'' : Exchange} (h : Later x x') (h' : Later x' x'') : Later x x'' :=
  ⟨h'.aborted ∘ h.aborted, h'.cancelled ∘ h.cancelled, h'.readToEnd ∘ h.readToEnd⟩

theorem Later.over {x x' : Exchange} (h : Later x x') : x.Over → x'.Over := by
  rintro (habort | hcancel | hread)
  · exact .inl (h.aborted habort)
  · exact .inr (.inl (h.cancelled hcancel))
  · exact .inr (.inr (h.readToEnd hread))

theorem Later.moved {x x' : Exchange} (h : Later x x') (generator : Generator) : Later x { x' with generator } :=
  ⟨h.aborted, h.cancelled, h.readToEnd⟩

theorem later_close (x : Exchange) (outcome : Except JsError Unit) : Later x (x.close outcome) :=
  ⟨id, fun _ => rfl, id⟩

theorem later_abort (x : Exchange) : Later x x.abort := ⟨fun _ => rfl, id, id⟩

theorem of_agent {x x' : Exchange} {move : AgentMove} (h : x.agent move = some x') : ∃ body, x' = { x with body } := by
  cases move with
  | receive bytes =>
    obtain ⟨body, -, rfl⟩ := Option.map_eq_some_iff.mp h
    exact ⟨body, rfl⟩
  | finish =>
    obtain ⟨body, -, rfl⟩ := Option.map_eq_some_iff.mp h
    exact ⟨body, rfl⟩
  | breakOff cause =>
    cases h
    exact ⟨_, rfl⟩

/-- The generator that is in its `finally`, or through it, has cancelled the body; at its last `yield` it has read
it. -/
def Kept (x : Exchange) : Prop :=
  match x.generator with
  | .closing _ | .finished => x.cancelled = true
  | .last => x.readToEnd = true
  | _ => True

/-- A `yield` waits for `next` or `return`. -/
def Yielding (x : Exchange) : Prop :=
  match x.generator with
  | .paused _ _ _ | .last => True
  | _ => False

theorem leave_of_yielding {x : Exchange} (h : x.Yielding) : x.leave = x.close (.ok ()) := by
  unfold Yielding at h
  unfold leave
  split at h
  · rename_i hgenerator
    rw [hgenerator]
  · rename_i hgenerator
    rw [hgenerator]
  · exact h.elim

theorem Kept.later {x x' : Exchange} (h : x.Kept) (hgenerator : x'.generator = x.generator) (hlater : Later x x') :
    x'.Kept := by
  unfold Kept at h ⊢
  rw [hgenerator]
  split at h
  · exact hlater.cancelled h
  · exact hlater.cancelled h
  · exact hlater.readToEnd h
  · trivial

/-- What a turn of the generator comes to. -/
structure Went (x : Exchange) (turn : Exchange × Option Next) : Prop where
  later : Later x turn.1
  kept : turn.1.Kept
  yielding : ∀ value, turn.2 = some (.value value) → turn.1.Yielding
  done : turn.2 = some .done → turn.1.cancelled = true
  threw : ∀ cause, turn.2 = some (.threw cause) → turn.1.cancelled = true

section
variable {engine : Engine} {x x' : Exchange}

theorem went_none (h : Later x x') (hkept : x'.Kept) : Went x (x', none) :=
  ⟨h, hkept, fun _ h => (nomatch h), fun h => (nomatch h), fun _ h => (nomatch h)⟩

theorem went_close (h : Later x x') (outcome : Except JsError Unit) : Went x (x'.close outcome, none) :=
  went_none (h.trans (later_close x' outcome)) rfl

theorem went_value (h : Later x x') (hkept : x'.Kept) (hyielding : x'.Yielding) (value : JsonValue) :
    Went x (x', some (.value value)) :=
  ⟨h, hkept, fun _ _ => hyielding, fun h => (nomatch h), fun _ h => (nomatch h)⟩

theorem went_scan (h : Later x x') (decoder : TextDecoder) (lines : List (List Char)) (buffered : List Char) :
    Went x (x'.scan engine decoder lines buffered) := by
  unfold scan
  split
  · exact went_none (h.moved _) trivial
  · rename_i value lines _
    exact went_value (h.moved (.paused decoder lines buffered)) trivial trivial value
  · exact went_close h _

theorem went_rest (h : Later x x') (hread : x'.readToEnd = true) (buffered : List Char) :
    Went x (x'.rest engine buffered) := by
  unfold rest
  split
  · exact went_close h _
  · exact went_value (h.moved .last) hread trivial _
  · exact went_close h _

theorem went_next (h : x.Kept) : Went x (x.next engine) := by
  unfold next
  split
  · exact went_none ((Later.refl x).moved _) trivial
  · exact went_scan (.refl x) _ _ _
  · exact went_close (.refl x) _
  · rename_i hgenerator
    refine ⟨.refl x, h, fun _ h => (nomatch h), fun _ => ?_, fun _ h => (nomatch h)⟩
    unfold Kept at h
    rwa [hgenerator] at h
  · exact went_none (.refl x) h
  · exact went_none (.refl x) h

theorem went_goOn (decoder : TextDecoder) (buffered : List Char)
    (got : Got (List UInt8) JsError × Readable (List UInt8) JsError) : Went x (x.goOn engine decoder buffered got) := by
  obtain ⟨got, body⟩ := got
  cases got with
  | chunk bytes =>
    exact @went_scan engine x { x with body, read.chunks := x.read.chunks ++ [bytes] } ⟨id, id, id⟩ _ _ _
  | done => exact @went_rest engine x { x with body, readToEnd := true } ⟨id, id, fun _ => rfl⟩ rfl buffered
  | failed cause => exact @went_close x { x with body, read.failure := some cause } ⟨id, id, id⟩ _

theorem went_advance (h : x.Kept) {turn : Exchange × Option Next} (hturn : x.advance engine = some turn) :
    Went x turn := by
  unfold Kept at h
  unfold advance at hturn
  split at hturn
  · obtain ⟨got, -, rfl⟩ := Option.map_eq_some_iff.mp hturn
    exact went_goOn _ _ got
  · rename_i hgenerator
    rw [hgenerator] at h
    cases hturn
    exact ⟨⟨id, id, id⟩, h, fun _ h => (nomatch h), fun _ => h, fun _ h => (nomatch h)⟩
  · rename_i hgenerator
    rw [hgenerator] at h
    cases hturn
    exact ⟨⟨id, id, id⟩, h, fun _ h => (nomatch h), fun h => (nomatch h), fun _ _ => h⟩
  · cases hturn

end

end Exchange

/-! ## A consumer of the events -/

inductive Asked
  | idle
  | waiting
  | came (next : Next)

/-- A generator, and what its consumer knows of the `next` it has called last. -/
structure Events where
  exchange : Exchange
  asked : Asked

namespace Events

def ofTurn (turn : Exchange × Option Next) : Events :=
  { exchange := turn.1
    asked := match turn.2 with
      | none => .waiting
      | some next => .came next }

def agent (e : Events) (move : AgentMove) : Option Events :=
  (e.exchange.agent move).map fun exchange => { e with exchange }

def abort (e : Events) : Events := { e with exchange := e.exchange.abort }

/-- The consumer awaits `events.return()`. -/
def leave (e : Events) : Events := { exchange := e.exchange.leave, asked := .waiting }

section
variable (engine : Engine)

def ask (e : Events) : Events := ofTurn (e.exchange.next engine)

def advance (e : Events) : Option Events :=
  match e.asked with
  | .waiting => (e.exchange.advance engine).map ofTurn
  | _ => none

end

structure Kept (e : Events) : Prop where
  exchange : e.exchange.Kept
  yielding : ∀ value, e.asked = .came (.value value) → e.exchange.Yielding
  done : e.asked = .came .done → e.exchange.cancelled = true
  threw : ∀ cause, e.asked = .came (.threw cause) → e.exchange.cancelled = true

section
variable {engine : Engine} {e e' : Events}

theorem kept_idle (h : e.Kept) : Kept { e with asked := .idle } :=
  ⟨h.exchange, fun _ h => (nomatch h), fun h => (nomatch h), fun _ h => (nomatch h)⟩

theorem kept_ofTurn {x : Exchange} {turn : Exchange × Option Next} (h : x.Went turn) : (ofTurn turn).Kept := by
  obtain ⟨x', next⟩ := turn
  cases next with
  | none => exact ⟨h.kept, fun _ h => (nomatch h), fun h => (nomatch h), fun _ h => (nomatch h)⟩
  | some next =>
    refine ⟨h.kept, fun value hasked => ?_, fun hasked => ?_, fun cause hasked => ?_⟩
    · exact h.yielding value (congrArg some (Asked.came.inj hasked))
    · exact h.done (congrArg some (Asked.came.inj hasked))
    · exact h.threw cause (congrArg some (Asked.came.inj hasked))

theorem Kept.later (h : e.Kept) (hasked : e'.asked = e.asked)
    (hgenerator : e'.exchange.generator = e.exchange.generator)
    (hlater : e.exchange.Later e'.exchange) : e'.Kept := by
  refine ⟨h.exchange.later hgenerator hlater, fun value hcame => ?_, fun hcame => ?_, fun cause hcame => ?_⟩
  · have hyielding := h.yielding value (hasked ▸ hcame)
    unfold Exchange.Yielding at hyielding ⊢
    rwa [hgenerator]
  · exact hlater.cancelled (h.done (hasked ▸ hcame))
  · exact hlater.cancelled (h.threw cause (hasked ▸ hcame))

/-- Each step of the events keeps to it, and what is over stays so. -/
theorem kept_agent {move : AgentMove} (h : e.Kept) (he' : e.agent move = some e') :
    e'.Kept ∧ e.exchange.Later e'.exchange := by
  obtain ⟨x, hx, rfl⟩ := Option.map_eq_some_iff.mp he'
  obtain ⟨body, rfl⟩ := Exchange.of_agent hx
  have hlater : e.exchange.Later { e.exchange with body } := ⟨id, id, id⟩
  exact ⟨h.later rfl rfl hlater, hlater⟩

theorem kept_abort (h : e.Kept) : e.abort.Kept := h.later rfl rfl (Exchange.later_abort _)

theorem kept_leave (h : e.exchange.Yielding) : e.leave.Kept ∧ e.leave.exchange.cancelled = true := by
  have hleave : e.leave = ofTurn (e.exchange.close (.ok ()), none) := by
    unfold leave
    rw [Exchange.leave_of_yielding h]
    rfl
  rw [hleave]
  exact ⟨kept_ofTurn (Exchange.went_close (.refl e.exchange) _), rfl⟩

theorem Kept.ask (h : e.Kept) (engine : Engine) :
    (e.ask engine).Kept ∧ e.exchange.Later (e.ask engine).exchange :=
  have hwent := Exchange.went_next h.exchange
  ⟨kept_ofTurn hwent, hwent.later⟩

theorem kept_advance (h : e.Kept) (he' : e.advance engine = some e') : e'.Kept ∧ e.exchange.Later e'.exchange := by
  unfold advance at he'
  split at he'
  · obtain ⟨turn, hturn, rfl⟩ := Option.map_eq_some_iff.mp he'
    have hwent := Exchange.went_advance h.exchange hturn
    exact ⟨kept_ofTurn hwent, hwent.later⟩
  · cases he'

end

end Events

end ComputeArmada.Adapter
