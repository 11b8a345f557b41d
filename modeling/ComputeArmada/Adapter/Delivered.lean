import ComputeArmada.Adapter.Streams

/-!
# What a stream and a run deliver

Whatever the order in which things happen, `AgentChannel.stream` and `AgentChannel.run` come to what they make of the
body that has been read.

* `Exchange.yet` : what the generator is still to yield; `Tells` : with what it has yielded it is what `readNdjson`
  yields, and each of its steps keeps that;
* `Collecting.result_eq`, `Streaming.output_eq` : what a run settles with, and what a stream ends with.
-/

namespace ComputeArmada.Adapter
open Streams Runs

/-! ## The generator -/

def Yielded.after (y : Yielded) (values : List JsonValue) : Yielded := { y with values := values ++ y.values }

theorem Yielded.andThen_after (y y' : Yielded) (values : List JsonValue) :
    (y.after values).andThen y' = (y.andThen y').after values := by
  obtain ⟨values', failure⟩ := y
  cases failure with
  | some cause => rfl
  | none => simp [andThen, after]

theorem Yielded.after_after (y : Yielded) (values values' : List JsonValue) :
    (y.after values').after values = y.after (values ++ values') := by
  simp [after]

/-- A body that goes on. -/
def ResponseBody.followed (body more : ResponseBody) : ResponseBody :=
  { chunks := body.chunks ++ more.chunks, failure := more.failure }

theorem ResponseBody.followed_nil (body : ResponseBody) :
    body.followed { chunks := [], failure := body.failure } = body := by
  unfold followed
  rw [List.append_nil]

namespace Exchange

/-- What the generator is still to yield, if this is what it is still to read. -/
def yet (engine : Engine) (x : Exchange) (more : ResponseBody) : Yielded :=
  match x.generator with
  | .start => readNdjson engine more
  | .reading decoder buffered => readChunks engine more.failure decoder buffered more.chunks
  | .paused decoder lines buffered =>
    (parseLines engine lines).andThen (readChunks engine more.failure decoder buffered more.chunks)
  | .closing (.error cause) => { values := [], failure := some cause }
  | .last | .closing (.ok ()) | .finished => { values := [], failure := none }

/-- It may still read this: nothing but the end that it has met. -/
def Awaits (x : Exchange) (more : ResponseBody) : Prop :=
  x.readToEnd = true ∨ x.read.failure ≠ none → more = { chunks := [], failure := x.read.failure }

/-- In its loop, it has not met the end. -/
def Unread (x : Exchange) : Prop :=
  match x.generator with
  | .start | .reading _ _ | .paused _ _ _ => x.readToEnd = false ∧ x.read.failure = none
  | _ => True

end Exchange

def Events.yet (engine : Engine) (e : Events) (more : ResponseBody) : Yielded :=
  match e.asked with
  | .came (.value value) => (e.exchange.yet engine more).after [value]
  | .came .done => { values := [], failure := none }
  | .came (.threw cause) => { values := [], failure := some cause }
  | .idle | .waiting => e.exchange.yet engine more

/-- These are the values that the consumer has had. -/
structure Tells (engine : Engine) (e : Events) (values : List JsonValue) : Prop where
  unread : e.exchange.Unread
  tells : ∀ more, e.exchange.Awaits more →
    readNdjson engine (e.exchange.read.followed more) = (e.yet engine more).after values

section
variable {engine : Engine} {x : Exchange} {e e' : Events} {values : List JsonValue} {more : ResponseBody}

theorem parseLines_nextLine (lines : List (List Char)) : parseLines engine lines =
    match nextLine engine lines with
    | none => { values := [], failure := none }
    | some (.ok value, lines) => (parseLines engine lines).after [value]
    | some (.error cause, _) => { values := [], failure := some cause } := by
  induction lines with
  | nil => rfl
  | cons line lines ih =>
    simp only [parseLines, nextLine]
    by_cases hblank : Js.trimList line = []
    · rw [if_pos hblank, if_pos hblank]
      exact ih
    · rw [if_neg hblank, if_neg hblank]
      cases engine.parse (Js.trimList line) <;> rfl

theorem yet_scan (decoder : TextDecoder) (lines : List (List Char)) (buffered : List Char) :
    (Events.ofTurn (x.scan engine decoder lines buffered)).yet engine more =
      (parseLines engine lines).andThen (readChunks engine more.failure decoder buffered more.chunks) := by
  unfold Exchange.scan
  rw [parseLines_nextLine]
  cases nextLine engine lines with
  | none => rfl
  | some found =>
    obtain ⟨outcome, lines⟩ := found
    cases outcome with
    | error cause => rfl
    | ok value => exact (Yielded.andThen_after _ _ [value]).symm

theorem yet_rest (buffered : List Char) :
    (Events.ofTurn (x.rest engine buffered)).yet engine more = parseLines engine [buffered] := by
  unfold Exchange.rest
  rw [parseLines_nextLine]
  cases hline : nextLine engine [buffered] with
  | none => rfl
  | some found =>
    obtain ⟨outcome, lines⟩ := found
    have hlines : lines = [] := by
      unfold nextLine at hline
      dsimp only at hline
      split at hline
      · cases hline
      · cases hline
        rfl
    subst hlines
    cases outcome <;> rfl

/-- The generator runs on: of what it is to yield nothing is lost. -/
theorem yet_ask : (e.ask engine).yet engine more = e.exchange.yet engine more := by
  unfold Events.ask Exchange.next Exchange.yet
  cases hgenerator : e.exchange.generator with
  | start => rfl
  | paused decoder lines buffered => exact yet_scan decoder lines buffered
  | last => rfl
  | finished => rfl
  | reading decoder buffered =>
    dsimp only [Events.ofTurn, Events.yet, Exchange.yet]
    rw [hgenerator]
  | closing outcome =>
    dsimp only [Events.ofTurn, Events.yet, Exchange.yet]
    rw [hgenerator]

theorem unread_scan (engine : Engine) (h : x.readToEnd = false ∧ x.read.failure = none) (decoder : TextDecoder)
    (lines : List (List Char)) (buffered : List Char) :
    (x.scan engine decoder lines buffered).1.Unread ∧ (x.scan engine decoder lines buffered).1.read = x.read ∧
      (x.scan engine decoder lines buffered).1.readToEnd = x.readToEnd := by
  unfold Exchange.scan
  split
  · exact ⟨h, rfl, rfl⟩
  · exact ⟨h, rfl, rfl⟩
  · exact ⟨trivial, rfl, rfl⟩

theorem unread_rest (engine : Engine) (x : Exchange) (buffered : List Char) : (x.rest engine buffered).1.Unread ∧
    (x.rest engine buffered).1.read = x.read ∧ (x.rest engine buffered).1.readToEnd = x.readToEnd := by
  unfold Exchange.rest
  split
  · exact ⟨trivial, rfl, rfl⟩
  · exact ⟨trivial, rfl, rfl⟩
  · exact ⟨trivial, rfl, rfl⟩

theorem Exchange.Unread.next (h : x.Unread) (engine : Engine) : (x.next engine).1.Unread ∧
    (x.next engine).1.read = x.read ∧ (x.next engine).1.readToEnd = x.readToEnd := by
  unfold Exchange.Unread at h
  unfold Exchange.next
  cases hgenerator : x.generator with
  | start =>
    rw [hgenerator] at h
    exact ⟨h, rfl, rfl⟩
  | paused decoder lines buffered =>
    rw [hgenerator] at h
    exact unread_scan engine h decoder lines buffered
  | last => exact ⟨trivial, rfl, rfl⟩
  | reading decoder buffered =>
    refine ⟨?_, rfl, rfl⟩
    unfold Exchange.Unread
    rw [hgenerator] at h ⊢
    exact h
  | closing outcome =>
    refine ⟨?_, rfl, rfl⟩
    unfold Exchange.Unread
    rw [hgenerator]
    trivial
  | finished =>
    refine ⟨?_, rfl, rfl⟩
    unfold Exchange.Unread
    rw [hgenerator]
    trivial

theorem tells_start : Tells engine { exchange := .answered, asked := .idle } [] :=
  ⟨⟨rfl, rfl⟩, fun _ _ => rfl⟩

theorem Tells.heard (h : Tells engine e values) {value : JsonValue} (hcame : e.asked = .came (.value value)) :
    Tells engine { e with asked := .idle } (values ++ [value]) := by
  refine ⟨h.unread, fun more hmore => ?_⟩
  have htells := h.tells more hmore
  unfold Events.yet at htells
  rw [hcame] at htells
  exact htells.trans (Yielded.after_after _ values [value])

theorem Tells.ask (h : Tells engine e values) (hidle : e.asked = .idle) : Tells engine (e.ask engine) values := by
  obtain ⟨hunread, hread, hend⟩ := h.unread.next engine
  refine ⟨hunread, fun more hmore => ?_⟩
  have hmore' : e.exchange.Awaits more := by
    unfold Exchange.Awaits at hmore ⊢
    rwa [show (e.ask engine).exchange.read = e.exchange.read from hread,
      show (e.ask engine).exchange.readToEnd = e.exchange.readToEnd from hend] at hmore
  have htells := h.tells more hmore'
  unfold Events.yet at htells
  rw [hidle] at htells
  rw [yet_ask, show (e.ask engine).exchange.read = e.exchange.read from hread]
  exact htells

/-- What the agent and an abort do is nothing that the generator has read. -/
theorem Tells.same (h : Tells engine e values) (hasked : e'.asked = e.asked)
    (hgenerator : e'.exchange.generator = e.exchange.generator) (hread : e'.exchange.read = e.exchange.read)
    (hend : e'.exchange.readToEnd = e.exchange.readToEnd) : Tells engine e' values := by
  constructor
  · have hunread := h.unread
    unfold Exchange.Unread at hunread ⊢
    rwa [hgenerator, hread, hend]
  · intro more hmore
    have hmore' : e.exchange.Awaits more := by
      unfold Exchange.Awaits at hmore ⊢
      rwa [hread, hend] at hmore
    have htells := h.tells more hmore'
    unfold Events.yet Exchange.yet at htells ⊢
    rw [hread, hasked, hgenerator]
    exact htells

theorem Tells.agent (h : Tells engine e values) {move : AgentMove} (he' : e.agent move = some e') :
    Tells engine e' values := by
  obtain ⟨x', hx', rfl⟩ := Option.map_eq_some_iff.mp he'
  obtain ⟨body, rfl⟩ := Exchange.of_agent hx'
  exact h.same rfl rfl rfl rfl

theorem Tells.abort (h : Tells engine e values) : Tells engine e.abort values := h.same rfl rfl rfl rfl

/-- What a read comes to is what there was to read. -/
theorem Tells.goOn (h : Tells engine e values) (hwaiting : e.asked = .waiting) {decoder : TextDecoder}
    {buffered : List Char} (hgenerator : e.exchange.generator = .reading decoder buffered)
    (got : Got (List UInt8) JsError × Readable (List UInt8) JsError) :
    Tells engine (.ofTurn (e.exchange.goOn engine decoder buffered got)) values := by
  have hunread : e.exchange.readToEnd = false ∧ e.exchange.read.failure = none := by
    have hunread := h.unread
    unfold Exchange.Unread at hunread
    rwa [hgenerator] at hunread
  have htells : ∀ more : ResponseBody, readNdjson engine (e.exchange.read.followed more) =
      (readChunks engine more.failure decoder buffered more.chunks).after values := by
    intro more
    have htells := h.tells more fun hend => by
      rcases hend with hend | hend
      · rw [hunread.1] at hend
        cases hend
      · exact absurd hunread.2 hend
    unfold Events.yet Exchange.yet at htells
    rw [hwaiting, hgenerator] at htells
    exact htells
  obtain ⟨got, body⟩ := got
  cases got with
  | chunk bytes =>
    obtain ⟨x', hx'⟩ : ∃ x' : Exchange, x' = { e.exchange with
      body, read.chunks := e.exchange.read.chunks ++ [bytes] } := ⟨_, rfl⟩
    have hx'unread : x'.readToEnd = false ∧ x'.read.failure = none := by
      subst hx'
      exact hunread
    obtain ⟨hscan, hread, -⟩ := unread_scan engine hx'unread (decoder.decode bytes).1
      (takeLines (buffered ++ (decoder.decode bytes).2)).1 (takeLines (buffered ++ (decoder.decode bytes).2)).2
    have hgoOn : e.exchange.goOn engine decoder buffered (.chunk bytes, body) = x'.scan engine (decoder.decode bytes).1
      (takeLines (buffered ++ (decoder.decode bytes).2)).1 (takeLines (buffered ++ (decoder.decode bytes).2)).2 := by
      subst hx'
      rfl
    rw [hgoOn]
    refine ⟨hscan, fun more _ => ?_⟩
    rw [yet_scan]
    change readNdjson engine ((x'.scan engine _ _ _).1.read.followed more) = _
    rw [hread, hx']
    have hsame : ({ e.exchange.read with chunks := e.exchange.read.chunks ++ [bytes] } : ResponseBody).followed more =
        e.exchange.read.followed { more with chunks := bytes :: more.chunks } := by
      unfold ResponseBody.followed
      rw [List.append_assoc]
      rfl
    exact (congrArg (readNdjson engine) hsame).trans (htells { more with chunks := bytes :: more.chunks })
  | done =>
    obtain ⟨hrest, hread, hend⟩ := unread_rest engine { e.exchange with body, readToEnd := true } buffered
    refine ⟨hrest, fun more hmore => ?_⟩
    have hnothing : more = { chunks := [], failure := none } := by
      unfold Exchange.Awaits at hmore
      rw [← hunread.2]
      exact (hmore (.inl hend)).trans (congrArg (fun read : ResponseBody => ResponseBody.mk [] read.failure) hread)
    subst hnothing
    change readNdjson engine ((Exchange.rest engine { e.exchange with body, readToEnd := true }
      buffered).1.read.followed
      _) = ((Events.ofTurn (Exchange.rest engine { e.exchange with body, readToEnd := true } buffered)).yet
      engine _).after
        values
    rw [hread, yet_rest]
    exact htells { chunks := [], failure := none }
  | failed cause =>
    refine ⟨trivial, fun more hmore => ?_⟩
    have hnothing : more = { chunks := [], failure := some cause } := hmore (.inr fun h => nomatch h)
    subst hnothing
    exact htells { chunks := [], failure := some cause }

theorem Tells.advance (h : Tells engine e values) (he' : e.advance engine = some e') : Tells engine e' values := by
  unfold Events.advance at he'
  split at he'
  · rename_i hwaiting
    have htells := h.tells
    unfold Events.yet Exchange.yet at htells
    rw [hwaiting] at htells
    obtain ⟨turn, hturn, rfl⟩ := Option.map_eq_some_iff.mp he'
    unfold Exchange.advance at hturn
    split at hturn
    · rename_i hgenerator
      obtain ⟨got, -, rfl⟩ := Option.map_eq_some_iff.mp hturn
      exact h.goOn hwaiting hgenerator got
    · rename_i hgenerator
      rw [hgenerator] at htells
      cases hturn
      exact ⟨trivial, htells⟩
    · rename_i hgenerator
      rw [hgenerator] at htells
      cases hturn
      exact ⟨trivial, htells⟩
    · cases hturn
  · cases he'

/-! ### What has been read, at the end -/

/-- No more is to be read than has been. -/
theorem Tells.read (h : Tells engine e values) :
    readNdjson engine e.exchange.read =
      (e.yet engine { chunks := [], failure := e.exchange.read.failure }).after values := by
  have htells := h.tells { chunks := [], failure := e.exchange.read.failure } fun _ => rfl
  rwa [ResponseBody.followed_nil] at htells

theorem Tells.done (h : Tells engine e values) (hcame : e.asked = .came .done) :
    readNdjson engine e.exchange.read = { values, failure := none } := by
  rw [h.read]
  unfold Events.yet
  rw [hcame]
  simp [Yielded.after]

theorem Tells.threw (h : Tells engine e values) {cause : JsError} (hcame : e.asked = .came (.threw cause)) :
    readNdjson engine e.exchange.read = { values, failure := some cause } := by
  rw [h.read]
  unfold Events.yet
  rw [hcame]
  simp [Yielded.after]

theorem Tells.value (h : Tells engine e values) {value : JsonValue} (hcame : e.asked = .came (.value value)) :
    ∃ rest failure, readNdjson engine e.exchange.read = { values := values ++ value :: rest, failure } := by
  refine ⟨(e.exchange.yet engine { chunks := [], failure := e.exchange.read.failure }).values,
    (e.exchange.yet engine { chunks := [], failure := e.exchange.read.failure }).failure, ?_⟩
  rw [h.read]
  unfold Events.yet
  rw [hcame]
  rfl

theorem read_agent {move : AgentMove} (h : e.agent move = some e') :
    e'.exchange.read = e.exchange.read ∧ e'.exchange.generator = e.exchange.generator ∧ e'.asked = e.asked ∧
      e'.exchange.aborted = e.exchange.aborted := by
  obtain ⟨x', hx', rfl⟩ := Option.map_eq_some_iff.mp h
  obtain ⟨body, rfl⟩ := Exchange.of_agent hx'
  exact ⟨rfl, rfl, rfl, rfl⟩

end

/-! ## A run -/

namespace Collecting
variable {engine : Engine} {endpoint : AgentEndpoint} {command : List String} {timeoutMs : Option Nat}
  {s t : Collecting}

def nothingRead : AgentChannel.Read := { out := [], err := [], exit := none }

/-- A run has read what its events have told, and settles with what `run` makes of it. -/
inductive Collects (engine : Engine) (endpoint : AgentEndpoint) (command : List String) (timeoutMs : Option Nat)
    (s : Collecting) : Prop
  | looping (values : List JsonValue) (hlooping : s.collection = .looping) (htells : Tells engine s.events values)
      (hread : values.foldlM (AgentChannel.onEvent engine) nothingRead = .ok s.read)
  | leaving (cause : JsError) (hleaving : s.collection = .leaving cause)
      (hgenerator : s.events.exchange.generator = .closing (.ok ()))
      (hcause : AgentChannel.readEvents engine s.events.exchange.read = .error cause)
  | settled (result : Except JsError CommandResult) (hsettled : s.collection = .settled result)
      (hresult : result = AgentChannel.outcome endpoint command timeoutMs
        (AgentChannel.readEvents engine s.events.exchange.read))

section
variable {body : ResponseBody} {values : List JsonValue} {failure : Option JsError} {read : AgentChannel.Read}

theorem readEvents_of (hbody : readNdjson engine body = { values, failure })
    (hread : values.foldlM (AgentChannel.onEvent engine) nothingRead = .ok read) :
    AgentChannel.readEvents engine body = failure.elim (.ok read) .error := by
  unfold AgentChannel.readEvents
  dsimp only
  rw [hbody]
  change (values.foldlM (AgentChannel.onEvent engine) nothingRead >>= _) = _
  rw [hread]
  cases failure <;> rfl

theorem readEvents_error {value : JsonValue} {rest : List JsonValue} {cause : JsError}
    (hbody : readNdjson engine body = { values := values ++ value :: rest, failure })
    (hread : values.foldlM (AgentChannel.onEvent engine) nothingRead = .ok read)
    (hevent : AgentChannel.onEvent engine read value = .error cause) :
    AgentChannel.readEvents engine body = .error cause := by
  unfold AgentChannel.readEvents
  dsimp only
  rw [hbody]
  change ((values ++ value :: rest).foldlM (AgentChannel.onEvent engine) nothingRead >>= _) = _
  rw [List.foldlM_append, hread, ok_bind, List.foldlM_cons, hevent]
  rfl

end

theorem collects_resume {next : Next} {values : List JsonValue} (hlooping : s.collection = .looping)
    (htells : Tells engine s.events values)
    (hread : values.foldlM (AgentChannel.onEvent engine) nothingRead = .ok s.read)
    (hcame : s.events.asked = .came next) (hyielding : ∀ value, next = .value value → s.events.exchange.Yielding) :
    Collects engine endpoint command timeoutMs (s.resume engine endpoint command timeoutMs next) := by
  cases next with
  | done => exact .settled _ rfl (congrArg _ (readEvents_of (htells.done hcame) hread).symm)
  | threw cause => exact .settled _ rfl (congrArg _ (readEvents_of (htells.threw hcame) hread).symm)
  | value value =>
    unfold resume
    dsimp only
    cases hevent : AgentChannel.onEvent engine s.read value with
    | ok read =>
      refine .looping (values ++ [value]) hlooping ((htells.heard hcame).ask rfl) ?_
      rw [List.foldlM_append, hread]
      change (AgentChannel.onEvent engine s.read value >>= fun read => pure read) = _
      rw [hevent]
      rfl
    | error cause =>
      have hleave := Exchange.leave_of_yielding (hyielding value rfl)
      obtain ⟨rest, failure, hvalues⟩ := htells.value hcame
      refine .leaving cause rfl ?_ ?_
      · change s.events.exchange.leave.generator = _
        rw [hleave]
        rfl
      · change AgentChannel.readEvents engine s.events.exchange.leave.read = _
        rw [hleave]
        exact readEvents_error hvalues hread hevent

theorem collects_step {a : RunAct} (hs : s.Kept) (hcollects : Collects engine endpoint command timeoutMs s)
    (h : s.step engine endpoint command timeoutMs a = some t) : Collects engine endpoint command timeoutMs t := by
  cases a with
  | agent move =>
    obtain ⟨events, hevents, rfl⟩ := Option.map_eq_some_iff.mp h
    obtain ⟨hread, hgenerator, -⟩ := read_agent hevents
    cases hcollects with
    | looping values hlooping htells hvalues => exact .looping values hlooping (htells.agent hevents) hvalues
    | leaving cause hleaving hclosing hcause =>
      exact .leaving cause hleaving (hgenerator.trans hclosing) (hread ▸ hcause)
    | settled result hsettled hresult => exact .settled result hsettled (hread ▸ hresult)
  | advance =>
    unfold step at h
    dsimp only at h
    cases hcollects with
    | looping values hlooping htells hvalues =>
      rw [hlooping] at h
      obtain ⟨events, hevents, rfl⟩ := Option.map_eq_some_iff.mp h
      exact .looping values rfl (htells.advance hevents) hvalues
    | leaving cause hleaving hclosing hcause =>
      rw [hleaving] at h
      obtain ⟨events, hevents, rfl⟩ := Option.map_eq_some_iff.mp h
      have hread : events.exchange.read = s.events.exchange.read := by
        unfold Events.advance Exchange.advance at hevents
        rw [hclosing] at hevents
        split at hevents
        · cases hevents
          rfl
        · cases hevents
      refine .settled _ rfl ?_
      change _ = AgentChannel.outcome endpoint command timeoutMs (AgentChannel.readEvents engine events.exchange.read)
      rw [hread, hcause]
    | settled result hsettled hresult =>
      rw [hsettled] at h
      cases h
  | resume =>
    unfold step at h
    dsimp only at h
    split at h
    · rename_i next hlooping hcame
      cases h
      cases hcollects with
      | looping values _ htells hvalues =>
        refine collects_resume hlooping htells hvalues hcame fun value hvalue => ?_
        subst hvalue
        exact hs.events.yielding value hcame
      | leaving cause hleaving _ _ => cases hlooping.symm.trans hleaving
      | settled result hsettled _ => cases hlooping.symm.trans hsettled
    · cases h
  | fire =>
    unfold step at h
    dsimp only at h
    split at h
    · cases h
      cases hcollects with
      | looping values hlooping htells hvalues => exact .looping values hlooping htells.abort hvalues
      | leaving cause hleaving hclosing hcause => exact .leaving cause hleaving hclosing hcause
      | settled result hsettled hresult => exact .settled result hsettled hresult
    · cases h

/-- **A run settles with what `run` makes of the body that it has read.** -/
theorem result_eq {result : Except JsError CommandResult}
    (h : Run (Fires (step engine endpoint command timeoutMs)) Any (.start engine timeoutMs) t)
    (hsettled : t.collection = .settled result) : result = AgentChannel.run engine endpoint command timeoutMs
      (.answered { status := 200, body := some t.events.exchange.read }) := by
  have ht : t.Kept ∧ Collects engine endpoint command timeoutMs t := by
    refine h.inv (fun t => t.Kept ∧ Collects engine endpoint command timeoutMs t) ?_ ⟨kept_start engine timeoutMs, ?_⟩
    · rintro s a t ⟨hs, hcollects⟩ - hstep
      exact ⟨step_kept hs hstep, collects_step hs hcollects hstep⟩
    · exact .looping [] rfl (tells_start.ask rfl) rfl
  cases ht.2 with
  | looping _ hlooping _ _ => cases hlooping.symm.trans hsettled
  | leaving _ hleaving _ _ => cases hleaving.symm.trans hsettled
  | settled result' hsettled' hresult =>
    cases hsettled.symm.trans hsettled'
    exact hresult

def settled : Collection → Bool
  | .settled _ => true
  | _ => false

/-- A command that prints nothing, and exits with 0. -/
theorem result_eq_exits : ∃ t result, Run (Fires (step laconic soleAgent ["sh"] none)) Any (.start laconic none) t ∧
    t.collection = .settled result ∧ result = AgentChannel.run laconic soleAgent ["sh"] none
      (.answered { status := 200, body := some t.events.exchange.read }) := by
  obtain ⟨t, hrun, hsettled⟩ := Run.exists_of_exec (step laconic soleAgent ["sh"] none) Any
    (fun t => settled t.collection = true) (.start laconic none)
    [.agent (.receive (lineOf "\x7b\"exit\":0\x7d")), .advance, .resume, .agent .finish, .advance, .advance, .resume]
    (by decide +kernel)
  cases hcollection : t.collection with
  | settled result => exact ⟨t, result, hrun, hcollection, result_eq hrun hcollection⟩
  | looping =>
    rw [hcollection] at hsettled
    cases hsettled
  | leaving cause =>
    rw [hcollection] at hsettled
    cases hsettled

end Collecting

/-! ## A stream -/

/-- An output that comes after these chunks. -/
def OutputStream.preceded (output : OutputStream) (chunks : List (List UInt8)) : OutputStream :=
  { output with chunks := chunks ++ output.chunks }

namespace Streaming
variable {engine : Engine} {endpoint : AgentEndpoint} {command : List String} {s t : Streaming}

theorem pull_cons {what : String} (aborted : Bool) (failed : Option JsError) (value : JsonValue)
    (values : List JsonValue) : AgentChannel.pull engine endpoint what aborted failed (value :: values) =
      match taken engine value with
      | .thrown cause => { chunks := [], failure := some cause }
      | .reported text =>
        { chunks := [], failure := some (AgentChannel.failure endpoint what (error (engine.text text))) }
      | .skipped => AgentChannel.pull engine endpoint what aborted failed values
      | .bytes bytes => (AgentChannel.pull engine endpoint what aborted failed values).preceded [bytes] := by
  unfold taken
  rw [AgentChannel.pull]
  cases asEvent value with
  | error cause => rfl
  | ok event =>
    dsimp only
    cases event.get? "error" with
    | some text => rfl
    | none =>
      dsimp only
      cases event.get? "stdout" with
      | none => rfl
      | some text =>
        dsimp only
        cases engine.base64Bytes text <;> rfl

/-- What `pull` makes of all that `readNdjson` yields. -/
def pulled (engine : Engine) (endpoint : AgentEndpoint) (command : List String) (aborted : Bool) (y : Yielded) :
    OutputStream := AgentChannel.pull engine endpoint (runWhat command) aborted y.failure y.values

/-- Where the timer may still abort the response, aborted or not; where it may not, as it is. -/
def MayBe (s : Streaming) (aborted : Bool) : Prop := s.timer ≠ .pending → aborted = s.events.exchange.aborted

/-- A stream that is open has given what `pull` makes of the values it has had; one that has ended, what it makes of
all of them, whether a timer that is still set fires or not. -/
inductive Delivers (engine : Engine) (endpoint : AgentEndpoint) (command : List String) (s : Streaming) : Prop
  | opened (values : List JsonValue) (htells : Tells engine s.events values) (haccepts : s.output.accepts = true)
      (hqueue : s.events.asked ≠ .idle → s.output.queue = [])
      (hgave : ∀ aborted failure rest, pulled engine endpoint command aborted { values := values ++ rest, failure } =
        (pulled engine endpoint command aborted { values := rest, failure }).preceded (s.consumed ++ s.output.queue))
  | ended (hidle : s.events.asked = .idle) (haccepts : s.output.accepts = false)
      (hqueue : s.output.Finished → s.output.queue = [])
      (houtput : ∀ aborted, s.MayBe aborted →
        pulled engine endpoint command aborted (readNdjson engine s.events.exchange.read) =
          { chunks := s.consumed ++ s.output.queue, failure := s.output.failure })

/-- The values that have come are those of the body that has been read, and no more come of it. -/
theorem delivers_fail {values rest : List JsonValue} {failure : Option JsError} {cause : JsError}
    (hbody : readNdjson engine t.events.exchange.read = { values := values ++ rest, failure })
    (hidle : t.events.asked = .idle) (haccepts : s.output.accepts = true) (hqueue : s.output.queue = [])
    (houtput : t.output = s.output.fail cause) (hconsumed : t.consumed = s.consumed)
    (hgave : ∀ aborted failure rest, pulled engine endpoint command aborted { values := values ++ rest, failure } =
      (pulled engine endpoint command aborted { values := rest, failure }).preceded (s.consumed ++ s.output.queue))
    (hcause : ∀ aborted, t.MayBe aborted → pulled engine endpoint command aborted { values := rest, failure } =
      { chunks := [], failure := some cause }) : Delivers engine endpoint command t := by
  rw [Readable.fail_of_accepts haccepts] at houtput
  refine .ended hidle ?_ ?_ fun aborted haborted => ?_
  · rw [houtput]
    rfl
  · intro _
    rw [houtput]
  · rw [hbody, hgave, hcause aborted haborted, hconsumed, houtput, hqueue]
    simp [OutputStream.preceded, Readable.failure]

theorem delivers_onValue {values : List JsonValue} {value : JsonValue} (htells : Tells engine s.events values)
    (hcame : s.events.asked = .came (.value value)) (haccepts : s.output.accepts = true)
    (hqueue : s.output.queue = [])
    (hgave : ∀ aborted failure rest, pulled engine endpoint command aborted { values := values ++ rest, failure } =
      (pulled engine endpoint command aborted { values := rest, failure }).preceded (s.consumed ++ s.output.queue)) :
    Delivers engine endpoint command (s.onValue engine endpoint command value) := by
  obtain ⟨rest, failure, hbody⟩ := htells.value hcame
  have hnext : ∀ aborted failure rest, pulled engine endpoint command aborted
      { values := values ++ [value] ++ rest, failure } =
        (pulled engine endpoint command aborted { values := value :: rest, failure }).preceded
          (s.consumed ++ s.output.queue) := by
    intro aborted failure rest
    rw [List.append_assoc, hgave]
    rfl
  unfold onValue
  cases htaken : taken engine value with
  | thrown cause =>
    refine delivers_fail hbody rfl haccepts hqueue rfl rfl hgave fun aborted _ => ?_
    unfold pulled
    rw [pull_cons, htaken]
  | reported text =>
    refine delivers_fail hbody rfl haccepts hqueue rfl rfl hgave fun aborted _ => ?_
    unfold pulled
    rw [pull_cons, htaken]
  | skipped =>
    refine .opened (values ++ [value]) ((htells.heard hcame).ask rfl) haccepts (fun _ => hqueue) ?_
    intro aborted failure rest
    rw [hnext]
    unfold pulled
    rw [pull_cons, htaken]
  | bytes bytes =>
    dsimp only
    rw [Readable.enqueue_of_accepts haccepts]
    refine .opened (values ++ [value]) (htells.heard hcame) haccepts (fun h => absurd rfl h) ?_
    intro aborted failure rest
    rw [hnext]
    unfold pulled
    rw [pull_cons, htaken]
    simp [OutputStream.preceded, idle]

theorem delivers_chunk (hs : Delivers engine endpoint command s) {bytes : List UInt8}
    {output : Readable (List UInt8) JsError} (hread : s.output.read = some (.chunk bytes, output)) :
    Delivers engine endpoint command (s.consume (.chunk bytes, output)) := by
  obtain ⟨hclosing, -⟩ := Readable.of_read hread
  obtain ⟨hchunk, hopen, hfailure, hfinished⟩ := Readable.of_read_chunk hread
  have hsame : s.consumed ++ [bytes] ++ output.queue = s.consumed ++ s.output.queue := by
    rw [List.append_assoc, hchunk]
    rfl
  cases hs with
  | opened values htells haccepts hqueue hgave =>
    refine .opened values htells (Readable.accepts_iff.mpr ⟨fun h => ?_, ?_⟩) (fun h => ?_)
      fun aborted failure rest => ?_
    · exact absurd (hfinished h).1 (by rw [(Readable.accepts_iff.mp haccepts).2]; decide)
    · exact hclosing.trans (Readable.accepts_iff.mp haccepts).2
    · exact absurd (hchunk.symm.trans (hqueue h)) (List.cons_ne_nil _ _)
    · rw [hgave]
      exact congrArg _ hsame.symm
  | ended hidle haccepts hqueue houtput =>
    have hclosed : s.output.closing = true := by
      by_contra hnot
      exact absurd (Readable.accepts_iff.mpr ⟨hopen, eq_false_of_ne_true hnot⟩) (by rw [haccepts]; decide)
    refine .ended hidle ?_ (fun h => (hfinished h).2) fun aborted haborted => ?_
    · refine eq_false_of_ne_true fun h => ?_
      have hnot := (Readable.accepts_iff.mp h).2
      exact absurd (hclosing.trans hclosed) (by rw [show output.closing = false from hnot]; decide)
    · refine (houtput aborted haborted).trans ?_
      have hnone : s.output.failure = none := by
        unfold Readable.failure
        unfold Readable.Finished at hopen
        rw [not_not.mp hopen]
      rw [← hsame, hnone, ← hfailure]
      rfl

theorem delivers_step {a : StreamAct} (hs : Delivers engine endpoint command s) (ha : a ≠ .cancel)
    (h : s.step engine endpoint command a = some t) : Delivers engine endpoint command t := by
  cases a with
  | agent move =>
    obtain ⟨events, hevents, rfl⟩ := Option.map_eq_some_iff.mp h
    obtain ⟨hread, -, hasked, haborted⟩ := read_agent hevents
    cases hs with
    | opened values htells haccepts hqueue hgave =>
      exact .opened values (htells.agent hevents) haccepts (fun h => hqueue (hasked ▸ h)) hgave
    | ended hidle haccepts hqueue houtput =>
      refine .ended (hasked.trans hidle) haccepts hqueue fun aborted hmay => ?_
      show pulled engine endpoint command aborted (readNdjson engine events.exchange.read) = _
      rw [hread]
      exact houtput aborted fun htimer => (hmay htimer).trans haborted
  | advance =>
    obtain ⟨events, hevents, rfl⟩ := Option.map_eq_some_iff.mp h
    have hasked : s.events.asked ≠ .idle := by
      intro hidle
      unfold Events.advance at hevents
      rw [hidle] at hevents
      cases hevents
    cases hs with
    | opened values htells haccepts hqueue hgave =>
      exact .opened values (htells.advance hevents) haccepts (fun _ => hqueue hasked) hgave
    | ended hidle _ _ _ => exact absurd hidle hasked
  | pull =>
    unfold step at h
    dsimp only at h
    split at h
    · rename_i hidle
      split at h
      · rename_i hready
        cases h
        cases hs with
        | opened values htells haccepts hqueue hgave =>
          exact .opened values (htells.ask hidle) haccepts (fun _ => List.isEmpty_iff.mp hready.2) hgave
        | ended _ haccepts _ _ => cases haccepts.symm.trans hready.1
      · cases h
    · cases h
  | resume =>
    unfold step at h
    dsimp only at h
    split at h
    · rename_i next hcame
      cases h
      have hasked : s.events.asked ≠ .idle := fun hidle => nomatch hcame.symm.trans hidle
      cases hs with
      | ended hidle _ _ _ => exact absurd hidle hasked
      | opened values htells haccepts hqueue hgave =>
        have hempty := hqueue hasked
        have hended : ∀ {failure}, readNdjson engine s.events.exchange.read = { values, failure } →
            pulled engine endpoint command s.events.exchange.aborted { values := [], failure } =
              { chunks := [], failure := none } → Delivers engine endpoint command s.ended.idle := by
          intro failure hbody hnone
          have houtput : s.ended.idle.output = { s.output with standing := .closed } := by
            unfold ended idle
            dsimp only
            rw [Readable.close_of_accepts haccepts hempty]
            rfl
          refine .ended rfl ?_ ?_ fun aborted hmay => ?_
          · rw [houtput]
            rfl
          · intro _
            rw [houtput]
            exact hempty
          · -- The timer is cleared, so the response stays as it is.
            obtain rfl : aborted = s.events.exchange.aborted := hmay s.timer.clear_ne
            have hvalues := hgave s.events.exchange.aborted failure []
            rw [List.append_nil, hnone] at hvalues
            rw [houtput]
            exact (congrArg _ hbody).trans (hvalues.trans
              (by simp [OutputStream.preceded, Readable.failure, ended, idle]))
        cases next with
        | value value => exact delivers_onValue htells hcame haccepts hempty hgave
        | done => exact hended (htells.done hcame) (by simp [pulled, AgentChannel.pull])
        | threw cause =>
          unfold resume
          dsimp only
          split
          · rename_i haborted
            exact hended (htells.threw hcame) (by rw [haborted]; rfl)
          · rename_i haborted
            have hbody : readNdjson engine s.events.exchange.read =
                { values := values ++ [], failure := some cause } := by
              rw [List.append_nil]
              exact htells.threw hcame
            refine delivers_fail hbody rfl haccepts hempty rfl rfl hgave fun aborted hmay => ?_
            obtain rfl : aborted = s.events.exchange.aborted := hmay s.timer.clear_ne
            rw [eq_false_of_ne_true haborted]
            rfl
    · cases h
  | read =>
    obtain ⟨⟨got, output⟩, hread, rfl⟩ := Option.map_eq_some_iff.mp h
    cases got with
    | chunk bytes => exact delivers_chunk hs hread
    | done =>
      obtain ⟨rfl, -⟩ := Readable.of_read_end hread fun _ h => (nomatch h)
      exact hs
    | failed cause =>
      obtain ⟨rfl, -⟩ := Readable.of_read_end hread fun _ h => (nomatch h)
      exact hs
  | cancel => exact absurd rfl ha
  | fire =>
    unfold step at h
    dsimp only at h
    split at h
    · rename_i hpending
      cases h
      cases hs with
      | opened values htells haccepts hqueue hgave => exact .opened values htells.abort haccepts hqueue hgave
      | ended hidle haccepts hqueue houtput =>
        exact .ended hidle haccepts hqueue fun aborted _ => houtput aborted fun h => absurd hpending h
    · cases h

/-- **A stream that nobody cancels ends with what `stream` makes of the body that it has read**, aborted as its
request is, all of it handed over. -/
theorem output_eq {timeoutMs : Option Nat}
    (h : Run (Fires (step engine endpoint command)) (fun _ a => a ≠ .cancel) (.start timeoutMs) t)
    (hfinished : t.output.Finished) : AgentChannel.stream engine endpoint command t.events.exchange.aborted
      (.answered { status := 200, body := some t.events.exchange.read }) =
        .ok { chunks := t.consumed, failure := t.output.failure } := by
  have ht : Delivers engine endpoint command t := by
    refine h.inv (Delivers engine endpoint command) (fun s a t hs ha hstep => delivers_step hs ha hstep) ?_
    exact .opened [] tells_start rfl (fun h => absurd rfl h) fun _ _ _ => rfl
  cases ht with
  | opened _ _ haccepts _ _ => exact absurd hfinished (Readable.accepts_iff.mp haccepts).1
  | ended _ _ hqueue houtput =>
    have houtput := houtput t.events.exchange.aborted fun _ => rfl
    rw [hqueue hfinished, List.append_nil] at houtput
    exact congrArg Except.ok houtput

instance (a : StreamAct) : Decidable (a ≠ .cancel) := by
  cases a
  case cancel => exact isFalse fun h => h rfl
  all_goals exact isTrue (by intro h; cases h)

/-- A command that prints two bytes and ends, and one that its timer cuts off after them. -/
theorem output_eq_prints :
    (∃ t : Streaming, t.consumed = [[104, 105]] ∧ t.events.exchange.aborted = false ∧
      AgentChannel.stream laconic soleAgent ["sh"] false
        (.answered { status := 200, body := some t.events.exchange.read }) =
          .ok { chunks := t.consumed, failure := t.output.failure }) ∧
    ∃ t : Streaming, t.consumed = [[104, 105]] ∧ t.events.exchange.read.failure.isSome ∧
      AgentChannel.stream laconic soleAgent ["sh"] true
        (.answered { status := 200, body := some t.events.exchange.read }) =
          .ok { chunks := t.consumed, failure := t.output.failure } := by
  constructor
  · obtain ⟨t, hrun, hfinished, hconsumed, haborted⟩ := Run.exists_of_exec (step laconic soleAgent ["sh"])
      (fun _ a => a ≠ .cancel)
      (fun t => t.output.Finished ∧ t.consumed = [[104, 105]] ∧ t.events.exchange.aborted = false) (.start (some 100))
      [.pull, .agent (.receive (lineOf "\x7b\"stdout\":\"aGk=\"\x7d")), .advance, .resume, .read,
       .pull, .agent .finish, .advance, .advance, .resume] (by decide +kernel)
    have houtput := output_eq hrun hfinished
    rw [haborted] at houtput
    exact ⟨t, hconsumed, haborted, houtput⟩
  · obtain ⟨t, hrun, hfinished, hconsumed, haborted, hfailed⟩ := Run.exists_of_exec (step laconic soleAgent ["sh"])
      (fun _ a => a ≠ .cancel)
      (fun t => t.output.Finished ∧ t.consumed = [[104, 105]] ∧ t.events.exchange.aborted = true ∧
        t.events.exchange.read.failure.isSome) (.start (some 100))
      [.pull, .agent (.receive (lineOf "\x7b\"stdout\":\"aGk=\"\x7d")), .advance, .resume, .read,
       .pull, .fire, .advance, .advance, .resume] (by decide +kernel)
    have houtput := output_eq hrun hfinished
    rw [haborted] at houtput
    exact ⟨t, hconsumed, hfailed, houtput⟩

end Streaming

end ComputeArmada.Adapter
