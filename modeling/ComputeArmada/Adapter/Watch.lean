import ComputeArmada.Adapter.Channel
import ComputeArmada.Adapter.Client

/-!
# The watches of a job's events

`ArmadaClient.waitForRunning` and `ArmadaClient.ingressAddress`, on the lines themselves: any JSON values.

* `Watch.waitForRunning`, `Watch.ingressAddress` : the two loops over what `readNdjson` yields;
* `Watch.Decisive`, `Watch.concerns` : the lines that end a wait, and those of the job or of the whole stream;
* `Watch.first_decisive` : a wait is judged by the first of its lines that is decisive;
* `Watch.terminal_rejects` : which ends of the job end a wait.
-/

namespace ComputeArmada.Adapter

/-! ## Reading a JSON value -/

def nullError (property : String) : JsError :=
  { name := "TypeError"
    message := "Cannot read properties of null (reading '" ++ property ++ "')" }

/-- `value[property]`, where no prototype has the property. -/
def propertyOf (value : JsonValue) (property : String) : Except JsError (Option JsonValue) :=
  match value with
  | .null => .error (nullError property)
  | value => .ok (value.get? property)

/-- `value ?? other`. -/
def coalesce (value : Option JsonValue) (other : JsonValue) : JsonValue :=
  match value with
  | none | some .null => other
  | some value => value

/-- `asObject(value, 'an event stream line')`. -/
def asObject (value : JsonValue) : Except JsError JsonValue :=
  match value with
  | .object _ | .array _ => .ok value
  | _ => .error (error ("Armada returned an event stream line that is not a JSON object: " ++ stringify value))

/-- A key that is an index: a whole number written without leading zeros, below 2^32 - 1. -/
def indexOf (key : String) : Option Nat :=
  match key.toNat? with
  | some n => if toString n = key ∧ n < 2 ^ 32 - 1 then some n else none
  | none => none

/-- `Object.keys(value)`: indices in ascending order, then the other keys, as they were first set. -/
def keysOf : JsonValue → List String
  | .object members =>
    let keys := (members.map (·.1)).eraseDups
    ((keys.filterMap indexOf).mergeSort (· ≤ ·)).map toString ++ keys.filter fun key => indexOf key = none
  | .array values => (List.range values.length).map toString
  | .string s => (List.range (Js.codeUnits s).length).map toString
  | _ => []

/-- `value?.[String(port)]`. -/
def portOf (value : JsonValue) (port : Nat) : Option JsonValue :=
  match value with
  | .array values => values[port]?
  | .string s => (Js.codeUnits s)[port]?.map fun unit =>
      .string (String.singleton (if 0xd800 ≤ unit ∧ unit ≤ 0xdfff then Json.replacement else Char.ofNat unit))
  | value => value.get? (toString port)

namespace Watch

/-! ## The loops -/

/-- Where a pod landed, as the event has it. -/
structure Location where
  clusterId : JsonValue
  podName : JsonValue
  podNamespace : JsonValue
  nodeName : Option JsonValue

/-- What the two loops do not share: the events waited for, what one of them gives, and how the message of a
cancellation and that of a stream that ended go on. -/
structure Wait (α : Type) where
  kind : String
  take : JsonValue → Except JsError α
  suffix : String
  missing : String

section
variable {α : Type} (spelled : JsonValue → Except JsError String) (job : SubmittedJob)

/-- `${value ?? other}`, where `spelled` is what a template makes of a value that is no string. -/
def textOr (value : Option JsonValue) (other : String) : Except JsError String :=
  match coalesce value (.string other) with
  | .string s => .ok s
  | value => spelled value

/-- `line.result?.message`. -/
def messageOf (line : JsonValue) : Option JsonValue := (line.get? "result").bind (·.get? "message")

/-- The event of a kind in a message, `event !== undefined && event.jobId === job.jobId`. -/
def eventFor (message : JsonValue) (kind : String) : Except JsError (Option JsonValue) := do
  match ← propertyOf message kind with
  | none => return none
  | some event =>
    let _ ← propertyOf event "jobId"
    return if stringOf event "jobId" = some job.jobId then some event else none

/-- The checks for the job's end. -/
def checkEnd (suffix : String) (message : JsonValue) : Except JsError Unit := do
  if let some failed ← eventFor job message "failed" then
    if booleanOf failed "retryable" ≠ some true then
      let reason ← textOr spelled (failed.get? "reason") "no reason given"
      throw (error ("Armada job " ++ job.jobId ++ " failed: " ++ reason))
  if let some _ ← eventFor job message "cancelled" then
    throw (error ("Armada job " ++ job.jobId ++ " was cancelled" ++ suffix))

/-- What the body of the loop makes of a line; `none` where the loop goes on. -/
def watchLine (wait : Wait α) (value : JsonValue) : Except JsError (Option α) := do
  let line ← asObject value
  if let some failure := line.get? "error" then
    let text ← textOr spelled (← propertyOf failure "message") "unknown error"
    throw (error ("Armada event stream failed: " ++ text))
  match messageOf line with
  | none => return none
  | some message =>
    if let some event ← eventFor job message wait.kind then
      return some (← wait.take event)
    checkEnd spelled job wait.suffix message
    return none

/-- The loop, over the lines there are; `none` where they decide nothing. -/
def watchValues (wait : Wait α) : List JsonValue → Option (Except JsError α)
  | [] => none
  | value :: values =>
    match watchLine spelled job wait value with
    | .error cause => some (.error cause)
    | .ok (some a) => some (.ok a)
    | .ok none => watchValues wait values

/-- The loop over what the reader yields, and what comes after it. -/
def watchYielded (wait : Wait α) (yielded : Yielded) : Except JsError α :=
  match watchValues spelled job wait yielded.values with
  | some outcome => outcome
  | none =>
    match yielded.failure with
    | some cause => .error cause
    | none => .error (error ("Armada event stream ended before job " ++ job.jobId ++ wait.missing))

def watchBody (engine : Engine) (wait : Wait α) (body : ResponseBody) : Except JsError α :=
  watchYielded spelled job wait (readNdjson engine body)

def locationOf (config : ArmadaConfig) (running : JsonValue) : Location :=
  { clusterId := coalesce (running.get? "clusterId") (.string "")
    podName := coalesce (running.get? "podName") (.string "")
    podNamespace := coalesce (running.get? "podNamespace") (.string config.namespace)
    nodeName := running.get? "nodeName" }

/-- The address of a port that is neither missing nor empty. -/
def addressOf (info : JsonValue) (port : Nat) : Option JsonValue :=
  match (info.get? "ingressAddresses").bind (portOf · port) with
  | some (.string "") | none => none
  | some address => some address

def noAddress (info : JsonValue) (port : Nat) : JsError :=
  let known := ", ".intercalate (keysOf (coalesce (info.get? "ingressAddresses") (.object [])))
  error ("Armada reported no address for port " ++ toString port ++ " of job " ++ job.jobId ++
    "; it exposes: " ++ (if known = "" then "nothing" else known))

def running (config : ArmadaConfig) : Wait Location :=
  { kind := "running", take := fun event => .ok (locationOf config event)
    suffix := " before it started", missing := " started" }

def ingress (port : Nat) : Wait JsonValue :=
  { kind := "ingressInfo"
    take := fun info =>
      match addressOf info port with
      | some address => .ok address
      | none => .error (noAddress job info port)
    suffix := "", missing := " reported an ingress address" }

def waitForRunning (engine : Engine) (config : ArmadaConfig) (body : ResponseBody) : Except JsError Location :=
  watchBody spelled job engine (running config) body

def ingressAddress (engine : Engine) (port : Nat) (body : ResponseBody) : Except JsError JsonValue :=
  watchBody spelled job engine (ingress job port) body

end

/-! ## What the lines say -/

/-- The message has one event, which is not `null`. -/
def Carries (message : JsonValue) (kind : String) (event : JsonValue) : Prop :=
  event ≠ .null ∧ ∀ key, message.get? key = if key = kind then some event else none

/-- The line is an object, and its message, if it has one, carries one event. -/
def IsLine (line : JsonValue) : Prop :=
  asObject line = .ok line ∧ ∀ message, messageOf line = some message → ∃ kind event, Carries message kind event

section
variable {α : Type} (spelled : JsonValue → Except JsError String) (job : SubmittedJob)

/-- The event of a kind in the message of a line, if it is of the job. -/
def ownEvent (line : JsonValue) (kind : String) : Option JsonValue :=
  ((messageOf line).bind (·.get? kind)).filter fun event => stringOf event "jobId" = some job.jobId

/-- The line is an error of the stream, or has an event of the job. -/
def concerns (line : JsonValue) : Bool :=
  (line.get? "error").isSome ||
    match messageOf line with
    | some (.object members) => members.any fun p => (ownEvent job line p.1).isSome
    | _ => false

/-- What a line that ends a wait brings it to: an error of the stream, an event that is waited for, a failure
that is not retried, or a cancellation. -/
inductive Decides (wait : Wait α) (line : JsonValue) : Except JsError α → Prop
  | stream {failure : JsonValue} (cause : JsError) (hfailure : line.get? "error" = some failure) :
      Decides wait line (.error cause)
  | waited {event : JsonValue} (hquiet : line.get? "error" = none) (hevent : ownEvent job line wait.kind = some event) :
      Decides wait line (wait.take event)
  | failed {event : JsonValue} (cause : JsError) (hevent : ownEvent job line "failed" = some event)
      (hretryable : booleanOf event "retryable" ≠ some true) : Decides wait line (.error cause)
  | cancelled {event : JsonValue} (cause : JsError) (hevent : ownEvent job line "cancelled" = some event) :
      Decides wait line (.error cause)

def Decisive (wait : Wait α) (line : JsonValue) : Prop := ∃ outcome, Decides job wait line outcome

/-- The lines that have come by a moment, where at each moment one comes or none does. -/
def arrived (arrivals : Nat → Option JsonValue) (moment : Nat) : List JsonValue :=
  (List.range moment).filterMap arrivals

/-- What a wait comes to on lines that keep coming. -/
def Settles (wait : Wait α) (arrivals : Nat → Option JsonValue) (outcome : Except JsError α) : Prop :=
  ∃ moment, watchValues spelled job wait (arrived arrivals moment) = some outcome

/-- A wait is judged by the first decisive line, and by the lines that are of the job or the stream. -/
structure Judged (wait : Wait α) : Prop where
  /-- Lines of other jobs make no difference. -/
  concerned : ∀ (lines : List JsonValue) (failure : Option JsError), (∀ line ∈ lines, IsLine line) →
    watchYielded spelled job wait { values := lines, failure } =
      watchYielded spelled job wait { values := lines.filter (concerns job), failure }
  /-- The first decisive line decides, whatever comes after it. -/
  decided : ∀ (before : List JsonValue) (line : JsonValue), (∀ l ∈ before, IsLine l ∧ ¬ Decisive job wait l) →
    IsLine line → Decisive job wait line →
      ∃ outcome, Decides job wait line outcome ∧
        ∀ after, watchValues spelled job wait (before ++ line :: after) = some outcome
  /-- Nothing else decides. -/
  undecided : ∀ lines : List JsonValue, (∀ l ∈ lines, IsLine l ∧ ¬ Decisive job wait l) →
    watchValues spelled job wait lines = none
  /-- The same of lines that keep coming. -/
  settles_concerned : ∀ arrivals : Nat → Option JsonValue, (∀ n line, arrivals n = some line → IsLine line) →
    ∀ outcome, Settles spelled job wait arrivals outcome ↔
      Settles spelled job wait (fun n => (arrivals n).filter (concerns job)) outcome
  settles_decided : ∀ (arrivals : Nat → Option JsonValue) (moment : Nat) (line : JsonValue),
    (∀ n < moment, ∀ l, arrivals n = some l → IsLine l ∧ ¬ Decisive job wait l) →
    arrivals moment = some line → IsLine line → Decisive job wait line →
      ∃ outcome, Decides job wait line outcome ∧
        ∀ outcome', Settles spelled job wait arrivals outcome' ↔ outcome' = outcome
  settles_undecided : ∀ arrivals : Nat → Option JsonValue,
    (∀ n l, arrivals n = some l → IsLine l ∧ ¬ Decisive job wait l) →
      ∀ outcome, ¬ Settles spelled job wait arrivals outcome
  /-- Nor does it matter how the bytes are cut. -/
  chunks : ∀ (engine : Engine) (body body' : ResponseBody), body.chunks.flatten = body'.chunks.flatten →
    body.failure = body'.failure → watchBody spelled job engine wait body = watchBody spelled job engine wait body'

end

section
variable {α : Type} {spelled : JsonValue → Except JsError String} {job : SubmittedJob} {wait : Wait α}

theorem get?_null (key : String) : (Json.null : JsonValue).get? key = none := rfl

theorem propertyOf_eq {value : JsonValue} (h : value ≠ .null) (property : String) :
    propertyOf value property = .ok (value.get? property) := by
  cases value with
  | null => exact absurd rfl h
  | _ => rfl

/-- An event of another job is none, and so is one of another kind. -/
theorem eventFor_eq (job : SubmittedJob) {line message event : JsonValue} {kind : String}
    (hmessage : messageOf line = some message) (h : Carries message kind event) (key : String) :
    eventFor job message key = .ok (ownEvent job line key) := by
  have hne : message ≠ .null := by
    rintro rfl
    have hkind := h.2 kind
    rw [if_pos rfl, get?_null] at hkind
    cases hkind
  unfold eventFor ownEvent
  rw [propertyOf_eq hne, hmessage, Option.bind_some, ok_bind, h.2 key]
  by_cases hkey : key = kind
  · rw [if_pos hkey]
    dsimp only
    rw [propertyOf_eq h.1, ok_bind, Option.filter_some]
    by_cases hjob : stringOf event "jobId" = some job.jobId <;> simp [hjob] <;> rfl
  · rw [if_neg hkey]
    rfl

/-- The line has an end of the job. -/
def Ends (job : SubmittedJob) (line : JsonValue) : Prop :=
  (∃ failed, ownEvent job line "failed" = some failed ∧ booleanOf failed "retryable" ≠ some true) ∨
    ∃ cancelled, ownEvent job line "cancelled" = some cancelled

theorem checkEnd_spec (spelled : JsonValue → Except JsError String) (job : SubmittedJob)
    {line message event : JsonValue} {kind : String} (hmessage : messageOf line = some message)
    (h : Carries message kind event) (suffix : String) :
    (¬ Ends job line ∧ checkEnd spelled job suffix message = .ok ()) ∨
    (Ends job line ∧ ∃ cause, checkEnd spelled job suffix message = .error cause) := by
  have hown := eventFor_eq job hmessage h
  have hcancel : (∃ cancelled, ownEvent job line "cancelled" = some cancelled) ∨
      ownEvent job line "cancelled" = none := by
    cases ownEvent job line "cancelled" with
    | some cancelled => exact .inl ⟨cancelled, rfl⟩
    | none => exact .inr rfl
  unfold checkEnd
  rw [hown, ok_bind, hown]
  by_cases hfailed : ∃ failed, ownEvent job line "failed" = some failed ∧ booleanOf failed "retryable" ≠ some true
  · obtain ⟨failed, hsome, hretryable⟩ := hfailed
    right
    refine ⟨.inl ⟨failed, hsome, hretryable⟩, ?_⟩
    rw [hsome]
    dsimp only
    rw [if_pos hretryable]
    cases textOr spelled (failed.get? "reason") "no reason given" with
    | error cause => exact ⟨cause, rfl⟩
    | ok reason => exact ⟨_, rfl⟩
  · rcases hcancel with ⟨cancelled, hcancelled⟩ | hcancelled
    · right
      refine ⟨.inr ⟨cancelled, hcancelled⟩, error ("Armada job " ++ job.jobId ++ " was cancelled" ++ suffix), ?_⟩
      rw [hcancelled]
      cases hsome : ownEvent job line "failed" with
      | none => rfl
      | some failed =>
        dsimp only
        rw [if_neg fun hretryable => hfailed ⟨failed, hsome, hretryable⟩]
        rfl
    · left
      refine ⟨not_or.mpr ⟨hfailed, by simp [hcancelled]⟩, ?_⟩
      rw [hcancelled]
      cases hsome : ownEvent job line "failed" with
      | none => rfl
      | some failed =>
        dsimp only
        rw [if_neg fun hretryable => hfailed ⟨failed, hsome, hretryable⟩]
        rfl

theorem decisive_iff {line : JsonValue} : Decisive job wait line ↔
    (line.get? "error").isSome ∨ (line.get? "error" = none ∧ (ownEvent job line wait.kind).isSome) ∨ Ends job line := by
  constructor
  · rintro ⟨outcome, hdecides⟩
    cases hdecides with
    | stream cause hfailure => exact .inl (by simp [hfailure])
    | waited hquiet hevent => exact .inr (.inl ⟨hquiet, by simp [hevent]⟩)
    | failed cause hevent hretryable => exact .inr (.inr (.inl ⟨_, hevent, hretryable⟩))
    | cancelled cause hevent => exact .inr (.inr (.inr ⟨_, hevent⟩))
  · rintro (h | ⟨hquiet, h⟩ | ⟨failed, hevent, hretryable⟩ | ⟨cancelled, hevent⟩)
    · obtain ⟨failure, hfailure⟩ := Option.isSome_iff_exists.mp h
      exact ⟨_, .stream (error "") hfailure⟩
    · obtain ⟨event, hevent⟩ := Option.isSome_iff_exists.mp h
      exact ⟨_, .waited hquiet hevent⟩
    · exact ⟨_, .failed (error "") hevent hretryable⟩
    · exact ⟨_, .cancelled (error "") hevent⟩

/-- An end of the job decides, whatever the error. -/
theorem Ends.decides {line : JsonValue} (h : Ends job line) (cause : JsError) :
    Decides job wait line (.error cause) := by
  rcases h with ⟨failed, hevent, hretryable⟩ | ⟨cancelled, hevent⟩
  · exact .failed cause hevent hretryable
  · exact .cancelled cause hevent

/-- A line is read on, or it is decisive and the loop does what it decides. -/
theorem watchLine_spec (spelled : JsonValue → Except JsError String) (job : SubmittedJob) (wait : Wait α)
    {line : JsonValue} (h : IsLine line) :
    (¬ Decisive job wait line ∧ watchLine spelled job wait line = .ok none) ∨
    (∃ outcome, Decides job wait line outcome ∧ watchLine spelled job wait line = outcome.map some) := by
  obtain ⟨hobject, hmessages⟩ := h
  unfold watchLine
  rw [hobject, ok_bind, decisive_iff]
  cases hfailure : line.get? "error" with
  | some failure =>
    right
    dsimp only
    cases propertyOf failure "message" with
    | error cause => exact ⟨.error cause, .stream cause hfailure, rfl⟩
    | ok message =>
      rw [ok_bind]
      cases textOr spelled message "unknown error" with
      | error cause => exact ⟨.error cause, .stream cause hfailure, rfl⟩
      | ok text => exact ⟨.error _, .stream _ hfailure, rfl⟩
  | none =>
    dsimp only
    cases hmessage : messageOf line with
    | none =>
      left
      have hown : ∀ kind, ownEvent job line kind = none := fun kind => by simp [ownEvent, hmessage]
      exact ⟨by simp [Ends, hown], rfl⟩
    | some message =>
      obtain ⟨kind, event, hcarries⟩ := hmessages message hmessage
      dsimp only
      rw [eventFor_eq job hmessage hcarries, ok_bind]
      cases hwaited : ownEvent job line wait.kind with
      | some event =>
        right
        refine ⟨wait.take event, .waited hfailure hwaited, ?_⟩
        cases htake : wait.take event <;> simp [htake] <;> rfl
      | none =>
        dsimp only
        rcases checkEnd_spec spelled job hmessage hcarries wait.suffix with ⟨hends, hcheck⟩ | ⟨hends, cause, hcheck⟩
        · left
          exact ⟨by simp [hends], by rw [hcheck]; rfl⟩
        · right
          exact ⟨.error cause, hends.decides cause, by rw [hcheck]; rfl⟩

theorem watchLine_quiet {line : JsonValue} (h : IsLine line) (hquiet : ¬ Decisive job wait line) :
    watchLine spelled job wait line = .ok none := by
  rcases watchLine_spec spelled job wait h with ⟨-, hread⟩ | ⟨outcome, hdecides, -⟩
  · exact hread
  · exact absurd ⟨outcome, hdecides⟩ hquiet

theorem not_decisive_of_concerns {line : JsonValue} (hnot : ¬ concerns job line = true) :
    ¬ Decisive job wait line := by
  have hown : ∀ kind, ownEvent job line kind = none := by
    intro kind
    cases hevent : ownEvent job line kind with
    | none => rfl
    | some event =>
      refine absurd ?_ hnot
      unfold concerns
      cases hmessage : messageOf line with
      | none => simp [ownEvent, hmessage] at hevent
      | some message =>
        have hget : (message.get? kind).isSome := by
          unfold ownEvent at hevent
          rw [hmessage, Option.bind_some, Option.filter_eq_some_iff] at hevent
          rw [hevent.1, Option.isSome_some]
        cases message with
        | object members =>
          obtain ⟨value, hvalue⟩ := Option.isSome_iff_exists.mp hget
          obtain ⟨member, hfind, -⟩ := Option.map_eq_some_iff.mp hvalue
          have hkey : member.1 = kind := by simpa using List.find?_some hfind
          have hmember : member ∈ members := List.mem_reverse.mp (List.mem_of_find?_eq_some hfind)
          rw [Bool.or_eq_true]
          right
          exact List.any_eq_true.mpr ⟨member, hmember, by rw [hkey, hevent, Option.isSome_some]⟩
        | _ => cases hget
  rw [decisive_iff]
  have hquiet : ¬ (line.get? "error").isSome := fun herror => hnot (by simp [concerns, herror])
  simp [Ends, hown, hquiet]

/-! ## The first decisive line -/

theorem watchValues_quiet {lines : List JsonValue} (h : ∀ l ∈ lines, IsLine l ∧ ¬ Decisive job wait l)
    (more : List JsonValue) : watchValues spelled job wait (lines ++ more) = watchValues spelled job wait more := by
  induction lines with
  | nil => rfl
  | cons line lines ih =>
    obtain ⟨⟨hline, hquiet⟩, hlines⟩ := List.forall_mem_cons.mp h
    rw [List.cons_append, watchValues, watchLine_quiet hline hquiet]
    exact ih hlines

theorem watchValues_decided {line : JsonValue} (hline : IsLine line) (hdecisive : Decisive job wait line) :
    ∃ outcome, Decides job wait line outcome ∧
      ∀ after, watchValues spelled job wait (line :: after) = some outcome := by
  rcases watchLine_spec spelled job wait hline with ⟨hquiet, -⟩ | ⟨outcome, hdecides, hread⟩
  · exact absurd hdecisive hquiet
  · refine ⟨outcome, hdecides, fun after => ?_⟩
    rw [watchValues, hread]
    cases outcome <;> rfl

theorem watchValues_concerned {lines : List JsonValue} (h : ∀ line ∈ lines, IsLine line) :
    watchValues spelled job wait lines = watchValues spelled job wait (lines.filter (concerns job)) := by
  induction lines with
  | nil => rfl
  | cons line lines ih =>
    obtain ⟨hline, hlines⟩ := List.forall_mem_cons.mp h
    by_cases hconcerns : concerns job line = true
    · rw [List.filter_cons_of_pos hconcerns, watchValues, watchValues, ih hlines]
    · rw [List.filter_cons_of_neg hconcerns, watchValues,
        watchLine_quiet hline (not_decisive_of_concerns hconcerns)]
      exact ih hlines

/-! ## Lines that keep coming -/

theorem mem_arrived {arrivals : Nat → Option JsonValue} {moment : Nat} {line : JsonValue} :
    line ∈ arrived arrivals moment ↔ ∃ n < moment, arrivals n = some line := by
  simp [arrived]

theorem arrived_filter (arrivals : Nat → Option JsonValue) (moment : Nat) :
    arrived (fun n => (arrivals n).filter (concerns job)) moment =
      (arrived arrivals moment).filter (concerns job) := by
  unfold arrived
  rw [List.filter_filterMap]

theorem arrived_succ (arrivals : Nat → Option JsonValue) {moment : Nat} {line : JsonValue}
    (h : arrivals moment = some line) : arrived arrivals (moment + 1) = arrived arrivals moment ++ [line] := by
  simp [arrived, List.range_succ, h]

theorem arrived_isPrefix (arrivals : Nat → Option JsonValue) {moment moment' : Nat} (h : moment ≤ moment') :
    arrived arrivals moment <+: arrived arrivals moment' := by
  obtain ⟨k, rfl⟩ := Nat.exists_eq_add_of_le h
  unfold arrived
  rw [List.range_add, List.filterMap_append]
  exact List.prefix_append _ _

theorem settles_decided {arrivals : Nat → Option JsonValue} {moment : Nat} {line : JsonValue}
    (hquiet : ∀ n < moment, ∀ l, arrivals n = some l → IsLine l ∧ ¬ Decisive job wait l)
    (hmoment : arrivals moment = some line) (hline : IsLine line) (hdecisive : Decisive job wait line) :
    ∃ outcome, Decides job wait line outcome ∧
      ∀ outcome', Settles spelled job wait arrivals outcome' ↔ outcome' = outcome := by
  obtain ⟨outcome, hdecides, hread⟩ := watchValues_decided hline hdecisive
  have hbefore : ∀ l ∈ arrived arrivals moment, IsLine l ∧ ¬ Decisive job wait l := by
    intro l hl
    obtain ⟨n, hn, harrives⟩ := mem_arrived.mp hl
    exact hquiet n hn l harrives
  refine ⟨outcome, hdecides, fun outcome' => ⟨?_, ?_⟩⟩
  · rintro ⟨moment', hsettled⟩
    rcases Nat.lt_or_ge moment moment' with hlt | hge
    · obtain ⟨more, hmore⟩ := arrived_isPrefix arrivals (Nat.succ_le_of_lt hlt)
      rw [← hmore, arrived_succ arrivals hmoment, List.append_assoc, watchValues_quiet hbefore, List.singleton_append,
        hread] at hsettled
      exact (Option.some.inj hsettled).symm
    · obtain ⟨more, hmore⟩ := arrived_isPrefix arrivals hge
      have hnone := @watchValues_quiet _ spelled job wait _
        (fun l hl => hbefore l (hmore ▸ List.mem_append_left more hl)) []
      rw [List.append_nil, hsettled] at hnone
      cases hnone
  · rintro rfl
    refine ⟨moment + 1, ?_⟩
    rw [arrived_succ arrivals hmoment, watchValues_quiet hbefore, hread]

theorem judged_wait (spelled : JsonValue → Except JsError String) (job : SubmittedJob) (wait : Wait α) :
    Judged spelled job wait where
  concerned lines failure h := by
    unfold watchYielded
    rw [watchValues_concerned h]
  decided before line hbefore hline hdecisive := by
    obtain ⟨outcome, hdecides, hread⟩ := watchValues_decided hline hdecisive
    exact ⟨outcome, hdecides, fun after => by rw [watchValues_quiet hbefore, hread]⟩
  undecided lines h := by
    have hnone := @watchValues_quiet _ spelled _ _ _ h []
    rwa [List.append_nil] at hnone
  settles_concerned arrivals h outcome := by
    have hlines : ∀ moment, ∀ line ∈ arrived arrivals moment, IsLine line := by
      intro moment line hline
      obtain ⟨n, -, harrives⟩ := mem_arrived.mp hline
      exact h n line harrives
    unfold Settles
    refine exists_congr fun moment => ?_
    rw [arrived_filter, ← watchValues_concerned (hlines moment)]
  settles_decided _ _ _ hquiet hmoment hline hdecisive := settles_decided hquiet hmoment hline hdecisive
  settles_undecided arrivals h outcome := by
    rintro ⟨moment, hsettled⟩
    have hnone := @watchValues_quiet _ spelled job wait (arrived arrivals moment) (fun l hl => by
      obtain ⟨n, -, harrives⟩ := mem_arrived.mp hl
      exact h n l harrives) []
    rw [List.append_nil, hsettled] at hnone
    cases hnone
  chunks engine body body' hbytes hfailure := by
    unfold watchBody
    rw [readNdjson_eq, readNdjson_eq, hbytes, hfailure]

theorem addressOf_ne_empty {info address : JsonValue} {port : Nat} (h : addressOf info port = some address) :
    address ≠ .string "" := by
  rintro rfl
  unfold addressOf at h
  split at h
  · cases h
  · cases h
  · rename_i hempty _
    exact hempty (Option.some.inj h)

/-- **The first decisive line of its own job**: the lines of other jobs, however the stream is cut and whatever
follows, make no difference to a wait for the job to run, nor to one for the address of a port. The first gives
where the event says the pod is, the second the address the event has for the port, if it has one. -/
theorem first_decisive (spelled : JsonValue → Except JsError String) (config : ArmadaConfig) (job : SubmittedJob)
    (port : Nat) :
    Judged spelled job (running config) ∧ Judged spelled job (ingress job port) ∧
    (∀ event, (running config).take event = .ok (locationOf config event)) ∧
    ∀ event, (∃ address, addressOf event port = some address ∧ address ≠ .string "" ∧
        (ingress job port).take event = .ok address) ∨
      (addressOf event port = none ∧ ∃ cause, (ingress job port).take event = .error cause) := by
  refine ⟨judged_wait spelled job (running config), judged_wait spelled job (ingress job port), fun _ => rfl, ?_⟩
  intro event
  unfold ingress
  cases haddress : addressOf event port with
  | some address => exact .inl ⟨address, rfl, addressOf_ne_empty haddress, by simp [haddress]⟩
  | none => exact .inr ⟨rfl, noAddress job event port, by simp [haddress]⟩

/-! ## The ends of a job -/

/-- The line has a terminal event of the job: a failure that is not retried, a cancellation, or its success. -/
def Terminal (job : SubmittedJob) (line : JsonValue) : Prop :=
  line.get? "error" = none ∧ (Ends job line ∨ (ownEvent job line "succeeded").isSome)

/-- The job reaches its first end at a line, with nothing before that ends the wait. -/
structure Reaches (job : SubmittedJob) (wait : Wait α) (before : List JsonValue) (line : JsonValue) : Prop where
  quiet : ∀ l ∈ before, IsLine l ∧ ¬ Decisive job wait l ∧ ¬ Terminal job l
  isLine : IsLine line
  terminal : Terminal job line

/-- The wait rejects on reading the line, before it reads another. -/
def Rejects (spelled : JsonValue → Except JsError String) (job : SubmittedJob) (wait : Wait α)
    (before : List JsonValue) (line : JsonValue) : Prop :=
  ∃ cause, watchValues spelled job wait (before ++ [line]) = some (.error cause)

theorem ownEvent_kind {line : JsonValue} (h : IsLine line) {kind kind' : String}
    (hkind : (ownEvent job line kind).isSome) (hkind' : (ownEvent job line kind').isSome) : kind = kind' := by
  cases hmessage : messageOf line with
  | none => simp [ownEvent, hmessage] at hkind
  | some message =>
    obtain ⟨own, event, hcarries⟩ := h.2 message hmessage
    have hown : ∀ key, (ownEvent job line key).isSome → key = own := by
      intro key hkey
      by_contra hne
      simp [ownEvent, hmessage, hcarries.2 key, if_neg hne] at hkey
    rw [hown kind hkind, hown kind' hkind']

theorem rejects_iff {before : List JsonValue} {line : JsonValue} (h : Reaches job wait before line)
    (hkind : wait.kind ∉ ["failed", "cancelled", "succeeded"]) :
    Rejects spelled job wait before line ↔ ownEvent job line "succeeded" = none := by
  have hbefore : ∀ l ∈ before, IsLine l ∧ ¬ Decisive job wait l := fun l hl => ⟨(h.quiet l hl).1, (h.quiet l hl).2.1⟩
  obtain ⟨hquiet, hterminal⟩ := h.terminal
  unfold Rejects
  rw [watchValues_quiet hbefore]
  rcases hterminal with hends | hsucceeded
  · have hkinds : ∃ key ∈ ["failed", "cancelled"], (ownEvent job line key).isSome := by
      rcases hends with ⟨failed, hfailed, -⟩ | ⟨cancelled, hcancelled⟩
      · exact ⟨"failed", by decide, by simp [hfailed]⟩
      · exact ⟨"cancelled", by decide, by simp [hcancelled]⟩
    obtain ⟨key, hkey, hown⟩ := hkinds
    have hnone : ownEvent job line "succeeded" = none := by
      by_contra hsome
      have heq := ownEvent_kind h.isLine hown (Option.isSome_iff_ne_none.mpr hsome)
      exact absurd (heq ▸ hkey) (by decide)
    refine iff_of_true ?_ hnone
    obtain ⟨outcome, hdecides, hread⟩ :=
      watchValues_decided h.isLine (decisive_iff.mpr (.inr (.inr hends)))
    rw [hread]
    cases hdecides with
    | waited _ hevent =>
      have heq := ownEvent_kind h.isLine hown (Option.isSome_iff_exists.mpr ⟨_, hevent⟩)
      exact absurd (List.mem_append_left ["succeeded"] (heq ▸ hkey)) hkind
    | stream cause _ | failed cause _ _ | cancelled cause _ => exact ⟨cause, rfl⟩
  · refine iff_of_false ?_ (Option.isSome_iff_ne_none.mp hsucceeded)
    have hnot : ¬ Decisive job wait line := by
      rw [decisive_iff]
      rintro (hfailure | ⟨-, hevent⟩ | ⟨failed, hfailed, -⟩ | ⟨cancelled, hcancelled⟩)
      · simp [hquiet] at hfailure
      · have heq := ownEvent_kind h.isLine hevent hsucceeded
        exact hkind (by simp [heq])
      · have heq := ownEvent_kind h.isLine (Option.isSome_iff_exists.mpr ⟨failed, hfailed⟩) hsucceeded
        exact absurd heq (by decide)
      · have heq := ownEvent_kind h.isLine (Option.isSome_iff_exists.mpr ⟨cancelled, hcancelled⟩) hsucceeded
        exact absurd heq (by decide)
    rw [watchValues, watchLine_quiet h.isLine hnot]
    rintro ⟨cause, hread⟩
    cases hread

/-- **Which ends of the job end a wait**: both waits reject on reading the job's first terminal event exactly
where that is no success, which both overlook. -/
theorem terminal_rejects (spelled : JsonValue → Except JsError String) (config : ArmadaConfig) (job : SubmittedJob)
    (port : Nat) (before : List JsonValue) (line : JsonValue) :
    (Reaches job (running config) before line →
      (Rejects spelled job (running config) before line ↔ ownEvent job line "succeeded" = none)) ∧
    (Reaches job (ingress job port) before line →
      (Rejects spelled job (ingress job port) before line ↔ ownEvent job line "succeeded" = none)) :=
  ⟨fun h => rejects_iff h (by simp [running]), fun h => rejects_iff h (by simp [ingress])⟩

/-- The job of sandbox `s`. -/
def jobOne : SubmittedJob := { jobId := "01", jobSetId := "s", queue := .own "default" }

/-- It exited before its ingress was reported. -/
def succeededLine : JsonValue :=
  .object [("result", .object [("message", .object [("succeeded", .object [("jobId", .string "01")])])])]

theorem succeeded_overlooked :
    Reaches jobOne (ingress jobOne 80) [] succeededLine ∧
    ¬ Rejects (fun _ => .ok "[object Object]") jobOne (ingress jobOne 80) [] succeededLine := by
  have hmessage : messageOf succeededLine = some (.object [("succeeded", .object [("jobId", .string "01")])]) := by
    simp [messageOf, succeededLine, Json.get?]
  have hreaches : Reaches jobOne (ingress jobOne 80) [] succeededLine := by
    refine ⟨fun _ h => (nomatch h), ⟨rfl, fun message hsome => ?_⟩, ?_, .inr ?_⟩
    · refine ⟨"succeeded", .object [("jobId", .string "01")], nofun, fun key => ?_⟩
      obtain rfl := Option.some.inj (hmessage.symm.trans hsome)
      by_cases hkey : key = "succeeded" <;> simp [Json.get?, hkey, eq_comm]
    · simp [succeededLine, Json.get?]
    · simp [ownEvent, hmessage, Json.get?, stringOf, jobOne]
  refine ⟨hreaches, ?_⟩
  rw [rejects_iff hreaches (by simp [ingress]), ← Option.not_isSome_iff_eq_none, not_not]
  simp [ownEvent, hmessage, Json.get?, stringOf, jobOne]

end

end Watch

end ComputeArmada.Adapter
