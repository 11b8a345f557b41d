import ComputeArmada.Agent.Bounded
import ComputeArmada.Lib.Run

/-!
# The slots of the bounded reads

Any number of `GET /files/bounded` requests at once: a handler and the read that it starts, which share the channel
`done`, a context and the semaphore `boundedReads`, and which end in any order.

* `Flight`, `World`, `step` : one request with its read, all of them, and what one of them does next;
* `Flight.Fine`, `World.Inv` : what every reachable state keeps; `Flight.Fine.handle`, `inv_step` : one step of it;
* `slots_kept` : no slot is lost or lent twice, and no request is answered twice.
-/

namespace ComputeArmada.Agent.Slots
open Paths Runs

/-! ## The handler by its parts -/

structure Params where
  path : Path
  maxBytes : Nat
  timeoutMs : Nat
  deriving DecidableEq

/-- What is checked before a slot is asked for. -/
def params (r : Request) : Except Response Params := do
  let path ← pathParam r
  let maxBytes ← maxBytesParam r
  let timeoutMs ← timeoutParam r
  if ¬ boundedPath path then
    throw (writeCodedError 400 "read_failed" (bytes "path must be absolute, name a file and have no ..: " ++ path))
  return { path, maxBytes, timeoutMs }

def allTaken : Response :=
  writeCodedError 503 "read_failed" (bytes (toString maxBoundedReads ++ " bounded reads are already running"))

abbrev Outcome := Except ReadError (List UInt8)

def answerRead (path : Path) : Outcome → Response
  | .error err =>
    if err.notExist then writeCodedError 404 "not_found" (bytes "no such file: " ++ path)
    else writeCodedError 500 "read_failed" err.text
  | .ok data => { status := 200, body := data }

theorem readFileBounded_eq (s : Schedule) (r : Request) : readFileBounded s r = match params r with
    | .error refused => refused
    | .ok p =>
      if maxBoundedReads ≤ s.running then allTaken
      else answerRead p.path (s.read p.path p.maxBytes p.timeoutMs) := by
  unfold readFileBounded params
  simp only [bind, Except.bind]
  cases pathParam r with
  | error refused => rfl
  | ok path =>
    cases maxBytesParam r with
    | error refused => rfl
    | ok maxBytes =>
      cases timeoutParam r with
      | error refused => rfl
      | ok timeoutMs =>
        by_cases hbounded : boundedPath path = true
        · by_cases hfull : maxBoundedReads ≤ s.running
          · simp only [hbounded, hfull, not_true_eq_false, if_false, if_true]
            rfl
          · simp only [hbounded, hfull, not_true_eq_false, if_false, pure, Except.pure]
            cases s.read path maxBytes timeoutMs with
            | ok data => rfl
            | error err =>
              simp only [answerRead]
              split
              · rfl
              · rfl
        · simp only [hbounded]
          rfl

/-! ## Requests and their reads -/

inductive Phase
  | arrived
  | checked (p : Params)
  /-- A slot is taken, and the read is the next thing to be started. -/
  | admitted (p : Params)
  /-- In the `select` between `done` and `ctx.Done()`. -/
  | waiting (p : Params)
  | answered
  deriving DecidableEq

/-- Where the goroutine of a read is: `running` from its first call to its last, in any of which it may block. -/
inductive Read
  | none
  | starting
  | running (p : Params)
  | sent
  | ended
  deriving DecidableEq

def Read.live : Read → Bool
  | .starting | .running _ | .sent => true
  | .none | .ended => false

structure Flight where
  request : Request
  phase : Phase
  /-- The caller has gone away. -/
  gone : Bool
  ctx : Option CtxErr
  read : Read
  /-- The channel of one place between the two. -/
  done : Option Outcome
  /-- What has been written to the caller. -/
  answers : List Response

def Flight.new (request : Request) : Flight :=
  { request, phase := .arrived, gone := false, ctx := none, read := .none, done := none, answers := [] }

def Flight.reply (f : Flight) (response : Response) : Flight :=
  { f with phase := .answered, answers := f.answers ++ [response] }

/-- `defer cancel()` -/
def Flight.cancel (f : Flight) : Flight := { f with ctx := f.ctx.or (some .canceled) }

inductive Act
  | check
  | letIn
  | start
  /-- The read comes to its end, with these calls. -/
  | finish (calls : Nat → Moment)
  | release
  | deadline
  | disconnect
  | receive
  | timeUp

def ctxError (p : Params) : CtxErr → ReadError
  | .deadlineExceeded => .deadline p.path p.timeoutMs
  | .canceled => .gone p.path

/-- A step of a request, and how many slots are taken after it. -/
def handle (slots : Nat) (f : Flight) : Act → Option (Nat × Flight)
  | .check =>
    match f.phase with
    | .arrived => match params f.request with
      | .error refused => some (slots, f.reply refused)
      | .ok p => some (slots, { f with phase := .checked p })
    | _ => none
  | .letIn =>
    match f.phase with
    | .checked p =>
      if slots < maxBoundedReads then some (slots + 1, { f with phase := .admitted p, read := .starting })
      else some (slots, f.reply allTaken)
    | _ => none
  | .start =>
    match f.phase with
    | .admitted p =>
      some (slots, { f with phase := .waiting p, read := .running p, ctx := if f.gone then some .canceled else none })
    | _ => none
  | .finish calls =>
    -- the send would wait if `done` were full
    match f.read, f.done with
    | .running p, none => some (slots, { f with read := .sent, done := some (readBounded calls p.path p.maxBytes) })
    | _, _ => none
  | .release =>
    -- and the receive if no slot were taken
    match f.read, slots with
    | .sent, slots + 1 => some (slots, { f with read := .ended })
    | _, _ => none
  | .deadline =>
    match f.phase, f.ctx with
    | .waiting _, none => some (slots, { f with ctx := some .deadlineExceeded })
    | _, _ => none
  | .disconnect =>
    match f.phase with
    | .waiting _ => some (slots, { f with gone := true, ctx := f.ctx.or (some .canceled) })
    | _ => some (slots, { f with gone := true })
  | .receive =>
    match f.phase, f.done with
    | .waiting p, some outcome => some (slots, { f with done := none }.reply (answerRead p.path outcome) |>.cancel)
    | _, _ => none
  | .timeUp =>
    match f.phase, f.ctx with
    | .waiting p, some err => some (slots, f.reply (answerRead p.path (.error (ctxError p err))) |>.cancel)
    | _, _ => none

/-- The agent: how many places of `boundedReads` are taken, and every request it was sent. -/
structure World where
  slots : Nat
  flights : List Flight

def World.init : World := { slots := 0, flights := [] }

inductive Action
  | arrive (request : Request)
  | act (i : Nat) (a : Act)

def step (w : World) : Action → Option World
  | .arrive request => some { w with flights := w.flights ++ [Flight.new request] }
  | .act i a => do
    let f ← w.flights[i]?
    let (slots, f) ← handle w.slots f a
    return { slots, flights := w.flights.set i f }

/-! ## What is kept -/

/-- What is known of a request and its read, by where the handler is; what is answered is what the handler answers of
itself, for some course of the read. -/
def Flight.Fine (f : Flight) : Prop :=
  match f.phase with
  | .arrived => f.answers = [] ∧ f.done = none ∧ f.read = .none
  | .checked p => f.answers = [] ∧ f.done = none ∧ f.read = .none ∧ params f.request = .ok p
  | .admitted p => f.answers = [] ∧ f.done = none ∧ f.read = .starting ∧ params f.request = .ok p
  | .waiting p => f.answers = [] ∧ params f.request = .ok p ∧ (f.done = none ∧ f.read = .running p ∨
      (f.read = .sent ∨ f.read = .ended) ∧ ∃ calls, f.done = some (readBounded calls p.path p.maxBytes))
  | .answered => (∃ s : Schedule, f.answers = [readFileBounded s f.request]) ∧ (f.read = .none ∨
      ∃ p, params f.request = .ok p ∧ (f.done = none ∧ f.read = .running p ∨ f.read = .sent ∨ f.read = .ended))

theorem Flight.fine_new (request : Request) : (Flight.new request).Fine := ⟨rfl, rfl, rfl⟩

/-- A read that has not ended holds its slot. -/
def Read.holds (read : Read) : Nat := if read.live then 1 else 0

section
variable {slots slots' : Nat} {f f' : Flight} {p : Params}

/-- An answer in the words of the handler, of a schedule that leads to it. -/
theorem exists_schedule (hp : params f.request = .ok p) (outcome : Option CtxErr) (calls : Nat → Moment) :
    ∃ s : Schedule, readFileBounded s f.request = answerRead p.path (match outcome with
      | some err => .error (ctxError p err)
      | none => readBounded calls p.path p.maxBytes) := by
  refine ⟨{ running := 0, calls, first := outcome }, ?_⟩
  rw [readFileBounded_eq, hp]
  dsimp only
  rw [if_neg (by decide), Schedule.read]
  cases outcome with
  | none => rfl
  | some err => cases err <;> rfl

theorem fine_refused {refused : Response} (hf : f.Fine) (harrived : f.phase = .arrived)
    (hrefused : params f.request = .error refused) : (f.reply refused).Fine := by
  unfold Flight.Fine at hf
  rw [harrived] at hf
  obtain ⟨hanswers, hdone, hread⟩ := hf
  refine ⟨⟨{ running := 0, calls := fun _ => ⟨procLike, none, 1, by decide, none⟩, first := none }, ?_⟩, .inl hread⟩
  rw [readFileBounded_eq, show (f.reply refused).request = f.request from rfl, hrefused]
  simp [Flight.reply, hanswers]

/-- A read that has begun leaves its handler with nothing to do but to wait for it, if that. -/
theorem Flight.Fine.begun (hf : f.Fine) (hnone : f.read ≠ .none) (hstarting : f.read ≠ .starting) :
    (∃ p, f.phase = .waiting p) ∨ f.phase = .answered := by
  unfold Flight.Fine at hf
  split at hf
  · exact absurd hf.2.2 hnone
  · exact absurd hf.2.2.1 hnone
  · exact absurd hf.2.2.1 hstarting
  · rename_i p hphase
    exact .inl ⟨p, hphase⟩
  · rename_i hphase
    exact .inr hphase

/-- What a step of a request does: it keeps what is known, and takes as many slots as reads have begun. -/
theorem Flight.Fine.handle {a : Act} (hf : f.Fine) (h : handle slots f a = some (slots', f')) :
    f'.Fine ∧ slots' + f.read.holds = slots + f'.read.holds ∧ (slots ≤ maxBoundedReads → slots' ≤ maxBoundedReads) := by
  cases a with
  | check =>
    dsimp only [Slots.handle] at h
    split at h
    · rename_i harrived
      split at h
      · rename_i refused hrefused
        cases h
        exact ⟨fine_refused hf harrived hrefused, rfl, id⟩
      · rename_i p hp
        cases h
        unfold Flight.Fine at hf
        rw [harrived] at hf
        exact ⟨⟨hf.1, hf.2.1, hf.2.2, hp⟩, rfl, id⟩
    · cases h
  | letIn =>
    dsimp only [Slots.handle] at h
    split at h
    · rename_i p hchecked
      unfold Flight.Fine at hf
      rw [hchecked] at hf
      obtain ⟨hanswers, hdone, hread, hp⟩ := hf
      split at h
      · rename_i hfree
        cases h
        refine ⟨⟨hanswers, hdone, rfl, hp⟩, ?_, fun _ => hfree⟩
        rw [hread]
        rfl
      · rename_i hfull
        cases h
        refine ⟨⟨⟨{ running := slots, calls := fun _ => ⟨procLike, none, 1, by decide, none⟩, first := none }, ?_⟩,
          .inl hread⟩, rfl, id⟩
        rw [readFileBounded_eq, show (f.reply allTaken).request = f.request from rfl, hp]
        dsimp only
        rw [if_pos (by omega)]
        simp [Flight.reply, hanswers]
    · cases h
  | start =>
    dsimp only [Slots.handle] at h
    split at h
    · rename_i p hadmitted
      unfold Flight.Fine at hf
      rw [hadmitted] at hf
      obtain ⟨hanswers, hdone, hread, hp⟩ := hf
      cases h
      refine ⟨⟨hanswers, hp, .inl ⟨hdone, rfl⟩⟩, ?_, id⟩
      rw [hread]
      rfl
    · cases h
  | finish calls =>
    dsimp only [Slots.handle] at h
    split at h
    · rename_i p hread hdone
      cases h
      have hbegun := hf.begun (by simp [hread]) (by simp [hread])
      refine ⟨?_, by rw [hread]; rfl, id⟩
      unfold Flight.Fine at hf ⊢
      rcases hbegun with ⟨p', hphase⟩ | hphase
      · rw [hphase] at hf ⊢
        obtain ⟨hanswers, hp, ⟨-, hread'⟩ | ⟨hread' | hread', -⟩⟩ := hf
        · obtain rfl : p' = p := Read.running.inj (hread'.symm.trans hread)
          exact ⟨hanswers, hp, .inr ⟨.inl rfl, calls, rfl⟩⟩
        · cases hread'.symm.trans hread
        · cases hread'.symm.trans hread
      · rw [hphase] at hf ⊢
        obtain ⟨hanswers, hread' | ⟨p', hp, -⟩⟩ := hf
        · cases hread'.symm.trans hread
        · exact ⟨hanswers, .inr ⟨p', hp, .inr (.inl rfl)⟩⟩
    · cases h
  | release =>
    dsimp only [Slots.handle] at h
    split at h
    · rename_i slots hread
      cases h
      have hbegun := hf.begun (by simp [hread]) (by simp [hread])
      refine ⟨?_, by rw [hread]; rfl, fun h => by omega⟩
      unfold Flight.Fine at hf ⊢
      rcases hbegun with ⟨p', hphase⟩ | hphase
      · rw [hphase] at hf ⊢
        obtain ⟨hanswers, hp, ⟨-, hread'⟩ | ⟨-, hdone⟩⟩ := hf
        · cases hread'.symm.trans hread
        · exact ⟨hanswers, hp, .inr ⟨.inr rfl, hdone⟩⟩
      · rw [hphase] at hf ⊢
        obtain ⟨hanswers, hread' | ⟨p', hp, -⟩⟩ := hf
        · cases hread'.symm.trans hread
        · exact ⟨hanswers, .inr ⟨p', hp, .inr (.inr rfl)⟩⟩
    · cases h
  | deadline =>
    dsimp only [Slots.handle] at h
    split at h
    · cases h
      exact ⟨hf, rfl, id⟩
    · cases h
  | disconnect =>
    dsimp only [Slots.handle] at h
    split at h
    · cases h
      exact ⟨hf, rfl, id⟩
    · cases h
      exact ⟨hf, rfl, id⟩
  | receive =>
    dsimp only [Slots.handle] at h
    split at h
    · rename_i p outcome hwaiting hdone
      cases h
      simp only [Flight.Fine] at hf
      rw [hwaiting] at hf
      obtain ⟨hanswers, hp, ⟨hdone', -⟩ | ⟨hread, calls, hdone'⟩⟩ := hf
      · cases hdone'.symm.trans hdone
      · obtain rfl := Option.some.inj (hdone'.symm.trans hdone)
        obtain ⟨s, hs⟩ := exists_schedule hp none calls
        refine ⟨⟨⟨s, ?_⟩, .inr ⟨p, hp, .inr hread⟩⟩, rfl, id⟩
        change f.answers ++ _ = [readFileBounded s f.request]
        rw [hanswers, hs]
        rfl
    · cases h
  | timeUp =>
    dsimp only [Slots.handle] at h
    split at h
    · rename_i p err hwaiting hctx
      cases h
      simp only [Flight.Fine] at hf
      rw [hwaiting] at hf
      obtain ⟨hanswers, hp, hread⟩ := hf
      obtain ⟨s, hs⟩ := exists_schedule hp (some err) fun _ => ⟨procLike, none, 1, by decide, none⟩
      refine ⟨⟨⟨s, ?_⟩, .inr ⟨p, hp, hread.imp_right And.left⟩⟩, rfl, id⟩
      change f.answers ++ _ = [readFileBounded s f.request]
      rw [hanswers, hs]
      rfl
    · cases h

theorem handle_answered {a : Act} (hanswered : f.phase = .answered) (h : handle slots f a = some (slots', f')) :
    f'.phase = .answered ∧ f'.answers = f.answers := by
  cases a with
  | finish calls =>
    dsimp only [Slots.handle] at h
    split at h
    · cases h
      exact ⟨hanswered, rfl⟩
    · cases h
  | release =>
    dsimp only [Slots.handle] at h
    split at h
    · cases h
      exact ⟨hanswered, rfl⟩
    · cases h
  | disconnect =>
    dsimp only [Slots.handle] at h
    rw [hanswered] at h
    cases h
    exact ⟨rfl, rfl⟩
  | _ =>
    dsimp only [Slots.handle] at h
    rw [hanswered] at h
    cases h

theorem status_intParam {r : Request} {key message : String} {least most : Int} {refused : Response}
    (h : intParam r key least most message = .error refused) : refused.status = 400 := by
  unfold intParam at h
  split at h
  · split at h
    · cases h
      rfl
    · cases h
  · cases h
    rfl

theorem status_params {r : Request} {refused : Response} (h : params r = .error refused) : refused.status = 400 := by
  unfold params at h
  simp only [bind, Except.bind] at h
  split at h
  · rename_i hpath
    cases h
    unfold pathParam at hpath
    split at hpath
    · cases hpath
      rfl
    · cases hpath
  split at h
  · rename_i hmax
    cases h
    exact status_intParam hmax
  split at h
  · rename_i htimeout
    cases h
    exact status_intParam htimeout
  split at h
  · cases h
    rfl
  · cases h

theorem status_answerRead (path : Path) (outcome : Outcome) : (answerRead path outcome).status ≠ 503 := by
  cases outcome with
  | ok data => exact fun h => nomatch h
  | error err =>
    rw [answerRead]
    split
    · exact fun h => nomatch h
    · exact fun h => nomatch h

theorem handle_allTaken {a : Act} {response : Response} (h : handle slots f a = some (slots', f'))
    (hmem : response ∈ f'.answers) (hstatus : response.status = 503) :
    response ∈ f.answers ∨ a = .letIn ∧ maxBoundedReads ≤ slots := by
  have hreply : ∀ {f₁ : Flight} {refused : Response}, refused.status ≠ 503 → f₁.answers = f.answers ++ [refused] →
      response ∈ f₁.answers → response ∈ f.answers := by
    intro f₁ refused hrefused hanswers hmem
    rw [hanswers] at hmem
    rcases List.mem_append.mp hmem with hmem | hmem
    · exact hmem
    · rw [List.mem_singleton.mp hmem] at hstatus
      exact absurd hstatus hrefused
  cases a with
  | check =>
    dsimp only [Slots.handle] at h
    split at h
    · split at h
      · rename_i refused hrefused
        cases h
        refine .inl (hreply (by rw [status_params hrefused]; decide) rfl hmem)
      · cases h
        exact .inl hmem
    · cases h
  | letIn =>
    dsimp only [Slots.handle] at h
    split at h
    · split at h
      · cases h
        exact .inl hmem
      · rename_i hfull
        exact .inr ⟨rfl, by omega⟩
    · cases h
  | receive =>
    dsimp only [Slots.handle] at h
    split at h
    · cases h
      exact .inl (hreply (status_answerRead _ _) rfl hmem)
    · cases h
  | timeUp =>
    dsimp only [Slots.handle] at h
    split at h
    · cases h
      exact .inl (hreply (status_answerRead _ _) rfl hmem)
    · cases h
  | _ =>
    dsimp only [Slots.handle] at h
    split at h
    · cases h
      exact .inl hmem
    · cases h
      try exact .inl hmem

end

/-! ## All of them -/

/-- How many reads have begun and have not ended. -/
def World.reads (w : World) : Nat := w.flights.countP fun f => f.read.live

structure World.Inv (w : World) : Prop where
  fine : ∀ f ∈ w.flights, f.Fine
  counted : w.slots = w.reads
  bounded : w.slots ≤ maxBoundedReads

theorem inv_init : World.init.Inv := ⟨fun _ h => (nomatch h), rfl, Nat.zero_le _⟩

section
variable {w w' : World}

theorem step_act {i : Nat} {a : Act} (h : step w (.act i a) = some w') : ∃ f slots f',
    w.flights[i]? = some f ∧ handle w.slots f a = some (slots, f') ∧ w' = { slots, flights := w.flights.set i f' } := by
  obtain ⟨f, hf, h⟩ := Option.bind_eq_some_iff.mp h
  obtain ⟨⟨slots, f'⟩, hhandle, h⟩ := Option.bind_eq_some_iff.mp h
  exact ⟨f, slots, f', hf, hhandle, (Option.some.inj h).symm⟩

theorem act_step {i slots : Nat} {a : Act} {f f' : Flight} (hf : w.flights[i]? = some f)
    (h : handle w.slots f a = some (slots, f')) :
    step w (.act i a) = some { slots, flights := w.flights.set i f' } := by
  simp [step, hf, h]

theorem inv_step {a : Action} (hw : w.Inv) (h : step w a = some w') : w'.Inv := by
  cases a with
  | arrive request =>
    cases h
    refine ⟨List.forall_mem_append.mpr ⟨hw.fine, fun f hf => ?_⟩, ?_, hw.bounded⟩
    · rw [List.mem_singleton.mp hf]
      exact Flight.fine_new request
    · rw [World.reads, List.countP_append, hw.counted]
      rfl
  | act i a =>
    obtain ⟨f, slots, f', hf, hhandle, rfl⟩ := step_act h
    obtain ⟨hi, hget⟩ := List.getElem?_eq_some_iff.mp hf
    have hmem := List.mem_of_getElem? hf
    obtain ⟨hfine, hslots, hbound⟩ := (hw.fine f hmem).handle hhandle
    refine ⟨fun g hg => ?_, ?_, hbound hw.bounded⟩
    · rcases List.mem_or_eq_of_mem_set hg with hg | rfl
      · exact hw.fine g hg
      · exact hfine
    · have hcount := hw.counted
      have hpos : f.read.live = true → 0 < w.reads := fun hlive => List.countP_pos_iff.mpr ⟨f, hmem, hlive⟩
      unfold World.reads at hcount hpos ⊢
      rw [List.countP_set hi, hget]
      unfold Read.holds at hslots
      dsimp only
      cases hlive : f.read.live with
      | true =>
        have := hpos hlive
        rw [hlive] at hslots
        simp only [if_true] at hslots ⊢
        omega
      | false =>
        rw [hlive] at hslots
        simp only [Bool.false_eq_true, if_false] at hslots ⊢
        omega

theorem inv_run (h : Run (Fires step) Any World.init w) : w.Inv :=
  h.inv World.Inv (fun _ _ _ hw _ hstep => inv_step hw hstep) inv_init

theorem answered_step {a : Action} {i : Nat} {f : Flight} (h : step w a = some w') (hf : w.flights[i]? = some f)
    (hanswered : f.phase = .answered) :
    ∃ f', w'.flights[i]? = some f' ∧ f'.phase = .answered ∧ f'.answers = f.answers := by
  cases a with
  | arrive request =>
    cases h
    exact ⟨f, by rw [List.getElem?_append_left (List.getElem?_eq_some_iff.mp hf).1, hf], hanswered, rfl⟩
  | act j a =>
    obtain ⟨g, slots, g', hg, hhandle, rfl⟩ := step_act h
    by_cases hij : j = i
    · subst hij
      obtain rfl : f = g := Option.some.inj (hf.symm.trans hg)
      obtain ⟨hphase, hanswers⟩ := handle_answered hanswered hhandle
      exact ⟨g', List.getElem?_set_self (List.getElem?_eq_some_iff.mp hf).1, hphase, hanswers⟩
    · exact ⟨f, by rw [List.getElem?_set_ne hij, hf], hanswered, rfl⟩

theorem answered_run {i : Nat} {f : Flight} (h : Run (Fires step) Any w w') (hf : w.flights[i]? = some f)
    (hanswered : f.phase = .answered) :
    ∃ f', w'.flights[i]? = some f' ∧ f'.phase = .answered ∧ f'.answers = f.answers := by
  refine h.inv (fun w' => ∃ f', w'.flights[i]? = some f' ∧ f'.phase = .answered ∧ f'.answers = f.answers)
    (fun t a u ⟨g, hg, hphase, hanswers⟩ _ hstep => ?_) ⟨f, hf, hanswered, rfl⟩
  obtain ⟨g', hg', hphase', hanswers'⟩ := answered_step hstep hg hphase
  exact ⟨g', hg', hphase', hanswers'.trans hanswers⟩

theorem allTaken_step {a : Action} {i : Nat} {f' : Flight} {response : Response} (h : step w a = some w')
    (hf' : w'.flights[i]? = some f') (hmem : response ∈ f'.answers) (hstatus : response.status = 503) :
    (∃ f, w.flights[i]? = some f ∧ response ∈ f.answers) ∨ a = .act i .letIn ∧ maxBoundedReads ≤ w.slots := by
  cases a with
  | arrive request =>
    cases h
    by_cases hi : i < w.flights.length
    · rw [List.getElem?_append_left hi] at hf'
      exact .inl ⟨f', hf', hmem⟩
    · rw [List.getElem?_append_right (by omega)] at hf'
      rw [List.mem_singleton.mp (List.mem_of_getElem? hf')] at hmem
      cases hmem
  | act j a =>
    obtain ⟨g, slots, g', hg, hhandle, rfl⟩ := step_act h
    by_cases hij : j = i
    · subst hij
      rw [List.getElem?_set_self (List.getElem?_eq_some_iff.mp hg).1] at hf'
      obtain rfl := Option.some.inj hf'
      rcases handle_allTaken hhandle hmem hstatus with hbefore | ⟨rfl, hfull⟩
      · exact .inl ⟨g, hg, hbefore⟩
      · exact .inr ⟨rfl, hfull⟩
    · rw [List.getElem?_set_ne hij] at hf'
      exact .inl ⟨f', hf', hmem⟩

end

/-- What holds in every state of the agent. -/
structure Kept (w : World) : Prop where
  counted : w.slots = w.reads
  bounded : w.slots ≤ maxBoundedReads
  once : ∀ f ∈ w.flights, f.answers.length ≤ 1
  /-- Refused parameters take no slot. -/
  refused : ∀ f ∈ w.flights, ∀ refused, params f.request = .error refused →
    f.read = .none ∧ ∀ answer ∈ f.answers, answer = refused
  /-- A request that is well formed is refused where all slots are taken, and else takes one. -/
  admits : ∀ i f p, w.flights[i]? = some f → f.phase = .checked p → step w (.act i .letIn) = some
    (if w.slots = maxBoundedReads then { w with flights := w.flights.set i (f.reply allTaken) }
     else { slots := w.slots + 1, flights := w.flights.set i { f with phase := .admitted p, read := .starting } })
  /-- Nothing else is refused so. -/
  turnsAway : ∀ a w', step w a = some w' → ∀ i f', w'.flights[i]? = some f' →
    ∀ answer ∈ f'.answers, answer.status = 503 →
      (∃ f, w.flights[i]? = some f ∧ answer ∈ f.answers) ∨ a = .act i .letIn ∧ w.slots = maxBoundedReads
  /-- With its context ended a request can be answered, and its read goes on. -/
  inTime : ∀ i f p err, w.flights[i]? = some f → f.phase = .waiting p → f.ctx = some err →
    ∃ f', step w (.act i .timeUp) = some { w with flights := w.flights.set i f' } ∧ f'.phase = .answered ∧
      f'.answers = [answerRead p.path (.error (ctxError p err))] ∧ f'.read = f.read
  /-- A read that comes to its end is not kept from it, and nothing is answered by it. -/
  ends : ∀ i f p, w.flights[i]? = some f → f.read = .running p → ∀ calls, ∃ f',
    step w (.act i (.finish calls)) = some { w with flights := w.flights.set i f' } ∧ f'.read = .sent ∧
      f'.answers = f.answers
  /-- And gives its slot back. -/
  releases : ∀ i f, w.flights[i]? = some f → f.read = .sent → ∃ f' slots, w.slots = slots + 1 ∧
    step w (.act i .release) = some { slots, flights := w.flights.set i f' } ∧ f'.read = .ended ∧
      f'.answers = f.answers
  /-- Once a request is answered, whatever is still to come changes nothing of that. -/
  lasting : ∀ (i : Nat) (f : Flight), w.flights[i]? = some f → f.phase = .answered → ∀ w', Run (Fires step) Any w w' →
    ∃ f', w'.flights[i]? = some f' ∧ f'.answers = f.answers

/-- **The slots of the bounded reads are neither leaked nor over-used**, however the requests, their reads, their
deadlines and their callers interleave. -/
theorem slots_kept (w : World) (h : Run (Fires step) Any World.init w) : Kept w := by
  have hw := inv_run h
  refine ⟨hw.counted, hw.bounded, fun f hf => ?_, fun f hf refused hrefused => ?_, fun i f p hf hchecked => ?_,
    fun a w' hstep i f' hf' answer hmem hstatus => ?_, fun i f p err hf hwaiting hctx => ?_,
    fun i f p hf hread calls => ?_, fun i f hf hread => ?_, fun i f hf hanswered w' hrun => ?_⟩
  · have hfine := hw.fine f hf
    unfold Flight.Fine at hfine
    split at hfine
    · rw [hfine.1]
      exact Nat.zero_le _
    · rw [hfine.1]
      exact Nat.zero_le _
    · rw [hfine.1]
      exact Nat.zero_le _
    · rw [hfine.1]
      exact Nat.zero_le _
    · obtain ⟨⟨s, hanswers⟩, -⟩ := hfine
      rw [hanswers]
      exact le_refl 1
  · have hfine := hw.fine f hf
    unfold Flight.Fine at hfine
    rw [hrefused] at hfine
    split at hfine
    · rw [hfine.1]
      exact ⟨hfine.2.2, fun _ h => nomatch h⟩
    · cases hfine.2.2.2
    · cases hfine.2.2.2
    · cases hfine.2.1
    · obtain ⟨⟨s, hanswers⟩, hread | ⟨p, hp, -⟩⟩ := hfine
      · rw [hanswers, readFileBounded_eq, hrefused]
        exact ⟨hread, fun _ h => List.mem_singleton.mp h⟩
      · cases hp
  · have hbound := hw.bounded
    by_cases hfull : w.slots = maxBoundedReads
    · rw [if_pos hfull]
      refine act_step hf ?_
      simp [handle, hchecked, hfull]
    · rw [if_neg hfull]
      refine act_step hf ?_
      dsimp only [handle]
      rw [hchecked]
      exact if_pos (by omega)
  · have hbound := hw.bounded
    rcases allTaken_step hstep hf' hmem hstatus with hbefore | ⟨ha, hfull⟩
    · exact .inl hbefore
    · exact .inr ⟨ha, by omega⟩
  · have hfine := hw.fine f (List.mem_of_getElem? hf)
    unfold Flight.Fine at hfine
    rw [hwaiting] at hfine
    have hhandle : handle w.slots f .timeUp =
        some (w.slots, (f.reply (answerRead p.path (.error (ctxError p err)))).cancel) := by
      dsimp only [handle]
      rw [hwaiting, hctx]
    refine ⟨_, act_step hf hhandle, rfl, ?_, rfl⟩
    change f.answers ++ _ = _
    rw [hfine.1]
    rfl
  · have hfine := hw.fine f (List.mem_of_getElem? hf)
    have hdone : f.done = none := by
      have hbegun := hfine.begun (by simp [hread]) (by simp [hread])
      unfold Flight.Fine at hfine
      rcases hbegun with ⟨p', hphase⟩ | hphase
      · rw [hphase] at hfine
        obtain ⟨-, -, ⟨hdone, -⟩ | ⟨hread' | hread', -⟩⟩ := hfine
        · exact hdone
        · cases hread'.symm.trans hread
        · cases hread'.symm.trans hread
      · rw [hphase] at hfine
        obtain ⟨-, hread' | ⟨p', -, ⟨hdone, -⟩ | hread' | hread'⟩⟩ := hfine
        · cases hread'.symm.trans hread
        · exact hdone
        · cases hread'.symm.trans hread
        · cases hread'.symm.trans hread
    have hhandle : handle w.slots f (.finish calls) =
        some (w.slots, { f with read := .sent, done := some (readBounded calls p.path p.maxBytes) }) := by
      dsimp only [handle]
      rw [hread, hdone]
    exact ⟨_, act_step hf hhandle, rfl, rfl⟩
  · have hpos : 0 < w.slots := by
      rw [hw.counted]
      exact List.countP_pos_iff.mpr ⟨f, List.mem_of_getElem? hf, by rw [hread]; rfl⟩
    obtain ⟨slots, hslots⟩ := Nat.exists_eq_succ_of_ne_zero hpos.ne'
    have hhandle : handle w.slots f .release = some (slots, { f with read := .ended }) := by
      dsimp only [handle]
      rw [hread, hslots]
    exact ⟨_, slots, hslots, act_step hf hhandle, rfl, rfl⟩
  · obtain ⟨f', hf', -, hanswers⟩ := answered_run hrun hf hanswered
    exact ⟨f', hf', hanswers⟩

def readOfA : Request :=
  { method := "GET", path := "/files/bounded", rawQuery := bytes "path=/a&maxBytes=2&timeoutMs=1", authorization := []
    body := [] }

/-- A read that blocks past its deadline: it is answered, and holds its slot. -/
def blockedRead : List Action :=
  [.arrive readOfA, .act 0 .check, .act 0 .letIn, .act 0 .start, .act 0 .deadline, .act 0 .timeUp]

theorem slots_kept_blockedRead : ∃ w, Kept w ∧ w.slots = 1 ∧ w.flights.map (·.answers.length) = [1] := by
  obtain ⟨w, hrun, hslots, hanswers⟩ := Run.exists_of_exec step Any
    (fun w => w.slots = 1 ∧ w.flights.map (·.answers.length) = [1]) World.init blockedRead (by decide)
  exact ⟨w, slots_kept w hrun, hslots, hanswers⟩

end ComputeArmada.Agent.Slots
