import ComputeArmada.Agent.Http

/-!
# Waiting for a port

`/process/waitport` (`agent/process.go`): the waiter's loop, cut into the steps between which the pod may move.

* `checkWaitPort` : what is refused before the loop; `WaitPortResponse.write` : what is answered;
* `WaitPort.step` : the loop, the watched process, the port, the deadline and the caller;
* `WaitPort.open_port` : when a port that got opened is answered as open, and whose exit is answered as one.
-/

namespace ComputeArmada.Agent

structure WaitPortRequest where
  port : Int
  timeoutMs : Int
  /-- `0` where no process is watched. -/
  pid : Int
  mode : String
  path : String
  deriving DecidableEq

structure WaitPortResponse where
  «open» : Bool
  exited : Bool := false
  exitCode : Option Int := none
  deriving DecidableEq

def WaitPortResponse.write (r : WaitPortResponse) : Response :=
  writeJSON (Json.Reader.objectText ([("open", (toString r.open).toList)] ++
    (if r.exited then [("exited", "true".toList)] else []) ++
    match r.exitCode with
    | some code => [("exitCode", (toString code).toList)]
    | none => []))

/-- The checks before the loop, and the request with its defaults. `parseError` is what `url.Parse` says of a
text that is no URL, `known` the pids in `started`. -/
def checkWaitPort (parseError : String → Option String) (known : Int → Bool) (req : WaitPortRequest) :
    Except Response WaitPortRequest := do
  if req.port < 1 ∨ 65535 < req.port then
    throw (writeError 400 (bytes "port must be between 1 and 65535"))
  let req ←
    if req.mode = "" ∨ req.mode = "tcp" then
      if req.path = "" then pure { req with mode := "tcp" }
      else throw (writeError 400 (bytes "path needs mode http; a tcp probe does not request anything"))
    else if req.mode = "http" then
      let path := if req.path = "" then "/" else req.path
      if path.toList.head? ≠ some '/' then throw (writeError 400 (bytes "path must start with /"))
      match parseError ("http://127.0.0.1" ++ path) with
      | some text => throw (writeError 400 (bytes ("path is not a valid URL path: " ++ text)))
      | none => pure { req with path }
    else throw (writeError 400 (bytes "mode must be tcp or http"))
  if req.pid ≠ 0 ∧ ¬ known req.pid then
    throw (writeError 404 (bytes ("unknown pid: " ++ toString req.pid)))
  return req

namespace WaitPort

/-! ## The loop -/

inductive Place
  /-- About to probe the port. -/
  | probing
  /-- The probe failed; the exit of the watched process is looked at next. -/
  | checkingExit
  | checkingDeadline
  | pausing
  /-- The handler returned. -/
  | returned
  deriving DecidableEq

structure State where
  place : Place
  /-- A probe of the request's mode succeeds. -/
  «open» : Bool
  /-- The watched process has exited, with this code. -/
  ended : Option Int
  /-- `done` is closed: what `Wait` made `exitCode`. -/
  done : Option Int
  passed : Bool
  /-- The caller has left, and the context of the request has ended. -/
  gone : Bool
  answer : Option WaitPortResponse
  deriving DecidableEq

/-- Before the handler runs: a pod with nothing behind the port yet. -/
def State.init : State :=
  { place := .probing, «open» := false, ended := none, done := none, passed := false, gone := false, answer := none }

inductive Action
  /-- The port is opened; closed; the watched process exits; its `Wait` returns. -/
  | opens | closes | exits (code : Int) | collects
  /-- The deadline passes; the caller leaves. -/
  | passes | leaves
  | probe | checkExit | checkDeadline | pause | stop
  deriving DecidableEq

def State.reply (s : State) (r : WaitPortResponse) : State := { s with place := .returned, answer := some r }

/-- One step, until the handler returns; `watches` where a process is watched. -/
def step (watches : Bool) (s : State) (a : Action) : Option State :=
  if s.place = .returned then none else
  match a with
  | .opens => if s.open then none else some { s with «open» := true }
  | .closes => if s.open then some { s with «open» := false } else none
  | .exits code => if s.ended = none then some { s with ended := some code } else none
  | .collects => if s.ended ≠ none ∧ s.done = none then some { s with done := s.ended } else none
  | .passes => some { s with passed := true }
  | .leaves => some { s with gone := true }
  | .probe =>
    if s.place = .probing then
      -- a dial whose context has ended fails
      if s.open ∧ ¬ s.gone then some (s.reply { «open» := true })
      else some { s with place := .checkingExit }
    else none
  | .checkExit =>
    if s.place = .checkingExit then
      match s.done with
      | some code =>
        if watches then some (s.reply { «open» := false, exited := true, exitCode := some code })
        else some { s with place := .checkingDeadline }
      | none => some { s with place := .checkingDeadline }
    else none
  | .checkDeadline =>
    if s.place = .checkingDeadline then
      if s.passed then some (s.reply { «open» := false }) else some { s with place := .pausing }
    else none
  | .pause => if s.place = .pausing then some { s with place := .probing } else none
  | .stop => if s.place = .pausing ∧ s.gone then some { s with place := .returned } else none

def run (watches : Bool) (s : State) (steps : List Action) : Option State := steps.foldlM (step watches) s

section
variable {watches : Bool} {s t : State} {a : Action} {steps : List Action}

theorem run_cons (h : run watches s (a :: steps) = some t) :
    ∃ u, step watches s a = some u ∧ run watches u steps = some t :=
  Option.bind_eq_some_iff.mp (List.foldlM_cons.symm.trans h)

theorem run_returned (hs : s.place = .returned) (h : run watches s steps = some t) : steps = [] ∧ t = s := by
  cases steps with
  | nil => exact ⟨rfl, (Option.some.inj h).symm⟩
  | cons a steps =>
    obtain ⟨u, hu, -⟩ := run_cons h
    unfold step at hu
    rw [if_pos hs] at hu
    cases hu

/-- A step that answers nothing: what it keeps, and what a probe it is has found. -/
structure Goes (s : State) (a : Action) (t : State) : Prop where
  answer : t.answer = s.answer
  blind : a = .probe → s.open = true → s.gone = true
  stays : a ≠ .closes → s.open = true → t.open = true
  gone : s.gone = true → t.gone = true
  ended : ∀ code, s.ended = some code → t.ended = some code
  done : ∀ code, t.done = some code → s.done = some code ∨ s.ended = some code

/-- A probe, a check of the exit or one of the deadline answers, and nothing else does. -/
theorem step_cases (h : step watches s a = some t) :
    (a = .probe ∧ s.open = true ∧ s.gone = false ∧ t = s.reply { «open» := true }) ∨
    (∃ code, a = .checkExit ∧ watches = true ∧ s.done = some code ∧
      t = s.reply { «open» := false, exited := true, exitCode := some code }) ∨
    (a = .checkDeadline ∧ s.passed = true ∧ t = s.reply { «open» := false }) ∨ Goes s a t := by
  unfold step at h
  rw [Option.ite_none_left_eq_some] at h
  obtain ⟨-, h⟩ := h
  cases a <;> simp only [Option.ite_none_left_eq_some, Option.ite_none_right_eq_some, Option.some.injEq] at h
  case probe =>
    obtain ⟨-, h⟩ := h
    by_cases hprobe : s.open = true ∧ ¬ s.gone = true
    · rw [if_pos hprobe] at h
      exact .inl ⟨rfl, hprobe.1, by simpa using hprobe.2, (Option.some.inj h).symm⟩
    · rw [if_neg hprobe] at h
      obtain rfl := Option.some.inj h
      refine .inr (.inr (.inr ⟨rfl, fun _ hopen => ?_, fun _ => id, id, fun _ => id, fun _ => .inl⟩))
      by_contra hgone
      exact hprobe ⟨hopen, hgone⟩
  case checkExit =>
    obtain ⟨-, h⟩ := h
    cases hdone : s.done with
    | none =>
      rw [hdone] at h
      obtain rfl := Option.some.inj h
      exact .inr (.inr (.inr ⟨rfl, nofun, fun _ => id, id, fun _ => id, fun _ h => .inl (hdone.trans h)⟩))
    | some code =>
      rw [hdone] at h
      dsimp only at h
      by_cases hwatches : watches = true
      · rw [if_pos hwatches] at h
        exact .inr (.inl ⟨code, rfl, hwatches, rfl, (Option.some.inj h).symm⟩)
      · rw [if_neg hwatches] at h
        obtain rfl := Option.some.inj h
        exact .inr (.inr (.inr ⟨rfl, nofun, fun _ => id, id, fun _ => id, fun _ h => .inl (hdone.trans h)⟩))
  case checkDeadline =>
    obtain ⟨-, h⟩ := h
    by_cases hpassed : s.passed = true
    · rw [if_pos hpassed] at h
      exact .inr (.inr (.inl ⟨rfl, hpassed, (Option.some.inj h).symm⟩))
    · rw [if_neg hpassed] at h
      obtain rfl := Option.some.inj h
      exact .inr (.inr (.inr ⟨rfl, nofun, fun _ => id, id, fun _ => id, fun _ => .inl⟩))
  case opens =>
    obtain ⟨-, rfl⟩ := h
    exact .inr (.inr (.inr ⟨rfl, nofun, fun _ _ => rfl, id, fun _ => id, fun _ => .inl⟩))
  case closes =>
    obtain ⟨-, rfl⟩ := h
    exact .inr (.inr (.inr ⟨rfl, nofun, fun h _ => absurd rfl h, id, fun _ => id, fun _ => .inl⟩))
  case exits code =>
    obtain ⟨hended, rfl⟩ := h
    exact .inr (.inr (.inr ⟨rfl, nofun, fun _ => id, id, fun _ h => (nomatch hended.symm.trans h), fun _ => .inl⟩))
  case collects =>
    obtain ⟨-, rfl⟩ := h
    exact .inr (.inr (.inr ⟨rfl, nofun, fun _ => id, id, fun _ => id, fun _ => .inr⟩))
  case leaves =>
    subst h
    exact .inr (.inr (.inr ⟨rfl, nofun, fun _ => id, fun _ => rfl, fun _ => id, fun _ => .inl⟩))
  case passes =>
    subst h
    exact .inr (.inr (.inr ⟨rfl, nofun, fun _ => id, id, fun _ => id, fun _ => .inl⟩))
  all_goals
    obtain ⟨-, rfl⟩ := h
    exact .inr (.inr (.inr ⟨rfl, nofun, fun _ => id, id, fun _ => id, fun _ => .inl⟩))

/-! ## What is answered -/

/-- Nothing is answered before the handler returns, and the exit code is that of the process. -/
structure Inv (watches : Bool) (s : State) : Prop where
  answered : s.answer ≠ none → s.place = .returned
  done : ∀ code, s.done = some code → s.ended = some code
  exited : ∀ r, s.answer = some r → r.exited = true →
    watches = true ∧ ∃ code, s.ended = some code ∧ r = { «open» := false, exited := true, exitCode := some code }

theorem Inv.init : Inv watches .init := ⟨fun h => absurd rfl h, nofun, nofun⟩

theorem not_returned (h : step watches s a = some t) : s.place ≠ .returned := by
  intro hreturned
  unfold step at h
  rw [if_pos hreturned] at h
  cases h

theorem Inv.step (hi : Inv watches s) (h : step watches s a = some t) : Inv watches t := by
  rcases step_cases h with ⟨-, -, -, rfl⟩ | ⟨code, -, hwatches, hdone, rfl⟩ | ⟨-, -, rfl⟩ | hgoes
  · refine ⟨fun _ => rfl, hi.done, fun r hr hexited => ?_⟩
    obtain rfl := Option.some.inj hr
    cases hexited
  · refine ⟨fun _ => rfl, hi.done, fun r hr _ => ?_⟩
    exact ⟨hwatches, code, hi.done code hdone, (Option.some.inj hr).symm⟩
  · refine ⟨fun _ => rfl, hi.done, fun r hr hexited => ?_⟩
    obtain rfl := Option.some.inj hr
    cases hexited
  · have hnone : s.answer = none := by
      by_contra hsome
      exact not_returned h (hi.answered hsome)
    rw [← hgoes.answer] at hnone
    refine ⟨fun hsome => absurd hnone hsome, fun code hdone => ?_, fun r hr => (nomatch hnone.symm.trans hr)⟩
    exact hgoes.ended code ((hgoes.done code hdone).elim (hi.done code) id)

theorem Inv.run (hi : Inv watches s) (h : run watches s steps = some t) : Inv watches t := by
  induction steps generalizing s with
  | nil => exact Option.some.inj h ▸ hi
  | cons a steps ih =>
    obtain ⟨u, hu, hrest⟩ := run_cons h
    exact ih (hi.step hu) hrest

theorem gone_mono (hs : s.gone = true) (h : run watches s steps = some t) : t.gone = true := by
  induction steps generalizing s with
  | nil => exact Option.some.inj h ▸ hs
  | cons a steps ih =>
    obtain ⟨u, hu, hrest⟩ := run_cons h
    refine ih ?_ hrest
    rcases step_cases hu with ⟨-, -, -, rfl⟩ | ⟨_, -, -, -, rfl⟩ | ⟨-, -, rfl⟩ | hgoes
    · exact hs
    · exact hs
    · exact hs
    · exact hgoes.gone hs

/-- A port that is open and stays so is answered as open exactly if it is probed once more. -/
theorem open_iff_probed (hopen : s.open = true) (hanswer : s.answer = none) (h : run watches s steps = some t)
    (hstays : Action.closes ∉ steps) (hthere : t.gone = false) {r : WaitPortResponse} (hr : t.answer = some r) :
    r = { «open» := true } ↔ Action.probe ∈ steps := by
  induction steps generalizing s with
  | nil =>
    obtain rfl := Option.some.inj h
    cases hanswer.symm.trans hr
  | cons a steps ih =>
    obtain ⟨u, hu, hrest⟩ := run_cons h
    have hcloses : a ≠ .closes := fun ha => hstays (ha ▸ List.mem_cons_self)
    rcases step_cases hu with ⟨rfl, -, -, rfl⟩ | ⟨code, rfl, -, -, rfl⟩ | ⟨rfl, -, rfl⟩ | hgoes
    · obtain ⟨-, rfl⟩ := run_returned rfl hrest
      exact iff_of_true (Option.some.inj hr).symm List.mem_cons_self
    · obtain ⟨rfl, rfl⟩ := run_returned rfl hrest
      refine iff_of_false ?_ (by simp)
      rw [← Option.some.inj hr]
      simp
    · obtain ⟨rfl, rfl⟩ := run_returned rfl hrest
      refine iff_of_false ?_ (by simp)
      rw [← Option.some.inj hr]
      simp
    · -- a probe that goes on found no caller, and one that has left stays away
      have hprobe : a ≠ .probe := by
        intro ha
        have hgone := gone_mono (hgoes.gone (hgoes.blind ha hopen)) hrest
        rw [hthere] at hgone
        cases hgone
      have hmem : Action.probe ∈ a :: steps ↔ Action.probe ∈ steps := by simp [Ne.symm hprobe]
      rw [hmem]
      exact ih (hgoes.stays hcloses hopen) (hgoes.answer.trans hanswer) hrest
        (fun hmem => hstays (List.mem_cons_of_mem a hmem))

/-- The port is opened after the steps `before`, while the watched process runs, and stays open through `after`,
with the caller there. -/
structure Opened (before after : List Action) (t : State) : Prop where
  runs : ∃ s u, run true .init before = some s ∧ s.ended = none ∧ step true s .opens = some u ∧
    run true u after = some t
  stays : Action.closes ∉ after
  there : t.gone = false

/-- **A port that got opened**: it is answered as open exactly if it is probed once more after it was opened. An
exited answer is given only of a process that exited, with its code. -/
theorem open_port (t : State) (r : WaitPortResponse) :
    (∀ before after : List Action, Opened before after t → t.answer = some r →
      (r = { «open» := true } ↔ Action.probe ∈ after)) ∧
    ∀ steps : List Action, run true .init steps = some t → t.answer = some r →
      r.exited = true → ∃ code, t.ended = some code ∧
      r = { «open» := false, exited := true, exitCode := some code } := by
  constructor
  · intro before after hopened hr
    obtain ⟨s, u, hbefore, -, hopens, hafter⟩ := hopened.runs
    have hnone : s.answer = none := by
      by_contra hsome
      exact not_returned hopens ((Inv.init.run hbefore).answered hsome)
    have hu : u.open = true ∧ u.answer = none := by
      unfold step at hopens
      simp only [Option.ite_none_left_eq_some, Option.some.injEq] at hopens
      obtain ⟨-, -, rfl⟩ := hopens
      exact ⟨rfl, hnone⟩
    exact open_iff_probed hu.1 hu.2 hafter hopened.stays hopened.there hr
  · intro steps h hr hexited
    exact ((Inv.init.run h).exited r hr hexited).2

/-- A server that opens the port after a probe of it, and is probed again. -/
theorem open_port_probed : ∃ t, Opened [.probe] [.checkExit, .checkDeadline, .pause, .probe] t ∧
    t.answer = some { «open» := true } := by
  obtain ⟨t, hopened, hanswer⟩ : ∃ t, Opened [.probe] [.checkExit, .checkDeadline, .pause, .probe] t ∧
      t.answer.isSome = true := ⟨_, ⟨⟨_, _, rfl, rfl, rfl, rfl⟩, by decide, rfl⟩, rfl⟩
  obtain ⟨r, hr⟩ := Option.isSome_iff_exists.mp hanswer
  obtain rfl := ((open_port t r).1 _ _ hopened hr).mpr (by decide)
  exact ⟨t, hopened, hr⟩

/-- A server that opens the port after a probe of it, forks and exits before the check that follows. -/
theorem opened_reported_exited : ∃ t, Opened [.probe] [.exits 3, .collects, .checkExit] t ∧
    t.answer = some { «open» := false, exited := true, exitCode := some 3 } ∧ t.open = true :=
  ⟨_, ⟨⟨_, _, rfl, rfl, rfl, rfl⟩, by decide, rfl⟩, rfl, rfl⟩

end

end WaitPort

end ComputeArmada.Agent
