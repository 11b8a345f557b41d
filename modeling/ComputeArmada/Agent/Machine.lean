import ComputeArmada.Agent.Os

/-!
# The kernel agent, PID 1 of a pod

Requests to `/exec` and `/process/start` (`agent/server.go`, `agent/process.go`), the orphan reaper
(`agent/reaper_linux.go`) and `shutdown`, each cut into the steps between which anything else in the
pod may move: another request, a process of the notebook, the reaper.

* `Handler` : one request, `Handler.pc` its place in the handler's body;
* `handlerStep`, `reaperStep`, `mainStep`, `signalProcess`, `procStep` : the parts, the last one what
  the processes do by themselves; `step` : one of them moves;
* `step_os` : what each action is to the process table;
* `step_handler` : an action moves the handler it is about and no other.
-/

namespace ComputeArmada.Agent
open Runs

inductive Endpoint
  | exec
  | processStart
  deriving DecidableEq, Repr

/-- `ctx.Err()` of a request whose context has ended. -/
inductive CtxErr
  | canceled
  | deadlineExceeded
  deriving DecidableEq, Repr

inductive Pc
  | absent
  /-- Decoded and checked, about to call `cmd.Start`. -/
  | arrived
  /-- Refused, or `cmd.Start` failed. -/
  | failed
  /-- `cmd.Start` returned; the pid is not in `children` yet. -/
  | started
  /-- After `children.Store`. -/
  | registered
  /-- `exec`: the pid was sent, the goroutines run. `startProcess`: in `started`, its `Wait` runs. -/
  | serving
  /-- `cmd.Wait` returned. -/
  | waited
  /-- `exec`: after `close(exited)`. -/
  | closed
  /-- `exec`: the final event was sent. -/
  | replied
  /-- `startProcess`: after `children.Delete`, before `close(proc.done)`. -/
  | dropped
  | done
  deriving DecidableEq, Repr

/-- How far a request has come: 2 from `cmd.Start` on, 4 with its goroutines, 5 after `Wait`. -/
def Pc.rank : Pc → Nat
  | .absent | .failed => 0
  | .arrived => 1
  | .started => 2
  | .registered => 3
  | .serving => 4
  | .waited => 5
  | .closed | .dropped => 6
  | .replied => 7
  | .done => 8

/-- The goroutine of `exec` that kills the group. -/
inductive Killer
  | absent
  /-- In the `select` on `ctx.Done()` and `exited`. -/
  | selecting
  /-- In `killGroup`, after the SIGTERM. -/
  | termed
  | finished
  deriving DecidableEq, Repr

structure Handler where
  endpoint : Endpoint
  pc : Pc
  /-- `timeoutMs` was positive. -/
  deadline : Bool
  /-- The process this request started. -/
  leader : Nat
  ctx : Option CtxErr
  killer : Killer
  /-- Which of the two readers have returned. -/
  eof : Pipe → Bool
  /-- The `exited` channel is closed. -/
  exited : Bool
  /-- `cmd.ProcessState.ExitCode()` after `Wait`: `-1` where `Wait` found the process collected. -/
  code : Int
  /-- The final event of `exec`: its `exit`, and whether it says `timedOut`. -/
  reported : Option (Int × Bool)

def Handler.absent : Handler :=
  { endpoint := .exec, pc := .absent, deadline := false, leader := 0, ctx := none, killer := .absent,
    eof := fun _ => false, exited := false, code := 0, reported := none }

/-- The request whose pipes the process of handler `h` writes to: a detached one writes to a file. -/
def Handler.pipes (H : Handler) (h : Nat) : Option Nat :=
  match H.endpoint with
  | .exec => some h
  | .processStart => none

inductive Reaper
  | idle
  /-- The zombies of its last scan still to be looked at. -/
  | scanned (pids : List Nat)
  /-- `owned(pid)` answered false; `Wait4(pid)` comes next. -/
  | unowned (pid : Nat) (rest : List Nat)
  deriving DecidableEq, Repr

inductive Shutdown
  | serving
  /-- At the head of the wait loop. -/
  | waiting
  /-- About to look at `hasChildren`. -/
  | looking
  | returned
  deriving DecidableEq, Repr

structure State where
  os : Os
  requests : Nat
  handler : Nat → Handler
  /-- The keys of `agent.children`. -/
  children : Finset Nat
  /-- `agent.started`: by pid, the `/process/start` request that filled the entry. -/
  started : Nat → Option Nat
  reaper : Reaper
  shutdown : Shutdown
  /-- The deadline of `shutdown` has passed. -/
  graceOver : Bool

def State.init : State :=
  { os := .empty, requests := 0, handler := fun _ => .absent, children := ∅, started := fun _ => none,
    reaper := .idle, shutdown := .serving, graceOver := false }

/-- The signals a caller of `/process/signal` may name. -/
inductive Signal
  | TERM | KILL | INT | HUP | QUIT | USR1 | USR2
  deriving DecidableEq, Repr

/-- A step of request `h`'s handler or of one of its goroutines. -/
inductive HandlerAction
  | startFails
  | start (pid : Nat)
  | register
  | serve
  | ctxEnd (err : CtxErr)
  | killerTerm
  | killerExited
  | killerKill
  | eof (pipe : Pipe)
  | wait
  | closeExited
  | reply (copyFailed : Bool)
  | deregister
  | closeDone
  deriving DecidableEq, Repr

/-- What a process other than the agent does. -/
inductive ProcAction
  | fork (u pid : Nat)
  | exit (u : Nat) (code : Int)
  | setsid (u : Nat)
  | closePipe (u : Nat) (pipe : Pipe)
  /-- The parent, not the agent, collects its child. -/
  | wait (u : Nat)
  deriving DecidableEq, Repr

inductive ReaperAction
  | scan
  | check
  | collect
  deriving DecidableEq, Repr

/-- `main` from the SIGTERM on, and the deadline of `shutdown` passing. -/
inductive MainAction
  | sigterm
  | graceOver
  | loopTest
  | look
  deriving DecidableEq, Repr

inductive Action
  | request (endpoint : Endpoint) (deadline : Bool)
  | handler (h : Nat) (act : HandlerAction)
  | signal (pid : Nat) (sig : Signal)
  | reaper (act : ReaperAction)
  | main (act : MainAction)
  | proc (act : ProcAction)
  deriving DecidableEq, Repr

namespace State

def setHandler (s : State) (h : Nat) (H : Handler) : State :=
  { s with handler := Function.update s.handler h H }

def pidOf (s : State) (h : Nat) : Nat := (s.os.proc (s.handler h).leader).pid

/-- Every write end of a pipe is closed: uncreated slots hold nothing, so the table's end bounds it. -/
def atEof (s : State) (pipe : Pipe) (h : Nat) : Prop :=
  ∀ u < s.os.count, s.os.running u → (s.os.proc u).holds pipe ≠ some h

instance (s : State) (pipe : Pipe) (h : Nat) : Decidable (s.atEof pipe h) :=
  inferInstanceAs (Decidable (∀ u < _, _))

end State

/-- `exec` and `startProcess`, from the decoded request on. -/
def handlerStep (s : State) (h : Nat) (act : HandlerAction) : Option State :=
  let H := s.handler h
  match act with
  | .startFails => if H.pc = .arrived then some (s.setHandler h { H with pc := .failed }) else none
  | .start pid =>
    if H.pc = .arrived ∧ s.os.pidFree pid then
      some { s.setHandler h { H with pc := .started, leader := s.os.count } with
             os := s.os.spawn pid (H.pipes h) }
    else none
  | .register =>
    if H.pc = .started then
      some { s.setHandler h { H with pc := .registered } with children := insert (s.pidOf h) s.children }
    else none
  | .serve =>
    if H.pc = .registered then
      match H.endpoint with
      | .exec => some (s.setHandler h { H with pc := .serving, killer := .selecting })
      | .processStart =>
        some { s.setHandler h { H with pc := .serving } with
               started := Function.update s.started (s.pidOf h) (some h) }
    else none
  | .ctxEnd err =>
    if H.pc ≠ .absent ∧ H.ctx = none ∧ (err = .deadlineExceeded → H.deadline = true) then
      some (s.setHandler h { H with ctx := some err })
    else none
  | .killerTerm =>
    if H.killer = .selecting ∧ H.ctx ≠ none then
      some { s.setHandler h { H with killer := .termed } with
             os := s.os.term (fun v => s.os.running v ∧ s.os.pgid v = s.pidOf h) }
    else none
  | .killerExited =>
    if (H.killer = .selecting ∨ H.killer = .termed) ∧ H.exited = true then
      some (s.setHandler h { H with killer := .finished })
    else none
  | .killerKill =>
    -- `killGrace` has passed since the SIGTERM, so this branch of the `select` is ready too.
    if H.killer = .termed then
      some { s.setHandler h { H with killer := .finished } with os := s.os.kill (s.pidOf h) }
    else none
  | .eof pipe =>
    if H.endpoint = .exec ∧ H.pc = .serving ∧ s.atEof pipe h then
      some (s.setHandler h { H with eof := Function.update H.eof pipe true })
    else none
  | .wait =>
    if H.pc = .serving ∧ (H.endpoint = .exec → H.eof .stdout = true ∧ H.eof .stderr = true) ∧
        ¬ s.os.running H.leader then
      if s.os.zombie H.leader then
        some { s.setHandler h { H with pc := .waited, code := (s.os.proc H.leader).code } with
               os := s.os.collect H.leader }
      else some (s.setHandler h { H with pc := .waited, code := -1 })
    else none
  | .closeExited =>
    if H.endpoint = .exec ∧ H.pc = .waited then
      some (s.setHandler h { H with pc := .closed, exited := true })
    else none
  | .reply copyFailed =>
    -- `err` is no `ExitError` and the code is 0: copying stdin failed, and an error event says so.
    if H.pc = .closed then
      some (s.setHandler h { H with
        pc := .replied
        reported := if copyFailed = true ∧ H.code = 0 then none
          else some (H.code, decide (H.ctx = some .deadlineExceeded)) })
    else none
  | .deregister =>
    -- `exec` defers the delete to its end; the `Wait` of `startProcess` deletes before `close(done)`.
    match H.endpoint with
    | .exec =>
      if H.pc = .replied then
        some { s.setHandler h { H with pc := .done } with children := s.children.erase (s.pidOf h) }
      else none
    | .processStart =>
      if H.pc = .waited then
        some { s.setHandler h { H with pc := .dropped } with children := s.children.erase (s.pidOf h) }
      else none
  | .closeDone => if H.pc = .dropped then some (s.setHandler h { H with pc := .done }) else none

/-- `reapOrphans`: one scan, then `owned` and `Wait4` for each pid of it. -/
def reaperStep (s : State) : ReaperAction → Option State
  | .scan => if s.reaper = .idle then some { s with reaper := .scanned s.os.zombiesOf } else none
  | .check =>
    match s.reaper with
    | .scanned [] => some { s with reaper := .idle }
    | .scanned (pid :: rest) =>
      some { s with reaper := if pid ∈ s.children then .scanned rest else .unowned pid rest }
    | _ => none
  | .collect =>
    match s.reaper with
    | .unowned pid rest =>
      match s.os.waitable pid with
      | some u => some { s with reaper := .scanned rest, os := s.os.collect u }
      | none => some { s with reaper := .scanned rest }
    | _ => none

/-- `shutdown`, and the SIGTERM to PID 1 that calls it. -/
def mainStep (s : State) : MainAction → Option State
  | .sigterm =>
    if s.shutdown = .serving then
      some { s with shutdown := .waiting, os := s.os.term (fun v => s.os.running v) }
    else none
  | .graceOver => if s.shutdown = .serving then none else some { s with graceOver := true }
  | .loopTest =>
    if s.shutdown = .waiting then
      some { s with shutdown := if s.graceOver then .returned else .looking }
    else none
  | .look =>
    if s.shutdown = .looking then
      some { s with shutdown := if s.children = ∅ then .returned else .waiting }
    else none

/-- `signalProcess`, for a pid and a signal it knows. -/
def signalProcess (s : State) (pid : Nat) (sig : Signal) : Option State :=
  if s.started pid = none then none else
  match sig with
  | .KILL => some { s with os := s.os.kill pid }
  | .TERM => some { s with os := s.os.term (fun v => s.os.running v ∧ s.os.pgid v = pid) }
  | _ => some s

def procStep (os : Os) : ProcAction → Option Os
  | .fork u pid => if os.running u ∧ os.pidFree pid then some (os.fork u pid) else none
  | .exit u code => if os.running u then some (os.exit u code) else none
  | .setsid u => if os.running u ∧ (os.proc u).group ≠ u then some (os.setsid u) else none
  | .closePipe u pipe => if os.running u then some (os.closePipe u pipe) else none
  | .wait u => if os.zombie u ∧ (os.proc u).parent ≠ none then some (os.collect u) else none

/-- One step; `none` where the action is not enabled. The agent exits once `shutdown` returns. -/
def step (s : State) (a : Action) : Option State :=
  if s.shutdown = .returned then none else
  match a with
  | .request endpoint deadline =>
    some { s.setHandler s.requests { Handler.absent with endpoint, deadline, pc := .arrived } with
           requests := s.requests + 1 }
  | .handler h act => if h < s.requests then handlerStep s h act else none
  | .signal pid sig => signalProcess s pid sig
  | .reaper act => reaperStep s act
  | .main act => mainStep s act
  | .proc act => (procStep s.os act).map (fun os => { s with os })

/-- Runs of the agent whose steps each meet `ok`. -/
abbrev Reach (ok : State → Action → Prop) : State → State → Prop := Run (Fires step) ok

/-- What `/process/status` answers for a pid: running, or the exit code. -/
def processStatus (s : State) (pid : Nat) : Option (Option Int) :=
  (s.started pid).map (fun h => if (s.handler h).pc = .done then some (s.handler h).code else none)

/-! ## What a step can do -/

/-- What an action is to the process table. -/
def Action.event (s : State) : Action → Os.Event
  | .handler h (.start _) => .spawns ((s.handler h).pipes h)
  | .handler h .wait =>
    if s.os.zombie (s.handler h).leader then .collects (s.handler h).leader else .quiet
  | .reaper .collect =>
    match s.reaper with
    | .unowned pid _ => (s.os.waitable pid).elim .quiet .collects
    | _ => .quiet
  | .proc (.wait u) => .collects u
  | _ => .quiet

/-- The pid of the process an action starts. -/
def Action.starts : Action → Option Nat
  | .handler _ (.start pid) => some pid
  | _ => none

theorem procStep_os {os os' : Os} {act : ProcAction} (h : procStep os act = some os') (s : State) :
    Os.Step os (Action.event s (.proc act)) os' := by
  cases act <;> simp only [procStep, Option.ite_none_right_eq_some, Option.some.injEq] at h <;>
    obtain ⟨hg, rfl⟩ := h
  case fork => exact .fork hg.1 hg.2
  case exit code => exact .exit code hg
  case setsid => exact .setsid hg.1 hg.2
  case closePipe pipe => exact .closePipe pipe hg
  case wait => exact .collect hg.1

theorem handlerStep_os {s t : State} {h : Nat} {act : HandlerAction} (hs : handlerStep s h act = some t) :
    Os.Step s.os (Action.event s (.handler h act)) t.os := by
  cases act <;> simp only [handlerStep, Option.ite_none_right_eq_some, Option.some.injEq] at hs
  case serve =>
    obtain ⟨hg, hs⟩ := hs
    split at hs <;> cases hs <;> exact .idle
  case deregister =>
    split at hs <;> simp only [Option.ite_none_right_eq_some, Option.some.injEq] at hs <;>
      obtain ⟨-, rfl⟩ := hs <;> exact .idle
  case wait =>
    obtain ⟨hg, hs⟩ := hs
    simp only [Action.event]
    split_ifs at hs ⊢ with hz <;> cases hs
    · exact .collect hz
    · exact .idle
  all_goals obtain ⟨hg, rfl⟩ := hs
  case start pid => exact .spawn _ hg.2
  case killerTerm => exact .term _
  case killerKill => exact .kill _
  all_goals exact .idle

theorem reaperStep_os {s t : State} {act : ReaperAction} (hs : reaperStep s act = some t) :
    Os.Step s.os (Action.event s (.reaper act)) t.os := by
  cases act with
  | scan =>
    simp only [reaperStep, Option.ite_none_right_eq_some, Option.some.injEq] at hs
    obtain ⟨-, rfl⟩ := hs
    exact .idle
  | check =>
    simp only [reaperStep] at hs
    split at hs <;> cases hs <;> exact .idle
  | collect =>
    simp only [reaperStep] at hs
    split at hs
    · rename_i pid rest hr
      simp only [Action.event, hr]
      split at hs <;> rename_i hw <;> cases hs <;> rw [hw]
      · exact .collect (Os.waitable_spec hw).1
      · exact .idle
    · cases hs

theorem mainStep_os {s t : State} {act : MainAction} (hs : mainStep s act = some t) :
    Os.Step s.os (Action.event s (.main act)) t.os := by
  cases act with
  | graceOver =>
    simp only [mainStep, Option.ite_none_left_eq_some, Option.some.injEq] at hs
    obtain ⟨-, rfl⟩ := hs
    exact .idle
  | sigterm =>
    simp only [mainStep, Option.ite_none_right_eq_some, Option.some.injEq] at hs
    obtain ⟨-, rfl⟩ := hs
    exact .term _
  | loopTest =>
    simp only [mainStep, Option.ite_none_right_eq_some, Option.some.injEq] at hs
    obtain ⟨-, rfl⟩ := hs
    exact .idle
  | look =>
    simp only [mainStep, Option.ite_none_right_eq_some, Option.some.injEq] at hs
    obtain ⟨-, rfl⟩ := hs
    exact .idle

theorem signalProcess_os {s t : State} {pid : Nat} {sig : Signal} (hs : signalProcess s pid sig = some t) :
    Os.Step s.os .quiet t.os := by
  simp only [signalProcess, Option.ite_none_left_eq_some] at hs
  obtain ⟨-, hs⟩ := hs
  cases sig <;> cases hs
  · exact .term _
  · exact .kill pid
  all_goals exact .idle

/-- The parts a step of the whole is a step of. -/
theorem step_eq {s t : State} {a : Action} (h : step s a = some t) : s.shutdown ≠ .returned ∧
    match a with
    | .request endpoint deadline =>
      t = { s.setHandler s.requests { Handler.absent with endpoint, deadline, pc := .arrived } with
            requests := s.requests + 1 }
    | .handler h act => h < s.requests ∧ handlerStep s h act = some t
    | .signal pid sig => signalProcess s pid sig = some t
    | .reaper act => reaperStep s act = some t
    | .main act => mainStep s act = some t
    | .proc act => ∃ os, procStep s.os act = some os ∧ t = { s with os := os } := by
  simp only [step, Option.ite_none_left_eq_some] at h
  refine ⟨h.1, ?_⟩
  cases a <;> simp only [Option.map_eq_some_iff, Option.ite_none_right_eq_some, Option.some.injEq] at h ⊢
  case request => exact h.2.symm
  case proc =>
    obtain ⟨-, os, hos, rfl⟩ := h
    exact ⟨os, hos, rfl⟩
  all_goals exact h.2

theorem step_os {s t : State} {a : Action} (h : step s a = some t) : Os.Step s.os (a.event s) t.os := by
  have ⟨_, h⟩ := step_eq h
  cases a with
  | request => dsimp only at h; subst h; exact .idle
  | handler k act => exact handlerStep_os h.2
  | signal pid sig => exact signalProcess_os h
  | reaper act => exact reaperStep_os h
  | main act => exact mainStep_os h
  | proc act => obtain ⟨os, hos, rfl⟩ := h; exact procStep_os hos s

/-- Only the start of a handler's process is a start. -/
theorem start_of_spawns {s : State} {a : Action} {opens : Option Nat} (h : a.event s = .spawns opens) :
    ∃ k pid, a = .handler k (.start pid) ∧ opens = (s.handler k).pipes k := by
  cases a with
  | handler k act =>
    cases act <;> simp only [Action.event] at h
    case start pid => cases h; exact ⟨k, pid, rfl, rfl⟩
    case wait => split at h <;> cases h
    all_goals cases h
  | reaper act =>
    cases act <;> simp only [Action.event] at h
    case collect =>
      split at h
      · cases hw : s.os.waitable _ <;> rw [hw] at h <;> cases h
      · cases h
    all_goals cases h
  | proc act => cases act <;> cases h
  | _ => cases h

/-! ## Frames -/

@[simp] theorem setHandler_os (s : State) (h : Nat) (H : Handler) : (s.setHandler h H).os = s.os := rfl

@[simp] theorem setHandler_handler (s : State) (h : Nat) (H : Handler) :
    (s.setHandler h H).handler = Function.update s.handler h H := rfl

/-- A step of a handler moves that handler, the table and the registries, and nothing else. -/
theorem handlerStep_frame {s t : State} {h : Nat} {act : HandlerAction}
    (hs : handlerStep s h act = some t) :
    (∃ H, t.handler = Function.update s.handler h H) ∧ t.requests = s.requests ∧
      t.reaper = s.reaper ∧ t.shutdown = s.shutdown ∧ t.graceOver = s.graceOver := by
  cases act <;> simp only [handlerStep, Option.ite_none_right_eq_some, Option.some.injEq] at hs
  case serve =>
    obtain ⟨-, hs⟩ := hs
    split at hs <;> cases hs <;> exact ⟨⟨_, rfl⟩, rfl, rfl, rfl, rfl⟩
  case deregister =>
    split at hs <;> simp only [Option.ite_none_right_eq_some, Option.some.injEq] at hs <;>
      obtain ⟨-, rfl⟩ := hs <;> exact ⟨⟨_, rfl⟩, rfl, rfl, rfl, rfl⟩
  case wait =>
    obtain ⟨-, hs⟩ := hs
    split_ifs at hs <;> cases hs <;> exact ⟨⟨_, rfl⟩, rfl, rfl, rfl, rfl⟩
  all_goals
    obtain ⟨-, rfl⟩ := hs
    exact ⟨⟨_, rfl⟩, rfl, rfl, rfl, rfl⟩

theorem reaperStep_frame {s t : State} {act : ReaperAction} (hs : reaperStep s act = some t) :
    t.handler = s.handler ∧ t.children = s.children ∧ t.started = s.started ∧ t.requests = s.requests ∧
      t.shutdown = s.shutdown ∧ t.graceOver = s.graceOver := by
  cases act <;> simp only [reaperStep, Option.ite_none_right_eq_some, Option.some.injEq] at hs
  case scan =>
    obtain ⟨-, rfl⟩ := hs
    exact ⟨rfl, rfl, rfl, rfl, rfl, rfl⟩
  case check => split at hs <;> cases hs <;> exact ⟨rfl, rfl, rfl, rfl, rfl, rfl⟩
  case collect =>
    split at hs
    · split at hs <;> cases hs <;> exact ⟨rfl, rfl, rfl, rfl, rfl, rfl⟩
    · cases hs

theorem signalProcess_frame {s t : State} {pid : Nat} {sig : Signal}
    (hs : signalProcess s pid sig = some t) : t = { s with os := t.os } := by
  simp only [signalProcess, Option.ite_none_left_eq_some] at hs
  obtain ⟨-, hs⟩ := hs
  cases sig <;> cases hs <;> rfl

theorem mainStep_frame {s t : State} {act : MainAction} (hs : mainStep s act = some t) :
    t.handler = s.handler ∧ t.children = s.children ∧ t.started = s.started ∧ t.requests = s.requests ∧
      t.reaper = s.reaper ∧ t.requests = s.requests := by
  cases act <;> simp only [mainStep, Option.ite_none_right_eq_some, Option.ite_none_left_eq_some,
    Option.some.injEq] at hs <;> obtain ⟨-, rfl⟩ := hs <;> exact ⟨rfl, rfl, rfl, rfl, rfl, rfl⟩

theorem wait_inv {s t : State} {h : Nat} (hs : handlerStep s h .wait = some t) :
    ((s.handler h).pc = .serving ∧ ((s.handler h).endpoint = .exec → ∀ pipe, (s.handler h).eof pipe = true) ∧
      ¬ s.os.running (s.handler h).leader) ∧
    (s.os.zombie (s.handler h).leader ∧
      t = { s.setHandler h { s.handler h with
              pc := .waited, code := (s.os.proc (s.handler h).leader).code } with
            os := s.os.collect (s.handler h).leader } ∨
     ¬ s.os.zombie (s.handler h).leader ∧
      t = s.setHandler h { s.handler h with pc := .waited, code := -1 }) := by
  simp only [handlerStep, Option.ite_none_right_eq_some] at hs
  obtain ⟨⟨hpc, hboth, hdead⟩, hs⟩ := hs
  refine ⟨⟨hpc, fun hep pipe => by cases pipe <;> simp [hboth hep], hdead⟩, ?_⟩
  split at hs <;> cases hs
  · exact .inl ⟨‹_›, rfl⟩
  · exact .inr ⟨‹_›, rfl⟩

/-- An action moves the handler it is about, or makes a new one, and no other. -/
theorem step_handler {s t : State} {a : Action} (h : step s a = some t) (k : Nat) :
    (t.handler k = s.handler k ∧ ∀ act, a ≠ .handler k act) ∨
    (∃ endpoint deadline, a = .request endpoint deadline ∧ k = s.requests ∧
      t.handler k = { Handler.absent with endpoint, deadline, pc := .arrived }) ∨
    ∃ act, a = .handler k act ∧ k < s.requests ∧ handlerStep s k act = some t := by
  have ⟨_, h⟩ := step_eq h
  cases a with
  | request endpoint deadline =>
    dsimp only at h
    subst h
    by_cases hk : k = s.requests
    · exact .inr (.inl ⟨endpoint, deadline, rfl, hk, by subst hk; simp⟩)
    · exact .inl ⟨by simp [hk], by simp⟩
  | handler h' act =>
    by_cases hk : k = h'
    · subst hk; exact .inr (.inr ⟨act, rfl, h⟩)
    · obtain ⟨⟨H, hH⟩, -⟩ := handlerStep_frame h.2
      exact .inl ⟨by rw [hH, Function.update_of_ne hk], by simp [Ne.symm hk]⟩
  | signal pid sig => exact .inl ⟨by rw [signalProcess_frame h], by simp⟩
  | reaper act => exact .inl ⟨by rw [(reaperStep_frame h).1], by simp⟩
  | main act => exact .inl ⟨by rw [(mainStep_frame h).1], by simp⟩
  | proc act => obtain ⟨os, -, rfl⟩ := h; exact .inl ⟨rfl, by simp⟩

theorem requests_mono {s t : State} {a : Action} (h : step s a = some t) : s.requests ≤ t.requests := by
  have ⟨_, h⟩ := step_eq h
  cases a with
  | request => dsimp only at h; subst h; exact Nat.le_succ _
  | handler k act => rw [(handlerStep_frame h.2).2.1]
  | signal pid sig => rw [signalProcess_frame h]
  | reaper act => rw [(reaperStep_frame h).2.2.2.1]
  | main act => rw [(mainStep_frame h).2.2.2.2.2]
  | proc act => obtain ⟨os, -, rfl⟩ := h; exact le_rfl

end ComputeArmada.Agent
