import ComputeArmada.Agent.Deadline
import ComputeArmada.Wire.Exec

/-!
# Commands that time out

What `AgentChannel.run` makes of a command that ended by itself, before its deadline.

* `lastEvent` : the end of a response, by what the handler reports;
* `run_in_time` : when the command is reported with its own exit code, and not as timed out;
* `reported_timed_out` : a command that ended, and whose deadline passes while its output is still sent.
-/

namespace ComputeArmada.Wire
open Adapter Agent Runs

/-- The last event of a response; `text` is what the error of a `Wait` says that is none of the command's. -/
def lastEvent (text : List UInt8) : Option (Int × Bool) → ExecEvent
  | none => { error := text }
  | some (code, timedOut) => { exit := some code, timedOut }

/-- **A command that ended before its deadline** is reported with its own exit code and not as timed out, so
that `run` gives its whole output, exactly if the deadline has not passed when the final event is built (and its
input could be copied). -/
theorem run_in_time (engine : Engine) (endpoint : AgentEndpoint) (command : List String) (timeoutMs : Option Nat)
    (pid : Int) (text : List UInt8) (out err : List PipeRead) {output : List ExecEvent}
    (h : Interleaves (stdoutEvents out) (stderrEvents err) output) {k : Nat} {s u v : State} {copyFailed : Bool}
    (hfirst : EndsFirst k s u v copyFailed) {status : WaitStatus} (hstatus : status.exitCode = ownCode s k)
    {chunks : List (List UInt8)}
    (hchunks : chunks.flatten = execBody pid output (lastEvent text (v.handler k).reported)) :
    ((v.handler k).reported = some (status.exitCode, false) ∧
      AgentChannel.run engine endpoint command timeoutMs (started { chunks, failure := none }) =
        .ok { stdout := String.ofList (Utf8.decode (forward out).flatten)
              stderr := String.ofList (Utf8.decode (forward err).flatten)
              exitCode := .number (engine.number status.exitCode) }) ↔
      (u.handler k).ctx ≠ some .deadlineExceeded ∧ ¬ (copyFailed = true ∧ status.exitCode = 0) := by
  obtain ⟨hevents, hout, herr⟩ := output_events h
  have hreported := hfirst.reported
  rw [← hstatus] at hreported
  rw [hreported] at hchunks ⊢
  by_cases hcopy : copyFailed = true ∧ status.exitCode = 0
  · rw [if_pos hcopy]
    exact iff_of_false (fun hgiven => nomatch hgiven.1) (fun hnot => hnot.2 hcopy)
  · rw [if_neg hcopy] at hchunks ⊢
    have hrun := @run_exit engine endpoint command timeoutMs pid output hevents status
      (decide ((u.handler k).ctx = some .deadlineExceeded)) chunks hchunks
    by_cases hpassed : (u.handler k).ctx = some .deadlineExceeded
    · refine iff_of_false ?_ (fun hnot => hnot.1 hpassed)
      rintro ⟨hsome, -⟩
      simp [hpassed] at hsome
    · refine iff_of_true ⟨by simp [hpassed], ?_⟩ ⟨hpassed, hcopy⟩
      rw [hrun, hout, herr, decide_eq_false hpassed]
      rfl

/-- A command of request 0 that is started and exits with 3, before its deadline. -/
def exitsInTime : List Action :=
  [.request .exec true, .handler 0 (.start 7), .handler 0 .register, .handler 0 .serve, .proc (.exit 0 3)]

def drains : List Action :=
  [.handler 0 (.eof .stdout), .handler 0 (.eof .stderr), .handler 0 .wait, .handler 0 .closeExited]

theorem endsFirst_exitsInTime (steps : List Action) (p : State → State → Prop) [∀ u v, Decidable (p u v)]
    (h : (exec step Owned .init exitsInTime).any (fun s => decide (
      ((s.handler 0).deadline = true ∧ (s.handler 0).ctx = none ∧ ownCode s 0 = 3) ∧
      ((s.handler 0).endpoint = .exec ∧ 2 ≤ (s.handler 0).pc.rank ∧ (s.handler 0).pc.rank < 7 ∧
        ¬ s.os.running (s.handler 0).leader ∧ s.atEof .stdout 0 ∧ s.atEof .stderr 0) ∧
      (exec step Owned s steps).any (fun u =>
        (step u (.handler 0 (.reply false))).any fun v => decide (p u v)) = true)) = true) :
    ∃ s u v, EndsFirst 0 s u v false ∧ ownCode s 0 = 3 ∧ p u v := by
  obtain ⟨s, hs, ⟨hdeadline, hahead, hcode⟩, ⟨hexec, hstarted, hunreported, hdead, hout, herr⟩, hrest⟩ :=
    Run.exists_of_exec step Owned _ .init exitsInTime h
  obtain ⟨u, hu, hreply⟩ := Run.exists_of_exec step Owned
    (fun u => (step u (.handler 0 (.reply false))).any (fun v => decide (p u v)) = true) s steps (by simpa using hrest)
  obtain ⟨v, hv, hp⟩ := (Option.any_eq_true _ _).mp hreply
  have hpipes : ∀ pipe, s.atEof pipe 0 := by
    intro pipe
    cases pipe with
    | stdout => exact hout
    | stderr => exact herr
  exact ⟨s, u, v, ⟨hs, hdeadline, hahead, ⟨hexec, hstarted, hunreported, hdead, hpipes⟩, hu, hv⟩, hcode,
    of_decide_eq_true hp⟩

theorem run_in_time_three : ∃ s u v, EndsFirst 0 s u v false ∧
    ∀ chunks : List (List UInt8), chunks.flatten = execBody 7 [] (lastEvent [] (v.handler 0).reported) →
      AgentChannel.run terse agentAt ["sh"] (some 1000) (started { chunks, failure := none }) =
        .ok { stdout := "", stderr := "", exitCode := .number (terse.number 3) } := by
  obtain ⟨s, u, v, hfirst, hcode, hctx⟩ :=
    endsFirst_exitsInTime drains (fun u _ => (u.handler 0).ctx = none) (by decide +kernel)
  have hstatus : (WaitStatus.exited 3).exitCode = ownCode s 0 := hcode.symm
  refine ⟨s, u, v, hfirst, fun chunks hchunks => ?_⟩
  exact ((run_in_time terse agentAt ["sh"] (some 1000) 7 [] [] [] .nil hfirst hstatus hchunks).mpr
    ⟨by simp [hctx], by decide⟩).2

/-- The deadline passes while the output is still sent. -/
theorem reported_timed_out : ∃ s u v, EndsFirst 0 s u v false ∧ ownCode s 0 = 3 ∧
    (v.handler 0).reported = some (3, true) :=
  endsFirst_exitsInTime (.handler 0 (.ctxEnd .deadlineExceeded) :: drains)
    (fun _ v => (v.handler 0).reported = some (3, true)) (by decide +kernel)

end ComputeArmada.Wire
