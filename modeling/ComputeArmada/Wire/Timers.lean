import ComputeArmada.Adapter.OneQueue
import ComputeArmada.Adapter.Settings
import ComputeArmada.Agent.Bounded

/-!
# The timers of a deadline

The delay of the timer with which the client abandons a request, in milliseconds, and the deadline that the agent
makes of what it is sent, in nanoseconds.

* `fires` : when a timer of Node fires; `AgentRequest.guardMs` : the delay that it is given;
* `AgentRequest.agentDeadline` : the deadline of the agent, an `int64`;
* `Makes` : the requests that the calls of a sandbox make; `Kept` : the client waits, and the agent does not wrap;
* `kept_iff` : which deadlines are kept.
-/

/-! ## The agent's deadline -/

namespace ComputeArmada.Agent

/-- The `timeoutMs` of a request, where it is an `int64`. -/
def int64Of (timeoutMs : Nat) : Option Int64 := if timeoutMs < 2 ^ 63 then some (Int64.ofNat timeoutMs) else none

/-- `time.Duration(timeoutMs) * time.Millisecond`. -/
def duration (timeoutMs : Int64) : Int64 := timeoutMs * 1000000

def execDeadline (timeoutMs : Nat) : Option Int64 :=
  (int64Of timeoutMs).bind fun timeoutMs => if 0 < timeoutMs then some (duration timeoutMs) else none

def waitPortDeadline (timeoutMs : Nat) : Option Int64 := (int64Of timeoutMs).map duration

def boundedDeadline (timeoutMs : Nat) : Option Int64 :=
  (int64Of timeoutMs).bind fun timeoutMs =>
    if timeoutMs ≤ 0 ∨ maxTimeoutMs < timeoutMs then none else some (duration timeoutMs)

theorem toInt_int64Of {n : Nat} (h : n < 2 ^ 63) : (Int64.ofNat n).toInt = n := by
  rw [← Int64.ofInt_eq_ofNat, Int64.toInt_ofInt_of_le] <;> omega

theorem toInt_duration {n : Nat} (h : n * 1000000 < 2 ^ 63) : (duration (Int64.ofNat n)).toInt = n * 1000000 := by
  unfold duration
  rw [Int64.toInt_mul, toInt_int64Of (by omega)]
  exact Int.bmod_eq_of_le (by simp; omega) (by simp; omega)

/-- What the agent computes is the deadline it was sent, exactly if that is an `int64` of nanoseconds. -/
theorem waitPortDeadline_iff (n : Nat) :
    (∃ ns, waitPortDeadline n = some ns ∧ ns.toInt = n * 1000000) ↔ n * 1000000 < 2 ^ 63 := by
  refine ⟨fun h => ?_, fun h => ?_⟩
  · obtain ⟨ns, -, hns⟩ := h
    have hlt := ns.toInt_lt
    omega
  · refine ⟨duration (Int64.ofNat n), ?_, toInt_duration h⟩
    unfold waitPortDeadline int64Of
    rw [if_pos (by omega), Option.map_some]

theorem execDeadline_of_pos {n : Nat} (hn : 0 < n) : execDeadline n = waitPortDeadline n := by
  unfold execDeadline waitPortDeadline int64Of
  split
  · rename_i h
    have hpos : 0 < Int64.ofNat n := by
      rw [Int64.lt_iff_toInt_lt, toInt_int64Of h]
      exact Int.natCast_pos.mpr hn
    rw [Option.bind_some, Option.map_some, if_pos hpos]
  · rfl

theorem boundedDeadline_of_le {n : Nat} (hn : 0 < n) (hle : n ≤ 2 ^ 31 - 1) :
    boundedDeadline n = waitPortDeadline n := by
  have hint := toInt_int64Of (n := n) (by omega)
  have h : ¬ (Int64.ofNat n ≤ 0 ∨ maxTimeoutMs < Int64.ofNat n) := by
    rw [Int64.le_iff_toInt_le, Int64.lt_iff_toInt_lt, hint]
    have hmax : maxTimeoutMs.toInt = 2 ^ 31 - 1 := by decide
    have hzero : (0 : Int64).toInt = 0 := by decide
    omega
  unfold boundedDeadline waitPortDeadline int64Of
  rw [if_pos (by omega), Option.bind_some, Option.map_some, if_neg h]

end ComputeArmada.Agent

/-! ## The client's timer -/

namespace ComputeArmada.Adapter

def maxTimerMs : ℚ := 2 ^ 31 - 1

def timeoutSlackMs : Nat := 10000

def boundedReadSlackMs : Nat := 1000

/-- When a timer of Node fires, for the delay it was given: `none` is `Infinity`. -/
def fires : Option ℚ → ℚ
  | some delay => if 1 ≤ delay ∧ delay ≤ maxTimerMs then delay else 1
  | none => 1

/-- `timeoutMs + slack`; the deadline may itself be a product that was rounded. -/
def plus (timeoutMs slack : Nat) : Option ℚ := do
  let timeoutMs ← double timeoutMs
  double (timeoutMs + slack)

def boundedReadGiveUpMs (timeoutMs : Nat) : ℚ :=
  match plus timeoutMs boundedReadSlackMs with
  | some delay => min delay maxTimerMs
  | none => maxTimerMs

namespace AgentRequest

/-- The deadline that a request is made with. -/
def deadlineMs : AgentRequest → Option Nat
  | .run _ timeoutMs | .stream _ timeoutMs => timeoutMs
  | .readFileBounded _ _ timeoutMs | .waitForPort _ timeoutMs _ _ => some timeoutMs
  | _ => none

/-- The delay of the timer that abandons it. -/
def guardMs : AgentRequest → Option (Option ℚ)
  | .run _ timeoutMs => timeoutMs.map fun timeoutMs => plus timeoutMs timeoutSlackMs
  | .stream _ timeoutMs => timeoutMs.map fun timeoutMs => double timeoutMs
  | .readFileBounded _ _ timeoutMs => some (some (boundedReadGiveUpMs timeoutMs))
  | .waitForPort _ timeoutMs _ _ => some (plus timeoutMs timeoutSlackMs)
  | _ => none

/-- The `timeoutMs` that the agent is sent: none for a stream, whose deadline is the client's alone. -/
def sentMs : AgentRequest → Option Nat
  | .stream _ _ => none
  | request => request.deadlineMs

def agentDeadline (request : AgentRequest) : Option Int64 :=
  request.sentMs.bind fun timeoutMs =>
    match request with
    | .run _ _ => Agent.execDeadline timeoutMs
    | .readFileBounded _ _ _ => Agent.boundedDeadline timeoutMs
    | _ => Agent.waitPortDeadline timeoutMs

/-- The largest deadline that the timer of a request still holds, with the slack added to it. -/
def Fits (deadline : Nat) : AgentRequest → Prop
  | .run _ _ | .waitForPort _ _ _ _ => deadline + timeoutSlackMs ≤ 2 ^ 31 - 1
  | .stream _ _ => deadline ≤ 2 ^ 31 - 1
  | _ => True

end AgentRequest

theorem double_natCast {n : Nat} (h : n < 2 ^ 53) : double n = some (n : ℚ) := by
  have habs : |(n : ℤ)| < 2 ^ 53 := by
    rw [abs_of_nonneg (by omega)]
    exact_mod_cast h
  exact_mod_cast double_int habs

/-- Rounding does not bring a number back below the cliff. -/
theorem past_cliff {q r : ℚ} (h : 2 ^ 31 ≤ q) (hr : double q = some r) : 2 ^ 31 ≤ r := by
  have hpow : (2 : ℚ) ^ (31 : ℤ) ≤ r := two_pow_le_double (by norm_num) (by exact_mod_cast h) hr
  exact_mod_cast hpow

theorem fires_past {delay : Option ℚ} (h : ∀ q, delay = some q → 2 ^ 31 ≤ q) : fires delay = 1 := by
  cases delay with
  | none => rfl
  | some q =>
    have hq := h q rfl
    unfold fires maxTimerMs
    refine if_neg ?_
    rintro ⟨-, hle⟩
    linarith

theorem fires_natCast {n : Nat} (hn : 0 < n) (h : n ≤ 2 ^ 31 - 1) : fires (some (n : ℚ)) = n := by
  have hle : (n : ℚ) ≤ maxTimerMs := by
    unfold maxTimerMs
    have : n + 1 ≤ 2 ^ 31 := by omega
    have : ((n + 1 : ℕ) : ℚ) ≤ ((2 ^ 31 : ℕ) : ℚ) := by exact_mod_cast this
    push_cast at this
    linarith
  unfold fires
  exact if_pos ⟨by exact_mod_cast hn, hle⟩

theorem plus_of_lt {n slack : Nat} (h : n + slack < 2 ^ 53) : plus n slack = some ((n + slack : ℕ) : ℚ) := by
  unfold plus
  rw [double_natCast (by omega), Option.bind_eq_bind, Option.bind_some, ← Nat.cast_add, double_natCast h]

theorem past_plus {n slack : Nat} (h : 2 ^ 31 ≤ n + slack) {q : ℚ} (hq : plus n slack = some q) : 2 ^ 31 ≤ q := by
  obtain ⟨r, hr, hq⟩ := Option.bind_eq_some_iff.mp hq
  refine past_cliff ?_ hq
  by_cases hn : n < 2 ^ 53
  · obtain rfl := Option.some.inj ((double_natCast hn).symm.trans hr)
    exact_mod_cast h
  · have hn' : (2 : ℚ) ^ 31 ≤ n := by
      have : 2 ^ 31 ≤ n := by omega
      exact_mod_cast this
    have hle := past_cliff hn' hr
    have : (0 : ℚ) ≤ slack := Nat.cast_nonneg slack
    linarith

/-- A timer with slack waits for the deadline exactly if it holds the sum. -/
theorem fires_plus_iff {n slack : Nat} (hn : 0 < n) (hslack : slack < 2 ^ 30) :
    (n : ℚ) ≤ fires (plus n slack) ↔ n + slack ≤ 2 ^ 31 - 1 := by
  refine ⟨fun h => ?_, fun h => ?_⟩
  · by_contra hpast
    rw [fires_past fun q => past_plus (by omega)] at h
    have : n ≤ 1 := by exact_mod_cast h
    omega
  · rw [plus_of_lt (by omega), fires_natCast (by omega) h]
    exact_mod_cast Nat.le_add_right n slack

theorem fires_double_iff {n : Nat} (hn : 0 < n) : (n : ℚ) ≤ fires (double n) ↔ n ≤ 2 ^ 31 - 1 := by
  refine ⟨fun h => ?_, fun h => ?_⟩
  · by_contra hpast
    have hn' : (2 : ℚ) ^ 31 ≤ n := by
      have : 2 ^ 31 ≤ n := by omega
      exact_mod_cast this
    rw [fires_past fun q => past_cliff hn'] at h
    have : n ≤ 1 := by exact_mod_cast h
    omega
  · rw [double_natCast (by omega), fires_natCast hn h]

/-- The clamped timer always waits. -/
theorem le_fires_giveUp {n : Nat} (hn : 0 < n) (h : n ≤ 2 ^ 31 - 1) :
    (n : ℚ) ≤ fires (some (boundedReadGiveUpMs n)) := by
  have hgive : boundedReadGiveUpMs n = ((min (n + boundedReadSlackMs) (2 ^ 31 - 1) : ℕ) : ℚ) := by
    unfold boundedReadGiveUpMs maxTimerMs
    rw [plus_of_lt (by unfold boundedReadSlackMs; omega), Nat.cast_min]
    have hclamp : ((2 ^ 31 - 1 : ℕ) : ℚ) = 2 ^ 31 - 1 := by norm_num
    rw [hclamp]
  rw [hgive, fires_natCast (by omega) (by omega)]
  exact_mod_cast Nat.le_min.mpr ⟨Nat.le_add_right n boundedReadSlackMs, h⟩

end ComputeArmada.Adapter

/-! ## Which deadlines are kept -/

namespace ComputeArmada.Wire
open Adapter

/-- The requests with a deadline that the calls of a sandbox make. -/
inductive Makes (env : Record) : AgentRequest → Prop
  | exec {config : ArmadaConfig} (hread : readCommandMaxSeconds env = .ok config.commandMaxSeconds)
      (command : List String) (timeout : Option Nat) :
      Makes env (.run command (timeout.or (backstopMs config timeout)))
  | execStream (command : List String) (timeout : Option Nat) : Makes env (.stream command timeout)
  | waitForPort (port : Nat) (timeout : Option Nat) (pid : Number) (probe : Option PortProbe) :
      Makes env (.waitForPort port (timeout.getD 30000) (some pid) probe)
  | readFileBounded (path : String) {maxBytes timeoutMs : Number} {budget : Nat × Nat}
      (h : validBudget maxBytes timeoutMs = some budget) : Makes env (.readFileBounded path budget.1 budget.2)

/-- The client does not abandon the request before the deadline, and the deadline of the agent, where it is sent
one, is as many milliseconds. -/
structure Kept (request : AgentRequest) (deadline : Nat) : Prop where
  waits : ∃ delay, request.guardMs = some delay ∧ (deadline : ℚ) ≤ fires delay
  agent : request.sentMs ≠ none → ∃ ns, request.agentDeadline = some ns ∧ ns.toInt = deadline * 1000000

theorem budget_le {maxBytes timeoutMs : Number} {budget : Nat × Nat}
    (h : validBudget maxBytes timeoutMs = some budget) : budget.2 ≤ 2 ^ 31 - 1 := by
  unfold validBudget at h
  split at h
  · rename_i timeout _ _
    split at h
    · rename_i hvalid
      obtain rfl := Option.some.inj h
      obtain ⟨-, -, -, -, hle⟩ := hvalid
      have : timeout.ceil ≤ 2 ^ 31 - 1 := by
        rw [Rat.ceil_le_iff]
        exact_mod_cast hle
      dsimp only
      omega
    · cases h
  · cases h

/-- A request that is abandoned with slack, and whose deadline the agent is sent. -/
theorem kept_plus_iff {request : AgentRequest} {n : Nat} (hguard : request.guardMs = some (plus n timeoutSlackMs))
    (hagent : request.agentDeadline = Agent.waitPortDeadline n) (hn : 0 < n) :
    Kept request n ↔ n + timeoutSlackMs ≤ 2 ^ 31 - 1 := by
  have hfires := fires_plus_iff hn (by decide : timeoutSlackMs < 2 ^ 30)
  refine ⟨fun h => ?_, fun h => ⟨⟨_, hguard, hfires.mpr h⟩, fun _ => ?_⟩⟩
  · obtain ⟨delay, hdelay, hwaits⟩ := h.waits
    rw [hguard] at hdelay
    obtain rfl := Option.some.inj hdelay
    exact hfires.mp hwaits
  · rw [hagent]
    exact (Agent.waitPortDeadline_iff n).mpr (by omega)

theorem kept_run_iff (command : List String) {n : Nat} (hn : 0 < n) :
    Kept (.run command (some n)) n ↔ n + timeoutSlackMs ≤ 2 ^ 31 - 1 :=
  kept_plus_iff rfl (Agent.execDeadline_of_pos hn) hn

theorem kept_stream_iff (command : List String) {n : Nat} (hn : 0 < n) :
    Kept (.stream command (some n)) n ↔ n ≤ 2 ^ 31 - 1 := by
  refine ⟨fun h => ?_, fun h => ⟨⟨_, rfl, (fires_double_iff hn).mpr h⟩, fun hsent => absurd rfl hsent⟩⟩
  obtain ⟨delay, hdelay, hwaits⟩ := h.waits
  obtain rfl := Option.some.inj hdelay
  exact (fires_double_iff hn).mp hwaits

theorem kept_readFileBounded (path : String) (maxBytes : Nat) {n : Nat} (hn : 0 < n) (hle : n ≤ 2 ^ 31 - 1) :
    Kept (.readFileBounded path maxBytes n) n where
  waits := ⟨_, rfl, le_fires_giveUp hn hle⟩
  agent _ := by
    obtain ⟨ns, hns, h⟩ := (Agent.waitPortDeadline_iff n).mpr (by omega)
    exact ⟨ns, (Agent.boundedDeadline_of_le hn hle).trans hns, h⟩

/-- **A deadline is kept** exactly if the client's timer still holds it, its slack added. -/
theorem kept_iff {env : Record} {request : AgentRequest} (h : Makes env request) {deadline : Nat}
    (hdeadline : request.deadlineMs = some deadline) (hpos : 0 < deadline) :
    Kept request deadline ↔ request.Fits deadline := by
  cases h with
  | exec hread command timeout =>
    have hsent : ∀ timeoutMs, timeoutMs = some deadline →
        (Kept (.run command timeoutMs) deadline ↔ deadline + timeoutSlackMs ≤ 2 ^ 31 - 1) := by
      rintro _ rfl
      exact kept_run_iff command hpos
    exact hsent _ hdeadline
  | execStream command timeout =>
    obtain rfl := hdeadline
    exact kept_stream_iff command hpos
  | waitForPort port timeout pid probe =>
    obtain rfl := Option.some.inj hdeadline
    exact kept_plus_iff rfl rfl hpos
  | readFileBounded path hbudget =>
    obtain rfl := Option.some.inj hdeadline
    exact iff_of_true (kept_readFileBounded path _ hpos (budget_le hbudget)) trivial

/-- A command without a timeout, under the default maximum. -/
theorem kept_default : Kept (.run ["sh", "-lc", "true"] (some 21600000)) 21600000 := by
  have hread : readCommandMaxSeconds [] = .ok mappedConfig.commandMaxSeconds := rfl
  have h : Makes [] (.run ["sh", "-lc", "true"] (some 21600000)) := .exec hread ["sh", "-lc", "true"] none
  exact (kept_iff h rfl (by decide)).mpr (by decide : 21600000 + timeoutSlackMs ≤ 2 ^ 31 - 1)

/-- Under a maximum of 3 000 000 s, a command without a timeout is abandoned after 1 ms. -/
theorem abandoned_at_once : ¬ ∀ (env : Record) (request : AgentRequest) (deadline : Nat), Makes env request →
    request.deadlineMs = some deadline → 0 < deadline → Kept request deadline := by
  intro hkept
  have hread : readCommandMaxSeconds [("ARMADA_COMMAND_MAX_SECONDS", "3000000")] =
      .ok { mappedConfig with commandMaxSeconds := 3000000 }.commandMaxSeconds := by decide +kernel
  have h := hkept _ (.run ["sh", "-lc", "true"] (some 3000000000)) 3000000000 (.exec hread _ none) rfl (by decide)
  exact absurd ((kept_run_iff _ (by decide)).mp h) (by decide)

end ComputeArmada.Wire
