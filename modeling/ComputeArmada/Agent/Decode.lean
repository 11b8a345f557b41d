import ComputeArmada.Lib.Decoder
import ComputeArmada.Agent.Bounded
import ComputeArmada.Agent.Handles
import ComputeArmada.Agent.WaitPort

/-!
# What the agent is asked

The JSON bodies of `server.go` and `process.go`, as `json.Decoder` decodes them into structs, and what the handlers
check before they do anything.

* `Field`, `decodeStruct` : the fields of a struct by their names, exact or folded;
* `Slice` : a slice of strings, with what an earlier value of it left behind;
* `ExecRequest`, `StartProcessRequest`, `SignalRequest`, `WaitPortRequest` : the requests;
* `checkExec`, `checkStart`, `checkSignal`, `checkWait`, `startedByQuery` : the handlers, up to what they do;
* `answerStatus`, `answerLogs`, `answerSignal` : those of the processes that run, with what they answer.
-/

namespace ComputeArmada.Agent

/-! ## `encoding/json` -/

/-- A value of a body, with the whole numbers among its numbers. -/
abbrev Value := Json (Option Int)

def maxNestingDepth : Nat := 10000

/-- The characters of a text; a byte that begins none is replaced. -/
def runeText (bs : List UInt8) : List Char := (runes bs).map fun r => r.getD Json.replacement

/-- As far as a letter of ASCII comes of it: `ſ` and the sign of the kelvin fold to one. -/
def foldRune (c : Char) : Char :=
  if c.toNat = 0x17f then 'S' else if c.toNat = 0x212a then 'K' else c.toUpper

def foldName (name : String) : List Char := name.toList.map foldRune

/-- A field of a struct, and what a value makes of the struct; `none` where the value does not fit it. -/
structure Field (ρ : Type) where
  name : String
  decode : ρ → Value → Option ρ

section
variable {ρ : Type}

def fieldOf (fields : List (Field ρ)) (key : String) : Option (Field ρ) :=
  (fields.find? fun f => f.name = key).or (fields.find? fun f => foldName f.name = foldName key)

/-- A member of an object; one that is no field's is left out. -/
def decodeMember (fields : List (Field ρ)) (r : ρ) (member : String × Value) : Option ρ :=
  match fieldOf fields member.1 with
  | some f => f.decode r member.2
  | none => some r

def decodeStruct (fields : List (Field ρ)) (zero : ρ) : Value → Option ρ
  | .null => some zero
  | .object members => members.foldlM (decodeMember fields) zero
  | _ => none

/-- `json.NewDecoder(body).Decode(&req)`, of a body that is cut where `http.MaxBytesReader` ends it. -/
def decode (fields : List (Field ρ)) (zero : ρ) (body : List UInt8) : Option ρ :=
  (Json.first maxNestingDepth (runeText (body.take maxRequestBytes))).bind (decodeStruct fields zero)

/-- The refusal of a body, in the words of its decoder. -/
def decoded (decodeError : List UInt8 → String) (fields : List (Field ρ)) (zero : ρ) (body : List UInt8) :
    Except Response ρ :=
  match decode fields zero body with
  | some req => .ok req
  | none => .error (writeError 400 (bytes ("bad request: " ++ decodeError body)))

end

/-! ### Values of a field -/

def decodeString (old : String) : Value → Option String
  | .null => some old
  | .string s => some s
  | _ => none

/-- A pointer to a string. -/
def decodePointer : Value → Option (Option String)
  | .null => some none
  | .string s => some (some s)
  | _ => none

/-- An `int` or an `int64`. -/
def decodeInt (old : Int) : Value → Option Int
  | .null => some old
  | .number (some n) => if -2 ^ 63 ≤ n ∧ n < 2 ^ 63 then some n else none
  | _ => none

/-- A slice, and all that its array has held. -/
structure Slice where
  cells : List String
  length : Nat
  deriving DecidableEq

def Slice.empty : Slice := { cells := [], length := 0 }

def Slice.strings (s : Slice) : List String := s.cells.take s.length

/-- The values one after the other into the cells, the rest of which stays. -/
def decodeCells : List String → List Value → Option (List String)
  | cells, [] => some cells
  | cells, v :: vs => do
    let s ← decodeString (cells.head?.getD "") v
    return s :: (← decodeCells cells.tail vs)

def decodeSlice (old : Slice) : Value → Option Slice
  | .null => some .empty
  | .array [] => some .empty
  | .array values => (decodeCells old.cells values).map fun cells => { cells, length := values.length }
  | _ => none

/-! ## Requests -/

structure ExecRequest where
  cmd : Slice
  stdin : Option String
  timeoutMs : Int
  deriving DecidableEq

def ExecRequest.zero : ExecRequest := { cmd := .empty, stdin := none, timeoutMs := 0 }

def ExecRequest.fields : List (Field ExecRequest) :=
  [{ name := "cmd", decode := fun r v => (decodeSlice r.cmd v).map fun cmd => { r with cmd } },
   { name := "stdin", decode := fun r v => (decodePointer v).map fun stdin => { r with stdin } },
   { name := "timeoutMs", decode := fun r v => (decodeInt r.timeoutMs v).map fun timeoutMs => { r with timeoutMs } }]

structure StartProcessRequest where
  cmd : Slice
  cwd : String
  deriving DecidableEq

def StartProcessRequest.zero : StartProcessRequest := { cmd := .empty, cwd := "" }

def StartProcessRequest.fields : List (Field StartProcessRequest) :=
  [{ name := "cmd", decode := fun r v => (decodeSlice r.cmd v).map fun cmd => { r with cmd } },
   { name := "cwd", decode := fun r v => (decodeString r.cwd v).map fun cwd => { r with cwd } }]

structure SignalRequest where
  pid : Int
  signal : String
  deriving DecidableEq

def SignalRequest.zero : SignalRequest := { pid := 0, signal := "" }

def SignalRequest.fields : List (Field SignalRequest) :=
  [{ name := "pid", decode := fun r v => (decodeInt r.pid v).map fun pid => { r with pid } },
   { name := "signal", decode := fun r v => (decodeString r.signal v).map fun signal => { r with signal } }]

def WaitPortRequest.zero : WaitPortRequest := { port := 0, timeoutMs := 0, pid := 0, mode := "", path := "" }

def WaitPortRequest.fields : List (Field WaitPortRequest) :=
  [{ name := "port", decode := fun r v => (decodeInt r.port v).map fun port => { r with port } },
   { name := "timeoutMs", decode := fun r v => (decodeInt r.timeoutMs v).map fun timeoutMs => { r with timeoutMs } },
   { name := "pid", decode := fun r v => (decodeInt r.pid v).map fun pid => { r with pid } },
   { name := "mode", decode := fun r v => (decodeString r.mode v).map fun mode => { r with mode } },
   { name := "path", decode := fun r v => (decodeString r.path v).map fun path => { r with path } }]

/-! ## Handlers -/

/-- A command that is about to be started: there is a program. -/
structure Command where
  program : String
  arguments : List String
  deriving DecidableEq

def commandOf (cmd : List String) : Except Response Command :=
  match cmd with
  | [] => .error (writeError 400 (bytes "cmd must not be empty"))
  | program :: arguments => .ok { program, arguments }

section
variable (decodeError : List UInt8 → String) (base64Error : String → String) (parseError : String → Option String)
  (known : Int → Bool)

/-- `exec`: the command, what it reads, and its deadline. -/
def checkExec (body : List UInt8) : Except Response (Command × Option (List UInt8) × Int) := do
  let req ← decoded decodeError ExecRequest.fields .zero body
  let command ← commandOf req.cmd.strings
  match req.stdin with
  | none => return (command, none, req.timeoutMs)
  | some text =>
    match Base64.strict text.toList with
    | some stdin => return (command, some stdin, req.timeoutMs)
    | none => throw (writeError 400 (bytes ("stdin is not base64: " ++ base64Error text)))

/-- `startProcess`: the command and its working directory. -/
def checkStart (body : List UInt8) : Except Response (Command × String) := do
  let req ← decoded decodeError StartProcessRequest.fields .zero body
  let command ← commandOf req.cmd.strings
  return (command, req.cwd)

/-- `signals`. -/
def signals : List (String × Signal) :=
  [("TERM", .TERM), ("KILL", .KILL), ("INT", .INT), ("HUP", .HUP), ("QUIT", .QUIT), ("USR1", .USR1), ("USR2", .USR2)]

/-- As far as a letter of ASCII comes of it: of `ı` and `ſ` one does. -/
def upperRune (c : Char) : Char :=
  if c.toNat = 0x131 then 'I' else if c.toNat = 0x17f then 'S' else c.toUpper

/-- The key that a name of a signal is looked up by. -/
def signalKey (name : String) : List Char :=
  let upper := (if name = "" then "TERM" else name).toList.map upperRune
  (upper.dropPrefix? "SIG".toList).getD upper

def signalOf (name : String) : Option Signal := (signals.find? fun p => p.1.toList = signalKey name).map (·.2)

/-- The process a request names, of those the agent started. -/
def findStarted (pid : Int) : Except Response Int :=
  if known pid then .ok pid else .error (writeError 404 (bytes ("unknown pid: " ++ toString pid)))

def findSignal (req : SignalRequest) : Except Response (Int × Signal) := do
  match signalOf req.signal with
  | none => throw (writeError 400 (bytes ("unknown signal: " ++ req.signal)))
  | some sig => return (← findStarted known req.pid, sig)

def checkSignal (body : List UInt8) : Except Response (Int × Signal) := do
  findSignal known (← decoded decodeError SignalRequest.fields .zero body)

/-- `waitPort`, up to its loop. -/
def checkWait (body : List UInt8) : Except Response WaitPortRequest := do
  checkWaitPort parseError known (← decoded decodeError WaitPortRequest.fields .zero body)

def startedByQuery (r : Request) : Except Response Int :=
  match parseInt (r.query "pid") with
  | none => .error (writeError 400 (bytes "pid must be a number"))
  | some pid => findStarted known pid

end

/-! ## Answers -/

def startProcessResponse (pid : Nat) : Response :=
  writeJSON (Json.Reader.objectText [("pid", (toString pid).toList)])

/-- The answer for a process that runs, or has exited with a code. -/
def processStatusResponse : Option Int → Response
  | none => writeJSON (Json.Reader.objectText [("running", "true".toList)])
  | some code =>
    writeJSON (Json.Reader.objectText [("running", "false".toList), ("exitCode", (toString code).toList)])

def processLogsResponse (data : List UInt8) : Response := { status := 200, body := data }

def signalProcessResponse : Response := writeJSON (Json.Reader.objectText [])

/-- The pids that `started` has an entry for. -/
def State.knows (s : State) (pid : Int) : Bool := 0 ≤ pid ∧ (s.started pid.toNat).isSome

section
variable (s : State)

/-- `processStatus`, as the handler answers. -/
def answerStatus (r : Request) : Response :=
  match startedByQuery s.knows r with
  | .error response => response
  | .ok pid => processStatusResponse ((processStatus s pid.toNat).getD none)

/-- `processLogs`, where `logs` is what the log file of each request holds. -/
def answerLogs (logs : Nat → List UInt8) (r : Request) : Response :=
  match startedByQuery s.knows r with
  | .error response => response
  | .ok pid => processLogsResponse ((processLogs s logs pid.toNat).getD [])

/-- `signalProcess`, with what it does. -/
def answerSignal (decodeError : List UInt8 → String) (r : Request) : Response × State :=
  match checkSignal decodeError s.knows r.body with
  | .error response => (response, s)
  | .ok (pid, sig) => (signalProcessResponse, (signalProcess s pid.toNat sig).getD s)

end

end ComputeArmada.Agent
