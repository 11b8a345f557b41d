import ComputeArmada.Adapter.Ndjson

/-!
# The channel to an agent

`channel.ts`: what each method of `AgentChannel` makes of what its request comes to.

* `Fetched` : the outcome of a `fetch`: no response, or one with a body that may break off;
* `AgentChannel.run`, `AgentChannel.stream`, … : the methods;
* `AgentChannel.reply` : all of them, as the sandbox calls them.
-/

namespace ComputeArmada.Adapter

/-! ## Responses -/

structure HttpResponse where
  status : Nat
  body : Option ResponseBody

inductive Fetched
  | failed (cause : JsError)
  | answered (response : HttpResponse)

/-- The bytes of a body, if it comes to its end. -/
def ResponseBody.bytes (body : ResponseBody) : Except JsError (List UInt8) :=
  match body.failure with
  | some cause => .error cause
  | none => .ok body.chunks.flatten

namespace HttpResponse

def ok (response : HttpResponse) : Bool := 200 ≤ response.status ∧ response.status ≤ 299

def arrayBuffer (response : HttpResponse) : Except JsError (List UInt8) :=
  match response.body with
  | some body => body.bytes
  | none => .ok []

def text (response : HttpResponse) : Except JsError String := do
  let bytes ← response.arrayBuffer
  let (decoder, text) := TextDecoder.new.decode bytes
  return String.ofList (text ++ Utf8.finish decoder.pending)

def json (engine : Engine) (response : HttpResponse) : Except JsError JsonValue := do
  engine.parse (← response.text).toList

end HttpResponse

def bodyOf (response : HttpResponse) : Except JsError ResponseBody :=
  match response.body with
  | some body => .ok body
  | none => .error (error "the response had no body")

/-- A member of an object, if it is a string. -/
def stringOf (value : JsonValue) (key : String) : Option String :=
  match value.get? key with
  | some (.string s) => some s
  | _ => none

/-- A member of an object, if it is a number. -/
def numberOf (value : JsonValue) (key : String) : Option Number :=
  match value.get? key with
  | some (.number n) => some n
  | _ => none

/-- A member of an object, if it is a boolean. -/
def booleanOf (value : JsonValue) (key : String) : Option Bool :=
  match value.get? key with
  | some (.bool b) => some b
  | _ => none

structure AgentRefusal where
  code : Option String
  message : String

def refusalOf (engine : Engine) (response : HttpResponse) : Except JsError AgentRefusal := do
  let text ← response.text
  let status := "HTTP " ++ toString response.status ++ ": "
  match engine.parse text.toList with
  | .ok parsed =>
    return { code := stringOf parsed "code", message := status ++ (stringOf parsed "error").getD (Js.trim text) }
  | .error _ => return { code := none, message := status ++ Js.trim text }

/-- `JSON.stringify` of a value that is no object. -/
def stringify : JsonValue → String
  | .bool b => if b then "true" else "false"
  | .number n => if n.value = none then "null" else n.text
  | .string s => Js.quoted s
  | _ => "null"

/-- An event: an object, or an array. -/
def asEvent (value : JsonValue) : Except JsError JsonValue :=
  match value with
  | .object _ | .array _ => .ok value
  | _ => .error (error ("the agent sent something that is not an event: " ++ stringify value))

def fileTypeOf (s : String) : Option AgentFileType :=
  if s = "file" then some .file
  else if s = "directory" then some .directory
  else if s = "symlink" then some .symlink
  else if s = "other" then some .other
  else none

def entryOf (value : JsonValue) : Option AgentFileEntry :=
  (stringOf value "path").map fun path =>
    { path, type := ((stringOf value "type").bind fileTypeOf).getD .other
      size := (numberOf value "size").getD { value := some 0, text := "0" } }

def entriesOf (value : JsonValue) : Option (List AgentFileEntry) :=
  match value.get? "entries" with
  | some (.array raw) => raw.mapM entryOf
  | _ => none

def portWaitOf (value : JsonValue) : Option PortWait :=
  (booleanOf value "open").map fun «open» =>
    { «open», exited := if booleanOf value "exited" = some true then some true else none
      exitCode := numberOf value "exitCode" }

/-- What the agent reports of a process it started. -/
structure ProcessStatus where
  running : Bool
  exitCode : Option Number
  deriving DecidableEq

def statusOf (value : JsonValue) : Option ProcessStatus :=
  (booleanOf value "running").map fun running => { running, exitCode := numberOf value "exitCode" }

/-- A command as messages name it: the program, never its arguments. -/
def programOf (command : List String) : String := Js.quoted (command.head?.getD "")

def runWhat (command : List String) : String := "run " ++ programOf command

/-- The whole body, or none as soon as it runs past `maxBytes`. -/
def readAtMost (maxBytes : Nat) (failure : Option JsError) (read : List UInt8) :
    List (List UInt8) → Except JsError (Option (List UInt8))
  | [] =>
    match failure with
    | some cause => .error cause
    | none => .ok (some read)
  | chunk :: chunks =>
    if maxBytes < read.length + chunk.length then .ok none
    else readAtMost maxBytes failure (read ++ chunk) chunks

/-! ## The methods -/

namespace AgentChannel
variable (engine : Engine) (endpoint : AgentEndpoint)

/-- `where`, a word of Lean's own. -/
def place : String := endpoint.pod.podNamespace ++ "/" ++ endpoint.pod.podName

def failure (what : String) (cause : JsError) : JsError :=
  error ("The agent in " ++ place endpoint ++ " could not " ++ what ++ ": " ++ cause.message)

/-- `POST /exec`, whose refusals are read before the stream begins. -/
def exec (fetched : Fetched) : Except JsError HttpResponse :=
  match fetched with
  | .failed cause => .error cause
  | .answered response =>
    if response.ok then .ok response
    else do throw (error (← refusalOf engine response).message)

/-- One request to the agent. -/
def request (what : String) (fetched : Fetched) : Except JsError HttpResponse :=
  match fetched with
  | .failed cause => .error (failure endpoint what cause)
  | .answered response => .ok response

/-- A response that is `ok`; a refused one fails. -/
def accepted (what : String) (response : HttpResponse) : Except JsError Unit := do
  if response.ok then return ()
  else throw (failure endpoint what (error (← refusalOf engine response).message))

/-- What `run` has read: `out`, `err` and `exit`. -/
structure Read where
  out : List (List UInt8)
  err : List (List UInt8)
  exit : Option JsonValue

/-- Bytes are pushed where the event has them. -/
def push (buffers : List (List UInt8)) (text : Option JsonValue) : Except JsError (List (List UInt8)) :=
  match text with
  | none => .ok buffers
  | some text => do return buffers ++ [← engine.base64Bytes text]

/-- One event of a command that runs. -/
def onEvent (read : Read) (value : JsonValue) : Except JsError Read := do
  let event ← asEvent value
  let out ← push engine read.out (event.get? "stdout")
  let err ← push engine read.err (event.get? "stderr")
  match event.get? "error" with
  | some text => throw (error (engine.text text))
  | none => return { out, err, exit := if (event.get? "exit").isSome then some event else read.exit }

def readEvents (body : ResponseBody) : Except JsError Read := do
  let events := readNdjson engine body
  let read ← events.values.foldlM (onEvent engine) { out := [], err := [], exit := none }
  match events.failure with
  | some cause => throw cause
  | none => return read

/-- `Buffer.concat(buffers).toString('utf8')`. -/
def utf8Text (buffers : List (List UInt8)) : String := String.ofList (Utf8.decode buffers.flatten)

def run (command : List String) (timeoutMs : Option Nat) (fetched : Fetched) : Except JsError CommandResult :=
  match (do readEvents engine (← bodyOf (← exec engine fetched)) : Except JsError Read) with
  | .error cause => .error (failure endpoint (runWhat command) cause)
  | .ok read =>
    match read.exit with
    | none => .error (failure endpoint (runWhat command) (error "the response ended without an exit status"))
    | some event =>
      if booleanOf event "timedOut" = some true then
        .error { name := "CommandTimeoutError"
                 message := "Command timed out after " ++ (timeoutMs.map toString).getD "undefined" ++ "ms in " ++
                   place endpoint ++ ": " ++ programOf command }
      else .ok { stdout := utf8Text read.out, stderr := utf8Text read.err, exitCode := (event.get? "exit").getD .null }

/-- What the calls of `pull` give, one after the other. An error that the abort of the stream itself has
caused is an ending. -/
def pull (what : String) (aborted : Bool) (failed : Option JsError) : List JsonValue → OutputStream
  | [] =>
    { chunks := []
      failure := if aborted then none else failed.map (failure endpoint what) }
  | value :: values =>
    match asEvent value with
    | .error cause => { chunks := [], failure := some cause }
    | .ok event =>
      match event.get? "error" with
      | some text => { chunks := [], failure := some (failure endpoint what (error (engine.text text))) }
      | none =>
        match event.get? "stdout" with
        | none => pull what aborted failed values
        | some text =>
          match engine.base64Bytes text with
          | .error cause => { chunks := [], failure := some cause }
          | .ok bytes =>
            let output := pull what aborted failed values
            { output with chunks := bytes :: output.chunks }

def stream (command : List String) (aborted : Bool) (fetched : Fetched) : Except JsError OutputStream :=
  match exec engine fetched with
  | .error cause => .error (failure endpoint (runWhat command) cause)
  | .ok response => do
    let events := readNdjson engine (← bodyOf response)
    return pull engine endpoint (runWhat command) aborted events.failure events.values

def writeFile (path : String) (fetched : Fetched) : Except JsError Unit := do
  let what := "write " ++ path
  accepted engine endpoint what (← request endpoint what fetched)

def readRefused (what : String) (response : HttpResponse) : Except JsError ReadFileOutcome := do
  let refusal ← refusalOf engine response
  if refusal.code = some "not_found" then return .notFound
  else if refusal.code = some "read_failed" then return .failed refusal.message
  else throw (failure endpoint what (error refusal.message))

def readFile (path : String) (fetched : Fetched) : Except JsError ReadFileOutcome := do
  let what := "read " ++ path
  let response ← request endpoint what fetched
  if response.ok then return .ok (← response.arrayBuffer)
  else readRefused engine endpoint what response

def readFileBounded (path : String) (maxBytes : Nat) (fetched : Fetched) : Except JsError ReadFileOutcome := do
  let what := "read " ++ path
  let response ← request endpoint what fetched
  if response.ok then
    match (do
        let body ← bodyOf response
        readAtMost maxBytes body.failure [] body.chunks : Except JsError (Option (List UInt8))) with
    | .error cause => throw (failure endpoint what cause)
    | .ok none => return .failed ("the agent sent more than the budget of " ++ toString maxBytes ++ " bytes")
    | .ok (some bytes) => return .ok bytes
  else readRefused engine endpoint what response

def listFiles (path : String) (fetched : Fetched) : Except JsError ListFilesOutcome := do
  let what := "list " ++ path
  let response ← request endpoint what fetched
  if response.ok then
    match entriesOf (← response.json engine) with
    | some entries => return .ok entries
    | none => throw (failure endpoint what (error "the agent sent a listing with no entries"))
  else
    let refusal ← refusalOf engine response
    if refusal.code = some "not_a_directory" then return .notADirectory
    else if refusal.code = some "not_found" ∨ refusal.code = some "list_failed" then return .failed refusal.message
    else throw (failure endpoint what (error refusal.message))

/-- A request whose answer holds what `read` finds in it. -/
def asked {α : Type} (what missing : String) (read : JsonValue → Option α) (fetched : Fetched) : Except JsError α := do
  let response ← request endpoint what fetched
  accepted engine endpoint what response
  match read (← response.json engine) with
  | some value => return value
  | none => throw (failure endpoint what (error missing))

def startProcess (command : List String) (fetched : Fetched) : Except JsError Number :=
  asked engine endpoint ("start " ++ programOf command) "the agent named no pid" (numberOf · "pid") fetched

def processStatus (pid : Number) (fetched : Fetched) : Except JsError ProcessStatus :=
  asked engine endpoint ("check process " ++ pid.text) "the agent sent no status" statusOf fetched

def waitForPort (port : Nat) (fetched : Fetched) : Except JsError PortWait :=
  asked engine endpoint ("wait for port " ++ toString port) "the agent sent no answer for the wait" portWaitOf fetched

def signalProcess (pid : Number) (fetched : Fetched) : Except JsError Unit := do
  let what := "signal process " ++ pid.text
  accepted engine endpoint what (← request endpoint what fetched)

def processLogs (pid : Number) (fetched : Fetched) : Except JsError String := do
  let what := "read the log of process " ++ pid.text
  let response ← request endpoint what fetched
  accepted engine endpoint what response
  response.text

/-! ## As the sandbox calls them -/

/-- What the requests of a method come to. -/
structure Transport where
  fetched : Fetched
  /-- The stream's own abort came before its reading failed. -/
  aborted : Bool := false
  /-- Of several writes, the place of the first one that fails. -/
  failedWrite : Option Nat := none

/-- The writes of one `Promise.all`. -/
def writeFiles (files : List SandboxFileWrite) (t : Transport) : Except (SandboxFileWrite × JsError) Unit :=
  match t.failedWrite.bind (files[·]?) with
  | none => .ok ()
  | some file =>
    match writeFile engine endpoint file.path t.fetched with
    | .error cause => .error (file, cause)
    | .ok () => .ok ()

def reply : (request : AgentRequest) → Transport → AgentReply request
  | .run command timeoutMs, t => run engine endpoint command timeoutMs t.fetched
  | .stream command _, t => stream engine endpoint command t.aborted t.fetched
  | .writeFiles files, t => writeFiles engine endpoint files t
  | .readFile path, t => readFile engine endpoint path t.fetched
  | .readFileBounded path maxBytes _, t => readFileBounded engine endpoint path maxBytes t.fetched
  | .listFiles path _, t => listFiles engine endpoint path t.fetched
  | .startProcess command _, t => startProcess engine endpoint command t.fetched
  | .waitForPort port _ _ _, t => waitForPort engine endpoint port t.fetched
  | .signalProcess pid _, t => signalProcess engine endpoint pid t.fetched
  | .processLogs pid, t => processLogs engine endpoint pid t.fetched

end AgentChannel

end ComputeArmada.Adapter
