import ComputeArmada.Adapter.Channel

/-!
# What is fetched from an agent

The requests of `AgentChannel`, each with the token of its endpoint.

* `HttpRequest` : what `fetch` is given;
* `AgentChannel.exec`, `AgentChannel.request` are the two ways to make one, `AgentChannel.fetched` both;
* `AgentChannel.requestsOf` : those of a method, as the sandbox calls them; `AgentChannel.Fetches` : of any.
-/

namespace ComputeArmada.Adapter
open Json.Reader

structure HttpRequest where
  /-- The URL is this with the path after it. -/
  base : String
  path : String
  method : String
  authorization : Option String
  body : Option (List UInt8)

/-- `JSON.stringify` of an object, by the texts of its members. -/
def jsonBody (members : List (String × List Char)) : List UInt8 := Utf8.encode (objectText members)

/-- `JSON.stringify` of a list of strings. -/
def stringsText (strings : List String) : List Char := arrayText (strings.map fun s => (Js.quoted s).toList)

def natText (n : Nat) : List Char := (toString n).toList

def filePath (endpoint path : String) : String := endpoint ++ "?path=" ++ Js.encodeURIComponent path

def ProbeMode.text : ProbeMode → String
  | .tcp => "tcp"
  | .http => "http"

namespace AgentChannel
variable (endpoint : AgentEndpoint)

/-- The look of `ready`, which presents no token. -/
def healthz : HttpRequest :=
  { base := endpoint.url, path := "/healthz", method := "GET", authorization := none, body := none }

def fetched (method path : String) (body : Option (List UInt8)) : HttpRequest :=
  { base := endpoint.url, path, method, authorization := some ("Bearer " ++ endpoint.token), body }

def runRequest (command : List String) (timeoutMs : Option Nat) : HttpRequest :=
  fetched endpoint "POST" "/exec" (some (jsonBody ([("cmd", stringsText command)] ++
    timeoutMs.toList.map fun timeoutMs => ("timeoutMs", natText timeoutMs))))

/-- `run` of a command that is given something to read. -/
def pipedRequest (command : List String) (stdin : Option (List UInt8)) (timeoutMs : Option Nat) : HttpRequest :=
  fetched endpoint "POST" "/exec" (some (jsonBody ([("cmd", stringsText command)] ++
    (stdin.toList.map fun stdin => ("stdin", (Js.quoted (String.ofList (Base64.encode stdin))).toList)) ++
    timeoutMs.toList.map fun timeoutMs => ("timeoutMs", natText timeoutMs))))

def streamRequest (command : List String) : HttpRequest :=
  fetched endpoint "POST" "/exec" (some (jsonBody [("cmd", stringsText command)]))

def writeFileRequest (file : SandboxFileWrite) : HttpRequest :=
  fetched endpoint "PUT" (filePath "/files" file.path) (some
    (match file.content with
    | .text s => Utf8.encode s.toList
    | .bytes bs => bs))

def readFileRequest (path : String) : HttpRequest := fetched endpoint "GET" (filePath "/files" path) none

def readFileBoundedRequest (path : String) (maxBytes timeoutMs : Nat) : HttpRequest :=
  fetched endpoint "GET" (filePath "/files/bounded" path ++ "&maxBytes=" ++ toString maxBytes ++ "&timeoutMs=" ++
    toString timeoutMs) none

def listFilesRequest (path : String) (recursive : Bool) : HttpRequest :=
  fetched endpoint "GET" (filePath "/files/list" path ++ if recursive then "&recursive=true" else "") none

def startProcessRequest (command : List String) (cwd : Option String) : HttpRequest :=
  fetched endpoint "POST" "/process/start" (some (jsonBody ([("cmd", stringsText command)] ++
    cwd.toList.map fun cwd => ("cwd", (Js.quoted cwd).toList))))

def processStatusRequest (pid : Number) : HttpRequest :=
  fetched endpoint "GET" ("/process/status?pid=" ++ pid.text) none

def signalProcessRequest (pid : Number) (signal : String) : HttpRequest :=
  fetched endpoint "POST" "/process/signal" (some
    (jsonBody [("pid", pid.text.toList), ("signal", (Js.quoted signal).toList)]))

def processLogsRequest (pid : Number) : HttpRequest := fetched endpoint "GET" ("/process/logs?pid=" ++ pid.text) none

def waitForPortRequest (port timeoutMs : Nat) (pid : Option Number) (probe : Option PortProbe) : HttpRequest :=
  fetched endpoint "POST" "/process/waitport" (some (jsonBody (
    [("port", natText port), ("timeoutMs", natText timeoutMs)] ++
    (pid.toList.map fun pid => ("pid", pid.text.toList)) ++
    ((probe.bind (·.mode)).toList.map fun mode => ("mode", (Js.quoted mode.text).toList)) ++
    ((probe.bind (·.path)).toList.map fun path => ("path", (Js.quoted path).toList)))))

/-- What a method fetches, as the sandbox calls it. -/
def requestsOf : AgentRequest → List HttpRequest
  | .run command timeoutMs => [runRequest endpoint command timeoutMs]
  | .stream command _ => [streamRequest endpoint command]
  | .writeFiles files => files.map (writeFileRequest endpoint)
  | .readFile path => [readFileRequest endpoint path]
  | .readFileBounded path maxBytes timeoutMs => [readFileBoundedRequest endpoint path maxBytes timeoutMs]
  | .listFiles path recursive => [listFilesRequest endpoint path recursive]
  | .startProcess command cwd => [startProcessRequest endpoint command cwd]
  | .waitForPort port timeoutMs pid probe => [waitForPortRequest endpoint port timeoutMs pid probe]
  | .signalProcess pid signal => [signalProcessRequest endpoint pid signal]
  | .processLogs pid => [processLogsRequest endpoint pid]

/-- A request of any method but `ready`. -/
inductive Fetches : HttpRequest → Prop
  | asked {request r} (h : r ∈ requestsOf endpoint request) : Fetches r
  | processStatus (pid : Number) : Fetches (processStatusRequest endpoint pid)

theorem Fetches.authorization {r : HttpRequest} (h : Fetches endpoint r) :
    r.authorization = some ("Bearer " ++ endpoint.token) := by
  cases h with
  | asked h =>
    rename_i request
    cases request with
    | writeFiles files =>
      obtain ⟨file, -, rfl⟩ := List.mem_map.mp h
      rfl
    | _ =>
      obtain rfl := List.mem_singleton.mp h
      rfl
  | processStatus pid => rfl

end AgentChannel

end ComputeArmada.Adapter
