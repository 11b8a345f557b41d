import ComputeArmada.Lib.Hex
import ComputeArmada.Agent.Events

/-!
# The agent's endpoints

What stands between a request and a handler of it: `net/http` and `net/url` as far as the agent uses them, the
routes of `server.go`, and the token that `main.go` is started with.

* `Request`, `Request.query`, `Response`, `writeCodedError` : as handlers see them and write them;
* `Route`, `mux`, `authenticated`, `routes` : which handler a request is for, and whether it runs;
* `main` : the hash of the token, if the agent starts;
* `routes_authorized`, `routes_refused` : a handler runs for those who present the token, and for nobody else.
-/

namespace ComputeArmada.Agent

/-- The bytes of a string of the program. -/
def bytes (s : String) : List UInt8 := Utf8.encode s.toList

theorem bytes_ofList (cs : List Char) : bytes (String.ofList cs) = Utf8.encode cs := by
  rw [bytes, String.toList_ofList]

theorem bytes_append (s s' : String) : bytes (s ++ s') = bytes s ++ bytes s' := by
  rw [bytes, String.toList_append, Utf8.encode_append]
  rfl

/-! ## Requests and responses -/

structure Request where
  method : String
  /-- `r.URL.Path`. -/
  path : String
  /-- `r.URL.RawQuery`. -/
  rawQuery : List UInt8
  /-- The values of the `Authorization` header. -/
  authorization : List (List UInt8)
  body : List UInt8

/-- `url.QueryUnescape`. -/
def queryUnescape : List UInt8 → Option (List UInt8)
  | [] => some []
  | 37 :: a :: b :: rest => do
    let x ← Hex.value a
    let y ← Hex.value b
    return UInt8.ofNat (16 * x + y) :: (← queryUnescape rest)
  | 37 :: _ => none
  | 43 :: rest => (queryUnescape rest).map (32 :: ·)
  | b :: rest => (queryUnescape rest).map (b :: ·)

/-- `strings.Cut(s, "=")`. -/
def cutValue (s : List UInt8) : List UInt8 × List UInt8 := (s.takeWhile (· ≠ 61), (s.dropWhile (· ≠ 61)).drop 1)

/-- `url.ParseQuery`: what it cannot parse is left out. -/
def parseQuery (query : List UInt8) : List (List UInt8 × List UInt8) :=
  (query.splitOn 38).filterMap fun pair =>
    if 59 ∈ pair ∨ pair = [] then none
    else do return (← queryUnescape (cutValue pair).1, ← queryUnescape (cutValue pair).2)

/-- `url.Values.Get`. -/
def valueOf (values : List (List UInt8 × List UInt8)) (key : List UInt8) : List UInt8 :=
  (values.find? (fun p => p.1 = key)).elim [] (·.2)

/-- `r.URL.Query().Get(key)`. -/
def Request.query (r : Request) (key : String) : List UInt8 := valueOf (parseQuery r.rawQuery) (bytes key)

/-- `r.Header.Get("Authorization")`. -/
def Request.authorizationHeader (r : Request) : List UInt8 := r.authorization.head?.getD []

structure Response where
  status : Nat
  body : List UInt8
  deriving DecidableEq

/-- The body of every refused request. -/
def apiError (code : String) (message : List UInt8) : List Char :=
  Json.Reader.objectText ([("error", jsonString message)] ++
    if code = "" then [] else [("code", jsonString (bytes code))])

def writeCodedError (status : Nat) (code : String) (message : List UInt8) : Response :=
  { status, body := Utf8.encode (apiError code message ++ ['\n']) }

def writeError (status : Nat) (message : List UInt8) : Response := writeCodedError status "" message

def writeJSON (text : List Char) : Response := { status := 200, body := Utf8.encode (text ++ ['\n']) }

/-! ### Queries as they are read -/

/-- A text that is read as a value wherever it stands in the value of a parameter. -/
structure Escapes (text value : List UInt8) : Prop where
  read : ∀ rest, queryUnescape (text ++ rest) = (queryUnescape rest).map (value ++ ·)
  inside : 38 ∉ text ∧ 59 ∉ text

theorem Escapes.nil : Escapes [] [] := ⟨fun rest => by simp, by simp⟩

theorem Escapes.append {text text' value value' : List UInt8} (h : Escapes text value) (h' : Escapes text' value') :
    Escapes (text ++ text') (value ++ value') := by
  refine ⟨fun rest => ?_, ?_⟩
  · rw [List.append_assoc, h.read, h'.read, Option.map_map]
    congr 1
    funext value''
    simp
  · simp only [List.mem_append, not_or]
    exact ⟨⟨h.inside.1, h'.inside.1⟩, h.inside.2, h'.inside.2⟩

theorem Escapes.flatMap {α : Type} {text value : α → List UInt8} {xs : List α}
    (h : ∀ x ∈ xs, Escapes (text x) (value x)) : Escapes (xs.flatMap text) (xs.flatMap value) := by
  induction xs with
  | nil => exact .nil
  | cons x xs ih =>
    obtain ⟨hx, hxs⟩ := List.forall_mem_cons.mp h
    exact hx.append (ih hxs)

theorem Escapes.unescape {text value : List UInt8} (h : Escapes text value) : queryUnescape text = some value := by
  have hread := h.read []
  rwa [List.append_nil, queryUnescape, Option.map_some, List.append_nil] at hread

/-- A byte that has no meaning of its own. -/
theorem escapes_plain {b : UInt8} (h : b ≠ 37 ∧ b ≠ 43 ∧ b ≠ 38 ∧ b ≠ 59) : Escapes [b] [b] := by
  refine ⟨fun rest => ?_, by simpa using ⟨h.2.2.1.symm, h.2.2.2.symm⟩⟩
  rw [List.singleton_append, queryUnescape]
  · rfl
  all_goals
    intros
    simp_all

theorem escapes_byte {a b : UInt8} {x y : Nat} (ha : Hex.value a = some x) (hb : Hex.value b = some y) :
    Escapes [37, a, b] [UInt8.ofNat (16 * x + y)] := by
  have hamp : Hex.value 38 = none := by decide
  have hsemi : Hex.value 59 = none := by decide
  refine ⟨fun rest => ?_, ?_⟩
  · rw [List.cons_append, List.cons_append, List.singleton_append, queryUnescape, ha, hb]
    cases queryUnescape rest <;> rfl
  · simp only [List.mem_cons, List.not_mem_nil, or_false, not_or]
    refine ⟨⟨by decide, ?_, ?_⟩, by decide, ?_, ?_⟩ <;> rintro rfl <;> simp_all

section
variable {key text value : List UInt8}

theorem cutValue_eq (hplain : 61 ∉ key) (text : List UInt8) : cutValue (key ++ 61 :: text) = (key, text) := by
  have hbytes : ∀ b ∈ key, decide (b ≠ 61) = true := fun b hb => decide_eq_true (ne_of_mem_of_not_mem hb hplain)
  have htake : (key ++ 61 :: text).takeWhile (· ≠ 61) = key := by
    rw [List.takeWhile_append_of_pos hbytes]
    simp
  have hdrop : (key ++ 61 :: text).dropWhile (· ≠ 61) = 61 :: text := by
    rw [List.dropWhile_append_of_pos hbytes]
    simp
  rw [cutValue, htake, hdrop]
  rfl

theorem parse_pair (hkey : Escapes key key) (hplain : 61 ∉ key) (h : Escapes text value) :
    (if 59 ∈ key ++ 61 :: text ∨ key ++ 61 :: text = [] then none
      else do return (← queryUnescape (cutValue (key ++ 61 :: text)).1,
        ← queryUnescape (cutValue (key ++ 61 :: text)).2)) = some (key, value) := by
  have hwhole : ¬ (59 ∈ key ++ 61 :: text ∨ key ++ 61 :: text = []) := by
    simp [hkey.inside.2, h.inside.2]
  rw [if_neg hwhole, cutValue_eq hplain, hkey.unescape, h.unescape]
  rfl

theorem notMem_pair (hkey : Escapes key key) (h : Escapes text value) : 38 ∉ key ++ 61 :: text := by
  simp [hkey.inside.1, h.inside.1]

theorem parseQuery_cons (hkey : Escapes key key) (hplain : 61 ∉ key) (h : Escapes text value) (rest : List UInt8) :
    parseQuery (key ++ 61 :: (text ++ 38 :: rest)) = (key, value) :: parseQuery rest := by
  rw [parseQuery, ← List.cons_append, ← List.append_assoc,
    List.splitOn_append_cons_self_of_not_mem (notMem_pair hkey h), List.filterMap_cons, parse_pair hkey hplain h]
  rfl

theorem parseQuery_single (hkey : Escapes key key) (hplain : 61 ∉ key) (h : Escapes text value) :
    parseQuery (key ++ 61 :: text) = [(key, value)] := by
  rw [parseQuery, List.splitOn_eq_singleton (notMem_pair hkey h), List.filterMap_cons, parse_pair hkey hplain h]
  rfl

end

/-! ## Routes -/

inductive Route
  | healthz | exec | startProcess | processStatus | processLogs | signalProcess | waitPort | writeFile | readFile
  | readFileBounded | listFiles
  deriving DecidableEq

/-- The method and the path it is registered with. -/
def Route.pattern : Route → String × String
  | .healthz => ("GET", "/healthz")
  | .exec => ("POST", "/exec")
  | .startProcess => ("POST", "/process/start")
  | .processStatus => ("GET", "/process/status")
  | .processLogs => ("GET", "/process/logs")
  | .signalProcess => ("POST", "/process/signal")
  | .waitPort => ("POST", "/process/waitport")
  | .writeFile => ("PUT", "/files")
  | .readFile => ("GET", "/files")
  | .readFileBounded => ("GET", "/files/bounded")
  | .listFiles => ("GET", "/files/list")

def Route.all : List Route :=
  [.healthz, .exec, .startProcess, .processStatus, .processLogs, .signalProcess, .waitPort, .writeFile, .readFile,
   .readFileBounded, .listFiles]

/-- The route of a request; a `GET` of one takes a `HEAD` too. -/
def mux (method path : String) : Option Route :=
  Route.all.find? fun route =>
    (route.pattern.1 = method ∨ route.pattern.1 = "GET" ∧ method = "HEAD") ∧ route.pattern.2 = path

/-- What becomes of a request: a handler runs, or it is refused. -/
inductive Served
  | handler (route : Route)
  | refused (response : Response)
  deriving DecidableEq

/-- What the agent does with a request, whatever its handlers do to processes, files and the agent's state. -/
def Served.run {σ : Type} (handlers : Route → Request → σ → Response × σ) (r : Request) (s : σ) :
    Served → Response × σ
  | .handler route => handlers route r s
  | .refused response => (response, s)

section
variable (sha256 : List UInt8 → List UInt8) (tokenHash : List UInt8)

def tokenMatches (presented hash : List UInt8) : Bool := presented = hash

def authenticated (next : Served) (r : Request) : Served :=
  match r.authorizationHeader.dropPrefix? (bytes "Bearer ") with
  | none => .refused (writeError 401 (bytes "missing bearer token"))
  | some token =>
    if tokenMatches (sha256 token) tokenHash then next
    else .refused (writeError 401 (bytes "wrong token"))

/-- `none` where no route is the request's, which the mux answers by itself. -/
def routes (r : Request) : Option Served :=
  (mux r.method r.path).map fun
    | .healthz => .handler .healthz
    | route => authenticated sha256 tokenHash (.handler route) r

/-! ## Who a handler runs for -/

/-- The request presents a token of this hash. -/
def Authorized (r : Request) : Prop :=
  ∃ token, r.authorizationHeader = bytes "Bearer " ++ token ∧ sha256 token = tokenHash

variable {sha256 tokenHash} {r : Request} {route : Route}

theorem authorized_iff {token : List UInt8} (h : r.authorizationHeader.dropPrefix? (bytes "Bearer ") = some token) :
    Authorized sha256 tokenHash r ↔ sha256 token = tokenHash := by
  obtain ⟨scheme, hheader, hscheme⟩ := List.dropPrefix?_eq_some_iff.mp h
  obtain rfl := eq_of_beq hscheme
  constructor
  · rintro ⟨token', htoken', hhash⟩
    rw [hheader] at htoken'
    rw [List.append_cancel_left htoken']
    exact hhash
  · exact fun hhash => ⟨token, hheader, hhash⟩

theorem not_authorized (h : r.authorizationHeader.dropPrefix? (bytes "Bearer ") = none) :
    ¬ Authorized sha256 tokenHash r := by
  rintro ⟨token, hheader, -⟩
  have hsome : r.authorizationHeader.dropPrefix? (bytes "Bearer ") = some token :=
    List.dropPrefix?_eq_some_iff.mpr ⟨_, hheader, BEq.rfl⟩
  cases h.symm.trans hsome

theorem authenticated_cases (next : Served) (r : Request) :
    Authorized sha256 tokenHash r ∧ authenticated sha256 tokenHash next r = next ∨
    ¬ Authorized sha256 tokenHash r ∧
      ∃ message, authenticated sha256 tokenHash next r = .refused (writeError 401 message) := by
  unfold authenticated
  split
  · rename_i hnone
    exact .inr ⟨not_authorized hnone, _, rfl⟩
  · rename_i token hsome
    rw [authorized_iff hsome]
    by_cases hhash : sha256 token = tokenHash
    · exact .inl ⟨hhash, if_pos (by simp [tokenMatches, hhash])⟩
    · exact .inr ⟨hhash, _, if_neg (by simp [tokenMatches, hhash])⟩

theorem routes_eq (h : mux r.method r.path = some route) (hroute : route ≠ .healthz) :
    routes sha256 tokenHash r = some (authenticated sha256 tokenHash (.handler route) r) := by
  rw [routes, h, Option.map_some]
  split
  · exact absurd rfl hroute
  · rfl

/-- A handler runs for those who present the token, and for nobody else. -/
theorem routes_authorized (h : mux r.method r.path = some route) (hroute : route ≠ .healthz) :
    routes sha256 tokenHash r = some (.handler route) ↔ Authorized sha256 tokenHash r := by
  rw [routes_eq h hroute]
  rcases authenticated_cases (.handler route) r with ⟨hauth, heq⟩ | ⟨hauth, message, heq⟩
  · rw [heq]
    exact iff_of_true rfl hauth
  · rw [heq]
    exact iff_of_false (fun h => nomatch h) hauth

/-- Everybody else is told so, and that is all that happens. -/
theorem routes_refused (h : mux r.method r.path = some route) (hroute : route ≠ .healthz)
    (hauth : ¬ Authorized sha256 tokenHash r) :
    ∃ message, routes sha256 tokenHash r = some (.refused (writeError 401 message)) := by
  rw [routes_eq h hroute]
  rcases authenticated_cases (.handler route) r with ⟨hauth', -⟩ | ⟨-, message, heq⟩
  · exact absurd hauth' hauth
  · exact ⟨message, congrArg some heq⟩

end

/-! ## The token -/

/-- The hash the agent is started with, in the environment variable of that name; `none` where it does not
start. -/
def main (env : List UInt8) : Option (List UInt8) :=
  match Hex.decode env with
  | some hash => if hash.length = 32 then some hash else none
  | none => none

end ComputeArmada.Agent
