import ComputeArmada.Lib.Run
import ComputeArmada.Wire.Exec
import ComputeArmada.Wire.ReadBack

/-!
# Writing many files

`writeFiles` with each of its requests, eight at a time, while the agent serves them in any order, the network loses
some, and what was answered is told in any order.

* `makeDirs`, `writeBody` : the two steps of `PUT /files`, between which others are served;
* `Put`, `World`, `step` : one request, all of them, and what happens next;
* `World.Inv` : the batches, what their answers come to, and where the bytes are; `inv_step` : one step of it;
* `outcome_gives` : what comes of it is what `writeBatches` comes to;
* `sends_once` : every file is sent once, in its batch, and is where its path leads when `writeFiles` resolves.
-/

namespace ComputeArmada.Wire
open Adapter Agent FileTree Async

namespace Writes
open Runs

/-! ## The agent's side -/

/-- `PUT /files` up to the directories above the path. -/
def makeDirs (t : FileTree) (cwd : Loc) (r : Agent.Request) : FileTree × Except Agent.Response Paths.Path :=
  match pathParam r with
  | .error refused => (t, .error refused)
  | .ok path =>
    if maxRequestBytes < r.body.length then
      (t, .error (writeCodedError 400 "write_failed" (bytes "http: request body too large")))
    else
      match if filepathDir path = Paths.dot then (t, .ok ()) else osMkdirAll cwd t (filepathDir path) with
      | (t, .error e) => (t, .error (writeCodedError 500 "write_failed" e.text))
      | (t, .ok ()) => (t, .ok path)

/-- And from there on. -/
def writeBody (t : FileTree) (cwd : Loc) (path : Paths.Path) (body : List UInt8) : Agent.Response × FileTree :=
  match osWriteFile t cwd path body with
  | .error e => (writeCodedError 500 "write_failed" e.text, t)
  | .ok t => (writeJSON (Json.Reader.objectText []), t)

theorem writeFile_eq (t : FileTree) (cwd : Loc) (r : Agent.Request) :
    Agent.writeFile t cwd r = match makeDirs t cwd r with
      | (t, .error refused) => (refused, t)
      | (t, .ok path) => writeBody t cwd path r.body := by
  unfold Agent.writeFile makeDirs writeBody
  cases pathParam r with
  | error refused => rfl
  | ok path =>
    dsimp only
    split
    · rfl
    · generalize (if filepathDir path = Paths.dot then ((t, .ok ()) : FileTree × Except PathError Unit)
        else osMkdirAll cwd t (filepathDir path)) = dirs
      obtain ⟨t, e | ⟨⟩⟩ := dirs
      · rfl
      · rfl

section
variable {t t' : FileTree} {cwd : Loc} {r : Agent.Request} {path : Paths.Path} {body : List UInt8}

theorem makeDirs_grows (t : FileTree) (cwd : Loc) (r : Agent.Request) : Grows t (makeDirs t cwd r).1 := by
  have hself : Grows t t := fun _ _ h => h
  unfold makeDirs
  split
  · exact hself
  · rename_i path _
    split
    · exact hself
    · have hgrows : Grows t (if filepathDir path = Paths.dot then ((t, .ok ()) : FileTree × Except PathError Unit)
          else osMkdirAll cwd t (filepathDir path)).1 := by
        split
        · exact hself
        · exact osMkdirAll_grows cwd t _
      split
      · rename_i heq
        rwa [heq] at hgrows
      · rename_i heq
        rwa [heq] at hgrows

theorem makeDirs_path (h : (makeDirs t cwd r).2 = .ok path) : path = r.query "path" := by
  unfold makeDirs at h
  split at h
  · cases h
  · rename_i path' hpath
    split at h
    · cases h
    · split at h
      · cases h
      · cases h
        exact pathParam_ok hpath

theorem status_makeDirs {refused : Agent.Response} (h : (makeDirs t cwd r).2 = .error refused) :
    299 < refused.status := by
  unfold makeDirs at h
  split at h
  · rename_i hpath
    cases h
    unfold pathParam at hpath
    split at hpath
    · cases hpath
      simp [writeError, writeCodedError]
    · cases hpath
  · split at h
    · cases h
      simp [writeCodedError]
    · split at h
      · cases h
        simp [writeCodedError]
      · cases h

/-- A body that is written, or a tree that is left as it was. -/
theorem writeBody_cases (t : FileTree) (cwd : Loc) (path : Paths.Path) (body : List UInt8) :
    ((writeBody t cwd path body).1.status = 200 ∧ ∃ loc, Written t (writeBody t cwd path body).2 cwd path body loc) ∨
    299 < (writeBody t cwd path body).1.status ∧ (writeBody t cwd path body).2 = t := by
  unfold writeBody
  split
  · exact .inr ⟨by simp [writeCodedError], rfl⟩
  · exact .inl ⟨rfl, osWriteFile_ok ‹_›⟩

end

/-! ## The requests -/

/-- One `PUT /files`, as the agent and as the sandbox know it. -/
structure Put where
  file : SandboxFileWrite
  /-- The path, once the directories above it are there. -/
  made : Option Paths.Path
  response : Option Agent.Response
  /-- What `write` of the file has come to. -/
  result : Option (Except JsError Unit)

def Put.new (file : SandboxFileWrite) : Put := { file, made := none, response := none, result := none }

def Put.acknowledged (put : Put) : Prop := put.result = some (.ok ())

instance (put : Put) : Decidable put.acknowledged :=
  match h : put.result with
  | some (.ok ()) => .isTrue h
  | some (.error _) => .isFalse fun h' => nomatch h.symm.trans h'
  | none => .isFalse fun h' => nomatch h.symm.trans h'

/-- What `fetch` may come to: the network fails at any time, and else gives the answer that the agent has made. -/
def Put.Comes (put : Put) : Fetched → Prop
  | .failed _ => True
  | .answered response => put.response.map (·.status) = some response.status

instance (put : Put) (fetched : Fetched) : Decidable (put.Comes fetched) := by
  unfold Put.Comes
  split <;> infer_instance

structure World where
  /-- What `open()` has resolved with. -/
  channel : Option ControlChannel
  puts : List Put
  /-- What `writeFiles` has come to. -/
  outcome : Option (Except JsError Unit)
  tree : FileTree

def World.init (files : List SandboxFileWrite) (tree : FileTree) : World :=
  { channel := none, puts := [], outcome := if files = [] then some (.ok ()) else none, tree }

inductive Action
  /-- `open()` settles. -/
  | opened (r : Except JsError ControlChannel)
  /-- `Promise.all` has resolved, or there was none yet. -/
  | next
  | makeDirs (i : Nat)
  | write (i : Nat)
  | settle (i : Nat) (fetched : Fetched)

def writingFailed (file : SandboxFileWrite) (cause : JsError) : JsError :=
  error ("Writing " ++ file.path ++ " failed: " ++ cause.message)

section
variable (engine : Engine) (cwd : Loc) (files : List SandboxFileWrite)

def step (w : World) : Action → Option World
  | .opened r =>
    match w.channel, w.outcome, r with
    | none, none, .ok channel => some { w with channel := some channel }
    | none, none, .error cause => some { w with outcome := some (.error cause) }
    | _, _, _ => none
  | .next =>
    match w.channel, w.outcome with
    | some _, none =>
      if ∀ put ∈ w.puts, put.acknowledged then
        if w.puts.length < files.length then
          some { w with puts := w.puts ++ ((files.drop w.puts.length).take writeConcurrency).map Put.new }
        else some { w with outcome := some (.ok ()) }
      else none
    | _, _ => none
  | .makeDirs i => do
    let channel ← w.channel
    let put ← w.puts[i]?
    match put.made, put.response with
    | none, none =>
      let (tree, dirs) := makeDirs w.tree cwd (received (AgentChannel.writeFileRequest channel put.file))
      let put := match dirs with
        | .error refused => { put with response := some refused }
        | .ok path => { put with made := some path }
      return { w with tree, puts := w.puts.set i put }
    | _, _ => none
  | .write i => do
    let channel ← w.channel
    let put ← w.puts[i]?
    match put.made, put.response with
    | some path, none =>
      let (response, tree) :=
        writeBody w.tree cwd path (received (AgentChannel.writeFileRequest channel put.file)).body
      return { w with tree, puts := w.puts.set i { put with response := some response } }
    | _, _ => none
  | .settle i fetched => do
    let channel ← w.channel
    let put ← w.puts[i]?
    if put.result = none ∧ put.Comes fetched then
      let result := AgentChannel.writeFile engine channel put.file.path fetched
      -- the first write of a `Promise.all` to reject rejects it
      let outcome := match w.outcome, result with
        | none, .error cause => some (.error (writingFailed put.file cause))
        | outcome, _ => outcome
      return { w with outcome, puts := w.puts.set i { put with result := some result } }
    else none

end

/-! ## What a step can do -/

/-- A request that was served with success. -/
def Put.Served (put : Put) : Prop := ∃ response, put.response = some response ∧ response.status = 200

/-- What the agent does of a request: the file is there, or nothing was taken away. -/
structure Serves (cwd : Loc) (t : FileTree) (put : Put) (t' : FileTree) (put' : Put) : Prop where
  file : put'.file = put.file
  result : put'.result = put.result
  waited : put.response = none
  made : ∀ path, put'.made = some path → put.made = some path ∨ path = bytes put.file.path
  status : ∀ response, put'.response = some response → response.status = 200 ∨ 299 < response.status
  served : (¬ put'.Served ∧ Grows t t') ∨
    ∃ path loc, put.made = some path ∧ Written t t' cwd path (contentBytes put.file.content) loc

variable {engine : Engine} {cwd : Loc} {files : List SandboxFileWrite} {w w' : World} {a : Action}

inductive Happens (engine : Engine) (cwd : Loc) (files : List SandboxFileWrite) (w : World) : World → Prop
  | opens (channel : ControlChannel) (hchannel : w.channel = none) (houtcome : w.outcome = none) :
      Happens engine cwd files w { w with channel := some channel }
  | refused (cause : JsError) (hchannel : w.channel = none) (houtcome : w.outcome = none) :
      Happens engine cwd files w { w with outcome := some (.error cause) }
  | sends (hchannel : w.channel ≠ none) (houtcome : w.outcome = none) (hall : ∀ put ∈ w.puts, put.acknowledged)
      (hmore : w.puts.length < files.length) : Happens engine cwd files w
        { w with puts := w.puts ++ ((files.drop w.puts.length).take writeConcurrency).map Put.new }
  | resolves (hchannel : w.channel ≠ none) (houtcome : w.outcome = none) (hall : ∀ put ∈ w.puts, put.acknowledged)
      (hdone : files.length ≤ w.puts.length) : Happens engine cwd files w { w with outcome := some (.ok ()) }
  | serves {i : Nat} {put put' : Put} {tree : FileTree} (hput : w.puts[i]? = some put)
      (h : Serves cwd w.tree put tree put') : Happens engine cwd files w { w with tree, puts := w.puts.set i put' }
  | settles {i : Nat} {put : Put} {channel : ControlChannel} {fetched : Fetched} (hput : w.puts[i]? = some put)
      (hresult : put.result = none) (hcomes : put.Comes fetched) : Happens engine cwd files w
        { w with
          outcome := match w.outcome, AgentChannel.writeFile engine channel put.file.path fetched with
            | none, .error cause => some (.error (writingFailed put.file cause))
            | outcome, _ => outcome
          puts := w.puts.set i
            { put with result := some (AgentChannel.writeFile engine channel put.file.path fetched) } }

theorem happens (h : step engine cwd files w a = some w') : Happens engine cwd files w w' := by
  cases a with
  | opened r =>
    dsimp only [step] at h
    split at h
    · cases h
      exact .opens _ ‹_› ‹_›
    · cases h
      exact .refused _ ‹_› ‹_›
    · cases h
  | next =>
    dsimp only [step] at h
    split at h
    · rename_i hchannel houtcome
      split at h
      · split at h
        · cases h
          exact .sends (by simp [hchannel]) houtcome ‹_› ‹_›
        · cases h
          exact .resolves (by simp [hchannel]) houtcome ‹_› (by omega)
      · cases h
    · cases h
  | makeDirs i =>
    obtain ⟨channel, hchannel, h⟩ := Option.bind_eq_some_iff.mp h
    obtain ⟨put, hput, h⟩ := Option.bind_eq_some_iff.mp h
    dsimp only at h
    split at h
    · rename_i hmade hresponse
      cases h
      refine .serves hput ?_
      have hgrows := makeDirs_grows w.tree cwd (received (AgentChannel.writeFileRequest channel put.file))
      have hquery : (received (AgentChannel.writeFileRequest channel put.file)).query "path" = bytes put.file.path :=
        query_files rfl
      cases hdirs : (makeDirs w.tree cwd (received (AgentChannel.writeFileRequest channel put.file))).2 with
      | error refused =>
        have hrefused := status_makeDirs hdirs
        refine ⟨rfl, rfl, hresponse, fun path h => .inl h, fun response heq => ?_, .inl ⟨?_, hgrows⟩⟩
        · cases heq
          exact .inr hrefused
        · rintro ⟨response, heq, hstatus⟩
          cases heq
          omega
      | ok path =>
        refine ⟨rfl, rfl, hresponse, fun path' h => .inr ?_, fun response heq => ?_, .inl ⟨?_, hgrows⟩⟩
        · cases h
          exact (makeDirs_path hdirs).trans hquery
        · rw [hresponse] at heq
          cases heq
        · rintro ⟨response, heq, hstatus⟩
          rw [hresponse] at heq
          cases heq
    · cases h
  | write i =>
    obtain ⟨channel, hchannel, h⟩ := Option.bind_eq_some_iff.mp h
    obtain ⟨put, hput, h⟩ := Option.bind_eq_some_iff.mp h
    dsimp only at h
    split at h
    · rename_i path hmade hresponse
      cases h
      refine .serves hput ?_
      rw [body_writeFile]
      have hcases := writeBody_cases w.tree cwd path (contentBytes put.file.content)
      refine ⟨rfl, rfl, hresponse, fun path h => .inl h, fun response heq => ?_, ?_⟩
      · cases heq
        exact hcases.imp And.left And.left
      rcases hcases with ⟨-, loc, hwritten⟩ | ⟨hstatus, hsame⟩
      · exact .inr ⟨path, loc, hmade, hwritten⟩
      · rw [hsame]
        refine .inl ⟨?_, fun _ _ h => h⟩
        rintro ⟨response, heq, h200⟩
        cases heq
        omega
    · cases h
  | settle i fetched =>
    obtain ⟨channel, hchannel, h⟩ := Option.bind_eq_some_iff.mp h
    obtain ⟨put, hput, h⟩ := Option.bind_eq_some_iff.mp h
    dsimp only at h
    split at h
    · rename_i hready
      cases h
      exact .settles hput hready.1 hready.2
    · cases h

/-! ## What is kept -/

/-- The file of a request is written, and holds its bytes or those of another one that leads to it. -/
def Holds (w : World) (cwd : Loc) (i : Nat) (put : Put) : Prop :=
  ∃ loc access content, w.tree.resolve true cwd (bytes put.file.path) = .ok loc ∧
    w.tree.get loc = some (.file access content) ∧ (content = contentBytes put.file.content ∨
      ∃ j other, j ≠ i ∧ w.puts[j]? = some other ∧ w.tree.resolve true cwd (bytes other.file.path) = .ok loc)

/-- What is known of `writeFiles`, by what it has come to. -/
def Told (files : List SandboxFileWrite) (w : World) : Prop :=
  match w.outcome with
  | none => ∀ put ∈ w.puts, ∀ cause, put.result ≠ some (.error cause)
  | some (.ok ()) => w.puts.length = files.length ∧ ∀ put ∈ w.puts, put.acknowledged
  | some (.error e) => w.channel = none ∨
      ∃ (i : Nat) (put : Put) (cause : JsError), w.puts[i]? = some put ∧ put.result = some (.error cause) ∧
        e = writingFailed put.file cause

structure World.Inv (cwd : Loc) (files : List SandboxFileWrite) (w : World) : Prop where
  empty : files = [] → w.outcome = some (.ok ())
  opened : w.channel = none → w.puts = []
  sent : w.puts.map (·.file) = files.take w.puts.length
  whole : w.puts.length < files.length → writeConcurrency ∣ w.puts.length
  earlier : ∀ i j, i / writeConcurrency < j / writeConcurrency → j < w.puts.length →
    ∃ put, w.puts[i]? = some put ∧ put.acknowledged
  made : ∀ put ∈ w.puts, ∀ path, put.made = some path → path = bytes put.file.path
  status : ∀ put ∈ w.puts, ∀ response, put.response = some response → response.status = 200 ∨ 299 < response.status
  served : ∀ put ∈ w.puts, put.acknowledged → put.Served
  told : Told files w
  holds : ∀ i put, w.puts[i]? = some put → put.Served → Holds w cwd i put

theorem inv_init (cwd : Loc) (files : List SandboxFileWrite) (tree : FileTree) :
    (World.init files tree).Inv cwd files where
  empty hfiles := if_pos hfiles
  opened _ := rfl
  sent := rfl
  whole _ := Dvd.intro 0 rfl
  earlier _ _ _ h := nomatch h
  made _ h := nomatch h
  status _ h := nomatch h
  served _ h := nomatch h
  told := by
    unfold Told World.init
    by_cases hfiles : files = []
    · rw [if_pos hfiles, hfiles]
      exact ⟨rfl, fun _ h => nomatch h⟩
    · rw [if_neg hfiles]
      exact fun _ h => nomatch h
  holds _ _ h := nomatch h

section
variable {i : Nat} {put put' : Put}

theorem getElem?_set_some {puts : List Put} (hput : puts[i]? = some put) (j : Nat) :
    (puts.set i put')[j]? = if j = i then some put' else puts[j]? := by
  by_cases hij : j = i
  · subst hij
    rw [if_pos rfl, List.getElem?_set_self (List.getElem?_eq_some_iff.mp hput).1]
  · rw [if_neg hij, List.getElem?_set_ne (Ne.symm hij)]

theorem map_file_set {puts : List Put} (hput : puts[i]? = some put) (hfile : put'.file = put.file) :
    (puts.set i put').map (·.file) = puts.map (·.file) := by
  refine List.ext_getElem? fun j => ?_
  rw [List.getElem?_map, List.getElem?_map, getElem?_set_some hput]
  split
  · rename_i hij
    rw [hij, hput, Option.map_some, Option.map_some, hfile]
  · rfl

end

section
variable {i : Nat} {put put' : Put}

theorem Holds.more {puts : List Put} {tree : FileTree} (h : Holds w cwd i put) (htree : w.tree.Extends tree)
    (hsame : ∀ loc access content, w.tree.resolve true cwd (bytes put.file.path) = .ok loc →
      w.tree.get loc = some (.file access content) → tree.get loc = some (.file access content))
    (hputs : ∀ (j : Nat) other, w.puts[j]? = some other → ∃ other', puts[j]? = some other' ∧ other'.file = other.file) :
    Holds { w with puts, tree } cwd i put := by
  obtain ⟨loc, access, content, hloc, hfile, hcontent⟩ := h
  have hon : ∀ {path}, w.tree.resolve true cwd path = .ok loc → tree.resolve true cwd path = .ok loc := fun h =>
    leads_on htree h hfile
  refine ⟨loc, access, content, hon hloc, hsame loc access content hloc hfile, hcontent.imp_right ?_⟩
  rintro ⟨j, other, hne, hother, hleads⟩
  obtain ⟨other', hother', hfile'⟩ := hputs j other hother
  exact ⟨j, other', hne, hother', by rw [hfile']; exact hon hleads⟩

theorem inv_sends (hw : w.Inv cwd files) (hchannel : w.channel ≠ none) (houtcome : w.outcome = none)
    (hall : ∀ put ∈ w.puts, put.acknowledged) (hmore : w.puts.length < files.length) :
    World.Inv cwd files
      { w with puts := w.puts ++ ((files.drop w.puts.length).take writeConcurrency).map Put.new } := by
  have hlength : (w.puts ++ ((files.drop w.puts.length).take writeConcurrency).map Put.new).length =
      w.puts.length + min writeConcurrency (files.length - w.puts.length) := by
    rw [List.length_append, List.length_map, List.length_take, List.length_drop]
  have hwhole := hw.whole hmore
  have hnew : ∀ put ∈ ((files.drop w.puts.length).take writeConcurrency).map Put.new,
      put.made = none ∧ put.response = none ∧ put.result = none := by
    intro put hput
    obtain ⟨file, -, rfl⟩ := List.mem_map.mp hput
    exact ⟨rfl, rfl, rfl⟩
  refine ⟨hw.empty, fun h => absurd h hchannel, ?_, ?_, ?_, ?_, ?_, ?_, ?_, ?_⟩
  · have hfiles : (((files.drop w.puts.length).take writeConcurrency).map Put.new).map (·.file) =
        (files.drop w.puts.length).take writeConcurrency := by
      rw [List.map_map]
      exact List.map_id _
    dsimp only
    rw [List.map_append, hfiles, hw.sent, hlength, List.take_add, List.take_eq_take_min (i := writeConcurrency),
      List.length_drop]
  · intro hless
    dsimp only at hless ⊢
    rw [hlength] at hless ⊢
    have hfull : min writeConcurrency (files.length - w.puts.length) = writeConcurrency := by omega
    rw [hfull]
    exact Nat.dvd_add hwhole (dvd_refl _)
  · intro i j hij hj
    dsimp only at hj ⊢
    rw [hlength] at hj
    obtain ⟨m, hm⟩ := hwhole
    have hi : i < w.puts.length := by
      unfold writeConcurrency at hij hm hj
      omega
    rw [List.getElem?_append_left hi]
    exact ⟨w.puts[i], List.getElem?_eq_getElem hi, hall _ (List.getElem_mem hi)⟩
  · intro put hput path hmade
    rcases List.mem_append.mp hput with hput | hput
    · exact hw.made put hput path hmade
    · rw [(hnew put hput).1] at hmade
      cases hmade
  · intro put hput response hresponse
    rcases List.mem_append.mp hput with hput | hput
    · exact hw.status put hput response hresponse
    · rw [(hnew put hput).2.1] at hresponse
      cases hresponse
  · intro put hput hack
    rcases List.mem_append.mp hput with hput | hput
    · exact hw.served put hput hack
    · exact nomatch (hnew put hput).2.2.symm.trans hack
  · have htold := hw.told
    unfold Told at htold ⊢
    rw [houtcome] at htold ⊢
    intro put hput cause hresult
    rcases List.mem_append.mp hput with hput | hput
    · exact htold put hput cause hresult
    · rw [(hnew put hput).2.2] at hresult
      cases hresult
  · intro i put hput hserved
    dsimp only at hput
    by_cases hi : i < w.puts.length
    · rw [List.getElem?_append_left hi] at hput
      refine (hw.holds i put hput hserved).more (.refl _) (fun _ _ _ _ h => h) fun j other hother => ?_
      exact ⟨other, by rw [List.getElem?_append_left (List.getElem?_eq_some_iff.mp hother).1, hother], rfl⟩
    · rw [List.getElem?_append_right (by omega)] at hput
      obtain ⟨response, hresponse, -⟩ := hserved
      rw [(hnew put (List.mem_of_getElem? hput)).2.1] at hresponse
      cases hresponse

/-- The fields that a step at one request leaves as they are. -/
theorem inv_set {tree : FileTree} {outcome : Option (Except JsError Unit)} (hw : w.Inv cwd files)
    (hput : w.puts[i]? = some put) (hfile : put'.file = put.file) (hack : put.acknowledged → put'.acknowledged)
    (hmade : ∀ path, put'.made = some path → put.made = some path ∨ path = bytes put.file.path)
    (hstatus : ∀ response, put'.response = some response → response.status = 200 ∨ 299 < response.status)
    (hserved : put'.acknowledged → put'.Served) (hempty : files = [] → outcome = some (.ok ()))
    (htold : Told files { w with outcome, puts := w.puts.set i put', tree })
    (hholds : ∀ (j : Nat) other, (w.puts.set i put')[j]? = some other → other.Served →
      Holds { w with outcome, puts := w.puts.set i put', tree } cwd j other) :
    World.Inv cwd files { w with outcome, puts := w.puts.set i put', tree } := by
  have hmem : put ∈ w.puts := List.mem_of_getElem? hput
  refine ⟨hempty, fun h => ?_, ?_, ?_, ?_, ?_, ?_, ?_, htold, hholds⟩
  · have hnil := hw.opened h
    rw [hnil] at hmem
    cases hmem
  · dsimp only
    rw [map_file_set hput hfile, List.length_set]
    exact hw.sent
  · dsimp only
    rw [List.length_set]
    exact hw.whole
  · intro j k hjk hk
    dsimp only at hk ⊢
    rw [List.length_set] at hk
    obtain ⟨other, hother, hothers⟩ := hw.earlier j k hjk hk
    rw [getElem?_set_some hput]
    split
    · rename_i hij
      subst hij
      obtain rfl : put = other := Option.some.inj (hput.symm.trans hother)
      exact ⟨put', rfl, hack hothers⟩
    · exact ⟨other, hother, hothers⟩
  · intro other hother path hpath
    rcases List.mem_or_eq_of_mem_set hother with hother | rfl
    · exact hw.made other hother path hpath
    · rw [hfile]
      exact (hmade path hpath).elim (hw.made put hmem path) id
  · intro other hother
    rcases List.mem_or_eq_of_mem_set hother with hother | rfl
    · exact hw.status other hother
    · exact hstatus
  · intro other hother
    rcases List.mem_or_eq_of_mem_set hother with hother | rfl
    · exact hw.served other hother
    · exact hserved

theorem inv_serves {tree : FileTree} (hw : w.Inv cwd files) (hput : w.puts[i]? = some put)
    (h : Serves cwd w.tree put tree put') : World.Inv cwd files { w with tree, puts := w.puts.set i put' } := by
  have hmem : put ∈ w.puts := List.mem_of_getElem? hput
  have hkept : ∀ (j : Nat) other, w.puts[j]? = some other →
      ∃ other', (w.puts.set i put')[j]? = some other' ∧ other'.file = other.file ∧ other'.result = other.result := by
    intro j other hother
    rw [getElem?_set_some hput]
    split
    · rename_i hij
      subst hij
      obtain rfl : put = other := Option.some.inj (hput.symm.trans hother)
      exact ⟨put', rfl, h.file, h.result⟩
    · exact ⟨other, hother, rfl, rfl⟩
  refine inv_set hw hput h.file (fun hack => ?_) h.made h.status (fun hack => ?_) hw.empty ?_ ?_
  · exact h.result.trans hack
  · obtain ⟨response, hresponse, -⟩ := hw.served put hmem (h.result.symm.trans hack)
    rw [h.waited] at hresponse
    cases hresponse
  · have htold := hw.told
    unfold Told at htold ⊢
    dsimp only
    split at htold
    · intro other hother cause
      rcases List.mem_or_eq_of_mem_set hother with hother | rfl
      · exact htold other hother cause
      · rw [h.result]
        exact htold put hmem cause
    · refine ⟨(List.length_set ..).trans htold.1, fun other hother => ?_⟩
      rcases List.mem_or_eq_of_mem_set hother with hother | rfl
      · exact htold.2 other hother
      · exact h.result.trans (htold.2 put hmem)
    · refine htold.imp_right ?_
      rintro ⟨j, other, cause, hother, hresult, rfl⟩
      obtain ⟨other', hother', hfile, hsame⟩ := hkept j other hother
      exact ⟨j, other', cause, hother', hsame.trans hresult, by rw [hfile]⟩
  · intro j other hother hserved
    have hfiles : ∀ (j : Nat) other, w.puts[j]? = some other →
        ∃ other', (w.puts.set i put')[j]? = some other' ∧ other'.file = other.file := fun j other hother =>
      (hkept j other hother).imp fun _ h => ⟨h.1, h.2.1⟩
    rw [getElem?_set_some hput] at hother
    split at hother
    · rename_i hij
      subst hij
      obtain rfl := Option.some.inj hother
      rcases h.served with ⟨hnot, -⟩ | ⟨path, loc, hmade, hwritten⟩
      · exact absurd hserved hnot
      · obtain rfl := hw.made put hmem path hmade
        obtain ⟨access, hholds⟩ := hwritten.holds
        rw [← h.file] at hwritten hholds
        exact ⟨loc, access, _, hwritten.leads, hholds, .inl rfl⟩
    · rename_i hij
      have hold := hw.holds j other hother hserved
      rcases h.served with ⟨-, hgrows⟩ | ⟨path, loc, hmade, hwritten⟩
      · exact hold.more hgrows.extends (fun loc access content _ => hgrows loc _) hfiles
      · by_cases hsame : w.tree.resolve true cwd (bytes other.file.path) = .ok loc
        · -- it led to the file that is written
          obtain rfl := hw.made put hmem path hmade
          obtain ⟨access, hholds⟩ := hwritten.holds
          obtain ⟨loc', access', content', hloc', hfile', -⟩ := hold
          obtain rfl : loc' = loc := Except.ok.inj (hloc'.symm.trans hsame)
          refine ⟨loc', access, _, leads_on hwritten.more hloc' hfile', hholds, .inr ⟨i, put', Ne.symm hij, ?_, ?_⟩⟩
          · dsimp only
            rw [getElem?_set_some hput, if_pos rfl]
          · rw [h.file]
            exact hwritten.leads
        · refine hold.more hwritten.more (fun loc' access content hloc' hfile' => ?_) hfiles
          refine hwritten.others loc' _ ?_ hfile'
          rintro rfl
          exact hsame hloc'

theorem inv_settles {channel : ControlChannel} {fetched : Fetched} (hw : w.Inv cwd files) (hput : w.puts[i]? = some put)
    (hresult : put.result = none) (hcomes : put.Comes fetched) : World.Inv cwd files
      { w with
        outcome := match w.outcome, AgentChannel.writeFile engine channel put.file.path fetched with
          | none, .error cause => some (.error (writingFailed put.file cause))
          | outcome, _ => outcome
        puts := w.puts.set i
          { put with result := some (AgentChannel.writeFile engine channel put.file.path fetched) } } := by
  have hmem : put ∈ w.puts := List.mem_of_getElem? hput
  have hnot : ¬ put.acknowledged := fun hack => nomatch hresult.symm.trans hack
  refine inv_set hw hput rfl (fun hack => absurd hack hnot) (fun path hpath => .inl hpath) (hw.status put hmem) ?_
    (fun hfiles => by rw [hw.empty hfiles]) ?_ ?_
  · intro hack
    have hok : AgentChannel.writeFile engine channel put.file.path fetched = .ok () := Option.some.inj hack
    cases fetched with
    | failed cause => cases hok
    | answered response =>
      obtain ⟨served, hserved, hsame⟩ := Option.map_eq_some_iff.mp hcomes
      refine ⟨served, hserved, ?_⟩
      have hstatus := hw.status put hmem served hserved
      have hrange := ok_of_accepted hok
      unfold HttpResponse.ok at hrange
      rw [decide_eq_true_eq] at hrange
      omega
  · have htold := hw.told
    generalize AgentChannel.writeFile engine channel put.file.path fetched = result
    unfold Told at htold ⊢
    cases houtcome : w.outcome with
    | none =>
      rw [houtcome] at htold
      cases result with
      | ok a =>
        intro other hother cause
        rcases List.mem_or_eq_of_mem_set hother with hother | rfl
        · exact htold other hother cause
        · exact fun h => nomatch h
      | error cause =>
        refine .inr ⟨i, { put with result := some (.error cause) }, cause, ?_, rfl, rfl⟩
        exact (getElem?_set_some hput i).trans (if_pos rfl)
    | some outcome =>
      rw [houtcome] at htold
      cases outcome with
      | ok a => exact absurd (htold.2 put hmem) hnot
      | error e =>
        refine htold.imp_right ?_
        rintro ⟨j, other, cause, hother, hfailed, rfl⟩
        refine ⟨j, other, cause, ?_, hfailed, rfl⟩
        dsimp only
        rw [getElem?_set_some hput, if_neg, hother]
        rintro rfl
        obtain rfl : put = other := Option.some.inj (hput.symm.trans hother)
        cases hresult.symm.trans hfailed
  · have hfiles : ∀ (j : Nat) other, w.puts[j]? = some other → ∃ other', (w.puts.set i { put with
        result := some (AgentChannel.writeFile engine channel put.file.path fetched) })[j]? = some other' ∧
        other'.file = other.file := by
      intro j other hother
      rw [getElem?_set_some hput]
      split
      · rename_i hij
        subst hij
        obtain rfl : put = other := Option.some.inj (hput.symm.trans hother)
        exact ⟨_, rfl, rfl⟩
      · exact ⟨other, hother, rfl⟩
    intro j other hother hserved
    rw [getElem?_set_some hput] at hother
    split at hother
    · rename_i hij
      subst hij
      obtain rfl := Option.some.inj hother
      exact (hw.holds j put hput hserved).more (.refl _) (fun _ _ _ _ h => h) hfiles
    · exact (hw.holds j other hother hserved).more (.refl _) (fun _ _ _ _ h => h) hfiles

end

theorem inv_happens (hw : w.Inv cwd files) (h : Happens engine cwd files w w') : w'.Inv cwd files := by
  cases h with
  | opens channel hchannel houtcome =>
    refine ⟨hw.empty, fun h => (nomatch h), hw.sent, hw.whole, hw.earlier, hw.made, hw.status, hw.served, ?_, hw.holds⟩
    have htold := hw.told
    unfold Told at htold ⊢
    rw [houtcome] at htold ⊢
    exact htold
  | refused cause hchannel houtcome =>
    exact ⟨fun hfiles => (nomatch houtcome.symm.trans (hw.empty hfiles)), hw.opened, hw.sent, hw.whole, hw.earlier,
      hw.made, hw.status, hw.served, .inl hchannel, hw.holds⟩
  | sends hchannel houtcome hall hmore => exact inv_sends hw hchannel houtcome hall hmore
  | resolves hchannel houtcome hall hdone =>
    have hlength := congrArg List.length hw.sent
    rw [List.length_map, List.length_take] at hlength
    exact ⟨fun _ => rfl, hw.opened, hw.sent, hw.whole, hw.earlier, hw.made, hw.status, hw.served,
      ⟨by dsimp only; omega, hall⟩, hw.holds⟩
  | serves hput h => exact inv_serves hw hput h
  | settles hput hresult hcomes => exact inv_settles hw hput hresult hcomes

theorem inv_run {tree : FileTree} (h : Run (Fires (step engine cwd files)) Any (World.init files tree) w) :
    w.Inv cwd files :=
  h.inv (World.Inv cwd files) (fun _ _ _ hw _ hstep => inv_happens hw (happens hstep)) (inv_init cwd files tree)

theorem settled_happens {r : Except JsError Unit} (h : Happens engine cwd files w w') (houtcome : w.outcome = some r) :
    w'.outcome = some r ∧ w'.puts.map (·.file) = w.puts.map (·.file) := by
  cases h with
  | opens channel hchannel hnone => cases houtcome.symm.trans hnone
  | refused cause hchannel hnone => cases houtcome.symm.trans hnone
  | sends hchannel hnone => cases houtcome.symm.trans hnone
  | resolves hchannel hnone => cases houtcome.symm.trans hnone
  | serves hput h => exact ⟨houtcome, map_file_set hput h.file⟩
  | settles hput => exact ⟨by rw [houtcome], map_file_set hput rfl⟩

theorem settled_run {r : Except JsError Unit} (h : Run (Fires (step engine cwd files)) Any w w')
    (houtcome : w.outcome = some r) : w'.outcome = some r ∧ w'.puts.map (·.file) = w.puts.map (·.file) :=
  h.inv (fun w' => w'.outcome = some r ∧ w'.puts.map (·.file) = w.puts.map (·.file))
    (fun _ _ _ ⟨hr, hsame⟩ _ hstep => (settled_happens (happens hstep) hr).imp_right (·.trans hsame)) ⟨houtcome, rfl⟩

/-- What has not come to anything is of the last batch. -/
theorem World.Inv.flight (hw : w.Inv cwd files) : w.puts.countP (·.result.isNone) ≤ writeConcurrency := by
  rcases Nat.eq_zero_or_pos w.puts.length with hzero | hpos
  · rw [List.eq_nil_of_length_eq_zero hzero]
    exact Nat.zero_le _
  · let m := writeConcurrency * ((w.puts.length - 1) / writeConcurrency)
    have hm : w.puts.length - m ≤ writeConcurrency := by
      simp only [m, writeConcurrency]
      omega
    have hbefore : (w.puts.take m).countP (·.result.isNone) = 0 := by
      rw [List.countP_eq_zero]
      intro put hput
      obtain ⟨i, hi, hget⟩ := List.mem_take_iff_getElem.mp hput
      have hlt : i / writeConcurrency < (w.puts.length - 1) / writeConcurrency := by
        simp only [m, writeConcurrency] at hi ⊢
        omega
      obtain ⟨other, hother, hack⟩ := hw.earlier i _ hlt (by omega)
      rw [List.getElem?_eq_getElem (by omega), hget] at hother
      obtain rfl := Option.some.inj hother
      rw [Put.acknowledged] at hack
      simp [hack]
    rw [← List.take_append_drop m w.puts, List.countP_append, hbefore, Nat.zero_add]
    exact (List.countP_le_length).trans (by rwa [List.length_drop])

/-! ## What the loop comes to -/

/-- The requests that `writeBatches` makes of these puts, each with what its batch has come to. -/
inductive Batched (channel : ControlChannel) : List Put → Answers → Prop
  | nil : Batched channel [] []
  | resolved {puts : List Put} {trace : Answers} (hne : puts ≠ [])
      (hall : ∀ put ∈ puts.take writeConcurrency, put.acknowledged)
      (h : Batched channel (puts.drop writeConcurrency) trace) : Batched channel puts
        (⟨.agent channel (.writeFiles ((puts.take writeConcurrency).map (·.file))), .ok ()⟩ :: trace)
  | rejected {puts : List Put} {put : Put} {cause : JsError} (hlast : puts.length ≤ writeConcurrency)
      (hput : put ∈ puts) (hresult : put.result = some (.error cause)) : Batched channel puts
        [⟨.agent channel (.writeFiles (puts.map (·.file))), .error (put.file, cause)⟩]

section
variable {puts : List Put} {batches : Nat}

theorem gives_resolved (channel : ControlChannel) (hfuel : files.length ≤ batches) (hsent : puts.map (·.file) = files)
    (hall : ∀ put ∈ puts, put.acknowledged) :
    ∃ trace, Batched channel puts trace ∧ Gives (writeBatches channel batches files) trace (.ok ()) := by
  induction batches generalizing files puts with
  | zero =>
    obtain rfl := List.eq_nil_of_length_eq_zero (Nat.le_zero.mp hfuel)
    obtain rfl := List.map_eq_nil_iff.mp hsent
    exact ⟨[], .nil, .done ()⟩
  | succ batches ih =>
    rw [writeBatches]
    by_cases hfiles : files = []
    · subst hfiles
      obtain rfl := List.map_eq_nil_iff.mp hsent
      exact ⟨[], .nil, .done ()⟩
    · rw [if_neg hfiles]
      have hpos := List.length_pos_iff.mpr hfiles
      have hless : (files.drop writeConcurrency).length ≤ batches := by
        rw [List.length_drop]
        unfold writeConcurrency
        omega
      obtain ⟨trace, hbatched, hgives⟩ := ih hless (by rw [List.map_drop, hsent])
        fun put hput => hall put (List.mem_of_mem_drop hput)
      refine ⟨_, .resolved ?_ (fun put hput => hall put (List.mem_of_mem_take hput)) hbatched, ?_⟩
      · rintro rfl
        exact hfiles hsent.symm
      · rw [List.map_take, hsent]
        exact gives_ask.mpr ⟨.ok (), trace, rfl, hgives⟩

/-- The batches of `before` were acknowledged, and one request of the last batch has failed. -/
theorem gives_rejected (channel : ControlChannel) {before : List Put} {put : Put} {cause : JsError}
    (hfuel : files.length ≤ batches) (hwhole : writeConcurrency ∣ before.length)
    (hall : ∀ put ∈ before, put.acknowledged)
    (hbefore : before.map (·.file) = files.take before.length)
    (hsent : puts.map (·.file) = (files.drop before.length).take writeConcurrency) (hput : put ∈ puts)
    (hresult : put.result = some (.error cause)) : ∃ trace, Batched channel (before ++ puts) trace ∧
      Gives (writeBatches channel batches files) trace (.error (writingFailed put.file cause)) := by
  have hne : files ≠ [] := by
    rintro rfl
    rw [List.drop_nil, List.take_nil] at hsent
    rw [List.map_eq_nil_iff.mp hsent] at hput
    cases hput
  have hpos := List.length_pos_iff.mpr hne
  induction batches generalizing files before with
  | zero => omega
  | succ batches ih =>
    rw [writeBatches, if_neg hne]
    by_cases hnil : before = []
    · subst hnil
      have hlast : puts.length ≤ writeConcurrency := by
        rw [← List.length_map (·.file), hsent]
        exact List.length_take_le _ _
      refine ⟨_, .rejected hlast hput hresult, ?_⟩
      rw [List.nil_append, hsent]
      exact gives_ask.mpr ⟨.error (put.file, cause), [], rfl, .fail _⟩
    · -- a whole batch comes first
      have hlong : writeConcurrency ≤ before.length := Nat.le_of_dvd (List.length_pos_iff.mpr hnil) hwhole
      have hdrop : (before.drop writeConcurrency).length = before.length - writeConcurrency := List.length_drop ..
      have hless : (files.drop writeConcurrency).length ≤ batches := by
        rw [List.length_drop]
        unfold writeConcurrency
        omega
      have hthere : puts.map (·.file) =
          ((files.drop writeConcurrency).drop (before.drop writeConcurrency).length).take writeConcurrency := by
        rw [hsent, List.drop_drop, hdrop, Nat.add_sub_cancel' hlong]
      have hmore : files.drop writeConcurrency ≠ [] := by
        intro hdone
        rw [hdone, List.drop_nil, List.take_nil] at hthere
        rw [List.map_eq_nil_iff.mp hthere] at hput
        cases hput
      obtain ⟨trace, hbatched, hgives⟩ := ih hless (by rw [hdrop]; exact Nat.dvd_sub hwhole (dvd_refl _))
        (fun put hput => hall put (List.mem_of_mem_drop hput))
        (by rw [List.map_drop, hbefore, List.drop_take, hdrop]) hthere hmore (List.length_pos_iff.mpr hmore)
      have htake : (before ++ puts).take writeConcurrency = before.take writeConcurrency :=
        List.take_append_of_le_length hlong
      rw [← List.drop_append_of_le_length hlong] at hbatched
      refine ⟨_, .resolved (List.append_ne_nil_of_left_ne_nil hnil _) (fun put hput => ?_) hbatched, ?_⟩
      · rw [htake] at hput
        exact hall put (List.mem_of_mem_take hput)
      · rw [htake, List.map_take, hbefore, List.take_take, Nat.min_eq_left hlong]
        exact gives_ask.mpr ⟨.ok (), trace, rfl, hgives⟩

end

/-- What `writeFiles` comes to once it has its channel is what its loop comes to, with the requests that were made
and what they have come to. -/
theorem outcome_gives (hw : w.Inv cwd files) {channel : ControlChannel} {r : Except JsError Unit}
    (hchannel : w.channel = some channel) (houtcome : w.outcome = some r) :
    ∃ trace, Batched channel w.puts trace ∧ Gives (writeBatches channel files.length files) trace r := by
  have htold := hw.told
  unfold Told at htold
  rw [houtcome] at htold
  have hsent := hw.sent
  cases r with
  | ok a =>
    rw [htold.1, List.take_length] at hsent
    exact gives_resolved channel le_rfl hsent htold.2
  | error e =>
    rcases htold with hnone | ⟨i, put, cause, hput, hresult, rfl⟩
    · cases hchannel.symm.trans hnone
    · -- the batch of this request is the last one
      let m := writeConcurrency * (i / writeConcurrency)
      have hi := (List.getElem?_eq_some_iff.mp hput).1
      have hm : m ≤ i := Nat.mul_div_le _ _
      have hbefore : ∀ other ∈ w.puts.take m, other.acknowledged := by
        intro other hother
        obtain ⟨j, hj, rfl⟩ := List.mem_take_iff_getElem.mp hother
        obtain ⟨_, hsame, hack⟩ := hw.earlier j i (by simp only [m, writeConcurrency] at hj ⊢; omega) hi
        rw [List.getElem?_eq_getElem (by omega)] at hsame
        exact Option.some.inj hsame ▸ hack
      have hend : w.puts.length ≤ m + writeConcurrency := by
        by_contra hlong
        obtain ⟨other, hother, hack⟩ := hw.earlier i (m + writeConcurrency)
          (by simp only [m, writeConcurrency]; omega) (by omega)
        obtain rfl := Option.some.inj (hput.symm.trans hother)
        cases hresult.symm.trans hack
      have hlength : (w.puts.take m).length = m := List.length_take_of_le (by omega)
      have hlast : (w.puts.drop m).map (·.file) = (files.drop m).take writeConcurrency := by
        rw [List.map_drop, hsent, List.drop_take, List.take_eq_take_iff, List.length_drop]
        by_cases hmore : w.puts.length < files.length
        · obtain ⟨k, hk⟩ := hw.whole hmore
          simp only [m, writeConcurrency] at hm hend hk ⊢
          omega
        · omega
      have hin : put ∈ w.puts.drop m :=
        List.mem_of_getElem? (by rw [List.getElem?_drop, Nat.add_sub_cancel' hm]; exact hput)
      have := gives_rejected channel le_rfl (by rw [hlength]; exact Nat.dvd_mul_right ..) hbefore
        (by rw [List.map_take, hsent, List.take_take, hlength, Nat.min_eq_left (by omega)]) (by rw [hlength, hlast])
        hin hresult
      rwa [List.take_append_drop] at this

/-! ## Once each -/

/-- The paths of these files lead to different files. -/
def Apart (t : FileTree) (cwd : Loc) (files : List SandboxFileWrite) : Prop :=
  files.Pairwise fun file file' => t.resolve true cwd (bytes file.path) ≠ t.resolve true cwd (bytes file'.path)

theorem Apart.ne {t : FileTree} (h : Apart t cwd files) {i j : Nat} (hij : i ≠ j) {file file' : SandboxFileWrite}
    (hi : files[i]? = some file) (hj : files[j]? = some file') :
    t.resolve true cwd (bytes file.path) ≠ t.resolve true cwd (bytes file'.path) := by
  obtain ⟨hi', rfl⟩ := List.getElem?_eq_some_iff.mp hi
  obtain ⟨hj', rfl⟩ := List.getElem?_eq_some_iff.mp hj
  rcases Nat.lt_or_gt_of_ne hij with hlt | hgt
  · exact List.pairwise_iff_getElem.mp h i j hi' hj' hlt
  · exact Ne.symm (List.pairwise_iff_getElem.mp h j i hj' hi' hgt)

/-- What holds in every state of a `writeFiles`. -/
structure Kept (engine : Engine) (cwd : Loc) (files : List SandboxFileWrite) (w : World) : Prop where
  flight : w.puts.countP (·.result.isNone) ≤ 8
  /-- The files are sent in their order, each once. -/
  once : w.puts.map (·.file) = files.take w.puts.length ∧
    ((files.map (·.path)).Nodup → (w.puts.map (·.file.path)).Nodup)
  /-- With a file of a batch sent, all of the batches before it were acknowledged. -/
  ordered : ∀ i j, i / 8 < j / 8 → j < w.puts.length → ∃ put, w.puts[i]? = some put ∧ put.acknowledged
  resolves : w.outcome = some (.ok ()) → w.puts.map (·.file) = files ∧ ∀ put ∈ w.puts, put.acknowledged
  resolved : w.puts.map (·.file) = files → (∀ put ∈ w.puts, put.acknowledged) →
    w.outcome = some (.ok ()) ∨
      w.outcome = none ∧ step engine cwd files w .next = some { w with outcome := some (.ok ()) }
  holds : w.outcome = some (.ok ()) → Apart w.tree cwd files → ∀ file ∈ files, ∃ loc access,
    w.tree.resolve true cwd (bytes file.path) = .ok loc ∧
      w.tree.get loc = some (.file access (contentBytes file.content))
  /-- It rejects without a channel and with nothing sent, or for a file whose own request has failed. -/
  rejects : ∀ e, w.outcome = some (.error e) → w.channel = none ∧ w.puts = [] ∨
    ∃ put ∈ w.puts, ∃ cause, put.result = some (.error cause) ∧
      e = error ("Writing " ++ put.file.path ++ " failed: " ++ cause.message)
  /-- And nothing more is sent then. -/
  stops : ∀ e, w.outcome = some (.error e) → ∀ w', Run (Fires (step engine cwd files)) Any w w' →
    w'.outcome = some (.error e) ∧ w'.puts.map (·.file) = w.puts.map (·.file)

/-- **`writeFiles` sends each file once, in bounded batches**, whatever order the agent answers in and whichever
requests fail; and with paths that lead to different files every path holds its content when it resolves. No path
of the tree leads to a device or a pipe. -/
theorem sends_once (engine : Engine) (cwd : Loc) (files : List SandboxFileWrite) (tree : FileTree) (w : World)
    (h : Run (Fires (step engine cwd files)) Any (World.init files tree) w) : Kept engine cwd files w := by
  have hw := inv_run h
  have htold := hw.told
  unfold Told at htold
  have hresolves : w.outcome = some (.ok ()) → w.puts.map (·.file) = files ∧ ∀ put ∈ w.puts, put.acknowledged := by
    intro hok
    rw [hok] at htold
    rw [hw.sent, htold.1, List.take_length]
    exact ⟨rfl, htold.2⟩
  refine ⟨hw.flight, ⟨hw.sent, fun hnodup => ?_⟩, hw.earlier, hresolves, fun hall hack => ?_,
    fun hok hapart file hfile => ?_,
    fun e he => ?_, fun e he w' hrun => settled_run hrun he⟩
  · have hpaths : w.puts.map (·.file.path) = (files.take w.puts.length).map (·.path) := by
      rw [← hw.sent, List.map_map]
      rfl
    rw [hpaths, List.map_take]
    exact hnodup.sublist (List.take_sublist _ _)
  · cases houtcome : w.outcome with
    | none =>
      cases hchannel : w.channel with
      | none =>
        rw [hw.opened hchannel] at hall
        exact nomatch houtcome.symm.trans (hw.empty hall.symm)
      | some channel =>
        have hlength : ¬ w.puts.length < files.length := by
          rw [← hall, List.length_map]
          exact lt_irrefl _
        refine .inr ⟨rfl, ?_⟩
        dsimp only [step]
        rw [hchannel, houtcome]
        dsimp only
        rw [if_pos hack, if_neg hlength]
    | some outcome =>
      rw [houtcome] at htold
      cases outcome with
      | ok a => exact .inl rfl
      | error e =>
        rcases htold with hnone | ⟨i, put, cause, hput, hresult, -⟩
        · rw [hw.opened hnone] at hall
          exact nomatch houtcome.symm.trans (hw.empty hall.symm)
        · exact nomatch hresult.symm.trans (hack put (List.mem_of_getElem? hput))
  · obtain ⟨hfiles, hack⟩ := hresolves hok
    obtain ⟨i, hi⟩ := List.mem_iff_getElem?.mp hfile
    rw [← hfiles, List.getElem?_map] at hi
    obtain ⟨put, hput, rfl⟩ := Option.map_eq_some_iff.mp hi
    have hmem := List.mem_of_getElem? hput
    obtain ⟨loc, access, content, hloc, hholds, rfl | ⟨j, other, hne, hother, hleads⟩⟩ :=
      hw.holds i put hput (hw.served put hmem (hack put hmem))
    · exact ⟨loc, access, hloc, hholds⟩
    · have hat : ∀ {k : Nat} {put : Put}, w.puts[k]? = some put → files[k]? = some put.file := fun h => by
        rw [← hfiles, List.getElem?_map, h, Option.map_some]
      exact absurd (hloc.trans hleads.symm) (hapart.ne (Ne.symm hne) (hat hput) (hat hother))
  · rw [he] at htold
    rcases htold with hnone | ⟨i, put, cause, hput, hresult, rfl⟩
    · exact .inl ⟨hnone, hw.opened hnone⟩
    · exact .inr ⟨put, List.mem_of_getElem? hput, cause, hresult, rfl⟩

def answered200 : Fetched := .answered { status := 200, body := none }

/-- A batch of files and one more. -/
def nineFiles : List SandboxFileWrite :=
  ["/a", "/b", "/c", "/d", "/e", "/f", "/g", "/h", "/i"].map fun path => { path, content := .bytes (bytes path) }

/-- The first batch is served and told in other orders than it was sent in, then the last file is written. -/
def writesNine : List Action :=
  [.opened (.ok agentAt), .next] ++ [3, 0, 1, 7, 2, 4, 6, 5].map .makeDirs ++ [5, 1, 0, 3, 7, 2, 4, 6].map .write ++
    [2, 0, 1, 6, 7, 3, 5, 4].map (.settle · answered200) ++ [.next, .makeDirs 8, .write 8, .settle 8 answered200, .next]

theorem sends_once_nineFiles : ∃ w, Kept terse [] nineFiles w ∧ w.outcome = some (.ok ()) := by
  obtain ⟨w, hrun, hok⟩ := Run.exists_of_exec (step terse [] nineFiles) Any (fun w => w.outcome = some (.ok ()))
    (World.init nineFiles bareTree) writesNine (by decide +kernel)
  exact ⟨w, sends_once terse [] nineFiles bareTree w hrun, hok⟩

/-- Two files are written and acknowledged, one after the other. -/
def writesTwo : List Action :=
  [.opened (.ok agentAt), .next, .makeDirs 0, .write 0, .makeDirs 1, .write 1, .settle 0 answered200,
    .settle 1 answered200, .next]

/-- Two paths of one file. -/
def aliasFiles : List SandboxFileWrite :=
  [{ path := "/a", content := .bytes [1] }, { path := "//a", content := .bytes [2] }]

/-- Both files are acknowledged, and the path of the first holds the content of the second; and without a channel
`writeFiles` rejects though no request has failed. -/
theorem sends_once_alias : (aliasFiles.map (·.path)).Nodup ∧
    (∃ w, Run (Fires (step terse [] aliasFiles)) Any (World.init aliasFiles bareTree) w ∧
      w.outcome = some (.ok ()) ∧ ∃ loc access, w.tree.resolve true [] (bytes "/a") = .ok loc ∧
        w.tree.get loc = some (.file access [2])) ∧
    ∃ w, Run (Fires (step terse [] aliasFiles)) Any (World.init aliasFiles bareTree) w ∧
      w.outcome = some (.error (error "ECONNREFUSED")) ∧ w.puts.map (·.result) = [] := by
  refine ⟨by decide, ?_, ?_⟩
  · obtain ⟨w, hrun, hok, hloc, hfile⟩ := Run.exists_of_exec (step terse [] aliasFiles) Any
      (fun w => w.outcome = some (.ok ()) ∧ w.tree.resolve true [] (bytes "/a") = .ok [bytes "a"] ∧
        w.tree.get [bytes "a"] = some (.file { read := true, write := true, search := false } [2]))
      (World.init aliasFiles bareTree) writesTwo (by decide +kernel)
    exact ⟨w, hrun, hok, _, _, hloc, hfile⟩
  · exact Run.exists_of_exec (step terse [] aliasFiles) Any
      (fun w => w.outcome = some (.error (error "ECONNREFUSED")) ∧ w.puts.map (·.result) = [])
      (World.init aliasFiles bareTree) [.opened (.error (error "ECONNREFUSED"))] (by decide +kernel)

end Writes

end ComputeArmada.Wire
