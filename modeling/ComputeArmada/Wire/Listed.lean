import ComputeArmada.Adapter.OneQueue
import ComputeArmada.Agent.Seen
import ComputeArmada.Wire.Exec
import ComputeArmada.Wire.ReadBack

/-!
# From a listing to a read

What the caller is told of a directory, and what its paths lead to when they are sent back.

* `listedPath` : a path as JSON carries it; `infoOf` : a node as the caller is told of it;
* `Seen` : the nodes that a listing walks over; `Listed.mem` : those, and no others, are told;
* `Returns` : whose paths lead back; `reads_back_iff` : that is when every file listed can be read.
-/

namespace ComputeArmada.Wire
open Adapter Agent Async FileTree Paths

/-! ## Paths in JSON -/

/-- What is no UTF-8 is replaced. -/
def listedPath (path : Path) : String := String.ofList ((runes path).map fun r => r.getD Json.replacement)

theorem decodeRune_spells {c : Char} {p : Utf8.Pending} {bs : List UInt8} (h : Utf8.Spells c p bs) (rest : List UInt8) :
    decodeRune p (bs ++ rest) = some (c, bs.length) := by
  induction h with
  | last h =>
    rw [List.singleton_append, decodeRune, h]
    rfl
  | more h _ ih =>
    rw [List.cons_append, decodeRune, h]
    dsimp only
    rw [ih]
    rfl

theorem runesFrom_skip (bs rest : List UInt8) : runesFrom bs.length (bs ++ rest) = runesFrom 0 rest := by
  induction bs with
  | nil => rfl
  | cons b bs ih => rw [List.length_cons, List.cons_append, runesFrom, ih]

/-- The runes of a text are its characters. -/
theorem runes_encode (cs : List Char) : runes (Utf8.encode cs) = cs.map some := by
  induction cs with
  | nil => rfl
  | cons c cs ih =>
    unfold runes at ih ⊢
    have hspells := decodeRune_spells (Utf8.spells_encodeChar c) (Utf8.encode cs)
    obtain ⟨b, bs, hbytes⟩ := List.exists_cons_of_ne_nil (String.utf8EncodeChar_ne_nil (c := c))
    rw [Utf8.encode_cons]
    rw [hbytes] at hspells ⊢
    rw [List.cons_append] at hspells ⊢
    rw [runesFrom, hspells]
    dsimp only
    rw [List.length_cons, Nat.add_sub_cancel, runesFrom_skip, ih, List.map_cons]

/-- A path that is a text is carried as it is. -/
theorem bytes_listedPath {path : Path} (h : Utf8.WellFormed path) : bytes (listedPath path) = path := by
  obtain ⟨cs, rfl⟩ := h
  unfold listedPath bytes
  rw [runes_encode, List.map_map, String.toList_ofList]
  simp

theorem listedPath_bytes (s : String) : listedPath (bytes s) = s := by
  have h := bytes_listedPath ⟨s.toList, rfl⟩
  have hdecode := congrArg Utf8.decode h
  unfold bytes at hdecode
  rw [Utf8.decode_encode, Utf8.decode_encode] at hdecode
  exact String.toList_inj.mp hdecode

/-! ## The response -/

section
variable {engine : Engine} {endpoint : AgentEndpoint}

/-- An entry as the channel reads it. -/
def entryRead (engine : Engine) (e : FileEntry) : AgentFileEntry :=
  { path := listedPath e.path, type := (fileTypeOf e.type).getD .other, size := engine.number e.size }

def entryMembers (engine : Engine) (e : FileEntry) : List (String × List Char × JsonValue) :=
  [("path", jsonString e.path, .string (listedPath e.path)), ("type", jsonString (bytes e.type), .string e.type),
   ("size", (toString (e.size : Int)).toList, .number (engine.number e.size))]

theorem entryMembers_written (engine : Engine) (e : FileEntry) : ∀ m ∈ entryMembers engine e,
    (∀ c ∈ m.1.toList, Json.Reader.Plain c) ∧ Json.Reader.Written engine.number m.2.1 m.2.2 := by
  have hkeys : ∀ key ∈ ["path", "type", "size"], ∀ c ∈ key.toList, Json.Reader.Plain c := by decide
  have htype : Json.Reader.Written engine.number (jsonString (bytes e.type)) (.string e.type) := by
    have h := @written_jsonString _ engine.number (bytes e.type)
    rwa [← listedPath, listedPath_bytes] at h
  intro m hm
  simp only [entryMembers, List.mem_cons, List.not_mem_nil, or_false] at hm
  rcases hm with rfl | rfl | rfl
  · exact ⟨hkeys _ (by simp), written_jsonString _⟩
  · exact ⟨hkeys _ (by simp), htype⟩
  · exact ⟨hkeys _ (by simp), Json.Reader.written_int _⟩

theorem entryOf_members (engine : Engine) (e : FileEntry) :
    entryOf (.object ((entryMembers engine e).map fun m => (m.1, m.2.2))) = some (entryRead engine e) := by
  simp [entryMembers, entryOf, entryRead, stringOf, numberOf, Json.get?]

/-- The entries of a listing are read as they are written. -/
theorem entriesOf_written (engine : Engine) (es : List FileEntry) :
    ∃ value, engine.parse (Json.Reader.objectText
      [("entries", Json.Reader.arrayText (es.map FileEntry.line))] ++ ['\n']) =
      .ok value ∧ entriesOf value = some (es.map (entryRead engine)) := by
  let values := es.map fun e => (e.line, (Json.object ((entryMembers engine e).map fun m => (m.1, m.2.2)) : JsonValue))
  have hlines : values.map (·.1) = es.map FileEntry.line := by simp [values]
  have hwritten : ∀ v ∈ values, Json.Reader.Written engine.number v.1 v.2 := by
    intro v hv
    obtain ⟨e, -, rfl⟩ := List.mem_map.mp hv
    exact Json.Reader.written_object (entryMembers_written engine e)
  have hhead : ∀ v ∈ values, ∃ c text, v.1 = c :: text ∧ c ≠ ']' ∧ Json.isBlank c = false := by
    intro v hv
    obtain ⟨e, -, rfl⟩ := List.mem_map.mp hv
    exact ⟨'{', _, rfl, by decide, by decide⟩
  have harray := Json.Reader.written_array hwritten hhead
  rw [hlines] at harray
  have hkey : ∀ c ∈ "entries".toList, Json.Reader.Plain c := by decide
  have hmembers : ∀ m ∈ [("entries", Json.Reader.arrayText (es.map FileEntry.line),
      (.array (values.map (·.2)) : JsonValue))], (∀ c ∈ m.1.toList, Json.Reader.Plain c) ∧
        Json.Reader.Written engine.number m.2.1 m.2.2 := by
    intro m hm
    obtain rfl := List.mem_singleton.mp hm
    exact ⟨hkey, harray⟩
  have hblank : ∀ c ∈ ['\n'], Json.isBlank c = true := by decide
  have hparse := Json.parse_object_append hmembers hblank
  refine ⟨.object [("entries", .array (values.map (·.2)))], ?_, ?_⟩
  · unfold Engine.parse
    simp only [List.map_cons, List.map_nil] at hparse
    rw [hparse]
  · have hget : (Json.object [("entries", Json.array (values.map (·.2)))] : JsonValue).get? "entries" =
        some (.array (values.map (·.2))) := by simp [Json.get?]
    unfold entriesOf
    rw [hget]
    dsimp only
    have hentries : ∀ es : List FileEntry, (es.map fun e =>
        (Json.object ((entryMembers engine e).map fun m => (m.1, m.2.2)) : JsonValue)).mapM entryOf =
          some (es.map (entryRead engine)) := by
      intro es
      induction es with
      | nil => rfl
      | cons e es ih => rw [List.map_cons, List.mapM_cons, entryOf_members, ih]; rfl
    rw [List.map_map]
    exact hentries es

/-- A response of the agent as a text, which begins with no byte order mark. -/
theorem text_arrived (status : Nat) {c : Char} {text : List Char} {chunks : List (List UInt8)} (hc : c.toNat ≠ 0xfeff)
    (hchunks : chunks.flatten = Utf8.encode (c :: text)) :
    HttpResponse.text { status, body := some { chunks, failure := none } } = .ok (String.ofList (c :: text)) := by
  change (.ok (String.ofList ((TextDecoder.new.decode chunks.flatten).2 ++
    Utf8.finish (TextDecoder.new.decode chunks.flatten).1.pending)) : Except JsError String) = _
  rw [hchunks, TextDecoder.decode, TextDecoder.new]
  dsimp only
  rw [Utf8.run_encode]
  dsimp only
  rw [if_neg (by decide), if_neg hc]
  dsimp only [Utf8.finish]
  rw [List.append_nil]

theorem json_of_text {response : HttpResponse} {text : String} (h : response.text = .ok text) :
    response.json engine = engine.parse text.toList := by
  unfold HttpResponse.json
  rw [h]
  rfl

theorem listFiles_of_json {path : String} {response : HttpResponse} {value : JsonValue} {entries : List AgentFileEntry}
    (hok : response.ok = true) (hjson : response.json engine = .ok value) (hentries : entriesOf value = some entries) :
    AgentChannel.listFiles engine endpoint path (.answered response) = .ok (.ok entries) := by
  unfold AgentChannel.listFiles AgentChannel.request
  simp only [bind, Except.bind]
  rw [if_pos hok, hjson]
  dsimp only
  rw [hentries]
  rfl

/-- What the channel makes of a listing. -/
theorem listFiles_arrived {path : String} {es : List FileEntry} {fetched : Fetched}
    (h : Arrives (writeEntries es) fetched) :
    AgentChannel.listFiles engine endpoint path fetched = .ok (.ok (es.map (entryRead engine))) := by
  obtain ⟨chunks, hchunks, rfl⟩ := h
  obtain ⟨value, hparse, hentries⟩ := entriesOf_written engine es
  have htext := text_arrived 200 (by decide) hchunks
  refine listFiles_of_json rfl ?_ hentries
  rw [← hparse, ← String.toList_ofList (l := Json.Reader.objectText _ ++ _)]
  exact json_of_text htext

theorem listFiles_refused {path : String} {response : Agent.Response} {fetched : Fetched} (h : Arrives response fetched)
    (hstatus : 299 < response.status) (entries : List AgentFileEntry) :
    AgentChannel.listFiles engine endpoint path fetched ≠ .ok (.ok entries) := by
  obtain ⟨chunks, -, rfl⟩ := h
  intro hlist
  unfold AgentChannel.listFiles AgentChannel.request at hlist
  simp only [bind, Except.bind] at hlist
  rw [not_ok hstatus, if_neg (by decide)] at hlist
  split at hlist
  · cases hlist
  split at hlist
  · cases hlist
  split at hlist
  · cases hlist
  · cases hlist

/-! ## The request -/

theorem query_listFiles (endpoint : AgentEndpoint) (path : String) (recursive : Bool) :
    (received (AgentChannel.listFilesRequest endpoint path recursive)).query "path" = bytes path ∧
      ((received (AgentChannel.listFilesRequest endpoint path recursive)).query "recursive" = bytes "true" ↔
        recursive = true) := by
  have hpath := @listPath_eq endpoint path recursive
  have hplain : 61 ∉ bytes "path" := by decide
  refine ⟨query_received hpath (by decide) ?_, ?_⟩
  · cases recursive with
    | true => exact .inr ⟨"recursive=true", by decide⟩
    | false => exact .inl rfl
  · have hraw := (received_path hpath (by decide)).2
    rw [String.toList_append, String.toList_append, encode_path] at hraw
    unfold Agent.Request.query
    rw [hraw]
    cases recursive with
    | true =>
      have hmore : Utf8.encode (urlQuery "&recursive=true".toList) = 38 :: bytes "recursive=true" := by decide
      have hvalue : parseQuery (bytes "recursive=true") = [(bytes "recursive", bytes "true")] := by decide +kernel
      have hkey : bytes "path" ≠ bytes "recursive" := by decide
      rw [if_pos rfl, hmore, parseQuery_cons escapes_path hplain (escapes_component path), hvalue]
      simp [valueOf, hkey]
    | false =>
      have hend : Utf8.encode (urlQuery "".toList) = [] := by decide
      have hkey : bytes "path" ≠ bytes "recursive" := by decide
      have hne : [] ≠ bytes "true" := by decide
      rw [if_neg (by decide), hend, List.append_nil, parseQuery_single escapes_path hplain (escapes_component path)]
      simp [valueOf, hkey, hne]

theorem listFiles_cases (t : FileTree) (cwd : Loc) (r : Agent.Request) : 299 < (Agent.listFiles t cwd r).status ∨
    ∃ es, listEntries t cwd (r.query "path") (r.query "recursive" = bytes "true") = .ok es ∧
      Agent.listFiles t cwd r = writeEntries es := by
  have hcoded : ∀ status code message, (writeCodedError status code message).status = status := fun _ _ _ => rfl
  unfold Agent.listFiles
  cases hpath : pathParam r with
  | error refused =>
    unfold pathParam at hpath
    split at hpath
    · obtain rfl := Except.error.inj hpath
      exact .inl (by simp [answer, bind, Except.bind, writeError, writeCodedError])
    · cases hpath
  | ok path =>
    obtain rfl := pathParam_ok hpath
    simp only [bind, Except.bind]
    cases osStat t cwd (r.query "path") with
    | error e =>
      refine .inl ?_
      dsimp only
      split
      · cases osLstat t cwd (r.query "path") <;> simp [answer, throw, throwThe, MonadExceptOf.throw, hcoded]
      · simp [answer, throw, throwThe, MonadExceptOf.throw, hcoded]
    | ok info =>
      dsimp only
      by_cases hdir : info.isDirectory = true
      · rw [if_neg (by simpa using hdir)]
        cases hlist : listEntries t cwd (r.query "path") (r.query "recursive" = bytes "true") with
        | error e => exact .inl (by simp [answer, throw, throwThe, MonadExceptOf.throw, hcoded])
        | ok es => exact .inr ⟨es, rfl, rfl⟩
      · rw [if_pos (by simpa using hdir)]
        exact .inl (by simp [answer, throw, throwThe, MonadExceptOf.throw, hcoded])

/-! ## Runs of a listing -/

variable {crypto : Crypto} {config : ArmadaConfig} {me : Nat} {made : Made}

theorem listFiles_gives {path : String} {options : ListFilesOptions} {trace : Answers} {files : List FileInfo}
    (h : Gives (Adapter.listFiles crypto config me made path options) trace (.ok (.ok files))) :
    ∃ before channel entries, trace = before ++
    [⟨.agent channel (.listFiles path options.recursive), .ok (.ok entries)⟩] ∧
      files = toFileInfos entries path options.includeHidden := by
  unfold Adapter.listFiles at h
  rcases gives_bind.mp h with ⟨x, hx, -⟩ | ⟨outcome, asked, rest, rfl, hasked, hrest⟩
  · cases hx
  obtain ⟨r', hr, hinner⟩ := gives_attempt.mp hasked
  obtain rfl := Except.ok.inj hr
  have hok : ∃ entries, outcome = .ok (.ok entries) ∧ rest = [] ∧
    files = toFileInfos entries path options.includeHidden := by
    match outcome with
    | .error cause =>
      obtain ⟨-, hr⟩ := gives_pure.mp hrest
      cases hr
    | .ok .notADirectory =>
      obtain ⟨-, hr⟩ := gives_pure.mp hrest
      cases hr
    | .ok (.failed message) =>
      obtain ⟨-, hr⟩ := gives_pure.mp hrest
      cases hr
    | .ok (.ok entries) =>
      obtain ⟨hnil, hr⟩ := gives_pure.mp hrest
      exact ⟨entries, rfl, hnil, Except.ok.inj (Except.ok.inj hr)⟩
  obtain ⟨entries, rfl, rfl, rfl⟩ := hok
  rw [List.append_nil]
  rcases gives_bind.mp hinner with ⟨x, hx, -⟩ | ⟨channel, opened, after, rfl, -, hread⟩
  · cases hx
  rcases gives_bind.mp hread with ⟨x, hx, -⟩ | ⟨reply, replied, ended, rfl, hreplied, hend⟩
  · cases hx
  obtain ⟨rfl, hreply⟩ := gives_ofExcept.mp hend
  obtain ⟨answer, none, rfl, hgiven⟩ := gives_ask.mp hreplied
  obtain ⟨rfl, hsame⟩ := gives_pure.mp hgiven
  have hanswer : answer = .ok (.ok entries) := (Except.ok.inj hsame).symm.trans hreply.symm
  refine ⟨opened, channel, entries, ?_, rfl⟩
  rw [hanswer, List.append_nil]

/-- A call of `listFiles`, hidden files included, that succeeds with these files, where the agent answers it from
this tree. -/
def Listed (engine : Engine) (t : FileTree) (cwd : Loc) (path : String) (recursive : Bool)
    (files : List FileInfo) : Prop :=
  ∃ (crypto : Crypto) (config : ArmadaConfig) (me : Nat) (made : Made) (endpoint channel : AgentEndpoint)
    (fetched : Fetched) (trace : Answers),
    Arrives (Agent.listFiles t cwd (received (AgentChannel.listFilesRequest endpoint path recursive))) fetched ∧
      Gives (Adapter.listFiles crypto config me made path { recursive, includeHidden := true })
        (trace ++ [⟨.agent channel (.listFiles path recursive), AgentChannel.listFiles engine endpoint path fetched⟩])
        (.ok (.ok files))

/-- An entry as the caller is told of it. -/
def infoFor (rootPath : String) (entry : AgentFileEntry) : FileInfo :=
  { name := baseName entry.path, absolutePath := entry.path
    relativePath :=
      if rootPath.toList.isPrefixOf entry.path.toList then
        let rest := entry.path.toList.drop rootPath.toList.length
        String.ofList (if rest.head? = some '/' then rest.tail else rest)
      else entry.path
    type := entry.type, size := entry.size }

theorem toFileInfos_all (entries : List AgentFileEntry) (rootPath : String) :
    toFileInfos entries rootPath true = entries.map (infoFor rootPath) := by
  have hall : entries.filter (fun entry => (true : Bool) = true ∨
    ¬ ".".toList.isPrefixOf (baseName entry.path).toList) =
      entries := List.filter_eq_self.mpr fun _ _ => by simp
  unfold toFileInfos
  rw [hall]
  rfl

theorem Listed.entries {engine : Engine} {t : FileTree} {cwd : Loc} {path : String} {recursive : Bool}
    {files : List FileInfo} (h : Listed engine t cwd path recursive files) :
    ∃ es, listEntries t cwd (bytes path) recursive = .ok es ∧
      files = es.map fun e => infoFor path (entryRead engine e) := by
  obtain ⟨crypto, config, me, made, endpoint, channel, fetched, trace, harrives, hgives⟩ := h
  obtain ⟨before, channel', entries, htrace, rfl⟩ := listFiles_gives hgives
  obtain ⟨hpath, hrecursive⟩ := query_listFiles endpoint path recursive
  have hsame : AgentChannel.listFiles engine endpoint path fetched = .ok (.ok entries) := by
    generalize AgentChannel.listFiles engine endpoint path fetched = outcome at htrace
    cases List.append_inj_right' htrace rfl
    rfl
  rcases listFiles_cases t cwd (received (AgentChannel.listFilesRequest endpoint path recursive)) with
    hstatus | ⟨es, hes, hresponse⟩
  · exact absurd hsame (listFiles_refused harrives hstatus entries)
  · rw [hresponse] at harrives
    rw [listFiles_arrived harrives] at hsame
    have hentries : es.map (entryRead engine) = entries := by simpa using hsame
    have hflag : decide ((received (AgentChannel.listFilesRequest endpoint path recursive)).query "recursive" =
      bytes "true") =
        recursive := by
      rw [Bool.eq_iff_iff, decide_eq_true_iff]
      exact hrecursive
    rw [hpath, hflag] at hes
    refine ⟨es, hes, ?_⟩
    rw [← hentries, toFileInfos_all, List.map_map]
    rfl

/-- A node as the caller is told of it. -/
def infoOf (engine : Engine) (path : String) (names : List Path) (node : Node) : FileInfo :=
  infoFor path (entryRead engine (fileEntry (under (bytes path) names) node))

theorem Listed.mem {engine : Engine} {t : FileTree} {cwd : Loc} {path : String} {recursive : Bool}
    {files : List FileInfo}
    (h : Listed engine t cwd path recursive files) (info : FileInfo) : info ∈ files ↔
      ∃ names loc node, Seen t cwd (bytes path) recursive names loc node ∧ info = infoOf engine path names node := by
  obtain ⟨es, hes, rfl⟩ := h.entries
  rw [List.mem_map]
  constructor
  · rintro ⟨e, he, rfl⟩
    obtain ⟨names, loc, node, hseen, rfl⟩ := ((mem_listing hes).2 e).mp he
    exact ⟨names, loc, node, hseen, rfl⟩
  · rintro ⟨names, loc, node, hseen, rfl⟩
    exact ⟨_, ((mem_listing hes).2 _).mpr ⟨names, loc, node, hseen, rfl⟩, rfl⟩

/-! ## What can be read -/

section
variable (engine : Engine) (t : FileTree) (cwd : Loc) (path : String) (recursive : Bool)

/-- A call of `readFile` that is answered from this tree resolves with this. -/
def Reads (target : String) (r : ReadFileResult) : Prop :=
  ∀ (crypto : Crypto) (config : ArmadaConfig) (me : Nat) (made : Made) (endpoint channel : AgentEndpoint)
    (fetched : Fetched) (trace : Answers) (r' : Except JsError ReadFileResult),
    Arrives (Agent.readFile t cwd (received (AgentChannel.readFileRequest endpoint target))) fetched →
      Gives (Adapter.readFile crypto config me made target)
        (trace ++ [⟨.agent channel (.readFile target), AgentChannel.readFile engine endpoint target fetched⟩]) r' →
      r' = .ok r

/-- Every regular file that is listed and may be read is read by the path it is listed under, and no two are listed
under one. -/
structure ReadsBack : Prop where
  reads : ∀ names loc access content, Seen t cwd (bytes path) recursive names loc (.file access content) →
    access.read = true →
    osReadFile t cwd (bytes (infoOf engine path names (.file access content)).absolutePath) = .ok (loc, content) ∧
      ∃ told, contentOf content = .ok told ∧
        Reads engine t cwd (infoOf engine path names (.file access content)).absolutePath (.ok told)
  apart : ∀ names names' loc loc' access access' content content',
    Seen t cwd (bytes path) recursive names loc (.file access content) →
    Seen t cwd (bytes path) recursive names' loc' (.file access' content') → loc ≠ loc' →
    (infoOf engine path names (.file access content)).absolutePath ≠
      (infoOf engine path names' (.file access' content')).absolutePath

/-- What may be read fits a string; the cleaned path of a file of the first level leads to it, and so does a path in
which bytes are replaced, which no other file shares. -/
structure Returns : Prop where
  fits : ∀ names loc access content, Seen t cwd (bytes path) recursive names loc (.file access content) →
    access.read = true → FitsText content
  first : ∀ c loc access content, Seen t cwd (bytes path) recursive [c] loc (.file access content) →
    access.read = true →
    Utf8.WellFormed (under (bytes path) [c]) → t.resolve true cwd (under (bytes path) [c]) = .ok loc
  replaced : ∀ names loc access content, Seen t cwd (bytes path) recursive names loc (.file access content) →
    access.read = true → ¬ Utf8.WellFormed (under (bytes path) names) →
    t.resolve true cwd (bytes (listedPath (under (bytes path) names))) = .ok loc
  apart : ∀ names names' loc loc' access access' content content',
    Seen t cwd (bytes path) recursive names loc (.file access content) →
    Seen t cwd (bytes path) recursive names' loc' (.file access' content') →
    ¬ Utf8.WellFormed (under (bytes path) names) →
    listedPath (under (bytes path) names) = listedPath (under (bytes path) names') → loc = loc'

variable {engine t cwd path recursive}

theorem osReadFile_iff {target : Path} {loc : Loc} {access : Access} {content : List UInt8}
    (hfile : t.get loc = some (.file access content)) (hread : access.read = true) :
    osReadFile t cwd target = .ok (loc, content) ↔ t.resolve true cwd target = .ok loc := by
  unfold osReadFile
  constructor
  · intro h
    split at h
    · cases h
    · rename_i loc' hloc
      split at h
      · split at h
        · rw [hloc, (Prod.mk.inj (Except.ok.inj h)).1]
        · cases h
      · split at h <;> cases h
      all_goals cases h
  · intro h
    rw [h]
    dsimp only
    rw [hfile]
    exact if_pos hread

theorem reads_of_resolve {target : String} {loc : Loc} {access : Access} {content : List UInt8}
    {given : String × Encoding} (hfile : t.get loc = some (.file access content)) (hread : access.read = true)
    (hloc : t.resolve true cwd (bytes target) = .ok loc) (hgiven : contentOf content = .ok given) :
    Reads engine t cwd target (.ok given) := by
  intro crypto config me made endpoint channel fetched trace r' harrives hgives
  rw [readFile_eq (query_files rfl) hloc hfile, if_pos hread] at harrives
  have hr := readFile_last hgives
  rw [readFile_arrived harrives, told, hgiven] at hr
  exact hr

/-- **Every listed file can be read back** exactly if the paths in the listing lead back. -/
theorem reads_back_iff {files : List FileInfo} (h : Listed engine t cwd path recursive files) :
    (∀ info, info ∈ files ↔ ∃ names loc node, Seen t cwd (bytes path) recursive names loc node ∧
      info = infoOf engine path names node) ∧
    (ReadsBack engine t cwd path recursive ↔ Returns t cwd path recursive) := by
  refine ⟨h.mem, fun hreads => ⟨?_, ?_, ?_, ?_⟩, fun hreturns => ⟨?_, ?_⟩⟩
  · intro names loc access content hseen hread
    obtain ⟨-, told, htold, -⟩ := hreads.reads _ _ _ _ hseen hread
    exact contentOf_iff.mp ⟨told, htold⟩
  · intro c loc access content hseen hread hutf8
    have hback := (osReadFile_iff hseen.get hread).mp (hreads.reads _ _ _ _ hseen hread).1
    exact bytes_listedPath hutf8 ▸ hback
  · exact fun names loc access content hseen hread _ =>
      (osReadFile_iff hseen.get hread).mp (hreads.reads _ _ _ _ hseen hread).1
  · intro names names' loc loc' access access' content content' hseen hseen' _ hpath
    by_contra hne
    exact hreads.apart _ _ _ _ _ _ _ _ hseen hseen' hne hpath
  · intro names loc access content hseen hread
    obtain ⟨es, hes, -⟩ := h.entries
    have hloc : t.resolve true cwd (bytes (listedPath (under (bytes path) names))) = .ok loc := by
      by_cases hutf8 : Utf8.WellFormed (under (bytes path) names)
      · rw [bytes_listedPath hutf8]
        obtain ⟨c, more, rfl⟩ := List.exists_cons_of_ne_nil hseen.ne_nil
        by_cases hmore : more = []
        · subst hmore
          exact hreturns.first _ _ _ _ hseen hread hutf8
        · cases recursive with
          | true => exact seen_deep hes hseen hmore rfl
          | false =>
            cases hseen with
            | first _ _ _ => exact absurd rfl hmore
      · exact hreturns.replaced _ _ _ _ hseen hread hutf8
    obtain ⟨told, htold⟩ := contentOf_iff.mpr (hreturns.fits _ _ _ _ hseen hread)
    exact ⟨(osReadFile_iff hseen.get hread).mpr hloc, told, htold, reads_of_resolve hseen.get hread hloc htold⟩
  · intro names names' loc loc' access access' content content' hseen hseen' hne hpath
    by_cases hutf8 : Utf8.WellFormed (under (bytes path) names)
    · by_cases hutf8' : Utf8.WellFormed (under (bytes path) names')
      · have hsame : bytes (listedPath (under (bytes path) names)) = bytes (listedPath (under (bytes path) names')) :=
          congrArg bytes hpath
        rw [bytes_listedPath hutf8, bytes_listedPath hutf8'] at hsame
        obtain rfl := under_injective hseen.plain hseen'.plain hsame
        exact hne (hseen.unique hseen')
      · exact hne (hreturns.apart _ _ _ _ _ _ _ _ hseen' hseen hutf8' hpath.symm).symm
    · exact hne (hreturns.apart _ _ _ _ _ _ _ _ hseen hseen' hutf8 hpath)

/-- So it is where the files fit, the names are texts and the cleaned path leads where the path does. -/
theorem returns_of_clean {files : List FileInfo} (h : Listed engine t cwd path recursive files)
    (hfits : ∀ names loc access content, Seen t cwd (bytes path) recursive names loc (.file access content) →
      access.read = true → FitsText content)
    (hutf8 : ∀ names loc node, Seen t cwd (bytes path) recursive names loc node →
      Utf8.WellFormed (under (bytes path) names))
    (hclean : t.resolve true cwd (clean (bytes path)) = t.resolve true cwd (bytes path)) :
    Returns t cwd path recursive := by
  obtain ⟨es, hes, -⟩ := h.entries
  refine ⟨hfits, fun c loc access content hseen _ _ => seen_first hes hseen rfl hclean, ?_, ?_⟩
  · exact fun names loc access content hseen _ hnot => absurd (hutf8 _ _ _ hseen) hnot
  · exact fun names names' loc loc' access access' content content' hseen _ hnot => absurd (hutf8 _ _ _ hseen) hnot

/-- A listing that the agent can make is one that succeeds. -/
theorem listed_of_entries (crypto : Crypto) (config : ArmadaConfig) (made : Made) (endpoint : AgentEndpoint)
    {node : Node} {es : List FileEntry} (hpath : bytes path ≠ []) (hstat : osStat t cwd (bytes path) = .ok node)
    (hdir : node.isDirectory = true) (hes : listEntries t cwd (bytes path) recursive = .ok es) :
    Listed engine t cwd path recursive (es.map fun e => infoFor path (entryRead engine e)) := by
  obtain ⟨hquery, hrecursive⟩ := query_listFiles endpoint path recursive
  have hflag : decide ((received (AgentChannel.listFilesRequest endpoint path recursive)).query "recursive" =
    bytes "true") =
      recursive := by
    rw [Bool.eq_iff_iff, decide_eq_true_iff]
    exact hrecursive
  have hresponse : Agent.listFiles t cwd (received (AgentChannel.listFilesRequest endpoint path recursive)) =
      writeEntries es := by
    have hparam : pathParam (received (AgentChannel.listFilesRequest endpoint path recursive)) = .ok (bytes path) := by
      unfold pathParam
      rw [hquery, if_neg hpath]
    unfold Agent.listFiles
    rw [hparam]
    simp only [bind, Except.bind]
    rw [hstat]
    dsimp only
    rw [if_neg (by simpa using hdir), hflag, hes]
    rfl
  have harrives := arrives_whole (writeEntries es)
  refine ⟨crypto, config, 0, made, endpoint, endpoint, _, [⟨.turn, ()⟩], by rwa [hresponse], ?_⟩
  rw [listFiles_arrived harrives]
  have hopen : Leads (fun _ _ => True) (await (openAgent crypto config 0 made)) (reachedAt endpoint) [⟨.turn, ()⟩]
      (reachedAt endpoint) (.ok endpoint) := leads_openAgent rfl trivial
  have hreply : Gives (do Prog.ofExcept (← ask (.agent endpoint (.listFiles path recursive)))
      : M ListFilesOutcome) [⟨.agent endpoint (.listFiles path recursive), .ok (.ok (es.map (entryRead engine)))⟩]
        (.ok (.ok (es.map (entryRead engine)))) :=
    gives_asked.mpr ⟨.ok (.ok (es.map (entryRead engine))), [], rfl, gives_ofExcept.mpr ⟨rfl, rfl⟩⟩
  unfold Adapter.listFiles
  refine gives_bind.mpr (.inr ⟨.ok (.ok (es.map (entryRead engine))), _, [], (List.append_nil _).symm,
    gives_attempt.mpr ⟨_, rfl, gives_bind.mpr (.inr ⟨endpoint, _, _, rfl, hopen.gives, hreply⟩)⟩, ?_⟩)
  have hinfos : toFileInfos (es.map (entryRead engine)) path true = es.map fun e =>
    infoFor path (entryRead engine e) := by
    rw [toFileInfos_all, List.map_map]
    rfl
  rw [← hinfos]
  exact .done _

end

end

/-- The listing of `/w`. -/
def entriesOfW : List FileEntry :=
  [{ path := bytes "/w/a", type := "file", size := 1 }, { path := bytes "/w/d", type := "directory", size := 4096 },
   { path := bytes "/w/d/b", type := "file", size := 0 }]

/-- The two files in `/w` can be read back. -/
theorem reads_back_w : ReadsBack laconic linkedTree [] "/w" true := by
  have hes : listEntries linkedTree [] (bytes "/w") true = .ok entriesOfW := by decide +kernel
  have hlisted : Listed laconic linkedTree [] "/w" true (entriesOfW.map fun e => infoFor "/w" (entryRead laconic e)) :=
    listed_of_entries digests mappedConfig { id := "s", options := none, attachOnly := false } agentAt (by decide)
      (by decide +kernel : osStat linkedTree [] (bytes "/w") = .ok (.directory everyone 4096)) rfl hes
  have hmem : ∀ names loc node, Seen linkedTree [] (bytes "/w") true names loc node →
      fileEntry (under (bytes "/w") names) node ∈ entriesOfW :=
    fun names loc node hseen => ((mem_listing hes).2 _).mpr ⟨names, loc, node, hseen, rfl⟩
  refine (reads_back_iff hlisted).2.mpr (returns_of_clean hlisted ?_ ?_ (by decide +kernel))
  · intro names loc access content hseen _
    have hsizes : ∀ size ∈ entriesOfW.map FileEntry.size, size ≤ 3 * (maxStringLength / 4) := by decide
    exact .inl (hsizes _ (List.mem_map_of_mem (hmem names loc _ hseen)))
  · intro names loc node hseen
    have htexts : ∀ p ∈ entriesOfW.map FileEntry.path, Utf8.decodeFatal p ≠ none := by decide
    exact Utf8.wellFormed_iff.mpr (htexts _ (List.mem_map_of_mem (hmem names loc node hseen)))

/-- A file in `/w` whose name is no text. -/
def bareNameTree : FileTree where
  nodes :=
    [([], .directory everyone 4096), ([bytes "w"], .directory everyone 4096),
      ([bytes "w", [0xff]], .file everyone [120])]
  once := by decide +kernel
  root := by decide +kernel
  parent := by decide +kernel
  valid := by decide +kernel

/-- It is listed under a path that leads nowhere. -/
theorem bare_name_lost : ¬ ∀ (engine : Engine) (t : FileTree) (cwd : Loc) (path : String) (recursive : Bool)
    (files : List FileInfo), Listed engine t cwd path recursive files → ReadsBack engine t cwd path recursive := by
  intro h
  have hes : listEntries bareNameTree [] (bytes "/w") false =
    .ok [{ path := bytes "/w/" ++ [0xff], type := "file", size := 1 }] := by
    decide +kernel
  have hroot : bareNameTree.resolve true [] (bytes "/w") = .ok [bytes "w"] := by decide +kernel
  have hfile : bareNameTree.get ([bytes "w"] ++ [[0xff]]) = some (.file everyone [120]) := by decide +kernel
  have hback := h laconic bareNameTree [] "/w" false _ (listed_of_entries digests mappedConfig
    { id := "s", options := none, attachOnly := false } agentAt (by decide)
    (by decide +kernel : osStat bareNameTree [] (bytes "/w") = .ok (.directory everyone 4096)) rfl hes)
  have hread := (hback.reads _ _ _ _ (.first hroot hfile nofun) rfl).1
  have hlost : osReadFile bareNameTree [] (bytes (listedPath (under (bytes "/w") [[0xff]]))) ≠
      .ok ([bytes "w"] ++ [[0xff]], [120]) := by decide +kernel
  exact hlost hread

end ComputeArmada.Wire
