import ComputeArmada.Agent.Http
import ComputeArmada.Lib.Tree

/-!
# Files of the pod

The file endpoints of `files.go`, over the tree of the pod and the agent's working directory.

* `PathError`, `osStat`, … : the calls of `os` and `path/filepath`, as far as they are used;
* `readFile`, `writeFile`, `listFiles` : handlers; `listEntries` : both ways to list.
-/

namespace ComputeArmada.Agent
open Paths

/-! ## System calls -/

structure PathError where
  op : String
  path : Path
  err : Errno
  deriving DecidableEq

/-- The text of an error number. -/
def errnoText : Errno → String
  | .acces => "permission denied"
  | .exist => "file exists"
  | .inval => "invalid argument"
  | .isdir => "is a directory"
  | .loop => "too many levels of symbolic links"
  | .nametoolong => "file name too long"
  | .noent => "no such file or directory"
  | .notdir => "not a directory"
  | .nxio => "no such device or address"

/-- `err.Error()`. -/
def PathError.text (e : PathError) : List UInt8 := bytes (e.op ++ " ") ++ e.path ++ bytes (": " ++ errnoText e.err)

section
variable (t : FileTree) (cwd : Loc)

def osStat (path : Path) : Except PathError Node :=
  (t.status true cwd path).mapError fun err => { op := "stat", path, err }

def osLstat (path : Path) : Except PathError Node :=
  (t.status false cwd path).mapError fun err => { op := "lstat", path, err }

variable {t cwd} in
theorem osLstat_of_resolve {path : Path} {loc : Loc} {node : Node} (h : t.resolve false cwd path = .ok loc)
    (hnode : t.get loc = some node) : osLstat t cwd path = .ok node := by
  unfold osLstat
  rw [FileTree.status_of_resolve h, hnode]
  rfl

/-- `os.ReadDir`: the names and the types of what a directory holds, in the order of the names. -/
def osReadDir (path : Path) : Except PathError (List (Path × Node)) :=
  match t.resolve true cwd path with
  | .error err => .error { op := "open", path, err }
  | .ok loc =>
    match t.get loc with
    | some (.directory access _) =>
      if access.read then .ok (t.entries loc) else .error { op := "open", path, err := .acces }
    | some _ => .error { op := "open", path, err := .notdir }
    | none => .error { op := "open", path, err := .noent }

/-- `Info` of an entry that `os.ReadDir` found in a directory. -/
def dirInfo (parent name : Path) : Except PathError Node := osLstat t cwd (parent ++ slash :: name)

/-- `os.ReadFile`, and which file it was. -/
def osReadFile (path : Path) : Except PathError (Loc × List UInt8) :=
  match t.resolve true cwd path with
  | .error err => .error { op := "open", path, err }
  | .ok loc =>
    match t.get loc with
    | some (.file access content) =>
      if access.read then .ok (loc, content) else .error { op := "open", path, err := .acces }
    | some (.directory access _) =>
      if access.read then .error { op := "read", path, err := .isdir } else .error { op := "open", path, err := .acces }
    | some (.other _) => .error { op := "open", path, err := .nxio }
    | some (.symlink _) => .error { op := "open", path, err := .loop }
    | none => .error { op := "open", path, err := .noent }

/-- A node where there may be one. -/
def replace (loc : Loc) (node : Node) : Except Errno FileTree :=
  if h : t.Takes loc node then .ok (t.put loc node h) else .error .inval

/-- A new node in a directory that may be written to. -/
def create (loc : Loc) (node : Node) : Except Errno FileTree :=
  match t.get loc.dropLast with
  | some (.directory access _) => if access.write then replace t loc node else .error .acces
  | _ => .error .noent

/-- A file of mode 0644, and a directory of mode 0755, for who creates it. -/
def newFile (content : List UInt8) : Node := .file { read := true, write := true, search := false } content

def newDirectory : Node := .directory { read := true, write := true, search := true } 4096

def osMkdir (path : Path) : Except PathError FileTree :=
  let trimmed := (path.reverse.dropWhile (· = slash)).reverse
  match t.resolve false cwd (if trimmed = [] then path else trimmed) with
  | .error err => .error { op := "mkdir", path, err }
  | .ok loc =>
    match t.get loc with
    | some _ => .error { op := "mkdir", path, err := .exist }
    | none => (create t loc newDirectory).mapError fun err => { op := "mkdir", path, err }

/-- `os.WriteFile`, in a file that is there or in a new one. -/
def osWriteFile (path : Path) (content : List UInt8) : Except PathError FileTree :=
  match t.resolve true cwd path with
  | .error err => .error { op := "open", path, err }
  | .ok loc =>
    Except.mapError (fun err => { op := "open", path, err }) (match t.get loc with
      | some (.file access _) => if access.write then replace t loc (.file access content) else .error .acces
      | some (.directory _ _) => .error .isdir
      | some (.other _) => .error .nxio
      | some (.symlink _) => .error .loop
      | none => create t loc (newFile content))

end

/-- The part of a path before its last component. -/
def parentOf (path : Path) : Path := ((path.reverse.dropWhile (· = slash)).dropWhile (· ≠ slash)).reverse

theorem parentOf_length {path : Path} (h : parentOf path ≠ []) : (parentOf path).length < path.length := by
  unfold parentOf at h ⊢
  have hdrop : ∀ p : UInt8 → Bool, ∀ bs : Path, (bs.dropWhile p).length ≤ bs.length :=
    fun p bs => (List.dropWhile_sublist p).length_le
  have hend := hdrop (· = slash) path.reverse
  rw [List.length_reverse] at hend ⊢
  cases hrest : path.reverse.dropWhile (· = slash) with
  | nil => rw [hrest] at h; exact absurd rfl h
  | cons b rest =>
    rw [hrest] at hend
    -- what is left begins with no slash
    have hb : b ≠ slash := by
      have := List.head_dropWhile_not (p := fun b => decide (b = slash)) (l := path.reverse) (by rw [hrest]; simp)
      simpa [hrest] using this
    rw [List.dropWhile_cons_of_pos (by simpa using hb)]
    have := hdrop (· ≠ slash) rest
    rw [List.length_cons] at hend
    omega

/-- `os.MkdirAll`: as far as it comes, and whether that is all. -/
def osMkdirAll (cwd : Loc) (t : FileTree) (path : Path) : FileTree × Except PathError Unit :=
  match osStat t cwd path with
  | .ok info => (t, if info.isDirectory then .ok () else .error { op := "mkdir", path, err := .notdir })
  | .error _ =>
    match if _h : parentOf path = [] then (t, .ok ()) else osMkdirAll cwd t (parentOf path) with
    | (t, .error e) => (t, .error e)
    | (t, .ok ()) =>
      match osMkdir t cwd path with
      | .ok t => (t, .ok ())
      | .error e =>
        match osLstat t cwd path with
        | .ok info => (t, if info.isDirectory then .ok () else .error e)
        | .error _ => (t, .error e)
termination_by path.length
decreasing_by exact parentOf_length _h

/-- `filepath.Dir`. -/
def filepathDir (path : Path) : Path := clean (path.reverse.dropWhile (· ≠ slash)).reverse

section
variable (t : FileTree) (cwd : Loc)

/-! ## Reading and writing -/

/-- `pathParam`. -/
def pathParam (r : Request) : Except Response Path :=
  if r.query "path" = [] then .error (writeError 400 (bytes "path is required")) else .ok (r.query "path")

/-- What a handler writes. -/
def answer (response : Except Response Response) : Response :=
  match response with
  | .ok response => response
  | .error refused => refused

def readFile (r : Request) : Response := answer do
  let path ← pathParam r
  match osLstat t cwd path with
  | .error e =>
    if e.err = .noent then throw (writeCodedError 404 "not_found" (bytes "no such file: " ++ path))
    throw (writeCodedError 500 "read_failed" e.text)
  | .ok _ =>
    match osReadFile t cwd path with
    | .error e => throw (writeCodedError 500 "read_failed" e.text)
    | .ok (_, data) => return { status := 200, body := data }

def maxRequestBytes : Nat := 2 ^ 30

/-- `PUT /files`, which leaves another tree. -/
def writeFile (r : Request) : Response × FileTree :=
  match pathParam r with
  | .error refused => (refused, t)
  | .ok path =>
    if maxRequestBytes < r.body.length then
      (writeCodedError 400 "write_failed" (bytes "http: request body too large"), t)
    else
      match if filepathDir path = dot then (t, .ok ()) else osMkdirAll cwd t (filepathDir path) with
      | (t, .error e) => (writeCodedError 500 "write_failed" e.text, t)
      | (t, .ok ()) =>
        match osWriteFile t cwd path r.body with
        | .error e => (writeCodedError 500 "write_failed" e.text, t)
        | .ok t => (writeJSON (Json.Reader.objectText []), t)

/-! ## Listing -/

structure FileEntry where
  path : Path
  type : String
  size : Nat
  deriving DecidableEq

def typeName : Node → String
  | .file _ _ => "file"
  | .directory _ _ => "directory"
  | .symlink _ => "symlink"
  | .other _ => "other"

def fileEntry (path : Path) (info : Node) : FileEntry := { path, type := typeName info, size := info.size }

/-- `filepath.WalkDir` below `root`, with the function that `listEntries` gives it: no deeper than `depth`. -/
def walkDir (root : Path) : (depth : Nat) → (path : Path) → (item : Node) → (info : Except PathError Node) →
    Except PathError (List FileEntry)
  | 0, path, _, _ => .error { op := "open", path, err := .nametoolong }
  | depth + 1, path, item, info => do
    let entry ← if path = root then pure [] else do pure [fileEntry path (← info)]
    if item.isDirectory then
      let dirs ← osReadDir t cwd path
      let below ← dirs.mapM fun d => walkDir root depth (join [path, d.1]) d.2 (dirInfo t cwd path d.1)
      return entry ++ below.flatten
    else return entry

/-- How far down the tree goes. -/
def maxDepth : Nat := (t.nodes.map (·.1.length)).foldr max 0

def listEntries (root : Path) (recursive : Bool) : Except PathError (List FileEntry) := do
  if recursive then
    let info ← osLstat t cwd root
    walkDir t cwd root (maxDepth t + 2) root info (.ok info)
  else
    let found ← osReadDir t cwd root
    found.mapM fun item => do return fileEntry (join [root, item.1]) (← dirInfo t cwd root item.1)

def FileEntry.line (e : FileEntry) : List Char :=
  Json.Reader.objectText
    [("path", jsonString e.path), ("type", jsonString (bytes e.type)), ("size", (toString (e.size : Int)).toList)]

def writeEntries (entries : List FileEntry) : Response :=
  writeJSON (Json.Reader.objectText [("entries", Json.Reader.arrayText (entries.map FileEntry.line))])

def listFiles (r : Request) : Response := answer do
  let path ← pathParam r
  match osStat t cwd path with
  | .error e =>
    if e.err = .noent then
      match osLstat t cwd path with
      | .ok _ => throw (writeCodedError 409 "not_a_directory" (path ++ bytes " is not a directory"))
      | .error _ => throw (writeCodedError 404 "not_found" (bytes "no such directory: " ++ path))
    throw (writeCodedError 500 "list_failed" e.text)
  | .ok info =>
    if ¬ info.isDirectory then throw (writeCodedError 409 "not_a_directory" (path ++ bytes " is not a directory"))
    match listEntries t cwd path (r.query "recursive" = bytes "true") with
    | .error e => throw (writeCodedError 500 "list_failed" e.text)
    | .ok entries => return writeEntries entries

end

end ComputeArmada.Agent
