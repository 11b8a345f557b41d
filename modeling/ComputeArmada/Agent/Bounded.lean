import ComputeArmada.Agent.Files
import ComputeArmada.Agent.Machine
import ComputeArmada.Lib.Inodes

/-!
# Bounded reads

`GET /files/bounded` (`agent/files.go`, `files_linux.go`), over a file system that may change between any two calls of
the read.

* `Moment`, `Schedule` : the file system at each call, and what else the answer depends on;
* `openNoFollow`, `readBounded`, `readFileBounded` : the walk, the read, and the handler;
* `BoundedFile` : where the bytes come from; `readBounded_ok` : the bytes that are read do;
* `readFileBounded_cases` : everything else is refused, `not_found` only for a name that was absent.
-/

namespace ComputeArmada.Agent
open Paths

/-! ## Parameters -/

def isDigit (b : UInt8) : Bool := 48 ≤ b ∧ b ≤ 57

/-- `strconv.ParseInt(s, 10, 64)`. -/
def parseInt (s : List UInt8) : Option Int :=
  let negative := s.head? = some 45
  let digits := if s.head? = some 43 ∨ s.head? = some 45 then s.tail else s
  let n := digits.foldl (fun (n : Nat) b => 10 * n + (b.toNat - 48)) 0
  if digits = [] ∨ ¬ digits.all isDigit then none
  else if negative then if n ≤ 2 ^ 63 then some (-(n : Int)) else none
  else if n < 2 ^ 63 then some n else none

def maxSafeInteger : Int := 2 ^ 53 - 1

def maxTimeoutMs : Int64 := 2 ^ 31 - 1

def maxBoundedReads : Nat := 64

/-- A parameter that is an integer of a range. -/
def intParam (r : Request) (key : String) (least most : Int) (message : String) : Except Response Nat :=
  match parseInt (r.query key) with
  | some n =>
    if n < least ∨ most < n then .error (writeCodedError 400 "read_failed" (bytes message)) else .ok n.toNat
  | none => .error (writeCodedError 400 "read_failed" (bytes message))

def maxBytesParam (r : Request) : Except Response Nat :=
  intParam r "maxBytes" 0 maxSafeInteger "maxBytes must be an integer from 0 to 2^53-1"

def timeoutParam (r : Request) : Except Response Nat :=
  intParam r "timeoutMs" 1 maxTimeoutMs.toInt "timeoutMs must be an integer from 1 to 2^31-1"

/-- The path is absolute, names a file and has no `..`. -/
def boundedPath (path : Path) : Bool :=
  rooted path ∧ dotdot ∉ split path ∧ (split path).getLast? ≠ some [] ∧ (split path).getLast? ≠ some dot

/-! ### Numbers as they are written -/

theorem digit_byte {c : Char} (h : c.isDigit = true) :
    String.utf8EncodeChar c = [UInt8.ofNat c.toNat] ∧ 48 ≤ c.toNat ∧ c.toNat ≤ 57 := by
  have hall : ∀ n < 58, 48 ≤ n → String.utf8EncodeChar (Char.ofNat n) = [UInt8.ofNat n] := by decide
  have hrange : 48 ≤ c.toNat ∧ c.toNat ≤ 57 := by
    simpa [Char.isDigit, UInt32.le_iff_toNat_le] using h
  have hbyte := hall c.toNat (by omega) hrange.1
  rw [Char.ofNat_toNat] at hbyte
  exact ⟨hbyte, hrange⟩

theorem encode_digits {cs : List Char} (h : ∀ c ∈ cs, c.isDigit = true) :
    Utf8.encode cs = cs.map fun c => UInt8.ofNat c.toNat := by
  induction cs with
  | nil => rfl
  | cons c cs ih =>
    obtain ⟨hc, hcs⟩ := List.forall_mem_cons.mp h
    rw [Utf8.encode_cons, (digit_byte hc).1, ih hcs]
    rfl

theorem foldl_digits {cs : List Char} (h : ∀ c ∈ cs, c.isDigit = true) (n : Nat) :
    (Utf8.encode cs).foldl (fun (n : Nat) b => 10 * n + (b.toNat - 48)) n = Nat.ofDigitChars 10 cs n := by
  rw [encode_digits h, Nat.ofDigitChars_eq_foldl, List.foldl_map]
  refine List.foldl_ext _ _ _ fun n c hc => ?_
  obtain ⟨-, hrange⟩ := digit_byte (h c hc)
  rw [Utf8.toNat_ofNat (by omega)]
  rfl

theorem digits_toString (n : Nat) : ∀ c ∈ (toString n).toList, c.isDigit = true := by
  intro c hc
  rw [Nat.toString_eq_repr, Nat.toList_repr] at hc
  exact Nat.isDigit_of_mem_toDigits (by decide) (le_refl 10) hc

theorem parseInt_toString {n : Nat} (h : n < 2 ^ 63) : parseInt (bytes (toString n)) = some (n : Int) := by
  have hdigits := digits_toString n
  have hbytes := encode_digits hdigits
  have hne : (toString n).toList ≠ [] := by
    rw [Nat.toString_eq_repr, Nat.toList_repr]
    exact Nat.toDigits_ne_nil
  have hall : ∀ b ∈ bytes (toString n), isDigit b = true := by
    intro b hb
    rw [bytes, hbytes] at hb
    obtain ⟨c, hc, rfl⟩ := List.mem_map.mp hb
    obtain ⟨-, hrange⟩ := digit_byte (hdigits c hc)
    unfold isDigit
    rw [decide_eq_true_eq, UInt8.le_iff_toNat_le, UInt8.le_iff_toNat_le, Utf8.toNat_ofNat (by omega)]
    exact hrange
  have hsign : ∀ b : UInt8, isDigit b = false → (bytes (toString n)).head? ≠ some b := by
    intro b hb hhead
    rw [hall b (List.mem_of_head? hhead)] at hb
    cases hb
  have hempty : bytes (toString n) ≠ [] := by
    rw [bytes, hbytes]
    exact fun hnil => hne (List.map_eq_nil_iff.mp hnil)
  have hvalue : (bytes (toString n)).foldl (fun (n : Nat) b => 10 * n + (b.toNat - 48)) 0 = n := by
    rw [bytes, foldl_digits hdigits, Nat.toString_eq_repr, Nat.toList_repr, Nat.ofDigitChars_ten_toDigits]
  have hunsigned : (if (bytes (toString n)).head? = some 43 ∨ (bytes (toString n)).head? = some 45 then
      (bytes (toString n)).tail else bytes (toString n)) = bytes (toString n) :=
    if_neg (not_or.mpr ⟨hsign 43 (by decide), hsign 45 (by decide)⟩)
  have hparsed : ¬ (bytes (toString n) = [] ∨ ¬ (bytes (toString n)).all isDigit = true) :=
    not_or.mpr ⟨hempty, not_not.mpr (List.all_eq_true.mpr hall)⟩
  unfold parseInt
  dsimp only
  rw [hunsigned, hvalue, if_neg hparsed, if_neg (hsign 45 (by decide)), if_pos h]

theorem intParam_toString {r : Request} {key : String} {n : Nat} {least most : Int} (message : String)
    (hquery : r.query key = bytes (toString n)) (hleast : least ≤ n) (hmost : n ≤ most) (h : n < 2 ^ 63) :
    intParam r key least most message = .ok n := by
  unfold intParam
  rw [hquery, parseInt_toString h]
  dsimp only
  rw [if_neg (by omega), Int.toNat_natCast]

/-! ## The file system at each call -/

/-- What fails a call whatever the file system holds. -/
inductive Fault
  | intr | io | mfile | nomem
  deriving DecidableEq

inductive CallError
  | errno (err : Errno)
  | fault (fault : Fault)
  deriving DecidableEq

def CallError.text : CallError → String
  | .errno err => errnoText err
  | .fault .intr => "interrupted system call"
  | .fault .io => "input/output error"
  | .fault .mfile => "too many open files"
  | .fault .nomem => "cannot allocate memory"

/-- One call of the read. -/
structure Moment where
  fs : FileSystem
  fault : Option Fault
  /-- How many bytes a read gives at most: the room in the buffer, or fewer. -/
  count : Nat
  pos : 0 < count
  /-- What `ctx.Err()` says before a read. -/
  ended : Option CtxErr

def Moment.call {α : Type} (m : Moment) (f : FileSystem → Except Errno α) : Except CallError α :=
  match m.fault with
  | some fault => .error (.fault fault)
  | none => (f m.fs).mapError .errno

structure Schedule where
  /-- The bounded reads that hold a slot when the request arrives. -/
  running : Nat
  calls : Nat → Moment
  /-- How the context ends before the read is done, if it does. -/
  first : Option CtxErr

/-- What a bounded read fails with. -/
inductive ReadError
  | call (op : String) (path : Path) (err : CallError)
  | notRegular (path : Path)
  | over (path : Path) (size maxBytes : Nat)
  | grew (path : Path) (maxBytes : Nat)
  | ctx (err : CtxErr)
  | deadline (path : Path) (timeoutMs : Nat)
  | gone (path : Path)
  deriving DecidableEq

/-- `err.Error()`. -/
def ReadError.text : ReadError → List UInt8
  | .call op path err => bytes (op ++ " ") ++ path ++ bytes (": " ++ err.text)
  | .notRegular path => path ++ bytes " is not a regular file"
  | .over path size maxBytes =>
    path ++ bytes (" is " ++ toString size ++ " bytes, over the budget of " ++ toString maxBytes)
  | .grew path maxBytes =>
    path ++ bytes (" grew past the budget of " ++ toString maxBytes ++ " bytes while being read")
  | .ctx .canceled => bytes "context canceled"
  | .ctx .deadlineExceeded => bytes "context deadline exceeded"
  | .deadline path timeoutMs =>
    bytes "reading " ++ path ++ bytes (": deadline of " ++ toString timeoutMs ++ "ms passed")
  | .gone path => bytes "reading " ++ path ++ bytes ": the caller went away"

/-- `errors.Is(err, fs.ErrNotExist)`. -/
def ReadError.notExist : ReadError → Bool
  | .call _ _ (.errno .noent) => true
  | _ => false

/-! ## The read -/

/-- The names that are opened one after the other. -/
def names (path : Path) : List Path := (split path).filter fun c => c ≠ [] ∧ c ≠ dot

section
variable (calls : Nat → Moment) (path : Path)

/-- The calls of `openNoFollow` from the directory it has opened. -/
def openNames : (k dir : Nat) → List Path → Except ReadError Nat
  | _, dir, [] => .ok dir
  | k, dir, name :: rest =>
    match (calls k).call fun fs => fs.openAt dir name (rest ≠ []) with
    | .error err => .error (.call "open" path err)
    | .ok next => openNames (k + 1) next rest

def openNoFollow : Except ReadError Nat :=
  match (calls 0).call fun fs => .ok fs.root with
  | .error err => .error (.call "open" [slash] err)
  | .ok root => openNames calls path 1 root (names path)

/-- `data.ReadFrom(io.LimitReader(contextReader{ctx, file}, limit))`, after the bytes that it has read. Every turn but
the last reads a byte, so that there are `limit` of them at most. -/
def readFrom (file : Nat) : (turns limit k : Nat) → List UInt8 → Except ReadError (List UInt8)
  | 0, _, _, data => .ok data
  | turns + 1, limit, k, data =>
    if limit = 0 then .ok data
    else
      match (calls k).ended with
      | some err => .error (.ctx err)
      | none =>
        match (calls k).call fun fs => fs.read file data.length (min (calls k).count limit) with
        | .error err => .error (.call "read" path err)
        | .ok piece =>
          if piece = [] then .ok data
          else readFrom file turns (limit - piece.length) (k + 1) (data ++ piece)

/-- The call that asks what has been opened. -/
def statCall : Nat := (names path).length + 1

def readBounded (maxBytes : Nat) : Except ReadError (List UInt8) := do
  let file ← openNoFollow calls path
  match (calls (statCall path)).call fun fs => .ok (fs.inode file) with
  | .error err => throw (.call "stat" path err)
  | .ok (.file _ size _) =>
    if maxBytes < size then throw (.over path size maxBytes)
    let data ← readFrom calls path file (maxBytes + 1) (maxBytes + 1) (statCall path + 1) []
    if maxBytes < data.length then throw (.grew path maxBytes)
    return data
  | .ok _ => throw (.notRegular path)

end

/-- What the handler has when it answers: the read, or that its context has ended. -/
def Schedule.read (s : Schedule) (path : Path) (maxBytes timeoutMs : Nat) : Except ReadError (List UInt8) :=
  match s.first with
  | some .deadlineExceeded => .error (.deadline path timeoutMs)
  | some .canceled => .error (.gone path)
  | none => readBounded s.calls path maxBytes

def readFileBounded (s : Schedule) (r : Request) : Response := answer do
  let path ← pathParam r
  let maxBytes ← maxBytesParam r
  let timeoutMs ← timeoutParam r
  if ¬ boundedPath path then
    throw (writeCodedError 400 "read_failed" (bytes "path must be absolute, name a file and have no ..: " ++ path))
  if maxBoundedReads ≤ s.running then
    throw (writeCodedError 503 "read_failed" (bytes (toString maxBoundedReads ++ " bounded reads are already running")))
  match s.read path maxBytes timeoutMs with
  | .error err =>
    if err.notExist then throw (writeCodedError 404 "not_found" (bytes "no such file: " ++ path))
    throw (writeCodedError 500 "read_failed" err.text)
  | .ok data => return { status := 200, body := data }

/-! ## Where the bytes come from -/

/-- The file system at each call. -/
def filesAt (calls : Nat → Moment) (k : Nat) : FileSystem := (calls k).fs

/-- The bytes are those of one regular file, which the names of a rooted path without `..` led to from the root: the
root was opened at call `0`, the names at the calls after it, and the file is read up to call `last`. -/
structure BoundedFile (calls : Nat → Moment) (path : Path) (maxBytes : Nat) (data : List UInt8) (file last : Nat) :
    Prop where
  rooted : rooted path = true
  up : dotdot ∉ split path
  leads : Leads (filesAt calls) 1 (filesAt calls 0).root (names path) file
  regular : ∃ content, ((filesAt calls (statCall path)).inode file).content? = some content
  pieces : Pieces (filesAt calls) file (statCall path + 1) 0 data last
  bound : data.length ≤ maxBytes

section
variable {calls : Nat → Moment} {path : Path} {maxBytes : Nat} {data : List UInt8} {file last : Nat}

theorem BoundedFile.byte (h : BoundedFile calls path maxBytes data file last) {i : Nat} (hi : i < data.length) :
    ∃ j content, statCall path < j ∧ j ≤ last ∧ ((filesAt calls j).inode file).content? = some content ∧
      content[i]? = data[i]? := by
  obtain ⟨j, content, hj, hlast, hcontent, hbyte⟩ := h.pieces.byte hi
  rw [Nat.zero_add] at hbyte
  exact ⟨j, content, hj, hlast, hcontent, hbyte⟩

theorem BoundedFile.whole (h : BoundedFile calls path maxBytes data file last) {content : List UInt8}
    (hsame : ∀ j, statCall path ≤ j → j ≤ last → ((filesAt calls j).inode file).content? = some content) :
    data = content :=
  h.pieces.whole fun j hj => hsame j (by omega)

theorem call_ok {α : Type} {m : Moment} {f : FileSystem → Except Errno α} {x : α} (h : m.call f = .ok x) :
    f m.fs = .ok x := by
  unfold Moment.call at h
  split at h
  · cases h
  · cases hf : f m.fs with
    | error err => rw [hf] at h; cases h
    | ok y => rw [hf] at h; exact congrArg _ (Except.ok.inj h)

theorem call_noent {α : Type} {m : Moment} {f : FileSystem → Except Errno α}
    (h : m.call f = .error (.errno .noent)) : f m.fs = .error .noent := by
  unfold Moment.call at h
  split at h
  · cases h
  · cases hf : f m.fs with
    | error err => rw [hf] at h; exact congrArg _ (CallError.errno.inj (Except.error.inj h))
    | ok y => rw [hf] at h; cases h

theorem noent_of_notExist {op : String} {err : CallError} (h : (ReadError.call op path err).notExist = true) :
    err = .errno .noent := by
  unfold ReadError.notExist at h
  split at h
  · rename_i heq
    exact (ReadError.call.inj heq).2.2
  · cases h

/-- What has been opened is where the names lead. -/
theorem openNames_ok {k dir : Nat} {rest : List Path} (h : openNames calls path k dir rest = .ok file) :
    Leads (filesAt calls) k dir rest file := by
  induction rest generalizing k dir with
  | nil =>
    obtain rfl := Except.ok.inj h
    exact .nil k dir
  | cons name rest ih =>
    rw [openNames] at h
    split at h
    · cases h
    · rename_i next hnext
      obtain ⟨hentry, hlink, hdirectory⟩ := FileSystem.openAt_ok (call_ok hnext)
      exact .cons hentry hlink (fun hne => hdirectory (by simpa using hne)) (ih h)

theorem openNames_notExist {k dir : Nat} {rest : List Path} {err : ReadError}
    (h : openNames calls path k dir rest = .error err) (herr : err.notExist = true) :
    Absent (filesAt calls) k dir rest := by
  induction rest generalizing k dir with
  | nil => cases h
  | cons name rest ih =>
    rw [openNames] at h
    split at h
    · rename_i hcall
      obtain rfl := Except.error.inj h
      rw [noent_of_notExist herr] at hcall
      exact .head (FileSystem.openAt_noent (call_noent hcall)) rest
    · rename_i next hnext
      obtain ⟨hentry, hlink, hdirectory⟩ := FileSystem.openAt_ok (call_ok hnext)
      exact .tail hentry hlink (fun hne => hdirectory (by simpa using hne)) (ih h)

theorem openNoFollow_ok (h : openNoFollow calls path = .ok file) :
    Leads (filesAt calls) 1 (filesAt calls 0).root (names path) file := by
  unfold openNoFollow at h
  split at h
  · cases h
  · rename_i root hcall
    have hroot := call_ok hcall
    obtain rfl : (calls 0).fs.root = root := Except.ok.inj hroot
    exact openNames_ok h

theorem openNoFollow_notExist {err : ReadError} (h : openNoFollow calls path = .error err)
    (herr : err.notExist = true) : Absent (filesAt calls) 1 (filesAt calls 0).root (names path) := by
  unfold openNoFollow at h
  split at h
  · rename_i hcall
    obtain rfl := Except.error.inj h
    rw [noent_of_notExist herr] at hcall
    cases call_noent hcall
  · rename_i root hcall
    have hroot := call_ok hcall
    obtain rfl : (calls 0).fs.root = root := Except.ok.inj hroot
    exact openNames_notExist h herr

/-- A read that stays below its limit has come to the end of the file. -/
theorem readFrom_ok {turns limit k : Nat} {before : List UInt8} (hturns : limit ≤ turns)
    (h : readFrom calls path file turns limit k before = .ok data) :
    ∃ rest, data = before ++ rest ∧
      (rest.length < limit → ∃ last, Pieces (filesAt calls) file k before.length rest last) := by
  induction turns generalizing limit k before with
  | zero =>
    obtain rfl := Except.ok.inj h
    exact ⟨[], (List.append_nil _).symm, fun hlt => absurd hlt (by omega)⟩
  | succ turns ih =>
    rw [readFrom] at h
    split at h
    · rename_i hlimit
      obtain rfl := Except.ok.inj h
      exact ⟨[], (List.append_nil _).symm, fun hlt => absurd hlt (by omega)⟩
    split at h
    · cases h
    split at h
    · cases h
    rename_i hlimit _ _ _ piece hcall
    obtain ⟨content, hcontent, hpiece⟩ := FileSystem.read_ok (call_ok hcall)
    have hpos := (calls k).pos
    split at h
    · rename_i hempty
      obtain rfl := Except.ok.inj h
      refine ⟨[], (List.append_nil _).symm, fun _ => ⟨k, .eof hcontent ?_⟩⟩
      -- at least one byte was asked for
      rw [hempty, eq_comm, List.take_eq_nil_iff, List.drop_eq_nil_iff] at hpiece
      exact hpiece.resolve_left (by omega)
    · rename_i hne
      have hlength := List.length_pos_iff.mpr hne
      obtain ⟨rest, rfl, hrest⟩ := ih (by omega) h
      refine ⟨piece ++ rest, List.append_assoc _ _ _, fun hlt => ?_⟩
      rw [List.length_append] at hlt
      obtain ⟨last, hlast⟩ := hrest (by omega)
      rw [List.length_append] at hlast
      exact ⟨last, .more hcontent (hpiece ▸ List.take_prefix _ _) hne hlast⟩

theorem readFrom_error {turns limit k : Nat} {before : List UInt8} {err : ReadError}
    (h : readFrom calls path file turns limit k before = .error err) : err.notExist = false := by
  induction turns generalizing limit k before with
  | zero => cases h
  | succ turns ih =>
    rw [readFrom] at h
    split at h
    · cases h
    split at h
    · obtain rfl := Except.error.inj h
      rfl
    split at h
    · rename_i why hcall
      obtain rfl := Except.error.inj h
      cases hexist : (ReadError.call "read" path why).notExist with
      | false => rfl
      | true =>
        rw [noent_of_notExist hexist] at hcall
        exact absurd (call_noent hcall) FileSystem.read_ne_noent
    split at h
    · cases h
    · exact ih h

theorem of_boundedPath (h : boundedPath path = true) : rooted path = true ∧ dotdot ∉ split path := by
  obtain ⟨hrooted, hup, -⟩ := of_decide_eq_true h
  exact ⟨hrooted, hup⟩

theorem readBounded_ok (hpath : boundedPath path = true) (h : readBounded calls path maxBytes = .ok data) :
    ∃ file last, BoundedFile calls path maxBytes data file last := by
  obtain ⟨hrooted, hup⟩ := of_boundedPath hpath
  unfold readBounded at h
  simp only [bind, Except.bind] at h
  split at h
  · cases h
  rename_i file hopen
  split at h
  · cases h
  · rename_i access size content hcall
    have hstat := call_ok hcall
    have hnode : (filesAt calls (statCall path)).inode file = .file access size content := Except.ok.inj hstat
    split at h
    · cases h
    dsimp only [pure, Except.pure] at h
    split at h
    · cases h
    rename_i read hread
    split at h
    · cases h
    rename_i hbound
    obtain rfl := Except.ok.inj h
    obtain ⟨rest, hrest, hpieces⟩ := readFrom_ok le_rfl hread
    obtain rfl : read = rest := hrest
    obtain ⟨last, hlast⟩ := hpieces (by omega)
    exact ⟨file, last, hrooted, hup, openNoFollow_ok hopen, ⟨content, by rw [hnode]; rfl⟩, hlast, by omega⟩
  · cases h

theorem readBounded_notExist {err : ReadError} (h : readBounded calls path maxBytes = .error err)
    (herr : err.notExist = true) : Absent (filesAt calls) 1 (filesAt calls 0).root (names path) := by
  unfold readBounded at h
  simp only [bind, Except.bind] at h
  split at h
  · rename_i hopen
    obtain rfl := Except.error.inj h
    exact openNoFollow_notExist hopen herr
  split at h
  · rename_i hcall
    obtain rfl := Except.error.inj h
    rw [noent_of_notExist herr] at hcall
    have hstat := call_noent hcall
    cases hstat
  · split at h
    · obtain rfl := Except.error.inj h
      cases herr
    dsimp only [pure, Except.pure] at h
    split at h
    · rename_i hread
      obtain rfl := Except.error.inj h
      rw [readFrom_error hread] at herr
      cases herr
    split at h
    · obtain rfl := Except.error.inj h
      cases herr
    · cases h
  · obtain rfl := Except.error.inj h
    cases herr

end

/-! ## What is answered -/

/-- An answer other than bytes, with the code that it carries. -/
def Refused (response : Response) (code : String) : Prop :=
  ∃ status message, 399 < status ∧ response = writeCodedError status code message

section
variable {s : Schedule} {r : Request}

theorem read_ok {path : Path} {maxBytes timeoutMs : Nat} {data : List UInt8} (hpath : boundedPath path = true)
    (h : s.read path maxBytes timeoutMs = .ok data) :
    ∃ file last, BoundedFile s.calls path maxBytes data file last := by
  unfold Schedule.read at h
  split at h
  · cases h
  · cases h
  · exact readBounded_ok hpath h

theorem read_notExist {path : Path} {maxBytes timeoutMs : Nat} {err : ReadError}
    (h : s.read path maxBytes timeoutMs = .error err) (herr : err.notExist = true) :
    Absent (filesAt s.calls) 1 (filesAt s.calls 0).root (names path) := by
  unfold Schedule.read at h
  split at h
  · obtain rfl := Except.error.inj h
    cases herr
  · obtain rfl := Except.error.inj h
    cases herr
  · exact readBounded_notExist h herr

theorem pathParam_cases (r : Request) :
    pathParam r = .ok (r.query "path") ∨ ∃ refused, pathParam r = .error refused ∧ Refused refused "" := by
  unfold pathParam
  split
  · exact .inr ⟨_, rfl, 400, _, by decide, rfl⟩
  · exact .inl rfl

theorem intParam_cases (r : Request) (key : String) (least most : Int) (message : String) :
    (∃ n, intParam r key least most message = .ok n) ∨
      ∃ refused, intParam r key least most message = .error refused ∧ Refused refused "read_failed" := by
  unfold intParam
  split
  · split
    · exact .inr ⟨_, rfl, 400, _, by decide, rfl⟩
    · exact .inl ⟨_, rfl⟩
  · exact .inr ⟨_, rfl, 400, _, by decide, rfl⟩

/-- **What a bounded read is answered**, whatever the file system does in between: bytes of one file within the budget,
a name that was absent, or another refusal. -/
theorem readFileBounded_cases (s : Schedule) (r : Request) :
    (∃ maxBytes data file last, maxBytesParam r = .ok maxBytes ∧
      readFileBounded s r = { status := 200, body := data } ∧
      BoundedFile s.calls (r.query "path") maxBytes data file last) ∨
    Refused (readFileBounded s r) "not_found" ∧
      Absent (filesAt s.calls) 1 (filesAt s.calls 0).root (names (r.query "path")) ∨
    ∃ code, code ≠ "not_found" ∧ Refused (readFileBounded s r) code := by
  unfold readFileBounded
  simp only [bind, Except.bind]
  rcases pathParam_cases r with hpath | ⟨refused, hpath, hrefused⟩
  · rw [hpath]
    rcases intParam_cases r _ _ _ _ with ⟨maxBytes, hmax⟩ | ⟨refused, hmax, hrefused⟩
    · rw [maxBytesParam, hmax]
      rcases intParam_cases r _ _ _ _ with ⟨timeoutMs, htimeout⟩ | ⟨refused, htimeout, hrefused⟩
      · rw [timeoutParam, htimeout]
        dsimp only
        split
        · exact .inr (.inr ⟨"read_failed", by decide, 400, _, by decide, rfl⟩)
        rename_i hbounded
        dsimp only [pure, Except.pure]
        split
        · exact .inr (.inr ⟨"read_failed", by decide, 503, _, by decide, rfl⟩)
        split
        · rename_i err hread
          split
          · rename_i herr
            exact .inr (.inl ⟨⟨404, _, by decide, rfl⟩, read_notExist hread herr⟩)
          · exact .inr (.inr ⟨"read_failed", by decide, 500, _, by decide, rfl⟩)
        · rename_i data hread
          obtain ⟨file, last, hfile⟩ := read_ok (by simpa using hbounded) hread
          exact .inl ⟨maxBytes, data, file, last, rfl, rfl, hfile⟩
      · rw [timeoutParam, htimeout]
        exact .inr (.inr ⟨"read_failed", by decide, hrefused⟩)
    · rw [maxBytesParam, hmax]
      exact .inr (.inr ⟨"read_failed", by decide, hrefused⟩)
  · rw [hpath]
    exact .inr (.inr ⟨"", by decide, hrefused⟩)

end

/-- The root holds a file `a`, of which `fstat` says that it is empty. -/
def procLike : FileSystem where
  root := 1
  inode
    | 1 => .directory { read := true, write := false, search := true } fun name => if name = [97] then some 2 else none
    | 2 => .file { read := true, write := false, search := false } 0 [104, 105]
    | _ => .other false

example : readFileBounded { running := 63, calls := fun _ => ⟨procLike, none, 1, by decide, none⟩, first := none }
    { method := "GET", path := "/files/bounded", rawQuery := bytes "path=/a&maxBytes=2&timeoutMs=1", authorization := []
      body := [] } = { status := 200, body := [104, 105] } := by decide

end ComputeArmada.Agent
