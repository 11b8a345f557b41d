import ComputeArmada.Lib.Tree

/-!
# Inodes

A file system as the calls on descriptors see it, where other processes may change everything between two calls.

* `Inode`, `FileSystem` : nodes by number, and what the entries of a directory lead to;
* `openAt` : `openat` of one name without a link being followed; `read` : of a file, from an offset;
* `Leads` : names that were looked up one after the other, each in the directory found before;
* `Absent` : one of them was not there;
* `Pieces` : a file read to its end (`Pieces.byte`, `Pieces.whole`).
-/

open Paths

inductive Inode
  /-- What `fstat` says of its size need not be the length of its content. -/
  | file (access : Access) (size : Nat) (content : List UInt8)
  | directory (access : Access) (entries : Path → Option Nat)
  | symlink (target : Path)
  /-- A pipe or a device, say, or a socket, which cannot be opened. -/
  | other (opens : Bool)

namespace Inode

def isDirectory : Inode → Bool
  | directory _ _ => true
  | _ => false

def isSymlink : Inode → Bool
  | symlink _ => true
  | _ => false

/-- The content of a regular file. -/
def content? : Inode → Option (List UInt8)
  | file _ _ content => some content
  | _ => none

/-- What a name leads to in a directory. -/
def lookup? : Inode → Path → Option (Option Nat)
  | directory _ entries, name => some (entries name)
  | _, _ => none

end Inode

structure FileSystem where
  root : Nat
  inode : Nat → Inode

namespace FileSystem

def maxName : Nat := 255

/-- `openat` of one name for reading, with `O_NOFOLLOW`, and `O_DIRECTORY` where `directory` says so. -/
def openAt (fs : FileSystem) (dir : Nat) (name : Path) (directory : Bool) : Except Errno Nat :=
  if 0 ∈ name then .error .inval
  else
    match fs.inode dir with
    | .directory access entries =>
      if ¬ access.search then .error .acces
      else if maxName < name.length then .error .nametoolong
      else
        match entries name with
        | none => .error .noent
        | some next =>
          match fs.inode next with
          | .symlink _ => .error (if directory then .notdir else .loop)
          | .directory access _ => if access.read then .ok next else .error .acces
          | .file access _ _ =>
            if directory then .error .notdir else if access.read then .ok next else .error .acces
          | .other opens => if directory then .error .notdir else if opens then .ok next else .error .nxio
    | _ => .error .notdir

/-- At most `count` bytes of an open file. An open inode stays of its kind, so that the other kinds are not met. -/
def read (fs : FileSystem) (file offset count : Nat) : Except Errno (List UInt8) :=
  match fs.inode file with
  | .file _ _ content => .ok ((content.drop offset).take count)
  | .directory _ _ => .error .isdir
  | _ => .error .inval

/-! ## Looking names up -/

variable {fs : FileSystem} {dir next file offset count : Nat} {name : Path} {directory : Bool} {data : List UInt8}

theorem openAt_ok (h : fs.openAt dir name directory = .ok next) :
    (fs.inode dir).lookup? name = some (some next) ∧ (fs.inode next).isSymlink = false ∧
      (directory = true → (fs.inode next).isDirectory = true) := by
  unfold openAt at h
  split at h
  · cases h
  split at h
  · rename_i access entries hdir
    split at h
    · cases h
    split at h
    · cases h
    split at h
    · cases h
    rename_i found hfound
    have hentry : (fs.inode dir).lookup? name = some (some found) := by rw [hdir, ← hfound]; rfl
    split at h
    · cases h
    · rename_i hnode
      split at h
      · obtain rfl := Except.ok.inj h
        exact ⟨hentry, by rw [hnode]; rfl, fun _ => by rw [hnode]; rfl⟩
      · cases h
    · rename_i hnode
      split at h
      · cases h
      rename_i hdirectory
      split at h
      · obtain rfl := Except.ok.inj h
        exact ⟨hentry, by rw [hnode]; rfl, fun h => absurd h hdirectory⟩
      · cases h
    · rename_i hnode
      split at h
      · cases h
      rename_i hdirectory
      split at h
      · obtain rfl := Except.ok.inj h
        exact ⟨hentry, by rw [hnode]; rfl, fun h => absurd h hdirectory⟩
      · cases h
  · cases h

/-- Only a name that is absent is told to be so. -/
theorem openAt_noent (h : fs.openAt dir name directory = .error .noent) : (fs.inode dir).lookup? name = some none := by
  unfold openAt at h
  split at h
  · cases h
  split at h
  · rename_i access entries hdir
    split at h
    · cases h
    split at h
    · cases h
    split at h
    · rename_i habsent
      rw [hdir, ← habsent]
      rfl
    split at h
    · split at h <;> cases h
    · split at h <;> cases h
    · split at h
      · cases h
      split at h <;> cases h
    · split at h
      · cases h
      split at h <;> cases h
  · cases h

theorem read_ok (h : fs.read file offset count = .ok data) :
    ∃ content, (fs.inode file).content? = some content ∧ data = (content.drop offset).take count := by
  unfold read at h
  split at h
  · rename_i hfile
    exact ⟨_, by rw [hfile]; rfl, (Except.ok.inj h).symm⟩
  · cases h
  · cases h

theorem read_ne_noent : fs.read file offset count ≠ .error .noent := by
  intro h
  unfold read at h
  split at h <;> cases h

end FileSystem

/-! ## While others change it -/

section
variable (fs : Nat → FileSystem)

/-- From a directory names are looked up one after the other, the first one at moment `k`: each in the directory found
before, where it leads to no link, and to a directory if others follow. -/
inductive Leads : (k dir : Nat) → List Path → Nat → Prop
  | nil (k dir : Nat) : Leads k dir [] dir
  | cons {k dir next file : Nat} {name : Path} {names : List Path}
      (hentry : ((fs k).inode dir).lookup? name = some (some next))
      (hlink : ((fs k).inode next).isSymlink = false)
      (hnext : names ≠ [] → ((fs k).inode next).isDirectory = true)
      (h : Leads (k + 1) next names file) : Leads k dir (name :: names) file

/-- One of the names is absent from the directory that those before it lead to. -/
def Absent (k dir : Nat) (names : List Path) : Prop :=
  ∃ before name after parent, names = before ++ name :: after ∧ Leads fs k dir before parent ∧
    ((fs (k + before.length)).inode parent).lookup? name = some none

/-- A file is read from an offset to its end, a piece at each moment from `k` to `last`. -/
inductive Pieces (file : Nat) : (k offset : Nat) → List UInt8 → (last : Nat) → Prop
  | eof {k offset : Nat} {content : List UInt8} (hfile : ((fs k).inode file).content? = some content)
      (hend : content.length ≤ offset) : Pieces file k offset [] k
  | more {k offset last : Nat} {content piece data : List UInt8}
      (hfile : ((fs k).inode file).content? = some content) (hpiece : piece <+: content.drop offset)
      (hne : piece ≠ []) (h : Pieces file (k + 1) (offset + piece.length) data last) :
      Pieces file k offset (piece ++ data) last

end

variable {fs : Nat → FileSystem} {file k offset last : Nat} {data : List UInt8}

theorem Absent.head {dir : Nat} {name : Path} (h : ((fs k).inode dir).lookup? name = some none) (names : List Path) :
    Absent fs k dir (name :: names) := ⟨[], name, names, dir, rfl, .nil k dir, h⟩

theorem Absent.tail {dir next : Nat} {name : Path} {names : List Path}
    (hentry : ((fs k).inode dir).lookup? name = some (some next)) (hlink : ((fs k).inode next).isSymlink = false)
    (hnext : names ≠ [] → ((fs k).inode next).isDirectory = true) (h : Absent fs (k + 1) next names) :
    Absent fs k dir (name :: names) := by
  obtain ⟨before, last, after, parent, rfl, hleads, habsent⟩ := h
  refine ⟨name :: before, last, after, parent, rfl, .cons hentry hlink (fun _ => hnext (by simp)) hleads, ?_⟩
  rw [List.length_cons, Nat.add_comm before.length, ← Nat.add_assoc]
  exact habsent

theorem Pieces.le (h : Pieces fs file k offset data last) : k ≤ last := by
  induction h with
  | eof _ _ => exact le_rfl
  | more _ _ _ _ ih => omega

/-- Every byte is one of the file, at the moment at which it was read. -/
theorem Pieces.byte (h : Pieces fs file k offset data last) {i : Nat} (hi : i < data.length) :
    ∃ j content, k ≤ j ∧ j ≤ last ∧ ((fs j).inode file).content? = some content ∧
      content[offset + i]? = data[i]? := by
  induction h generalizing i with
  | eof _ _ => exact absurd hi (Nat.not_lt_zero i)
  | @more k offset last content piece data hfile hpiece _ h ih =>
    have hle := h.le
    by_cases hfirst : i < piece.length
    · obtain ⟨rest, hrest⟩ := hpiece
      refine ⟨k, content, le_rfl, by omega, hfile, ?_⟩
      rw [← List.getElem?_drop, ← hrest, List.getElem?_append_left hfirst, List.getElem?_append_left hfirst]
    · rw [List.length_append] at hi
      obtain ⟨j, content', hkj, hlast, hfile', hbyte⟩ := @ih (i - piece.length) (by omega)
      refine ⟨j, content', by omega, hlast, hfile', ?_⟩
      rw [List.getElem?_append_right (by omega), ← hbyte]
      congr 1
      omega

/-- **A file that does not change is read as it is.** -/
theorem Pieces.whole (h : Pieces fs file k offset data last) {content : List UInt8}
    (hsame : ∀ j, k ≤ j → j ≤ last → ((fs j).inode file).content? = some content) : data = content.drop offset := by
  induction h with
  | eof hfile hend =>
    obtain rfl := Option.some.inj (hfile.symm.trans (hsame _ le_rfl le_rfl))
    exact (List.drop_eq_nil_of_le hend).symm
  | more hfile hpiece _ h ih =>
    have hle := h.le
    obtain rfl := Option.some.inj (hfile.symm.trans (hsame _ le_rfl (by omega)))
    obtain ⟨rest, hrest⟩ := hpiece
    rw [ih fun j hkj => hsame j (by omega), ← List.drop_drop, ← hrest, List.drop_left]
