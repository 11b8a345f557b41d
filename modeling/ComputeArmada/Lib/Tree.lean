import Mathlib.Data.List.Induction
import Mathlib.Data.List.Lex
import Mathlib.Data.List.Sort
import ComputeArmada.Lib.Paths

/-!
# A tree of files

Directories, files, links and other nodes, each at the names that lead to it from the root.

* `FileTree` : such nodes, with every parent a directory;
* `walk` : from a directory along the components of a path; `resolve` : a path, as the system calls do;
* `walk_append`, `walk_names` : a path in two halves, and one through directories alone;
* `entries` : what a directory holds;
* `put` : another node at a location; `Extends` : a tree with more in it (`Extends.resolve`).
-/

open Paths

/-- The names on the way to a node from the root. -/
abbrev Loc := List Path

structure Access where
  read : Bool
  write : Bool
  search : Bool
  deriving DecidableEq

inductive Node
  | file (access : Access) (content : List UInt8)
  | directory (access : Access) (size : Nat)
  | symlink (target : Path)
  /-- A socket, say: nothing that can be opened as a file. There are no devices and pipes, which can. -/
  | other (size : Nat)
  deriving DecidableEq

namespace Node

def isDirectory : Node → Bool
  | directory _ _ => true
  | _ => false

def isSymlink : Node → Bool
  | symlink _ => true
  | _ => false

def size : Node → Nat
  | file _ content => content.length
  | directory _ size => size
  | symlink target => target.length
  | other size => size

/-- A directory that names can be looked up in. -/
def searchable : Node → Bool
  | directory access _ => access.search
  | _ => false

end Node

inductive Errno
  | acces | exist | inval | isdir | loop | nametoolong | noent | notdir | nxio
  deriving DecidableEq

/-- The node at a location. -/
def nodeAt (nodes : List (Loc × Node)) (loc : Loc) : Option Node := (nodes.find? (·.1 = loc)).map (·.2)

/-- Names and paths may be of any length, so no look-up fails because one is too long. -/
structure FileTree where
  nodes : List (Loc × Node)
  once : (nodes.map (·.1)).Nodup
  root : (nodeAt nodes []).any Node.isDirectory = true
  parent : ∀ p ∈ nodes, p.1 ≠ [] → (nodeAt nodes p.1.dropLast).any Node.isDirectory = true
  valid : ∀ p ∈ nodes, ∀ c ∈ p.1, Valid c

namespace FileTree

variable (t : FileTree)

def get (loc : Loc) : Option Node := nodeAt t.nodes loc

/-- From a directory along components, the links among them left to `link`. -/
def steps (follow : Bool) (link : Loc → List Path → Except Errno Loc) : Loc → List Path → Except Errno Loc
  | loc, [] => .ok loc
  | loc, c :: cs =>
    match t.get loc with
    | some (.directory access _) =>
      if c = [] then steps follow link loc cs
      else if ¬ access.search then .error .acces
      else if c = dot then steps follow link loc cs
      else if c = dotdot then steps follow link loc.dropLast cs
      else
        match t.get (loc ++ [c]) with
        | some (.symlink target) =>
          if cs = [] ∧ ¬ follow then .ok (loc ++ [c])
          else link (if rooted target then [] else loc) (split target ++ cs)
        | some _ => steps follow link (loc ++ [c]) cs
        | none => if cs = [] then .ok (loc ++ [c]) else .error .noent
    | some _ => .error .notdir
    | none => .error .noent

/-- The same with at most so many links; the last component is followed or not. -/
def walk (follow : Bool) : (links : Nat) → Loc → List Path → Except Errno Loc
  | 0 => t.steps follow fun _ _ => .error .loop
  | links + 1 => t.steps follow (walk follow links)

def maxLinks : Nat := 40

/-- Where a path leads from a working directory; there need be no node there if its parent is a directory. -/
def resolve (follow : Bool) (cwd : Loc) (path : Path) : Except Errno Loc :=
  if path = [] then .error .noent
  else if 0 ∈ path then .error .inval
  else t.walk follow maxLinks (if rooted path then [] else cwd) (split path)

/-- `stat`, and `lstat` where the last link is not followed. -/
def status (follow : Bool) (cwd : Loc) (path : Path) : Except Errno Node := do
  match t.get (← t.resolve follow cwd path) with
  | some node => return node
  | none => throw .noent

def name (loc : Loc) (p : Loc × Node) : Option (Path × Node) :=
  if p.1.dropLast = loc then p.1.getLast?.map fun c => (c, p.2) else none

/-- What a directory holds, by name. -/
def entries (loc : Loc) : List (Path × Node) :=
  (t.nodes.filterMap (name loc)).insertionSort fun p q => p.1.map UInt8.toNat ≤ q.1.map UInt8.toNat

/-! ## Nodes -/

variable {t}

theorem get_of_mem {p : Loc × Node} (h : p ∈ t.nodes) : t.get p.1 = some p.2 := by
  unfold get nodeAt
  obtain ⟨q, hq⟩ := Option.isSome_iff_exists.mp (List.find?_isSome.mpr ⟨p, h, decide_eq_true rfl⟩ :
    (t.nodes.find? (·.1 = p.1)).isSome)
  have hmem := List.mem_of_find?_eq_some hq
  have hloc : q.1 = p.1 := by simpa using List.find?_some hq
  rw [hq, Option.map_some, List.inj_on_of_nodup_map t.once hmem h hloc]

theorem mem_of_get {loc : Loc} {node : Node} (h : t.get loc = some node) : (loc, node) ∈ t.nodes := by
  obtain ⟨p, hp, rfl⟩ := Option.map_eq_some_iff.mp h
  have hloc : p.1 = loc := by simpa using List.find?_some hp
  rw [← hloc]
  exact List.mem_of_find?_eq_some hp

theorem get_parent {loc : Loc} {c : Path} (h : t.get (loc ++ [c]) ≠ none) :
    ∃ access size, t.get loc = some (.directory access size) := by
  obtain ⟨node, hnode⟩ := Option.ne_none_iff_exists'.mp h
  have hparent := t.parent _ (mem_of_get hnode) (by simp)
  dsimp only at hparent
  rw [List.dropLast_concat, Option.any_eq_true] at hparent
  obtain ⟨parent, hget, hdir⟩ := hparent
  cases parent with
  | directory access size => exact ⟨access, size, hget⟩
  | _ => cases hdir

theorem get_valid {loc : Loc} (h : t.get loc ≠ none) {c : Path} (hc : c ∈ loc) : Valid c := by
  obtain ⟨node, hnode⟩ := Option.ne_none_iff_exists'.mp h
  exact t.valid _ (mem_of_get hnode) c hc

/-- Above a node there are directories. -/
theorem get_above {loc names : Loc} (h : t.get (loc ++ names) ≠ none) (hne : names ≠ []) :
    ∃ access size, t.get loc = some (.directory access size) := by
  induction names using List.reverseRecOn with
  | nil => exact absurd rfl hne
  | append_singleton names c ih =>
    rw [← List.append_assoc] at h
    obtain ⟨access, size, hparent⟩ := get_parent h
    by_cases hnil : names = []
    · rw [hnil, List.append_nil] at hparent
      exact ⟨access, size, hparent⟩
    · exact ih (by rw [hparent]; exact Option.some_ne_none _) hnil

/-! ## What a directory holds -/

theorem mem_entries {loc : Loc} {c : Path} {node : Node} : (c, node) ∈ t.entries loc ↔
    t.get (loc ++ [c]) = some node := by
  unfold entries
  rw [List.mem_insertionSort, List.mem_filterMap]
  constructor
  · rintro ⟨p, hp, hname⟩
    unfold name at hname
    split at hname
    · rename_i hloc
      obtain ⟨d, hd, heq⟩ := Option.map_eq_some_iff.mp hname
      cases heq
      have hsplit : loc ++ [c] = p.1 := by
        rw [← hloc]
        exact List.dropLast_append_getLast? c hd
      rw [hsplit]
      exact get_of_mem hp
    · cases hname
  · intro h
    refine ⟨_, mem_of_get h, ?_⟩
    unfold name
    dsimp only
    rw [List.dropLast_concat, if_pos rfl, List.getLast?_concat, Option.map_some]

theorem nodup_entries (t : FileTree) (loc : Loc) : ((t.entries loc).map (·.1)).Nodup := by
  have hperm := (List.perm_insertionSort (fun p q => p.1.map UInt8.toNat ≤ q.1.map UInt8.toNat)
    (t.nodes.filterMap (name loc))).map (·.1)
  -- the names are read off the locations, which are different
  have hnames : (t.nodes.filterMap (name loc)).map (·.1) =
      (t.nodes.map (·.1)).filterMap fun l => if l.dropLast = loc then l.getLast? else none := by
    rw [List.map_filterMap, List.filterMap_map]
    refine List.filterMap_congr fun p _ => ?_
    unfold name
    dsimp only [Function.comp_apply]
    split
    · rw [Option.map_map]
      exact Option.map_id_fun' ▸ rfl
    · rfl
  unfold entries
  refine hperm.nodup_iff.mpr ?_
  rw [hnames]
  refine t.once.filterMap fun l l' c hl hl' => ?_
  have hsplit : ∀ l : Loc, c ∈ (if l.dropLast = loc then l.getLast? else none) → l = loc ++ [c] := by
    intro l hl
    split at hl
    · rename_i hloc
      rw [← hloc, List.dropLast_append_getLast? c hl]
    · cases hl
  rw [hsplit l hl, hsplit l' hl']

/-! ## Paths in two halves -/

section
variable {follow : Bool} {link : Loc → List Path → Except Errno Loc} {loc : Loc}

theorem status_of_resolve {cwd : Loc} {path : Path} (h : t.resolve follow cwd path = .ok loc) :
    t.status follow cwd path = (t.get loc).elim (.error .noent) .ok := by
  unfold status
  rw [h]
  dsimp only [bind, Except.bind]
  cases t.get loc <;> rfl

theorem status_of_error {cwd : Loc} {path : Path} {e : Errno} (h : t.resolve follow cwd path = .error e) :
    t.status follow cwd path = .error e := by
  unfold status
  rw [h]
  rfl

theorem steps_cons {access : Access} {size : Nat} (hloc : t.get loc = some (.directory access size))
    (hsearch : access.search = true) {c : Path} (hc : Plain c) (cs : List Path) :
    t.steps follow link loc (c :: cs) =
      match t.get (loc ++ [c]) with
      | some (.symlink target) =>
        if cs = [] ∧ ¬ follow then .ok (loc ++ [c])
        else link (if rooted target then [] else loc) (split target ++ cs)
      | some _ => t.steps follow link (loc ++ [c]) cs
      | none => if cs = [] then .ok (loc ++ [c]) else .error .noent := by
  rw [steps, hloc]
  dsimp only
  rw [if_neg hc.nonempty, if_neg (by simp [hsearch]), if_neg hc.notDot, if_neg hc.notDotdot]

/-- A path through directories that can be searched. -/
theorem steps_names {names : List Path} {node : Node} (hnode : t.get (loc ++ names) = some node)
    (hlink : follow = true → node.isSymlink = false)
    (hsearch : ∀ k < names.length, (t.get (loc ++ names.take k)).any Node.searchable = true) :
    t.steps follow link loc names = .ok (loc ++ names) := by
  induction names generalizing loc with
  | nil => rw [steps, List.append_nil]
  | cons c cs ih =>
    have hassoc : loc ++ c :: cs = loc ++ [c] ++ cs := List.append_cons loc c cs
    have hc : Valid c := get_valid (by rw [hnode]; exact Option.some_ne_none _) (by simp)
    have hdir := hsearch 0 (Nat.succ_pos _)
    rw [List.take_zero, List.append_nil, Option.any_eq_true] at hdir
    obtain ⟨dir, hget, hdir⟩ := hdir
    cases dir with
    | directory access size =>
      rw [steps_cons hget hdir hc.plain, hassoc]
      rw [hassoc] at hnode
      have hrest : t.steps follow link (loc ++ [c]) cs = .ok (loc ++ [c] ++ cs) := by
        refine ih hnode fun k hk => ?_
        have := hsearch (k + 1) (Nat.succ_lt_succ hk)
        rwa [List.take_succ_cons, List.append_cons] at this
      by_cases hcs : cs = []
      · subst hcs
        rw [List.append_nil] at hnode
        rw [hnode]
        cases node with
        | symlink target =>
          dsimp only
          have hfollow : ¬ follow = true := fun h => nomatch hlink h
          rw [if_pos ⟨rfl, hfollow⟩, List.append_nil]
        | _ => exact hrest
      · obtain ⟨access, size, hnext⟩ := get_above (by rw [hnode]; exact Option.some_ne_none _) hcs
        rw [hnext]
        exact hrest
    | _ => cases hdir

theorem steps_append {link' : Loc → List Path → Except Errno Loc} {cs ds : List Path} {dir : Loc}
    {r : Except Errno Loc} (hlink : ∀ loc cs, link loc cs = .ok dir → link' loc (cs ++ ds) = r)
    (hr : t.steps follow link' dir ds = r) (hdir : t.get dir ≠ none) (hds : ds ≠ [] ∨ follow = true)
    (h : t.steps true link loc cs = .ok dir) : t.steps follow link' loc (cs ++ ds) = r := by
  induction cs generalizing loc with
  | nil =>
    rw [steps] at h
    obtain rfl := Except.ok.inj h
    exact hr
  | cons c cs ih =>
    have hlast : ¬ (cs ++ ds = [] ∧ ¬ follow = true) := by
      rintro ⟨hnil, hfollow⟩
      exact hds.elim (fun h => h (List.append_eq_nil_iff.mp hnil).2) hfollow
    rw [List.cons_append]
    rw [steps] at h ⊢
    cases hloc : t.get loc with
    | none => rw [hloc] at h; cases h
    | some node =>
      rw [hloc] at h
      cases node with
      | directory access size =>
        dsimp only at h ⊢
        by_cases hnil : c = []
        · rw [if_pos hnil] at h ⊢
          exact ih h
        rw [if_neg hnil] at h ⊢
        by_cases hsearch : ¬ access.search = true
        · rw [if_pos hsearch] at h
          cases h
        rw [if_neg hsearch] at h ⊢
        by_cases hdot : c = dot
        · rw [if_pos hdot] at h ⊢
          exact ih h
        rw [if_neg hdot] at h ⊢
        by_cases hup : c = dotdot
        · rw [if_pos hup] at h ⊢
          exact ih h
        rw [if_neg hup] at h ⊢
        cases hchild : t.get (loc ++ [c]) with
        | none =>
          rw [hchild] at h
          dsimp only at h
          split at h
          · exact absurd (Except.ok.inj h ▸ hchild) hdir
          · cases h
        | some child =>
          rw [hchild] at h
          cases child with
          | symlink target =>
            dsimp only at h ⊢
            rw [if_neg (by simp)] at h
            rw [if_neg hlast, ← List.append_assoc]
            exact hlink _ _ h
          | _ => exact ih h
      | _ => cases h

end

theorem walk_append {follow : Bool} {links : Nat} {loc dir : Loc} {cs ds : List Path} {r : Except Errno Loc}
    (h : t.walk true links loc cs = .ok dir) (hdir : t.get dir ≠ none) (hds : ds ≠ [] ∨ follow = true)
    (hr : ∀ links, t.walk follow links dir ds = r) : t.walk follow links loc (cs ++ ds) = r := by
  induction links generalizing loc cs with
  | zero => exact steps_append (fun _ _ h => by cases h) (hr 0) hdir hds h
  | succ links ih => exact steps_append (fun _ _ h => ih h) (hr (links + 1)) hdir hds h

/-- A link-free walk does not depend on how many links are allowed. -/
theorem walk_names {follow : Bool} {links : Nat} {loc : Loc} {names : List Path} {node : Node}
    (hnode : t.get (loc ++ names) = some node) (hlink : follow = true → node.isSymlink = false)
    (hsearch : ∀ k < names.length, (t.get (loc ++ names.take k)).any Node.searchable = true) :
    t.walk follow links loc names = .ok (loc ++ names) := by
  cases links with
  | zero => exact steps_names hnode hlink hsearch
  | succ links => exact steps_names hnode hlink hsearch

theorem steps_slash {link link' : Loc → List Path → Except Errno Loc} {loc dir : Loc} {cs : List Path}
    (hlink : ∀ loc cs, link' loc (cs ++ [[]]) = .ok dir → link loc cs = .ok dir)
    (h : t.steps true link' loc (cs ++ [[]]) = .ok dir) : t.steps true link loc cs = .ok dir := by
  induction cs generalizing loc with
  | nil =>
    rw [List.nil_append, steps] at h
    split at h
    · rwa [if_pos rfl] at h
    · cases h
    · cases h
  | cons c cs ih =>
    rw [List.cons_append, steps] at h
    rw [steps]
    cases hloc : t.get loc with
    | none => rw [hloc] at h; cases h
    | some node =>
      rw [hloc] at h
      cases node with
      | directory access size =>
        dsimp only at h ⊢
        by_cases hnil : c = []
        · rw [if_pos hnil] at h ⊢
          exact ih h
        rw [if_neg hnil] at h ⊢
        by_cases hsearch : ¬ access.search = true
        · rw [if_pos hsearch] at h
          cases h
        rw [if_neg hsearch] at h ⊢
        by_cases hdot : c = dot
        · rw [if_pos hdot] at h ⊢
          exact ih h
        rw [if_neg hdot] at h ⊢
        by_cases hup : c = dotdot
        · rw [if_pos hup] at h ⊢
          exact ih h
        rw [if_neg hup] at h ⊢
        cases hchild : t.get (loc ++ [c]) with
        | none =>
          rw [hchild] at h
          dsimp only at h
          rw [if_neg (by simp)] at h
          cases h
        | some child =>
          rw [hchild] at h
          cases child with
          | symlink target =>
            dsimp only at h ⊢
            rw [if_neg (by simp), ← List.append_assoc] at h
            rw [if_neg (by simp)]
            exact hlink _ _ h
          | _ => exact ih h
      | _ => cases h

/-- A slash at the end only asks for a directory. -/
theorem walk_slash {links : Nat} {loc dir : Loc} {cs : List Path} (h : t.walk true links loc (cs ++ [[]]) = .ok dir) :
    t.walk true links loc cs = .ok dir := by
  induction links generalizing loc cs with
  | zero => exact steps_slash (fun _ _ h => by cases h) h
  | succ links ih => exact steps_slash (fun _ _ h => ih h) h

section
variable {cwd dir : Loc} {path c : Path} {access : Access} {size : Nat}

theorem resolve_eq {follow : Bool} (hpath : path ≠ []) (hzero : 0 ∉ path) :
    t.resolve follow cwd path = t.walk follow maxLinks (if rooted path then [] else cwd) (split path) := by
  rw [resolve, if_neg hpath, if_neg hzero]

theorem ok_of_resolve {follow : Bool} (h : t.resolve follow cwd path = .ok dir) : path ≠ [] ∧ 0 ∉ path := by
  unfold resolve at h
  split at h
  · cases h
  split at h
  · cases h
  · exact ⟨‹_›, ‹_›⟩

theorem resolve_slash (hpath : path ≠ []) (h : t.resolve true cwd (path ++ [slash]) = .ok dir) :
    t.resolve true cwd path = .ok dir := by
  obtain ⟨hslash, hzero⟩ := ok_of_resolve h
  have hsplit : split (path ++ [slash]) = split path ++ [[]] := split_append_slash path []
  rw [resolve_eq hslash hzero, rooted_append hpath, hsplit] at h
  rw [resolve_eq hpath fun h0 => hzero (List.mem_append_left _ h0)]
  exact walk_slash h

/-- A node below the directory that a path leads to, by the names on the way. -/
theorem resolve_names {follow : Bool} {names : List Path} {node : Node} (h : t.resolve true cwd path = .ok dir)
    (hne : names ≠ []) (hnode : t.get (dir ++ names) = some node) (hlink : follow = true → node.isSymlink = false)
    (hsearch : ∀ k < names.length, (t.get (dir ++ names.take k)).any Node.searchable = true) :
    t.resolve follow cwd (path ++ slash :: [slash].intercalate names) = .ok (dir ++ names) := by
  obtain ⟨hpath, hzero⟩ := ok_of_resolve h
  have hvalid : ∀ c ∈ names, Valid c := fun c hc =>
    get_valid (by rw [hnode]; exact Option.some_ne_none _) (List.mem_append_right dir hc)
  have hsplit : split ([slash].intercalate names) = names := split_intercalate (fun c hc => (hvalid c hc).noSlash) hne
  have hzero' : 0 ∉ path ++ slash :: [slash].intercalate names := by
    rw [List.mem_append, List.mem_cons, mem_intercalate (by decide)]
    rintro (h0 | h0 | ⟨c, hc, h0⟩)
    · exact hzero h0
    · exact absurd h0 (by decide)
    · exact (hvalid c hc).noZero h0
  obtain ⟨access, size, hdir⟩ := get_above (by rw [hnode]; exact Option.some_ne_none _) hne
  rw [resolve_eq hpath hzero] at h
  rw [resolve_eq (by simp) hzero', rooted_append hpath, split_append_slash, hsplit]
  exact walk_append h (by rw [hdir]; exact Option.some_ne_none _) (.inl hne) fun links => walk_names hnode hlink hsearch

theorem resolve_child {follow : Bool} (h : t.resolve true cwd path = .ok dir)
    (hdir : t.get dir = some (.directory access size)) (hsearch : access.search = true) {node : Node}
    (hnode : t.get (dir ++ [c]) = some node) (hlink : follow = true → node.isSymlink = false) :
    t.resolve follow cwd (path ++ slash :: c) = .ok (dir ++ [c]) := by
  have hresolve := resolve_names h (by simp) hnode hlink fun k hk => ?_
  · rwa [List.intercalate_singleton] at hresolve
  · obtain rfl : k = 0 := by simpa using hk
    rw [List.take_zero, List.append_nil, hdir]
    exact hsearch

theorem resolve_child_acces {follow : Bool} (h : t.resolve true cwd path = .ok dir)
    (hdir : t.get dir = some (.directory access size)) (hsearch : access.search = false) (hc : Valid c) :
    t.resolve follow cwd (path ++ slash :: c) = .error .acces := by
  obtain ⟨hpath, hzero⟩ := ok_of_resolve h
  rw [resolve_eq hpath hzero] at h
  rw [resolve_eq (by simp) (by simpa [hzero, slash] using hc.noZero), rooted_append hpath, split_append_slash,
    split_name hc.noSlash]
  refine walk_append h (by rw [hdir]; exact Option.some_ne_none _) (.inl (by simp)) fun links => ?_
  have hsteps : ∀ link, t.steps follow link dir [c] = .error .acces := by
    intro link
    rw [steps, hdir]
    dsimp only
    rw [if_neg hc.nonempty, if_pos (by simp [hsearch])]
  cases links with
  | zero => exact hsteps _
  | succ links => exact hsteps _

end

/-! ## Clean paths -/

/-- The components of a clean path, and of paths below it. -/
def lead (root : Path) : List Path := if rooted root then [[]] else []

def start (cwd : Loc) (root : Path) : Loc := if rooted root then [] else cwd

section
variable {cwd loc : Loc} {root : Path}

theorem walk_nil {follow : Bool} {links : Nat} {loc : Loc} : t.walk follow links loc [] = .ok loc := by
  cases links <;> rfl

/-- An empty component stays where it is. -/
theorem walk_empty {follow : Bool} {links : Nat} {access : Access} {size : Nat}
    (h : t.get loc = some (.directory access size)) (cs : List Path) :
    t.walk follow links loc ([] :: cs) = t.walk follow links loc cs := by
  cases links with
  | zero =>
    unfold walk
    rw [steps, h]
    exact if_pos rfl
  | succ links =>
    unfold walk
    rw [steps, h]
    exact if_pos rfl

theorem get_root (t : FileTree) : ∃ access size, t.get [] = some (.directory access size) := by
  have hroot := t.root
  rw [Option.any_eq_true] at hroot
  obtain ⟨node, hnode, hdir⟩ := hroot
  cases node with
  | directory access size => exact ⟨access, size, hnode⟩
  | _ => cases hdir

theorem walk_clean (h : t.resolve true cwd (clean root) = .ok loc) :
    t.walk true maxLinks (start cwd root) (lead root ++ parts root) = .ok loc := by
  have hnormal : Normal (rooted root) (parts root).reverse := normal_parts root
  obtain ⟨hpath, hzero⟩ := ok_of_resolve h
  rw [resolve_eq hpath hzero, clean, rooted_render hnormal] at h
  unfold start lead
  by_cases hparts : parts root = []
  · rw [hparts] at h ⊢
    cases hrooted : rooted root with
    | true =>
      rw [hrooted] at h
      obtain ⟨access, size, hget⟩ := t.get_root
      have hsplit : split (render true []) = [[], []] := by decide
      rw [hsplit, if_pos rfl, walk_empty hget] at h
      exact h
    | false =>
      rw [hrooted] at h
      have hsplit : split (render false []) = [dot] := by decide
      rw [hsplit, if_neg (by decide)] at h
      have hdot : ∀ link, t.steps true link cwd [dot] = .ok loc → loc = cwd := by
        intro link hsteps
        rw [steps] at hsteps
        split at hsteps
        · rw [if_neg (by decide)] at hsteps
          split at hsteps
          · cases hsteps
          · rw [if_pos rfl] at hsteps
            exact (Except.ok.inj hsteps).symm
        · cases hsteps
        · cases hsteps
      obtain rfl := hdot _ h
      exact walk_nil
  · rwa [split_render hnormal hparts] at h

/-- What is below a clean path is found by the names on the way. -/
theorem resolve_under {follow : Bool} {names : List Path} {node : Node} (h : t.resolve true cwd (clean root) = .ok loc)
    (hne : names ≠ []) (hnode : t.get (loc ++ names) = some node) (hlink : follow = true → node.isSymlink = false)
    (hsearch : ∀ k < names.length, (t.get (loc ++ names.take k)).any Node.searchable = true) :
    t.resolve follow cwd (under root names) = .ok (loc ++ names) := by
  have hplain : ∀ c ∈ names, Plain c := fun c hc =>
    (get_valid (by rw [hnode]; exact Option.some_ne_none _) (List.mem_append_right loc hc)).plain
  have hnormal := normal_under root hplain
  have hnil : under root names ≠ [] := render_ne_nil hnormal
  obtain ⟨access, size, hloc⟩ := get_above (by rw [hnode]; exact Option.some_ne_none _) hne
  have hzero : 0 ∉ under root names := by
    rw [mem_under (by decide) (by decide), not_or]
    refine ⟨(ok_of_resolve h).2, ?_⟩
    rintro ⟨c, hc, h0⟩
    exact (get_valid (by rw [hnode]; exact Option.some_ne_none _) (List.mem_append_right loc hc)).noZero h0
  rw [resolve_eq hnil hzero, under, rooted_render hnormal, split_render hnormal (by simp [hne])]
  have hwalk := walk_append (walk_clean h) (by rw [hloc]; exact Option.some_ne_none _) (.inl hne)
    fun _ => walk_names hnode hlink hsearch
  rwa [List.append_assoc] at hwalk

end

/-! ## Changes -/

/-- A node may stand at a location. -/
structure Takes (t : FileTree) (loc : Loc) (node : Node) : Prop where
  valid : ∀ c ∈ loc, Valid c
  parent : loc ≠ [] → (t.get loc.dropLast).any Node.isDirectory = true
  keeps : node.isDirectory = true ∨ (t.get loc).any Node.isDirectory = false

instance (t : FileTree) (loc : Loc) (node : Node) : Decidable (t.Takes loc node) :=
  decidable_of_iff ((∀ c ∈ loc, Valid c) ∧ (loc ≠ [] → (t.get loc.dropLast).any Node.isDirectory = true) ∧
    (node.isDirectory = true ∨ (t.get loc).any Node.isDirectory = false))
    ⟨fun ⟨h1, h2, h3⟩ => ⟨h1, h2, h3⟩, fun ⟨h1, h2, h3⟩ => ⟨h1, h2, h3⟩⟩

/-- The nodes with another one at a location. -/
def replaced (nodes : List (Loc × Node)) (loc : Loc) (node : Node) : List (Loc × Node) :=
  (loc, node) :: nodes.filter (·.1 ≠ loc)

theorem nodeAt_replaced (nodes : List (Loc × Node)) (loc loc' : Loc) (node : Node) :
    nodeAt (replaced nodes loc node) loc' = if loc' = loc then some node else nodeAt nodes loc' := by
  unfold replaced nodeAt
  rw [List.find?_cons]
  by_cases h : loc' = loc
  · subst h
    simp
  · have hne : ¬ loc = loc' := fun h' => h h'.symm
    rw [if_neg h]
    simp only [hne, decide_false]
    rw [List.find?_filter]
    congr 2
    funext p
    by_cases hp : p.1 = loc'
    · simp [hp, h]
    · simp [hp]

def put (t : FileTree) (loc : Loc) (node : Node) (h : t.Takes loc node) : FileTree where
  nodes := replaced t.nodes loc node
  once := by
    refine List.nodup_cons.mpr ⟨?_, (t.once.sublist (List.filter_sublist.map _))⟩
    simp
  root := by
    rw [nodeAt_replaced]
    split
    · rename_i hroot
      subst hroot
      refine h.keeps.resolve_right ?_
      rw [get, t.root]
      decide
    · exact t.root
  parent p hp hne := by
    rw [nodeAt_replaced]
    have hparent : (nodeAt t.nodes p.1.dropLast).any Node.isDirectory = true := by
      rcases List.mem_cons.mp hp with rfl | hp
      · exact h.parent hne
      · exact t.parent p (List.mem_of_mem_filter hp) hne
    split
    · rename_i hloc
      rw [hloc] at hparent
      exact h.keeps.resolve_right (by simpa [get] using hparent)
    · exact hparent
  valid p hp := by
    rcases List.mem_cons.mp hp with rfl | hp
    · exact h.valid
    · exact t.valid p (List.mem_of_mem_filter hp)

theorem get_put {loc loc' : Loc} {node : Node} (h : t.Takes loc node) :
    (t.put loc node h).get loc' = if loc' = loc then some node else t.get loc' := nodeAt_replaced _ _ _ _

/-- Nothing is gone, and nothing but the content of files is different. -/
def Extends (t t' : FileTree) : Prop :=
  ∀ loc node, t.get loc = some node → t'.get loc = some node ∨
    ∃ access content content', node = .file access content ∧ t'.get loc = some (.file access content')

theorem Extends.refl (t : FileTree) : t.Extends t := fun _ _ h => .inl h

theorem Extends.trans {t' t'' : FileTree} (h : t.Extends t') (h' : t'.Extends t'') : t.Extends t'' := by
  intro loc node hnode
  rcases h loc node hnode with hsame | ⟨access, content, content', rfl, hfile⟩
  · exact h' loc node hsame
  · rcases h' loc _ hfile with hsame | ⟨access', content₁, content₂, heq, hfile'⟩
    · exact .inr ⟨access, content, content', rfl, hsame⟩
    · cases heq
      exact .inr ⟨access, content, content₂, rfl, hfile'⟩

section
variable {t' : FileTree} {follow : Bool}

theorem Extends.get (h : t.Extends t') {loc : Loc} {node : Node} (hnode : t.get loc = some node)
    (hfile : ∀ access content, node ≠ .file access content) : t'.get loc = some node :=
  (h loc node hnode).resolve_right fun ⟨access, content, _, heq, _⟩ => hfile access content heq

/-- A walk goes where it went, and may find something there that was not. -/
theorem Extends.steps (h : t.Extends t') {link link' : Loc → List Path → Except Errno Loc} {loc dir : Loc}
    {cs : List Path}
    (hlink : ∀ loc cs, link loc cs = .ok dir → link' loc cs = .ok dir)
    (hdir : follow = true → (t'.get dir).all (fun node => ¬ node.isSymlink) = true)
    (hsteps : t.steps follow link loc cs = .ok dir) : t'.steps follow link' loc cs = .ok dir := by
  induction cs generalizing loc with
  | nil => exact hsteps
  | cons c cs ih =>
    rw [FileTree.steps] at hsteps ⊢
    cases hloc : t.get loc with
    | none => rw [hloc] at hsteps; cases hsteps
    | some node =>
      rw [hloc] at hsteps
      cases node with
      | directory access size =>
        rw [h.get hloc (fun _ _ => nofun)]
        dsimp only at hsteps ⊢
        by_cases hnil : c = []
        · rw [if_pos hnil] at hsteps ⊢
          exact ih hsteps
        rw [if_neg hnil] at hsteps ⊢
        by_cases hsearch : ¬ access.search = true
        · rw [if_pos hsearch] at hsteps
          cases hsteps
        rw [if_neg hsearch] at hsteps ⊢
        by_cases hdot : c = dot
        · rw [if_pos hdot] at hsteps ⊢
          exact ih hsteps
        rw [if_neg hdot] at hsteps ⊢
        by_cases hup : c = dotdot
        · rw [if_pos hup] at hsteps ⊢
          exact ih hsteps
        rw [if_neg hup] at hsteps ⊢
        cases hchild : t.get (loc ++ [c]) with
        | none =>
          rw [hchild] at hsteps
          dsimp only at hsteps
          split at hsteps
          · -- the last component, which may stand there now
            rename_i hlast
            subst hlast
            obtain rfl := Except.ok.inj hsteps
            cases hchild' : t'.get (loc ++ [c]) with
            | none => rfl
            | some child =>
              cases child with
              | symlink target =>
                have hfollow : ¬ follow = true := by
                  intro hfollow
                  have := hdir hfollow
                  rw [hchild'] at this
                  cases this
                exact if_pos ⟨rfl, hfollow⟩
              | _ => rfl
          · cases hsteps
        | some child =>
          rw [hchild] at hsteps
          cases child with
          | symlink target =>
            rw [h.get hchild (fun _ _ => nofun)]
            dsimp only at hsteps ⊢
            split at hsteps
            · rw [if_pos ‹_›]
              exact hsteps
            · rw [if_neg ‹_›]
              exact hlink _ _ hsteps
          | file access content =>
            rcases h _ _ hchild with hchild' | ⟨_, _, _, heq, hchild'⟩
            · rw [hchild']
              exact ih hsteps
            · rw [hchild']
              exact ih hsteps
          | directory access size =>
            rw [h.get hchild (fun _ _ => nofun)]
            exact ih hsteps
          | other size =>
            rw [h.get hchild (fun _ _ => nofun)]
            exact ih hsteps
      | _ => cases hsteps

theorem Extends.resolve (h : t.Extends t') {cwd dir : Loc} {path : Path}
    (hdir : follow = true → (t'.get dir).all (fun node => ¬ node.isSymlink) = true)
    (hresolve : t.resolve follow cwd path = .ok dir) : t'.resolve follow cwd path = .ok dir := by
  obtain ⟨hpath, hzero⟩ := ok_of_resolve hresolve
  have hwalk : ∀ links loc cs, t.walk follow links loc cs = .ok dir → t'.walk follow links loc cs = .ok dir := by
    intro links
    induction links with
    | zero => exact fun loc cs => h.steps (fun _ _ h => nomatch h) hdir
    | succ links ih => exact fun loc cs => h.steps ih hdir
  rw [resolve_eq hpath hzero] at hresolve ⊢
  exact hwalk _ _ _ hresolve

end

/-! ## Links that are not followed -/

theorem steps_nofollow {link link' : Loc → List Path → Except Errno Loc} {loc dir : Loc} {cs : List Path}
    (hlink : ∀ loc cs, link loc cs = .ok dir → ∃ dir', link' loc cs = .ok dir' ∧ t.get dir' ≠ none)
    (hdir : t.get dir ≠ none) (h : t.steps true link loc cs = .ok dir) :
    ∃ dir', t.steps false link' loc cs = .ok dir' ∧ t.get dir' ≠ none := by
  induction cs generalizing loc with
  | nil =>
    obtain rfl := Except.ok.inj h
    exact ⟨loc, rfl, hdir⟩
  | cons c cs ih =>
    rw [steps] at h ⊢
    cases hloc : t.get loc with
    | none => rw [hloc] at h; cases h
    | some node =>
      rw [hloc] at h
      cases node with
      | directory access size =>
        dsimp only at h ⊢
        by_cases hnil : c = []
        · rw [if_pos hnil] at h ⊢
          exact ih h
        rw [if_neg hnil] at h ⊢
        by_cases hsearch : ¬ access.search = true
        · rw [if_pos hsearch] at h
          cases h
        rw [if_neg hsearch] at h ⊢
        by_cases hdot : c = dot
        · rw [if_pos hdot] at h ⊢
          exact ih h
        rw [if_neg hdot] at h ⊢
        by_cases hup : c = dotdot
        · rw [if_pos hup] at h ⊢
          exact ih h
        rw [if_neg hup] at h ⊢
        cases hchild : t.get (loc ++ [c]) with
        | none =>
          rw [hchild] at h
          dsimp only at h ⊢
          split at h
          · exact absurd (Except.ok.inj h ▸ hchild) hdir
          · cases h
        | some child =>
          rw [hchild] at h
          cases child with
          | symlink target =>
            dsimp only at h ⊢
            rw [if_neg (by simp)] at h
            split
            · exact ⟨_, rfl, by rw [hchild]; exact Option.some_ne_none _⟩
            · exact hlink _ _ h
          | _ => exact ih h
      | _ => cases h

/-- A path that leads to a node is itself there. -/
theorem resolve_nofollow {cwd dir : Loc} {path : Path} (h : t.resolve true cwd path = .ok dir)
    (hdir : t.get dir ≠ none) :
    ∃ dir', t.resolve false cwd path = .ok dir' ∧ t.get dir' ≠ none := by
  obtain ⟨hpath, hzero⟩ := ok_of_resolve h
  have hwalk : ∀ links loc cs, t.walk true links loc cs = .ok dir →
      ∃ dir', t.walk false links loc cs = .ok dir' ∧ t.get dir' ≠ none := by
    intro links
    induction links with
    | zero => exact fun loc cs => steps_nofollow (fun _ _ h => nomatch h) hdir
    | succ links ih => exact fun loc cs => steps_nofollow ih hdir
  rw [resolve_eq hpath hzero] at h ⊢
  exact hwalk _ _ _ h

/-! ## Errors -/

/-- The walk measures no names. -/
theorem steps_error {follow : Bool} {link : Loc → List Path → Except Errno Loc} {loc : Loc} {cs : List Path} {e : Errno}
    (hlink : ∀ loc cs, link loc cs = .error e → e ≠ .nametoolong) (h : t.steps follow link loc cs = .error e) :
    e ≠ .nametoolong := by
  induction cs generalizing loc with
  | nil => cases h
  | cons c cs ih =>
    rw [steps] at h
    split at h
    · split at h
      · exact ih h
      split at h
      · obtain rfl := Except.error.inj h
        decide
      split at h
      · exact ih h
      split at h
      · exact ih h
      split at h
      · split at h
        · cases h
        · exact hlink _ _ h
      · exact ih h
      · split at h
        · cases h
        · obtain rfl := Except.error.inj h
          decide
    all_goals
      obtain rfl := Except.error.inj h
      decide

theorem resolve_error {follow : Bool} {cwd : Loc} {path : Path} {e : Errno} (h : t.resolve follow cwd path = .error e) :
    e ≠ .nametoolong := by
  have hwalk : ∀ links loc cs, t.walk follow links loc cs = .error e → e ≠ .nametoolong := by
    intro links
    induction links with
    | zero =>
      intro loc cs h
      refine steps_error (fun _ _ h => ?_) h
      obtain rfl := Except.error.inj h
      decide
    | succ links ih => exact fun loc cs h => steps_error (fun _ _ h => ih _ _ h) h
  unfold resolve at h
  split at h
  · obtain rfl := Except.error.inj h
    decide
  split at h
  · obtain rfl := Except.error.inj h
    decide
  · exact hwalk _ _ _ h

end FileTree
