import ComputeArmada.Agent.Files

/-!
# What is written is read back

* `writeFile_ok` : what an accepted write leaves: the bytes where the path leads, and all else as it was;
* `readFile_eq` : the answer for a path that leads to a file.
-/

namespace ComputeArmada.Agent
open Paths FileTree

section
variable {t t' : FileTree} {cwd loc : Loc} {node : Node} {path : Path} {content : List UInt8}

/-- Every node is still there. -/
def Grows (t t' : FileTree) : Prop := ∀ loc node, t.get loc = some node → t'.get loc = some node

theorem Grows.extends (h : Grows t t') : t.Extends t' := fun loc node hnode => .inl (h loc node hnode)

theorem replace_get (h : replace t loc node = .ok t') (loc' : Loc) :
    t'.get loc' = if loc' = loc then some node else t.get loc' := by
  unfold replace at h
  split at h
  · obtain rfl := Except.ok.inj h
    exact get_put _
  · cases h

theorem create_get (h : create t loc node = .ok t') (loc' : Loc) :
    t'.get loc' = if loc' = loc then some node else t.get loc' := by
  unfold create at h
  split at h
  · split at h
    · exact replace_get h loc'
    · cases h
  · cases h

theorem create_grows (hnone : t.get loc = none) (h : create t loc node = .ok t') : Grows t t' := by
  intro loc' node' hnode
  rw [create_get h]
  split
  · rename_i hloc
    rw [hloc, hnone] at hnode
    cases hnode
  · exact hnode

theorem mapError_ok {ε ε' α : Type} {f : ε → ε'} {x : Except ε α} {a : α} (h : x.mapError f = .ok a) : x = .ok a := by
  cases x with
  | ok b => rw [Except.ok.inj h]
  | error e => cases h

theorem osMkdir_grows (h : osMkdir t cwd path = .ok t') : Grows t t' := by
  unfold osMkdir at h
  dsimp only at h
  split at h
  · cases h
  split at h
  · cases h
  · exact create_grows ‹_› (mapError_ok h)

theorem osMkdirAll_grows (cwd : Loc) (t : FileTree) (path : Path) : Grows t (osMkdirAll cwd t path).1 := by
  induction hlength : path.length using Nat.strong_induction_on generalizing path with
  | _ n ih =>
    have hparent : Grows t (if _h : parentOf path = [] then (t, .ok ()) else osMkdirAll cwd t (parentOf path)).1 := by
      split
      · exact fun _ _ h => h
      · rename_i hne
        exact ih _ (hlength ▸ parentOf_length hne) _ rfl
    rw [osMkdirAll]
    split
    · exact fun _ _ h => h
    split
    · rename_i heq
      rwa [heq] at hparent
    · rename_i heq
      rw [heq] at hparent
      split
      · exact fun loc node h => osMkdir_grows ‹_› loc node (hparent loc node h)
      · split <;> exact hparent

/-- The bytes stand where the path leads, and all else is as it was. -/
structure Written (t t' : FileTree) (cwd : Loc) (path : Path) (content : List UInt8) (loc : Loc) : Prop where
  leads : t'.resolve true cwd path = .ok loc
  holds : ∃ access, t'.get loc = some (.file access content)
  more : t.Extends t'
  others : ∀ loc' node, loc' ≠ loc → t.get loc' = some node → t'.get loc' = some node

theorem Written.of_put (hloc : t.resolve true cwd path = .ok loc) {access : Access}
    (hold : ∀ old, t.get loc = some old → ∃ content', old = .file access content')
    (hget : ∀ loc', t'.get loc' = if loc' = loc then some (.file access content) else t.get loc') :
    Written t t' cwd path content loc := by
  have hself : t'.get loc = some (.file access content) := by rw [hget, if_pos rfl]
  have hmore : t.Extends t' := by
    intro loc' node hnode
    rw [hget]
    split
    · rename_i heq
      subst heq
      obtain ⟨content', rfl⟩ := hold node hnode
      exact .inr ⟨access, content', content, rfl, rfl⟩
    · exact .inl hnode
  refine ⟨hmore.resolve (fun _ => by rw [hself]; rfl) hloc, ⟨access, hself⟩, hmore, fun loc' node hne hnode => ?_⟩
  rw [hget, if_neg hne]
  exact hnode

theorem osWriteFile_ok (h : osWriteFile t cwd path content = .ok t') : ∃ loc, Written t t' cwd path content loc := by
  unfold osWriteFile at h
  split at h
  · cases h
  · rename_i loc hloc
    have h := mapError_ok h
    split at h
    · rename_i access content' hfile
      split at h
      · refine ⟨loc, .of_put hloc (fun old hold => ?_) (replace_get h)⟩
        rw [hfile] at hold
        exact ⟨content', (Option.some.inj hold).symm⟩
      · cases h
    · cases h
    · cases h
    · cases h
    · rename_i hnone
      refine ⟨loc, .of_put hloc (fun old hold => ?_) (create_get h)⟩
      rw [hnone] at hold
      cases hold

theorem Written.after (hgrows : Grows t t') {t'' : FileTree} (h : Written t' t'' cwd path content loc) :
    Written t t'' cwd path content loc :=
  ⟨h.leads, h.holds, hgrows.extends.trans h.more,
    fun loc' node hne hnode => h.others loc' node hne (hgrows loc' node hnode)⟩

end

section
variable {t : FileTree} {cwd loc : Loc} {r : Request}

theorem pathParam_ok {path : Path} (h : pathParam r = .ok path) : path = r.query "path" := by
  unfold pathParam at h
  split at h
  · cases h
  · exact (Except.ok.inj h).symm

theorem writeFile_ok (h : (writeFile t cwd r).1.status = 200) :
    ∃ loc, Written t (writeFile t cwd r).2 cwd (r.query "path") r.body loc := by
  unfold writeFile at h ⊢
  cases hpath : pathParam r with
  | error refused =>
    rw [hpath] at h
    unfold pathParam at hpath
    split at hpath
    · obtain rfl := Except.error.inj hpath
      cases h
    · cases hpath
  | ok path =>
    obtain rfl := pathParam_ok hpath
    rw [hpath] at h
    dsimp only at h ⊢
    by_cases hlength : maxRequestBytes < r.body.length
    · rw [if_pos hlength] at h
      cases h
    rw [if_neg hlength] at h ⊢
    have hgrows : Grows t (if filepathDir (r.query "path") = dot then ((t, .ok ()) : FileTree × Except PathError Unit)
        else osMkdirAll cwd t (filepathDir (r.query "path"))).1 := by
      split
      · exact fun _ _ h => h
      · exact osMkdirAll_grows cwd t _
    revert h
    split
    · intro h
      cases h
    · rename_i t' heq
      rw [heq] at hgrows
      split
      · intro h
        cases h
      · rename_i t'' hwrite
        obtain ⟨loc, hwritten⟩ := osWriteFile_ok hwrite
        exact fun _ => ⟨loc, hwritten.after hgrows⟩


/-! ## Reading -/

theorem readFile_eq {path : Path} {access : Access} {content : List UInt8} (hquery : r.query "path" = path)
    (hloc : t.resolve true cwd path = .ok loc) (hfile : t.get loc = some (.file access content)) :
    readFile t cwd r = if access.read then { status := 200, body := content } else
      writeCodedError 500 "read_failed" { op := "open", path, err := .acces : PathError }.text := by
  obtain ⟨hpath, -⟩ := ok_of_resolve hloc
  obtain ⟨loc', hloc', hnode⟩ := resolve_nofollow hloc (by rw [hfile]; exact Option.some_ne_none _)
  obtain ⟨node, hnode⟩ := Option.ne_none_iff_exists'.mp hnode
  have hparam : pathParam r = .ok path := by
    unfold pathParam
    rw [hquery, if_neg hpath]
  have hread : osReadFile t cwd path =
      if access.read then .ok (loc, content) else .error { op := "open", path, err := .acces } := by
    unfold osReadFile
    rw [hloc]
    dsimp only
    rw [hfile]
  unfold readFile
  rw [hparam]
  dsimp only [bind, Except.bind]
  rw [osLstat_of_resolve hloc' hnode]
  dsimp only
  rw [hread]
  cases access.read <;> rfl

/-- Nothing but a root. -/
def bareTree : FileTree where
  nodes := [([], .directory { read := true, write := true, search := true } 4096)]
  once := by decide
  root := by decide
  parent := by decide
  valid := by decide

example : (fun r : Request => readFile (writeFile bareTree [] r).2 [] r)
    { method := "PUT", path := "/files", rawQuery := bytes "path=f", authorization := [],
      body := [0xef, 0xbb, 0xbf, 0] } =
      { status := 200, body := [0xef, 0xbb, 0xbf, 0] } := by
  decide +kernel

end

end ComputeArmada.Agent
