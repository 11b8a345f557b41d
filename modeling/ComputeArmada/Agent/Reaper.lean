import ComputeArmada.Agent.Bounded
import ComputeArmada.Agent.Requests

/-!
# The orphan reaper

`zombiesOf` of `agent/reaper_linux.go`, from the text of `/proc`, and the sweeps of `reapOrphans`.

* `fields`, `zombieOf`, `zombiesOf` : the reading of the directory;
* `Looks`, `zombiesOf_proc` : whatever the processes are called, what is read of `/proc` is what the table says;
* `Pending`, `sweep_collects` : whatever happens during a sweep, an orphan it began with is collected by its end;
* `sweep_clears` : the reaper by itself gets to where every zombie child left is one that a request owns.
-/

namespace ComputeArmada.Agent
open Runs

/-! ## Reading `/proc` -/

/-- How many bytes of white space come first: the runes of `unicode.IsSpace`, in UTF-8. -/
def spaceWidth : List UInt8 → Nat
  | [] => 0
  | b :: bs =>
    if b = 32 ∨ 9 ≤ b ∧ b ≤ 13 then 1
    else if b = 0xC2 ∧ (bs.head? = some 0x85 ∨ bs.head? = some 0xA0) then 2
    else if b = 0xE1 ∧ bs.take 2 = [0x9A, 0x80] then 3
    else if b = 0xE2 ∧ bs.head? = some 0x80 ∧
        (∃ c ∈ bs[1]?, 0x80 ≤ c ∧ c ≤ 0x8A ∨ c = 0xA8 ∨ c = 0xA9 ∨ c = 0xAF) then 3
    else if b = 0xE2 ∧ bs.take 2 = [0x81, 0x9F] then 3
    else if b = 0xE3 ∧ bs.take 2 = [0x80, 0x80] then 3
    else 0

def flush (word : List UInt8) : List (List UInt8) := if word = [] then [] else [word]

/-- The words from here on: `word` has been read, and `skip` more bytes are of a space. -/
def fieldsFrom : (skip : Nat) → (word : List UInt8) → List UInt8 → List (List UInt8)
  | _, word, [] => flush word
  | skip + 1, word, _ :: bs => fieldsFrom skip word bs
  | 0, word, b :: bs =>
    match spaceWidth (b :: bs) with
    | 0 => fieldsFrom 0 (word ++ [b]) bs
    | width + 1 => flush word ++ fieldsFrom width [] bs

/-- `bytes.Fields`. -/
def fields (s : List UInt8) : List (List UInt8) := fieldsFrom 0 [] s

/-- What comes after the last closing parenthesis, if there is one. -/
def afterLastClose (stat : List UInt8) : Option (List UInt8) :=
  if 41 ∈ stat then some (stat.reverse.takeWhile (· ≠ 41)).reverse else none

/-- An entry of `/proc`, with its `stat` if that can be read. -/
abbrev ProcEntry := List UInt8 × Option (List UInt8)

def zombieOf (parent : Int) (entry : ProcEntry) : Option Int := do
  let pid ← parseInt entry.1
  let stat ← entry.2
  let rest ← afterLastClose stat
  match fields rest with
  | state :: ppid :: _ => if state.head? = some 90 ∧ parseInt ppid = some parent then some pid else none
  | _ => none

/-- `zombiesOf`, of the entries that `/proc` was read to have. -/
def zombiesOf (entries : List ProcEntry) (parent : Int) : List Int := entries.filterMap (zombieOf parent)

/-! ## The text of `/proc` -/

/-- `/proc/<pid>/stat`, as far as it is looked at: the command's name may hold any bytes, and what follows the
parent's pid has no parenthesis. -/
def statText (pid : Nat) (comm : List UInt8) (state : UInt8) (ppid : Nat) (rest : List UInt8) : List UInt8 :=
  bytes (toString pid) ++ 32 :: 40 :: comm ++ 41 :: 32 :: state :: 32 :: bytes (toString ppid) ++ 32 :: rest

theorem afterLastClose_append (s : List UInt8) {t : List UInt8} (ht : 41 ∉ t) :
    afterLastClose (s ++ 41 :: t) = some t := by
  have hall : ∀ b ∈ t.reverse, (decide (b ≠ 41)) = true := by
    intro b hb
    have hne : b ≠ 41 := by
      rintro rfl
      exact ht (List.mem_reverse.mp hb)
    simpa using hne
  rw [afterLastClose, if_pos (by simp), List.reverse_append, List.reverse_cons, List.append_assoc,
    List.takeWhile_append_of_pos hall]
  simp

theorem spaceWidth_graph {b : UInt8} (h : 33 ≤ b) (h' : b ≤ 126) (bs : List UInt8) : spaceWidth (b :: bs) = 0 := by
  have hne : ∀ c : UInt8, c ≤ 32 ∨ 127 ≤ c → b ≠ c := by
    rintro c hc rfl
    rw [UInt8.le_iff_toNat_le] at h h'
    rw [UInt8.le_iff_toNat_le, UInt8.le_iff_toNat_le] at hc
    simp only [UInt8.reduceToNat] at h h' hc
    omega
  have hle : ¬ b ≤ 13 := by
    rw [UInt8.le_iff_toNat_le] at h ⊢
    simp only [UInt8.reduceToNat] at h ⊢
    omega
  simp [spaceWidth, hle, hne 32 (by decide), hne 0xC2 (by decide), hne 0xE1 (by decide), hne 0xE2 (by decide),
    hne 0xE3 (by decide)]

theorem fieldsFrom_word {word w : List UInt8} (hw : ∀ b ∈ w, 33 ≤ b ∧ b ≤ 126) (s : List UInt8) :
    fieldsFrom 0 word (w ++ s) = fieldsFrom 0 (word ++ w) s := by
  induction w generalizing word with
  | nil => simp
  | cons b w ih =>
    obtain ⟨⟨hleast, hmost⟩, hw⟩ := List.forall_mem_cons.mp hw
    rw [List.cons_append, fieldsFrom, spaceWidth_graph hleast hmost]
    rw [ih hw, List.append_assoc, List.singleton_append]

theorem fieldsFrom_blank (word s : List UInt8) : fieldsFrom 0 word (32 :: s) = flush word ++ fieldsFrom 0 [] s := by
  rw [fieldsFrom]
  have hone : spaceWidth (32 :: s) = 1 := by simp [spaceWidth]
  rw [hone]

theorem graph_toString (n : Nat) : ∀ b ∈ bytes (toString n), 48 ≤ b ∧ b ≤ 57 := by
  intro b hb
  rw [bytes, encode_digits (digits_toString n)] at hb
  obtain ⟨c, hc, rfl⟩ := List.mem_map.mp hb
  obtain ⟨-, hrange⟩ := digit_byte (digits_toString n c hc)
  rw [UInt8.le_iff_toNat_le, UInt8.le_iff_toNat_le, Utf8.toNat_ofNat (by omega)]
  exact hrange

theorem bytes_toString_ne (n : Nat) : bytes (toString n) ≠ [] := by
  rw [bytes, encode_digits (digits_toString n), Nat.toString_eq_repr, Nat.toList_repr]
  exact fun hnil => Nat.toDigits_ne_nil (List.map_eq_nil_iff.mp hnil)

theorem fields_stat {state : UInt8} (hstate : 33 ≤ state ∧ state ≤ 126) (ppid : Nat) (rest : List UInt8) :
    fields (32 :: state :: 32 :: bytes (toString ppid) ++ 32 :: rest) =
      [state] :: bytes (toString ppid) :: fieldsFrom 0 [] rest := by
  have hgraph : ∀ b ∈ bytes (toString ppid), 33 ≤ b ∧ b ≤ 126 := by
    intro b hb
    obtain ⟨hleast, hmost⟩ := graph_toString ppid b hb
    have hlow : (33 : UInt8) ≤ 48 := by decide
    have hhigh : (57 : UInt8) ≤ 126 := by decide
    exact ⟨UInt8.le_trans hlow hleast, UInt8.le_trans hmost hhigh⟩
  have hword : flush (bytes (toString ppid)) = [bytes (toString ppid)] := if_neg (bytes_toString_ne ppid)
  have hletter : fieldsFrom 0 [] (state :: 32 :: (bytes (toString ppid) ++ 32 :: rest)) =
      fieldsFrom 0 [state] (32 :: (bytes (toString ppid) ++ 32 :: rest)) :=
    fieldsFrom_word (w := [state]) (by simpa using hstate) _
  rw [fields, List.cons_append, fieldsFrom_blank, List.cons_append, List.cons_append, hletter, fieldsFrom_blank,
    fieldsFrom_word hgraph, List.nil_append, fieldsFrom_blank, hword]
  rfl

theorem zombieOf_statText {pid ppid : Nat} (hpid : pid < 2 ^ 63) (hppid : ppid < 2 ^ 63) (comm : List UInt8)
    {state : UInt8} (hstate : 33 ≤ state ∧ state ≤ 126 ∧ state ≠ 41) {rest : List UInt8} (hrest : 41 ∉ rest)
    (parent : Int) : zombieOf parent (bytes (toString pid), some (statText pid comm state ppid rest)) =
      if state = 90 ∧ (ppid : Int) = parent then some (pid : Int) else none := by
  have hdigits : 41 ∉ bytes (toString ppid) := fun h => absurd (graph_toString ppid 41 h).1 (by decide)
  have hafter : 41 ∉ 32 :: state :: 32 :: bytes (toString ppid) ++ 32 :: rest := by
    simpa [hstate.2.2.symm, hrest] using hdigits
  have hlast : afterLastClose (statText pid comm state ppid rest) =
      some (32 :: state :: 32 :: bytes (toString ppid) ++ 32 :: rest) := by
    have htext : statText pid comm state ppid rest = (bytes (toString pid) ++ 32 :: 40 :: comm) ++
        41 :: (32 :: state :: 32 :: bytes (toString ppid) ++ 32 :: rest) := by
      simp [statText]
    rw [htext, afterLastClose_append _ hafter]
  simp only [zombieOf, parseInt_toString hpid, hlast, Option.bind_eq_bind, Option.bind_some,
    fields_stat ⟨hstate.1, hstate.2.1⟩, parseInt_toString hppid, List.head?_cons, Option.some.injEq]

/-! ## The table and `/proc` -/

/-- What `/proc` shows of the processes that the table does not hold: their names, the states of those that run,
and the rest of each line. -/
structure Looks where
  comm : Nat → List UInt8
  letter : Nat → UInt8
  rest : Nat → List UInt8
  letter_ok : ∀ u, 33 ≤ letter u ∧ letter u ≤ 126 ∧ letter u ≠ 41 ∧ letter u ≠ 90
  rest_ok : ∀ u, 41 ∉ rest u

namespace Os

/-- `/proc/<pid>/stat` of a process, `Z` for a zombie; the agent is PID 1. -/
def entry (os : Os) (looks : Looks) (u : Nat) : ProcEntry :=
  (bytes (toString (os.proc u).pid),
    some (statText (os.proc u).pid (looks.comm u) (if os.zombie u then 90 else looks.letter u)
      ((os.proc u).parent.elim 1 fun w => (os.proc w).pid) (looks.rest u)))

/-- The processes that are alive or still to be collected. -/
def entries (os : Os) (looks : Looks) : List ProcEntry :=
  ((List.range os.count).filter fun u => (os.proc u).status ≠ .collected).map (os.entry looks)

def Numbered (os : Os) : Prop := ∀ u, (os.proc u).pid ≠ 1 ∧ (os.count ≤ u → (os.proc u).pid = 0)

theorem Numbered.step {e : Event} {os os' : Os} (ho : os.Numbered) (h : Step os e os') : os'.Numbered := by
  have hset : ∀ (w : Nat) (p : Proc), p.pid = (os.proc w).pid → (os.set w p).Numbered := by
    intro w p hp u
    have hsame : ((os.set w p).proc u).pid = (os.proc u).pid := by
      rw [proc_set]
      split
      · rename_i heq
        rw [hp, heq]
      · rfl
    rw [hsame]
    exact ho u
  have hadd : ∀ p : Proc, 1 < p.pid → (os.add p).Numbered := by
    intro p hp u
    rw [proc_add]
    split
    · rename_i heq
      exact ⟨hp.ne', fun hle => absurd hle (by simp [add, heq])⟩
    · exact ⟨(ho u).1, fun hle => (ho u).2 (Nat.le_of_succ_le hle)⟩
  have hdie : ∀ (victim : Nat → Prop) [DecidablePred victim] (code : Int), (os.die victim code).Numbered := by
    intro victim _ code u
    simp only [die]
    split_ifs <;> exact ho u
  cases h with
  | idle => exact ho
  | spawn opens hp => exact hadd _ hp.1
  | fork hu hp => exact hadd _ hp.1
  | exit code hu => exact hdie _ code
  | kill number => exact hdie _ (-1)
  | term who =>
    intro u
    simp only [Os.term]
    split_ifs <;> exact ho u
  | setsid hu hg => exact hset _ _ rfl
  | closePipe pipe hu => exact hset _ _ rfl
  | collect hu => exact hset _ _ rfl

end Os

theorem numbered_of_reach {ok : State → Action → Prop} {s : State} (h : Reach ok .init s) : s.os.Numbered :=
  h.inv (fun s => s.os.Numbered) (fun _ _ _ ho _ hs => ho.step (step_os hs)) fun _ => ⟨Nat.zero_ne_one, fun _ => rfl⟩

/-- What else is in `/proc`: files that are no processes, processes that have gone since the directory was read,
and the agent itself, of which nobody here is the parent. -/
inductive Stranger : ProcEntry → Prop
  | file {name : List UInt8} (stat : Option (List UInt8)) (hname : parseInt name = none) : Stranger (name, stat)
  | gone (name : List UInt8) : Stranger (name, none)
  | agent (comm : List UInt8) {letter : UInt8} (hletter : 33 ≤ letter ∧ letter ≤ 126 ∧ letter ≠ 41)
      {rest : List UInt8} (hrest : 41 ∉ rest) : Stranger (bytes (toString 1), some (statText 1 comm letter 0 rest))

theorem zombieOf_stranger {entry : ProcEntry} (h : Stranger entry) : zombieOf 1 entry = none := by
  cases h with
  | file stat hname => simp [zombieOf, hname]
  | gone name => simp [zombieOf]
  | agent comm hletter hrest =>
    rw [zombieOf_statText (by decide) (by decide) comm hletter hrest, if_neg (by simp)]

theorem zombieOf_entry {os : Os} (ho : os.Numbered) (hpids : ∀ u, (os.proc u).pid < 2 ^ 63) (looks : Looks) (u : Nat) :
    zombieOf 1 (os.entry looks u) =
      if os.zombie u ∧ (os.proc u).parent = none then some ((os.proc u).pid : Int) else none := by
  obtain ⟨hleast, hmost, hclose, hzombie⟩ := looks.letter_ok u
  have hletter : 33 ≤ (if os.zombie u then 90 else looks.letter u) ∧
    (if os.zombie u then 90 else looks.letter u) ≤ 126 ∧
      (if os.zombie u then 90 else looks.letter u) ≠ 41 := by
    split
    · decide
    · exact ⟨hleast, hmost, hclose⟩
  have hparent : (os.proc u).parent.elim 1 (fun w => (os.proc w).pid) < 2 ^ 63 := by
    cases (os.proc u).parent with
    | none => exact Nat.one_lt_two_pow (by decide)
    | some w => exact hpids w
  rw [Os.entry, zombieOf_statText (hpids u) hparent _ hletter (looks.rest_ok u)]
  refine if_congr (and_congr ?_ ?_) rfl rfl
  · split
    · simpa
    · simpa [hzombie]
  · cases (os.proc u).parent with
    | none => simp
    | some w => simpa using (ho w).1

/-- **What is read of `/proc` is what the table says**, whatever the processes are called and in whatever order
the directory is read: the zombie children of the agent, and no others. -/
theorem zombiesOf_proc (s : State) (h : Reach Any .init s) (hpids : ∀ u < s.os.count, (s.os.proc u).pid < 2 ^ 63)
    (looks : Looks)
    (others : List ProcEntry) (hothers : ∀ x ∈ others, Stranger x) (entries : List ProcEntry)
    (hentries : entries.Perm (s.os.entries looks ++ others)) :
    (zombiesOf entries 1).Perm (s.os.zombiesOf.map (Nat.cast : Nat → Int)) := by
  have ho : s.os.Numbered := numbered_of_reach h
  have hall : ∀ u, (s.os.proc u).pid < 2 ^ 63 := by
    intro u
    by_cases hu : u < s.os.count
    · exact hpids u hu
    · rw [(ho u).2 (Nat.le_of_not_lt hu)]
      decide
  have hstrangers : others.filterMap (zombieOf 1) = [] :=
    List.filterMap_eq_nil_iff.mpr fun x hx => zombieOf_stranger (hothers x hx)
  have htable : (s.os.entries looks).filterMap (zombieOf 1) = s.os.zombiesOf.map (Nat.cast : Nat → Int) := by
    rw [Os.entries, Os.zombiesOf, List.filterMap_map, List.map_map, List.filterMap_filter, ← List.filterMap_eq_map,
      List.filterMap_filter]
    refine List.filterMap_congr fun u _ => ?_
    rw [Function.comp_apply, zombieOf_entry ho hall looks u]
    by_cases horphan : s.os.zombie u ∧ (s.os.proc u).parent = none
    · have hstatus : (s.os.proc u).status = .zombie := horphan.1
      rw [if_pos horphan, if_pos (by simp [hstatus]), if_pos (decide_eq_true horphan)]
      rfl
    · rw [if_neg horphan, ite_self, if_neg (by simpa using horphan)]
  have hread := hentries.filterMap (zombieOf 1)
  rw [List.filterMap_append, hstrangers, List.append_nil, htable] at hread
  exact hread

/-- A command's child and grandchild: the command has exited, and so has one of those it left behind. -/
def leavesTwo : List Action :=
  [.request .exec false, .handler 0 (.start 7), .handler 0 .register, .proc (.fork 0 8), .proc (.fork 0 9),
   .proc (.exit 0 0), .proc (.exit 1 0)]

/-- All call themselves `) Z 1 (`. -/
def closeZombie : Looks :=
  { comm := fun _ => bytes ") Z 1 (", letter := fun _ => 83, rest := fun _ => [48, 10], letter_ok := fun _ => by decide,
    rest_ok := fun _ => by decide }

theorem zombiesOf_proc_closeZombie : ∃ s, Reach Any .init s ∧ s.os.count = 3 ∧
    (zombiesOf (s.os.entries closeZombie ++ [(bytes "self", none)]) 1).Perm [7, 8] := by
  obtain ⟨s, hr, hcount, hpids, hzombies⟩ := Run.exists_of_exec step Any
    (fun s => s.os.count = 3 ∧ (∀ u < s.os.count, (s.os.proc u).pid < 10) ∧ s.os.zombiesOf = [7, 8])
    .init leavesTwo (by decide)
  have hsmall : ∀ u < s.os.count, (s.os.proc u).pid < 2 ^ 63 :=
    fun u hu => (hpids u hu).trans (by decide)
  have hself : ∀ x ∈ [((bytes "self", none) : ProcEntry)], Stranger x := by
    simp only [List.mem_singleton, forall_eq]
    exact .gone _
  refine ⟨s, hr, hcount, ?_⟩
  have hread := zombiesOf_proc s hr hsmall closeZombie _ hself _ (List.Perm.refl _)
  rw [hzombies] at hread
  exact hread

/-! ## Sweeps -/

def Reaper.pids : Reaper → List Nat
  | .idle => []
  | .scanned pids => pids
  | .unowned pid rest => pid :: rest

/-- `u` has been collected, or is an orphan that the sweep comes to. -/
def Pending (s : State) (u : Nat) : Prop :=
  (s.os.proc u).status = .collected ∨
    s.os.zombie u ∧ (s.os.proc u).parent = none ∧ (s.os.proc u).pid ∈ s.reaper.pids

theorem reaper_frame {s t : State} {a : Action} (hs : step s a = some t) (ha : ∀ act, a ≠ .reaper act) :
    t.reaper = s.reaper := by
  have ⟨_, h⟩ := step_eq hs
  cases a with
  | request =>
    dsimp only at h
    subst h
    rfl
  | handler k act => exact (handlerStep_frame h.2).2.2.1
  | signal pid sig => rw [signalProcess_frame h]
  | reaper act => exact absurd rfl (ha act)
  | main act => exact (mainStep_frame h).2.2.2.2.1
  | proc act =>
    obtain ⟨os, -, rfl⟩ := h
    rfl

/-- The reaper passes over what a request owns, and collects the rest. -/
theorem reaper_passes {s t : State} {act : ReaperAction} {u : Nat} (hr : Requests s) (hu : u < s.os.count)
    (hzombie : s.os.zombie u) (hroot : (s.os.proc u).parent = none) (hpid : (s.os.proc u).pid ∈ s.reaper.pids)
    (hunowned : (s.os.proc u).pid ∉ s.children) (hs : reaperStep s act = some t) :
    (t.os.proc u).status = .collected ∨ (s.os.proc u).pid ∈ t.reaper.pids := by
  cases act with
  | scan =>
    simp only [reaperStep, Option.ite_none_right_eq_some] at hs
    rw [hs.1] at hpid
    cases hpid
  | check =>
    simp only [reaperStep] at hs
    split at hs
    · rename_i hnone
      rw [hnone] at hpid
      cases hpid
    · rename_i pid rest hscanned
      rw [hscanned] at hpid
      cases hs
      right
      split
      · rename_i howned
        exact (List.mem_cons.mp hpid).resolve_left fun heq => hunowned (heq ▸ howned)
      · exact hpid
    · cases hs
  | collect =>
    simp only [reaperStep] at hs
    split at hs
    · rename_i pid rest hlooked
      rw [hlooked] at hpid
      rcases List.mem_cons.mp hpid with rfl | hrest
      · rw [hr.pids.waitable hu hzombie hroot] at hs
        cases hs
        simp [Os.collect, Os.proc_set]
      · split at hs <;> cases hs <;> exact .inr hrest
    · cases hs

theorem Pending.step {s t : State} {a : Action} {u : Nat} (hr : Requests s) (hu : u < s.os.count) (hp : Pending s u)
    (hunowned : (s.os.proc u).pid ∉ s.children) (hs : step s a = some t) : Pending t u := by
  have hl := (step_os hs).later
  rcases hp with hcollected | ⟨hzombie, hroot, hpid⟩
  · exact .inl (hl.gone u hu hcollected)
  have hstatus : (s.os.proc u).status = .zombie := hzombie
  have hdead : ¬ t.os.running u := (hl.dead u hu (by simp [Os.running, hstatus])).1
  have hcomes : (t.os.proc u).status = .collected ∨ (s.os.proc u).pid ∈ t.reaper.pids := by
    by_cases ha : ∃ act, a = .reaper act
    · obtain ⟨act, rfl⟩ := ha
      exact reaper_passes hr hu hzombie hroot hpid hunowned (step_eq hs).2
    · rw [reaper_frame hs fun act h => ha ⟨act, h⟩]
      exact .inr hpid
  rcases hcomes with hcollected | hpid
  · exact .inl hcollected
  · cases hnow : (t.os.proc u).status with
    | running => exact absurd hnow hdead
    | collected => exact .inl hnow
    | zombie => exact .inr ⟨hnow, hl.root u hu hroot, (hl.pid u hu).symm ▸ hpid⟩

/-- **Whatever happens during a sweep, an orphan it began with is collected by its end**, as long as no request
owns its pid in the meantime. -/
theorem sweep_collects (s s' t : State) (h : Reach Any .init s) (hscan : step s (.reaper .scan) = some s') (u : Nat)
    (hu : u < s.os.count) (hzombie : s.os.zombie u) (hroot : (s.os.proc u).parent = none)
    (hrun : Reach (fun s'' _ => (s.os.proc u).pid ∉ s''.children) s' t) (hidle : t.reaper = .idle) :
    (t.os.proc u).status = .collected := by
  have hr : Requests s := requests_of_reach h
  have hscanned : s'.os = s.os ∧ s'.reaper = .scanned s.os.zombiesOf := by
    have hs : reaperStep s .scan = some s' := (step_eq hscan).2
    simp only [reaperStep, Option.ite_none_right_eq_some, Option.some.injEq] at hs
    obtain ⟨-, rfl⟩ := hs
    exact ⟨rfl, rfl⟩
  have hmem : (s.os.proc u).pid ∈ s.os.zombiesOf := by
    refine List.mem_map.mpr ⟨u, List.mem_filter.mpr ⟨List.mem_range.mpr hu, ?_⟩, rfl⟩
    exact decide_eq_true ⟨hzombie, hroot⟩
  have hstart : Requests s' ∧ u < s'.os.count ∧ (s'.os.proc u).pid = (s.os.proc u).pid ∧ Pending s' u := by
    refine ⟨hr.step hscan, ?_, ?_, .inr ?_⟩ <;> rw [hscanned.1]
    · exact hu
    · exact ⟨hzombie, hroot, by rw [hscanned.2]; exact hmem⟩
  have hend := hrun.inv
    (fun t => Requests t ∧ u < t.os.count ∧ (t.os.proc u).pid = (s.os.proc u).pid ∧ Pending t u) ?_ hstart
  · rcases hend.2.2.2 with hcollected | ⟨-, -, hpid⟩
    · exact hcollected
    · rw [hidle] at hpid
      cases hpid
  · rintro t a t' ⟨hr, hu, hpid, hp⟩ hok hs
    have hl := (step_os hs).later
    exact ⟨hr.step hs, hu.trans_le hl.count, (hl.pid u hu).trans hpid, hp.step hr hu (hpid ▸ hok) hs⟩

/-- The command has its request, which owns its pid; the child it left behind has none. -/
theorem sweep_collects_leavesTwo : ∃ s t, Reach Any .init s ∧ s.os.zombie 1 ∧ Reach Any s t ∧
    (t.os.proc 0).status = .zombie ∧ (t.os.proc 1).status = .collected := by
  obtain ⟨s, hr, ⟨hpid, hcount, hzombie, hroot⟩, s', hs', hsweep⟩ := Run.exists_of_exec step Any
    (fun s => ((s.os.proc 1).pid = 8 ∧ 1 < s.os.count ∧ s.os.zombie 1 ∧ (s.os.proc 1).parent = none) ∧
      ∃ s' ∈ step s (.reaper .scan), (exec step (fun s'' _ => 8 ∉ s''.children) s'
        [.reaper .check, .reaper .check, .reaper .collect, .reaper .check]).any
          (fun t => decide (t.reaper = .idle ∧ (t.os.proc 0).status = .zombie)) = true) .init leavesTwo (by decide)
  obtain ⟨t, hrun, hidle, hleft⟩ := Run.exists_of_exec step (fun s'' _ => 8 ∉ s''.children)
    (fun t => t.reaper = .idle ∧ (t.os.proc 0).status = .zombie) s' _ hsweep
  have hcollected := sweep_collects s s' t hr hs' 1 hcount hzombie hroot (by rw [hpid]; exact hrun) hidle
  have hafter : Reach Any s' t := hrun.mono fun _ _ _ => trivial
  exact ⟨s, t, hr, hzombie, (Run.single trivial hs').trans hafter, hleft, hcollected⟩

/-! ## The reaper by itself -/

/-- The reaper moves, while requests own these pids. -/
def ByReaper (children : Finset Nat) (s : State) (a : Action) : Prop :=
  (∃ act, a = .reaper act) ∧ s.children = children

theorem byReaper {s t : State} {act : ReaperAction} (hserving : s.shutdown ≠ .returned)
    (h : reaperStep s act = some t) :
    Reach (ByReaper s.children) s t ∧ t.children = s.children ∧ t.shutdown ≠ .returned := by
  have hs : step s (.reaper act) = some t := by rw [step, if_neg hserving, h]
  obtain ⟨-, hchildren, -, -, hshutdown, -⟩ := reaperStep_frame h
  exact ⟨Run.single ⟨⟨act, rfl⟩, rfl⟩ hs, hchildren, hshutdown ▸ hserving⟩

theorem sweep_ends {pids : List Nat} {s : State} (hserving : s.shutdown ≠ .returned)
    (hscanned : s.reaper = .scanned pids) :
    ∃ t, Reach (ByReaper s.children) s t ∧ t.reaper = .idle ∧ t.children = s.children ∧ t.shutdown ≠ .returned := by
  induction pids generalizing s with
  | nil =>
    have h : reaperStep s .check = some { s with reaper := .idle } := by simp only [reaperStep, hscanned]
    obtain ⟨hrun, hchildren, hserving⟩ := byReaper hserving h
    exact ⟨_, hrun, rfl, hchildren, hserving⟩
  | cons pid rest ih =>
    by_cases howned : pid ∈ s.children
    · have h : reaperStep s .check = some { s with reaper := .scanned rest } := by
        simp only [reaperStep, hscanned, if_pos howned]
      obtain ⟨hrun, hchildren, hserving⟩ := byReaper hserving h
      obtain ⟨t, hrest, hidle, hsame, hserving⟩ := ih hserving rfl
      exact ⟨t, hrun.trans hrest, hidle, hsame, hserving⟩
    · have h : reaperStep s .check = some { s with reaper := .unowned pid rest } := by
        simp only [reaperStep, hscanned, if_neg howned]
      obtain ⟨hrun, hchildren, hserving⟩ := byReaper hserving h
      obtain ⟨u, hu, hcollected⟩ : ∃ u, reaperStep { s with reaper := .unowned pid rest } .collect = some u ∧
          u.reaper = .scanned rest := by
        simp only [reaperStep]
        split <;> exact ⟨_, rfl, rfl⟩
      obtain ⟨hcollect, hchildren', hserving⟩ := byReaper hserving hu
      obtain ⟨t, hrest, hidle, hsame, hserving⟩ := ih hserving hcollected
      rw [hchildren'] at hrest hsame
      exact ⟨t, (hrun.trans hcollect).trans hrest, hidle, hsame, hserving⟩

theorem reaper_ends {s : State} (hserving : s.shutdown ≠ .returned) :
    ∃ t, Reach (ByReaper s.children) s t ∧ t.reaper = .idle ∧ t.children = s.children ∧ t.shutdown ≠ .returned := by
  cases hreaper : s.reaper with
  | idle => exact ⟨s, .refl s, hreaper, rfl, hserving⟩
  | scanned pids => exact sweep_ends hserving hreaper
  | unowned pid rest =>
    obtain ⟨u, hu, hcollected⟩ : ∃ u, reaperStep s .collect = some u ∧ u.reaper = .scanned rest := by
      simp only [reaperStep, hreaper]
      split <;> exact ⟨_, rfl, rfl⟩
    obtain ⟨hcollect, hchildren, hserving⟩ := byReaper hserving hu
    obtain ⟨t, hrest, hidle, hsame, hserving⟩ := sweep_ends hserving hcollected
    rw [hchildren] at hrest hsame
    exact ⟨t, hcollect.trans hrest, hidle, hsame, hserving⟩

theorem zombie_of_byReaper {children : Finset Nat} {s t : State} (h : Reach (ByReaper children) s t) :
    t.os.count = s.os.count ∧ ∀ u, t.os.zombie u →
      s.os.zombie u ∧ (t.os.proc u).parent = (s.os.proc u).parent ∧ (t.os.proc u).pid = (s.os.proc u).pid := by
  refine h.rel (fun s t => t.os.count = s.os.count ∧ ∀ u, t.os.zombie u → s.os.zombie u ∧
    (t.os.proc u).parent = (s.os.proc u).parent ∧ (t.os.proc u).pid = (s.os.proc u).pid) ?_ ?_ ?_
  · exact fun s => ⟨rfl, fun u hu => ⟨hu, rfl, rfl⟩⟩
  · rintro s t v ⟨hcount, h⟩ ⟨hcount', h'⟩
    refine ⟨hcount'.trans hcount, fun u hu => ?_⟩
    obtain ⟨hz, hparent, hpid⟩ := h' u hu
    obtain ⟨hz', hparent', hpid'⟩ := h u hz
    exact ⟨hz', hparent.trans hparent', hpid.trans hpid'⟩
  · rintro s _ t ⟨⟨act, rfl⟩, -⟩ hs
    have hact : reaperStep s act = some t := (step_eq hs).2
    have hos : t.os = s.os ∨ ∃ w, t.os = s.os.collect w := by
      cases act with
      | scan =>
        simp only [reaperStep, Option.ite_none_right_eq_some, Option.some.injEq] at hact
        obtain ⟨-, rfl⟩ := hact
        exact .inl rfl
      | check =>
        simp only [reaperStep] at hact
        split at hact <;> cases hact <;> exact .inl rfl
      | collect =>
        simp only [reaperStep] at hact
        split at hact
        · split at hact <;> cases hact
          · exact .inr ⟨_, rfl⟩
          · exact .inl rfl
        · cases hact
    rcases hos with hos | ⟨w, hos⟩ <;> rw [hos]
    · exact ⟨rfl, fun u hu => ⟨hu, rfl, rfl⟩⟩
    · refine ⟨rfl, fun u hu => ?_⟩
      simp only [Os.zombie, Os.collect, Os.proc_set] at hu ⊢
      split at hu
      · cases hu
      · rename_i hne
        rw [if_neg hne]
        exact ⟨hu, rfl, rfl⟩

/-- **The reaper by itself gets to where every zombie child left is one that a request owns.** -/
theorem sweep_clears (s : State) (h : Reach Any .init s) (hserving : s.shutdown ≠ .returned) :
    ∃ t, Reach (ByReaper s.children) s t ∧ t.reaper = .idle ∧
      ∀ u < t.os.count, t.os.zombie u → (t.os.proc u).parent = none → (t.os.proc u).pid ∈ s.children := by
  obtain ⟨s₁, hrun₁, hidle₁, hchildren₁, hserving₁⟩ := reaper_ends hserving
  have hscan : reaperStep s₁ .scan = some { s₁ with reaper := .scanned s₁.os.zombiesOf } := by
    rw [reaperStep, if_pos hidle₁]
  obtain ⟨hrun₂, -, hserving₂⟩ := byReaper hserving₁ hscan
  obtain ⟨t, hrun₃, hidle, -, -⟩ := sweep_ends hserving₂ rfl
  have hsame : ∀ {a b : State}, Reach (ByReaper s₁.children) a b → Reach (ByReaper s.children) a b :=
    fun hrun => hrun.mono fun _ _ hok => ⟨hok.1, hok.2.trans hchildren₁⟩
  have hswept : Reach (ByReaper s.children) { s₁ with reaper := .scanned s₁.os.zombiesOf } t := hsame hrun₃
  refine ⟨t, (hrun₁.trans (hsame hrun₂)).trans hswept, hidle, fun u hu hzombie hroot => ?_⟩
  by_contra hunowned
  obtain ⟨hcount, hback⟩ := zombie_of_byReaper hswept
  obtain ⟨hzombie₁, hparent, hpid⟩ := hback u hzombie
  have hstep : step s₁ (.reaper .scan) = some { s₁ with reaper := .scanned s₁.os.zombiesOf } := by
    rw [step, if_neg hserving₁, hscan]
  have hreach₁ : Reach Any .init s₁ := h.trans (hrun₁.mono fun _ _ _ => trivial)
  have hkept : Reach (fun s'' _ => (s₁.os.proc u).pid ∉ s''.children)
    { s₁ with reaper := .scanned s₁.os.zombiesOf } t := by
    refine hswept.mono fun s'' a hok => ?_
    rw [hok.2, ← hpid]
    exact hunowned
  have hcollected := sweep_collects s₁ _ t hreach₁ hstep u (hcount ▸ hu) hzombie₁ (hparent.symm.trans hroot) hkept hidle
  have hstatus : (t.os.proc u).status = .zombie := hzombie
  rw [hstatus] at hcollected
  cases hcollected

theorem sweep_clears_leavesTwo : ∃ s t, Reach Any .init s ∧ s.os.zombiesOf = [7, 8] ∧ Reach Any s t ∧
    ∀ u < t.os.count, t.os.zombie u → (t.os.proc u).parent = none → (t.os.proc u).pid = 7 := by
  obtain ⟨s, hr, hzombies, hserving, hchildren⟩ := Run.exists_of_exec step Any
    (fun s => s.os.zombiesOf = [7, 8] ∧ s.shutdown ≠ .returned ∧ s.children = {7}) .init leavesTwo (by decide)
  obtain ⟨t, hrun, -, hleft⟩ := sweep_clears s hr hserving
  refine ⟨s, t, hr, hzombies, hrun.mono fun _ _ _ => trivial, fun u hu hzombie hroot => ?_⟩
  have howned := hleft u hu hzombie hroot
  rw [hchildren] at howned
  exact Finset.mem_singleton.mp howned

end ComputeArmada.Agent
