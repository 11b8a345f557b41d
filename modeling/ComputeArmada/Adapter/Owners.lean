import ComputeArmada.Adapter.Config

/-!
# The queue an owner maps to

* `writtenQueue` : what the two maps say of an owner, as an operator writes them;
* `Maps` : that `forOwner` gives that queue, and consults every entry of both maps;
* `Plain` : no entry is one that an assignment drops, and no id that is looked up in vain is a name that every
  object inherits;
* `forOwner_exact` : of an accepted configuration, `Maps` exactly where `Plain`.
-/

namespace ComputeArmada.Adapter

namespace Record
variable {r : Record} {key : String}

theorem own_eq_some_of_mem (h : (r.map (·.1)).Nodup) {p : String × String} (hp : p ∈ r) : own r p.1 = some p.2 := by
  induction r with
  | nil => cases hp
  | cons q r ih =>
    obtain ⟨hq, hr⟩ := List.nodup_cons.mp h
    rw [own_cons]
    rcases List.mem_cons.mp hp with rfl | hp
    · rw [if_pos rfl]
    · have hne : q.1 ≠ p.1 := fun heq => hq (List.mem_map.mpr ⟨p, hp, heq.symm⟩)
      rw [if_neg hne, ih hr hp]

theorem mem_of_own {value : String} (h : own r key = some value) : (key, value) ∈ r := by
  obtain ⟨p, hp, rfl⟩ := Option.map_eq_some_iff.mp h
  have hkey : p.1 = key := by simpa using List.find?_some hp
  exact hkey ▸ List.mem_of_find?_eq_some hp

theorem own_filter_ne (r : Record) (key : String) : own (r.filter (·.1 ≠ key)) key = none := by
  refine own_eq_none fun hmem => ?_
  obtain ⟨p, hp, hkey⟩ := List.mem_map.mp hmem
  exact absurd hkey (by simpa using (List.mem_filter.mp hp).2)

theorem read_of_own {value : String} (h : own r key = some value) : read r key = some (.own value) := by
  rw [read, h]

theorem read_inherited (h : own r key = none) (hkey : key ∈ objectPrototype) : read r key = some (.inherited key) := by
  rw [read, h]
  exact if_pos hkey

theorem read_none (h : own r key = none) (hkey : key ∉ objectPrototype) : read r key = none := by
  rw [read, h]
  exact if_neg hkey

end Record

/-- The user's own entry, else the project's own entry, else the queue of all the others. -/
def writtenQueue (users projects : Record) (queue : String) (owner : SandboxOwner) : String :=
  ((owner.userId.bind users.own).or (projects.own owner.projectId)).getD queue

/-- The owner maps to the queue that the maps say, one of the directory's, and every entry is where it is looked
for. -/
structure Maps (config : ArmadaConfig) (users projects : Record) (owner : SandboxOwner) : Prop where
  queue : forOwner config owner = .own (writtenQueue users projects config.queue owner)
  all : ∃ queue ∈ config.all, forOwner config owner = .own queue
  users : ∀ p ∈ users, config.queueByUser.own p.1 = some p.2
  projects : ∀ p ∈ projects, config.queueByProject.own p.1 = some p.2

/-- `__proto__` is no key of either map, and the user's id, if it has no entry, is no name that every object
inherits; nor is the project's, if neither has one. -/
structure Plain (users projects : Record) (owner : SandboxOwner) : Prop where
  keptUsers : "__proto__" ∉ users.map (·.1)
  keptProjects : "__proto__" ∉ projects.map (·.1)
  user : ∀ userId, owner.userId = some userId → users.own userId = none → userId ∉ objectPrototype
  project : owner.userId.bind users.own = none → projects.own owner.projectId = none →
    owner.projectId ∉ objectPrototype

section
variable {config : ArmadaConfig} {users projects : Record} {owner : SandboxOwner}

theorem forOwner_own {value : String} (h : owner.userId.bind config.queueByUser.own = some value) :
    forOwner config owner = .own value := by
  obtain ⟨userId, huser, hown⟩ := Option.bind_eq_some_iff.mp h
  unfold forOwner
  rw [huser, Option.bind_some, Record.read_of_own hown]
  rfl

theorem forOwner_inherited {userId : String} (huser : owner.userId = some userId)
    (hown : config.queueByUser.own userId = none) (hmem : userId ∈ objectPrototype) :
    forOwner config owner = .inherited userId := by
  unfold forOwner
  rw [huser, Option.bind_some, Record.read_inherited hown hmem]
  rfl

/-- Where the user has no entry the project decides. -/
theorem forOwner_project (huser : ∀ userId, owner.userId = some userId →
      config.queueByUser.own userId = none ∧ userId ∉ objectPrototype) :
    forOwner config owner = (config.queueByProject.read owner.projectId).getD (.own config.queue) := by
  unfold forOwner
  cases hid : owner.userId with
  | none => rfl
  | some userId =>
    obtain ⟨hown, hmem⟩ := huser userId hid
    rw [Option.bind_some, Record.read_none hown hmem]
    rfl

theorem user_none (hnone : owner.userId.bind users.own = none) {userId : String} (huser : owner.userId = some userId) :
    users.own userId = none := by
  rw [huser] at hnone
  exact hnone

/-- What the maps say is what `forOwner` gives, where the ids are no inherited names. -/
theorem forOwner_plain (h : Plain config.queueByUser config.queueByProject owner) :
    forOwner config owner = .own (writtenQueue config.queueByUser config.queueByProject config.queue owner) := by
  unfold writtenQueue
  cases huser : owner.userId.bind config.queueByUser.own with
  | some value => exact forOwner_own huser
  | none =>
    rw [forOwner_project fun userId hid => ⟨user_none huser hid, h.user userId hid (user_none huser hid)⟩]
    cases hproject : config.queueByProject.own owner.projectId with
    | some value => rw [Record.read_of_own hproject]; rfl
    | none => rw [Record.read_none hproject (h.project huser hproject)]; rfl

theorem plain_of_forOwner {queue : String} (h : forOwner config owner = .own queue)
    (husers : "__proto__" ∉ config.queueByUser.map (·.1)) (hprojects : "__proto__" ∉ config.queueByProject.map (·.1)) :
    Plain config.queueByUser config.queueByProject owner := by
  have huser : ∀ userId, owner.userId = some userId → config.queueByUser.own userId = none →
    userId ∉ objectPrototype := by
    intro userId hid hown hmem
    rw [forOwner_inherited hid hown hmem] at h
    cases h
  refine ⟨husers, hprojects, huser, fun hnone hown hmem => ?_⟩
  rw [forOwner_project fun userId hid => ⟨user_none hnone hid, huser userId hid (user_none hnone hid)⟩,
    Record.read_inherited hown hmem] at h
  cases h

theorem mem_all_of_own {queue : String} (h : queue = config.queue ∨ queue ∈ config.mappedTo) : queue ∈ config.all :=
  List.mem_eraseDups.mpr (List.mem_cons.mpr h)

theorem writtenQueue_mem : writtenQueue config.queueByUser config.queueByProject config.queue owner ∈ config.all := by
  refine mem_all_of_own ?_
  unfold writtenQueue
  cases huser : owner.userId.bind config.queueByUser.own with
  | some value =>
    obtain ⟨userId, -, hown⟩ := Option.bind_eq_some_iff.mp huser
    exact .inr (List.mem_append_left _ (List.mem_map.mpr ⟨_, Record.mem_of_own hown, rfl⟩))
  | none =>
    cases hproject : config.queueByProject.own owner.projectId with
    | some value => exact .inr (List.mem_append_right _ (List.mem_map.mpr ⟨_, Record.mem_of_own hproject, rfl⟩))
    | none => exact .inl rfl

theorem proto_of_kept {said : Record} (h : ∀ p ∈ said, Record.own (said.filter (·.1 ≠ "__proto__")) p.1 = some p.2) :
    "__proto__" ∉ said.map (·.1) := by
  intro hmem
  obtain ⟨p, hp, hkey⟩ := List.mem_map.mp hmem
  have hkept := h p hp
  rw [hkey, Record.own_filter_ne] at hkept
  cases hkept

/-- **An owner maps to a configured queue** exactly where neither map has an entry that is dropped, and no id is
looked up that every object inherits: of what the environment says, for every configuration that is accepted. -/
theorem forOwner_exact {host : Host} {env : Record} {sessionMaxLifetimeSeconds : Option Nat}
    (h : readConfig host env sessionMaxLifetimeSeconds = .ok config) :
    Record.own env "ARMADA_QUEUE" = some config.queue ∧ ∃ users projects,
      Says host.engine env "ARMADA_QUEUE_BY_USER" users ∧ Says host.engine env "ARMADA_QUEUE_BY_PROJECT" projects ∧
      ∀ owner, Maps config users projects owner ↔ Plain users projects owner := by
  have hreads := of_readConfig h
  obtain ⟨users, husers, hkeys, -, hbyUser⟩ := of_readStringMap hreads.queueByUser
  obtain ⟨projects, hprojects, hkeys', -, hbyProject⟩ := of_readStringMap hreads.queueByProject
  refine ⟨(required_ok hreads.queue).1, users, projects, husers, hprojects,
    fun owner => ⟨fun hmaps => ?_, fun hplain => ?_⟩⟩
  · have husersKept := hmaps.users
    have hprojectsKept := hmaps.projects
    rw [hbyUser] at husersKept
    rw [hbyProject] at hprojectsKept
    have hproto := proto_of_kept husersKept
    have hproto' := proto_of_kept hprojectsKept
    rw [Record.filter_ne_eq_self.mpr hproto] at hbyUser
    rw [Record.filter_ne_eq_self.mpr hproto'] at hbyProject
    subst hbyUser hbyProject
    exact plain_of_forOwner hmaps.queue hproto hproto'
  · rw [Record.filter_ne_eq_self.mpr hplain.keptUsers] at hbyUser
    rw [Record.filter_ne_eq_self.mpr hplain.keptProjects] at hbyProject
    subst hbyUser hbyProject
    have hqueue := forOwner_plain hplain
    exact ⟨hqueue, ⟨_, writtenQueue_mem, hqueue⟩, fun p hp => Record.own_eq_some_of_mem hkeys hp,
      fun p hp => Record.own_eq_some_of_mem hkeys' hp⟩

end

/-- One user has a queue of their own. -/
def adaEnv : Record := leastEnv ++
  [("ARMADA_QUEUE_BY_USER", "\x7b\"ada\": \"team\"\x7d"), ("ARMADA_LOOKOUT_URL", "http://lookout.example.com")]

theorem forOwner_exact_ada : ∃ config users projects, readConfig plainHost adaEnv none = .ok config ∧
    Maps config users projects { projectId := "constructor", userId := some "ada" } ∧
    ¬ Maps config users projects { projectId := "constructor", userId := some "eve" } := by
  obtain ⟨config, hread, -⟩ : ∃ config, readConfig plainHost adaEnv none = .ok config ∧ true = true :=
    exists_of_accepts (by decide +kernel)
  obtain ⟨-, users, projects, husers, hprojects, hexact⟩ := forOwner_exact hread
  have hsays : Says plainHost.engine adaEnv "ARMADA_QUEUE_BY_USER" [("ada", "team")] :=
    ⟨[("ada", .string "team")], rfl, rfl⟩
  obtain rfl := hsays.unique husers
  obtain rfl : projects = [] := hprojects
  refine ⟨config, _, _, hread, (hexact _).mpr ⟨by decide, by decide, ?_, ?_⟩, fun hmaps => ?_⟩
  · exact fun userId huser hown => absurd hown (by cases huser; decide)
  · exact fun hnone => absurd hnone (by decide)
  · exact ((hexact _).mp hmaps).project (by decide) (by decide) (by decide)

/-- An entry that an assignment drops. -/
def protoEnv : Record := leastEnv ++ [("ARMADA_QUEUE_BY_USER", "\x7b\"__proto__\": \"team\"\x7d")]

/-- Neither is the entry of `__proto__` there, nor has a user of this id a queue. -/
theorem forOwner_inherits : ∃ config, readConfig plainHost protoEnv none = .ok config ∧
    Says plainHost.engine protoEnv "ARMADA_QUEUE_BY_USER" [("__proto__", "team")] ∧
    config.queueByUser.own "__proto__" = none ∧
    forOwner config { projectId := "p", userId := some "constructor" } = .inherited "constructor" := by
  have haccepts : ∃ config, readConfig plainHost protoEnv none = .ok config ∧
      decide (config.queueByUser.own "__proto__" = none ∧
        forOwner config { projectId := "p", userId := some "constructor" } = .inherited "constructor") = true :=
    exists_of_accepts (by decide +kernel)
  obtain ⟨config, hread, hwrong⟩ := haccepts
  exact ⟨config, hread, ⟨[("__proto__", .string "team")], rfl, rfl⟩, of_decide_eq_true hwrong⟩

end ComputeArmada.Adapter
