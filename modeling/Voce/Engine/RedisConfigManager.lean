import Voce.Engine.ConfigManager

/-! # The configurations in Redis

The second manager keeps the configurations as JSON texts in one Redis hash and the IDs by
their names in another. A save and a delete each run a script on the server. The file
manager and this one answer every sequence of calls alike.
-/

namespace Voce.Engine

open FileManager Option AList ConfigError Transition FiniteMap

variable {Json : Type}

/-- The scripts read the name of a configuration with `cjson`. -/
structure RedisCodec (Json : Type) extends SonicCodec Json where
  cjsonName : Json → Except String String
  cjsonName_marshal : ∀ cfg data, marshal cfg = .ok data → cjsonName data = .ok cfg.name

/-- The two hashes. -/
structure RedisManager (Json : Type) where
  workflows : AList fun _ : String => Json
  names : AList fun _ : String => String

namespace RedisManager

def empty : RedisManager Json := ⟨∅, ∅⟩

variable (codec : RedisCodec Json) (r : RedisManager Json)

/-- `luaSaveWorkflow`: the new hashes or the text of the error. -/
def luaSaveWorkflow (id name : String) (json : Json) : Except String (RedisManager Json) :=
  let taken := match r.names.lookup name with
    | none => false
    | some existing => existing ≠ id
  if taken then .error "workflow name already exists"
  else
    match r.workflows.lookup id with
    | none => .ok ⟨r.workflows.insert id json, r.names.insert name id⟩
    | some old =>
      match codec.cjsonName old with
      | .error text => .error text
      | .ok oldName =>
        let names := if oldName ≠ name then r.names.erase oldName else r.names
        .ok ⟨r.workflows.insert id json, names.insert name id⟩

def luaDeleteWorkflow (id : String) : Except String (RedisManager Json) :=
  match r.workflows.lookup id with
  | none => .ok ⟨r.workflows.erase id, r.names⟩
  | some old =>
    match codec.cjsonName old with
    | .error text => .error text
    | .ok oldName => .ok ⟨r.workflows.erase id, r.names.erase oldName⟩

def get (id : String) : Except ConfigError WorkflowConfig :=
  match r.workflows.lookup id with
  | none => .error .notFound
  | some data => (codec.unmarshal data).mapError .marshal

def getWithName (name : String) : Except ConfigError WorkflowConfig :=
  match r.names.lookup name with
  | none => .error .notFound
  | some id => r.get codec id

/-- A text that cannot be read is logged and left out. -/
def list : List WorkflowConfig :=
  r.workflows.entries.filterMap fun entry => (codec.unmarshal entry.snd).toOption

def save (codec : RedisCodec Json) (r : RedisManager Json) (ranges : CheckRanges)
    (plugins : Option (PluginStore PluginBuilder)) (drawn : DrawnID) (cfg : WorkflowConfig) :
    RedisManager Json × Except ConfigError Unit :=
  match checkConfig ranges plugins cfg with
  | .error error => (r, .error error)
  | .ok _ =>
    let cfg := cfg.withID drawn
    match codec.marshal cfg with
    | .error text => (r, .error (.marshal text))
    | .ok data =>
      match r.luaSaveWorkflow codec cfg.id cfg.name data with
      | .ok saved => (saved, .ok ())
      | .error text =>
        if "already exists".toList <:+: text.toList then (r, .error .nameExists)
        else (r, .error (.script ("redis save workflow: " ++ text)))

def delete (codec : RedisCodec Json) (r : RedisManager Json) (id : String) :
    RedisManager Json × Except ConfigError Unit :=
  match r.luaDeleteWorkflow codec id with
  | .ok deleted => (deleted, .ok ())
  | .error text => (r, .error (.script ("redis delete workflow: " ++ text)))

end RedisManager

/-! ## The calls of both managers -/

/-- One call on both managers. Each runs the check with orders of its own. -/
inductive ConfigCall where
  | get (id : String)
  | getWithName (name : String)
  | list
  | save (fileRanges redisRanges : CheckRanges) (plugins : Option (PluginStore PluginBuilder))
      (drawn : DrawnID) (cfg : WorkflowConfig)
  | delete (id : String)

inductive ConfigReply where
  | config (result : Except ConfigError WorkflowConfig)
  | configs (list : List WorkflowConfig)
  | status (result : Except ConfigError Unit)

/-- The same configurations or an error of the same kind; lists are compared as sets. -/
def ConfigReply.Same : ConfigReply → ConfigReply → Prop
  | .config first, .config second =>
    first.mapError ConfigError.kind = second.mapError ConfigError.kind
  | .configs first, .configs second => ∀ cfg, cfg ∈ first ↔ cfg ∈ second
  | .status first, .status second =>
    first.mapError ConfigError.kind = second.mapError ConfigError.kind
  | _, _ => False

def FileManager.call (encode : Encoder Json) (m : FileManager) :
    ConfigCall → FileManager × ConfigReply
  | .get id => (m, .config (m.get id))
  | .getWithName name => (m, .config (m.getWithName name))
  | .list => (m, .configs m.list)
  | .save ranges _ plugins drawn cfg =>
    let (saved, result) := m.save encode ranges plugins drawn cfg
    (saved, .status result)
  | .delete id => (m.delete id, .status (.ok ()))

def RedisManager.call (codec : RedisCodec Json) (r : RedisManager Json) :
    ConfigCall → RedisManager Json × ConfigReply
  | .get id => (r, .config (r.get codec id))
  | .getWithName name => (r, .config (r.getWithName codec name))
  | .list => (r, .configs (r.list codec))
  | .save _ ranges plugins drawn cfg =>
    let (saved, result) := r.save codec ranges plugins drawn cfg
    (saved, .status result)
  | .delete id =>
    let (deleted, result) := r.delete codec id
    (deleted, .status result)

/-- The replies to calls that are issued one at a time. -/
def replies {Manager : Type} (call : Manager → ConfigCall → Manager × ConfigReply) :
    Manager → List ConfigCall → List ConfigReply
  | _, [] => []
  | manager, next :: rest => (call manager next).2 :: replies call (call manager next).1 rest

/-! ## The managers hold the same configurations -/

/-- The hashes have the texts and the names of the configurations of a file manager, all of
which are named. -/
structure Mirrors (codec : RedisCodec Json) (m : FileManager) (r : RedisManager Json) : Prop where
  sound : m.Sound
  named : ∀ id cfg, m.configs.lookup id = some cfg → cfg.name ≠ ""
  workflows : ∀ id, (m.configs.lookup id = none ∧ r.workflows.lookup id = none) ∨
    ∃ cfg data, m.configs.lookup id = some cfg ∧ r.workflows.lookup id = some data ∧
      codec.marshal cfg = .ok data
  names : NameIndex.SameLookups m.nameMap r.names

namespace Mirrors

variable {codec : RedisCodec Json} {m : FileManager} {r : RedisManager Json}

theorem empty (codec : RedisCodec Json) : Mirrors codec .empty .empty where
  sound := FileManager.empty_sound
  named := nofun
  workflows _ := .inl ⟨rfl, rfl⟩
  names _ := rfl

variable (h : Mirrors codec m r)
include h

theorem get (id : String) : m.get id = r.get codec id := by
  unfold FileManager.get RedisManager.get
  rcases h.workflows id with ⟨hfile, hredis⟩ | ⟨cfg, data, hfile, hredis, hencode⟩
  · rw [hfile, hredis]
  · simp only [hfile, hredis, codec.unmarshal_marshal cfg data hencode]
    rfl

/-- An ID of the index has a configuration, so that the two managers find the same. -/
theorem getWithName (name : String) : m.getWithName name = r.getWithName codec name := by
  unfold FileManager.getWithName RedisManager.getWithName
  rw [← h.names name]
  cases hname : m.nameMap.lookup name with
  | none => rfl
  | some id =>
    obtain ⟨cfg, hcfg, -⟩ := (h.sound.indexes name id).mp hname
    have hget := h.get id
    simp only [FileManager.get, hcfg] at hget
    simp only [hcfg, getD_some, hget]

theorem mem_list (cfg : WorkflowConfig) : cfg ∈ m.list ↔ cfg ∈ r.list codec := by
  simp only [FileManager.list, RedisManager.list, List.mem_map, List.mem_filterMap,
    Sigma.exists, ← mem_lookup_iff, mem_def]
  constructor
  · rintro ⟨id, found, hfound, rfl⟩
    rcases h.workflows id with ⟨hfile, -⟩ | ⟨stored, data, hfile, hredis, hencode⟩
    · rw [hfile] at hfound
      cases hfound
    · rw [hfile] at hfound
      obtain rfl := some.inj hfound
      refine ⟨id, data, hredis, ?_⟩
      rw [codec.unmarshal_marshal stored data hencode]
      rfl
  · rintro ⟨id, data, hdata, hdecode⟩
    rcases h.workflows id with ⟨-, hredis⟩ | ⟨stored, text, hfile, hredis, hencode⟩
    · rw [hredis] at hdata
      cases hdata
    · rw [hredis] at hdata
      obtain rfl := some.inj hdata
      rw [codec.unmarshal_marshal stored text hencode] at hdecode
      exact ⟨id, stored, hfile, some.inj hdecode⟩

variable {cfg : WorkflowConfig}

theorem store {data} (hencode : codec.marshal cfg = .ok data) (hvisible : ¬ Blank cfg.id)
    (hname : cfg.name ≠ "")
    (hfree : ∀ other, m.nameMap.lookup cfg.name = some other → other = cfg.id) {names}
    (hnames : NameIndex.SameLookups
      (NameIndex.rename WorkflowConfig.name m.configs m.nameMap cfg.id cfg.name) names) :
    Mirrors codec (m.store cfg) ⟨r.workflows.insert cfg.id data, names.insert cfg.name cfg.id⟩ where
  sound := h.sound.store hvisible hfree
  named := forall_insert h.named hname
  workflows id := by
    by_cases hid : id = cfg.id
    · subst hid
      exact .inr ⟨cfg, data, lookup_insert _, lookup_insert _, hencode⟩
    · simp only [FileManager.store, lookup_insert_ne hid]
      exact h.workflows id
  names := hnames.insert cfg.name cfg.id

/-- The script takes out the name that the index of the file manager loses. -/
theorem luaSaveWorkflow {data} (hencode : codec.marshal cfg = .ok data) (hvisible : ¬ Blank cfg.id)
    (hname : cfg.name ≠ "")
    (hfree : ∀ other, m.nameMap.lookup cfg.name = some other → other = cfg.id) :
    ∃ saved, r.luaSaveWorkflow codec cfg.id cfg.name data = .ok saved ∧
      Mirrors codec (m.store cfg) saved := by
  have huntaken : (match r.names.lookup cfg.name with
      | none => false
      | some existing => decide (existing ≠ cfg.id)) = false := by
    rw [← h.names cfg.name]
    split
    · rfl
    next existing hexisting => simp [hfree existing hexisting]
  unfold RedisManager.luaSaveWorkflow
  simp only [huntaken]
  rcases h.workflows cfg.id with ⟨hfile, hredis⟩ | ⟨old, text, hfile, hredis, hold⟩
  · refine ⟨_, by rw [hredis]; rfl, h.store hencode hvisible hname hfree ?_⟩
    rw [NameIndex.rename, hfile]
    exact h.names
  · refine ⟨_, by rw [hredis]; simp only [codec.cjsonName_marshal old text hold]; rfl,
      h.store hencode hvisible hname hfree ?_⟩
    rw [NameIndex.rename, hfile]
    by_cases hsame : old.name = cfg.name
    · simp only [hsame, ne_eq, not_true_eq_false, if_false]
      exact h.names
    · simp only [ne_eq, hsame, not_false_eq_true, if_true]
      exact h.names.erase old.name

/-- A name that another configuration has is refused by the script. -/
theorem luaSaveWorkflow_taken {id name existing} (hexisting : m.nameMap.lookup name = some existing)
    (hother : existing ≠ id) (data : Json) :
    r.luaSaveWorkflow codec id name data = .error "workflow name already exists" := by
  unfold RedisManager.luaSaveWorkflow
  rw [← h.names name, hexisting]
  simp [hother]

/-- A drawn ID is not in use, so that it cannot be the ID to which a taken name belongs. -/
theorem ne_withID_id {drawn existing} (hexisting : m.nameMap.lookup cfg.name = some existing)
    (hother : existing ≠ cfg.id) (hfresh : Blank cfg.id → drawn.text ∉ m.configs) :
    existing ≠ (cfg.withID drawn).id := by
  unfold WorkflowConfig.withID
  split
  next hblank =>
    rintro rfl
    exact hfresh hblank (h.sound.mem_of_name hexisting)
  · exact hother

theorem save (hencode : ∀ cfg, ∃ data, codec.marshal cfg = .ok data) (ranges ranges' : CheckRanges)
    (plugins : Option (PluginStore PluginBuilder)) {drawn} (hname : cfg.name ≠ "")
    (hfresh : Blank cfg.id → drawn.text ∉ m.configs) :
    Mirrors codec (m.save codec.marshal ranges plugins drawn cfg).1
        (r.save codec ranges' plugins drawn cfg).1 ∧
      (m.save codec.marshal ranges plugins drawn cfg).2.mapError kind =
        (r.save codec ranges' plugins drawn cfg).2.mapError kind := by
  unfold FileManager.save RedisManager.save
  rcases checkConfig_cases ranges ranges' plugins cfg with ⟨_, _, hfirst, hsecond⟩ |
    ⟨error, error', hfirst, hsecond, hkind⟩
  · obtain ⟨data, hdata⟩ := hencode (cfg.withID drawn)
    simp only [hfirst, hsecond, hdata]
    cases hreserve : m.reserve drawn cfg with
    | ok reserved =>
      obtain ⟨rfl, hfree⟩ := h.sound.reserve_eq_ok hreserve
      rw [← cfg.withID_name drawn] at hname hfree
      obtain ⟨saved, hsaved, hmirrors⟩ :=
        h.luaSaveWorkflow hdata (cfg.withID_visible drawn) hname hfree
      simp only [hdata, hsaved]
      exact ⟨hmirrors, trivial⟩
    | error error =>
      unfold FileManager.reserve at hreserve
      split at hreserve
      · cases hreserve
      next existing hexisting =>
        split at hreserve
        next hother =>
          cases hreserve
          have hne := h.ne_withID_id hexisting hother hfresh
          rw [← cfg.withID_name drawn] at hexisting
          have hrefused : "already exists".toList <:+: "workflow name already exists".toList :=
            by decide
          simp only [h.luaSaveWorkflow_taken hexisting hne data, if_pos hrefused]
          exact ⟨h, trivial⟩
        · cases hreserve
  · simp only [hfirst, hsecond, Except.mapError, hkind]
    exact ⟨h, trivial⟩

theorem delete (id : String) :
    ∃ deleted, r.delete codec id = (deleted, .ok ()) ∧ Mirrors codec (m.delete id) deleted := by
  have hnamed : ∀ cfg ∈ m.configs.lookup id, cfg.name ≠ "" := h.named id
  -- the parts that do not depend on the names
  have hmirrors : ∀ names, NameIndex.SameLookups (m.delete id).nameMap names →
      Mirrors codec (m.delete id) ⟨r.workflows.erase id, names⟩ := by
    intro names hnames
    refine ⟨h.sound.delete hnamed, forall_erase h.named, ?_, hnames⟩
    intro other
    by_cases hother : other = id
    · subst hother
      exact .inl ⟨lookup_erase _ _, lookup_erase _ _⟩
    · simp only [FileManager.delete, lookup_erase_ne hother]
      exact h.workflows other
  unfold RedisManager.delete RedisManager.luaDeleteWorkflow
  rcases h.workflows id with ⟨hfile, hredis⟩ | ⟨old, text, hfile, hredis, hold⟩
  · simp only [hredis]
    refine ⟨_, rfl, hmirrors r.names ?_⟩
    simp only [FileManager.delete, hfile]
    exact h.names
  · simp only [hredis, codec.cjsonName_marshal old text hold]
    refine ⟨_, rfl, hmirrors (r.names.erase old.name) ?_⟩
    simp only [FileManager.delete, hfile, if_pos (hnamed old hfile)]
    exact h.names.erase old.name

end Mirrors

/-! ## Sequences of calls -/

/-- Saved configurations are named, and an ID that is drawn is not in use. -/
def FileManager.Admits (m : FileManager) : ConfigCall → Prop
  | .save _ _ _ drawn cfg => cfg.name ≠ "" ∧ (Blank cfg.id → drawn.text ∉ m.configs)
  | _ => True

instance (m : FileManager) : ∀ call : ConfigCall, Decidable (m.Admits call) := by
  intro call
  unfold Admits
  split <;> infer_instance

def FileManager.callStep (encode : Encoder Json) (m : FileManager) (call : ConfigCall) :
    Option FileManager :=
  some (m.call encode call).1

theorem Mirrors.call {codec : RedisCodec Json} {m : FileManager} {r : RedisManager Json}
    (h : Mirrors codec m r) (hencode : ∀ cfg, ∃ data, codec.marshal cfg = .ok data) {call}
    (hadmits : m.Admits call) :
    Mirrors codec (m.call codec.marshal call).1 (r.call codec call).1 ∧
      (m.call codec.marshal call).2.Same (r.call codec call).2 := by
  cases call with
  | get id => exact ⟨h, congrArg (Except.mapError kind) (h.get id)⟩
  | getWithName name =>
    exact ⟨h, congrArg (Except.mapError kind) (h.getWithName name)⟩
  | list => exact ⟨h, h.mem_list⟩
  | save ranges ranges' plugins drawn cfg =>
    exact h.save hencode ranges ranges' plugins hadmits.1 hadmits.2
  | delete id =>
    obtain ⟨deleted, hdeleted, hmirrors⟩ := h.delete id
    simp only [FileManager.call, RedisManager.call, hdeleted]
    exact ⟨hmirrors, rfl⟩

theorem Mirrors.replies {codec : RedisCodec Json} {m r} (h : Mirrors codec m r)
    (hencode : ∀ cfg, ∃ data, codec.marshal cfg = .ok data) {calls}
    (hmeets : Meets (callStep codec.marshal) Admits m calls) :
    List.Forall₂ ConfigReply.Same (replies (FileManager.call codec.marshal) m calls)
      (replies (RedisManager.call codec) r calls) := by
  induction calls generalizing m r with
  | nil => exact .nil
  | cons call rest ih =>
    obtain ⟨hadmits, hrest⟩ := hmeets
    obtain ⟨hmirrors, hsame⟩ := h.call hencode hadmits
    exact .cons hsame (ih hmirrors hrest)

/-- The two managers answer every sequence of calls alike. -/
theorem managers_interchangeable (codec : RedisCodec Json)
    (hencode : ∀ cfg, ∃ data, codec.marshal cfg = .ok data) (calls : List ConfigCall)
    (hmeets : Meets (callStep codec.marshal) Admits .empty
      calls) :
    List.Forall₂ ConfigReply.Same (replies (FileManager.call codec.marshal) .empty calls)
      (replies (RedisManager.call codec) .empty calls) :=
  (Mirrors.empty codec).replies hencode hmeets

def plainCodec : RedisCodec WorkflowConfig where
  toSonicCodec := .plain
  cjsonName data := .ok data.name
  cjsonName_marshal cfg data hencode := by rw [Except.ok.inj hencode]

def saveBoth (id name : String) : ConfigCall :=
  .save Graph.localRanges Graph.localRanges (some Graph.localStore) FileManager.drawnOne
    (FileManager.pairConfig id name)

/-- A configuration without an ID, a name that is taken, a new name for a configuration, and
the old one for another. -/
def renamingCalls : List ConfigCall :=
  [saveBoth "" "calls", saveBoth "w" "calls", saveBoth "u-1" "chats", saveBoth "w" "calls",
    .getWithName "chats", .list, .delete "u-1", .get "u-1"]

theorem managers_interchangeable_renamingCalls :
    Meets (callStep plainCodec.marshal) Admits .empty
        renamingCalls ∧
      List.Forall₂ ConfigReply.Same
        (replies (FileManager.call plainCodec.marshal) .empty renamingCalls)
        (replies (RedisManager.call plainCodec) .empty renamingCalls) := by
  have hmeets : Meets (callStep plainCodec.marshal) Admits
      .empty renamingCalls := by decide +kernel
  exact ⟨hmeets, managers_interchangeable plainCodec (fun cfg => ⟨cfg, rfl⟩) renamingCalls hmeets⟩

end Voce.Engine
