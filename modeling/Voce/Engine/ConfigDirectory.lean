import Voce.Engine.ConfigManager
import Voce.Foundation.Interleaving

/-! # The directory behind a file manager

A save writes a temporary file, renames it and then changes the maps, all under the lock
of the manager. A delete removes the file first, without the lock, and changes the maps
afterwards. Calls run concurrently, each as a process of its own. IDs are file names, so
that every path that a call builds is the name of a file in the directory.
-/

namespace Voce.Engine

open List Option Transition FiniteMap FileManager

variable {Json : Type}

/-- What the calls share: the maps, the files by their names, and whether the lock is held. -/
structure ConfigDirectory (Json : Type) where
  manager : FileManager
  files : AList fun _ : String => Json
  locked : Bool

namespace ConfigDirectory

open Interleaving (Config)

def fileName (id : String) : String := id ++ ".json"

def tmpName (id : String) : String := fileName id ++ ".tmp"

def HasSuffix (text ending : String) : Prop := ending.toList <:+ text.toList

instance (text ending : String) : Decidable (HasSuffix text ending) :=
  inferInstanceAs (Decidable (ending.toList <:+ text.toList))

theorem fileName_inj {first second} (heq : fileName first = fileName second) : first = second := by
  have hlists := congrArg String.toList heq
  simp only [fileName, String.toList_append] at hlists
  exact String.toList_inj.mp (append_cancel_right hlists)

/-- The names end with different letters. -/
theorem fileName_ne_tmpName (first second : String) : fileName first ≠ tmpName second := by
  intro heq
  have hlast := congrArg (fun text => text.toList.getLast?) heq
  simp [fileName, tmpName, String.toList_append] at hlast

theorem exists_fileName {name} (hsuffix : HasSuffix name ".json") : ∃ id, name = fileName id := by
  obtain ⟨front, hfront⟩ := hsuffix
  refine ⟨String.ofList front, String.toList_inj.mp ?_⟩
  rw [fileName, String.toList_append, String.toList_ofList, hfront]

/-! ## Calls as processes -/

/-- Where a call is. From `marshalled` to `renamed` a save holds the lock. -/
inductive CallPhase (Json : Type) where
  | saving (drawn : DrawnID) (cfg : WorkflowConfig)
  | marshalled (cfg : WorkflowConfig) (data : Json)
  | written (cfg : WorkflowConfig) (data : Json)
  | renamed (cfg : WorkflowConfig)
  | deleting (id : String)
  | removed (id : String)
  | returned (result : Except ConfigError Unit)

/-- The next step of a call. One that has to wait for the lock has none. -/
def next (encode : Encoder Json) (d : ConfigDirectory Json) :
    CallPhase Json → Option (CallPhase Json × ConfigDirectory Json)
  | .saving drawn cfg =>
    if d.locked then none
    else
      match d.manager.reserve drawn cfg with
      | .error error => some (.returned (.error error), d)
      | .ok reserved =>
        match encode reserved with
        | .error text =>
          some (.returned (.error (.marshal ("marshal workflow config: " ++ text))), d)
        | .ok data => some (.marshalled reserved data, { d with locked := true })
  | .marshalled cfg data =>
    some (.written cfg data, { d with files := d.files.insert (tmpName cfg.id) data })
  | .written cfg _ =>
    match d.files.lookup (tmpName cfg.id) with
    | none => some (.returned (.error (.io ("rename workflow config: rename " ++
        tmpName cfg.id ++ " " ++ fileName cfg.id ++ ": no such file or directory"))),
        { d with locked := false })
    | some content => some (.renamed cfg,
        { d with files := (d.files.erase (tmpName cfg.id)).insert (fileName cfg.id) content })
  | .renamed cfg =>
    some (.returned (.ok ()), { d with manager := d.manager.store cfg, locked := false })
  | .deleting id => some (.removed id, { d with files := d.files.erase (fileName id) })
  | .removed id =>
    if d.locked then none
    else some (.returned (.ok ()), { d with manager := d.manager.delete id })
  | .returned _ => none

inductive DirectoryLabel where
  | save (ranges : CheckRanges) (plugins : Option (PluginStore PluginBuilder)) (drawn : DrawnID)
      (cfg : WorkflowConfig)
  | delete (id : String)
  | advance (call : Nat)

abbrev Calls (Json : Type) := Config (ConfigDirectory Json) (CallPhase Json)

/-- `Save` checks the configuration before it asks for the lock. -/
def saveCalled (ranges : CheckRanges) (plugins : Option (PluginStore PluginBuilder))
    (drawn : DrawnID) (cfg : WorkflowConfig) : CallPhase Json :=
  match checkConfig ranges plugins cfg with
  | .error error => .returned (.error error)
  | .ok _ => .saving drawn cfg

def step (encode : Encoder Json) (c : Calls Json) : DirectoryLabel → Option (Calls Json)
  | .save ranges plugins drawn cfg => some (c.spawn (saveCalled ranges plugins drawn cfg))
  | .delete id => some (c.spawn (.deleting id))
  | .advance call => c.advance (c.shared.next encode) call

def CallPhase.isReturned : CallPhase Json → Bool
  | .returned _ => true
  | _ => false

abbrev Quiescent (c : Calls Json) : Prop := Config.Quiescent c CallPhase.isReturned

/-! ## Reading the directory -/

/-- The configuration that `load` reads from a file, if it does not skip it. -/
def served (codec : SonicCodec Json) (file : Sigma fun _ : String => Json) :
    Option WorkflowConfig :=
  if HasSuffix file.fst ".json" then (codec.unmarshal file.snd).toOption else none

/-- The files in the order in which the directory lists them. -/
def load (codec : SonicCodec Json) (files : List (Sigma fun _ : String => Json)) : FileManager :=
  files.foldl (fun m file =>
    match served codec file with
    | none => m
    | some cfg =>
      { configs := m.configs.insert cfg.id cfg
        nameMap := if cfg.name ≠ "" then m.nameMap.insert cfg.name cfg.id else m.nameMap })
    .empty

/-- The file of an ID has the text of its configuration; there is a file if and only if
there is a configuration. -/
def AgreesAt (encode : Encoder Json) (d : ConfigDirectory Json) (id : String) : Prop :=
  (d.files.lookup (fileName id) = none ∧ d.manager.configs.lookup id = none) ∨
    ∃ cfg data, d.manager.configs.lookup id = some cfg ∧ encode cfg = .ok data ∧
      d.files.lookup (fileName id) = some data

/-- Memory and disk agree, and configurations are kept under their own IDs. -/
structure Agrees (encode : Encoder Json) (d : ConfigDirectory Json) : Prop where
  contents : ∀ id, d.AgreesAt encode id
  id_eq : ∀ id cfg, d.manager.configs.lookup id = some cfg → cfg.id = id

section load

variable {codec : SonicCodec Json} {files : List (Sigma fun _ : String => Json)}

/-- One file of the directory is read. -/
theorem load_concat (file : Sigma fun _ : String => Json) : (load codec (files ++ [file])).configs =
      match served codec file with
      | none => (load codec files).configs
      | some cfg => (load codec files).configs.insert cfg.id cfg := by
  unfold load
  cases hserved : served codec file with
  | none | some cfg => simp [hserved]

/-- Where files with one ID serve one configuration, each ID gets what its files serve. -/
theorem lookup_load (huniform : ∀ first ∈ files, ∀ second ∈ files, ∀ cfg other,
      served codec first = some cfg → served codec second = some other → cfg.id = other.id →
      cfg = other) (id : String) (cfg : WorkflowConfig) :
    (load codec files).configs.lookup id = some cfg ↔
      cfg.id = id ∧ ∃ file ∈ files, served codec file = some cfg := by
  induction files using reverseRecOn with
  | nil => simp [load, empty]
  | append_singleton files file ih =>
    have hbefore := ih fun first hfirst second hsecond =>
      huniform first (mem_append_left _ hfirst) second (mem_append_left _ hsecond)
    have hlast : file ∈ files ++ [file] := mem_append_right _ mem_cons_self
    rw [load_concat]
    cases hserved : served codec file with
    | none =>
      simp only [hbefore, mem_append, mem_singleton, or_and_right, exists_or,
        exists_eq_left, hserved, reduceCtorEq, or_false]
    | some last =>
      by_cases hid : id = last.id
      · subst hid
        rw [AList.lookup_insert, some.injEq]
        constructor
        · rintro rfl
          exact ⟨rfl, file, hlast, hserved⟩
        · rintro ⟨hid, other, hother, hcfg⟩
          exact huniform file hlast other hother last cfg hserved hcfg hid.symm
      · simp only [AList.lookup_insert_ne hid, hbefore, mem_append, mem_singleton,
          or_and_right, exists_or, exists_eq_left, hserved, some.injEq]
        constructor
        · exact fun h => ⟨h.1, .inl h.2⟩
        · rintro ⟨rfl, hfile | rfl⟩
          · exact ⟨rfl, hfile⟩
          · exact absurd rfl hid

variable {d : ConfigDirectory Json}

/-- A file that is read has the configuration of its ID. -/
theorem Agrees.lookup_of_served (hd : d.Agrees codec.marshal) {file}
    (hfile : file ∈ d.files.entries) {cfg} (hserved : served codec file = some cfg) :
    d.manager.configs.lookup cfg.id = some cfg := by
  obtain ⟨name, data⟩ := file
  obtain ⟨hsuffix, hserved⟩ := ite_none_right_eq_some.mp hserved
  obtain ⟨id, rfl⟩ := exists_fileName hsuffix
  have hlookup : d.files.lookup (fileName id) = some data := AList.mem_lookup_iff.mpr hfile
  rcases hd.contents id with ⟨hnone, -⟩ | ⟨stored, text, hstored, hencode, htext⟩
  · rw [hlookup] at hnone
    cases hnone
  · obtain rfl : text = data := some.inj (htext.symm.trans hlookup)
    rw [codec.unmarshal_marshal stored text hencode] at hserved
    obtain rfl : stored = cfg := some.inj hserved
    rwa [hd.id_eq id stored hstored]

theorem Agrees.exists_served (hd : d.Agrees codec.marshal) {id cfg}
    (hcfg : d.manager.configs.lookup id = some cfg) :
    ∃ file ∈ d.files.entries, served codec file = some cfg := by
  rcases hd.contents id with ⟨-, hnone⟩ | ⟨stored, data, hstored, hencode, hdata⟩
  · rw [hcfg] at hnone
    cases hnone
  · obtain rfl : stored = cfg := some.inj (hstored.symm.trans hcfg)
    refine ⟨⟨fileName id, data⟩, AList.mem_lookup_iff.mp hdata, ?_⟩
    have hsuffix : HasSuffix (fileName id) ".json" := ⟨id.toList, String.toList_append.symm⟩
    simp only [served, if_pos hsuffix, codec.unmarshal_marshal stored data hencode]
    rfl

/-- A directory that agrees with the maps restores them, in whichever order it is listed. -/
theorem Agrees.load_configs (hd : d.Agrees codec.marshal) (hfiles : files.Perm d.files.entries) :
    NameIndex.SameLookups (load codec files).configs d.manager.configs := by
  intro id
  apply ext
  intro cfg
  rw [lookup_load]
  · constructor
    · rintro ⟨rfl, file, hfile, hserved⟩
      exact hd.lookup_of_served (hfiles.mem_iff.mp hfile) hserved
    · intro hcfg
      obtain ⟨file, hfile, hserved⟩ := hd.exists_served hcfg
      exact ⟨hd.id_eq id cfg hcfg, file, hfiles.mem_iff.mpr hfile, hserved⟩
  · intro first hfirst second hsecond cfg other hcfg hother hid
    have hleft := hd.lookup_of_served (hfiles.mem_iff.mp hfirst) hcfg
    have hright := hd.lookup_of_served (hfiles.mem_iff.mp hsecond) hother
    rw [hid, hright] at hleft
    exact (some.inj hleft).symm

end load

/-! ## What holds while calls are in progress -/

/-- The phases in which a save holds the lock. -/
def CallPhase.Holds : CallPhase Json → Prop
  | .marshalled _ _ | .written _ _ | .renamed _ => True
  | _ => False

variable (encode : Encoder Json)

def Asserts (phase : CallPhase Json) (d : ConfigDirectory Json) : Prop :=
  (phase.Holds → d.locked = true) ∧
    match phase with
    | .marshalled cfg data => encode cfg = .ok data
    | .written cfg data => encode cfg = .ok data ∧ d.files.lookup (tmpName cfg.id) = some data
    | _ => True

/-- The file of an ID was removed by a call that has yet to take the ID out of the maps. -/
def Pending (c : Calls Json) (id : String) : Prop :=
  c.shared.files.lookup (fileName id) = none ∧ .removed id ∈ c.phases

/-- The file has the text of a configuration that may not be in the maps yet. -/
def Ahead (d : ConfigDirectory Json) (cfg : WorkflowConfig) : Prop :=
  ∃ data, encode cfg = .ok data ∧ d.files.lookup (fileName cfg.id) = some data

/-- The file of an ID is what the maps have or what a save is about to put there, unless a
delete has yet to finish. -/
def SettledAt (c : Calls Json) (id : String) : Prop :=
  Pending c id ∨
    (∀ cfg, .renamed cfg ∈ c.phases → cfg.id = id → c.shared.Ahead encode cfg) ∧
      ((∀ cfg, .renamed cfg ∈ c.phases → cfg.id ≠ id) → c.shared.AgreesAt encode id)

/-- A step that is not about an ID. -/
theorem SettledAt.frame {encode} {c after : Calls Json} {id} (h : SettledAt encode c id)
    (hfile : after.shared.files.lookup (fileName id) = c.shared.files.lookup (fileName id))
    (hconfig : after.shared.manager.configs.lookup id = c.shared.manager.configs.lookup id)
    (hremoved : .removed id ∈ c.phases → .removed id ∈ after.phases)
    (hrenamed : ∀ cfg : WorkflowConfig, cfg.id = id →
      (.renamed cfg ∈ after.phases ↔ .renamed cfg ∈ c.phases)) :
    SettledAt encode after id := by
  rcases h with ⟨hnone, hmem⟩ | ⟨hahead, hagrees⟩
  · exact .inl ⟨hfile.trans hnone, hremoved hmem⟩
  · refine .inr ⟨?_, ?_⟩
    · intro cfg hcfg hid
      have hcfg' := hahead cfg ((hrenamed cfg hid).mp hcfg) hid
      subst hid
      rwa [Ahead, hfile]
    · intro hothers
      rw [AgreesAt, hfile, hconfig]
      refine hagrees fun cfg hcfg hid => ?_
      exact hothers cfg ((hrenamed cfg hid).mpr hcfg) hid

/-- Configurations are kept under their own IDs, and at most one call holds the lock. -/
abbrev Locking (c : Calls Json) : Prop :=
  Interleaving.Outline
    (fun d => ∀ id cfg, d.manager.configs.lookup id = some cfg → cfg.id = id)
    (Asserts encode) (fun phase other => ¬ (phase.Holds ∧ other.Holds)) c

structure Invariant (encode : Encoder Json) (c : Calls Json) : Prop where
  locking : Locking encode c
  settled : ∀ id, SettledAt encode c id

section

variable {encode : Encoder Json} {c : Calls Json} {i : Nat} {d : ConfigDirectory Json}
  {phase : CallPhase Json}

theorem asserts_of_not_holds (hphase : ¬ phase.Holds) (d : ConfigDirectory Json) :
    Asserts encode phase d := by
  refine ⟨fun hholds => absurd hholds hphase, ?_⟩
  cases phase with
  | marshalled cfg data | written cfg data => exact absurd trivial hphase
  | _ => trivial

/-- A call that holds the lock does not interfere, as the others assert nothing. -/
theorem Locking.holder (h : Locking encode c) {phase next} (hi : c.phases[i]? = some phase)
    (hphase : phase.Holds) (hnext : Asserts encode next d)
    (hids : ∀ id cfg, d.manager.configs.lookup id = some cfg → cfg.id = id) :
    Locking encode (c.update i next d) := by
  refine h.update hi hids hnext ?_
  intro other _ _ hapart _
  have hother : ¬ other.Holds := fun hother => hapart ⟨hphase, hother⟩
  exact ⟨asserts_of_not_holds hother d, fun hboth => hother hboth.2, fun hboth => hother hboth.1⟩

/-- A call that does not hold the lock afterwards. -/
theorem Locking.other (h : Locking encode c) {phase next} (hi : c.phases[i]? = some phase)
    (hnext : ¬ next.Holds) (hids : ∀ id cfg, d.manager.configs.lookup id = some cfg → cfg.id = id)
    (hothers : ∀ other, Asserts encode other c.shared → Asserts encode other d) :
    Locking encode (c.update i next d) := by
  refine h.update hi hids (asserts_of_not_holds hnext d) ?_
  intro other _ hother _ _
  exact ⟨hothers other hother, fun hboth => hnext hboth.1, fun hboth => hnext hboth.2⟩

/-- No call is between its rename and its last step while the lock is free. -/
theorem Locking.not_renamed (h : Locking encode c) (hfree : c.shared.locked = false)
    (cfg : WorkflowConfig) : .renamed cfg ∉ c.phases := by
  intro hmem
  obtain ⟨j, hj⟩ := mem_iff_getElem?.mp hmem
  have hlocked := (h.asserted j _ hj).1 trivial
  rw [hfree] at hlocked
  cases hlocked

theorem Locking.renamed_eq (h : Locking encode c) {cfg other} (hcfg : .renamed cfg ∈ c.phases)
    (hother : .renamed other ∈ c.phases) : cfg = other := by
  obtain ⟨j, hj⟩ := mem_iff_getElem?.mp hcfg
  obtain ⟨k, hk⟩ := mem_iff_getElem?.mp hother
  by_cases hjk : j = k
  · subst hjk
    rw [hj] at hk
    exact CallPhase.renamed.inj (some.inj hk)
  · exact absurd ⟨trivial, trivial⟩ (h.separated j k _ _ hjk hj hk)

/-- The phases that neither removed nor renamed the file of an ID. -/
def CallPhase.Plain : CallPhase Json → Prop
  | .renamed _ | .removed _ => False
  | _ => True

theorem CallPhase.Plain.ne_renamed (hphase : phase.Plain) (cfg : WorkflowConfig) :
    .renamed cfg ≠ phase := by
  rintro rfl
  exact hphase

theorem CallPhase.Plain.ne_removed (hphase : phase.Plain) (id : String) : .removed id ≠ phase := by
  rintro rfl
  exact hphase

variable (h : Invariant encode c)
include h

/-- A step that touches neither the files of the IDs nor the configurations. -/
theorem Invariant.plain {phase next : CallPhase Json} (hi : c.phases[i]? = some phase)
    (hphase : phase.Plain) (hnext : next.Plain) (hlocking : Locking encode (c.update i next d))
    (hfiles : ∀ id, d.files.lookup (fileName id) = c.shared.files.lookup (fileName id))
    (hconfigs : d.manager.configs = c.shared.manager.configs) :
    Invariant encode (c.update i next d) := by
  refine ⟨hlocking, fun id => (h.settled id).frame (hfiles id) ?_ ?_ ?_⟩
  · simp only [Config.update, hconfigs]
  · exact (Config.mem_update_iff hi (hphase.ne_removed id) (hnext.ne_removed id)).mpr
  · exact fun cfg _ => Config.mem_update_iff hi (hphase.ne_renamed cfg) (hnext.ne_renamed cfg)

theorem Invariant.spawn (hphase : phase.Plain) (hholds : ¬ phase.Holds) :
    Invariant encode (c.spawn phase) := by
  have hlocking : Locking encode (c.spawn phase) :=
    h.locking.spawn (asserts_of_not_holds hholds _) fun other =>
      ⟨fun hboth => hholds hboth.1, fun hboth => hholds hboth.2⟩
  refine ⟨hlocking, fun id => (h.settled id).frame rfl rfl ?_ ?_⟩
  · exact mem_append_left _
  · intro cfg _
    simp [Config.spawn, hphase.ne_renamed cfg]

/-! ## The steps of a call -/

variable {cfg : WorkflowConfig}

/-- A save asks for the lock, and goes on if the name is free. -/
theorem Invariant.saving {drawn} (hi : c.phases[i]? = some (.saving drawn cfg)) {moved}
    (hnext : c.shared.next encode (.saving drawn cfg) = some (moved, d)) :
    Invariant encode (c.update i moved d) := by
  simp only [next] at hnext
  split at hnext
  · cases hnext
  next hfree =>
    split at hnext
    · cases hnext
      refine h.plain hi trivial trivial ?_ (fun _ => rfl) rfl
      exact h.locking.other hi id h.locking.shared fun other hother => hother
    · split at hnext
      · cases hnext
        refine h.plain hi trivial trivial ?_ (fun _ => rfl) rfl
        exact h.locking.other hi id h.locking.shared fun other hother => hother
      next data hencode =>
        cases hnext
        refine h.plain hi trivial trivial ?_ (fun _ => rfl) rfl
        refine h.locking.update hi h.locking.shared ⟨fun _ => rfl, hencode⟩ ?_
        -- the lock was free, so that nobody else holds it
        intro other _ hasserts _ _
        have hother : ¬ other.Holds := fun hholds => hfree (hasserts.1 hholds)
        exact ⟨asserts_of_not_holds hother _, fun hboth => hother hboth.2,
          fun hboth => hother hboth.1⟩

theorem Invariant.write {data} (hi : c.phases[i]? = some (.marshalled cfg data)) :
    Invariant encode (c.update i (.written cfg data)
      { c.shared with files := c.shared.files.insert (tmpName cfg.id) data }) := by
  obtain ⟨hlocked, hencode⟩ := h.locking.asserted i _ hi
  refine h.plain hi trivial trivial ?_ ?_ rfl
  · exact h.locking.holder hi trivial ⟨hlocked, hencode, AList.lookup_insert _⟩ h.locking.shared
  · exact fun id => AList.lookup_insert_ne (fileName_ne_tmpName id cfg.id)

/-- The temporary file is there, and becomes the file of the ID. -/
theorem Invariant.rename {data} (hi : c.phases[i]? = some (.written cfg data)) {moved}
    (hnext : c.shared.next encode (.written cfg data) = some (moved, d)) :
    Invariant encode (c.update i moved d) := by
  obtain ⟨hlocked, hencode, htmp⟩ := h.locking.asserted i _ hi
  simp only [next, htmp, some.injEq, Prod.mk.injEq] at hnext
  obtain ⟨rfl, rfl⟩ := hnext
  have hlocking : Locking encode (c.update i (.renamed cfg) { c.shared with
      files := (c.shared.files.erase (tmpName cfg.id)).insert (fileName cfg.id) data }) :=
    h.locking.holder hi trivial ⟨hlocked, trivial⟩ h.locking.shared
  refine ⟨hlocking, fun id => ?_⟩
  by_cases hid : id = cfg.id
  · subst hid
    refine .inr ⟨?_, fun hothers => absurd rfl (hothers cfg (Config.mem_update_self hi _ _))⟩
    intro other hother _
    rw [hlocking.renamed_eq hother (Config.mem_update_self hi _ _)]
    exact ⟨data, hencode, AList.lookup_insert _⟩
  · refine (h.settled id).frame ?_ rfl ?_ ?_
    · simp only [Config.update]
      rw [AList.lookup_insert_ne (fun heq => hid (fileName_inj heq)),
        AList.lookup_erase_ne (fileName_ne_tmpName id cfg.id)]
    · exact (Config.mem_update_iff hi (by simp) (by simp)).mpr
    · rintro other rfl
      exact Config.mem_update_iff hi (by simp) fun heq => hid (by cases heq; rfl)

theorem Invariant.store (hi : c.phases[i]? = some (.renamed cfg)) :
    Invariant encode (c.update i (.returned (.ok ()))
      { c.shared with manager := c.shared.manager.store cfg, locked := false }) := by
  have hids : ∀ id found, (c.shared.manager.store cfg).configs.lookup id = some found →
      found.id = id :=
    forall_insert h.locking.shared rfl
  have hlocking : Locking encode (c.update i (.returned (.ok ()))
      { c.shared with manager := c.shared.manager.store cfg, locked := false }) :=
    h.locking.holder hi trivial (asserts_of_not_holds id _) hids
  refine ⟨hlocking, fun id => ?_⟩
  by_cases hid : id = cfg.id
  · subst hid
    rcases h.settled cfg.id with ⟨hnone, hremoved⟩ | ⟨hahead, -⟩
    · exact .inl ⟨hnone, (Config.mem_update_iff hi (by simp) (by simp)).mpr hremoved⟩
    · obtain ⟨data, hencode, hdata⟩ := hahead cfg (mem_of_getElem? hi) rfl
      refine .inr ⟨?_, fun _ => .inr ⟨cfg, data, AList.lookup_insert _, hencode, hdata⟩⟩
      exact fun other hother _ => absurd hother (hlocking.not_renamed rfl other)
  · refine (h.settled id).frame rfl (AList.lookup_insert_ne hid) ?_ ?_
    · exact (Config.mem_update_iff hi (by simp) (by simp)).mpr
    · rintro other rfl
      refine Config.mem_update_iff hi ?_ (by simp)
      intro heq
      exact hid (by cases heq; rfl)

omit h in
/-- Removing a file leaves the temporary ones. -/
theorem Asserts.remove (h : Asserts encode phase d) (id : String) :
    Asserts encode phase { d with files := d.files.erase (fileName id) } := by
  obtain ⟨hlocked, hasserts⟩ := h
  refine ⟨hlocked, ?_⟩
  cases phase with
  | written cfg data =>
    refine ⟨hasserts.1, ?_⟩
    rw [AList.lookup_erase_ne (fileName_ne_tmpName id cfg.id).symm]
    exact hasserts.2
  | marshalled cfg data => exact hasserts
  | _ => trivial

/-- A file is removed, whoever holds the lock. -/
theorem Invariant.remove {id} (hi : c.phases[i]? = some (.deleting id)) :
    Invariant encode (c.update i (.removed id)
      { c.shared with files := c.shared.files.erase (fileName id) }) := by
  have hlocking : Locking encode (c.update i (.removed id)
      { c.shared with files := c.shared.files.erase (fileName id) }) :=
    h.locking.other hi (fun hholds => hholds) h.locking.shared fun other hother =>
      hother.remove id
  refine ⟨hlocking, fun other => ?_⟩
  by_cases hother : other = id
  · subst hother
    exact .inl ⟨AList.lookup_erase _ _, Config.mem_update_self hi _ _⟩
  · refine (h.settled other).frame ?_ rfl ?_ ?_
    · exact AList.lookup_erase_ne fun heq => hother (fileName_inj heq)
    · refine (Config.mem_update_iff hi (by simp) ?_).mpr
      exact fun heq => hother (CallPhase.removed.inj heq)
    · exact fun cfg _ => Config.mem_update_iff hi (by simp) (by simp)

/-- The maps lose an ID whose file is not there. -/
theorem Invariant.delete {id} (hi : c.phases[i]? = some (.removed id))
    (hfree : c.shared.locked = false) (hfile : c.shared.files.lookup (fileName id) = none) :
    Invariant encode (c.update i (.returned (.ok ()))
      { c.shared with manager := c.shared.manager.delete id }) := by
  have hids : ∀ other found, (c.shared.manager.delete id).configs.lookup other = some found →
      found.id = other :=
    forall_erase h.locking.shared
  have hlocking : Locking encode (c.update i (.returned (.ok ()))
      { c.shared with manager := c.shared.manager.delete id }) :=
    h.locking.other hi (fun hholds => hholds) hids fun other hother => hother
  refine ⟨hlocking, fun other => ?_⟩
  by_cases hother : other = id
  · subst hother
    refine .inr ⟨?_, fun _ => .inl ⟨hfile, AList.lookup_erase _ _⟩⟩
    exact fun cfg hcfg _ => absurd hcfg (hlocking.not_renamed hfree cfg)
  · refine (h.settled other).frame rfl (AList.lookup_erase_ne hother) ?_ ?_
    · refine (Config.mem_update_iff hi ?_ (by simp)).mpr
      exact fun heq => hother (CallPhase.removed.inj heq)
    · exact fun cfg _ => Config.mem_update_iff hi (by simp) (by simp)

/-- The file of a call that is about to take an ID out of the maps is not there. -/
def fileGone (d : ConfigDirectory Json) : Option (CallPhase Json) → Bool
  | some (.removed id) => (d.files.lookup (fileName id)).isNone
  | _ => true

/-- A delete changes the maps only while the file that it removed is not there again. -/
def Admits (c : Calls Json) : DirectoryLabel → Prop
  | .advance call => c.shared.fileGone c.phases[call]? = true
  | _ => True

instance (c : Calls Json) : ∀ label, Decidable (Admits c label) := by
  intro label
  unfold Admits
  split <;> infer_instance

theorem Invariant.step {label after} (hadmits : Admits c label)
    (hstep : step encode c label = some after) : Invariant encode after := by
  cases label with
  | save ranges plugins drawn cfg =>
    cases hstep
    unfold saveCalled
    split
    · exact h.spawn trivial id
    · exact h.spawn trivial id
  | delete id =>
    cases hstep
    exact h.spawn trivial (fun hholds => hholds)
  | advance call =>
    obtain ⟨phase, moved, shared, hi, hnext, rfl⟩ := Config.advance_eq_some hstep
    cases phase with
    | saving drawn cfg => exact h.saving hi hnext
    | marshalled cfg data =>
      cases hnext
      exact h.write hi
    | written cfg data => exact h.rename hi hnext
    | renamed cfg =>
      cases hnext
      exact h.store hi
    | deleting id =>
      cases hnext
      exact h.remove hi
    | removed id =>
      simp only [next] at hnext
      split at hnext
      · cases hnext
      next hfree =>
        cases hnext
        have hfile : c.shared.files.lookup (fileName id) = none := by
          simpa [Admits, fileGone, hi] using hadmits
        exact h.delete hi (by simpa using hfree) hfile
    | returned result => cases hnext

/-- No delete is pending and no save is ahead of the maps once all calls have returned. -/
theorem Invariant.agrees (hquiescent : Quiescent c) : c.shared.Agrees encode := by
  refine ⟨fun id => ?_, h.locking.shared⟩
  rcases h.settled id with ⟨-, hremoved⟩ | ⟨-, hagrees⟩
  · cases hquiescent _ hremoved
  · exact hagrees fun cfg hcfg => by cases hquiescent _ hcfg

end

/-- Memory and disk agree once all calls have returned, and the directory restores what the
manager serves, unless a delete changes the maps while its file is there again. -/
theorem quiescent_agrees (codec : SonicCodec Json) (start : ConfigDirectory Json)
    (hstart : start.Agrees codec.marshal) {labels : List DirectoryLabel} {c : Calls Json}
    (hrun : run (step codec.marshal) ⟨start, []⟩ labels = some c)
    (hmeets : Meets (step codec.marshal) Admits ⟨start, []⟩ labels)
    (hquiescent : Quiescent c) :
    c.shared.Agrees codec.marshal ∧ ∀ files : List (Sigma fun _ : String => Json),
      files.Perm c.shared.files.entries →
        NameIndex.SameLookups (load codec files).configs c.shared.manager.configs := by
  have hinvariant := run_invariant_of_meets (Invariant codec.marshal)
    (fun h => h.step)
    ⟨.start _ hstart.id_eq, fun id => .inr ⟨by simp, fun _ => hstart.contents id⟩⟩ hmeets hrun
  have hagrees := hinvariant.agrees hquiescent
  exact ⟨hagrees, fun files => hagrees.load_configs⟩

/-! ## Two runs -/

def fresh : ConfigDirectory Json := ⟨.empty, ∅, false⟩

def saveNamed (id name : String) : DirectoryLabel :=
  .save Graph.localRanges (some Graph.localStore) drawnOne
    (pairConfig id name)

/-- A delete removes the file of an ID; the ID is saved; the delete goes on. -/
def lateDelete : List DirectoryLabel :=
  [.delete "w", .advance 0, saveNamed "w" "calls", .advance 1, .advance 1, .advance 1, .advance 1,
    .advance 0]

/-- A save, and a delete during which another ID is saved. -/
def apartDelete : List DirectoryLabel :=
  [saveNamed "w" "calls", .advance 0, .advance 0, .advance 0, .advance 0, .delete "w", .advance 1,
    saveNamed "v" "chats", .advance 2, .advance 2, .advance 2, .advance 2, .advance 1]

theorem quiescent_agrees_apartDelete :
    ∃ c, run (step SonicCodec.plain.marshal) ⟨fresh, []⟩ apartDelete = some c ∧
      Quiescent c ∧ c.shared.Agrees SonicCodec.plain.marshal ∧
      NameIndex.SameLookups (load .plain c.shared.files.entries).configs
        c.shared.manager.configs := by
  obtain ⟨c, hrun, hquiescent⟩ := exists_of_decide
    (run (step SonicCodec.plain.marshal) ⟨fresh, []⟩ apartDelete) Quiescent (by decide +kernel)
  obtain ⟨hagrees, hload⟩ := quiescent_agrees .plain fresh
    ⟨fun _ => .inl ⟨rfl, rfl⟩, nofun⟩ hrun
    (by decide +kernel) hquiescent
  exact ⟨c, hrun, hquiescent, hagrees, hload _ (.refl _)⟩

/-- All calls have returned, the ID is not in the maps, and its file is there. -/
theorem lateDelete_not_agrees :
    ∃ c, run (step SonicCodec.plain.marshal) ⟨fresh, []⟩ lateDelete = some c ∧
      Quiescent c ∧ ¬ c.shared.Agrees SonicCodec.plain.marshal ∧
      c.shared.manager.configs.lookup "w" = none ∧
      (load .plain c.shared.files.entries).configs.lookup "w" =
        some (pairConfig "w" "calls") := by
  obtain ⟨c, hrun, hquiescent, hgone, hloaded⟩ := exists_of_decide
    (run (step SonicCodec.plain.marshal) ⟨fresh, []⟩ lateDelete)
    (fun c => Quiescent c ∧ c.shared.manager.configs.lookup "w" = none ∧
      (load .plain c.shared.files.entries).configs.lookup "w" =
        some (pairConfig "w" "calls")) (by decide +kernel)
  refine ⟨c, hrun, hquiescent, fun hagrees => ?_, hgone, hloaded⟩
  have hload : NameIndex.SameLookups (load .plain c.shared.files.entries).configs _ :=
    hagrees.load_configs (.refl _)
  have hsame := hload "w"
  rw [hloaded, hgone] at hsame
  cases hsame

end ConfigDirectory

end Voce.Engine
