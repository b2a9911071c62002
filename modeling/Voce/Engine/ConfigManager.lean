import Voce.Engine.Instantiation
import Voce.Foundation.NameIndex
import Voce.Foundation.Transition
import Voce.Sonic

/-! # The configurations that a file manager serves

The manager keeps the configurations by their IDs and the IDs by their names. A save puts
a configuration in after it was checked, and takes an old name out of the index; a
delete takes a configuration out, but leaves the empty name alone.
-/

namespace Voce.Engine

open Transition Option AList FiniteMap Engine.Graph

structure DrawnID where
  text : String
  visible : ¬ Blank text

variable (cfg : WorkflowConfig)

/-- A configuration without an ID gets the one that was drawn. -/
def WorkflowConfig.withID (drawn : DrawnID) : WorkflowConfig :=
  if Blank cfg.id then { cfg with id := drawn.text } else cfg

theorem WorkflowConfig.withID_name (drawn : DrawnID) : (cfg.withID drawn).name = cfg.name := by
  unfold withID
  split <;> rfl

theorem WorkflowConfig.withID_visible (drawn : DrawnID) : ¬ Blank (cfg.withID drawn).id := by
  unfold withID
  split
  · exact drawn.visible
  next hid => exact hid

/-- The zero value, which a lookup in a map answers for a missing key. -/
def WorkflowConfig.zero : WorkflowConfig := ⟨"", "", "", "", [], [], "", 0⟩

/-- How `sonic` writes a configuration. Nothing looks into the text. -/
abbrev Encoder (Json : Type) := WorkflowConfig → Except String Json

structure SonicCodec (Json : Type) extends Sonic WorkflowConfig Json where
  unmarshal_marshal : ∀ cfg data, marshal cfg = .ok data → unmarshal data = .ok cfg

/-- A configuration stands for its own text. -/
def SonicCodec.plain : SonicCodec WorkflowConfig where
  marshal := .ok
  unmarshal := .ok
  unmarshal_marshal _ _ hencode := hencode.symm

structure FileManager where
  configs : AList fun _ : String => WorkflowConfig
  nameMap : AList fun _ : String => String

namespace FileManager

variable {Json : Type}

def empty : FileManager := ⟨∅, ∅⟩

variable (m : FileManager)

def get (id : String) : Except ConfigError WorkflowConfig :=
  match m.configs.lookup id with
  | none => .error .notFound
  | some cfg => .ok cfg

def getWithName (name : String) : Except ConfigError WorkflowConfig :=
  match m.nameMap.lookup name with
  | none => .error .notFound
  | some id => .ok ((m.configs.lookup id).getD .zero)

def list : List WorkflowConfig := m.configs.entries.map Sigma.snd

/-- The first part of the critical section of `Save`: the name may be in use by the same ID
only, and a configuration without an ID gets one. -/
def reserve (drawn : DrawnID) (cfg : WorkflowConfig) : Except ConfigError WorkflowConfig :=
  match m.nameMap.lookup cfg.name with
  | none => .ok (cfg.withID drawn)
  | some existing => if existing ≠ cfg.id then .error .nameExists else .ok (cfg.withID drawn)

/-- The last part of the critical section, once the file was written. -/
def store (cfg : WorkflowConfig) : FileManager where
  configs := m.configs.insert cfg.id cfg
  nameMap := (NameIndex.rename WorkflowConfig.name m.configs m.nameMap cfg.id cfg.name).insert
    cfg.name cfg.id

/-- `Save` where the file is written without an error. -/
def save (encode : Encoder Json) (ranges : CheckRanges)
    (plugins : Option (PluginStore PluginBuilder)) (drawn : DrawnID) (cfg : WorkflowConfig) :
    FileManager × Except ConfigError Unit :=
  match checkConfig ranges plugins cfg with
  | .error error => (m, .error error)
  | .ok _ =>
    match m.reserve drawn cfg with
    | .error error => (m, .error error)
    | .ok reserved =>
      match encode reserved with
      | .error text => (m, .error (.marshal ("marshal workflow config: " ++ text)))
      | .ok _ => (m.store reserved, .ok ())

/-- The critical section of `Delete`. -/
def delete (id : String) : FileManager where
  configs := m.configs.erase id
  nameMap :=
    match m.configs.lookup id with
    | none => m.nameMap
    | some cfg => if cfg.name ≠ "" then m.nameMap.erase cfg.name else m.nameMap

/-! ## The name index -/

/-- What the index of the names is for. -/
structure Consistent (encode : Encoder Json) (m : FileManager) : Prop where
  index : ∀ name id, m.nameMap.lookup name = some id ↔
    ∃ cfg, m.configs.lookup id = some cfg ∧ cfg.name = name
  found : ∀ name cfg, m.getWithName name = .ok cfg ↔
    ∃ id, m.configs.lookup id = some cfg ∧ cfg.name = name
  apart : ∀ id other cfg second, m.configs.lookup id = some cfg →
    m.configs.lookup other = some second → cfg.name = second.name → id = other
  reusable : ∀ ranges plugins drawn cfg, (∀ id other, m.configs.lookup id = some other →
      other.name ≠ cfg.name) → (checkConfig ranges plugins cfg).isOk →
    (encode (cfg.withID drawn)).isOk → (m.save encode ranges plugins drawn cfg).2 = .ok ()

theorem consistent_iff (encode : Encoder Json) (m : FileManager) :
    Consistent encode m ↔ NameIndex.Indexes WorkflowConfig.name m.configs m.nameMap := by
  constructor
  · exact fun hm => hm.index
  · intro hindex
    refine ⟨hindex, ?_, ?_, ?_⟩
    · intro name cfg
      unfold getWithName
      split
      next hnone =>
        refine iff_of_false (by simp) ?_
        rintro ⟨id, hid, rfl⟩
        rw [hindex.lookup_name hid] at hnone
        cases hnone
      next id hid =>
        obtain ⟨stored, hstored, rfl⟩ := (hindex name id).mp hid
        rw [hstored]
        constructor
        · intro heq
          obtain rfl : stored = cfg := Except.ok.inj heq
          exact ⟨id, hstored, rfl⟩
        · rintro ⟨other, hother, hname⟩
          obtain rfl := hindex.key_eq hstored hother hname.symm
          rw [hstored] at hother
          rw [getD_some, some.inj hother]
    · intro id other cfg second hcfg hsecond hname
      exact hindex.key_eq hcfg hsecond hname
    · intro ranges plugins drawn cfg hfree hcheck hencode
      have hname := hindex.lookup_eq_none hfree
      cases hchecked : checkConfig ranges plugins cfg with
      | error error =>
        rw [hchecked] at hcheck
        cases hcheck
      | ok checked =>
        cases hencoded : encode (cfg.withID drawn) with
        | error text =>
          rw [hencoded] at hencode
          cases hencode
        | ok data => simp only [save, reserve, hchecked, hname, hencoded]

/-- The index has the names, and the configurations have the IDs under which they are kept. -/
structure Sound (m : FileManager) : Prop where
  indexes : NameIndex.Indexes WorkflowConfig.name m.configs m.nameMap
  id_eq : ∀ id cfg, m.configs.lookup id = some cfg → cfg.id = id
  visible : ∀ id ∈ m.configs, ¬ Blank id

theorem empty_sound : empty.Sound where
  indexes := NameIndex.indexes_empty
  id_eq := nofun
  visible id hid := absurd hid (notMem_empty id)

variable {m : FileManager}

theorem Sound.mem_of_name (hm : m.Sound) {name id} (hname : m.nameMap.lookup name = some id) :
    id ∈ m.configs := by
  obtain ⟨cfg, hcfg, -⟩ := (hm.indexes name id).mp hname
  exact mem_iff.mpr ⟨cfg, hcfg⟩

/-- A name that is reserved is free or belongs to the same ID. -/
theorem Sound.reserve_eq_ok (hm : m.Sound) {drawn cfg reserved}
    (hreserve : m.reserve drawn cfg = .ok reserved) :
    reserved = cfg.withID drawn ∧
      ∀ other, m.nameMap.lookup cfg.name = some other → other = reserved.id := by
  unfold reserve at hreserve
  split at hreserve
  next hnone =>
    cases hreserve
    exact ⟨rfl, fun other hother => by rw [hnone] at hother; cases hother⟩
  next existing hsome =>
    split at hreserve
    · cases hreserve
    next hsame =>
      cases hreserve
      refine ⟨rfl, fun other hother => ?_⟩
      obtain rfl : existing = other := some.inj (hsome.symm.trans hother)
      -- an ID that is in use is not blank, so that none was drawn
      have hid : existing = cfg.id := not_not.mp hsame
      have hvisible : ¬ Blank cfg.id := hid ▸ hm.visible existing (hm.mem_of_name hsome)
      rw [WorkflowConfig.withID, if_neg hvisible, hid]

theorem Sound.store (hm : m.Sound) {cfg} (hvisible : ¬ Blank cfg.id)
    (hfree : ∀ other, m.nameMap.lookup cfg.name = some other → other = cfg.id) :
    (m.store cfg).Sound where
  indexes := hm.indexes.insert hfree
  id_eq := forall_insert hm.id_eq rfl
  visible id hid := by
    rcases (mem_insert _).mp hid with rfl | hold
    · exact hvisible
    · exact hm.visible id hold

theorem Sound.save (hm : m.Sound) (encode : Encoder Json) (ranges : CheckRanges)
    (plugins : Option (PluginStore PluginBuilder)) (drawn : DrawnID) (cfg : WorkflowConfig) :
    (m.save encode ranges plugins drawn cfg).1.Sound := by
  unfold FileManager.save
  split
  · exact hm
  · split
    · exact hm
    next reserved hreserve =>
      split
      · exact hm
      · obtain ⟨rfl, hfree⟩ := hm.reserve_eq_ok hreserve
        refine hm.store (cfg.withID_visible drawn) ?_
        rwa [cfg.withID_name drawn]

/-- The configuration that is deleted has a name. -/
theorem Sound.delete (hm : m.Sound) {id} (hnamed : ∀ cfg ∈ m.configs.lookup id, cfg.name ≠ "") :
    (m.delete id).Sound := by
  have hforget : (m.delete id).nameMap =
      NameIndex.forget WorkflowConfig.name m.configs m.nameMap id := by
    unfold FileManager.delete NameIndex.forget
    cases hlookup : m.configs.lookup id with
    | none => rfl
    | some cfg => simp only [if_pos (hnamed cfg hlookup)]
  refine ⟨?_, forall_erase hm.id_eq, ?_⟩
  · rw [hforget]
    exact hm.indexes.erase id
  · intro other hother
    exact hm.visible other (mem_erase.mp hother).2

/-! ## Histories -/

inductive Update where
  | save (ranges : CheckRanges) (plugins : Option (PluginStore PluginBuilder)) (drawn : DrawnID)
      (cfg : WorkflowConfig)
  | delete (id : String)

def apply (encode : Encoder Json) (m : FileManager) : Update → FileManager
  | .save ranges plugins drawn cfg => (m.save encode ranges plugins drawn cfg).1
  | .delete id => m.delete id

/-- The state after some calls on a manager of an empty directory. -/
def after (encode : Encoder Json) (updates : List Update) : FileManager :=
  updates.foldl (apply encode) empty

/-- No configuration with an empty name is deleted. -/
def DeletesNamed (m : FileManager) : Update → Prop
  | .delete id => ∀ cfg ∈ m.configs.lookup id, cfg.name ≠ ""
  | .save _ _ _ _ => True

variable {encode : Encoder Json}

theorem Sound.apply (hm : m.Sound) {update} (hnamed : DeletesNamed m update) :
    (m.apply encode update).Sound := by
  cases update with
  | save ranges plugins drawn cfg => exact hm.save encode ranges plugins drawn cfg
  | delete id => exact hm.delete hnamed

/-- The empty name stays in the index when its configuration is deleted. -/
theorem delete_not_consistent (hm : Consistent encode m) {id}
    (hunnamed : ¬ DeletesNamed m (.delete id)) : ¬ Consistent encode (m.delete id) := by
  intro hdeleted
  simp only [DeletesNamed, not_forall, not_not] at hunnamed
  obtain ⟨cfg, hcfg, hname⟩ := hunnamed
  have hlookup : m.configs.lookup id = some cfg := hcfg
  have hstill : (m.delete id).nameMap.lookup "" = some id := by
    unfold delete
    simp only [hlookup, hname, ne_eq, not_true_eq_false, if_false]
    exact (hm.index "" id).mpr ⟨cfg, hlookup, hname⟩
  obtain ⟨found, hfound, -⟩ := (hdeleted.index "" id).mp hstill
  rw [delete, lookup_erase] at hfound
  cases hfound

/-- The steps of a history, each of which is possible. -/
def step (encode : Encoder Json) (m : FileManager) (update : Update) : Option FileManager :=
  some (m.apply encode update)

theorem run_step (m : FileManager) (updates : List Update) :
    run (step encode) m updates = some (updates.foldl (apply encode) m) := by
  induction updates generalizing m with
  | nil => rfl
  | cons update rest ih => exact ih (m.apply encode update)

/-- After every call of a history the index is consistent if and only if no configuration
with an empty name was deleted. -/
theorem after_consistent_iff (encode : Encoder Json) (updates : List Update) :
    (∀ before rest, updates = before ++ rest → Consistent encode (after encode before)) ↔
      Transition.Meets (step encode) DeletesNamed empty updates := by
  constructor
  · intro hall
    by_contra hnot
    obtain ⟨before, update, rest, middle, next, hsplit, hrun, hstep, hunnamed⟩ :=
      exists_of_not_meets (run_step empty updates) hnot
    obtain rfl : after encode before = middle :=
      some.inj ((run_step empty before).symm.trans hrun)
    have hbefore := hall before (update :: rest) hsplit
    have hafter := hall (before ++ [update]) rest (by rw [hsplit, List.append_assoc]; rfl)
    cases update with
    | save ranges plugins drawn cfg => exact hunnamed trivial
    | delete id =>
      rw [after, List.foldl_append] at hafter
      exact delete_not_consistent hbefore hunnamed hafter
  · rintro hmeets before rest rfl
    have hbefore := ((meets_append (run_step empty before)).mp hmeets).1
    have hsound := run_invariant_of_meets Sound
      (fun hm hnamed hstep => by
        cases hstep
        exact hm.apply hnamed)
      empty_sound hbefore (run_step empty before)
    exact (consistent_iff encode _).mpr hsound.indexes

def pairConfig (id name : String) : WorkflowConfig :=
  { namedConfig "x" "y" with id := id, name := name }

def drawnOne : DrawnID := ⟨"u-1", by decide⟩

def savePair (id name : String) : Update :=
  .save localRanges (some localStore) drawnOne (pairConfig id name)

/-- An unnamed configuration is deleted. Its name is still taken, and `GetWithName` answers
the zero value for it. -/
theorem unnamed_not_consistent :
    let m := after (fun _ => .ok ()) [savePair "w" "", .delete "w"]
    ¬ Consistent (fun _ => .ok ()) m ∧ m.getWithName "" = .ok .zero ∧
      (m.save (fun _ => .ok ()) localRanges (some localStore) drawnOne
        (pairConfig "v" "")).2 = .error .nameExists := by
  have hname : (after (fun _ => .ok ()) [savePair "w" "", .delete "w"]).nameMap.lookup "" =
      some "w" := by decide +kernel
  have hgone : (after (fun _ => .ok ()) [savePair "w" "", .delete "w"]).configs.lookup "w" =
      none := by decide +kernel
  have hrefused : ((after (fun _ => .ok ()) [savePair "w" "", .delete "w"]).save (fun _ => .ok ())
      localRanges (some localStore) drawnOne (pairConfig "v" "")).2 =
      .error .nameExists := by decide +kernel
  refine ⟨fun hconsistent => ?_, ?_, hrefused⟩
  · obtain ⟨cfg, hcfg, -⟩ := (hconsistent.index "" "w").mp hname
    rw [hgone] at hcfg
    cases hcfg
  · rw [getWithName, hname]
    simp only [hgone, getD_none]

end FileManager

end Voce.Engine
