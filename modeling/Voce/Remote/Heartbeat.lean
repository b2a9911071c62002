import Voce.Engine.PluginStore
import Voce.Foundation.Transition

/-! # Heartbeats and the plugins of a remote server

The manager pings every remote server. A server that fails three pings in a row is
offline, and its plugins leave the store. One that comes back, or answers under a new
ID, has its plugins listed again.
-/

namespace Voce.Remote

open List AList Transition

open Engine (Property PortMetadata Described PluginResource PluginStore)

/-! ## The client of one server -/

structure PluginServerConfig where
  url : String
  ns : String
  enable : Bool

def PluginServerConfig.clientNamespace (cfg : PluginServerConfig) : String :=
  if cfg.ns ≠ "" then cfg.ns else cfg.url

inductive ServerState where
  | online
  | abnormal
  | offline
  deriving DecidableEq

inductive PingEvent where
  | none
  | offline
  | needReload

def maxFailCount : Nat := 3

/-- What the heartbeat keeps of a client. A client is offline exactly if enough pings
in a row have failed. -/
structure Client where
  state : ServerState
  failCount : Nat
  serverId : String
  offline_iff : state = .offline ↔ maxFailCount ≤ failCount

namespace Client

/-- A client whose last ping was answered. -/
def answered (serverId : String) : Client := ⟨.online, 0, serverId, by decide⟩

/-- The answer to a ping is the ID of the server. -/
def doPing (c : Client) : Option String → Client × PingEvent
  | none =>
    if h : maxFailCount ≤ c.failCount + 1 then
      (⟨.offline, c.failCount + 1, c.serverId, by simp [h]⟩,
        if c.state ≠ .offline then .offline else .none)
    else (⟨.abnormal, c.failCount + 1, c.serverId, by simpa using h⟩, .none)
  | some newServerId =>
    (.answered newServerId,
      if c.state = .offline then .needReload
      else if c.serverId ≠ newServerId then .needReload
      else .none)

end Client

/-! ## The states of a client over many pings -/

/-- The pings that failed in a row at the end. -/
def failures (pings : List (Option String)) : Nat :=
  (pings.reverse.takeWhile Option.isNone).length

/-- The server ID of the last answer, or of `Dial`. -/
def lastServerId (dialed : String) (pings : List (Option String)) : String :=
  (pings.filterMap id).getLastD dialed

namespace Client

/-- A client that `Dial` has returned, after the pings. -/
def after (dialed : String) (pings : List (Option String)) : Client :=
  pings.foldl (fun c ping => (c.doPing ping).1) (.answered dialed)

/-- What the next `DoPing` returns. -/
def event (dialed : String) (pings : List (Option String)) (ping : Option String) : PingEvent :=
  ((after dialed pings).doPing ping).2

/-- The client has counted the failures and goes by their number. -/
structure Counts (c : Client) (failed : Nat) (serverId : String) : Prop where
  failCount : c.failCount = failed
  serverId : c.serverId = serverId
  online_iff : c.state = .online ↔ failed = 0

theorem Counts.doPing {c failed serverId} (h : Counts c failed serverId) (ping : Option String) :
    Counts (c.doPing ping).1 (ping.elim (failed + 1) fun _ => 0) (ping.getD serverId) := by
  cases ping with
  | some newServerId => exact ⟨rfl, rfl, iff_of_true rfl rfl⟩
  | none =>
    simp only [Client.doPing]
    split
    · exact ⟨congrArg (· + 1) h.failCount, h.serverId, by simp⟩
    · exact ⟨congrArg (· + 1) h.failCount, h.serverId, by simp⟩

variable (dialed : String) (pings : List (Option String))

theorem after_counts :
    Counts (after dialed pings) (failures pings) (lastServerId dialed pings) := by
  induction pings using reverseRecOn with
  | nil => exact ⟨rfl, rfl, iff_of_true rfl rfl⟩
  | append_singleton pings ping ih =>
    have hnext := ih.doPing ping
    have hafter : after dialed (pings ++ [ping]) = ((after dialed pings).doPing ping).1 := by
      rw [after, foldl_concat, after]
    rw [hafter]
    cases ping with
    | none | some newServerId => simpa [failures, lastServerId] using hnext

theorem offline_iff_failures : (after dialed pings).state = .offline ↔ 3 ≤ failures pings := by
  rw [(after dialed pings).offline_iff, (after_counts dialed pings).failCount]
  rfl

theorem event_failed :
    event dialed pings none = if failures pings = 2 then .offline else .none := by
  have hoffline := offline_iff_failures dialed pings
  simp only [event, Client.doPing, (after_counts dialed pings).failCount, maxFailCount]
  by_cases hmany : 3 ≤ failures pings + 1
  · by_cases hstate : (after dialed pings).state = .offline
    · rw [dif_pos hmany, if_neg (not_not.mpr hstate), if_neg (by have := hoffline.mp hstate; omega)]
    · rw [dif_pos hmany, if_pos hstate, if_pos (by have := mt hoffline.mpr hstate; omega)]
  · rw [dif_neg hmany, if_neg (by omega)]

theorem event_answered (serverId : String) : event dialed pings (some serverId) =
      if 3 ≤ failures pings ∨ serverId ≠ lastServerId dialed pings then .needReload else .none := by
  simp only [event, Client.doPing, offline_iff_failures, (after_counts dialed pings).serverId]
  by_cases hmany : 3 ≤ failures pings
  · simp [hmany]
  · simp [hmany, ne_comm]

/-- The failures go on as long as no ping is answered. -/
theorem failures_append_of_failed {rest} (hrest : ∀ p ∈ rest, p = none) :
    failures (pings ++ rest) = failures pings + rest.length := by
  rw [failures, reverse_append, takeWhile_append_of_pos, length_append,
    length_reverse, Nat.add_comm, failures]
  simpa using hrest

/-- The states and events of a client are those that the runs of failed pings tell. -/
theorem ping_stateMachine :
    ((after dialed pings).state = .online ↔ failures pings = 0) ∧
    ((after dialed pings).state = .abnormal ↔ failures pings = 1 ∨ failures pings = 2) ∧
    ((after dialed pings).state = .offline ↔ 3 ≤ failures pings) ∧
    (∀ ping, event dialed pings ping = .offline ↔ ping = none ∧ failures pings = 2) ∧
    (∀ ping, event dialed pings ping = .needReload ↔ ∃ serverId, ping = some serverId ∧
      (3 ≤ failures pings ∨ serverId ≠ lastServerId dialed pings)) ∧
    ∀ first between second, event dialed pings first = .offline →
      event dialed (pings ++ first :: between) second = .offline →
      ∃ before ping rest, between = before ++ ping :: rest ∧
        event dialed (pings ++ first :: before) ping = .needReload := by
  have honline := (after_counts dialed pings).online_iff
  have hoffline := offline_iff_failures dialed pings
  have hevent : ∀ pings ping, event dialed pings ping = .offline ↔
      ping = none ∧ failures pings = 2 := by
    intro pings ping
    cases ping with
    | none => simp [event_failed]
    | some serverId =>
      rw [event_answered]
      split <;> simp
  refine ⟨honline, ?_, hoffline, hevent pings, ?_, ?_⟩
  · cases hstate : (after dialed pings).state <;> rw [hstate] at honline hoffline <;>
      simp at honline hoffline ⊢ <;> omega
  · intro ping
    cases ping with
    | none =>
      rw [event_failed]
      split <;> simp
    | some serverId =>
      rw [event_answered]
      split <;> simp_all
  · intro first between second hfirst hsecond
    obtain ⟨rfl, htwo⟩ := (hevent pings first).mp hfirst
    have hend := ((hevent _ second).mp hsecond).2
    have hfailed : ∀ rest : List (Option String), (∀ p ∈ rest, p = none) →
        3 ≤ failures (pings ++ none :: rest) := by
      intro rest hrest
      rw [failures_append_of_failed pings (by simpa using hrest), length_cons]
      omega
    -- the first answer between the two events follows three failures at least
    cases hfind : between.find? Option.isSome with
    | none =>
      have hmany := hfailed between (by simpa using hfind)
      omega
    | some ping =>
      obtain ⟨hanswer, before, rest, rfl, hbefore⟩ := find?_eq_some_iff_append.mp hfind
      obtain ⟨serverId, rfl⟩ := Option.isSome_iff_exists.mp hanswer
      refine ⟨before, some serverId, rest, rfl, ?_⟩
      rw [event_answered, if_pos (.inl (hfailed before (by simpa using hbefore)))]

end Client

/-! ## The plugins of a server -/

structure PluginMetadata where
  name : String
  description : String
  schema : String
  inputs : List Property
  outputs : List Property
  ports : List PortMetadata

/-- A builder of the client, with what the server has said of the plugin. -/
structure Builder where
  metadata : PluginMetadata

instance : Described Builder where
  name b := b.metadata.name
  ports b := b.metadata.ports

section Reload

-- what unmarshalling the text of a schema answers
variable (unmarshal : String → Except String Unit)

def decodeSchema (data : String) : Except String Unit :=
  if data = "" then .ok () else unmarshal data

def newBuilder (metadata : PluginMetadata) : Except String Builder :=
  if metadata.name = "" then .error "remote plugin name is empty"
  else
    match decodeSchema unmarshal metadata.schema with
    | .error error => .error ("decode remote plugin schema " ++ metadata.name ++ ": " ++ error)
    | .ok () => .ok ⟨metadata⟩

/-- Register one plugin. Errors are logged, and the plugin is left out. -/
def registerPlugin (resource : PluginResource Builder) (metadata : PluginMetadata) :
    PluginResource Builder :=
  match newBuilder unmarshal metadata with
  | .error _ => resource
  | .ok builder =>
    match resource.registerBuilder builder with
    | .error _ => resource
    | .ok registered => registered

def pluginResource (ns : String) (plugins : List PluginMetadata) : PluginResource Builder :=
  plugins.foldl (registerPlugin unmarshal) (.new ns)

/-- `listed` is what `ListPlugins` answers. Errors are logged. -/
def handleReload (ns : String) (listed : Except String (List PluginMetadata))
    (store : PluginStore Builder) : PluginStore Builder :=
  match listed with
  | .error _ => store
  | .ok plugins =>
    match store.addResource (pluginResource unmarshal ns plugins) with
    | .error _ => store
    | .ok added => added

def handleOffline (ns : String) (store : PluginStore Builder) : PluginStore Builder :=
  store.removeResource ns

/-- The manager, as far as one client goes. The listed plugins are those that the
server instance last recorded has listed. The code does not keep them. -/
structure Manager where
  client : Client
  store : PluginStore Builder
  listed : List PluginMetadata

/-- One ping, and what `ListPlugins` answers if it is called after it. -/
structure Heartbeat where
  ping : Option String
  listed : Except String (List PluginMetadata)

namespace Manager

def reload (m : Manager) (ns : String) (listed : Except String (List PluginMetadata)) : Manager :=
  { m with
    store := handleReload unmarshal ns listed m.store
    listed :=
      match listed with
      | .error _ => m.listed
      | .ok plugins => plugins }

/-- What `pingAll` does for the client. -/
def handle (m : Manager) (ns : String) (h : Heartbeat) : Manager :=
  let (client, event) := m.client.doPing h.ping
  let pinged := { m with client := client }
  match event with
  | .none => pinged
  | .offline => { pinged with store := handleOffline ns m.store }
  | .needReload => pinged.reload unmarshal ns h.listed

def handleAll (m : Manager) (ns : String) (heartbeats : List Heartbeat) : Manager :=
  heartbeats.foldl (fun m h => m.handle unmarshal ns h) m

/-- `dialed` is what the first ping answers. -/
def addRemote (store : PluginStore Builder) (cfg : PluginServerConfig)
    (dialed : Except String String) (listed : Except String (List PluginMetadata)) :
    Except String Manager :=
  if cfg.enable = false ∨ cfg.url = "" then .error "invalid or disabled config"
  else
    match dialed with
    | .error error => .error ("ping remote plugin server " ++ cfg.url ++ ": " ++ error)
    | .ok serverId =>
      .ok (reload unmarshal ⟨.answered serverId, store, []⟩ cfg.clientNamespace listed)

end Manager

/-! ## What is listed is registered -/

variable {unmarshal}

variable (unmarshal) in
structure PluginMetadata.Valid (metadata : PluginMetadata) : Prop where
  named : metadata.name ≠ ""
  schema : decodeSchema unmarshal metadata.schema = .ok ()
  ports : ∀ port ∈ metadata.ports, port.validate = .ok ()

variable (unmarshal) in
/-- A set of plugins, each of which can be registered. -/
structure ValidListing (plugins : List PluginMetadata) : Prop where
  each : ∀ metadata ∈ plugins, metadata.Valid unmarshal
  distinct : (plugins.map PluginMetadata.name).Nodup

variable {resource : PluginResource Builder}

theorem registerPlugin_of_valid {metadata} (hvalid : metadata.Valid unmarshal)
    (hfree : metadata.name ∉ resource.builders) :
    registerPlugin unmarshal resource metadata =
      { resource with builders := resource.builders.insert metadata.name ⟨metadata⟩ } := by
  have hbuilder : newBuilder unmarshal metadata = .ok ⟨metadata⟩ := by
    unfold newBuilder
    rw [if_neg hvalid.named, hvalid.schema]
  have hregister : resource.registerBuilder (⟨metadata⟩ : Builder) = .ok _ :=
    PluginResource.registerBuilder_eq_ok hvalid.named hvalid.ports hfree
  rw [registerPlugin, hbuilder]
  dsimp only
  rw [hregister]
  rfl

/-- The resource holds these plugins and no others, each under its name. -/
def Contains (resource : PluginResource Builder) (plugins : List PluginMetadata) : Prop :=
  ∀ name builder, resource.loadBuilder name = some builder ↔
    builder.metadata ∈ plugins ∧ builder.metadata.name = name

variable {plugins : List PluginMetadata}

theorem foldl_registerPlugin (hvalid : ValidListing unmarshal plugins)
    (hfree : ∀ metadata ∈ plugins, metadata.name ∉ resource.builders) (name : String)
    (builder : Builder) :
    (plugins.foldl (registerPlugin unmarshal) resource).loadBuilder name = some builder ↔
      resource.loadBuilder name = some builder ∨
        builder.metadata ∈ plugins ∧ builder.metadata.name = name := by
  induction plugins generalizing resource with
  | nil => simp
  | cons metadata rest ih =>
    have hdistinct := nodup_cons.mp hvalid.distinct
    have hlater : ∀ other ∈ rest, other.name ≠ metadata.name := by
      intro other hother heq
      exact hdistinct.1 (heq ▸ mem_map_of_mem hother)
    rw [foldl_cons, registerPlugin_of_valid (hvalid.each _ mem_cons_self)
      (hfree _ mem_cons_self),
      ih ⟨fun other hother => hvalid.each other (mem_cons_of_mem _ hother), hdistinct.2⟩]
    · unfold PluginResource.loadBuilder
      rw [mem_cons, or_and_right, ← or_assoc]
      refine or_congr_left ?_
      by_cases hname : name = metadata.name
      · subst hname
        have hnone := lookup_eq_none.mpr (hfree _ mem_cons_self)
        rw [lookup_insert, hnone]
        constructor
        · intro heq
          cases heq
          exact .inr ⟨rfl, rfl⟩
        · rintro (hlookup | ⟨heq, -⟩)
          · cases hlookup
          · cases heq
            rfl
      · rw [lookup_insert_ne hname]
        refine ⟨.inl, ?_⟩
        rintro (hlookup | ⟨heq, hsame⟩)
        · exact hlookup
        · exact absurd (heq ▸ hsame).symm hname
    · intro other hother hmem
      rcases (mem_insert _).mp hmem with heq | hold
      · exact hlater other hother heq
      · exact hfree other (mem_cons_of_mem _ hother) hold

theorem pluginResource_contains (hvalid : ValidListing unmarshal plugins) (ns : String) :
    Contains (pluginResource unmarshal ns plugins) plugins := by
  intro name builder
  rw [pluginResource, foldl_registerPlugin hvalid (fun _ _ => (notMem_empty _))]
  simp [PluginResource.new, PluginResource.loadBuilder]

theorem registerPlugin_ns (resource : PluginResource Builder) (metadata : PluginMetadata) :
    (registerPlugin unmarshal resource metadata).ns = resource.ns := by
  unfold registerPlugin
  split
  · rfl
  · split
    · rfl
    next hregister => exact PluginResource.registerBuilder_ns hregister

variable (unmarshal) in
theorem pluginResource_ns (ns : String) (plugins : List PluginMetadata) :
    (pluginResource unmarshal ns plugins).ns = ns := by
  suffices h : ∀ resource : PluginResource Builder,
      (plugins.foldl (registerPlugin unmarshal) resource).ns = resource.ns from h _
  induction plugins with
  | nil => exact fun _ => rfl
  | cons metadata rest ih =>
    intro resource
    rw [foldl_cons, ih, registerPlugin_ns]

/-- A resource holds one set of plugins. -/
theorem Contains.congr {plugins others} (hcontains : Contains resource plugins) :
    Contains resource others ↔ others ⊆ plugins ∧ plugins ⊆ others := by
  constructor
  · intro hothers
    have hmem : ∀ metadata : PluginMetadata, metadata ∈ others ↔ metadata ∈ plugins := by
      intro metadata
      have heq := (hothers metadata.name ⟨metadata⟩).symm.trans (hcontains metadata.name ⟨metadata⟩)
      simpa using heq
    exact ⟨fun metadata => (hmem metadata).mp, fun metadata => (hmem metadata).mpr⟩
  · rintro ⟨hsub, hsup⟩ name builder
    rw [hcontains name builder]
    exact and_congr_left fun _ => ⟨fun h => hsup h, fun h => hsub h⟩

theorem handleReload_of_not_mem {ns store} (hns : ns ≠ "") (hfree : ns ∉ store) :
    (handleReload unmarshal ns (.ok plugins) store).lookup ns =
      some (pluginResource unmarshal ns plugins) := by
  have hresource := pluginResource_ns unmarshal ns plugins
  have hadd := PluginStore.addResource_of_not_mem (hresource.symm ▸ hns) (hresource.symm ▸ hfree)
  rw [handleReload, hadd, hresource]
  exact lookup_insert _

/-- A reload under a namespace that is taken changes nothing. -/
theorem handleReload_of_mem {ns listed store} (hmem : ns ∈ store) :
    handleReload unmarshal ns listed store = store := by
  unfold handleReload
  split
  · rfl
  next plugins =>
    have hresource := pluginResource_ns unmarshal ns plugins
    obtain ⟨error, hadd⟩ := PluginStore.exists_addResource_error (hresource.symm ▸ hmem)
    rw [hadd]

/-! ## The store follows the server -/

/-- The resource of the namespace holds what the server instance last recorded has
listed. While the client is offline there is none. -/
structure Follows (ns : String) (m : Manager) : Prop where
  absent : m.client.state = .offline → ns ∉ m.store
  present : m.client.state ≠ .offline →
    ∃ resource, m.store.lookup ns = some resource ∧ Contains resource m.listed

/-- A client goes offline under a namespace that can be removed, and a server that
comes back under a new ID before it is offline lists the plugins it had. -/
def KeepsUp (ns : String) (m : Manager) (h : Heartbeat) : Prop :=
  m.client.state ≠ .offline →
    match h.ping with
    | none => maxFailCount ≤ m.client.failCount + 1 → PluginStore.Removable ns
    | some serverId => m.client.serverId ≠ serverId → ∀ plugins, h.listed = .ok plugins →
        plugins ⊆ m.listed ∧ m.listed ⊆ plugins

variable {ns : String} {m : Manager} {h : Heartbeat}

namespace Follows

theorem mem (hm : Follows ns m) (hstate : m.client.state ≠ .offline) : ns ∈ m.store := by
  obtain ⟨resource, hlookup, -⟩ := hm.present hstate
  exact FiniteMap.mem_iff.mpr ⟨resource, hlookup⟩

theorem handle_failed (hm : Follows ns m) (hping : h.ping = none) :
    Follows ns (m.handle unmarshal ns h) ↔ KeepsUp ns m h := by
  unfold Manager.handle KeepsUp Client.doPing
  rw [hping]
  by_cases hcount : maxFailCount ≤ m.client.failCount + 1
  · simp only [hcount, dite_true, true_imp_iff]
    by_cases hstate : m.client.state = .offline
    · simp only [hstate, ne_eq, not_true_eq_false, if_false, false_imp_iff, iff_true]
      exact ⟨fun _ => hm.absent hstate, absurd rfl⟩
    · simp only [hstate, ne_eq, not_false_eq_true, if_true, true_imp_iff, handleOffline]
      rw [← PluginStore.not_mem_removeResource_iff (hm.mem hstate)]
      exact ⟨fun hnext => hnext.absent rfl, fun hnot => ⟨fun _ => hnot, absurd rfl⟩⟩
  · -- the client was not offline, and is not yet
    have hstate : m.client.state ≠ .offline := by
      intro hoffline
      have := m.client.offline_iff.mp hoffline
      omega
    simp only [hcount, dite_false, false_imp_iff, implies_true, iff_true]
    exact ⟨nofun, fun _ => hm.present hstate⟩

theorem handle_answered (hm : Follows ns m) (hns : ns ≠ "") {serverId}
    (hping : h.ping = some serverId) {plugins} (hlisted : h.listed = .ok plugins)
    (hvalid : ValidListing unmarshal plugins) :
    Follows ns (m.handle unmarshal ns h) ↔ KeepsUp ns m h := by
  unfold Manager.handle KeepsUp Client.doPing Manager.reload
  rw [hping, hlisted]
  have honline : (Client.answered serverId).state ≠ .offline := nofun
  by_cases hstate : m.client.state = .offline
  · simp only [hstate, if_true, ne_eq, not_true_eq_false, false_imp_iff, iff_true]
    refine ⟨fun hoffline => absurd hoffline honline, fun _ => ?_⟩
    exact ⟨_, handleReload_of_not_mem hns (hm.absent hstate), pluginResource_contains hvalid ns⟩
  · obtain ⟨resource, hlookup, hcontains⟩ := hm.present hstate
    by_cases hid : m.client.serverId = serverId
    · simp only [hstate, hid, if_false, ne_eq, not_true_eq_false, false_imp_iff, implies_true,
        iff_true]
      exact ⟨fun hoffline => absurd hoffline honline, fun _ => ⟨resource, hlookup, hcontains⟩⟩
    · simp only [hstate, hid, if_false, if_true, ne_eq, not_false_eq_true, true_imp_iff,
        Except.ok.injEq, forall_eq']
      -- the namespace is taken, so the resource stays as it was
      rw [← hcontains.congr]
      constructor
      · intro hnext
        obtain ⟨other, hother, hothers⟩ := hnext.present honline
        rw [handleReload_of_mem (hm.mem hstate), hlookup] at hother
        cases hother
        exact hothers
      · intro hothers
        refine ⟨fun hoffline => absurd hoffline honline, fun _ => ⟨resource, ?_, hothers⟩⟩
        rw [handleReload_of_mem (hm.mem hstate), hlookup]

end Follows

variable (unmarshal) in
/-- `ListPlugins` succeeds with valid metadata. -/
def Heartbeat.Lists (h : Heartbeat) : Prop :=
  ∃ plugins, h.listed = .ok plugins ∧ ValidListing unmarshal plugins

theorem Follows.handle_iff (hm : Follows ns m) (hns : ns ≠ "") (hlists : h.Lists unmarshal) :
    Follows ns (m.handle unmarshal ns h) ↔ KeepsUp ns m h := by
  obtain ⟨plugins, hlisted, hvalid⟩ := hlists
  cases hping : h.ping with
  | none => exact hm.handle_failed hping
  | some serverId => exact hm.handle_answered hns hping hlisted hvalid

theorem Follows.handleAll_iff {heartbeats} (hm : Follows ns m) (hns : ns ≠ "")
    (hlists : ∀ h ∈ heartbeats, h.Lists unmarshal) :
    (∀ before, before <+: heartbeats → Follows ns (m.handleAll unmarshal ns before)) ↔
      Meets (fun m h => some (m.handle unmarshal ns h)) (KeepsUp ns) m heartbeats := by
  induction heartbeats generalizing m with
  | nil =>
    refine iff_of_true ?_ trivial
    intro before hbefore
    rw [prefix_nil.mp hbefore]
    exact hm
  | cons h rest ih =>
    have hstep := hm.handle_iff hns (hlists h mem_cons_self)
    have hrest := fun other hother => hlists other (mem_cons_of_mem h hother)
    rw [meets_cons rfl, ← hstep]
    constructor
    · intro hall
      have hnext : Follows ns (m.handle unmarshal ns h) :=
        hall [h] (cons_prefix_cons.mpr ⟨rfl, nil_prefix⟩)
      refine ⟨hnext, (ih hnext hrest).mp ?_⟩
      intro before hbefore
      exact hall (h :: before) (cons_prefix_cons.mpr ⟨rfl, hbefore⟩)
    · rintro ⟨hnext, hmeets⟩ before hbefore
      rcases prefix_cons_iff.mp hbefore with rfl | ⟨later, rfl, hlater⟩
      · exact hm
      · exact (ih hnext hrest).mpr hmeets later hlater

theorem addRemote_eq_ok {store cfg dialed listed}
    (hadd : Manager.addRemote unmarshal store cfg dialed listed = .ok m) :
    cfg.clientNamespace ≠ "" ∧ ∃ serverId,
      m = Manager.reload unmarshal ⟨.answered serverId, store, []⟩ cfg.clientNamespace listed := by
  unfold Manager.addRemote at hadd
  split at hadd
  · cases hadd
  next hcfg =>
    cases dialed with
    | error error => cases hadd
    | ok serverId =>
      cases hadd
      refine ⟨?_, serverId, rfl⟩
      rw [not_or] at hcfg
      unfold PluginServerConfig.clientNamespace
      split
      next hns => exact hns
      · exact hcfg.2

/-- From the moment a remote server is added under a namespace that is free, the store
follows it through every heartbeat exactly if every heartbeat keeps up with it. -/
theorem handleAll_follows_iff {store : PluginStore Builder} {cfg : PluginServerConfig}
    {dialed : Except String String} {plugins : List PluginMetadata} {heartbeats : List Heartbeat}
    (hfree : cfg.clientNamespace ∉ store)
    (hadd : Manager.addRemote unmarshal store cfg dialed (.ok plugins) = .ok m)
    (hplugins : ValidListing unmarshal plugins) (hlists : ∀ h ∈ heartbeats, h.Lists unmarshal) :
    (∀ before, before <+: heartbeats →
        Follows cfg.clientNamespace (m.handleAll unmarshal cfg.clientNamespace before)) ↔
      Meets (fun m h => some (m.handle unmarshal cfg.clientNamespace h))
        (KeepsUp cfg.clientNamespace) m heartbeats := by
  obtain ⟨hns, serverId, rfl⟩ := addRemote_eq_ok hadd
  refine Follows.handleAll_iff ⟨nofun, fun _ => ?_⟩ hns hlists
  exact ⟨_, handleReload_of_not_mem hns hfree, pluginResource_contains hplugins _⟩

end Reload

/-! ## An outage and a restart -/

section Examples

/-- A plugin without properties and ports. -/
def plainPlugin (name : String) : PluginMetadata := ⟨name, "", "", [], [], []⟩

theorem validListing_plainPlugin (unmarshal : String → Except String Unit) {name}
    (hname : name ≠ "") : ValidListing unmarshal [plainPlugin name] := by
  refine ⟨?_, nodup_singleton _⟩
  intro metadata hmem
  rw [mem_singleton.mp hmem]
  exact ⟨hname, rfl, fun port hport => absurd hport not_mem_nil⟩

def textServer : PluginServerConfig := ⟨"text:7000", "text", true⟩

/-- The server is down for three pings and comes back with another plugin. -/
def outage : List Heartbeat :=
  [⟨none, .ok []⟩, ⟨none, .ok []⟩, ⟨none, .ok []⟩, ⟨some "second", .ok [plainPlugin "filter"]⟩]

/-- The server restarts between two pings, with another plugin. -/
def restart : Heartbeat := ⟨some "second", .ok [plainPlugin "filter"]⟩

/-- Every schema is well formed. -/
def accepts : String → Except String Unit := fun _ => .ok ()

def textManager : Manager :=
  Manager.reload accepts ⟨.answered "first", ∅, []⟩ "text" (.ok [plainPlugin "reverse"])

theorem addRemote_textServer :
    Manager.addRemote accepts ∅ textServer (.ok "first") (.ok [plainPlugin "reverse"]) =
      .ok textManager := rfl

theorem handleAll_follows_iff_outage :
    Follows "text" (textManager.handleAll accepts "text" outage) := by
  have hempty : ValidListing accepts [] := ⟨by simp, nodup_nil⟩
  have hfilter := validListing_plainPlugin accepts (show "filter" ≠ "" by decide)
  refine (handleAll_follows_iff (AList.notMem_empty _) addRemote_textServer
    (validListing_plainPlugin accepts (by decide)) ?_).mpr ?_ outage prefix_rfl
  · intro h hmem
    simp only [outage, mem_cons, not_mem_nil, or_false] at hmem
    rcases hmem with rfl | rfl | rfl | rfl
    · exact ⟨_, rfl, hempty⟩
    · exact ⟨_, rfl, hempty⟩
    · exact ⟨_, rfl, hempty⟩
    · exact ⟨_, rfl, hfilter⟩
  · refine ⟨?_, ?_, ?_, ?_, trivial⟩
    · exact fun _ hcount => absurd hcount (by decide)
    · exact fun _ hcount => absurd hcount (by decide)
    · exact fun _ _ => by decide +kernel
    · exact absurd rfl

/-- After a restart between two pings the store still has the plugins of the server
that is gone. -/
theorem restart_not_follows :
    restart.Lists accepts ∧ ¬ Follows "text" (textManager.handle accepts "text" restart) := by
  refine ⟨⟨_, rfl, validListing_plainPlugin accepts (by decide)⟩, ?_⟩
  intro hfollows
  obtain ⟨resource, hlookup, hcontains⟩ := hfollows.present (by decide)
  have hnew : resource.loadBuilder "filter" = some ⟨plainPlugin "filter"⟩ :=
    (hcontains _ _).mpr ⟨mem_singleton_self _, rfl⟩
  have hold : ((textManager.handle accepts "text" restart).store.lookup "text").bind
      (fun resource => resource.loadBuilder "filter") = none := by decide
  rw [hlookup, Option.bind_some, hnew] at hold
  cases hold

end Examples

end Voce.Remote
