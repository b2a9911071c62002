import Voce.Foundation.FiniteMap

/-! # Instances of remote plugins

The state of a remote plugin is stored by its `OnStart` and `OnStop`, by the loop that
reads its stream and by the calls that events make. After `OnStart` has opened the
stream every one of these stores ends the instance. The client keeps the instances it
has registered until a cleanup finds them ended.
-/

namespace Voce.Remote

open List Option AList

inductive PluginState where
  | created
  | starting
  | streaming
  | failed
  | stopping
  | stopped
  | destroyed
  deriving DecidableEq

def PluginState.code : PluginState → Nat
  | .created => 0
  | .starting => 1
  | .streaming => 2
  | .failed => 3
  | .stopping => 4
  | .stopped => 5
  | .destroyed => 6

/-- The states that a cleanup collects. -/
def PluginState.Zombie (s : PluginState) : Prop := s = .failed ∨ s = .stopped

instance (s : PluginState) : Decidable s.Zombie := inferInstanceAs (Decidable (_ ∨ _))

inductive StartPhase where
  | notCalled
  | connecting
  | calling
  /-- Before it stores that the plugin has failed. -/
  | failing
  | returned (ok : Bool)
  deriving DecidableEq

inductive ReaderPhase where
  | off
  | receiving
  /-- The stream is over, and the loop is about to store a state. -/
  | ending (state : PluginState)
  | ended
  deriving DecidableEq

inductive StopPhase where
  | notCalled
  | calling
  /-- Before it stores that the plugin is stopped. -/
  | ending
  | ended
  deriving DecidableEq

structure Plugin where
  state : PluginState
  start : StartPhase
  reader : ReaderPhase
  stop : StopPhase

/-- What `doCall` answers. A call that was refused or canceled leaves the state alone. -/
inductive CallReply where
  | ok
  | refused
  | failed
  deriving DecidableEq

inductive PluginLabel where
  /-- `OnStart` is called, with its compare-and-swap. -/
  | onStart
  | runInstance (ok : Bool)
  | startReply (reply : CallReply)
  | startFailed
  /-- `Recv` fails. It is clean if the stream ends or its context is done. -/
  | recvFailed (clean : Bool)
  | readerEnds
  | eventFailed
  /-- `OnStop` is called, with its check of the state. -/
  | onStop
  | stopReply (reply : CallReply)
  | stopped

namespace Plugin

/-- `NewPlugin`. -/
def new : Plugin := ⟨.created, .notCalled, .off, .notCalled⟩

def replied (p : Plugin) (reply : CallReply) : PluginState :=
  if reply = .failed then .failed else p.state

def step (p : Plugin) : PluginLabel → Option Plugin
  | .onStart =>
    if p.start = .notCalled then
      if p.state = .created then some { p with state := .starting, start := .connecting }
      else some { p with start := .returned false }
    else none
  | .runInstance ok =>
    if p.start = .connecting then
      if ok then some { p with state := .streaming, start := .calling, reader := .receiving }
      else some { p with start := .failing }
    else none
  | .startReply reply =>
    if p.start = .calling then
      some { p with
        state := p.replied reply
        start := if reply = .ok then .returned true else .failing }
    else none
  | .startFailed =>
    if p.start = .failing then some { p with state := .failed, start := .returned false }
    else none
  | .recvFailed clean =>
    if p.reader = .receiving then
      some { p with
        reader := .ending (if clean ∧ p.state ≠ .failed then .stopped else .failed) }
    else none
  | .readerEnds =>
    match p.reader with
    | .ending state => some { p with state := state, reader := .ended }
    | .off | .receiving | .ended => none
  | .eventFailed =>
    if p.start = .returned true then some { p with state := .failed } else none
  | .onStop =>
    if p.start = .returned true ∧ p.stop = .notCalled then
      some { p with
        stop := if p.state.code ≥ PluginState.stopping.code then .ended else .calling }
    else none
  | .stopReply reply =>
    if p.stop = .calling then some { p with state := p.replied reply, stop := .ending }
    else none
  | .stopped =>
    if p.stop = .ending then some { p with state := .stopped, stop := .ended } else none

variable {p q : Plugin} {label : PluginLabel}

def Starts : PluginLabel → Prop
  | .onStart | .runInstance _ | .startReply _ | .startFailed => True
  | .recvFailed _ | .readerEnds | .eventFailed | .onStop | .stopReply _ | .stopped => False

def Stops : PluginLabel → Prop
  | .onStop | .stopReply _ | .stopped => True
  | .onStart | .runInstance _ | .startReply _ | .startFailed | .recvFailed _ | .readerEnds
  | .eventFailed => False

theorem step_start (hstep : p.step label = some q) (hlabel : ¬ Starts label) :
    q.start = p.start := by
  cases label <;> simp only [Starts, not_true_eq_false] at hlabel <;> simp only [step] at hstep <;>
    split at hstep <;> cases hstep <;> rfl

theorem step_stop (hstep : p.step label = some q) (hlabel : ¬ Stops label) : q.stop = p.stop := by
  cases label <;> simp only [Stops, not_true_eq_false] at hlabel <;> simp only [step] at hstep <;>
    split at hstep <;> (try split at hstep) <;> cases hstep <;> rfl

/-- What the progress of a plugin says of its state. -/
structure Sound (p : Plugin) : Prop where
  /-- Before the stream is open only `OnStart` has touched the plugin. -/
  fresh : p.start = .notCalled → p = new
  connecting : p.start = .connecting → p = ⟨.starting, .connecting, .off, .notCalled⟩
  /-- Once the stream is open the plugin streams or has ended. -/
  opened : p.reader ≠ .off → p.state = .streaming ∨ p.state.Zombie
  calling : p.start = .calling ∨ p.start = .returned true → p.reader ≠ .off
  failed : p.start = .returned false → p.state.Zombie
  ending : ∀ state, p.reader = .ending state → state.Zombie
  stops : p.stop ≠ .notCalled → p.start = .returned true
  ended : p.stop = .ended → p.state.Zombie

theorem new_sound : new.Sound where
  fresh _ := rfl
  connecting := nofun
  opened h := absurd rfl h
  calling h := by rcases h with h | h <;> cases h
  failed := nofun
  ending := nofun
  stops h := absurd rfl h
  ended := nofun

theorem failed_zombie : PluginState.failed.Zombie := .inl rfl

theorem stopped_zombie : PluginState.stopped.Zombie := .inr rfl

namespace Sound

variable (hp : p.Sound)
include hp

theorem onStart (hstep : p.step .onStart = some q) :
    p = new ∧ q = ⟨.starting, .connecting, .off, .notCalled⟩ := by
  obtain ⟨hstart, hstep⟩ := ite_none_right_eq_some.mp hstep
  obtain rfl := hp.fresh hstart
  cases hstep
  exact ⟨rfl, rfl⟩

/-- `OnStart` of an open plugin has got past the stream. -/
theorem started (hopen : p.reader ≠ .off) : p.start ≠ .notCalled ∧ p.start ≠ .connecting := by
  constructor
  · intro hstart
    exact hopen (congrArg Plugin.reader (hp.fresh hstart))
  · intro hstart
    exact hopen (congrArg Plugin.reader (hp.connecting hstart))

theorem stop_notCalled (hstart : p.start ≠ .returned true) : p.stop = .notCalled := by
  by_contra hstop
  exact hstart (hp.stops hstop)

omit hp in
theorem of_started (hstart : q.start ≠ .notCalled ∧ q.start ≠ .connecting)
    (opened : q.reader ≠ .off → q.state = .streaming ∨ q.state.Zombie)
    (calling : q.start = .calling ∨ q.start = .returned true → q.reader ≠ .off)
    (failed : q.start = .returned false → q.state.Zombie)
    (ending : ∀ state, q.reader = .ending state → state.Zombie)
    (stops : q.stop ≠ .notCalled → q.start = .returned true)
    (ended : q.stop = .ended → q.state.Zombie) : q.Sound :=
  ⟨fun h => absurd h hstart.1, fun h => absurd h hstart.2, opened, calling, failed, ending, stops,
    ended⟩

/-- A store that ends an open plugin keeps it sound. -/
theorem ends (hopen : p.reader ≠ .off) {state} (hstate : state.Zombie) :
    ({ p with state := state } : Plugin).Sound :=
  of_started (hp.started hopen) (fun _ => .inr hstate) hp.calling (fun _ => hstate) hp.ending
    hp.stops fun _ => hstate

/-- A call keeps an open plugin sound. -/
theorem replied (hopen : p.reader ≠ .off) (reply : CallReply) :
    ({ p with state := p.replied reply } : Plugin).Sound := by
  unfold Plugin.replied
  split
  · exact hp.ends hopen failed_zombie
  · exact hp

theorem startReply (hstart : p.start = .calling) (reply : CallReply) :
    ({ p with state := p.replied reply
              start := if reply = .ok then .returned true else .failing } : Plugin).Sound := by
  have hopen := hp.calling (.inl hstart)
  have hstop := hp.stop_notCalled (by rw [hstart]; nofun)
  refine of_started ?_ (hp.replied hopen reply).opened (fun _ => hopen) ?_ hp.ending
    (absurd hstop) (fun hover => (by rw [hstop] at hover; cases hover))
  · dsimp only
    split <;> exact ⟨nofun, nofun⟩
  · dsimp only
    split <;> exact nofun

/-- The read loop is about to store how the stream ended. -/
theorem recvFailed (hreader : p.reader = .receiving) (clean : Bool) :
    ({ p with reader := .ending (if clean ∧ p.state ≠ .failed then .stopped else .failed) } :
      Plugin).Sound := by
  have hopen : p.reader ≠ .off := by rw [hreader]; nofun
  refine of_started (hp.started hopen) (fun _ => hp.opened hopen) (fun _ => nofun) hp.failed
    ?_ hp.stops hp.ended
  intro state hending
  cases hending
  split
  · exact stopped_zombie
  · exact failed_zombie

/-- `OnStop` returns at once only from a plugin that has ended. -/
theorem onStop (hstart : p.start = .returned true) :
    ({ p with stop := if p.state.code ≥ PluginState.stopping.code then .ended else .calling } :
      Plugin).Sound := by
  have hopen := hp.calling (.inr hstart)
  refine of_started (hp.started hopen) hp.opened hp.calling hp.failed hp.ending
    (fun _ => hstart) ?_
  intro hover
  dsimp only at hover ⊢
  split at hover
  next hcode =>
    rcases hp.opened hopen with hstate | hzombie
    · rw [hstate] at hcode
      exact absurd hcode (by decide)
    · exact hzombie
  · cases hover

/-- A call of `OnStop` finds the plugin started and open. -/
theorem stopping (hstop : p.stop ≠ .notCalled) : p.start = .returned true ∧ p.reader ≠ .off :=
  ⟨hp.stops hstop, hp.calling (.inr (hp.stops hstop))⟩

theorem step (hstep : p.step label = some q) : q.Sound := by
  cases label with
  | onStart =>
    obtain ⟨-, rfl⟩ := hp.onStart hstep
    constructor <;> simp
  | runInstance ok =>
    obtain ⟨hstart, hnext⟩ := ite_none_right_eq_some.mp hstep
    have hp' := hp.connecting hstart
    subst hp'
    cases ok <;> (cases hnext; constructor <;> simp)
  | startReply reply =>
    obtain ⟨hstart, hnext⟩ := ite_none_right_eq_some.mp hstep
    cases hnext
    exact hp.startReply hstart reply
  | startFailed =>
    obtain ⟨hstart, hnext⟩ := ite_none_right_eq_some.mp hstep
    cases hnext
    have hstop := hp.stop_notCalled (by rw [hstart]; nofun)
    exact of_started ⟨nofun, nofun⟩ (fun _ => .inr failed_zombie) (fun h => h.elim nofun nofun)
      (fun _ => failed_zombie) hp.ending (absurd hstop) (fun _ => failed_zombie)
  | recvFailed clean =>
    obtain ⟨hreader, hnext⟩ := ite_none_right_eq_some.mp hstep
    cases hnext
    exact hp.recvFailed hreader clean
  | readerEnds =>
    simp only [Plugin.step] at hstep
    split at hstep
    next state hreader =>
      cases hstep
      have hopen : p.reader ≠ .off := by rw [hreader]; nofun
      have hzombie := hp.ending state hreader
      exact of_started (hp.started hopen) (fun _ => .inr hzombie) (fun _ => nofun)
        (fun _ => hzombie) nofun hp.stops (fun _ => hzombie)
    all_goals cases hstep
  | eventFailed =>
    obtain ⟨hstart, hnext⟩ := ite_none_right_eq_some.mp hstep
    cases hnext
    exact hp.ends (hp.calling (.inr hstart)) failed_zombie
  | onStop =>
    obtain ⟨hboth, hnext⟩ := ite_none_right_eq_some.mp hstep
    cases hnext
    exact hp.onStop hboth.1
  | stopReply reply =>
    obtain ⟨hstop, hnext⟩ := ite_none_right_eq_some.mp hstep
    cases hnext
    obtain ⟨hstart, hopen⟩ := hp.stopping (by rw [hstop]; nofun)
    have hreplied := hp.replied hopen reply
    exact of_started (hp.started hopen) hreplied.opened hp.calling hreplied.failed hp.ending
      (fun _ => hstart) nofun
  | stopped =>
    obtain ⟨hstop, hnext⟩ := ite_none_right_eq_some.mp hstep
    cases hnext
    obtain ⟨hstart, hopen⟩ := hp.stopping (by rw [hstop]; nofun)
    have hended := hp.ends hopen stopped_zombie
    exact of_started (hp.started hopen) hended.opened hended.calling hended.failed
      hended.ending (fun _ => hstart) (fun _ => stopped_zombie)

end Sound

end Plugin

/-! ## The instances of a client -/

/-- The instances that the client has registered, and the IDs of those on the server. -/
structure Instances where
  registered : AList fun _ : String => Plugin
  server : List String

namespace Instances

variable (r : Instances)

def registerInstance (id : String) (plugin : Plugin) : Except String Instances :=
  if id = "" then .error "remote instance id is empty"
  else if (r.registered.lookup id).isSome then
    .error ("remote instance already registered: " ++ id)
  else .ok { r with registered := r.registered.insert id plugin }

/-- A request that does not get through leaves the server as it is. -/
def destroyInstance (reaches : Bool) (id : String) : Instances :=
  if reaches then { r with server := r.server.filter (· ≠ id) } else r

def removeInstance (id : String) : Instances :=
  { r with registered := r.registered.erase id }

/-- `Builder.Build` with the ID it draws and what `CreateInstance` answers. An instance
that cannot be registered is destroyed again. -/
def build (id : String) (created : Except String Unit) : Instances × Except String Unit :=
  match created with
  | .error error => (r, .error error)
  | .ok () =>
    let onServer := { r with server := r.server ++ [id] }
    match onServer.registerInstance id .new with
    | .error error => (onServer.destroyInstance true id, .error error)
    | .ok registered => (registered, .ok ())

def zombies : List String :=
  (r.registered.entries.filter fun entry => entry.2.state.Zombie).map Sigma.fst

/-- Whether a request gets through depends on the instance. -/
def cleanupZombieInstances (reaches : String → Bool) : Instances :=
  r.zombies.foldl (fun r id => (r.destroyInstance (reaches id) id).removeInstance id) r

variable {r r' : Instances} {id : String}

theorem registerInstance_eq_ok {plugin} (hregister : r.registerInstance id plugin = .ok r') :
    id ∉ r.registered ∧ r'.registered = r.registered.insert id plugin := by
  unfold registerInstance at hregister
  split at hregister
  · cases hregister
  · split at hregister
    · cases hregister
    next hfree =>
      cases hregister
      rw [Bool.not_eq_true, isSome_eq_false_iff, isNone_iff_eq_none, lookup_eq_none] at hfree
      exact ⟨hfree, rfl⟩

theorem build_eq_ok {created} (hbuild : r.build id created = (r', .ok ())) :
    id ∉ r.registered ∧ r'.registered = r.registered.insert id .new := by
  unfold build at hbuild
  cases created with
  | error error => cases hbuild
  | ok answered =>
    dsimp only at hbuild
    split at hbuild
    · cases hbuild
    next hregister =>
      cases hbuild
      obtain ⟨hfree, hinsert⟩ := registerInstance_eq_ok hregister
      exact ⟨hfree, hinsert⟩

theorem build_of_error {id error created} (hbuild : r.build id created = (r', .error error)) :
    r'.registered = r.registered := by
  unfold build at hbuild
  cases created with
  | error error => cases hbuild; rfl
  | ok answered =>
    dsimp only at hbuild
    split at hbuild
    · cases hbuild; rfl
    · cases hbuild

theorem mem_zombies {r : Instances} :
    id ∈ r.zombies ↔ ∃ plugin, r.registered.lookup id = some plugin ∧ plugin.state.Zombie := by
  simp only [zombies, List.mem_map, mem_filter, decide_eq_true_eq]
  constructor
  · rintro ⟨⟨id, plugin⟩, ⟨hmem, hzombie⟩, rfl⟩
    exact ⟨plugin, mem_lookup_iff.mpr hmem, hzombie⟩
  · rintro ⟨plugin, hlookup, hzombie⟩
    exact ⟨⟨id, plugin⟩, ⟨mem_lookup_iff.mp hlookup, hzombie⟩, rfl⟩

/-- Collecting the instances of a list takes them out of the map, and off the server
where the request gets through. -/
theorem foldl_collect (reaches : String → Bool) (ids : List String) (r : Instances) :
    let collected :=
      ids.foldl (fun r id => (r.destroyInstance (reaches id) id).removeInstance id) r
    (∀ id, id ∈ collected.registered ↔ id ∈ r.registered ∧ id ∉ ids) ∧
      ∀ id, id ∈ collected.server ↔ id ∈ r.server ∧ ¬ (id ∈ ids ∧ reaches id = true) := by
  induction ids generalizing r with
  | nil => simp
  | cons first rest ih =>
    obtain ⟨hregistered, hserver⟩ :=
      ih ((r.destroyInstance (reaches first) first).removeInstance first)
    refine ⟨fun id => ?_, fun id => ?_⟩
    · have hsame : (r.destroyInstance (reaches first) first).registered = r.registered := by
        unfold destroyInstance
        split <;> rfl
      rw [foldl_cons, hregistered id, removeInstance, mem_erase, hsame, mem_cons, not_or]
      tauto
    · rw [foldl_cons, hserver id]
      by_cases hreaches : reaches first = true
      · simp only [removeInstance, destroyInstance, hreaches, if_true, mem_filter,
          decide_eq_true_eq, mem_cons]
        by_cases hid : id = first
        · subst hid
          simp [hreaches]
        · simp [hid]
      · simp only [removeInstance, destroyInstance, hreaches, mem_cons]
        by_cases hid : id = first
        · subst hid
          simp [hreaches]
        · simp [hid]

end Instances

end Voce.Remote
