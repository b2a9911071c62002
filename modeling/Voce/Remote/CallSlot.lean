import Voce.Engine.PluginReady
import Voce.Foundation.Transition

/-! # Call slots of a remote plugin

`doCall` keeps the pending call of a remote plugin in a slot, which it takes with
a compare-and-swap. A call that finds the slot taken fails with `remote call
already in progress`, and an event whose call fails is only logged. Every callback
but `OnAudio` and `OnVideo` makes one call, at some time between its beginning and
its end.
-/

namespace Voce.Remote

open Option Function Transition List

open Engine (Callback EventKind Observation)

inductive MessageType where
  | lifecycle
  | signal
  | payload

def index (multi : Bool) : MessageType → Nat
  | .lifecycle | .signal => 0
  | .payload => if multi then 1 else 0

/-- The message of a callback. Audio and video are passed through. -/
def messageType : Callback → Option MessageType
  | .onStart | .onReady | .onPause | .onResume | .onStop => some .lifecycle
  | .onEvent .signal => some .signal
  | .onEvent .payload => some .payload
  | .onEvent .audio | .onEvent .video => none

def slot (multi : Bool) (callback : Callback) : Option Nat :=
  (messageType callback).map (index multi)

structure FailedCall where
  callback : Callback
  holder : Callback
  deriving DecidableEq

structure CallSlots where
  running : List Callback
  calls : Nat → Option Callback
  failed : List FailedCall

inductive SlotLabel where
  | observe (observation : Observation)
  /-- `CompareAndSwap(nil, current)`. -/
  | acquire (callback : Callback)
  /-- The deferred `CompareAndSwap(current, nil)`. -/
  | release (callback : Callback)

/-- What the plugin is seen to do. -/
def SlotLabel.observation? : SlotLabel → Option Observation
  | .observe observation => some observation
  | .acquire _ | .release _ => none

/-- The callback that an observation ends. -/
def ended : Observation → Option Callback
  | .enter _ => none
  | .leave callback => some callback
  | .startFailed => some .onStart

def observations (labels : List SlotLabel) : List Observation :=
  labels.filterMap SlotLabel.observation?

namespace CallSlots

def initial : CallSlots := ⟨[], fun _ => none, []⟩

def Holds (s : CallSlots) (multi : Bool) (callback : Callback) : Prop :=
  ∃ k ∈ slot multi callback, s.calls k = some callback

instance (s : CallSlots) (multi : Bool) (callback : Callback) :
    Decidable (s.Holds multi callback) :=
  inferInstanceAs (Decidable (∃ k ∈ slot multi callback, s.calls k = some callback))

/-- The callback takes the slot, or fails if another one has it. -/
def acquire (s : CallSlots) (k : Nat) (callback : Callback) : Option CallSlots :=
  match s.calls k with
  | none => some { s with calls := update s.calls k (some callback) }
  | some holder =>
    if holder = callback then none
    else some { s with failed := s.failed ++ [⟨callback, holder⟩] }

def step (multi : Bool) (s : CallSlots) : SlotLabel → Option CallSlots
  | .observe observation =>
    if ∃ callback ∈ ended observation, s.Holds multi callback then none
    else some { s with running := Observation.track s.running observation }
  | .acquire callback =>
    if callback ∈ s.running then (slot multi callback).bind fun k => s.acquire k callback
    else none
  | .release callback =>
    if s.Holds multi callback then
      (slot multi callback).map fun k => { s with calls := update s.calls k none }
    else none

/-- The slots after a plugin was seen to do this, and no event has failed because
`OnReady` had its slot. -/
structure Keeps (s : CallSlots) (multi : Bool) (trace : List Observation) : Prop where
  running : s.running = Observation.running trace
  holder : ∀ k callback, s.calls k = some callback →
    callback ∈ s.running ∧ k ∈ slot multi callback
  kept : ∀ kind, ⟨.onEvent kind, .onReady⟩ ∉ s.failed

variable {multi : Bool} {s next : CallSlots} {trace : List Observation}

theorem Keeps.observe (hs : s.Keeps multi trace) {observation}
    (hstep : s.step multi (.observe observation) = some next) :
    next.Keeps multi (trace ++ [observation]) := by
  obtain ⟨hfree, hnext⟩ := ite_none_left_eq_some.mp hstep
  cases hnext
  refine ⟨?_, fun k callback hcalls => ?_, hs.kept⟩
  · rw [Observation.running_snoc, ← hs.running]
  · obtain ⟨hrunning, hslot⟩ := hs.holder k callback hcalls
    have hstays : ∀ left, ended observation = some left → callback ∈ s.running.erase left := by
      intro left hleft
      refine (mem_erase_of_ne ?_).mpr hrunning
      rintro rfl
      exact hfree ⟨callback, hleft, k, hslot, hcalls⟩
    refine ⟨?_, hslot⟩
    cases observation with
    | enter => exact mem_cons_of_mem _ hrunning
    | leave left => exact hstays left rfl
    | startFailed => exact hstays .onStart rfl

theorem Keeps.acquire (hs : s.Keeps multi trace) (halone : Observation.ReadyAlone trace) {callback}
    (hstep : s.step multi (.acquire callback) = some next) : next.Keeps multi trace := by
  obtain ⟨hrunning, hbind⟩ := ite_none_right_eq_some.mp hstep
  obtain ⟨k, hslot, hacquire⟩ := bind_eq_some_iff.mp hbind
  unfold CallSlots.acquire at hacquire
  split at hacquire
  · cases hacquire
    refine ⟨hs.running, fun j other hcalls => ?_, hs.kept⟩
    by_cases hj : j = k
    · subst hj
      simp only [update_self] at hcalls
      cases hcalls
      exact ⟨hrunning, hslot⟩
    · simp only [update_of_ne hj] at hcalls
      exact hs.holder j other hcalls
  next holder hcalls =>
    obtain ⟨hne, hnext⟩ := ite_none_left_eq_some.mp hacquire
    cases hnext
    refine ⟨hs.running, hs.holder, fun kind hmem => ?_⟩
    rcases mem_append.mp hmem with hbefore | hlast
    · exact hs.kept kind hbefore
    · -- the event runs together with `OnReady`
      cases mem_singleton.mp hlast
      have hready := (hs.holder k .onReady hcalls).1
      rw [hs.running] at hready hrunning
      cases halone.eq_onReady hready hrunning

theorem Keeps.release (hs : s.Keeps multi trace) {callback}
    (hstep : s.step multi (.release callback) = some next) : next.Keeps multi trace := by
  obtain ⟨-, hmap⟩ := ite_none_right_eq_some.mp hstep
  obtain ⟨k, -, rfl⟩ := map_eq_some_iff.mp hmap
  refine ⟨hs.running, fun j other hcalls => ?_, hs.kept⟩
  by_cases hj : j = k
  · subst hj
    simp only [update_self] at hcalls
    cases hcalls
  · simp only [update_of_ne hj] at hcalls
    exact hs.holder j other hcalls

theorem Keeps.run (hs : s.Keeps multi trace) {labels}
    (halone : Observation.ReadyAlone (trace ++ observations labels))
    (hrun : run (step multi) s labels = some next) :
    next.Keeps multi (trace ++ observations labels) := by
  induction labels generalizing s trace with
  | nil =>
    cases hrun
    simpa [observations] using hs
  | cons label rest ih =>
    obtain ⟨middle, hstep, hrest⟩ := run_cons_eq_some.mp hrun
    cases label with
    | observe observation =>
      have heq : trace ++ observations (.observe observation :: rest) =
          trace ++ [observation] ++ observations rest := by
        simp [observations, SlotLabel.observation?]
      rw [heq] at halone ⊢
      exact ih (hs.observe hstep) halone hrest
    | acquire callback => exact ih (hs.acquire halone.of_append hstep) halone hrest
    | release callback => exact ih (hs.release hstep) halone hrest

end CallSlots

/-- However the calls of the callbacks in a trace fall, no event is lost because
`OnReady` has its slot. -/
def SlotKept (trace : List Observation) : Prop :=
  ∀ multi labels final, run (CallSlots.step multi) .initial labels = some final →
    observations labels = trace → ∀ kind, ⟨.onEvent kind, .onReady⟩ ∉ final.failed

theorem slotKept_of_readyAlone {trace} (halone : Observation.ReadyAlone trace) :
    SlotKept trace := by
  rintro multi labels final hrun rfl
  have hinitial : CallSlots.initial.Keeps multi [] := ⟨rfl, nofun, nofun⟩
  exact (hinitial.run halone hrun).kept

end Voce.Remote
