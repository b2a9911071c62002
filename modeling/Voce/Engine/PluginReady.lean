import Voce.Engine.BaseNode

/-! # `OnReady` among the callbacks of a plugin

`Ready` runs on the goroutine of `Workflow.Start`, next to whatever calls the
other callbacks. This module says what it means that `OnReady` is serialized with
them, and carries it along the steps that both scheduler modes share. What runs
besides `OnStart` and `OnReady` is a parameter.
-/

namespace Voce.Engine

open List

namespace Observation

/-- `OnReady` begins when nothing runs and `OnStop` has not begun, and nothing
begins while it runs. -/
structure ReadyAlone (trace : List Observation) : Prop where
  alone : ∀ before after, trace = before ++ .enter .onReady :: after →
    running before = [] ∧ .enter .onStop ∉ before
  undisturbed : ∀ before callback after, trace = before ++ .enter callback :: after →
    .onReady ∉ running before

variable {trace : List Observation} {observation : Observation}

theorem running_snoc (trace : List Observation) (observation : Observation) :
    running (trace ++ [observation]) = track (running trace) observation := by
  simp [running]

theorem ReadyAlone.nil : ReadyAlone [] where
  alone before after heq := by simp at heq
  undisturbed before callback after heq := by simp at heq

theorem ReadyAlone.of_append {after} (halone : ReadyAlone (trace ++ after)) : ReadyAlone trace where
  alone before rest heq := halone.alone before (rest ++ after) (by simp [heq])
  undisturbed before callback rest heq :=
    halone.undisturbed before callback (rest ++ after) (by simp [heq])

/-- A trace that ends with an observation is split before it or at it. -/
theorem split_snoc {before after callback}
    (heq : trace ++ [observation] = before ++ .enter callback :: after) :
    (∃ rest, trace = before ++ .enter callback :: rest) ∨
      trace = before ∧ observation = .enter callback := by
  rcases after.eq_nil_or_concat with rfl | ⟨rest, last, rfl⟩
  · obtain ⟨hbefore, hlast⟩ := append_inj' heq rfl
    exact .inr ⟨hbefore, singleton_inj.mp hlast⟩
  · rw [concat_eq_append, ← cons_append, ← append_assoc] at heq
    exact .inl ⟨rest, (append_inj' heq rfl).1⟩

theorem ReadyAlone.snoc (halone : ReadyAlone trace)
    (hready : observation = .enter .onReady → running trace = [] ∧ .enter .onStop ∉ trace)
    (hother : ∀ callback, observation = .enter callback → .onReady ∉ running trace) :
    ReadyAlone (trace ++ [observation]) where
  alone before after heq := by
    rcases split_snoc heq with ⟨rest, heq⟩ | ⟨rfl, hlast⟩
    · exact halone.alone before rest heq
    · exact hready hlast
  undisturbed before callback after heq := by
    rcases split_snoc heq with ⟨rest, heq⟩ | ⟨rfl, hlast⟩
    · exact halone.undisturbed before callback rest heq
    · exact hother callback hlast

/-- What runs together with `OnReady` is `OnReady`. -/
theorem ReadyAlone.eq_onReady (halone : ReadyAlone trace) (hready : .onReady ∈ running trace)
    {callback} (hcallback : callback ∈ running trace) : callback = .onReady := by
  induction trace using reverseRecOn with
  | nil => cases hready
  | append_singleton trace observation ih =>
    rw [running_snoc] at hready hcallback
    cases observation with
    | enter entered =>
      have hbefore := halone.undisturbed trace entered [] rfl
      obtain rfl : .onReady = entered :=
        (mem_cons.mp hready).resolve_right hbefore
      rw [(halone.alone trace [] rfl).1] at hcallback
      simpa [track] using hcallback
    | leave left | startFailed =>
      exact ih halone.of_append (mem_of_mem_erase hready)
        (mem_of_mem_erase hcallback)

/-- What runs is active, and runs once. -/
structure Accounted (trace : List Observation) (active : Callback → Prop) : Prop where
  once : (running trace).Nodup
  active : ∀ callback ∈ running trace, active callback

variable {active next : Callback → Prop} {callback : Callback}

theorem Accounted.mono (haccounted : Accounted trace active)
    (hactive : ∀ callback, active callback → next callback) : Accounted trace next :=
  ⟨haccounted.once, fun callback hmem => hactive callback (haccounted.active callback hmem)⟩

theorem Accounted.enter (haccounted : Accounted trace active) (hnew : ¬ active callback)
    (hactive : ∀ other, active other ∨ other = callback → next other) :
    Accounted (trace ++ [.enter callback]) next := by
  constructor
  · rw [running_snoc]
    exact nodup_cons.mpr ⟨fun h => hnew (haccounted.active _ h), haccounted.once⟩
  · intro other hother
    rw [running_snoc] at hother
    rcases mem_cons.mp hother with rfl | hbefore
    · exact hactive other (.inr rfl)
    · exact hactive other (.inl (haccounted.active other hbefore))

/-- An observation after which a callback does not run any more. -/
theorem Accounted.erase (haccounted : Accounted trace active)
    (htrack : track (running trace) observation = (running trace).erase callback)
    (hactive : ∀ other, other ≠ callback → active other → next other) :
    Accounted (trace ++ [observation]) next := by
  constructor
  · rw [running_snoc, htrack]
    exact haccounted.once.erase _
  · intro other hother
    rw [running_snoc, htrack, haccounted.once.mem_erase_iff] at hother
    exact hactive other hother.1 (haccounted.active other hother.2)

end Observation

namespace BaseNode

open Observation

/-- The callbacks that run, given those that another goroutine runs. -/
def Active (n : BaseNode) (other : Callback → Prop) (callback : Callback) : Prop :=
  callback = .onStart ∧ n.start = .onStart ∨ callback = .onReady ∧ n.ready = .onReady ∨
    other callback

/-- The callbacks of the other goroutines are neither `OnStart` nor `OnReady`. -/
def Foreign (other : Callback → Prop) : Prop := ¬ other .onStart ∧ ¬ other .onReady

/-- What holds of a node as long as `OnReady` is serialized. -/
structure Serialized (n : BaseNode) (other : Callback → Prop) : Prop where
  alone : ReadyAlone n.trace
  accounted : Accounted n.trace (n.Active other)
  called : n.ready ≠ .notCalled → n.start = .returned
  stopped : .enter .onStop ∈ n.trace → n.start = .returned ∧ n.running = false

variable {n next : BaseNode} {other after : Callback → Prop}

theorem serialized_initial : initial.Serialized other :=
  ⟨.nil, ⟨nodup_nil, nofun⟩, absurd rfl, nofun⟩

variable (hn : n.Serialized other)
include hn

theorem Serialized.not_onReady (hforeign : Foreign other) (hready : n.ready ≠ .onReady) :
    .onReady ∉ Observation.running n.trace := by
  intro hmem
  rcases hn.accounted.active _ hmem with ⟨heq, -⟩ | ⟨-, heq⟩ | hother
  · cases heq
  · exact hready heq
  · exact hforeign.2 hother

/-- The running flag is not raised by what another goroutine does. -/
theorem Serialized.frame (htrace : next.trace = n.trace) (hstart : next.start = n.start)
    (hready : next.ready = n.ready) (hrunning : next.running = true → n.running = true)
    (hafter : ∀ callback, other callback → after callback) : next.Serialized after := by
  refine ⟨?_, ?_, ?_, ?_⟩
  · rw [htrace]
    exact hn.alone
  · rw [htrace]
    refine hn.accounted.mono fun callback hactive => ?_
    rw [Active, hstart, hready]
    exact hactive.imp id (Or.imp id (hafter callback))
  · rw [hstart, hready]
    exact hn.called
  · rw [htrace, hstart]
    intro hmem
    obtain ⟨hreturned, hnot⟩ := hn.stopped hmem
    refine ⟨hreturned, ?_⟩
    rw [← Bool.not_eq_true] at hnot ⊢
    exact fun h => hnot (hrunning h)

/-- Another goroutine calls the plugin. -/
theorem Serialized.enter (hforeign : Foreign other) (hready : n.ready ≠ .onReady) {callback}
    (hnew : ¬ other callback) (hcallback : callback ≠ .onStart ∧ callback ≠ .onReady)
    (hstop : callback = .onStop → n.start = .returned ∧ n.running = false)
    (hafter : ∀ entered, other entered ∨ entered = callback → after entered) :
    (n.observe (.enter callback)).Serialized after := by
  refine ⟨?_, ?_, hn.called, fun hmem => ?_⟩
  · refine hn.alone.snoc (fun heq => ?_) fun _ _ => hn.not_onReady hforeign hready
    exact absurd (Observation.enter.inj heq) hcallback.2
  · refine hn.accounted.enter ?_ fun entered hactive => ?_
    · rintro (⟨heq, -⟩ | ⟨heq, -⟩ | hother)
      · exact hcallback.1 heq
      · exact hcallback.2 heq
      · exact hnew hother
    · rcases hactive with (hstart | hready | hother) | heq
      · exact .inl hstart
      · exact .inr (.inl hready)
      · exact .inr (.inr (hafter entered (.inl hother)))
      · exact .inr (.inr (hafter entered (.inr heq)))
  · rcases mem_append.mp hmem with hbefore | hlast
    · exact hn.stopped hbefore
    · exact hstop (Observation.enter.inj (mem_singleton.mp hlast)).symm

/-- A call by another goroutine returns. -/
theorem Serialized.leave {callback}
    (hafter : ∀ running, running ≠ callback → other running → after running) :
    (n.observe (.leave callback)).Serialized after := by
  refine ⟨hn.alone.snoc nofun nofun, ?_, hn.called, fun hmem => ?_⟩
  · refine hn.accounted.erase rfl fun running hne hactive => ?_
    exact hactive.imp id (Or.imp id (hafter running hne))
  · exact hn.stopped ((mem_append.mp hmem).resolve_right (by simp))

theorem Serialized.not_called (hstart : n.start ≠ .returned) :
    n.ready = .notCalled ∧ .enter .onStop ∉ n.trace := by
  constructor
  · by_contra hready
    exact hstart (hn.called hready)
  · exact fun hmem => hstart (hn.stopped hmem).1

/-- A step of `Start` from which it does not return yet, or without an observation. -/
theorem Serialized.starting (hstart : n.start ≠ .returned) (halone : ReadyAlone next.trace)
    (haccounted : Accounted next.trace (next.Active after)) (hready : next.ready = n.ready)
    (hstop : .enter .onStop ∈ next.trace → .enter .onStop ∈ n.trace) : next.Serialized after := by
  obtain ⟨hnotCalled, hunstopped⟩ := hn.not_called hstart
  refine ⟨halone, haccounted, fun h => ?_, fun hmem => absurd (hstop hmem) hunstopped⟩
  rw [hready] at h
  exact absurd hnotCalled h

/-- `OnStart` returns. -/
theorem Serialized.startReturns (hstart : n.start = .onStart) (observation : Observation)
    (hobservation : ∀ callback, observation ≠ .enter callback)
    (htrack : track (Observation.running n.trace) observation =
      (Observation.running n.trace).erase .onStart)
    (start : NodeStart) : ({ n with start := start }.observe observation).Serialized other := by
  refine hn.starting (by rw [hstart]; nofun) ?_ ?_ rfl ?_
  · exact hn.alone.snoc (fun h => absurd h (hobservation _)) fun _ h => absurd h (hobservation _)
  · refine hn.accounted.erase htrack fun callback hne hactive => ?_
    rcases hactive with ⟨heq, -⟩ | hready | hother
    · exact absurd heq hne
    · exact .inr (.inl hready)
    · exact .inr (.inr hother)
  · intro hmem
    refine (mem_append.mp hmem).resolve_right fun hlast => ?_
    exact hobservation _ (mem_singleton.mp hlast).symm

theorem Serialized.starts (hforeign : Foreign other) {launched} (hstarts : n.Starts launched next) :
    next.Serialized other := by
  cases hstarts with
  | call hstart =>
    have hready := (hn.not_called (by rw [hstart]; nofun)).1
    refine hn.starting (by rw [hstart]; nofun) ?_ ?_ rfl ?_
    · exact hn.alone.snoc nofun fun _ _ => hn.not_onReady hforeign (by rw [hready]; nofun)
    · refine hn.accounted.enter ?_ ?_
      · rintro (⟨-, heq⟩ | ⟨heq, -⟩ | hother)
        · cases hstart.symm.trans heq
        · cases heq
        · exact hforeign.1 hother
      · rintro callback ((⟨heq, -⟩ | hready | hother) | heq)
        · exact .inl ⟨heq, rfl⟩
        · exact .inr (.inl hready)
        · exact .inr (.inr hother)
        · exact .inl ⟨heq, rfl⟩
    · exact fun hmem => (mem_append.mp hmem).resolve_right (by simp)
  | succeed hstart => exact hn.startReturns hstart (.leave .onStart) nofun rfl _
  | fail hstart => exact hn.startReturns hstart .startFailed nofun rfl _
  | store hstart =>
    refine hn.starting (by rw [hstart]; nofun) hn.alone ?_ rfl id
    refine hn.accounted.mono fun callback hactive => ?_
    rcases hactive with ⟨-, heq⟩ | hready | hother
    · cases hstart.symm.trans heq
    · exact .inr (.inl hready)
    · exact .inr (.inr hother)

/-- `OnReady` begins only on a running node of which nothing else runs. -/
theorem Serialized.readies (hforeign : Foreign other)
    (hbegin : n.ready = .call → n.running = true ∧ ∀ callback, ¬ other callback)
    (hreadies : n.Readies next) : next.Serialized other := by
  have hquiet : ∀ ready, n.start = .returned → n.ready ≠ .onReady →
      { n with ready := ready }.Serialized other := by
    intro ready hstart hready
    refine ⟨hn.alone, hn.accounted.mono fun callback hactive => ?_, fun _ => hstart, hn.stopped⟩
    rcases hactive with hstart | ⟨-, heq⟩ | hother
    · exact .inl hstart
    · exact absurd heq hready
    · exact .inr (.inr hother)
  cases hreadies with
  | call hready hstart => exact hquiet _ hstart (by rw [hready]; nofun)
  | find hready | skip hready =>
    exact hquiet _ (hn.called (by rw [hready]; nofun)) (by rw [hready]; nofun)
  | enter hready =>
    have hstart := hn.called (by rw [hready]; nofun)
    obtain ⟨hrunning, hnone⟩ := hbegin hready
    have hidle : ∀ callback, ¬ n.Active other callback := by
      rintro callback (⟨-, heq⟩ | ⟨-, heq⟩ | hother)
      · cases hstart.symm.trans heq
      · cases hready.symm.trans heq
      · exact hnone callback hother
    refine ⟨?_, ?_, fun _ => hstart, fun hmem => ?_⟩
    · refine hn.alone.snoc (fun _ => ⟨?_, fun hmem => ?_⟩) fun _ _ => ?_
      · exact eq_nil_iff_forall_not_mem.mpr fun callback hmem =>
          hidle callback (hn.accounted.active callback hmem)
      · cases hrunning.symm.trans (hn.stopped hmem).2
      · exact hn.not_onReady hforeign (by rw [hready]; nofun)
    · refine hn.accounted.enter (hidle _) fun callback hactive => ?_
      exact .inr (.inl ⟨hactive.resolve_left (hidle callback), rfl⟩)
    · exact hn.stopped ((mem_append.mp hmem).resolve_right (by simp))
  | leave hready =>
    have hstart := hn.called (by rw [hready]; nofun)
    refine ⟨hn.alone.snoc nofun nofun, ?_, fun _ => hstart, fun hmem => ?_⟩
    · refine hn.accounted.erase rfl fun callback hne hactive => ?_
      rcases hactive with ⟨-, heq⟩ | ⟨heq, -⟩ | hother
      · cases hstart.symm.trans heq
      · exact absurd heq hne
      · exact .inr (.inr hother)
    · exact hn.stopped ((mem_append.mp hmem).resolve_right (by simp))

end BaseNode

end Voce.Engine
