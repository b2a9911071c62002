import Voce.Engine.WorkflowState
import Voce.Machine.ConnectionManagerSelection

/-! # Removal of a session and its write loop

`RemoveSession` and `Cleanup` take a session out of the map, run the connection
manager's observer and stop the workflow. The session's write loop goes on until it
notices the stop, and asks for a connection whenever it has none that is active. Both
goroutines interleave at the critical sections of the connection manager, at the atomic
reads of a connection's state and at the operations on the output channel, among
connections that come and go and the requests of other sessions.
-/

namespace Voce.Machine

open Engine Protocol ConnectionManager Transition Option

/-- Where `sessionWriteLoop` is, with the connection it holds. -/
inductive WriteLoop where
  | receive (conn : Option ConnRef)
  | check (conn : Option ConnRef)
  | select
  | write (conn : Option ConnRef)
  | ended
  deriving DecidableEq

inductive RemovalCall where
  | removeSession
  | cleanup
  deriving DecidableEq

/-- Where the call is that removes the session, by its next operation. -/
inductive Removal where
  | delete
  | observe (call : RemovalCall) (phase : NotifyPhase)
  | checkState
  | swap
  | cancel
  | stopNodes
  | closeOutput
  | drain
  | returned
  deriving DecidableEq

/-- The operation after the observer. -/
def RemovalCall.stop : RemovalCall → Removal
  | .removeSession => .checkState
  | .cleanup => .swap

/-- The observer has done its last `Release`. -/
def Removal.Released : Removal → Prop
  | .delete | .observe _ _ => False
  | _ => True

instance (removal : Removal) : Decidable removal.Released := by
  unfold Removal.Released
  split <;> infer_instance

/-- One session of a machine, with the goroutines that use its key. -/
structure SessionRemoval (Key : Type) where
  key : Key
  manager : ConnectionManager Key
  workflow : WorkflowState
  cancelled : Bool
  outputClosed : Bool
  output : Nat
  loop : WriteLoop
  removal : Removal

variable {Key : Type}

namespace SessionRemoval

/-- The next operation of the write loop or of the removal, a packet that the workflow
puts out, or an operation of the connection manager for a connection or another key. -/
inductive Label (Key : Type) where
  | publish
  | pause
  | resume
  | loopDone
  | loopReceive
  | loopCheck
  | loopSelect
  | loopWrite
  | delete (call : RemovalCall)
  | remove
  /-- `Connection.Write` of the observer, with its outcome. -/
  | notify (ok : Bool)
  | manager (op : Op Key)

def initial (key : Key) : SessionRemoval Key where
  key := key
  manager := newConnectionManager
  workflow := .running
  cancelled := false
  outputClosed := false
  output := 0
  loop := .receive none
  removal := .delete

variable [DecidableEq Key] (s : SessionRemoval Key)

/-- The operation is one of a connection or of another session. -/
def Foreign : Op Key → Prop
  | .select key | .lookup key | .release key => key ≠ s.key
  | .store _ | .remove _ | .setConnState _ _ => True

instance : (op : Op Key) → Decidable (s.Foreign op) := by
  intro op
  unfold Foreign
  split <;> infer_instance

/-- The next operation of the call that removes the session, apart from its writes. -/
def removeNext : Option (SessionRemoval Key) :=
  match s.removal with
  | .observe call phase => (phase.next s.manager s.key).map fun moved =>
    { s with manager := moved.2, removal := moved.1.elim call.stop (.observe call) }
  | .checkState =>
    some { s with removal := if s.workflow = .stopped then .returned else .swap }
  | .swap =>
    some { s with
      workflow := .stopped
      removal := if s.workflow = .stopped then .returned else .cancel }
  | .cancel => some { s with cancelled := true, removal := .stopNodes }
  | .stopNodes => some { s with removal := .closeOutput }
  | .closeOutput => some { s with outputClosed := true, removal := .drain }
  | .drain =>
    match s.output with
    | 0 => some { s with removal := .returned }
    | n + 1 => some { s with output := n }
  | .delete | .returned => none

def step : Label Key → Option (SessionRemoval Key)
  | .publish => if s.outputClosed then none else some { s with output := s.output + 1 }
  | .pause => some { s with workflow := s.workflow.after s.workflow.pause }
  | .resume => some { s with workflow := s.workflow.after s.workflow.resume }
  | .loopDone =>
    match s.loop with
    | .receive _ =>
      if s.cancelled ∨ s.outputClosed ∧ s.output = 0 then some { s with loop := .ended }
      else none
    | _ => none
  | .loopReceive =>
    match s.loop, s.output with
    | .receive conn, n + 1 => some { s with output := n, loop := .check conn }
    | _, _ => none
  | .loopCheck =>
    match s.loop with
    | .check (some conn) =>
      if s.manager.connState conn = .active then some { s with loop := .write (some conn) }
      else some { s with loop := .select }
    | .check none => some { s with loop := .select }
    | _ => none
  | .loopSelect =>
    match s.loop with
    | .select =>
      let result := s.manager.select s.key
      some { s with manager := result.1, loop := .write result.2 }
    | _ => none
  | .loopWrite =>
    match s.loop with
    | .write conn => some { s with loop := .receive conn }
    | _ => none
  | .delete call =>
    match s.removal with
    | .delete => some { s with removal := .observe call .lookup }
    | _ => none
  | .remove => s.removeNext
  | .notify ok =>
    match s.removal with
    | .observe call phase => (phase.afterWrite s.manager ok).map fun moved =>
      { s with removal := .observe call moved }
    | _ => none
  | .manager op =>
    if s.Foreign op then some { s with manager := s.manager.apply op } else none

/-! ## The route of the removed session -/

/-- After the observer's last `Release` the write loop asks for a connection only when
none is active. -/
def SelectsBeforeRelease : Label Key → Prop
  | .loopSelect => s.removal.Released →
      ∀ conn ∈ s.manager.connections.keys, s.manager.connState conn ≠ .active
  | _ => True

instance : (label : Label Key) → Decidable (SelectsBeforeRelease s label) := by
  intro label
  unfold SelectsBeforeRelease
  split <;> infer_instance

/-- No route is left once the observer has done its last `Release`. -/
structure Clean (key : Key) (s : SessionRemoval Key) : Prop where
  key : s.key = key
  manager : s.manager.Invariant
  unrouted : s.removal.Released → s.manager.routes.lookup s.key = none

variable {m : ConnectionManager Key}

theorem release_unrouted (hm : m.Invariant) (key : Key) :
    (m.release key).routes.lookup key = none := by
  cases hroute : m.routes.lookup key with
  | none => simp [release, hroute]
  | some r =>
    rw [release_eq hm hroute]
    exact (dropRoute_routes m key r key).trans (if_pos rfl)

variable {key : Key}

/-- An eviction gives no key a route. -/
theorem removed_unrouted {m q r} (hq : Removed m r q)
    (hunrouted : m.routes.lookup key = none) : q.routes.lookup key = none := by
  rw [hq.routes, hunrouted]
  simp

theorem select_unrouted (hm : m.Invariant) {key other} (hother : other ≠ key)
    (hunrouted : m.routes.lookup key = none) : (m.select other).1.routes.lookup key = none := by
  by_cases hactive : ∃ r, m.routes.lookup other = some r ∧
      m.connState (m.item r).conn = .active
  · obtain ⟨r, hroute, hstate⟩ := hactive
    rw [select_of_active hroute hstate]
    exact hunrouted
  · have hselects := select_selects hm other
      fun r hroute hstate => hactive ⟨r, hroute, hstate⟩
    apply eq_none_iff_forall_ne_some.mpr
    intro r hr
    rw [((hselects.others key r hother.symm).mp hr).1] at hunrouted
    cases hunrouted

/-- A selection among inactive connections leaves no route. -/
theorem select_inactive (hm : m.Invariant) (key : Key)
    (hinactive : ∀ r, m.Stored r → m.connState (m.item r).conn ≠ .active) :
    (m.select key).1.routes.lookup key = none := by
  have hselects := select_selects hm key
    fun r hroute => hinactive r (hm.routed key r hroute)
  have hnone := (select_eq_none_iff hm key).mpr hinactive
  apply eq_none_iff_forall_ne_some.mpr
  intro r hr
  exact hselects.none hnone r ((select_invariant hm key).routed key r hr)

theorem foreign_unrouted {s : SessionRemoval Key} {op} (hm : s.manager.Invariant)
    (hforeign : s.Foreign op) (hunrouted : s.manager.routes.lookup s.key = none) :
    (s.manager.apply op).routes.lookup s.key = none := by
  cases op with
  | store conn =>
    by_cases hold : conn ∈ s.manager.connections
    · simpa [apply, hold] using hunrouted
    · simpa [apply, hold] using hunrouted
  | select key => exact select_unrouted hm hforeign hunrouted
  | lookup key =>
    unfold apply lookup
    dsimp only
    split
    · exact hunrouted
    next r hroute =>
      split
      · exact hunrouted
      · exact removed_unrouted
          (removeConnectionLocked_removed hm (hm.routed key r hroute))
          hunrouted
  | release key =>
    cases hroute : s.manager.routes.lookup key with
    | none => simpa [apply, release, hroute] using hunrouted
    | some r =>
      change (s.manager.release key).routes.lookup s.key = none
      rw [release_eq hm hroute]
      refine (dropRoute_routes s.manager key r s.key).trans ?_
      rw [if_neg (Ne.symm hforeign)]
      exact hunrouted
  | remove conn =>
    unfold apply remove
    dsimp only
    split
    · exact hunrouted
    next r hr =>
      exact removed_unrouted
        (removeConnectionLocked_removed hm (hm.stored_of_lookup hr)) hunrouted
  | setConnState => exact hunrouted

/-- The observer leaves no route when it has returned. -/
theorem observer_next (hm : m.Invariant) {phase : NotifyPhase} {moved m'}
    (hnext : phase.next m key = some (moved, m')) :
    m'.Invariant ∧ (moved = none → m'.routes.lookup key = none) := by
  cases phase with
  | lookup =>
    cases hnext
    exact ⟨lookup_invariant hm key, nofun⟩
  | select | selectAgain =>
    cases hnext
    exact ⟨select_invariant hm key, nofun⟩
  | remove conn | removeAgain conn =>
    cases hnext
    exact ⟨remove_invariant hm conn, nofun⟩
  | release =>
    cases hnext
    exact ⟨release_invariant hm key, fun _ => release_unrouted hm key⟩
  | write | writeAgain => cases hnext

theorem removeNext_clean {s s'} (hs : Clean key s) (hstep : s.removeNext = some s') :
    Clean key s' := by
  obtain ⟨rfl, hm, hunrouted⟩ := hs
  unfold removeNext at hstep
  split at hstep
  next call phase hremoval =>
    obtain ⟨⟨moved, m'⟩, hnext, rfl⟩ := map_eq_some_iff.mp hstep
    obtain ⟨hm', hreleases⟩ := observer_next hm hnext
    refine ⟨rfl, hm', fun hreleased => ?_⟩
    cases moved with
    | none => exact hreleases rfl
    | some phase => cases hreleased
  -- the manager is not used after the observer's last operation
  iterate 5
    next hremoval =>
      cases hstep
      exact ⟨rfl, hm, fun _ => hunrouted (by rw [hremoval]; trivial)⟩
  next hremoval =>
    have hkept := hunrouted (by rw [hremoval]; trivial)
    split at hstep
    · cases hstep
      exact ⟨rfl, hm, fun _ => hkept⟩
    · cases hstep
      exact ⟨rfl, hm, fun _ => hkept⟩
  all_goals cases hstep

theorem step_clean {s s' : SessionRemoval Key} {label} (hs : Clean key s)
    (hadmits : SelectsBeforeRelease s label) (hstep : s.step label = some s') : Clean key s' := by
  cases label with
  | remove => exact removeNext_clean hs hstep
  | loopSelect =>
    obtain ⟨rfl, hm, -⟩ := hs
    simp only [step] at hstep
    split at hstep
    · cases hstep
      refine ⟨rfl, select_invariant hm s.key, fun hreleased => ?_⟩
      apply select_inactive hm s.key
      intro r hr
      exact hadmits hreleased _ (FiniteMap.mem_iff.mpr ⟨r, hr⟩)
    · cases hstep
  | manager op =>
    obtain ⟨rfl, hm, hunrouted⟩ := hs
    obtain ⟨hforeign, hstep⟩ := ite_none_right_eq_some.mp hstep
    cases hstep
    exact ⟨rfl, apply_invariant hm op,
      fun hreleased => foreign_unrouted hm hforeign (hunrouted hreleased)⟩
  | delete call =>
    simp only [step] at hstep
    split at hstep
    · cases hstep
      exact ⟨hs.key, hs.manager, False.elim⟩
    · cases hstep
  | notify ok =>
    simp only [step] at hstep
    split at hstep
    · obtain ⟨moved, -, rfl⟩ := map_eq_some_iff.mp hstep
      exact ⟨hs.key, hs.manager, False.elim⟩
    · cases hstep
  | _ =>
    simp only [step] at hstep
    repeat' split at hstep
    all_goals cases hstep
    all_goals exact ⟨hs.key, hs.manager, hs.unrouted⟩

/-- Once the removal has returned, the session's key has no route and no stored
connection counts it, in every run in which the write loop asks for a connection after
the observer's last `Release` only when none is active. -/
theorem run_unrouted (key : Key) (labels : List (Label Key)) {s : SessionRemoval Key}
    (hmeets : Meets step SelectsBeforeRelease (initial key) labels)
    (hrun : run step (initial key) labels = some s)
    (hreturned : s.removal = .returned) :
    s.manager.routes.lookup key = none ∧ ∀ r, s.manager.Stored r →
      (s.manager.item r).load = (s.manager.item r).sessions.length ∧
        key ∉ (s.manager.item r).sessions := by
  have hclean : Clean key s := run_invariant_of_meets (Clean key) step_clean
    ⟨rfl, newConnectionManager_invariant, False.elim⟩ hmeets hrun
  have hunrouted := hclean.unrouted (by rw [hreturned]; trivial)
  rw [hclean.key] at hunrouted
  refine ⟨hunrouted, fun r hr => ⟨hclean.manager.load r hr, ?_⟩⟩
  rw [hclean.manager.sessions r hr, hunrouted]
  simp

/-- The rest of `RemoveSession` after the observer, and the end of the write loop. -/
def stopLabels : List (Label Nat) :=
  [.remove, .remove, .remove, .remove, .remove, .remove, .loopDone]

/-- The write loop has its connection before the session is removed. -/
def orderlyLabels : List (Label Nat) :=
  [Label.manager (.setConnState 0 .active), .manager (.store 0), .publish, .loopReceive, .loopCheck,
    .loopSelect, .loopWrite, .delete .removeSession, .remove, .notify true, .remove] ++ stopLabels

/-- The write loop has received a packet and asks for a connection when the observer
has just released the key. -/
def lateLabels : List (Label Nat) :=
  [Label.manager (.setConnState 0 .active), .manager (.store 0), .publish, .loopReceive, .loopCheck,
    .delete .removeSession, .remove, .remove, .notify true, .remove, .loopSelect, .loopWrite] ++
    stopLabels

theorem run_unrouted_orderlyLabels : ∃ s : SessionRemoval Nat,
    run step (initial 7) orderlyLabels = some s ∧
    s.removal = .returned ∧ s.loop = .ended ∧ s.manager.routes.lookup 7 = none := by
  obtain ⟨s, hs, hreturned, hended⟩ := exists_of_decide (run step (initial 7) orderlyLabels)
    (fun s => s.removal = .returned ∧ s.loop = .ended) (by decide +kernel)
  exact ⟨s, hs, hreturned, hended, (run_unrouted 7 _ (by decide +kernel) hs hreturned).1⟩

/-- The removal has returned and the write loop has ended, and the connection still
counts the key. -/
theorem late_select_leaves_route : ∃ s : SessionRemoval Nat,
    run step (initial 7) lateLabels = some s ∧
    s.removal = .returned ∧ s.loop = .ended ∧ s.manager.routes.lookup 7 = some 0 ∧
    s.manager.Stored 0 ∧ (s.manager.item 0).load = 1 := by
  unfold Stored
  exact exists_of_decide _ _ (by decide +kernel)

end SessionRemoval

end Voce.Machine
