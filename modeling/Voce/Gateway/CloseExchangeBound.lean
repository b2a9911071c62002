import Voce.Gateway.CloseExchange

/-! # The close exchange ends

On each side a key has one write to spend: it is owed while the key may still be
created or removed, then by the one call that removed the session, and is spent
when that call writes. No step of either side adds to the sum.
-/

namespace Voce.Gateway.CloseExchange

open Interleaving Voce.Machine Function List Option Config Transition

variable {Key : Type} [DecidableEq Key]

/-! ## Registries and wires -/

namespace Registry

/-- The removals of the key that can still happen. -/
def owed (r : Registry Key) (key : Key) : Nat :=
  (if key ∈ r.created then 0 else 1) + (if key ∈ r.sessions then 1 else 0)

theorem create_owed {r : Registry Key} {created} (hnew : created ∉ r.created) (key : Key) :
    (r.create created).owed key ≤ r.owed key := by
  by_cases hkey : key = created
  · subst hkey
    simp [owed, create, hnew]
  · simp [owed, create, hkey]

/-- The keys that leave the map are not owed any more. -/
theorem delete_owed (r : Registry Key) {removed} (hnodup : removed.Nodup)
    (hmem : ∀ key ∈ removed, key ∈ r.sessions) (key : Key) :
    (r.delete removed).owed key + removed.count key = r.owed key := by
  by_cases hkey : key ∈ removed
  · simp [owed, delete, hkey, hmem key hkey, count_eq_one_of_mem hnodup hkey]
  · simp [owed, delete, hkey, count_eq_zero_of_not_mem hkey]

end Registry

namespace Wire

def sent (w : Wire Key) (key : Key) : Nat := w.inFlight.count key + w.received key

theorem send_sent (w : Wire Key) (packet key : Key) :
    (w.send packet).sent key = w.sent key + if packet = key then 1 else 0 := by
  simp only [sent, send, count_cons, beq_iff_eq]
  omega

theorem receive_sent {w : Wire Key} {packet} (hmem : packet ∈ w.inFlight) (key : Key) :
    (w.receive packet).sent key = w.sent key := by
  by_cases hkey : key = packet
  · subst hkey
    have hpos : 0 < w.inFlight.count key := count_pos_iff.mpr hmem
    simp only [sent, receive, count_erase_self, update_self]
    omega
  · simp only [sent, receive, update_of_ne hkey]
    rw [count_erase_of_ne hkey]

end Wire

/-! ## The write that a key has on each side -/

/-- The observer has not written its packet and may still do so. -/
def mayNotify : NotifyPhase → Bool
  | .removeAgain _ | .release => false
  | _ => true

/-- `Close` is on its way to its packet. -/
def mayWrite : CloserPhase → Bool
  | .swap | .check false | .closeClient false | .write => true
  | _ => false

/-- A call is on its way to the packet only if it was before, or deletes the session. -/
theorem mayWrite_next {phase moved : CloserPhase} {effect stored state client}
    (hnext : phase.next stored state client = some (moved, effect)) :
    effect = .delete ∧ stored = true ∨
      effect ≠ .delete ∧ (mayWrite moved = true → mayWrite phase = true) := by
  cases phase with
  | remove =>
    simp only [CloserPhase.next] at hnext
    split at hnext
    next hstored =>
      cases hnext
      exact .inl ⟨rfl, hstored⟩
    · cases hnext
      exact .inr ⟨nofun, nofun⟩
  | load =>
    simp only [CloserPhase.next] at hnext
    split at hnext <;> cases hnext <;> exact .inr ⟨nofun, nofun⟩
  | store =>
    cases hnext
    exact .inr ⟨nofun, nofun⟩
  | check dispatching | closeClient dispatching =>
    cases client <;> cases hnext <;> cases dispatching <;> exact .inr ⟨nofun, by decide⟩
  | swap =>
    simp only [CloserPhase.next] at hnext
    split at hnext <;> cases hnext <;> exact .inr ⟨nofun, fun _ => rfl⟩
  | write =>
    cases hnext
    exact .inr ⟨nofun, nofun⟩
  | done | crashed => cases hnext

theorem mayNotify_next {Key : Type} [DecidableEq Key] {m m' : ConnectionManager Key} {key : Key}
    {phase moved : NotifyPhase} (hnext : phase.next m key = some (some moved, m')) :
    mayNotify moved = true → mayNotify phase = true := by
  cases phase <;> cases hnext <;> first | exact fun _ => rfl | exact nofun

theorem mayNotify_of_afterWrite {Key : Type} {m : ConnectionManager Key} {ok : Bool}
    {phase moved : NotifyPhase} (hwrite : phase.afterWrite m ok = some moved) :
    mayNotify phase = true ∧ (ok = true → moved = .release) := by
  cases phase with
  | write conn | writeAgain conn =>
    refine ⟨rfl, ?_⟩
    rintro rfl
    obtain ⟨-, heq⟩ := ite_none_right_eq_some.mp hwrite
    cases heq
    rfl
  | _ => cases hwrite

def gatewayWeight (key : Key) : Process Key → Nat
  | .gateway phase closing => if mayWrite phase ∧ closing = key then 1 else 0
  | _ => 0

def machineWeight (key : Key) : Process Key → Nat
  | .machine (.notify phase removed rest) =>
    (if mayNotify phase ∧ removed = key then 1 else 0) + rest.count key
  | _ => 0

/-- Each side has at most one write of the key left or done, and no packet was sent
without one. -/
structure Budget (key : Key) (c : System Key) : Prop where
  gateway : c.shared.gateway.registry.owed key + c.total (gatewayWeight key) +
    c.shared.gateway.writes key ≤ 1
  machine : c.shared.machine.registry.owed key + c.total (machineWeight key) +
    c.shared.machine.writes key ≤ 1
  toMachine : c.shared.toMachine.sent key ≤ c.shared.gateway.writes key
  toGateway : c.shared.toGateway.sent key ≤ c.shared.machine.writes key

namespace Budget

variable {key : Key} {c : System Key} {i : Nat} {process next : Process Key} {shared : Shared Key}

section

variable (hc : Budget key c)
include hc

/-- A call steps and spends no more than it has. -/
theorem update (hi : c.phases[i]? = some process)
    (hgateway : shared.gateway.registry.owed key + gatewayWeight key next +
      shared.gateway.writes key ≤ c.shared.gateway.registry.owed key + gatewayWeight key process +
      c.shared.gateway.writes key)
    (hmachine : shared.machine.registry.owed key + machineWeight key next +
      shared.machine.writes key ≤ c.shared.machine.registry.owed key + machineWeight key process +
      c.shared.machine.writes key)
    (htoMachine : shared.toMachine.sent key ≤ shared.gateway.writes key)
    (htoGateway : shared.toGateway.sent key ≤ shared.machine.writes key) :
    Budget key (c.update i next shared) := by
  have hgatewayTotal := total_update (gatewayWeight key) hi next shared
  have hmachineTotal := total_update (machineWeight key) hi next shared
  have hgatewayBound := hc.gateway
  have hmachineBound := hc.machine
  refine ⟨?_, ?_, htoMachine, htoGateway⟩
  · change shared.gateway.registry.owed key + _ + shared.gateway.writes key ≤ 1
    omega
  · change shared.machine.registry.owed key + _ + shared.machine.writes key ≤ 1
    omega

/-- A call starts that owes nothing. -/
theorem spawn (hgateway : gatewayWeight key process = 0)
    (hmachine : machineWeight key process = 0) : Budget key (c.spawn process) := by
  refine ⟨?_, ?_, hc.toMachine, hc.toGateway⟩
  · rw [total_spawn, hgateway]
    exact hc.gateway
  · rw [total_spawn, hmachine]
    exact hc.machine

/-- The shared state changes apart from the calls. -/
theorem environment
    (hgateway : shared.gateway.registry.owed key ≤ c.shared.gateway.registry.owed key)
    (hmachine : shared.machine.registry.owed key ≤ c.shared.machine.registry.owed key)
    (hgatewayWrites : shared.gateway.writes = c.shared.gateway.writes)
    (hmachineWrites : shared.machine.writes = c.shared.machine.writes)
    (htoMachine : shared.toMachine.sent key = c.shared.toMachine.sent key)
    (htoGateway : shared.toGateway.sent key = c.shared.toGateway.sent key) :
    Budget key { c with shared := shared } := by
  have hgatewayBound := hc.gateway
  have hmachineBound := hc.machine
  refine ⟨?_, ?_, ?_, ?_⟩
  · change shared.gateway.registry.owed key + c.total _ + shared.gateway.writes key ≤ 1
    rw [hgatewayWrites]
    omega
  · change shared.machine.registry.owed key + c.total _ + shared.machine.writes key ≤ 1
    rw [hmachineWrites]
    omega
  · rw [htoMachine, hgatewayWrites]
    exact hc.toMachine
  · rw [htoGateway, hmachineWrites]
    exact hc.toGateway

/-- A gateway call steps without a write. -/
theorem gatewayMoves {phase moved closing gateway}
    (hi : c.phases[i]? = some (.gateway phase closing))
    (hwrites : gateway.writes = c.shared.gateway.writes)
    (howed : gateway.registry.owed key + gatewayWeight key (.gateway moved closing) ≤
      c.shared.gateway.registry.owed key + gatewayWeight key (.gateway phase closing)) :
    Budget key (c.update i (.gateway moved closing) { c.shared with gateway := gateway }) := by
  refine hc.update hi ?_ le_rfl ?_ hc.toGateway
  · dsimp only
    rw [hwrites]
    omega
  · rw [hwrites]
    exact hc.toMachine

/-- A machine call steps without a write. -/
theorem machineMoves {phase moved machine} (hi : c.phases[i]? = some (.machine phase))
    (hwrites : machine.writes = c.shared.machine.writes)
    (howed : machine.registry.owed key + machineWeight key (.machine moved) ≤
      c.shared.machine.registry.owed key + machineWeight key (.machine phase)) :
    Budget key (c.update i (.machine moved) { c.shared with machine := machine }) := by
  refine hc.update hi le_rfl ?_ hc.toMachine ?_
  · dsimp only
    rw [hwrites]
    omega
  · rw [hwrites]
    exact hc.toGateway

theorem gatewayAdvance {phase moved closing effect}
    (hi : c.phases[i]? = some (.gateway phase closing))
    (hnext : phase.next (closing ∈ c.shared.gateway.registry.sessions)
      (c.shared.gateway.state closing) (c.shared.gateway.client closing) = some (moved, effect)) :
    Budget key (c.update i (.gateway moved closing)
      { c.shared with gateway := c.shared.gateway.perform closing effect }) := by
  rcases mayWrite_next hnext with ⟨rfl, hstored⟩ | ⟨hkeeps, hmay⟩
  · have howed := c.shared.gateway.registry.delete_owed (nodup_singleton closing)
      (by simpa using hstored) key
    rw [count_singleton] at howed
    refine hc.gatewayMoves hi rfl ?_
    simp only [GatewaySide.perform, gatewayWeight]
    split
    next h => simp_all
    · omega
  · refine hc.gatewayMoves hi ?_ ?_
    · cases effect <;> rfl
    · have hregistry : (c.shared.gateway.perform closing effect).registry =
          c.shared.gateway.registry := by
        cases effect <;> first | rfl | exact absurd rfl hkeeps
      rw [hregistry]
      refine Nat.add_le_add_left ?_ _
      simp only [gatewayWeight]
      split
      next h => rw [if_pos ⟨hmay h.1, h.2⟩]
      · exact Nat.zero_le _

omit hc in
/-- The observer is run once for each key that was removed. -/
theorem machineWeight_notifyNext (key : Key) (keys : List Key) :
    machineWeight key (.machine (.notifyNext keys)) = keys.count key := by
  cases keys with
  | nil => rfl
  | cons first rest =>
    simp only [MachinePhase.notifyNext, machineWeight, mayNotify, true_and,
      count_cons, beq_iff_eq]
    omega

/-- The observer goes on, to a write only if it was on its way to one. -/
theorem notifyMoves {phase moved removed rest}
    (hi : c.phases[i]? = some (.machine (.notify phase removed rest)))
    (hmay : mayNotify moved = true → mayNotify phase = true) (manager : ConnectionManager Key) :
    Budget key (c.update i (.machine (.notify moved removed rest))
      { c.shared with machine := { c.shared.machine with manager := manager } }) := by
  refine hc.machineMoves hi rfl (Nat.add_le_add_left (Nat.add_le_add_right ?_ _) _)
  split
  next h => rw [if_pos ⟨hmay h.1, h.2⟩]
  · exact Nat.zero_le _

theorem machineAdvance {phase moved machine} (hi : c.phases[i]? = some (.machine phase))
    (hnext : phase.next c.shared.machine = some (moved, machine)) :
    Budget key (c.update i (.machine moved) { c.shared with machine := machine }) := by
  cases phase with
  | handle loaded =>
    cases hnext
    apply hc.machineMoves hi rfl
    split <;> exact le_rfl
  | remove removed =>
    simp only [MachinePhase.next] at hnext
    split at hnext
    next hmem =>
      cases hnext
      have howed := c.shared.machine.registry.delete_owed (nodup_singleton removed)
        (by simpa using hmem) key
      refine hc.machineMoves hi rfl (le_of_eq ?_)
      exact (congrArg _ (machineWeight_notifyNext key [removed])).trans howed
    · cases hnext
      exact hc.machineMoves hi rfl le_rfl
  | notify phase removed rest =>
    obtain ⟨⟨moved, manager⟩, hmoved, heq⟩ := map_eq_some_iff.mp hnext
    cases heq
    cases moved with
    | some moved => exact hc.notifyMoves hi (mayNotify_next hmoved) manager
    | none =>
      refine hc.machineMoves hi rfl (Nat.add_le_add_left ?_ _)
      refine (le_of_eq (machineWeight_notifyNext key rest)).trans ?_
      exact Nat.le_add_left _ _
  | cleanup | done => cases hnext

theorem advance {d} (hstep : c.advance (Process.next c.shared) i = some d) : Budget key d := by
  obtain ⟨process, next, shared, hi, hnext, rfl⟩ := advance_eq_some hstep
  cases process with
  | gateway phase closing =>
    unfold Process.next at hnext
    split at hnext
    · cases hnext
    next heq =>
      cases heq
      obtain ⟨⟨moved, effect⟩, hmoved, heq⟩ := map_eq_some_iff.mp hnext
      cases heq
      exact hc.gatewayAdvance hi hmoved
    next heq => cases heq
  | machine phase =>
    obtain ⟨⟨moved, machine⟩, hmoved, heq⟩ := map_eq_some_iff.mp hnext
    cases heq
    exact hc.machineAdvance hi hmoved

omit hc in
/-- A write adds one to the count of its key. -/
theorem update_writes (writes : Key → Nat) (written key : Key) :
    Function.update writes written (writes written + 1) key =
      writes key + if written = key then 1 else 0 := by
  by_cases hkey : key = written
  · subst hkey
    simp
  · rw [update_of_ne hkey, if_neg (Ne.symm hkey), add_zero]

/-- `Close` writes its packet. -/
theorem write {closing} (hi : c.phases[i]? = some (.gateway .write closing))
    (outcome : WriteOutcome) :
    Budget key (c.update i (.gateway .done closing) (c.shared.writeClose closing outcome)) := by
  have hwrites := update_writes c.shared.gateway.writes closing key
  have hspent : gatewayWeight key (.gateway .write closing) = if closing = key then 1 else 0 := by
    simp [gatewayWeight, mayWrite]
  have hdone : gatewayWeight key (.gateway .done closing) = 0 := by simp [gatewayWeight, mayWrite]
  have hsent := hc.toMachine
  cases outcome with
  | noConnection =>
    refine hc.gatewayMoves hi rfl ?_
    rw [hdone]
    exact Nat.add_le_add_left (Nat.zero_le _) _
  | failed | sent =>
    refine hc.update hi ?_ le_rfl ?_ hc.toGateway
    · simp only [Shared.writeClose, GatewaySide.recordWrite, hspent, hdone, hwrites]
      omega
    · simp only [Shared.writeClose, GatewaySide.recordWrite, hwrites, Wire.send_sent]
      omega

/-- The observer writes its packet, or fails to. -/
theorem notify {phase moved removed rest ok}
    (hi : c.phases[i]? = some (.machine (.notify phase removed rest)))
    (hwrite : phase.afterWrite c.shared.machine.manager ok = some moved) :
    Budget key (c.update i (.machine (.notify moved removed rest))
      (if ok then c.shared.notifyClose removed else c.shared)) := by
  obtain ⟨hmay, hok⟩ := mayNotify_of_afterWrite hwrite
  split
  next hsent =>
    cases hok hsent
    have hwrites := update_writes c.shared.machine.writes removed key
    have hsent := hc.toGateway
    have hreleased : mayNotify .release = false := rfl
    refine hc.update hi le_rfl ?_ hc.toMachine ?_
    · simp only [Shared.notifyClose, MachineSide.recordWrite, machineWeight, hwrites, hmay,
        hreleased, Bool.false_eq_true, false_and, true_and, if_false]
      omega
    · simp only [Shared.notifyClose, MachineSide.recordWrite, hwrites, Wire.send_sent]
      omega
  · exact hc.notifyMoves hi (fun _ => hmay) c.shared.machine.manager

/-- `Cleanup` takes the idle sessions out of the map. -/
theorem sweep {keys} (hi : c.phases[i]? = some (.machine .cleanup)) (hnodup : keys.Nodup)
    (hmem : ∀ removed ∈ keys, removed ∈ c.shared.machine.registry.sessions) :
    Budget key (c.update i (.machine (.notifyNext keys)) { c.shared with machine :=
      { c.shared.machine with registry := c.shared.machine.registry.delete keys } }) := by
  refine hc.machineMoves hi rfl (le_of_eq ?_)
  rw [machineWeight_notifyNext]
  exact c.shared.machine.registry.delete_owed hnodup hmem key

theorem step {d label} (hstep : CloseExchange.step c label = some d) : Budget key d := by
  cases label with
  | createGateway created =>
    simp only [CloseExchange.step] at hstep
    split at hstep
    · cases hstep
    next hnew =>
      cases hstep
      exact hc.environment (Registry.create_owed hnew key) le_rfl rfl rfl rfl rfl
  | createMachine created =>
    simp only [CloseExchange.step] at hstep
    split at hstep
    · cases hstep
    next hnew =>
      cases hstep
      exact hc.environment le_rfl (Registry.create_owed hnew key) rfl rfl rfl rfl
  | setState | setClient | manager =>
    cases hstep
    exact hc.environment le_rfl le_rfl rfl rfl rfl rfl
  | dispatch packet =>
    obtain ⟨hmem, hstep⟩ := ite_none_right_eq_some.mp hstep
    cases hstep
    refine spawn ?_ rfl rfl
    have hsent := Wire.receive_sent hmem key
    exact hc.environment le_rfl le_rfl rfl rfl rfl hsent
  | handle packet =>
    obtain ⟨hmem, hstep⟩ := ite_none_right_eq_some.mp hstep
    cases hstep
    refine spawn ?_ rfl rfl
    have hsent := Wire.receive_sent hmem key
    exact hc.environment le_rfl le_rfl rfl rfl hsent rfl
  | advance i => exact hc.advance hstep
  | write i outcome =>
    simp only [CloseExchange.step] at hstep
    split at hstep
    next closing hi =>
      cases hstep
      exact hc.write hi outcome
    · cases hstep
  | sweep i keys =>
    simp only [CloseExchange.step] at hstep
    split at hstep
    next hi =>
      split at hstep
      next h =>
        cases hstep
        exact hc.sweep hi h.1 h.2
      · cases hstep
    · cases hstep
  | notify i ok =>
    simp only [CloseExchange.step] at hstep
    split at hstep
    next hi =>
      obtain ⟨moved, hwrite, rfl⟩ := map_eq_some_iff.mp hstep
      exact hc.notify hi hwrite
    · cases hstep
  | _ =>
    cases hstep
    exact hc.spawn rfl rfl

end

theorem start (key : Key) : Budget key initial where
  gateway := Nat.le_refl 1
  machine := Nat.le_refl 1
  toMachine := Nat.le_refl 0
  toGateway := Nat.le_refl 0

end Budget

theorem dropsUnknown (c : System Key) (key : Key) : DropsUnknown c key := by
  refine ⟨fun i hi hunknown => ?_, fun i hi hunknown => ?_⟩
  · simp [step, advance, hi, Process.next, CloserPhase.next, GatewaySide.perform, hunknown]
  · simp [step, advance, hi, Process.next, MachinePhase.next, hunknown]

/-- For every key each side writes at most one close packet, whatever the calls, the
connections and the packets do, and so takes at most one. -/
theorem run_bounded (key : Key) {c : System Key} {labels : List (Label Key)}
    (hrun : run step initial labels = some c) : Bounded c key := by
  have hc : Budget key c := run_invariant (Budget key)
    (fun hc => hc.step) (.start key) hrun
  have hgateway := hc.gateway
  have hmachine := hc.machine
  have htoMachine := hc.toMachine
  have htoGateway := hc.toGateway
  unfold Wire.sent at htoMachine htoGateway
  exact ⟨by omega, by omega, by omega, by omega, dropsUnknown c key⟩

/-- The gateway deletes a session, the machine removes it in turn and answers, and the
answer is dropped. -/
def answered : List (Label Nat) :=
  [Label.createGateway 7, .createMachine 7, .manager (.setConnState 0 .active),
    .manager (.store 0), .delete 7, .advance 0, .advance 0, .advance 0, .write 0 .sent] ++
  Label.handle 7 :: List.replicate 4 (Label.advance 1) ++
  [Label.notify 1 true, .advance 1, .dispatch 7, .advance 2]

theorem run_bounded_answered : ∃ c : System Nat, run step initial answered = some c ∧
    c.shared.gateway.writes 7 = 1 ∧ c.shared.machine.writes 7 = 1 ∧ Bounded c 7 := by
  obtain ⟨c, hrun, hgateway, hmachine⟩ := exists_of_decide
    (run step initial answered)
    (fun c => c.shared.gateway.writes 7 = 1 ∧ c.shared.machine.writes 7 = 1) (by decide +kernel)
  exact ⟨c, hrun, hgateway, hmachine, run_bounded 7 hrun⟩

end Voce.Gateway.CloseExchange
