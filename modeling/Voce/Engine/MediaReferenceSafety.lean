import Voce.Engine.MediaReferences

/-! # No media object is recycled in use

The references that all stacks, queues and owners hold are the references that the
counts of the objects stand for. Whatever retains an object finds a reference to it in
the system: in its own stack, or one that guards it. What the counts stand for is right
as long as no `Retain` overflows one, since each is an `atomic.Int32`.
-/

namespace Voce.Engine

open Custody Interleaving Schema MediaEngine Transition List Option Config

theorem mem_of_keeper {stack} (hgrounded : Grounded stack) {frame below} (hframe : frame ∈ stack)
    (hkeeper : frame.keeper = some below) : below ∈ stack := by
  induction stack with
  | nil => cases hframe
  | cons first rest ih =>
    rcases mem_cons.mp hframe with rfl | hrest
    · exact mem_cons_of_mem _ (mem_of_mem_head? (hgrounded.1 below hkeeper))
    · exact mem_cons_of_mem _ (ih hgrounded.2 hrest)

namespace MediaSystem

/-- What all goroutines and queues and the owners outside the engine hold together. -/
def held (c : MediaSystem) : Holdings MediaRef := fun weight =>
  c.total (stackHeld weight) + c.shared.held weight

def retained (c : MediaSystem) : Label → Option MediaRef
  | .call i choice => c.phases[i]?.bind fun stack => stack.head?.bind (MediaFrame.retained choice)
  | _ => none

/-- A `Retain` does not overflow the count of its object. -/
def RetainFits (c : MediaSystem) (label : Label) : Prop :=
  ∀ o ∈ c.retained label, c.shared.media.count o < Int32.maxValue

instance (c : MediaSystem) (label : Label) : Decidable (c.RetainFits label) :=
  inferInstanceAs (Decidable (∀ o ∈ c.retained label, _))

/-- What holds in every state, whether a count has overflowed or not. -/
structure Invariant (c : MediaSystem) : Prop where
  balanced : Balanced c.shared.media.ledger c.held
  grounded : ∀ stack ∈ c.phases, Grounded stack
  guarded : ∀ r, c.Pinned r → c.Available r

variable {g : MediaGraph} {c d : MediaSystem} {stack : List MediaFrame}

theorem stackHeld_le_held (weight : Reference MediaRef → Nat) (hstack : stack ∈ c.phases) :
    stackHeld weight stack ≤ c.held weight :=
  le_trans (le_sum_of_mem (mem_map_of_mem hstack)) (Nat.le_add_right _ _)

theorem held_pos_of_frame (hstack : stack ∈ c.phases) {frame} (hframe : frame ∈ stack) {o}
    (hpos : 0 < frame.held (pointing o)) : 0 < c.held (pointing o) :=
  lt_of_lt_of_le hpos
    (le_trans (le_sum_of_mem (mem_map_of_mem hframe)) (stackHeld_le_held _ hstack))

variable {r : Reference MediaRef}

theorem held_pos_of_release (hstack : stack ∈ c.phases) (hrelease : .release r ∈ stack) :
    0 < c.held (pointing r.object) := by
  apply held_pos_of_frame hstack hrelease
  simp [MediaFrame.held, pointing]

/-- The object of a reference that is available has a reference. -/
theorem Invariant.held_pos (hc : Invariant c) (hr : c.Available r) :
    0 < c.held (pointing r.object) := by
  rcases hr with howned | ⟨stack, hstack, hcode⟩
  · have hone : pointing r.object r = 1 := if_pos rfl
    have hsum : pointing r.object r ≤ (c.shared.owned.map (pointing r.object)).sum :=
      le_sum_of_mem (mem_map_of_mem howned)
    simp only [held, MediaEngine.held]
    omega
  · exact held_pos_of_release hstack (mem_of_keeper (hc.grounded stack hstack) hcode rfl)

/-- The call on top of a stack retains only objects that have a reference. -/
theorem Invariant.held_pos_of_access (hc : Invariant c) {frame rest}
    (hstack : frame :: rest ∈ c.phases) {choice o} (haccess : frame.Access c.guards choice o) :
    0 < c.held (pointing o) := by
  have hgrounded := hc.grounded _ hstack
  rcases haccess.live with ⟨r, rfl, havailable | hpin | hrelease⟩ | hpos
  · exact hc.held_pos (of_decide_eq_true havailable)
  · have hmem := mem_of_keeper hgrounded mem_cons_self hpin
    exact hc.held_pos (hc.guarded r ⟨_, hstack, hmem⟩)
  · exact held_pos_of_release hstack (mem_of_keeper hgrounded mem_cons_self hrelease)
  · exact held_pos_of_frame hstack mem_cons_self hpos

/-! ## Steps -/

variable {shared : MediaEngine}

theorem stackNext_eq_some {choice stack next}
    (hnext : c.stackNext g choice stack = some (next, shared)) :
    ∃ frame rest frames, stack = frame :: rest ∧ next = frames ++ rest ∧
      CallStep c.guards choice c.shared shared frame frames := by
  cases stack with
  | nil => cases hnext
  | cons frame rest =>
    obtain ⟨⟨frames, t⟩, hframe, heq⟩ := map_eq_some_iff.mp hnext
    cases heq
    exact ⟨frame, rest, frames, rfl, rfl, frameNext_step hframe⟩

variable {i : Nat} {choice : MediaChoice} {frame : MediaFrame} {rest frames : List MediaFrame}
  {t : MediaEngine}

/-- A step is one operation on media. What it retains has a reference. -/
def StepEffect (label : Label) (c d : MediaSystem) : Prop :=
  Effect (fun o => 0 < c.held (pointing o) ∧ c.retained label = some o) c.shared d.shared
    c.held d.held

theorem Invariant.call_effect (hc : Invariant c) (hi : c.phases[i]? = some (frame :: rest))
    (hstep : CallStep c.guards choice c.shared t frame frames) :
    StepEffect (.call i choice) c (c.update i (frames ++ rest) t) := by
  have heffect : Effect (frame.Access c.guards choice) c.shared t c.held
      (held (c.update i (frames ++ rest) t)) := by
    refine hstep.effect.frame fun weight => ?_
    have htotal := total_update (stackHeld weight) hi (frames ++ rest) t
    rw [stackHeld_append, stackHeld_cons] at htotal
    simp only [held, update] at htotal ⊢
    omega
  obtain ⟨flow, hmedia, hcarries⟩ := heffect
  refine ⟨flow, hmedia.mono fun o haccess => ?_, hcarries⟩
  refine ⟨hc.held_pos_of_access (mem_of_getElem? hi) haccess, ?_⟩
  simpa [retained, hi] using haccess.retained

variable {label : Label}

theorem StepEffect.balanced (heffect : StepEffect label c d)
    (hc : Balanced c.shared.media.ledger c.held) : Balanced d.shared.media.ledger d.held := by
  obtain ⟨flow, hmedia, hcarries⟩ := heffect
  exact hc.flow hcarries hmedia.records

theorem StepEffect.safe (heffect : StepEffect label c d) (hc : c.shared.media.Safe c.held)
    (hfits : c.RetainFits label) : d.shared.media.Safe d.held := by
  obtain ⟨flow, hmedia, hcarries⟩ := heffect
  refine hc.step (hmedia.mono fun o hretained => ?_) hcarries
  exact ⟨hretained.1, hfits o hretained.2⟩

/-- A reference that guards a call stays available. -/
theorem available_call (hi : c.phases[i]? = some (frame :: rest))
    (hstep : CallStep c.guards choice c.shared t frame frames)
    (hpinned : c.Pinned r ∨ .pin r ∈ frames) (havailable : c.Available r) :
    Available (c.update i (frames ++ rest) t) r := by
  have hguard : c.guards.pinned r = true ∨ .pin r ∈ frames :=
    hpinned.imp_left decide_eq_true
  rcases havailable with howned | ⟨stack, hstack, hcode⟩
  · exact .inl (hstep.disciplined.owned r howned hguard)
  · by_cases hsame : stack = frame :: rest
    · subst hsame
      refine .inr ⟨frames ++ rest, mem_update_self hi _ _, ?_⟩
      rcases mem_cons.mp hcode with heq | hrest
      · exact mem_append_left _ (hstep.disciplined.code r heq.symm hguard)
      · exact mem_append_right _ hrest
    · exact .inr ⟨stack, mem_update_of_ne hi hstack hsame _ _, hcode⟩

theorem Invariant.call (hc : Invariant c) (hi : c.phases[i]? = some (frame :: rest))
    (hstep : CallStep c.guards choice c.shared t frame frames) :
    Invariant (c.update i (frames ++ rest) t) := by
  have hstack : frame :: rest ∈ c.phases := mem_of_getElem? hi
  refine ⟨(hc.call_effect hi hstep).balanced hc.balanced, ?_, ?_⟩
  · intro stack hmem
    rcases eq_or_mem_of_mem_update hmem with rfl | hmem
    · exact hstep.disciplined.grounded rest (hc.grounded _ hstack)
    · exact hc.grounded stack hmem
  · rintro r ⟨stack, hmem, hpin⟩
    have hpinned : c.Pinned r ∨ .pin r ∈ frames := by
      rcases eq_or_mem_of_mem_update hmem with rfl | hmem
      · rcases mem_append.mp hpin with hpin | hpin
        · exact .inr hpin
        · exact .inl ⟨_, hstack, mem_cons_of_mem _ hpin⟩
      · exact .inl ⟨stack, hmem, hpin⟩
    refine available_call hi hstep hpinned ?_
    rcases hpinned with hpinned | hpin
    · exact hc.guarded r hpinned
    · exact of_decide_eq_true (hstep.disciplined.pin r hpin)

/-- A new goroutine has no reference. -/
theorem go_effect (goroutine : MediaGoroutine) :
    StepEffect (.go goroutine) c (c.spawn [goroutine.frame]) := by
  refine Effect.of_move rfl fun weight => ?_
  have hzero : stackHeld weight [goroutine.frame] = 0 := by cases goroutine <;> rfl
  rw [held, total_spawn, hzero]
  rfl

theorem Invariant.go (hc : Invariant c) (goroutine : MediaGoroutine) :
    Invariant (c.spawn [goroutine.frame]) := by
  refine ⟨(go_effect goroutine).balanced hc.balanced, ?_, ?_⟩
  · intro stack hstack
    rcases mem_append.mp hstack with hstack | hstack
    · exact hc.grounded stack hstack
    · obtain rfl := mem_singleton.mp hstack
      refine ⟨fun below hbelow => ?_, trivial⟩
      cases goroutine <;> cases hbelow
  · rintro r ⟨stack, hstack, hpin⟩
    rcases mem_append.mp hstack with hstack | hstack
    · rcases hc.guarded r ⟨stack, hstack, hpin⟩ with howned | ⟨other, hother, hcode⟩
      · exact .inl howned
      · exact .inr ⟨other, mem_append_left _ hother, hcode⟩
    · obtain rfl := mem_singleton.mp hstack
      cases goroutine <;> simp [MediaGoroutine.frame] at hpin

/-- The environment moves objects between pools, or changes flags only. -/
theorem environment_effect (hnext : environmentNext c.shared label = some shared) :
    shared.owned = c.shared.owned ∧ StepEffect label c { c with shared := shared } := by
  have hkept : shared.queues = c.shared.queues ∧ shared.owned = c.shared.owned ∧
      ∀ access, Media.Step access c.shared.media shared.media .move := by
    cases label with
    | recycle o =>
      obtain ⟨hrecycling, hnext⟩ := ite_none_right_eq_some.mp hnext
      cases hnext
      exact ⟨rfl, rfl, fun _ => .recycle o hrecycling⟩
    | collect o =>
      cases hnext
      exact ⟨rfl, rfl, fun _ => .collect o⟩
    | call | go => cases hnext
    | _ =>
      cases hnext
      exact ⟨rfl, rfl, fun _ => .stay⟩
  obtain ⟨hqueues, howned, hmedia⟩ := hkept
  refine ⟨howned, .move, hmedia _, fun weight => ?_⟩
  simp only [held, MediaEngine.held, hqueues, howned]
  rfl

theorem Invariant.environment (hc : Invariant c)
    (hnext : environmentNext c.shared label = some shared) :
    Invariant { c with shared := shared } := by
  obtain ⟨howned, heffect⟩ := environment_effect hnext
  refine ⟨heffect.balanced hc.balanced, hc.grounded, ?_⟩
  intro r hr
  rcases hc.guarded r hr with hr | hr
  · exact .inl (by rw [howned]; exact hr)
  · exact .inr hr

theorem initial_invariant : Invariant initial where
  balanced := Balanced.empty fun _ => rfl
  grounded := nofun
  guarded := by
    rintro r ⟨stack, hstack, -⟩
    cases hstack

theorem step_invariant (hc : Invariant c) (hstep : c.step g label = some d) :
    Invariant d ∧ StepEffect label c d := by
  cases label with
  | call i choice =>
    obtain ⟨stack, next, shared, hi, hnext, rfl⟩ := advance_eq_some hstep
    obtain ⟨frame, rest, frames, rfl, rfl, hcall⟩ := stackNext_eq_some hnext
    exact ⟨hc.call hi hcall, hc.call_effect hi hcall⟩
  | go goroutine =>
    cases hstep
    exact ⟨hc.go goroutine, go_effect goroutine⟩
  | _ =>
    simp only [step] at hstep
    obtain ⟨shared, hnext, rfl⟩ := map_eq_some_iff.mp hstep
    exact ⟨hc.environment hnext, (environment_effect hnext).2⟩

theorem run_invariant {labels} (hrun : run (step g) initial labels = some c) : Invariant c := by
  refine Transition.run_invariant Invariant ?_ initial_invariant hrun
  intro before label after hbefore hstep
  exact (step_invariant hbefore hstep).1

theorem run_safe {labels} (hfits : Transition.Meets (step g) RetainFits initial labels)
    (hrun : run (step g) initial labels = some c) : c.shared.media.Safe c.held := by
  refine (run_invariant_of_meets (fun c => Invariant c ∧ c.shared.media.Safe c.held)
    ?_ ⟨initial_invariant, Media.empty_safe fun _ => rfl⟩ hfits hrun).2
  rintro before label after ⟨hbefore, hsafe⟩ hfit hstep
  obtain ⟨hafter, heffect⟩ := step_invariant hbefore hstep
  exact ⟨hafter, heffect.safe hsafe hfit⟩

theorem held_pos_of_queue {q item} (hitem : item ∈ (c.shared.queue g q).items) :
    0 < c.held (pointing item.ref.object) := by
  have hone : pointing item.ref.object item.ref = 1 := if_pos rfl
  cases hlookup : c.shared.queues.lookup q with
  | none => simp [MediaEngine.queue, hlookup, Channel.empty] at hitem
  | some queue =>
    have hmem : item ∈ queue.items := by simpa [MediaEngine.queue, hlookup] using hitem
    have hle : pointing item.ref.object item.ref ≤ queueHeld (pointing item.ref.object) queue :=
      le_sum_of_mem (mem_map_of_mem hmem)
    have hpos := Tally.total_pos
      (fun _ queue => queueHeld (pointing item.ref.object) queue) hlookup (by omega)
    simp only [held, MediaEngine.held]
    omega

/-- In every interleaving each reference is released at most once. If no `Retain` overflows
a count, no object goes back to its pool while it is in a queue, while a handler that
received it is running or before the call that handed it over has released it, and no
object is in its pool twice. -/
theorem run_references_safe (g : MediaGraph) {labels : List Label}
    (hrun : run (step g) initial labels = some c) :
    (∀ id, c.shared.media.ledger.retired id ≤ 1) ∧
      (Transition.Meets (step g) RetainFits initial labels →
        (∀ q, ∀ item ∈ (c.shared.queue g q).items, ¬ c.shared.media.Returned item.ref.object) ∧
        (∀ stack ∈ c.phases, ∀ r, .code (some r) ∈ stack ∨ .release r ∈ stack →
          ¬ c.shared.media.Returned r.object) ∧
        c.shared.media.pool.Nodup) := by
  have hc := run_invariant hrun
  refine ⟨hc.balanced.retired_le_one, fun hfits => ?_⟩
  have hsafe := run_safe hfits hrun
  refine ⟨?_, ?_, hsafe.pool_nodup⟩
  · intro q item hitem
    exact hsafe.not_returned (held_pos_of_queue hitem)
  · rintro stack hstack r (hcode | hrelease)
    · have hrelease := mem_of_keeper (hc.grounded stack hstack) hcode rfl
      exact hsafe.not_returned (held_pos_of_release hstack hrelease)
    · exact hsafe.not_returned (held_pos_of_release hstack hrelease)

/-- A source feeds a node and a node whose plugin has an audio track. -/
def forkGraph : MediaGraph where
  mode := .threadPerNode
  nodes := [0, 1, 2]
  head := ""
  indexMap _ := none
  nameMap _ := none
  table n kind := if n = 0 ∧ kind = .audio then [1, 2] else []
  portTable _ _ _ := []
  workerIdx _ := 0
  track n kind := if n = 2 ∧ kind = .audio then some (1, .dropOldest) else none

def sendLabels : List Label :=
  [Label.setState .running, .setRunning 0 true, .setRunning 1 true, .setRunning 2 true,
    .go .code, .go (.loop 1), .go (.loop 2), .go (.track 2 .audio),
    .call 0 (.act (.create .audio none)), .call 0 (.act (.send 0 none ⟨0, ⟨.audio, 0⟩⟩))] ++
  replicate 9 (Label.call 0 .proceed) ++ [Label.call 0 .send] ++
  replicate 4 (Label.call 0 .proceed) ++
  [Label.call 0 .send, .call 0 .proceed, .call 0 .proceed]

/-- The maker releases the object. The handler of the first node runs when the second has
pushed the object into its track. -/
def forkLabels : List Label :=
  sendLabels ++
  [Label.call 0 (.act (.release ⟨0, ⟨.audio, 0⟩⟩)), .call 0 .proceed,
    .call 1 (.take .audio), .call 2 (.take .audio), .call 2 .proceed, .call 2 .proceed,
    .call 2 .proceed, .call 2 .send, .call 2 .proceed, .cancel]

theorem run_references_safe_forkLabels :
    ∃ c, run (step forkGraph) initial forkLabels = some c ∧
      (∃ stack ∈ c.phases, .code (some ⟨1, ⟨.audio, 0⟩⟩) ∈ stack) ∧
      (∃ item ∈ (c.shared.queue forkGraph (.track 2 .audio)).items,
        item.ref = ⟨3, ⟨.audio, 0⟩⟩) ∧
      c.shared.media.count ⟨.audio, 0⟩ = 2 ∧ ¬ c.shared.media.Returned ⟨.audio, 0⟩ := by
  obtain ⟨c, hc, hphase, hitems, hcount⟩ := exists_of_decide
    (run (step forkGraph) initial forkLabels)
    (fun c => c.phases[1]? =
        some [.code (some ⟨1, ⟨.audio, 0⟩⟩), .release ⟨1, ⟨.audio, 0⟩⟩, .loop 1] ∧
      (c.shared.queue forkGraph (.track 2 .audio)).items = [⟨2, 0, ⟨3, ⟨.audio, 0⟩⟩⟩] ∧
      c.shared.media.count ⟨.audio, 0⟩ = 2) (by decide +kernel)
  have hstack := mem_of_getElem? hphase
  refine ⟨c, hc, ⟨_, hstack, mem_cons_self⟩, ?_, hcount, ?_⟩
  · rw [hitems]
    exact ⟨_, mem_cons_self, rfl⟩
  · exact ((run_references_safe forkGraph hc).2 (by decide +kernel)).2.1 _ hstack
      ⟨1, ⟨.audio, 0⟩⟩ (.inl mem_cons_self)

/-! ## Overflow -/

variable {received : Option (Reference MediaRef)}

/-- Code outside the engine retains the object of a reference of its own. -/
theorem code_retain (hi : c.phases[i]? = some (.code received :: rest)) (hr : r ∈ c.shared.owned) :
    c.step g (.call i (.act (.retain r))) = some { c with
      shared := c.shared.own (c.shared.media.retain r.object)
        (c.shared.media.nextReference r.object) } := by
  have havailable : c.guards.available r = true := decide_eq_true (.inl hr)
  have hset : c.phases.set i (.code received :: rest) = c.phases := by
    obtain ⟨hlt, hget⟩ := List.getElem?_eq_some_iff.mp hi
    rw [← hget, set_getElem_self]
  simp [step, advance, hi, stackNext, frameNext, codeNext, havailable, update, hset]

/-- It does so any number of times. -/
theorem run_code_retains (hi : c.phases[i]? = some (.code received :: rest))
    (hr : r ∈ c.shared.owned) (n : Nat) :
    ∃ d, run (step g) c (replicate n (.call i (.act (.retain r)))) = some d ∧
      d.phases = c.phases ∧ d.shared.queues = c.shared.queues ∧ r ∈ d.shared.owned ∧
      d.shared.media.count r.object = c.shared.media.count r.object + Int32.ofNat n := by
  induction n generalizing c with
  | zero => exact ⟨c, rfl, rfl, rfl, hr, (Int32.add_zero _).symm⟩
  | succ n ih =>
    obtain ⟨d, hrun, hphases, hqueues, howned, hcount⟩ :=
      ih (c := { c with
        shared := c.shared.own (c.shared.media.retain r.object)
          (c.shared.media.nextReference r.object) }) hi (mem_cons_of_mem _ hr)
    refine ⟨d, run_cons_eq_some.mpr ⟨_, code_retain hi hr, hrun⟩, hphases, hqueues, howned, ?_⟩
    rw [hcount, Int32.ofNat_add, Int32.add_comm (Int32.ofNat n), ← Int32.add_assoc]
    simp [own, Media.retain]

/-- A release that leaves no positive count puts the object back, whoever has it. -/
theorem run_code_release (hi : c.phases[i]? = some (.code received :: rest))
    (hr : r ∈ c.shared.owned) (hfree : ¬ c.Pinned r)
    (hcount : ¬ c.shared.media.count r.object - 1 > 0) :
    ∃ d, run (step g) c
        [.call i (.act (.release r)), .call i .proceed, .recycle r.object] = some d ∧
      d.shared.queues = c.shared.queues ∧ r.object ∈ d.shared.media.pool := by
  have hlt : i < c.phases.length := (List.getElem?_eq_some_iff.mp hi).1
  have hpinned : c.guards.pinned r = false := decide_eq_false hfree
  let calling := c.update i (.release r :: .code received :: rest) (c.shared.disown r)
  let released := calling.update i (.code received :: rest)
    { calling.shared with media := calling.shared.media.release r }
  have hcall : c.step g (.call i (.act (.release r))) = some calling := by
    simp [step, advance, hi, stackNext, frameNext, codeNext, hand, hr, hpinned, calling]
  have hrelease : step g calling (.call i .proceed) = some released := by
    simp [step, advance, stackNext, frameNext, calling, released, update, hlt]
  have hrecycling : r.object ∈ released.shared.media.recycling := by
    change r.object ∈ if c.shared.media.count r.object - 1 > 0 then _ else _
    rw [if_neg hcount]
    exact mem_cons_self
  refine ⟨{ released with shared :=
    { released.shared with media := released.shared.media.recycle r.object } }, ?_, rfl,
    mem_cons_self⟩
  refine run_cons_eq_some.mpr ⟨calling, hcall, ?_⟩
  refine run_cons_eq_some.mpr ⟨released, hrelease, ?_⟩
  refine run_cons_eq_some.mpr ⟨_, ?_, rfl⟩
  simp only [step, environmentNext, if_pos hrecycling]
  rfl

/-- The maker of an object that waits in two queues retains it until the count has
overflowed, and releases one of its references. -/
def overflowLabels : List Label :=
  sendLabels ++
  (replicate (2 ^ 31 - 2) (Label.call 0 (.act (.retain ⟨0, ⟨.audio, 0⟩⟩))) ++
  [Label.call 0 (.act (.release ⟨0, ⟨.audio, 0⟩⟩)), .call 0 .proceed, .recycle ⟨.audio, 0⟩])

/-- The object is in its pool and in the queue of a node. -/
theorem overflow_recycles_queued :
    ∃ c, run (step forkGraph) initial overflowLabels = some c ∧
      ∃ item ∈ (c.shared.queue forkGraph (.node 1 .audio)).items,
        item.ref.object ∈ c.shared.media.pool := by
  obtain ⟨b, hb, hstacks, howned, hitems, hthree⟩ := exists_of_decide
    (run (step forkGraph) initial sendLabels)
    (fun c => c.phases = [[.code none], [.loop 1], [.loop 2], [.track 2 .audio]] ∧
      c.shared.owned = [⟨0, ⟨.audio, 0⟩⟩] ∧
      (c.shared.queue forkGraph (.node 1 .audio)).items = [⟨1, 0, ⟨1, ⟨.audio, 0⟩⟩⟩] ∧
      c.shared.media.count ⟨.audio, 0⟩ = 3) (by decide +kernel)
  have hphase : b.phases[0]? = some [.code none] := by rw [hstacks]; rfl
  obtain ⟨c, hc, hphases, hqueues, hr, hcount⟩ := run_code_retains (g := forkGraph) hphase
    (r := ⟨0, ⟨.audio, 0⟩⟩) (by rw [howned]; exact mem_cons_self) (2 ^ 31 - 2)
  have hunpinned : ¬ c.Pinned ⟨0, ⟨.audio, 0⟩⟩ := by
    rw [Pinned, hphases, hstacks]
    decide
  have hwrapped : ¬ c.shared.media.count ⟨.audio, 0⟩ - 1 > 0 := by
    rw [hcount, hthree]
    decide +kernel
  obtain ⟨d, hd, hqueues', hpool⟩ := run_code_release (g := forkGraph) (by rw [hphases, hphase])
    hr hunpinned hwrapped
  refine ⟨d, run_append_eq_some hb (run_append_eq_some hc hd), ⟨1, 0, ⟨1, ⟨.audio, 0⟩⟩⟩, ?_, hpool⟩
  rw [queue, hqueues', hqueues]
  change _ ∈ (b.shared.queue forkGraph (.node 1 .audio)).items
  rw [hitems]
  exact mem_cons_self

end MediaSystem

end Voce.Engine
