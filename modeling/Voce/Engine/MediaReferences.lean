import Voce.Engine.MediaFlow

/-! # Safety of media references

Every step hands references on, retains an object, makes one or releases a reference.
What is retained has a reference at that time: the call has one itself, its caller keeps
one until it returns, or one guards the call. So the counts of the objects stay the
numbers of their references.
-/

namespace Voce.Engine

open Custody Interleaving Schema MediaFrame List Channel

/-! ## What calls and queues hold -/

namespace MediaFrame

/-- The references a call has to hand on or to release. -/
@[simp]
def held (weight : Reference MediaRef → Nat) : MediaFrame → Nat
  | .received _ item | .unpaused _ item | .sendCheck _ item | .sendSelect _ item
  | .evict _ item => weight item.ref
  | .push _ r | .input _ r | .inputRunning _ r | .broadcast r | .broadcastTo r _ | .deliver _ r
  | .release r => weight r
  | .fanRetain _ _ pending | .inputs pending => (pending.map fun entry => weight entry.2).sum
  | .loop _ | .drainNode _ | .worker _ | .drainWorker _ | .track _ _ | .drainTrack _ _ | .code _
  | .onMedia _ _ | .fan _ _ _ | .fanRunning _ _ _ | .pin _ => 0

/-- The call below, which keeps the object of this call alive. -/
@[simp]
def keeper : MediaFrame → Option MediaFrame
  | .code (some r) | .onMedia _ r => some (.release r)
  | .fan _ _ guard | .fanRunning _ _ guard | .fanRetain guard _ _ => some (.pin guard)
  | _ => none

/-- A loop, or code that has not received media. -/
@[simp]
def idle : MediaFrame → Bool
  | .loop _ | .drainNode _ | .worker _ | .drainWorker _ | .track _ _ | .drainTrack _ _
  | .code none => true
  | _ => false

theorem held_of_idle {frame : MediaFrame} (hidle : frame.idle = true)
    (weight : Reference MediaRef → Nat) : frame.held weight = 0 := by
  cases frame with
  | loop | drainNode | worker | drainWorker | track | drainTrack | code => rfl
  | _ => cases hidle

/-- The object that the next step of a call retains. -/
def retained (choice : MediaChoice) : MediaFrame → Option MediaRef
  | .code _ =>
    match choice with
    | .act (.retain r) => some r.object
    | _ => none
  | .onMedia _ r | .fanRetain r (_ :: _) _ | .broadcastTo r (_ :: _) => some r.object
  | _ => none

/-- The object that a call retains has a reference that the call can name. -/
structure Access (guards : MediaGuards) (choice : MediaChoice) (frame : MediaFrame)
    (o : MediaRef) : Prop where
  retained : frame.retained choice = some o
  live : (∃ r, r.object = o ∧ (guards.available r = true ∨ frame.keeper = some (.pin r) ∨
    frame.keeper = some (.release r))) ∨ 0 < frame.held (pointing o)

end MediaFrame

def stackHeld (weight : Reference MediaRef → Nat) (stack : List MediaFrame) : Nat :=
  (stack.map (MediaFrame.held weight)).sum

variable (weight : Reference MediaRef → Nat)

theorem stackHeld_append (first second : List MediaFrame) :
    stackHeld weight (first ++ second) = stackHeld weight first + stackHeld weight second := by
  simp [stackHeld]

@[simp]
theorem stackHeld_cons (frame : MediaFrame) (rest : List MediaFrame) :
    stackHeld weight (frame :: rest) = frame.held weight + stackHeld weight rest := by
  simp [stackHeld]

@[simp]
theorem stackHeld_nil : stackHeld weight [] = 0 := rfl

namespace MediaEngine

def queueHeld (weight : Reference MediaRef → Nat) (queue : Channel MediaItem) : Nat :=
  (queue.items.map fun item => weight item.ref).sum

/-- What is in the queues, and the references of code outside the engine. -/
def held (s : MediaEngine) : Holdings MediaRef := fun weight =>
  Tally.total (fun _ queue => queueHeld weight queue) s.queues + (s.owned.map weight).sum

variable {g : MediaGraph} {s t : MediaEngine}

theorem setQueue_held (q : QueueRef) (queue : Channel MediaItem) :
    (s.setQueue q queue).held weight + queueHeld weight (s.queue g q) =
      s.held weight + queueHeld weight queue := by
  have htotal := Tally.total_insert_getD (fun _ queue => queueHeld weight queue) s.queues q queue
    (.empty (max (g.bufferSize q) 1)) rfl
  simp only [held, setQueue, MediaEngine.queue]
  omega

variable {item : MediaItem} {q : QueueRef}

theorem send_held {queue} (hsend : (s.queue g q).send? item = some queue)
    (weight : Reference MediaRef → Nat) :
    (s.setQueue q queue).held weight = weight item.ref + s.held weight := by
  have hset := setQueue_held (g := g) (s := s) weight q queue
  have hqueue : queueHeld weight queue = queueHeld weight (s.queue g q) + weight item.ref := by
    simp [queueHeld, (send?_eq_some hsend).2.2]
  omega

theorem receive_held (hreceive : s.receive? g q = some (item, t)) :
    t.media = s.media ∧ ∀ weight, weight item.ref + t.held weight = s.held weight := by
  obtain ⟨⟨taken, queue⟩, htaken, heq⟩ := Option.map_eq_some_iff.mp hreceive
  cases heq
  refine ⟨rfl, fun weight => ?_⟩
  have hset := setQueue_held (g := g) (s := s) weight q queue
  have hqueue : queueHeld weight (s.queue g q) = weight taken.ref + queueHeld weight queue := by
    simp [queueHeld, (receive?_eq_some htaken).1]
  simp only
  omega

theorem own_held (media : Media) (r : Reference MediaRef) (weight : Reference MediaRef → Nat) :
    (s.own media r).held weight = weight r + s.held weight := by
  simp only [held, own, map_cons, sum_cons]
  omega

variable {r : Reference MediaRef}

theorem disown_held (hr : r ∈ s.owned) (weight : Reference MediaRef → Nat) :
    weight r + (s.disown r).held weight = s.held weight := by
  have hsum := sum_map_erase weight hr
  simp only [held, disown]
  omega

/-! ## What a step does to references -/

/-- One operation on media, given what the calls that take part in it hold before and
after. -/
def Effect (access : MediaRef → Prop) (s t : MediaEngine) (before after : Holdings MediaRef) :
    Prop :=
  ∃ flow, Media.Step access s.media t.media flow ∧ flow.Carries before after

variable {access : MediaRef → Prop} {before after : Holdings MediaRef}

theorem Effect.of_move (hmedia : t.media = s.media)
    (hheld : ∀ weight, after weight = before weight) : Effect access s t before after := by
  refine ⟨.move, ?_, ?_⟩
  · rw [hmedia]
    exact .stay
  · intro weight
    rw [hheld]
    rfl

theorem Effect.of_retain (o : MediaRef) (haccess : access o) (hmedia : t.media = s.media.retain o)
    (hheld : ∀ weight, after weight = before weight + weight (s.media.nextReference o)) :
    Effect access s t before after := by
  refine ⟨.issue (s.media.nextReference o), ?_, hheld⟩
  rw [hmedia]
  exact .retain o haccess

theorem Effect.of_release (r : Reference MediaRef) (hmedia : t.media = s.media.release r)
    (hheld : ∀ weight, after weight + weight r = before weight) :
    Effect access s t before after := by
  refine ⟨.retire r, ?_, hheld⟩
  rw [hmedia]
  exact .release r

/-- What the other calls hold makes no difference to a step. -/
theorem Effect.frame (heffect : Effect access s t before after) {whole whole'}
    (hframe : ∀ weight, whole' weight + before weight = whole weight + after weight) :
    Effect access s t whole whole' := by
  obtain ⟨flow, hstep, hcarries⟩ := heffect
  exact ⟨flow, hstep, hcarries.frame hframe⟩

theorem hand_effect {guards frames next} (hhand : s.hand guards r frames = some (next, t))
    (hframes : ∀ weight, stackHeld weight frames = weight r) :
    Effect access s t s.held (fun weight => stackHeld weight next + t.held weight) := by
  unfold hand at hhand
  split at hhand
  next howned =>
    cases hhand
    refine Effect.of_move rfl fun weight => ?_
    rw [hframes, disown_held howned.1]
  · cases hhand

variable {received : Option (Reference MediaRef)}

theorem codeNext_effect {guards action frames}
    (hnext : s.codeNext g guards received action = some (frames, t)) :
    Effect ((MediaFrame.code received).Access guards (.act action)) s t s.held
      (fun weight => stackHeld weight frames + t.held weight) := by
  cases action with
  | create kind recycled =>
    cases hnext
    refine ⟨_, .create kind recycled, fun weight => ?_⟩
    simp only [own_held, stackHeld_cons, stackHeld_nil, MediaFrame.held, Flow.gain, Flow.loss]
    omega
  | retain r =>
    obtain ⟨havailable, hnext⟩ := Option.ite_none_right_eq_some.mp hnext
    cases hnext
    refine Effect.of_retain r.object ⟨rfl, .inl ⟨r, rfl, .inl havailable⟩⟩ rfl
      fun weight => ?_
    simp only [own_held, stackHeld_cons, stackHeld_nil, MediaFrame.held]
    omega
  | release r | broadcast r | deliver address r =>
    exact hand_effect hnext fun weight => by simp
  | send n port r =>
    simp only [codeNext] at hnext
    split at hnext <;> cases hnext
    exact Effect.of_move rfl fun weight => by simp
  | done =>
    simp only [codeNext] at hnext
    split at hnext <;> cases hnext
    exact Effect.of_move rfl fun weight => by simp [stackHeld]

theorem process_held (item : MediaItem) : stackHeld weight (process g item) = weight item.ref := by
  unfold process
  split <;> simp [stackHeld, MediaFrame.held]

/-- What a loop does: it takes an item and goes on, or it moves on without one. -/
inductive LoopStep (g : MediaGraph) (s : MediaEngine) : List MediaFrame → MediaEngine → Prop where
  | take {q : QueueRef} {item : MediaItem} {t : MediaEngine} {loop : MediaFrame}
      {frames : List MediaFrame} (hreceive : s.receive? g q = some (item, t))
      (hloop : loop.idle = true) (hframes : frames = process g item ∨
        frames = [.release item.ref] ∨ ∃ kind, frames = [.received kind item]) :
      LoopStep g s (frames ++ [loop]) t
  | move {frames : List MediaFrame} (running : NodeRef → Bool)
      (hframes : ∀ frame ∈ frames, frame.idle = true) :
      LoopStep g s frames { s with running := running }

/-- A loop takes an item by one of its cases. -/
theorem LoopStep.of_receive (build : MediaItem → List MediaFrame) {loop frames}
    (hnext : (s.receive? g q).map (fun taken => (build taken.1 ++ [loop], taken.2)) =
      some (frames, t)) (hloop : loop.idle = true)
    (hbuild : ∀ item, build item = process g item ∨ build item = [.release item.ref] ∨
      ∃ kind, build item = [.received kind item]) : LoopStep g s frames t := by
  obtain ⟨⟨item, u⟩, hreceive, heq⟩ := Option.map_eq_some_iff.mp hnext
  cases heq
  exact .take hreceive hloop (hbuild item)

/-- A loop leaves or runs a callback. -/
theorem LoopStep.of_if {p : Prop} [Decidable p] {frames next}
    (hnext : (if p then some (next, s) else none) = some (frames, t))
    (hframes : ∀ frame ∈ next, frame.idle = true) : LoopStep g s frames t := by
  split at hnext <;> cases hnext
  exact .move s.running hframes

theorem loopNext_step {choice frame frames} (hnext : s.loopNext g choice frame = some (frames, t)) :
    frame.idle = true ∧ LoopStep g s frames t := by
  cases frame with
  | loop n =>
    refine ⟨rfl, ?_⟩
    cases choice with
    | take kind => exact LoopStep.of_receive (process g) hnext rfl fun _ => .inl rfl
    | callback =>
      cases hnext
      exact .move s.running (by simp)
    | leave =>
      cases hnext
      exact .move _ (by simp)
    | _ => cases hnext
  | worker idx =>
    refine ⟨rfl, ?_⟩
    cases choice with
    | take kind => exact LoopStep.of_receive (process g) hnext rfl fun _ => .inl rfl
    | callback =>
      cases hnext
      exact .move s.running (by simp)
    | leave => exact LoopStep.of_if hnext (by simp)
    | _ => cases hnext
  | track n kind =>
    refine ⟨rfl, ?_⟩
    cases choice with
    | take _ =>
      exact LoopStep.of_receive (fun item => [.received kind item]) hnext rfl
        fun _ => .inr (.inr ⟨kind, rfl⟩)
    | leave => exact LoopStep.of_if hnext (by simp)
    | _ => cases hnext
  | drainNode | drainWorker | drainTrack =>
    refine ⟨rfl, ?_⟩
    cases choice with
    | take _ =>
      exact LoopStep.of_receive (fun item => [.release item.ref]) hnext rfl
        fun _ => .inr (.inl rfl)
    | blocked => exact LoopStep.of_if hnext (by simp)
    | _ => cases hnext
  | _ => cases hnext

theorem stackHeld_of_idle {frames} (hframes : ∀ frame ∈ frames, frame.idle = true)
    (weight : Reference MediaRef → Nat) : stackHeld weight frames = 0 := by
  rw [stackHeld, sum_eq_zero]
  intro x hx
  obtain ⟨frame, hframe, rfl⟩ := mem_map.mp hx
  exact MediaFrame.held_of_idle (hframes frame hframe) weight

theorem LoopStep.effect {frames} (hstep : LoopStep g s frames t) :
    Effect access s t s.held (fun weight => stackHeld weight frames + t.held weight) := by
  cases hstep with
  | @take q item _ loop frames hreceive hloop hframes =>
    obtain ⟨hmedia, hheld⟩ := receive_held hreceive
    refine Effect.of_move hmedia fun weight => ?_
    have hzero : stackHeld weight [loop] = 0 := stackHeld_of_idle (by simpa using hloop) weight
    rw [stackHeld_append, hzero, ← hheld]
    rcases hframes with rfl | rfl | ⟨kind, rfl⟩
    · rw [process_held, add_zero]
    · simp [stackHeld, MediaFrame.held]
    · simp [stackHeld, MediaFrame.held]
  | move running hframes =>
    refine Effect.of_move rfl fun weight => ?_
    rw [stackHeld_of_idle hframes, zero_add]
    rfl

/-! ## What keeps an object alive -/

/-- Every call that relies on its caller has the right one below it. -/
def Grounded : List MediaFrame → Prop
  | [] => True
  | frame :: rest =>
    (∀ below, frame.keeper = some below → rest.head? = some below) ∧ Grounded rest

/-- A step takes away no reference that guards a call, and no handler returns while its
object guards one. A call that starts to rely on a reference finds it available. -/
structure Disciplined (guards : MediaGuards) (s t : MediaEngine) (frame : MediaFrame)
    (frames : List MediaFrame) : Prop where
  owned : ∀ r ∈ s.owned, guards.pinned r = true ∨ .pin r ∈ frames → r ∈ t.owned
  code : ∀ r, frame = .code (some r) → guards.pinned r = true ∨ .pin r ∈ frames →
    .code (some r) ∈ frames
  pin : ∀ r, .pin r ∈ frames → guards.available r = true
  grounded : ∀ rest, Grounded (frame :: rest) → Grounded (frames ++ rest)

variable {guards : MediaGuards} {frame : MediaFrame} {frames : List MediaFrame}

/-- The calls that take the place of a call rely on the next of them, or the last of them
on what the call itself relied on. -/
@[simp]
def Rests (frame : MediaFrame) : List MediaFrame → Prop
  | [] => True
  | first :: others =>
    (first.keeper = none ∨ first.keeper = others.head? ∨
      others = [] ∧ first.keeper = frame.keeper) ∧ Rests frame others

theorem Rests.grounded (hrests : Rests frame frames) {rest} (hgrounded : Grounded (frame :: rest)) :
    Grounded (frames ++ rest) := by
  induction frames with
  | nil => exact hgrounded.2
  | cons first others ih =>
    obtain ⟨hfirst, hothers⟩ := hrests
    rw [cons_append]
    refine ⟨?_, ih hothers⟩
    intro below hbelow
    rcases hfirst with hnone | hnext | ⟨rfl, hsame⟩
    · rw [hnone] at hbelow
      cases hbelow
    · rw [hnext] at hbelow
      rw [head?_append, hbelow]
      rfl
    · exact hgrounded.1 below (hsame.symm.trans hbelow)

/-- A call of the engine goes on without guarding a reference. -/
structure Passes (frame : MediaFrame) (frames : List MediaFrame) : Prop where
  engine : ∀ r, frame ≠ .code (some r)
  unpinned : ∀ r, .pin r ∉ frames
  rests : Rests frame frames

theorem Passes.disciplined (hpasses : Passes frame frames) (howned : ∀ r ∈ s.owned, r ∈ t.owned) :
    Disciplined guards s t frame frames where
  owned r hr _ := howned r hr
  code r heq := absurd heq (hpasses.engine r)
  pin r hr := absurd hr (hpasses.unpinned r)
  grounded _ hrest := hpasses.rests.grounded hrest

theorem receive_owned (hreceive : s.receive? g q = some (item, t)) : t.owned = s.owned := by
  obtain ⟨⟨taken, queue⟩, htaken, heq⟩ := Option.map_eq_some_iff.mp hreceive
  cases heq
  rfl

theorem rests_of_idle (hframes : ∀ frame ∈ frames, frame.idle = true) : Rests frame frames := by
  induction frames with
  | nil => trivial
  | cons first others ih =>
    refine ⟨.inl ?_, ih fun other hother => hframes other (mem_cons_of_mem _ hother)⟩
    have hidle := hframes first mem_cons_self
    cases first with
    | loop | drainNode | worker | drainWorker | track | drainTrack => rfl
    | code received =>
      cases received with
      | none => rfl
      | some r => cases hidle
    | _ => cases hidle

theorem LoopStep.disciplined (hstep : LoopStep g s frames t) (hidle : frame.idle = true) :
    Disciplined guards s t frame frames := by
  have hcode : ∀ r, frame ≠ .code (some r) := by
    rintro r rfl
    cases hidle
  have hunpinned : ∀ frame : MediaFrame, frame.idle = true → ∀ r, .pin r ≠ frame := by
    rintro frame hframe r rfl
    cases hframe
  cases hstep with
  | @take q item _ loop frames hreceive hloop hframes =>
    have hloops : Rests frame [loop] := rests_of_idle (by simpa using hloop)
    have hpin := hunpinned loop hloop
    refine Passes.disciplined ⟨hcode, ?_, ?_⟩ (by rw [receive_owned hreceive]; exact fun _ => id)
    · rcases hframes with rfl | rfl | ⟨kind, rfl⟩
      · unfold process
        split <;> simp [hpin]
      · simp [hpin]
      · simp [hpin]
    · rcases hframes with rfl | rfl | ⟨kind, rfl⟩
      · unfold process
        split <;> exact ⟨.inr (.inl rfl), .inl rfl, hloops⟩
      · exact ⟨.inl rfl, hloops⟩
      · exact ⟨.inl rfl, hloops⟩
  | move running hframes =>
    refine Passes.disciplined ⟨hcode, ?_, rests_of_idle hframes⟩ fun _ => id
    intro r hr
    exact hunpinned _ (hframes _ hr) r rfl

theorem hand_disciplined {first}
    (hhand : s.hand guards r [first, .code received] = some (frames, t))
    (hpin : ∀ r, first ≠ .pin r) (hkeeper : first.keeper = none) :
    Disciplined guards s t (.code received) frames := by
  obtain ⟨howned, hhand⟩ := Option.ite_none_right_eq_some.mp hhand
  cases hhand
  have hpins : ∀ r, MediaFrame.pin r ∉ [first, .code received] := by
    intro r hr
    rcases mem_cons.mp hr with h | h
    · exact hpin r h.symm
    · simp at h
  refine ⟨?_, ?_, fun r hr => absurd hr (hpins r), ?_⟩
  · intro other hother hpinned
    have hpinned : guards.pinned other = true := hpinned.resolve_right (hpins other)
    have hne : other ≠ r := by
      rintro rfl
      rw [howned.2] at hpinned
      cases hpinned
    exact (mem_erase_of_ne hne).mpr hother
  · intro other heq _
    rw [heq]
    exact mem_cons_of_mem _ mem_cons_self
  · intro rest hrest
    refine ⟨?_, hrest⟩
    intro below hbelow
    rw [hkeeper] at hbelow
    cases hbelow

theorem codeNext_disciplined {action}
    (hnext : s.codeNext g guards received action = some (frames, t)) :
    Disciplined guards s t (.code received) frames := by
  cases action with
  | create kind recycled =>
    cases hnext
    exact ⟨fun r hr _ => mem_cons_of_mem _ hr, fun r heq _ => by simp [heq],
      fun r hr => by simp at hr, fun rest hrest => hrest⟩
  | retain r =>
    simp only [codeNext] at hnext
    split at hnext <;> cases hnext
    exact ⟨fun r hr _ => mem_cons_of_mem _ hr, fun r heq _ => by simp [heq],
      fun r hr => by simp at hr, fun rest hrest => hrest⟩
  | release r | broadcast r | deliver address r =>
    exact hand_disciplined hnext nofun rfl
  | send n port r =>
    obtain ⟨havailable, hnext⟩ := Option.ite_none_right_eq_some.mp hnext
    cases hnext
    refine ⟨fun r hr _ => hr, fun r heq _ => by simp [heq], ?_, ?_⟩
    · intro other hother
      obtain rfl : other = r := by simpa using hother
      exact havailable
    · intro rest hrest
      refine ⟨fun below hbelow => hbelow, ?_⟩
      exact ⟨nofun, hrest⟩
  | done =>
    simp only [codeNext] at hnext
    split at hnext
    · cases hnext
    next hfree =>
      cases hnext
      refine ⟨fun r hr _ => hr, ?_, fun r hr => by simp at hr, fun rest hrest => hrest.2⟩
      intro r heq hpinned
      cases heq
      exact absurd hpinned (by simpa using hfree)

/-! ## Calls -/

/-- One step of a call is one operation on media that keeps the discipline. -/
structure CallStep (guards : MediaGuards) (choice : MediaChoice) (s t : MediaEngine)
    (frame : MediaFrame) (frames : List MediaFrame) : Prop where
  effect : Effect (frame.Access guards choice) s t
    (fun weight => frame.held weight + s.held weight)
    (fun weight => stackHeld weight frames + t.held weight)
  disciplined : Disciplined guards s t frame frames

variable {choice : MediaChoice}

/-- A call passes its references on. -/
theorem CallStep.of_pass (hheld : ∀ weight, stackHeld weight frames = frame.held weight)
    (hpasses : Passes frame frames) : CallStep guards choice s s frame frames :=
  ⟨Effect.of_move rfl fun weight => by rw [hheld], hpasses.disciplined fun _ => id⟩

/-- A call of the engine retains an object it has access to. -/
theorem CallStep.of_retain (o : MediaRef) (haccess : frame.Access guards choice o)
    (hheld : ∀ weight,
      stackHeld weight frames = frame.held weight + weight (s.media.nextReference o))
    (hpasses : Passes frame frames) :
    CallStep guards choice s { s with media := s.media.retain o } frame frames := by
  refine ⟨Effect.of_retain o haccess rfl fun weight => ?_, hpasses.disciplined fun _ => id⟩
  rw [hheld]
  simp only [held]
  omega

/-- A call that failed leaves the reference with the caller. -/
theorem CallStep.of_return (r : Reference MediaRef) (hheld : ∀ weight, frame.held weight = weight r)
    (hpasses : Passes frame []) :
    CallStep guards choice s { s with owned := r :: s.owned } frame [] := by
  refine ⟨Effect.of_move rfl fun weight => ?_, hpasses.disciplined fun _ hr => mem_cons_of_mem _ hr⟩
  simp only [stackHeld_nil, hheld, held, map_cons, sum_cons]
  omega

theorem selectNext_step (hnext : s.selectNext g q item choice = some (frames, t)) :
    CallStep guards choice s t (.sendSelect q item) frames := by
  cases choice with
  | done =>
    simp only [selectNext] at hnext
    split at hnext <;> cases hnext
    exact .of_pass (by simp) ⟨by simp, by simp, by simp⟩
  | send =>
    obtain ⟨queue, hsend, heq⟩ := Option.map_eq_some_iff.mp hnext
    cases heq
    refine ⟨Effect.of_move rfl fun weight => ?_,
      Passes.disciplined ⟨by simp, by simp, trivial⟩ fun _ => id⟩
    rw [send_held hsend, stackHeld_nil, zero_add]
    rfl
  | blocked =>
    obtain ⟨-, hnext⟩ := Option.ite_none_right_eq_some.mp hnext
    split at hnext <;> cases hnext <;>
      exact .of_pass (by simp) ⟨by simp, by simp, by simp⟩
  | proceed | take _ | callback | leave | act _ => cases hnext

theorem frameNext_step
    (hnext : s.frameNext g guards choice frame = some (frames, t)) :
    CallStep guards choice s t frame frames := by
  cases frame with
  | loop | drainNode | worker | drainWorker | track | drainTrack =>
    simp only [frameNext] at hnext
    obtain ⟨hidle, hstep⟩ := loopNext_step hnext
    refine ⟨hstep.effect.frame fun weight => ?_, hstep.disciplined hidle⟩
    simp only [MediaFrame.held]
    omega
  | code received =>
    cases choice with
    | act action =>
      refine ⟨(codeNext_effect hnext).frame fun weight => ?_, codeNext_disciplined hnext⟩
      simp only [MediaFrame.held]
      omega
    | _ => cases hnext
  | onMedia n r =>
    cases hnext
    exact .of_retain r.object ⟨rfl, .inl ⟨r, rfl, .inr (.inr rfl)⟩⟩
      (by simp) ⟨by simp, by simp, by simp⟩
  | push | pin =>
    cases hnext
    exact .of_pass (by simp) ⟨by simp, by simp, by simp⟩
  | sendSelect q item => exact selectNext_step hnext
  | evict q item =>
    simp only [frameNext] at hnext
    split at hnext
    next dropped u hreceive =>
      cases hnext
      obtain ⟨hmedia, hheld⟩ := receive_held hreceive
      refine ⟨Effect.of_move hmedia fun weight => ?_,
        Passes.disciplined ⟨by simp, by simp, by simp⟩
          (by rw [receive_owned hreceive]; exact fun _ => id)⟩
      simp only [stackHeld_cons, stackHeld_nil, MediaFrame.held, ← hheld]
      omega
    · cases hnext
      exact .of_pass (by simp) ⟨by simp, by simp, by simp⟩
  | fanRetain guard targets retained =>
    cases targets with
    | nil =>
      cases hnext
      exact .of_pass (by simp) ⟨by simp, by simp, by simp⟩
    | cons target targets =>
      cases hnext
      exact .of_retain guard.object ⟨rfl, .inl ⟨guard, rfl, .inr (.inl rfl)⟩⟩
        (by simp) ⟨by simp, by simp, by simp⟩
  | inputs pending =>
    cases pending <;> cases hnext <;>
      exact .of_pass (by simp) ⟨by simp, by simp, by simp⟩
  | broadcastTo r nodes =>
    cases nodes with
    | nil =>
      cases hnext
      exact .of_pass (by simp) ⟨by simp, by simp, by simp⟩
    | cons n nodes =>
      cases hnext
      refine .of_retain r.object ⟨rfl, .inr ?_⟩ (fun weight => ?_)
        ⟨by simp, by simp, by simp⟩
      · simp [MediaFrame.held, pointing]
      · simp only [stackHeld_cons, stackHeld_nil, MediaFrame.held]
        omega
  | broadcast | deliver =>
    simp only [frameNext] at hnext
    split at hnext <;> cases hnext
    · exact .of_pass (by simp) ⟨by simp, by simp, by simp⟩
    · exact .of_return _ (fun _ => rfl) ⟨by simp, by simp, trivial⟩
  | release r =>
    cases hnext
    refine ⟨Effect.of_release r rfl fun weight => ?_,
      Passes.disciplined ⟨by simp, by simp, trivial⟩ fun _ => id⟩
    simp only [stackHeld_nil, MediaFrame.held, held]
    omega
  | _ =>
    simp only [frameNext] at hnext
    split at hnext <;> cases hnext <;>
      exact .of_pass (by simp) ⟨by simp, by simp, by simp⟩

end MediaEngine

end Voce.Engine
