import Voce.Foundation.Indexed
import Voce.Sdk.PluginSession

/-! # One final report for every message

What a step of a session can do is the same in both SDKs: it starts a task, or moves
one. The phase of a task says how many reports there are on its message, whether it is
in the table, and whether its report is lost. Whether reports are lost depends on the
steps that the SDK lets happen.
-/

namespace Voce.Sdk

open Transition List Option Session Function AList Indexed

section Sessions

variable {Phase : Type}

namespace Session

def reportCount (kinds : List MessageKind) : Nat := kinds.countP MessageKind.isReport

theorem reports_append (s : Session Phase) (id other : String) (kinds : List MessageKind) :
    (s.outgoing ++ kinds.map (OutMessage.mk other)).countP
        (fun m => m.kind.isReport && m.correlationId == id) =
      s.reports id + if id = other then reportCount kinds else 0 := by
  rw [countP_append, countP_map, reports]
  by_cases hid : id = other
  · subst hid
    simp [reportCount, comp_def]
  · have hne : (other == id) = false := by simpa using Ne.symm hid
    simp [hid, hne, comp_def]

end Session

/-- What the phase of a task says. -/
structure Meaning (Phase : Type) where
  reported : Phase → Nat
  listed : Phase → Prop
  lost : Phase → Prop
  ended : Phase → Prop
  /-- A task that is over has made its one report and left the table, unless the report
  is lost. -/
  settled : ∀ phase, ended phase → (reported phase = 1 ∧ ¬ listed phase ↔ ¬ lost phase)

/-- All that a step of a session can do. A step that is not admitted loses a report. -/
inductive Effect (meaning : Meaning Phase) (s : Session Phase) (messageId : Option String)
    (admitted : Prop) : Session Phase → Prop
  | stays (hid : messageId = none) (hadmitted : admitted) : Effect meaning s messageId admitted s
  | spawns {id : String} {phase : Phase} {kinds : List MessageKind} (hid : messageId = some id)
      (hkinds : Session.reportCount kinds = 0) (hreported : meaning.reported phase = 0)
      (hlisted : meaning.listed phase) (hkept : ¬ meaning.lost phase) (hadmitted : admitted) :
      Effect meaning s messageId admitted (s.spawn id phase kinds)
  | moves {i : Nat} {task : Task Phase} {phase : Phase} {kinds : List MessageKind}
      (hid : messageId = none) (hi : s.tasks[i]? = some task)
      (hreported : meaning.reported phase =
        meaning.reported task.phase + Session.reportCount kinds)
      (hlisted : meaning.listed phase ↔ meaning.listed task.phase)
      (hlost : meaning.lost phase ↔ meaning.lost task.phase ∨ ¬ admitted) :
      Effect meaning s messageId admitted (s.move i task phase kinds)
  | removes {i : Nat} {task : Task Phase} {phase : Phase} (hid : messageId = none)
      (hi : s.tasks[i]? = some task) (hreported : meaning.reported phase =
        meaning.reported task.phase) (hlisted : ¬ meaning.listed phase)
      (hlost : meaning.lost phase ↔ meaning.lost task.phase) (hadmitted : admitted) :
      Effect meaning s messageId admitted ((s.move i task phase []).remove task.id)

/-- A `CANCEL` loses a report if it marks a task in a phase that is not safe. -/
theorem Effect.cancel (meaning : Meaning Phase) (s : Session Phase) (mark : Phase → Phase)
    (safe : Phase → Prop) (hreported : ∀ phase, meaning.reported (mark phase) =
      meaning.reported phase) (hlisted : ∀ phase, meaning.listed (mark phase) ↔
      meaning.listed phase) (hlost : ∀ phase, meaning.lost (mark phase) ↔
      meaning.lost phase ∨ ¬ safe phase) (correlationId : String) :
    Effect meaning s none (correlationId ≠ "" → ∀ i ∈ s.table.lookup correlationId,
      ∀ task ∈ s.tasks[i]?, safe task.phase) (s.cancel mark correlationId) := by
  unfold Session.cancel
  split
  next hempty => exact .stays rfl (absurd hempty)
  next hne =>
    split
    next hnone =>
      refine .stays rfl (fun _ i hi => ?_)
      rw [hnone] at hi
      cases hi
    next i hlookup =>
      split
      next hnone =>
        refine .stays rfl (fun _ j hj task htask => ?_)
        rw [hlookup] at hj
        cases hj
        rw [hnone] at htask
        cases htask
      next task hi =>
        refine .moves rfl hi (hreported task.phase) (hlisted task.phase) ?_
        rw [hlost task.phase]
        refine or_congr_right (not_congr ?_)
        constructor
        · intro hsafe _ j hj other hother
          rw [hlookup] at hj
          cases hj
          rw [hi] at hother
          cases hother
          exact hsafe
        · exact fun hadmitted => hadmitted hne i hlookup task hi

theorem Effect.renew {meaning : Meaning Phase} {s next : Session Phase} {handles i}
    (hnext : s.renew handles i = some next) : Effect meaning s none True next := by
  obtain ⟨task, hi, hmove⟩ := bind_eq_some_iff.mp hnext
  obtain ⟨-, hmove⟩ := ite_none_right_eq_some.mp hmove
  cases hmove
  exact .moves rfl hi rfl .rfl (by simp)

theorem Effect.emit {meaning : Meaning Phase} {s next : Session Phase} {i}
    (hnext : s.emit i = some next) : Effect meaning s none True next := by
  obtain ⟨task, hi, hmove⟩ := bind_eq_some_iff.mp hnext
  cases hmove
  exact .moves rfl hi rfl .rfl (by simp)

/-- To finish is to leave the table, with the report as it is. -/
structure Finishes (meaning : Meaning Phase) (phase last : Phase) : Prop where
  reported : meaning.reported last = meaning.reported phase
  listed : ¬ meaning.listed last
  lost : meaning.lost last ↔ meaning.lost phase

theorem Effect.finish {meaning : Meaning Phase} {s next : Session Phase} {finished? i}
    (hfinishes : ∀ {phase last}, finished? phase = some last → Finishes meaning phase last)
    (hnext : s.finish finished? i = some next) : Effect meaning s none True next := by
  obtain ⟨task, hi, hmove⟩ := bind_eq_some_iff.mp hnext
  obtain ⟨last, hlast, rfl⟩ := map_eq_some_iff.mp hmove
  obtain ⟨hreported, hlisted, hlost⟩ := hfinishes hlast
  exact .removes rfl hi hreported hlisted hlost trivial

/-- A protocol of sessions: its steps, those that are admitted, and what they do. -/
structure Protocol (Phase Label : Type) where
  step : Session Phase → Label → Option (Session Phase)
  messageId : Label → Option String
  admits : Session Phase → Label → Prop
  meaning : Meaning Phase
  effect : ∀ s label next, step s label = some next →
    Effect meaning s (messageId label) (admits s label) next

/-! ## The accounts of a session -/

variable {meaning : Meaning Phase} {s next : Session Phase} {messageId : Option String}
  {admitted : Prop}

/-- Reports and table are as the phases of the tasks say. -/
structure Accounts (meaning : Meaning Phase) (s : Session Phase) : Prop where
  reports : ∀ task ∈ s.tasks, s.reports task.id = meaning.reported task.phase
  unread : ∀ id, id ∉ s.tasks.map Task.id → s.reports id = 0
  table : ∀ task ∈ s.tasks, task.id ∈ s.table ↔ meaning.listed task.phase
  distinct : (s.tasks.map Task.id).Nodup

theorem initial_accounts (meaning : Meaning Phase) : Accounts meaning (.initial) where
  reports := nofun
  unread _ _ := rfl
  table := nofun
  distinct := nodup_nil

namespace Accounts

theorem spawn (hs : Accounts meaning s) {id} (hfresh : id ∉ s.tasks.map Task.id) {phase kinds}
    (hkinds : reportCount kinds = 0) (hreported : meaning.reported phase = 0)
    (hlisted : meaning.listed phase) : Accounts meaning (s.spawn id phase kinds) := by
  have hreports : ∀ other, (s.spawn id phase kinds).reports other = s.reports other := by
    intro other
    refine (s.reports_append other id kinds).trans ?_
    rw [hkinds, ite_self, Nat.add_zero]
  refine ⟨?_, ?_, ?_, ?_⟩
  · intro task hmem
    rw [hreports]
    rcases mem_append.mp hmem with hold | hnew
    · exact hs.reports task hold
    · rw [mem_singleton.mp hnew, hs.unread id hfresh, hreported]
  · intro other hother
    rw [hreports]
    apply hs.unread
    intro hmem
    apply hother
    rw [Session.spawn, map_append]
    exact mem_append_left _ hmem
  · intro task hmem
    rw [Session.spawn, mem_insert]
    rcases mem_append.mp hmem with hold | hnew
    · have hne : task.id ≠ id := by
        rintro rfl
        exact hfresh (mem_map_of_mem hold)
      rw [← hs.table task hold]
      exact or_iff_right hne
    · rw [mem_singleton.mp hnew]
      exact iff_of_true (.inl rfl) hlisted
  · rw [Session.spawn, map_append]
    refine nodup_append.mpr ⟨hs.distinct, nodup_singleton id, ?_⟩
    intro other hother last hlast heq
    have hid : other = id := heq.trans (mem_singleton.mp hlast)
    exact hfresh (hid ▸ hother)

/-- Two tasks with one ID are the same. -/
theorem eq_of_id (hs : Accounts meaning s) {i j : Nat} {task other : Task Phase}
    (hi : s.tasks[i]? = some task) (hj : s.tasks[j]? = some other) (hid : other.id = task.id) :
    j = i := by
  have hj' : (s.tasks.map Task.id)[j]? = some task.id := by
    rw [getElem?_map, hj, map_some, hid]
  have hi' : (s.tasks.map Task.id)[i]? = some task.id := by
    rw [getElem?_map, hi, map_some]
  obtain ⟨hlt, -⟩ := List.getElem?_eq_some_iff.mp hj'
  exact (getElem?_inj hlt hs.distinct).mp (hj'.trans hi'.symm)

/-- A task moves, and puts as many reports as its new phase says. The table may lose it. -/
theorem move (hs : Accounts meaning s) {i : Nat} {task : Task Phase}
    (hi : s.tasks[i]? = some task) {phase : Phase} {kinds : List MessageKind}
    (hreported : meaning.reported phase = meaning.reported task.phase + reportCount kinds)
    {table : AList fun _ : String => Nat} (hown : task.id ∈ table ↔ meaning.listed phase)
    (hothers : ∀ id, id ≠ task.id → (id ∈ table ↔ id ∈ s.table)) :
    Accounts meaning { s.move i task phase kinds with table := table } := by
  have hreports : ∀ other, (s.move i task phase kinds).reports other =
      s.reports other + if other = task.id then reportCount kinds else 0 :=
    fun other => s.reports_append other task.id kinds
  have hids := map_set hi Task.id (show ({ task with phase := phase } : Task Phase).id = _
    from rfl)
  -- what another task says is not changed, since its ID is another one
  have hcases : ∀ other ∈ (s.move i task phase kinds).tasks,
      other = { task with phase := phase } ∨ other ∈ s.tasks ∧ other.id ≠ task.id := by
    intro other hmem
    obtain ⟨j, hj⟩ := mem_iff_getElem?.mp hmem
    have hj' := (getElem?_set hi { task with phase := phase } j).symm.trans hj
    split at hj'
    · cases hj'
      exact .inl rfl
    next hji => exact .inr ⟨mem_of_getElem? hj', fun hid => hji (hs.eq_of_id hi hj' hid)⟩
  refine ⟨?_, ?_, ?_, ?_⟩
  · intro other hmem
    refine (hreports other.id).trans ?_
    rcases hcases other hmem with rfl | ⟨hold, hne⟩
    · rw [if_pos rfl, hs.reports task (mem_of_getElem? hi), hreported]
    · rw [if_neg hne, Nat.add_zero, hs.reports other hold]
  · intro other hother
    have hother' : other ∉ s.tasks.map Task.id := fun hmem => hother (hids.symm ▸ hmem)
    have hne : other ≠ task.id := by
      rintro rfl
      exact hother' (mem_map_of_mem (mem_of_getElem? hi))
    refine (hreports other).trans ?_
    rw [if_neg hne, Nat.add_zero, hs.unread other hother']
  · intro other hmem
    rcases hcases other hmem with rfl | ⟨hold, hne⟩
    · exact hown
    · rw [← hs.table other hold]
      exact hothers other.id hne
  · exact hids.symm ▸ hs.distinct

theorem effect (hs : Accounts meaning s) (heffect : Effect meaning s messageId admitted next)
    (hfresh : ∀ id, messageId = some id → id ∉ s.tasks.map Task.id) : Accounts meaning next := by
  cases heffect with
  | stays => exact hs
  | spawns hid hkinds hreported hlisted =>
    exact hs.spawn (hfresh _ hid) hkinds hreported hlisted
  | moves hid hi hreported hlisted =>
    refine hs.move hi hreported ?_ (fun _ _ => .rfl)
    rw [hlisted]
    exact hs.table _ (mem_of_getElem? hi)
  | removes hid hi hreported hlisted =>
    refine hs.move hi hreported ?_ ?_
    · rw [mem_erase]
      exact iff_of_false (fun hmem => hmem.1 rfl) hlisted
    · intro id hne
      rw [mem_erase]
      exact and_iff_right hne

end Accounts

/-- No report is lost so far. -/
def Keeps (meaning : Meaning Phase) (s : Session Phase) : Prop :=
  ∀ task ∈ s.tasks, ¬ meaning.lost task.phase

theorem Effect.keeps_iff (heffect : Effect meaning s messageId admitted next) :
    Keeps meaning next ↔ Keeps meaning s ∧ admitted := by
  cases heffect with
  | stays hid hadmitted => exact (and_iff_left hadmitted).symm
  | spawns hid hkinds hreported hlisted hkept hadmitted =>
    rw [and_iff_left hadmitted, Keeps, spawn, forall_mem_append, forall_mem_singleton]
    exact and_iff_left hkept
  | moves hid hi hreported hlisted hlost =>
    refine forall_mem_set hi ?_
    rw [hlost, not_or, not_not]
  | removes hid hi hreported hlisted hlost hadmitted =>
    refine (forall_mem_set hi ?_)
    rw [hlost, and_iff_left hadmitted]

/-- The IDs of the tasks are those of the messages. -/
theorem Effect.ids (heffect : Effect meaning s messageId admitted next) :
    next.tasks.map Task.id = s.tasks.map Task.id ++ messageId.toList := by
  cases heffect with
  | stays hid => rw [hid, toList_none, append_nil]
  | spawns hid => rw [hid, spawn, map_append, map_singleton, toList_some]
  | moves hid hi | removes hid hi =>
    rw [hid, toList_none, append_nil]
    exact map_set hi Task.id rfl

namespace Protocol

variable {Label : Type} (protocol : Protocol Phase Label)

def Settled (s : Session Phase) : Prop := ∀ task ∈ s.tasks, protocol.meaning.ended task.phase

theorem run_accounts {labels}
    (hdistinct : (s.tasks.map Task.id ++ labels.filterMap protocol.messageId).Nodup)
    (hs : Accounts protocol.meaning s) (hrun : run protocol.step s labels = some next) :
    Accounts protocol.meaning next ∧
      next.tasks.map Task.id = s.tasks.map Task.id ++ labels.filterMap protocol.messageId := by
  induction labels generalizing s with
  | nil =>
    cases hrun
    exact ⟨hs, by simp⟩
  | cons label rest ih =>
    obtain ⟨middle, hstep, hrest⟩ := run_cons_eq_some.mp hrun
    have heffect := protocol.effect s label middle hstep
    have hids : middle.tasks.map Task.id ++ rest.filterMap protocol.messageId =
        s.tasks.map Task.id ++ (label :: rest).filterMap protocol.messageId := by
      rw [heffect.ids, append_assoc]
      cases hid : protocol.messageId label with
      | none | some id => simp [hid]
    have hfresh : ∀ id, protocol.messageId label = some id → id ∉ s.tasks.map Task.id := by
      intro id hid hmem
      rw [filterMap_cons, hid] at hdistinct
      exact (nodup_append.mp hdistinct).2.2 id hmem id mem_cons_self rfl
    obtain ⟨haccounts, hnext⟩ := ih (hids ▸ hdistinct) (hs.effect heffect hfresh) hrest
    exact ⟨haccounts, hnext.trans hids⟩

/-- Once its tasks are over, a session has made exactly one report on every message and
has an empty table exactly if every step was admitted. -/
theorem reports_iff {labels} (hdistinct : (labels.filterMap protocol.messageId).Nodup)
    (hrun : run protocol.step .initial labels = some s) (hsettled : protocol.Settled s) :
    (∀ id ∈ labels.filterMap protocol.messageId, s.reports id = 1 ∧ id ∉ s.table) ↔
      Meets protocol.step protocol.admits .initial labels := by
  obtain ⟨haccounts, hids⟩ :=
    protocol.run_accounts (s := .initial) hdistinct (initial_accounts protocol.meaning) hrun
  have hkeeps : Keeps protocol.meaning (.initial) := by
    intro task hmem
    cases hmem
  rw [meets_iff_of_keeps
    (fun s label next hstep => (protocol.effect s label next hstep).keeps_iff) hkeeps hrun]
  have htask : ∀ task ∈ s.tasks,
      (s.reports task.id = 1 ∧ task.id ∉ s.table ↔ ¬ protocol.meaning.lost task.phase) := by
    intro task hmem
    rw [haccounts.reports task hmem, haccounts.table task hmem]
    exact protocol.meaning.settled task.phase (hsettled task hmem)
  have hmessages : labels.filterMap protocol.messageId = s.tasks.map Task.id := hids.symm
  rw [hmessages, List.forall_mem_map]
  exact forall₂_congr htask

end Protocol

end Sessions

/-! ## The protocol of the Python SDK -/

namespace Python

/-- The handler is not over, or its report can be made. -/
def Reportable (outcome : Outcome) : Prop := outcome = .suspends ∨ report? outcome ≠ none

instance (outcome : Outcome) : Decidable (Reportable outcome) :=
  inferInstanceAs (Decidable (_ ∨ _))

/-- The task of a message has taken its first step when a `CANCEL` for it is read, and
what a handler raises can be reported. -/
def Admits (s : Session Phase) : Label → Prop
  | .cancel correlationId => correlationId ≠ "" → ∀ i ∈ s.table.lookup correlationId,
      ∀ task ∈ s.tasks[i]?, ∀ mustCancel, task.phase ≠ .scheduled mustCancel
  | .start _ outcome | .resume _ outcome => Reportable outcome
  | .message _ | .drop _ | .renew _ | .emit _ | .finish _ => True

instance decidableAdmits : ∀ s label, Decidable (Admits s label) := by
  intro s label
  unfold Admits
  split <;> infer_instance

@[simp]
def meaning : Meaning Phase where
  reported
    | .finishing true | .finished true => 1
    | _ => 0
  listed phase := ∀ reported, phase ≠ .finished reported
  lost phase := phase = .scheduled true ∨ phase = .finishing false ∨ phase = .finished false ∨
    phase = .dropped
  ended phase := phase = .dropped ∨ ∃ reported, phase = .finished reported
  settled := by
    rintro phase (rfl | ⟨reported, rfl⟩)
    · simp
    · cases reported <;> simp

theorem proceed_cases (outcome : Outcome) :
    Reportable outcome ∧ proceed outcome = (.handling false, []) ∨
      (∃ status, Reportable outcome ∧ proceed outcome = (.finishing true, [.report status])) ∨
      ¬ Reportable outcome ∧ proceed outcome = (.finishing false, []) := by
  cases outcome with
  | suspends => exact .inl ⟨.inl rfl, rfl⟩
  | returns => exact .inr (.inl ⟨.ok, .inr nofun, rfl⟩)
  | raises error =>
    cases error with
    | cancelledError => exact .inr (.inl ⟨.canceled, .inr nofun, rfl⟩)
    | exception code message =>
      cases message with
      | none => exact .inr (.inr ⟨not_or.mpr ⟨nofun, fun h => h rfl⟩, rfl⟩)
      | some message => exact .inr (.inl ⟨.error code message, .inr nofun, rfl⟩)
    | baseException => exact .inr (.inr ⟨not_or.mpr ⟨nofun, fun h => h rfl⟩, rfl⟩)

variable {s next : Session Phase} {i : Nat} {task : Task Phase}

/-- The handler gets on, in a task whose report is not there yet. -/
theorem proceed_effect (hi : s.tasks[i]? = some task) (hreported : meaning.reported task.phase = 0)
    (hlisted : meaning.listed task.phase) (hlost : ¬ meaning.lost task.phase) (outcome : Outcome)
    (acks : List MessageKind) (hacks : reportCount acks = 0) :
    Effect meaning s none (Reportable outcome)
      (s.move i task (proceed outcome).1 (acks ++ (proceed outcome).2)) := by
  have hcount : ∀ kinds, reportCount (acks ++ kinds) = reportCount kinds := by
    intro kinds
    rw [reportCount, countP_append, ← reportCount, ← reportCount, hacks, Nat.zero_add]
  have hmoves : ∀ phase kinds, meaning.reported phase = reportCount kinds →
      meaning.listed phase → (meaning.lost phase ↔ ¬ Reportable outcome) →
      Effect meaning s none (Reportable outcome) (s.move i task phase (acks ++ kinds)) := by
    intro phase kinds hphase hstays hloses
    refine .moves rfl hi ?_ (iff_of_true hstays hlisted) ?_
    · rw [hcount, hreported, hphase, Nat.zero_add]
    · rw [hloses, or_iff_right hlost]
  rcases proceed_cases outcome with ⟨h, heq⟩ | ⟨status, h, heq⟩ | ⟨h, heq⟩ <;> rw [heq] <;>
    exact hmoves _ _ rfl nofun (by simp [h])

theorem cancel_effect (s : Session Phase) (correlationId : String) :
    Effect meaning s none (Admits s (.cancel correlationId)) (handleCancel s correlationId) := by
  refine Effect.cancel meaning s cancelled
    (fun phase => ∀ mustCancel, phase ≠ .scheduled mustCancel) ?_ ?_ ?_ correlationId
  · intro phase
    cases phase <;> rfl
  · intro phase
    cases phase <;> simp [cancelled]
  · intro phase
    cases phase <;> simp [cancelled]

theorem finishes {phase last} (hlast : finished? phase = some last) :
    Finishes meaning phase last := by
  cases phase <;> cases hlast
  next reported => cases reported <;> exact ⟨rfl, by simp, by simp⟩

theorem effect_of_step {label} (hstep : step s label = some next) :
    Effect meaning s (messageId label) (Admits s label) next := by
  cases label with
  | message id =>
    cases hstep
    exact .spawns rfl rfl rfl nofun (by simp) trivial
  | cancel correlationId =>
    cases hstep
    exact cancel_effect s correlationId
  | start i outcome =>
    obtain ⟨⟨id, phase⟩, hi, hnext⟩ := bind_eq_some_iff.mp hstep
    obtain ⟨rfl, hnext⟩ := ite_none_right_eq_some.mp hnext
    cases hnext
    exact proceed_effect hi rfl nofun (by simp) outcome [.ack] rfl
  | drop i =>
    obtain ⟨⟨id, phase⟩, hi, hnext⟩ := bind_eq_some_iff.mp hstep
    obtain ⟨rfl, hnext⟩ := ite_none_right_eq_some.mp hnext
    cases hnext
    exact .moves rfl hi rfl (iff_of_true nofun nofun)
      (iff_of_true (.inr (.inr (.inr rfl))) (.inl (.inl rfl)))
  | resume i outcome =>
    obtain ⟨⟨id, phase⟩, hi, hnext⟩ := bind_eq_some_iff.mp hstep
    split at hnext
    next cancelled hphase =>
      cases hphase
      cases hnext
      exact proceed_effect hi rfl nofun (by simp) outcome [] rfl
    · cases hnext
  | renew i => exact .renew hstep
  | emit i => exact .emit hstep
  | finish i => exact .finish finishes hstep

def protocol : Protocol Phase Label where
  step := step
  messageId := messageId
  admits := Admits
  meaning := meaning
  effect _ _ _ := effect_of_step

end Python

/-! ## The protocol of the Node SDK -/

namespace Node

/-- What a handler throws can be reported. -/
def Admits (_ : Session Phase) : Label → Prop
  | .complete _ outcome => report? outcome ≠ none
  | .message _ | .cancel _ | .renew _ | .emit _ | .finish _ => True

instance decidableAdmits : ∀ s label, Decidable (Admits s label) := by
  intro s label
  unfold Admits
  split <;> infer_instance

@[simp]
def meaning : Meaning Phase where
  reported
    | .settling true | .finished true => 1
    | _ => 0
  listed phase := ∀ reported, phase ≠ .finished reported
  lost phase := phase = .settling false ∨ phase = .finished false
  ended phase := ∃ reported, phase = .finished reported
  settled := by
    rintro phase ⟨reported, rfl⟩
    cases reported <;> simp

variable {s next : Session Phase}

theorem cancel_effect (s : Session Phase) (correlationId : String) :
    Effect meaning s none (Admits s (.cancel correlationId)) (handleCancel s correlationId) := by
  have heffect := Effect.cancel meaning s aborted (fun _ => True) ?_ ?_ ?_ correlationId
  · simpa [Admits, handleCancel] using heffect
  · intro phase
    cases phase <;> rfl
  · intro phase
    cases phase <;> simp [aborted]
  · intro phase
    cases phase <;> simp [aborted]

theorem finishes {phase last} (hlast : finished? phase = some last) :
    Finishes meaning phase last := by
  cases phase <;> cases hlast
  next reported => cases reported <;> exact ⟨rfl, by simp, by simp⟩

theorem effect_of_step {label} (hstep : step s label = some next) :
    Effect meaning s (messageId label) (Admits s label) next := by
  cases label with
  | message id =>
    cases hstep
    exact .spawns rfl rfl rfl nofun (by simp) trivial
  | cancel correlationId =>
    cases hstep
    exact cancel_effect s correlationId
  | complete i outcome =>
    obtain ⟨⟨id, phase⟩, hi, hnext⟩ := bind_eq_some_iff.mp hstep
    split at hnext
    next aborted hphase =>
      cases hphase
      split at hnext <;> cases hnext <;>
        exact .moves rfl hi rfl (iff_of_true nofun nofun) (by simp [Admits, *])
    · cases hnext
  | renew i => exact .renew hstep
  | emit i => exact .emit hstep
  | finish i => exact .finish finishes hstep

def protocol : Protocol Phase Label where
  step := step
  messageId := messageId
  admits := Admits
  meaning := meaning
  effect _ _ _ := effect_of_step

end Node

/-! ## Both SDKs -/

/-- In either SDK, once the tasks have settled, every message has exactly one report and
has left the table exactly if no report was lost: every exception of a handler could be
reported and, in Python, no `CANCEL` was read before the first step of the task that it
cancels. -/
theorem final_reports_iff (pythonLabels : List Python.Label) (nodeLabels : List Node.Label) :
    (∀ python, (pythonLabels.filterMap Python.messageId).Nodup →
      run Python.step .initial pythonLabels = some python →
      Python.protocol.Settled python →
      ((∀ id ∈ pythonLabels.filterMap Python.messageId,
          python.reports id = 1 ∧ id ∉ python.table) ↔
        Meets Python.step Python.Admits .initial pythonLabels)) ∧
    ∀ node, (nodeLabels.filterMap Node.messageId).Nodup →
      run Node.step .initial nodeLabels = some node → Node.protocol.Settled node →
      ((∀ id ∈ nodeLabels.filterMap Node.messageId, node.reports id = 1 ∧ id ∉ node.table) ↔
        Meets Node.step Node.Admits .initial nodeLabels) :=
  ⟨fun _ => Python.protocol.reports_iff, fun _ => Node.protocol.reports_iff⟩

/-- A handler is cancelled where it is suspended, and another one fails. -/
def pythonCancelled : List Python.Label :=
  [.message "a", .start 0 .suspends, .message "b", .cancel "a", .renew 0,
    .start 1 (.raises (.exception "ValueError" (some "empty"))),
    .resume 0 (.raises .cancelledError), .finish 0, .finish 1]

def nodeCancelled : List Node.Label :=
  [.message "a", .cancel "a", .message "b", .emit 1, .complete 0 (.throws .abortError),
    .complete 1 .returns, .finish 0, .finish 1]

def pythonEnd : Session Python.Phase where
  tasks := [⟨"a", .finished true⟩, ⟨"b", .finished true⟩]
  table := ∅
  outgoing := [⟨"a", .ack⟩, ⟨"a", .ack⟩, ⟨"b", .ack⟩,
    ⟨"b", .report (.error "ValueError" "empty")⟩, ⟨"a", .report .canceled⟩]

def nodeEnd : Session Node.Phase where
  tasks := [⟨"a", .finished true⟩, ⟨"b", .finished true⟩]
  table := ∅
  outgoing := [⟨"a", .ack⟩, ⟨"b", .ack⟩, ⟨"b", .emit⟩, ⟨"a", .report .canceled⟩,
    ⟨"b", .report .ok⟩]

theorem final_reports_iff_cancelled :
    (pythonEnd.reports "a" = 1 ∧ "a" ∉ pythonEnd.table) ∧
      nodeEnd.reports "a" = 1 ∧ "a" ∉ nodeEnd.table := by
  have hpython : Python.protocol.Settled pythonEnd := by
    intro task hmem
    simp only [pythonEnd, mem_cons, not_mem_nil, or_false] at hmem
    rcases hmem with rfl | rfl <;> exact .inr ⟨true, rfl⟩
  have hnode : Node.protocol.Settled nodeEnd := by
    intro task hmem
    simp only [nodeEnd, mem_cons, not_mem_nil, or_false] at hmem
    rcases hmem with rfl | rfl <;> exact ⟨true, rfl⟩
  obtain ⟨hpythonIff, hnodeIff⟩ := final_reports_iff pythonCancelled nodeCancelled
  exact ⟨(hpythonIff pythonEnd (by decide) rfl hpython).mpr (by decide) "a" (by decide),
    (hnodeIff nodeEnd (by decide) rfl hnode).mpr (by decide) "a" (by decide)⟩

/-- A `CANCEL` that is read before the first step of the task it cancels. -/
def earlyCancel : List Python.Label := [.message "a", .cancel "a", .drop 0]

/-- The task is over without a report, and is still in the table. -/
theorem earlyCancel_not_reported :
    ∃ s, run Python.step .initial earlyCancel = some s ∧ Python.protocol.Settled s ∧
      s.reports "a" = 0 ∧ "a" ∈ s.table := by
  refine ⟨_, rfl, ?_, rfl, by decide⟩
  intro task hmem
  rw [mem_singleton.mp hmem]
  exact .inl rfl

end Voce.Sdk
