import Voce.Engine.SessionExpiry
import Voce.Foundation.Interleaving
import Voce.Protocol

/-! # gRPC streams and the idle cleanup

A `RealtimeStream` call loads and acquires a session and then runs a loop that sends the
output of the workflow and a loop that receives messages. A cleanup takes idle sessions out
of the map under the lock and stops their workflows afterwards. Streams and cleanups are
processes over one session manager, at non-decreasing wall-clock times.
-/

namespace Voce.Realtime

open Engine Protocol Interleaving Transition Option AList SessionManager List

variable {Key : Type}

inductive StatusError where
  | invalidArgument (text : String)
  | notFound (text : String)
  | resourceExhausted (text : String)
  | internal (text : String)

/-- Which loops of a stream run, and whether their context is cancelled. -/
structure Loops where
  writing : Bool
  reading : Bool
  cancelled : Bool

/-- A loop cancels the context when it returns. -/
def Loops.endWrite (loops : Loops) : Loops := { loops with writing := false, cancelled := true }

def Loops.endRead (loops : Loops) : Loops := { loops with reading := false, cancelled := true }

inductive StreamPhase where
  | called (sessionID : Option String)
  | loaded (sessionID : String) (r : SessionRef)
  | acquired (r : SessionRef)
  | serving (r : SessionRef) (loops : Loops)
  | releasing (r : SessionRef) (result : Except StatusError Unit)
  | released (r : SessionRef) (result : Except StatusError Unit)
  | returned (result : Except StatusError Unit)
  | cleaning
  /-- The sessions that a cleanup took out of the map and has yet to stop. -/
  | stopping (toBeStopped : List SessionRef)
  | cleaned

inductive StreamEvent where
  | proceed
  | output (sent : Bool)
  | outputClosed
  | writeDone
  | message (type : PacketType) (payload : List UInt8)
  | recvFailed
  | readDone
  | contextDone

namespace StreamPhase

variable [DecidableEq Key]

/-- `readLoop` has received a message. Whether it returns comes second. -/
def receive (m : SessionManager Key) (now : Int) (r : SessionRef) (type : PacketType)
    (payload : List UInt8) : SessionManager Key × Bool :=
  let m := m.updateActivity r now
  if type = typeAudio then
    match (m.session r).workflow.sendToHead payload with
    | .ok workflow => (m.setWorkflow r workflow, false)
    | .error _ => (m, false)
  else if type = typeClose then (m.removeSession (m.session r).key, true)
  else (m, false)

/-- The loops of a stream. Only `readLoop` updates the activity of the session. -/
def serve (m : SessionManager Key) (now : Int) (r : SessionRef) (loops : Loops) :
    StreamEvent → Option (StreamPhase × SessionManager Key)
  | .output sent =>
    if loops.writing then some (.serving r (if sent then loops else loops.endWrite), m)
    else none
  | .outputClosed =>
    if loops.writing && (m.session r).workflow.outputClosed then
      some (.serving r loops.endWrite, m)
    else none
  | .writeDone =>
    if loops.writing && loops.cancelled then some (.serving r loops.endWrite, m) else none
  | .message type payload =>
    if loops.reading then
      let (m, returns) := receive m now r type payload
      some (.serving r (if returns then loops.endRead else loops), m)
    else none
  | .recvFailed => if loops.reading then some (.serving r loops.endRead, m) else none
  | .readDone =>
    if loops.reading && loops.cancelled then some (.serving r loops.endRead, m) else none
  | .contextDone => some (.serving r { loops with cancelled := true }, m)
  | .proceed =>
    if loops.writing || loops.reading then none else some (.releasing r (.ok ()), m)

/-- The next step of a stream or a cleanup. `parse` is `ParseSessionKey`. -/
def next (parse : String → Option Key) (m : SessionManager Key) (now : Int)
    (event : StreamEvent) : StreamPhase → Option (StreamPhase × SessionManager Key)
  | .called none =>
    some (.returned (.error (.invalidArgument "missing session_id in metadata")), m)
  | .called (some sessionID) =>
    match parse sessionID with
    | none => some (.returned (.error (.invalidArgument "invalid session_id")), m)
    | some key =>
      match m.loadSession key now with
      | (m, none) =>
        some (.returned (.error (.notFound ("session " ++ sessionID ++ " not found"))), m)
      | (m, some r) => some (.loaded sessionID r, m)
  | .loaded sessionID r =>
    match m.acquire r with
    | (m, false) => some (.returned
        (.error (.resourceExhausted ("session " ++ sessionID ++ " is busy"))), m)
    | (m, true) => some (.acquired r, m)
  | .acquired r =>
    if (m.session r).workflow.state = .paused then
      match (m.session r).workflow.resume with
      | .error error => some (.releasing r (.error (.internal ("resume failed: " ++ error))), m)
      | .ok workflow => some (.serving r ⟨true, true, false⟩, m.setWorkflow r workflow)
    else some (.serving r ⟨true, true, false⟩, m)
  | .serving r loops => serve m now r loops event
  | .releasing r result => some (.released r result, m.release r)
  | .released r result =>
    if (m.session r).workflow.state = .running then
      match (m.session r).workflow.pause with
      | .ok workflow => some (.returned result, m.setWorkflow r workflow)
      | .error _ => some (.returned result, m)
    else some (.returned result, m)
  | .returned _ => none
  | .cleaning =>
    let swept := m.sweep now m.sessions.keys
    some (.stopping swept.2, swept.1)
  | .stopping [] => some (.cleaned, m)
  | .stopping (r :: rest) => some (.stopping rest, m.stopWorkflow r)
  | .cleaned => none

/-- The session of a stream, from its `LoadSession` on until its loops have ended. -/
def holds : StreamPhase → Option SessionRef
  | .loaded _ r | .acquired r | .serving r _ => some r
  | _ => none

/-- The session of a stream both of whose loops run. -/
def live : StreamPhase → Option SessionRef
  | .serving r loops => if loops.writing && loops.reading then some r else none
  | _ => none

def toStop : StreamPhase → List SessionRef
  | .stopping toBeStopped => toBeStopped
  | _ => []

end StreamPhase

/-! ## Runs -/

structure StreamServer (Key : Type) where
  manager : SessionManager Key
  clock : Int

inductive ManagerRequest (Key : Type) where
  | createSession (key : Key) (built : Except String Workflow)
  | loadSession (key : Key)
  | updateActivity (r : SessionRef)
  | removeSession (key : Key)

inductive StreamLabel (Key : Type) where
  | stream (sessionID : Option String)
  | cleanup
  | advance (process : Nat) (now : Int) (event : StreamEvent)
  | request (now : Int) (request : ManagerRequest Key)

abbrev Streams (Key : Type) := Config (StreamServer Key) StreamPhase

namespace Streams

variable [DecidableEq Key]

def serveRequest (m : SessionManager Key) (now : Int) : ManagerRequest Key → SessionManager Key
  | .createSession key built => (m.createSession key now built).1
  | .loadSession key => (m.loadSession key now).1
  | .updateActivity r => m.updateActivity r now
  | .removeSession key => m.removeSession key

def step (parse : String → Option Key) (c : Streams Key) : StreamLabel Key → Option (Streams Key)
  | .stream sessionID => some (c.spawn (.called sessionID))
  | .cleanup => some (c.spawn .cleaning)
  | .advance process now event =>
    if c.shared.clock ≤ now then
      c.advance (fun phase => (phase.next parse c.shared.manager now event).map
        fun moved => (moved.1, ⟨moved.2, now⟩)) process
    else none
  | .request now request =>
    if c.shared.clock ≤ now then
      some { c with shared := ⟨serveRequest c.shared.manager now request, now⟩ }
    else none

def initial (timeout start : Int) (blank : Session Key) : Streams Key :=
  ⟨⟨⟨timeout, ∅, fun _ => blank, 0⟩, start⟩, []⟩

variable (session : StreamPhase → Option SessionRef) (c : Streams Key)

/-- A cleanup in this phase does not take the session of a stream out of the map, or does not
stop its workflow. -/
def Spares (now : Int) : Option StreamPhase → Prop
  | some .cleaning => ∀ entry ∈ c.shared.manager.sessions.entries, ∀ phase ∈ c.phases,
      session phase = some entry.2 →
        entry ∈ (c.shared.manager.sweep now c.shared.manager.sessions.keys).1.sessions.entries
  | some (.stopping (r :: _)) => ∀ phase ∈ c.phases, session phase ≠ some r
  | _ => True

instance (now : Int) : DecidablePred (Spares session c now) := by
  intro phase
  unfold Spares
  split <;> infer_instance

/-- No cleanup takes the session of a stream out of the map or stops its workflow. -/
def Keeps : StreamLabel Key → Prop
  | .advance process now _ => Spares session c now c.phases[process]?
  | _ => True

instance : DecidablePred (Keeps session c) := by
  intro label
  unfold Keeps
  split <;> infer_instance

/-- A cleanup comes less than the timeout after the last activity of every session in the
map that a stream holds. -/
def Admits : StreamLabel Key → Prop
  | .advance process now _ =>
    match c.phases[process]? with
    | some .cleaning => ∀ entry ∈ c.shared.manager.sessions.entries, ∀ phase ∈ c.phases,
        phase.holds = some entry.2 → c.shared.manager.Recent now entry.2
    | _ => True
  | _ => True

/-! ## What a cleanup collected is not held -/

/-- What a cleanup has yet to stop is not mapped any more. -/
def Asserts (phase : StreamPhase) (server : StreamServer Key) : Prop :=
  ∀ r ∈ phase.toStop, server.manager.Unmapped r

/-- A stream does not hold what a cleanup has yet to stop. -/
def Apart (phase other : StreamPhase) : Prop := ∀ r, phase.holds = some r → r ∉ other.toStop

abbrev Invariant : Prop :=
  Outline (fun server : StreamServer Key => server.manager.WellMapped) Asserts Apart c

variable {c : Streams Key}

theorem Asserts.follows {phase} {server after : StreamServer Key} (h : Asserts phase server)
    (hfollows : server.manager.Follows after.manager) : Asserts phase after :=
  fun r hr => (h r hr).follows hfollows

variable {phase moved : StreamPhase} {i : Nat}

/-- A step of a stream that is not its load keeps what it holds or gives it up. -/
theorem Invariant.stream (h : Invariant c) (hi : c.phases[i]? = some phase)
    {server : StreamServer Key} (hfollows : c.shared.manager.Follows server.manager)
    (hholds : ∀ r, moved.holds = some r → phase.holds = some r)
    (hstop : ∀ r ∈ moved.toStop, r ∈ phase.toStop) : Invariant (c.update i moved server) := by
  refine h.update hi (h.shared.follows hfollows) ?_ ?_
  · intro r hr
    exact (h.asserted i phase hi r (hstop r hr)).follows hfollows
  · intro other _ hother hown hback
    refine ⟨hother.follows hfollows, ?_, ?_⟩
    · exact fun r hr => hown r (hholds r hr)
    · exact fun r hr hmem => hback r hr (hstop r hmem)

variable {r : SessionRef}

/-- A session that is loaded is mapped, so that no cleanup has collected it. -/
theorem Invariant.load (h : Invariant c) (hi : c.phases[i]? = some phase)
    {server : StreamServer Key} (hfollows : c.shared.manager.Follows server.manager) {k}
    (hmapped : c.shared.manager.sessions.lookup k = some r) (hholds : moved.holds = some r)
    (hstop : moved.toStop = []) : Invariant (c.update i moved server) := by
  refine h.update hi (h.shared.follows hfollows) ?_ ?_
  · intro b hb
    rw [hstop] at hb
    cases hb
  · intro other _ hother _ _
    refine ⟨hother.follows hfollows, ?_, ?_⟩
    · intro b hb hmem
      obtain rfl : r = b := some.inj (hholds.symm.trans hb)
      exact (hother r hmem).2 k hmapped
    · intro b _ hmem
      rw [hstop] at hmem
      cases hmem

variable {now : Int}

/-- What a cleanup collects is held by nobody. -/
theorem Invariant.sweep (h : Invariant c) (hi : c.phases[i]? = some .cleaning)
    (hadmits : ∀ entry ∈ c.shared.manager.sessions.entries, ∀ phase ∈ c.phases,
      phase.holds = some entry.2 → c.shared.manager.Recent now entry.2) :
    Invariant (c.update i (.stopping (c.shared.manager.sweep now c.shared.manager.sessions.keys).2)
      ⟨(c.shared.manager.sweep now c.shared.manager.sessions.keys).1, now⟩) := by
  have hfollows := SessionManager.Follows.sweep c.shared.manager now c.shared.manager.sessions.keys
  refine h.update hi (h.shared.follows hfollows) ?_ ?_
  · intro r hr
    exact h.shared.sweep_unmapped hr
  · intro other hother hasserts _ _
    refine ⟨hasserts.follows hfollows, nofun, fun r hr hmem => ?_⟩
    obtain ⟨k, -, hmapped, hidle⟩ := sweep_mem hmem
    exact hidle (hadmits ⟨k, r⟩ (mem_lookup_iff.mp hmapped) other hother hr)

theorem receive_follows (m : SessionManager Key) (now : Int) (r : SessionRef) (type : PacketType)
    (payload : List UInt8) : m.Follows (StreamPhase.receive m now r type payload).1 := by
  have hactive : m.Follows (m.updateActivity r now) := .setSession m r rfl
  unfold StreamPhase.receive
  dsimp only
  split
  · split
    · exact hactive.trans (.setSession _ r rfl)
    · exact hactive
  · split
    · exact hactive.trans (.removeSession _ _)
    · exact hactive

/-- The loops of a stream keep to its session. -/
theorem serve_frame {m after : SessionManager Key} {loops event} {moved : StreamPhase}
    (hserve : StreamPhase.serve m now r loops event = some (moved, after)) :
    m.Follows after ∧ (∀ b, moved.holds = some b → b = r) ∧ moved.toStop = [] := by
  have hserving : ∀ loops, (∀ b, (StreamPhase.serving r loops).holds = some b → b = r) ∧
      (StreamPhase.serving r loops).toStop = [] :=
    fun loops => ⟨fun b hb => (some.inj hb).symm, rfl⟩
  cases event with
  | message type payload =>
    simp only [StreamPhase.serve] at hserve
    split at hserve <;> cases hserve
    exact ⟨receive_follows m now r type payload, hserving _⟩
  | contextDone =>
    cases hserve
    exact ⟨.refl m, hserving _⟩
  | proceed =>
    simp only [StreamPhase.serve] at hserve
    split at hserve <;> cases hserve
    exact ⟨.refl m, nofun, rfl⟩
  | _ =>
    simp only [StreamPhase.serve] at hserve
    split at hserve <;> cases hserve
    exact ⟨.refl m, hserving _⟩

/-- One step of a stream or a cleanup. -/
theorem Invariant.next (h : Invariant c) {parse event} (hadmits : Admits c (.advance i now event))
    {after} (hi : c.phases[i]? = some phase)
    (hnext : phase.next parse c.shared.manager now event = some (moved, after)) :
    Invariant (c.update i moved ⟨after, now⟩) := by
  have hquiet : c.shared.manager.Follows after → moved.holds = none → moved.toStop = [] →
      Invariant (c.update i moved ⟨after, now⟩) := by
    intro hfollows hholds hstop
    refine h.stream hi hfollows (fun r hr => ?_) fun r hr => ?_
    · rw [hholds] at hr
      cases hr
    · rw [hstop] at hr
      cases hr
  cases phase with
  | called sessionID =>
    cases sessionID with
    | none =>
      cases hnext
      exact hquiet (.refl _) rfl rfl
    | some sessionID =>
      simp only [StreamPhase.next] at hnext
      split at hnext
      · cases hnext
        exact hquiet (.refl _) rfl rfl
      next key _ =>
        have hfollows := SessionManager.Follows.loadSession c.shared.manager key now
        split at hnext
        next loaded hload =>
          cases hnext
          rw [hload] at hfollows
          exact hquiet hfollows rfl rfl
        next loaded r hload =>
          cases hnext
          rw [hload] at hfollows
          unfold loadSession at hload
          split at hload
          · cases hload
          next found hfound =>
            cases hload
            exact h.load hi hfollows hfound rfl rfl
  | loaded sessionID r =>
    have hfollows := SessionManager.Follows.acquire c.shared.manager r
    simp only [StreamPhase.next] at hnext
    split at hnext
    next acquired hacquire =>
      cases hnext
      rw [hacquire] at hfollows
      exact hquiet hfollows rfl rfl
    next acquired hacquire =>
      cases hnext
      rw [hacquire] at hfollows
      exact h.stream hi hfollows (fun b hb => hb) fun b hb => hb
  | acquired r =>
    simp only [StreamPhase.next] at hnext
    split at hnext
    · split at hnext
      · cases hnext
        exact hquiet (.refl _) rfl rfl
      · cases hnext
        exact h.stream hi (.setSession _ r rfl) (fun b hb => hb) fun b hb => hb
    · cases hnext
      exact h.stream hi (.refl _) (fun b hb => hb) fun b hb => hb
  | serving r loops =>
    obtain ⟨hfollows, hholds, hstop⟩ := serve_frame hnext
    refine h.stream hi hfollows (fun b hb => ?_) fun b hb => ?_
    · rw [hholds b hb]
      rfl
    · rw [hstop] at hb
      cases hb
  | releasing r result =>
    cases hnext
    exact hquiet (.setSession _ r rfl) rfl rfl
  | released r result =>
    simp only [StreamPhase.next] at hnext
    split at hnext
    · split at hnext
      · cases hnext
        exact hquiet (.setSession _ r rfl) rfl rfl
      · cases hnext
        exact hquiet (.refl _) rfl rfl
    · cases hnext
      exact hquiet (.refl _) rfl rfl
  | returned result | cleaned => cases hnext
  | cleaning =>
    cases hnext
    refine h.sweep hi ?_
    simpa only [Admits, hi] using hadmits
  | stopping toBeStopped =>
    cases toBeStopped with
    | nil =>
      cases hnext
      exact hquiet (.refl _) rfl rfl
    | cons r rest =>
      cases hnext
      exact h.stream hi (.setSession _ r rfl) nofun
        fun b hb => mem_cons_of_mem r hb

variable {label : StreamLabel Key}

theorem Invariant.step {parse after} (h : Invariant c) (hadmits : Admits c label)
    (hstep : step parse c label = some after) : Invariant after := by
  cases label with
  | stream sessionID | cleanup =>
    cases hstep
    exact h.spawn nofun fun other =>
      ⟨nofun, nofun⟩
  | advance process now event =>
    obtain ⟨-, hstep⟩ := ite_none_right_eq_some.mp hstep
    obtain ⟨phase, moved, shared, hi, hmapped, rfl⟩ := Config.advance_eq_some hstep
    obtain ⟨result, hnext, heq⟩ := map_eq_some_iff.mp hmapped
    cases heq
    exact h.next hadmits hi hnext
  | request now request =>
    obtain ⟨-, hstep⟩ := ite_none_right_eq_some.mp hstep
    cases hstep
    have hfollows : c.shared.manager.Follows (serveRequest c.shared.manager now request) := by
      cases request with
      | createSession key built => exact .createSession _ key now built
      | loadSession key => exact .loadSession _ key now
      | updateActivity r => exact .setSession _ r rfl
      | removeSession key => exact .removeSession _ key
    exact h.environment (h.shared.follows hfollows) fun other hother => hother.follows hfollows

/-! ## When no cleanup disturbs a stream -/

/-- Exactly the sessions with recent activity survive the sweep. -/
theorem keeps_of_admits (h : Invariant c) (hadmits : Admits c label) :
    Keeps StreamPhase.holds c label := by
  cases label with
  | advance process now event =>
    simp only [Admits] at hadmits
    simp only [Keeps]
    split at hadmits
    next hi =>
      rw [hi, Spares]
      rintro ⟨k, r⟩ hentry phase hphase hholds
      refine mem_lookup_iff.mp ((sweep_lookup _ _ _ _ _).mpr ?_)
      exact ⟨mem_lookup_iff.mpr hentry, fun _ => hadmits ⟨k, r⟩ hentry phase hphase hholds⟩
    next hi =>
      unfold Spares
      split
      next hcleaning => exact absurd hcleaning hi
      next r rest hstopping =>
        intro phase hphase hholds
        obtain ⟨j, hj⟩ := mem_iff_getElem?.mp hphase
        have hne : j ≠ process := by
          rintro rfl
          rw [hstopping] at hj
          cases hj
          cases hholds
        exact h.separated j process _ _ hne hj hstopping r hholds mem_cons_self
      · trivial
  | _ => trivial

theorem admits_of_keeps (hkeeps : Keeps StreamPhase.holds c label) : Admits c label := by
  cases label with
  | advance process now event =>
    simp only [Keeps] at hkeeps
    simp only [Admits]
    split
    next hi =>
      rw [hi, Spares] at hkeeps
      rintro ⟨k, r⟩ hentry phase hphase hholds
      have hkept := mem_lookup_iff.mpr (hkeeps ⟨k, r⟩ hentry phase hphase hholds)
      obtain ⟨hmapped, hrecent⟩ := (sweep_lookup _ _ _ _ _).mp hkept
      exact hrecent (FiniteMap.mem_iff.mpr ⟨r, hmapped⟩)
    · trivial
  | _ => trivial

theorem holds_of_live {phase : StreamPhase} (hlive : phase.live = some r) :
    phase.holds = some r := by
  cases phase with
  | serving b loops =>
    simp only [StreamPhase.live] at hlive
    split at hlive <;> cases hlive
    rfl
  | _ => cases hlive

theorem keeps_live (hkeeps : Keeps StreamPhase.holds c label) : Keeps StreamPhase.live c label := by
  cases label with
  | advance process now event =>
    simp only [Keeps, Spares] at hkeeps ⊢
    split at hkeeps
    · intro entry hentry phase hphase hlive
      exact hkeeps entry hentry phase hphase (holds_of_live hlive)
    · intro phase hphase hlive
      exact hkeeps phase hphase (holds_of_live hlive)
    · trivial
  | _ => trivial

/-- No cleanup takes away the session of a stream, from its load to the end of its loops, if
and only if every cleanup comes less than the timeout after the last activity. In particular
none does so while both loops run. -/
theorem streams_kept_iff (parse : String → Option Key) (timeout start : Int)
    (blank : Session Key) (labels : List (StreamLabel Key)) :
    (Meets (step parse) (Keeps StreamPhase.holds) (initial timeout start blank) labels ↔
        Meets (step parse) Admits (initial timeout start blank) labels) ∧
      (Meets (step parse) Admits (initial timeout start blank) labels →
        Meets (step parse) (Keeps StreamPhase.live) (initial timeout start blank)
          labels) := by
  have hkeeps : Meets (step parse) Admits (initial timeout start blank) labels →
      Meets (step parse) (Keeps StreamPhase.holds) (initial timeout start blank)
        labels :=
    meets_of_invariant Invariant Invariant.step (fun _ _ => keeps_of_admits) (.start _ nofun)
  refine ⟨⟨?_, hkeeps⟩, fun hadmits => ?_⟩
  · exact meets_of_invariant (fun _ => True) (fun _ _ _ => trivial)
      (fun _ _ _ => admits_of_keeps) trivial
  · exact meets_of_invariant (fun _ => True) (fun _ _ _ => trivial)
      (fun _ _ _ => keeps_live) trivial (hkeeps hadmits)

def parseSeven (sessionID : String) : Option Nat := if sessionID = "7" then some 7 else none

/-- A client that sends nothing after it has connected, and gets output all the time. -/
def silentClient : List (StreamLabel Nat) :=
  [.request 1000 (.createSession 7 TimedManager.echoWorkflow), .stream (some "7"),
    .advance 0 1000 .proceed, .advance 0 1000 .proceed, .advance 0 1000 .proceed,
    .advance 0 20000 (.output true), .advance 0 40000 (.output true),
    .advance 0 60000 (.output true), .cleanup, .advance 1 61000 .proceed,
    .advance 1 61000 .proceed]

/-- After a minute of output the session is collected and its workflow is stopped, while
both loops run. -/
theorem silentClient_not_kept :
    ¬ Meets (step parseSeven) (Keeps StreamPhase.live)
        (initial 60000 0 TimedManager.blankSession) silentClient ∧
      (run (step parseSeven) (initial 60000 0 TimedManager.blankSession)
          silentClient).map (fun c => (c.phases[0]?.bind StreamPhase.live,
            c.shared.manager.sessions.lookup 7, (c.shared.manager.session 0).workflow.state)) =
        some (some 0, none, .stopped) := by
  constructor
  · decide +kernel
  · decide +kernel

end Streams

end Voce.Realtime
