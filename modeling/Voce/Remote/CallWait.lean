import Voce.Remote.CallMatching

/-! # The error that a call is finished with

`finish` sets the flag of a call and then sends its error. If the lease expires or the context
is cancelled in the meantime, or if `select` prefers that to an error that was sent, `wait`
finds the flag set and returns no error at all.
-/

namespace Voce.Remote

open Transition Option CallTable

/-- One call and what goes on around it. -/
structure CallRun where
  call : Call
  /-- The error of a `finish` that has set the flag and has yet to send it. -/
  claimed : Option CallError
  /-- The error of the `finish` that was the first to set the flag. -/
  winner : Option CallError

inductive CallEvent where
  | finish (error : CallError)
  | deliver
  /-- `renew`, also of a caller that saw the flag before it was set. -/
  | renew
  | wait (waited : Waited)
  | cancelSent
  | cancelRefused (error : String)

namespace CallRun

/-- A call whose `wait` begins. -/
def initial (id : String) (messageType : MessageType) (cancelable : Bool) : CallRun :=
  ⟨CallTable.newCall id messageType cancelable .waiting, none, none⟩

def step (s : CallRun) : CallEvent → Option CallRun
  | .finish error =>
    if s.call.finished then some s
    else some ⟨{ s.call with finished := true }, some error, some error⟩
  | .deliver =>
    match s.claimed with
    | none => none
    | some error =>
      -- the channel has room for one error
      if s.call.done.isSome then none
      else some { s with call := { s.call with done := some error }, claimed := none }
  | .renew => some { s with call := { s.call with renewCh := true } }
  | .wait waited =>
    if s.call.phase = .waiting then
      (CallTable.wait s.call waited).map fun call => { s with call := call }
    else none
  | .cancelSent =>
    if s.call.phase = .cancelling then some { s with call := { s.call with phase := .waiting } }
    else none
  | .cancelRefused error =>
    if s.call.phase = .cancelling then some { s with call := CallTable.expire s.call error }
    else none

/-- `wait` gives the call up only while the flag is not set. -/
def Prompt (s : CallRun) : CallEvent → Prop
  | .wait .leaseExpired | .cancelRefused _ => s.call.finished = false
  | .wait (.contextDone _) => s.call.finished = false ∨ s.call.cancelable = true
  | .finish _ | .deliver | .renew | .wait .done | .wait .renewed | .cancelSent => True

instance (s : CallRun) (event : CallEvent) : Decidable (s.Prompt event) := by
  unfold Prompt
  split <;> infer_instance

/-- The winner's error is on its way, or `wait` has returned it. -/
structure Sound (s : CallRun) : Prop where
  running : s.call.finished = false → s.call.phase = .waiting ∨ s.call.phase = .cancelling
  lost : s.winner = none → s.claimed = none ∧ s.call.done = none
  finished : s.winner ≠ none → s.call.finished = true
  won : ∀ error, s.winner = some error → s.call.phase = .releasing error ∨
    (s.call.phase = .waiting ∨ s.call.phase = .cancelling) ∧
      (s.claimed = some error ∧ s.call.done = none ∨ s.claimed = none ∧ s.call.done = some error)

theorem initial_sound (id : String) (messageType : MessageType) (cancelable : Bool) :
    (initial id messageType cancelable).Sound :=
  ⟨fun _ => .inl rfl, fun _ => ⟨rfl, rfl⟩, absurd rfl, nofun⟩

variable {s next : CallRun}

theorem Sound.winner_eq_none (hs : s.Sound) (hflag : s.call.finished = false) :
    s.winner = none := by
  by_contra hsome
  rw [hs.finished hsome] at hflag
  cases hflag

/-- A call that is given up had no winner, and gets none. -/
theorem Sound.expire (hs : s.Sound) (hflag : s.call.finished = false) {call}
    (hdone : call.done = s.call.done) (hcall : call.finished = false) (error : String) :
    ({ s with call := expire call error } : CallRun).Sound := by
  have hnone := hs.winner_eq_none hflag
  rw [CallTable.expire, if_neg (by rw [hcall]; nofun)]
  exact ⟨nofun, fun h => ⟨(hs.lost h).1, hdone.trans (hs.lost h).2⟩, absurd hnone,
    fun winner h => nomatch hnone.symm.trans h⟩

/-- `wait` goes on without having returned. -/
theorem Sound.goes_on (hs : s.Sound) {call} (hdone : call.done = s.call.done)
    (hfinished : call.finished = s.call.finished)
    (hbefore : s.call.phase = .waiting ∨ s.call.phase = .cancelling)
    (hafter : call.phase = .waiting ∨ call.phase = .cancelling) :
    ({ s with call := call } : CallRun).Sound := by
  refine ⟨fun _ => hafter, ?_, fun h => hfinished.trans (hs.finished h), fun error h => ?_⟩
  · exact fun h => ⟨(hs.lost h).1, hdone.trans (hs.lost h).2⟩
  · rcases hs.won error h with hreturned | ⟨-, hway⟩
    · rcases hbefore with h | h <;> cases h.symm.trans hreturned
    · exact .inr ⟨hafter, by rwa [hdone]⟩

theorem Sound.wait (hs : s.Sound) {waited call} (hprompt : s.Prompt (.wait waited))
    (hphase : s.call.phase = .waiting) (hwait : wait s.call waited = some call) :
    ({ s with call := call } : CallRun).Sound := by
  cases waited with
  | done =>
    simp only [CallTable.wait] at hwait
    split at hwait
    · cases hwait
    next error hdone =>
      cases hwait
      have hsent : s.call.finished = true := by
        apply hs.finished
        intro hnone
        cases (hs.lost hnone).2.symm.trans hdone
      refine ⟨fun h => (by cases h.symm.trans hsent), fun h => ⟨(hs.lost h).1, rfl⟩, hs.finished,
        fun winner h => .inl ?_⟩
      rcases hs.won winner h with hreturned | ⟨-, ⟨-, hnone⟩ | ⟨-, hsome⟩⟩
      · cases hphase.symm.trans hreturned
      · cases hnone.symm.trans hdone
      · cases hsome.symm.trans hdone
        rfl
  | renewed =>
    obtain ⟨-, hnext⟩ := ite_none_right_eq_some.mp hwait
    cases hnext
    exact hs.goes_on rfl rfl (.inl hphase) (.inl hphase)
  | leaseExpired =>
    cases hwait
    exact hs.expire hprompt rfl hprompt _
  | contextDone error =>
    obtain ⟨-, hwait⟩ := ite_none_left_eq_some.mp hwait
    split at hwait
    · cases hwait
      exact hs.goes_on rfl rfl (.inl hphase) (.inr rfl)
    next hplain =>
      cases hwait
      have hflag : s.call.finished = false := hprompt.resolve_right hplain
      refine hs.expire hflag ?_ ?_ error
      · rfl
      · exact hflag

theorem Sound.step {event} (hs : s.Sound) (hprompt : s.Prompt event)
    (hstep : s.step event = some next) : next.Sound := by
  cases event with
  | finish error =>
    simp only [CallRun.step] at hstep
    split at hstep
    · cases hstep
      exact hs
    next hflag =>
      cases hstep
      have hflag : s.call.finished = false := by simpa using hflag
      have hdone := (hs.lost (hs.winner_eq_none hflag)).2
      refine ⟨nofun, nofun, fun _ => rfl, fun winner hwinner => ?_⟩
      cases hwinner
      exact .inr ⟨hs.running hflag, .inl ⟨rfl, hdone⟩⟩
  | deliver =>
    simp only [CallRun.step] at hstep
    split at hstep
    · cases hstep
    next error hclaimed =>
      obtain ⟨-, hnext⟩ := ite_none_left_eq_some.mp hstep
      cases hnext
      have hlost : s.winner ≠ none := fun h => nomatch (hs.lost h).1.symm.trans hclaimed
      refine ⟨hs.running, fun h => absurd h hlost, hs.finished, fun winner hwinner => ?_⟩
      rcases hs.won winner hwinner with hreturned | ⟨hphase, ⟨hway, -⟩ | ⟨hnone, -⟩⟩
      · exact .inl hreturned
      · cases hway.symm.trans hclaimed
        exact .inr ⟨hphase, .inr ⟨rfl, rfl⟩⟩
      · cases hnone.symm.trans hclaimed
  | renew =>
    cases hstep
    exact ⟨hs.running, hs.lost, hs.finished, hs.won⟩
  | wait waited =>
    obtain ⟨hphase, hnext⟩ := ite_none_right_eq_some.mp hstep
    obtain ⟨call, hwait, rfl⟩ := map_eq_some_iff.mp hnext
    exact hs.wait hprompt hphase hwait
  | cancelSent =>
    obtain ⟨hphase, hnext⟩ := ite_none_right_eq_some.mp hstep
    cases hnext
    exact hs.goes_on rfl rfl (.inr hphase) (.inl rfl)
  | cancelRefused error =>
    obtain ⟨hphase, hnext⟩ := ite_none_right_eq_some.mp hstep
    cases hnext
    exact hs.expire hprompt rfl hprompt error

/-- The end of `doCall`: what it returns, and the state that it leaves the plugin in. An error
of an interrupted call is no failure of the plugin. -/
def afterWait (isCanceled : String → Bool) (state : PluginState) :
    CallError → CallError × PluginState
  | none => (none, state)
  | some error => (some error, if isCanceled error then state else .failed)

/-- If `wait` gives the call up only while the flag is not set, it returns the error of the
`finish` that was the first to set it, and it does return. -/
theorem finished_error_returned {id : String} {messageType : MessageType} {cancelable : Bool}
    {events : List CallEvent} {error : CallError}
    (hprompt : Meets step Prompt (initial id messageType cancelable) events)
    (hrun : run step (initial id messageType cancelable) events = some s)
    (hwinner : s.winner = some error) :
    (∀ returned, s.call.phase = .releasing returned → returned = error ∧
      ∀ isCanceled text, error = some text → isCanceled text = false →
        afterWait isCanceled .streaming returned = (some text, .failed)) ∧
    (s.call.phase = .waiting → ∃ rest final, run step s rest = some final ∧
      final.call.phase = .releasing error) := by
  have hs : s.Sound := run_invariant_of_meets Sound Sound.step (initial_sound _ _ _) hprompt
    hrun
  constructor
  · intro returned hreturned
    obtain rfl : returned = error := by
      rcases hs.won error hwinner with h | ⟨h | h, -⟩
      · cases h.symm.trans hreturned
        rfl
      · cases h.symm.trans hreturned
      · cases h.symm.trans hreturned
    refine ⟨rfl, ?_⟩
    rintro isCanceled text rfl hplain
    simp [afterWait, hplain]
  · intro hphase
    rcases hs.won error hwinner with h | ⟨-, ⟨hclaimed, hdone⟩ | ⟨-, hdone⟩⟩
    · cases hphase.symm.trans h
    · refine ⟨[.deliver, .wait .done], { s with
        call := { s.call with done := none, phase := .releasing error }, claimed := none }, ?_, rfl⟩
      simp [run, step, hclaimed, hdone, hphase, wait]
    · refine ⟨[.wait .done], { s with
        call := { s.call with done := none, phase := .releasing error } }, ?_, rfl⟩
      simp [run, step, hdone, hphase, wait]

/-- A report with an error ends the call. -/
def reported : List CallEvent :=
  [.renew, .wait .renewed, .finish (some "bad"), .deliver, .wait .done]

theorem finished_error_returned_reported :
    ∃ s, run step (initial "a" .payload true) reported = some s ∧
      s.winner = some (some "bad") ∧ s.call.phase = .releasing (some "bad") := by
  have hrun : run step (initial "a" .payload true) reported = some _ := rfl
  refine ⟨_, hrun, rfl, ?_⟩
  obtain ⟨hreturned, -⟩ := finished_error_returned (by decide) hrun rfl
  exact congrArg CallPhase.releasing (hreturned _ rfl).1

/-- The lease expires while the error of a report is on its way. -/
def overtaken : List CallEvent := [.finish (some "bad"), .wait .leaseExpired]

/-- The call returns without an error, and the plugin goes on streaming. -/
theorem overtaken_swallows_error :
    ∃ s, run step (initial "a" .payload true) overtaken = some s ∧
      s.winner = some (some "bad") ∧ s.call.phase = .releasing none ∧
      afterWait (fun _ => false) .streaming none = (none, .streaming) :=
  ⟨_, rfl, rfl, rfl, rfl⟩

end CallRun

end Voce.Remote
