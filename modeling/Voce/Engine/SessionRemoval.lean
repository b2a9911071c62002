import Voce.Engine.ObserverTable
import Voce.Engine.SessionManager
import Voce.Foundation.Interleaving

/-! # Creating and removing sessions concurrently

`CreateSession`, `RemoveSession`, `Cleanup` and `Stop` change the map under the lock. The
counter of the active sessions, the observers of deleted sessions and the stops of the
workflows come afterwards, without the lock, so that the calls interleave in between. A
run records who took which session out of the map, and which observer was called for which
session. Created sessions have a table of observers with the same functions; their calls
are left out.
-/

namespace Voce.Engine

open List Option Function

variable {Key Observer : Type}

/-! ## Calls as processes -/

inductive Remover where
  | removeSession
  | cleanup
  | stop
  deriving DecidableEq

inductive RemovalPhase (Key Observer : Type) where
  /-- The session is stamped before the lock is taken. -/
  | creating (key : Key) (stamp : Int) (built : Except String Workflow)
  | inserted
  | removing (key : Key)
  | cleaning
  /-- The sessions are out of the map, and the counter has yet to follow. -/
  | uncounted (remover : Remover) (refs : List SessionRef) (observers : List (Nat × Observer))
  /-- The first session has some observers left to call, the others all of them. -/
  | notifying (remover : Remover) (observers pending : List (Nat × Observer))
      (refs : List SessionRef)
  | stopping
  | cleared (count : Nat)
  | returned

/-- What the calls share, and the history of the removals and of the calls of observers. -/
structure RemovalServer (Key Observer : Type) where
  manager : SessionManager Key
  onDeleted : ObserverTable Observer
  active : Int
  keys : List Key
  removals : List (Remover × SessionRef)
  /-- The slots of the observers with the sessions for which they were called. -/
  calls : List (Nat × SessionRef)

namespace RemovalServer

variable [DecidableEq Key]

/-- `RemoveSession` looks at the state before it stops a workflow, `Cleanup` does not. -/
def stopRemoved (m : SessionManager Key) (r : SessionRef) : Remover → SessionManager Key
  | .removeSession =>
    if (m.session r).workflow.state ≠ .stopped then m.stopWorkflow r else m
  | .cleanup | .stop => m.stopWorkflow r

/-- Some sessions are out of the map. -/
def taken (s : RemovalServer Key Observer) (manager : SessionManager Key) (remover : Remover)
    (refs : List SessionRef) : RemovalServer Key Observer :=
  { s with manager := manager, removals := s.removals ++ refs.map fun r => (remover, r) }

/-- The next step of a call. `Cleanup` reads the time under the lock. -/
def next (s : RemovalServer Key Observer) (now : Int) : RemovalPhase Key Observer →
    Option (RemovalPhase Key Observer × RemovalServer Key Observer)
  | .creating key stamp built =>
    match s.manager.createSession key stamp built with
    | (manager, .error _) => some (.returned, { s with manager := manager })
    | (manager, .ok _) => some (.inserted, { s with manager := manager })
  | .inserted => some (.returned, { s with active := s.active + 1 })
  | .removing key =>
    match s.manager.sessions.lookup key with
    | none => some (.returned, s)
    | some r => some (.uncounted .removeSession [r] s.onDeleted.collect,
        s.taken { s.manager with sessions := s.manager.sessions.erase key } .removeSession [r])
  | .cleaning =>
    let swept := s.manager.sweep now s.manager.sessions.keys
    some (.uncounted .cleanup swept.2 s.onDeleted.collect, s.taken swept.1 .cleanup swept.2)
  | .uncounted remover refs observers =>
    some (.notifying remover observers observers refs,
      { s with active := s.active - refs.length })
  | .notifying _ _ _ [] => some (.returned, s)
  | .notifying remover observers (entry :: pending) (r :: rest) =>
    some (.notifying remover observers pending (r :: rest),
      { s with calls := s.calls ++ [(entry.1, r)] })
  | .notifying remover observers [] (r :: rest) =>
    some (.notifying remover observers observers rest,
      { s with manager := stopRemoved s.manager r remover })
  | .stopping =>
    let refs := s.manager.sessions.entries.map Sigma.snd
    some (.cleared refs.length,
      s.taken { s.manager.stopAll refs with sessions := ∅ } .stop refs)
  | .cleared count => some (.returned, { s with active := s.active - count })
  | .returned => none

end RemovalServer

inductive RemovalLabel (Key Observer : Type) where
  | create (key : Key) (stamp : Int) (built : Except String Workflow)
  | remove (key : Key)
  | cleanup
  | stop
  | advance (call : Nat) (now : Int)
  | updateActivity (r : SessionRef) (now : Int)
  | addObserver (fn : Option Observer)
  | removeObserver (index : Int)

abbrev Removals (Key Observer : Type) :=
  Interleaving.Config (RemovalServer Key Observer) (RemovalPhase Key Observer)

namespace Removals

variable [DecidableEq Key]

def step (c : Removals Key Observer) : RemovalLabel Key Observer → Option (Removals Key Observer)
  | .create key stamp built => some
      { c.spawn (.creating key stamp built) with
        shared := { c.shared with keys := c.shared.keys ++ [key] } }
  | .remove key => some (c.spawn (.removing key))
  | .cleanup => some (c.spawn .cleaning)
  | .stop => some (c.spawn .stopping)
  | .advance call now => c.advance (c.shared.next now) call
  | .updateActivity r now => some
      { c with shared := { c.shared with manager := c.shared.manager.updateActivity r now } }
  | .addObserver fn => some
      { c with shared := { c.shared with onDeleted := (c.shared.onDeleted.add fn).2 } }
  | .removeObserver index => some
      { c with shared := { c.shared with onDeleted := c.shared.onDeleted.remove index } }

def initial (timeout : Int) (blank : Session Key) (onDeleted : ObserverTable Observer) :
    Removals Key Observer :=
  ⟨⟨⟨timeout, ∅, fun _ => blank, 0⟩, onDeleted, 0, [], [], []⟩, []⟩

def isReturned : RemovalPhase Key Observer → Bool
  | .returned => true
  | _ => false

abbrev Quiescent (c : Removals Key Observer) : Prop := Interleaving.Config.Quiescent c isReturned

def createdKeys (labels : List (RemovalLabel Key Observer)) : List Key :=
  labels.filterMap fun
    | .create key _ _ => some key
    | _ => none

end Removals

end Voce.Engine
