import Voce.Gateway.RegistryKeys

/-! # Calls that hold a key

A creation holds its key until it has registered it three times, a deletion from
the removal of the session until it has unregistered it; a cleanup has the
sessions of the machine that it terminated before it. Every step of a call keeps
the other keys where they are.
-/

namespace Voce.Gateway.Registries

open Interleaving List Config Phase ConnectionPool FiniteMap Bool AList

variable {Id Key : Type}

namespace Phase

/-- The machine on which a session is being created. -/
def creates : Phase Id Key → Option MachineRef
  | .tryBind m _ | .store m _ | .addSession m _ => some m
  | _ => none

/-- The key that is stored and not yet added to the session set. -/
def adds : Phase Id Key → Option Key
  | .addSession _ key => some key
  | _ => none

/-- The terminated machine whose sessions are to be collected. -/
def ranges : Phase Id Key → Option MachineRef
  | .range m _ _ => some m
  | _ => none

/-- The machine whose sessions are being deleted, with those to come. -/
def sweeping : Phase Id Key → Option (MachineRef × List Key)
  | .delete key (some s) => some (s.machine, key :: s.keys)
  | .unbind _ _ (some s) | .removeSession _ _ (some s) => some (s.machine, s.keys)
  | .shutdown m _ _ => some (m, [])
  | _ => none

variable (Key) in
theorem nextMachine_plain (ids : List Id) : (nextMachine ids : Phase Id Key).role = none ∧
      (nextMachine ids : Phase Id Key).creates = none ∧
      (nextMachine ids : Phase Id Key).ranges = none ∧
      (nextMachine ids : Phase Id Key).sweeping = none := by
  cases ids with
  | nil | cons => exact ⟨rfl, rfl, rfl, rfl⟩

theorem nextKey_sweeps (s : Sweep Id Key) :
    (nextKey s).role = none ∧ (nextKey s).creates = none ∧ (nextKey s).ranges = none ∧
      (nextKey s).sweeping = some (s.machine, s.keys) := by
  obtain ⟨keys, machine, id, ids⟩ := s
  cases keys with
  | nil | cons => exact ⟨rfl, rfl, rfl, rfl⟩

theorem afterDelete_sweeps (sweep : Option (Sweep Id Key)) :
    (afterDelete sweep).role = none ∧ (afterDelete sweep).creates = none ∧
      (afterDelete sweep).ranges = none ∧
      (afterDelete sweep).sweeping = sweep.map fun s => (s.machine, s.keys) := by
  cases sweep with
  | none => exact ⟨rfl, rfl, rfl, rfl⟩
  | some s => exact nextKey_sweeps s

end Phase

/-! ## The invariant -/

variable [DecidableEq Key]

/-- A key is where the steps of its call have put it, and a sweep has the stored
sessions of its terminated machine before it. -/
structure Asserts (_i : Nat) (phase : Phase Id Key) (s : Shared Id Key) : Prop where
  placed : Placed phase s
  ranged : ∀ m, phase.ranges = some m → (s.machine m).terminated = true
  swept : ∀ m keys, phase.sweeping = some (m, keys) → (s.machine m).terminated = true ∧
    ∀ key, s.stored.lookup key = some m → key ∈ keys

/-- No stored session refers to the machine, or a call is about to delete those that do. -/
def Clearing (phases : List (Phase Id Key)) (s : Shared Id Key) (m : MachineRef) : Prop :=
  (∃ phase ∈ phases, phase.ranges = some m) ∨
    (∀ phase ∈ phases, phase.creates ≠ some m) ∧
      ((∀ key, s.stored.lookup key ≠ some m) ∨
        ∃ phase ∈ phases, ∃ keys, phase.sweeping = some (m, keys))

structure Tracked (c : System Id Key) : Prop extends Cast Asserts Phase.role c where
  settled : ∀ key, (∀ phase ∈ c.phases, phase.role ≠ some key) → Settled c.shared key
  fresh : ∀ key, key ∉ c.shared.used →
    At c.shared key none none none ∧ ∀ phase ∈ c.phases, phase.role ≠ some key
  pools : ∀ m, (c.shared.machine m).pool.Invariant
  apart : ∀ phase ∈ c.phases, ∀ m keys, phase.sweeping = some (m, keys) →
    ∀ other ∈ c.phases, other.creates ≠ some m
  ending : ∀ m, (c.shared.machine m).terminated = true → Clearing c.phases c.shared m

variable {c : System Id Key} {i : Nat} {phase next : Phase Id Key} {t : Shared Id Key}
  {m : MachineRef} {key : Key}

/-- What a step of a call leaves of the machines that are being cleaned up. -/
structure Passes (c : System Id Key) (phase next : Phase Id Key) (t : Shared Id Key) : Prop where
  stored : ∀ key m, t.stored.lookup key = some m →
    c.shared.stored.lookup key = some m ∨ phase.creates = some m
  terminated : ∀ m, (c.shared.machine m).terminated = true → (t.machine m).terminated = true
  terminates : ∀ m, (t.machine m).terminated = true →
    (c.shared.machine m).terminated = true ∨ next.ranges = some m
  creates : ∀ m, next.creates = some m → phase.creates = some m
  ranges : ∀ m, phase.ranges = some m →
    next.ranges = some m ∨ ∃ keys, next.sweeping = some (m, keys)
  sweeps : ∀ m keys, next.sweeping = some (m, keys) →
    (∃ before, phase.sweeping = some (m, before)) ∨
      ∀ other ∈ c.phases, other.creates ≠ some m
  sweeping : ∀ m keys, phase.sweeping = some (m, keys) →
    (∃ after, next.sweeping = some (m, after)) ∨ ∀ key, t.stored.lookup key ≠ some m

/-- A step that changes neither the stored sessions nor the machines' ends. -/
theorem Passes.plain (hstored : t.stored = c.shared.stored)
    (hterminated : ∀ m, (t.machine m).terminated = (c.shared.machine m).terminated)
    (hcreates : next.creates = none ∨ next.creates = phase.creates)
    (hranges : phase.ranges = none) (hsweeping : next.sweeping = phase.sweeping) :
    Passes c phase next t where
  stored key m hkey := .inl (hstored ▸ hkey)
  terminated m hm := (hterminated m).trans hm
  terminates m hm := .inl ((hterminated m).symm.trans hm)
  creates m hm := by
    rcases hcreates with h | h
    · cases h.symm.trans hm
    · exact h.symm.trans hm
  ranges m hm := by cases hranges.symm.trans hm
  sweeps m keys hkeys := .inl ⟨keys, hsweeping.symm.trans hkeys⟩
  sweeping m keys hkeys := .inl ⟨keys, hsweeping.trans hkeys⟩

/-- A step of `Delete`, which leaves the rest of a sweep to do. -/
theorem Passes.delete {sweep : Option (Sweep Id Key)} (hmachine : t.machine = c.shared.machine)
    (hstored : ∀ other m, t.stored.lookup other = some m → c.shared.stored.lookup other = some m)
    (hcreates : next.creates = none)
    (hsweeping : next.sweeping = sweep.map fun s => (s.machine, s.keys)) :
    Passes c (.delete key sweep) next t where
  stored other m hother := .inl (hstored other m hother)
  terminated m hm := by rwa [hmachine]
  terminates m hm := .inl (by rwa [hmachine] at hm)
  creates m hm := by cases hcreates.symm.trans hm
  ranges := nofun
  sweeps m keys hkeys := by
    cases sweep with
    | none => cases hsweeping.symm.trans hkeys
    | some s =>
      cases hsweeping.symm.trans hkeys
      exact .inl ⟨key :: s.keys, rfl⟩
  sweeping m keys hkeys := by
    cases sweep with
    | none => cases hkeys
    | some s =>
      cases hkeys
      exact .inl ⟨s.keys, hsweeping⟩

/-- A step of a call leaves a machine cleared or about to be. -/
theorem Clearing.update (hclearing : Clearing c.phases c.shared m) (hi : c.phases[i]? = some phase)
    (hpasses : Passes c phase next t) (hapart : ∀ m keys, phase.sweeping = some (m, keys) →
      ∀ other ∈ c.phases, other.creates ≠ some m) :
    Clearing (c.update i next t).phases t m := by
  have hphase : phase ∈ c.phases := mem_of_getElem? hi
  have hnext : next ∈ (c.update i next t).phases := mem_update_self hi next t
  have hcreates : (∀ other ∈ c.phases, other.creates ≠ some m) →
      ∀ other ∈ (c.update i next t).phases, other.creates ≠ some m := by
    intro hnone other hother
    rcases eq_or_mem_of_mem_update hother with rfl | hold
    · exact fun h => hnone phase hphase (hpasses.creates m h)
    · exact hnone other hold
  rcases hclearing with ⟨other, hother, hranges⟩ | ⟨hnone, hstored | ⟨other, hother, keys, hsweeps⟩⟩
  · rcases eq_or_mem_update hi hother next t with rfl | hkept
    · rcases hpasses.ranges m hranges with h | ⟨keys, h⟩
      · exact .inl ⟨next, hnext, h⟩
      · refine .inr ⟨?_, .inr ⟨next, hnext, keys, h⟩⟩
        apply hcreates
        rcases hpasses.sweeps m keys h with ⟨before, hbefore⟩ | hnone
        · exact hapart m before hbefore
        · exact hnone
    · exact .inl ⟨other, hkept, hranges⟩
  · refine .inr ⟨hcreates hnone, .inl fun key hkey => ?_⟩
    rcases hpasses.stored key m hkey with hbefore | hcreating
    · exact hstored key hbefore
    · exact hnone phase hphase hcreating
  · refine .inr ⟨hcreates hnone, ?_⟩
    rcases eq_or_mem_update hi hother next t with rfl | hkept
    · rcases hpasses.sweeping m keys hsweeps with ⟨after, h⟩ | hcleared
      · exact .inr ⟨next, hnext, after, h⟩
      · exact .inl hcleared
    · exact .inr ⟨other, hkept, keys, hsweeps⟩

namespace Tracked

variable (hc : Tracked c)
include hc

/-- A call steps; what it does to the keys that others hold is left to be shown. -/
theorem update (hi : c.phases[i]? = some phase)
    (hpasses : Passes c phase next t) (hused : t.used = c.shared.used)
    (hpools : ∀ m, (t.machine m).pool.Invariant) (hown : Asserts i next t)
    (hrole : next.role ≠ none → ∀ j other, j ≠ i → c.phases[j]? = some other →
      other.role ≠ next.role)
    (hplaced : ∀ j other, j ≠ i → c.phases[j]? = some other → Placed other c.shared →
      Placed other t)
    (hsettled : ∀ key, next.role ≠ some key →
      (∀ j other, j ≠ i → c.phases[j]? = some other → other.role ≠ some key) → Settled t key)
    (hfresh : ∀ key, key ∉ c.shared.used → At c.shared key none none none →
      At t key none none none ∧ next.role ≠ some key) :
    Tracked (c.update i next t) := by
  have hphase : phase ∈ c.phases := mem_of_getElem? hi
  have hnext : next ∈ (c.update i next t).phases := mem_update_self hi next t
  have hapart := hc.apart phase hphase
  refine ⟨hc.toCast.update hi hown ?_ hrole, ?_, ?_, hpools, ?_, ?_⟩
  · intro j other hj hother hassert
    refine ⟨hplaced j other hj hother hassert.placed,
      fun m hm => hpasses.terminated m (hassert.ranged m hm), fun m keys hsweeps => ?_⟩
    obtain ⟨hterminated, hkeys⟩ := hassert.swept m keys hsweeps
    refine ⟨hpasses.terminated m hterminated, fun key hkey => ?_⟩
    rcases hpasses.stored key m hkey with hbefore | hcreating
    · exact hkeys key hbefore
    · have hother := mem_of_getElem? hother
      exact absurd hcreating (hc.apart other hother m keys hsweeps phase hphase)
  · intro key hnone
    refine hsettled key (hnone next hnext) fun j other hj hother => hnone other ?_
    apply mem_of_getElem? (i := j)
    rw [update_phases hi, if_neg hj, hother]
  · intro key hkey
    change key ∉ t.used at hkey
    rw [hused] at hkey
    obtain ⟨hat, hnone⟩ := hc.fresh key hkey
    obtain ⟨hatAfter, hnextRole⟩ := hfresh key hkey hat
    refine ⟨hatAfter, fun other hother => ?_⟩
    rcases eq_or_mem_of_mem_update hother with rfl | hold
    · exact hnextRole
    · exact hnone other hold
  · intro first hfirst m keys hsweeps second hsecond hcreates
    have hnone : ∀ other ∈ c.phases, other.creates ≠ some m := by
      rcases eq_or_mem_of_mem_update hfirst with rfl | hold
      · rcases hpasses.sweeps m keys hsweeps with ⟨before, hbefore⟩ | hnone
        · exact hapart m before hbefore
        · exact hnone
      · exact hc.apart first hold m keys hsweeps
    rcases eq_or_mem_of_mem_update hsecond with rfl | hold
    · exact hnone phase hphase (hpasses.creates m hcreates)
    · exact hnone second hold hcreates
  · intro m hterminated
    rcases hpasses.terminates m hterminated with hbefore | hranges
    · exact (hc.ending m hbefore).update hi hpasses hapart
    · exact .inl ⟨next, hnext, hranges⟩

/-- A call steps and touches no key but its own. -/
theorem move (hi : c.phases[i]? = some phase) (hpasses : Passes c phase next t)
    (hused : t.used = c.shared.used) (hpools : ∀ m, (t.machine m).pool.Invariant)
    (hown : Asserts i next t)
    (hrole : next.role = none ∨ next.role = phase.role ∨ ∀ other ∈ c.phases, other.role ≠ next.role)
    (hsame : ∀ key, phase.role ≠ some key → next.role ≠ some key → Same c.shared t key)
    (hleaves : ∀ key, phase.role = some key → next.role ≠ some key → Settled t key)
    (hnew : ∀ key, next.role = some key → key ∈ c.shared.used) : Tracked (c.update i next t) := by
  have hothers : next.role ≠ none → ∀ j other, j ≠ i → c.phases[j]? = some other →
      other.role ≠ next.role := by
    intro hsome j other hj hother
    rcases hrole with hnone | heq | hall
    · exact absurd hnone hsome
    · rw [heq] at hsome ⊢
      exact hc.other_role_ne hi hsome hj hother
    · exact hall other (mem_of_getElem? hother)
  refine hc.update hi hpasses hused hpools hown hothers ?_ ?_ ?_
  · intro j other hj hother hplaced
    refine hplaced.same fun key hkey => hsame key ?_ ?_
    · intro hphase
      have hne := hc.other_role_ne hi (by rw [hphase]; exact nofun) hj hother
      exact hne (hkey.trans hphase.symm)
    · intro hnext
      exact hothers (by rw [hnext]; exact nofun) j other hj hother (hkey.trans hnext.symm)
  · intro key hnext hnone
    by_cases hphase : phase.role = some key
    · exact hleaves key hphase hnext
    · have hfree : ∀ other ∈ c.phases, other.role ≠ some key :=
        forall_mem_of_others hi hphase hnone
      exact (hc.settled key hfree).same (hsame key hphase hnext)
  · intro key hkey hat
    have hnext : next.role ≠ some key := fun h => hkey (hnew key h)
    have hphase := (hc.fresh key hkey).2 phase (mem_of_getElem? hi)
    exact ⟨hat.same (hsame key hphase hnext), hnext⟩

omit hc in
/-- A phase that neither collects nor deletes sessions of a terminated machine. -/
theorem asserts_of_placed {phase : Phase Id Key} {s} (hplaced : Placed phase s)
    (hranges : phase.ranges = none) (hsweeping : phase.sweeping = none) :
    Asserts i phase s where
  placed := hplaced
  ranged m hm := by cases hranges.symm.trans hm
  swept m keys hkeys := by cases hsweeping.symm.trans hkeys

omit hc in
/-- A phase that holds no key and goes on with a sweep. -/
theorem asserts_of_swept {before after : Phase Id Key} {s t : Shared Id Key}
    (hassert : Asserts i before s) (hplaced : Placed after t) (hranges : after.ranges = none)
    (hsweeping : after.sweeping = before.sweeping) (hstored : t.stored = s.stored)
    (hterminated : ∀ m, (t.machine m).terminated = (s.machine m).terminated) :
    Asserts i after t where
  placed := hplaced
  ranged m hm := by cases hranges.symm.trans hm
  swept m keys hkeys := by
    rw [hterminated, hstored]
    exact hassert.swept m keys (hsweeping.symm.trans hkeys)

theorem used_of_role (hi : c.phases[i]? = some phase) (hrole : phase.role = some key) :
    key ∈ c.shared.used := by
  by_contra hfresh
  exact (hc.fresh key hfresh).2 phase (mem_of_getElem? hi) hrole

theorem tryBind (hi : c.phases[i]? = some (.tryBind m key)) : Tracked (c.update i
      (if ((c.shared.machine m).pool.tryBind key).2.bound then .store m key else .done)
      (c.shared.setPool m ((c.shared.machine m).pool.tryBind key).1)) := by
  have hat : At c.shared key none none none := (hc.asserted i _ hi).placed
  have hunbound : key ∉ (c.shared.machine m).pool.bindings :=
    fun h => nomatch (hat.bound m).mp h
  have hmem := tryBind_mem_bindings hunbound
  have hpools := setPool_invariant (m := m) hc.pools
    (tryBind_invariant (hc.pools m) key)
  have hsame : ∀ other, other ≠ key → Same c.shared
      (c.shared.setPool m ((c.shared.machine m).pool.tryBind key).1) other := by
    intro other hne
    apply Same.setPool
    rw [hmem]
    simp [hne]
  split
  next hbound =>
    have hbind := hat.bind (m := m) ((hmem key).mpr (.inr ⟨rfl, hbound⟩))
    refine hc.move hi (.plain rfl (setPool_terminated _ _ _) (.inr rfl) rfl rfl) rfl hpools
      ?_ (.inr (.inl rfl)) ?_ ?_ ?_
    · exact asserts_of_placed hbind rfl rfl
    · exact fun other h _ => hsame other fun heq => h (congrArg some heq.symm)
    · exact fun other => absurd
    · rintro other ⟨⟩
      exact hc.used_of_role hi rfl
  next hfailed =>
    refine hc.move hi (.plain rfl (setPool_terminated _ _ _) (.inl rfl) rfl rfl) rfl hpools
      ?_ (.inl rfl) ?_ ?_ nofun
    · exact asserts_of_placed trivial rfl rfl
    · exact fun other h _ => hsame other fun heq => h (congrArg some heq.symm)
    · rintro other ⟨⟩ _
      refine .inl (hat.same (Same.setPool ?_))
      rw [hmem]
      simp [hfailed]

theorem store (hi : c.phases[i]? = some (.store m key)) : Tracked (c.update i (.addSession m key)
      { c.shared with stored := c.shared.stored.insert key m }) := by
  have hat : At c.shared key none none (some m) := (hc.asserted i _ hi).placed
  have hpasses : Passes c (.store m key) (.addSession m key)
      { c.shared with stored := c.shared.stored.insert key m } :=
    ⟨forall_insert (fun _ _ => .inl) (.inr rfl), fun _ => id, fun _ => .inl,
      fun _ => id, nofun, nofun, nofun⟩
  refine hc.move hi hpasses rfl hc.pools ?_ (.inr (.inl rfl)) ?_ ?_ ?_
  · exact asserts_of_placed ⟨lookup_insert _, hat.member, hat.bound⟩ rfl rfl
  · refine fun other h _ => ⟨lookup_insert_ne ?_, fun _ => .rfl, fun _ => .rfl⟩
    exact fun heq => h (congrArg some heq.symm)
  · exact fun other => absurd
  · rintro other ⟨⟩
    exact hc.used_of_role hi rfl

theorem addSession (hi : c.phases[i]? = some (.addSession m key)) :
    Tracked (c.update i .done (c.shared.addSession m key)) := by
  have hat : At c.shared key (some m) none (some m) := (hc.asserted i _ hi).placed
  refine hc.move hi (.plain rfl (fun m' => (setSessions_member _ _ _ m').2.2) (.inl rfl) rfl rfl)
    rfl (fun m' => ?_) ?_ (.inl rfl) ?_ ?_ nofun
  · rw [Shared.addSession, (setSessions_member _ _ _ m').2.1]
    exact hc.pools m'
  · exact asserts_of_placed trivial rfl rfl
  · intro other h _
    refine Same.setSessions ?_
    rw [mem_insert_iff]
    exact or_iff_right fun heq => h (congrArg some heq.symm)
  · rintro other ⟨⟩ _
    exact .inr ⟨m, hat.addSession⟩

/-- No call holds a stored key whose creation is over. -/
theorem free_of_stored (hstored : c.shared.stored.lookup key = some m)
    (hadds : Phase.addSession m key ∉ c.phases) : ∀ phase ∈ c.phases, phase.role ≠ some key := by
  intro phase hmem hrole
  obtain ⟨j, hj⟩ := mem_iff_getElem?.mp hmem
  have hplaced := (hc.asserted j phase hj).placed
  have hnone : ∀ {member bound}, At c.shared key none member bound → False :=
    fun hat => nomatch hat.stored.symm.trans hstored
  cases phase with
  | tryBind | store | removeSession =>
    cases hrole
    exact hnone hplaced
  | unbind =>
    cases hrole
    exact hplaced.elim hnone hnone
  | addSession m' added =>
    cases hrole
    cases hplaced.stored.symm.trans hstored
    exact hadds hmem
  | _ => cases hrole

/-- A stored session whose creation is over is registered on its machine. -/
theorem registered_of_stored (hstored : c.shared.stored.lookup key = some m)
    (hadds : Phase.addSession m key ∉ c.phases) : At c.shared key (some m) (some m) (some m) := by
  rcases hc.settled key (hc.free_of_stored hstored hadds) with hat | ⟨m', hat⟩
  · cases hat.stored.symm.trans hstored
  · cases hat.stored.symm.trans hstored
    exact hat

variable {sweep : Option (Sweep Id Key)}

/-- `Delete` finds no session. -/
theorem deleteMissing (hi : c.phases[i]? = some (.delete key sweep))
    (hnone : c.shared.stored.lookup key = none) :
    Tracked (c.update i (.afterDelete sweep) c.shared) := by
  obtain ⟨hrole, hcreates, hranges, hsweeping⟩ := afterDelete_sweeps sweep
  refine hc.move hi (.delete rfl (fun _ _ => id) hcreates hsweeping) rfl hc.pools ?_ (.inl hrole)
    (fun other _ _ => .refl _ other) nofun ?_
  · refine ⟨.of_role_none hrole _, fun m hm => ?_, fun m keys hkeys => ?_⟩
    · cases hranges.symm.trans hm
    · cases sweep with
      | none => cases hsweeping.symm.trans hkeys
      | some s =>
        cases hsweeping.symm.trans hkeys
        obtain ⟨hterminated, hstored⟩ := (hc.asserted i _ hi).swept s.machine (key :: s.keys) rfl
        refine ⟨hterminated, fun other hother => ?_⟩
        rcases mem_cons.mp (hstored other hother) with rfl | hmem
        · cases hnone.symm.trans hother
        · exact hmem
  · intro other h
    cases hrole.symm.trans h

/-- `Delete` removes a session whose creation is over. -/
theorem deleteStored (hi : c.phases[i]? = some (.delete key sweep))
    (hstored : c.shared.stored.lookup key = some m) (hadds : Phase.addSession m key ∉ c.phases) :
    Tracked (c.update i (.unbind m key sweep)
      { c.shared with stored := c.shared.stored.erase key }) := by
  have hat := hc.registered_of_stored hstored hadds
  have herased : ∀ other m', (c.shared.stored.erase key).lookup other = some m' →
      other ≠ key ∧ c.shared.stored.lookup other = some m' := by
    intro other m' hother
    exact lookup_erase_eq_some.mp hother
  have hsweeping : (unbind m key sweep).sweeping =
      sweep.map fun s => (s.machine, s.keys) := by
    cases sweep with
    | none | some => rfl
  refine hc.move hi (.delete rfl (fun other m' h => (herased other m' h).2) rfl hsweeping) rfl
    hc.pools ⟨.inl ⟨lookup_erase _ _, hat.member, hat.bound⟩, nofun, fun m' keys hkeys => ?_⟩
    (.inr (.inr ?_)) ?_ nofun ?_
  · cases sweep with
    | none => cases hkeys
    | some s =>
      cases hkeys
      obtain ⟨hterminated, hkept⟩ := (hc.asserted i _ hi).swept s.machine (key :: s.keys) rfl
      refine ⟨hterminated, fun other hother => ?_⟩
      obtain ⟨hne, hbefore⟩ := herased other s.machine hother
      exact (mem_cons.mp (hkept other hbefore)).resolve_left hne
  · exact hc.free_of_stored hstored hadds
  · refine fun other _ h => ⟨lookup_erase_ne ?_, fun _ => .rfl, fun _ => .rfl⟩
    exact fun heq => h (congrArg some heq.symm)
  · rintro other ⟨⟩
    by_contra hfresh
    cases (hc.fresh key hfresh).1.stored.symm.trans hstored

theorem unbind (hi : c.phases[i]? = some (.unbind m key sweep)) (now : Int) {order : List Key}
    (horder : order.Perm ((c.shared.machine m).pool.bindings.erase key).keys) :
    Tracked (c.update i (.removeSession m key sweep)
      (c.shared.setPool m ((c.shared.machine m).pool.unbind key now order))) := by
  have hmem := unbind_mem_bindings (hc.pools m) key now horder
  have hunbound : key ∉ ((c.shared.machine m).pool.unbind key now order).bindings :=
    fun h => ((hmem key).mp h).1 rfl
  have hsweeping : (removeSession m key sweep).sweeping =
      (Phase.unbind m key sweep).sweeping := by
    cases sweep with
    | none | some => rfl
  have hassert := hc.asserted i _ hi
  refine hc.move hi (.plain rfl (setPool_terminated _ _ _) (.inl rfl) rfl hsweeping) rfl
    (setPool_invariant hc.pools (unbind_invariant (hc.pools m) key now order))
    ?_ (.inr (.inl rfl)) ?_ ?_ ?_
  · refine asserts_of_swept hassert ?_ rfl hsweeping rfl (setPool_terminated _ _ _)
    rcases hassert.placed with hat | hat
    · exact hat.unbind hunbound
    · refine hat.same (Same.setPool (iff_of_false hunbound fun h => ?_))
      cases (hat.bound m).mp h
  · intro other h _
    apply Same.setPool
    rw [hmem]
    exact and_iff_right fun heq => h (congrArg some heq.symm)
  · exact fun other => absurd
  · rintro other ⟨⟩
    exact hc.used_of_role hi rfl

theorem removeSession (hi : c.phases[i]? = some (.removeSession m key sweep)) :
    Tracked (c.update i (.afterDelete sweep) (c.shared.removeSession m key)) := by
  obtain ⟨hrole, hcreates, hranges, hafter⟩ := afterDelete_sweeps sweep
  have hsweeping : (afterDelete sweep).sweeping =
      (Phase.removeSession m key sweep).sweeping := by
    rw [hafter]
    cases sweep with
    | none | some => rfl
  have hassert := hc.asserted i _ hi
  have hat : At c.shared key none (some m) none := hassert.placed
  refine hc.move hi
    (.plain rfl (fun m' => (setSessions_member _ _ _ m').2.2) (.inl hcreates) rfl hsweeping) rfl
    (fun m' => ?_) ?_ (.inl hrole) ?_ ?_ ?_
  · rw [Shared.removeSession, (setSessions_member _ _ _ m').2.1]
    exact hc.pools m'
  · exact asserts_of_swept hassert (.of_role_none hrole _) hranges hsweeping rfl
      fun m' => (setSessions_member _ _ _ m').2.2
  · intro other h _
    refine Same.setSessions ?_
    rw [mem_filter]
    exact and_iff_left (by simpa using fun heq => h (congrArg some (Eq.symm heq)))
  · rintro other ⟨⟩ _
    exact .inl hat.removeSession
  · intro other h
    cases hrole.symm.trans h

/-- A call that holds no key goes on without touching a registry. -/
theorem pass (hi : c.phases[i]? = some phase) (hphase : phase.role = none)
    (hranges : phase.ranges = none) (hsweeping : phase.sweeping = none) (hnext : next.role = none)
    (hcreates : next.creates = none) (hnextRanges : next.ranges = none)
    (hnextSweeping : next.sweeping = none) (hmachine : t.machine = c.shared.machine)
    (hstored : t.stored = c.shared.stored) (hused : t.used = c.shared.used) :
    Tracked (c.update i next t) := by
  refine hc.move hi (.plain hstored (fun m => by rw [hmachine]) (.inl hcreates) hranges
    (hnextSweeping.trans hsweeping.symm)) hused (fun m => by rw [hmachine]; exact hc.pools m)
    (asserts_of_placed (.of_role_none hnext t) hnextRanges hnextSweeping) (.inl hnext) ?_ ?_ ?_
  · intro key _ _
    exact ⟨by rw [hstored], fun m => by rw [hmachine], fun m => by rw [hmachine]⟩
  · intro key h
    cases hphase.symm.trans h
  · intro key h
    cases hnext.symm.trans h

variable {ids : List Id} {id : Id}

theorem terminate (hi : c.phases[i]? = some (.terminate m id ids)) :
    Tracked (c.update i (.range m id ids) (c.shared.terminate m)) := by
  have hmachine : ∀ m', ((c.shared.terminate m).machine m').sessions =
        (c.shared.machine m').sessions ∧
      ((c.shared.terminate m).machine m').pool = (c.shared.machine m').pool ∧
      ((c.shared.terminate m).machine m').terminated =
        ((c.shared.machine m').terminated || decide (m' = m)) := by
    intro m'
    rw [Shared.terminate, setMachine_machine]
    split
    next h => simp [h]
    next h => simp [h]
  have hpasses : Passes c (.terminate m id ids) (.range m id ids) (c.shared.terminate m) := by
    refine ⟨fun _ _ => .inl, fun m' hm => ?_, fun m' hm => ?_, nofun, nofun, nofun, nofun⟩
    · rw [(hmachine m').2.2, hm, Bool.true_or]
    · rw [(hmachine m').2.2, or_eq_true, decide_eq_true_eq] at hm
      exact hm.imp_right fun heq => congrArg some heq.symm
  refine hc.move hi hpasses rfl (fun m' => ?_) ⟨trivial, ?_, nofun⟩ (.inl rfl) ?_ nofun nofun
  · rw [(hmachine m').2.1]
    exact hc.pools m'
  · rintro m' ⟨⟩
    rw [(hmachine m).2.2]
    simp
  · intro key _ _
    exact ⟨rfl, fun m' => by rw [(hmachine m').1], fun m' => by rw [(hmachine m').2.1]⟩

/-- `cleanupMachines` collects the sessions of a machine on which none is being created. -/
theorem range {order} (hi : c.phases[i]? = some (.range m id ids))
    (horder : order.Perm (c.shared.machine m).sessions)
    (hnone : ∀ phase ∈ c.phases, phase.creates ≠ some m) :
    Tracked (c.update i (.nextKey ⟨order, m, id, ids⟩) c.shared) := by
  obtain ⟨hrole, hcreates, hranges, hsweeping⟩ :=
    nextKey_sweeps (⟨order, m, id, ids⟩ : Sweep Id Key)
  have hpasses : Passes c (.range m id ids) (.nextKey ⟨order, m, id, ids⟩) c.shared := by
    refine ⟨fun _ _ => .inl, fun _ h => h, fun _ => .inl, fun m' hm => ?_, ?_, ?_, nofun⟩
    · cases hcreates.symm.trans hm
    · rintro m' ⟨⟩
      exact .inr ⟨order, hsweeping⟩
    · intro m' keys hkeys
      cases hsweeping.symm.trans hkeys
      exact .inr hnone
  refine hc.move hi hpasses rfl hc.pools ⟨.of_role_none hrole _, ?_, ?_⟩ (.inl hrole)
    (fun key _ _ => .refl _ key) nofun ?_
  · intro m' hm
    cases hranges.symm.trans hm
  · intro m' keys hkeys
    cases hsweeping.symm.trans hkeys
    refine ⟨(hc.asserted i _ hi).ranged m rfl, fun key hkey => ?_⟩
    have hat := hc.registered_of_stored hkey fun hmem => hnone _ hmem rfl
    exact horder.mem_iff.mpr ((hat.member m).mpr rfl)
  · intro key h
    cases hrole.symm.trans h

/-- The pool of a machine without stored sessions is shut down. -/
theorem shutdown (hi : c.phases[i]? = some (.shutdown m id ids)) :
    Tracked (c.update i (.deleteMachine id ids)
      (c.shared.setPool m (c.shared.machine m).pool.shutdown.1)) := by
  obtain ⟨-, hstored⟩ := (hc.asserted i _ hi).swept m [] rfl
  have hcreates := hc.apart _ (mem_of_getElem? hi) m [] rfl
  -- a key that is not bound there is where it was
  have hsame : ∀ {key : Key}, key ∉ (c.shared.machine m).pool.bindings →
      Same c.shared (c.shared.setPool m (c.shared.machine m).pool.shutdown.1) key :=
    fun hunbound => .setPool
      (iff_of_false (fun h => hunbound (shutdown_mem_bindings h)) hunbound)
  have helsewhere : ∀ {key stored member bound}, At c.shared key stored member bound →
      bound ≠ some m → At (c.shared.setPool m (c.shared.machine m).pool.shutdown.1)
        key stored member bound :=
    fun hat hne => hat.same (hsame fun h => hne ((hat.bound m).mp h))
  have hpasses : Passes c (.shutdown m id ids) (.deleteMachine id ids)
      (c.shared.setPool m (c.shared.machine m).pool.shutdown.1) := by
    refine ⟨fun _ _ => .inl, fun m' hm => ?_, fun m' hm => ?_, nofun, nofun, nofun, ?_⟩
    · rw [setPool_terminated]
      exact hm
    · rw [setPool_terminated] at hm
      exact .inl hm
    · rintro m' keys ⟨⟩
      exact .inr fun key hkey => not_mem_nil (hstored key hkey)
  refine hc.update hi hpasses rfl
    (setPool_invariant hc.pools (shutdown_invariant (hc.pools m)))
    (asserts_of_placed trivial rfl rfl) (absurd rfl) ?_ ?_ ?_
  · intro j other hj hother hplaced
    have hcreating := hcreates other (mem_of_getElem? hother)
    cases other with
    | tryBind m' key | removeSession m' key => exact helsewhere hplaced nofun
    | store m' key | addSession m' key => exact helsewhere hplaced hcreating
    | unbind m' key sweep =>
      rcases hplaced with hat | hat
      · by_cases heq : m' = m
        · subst heq
          by_cases hbound : key ∈ (c.shared.machine m').pool.shutdown.1.bindings
          · refine .inl (hat.same (.setPool (iff_of_true hbound ?_)))
            exact shutdown_mem_bindings hbound
          · exact .inr (hat.unbind hbound)
        · exact .inl (helsewhere hat fun h => heq (Option.some.inj h))
      · exact .inr (helsewhere hat nofun)
    | _ => trivial
  · intro key _ hnone
    have hfree : ∀ phase ∈ c.phases, phase.role ≠ some key :=
      forall_mem_of_others hi nofun hnone
    rcases hc.settled key hfree with hat | ⟨m', hat⟩
    · exact .inl (helsewhere hat nofun)
    · refine .inr ⟨m', helsewhere hat fun h => ?_⟩
      exact not_mem_nil (hstored key (hat.stored.trans h))
  · intro key _ hat
    exact ⟨helsewhere hat nofun, nofun⟩

/-- A registry changes apart from the calls, with every key where it was. -/
theorem environment (hsame : ∀ key, Same c.shared t key)
    (hpools : ∀ m, (t.machine m).pool.Invariant)
    (hterminated : ∀ m, (t.machine m).terminated = (c.shared.machine m).terminated)
    (hstored : t.stored = c.shared.stored) (hused : ∀ key ∈ c.shared.used, key ∈ t.used) :
    Tracked { c with shared := t } := by
  refine ⟨hc.toCast.environment ?_, ?_, ?_, hpools, hc.apart, ?_⟩
  · intro j phase _ hassert
    refine ⟨hassert.placed.same fun key _ => hsame key, fun m hm => ?_, fun m keys hkeys => ?_⟩
    · rw [hterminated]
      exact hassert.ranged m hm
    · rw [hterminated, hstored]
      exact hassert.swept m keys hkeys
  · intro key hfree
    exact (hc.settled key hfree).same (hsame key)
  · intro key hkey
    exact (hc.fresh key fun h => hkey (hused key h)).imp_left fun hat => hat.same (hsame key)
  · intro m hm
    rw [hterminated] at hm
    exact (hc.ending m hm).imp_right fun h =>
      h.imp_right fun h => h.imp_left fun h key => by rw [hstored]; exact h key

/-- A call starts. -/
theorem spawn (hown : Asserts c.phases.length phase c.shared)
    (hrole : phase.role ≠ none → ∀ other ∈ c.phases, other.role ≠ phase.role)
    (hused : ∀ key, phase.role = some key → key ∈ c.shared.used) (hsweeping : phase.sweeping = none)
    (hcreates : ∀ m, phase.creates = some m → (c.shared.machine m).terminated = false) :
    Tracked (c.spawn phase) := by
  have hmem : ∀ {other}, other ∈ c.phases → other ∈ (c.spawn phase).phases :=
    mem_append_left [phase]
  have hcases : ∀ {other}, other ∈ (c.spawn phase).phases → other ∈ c.phases ∨ other = phase :=
    fun h => (mem_append.mp h).imp_right mem_singleton.mp
  have hapart : ∀ m, (c.shared.machine m).terminated = true → phase.creates ≠ some m :=
    fun m hm h => false_ne_true ((hcreates m h).symm.trans hm)
  refine ⟨hc.toCast.spawn hrole hown, ?_, ?_, hc.pools, ?_, ?_⟩
  · exact fun key hfree => hc.settled key fun other h => hfree other (hmem h)
  · intro key hkey
    refine (hc.fresh key hkey).imp_right fun hfree other hother => ?_
    rcases hcases hother with hold | rfl
    · exact hfree other hold
    · exact fun h => hkey (hused key h)
  · intro first hfirst m keys hkeys second hsecond
    rcases hcases hfirst with hold | rfl
    · rcases hcases hsecond with hsecond | rfl
      · exact hc.apart first hold m keys hkeys second hsecond
      · obtain ⟨j, hj⟩ := mem_iff_getElem?.mp hold
        exact hapart m ((hc.asserted j first hj).swept m keys hkeys).1
    · cases hsweeping.symm.trans hkeys
  · intro m hm
    rcases hc.ending m hm with ⟨other, hother, h⟩ | ⟨hnone, hclear⟩
    · exact .inl ⟨other, hmem hother, h⟩
    · refine .inr ⟨fun other hother => ?_, hclear.imp_right fun ⟨other, hother, h⟩ =>
        ⟨other, hmem hother, h⟩⟩
      rcases hcases hother with hold | rfl
      · exact hnone other hold
      · exact hapart m hm

/-- A call starts that holds no key. -/
theorem spawnFree (hplaced : Placed phase c.shared) (hrole : phase.role = none)
    (hcreates : phase.creates = none) (hranges : phase.ranges = none)
    (hsweeping : phase.sweeping = none) : Tracked (c.spawn phase) := by
  refine hc.spawn (asserts_of_placed hplaced hranges hsweeping) (absurd hrole) ?_ hsweeping ?_
  · intro key hkey
    cases hrole.symm.trans hkey
  · intro m hm
    cases hcreates.symm.trans hm

end Tracked

end Voce.Gateway.Registries
