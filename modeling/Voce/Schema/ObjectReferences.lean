import Voce.Foundation.Transition
import Voce.Schema.Media
import Voce.Schema.ObjectRefinement

/-! # References to schema objects

A program calls methods of the objects that it has references to. `New` and `Mutable` give it
one, `Retain` another one, and `Release` takes one away. As long as the counts of 32 bits do not
overflow they are the numbers of references, and no object of a program is in a pool.
-/

namespace Voce.Schema

open PooledStore Function List Store Face

variable {Datum : Type}

/-- Objects of the kind count their references. The others are left to the garbage collector. -/
def ObjectKind.counted : ObjectKind → Bool
  | .audio | .video => true
  | .payload | .signal => false

def PoolKind.kind : PoolKind → ObjectKind
  | .audio => .audio
  | .sdVideo | .hdVideo | .fhdVideo => .video

/-- The references that are held after a call. `Mutable` of an object that is not frozen gives
no new one. -/
def Call.references (c : Call Datum) (reply : Reply Datum) (held : ObjectRef → Nat) :
    ObjectRef → Nat :=
  match c, reply with
  | .newAudio .., .object q | .newVideo .., .object q | .newPayload _, .object q
  | .newSignal _, .object q => Function.update held q (held q + 1)
  | .mutable p _, .object q =>
    if q = p then held else Function.update held q (held q + 1)
  | .retain p, _ => Function.update held p (held p + 1)
  | .release p, _ => Function.update held p (held p - 1)
  | _, _ => held

/-- The caller has a reference to the object of the call. -/
def Call.heldBy (held : ObjectRef → Nat) (c : Call Datum) : Bool :=
  match c.target with
  | none => true
  | some p => 0 < held p

/-- The count of the object of a `Retain` does not overflow. -/
def Call.Countable (count : ObjectRef → Int32) : Call Datum → Prop
  | .retain p => count p < Int32.maxValue
  | _ => True

structure Holding (Datum : Type) where
  memory : Memory Datum
  held : ObjectRef → Nat

namespace Holding

def empty : Holding Datum := ⟨.empty, fun _ => 0⟩

/-- A call of an object that the program has a reference to. -/
def step (grow : Nat → Nat) (s : Holding Datum) (c : Call Datum) : Option (Holding Datum) :=
  if s.memory.accepts c && c.heldBy s.held then
    let result := s.memory.step grow c
    some ⟨result.1, c.references result.2 s.held⟩
  else none

/-- No `Retain` overflows the count. -/
def Countable (s : Holding Datum) (c : Call Datum) : Prop :=
  c.Countable fun p => (s.memory.object p).count

end Holding

/-- The counts are the numbers of references, and what is in a pool has none. -/
structure Counted (v : Objects Datum) (held : ObjectRef → Nat) : Prop where
  counts : ∀ p, (v.face p).kind.counted → (v.face p).count.toInt = held p
  unmade : ∀ p, v.allocated ≤ p → held p = 0
  idle : ∀ e ∈ v.pooled, held e.2 = 0 ∧ e.2 < v.allocated
  reset : ∀ e ∈ v.pooled, (v.face e.2).readonly = false ∧ (v.face e.2).kind = e.1.kind
  once : (v.pooled.map Prod.snd).Nodup

theorem videoPool_kind (height width : Int64) : (videoPool height width).kind = .video := by
  dsimp only [videoPool]
  split
  · rfl
  · split
    · rfl
    · rfl

/-- A recycled object is as its pool needs it. -/
theorem recycle_reset {o : Face Datum} (hkind : o.kind.counted) :
    o.recycle.count = 0 ∧ o.recycle.readonly = false ∧ o.recycle.kind = o.pool.kind := by
  unfold recycle pool
  cases hcase : o.kind with
  | audio => exact ⟨rfl, rfl, hcase⟩
  | video => exact ⟨rfl, rfl, hcase.trans (videoPool_kind _ _).symm⟩
  | payload | signal =>
    rw [hcase] at hkind
    cases hkind

theorem recycle_name (o : Face Datum) : o.recycle.name = "" := by
  unfold recycle
  split
  · rfl
  · rfl

/-- What a method leaves of its object. A frozen object stays as it is. -/
structure Face.Kept (o after : Face Datum) : Prop where
  kind : after.kind = o.kind
  count : after.count = o.count
  frozen : o.readonly = true → after = o

namespace Face

theorem Kept.refl (o : Face Datum) : Kept o o := ⟨rfl, rfl, fun _ => rfl⟩

theorem Kept.trans {o middle after : Face Datum} (hfirst : Kept o middle)
    (hsecond : Kept middle after) : Kept o after where
  kind := hsecond.kind.trans hfirst.kind
  count := hsecond.count.trans hfirst.count
  frozen hfrozen := by
    obtain rfl := hfirst.frozen hfrozen
    exact hsecond.frozen hfrozen

variable (grow : Nat → Nat)

theorem set_kept (o : Face Datum) (key : String) (input : Input Datum) :
    Kept o (o.set grow key input).1 := by
  unfold set
  split
  · exact .refl o
  next hwritable =>
    cases input.stored with
    | error => exact .refl o
    | ok => exact ⟨rfl, rfl, fun hfrozen => absurd hfrozen hwritable⟩

theorem setAll_kept {Field : Type} (key : Field → String) (wrap) (o : Face Datum)
    (fields : List (Field × Input Datum)) : Kept o (o.setAll grow key wrap fields).1 := by
  induction fields generalizing o with
  | nil => exact .refl o
  | cons field rest ih =>
    obtain ⟨field, input⟩ := field
    have hset := set_kept grow o (key field) input
    rw [setAll]
    generalize o.set grow (key field) input = result at hset ⊢
    obtain ⟨o', err⟩ := result
    cases err with
    | none => exact hset.trans (ih o')
    | some => exact hset

theorem write_kept (o : Face Datum) (message : String) {written} (hkind : written.kind = o.kind)
    (hcount : written.count = o.count) : Kept o (o.write message written).1 := by
  unfold write
  split
  · exact .refl o
  next hwritable => exact ⟨hkind, hcount, fun hfrozen => absurd hfrozen hwritable⟩

theorem method_kept (o : Face Datum) {c} (hretain : ∀ p, c ≠ .retain p) :
    Kept o (o.method grow c).1 := by
  match c with
  | .set _ key input => exact set_kept grow o key input
  | .pack _ .nilPointer | .pack _ (.kind _) | .unmarshalJSON _ (.error _) => exact .refl o
  | .pack _ (.struct fields) => exact setAll_kept grow _ _ o fields
  | .unmarshalJSON _ (.ok members) => exact setAll_kept grow _ _ o members
  | .setBytes .. | .setYUV .. | .setDuration .. | .setSampleRate .. | .setChannels .. =>
    exact write_kept o _ rfl rfl
  | .readOnly _ =>
    refine ⟨rfl, rfl, fun hfrozen => ?_⟩
    rw [method, ← hfrozen]
  | .retain p => exact absurd rfl (hretain p)
  | .newAudio .. | .newVideo .. | .newPayload _ | .newSignal _ | .mutable .. | .release _
  | .read .. | .collect .. => exact .refl o

end Face

namespace Counted

variable {v : Objects Datum} {held : ObjectRef → Nat} {p : ObjectRef} (h : Counted v held)
include h

theorem lt_allocated (hp : 0 < held p) : p < v.allocated := by
  by_contra hle
  exact absurd (h.unmade p (not_lt.mp hle)) (Nat.ne_of_gt hp)

theorem not_pooled (hp : 0 < held p) : ∀ e ∈ v.pooled, e.2 ≠ p := by
  rintro e he rfl
  exact absurd (h.idle e he).1 (Nat.ne_of_gt hp)

/-- An object that is not in a pool gets another value, and maybe another number of
references. -/
theorem update (hmade : p < v.allocated) (hout : ∀ e ∈ v.pooled, e.2 ≠ p) {o : Face Datum} {n : Nat}
    (hcount : o.kind.counted → o.count.toInt = n) :
    Counted (v.update p o) (update held p n) where
  counts q := by
    by_cases hq : q = p
    · subst hq
      rw [face_update, update_self]
      exact hcount
    · rw [face_update_of_ne v hq, update_of_ne hq]
      exact h.counts q
  unmade q hq := by
    have hne : q ≠ p := fun heq => absurd hmade (not_lt.mpr (heq ▸ hq))
    rw [update_of_ne hne]
    exact h.unmade q hq
  idle e he := by
    rw [update_of_ne (hout e he)]
    exact h.idle e he
  reset e he := by
    rw [face_update_of_ne v (hout e he)]
    exact h.reset e he
  once := h.once

theorem make {o} (hcount : o.count = 0) : Counted (v.make o).1 held where
  counts q := by
    by_cases hq : q = v.allocated
    · subst hq
      rw [Store.make, h.unmade v.allocated le_rfl]
      simp [hcount]
    · rw [Store.make]
      dsimp only
      rw [update_of_ne hq]
      exact h.counts q
  unmade q hq := h.unmade q (Nat.le_of_succ_le hq)
  idle e he := ⟨(h.idle e he).1, Nat.lt_succ_of_lt (h.idle e he).2⟩
  reset e he := by
    rw [Store.make]
    dsimp only
    rw [update_of_ne (ne_of_lt (h.idle e he).2)]
    exact h.reset e he
  once := h.once

/-- What a pool hands out: an object that nobody has a reference to, and that is reset. -/
structure Handed (v : Objects Datum) (held : ObjectRef → Nat) (pool : PoolKind)
    (made : Objects Datum × ObjectRef) : Prop where
  counted : Counted made.1 held
  unheld : held made.2 = 0
  allocated : made.2 < made.1.allocated
  out : ∀ e ∈ made.1.pooled, e.2 ≠ made.2
  writable : (made.1.face made.2).readonly = false
  kind : (made.1.face made.2).kind = pool.kind
  others : ∀ q, q ≠ made.2 → made.1.face q = v.face q

theorem factory (pool : PoolKind) : Handed v held pool (v.make (.factory pool)) where
  counted := h.make (by cases pool <;> rfl)
  unheld := h.unmade v.allocated le_rfl
  allocated := Nat.lt_succ_self _
  out e he := ne_of_lt (h.idle e he).2
  writable := by
    rw [Store.make]
    dsimp only
    rw [update_self]
    cases pool <;> rfl
  kind := by
    rw [Store.make]
    dsimp only
    rw [update_self]
    cases pool <;> rfl
  others _ hq := update_of_ne hq _ _

theorem erase (e : PoolKind × ObjectRef) : Counted { v with pooled := v.pooled.erase e } held where
  counts := h.counts
  unmade := h.unmade
  idle other hother := h.idle other (mem_of_mem_erase hother)
  reset other hother := h.reset other (mem_of_mem_erase hother)
  once := h.once.sublist (erase_sublist.map _)

theorem acquire (pool : PoolKind) (choice : Option ObjectRef) :
    Handed v held pool (v.acquire pool choice) := by
  refine acquire_induct choice (Handed v held pool) (fun p hpooled => ?_) (h.factory pool)
  refine ⟨h.erase (pool, p), (h.idle _ hpooled).1, (h.idle _ hpooled).2, ?_,
    (h.reset _ hpooled).1, (h.reset _ hpooled).2, fun _ _ => rfl⟩
  intro e he heq
  -- the object is in no pool a second time
  have honce := ((perm_cons_erase hpooled).map Prod.snd).nodup_iff.mp h.once
  exact (nodup_cons.mp honce).1 (mem_map.mpr ⟨e, he, heq⟩)

/-- The last reference to an object is gone, and the object goes back to its pool. -/
theorem putBack (hp : held p = 0) (hmade : p < v.allocated) (hout : ∀ e ∈ v.pooled, e.2 ≠ p)
    (hkind : (v.face p).kind.counted) : Counted (v.putBack p) held := by
  obtain ⟨hcount, hreadonly, hpool⟩ := recycle_reset hkind
  have hset : Counted (v.update p (v.face p).recycle) (Function.update held p 0) :=
    h.update hmade hout (fun _ => by rw [hcount]; rfl)
  rw [← hp, update_eq_self] at hset
  refine ⟨hset.counts, hset.unmade, ?_, ?_, ?_⟩
  · intro e he
    obtain rfl | he := mem_cons.mp he
    · exact ⟨hp, hmade⟩
    · exact hset.idle e he
  · intro e he
    obtain rfl | he := mem_cons.mp he
    · change ((v.update p (v.face p).recycle).face p).readonly = _ ∧
        ((v.update p (v.face p).recycle).face p).kind = _
      rw [face_update]
      exact ⟨hreadonly, hpool⟩
    · exact hset.reset e he
  · refine nodup_cons.mpr ⟨?_, h.once⟩
    intro hmem
    obtain ⟨e, he, heq⟩ := mem_map.mp hmem
    exact hout e he heq

/-- What `New` and `Mutable` return: an object with one reference, the caller's. -/
structure Created (v : Objects Datum) (held : ObjectRef → Nat)
    (made : Objects Datum × ObjectRef) : Prop where
  counted : Counted made.1 (Function.update held made.2 (held made.2 + 1))
  unheld : held made.2 = 0
  others : ∀ q, q ≠ made.2 → made.1.face q = v.face q

omit h in
theorem Created.ne {made} (hmade : Created v held made) (hp : 0 < held p) : p ≠ made.2 := by
  rintro rfl
  exact absurd hmade.unheld (Nat.ne_of_gt hp)

omit h in
theorem Handed.fill {pool : PoolKind} {made : Objects Datum × ObjectRef}
    (hmade : Handed v held pool made) {o : Face Datum} (hcount : o.count = 1) :
    Created v held (made.1.update made.2 o, made.2) where
  counted := by
    apply hmade.counted.update hmade.allocated hmade.out
    intro _
    rw [hcount, hmade.unheld]
    rfl
  unheld := hmade.unheld
  others q hq := (face_update_of_ne _ hq _).trans (hmade.others q hq)

/-- An object that does not count its references. -/
theorem made {kind : ObjectKind} (hkind : kind.counted = false) (name : String)
    (entries : List (Entry Datum (List UInt8))) :
    Created v held (v.make (.made kind name entries .nil)) := by
  have hmade : Counted (v.make (.made kind name entries .nil)).1 held := h.make rfl
  have hface : (v.make (.made kind name entries .nil)).1.face v.allocated =
      .made kind name entries .nil := update_self _ _ _
  have hset := hmade.update (p := v.allocated) (n := held v.allocated + 1)
    (o := (v.make (.made kind name entries .nil)).1.face v.allocated) (Nat.lt_succ_self _)
    (fun e he => ne_of_lt (h.idle e he).2) (fun hcounted => by
      rw [hface, Face.made, hkind] at hcounted
      cases hcounted)
  rw [update_face] at hset
  exact ⟨hset, h.unmade _ le_rfl, fun q hq => update_of_ne hq _ _⟩

theorem newAudio (choice : Option ObjectRef) (name : String) (sampleRate channels : Int64) :
    Created v held (v.newAudio choice name sampleRate channels) :=
  (h.acquire .audio choice).fill rfl

theorem newVideo (choice : Option ObjectRef) (name : String) (height width duration : Int64) :
    Created v held (v.newVideo choice name height width duration) :=
  (h.acquire (videoPool height width) choice).fill rfl

end Counted

/-- An object shows what another one does. -/
structure Face.CopyOf (o copy : Face Datum) : Prop where
  kind : copy.kind = o.kind
  entries : copy.entries.values = o.entries.values
  name : copy.name = o.name
  buffer : o.kind.counted → copy.buffer.values = o.buffer.values
  duration : o.kind.counted → copy.duration = o.duration
  audio : o.kind = .audio → copy.sampleRate = o.sampleRate ∧ copy.channels = o.channels
  video : o.kind = .video → copy.height = o.height ∧ copy.width = o.width

namespace Counted

variable {v : Objects Datum} {held : ObjectRef → Nat} {p : ObjectRef}

theorem Handed.ne {pool made} (hmade : Handed v held pool made) (hp : 0 < held p) : p ≠ made.2 := by
  rintro rfl
  exact absurd hmade.unheld (Nat.ne_of_gt hp)

/-- `Mutable` of a frozen object returns a new one with the same content. -/
theorem mutable (h : Counted v held) (hp : 0 < held p) (hfrozen : (v.face p).readonly = true)
    (choice : Option ObjectRef) :
    ∃ v' q, v.mutable p choice = (v', .object q) ∧ Created v held (v', q) ∧
      (v.face p).CopyOf (v'.face q) := by
  dsimp only [Objects.mutable]
  rw [if_pos hfrozen]
  cases hkind : (v.face p).kind with
  | audio =>
    have hmade := h.acquire .audio choice
    have hcopied :=
      v.mutableAudio_eq (hmade.ne hp) (hmade.others p (hmade.ne hp)) hmade.writable
    refine ⟨_, _, hcopied, hmade.fill rfl, ?_⟩
    rw [face_update]
    exact ⟨hmade.kind.trans hkind.symm, rfl, rfl, fun _ => rfl, fun _ => rfl,
      fun _ => ⟨rfl, rfl⟩, fun hvideo => (by rw [hkind] at hvideo; cases hvideo)⟩
  | video =>
    have hmade := h.acquire (videoPool (v.face p).height (v.face p).width) choice
    have hcopied := v.mutableVideo_eq rfl (hmade.ne hp) (hmade.others p (hmade.ne hp))
    rw [hcopied]
    refine ⟨_, _, rfl, hmade.fill rfl, ?_⟩
    rw [face_update]
    exact ⟨(hmade.kind.trans (videoPool_kind _ _)).trans hkind.symm, rfl, rfl, fun _ => rfl,
      fun _ => rfl, fun haudio => (by rw [hkind] at haudio; cases haudio),
      fun _ => ⟨rfl, rfl⟩⟩
  | payload | signal =>
    refine ⟨_, _, rfl, h.made rfl _ _, ?_⟩
    rw [Store.make]
    dsimp only
    constructor <;> simp [Face.made, ArrayHeap.Contents.exact, hkind, ObjectKind.counted]

/-! ## Steps -/

theorem counted_of_accepts_release (haccepts : v.accepts (.release p) = true) :
    (v.face p).kind.counted := by
  simp only [Objects.accepts, Call.target, Call.suits, Bool.and_eq_true, Bool.or_eq_true,
    decide_eq_true_eq] at haccepts
  obtain ⟨-, hkind | hkind⟩ := haccepts
  · rw [hkind]
    rfl
  · rw [hkind]
    rfl

theorem release (h : Counted v held) (hp : 0 < held p) (hkind : (v.face p).kind.counted) :
    Counted (v.release p) (Function.update held p (held p - 1)) := by
  have hcount := h.counts p hkind
  have hless : ((v.face p).count - 1).toInt = (held p - 1 : Nat) := by
    rw [Media.toInt_sub_one (by omega), hcount]
    omega
  have hset : Counted (v.modify p fun o => { o with count := o.count - 1 })
      (Function.update held p (held p - 1)) :=
    h.update (h.lt_allocated hp) (h.not_pooled hp) (fun _ => hless)
  dsimp only [Objects.release]
  split
  · exact hset
  next hlast =>
    rw [Store.modify, Store.face_update, gt_iff_lt, Int32.lt_iff_toInt_lt, hless,
      Int32.toInt_zero] at hlast
    apply hset.putBack
    · rw [update_self]
      omega
    · exact h.lt_allocated hp
    · exact h.not_pooled hp
    · rw [Store.modify, Store.face_update]
      exact hkind

/-- A method of an object that the program has a reference to. -/
theorem method (h : Counted v held) (hp : 0 < held p) {c : Call Datum} (grow : Nat → Nat)
    (hretain : ∀ q, c ≠ .retain q) :
    Counted (v.update p ((v.face p).method grow c).1) held := by
  have hkept := (v.face p).method_kept grow hretain
  have hset := h.update (h.lt_allocated hp) (h.not_pooled hp) (n := held p)
    (o := ((v.face p).method grow c).1) (by
      rw [hkept.kind, hkept.count]
      exact h.counts p)
  rwa [update_eq_self] at hset

theorem retain (h : Counted v held) (hp : 0 < held p) (hroom : (v.face p).count < Int32.maxValue) :
    Counted (v.modify p fun o => { o with count := o.count + 1 })
      (Function.update held p (held p + 1)) := by
  apply h.update (h.lt_allocated hp) (h.not_pooled hp)
  intro hkind
  rw [Media.toInt_add_one hroom, h.counts p hkind]
  rfl

/-- A call by a program that has a reference to the object. -/
theorem step (h : Counted v held) {c} (grow : Nat → Nat) (haccepts : v.accepts c = true)
    (hheld : c.heldBy held = true) (hcountable : c.Countable fun p => (v.face p).count) :
    Counted (v.step grow c).1 (c.references (v.step grow c).2 held) := by
  rw [Objects.step, if_pos haccepts]
  match c with
  | .newAudio choice name sampleRate channels =>
    exact (h.newAudio choice name sampleRate channels).counted
  | .newVideo choice name height width duration =>
    exact (h.newVideo choice name height width duration).counted
  | .newPayload name => exact (h.made rfl name []).counted
  | .newSignal name => exact (h.made rfl name []).counted
  | .mutable p choice =>
    have hp : 0 < held p := of_decide_eq_true hheld
    change Counted (v.mutable p choice).1
      ((Call.mutable p choice).references (v.mutable p choice).2 held)
    cases hfrozen : (v.face p).readonly with
    | true =>
      obtain ⟨v', q, hmutable, hmade, -⟩ := h.mutable hp hfrozen choice
      rw [hmutable, Call.references, if_neg (hmade.ne hp).symm]
      exact hmade.counted
    | false =>
      rw [Objects.mutable_of_writable hfrozen, Call.references, if_pos rfl]
      exact h
  | .release p =>
    exact h.release (of_decide_eq_true hheld) (counted_of_accepts_release haccepts)
  | .retain p => exact h.retain (of_decide_eq_true hheld) hcountable
  | .collect pool p => exact h.erase (pool, p)
  | .set p .. | .pack p _ | .unmarshalJSON p _ | .setBytes p _ | .setYUV p .. | .setDuration p _
  | .setSampleRate p _ | .setChannels p _ | .readOnly p | .read p _ =>
    exact h.method (of_decide_eq_true hheld) grow (by simp)

end Counted

end Voce.Schema
