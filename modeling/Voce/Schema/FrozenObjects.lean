import Voce.Schema.ObjectReferences

/-! # Frozen objects

`ReadOnly` freezes an object. From then on everything that its read methods return stays the
same until the last reference to it is released, whatever a program does with this and other
objects and whatever the pools hand out.
-/

namespace Voce.Schema

open ArrayHeap PooledStore Transition Function List Option Int32 Represents Store Face

variable {Datum : Type}

/-- What an object shows, apart from its count. -/
def Face.content (o : Face Datum) : Face Datum := { o with count := 0 }

theorem Face.answer_content (o : Face Datum) (query : Query) :
    o.content.answer query = o.answer query := by
  cases query <;> rfl

theorem answer_eq {o after : Face Datum} (hcontent : after.content = o.content)
    (query : Query) : after.answer query = o.answer query := by
  rw [← after.answer_content, hcontent, o.answer_content]

/-- An answer with a nil slice taken for an empty one. -/
def Answer.forgetNil : Answer Datum → Answer Datum
  | .bytes none => .bytes (some [])
  | a => a

namespace Face

theorem slice_forgetNil {c bs} (hempty : c.cap = 0 → bs = []) :
    (slice c bs : Answer Datum).forgetNil = .bytes (some bs) := by
  unfold slice
  split
  next hcap => rw [hempty hcap]; rfl
  · rfl

/-- A buffer does not show more than it has. -/
def Fits (o : Face Datum) : Prop := o.buffer.values.length ≤ o.buffer.cap

theorem Fits.values_eq_nil {o : Face Datum} (ho : o.Fits) (hcap : o.buffer.cap = 0) :
    o.buffer.values = [] :=
  length_eq_zero_iff.mp (Nat.le_zero.mp (hcap ▸ ho))

theorem plane_forgetNil {o copy : Face Datum} (ho : o.Fits) (hcopy : copy.Fits)
    (hvalues : copy.buffer.values = o.buffer.values) (low high : Int64) :
    (copy.plane low high).forgetNil = (o.plane low high).forgetNil := by
  have hsub {f : Face Datum} (hf : f.Fits) (hcap : f.buffer.cap = 0) :
      (f.buffer.values.take high.toInt.toNat).drop low.toInt.toNat = [] := by
    rw [hf.values_eq_nil hcap]
    simp
  unfold plane subslice
  rw [hvalues]
  split
  · rfl
  · split
    · rw [slice_forgetNil (hvalues ▸ hsub hcopy), slice_forgetNil (hsub ho)]
    · rfl

/-- The read methods of a copy return what those of the original do. -/
theorem CopyOf.answer_forgetNil {o copy : Face Datum} (h : CopyOf o copy) (ho : o.Fits)
    (hcopy : copy.Fits) {query : Query} (hsuits : query.suits o.kind = true) :
    (copy.answer query).forgetNil = (o.answer query).forgetNil := by
  have hget (key : String) : copy.get key = o.get key := by rw [get, get, h.entries]
  have haudio (hkind : o.kind = .audio) : o.kind.counted := by rw [hkind]; rfl
  have hvideo (hkind : o.kind = .video) : o.kind.counted := by rw [hkind]; rfl
  have hplane (hkind : o.kind = .video) := plane_forgetNil ho hcopy (h.buffer (hvideo hkind))
  cases query with
  | get key => rw [answer, answer, hget]
  | bind key => rw [answer, answer, bind, bind, hget]
  | unpack keys => rw [answer, answer, funext hget]
  | marshalJSON => rw [answer, answer, h.entries]
  | name => rw [answer, answer, h.name]
  | duration =>
    rw [Query.suits, Bool.or_eq_true, decide_eq_true_eq, decide_eq_true_eq] at hsuits
    rw [answer, answer, h.duration (hsuits.elim haudio hvideo)]
  | bytes =>
    have hbuffer := h.buffer (haudio (of_decide_eq_true hsuits))
    rw [answer, answer, slice_forgetNil hcopy.values_eq_nil, slice_forgetNil ho.values_eq_nil,
      hbuffer]
  | sampleRate => rw [answer, answer, (h.audio (of_decide_eq_true hsuits)).1]
  | channels => rw [answer, answer, (h.audio (of_decide_eq_true hsuits)).2]
  | height => rw [answer, answer, (h.video (of_decide_eq_true hsuits)).1]
  | width => rw [answer, answer, (h.video (of_decide_eq_true hsuits)).2]
  | yBytes =>
    obtain ⟨hheight, hwidth⟩ := h.video (of_decide_eq_true hsuits)
    simp only [answer, yBytes, hheight, hwidth, hplane (of_decide_eq_true hsuits)]
  | uBytes =>
    obtain ⟨hheight, hwidth⟩ := h.video (of_decide_eq_true hsuits)
    simp only [answer, uBytes, hheight, hwidth, hplane (of_decide_eq_true hsuits)]
  | vBytes =>
    obtain ⟨hheight, hwidth⟩ := h.video (of_decide_eq_true hsuits)
    simp only [answer, vBytes, hheight, hwidth, hplane (of_decide_eq_true hsuits)]

end Face

/-- The call does not release the last reference to the object. -/
def Call.KeepsReference (p : ObjectRef) (held : ObjectRef → Nat) : Call Datum → Prop
  | .release q => q = p → 1 < held p
  | _ => True

namespace Counted

variable {v : Objects Datum} {held : ObjectRef → Nat} {p : ObjectRef}

theorem release_face_of_ne (v : Objects Datum) {q} (hne : p ≠ q) :
    (v.release q).face p = v.face p := by
  by_cases hcount : (v.face q).count - 1 > 0
  · rw [Objects.release_of_more hcount, face_update_of_ne v hne]
  · rw [Objects.release_of_last hcount]
    exact face_update_of_ne v hne _

theorem release_content (h : Counted v held) (hkind : (v.face p).kind.counted)
    (hmore : 1 < held p) : ((v.release p).face p).content = (v.face p).content := by
  have hcount := h.counts p hkind
  have hpos : (v.face p).count - 1 > 0 := by
    rw [gt_iff_lt, lt_iff_toInt_lt, Media.toInt_sub_one (by omega), toInt_zero]
    omega
  rw [Objects.release_of_more hpos, face_update]
  rfl

/-- A call leaves a frozen object that it does not take the last reference of. -/
theorem frozen_step (h : Counted v held) {c} (grow : Nat → Nat) (haccepts : v.accepts c = true)
    (hheld : c.heldBy held = true) (hp : 0 < held p) (hfrozen : (v.face p).readonly = true)
    (hkeeps : c.KeepsReference p held) :
    ((v.step grow c).1.face p).content = (v.face p).content := by
  rw [Objects.step, if_pos haccepts]
  cases c with
  | newAudio choice name sampleRate channels =>
    have hmade := h.newAudio choice name sampleRate channels
    exact congrArg Face.content (hmade.others p (hmade.ne hp))
  | newVideo choice name height width duration =>
    have hmade := h.newVideo choice name height width duration
    exact congrArg Face.content (hmade.others p (hmade.ne hp))
  | newPayload name =>
    have hmade : Created v held (v.make (.made .payload name [] .nil)) := h.made rfl name []
    exact congrArg Face.content (hmade.others p (hmade.ne hp))
  | newSignal name =>
    have hmade : Created v held (v.make (.made .signal name [] .nil)) := h.made rfl name []
    exact congrArg Face.content (hmade.others p (hmade.ne hp))
  | mutable q choice =>
    change ((v.mutable q choice).1.face p).content = _
    cases hq : (v.face q).readonly with
    | true =>
      obtain ⟨v', r, hmutable, hmade, -⟩ := h.mutable (of_decide_eq_true hheld) hq choice
      rw [hmutable]
      exact congrArg Face.content (hmade.others p (hmade.ne hp))
    | false => rw [Objects.mutable_of_writable hq]
  | release q =>
    by_cases heq : p = q
    · subst heq
      exact h.release_content (counted_of_accepts_release haccepts) (hkeeps rfl)
    · exact congrArg Face.content (release_face_of_ne v heq)
  | retain q =>
    by_cases heq : p = q
    · subst heq
      change ((v.update p _).face p).content = _
      rw [face_update]
      rfl
    · exact congrArg Face.content (face_update_of_ne v heq _)
  | collect pool q => rfl
  | set q | pack q | unmarshalJSON q | setBytes q | setYUV q | setDuration q | setSampleRate q
  | setChannels q | readOnly q | read q =>
    by_cases heq : p = q
    · subst heq
      change ((v.update p _).face p).content = _
      rw [face_update, ((v.face p).method_kept grow (by simp)).frozen hfrozen]
    · exact congrArg Face.content (face_update_of_ne v heq _)

end Counted

theorem Memory.Sound.fits {m : Memory Datum} (hm : m.Sound) (p : ObjectRef) : (m.face p).Fits := by
  have hbuffer := (hm p).buffer
  change (m.bytes.read _).length ≤ m.bytes.cap _
  rw [hbuffer.length_read]
  exact hbuffer.length_le

theorem Memory.accepts_modify (m : Memory Datum) {c p} (htarget : c.target = some p)
    (change : SchemaObject ArrayHeap.Slice ArrayHeap.Slice →
      SchemaObject ArrayHeap.Slice ArrayHeap.Slice)
    (hkind : (change (m.object p)).kind = (m.object p).kind) :
    (m.modify p change).accepts c = m.accepts c := by
  have hobject : (m.modify p change).object p = change (m.object p) := update_self _ _ _
  simp only [Memory.accepts, htarget, hobject, hkind]
  rfl

theorem Call.references_pos {c : Call Datum} {held p} (hp : 0 < held p)
    (hkeeps : c.KeepsReference p held) (reply : Reply Datum) : 0 < c.references reply held p := by
  have hmore (q : ObjectRef) : 0 < update held q (held q + 1) p := by
    by_cases heq : p = q
    · subst heq
      rw [update_self]
      exact Nat.succ_pos _
    · rwa [update_of_ne heq]
  unfold Call.references
  split
  · exact hmore _
  · exact hmore _
  · exact hmore _
  · exact hmore _
  · split
    · exact hp
    · exact hmore _
  · exact hmore _
  next q =>
    by_cases heq : p = q
    · subst heq
      rw [update_self]
      exact Nat.sub_pos_of_lt (hkeeps rfl)
    · rwa [update_of_ne heq]
  · exact hp

namespace Holding

variable {s t : Holding Datum} {c : Call Datum} {p : ObjectRef} {grow : Nat → Nat}

/-- The memory is sound and its counts are the numbers of references. -/
def Sound (s : Holding Datum) : Prop := s.memory.Sound ∧ Counted s.memory.objects s.held

def KeepsReference (p : ObjectRef) (s : Holding Datum) (c : Call Datum) : Prop :=
  c.KeepsReference p s.held

instance (s : Holding Datum) (c : Call Datum) : Decidable (s.Countable c) := by
  unfold Countable Call.Countable
  split <;> infer_instance

instance (p : ObjectRef) (s : Holding Datum) (c : Call Datum) :
    Decidable (s.KeepsReference p c) := by
  unfold KeepsReference Call.KeepsReference
  split <;> infer_instance

theorem step_eq_some (hstep : s.step grow c = some t) :
    s.memory.accepts c = true ∧ c.heldBy s.held = true ∧
      t = ⟨(s.memory.step grow c).1, c.references (s.memory.step grow c).2 s.held⟩ := by
  unfold step at hstep
  split at hstep
  next hok =>
    rw [Bool.and_eq_true] at hok
    exact ⟨hok.1, hok.2, (some.inj hstep).symm⟩
  · cases hstep

theorem empty_sound : (empty : Holding Datum).Sound := by
  refine ⟨Represents.empty_sound, fun p hp => ?_, fun _ _ => rfl, ?_, ?_, nodup_nil⟩
  · cases hp
  · exact fun e he => absurd he not_mem_nil
  · exact fun e he => absurd he not_mem_nil

theorem Sound.step (hs : s.Sound) (hcountable : s.Countable c)
    (hstep : s.step grow c = some t) : t.Sound := by
  obtain ⟨haccepts, hheld, rfl⟩ := step_eq_some hstep
  have hmemory := of_sound hs.1
  obtain ⟨hafter, hreply⟩ := hmemory.step grow c
  refine ⟨hafter.sound, ?_⟩
  rw [hafter.objects, hreply]
  exact hs.2.step grow ((hmemory.accepts c).symm.trans haccepts) hheld hcountable

/-- An object is frozen, somebody has a reference to it, and it shows a content. -/
structure Shows (p : ObjectRef) (o : Face Datum) (s : Holding Datum) : Prop where
  sound : s.Sound
  held : 0 < s.held p
  frozen : (s.memory.face p).readonly = true
  content : (s.memory.face p).content = o.content

theorem Shows.step {o} (h : Shows p o s) (hcountable : s.Countable c)
    (hkeeps : s.KeepsReference p c) (hstep : s.step grow c = some t) : Shows p o t := by
  obtain ⟨haccepts, hheld, heq⟩ := step_eq_some hstep
  have hmemory := of_sound h.sound.1
  obtain ⟨hafter, -⟩ := hmemory.step grow c
  have hsame : (t.memory.face p).content = (s.memory.face p).content := by
    subst heq
    rw [hafter.face]
    exact h.sound.2.frozen_step grow ((hmemory.accepts c).symm.trans haccepts) hheld h.held
      h.frozen hkeeps
  refine ⟨h.sound.step hcountable hstep, ?_, ?_, hsame.trans h.content⟩
  · subst heq
    exact Call.references_pos h.held hkeeps _
  · exact (congrArg SchemaObject.readonly hsame).trans h.frozen

/-- From the moment an object is frozen until its last reference is released, no call changes
what its read methods return. `Mutable` returns another object that nobody had, with the same
content. -/
theorem frozen_immutable {earlier later : List (Call Datum)}
    (hearlier : run (step grow) empty earlier = some s)
    (hlater : run (step grow) s later = some t)
    (hcountable : Meets (step grow) Countable empty (earlier ++ later))
    (hfrozen : (s.memory.object p).readonly = true) (hheld : 0 < s.held p)
    (hkeeps : Meets (step grow) (KeepsReference p) s later) :
    (∀ query, (t.memory.face p).answer query = (s.memory.face p).answer query) ∧
      ∀ choice, ∃ m q, t.memory.mutable p choice = (m, .object q) ∧ q ≠ p ∧ t.held q = 0 ∧
        ∀ query, query.suits (t.memory.object p).kind = true →
          ((m.face q).answer query).forgetNil = ((t.memory.face p).answer query).forgetNil := by
  obtain ⟨hbefore, hafter⟩ := (meets_append hearlier).mp hcountable
  have hs : s.Sound := run_invariant_of_meets Sound Sound.step empty_sound hbefore hearlier
  have ht : Shows p (s.memory.face p) t := run_invariant_of_meets
    (Shows p (s.memory.face p)) (fun hshows hok => hshows.step hok.1 hok.2)
    ⟨hs, hheld, hfrozen, rfl⟩ (meets_and hafter hkeeps) hlater
  refine ⟨answer_eq ht.content, fun choice => ?_⟩
  obtain ⟨hmade, hreply⟩ := (of_sound ht.sound.1).mutable p choice
  obtain ⟨v', q, hmutable, hcreated, hcopy⟩ := ht.sound.2.mutable ht.held ht.frozen choice
  rw [hmutable] at hmade hreply
  refine ⟨_, q, Prod.ext rfl hreply, (hcreated.ne ht.held).symm, hcreated.unheld, ?_⟩
  intro query hsuits
  have hfits := hmade.sound.fits q
  rw [hmade.face] at hfits ⊢
  exact hcopy.answer_forgetNil (ht.sound.1.fits p) hfits hsuits

/-- A program that freezes an audio. -/
def freezing : List (Call Nat) :=
  [.newAudio none "tts" 16000 1, .set 0 "text" (.bytes [104, 105]), .setBytes 0 [1, 2, 3],
    .readOnly 0]

/-- A program that goes on with a copy of it. -/
def copying : List (Call Nat) :=
  [.retain 0, .mutable 0 none, .setBytes 1 [9], .set 1 "text" (.datum 5), .release 0,
    .set 0 "late" (.datum 1)]

theorem frozen_immutable_copying :
    ∃ s t : Holding Nat, run (step (2 * ·)) empty freezing = some s ∧
      run (step (2 * ·)) s copying = some t ∧
      (∀ query, (t.memory.face 0).answer query = (s.memory.face 0).answer query) ∧
      ∀ choice, ∃ m q, t.memory.mutable 0 choice = (m, .object q) ∧ q ≠ 0 ∧ t.held q = 0 ∧
        ∀ query, query.suits (t.memory.object 0).kind = true →
          ((m.face q).answer query).forgetNil = ((t.memory.face 0).answer query).forgetNil := by
  obtain ⟨s, hs, hreadonly, hheld, hcopying⟩ := exists_of_decide
    (run (step (2 * ·)) empty freezing)
    (fun s => (s.memory.object 0).readonly = true ∧ 0 < s.held 0 ∧
      (run (step (2 * ·)) s copying).isSome) (by decide +kernel)
  obtain ⟨t, ht⟩ := isSome_iff_exists.mp hcopying
  have hkeeps : Meets (step (2 * ·)) (KeepsReference 0) empty (freezing ++ copying) := by
    decide +kernel
  exact ⟨s, t, hs, ht, frozen_immutable hs ht (by decide +kernel) hreadonly hheld
    ((meets_append hs).mp hkeeps).2⟩

/-! ## Overflow of the count -/

theorem memory_sound {calls} (hrun : run (step grow) empty calls = some s) : s.memory.Sound := by
  apply run_invariant (fun s => s.memory.Sound) _ Represents.empty_sound hrun
  intro s c t hs hstep
  obtain ⟨-, -, rfl⟩ := step_eq_some hstep
  exact ((of_sound hs).step grow c).1.sound

theorem step_of_accepts (haccepts : s.memory.accepts c = true) (hheld : c.heldBy s.held = true) :
    s.step grow c =
      some ⟨(s.memory.perform grow c).1, c.references (s.memory.perform grow c).2 s.held⟩ := by
  have hok : (s.memory.accepts c && c.heldBy s.held) = true :=
    Bool.and_eq_true_iff.mpr ⟨haccepts, hheld⟩
  rw [step, if_pos hok, Memory.step, if_pos haccepts]

theorem run_retains (grow : Nat → Nat) (haccepts : s.memory.accepts (.retain p) = true)
    (hheld : 0 < s.held p) (n : Nat) :
    run (step grow) s (replicate n (.retain p)) =
      some ⟨s.memory.modify p fun o => { o with count := o.count + ofNat n },
        update s.held p (s.held p + n)⟩ := by
  induction n generalizing s with
  | zero =>
    have hcount : (s.memory.object p).count + ofNat 0 = (s.memory.object p).count :=
      Int32.add_zero _
    simp only [Memory.modify, hcount, add_zero, update_eq_self]
    rfl
  | succ n ih =>
    have haccepts' : (s.memory.retain p).accepts (.retain p) = true :=
      (s.memory.accepts_modify rfl _ rfl).trans haccepts
    have hheld' : 0 < update s.held p (s.held p + 1) p := by
      rw [update_self]
      exact Nat.succ_pos _
    have hcount (count : Int32) : count + 1 + ofNat n = count + ofNat (n + 1) := by
      rw [Int32.ofNat_add, Int32.add_assoc, Int32.add_comm 1]
      rfl
    have hnumber : s.held p + 1 + n = s.held p + (n + 1) := by omega
    have hstep : s.step grow (.retain p) =
        some ⟨s.memory.retain p, update s.held p (s.held p + 1)⟩ :=
      step_of_accepts haccepts (decide_eq_true hheld)
    rw [replicate_succ]
    refine run_cons_eq_some.mpr ⟨_, hstep, ?_⟩
    rw [ih haccepts' hheld']
    simp only [Memory.retain, Memory.modify, update_self, update_idem, hcount, hnumber]

/-- A `Release` that finds the count used up recycles the object. -/
theorem release_name {m : Memory Datum} (hm : m.Sound) (hcount : ¬ (m.object p).count - 1 > 0) :
    ((m.release p).face p).name = "" := by
  have hlast : ¬ (m.objects.face p).count - 1 > 0 := hcount
  rw [((of_sound hm).release p).face, Objects.release_of_last hlast]
  rw [face_update, recycle_name]

/-- The count of an audio overflows, so that a `Release` puts it into the pool while most of its
references are held. The frozen audio loses its name. -/
theorem overflow_unfreezes :
    ∃ (earlier later : List (Call Nat)) (s t : Holding Nat),
      run (step (2 * ·)) empty earlier = some s ∧
      run (step (2 * ·)) s later = some t ∧
      (s.memory.object 0).readonly = true ∧ 0 < s.held 0 ∧
      Meets (step (2 * ·)) (KeepsReference 0) s later ∧ 0 < t.held 0 ∧
      (t.memory.face 0).answer .name ≠ (s.memory.face 0).answer .name := by
  obtain ⟨s, hs, haccepts, hreadonly, hcount, hname, hheld⟩ := exists_of_decide
    (run (step (2 * ·)) empty freezing)
    (fun s => s.memory.accepts (.retain 0) = true ∧ (s.memory.object 0).readonly = true ∧
      (s.memory.object 0).count = 1 ∧ (s.memory.object 0).name = "tts" ∧ s.held 0 = 1)
    (by decide +kernel)
  have hretains := run_retains (2 * ·) haccepts (by rw [hheld]; exact Nat.one_pos) (2 ^ 31)
  have hsound := memory_sound (run_append_eq_some hs hretains)
  generalize hretained : (s.memory.modify 0 fun o =>
    { o with count := o.count + ofNat (2 ^ 31) }) = m at hretains hsound
  have hmore : update s.held 0 (s.held 0 + 2 ^ 31) 0 = 1 + 2 ^ 31 := by
    rw [update_self, hheld]
  have haccepts' : m.accepts (.release 0) = true := by
    rw [← hretained]
    exact (s.memory.accepts_modify rfl _ rfl).trans haccepts
  have hobject : (m.object 0).count = 1 + ofNat (2 ^ 31) := by
    rw [← hretained]
    simp only [Memory.modify, update_self, hcount]
  generalize update s.held 0 (s.held 0 + 2 ^ 31) = held at hretains hmore
  have hpos : 0 < held 0 := by omega
  have hstep : step (2 * ·) ⟨m, held⟩ (.release 0) =
      some ⟨m.release 0, update held 0 (held 0 - 1)⟩ :=
    step_of_accepts haccepts' (decide_eq_true hpos)
  have hrelease : run (step (2 * ·)) ⟨m, held⟩ [.release 0] =
      some ⟨m.release 0, update held 0 (held 0 - 1)⟩ :=
    run_cons_eq_some.mpr ⟨_, hstep, rfl⟩
  refine ⟨freezing, _, s, _, hs, run_append_eq_some hretains hrelease, hreadonly, ?_, ?_, ?_, ?_⟩
  · rw [hheld]
    exact Nat.one_pos
  · refine (meets_append hretains).mpr
      ⟨meets_of_forall_mem ?_ _, (meets_cons hstep).mpr ⟨?_, trivial⟩⟩
    · intro c hc _
      rw [eq_of_mem_replicate hc]
      trivial
    · intro _
      change 1 < held 0
      omega
  · change 0 < update held 0 (held 0 - 1) 0
    rw [update_self, hmore]
    omega
  · have hlost : ((m.release 0).face 0).name = "" :=
      release_name hsound (by rw [hobject]; decide +kernel)
    have hkept : (s.memory.face 0).name = "tts" := hname
    simp only [answer, hlost, hkept]
    decide

end Holding

end Voce.Schema
