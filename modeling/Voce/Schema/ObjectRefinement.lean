import Voce.Schema.ObjectValues

/-! # The memory represents the objects

Every array has one owner: an object, or the property that it is the value of. A call writes
only to arrays of one object, so the other objects show what they showed.
-/

namespace Voce.Schema

open ArrayHeap PooledStore Function List Contents Reply Face

variable {Datum : Type}

/-- The bytes of a property are not an object's. -/
def Value.Stored (bytes : Heap (Option ObjectRef) UInt8) : Value Datum Slice → Prop
  | .bytes s => bytes.Valid none s
  | _ => True

theorem Value.Stored.follows {bytes after : Heap (Option ObjectRef) UInt8} {val : Value Datum Slice}
    (hval : val.Stored bytes) {p} (hfollows : bytes.Follows (some p) after) :
    val.Stored after ∧ val.resolve after = val.resolve bytes := by
  cases val with
  | bytes s =>
    exact ⟨Heap.Valid.follows hval hfollows,
      congrArg Value.bytes (Heap.Valid.read_of_follows hval hfollows (by simp))⟩
  | nil | datum => exact ⟨trivial, rfl⟩

theorem resolve_of_follows {bytes after : Heap (Option ObjectRef) UInt8}
    {values : List (Entry Datum Slice)} (hvalues : ∀ e ∈ values, e.val.Stored bytes) {p}
    (hfollows : bytes.Follows (some p) after) :
    values.map (Entry.resolve after) = values.map (Entry.resolve bytes) := by
  apply map_congr_left
  intro e he
  rw [Entry.resolve, Entry.resolve, ((hvalues e he).follows hfollows).2]

namespace Memory

/-- The arrays of an object are its own, and its properties have theirs. -/
structure Owns (m : Memory Datum) (p : ObjectRef) (o : SchemaObject Slice Slice) : Prop where
  entries : m.entries.Valid p o.entries
  buffer : m.bytes.Valid (some p) o.buffer
  backed : o.buffer.array ≠ none → 0 < m.bytes.cap o.buffer
  values : ∀ e ∈ m.entries.read o.entries, e.val.Stored m.bytes

def Sound (m : Memory Datum) : Prop := ∀ p, m.Owns p (m.object p)

/-- No array but those of the given object is written to. -/
structure Writes (p : ObjectRef) (m after : Memory Datum) : Prop where
  entries : m.entries.Follows p after.entries
  bytes : m.bytes.Follows (some p) after.bytes

variable {m after : Memory Datum} {p q : ObjectRef} {o : SchemaObject Slice Slice}

theorem Owns.of_writes (hq : m.Owns q o) (hwrites : Writes p m after) (hne : q ≠ p) :
    after.Owns q o where
  entries := hq.entries.follows hwrites.entries
  buffer := hq.buffer.follows hwrites.bytes
  backed := by
    rw [hq.buffer.cap_of_follows hwrites.bytes]
    exact hq.backed
  values := by
    rw [hq.entries.read_of_follows hwrites.entries hne]
    exact fun e he => ((hq.values e he).follows hwrites.bytes).1

theorem Owns.present_of_writes (hq : m.Owns q o) (hwrites : Writes p m after) (hne : q ≠ p) :
    after.present o = m.present o := by
  have hother : some q ≠ some p := fun heq => hne (Option.some.inj heq)
  rw [present, present, hq.entries.contents_of_follows hwrites.entries hne,
    hq.buffer.contents_of_follows hwrites.bytes hother, Contents.map, Contents.map, Heap.contents,
    resolve_of_follows hq.values hwrites.bytes]

def objects (m : Memory Datum) : Objects Datum := ⟨m.face, m.allocated, m.pooled⟩

end Memory

/-- The objects of the memory show the values. -/
structure Represents (m : Memory Datum) (v : Objects Datum) : Prop where
  sound : m.Sound
  objects : m.objects = v

/-- A result of a call, with what it is of the values. -/
def RepresentsWith {α : Type} (r : Memory Datum × α) (w : Objects Datum × α) : Prop :=
  Represents r.1 w.1 ∧ r.2 = w.2

namespace Represents

open Memory

variable {m after : Memory Datum} {v : Objects Datum} {p : ObjectRef}

theorem of_sound (hm : m.Sound) : Represents m m.objects := ⟨hm, rfl⟩

section

variable (h : Represents m v)
include h

theorem face : m.face = v.face := congrArg Store.face h.objects

/-- A call that writes to one object gives it a new value. -/
theorem update {o} (hwrites : Writes p m after)
    (hobject : after.object = update m.object p o) (howns : after.Owns p o) :
    after.Sound ∧ after.face = update v.face p (after.present o) := by
  rw [← h.face]
  refine ⟨fun q => ?_, funext fun q => ?_⟩
  · rw [hobject]
    by_cases hne : q = p
    · subst hne
      rwa [update_self]
    · rw [update_of_ne hne]
      exact (h.sound q).of_writes hwrites hne
  · rw [Memory.face, hobject]
    by_cases hne : q = p
    · subst hne
      rw [update_self, update_self]
    · rw [update_of_ne hne, update_of_ne hne]
      exact (h.sound q).present_of_writes hwrites hne

theorem of_update {o} (hface : after.Sound ∧ after.face = Function.update v.face p o)
    (hallocated : after.allocated = m.allocated) (hpooled : after.pooled = m.pooled) :
    Represents after (v.update p o) := by
  obtain rfl := h.objects
  refine ⟨hface.1, ?_⟩
  rw [Memory.objects, hface.2, hallocated, hpooled]
  rfl

/-- A write to fields that are not slices. -/
theorem modify (p : ObjectRef)
    (change : ∀ {Entries Buffer : Type}, SchemaObject Entries Buffer → SchemaObject Entries Buffer)
    (hentries : (change (m.object p)).entries = (m.object p).entries)
    (hbuffer : (change (m.object p)).buffer = (m.object p).buffer)
    (hface : m.present (change (m.object p)) = change (m.present (m.object p))) :
    Represents (m.modify p change) (v.modify p change) := by
  have hp := h.sound p
  have howns : m.Owns p (change (m.object p)) :=
    ⟨hentries ▸ hp.entries, hbuffer ▸ hp.buffer, hbuffer ▸ hp.backed, hentries ▸ hp.values⟩
  have hwrites : Writes p m (m.modify p change) := ⟨.refl _ _, .refl _ _⟩
  have hupdate := h.of_update (h.update hwrites rfl ⟨howns.1, howns.2, howns.3, howns.4⟩) rfl rfl
  obtain rfl := h.objects
  rw [Store.modify]
  exact hface ▸ hupdate

/-- A new slice for the entries of an object. -/
theorem storeEntries (p : ObjectRef) {result} (hfollows : m.entries.Follows p result.1)
    (hvalid : result.1.Valid p result.2)
    (hvalues : ∀ e ∈ result.1.read result.2, e.val.Stored m.bytes) {entries}
    (hcontents : (result.1.contents result.2).map (Entry.resolve m.bytes) = entries) :
    Represents (m.storeEntries p result) (v.modify p fun o => { o with entries := entries }) := by
  have hp := h.sound p
  have hwrites : Writes p m (m.storeEntries p result) := ⟨hfollows, .refl _ _⟩
  have hupdate :=
    h.of_update (h.update hwrites rfl ⟨hvalid, hp.buffer, hp.backed, hvalues⟩) rfl rfl
  obtain rfl := h.objects
  subst hcontents
  exact hupdate

/-- A new slice for the buffer of an object. -/
theorem storeBuffer (p : ObjectRef) {result} (hfollows : m.bytes.Follows (some p) result.1)
    (hvalid : result.1.Valid (some p) result.2)
    (hbacked : result.2.array ≠ none → 0 < result.1.cap result.2) {buffer}
    (hcontents : result.1.contents result.2 = buffer) :
    Represents (m.storeBuffer p result) (v.modify p fun o => { o with buffer := buffer }) := by
  have hp := h.sound p
  have hwrites : Writes p m (m.storeBuffer p result) := ⟨.refl _ _, hfollows⟩
  have hupdate := h.of_update (h.update hwrites rfl ⟨hp.entries, hvalid, hbacked,
    fun e he => ((hp.values e he).follows hfollows).1⟩) rfl rfl
  have hface : (m.storeBuffer p result).present { m.object p with buffer := result.2 } =
      { m.present (m.object p) with buffer := result.1.contents result.2 } := by
    simp only [present, Memory.storeBuffer, Contents.map, Heap.contents,
      resolve_of_follows hp.values hfollows]
  obtain rfl := h.objects
  subst hcontents
  rw [hface] at hupdate
  exact hupdate

/-! ## Properties -/

/-- The bytes of a property are new, so that no object sees them. -/
theorem alloc_bytes (bs : List UInt8) :
    Represents { m with bytes := (m.bytes.alloc none bs bs.length).1 } v := by
  have hwrites (p : ObjectRef) :
      Writes p m { m with bytes := (m.bytes.alloc none bs bs.length).1 } :=
    ⟨.refl _ _, m.bytes.follows_alloc (some p) none bs bs.length⟩
  have hne (p : ObjectRef) : p ≠ p + 1 := Nat.ne_of_lt (Nat.lt_succ_self p)
  obtain rfl := h.objects
  refine ⟨fun p => (h.sound p).of_writes (hwrites (p + 1)) (hne p), ?_⟩
  rw [Memory.objects, Memory.objects, Store.mk.injEq]
  refine ⟨funext fun p => ?_, rfl, rfl⟩
  exact (h.sound p).present_of_writes (hwrites (p + 1)) (hne p)

theorem snapshot (input : Input Datum) :
    (∃ message, Memory.snapshot m.bytes input = .error message ∧ input.stored = .error message) ∨
    ∃ bytes val, Memory.snapshot m.bytes input = .ok (bytes, val) ∧
      input.stored = .ok (val.resolve bytes) ∧ val.Stored bytes ∧
      Represents { m with bytes := bytes } v := by
  have hbytes (bs : List UInt8) (hsnapshot : Memory.snapshot m.bytes input =
      .ok ((m.bytes.alloc none bs bs.length).1, .bytes (m.bytes.alloc none bs bs.length).2))
      (hstored : input.stored = .ok (.bytes bs)) :
      ∃ bytes val, Memory.snapshot m.bytes input = .ok (bytes, val) ∧
        input.stored = .ok (val.resolve bytes) ∧ val.Stored bytes ∧
        Represents { m with bytes := bytes } v := by
    refine ⟨_, _, hsnapshot, ?_, m.bytes.alloc_valid none (Nat.le_refl _), h.alloc_bytes bs⟩
    rw [hstored, Value.resolve, Heap.read_alloc, take_length]
  match input with
  | .datum d => exact .inr ⟨m.bytes, .datum d, rfl, rfl, trivial, h⟩
  | .bytes bs => exact .inr (hbytes bs rfl rfl)
  | .other (.error message) => exact .inl ⟨message, rfl, rfl⟩
  | .other (.ok json) => exact .inr (hbytes json rfl rfl)

/-- A call that leaves its object. -/
theorem stay {α : Type} (p : ObjectRef) (result : α) :
    RepresentsWith (m, result) (v.update p (v.face p), result) :=
  ⟨by rwa [Store.update_face], rfl⟩

variable (grow : Nat → Nat)

theorem set (p : ObjectRef) (key : String) (input : Input Datum) :
    RepresentsWith (m.set grow p key input)
      (v.update p ((v.face p).set grow key input).1, ((v.face p).set grow key input).2) := by
  have hreadonly : (m.object p).readonly = (v.face p).readonly := by
    rw [← h.face]
    rfl
  unfold Memory.set Face.set
  rw [hreadonly]
  split
  · exact h.stay p _
  · obtain ⟨message, hsnapshot, hstored⟩ | ⟨bytes, val, hsnapshot, hstored, hval, hbytes⟩ :=
      h.snapshot input
    · rw [hsnapshot, hstored]
      exact h.stay p _
    · rw [hsnapshot, hstored]
      refine ⟨?_, rfl⟩
      have hp := hbytes.sound p
      obtain ⟨hfollows, hvalid⟩ := hp.entries.append grow ⟨"", .nil⟩ ⟨key, val⟩
      apply hbytes.storeEntries p hfollows hvalid
      · rw [hp.entries.read_append]
        intro e he
        obtain he | rfl := (mem_append.mp he).imp_right mem_singleton.mp
        · exact hp.values e he
        · exact hval
      · rw [hp.entries.contents_append, Contents.map_append, ← hbytes.face]
        rfl

theorem setAll {Field : Type} (key : Field → String) (wrap) (p : ObjectRef)
    (fields : List (Field × Input Datum)) :
    RepresentsWith (m.setAll grow key wrap p fields)
      (v.update p ((v.face p).setAll grow key wrap fields).1,
        ((v.face p).setAll grow key wrap fields).2) := by
  induction fields generalizing m v with
  | nil => exact h.stay p none
  | cons field rest ih =>
    obtain ⟨field, input⟩ := field
    obtain ⟨hset, herr⟩ := h.set grow p (key field) input
    simp only [Memory.setAll, Face.setAll]
    generalize m.set grow p (key field) input = result at hset herr ⊢
    generalize (v.face p).set grow (key field) input = valued at hset herr ⊢
    obtain ⟨m', err⟩ := result
    obtain ⟨o', err'⟩ := valued
    cases herr
    cases err with
    | some err => exact ⟨hset, rfl⟩
    | none => simpa using ih hset

theorem copyTo (src dst : ObjectRef) : Represents (m.copyTo src dst) (v.copyTo src dst) := by
  have hdst := (h.sound dst).entries
  obtain ⟨hfollows, hvalid⟩ := hdst.assign (m.entries.read (m.object src).entries)
  apply h.storeEntries dst hfollows hvalid
  · rw [hdst.read_assign]
    exact (h.sound src).values
  · rw [hdst.contents_assign, map_assign, ← h.face]
    rfl

/-! ## Buffers and fields -/

theorem setBuffer (p : ObjectRef) (bs : List UInt8) :
    Represents (m.storeBuffer p (m.bytes.assign (some p) (m.object p).buffer bs))
      (v.setBuffer p bs) := by
  have hp := (h.sound p).buffer
  obtain ⟨hfollows, hvalid⟩ := hp.assign bs
  apply h.storeBuffer p hfollows hvalid
  · rw [hp.cap_assign]
    unfold Heap.assign
    split
    · exact fun _ => by omega
    · intro hsome
      have hpos := (h.sound p).backed hsome
      omega
  · rw [hp.contents_assign, ← h.face]
    rfl

/-- The buffer of one object copied to another's. -/
theorem copyBuffer (src dst : ObjectRef) :
    Represents (m.setData dst (m.bytes.read (m.object src).buffer))
      (v.setBuffer dst (v.face src).buffer.values) := by
  rw [← h.face]
  exact h.setBuffer dst _

/-- `checkReadOnly` before a write to the object. -/
theorem checkReadOnly {written o} (hwritten : Represents written (v.update p o))
    (message : String) :
    RepresentsWith (m.checkReadOnly p message written)
      (v.update p ((v.face p).write message o).1, ((v.face p).write message o).2) := by
  have hreadonly : (m.object p).readonly = (v.face p).readonly := by
    rw [← h.face]
    rfl
  unfold Memory.checkReadOnly write
  rw [hreadonly]
  split
  · exact h.stay p _
  · exact ⟨hwritten, rfl⟩

omit h in
/-- The three copies of `SetYUV` make one. -/
theorem setYUV_eq (m : Memory Datum) (p : ObjectRef) (y u w : List UInt8) :
    m.setYUV p y u w = m.checkReadOnly p "schema: call SetYUV on readonly video"
      (m.storeBuffer p (m.bytes.assign (some p) (m.object p).buffer (y ++ u ++ w))) := by
  have hlength : y.length + u.length + w.length = (y ++ u ++ w).length := by
    simp only [length_append]
  rw [← Heap.write_resize _ _ _ 0, ← hlength, ← Heap.write_append _ _ (Nat.zero_le _) (y ++ u) w,
    ← Heap.write_append _ _ (Nat.zero_le _) y u]
  simp only [Memory.setYUV, Nat.zero_add, length_append]

/-! ## Recycling -/

theorem recycleEntries (p : ObjectRef) : Represents (m.recycleEntries p)
      (v.modify p fun o => { o with entries := o.recycleEntries }) := by
  have hp := (h.sound p).entries
  have hcap : (v.face p).entries.cap = m.entries.cap (m.object p).entries := by
    rw [← h.face]
    rfl
  rw [Store.modify, Face.recycleEntries, hcap]
  dsimp only [Memory.recycleEntries]
  split
  · apply h.storeEntries p (m.entries.follows_alloc p p [] 0)
      (m.entries.alloc_valid p (Nat.le_refl _))
    · exact fun e he => absurd he not_mem_nil
    · exact congrArg (Contents.map _) (m.entries.contents_alloc p [])
  · apply h.storeEntries p (.refl _ _) (hp.cut (Nat.zero_le _))
    · exact fun e he => absurd he not_mem_nil
    · rw [← h.face]
      rfl

theorem clearBuffer (p : ObjectRef) :
    Represents (m.storeBuffer p (m.bytes, { (m.object p).buffer with length := 0 }))
      (v.modify p fun o => { o with buffer := o.buffer.clear }) := by
  have hp := h.sound p
  apply h.storeBuffer p (.refl _ _) (hp.buffer.cut (Nat.zero_le _)) hp.backed
  rw [← h.face]
  rfl

theorem recycleBuffer (p : ObjectRef) : Represents
      (m.storeBuffer p (m.bytes, if m.bytes.cap (m.object p).buffer > audioRecycleCap then .nil
        else { (m.object p).buffer with length := 0 }))
      (v.modify p fun o =>
        { o with
          buffer := if o.buffer.cap > audioRecycleCap then .nil else o.buffer.clear }) := by
  have hcap : (v.face p).buffer.cap = m.bytes.cap (m.object p).buffer := by
    rw [← h.face]
    rfl
  rw [Store.modify, hcap]
  split
  · exact h.storeBuffer p (.refl _ _) (m.bytes.nil_valid _) (absurd rfl) rfl
  · exact h.clearBuffer p

theorem recycleAudio (p : ObjectRef) :
    Represents (m.recycleAudio p) (v.modify p recycleAudio) := by
  have hfields := ((h.recycleEntries p).recycleBuffer p).modify p
    (fun o => { o with readonly := false, name := "", sampleRate := 0, channels := 0,
                       duration := 0, count := 0 }) rfl rfl rfl
  simp only [Store.modify, Store.face_update, Store.update_update] at hfields
  exact hfields

theorem recycleVideo (p : ObjectRef) :
    Represents (m.recycleVideo p) (v.modify p recycleVideo) := by
  have hfields := ((h.recycleEntries p).clearBuffer p).modify p
    (fun o => { o with readonly := false, name := "", height := 0, width := 0, count := 0,
                       duration := 0 }) rfl rfl rfl
  simp only [Store.modify, Store.face_update, Store.update_update] at hfields
  exact hfields

theorem pool (change : List (PoolKind × ObjectRef) → List (PoolKind × ObjectRef)) :
    Represents { m with pooled := change m.pooled } { v with pooled := change v.pooled } := by
  obtain rfl := h.objects
  exact ⟨fun p => ⟨(h.sound p).1, (h.sound p).2, (h.sound p).3, (h.sound p).4⟩, rfl⟩

theorem putBack (p : ObjectRef) : Represents (m.putBack p) (v.putBack p) := by
  have hvideo := (h.recycleVideo p).pool
    ((videoPool (m.object p).height (m.object p).width, p) :: ·)
  have haudio := (h.recycleAudio p).pool ((PoolKind.audio, p) :: ·)
  obtain rfl := h.objects
  dsimp only [Memory.putBack, Objects.putBack, Store.modify, recycle, pool,
    Memory.objects, Memory.face, present] at hvideo haudio ⊢
  cases hkind : (m.object p).kind with
  | video =>
    rw [hkind] at hvideo
    exact hvideo
  | _ =>
    rw [hkind] at haudio
    exact haudio

theorem release (p : ObjectRef) : Represents (m.release p) (v.release p) := by
  have hcounted := h.modify p (fun o => { o with count := o.count - 1 }) rfl rfl rfl
  have hcount := congrArg SchemaObject.count (congrFun hcounted.face p)
  dsimp only [Memory.face, Memory.present] at hcount
  dsimp only [Memory.release, Objects.release]
  rw [hcount]
  split
  · exact hcounted
  · exact hcounted.putBack p

/-! ## New objects -/

theorem make (kind : ObjectKind) (name : String) {values : List (Entry Datum Slice)}
    (hvalues : ∀ e ∈ values, e.val.Stored m.bytes) {result}
    (hfollows : m.bytes.Follows (some m.allocated) result.1)
    (hvalid : result.1.Valid (some m.allocated) result.2)
    (hbacked : result.2.array ≠ none → 0 < result.1.cap result.2) {buffer}
    (hbuffer : result.1.contents result.2 = buffer) :
    RepresentsWith (m.make kind name values result)
      (v.make (.made kind name (values.map (Entry.resolve m.bytes)) buffer)) := by
  have hcontents := m.entries.contents_alloc m.allocated values
  have hread : Contents.values _ = values := congrArg Contents.values hcontents
  have hentries := m.entries.alloc_valid m.allocated (Nat.le_refl values.length)
  have hwrites : Writes m.allocated m (m.make kind name values result).1 :=
    ⟨m.entries.follows_alloc m.allocated m.allocated values values.length, hfollows⟩
  have hstored (e : Entry Datum Slice) (he : e ∈ values) : e.val.Stored result.1 :=
    ((hvalues e he).follows hfollows).1
  rw [← hread] at hstored
  obtain ⟨hsound, hface⟩ := h.update hwrites rfl ⟨hentries, hvalid, hbacked, hstored⟩
  obtain rfl := h.objects
  subst hbuffer
  refine ⟨⟨hsound, ?_⟩, rfl⟩
  rw [Memory.objects, hface, present, Face.made, ← resolve_of_follows hvalues hfollows,
    ← map_exact, ← hcontents]
  rfl

/-- An object without a buffer. -/
theorem make_nil (kind : ObjectKind) (name : String) {values}
    (hvalues : ∀ e ∈ values, e.val.Stored m.bytes) :
    RepresentsWith (m.make kind name values (m.bytes, .nil))
      (v.make (.made kind name (values.map (Entry.resolve m.bytes)) .nil)) :=
  h.make kind name hvalues (.refl _ _) (m.bytes.nil_valid _) (absurd rfl) rfl

theorem makeVideo {size} (hsize : 0 < size) : RepresentsWith (m.makeVideo size)
      (v.make (.made .video "" [] (.exact (replicate size 0)))) := by
  have hlength : (replicate size (0 : UInt8)).length = size := length_replicate
  have hcontents := m.bytes.contents_alloc (some m.allocated) (replicate size 0)
  have hvalid := m.bytes.alloc_valid (some m.allocated) (Nat.le_of_eq hlength.symm)
  rw [hlength] at hcontents
  have hcap := (congrArg cap hcontents).trans hlength
  exact h.make .video "" (fun e he => absurd he not_mem_nil)
    (m.bytes.follows_alloc _ _ _ size) hvalid (fun _ => Nat.lt_of_lt_of_eq hsize hcap.symm)
    hcontents

theorem factory (pool : PoolKind) : RepresentsWith (m.factory pool) (v.make (.factory pool)) := by
  cases pool with
  | audio => exact h.make_nil .audio "" (fun e he => absurd he not_mem_nil)
  | _ => exact h.makeVideo (by decide)

theorem acquire (pool : PoolKind) (choice : Option ObjectRef) :
    RepresentsWith (m.acquire pool choice) (v.acquire pool choice) := by
  have hfactory := h.factory pool
  have hpool := fun p => h.pool (List.erase · (pool, p))
  obtain rfl := h.objects
  exact acquire_related choice RepresentsWith (fun p _ => ⟨hpool p, rfl⟩) hfactory

theorem newAudio (choice : Option ObjectRef) (name : String) (sampleRate channels : Int64) :
    RepresentsWith (m.newAudio choice name sampleRate channels)
      (v.newAudio choice name sampleRate channels) := by
  obtain ⟨hacquired, hsame⟩ := h.acquire .audio choice
  refine ⟨?_, hsame⟩
  dsimp only [Memory.newAudio, Objects.newAudio]
  rw [← hsame]
  exact hacquired.modify _ (fun o =>
    { o with name := name, sampleRate := sampleRate, channels := channels, count := 1 })
    rfl rfl rfl

theorem newVideo (choice : Option ObjectRef) (name : String) (height width duration : Int64) :
    RepresentsWith (m.newVideo choice name height width duration)
      (v.newVideo choice name height width duration) := by
  obtain ⟨hacquired, hsame⟩ := h.acquire (videoPool height width) choice
  refine ⟨?_, hsame⟩
  dsimp only [Memory.newVideo, Objects.newVideo]
  rw [← hsame]
  exact hacquired.modify _ (fun o =>
    { o with name := name, height := height, width := width, duration := duration, count := 1 })
    rfl rfl rfl

theorem mutableAudio (p : ObjectRef) (choice : Option ObjectRef) :
    RepresentsWith (m.mutableAudio p choice) (v.mutableAudio p choice) := by
  obtain ⟨hmade, hsame⟩ :=
    h.newAudio choice (m.object p).name (m.object p).sampleRate (m.object p).channels
  obtain rfl := h.objects
  dsimp only [Memory.mutableAudio, Objects.mutableAudio, Memory.objects, Memory.face, present]
    at hmade hsame ⊢
  rw [← hsame]
  generalize (m.newAudio choice _ _ _).2 = q
  have hcopied := hmade.copyTo p q
  have hreadonly := congrArg SchemaObject.readonly (congrFun hcopied.face q)
  dsimp only [Memory.face, present] at hreadonly
  rw [Memory.setBytes, Memory.checkReadOnly, Objects.copyAudio, ← hreadonly]
  cases (Memory.object _ q).readonly with
  | true => exact ⟨hcopied, rfl⟩
  | false =>
    exact ⟨(hcopied.copyBuffer p q).modify q
      (fun o => { o with duration := (m.object p).duration }) rfl rfl rfl, rfl⟩

theorem mutableVideo (p : ObjectRef) (choice : Option ObjectRef) :
    RepresentsWith (m.mutableVideo p choice) (v.mutableVideo p choice) := by
  obtain ⟨hmade, hsame⟩ := h.acquire (videoPool (m.object p).height (m.object p).width) choice
  obtain rfl := h.objects
  dsimp only [Memory.mutableVideo, Objects.mutableVideo, Memory.objects, Memory.face, present]
    at hmade hsame ⊢
  rw [← hsame]
  generalize (m.acquire _ choice).2 = q
  have hfields := hmade.modify q (fun o =>
    { o with name := (m.object p).name, height := (m.object p).height,
             width := (m.object p).width, duration := (m.object p).duration }) rfl rfl rfl
  exact ⟨((hfields.copyTo p q).copyBuffer p q).modify q (fun o => { o with count := 1 })
    rfl rfl rfl, rfl⟩

omit h in
/-- A reply made of the result. -/
theorem reply {α β : Type} {r : Memory Datum × α} {w : Objects Datum × α}
    (h : RepresentsWith r w) (f : α → β) : RepresentsWith (r.1, f r.2) (w.1, f w.2) :=
  ⟨h.1, congrArg f h.2⟩

theorem mutable (p : ObjectRef) (choice : Option ObjectRef) :
    RepresentsWith (m.mutable p choice) (v.mutable p choice) := by
  have hclone := h.make_nil (m.object p).kind (m.object p).name (h.sound p).values
  have haudio := h.mutableAudio p choice
  have hvideo := h.mutableVideo p choice
  have hstay : RepresentsWith (m, (object p : Reply Datum)) (v, object p) := ⟨h, rfl⟩
  obtain rfl := h.objects
  unfold Memory.mutable Objects.mutable
  dsimp only [Memory.objects, Memory.face, present, Memory.clone] at *
  split
  · cases hkind : (m.object p).kind with
    | audio => exact haudio
    | video => exact reply hvideo object
    | payload | signal =>
      rw [hkind] at hclone
      exact reply hclone object
  · exact hstay

/-! ## Calls -/

theorem setDuration (p : ObjectRef) (d : Int64) : RepresentsWith (m.setDuration p d)
      (v.update p ((v.face p).method grow (.setDuration p d)).1,
        ((v.face p).method grow (.setDuration p d)).2) := by
  have hkind : (m.object p).kind = (v.face p).kind := by
    rw [← h.face]
    rfl
  rw [Memory.setDuration, hkind]
  exact h.checkReadOnly (h.modify p (fun o => { o with duration := d }) rfl rfl rfl) _

/-- A call does to the memory what it does to the values. -/
theorem perform (c : Call Datum) : RepresentsWith (m.perform grow c) (v.perform grow c) := by
  match c with
  | .newAudio choice name sampleRate channels =>
    exact reply (h.newAudio choice name sampleRate channels) object
  | .newVideo choice name height width duration =>
    exact reply (h.newVideo choice name height width duration) object
  | .newPayload name =>
    exact reply (h.make_nil .payload name fun e he => absurd he not_mem_nil) object
  | .newSignal name =>
    exact reply (h.make_nil .signal name fun e he => absurd he not_mem_nil) object
  | .set p key input => exact reply (h.set grow p key input) ofError
  | .pack p .nilPointer | .pack p (.kind _) | .unmarshalJSON p (.error _) => exact h.stay p _
  | .pack p (.struct fields) => exact reply (h.setAll grow _ _ p fields) ofError
  | .unmarshalJSON p (.ok members) => exact reply (h.setAll grow _ _ p members) ofError
  | .setBytes p bs => exact h.checkReadOnly (h.setBuffer p bs) _
  | .setYUV p y u w =>
    change RepresentsWith (m.setYUV p y u w) _
    rw [setYUV_eq]
    exact h.checkReadOnly (h.setBuffer p (y ++ u ++ w)) _
  | .setDuration p d => exact h.setDuration grow p d
  | .setSampleRate p sr =>
    exact h.checkReadOnly (h.modify p (fun o => { o with sampleRate := sr }) rfl rfl rfl) _
  | .setChannels p c =>
    exact h.checkReadOnly (h.modify p (fun o => { o with channels := c }) rfl rfl rfl) _
  | .readOnly p => exact ⟨h.modify p (fun o => { o with readonly := true }) rfl rfl rfl, rfl⟩
  | .mutable p choice => exact h.mutable p choice
  | .retain p => exact ⟨h.modify p (fun o => { o with count := o.count + 1 }) rfl rfl rfl, rfl⟩
  | .release p => exact ⟨h.release p, rfl⟩
  | .read p query =>
    obtain rfl := h.objects
    exact h.stay p _
  | .collect pool p => exact ⟨h.pool (List.erase · (pool, p)), rfl⟩

theorem accepts (c : Call Datum) : m.accepts c = v.accepts c := by
  obtain rfl := h.objects
  rfl

theorem step (c : Call Datum) : RepresentsWith (m.step grow c) (v.step grow c) := by
  unfold Memory.step Objects.step
  rw [h.accepts c]
  split
  · exact h.perform grow c
  · exact ⟨h, rfl⟩

end

theorem empty_sound : (Memory.empty : Memory Datum).Sound := fun _ =>
  ⟨Heap.nil_valid _ _, Heap.nil_valid _ _, absurd rfl,
    fun _ he => absurd he not_mem_nil⟩

/-- No program can tell that arrays are shared. -/
theorem refines (grow) (calls : List (Call Datum)) (c) : RepresentsWith
    ((calls.foldl (fun m c => (m.step grow c).1) empty).step grow c)
    ((calls.foldl (fun v c => (v.step grow c).1) empty.objects).step grow c) :=
  step (foldl_rel (of_sound empty_sound) fun c _ _ _ h => (h.step grow c).1) grow c

end Represents

end Voce.Schema
