import Voce.Schema.Objects

/-! # Schema objects as values

What the objects are for: each is a value of its own, with no arrays that anything else could
reach. A call gives a new value to one object. Of the arrays only the capacities are kept,
which decide what is allocated. The memory is shown to represent these values call by call.
-/

namespace Voce.Schema

open ArrayHeap PooledStore List

variable {Datum : Type}

def Input.stored : Input Datum → Except String (Value Datum (List UInt8))
  | .datum d => .ok (.datum d)
  | .bytes bs => .ok (.bytes bs)
  | .other (.error message) => .error message
  | .other (.ok json) => .ok (.bytes json)

namespace Face

def set (grow : Nat → Nat) (o : Face Datum) (key : String) (input : Input Datum) :
    Face Datum × Option PropertyError :=
  if o.readonly then (o, some .readOnly)
  else
    match input.stored with
    | .error message => (o, some (.codec message))
    | .ok val => ({ o with entries := o.entries.append grow ⟨key, val⟩ }, none)

def setAll {Field : Type} (grow : Nat → Nat) (key : Field → String)
    (wrap : Field → PropertyError → PropertyError) (o : Face Datum) :
    List (Field × Input Datum) → Face Datum × Option PropertyError
  | [] => (o, none)
  | (field, input) :: rest =>
    match o.set grow (key field) input with
    | (o, some err) => (o, some (wrap field err))
    | (o, none) => setAll grow key wrap o rest

variable (o : Face Datum)

/-- A write is refused by a frozen object. -/
def write (message : String) (written : Face Datum) : Face Datum × Reply Datum :=
  if o.readonly then (o, .panicked message) else (written, .done)

/-- The methods that write to their object alone. -/
def method (grow : Nat → Nat) (o : Face Datum) : Call Datum → Face Datum × Reply Datum
  | .set _ key input => let result := o.set grow key input; (result.1, .ofError result.2)
  | .pack _ .nilPointer => (o, .failed .packNil)
  | .pack _ (.kind kind) => (o, .failed (.packKind kind))
  | .pack _ (.struct fields) =>
    let result := o.setAll grow Prod.snd (fun (name, key) => .packField name key) fields
    (result.1, .ofError result.2)
  | .unmarshalJSON _ (.error message) => (o, .failed (.codec message))
  | .unmarshalJSON _ (.ok members) =>
    let result := o.setAll grow id .property members
    (result.1, .ofError result.2)
  | .setBytes _ bs =>
    o.write "schema: call SetBytes on readonly audio" { o with buffer := o.buffer.assign bs }
  | .setYUV _ y u v =>
    o.write "schema: call SetYUV on readonly video"
      { o with buffer := o.buffer.assign (y ++ u ++ v) }
  | .setDuration _ d =>
    let message := match o.kind with
      | .video => "schema: call SetDuration on readonly video"
      | _ => "schema: call SetDuration on readonly audio"
    o.write message { o with duration := d }
  | .setSampleRate _ sr =>
    o.write "schema: call SetSampleRate on readonly audio" { o with sampleRate := sr }
  | .setChannels _ c =>
    o.write "schema: call SetChannels on readonly audio" { o with channels := c }
  | .readOnly p => ({ o with readonly := true }, .object p)
  | .retain _ => ({ o with count := o.count + 1 }, .done)
  | .read _ query => (o, .answer (o.answer query))
  | _ => (o, .done)

def recycleEntries : Contents (Entry Datum (List UInt8)) :=
  if o.entries.cap ≥ entriesRecycleCap then .nil else o.entries.clear

def recycleAudio : Face Datum :=
  { o with
    entries := o.recycleEntries
    buffer := if o.buffer.cap > audioRecycleCap then .nil else o.buffer.clear
    readonly := false, name := "", sampleRate := 0, channels := 0, duration := 0, count := 0 }

def recycleVideo : Face Datum :=
  { o with
    entries := o.recycleEntries, buffer := o.buffer.clear
    readonly := false, name := "", height := 0, width := 0, count := 0, duration := 0 }

/-- What a pool keeps of an object: the capacities. -/
def recycle : Face Datum :=
  match o.kind with
  | .video => o.recycleVideo
  | _ => o.recycleAudio

def pool : PoolKind :=
  match o.kind with
  | .video => videoPool o.height o.width
  | _ => .audio

def made (kind : ObjectKind) (name : String) (entries : List (Entry Datum (List UInt8)))
    (buffer : Contents UInt8) : Face Datum :=
  ⟨kind, .exact entries, false, name, buffer, 0, 0, 0, 0, 0, 0⟩

def factory : PoolKind → Face Datum
  | .audio => made .audio "" [] .nil
  | .sdVideo => made .video "" [] (.exact (replicate (sdVideoPixels * 3 / 2) 0))
  | .hdVideo => made .video "" [] (.exact (replicate (hdVideoPixels * 3 / 2) 0))
  | .fhdVideo => made .video "" [] (.exact (replicate (fhdVideoPixels * 3 / 2) 0))

end Face

abbrev Objects (Datum : Type) := PooledStore.Store PoolKind (Face Datum)

namespace Objects

abbrev acquire (v : Objects Datum) (pool : PoolKind) (choice : Option ObjectRef) :
    Objects Datum × ObjectRef :=
  Store.acquire v .factory pool choice

variable (v : Objects Datum)

def copyTo (src dst : ObjectRef) : Objects Datum :=
  v.modify dst fun q => { q with entries := q.entries.assign (v.face src).entries.values }

def setBuffer (p : ObjectRef) (bs : List UInt8) : Objects Datum :=
  v.modify p fun q => { q with buffer := q.buffer.assign bs }

def newAudio (choice : Option ObjectRef) (name : String)
    (sampleRate channels : Int64) : Objects Datum × ObjectRef :=
  let acquired := v.acquire .audio choice
  (acquired.1.modify acquired.2 fun o =>
    { o with name := name, sampleRate := sampleRate, channels := channels, count := 1 },
    acquired.2)

def newVideo (choice : Option ObjectRef) (name : String)
    (height width duration : Int64) : Objects Datum × ObjectRef :=
  let acquired := v.acquire (videoPool height width) choice
  (acquired.1.modify acquired.2 fun o =>
    { o with name := name, height := height, width := width, duration := duration, count := 1 },
    acquired.2)

def copyAudio (src dst : ObjectRef) (duration : Int64) : Objects Datum × Reply Datum :=
  let v := v.copyTo src dst
  if (v.face dst).readonly then (v, .panicked "schema: call SetBytes on readonly audio")
  else
    let v := v.setBuffer dst (v.face src).buffer.values
    (v.modify dst fun o => { o with duration := duration }, .object dst)

def mutableAudio (p : ObjectRef) (choice : Option ObjectRef) : Objects Datum × Reply Datum :=
  let o := v.face p
  let made := v.newAudio choice o.name o.sampleRate o.channels
  made.1.copyAudio p made.2 o.duration

def mutableVideo (p : ObjectRef) (choice : Option ObjectRef) : Objects Datum × ObjectRef :=
  let o := v.face p
  let made := v.acquire (videoPool o.height o.width) choice
  let v : Objects Datum := made.1.modify made.2 fun q =>
    { q with name := o.name, height := o.height, width := o.width, duration := o.duration }
  let v := v.copyTo p made.2
  let v := v.setBuffer made.2 (v.face p).buffer.values
  (v.modify made.2 fun q => { q with count := 1 }, made.2)

def copiedAudio (o q : Face Datum) : Face Datum :=
  { q with
    entries := q.entries.assign o.entries.values, buffer := q.buffer.assign o.buffer.values
    name := o.name, sampleRate := o.sampleRate, channels := o.channels, duration := o.duration
    count := 1 }

def copiedVideo (o q : Face Datum) : Face Datum :=
  { q with
    entries := q.entries.assign o.entries.values, buffer := q.buffer.assign o.buffer.values
    name := o.name, height := o.height, width := o.width, duration := o.duration, count := 1 }

variable {choice : Option ObjectRef} {p : ObjectRef}

theorem mutableAudio_eq (v : Objects Datum) (hne : p ≠ (v.acquire .audio choice).2)
    (hface : (v.acquire .audio choice).1.face p = v.face p)
    (hwritable : ((v.acquire .audio choice).1.face (v.acquire .audio choice).2).readonly = false) :
    v.mutableAudio p choice =
      ((v.acquire .audio choice).1.update (v.acquire .audio choice).2
        (copiedAudio (v.face p) ((v.acquire .audio choice).1.face (v.acquire .audio choice).2)),
        .object (v.acquire .audio choice).2) := by
  simp only [mutableAudio, newAudio, copyAudio, copyTo, setBuffer, Store.modify, Store.face_update,
    Store.update_update, Store.face_update_of_ne _ hne, hface, hwritable, copiedAudio]
  rfl

theorem mutableVideo_eq (v : Objects Datum) {pool}
    (hpool : pool = videoPool (v.face p).height (v.face p).width)
    (hne : p ≠ (v.acquire pool choice).2) (hface : (v.acquire pool choice).1.face p = v.face p) :
    v.mutableVideo p choice =
      ((v.acquire pool choice).1.update (v.acquire pool choice).2
        (copiedVideo (v.face p) ((v.acquire pool choice).1.face (v.acquire pool choice).2)),
        (v.acquire pool choice).2) := by
  subst hpool
  simp only [mutableVideo, copyTo, setBuffer, Store.modify, Store.face_update, Store.update_update,
    Store.face_update_of_ne _ hne, hface, copiedVideo]

def mutable (v : Objects Datum) (p : ObjectRef) (choice : Option ObjectRef) :
    Objects Datum × Reply Datum :=
  let o := v.face p
  if o.readonly then
    match o.kind with
    | .audio => v.mutableAudio p choice
    | .video =>
      let made := v.mutableVideo p choice
      (made.1, .object made.2)
    | kind =>
      let made := v.make (.made kind o.name o.entries.values .nil)
      (made.1, .object made.2)
  else (v, .object p)

variable {v : Objects Datum}

theorem mutable_of_writable (hwritable : (v.face p).readonly = false) :
    v.mutable p choice = (v, .object p) := by
  dsimp only [mutable]
  rw [hwritable]
  rfl

def putBack (v : Objects Datum) (p : ObjectRef) : Objects Datum :=
  let pool := (v.face p).pool
  let v := v.modify p Face.recycle
  { v with pooled := (pool, p) :: v.pooled }

def release (v : Objects Datum) (p : ObjectRef) : Objects Datum :=
  let v : Objects Datum := v.modify p fun o => { o with count := o.count - 1 }
  if (v.face p).count > 0 then v else v.putBack p

theorem release_of_more (hcount : (v.face p).count - 1 > 0) :
    v.release p = v.update p { v.face p with count := (v.face p).count - 1 } := by
  dsimp only [release]
  split
  · rfl
  next hlast =>
    rw [Store.modify, Store.face_update] at hlast
    exact absurd hcount hlast

theorem release_of_last (hcount : ¬ (v.face p).count - 1 > 0) : v.release p =
      { v.update p (v.face p).recycle with pooled := ((v.face p).pool, p) :: v.pooled } := by
  have hrecycle (o : Face Datum) : Face.recycle { o with count := o.count - 1 } = o.recycle := by
    obtain ⟨kind⟩ := o
    cases kind <;> rfl
  dsimp only [release]
  split
  next hmore =>
    rw [Store.modify, Store.face_update] at hmore
    exact absurd hmore hcount
  · dsimp only [putBack, Store.modify]
    rw [Store.face_update, Store.update_update, hrecycle]
    rfl

def perform (grow : Nat → Nat) (v : Objects Datum) : Call Datum → Objects Datum × Reply Datum
  | .newAudio choice name sampleRate channels =>
    let made := v.newAudio choice name sampleRate channels
    (made.1, .object made.2)
  | .newVideo choice name height width duration =>
    let made := v.newVideo choice name height width duration
    (made.1, .object made.2)
  | .newPayload name => let made := v.make (.made .payload name [] .nil); (made.1, .object made.2)
  | .newSignal name => let made := v.make (.made .signal name [] .nil); (made.1, .object made.2)
  | .mutable p choice => v.mutable p choice
  | .release p => (v.release p, .done)
  | .collect pool p => ({ v with pooled := v.pooled.erase (pool, p) }, .done)
  | c =>
    match c.target with
    | none => (v, .done)
    | some p =>
      let result := (v.face p).method grow c
      (v.update p result.1, result.2)

def accepts (v : Objects Datum) (c : Call Datum) : Bool :=
  match c.target with
  | none => true
  | some p => p < v.allocated && c.suits (v.face p).kind

def step (grow : Nat → Nat) (v : Objects Datum) (c : Call Datum) : Objects Datum × Reply Datum :=
  if v.accepts c then v.perform grow c else (v, .done)

end Objects

end Voce.Schema
