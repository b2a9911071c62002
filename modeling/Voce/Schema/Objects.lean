import Voce.Foundation.ArrayHeap
import Voce.Foundation.PooledStore

/-! # Schema objects in memory

The objects that nodes exchange: audio, video, payload and signal. Their properties are a
slice of entries, and audio and video have a slice of bytes. The arrays are used again by the
next content of an object, and the objects by the next use of the pool. A property with bytes
points to an array of its own, which every copy of the entry shares.
-/

namespace Voce.Schema

open ArrayHeap Function

inductive ObjectKind where
  | audio
  | video
  | payload
  | signal
  deriving DecidableEq

inductive PoolKind where
  | audio
  | sdVideo
  | hdVideo
  | fhdVideo
  deriving DecidableEq

def audioRecycleCap : Nat := 64 * 1024
def entriesRecycleCap : Nat := 256
def sdVideoPixels : Nat := 640 * 480
def hdVideoPixels : Nat := 1280 * 720
def fhdVideoPixels : Nat := 1920 * 1080

/-- The pool of the videos of a size, by `acquireVideo` and `releaseVideo`. -/
def videoPool (height width : Int64) : PoolKind :=
  let pixels := height * width
  if pixels ≤ .ofNat sdVideoPixels then .sdVideo
  else if pixels ≤ .ofNat hdVideoPixels then .hdVideo
  else .fhdVideo

abbrev ObjectRef := Nat

/-- `builtinAudio`, `builtinVideo`, `builtinPayload` and `builtinSignal`. A field that objects
of a kind do not have stays zero. The entries and the buffer are slices, or what these show. -/
structure SchemaObject (Entries Buffer : Type) where
  kind : ObjectKind
  entries : Entries
  readonly : Bool
  name : String
  /-- `buffer` of an audio, `data` of a video. -/
  buffer : Buffer
  height : Int64
  width : Int64
  sampleRate : Int64
  channels : Int64
  duration : Int64
  count : Int32

/-- A value as it is stored: an immutable one, or bytes. The value of a cell that was never
written is nil. -/
inductive Value (Datum Bytes : Type) where
  | nil
  | datum (d : Datum)
  | bytes (b : Bytes)
  deriving DecidableEq

structure Entry (Datum Bytes : Type) where
  key : String
  val : Value Datum Bytes
  deriving DecidableEq

/-- A value that is given to `Set`, by its dynamic type. -/
inductive Input (Datum : Type) where
  /-- A number, a boolean, a string, a time, a duration, or the text of a `strings.Builder`. -/
  | datum (d : Datum)
  /-- Bytes, or the bytes of a `bytes.Buffer`. -/
  | bytes (bs : List UInt8)
  /-- Any other value, with what `sonic.Marshal` makes of it. -/
  | other (json : Except String (List UInt8))

inductive PropertyError where
  | readOnly
  | codec (message : String)
  /-- `unmarshal property %s: %w`. -/
  | property (key : String) (err : PropertyError)
  /-- `schema: pack source is nil pointer`. -/
  | packNil
  /-- `schema: pack source must be a struct, got %s`. -/
  | packKind (kind : String)
  /-- `schema: pack field %q (key %q): %w`. -/
  | packField (name key : String) (err : PropertyError)

/-- What `reflectPack` finds in its source: for a struct the names, the keys and the values of the
fields that it does not omit. -/
inductive PackSource (Datum : Type) where
  | nilPointer
  | kind (kind : String)
  | struct (fields : List ((String × String) × Input Datum))

structure Memory (Datum : Type) where
  /-- Entry arrays. The owner is the object. -/
  entries : Heap ObjectRef (Entry Datum Slice)
  /-- Byte arrays. The owner is the object, or none if the bytes are a property. -/
  bytes : Heap (Option ObjectRef) UInt8
  object : ObjectRef → SchemaObject Slice Slice
  allocated : Nat
  pooled : List (PoolKind × ObjectRef)

inductive Answer (Datum : Type) where
  | values (vs : List (Option (Value Datum (List UInt8))))
  | keyNotFound
  | notSerializedBytes
  | unmarshals (bs : List UInt8)
  | marshals (members : List (Entry Datum (List UInt8)))
  | text (s : String)
  | number (n : Int64)
  | bytes (bs : Option (List UInt8))
  /-- A slice expression with bounds out of range. -/
  | outOfRange
  deriving DecidableEq

/-- What comes back from a call. -/
inductive Reply (Datum : Type) where
  | done
  | object (p : ObjectRef)
  | failed (err : PropertyError)
  | panicked (message : String)
  | answer (a : Answer Datum)

variable {Datum : Type}

def SchemaObject.zero : SchemaObject Slice Slice :=
  ⟨.signal, .nil, false, "", .nil, 0, 0, 0, 0, 0, 0⟩

namespace Memory

def empty : Memory Datum where
  entries := ⟨fun _ => [], fun _ => 0, 0⟩
  bytes := ⟨fun _ => [], fun _ => none, 0⟩
  object _ := .zero
  allocated := 0
  pooled := []

variable (m : Memory Datum) (p : ObjectRef)

def modify (change : SchemaObject Slice Slice → SchemaObject Slice Slice) : Memory Datum :=
  { m with object := update m.object p (change (m.object p)) }

def storeEntries (result : Heap ObjectRef (Entry Datum Slice) × Slice) : Memory Datum :=
  { m with
    entries := result.1
    object := update m.object p { m.object p with entries := result.2 } }

def storeBuffer (result : Heap (Option ObjectRef) UInt8 × Slice) : Memory Datum :=
  { m with
    bytes := result.1
    object := update m.object p { m.object p with buffer := result.2 } }

/-! ## Properties -/

def snapshot (bytes : Heap (Option ObjectRef) UInt8) :
    Input Datum → Except String (Heap (Option ObjectRef) UInt8 × Value Datum Slice)
  | .datum d => .ok (bytes, .datum d)
  | .bytes bs =>
    let cloned := bytes.alloc none bs bs.length
    .ok (cloned.1, .bytes cloned.2)
  | .other (.error message) => .error message
  | .other (.ok json) =>
    let marshalled := bytes.alloc none json json.length
    .ok (marshalled.1, .bytes marshalled.2)

def set (grow : Nat → Nat) (m : Memory Datum) (p : ObjectRef) (key : String)
    (input : Input Datum) : Memory Datum × Option PropertyError :=
  if (m.object p).readonly then (m, some .readOnly)
  else
    match snapshot m.bytes input with
    | .error message => (m, some (.codec message))
    | .ok (bytes, val) =>
      let appended := m.entries.append grow ⟨"", .nil⟩ p (m.object p).entries ⟨key, val⟩
      ({ m with bytes := bytes }.storeEntries p appended, none)

/-- Calls of `Set` up to the first that fails. -/
def setAll {Field : Type} (grow : Nat → Nat) (key : Field → String)
    (wrap : Field → PropertyError → PropertyError) (m : Memory Datum) (p : ObjectRef) :
    List (Field × Input Datum) → Memory Datum × Option PropertyError
  | [] => (m, none)
  | (field, input) :: rest =>
    match m.set grow p (key field) input with
    | (m, some err) => (m, some (wrap field err))
    | (m, none) => setAll grow key wrap m p rest

/-- `reflectPack`. A `Packer` makes its calls of `Set` itself. -/
def pack (grow : Nat → Nat) (m : Memory Datum) (p : ObjectRef) :
    PackSource Datum → Memory Datum × Option PropertyError
  | .nilPointer => (m, some .packNil)
  | .kind kind => (m, some (.packKind kind))
  | .struct fields => m.setAll grow Prod.snd (fun (name, key) => .packField name key) p fields

/-- `UnmarshalJSON`, with the members that `sonic.Unmarshal` finds, in the order of the map. -/
def unmarshalJSON (grow : Nat → Nat) (m : Memory Datum) (p : ObjectRef) :
    Except String (List (String × Input Datum)) → Memory Datum × Option PropertyError
  | .error message => (m, some (.codec message))
  | .ok members => m.setAll grow id .property p members

def copyTo (src dst : ObjectRef) : Memory Datum :=
  m.storeEntries dst
    (m.entries.assign dst (m.object dst).entries (m.entries.read (m.object src).entries))

def checkReadOnly (message : String) (written : Memory Datum) : Memory Datum × Reply Datum :=
  if (m.object p).readonly then (m, .panicked message) else (written, .done)

/-! ## Audio and video -/

def setBytes (bs : List UInt8) : Memory Datum × Reply Datum :=
  m.checkReadOnly p "schema: call SetBytes on readonly audio"
    (m.storeBuffer p (m.bytes.assign (some p) (m.object p).buffer bs))

def setData (src : List UInt8) : Memory Datum :=
  m.storeBuffer p (m.bytes.assign (some p) (m.object p).buffer src)

/-- `builtinVideo.SetYUV`: the three planes are copied one after the other. -/
def setYUV (y u v : List UInt8) : Memory Datum × Reply Datum :=
  let total := y.length + u.length + v.length
  let resized := m.bytes.resize (some p) (m.object p).buffer 0 total
  let bytes := resized.1.write resized.2 0 y
  let bytes := bytes.write resized.2 y.length u
  let bytes := bytes.write resized.2 (y.length + u.length) v
  m.checkReadOnly p "schema: call SetYUV on readonly video" (m.storeBuffer p (bytes, resized.2))

def setDuration (d : Int64) : Memory Datum × Reply Datum :=
  let message := match (m.object p).kind with
    | .video => "schema: call SetDuration on readonly video"
    | _ => "schema: call SetDuration on readonly audio"
  m.checkReadOnly p message (m.modify p fun o => { o with duration := d })

def setSampleRate (sr : Int64) : Memory Datum × Reply Datum :=
  m.checkReadOnly p "schema: call SetSampleRate on readonly audio"
    (m.modify p fun o => { o with sampleRate := sr })

def setChannels (c : Int64) : Memory Datum × Reply Datum :=
  m.checkReadOnly p "schema: call SetChannels on readonly audio"
    (m.modify p fun o => { o with channels := c })

def readOnly : Memory Datum :=
  m.modify p fun o => { o with readonly := true }

/-- `recycle` of the entries: a large array is given up. -/
def recycleEntries : Memory Datum :=
  let entries := (m.object p).entries
  if m.entries.cap entries ≥ entriesRecycleCap then m.storeEntries p (m.entries.alloc p [] 0)
  else m.storeEntries p (m.entries, { entries with length := 0 })

def recycleAudio : Memory Datum :=
  let m := m.recycleEntries p
  let buffer := (m.object p).buffer
  let m := m.storeBuffer p (m.bytes,
    if m.bytes.cap buffer > audioRecycleCap then .nil else { buffer with length := 0 })
  m.modify p fun o =>
    { o with readonly := false, name := "", sampleRate := 0, channels := 0, duration := 0,
             count := 0 }

def recycleVideo : Memory Datum :=
  let m := m.recycleEntries p
  let m := m.storeBuffer p (m.bytes, { (m.object p).buffer with length := 0 })
  m.modify p fun o =>
    { o with readonly := false, name := "", height := 0, width := 0, count := 0, duration := 0 }

def retain : Memory Datum :=
  m.modify p fun o => { o with count := o.count + 1 }

/-- `TypedPool.Release`: recycle the object and put it back, a video into the pool of its size
by `releaseVideo`. -/
def putBack : Memory Datum :=
  let o := m.object p
  match o.kind with
  | .video =>
    let m := m.recycleVideo p
    { m with pooled := (videoPool o.height o.width, p) :: m.pooled }
  | _ =>
    let m := m.recycleAudio p
    { m with pooled := (.audio, p) :: m.pooled }

def release : Memory Datum :=
  let m := m.modify p fun o => { o with count := o.count - 1 }
  if (m.object p).count > 0 then m else m.putBack p

/-! ## New objects -/

/-- A new object, with an entry array for exactly the given entries. -/
def make (kind : ObjectKind) (name : String)
    (values : List (Entry Datum Slice)) (buffer : Heap (Option ObjectRef) UInt8 × Slice) :
    Memory Datum × ObjectRef :=
  let entries := m.entries.alloc m.allocated values values.length
  let o := { SchemaObject.zero with
    kind := kind, name := name, entries := entries.2, buffer := buffer.2 }
  ({ m with
     entries := entries.1
     bytes := buffer.1
     object := update m.object m.allocated o
     allocated := m.allocated + 1 }, m.allocated)

/-- A video with `make([]byte, size)`. -/
def makeVideo (size : Nat) : Memory Datum × ObjectRef :=
  m.make .video "" [] (m.bytes.alloc (some m.allocated) (List.replicate size 0) size)

/-- What the factories of the pools make. -/
def factory : PoolKind → Memory Datum × ObjectRef
  | .audio => m.make .audio "" [] (m.bytes, .nil)
  | .sdVideo => m.makeVideo (sdVideoPixels * 3 / 2)
  | .hdVideo => m.makeVideo (hdVideoPixels * 3 / 2)
  | .fhdVideo => m.makeVideo (fhdVideoPixels * 3 / 2)

def acquire (pool : PoolKind) (choice : Option ObjectRef) : Memory Datum × ObjectRef :=
  PooledStore.acquire m.pooled (pool, ·) choice ({ m with pooled := · }) (m.factory pool)

/-- The pool drops an object that it has. -/
def collect (pool : PoolKind) (p : ObjectRef) : Memory Datum :=
  { m with pooled := m.pooled.erase (pool, p) }

variable (choice : Option ObjectRef) (name : String)

def newAudio (sampleRate channels : Int64) : Memory Datum × ObjectRef :=
  let acquired := m.acquire .audio choice
  (acquired.1.modify acquired.2 fun o =>
    { o with name := name, sampleRate := sampleRate, channels := channels, count := 1 },
    acquired.2)

def newVideo (height width duration : Int64) : Memory Datum × ObjectRef :=
  let acquired := m.acquire (videoPool height width) choice
  (acquired.1.modify acquired.2 fun o =>
    { o with name := name, height := height, width := width, duration := duration, count := 1 },
    acquired.2)

def newPayload : Memory Datum × ObjectRef :=
  m.make .payload name [] (m.bytes, .nil)

def newSignal : Memory Datum × ObjectRef :=
  m.make .signal name [] (m.bytes, .nil)

/-- A new payload or signal with a `Clone` of the properties. -/
def clone : Memory Datum × ObjectRef :=
  let o := m.object p
  m.make o.kind o.name (m.entries.read o.entries) (m.bytes, .nil)

def mutableAudio : Memory Datum × Reply Datum :=
  let o := m.object p
  let made := m.newAudio choice o.name o.sampleRate o.channels
  let m := made.1.copyTo p made.2
  match m.setBytes made.2 (m.bytes.read (m.object p).buffer) with
  | (m, .done) => (m.modify made.2 fun q => { q with duration := o.duration }, .object made.2)
  | refused => refused

def mutableVideo : Memory Datum × ObjectRef :=
  let o := m.object p
  let made := m.acquire (videoPool o.height o.width) choice
  let m := made.1.modify made.2 fun q =>
    { q with name := o.name, height := o.height, width := o.width, duration := o.duration }
  let m := m.copyTo p made.2
  let m := m.setData made.2 (m.bytes.read (m.object p).buffer)
  (m.modify made.2 fun q => { q with count := 1 }, made.2)

def mutable (choice : Option ObjectRef) : Memory Datum × Reply Datum :=
  if (m.object p).readonly then
    match (m.object p).kind with
    | .audio => m.mutableAudio p choice
    | .video =>
      let made := m.mutableVideo p choice
      (made.1, .object made.2)
    | _ =>
      let made := m.clone p
      (made.1, .object made.2)
  else (m, .object p)

/-! ## Reading -/

end Memory

abbrev Face (Datum : Type) :=
  SchemaObject (Contents (Entry Datum (List UInt8))) (Contents UInt8)

def Value.resolve (bytes : Heap (Option ObjectRef) UInt8) :
    Value Datum Slice → Value Datum (List UInt8)
  | .nil => .nil
  | .datum d => .datum d
  | .bytes s => .bytes (bytes.read s)

def Entry.resolve (bytes : Heap (Option ObjectRef) UInt8) (e : Entry Datum Slice) :
    Entry Datum (List UInt8) :=
  ⟨e.key, e.val.resolve bytes⟩

def Memory.present (m : Memory Datum) (o : SchemaObject Slice Slice) : Face Datum :=
  { o with
    entries := (m.entries.contents o.entries).map (Entry.resolve m.bytes)
    buffer := m.bytes.contents o.buffer }

def Memory.face (m : Memory Datum) (p : ObjectRef) : Face Datum := m.present (m.object p)

/-- The calls that do not change the object. -/
inductive Query where
  | get (key : String)
  | bind (key : String)
  | unpack (keys : List String)
  | marshalJSON
  | name
  | duration
  | bytes
  | sampleRate
  | channels
  | height
  | width
  | yBytes
  | uBytes
  | vBytes

namespace Face

variable (o : Face Datum)

/-- `Get`: the last entry with the key. -/
def get (key : String) : Option (Value Datum (List UInt8)) :=
  (o.entries.values.reverse.find? (·.key = key)).map Entry.val

def bind (key : String) : Answer Datum :=
  match o.get key with
  | none => .keyNotFound
  | some (.bytes bs) => .unmarshals bs
  | some _ => .notSerializedBytes

/-- A slice is nil if it has no array. An array of a buffer is never empty. -/
def slice (c : Contents UInt8) (bs : List UInt8) : Answer Datum :=
  .bytes (if c.cap = 0 then none else some bs)

/-- `data[low:high]`. Where it is evaluated the end does not exceed the length. -/
def subslice (c : Contents UInt8) (low high : Int64) : Answer Datum :=
  if 0 ≤ low ∧ low ≤ high ∧ high.toInt ≤ c.values.length then
    slice c ((c.values.take high.toInt.toNat).drop low.toInt.toNat)
  else .outOfRange

/-- A plane of a video, nil if the data end before it. -/
def plane (low high : Int64) : Answer Datum :=
  if o.buffer.values.length < high.toInt then .bytes none else subslice o.buffer low high

def yBytes : Answer Datum :=
  let size := o.width * o.height
  o.plane 0 size

def uBytes : Answer Datum :=
  let pixels := o.width * o.height
  let size := pixels / 4
  o.plane pixels (pixels + size)

def vBytes : Answer Datum :=
  let pixels := o.width * o.height
  let size := pixels / 4
  o.plane (pixels + size) (pixels + size * 2)

end Face

/-- The last entry of each key, from the end: the loop of `MarshalJSON`. -/
def lastEntries {Bytes : Type} (entries : List (Entry Datum Bytes)) :
    List (Entry Datum Bytes) :=
  entries.reverse.foldl
    (fun members e => if members.any (·.key = e.key) then members else members ++ [e]) []

def Face.answer (o : Face Datum) : Query → Answer Datum
  | .get key => .values [o.get key]
  | .bind key => o.bind key
  | .unpack keys => .values (keys.map o.get)
  | .marshalJSON => .marshals (lastEntries o.entries.values)
  | .name => .text o.name
  | .duration => .number o.duration
  | .bytes => slice o.buffer o.buffer.values
  | .sampleRate => .number o.sampleRate
  | .channels => .number o.channels
  | .height => .number o.height
  | .width => .number o.width
  | .yBytes => o.yBytes
  | .uBytes => o.uBytes
  | .vBytes => o.vBytes

/-! ## Programs -/

/-- A call that a program makes. `choice` is the object that a pool hands out, if it has it. -/
inductive Call (Datum : Type) where
  | newAudio (choice : Option ObjectRef) (name : String) (sampleRate channels : Int64)
  | newVideo (choice : Option ObjectRef) (name : String) (height width duration : Int64)
  | newPayload (name : String)
  | newSignal (name : String)
  | set (p : ObjectRef) (key : String) (input : Input Datum)
  | pack (p : ObjectRef) (src : PackSource Datum)
  | unmarshalJSON (p : ObjectRef) (decoded : Except String (List (String × Input Datum)))
  | setBytes (p : ObjectRef) (bs : List UInt8)
  | setYUV (p : ObjectRef) (y u v : List UInt8)
  | setDuration (p : ObjectRef) (d : Int64)
  | setSampleRate (p : ObjectRef) (sr : Int64)
  | setChannels (p : ObjectRef) (c : Int64)
  | readOnly (p : ObjectRef)
  | mutable (p : ObjectRef) (choice : Option ObjectRef)
  | retain (p : ObjectRef)
  | release (p : ObjectRef)
  | read (p : ObjectRef) (query : Query)
  | collect (pool : PoolKind) (p : ObjectRef)

def Call.target : Call Datum → Option ObjectRef
  | .newAudio .. | .newVideo .. | .newPayload _ | .newSignal _ | .collect .. => none
  | .set p .. | .pack p _ | .unmarshalJSON p _ | .setBytes p _ | .setYUV p .. | .setDuration p _
  | .setSampleRate p _ | .setChannels p _ | .readOnly p | .mutable p _ | .retain p | .release p
  | .read p _ => some p

def Query.suits (kind : ObjectKind) : Query → Bool
  | .bytes | .sampleRate | .channels => kind = .audio
  | .height | .width | .yBytes | .uBytes | .vBytes => kind = .video
  | .duration => kind = .audio || kind = .video
  | .get _ | .bind _ | .unpack _ | .marshalJSON | .name => true

/-- Objects of the kind have the method. -/
def Call.suits (kind : ObjectKind) : Call Datum → Bool
  | .setBytes .. | .setSampleRate .. | .setChannels .. => kind = .audio
  | .setYUV .. => kind = .video
  | .setDuration .. | .retain _ | .release _ => kind = .audio || kind = .video
  | .read _ query => query.suits kind
  | _ => true

def Reply.ofError : Option PropertyError → Reply Datum
  | none => .done
  | some err => .failed err

namespace Memory

def accepts (m : Memory Datum) (c : Call Datum) : Bool :=
  match c.target with
  | none => true
  | some p => p < m.allocated && c.suits (m.object p).kind

def perform (grow : Nat → Nat) (m : Memory Datum) : Call Datum → Memory Datum × Reply Datum
  | .newAudio choice name sampleRate channels =>
    let made := m.newAudio choice name sampleRate channels
    (made.1, .object made.2)
  | .newVideo choice name height width duration =>
    let made := m.newVideo choice name height width duration
    (made.1, .object made.2)
  | .newPayload name => let made := m.newPayload name; (made.1, .object made.2)
  | .newSignal name => let made := m.newSignal name; (made.1, .object made.2)
  | .set p key input => let result := m.set grow p key input; (result.1, .ofError result.2)
  | .pack p src => let result := m.pack grow p src; (result.1, .ofError result.2)
  | .unmarshalJSON p decoded =>
    let result := m.unmarshalJSON grow p decoded
    (result.1, .ofError result.2)
  | .setBytes p bs => m.setBytes p bs
  | .setYUV p y u v => m.setYUV p y u v
  | .setDuration p d => m.setDuration p d
  | .setSampleRate p sr => m.setSampleRate p sr
  | .setChannels p c => m.setChannels p c
  | .readOnly p => (m.readOnly p, .object p)
  | .mutable p choice => m.mutable p choice
  | .retain p => (m.retain p, .done)
  | .release p => (m.release p, .done)
  | .read p query => (m, .answer ((m.face p).answer query))
  | .collect pool p => (m.collect pool p, .done)

/-- One call. The types exclude the calls that are not accepted. -/
def step (grow : Nat → Nat) (m : Memory Datum) (c : Call Datum) : Memory Datum × Reply Datum :=
  if m.accepts c then m.perform grow c else (m, .done)

end Memory

end Voce.Schema
