import Voce.Protocol.PacketCodec

/-! # Frames between gateway and machine

Both sides put the session key before the bytes of a packet. The gateway forwards a client's
packet as it is, after a check of its own that compares lengths modulo `2 ^ 32`; the machine
unmarshals it. The gateway assembles a frame in the array of a pooled buffer.
-/

namespace Voce.Gateway

open Protocol ArrayHeap Packet List Bool

def sessionKeySize : Nat := 16

structure SessionKey where
  bytes : List UInt8
  length_bytes : bytes.length = sessionKeySize

/-- `SessionKey(data[:SessionKeySize])`, with the rest of the data. -/
def splitKey (data : List UInt8) : Option (SessionKey × List UInt8) :=
  if h : data.length < sessionKeySize then none
  else
    some (⟨data.take sessionKeySize, length_take_of_le (Nat.le_of_not_lt h)⟩,
      data.drop sessionKeySize)

theorem splitKey_append (key : SessionKey) (rest : List UInt8) :
    splitKey (key.bytes ++ rest) = some (key, rest) := by
  have hlong : ¬ (key.bytes ++ rest).length < sessionKeySize := by
    rw [length_append, key.length_bytes]
    omega
  simp only [splitKey, dif_neg hlong, Option.some.injEq, Prod.mk.injEq]
  obtain ⟨bytes, hbytes⟩ := key
  constructor
  · exact (SessionKey.mk.injEq ..).mpr (by rw [← hbytes, take_left])
  · rw [← hbytes, drop_left]

/-! ## The gateway's buffer -/

/-- `copy(cells[offset:], b)`. -/
def copyAt (cells : List UInt8) (offset : Nat) (b : List UInt8) : List UInt8 :=
  cells.take offset ++ b.take (cells.length - offset) ++ cells.drop (offset + b.length)

/-- The slices one after another, from an offset on. -/
def copyAll (cells : List UInt8) (offset : Nat) : List (List UInt8) → List UInt8
  | [] => cells
  | b :: bs => copyAll (copyAt cells offset b) (offset + b.length) bs

variable (buffer : Buffer UInt8)

/-- The array of the buffer, or a new one, up to the length of the frame. -/
def resize (required : Nat) : List UInt8 :=
  if buffer.array.length < required then replicate required 0
  else buffer.array.take required

theorem length_resize (required : Nat) : (resize buffer required).length = required := by
  unfold resize
  split
  · rw [length_replicate]
  next hlong => rw [length_take_of_le (Nat.le_of_not_lt hlong)]

/-- `Connection.write` up to the socket: the frame, in a buffer of the pool. -/
def assemble (key : SessionKey) (bs : List (List UInt8)) : List UInt8 :=
  let required := sessionKeySize + (bs.map length).sum
  copyAll (copyAt (resize buffer required) 0 key.bytes) sessionKeySize bs

theorem copyAt_append (done rest b : List UInt8) (hroom : b.length ≤ rest.length) :
    copyAt (done ++ rest) done.length b = done ++ b ++ rest.drop b.length := by
  rw [copyAt, take_left, take_of_length_le, drop_append, drop_eq_nil_of_le]
  · simp
  · omega
  · rw [length_append]
    omega

/-- Cells that are written one after another show what was written. -/
theorem copyAll_append (bs : List (List UInt8)) (done rest : List UInt8)
    (hroom : rest.length = (bs.map length).sum) :
    copyAll (done ++ rest) done.length bs = done ++ bs.flatten := by
  induction bs generalizing done rest with
  | nil =>
    obtain rfl := length_eq_zero_iff.mp hroom
    rfl
  | cons b bs ih =>
    rw [map_cons, sum_cons] at hroom
    rw [copyAll, copyAt_append done rest b (by omega), ← length_append,
      ih (done ++ b) _ (by rw [length_drop]; omega), flatten_cons, append_assoc]

/-- The buffer's former frame leaves nothing in the next one. -/
theorem assemble_eq (key : SessionKey) (bs : List (List UInt8)) :
    assemble buffer key bs = key.bytes ++ bs.flatten := by
  have hcells := length_resize buffer (sessionKeySize + (bs.map length).sum)
  have hkey := copyAt_append [] _ key.bytes (by rw [hcells, key.length_bytes]; omega)
  rw [nil_append, nil_append, length_nil] at hkey
  rw [assemble, hkey, ← key.length_bytes]
  refine copyAll_append bs key.bytes _ ?_
  rw [length_drop, key.length_bytes, hcells]
  omega

/-! ## The gateway -/

/-- What `OnClientMessage` finds of the machine and the session's connection. -/
structure Upstream where
  machineActive : Bool
  /-- The connection's state, and whether it has a socket. -/
  connection : Option (ConnectionState × Bool)

variable (connection : ConnectionState × Bool)

/-- `Connection.write`: the bytes of the message, or nothing is sent. -/
def write (buffer : Buffer UInt8) (key : SessionKey)
    (bs : List (List UInt8)) : Option (List UInt8) :=
  if connection.1 ≠ .active ∨ connection.2 = false then none
  else if bs.isEmpty then none
  else some (assemble buffer key bs)

def writePacket (buffer : Buffer UInt8) (key : SessionKey)
    (packet : Packet (Buffer UInt8)) : Option (List UInt8) :=
  write connection buffer key [packet.fillHeader.header, packet.payload.contents.values]

/-- The check of a client's message in `Session.OnClientMessage`. -/
def acceptsClient : List UInt8 → Bool
  | m1 :: m2 :: _ :: _ :: s0 :: s1 :: s2 :: s3 :: rest =>
    !(m1 != magicNumber1 || m2 != magicNumber2) &&
      bigEndianUint32 s0 s1 s2 s3 == UInt32.ofNat rest.length
  | _ => false

/-- `Session.OnClientMessage`: the frame that is forwarded, if any. -/
def onClientMessage (upstream : Upstream) (buffer : Buffer UInt8) (key : SessionKey)
    (binary : Bool) (data : List UInt8) : Option (List UInt8) :=
  if binary = false then none
  else if acceptsClient data = false then none
  else
    match upstream.connection with
    | none => none
    | some connection =>
      if upstream.machineActive = false ∨ connection.1 ≠ .active then none
      else write connection buffer key [data]

/-- `Connection.OnMessage` of the gateway: what is dispatched. -/
def onMessage (binary : Bool) (data : List UInt8) : Option (SessionKey × List UInt8) :=
  if binary = false then none else splitKey data

/-! ## The machine -/

def machineWrite (key : SessionKey) (packet : Packet (Buffer UInt8)) : Option (List UInt8) :=
  if connection.1 ≠ .active ∨ connection.2 = false then none
  else some (key.bytes ++ packet.fillHeader.header ++ packet.payload.contents.values)

/-- `Connection.OnMessage` of the machine, with a packet of the pool: what is handled. -/
def machineOnMessage (packet : Packet (Buffer UInt8)) (binary : Bool) (body : List UInt8) :
    Option (SessionKey × Packet (Buffer UInt8)) :=
  if binary = false then none
  else
    match splitKey body with
    | none => none
    | some (key, content) =>
      if (packet.unmarshal content).2.isSome then none
      else some (key, (packet.unmarshal content).1)

theorem machineOnMessage_append (packet : Packet (Buffer UInt8)) (key : SessionKey)
    (content : List UInt8) :
    machineOnMessage packet true (key.bytes ++ content) =
      if (packet.unmarshal content).2.isSome then none
      else some (key, (packet.unmarshal content).1) := by
  simp only [machineOnMessage, splitKey_append, true_eq_false, if_false]

/-! ## What arrives -/

/-- The gateway accepts the packets of every length, also of one that has no size. -/
theorem acceptsClient_iff (data : List UInt8) :
    acceptsClient data = true ↔ ∃ type encode payload, data = wire type encode payload := by
  constructor
  · intro haccepts
    unfold acceptsClient at haccepts
    split at haccepts
    next m1 m2 type encode s0 s1 s2 s3 rest =>
      simp only [and_eq_true, not_eq_true', or_eq_false_iff, bne_eq_false_iff_eq,
        beq_iff_eq] at haccepts
      obtain ⟨⟨rfl, rfl⟩, hsize⟩ := haccepts
      refine ⟨type, encode, rest, ?_⟩
      rw [wire, ← hsize, bigEndianBytes_bigEndianUint32]
      rfl
    · cases haccepts
  · rintro ⟨type, encode, payload, rfl⟩
    have hsize := bigEndianUint32_of_bytes (n := UInt32.ofNat payload.length) rfl
    simp only [wire, bigEndianBytes, cons_append, nil_append, acceptsClient, hsize,
      bne_self_eq_false, Bool.or_self, Bool.not_false, beq_self_eq_true, Bool.and_self]

variable {packet sent : Packet (Buffer UInt8)} {key : SessionKey} {frame : List UInt8}
  {connection : ConnectionState × Bool} {buffer : Buffer UInt8}

theorem write_eq_some {bs} (hwrite : write connection buffer key bs = some frame) :
    frame = key.bytes ++ bs.flatten := by
  unfold write at hwrite
  split at hwrite
  · cases hwrite
  · split at hwrite
    · cases hwrite
    · cases hwrite
      exact assemble_eq buffer key bs

theorem onClientMessage_eq_some {upstream data}
    (hframe : onClientMessage upstream buffer key true data = some frame) :
    acceptsClient data = true ∧ frame = key.bytes ++ data := by
  unfold onClientMessage at hframe
  rw [if_neg (by decide)] at hframe
  split at hframe
  · cases hframe
  next haccepts =>
    refine ⟨by simpa using haccepts, ?_⟩
    split at hframe
    · cases hframe
    · split at hframe
      · cases hframe
      · simpa using write_eq_some hframe

/-- The machine handles a packet of the right size under the key that it was framed with. -/
theorem machineOnMessage_wire {type encode payload} (hlength : payload.length < 2 ^ 32) :
    ∃ received, machineOnMessage packet true (key.bytes ++ wire type encode payload) =
      some (key, received) ∧ received.Carries type encode payload := by
  obtain ⟨haccepted, hcarries⟩ := unmarshal_wire packet hlength
  refine ⟨_, ?_, hcarries⟩
  rw [machineOnMessage_append, haccepted]
  rfl

/-- It handles nothing else. -/
theorem machineOnMessage_eq_some {content other received}
    (hreceived : machineOnMessage packet true (key.bytes ++ content) = some (other, received)) :
    other = key ∧ received.marshal = content ∧ content.length < 2 ^ 32 + packetHeaderSize := by
  rw [machineOnMessage_append] at hreceived
  split at hreceived
  · cases hreceived
  next haccepted =>
    cases hreceived
    have hnone : (packet.unmarshal content).2 = none := by simpa using haccepted
    refine ⟨rfl, marshal_unmarshal hnone, ?_⟩
    obtain ⟨type, encode, payload, hlength, rfl⟩ :=
      (readHeader_ok_iff content packet).mp ((unmarshal_eq_none_iff packet content).mp hnone)
    rw [length_wire]
    omega

/-- The size is the payload's length, as `SetPayload` leaves it. -/
def Sized (packet : Packet (Buffer UInt8)) : Prop :=
  packet.size.toNat = packet.payload.contents.values.length

/-- `AcquirePacket`: a new packet, or one that `ReleasePacket` recycled. -/
def acquirePacket : Option (Packet (Buffer UInt8)) → Packet (Buffer UInt8)
  | none => .new
  | some released => released.recycle

/-- A packet that is given a type and no payload, to close, pause or resume a session. -/
theorem acquirePacket_sized (released : Option (Packet (Buffer UInt8))) (type : PacketType) :
    Sized { acquirePacket released with type := type } := by
  cases released with
  | none => rfl
  | some released =>
    simp only [Sized, acquirePacket, recycle]
    split
    · rw [Buffer.contents_clear]
      rfl
    · rfl

theorem setPayload_sized (acquired : Packet (Buffer UInt8)) {data : List UInt8}
    (hlength : data.length < 2 ^ 32) : Sized (acquired.setPayload data) := by
  have hcarries := setPayload_carries acquired data
  rw [Sized, hcarries.size_eq, hcarries.values_eq]
  exact UInt32.toNat_ofNat_of_lt' hlength

theorem Sized.carries (hsized : Sized sent) :
    sent.Carries sent.type sent.encode sent.payload.contents.values :=
  ⟨rfl, rfl, rfl, by rw [← hsized, UInt32.ofNat_toNat]⟩

/-- Marshalling and unmarshalling are inverse, and the three checks accept the same strings. -/
theorem codec_exact :
    (∀ (p q : Packet (Buffer UInt8)) (data : List UInt8), data.length < 2 ^ 32 →
      (q.unmarshal (p.setPayload data).marshal).2 = none ∧
      (q.unmarshal (p.setPayload data).marshal).1.Carries p.type p.encode data) ∧
    (∀ (q : Packet (Buffer UInt8)) (content : List UInt8),
      content.length < 2 ^ 32 + packetHeaderSize →
      ((q.unmarshal content).2 = none ↔ ∃ type encode payload, content =
        [magicNumber1, magicNumber2, type, encode] ++
          bigEndianBytes (UInt32.ofNat payload.length) ++ payload) ∧
      ((q.unmarshal content).2 = none → (q.unmarshal content).1.marshal = content) ∧
      ((q.unmarshal content).2 = none ↔ acceptsClient content = true)) ∧
    ∀ (q r : Packet (Buffer UInt8)) (content : List UInt8),
      (q.unmarshal content).2 = none ↔ (r.unmarshalHeader content).2 = none := by
  refine ⟨?_, ?_, ?_⟩
  · intro p q data hlength
    rw [(setPayload_carries p data).marshal_eq]
    exact unmarshal_wire q hlength
  · intro q content hshort
    have hiff : (q.unmarshal content).2 = none ↔ acceptsClient content = true := by
      rw [unmarshal_eq_none_iff, readHeader_ok_iff, acceptsClient_iff]
      constructor
      · rintro ⟨type, encode, payload, -, heq⟩
        exact ⟨type, encode, payload, heq⟩
      · rintro ⟨type, encode, payload, rfl⟩
        rw [length_wire] at hshort
        exact ⟨type, encode, payload, by omega, rfl⟩
    exact ⟨hiff.trans (acceptsClient_iff content), marshal_unmarshal, hiff⟩
  · intro q r content
    rw [unmarshal_eq_none_iff, unmarshalHeader_eq_none_iff, readHeader_ok_iff, readHeader_ok_iff]

/-- A frame arrives as it was sent and under its own key. Of the client messages that the
gateway accepts, the machine decodes those whose length has a size. -/
theorem frames_faithful_iff (key : SessionKey) (packet : Packet (Buffer UInt8)) :
    (∀ (upstream : Upstream) (buffer : Buffer UInt8) (data frame : List UInt8),
      onClientMessage upstream buffer key true data = some frame →
      frame = key.bytes ++ data ∧
      (∀ other received, machineOnMessage packet true frame = some (other, received) →
        other = key) ∧
      ((∃ type encode payload received, data = wire type encode payload ∧
        machineOnMessage packet true frame = some (key, received) ∧
        received.Carries type encode payload) ↔ data.length < 2 ^ 32 + packetHeaderSize)) ∧
    (∀ (connection : ConnectionState × Bool) (buffer : Buffer UInt8)
      (sent : Packet (Buffer UInt8)) (frame : List UInt8), Sized sent →
      writePacket connection buffer key sent = some frame →
      frame = key.bytes ++ sent.marshal ∧
      ∃ received, machineOnMessage packet true frame = some (key, received) ∧
        received.Carries sent.type sent.encode sent.payload.contents.values) ∧
    ∀ (connection : ConnectionState × Bool) (sent : Packet (Buffer UInt8))
      (frame : List UInt8), Sized sent →
      machineWrite connection key sent = some frame →
      onMessage true frame = some (key, sent.marshal) ∧
      (packet.unmarshalHeader sent.marshal).2 = none := by
  refine ⟨?_, ?_, ?_⟩
  · intro upstream buffer data frame hframe
    obtain ⟨haccepts, rfl⟩ := onClientMessage_eq_some hframe
    refine ⟨rfl, fun other received h => (machineOnMessage_eq_some h).1, ?_, ?_⟩
    · rintro ⟨type, encode, payload, received, -, hreceived, -⟩
      exact (machineOnMessage_eq_some hreceived).2.2
    · intro hshort
      obtain ⟨type, encode, payload, rfl⟩ := (acceptsClient_iff data).mp haccepts
      rw [length_wire] at hshort
      have hlength : payload.length < 2 ^ 32 := by omega
      obtain ⟨received, hreceived⟩ := machineOnMessage_wire hlength
      exact ⟨type, encode, payload, received, rfl, hreceived⟩
  · intro connection buffer sent frame hsized hwrite
    have hframe : frame = key.bytes ++ sent.marshal := by
      simpa [marshal] using write_eq_some hwrite
    refine ⟨hframe, ?_⟩
    rw [hframe, hsized.carries.marshal_eq]
    exact machineOnMessage_wire (hsized ▸ sent.size.toNat_lt)
  · intro connection sent frame hsized hwrite
    unfold machineWrite at hwrite
    split at hwrite
    · cases hwrite
    · cases hwrite
      constructor
      · rw [append_assoc]
        exact splitKey_append key sent.marshal
      · rw [unmarshalHeader_eq_none_iff, readHeader_ok_iff]
        exact ⟨_, _, _, hsized ▸ sent.size.toNat_lt, hsized.carries.marshal_eq⟩

/-- A message whose length is a multiple of `2 ^ 32` beyond the header says that it is empty. -/
def oversized : List UInt8 := wire typeAudio 0 (replicate (2 ^ 32) 0)

/-- The gateway forwards the message and the machine drops it. -/
theorem oversized_dropped :
    let key : SessionKey := ⟨replicate sessionKeySize 0, rfl⟩
    (∃ frame, onClientMessage ⟨true, some (.active, true)⟩ .nil key true oversized = some frame) ∧
    ∀ packet, machineOnMessage packet true (key.bytes ++ oversized) = none := by
  intro key
  constructor
  · have haccepts : acceptsClient oversized = true := (acceptsClient_iff _).mpr ⟨_, _, _, rfl⟩
    exact ⟨assemble .nil key [oversized], by simp [onClientMessage, write, haccepts]⟩
  · intro packet
    cases hreceived : machineOnMessage packet true (key.bytes ++ oversized) with
    | none => rfl
    | some handled =>
      have hshort := (machineOnMessage_eq_some hreceived).2.2
      rw [oversized, length_wire, length_replicate] at hshort
      omega

end Voce.Gateway
