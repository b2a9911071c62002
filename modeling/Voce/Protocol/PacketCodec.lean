import Mathlib.Algebra.GroupWithZero.Nat
import Voce.Foundation.ArrayHeap
import Voce.Protocol

/-! # The packet codec

A byte string is a packet if the magic number, a type, an encoding and the big-endian length
stand before exactly that many bytes. These strings are the ones that are unmarshalled, and
the ones that `Marshal` yields for a packet whose size is the length of its payload.
Unmarshalling mutates a packet taken from a pool, so a rejected content may leave its header
fields behind.
-/

namespace Voce.Protocol

open ArrayHeap List UInt32 Buffer

/-- `Packet`. The payload is a slice, or what it shows. -/
structure Packet (Payload : Type) where
  type : PacketType
  encode : UInt8
  size : UInt32
  payload : Payload
  header : List UInt8

namespace Packet

section

variable {Payload Shown : Type}

def map (f : Payload → Shown) (packet : Packet Payload) : Packet Shown :=
  { packet with payload := f packet.payload }

/-- `binary.BigEndian.PutUint32`. -/
def bigEndianBytes (n : UInt32) : List UInt8 :=
  [(n >>> 24).toUInt8, (n >>> 16).toUInt8, (n >>> 8).toUInt8, n.toUInt8]

def bigEndianUint32 (b0 b1 b2 b3 : UInt8) : UInt32 :=
  (b0.toUInt32 <<< 24) ||| (b1.toUInt32 <<< 16) ||| (b2.toUInt32 <<< 8) ||| b3.toUInt32

def fillHeader (packet : Packet Payload) : Packet Payload :=
  { packet with
    header := [magicNumber1, magicNumber2, packet.type, packet.encode] ++
      bigEndianBytes packet.size }

/-- The header that `Unmarshal` and `UnmarshalHeader` read, with the rest of the content. -/
def readHeader (packet : Packet Payload) :
    List UInt8 → Packet Payload × Except PacketError (List UInt8)
  | m1 :: m2 :: type :: encode :: s0 :: s1 :: s2 :: s3 :: rest =>
    if m1 ≠ magicNumber1 ∨ m2 ≠ magicNumber2 then (packet, .error .magicMismatch)
    else
      let size := bigEndianUint32 s0 s1 s2 s3
      ({ packet with type := type, encode := encode, size := size },
        if size.toNat ≠ rest.length then .error .payloadMismatch else .ok rest)
  | _ => (packet, .error .invalidHeader)

end

/-- A packet as the pool makes it. -/
def new : Packet (Buffer UInt8) := ⟨0, 0, 0, .nil, replicate packetHeaderSize 0⟩

variable (packet : Packet (Buffer UInt8))

def recycle : Packet (Buffer UInt8) :=
  { type := 0, encode := 0, size := 0
    payload := if packet.payload.array.length ≤ 64 * 1024 then packet.payload.clear else .nil
    header := replicate packetHeaderSize 0 }

def setPayload (data : List UInt8) : Packet (Buffer UInt8) :=
  if data.length = 0 then { packet with payload := packet.payload.clear, size := 0 }
  else
    { packet with
      payload := packet.payload.assign 0 data
      size := UInt32.ofNat data.length }

def marshal : List UInt8 :=
  packet.fillHeader.header ++ packet.payload.contents.values

def unmarshal (content : List UInt8) : Packet (Buffer UInt8) × Option PacketError :=
  match packet.readHeader content with
  | (packet, .error err) => (packet, some err)
  | (packet, .ok rest) => (packet.setPayload rest, none)

def unmarshalHeader (content : List UInt8) : Packet (Buffer UInt8) × Option PacketError :=
  match packet.readHeader content with
  | (packet, .error err) => (packet, some err)
  | (packet, .ok _) => (packet, none)

/-- What a packet shows: the cells beyond the length are left out. -/
def shown : Packet (Contents UInt8) :=
  packet.map contents

theorem shown_setPayload (a : Packet (Buffer UInt8)) (data : List UInt8) :
    (a.setPayload data).shown =
      { a.shown with
        payload := a.shown.payload.assign data
        size := ofNat data.length } := by
  unfold setPayload
  split
  next hempty =>
    rw [length_eq_zero_iff] at hempty
    subst hempty
    simp only [shown, map, contents_clear, Contents.clear, Contents.assign,
      length_nil, Nat.max_zero]
    rfl
  · simp only [shown, map, contents_assign]

theorem bigEndianBytes_bigEndianUint32 (b0 b1 b2 b3 : UInt8) :
    bigEndianBytes (bigEndianUint32 b0 b1 b2 b3) = [b0, b1, b2, b3] := by
  simp only [bigEndianBytes, bigEndianUint32, cons.injEq, and_true]
  refine ⟨?_, ?_, ?_, ?_⟩
  all_goals
    apply UInt8.toBitVec_inj.mp
    ext i hi
    simp
  all_goals grind

theorem bigEndianBytes_injective {n m} (h : bigEndianBytes n = bigEndianBytes m) : n = m := by
  simp only [bigEndianBytes, cons.injEq, and_true] at h
  obtain ⟨h0, h1, h2, h3⟩ := h
  replace h0 := congrArg UInt8.toNat h0
  replace h1 := congrArg UInt8.toNat h1
  replace h2 := congrArg UInt8.toNat h2
  replace h3 := congrArg UInt8.toNat h3
  apply UInt32.toNat_inj.mp
  simp only [UInt32.toNat_toUInt8, UInt32.toNat_shiftRight, Nat.shiftRight_eq_div_pow,
    reduceToNat, Nat.reduceMod, Nat.reducePow] at h0 h1 h2 h3
  have hn := n.toNat_lt
  have hm := m.toNat_lt
  omega

/-- The size that a header says is read back. -/
theorem bigEndianUint32_of_bytes {n b0 b1 b2 b3} (h : bigEndianBytes n = [b0, b1, b2, b3]) :
    bigEndianUint32 b0 b1 b2 b3 = n :=
  bigEndianBytes_injective ((bigEndianBytes_bigEndianUint32 b0 b1 b2 b3).trans h.symm)

end Packet

open Packet

def wire (type : PacketType) (encode : UInt8) (payload : List UInt8) : List UInt8 :=
  [magicNumber1, magicNumber2, type, encode] ++
    bigEndianBytes (UInt32.ofNat payload.length) ++ payload

theorem length_wire (type : PacketType) (encode : UInt8) (payload : List UInt8) :
    (wire type encode payload).length = packetHeaderSize + payload.length := by
  simp only [wire, bigEndianBytes, packetHeaderSize, length_append, length_cons, length_nil]

namespace Packet

variable {Payload : Type}

theorem readHeader_wire (packet : Packet Payload) {type encode payload}
    (hlength : payload.length < 2 ^ 32) :
    packet.readHeader (wire type encode payload) =
      ({ packet with type := type, encode := encode, size := ofNat payload.length },
        .ok payload) := by
  have hsize := bigEndianUint32_of_bytes (n := ofNat payload.length) rfl
  have hnat : (ofNat payload.length).toNat = payload.length :=
    toNat_ofNat_of_lt' hlength
  simp only [wire, bigEndianBytes, cons_append, nil_append, readHeader, ne_eq,
    not_true_eq_false, or_self, if_false, hsize, hnat]

/-- What is unmarshalled is the byte string of a packet. -/
theorem eq_wire_of_readHeader {packet : Packet Payload} {content rest : List UInt8}
    (hread : (packet.readHeader content).2 = .ok rest) :
    rest.length < 2 ^ 32 ∧ ∃ type encode, content = wire type encode rest := by
  unfold readHeader at hread
  split at hread
  next m1 m2 type encode s0 s1 s2 s3 payload =>
    split at hread
    · cases hread
    next hmagic =>
      obtain ⟨hm1, hm2⟩ := not_or.mp hmagic
      dsimp only at hread
      split at hread
      · cases hread
      next hsize =>
        cases hread
        have hnat := not_not.mp hsize
        refine ⟨hnat ▸ toNat_lt _, type, encode, ?_⟩
        rw [wire, ← hnat, UInt32.ofNat_toNat, bigEndianBytes_bigEndianUint32, not_not.mp hm1,
          not_not.mp hm2]
        rfl
  · cases hread

variable (packet : Packet (Buffer UInt8)) (content : List UInt8)

theorem unmarshal_eq_none_iff :
    (packet.unmarshal content).2 = none ↔ ∃ rest, (packet.readHeader content).2 = .ok rest := by
  rw [unmarshal, ← Prod.eta (packet.readHeader content)]
  cases (packet.readHeader content).2 with
  | error err | ok rest => simp

theorem unmarshalHeader_eq_none_iff : (packet.unmarshalHeader content).2 = none ↔
      ∃ rest, (packet.readHeader content).2 = .ok rest := by
  rw [unmarshalHeader, ← Prod.eta (packet.readHeader content)]
  cases (packet.readHeader content).2 with
  | error err | ok rest => simp

/-- A packet of every length that has a size is accepted, whatever the receiver held. -/
theorem readHeader_ok_iff (packet : Packet Payload) :
    (∃ rest, (packet.readHeader content).2 = .ok rest) ↔
      ∃ type encode payload, payload.length < 2 ^ 32 ∧ content = wire type encode payload := by
  constructor
  · rintro ⟨rest, hread⟩
    obtain ⟨hlength, type, encode, heq⟩ := eq_wire_of_readHeader hread
    exact ⟨type, encode, rest, hlength, heq⟩
  · rintro ⟨type, encode, payload, hlength, rfl⟩
    exact ⟨payload, by rw [readHeader_wire packet hlength]⟩

/-- The packet shows a type, an encoding and a payload, and its size is the payload's length. -/
structure Carries (packet : Packet (Buffer UInt8)) (type : PacketType) (encode : UInt8)
    (payload : List UInt8) : Prop where
  type_eq : packet.type = type
  encode_eq : packet.encode = encode
  values_eq : packet.payload.contents.values = payload
  size_eq : packet.size = UInt32.ofNat payload.length

theorem setPayload_carries (data : List UInt8) :
    (packet.setPayload data).Carries packet.type packet.encode data := by
  have hshown := shown_setPayload packet data
  exact ⟨congrArg (·.type) hshown, congrArg (·.encode) hshown,
    congrArg (·.payload.values) hshown, congrArg (·.size) hshown⟩

variable {packet content} {type : PacketType} {encode : UInt8} {payload : List UInt8}

theorem Carries.marshal_eq (h : packet.Carries type encode payload) :
    packet.marshal = wire type encode payload := by
  rw [marshal, fillHeader, h.type_eq, h.encode_eq, h.size_eq, h.values_eq]
  rfl

/-- The receiver's former contents do not matter. -/
theorem unmarshal_wire (packet : Packet (Buffer UInt8)) (hlength : payload.length < 2 ^ 32) :
    (packet.unmarshal (wire type encode payload)).2 = none ∧
      (packet.unmarshal (wire type encode payload)).1.Carries type encode payload := by
  rw [unmarshal, readHeader_wire packet hlength]
  exact ⟨rfl, setPayload_carries _ payload⟩

/-- An accepted string is marshalled again as it was. -/
theorem marshal_unmarshal (haccepted : (packet.unmarshal content).2 = none) :
    (packet.unmarshal content).1.marshal = content := by
  obtain ⟨type, encode, payload, hlength, rfl⟩ :=
    (readHeader_ok_iff content packet).mp ((unmarshal_eq_none_iff packet content).mp haccepted)
  exact (unmarshal_wire packet hlength).2.marshal_eq

end Packet

end Voce.Protocol
