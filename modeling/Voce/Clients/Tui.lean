import Voce.Protocol.PacketCodec

/-! # The packet codec of the terminal client

The client has enumerations for the types and the encodings, and rejects the codes that are not
in them. Apart from that it reads and writes the byte strings of the server.
-/

namespace Voce.Clients.Tui

open Protocol ArrayHeap Protocol.Packet

def magicNumber1 : UInt8 := 0x56
def magicNumber2 : UInt8 := 0x43

inductive PacketType where
  | audio | error | text | close | interrupter | caption
  | userSpeechStart | userSpeechEnd | agentSpeechStart | agentSpeechEnd | sessionId

inductive PacketEncode where
  | raw | json

structure Packet where
  pType : PacketType
  encode : PacketEncode
  payload : List UInt8

inductive UnmarshalError where
  | invalidLength
  | magicMismatch
  | unknownType (v : UInt8)
  | unknownEncode (v : UInt8)
  | sizeMismatch (expected got : Nat)

def PacketType.code : PacketType → UInt8
  | .audio => 0x01
  | .error => 0x02
  | .text => 0x03
  | .close => 0x04
  | .interrupter => 0x11
  | .caption => 0x12
  | .userSpeechStart => 0x13
  | .userSpeechEnd => 0x14
  | .agentSpeechStart => 0x15
  | .agentSpeechEnd => 0x16
  | .sessionId => 0x17

def PacketType.tryFrom (v : UInt8) : Except UnmarshalError PacketType :=
  match v with
  | 0x01 => .ok .audio
  | 0x02 => .ok .error
  | 0x03 => .ok .text
  | 0x04 => .ok .close
  | 0x11 => .ok .interrupter
  | 0x12 => .ok .caption
  | 0x13 => .ok .userSpeechStart
  | 0x14 => .ok .userSpeechEnd
  | 0x15 => .ok .agentSpeechStart
  | 0x16 => .ok .agentSpeechEnd
  | 0x17 => .ok .sessionId
  | _ => .error (.unknownType v)

def PacketEncode.code : PacketEncode → UInt8
  | .raw => 0x00
  | .json => 0x01

def PacketEncode.tryFrom (v : UInt8) : Except UnmarshalError PacketEncode :=
  match v with
  | 0x00 => .ok .raw
  | 0x01 => .ok .json
  | _ => .error (.unknownEncode v)

/-- The size is the length `as u32`, and `put_u32` writes it big-endian. -/
def Packet.marshal (packet : Packet) : List UInt8 :=
  [magicNumber1, magicNumber2, packet.pType.code, packet.encode.code] ++
    bigEndianBytes (UInt32.ofNat packet.payload.length) ++ packet.payload

def Packet.unmarshal : List UInt8 → Except UnmarshalError Packet
  | m1 :: m2 :: type :: encode :: s0 :: s1 :: s2 :: s3 :: rest =>
    if m1 ≠ magicNumber1 ∨ m2 ≠ magicNumber2 then .error .magicMismatch
    else do
      let pType ← PacketType.tryFrom type
      let encode ← PacketEncode.tryFrom encode
      let size := (Protocol.Packet.bigEndianUint32 s0 s1 s2 s3).toNat
      if rest.length ≠ size then .error (.sizeMismatch size rest.length)
      else .ok ⟨pType, encode, rest⟩
  | _ => .error .invalidLength

/-- A code is that of a type, or unknown. -/
theorem PacketType.tryFrom_cases (v : UInt8) :
    (∃ type, tryFrom v = .ok type ∧ v = type.code) ∨
      tryFrom v = .error (.unknownType v) ∧ ∀ type : PacketType, type.code ≠ v := by
  unfold tryFrom
  split
  case h_12 =>
    refine .inr ⟨rfl, ?_⟩
    rintro type rfl
    cases type <;> contradiction
  all_goals exact .inl ⟨_, rfl, rfl⟩

theorem PacketEncode.tryFrom_cases (v : UInt8) :
    (∃ encode, tryFrom v = .ok encode ∧ v = encode.code) ∨
      tryFrom v = .error (.unknownEncode v) ∧ ∀ encode : PacketEncode, encode.code ≠ v := by
  unfold tryFrom
  split
  case h_3 =>
    refine .inr ⟨rfl, ?_⟩
    rintro encode rfl
    cases encode <;> contradiction
  all_goals exact .inl ⟨_, rfl, rfl⟩

/-- The codes of a packet on the wire decide what the client makes of it. -/
theorem Packet.unmarshal_wire {type encode payload} (hlength : payload.length < 2 ^ 32) :
    unmarshal (wire type encode payload) = do
      let pType ← PacketType.tryFrom type
      let encode ← PacketEncode.tryFrom encode
      return ⟨pType, encode, payload⟩ := by
  have hsize := bigEndianUint32_of_bytes (n := UInt32.ofNat payload.length) rfl
  have hnat : (UInt32.ofNat payload.length).toNat = payload.length :=
    UInt32.toNat_ofNat_of_lt' hlength
  have hmagic : ¬ (Protocol.magicNumber1 ≠ magicNumber1 ∨
      Protocol.magicNumber2 ≠ magicNumber2) := by decide
  simp only [wire, bigEndianBytes, List.cons_append, List.nil_append, unmarshal,
    if_neg hmagic, hsize, hnat, ne_eq, not_true_eq_false, if_false]
  rfl

/-- What the client accepts is a packet on the wire. -/
theorem Packet.eq_wire {content packet} (haccepted : unmarshal content = .ok packet) :
    ∃ type encode payload, payload.length < 2 ^ 32 ∧ content = wire type encode payload := by
  rw [← readHeader_ok_iff content (⟨0, 0, 0, (), []⟩ : Protocol.Packet Unit)]
  unfold unmarshal at haccepted
  split at haccepted
  next m1 m2 type encode s0 s1 s2 s3 rest =>
    split at haccepted
    · cases haccepted
    next hmagic =>
      rcases PacketType.tryFrom_cases type with ⟨_, htype, -⟩ | ⟨htype, -⟩ <;>
        rw [htype] at haccepted
      · rcases PacketEncode.tryFrom_cases encode with ⟨_, hencode, -⟩ | ⟨hencode, -⟩ <;>
          rw [hencode] at haccepted
        · change (if _ then _ else _) = _ at haccepted
          split at haccepted
          · cases haccepted
          next hsize =>
            have hserver : ¬ (m1 ≠ Protocol.magicNumber1 ∨ m2 ≠ Protocol.magicNumber2) := hmagic
            refine ⟨rest, ?_⟩
            rw [readHeader, if_neg hserver]
            exact if_neg (not_not.mpr (not_not.mp hsize).symm)
        · cases haccepted
      · cases haccepted
  · cases haccepted

/-- A packet has one byte string on both sides. The server accepts what the client does, and the
client what the server does unless a code is unknown to it. -/
theorem codecs_agree :
    (∀ (packet : Packet) (server : Protocol.Packet (Buffer UInt8)), packet.payload.length < 2 ^ 32 →
      ({ server with type := packet.pType.code, encode := packet.encode.code }.setPayload
          packet.payload).marshal = packet.marshal ∧
        (server.unmarshal packet.marshal).2 = none ∧
        (server.unmarshal packet.marshal).1.Carries packet.pType.code packet.encode.code
          packet.payload) ∧
    ∀ (server : Protocol.Packet (Buffer UInt8)) (content : List UInt8),
      ((server.unmarshal content).2 = none →
        (∃ packet, Packet.unmarshal content = .ok packet ∧
          (server.unmarshal content).1.Carries packet.pType.code packet.encode.code
            packet.payload) ∨
        (∃ type, Packet.unmarshal content = .error (.unknownType type) ∧
          (server.unmarshal content).1.type = type ∧ ∀ known : PacketType, known.code ≠ type) ∨
        ∃ encode, Packet.unmarshal content = .error (.unknownEncode encode) ∧
          (server.unmarshal content).1.encode = encode ∧
          ∀ known : PacketEncode, known.code ≠ encode) ∧
      ∀ packet, Packet.unmarshal content = .ok packet → (server.unmarshal content).2 = none := by
  refine ⟨fun packet server hlength => ?_, fun server content => ⟨fun haccepted => ?_, ?_⟩⟩
  · exact ⟨(setPayload_carries _ _).marshal_eq, unmarshal_wire server hlength⟩
  · obtain ⟨type, encode, payload, hlength, rfl⟩ :=
      (readHeader_ok_iff content server).mp ((unmarshal_eq_none_iff server content).mp haccepted)
    have hcarries : (server.unmarshal (wire type encode payload)).1.Carries type encode payload :=
      (unmarshal_wire server hlength).2
    rw [Packet.unmarshal_wire hlength]
    rcases PacketType.tryFrom_cases type with ⟨pType, htype, rfl⟩ | ⟨htype, hunknown⟩ <;> rw [htype]
    · rcases PacketEncode.tryFrom_cases encode with ⟨known, hencode, rfl⟩ | ⟨hencode, hunknown⟩ <;>
        rw [hencode]
      · exact .inl ⟨_, rfl, hcarries⟩
      · exact .inr (.inr ⟨encode, rfl, hcarries.encode_eq, hunknown⟩)
    · exact .inr (.inl ⟨type, rfl, hcarries.type_eq, hunknown⟩)
  · intro packet haccepted
    obtain ⟨type, encode, payload, hlength, rfl⟩ := Packet.eq_wire haccepted
    exact (unmarshal_wire server hlength).1

end Voce.Clients.Tui
