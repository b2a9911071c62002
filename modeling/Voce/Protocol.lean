import Mathlib.Data.List.Basic

/-! # Wire protocol

Packet types are bytes with a few named codes; a decoder passes unknown codes
through.
-/

namespace Voce.Protocol

inductive ConnectionState where
  | unknown
  | active
  | connecting
  | closed
  deriving DecidableEq

abbrev PacketType := UInt8

def packetHeaderSize : Nat := 8
def magicNumber1 : UInt8 := 0x56
def magicNumber2 : UInt8 := 0x43

def typeAudio : PacketType := 0x01
def typeClose : PacketType := 0x04
def typePause : PacketType := 0x05
def typeResume : PacketType := 0x06

inductive PacketError where
  | invalidHeader
  | magicMismatch
  | payloadMismatch

end Voce.Protocol
