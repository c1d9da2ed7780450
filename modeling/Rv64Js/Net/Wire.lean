import Mathlib.Data.List.Basic
import Mathlib.Data.BitVec

/-! # Frames on the guest link

The wire formats of `netstack.rs`. Addresses are big-endian words. A read behind its length check is
total here; the default of `byteAt` is not reached. -/

set_option autoImplicit false

namespace Rv64Js.Net

abbrev Byte := BitVec 8

abbrev Ip := BitVec 32

abbrev Mac := BitVec 48

def ETH_HDR : Nat := 14
def ETHERTYPE_IP : BitVec 16 := 0x0800
def ETHERTYPE_ARP : BitVec 16 := 0x0806
def BROADCAST : Mac := 0xffffffffffff

def IP_PROTO_ICMP : Byte := 1
def IP_PROTO_TCP : Byte := 6
def IP_PROTO_UDP : Byte := 17

/-- Payload bytes per segment: 1500 MTU - 20 IP - 20 TCP. -/
def MSS : Nat := 1460

def RCV_WINDOW : BitVec 16 := 32768

/-- Addresses the stack presents. -/
structure NetConfig where
  hostMac : Mac
  hostIp : Ip
  guestIp : Ip
  netmask : Ip
  proxyPort : BitVec 16
  /-- Accept TCP for every destination rather than only `host_ip:proxy_port`. -/
  transparent : Bool

def NetConfig.default : NetConfig where
  hostMac := 0x52550a000202
  hostIp := 0x0a000202
  guestIp := 0x0a00020f
  netmask := 0xffffff00
  proxyPort := 8080
  transparent := false

/-! ## Reading -/

def byteAt (b : List Byte) (i : Nat) : Byte := b.getD i 0

def be16 (b : List Byte) (i : Nat) : BitVec 16 := byteAt b i ++ byteAt b (i + 1)

def be32 (b : List Byte) (i : Nat) : BitVec 32 := be16 b i ++ be16 b (i + 2)

def be48 (b : List Byte) (i : Nat) : BitVec 48 := be32 b i ++ be16 b (i + 4)

def sub (b : List Byte) (i j : Nat) : List Byte := (b.take j).drop i

/-! ## Writing -/

def bytes16 (v : BitVec 16) : List Byte := [v.extractLsb' 8 8, v.extractLsb' 0 8]

def bytes32 (v : BitVec 32) :
    List Byte := bytes16 (v.extractLsb' 16 16) ++ bytes16 (v.extractLsb' 0 16)

def bytes48 (v : BitVec 48) :
    List Byte := bytes16 (v.extractLsb' 32 16) ++ bytes32 (v.extractLsb' 0 32)

def sum16 : List Byte → Nat
  | [] => 0
  | [a] => a.toNat * 256
  | a :: b :: rest => a.toNat * 256 + b.toNat + sum16 rest

def fold (sum : Nat) : Nat := if sum < 65536 then sum else fold (sum % 65536 + sum / 65536)
termination_by sum
decreasing_by omega

/-- One's-complement sum, as IPv4, ICMP and TCP all use. -/
def checksum (data : List Byte) : BitVec 16 := ~~~BitVec.ofNat 16 (fold (sum16 data))

/-- TCP checksum over the segment plus the IPv4 pseudo-header. -/
def tcpChecksum (src dst : Ip) (seg : List Byte) : BitVec 16 :=
  ~~~BitVec.ofNat 16
    (fold (sum16 (bytes32 src) + sum16 (bytes32 dst) + IP_PROTO_TCP.toNat + seg.length + sum16 seg))

def ipHeader (total : Nat) (proto : Byte) (src dst : Ip) (sum : BitVec 16) : List Byte :=
  [0x45, 0] ++ bytes16 (BitVec.ofNat 16 total) ++ [0, 0, 0x40, 0, 64, proto] ++ bytes16 sum ++
    bytes32 src ++ bytes32 dst

def buildIpFrom (cfg : NetConfig) (dstMac : Mac) (proto : Byte) (src dst : Ip)
    (payload : List Byte) : List Byte :=
  let header := ipHeader (20 + payload.length) proto src dst
  bytes48 dstMac ++ bytes48 cfg.hostMac ++ bytes16 ETHERTYPE_IP ++ header
    (checksum (header 0)) ++ payload

def udpDatagram (src dst : BitVec 16) (data : List Byte) : List Byte :=
  bytes16 src ++ bytes16 dst ++ bytes16 (BitVec.ofNat 16 (8 + data.length)) ++ [0, 0] ++ data

/-! ## TCP segments -/

/-- TCP flags; the other bits of the byte are not looked at. -/
structure Flags where
  fin : Bool
  syn : Bool
  rst : Bool
  psh : Bool
  ack : Bool
deriving DecidableEq

def Flags.ofByte (b : Byte) : Flags :=
  ⟨b.getLsbD 0, b.getLsbD 1, b.getLsbD 2, b.getLsbD 3, b.getLsbD 4⟩

def Flags.byte (f : Flags) : Byte :=
  (if f.fin then 0x01 else 0) ||| (if f.syn then 0x02 else 0) ||| (if f.rst then 0x04 else 0) |||
    (if f.psh then 0x08 else 0) ||| (if f.ack then 0x10 else 0)

structure Arrival where
  sport : BitVec 16
  dport : BitVec 16
  seq : BitVec 32
  ack : BitVec 32
  flags : Flags
  window : BitVec 16
  payload : List Byte
deriving DecidableEq

def parseTcp (seg : List Byte) : Option Arrival :=
  let dataOff := (byteAt seg 12 >>> 4).toNat * 4
  if seg.length < 20 ∨ dataOff < 20 ∨ seg.length < dataOff then none
  else some
    { sport := be16 seg 0
      dport := be16 seg 2
      seq := be32 seg 4
      ack := be32 seg 8
      flags := Flags.ofByte (byteAt seg 13)
      window := be16 seg 14
      payload := seg.drop dataOff }

structure Segment where
  srcPort : BitVec 16
  dstPort : BitVec 16
  seq : BitVec 32
  ack : BitVec 32
  flags : Flags
  payload : List Byte
deriving DecidableEq

namespace Segment

/-- The segment with a given checksum.  A SYN carries the MSS option. -/
def bytesWith (s : Segment) (sum : BitVec 16) : List Byte :=
  bytes16 s.srcPort ++ bytes16 s.dstPort ++ bytes32 s.seq ++ bytes32 s.ack ++
    [(if s.flags.syn then 6#8 else 5#8) <<< 4, s.flags.byte] ++ bytes16 RCV_WINDOW ++ bytes16 sum ++
    [0, 0] ++ (if s.flags.syn then [2, 4] ++ bytes16 (BitVec.ofNat 16 MSS) else []) ++ s.payload

def bytes (s : Segment) (src dst : Ip) : List Byte :=
  s.bytesWith (tcpChecksum src dst (s.bytesWith 0))

def arrival (s : Segment) : Arrival where
  sport := s.srcPort
  dport := s.dstPort
  seq := s.seq
  ack := s.ack
  flags := s.flags
  window := RCV_WINDOW
  payload := s.payload

end Segment

theorem bytes16_append (v : BitVec 16) :
    (v.extractLsb' 8 8 ++ v.extractLsb' 0 8 : BitVec 16) = v := by
  rw [BitVec.extractLsb'_append_extractLsb'_eq_extractLsb' (show 8 = 0 + 8 from rfl)]
  simp

theorem bytes32_append (v : BitVec 32) :
    (v.extractLsb' 16 16 ++ (v.extractLsb' 8 8 ++ v.extractLsb' 0 8 : BitVec 16) : BitVec 32) =
      v := by
  rw [BitVec.extractLsb'_append_extractLsb'_eq_extractLsb' (show 8 = 0 + 8 from rfl),
    BitVec.extractLsb'_append_extractLsb'_eq_extractLsb' (show 16 = 0 + (8 + 8) from rfl)]
  simp

theorem Flags.ofByte_byte (f : Flags) : Flags.ofByte f.byte = f := by
  obtain ⟨fin, syn, rst, psh, ack⟩ := f
  cases fin <;> cases syn <;> cases rst <;> cases psh <;> cases ack <;> decide

theorem parseTcp_bytes (s : Segment) (src dst : Ip) :
    parseTcp (s.bytes src dst) = some s.arrival := by
  unfold Segment.bytes
  generalize tcpChecksum src dst (s.bytesWith 0) = sum
  -- the two forms differ in the MSS option
  cases syn : s.flags.syn
  all_goals
    simp only [parseTcp, Segment.bytesWith, Segment.arrival, syn, bytes16, bytes32]
    simp [be16, be32, byteAt, bytes16_append, Flags.ofByte_byte]
    exact ⟨bytes32_append s.seq, bytes32_append s.ack⟩

end Rv64Js.Net
