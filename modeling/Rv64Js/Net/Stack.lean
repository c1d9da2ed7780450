import Rv64Js.Lib.Keyed
import Rv64Js.Net.Wire

/-! # The network stack behind virtio-net

`NetStack` of `netstack.rs`: guest frames in, frames and events out. What a connection emits and
reports comes back as outputs, in the order of the source, that the stack appends to its two queues.
The connection counter does not reach the end of a `u64`. -/

set_option autoImplicit false

namespace Rv64Js.Net

abbrev ConnId := Nat

inductive Event where
  | opened (id : ConnId) (address : Ip) (port : BitVec 16)
  | data (id : ConnId) (bytes : List Byte)
  | closed (id : ConnId)
  | datagram (id : ConnId) (address : Ip) (port : BitVec 16) (bytes : List Byte)
deriving DecidableEq

inductive State where
  | synReceived
  | established
  /-- The guest sent FIN; we may still be sending. -/
  | closeWait
  /-- We sent FIN and are waiting for its ACK. -/
  | lastAck
deriving DecidableEq

structure Conn where
  id : ConnId
  guestPort : BitVec 16
  remoteIp : Ip
  remotePort : BitVec 16
  state : State
  rcvNxt : BitVec 32
  /-- Oldest byte sent and not acknowledged. -/
  sndUna : BitVec 32
  sndNxt : BitVec 32
  sndWnd : BitVec 16
  /-- The one sent but unacknowledged payload segment. -/
  unacked : List Byte
  tx : List Byte
  /-- The proxy asked to close: send FIN once `tx` drains. -/
  finPending : Bool
deriving DecidableEq

inductive Output where
  | event (e : Event)
  | segment (s : Segment)
deriving DecidableEq

def ackFlags : Flags := ⟨false, false, false, false, true⟩
def synAckFlags : Flags := ⟨false, true, false, false, true⟩
def finAckFlags : Flags := ⟨true, false, false, false, true⟩
def pshAckFlags : Flags := ⟨false, false, false, true, true⟩

def iss (id : ConnId) : BitVec 32 := 0x10000000 + BitVec.ofNat 32 id * 0x10000

namespace Conn

/-! ## One connection -/

variable (c : Conn)

def emitSegment (flags : Flags) (seq : BitVec 32) (payload : List Byte) : Output :=
  .segment ⟨c.remotePort, c.guestPort, seq, c.rcvNxt, flags, payload⟩

def emitFlags (flags : Flags) (seq : BitVec 32) : Output := c.emitSegment flags seq []

def emitAck : Output := c.emitFlags ackFlags c.sndNxt

def accepted (id : ConnId) (guestPort : BitVec 16) (remoteIp : Ip) (remotePort : BitVec 16)
    (seq : BitVec 32) (window : BitVec 16) : Conn where
  id := id
  guestPort := guestPort
  remoteIp := remoteIp
  remotePort := remotePort
  state := .synReceived
  rcvNxt := seq + 1
  sndUna := iss id
  sndNxt := iss id + 1
  sndWnd := window
  unacked := []
  tx := []
  finPending := false

/-- A SYN or a FIN that consumes a sequence number without occupying a byte of `unacked`. -/
def controlInFlight : Nat :=
  match c.state with
  | .synReceived | .lastAck => 1
  | _ => 0

def acknowledge (ack : BitVec 32) : Conn :=
  let acked := (ack - c.sndUna).toNat
  if 0 < acked ∧ acked ≤ c.unacked.length + c.controlInFlight then
    { c with unacked := c.unacked.drop (min acked c.unacked.length), sndUna := ack }
  else c

/-- Any ACK ends the handshake. -/
def establish : Conn × List Output :=
  if c.state = .synReceived then
    ({ c with state := .established }, [.event (.opened c.id c.remoteIp c.remotePort)])
  else (c, [])

/-- In-order payload is delivered; any payload is answered. -/
def receive (seq : BitVec 32) (payload : List Byte) : Conn × List Output :=
  if payload = [] then (c, [])
  else if seq = c.rcvNxt then
    let c := { c with rcvNxt := c.rcvNxt + BitVec.ofNat 32 payload.length }
    (c, [.event (.data c.id payload), c.emitAck])
  else (c, [c.emitAck])

def finish : Conn × List Output :=
  if c.state = .established ∨ c.state = .synReceived then
    let c := { c with rcvNxt := c.rcvNxt + 1, state := .closeWait }
    (c, [c.emitAck, .event (.closed c.id)])
  else (c, [])

def absorb (g : Arrival) : Conn × List Output :=
  let received := c.receive g.seq g.payload
  if g.flags.fin then
    let finished := received.1.finish
    (finished.1, received.2 ++ finished.2)
  else received

def onAck (g : Arrival) : Conn × List Output :=
  let c := { c with sndWnd := g.window }
  if g.flags.ack then (c.acknowledge g.ack).establish else (c, [])

/-- The ACK of our FIN ends the connection. -/
def Ends (g : Arrival) : Prop :=
  g.flags.ack = true ∧ (c.onAck g).1.state = .lastAck ∧ (c.onAck g).1.sndUna = (c.onAck g).1.sndNxt

instance (c : Conn) (g : Arrival) : Decidable (c.Ends g) := inferInstanceAs (Decidable (_ ∧ _))

/-- `on_segment`; no connection is left after a reset or after the ACK of our FIN. -/
def onSegment (g : Arrival) : Option Conn × List Output :=
  if g.flags.rst then (none, [.event (.closed c.id)])
  else
    let acked := c.onAck g
    if c.Ends g then (none, acked.2)
    else
      let absorbed := acked.1.absorb g
      (some absorbed.1, acked.2 ++ absorbed.2)

/-- Send one segment when its predecessor has been acknowledged. -/
def pumpData : Conn × List Output :=
  if c.unacked = [] ∧ c.tx ≠ [] ∧ c.sndWnd ≠ 0 then
    let n := min (min c.tx.length MSS) c.sndWnd.toNat
    let chunk := c.tx.take n
    ({ c with tx := c.tx.drop n, unacked := chunk, sndNxt := c.sndNxt + BitVec.ofNat 32 n },
      [c.emitSegment pshAckFlags c.sndNxt chunk])
  else (c, [])

/-- Send FIN only after all payload is acknowledged. -/
def pumpFin : Conn × List Output :=
  if c.finPending ∧ c.tx = [] ∧ c.unacked = [] then
    ({ c with sndNxt := c.sndNxt + 1, state := .lastAck }, [c.emitFlags finAckFlags c.sndNxt])
  else (c, [])

def pump : Conn × List Output :=
  if c.state = .lastAck then (c, [])
  else
    let sent := c.pumpData
    let closed := sent.1.pumpFin
    (closed.1, sent.2 ++ closed.2)

end Conn

/-! ## The stack -/

structure UdpFlow where
  id : ConnId
  guestPort : BitVec 16
  remoteIp : Ip
  remotePort : BitVec 16
deriving DecidableEq

/-- A queued frame.  `owner`, the connection a segment belongs to, is not on the wire. -/
inductive Frame where
  | raw (bytes : List Byte)
  | tcp (owner : ConnId) (dstMac : Mac) (srcIp : Ip) (segment : Segment)
deriving DecidableEq

def Frame.bytes (cfg : NetConfig) : Frame → List Byte
  | .raw bytes => bytes
  | .tcp _ dstMac srcIp segment =>
    buildIpFrom cfg dstMac IP_PROTO_TCP srcIp cfg.guestIp (segment.bytes srcIp cfg.guestIp)

structure NetStack where
  cfg : NetConfig
  guestMac : Option Mac
  conns : List Conn
  udp : List UdpFlow
  nextId : ConnId
  out : List Frame
  events : List Event

namespace NetStack

def new (cfg : NetConfig) : NetStack where
  cfg := cfg
  guestMac := none
  conns := []
  udp := []
  nextId := 1
  out := []
  events := []

variable (s : NetStack)

def peerMac : Mac := s.guestMac.getD BROADCAST

def pushFrame (bytes : List Byte) : NetStack := { s with out := s.out ++ [.raw bytes] }

def pushEvent (e : Event) : NetStack := { s with events := s.events ++ [e] }

def push (owner : ConnId) (srcIp : Ip) (s : NetStack) : Output → NetStack
  | .event e => s.pushEvent e
  | .segment segment => { s with out := s.out ++ [.tcp owner s.peerMac srcIp segment] }

def pushAll (owner : ConnId) (srcIp : Ip) (outputs : List Output) : NetStack :=
  outputs.foldl (push owner srcIp) s

/-! ### ARP, ICMP, UDP -/

def onArp (frame : List Byte) : NetStack :=
  let arp := sub frame ETH_HDR (ETH_HDR + 28)
  if frame.length < ETH_HDR + 28 then s
  else if be16 arp 0 ≠ 1 ∨ be16 arp 2 ≠ ETHERTYPE_IP ∨ be16 arp 6 ≠ 1 then s
  else if be32 arp 24 ≠ s.cfg.hostIp then s
  else
    s.pushFrame (sub arp 8 14 ++ bytes48 s.cfg.hostMac ++ bytes16 ETHERTYPE_ARP ++ bytes16 1 ++
      bytes16 ETHERTYPE_IP ++ [6, 4] ++ bytes16 2 ++ bytes48 s.cfg.hostMac ++ bytes32
        s.cfg.hostIp ++
      sub arp 8 14 ++ sub arp 14 18)

def emitIpFrom (proto : Byte) (src dst : Ip) (payload : List Byte) : NetStack :=
  s.pushFrame (buildIpFrom s.cfg s.peerMac proto src dst payload)

def emitIp (proto : Byte) (dst : Ip) (payload : List Byte) : NetStack :=
  s.emitIpFrom proto s.cfg.hostIp dst payload

/-- Only echo requests are answered. -/
def onIcmp (src : Ip) (icmp : List Byte) : NetStack :=
  if icmp.length < 8 ∨ byteAt icmp 0 ≠ 8 then s
  else
    let reply (sum : BitVec 16) := [0, byteAt icmp 1] ++ bytes16 sum ++ icmp.drop 4
    s.emitIp IP_PROTO_ICMP src (reply (checksum (reply 0)))

def dhcpOption (code : Byte) (data : List Byte) : List Byte :=
  [code, BitVec.ofNat 8 data.length] ++ data

/-- The message type of the options, the last one given; zero when there is none. -/
def dhcpKind (kind : Byte) (opts : List Byte) : Byte :=
  match opts with
  | code :: len :: rest =>
    if code = 255 then kind
    else if code = 0 then dhcpKind kind (len :: rest)
    else if rest.length < len.toNat then kind
    else dhcpKind (if code = 53 ∧ len = 1 then byteAt rest 0 else kind) (rest.drop len.toNat)
  | _ => kind
termination_by opts.length
decreasing_by
  · simp
  · simp only [List.length_drop, List.length_cons]; omega

def emitDhcp (kind : Byte) (xid : BitVec 32) (chaddr : Mac) : NetStack :=
  let zeros (n : Nat) : List Byte := List.replicate n 0
  let fixed :=
    [2, 1, 6, 0] ++ bytes32 xid ++ zeros 8 ++ bytes32 s.cfg.guestIp ++ bytes32 s.cfg.hostIp ++
    zeros 4 ++ bytes48 chaddr ++ zeros 202 ++ [0x63, 0x82, 0x53, 0x63]
  let dns : Ip := if s.cfg.transparent then 0x01010101 else s.cfg.hostIp
  let options := dhcpOption 53 [kind] ++ dhcpOption 54 (bytes32 s.cfg.hostIp) ++
    dhcpOption 51 (bytes32 3600) ++ dhcpOption 1 (bytes32 s.cfg.netmask) ++
    dhcpOption 3 (bytes32 s.cfg.hostIp) ++ dhcpOption 6 (bytes32 dns) ++ [255]
  s.pushFrame (buildIpFrom s.cfg BROADCAST IP_PROTO_UDP s.cfg.hostIp 0xffffffff
    (udpDatagram 67 68 (fixed ++ options)))

/-- DISCOVER is answered with OFFER and REQUEST with ACK. -/
def onDhcp (msg : List Byte) : NetStack :=
  if msg.length < 240 ∨ byteAt msg 0 ≠ 1 then s
  else if be32 msg 236 ≠ 0x63825363 then s
  else
    let chaddr := be48 msg 28
    let answer (kind : Byte) : NetStack :=
      emitDhcp { s with guestMac := some chaddr } kind (be32 msg 4) chaddr
    match dhcpKind 0 (msg.drop 240) with
    | 1 => answer 2
    | 3 => answer 5
    | _ => s

def onUdp (dst : Ip) (udp : List Byte) : NetStack :=
  let sport := be16 udp 0
  let dport := be16 udp 2
  if udp.length < 8 then s
  else if sport = 68 ∧ dport = 67 then s.onDhcp (udp.drop 8)
  else if s.cfg.transparent then
    match s.udp.find? fun flow =>
        flow.guestPort = sport ∧ flow.remoteIp = dst ∧ flow.remotePort = dport with
    | some flow => s.pushEvent (.datagram flow.id dst dport (udp.drop 8))
    | none =>
      let flow : UdpFlow := ⟨s.nextId, sport, dst, dport⟩
      pushEvent { s with nextId := s.nextId + 1, udp := s.udp ++ [flow] }
        (.datagram flow.id dst dport (udp.drop 8))
  else s

def sendUdp (id : ConnId) (data : List Byte) : NetStack :=
  match s.udp.find? (·.id = id) with
  | none => s
  | some flow =>
    s.emitIpFrom IP_PROTO_UDP flow.remoteIp s.cfg.guestIp
      (udpDatagram flow.remotePort flow.guestPort data)

/-! ### TCP -/

/-- Reset an unexpected segment, so the guest fails immediately. -/
def emitRst (src : Ip) (g : Arrival) : NetStack :=
  let ack := g.seq + BitVec.ofNat 32 g.payload.length + 1
  let segment (sum : BitVec 16) : List Byte :=
    bytes16 g.dport ++ bytes16 g.sport ++ bytes32 0 ++ bytes32 ack ++ [0x50, 0x14, 0, 0] ++
      bytes16 sum ++ [0, 0]
  s.emitIp IP_PROTO_TCP src (segment (tcpChecksum s.cfg.hostIp src (segment 0)))

def accept (dst : Ip) (g : Arrival) : NetStack :=
  let c := Conn.accepted s.nextId g.sport dst g.dport g.seq g.window
  let s := { s with nextId := s.nextId + 1, conns := s.conns ++ [c] }
  s.pushAll c.id c.remoteIp [c.emitFlags synAckFlags (iss c.id)]

def Matches (dst : Ip) (g : Arrival) (c : Conn) : Prop :=
  c.guestPort = g.sport ∧ c.remoteIp = dst ∧ c.remotePort = g.dport

instance (dst : Ip) (g : Arrival) (c : Conn) : Decidable (Matches dst g c) :=
  inferInstanceAs (Decidable (_ ∧ _))

def position (dst : Ip) (g : Arrival) : Option (Nat × Conn) :=
  match s.conns.findIdx? fun c => decide (Matches dst g c) with
  | none => none
  | some i => s.conns[i]?.map (i, ·)

def setConn (i : Nat) : Option Conn → NetStack
  | some c => { s with conns := s.conns.set i c }
  | none => { s with conns := s.conns.eraseIdx i }

/-- Is the segment for this stack? -/
def serves (cfg : NetConfig) (dst : Ip) (g : Arrival) : Bool :=
  cfg.transparent || (dst = cfg.hostIp && g.dport = cfg.proxyPort)

def onTcp (src dst : Ip) (g : Arrival) : NetStack :=
  if !serves s.cfg dst g then
    if g.flags.syn then s.emitRst src g else s
  else
    match s.position dst g with
    | none =>
      if g.flags.syn ∧ !g.flags.ack then s.accept dst g
      else if !g.flags.rst then s.emitRst src g
      else s
    | some (i, c) =>
      let handled := c.onSegment g
      (s.setConn i handled.1).pushAll c.id c.remoteIp handled.2

/-! ### Frames -/

/-- An IPv4 packet `on_ip` looks into: protocol, source, destination and payload. -/
structure Packet where
  proto : Byte
  src : Ip
  dst : Ip
  payload : List Byte

/-- Fragments are dropped. -/
def parseIp (frame : List Byte) : Option Packet :=
  let ip := frame.drop ETH_HDR
  let ihl := (byteAt ip 0 &&& 0x0f).toNat * 4
  let total := (be16 ip 2).toNat
  if ip.length < 20 ∨ byteAt ip 0 >>> 4 ≠ 4 then none
  else if ihl < 20 ∨ total < ihl ∨ ip.length < total then none
  else if be16 ip 6 &&& 0x1fff ≠ 0 then none
  else some ⟨byteAt ip 9, be32 ip 12, be32 ip 16, sub ip ihl total⟩

def onIp (frame : List Byte) : NetStack :=
  match parseIp frame with
  | none => s
  | some p =>
    if p.proto = IP_PROTO_ICMP then s.onIcmp p.src p.payload
    else if p.proto = IP_PROTO_UDP then s.onUdp p.dst p.payload
    else if p.proto = IP_PROTO_TCP then
      match parseTcp p.payload with
      | none => s
      | some g => s.onTcp p.src p.dst g
    else s

def learn (frame : List Byte) : NetStack :=
  let src := be48 frame 6
  if src ≠ BROADCAST ∧ src ≠ s.cfg.hostMac then { s with guestMac := some src } else s

def input (frame : List Byte) : NetStack :=
  if frame.length < ETH_HDR then s
  else
    let s := s.learn frame
    if be16 frame 12 = ETHERTYPE_ARP then s.onArp frame
    else if be16 frame 12 = ETHERTYPE_IP then s.onIp frame
    else s

/-! ### The host's side -/

def pumpTx : NetStack :=
  s.conns.foldl (fun s' c => s'.pushAll c.id c.remoteIp c.pump.2)
    { s with conns := s.conns.map fun c => c.pump.1 }

def takeOutputLimit (limit : Nat) : List Frame × NetStack :=
  let s := s.pumpTx
  (s.out.take limit, { s with out := s.out.drop limit })

def takeEvents : List Event × NetStack := (s.events, { s with events := [] })

def modifyConn (id : ConnId) (f : Conn → Conn) : NetStack :=
  { s with conns := Keyed.adjust Conn.id s.conns id f }

def send (id : ConnId) (data : List Byte) : NetStack :=
  s.modifyConn id fun c => { c with tx := c.tx ++ data }

def close (id : ConnId) : NetStack :=
  s.modifyConn id fun c => { c with finPending := true }

end NetStack

end Rv64Js.Net
