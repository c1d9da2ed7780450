import Rv64Js.Lib.Events
import Rv64Js.Net.Stack

/-! # Runs of the network stack

The calls a host makes on the stack, in any order, and the journal of each connection.
`step_connection` says once what a call can do to a connection; every invariant is read off from it.
-/

set_option autoImplicit false

namespace Rv64Js.Net

open Keyed

inductive Call where
  | input (frame : List Byte)
  | send (id : ConnId) (data : List Byte)
  | close (id : ConnId)
  | sendUdp (id : ConnId) (data : List Byte)
  | takeOutput (limit : Nat)
  | takeEvents

inductive Note where
  | arrived (g : Arrival)
  | queued (data : List Byte)
  | closing
  | output (o : Output)
deriving DecidableEq

namespace NetStack

/-- The TCP segment a frame carries: source, destination and the segment. -/
def tcpOf (frame : List Byte) : Option (Ip × Ip × Arrival) :=
  if frame.length < ETH_HDR ∨ be16 frame 12 ≠ ETHERTYPE_IP then none
  else
    match parseIp frame with
    | none => none
    | some p => if p.proto = IP_PROTO_TCP then (parseTcp p.payload).map (p.src, p.dst, ·) else none

/-- The connection a frame reaches, with its segment. -/
def addressed (s : NetStack) (frame : List Byte) : Option (Conn × Arrival) :=
  match tcpOf frame with
  | none => none
  | some (_, dst, g) =>
    if serves s.cfg dst g then (s.position dst g).map fun p => (p.2, g) else none

/-- The SYN of a frame that opens a connection, with its destination. -/
def opening (s : NetStack) (frame : List Byte) : Option (Ip × Arrival) :=
  match tcpOf frame with
  | none => none
  | some (_, dst, g) =>
    if serves s.cfg dst g ∧ s.position dst g = none ∧ g.flags.syn ∧ !g.flags.ack then some (dst, g)
    else none

end NetStack

/-! ## What a call leaves of the connections and the queues -/

def Frame.ofConn (id : ConnId) : Frame → Option Segment
  | .raw _ => none
  | .tcp owner _ _ segment => if owner = id then some segment else none

def Event.conn : Event → Option ConnId
  | .opened id _ _ => some id
  | .data id _ => some id
  | .closed id => some id
  | .datagram .. => none

def Output.segments : List Output → List Segment :=
  List.filterMap fun | .segment s => some s | .event _ => none

def Output.events : List Output → List Event :=
  List.filterMap fun | .segment _ => none | .event e => some e

namespace Conn

variable (c : Conn)

@[simp] theorem acknowledge_id (ack : BitVec 32) : (c.acknowledge ack).id = c.id := by
  unfold acknowledge
  dsimp only
  split <;> rfl

/-- What comes of a connection keeps its number, and the events it tells have that number. -/
structure Owns (r : Conn × List Output) : Prop where
  id : r.1.id = c.id
  events : ∀ e ∈ Output.events r.2, e.conn = some c.id

theorem Owns.then {c : Conn} {r r' : Conn × List Output} (first : c.Owns r) (second : r.1.Owns r') :
    c.Owns (r'.1, r.2 ++ r'.2) := by
  refine ⟨second.id.trans first.id, ?_⟩
  rw [Output.events, List.filterMap_append, ← first.id]
  exact List.forall_mem_append.mpr ⟨first.id ▸ first.events, second.events⟩

theorem establish_owns : c.Owns c.establish := by
  unfold establish
  split <;> constructor <;> simp [Output.events, Event.conn]

theorem receive_owns (seq : BitVec 32) (payload : List Byte) : c.Owns (c.receive seq payload) := by
  unfold receive
  split_ifs <;> constructor <;>
    simp [Output.events, Event.conn, emitAck, emitFlags, emitSegment]

theorem finish_owns : c.Owns c.finish := by
  unfold finish
  split <;> constructor <;> simp [Output.events, Event.conn, emitAck, emitFlags, emitSegment]

variable (g : Arrival)

theorem absorb_owns : c.Owns (c.absorb g) := by
  unfold absorb
  dsimp only
  split
  · exact (receive_owns c _ _).then (finish_owns _)
  · exact receive_owns c _ _

theorem onAck_owns : c.Owns (c.onAck g) := by
  unfold onAck
  dsimp only
  split
  · refine ⟨(establish_owns _).id.trans (acknowledge_id _ _), fun e mem => ?_⟩
    rw [(establish_owns _).events e mem, acknowledge_id]
  · exact ⟨rfl, by simp [Output.events]⟩

theorem onSegment_some {c c' : Conn} {g : Arrival} (left : (c.onSegment g).1 = some c') :
    g.flags.rst = false ∧ ¬c.Ends g ∧ c' = ((c.onAck g).1.absorb g).1 ∧
      (c.onSegment g).2 = (c.onAck g).2 ++ ((c.onAck g).1.absorb g).2 := by
  unfold onSegment at left ⊢
  cases rst : g.flags.rst with
  | true => rw [rst] at left; cases left
  | false =>
    rw [rst] at left
    simp only [Bool.false_eq_true, if_false] at left ⊢
    split at left
    · cases left
    · rename_i stays
      cases left
      exact ⟨trivial, stays, rfl, by rw [if_neg stays]⟩

theorem onSegment_id {c c' : Conn} {g : Arrival} (left : (c.onSegment g).1 = some c') :
    c'.id = c.id := by
  rw [(onSegment_some left).2.2.1, (absorb_owns _ g).id, (onAck_owns c g).id]

@[simp] theorem pump_id : c.pump.1.id = c.id := by
  unfold pump pumpData pumpFin
  dsimp only
  split_ifs <;> rfl

theorem onSegment_about : ∀ e ∈ Output.events (c.onSegment g).2, e.conn = some c.id := by
  unfold onSegment
  dsimp only
  split_ifs
  · simp [Output.events, Event.conn]
  · exact (onAck_owns c g).events
  · exact ((onAck_owns c g).then (absorb_owns _ g)).events

theorem pump_silent : Output.events c.pump.2 = [] := by
  unfold pump pumpData pumpFin
  dsimp only
  split_ifs <;> simp [Output.events, emitFlags, emitSegment]

end Conn

namespace NetStack

def sent (s : NetStack) (id : ConnId) : List Segment := s.out.filterMap (Frame.ofConn id)

def told (s : NetStack) (id : ConnId) : List Event := s.events.filter (·.conn = some id)

section

variable (s : NetStack)
include s

theorem pushAll_sent (owner : ConnId) (src : Ip) (outputs : List Output) (id : ConnId) :
    (s.pushAll owner src outputs).sent id = s.sent id ++ if owner = id then Output.segments outputs
      else [] := by
  induction outputs generalizing s with
  | nil => simp [pushAll, Output.segments]
  | cons o outputs ih =>
    refine (ih _).trans ?_
    cases o with
    | event e => simp [push, pushEvent, sent, Output.segments]
    | segment segment =>
      by_cases own : owner = id <;> simp [push, sent, Output.segments, Frame.ofConn, own]

theorem pushAll_told (owner : ConnId) (src : Ip) {outputs : List Output}
    (about : ∀ e ∈ Output.events outputs, e.conn = some owner) (id : ConnId) :
    (s.pushAll owner src outputs).told id = s.told id ++ if owner = id then Output.events outputs
      else [] := by
  induction outputs generalizing s with
  | nil => simp [pushAll, Output.events]
  | cons o outputs ih =>
    cases o with
    | event e =>
      have rest :=
        ih (s.pushEvent e) fun e' mem => about e' (by simp [Output.events] at mem ⊢; exact .inr mem)
      have here : e.conn = some owner := about e (by simp [Output.events])
      refine rest.trans ?_
      by_cases own : owner = id <;> simp [pushEvent, told, Output.events, here, own]
    | segment segment =>
      refine (ih _ fun e' mem => about e' (by simpa [Output.events] using mem)).trans ?_
      simp [push, told, Output.events]

@[simp] theorem pushAll_conns (owner : ConnId) (src : Ip) (outputs : List Output) :
    (s.pushAll owner src outputs).conns = s.conns := by
  induction outputs generalizing s with
  | nil => rfl
  | cons o outputs ih => cases o <;> exact ih _

@[simp] theorem pushAll_nextId (owner : ConnId) (src : Ip) (outputs : List Output) :
    (s.pushAll owner src outputs).nextId = s.nextId := by
  induction outputs generalizing s with
  | nil => rfl
  | cons o outputs ih => cases o <;> exact ih _

@[simp] theorem setConn_nextId (i : Nat) (c : Option Conn) : (s.setConn i c).nextId = s.nextId := by
  cases c <;> rfl

@[simp] theorem setConn_conns (i : Nat) (c : Option Conn) :
    (s.setConn i c).conns = c.elim (s.conns.eraseIdx i) (s.conns.set i) := by
  cases c <;> rfl

theorem setConn_sent (i : Nat) (c : Option Conn) (id : ConnId) :
    (s.setConn i c).sent id = s.sent id := by
  cases c <;> rfl

theorem setConn_told (i : Nat) (c : Option Conn) (id : ConnId) :
    (s.setConn i c).told id = s.told id := by
  cases c <;> rfl

@[simp] theorem learn_conns (frame : List Byte) : (s.learn frame).conns = s.conns := by
  unfold learn
  dsimp only
  split <;> rfl

@[simp] theorem learn_cfg (frame : List Byte) : (s.learn frame).cfg = s.cfg := by
  unfold learn
  dsimp only
  split <;> rfl

@[simp] theorem learn_nextId (frame : List Byte) : (s.learn frame).nextId = s.nextId := by
  unfold learn
  dsimp only
  split <;> rfl

@[simp] theorem learn_position (frame : List Byte) (dst : Ip) (g : Arrival) :
    (s.learn frame).position dst g = s.position dst g := by
  simp [position]

end

/-- The connections stay as they are, and nothing of theirs is queued; a number may be given
out. -/
structure Keeps (s s' : NetStack) : Prop where
  conns : s'.conns = s.conns
  nextId : s.nextId ≤ s'.nextId
  sent : ∀ id, s'.sent id = s.sent id
  told : ∀ id, s'.told id = s.told id

theorem Keeps.refl (s : NetStack) : Keeps s s := ⟨rfl, Nat.le_refl _, fun _ => rfl, fun _ => rfl⟩

theorem Keeps.trans {a b c : NetStack} (first : Keeps a b) (second : Keeps b c) : Keeps a c :=
  ⟨second.conns.trans first.conns, first.nextId.trans second.nextId,
    fun id => (second.sent id).trans (first.sent id), fun id =>
      (second.told id).trans (first.told id)⟩

section

variable (s : NetStack)
include s

theorem Keeps.learned (mac : Option Mac) : Keeps s { s with guestMac := mac } :=
  ⟨rfl, Nat.le_refl _, fun _ => rfl, fun _ => rfl⟩

theorem Keeps.pushFrame (bytes : List Byte) : Keeps s (s.pushFrame bytes) :=
  ⟨rfl, Nat.le_refl _, fun id => by simp [NetStack.pushFrame, NetStack.sent, Frame.ofConn],
    fun _ => rfl⟩

theorem Keeps.pushDatagram (id : ConnId) (address : Ip) (port : BitVec 16) (bytes : List Byte) :
    Keeps s (s.pushEvent (.datagram id address port bytes)) :=
  ⟨rfl, Nat.le_refl _, fun _ => rfl, fun id => by simp [pushEvent, NetStack.told, Event.conn]⟩

theorem Keeps.flow (udp : List UdpFlow) : Keeps s { s with nextId := s.nextId + 1, udp := udp } :=
  ⟨rfl, Nat.le_succ _, fun _ => rfl, fun _ => rfl⟩

theorem Keeps.learn (frame : List Byte) : Keeps s (s.learn frame) := by
  unfold NetStack.learn
  dsimp only
  split
  · exact .learned s _
  · exact .refl s

theorem Keeps.onArp (frame : List Byte) : Keeps s (s.onArp frame) := by
  unfold NetStack.onArp
  dsimp only
  split_ifs
  · exact .refl s
  · exact .refl s
  · exact .refl s
  · exact .pushFrame s _

theorem Keeps.onIcmp (src : Ip) (icmp : List Byte) : Keeps s (s.onIcmp src icmp) := by
  unfold NetStack.onIcmp
  split_ifs
  · exact .refl s
  · exact .pushFrame s _

theorem Keeps.onDhcp (msg : List Byte) : Keeps s (s.onDhcp msg) := by
  have answered (mac : Mac) (kind : Byte) (xid : BitVec 32) :
      Keeps s (emitDhcp { s with guestMac := some mac } kind xid mac) :=
    (Keeps.learned s _).trans (Keeps.pushFrame _ _)
  unfold NetStack.onDhcp
  split_ifs
  · exact .refl s
  · exact .refl s
  · dsimp only
    split
    · exact answered _ _ _
    · exact answered _ _ _
    · exact .refl s

theorem Keeps.onUdp (dst : Ip) (udp : List Byte) : Keeps s (s.onUdp dst udp) := by
  unfold NetStack.onUdp
  dsimp only
  split_ifs
  · exact .refl s
  · exact .onDhcp s _
  · split
    · exact .pushDatagram s _ _ _ _
    · exact (Keeps.flow s _).trans (Keeps.pushDatagram _ _ _ _ _)
  · exact .refl s

theorem Keeps.emitRst (src : Ip) (g : Arrival) : Keeps s (s.emitRst src g) :=
  .pushFrame s _

theorem Keeps.sendUdp (id : ConnId) (data : List Byte) : Keeps s (s.sendUdp id data) := by
  unfold NetStack.sendUdp
  split
  · exact .refl s
  · exact .pushFrame s _

end

variable {frame : List Byte} {dst : Ip} {g : Arrival}

theorem input_tcp {src : Ip} (s : NetStack) (carries : tcpOf frame = some (src, dst, g)) :
    s.input frame = (s.learn frame).onTcp src dst g := by
  unfold tcpOf at carries
  split at carries
  · cases carries
  · rename_i long
    push Not at long
    split at carries
    · cases carries
    · rename_i p parsed
      split at carries
      · rename_i tcp
        obtain ⟨g', segment, same⟩ := Option.map_eq_some_iff.mp carries
        cases same
        have ip : be16 frame 12 ≠ ETHERTYPE_ARP := by rw [long.2]; decide
        have udp : p.proto ≠ IP_PROTO_UDP := by rw [tcp]; decide
        have icmp : p.proto ≠ IP_PROTO_ICMP := by rw [tcp]; decide
        unfold input onIp
        rw [if_neg (by omega), if_neg ip, if_pos long.2, parsed]
        dsimp only
        rw [if_neg icmp, if_neg udp, if_pos tcp, segment]
      · cases carries

theorem input_other (s : NetStack) (carries : tcpOf frame = none) : Keeps s (s.input frame) := by
  unfold input
  split_ifs with short arp ip
  · exact .refl s
  · exact (Keeps.learn s frame).trans (Keeps.onArp _ frame)
  · refine (Keeps.learn s frame).trans ?_
    unfold tcpOf at carries
    rw [if_neg (by push Not; exact ⟨by omega, ip⟩)] at carries
    unfold onIp
    cases parsed : parseIp frame with
    | none => exact .refl _
    | some p =>
      rw [parsed] at carries
      dsimp only at carries ⊢
      split_ifs with icmp udp tcp
      · exact .onIcmp _ _ _
      · exact .onUdp _ _ _
      · rw [if_pos tcp, Option.map_eq_none_iff] at carries
        rw [carries]
        exact .refl _
      · exact .refl _
  · exact .learn s frame

variable {s : NetStack}

theorem position_some {i : Nat} {c : Conn} (found : s.position dst g = some (i, c)) :
    s.conns[i]? = some c := by
  unfold position at found
  split at found
  · cases found
  · obtain ⟨c', at', same⟩ := Option.map_eq_some_iff.mp found
    cases same
    exact at'

theorem input_addressed {c : Conn} (reaches : s.addressed frame = some (c, g)) :
    ∃ i, s.conns[i]? = some c ∧
      (s.input frame).conns = (c.onSegment g).1.elim (s.conns.eraseIdx i) (s.conns.set i) ∧
      (s.input frame).nextId = s.nextId ∧ (∀ id, (s.input frame).sent id =
        s.sent id ++ if c.id = id then Output.segments (c.onSegment g).2 else []) ∧
        ∀ id, (s.input frame).told id =
        s.told id ++ if c.id = id then Output.events (c.onSegment g).2 else [] := by
  unfold addressed at reaches
  cases carries : tcpOf frame with
  | none => rw [carries] at reaches; cases reaches
  | some packet =>
    obtain ⟨src, dst, g'⟩ := packet
    rw [carries] at reaches
    dsimp only at reaches
    split at reaches
    · rename_i served
      obtain ⟨⟨i, c'⟩, found, same⟩ := Option.map_eq_some_iff.mp reaches
      cases same
      refine ⟨i, position_some found, ?_⟩
      rw [input_tcp s carries]
      unfold onTcp
      rw [learn_cfg, learn_position, found, served]
      have kept := Keeps.learn s frame
      refine ⟨by simp, by simp, fun id => ?_, fun id => ?_⟩
      · exact (pushAll_sent _ _ _ _ id).trans
          (congrArg (· ++ _) ((setConn_sent _ _ _ id).trans (kept.sent id)))
      · exact (pushAll_told _ _ _ (Conn.onSegment_about c' g) id).trans
          (congrArg (· ++ _) ((setConn_told _ _ _ id).trans (kept.told id)))
    · cases reaches

theorem input_opening (opens : s.opening frame = some (dst, g)) : (s.input frame).conns =
        s.conns ++ [Conn.accepted s.nextId g.sport dst g.dport g.seq g.window] ∧
      (s.input frame).nextId = s.nextId + 1 ∧
      (∀ id, (s.input frame).sent id = s.sent id ++ if s.nextId = id then
        Output.segments
          [(Conn.accepted s.nextId g.sport dst g.dport g.seq g.window).emitFlags synAckFlags
          (iss s.nextId)] else []) ∧ ∀ id, (s.input frame).told id = s.told id := by
  unfold opening at opens
  cases carries : tcpOf frame with
  | none => rw [carries] at opens; cases opens
  | some packet =>
    obtain ⟨src, dst', g'⟩ := packet
    rw [carries] at opens
    dsimp only at opens
    split at opens
    · rename_i holds
      cases opens
      rw [input_tcp s carries]
      unfold onTcp
      have kept := Keeps.learn s frame
      rw [learn_cfg, learn_position, holds.1, holds.2.1]
      simp only [Bool.not_true, Bool.false_eq_true, if_false, holds.2.2.1, holds.2.2.2, and_self,
        if_true, accept, learn_nextId, learn_conns]
      refine ⟨by simp, by simp, fun id => ?_, fun id => ?_⟩
      · exact (pushAll_sent _ _ _ _ id).trans (congrArg (· ++ _) (kept.sent id))
      · refine (pushAll_told _ _ _ (by simp [Output.events, Conn.emitFlags, Conn.emitSegment])
          id).trans ?_
        split <;> exact (List.append_nil _).trans (kept.told id)
    · cases opens

theorem input_keeps (missed : s.addressed frame = none)
    (silent : s.opening frame = none) : Keeps s (s.input frame) := by
  cases carries : tcpOf frame with
  | none => exact input_other s carries
  | some packet =>
    obtain ⟨src, dst, g⟩ := packet
    simp only [addressed, opening, carries] at missed silent
    rw [input_tcp s carries]
    refine (Keeps.learn s frame).trans ?_
    unfold onTcp
    rw [learn_cfg, learn_position]
    cases served : serves s.cfg dst g with
    | false =>
      simp only [Bool.not_false, if_true]
      split_ifs
      · exact .emitRst _ _ _
      · exact .refl _
    | true =>
      rw [served] at missed silent
      simp only [if_true, Option.map_eq_none_iff] at missed
      rw [missed] at silent ⊢
      simp only [Bool.not_true, Bool.false_eq_true, if_false]
      split_ifs with syn rst
      · exact absurd silent (by simp [syn])
      · exact .emitRst _ _ _
      · exact .refl _

theorem pumpTx_sent (nodup : (s.conns.map Conn.id).Nodup) (id : ConnId) :
    s.pumpTx.sent id = s.sent id ++
      (lookup Conn.id s.conns id).elim [] fun c => Output.segments c.pump.2 := by
  have grows : ∀ (l : List Conn) (t : NetStack), (l.map Conn.id).Nodup →
      (l.foldl (fun t c => t.pushAll c.id c.remoteIp c.pump.2) t).sent id =
        t.sent id ++ (lookup Conn.id l id).elim [] fun c => Output.segments c.pump.2 := by
    intro l
    induction l with
    | nil => exact fun t _ => (List.append_nil _).symm
    | cons c l ih =>
      intro t distinct
      rw [List.map_cons, List.nodup_cons] at distinct
      rw [List.foldl_cons, ih _ distinct.2, pushAll_sent]
      by_cases own : c.id = id
      · have absent : lookup Conn.id l id = none := lookup_none.mpr (own ▸ distinct.1)
        have here : lookup Conn.id (c :: l) id = some c := by simp [lookup, own]
        rw [absent, here, if_pos own]
        exact List.append_nil _
      · have there : lookup Conn.id (c :: l) id = lookup Conn.id l id := by
          simp [lookup, own]
        rw [there, if_neg own, List.append_nil]
  exact grows s.conns _ nodup

/-- Pumping tells nothing and gives out no number; the pumped connections are put back at the
end. -/
theorem pump_foldl (l : List Conn) (t : NetStack) (id : ConnId) :
    (l.foldl (fun t c => t.pushAll c.id c.remoteIp c.pump.2) t).told id = t.told id ∧
      (l.foldl (fun t c => t.pushAll c.id c.remoteIp c.pump.2) t).conns = t.conns ∧
      (l.foldl (fun t c => t.pushAll c.id c.remoteIp c.pump.2) t).nextId = t.nextId := by
  induction l generalizing t with
  | nil => exact ⟨rfl, rfl, rfl⟩
  | cons c l ih =>
    obtain ⟨told, conns, nextId⟩ := ih (t.pushAll c.id c.remoteIp c.pump.2)
    refine ⟨told.trans ?_, conns.trans (pushAll_conns ..), nextId.trans (pushAll_nextId ..)⟩
    rw [pushAll_told _ _ _ (by simp [Conn.pump_silent]), Conn.pump_silent, ite_self,
      List.append_nil]

theorem pumpTx_told (s : NetStack) (id : ConnId) : s.pumpTx.told id = s.told id :=
  (pump_foldl _ _ id).1

@[simp] theorem pumpTx_conns (s : NetStack) : s.pumpTx.conns = s.conns.map fun c => c.pump.1 :=
  (pump_foldl _ _ 0).2.1

@[simp] theorem pumpTx_nextId (s : NetStack) : s.pumpTx.nextId = s.nextId := (pump_foldl _ _ 0).2.2

end NetStack

structure Session where
  stack : NetStack
  frames : List Frame
  events : List Event
  journal : List (ConnId × Note)
  /-- the connections that were removed, the last one first -/
  ended : List Conn
  /-- segments that came for a removed connection -/
  late : List (ConnId × Arrival)

namespace Session

def start (cfg : NetConfig) : Session := ⟨NetStack.new cfg, [], [], [], [], []⟩

def outputs (id : ConnId) (l : List Output) : List (ConnId × Note) := l.map fun o => (id, .output o)

def inputNotes (s : NetStack) (frame : List Byte) : List (ConnId × Note) :=
  match s.addressed frame with
  | some (c, g) => (c.id, .arrived g) :: outputs c.id (c.onSegment g).2
  | none =>
    match s.opening frame with
    | some (dst, g) =>
      let c := Conn.accepted s.nextId g.sport dst g.dport g.seq g.window
      [(c.id, .arrived g), (c.id, .output (c.emitFlags synAckFlags (iss c.id)))]
    | none => []

def endedBy (s : NetStack) (frame : List Byte) : List Conn :=
  match s.addressed frame with
  | some (c, g) => if (c.onSegment g).1.isNone then [c] else []
  | none => []

/-- A segment that reaches no connection and opens none belongs to the last one with its ports and
address. -/
def lateFor (s : Session) (frame : List Byte) : List (ConnId × Arrival) :=
  match s.stack.addressed frame, s.stack.opening frame, NetStack.tcpOf frame with
  | none, none, some (_, dst, g) =>
    ((s.ended.find? fun c => decide (NetStack.Matches dst g c)).map fun c => (c.id, g)).toList
  | _, _, _ => []

def step (s : Session) : Call → Session
  | .input frame =>
    { s with
      stack := s.stack.input frame
      journal := s.journal ++ inputNotes s.stack frame
      ended := endedBy s.stack frame ++ s.ended
      late := s.late ++ s.lateFor frame }
  | .send id data =>
    { s with stack := s.stack.send id data, journal := s.journal ++ [(id, .queued data)] }
  | .close id => { s with stack := s.stack.close id, journal := s.journal ++ [(id, .closing)] }
  | .sendUdp id data => { s with stack := s.stack.sendUdp id data }
  | .takeOutput limit =>
    let (frames, stack) := s.stack.takeOutputLimit limit
    { s with
      stack := stack
      frames := s.frames ++ frames
      journal := s.journal ++ s.stack.conns.flatMap fun c => outputs c.id c.pump.2 }
  | .takeEvents =>
    let (events, stack) := s.stack.takeEvents
    { s with stack := stack, events := s.events ++ events }

def run (cfg : NetConfig) (calls : List Call) : Session := Events.run step (start cfg) calls

end Session

/-! ## Connections along a run -/

/-- The life of a connection number. -/
inductive Phase where
  | fresh
  | live (c : Conn)
  | gone

def Phase.rank : Phase → Nat
  | .fresh => 0
  | .live _ => 1
  | .gone => 2

namespace Session

def phase (s : Session) (id : ConnId) : Phase :=
  if s.stack.nextId ≤ id then .fresh
  else (lookup Conn.id s.stack.conns id).elim .gone .live

/-- Connection numbers are distinct and were given out. -/
structure WellFormed (s : Session) : Prop where
  nodup : (s.stack.conns.map Conn.id).Nodup
  bounded : ∀ c ∈ s.stack.conns, c.id < s.stack.nextId

/-- What a call does to one connection, with the entries it adds to the journal. -/
inductive ConnStep (s : Session) (id : ConnId) : Call → Phase → List Note → Phase → Prop
  | idle (call : Call) (p : Phase) : ConnStep s id call p [] p
  /-- the number went to a UDP flow -/
  | taken (call : Call) : ConnStep s id call .fresh [] .gone
  | accept (frame : List Byte) (dst : Ip) (g : Arrival)
    (opens : s.stack.opening frame = some (dst, g)) :
      ConnStep s id (.input frame) .fresh
        [.arrived g,
          .output
            ((Conn.accepted id g.sport dst g.dport g.seq g.window).emitFlags synAckFlags (iss id))]
        (.live (Conn.accepted id g.sport dst g.dport g.seq g.window))
  | segment (frame : List Byte) (c : Conn) (g : Arrival) (own : c.id = id)
      (reaches : s.stack.addressed frame = some (c, g)) :
      ConnStep s id (.input frame) (.live c) (.arrived g :: (c.onSegment g).2.map .output)
        ((c.onSegment g).1.elim .gone .live)
  | send (data : List Byte) (c : Conn) (own : c.id = id) :
      ConnStep s id (.send id data) (.live c) [.queued data] (.live { c with tx := c.tx ++ data })
  | sendVoid (data : List Byte) (p : Phase) (void : ∀ c, p ≠ .live c) :
      ConnStep s id (.send id data) p [.queued data] p
  | close (c : Conn) (own : c.id = id) :
      ConnStep s id (.close id) (.live c) [.closing] (.live { c with finPending := true })
  | closeVoid (p : Phase) (void : ∀ c, p ≠ .live c) : ConnStep s id (.close id) p [.closing] p
  | pump (limit : Nat) (c : Conn) (own : c.id = id) :
      ConnStep s id (.takeOutput limit) (.live c) (c.pump.2.map .output) (.live c.pump.1)

def select (id : ConnId) (entries : List (ConnId × Note)) : List Note :=
  entries.filterMap fun entry => if entry.1 = id then some entry.2 else none

def history (s : Session) (id : ConnId) : List Note := select id s.journal

theorem select_append (id : ConnId) (a b : List (ConnId × Note)) :
    select id (a ++ b) = select id a ++ select id b := List.filterMap_append

theorem select_outputs (id owner : ConnId) (l : List Output) :
    select id (outputs owner l) = if owner = id then l.map .output else [] := by
  unfold select outputs
  split <;> simp_all [List.filterMap_map]

theorem select_pump {conns : List Conn} (nodup : (conns.map Conn.id).Nodup) (id : ConnId) :
    select id (conns.flatMap fun c => outputs c.id c.pump.2) =
      (lookup Conn.id conns id).elim [] fun c => c.pump.2.map .output := by
  induction conns with
  | nil => rfl
  | cons c conns ih =>
    rw [List.map_cons, List.nodup_cons] at nodup
    rw [List.flatMap_cons, select_append, select_outputs, ih nodup.2]
    by_cases own : c.id = id
    · have absent : lookup Conn.id conns id = none := lookup_none.mpr (own ▸ nodup.1)
      simp only [own, if_true, absent, Option.elim_none, List.append_nil]
      simp [lookup, own]
    · simp [lookup, own]

variable {s : Session}

theorem WellFormed.phase_live (wf : s.WellFormed) {c : Conn} (mem : c ∈ s.stack.conns) :
    s.phase c.id = .live c := by
  have lt := wf.bounded c mem
  rw [phase, if_neg (Nat.not_le.mpr lt), lookup_of_mem wf.nodup mem]
  rfl

variable {id : ConnId}

theorem WellFormed.absent (wf : s.WellFormed) (fresh : s.stack.nextId ≤ id) :
    lookup Conn.id s.stack.conns id = none := by
  refine lookup_none.mpr fun used => ?_
  obtain ⟨c, mem, rfl⟩ := List.mem_map.mp used
  exact Nat.not_lt.mpr fresh (wf.bounded c mem)

variable {s' : Session}

theorem connStep_keeps (wf : s.WellFormed) (keeps : NetStack.Keeps s.stack s'.stack) (call : Call)
    (id : ConnId) : ConnStep s id call (s.phase id) [] (s'.phase id) := by
  have le := keeps.nextId
  unfold phase
  rw [keeps.conns]
  by_cases fresh : s.stack.nextId ≤ id
  · rw [if_pos fresh, wf.absent fresh]
    split
    · exact .idle call .fresh
    · exact .taken call
  · rw [if_neg fresh, if_neg (fun later => fresh (le.trans later))]
    exact .idle call _

theorem phase_addressed (wf : s.WellFormed) {frame : List Byte} {c : Conn} {g : Arrival}
    (reaches : s.stack.addressed frame = some (c, g)) (id : ConnId) :
    (s.step (.input frame)).phase id =
      if c.id = id then (c.onSegment g).1.elim .gone .live else s.phase id := by
  obtain ⟨i, found, conns, nextId, -, -⟩ := NetStack.input_addressed reaches
  have lt := wf.bounded c (List.mem_of_getElem? found)
  have left : lookup Conn.id (s.stack.input frame).conns id =
      if c.id = id then (c.onSegment g).1 else lookup Conn.id s.stack.conns id := by
    rw [conns]
    cases left : (c.onSegment g).1 with
    | none => exact lookup_eraseIdx wf.nodup found id
    | some c' => exact lookup_set wf.nodup found (Conn.onSegment_id left) id
  simp only [phase, step, nextId, left]
  by_cases own : c.id = id
  · rw [if_pos own, if_pos own, if_neg (own ▸ Nat.not_le.mpr lt)]
  · rw [if_neg own, if_neg own]

theorem connStep_input (wf : s.WellFormed) (frame : List Byte) (id : ConnId) :
    ConnStep s id (.input frame) (s.phase id) (select id (inputNotes s.stack frame))
      ((s.step (.input frame)).phase id) := by
  unfold inputNotes
  cases reaches : s.stack.addressed frame with
  | some target =>
    obtain ⟨c, g⟩ := target
    obtain ⟨i, found, -⟩ := NetStack.input_addressed reaches
    have mem := List.mem_of_getElem? found
    dsimp only
    rw [phase_addressed wf reaches, ← List.singleton_append, select_append, select_outputs]
    by_cases own : c.id = id
    · subst own
      rw [wf.phase_live mem, if_pos rfl, if_pos rfl]
      simpa [select] using ConnStep.segment frame c g rfl reaches
    · rw [if_neg own, if_neg own]
      simpa [select, own] using ConnStep.idle (.input frame) (s.phase id)
  | none =>
    dsimp only
    cases opens : s.stack.opening frame with
    | none =>
      have kept : NetStack.Keeps s.stack (s.step (.input frame)).stack :=
        NetStack.input_keeps reaches opens
      exact connStep_keeps wf kept (.input frame) id
    | some syn =>
      obtain ⟨dst, g⟩ := syn
      obtain ⟨conns, nextId, -, -⟩ := NetStack.input_opening opens
      have unused : s.stack.nextId ∉ s.stack.conns.map Conn.id :=
        lookup_none.mp (wf.absent (Nat.le_refl _))
      have after : (s.step (.input frame)).phase id =
          if s.stack.nextId + 1 ≤ id then .fresh
          else if s.stack.nextId = id then
            .live (.accepted s.stack.nextId g.sport dst g.dport g.seq g.window)
          else (lookup Conn.id s.stack.conns id).elim .gone .live := by
        simp only [phase, step, conns, nextId]
        rw [lookup_append (by exact unused)]
        simp only [Conn.accepted]
        by_cases own : s.stack.nextId = id <;> simp [own]
      rw [after, phase]
      by_cases own : s.stack.nextId = id
      · subst own
        rw [if_pos (Nat.le_refl _), if_neg (Nat.not_succ_le_self _), if_pos rfl]
        simpa [select, Conn.accepted] using @ConnStep.accept s s.stack.nextId frame dst g opens
      · have silent : select id
            [((Conn.accepted s.stack.nextId g.sport dst g.dport g.seq g.window).id, Note.arrived g),
              ((Conn.accepted s.stack.nextId g.sport dst g.dport g.seq g.window).id, .output
                ((Conn.accepted s.stack.nextId g.sport dst g.dport g.seq g.window).emitFlags
                  synAckFlags
                  (iss (Conn.accepted s.stack.nextId g.sport dst g.dport g.seq g.window).id)))] =
                    [] := by
          simp [select, Conn.accepted, own]
        rw [silent, if_neg own]
        by_cases later : s.stack.nextId ≤ id
        · rw [if_pos later, if_pos (Nat.succ_le_of_lt (Nat.lt_of_le_of_ne later own))]
          exact .idle _ _
        · rw [if_neg later, if_neg (fun next => later (Nat.le_of_succ_le next))]
          exact .idle _ _

theorem phase_own {c : Conn} (now : s.phase id = .live c) : c.id = id := by
  unfold phase at now
  split at now
  · cases now
  · cases found : lookup Conn.id s.stack.conns id with
    | none => rw [found] at now; cases now
    | some c' =>
      rw [found] at now
      cases now
      exact (lookup_some found).2

theorem phase_adjust {f : Conn → Conn} (same : ∀ c, (f c).id = c.id)
    (conns : s'.stack.conns = adjust Conn.id s.stack.conns id f)
    (nextId : s'.stack.nextId = s.stack.nextId) (k : ConnId) : s'.phase k = if k = id then
        match s.phase k with
        | .live c => .live (f c)
        | p => p
      else s.phase k := by
  unfold phase
  rw [conns, nextId, lookup_adjust same]
  by_cases own : k = id
  · rw [if_pos own, if_pos own]
    by_cases fresh : s.stack.nextId ≤ k
    · simp [fresh]
    · cases lookup Conn.id s.stack.conns k <;> simp [fresh]
  · simp [own]

theorem connStep_adjust {f : Conn → Conn} {call : Call} {note : Note} {k : ConnId}
    (same : ∀ c, (f c).id = c.id) (conns : s'.stack.conns = adjust Conn.id s.stack.conns k f)
    (nextId : s'.stack.nextId = s.stack.nextId)
    (live : ∀ c, c.id = k → ConnStep s k call (.live c) [note] (.live (f c)))
    (void : ∀ p, (∀ c, p ≠ .live c) → ConnStep s k call p [note] p) (id : ConnId) :
    ConnStep s id call (s.phase id) (select id [(k, note)]) (s'.phase id) := by
  rw [phase_adjust same conns nextId]
  by_cases own : id = k
  · subst own
    rw [if_pos rfl]
    simp only [select, List.filterMap_cons, if_true, List.filterMap_nil]
    cases before : s.phase id with
    | live c => exact live c (phase_own before)
    | fresh => exact void .fresh (by simp)
    | gone => exact void .gone (by simp)
  · rw [if_neg own]
    simpa [select, Ne.symm own] using ConnStep.idle call (s.phase id)

/-- What a call can do to a connection. -/
theorem step_connection (wf : s.WellFormed) (call : Call) (id : ConnId) :
    ∃ notes, (s.step call).history id = s.history id ++ notes ∧
      ConnStep s id call (s.phase id) notes ((s.step call).phase id) := by
  cases call with
  | input frame => exact ⟨_, select_append _ _ _, connStep_input wf frame id⟩
  | send k data =>
    exact ⟨_, select_append _ _ _,
      connStep_adjust (f := fun c => { c with tx := c.tx ++ data }) (fun _ => rfl) (by rfl)
      (by rfl) (fun c own => .send data c own) (fun p void => .sendVoid data p void) id⟩
  | close k =>
    exact ⟨_, select_append _ _ _,
      connStep_adjust (f := fun c => { c with finPending := true }) (fun _ => rfl) (by rfl)
      (by rfl) (fun c own => .close c own) (fun p void => .closeVoid p void) id⟩
  | sendUdp k data =>
    exact ⟨[], (List.append_nil _).symm, connStep_keeps wf (NetStack.Keeps.sendUdp _ k data) _ id⟩
  | takeOutput limit =>
    refine ⟨_, select_append _ _ _, ?_⟩
    rw [select_pump wf.nodup]
    have after : (s.step (.takeOutput limit)).phase id =
        if s.stack.nextId ≤ id then .fresh
        else ((lookup Conn.id s.stack.conns id).map fun c => c.pump.1).elim .gone .live := by
      simp only [phase, step, NetStack.takeOutputLimit, NetStack.pumpTx_conns,
        NetStack.pumpTx_nextId]
      rw [lookup_map Conn.pump_id]
    rw [after, phase]
    by_cases fresh : s.stack.nextId ≤ id
    · rw [if_pos fresh, if_pos fresh, wf.absent fresh]
      exact .idle _ _
    · rw [if_neg fresh, if_neg fresh]
      cases found : lookup Conn.id s.stack.conns id with
      | none => exact .idle _ _
      | some c => exact .pump limit c (lookup_some found).2
  | takeEvents => exact ⟨[], (List.append_nil _).symm, ConnStep.idle _ _⟩

/-! ## Well-formed runs -/

variable (cfg : NetConfig)

theorem WellFormed.start : (start cfg).WellFormed :=
  ⟨List.nodup_nil, fun _ mem => absurd mem List.not_mem_nil⟩

theorem WellFormed.of_keeps (wf : s.WellFormed) (keeps : NetStack.Keeps s.stack s'.stack) :
    s'.WellFormed := by
  refine ⟨by rw [keeps.conns]; exact wf.nodup, fun c mem => ?_⟩
  rw [keeps.conns] at mem
  exact Nat.lt_of_lt_of_le (wf.bounded c mem) keeps.nextId

theorem WellFormed.of_ids (wf : s.WellFormed)
    (ids : (s'.stack.conns.map Conn.id).Sublist (s.stack.conns.map Conn.id))
    (nextId : s'.stack.nextId = s.stack.nextId) : s'.WellFormed := by
  refine ⟨ids.nodup wf.nodup, fun c mem => ?_⟩
  obtain ⟨c', mem', same⟩ := List.mem_map.mp (ids.subset (List.mem_map_of_mem mem))
  rw [nextId, ← same]
  exact wf.bounded c' mem'

theorem WellFormed.input (wf : s.WellFormed) (frame : List Byte) :
    (s.step (.input frame)).WellFormed := by
  cases reaches : s.stack.addressed frame with
  | some target =>
    obtain ⟨c, g⟩ := target
    obtain ⟨i, found, conns, nextId, -, -⟩ := NetStack.input_addressed reaches
    refine wf.of_ids ?_ nextId
    change ((s.stack.input frame).conns.map Conn.id).Sublist _
    rw [conns]
    cases left : (c.onSegment g).1 with
    | none => exact (List.eraseIdx_sublist s.stack.conns i).map Conn.id
    | some c' =>
      have same : (s.stack.conns.set i c').map Conn.id = s.stack.conns.map Conn.id := by
        obtain ⟨lt, rfl⟩ := List.getElem?_eq_some_iff.mp found
        rw [List.map_set, Conn.onSegment_id left, ← List.map_set, List.set_getElem_self]
      exact same ▸ List.Sublist.refl _
  | none =>
    cases opens : s.stack.opening frame with
    | none => exact wf.of_keeps (NetStack.input_keeps reaches opens)
    | some syn =>
      obtain ⟨dst, g⟩ := syn
      obtain ⟨conns, nextId, -, -⟩ := NetStack.input_opening opens
      have unused : s.stack.nextId ∉ s.stack.conns.map Conn.id :=
        lookup_none.mp (wf.absent (Nat.le_refl _))
      constructor
      · change ((s.stack.input frame).conns.map Conn.id).Nodup
        rw [conns, List.map_append]
        exact wf.nodup.append (List.nodup_singleton _) (by simpa [Conn.accepted] using unused)
      · change ∀ c ∈ (s.stack.input frame).conns, c.id < (s.stack.input frame).nextId
        rw [conns, nextId]
        exact List.forall_mem_append.mpr ⟨fun c mem => Nat.lt_succ_of_lt (wf.bounded c mem),
          List.forall_mem_singleton.mpr (Nat.lt_succ_self _)⟩

theorem WellFormed.step (wf : s.WellFormed) (call : Call) : (s.step call).WellFormed := by
  cases call with
  | input frame => exact wf.input frame
  | send k data =>
    have ids : (s.step (.send k data)).stack.conns.map Conn.id = s.stack.conns.map Conn.id :=
      map_adjust (f := fun c : Conn => { c with tx := c.tx ++ data }) (fun _ => rfl) _ _
    exact wf.of_ids (ids ▸ List.Sublist.refl _) rfl
  | close k =>
    have ids : (s.step (.close k)).stack.conns.map Conn.id = s.stack.conns.map Conn.id :=
      map_adjust (f := fun c : Conn => { c with finPending := true }) (fun _ => rfl) _ _
    exact wf.of_ids (ids ▸ List.Sublist.refl _) rfl
  | sendUdp k data => exact wf.of_keeps (.sendUdp _ k data)
  | takeOutput limit =>
    refine wf.of_ids ?_ (NetStack.pumpTx_nextId _)
    change (s.stack.pumpTx.conns.map Conn.id).Sublist _
    rw [NetStack.pumpTx_conns, List.map_map]
    simp [Function.comp_def]
  | takeEvents => exact ⟨wf.nodup, wf.bounded⟩

/-- What the calls keep in well-formed sessions holds along every run. -/
theorem run_keeps (I : Session → Prop) (first : I (Session.start cfg))
    (steps : ∀ s call, s.WellFormed → I s → I (s.step call)) (calls : List Call) :
    (run cfg calls).WellFormed ∧ I (run cfg calls) := by
  induction calls using List.reverseRecOn with
  | nil => exact ⟨.start cfg, first⟩
  | append_singleton calls call ih =>
    rw [run, Events.run_snoc]
    exact ⟨ih.1.step call, steps _ call ih.1 ih.2⟩

theorem WellFormed.run (calls : List Call) : (run cfg calls).WellFormed :=
  (run_keeps cfg (fun _ => True) trivial (fun _ _ _ _ => trivial) calls).1

/-! ## The journal is what the host sees -/

def outputsOf : List Note → List Output := List.filterMap fun | .output o => some o | _ => none

theorem outputsOf_append (a b : List Note) : outputsOf (a ++ b) = outputsOf a ++ outputsOf b :=
  List.filterMap_append

theorem outputsOf_map (l : List Output) : outputsOf (l.map .output) = l := by
  simp [outputsOf, List.filterMap_map]

/-- Every segment and event of a connection, taken by the host or still queued, is in its
history, in the same order. -/
structure Recorded (s : Session) (id : ConnId) : Prop where
  segments : s.frames.filterMap (Frame.ofConn id) ++ s.stack.sent id =
    Output.segments (outputsOf (s.history id))
  events : s.events.filter (·.conn = some id) ++ s.stack.told id =
    Output.events (outputsOf (s.history id))

theorem Recorded.grow (recorded : s.Recorded id) {notes : List Note} (frames : s'.frames = s.frames)
    (events : s'.events = s.events) (history : s'.history id = s.history id ++ notes)
    (sent : s'.stack.sent id = s.stack.sent id ++ Output.segments (outputsOf notes))
    (told : s'.stack.told id = s.stack.told id ++ Output.events (outputsOf notes)) :
    s'.Recorded id := by
  constructor
  · rw [frames, sent, history, outputsOf_append, Output.segments, List.filterMap_append,
      ← List.append_assoc, recorded.segments]
    rfl
  · rw [events, told, history, outputsOf_append, Output.events, List.filterMap_append,
      ← List.append_assoc, recorded.events]
    rfl

/-- What a frame makes its connection queue is what the journal says. -/
theorem input_queues (s : NetStack) (frame : List Byte) (id : ConnId) : (s.input frame).sent id =
        s.sent id ++ Output.segments (outputsOf (select id (inputNotes s frame))) ∧
        (s.input frame).told id =
        s.told id ++ Output.events (outputsOf (select id (inputNotes s frame))) := by
  unfold inputNotes
  cases reaches : s.addressed frame with
  | some target =>
    obtain ⟨c, g⟩ := target
    obtain ⟨i, -, -, -, sent, told⟩ := NetStack.input_addressed reaches
    have entries : outputsOf (select id ((c.id, .arrived g) :: outputs c.id (c.onSegment g).2)) =
        if c.id = id then (c.onSegment g).2 else [] := by
      rw [← List.singleton_append, select_append, select_outputs, outputsOf_append]
      by_cases own : c.id = id
      · rw [if_pos own, if_pos own, outputsOf_map]
        simp [select, own, outputsOf]
      · simp [own, select, outputsOf]
    dsimp only
    rw [entries, sent id, told id]
    by_cases own : c.id = id
    · simp [own]
    · simp [own, Output.segments, Output.events]
  | none =>
    dsimp only
    cases opens : s.opening frame with
    | none =>
      have kept := NetStack.input_keeps reaches opens
      exact ⟨(kept.sent id).trans (List.append_nil _).symm,
        (kept.told id).trans (List.append_nil _).symm⟩
    | some syn =>
      obtain ⟨dst, g⟩ := syn
      obtain ⟨-, -, sent, told⟩ := NetStack.input_opening opens
      rw [sent id, told id]
      by_cases own : s.nextId = id
      · simp [own, select, Conn.accepted, outputsOf, Output.segments, Output.events, Conn.emitFlags,
          Conn.emitSegment]
      · simp [own, select, Conn.accepted, outputsOf, Output.segments, Output.events]

theorem Recorded.step (wf : s.WellFormed) (recorded : s.Recorded id) (call : Call) :
    (s.step call).Recorded id := by
  cases call with
  | input frame =>
    obtain ⟨sent, told⟩ := input_queues s.stack frame id
    exact recorded.grow rfl rfl (select_append _ _ _) sent told
  | send k data =>
    have silent : outputsOf (select id [(k, .queued data)]) = [] := by
      by_cases own : k = id <;> simp [select, own, outputsOf]
    exact recorded.grow rfl rfl (select_append _ _ _)
      (by rw [silent]; exact (List.append_nil _).symm)
      (by rw [silent]; exact (List.append_nil _).symm)
  | close k =>
    have silent : outputsOf (select id [(k, .closing)]) = [] := by
      by_cases own : k = id <;> simp [select, own, outputsOf]
    exact recorded.grow rfl rfl (select_append _ _ _)
      (by rw [silent]; exact (List.append_nil _).symm)
      (by rw [silent]; exact (List.append_nil _).symm)
  | sendUdp k data =>
    have kept := NetStack.Keeps.sendUdp s.stack k data
    exact recorded.grow rfl rfl (List.append_nil _).symm
      ((kept.sent id).trans (List.append_nil _).symm)
        ((kept.told id).trans (List.append_nil _).symm)
  | takeOutput limit =>
    have pumped : (s.stack.pumpTx.out.take limit).filterMap (Frame.ofConn id) ++
        (s.stack.pumpTx.out.drop limit).filterMap (Frame.ofConn id) = s.stack.pumpTx.sent id := by
      rw [← List.filterMap_append, List.take_append_drop]
      rfl
    have entries : outputsOf (select id (s.stack.conns.flatMap fun c => outputs c.id c.pump.2)) =
        (lookup Conn.id s.stack.conns id).elim [] fun c => c.pump.2 := by
      rw [select_pump wf.nodup]
      cases lookup Conn.id s.stack.conns id with
      | none => rfl
      | some c => exact outputsOf_map _
    constructor
    · change (s.frames ++ s.stack.pumpTx.out.take limit).filterMap (Frame.ofConn id) ++
        (s.stack.pumpTx.out.drop limit).filterMap (Frame.ofConn id) =
          Output.segments (outputsOf (select id (s.journal ++ _)))
      rw [List.filterMap_append, List.append_assoc, pumped, NetStack.pumpTx_sent wf.nodup,
        ← List.append_assoc, recorded.segments, select_append, outputsOf_append, entries,
        Output.segments, List.filterMap_append]
      cases lookup Conn.id s.stack.conns id <;> rfl
    · change s.events.filter (·.conn = some id) ++ s.stack.pumpTx.told id =
          Output.events (outputsOf (select id (s.journal ++ _)))
      rw [NetStack.pumpTx_told, recorded.events, select_append, outputsOf_append, entries,
        Output.events, List.filterMap_append]
      cases lookup Conn.id s.stack.conns id with
      | none => exact (List.append_nil _).symm
      | some c =>
        have silent := c.pump_silent
        rw [Output.events] at silent
        rw [Option.elim_some, silent]
        exact (List.append_nil _).symm
  | takeEvents =>
    refine ⟨recorded.segments, ?_⟩
    change (s.events ++ s.stack.events).filter (·.conn = some id) ++ [] = _
    rw [List.append_nil, List.filter_append]
    exact recorded.events

/-- An invariant of each connection and its history, kept by every admitted call, holds
along every admitted run. -/
theorem run_invariant {I : ConnId → Phase → List Note → Prop} {admits : Session → Call → Prop}
    (unused : ∀ id, I id .fresh []) (void : ∀ id, I id .gone [])
    (keeps : ∀ s call id notes p', s.WellFormed → admits s call → I id (s.phase id) (s.history id) →
      ConnStep s id call (s.phase id) notes p' → I id p' (s.history id ++ notes))
    {cfg : NetConfig} {calls : List Call}
    (admitted : Events.Admitted Session.step admits (.start cfg) calls) (id : ConnId) :
    I id ((run cfg calls).phase id) ((run cfg calls).history id) := by
  have whole := admitted.keeps
    (I := fun s => s.WellFormed ∧ ∀ id, I id (s.phase id) (s.history id))
    (fun s call ok holds => by
      refine ⟨holds.1.step call, fun id => ?_⟩
      obtain ⟨notes, grows, stepped⟩ := step_connection holds.1 call id
      rw [grows]
      exact keeps s call id notes _ holds.1 ok (holds.2 id) stepped)
    ⟨.start cfg, fun id => by
      by_cases fresh : 1 ≤ id
      · simpa [phase, Session.start, NetStack.new, fresh, history, select] using unused id
      · simpa [phase, Session.start, NetStack.new, fresh, lookup, history, select] using void id⟩
  exact whole.2 id

/-- The journal of a run is what the host saw and what is still queued for it. -/
theorem run_recorded (calls : List Call) (id : ConnId) : (run cfg calls).Recorded id :=
  (run_keeps cfg (Recorded · id) ⟨rfl, rfl⟩ (fun _ call wf held => held.step wf call) calls).2

theorem ConnStep.advances {call : Call} {p p' : Phase} {notes : List Note}
    (stepped : ConnStep s id call p notes p') :
    p.rank ≤ p'.rank ∧ (p = .gone → outputsOf notes = []) := by
  cases stepped with
  | segment frame c g own reaches => cases (c.onSegment g).1 <;> simp [Phase.rank]
  | _ => simp [Phase.rank, outputsOf]

theorem rank_le_step (wf : s.WellFormed) (call : Call) (id : ConnId) :
    (s.phase id).rank ≤ ((s.step call).phase id).rank := by
  obtain ⟨_, -, stepped⟩ := step_connection wf call id
  exact stepped.advances.1

theorem phase_fresh_of_step (wf : s.WellFormed) (call : Call)
    (fresh : (s.step call).phase id = .fresh) : s.phase id = .fresh := by
  have rank := rank_le_step wf call id
  rw [fresh] at rank
  cases before : s.phase id with
  | fresh => rfl
  | _ => simp [before, Phase.rank] at rank

theorem eq_gone_of_rank {p p' : Phase} (gone : p = .gone) (rank : p.rank ≤ p'.rank) :
    p' = .gone := by
  rw [gone] at rank
  cases p' with
  | gone => rfl
  | _ => simp [Phase.rank] at rank

/-- What was removed, and what a late segment came for, is gone. -/
def Buried (s : Session) : Prop :=
  (∀ c ∈ s.ended, s.phase c.id = .gone) ∧ ∀ e ∈ s.late, s.phase e.1 = .gone

theorem Buried.step (buried : s.Buried) (wf : s.WellFormed) (call : Call) :
    (s.step call).Buried := by
  have stays {id : ConnId} (gone : s.phase id = .gone) : (s.step call).phase id = .gone :=
    eq_gone_of_rank gone (rank_le_step wf call id)
  cases call with
  | input frame =>
    refine ⟨fun c mem => ?_, fun e mem => ?_⟩
    · rcases List.mem_append.mp mem with now | before
      · unfold endedBy at now
        split at now
        next c' g reaches =>
          split at now
          next none =>
            rw [List.mem_singleton.mp now, phase_addressed wf reaches, if_pos rfl,
              Option.isNone_iff_eq_none.mp none]
            rfl
          next => cases now
        next => cases now
      · exact stays (buried.1 c before)
    · rcases List.mem_append.mp mem with before | now
      · exact stays (buried.2 e before)
      · unfold lateFor at now
        split at now
        next src dst g =>
          obtain ⟨c, found, rfl⟩ := Option.map_eq_some_iff.mp (Option.mem_toList.mp now)
          exact stays (buried.1 c (List.mem_of_find?_eq_some found))
        next => cases now
  | _ => exact ⟨fun c mem => stays (buried.1 c mem), fun e mem => stays (buried.2 e mem)⟩

theorem Buried.run (calls : List Call) : (run cfg calls).Buried :=
  (run_keeps cfg Buried ⟨nofun, nofun⟩ (fun _ call wf buried => buried.step wf call) calls).2

def lateOf (s : Session) (id : ConnId) : List Arrival :=
  s.late.filterMap fun e => if e.1 = id then some e.2 else none

theorem Buried.lateOf (buried : s.Buried) : s.phase id = .gone ∨ s.lateOf id = [] := by
  by_cases some : ∃ e ∈ s.late, e.1 = id
  · obtain ⟨e, mem, rfl⟩ := some
    exact .inl (buried.2 e mem)
  · refine .inr (List.filterMap_eq_nil_iff.mpr fun e mem => if_neg fun own => some ⟨e, mem, own⟩)

/-- The connection that a call accepts. -/
def acceptedBy (s : Session) : Call → Option Conn
  | .input frame =>
    if (s.stack.opening frame).isSome then (s.step (.input frame)).stack.conns.getLast? else none
  | _ => none

theorem acceptedBy_new (wf : s.WellFormed) {call : Call} {c : Conn}
    (accepts : s.acceptedBy call = some c) :
    s.phase c.id = .fresh ∧ (s.step call).phase c.id = .live c := by
  cases call with
  | input frame =>
    rw [acceptedBy] at accepts
    split at accepts
    next opens =>
      obtain ⟨⟨dst, g⟩, opens⟩ := Option.isSome_iff_exists.mp opens
      obtain ⟨conns, -⟩ := NetStack.input_opening opens
      have last : (s.step (.input frame)).stack.conns.getLast? = some
          (Conn.accepted s.stack.nextId g.sport dst g.dport g.seq g.window) := by
        simp [step, conns]
      cases last.symm.trans accepts
      exact ⟨if_pos (Nat.le_refl _), (wf.input frame).phase_live (List.mem_of_getLast? last)⟩
    next => cases accepts
  | _ => cases accepts

/-- The numbers of the connections that calls accept, in this order. -/
def accepted : Session → List Call → List ConnId
  | _, [] => []
  | s, call :: calls => ((s.acceptedBy call).map Conn.id).toList ++ accepted (s.step call) calls

theorem accepted_fresh (calls : List Call) (wf : s.WellFormed) :
    (s.accepted calls).Nodup ∧ ∀ id ∈ s.accepted calls, s.phase id = .fresh := by
  induction calls generalizing s with
  | nil => exact ⟨.nil, nofun⟩
  | cons call calls ih =>
    obtain ⟨distinct, later⟩ := ih (wf.step call)
    have unused : ∀ id ∈ (s.step call).accepted calls, s.phase id = .fresh :=
      fun id mem => phase_fresh_of_step wf call (later id mem)
    rw [accepted]
    cases accepts : s.acceptedBy call with
    | none => exact ⟨distinct, unused⟩
    | some c =>
      obtain ⟨fresh, live⟩ := acceptedBy_new wf accepts
      refine ⟨.cons (fun mem => ?_) distinct, List.forall_mem_cons.mpr ⟨fresh, unused⟩⟩
      cases live.symm.trans (later c.id mem)

/-- A connection number is used once: no two connections that a run accepts have the same number,
a number is never fresh again once given out and never live again once gone, and from then on
nothing is put out for it. -/
theorem connections_not_reused (cfg : NetConfig) (calls more : List Call) :
    ((start cfg).accepted calls).Nodup ∧ ∀ id : ConnId,
      ((run cfg calls).phase id).rank ≤ ((run cfg (calls ++ more)).phase id).rank ∧
        ((run cfg calls).phase id = .gone → outputsOf ((run cfg (calls ++ more)).history id) =
          outputsOf ((run cfg calls).history id)) := by
  refine ⟨(accepted_fresh calls (.start cfg)).1, fun id => ?_⟩
  induction more using List.reverseRecOn with
  | nil => simp
  | append_singleton more call ih =>
    obtain ⟨notes, grows, stepped⟩ := step_connection (.run cfg (calls ++ more)) call id
    obtain ⟨up, silent⟩ := stepped.advances
    have next : run cfg (calls ++ (more ++ [call])) = (run cfg (calls ++ more)).step call := by
      rw [← List.append_assoc]
      exact Events.run_snoc ..
    rw [next, grows, outputsOf_append]
    refine ⟨ih.1.trans up, fun gone => ?_⟩
    rw [ih.2 gone, silent (eq_gone_of_rank gone ih.1), List.append_nil]

end Session

end Rv64Js.Net
