import Rv64Js.Net.Transmit

/-! # What the guest sends

The stack takes a FIN wherever it arrives, and none after its own, and forgets the connection when
its own is acknowledged; a run in which each FIN arrives in order and before the stack's own, and
the stack's is acknowledged after the guest's, delivers the guest's stream. -/

set_option autoImplicit false

namespace Rv64Js.Net

open Conn Note Session List

open Events (Each each_nil each_snoc)

/-! ## Reading a history -/

/-- Sequence number of the first payload byte; a SYN takes the one before it. -/
def Arrival.firstSeq (g : Arrival) : BitVec 32 := g.seq + if g.flags.syn then 1 else 0

def Arrival.finSeq (g : Arrival) : BitVec 32 := g.firstSeq + BitVec.ofNat 32 g.payload.length

def Note.delivered : Note → List Byte
  | .output (.event (.data _ bytes)) => bytes
  | _ => []

def Note.isData : Note → Bool
  | .output (.event (.data ..)) => true
  | _ => false

def Note.isClosed : Note → Bool
  | .output (.event (.closed _)) => true
  | _ => false

def Note.arrival : Note → Option Arrival
  | .arrived g => some g
  | _ => none

def delivered (j : List Note) : List Byte := j.flatMap Note.delivered

def Closed (j : List Note) : Prop := ∃ n ∈ j, n.isClosed = true

instance (j : List Note) : Decidable (Closed j) := inferInstanceAs (Decidable (∃ n ∈ j, _))

/-- The guest's initial sequence number: the one of the segment that opened the connection. -/
def synSeq (j : List Note) : Option (BitVec 32) := (j.filterMap Note.arrival).head?.map Arrival.seq

/-- Some guest segment carries byte `b` at offset `k` of the guest's stream. -/
def Carries (isn : BitVec 32) (j : List Note) (k : Nat) (b : Byte) : Prop :=
  ∃ g i, .arrived g ∈ j ∧ g.payload[i]? = some b ∧
    g.firstSeq + BitVec.ofNat 32 i = isn + 1 + BitVec.ofNat 32 k

def Reset (j : List Note) : Prop := ∃ g, .arrived g ∈ j ∧ g.flags.rst = true

structure Faithful (isn : BitVec 32) (j : List Note) : Prop where
  /-- the delivered bytes are bytes of the stream, from its beginning and without a gap -/
  stream : ∀ k b, (delivered j)[k]? = some b → Carries isn j k b
  /-- nothing is delivered past the end -/
  ends : Each (fun before n => n.isData = true → ¬Closed before) j
  /-- the end is reported when everything before the FIN was delivered -/
  closes :
    Each (fun before n => n.isClosed = true → Reset before ∨ ∃ g, .arrived g ∈ before ∧
      g.flags.fin = true ∧
      g.finSeq = isn + 1 + BitVec.ofNat 32 (delivered before).length) j

/-- A FIN up to which everything was received is acknowledged; so is one that comes when the
connection is gone, unless the guest has reset it. -/
def Answered (isn : BitVec 32) (j : List Note) (late : List Arrival) : Prop :=
  ∀ g, .arrived g ∈ j ∨ g ∈ late ∧ ¬Reset j → g.flags.fin = true → g.flags.rst = false →
    g.finSeq = isn + 1 + BitVec.ofNat 32 (delivered j).length →
      ∃ s, .output (.segment s) ∈ j ∧ s.flags.ack = true ∧ s.ack = g.finSeq + 1

def Receives (j : List Note) (late : List Arrival) : Prop :=
  ∀ isn, synSeq j = some isn → Faithful isn j ∧ Answered isn j late

/-! ## Orderly runs -/

/-- Payload comes without SYN and before the end; a FIN that is no repetition arrives in order and
before the stack has sent its own. -/
def OrderlyArrival (j : List Note) (c : Conn) (g : Arrival) : Prop :=
  (g.payload ≠ [] → g.seq = c.rcvNxt → g.flags.syn = false ∧ ¬Closed j) ∧
    (g.flags.fin = true → ¬Closed j →
      c.state ≠ .lastAck ∧ (g.finSeq = c.rcvNxt ∨ g.seq = c.rcvNxt ∧ g.flags.syn = false))

instance (j : List Note) (c : Conn) (g : Arrival) : Decidable (OrderlyArrival j c g) :=
  inferInstanceAs (Decidable (_ ∧ _))

/-- Segments are orderly, and the stack's FIN is acknowledged when the end has been reported. -/
def Orderly (s : Session) : Call → Prop
  | .input frame =>
    (∀ p ∈ s.stack.addressed frame, p.2.flags.rst = false →
      OrderlyArrival (s.history p.1.id) p.1 p.2 ∧ (p.1.Ends p.2 → Closed (s.history p.1.id))) ∧
      ∀ p ∈ s.stack.opening frame, p.2.flags.fin = false
  | _ => True

instance (s : Session) : (call : Call) → Decidable (Orderly s call)
  | .input _ => inferInstanceAs (Decidable (_ ∧ _))
  | .send .. | .close _ | .sendUdp .. | .takeOutput _ | .takeEvents =>
    inferInstanceAs (Decidable True)

/-! ## Entries that deliver nothing -/

@[simp] theorem delivered_append (a b : List Note) :
    delivered (a ++ b) = delivered a ++ delivered b :=
  flatMap_append

variable {j : List Note}

theorem Closed.append (closed : Closed j) (more : List Note) : Closed (j ++ more) := by
  obtain ⟨n, mem, is⟩ := closed
  exact ⟨n, mem_append_left _ mem, is⟩

def Note.Quiet (n : Note) : Prop := n.isData = false ∧ n.isClosed = false

variable {n : Note}

theorem Note.Quiet.delivered (quiet : n.Quiet) : n.delivered = [] := by
  unfold Note.delivered
  split
  · exact absurd quiet.1 (by simp [isData])
  · rfl

variable {notes : List Note}

theorem delivered_quiet (quiet : ∀ n ∈ notes, n.Quiet) : delivered notes = [] :=
  flatMap_eq_nil_iff.mpr fun n mem => (quiet n mem).delivered

theorem closed_quiet (quiet : ∀ n ∈ notes, n.Quiet) : Closed (j ++ notes) ↔ Closed j := by
  constructor
  · rintro ⟨n, mem, is⟩
    rcases mem_append.mp mem with mem | mem
    · exact ⟨n, mem, is⟩
    · exact absurd is (by rw [(quiet n mem).2]; decide)
  · exact fun closed => closed.append _

variable {isn : BitVec 32}

theorem Carries.append {k : Nat} {b : Byte} (carries : Carries isn j k b)
    (more : List Note) : Carries isn (j ++ more) k b := by
  obtain ⟨g, i, mem, rest⟩ := carries
  exact ⟨g, i, mem_append_left _ mem, rest⟩

theorem Faithful.quiet (faithful : Faithful isn j) (quiet : ∀ n ∈ notes, n.Quiet) :
    Faithful isn (j ++ notes) := by
  induction notes generalizing j with
  | nil => simpa using faithful
  | cons n notes ih =>
    have first := quiet n mem_cons_self
    have nothing : delivered [n] = [] := delivered_quiet (by simpa using first)
    have next : Faithful isn (j ++ [n]) := by
      refine ⟨fun k b at' => ?_, each_snoc.mpr ⟨faithful.ends, ?_⟩,
        each_snoc.mpr ⟨faithful.closes, ?_⟩⟩
      · rw [delivered_append, nothing, append_nil] at at'
        exact (faithful.stream k b at').append _
      · exact fun is => absurd is (by rw [first.1]; decide)
      · exact fun is => absurd is (by rw [first.2]; decide)
    simpa using ih next fun m mem => quiet m (mem_cons_of_mem _ mem)

/-! ## The receiving side of a connection -/

def expected (isn : BitVec 32) (j : List Note) : BitVec 32 :=
  isn + 1 + BitVec.ofNat 32 (delivered j).length + if Closed j then 1 else 0

structure RxLive (isn : BitVec 32) (c : Conn) (j : List Note) : Prop where
  faithful : Faithful isn j
  rcv : c.rcvNxt = expected isn j
  waits : c.state = .closeWait → Closed j
  still : c.state = .established ∨ c.state = .synReceived → ¬Closed j
  acked : Closed j → ∃ s, .output (.segment s) ∈ j ∧ s.flags.ack = true ∧ s.ack = expected isn j

theorem expected_quiet (quiet : ∀ n ∈ notes, n.Quiet) :
    expected isn (j ++ notes) = expected isn j := by
  simp only [expected, delivered_append, delivered_quiet quiet, append_nil, closed_quiet quiet]

variable {c : Conn}

theorem RxLive.quiet {c' : Conn} (live : RxLive isn c j) (rcvNxt : c'.rcvNxt = c.rcvNxt)
    (waits : c'.state = .closeWait → c.state = .closeWait)
    (still : c'.state = .established ∨ c'.state = .synReceived → c.state = .established ∨
      c.state = .synReceived)
    (quiet : ∀ n ∈ notes, n.Quiet) : RxLive isn c' (j ++ notes) := by
  refine ⟨live.faithful.quiet quiet, ?_, ?_, ?_, ?_⟩
  · rw [rcvNxt, live.rcv, expected_quiet quiet]
  · exact fun state => (live.waits (waits state)).append _
  · exact fun state => (closed_quiet quiet).not.mpr (live.still (still state))
  · intro closed
    obtain ⟨s, mem, isAck, number⟩ := live.acked ((closed_quiet quiet).mp closed)
    exact ⟨s, mem_append_left _ mem, isAck, by rw [number, expected_quiet quiet]⟩

theorem Conn.onAck_rcvNxt (c : Conn) (g : Arrival) : (c.onAck g).1.rcvNxt = c.rcvNxt := by
  unfold onAck establish acknowledge
  dsimp only
  split_ifs <;> rfl

theorem Conn.onAck_state (c : Conn) (g : Arrival) :
    (c.onAck g).1.state = c.state ∨ c.state = .synReceived ∧
    (c.onAck g).1.state = .established := by
  unfold onAck
  dsimp only
  split
  · by_cases syn : c.state = .synReceived
    · rw [establish_syn (by rw [acknowledge_state]; exact syn)]
      exact .inr ⟨syn, rfl⟩
    · rw [establish_other (by rw [acknowledge_state]; exact syn), acknowledge_state]
      exact .inl rfl
  · exact .inl rfl

theorem Conn.onAck_lastAck (c : Conn) (g : Arrival) :
    (c.onAck g).1.state = .lastAck ↔ c.state = .lastAck := by
  rcases c.onAck_state g with same | ⟨before, after⟩
  · rw [same]
  · simp [before, after]

theorem onAck_quiet (c : Conn) (g : Arrival) :
    ∀ n ∈ Note.arrived g :: (c.onAck g).2.map .output, n.Quiet := by
  unfold onAck establish
  dsimp only
  split_ifs <;> simp [Quiet, isData, isClosed]

theorem RxLive.onAck (live : RxLive isn c j) (g : Arrival) :
    RxLive isn (c.onAck g).1 (j ++ .arrived g :: (c.onAck g).2.map .output) := by
  refine live.quiet (c.onAck_rcvNxt g) ?_ ?_ (onAck_quiet c g)
  · intro waits
    rcases c.onAck_state g with same | ⟨-, now⟩
    · exact same ▸ waits
    · rw [now] at waits
      cases waits
  · intro open'
    rcases c.onAck_state g with same | ⟨syn, -⟩
    · exact same ▸ open'
    · exact .inr syn

variable {g : Arrival}

theorem OrderlyArrival.onAck (orderly : OrderlyArrival j c g) :
    OrderlyArrival (j ++ .arrived g :: (c.onAck g).2.map .output) (c.onAck g).1 g := by
  unfold OrderlyArrival at orderly ⊢
  rw [closed_quiet (onAck_quiet c g), c.onAck_rcvNxt]
  simp only [ne_eq, c.onAck_lastAck] at orderly ⊢
  exact orderly

theorem RxLive.receive (live : RxLive isn c j) (arrived : .arrived g ∈ j)
    (orderly : g.payload ≠ [] → g.seq = c.rcvNxt → g.flags.syn = false ∧ ¬Closed j) :
    RxLive isn (c.receive g.seq g.payload).1 (j ++ (c.receive g.seq g.payload).2.map .output) := by
  unfold Conn.receive
  split_ifs with empty inOrder
  · simpa using live
  · obtain ⟨noSyn, notClosed⟩ := orderly empty inOrder
    -- the new bytes are the segment's, at the number that was expected
    have number : g.firstSeq = isn + 1 + BitVec.ofNat 32 (delivered j).length := by
      rw [Arrival.firstSeq, noSyn, inOrder, live.rcv, expected, if_neg notClosed]
      simp
    have told : Faithful isn (j ++ [.output (.event (.data c.id g.payload))]) := by
      refine ⟨fun k b at' => ?_, each_snoc.mpr ⟨live.faithful.ends, fun _ => notClosed⟩,
        each_snoc.mpr ⟨live.faithful.closes, ?_⟩⟩
      · rw [delivered_append] at at'
        by_cases old : k < (delivered j).length
        · rw [getElem?_append_left old] at at'
          exact (live.faithful.stream k b at').append _
        · rw [getElem?_append_right (by omega)] at at'
          refine ⟨g, k - (delivered j).length, mem_append_left _ arrived,
            by simpa [delivered, Note.delivered] using at', ?_⟩
          rw [number, BitVec.add_assoc, ← BitVec.ofNat_add, Nat.add_sub_cancel' (by omega)]
      · exact fun is => absurd is (by simp [isClosed])
    have notClosed' : ¬Closed (j ++ [.output (.event (.data c.id g.payload))]) := by
      rintro ⟨n, mem, is⟩
      rcases mem_append.mp mem with mem | mem
      · exact notClosed ⟨n, mem, is⟩
      · rw [mem_singleton.mp mem] at is
        cases is
    have next : RxLive isn { c with rcvNxt := c.rcvNxt + BitVec.ofNat 32 g.payload.length }
        (j ++ [.output (.event (.data c.id g.payload))]) := by
      refine ⟨told, ?_, fun state => absurd (live.waits state) notClosed, fun _ => notClosed',
        fun closed => absurd closed notClosed'⟩
      simp only [live.rcv, expected, if_neg notClosed, if_neg notClosed', delivered_append]
      rw [length_append, BitVec.ofNat_add]
      simp [delivered, Note.delivered, BitVec.add_assoc]
    have quiet : ∀ n ∈ [Note.output
        (emitAck { c with rcvNxt := c.rcvNxt + BitVec.ofNat 32 g.payload.length })], n.Quiet := by
      simp [Quiet, isData, isClosed, emitAck, emitFlags, emitSegment]
    have answered := next.quiet rfl (fun h => h) (fun h => h) quiet
    simpa using answered
  · exact live.quiet rfl (fun h => h) (fun h => h)
      (by simp [Quiet, isData, isClosed, emitAck, emitFlags, emitSegment])

theorem RxLive.finish (live : RxLive isn c j) (arrived : .arrived g ∈ j) (fin : g.flags.fin = true)
    (open' : c.state = .established ∨ c.state = .synReceived) (inOrder : g.finSeq = c.rcvNxt) :
    RxLive isn c.finish.1 (j ++ c.finish.2.map .output) ∧ Closed (j ++ c.finish.2.map .output) := by
  have notClosed := live.still open'
  have number : g.finSeq = isn + 1 + BitVec.ofNat 32 (delivered j).length := by
    rw [inOrder, live.rcv, expected, if_neg notClosed]
    exact BitVec.add_zero _
  unfold Conn.finish
  rw [if_pos open']
  dsimp only
  generalize done : { c with rcvNxt := c.rcvNxt + 1, state := .closeWait } = c'
  have rcvNxt : c'.rcvNxt = c.rcvNxt + 1 := by rw [← done]
  have quiet : ∀ n ∈ [Note.output c'.emitAck], n.Quiet := by
    simp [Quiet, isData, isClosed, emitAck, emitFlags, emitSegment]
  have split : j ++ [c'.emitAck, Output.event (.closed c.id)].map Note.output =
      (j ++ [.output c'.emitAck]) ++ [.output (.event (.closed c.id))] := by simp
  have closed : Closed ((j ++ [.output c'.emitAck]) ++ [.output (.event (.closed c.id))]) :=
    ⟨_, mem_append_right _ (mem_singleton.mpr rfl), rfl⟩
  have same : delivered ((j ++ [.output c'.emitAck]) ++ [.output (.event (.closed c.id))]) =
      delivered j := by
    rw [delivered_append, delivered_append, delivered_quiet quiet]
    simp [delivered, Note.delivered]
  have next : c.rcvNxt + 1 =
      expected isn ((j ++ [.output c'.emitAck]) ++ [.output (.event (.closed c.id))]) := by
    rw [live.rcv, expected, expected, same, if_neg notClosed, if_pos closed]
    exact congrArg (· + 1) (BitVec.add_zero _)
  rw [split]
  refine ⟨⟨?_, ?_, fun _ => closed, ?_, fun _ => ?_⟩, closed⟩
  · have told := live.faithful.quiet quiet
    refine ⟨fun k b at' => ?_, each_snoc.mpr ⟨told.ends, fun is => absurd is (by simp [isData])⟩,
      each_snoc.mpr ⟨told.closes, fun _ => Or.inr ⟨g, mem_append_left _ arrived, fin, ?_⟩⟩⟩
    · rw [same] at at'
      exact ((live.faithful.stream k b at').append _).append _
    · rw [delivered_append, delivered_quiet quiet, append_nil]
      exact number
  · rw [rcvNxt]
    exact next
  · rw [← done]
    rintro (state | state) <;> cases state
  · refine ⟨_, mem_append_left _ (mem_append_right _ (mem_singleton.mpr rfl)), rfl, ?_⟩
    rw [← next, ← rcvNxt]

/-- Every FIN that arrived was taken. -/
def FinsTaken (j : List Note) : Prop :=
  ∀ g, .arrived g ∈ j → g.flags.fin = true → g.flags.rst = false → Closed j

theorem FinsTaken.append (taken : FinsTaken j) {more : List Note}
    (none : ∀ g, .arrived g ∈ more → g.flags.fin = true → g.flags.rst = false →
      Closed (j ++ more)) : FinsTaken (j ++ more) := by
  intro g mem fin whole
  rcases mem_append.mp mem with mem | mem
  · exact (taken g mem fin whole).append _
  · exact none g mem fin whole

theorem RxLive.answered_closed (live : RxLive isn c j) (closed : Closed j)
    (late : List Arrival) : Answered isn j late := by
  intro g _ _ _ number
  obtain ⟨s, out, isAck, ack⟩ := live.acked closed
  exact ⟨s, out, isAck, by rw [ack, expected, if_pos closed, number]⟩

theorem RxLive.answered (live : RxLive isn c j) (taken : FinsTaken j) : Answered isn j [] := by
  intro g mem fin whole
  have arrived := mem.resolve_right fun late => not_mem_nil late.1
  exact live.answered_closed (taken g arrived fin whole) [] g mem fin whole

theorem RxLive.absorb (live : RxLive isn c j) (arrived : .arrived g ∈ j)
    (orderly : OrderlyArrival j c g) :
    RxLive isn (c.absorb g).1 (j ++ (c.absorb g).2.map .output) ∧
      (g.flags.fin = true → Closed (j ++ (c.absorb g).2.map .output)) := by
  have received := live.receive arrived orderly.1
  unfold Conn.absorb
  dsimp only
  cases fin : g.flags.fin with
  | false => exact ⟨received, fun h => by cases h⟩
  | true =>
    rw [if_pos rfl]
    dsimp only
    rw [map_append, ← append_assoc]
    by_cases closed : Closed j
    · -- the FIN again
      have closed' := closed.append ((c.receive g.seq g.payload).2.map Note.output)
      have state : ¬((c.receive g.seq g.payload).1.state = .established ∨
          (c.receive g.seq g.payload).1.state = .synReceived) := fun open' => received.still open'
            closed'
      rw [Conn.finish, if_neg state, map_nil, append_nil]
      exact ⟨received, fun _ => closed'⟩
    · obtain ⟨notLast, inOrder⟩ := orderly.2 fin closed
      have open' : c.state = .established ∨ c.state = .synReceived := by
        cases state : c.state with
        | synReceived => exact .inr rfl
        | established => exact .inl rfl
        | closeWait => exact absurd (live.waits state) closed
        | lastAck => exact absurd state notLast
      have number : g.finSeq = (c.receive g.seq g.payload).1.rcvNxt := by
        unfold Conn.receive
        split_ifs with empty hit
        · rcases inOrder with number | ⟨seq, noSyn⟩
          · exact number
          · simp [Arrival.finSeq, Arrival.firstSeq, empty, seq, noSyn]
        · obtain ⟨noSyn, -⟩ := orderly.1 empty hit
          simp [Arrival.finSeq, Arrival.firstSeq, hit, noSyn]
        · rcases inOrder with number | ⟨seq, -⟩
          · exact number
          · exact absurd seq hit
      obtain ⟨finished, done⟩ := received.finish (mem_append_left _ arrived) fin
        (by rw [receive_state]; exact open') number
      exact ⟨finished, fun _ => done⟩

/-! ## Every call -/

theorem synSeq_append (known : synSeq j = some isn) (more : List Note) :
    synSeq (j ++ more) = some isn := by
  unfold synSeq at known ⊢
  rw [filterMap_append]
  cases h : j.filterMap arrival with
  | nil => rw [h] at known; cases known
  | cons g rest => rw [h] at known; exact known

def Note.OfHost : Note → Prop
  | .queued _ => True
  | .closing => True
  | _ => False

theorem Note.OfHost.quiet (host : n.OfHost) : n.Quiet ∧ n.arrival = none := by
  cases n with
  | queued data => exact ⟨⟨rfl, rfl⟩, rfl⟩
  | closing => exact ⟨⟨rfl, rfl⟩, rfl⟩
  | arrived g => exact host.elim
  | output o => exact host.elim

def RxInv (p : Phase) (j : List Note) : Prop :=
  match p with
  | .fresh => ∀ n ∈ j, n.OfHost
  | .live c => ∃ isn, synSeq j = some isn ∧ RxLive isn c j ∧ FinsTaken j
  | .gone => ∀ late, Receives j late

theorem synSeq_ofHost (host : ∀ n ∈ j, n.OfHost) : synSeq j = none := by
  have none : j.filterMap arrival = [] :=
    filterMap_eq_nil_iff.mpr fun n mem => (host n mem).quiet.2
  rw [synSeq, none]
  rfl

variable {late : List Arrival}

theorem Receives.host (receives : Receives j late) (host : n.OfHost) :
    Receives (j ++ [n]) late := by
  have quiet : ∀ m ∈ [n], m.Quiet := by simpa using host.quiet.1
  intro isn known
  have known' : synSeq j = some isn := by
    simpa [synSeq, host.quiet.2] using known
  obtain ⟨faithful, answered⟩ := receives isn known'
  refine ⟨faithful.quiet quiet, fun g mem fin whole number => ?_⟩
  rw [delivered_append, delivered_quiet quiet, append_nil] at number
  have mem' : .arrived g ∈ j ∨ g ∈ late ∧ ¬Reset j := by
    refine mem.imp (fun mem => (mem_append.mp mem).resolve_right fun last => ?_)
      fun ⟨came, whole⟩ => ⟨came, fun ⟨g, mem, rst⟩ => whole ⟨g, mem_append_left _ mem, rst⟩⟩
    rw [← mem_singleton.mp last] at host
    exact host.elim
  obtain ⟨s, out, rest⟩ := answered g mem' fin whole number
  exact ⟨s, mem_append_left _ out, rest⟩

theorem RxInv.quiet {c' : Conn} (inv : RxInv (.live c) j) (rcvNxt : c'.rcvNxt = c.rcvNxt)
    (waits : c'.state = .closeWait → c.state = .closeWait)
    (still : c'.state = .established ∨ c'.state = .synReceived → c.state = .established ∨
      c.state = .synReceived)
    (quiet : ∀ n ∈ notes, n.Quiet) (silent : ∀ g, .arrived g ∉ notes) :
    RxInv (.live c') (j ++ notes) := by
  obtain ⟨isn, known, live, taken⟩ := inv
  exact ⟨isn, synSeq_append known _, live.quiet rcvNxt waits still quiet,
    taken.append fun g mem => absurd mem (silent g)⟩

theorem RxLive.reset (live : RxLive isn c j) (taken : FinsTaken j) (rst : g.flags.rst = true)
    (id : ConnId) : Faithful isn (j ++ [.arrived g, .output (.event (.closed id))]) ∧
      Answered isn (j ++ [.arrived g, .output (.event (.closed id))]) late := by
  have quiet : ∀ n ∈ [Note.arrived g], n.Quiet := by simp [Quiet, isData, isClosed]
  have heard := live.faithful.quiet quiet
  have same : delivered ((j ++ [.arrived g]) ++ [.output (.event (.closed id))]) = delivered j := by
    simp [delivered, Note.delivered]
  have split : j ++ [.arrived g, .output (.event (.closed id))] =
      (j ++ [.arrived g]) ++ [.output (.event (.closed id))] := by simp
  rw [split]
  constructor
  · refine ⟨fun k b at' => ?_, each_snoc.mpr ⟨heard.ends, fun is => absurd is (by simp [isData])⟩,
      each_snoc.mpr ⟨heard.closes, fun _ => Or.inl ⟨g, mem_append_right _ mem_cons_self, rst⟩⟩⟩
    rw [same] at at'
    exact ((live.faithful.stream k b at').append _).append _
  · intro g' mem fin whole number
    have earlier : .arrived g' ∈ j := by
      have heard := mem.resolve_right fun late =>
        late.2 ⟨g, mem_append_left _ (mem_append_right _ mem_cons_self), rst⟩
      have known : .arrived g' ∈ j ∨ g' = g := by simpa using heard
      refine known.resolve_right fun same => ?_
      rw [same, rst] at whole
      cases whole
    rw [same] at number
    obtain ⟨s, out, rest⟩ := live.answered taken g' (.inl earlier) fin whole number
    exact ⟨s, mem_append_left _ (mem_append_left _ out), rest⟩

theorem RxInv.segment (inv : RxInv (.live c) j)
    (orderly : g.flags.rst = false → OrderlyArrival j c g ∧ (c.Ends g → Closed j)) :
    RxInv ((c.onSegment g).1.elim .gone .live)
      (j ++ .arrived g :: (c.onSegment g).2.map .output) := by
  obtain ⟨isn, known, live, taken⟩ := inv
  cases rst : g.flags.rst with
  | true =>
    rw [onSegment, rst]
    intro late isn' known'
    obtain rfl : isn = isn' := Option.some.inj ((synSeq_append known _).symm.trans known')
    exact live.reset taken rst c.id
  | false =>
    obtain ⟨order, last⟩ := orderly rst
    have heard := live.onAck g
    have arrived : Note.arrived g ∈ j ++ .arrived g :: (c.onAck g).2.map .output :=
      mem_append_right _ mem_cons_self
    unfold onSegment
    rw [rst]
    simp only [Bool.false_eq_true, if_false]
    by_cases ends : c.Ends g
    · rw [if_pos ends]
      intro late isn' known'
      obtain rfl : isn = isn' := Option.some.inj ((synSeq_append known _).symm.trans known')
      exact ⟨heard.faithful, heard.answered_closed ((last ends).append _) late⟩
    · rw [if_neg ends]
      obtain ⟨absorbed, closes⟩ := heard.absorb arrived order.onAck
      have split : j ++ .arrived g :: ((c.onAck g).2 ++ ((c.onAck g).1.absorb g).2).map .output =
          (j ++ .arrived g :: (c.onAck g).2.map .output) ++ ((c.onAck g).1.absorb g).2.map
            .output := by
        simp
      dsimp only [Option.elim]
      rw [split]
      refine ⟨isn, synSeq_append (synSeq_append known _) _, absorbed, fun g' mem fin whole => ?_⟩
      have known : .arrived g' ∈ j ∨ g' = g := by simpa using mem
      rcases known with old | rfl
      · exact ((taken g' old fin whole).append _).append _
      · exact closes fin

theorem pump_quiet (c : Conn) : ∀ n ∈ c.pump.2.map Note.output, n.Quiet := by
  unfold Conn.pump pumpData pumpFin
  dsimp only
  split_ifs <;> simp [Quiet, isData, isClosed, emitFlags, emitSegment]

theorem Conn.pump_rcvNxt (c : Conn) : c.pump.1.rcvNxt = c.rcvNxt := by
  unfold Conn.pump pumpData pumpFin
  dsimp only
  split_ifs <;> rfl

theorem Conn.pump_state (c : Conn) : c.pump.1.state = c.state ∨ c.pump.1.state = .lastAck := by
  unfold Conn.pump pumpData pumpFin
  dsimp only
  split_ifs <;> simp

theorem RxInv.pump (inv : RxInv (.live c) j) :
    RxInv (.live c.pump.1) (j ++ c.pump.2.map .output) := by
  refine inv.quiet c.pump_rcvNxt ?_ ?_ (pump_quiet c) (by simp)
  · intro waits
    rcases c.pump_state with same | last
    · exact same ▸ waits
    · rw [last] at waits
      cases waits
  · intro open'
    rcases c.pump_state with same | last
    · exact same ▸ open'
    · rw [last] at open'
      rcases open' with h | h <;> cases h

theorem RxInv.accepted (inv : RxInv .fresh j) (fin : g.flags.fin = false) (id : ConnId) (dst : Ip)
    (o : Segment) :
    RxInv (.live (accepted id g.sport dst g.dport g.seq g.window))
      (j ++ [.arrived g, .output (.segment o)]) := by
  have none : j.filterMap arrival = [] :=
    filterMap_eq_nil_iff.mpr fun n mem => (inv n mem).quiet.2
  have quiet : ∀ n ∈ j ++ [Note.arrived g, .output (.segment o)], n.Quiet := by
    refine forall_mem_append.mpr ⟨fun n mem => (inv n mem).quiet.1, ?_⟩
    exact forall_mem_cons.mpr ⟨⟨rfl, rfl⟩, forall_mem_singleton.mpr ⟨rfl, rfl⟩⟩
  have notClosed : ¬Closed (j ++ [Note.arrived g, .output (.segment o)]) := by
    rintro ⟨n, mem, is⟩
    rw [(quiet n mem).2] at is
    cases is
  have empty : Faithful g.seq [] := by
    refine ⟨fun k b at' => ?_, each_nil _, each_nil _⟩
    cases at'
  have silent : FinsTaken (j ++ [.arrived g, .output (.segment o)]) := by
    intro g' mem fin'
    rcases mem_append.mp mem with mem | mem
    · exact (inv _ mem).elim
    · have same : g' = g := by simpa using mem
      rw [same, fin] at fin'
      cases fin'
  refine ⟨g.seq, ?_, ⟨?_, ?_, ?_, fun _ => notClosed, fun closed => absurd closed notClosed⟩,
    silent⟩
  · simp [synSeq, none, arrival]
  · exact empty.quiet quiet
  · rw [expected, if_neg notClosed, delivered_quiet quiet]
    simp [Conn.accepted]
  · exact fun state => by cases state

variable {p : Phase}

theorem RxInv.void (inv : RxInv p j) (void : ∀ c, p ≠ .live c) (host : n.OfHost) :
    RxInv p (j ++ [n]) := by
  cases p with
  | fresh => exact forall_mem_append.mpr ⟨inv, forall_mem_singleton.mpr host⟩
  | live c => exact absurd rfl (void c)
  | gone => exact fun late => (inv late).host host

/-- What the guest may rely on is kept by every orderly call. -/
theorem RxInv.step {s : Session} {call : Call} {id : ConnId} {p' : Phase} (orderly : Orderly s call)
    (inv : RxInv p (s.history id))
    (stepped : ConnStep s id call p notes p') : RxInv p' (s.history id ++ notes) := by
  cases stepped with
  | idle =>
    rw [append_nil]
    exact inv
  | taken =>
    rw [append_nil]
    exact fun late isn known => by rw [synSeq_ofHost inv] at known; cases known
  | accept frame dst g opens => exact inv.accepted (orderly.2 (dst, g) opens) id dst _
  | segment frame c g own reaches =>
    refine inv.segment fun whole => ?_
    have order := orderly.1 (c, g) reaches whole
    rw [own] at order
    exact order
  | send | close =>
    exact inv.quiet rfl (fun h => h) (fun h => h) (by simp [Quiet, isData, isClosed]) (by simp)
  | sendVoid _ _ void | closeVoid _ void => exact inv.void void trivial
  | pump limit c own => exact inv.pump

theorem RxInv.receives (inv : RxInv p j) (only : p = .gone ∨ late = []) : Receives j late := by
  intro isn known
  cases p with
  | fresh =>
    rw [synSeq_ofHost inv] at known
    cases known
  | live c =>
    obtain ⟨isn', known', live, taken⟩ := inv
    obtain rfl : isn' = isn := Option.some.inj (known'.symm.trans known)
    rw [only.resolve_left nofun]
    exact ⟨live.faithful, live.answered taken⟩
  | gone => exact inv late isn known

/-- In every orderly run every connection delivers the guest's stream, reports its end after
the last byte and acknowledges the FIN, whether it still finds the connection or not. -/
theorem orderly_run_receives (cfg : NetConfig) (calls : List Call)
    (orderly : Events.Admitted Session.step Orderly (Session.start cfg) calls) (id : ConnId) :
    (Session.run cfg calls).Recorded id ∧
      Receives ((Session.run cfg calls).history id) ((Session.run cfg calls).lateOf id) := by
  refine ⟨Session.run_recorded cfg calls id, ?_⟩
  have inv := Session.run_invariant (I := fun _ p j => RxInv p j)
    (fun _ _ mem => by cases mem) (fun _ _ _ known => by cases known)
    (fun _ _ _ _ _ _ ok inv stepped => inv.step ok stepped) orderly id
  exact inv.receives (Buried.run cfg calls).lateOf

/-- The guest ends, the host after it; the guest repeats its FIN when the connection is gone. -/
def Dialogue.talk : List Call :=
  [.input (Dialogue.frame 1000 0 0x02 []), .input (Dialogue.frame 1001 0x10010001 0x10 []),
    .input (Dialogue.frame 1001 0x10010001 0x10 [0x68, 0x69]),
    .input (Dialogue.frame 1003 0x10010001 0x11 []), .close 1, .takeOutput 8,
    .input (Dialogue.frame 1004 0x10010002 0x10 []),
    .input (Dialogue.frame 1003 0x10010002 0x11 [])]

theorem Dialogue.talk_received :
    delivered ((Session.run NetConfig.default Dialogue.talk).history 1) = [0x68, 0x69] ∧
      Closed ((Session.run NetConfig.default Dialogue.talk).history 1) ∧
      (Session.run NetConfig.default Dialogue.talk).lateOf 1 =
        [⟨40000, 8080, 1003, 0x10010002, Flags.ofByte 0x11, 0xffff, []⟩] ∧
      Receives ((Session.run NetConfig.default Dialogue.talk).history 1)
        ((Session.run NetConfig.default Dialogue.talk).lateOf 1) :=
  ⟨by decide +kernel, by decide +kernel, by decide +kernel,
    (orderly_run_receives NetConfig.default Dialogue.talk (by decide +kernel) 1).2⟩

theorem arrived_mem : .arrived g ∈ j ↔ g ∈ j.filterMap arrival := by
  rw [mem_filterMap]
  constructor
  · exact fun mem => ⟨_, mem, rfl⟩
  · rintro ⟨n, mem, is⟩
    cases n with
    | arrived g' => exact Option.some.inj is ▸ mem
    | _ => cases is

theorem segment_mem {s : Segment} (mem : .output (.segment s) ∈ j) :
    s ∈ Output.segments (outputsOf j) :=
  mem_filterMap.mpr ⟨.segment s, mem_filterMap.mpr ⟨_, mem, rfl⟩, rfl⟩

namespace EarlyFin

/-- The FIN overtakes the second byte, which arrives last. -/
def overtaken : List Call :=
  [.input (Dialogue.frame 1000 0 0x02 []), .input (Dialogue.frame 1001 0x10010001 0x10 []),
    .input (Dialogue.frame 1001 0x10010001 0x10 [0x68]),
    .input (Dialogue.frame 1003 0x10010001 0x11 []),
    .input (Dialogue.frame 1002 0x10010001 0x10 [0x69])]

/-- Both sides close: the host's FIN is out when the guest's arrives. -/
def bothClose : List Call :=
  [.input (Dialogue.frame 1000 0 0x02 []), .input (Dialogue.frame 1001 0x10010001 0x10 []),
    .close 1, .takeOutput 8, .input (Dialogue.frame 1001 0x10010001 0x11 []),
    .input (Dialogue.frame 1002 0x10010002 0x10 [])]

/-- The host closes first: the guest acknowledges that, and then ends as well. -/
def hostFirst : List Call :=
  [.input (Dialogue.frame 1000 0 0x02 []), .input (Dialogue.frame 1001 0x10010001 0x10 []),
    .close 1, .takeOutput 8, .input (Dialogue.frame 1001 0x10010002 0x10 []),
    .input (Dialogue.frame 1001 0x10010002 0x11 [])]

def unreceived (calls : List Call) : Prop :=
  ¬Receives ((Session.run NetConfig.default calls).history 1)
    ((Session.run NetConfig.default calls).lateOf 1)

/-- A guest that ends at 1001 without a reset gets no acknowledgement of it. -/
theorem fin_unanswered {calls : List Call} (ack : BitVec 32)
    (known : synSeq ((Session.run NetConfig.default calls).history 1) = some 1000)
    (nothing : delivered ((Session.run NetConfig.default calls).history 1) = [])
    (ended : .arrived ⟨40000, 8080, 1001, ack, Flags.ofByte 0x11, 0xffff, []⟩ ∈
        (Session.run NetConfig.default calls).history 1 ∨
      ⟨40000, 8080, 1001, ack, Flags.ofByte 0x11, 0xffff, []⟩ ∈
        (Session.run NetConfig.default calls).lateOf 1 ∧
          ¬Reset ((Session.run NetConfig.default calls).history 1))
    (silent : ∀ s ∈ Output.segments
      (Session.outputsOf ((Session.run NetConfig.default calls).history 1)), s.ack ≠ 1002) :
    unreceived calls := by
  intro receives
  obtain ⟨s, out, -, number⟩ := (receives 1000 known).2 _ ended rfl rfl (by rw [nothing]; rfl)
  exact silent s (segment_mem out) (number.trans rfl)

/-- The end is reported with a byte outstanding, and the byte is then refused; after the host's FIN
the guest's is never acknowledged, whether it finds the connection or not. -/
theorem fin_out_of_order : (Closed ((Session.run NetConfig.default overtaken).history 1) ∧
        delivered ((Session.run NetConfig.default overtaken).history 1) = [0x68] ∧
        unreceived overtaken) ∧
      ∀ calls ∈ [bothClose, hostFirst],
        (∀ s ∈ Output.segments
          (Session.outputsOf ((Session.run NetConfig.default calls).history 1)), s.ack ≠ 1002) ∧
        unreceived calls := by
  have silent : ∀ calls ∈ [bothClose, hostFirst], ∀ s ∈ Output.segments
      (Session.outputsOf ((Session.run NetConfig.default calls).history 1)), s.ack ≠ 1002 := by
    decide +kernel
  refine ⟨⟨by decide +kernel, by decide +kernel, fun receives => ?_⟩, fun calls mem =>
    ⟨silent calls mem, ?_⟩⟩
  · obtain ⟨faithful, -⟩ := receives 1000 (by decide +kernel)
    have early := faithful.closes (((Session.run NetConfig.default overtaken).history 1).take 9)
      (.output (.event (.closed 1))) (((Session.run NetConfig.default overtaken).history 1).drop 10)
      (by decide +kernel) rfl
    simp only [Reset, arrived_mem] at early
    revert early
    exact not_or.mpr ⟨by decide +kernel, by decide +kernel⟩
  · rcases mem_cons.mp mem with rfl | mem
    · exact fin_unanswered 0x10010001 (by decide +kernel) (by decide +kernel)
        (.inl (by decide +kernel)) (silent _ mem)
    · obtain rfl := mem_singleton.mp mem
      refine fin_unanswered 0x10010002 (by decide +kernel) (by decide +kernel)
        (.inr ⟨by decide +kernel, ?_⟩) (silent _ (mem_cons_of_mem _ mem))
      simp only [Reset, arrived_mem]
      decide +kernel

end EarlyFin

end Rv64Js.Net
