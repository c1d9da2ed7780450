import Rv64Js.Net.Session

/-! # What the guest is sent

While the handshake is proper, the payloads of a connection's segments are the bytes the host
queued, in order and under contiguous sequence numbers, each segment fits the guest's window, and
one FIN follows the last acknowledged byte. -/

set_option autoImplicit false

namespace Rv64Js.Net

open BitVec Conn Note Session List

open Events (Each each_nil each_snoc)

/-! ## Reading a history -/

def Note.payload : Note → List Byte
  | .output (.segment s) => s.payload
  | _ => []

def Note.queuedBytes : Note → List Byte
  | .queued data => data
  | _ => []

def Note.window : Note → Option (BitVec 16)
  | .arrived g => some g.window
  | _ => none

def Note.isFin : Note → Bool
  | .output (.segment s) => s.flags.fin
  | _ => false

def Note.isOpened : Note → Bool
  | .output (.event (.opened ..)) => true
  | _ => false

/-- Payload bytes of the emitted segments, in order of emission. -/
def payloads (j : List Note) : List Byte := j.flatMap Note.payload

def queued (j : List Note) : List Byte := j.flatMap Note.queuedBytes

def advertised (j : List Note) : Option (BitVec 16) := (j.filterMap Note.window).getLast?

def Opened (j : List Note) : Prop := ∃ n ∈ j, n.isOpened = true

instance (j : List Note) : Decidable (Opened j) := inferInstanceAs (Decidable (∃ n ∈ j, _))

@[simp] theorem payloads_append (a b : List Note) : payloads (a ++ b) = payloads a ++ payloads b :=
  flatMap_append

@[simp] theorem queued_append (a b : List Note) : queued (a ++ b) = queued a ++ queued b :=
  flatMap_append

/-- The guest acknowledged the first `n` payload bytes after they had been emitted. -/
def Acknowledged (id : ConnId) (j : List Note) (n : Nat) : Prop :=
  ∃ before g after, j = before ++ .arrived g :: after ∧ g.flags.ack = true ∧
    g.ack = iss id + 1 + BitVec.ofNat 32 n ∧ n ≤ (payloads before).length

variable {id : ConnId} {j : List Note}

theorem Acknowledged.append {n : Nat} (acked : Acknowledged id j n)
    (more : List Note) : Acknowledged id (j ++ more) n := by
  obtain ⟨before, g, after, rfl, rest⟩ := acked
  exact ⟨before, g, after ++ more, by simp, rest⟩

structure Transmits (id : ConnId) (j : List Note) : Prop where
  stream : payloads j <+: queued j
  numbered : Each (fun before n => ∀ s, n = .output (.segment s) → s.payload ≠ [] →
    s.seq = iss id + 1 + BitVec.ofNat 32 (payloads before).length) j
  bounded : Each (fun before n => ∀ s, n = .output (.segment s) →
    s.payload.length ≤ MSS ∧ ∃ w, advertised before = some w ∧ s.payload.length ≤ w.toNat) j
  finOnce : Each (fun before n => n.isFin = true → ∀ m ∈ before, m.isFin = false) j
  finLast : Each (fun before n => n.isFin = true →
    payloads before = queued before ∧ Acknowledged id before (queued before).length) j

theorem Transmits.nil (id : ConnId) : Transmits id [] :=
  ⟨prefix_rfl, each_nil _, each_nil _, each_nil _, each_nil _⟩

/-! ## Entries that send nothing -/

/-- Neither payload nor FIN, and nothing queued. -/
def Note.Plain : Note → Prop
  | .queued _ => False
  | .output (.segment s) => s.payload = [] ∧ s.flags.fin = false
  | _ => True

variable {n : Note}

theorem Note.Plain.payload (plain : n.Plain) : n.payload = [] := by
  unfold Note.payload
  split
  · exact plain.1
  · rfl

theorem Note.Plain.queuedBytes (plain : n.Plain) : n.queuedBytes = [] := by
  unfold Note.queuedBytes
  split
  · exact plain.elim
  · rfl

theorem Note.Plain.isFin (plain : n.Plain) : n.isFin = false := by
  unfold Note.isFin
  split
  · exact plain.2
  · rfl

variable {notes : List Note}

theorem payloads_plain (plain : ∀ n ∈ notes, n.Plain) : payloads notes = [] :=
  flatMap_eq_nil_iff.mpr fun n mem => (plain n mem).payload

theorem queued_plain (plain : ∀ n ∈ notes, n.Plain) : queued notes = [] :=
  flatMap_eq_nil_iff.mpr fun n mem => (plain n mem).queuedBytes

theorem advertised_append (a b : List Note) :
    advertised (a ++ b) = (advertised b).or (advertised a) := by
  simp [advertised, filterMap_append, getLast?_append]

theorem Transmits.quiet (t : Transmits id j) (payload : n.payload = []) (fin : n.isFin = false)
    (heard : ∀ s, n = .output (.segment s) → (advertised j).isSome) : Transmits id (j ++ [n]) := by
  have noPayload : ∀ s, n = .output (.segment s) → s.payload = [] := by
    rintro s rfl
    exact payload
  refine ⟨?_, each_snoc.mpr ⟨t.numbered, ?_⟩, each_snoc.mpr ⟨t.bounded, ?_⟩,
    each_snoc.mpr ⟨t.finOnce, ?_⟩, each_snoc.mpr ⟨t.finLast, ?_⟩⟩
  · have same : payloads (j ++ [n]) = payloads j := by simp [payloads, payload]
    rw [same, queued_append]
    exact t.stream.trans (prefix_append _ _)
  · exact fun s out some => absurd (noPayload s out) some
  · intro s out
    obtain ⟨w, adv⟩ := Option.isSome_iff_exists.mp (heard s out)
    rw [noPayload s out]
    exact ⟨Nat.zero_le _, w, adv, Nat.zero_le _⟩
  · exact fun is => absurd is (by rw [fin]; decide)
  · exact fun is => absurd is (by rw [fin]; decide)

theorem Transmits.plain (t : Transmits id j) (heard : (advertised j).isSome)
    (plain : ∀ n ∈ notes, n.Plain) : Transmits id (j ++ notes) := by
  induction notes generalizing j with
  | nil => simpa using t
  | cons n notes ih =>
    have first := plain n mem_cons_self
    have next := t.quiet first.payload first.isFin fun _ _ => heard
    have still : (advertised (j ++ [n])).isSome := by
      rw [advertised_append]
      cases advertised [n] <;> simp [heard]
    simpa using ih next still fun m mem => plain m (mem_cons_of_mem _ mem)

/-! ## The sending side of a connection -/

structure Sending where
  una : BitVec 32
  nxt : BitVec 32
  unacked : List Byte
  tx : List Byte
  finPending : Bool

def Conn.sending (c : Conn) : Sending := ⟨c.sndUna, c.sndNxt, c.unacked, c.tx, c.finPending⟩

namespace Conn

variable (c : Conn) (seq : BitVec 32) (payload : List Byte)

@[simp] theorem receive_sending : (c.receive seq payload).1.sending = c.sending := by
  unfold receive
  split_ifs <;> rfl

@[simp] theorem receive_state : (c.receive seq payload).1.state = c.state := by
  unfold receive
  split_ifs <;> rfl

@[simp] theorem receive_sndWnd : (c.receive seq payload).1.sndWnd = c.sndWnd := by
  unfold receive
  split_ifs <;> rfl

variable (g : Arrival)

theorem absorb_sending : (c.absorb g).1.sending = c.sending ∧ (c.absorb g).1.sndWnd = c.sndWnd := by
  unfold absorb
  dsimp only
  split
  · unfold finish
    split
    · exact ⟨receive_sending c _ _, receive_sndWnd c _ _⟩
    · exact ⟨receive_sending c _ _, receive_sndWnd c _ _⟩
  · exact ⟨receive_sending c _ _, receive_sndWnd c _ _⟩

theorem absorb_state : (c.absorb g).1.state =
      if g.flags.fin = true ∧ (c.state = .established ∨ c.state = .synReceived) then .closeWait
        else c.state := by
  unfold absorb finish
  dsimp only
  rw [receive_state]
  by_cases fin : g.flags.fin = true
  · by_cases open' : c.state = .established ∨ c.state = .synReceived
    · simp [fin, open']
    · simp [fin, open']
  · simp [fin]

theorem receive_plain : ∀ o ∈ (c.receive seq payload).2, (Note.output o).Plain := by
  unfold receive
  split_ifs <;> simp [Plain, emitAck, emitFlags, emitSegment, ackFlags]

theorem finish_plain : ∀ o ∈ c.finish.2, (Note.output o).Plain := by
  unfold finish
  split <;> simp [Plain, emitAck, emitFlags, emitSegment, ackFlags]

theorem absorb_plain : ∀ o ∈ (c.absorb g).2, (Note.output o).Plain := by
  unfold absorb
  dsimp only
  split
  · exact forall_mem_append.mpr ⟨receive_plain c _ _, finish_plain _⟩
  · exact receive_plain c _ _

theorem onAck_plain : ∀ o ∈ (c.onAck g).2, (Note.output o).Plain := by
  unfold onAck establish
  dsimp only
  split_ifs <;> simp [Plain]

theorem onSegment_plain : ∀ o ∈ (c.onSegment g).2, (Note.output o).Plain := by
  unfold onSegment
  dsimp only
  split_ifs
  · simp [Plain]
  · exact onAck_plain c g
  · exact forall_mem_append.mpr ⟨onAck_plain c g, absorb_plain _ g⟩

end Conn

variable {c : Conn} {g : Arrival}

theorem notes_plain : ∀ n ∈ arrived g :: (c.onSegment g).2.map Note.output, n.Plain := by
  intro n mem
  rcases mem_cons.mp mem with rfl | mem
  · trivial
  · obtain ⟨o, inside, rfl⟩ := mem_map.mp mem
    exact c.onSegment_plain g o inside

/-- Data flows: what was sent is what was queued, up to `tx`, and what is unacknowledged
is its end. -/
structure Flowing (id : ConnId) (x : Sending) (j : List Note) : Prop where
  split : queued j = payloads j ++ x.tx
  short : x.unacked.length ≤ MSS
  acked : ∃ done, payloads j = done ++ x.unacked ∧
    x.una = iss id + 1 + BitVec.ofNat 32 done.length ∧ Acknowledged id j done.length
  nxt : x.nxt = iss id + 1 + BitVec.ofNat 32 (payloads j).length
  noFin : ∀ n ∈ j, n.isFin = false

structure Idle (x : Sending) (j : List Note) : Prop where
  queued : queued j = []
  payloads : payloads j = []
  tx : x.tx = []
  unacked : x.unacked = []
  finPending : x.finPending = false
  unopened : ¬Opened j
  noFin : ∀ n ∈ j, n.isFin = false

variable {x : Sending}

theorem Flowing.plain (flow : Flowing id x j) (plain : ∀ n ∈ notes, n.Plain) :
    Flowing id x (j ++ notes) := by
  have same : Net.payloads (j ++ notes) = Net.payloads j := by
    rw [payloads_append, payloads_plain plain, append_nil]
  obtain ⟨done, whole, una, acked⟩ := flow.acked
  refine ⟨?_, flow.short,
    ⟨done, by rw [same, whole], una, acked.append notes⟩, by rw [same]; exact flow.nxt, ?_⟩
  · rw [same, queued_append, queued_plain plain, append_nil]
    exact flow.split
  · exact forall_mem_append.mpr ⟨flow.noFin, fun n mem => (plain n mem).isFin⟩

theorem Idle.plain (idle : Idle x j) (plain : ∀ n ∈ notes, n.Plain)
    (unopened : ¬Opened notes) : Idle x (j ++ notes) := by
  refine ⟨?_, ?_, idle.tx, idle.unacked, idle.finPending, ?_, ?_⟩
  · rw [queued_append, idle.queued, queued_plain plain]
    rfl
  · rw [payloads_append, idle.payloads, payloads_plain plain]
    rfl
  · rintro ⟨n, mem, opened⟩
    rcases mem_append.mp mem with mem | mem
    · exact idle.unopened ⟨n, mem, opened⟩
    · exact unopened ⟨n, mem, opened⟩
  · exact forall_mem_append.mpr ⟨idle.noFin, fun n mem => (plain n mem).isFin⟩

/-- An ACK number that is accepted moves bytes from unacknowledged to done. -/
theorem Flowing.acknowledge (flow : Flowing id c.sending j) (control : c.controlInFlight = 0)
    (isAck : g.flags.ack = true) :
    Flowing id (c.acknowledge g.ack).sending (j ++ [.arrived g]) := by
  have kept : Flowing id c.sending (j ++ [.arrived g]) := flow.plain (by simp [Plain])
  unfold Conn.acknowledge
  dsimp only
  split
  · rename_i accepted
    obtain ⟨pos, le⟩ := accepted
    rw [control, Nat.add_zero] at le
    obtain ⟨done, whole, una, -⟩ := flow.acked
    have una' : c.sndUna = iss id + 1 + BitVec.ofNat 32 done.length := una
    have number : g.ack =
        iss id + 1 + BitVec.ofNat 32 (done.length + (g.ack - c.sndUna).toNat) := by
      rw [BitVec.ofNat_add, ← BitVec.add_assoc, ← una', BitVec.ofNat_toNat, BitVec.setWidth_eq]
      rw [add_comm, sub_add_cancel]
    generalize (g.ack - c.sndUna).toNat = acked at *
    rw [Nat.min_eq_left le]
    have length : (done ++ c.unacked.take acked).length = done.length + acked := by
      rw [length_append, length_take, Nat.min_eq_left le]
    refine ⟨kept.split, ?_, ⟨done ++ c.unacked.take acked, ?_, ?_, ?_⟩, kept.nxt, kept.noFin⟩
    · have short : c.unacked.length ≤ MSS := flow.short
      simp only [Conn.sending, length_drop]
      omega
    · rw [payloads_append, whole, List.append_assoc]
      simp [payloads, Note.payload, Conn.sending]
    · rw [length]
      exact number
    · refine ⟨j, g, [], rfl, isAck, by rw [length]; exact number, ?_⟩
      have whole' : payloads j = done ++ c.unacked := whole
      rw [length, whole', length_append]
      omega
  · exact kept

/-! ## Proper runs -/

/-- A segment that completes the handshake acknowledges the SYN. -/
def AcksSyn : Option (Conn × Arrival) → Prop
  | some (c, g) =>
    c.state = .synReceived → g.flags.ack = true → g.flags.rst = false → g.ack = iss c.id + 1
  | none => True

instance : DecidablePred AcksSyn
  | some (c, g) => inferInstanceAs (Decidable (c.state = .synReceived → g.flags.ack = true →
      g.flags.rst = false → g.ack = iss c.id + 1))
  | none => instDecidableTrue

/-- The handshake is completed by an ACK of the SYN, and the host uses a connection after it
was reported open. -/
def Proper (s : Session) : Call → Prop
  | .input frame => AcksSyn (s.stack.addressed frame)
  | .send id _ => Opened (s.history id)
  | .close id => Opened (s.history id)
  | _ => True

instance (s : Session) (call : Call) : Decidable (Proper s call) := by
  cases call <;> unfold Proper <;> infer_instance

def TxLive (id : ConnId) (c : Conn) (j : List Note) : Prop :=
  match c.state with
  | .synReceived => Idle c.sending j ∧ c.sndUna = iss id ∧ c.sndNxt = iss id + 1
  | .established => Flowing id c.sending j
  | .closeWait => Flowing id c.sending j ∨ Idle c.sending j
  | .lastAck => c.unacked = [] ∧ c.sndNxt = c.sndUna + 1

def TxInv (id : ConnId) (p : Phase) (j : List Note) : Prop :=
  Transmits id j ∧
    match p with
    | .fresh => j = []
    | .live c => advertised j = some c.sndWnd ∧ TxLive id c j
    | .gone => True

theorem TxInv.accept (id : ConnId) (dst : Ip) (g : Arrival) :
    TxInv id (.live (.accepted id g.sport dst g.dport g.seq g.window)) [.arrived g,
        .output
          ((Conn.accepted id g.sport dst g.dport g.seq g.window).emitFlags synAckFlags
            (iss id))] := by
  have first : Transmits id [.arrived g] := (Transmits.nil id).quiet rfl rfl (by simp)
  refine ⟨first.plain rfl ?_, rfl, ⟨rfl, rfl, rfl, rfl, rfl, ?_, ?_⟩, rfl, rfl⟩
  · simp [Plain, Conn.emitFlags, Conn.emitSegment, synAckFlags]
  · simp [Opened, isOpened, Conn.emitFlags, Conn.emitSegment]
  · simp [isFin, Conn.emitFlags, Conn.emitSegment, synAckFlags]

theorem TxLive.plain (live : TxLive id c j) (plain : ∀ n ∈ notes, n.Plain)
    (unopened : ¬Opened notes) : TxLive id c (j ++ notes) := by
  unfold TxLive at live ⊢
  cases state : c.state with
  | synReceived => rw [state] at live; exact ⟨live.1.plain plain unopened, live.2⟩
  | established => rw [state] at live; exact live.plain plain
  | closeWait =>
    rw [state] at live
    exact live.imp (fun flow => flow.plain plain) fun idle => idle.plain plain unopened
  | lastAck => rw [state] at live; exact live

theorem TxLive.absorb (live : TxLive id c j) (g : Arrival) : TxLive id (c.absorb g).1 j := by
  obtain ⟨sending, -⟩ := c.absorb_sending g
  have una : (c.absorb g).1.sndUna = c.sndUna := congrArg Sending.una sending
  have nxt : (c.absorb g).1.sndNxt = c.sndNxt := congrArg Sending.nxt sending
  have unacked : (c.absorb g).1.unacked = c.unacked := congrArg Sending.unacked sending
  unfold TxLive at live ⊢
  rw [sending, una, nxt, unacked, c.absorb_state]
  by_cases closes : g.flags.fin = true ∧ (c.state = .established ∨ c.state = .synReceived)
  · rw [if_pos closes]
    rcases closes.2 with state | state <;> rw [state] at live
    · exact .inl live
    · exact .inr live.1
  · rw [if_neg closes]
    exact live

theorem absorb_unopened (c : Conn) (g : Arrival) : ¬Opened ((c.absorb g).2.map .output) := by
  rintro ⟨n, mem, opened⟩
  unfold Conn.absorb Conn.receive Conn.finish at mem
  dsimp only at mem
  split_ifs at mem <;>
    simp [Conn.emitAck, Conn.emitFlags, Conn.emitSegment] at mem <;>
    rcases mem with rfl | rfl | rfl | rfl | rfl <;> simp [isOpened] at opened

@[simp] theorem Conn.acknowledge_state (c : Conn) (ack : BitVec 32) :
    (c.acknowledge ack).state = c.state := by
  unfold acknowledge
  dsimp only
  split <;> rfl

@[simp] theorem Conn.acknowledge_sndNxt (c : Conn) (ack : BitVec 32) :
    (c.acknowledge ack).sndNxt = c.sndNxt := by
  unfold acknowledge
  dsimp only
  split <;> rfl

theorem Conn.acknowledge_idle (unacked : c.unacked = []) (control : c.controlInFlight = 0)
    (ack : BitVec 32) : c.acknowledge ack = c := by
  unfold acknowledge
  rw [unacked, control]
  exact if_neg (by simp only [length_nil]; omega)

/-- With only a SYN or a FIN in flight, the one ACK number that counts is its own. -/
theorem Conn.acknowledge_control (unacked : c.unacked = []) (control : c.controlInFlight = 1)
    (ack : BitVec 32) :
    c.acknowledge ack = if ack = c.sndUna + 1 then { c with sndUna := ack } else c := by
  have shift : ack - c.sndUna = 1 ↔ ack = c.sndUna + 1 := by
    constructor
    · intro one
      rw [← one, add_comm, sub_add_cancel]
    · rintro rfl
      rw [add_comm, add_sub_cancel]
  have number : (0 < (ack - c.sndUna).toNat ∧ (ack - c.sndUna).toNat ≤ 1) ↔ ack = c.sndUna + 1 := by
    rw [← shift, ← BitVec.toNat_inj, show BitVec.toNat (1 : BitVec 32) = 1 from rfl]
    omega
  unfold acknowledge
  rw [unacked, control]
  simp only [length_nil, Nat.zero_add, number, drop_nil]

theorem Conn.establish_syn (state : c.state = .synReceived) :
    c.establish =
      ({ c with state := .established }, [.event (.opened c.id c.remoteIp c.remotePort)]) :=
  if_pos state

theorem Conn.establish_other (state : c.state ≠ .synReceived) : c.establish = (c, []) :=
  if_neg state

theorem Idle.opens (idle : Idle x j) (isAck : g.flags.ack = true) (number : g.ack = iss id + 1)
    (una : x.una = iss id + 1) (nxt : x.nxt = iss id + 1) (e : Event) :
    Flowing id x (j ++ [.arrived g, .output (.event e)]) := by
  have plain : ∀ n ∈ [arrived g, .output (.event e)], n.Plain := by simp [Plain]
  have sent : Net.payloads (j ++ [arrived g, .output (.event e)]) = [] := by
    rw [payloads_append, idle.payloads, payloads_plain plain, append_nil]
  refine ⟨?_, ?_, ⟨[], ?_, ?_, ?_⟩, ?_, ?_⟩
  · rw [sent, queued_append, idle.queued, queued_plain plain, idle.tx]
  · rw [idle.unacked]
    exact Nat.zero_le _
  · rw [sent, idle.unacked]
    rfl
  · simpa using una
  · exact ⟨j, g, [.output (.event e)], rfl, isAck, by simpa using number, Nat.zero_le _⟩
  · rw [sent]
    simpa using nxt
  · exact forall_mem_append.mpr ⟨idle.noFin, fun n mem => (plain n mem).isFin⟩

theorem TxLive.acknowledge (live : TxLive id c j) (isAck : g.flags.ack = true)
    (proper : c.state = .synReceived → g.ack = iss id + 1)
    (stays : ¬((c.acknowledge g.ack).establish.1.state = .lastAck ∧
      (c.acknowledge g.ack).establish.1.sndUna = (c.acknowledge g.ack).establish.1.sndNxt)) :
    TxLive id (c.acknowledge g.ack).establish.1
      (j ++ .arrived g :: (c.acknowledge g.ack).establish.2.map .output) := by
  unfold TxLive at live
  cases state : c.state with
  | synReceived =>
    rw [state] at live
    obtain ⟨idle, una, nxt⟩ := live
    have number := proper state
    have control : c.controlInFlight = 1 := by rw [controlInFlight, state]
    have idle' : Idle { c with sndUna := g.ack }.sending j :=
      ⟨idle.queued, idle.payloads, idle.tx, idle.unacked, idle.finPending, idle.unopened,
        idle.noFin⟩
    rw [acknowledge_control idle.unacked control, if_pos (by rw [number, una]),
      establish_syn (by exact state)]
    exact idle'.opens isAck number number nxt _
  | established =>
    rw [state] at live
    rw [establish_other (by simp [state])]
    unfold TxLive
    rw [acknowledge_state, state]
    exact live.acknowledge (by rw [controlInFlight, state]) isAck
  | closeWait =>
    rw [state] at live
    have control : c.controlInFlight = 0 := by rw [controlInFlight, state]
    rw [establish_other (by simp [state])]
    unfold TxLive
    rw [acknowledge_state, state]
    rcases live with flow | idle
    · exact .inl (flow.acknowledge control isAck)
    · rw [acknowledge_idle idle.unacked control]
      exact .inr (idle.plain (by simp [Plain]) (by simp [Opened, isOpened]))
  | lastAck =>
    rw [state] at live
    obtain ⟨unacked, nxt⟩ := live
    have control : c.controlInFlight = 1 := by rw [controlInFlight, state]
    rw [establish_other (by simp [state]), acknowledge_control unacked control] at stays ⊢
    by_cases fin : g.ack = c.sndUna + 1
    · -- this is the ACK of our FIN
      rw [if_pos fin] at stays
      exact absurd ⟨state, fin.trans nxt.symm⟩ stays
    · rw [if_neg fin]
      unfold TxLive
      rw [state]
      exact ⟨unacked, nxt⟩

theorem TxLive.onAck (live : TxLive id c j) (own : c.id = id) (proper : AcksSyn (some (c, g)))
    (whole : g.flags.rst = false) (stays : ¬c.Ends g) :
    TxLive id (c.onAck g).1 (j ++ .arrived g :: (c.onAck g).2.map .output) := by
  have live' : TxLive id { c with sndWnd := g.window } j := live
  unfold Ends Conn.onAck at stays
  unfold Conn.onAck
  dsimp only at stays ⊢
  cases isAck : g.flags.ack with
  | false => exact live'.plain (by simp [Plain]) (by simp [Opened, isOpened])
  | true =>
    simp only [isAck, if_true, true_and] at stays ⊢
    exact live'.acknowledge isAck (fun state => own ▸ proper state isAck whole) stays

theorem advertised_arrived (j : List Note) (g : Arrival) (outs : List Output) :
    advertised (j ++ .arrived g :: outs.map .output) = some g.window := by
  have silent : (outs.map Note.output).filterMap Note.window = [] := by
    simp [filterMap_map, Function.comp_def, Note.window]
  simp [advertised, filterMap_append, Note.window, silent]

theorem Conn.onAck_sndWnd (c : Conn) (g : Arrival) : (c.onAck g).1.sndWnd = g.window := by
  unfold Conn.onAck Conn.establish acknowledge
  dsimp only
  split_ifs <;> rfl

theorem TxLive.segment {c' : Conn} (live : TxLive id c j) (own : c.id = id)
    (proper : AcksSyn (some (c, g))) (left : (c.onSegment g).1 = some c') :
    c'.sndWnd = g.window ∧ TxLive id c' (j ++ .arrived g :: (c.onSegment g).2.map .output) := by
  obtain ⟨whole, stays, rfl, outputs⟩ := onSegment_some left
  refine ⟨((c.onAck g).1.absorb_sending g).2.trans (c.onAck_sndWnd g), ?_⟩
  have plain : ∀ n ∈ ((c.onAck g).1.absorb g).2.map Note.output, n.Plain := by
    intro n mem
    obtain ⟨o, inside, rfl⟩ := mem_map.mp mem
    exact (c.onAck g).1.absorb_plain g o inside
  have answered := ((live.onAck own proper whole stays).absorb g).plain plain
    (absorb_unopened _ g)
  rw [outputs]
  simpa using answered

/-! ## The host's calls -/

theorem advertised_output (j : List Note) (o : Output) :
    advertised (j ++ [.output o]) = advertised j := by
  simp [advertised_append, show advertised [.output o] = none from rfl]

theorem Transmits.data (t : Transmits id j) (flow : Flowing id x j) {w : BitVec 16}
    (window : advertised j = some w) {s : Segment} {n : Nat} (payload : s.payload = x.tx.take n)
    (seq : s.seq = x.nxt) (fin : s.flags.fin = false) (mss : n ≤ MSS)
    (fits : n ≤ w.toNat) : Transmits id (j ++ [.output (.segment s)]) := by
  have short : s.payload.length ≤ n := by rw [payload]; exact length_take_le n _
  refine ⟨?_, each_snoc.mpr ⟨t.numbered, ?_⟩, each_snoc.mpr ⟨t.bounded, ?_⟩,
    each_snoc.mpr ⟨t.finOnce, ?_⟩, each_snoc.mpr ⟨t.finLast, ?_⟩⟩
  · have sent : payloads (j ++ [.output (.segment s)]) = payloads j ++ x.tx.take n := by
      simp [payloads, Note.payload, payload]
    have asked : queued (j ++ [.output (.segment s)]) = payloads j ++ x.tx := by
      rw [queued_append, flow.split]
      exact append_nil _
    rw [sent, asked]
    exact (prefix_append_right_inj _).mpr <| take_prefix n _
  · rintro _ ⟨⟩ -
    rw [seq]
    exact flow.nxt
  · rintro _ ⟨⟩
    exact ⟨short.trans mss, w, window, short.trans fits⟩
  · exact fun is => absurd is (by simp [isFin, fin])
  · exact fun is => absurd is (by simp [isFin, fin])

theorem Transmits.fin (t : Transmits id j) (flow : Flowing id x j) {w : BitVec 16}
    (window : advertised j = some w) {s : Segment} (payload : s.payload = []) (tx : x.tx = [])
    (unacked : x.unacked = []) : Transmits id (j ++ [.output (.segment s)]) := by
  have all : payloads j = queued j := by rw [flow.split, tx, append_nil]
  obtain ⟨done, whole, -, acked⟩ := flow.acked
  rw [unacked, append_nil] at whole
  refine ⟨?_, each_snoc.mpr ⟨t.numbered, ?_⟩, each_snoc.mpr ⟨t.bounded, ?_⟩,
    each_snoc.mpr ⟨t.finOnce, fun _ => flow.noFin⟩, each_snoc.mpr ⟨t.finLast, fun _ => ⟨all, ?_⟩⟩⟩
  · have sent : payloads (j ++ [.output (.segment s)]) = payloads j := by
      simp [payloads, Note.payload, payload]
    rw [sent, queued_append]
    exact t.stream.trans (prefix_append _ _)
  · rintro _ ⟨⟩ some
    exact absurd payload some
  · rintro _ ⟨⟩
    rw [payload]
    exact ⟨Nat.zero_le _, w, window, Nat.zero_le _⟩
  · rw [← all, whole]
    exact acked

theorem Conn.pump_idle (idle : Idle c.sending j) : c.pump = (c, []) := by
  have tx : c.tx = [] := idle.tx
  have finPending : c.finPending = false := idle.finPending
  unfold Conn.pump pumpData pumpFin
  simp [tx, finPending]

theorem Flowing.pumpData (t : Transmits id j) (window : advertised j = some c.sndWnd)
    (flow : Flowing id c.sending j) :
    Transmits id (j ++ c.pumpData.2.map .output) ∧
      advertised (j ++ c.pumpData.2.map .output) = some c.pumpData.1.sndWnd ∧
      Flowing id c.pumpData.1.sending (j ++ c.pumpData.2.map .output) := by
  unfold Conn.pumpData
  dsimp only
  split
  · rename_i sends
    obtain ⟨unacked, -, -⟩ := sends
    obtain ⟨done, whole, una, acked⟩ := flow.acked
    have whole' : payloads j = done := by simpa [Conn.sending, unacked] using whole
    generalize count : min (min c.tx.length MSS) c.sndWnd.toNat = n
    have queue : n ≤ c.tx.length := by omega
    have mss : n ≤ MSS := by omega
    have fits : n ≤ c.sndWnd.toNat := by omega
    have sent : payloads (j ++ [.output (c.emitSegment pshAckFlags c.sndNxt (c.tx.take n))]) =
        payloads j ++ c.tx.take n := by
      simp [payloads, Note.payload, Conn.emitSegment]
    rw [map_cons, map_nil]
    refine ⟨t.data flow window rfl rfl rfl mss fits, (advertised_output j _).trans window, ?_, ?_,
      ⟨done, ?_, una, acked.append _⟩, ?_, ?_⟩
    · have asked : queued (j ++ [.output (c.emitSegment pshAckFlags c.sndNxt (c.tx.take n))]) =
          payloads j ++ c.tx := by
        rw [queued_append, flow.split]
        exact List.append_nil _
      rw [asked, sent, List.append_assoc]
      exact congrArg (payloads j ++ ·) (List.take_append_drop n c.tx).symm
    · exact (length_take_le n c.tx).trans mss
    · rw [sent, whole']
      rfl
    · rw [sent, length_append, length_take, Nat.min_eq_left queue, ofNat_add,
        ← BitVec.add_assoc]
      exact congrArg (· + BitVec.ofNat 32 n) flow.nxt
    · exact forall_mem_append.mpr ⟨flow.noFin, forall_mem_singleton.mpr rfl⟩
  · simpa using And.intro t (.intro window flow)

theorem Flowing.live (flow : Flowing id c.sending j)
    (carries : c.state = .established ∨ c.state = .closeWait) : TxLive id c j := by
  unfold TxLive
  rcases carries with state | state <;> rw [state]
  · exact flow
  · exact .inl flow

theorem TxInv.pump (t : Transmits id j) (window : advertised j = some c.sndWnd)
    (live : TxLive id c j) : TxInv id (.live c.pump.1) (j ++ c.pump.2.map .output) := by
  -- a connection that carries data
  have flows (flow : Flowing id c.sending j)
    (carries : c.state = .established ∨ c.state = .closeWait) :
      TxInv id (.live c.pump.1) (j ++ c.pump.2.map .output) := by
    obtain ⟨t', window', flow'⟩ := flow.pumpData t window
    have state : c.pumpData.1.state = c.state := by
      unfold pumpData
      dsimp only
      split <;> rfl
    have open' : c.state ≠ .lastAck := by rcases carries with h | h <;> rw [h] <;> decide
    unfold Conn.pump
    rw [if_neg open']
    dsimp only
    rw [List.map_append, ← List.append_assoc]
    generalize j ++ c.pumpData.2.map Note.output = j' at *
    unfold pumpFin
    split
    · rename_i closes
      obtain ⟨-, tx, unacked⟩ := closes
      obtain ⟨done, whole, una, -⟩ := flow'.acked
      have una' : c.pumpData.1.sndUna = iss id + 1 + BitVec.ofNat 32 done.length := una
      have nxt' : c.pumpData.1.sndNxt = iss id + 1 + BitVec.ofNat 32 (payloads j').length :=
        flow'.nxt
      have whole' : payloads j' = done := by simpa [Conn.sending, unacked] using whole
      refine ⟨t'.fin flow' window' rfl tx unacked, (advertised_output j' _).trans window', unacked,
        ?_⟩
      change c.pumpData.1.sndNxt + 1 = c.pumpData.1.sndUna + 1
      rw [nxt', una', whole']
    · refine ⟨by simpa using t', by simpa using window', ?_⟩
      rw [map_nil, append_nil]
      exact flow'.live (state ▸ carries)
  -- a connection that does not
  have rests (idle : c.pump = (c, [])) : TxInv id (.live c.pump.1) (j ++ c.pump.2.map .output) := by
    rw [idle, map_nil, append_nil]
    exact ⟨t, window, live⟩
  unfold TxLive at live
  cases state : c.state with
  | synReceived => rw [state] at live; exact rests (pump_idle live.1)
  | established => rw [state] at live; exact flows live (.inl state)
  | closeWait =>
    rw [state] at live
    rcases live with flow | idle
    · exact flows flow (.inr state)
    · exact rests (pump_idle idle)
  | lastAck => exact rests (if_pos state)

theorem Transmits.asked (t : Transmits id j) (silent : ∀ o, n ≠ .output o) :
    Transmits id (j ++ [n]) := by
  refine t.quiet ?_ ?_ fun s out => absurd out (silent _)
  · cases n with
    | output o => exact absurd rfl (silent o)
    | _ => rfl
  · cases n with
    | output o => exact absurd rfl (silent o)
    | _ => rfl

theorem TxLive.ready (live : TxLive id c j) (opened : Opened j) :
    (Flowing id c.sending j ∧ (c.state = .established ∨ c.state = .closeWait)) ∨
      c.state = .lastAck ∧ c.unacked = [] ∧ c.sndNxt = c.sndUna + 1 := by
  unfold TxLive at live
  cases state : c.state with
  | synReceived => rw [state] at live; exact absurd opened live.1.unopened
  | established => rw [state] at live; exact .inl ⟨live, .inl rfl⟩
  | closeWait =>
    rw [state] at live
    exact .inl ⟨live.resolve_right fun idle => idle.unopened opened, .inr rfl⟩
  | lastAck => rw [state] at live; exact .inr ⟨rfl, live⟩

theorem TxInv.void {p : Phase} (inv : TxInv id p j) (void : ∀ c, p ≠ .live c) (opened : Opened j)
    (silent : ∀ o, n ≠ .output o) : TxInv id p (j ++ [n]) := by
  obtain ⟨t, shape⟩ := inv
  refine ⟨t.asked silent, ?_⟩
  cases p with
  | fresh =>
    -- nothing was opened under this number
    have new : j = [] := shape
    rw [new] at opened
    exact absurd opened (by simp [Opened])
  | live c => exact absurd rfl (void c)
  | gone => trivial

/-- What the host may rely on is kept by every proper call. -/
theorem TxInv.step {s : Session} {call : Call} {p p' : Phase} (proper : Proper s call)
    (inv : TxInv id p (s.history id))
    (stepped : ConnStep s id call p notes p') : TxInv id p' (s.history id ++ notes) := by
  generalize past : s.history id = j at inv
  obtain ⟨t, shape⟩ := inv
  cases stepped with
  | idle =>
    rw [append_nil]
    exact ⟨t, shape⟩
  | taken =>
    rw [append_nil]
    exact ⟨t, trivial⟩
  | accept frame dst g =>
    have new : j = [] := shape
    rw [new]
    exact .accept id dst g
  | segment frame c g own reaches =>
    obtain ⟨window, live⟩ := shape
    have handled := t.plain (by rw [window]; rfl) (notes_plain (c := c) (g := g))
    have acks : AcksSyn (some (c, g)) := reaches ▸ proper
    refine ⟨handled, ?_⟩
    cases left : (c.onSegment g).1 with
    | none => trivial
    | some c' =>
      obtain ⟨window', live'⟩ := live.segment own acks left
      exact ⟨(advertised_arrived j g _).trans (congrArg some window'.symm), live'⟩
  | send data c own =>
    obtain ⟨window, live⟩ := shape
    have opened : Opened j := past ▸ proper
    refine ⟨t.asked (by simp), ?_, ?_⟩
    · rw [advertised_append]
      exact window
    · rcases live.ready opened with ⟨flow, state⟩ | ⟨state, rest⟩
      · have flow' : Flowing id { c with tx := c.tx ++ data }.sending (j ++ [.queued data]) := by
          have sent : payloads (j ++ [.queued data]) = payloads j := by
            simp [payloads, Note.payload]
          obtain ⟨done, whole, una, acked⟩ := flow.acked
          refine ⟨?_, flow.short, ⟨done, sent.trans whole, una, acked.append _⟩, ?_, ?_⟩
          · rw [sent, queued_append, flow.split, List.append_assoc]
            simp [queued, queuedBytes, Conn.sending]
          · rw [sent]
            exact flow.nxt
          · simpa [isFin, or_imp, forall_and] using flow.noFin
        exact flow'.live state
      · unfold TxLive
        simp only [state]
        exact rest
  | sendVoid data p void => exact .void ⟨t, shape⟩ void (past ▸ proper) (by simp)
  | close c own =>
    obtain ⟨window, live⟩ := shape
    have opened : Opened j := past ▸ proper
    refine ⟨t.asked (by simp), ?_, ?_⟩
    · rw [advertised_append]
      exact window
    · rcases live.ready opened with ⟨flow, state⟩ | ⟨state, rest⟩
      · have flow' : Flowing id { c with finPending := true }.sending (j ++ [.closing]) := by
          have kept : Flowing id c.sending (j ++ [.closing]) := flow.plain (by simp [Plain])
          exact ⟨kept.split, kept.short, kept.acked, kept.nxt, kept.noFin⟩
        exact flow'.live state
      · unfold TxLive
        simp only [state]
        exact rest
  | closeVoid p void => exact .void ⟨t, shape⟩ void (past ▸ proper) (by simp)
  | pump limit c own => exact .pump t shape.1 shape.2

theorem run_txInv {cfg : NetConfig} {calls : List Call}
    (proper : Events.Admitted step Proper (start cfg) calls) (id : ConnId) :
    TxInv id ((run cfg calls).phase id) ((run cfg calls).history id) :=
  run_invariant (I := TxInv) (fun id => ⟨.nil id, rfl⟩) (fun id => ⟨.nil id, trivial⟩)
    (fun _ _ _ _ _ _ ok inv stepped => inv.step ok stepped) proper id

/-- In every proper run the guest is sent what the host queued. -/
theorem proper_run_transmits (cfg : NetConfig) (calls : List Call)
    (proper : Events.Admitted Session.step Proper (Session.start cfg) calls) (id : ConnId) :
    (Session.run cfg calls).Recorded id ∧ Transmits id ((Session.run cfg calls).history id) :=
  ⟨Session.run_recorded cfg calls id, (run_txInv proper id).1⟩

namespace Dialogue

/-! A guest at port 40000 talks to the proxy. -/

/-- A segment of the guest on the wire; the stack does not look at its checksums. -/
def frame (seq ack : BitVec 32) (flags : Byte) (payload : List Byte) : List Byte :=
  bytes48 NetConfig.default.hostMac ++ bytes48 0x525400123456 ++ bytes16 ETHERTYPE_IP ++
    ipHeader (40 + payload.length) IP_PROTO_TCP NetConfig.default.guestIp NetConfig.default.hostIp
      0 ++
    bytes16 40000 ++ bytes16 8080 ++ bytes32 seq ++ bytes32
      ack ++ [0x50, flags, 0xff, 0xff, 0, 0, 0, 0] ++
    payload

def calls : List Call :=
  [.input (frame 1000 0 0x02 []), .takeOutput 8, .input (frame 1001 0x10010001 0x10 []),
    .send 1 [0x68, 0x69], .close 1, .takeOutput 8, .input (frame 1001 0x10010003 0x10 []),
    .takeOutput 8]

theorem calls_transmit : Transmits 1 ((Session.run NetConfig.default calls).history 1) ∧
      payloads ((Session.run NetConfig.default calls).history 1) = [0x68, 0x69] :=
  ⟨(proper_run_transmits NetConfig.default calls (by decide +kernel) 1).2, by decide +kernel⟩

end Dialogue

end Rv64Js.Net
