import Rv64Js.Net.Transmit

/-! # Sequence-number accounting

What is between `snd_una` and `snd_nxt` is sent and not acknowledged. An ACK that does not
acknowledge the SYN still ends the handshake, and the SYN's number is missing from then on. -/

set_option autoImplicit false

namespace Rv64Js.Net

open Conn

def Conn.firstUnacked (c : Conn) : BitVec 32 :=
  c.sndNxt - BitVec.ofNat 32 c.unacked.length - if c.state = .lastAck then 1 else 0

/-- The accounting of a connection, and what rests on it: an ACK removes bytes only when it
acknowledges them, and an ACK of everything sent is heard. -/
structure Accounted (c : Conn) : Prop where
  balance : c.sndNxt - c.sndUna = BitVec.ofNat 32 (c.unacked.length + c.controlInFlight)
  removes : ∀ ack, ∃ k, (c.acknowledge ack).unacked = c.unacked.drop k ∧
    (k = 0 ∨ k ≤ (ack - c.firstUnacked).toNat ∧
      (ack - c.firstUnacked).toNat ≤ (c.sndNxt - c.firstUnacked).toNat)
  heard : (c.acknowledge c.sndNxt).unacked = [] ∧ (c.acknowledge c.sndNxt).sndUna = c.sndNxt

/-- A FIN does not come before the handshake is complete. -/
def FinWaits : Option (Conn × Arrival) → Prop
  | some (c, g) =>
    c.state = .synReceived → g.flags.fin = true → g.flags.rst = false → g.flags.ack = true
  | none => True

instance : DecidablePred FinWaits
  | some (c, g) => inferInstanceAs (Decidable (c.state = .synReceived → g.flags.fin = true →
      g.flags.rst = false → g.flags.ack = true))
  | none => instDecidableTrue

/-- A proper call in which the guest does not close before the handshake either. -/
def Careful (s : Session) (call : Call) : Prop :=
  Proper s call ∧
    match call with
    | .input frame => FinWaits (s.stack.addressed frame)
    | _ => True

instance (s : Session) : (call : Call) → Decidable (Careful s call)
  | .input _ => inferInstanceAs (Decidable (_ ∧ FinWaits _))
  | .send .. | .close _ | .sendUdp .. | .takeOutput _ | .takeEvents =>
    inferInstanceAs (Decidable (_ ∧ True))

/-! ## Accounting of one connection -/

theorem sub_self_add (a b : BitVec 32) : a + b - a = b := by
  rw [BitVec.add_comm, BitVec.add_sub_cancel]

variable {c : Conn}

/-- Only a SYN or a FIN is in flight. -/
theorem Accounted.control (unacked : c.unacked = []) (control : c.controlInFlight = 1)
    (nxt : c.sndNxt = c.sndUna + 1) : Accounted c := by
  refine ⟨?_, fun ack => ⟨0, ?_, .inl rfl⟩, ?_⟩
  · rw [nxt, sub_self_add, unacked, control]
    rfl
  · rw [acknowledge_control unacked control]
    split <;> rfl
  · rw [acknowledge_control unacked control, if_pos nxt]
    exact ⟨unacked, rfl⟩

variable {j : List Note}

theorem Accounted.flowing {id : ConnId} (flow : Flowing id c.sending j)
    (carries : c.state = .established ∨ c.state = .closeWait) : Accounted c := by
  obtain ⟨done, whole, una, -⟩ := flow.acked
  have control : c.controlInFlight = 0 := by
    rcases carries with state | state <;> rw [controlInFlight, state]
  have open' : c.state ≠ .lastAck := by rcases carries with state | state <;> rw [state] <;> decide
  have whole' : payloads j = done ++ c.unacked := whole
  have una' : c.sndUna = iss id + 1 + BitVec.ofNat 32 done.length := una
  have nxt : c.sndNxt = c.sndUna + BitVec.ofNat 32 c.unacked.length := by
    have sent : c.sndNxt = iss id + 1 + BitVec.ofNat 32 (payloads j).length := flow.nxt
    rw [sent, una', whole', List.length_append, BitVec.ofNat_add, BitVec.add_assoc,
      BitVec.add_assoc, BitVec.add_assoc]
  have short : c.unacked.length < 2 ^ 32 := lt_of_le_of_lt flow.short (by decide)
  have first : c.firstUnacked = c.sndUna := by
    rw [firstUnacked, if_neg open', nxt, BitVec.add_sub_cancel]
    exact BitVec.sub_zero _
  have span : (c.sndNxt - c.sndUna).toNat = c.unacked.length := by
    rw [nxt, sub_self_add, BitVec.toNat_ofNat, Nat.mod_eq_of_lt short]
  refine ⟨?_, fun ack => ?_, ?_⟩
  · rw [nxt, sub_self_add, control]
    rfl
  · rw [first, span]
    unfold acknowledge
    rw [control, Nat.add_zero]
    dsimp only
    split
    · rename_i accepted
      refine ⟨(ack - c.sndUna).toNat, ?_, Or.inr ⟨Nat.le_refl _, accepted.2⟩⟩
      rw [Nat.min_eq_left accepted.2]
    · exact ⟨0, rfl, .inl rfl⟩
  · unfold acknowledge
    dsimp only
    rw [span, control]
    by_cases nothing : c.unacked = []
    · rw [if_neg (by simp [nothing])]
      refine ⟨nothing, ?_⟩
      rw [nxt, nothing]
      exact (BitVec.add_zero _).symm
    · rw [if_pos ⟨List.length_pos_iff.mpr nothing, Nat.le_refl _⟩]
      exact ⟨by simp, rfl⟩

/-! ## Careful runs -/

/-- A connection is in its handshake or was reported open. -/
def Announced (p : Phase) (j : List Note) : Prop :=
  match p with
  | .live c => c.state = .synReceived ∨ Opened j
  | _ => True

theorem Opened.append (opened : Opened j) (more : List Note) : Opened (j ++ more) := by
  obtain ⟨n, mem, is⟩ := opened
  exact ⟨n, List.mem_append_left _ mem, is⟩

theorem Announced.segment {c' : Conn} {g : Arrival} (before : c.state = .synReceived ∨ Opened j)
    (waits : FinWaits (some (c, g))) (left : (c.onSegment g).1 = some c') :
    c'.state = .synReceived ∨ Opened (j ++ .arrived g :: (c.onSegment g).2.map .output) := by
  rcases before with state | opened
  · obtain ⟨whole, -, rfl, outputs⟩ := onSegment_some left
    rw [outputs, absorb_state]
    unfold onAck
    dsimp only
    cases isAck : g.flags.ack with
    | true =>
      right
      rw [if_pos rfl, establish_syn (by rw [acknowledge_state]; exact state)]
      exact ⟨_, List.mem_append_right _ (List.mem_cons_of_mem _ (by simp; left; rfl)), rfl⟩
    | false =>
      left
      have noFin : g.flags.fin ≠ true := fun fin => by
        have := waits state fin whole
        rw [isAck] at this
        cases this
      simp [noFin, state]
  · exact .inr (opened.append _)

theorem Announced.step {s : Session} {call : Call} {id : ConnId} {p p' : Phase} {notes : List Note}
    (careful : Careful s call) (inv : TxInv id p (s.history id))
    (before : Announced p (s.history id))
    (stepped : Session.ConnStep s id call p notes p') : Announced p' (s.history id ++ notes) := by
  cases stepped with
  | idle => rw [List.append_nil]; exact before
  | taken => trivial
  | accept frame dst g => exact .inl rfl
  | segment frame c g own reaches =>
    have waits : FinWaits (some (c, g)) := reaches ▸ careful.2
    cases left : (c.onSegment g).1 with
    | none => trivial
    | some c' => exact .segment before waits left
  | send | close => exact before.imp_right fun opened => opened.append _
  | sendVoid _ p void | closeVoid p void =>
    cases p with
    | live c => exact absurd rfl (void c)
    | _ => trivial
  | pump limit c own =>
    rcases before with state | opened
    · have live : TxLive id c (s.history id) := inv.2.2
      unfold TxLive at live
      rw [state] at live
      rw [pump_idle live.1]
      exact .inl state
    · exact .inr (opened.append _)

/-- In every careful run the accounting of every connection is right. -/
theorem careful_run_accounts (cfg : NetConfig) (calls : List Call)
    (careful : Events.Admitted Session.step Careful (Session.start cfg) calls) :
    ∀ c ∈ (Session.run cfg calls).stack.conns, Accounted c := by
  intro c mem
  have wf := Session.WellFormed.run cfg calls
  obtain ⟨inv, announced⟩ := Session.run_invariant
    (I := fun id p j => TxInv id p j ∧ Announced p j)
    (fun id => ⟨⟨Transmits.nil id, rfl⟩, trivial⟩)
      (fun id => ⟨⟨Transmits.nil id, trivial⟩, trivial⟩)
    (fun _ _ _ _ _ _ ok inv stepped =>
      ⟨inv.1.step ok.1 stepped, Announced.step ok inv.1 inv.2 stepped⟩) careful c.id
  rw [wf.phase_live mem] at inv announced
  have live : TxLive c.id c ((Session.run cfg calls).history c.id) := inv.2.2
  rcases announced with state | opened
  · unfold TxLive at live
    rw [state] at live
    obtain ⟨idle, una, nxt⟩ := live
    exact Accounted.control idle.unacked (by rw [Conn.controlInFlight, state]) (by rw [nxt, una])
  · rcases live.ready opened with ⟨flow, carries⟩ | ⟨state, unacked, nxt⟩
    · exact Accounted.flowing flow carries
    · exact Accounted.control unacked (by rw [Conn.controlInFlight, state]) nxt

theorem Dialogue.calls_account :
    (Session.run NetConfig.default Dialogue.calls).stack.conns.length = 1 ∧
      ∀ c ∈ (Session.run NetConfig.default Dialogue.calls).stack.conns, Accounted c :=
  ⟨by decide +kernel, careful_run_accounts NetConfig.default Dialogue.calls (by decide +kernel)⟩

namespace StrayAck

/-- The ACK that ends the handshake does not acknowledge the SYN. -/
def calls : List Call :=
  [.input (Dialogue.frame 1000 0 0x02 []), .input (Dialogue.frame 1001 0x10010000 0x10 []),
    .send 1 [0x68, 0x69], .takeOutput 8]

/-- One number is missing from the count; the ACK of everything sent is ignored, and the ACK
of the first byte removes both. -/
theorem syn_never_counted : ∃ c ∈ (Session.run NetConfig.default calls).stack.conns,
      c.sndNxt - c.sndUna = 3 ∧ c.unacked = [0x68, 0x69] ∧ c.controlInFlight = 0 ∧
        (c.acknowledge c.sndNxt).unacked = [0x68, 0x69] ∧
        c.firstUnacked = 0x10010001 ∧ (c.acknowledge 0x10010002).unacked = [] ∧ ¬Accounted c := by
  refine ⟨_, List.mem_singleton.mpr rfl, by decide +kernel, by decide +kernel, by decide +kernel,
    by decide +kernel, by decide +kernel, by decide +kernel, fun accounted => ?_⟩
  exact absurd accounted.balance (by decide +kernel)

end StrayAck

end Rv64Js.Net
