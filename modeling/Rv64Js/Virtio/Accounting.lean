import Rv64Js.Lib.Events
import Rv64Js.Virtio.UsedRing

/-! # Chains taken and chains published

While the driver leaves the used rings alone and gives the device buffers apart from them, the heads
taken are the heads published and those that wait for a reply, and both indices count them modulo `2
^ 16`. A reply is published on queue 0 whatever queue its request came from, and the status byte of
a block request is written whatever the last descriptor's flags say; `Sound` leaves these two out.
-/

set_option autoImplicit false

namespace Rv64Js.Virtio

open Keyed VirtioDev
open Fallible
open Rv64Js.Core (Word)
open Rv64Js.Board (Ram)

variable {σ : Type}

/-! ## Waiting chains -/

theorem takePending_waiting {tag : BitVec 16} {backend backend' : Backend σ}
    {waiting : ExternalP9Pending} (taken : backend.takePending tag = some (waiting, backend')) :
    backend'.kind = backend.kind ∧ backend.waiting.Perm (waiting :: backend'.waiting) := by
  cases backend with
  | fsExternal requests pending =>
    obtain ⟨row, found, same⟩ := Option.map_eq_some_iff.mp taken
    cases same
    exact ⟨rfl, rows_remove tags_nodup (mem_tags tag) found⟩
  | _ => cases taken

/-- The heads that wait to be published on a queue: replies go to the first one. -/
def VirtioDev.waitingHeads (dev : VirtioDev σ) (qi : Fin 2) : List (BitVec 16) :=
  if qi = firstQueue then dev.backend.waiting.map (·.head) else []

/-! ## The ledger -/

def Queue.past (q : Queue) (n : Nat) :
    Queue := { q with lastAvailIdx := q.lastAvailIdx + BitVec.ofNat 16 n }

@[simp] theorem Queue.past_zero (q : Queue) : q.past 0 = q := by simp [Queue.past]

theorem Queue.past_past (q : Queue) (m n : Nat) : (q.past m).past n = q.past (m + n) := by
  simp [Queue.past, BitVec.ofNat_add, BitVec.add_assoc]

theorem Queue.past_one (q : Queue) : q.past 1 = q.took := rfl

section Ledger

variable (window : Window)

def takenBy (qi : Fin 2) (p p' : Port σ) : List (BitVec 16) :=
  let q := p.dev.queues qi
  if (p'.dev.queues qi).lastAvailIdx = q.lastAvailIdx then []
    else [availHead window q q.lastAvailIdx p.ram]

def publishedBy (qi : Fin 2) (p p' : Port σ) : List (BitVec 32) :=
  let q := p.dev.queues qi
  if usedIndex window q p'.ram = usedIndex window q p.ram then []
  else [usedEntry window q (usedIndex window q p.ram) p'.ram]

structure Ledger where
  taken : Fin 2 → List (BitVec 16) := fun _ => []
  published : Fin 2 → List (BitVec 32) := fun _ => []

def Ledger.enter (p p' : Port σ) (l : Ledger) : Ledger where
  taken qi := l.taken qi ++ takenBy window qi p p'
  published qi := l.published qi ++ publishedBy window qi p p'

variable (handle : σ → List Byte → Option (List Byte) × σ)

/-- The books over a queue loop, turn by turn. -/
def loopLedger (qi : Fin 2) : Nat → Port σ → Ledger → Ledger
  | 0, _, l => l
  | n + 1, p, l =>
    match turn window handle qi p with
    | .ok true p' => loopLedger qi n p' (l.enter window p p')
    | .ok false p' => l.enter window p p'
    | .error _ p' => l.enter window p p'

def processLedger (qi : Nat) (fuel : Nat) (p : Port σ) (l : Ledger) : Ledger :=
  if bound : qi < 2 then
    if (p.dev.queues ⟨qi, bound⟩).ready = 0 then l
      else loopLedger window handle ⟨qi, bound⟩ fuel p l
  else l

def Event.ledger (fuel : Nat) (p : Port σ) (l : Ledger) : Event → Ledger
  | .write offset val =>
    if offset = 0x050 then processLedger window handle val.toNat fuel p l else l
  | .poll qi => processLedger window handle qi fuel p l
  | .reply bytes => l.enter window p (finalState (fsExternalReply window bytes p))
  | .consoleInput bytes =>
    processLedger window handle 0 fuel { p with dev := p.dev.consoleInput bytes } l
  | .netInput _ => l

structure Watched (σ : Type) where
  port : Port σ
  ledger : Ledger := {}

/-- An event, panics included, or a change of RAM by the guest. -/
def Watched.step (fuel : Nat) (s : Watched σ) : Step → Watched σ
  | .event e =>
    { port := finalState (e.perform window handle fuel s.port)
      ledger := e.ledger window handle fuel s.port s.ledger }
  | .guest ram => { s with port := { s.port with ram := ram } }

/-- The heads taken are those published and those that wait, and the indices count them. -/
structure Balanced (qi : Fin 2) (taken : List (BitVec 16)) (published : List (BitVec 32))
    (p p' : Port σ) : Prop where
  queue : p'.dev.queues qi = (p.dev.queues qi).past taken.length
  used : usedIndex window (p.dev.queues qi) p'.ram =
    usedIndex window (p.dev.queues qi) p.ram + BitVec.ofNat 16 published.length
  heads : ((taken ++ p.dev.waitingHeads qi).map (BitVec.setWidth 32)).Perm
    (published ++ (p'.dev.waitingHeads qi).map (BitVec.setWidth 32))

end Ledger

namespace Balanced

variable {window : Window} {qi : Fin 2} {p p' : Port σ}

theorem refl (qi : Fin 2) (p : Port σ) : Balanced window qi [] [] p p where
  queue := by simp
  used := by simp
  heads := .refl _

theorem trans {taken taken' : List (BitVec 16)} {published published' : List (BitVec 32)}
    {a b c : Port σ} (first : Balanced window qi taken published a b)
    (second : Balanced window qi taken' published' b c) :
    Balanced window qi (taken ++ taken') (published ++ published') a c where
  queue := by rw [second.queue, first.queue, Queue.past_past, List.length_append]
  used := by
    have later := second.used
    rw [first.queue] at later
    change usedIndex window (a.dev.queues qi) c.ram =
      usedIndex window (a.dev.queues qi) b.ram + _ at later
    rw [later, first.used, List.length_append, BitVec.ofNat_add, BitVec.add_assoc]
  heads := by
    rw [List.perm_iff_count]
    intro head
    have one := first.heads.count_eq head
    have two := second.heads.count_eq head
    simp only [List.map_append, List.count_append] at one two ⊢
    omega

theorem observed (taken : Option (BitVec 16)) (published : Option (BitVec 32))
    (balanced : Balanced window qi taken.toList published.toList p p') (head : ∀ h ∈ taken,
      availHead window (p.dev.queues qi) (p.dev.queues qi).lastAvailIdx p.ram = h)
    (entry : ∀ id ∈ published,
      usedEntry window (p.dev.queues qi) (usedIndex window (p.dev.queues qi) p.ram) p'.ram = id) :
    Balanced window qi (takenBy window qi p p') (publishedBy window qi p p') p p' := by
  have heads : takenBy window qi p p' = taken.toList := by
    cases taken with
    | none => simp [takenBy, balanced.queue]
    | some h =>
      have moved : (p'.dev.queues qi).lastAvailIdx ≠ (p.dev.queues qi).lastAvailIdx := by
        rw [balanced.queue, Queue.past]
        simp
      simp [takenBy, moved, head h rfl]
  have entries : publishedBy window qi p p' = published.toList := by
    cases published with
    | none => simp [publishedBy, balanced.used]
    | some id =>
      have moved : usedIndex window (p.dev.queues qi) p'.ram ≠ usedIndex window (p.dev.queues qi)
          p.ram := by
        rw [balanced.used]
        simp
      simp [publishedBy, moved, entry id rfl]
  rwa [heads, entries]

end Balanced

/-! ## What the driver must do -/

section Driver

variable (window : Window)

/-- The range holds no byte of a used ring. -/
def UsedApart (dev : VirtioDev σ) (off n : Nat) : Prop :=
  ∀ qi, (dev.queues qi).ready ≠ 0 →
    Apart off n (offset window (dev.queues qi).used) (usedSize (dev.queues qi))

instance (dev : VirtioDev σ) (off n : Nat) : Decidable (UsedApart window dev off n) :=
  inferInstanceAs (Decidable (∀ _ : Fin 2, _ ≠ _ → Apart ..))

/-- The queues that are ready have a size, and a used ring in RAM that they share with no
other. -/
structure Rings (dev : VirtioDev σ) : Prop where
  placed : ∀ qi, (dev.queues qi).ready ≠ 0 → (dev.queues qi).Placed window
  apart : ∀ qi other, qi ≠ other → (dev.queues qi).ready ≠ 0 → (dev.queues other).ready ≠ 0 →
    Apart (offset window (dev.queues qi).used) (usedSize (dev.queues qi))
      (offset window (dev.queues other).used) (usedSize (dev.queues other))

/-- No device-writable buffer of the chain holds a byte of a used ring. -/
def ChainApart (dev : VirtioDev σ) (chain : List Descriptor) : Prop :=
  ∀ d ∈ chain, d.writable = true → UsedApart window dev (offset window d.addr) d.len.toNat

instance (dev : VirtioDev σ) (chain : List Descriptor) : Decidable (ChainApart window dev chain) :=
  inferInstanceAs (Decidable (∀ d ∈ chain, _ = _ → UsedApart ..))

def next (qi : Fin 2) (p : Port σ) : Option (List Descriptor) :=
  let q := p.dev.queues qi
  if q.lastAvailIdx = availIndex window q p.ram then none
  else descriptorChain window q (availHead window q q.lastAvailIdx p.ram) p.ram

/-- The buffers the driver gives the device lie apart from the used rings. -/
def BuffersApart (qi : Fin 2) (p : Port σ) :
    Prop := ∀ chain ∈ next window qi p, ChainApart window p.dev chain

/-- An external server is asked on the first queue only, and the status byte of a block
request does not fall on a used ring. -/
def Sound (qi : Fin 2) (p : Port σ) : Prop :=
  (p.dev.backend.kind = .fsExternal → qi = firstQueue) ∧
  (p.dev.backend.kind = .block → ∀ chain ∈ next window qi p, ∀ d ∈ chain.getLast?,
    UsedApart window p.dev (offset window d.addr) 1)

instance (qi : Fin 2) (p : Port σ) : Decidable (BuffersApart window qi p) :=
  inferInstanceAs (Decidable (∀ chain ∈ next window qi p, ChainApart ..))

instance (qi : Fin 2) (p : Port σ) : Decidable (Sound window qi p) :=
  inferInstanceAs
    (Decidable
      ((_ = _ → _ = _) ∧ (_ = _ → ∀ chain ∈ next window qi p, ∀ d ∈ chain.getLast?, UsedApart ..)))

/-- The chains that wait were taken from the first queue, and lie apart from the used rings. -/
def Held (dev : VirtioDev σ) : Prop :=
  ∀ waiting ∈ dev.backend.waiting, (dev.queues firstQueue).ready ≠ 0 ∧
    ChainApart window dev waiting.chain

variable (handle : σ → List Byte → Option (List Byte) × σ)

/-- A condition on the state a loop goes on from. -/
def GoesOn (P : Port σ → Prop) : EStateM.Result Panic (Port σ) Bool → Prop
  | .ok true p => P p
  | _ => True

instance GoesOn.decidable {P : Port σ → Prop} [DecidablePred P] :
    ∀ r : EStateM.Result Panic (Port σ) Bool, Decidable (GoesOn P r)
  | .ok true p => inferInstanceAs (Decidable (P p))
  | .ok false _ => instDecidableTrue
  | .error _ _ => instDecidableTrue

/-- Each turn of a queue loop starts from a state that meets `P`. -/
def Throughout (P : Fin 2 → Port σ → Prop) (qi : Fin 2) : Nat → Port σ → Prop
  | 0, _ => True
  | n + 1, p => P qi p ∧ GoesOn (Throughout P qi n) (turn window handle qi p)

instance Throughout.decidable {P : Fin 2 → Port σ → Prop} [∀ qi p, Decidable (P qi p)]
    (qi : Fin 2) :
    ∀ (n : Nat) (p : Port σ), Decidable (Throughout window handle P qi n p)
  | 0, _ => instDecidableTrue
  | n + 1, p =>
    have : DecidablePred (Throughout window handle P qi n) := Throughout.decidable qi n
    inferInstanceAs (Decidable (P qi p ∧ GoesOn ..))

def During (P : Fin 2 → Port σ → Prop) (fuel qi : Nat) (p : Port σ) : Prop :=
  ∀ bound : qi < 2, (p.dev.queues ⟨qi, bound⟩).ready ≠ 0 →
    Throughout window handle P ⟨qi, bound⟩ fuel p

instance {P : Fin 2 → Port σ → Prop} [∀ qi p, Decidable (P qi p)] (fuel qi : Nat) (p : Port σ) :
    Decidable (During window handle P fuel qi p) :=
  inferInstanceAs (Decidable (∀ _ : qi < 2, _ ≠ _ → Throughout ..))

/-- The registers that set up the queues or reset the device. -/
def setupRegisters : List Word := [0x038, 0x044, 0x070, 0x080, 0x084, 0x090, 0x094, 0x0a0, 0x0a4]

/-- The setup stays, the guest leaves the used rings alone, and each turn of a queue meets
`P`. -/
def Obeys (P : Fin 2 → Port σ → Prop) (fuel : Nat) (p : Port σ) : Step → Prop
  | .guest ram => ∀ qi, (p.dev.queues qi).ready ≠ 0 → ∀ i < usedSize (p.dev.queues qi),
    ram (offset window (p.dev.queues qi).used + i) =
      p.ram (offset window (p.dev.queues qi).used + i)
  | .event (.write reg val) =>
    reg ∉ setupRegisters ∧ (reg = 0x050 → During window handle P fuel val.toNat p)
  | .event (.poll qi) => During window handle P fuel qi p
  | .event (.reply _) => True
  | .event (.consoleInput bytes) =>
    During window handle P fuel 0 { p with dev := p.dev.consoleInput bytes }
  | .event (.netInput _) => True

instance Obeys.decidable {P : Fin 2 → Port σ → Prop} [∀ qi p, Decidable (P qi p)] (fuel : Nat)
    (p : Port σ) :
    ∀ step, Decidable (Obeys window handle P fuel p step)
  | .guest _ => inferInstanceAs (Decidable (∀ _ : Fin 2, _ ≠ _ → ∀ i < usedSize _, _ = _))
  | .event (.write _ _) => inferInstanceAs (Decidable (_ ∉ setupRegisters ∧ (_ = _ → During ..)))
  | .event (.poll _) | .event (.consoleInput _) => inferInstanceAs (Decidable (During ..))
  | .event (.reply _) => instDecidableTrue
  | .event (.netInput _) => instDecidableTrue

end Driver

/-! ## One step -/

section Steps

variable {window : Window} {handle : σ → List Byte → Option (List Byte) × σ} {qi : Fin 2}
    {p p' : Port σ}

def RingByte (window : Window) (dev : VirtioDev σ) (a : Nat) : Prop :=
  ∃ qi, (dev.queues qi).ready ≠ 0 ∧ UsedByte window (dev.queues qi) a

abbrev OffRings (window : Window) (dev : VirtioDev σ) (ram ram' : Ram) : Prop :=
  Within (fun a => ¬ RingByte window dev a) ram ram'

variable {dev : VirtioDev σ}

theorem UsedApart.off {off n : Nat} (apart : UsedApart window dev off n) :
    Spans (fun a => ¬ RingByte window dev a) off n := by
  rintro a low high ⟨qi, ready, inside⟩
  exact (apart qi ready).not_used low high inside

variable {chain : List Descriptor}

theorem ChainApart.off (apart : ChainApart window dev chain) (a : Nat)
    (inside : InBuffer window chain a) : ¬ RingByte window dev a := by
  obtain ⟨d, member, writable, low, high⟩ := inside
  exact (apart d member writable).off a low high

variable {ram : Ram}

theorem OffRings.usedIndex {ram' : Ram} (off : OffRings window dev ram ram')
    (rings : Rings window dev) (ready : (dev.queues qi).ready ≠ 0) :
    usedIndex window (dev.queues qi) ram' = usedIndex window (dev.queues qi) ram :=
  (rings.placed qi ready).usedIndex_within off fun _ inside outside => outside ⟨qi, ready, inside⟩

def SameSetup (dev dev' : VirtioDev σ) : Prop := ∀ i, ∃ n, dev'.queues i = (dev.queues i).past n

namespace SameSetup

variable {dev dev' : VirtioDev σ}

theorem of_eq (same : dev'.queues = dev.queues) : SameSetup dev dev' :=
  fun i => ⟨0, by rw [same, Queue.past_zero]⟩

theorem advance (same : dev'.queues = (dev.advance qi).queues) : SameSetup dev dev' := by
  intro i
  by_cases taken : i = qi
  · subst taken
    exact ⟨1, by rw [same, advance_queue, Queue.past_one]⟩
  · refine ⟨0, ?_⟩
    rw [same, Queue.past_zero]
    simp [VirtioDev.advance, setQueue, taken]

theorem trans {dev'' : VirtioDev σ} (first : SameSetup dev dev') (second : SameSetup dev' dev'') :
    SameSetup dev dev'' := by
  intro i
  obtain ⟨m, before⟩ := first i
  obtain ⟨n, after⟩ := second i
  exact ⟨m + n, by rw [after, before, Queue.past_past]⟩

theorem ready (same : SameSetup dev dev') (i : Fin 2) :
    (dev'.queues i).ready = (dev.queues i).ready := by
  obtain ⟨n, past⟩ := same i
  rw [past, Queue.past]

theorem chainApart (same : SameSetup dev dev') {chain : List Descriptor}
    (apart : ChainApart window dev chain) : ChainApart window dev' chain := by
  intro d member writable i ready
  have before := apart d member writable i (by rwa [← same.ready])
  obtain ⟨n, past⟩ := same i
  rw [past]
  exact before

theorem rings (same : SameSetup dev dev') (rings : Rings window dev) : Rings window dev' := by
  refine ⟨fun i ready => ?_, fun i other differ ready ready' => ?_⟩
  · have placed := rings.placed i (by rwa [← same.ready])
    obtain ⟨n, past⟩ := same i
    rw [past]
    exact ⟨placed.sized, placed.used⟩
  · have apart := rings.apart i other differ (by rwa [← same.ready]) (by rwa [← same.ready])
    obtain ⟨m, past⟩ := same i
    obtain ⟨n, past'⟩ := same other
    rw [past, past']
    exact apart

end SameSetup

/-- What a turn that has found `head` may come to. -/
inductive Outcome (window : Window) (qi : Fin 2) (head : BitVec 16) (p p' : Port σ) : Prop
  /-- nothing was taken: the backend is idle, or it has panicked -/
  | quiet (queues : p'.dev.queues = p.dev.queues)
    (waiting : p'.dev.backend.waiting = p.dev.backend.waiting)
      (off : OffRings window p.dev p.ram p'.ram)
  | completed (ram : Ram) (queues : p'.dev.queues = (p.dev.advance qi).queues)
      (waiting : p'.dev.backend.waiting = p.dev.backend.waiting)
        (off : OffRings window p.dev p.ram ram)
      (published : Published window (p.dev.queues qi) head ram p'.ram)
  | deferred (chain : List Descriptor) (first : qi = firstQueue)
    (apart : ChainApart window p.dev chain)
      (queues : p'.dev.queues = (p.dev.advance qi).queues)
      (waiting : p'.dev.backend.waiting.Perm
        ({ head := head, chain := chain } :: p.dev.backend.waiting))
      (off : OffRings window p.dev p.ram p'.ram)

theorem complete_published {q : Queue} (placed : q.Placed window) (qi : Fin 2) (head : BitVec 16)
    (written : BitVec 32) (p : Port σ) : ∃ ram, Published window q head p.ram ram ∧
      complete window qi q head written p =
        .ok true { dev := (p.dev.advance qi).interrupt, ram := ram } := by
  obtain ⟨ram, run, published⟩ := placed.publishUsed head written p.ram
  have lifted : onRam (publishUsed window q head written) p = .ok () { p with ram := ram } :=
    zoom_ok run
  refine ⟨ram, published, ?_⟩
  rw [complete, bind_ok _ lifted]
  rfl

theorem serve_outcome (rings : Rings window p.dev) (ready : (p.dev.queues qi).ready ≠ 0)
    {head : BitVec 16} (first : p.dev.backend.kind = .fsExternal → qi = firstQueue)
    (chains : ∀ chain, descriptorChain window (p.dev.queues qi) head p.ram = some chain →
      ChainApart window p.dev chain ∧
      (p.dev.backend.kind = .block →
        ∀ d ∈ chain.getLast?, UsedApart window p.dev (offset window d.addr) 1)) :
    Outcome window qi head p (finalState (serve window handle qi (p.dev.queues qi) head p)) := by
  have placed := rings.placed qi ready
  rw [serve, get_bind]
  cases walked : descriptorChain window (p.dev.queues qi) head p.ram with
  | none =>
    obtain ⟨ram, published, run⟩ := complete_published placed qi head 0 p
    dsimp only
    rw [run]
    exact .completed p.ram rfl rfl (.refl _) published
  | some chain =>
    obtain ⟨apart, status⟩ := chains chain walked
    have written : ∀ a, Written window p.dev.backend.kind qi chain a →
        ¬ RingByte window p.dev a := by
      intro a hit
      cases kind : p.dev.backend.kind <;> rw [kind] at hit
      · exact apart.off a hit.2
      · rcases hit with inside | ⟨d, last, rfl⟩
        · exact apart.off a inside
        · exact (status kind d last).off _ (Nat.le_refl _) (Nat.lt_succ_self _)
      · exact apart.off a hit
      · exact hit.elim
      · exact apart.off a hit.2
    have along := service_along handle qi head p.dev.backend written p.ram
    dsimp only
    rw [get_bind]
    cases serviced : service window handle qi head chain p.dev.backend p.ram with
    | error e ram =>
      have lifted : onRam (service window handle qi head chain p.dev.backend) p =
          .error e { p with ram := ram } :=
        zoom_error serviced
      rw [serviced] at along
      rw [bind_error _ lifted]
      exact .quiet rfl rfl along
    | ok r ram =>
      obtain ⟨backend, result⟩ := r
      have lifted : onRam (service window handle qi head chain p.dev.backend) p =
          .ok (backend, result) { p with ram := ram } := zoom_ok serviced
      have retained := (service_retained handle qi head chain p.dev.backend _ _ _ serviced).2
      rw [serviced] at along
      rw [bind_ok _ lifted]
      cases result with
      | complete written =>
        obtain ⟨ram', published, run⟩ := complete_published placed qi head written
          { p with dev := { p.dev with backend := backend }, ram := ram }
        have rest : finalState (complete window qi (p.dev.queues qi) head written
          { p with dev := { p.dev with backend := backend }, ram := ram }) = _ := congrArg
            finalState run
        exact rest ▸ .completed ram rfl retained along published
      | deferred => exact .deferred chain (first retained.1) apart rfl retained.2 along
      | blocked => exact .quiet rfl retained along

/-- A turn or a reply keeps the setup and the waiting chains in order, and goes on the
books as it was. -/
structure Booked (window : Window) (p p' : Port σ) : Prop where
  setup : SameSetup p.dev p'.dev
  held : Held window p'.dev
  balanced : ∀ i, (p.dev.queues i).ready ≠ 0 →
    Balanced window i (takenBy window i p p') (publishedBy window i p p') p p'

variable {i : Fin 2}

theorem Balanced.untouched (queue : p'.dev.queues i = p.dev.queues i)
    (index : usedIndex window (p.dev.queues i) p'.ram = usedIndex window (p.dev.queues i) p.ram)
    (waiting : (p.dev.waitingHeads i).Perm (p'.dev.waitingHeads i)) :
    Balanced window i (takenBy window i p p') (publishedBy window i p p') p p' := by
  refine .observed none none ⟨?_, ?_, ?_⟩ nofun nofun
  · exact queue.trans (Queue.past_zero _).symm
  · simpa using index
  · exact waiting.map _

theorem waitingHeads_eq {dev' : VirtioDev σ} (same : dev'.backend.waiting = dev.backend.waiting)
    (i : Fin 2) : dev'.waitingHeads i = dev.waitingHeads i := by
  rw [waitingHeads, waitingHeads, same]

theorem Held.same {dev' : VirtioDev σ} (held : Held window dev) (setup : SameSetup dev dev')
    (waiting : dev'.backend.waiting = dev.backend.waiting) : Held window dev' := by
  intro chain member
  rw [waiting] at member
  obtain ⟨ready, apart⟩ := held chain member
  exact ⟨by rwa [setup.ready], setup.chainApart apart⟩

theorem Booked.quiet (rings : Rings window p.dev) (held : Held window p.dev)
    (queues : p'.dev.queues = p.dev.queues)
    (waiting : p'.dev.backend.waiting = p.dev.backend.waiting)
    (off : OffRings window p.dev p.ram p'.ram) : Booked window p p' where
  setup := .of_eq queues
  held := held.same (.of_eq queues) waiting
  balanced i ready :=
    .untouched (by rw [queues]) (off.usedIndex rings ready)
      (.of_eq (waitingHeads_eq waiting i).symm)

theorem advance_other (other : i ≠ qi) : (dev.advance qi).queues i = dev.queues i := by
  simp [VirtioDev.advance, setQueue, other]

theorem Published.other {ram' : Ram} {head : BitVec 16} {dev : VirtioDev σ}
    (rings : Rings window dev) (published : Published window (dev.queues qi) head ram ram')
    (ready : (dev.queues qi).ready ≠ 0) (other : i ≠ qi) (used : (dev.queues i).ready ≠ 0) :
    usedIndex window (dev.queues i) ram' = usedIndex window (dev.queues i) ram :=
  (rings.placed i used).usedIndex_within published.within fun _ inside =>
    (rings.apart i qi other used ready).not_used inside.1 inside.2

section

variable (rings : Rings window p.dev)
include rings

theorem Booked.completed (held : Held window p.dev) (ready : (p.dev.queues qi).ready ≠ 0)
    (queues : p'.dev.queues = (p.dev.advance qi).queues)
    (waiting : p'.dev.backend.waiting = p.dev.backend.waiting)
    (off : OffRings window p.dev p.ram ram) (published : Published window (p.dev.queues qi)
      (availHead window (p.dev.queues qi) (p.dev.queues qi).lastAvailIdx p.ram) ram p'.ram) :
    Booked window p p' := by
  refine ⟨.advance queues, held.same (.advance queues) waiting, fun i used => ?_⟩
  have same := off.usedIndex rings used
  by_cases taken : i = qi
  · subst taken
    refine Balanced.observed (some _) (some _) ⟨?_, ?_, ?_⟩ (fun _ hit => Option.some.inj hit)
      fun _ hit => Option.some.inj hit
    · rw [queues, advance_queue]
      rfl
    · exact published.index.trans (by rw [same]; rfl)
    · have entry := published.entry
      rw [same] at entry
      rw [entry, waitingHeads_eq waiting]
      exact .refl _
  · exact .untouched (by rw [queues, advance_other taken])
      ((published.other rings ready taken used).trans same)
        (.of_eq (waitingHeads_eq waiting i).symm)

theorem Booked.deferred (held : Held window p.dev) (ready : (p.dev.queues firstQueue).ready ≠ 0)
    (apart : ChainApart window p.dev chain)
    (queues : p'.dev.queues = (p.dev.advance firstQueue).queues)
    (waiting : p'.dev.backend.waiting.Perm
      ({ head :=
        availHead window (p.dev.queues firstQueue) (p.dev.queues firstQueue).lastAvailIdx p.ram,
         chain := chain } :: p.dev.backend.waiting)) (off : OffRings window p.dev p.ram p'.ram) :
    Booked window p p' := by
  have setup : SameSetup p.dev p'.dev := .advance queues
  refine ⟨setup, fun row member => ?_, fun i used => ?_⟩
  · rcases List.mem_cons.mp (waiting.mem_iff.mp member) with rfl | before
    · exact ⟨by rwa [setup.ready], setup.chainApart apart⟩
    · obtain ⟨ready, apart⟩ := held row before
      exact ⟨by rwa [setup.ready], setup.chainApart apart⟩
  · by_cases taken : i = firstQueue
    · subst taken
      refine .observed (some _) none ⟨?_, ?_, ?_⟩
        (fun _ hit => Option.some.inj hit) nofun
      · rw [queues, advance_queue]
        rfl
      · simpa using off.usedIndex rings used
      · have heads := ((waiting.map ExternalP9Pending.head).map (BitVec.setWidth 32)).symm
        simpa [waitingHeads] using heads
    · refine .untouched (by rw [queues, advance_other taken]) (off.usedIndex rings used) ?_
      rw [waitingHeads, waitingHeads, if_neg taken, if_neg taken]

theorem Booked.replied (held : Held window p.dev) (ready : (p.dev.queues firstQueue).ready ≠ 0)
    {row : ExternalP9Pending} (queues : p'.dev.queues = p.dev.queues)
    (waiting : p.dev.backend.waiting.Perm (row :: p'.dev.backend.waiting))
    (off : OffRings window p.dev p.ram ram)
    (published : Published window (p.dev.queues firstQueue) row.head ram p'.ram) :
    Booked window p p' := by
  have setup : SameSetup p.dev p'.dev := .of_eq queues
  refine ⟨setup, fun other member => ?_, fun i used => ?_⟩
  · obtain ⟨ready, apart⟩ := held other (waiting.mem_iff.mpr (List.mem_cons_of_mem _ member))
    exact ⟨by rwa [setup.ready], setup.chainApart apart⟩
  · have same := off.usedIndex rings used
    by_cases first : i = firstQueue
    · subst first
      refine .observed none (some _) ⟨?_, ?_, ?_⟩ nofun
        fun _ hit => Option.some.inj hit
      · exact (congrFun queues _).trans (Queue.past_zero _).symm
      · exact published.index.trans (by rw [same]; rfl)
      · have entry := published.entry
        rw [same] at entry
        rw [entry]
        simpa [waitingHeads] using (waiting.map ExternalP9Pending.head).map (BitVec.setWidth 32)
    · refine .untouched (by rw [queues]) ((published.other rings ready first used).trans same) ?_
      rw [waitingHeads, waitingHeads, if_neg first, if_neg first]

theorem Outcome.booked (held : Held window p.dev) (ready : (p.dev.queues qi).ready ≠ 0)
    (outcome : Outcome window qi
      (availHead window (p.dev.queues qi) (p.dev.queues qi).lastAvailIdx p.ram) p p') :
    Booked window p p' := by
  cases outcome with
  | quiet queues waiting off => exact .quiet rings held queues waiting off
  | completed ram queues waiting off published =>
    exact .completed rings held ready queues waiting off published
  | deferred chain first apart queues waiting off =>
    subst first
    exact .deferred rings held ready apart queues waiting off

end

theorem turn_booked (rings : Rings window p.dev) (held : Held window p.dev)
    (ready : (p.dev.queues qi).ready ≠ 0) (buffers : BuffersApart window qi p)
    (sound : Sound window qi p) : Booked window p (finalState (turn window handle qi p)) := by
  rcases turn_cases window handle qi p with idle | ⟨e, failed⟩ | ⟨differ, served⟩
  · rw [idle]
    exact .quiet rings held rfl rfl (.refl _)
  · rw [failed]
    exact .quiet rings held rfl rfl (.refl _)
  · rw [served]
    refine Outcome.booked rings held ready
      (serve_outcome rings ready sound.1 fun chain walked => ?_)
    have taken : chain ∈ next window qi p := by
      rw [Option.mem_def, next, if_neg differ, walked]
    exact ⟨buffers chain taken, fun kind => sound.2 kind chain taken⟩

theorem reply_booked (rings : Rings window p.dev) (held : Held window p.dev) (bytes : List Byte) :
    Booked window p (finalState (fsExternalReply window bytes p)) := by
  rw [fsExternalReply, get_bind]
  cases answered : (p9Tag bytes).bind fun tag => p.dev.backend.takePending tag with
  | none => exact .quiet rings held rfl rfl (.refl _)
  | some answer =>
    obtain ⟨row, backend⟩ := answer
    obtain ⟨tag, -, taken⟩ := Option.bind_eq_some_iff.mp answered
    obtain ⟨-, waiting⟩ := takePending_waiting taken
    obtain ⟨ready, apart⟩ := held row (waiting.mem_iff.mpr List.mem_cons_self)
    obtain ⟨ram, run, published⟩ := (rings.placed firstQueue ready).publishUsed row.head
      (.ofNat 32 (scatter window row.chain bytes p.ram).1) (scatter window row.chain bytes p.ram).2
    have lifted : onRam (publishUsed window (p.dev.queues firstQueue) row.head
          (.ofNat 32 (scatter window row.chain bytes p.ram).1))
        { p with
          dev := { p.dev with backend := backend }
          ram := (scatter window row.chain bytes p.ram).2 } =
        .ok () { p with dev := { p.dev with backend := backend }, ram := ram } := zoom_ok run
    have whole := congrArg finalState (bind_ok
      (fun _ => do onDev interrupt; pure true) lifted)
    refine whole ▸ Booked.replied rings held ready rfl waiting
      (scatter_within row.chain bytes p.ram apart.off) published

end Steps

/-! ## Runs -/

section Runs

variable {window : Window} {handle : σ → List Byte → Option (List Byte) × σ} {start : Port σ}

structure Kept (window : Window) (start : Port σ) (s : Watched σ) : Prop where
  setup : SameSetup start.dev s.port.dev
  held : Held window s.port.dev
  balanced : ∀ i, (start.dev.queues i).ready ≠ 0 →
    Balanced window i (s.ledger.taken i) (s.ledger.published i) start s.port

namespace Kept

theorem begin (held : Held window start.dev) : Kept window start { port := start } where
  setup := .of_eq rfl
  held := held
  balanced i _ := .refl i start

variable {l : Ledger}

theorem enter {p p' : Port σ} (kept : Kept window start { port := p, ledger := l })
    (booked : Booked window p p') :
    Kept window start { port := p', ledger := l.enter window p p' } where
  setup := kept.setup.trans booked.setup
  held := booked.held
  balanced i ready := (kept.balanced i ready).trans (booked.balanced i (by rwa [kept.setup.ready]))

theorem aside {p p' : Port σ} (kept : Kept window start { port := p, ledger := l })
    (queues : p'.dev.queues = p.dev.queues)
    (waiting : p'.dev.backend.waiting = p.dev.backend.waiting)
    (index : ∀ i, (p.dev.queues i).ready ≠ 0 →
      usedIndex window (p.dev.queues i) p'.ram = usedIndex window (p.dev.queues i) p.ram) :
    Kept window start { port := p', ledger := l } where
  setup := kept.setup.trans (.of_eq queues)
  held := kept.held.same (.of_eq queues) waiting
  balanced i ready := by
    have still : Balanced window i [] [] p p' :=
      ⟨(congrFun queues i).trans (Queue.past_zero _).symm,
        (index i (by rwa [kept.setup.ready])).trans (by simp),
        .of_eq (by rw [waitingHeads_eq waiting]; rfl)⟩
    simpa using (kept.balanced i ready).trans still

/-- By induction on the fuel: each turn is entered, and a turn that goes on leaves a state
that meets the conditions of the next. -/
theorem loop (rings : Rings window start.dev) {qi : Fin 2}
    (ready : (start.dev.queues qi).ready ≠ 0) :
    ∀ (fuel : Nat) {p : Port σ} {l : Ledger}, Kept window start { port := p, ledger := l } →
      Throughout window handle (BuffersApart window) qi fuel p →
      Throughout window handle (Sound window) qi fuel p →
      Kept window start
        { port := finalState (processLoop window handle qi fuel p),
          ledger := loopLedger window handle qi fuel p l }
  | 0, _, _, kept, _, _ => kept
  | fuel + 1, p, l, kept, buffers, sound => by
    have booked : Booked window p (finalState (turn window handle qi p)) :=
      turn_booked (kept.setup.rings rings) kept.held (by rwa [kept.setup.ready]) buffers.1 sound.1
    have entered := kept.enter booked
    have later := buffers.2
    have later' := sound.2
    rw [processLoop, loopLedger]
    cases taken : turn window handle qi p with
    | error e p' =>
      rw [taken] at entered
      rw [bind_error _ taken]
      exact entered
    | ok more p' =>
      rw [taken] at entered later later'
      rw [bind_ok _ taken]
      cases more with
      | false => exact entered
      | true => exact loop rings ready fuel entered later later'

theorem process (rings : Rings window start.dev) {qi fuel : Nat} {p : Port σ}
    (kept : Kept window start { port := p, ledger := l })
    (buffers : During window handle (BuffersApart window) fuel qi p)
    (sound : During window handle (Sound window) fuel qi p) :
    Kept window start
      { port := finalState (Virtio.process window handle qi fuel p)
        ledger := processLedger window handle qi fuel p l } := by
  unfold Virtio.process processLedger
  by_cases bound : qi < 2
  · simp only [bound, dif_pos, get_bind]
    by_cases off : (p.dev.queues ⟨qi, bound⟩).ready = 0
    · rw [if_pos off, if_pos off]
      exact kept
    · rw [if_neg off, if_neg off]
      exact kept.loop rings (by rwa [← kept.setup.ready]) fuel (buffers bound off) (sound bound off)
  · rw [dif_neg bound, dif_neg bound]
    exact kept

end Kept

variable (dev : VirtioDev σ)

theorem consoleInput_waiting (bytes : List Byte) :
    (dev.consoleInput bytes).backend.waiting = dev.backend.waiting := by
  unfold VirtioDev.consoleInput
  split
  · rename_i backend
    rw [backend]
    rfl
  · rfl

theorem netInput_steady (frame : List Byte) :
    (dev.netInput frame).1.queues = dev.queues ∧
    (dev.netInput frame).1.backend.waiting = dev.backend.waiting := by
  unfold VirtioDev.netInput
  split
  · rename_i backend
    split
    · exact ⟨rfl, by rw [backend]; rfl⟩
    · exact ⟨rfl, rfl⟩
  · exact ⟨rfl, rfl⟩

theorem setRegister_steady {reg : Word} (val : BitVec 32) (kept : reg ∉ setupRegisters) :
    (dev.setRegister reg val).queues = dev.queues ∧
    (dev.setRegister reg val).backend = dev.backend := by
  simp only [setupRegisters, List.mem_cons, List.not_mem_nil, or_false, not_or] at kept
  obtain ⟨num, ready, status, descLo, descHi, availLo, availHi, usedLo, usedHi⟩ := kept
  simp only [setRegister, num, ready, status, descLo, descHi, availLo, availHi, usedLo, usedHi,
    if_false]
  split_ifs <;> exact ⟨rfl, rfl⟩

theorem Kept.step (rings : Rings window start.dev) {fuel : Nat} {s : Watched σ} {step : Step}
    (kept : Kept window start s)
    (buffers : Obeys window handle (BuffersApart window) fuel s.port step)
    (sound : Obeys window handle (Sound window) fuel s.port step) :
    Kept window start (s.step window handle fuel step) := by
  cases step with
  | guest ram =>
    refine kept.aside rfl rfl fun i ready => ?_
    have placed := (kept.setup.rings rings).placed i ready
    refine placed.usedIndex_within (W := fun a => ¬ UsedByte window (s.port.dev.queues i) a) ?_
      fun _ inside outside => outside inside
    intro a inside
    obtain ⟨low, high⟩ := not_not.mp inside
    have same := buffers i ready (a - offset window (s.port.dev.queues i).used) (by omega)
    rwa [Nat.add_sub_cancel' low] at same
  | event e =>
    cases e with
    | write reg val =>
      by_cases notify : reg = 0x050
      · subst notify
        exact kept.process rings (buffers.2 rfl) (sound.2 rfl)
      · obtain ⟨queues, backend⟩ := setRegister_steady s.port.dev val buffers.1
        have port : finalState ((Event.write reg val).perform window handle fuel s.port) =
            { s.port with dev := s.port.dev.setRegister reg val } := by
          rw [Event.perform, get_bind, VirtioDev.write, if_neg notify]
          rfl
        rw [Watched.step, port, Event.ledger, if_neg notify]
        exact kept.aside queues (by rw [backend]) fun _ _ => rfl
    | poll qi => exact kept.process rings buffers sound
    | reply bytes =>
      have booked := reply_booked (kept.setup.rings rings) kept.held bytes
      have port : finalState ((Event.reply bytes).perform window handle fuel s.port) =
          finalState (fsExternalReply window bytes s.port) := by
        change finalState ((fsExternalReply window bytes >>= fun _ => pure true) s.port) = _
        cases run : fsExternalReply window bytes s.port with
        | ok accepted p => rw [bind_ok _ run]; rfl
        | error e p => rw [bind_error _ run]
      rw [Watched.step, port]
      exact kept.enter booked
    | consoleInput bytes =>
      have fed : Kept window start
          { port := { s.port with dev := s.port.dev.consoleInput bytes }, ledger := s.ledger } :=
        kept.aside (s.port.dev.consoleInput_kind bytes).2 (consoleInput_waiting _ bytes) fun _ _ =>
          rfl
      exact fed.process rings buffers sound
    | netInput frame =>
      obtain ⟨queues, waiting⟩ := netInput_steady s.port.dev frame
      exact kept.aside queues waiting fun _ _ => rfl

/-- While the driver keeps to its side and steps are sound, on each ready queue the heads taken are
those published and those that wait for a reply, and the indices have moved by their numbers. -/
theorem chains_accounted (handle : σ → List Byte → Option (List Byte) × σ) (fuel : Nat)
    (steps : List Step) (rings : Rings window start.dev) (held : Held window start.dev)
    (driven : Events.Admitted (Watched.step window handle fuel)
      (fun s => Obeys window handle (BuffersApart window) fuel s.port) { port := start } steps)
    (sound : Events.Admitted (Watched.step window handle fuel)
      (fun s => Obeys window handle (Sound window) fuel s.port) { port := start } steps)
    {s : Watched σ}
    (reached : s = Events.run (Watched.step window handle fuel) { port := start } steps)
    {qi : Fin 2} (ready : (start.dev.queues qi).ready ≠ 0) :
    Balanced window qi (s.ledger.taken qi) (s.ledger.published qi) start s.port := by
  have kept : Kept window start s := by
    rw [reached]
    exact (driven.and sound).keeps (fun s step both kept => kept.step rings both.1 both.2)
      (.begin held)
  exact kept.balanced qi ready

end Runs

/-! ## An external server -/

namespace Pipelined

open OneBuffer (pages noServer)

/-- Four descriptors at `0x000`, the avail ring at `0x100`, the used ring at `0x200`. -/
def queue : Queue :=
  { ready := 1, num := 4, desc := 0x80000000, avail := 0x80000100, used := 0x80000200 }

def start : Port Unit :=
  { dev :=
    { backend := .fsExternal [] fun _ => none,
      queues := fun i => if i = firstQueue then queue else {} }
    ram := fun _ => 0 }

/-- Two requests, with tags 3 and 9, published with heads 0 and 2; each has a reply buffer. -/
def requests : Ram :=
  Ram.overwrite (Ram.overwrite (Ram.overwrite (Ram.overwrite (fun _ => 0)
    0x000 [0x00, 0x03, 0, 0x80, 0, 0, 0, 0, 7, 0, 0, 0, 1, 0, 1, 0,
           0x00, 0x04, 0, 0x80, 0, 0, 0, 0, 16, 0, 0, 0, 2, 0, 0, 0,
           0x10, 0x03, 0, 0x80, 0, 0, 0, 0, 7, 0, 0, 0, 1, 0, 3, 0,
           0x00, 0x05, 0, 0x80, 0, 0, 0, 0, 16, 0, 0, 0, 2, 0, 0, 0]) 0x100
             [0, 0, 2, 0, 0, 0, 2, 0])
    0x300 [7, 0, 0, 0, 100, 3, 0])
    0x310 [7, 0, 0, 0, 116, 9, 0]

/-- The replies come in the other order. -/
def steps : List Step :=
  [.guest requests, .event (.write 0x050 0), .event (.reply [7, 0, 0, 0, 117, 9, 0]),
    .event (.poll 0),
    .event (.reply [7, 0, 0, 0, 101, 3, 0])]

def final : Watched Unit := Events.run (Watched.step pages noServer 4) { port := start } steps

theorem start_held (dev : VirtioDev Unit) (backend : dev.backend = .fsExternal [] fun _ => none) :
    Held pages dev := by
  intro waiting member
  rw [backend, Backend.waiting, rows_empty] at member
  cases member

theorem both_replied : Balanced pages firstQueue [0, 2] [2, 0] start final.port := by
  have taken : final.ledger.taken firstQueue = [0, 2] := by decide +kernel
  have published : final.ledger.published firstQueue = [2, 0] := by decide +kernel
  rw [← taken, ← published]
  exact chains_accounted noServer 4 steps ⟨by decide +kernel, by decide +kernel⟩ (start_held _ rfl)
    (by decide +kernel) (by decide +kernel) rfl (by decide)

/-! ## Where the books go wrong -/

/-- Both queues are ready; the second has its used ring at `0x600` and a request with tag 3
and head 0 on its avail ring. -/
def secondQueue : Port Unit :=
  { dev := { backend := .fsExternal [] fun _ => none
             queues := fun i => if i = firstQueue then { queue with avail := 0x80000700 }
               else { queue with used := 0x80000600 } }
    ram := requests.overwrite 0x102 [1, 0] }

def secondSteps : List Step := [.event (.write 0x050 1), .event (.reply [7, 0, 0, 0, 101, 3, 0])]

def secondFinal :
    Watched Unit := Events.run (Watched.step pages noServer 4) { port := secondQueue } secondSteps

/-- A block request of two device-readable descriptors, the last of them at the index of the
used ring, which is 5. -/
def statusOnRing : Port Unit :=
  { dev := { backend := .block [], queues := fun i => if i = firstQueue then queue else {} }
    ram := Ram.overwrite (Ram.overwrite (Ram.overwrite (fun _ => 0)
      0x000 [0x00, 0x03, 0, 0x80, 0, 0, 0, 0, 16, 0, 0, 0, 1, 0, 1, 0,
             0x02, 0x02, 0, 0x80, 0, 0, 0, 0, 1, 0, 0, 0, 0, 0, 0, 0])
      0x100 [0, 0, 1, 0, 0, 0])
      0x202 [5] }

def statusSteps : List Step := [.event (.poll 0)]

def statusFinal :
    Watched Unit := Events.run (Watched.step pages noServer 4) { port := statusOnRing } statusSteps

theorem secondFinal_waiting : secondFinal.port.dev.backend.waiting = [] := by
  have ended : ∃ requests row, secondFinal.port.dev.backend =
      .fsExternal requests fun t => if t = 3 then none else if t = 3 then some row else none :=
        ⟨_, _, rfl⟩
  obtain ⟨requests, row, backend⟩ := ended
  have free : (fun t : BitVec 16 => if t = 3 then none else if t = 3 then some row else none) =
      fun _ => none := by
    funext t
    split_ifs <;> rfl
  rw [backend, Backend.waiting, free, rows_empty]

/-- A request of the second queue is answered on the first; the status byte of a block request moves
the used index back from 5 to 0. -/
theorem books_wrong : (Rings pages secondQueue.dev ∧ Held pages secondQueue.dev ∧
      Events.Admitted (Watched.step pages noServer 4)
        (fun s => Obeys pages noServer (BuffersApart pages) 4 s.port) { port := secondQueue }
          secondSteps ∧
      secondFinal.ledger.taken firstQueue = [] ∧ secondFinal.ledger.published firstQueue = [0] ∧
      secondFinal.ledger.taken 1 = [0] ∧ secondFinal.ledger.published 1 = [] ∧
      secondFinal.port.dev.backend.waiting = []) ∧
      (Rings pages statusOnRing.dev ∧ Held pages statusOnRing.dev ∧
      Events.Admitted (Watched.step pages noServer 4)
        (fun s => Obeys pages noServer (BuffersApart pages) 4 s.port) { port := statusOnRing }
          statusSteps ∧
      statusFinal.ledger.taken firstQueue = [0] ∧ statusFinal.ledger.published firstQueue = [0] ∧
      usedIndex pages queue statusOnRing.ram = 5 ∧
      usedIndex pages queue statusFinal.port.ram = 1) := by
  refine ⟨⟨⟨by decide +kernel, by decide +kernel⟩,
    start_held _ rfl, by decide +kernel, by decide +kernel,
    by decide +kernel, by decide +kernel, by decide +kernel, secondFinal_waiting⟩,
      ⟨by decide +kernel, by decide +kernel⟩, nofun,
    by decide +kernel, by decide +kernel, by decide +kernel, by decide +kernel, by decide +kernel⟩

end Pipelined

end Rv64Js.Virtio
