import Rv64Js.Board.VirtMachine
import Rv64Js.Core.Clock

/-! # The guest's clocks never run backwards

TIME is `insn_count / time_scale + time_offset`; a sync recomputes offset and CLINT clock. While no
counter overflows, neither decreases: in instruction time both stay behind it, and once the host
reports time they only grow. -/

set_option autoImplicit false

namespace Rv64Js.Board

open Loop BitVec
open Rv64Js.Core
open Fallible (finalState)

/-! ## No bus access writes `mtime` -/

namespace VirtDevices

variable {δ : Type} [Peripherals δ]

theorem mmioRead_mtime (width : Width) (addr : Word) (devices : VirtDevices δ) :
    (mmioRead width addr devices).2.mtime = devices.mtime := by
  unfold mmioRead
  split <;> rfl

variable (devices : VirtDevices δ)

omit [Peripherals δ] in
theorem testWrite_mtime (val : Word) : (devices.testWrite val).mtime = devices.mtime := by
  unfold testWrite
  simp only
  split <;> rfl

omit [Peripherals δ] in
theorem clintWrite_mtime (off val : Word) : (devices.clintWrite off val).mtime = devices.mtime := by
  unfold clintWrite
  split
  · rfl
  · split <;> rfl

theorem mmioWrite_mtime (width : Width) (addr : Word) (val : BitVec width.bits)
    (devices : VirtDevices δ) (ram : Ram) :
    (mmioWrite width addr val devices ram).2.1.mtime = devices.mtime := by
  unfold mmioWrite
  split
  · exact testWrite_mtime devices _
  · exact clintWrite_mtime devices _ _
  · rfl

end VirtDevices

namespace SystemBus

variable {layout : Layout} {δ : Type} [Peripherals δ]

theorem read_mtime (width : Width) (addr : Word) (bus : SystemBus layout (VirtDevices δ)) :
    (finalState (SystemBus.read width addr bus)).devices.mtime = bus.devices.mtime := by
  have kept := VirtDevices.mmioRead_mtime width addr bus.devices
  unfold SystemBus.read
  split
  · rfl
  · split <;> rename_i answered <;> exact (congrArg (·.2.mtime) answered).symm.trans kept

theorem write_mtime (width : Width) (addr : Word) (val : BitVec width.bits)
    (bus : SystemBus layout (VirtDevices δ)) :
    (finalState (SystemBus.write width addr val bus)).devices.mtime = bus.devices.mtime := by
  have checked : (bus.jitCheckStore addr).devices = bus.devices := by
    unfold jitCheckStore
    split
    · rfl
    · split <;> rfl
  have kept := VirtDevices.mmioWrite_mtime width addr val (bus.jitCheckStore addr).devices
    (bus.jitCheckStore addr).ram
  rw [checked] at kept
  unfold SystemBus.write
  simp only
  split
  · exact congrArg VirtDevices.mtime checked
  · split <;> rename_i answered <;> rw [checked] at answered <;>
      exact (congrArg (·.2.1.mtime) answered).symm.trans kept

theorem op_mtime (bus : SystemBus layout (VirtDevices δ)) (op : Bus.Op) :
    (op.apply bus).devices.mtime = bus.devices.mtime := by
  cases op with
  | read width addr => exact read_mtime width addr bus
  | write width addr val => exact write_mtime width addr val bus
  | irqLines => rfl
  | poke width address val =>
    simp only [Bus.Op.apply, Bus.poke]
    split <;> rfl

theorem evolves_mtime {bus bus' : SystemBus layout (VirtDevices δ)}
    (evolves : Bus.Evolves bus bus') : bus'.devices.mtime = bus.devices.mtime := by
  induction evolves with
  | refl => rfl
  | tail _ last ih =>
    obtain ⟨op, rfl⟩ := last
    rw [op_mtime, ih]

end SystemBus

namespace VirtMachine

variable {layout : Layout} {δ : Type} [Peripherals δ]

/-! ## Events -/

inductive Event (δ : Type) where
  /-- one round of `run`: an interrupt poll and an instruction, with its trap -/
  | instruction
  | sync
  /-- the hart halts in WFI -/
  | idle
  | elapsed (ns : Word)
  | sbiCall
  /-- devices and host input -/
  | devices (rest : δ) (ram : Ram)

variable (units : Units (SystemBus layout (VirtDevices δ)))

def step (m : VirtMachine layout δ) : Event δ → VirtMachine layout δ
  | .instruction => m.withSystem (m.system.afterRound units m.cpu.hart.sys.isSome)
  | .sync => m.syncDevices
  | .idle => m.fastForward
  | .elapsed ns => m.advanceRealtimeNs ns
  | .sbiCall => m.serviceSbi
  | .devices rest ram => m.feed rest ram

def readTime (m : VirtMachine layout δ) : Option Word :=
  m.cpu.hart.csrRead m.cpu.insnCount 0xc01#12

def TimeFits (m : VirtMachine layout δ) : Prop :=
  ∀ base ∈ m.cpu.hart.timeBase?,
    (m.cpu.insnCount / base.timeScale).toNat + base.timeOffset.toNat < 2 ^ 64

/-- No counter overflows in the event: retired instructions, instruction time, idle ticks,
and TIME after it. -/
def Fits (m : VirtMachine layout δ) (e : Event δ) : Prop :=
  (match e with
    | .instruction => m.cpu.insnCount.toNat + 1 < 2 ^ 64
    | .sync => m.realtimeTicks = none → m.retiredTicks.toNat + m.idleTicks.toNat < 2 ^ 64
    | .idle => m.awaitsTimer → m.idleTicks.toNat + (m.mtimecmp - m.mtime).toNat < 2 ^ 64
    | .elapsed _ | .sbiCall | .devices _ _ => True) ∧
  (step units m e).TimeFits

/-! ## What relates the clocks -/

/-- The offset and the CLINT clock stay behind the instruction time as long as that is
what time is counted in. -/
structure Clocked (m : VirtMachine layout δ) (base : TimeBase) : Prop where
  system : m.cpu.hart.timeBase? = some base
  scale : base.timeScale = m.insnsPerTick ∨ base.timeScale = 0#64 ∧ base.mtime = 0#64
  offset : m.realtimeTicks = none → base.timeOffset ≤ m.idleTicks
  clint : m.realtimeTicks = none → m.mtime.toNat ≤ m.retiredTicks.toNat + m.idleTicks.toNat

structure Later (m m' : VirtMachine layout δ) (base base' : TimeBase) : Prop where
  time : base.read m.cpu.insnCount ≤ base'.read m'.cpu.insnCount
  clint : m.mtime ≤ m'.mtime

variable {m m' : VirtMachine layout δ}

omit [Peripherals δ] in
theorem retiredTicks_mono (rate : m'.insnsPerTick = m.insnsPerTick)
    (count : m.cpu.insnCount ≤ m'.cpu.insnCount) :
    m.retiredTicks.toNat ≤ m'.retiredTicks.toNat := by
  unfold retiredTicks
  rw [rate, toNat_udiv, toNat_udiv]
  exact Nat.div_le_div_right count

variable {base : TimeBase}

omit [Peripherals δ] in
theorem Clocked.carry (clocked : m.Clocked base)
    (system : m'.cpu.hart.timeBase? = m.cpu.hart.timeBase?)
    (rate : m'.insnsPerTick = m.insnsPerTick) (count : m.cpu.insnCount ≤ m'.cpu.insnCount)
    (idle : m'.realtimeTicks = none → m.realtimeTicks = none ∧ m.idleTicks ≤ m'.idleTicks)
    (clint : m'.mtime = m.mtime) (fits : m'.TimeFits) : m'.Clocked base ∧ Later m m' base base := by
  have known := system.trans clocked.system
  refine ⟨⟨known, ?_, ?_, ?_⟩, ⟨TimeBase.read_mono count (fits base known), ?_⟩⟩
  · rw [rate]
    exact clocked.scale
  · intro counted
    exact BitVec.le_trans (clocked.offset (idle counted).1) (idle counted).2
  · intro counted
    have behind := clocked.clint (idle counted).1
    have retired := retiredTicks_mono rate count
    have idled : m.idleTicks.toNat ≤ m'.idleTicks.toNat := (idle counted).2
    rw [clint]
    omega
  · rw [clint]
    exact BitVec.le_refl _

/-! ## A sync -/

omit [Peripherals δ] in
theorem syncSys_timeBase (m : VirtMachine layout δ) (mtime : Word) (sys : SysCsrs) :
    (m.syncSys mtime sys).timeBase =
      { mtime := mtime
        timeScale := m.insnsPerTick
        timeOffset :=
          if m.realtimeTicks.isSome then
            wordMax sys.timeBase.timeOffset (saturatingSub mtime m.retiredTicks)
          else saturatingSub mtime m.retiredTicks } := by
  unfold syncSys
  by_cases direct : m.bus.devices.directSbi
  · simp only [if_pos direct]
    rfl
  · simp only [if_neg direct]
    rfl

theorem le_wordMax_left (a b : Word) : a ≤ wordMax a b := by
  unfold wordMax
  split
  · assumption
  · exact BitVec.le_refl _

theorem counted_offset {retired idle : Word} (fits : retired.toNat + idle.toNat < 2 ^ 64) :
    saturatingSub (retired + idle) retired = idle := by
  have sum : (retired + idle).toNat = retired.toNat + idle.toNat := by
    rw [toNat_add, Nat.mod_eq_of_lt fits]
  have ahead : retired ≤ retired + idle := by
    rw [le_def, sum]
    omega
  unfold saturatingSub
  rw [if_pos ahead]
  rw [add_comm, add_sub_cancel]

theorem read_le_rescaled {base' : TimeBase} {rate n : Word} (nonzero : rate ≠ 0#64)
    (scale : base.timeScale = rate ∨ base.timeScale = 0#64 ∧ base.mtime = 0#64)
    (scale' : base'.timeScale = rate) (offset : base.timeOffset ≤ base'.timeOffset)
    (fits : (n / base'.timeScale).toNat + base'.timeOffset.toNat < 2 ^ 64) :
    base.read n ≤ base'.read n := by
  rcases scale with same | ⟨unset, zero⟩
  · have behind : base.timeOffset.toNat ≤ base'.timeOffset.toNat := offset
    unfold TimeBase.read
    rw [scale'] at fits
    rw [same, scale', if_neg nonzero, if_neg nonzero, le_def, toNat_add,
      toNat_add, Nat.mod_eq_of_lt fits, Nat.mod_eq_of_lt (by omega)]
    omega
  · unfold TimeBase.read
    rw [if_pos unset, zero]
    exact Nat.zero_le _

omit [Peripherals δ] in
theorem Clocked.sync (clocked : m.Clocked base) (nonzero : m.insnsPerTick ≠ 0#64)
    (counts : m.realtimeTicks = none → m.retiredTicks.toNat + m.idleTicks.toNat < 2 ^ 64)
    (fits : m.syncDevices.TimeFits) :
    ∃ base', m.syncDevices.Clocked base' ∧ Later m m.syncDevices base base' := by
  obtain ⟨sys, some_sys, rfl⟩ := Option.map_eq_some_iff.mp clocked.system
  have system : m.syncDevices.cpu.hart.timeBase? =
      some (m.syncSys m.nextMtime sys).timeBase := by
    change Option.map SysCsrs.timeBase (.map (m.syncSys m.nextMtime) m.cpu.hart.sys) = _
    rw [some_sys]
    rfl
  have readable := fits _ system
  rw [syncSys_timeBase] at system readable
  cases clock : m.realtimeTicks with
  | none =>
    have sum := counts clock
    have mtime : m.nextMtime = m.retiredTicks + m.idleTicks := by rw [nextMtime, clock]
    have whole : m.nextMtime.toNat = m.retiredTicks.toNat + m.idleTicks.toNat := by
      rw [mtime, toNat_add, Nat.mod_eq_of_lt sum]
    rw [clock, if_neg (by simp), mtime, counted_offset sum] at system readable
    refine ⟨_, ⟨system, Or.inl rfl, fun _ => BitVec.le_refl _, fun _ => whole.le⟩, ?_, ?_⟩
    · exact read_le_rescaled nonzero clocked.scale rfl (clocked.offset clock) readable
    · exact (clocked.clint clock).trans whole.ge
  | some wall =>
    have mtime : m.nextMtime = wordMax m.mtime wall := by rw [nextMtime, clock]
    have real : m.syncDevices.realtimeTicks ≠ none := by
      change m.realtimeTicks ≠ none
      simp [clock]
    rw [clock, if_pos Option.isSome_some] at system readable
    refine ⟨_, ⟨system, .inl rfl, fun counted => absurd counted real,
      fun counted => absurd counted real⟩, ?_, ?_⟩
    · exact read_le_rescaled nonzero clocked.scale rfl (le_wordMax_left _ _) readable
    · change m.mtime ≤ m.nextMtime
      rw [mtime]
      exact le_wordMax_left _ _

/-! ## The other events -/

theorem sbiEffect_timeBase (m : VirtMachine layout δ) (ext function : Word) (effect : Sbi.Effect) :
    (m.sbiEffect ext function effect).cpu.hart.timeBase? = m.cpu.hart.timeBase? := by
  cases effect with
  | setTimer deadline => exact Hart.Stands.timeBase? (.modifySys m.cpu.hart fun _ => rfl)
  | none => rfl
  | putChar byte => rfl
  | powerOff => rfl
  | unsupported => rfl

theorem serviceSbi_clocks (m : VirtMachine layout δ) :
    m.serviceSbi.cpu.hart.timeBase? = m.cpu.hart.timeBase? ∧
      m.serviceSbi.insnsPerTick = m.insnsPerTick ∧
        m.serviceSbi.cpu.insnCount = m.cpu.insnCount ∧
          m.serviceSbi.realtimeTicks = m.realtimeTicks ∧
            m.serviceSbi.idleTicks = m.idleTicks ∧ m.serviceSbi.mtime = m.mtime := by
  refine ⟨sbiEffect_timeBase m _ _ _, ?_⟩
  unfold serviceSbi
  simp only
  generalize (Sbi.reply _ _ _ _).effect = effect
  cases effect <;> exact ⟨rfl, rfl, rfl, rfl, rfl⟩

variable {units}

/-- Every event whose counters fit keeps the relation of the clocks, and moves them forward. -/
theorem step_clocked {e : Event δ} (clocked : m.Clocked base) (nonzero : m.insnsPerTick ≠ 0#64)
    (fits : m.Fits units e) :
    ∃ base', (m.step units e).Clocked base' ∧ Later m (m.step units e) base base' := by
  obtain ⟨room, readable⟩ := fits
  have still : ∀ clock : Option Word, clock = none → clock = none ∧ m.idleTicks ≤ m.idleTicks :=
    fun _ counted => ⟨counted, BitVec.le_refl _⟩
  cases e with
  | instruction =>
    have ticks := m.system.afterRound_ticks units m.cpu.hart.sys.isSome
    have count : m.cpu.insnCount ≤ (m.step units .instruction).cpu.insnCount := by
      rcases ticks.count with same | next
      · exact BitVec.le_of_eq same.symm
      · change m.cpu.insnCount ≤ (m.system.afterRound units m.cpu.hart.sys.isSome).cpu.insnCount
        rw [next]
        change m.cpu.insnCount.toNat ≤ (m.cpu.insnCount + 1#64).toNat
        rw [toNat_add, toNat_ofNat]
        omega
    exact ⟨base, clocked.carry ticks.timeBase rfl count (still _)
      (SystemBus.evolves_mtime ticks.bus) readable⟩
  | sync => exact clocked.sync nonzero room readable
  | idle =>
    refine ⟨base, ?_⟩
    by_cases awaits : m.awaitsTimer
    · have sum := room awaits
      have forward : m.fastForward =
          { m with idleTicks := m.idleTicks + (m.mtimecmp - m.mtime) } := by
        rw [fastForward, if_pos awaits]
      have grown : m.idleTicks ≤ m.idleTicks + (m.mtimecmp - m.mtime) := by
        rw [le_def, toNat_add, Nat.mod_eq_of_lt sum]
        omega
      change m.fastForward.TimeFits at readable
      change m.fastForward.Clocked base ∧ Later m m.fastForward base base
      rw [forward] at readable ⊢
      exact clocked.carry rfl rfl (BitVec.le_refl _) (fun counted => ⟨counted, grown⟩) rfl readable
    · have same : m.fastForward = m := by rw [fastForward, if_neg awaits]
      change m.fastForward.TimeFits at readable
      change m.fastForward.Clocked base ∧ Later m m.fastForward base base
      rw [same] at readable ⊢
      exact clocked.carry rfl rfl (BitVec.le_refl _) (still _) rfl readable
  | elapsed ns =>
    refine ⟨base, clocked.carry rfl rfl (BitVec.le_refl _) (fun counted => ?_) rfl readable⟩
    cases counted
  | sbiCall =>
    obtain ⟨system, rate, count, real, idle, mtime⟩ := m.serviceSbi_clocks
    refine ⟨base, clocked.carry system rate (BitVec.le_of_eq count.symm) ?_ mtime readable⟩
    intro counted
    exact ⟨real.symm.trans counted, BitVec.le_of_eq idle.symm⟩
  | devices rest ram =>
    exact ⟨base, clocked.carry rfl rfl (BitVec.le_refl _) (still _) rfl readable⟩

theorem step_insnsPerTick (m : VirtMachine layout δ) (e : Event δ) :
    (m.step units e).insnsPerTick = m.insnsPerTick := by
  cases e with
  | idle =>
    change m.fastForward.insnsPerTick = _
    unfold fastForward
    split <;> rfl
  | sbiCall => exact m.serviceSbi_clocks.2.1
  | instruction => rfl
  | sync => rfl
  | elapsed ns => rfl
  | devices rest ram => rfl

/-! ## Runs -/

def Reached (time clint : Word) (m : VirtMachine layout δ) : Prop :=
  m.insnsPerTick ≠ 0#64 ∧
    ∃ base, m.Clocked base ∧ time ≤ base.read m.cpu.insnCount ∧ clint ≤ m.mtime

theorem Reached.step {time clint : Word} (m : VirtMachine layout δ) (e : Event δ)
    (fits : m.Fits units e)
    (reached : Reached time clint m) : Reached time clint (m.step units e) := by
  obtain ⟨nonzero, base, clocked, time_le, clint_le⟩ := reached
  obtain ⟨base', clocked', later⟩ := step_clocked clocked nonzero fits
  refine ⟨by rw [step_insnsPerTick]; exact nonzero, base', clocked', ?_, ?_⟩
  · exact BitVec.le_trans time_le later.time
  · exact BitVec.le_trans clint_le later.clint

variable (layout) in
omit [Peripherals δ] in
theorem new_timeBase (ram : Ram) (rest : δ) (directSbi : Bool) (dtbAddr dynAddr : Word) :
    (new ram rest directSbi dtbAddr dynAddr : VirtMachine layout δ).cpu.hart.timeBase? =
      some { mtime := 0#64, timeScale := 0#64, timeOffset := 0#64 } := by
  cases directSbi <;> rfl

variable (units)

/-- While no counter overflows, a later read of TIME never returns less than an earlier one, and the
CLINT clock never goes back. -/
theorem clocks_never_decrease (ram : Ram) (rest : δ) (directSbi : Bool)
    (dtbAddr dynAddr insnsPerTick : Word)
    (nonzero : insnsPerTick ≠ 0#64) (before between : List (Event δ))
    (fits : Events.Admitted (step units) (Fits units)
      ((new ram rest directSbi dtbAddr dynAddr : VirtMachine layout δ).withRate insnsPerTick)
      (before ++ between)) :
    let earlier := Events.run (step units)
      ((new ram rest directSbi dtbAddr dynAddr : VirtMachine layout δ).withRate insnsPerTick) before
    let later := Events.run (step units) earlier between
    (∀ t ∈ earlier.readTime, ∀ t' ∈ later.readTime, t ≤ t') ∧ earlier.mtime ≤ later.mtime := by
  intro earlier later
  rw [Events.admitted_append] at fits
  -- the fresh machine has reached time zero
  have start : Reached 0#64 0#64
      ((new ram rest directSbi dtbAddr dynAddr : VirtMachine layout δ).withRate insnsPerTick) :=
    ⟨nonzero, _, ⟨new_timeBase layout ram rest directSbi dtbAddr dynAddr, Or.inr ⟨rfl, rfl⟩,
      fun _ => BitVec.le_refl _, fun _ => Nat.zero_le _⟩, Nat.zero_le _, Nat.zero_le _⟩
  obtain ⟨rate, base, clocked, -, -⟩ := fits.1.keeps Reached.step start
  -- from `earlier` on, its own readings are the ones already reached
  have here : Reached (base.read earlier.cpu.insnCount) earlier.mtime earlier :=
    ⟨rate, base, clocked, BitVec.le_refl _, BitVec.le_refl _⟩
  obtain ⟨-, base', clocked', time, clint⟩ := fits.2.keeps Reached.step here
  refine ⟨?_, clint⟩
  intro t read t' read'
  rw [Hart.csrRead_time clocked.system read, Hart.csrRead_time clocked'.system read']
  exact time

def nops : Ram := fun a => if a % 2 = 0 then 1 else 0

/-- A board with a tick for every instruction runs two, and is then switched to real time by a
report of one second. -/
theorem clocks_after_switch :
    let start := (new nops {} false 0#64 0#64 :
      VirtMachine TwoPages.twoPages NoDevices).withRate 1#64
    let counted := Events.run (step Units.scalar) start [.sync, .instruction, .instruction, .sync]
    let real := Events.run (step Units.scalar) counted [.elapsed 1000000000#64, .sync]
    counted.readTime = some 2#64 ∧ real.readTime = some 10000000#64 ∧ real.mtime = 10000000#64 ∧
      ∀ t ∈ counted.readTime, ∀ t' ∈ real.readTime, t ≤ t' := by
  refine ⟨by decide +kernel, by decide +kernel, by decide +kernel, ?_⟩
  exact (clocks_never_decrease Units.scalar nops ({} : NoDevices) false 0#64 0#64 1#64 (by decide)
    [.sync, .instruction, .instruction, .sync] [.elapsed 1000000000#64, .sync]
      ⟨⟨fun _ => by decide +kernel, by rintro base ⟨⟩; decide +kernel⟩,
        ⟨by decide +kernel, by rintro base ⟨⟩; decide +kernel⟩,
        ⟨by decide +kernel, by rintro base ⟨⟩; decide +kernel⟩,
        ⟨fun _ => by decide +kernel, by rintro base ⟨⟩; decide +kernel⟩,
        ⟨trivial, by rintro base ⟨⟩; decide +kernel⟩,
        ⟨fun _ => by decide +kernel, by rintro base ⟨⟩; decide +kernel⟩, trivial⟩).1

/-! ## Slices are runs of events -/

theorem run_events (m : VirtMachine layout δ) (budget : Nat) :
    ∃ events, m.withSystem (m.system.run units budget).2 = Events.run (step units) m events := by
  let P : System (SystemBus layout (VirtDevices δ)) → Prop := fun s =>
    s.cpu.hart.sys.isSome = m.cpu.hart.sys.isSome ∧
      ∃ events, m.withSystem s = Events.run (step units) m events
  refine (System.run_rule (P := P) budget ⟨rfl, [], rfl⟩ ?_).2
  rintro s ⟨system, events, run⟩
  have after : P (s.afterRound units m.cpu.hart.sys.isSome) := by
    have kept := congrArg Option.isSome (s.afterRound_ticks units m.cpu.hart.sys.isSome).timeBase
    refine ⟨?_, events ++ [.instruction], ?_⟩
    · simp only [Hart.timeBase?, Option.isSome_map] at kept
      exact kept.trans system
    · rw [Events.run_snoc, ← run, ← system]
      rfl
  unfold System.afterRound at after
  change Sum.elim _ _ (System.runRound units m.cpu.hart.sys.isSome s)
  cases result : System.runRound units m.cpu.hart.sys.isSome s <;> rw [result] at after <;>
    exact after

def After (m m' : VirtMachine layout δ) : Prop :=
  ∃ events power, m' = { Events.run (step units) m events with powerOff := power }

theorem sliceRound_events (m : VirtMachine layout δ) (slice : Slice layout δ)
    (so_far : ∃ events, slice.machine = Events.run (step units) m events) :
    Sum.elim (fun done => After units m done.machine)
      (fun slice => ∃ events, slice.machine = Events.run (step units) m events)
      (sliceRound units slice) := by
  obtain ⟨events, so_far⟩ := so_far
  have ended : ∀ m' events, m' = Events.run (step units) m events → After units m m' :=
    fun m' events run => ⟨events, m'.powerOff, by rw [← run]⟩
  obtain ⟨rounds, ran⟩ := run_events units slice.machine slice.remaining.toNat
  rw [so_far, ← Events.run_append, ← so_far] at ran
  unfold sliceRound
  simp only
  split
  · exact ended _ events so_far
  · split
    · have served := congrArg (step units · .sbiCall) ran
      rw [← Events.run_snoc (step units)] at served
      split
      · exact ⟨_, true,
          congrArg (fun m : VirtMachine layout δ => { m with powerOff := true }) served⟩
      · exact ⟨_, served⟩
    · exact ended _ _ ran

variable {units}

theorem After.sync (after : After units m m') : After units m m'.syncDevices := by
  obtain ⟨events, power, rfl⟩ := after
  exact ⟨events ++ [.sync], power, by rw [Events.run_snoc]; rfl⟩

theorem After.idle (after : After units m m') : After units m m'.fastForward := by
  obtain ⟨events, power, rfl⟩ := after
  refine ⟨events ++ [.idle], power, ?_⟩
  rw [Events.run_snoc]
  generalize Events.run (step units) m events = m'
  change ({ m' with powerOff := power } : VirtMachine layout δ).fastForward =
    { m'.fastForward with powerOff := power }
  unfold fastForward
  by_cases awaits : m'.awaitsTimer
  · rw [if_pos awaits]
    exact if_pos awaits
  · rw [if_neg awaits]
    exact if_neg awaits

theorem After.power (after : After units m m')
    (power : Bool) : After units m { m' with powerOff := power } := by
  obtain ⟨events, _, rfl⟩ := after
  exact ⟨events, power, rfl⟩

theorem After.halt {slice : Slice layout δ}
    (after : After units m slice.machine) : After units m slice.halt := by
  unfold Slice.halt
  split
  · exact after.idle
  · exact after

variable (units)

theorem sliceLoop_events (start : VirtMachine layout δ)
    (so_far : ∃ events, m = Events.run (step units) start events) (maxInsns : Word) :
    After units start (m.sliceLoop units maxInsns).machine := by
  have whole := iterate_keeps (sliceRound_events units start) (maxInsns.toNat + 1)
    { machine := m, remaining := maxInsns, stop := .budget } so_far
  unfold sliceLoop
  cases result : iterate (sliceRound units) (maxInsns.toNat + 1)
      { machine := m, remaining := maxInsns, stop := .budget } with
  | inl slice =>
    rw [result] at whole
    exact whole
  | inr slice =>
    rw [result] at whole
    obtain ⟨events, run⟩ := whole
    exact ⟨events, slice.machine.powerOff, by rw [← run]; rfl⟩

theorem runSlice_events (poll : δ → Ram → δ × Ram) (m : VirtMachine layout δ) (maxInsns : Word) :
    After units m (m.runSlice units poll maxInsns) := by
  have looped := sliceLoop_events units m
    ⟨[.devices (poll m.bus.devices.rest m.bus.ram).1 (poll m.bus.devices.rest m.bus.ram).2, .sync],
      rfl⟩ maxInsns
  exact looped.halt.sync.power _

end VirtMachine

end Rv64Js.Board
