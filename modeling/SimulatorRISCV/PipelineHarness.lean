import SimulatorRISCV.ByteMemory
import SimulatorRISCV.PipelineArchitecture

/-! # The clock loop of main.cpp

Eight evaluations make a half period. At every eighth step the loop samples the outputs
while the clock is low, breaks on bit_exit, and otherwise toggles the clock. -/
namespace PipelineHarness

open PipelineDecoder PipelineDatapath PipelineSimulator PipelineIssue PipelineForwarding
open ByteMemory

inductive Write where
  | register (rdn : RegNum) (data : Word)
  | store (addr : Word) (width : BitVec 3) (data : Word)
  deriving DecidableEq

def Write.apply : Write → Arch → Arch
  | .register rdn data, a => { a with registers := registerWrite a.registers true rdn data }
  | .store addr width data, a =>
    { a with dmem := memoryDataWrite a.dmem (addr >>> 2) width true data }

def contents (s : State) : Arch := ⟨s.registers, s.dmem⟩

def risingWrites (s : State) : List Write :=
  if s.memFlags.memWrite then
    [.store s.memValues.aluOut s.memFlags.memWidth s.memValues.memWriteData]
  else []

def fallingWrites (s : State) : List Write :=
  if s.wbFlags.regWrite && s.wbFlags.rdn != 0#5 then [.register s.wbFlags.rdn s.resultWB]
  else []

inductive Edge where
  | rising (clock : ℕ)
  | falling (clock : ℕ)
  deriving DecidableEq

inductive TraceMode where
  | off | trace | traceInstr
  deriving DecidableEq

/-- An int of C++. One that runs over, which C++ leaves open, wraps here. -/
abbrev CInt := BitVec 32

inductive Line where
  | trace (opcode pc : Word) (rd rs1 rs2 : RegNum) (imm : Word) (registers : RegBank)
  | traceInstr (proccessorClock num : CInt) (pc : Word) (written : Option (RegNum × Word))
  | success

/-- The variables of main; `log` is a ghost that records the writes of every evaluation. Of
`vtime` main reads only the remainder by 8, which its 64 bits do not change. -/
structure Harness where
  vtime : ℕ
  clock : Bool
  proccessorClock : CInt
  instCounter : CInt
  clk : Bool
  top : State
  out : List Line
  stopped : Bool
  log : List (Edge × Write)

def evaluate (x : XValues) (imem : MemArray) (clkBefore clk : Bool) (s : State) : State :=
  if clk && !clkBefore then posedge x imem false s
  else if !clk && clkBefore then settle x (negedge s)
  else settle x s

def evaluateWrites (clkBefore clk : Bool) (n : ℕ) (s : State) : List (Edge × Write) :=
  if clk && !clkBefore then (risingWrites s).map (.rising n, ·)
  else if !clk && clkBefore then (fallingWrites s).map (.falling n, ·)
  else []

def Harness.evaluated (x : XValues) (imem : MemArray) (h : Harness) : Harness :=
  { h with
    clk := h.clock
    top := evaluate x imem h.clk h.clock h.top
    log := h.log ++ evaluateWrites h.clk h.clock ((h.vtime / 8 + 1) / 2) h.top }

def Harness.sampling (h : Harness) : Bool := !h.clock && h.top.outputs.validOut

def Harness.record (mode : TraceMode) (h : Harness) : List Line :=
  match mode with
  | .off => []
  | .trace =>
    [.trace h.top.outputs.opcodeOut h.top.outputs.pcOut h.top.outputs.rdnOut
      h.top.outputs.rs1nOut h.top.outputs.rs2nOut h.top.outputs.immOut h.top.registers]
  | .traceInstr =>
    [.traceInstr h.proccessorClock h.instCounter h.top.outputs.pcOut
      (if h.top.outputs.regWriteOut && h.top.outputs.rdnOut != 0#5
        then some (h.top.outputs.rdnOut, h.top.registers h.top.outputs.rdnOut) else none)]

def Harness.sampled (mode : TraceMode) (h : Harness) : Harness :=
  { h with
    out := h.out ++ (if h.sampling then h.record mode else [])
    instCounter := h.instCounter +
      BitVec.ofNat 32 (h.sampling && decide (mode = .traceInstr)).toNat }

def Harness.toggled (h : Harness) : Harness :=
  { h with
    clock := !h.clock
    proccessorClock := h.proccessorClock + BitVec.ofNat 32 (!h.clock).toNat }

def Harness.iterate (x : XValues) (imem : MemArray) (mode : TraceMode) (h : Harness) : Harness :=
  if h.stopped then h
  else if (h.vtime + 1) % 8 = 0 then
    if h.top.outputs.bitExit && !h.clk then
      { h.sampled mode with
        vtime := h.vtime + 1
        out := (h.sampled mode).out ++ [.success]
        stopped := true }
    else ({ h.sampled mode with vtime := h.vtime + 1 }.toggled).evaluated x imem
  else { h with vtime := h.vtime + 1 }.evaluated x imem

/-- main after the program is loaded and PCCounter is set; top_module->rst stays 0. -/
def Harness.init (ρ : Run) : Harness where
  vtime := 0
  clock := false
  proccessorClock := 0#32
  instCounter := 0#32
  clk := false
  top := ρ.start.raw
  out := []
  stopped := false
  log := []

def clockLoop (ρ : Run) (mode : TraceMode) : ℕ → Harness
  | 0 => Harness.init ρ
  | t + 1 => (clockLoop ρ mode t).iterate ρ.x ρ.imem mode

theorem contents_settle (x : XValues) (s : State) : contents (settle x s) = contents s := rfl

theorem contents_posedge (x : XValues) (imem : MemArray) (s : State) :
    contents (posedge x imem false s) = replay Write.apply (risingWrites s) (contents s) := by
  change (⟨s.registers, memoryDataWrite _ _ _ _ _⟩ : Arch) = _
  rw [risingWrites]
  cases s.memFlags.memWrite <;> rfl

theorem contents_negedge (s : State) :
    contents (negedge s) = replay Write.apply (fallingWrites s) (contents s) := by
  change (⟨registerWrite _ _ _ _, s.dmem⟩ : Arch) = _
  rw [fallingWrites, registerWrite]
  split_ifs with hw
  · simp only [Bool.and_eq_true] at hw
    have hne : s.wbFlags.rdn ≠ 0#5 := by simpa using hw.2
    simp [replay, Write.apply, registerWrite, hne, contents]
  · rfl

theorem evaluate_contents (x : XValues) (imem : MemArray) (before clk : Bool) (n : ℕ)
    (s : State) : contents (evaluate x imem before clk s) =
      replay Write.apply ((evaluateWrites before clk n s).map Prod.snd) (contents s) := by
  unfold evaluate evaluateWrites
  split_ifs
  · rw [contents_posedge, List.map_map]
    exact congrArg (replay Write.apply · _) (List.map_id _).symm
  · rw [contents_settle, contents_negedge, List.map_map]
    exact congrArg (replay Write.apply · _) (List.map_id _).symm
  · rfl

def Logged (a : Arch) (h : Harness) : Prop :=
  contents h.top = replay Write.apply (h.log.map Prod.snd) a

theorem logged_evaluated {x : XValues} {imem : MemArray} {a : Arch} {h : Harness}
    (hl : Logged a h) : Logged a (h.evaluated x imem) := by
  change contents (evaluate _ _ _ _ _) = replay _ (List.map _ (h.log ++ _)) a
  rw [evaluate_contents x imem h.clk h.clock ((h.vtime / 8 + 1) / 2), hl, List.map_append,
    replay_append]

theorem logged_iterate {x : XValues} {imem : MemArray} {mode : TraceMode} {a : Arch}
    {h : Harness} (hl : Logged a h) : Logged a (h.iterate x imem mode) := by
  unfold Harness.iterate
  split_ifs
  · exact hl
  · exact hl
  · exact logged_evaluated hl
  · exact logged_evaluated hl

/-- In every iteration the registers and the data memory are the initial ones with the
logged writes performed, in order. -/
theorem clockLoop_logged (ρ : Run) (mode : TraceMode) (t : ℕ) :
    Logged ⟨ρ.start.registers, ρ.start.dmem⟩ (clockLoop ρ mode t) := by
  induction t with
  | zero => rfl
  | succ t ih => exact logged_iterate ih

/-- The state of half period `p`. After `t` iterations the loop is in half period `t / 8`,
and the clock is low in the even ones. -/
def phaseState (ρ : Run) (p : ℕ) : State :=
  if p % 2 = 0 then ρ.state (p / 2) else posedge ρ.x ρ.imem false (ρ.state (p / 2))

def edgeLog (ρ : Run) (p : ℕ) : List (Edge × Write) :=
  if p % 2 = 0 then (risingWrites (ρ.state (p / 2))).map (.rising (p / 2 + 1), ·)
  else (fallingWrites (ρ.state (p / 2 + 1))).map (.falling (p / 2 + 1), ·)

def phaseLog (ρ : Run) (p : ℕ) : List (Edge × Write) := (List.range p).flatMap (edgeLog ρ)

theorem phaseLog_succ (ρ : Run) (p : ℕ) :
    phaseLog ρ (p + 1) = phaseLog ρ p ++ edgeLog ρ p := by
  rw [phaseLog, List.range_succ, List.flatMap_append, List.flatMap_singleton]
  rfl

/-- The loop invariant. `live` covers the clocks whose low phase was already tested. -/
structure InPhase (ρ : Run) (t : ℕ) (h : Harness) : Prop where
  vtime : h.vtime = t
  running : h.stopped = false
  clk : h.clk = h.clock
  clock : h.clock = decide (t / 8 % 2 = 1)
  proc : h.proccessorClock = BitVec.ofNat 32 ((t / 8 + 1) / 2)
  top : h.top = phaseState ρ (t / 8)
  log : h.log = phaseLog ρ (t / 8)
  live : Live ρ ((t + 8) / 16)

/-- The loop has broken in the low phase of clock `k`. -/
structure StoppedAt (ρ : Run) (k : ℕ) (h : Harness) : Prop where
  stopped : h.stopped = true
  exit : (ρ.state k).bitExitWB = true
  live : Live ρ k
  top : h.top = ρ.state k
  log : h.log = phaseLog ρ (2 * k)

variable {ρ : Run} {mode : TraceMode} {t : ℕ} {h : Harness}

theorem settle_phase (ρ : Run) (p : ℕ) : settle ρ.x (phaseState ρ p) = phaseState ρ p := by
  unfold phaseState
  split_ifs
  · exact settle_state _ _
  · exact settle_posedge _ _ _

theorem inPhase_hold (hp : InPhase ρ t h) (ht : (t + 1) % 8 ≠ 0) :
    InPhase ρ (t + 1) ({ h with vtime := h.vtime + 1 }.evaluated ρ.x ρ.imem) := by
  have hdiv : (t + 1) / 8 = t / 8 := by omega
  have hlive : (t + 1 + 8) / 16 = (t + 8) / 16 := by omega
  have htop : evaluate ρ.x ρ.imem h.clk h.clock h.top = h.top := by
    rw [hp.clk, evaluate, hp.top]
    cases h.clock <;> exact settle_phase ρ _
  have hlog : evaluateWrites h.clk h.clock (((h.vtime + 1) / 8 + 1) / 2) h.top = [] := by
    rw [hp.clk, evaluateWrites]
    cases h.clock <;> rfl
  refine ⟨congrArg (· + 1) hp.vtime, hp.running, rfl, ?_, ?_, ?_, ?_, ?_⟩
  · rw [hdiv]; exact hp.clock
  · rw [hdiv]; exact hp.proc
  · rw [hdiv]; exact htop.trans hp.top
  · rw [hdiv]
    change h.log ++ evaluateWrites h.clk h.clock (((h.vtime + 1) / 8 + 1) / 2) h.top = _
    rw [hlog, List.append_nil, hp.log]
  · rw [hlive]; exact hp.live

theorem phaseState_even (ρ : Run) (k : ℕ) : phaseState ρ (2 * k) = ρ.state k := by
  rw [phaseState, if_pos (by omega), Nat.mul_div_cancel_left k (by decide)]

theorem phaseState_odd (ρ : Run) (k : ℕ) :
    phaseState ρ (2 * k + 1) = posedge ρ.x ρ.imem false (ρ.state k) := by
  rw [phaseState, if_neg (by omega), show (2 * k + 1) / 2 = k by omega]

theorem edgeLog_even (ρ : Run) (k : ℕ) :
    edgeLog ρ (2 * k) = (risingWrites (ρ.state k)).map (.rising (k + 1), ·) := by
  rw [edgeLog, if_pos (by omega), Nat.mul_div_cancel_left k (by decide)]

theorem edgeLog_odd (ρ : Run) (k : ℕ) :
    edgeLog ρ (2 * k + 1) = (fallingWrites (ρ.state (k + 1))).map (.falling (k + 1), ·) := by
  rw [edgeLog, if_neg (by omega), show (2 * k + 1) / 2 = k by omega]

/-- The toggle that makes rising edge `k + 1`. -/
theorem inPhase_rise (mode : TraceMode) {k : ℕ} (hp : InPhase ρ (16 * k + 7) h)
    (hx : (ρ.state k).bitExitWB = false) : InPhase ρ (16 * k + 8)
      (({ h.sampled mode with vtime := h.vtime + 1 }.toggled).evaluated ρ.x ρ.imem) := by
  obtain ⟨hv, hr, hclk, hclock, hproc, htop, hlog, hlive⟩ := hp
  rw [show (16 * k + 7) / 8 = 2 * k by omega] at hclock hproc htop hlog
  rw [phaseState_even] at htop
  have hlow : h.clock = false := hclock.trans (decide_eq_false (by omega))
  have hdiv : (16 * k + 8) / 8 = 2 * k + 1 := by omega
  refine ⟨congrArg (· + 1) hv, hr, rfl, ?_, ?_, ?_, ?_, ?_⟩
  · change (!h.clock) = _
    rw [hlow, hdiv]
    exact (decide_eq_true (by omega)).symm
  · change h.proccessorClock + BitVec.ofNat 32 (!h.clock).toNat = _
    rw [hlow, hproc, hdiv, ← BitVec.ofNat_add]
    change BitVec.ofNat 32 ((2 * k + 1) / 2 + 1) = _
    rw [show (2 * k + 1) / 2 + 1 = (2 * k + 1 + 1) / 2 by omega]
  · change evaluate _ _ h.clk (!h.clock) h.top = _
    rw [hclk, hlow, htop, hdiv, phaseState_odd]
    rfl
  · change h.log ++ evaluateWrites h.clk (!h.clock) (((h.vtime + 1) / 8 + 1) / 2) h.top = _
    rw [hclk, hlow, htop, hdiv, phaseLog_succ, edgeLog_even, hlog, hv,
      show ((16 * k + 7 + 1) / 8 + 1) / 2 = k + 1 by omega]
    rfl
  · rw [show (16 * k + 8 + 8) / 16 = k + 1 by omega]
    exact (hlive.mono (by omega)).succ hx

theorem inPhase_fall (mode : TraceMode) {k : ℕ} (hp : InPhase ρ (16 * k + 15) h) :
    InPhase ρ (16 * k + 16)
      (({ h.sampled mode with vtime := h.vtime + 1 }.toggled).evaluated ρ.x ρ.imem) := by
  obtain ⟨hv, hr, hclk, hclock, hproc, htop, hlog, hlive⟩ := hp
  rw [show (16 * k + 15) / 8 = 2 * k + 1 by omega] at hclock hproc htop hlog
  rw [phaseState_odd] at htop
  have hhigh : h.clock = true := hclock.trans (decide_eq_true (by omega))
  have hdiv : (16 * k + 16) / 8 = 2 * (k + 1) := by omega
  refine ⟨congrArg (· + 1) hv, hr, rfl, ?_, ?_, ?_, ?_, ?_⟩
  · change (!h.clock) = _
    rw [hhigh, hdiv]
    exact (decide_eq_false (by omega)).symm
  · change h.proccessorClock + BitVec.ofNat 32 (!h.clock).toNat = _
    rw [hhigh, hproc, hdiv, ← BitVec.ofNat_add]
    change BitVec.ofNat 32 ((2 * k + 1 + 1) / 2 + 0) = _
    rw [show (2 * k + 1 + 1) / 2 + 0 = (2 * (k + 1) + 1) / 2 by omega]
  · change evaluate _ _ h.clk (!h.clock) h.top = _
    rw [hclk, hhigh, htop, hdiv, phaseState_even]
    exact settle_clockCycle ρ.x ρ.imem (ρ.state k)
  · change h.log ++ evaluateWrites h.clk (!h.clock) (((h.vtime + 1) / 8 + 1) / 2) h.top = _
    rw [hclk, hhigh, htop, hdiv, show 2 * (k + 1) = 2 * k + 1 + 1 by omega, phaseLog_succ,
      edgeLog_odd, hlog, hv, show ((16 * k + 15 + 1) / 8 + 1) / 2 = k + 1 by omega]
    rfl
  · exact hlive.mono (by omega)

theorem inPhase_continue (hp : InPhase ρ t h)
    (hx : ∀ k, t = 16 * k + 7 → (ρ.state k).bitExitWB = false) :
    InPhase ρ (t + 1) (h.iterate ρ.x ρ.imem mode) := by
  rw [Harness.iterate, if_neg (by rw [hp.running]; exact Bool.false_ne_true), hp.vtime]
  by_cases ht : (t + 1) % 8 = 0
  · rw [if_pos ht]
    obtain ⟨k, rfl | rfl⟩ : ∃ k, t = 16 * k + 7 ∨ t = 16 * k + 15 := ⟨t / 16, by omega⟩
    · have htop : h.top = ρ.state k := by
        rw [hp.top, show (16 * k + 7) / 8 = 2 * k by omega, phaseState_even]
      rw [if_neg (by rw [htop]; simp [State.outputs, hx k rfl])]
      have := inPhase_rise mode hp (hx k rfl)
      rwa [hp.vtime] at this
    · have hhigh : h.clk = true := by
        rw [hp.clk, hp.clock]; exact decide_eq_true (by omega)
      rw [if_neg (by rw [hhigh]; simp)]
      have := inPhase_fall mode hp
      rwa [hp.vtime] at this
  · rw [if_neg ht]
    have := inPhase_hold hp ht
    rwa [hp.vtime] at this

theorem inPhase_stop {k : ℕ} (hp : InPhase ρ (16 * k + 7) h)
    (hx : (ρ.state k).bitExitWB = true) : StoppedAt ρ k (h.iterate ρ.x ρ.imem mode) := by
  have hdiv : (16 * k + 7) / 8 = 2 * k := by omega
  have htop : h.top = ρ.state k := by rw [hp.top, hdiv, phaseState_even]
  have hlow : h.clk = false := by
    rw [hp.clk, hp.clock]; exact decide_eq_false (by omega)
  rw [Harness.iterate, if_neg (by rw [hp.running]; exact Bool.false_ne_true), hp.vtime,
    if_pos (by omega), if_pos (by rw [htop, hlow]; simp [State.outputs, hx])]
  exact ⟨rfl, hx, hp.live.mono (by omega), htop, hp.log.trans (by rw [hdiv])⟩

theorem inPhase_step (hp : InPhase ρ t h) :
    InPhase ρ (t + 1) (h.iterate ρ.x ρ.imem mode) ∨
      ∃ k, StoppedAt ρ k (h.iterate ρ.x ρ.imem mode) := by
  by_cases hx : ∃ k, t = 16 * k + 7 ∧ (ρ.state k).bitExitWB = true
  · obtain ⟨k, rfl, hk⟩ := hx
    exact Or.inr ⟨k, inPhase_stop hp hk⟩
  · refine Or.inl (inPhase_continue hp fun k hk => ?_)
    apply Bool.eq_false_iff.mpr
    intro he
    exact hx ⟨k, hk, he⟩

theorem inPhase_first (ρ : Run) (mode : TraceMode) : InPhase ρ 1 (clockLoop ρ mode 1) :=
  ⟨rfl, rfl, rfl, rfl, rfl, rfl, rfl, fun m hm => absurd hm (by omega)⟩

theorem clockLoop_phase (ρ : Run) (mode : TraceMode) (t : ℕ) :
    InPhase ρ (t + 1) (clockLoop ρ mode (t + 1)) ∨
      ∃ k, StoppedAt ρ k (clockLoop ρ mode (t + 1)) := by
  induction t with
  | zero => exact Or.inl (inPhase_first ρ mode)
  | succ t ih =>
    rcases ih with hp | ⟨k, hk⟩
    · exact inPhase_step hp
    · refine Or.inr ⟨k, ?_⟩
      rw [clockLoop, Harness.iterate, if_pos hk.stopped]
      exact hk

/-- The loop breaks only in the low phase of the first clock with bit_exit set. -/
theorem clockLoop_stopped (hs : (clockLoop ρ mode t).stopped = true) :
    ∃ k, StoppedAt ρ k (clockLoop ρ mode t) := by
  cases t with
  | zero => cases hs
  | succ t =>
    rcases clockLoop_phase ρ mode t with hp | hk
    · rw [hp.running] at hs; cases hs
    · exact hk

/-- Up to the sample of its last live clock the loop does not break. -/
theorem clockLoop_live {k : ℕ} (hl : Live ρ k) (ht : t < 16 * k + 7) :
    InPhase ρ (t + 1) (clockLoop ρ mode (t + 1)) := by
  induction t with
  | zero => exact inPhase_first ρ mode
  | succ t ih =>
    apply inPhase_continue (ih (Nat.lt_of_succ_lt ht))
    intro m hm
    exact hl m (by omega)

end PipelineHarness
