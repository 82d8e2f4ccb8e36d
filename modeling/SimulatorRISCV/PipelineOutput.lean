import SimulatorRISCV.PipelineTrace
import SimulatorRISCV.PipelineSequential

/-! # The whole output of main

The loop prints for each retiring word of the sequential machine one record, in program
order, and ends when an exit word has retired, if one does. -/
namespace PipelineOutput

open PipelineDecoder PipelineDatapath PipelineSimulator InOrderIssue PipelineIssue
open PipelineRetirement PipelineForwarding PipelineArchitecture PipelineHarness PipelineTrace
open PipelineSequential

/-- What the trace branches print in the low phase of clock `n` as their record `num`, both
numbers as the ints of main. -/
def recordAt (mode : TraceMode) (n : ℕ) (s : State) (num : ℕ) : List Line :=
  match mode with
  | .off => []
  | .trace => [traceLine s]
  | .traceInstr =>
    [.traceInstr (BitVec.ofNat 32 n) (BitVec.ofNat 32 num) s.outputs.pcOut
      (if s.outputs.regWriteOut && s.outputs.rdnOut != 0#5
        then some (s.outputs.rdnOut, s.registers s.outputs.rdnOut) else none)]

def sampleAt (ρ : Run) (mode : TraceMode) (n : ℕ) : Option (ℕ → List Line) :=
  if (ρ.state n).outputs.validOut then some (recordAt mode n (ρ.state n)) else none

def samples (ρ : Run) (mode : TraceMode) (k : ℕ) : List (ℕ → List Line) :=
  (List.range k).filterMap (sampleAt ρ mode)

def numbered (records : List (ℕ → List Line)) : List Line :=
  records.zipIdx.flatMap fun r => r.1 r.2

theorem numbered_snoc (records : List (ℕ → List Line)) (r : ℕ → List Line) :
    numbered (records ++ [r]) = numbered records ++ r records.length := by
  simp [numbered, List.zipIdx_append]

theorem samples_succ (ρ : Run) (mode : TraceMode) (k : ℕ) :
    samples ρ mode (k + 1) = samples ρ mode k ++ (sampleAt ρ mode k).toList := by
  rw [samples, List.range_succ, List.filterMap_append, samples]
  rfl

/-- Everything before the low phase of clock `k` has been printed and counted. -/
structure Printed (ρ : Run) (mode : TraceMode) (k : ℕ) (h : Harness) : Prop where
  out : h.out = numbered (samples ρ mode k)
  counter : mode = .traceInstr → h.instCounter = BitVec.ofNat 32 (samples ρ mode k).length

variable {ρ : Run} {mode : TraceMode} {h : Harness} {t i k m : ℕ}

theorem low_phase (hp : InPhase ρ (16 * k + 7) h) :
    h.top = ρ.state k ∧ h.clock = false ∧ h.proccessorClock = BitVec.ofNat 32 k := by
  have hdiv : (16 * k + 7) / 8 = 2 * k := by omega
  refine ⟨?_, ?_, ?_⟩
  · rw [hp.top, hdiv, phaseState_even]
  · rw [hp.clock, hdiv]
    exact decide_eq_false (by omega)
  · rw [hp.proc, hdiv, show (2 * k + 1) / 2 = k by omega]

theorem record_eq (hp : InPhase ρ (16 * k + 7) h) (hpr : Printed ρ mode k h) :
    h.record mode = recordAt mode k (ρ.state k) (samples ρ mode k).length := by
  obtain ⟨htop, _, hproc⟩ := low_phase hp
  cases mode with
  | off => rfl
  | trace =>
    rw [Harness.record, htop]
    rfl
  | traceInstr =>
    rw [Harness.record, htop, hproc, hpr.counter rfl]
    rfl

theorem printed_sample (hp : InPhase ρ (16 * k + 7) h) (hpr : Printed ρ mode k h) :
    Printed ρ mode (k + 1) (h.sampled mode) := by
  have hrec := record_eq hp hpr
  obtain ⟨htop, hlow, _⟩ := low_phase hp
  have hsamp : h.sampling = (ρ.state k).outputs.validOut := by
    rw [Harness.sampling, hlow, htop]
    rfl
  cases hv : (ρ.state k).outputs.validOut with
  | true =>
    have hone : sampleAt ρ mode k = some (recordAt mode k (ρ.state k)) := by
      rw [sampleAt, hv]
      rfl
    constructor
    · rw [samples_succ, hone, Option.toList_some, numbered_snoc, ← hrec, ← hpr.out,
        Harness.sampled, hsamp, hv]
      rfl
    · intro hm
      rw [samples_succ, hone, Harness.sampled, hsamp, hv, hpr.counter hm, Option.toList_some,
        List.length_append, List.length_singleton, BitVec.ofNat_add]
      simp [hm]
  | false =>
    have hnone : sampleAt ρ mode k = none := by
      rw [sampleAt, hv]
      rfl
    constructor
    · rw [samples_succ, hnone, Option.toList_none, List.append_nil, ← hpr.out,
        Harness.sampled, hsamp, hv]
      exact List.append_nil _
    · intro hm
      rw [samples_succ, hnone, Harness.sampled, hsamp, hv, hpr.counter hm]
      simp

theorem printed_high (hhigh : h.clock = true) (hpr : Printed ρ mode k h) :
    Printed ρ mode k (h.sampled mode) := by
  have hsamp : h.sampling = false := by
    rw [Harness.sampling, hhigh]
    rfl
  constructor
  · rw [Harness.sampled, hsamp, ← hpr.out]
    exact List.append_nil _
  · intro hm
    rw [← hpr.counter hm, Harness.sampled, hsamp]
    exact BitVec.add_zero _

theorem printed_continue (hp : InPhase ρ t h) (hpr : Printed ρ mode ((t + 8) / 16) h)
    (hx : ∀ k, t = 16 * k + 7 → (ρ.state k).bitExitWB = false) :
    Printed ρ mode ((t + 9) / 16) (h.iterate ρ.x ρ.imem mode) := by
  have hrun : ¬ h.stopped = true := by
    rw [hp.running]
    exact Bool.false_ne_true
  rw [Harness.iterate, if_neg hrun, hp.vtime]
  by_cases ht : (t + 1) % 8 = 0
  · rw [if_pos ht]
    obtain ⟨k, rfl | rfl⟩ : ∃ k, t = 16 * k + 7 ∨ t = 16 * k + 15 := ⟨t / 16, by omega⟩
    · obtain ⟨htop, _, _⟩ := low_phase hp
      have hgo : ¬(h.top.outputs.bitExit && !h.clk) = true := by
        rw [htop]
        simp [State.outputs, hx k rfl]
      have hk : (16 * k + 7 + 8) / 16 = k := by omega
      have hk' : (16 * k + 7 + 9) / 16 = k + 1 := by omega
      rw [hk] at hpr
      have hs := printed_sample hp hpr
      rw [if_neg hgo, hk']
      exact ⟨hs.out, hs.counter⟩
    · have hhigh : h.clock = true := hp.clock.trans (decide_eq_true (by omega))
      have hgo : ¬(h.top.outputs.bitExit && !h.clk) = true := by
        rw [hp.clk, hhigh]
        simp
      have hk : (16 * k + 15 + 9) / 16 = (16 * k + 15 + 8) / 16 := by omega
      have hs := printed_high hhigh hpr
      rw [if_neg hgo, hk]
      exact ⟨hs.out, hs.counter⟩
  · have hk : (t + 9) / 16 = (t + 8) / 16 := by omega
    rw [if_neg ht, hk]
    exact ⟨hpr.out, hpr.counter⟩

theorem printed_stop (hp : InPhase ρ (16 * k + 7) h) (hpr : Printed ρ mode k h)
    (hx : (ρ.state k).bitExitWB = true) : (h.iterate ρ.x ρ.imem mode).out =
      numbered (samples ρ mode (k + 1)) ++ [.success] := by
  obtain ⟨htop, hlow, _⟩ := low_phase hp
  have hrun : ¬ h.stopped = true := by
    rw [hp.running]
    exact Bool.false_ne_true
  have hgo : (h.top.outputs.bitExit && !h.clk) = true := by
    rw [htop, hp.clk, hlow]
    simp [State.outputs, hx]
  rw [Harness.iterate, if_neg hrun, hp.vtime, if_pos (by omega), if_pos hgo,
    ← (printed_sample hp hpr).out]

theorem clockLoop_prints (ρ : Run) (mode : TraceMode) (t : ℕ) :
    (InPhase ρ (t + 1) (clockLoop ρ mode (t + 1)) ∧
      Printed ρ mode ((t + 9) / 16) (clockLoop ρ mode (t + 1))) ∨
    ∃ k, StoppedAt ρ k (clockLoop ρ mode (t + 1)) ∧ 16 * k + 8 ≤ t + 1 ∧
      (clockLoop ρ mode (t + 1)).out = numbered (samples ρ mode (k + 1)) ++ [.success] := by
  induction t with
  | zero => exact Or.inl ⟨inPhase_first ρ mode, ⟨rfl, fun _ => rfl⟩⟩
  | succ t ih =>
    rcases ih with ⟨hp, hpr⟩ | ⟨k, hk, ht, hout⟩
    · by_cases hx : ∃ k, t + 1 = 16 * k + 7 ∧ (ρ.state k).bitExitWB = true
      · obtain ⟨k, hk, hx⟩ := hx
        have hdiv : (t + 9) / 16 = k := by omega
        have hlow : InPhase ρ (16 * k + 7) (clockLoop ρ mode (t + 1)) := by
          rw [← hk]
          exact hp
        rw [hdiv] at hpr
        exact Or.inr ⟨k, inPhase_stop hlow hx, by omega, printed_stop hlow hpr hx⟩
      · have hgo : ∀ k, t + 1 = 16 * k + 7 → (ρ.state k).bitExitWB = false := by
          intro k hk
          apply Bool.eq_false_iff.mpr
          intro he
          exact hx ⟨k, hk, he⟩
        exact Or.inl ⟨inPhase_continue hp hgo, printed_continue hp hpr hgo⟩
    · have hsame : clockLoop ρ mode (t + 1 + 1) = clockLoop ρ mode (t + 1) := by
        rw [clockLoop, Harness.iterate, if_pos hk.stopped]
      rw [hsame]
      exact Or.inr ⟨k, hk, by omega, hout⟩

/-- The word in decode two clocks after the `i`-th word executed. -/
def seqBehind (ρ : Run) (i : ℕ) : Word :=
  if (sequential ρ i).taken ρ.x ρ.imem then seqWord ρ (i + 1)
  else if (sequential ρ i).stalls ρ.x ρ.imem then fetch ρ.imem ((sequential ρ i).pc + 8#32)
  else if (sequential ρ (i + 1)).taken ρ.x ρ.imem then 0#32
  else if (sequential ρ (i + 1)).stalls ρ.x ρ.imem then
    fetch ρ.imem ((sequential ρ i).pc + 8#32)
  else fetch ρ.imem ((sequential ρ i).pc + 12#32)

def seqWritten (ρ : Run) (i : ℕ) : Option (RegNum × Word) :=
  if ((sequential ρ i).control ρ.x ρ.imem).regWrite && rdId (seqWord ρ i) != 0#5 then
    some (rdId (seqWord ρ i),
      ((sequential ρ i).result ρ.x ρ.imem).registers (rdId (seqWord ρ i)))
  else none

/-- The record of a word, with its number. -/
def seqRecord (ρ : Run) (mode : TraceMode) (i num : ℕ) : List Line :=
  match mode with
  | .off => []
  | .trace =>
    [.trace (seqBehind ρ i) (sequential ρ i).pc (rdId (seqWord ρ i)) (rs1Id (seqWord ρ i))
      (rs2Id (seqWord ρ i)) (calcImmediate (seqWord ρ i))
      ((sequential ρ i).result ρ.x ρ.imem).registers]
  | .traceInstr =>
    [.traceInstr (BitVec.ofNat 32 ((sequential ρ i).clock + 2)) (BitVec.ofNat 32 num)
      (sequential ρ i).pc (seqWritten ρ i)]

def seqRecords (ρ : Run) (mode : TraceMode) (m : ℕ) : List (ℕ → List Line) :=
  (List.range m).filterMap fun i =>
    if opcode (seqWord ρ i) = .zero then none else some (seqRecord ρ mode i)

theorem taken_eq (hf : Follows ρ i) :
    pathTaken ρ i = (sequential ρ i).taken ρ.x ρ.imem :=
  (taken_iff_pathTaken hf.live).symm.trans hf.taken

theorem loadUse_iff (hf : Follows ρ i) :
    LoadUseNext ρ i ↔ (sequential ρ i).stalls ρ.x ρ.imem = true := by
  rw [← stall_iff_loadUseNext hf.live, hf.stalls]

theorem wordBehind_eq (hl : Live ρ (issueClock ρ i + 2)) : wordBehind ρ i = seqBehind ρ i := by
  have hf : Follows ρ i := follows_of_live (hl.mono (Nat.le_add_right _ 2))
  have htaken := taken_eq hf
  have hstalls := loadUse_iff hf
  unfold wordBehind seqBehind
  rw [htaken, hf.pc]
  by_cases ht : (sequential ρ i).taken ρ.x ρ.imem = true
  · rw [if_pos ht, if_pos ht, pathWord, hf.next_pc]
    rfl
  · have hpath : pathTaken ρ i = false := htaken.trans (Bool.eq_false_iff.mpr ht)
    rw [if_neg ht, if_neg ht, if_congr hstalls rfl rfl]
    by_cases hs : (sequential ρ i).stalls ρ.x ρ.imem = true
    · rw [if_pos hs, if_pos hs]
    · have hnext := issues_next hf.live hpath (mt hstalls.mp hs)
      have hf' : Follows ρ (i + 1) := by
        apply follows_of_live
        rw [hnext]
        exact hl.mono (Nat.le_succ _)
      rw [if_neg hs, if_neg hs, taken_eq hf', if_congr (loadUse_iff hf') rfl rfl]

theorem sampleAt_word (mode : TraceMode) (hl : Live ρ (issueClock ρ i + 2)) :
    sampleAt ρ mode (issueClock ρ i + 2) =
      if opcode (seqWord ρ i) = .zero then none else some (seqRecord ρ mode i) := by
  have hf : Follows ρ i := follows_of_live (hl.mono (Nat.le_add_right _ 2))
  have hh := holds_at_issue hf.live
  have hv : (ρ.state (issueClock ρ i + 2)).outputs.validOut =
      decide (opcode (seqWord ρ i) ≠ .zero) := by
    rw [← hf.word]
    exact valid_in_wb hl
  by_cases hz : opcode (seqWord ρ i) = .zero
  · rw [if_pos hz, sampleAt, hv, if_neg (by simp [hz])]
  · rw [if_neg hz, sampleAt, hv, if_pos (by simp [hz])]
    refine congrArg some (funext fun num => ?_)
    have hregs : (ρ.state (issueClock ρ i + 2)).registers =
        ((sequential ρ i).result ρ.x ρ.imem).registers := congrArg Arch.registers (hf.arch_shown hl)
    have hpc : (ρ.state (issueClock ρ i + 2)).outputs.pcOut = (sequential ρ i).pc := by
      rw [← hf.pc]
      exact pc_in_wb hl
    obtain ⟨hwrite, hrd⟩ := wb_at hl
    rw [hf.control] at hwrite
    rw [hf.word] at hrd
    cases mode with
    | off => rfl
    | trace =>
      have hop : (ρ.state (issueClock ρ i + 2)).outputs.opcodeOut = seqBehind ρ i :=
        (decode_at_wb hl).trans (wordBehind_eq hl)
      have hline := line_coherent hl
      have hword : wordOut ρ (ρ.state (issueClock ρ i + 2)) = seqWord ρ i :=
        (wordOut_at hl).trans hf.word
      rw [recordAt, traceLine, hop, hpc, hline.rs1n, hline.rs2n, hline.rdn, hline.imm, hword,
        hregs]
      rfl
    | traceInstr =>
      change [Line.traceInstr _ _ _ (if (ρ.state (issueClock ρ i + 2)).wbFlags.regWrite &&
        (ρ.state (issueClock ρ i + 2)).wbFlags.rdn != 0#5 then
          some ((ρ.state (issueClock ρ i + 2)).wbFlags.rdn,
            (ρ.state (issueClock ρ i + 2)).registers
              (ρ.state (issueClock ρ i + 2)).wbFlags.rdn) else none)] = _
      rw [hpc, hwrite, hrd, hregs, hf.clock]
      rfl

theorem sampleAt_elsewhere {n : ℕ} (mode : TraceMode) (hl : Live ρ n)
    (hn : ∀ i, n ≠ issueClock ρ i + 2) : sampleAt ρ mode n = none := by
  apply if_neg
  intro hv
  obtain ⟨i, hi, _⟩ := valid_of_live hl hv
  exact hn i hi

theorem samples_words (mode : TraceMode) (hl : ∀ n < k, Live ρ n)
    (hm : ∀ i, issueClock ρ i + 2 < k ↔ i < m) : samples ρ mode k = seqRecords ρ mode m := by
  apply observed_option (stageClock_strictMono (ρ := ρ) 2) _ _ hm
  · intro i hi
    exact sampleAt_word mode (hl _ hi)
  · intro n hn hne
    exact sampleAt_elsewhere mode (hl n hn) hne

structure FirstExit (ρ : Run) (e : ℕ) : Prop where
  exit : opcode (seqWord ρ e) = .other
  before : ∀ j < e, opcode (seqWord ρ j) ≠ .other

/-- The iteration that samples the `i`-th word, counted from 1. -/
def sampleIteration (ρ : Run) (i : ℕ) : ℕ := 16 * ((sequential ρ i).clock + 2) + 8

/-- While it runs, main has printed the records of the words sampled so far. -/
structure Runs (ρ : Run) (mode : TraceMode) (t : ℕ) (h : Harness) (m : ℕ) : Prop where
  running : h.stopped = false
  none_exits : ∀ j < m, opcode (seqWord ρ j) ≠ .other
  sampled : ∀ i < m, sampleIteration ρ i ≤ t
  due : t < sampleIteration ρ m
  out : h.out = numbered (seqRecords ρ mode m)

/-- When it has stopped, it has printed those up to the first exit word and the success
line, and the registers and the data memory are what that word leaves. -/
structure Stops (ρ : Run) (mode : TraceMode) (t : ℕ) (h : Harness) (e : ℕ) : Prop where
  stopped : h.stopped = true
  first : FirstExit ρ e
  due : sampleIteration ρ e ≤ t
  out : h.out = numbered (seqRecords ρ mode (e + 1)) ++ [.success]
  contents : contents h.top = (sequential ρ e).result ρ.x ρ.imem

theorem firstExit_of_stopped (hs : StoppedAt ρ k h) :
    ∃ e, FirstExit ρ e ∧ k = issueClock ρ e + 2 := by
  obtain ⟨e, rfl, he⟩ := bitExit_of_live hs.live hs.exit
  have hf : Follows ρ e := follows_of_live (hs.live.mono (Nat.le_add_right _ 2))
  refine ⟨e, ⟨?_, ?_⟩, rfl⟩
  · rw [← hf.word]
    exact he
  · intro j hj
    have hlt : issueClock ρ j < issueClock ρ e := issueClock_strictMono hj
    have hfj : Follows ρ j := follows_of_live (hs.live.mono (by omega))
    rw [← hfj.word]
    exact no_exit_of_live hs.live (by omega)

theorem runs_of_phase (hp : InPhase ρ t h) (hpr : Printed ρ mode ((t + 8) / 16) h) :
    ∃ m, Runs ρ mode t h m := by
  obtain ⟨m, hm⟩ := exists_issued (stageClock_strictMono (ρ := ρ) 2) ((t + 8) / 16)
  have hfollows : ∀ j < m, Follows ρ j := fun j hj => by
    have hj := (hm j).mpr hj
    exact follows_of_live (hp.live.mono (by omega))
  have hwords : ∀ j < m, opcode (seqWord ρ j) ≠ .other := by
    intro j hj
    rw [← (hfollows j hj).word]
    exact no_exit_of_live hp.live ((hm j).mpr hj)
  have hdue := (follows_until_exit hwords).clock
  have hlast := mt (hm m).mp (lt_irrefl m)
  refine ⟨m, hp.running, hwords, ?_, ?_, ?_⟩
  · intro i hi
    have hclock := (hfollows i hi).clock
    have hi := (hm i).mpr hi
    rw [sampleIteration]
    omega
  · rw [sampleIteration]
    omega
  · rw [hpr.out]
    exact congrArg numbered (samples_words mode (fun n hn => hp.live.mono hn.le) hm)

theorem loop_cases (ρ : Run) (mode : TraceMode) (t : ℕ) :
    (∃ m, Runs ρ mode t (clockLoop ρ mode t) m) ∨
      ∃ e, Stops ρ mode t (clockLoop ρ mode t) e := by
  cases t with
  | zero =>
    refine Or.inl ⟨0, rfl, ?_, ?_, Nat.succ_pos _, rfl⟩
    · exact fun j hj => absurd hj (Nat.not_lt_zero j)
    · exact fun j hj => absurd hj (Nat.not_lt_zero j)
  | succ t =>
    rcases clockLoop_prints ρ mode t with ⟨hp, hpr⟩ | ⟨k, hs, ht, hout⟩
    · exact Or.inl (runs_of_phase hp hpr)
    · obtain ⟨e, he, rfl⟩ := firstExit_of_stopped hs
      have hf : Follows ρ e := follows_until_exit he.before
      have hsamples : samples ρ mode (issueClock ρ e + 2 + 1) = seqRecords ρ mode (e + 1) := by
        apply samples_words mode fun n hn => hs.live.mono (Nat.lt_succ_iff.mp hn)
        intro i
        have := (issueClock_strictMono (ρ := ρ)).le_iff_le (a := i) (b := e)
        omega
      have hclock := hf.clock
      refine Or.inr ⟨e, hs.stopped, he, ?_, ?_, ?_⟩
      · rw [sampleIteration]
        omega
      · rw [hout, hsamples]
      · rw [hs.top]
        exact hf.arch_shown hs.live

theorem stopped_iff (ρ : Run) (mode : TraceMode) (t : ℕ) :
    (clockLoop ρ mode t).stopped = true ↔ ∃ e, FirstExit ρ e ∧ sampleIteration ρ e ≤ t := by
  constructor
  · intro hs
    rcases loop_cases ρ mode t with ⟨m, hr⟩ | ⟨e, he⟩
    · rw [hr.running] at hs
      cases hs
    · exact ⟨e, he.first, he.due⟩
  · rintro ⟨e, he, ht⟩
    rcases loop_cases ρ mode t with ⟨m, hr⟩ | ⟨e', he'⟩
    · have hme : m ≤ e := by
        by_contra hlt
        exact hr.none_exits e (not_le.mp hlt) he.exit
      have hmono := (clock_strictMono ρ).monotone hme
      have hdue := hr.due
      rw [sampleIteration] at hdue ht
      omega
    · exact he'.stopped

/-- At any time main has printed exactly the records of the words sampled so far, in program
order. It stops when it has sampled the first exit word, which for the `e`-th word is at the
latest in iteration 48 e + 72, and never without one. -/
theorem main_prints (ρ : Run) (mode : TraceMode) (t : ℕ) :
    ((∃ m, Runs ρ mode t (clockLoop ρ mode t) m) ∨
      ∃ e, Stops ρ mode t (clockLoop ρ mode t) e) ∧
    ((clockLoop ρ mode t).stopped = true ↔ ∃ e, FirstExit ρ e ∧ sampleIteration ρ e ≤ t) ∧
    ∀ e, sampleIteration ρ e ≤ 48 * e + 72 := by
  refine ⟨loop_cases ρ mode t, stopped_iff ρ mode t, ?_⟩
  intro e
  have := clock_le ρ e
  rw [sampleIteration]
  omega

end PipelineOutput
