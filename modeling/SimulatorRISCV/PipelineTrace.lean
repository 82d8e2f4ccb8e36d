import SimulatorRISCV.PipelineHarness

/-! # What the trace prints

The loop samples WB while the clock is low. The address, the fields and the result it reads
belong to one path word; the printed opcode is read from decode instead. -/
namespace PipelineTrace

open PipelineDecoder PipelineDatapath PipelineSimulator InOrderIssue PipelineIssue
open PipelineRetirement PipelineForwarding PipelineArchitecture PipelineHarness

/-- The iteration from `h` samples a retiring instruction. -/
structure Samples (h : Harness) : Prop where
  running : h.stopped = false
  due : (h.vtime + 1) % 8 = 0
  retiring : h.sampling = true

def wordOut (ρ : Run) (s : State) : Word := ρ.imem (memIndex (s.outputs.pcOut >>> 2))

theorem fetch_word (imem : MemArray) (pc : Word) : fetch imem pc = imem (memIndex (pc >>> 2)) :=
  rfl

variable {ρ : Run} {mode : TraceMode} {t i k : ℕ}

theorem sampled_state (hs : Samples (clockLoop ρ mode t)) : ∃ i,
    (clockLoop ρ mode t).top = ρ.state (issueClock ρ i + 2) ∧
      Live ρ (issueClock ρ i + 2) ∧ opcode (pathWord ρ i) ≠ .zero := by
  cases t with
  | zero => exact absurd hs.due (show ¬ (0 + 1) % 8 = 0 by decide)
  | succ t =>
    rcases clockLoop_phase ρ mode t with hp | ⟨k, hk⟩
    · have hr := hs.retiring
      simp only [Harness.sampling, hp.clock, hp.top, Bool.and_eq_true, Bool.not_eq_true',
        decide_eq_false_iff_not] at hr
      obtain ⟨k, hk⟩ : ∃ k, (t + 1) / 8 = 2 * k := ⟨(t + 1) / 16, by omega⟩
      have hl : Live ρ k := hp.live.mono (by omega)
      have htop : (clockLoop ρ mode (t + 1)).top = ρ.state k := by
        rw [hp.top, hk, phaseState_even]
      rw [hk, phaseState_even] at hr
      obtain ⟨i, rfl, hz⟩ := valid_of_live hl hr.2
      exact ⟨i, htop, hl, hz⟩
    · have := hs.running
      rw [hk.stopped] at this
      cases this

theorem samples_of_retiring (mode : TraceMode) (hl : Live ρ (issueClock ρ i + 2))
    (hz : opcode (pathWord ρ i) ≠ .zero) :
    Samples (clockLoop ρ mode (16 * (issueClock ρ i + 2) + 7)) ∧
      (clockLoop ρ mode (16 * (issueClock ρ i + 2) + 7)).top = ρ.state (issueClock ρ i + 2) := by
  have hp : InPhase ρ (16 * (issueClock ρ i + 2) + 7)
      (clockLoop ρ mode (16 * (issueClock ρ i + 2) + 7)) :=
    clockLoop_live hl (Nat.lt_succ_self _)
  have hdiv : (16 * (issueClock ρ i + 2) + 7) / 8 = 2 * (issueClock ρ i + 2) := by omega
  have htop : (clockLoop ρ mode (16 * (issueClock ρ i + 2) + 7)).top =
      ρ.state (issueClock ρ i + 2) := by rw [hp.top, hdiv, phaseState_even]
  have hlow : (clockLoop ρ mode (16 * (issueClock ρ i + 2) + 7)).clock = false :=
    hp.clock.trans (decide_eq_false (by omega))
  have hv : (ρ.state (issueClock ρ i + 2)).outputs.validOut = true :=
    (valid_in_wb hl).trans (decide_eq_true hz)
  refine ⟨⟨hp.running, ?_, ?_⟩, htop⟩
  · rw [hp.vtime]
    omega
  · rw [Harness.sampling, htop, hlow, hv]
    rfl

theorem mem_sampled {h : Harness} {l : Line} : l ∈ (h.sampled mode).out ↔
    l ∈ h.out ∨ (h.sampling = true ∧ l ∈ h.record mode) := by
  rw [Harness.sampled, List.mem_append]
  cases h.sampling <;> simp

theorem samples_iff {h : Harness} (hstop : ¬ h.stopped = true) (hdue : (h.vtime + 1) % 8 = 0) :
    Samples h ↔ h.sampling = true :=
  ⟨fun hs => hs.retiring, fun hr => ⟨Bool.eq_false_iff.mpr hstop, hdue, hr⟩⟩

theorem mem_out_step {x : XValues} {imem : MemArray} {h : Harness} {l : Line}
    (hl : l ≠ .success) : l ∈ (h.iterate x imem mode).out ↔
      l ∈ h.out ∨ (Samples h ∧ l ∈ h.record mode) := by
  unfold Harness.iterate
  split_ifs with hstop hdue hexit
  · refine ⟨Or.inl, ?_⟩
    rintro (hm | ⟨hs, _⟩)
    · exact hm
    · exact absurd hstop (Bool.eq_false_iff.mp hs.running)
  · rw [samples_iff hstop hdue, ← mem_sampled, List.mem_append, List.mem_singleton]
    exact or_iff_left hl
  · rw [samples_iff hstop hdue, ← mem_sampled]
    rfl
  · refine ⟨Or.inl, ?_⟩
    rintro (hm | ⟨hs, _⟩)
    · exact hm
    · exact absurd hs.due hdue

theorem mem_out_iff {l : Line} (hl : l ≠ .success) : l ∈ (clockLoop ρ mode t).out ↔
    ∃ u < t, Samples (clockLoop ρ mode u) ∧ l ∈ (clockLoop ρ mode u).record mode := by
  induction t with
  | zero => simp [clockLoop, Harness.init]
  | succ t ih =>
    rw [clockLoop, mem_out_step hl, ih]
    constructor
    · rintro (⟨u, hu, hs⟩ | hs)
      · exact ⟨u, Nat.lt_succ_of_lt hu, hs⟩
      · exact ⟨t, Nat.lt_succ_self t, hs⟩
    · rintro ⟨u, hu, hs⟩
      rcases Nat.lt_succ_iff_lt_or_eq.mp hu with hu | rfl
      · exact Or.inl ⟨u, hu, hs⟩
      · exact Or.inr hs

def traceLine (s : State) : Line :=
  .trace s.outputs.opcodeOut s.outputs.pcOut s.outputs.rdnOut s.outputs.rs1nOut
    s.outputs.rs2nOut s.outputs.immOut s.registers

/-- A run with --trace prints one line for each word that retires, and no others. -/
theorem mem_trace_iff {l : Line} (hl : l ≠ .success) :
    (∃ t, l ∈ (clockLoop ρ .trace t).out) ↔
      ∃ i, Live ρ (issueClock ρ i + 2) ∧ opcode (pathWord ρ i) ≠ .zero ∧
        l = traceLine (ρ.state (issueClock ρ i + 2)) := by
  constructor
  · rintro ⟨t, hm⟩
    obtain ⟨u, _, hs, hrec⟩ := (mem_out_iff hl).mp hm
    obtain ⟨i, htop, hlive, hz⟩ := sampled_state hs
    refine ⟨i, hlive, hz, ?_⟩
    rw [← htop]
    exact List.mem_singleton.mp hrec
  · rintro ⟨i, hlive, hz, rfl⟩
    obtain ⟨hs, htop⟩ := samples_of_retiring .trace hlive hz
    refine ⟨_, (mem_out_iff hl).mpr ⟨_, Nat.lt_succ_self _, hs, ?_⟩⟩
    rw [← htop]
    exact List.mem_singleton_self _

/-- The sampled fields are those of the word at pc_out, and a written register holds the
result of the path word that is in WB at the sample. -/
structure LineCoherent (ρ : Run) (s : State) : Prop where
  rs1n : s.outputs.rs1nOut = (wordOut ρ s).extractLsb 19 15
  rs2n : s.outputs.rs2nOut = (wordOut ρ s).extractLsb 24 20
  rdn : s.outputs.rdnOut = (wordOut ρ s).extractLsb 11 7
  imm : s.outputs.immOut = calcImmediate (wordOut ρ s)
  written : s.outputs.regWriteOut = true → s.outputs.rdnOut ≠ 0#5 →
    s.registers s.outputs.rdnOut = s.resultWB
  result : ∃ i, s = ρ.state (issueClock ρ i + 2) ∧ s.outputs.pcOut = pathPc ρ i ∧
    s.resultWB = writeBack (pathControl ρ i) (pathPc ρ i) (pathWord ρ i) (pathArch ρ i)

theorem wordOut_at (hl : Live ρ (issueClock ρ i + 2)) :
    wordOut ρ (ρ.state (issueClock ρ i + 2)) = pathWord ρ i := by
  have hpc : (ρ.state (issueClock ρ i + 2)).outputs.pcOut = pathPc ρ i := pc_in_wb hl
  rw [wordOut, hpc, pathWord, fetch_word]

theorem register_written (ρ : Run) {n : ℕ} (hw : (ρ.state n).outputs.regWriteOut = true)
    (hd : (ρ.state n).outputs.rdnOut ≠ 0#5) :
    (ρ.state n).registers (ρ.state n).outputs.rdnOut = (ρ.state n).resultWB := by
  rw [← reachable_written (ρ.reachable n), registerWrite_apply]
  exact if_pos ⟨hw, hd, rfl⟩

theorem line_coherent (hl : Live ρ (issueClock ρ i + 2)) :
    LineCoherent ρ (ρ.state (issueClock ρ i + 2)) := by
  have hh := holds_at_issue (hl.mono (Nat.le_add_right _ 2))
  have hd : (ρ.state (issueClock ρ i + 2)).wbDebug = _ := wb_debug hl
  constructor
  case rs1n =>
    rw [wordOut_at hl, State.outputs, hd]
    exact hh.rs1n
  case rs2n =>
    rw [wordOut_at hl, State.outputs, hd]
    exact hh.rs2n
  case rdn =>
    rw [wordOut_at hl]
    exact (wb_at hl).2
  case imm =>
    rw [wordOut_at hl, State.outputs, hd]
    exact hh.imm32
  case written => exact register_written ρ
  case result => exact ⟨i, rfl, pc_in_wb hl, result_at_issue hl⟩

theorem bubble_invalid {n : ℕ} (hl : Live ρ (n + 2)) (hb : ExecBubble (ρ.state n)) :
    (ρ.state (n + 2)).outputs.validOut = false := by
  change (ρ.state (n + 2)).wbFlags.valid = false
  rw [wb_flags hl]
  exact hb.valid

theorem bubble_between {n : ℕ} (hl : Live ρ n) (hi : issueClock ρ i < n)
    (hn : n < issueClock ρ (i + 1)) : ExecBubble (ρ.state n) := by
  apply bubble_elsewhere hl
  rintro j rfl
  have h1 := issueClock_strictMono.lt_iff_lt.mp hi
  have h2 := issueClock_strictMono.lt_iff_lt.mp hn
  omega

theorem flushed_bubbles {n : ℕ} (hl : Live ρ (n + 2))
    (ht : (ρ.state n).branchIsTakenExec = true) :
    ExecBubble (ρ.state (n + 1)) ∧ ExecBubble (ρ.state (n + 2)) := by
  rcases issue_or_bubble (hl.mono (Nat.le_add_right n 2)) with ⟨i, rfl⟩ | hb
  · have hgap := issueClock_succ (ρ := ρ) i
    rw [if_pos ht] at hgap
    exact ⟨bubble_between (i := i) (hl.mono (Nat.le_succ _)) (by omega) (by omega),
      bubble_between (i := i) hl (by omega) (by omega)⟩
  · rw [hb.not_taken] at ht
    cases ht

theorem stalled_bubble {n : ℕ} (hl : Live ρ (n + 1)) (hs : (ρ.state n).loadStallExec = true) :
    ExecBubble (ρ.state (n + 1)) := by
  have hr := hl n (Nat.lt_succ_self n)
  apply bubble_of_flush
  · rw [Run.state, running_execVals hr, hs]
    rfl
  · rw [Run.state, running_execFlags hr, hs]
    rfl

/-- Every sampled line is coherent, and bubbles, the slots a redirect flushes and the slot a
load stall inserts never have valid_out set. -/
theorem trace_lines_coherent (ρ : Run) (mode : TraceMode) :
    (∀ t, Samples (clockLoop ρ mode t) → LineCoherent ρ (clockLoop ρ mode t).top) ∧
    (∀ n, Live ρ (n + 2) → ExecBubble (ρ.state n) →
      (ρ.state (n + 2)).outputs.validOut = false) ∧
    (∀ n, Live ρ (n + 4) → (ρ.state n).branchIsTakenExec = true →
      (ρ.state (n + 3)).outputs.validOut = false ∧
        (ρ.state (n + 4)).outputs.validOut = false) ∧
    (∀ n, Live ρ (n + 3) → (ρ.state n).loadStallExec = true →
      (ρ.state (n + 3)).outputs.validOut = false) := by
  refine ⟨?_, fun n => bubble_invalid, ?_, ?_⟩
  · intro t hs
    obtain ⟨i, htop, hl, _⟩ := sampled_state hs
    rw [htop]
    exact line_coherent hl
  · intro n hl ht
    obtain ⟨h1, h2⟩ := flushed_bubbles (hl.mono (by omega)) ht
    exact ⟨bubble_invalid (hl.mono (by omega)) h1, bubble_invalid hl h2⟩
  · intro n hl hs
    exact bubble_invalid hl (stalled_bubble (hl.mono (by omega)) hs)

/-- ADDI x1, x0, 16 and ECALL: the ADDI is sampled in iteration 71. -/
def addThenExit : Run := bootProgram [0x01000093#32, 0x00000073#32]

theorem add_then_exit_line : LineCoherent addThenExit (clockLoop addThenExit .trace 71).top :=
  (trace_lines_coherent addThenExit .trace).1 71
    ⟨by decide +kernel, by decide +kernel, by decide +kernel⟩

def LoadUseNext (ρ : Run) (i : ℕ) : Prop :=
  (pathControl ρ i).memToReg = true ∧
    (rs1Id (fetch ρ.imem (pathPc ρ i + 4#32)) = rdId (pathWord ρ i) ∨
      rs2Id (fetch ρ.imem (pathPc ρ i + 4#32)) = rdId (pathWord ρ i))

instance (ρ : Run) (i : ℕ) : Decidable (LoadUseNext ρ i) := inferInstanceAs (Decidable (_ ∧ _))

def pathTaken (ρ : Run) (i : ℕ) : Bool :=
  redirects (pathControl ρ i) (pathPc ρ i) (pathWord ρ i) (pathArch ρ i)

/-- The word two clocks behind the `i`-th path word, when that is in WB. -/
def wordBehind (ρ : Run) (i : ℕ) : Word :=
  if pathTaken ρ i then pathWord ρ (i + 1)
  else if LoadUseNext ρ i then fetch ρ.imem (pathPc ρ i + 8#32)
  else if pathTaken ρ (i + 1) then 0#32
  else if LoadUseNext ρ (i + 1) then fetch ρ.imem (pathPc ρ i + 8#32)
  else fetch ρ.imem (pathPc ρ i + 12#32)

def frontWord (imem : MemArray) : Front Item → Word
  | .fetch _ => 0#32
  | .decode a => fetch imem a.pc
  | .execute a => fetch imem (a.pc + 4#32)

theorem shape_decode_word {x : XValues} {imem : MemArray} {s : State} {f : Front Item}
    (h : Shape x imem s f) : s.decode.instr = frontWord imem f := by
  cases h with
  | fetch a _ _ hd => rw [hd]; rfl
  | decode a _ _ hd => rw [hd]; rfl
  | execute a _ _ hd => rw [hd]; rfl

theorem taken_iff_pathTaken (hl : Live ρ (issueClock ρ i)) :
    (ρ.state (issueClock ρ i)).branchIsTakenExec = pathTaken ρ i := taken_at_issue hl

theorem stall_iff_loadUseNext (hl : Live ρ (issueClock ρ i)) :
    (ρ.state (issueClock ρ i)).loadStallExec = true ↔ LoadUseNext ρ i := by
  have hh := holds_at_issue hl
  simp only [State.loadStallExec, loadStall, decode_at_issue hl, hh.rdn, hh.flags,
    Bool.and_eq_true, Bool.or_eq_true, beq_iff_eq]
  rfl

theorem pathPc_of_not_taken (hl : Live ρ (issueClock ρ i)) (ht : pathTaken ρ i = false) :
    pathPc ρ (i + 1) = pathPc ρ i + 4#32 := by
  rw [pathPc_succ, taken_iff_pathTaken hl, ht]
  rfl

theorem pathPc_add_of_not_taken (hl : Live ρ (issueClock ρ i)) (ht : pathTaken ρ i = false)
    (offset : Word) : pathPc ρ (i + 1) + offset = pathPc ρ i + (4#32 + offset) := by
  rw [pathPc_of_not_taken hl ht, BitVec.add_assoc]

theorem front_after_issue (hl : Live ρ (issueClock ρ i)) :
    front (nextItem ρ.x ρ.imem) (entryItem ρ) (runSignals ρ) (issueClock ρ i + 1) =
      if pathTaken ρ i then .fetch (pathItem ρ (i + 1))
      else if LoadUseNext ρ i then .decode (pathItem ρ (i + 1))
      else .execute (pathItem ρ (i + 1)) := by
  have hs := stall_iff_loadUseNext hl
  have hf := front_issue (nextItem ρ.x ρ.imem) (entryItem ρ) (runSignals ρ) i
  rw [← taken_iff_pathTaken hl, front, issueClock, hf, pathItem, path]
  rw [← issueClock] at hf ⊢
  simp only [runSignals, signals, Front.advance, ← hs]
  cases ht : (ρ.state (issueClock ρ i)).branchIsTakenExec with
  | true => rfl
  | false => rfl

theorem decode_after_issue (hl : Live ρ (issueClock ρ i + 1)) :
    (ρ.state (issueClock ρ i + 1)).decode.instr =
      if pathTaken ρ i then 0#32
      else if LoadUseNext ρ i then fetch ρ.imem (pathPc ρ i + 4#32)
      else fetch ρ.imem (pathPc ρ i + 8#32) := by
  have hli := hl.mono (Nat.le_succ _)
  rw [shape_decode_word (run_shape hl), front_after_issue hli]
  cases ht : pathTaken ρ i with
  | true => rfl
  | false =>
    have hpc := pathPc_of_not_taken hli ht
    by_cases hs : LoadUseNext ρ i
    · simp only [hs, Bool.false_eq_true, ↓reduceIte, ← hpc]
      rfl
    · have hpc8 : pathPc ρ (i + 1) + 4#32 = pathPc ρ i + 8#32 :=
        pathPc_add_of_not_taken hli ht 4#32
      simp only [hs, Bool.false_eq_true, ↓reduceIte, ← hpc8]
      rfl

theorem issues_next (hl : Live ρ (issueClock ρ i)) (ht : pathTaken ρ i = false)
    (hs : ¬ LoadUseNext ρ i) : issueClock ρ (i + 1) = issueClock ρ i + 1 := by
  have hns := stall_iff_loadUseNext hl
  rw [issueClock_succ, taken_iff_pathTaken hl, ht, if_neg Bool.false_ne_true,
    if_neg fun h => hs (hns.mp h)]

/-- While the `i`-th path word is in WB, decode holds the word that follows it by two clocks. -/
theorem decode_at_wb (hl : Live ρ (issueClock ρ i + 2)) :
    (ρ.state (issueClock ρ i + 2)).decode.instr = wordBehind ρ i := by
  have hli := hl.mono (Nat.le_add_right _ 2)
  have h1 := front_after_issue hli
  unfold wordBehind
  by_cases ht : pathTaken ρ i = true
  · rw [shape_decode_word (run_shape hl), front, h1, if_pos ht, if_pos ht]
    rfl
  · have htf : pathTaken ρ i = false := Bool.eq_false_iff.mpr ht
    have hpc8 : pathPc ρ (i + 1) + 4#32 = pathPc ρ i + 8#32 :=
      pathPc_add_of_not_taken hli htf 4#32
    have hpc12 : pathPc ρ (i + 1) + 8#32 = pathPc ρ i + 12#32 :=
      pathPc_add_of_not_taken hli htf 8#32
    rw [if_neg ht] at h1 ⊢
    by_cases hs : LoadUseNext ρ i
    · rw [shape_decode_word (run_shape hl), front, h1, if_pos hs, if_pos hs, ← hpc8]
      rfl
    · -- The next word issues right behind; what it does decides.
      have hnext := issues_next hli htf hs
      have hln : Live ρ (issueClock ρ (i + 1) + 1) := hl.mono (by omega)
      rw [if_neg hs, ← hpc8, ← hpc12, ← decode_after_issue hln, hnext]

def OpcodeLinesMatch (ρ : Run) : Prop :=
  ∀ t word pc rd rs1 rs2 imm registers,
    Line.trace word pc rd rs1 rs2 imm registers ∈ (clockLoop ρ .trace t).out →
      word = ρ.imem (memIndex (pc >>> 2))

/-- Every retiring word equals the one that decode holds at that time. -/
def TwinsBehind (ρ : Run) : Prop :=
  ∀ i, Live ρ (issueClock ρ i + 2) → opcode (pathWord ρ i) ≠ .zero →
    wordBehind ρ i = pathWord ρ i

theorem opcode_lines_match_iff (ρ : Run) : OpcodeLinesMatch ρ ↔ TwinsBehind ρ := by
  constructor
  · intro h i hl hz
    obtain ⟨t, hm⟩ := (mem_trace_iff (by nofun)).mpr ⟨i, hl, hz, rfl⟩
    rw [← decode_at_wb hl, ← wordOut_at hl]
    exact h t _ _ _ _ _ _ _ hm
  · intro h t word pc rd rs1 rs2 imm registers hm
    obtain ⟨i, hl, hz, he⟩ := (mem_trace_iff (by nofun)).mp ⟨t, hm⟩
    injection he with hword hpc
    rw [hword, hpc]
    change (ρ.state (issueClock ρ i + 2)).decode.instr = wordOut ρ (ρ.state _)
    rw [decode_at_wb hl, wordOut_at hl]
    exact h i hl hz

theorem add_then_exit_opcode : ¬ OpcodeLinesMatch addThenExit := by
  intro h
  obtain ⟨t, hm⟩ := (mem_trace_iff (ρ := addThenExit) (by nofun)).mpr
    ⟨0, live_first, by decide +kernel, rfl⟩
  exact absurd (h t _ _ _ _ _ _ _ hm) (by decide +kernel)

end PipelineTrace
