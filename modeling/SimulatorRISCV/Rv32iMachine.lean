import SimulatorRISCV.Rv32i

/-! # A machine that executes RV32I

Decoding of words, and runs of a machine over one byte-addressed little-endian memory that
holds instructions and data. ECALL and EBREAK end a run, and for one hart without devices a
FENCE does nothing. -/
namespace Rv32i

/-- With JALR, FENCE and the environment calls these are all instructions of RV32I. The
register fields of a FENCE are reserved. -/
inductive Insn where
  | base (i : Instr)
  | jalr (rd rs1 : Reg) (offset : BitVec 12)
  | fence (rd rs1 : Reg) (order : BitVec 12)
  | ecall
  | ebreak
  deriving DecidableEq, Repr

def Insn.encode : Insn → Word
  | .base i => Rv32i.encode i
  | .jalr rd rs1 offset => iFormat offset rs1 0b000 rd 0b1100111
  | .fence rd rs1 order => iFormat order rs1 0b000 rd 0b0001111
  | .ecall => 0x00000073#32
  | .ebreak => 0x00100073#32

def regOp (funct3 : BitVec 3) (funct7 : BitVec 7) : Option RegOp :=
  [RegOp.add, .sub, .sll, .slt, .sltu, .xor, .srl, .sra, .or, .and].find? fun o =>
    o.funct3 = funct3 ∧ o.funct7 = funct7

def immOp (funct3 : BitVec 3) : Option ImmOp :=
  [ImmOp.addi, .slti, .sltiu, .xori, .ori, .andi].find? fun o => o.funct3 = funct3

def shiftOp (funct3 : BitVec 3) (funct7 : BitVec 7) : Option ShiftOp :=
  [ShiftOp.slli, .srli, .srai].find? fun o => o.funct3 = funct3 ∧ o.funct7 = funct7

def branchOp (funct3 : BitVec 3) : Option BranchOp :=
  [BranchOp.beq, .bne, .blt, .bge, .bltu, .bgeu].find? fun o => o.funct3 = funct3

def loadOp (funct3 : BitVec 3) : Option LoadOp :=
  [LoadOp.lb, .lh, .lw, .lbu, .lhu].find? fun o => o.funct3 = funct3

def storeOp (funct3 : BitVec 3) : Option StoreOp :=
  [StoreOp.sb, .sh, .sw].find? fun o => o.funct3 = funct3

def opcodeField (w : Word) : BitVec 7 := w.extractLsb 6 0
def rdField (w : Word) : Reg := w.extractLsb 11 7
def funct3Field (w : Word) : BitVec 3 := w.extractLsb 14 12
def rs1Field (w : Word) : Reg := w.extractLsb 19 15
def rs2Field (w : Word) : Reg := w.extractLsb 24 20
def funct7Field (w : Word) : BitVec 7 := w.extractLsb 31 25
def iImm (w : Word) : BitVec 12 := w.extractLsb 31 20
def sImm (w : Word) : BitVec 12 := w.extractLsb 31 25 ++ w.extractLsb 11 7
def bOffset (w : Word) : BitVec 12 :=
  w.extractLsb 31 31 ++ (w.extractLsb 7 7 ++ (w.extractLsb 30 25 ++ w.extractLsb 11 8))
def uImm (w : Word) : BitVec 20 := w.extractLsb 31 12
def jOffset (w : Word) : BitVec 20 :=
  w.extractLsb 31 31 ++ (w.extractLsb 19 12 ++ (w.extractLsb 20 20 ++ w.extractLsb 30 21))

def decode (w : Word) : Option Insn :=
  if opcodeField w = 0b0110011 then
    (regOp (funct3Field w) (funct7Field w)).map fun o =>
      .base (.op o (rdField w) (rs1Field w) (rs2Field w))
  else if opcodeField w = 0b0010011 then
    ((immOp (funct3Field w)).map fun o => .base (.opImm o (rdField w) (rs1Field w) (iImm w))).or
      ((shiftOp (funct3Field w) (funct7Field w)).map fun o =>
        .base (.shiftImm o (rdField w) (rs1Field w) (rs2Field w)))
  else if opcodeField w = 0b0110111 then some (.base (.lui (rdField w) (uImm w)))
  else if opcodeField w = 0b0010111 then some (.base (.auipc (rdField w) (uImm w)))
  else if opcodeField w = 0b1100011 then
    (branchOp (funct3Field w)).map fun o =>
      .base (.branch o (rs1Field w) (rs2Field w) (bOffset w))
  else if opcodeField w = 0b0000011 then
    (loadOp (funct3Field w)).map fun o => .base (.load o (rdField w) (rs1Field w) (iImm w))
  else if opcodeField w = 0b0100011 then
    (storeOp (funct3Field w)).map fun o => .base (.store o (rs1Field w) (rs2Field w) (sImm w))
  else if opcodeField w = 0b1101111 then some (.base (.jal (rdField w) (jOffset w)))
  else if opcodeField w = 0b1100111 then
    if funct3Field w = 0b000 then some (.jalr (rdField w) (rs1Field w) (iImm w)) else none
  else if opcodeField w = 0b0001111 then
    if funct3Field w = 0b000 then some (.fence (rdField w) (rs1Field w) (iImm w)) else none
  else if w = 0x00000073#32 then some .ecall
  else if w = 0x00100073#32 then some .ebreak
  else none

/-- A word is the format of its own fields. -/
theorem eq_rFormat (w : Word) : rFormat (funct7Field w) (rs2Field w) (rs1Field w)
    (funct3Field w) (rdField w) (opcodeField w) = w := by
  apply BitVec.eq_of_getLsbD_eq
  intro k hk
  rw [rFormat_bit]
  simp only [funct7Field, rs2Field, rs1Field, funct3Field, rdField, opcodeField,
    BitVec.getLsbD_extractLsb]
  grind

theorem eq_iFormat (w : Word) :
    iFormat (iImm w) (rs1Field w) (funct3Field w) (rdField w) (opcodeField w) = w := by
  apply BitVec.eq_of_getLsbD_eq
  intro k hk
  rw [iFormat_bit]
  simp only [iImm, rs1Field, funct3Field, rdField, opcodeField, BitVec.getLsbD_extractLsb]
  grind

theorem eq_sFormat (w : Word) :
    sFormat (sImm w) (rs2Field w) (rs1Field w) (funct3Field w) (opcodeField w) = w := by
  apply BitVec.eq_of_getLsbD_eq
  intro k hk
  rw [sFormat_bit]
  simp only [sImm, rs2Field, rs1Field, funct3Field, opcodeField, BitVec.getLsbD_extractLsb,
    BitVec.getLsbD_append]
  grind

theorem eq_bFormat (w : Word) : bFormat (bOffset w ++ 0#1) (rs2Field w) (rs1Field w)
    (funct3Field w) (opcodeField w) = w := by
  apply BitVec.eq_of_getLsbD_eq
  intro k hk
  rw [bFormat_bit]
  simp only [bOffset, rs2Field, rs1Field, funct3Field, opcodeField, BitVec.getLsbD_extractLsb,
    BitVec.getLsbD_append]
  grind

theorem eq_uFormat (w : Word) : uFormat (uImm w) (rdField w) (opcodeField w) = w := by
  apply BitVec.eq_of_getLsbD_eq
  intro k hk
  rw [uFormat_bit]
  simp only [uImm, rdField, opcodeField, BitVec.getLsbD_extractLsb]
  grind

theorem eq_jFormat (w : Word) :
    jFormat (jOffset w ++ 0#1) (rdField w) (opcodeField w) = w := by
  apply BitVec.eq_of_getLsbD_eq
  intro k hk
  rw [jFormat_bit]
  simp only [jOffset, rdField, opcodeField, BitVec.getLsbD_extractLsb, BitVec.getLsbD_append]
  grind

theorem regOp_fields {f3 : BitVec 3} {f7 : BitVec 7} {o : RegOp} (h : regOp f3 f7 = some o) :
    o.funct3 = f3 ∧ o.funct7 = f7 := by
  simpa using List.find?_some h

theorem immOp_fields {f3 : BitVec 3} {o : ImmOp} (h : immOp f3 = some o) : o.funct3 = f3 := by
  simpa using List.find?_some h

theorem shiftOp_fields {f3 : BitVec 3} {f7 : BitVec 7} {o : ShiftOp}
    (h : shiftOp f3 f7 = some o) : o.funct3 = f3 ∧ o.funct7 = f7 := by
  simpa using List.find?_some h

theorem branchOp_fields {f3 : BitVec 3} {o : BranchOp} (h : branchOp f3 = some o) :
    o.funct3 = f3 := by
  simpa using List.find?_some h

theorem loadOp_fields {f3 : BitVec 3} {o : LoadOp} (h : loadOp f3 = some o) :
    o.funct3 = f3 := by
  simpa using List.find?_some h

theorem storeOp_fields {f3 : BitVec 3} {o : StoreOp} (h : storeOp f3 = some o) :
    o.funct3 = f3 := by
  simpa using List.find?_some h

/-- Decoding accepts the encodings and nothing else. -/
theorem encode_of_decode {w : Word} {i : Insn} (h : decode w = some i) : i.encode = w := by
  unfold decode at h
  by_cases hop : opcodeField w = 0b0110011
  · rw [if_pos hop] at h
    obtain ⟨o, ho, rfl⟩ := Option.map_eq_some_iff.mp h
    obtain ⟨h3, h7⟩ := regOp_fields ho
    rw [Insn.encode, encode, h3, h7, ← hop, eq_rFormat]
  rw [if_neg hop] at h
  by_cases himm : opcodeField w = 0b0010011
  · rw [if_pos himm] at h
    rcases Option.or_eq_some_iff.mp h with h | ⟨_, h⟩
    · obtain ⟨o, ho, rfl⟩ := Option.map_eq_some_iff.mp h
      rw [Insn.encode, encode, immOp_fields ho, ← himm, eq_iFormat]
    · obtain ⟨o, ho, rfl⟩ := Option.map_eq_some_iff.mp h
      obtain ⟨h3, h7⟩ := shiftOp_fields ho
      rw [Insn.encode, encode, h3, h7, ← himm, eq_rFormat]
  rw [if_neg himm] at h
  by_cases hlui : opcodeField w = 0b0110111
  · rw [if_pos hlui] at h
    obtain rfl := Option.some.inj h
    rw [Insn.encode, encode, ← hlui, eq_uFormat]
  rw [if_neg hlui] at h
  by_cases hauipc : opcodeField w = 0b0010111
  · rw [if_pos hauipc] at h
    obtain rfl := Option.some.inj h
    rw [Insn.encode, encode, ← hauipc, eq_uFormat]
  rw [if_neg hauipc] at h
  by_cases hbranch : opcodeField w = 0b1100011
  · rw [if_pos hbranch] at h
    obtain ⟨o, ho, rfl⟩ := Option.map_eq_some_iff.mp h
    rw [Insn.encode, encode, branchOp_fields ho, ← hbranch, eq_bFormat]
  rw [if_neg hbranch] at h
  by_cases hload : opcodeField w = 0b0000011
  · rw [if_pos hload] at h
    obtain ⟨o, ho, rfl⟩ := Option.map_eq_some_iff.mp h
    rw [Insn.encode, encode, loadOp_fields ho, ← hload, eq_iFormat]
  rw [if_neg hload] at h
  by_cases hstore : opcodeField w = 0b0100011
  · rw [if_pos hstore] at h
    obtain ⟨o, ho, rfl⟩ := Option.map_eq_some_iff.mp h
    rw [Insn.encode, encode, storeOp_fields ho, ← hstore, eq_sFormat]
  rw [if_neg hstore] at h
  by_cases hjal : opcodeField w = 0b1101111
  · rw [if_pos hjal] at h
    obtain rfl := Option.some.inj h
    rw [Insn.encode, encode, ← hjal, eq_jFormat]
  rw [if_neg hjal] at h
  by_cases hjalr : opcodeField w = 0b1100111
  · rw [if_pos hjalr] at h
    by_cases hf : funct3Field w = 0b000
    · rw [if_pos hf] at h
      obtain rfl := Option.some.inj h
      rw [Insn.encode, ← hf, ← hjalr, eq_iFormat]
    · rw [if_neg hf] at h
      cases h
  rw [if_neg hjalr] at h
  by_cases hfence : opcodeField w = 0b0001111
  · rw [if_pos hfence] at h
    by_cases hf : funct3Field w = 0b000
    · rw [if_pos hf] at h
      obtain rfl := Option.some.inj h
      rw [Insn.encode, ← hf, ← hfence, eq_iFormat]
    · rw [if_neg hf] at h
      cases h
  rw [if_neg hfence] at h
  by_cases hcall : w = 0x00000073#32
  · rw [if_pos hcall] at h
    obtain rfl := Option.some.inj h
    exact hcall.symm
  rw [if_neg hcall] at h
  by_cases hbreak : w = 0x00100073#32
  · rw [if_pos hbreak] at h
    obtain rfl := Option.some.inj h
    exact hbreak.symm
  · rw [if_neg hbreak] at h
    cases h

/-- Memory addresses wrap around at 2^32. -/
structure Machine where
  pc : Word
  regs : Reg → Word
  mem : Word → BitVec 8

def Machine.read (m : Machine) (r : Reg) : Word := if r = 0#5 then 0#32 else m.regs r

def LoadOp.load (mem : Word → BitVec 8) (a : Word) : LoadOp → Word
  | .lb => (mem a).signExtend 32
  | .lh => (mem (a + 1#32) ++ mem a).signExtend 32
  | .lw => mem (a + 3#32) ++ (mem (a + 2#32) ++ (mem (a + 1#32) ++ mem a))
  | .lbu => (mem a).setWidth 32
  | .lhu => (mem (a + 1#32) ++ mem a).setWidth 32

def StoreOp.size : StoreOp → ℕ
  | .sb => 1
  | .sh => 2
  | .sw => 4

def StoreOp.store (o : StoreOp) (mem : Word → BitVec 8) (a v : Word) : Word → BitVec 8 :=
  fun b => if (b - a).toNat < o.size then v.extractLsb' (8 * (b - a).toNat) 8 else mem b

namespace Instr

def operand1 (m : Machine) (i : Instr) : Word := (i.rs1.map m.read).getD 0#32
def operand2 (m : Machine) (i : Instr) : Word := (i.rs2.map m.read).getD 0#32

def result (m : Machine) (i : Instr) : Option Word :=
  match i with
  | .load o _ rs1 imm => some (o.load m.mem (m.read rs1 + imm.signExtend 32))
  | .jal .. => some (m.pc + 4#32)
  | _ => i.value m.pc (i.operand1 m) (i.operand2 m)

def stored (m : Machine) (i : Instr) : Word → BitVec 8 :=
  match i with
  | .store o rs1 rs2 imm => o.store m.mem (m.read rs1 + imm.signExtend 32) (m.read rs2)
  | _ => m.mem

def exec (m : Machine) (i : Instr) : Machine where
  pc := i.nextPc m.pc (i.operand1 m) (i.operand2 m)
  regs := match i.rd, i.result m with
    | some rd, some v => Function.update m.regs rd v
    | _, _ => m.regs
  mem := i.stored m

end Instr

/-- JALR clears bit 0 of its target. -/
def Machine.jalr (m : Machine) (rd rs1 : Reg) (offset : BitVec 12) : Machine where
  pc := (m.read rs1 + offset.signExtend 32) &&& ~~~1#32
  regs := Function.update m.regs rd (m.pc + 4#32)
  mem := m.mem

/-- The step of an instruction; the environment calls end the run. -/
def Insn.exec (m : Machine) : Insn → Option Machine
  | .base i => some (i.exec m)
  | .jalr rd rs1 offset => some (m.jalr rd rs1 offset)
  | .fence .. => some { m with pc := m.pc + 4#32 }
  | .ecall | .ebreak => none

def Machine.fetch (m : Machine) : Word := LoadOp.lw.load m.mem m.pc

/-- The instruction at the pc; none when the word is illegal or the pc no multiple of four. -/
def Machine.insn (m : Machine) : Option Insn :=
  if m.pc.toNat % 4 = 0 then decode m.fetch else none

/-- One step. Without an instruction the machine traps, and so it does at a jump to an address
that is no multiple of four. -/
def Machine.step (m : Machine) : Option Machine :=
  m.insn.bind fun i =>
    (i.exec m).bind fun m' => if m'.pc.toNat % 4 = 0 then some m' else none

/-- The machine after `n` steps. It stays where it ends or traps. -/
def Machine.after (m : Machine) : ℕ → Machine
  | 0 => m
  | n + 1 => (m.after n).step.getD (m.after n)

theorem encode_of_insn {m : Machine} {i : Insn} (h : m.insn = some i) : i.encode = m.fetch := by
  unfold Machine.insn at h
  split_ifs at h
  exact encode_of_decode h

theorem step_eq_some {m m' : Machine} (h : m.step = some m') :
    ∃ i, m.insn = some i ∧ i.exec m = some m' := by
  obtain ⟨i, hi, h⟩ := Option.bind_eq_some_iff.mp h
  obtain ⟨m'', hm, h⟩ := Option.bind_eq_some_iff.mp h
  by_cases ha : m''.pc.toNat % 4 = 0
  · rw [if_pos ha] at h
    obtain rfl := Option.some.inj h
    exact ⟨i, hi, hm⟩
  · rw [if_neg ha] at h
    cases h

/-- A step that is possible executes the instruction at the pc. -/
theorem after_succ {m : Machine} {n : ℕ} (h : (m.after n).step.isSome = true) :
    ∃ i, (m.after n).insn = some i ∧ i.exec (m.after n) = some (m.after (n + 1)) := by
  obtain ⟨m', hm⟩ := Option.isSome_iff_exists.mp h
  have hnext : m.after (n + 1) = m' := by rw [Machine.after, hm, Option.getD_some]
  rw [hnext]
  exact step_eq_some hm

/-- An instruction that ends the run leaves the machine where it is. -/
theorem after_end {m : Machine} {n : ℕ} {i : Insn} (hi : (m.after n).insn = some i)
    (hend : i.exec (m.after n) = none) : m.after (n + 1) = m.after n := by
  have hstep : (m.after n).step = none := by
    rw [Machine.step, hi, Option.bind_some, hend, Option.bind_none]
  rw [Machine.after, hstep, Option.getD_none]

section Reads

variable {m : Machine} {i : Instr} {a b : Word}
  (ha : ∀ r, i.rs1 = some r → a = m.read r) (hb : ∀ r, i.rs2 = some r → b = m.read r)
include ha hb

/-- An instruction depends on the registers it names only. -/
theorem value_reads (pc : Word) :
    i.value pc a b = i.value pc (i.operand1 m) (i.operand2 m) := by
  cases i with
  | op o rd rs1 rs2 =>
    rw [ha rs1 rfl, hb rs2 rfl]
    rfl
  | opImm o rd rs1 imm | shiftImm o rd rs1 shamt =>
    rw [ha rs1 rfl]
    rfl
  | lui | auipc | branch | load | store | jal => rfl

theorem redirects_reads : i.redirects a b = i.redirects (i.operand1 m) (i.operand2 m) := by
  cases i with
  | branch o rs1 rs2 offset =>
    rw [ha rs1 rfl, hb rs2 rfl]
    rfl
  | op | opImm | shiftImm | lui | auipc | load | store | jal => rfl

omit hb in
theorem address_reads : i.address a = i.address (i.operand1 m) := by
  cases i with
  | load o rd rs1 imm | store o rs1 rs2 imm =>
    rw [ha rs1 rfl]
    rfl
  | op | opImm | shiftImm | lui | auipc | branch | jal => rfl

end Reads

/-- An instruction that names a destination writes its result there. -/
theorem exec_regs {m : Machine} {i : Instr} {rd : Reg} (h : i.rd = some rd) :
    ∃ v, i.result m = some v ∧ (i.exec m).regs = Function.update m.regs rd v := by
  cases i with
  | branch | store => cases h
  | op | opImm | shiftImm | lui | auipc | load | jal =>
    obtain rfl := Option.some.inj h
    exact ⟨_, rfl, rfl⟩

namespace Insn

def redirects (m : Machine) : Insn → Bool
  | .base i => i.redirects (i.operand1 m) (i.operand2 m)
  | .jalr .. => true
  | .fence .. | .ecall | .ebreak => false

def address (m : Machine) : Insn → Option Word
  | .base i => i.address (i.operand1 m)
  | _ => none

def rd : Insn → Option Reg
  | .base i => i.rd
  | .jalr rd _ _ => some rd
  | .fence .. | .ecall | .ebreak => none

def link : Insn → Option Reg
  | .base (.jal rd _) | .jalr rd _ _ => some rd
  | _ => none

theorem rd_of_link {i : Insn} {rd : Reg} (h : i.link = some rd) : i.rd = some rd := by
  cases i with
  | base i =>
    cases i with
    | jal => exact h
    | op | opImm | shiftImm | lui | auipc | branch | load | store => cases h
  | jalr => exact h
  | fence | ecall | ebreak => cases h

def isFence : Insn → Bool
  | .fence .. => true
  | _ => false

def indirect : Insn → Option (Reg × BitVec 12)
  | .jalr _ rs1 offset => some (rs1, offset)
  | _ => none

end Insn

section Exec

variable {m m' : Machine} {i : Insn} (h : i.exec m = some m')
include h

theorem exec_next (hr : i.redirects m = false) : m'.pc = m.pc + 4#32 := by
  cases i with
  | base i =>
    obtain rfl := Option.some.inj h
    exact if_neg (Bool.eq_false_iff.mp hr)
  | jalr => cases hr
  | fence =>
    obtain rfl := Option.some.inj h
    rfl
  | ecall | ebreak => cases h

theorem exec_link {rd : Reg} (hl : i.link = some rd) (hz : rd ≠ 0#5) :
    m'.read rd = m.pc + 4#32 := by
  cases i with
  | base i =>
    cases i with
    | jal rd' offset =>
      obtain rfl := Option.some.inj h
      obtain rfl := Option.some.inj hl
      rw [Machine.read, if_neg hz]
      exact Function.update_self ..
    | op | opImm | shiftImm | lui | auipc | branch | load | store => cases hl
  | jalr rd' rs1 offset =>
    obtain rfl := Option.some.inj h
    obtain rfl := Option.some.inj hl
    rw [Machine.read, if_neg hz]
    exact Function.update_self ..
  | fence => cases hl
  | ecall | ebreak => cases h

theorem exec_read {r : Reg} (hr : i.rd ≠ some r) : m'.read r = m.read r := by
  suffices hregs : m'.regs r = m.regs r by rw [Machine.read, Machine.read, hregs]
  cases i with
  | base i =>
    obtain rfl := Option.some.inj h
    cases hd : i.rd with
    | none => rw [Instr.exec, hd]
    | some rd =>
      obtain ⟨v, _, hregs⟩ := exec_regs (m := m) hd
      have hne : r ≠ rd := fun he => hr (hd.trans (congrArg some he.symm))
      rw [hregs, Function.update_of_ne hne]
  | jalr rd rs1 offset =>
    obtain rfl := Option.some.inj h
    have hne : r ≠ rd := fun he => hr (congrArg some he.symm)
    exact Function.update_of_ne hne _ _
  | fence =>
    obtain rfl := Option.some.inj h
    rfl
  | ecall | ebreak => cases h

end Exec

end Rv32i
