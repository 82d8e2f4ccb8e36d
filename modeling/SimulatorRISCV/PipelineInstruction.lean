import SimulatorRISCV.PipelineSemantics
import SimulatorRISCV.PipelineLinks
import SimulatorRISCV.PipelineDataMemory
import SimulatorRISCV.Rv32iMachine

/-! # One instruction against RV32I

A word of the pipeline and the instruction it encodes, on the same registers and data memory,
have the same effect: an instruction that computes, an access that MemoryData serves and a
jump whose link is added. -/
namespace PipelineInstruction

open PipelineDecoder PipelineDatapath PipelineSimulator PipelineForwarding PipelineArchitecture
open PipelineSemantics PipelineDataMemory PipelineLinks
open Rv32i (Insn Instr LoadOp StoreOp encode)

/-- MemoryData keeps the bits 2 to 18 of an address. For each of its words this says which
upper bits a program uses with it. -/
abbrev Pages := BitVec 17 → BitVec 13

def cell (page : Pages) (k : ℕ) : Word :=
  BitVec.ofNat 32 ((page (BitVec.ofNat 17 (k / 4))).toNat * 2 ^ 19 + k)

/-- The registers and the data memory are those of the RV32I machine. -/
structure Shows (page : Pages) (m : Rv32i.Machine) (a : Arch) : Prop where
  read : ∀ r, registerRead a.registers r = m.read r
  mem : ∀ k < 2 ^ 19, bytesOf a.dmem k = m.mem (cell page k)

variable {page : Pages} {m m' : Rv32i.Machine} {a : Arch}

theorem read_write {regs : RegBank} (hr : ∀ r, registerRead regs r = m.read r)
    {rd : RegNum} {v v' : Word} (hv : rd ≠ 0#5 → v = v')
    (hm : m'.regs = Function.update m.regs rd v') (r : RegNum) :
    registerRead (registerWrite regs true rd v) r = m'.read r := by
  by_cases hz : r = 0#5
  · rw [hz]
    rfl
  · have hold := hr r
    rw [registerRead_of_ne _ hz, Rv32i.Machine.read, if_neg hz] at hold
    rw [registerRead_write _ _ _ hz, Rv32i.Machine.read, if_neg hz, hm]
    by_cases hd : rd = r
    · subst hd
      rw [if_pos ⟨rfl, rfl⟩, Function.update_self, hv hz]
    · rw [if_neg fun h => hd h.2, Function.update_of_ne (Ne.symm hd), hold]

def loadKind : LoadOp → LoadKind
  | .lb => .lb
  | .lh => .lh
  | .lw => .lw
  | .lbu => .lbu
  | .lhu => .lhu

def storeKind : StoreOp → StoreKind
  | .sb => .sb
  | .sh => .sh
  | .sw => .sw

/-- An access that MemoryData serves as byte-addressed memory does: at a multiple of four, and
with the upper bits that the program uses for the word. -/
def Accessible (page : Pages) (addr : Word) : Prop :=
  addr.toNat % 4 = 0 ∧ cell page (addr.toNat % 2 ^ 19) = addr

instance (page : Pages) (addr : Word) : Decidable (Accessible page addr) :=
  inferInstanceAs (Decidable (_ ∧ _))

theorem cell_mod (page : Pages) {k : ℕ} (hk : k < 2 ^ 19) :
    (cell page k).toNat % 2 ^ 19 = k := by
  have hp := (page (BitVec.ofNat 17 (k / 4))).isLt
  rw [cell, BitVec.toNat_ofNat]
  omega

theorem cell_add (page : Pages) {q j : ℕ} (hq : q % 4 = 0) (hj : j < 4) :
    cell page (q + j) = cell page q + BitVec.ofNat 32 j := by
  have hdiv : (q + j) / 4 = q / 4 := by omega
  rw [cell, cell, hdiv, ← BitVec.ofNat_add, Nat.add_assoc]

section Access

variable {addr : Word} (ha : Accessible page addr)
include ha

theorem accessible_low : (addr.toNat % 2 ^ 19) % 4 = 0 ∧ addr.toNat % 2 ^ 19 < 2 ^ 19 ∧
    ∀ j < 4, cell page (addr.toNat % 2 ^ 19 + j) = addr + BitVec.ofNat 32 j := by
  have hal : (addr.toNat % 2 ^ 19) % 4 = 0 := by
    have := ha.1
    omega
  refine ⟨hal, Nat.mod_lt _ (by decide), fun j hj => ?_⟩
  rw [cell_add page hal hj, ha.2]

theorem accessible_covers {k size : ℕ} (hk : k < 2 ^ 19) (hsize : size ≤ 4) :
    (cell page k - addr).toNat < size ↔
      addr.toNat % 2 ^ 19 ≤ k ∧ k < addr.toNat % 2 ^ 19 + size := by
  obtain ⟨hal, hlow, hcell⟩ := accessible_low ha
  constructor
  · intro hd
    have hsub : cell page k =
        cell page (addr.toNat % 2 ^ 19 + (cell page k - addr).toNat) := by
      rw [hcell _ (by omega), BitVec.ofNat_toNat, BitVec.setWidth_eq, BitVec.add_comm,
        BitVec.sub_add_cancel]
    have hmod := congrArg (fun w => w.toNat % 2 ^ 19) hsub
    rw [cell_mod page hk, cell_mod page (by omega)] at hmod
    omega
  · rintro ⟨hlo, hhi⟩
    obtain ⟨j, rfl⟩ := Nat.exists_eq_add_of_le hlo
    rw [hcell j (by omega), BitVec.add_comm, BitVec.add_sub_cancel, BitVec.toNat_ofNat]
    omega

theorem accessible_offset {k : ℕ} (hlo : addr.toNat % 2 ^ 19 ≤ k)
    (hhi : k < addr.toNat % 2 ^ 19 + 4) :
    (cell page k - addr).toNat = k - addr.toNat % 2 ^ 19 := by
  obtain ⟨_, _, hcell⟩ := accessible_low ha
  obtain ⟨j, rfl⟩ := Nat.exists_eq_add_of_le hlo
  rw [hcell j (by omega), BitVec.add_comm, BitVec.add_sub_cancel, BitVec.toNat_ofNat]
  omega

end Access

/-- The address without the bits that MemoryData drops. -/
def lowAddress (addr : Word) : Word := BitVec.ofNat 32 (addr.toNat % 2 ^ 19)

theorem lowAddress_toNat (addr : Word) : (lowAddress addr).toNat = addr.toNat % 2 ^ 19 := by
  rw [lowAddress, BitVec.toNat_ofNat]
  omega

theorem memIndex_low (addr : Word) : memIndex (addr >>> 2) = memIndex (lowAddress addr >>> 2) := by
  rw [memIndex_shift, memIndex_shift, lowAddress_toNat]
  apply BitVec.eq_of_toNat_eq
  rw [BitVec.toNat_ofNat, BitVec.toNat_ofNat]
  omega

theorem loadBytes_word (mem : Word → Byte) (o : LoadOp) {addr : Word}
    (ha : Accessible page addr) :
    loadBytes (fun k => mem (cell page k)) (loadKind o) (addr.toNat % 2 ^ 19) =
      o.load mem addr := by
  obtain ⟨_, _, hcell⟩ := accessible_low ha
  have h1 := hcell 1 (by decide)
  have h2 := hcell 2 (by decide)
  have h3 := hcell 3 (by decide)
  cases o <;> simp only [loadKind, loadBytes, h1, h2, h3, ha.2] <;> rfl

theorem loaded (hs : Shows page m a) (o : LoadOp) {addr : Word} (ha : Accessible page addr) :
    memoryDataRead a.dmem (addr >>> 2) o.funct3 = o.load m.mem addr := by
  obtain ⟨hal, hlow, _⟩ := accessible_low ha
  rw [← lowAddress_toNat] at hal hlow
  have hsize : (lowAddress addr).toNat % (loadKind o).size = 0 := by
    cases o <;> simp only [loadKind, LoadKind.size] <;> omega
  have hfunct : o.funct3 = (loadKind o).funct3 := by cases o <;> rfl
  have hread : memoryDataRead a.dmem (addr >>> 2) o.funct3 =
      presentLoad a.dmem ⟨loadKind o, lowAddress addr, hsize, hlow⟩ := by
    rw [presentLoad, memoryDataRead, memoryDataRead, memIndex_low, hfunct]
  rw [hread, presentLoad_bytes hal hs.mem, lowAddress_toNat]
  exact loadBytes_word m.mem o ha

theorem stored (hs : Shows page m a) (o : StoreOp) {addr : Word} (ha : Accessible page addr)
    (v : Word) {k : ℕ} (hk : k < 2 ^ 19) :
    bytesOf (memoryDataWrite a.dmem (addr >>> 2) o.funct3 true v) k =
      o.store m.mem addr v (cell page k) := by
  obtain ⟨hal, hlow, _⟩ := accessible_low ha
  rw [← lowAddress_toNat] at hal hlow
  have hsize : (lowAddress addr).toNat % (storeKind o).size = 0 := by
    cases o <;> simp only [storeKind, StoreKind.size] <;> omega
  have hbound : o.size = (storeKind o).size ∧ o.size ≤ 4 := by cases o <;> decide
  have hfunct : o.funct3 = (storeKind o).funct3 := by cases o <;> rfl
  have hwrite : memoryDataWrite a.dmem (addr >>> 2) o.funct3 true v =
      presentStore a.dmem ⟨storeKind o, lowAddress addr, hsize, hlow⟩ v := by
    rw [presentStore, memoryDataWrite, memoryDataWrite, storeWord, storeWord, memIndex_low, hfunct]
  rw [hwrite, bytesOf_presentStore hal hk]
  unfold ByteMemory.Store.apply Rv32i.StoreOp.store
  rw [hs.mem k hk]
  have hcovers := accessible_covers ha hk hbound.2
  rw [hbound.1, ← lowAddress_toNat] at hcovers
  by_cases hc : (storeOf (⟨storeKind o, lowAddress addr, hsize, hlow⟩, v)).Covers k
  · have hoff := accessible_offset ha (k := k) (by rw [← lowAddress_toNat]; exact hc.1)
      (by have : k < (lowAddress addr).toNat + (storeKind o).size := hc.2
          rw [← lowAddress_toNat]
          omega)
    rw [if_pos hc, if_pos (by rw [hbound.1]; exact hcovers.mpr hc), hoff, ← lowAddress_toNat]
    rfl
  · rw [if_neg hc, if_neg (by rw [hbound.1]; exact fun h => hc (hcovers.mp h))]

theorem accessible_zero (page : Pages) : Accessible page (cell page 0) := by
  have hmod := cell_mod page (k := 0) (by decide)
  refine ⟨by omega, ?_⟩
  rw [hmod]

/-- Address zero and the first byte of the data memory are the same to MemoryData. -/
theorem stored_zero (hs : Shows page m a) (v : Word) {k : ℕ} (hk : k < 2 ^ 19) :
    bytesOf (memoryDataWrite a.dmem (0#32 >>> 2) StoreOp.sb.funct3 true v) k =
      StoreOp.sb.store m.mem (cell page 0) v (cell page k) := by
  have hlow : lowAddress (cell page 0) = 0#32 := by
    rw [lowAddress, cell_mod page (by decide)]
  have hindex := memIndex_low (cell page 0)
  rw [hlow] at hindex
  rw [← stored hs .sb (accessible_zero page) v hk, memoryDataWrite, memoryDataWrite, storeWord,
    storeWord, hindex]

section Execute

variable (x : XValues) (held : ControlSignals) (i : Instr)

theorem kind_ne_other : opcode (encode i) ≠ .other := by
  rw [opcode_encode]
  intro ho
  cases i <;> cases ho

theorem control_regWrite : (decodeControl x (encode i) held).regWrite = i.rd.isSome := by
  rw [decodeControl_regWrite x held (kind_ne_other i), opcode_encode]
  cases i <;> rfl

theorem control_memToReg :
    (decodeControl x (encode i) held).memToReg = decide (kind i = .load) := by
  rw [decodeControl_memToReg x held (kind_ne_other i), opcode_encode]

theorem control_memWrite :
    (decodeControl x (encode i) held).memWrite = decide (kind i = .store) := by
  rw [decodeControl_memWrite x held (kind_ne_other i), opcode_encode]

theorem stage_implements (m : Rv32i.Machine) (a : Arch) : Implements i m.pc m.pc
    (registerRead a.registers (rs1Id (encode i))) (registerRead a.registers (rs2Id (encode i)))
    (executeStage x held 0#32 (encode i) m.pc m.pc (registerRead a.registers (rs1Id (encode i)))
      (registerRead a.registers (rs2Id (encode i)))) := implements_encode _ _ _ _ _ _ _ i

theorem aluValue_jump {w : Word} (hj : IsJump w) (pc : Word) (a : Arch) :
    aluValue (decodeControl x w held) pc w a = alu pc 4#32 held.aluOp 0#32 := by
  rcases hj with ho | ho
  · simp only [aluValue, operand1, operand2, decodeControl, controlUnit, ho]
    rfl
  · simp only [aluValue, operand1, operand2, decodeControl, controlUnit, ho]
    rfl

theorem isJump_jal (rd : Rv32i.Reg) (offset : BitVec 20) : IsJump (encode (.jal rd offset)) :=
  Or.inl (opcode_encode (.jal rd offset))

theorem relative_encode (i : Instr) {u v : Word} (hr : i.redirects u v = true) :
    (decodeControl x (encode i) held).typeInstruction = 0b01#2 := by
  have ho := opcode_encode i
  cases i with
  | branch | jal =>
    simp only [decodeControl, controlUnit, ho, kind]
    rfl
  | op | opImm | shiftImm | lui | auipc | load | store => cases hr

variable {i} (hs : Shows page m a)
include hs

theorem source1_read (r : Rv32i.Reg) (hr : i.rs1 = some r) :
    registerRead a.registers (rs1Id (encode i)) = m.read r := by
  rw [(registers_encode i).2.1 r hr, hs.read]

theorem source2_read (r : Rv32i.Reg) (hr : i.rs2 = some r) :
    registerRead a.registers (rs2Id (encode i)) = m.read r := by
  rw [(registers_encode i).2.2 r hr, hs.read]

theorem aluValue_value {v : Word} (hv : i.value m.pc (i.operand1 m) (i.operand2 m) = some v) :
    aluValue (decodeControl x (encode i) held) m.pc (encode i) a = v := by
  rw [← Rv32i.value_reads (source1_read hs) (source2_read hs)] at hv
  exact (stage_implements x held i m a).value v hv

theorem aluValue_address {addr : Word} (ha : i.address (i.operand1 m) = some addr) :
    aluValue (decodeControl x (encode i) held) m.pc (encode i) a = addr := by
  rw [← Rv32i.address_reads (source1_read hs)] at ha
  exact (stage_implements x held i m a).address addr ha

theorem redirects_encode : redirects (decodeControl x (encode i) held) m.pc (encode i) a =
    i.redirects (i.operand1 m) (i.operand2 m) := by
  rw [← Rv32i.redirects_reads (source1_read hs) (source2_read hs)]
  exact (stage_implements x held i m a).taken

theorem target_encode (hr : i.redirects (i.operand1 m) (i.operand2 m) = true) (v : Word) :
    (if (decodeControl x (encode i) held).typeInstruction = 0b01#2 then
      m.pc + calcImmediate (encode i) else v) = i.target m.pc := by
  have himp := stage_implements x held i m a
  have htype := relative_encode x held i hr
  rw [← Rv32i.redirects_reads (source1_read hs) (source2_read hs)] at hr
  have hnext := himp.nextPc
  change pcCounter true (if (executeStage x held 0#32 (encode i) m.pc m.pc _ _).taken then
    (decodeControl x (encode i) held).typeInstruction else 0b00#2) _ _ _ _ = _ at hnext
  rw [himp.taken, hr, if_pos rfl, if_pos rfl, htype] at hnext
  rw [if_pos htype]
  exact hnext

theorem writeBack_result (hacc : ∀ addr ∈ i.address (i.operand1 m), Accessible page addr)
    {rd : Rv32i.Reg} (hrd : i.rd = some rd)
    (hlink : kind i = .jal → rd ≠ 0#5 → alu m.pc 4#32 held.aluOp 0#32 = m.pc + 4#32)
    {v : Word} (hv : i.result m = some v) (hz : rd ≠ 0#5) :
    writeBack (decodeControl x (encode i) held) m.pc (encode i) a = v := by
  rw [writeBack, control_memToReg]
  cases i with
  | load o rd rs1 imm =>
    have haddr := aluValue_address x held hs (i := .load o rd rs1 imm) rfl
    have hwidth : memWidth (encode (.load o rd rs1 imm)) = o.funct3 := funct3_iFormat ..
    have hkind : decide (kind (.load o rd rs1 imm) = .load) = true := rfl
    rw [hkind, if_pos rfl, haddr, hwidth, loaded hs o (hacc _ rfl)]
    exact Option.some.inj hv
  | jal rd offset =>
    obtain rfl : rd = _ := Option.some.inj hrd
    rw [if_neg (by simp [kind]), aluValue_jump x held (isJump_jal rd offset), hlink rfl hz]
    exact Option.some.inj hv
  | op | opImm | shiftImm | lui | auipc =>
    rw [if_neg (by simp [kind])]
    exact aluValue_value x held hs hv
  | branch | store => cases hrd

theorem execute_mem (hacc : ∀ addr ∈ i.address (i.operand1 m), Accessible page addr) {k : ℕ}
    (hk : k < 2 ^ 19) :
    bytesOf (execute (decodeControl x (encode i) held) m.pc (encode i) a).dmem k =
      (i.exec m).mem (cell page k) := by
  rw [execute, control_memWrite]
  cases i with
  | store o rs1 rs2 imm =>
    have haddr := aluValue_address x held hs (i := .store o rs1 rs2 imm) rfl
    have hwidth : memWidth (encode (.store o rs1 rs2 imm)) = o.funct3 := funct3_rFormat ..
    have hkind : decide (kind (.store o rs1 rs2 imm) = .store) = true := rfl
    rw [hkind, haddr, hwidth, source2_read hs rs2 rfl]
    exact stored hs o (hacc _ rfl) _ hk
  | op | opImm | shiftImm | lui | auipc | branch | load | jal => exact hs.mem k hk

theorem execute_shows (hacc : ∀ addr ∈ i.address (i.operand1 m), Accessible page addr)
    (hlink : ∀ rd, i.rd = some rd → kind i = .jal → rd ≠ 0#5 →
      alu m.pc 4#32 held.aluOp 0#32 = m.pc + 4#32) :
    Shows page (i.exec m) (execute (decodeControl x (encode i) held) m.pc (encode i) a) := by
  refine ⟨?_, fun k hk => execute_mem x held hs hacc hk⟩
  rw [execute, control_regWrite]
  cases hrd : i.rd with
  | none =>
    have hregs : (i.exec m).regs = m.regs := by rw [Instr.exec, hrd]
    intro r
    rw [Rv32i.Machine.read, hregs]
    exact hs.read r
  | some rd =>
    obtain ⟨v, hv, hregs⟩ := Rv32i.exec_regs (m := m) hrd
    rw [Option.isSome_some, (registers_encode i).1 rd hrd]
    exact read_write hs.read (writeBack_result x held hs hacc hrd (hlink rd hrd) hv) hregs

end Execute

section Jalr

variable (x : XValues) (held : ControlSignals) (rd rs1 : Rv32i.Reg) (offset : BitVec 12)

theorem opcode_jalr : opcode (Insn.jalr rd rs1 offset).encode = .jalr :=
  congrArg classify (opcodeBits_iFormat ..)

theorem opcode_fence (order : BitVec 12) : opcode (Insn.fence rd rs1 order).encode = .other :=
  congrArg classify (opcodeBits_iFormat ..)

theorem calcImmediate_jalr :
    calcImmediate (Insn.jalr rd rs1 offset).encode = offset.signExtend 32 := by
  rw [calcImmediate, opcode_jalr]
  exact iImm32_iFormat ..

theorem jalr_shows (hs : Shows page m a)
    (hlink : rd ≠ 0#5 → alu m.pc 4#32 held.aluOp 0#32 = m.pc + 4#32) :
    Shows page (m.jalr rd rs1 offset)
      (execute (decodeControl x (Insn.jalr rd rs1 offset).encode held) m.pc
        (Insn.jalr rd rs1 offset).encode a) := by
  have ho := opcode_jalr rd rs1 offset
  have hother : opcode (Insn.jalr rd rs1 offset).encode ≠ .other := by
    rw [ho]
    decide
  have hrd : rdId (Insn.jalr rd rs1 offset).encode = rd := rdId_iFormat ..
  have hreg := decodeControl_regWrite x held hother
  have hload := decodeControl_memToReg x held hother
  have hstore := decodeControl_memWrite x held hother
  rw [ho] at hreg hload hstore
  rw [execute, writeBack, hreg, hload, hstore, aluValue_jump x held (Or.inr ho), hrd]
  exact ⟨read_write hs.read hlink rfl, hs.mem⟩

end Jalr

end PipelineInstruction
