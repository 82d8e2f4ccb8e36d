import SimulatorRISCV.PipelineSimulator
import SimulatorRISCV.ByteMemory

/-! # Data memory as byte-addressed little-endian RAM

MemoryData receives the word address ALUOut_MEM >> 2, so the two low bits of a byte address
never reach it: byte and half-word accesses always use the lanes from 0 up. -/
namespace PipelineDataMemory

open PipelineDecoder PipelineDatapath PipelineSimulator ByteMemory

abbrev Byte := BitVec 8

inductive StoreKind where
  | sb | sh | sw
  deriving DecidableEq, Repr

inductive LoadKind where
  | lb | lbu | lh | lhu | lw
  deriving DecidableEq, Repr

def StoreKind.funct3 : StoreKind → BitVec 3
  | .sb => 0b000
  | .sh => 0b001
  | .sw => 0b010

def StoreKind.size : StoreKind → ℕ
  | .sb => 1
  | .sh => 2
  | .sw => 4

def LoadKind.funct3 : LoadKind → BitVec 3
  | .lb => 0b000
  | .lbu => 0b100
  | .lh => 0b001
  | .lhu => 0b101
  | .lw => 0b010

def LoadKind.size : LoadKind → ℕ
  | .lb | .lbu => 1
  | .lh | .lhu => 2
  | .lw => 4

/-- A naturally aligned store address below 2^19. -/
structure AlignedStore where
  kind : StoreKind
  addr : Word
  aligned : addr.toNat % kind.size = 0
  inRange : addr.toNat < 2 ^ 19

structure AlignedLoad where
  kind : LoadKind
  addr : Word
  aligned : addr.toNat % kind.size = 0
  inRange : addr.toNat < 2 ^ 19

/-- The memory stage with a store or a load in it. -/
def presentStore (mem : MemArray) (p : AlignedStore) (data : Word) : MemArray :=
  memoryDataWrite mem (p.addr >>> 2) p.kind.funct3 true data

def presentLoad (mem : MemArray) (l : AlignedLoad) : Word :=
  memoryDataRead mem (l.addr >>> 2) l.kind.funct3

def presentStores (mem : MemArray) (ops : List (AlignedStore × Word)) : MemArray :=
  ops.foldl (fun m op => presentStore m op.1 op.2) mem

/-- A clock with a store of the pattern in MEM presents it to the memory. -/
theorem clockCycle_presents {x : XValues} {imem : MemArray} {rst : Bool} {s : State}
    {p : AlignedStore} (hw : s.memFlags.memWrite = true) (ha : s.memValues.aluOut = p.addr)
    (hk : s.memFlags.memWidth = p.kind.funct3) :
    (clockCycle x imem rst s).dmem = presentStore s.dmem p s.memValues.memWriteData := by
  rw [clockCycle_dmem, hw, ha, hk]
  rfl

theorem readDataMEM_presents {s : State} {l : AlignedLoad} (ha : s.memValues.aluOut = l.addr)
    (hk : s.memFlags.memWidth = l.kind.funct3) : s.readDataMEM = presentLoad s.dmem l := by
  rw [State.readDataMEM, ha, hk]
  rfl

def lane (word : Word) (j : ℕ) : Byte := word.extractLsb' (8 * j) 8

def bytesOf (mem : MemArray) (a : ℕ) : Byte := lane (mem (BitVec.ofNat 17 (a / 4))) (a % 4)

def storeOf (op : AlignedStore × Word) : Store Byte :=
  ⟨op.1.addr.toNat, op.1.kind.size, lane op.2⟩

/-- The sign- or zero-extended little-endian combination of the addressed bytes. -/
def loadBytes (m : ℕ → Byte) (kind : LoadKind) (a : ℕ) : Word :=
  match kind with
  | .lb => (m a).signExtend 32
  | .lbu => (m a).setWidth 32
  | .lh => (m (a + 1) ++ m a).signExtend 32
  | .lhu => (m (a + 1) ++ m a).setWidth 32
  | .lw => m (a + 3) ++ (m (a + 2) ++ (m (a + 1) ++ m a))

/-- Byte-addressed RAM on an access pattern: whatever the initial content and the stored
data, the load combines the bytes stored last, and no store changes a byte outside its own. -/
def IsByteRam (stores : List AlignedStore) (l : AlignedLoad) : Prop :=
  ∀ (initial : MemArray) (ops : List (AlignedStore × Word)), ops.map Prod.fst = stores →
    presentLoad (presentStores initial ops) l =
      loadBytes (lastStored (ops.map storeOf) (bytesOf initial)) l.kind l.addr.toNat ∧
    ∀ pre op post, ops = pre ++ op :: post → ∀ a < 2 ^ 19, ¬ (storeOf op).Covers a →
      bytesOf (presentStore (presentStores initial pre) op.1 op.2) a =
        bytesOf (presentStores initial pre) a

theorem lane_bit (word : Word) (j i : ℕ) :
    (lane word j).getLsbD i = (decide (i < 8) && word.getLsbD (8 * j + i)) := by
  simp [lane]

theorem mergeLanes_bit (k : StoreKind) (wd word : Word) {i : ℕ} (hi : i < 32) :
    (mergeLanes k.funct3 wd word).getLsbD i =
      if i < 8 * k.size then wd.getLsbD i else word.getLsbD i := by
  cases k with
  | sb => simp [mergeLanes, StoreKind.funct3, StoreKind.size]; split_ifs <;> grind
  | sh => simp [mergeLanes, StoreKind.funct3, StoreKind.size]; split_ifs <;> grind
  | sw => simp [mergeLanes, StoreKind.funct3, StoreKind.size]; grind

theorem lane_merge (k : StoreKind) (wd word : Word) {j : ℕ} (hj : j < 4) :
    lane (mergeLanes k.funct3 wd word) j =
      if j < k.size then lane wd j else lane word j := by
  apply BitVec.eq_of_getLsbD_eq
  intro i hi
  rw [lane_bit, mergeLanes_bit k wd word (by omega)]
  split_ifs <;> first | omega | simp [lane_bit]

/-- A read whose address is a multiple of four combines the addressed bytes. -/
theorem readWidth_lanes (k : LoadKind) (word : Word) {m : ℕ → Byte} {a : ℕ}
    (hm : ∀ j < 4, m (a + j) = lane word j) : readWidth k.funct3 word = loadBytes m k a := by
  have h0 : m a = lane word 0 := hm 0 (by decide)
  have h1 := hm 1 (by decide)
  have h2 := hm 2 (by decide)
  have h3 := hm 3 (by decide)
  apply BitVec.eq_of_getLsbD_eq
  intro i hi
  cases k with
  | lb =>
    simp [readWidth, loadBytes, LoadKind.funct3, readB, h0, lane]
    grind
  | lbu => simp [readWidth, loadBytes, LoadKind.funct3, readB, h0, lane]; grind
  | lh =>
    simp [readWidth, loadBytes, LoadKind.funct3, readH, h0, h1, lane]
    grind
  | lhu => simp [readWidth, loadBytes, LoadKind.funct3, readH, h0, h1, lane]; grind
  | lw => simp [readWidth, loadBytes, LoadKind.funct3, h0, h1, h2, h3, lane]; grind

theorem memIndex_shift {a : Word} : memIndex (a >>> 2) = BitVec.ofNat 17 (a.toNat / 4) := by
  refine BitVec.eq_of_toNat_eq ?_
  simp [memIndex, Nat.shiftRight_eq_div_pow]

theorem index_inj {m n : ℕ} (hm : m < 2 ^ 17) (hn : n < 2 ^ 17) :
    BitVec.ofNat 17 m = BitVec.ofNat 17 n ↔ m = n := by
  constructor
  · intro h
    have hmod : m % 131072 = n % 131072 := by simpa using congrArg BitVec.toNat h
    omega
  · intro h
    rw [h]

theorem StoreKind.size_le (k : StoreKind) : 0 < k.size ∧ k.size ≤ 4 := by
  cases k <;> decide

theorem bytesOf_update {mem : MemArray} {i a : ℕ} (word : Word) (hi : i < 2 ^ 17)
    (ha : a < 2 ^ 19) : bytesOf (Function.update mem (BitVec.ofNat 17 i) word) a =
      if a / 4 = i then lane word (a % 4) else bytesOf mem a := by
  unfold bytesOf
  split_ifs with h
  · rw [h, Function.update_self]
  · rw [Function.update_of_ne fun he => h ((index_inj (by omega) hi).mp he)]

/-- A store at a multiple of four is the byte-addressed store. -/
theorem bytesOf_presentStore {mem : MemArray} {p : AlignedStore} {data : Word}
    (hp : p.addr.toNat % 4 = 0) {a : ℕ} (ha : a < 2 ^ 19) :
    bytesOf (presentStore mem p data) a = (storeOf (p, data)).apply (bytesOf mem) a := by
  have hs := p.kind.size_le
  have hr := p.inRange
  have hj : a % 4 < 4 := Nat.mod_lt _ (by decide)
  rw [presentStore, memoryDataWrite, if_pos rfl, storeWord, memIndex_shift,
    bytesOf_update _ (by omega) ha, lane_merge _ _ _ hj]
  by_cases hc : (storeOf (p, data)).Covers a
  · have hlo : p.addr.toNat ≤ a := hc.1
    have hhi : a < p.addr.toNat + p.kind.size := hc.2
    have hq : a / 4 = p.addr.toNat / 4 := by omega
    have hm : a % 4 = a - p.addr.toNat := by omega
    rw [if_pos hq, if_pos (by omega), hm, Store.apply, if_pos hc]
    rfl
  · have hout : ¬(p.addr.toNat ≤ a ∧ a < p.addr.toNat + p.kind.size) := hc
    rw [apply_frame hc]
    split_ifs with hq hm
    · omega
    · rw [bytesOf, hq]
    · rfl

theorem presentStores_snoc (mem : MemArray) (ops : List (AlignedStore × Word))
    (op : AlignedStore × Word) : presentStores mem (ops ++ [op]) =
      presentStore (presentStores mem ops) op.1 op.2 := List.foldl_concat ..

theorem presentStores_bytes (initial : MemArray) {ops : List (AlignedStore × Word)}
    (h : ∀ op ∈ ops, op.1.addr.toNat % 4 = 0) {a : ℕ} (ha : a < 2 ^ 19) :
    bytesOf (presentStores initial ops) a =
      lastStored (ops.map storeOf) (bytesOf initial) a := by
  rw [← replay_eq_lastStored]
  induction ops using List.reverseRecOn with
  | nil => rfl
  | append_singleton ops op ih =>
    have hop := h op (by simp)
    rw [presentStores_snoc, bytesOf_presentStore hop ha, List.map_append, List.map_singleton,
      replay_snoc, Store.apply, Store.apply, ih fun q hq => h q (by simp [hq])]

theorem presentLoad_bytes {mem : MemArray} {m : ℕ → Byte} {l : AlignedLoad}
    (hl : l.addr.toNat % 4 = 0) (hm : ∀ a < 2 ^ 19, bytesOf mem a = m a) :
    presentLoad mem l = loadBytes m l.kind l.addr.toNat := by
  have hr := l.inRange
  rw [presentLoad, memoryDataRead, memIndex_shift]
  apply readWidth_lanes l.kind
  intro j hj
  have hq : (l.addr.toNat + j) / 4 = l.addr.toNat / 4 := by omega
  have hmod : (l.addr.toNat + j) % 4 = j := by omega
  rw [← hm _ (by omega), bytesOf, hq, hmod]

theorem lane_zero (j : ℕ) : lane 0#32 j = 0#8 := by simp [lane]

theorem mergeLanes_self (k : StoreKind) (word : Word) : mergeLanes k.funct3 word word = word := by
  apply BitVec.eq_of_getLsbD_eq
  intro i hi
  rw [mergeLanes_bit k word word hi, ite_self]

/-- Storing a word over itself leaves a constant memory as it is. -/
theorem presentStores_const (word : Word) (stores : List AlignedStore) :
    presentStores (fun _ => word) (stores.map (·, word)) = fun _ => word := by
  induction stores using List.reverseRecOn with
  | nil => rfl
  | append_singleton ps p ih =>
    rw [List.map_append, List.map_singleton, presentStores_snoc, ih, presentStore,
      memoryDataWrite, if_pos rfl, storeWord, mergeLanes_self]
    exact Function.update_eq_self _ _

theorem not_ram_of_store {stores : List AlignedStore} {l : AlignedLoad} {p : AlignedStore}
    (hp : p ∈ stores) (hb : p.addr.toNat % 4 ≠ 0) : ¬ IsByteRam stores l := by
  -- In a cleared memory the store of all ones also sets the lowest byte of its word.
  intro h
  obtain ⟨pre, post, rfl⟩ := List.append_of_mem hp
  have hs := p.kind.size_le
  have hr := p.inRange
  have hout : ¬(storeOf (p, BitVec.allOnes 32)).Covers (4 * (p.addr.toNat / 4)) := by
    intro hc
    have hlo : p.addr.toNat ≤ 4 * (p.addr.toNat / 4) := hc.1
    omega
  have hframe : bytesOf (presentStore (presentStores (fun _ => 0#32) (pre.map (·, 0#32))) p
      (BitVec.allOnes 32)) (4 * (p.addr.toNat / 4)) = _ :=
    (h (fun _ => 0#32) (pre.map (·, 0#32) ++ (p, BitVec.allOnes 32) :: post.map (·, 0#32))
      (by simp [Function.comp_def])).2 _ _ _ rfl _ (by omega) hout
  rw [presentStores_const, presentStore, memoryDataWrite, if_pos rfl, storeWord,
    memIndex_shift, bytesOf_update _ (by omega) (by omega), if_pos (by omega),
    lane_merge _ _ _ (by omega), if_pos (by omega), Nat.mul_mod_right, bytesOf, lane_zero]
    at hframe
  exact absurd hframe (by decide)

/-- A memory in which each byte is its own offset in the word. -/
def offsetsWord : Word := 0x03020100#32

theorem load_offset_ne {l : AlignedLoad} (hb : l.addr.toNat % 4 ≠ 0) {m : ℕ → Byte}
    (hm : ∀ a < 2 ^ 19, m a = lane offsetsWord (a % 4)) :
    presentLoad (fun _ => offsetsWord) l ≠ loadBytes m l.kind l.addr.toNat := by
  have hr := l.inRange
  have hal := l.aligned
  change readWidth l.kind.funct3 offsetsWord ≠ _
  cases hk : l.kind with
  | lb | lbu =>
    have ho : l.addr.toNat % 4 = 1 ∨ l.addr.toNat % 4 = 2 ∨ l.addr.toNat % 4 = 3 := by omega
    rcases ho with ho | ho | ho <;> simp only [loadBytes, hm _ hr, ho] <;> decide
  | lh | lhu =>
    rw [hk, LoadKind.size] at hal
    have ho : l.addr.toNat % 4 = 2 := by omega
    have ho' : (l.addr.toNat + 1) % 4 = 3 := by omega
    simp only [loadBytes, hm _ hr, hm (l.addr.toNat + 1) (by omega), ho, ho']
    decide
  | lw =>
    rw [hk, LoadKind.size] at hal
    exact absurd hal hb

theorem not_ram_of_load {stores : List AlignedStore} {l : AlignedLoad}
    (hs : ∀ p ∈ stores, p.addr.toNat % 4 = 0) (hb : l.addr.toNat % 4 ≠ 0) :
    ¬ IsByteRam stores l := by
  intro h
  have hmem : ∀ op ∈ stores.map (·, offsetsWord), op.1.addr.toNat % 4 = 0 := by
    simpa using hs
  have hread := (h (fun _ => offsetsWord) (stores.map (·, offsetsWord))
    (by simp [Function.comp_def])).1
  rw [presentStores_const] at hread
  apply load_offset_ne hb _ hread
  intro a ha
  rw [← presentStores_bytes _ hmem ha, presentStores_const]
  rfl

/-- The data memory is byte-addressed RAM on an access pattern exactly when every access
of it is at a multiple of four. -/
theorem isByteRam_iff (stores : List AlignedStore) (l : AlignedLoad) :
    IsByteRam stores l ↔
      (∀ p ∈ stores, p.addr.toNat % 4 = 0) ∧ l.addr.toNat % 4 = 0 := by
  constructor
  · intro h
    have hs : ∀ p ∈ stores, p.addr.toNat % 4 = 0 := fun p hp =>
      by_contra fun hb => not_ram_of_store hp hb h
    exact ⟨hs, by_contra fun hb => not_ram_of_load hs hb h⟩
  · rintro ⟨hs, hl⟩ initial ops rfl
    have hops : ∀ op ∈ ops, op.1.addr.toNat % 4 = 0 := fun op hop =>
      hs op.1 (List.mem_map_of_mem hop)
    refine ⟨presentLoad_bytes hl fun a ha => presentStores_bytes initial hops ha, ?_⟩
    rintro pre op post rfl a ha hc
    rw [bytesOf_presentStore (hops op (by simp)) ha]
    exact apply_frame hc _

/-- SB of 0xAA at address 1 of a cleared memory, then LW at address 0. -/
def byteStoreAtOne : AlignedStore := ⟨.sb, 1#32, by decide, by decide⟩
def wordLoadAtZero : AlignedLoad := ⟨.lw, 0#32, by decide, by decide⟩

theorem byte_store_misplaced :
    presentLoad (presentStores (fun _ => 0#32) [(byteStoreAtOne, 0xAA#32)]) wordLoadAtZero =
      0x000000AA#32 ∧
    loadBytes (lastStored [storeOf (byteStoreAtOne, 0xAA#32)] (bytesOf fun _ => 0#32))
      wordLoadAtZero.kind wordLoadAtZero.addr.toNat = 0x0000AA00#32 ∧
    ¬ IsByteRam [byteStoreAtOne] wordLoadAtZero := by
  refine ⟨by decide +kernel, by decide +kernel, fun h => ?_⟩
  have hread := (h (fun _ => 0#32) [(byteStoreAtOne, 0xAA#32)] rfl).1
  exact absurd hread (by decide +kernel)

end PipelineDataMemory
