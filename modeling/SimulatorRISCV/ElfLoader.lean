import SimulatorRISCV.PipelineDataMemory
import SimulatorRISCV.PipelineIssue

/-! # Loading an ELF image: readELFFile and the segment loop of main.cpp

The loop copies file bytes to the host memory behind imem's mem_buff, 2^17 words of 32 bits
on a little-endian host. Host addresses are offsets from mem_buff and may lie behind its end. -/
namespace ElfLoader

open PipelineDecoder PipelineDatapath PipelineSimulator PipelineIssue PipelineDataMemory
open ByteMemory

def ptLoad : BitVec 32 := 1
def elfClass32 : BitVec 8 := 1
def elfData2Lsb : BitVec 8 := 1

def bufferSize : ℕ := 2 ^ 19

/-- A program header as ELFIO returns it: `data` holds the get_file_size() bytes at
get_data(). -/
structure Segment where
  type : BitVec 32
  virtualAddress : BitVec 32
  data : List Byte

def Segment.fileSize (s : Segment) : ℕ := s.data.length

structure ElfFile where
  elfClass : BitVec 8
  encoding : BitVec 8
  entry : Word
  segments : List Segment
  /-- What segments.size() returns, an Elf_Half: the number of headers ELFIO has read. -/
  size : BitVec 16
  count : segments.length = size.toNat

/-- The file that `m_reader.load` gave, and the number of segments main goes through. -/
def readELFFile (path : String) (loaded : Option ElfFile) :
    Except String (ElfFile × BitVec 16) :=
  match loaded with
  | none => .error ("Error! Incorrect path to ELF : " ++ path)
  | some f =>
    if f.elfClass ≠ elfClass32 then .error "Error! ELF file class is wrong!"
    else if f.encoding ≠ elfData2Lsb then .error "Error! Incorrect type of ELF."
    else .ok (f, f.size)

def copy : List Byte → ℕ → (ℕ → Byte) → ℕ → Byte
  | [], _, m => m
  | b :: bs, dst, m => copy bs (dst + 1) (Function.update m dst b)

def fileStore (bs : List Byte) (dst : ℕ) : Store Byte := ⟨dst, bs.length, fun k => bs.getD k 0#8⟩

/-- `copies` is a ghost: the calls of std::copy in order. -/
structure LoadState where
  host : ℕ → Byte
  copies : List (Store Byte)

def Segment.store (s : Segment) : Store Byte := fileStore s.data s.virtualAddress.toNat

theorem Segment.store_covers (s : Segment) (a : ℕ) : s.store.Covers a ↔
    s.virtualAddress.toNat ≤ a ∧ a < s.virtualAddress.toNat + s.fileSize := Iff.rfl

/-- One pass of the loop body. -/
def loadSegment (st : LoadState) (s : Segment) : Except String LoadState :=
  if s.type ≠ ptLoad then .ok st
  else if s.virtualAddress >>> 17 ≠ 0#32 then
    .error ("Try load ELF to data mem! " ++ toString s.virtualAddress.toNat)
  else if s.fileSize ≠ 0 then
    .ok ⟨copy s.data s.virtualAddress.toNat st.host, st.copies ++ [s.store]⟩
  else .ok st

/-- main from readELFFile to the first clock: the loaded memory and the entry address. -/
def loadProgram (path : String) (loaded : Option ElfFile) (host : ℕ → Byte) :
    Except String (LoadState × Word) := do
  let (f, segNum) ← readELFFile path loaded
  let st ← (f.segments.take segNum.toNat).foldlM loadSegment ⟨host, []⟩
  return (st, f.entry)

def imemOf (host : ℕ → Byte) : MemArray := fun i => loadBytes host .lw (4 * i.toNat)

def Segment.Contains (s : Segment) (a : ℕ) : Prop :=
  s.type = ptLoad ∧ s.virtualAddress.toNat ≤ a ∧ a < s.virtualAddress.toNat + s.fileSize

instance (s : Segment) (a : ℕ) : Decidable (s.Contains a) :=
  inferInstanceAs (Decidable (_ ∧ _))

/-- The byte of the last segment in file order that contains the address, else zero. -/
def elfByte (segments : List Segment) (a : ℕ) : Byte :=
  match segments.reverse.find? (fun s => s.Contains a) with
  | some s => s.data.getD (a - s.virtualAddress.toNat) 0#8
  | none => 0#8

/-- Every copied byte lies in the buffer, which then holds the image, byte for byte and
word for word. -/
structure LoadsImage (segments : List Segment) (st : LoadState) : Prop where
  inBounds : ∀ c ∈ st.copies, ∀ a, c.Covers a → a < bufferSize
  bytes : ∀ a < bufferSize, bytesOf (imemOf st.host) a = elfByte segments a
  words : ∀ pc : Word, pc.toNat % 4 = 0 → pc.toNat < bufferSize →
    fetch (imemOf st.host) pc = loadBytes (elfByte segments) .lw pc.toNat

theorem fileStore_covers (bs : List Byte) (dst a : ℕ) :
    (fileStore bs dst).Covers a ↔ dst ≤ a ∧ a < dst + bs.length := Iff.rfl

theorem copy_eq_apply (bs : List Byte) (dst : ℕ) (m : ℕ → Byte) :
    copy bs dst m = (fileStore bs dst).apply m := by
  induction bs generalizing dst m with
  | nil =>
    funext a
    refine (apply_frame ?_ m).symm
    rw [fileStore_covers, List.length_nil]
    omega
  | cons b bs ih =>
    rw [copy, ih]
    funext a
    by_cases hc : (fileStore bs (dst + 1)).Covers a
    · obtain ⟨hlo, hhi⟩ := (fileStore_covers ..).mp hc
      have hw : (fileStore (b :: bs) dst).Covers a := by
        rw [fileStore_covers, List.length_cons]
        omega
      have hk : a - dst = (a - (dst + 1)) + 1 := by omega
      rw [apply_covered hc, apply_covered hw]
      change bs.getD (a - (dst + 1)) 0#8 = (b :: bs).getD (a - dst) 0#8
      rw [hk, List.getD_cons_succ]
    · rw [apply_frame hc]
      rw [fileStore_covers] at hc
      by_cases ha : a = dst
      · have hw : (fileStore (b :: bs) dst).Covers a := by
          rw [fileStore_covers, List.length_cons]
          omega
        rw [apply_covered hw, ha, Function.update_self]
        change b = (b :: bs).getD (dst - dst) 0#8
        rw [Nat.sub_self, List.getD_cons_zero]
      · have hw : ¬ (fileStore (b :: bs) dst).Covers a := by
          rw [fileStore_covers, List.length_cons]
          omega
        rw [apply_frame hw, Function.update_of_ne ha]

def segmentStores (s : Segment) : List (Store Byte) :=
  if s.type = ptLoad ∧ s.fileSize ≠ 0 then [s.store] else []

structure Loaded (segments : List Segment) (st fin : LoadState) : Prop where
  copies : fin.copies = st.copies ++ segments.flatMap segmentStores
  host : fin.host = replay Store.apply (segments.flatMap segmentStores) st.host

theorem loadSegment_ok {st fin : LoadState} {s : Segment} (h : loadSegment st s = .ok fin) :
    Loaded [s] st fin := by
  unfold loadSegment at h
  split_ifs at h with htype hrange hsize
  · cases h
    constructor <;> simp [segmentStores, htype, replay]
  · cases h
    have ht : s.type = ptLoad := not_not.mp htype
    constructor
    · simp [segmentStores, ht, hsize]
    · simp only [List.flatMap_singleton, segmentStores, ht, hsize, ne_eq, not_false_eq_true,
        and_self, ↓reduceIte]
      exact copy_eq_apply _ _ _
  · cases h
    constructor <;> simp [segmentStores, not_not.mp hsize, replay]

theorem loadLoop_ok {segments : List Segment} {st fin : LoadState}
    (h : segments.foldlM loadSegment st = .ok fin) : Loaded segments st fin := by
  induction segments generalizing st with
  | nil =>
    cases h
    constructor <;> simp [replay]
  | cons s segments ih =>
    rw [List.foldlM_cons] at h
    cases hs : loadSegment st s with
    | error e => rw [hs] at h; cases h
    | ok mid =>
      rw [hs] at h
      have h1 := loadSegment_ok hs
      have h2 := ih h
      constructor
      · rw [h2.copies, h1.copies, List.append_assoc, ← List.flatMap_append]
        rfl
      · rw [h2.host, h1.host, ← replay_append, ← List.flatMap_append]
        rfl

theorem segmentStores_covers {s : Segment} {c : Store Byte} {a : ℕ} (hc : c ∈ segmentStores s)
    (ha : c.Covers a) : c = s.store ∧ s.Contains a := by
  unfold segmentStores at hc
  split_ifs at hc with hload
  · cases List.mem_singleton.mp hc
    exact ⟨rfl, hload.1, ha.1, ha.2⟩
  · cases hc

theorem segmentStores_contains {s : Segment} {a : ℕ} (ha : s.Contains a) :
    segmentStores s = [s.store] ∧ s.store.Covers a := by
  obtain ⟨ht, hlo, hhi⟩ := ha
  exact ⟨if_pos ⟨ht, by omega⟩, hlo, hhi⟩

theorem replay_segments (segments : List Segment) (host : ℕ → Byte) (a : ℕ) :
    replay Store.apply (segments.flatMap segmentStores) host a =
      if ∃ s ∈ segments, s.Contains a then elfByte segments a else host a := by
  induction segments using List.reverseRecOn with
  | nil => rfl
  | append_singleton segments s ih =>
    rw [List.flatMap_append, List.flatMap_singleton, replay_append, elfByte,
      List.reverse_append]
    by_cases ha : s.Contains a
    · obtain ⟨hs, hc⟩ := segmentStores_contains ha
      have hany : ∃ s' ∈ segments ++ [s], s'.Contains a := ⟨s, by simp, ha⟩
      rw [hs, if_pos hany]
      simp only [replay, List.foldl_cons, List.foldl_nil, apply_covered hc, List.reverse_singleton,
        List.singleton_append, List.find?_cons, ha, decide_true]
      rfl
    · have hskip : replay Store.apply (segmentStores s)
          (replay Store.apply (segments.flatMap segmentStores) host) a =
          replay Store.apply (segments.flatMap segmentStores) host a := by
        apply replay_frame
        intro c hc hcov
        exact ha (segmentStores_covers hc hcov).2
      have hany : (∃ s' ∈ segments ++ [s], s'.Contains a) ↔ ∃ s' ∈ segments, s'.Contains a := by
        simp [ha, or_and_right, exists_or]
      rw [hskip, ih, if_congr hany rfl rfl]
      simp only [List.reverse_singleton, List.singleton_append, List.find?_cons, ha,
        decide_false, elfByte]

theorem elfByte_outside {segments : List Segment} {a : ℕ}
    (h : ¬ ∃ s ∈ segments, s.Contains a) : elfByte segments a = 0#8 := by
  have hnone : segments.reverse.find? (fun s => s.Contains a) = none := by
    rw [List.find?_eq_none]
    intro s hs hc
    exact h ⟨s, List.mem_reverse.mp hs, by simpa using hc⟩
  rw [elfByte, hnone]

theorem lane_loadBytes (host : ℕ → Byte) (a : ℕ) {j : ℕ} (hj : j < 4) :
    lane (loadBytes host .lw a) j = host (a + j) := by
  apply BitVec.eq_of_getLsbD_eq
  intro k hk
  rw [lane_bit, loadBytes, BitVec.getLsbD_append, BitVec.getLsbD_append, BitVec.getLsbD_append,
    decide_eq_true hk, Bool.true_and]
  obtain rfl | rfl | rfl | rfl : j = 0 ∨ j = 1 ∨ j = 2 ∨ j = 3 := by omega
  all_goals grind

theorem bytesOf_imemOf (host : ℕ → Byte) {a : ℕ} (ha : a < bufferSize) :
    bytesOf (imemOf host) a = host a := by
  have hq : (BitVec.ofNat 17 (a / 4)).toNat = a / 4 := by
    rw [BitVec.toNat_ofNat]
    apply Nat.mod_eq_of_lt
    unfold bufferSize at ha
    omega
  rw [bytesOf, imemOf, lane_loadBytes host _ (Nat.mod_lt _ (by decide)), hq]
  congr 1
  omega

theorem fetch_imemOf (host : ℕ → Byte) {pc : Word} (halign : pc.toNat % 4 = 0)
    (hpc : pc.toNat < bufferSize) : fetch (imemOf host) pc = loadBytes host .lw pc.toNat := by
  unfold bufferSize at hpc
  change imemOf host (memIndex (pc >>> 2)) = _
  rw [memIndex_shift, imemOf, BitVec.toNat_ofNat, Nat.mod_eq_of_lt (by omega)]
  congr 1
  omega

theorem bind_eq_ok {ε α β : Type} {m : Except ε α} {f : α → Except ε β} {b : β} :
    m >>= f = .ok b ↔ ∃ a, m = .ok a ∧ f a = .ok b := by
  cases m with
  | error e => exact ⟨nofun, fun ⟨_, h, _⟩ => nomatch h⟩
  | ok a => exact ⟨fun h => ⟨a, rfl, h⟩, fun ⟨_, ha, h⟩ => by cases ha; exact h⟩

theorem loadSegment_completes (st : LoadState) (s : Segment) :
    (∃ fin, loadSegment st s = .ok fin) ↔
      (s.type = ptLoad → s.virtualAddress.toNat < 2 ^ 17) := by
  have hshift : s.virtualAddress >>> 17 = 0#32 ↔ s.virtualAddress.toNat < 2 ^ 17 := by
    rw [← BitVec.toNat_inj, BitVec.toNat_ushiftRight, Nat.shiftRight_eq_div_pow]
    exact Nat.div_eq_zero_iff_lt (by decide)
  rw [← hshift]
  unfold loadSegment
  split_ifs with htype hrange hsize
  · exact ⟨fun _ ht => absurd ht htype, fun _ => ⟨_, rfl⟩⟩
  · exact ⟨nofun, fun h => absurd (h (not_not.mp htype)) hrange⟩
  · exact ⟨fun _ _ => not_not.mp hrange, fun _ => ⟨_, rfl⟩⟩
  · exact ⟨fun _ _ => not_not.mp hrange, fun _ => ⟨_, rfl⟩⟩

theorem readELFFile_ok {path : String} {f g : ElfFile} {segNum : BitVec 16}
    (h : readELFFile path (some f) = .ok (g, segNum)) :
    g = f ∧ segNum = f.size := by
  dsimp only [readELFFile] at h
  split_ifs at h
  cases h
  exact ⟨rfl, rfl⟩

theorem loadProgram_ok {path : String} {f : ElfFile} {host : ℕ → Byte} {fin : LoadState}
    {entry : Word} (h : loadProgram path (some f) host = .ok (fin, entry)) :
    Loaded f.segments ⟨host, []⟩ fin := by
  obtain ⟨⟨g, segNum⟩, hread, h⟩ := bind_eq_ok.mp h
  obtain ⟨st, hloop, h⟩ := bind_eq_ok.mp h
  cases h
  obtain ⟨rfl, rfl⟩ := readELFFile_ok hread
  rw [← g.count, List.take_length] at hloop
  exact loadLoop_ok hloop

/-- A segment that is copied ends inside the buffer. -/
def FitsBuffer (s : Segment) : Prop :=
  s.type = ptLoad → s.fileSize ≠ 0 → s.virtualAddress.toNat + s.fileSize ≤ bufferSize

instance (s : Segment) : Decidable (FitsBuffer s) := inferInstanceAs (Decidable (_ → _))

theorem copies_in_bounds_iff (segments : List Segment) :
    (∀ c ∈ segments.flatMap segmentStores, ∀ a, c.Covers a → a < bufferSize) ↔
      ∀ s ∈ segments, FitsBuffer s := by
  constructor
  · intro h s hs ht hsize
    have hlast : s.Contains (s.virtualAddress.toNat + s.fileSize - 1) := ⟨ht, by omega, by omega⟩
    obtain ⟨hst, hc⟩ := segmentStores_contains hlast
    have hmem : s.store ∈ segments.flatMap segmentStores := by
      rw [List.mem_flatMap]
      exact ⟨s, hs, by rw [hst]; exact List.mem_singleton_self _⟩
    have := h s.store hmem _ hc
    omega
  · intro h c hc a ha
    obtain ⟨s, hs, hcs⟩ := List.mem_flatMap.mp hc
    obtain ⟨_, ht, hlo, hhi⟩ := segmentStores_covers hcs ha
    have := h s hs ht (by omega)
    omega

section Image

variable {segments : List Segment} {host : ℕ → Byte} {fin : LoadState}
variable (hl : Loaded segments ⟨host, []⟩ fin) (hz : ∀ a < bufferSize, host a = 0#8)
include hl hz

theorem loaded_byte {a : ℕ} (ha : a < bufferSize) :
    bytesOf (imemOf fin.host) a = elfByte segments a := by
  rw [bytesOf_imemOf _ ha, hl.host, replay_segments]
  split_ifs with hc
  · rfl
  · exact (hz a ha).trans (elfByte_outside hc).symm

theorem loaded_fetch {pc : Word} (halign : pc.toNat % 4 = 0) (hpc : pc.toNat < bufferSize) :
    fetch (imemOf fin.host) pc = loadBytes (elfByte segments) .lw pc.toNat := by
  have hbyte : ∀ a < 2 ^ 19, fin.host a = elfByte segments a := by
    intro a ha
    rw [← bytesOf_imemOf fin.host ha]
    exact loaded_byte hl hz ha
  unfold bufferSize at hpc
  rw [fetch_imemOf _ halign hpc, loadBytes, loadBytes, hbyte _ hpc, hbyte _ (by omega),
    hbyte _ (by omega), hbyte _ (by omega)]

end Image

/-- When loading completes, it stays in the buffer and leaves the image there exactly when
every segment that is copied ends inside the buffer. -/
theorem loads_image_iff (path : String) (f : ElfFile) (host : ℕ → Byte) (fin : LoadState)
    (entry : Word) (hz : ∀ a < bufferSize, host a = 0#8)
    (h : loadProgram path (some f) host = .ok (fin, entry)) :
    LoadsImage f.segments fin ↔ ∀ s ∈ f.segments, FitsBuffer s := by
  have hl := loadProgram_ok h
  have hcopies : fin.copies = f.segments.flatMap segmentStores := hl.copies
  rw [← copies_in_bounds_iff, ← hcopies]
  constructor
  · exact fun himage => himage.inBounds
  · intro hb
    exact ⟨hb, fun a ha => loaded_byte hl hz ha, fun pc halign hpc => loaded_fetch hl hz halign hpc⟩

def smallFile : ElfFile :=
  ⟨elfClass32, elfData2Lsb, 0#32, [⟨ptLoad, 0, [0x93#8, 0x00#8, 0x00#8, 0x01#8]⟩],
    1#16, rfl⟩

theorem small_file_loads : ∃ fin,
    loadProgram "small.elf" (some smallFile) (fun _ => 0#8) = .ok (fin, 0#32) ∧
      LoadsImage smallFile.segments fin :=
  ⟨_, rfl, (loads_image_iff "small.elf" smallFile (fun _ => 0#8) _ 0#32 (fun _ _ => rfl)
    rfl).mpr (by decide)⟩

/-- One segment of 2^19 bytes at 0x10000: its last 2^16 bytes lie behind mem_buff. -/
def longSegment : Segment := ⟨ptLoad, 0x10000#32, List.replicate (2 ^ 19) 0x13#8⟩

def longFile : ElfFile := ⟨elfClass32, elfData2Lsb, 0x10000#32, [longSegment], 1#16, rfl⟩

theorem long_file_overruns : ∃ fin,
    loadProgram "long.elf" (some longFile) (fun _ => 0#8) = .ok (fin, 0x10000#32) ∧
      ¬ LoadsImage longFile.segments fin := by
  have hsize : longSegment.fileSize = 2 ^ 19 := List.length_replicate
  have hstep : loadSegment ⟨fun _ => 0#8, []⟩ longSegment =
      .ok ⟨copy longSegment.data longSegment.virtualAddress.toNat fun _ => 0#8,
        [longSegment.store]⟩ := by
    unfold loadSegment
    rw [if_neg (by decide), if_neg (by decide), if_pos (by rw [hsize]; decide)]
    rfl
  have hloop : [longSegment].foldlM loadSegment ⟨fun _ => 0#8, []⟩ =
      .ok ⟨copy longSegment.data longSegment.virtualAddress.toNat fun _ => 0#8,
        [longSegment.store]⟩ := by
    rw [List.foldlM_cons, hstep]
    rfl
  refine ⟨_, bind_eq_ok.mpr ⟨(longFile, 1#16), rfl, bind_eq_ok.mpr ⟨_, hloop, rfl⟩⟩, ?_⟩
  intro h
  have hcov : longSegment.store.Covers (2 ^ 19) := by
    have haddr : longSegment.virtualAddress.toNat = 0x10000 := rfl
    rw [Segment.store_covers, hsize, haddr]
    omega
  exact lt_irrefl _ (h.inBounds _ (List.mem_singleton_self _) _ hcov)

end ElfLoader
