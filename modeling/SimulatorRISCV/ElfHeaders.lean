import SimulatorRISCV.ElfLoader
import SimulatorRISCV.InputStream

/-! # The headers of an ELF file

Both file classes in both byte orders. The host is little-endian. Section names and contents
are left out: main does not use them. -/
namespace ElfHeaders

open PipelineDecoder PipelineDataMemory ElfLoader InputStream

structure Member where
  offset : ℕ
  size : ℕ

def Member.Within (n : ℕ) (m : Member) : Prop := m.offset + m.size ≤ n

instance (n : ℕ) (m : Member) : Decidable (m.Within n) := inferInstanceAs (Decidable (_ ≤ _))

/-- The header structures of a file class: Elf32_Ehdr, Elf32_Shdr and Elf32_Phdr, or those
of 64 bits. -/
structure Layout where
  ehdrSize : ℕ
  entry : Member
  phoff : Member
  shoff : Member
  phentsize : Member
  phnum : Member
  shentsize : Member
  shnum : Member
  shdrSize : ℕ
  shType : Member
  shOffset : Member
  shSize : Member
  phdrSize : ℕ
  pType : Member
  pOffset : Member
  pVaddr : Member
  pFilesz : Member
  ident : 16 ≤ ehdrSize
  ehdr : ∀ m ∈ [entry, phoff, shoff, phentsize, phnum, shentsize, shnum], m.Within ehdrSize
  shdr : 0 < shdrSize ∧ ∀ m ∈ [shType, shOffset, shSize], m.Within shdrSize
  phdr : 0 < phdrSize ∧ ∀ m ∈ [pType, pOffset, pVaddr, pFilesz], m.Within phdrSize

def layout32 : Layout where
  ehdrSize := 52
  entry := ⟨24, 4⟩
  phoff := ⟨28, 4⟩
  shoff := ⟨32, 4⟩
  phentsize := ⟨42, 2⟩
  phnum := ⟨44, 2⟩
  shentsize := ⟨46, 2⟩
  shnum := ⟨48, 2⟩
  shdrSize := 40
  shType := ⟨4, 4⟩
  shOffset := ⟨16, 4⟩
  shSize := ⟨20, 4⟩
  phdrSize := 32
  pType := ⟨0, 4⟩
  pOffset := ⟨4, 4⟩
  pVaddr := ⟨8, 4⟩
  pFilesz := ⟨16, 4⟩
  ident := by decide
  ehdr := by decide
  shdr := by decide
  phdr := by decide

def layout64 : Layout where
  ehdrSize := 64
  entry := ⟨24, 8⟩
  phoff := ⟨32, 8⟩
  shoff := ⟨40, 8⟩
  phentsize := ⟨54, 2⟩
  phnum := ⟨56, 2⟩
  shentsize := ⟨58, 2⟩
  shnum := ⟨60, 2⟩
  shdrSize := 64
  shType := ⟨4, 4⟩
  shOffset := ⟨24, 8⟩
  shSize := ⟨32, 8⟩
  phdrSize := 56
  pType := ⟨0, 4⟩
  pOffset := ⟨8, 8⟩
  pVaddr := ⟨16, 8⟩
  pFilesz := ⟨32, 8⟩
  ident := by decide
  ehdr := by decide
  shdr := by decide
  phdr := by decide

def elfClass64 : BitVec 8 := 2
def elfData2Msb : BitVec 8 := 2
def elfMagic : List Byte := [0x7F#8, 0x45#8, 0x4C#8, 0x46#8]

def createHeader (fileClass : BitVec 8) : Option Layout :=
  if fileClass = elfClass64 then some layout64
  else if fileClass = elfClass32 then some layout32
  else none

def littleEndian : List Byte → ℕ
  | [] => 0
  | b :: bs => b.toNat + 256 * littleEndian bs

/-- endianess_convertor: for the other byte order it swaps the bytes. -/
def needConversion (encoding : BitVec 8) : Bool := encoding != elfData2Lsb

/-- A member of the header at the head of `raw`, whose missing bytes are zero. -/
def Member.get (m : Member) (swap : Bool) (raw : List Byte) (w : ℕ) : BitVec w :=
  let bytes := (List.range m.size).map fun k => raw.getD (m.offset + k) 0#8
  BitVec.ofNat w (littleEndian (if swap then bytes.reverse else bytes))

def shtNull : BitVec 32 := 0
def shtNobits : BitVec 32 := 8
def ptNull : BitVec 32 := 0

structure SectionHeader where
  type : BitVec 32
  offset : BitVec 64
  size : BitVec 64
  deriving DecidableEq

def SectionHeader.ofBytes (L : Layout) (swap : Bool) (raw : List Byte) : SectionHeader where
  type := L.shType.get swap raw 32
  offset := L.shOffset.get swap raw 64
  size := L.shSize.get swap raw 64

/-- segment_impl; `data` is none for the null pointer. -/
structure SegmentImpl where
  type : BitVec 32
  offset : BitVec 64
  virtualAddress : BitVec 64
  fileSize : BitVec 64
  data : Option (List Byte)
  deriving DecidableEq

def SegmentImpl.ofBytes (L : Layout) (swap : Bool) (raw : List Byte) : SegmentImpl where
  type := L.pType.get swap raw 32
  offset := L.pOffset.get swap raw 64
  virtualAddress := L.pVaddr.get swap raw 64
  fileSize := L.pFilesz.get swap raw 64
  data := none

structure Header where
  fileClass : BitVec 8
  encoding : BitVec 8
  entry : BitVec 64
  sectionsOffset : BitVec 64
  sectionEntrySize : BitVec 16
  sectionsNum : BitVec 16
  segmentsOffset : BitVec 64
  segmentEntrySize : BitVec 16
  segmentsNum : BitVec 16
  deriving DecidableEq

def Header.ofBytes (L : Layout) (swap : Bool) (raw : List Byte) : Header where
  fileClass := raw.getD 4 0#8
  encoding := raw.getD 5 0#8
  entry := L.entry.get swap raw 64
  sectionsOffset := L.shoff.get swap raw 64
  sectionEntrySize := L.shentsize.get swap raw 16
  sectionsNum := L.shnum.get swap raw 16
  segmentsOffset := L.phoff.get swap raw 64
  segmentEntrySize := L.phentsize.get swap raw 16
  segmentsNum := L.phnum.get swap raw 16

def tableEntry (offset : BitVec 64) (entrySize : BitVec 16) (i : ℕ) : BitVec 64 :=
  offset + BitVec.ofNat 64 i * entrySize.setWidth 64

def Header.sectionAt (h : Header) (i : ℕ) : BitVec 64 :=
  tableEntry h.sectionsOffset h.sectionEntrySize i

def Header.segmentAt (h : Header) (i : ℕ) : BitVec 64 :=
  tableEntry h.segmentsOffset h.segmentEntrySize i

def swapOf (bs : List Byte) : Bool := needConversion (bs.getD 5 0#8)

def headerOf (L : Layout) (bs : List Byte) : Header := Header.ofBytes L (swapOf bs) bs

def sectionIn (L : Layout) (swap : Bool) (bs : List Byte) (p : BitVec 64) : SectionHeader :=
  SectionHeader.ofBytes L swap (bs.drop p.toNat)

theorem littleEndian_lt (bs : List Byte) : littleEndian bs < 256 ^ bs.length := by
  induction bs with
  | nil => exact Nat.one_pos
  | cons b bs ih =>
    have hb := b.isLt
    rw [littleEndian, List.length_cons, Nat.pow_succ]
    omega

theorem Member.get_lt (m : Member) (swap : Bool) (raw : List Byte) (w : ℕ) :
    (m.get swap raw w).toNat < 256 ^ m.size := by
  have hlt : ∀ bytes : List Byte, bytes.length = m.size → littleEndian bytes < 256 ^ m.size := by
    intro bytes hlen
    rw [← hlen]
    exact littleEndian_lt bytes
  unfold Member.get
  rw [BitVec.toNat_ofNat]
  refine lt_of_le_of_lt (Nat.mod_le _ _) (hlt _ ?_)
  cases swap <;> simp

theorem Member.get_take {m : Member} {n : ℕ} (h : m.Within n) (swap : Bool) (raw : List Byte)
    (w : ℕ) : m.get swap (raw.take n) w = m.get swap raw w := by
  have hbytes : ∀ k ∈ List.range m.size,
      (raw.take n).getD (m.offset + k) 0#8 = raw.getD (m.offset + k) 0#8 := by
    intro k hk
    have hlt : m.offset + k < n := by
      have := List.mem_range.mp hk
      unfold Member.Within at h
      omega
    rw [List.getD_eq_getElem?_getD, List.getElem?_take_of_lt hlt, List.getD_eq_getElem?_getD]
  unfold Member.get
  rw [List.map_congr_left hbytes]

variable {L : Layout} {swap : Bool} {p : BitVec 64}

theorem sectionOfBytes_window (bs : List Byte) :
    SectionHeader.ofBytes L swap (window bs p L.shdrSize) = sectionIn L swap bs p := by
  have hm := L.shdr.2
  simp only [List.mem_cons, List.not_mem_nil, or_false, forall_eq_or_imp, forall_eq] at hm
  obtain ⟨ht, ho, hs⟩ := hm
  simp only [SectionHeader.ofBytes, sectionIn, window, Member.get_take ht, Member.get_take ho,
    Member.get_take hs]

theorem segmentOfBytes_window (bs : List Byte) :
    SegmentImpl.ofBytes L swap (window bs p L.phdrSize) =
      SegmentImpl.ofBytes L swap (bs.drop p.toNat) := by
  have hm := L.phdr.2
  simp only [List.mem_cons, List.not_mem_nil, or_false, forall_eq_or_imp, forall_eq] at hm
  obtain ⟨ht, ho, hv, hs⟩ := hm
  simp only [SegmentImpl.ofBytes, window, Member.get_take ht, Member.get_take ho,
    Member.get_take hv, Member.get_take hs]

theorem headerOfBytes_take (bs : List Byte) :
    Header.ofBytes L swap (bs.take L.ehdrSize) = Header.ofBytes L swap bs := by
  have hm := L.ehdr
  have hident := L.ident
  simp only [List.mem_cons, List.not_mem_nil, or_false, forall_eq_or_imp, forall_eq] at hm
  obtain ⟨h1, h2, h3, h4, h5, h6, h7⟩ := hm
  have hbyte : ∀ k < 16, (bs.take L.ehdrSize).getD k 0#8 = bs.getD k 0#8 := by
    intro k hk
    rw [List.getD_eq_getElem?_getD, List.getElem?_take_of_lt (by omega),
      List.getD_eq_getElem?_getD]
  simp only [Header.ofBytes, hbyte 4 (by decide), hbyte 5 (by decide), Member.get_take h1,
    Member.get_take h2, Member.get_take h3, Member.get_take h4, Member.get_take h5,
    Member.get_take h6, Member.get_take h7]

end ElfHeaders
