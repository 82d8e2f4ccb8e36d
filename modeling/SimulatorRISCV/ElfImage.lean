import Mathlib.Data.List.Find
import SimulatorRISCV.ElfReader

/-! # From the bytes of a file to instruction memory

main loads the file with ELFIO, checks its class and byte order and copies its segments. A
segment larger than the file has no data, and main copies from a null pointer; one that is too
long for mem_buff is copied over its end, and the loop goes on. -/
namespace ElfImage

open PipelineDecoder PipelineDatapath PipelineIssue PipelineDataMemory
open ElfLoader InputStream ElfHeaders ElfReader

/-- How main ends before the first clock. `nullData` is the copy from a null pointer, which
C++ leaves undefined. -/
inductive Failure where
  | thrown (what : String)
  | nullData
  deriving DecidableEq

def segmentOf (seg : SegmentImpl) : Segment :=
  ⟨seg.type, seg.virtualAddress.setWidth 32, seg.data.getD []⟩

def fileOf (e : Elfio) : ElfFile where
  elfClass := e.header.fileClass
  encoding := e.header.encoding
  entry := e.header.entry.setWidth 32
  segments := e.segments.1.map segmentOf
  size := e.header.segmentsNum
  count := by rw [List.length_map, e.segments.2]

def NullData (seg : SegmentImpl) : Prop :=
  seg.type = ptLoad ∧ seg.fileSize ≠ 0#64 ∧ seg.data = none

instance (seg : SegmentImpl) : Decidable (NullData seg) := inferInstanceAs (Decidable (_ ∧ _))

/-- One pass of the loop body: that of loadSegment, and none to go on from behind the null
pointer. -/
def copySegment (st : LoadState) (seg : SegmentImpl) : Except Failure LoadState :=
  match loadSegment st (segmentOf seg) with
  | .error what => .error (.thrown what)
  | .ok st => if NullData seg then .error .nullData else .ok st

/-- main from readELFFile to the first clock; none for a file that does not open. -/
def loadFile (path : String) (file : Option (File Byte)) (host : ℕ → Byte) :
    Except Failure (LoadState × Word) :=
  let reader := file.bind load
  match readELFFile path (reader.map fileOf) with
  | .error what => .error (.thrown what)
  | .ok (f, segNum) =>
    ((reader.elim [] fun e => e.segments.1).take segNum.toNat).foldlM copySegment ⟨host, []⟩ >>=
      fun st => .ok (st, f.entry)

def segmentFailure (bs : List Byte) (seg : SegmentImpl) : Option Failure :=
  if seg.type ≠ ptLoad then none
  else if 2 ^ 17 ≤ seg.virtualAddress.toNat then
    some (.thrown ("Try load ELF to data mem! " ++ toString seg.virtualAddress.toNat))
  else if bs.length < seg.fileSize.toNat then some .nullData
  else none

/-- The loadable segment that gives an address its content. -/
def Provides (seg : SegmentImpl) (a : ℕ) : Prop :=
  seg.type = ptLoad ∧ seg.virtualAddress.toNat ≤ a ∧
    a < seg.virtualAddress.toNat + seg.fileSize.toNat

instance (seg : SegmentImpl) (a : ℕ) : Decidable (Provides seg a) :=
  inferInstanceAs (Decidable (_ ∧ _))

/-- The file byte that the last loadable segment puts at an address, else zero. -/
def imageByte (bs : List Byte) (a : ℕ) : Byte :=
  match (segmentsOf layout32 bs).reverse.find? fun seg => Provides seg a with
  | some seg => bs.getD (seg.offset.toNat + (a - seg.virtualAddress.toNat)) 0#8
  | none => 0#8

/-- A file that main loads. -/
structure Loadable (file : File Byte) : Prop where
  wellFormed : WellFormed layout32 file
  encoding : file.content.getD 5 0#8 = elfData2Lsb
  segments : ∀ seg ∈ segmentsOf layout32 file.content, segmentFailure file.content seg = none

def EndsInside (bs : List Byte) : Prop :=
  ∀ seg ∈ segmentsOf layout32 bs, seg.type = ptLoad →
    seg.virtualAddress.toNat + seg.fileSize.toNat ≤ bufferSize

instance (bs : List Byte) : Decidable (EndsInside bs) :=
  inferInstanceAs (Decidable (∀ seg ∈ _, _))

def entryOf (bs : List Byte) : Word := (headerOf layout32 bs).entry.setWidth 32

theorem virtualAddress_lt {bs : List Byte} {seg : SegmentImpl}
    (hseg : seg ∈ segmentsOf layout32 bs) : seg.virtualAddress.toNat < 2 ^ 32 := by
  obtain ⟨i, _, rfl⟩ := List.mem_map.mp hseg
  exact Member.get_lt layout32.pVaddr _ _ _

theorem segmentOf_address {seg : SegmentImpl} (h : seg.virtualAddress.toNat < 2 ^ 32) :
    (segmentOf seg).virtualAddress.toNat = seg.virtualAddress.toNat := by
  change (seg.virtualAddress.setWidth 32).toNat = _
  rw [BitVec.toNat_setWidth, Nat.mod_eq_of_lt h]

section Segments

variable {bs : List Byte} {seg : SegmentImpl}

theorem segmentsOf_data (hseg : seg ∈ segmentsOf layout32 bs) : seg.data = dataIn bs seg := by
  obtain ⟨i, _, rfl⟩ := List.mem_map.mp hseg
  rfl

theorem nullData_iff (hseg : seg ∈ segmentsOf layout32 bs) (ht : seg.type = ptLoad) :
    NullData seg ↔ bs.length < seg.fileSize.toNat := by
  have hnull : seg.type ≠ ptNull := by
    rw [ht]
    decide
  unfold NullData
  rw [segmentsOf_data hseg, dataIn]
  split_ifs with hd
  · rcases hd with h | h | h
    · exact absurd h hnull
    · rw [h]
      simp
    · refine ⟨fun _ => h, fun _ => ⟨ht, ?_, rfl⟩⟩
      intro hz
      rw [hz] at h
      exact absurd h (Nat.not_lt_zero _)
  · rw [not_or, not_or] at hd
    exact ⟨nofun, fun h => absurd h hd.2.2⟩

theorem loadSegment_refuses {st : LoadState} {s : Segment} (ht : s.type = ptLoad)
    (hr : 2 ^ 17 ≤ s.virtualAddress.toNat) : loadSegment st s =
      .error ("Try load ELF to data mem! " ++ toString s.virtualAddress.toNat) := by
  have hshift : s.virtualAddress >>> 17 ≠ 0#32 := by
    intro hz
    have := congrArg BitVec.toNat hz
    rw [BitVec.toNat_ushiftRight, Nat.shiftRight_eq_div_pow, BitVec.toNat_zero] at this
    omega
  unfold loadSegment
  rw [if_neg (not_not.mpr ht), if_pos hshift]

theorem copySegment_error (hseg : seg ∈ segmentsOf layout32 bs) (st : LoadState) (f : Failure) :
    copySegment st seg = .error f ↔ segmentFailure bs seg = some f := by
  have haddr := segmentOf_address (virtualAddress_lt hseg)
  have hcompletes := loadSegment_completes st (segmentOf seg)
  rw [haddr] at hcompletes
  unfold copySegment segmentFailure
  by_cases ht : seg.type = ptLoad
  · rw [if_neg (not_not.mpr ht)]
    by_cases hr : 2 ^ 17 ≤ seg.virtualAddress.toNat
    · rw [loadSegment_refuses (s := segmentOf seg) ht (haddr ▸ hr), if_pos hr, haddr]
      simp
    · obtain ⟨fin, hl⟩ := hcompletes.mpr fun _ => not_le.mp hr
      rw [hl, if_neg hr]
      dsimp only
      rw [if_congr (nullData_iff hseg ht) rfl rfl]
      split_ifs <;> simp
  · obtain ⟨fin, hl⟩ := hcompletes.mpr fun h => absurd h ht
    have hnull : ¬ NullData seg := fun h => ht h.1
    rw [hl, if_pos ht]
    simp [hnull]

end Segments

/-- A fold whose steps fail independently of the state fails with the first failure. -/
theorem foldlM_error_iff {ε σ α : Type} {step : σ → α → Except ε σ} {fails : α → Option ε}
    {l : List α} (h : ∀ a ∈ l, ∀ s f, step s a = .error f ↔ fails a = some f) (s : σ) (f : ε) :
    l.foldlM step s = .error f ↔ l.findSome? fails = some f := by
  induction l generalizing s with
  | nil => simp [pure, Except.pure]
  | cons a l ih =>
    have ha := h a List.mem_cons_self s
    rw [List.foldlM_cons, List.findSome?_cons]
    cases hs : step s a with
    | error e =>
      rw [(ha e).mp hs]
      simp [bind, Except.bind]
    | ok t =>
      have hnone : fails a = none := by
        rw [Option.eq_none_iff_forall_ne_some]
        intro e he
        rw [(ha e).mpr he] at hs
        cases hs
      rw [hnone]
      exact ih (fun b hb => h b (List.mem_cons_of_mem a hb)) t

theorem copyLoop_ok {segments : List SegmentImpl} {st fin : LoadState}
    (h : segments.foldlM copySegment st = .ok fin) :
    (segments.map segmentOf).foldlM loadSegment st = .ok fin := by
  induction segments generalizing st with
  | nil =>
    cases h
    rfl
  | cons seg segments ih =>
    rw [List.foldlM_cons] at h
    obtain ⟨mid, hmid, hrest⟩ := bind_eq_ok.mp h
    rw [List.map_cons, List.foldlM_cons]
    refine bind_eq_ok.mpr ⟨mid, ?_, ih hrest⟩
    unfold copySegment at hmid
    split at hmid
    · cases hmid
    · rename_i st' hst
      split_ifs at hmid
      cases hmid
      exact hst

inductive Rejects (path : String) (file : File Byte) : Failure → Prop where
  | unreadable (h : ∀ L, ¬ WellFormed L file) :
      Rejects path file (.thrown ("Error! Incorrect path to ELF : " ++ path))
  | fileClass (h : WellFormed layout64 file) :
      Rejects path file (.thrown "Error! ELF file class is wrong!")
  | encoding (h : WellFormed layout32 file) (he : file.content.getD 5 0#8 ≠ elfData2Lsb) :
      Rejects path file (.thrown "Error! Incorrect type of ELF.")
  | segment (h : WellFormed layout32 file) (he : file.content.getD 5 0#8 = elfData2Lsb)
      (f : Failure)
      (hf : (segmentsOf layout32 file.content).findSome? (segmentFailure file.content) = some f) :
      Rejects path file f

theorem segmentsOf_length (L : Layout) (bs : List Byte) :
    (segmentsOf L bs).length = (headerOf L bs).segmentsNum.toNat := by
  rw [segmentsOf, firstSegments, List.length_map, List.length_range]

theorem createHeader_cases {b : BitVec 8} {L : Layout} (h : createHeader b = some L) :
    (b = elfClass64 ∧ L = layout64) ∨ (b = elfClass32 ∧ L = layout32) := by
  unfold createHeader at h
  split_ifs at h with h64 h32
  · exact Or.inl ⟨h64, (Option.some.inj h).symm⟩
  · exact Or.inr ⟨h32, (Option.some.inj h).symm⟩

section File

variable {path : String} {file : File Byte} {host : ℕ → Byte}

def reader (L : Layout) (bs : List Byte) : Elfio := ⟨headerOf L bs, _, segmentsOf_length L bs⟩

theorem load_reader {L : Layout} (h : WellFormed L file) :
    load file = some (reader L file.content) := load_complete h rfl rfl

theorem loadFile_unreadable (h : ∀ L, ¬ WellFormed L file) :
    loadFile path (some file) host =
      .error (.thrown ("Error! Incorrect path to ELF : " ++ path)) := by
  have hnone : load file = none := by
    rw [Option.eq_none_iff_forall_ne_some]
    intro e he
    obtain ⟨L, hw, _⟩ := load_sound he
    exact h L hw
  unfold loadFile
  rw [Option.bind_some, hnone]
  rfl

theorem class_of {L : Layout} (h : WellFormed L file) :
    file.content.getD 4 0#8 = elfClass64 ∧ L = layout64 ∨
      file.content.getD 4 0#8 = elfClass32 ∧ L = layout32 := createHeader_cases h.fileClass

theorem layout_ne : layout64 ≠ layout32 := fun h => absurd (congrArg Layout.ehdrSize h) (by decide)

theorem loadFile_class (h : WellFormed layout64 file) :
    loadFile path (some file) host = .error (.thrown "Error! ELF file class is wrong!") := by
  have hclass : file.content.getD 4 0#8 ≠ elfClass32 := by
    rcases class_of h with ⟨hc, _⟩ | ⟨_, hl⟩
    · rw [hc]
      decide
    · exact absurd hl layout_ne
  have hread : readELFFile path (some (fileOf (reader layout64 file.content))) =
      .error "Error! ELF file class is wrong!" := if_pos hclass
  unfold loadFile
  rw [Option.bind_some, load_reader h]
  dsimp only [Option.map_some]
  rw [hread]

theorem class32 (h : WellFormed layout32 file) :
    file.content.getD 4 0#8 = elfClass32 := by
  rcases class_of h with ⟨_, hl⟩ | ⟨hc, _⟩
  · exact absurd hl.symm layout_ne
  · exact hc

theorem loadFile_encoding (h : WellFormed layout32 file)
    (he : file.content.getD 5 0#8 ≠ elfData2Lsb) :
    loadFile path (some file) host = .error (.thrown "Error! Incorrect type of ELF.") := by
  have hread : readELFFile path (some (fileOf (reader layout32 file.content))) =
      .error "Error! Incorrect type of ELF." :=
    (if_neg (not_not.mpr (class32 h))).trans (if_pos he)
  unfold loadFile
  rw [Option.bind_some, load_reader h]
  dsimp only [Option.map_some]
  rw [hread]

theorem loadFile_segments (h : WellFormed layout32 file)
    (he : file.content.getD 5 0#8 = elfData2Lsb) : loadFile path (some file) host =
      (segmentsOf layout32 file.content).foldlM copySegment ⟨host, []⟩ >>= fun st =>
        .ok (st, entryOf file.content) := by
  have hread : readELFFile path (some (fileOf (reader layout32 file.content))) =
      .ok (fileOf (reader layout32 file.content), (headerOf layout32 file.content).segmentsNum) :=
    (if_neg (not_not.mpr (class32 h))).trans (if_neg (not_not.mpr he))
  have hall : (segmentsOf layout32 file.content).take
      (headerOf layout32 file.content).segmentsNum.toNat = segmentsOf layout32 file.content := by
    rw [← segmentsOf_length, List.take_length]
  unfold loadFile
  rw [Option.bind_some, load_reader h]
  dsimp only [Option.map_some]
  rw [hread]
  dsimp only [Option.elim_some]
  change ((segmentsOf layout32 file.content).take _).foldlM _ _ >>= _ = _
  rw [hall]
  rfl

theorem bind_error_iff {ε α β : Type} {m : Except ε α} {g : α → β} {e : ε} :
    (m >>= fun a => .ok (g a)) = .error e ↔ m = .error e := by
  cases m with
  | error f =>
    constructor
    · rintro ⟨⟩
      rfl
    · rintro ⟨⟩
      rfl
  | ok a => exact ⟨nofun, nofun⟩

/-- main ends before the first clock exactly for the reasons that the bytes give. -/
theorem loadFile_error_iff (path : String) (file : File Byte) (host : ℕ → Byte) (f : Failure) :
    loadFile path (some file) host = .error f ↔ Rejects path file f := by
  constructor
  · intro hf
    by_cases hw : ∃ L, WellFormed L file
    · obtain ⟨L, hw⟩ := hw
      rcases class_of hw with ⟨_, rfl⟩ | ⟨_, rfl⟩
      · rw [loadFile_class hw] at hf
        cases hf
        exact .fileClass hw
      · by_cases he : file.content.getD 5 0#8 = elfData2Lsb
        · rw [loadFile_segments hw he, bind_error_iff,
            foldlM_error_iff fun seg hseg => copySegment_error hseg] at hf
          exact .segment hw he f hf
        · rw [loadFile_encoding hw he] at hf
          cases hf
          exact .encoding hw he
    · rw [loadFile_unreadable (not_exists.mp hw)] at hf
      cases hf
      exact .unreadable (not_exists.mp hw)
  · rintro (h | h | ⟨h, he⟩ | ⟨h, he, _, hf⟩)
    · exact loadFile_unreadable h
    · exact loadFile_class h
    · exact loadFile_encoding h he
    · rw [loadFile_segments h he, bind_error_iff,
        foldlM_error_iff fun seg hseg => copySegment_error hseg]
      exact hf

/-- Without a null pointer main does what loadProgram does. -/
theorem loadProgram_of_loadFile {r : LoadState × Word}
    (h : loadFile path (some file) host = .ok r) :
    loadProgram path ((load file).map fileOf) host = .ok r := by
  unfold loadFile at h
  rw [Option.bind_some] at h
  dsimp only at h
  split at h
  · cases h
  · rename_i f segNum hread
    obtain ⟨st, hloop, heq⟩ := bind_eq_ok.mp h
    cases heq
    have hsegments : f.segments = ((load file).elim [] fun e => e.segments.1).map segmentOf := by
      cases hl : load file with
      | none =>
        rw [hl] at hread
        cases hread
      | some e =>
        rw [hl] at hread
        rw [(readELFFile_ok hread).1]
        rfl
    have hcopies := copyLoop_ok hloop
    rw [List.map_take, ← hsegments] at hcopies
    exact bind_eq_ok.mpr ⟨_, hread, bind_eq_ok.mpr ⟨st, hcopies, rfl⟩⟩

theorem loadFile_ok {fin : LoadState} {entry : Word}
    (h : loadFile path (some file) host = .ok (fin, entry)) :
    Loadable file ∧ entry = entryOf file.content ∧
      Loaded ((segmentsOf layout32 file.content).map segmentOf) ⟨host, []⟩ fin := by
  have hno : ∀ f, ¬ Rejects path file f := by
    intro f hf
    rw [(loadFile_error_iff path file host f).mpr hf] at h
    cases h
  have hw : ∃ L, WellFormed L file := by
    by_contra hnone
    exact hno _ (.unreadable (not_exists.mp hnone))
  have hw32 : WellFormed layout32 file := by
    obtain ⟨L, hw⟩ := hw
    rcases class_of hw with ⟨_, rfl⟩ | ⟨_, rfl⟩
    · exact absurd (.fileClass hw) (hno _)
    · exact hw
  have he : file.content.getD 5 0#8 = elfData2Lsb := by
    by_contra he
    exact hno _ (.encoding hw32 he)
  have hgood : (segmentsOf layout32 file.content).findSome? (segmentFailure file.content) =
      none := by
    rw [Option.eq_none_iff_forall_ne_some]
    exact fun f hf => hno f (.segment hw32 he f hf)
  have hprogram := loadProgram_of_loadFile h
  rw [load_reader hw32] at hprogram
  rw [loadFile_segments hw32 he] at h
  obtain ⟨_, _, heq⟩ := bind_eq_ok.mp h
  cases heq
  exact ⟨⟨hw32, he, List.findSome?_eq_none_iff.mp hgood⟩, rfl, loadProgram_ok hprogram⟩

theorem loadFile_of_loadable (h : Loadable file) :
    ∃ r, loadFile path (some file) host = .ok r := by
  cases hr : loadFile path (some file) host with
  | ok r => exact ⟨r, rfl⟩
  | error f =>
    exfalso
    rcases (loadFile_error_iff path file host f).mp hr with hn | hc | ⟨_, he⟩ | ⟨_, _, _, hf⟩
    · exact hn _ h.wellFormed
    · rcases class_of hc with ⟨h64, _⟩ | ⟨_, hl⟩
      · rw [class32 h.wellFormed] at h64
        exact absurd h64 (by decide)
      · exact layout_ne hl
    · exact he h.encoding
    · rw [List.findSome?_eq_none_iff.mpr h.segments] at hf
      cases hf

end File

theorem window_byte (bs : List Byte) (p : BitVec 64) {n k : ℕ} (hk : k < n) :
    (window bs p n).getD k 0#8 = bs.getD (p.toNat + k) 0#8 := by
  rw [window, List.getD_eq_getElem?_getD, List.getElem?_take_of_lt hk, List.getElem?_drop,
    List.getD_eq_getElem?_getD]

section Image

variable {file : File Byte} (h : Loadable file) {seg : SegmentImpl}
  (hseg : seg ∈ segmentsOf layout32 file.content)
include h hseg

section Load

variable (ht : seg.type = ptLoad)
include ht

theorem loadable_segment : seg.virtualAddress.toNat < 2 ^ 17 ∧
    ¬ file.content.length < seg.fileSize.toNat := by
  have hf := h.segments seg hseg
  unfold segmentFailure at hf
  rw [if_neg (not_not.mpr ht)] at hf
  split_ifs at hf with hrange hbig
  exact ⟨not_le.mp hrange, hbig⟩

theorem segmentOf_window :
    (segmentOf seg).data = window file.content seg.offset seg.fileSize.toNat ∧
      (segmentOf seg).fileSize = seg.fileSize.toNat := by
  obtain ⟨_, hsmall⟩ := loadable_segment h hseg ht
  have hdata : (segmentOf seg).data = (dataIn file.content seg).getD [] := by
    rw [← segmentsOf_data hseg]
    rfl
  have hnull : seg.type ≠ ptNull := by
    rw [ht]
    decide
  unfold Segment.fileSize
  by_cases hz : seg.fileSize = 0#64
  · have hempty : (segmentOf seg).data = [] := by
      rw [hdata, dataIn, if_pos (Or.inr (Or.inl hz))]
      rfl
    rw [hempty, hz]
    exact ⟨rfl, rfl⟩
  · have hwin : (segmentOf seg).data = window file.content seg.offset seg.fileSize.toNat := by
      rw [hdata, dataIn, if_neg (not_or.mpr ⟨hnull, not_or.mpr ⟨hz, hsmall⟩⟩)]
      rfl
    obtain ⟨i, hi, rfl⟩ := List.mem_map.mp hseg
    have hread := (h.wellFormed.tables.segments i (List.mem_range.mp hi)).data hnull hz
    rw [if_neg hsmall] at hread
    rw [hwin]
    exact ⟨rfl, window_length hread⟩

end Load

theorem contains_iff (a : ℕ) : (segmentOf seg).Contains a ↔ Provides seg a := by
  have haddr := segmentOf_address (virtualAddress_lt hseg)
  by_cases ht : seg.type = ptLoad
  · obtain ⟨_, hsize⟩ := segmentOf_window h hseg ht
    unfold Segment.Contains Provides
    rw [haddr, hsize]
    rfl
  · exact ⟨fun hc => absurd hc.1 ht, fun hp => absurd hp.1 ht⟩

omit hseg in
theorem elfByte_eq (a : ℕ) :
    elfByte ((segmentsOf layout32 file.content).map segmentOf) a = imageByte file.content a := by
  have hfind : ((segmentsOf layout32 file.content).map segmentOf).reverse.find?
      (fun s => s.Contains a) = ((segmentsOf layout32 file.content).reverse.find?
        fun seg => Provides seg a).map segmentOf := by
    rw [← List.map_reverse, List.find?_map]
    refine congrArg _ (List.find?_congr fun seg hseg => ?_)
    exact decide_eq_decide.mpr (contains_iff h (List.mem_reverse.mp hseg) a)
  unfold elfByte imageByte
  rw [hfind]
  cases hs : (segmentsOf layout32 file.content).reverse.find? fun seg => Provides seg a with
  | none => rfl
  | some seg =>
    have hseg := List.mem_reverse.mp (List.mem_of_find?_eq_some hs)
    have hp : Provides seg a := by simpa using List.find?_some hs
    obtain ⟨ht, hlo, hhi⟩ := hp
    obtain ⟨hdata, _⟩ := segmentOf_window h hseg ht
    rw [Option.map_some]
    dsimp only
    rw [segmentOf_address (virtualAddress_lt hseg), hdata, window_byte _ _ (by omega)]

omit hseg in
theorem fitsBuffer_iff : (∀ s ∈ (segmentsOf layout32 file.content).map segmentOf, FitsBuffer s) ↔
    EndsInside file.content := by
  rw [List.forall_mem_map]
  refine forall₂_congr fun seg hseg => forall_congr' fun ht => ?_
  obtain ⟨_, hsize⟩ := segmentOf_window h hseg ht
  obtain ⟨hlow, _⟩ := loadable_segment h hseg ht
  rw [segmentOf_address (virtualAddress_lt hseg), hsize]
  refine ⟨fun hfits => ?_, fun hfits _ => hfits⟩
  by_cases hz : seg.fileSize.toNat = 0
  · rw [hz]
    unfold bufferSize
    omega
  · exact hfits hz

end Image

/-- Memory behind main's loop: the image of the file where it has a byte. -/
def fileByte (host : ℕ → Byte) (bs : List Byte) (a : ℕ) : Byte :=
  if ∃ seg ∈ segmentsOf layout32 bs, Provides seg a then imageByte bs a else host a

theorem loaded_host {file : File Byte} {host : ℕ → Byte} {fin : LoadState} (h : Loadable file)
    (hl : Loaded ((segmentsOf layout32 file.content).map segmentOf) ⟨host, []⟩ fin) (a : ℕ) :
    fin.host a = fileByte host file.content a := by
  have hany : (∃ s ∈ (segmentsOf layout32 file.content).map segmentOf, s.Contains a) ↔
      ∃ seg ∈ segmentsOf layout32 file.content, Provides seg a := by
    simp only [List.mem_map, exists_exists_and_eq_and]
    exact exists_congr fun seg => and_congr_right fun hseg => contains_iff h hseg a
  rw [hl.host, replay_segments, elfByte_eq h, if_congr hany rfl rfl]
  rfl

/-- Exactly the loadable files reach the clock. Their entry address goes to PCCounter and
mem_buff holds the image that the bytes of the file describe; the copies stay in mem_buff
exactly when the segments end inside it. -/
theorem loadFile_image (path : String) (file : File Byte) (host : ℕ → Byte)
    (hz : ∀ a < bufferSize, host a = 0#8) :
    ((∃ r, loadFile path (some file) host = .ok r) ↔ Loadable file) ∧
    ∀ fin entry, loadFile path (some file) host = .ok (fin, entry) →
      entry = entryOf file.content ∧
      (∀ a < bufferSize, bytesOf (imemOf fin.host) a = imageByte file.content a) ∧
      ((∀ c ∈ fin.copies, ∀ a, c.Covers a → a < bufferSize) ↔ EndsInside file.content) := by
  constructor
  · constructor
    · rintro ⟨⟨fin, entry⟩, h⟩
      exact (loadFile_ok h).1
    · exact loadFile_of_loadable
  · intro fin entry h
    obtain ⟨hl, hentry, hloaded⟩ := loadFile_ok h
    have hcopies : fin.copies = _ := hloaded.copies
    refine ⟨hentry, fun a ha => ?_, ?_⟩
    · rw [loaded_byte hloaded hz ha, elfByte_eq hl]
    · rw [hcopies, List.nil_append, copies_in_bounds_iff, fitsBuffer_iff hl]

/-- ADDI x1, x0, 16 and ECALL in one segment at 0x100. -/
def addiElf : File Byte where
  content :=
    [0x7F#8, 0x45#8, 0x4C#8, 0x46#8, 1#8, 1#8, 1#8, 0#8, 0#8, 0#8, 0#8, 0#8, 0#8, 0#8, 0#8, 0#8,
      2#8, 0#8, 0xF3#8, 0#8, 1#8, 0#8, 0#8, 0#8, 0#8, 1#8, 0#8, 0#8, 52#8, 0#8, 0#8, 0#8,
      0#8, 0#8, 0#8, 0#8, 0#8, 0#8, 0#8, 0#8, 52#8, 0#8, 32#8, 0#8, 1#8, 0#8, 0#8, 0#8,
      0#8, 0#8, 0#8, 0#8] ++
    [1#8, 0#8, 0#8, 0#8, 84#8, 0#8, 0#8, 0#8, 0#8, 1#8, 0#8, 0#8, 0#8, 1#8, 0#8, 0#8,
      8#8, 0#8, 0#8, 0#8, 8#8, 0#8, 0#8, 0#8, 5#8, 0#8, 0#8, 0#8, 4#8, 0#8, 0#8, 0#8] ++
    [0x93#8, 0#8, 0#8, 1#8, 0x73#8, 0#8, 0#8, 0#8]
  limit := 2 ^ 44 - 1
  inside := by decide
  small := by decide

theorem addiElf_loadable : Loadable addiElf where
  wellFormed := ⟨rfl, rfl, Or.inl rfl, by decide, ⟨by decide +kernel, by decide +kernel,
    fun _ i hi => absurd hi (by revert i; decide +kernel), by decide +kernel⟩⟩
  encoding := rfl
  segments := by decide +kernel

theorem addiElf_image : ∃ fin,
    loadFile "addi.elf" (some addiElf) (fun _ => 0#8) = .ok (fin, 0x100#32) ∧
      (∀ c ∈ fin.copies, ∀ a, c.Covers a → a < bufferSize) ∧
      bytesOf (imemOf fin.host) 0x104 = 0x73#8 := by
  obtain ⟨hok, himage⟩ := loadFile_image "addi.elf" addiElf (fun _ => 0#8) (fun _ _ => rfl)
  obtain ⟨⟨fin, entry⟩, h⟩ := hok.mpr addiElf_loadable
  obtain ⟨rfl, hbytes, hfits⟩ := himage fin entry h
  refine ⟨fin, h, hfits.mpr (by decide +kernel), ?_⟩
  rw [hbytes 0x104 (by decide)]
  decide +kernel

end ElfImage
