import SimulatorRISCV.ElfHeaders

/-! # Reading an ELF file: elfio::load

The headers are read at computed offsets from one stream. A read that meets the end of the
file fails the stream for good, and only the segment loop looks at that. -/
namespace ElfReader

open PipelineDecoder PipelineDataMemory ElfLoader InputStream ElfHeaders

/-- section_impl::load, of which only the stream matters. -/
def SectionHeader.load (L : Layout) (swap : Bool) (s : Stream Byte) (headerOffset : BitVec 64) :
    Stream Byte :=
  let s := s.seekEnd
  let streamSize := s.tellg
  let (raw, s) := (s.seekg headerOffset).read L.shdrSize
  let header := SectionHeader.ofBytes L swap raw
  if header.type ≠ shtNull ∧ header.type ≠ shtNobits ∧ header.size < streamSize ∧
      header.size ≠ 0#64 then
    ((s.seekg header.offset).read header.size.toNat).2
  else s

/-- segment_impl::load; none when it returns false. -/
def SegmentImpl.load (L : Layout) (swap : Bool) (s : Stream Byte) (headerOffset : BitVec 64) :
    Option SegmentImpl × Stream Byte :=
  let s := s.seekEnd
  let streamSize := s.tellg
  let (raw, s) := (s.seekg headerOffset).read L.phdrSize
  let seg := SegmentImpl.ofBytes L swap raw
  if seg.type = ptNull ∨ seg.fileSize = 0#64 then (some seg, s)
  else
    let s := s.seekg seg.offset
    -- a segment larger than the file is accepted without its data
    if streamSize < seg.fileSize then (some seg, s)
    else
      let (data, s) := s.read seg.fileSize.toNat
      if s.fail then (none, s) else (some { seg with data := some data }, s)

def sectionLoop (L : Layout) (swap : Bool) (h : Header) (s : Stream Byte) : ℕ → Stream Byte
  | 0 => s
  | n + 1 => SectionHeader.load L swap (sectionLoop L swap h s n) (h.sectionAt n)

def loadSections (L : Layout) (swap : Bool) (h : Header) (s : Stream Byte) :
    Option (Stream Byte) :=
  if h.sectionsNum ≠ 0#16 ∧ h.sectionEntrySize.toNat < L.shdrSize then none
  else some (sectionLoop L swap h s h.sectionsNum.toNat)

abbrev Segments (n : ℕ) := { segments : List SegmentImpl // segments.length = n }

def Segments.snoc {n : ℕ} (segments : Segments n) (seg : SegmentImpl) : Segments (n + 1) :=
  ⟨segments.1 ++ [seg], by rw [List.length_append, segments.2]; rfl⟩

def segmentLoop (L : Layout) (swap : Bool) (h : Header) (s : Stream Byte) : (n : ℕ) →
    Option (Segments n × Stream Byte)
  | 0 => some (⟨[], rfl⟩, s)
  | n + 1 =>
    match segmentLoop L swap h s n with
    | none => none
    | some (segments, s) =>
      match SegmentImpl.load L swap s (h.segmentAt n) with
      | (none, _) => none
      | (some seg, s) => if s.fail then none else some (segments.snoc seg, s)

def loadSegments (L : Layout) (swap : Bool) (h : Header) (s : Stream Byte) :
    Option (Segments h.segmentsNum.toNat) :=
  if h.segmentsNum ≠ 0#16 ∧ h.segmentEntrySize.toNat < L.phdrSize then none
  else (segmentLoop L swap h s h.segmentsNum.toNat).map Prod.fst

structure Elfio where
  header : Header
  segments : Segments header.segmentsNum.toNat

def loadTables (L : Layout) (swap : Bool) (h : Header) (s : Stream Byte) : Option Elfio :=
  (loadSections L swap h s).bind fun s =>
    (loadSegments L swap h s).map fun segments => ⟨h, segments⟩

def loadHeader (L : Layout) (swap : Bool) (s : Stream Byte) : Option Elfio :=
  let (raw, s) := (s.seekg 0#64).read L.ehdrSize
  if raw.length ≠ L.ehdrSize then none
  else loadTables L swap (Header.ofBytes L swap raw) s

/-- elfio::load on a file that opens; none when it returns false. -/
def load (file : File Byte) : Option Elfio :=
  let (ident, s) := (file.opened.seekg 0#64).read 16
  if ident.length ≠ 16 ∨ ident.take 4 ≠ elfMagic then none
  else
    match createHeader (ident.getD 4 0#8) with
    | none => none
    | some L =>
      if ident.getD 5 0#8 ≠ elfData2Lsb ∧ ident.getD 5 0#8 ≠ elfData2Msb then none
      else loadHeader L (needConversion (ident.getD 5 0#8)) s

/-- The bytes a segment points to; a segment larger than the file has none. -/
def dataIn (bs : List Byte) (seg : SegmentImpl) : Option (List Byte) :=
  if seg.type = ptNull ∨ seg.fileSize = 0#64 ∨ bs.length < seg.fileSize.toNat then none
  else some (window bs seg.offset seg.fileSize.toNat)

def segmentIn (L : Layout) (swap : Bool) (bs : List Byte) (p : BitVec 64) : SegmentImpl :=
  let seg := SegmentImpl.ofBytes L swap (bs.drop p.toNat)
  { seg with data := dataIn bs seg }

/-- The header and the bytes that a section load asks for lie in the file. -/
structure SectionReadable (L : Layout) (swap : Bool) (bs : List Byte) (p : BitVec 64) : Prop where
  header : Inside bs p L.shdrSize
  data : (sectionIn L swap bs p).type ≠ shtNull → (sectionIn L swap bs p).type ≠ shtNobits →
    (sectionIn L swap bs p).size ≠ 0#64 →
    (sectionIn L swap bs p).size.toNat < bs.length →
    Inside bs (sectionIn L swap bs p).offset (sectionIn L swap bs p).size.toNat

/-- The data of a segment lies in the file; for one larger than the file only the seek
counts. -/
def DataReadable (file : File Byte) (seg : SegmentImpl) : Prop :=
  seg.type ≠ ptNull → seg.fileSize ≠ 0#64 →
    if file.content.length < seg.fileSize.toNat then seg.offset.toNat ≤ file.limit
    else Inside file.content seg.offset seg.fileSize.toNat

structure SegmentReadable (L : Layout) (swap : Bool) (file : File Byte) (p : BitVec 64) :
    Prop where
  header : Inside file.content p L.phdrSize
  data : DataReadable file (segmentIn L swap file.content p)

instance (file : File Byte) (seg : SegmentImpl) : Decidable (DataReadable file seg) :=
  inferInstanceAs (Decidable (_ → _ → _))

instance (L : Layout) (swap : Bool) (bs : List Byte) (p : BitVec 64) :
    Decidable (SectionReadable L swap bs p) :=
  decidable_of_iff (_ ∧ (_ → _ → _ → _ → _)) ⟨fun h => ⟨h.1, h.2⟩, fun h => ⟨h.header, h.data⟩⟩

instance (L : Layout) (swap : Bool) (file : File Byte) (p : BitVec 64) :
    Decidable (SegmentReadable L swap file p) :=
  decidable_of_iff (_ ∧ _) ⟨fun h => ⟨h.1, h.2⟩, fun h => ⟨h.header, h.data⟩⟩

def firstSegments (L : Layout) (swap : Bool) (h : Header) (bs : List Byte) (n : ℕ) :
    List SegmentImpl :=
  (List.range n).map fun i => segmentIn L swap bs (h.segmentAt i)

def segmentsOf (L : Layout) (bs : List Byte) : List SegmentImpl :=
  firstSegments L (swapOf bs) (headerOf L bs) bs (headerOf L bs).segmentsNum.toNat

/-- The entries of both tables; sections have to be readable only when there are
segments. -/
structure TablesReadable (L : Layout) (swap : Bool) (file : File Byte) (h : Header) : Prop where
  sectionSize : h.sectionsNum ≠ 0#16 → L.shdrSize ≤ h.sectionEntrySize.toNat
  segmentSize : h.segmentsNum ≠ 0#16 → L.phdrSize ≤ h.segmentEntrySize.toNat
  sections : h.segmentsNum ≠ 0#16 →
    ∀ i < h.sectionsNum.toNat, SectionReadable L swap file.content (h.sectionAt i)
  segments : ∀ i < h.segmentsNum.toNat, SegmentReadable L swap file (h.segmentAt i)

structure WellFormed (L : Layout) (file : File Byte) : Prop where
  magic : file.content.take 4 = elfMagic
  fileClass : createHeader (file.content.getD 4 0#8) = some L
  encoding : file.content.getD 5 0#8 = elfData2Lsb ∨ file.content.getD 5 0#8 = elfData2Msb
  complete : L.ehdrSize ≤ file.content.length
  tables : TablesReadable L (swapOf file.content) file (headerOf L file.content)

variable {L : Layout} {swap : Bool} {s : Stream Byte} {p : BitVec 64}

@[simp] theorem sectionLoad_file : (SectionHeader.load L swap s p).toFile = s.toFile := by
  unfold SectionHeader.load
  dsimp only
  split_ifs <;> simp

/-- A section load fails the stream exactly when it asks for bytes behind the end. -/
theorem sectionLoad_iff : (SectionHeader.load L swap s p).fail = false ↔
    s.fail = false ∧ SectionReadable L swap s.content p := by
  have hhead := read_seekg_iff (s := s.seekEnd) (p := p) L.shdr.1
  rw [seekEnd_fail, seekEnd_file] at hhead
  unfold SectionHeader.load
  dsimp only
  by_cases hr : ((s.seekEnd.seekg p).read L.shdrSize).2.fail = false
  · obtain ⟨hf, hin⟩ := hhead.mp hr
    have hsize := size_of_seekEnd hf
    rw [read_seekg hr, seekEnd_file, sectionOfBytes_window]
    split_ifs with hdata
    · obtain ⟨hnull, hbits, hlt, hz⟩ := hdata
      rw [BitVec.lt_def, hsize] at hlt
      have hpos : 0 < (sectionIn L swap s.content p).size.toNat := by
        rw [Nat.pos_iff_ne_zero]
        exact fun h0 => hz (BitVec.toNat_inj.mp h0)
      rw [read_seekg_iff hpos, read_file, seekg_file, seekEnd_file]
      constructor
      · rintro ⟨_, hd⟩
        exact ⟨hf, hin, fun _ _ _ _ => hd⟩
      · rintro ⟨_, hs⟩
        exact ⟨hr, hs.data hnull hbits hz hlt⟩
    · rw [BitVec.lt_def, hsize] at hdata
      refine ⟨fun _ => ⟨hf, hin, ?_⟩, fun _ => hr⟩
      intro hnull hbits hz hlt
      exact absurd ⟨hnull, hbits, hlt, hz⟩ hdata
  · constructor
    · intro h
      refine absurd ?_ hr
      split_ifs at h
      · exact (seekg_fail_iff.mp (read_ok h)).1
      · exact h
    · rintro ⟨hf, hs⟩
      exact absurd (hhead.mpr ⟨hf, hs.header⟩) hr

@[simp] theorem sectionLoop_file (h : Header) (n : ℕ) :
    (sectionLoop L swap h s n).toFile = s.toFile := by
  induction n with
  | zero => rfl
  | succ n ih => rw [sectionLoop, sectionLoad_file, ih]

theorem sectionLoop_iff (h : Header) (n : ℕ) : (sectionLoop L swap h s n).fail = false ↔
    s.fail = false ∧ ∀ i < n, SectionReadable L swap s.content (h.sectionAt i) := by
  induction n with
  | zero => simp [sectionLoop]
  | succ n ih =>
    rw [sectionLoop, sectionLoad_iff, ih, sectionLoop_file, and_assoc]
    refine and_congr_right fun _ => ?_
    constructor
    · rintro ⟨hall, hn⟩ i hi
      rcases Nat.lt_succ_iff_lt_or_eq.mp hi with hi | rfl
      · exact hall i hi
      · exact hn
    · exact fun hall => ⟨fun i hi => hall i (Nat.lt_succ_of_lt hi), hall n (Nat.lt_succ_self n)⟩

@[simp] theorem segmentLoad_file : (SegmentImpl.load L swap s p).2.toFile = s.toFile := by
  unfold SegmentImpl.load
  dsimp only
  split_ifs <;> simp

theorem segmentIn_header (bs : List Byte) : SegmentImpl.ofBytes L swap (bs.drop p.toNat) =
    { segmentIn L swap bs p with data := none } := rfl

theorem segmentIn_data (bs : List Byte) :
    (segmentIn L swap bs p).data = dataIn bs (segmentIn L swap bs p) := rfl

theorem segment_eq {seg : SegmentImpl} {d : Option (List Byte)} (h : seg.data = d) :
    ({ seg with data := d } : SegmentImpl) = seg := by rw [← h]

theorem segmentReadable_iff (file : File Byte) : SegmentReadable L swap file p ↔
    Inside file.content p L.phdrSize ∧ DataReadable file (segmentIn L swap file.content p) :=
  ⟨fun h => ⟨h.header, h.data⟩, fun h => ⟨h.1, h.2⟩⟩

theorem dataReadable_of_large {file : File Byte} {seg : SegmentImpl} (hnull : seg.type ≠ ptNull)
    (hz : seg.fileSize ≠ 0#64) (hbig : file.content.length < seg.fileSize.toNat) :
    DataReadable file seg ↔ seg.offset.toNat ≤ file.limit := by
  unfold DataReadable
  rw [if_pos hbig]
  exact ⟨fun h => h hnull hz, fun h _ _ => h⟩

theorem dataReadable_of_small {file : File Byte} {seg : SegmentImpl} (hnull : seg.type ≠ ptNull)
    (hz : seg.fileSize ≠ 0#64) (hsmall : ¬ file.content.length < seg.fileSize.toNat) :
    DataReadable file seg ↔ Inside file.content seg.offset seg.fileSize.toNat := by
  unfold DataReadable
  rw [if_neg hsmall]
  exact ⟨fun h => h hnull hz, fun h _ _ => h⟩

/-- A load that succeeds on a stream that stays good has read the header. -/
theorem segmentLoad_header {seg : SegmentImpl}
    (hseg : (SegmentImpl.load L swap s p).1 = some seg)
    (hgood : (SegmentImpl.load L swap s p).2.fail = false) :
    ((s.seekEnd.seekg p).read L.phdrSize).2.fail = false := by
  unfold SegmentImpl.load at hseg hgood
  dsimp only at hseg hgood
  split_ifs at hseg hgood with _ hbig hfail
  · exact hgood
  · exact (seekg_fail_iff.mp hgood).1
  · exact (seekg_fail_iff.mp (read_ok hgood)).1

/-- A load that succeeds on a stream that stays good returns the segment of the file. -/
theorem segmentLoad_iff {seg : SegmentImpl} :
    ((SegmentImpl.load L swap s p).1 = some seg ∧
      (SegmentImpl.load L swap s p).2.fail = false) ↔
    s.fail = false ∧ SegmentReadable L swap s.toFile p ∧
      segmentIn L swap s.content p = seg := by
  have hhead := read_seekg_iff (s := s.seekEnd) (p := p) L.phdr.1
  rw [seekEnd_fail, seekEnd_file] at hhead
  have hdata := @segmentIn_data L swap p s.content
  rw [segmentReadable_iff]
  by_cases hr : ((s.seekEnd.seekg p).read L.phdrSize).2.fail = false
  · obtain ⟨hf, hin⟩ := hhead.mp hr
    have hsize := size_of_seekEnd hf
    have hfile : ((s.seekEnd.seekg p).read L.phdrSize).2.toFile = s.toFile := by simp
    unfold SegmentImpl.load
    dsimp only
    rw [read_seekg hr, seekEnd_file, segmentOfBytes_window, segmentIn_header]
    generalize ((s.seekEnd.seekg p).read L.phdrSize).2 = t at hr hfile ⊢
    generalize segmentIn L swap s.content p = want at hdata ⊢
    dsimp only
    unfold dataIn at hdata
    split_ifs with hskip hbig hfail
    · -- no data is asked for
      rw [if_pos (or_assoc.mp (Or.inl hskip))] at hdata
      have hd : DataReadable s.toFile want :=
        fun hnull hz => absurd hskip (not_or.mpr ⟨hnull, hz⟩)
      rw [segment_eq hdata, Option.some_inj]
      exact ⟨fun h => ⟨hf, ⟨hin, hd⟩, h.1⟩, fun h => ⟨h.2.2, hr⟩⟩
    · -- the data is larger than the file
      rw [BitVec.lt_def, hsize] at hbig
      obtain ⟨hnull, hz⟩ := not_or.mp hskip
      rw [if_pos (Or.inr (Or.inr hbig))] at hdata
      rw [segment_eq hdata, Option.some_inj, seekg_fail_iff, hfile,
        dataReadable_of_large hnull hz hbig]
      exact ⟨fun h => ⟨hf, ⟨hin, h.2.2⟩, h.1⟩, fun h => ⟨h.2.2, hr, h.2.1.2⟩⟩
    all_goals
      obtain ⟨hnull, hz⟩ := not_or.mp hskip
      have hsmall : ¬ s.content.length < want.fileSize.toNat := by
        rwa [BitVec.lt_def, hsize] at hbig
      have hpos : 0 < want.fileSize.toNat := by
        rw [Nat.pos_iff_ne_zero]
        exact fun h0 => hz (BitVec.toNat_inj.mp h0)
      have hiff := read_seekg_iff (s := t) (p := want.offset) hpos
      have hd := dataReadable_of_small hnull hz hsmall
      rw [hfile] at hiff
    · rw [hd]
      rw [hfail] at hiff
      constructor
      · nofun
      · rintro ⟨_, ⟨_, hin⟩, _⟩
        exact absurd (hiff.mpr ⟨hr, hin⟩) (by decide)
    · rw [Bool.not_eq_true] at hfail
      rw [if_neg (not_or.mpr ⟨hnull, not_or.mpr ⟨hz, hsmall⟩⟩)] at hdata
      rw [read_seekg hfail, hfile, segment_eq hdata, Option.some_inj, hd]
      exact ⟨fun h => ⟨hf, ⟨hin, (hiff.mp hfail).2⟩, h.1⟩, fun h => ⟨h.2.2, hfail⟩⟩
  · constructor
    · rintro ⟨hseg, hgood⟩
      exact absurd (segmentLoad_header hseg hgood) hr
    · rintro ⟨hf, ⟨hin, _⟩, _⟩
      exact absurd (hhead.mpr ⟨hf, hin⟩) hr

theorem firstSegments_succ (L : Layout) (swap : Bool) (h : Header) (bs : List Byte) (n : ℕ) :
    firstSegments L swap h bs (n + 1) =
      firstSegments L swap h bs n ++ [segmentIn L swap bs (h.segmentAt n)] := by
  rw [firstSegments, List.range_succ, List.map_append]
  rfl

structure HasRead (L : Layout) (swap : Bool) (h : Header) (s : Stream Byte) (n : ℕ)
    (segments : List SegmentImpl) (fin : Stream Byte) : Prop where
  file : fin.toFile = s.toFile
  fail : fin.fail = s.fail
  good : 0 < n → s.fail = false
  readable : ∀ i < n, SegmentReadable L swap s.toFile (h.segmentAt i)
  segments : segments = firstSegments L swap h s.content n

theorem segmentLoop_hasRead {h : Header} {n : ℕ}
    {r : Segments n × Stream Byte}
    (hr : segmentLoop L swap h s n = some r) : HasRead L swap h s n r.1.1 r.2 := by
  induction n with
  | zero =>
    cases hr
    exact ⟨rfl, rfl, nofun, nofun, rfl⟩
  | succ n ih =>
    rw [segmentLoop] at hr
    split at hr
    · cases hr
    · rename_i segments t hprev
      have hread := ih hprev
      have hiff := @segmentLoad_iff L swap t (h.segmentAt n)
      have hfile := @segmentLoad_file L swap t (h.segmentAt n)
      split at hr
      · cases hr
      · rename_i seg u hload
        rw [hload] at hiff hfile
        split_ifs at hr with hfail
        cases hr
        rw [Bool.not_eq_true] at hfail
        obtain ⟨ht, hseg, heq⟩ := hiff.mp ⟨rfl, hfail⟩
        rw [hread.file] at hseg heq
        have hs : s.fail = false := hread.fail.symm.trans ht
        refine ⟨hfile.trans hread.file, hfail.trans hs.symm, fun _ => hs, ?_, ?_⟩
        · intro i hi
          rcases Nat.lt_succ_iff_lt_or_eq.mp hi with hi | rfl
          · exact hread.readable i hi
          · exact hseg
        · rw [firstSegments_succ, heq]
          exact congrArg (· ++ [seg]) hread.segments

theorem segmentLoop_of_readable {h : Header} {n : ℕ} (hs : 0 < n → s.fail = false)
    (hreadable : ∀ i < n, SegmentReadable L swap s.toFile (h.segmentAt i)) :
    ∃ r, segmentLoop L swap h s n = some r := by
  induction n with
  | zero => exact ⟨_, rfl⟩
  | succ n ih =>
    have hgood := hs (Nat.succ_pos n)
    obtain ⟨⟨segments, t⟩, hprev⟩ :=
      ih (fun _ => hgood) fun i hi => hreadable i (Nat.lt_succ_of_lt hi)
    have hread := segmentLoop_hasRead hprev
    have hseg : SegmentReadable L swap t.toFile (h.segmentAt n) := by
      rw [hread.file]
      exact hreadable n (Nat.lt_succ_self n)
    obtain ⟨hload, hfin⟩ := segmentLoad_iff.mpr ⟨hread.fail.trans hgood, hseg, rfl⟩
    rcases hl : SegmentImpl.load L swap t (h.segmentAt n) with ⟨seg, u⟩
    rw [hl] at hload hfin
    dsimp only at hload hfin
    subst hload
    rw [segmentLoop, hprev]
    dsimp only
    rw [hl]
    dsimp only
    rw [hfin]
    exact ⟨_, rfl⟩

theorem loadSections_iff {h : Header} {t : Stream Byte} : loadSections L swap h s = some t ↔
    (h.sectionsNum ≠ 0#16 → L.shdrSize ≤ h.sectionEntrySize.toNat) ∧
      sectionLoop L swap h s h.sectionsNum.toNat = t := by
  unfold loadSections
  split_ifs with hentry
  · constructor
    · nofun
    · rintro ⟨hsize, _⟩
      exact absurd (hsize hentry.1) (not_le.mpr hentry.2)
  · rw [Option.some_inj]
    constructor
    · exact fun ht => ⟨fun hnum => not_lt.mp fun hlt => hentry ⟨hnum, hlt⟩, ht⟩
    · exact fun ht => ht.2

theorem loadSegments_iff {h : Header} {segments : Segments h.segmentsNum.toNat} :
    loadSegments L swap h s = some segments ↔
      (h.segmentsNum ≠ 0#16 → L.phdrSize ≤ h.segmentEntrySize.toNat ∧ s.fail = false) ∧
      (∀ i < h.segmentsNum.toNat, SegmentReadable L swap s.toFile (h.segmentAt i)) ∧
      segments.1 = firstSegments L swap h s.content h.segmentsNum.toNat := by
  have hpos : 0 < h.segmentsNum.toNat ↔ h.segmentsNum ≠ 0#16 := by
    rw [Nat.pos_iff_ne_zero, ne_eq, ne_eq, ← BitVec.toNat_inj]
    rfl
  unfold loadSegments
  split_ifs with hentry
  · constructor
    · nofun
    · rintro ⟨hsize, _⟩
      exact absurd (hsize hentry.1).1 (not_le.mpr hentry.2)
  · rw [Option.map_eq_some_iff]
    constructor
    · rintro ⟨⟨_, t⟩, hloop, rfl⟩
      have hread := segmentLoop_hasRead hloop
      refine ⟨fun hnum => ⟨?_, hread.good (hpos.mpr hnum)⟩, hread.readable, hread.segments⟩
      exact not_lt.mp fun hlt => hentry ⟨hnum, hlt⟩
    · rintro ⟨hsize, hreadable, hsegments⟩
      obtain ⟨r, hloop⟩ := segmentLoop_of_readable (fun hn => (hsize (hpos.mp hn)).2) hreadable
      refine ⟨r, hloop, Subtype.ext ?_⟩
      rw [(segmentLoop_hasRead hloop).segments, hsegments]

theorem loadTables_iff {h : Header} {e : Elfio} (hs : s.fail = false) :
    loadTables L swap h s = some e ↔ TablesReadable L swap s.toFile h ∧ e.header = h ∧
      e.segments.1 = firstSegments L swap h s.content h.segmentsNum.toNat := by
  have hloop : (sectionLoop L swap h s h.sectionsNum.toNat).fail = false ↔
      s.fail = false ∧
        ∀ i < h.sectionsNum.toNat, SectionReadable L swap s.content (h.sectionAt i) :=
    sectionLoop_iff h h.sectionsNum.toNat
  unfold loadTables
  rw [Option.bind_eq_some_iff]
  constructor
  · rintro ⟨t, hsections, hsegments⟩
    obtain ⟨hsize, rfl⟩ := loadSections_iff.mp hsections
    obtain ⟨segments, hload, rfl⟩ := Option.map_eq_some_iff.mp hsegments
    obtain ⟨hentry, hreadable, heq⟩ := loadSegments_iff.mp hload
    rw [sectionLoop_file] at hreadable heq
    refine ⟨⟨hsize, fun hnum => (hentry hnum).1, fun hnum => ?_, hreadable⟩, rfl, heq⟩
    exact (hloop.mp (hentry hnum).2).2
  · rintro ⟨ht, rfl, heq⟩
    refine ⟨_, loadSections_iff.mpr ⟨ht.sectionSize, rfl⟩, Option.map_eq_some_iff.mpr
      ⟨e.segments, loadSegments_iff.mpr ⟨fun hnum => ⟨ht.segmentSize hnum, ?_⟩, ?_, ?_⟩, rfl⟩⟩
    · exact hloop.mpr ⟨hs, ht.sections hnum⟩
    · rw [sectionLoop_file]
      exact ht.segments
    · rw [sectionLoop_file]
      exact heq

theorem ident_byte (bs : List Byte) {k : ℕ} (hk : k < 16) :
    (bs.take 16).getD k 0#8 = bs.getD k 0#8 := by
  rw [List.getD_eq_getElem?_getD, List.getElem?_take_of_lt hk, List.getD_eq_getElem?_getD]

theorem ident_magic (bs : List Byte) : (bs.take 16).take 4 = bs.take 4 := by
  rw [List.take_take]
  rfl

/-- The 16 bytes of e_ident are there, and behind them the stream is good. -/
theorem ident_complete {L : Layout} {bs : List Byte} (h : L.ehdrSize ≤ bs.length) :
    (bs.take 16).length = 16 := by
  have := L.ident
  rw [List.length_take]
  omega

theorem loadHeader_iff {e : Elfio} (hs : s.fail = false) :
    loadHeader L swap s = some e ↔ L.ehdrSize ≤ s.content.length ∧
      TablesReadable L swap s.toFile (Header.ofBytes L swap s.content) ∧
      e.header = Header.ofBytes L swap s.content ∧
      e.segments.1 = firstSegments L swap (Header.ofBytes L swap s.content) s.content
        (Header.ofBytes L swap s.content).segmentsNum.toNat := by
  have hseek : (s.seekg 0#64).fail = false := seekg_fail_iff.mpr ⟨hs, Nat.zero_le _⟩
  have hgood := read_gcount (n := L.ehdrSize) hseek
  have hlen : (s.content.take L.ehdrSize).length = L.ehdrSize ↔
      L.ehdrSize ≤ s.content.length := by
    rw [List.length_take]
    omega
  unfold loadHeader
  dsimp only
  rw [read_start hs] at hgood ⊢
  rw [hlen] at hgood
  split_ifs with hshort
  · rw [ne_eq, hlen] at hshort
    exact ⟨nofun, fun h => absurd h.1 hshort⟩
  · rw [not_not, hlen] at hshort
    rw [loadTables_iff (hgood.mp hshort), read_file, seekg_file, headerOfBytes_take]
    exact ⟨fun h => ⟨hshort, h⟩, fun h => h.2⟩

theorem ident_read (file : File Byte) :
    ((file.opened.seekg 0#64).read 16).1 = file.content.take 16 ∧
    ((file.opened.seekg 0#64).read 16).2.toFile = file ∧
    ((file.content.take 16).length = 16 →
      ((file.opened.seekg 0#64).read 16).2.fail = false) := by
  have hstart := read_start (s := file.opened) (n := 16) rfl
  have hgood := read_gcount (s := file.opened.seekg 0#64) (n := 16) rfl
  rw [hstart] at hgood
  refine ⟨hstart, ?_, hgood.mp⟩
  rw [read_file, seekg_file]
  rfl

/-- What load returns is the header and the segments of a well formed file. -/
theorem load_sound {file : File Byte} {e : Elfio} (h : load file = some e) :
    ∃ L, WellFormed L file ∧ e.header = headerOf L file.content ∧
      e.segments.1 = segmentsOf L file.content := by
  obtain ⟨hident, hfile, hgood⟩ := ident_read file
  unfold load at h
  dsimp only at h
  rw [hident, ident_magic, ident_byte _ (by decide), ident_byte _ (by decide)] at h
  by_cases hid : (file.content.take 16).length ≠ 16 ∨ file.content.take 4 ≠ elfMagic
  · rw [if_pos hid] at h
    cases h
  · rw [if_neg hid] at h
    rw [not_or, not_not, not_not] at hid
    obtain ⟨hlen, hmagic⟩ := hid
    split at h
    · cases h
    · rename_i L hL
      split_ifs at h with henc
      replace henc := (not_and_or.mp henc).imp not_not.mp not_not.mp
      rw [loadHeader_iff (hgood hlen), hfile] at h
      obtain ⟨hcomplete, htables, hheader, hsegments⟩ := h
      exact ⟨L, ⟨hmagic, hL, henc, hcomplete, htables⟩, hheader, hsegments⟩

theorem load_complete {L : Layout} {file : File Byte} {e : Elfio}
    (hw : WellFormed L file) (hheader : e.header = headerOf L file.content)
    (hsegments : e.segments.1 = segmentsOf L file.content) : load file = some e := by
  obtain ⟨hident, hfile, hgood⟩ := ident_read file
  have hlen := ident_complete hw.complete
  have henc : ¬(file.content.getD 5 0#8 ≠ elfData2Lsb ∧ file.content.getD 5 0#8 ≠ elfData2Msb) := by
    rintro ⟨hl, hm⟩
    rcases hw.encoding with h | h
    · exact hl h
    · exact hm h
  have hid : ¬((file.content.take 16).length ≠ 16 ∨ file.content.take 4 ≠ elfMagic) := by
    rintro (h | h)
    · exact h hlen
    · exact h hw.magic
  unfold load
  dsimp only
  rw [hident, ident_magic, ident_byte _ (by decide), ident_byte _ (by decide), if_neg hid,
    hw.fileClass]
  dsimp only
  rw [if_neg henc, loadHeader_iff (hgood hlen), hfile]
  exact ⟨hw.complete, hw.tables, hheader, hsegments⟩

/-- elfio::load accepts exactly the files whose identification, tables and segments can be
read, and returns the header and the segments that the bytes describe. -/
theorem load_iff (file : File Byte) (e : Elfio) : load file = some e ↔
    ∃ L, WellFormed L file ∧ e.header = headerOf L file.content ∧
      e.segments.1 = segmentsOf L file.content := by
  constructor
  · exact load_sound
  · rintro ⟨L, hw, hheader, hsegments⟩
    exact load_complete hw hheader hsegments

end ElfReader
