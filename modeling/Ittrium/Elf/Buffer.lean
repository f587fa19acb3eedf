import Ittrium.Elf.Writes

/-!
# The file in its buffer

`load_file` reads the file into a block of the heap, and the functions behind it read it there, also
after they have written to the window or to the image: `eh` and `ph` point into the buffer.
`elfLoad` takes the bytes of the file as they were read.

* `FileBuf.file` — the file, as the buffer holds it
* `elfLoadIn` — `elf_load` with its reads where they are
* `elfLoadIn_eq` — **it is `elfLoad` as long as nothing is written to the buffer**
-/

namespace Ittrium.Elf

open Infra

/-! ## The buffer -/

/-- The buffer of `load_file`, and how many bytes of it are the file. -/
structure FileBuf where
  addr : VP
  len : Nat
  len_lt : len < 2 ^ 64

namespace FileBuf

variable (b : FileBuf) (mem : VP → UInt8)

def bytes : List UInt8 := (List.range b.len).map fun k => mem (b.addr + BitVec.ofNat 64 k)

theorem length_bytes : (b.bytes mem).length = b.len := by simp [bytes]

theorem bytes_lt : (b.bytes mem).length < 2 ^ 64 := (b.length_bytes mem).symm ▸ b.len_lt

/-- The file, as the buffer holds it. -/
def file : File := ⟨b.bytes mem, b.bytes_lt mem⟩

end FileBuf

/-- The buffer `f` has been read into. -/
def File.bufAt (f : File) (buf : VP) : FileBuf := ⟨buf, f.bytes.length, f.size_lt⟩

/-- A read of `ph[i]`, where `ph` points to `phoff` in the buffer. -/
def File.getPhAt (f : File) (phoff : BitVec 64) (i : Nat) (fld : PhField) : Load (BitVec 64) :=
  f.get (phoff + BitVec.ofNat 64 (56 * i) + fld.off) fld.width

/-! ## Loading -/

section

variable (b : FileBuf)

/-- `for (i = 0; i < eh->e_phnum; i++)`. `i` and `e_phnum` have 16 bits, so there are not more than
`2^16` rounds. -/
def phLoop (step : Machine → Nat → Load Machine) : Nat → Nat → Machine → Load Machine
  | 0, _, m => .ok m
  | rounds + 1, i, m => do
    let phnum ← (b.file m.mem).get 56 2
    if i < phnum.toNat then do
      let m ← step m i
      phLoop step rounds (i + 1) m
    else .ok m

variable (phoff : BitVec 64)

def loadFixedSegmentIn (m : Machine) (i : Nat) : Load Machine := do
  let type ← (b.file m.mem).getPhAt phoff i .type
  if type ≠ ptLoad then .ok m else do
  let dst ← (b.file m.mem).getPhAt phoff i .vaddr
  let memsz ← (b.file m.mem).getPhAt phoff i .memsz
  let m ← clearWindow dst memsz m
  let filesz ← (b.file m.mem).getPhAt phoff i .filesz
  if filesz = 0 then .ok m else do
  let offset ← (b.file m.mem).getPhAt phoff i .offset
  if offset + filesz > (b.file m.mem).size then .error (.reject m) else
  copyWindow (b.file m.mem) dst offset filesz m

def loadFixedIn (sc : Scan) (m : Machine) : Load (ElfImage × Machine) := do
  let m ← phLoop b (loadFixedSegmentIn b phoff) 0x10000 0 m
  let entry ← (b.file m.mem).get 24 8
  .ok (⟨sc.minV, sc.maxV - sc.minV, entry, false⟩, m)

def loadSegmentIn (img : VP) (minV span : BitVec 64) (m : Machine) (i : Nat) : Load Machine := do
  let type ← (b.file m.mem).getPhAt phoff i .type
  if type ≠ ptLoad then .ok m else do
  let vaddr ← (b.file m.mem).getPhAt phoff i .vaddr
  let filesz ← (b.file m.mem).getPhAt phoff i .filesz
  if filesz = 0 then .ok m else do
  let offset ← (b.file m.mem).getPhAt phoff i .offset
  if offset + filesz > (b.file m.mem).size then do
    let m ← m.free img
    .error (.reject m)
  else copyImg (b.file m.mem) img span (vaddr - minV) offset filesz m

def loadRelocatableIn (type : BitVec 64) (sc : Scan) (alloc : Option VP) (m : Machine) :
    Load (ElfImage × Machine) :=
  let span := sc.maxV - sc.minV
  match alloc with
  | none => .error (.reject m)
  | some img => do
    let m := m.malloc img (if span ≠ 0 then span.toNat else 16)
    let m := m.blit img span.toNat fun _ => 0
    let slide := img - sc.minV
    let m ← phLoop b (loadSegmentIn b phoff img sc.minV span) 0x10000 0 m
    let m ← (if sc.haveDyn then relocate img sc.minV span slide sc.dynVaddr m
      else if type = etDyn ∨ sc.haveDyn then do
        let m ← m.free img
        .error (.reject m)
      else .ok m)
    let entry ← (b.file m.mem).get 24 8
    .ok (⟨img, span, entry + slide, true⟩, m)

/-- Nothing is written before the segments are. -/
def loadElfIn (alloc : Option VP) (m : Machine) : Load (ElfImage × Machine) := do
  let f := b.file m.mem
  let type ← checkEhdr f m
  let phoff ← f.get 32 8
  let sc ← scanPhdrs f
  if sc.minV > sc.maxV then .error (.reject m) else do
  let wantReloc := decide (type = etDyn) || sc.haveDyn
  let ok ← (if !wantReloc && type = etExec then
      (List.range f.ePhnum.toNat).foldlM (fitsWindow f) true
    else .ok false)
  if ok then loadFixedIn b phoff sc m else loadRelocatableIn b phoff type sc alloc m

/-- `h->entry_off` is read once more behind the copy. -/
def loadItrmIn (alloc : Option VP) (m : Machine) : Load (ElfImage × Machine) := do
  let f := b.file m.mem
  if f.size < itrmHdrSize then .error (.reject m) else do
  let magic ← f.get 0 4
  if magic ≠ itrmMagic then .error (.reject m) else do
  let payload ← f.get 8 4
  if itrmHdrSize + payload > f.size then .error (.reject m) else do
  let entryOff ← f.get 4 4
  if entryOff ≥ payload then .error (.reject m) else
  match alloc with
  | none => .error (.reject m)
  | some img => do
    let m ← copyImg f img payload 0 itrmHdrSize payload (m.malloc img payload.toNat)
    let entryOff ← (b.file m.mem).get 4 4
    .ok (⟨img, payload, img + entryOff, true⟩, m)

end

/-- The reads of `load_file`, when they have come to the end of the file. -/
def LoadFile.fill (m : Machine) : LoadFile → Machine
  | .whole buf f => m.blit buf f.bytes.length f.byte
  | _ => m

/-- `elf_load`. -/
def elfLoadIn (file : LoadFile) (alloc : Option VP) (m : Machine) : Load (ElfImage × Machine) :=
  match file with
  | .whole buf f =>
    let m := ((LoadFile.whole buf f).fill m).malloc buf (bufSize f.size)
    freeFile buf do
      let itrm ← isItrm ((f.bufAt buf).file m.mem)
      if itrm then loadItrmIn (f.bufAt buf) alloc m else loadElfIn (f.bufAt buf) alloc m
  | file => elfLoad file alloc m

/-! ## A buffer that stays -/

/-- Nothing that is written is in the buffer. -/
def LoadFile.BufferApart (alloc : Option VP) (file : LoadFile) : Prop :=
  ∀ b ∈ file.buffer, ∀ c ∈ file.areas alloc, Disjoint (area b.1 b.2) (area c.1 c.2)

instance (alloc : Option VP) (file : LoadFile) : Decidable (file.BufferApart alloc) :=
  List.decidableBAll _ _

/-- The buffer holds `f` whatever is written to `W`. -/
def FileBuf.Holds (b : FileBuf) (f : File) (W : Set VP) (mem : VP → UInt8) : Prop :=
  ∀ m : Machine, Kept W mem m → b.file m.mem = f

variable {b : FileBuf} {f : File} {W : Set VP} {mem : VP → UInt8} {m : Machine} {i : Nat}
  {alloc : Option VP} {buf img : VP} {file : LoadFile}

theorem FileBuf.file_congr {mem' : VP → UInt8} (h : Set.EqOn mem' mem (area b.addr b.len)) :
    b.file mem' = b.file mem := by
  unfold file
  congr 1
  refine List.map_congr_left fun k hk => h ?_
  have hlt := b.len_lt
  have hk := List.mem_range.mp hk
  rw [mem_area, show b.addr + BitVec.ofNat 64 k - b.addr = BitVec.ofNat 64 k by bv_omega,
    BitVec.toNat_ofNat, Nat.mod_eq_of_lt (by omega)]
  exact hk

/-- What has been read is in the buffer. -/
theorem file_fill (f : File) (buf : VP) (m : Machine) :
    (f.bufAt buf).file ((LoadFile.whole buf f).fill m).mem = f := by
  have hread : (f.bufAt buf).bytes ((LoadFile.whole buf f).fill m).mem =
      (List.range f.bytes.length).map f.byte := by
    refine List.map_congr_left fun k hk => ?_
    have hlt := f.size_lt
    have hk : k < f.bytes.length := List.mem_range.mp hk
    have hoff : (buf + BitVec.ofNat 64 k - buf).toNat = k := by
      rw [show buf + BitVec.ofNat 64 k - buf = BitVec.ofNat 64 k by bv_omega, BitVec.toNat_ofNat,
        Nat.mod_eq_of_lt (by omega)]
    show (if (buf + BitVec.ofNat 64 k - buf).toNat < f.bytes.length then
      f.byte (buf + BitVec.ofNat 64 k - buf).toNat else _) = _
    rw [hoff, if_pos hk]
  have hbytes : (List.range f.bytes.length).map f.byte = f.bytes := by
    refine List.ext_getElem (by simp) fun k hk hk' => ?_
    simp [File.byte, List.getElem?_eq_getElem hk']
  obtain ⟨bytes, hsize⟩ := f
  unfold FileBuf.file
  congr 1
  exact hread.trans hbytes

theorem FileBuf.Holds.of_disjoint (h : b.file mem = f) (hd : Disjoint W (area b.addr b.len)) :
    b.Holds f W mem :=
  fun _ hm => (FileBuf.file_congr (OnlyIn.keeps hm hd)).trans h

theorem length_le_bufSize (f : File) : f.bytes.length ≤ bufSize f.size := by
  have hto := size_toNat f
  unfold bufSize
  split
  · exact hto.ge
  · next h0 => rw [not_not.mp h0] at hto; exact hto ▸ Nat.zero_le _

/-! ## The same loads -/

section

variable {I : Nat → Machine → Prop} {F : Halt LoadFault Machine → Prop}
  {step step' : Machine → Nat → Load Machine}

/-- The loop is one over the program headers there were at the start. -/
theorem phLoop_eq {phnum : BitVec 64}
    (hget : ∀ k m, I k m → (b.file m.mem).get 56 2 = .ok phnum)
    (hstep : ∀ k < phnum.toNat, ∀ m, I k m → step m k = step' m k)
    (hkeep : ∀ k < phnum.toNat, ∀ m, I k m → Yields (step' m k) (I (k + 1)) F) :
    ∀ rounds k m, I k m → phnum.toNat ≤ k + rounds →
      phLoop b step rounds k m = (List.range' k (phnum.toNat - k)).foldlM step' m := by
  intro rounds
  induction rounds with
  | zero =>
    intro k m _ hle
    rw [show phnum.toNat - k = 0 by omega]
    rfl
  | succ rounds ih =>
    intro k m hI hle
    unfold phLoop
    rw [hget k m hI]
    show (if k < phnum.toNat then _ else _) = _
    by_cases hk : k < phnum.toNat
    · rw [if_pos hk, hstep k hk m hI, show phnum.toNat - k = (phnum.toNat - (k + 1)) + 1 by omega,
        List.range'_succ, List.foldlM_cons]
      refine bind_congr_ok fun m' hm' => ih (k + 1) m' ?_ (by omega)
      exact (hkeep k hk m hI).result m' hm'
    · rw [if_neg hk, show phnum.toNat - k = 0 by omega]
      rfl

/-- All rounds of it. -/
theorem phLoop_all (hacc : f.Accepted) (hfile : ∀ k m, I k m → b.file m.mem = f)
    (hstep : ∀ k < f.phnum, ∀ m, I k m → step m k = step' m k)
    (hkeep : ∀ k < f.phnum, ∀ m, I k m → Yields (step' m k) (I (k + 1)) F) (h₀ : I 0 m) :
    phLoop b step 0x10000 0 m = (List.range f.phnum).foldlM step' m := by
  have hlt : f.phnum < 2 ^ 16 := by
    have hlt := readLE_lt f.byte (56 : BitVec 64).toNat 2
    rw [File.phnum, File.ePhnum, File.num, BitVec.toNat_ofNat]
    omega
  have hget : ∀ k m, I k m → (b.file m.mem).get 56 2 = .ok f.ePhnum := by
    intro k m hI
    rw [hfile k m hI]
    exact get_ok (inside_header hacc.1 (by decide))
  rw [phLoop_eq hget hstep hkeep 0x10000 0 m h₀ (by unfold File.phnum at hlt; omega),
    List.range_eq_range']
  rfl

end

theorem ph_of_getPh {fld : PhField} {v : BitVec 64} (h : f.getPh i fld = .ok v) :
    v = f.ph i fld := by
  have hy : Yields (f.getPh i fld) (fun v => v = f.ph i fld)
      (KeptOnReject Set.univ fun _ => 0) := getPh_yields i fld
  exact hy.result v h

theorem loadFixedSegmentIn_eq (hb : b.Holds f W mem) (hW : areas f.fixedAreas ⊆ W)
    (hi : i < f.phnum) (hr : f.Reaches i) (h : Kept W mem m) :
    loadFixedSegmentIn b f.ePhoff m i = loadFixedSegment f m i := by
  unfold loadFixedSegmentIn loadFixedSegment
  rw [hb m h]
  refine bind_congr_ok fun type ht => ?_
  obtain rfl := ph_of_getPh ht
  by_cases hl : f.ph i .type ≠ ptLoad
  · rw [if_pos hl, if_pos hl]
  rw [if_neg hl, if_neg hl]
  refine bind_congr_ok fun dst hd => bind_congr_ok fun memsz hm => ?_
  obtain rfl := ph_of_getPh hd
  obtain rfl := ph_of_getPh hm
  -- what is cleared is no part of the buffer
  refine bind_congr_ok fun m₁ hm₁ => ?_
  have hsub : area (f.ph i .vaddr) (f.ph i .memsz).toNat ⊆ W :=
    (area_subset_fixedAreas hi (not_not.mp hl) hr (by simp [File.segmentAreas])).trans hW
  rw [hb m₁ ((clearWindow_kept h hsub).result m₁ hm₁)]
  rfl

theorem loadFixedIn_eq {sc : Scan} (hacc : f.Accepted) (hb : b.Holds f W mem)
    (hW : areas f.fixedAreas ⊆ W) (h : Kept W mem m) :
    loadFixedIn b f.ePhoff sc m = loadFixed f sc m := by
  have hkeep : ∀ k < f.phnum, ∀ m, f.Reaches k ∧ Kept W mem m →
      Yields (loadFixedSegment f m k) (fun m' => f.Reaches (k + 1) ∧ Kept W mem m')
        (KeptOnReject W mem) := fun k hk m hm => loadFixedSegment_kept hW hk hm.1 hm.2
  have h₀ : f.Reaches 0 ∧ Kept W mem m := ⟨fun j hj => absurd hj (Nat.not_lt_zero j), h⟩
  unfold loadFixedIn loadFixed
  rw [phLoop_all (I := fun k m => f.Reaches k ∧ Kept W mem m) hacc (fun k m hm => hb m hm.2)
    (fun k hk m hm => loadFixedSegmentIn_eq hb hW hk hm.1 hm.2) hkeep h₀]
  refine bind_congr_ok fun m₁ hm₁ => ?_
  rw [hb m₁ ((Yields.foldlM_range hkeep h₀).result m₁ hm₁).2]

theorem loadRelocatableIn_eq {sc : Scan} {type : BitVec 64} (hacc : f.Accepted)
    (hb : b.Holds f W mem) (hW : ∀ img ∈ alloc, Covers W img (sc.maxV - sc.minV))
    (h : Kept W mem m) :
    loadRelocatableIn b f.ePhoff type sc alloc m = loadRelocatable f type sc alloc m := by
  unfold loadRelocatableIn loadRelocatable
  cases alloc with
  | none => rfl
  | some img =>
    have hW := hW img rfl
    have hcleared : ∀ n, Kept W mem ((m.malloc img n).blit img (sc.maxV - sc.minV).toNat fun _ => 0) :=
      fun n => Kept.blit (show Kept W mem (m.malloc img n) from h) hW
    have h₀ := hcleared (if sc.maxV - sc.minV ≠ 0 then (sc.maxV - sc.minV).toNat else 16)
    have hkeep : ∀ k < f.phnum, ∀ m, Kept W mem m →
        Yields (loadSegment f img sc.minV (sc.maxV - sc.minV) m k) (Kept W mem)
          (KeptOnReject W mem) := fun k _ m hm => loadSegment_kept hW hm
    have hstep : ∀ k < f.phnum, ∀ m, Kept W mem m →
        loadSegmentIn b f.ePhoff img sc.minV (sc.maxV - sc.minV) m k =
          loadSegment f img sc.minV (sc.maxV - sc.minV) m k := by
      intro k _ m hm
      unfold loadSegmentIn
      rw [hb m hm]
      rfl
    dsimp only
    rw [phLoop_all (I := fun _ m => Kept W mem m) hacc (fun _ m hm => hb m hm) hstep hkeep h₀]
    refine bind_congr_ok fun m₁ hm₁ => bind_congr_ok fun m₂ hm₂ => ?_
    have h₁ := (Yields.foldlM_range (I := fun _ m => Kept W mem m) hkeep h₀).result m₁ hm₁
    rw [hb m₂ ((finish_kept hW h₁).result m₂ hm₂)]

theorem loadItrmIn_eq (hi : f.Itrm) (hb : b.Holds f W mem)
    (hW : ∀ img ∈ alloc, Covers W img f.payload) (h : Kept W mem m) :
    loadItrmIn b alloc m = loadItrm f alloc m := by
  unfold loadItrmIn loadItrm
  dsimp only
  rw [hb m h, get_ok (inside_header hi.1 (show (0 : BitVec 64).toNat + 4 ≤ 12 by decide)),
    get_ok (inside_header hi.1 (show (8 : BitVec 64).toNat + 4 ≤ 12 by decide))]
  have hentry : f.get 4 4 = .ok (f.num 4 4) := get_ok (inside_header hi.1 (by decide))
  refine if_congr Iff.rfl rfl (if_congr Iff.rfl rfl (if_congr Iff.rfl rfl ?_))
  rw [hentry]
  refine if_congr Iff.rfl rfl ?_
  cases alloc with
  | none => rfl
  | some img =>
    refine bind_congr_ok fun m₁ hm₁ => ?_
    have hmalloc : Kept W mem (m.malloc img f.payload.toNat) := h
    rw [hb m₁ ((copyImg_kept (hW img rfl) hmalloc).result m₁ hm₁), hentry]
    rfl

theorem loadElfIn_eq (hi : ¬ f.Itrm) (hb : b.Holds f W mem)
    (hW : Infra.areas ((LoadFile.whole buf f).areas alloc) ⊆ W) (h : Kept W mem m) :
    loadElfIn b alloc m = loadElf f alloc m := by
  by_cases hacc : f.Accepted
  swap
  · rw [loadElf_reject hacc]
    unfold loadElfIn
    dsimp only
    rw [hb m h, checkEhdr_eq, if_neg hacc]
    rfl
  have hphoff : f.get 32 8 = .ok f.ePhoff := get_ok (inside_header hacc.1 (by decide))
  by_cases hin : HeadersIn f
  swap
  · obtain ⟨e, -, he⟩ := (scanPhdrs_mirrors (Q := fun _ => True) f).fails hin
    unfold loadElfIn loadElf
    dsimp only
    rw [hb m h, checkEhdr_eq, if_pos hacc, hphoff, he]
    rfl
  obtain ⟨sc, hsc, rfl⟩ := (scanPhdrs_mirrors (Q := fun _ => True) f).passes hin
  rw [loadElf_eq hacc hin]
  unfold loadElfIn
  dsimp only
  rw [hb m h, checkEhdr_eq, if_pos hacc, hphoff, hsc]
  show (if f.minV > f.scan.maxV then _ else _) = _
  by_cases hv : f.minV > f.scan.maxV
  · rw [if_pos hv, if_pos hv]
  rw [if_neg hv, if_neg hv, show f.ePhnum.toNat = f.phnum from rfl, fits_eq hin]
  show (if decide f.Fixed = true then _ else _) = _
  by_cases hf : f.Fixed
  · rw [if_pos (decide_eq_true hf), if_pos hf]
    refine loadFixedIn_eq hacc hb (fixedAreas_subset hacc hf hv hW) h
  · rw [if_neg (by simpa using hf), if_neg hf]
    exact loadRelocatableIn_eq hacc hb (fun img himg => covers_image hi hf hW himg) h

/-- **Where the file is read makes no difference as long as its buffer is apart from what is
written.** -/
theorem elfLoadIn_eq (hap : file.BufferApart alloc) :
    elfLoadIn file alloc m = elfLoad file alloc (file.fill m) := by
  cases file with
  | absent | nomem | short buf size => rfl
  | whole buf f =>
    have hdisj : Disjoint (Infra.areas ((LoadFile.whole buf f).areas alloc))
        (area (f.bufAt buf).addr (f.bufAt buf).len) := by
      rw [disjoint_areas_iff]
      intro c hc
      have hd := hap (buf, bufSize f.size) (List.mem_singleton_self _) c hc
      exact (hd.mono_left fun x hx => Nat.lt_of_lt_of_le hx (length_le_bufSize f)).symm
    have hb := FileBuf.Holds.of_disjoint (file_fill f buf m) hdisj
    have h : Kept (Infra.areas ((LoadFile.whole buf f).areas alloc))
        ((LoadFile.whole buf f).fill m).mem
        (((LoadFile.whole buf f).fill m).malloc buf (bufSize f.size)) := OnlyIn.refl
    rw [elfLoad_whole]
    unfold elfLoadIn
    dsimp only
    rw [hb _ h, isItrm_eq]
    show freeFile buf (if decide f.Itrm = true then _ else _) = _
    by_cases hi : f.Itrm
    · rw [if_pos (decide_eq_true hi), if_pos hi,
        loadItrmIn_eq hi hb (fun img himg => covers_payload hi himg) h]
    · rw [if_neg (by simpa using hi), if_neg hi, loadElfIn_eq hi hb subset_rfl h]

end Ittrium.Elf
