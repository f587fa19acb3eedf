import Ittrium.Elf.Heap
import Ittrium.Infra.Areas
import Ittrium.Infra.Outcome

/-!
# What a load writes and returns

* `File.fixedAreas`, `LoadFile.areas` — the bytes a load may write
* `elfLoad_kept` — **`elf_load` changes no others, also when it gives up half way**
* `LoadFile.image` — the image of a file, if it is loaded
* `elfLoad_returns` — **`elf_load` returns it, and leaves only its block allocated**
-/

namespace Ittrium.Elf

open Infra

variable {f : File} {m m' : Machine} {img p dst : VP} {alloc : Option VP} {W : Set VP}
  {mem : VP → UInt8} {i n : Nat}

/-! ## Changes -/

/-- The memory was `mem`, and has changed only in `W`. -/
def Kept (W : Set VP) (mem : VP → UInt8) (m : Machine) : Prop := OnlyIn W mem m.mem

/-- It has when the loader gives up. -/
abbrev KeptOnReject (W : Set VP) (mem : VP → UInt8) : Halt LoadFault Machine → Prop :=
  Halt.OnReject (Kept W mem)

theorem Kept.blit {src : Nat → UInt8} (h : Kept W mem m) (hW : area dst n ⊆ W) :
    Kept W mem (m.blit dst n src) := by
  refine OnlyIn.trans h fun x hx => ?_
  exact if_neg fun hlt => hx (hW hlt)

theorem Kept.free (h : Kept W mem m) : Yields (m.free p) (Kept W mem) (KeptOnReject W mem) := by
  unfold Machine.free
  split
  · exact .ok h
  · exact .fail trivial

theorem Kept.reject {α : Type} {P : α → Prop} (h : Kept W mem m) :
    Yields (.error (.reject m) : Load α) P (KeptOnReject W mem) := .fail h

theorem get_yields (off : BitVec 64) (w : Nat) :
    Yields (f.get off w) (fun v => v = f.num off w) (KeptOnReject W mem) :=
  .ite (fun _ => .ok rfl) fun _ => .fail trivial

theorem getPh_yields (i : Nat) (fld : PhField) :
    Yields (f.getPh i fld) (fun v => v = f.ph i fld) (KeptOnReject W mem) := get_yields _ _

/-! ## The window -/

section

variable {src k : BitVec 64}

theorem clearWindow_kept (h : Kept W mem m) (hW : area dst k.toNat ⊆ W) :
    Yields (clearWindow dst k m) (Kept W mem) (KeptOnReject W mem) :=
  .ite (fun _ => .ok (h.blit hW)) fun _ => .fail trivial

theorem copyWindow_kept (h : Kept W mem m) (hW : area dst k.toNat ⊆ W) :
    Yields (copyWindow f dst src k m) (Kept W mem) (KeptOnReject W mem) :=
  .ite (fun _ => .fail trivial) fun _ => .ite (fun _ => .ok (h.blit hW)) fun _ => .fail trivial

end

instance (f : File) (k : Nat) : Decidable (f.Reaches k) :=
  inferInstanceAs (Decidable (∀ i < k, _))

/-- The bytes of `ph[i]` in the window. -/
def File.segmentAreas (f : File) (i : Nat) : List (VP × Nat) :=
  [(f.ph i .vaddr, (f.ph i .memsz).toNat)] ++
    if f.TooLong i then [] else [(f.ph i .vaddr, (f.ph i .filesz).toNat)]

/-- The bytes of a fixed file, up to the first segment that is refused. -/
def File.fixedAreas (f : File) : List (VP × Nat) :=
  (List.range f.phnum).flatMap fun i =>
    if f.Loads i ∧ f.Reaches i then f.segmentAreas i else []

theorem area_subset_fixedAreas (hi : i < f.phnum) (hl : f.Loads i) (hr : f.Reaches i)
    (h : (p, n) ∈ f.segmentAreas i) : area p n ⊆ areas f.fixedAreas := by
  refine area_subset_areas (List.mem_flatMap.mpr ⟨i, List.mem_range.mpr hi, ?_⟩)
  rw [if_pos ⟨hl, hr⟩]
  exact h

theorem loadFixedSegment_kept (hW : areas f.fixedAreas ⊆ W) (hi : i < f.phnum) (hr : f.Reaches i)
    (h : Kept W mem m) :
    Yields (loadFixedSegment f m i) (fun m' => f.Reaches (i + 1) ∧ Kept W mem m')
      (KeptOnReject W mem) := by
  have hnext : ¬ f.TooLong i → f.Reaches (i + 1) := fun hn j hj => by
    rcases Nat.lt_succ_iff_lt_or_eq.mp hj with hj | rfl
    · exact hr j hj
    · exact hn
  unfold loadFixedSegment
  refine (getPh_yields _ _).bind fun type ht => ?_
  subst ht
  refine .ite (fun hl => .ok ⟨hnext fun htl => hl htl.1.1, h⟩) fun hl => ?_
  have hl : f.Loads i := not_not.mp hl
  have hsub : ∀ {p n}, (p, n) ∈ f.segmentAreas i → area p n ⊆ W := fun hmem =>
    (area_subset_fixedAreas hi hl hr hmem).trans hW
  refine (getPh_yields _ _).bind fun vaddr hv => (getPh_yields _ _).bind fun memsz hm => ?_
  subst hv hm
  refine (clearWindow_kept h ?_).bind fun m₁ h₁ => (getPh_yields _ _).bind fun filesz hf => ?_
  · exact hsub (by simp [File.segmentAreas])
  subst hf
  refine .ite (fun hz => .ok ⟨hnext fun htl => htl.1.2 hz, h₁⟩) fun hz => ?_
  refine (getPh_yields _ _).bind fun offset ho => ?_
  subst ho
  refine .ite (fun _ => h₁.reject) fun hs => ?_
  have hn : ¬ f.TooLong i := fun htl => hs htl.2
  refine (copyWindow_kept h₁ ?_).mono fun m₂ h₂ => ⟨hnext hn, h₂⟩
  exact hsub (by simp [File.segmentAreas, hn])

theorem loadFixed_kept {sc : Scan} (hW : areas f.fixedAreas ⊆ W) (h : Kept W mem m) :
    Yields (loadFixed f sc m) (fun v => Kept W mem v.2) (KeptOnReject W mem) := by
  unfold loadFixed
  refine Yields.bind (P := fun m' => Kept W mem m') ?_ fun m₁ h₁ =>
    (get_yields _ _).bind fun entry _ => .ok h₁
  refine (Yields.foldlM_range (I := fun k m' => f.Reaches k ∧ Kept W mem m')
    (fun k hk m' hm' => loadFixedSegment_kept hW hk hm'.1 hm'.2)
    ⟨fun j hj => absurd hj (Nat.not_lt_zero j), h⟩).mono fun m' hm' => hm'.2

/-! ## Images -/

section

variable {span off v minV slide rela nsym dynVaddr : BitVec 64} {symtab : Option (BitVec 64)}

/-- `W` has all bytes of the image. -/
def Covers (W : Set VP) (img : VP) (span : BitVec 64) : Prop := area img span.toNat ⊆ W

theorem Covers.part (hW : Covers W img span) (h : InSpan span off n) : area (img + off) n ⊆ W :=
  (area_offset h).trans hW

theorem readImg_yields (off : BitVec 64) (w : Nat) (m : Machine) :
    Yields (readImg img span off w m) (fun _ => True) (KeptOnReject W mem) :=
  .ite (fun _ => .ok trivial) fun _ => .fail trivial

theorem writeImg_kept (hW : Covers W img span) (h : Kept W mem m) :
    Yields (writeImg img span off v m) (Kept W mem) (KeptOnReject W mem) :=
  .ite (fun hin => .ok (h.blit (hW.part hin))) fun _ => .fail trivial

theorem copyImg_kept (hW : Covers W img span) (h : Kept W mem m) {dst src k : BitVec 64} :
    Yields (copyImg f img span dst src k m) (Kept W mem) (KeptOnReject W mem) :=
  .ite (fun _ => .fail trivial) fun _ =>
    .ite (fun hin => .ok (h.blit (hW.part hin))) fun _ => .fail trivial

theorem loadSegment_kept (hW : Covers W img span) (h : Kept W mem m) :
    Yields (loadSegment f img minV span m i) (Kept W mem) (KeptOnReject W mem) := by
  unfold loadSegment
  refine (getPh_yields _ _).bind fun type _ => .ite (fun _ => .ok h) fun _ => ?_
  refine (getPh_yields _ _).bind fun vaddr _ => (getPh_yields _ _).bind fun filesz _ => ?_
  refine .ite (fun _ => .ok h) fun _ => (getPh_yields _ _).bind fun offset _ => ?_
  exact .ite (fun _ => h.free.bind fun m' h' => h'.reject) fun _ => copyImg_kept hW h

theorem dynLoop_yields (m : Machine) : ∀ (fuel : Nat) (dyn : BitVec 64) (d : Dyn),
    Yields (dynLoop img span m fuel dyn d) (fun _ => True) (KeptOnReject W mem) := by
  intro fuel
  induction fuel with
  | zero => exact fun _ _ => .fail trivial
  | succ fuel ih =>
    intro dyn d
    refine (readImg_yields _ _ m).bind fun tag _ => .ite (fun _ => .ok trivial) fun _ => ?_
    refine Yields.bind (P := fun _ => True) (.ite (fun _ => ?_) fun _ => .ok trivial) fun d' _ =>
      ih _ d'
    exact (readImg_yields _ _ m).bind fun val _ => .ok trivial

theorem applyReloc_kept (hW : Covers W img span) (h : Kept W mem m) :
    Yields (applyReloc img minV span slide rela symtab nsym m i) (Kept W mem)
      (KeptOnReject W mem) := by
  unfold applyReloc
  refine (readImg_yields _ _ m).bind fun info _ => (readImg_yields _ _ m).bind fun off _ => ?_
  refine .ite (fun _ => h.reject) fun _ => .ite (fun _ => ?_) fun _ => ?_
  · exact (readImg_yields _ _ m).bind fun addend _ => writeImg_kept hW h
  refine .ite (fun _ => ?_) fun _ => h.reject
  split
  · exact h.reject
  · refine .ite (fun _ => h.reject) fun _ => (readImg_yields _ _ m).bind fun s _ => ?_
    exact (readImg_yields _ _ m).bind fun addend _ => writeImg_kept hW h

theorem relocate_kept (hW : Covers W img span) (h : Kept W mem m) :
    Yields (relocate img minV span slide dynVaddr m) (Kept W mem) (KeptOnReject W mem) := by
  unfold relocate
  refine (dynLoop_yields m _ _ _).bind fun d _ => ?_
  dsimp only
  refine .ite (fun _ => ?_) fun _ => .ok h
  have happ : Yields (applyRelocs img minV span slide (d.rela - minV) (d.relasz / d.relaent)
      (symtabOf minV span d).1 (symtabOf minV span d).2 m) (Kept W mem) (KeptOnReject W mem) :=
    Yields.foldlM_range (I := fun _ m' => Kept W mem m')
      (fun k _ m' hm' => applyReloc_kept hW hm') h
  split
  · next m' hx => exact (happ.error _ hx).free.bind fun m₂ h₂ => h₂.reject
  · exact happ

/-- What follows once the segments are in place. -/
theorem finish_kept {type : BitVec 64} {haveDyn : Bool} (hW : Covers W img span)
    (h : Kept W mem m) :
    Yields (if haveDyn then relocate img minV span slide dynVaddr m
      else if type = etDyn ∨ haveDyn then do
        let m ← m.free img
        .error (.reject m)
      else .ok m) (Kept W mem) (KeptOnReject W mem) := by
  refine .ite (fun _ => relocate_kept hW h) fun _ => .ite (fun _ => ?_) fun _ => .ok h
  exact h.free.bind fun m₂ h₂ => h₂.reject

theorem loadRelocatable_kept {type : BitVec 64} {sc : Scan} (h : Kept W mem m)
    (hW : ∀ img ∈ alloc, Covers W img (sc.maxV - sc.minV)) :
    Yields (loadRelocatable f type sc alloc m) (fun v => Kept W mem v.2) (KeptOnReject W mem) := by
  unfold loadRelocatable
  cases alloc with
  | none => exact h.reject
  | some img =>
    have hW := hW img rfl
    have h₀ : Kept W mem (m.malloc img (if sc.maxV - sc.minV ≠ 0 then (sc.maxV - sc.minV).toNat
      else 16)) := h
    refine (Yields.foldlM_range (I := fun _ m' => Kept W mem m')
      (fun k _ m' hm' => loadSegment_kept hW hm') (h₀.blit hW)).bind fun m₁ h₁ => ?_
    exact (finish_kept hW h₁).bind fun m₂ h₂ => (get_yields _ _).bind fun entry _ => .ok h₂

theorem loadItrm_kept (h : Kept W mem m) (hW : ∀ img ∈ alloc, Covers W img f.payload) :
    Yields (loadItrm f alloc m) (fun v => Kept W mem v.2) (KeptOnReject W mem) := by
  unfold loadItrm
  refine .ite (fun _ => h.reject) fun _ => (get_yields _ _).bind fun magic _ => ?_
  refine .ite (fun _ => h.reject) fun _ => (get_yields _ _).bind fun payload hp => ?_
  subst hp
  refine .ite (fun _ => h.reject) fun _ => (get_yields _ _).bind fun entryOff _ => ?_
  refine .ite (fun _ => h.reject) fun _ => ?_
  cases alloc with
  | none => exact h.reject
  | some img =>
    have h₀ : Kept W mem (m.malloc img f.payload.toNat) := h
    exact Yields.bind (copyImg_kept (hW img rfl) h₀) fun m' h' => .ok h'

end

/-! ## All files -/

/-- The bytes of the window that a load may write. -/
def LoadFile.fixedAreas : LoadFile → List (VP × Nat)
  | .whole _ f => if f.Accepted ∧ f.Fixed ∧ ¬ f.minV > f.scan.maxV then f.fixedAreas else []
  | _ => []

/-- The block that is allocated for the image. -/
def LoadFile.imageBlock (alloc : Option VP) : LoadFile → List (VP × Nat)
  | .whole _ f =>
    if f.Accepted ∧ f.Fixed then []
    else alloc.toList.map (·, if f.Itrm then f.payload.toNat else f.blockSize)
  | _ => []

/-- The bytes `elf_load` may write. -/
def LoadFile.areas (alloc : Option VP) (file : LoadFile) : List (VP × Nat) :=
  file.fixedAreas ++ file.imageBlock alloc

theorem span_le_blockSize (f : File) : f.span.toNat ≤ f.blockSize := by
  unfold File.blockSize
  split
  · exact Nat.le_refl _
  · next h0 => rw [not_not.mp h0]; exact Nat.zero_le _

theorem fixedAreas_subset (hacc : f.Accepted) (hf : f.Fixed) (hv : ¬ f.minV > f.scan.maxV)
    (hW : Infra.areas ((LoadFile.whole p f).areas alloc) ⊆ W) : Infra.areas f.fixedAreas ⊆ W := by
  refine subset_trans ?_ hW
  rintro x ⟨b, hb, hx⟩
  refine ⟨b, List.mem_append_left _ ?_, hx⟩
  rw [LoadFile.fixedAreas, if_pos ⟨hacc, hf, hv⟩]
  exact hb

theorem covers_image (hi : ¬ f.Itrm) (hf : ¬ f.Fixed)
    (hW : Infra.areas ((LoadFile.whole p f).areas alloc) ⊆ W) (himg : img ∈ alloc) :
    Covers W img f.span := by
  have hle : area img f.span.toNat ⊆ area img f.blockSize := fun x hx =>
    Nat.lt_of_lt_of_le hx (span_le_blockSize f)
  refine hle.trans ((area_subset_areas (List.mem_append_right _ ?_)).trans hW)
  rw [LoadFile.imageBlock, if_neg fun hc => hf hc.2, if_neg hi]
  exact List.mem_map.mpr ⟨img, by simpa using himg, rfl⟩

theorem covers_payload (hi : f.Itrm) (himg : img ∈ alloc) :
    Covers (Infra.areas ((LoadFile.whole p f).areas alloc)) img f.payload := by
  refine area_subset_areas (List.mem_append_right _ ?_)
  rw [LoadFile.imageBlock, if_neg fun hc => not_accepted_of_itrm hi hc.1, if_pos hi]
  exact List.mem_map.mpr ⟨img, by simpa using himg, rfl⟩

theorem loadElf_kept (hi : ¬ f.Itrm) (hW : Infra.areas ((LoadFile.whole p f).areas alloc) ⊆ W)
    (h : Kept W mem m) :
    Yields (loadElf f alloc m) (fun v => Kept W mem v.2) (KeptOnReject W mem) := by
  by_cases hacc : f.Accepted
  swap
  · rw [loadElf_reject hacc]
    exact h.reject
  by_cases hin : HeadersIn f
  swap
  · obtain ⟨e, -, he⟩ := @loadElf_fault f m alloc hacc hin
    rw [he]
    exact .fail trivial
  rw [loadElf_eq hacc hin]
  refine .ite (fun _ => h.reject) fun hv => .ite (fun hf => ?_) fun hf => ?_
  · exact loadFixed_kept (fixedAreas_subset hacc hf hv hW) h
  · exact loadRelocatable_kept h fun img himg => covers_image hi hf hW himg

theorem freeFile_kept {x : Load (ElfImage × Machine)}
    (h : Yields x (fun v => Kept W mem v.2) (KeptOnReject W mem)) :
    Yields (freeFile p x) (fun v => Kept W mem v.2) (KeptOnReject W mem) := by
  unfold freeFile
  split
  · next img m hx =>
    exact Yields.bind (h.result _ rfl).free fun m' h' => .ok h'
  · next m hx => exact Yields.bind (h.error _ rfl).free fun m' h' => h'.reject
  · exact .fail trivial

/-- **A load changes the bytes of its image and no others**, also when it gives up half way. -/
theorem elfLoad_kept (file : LoadFile) (m : Machine) :
    Yields (elfLoad file alloc m) (fun v => Kept (areas (file.areas alloc)) m.mem v.2)
      (KeptOnReject (areas (file.areas alloc)) m.mem) := by
  have hsame : Kept (areas (file.areas alloc)) m.mem m := OnlyIn.refl
  cases file with
  | absent | nomem => exact hsame.reject
  | short buf size =>
    have h₀ : Kept (areas ((LoadFile.short buf size).areas alloc)) m.mem
        (m.malloc buf (bufSize size)) := hsame
    exact Yields.bind h₀.free fun m' h' => h'.reject
  | whole buf f =>
    have h₀ : Kept (areas ((LoadFile.whole buf f).areas alloc)) m.mem
        (m.malloc buf (bufSize f.size)) := hsame
    rw [elfLoad_whole]
    refine freeFile_kept (.ite (fun hi => ?_) fun hi => loadElf_kept hi subset_rfl h₀)
    exact loadItrm_kept h₀ fun img himg => covers_payload hi himg

/-! ## What it returns -/

/-- The image a file is loaded as, if it is. -/
def File.image (f : File) (alloc : Option VP) : Option ElfImage :=
  if f.Itrm then
    if itrmHdrSize + f.payload > f.size ∨ f.entryOff ≥ f.payload then none
    else alloc.map fun img => ⟨img, f.payload, img + f.entryOff, true⟩
  else if ¬ f.Accepted ∨ f.minV > f.scan.maxV then none
  else if f.Fixed then if f.Reaches f.phnum then some f.fixedImage else none
  else alloc.bind fun img => (f.loaded (img - f.minV)).map fun _ => f.imageAt img

def LoadFile.image (alloc : Option VP) : LoadFile → Option ElfImage
  | .whole _ f => f.image alloc
  | _ => none

/-- The block of an image. -/
def ElfImage.block (e : ElfImage) : Block := ⟨e.base, if e.size ≠ 0 then e.size.toNat else 16⟩

/-- It, if it was allocated. -/
def ElfImage.blocks (e : ElfImage) : List Block := if e.owned then [e.block] else []

/-- What `elf_load` returns, and what is allocated then. -/
structure Result (o : Option ElfImage) (h : List Block) (v : ElfImage × Machine) : Prop where
  image : o = some v.1
  heap : v.2.heap = v.1.blocks ++ h

/-- What `x` returns is `o`, with its block. If it gives up nothing is left. -/
abbrev Returns (x : Load (ElfImage × Machine)) (o : Option ElfImage) (h : List Block) : Prop :=
  Yields x (Result o h) (Halt.OnReject fun m => m.heap = h)

theorem loadElf_returns (hi : ¬ f.Itrm) (ha : Allocated f alloc) :
    Returns (loadElf f alloc m) (f.image alloc) m.heap := by
  unfold File.image
  rw [if_neg hi]
  by_cases hacc : f.Accepted
  swap
  · rw [loadElf_reject hacc]
    exact .fail rfl
  by_cases hin : HeadersIn f
  swap
  · obtain ⟨e, -, he⟩ := @loadElf_fault f m alloc hacc hin
    rw [he]
    exact .fail trivial
  rw [loadElf_eq hacc hin]
  refine .ite (fun _ => .fail rfl) fun hv => ?_
  rw [if_neg (not_or.mpr ⟨not_not.mpr hacc, hv⟩)]
  refine .ite (fun hf => ?_) fun hf => ?_
  · refine (loadFixed_mirrors hin hacc rfl).yields.mono ?_
    rintro v ⟨e, he, hv, hh⟩
    have hr : f.Reaches f.phnum := by
      refine (isSome_foldlM File.isSome_allow () f.phnum).mp ?_
      cases ho : (List.range f.phnum).foldlM f.allow () with
      | none => rw [ho] at he; cases he
      | some u => rfl
    refine ⟨by rw [if_pos hf, if_pos hr, hv], ?_⟩
    rw [hh, hv]
    rfl
  · rw [if_neg hf]
    cases alloc with
    | none => exact .fail rfl
    | some img =>
      refine (loadRelocatable_mirrors hin hacc rfl (ha.placed hi img rfl)).yields.mono ?_
      rintro v ⟨im, him, hv, hs⟩
      refine ⟨?_, ?_⟩
      · rw [Option.bind_some, him, hv]
        rfl
      · rw [hs.heap, hv]
        rfl

theorem loadItrm_returns (hi : f.Itrm) :
    Returns (loadItrm f alloc m) (f.image alloc) m.heap := by
  rw [loadItrm_eq hi, File.image, if_pos hi]
  refine .ite (fun _ => .fail rfl) fun hc => ?_
  rw [if_neg hc]
  cases alloc with
  | none => exact .fail rfl
  | some img =>
    refine .ok ⟨rfl, ?_⟩
    have hne : f.payload ≠ 0 := fun h0 => hc (Or.inr (by rw [h0]; exact Nat.zero_le _))
    show _ = [ElfImage.block _] ++ _
    rw [ElfImage.block, if_pos hne]
    rfl

/-- An image is allocated, or the file is one that is loaded at fixed addresses. -/
theorem File.image_cases {e : ElfImage} (h : f.image alloc = some e) :
    (f.Accepted ∧ f.Fixed ∧ e = f.fixedImage) ∨
      (¬ (f.Accepted ∧ f.Fixed) ∧ e.owned = true ∧ alloc = some e.base ∧
        e.block.size = if f.Itrm then f.payload.toNat else f.blockSize) := by
  unfold File.image at h
  split_ifs at h with hi hc hc hf hr
  · obtain ⟨img, rfl, rfl⟩ := Option.map_eq_some_iff.mp h
    have hne : f.payload ≠ 0 := fun h0 => hc (Or.inr (by rw [h0]; exact Nat.zero_le _))
    refine Or.inr ⟨fun hc => not_accepted_of_itrm hi hc.1, rfl, rfl, ?_⟩
    rw [if_pos hi, ElfImage.block]
    exact if_pos hne
  · exact Or.inl ⟨not_not.mp (not_or.mp hc).1, hf, (Option.some.inj h).symm⟩
  · obtain ⟨img, rfl, h⟩ := Option.bind_eq_some_iff.mp h
    obtain ⟨im, -, rfl⟩ := Option.map_eq_some_iff.mp h
    refine Or.inr ⟨fun hc => hf hc.2, rfl, rfl, ?_⟩
    rw [if_neg hi]
    rfl

/-- The file of an image is one that is loaded at fixed addresses, or its block is the image's. -/
theorem LoadFile.image_cases {file : LoadFile} {e : ElfImage} (h : file.image alloc = some e) :
    (file.isFixed = true ∧ e.owned = false) ∨ (file.isFixed = false ∧ e.owned = true ∧
      alloc = some e.base ∧ (e.base, e.block.size) ∈ file.imageBlock alloc) := by
  cases file with
  | absent | nomem | short => cases h
  | whole buf f =>
    rcases f.image_cases h with ⟨hacc, hf, rfl⟩ | ⟨hn, hown, hal, hsize⟩
    · refine Or.inl ⟨?_, rfl⟩
      rw [isFixed_of_accepted hacc, decide_eq_true hf]
    · refine Or.inr ⟨?_, hown, hal, ?_⟩
      · simpa [LoadFile.isFixed] using hn
      · rw [LoadFile.imageBlock, if_neg hn, hsize, hal]
        exact List.mem_singleton_self _

/-- A block behind others is freed. -/
theorem freeBlock_append {l : List Block} (h0 : p ≠ 0) (hl : ∀ b ∈ l, b.addr ≠ p) {h : List Block} :
    freeBlock p (l ++ ⟨p, n⟩ :: h) = some (l ++ h) := by
  unfold freeBlock
  rw [if_neg h0, if_pos (by simp), List.eraseP_append_right _ (by simpa using hl),
    List.eraseP_cons_of_pos (by simp)]

/-- The image is not the buffer. -/
theorem freeFile_returns {x : Load (ElfImage × Machine)} {o : Option ElfImage} {h : List Block}
    (h0 : p ≠ 0) (hne : ∀ e ∈ o, e.owned → e.base ≠ p) (hx : Returns x o (⟨p, n⟩ :: h)) :
    Returns (freeFile p x) o h := by
  unfold freeFile
  split
  · next e m =>
    obtain ⟨ho, hh⟩ := hx.result _ rfl
    have hfree : m.free p = .ok { m with heap := e.blocks ++ h } := by
      rw [Machine.free, hh, freeBlock_append h0]
      intro b hb
      unfold ElfImage.blocks at hb
      split at hb
      · next hown =>
        rw [List.mem_singleton.mp hb]
        exact hne e ho hown
      · cases hb
    rw [hfree]
    exact .ok ⟨ho, rfl⟩
  · next m =>
    have hh : m.heap = ⟨p, n⟩ :: h := hx.error _ rfl
    rw [free_top h0 hh]
    exact .fail rfl
  · exact .fail trivial

/-- The buffer of a file. -/
def LoadFile.buffer : LoadFile → List (VP × Nat)
  | .absent | .nomem => []
  | .short buf size => [(buf, bufSize size)]
  | .whole buf f => [(buf, bufSize f.size)]

/-- **What `elf_load` returns**, and that only the block of the image is left. -/
theorem elfLoad_returns {file : LoadFile} (hg : file.Granted alloc)
    (hne : ∀ b ∈ file.buffer, b.1 ∉ alloc) :
    Returns (elfLoad file alloc m) (file.image alloc) m.heap := by
  match file, hg, hne with
  | .absent, _, _ | .nomem, _, _ => exact .fail rfl
  | .short buf size, hb, _ =>
    have hrej : Returns (.error (.reject (m.malloc buf (bufSize size)))) none
        (⟨buf, bufSize size⟩ :: m.heap) := .fail rfl
    exact freeFile_returns hb (by simp) hrej
  | .whole buf f, ⟨hb, ha⟩, hne =>
    rw [elfLoad_whole]
    refine freeFile_returns hb (fun e he hown heq => ?_) (.ite (fun hi => loadItrm_returns hi)
      fun hi => loadElf_returns hi ha)
    rcases f.image_cases he with ⟨-, -, rfl⟩ | ⟨-, -, hal, -⟩
    · cases hown
    · exact hne _ (List.mem_singleton_self _) (by rw [hal, heq]; rfl)

end Ittrium.Elf
