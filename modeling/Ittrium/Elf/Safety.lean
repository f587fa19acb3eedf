import Ittrium.Elf.Buffer

/-!
# Safe files

* `SafeResult` — no access leaves its area, and the entry point is in the image
* `InBounds` — what has to be true of an ELF file, for what the allocator returns
* `elf_load_safe` — **exactly then loading is safe**, with the buffer of the file apart from what is
  written
-/

namespace Ittrium.Elf

open Infra

variable {f : File} {m : Machine} {i : Nat} {img buf : VP} {alloc : Option VP} {H : Multiset VP}
  {x : Load (ElfImage × Machine)} {file : LoadFile}

/-! ## What safety asks for -/

/-- The entry point lies in `[base, base + size)`. -/
def Contained (img : ElfImage) : Prop :=
  img.base.toNat ≤ img.entry.toNat ∧ img.entry.toNat < img.base.toNat + img.size.toNat

/-- No check fails, and what is returned is entered inside. -/
structure SafeResult (x : Load (ElfImage × Machine)) : Prop where
  noFault : ∀ e, x ≠ .error (.fault e)
  entry : ∀ img m, x = .ok (img, m) → Contained img

/-- The check that has failed. -/
def faultOf {α : Type} (x : Load α) : Option LoadFault :=
  match x with
  | .error (.fault e) => some e
  | _ => none

theorem eq_of_faultOf {α : Type} {x : Load α} {e : LoadFault} (h : faultOf x = some e) :
    x = .error (.fault e) := by
  match x, h with
  | .error (.fault _), rfl => rfl

/-- What is true of an ELF file the loader can handle, if `alloc` is returned for the image. -/
structure InBounds (f : File) (alloc : Option VP) : Prop where
  /-- The program headers are in the file. -/
  headers : HeadersIn f
  /-- In the window: the segments that are reached, and the entry point. -/
  fixed : ¬ f.minV > f.scan.maxV → f.Fixed → FixedIn f ∧ (f.Reaches f.phnum → Contained f.fixedImage)
  /-- In the image: the segments, the dynamic section and the relocations that are reached, and the
  entry point. -/
  image : ¬ f.minV > f.scan.maxV → ¬ f.Fixed → ∀ img ∈ alloc,
    ImageIn f img ∧ ((f.loaded (img - f.minV)).isSome → (f.eEntry - f.minV).toNat < f.span.toNat)

/-! ## The file buffer -/

/-- Freeing the buffer does no harm. -/
theorem freeFile_safe {own : Bool} (hk : Allocates own (buf ::ₘ H) x) :
    SafeResult (freeFile buf x) ↔ SafeResult x := by
  match x, hk with
  | .ok (img, m), hk =>
    have hmem : buf ∈ addrs m.heap := by
      rw [(hk.result img m rfl).1]
      exact Multiset.mem_add.mpr (Or.inr (Multiset.mem_cons_self _ _))
    obtain ⟨h', hf⟩ := freeBlock_of_mem hmem
    rw [freeFile_ok hf]
    constructor
    · intro hs
      refine ⟨nofun, ?_⟩
      rintro img m ⟨⟩
      exact hs.entry _ _ rfl
    · intro hs
      refine ⟨nofun, ?_⟩
      rintro img m ⟨⟩
      exact hs.entry _ _ rfl
  | .error (.reject m), hk =>
    have hmem : buf ∈ addrs m.heap := by
      rw [hk.rejected m rfl]
      exact Multiset.mem_cons_self _ _
    obtain ⟨h', hf⟩ := freeBlock_of_mem hmem
    rw [freeFile_reject hf]
    exact ⟨fun _ => ⟨nofun, nofun⟩, fun _ => ⟨nofun, nofun⟩⟩
  | .error (.fault e), _ => exact Iff.rfl

variable {ok : Prop} {β : Type} {o : Option β} {R : ElfImage × Machine → β → Prop}
  {Q : Machine → Prop} {elf : ElfImage}

theorem safe_iff (hx : Mirrors Access ok x o R Q) (hR : ∀ v b, R v b → v.1 = elf) :
    SafeResult x ↔ ok ∧ (o.isSome → Contained elf) := by
  constructor
  · intro hs
    have hok := hx.noFault_iff.mp hs.noFault
    refine ⟨hok, fun ho => ?_⟩
    obtain ⟨b, rfl⟩ := Option.isSome_iff_exists.mp ho
    obtain ⟨⟨img, m⟩, hv, hr⟩ := hx.passes hok
    rw [← hR _ _ hr]
    exact hs.entry _ _ hv
  · rintro ⟨hok, hentry⟩
    refine ⟨hx.noFault_iff.mpr hok, fun img m hv => ?_⟩
    have hp := hx.passes hok
    cases o with
    | none =>
      obtain ⟨r, hr, -⟩ := hp
      cases hr.symm.trans hv
    | some b =>
      obtain ⟨v, hv', hr⟩ := hp
      obtain rfl := Except.ok.inj (hv'.symm.trans hv)
      rw [show img = elf from hR _ _ hr]
      exact hentry rfl

/-! ## The branches -/

theorem contained_imageAt (hp : Placed img f.blockSize) :
    Contained (f.imageAt img) ↔ (f.eEntry - f.minV).toNat < f.span.toNat := by
  have hfits : img.toNat + f.span.toNat ≤ 2 ^ 64 := by
    have hfits := hp.fits
    unfold File.blockSize at hfits
    split at hfits
    · exact hfits
    · next h0 =>
      have himg := img.isLt
      rw [not_not.mp h0]
      exact himg.le
  have hentry : f.eEntry + (img - f.minV) = img + (f.eEntry - f.minV) := by bv_omega
  have hd := (f.eEntry - f.minV).isLt
  show img.toNat ≤ (f.eEntry + (img - f.minV)).toNat ∧
    (f.eEntry + (img - f.minV)).toNat < img.toNat + f.span.toNat ↔ _
  rw [hentry, BitVec.toNat_add]
  omega

theorem fixed_safe (hin : HeadersIn f) (hacc : f.Accepted) :
    SafeResult (loadFixed f f.scan m) ↔
      FixedIn f ∧ (f.Reaches f.phnum → Contained f.fixedImage) := by
  have hsome : ((List.range f.phnum).foldlM f.allow () >>= fun _ => some f.fixedImage).isSome ↔
      f.Reaches f.phnum := by
    rw [← show _ ↔ f.Reaches f.phnum from isSome_foldlM File.isSome_allow () f.phnum]
    cases (List.range f.phnum).foldlM f.allow () <;> simp
  rw [← hsome]
  exact safe_iff (loadFixed_mirrors hin hacc rfl) fun _ _ hr => hr.1

theorem image_safe (hin : HeadersIn f) (hacc : f.Accepted) (hp : Placed img f.blockSize) :
    SafeResult (loadRelocatable f f.eType f.scan (some img) m) ↔ ImageIn f img ∧
      ((f.loaded (img - f.minV)).isSome → (f.eEntry - f.minV).toNat < f.span.toNat) := by
  rw [← contained_imageAt hp]
  exact safe_iff (loadRelocatable_mirrors hin hacc rfl hp) fun _ _ hr => hr.1

theorem safe_reject (m : Machine) : SafeResult (.error (.reject m)) := ⟨nofun, nofun⟩

theorem loadElf_safe (hacc : f.Accepted) : SafeResult (loadElf f alloc m) ↔ HeadersIn f ∧
    (¬ f.minV > f.scan.maxV → if f.Fixed then SafeResult (loadFixed f f.scan m)
      else SafeResult (loadRelocatable f f.eType f.scan alloc m)) := by
  by_cases hin : HeadersIn f
  · rw [loadElf_eq hacc hin]
    by_cases hv : f.minV > f.scan.maxV
    · rw [if_pos hv]
      exact ⟨fun _ => ⟨hin, fun h => absurd hv h⟩, fun _ => safe_reject m⟩
    · rw [if_neg hv]
      split
      · exact ⟨fun h => ⟨hin, fun _ => h⟩, fun h => h.2 hv⟩
      · exact ⟨fun h => ⟨hin, fun _ => h⟩, fun h => h.2 hv⟩
  · obtain ⟨e, -, he⟩ := @loadElf_fault f m alloc hacc hin
    exact ⟨fun h => absurd he (h.noFault e), fun h => absurd h.1 hin⟩

/-! ## ITRM -/

theorem loadItrm_safe (hi : f.Itrm) (ha : Allocated f alloc) : SafeResult (loadItrm f alloc m) := by
  rw [loadItrm_eq hi]
  split
  · exact safe_reject m
  · next hc =>
    cases alloc with
    | none => exact safe_reject m
    | some img =>
      refine ⟨nofun, ?_⟩
      rintro _ _ ⟨⟩
      have hlt : f.entryOff.toNat < f.payload.toNat := Nat.lt_of_not_le fun hge => hc (Or.inr hge)
      have hfit : img.toNat + f.payload.toNat ≤ 2 ^ 64 := (ha.1 hi).2
      show img.toNat ≤ (img + f.entryOff).toNat ∧
        (img + f.entryOff).toNat < img.toNat + f.payload.toNat
      rw [BitVec.toNat_add, Nat.mod_eq_of_lt (by omega)]
      omega

/-! ## Every file -/

theorem elfLoad_safe_iff (ha : Allocated f alloc) : SafeResult (elfLoad (.whole buf f) alloc m) ↔
    (f.Accepted → SafeResult (loadElf f alloc (m.malloc buf (bufSize f.size)))) := by
  rw [elfLoad_whole]
  have hcons : buf ::ₘ addrs m.heap = addrs (m.malloc buf (bufSize f.size)).heap := rfl
  by_cases hi : f.Itrm
  · have hk := loadItrm_allocates (m := m.malloc buf (bufSize f.size)) hi ha
    rw [← hcons] at hk
    rw [if_pos hi, freeFile_safe hk]
    exact ⟨fun _ hacc => absurd hacc (not_accepted_of_itrm hi), fun _ => loadItrm_safe hi ha⟩
  · have hk := loadElf_allocates (m := m.malloc buf (bufSize f.size)) (ha.placed hi)
    rw [← hcons] at hk
    rw [if_neg hi, freeFile_safe hk]
    by_cases hacc : f.Accepted
    · exact ⟨fun h _ => h, fun h => h hacc⟩
    · rw [loadElf_reject hacc]
      exact ⟨fun _ h => absurd h hacc, fun _ => safe_reject _⟩

theorem elfLoad_safe (hfile : LoadFile.Of f file) (ha : Allocated f alloc) :
    SafeResult (elfLoad file alloc m) ↔
      ∀ buf, file = .whole buf f → f.Accepted → InBounds f alloc := by
  match file, hfile with
  | .absent, _ | .nomem, _ =>
    refine ⟨fun _ _ he => ?_, fun _ => safe_reject m⟩
    cases he
  | .short buf size, _ =>
    obtain ⟨m', hm'⟩ := free_ok (mem_malloc buf (bufSize size) m)
    refine ⟨fun _ _ he => ?_, fun _ => ?_⟩
    · cases he
    · show SafeResult ((m.malloc buf (bufSize size)).free buf >>= fun m => _)
      rw [hm']
      exact safe_reject m'
  | .whole buf g, hg =>
    obtain rfl : g = f := hg
    rw [elfLoad_safe_iff ha]
    constructor
    · rintro h _ - hacc
      obtain ⟨hin, hbranch⟩ := (loadElf_safe hacc).mp (h hacc)
      refine ⟨hin, fun hv hf => ?_, fun hv hf img himg => ?_⟩
      · have hs := hbranch hv
        rw [if_pos hf] at hs
        exact (fixed_safe hin hacc).mp hs
      · have hs := hbranch hv
        have hp := ha.placed (fun hi => not_accepted_of_itrm hi hacc) img himg
        rw [if_neg hf, show alloc = some img from himg] at hs
        exact (image_safe hin hacc hp).mp hs
    · intro h hacc
      have hb := h buf rfl hacc
      refine (loadElf_safe hacc).mpr ⟨hb.headers, fun hv => ?_⟩
      split
      · next hf => exact (fixed_safe hb.headers hacc).mpr (hb.fixed hv hf)
      · next hf =>
        cases alloc with
        | none => exact safe_reject _
        | some img =>
          have hp := ha.placed (fun hi => not_accepted_of_itrm hi hacc) img rfl
          exact (image_safe hb.headers hacc hp).mpr (hb.image hv hf img rfl)

instance (img : ElfImage) : Decidable (Contained img) := inferInstanceAs (Decidable (_ ∧ _))

/-- `SafeResult`, of a load that can be computed. -/
def isSafe (x : Load (ElfImage × Machine)) : Bool :=
  match x with
  | .ok (img, _) => decide (Contained img)
  | .error (.reject _) => true
  | .error (.fault _) => false

theorem safe_of_isSafe (h : isSafe x = true) : SafeResult x := by
  match x, h with
  | .ok (img, m), h =>
    refine ⟨nofun, ?_⟩
    rintro _ _ ⟨⟩
    exact of_decide_eq_true h
  | .error (.reject m), _ => exact safe_reject m

/-- A table of dynamic entries, and a word that it has relocated. -/
def movable : File :=
  ⟨[ehdr 3 0 2, phdr 1 176 0 80 80, phdr 2 176 0 48 48, le 8 7, le 8 48, le 8 8, le 8 24, le 8 0,
    le 8 0, le 8 72, le 8 1027, le 8 16, le 8 0].flatten, by decide +kernel⟩

/-- A fixed file that clears the first 120 bytes of the window. -/
def clearing : File := ⟨ehdr 2 0x40200000 1 ++ phdr 1 0 0x40200000 0 120, by decide +kernel⟩

-- the entry point is read from the buffer behind the segments, also when they have cleared it
example : isSafe (elfLoadIn (.whole 0x8000 clearing) none ⟨fun _ => 0, []⟩) = true ∧
    isSafe (elfLoadIn (.whole 0x40200000 clearing) none ⟨fun _ => 0, []⟩) = false := by
  decide +kernel

/-- The segment has more bytes in the file than in the image. -/
def overfull : File := ⟨ehdr 3 0 1 ++ phdr 1 0 0 16 8, by decide +kernel⟩

end Ittrium.Elf
