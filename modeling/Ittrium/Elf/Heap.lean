import Ittrium.Elf.Checks
import Mathlib.Data.Multiset.AddSub

/-!
# The heap across a load

* `Allocated` — what `malloc` and `memalign` may return for the image of a file
* `addrs` — the addresses of the blocks that are allocated
* `Allocates own h x` — of what `x` has allocated only the image is left, besides the blocks `h`;
  `own` says whether the image is allocated at all
* `elfLoad_allocates` — **`elf_load` frees everything it allocates, except the image it returns**
-/

namespace Ittrium.Elf

open Infra

variable {f : File} {m : Machine} {img buf : VP} {alloc : Option VP} {h h' : List Block}
  {x : Load (ElfImage × Machine)} {e : ElfImage} {p : VP}

/-! ## Allocations -/

/-- What the allocator may return for the image. -/
def Allocated (f : File) : Option VP → Prop
  | none => True
  | some img =>
    (f.Itrm → img ≠ 0 ∧ img.toNat + f.payload.toNat ≤ 2 ^ 64) ∧
      (¬ f.Itrm → Placed img f.blockSize)

theorem allocated_image (hi : ¬ f.Itrm) (hp : Placed img f.blockSize) : Allocated f (some img) :=
  ⟨fun h => absurd h hi, fun _ => hp⟩

theorem Allocated.placed (ha : Allocated f alloc) (hi : ¬ f.Itrm) :
    ∀ img, alloc = some img → Placed img f.blockSize := by
  rintro img rfl
  exact ha.2 hi

instance : ∀ alloc, Decidable (Allocated f alloc)
  | none => .isTrue trivial
  | some _ => inferInstanceAs (Decidable ((_ → _ ∧ _) ∧ (_ → _)))

/-- `load_file` has tried to read the file `f`. -/
def LoadFile.Of (f : File) : LoadFile → Prop
  | .whole _ g => g = f
  | _ => True

/-! ## ITRM files -/

theorem not_accepted_of_itrm (h : f.Itrm) : ¬ f.Accepted := by
  intro ha
  have hbyte : ∀ w, 0 < w → (f.num 0 w).toNat % 256 = (f.byte 0).toNat := by
    intro w hw
    have hb := congrArg UInt8.toNat (byteAt_readLE (f := f.byte) (p := 0) hw)
    rw [byteAt_toNat, Nat.pow_zero, Nat.div_one, Nat.zero_add] at hb
    show (BitVec.ofNat 64 (readLE f.byte 0 w)).toNat % 256 = _
    rw [BitVec.toNat_ofNat, Nat.mod_mod_of_dvd _ (by decide), hb]
  have h1 := hbyte 1 (by omega)
  have h4 := hbyte 4 (by omega)
  rw [ha.2.1.1] at h1
  rw [show f.num 0 4 = itrmMagic from h.2] at h4
  exact absurd (h1.trans h4.symm) (by decide)

theorem isItrm_eq (f : File) : isItrm f = .ok (decide f.Itrm) := by
  unfold isItrm
  by_cases hs : f.size < itrmHdrSize
  · rw [if_pos hs, decide_eq_false fun h => h.1 hs]
  · rw [if_neg hs, get_ok (inside_header hs (by decide))]
    have hiff : f.num 0 4 = itrmMagic ↔ f.Itrm := ⟨fun hm => ⟨hs, hm⟩, And.right⟩
    show Except.ok (decide (f.num 0 4 = itrmMagic)) = _
    rw [decide_eq_decide.mpr hiff]

theorem payload_lt (f : File) : f.payload.toNat < 2 ^ 32 := by
  have hlt := readLE_lt f.byte (8 : BitVec 64).toNat 4
  rw [File.payload, File.num, BitVec.toNat_ofNat]
  omega

/-- What `load_itrm` comes to: all its bounds are checked. -/
theorem loadItrm_eq (hi : f.Itrm) : loadItrm f alloc m =
    if itrmHdrSize + f.payload > f.size ∨ f.entryOff ≥ f.payload then .error (.reject m)
    else match alloc with
      | none => .error (.reject m)
      | some img => .ok (⟨img, f.payload, img + f.entryOff, true⟩,
          (m.malloc img f.payload.toNat).blit (img + 0) f.payload.toNat fun k => f.byte (12 + k)) := by
  have h12 : itrmHdrSize.toNat = 12 := rfl
  have hp := payload_lt f
  have hsum : (itrmHdrSize + f.payload).toNat = 12 + f.payload.toNat := by
    rw [BitVec.toNat_add, h12, Nat.mod_eq_of_lt (by omega)]
  unfold loadItrm
  rw [if_neg hi.1, get_ok (inside_header hi.1 (by decide)), get_ok (inside_header hi.1 (by decide)),
    get_ok (inside_header hi.1 (by decide))]
  show (if f.magic ≠ itrmMagic then _ else if itrmHdrSize + f.payload > f.size then _ else
    if f.entryOff ≥ f.payload then _ else _) = _
  rw [if_neg (not_not.mpr hi.2)]
  by_cases hsz : itrmHdrSize + f.payload > f.size
  · rw [if_pos hsz, if_pos (Or.inl hsz)]
  rw [if_neg hsz]
  by_cases he : f.entryOff ≥ f.payload
  · rw [if_pos he, if_pos (Or.inr he)]
  rw [if_neg he, if_neg (by tauto)]
  cases alloc with
  | none => rfl
  | some img =>
    -- the bounds that were checked are those of the copy
    have hin : f.Inside itrmHdrSize f.payload.toNat := by
      rw [gt_iff_lt, BitVec.lt_def, hsum, size_toNat] at hsz
      unfold File.Inside
      omega
    have hspan : InSpan f.payload 0 f.payload.toNat := by
      show 0 + _ ≤ _
      omega
    have hcopy : copyImg f img f.payload 0 itrmHdrSize f.payload (m.malloc img f.payload.toNat) =
        .ok ((m.malloc img f.payload.toNat).blit (img + 0) f.payload.toNat fun k => f.byte (12 + k)) := by
      unfold copyImg
      rw [if_neg (not_not.mpr hin), if_pos hspan]
      rfl
    show (copyImg f img f.payload 0 itrmHdrSize f.payload (m.malloc img f.payload.toNat) >>= _) = _
    rw [hcopy]
    rfl

/-! ## Blocks -/

/-- The addresses of blocks. -/
def addrs (h : List Block) : Multiset VP := h.map Block.addr

theorem addrs_cons (b : Block) (h : List Block) : addrs (b :: h) = b.addr ::ₘ addrs h := rfl

theorem mem_addrs : p ∈ addrs h ↔ ∃ b ∈ h, b.addr = p := by
  simp [addrs]

theorem mem_malloc (p : VP) (n : Nat) (m : Machine) : p ∈ addrs (m.malloc p n).heap :=
  mem_addrs.mpr ⟨_, List.mem_cons_self, rfl⟩

/-- A block that is allocated can be freed. -/
theorem freeBlock_of_mem (hp : p ∈ addrs h) : ∃ h', freeBlock p h = some h' := by
  unfold freeBlock
  by_cases h0 : p = 0
  · exact ⟨h, if_pos h0⟩
  · obtain ⟨b, hb, rfl⟩ := mem_addrs.mp hp
    rw [if_neg h0, if_pos (List.any_eq_true.mpr ⟨b, hb, by simp⟩)]
    exact ⟨_, rfl⟩

theorem addrs_eraseP : ∀ h : List Block, addrs (h.eraseP (·.addr = p)) = (addrs h).erase p := by
  intro h
  induction h with
  | nil => rfl
  | cons b h ih =>
    rw [addrs_cons]
    by_cases hb : b.addr = p
    · rw [List.eraseP_cons_of_pos (by simpa using hb), hb, Multiset.erase_cons_head]
    · rw [List.eraseP_cons_of_neg (by simpa using hb), addrs_cons, ih,
        Multiset.erase_cons_tail _ (by simpa using hb)]

/-- What is freed was allocated, and is no longer. -/
theorem addrs_freeBlock (h0 : p ≠ 0) (hf : freeBlock p h = some h') :
    addrs h = p ::ₘ addrs h' := by
  unfold freeBlock at hf
  rw [if_neg h0] at hf
  split at hf
  · next hany =>
    obtain rfl := Option.some.inj hf
    obtain ⟨b, hb, heq⟩ := List.any_eq_true.mp hany
    rw [addrs_eraseP, Multiset.cons_erase]
    exact mem_addrs.mpr ⟨b, hb, by simpa using heq⟩
  · cases hf

theorem free_ok {p : VP} (hp : p ∈ addrs m.heap) : ∃ m', m.free p = .ok m' := by
  obtain ⟨h', hh⟩ := freeBlock_of_mem hp
  refine ⟨{ m with heap := h' }, ?_⟩
  rw [Machine.free, hh]

/-! ## After a load -/

/-- The image, if it is a block. -/
def owned (e : ElfImage) : Multiset VP := if e.owned then {e.base} else 0

/-- `x` leaves the blocks `h`, and that of the image it returns. It frees nothing else. -/
structure Allocates (own : Bool) (h : Multiset VP) (x : Load (ElfImage × Machine)) : Prop where
  result : ∀ e m, x = .ok (e, m) →
    addrs m.heap = owned e + h ∧ e.owned = own ∧ (e.owned → e.base ≠ 0)
  rejected : ∀ m, x = .error (.reject m) → addrs m.heap = h
  noFree : x ≠ .error (.fault .free)

variable {ok : Prop} {β : Type} {o : Option β} {R : ElfImage × Machine → β → Prop}
  {Q : Machine → Prop} {H : Multiset VP} {own : Bool}

theorem Allocates.of_mirrors (hx : Mirrors Access ok x o R Q)
    (hR : ∀ e m b, R (e, m) b →
      addrs m.heap = owned e + H ∧ e.owned = own ∧ (e.owned → e.base ≠ 0))
    (hQ : ∀ m, Q m → addrs m.heap = H) : Allocates own H x := by
  refine ⟨?_, ?_, fun hf => hx.fault hf rfl⟩
  · rintro e m rfl
    have hok := hx.noFault_iff.mp fun _ => nofun
    have hp := hx.passes hok
    cases o with
    | none =>
      obtain ⟨r, hr, -⟩ := hp
      cases hr
    | some b =>
      obtain ⟨_, hv, hr⟩ := hp
      obtain rfl := Except.ok.inj hv
      exact hR e m b hr
  · rintro m rfl
    have hok := hx.noFault_iff.mp fun _ => nofun
    have hp := hx.passes hok
    cases o with
    | none =>
      obtain ⟨r, hr, hq⟩ := hp
      cases hr
      exact hQ m hq
    | some b =>
      obtain ⟨_, hv, -⟩ := hp
      cases hv

theorem Allocates.reject (m : Machine) : Allocates own (addrs m.heap) (.error (.reject m)) := by
  refine ⟨nofun, ?_, nofun⟩
  rintro _ ⟨⟩
  rfl

theorem loadElf_allocates (ha : ∀ img, alloc = some img → Placed img f.blockSize) :
    Allocates (!decide f.Fixed) (addrs m.heap) (loadElf f alloc m) := by
  by_cases hacc : f.Accepted
  swap
  · rw [loadElf_reject hacc]
    exact .reject m
  by_cases hin : HeadersIn f
  swap
  -- a read outside the file stops the load, and is no free
  · obtain ⟨e, hacc, he⟩ := @loadElf_fault f m alloc hacc hin
    rw [he]
    refine ⟨nofun, nofun, ?_⟩
    rintro ⟨⟩
    exact hacc rfl
  rw [loadElf_eq hacc hin]
  split
  · exact .reject m
  split
  · next hf =>
    refine .of_mirrors (loadFixed_mirrors hin hacc rfl) ?_ fun m' hm' => by rw [hm']
    rintro e m' _ ⟨rfl, hh⟩
    refine ⟨?_, (by simp [hf, File.fixedImage]), nofun⟩
    rw [hh]
    exact (Multiset.zero_add _).symm
  · next hf =>
    cases alloc with
    | none => exact .reject m
    | some img =>
      have hp := ha img rfl
      refine .of_mirrors (loadRelocatable_mirrors hin hacc rfl hp) ?_ fun m' hm' => by rw [hm']
      rintro e m' im ⟨rfl, hs⟩
      refine ⟨?_, by simp [hf, File.imageAt], fun _ => hp.ne⟩
      rw [hs.heap]
      rfl

theorem loadItrm_allocates (hi : f.Itrm) (ha : Allocated f alloc) :
    Allocates true (addrs m.heap) (loadItrm f alloc m) := by
  rw [loadItrm_eq hi]
  split
  · exact .reject m
  · cases alloc with
    | none => exact .reject m
    | some img =>
      refine ⟨?_, nofun, nofun⟩
      rintro _ _ ⟨⟩
      exact ⟨rfl, rfl, fun _ => (ha.1 hi).1⟩

theorem elfLoad_whole : elfLoad (.whole buf f) alloc m = freeFile buf
    (if f.Itrm then loadItrm f alloc (m.malloc buf (bufSize f.size))
      else loadElf f alloc (m.malloc buf (bufSize f.size))) := by
  show freeFile buf (isItrm f >>= fun itrm => _) = _
  rw [isItrm_eq]
  by_cases hi : f.Itrm
  · rw [if_pos hi, decide_eq_true hi]
    rfl
  · rw [if_neg hi, decide_eq_false hi]
    rfl

/-- What the allocator has returned for the buffer and the image, where it is asked. -/
def LoadFile.Granted (alloc : Option VP) : LoadFile → Prop
  | .absent | .nomem => True
  | .short buf _ => buf ≠ 0
  | .whole buf f => buf ≠ 0 ∧ Allocated f alloc

instance (alloc : Option VP) : ∀ file, Decidable (LoadFile.Granted alloc file)
  | .absent | .nomem => .isTrue trivial
  | .short _ _ => inferInstanceAs (Decidable (_ ≠ _))
  | .whole _ _ => inferInstanceAs (Decidable (_ ∧ _))

theorem freeFile_ok {h' : List Block} (hf : freeBlock buf m.heap = some h') (e : ElfImage) :
    freeFile buf (.ok (e, m)) = .ok (e, { m with heap := h' }) := by
  show (m.free buf >>= fun m => _) = _
  rw [Machine.free, hf]
  rfl

theorem freeFile_reject {h' : List Block} (hf : freeBlock buf m.heap = some h') :
    freeFile buf (.error (.reject m)) = .error (.reject { m with heap := h' }) := by
  show (m.free buf >>= fun m => _) = _
  rw [Machine.free, hf]
  rfl

/-- `x` leaves the file buffer to be freed. -/
theorem Allocates.freeFile (hb : buf ≠ 0) (hx : Allocates own (buf ::ₘ H) x) :
    Allocates own H (freeFile buf x) := by
  cases x with
  | ok v =>
    obtain ⟨e, m⟩ := v
    obtain ⟨hh, hown, hne⟩ := hx.result e m rfl
    have hmem : buf ∈ addrs m.heap := by
      rw [hh]
      exact Multiset.mem_add.mpr (Or.inr (Multiset.mem_cons_self _ _))
    obtain ⟨h', hf⟩ := freeBlock_of_mem hmem
    rw [freeFile_ok hf]
    refine ⟨fun _ _ h => ?_, fun _ h => (by cases h), fun h => by cases h⟩
    cases h
    refine ⟨?_, hown, hne⟩
    have hfree := addrs_freeBlock hb hf
    rw [hh, Multiset.add_cons] at hfree
    exact (Multiset.cons_inj_right buf).mp hfree.symm
  | error r =>
    cases r with
    | fault e => exact ⟨fun _ _ h => (by cases h), fun _ h => (by cases h), hx.noFree⟩
    | reject m =>
      have hh := hx.rejected m rfl
      have hmem : buf ∈ addrs m.heap := by
        rw [hh]
        exact Multiset.mem_cons_self _ _
      obtain ⟨h', hf⟩ := freeBlock_of_mem hmem
      rw [freeFile_reject hf]
      refine ⟨fun _ _ h => (by cases h), fun _ h => ?_, fun h => by cases h⟩
      cases h
      have hfree := addrs_freeBlock hb hf
      rw [hh] at hfree
      exact (Multiset.cons_inj_right buf).mp hfree.symm

/-- The file is one that is loaded at fixed addresses. -/
def LoadFile.isFixed : LoadFile → Bool
  | .whole _ f => decide f.Accepted && decide f.Fixed
  | _ => false

theorem isFixed_of_accepted (h : f.Accepted) :
    (LoadFile.whole buf f).isFixed = decide f.Fixed := by
  simp [LoadFile.isFixed, h]

theorem isFixed_of_not_accepted (h : ¬ f.Accepted) : (LoadFile.whole buf f).isFixed = false := by
  simp [LoadFile.isFixed, h]

/-- **`elf_load` leaves nothing allocated but the image it returns.** -/
theorem elfLoad_allocates {file : LoadFile} (hg : file.Granted alloc) :
    Allocates (!file.isFixed) (addrs m.heap) (elfLoad file alloc m) := by
  match file, hg with
  | .absent, _ => exact .reject m
  | .nomem, _ => exact .reject m
  | .short buf size, hb =>
    have hrej := @Allocates.reject true (m.malloc buf (bufSize size))
    exact Allocates.freeFile (H := addrs m.heap) hb hrej
  | .whole buf f, ⟨hb, hal⟩ =>
    rw [elfLoad_whole]
    refine .freeFile hb ?_
    have hcons : buf ::ₘ addrs m.heap = addrs (m.malloc buf (bufSize f.size)).heap := rfl
    rw [hcons]
    split
    · next hi =>
      rw [isFixed_of_not_accepted (not_accepted_of_itrm hi)]
      exact loadItrm_allocates hi hal
    · next hi =>
      by_cases hacc : f.Accepted
      · rw [isFixed_of_accepted hacc]
        exact loadElf_allocates (hal.placed hi)
      · rw [loadElf_reject hacc]
        exact .reject _

end Ittrium.Elf
