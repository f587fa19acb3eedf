import Ittrium.Elf.Safety
import Ittrium.Elf.Virtual

/-!
# Position-independent files

A file that is linked to run anywhere, as its own addresses describe it, and what the loader makes of
it.

* `Pie` — what a linker promises: tables that are mapped, and relocations that do not disturb them
* `PieLoaded` — the image at its base
* `elf_load_pie` — **it is loaded correctly at any base, if its symbols are among the first 256**
-/

namespace Ittrium.Elf

open Infra

/-! ## Tables -/

/-- Where the tables of a file are. -/
structure PieTables where
  /-- Address of the dynamic section. -/
  dyn : Nat
  /-- Entries before `DT_NULL`. -/
  entries : Nat
  rela : BitVec 64
  relasz : BitVec 64
  symtab : BitVec 64
  symbols : Nat

/-- Number of relocations. -/
def PieTables.relocs (T : PieTables) : Nat := T.relasz.toNat / 24

namespace File

variable (f : File) (T : PieTables)

def dynTag (k : Nat) : BitVec 64 := f.word (T.dyn + 16 * k)

def dynVal (k : Nat) : BitVec 64 := f.word (T.dyn + 16 * k + 8)

/-- The entries with the tag `tag` have the value `v`, or there is none and `v` is the default. -/
def Says (tag v dflt : BitVec 64) : Prop :=
  (∀ k < T.entries, f.dynTag T k = tag → f.dynVal T k = v) ∧
    ((∀ k < T.entries, f.dynTag T k ≠ tag) → v = dflt)

instance (tag v dflt : BitVec 64) : Decidable (f.Says T tag v dflt) :=
  inferInstanceAs (Decidable (_ ∧ _))

def rOffset (i : Nat) : BitVec 64 := f.word (T.rela.toNat + 24 * i)

def rInfo (i : Nat) : BitVec 64 := f.word (T.rela.toNat + 24 * i + 8)

def rAddend (i : Nat) : BitVec 64 := f.word (T.rela.toNat + 24 * i + 16)

/-- The symbol of a relocation. -/
def rSym (i : Nat) : Nat := (elfRSym (f.rInfo T i)).toNat

def stValue (s : Nat) : BitVec 64 := f.word (T.symtab.toNat + 24 * s + 8)

/-- `v` is in the word that is relocated. -/
def InWord (i v : Nat) : Prop := (f.rOffset T i).toNat ≤ v ∧ v < (f.rOffset T i).toNat + 8

instance (i v : Nat) : Decidable (f.InWord T i v) := inferInstanceAs (Decidable (_ ∧ _))

/-- What is to be stored there. -/
def relocValue (slide : BitVec 64) (i : Nat) : BitVec 64 :=
  if elfRType (f.rInfo T i) = rAarch64Relative then slide + f.rAddend T i
  else slide + f.stValue T (f.rSym T i) + f.rAddend T i

end File

/-- A well-formed position-independent file with the tables `T`. -/
structure Pie (f : File) (T : PieTables) : Prop extends WellLaid f where
  size : 64 ≤ f.bytes.length
  magic : f.num 0 1 = 0x7f ∧ f.num 1 1 = 0x45 ∧ f.num 2 1 = 0x4c ∧ f.num 3 1 = 0x46
  /-- 64 bits, little-endian. -/
  class_data : f.num 4 1 = 2 ∧ f.num 5 1 = 1
  machine : f.eMachine = emAarch64
  type : f.eType = etDyn
  phentsize : f.ePhentsize = 56
  phdrs : f.ePhoff.toNat + 56 * f.phnum ≤ f.bytes.length
  hasDyn : ∃ i < f.phnum, f.ph i .type = ptDynamic
  dynAt : ∀ i < f.phnum, f.ph i .type = ptDynamic → (f.ph i .vaddr).toNat = T.dyn
  dynMapped : f.Mapped T.dyn (16 * (T.entries + 1))
  dynTags : ∀ k < T.entries, f.dynTag T k ≠ dtNull
  dynNull : f.dynTag T T.entries = dtNull
  rela : f.Says T dtRela T.rela 0
  relasz : f.Says T dtRelasz T.relasz 0
  relaent : f.Says T dtRelaent 24 24
  symtab : f.Says T dtSymtab T.symtab 0
  syment : f.Says T dtSyment 24 24
  relaNe : 0 < T.relocs → T.rela ≠ 0
  relaMapped : f.Mapped T.rela.toNat (24 * T.relocs)
  symtabNe : 0 < T.symbols → T.symtab ≠ 0
  symtabMapped : f.Mapped T.symtab.toNat (24 * T.symbols)
  types : ∀ i < T.relocs, elfRType (f.rInfo T i) = rAarch64Relative ∨
    elfRType (f.rInfo T i) = rAarch64Abs64 ∧ f.rSym T i < T.symbols
  /-- Relocated words lie between the lowest and the highest address. -/
  inRange : ∀ i < T.relocs, ∃ j < f.phnum, ∃ k < f.phnum, f.Loads j ∧ f.Loads k ∧
    (f.ph j .vaddr).toNat ≤ (f.rOffset T i).toNat ∧
    (f.rOffset T i).toNat + 8 ≤ (f.ph k .vaddr).toNat + (f.ph k .memsz).toNat
  offRela : ∀ i < T.relocs, ∀ v, f.InWord T i v →
    ¬ (T.rela.toNat ≤ v ∧ v < T.rela.toNat + 24 * T.relocs)
  offSymtab : ∀ i < T.relocs, ∀ v, f.InWord T i v →
    ¬ (T.symtab.toNat ≤ v ∧ v < T.symtab.toNat + 24 * T.symbols)
  apart : ∀ i < T.relocs, ∀ j < T.relocs, i ≠ j → ∀ v, f.InWord T i v → ¬ f.InWord T j v

/-- The file is at `img`, its segments are there byte by byte, and its words are relocated. -/
structure PieLoaded (f : File) (T : PieTables) (img : VP) (e : ElfImage) (mem : VP → UInt8) :
    Prop where
  base : e.base = img
  size : e.size = f.span
  entry : e.entry = f.eEntry + (img - f.minV)
  bytes : ∀ i < f.phnum, ∀ v, f.Covers i v → (∀ r < T.relocs, ¬ f.InWord T r v) →
    mem (img + (BitVec.ofNat 64 v - f.minV)) = f.segByte i v
  words : ∀ r < T.relocs, ∀ k < 8, mem (img + (f.rOffset T r - f.minV) + BitVec.ofNat 64 k) =
    byteAt (f.relocValue T (img - f.minV) r).toNat k

variable {f : File} {T : PieTables} {im im' : Img} {img slide : BitVec 64} {i n v : Nat}

/-! ## Headers -/

namespace Pie

theorem accepted (h : Pie f T) : f.Accepted := by
  have hsize := size_toNat f
  have hlt := f.size_lt
  have hphdrs := h.phdrs
  have h64 : ¬ f.size < 64 := by
    rw [BitVec.lt_def, hsize]
    have := h.size
    show ¬ _ < 64
    omega
  refine ⟨h64, h.magic, h.class_data, h.machine, Or.inr h.type, ?_⟩
  have hprod : (f.ePhnum * 56).toNat = 56 * f.phnum := by
    rw [BitVec.toNat_mul, show (56 : BitVec 64).toNat = 56 from rfl, Nat.mod_eq_of_lt]
    · exact Nat.mul_comm _ _
    · show f.phnum * 56 < _
      omega
  rw [h.phentsize, gt_iff_lt, BitVec.lt_def, hsize, BitVec.toNat_add, hprod,
    Nat.mod_eq_of_lt (by omega)]
  omega

theorem phInside (h : Pie f T) (hi : i < f.phnum) (fld : PhField) : f.PhInside i fld := by
  have hphdrs := h.phdrs
  have hlt := f.size_lt
  have hfld : fld.off.toNat + fld.width ≤ 48 := by cases fld <;> decide
  have hoff : (BitVec.ofNat 64 (56 * i)).toNat = 56 * i := by
    rw [BitVec.toNat_ofNat, Nat.mod_eq_of_lt (by omega)]
  show (f.ePhoff + BitVec.ofNat 64 (56 * i) + fld.off).toNat + fld.width ≤ _
  rw [BitVec.toNat_add, BitVec.toNat_add, hoff, Nat.mod_eq_of_lt (a := f.ePhoff.toNat + _) (by omega),
    Nat.mod_eq_of_lt (by omega)]
  omega

theorem headersIn (h : Pie f T) : HeadersIn f := fun _ hi =>
  ⟨h.phInside hi _, fun _ => h.phInside hi _, fun _ => h.phInside hi _, fun _ => h.phInside hi _⟩

theorem not_fixed (h : Pie f T) : ¬ f.Fixed := by
  intro hf
  have htype := hf.1
  rw [h.type] at htype
  exact absurd htype (by decide)

theorem haveDyn (h : Pie f T) : f.scan.haveDyn = true := by
  obtain ⟨i, hi, ht⟩ := h.hasDyn
  exact h.bounds.dynamic i hi ht

theorem dynVaddr (h : Pie f T) : f.scan.dynVaddr = BitVec.ofNat 64 T.dyn := by
  obtain ⟨i, hi, ht, hv⟩ := h.bounds.dynVaddr h.haveDyn
  rw [hv, ← h.dynAt i hi ht, BitVec.ofNat_toNat, BitVec.setWidth_eq]

theorem minV_le (h : Pie f T) : ¬ f.minV > f.scan.maxV := by
  obtain ⟨i, hi, hc⟩ := h.dynMapped 0 (by omega)
  have hlow := h.bounds.low i hi hc.1
  have hhigh := h.bounds.high i hi hc.1
  intro hgt
  have hlt : f.scan.maxV.toNat < f.scan.minV.toNat := BitVec.lt_def.mp hgt
  omega

end Pie

theorem WellLaid.segmentIn (h : WellLaid f) (hi : i < f.phnum)
    (hin : ∀ fld, f.PhInside i fld) : SegmentIn f i := by
  refine ⟨fun _ => hin _, fun _ => hin _, fun hc _ => h.inFile i hi hc.1, fun hc _ => ?_⟩
  have hlow := h.bounds.low i hi hc.1
  have hhigh := h.bounds.high i hi hc.1
  have hsize := h.filesz i hi hc.1
  have hspan : f.span.toNat = f.scan.maxV.toNat - f.scan.minV.toNat :=
    BitVec.toNat_sub_of_le (BitVec.le_def.mpr (by omega))
  have hdst : (f.ph i .vaddr - f.minV).toNat = (f.ph i .vaddr).toNat - f.scan.minV.toNat :=
    BitVec.toNat_sub_of_le (BitVec.le_def.mpr hlow)
  unfold InSpan
  rw [hdst, hspan]
  omega

/-! ## The dynamic section -/

theorem File.Mapped.sub {v' n' : Nat} (hm : f.Mapped v n) (hlo : v ≤ v') (hhi : v' + n' ≤ v + n) :
    f.Mapped v' n' := by
  intro k hk
  obtain ⟨i, hi, hc⟩ := hm (v' + k - v) (by omega)
  refine ⟨i, hi, ?_⟩
  rwa [show v + (v' + k - v) = v' + k by omega] at hc

/-- The field of a tag. -/
def Dyn.get (tag : BitVec 64) (d : Dyn) : BitVec 64 :=
  if tag = dtRela then d.rela
  else if tag = dtRelasz then d.relasz
  else if tag = dtRelaent then d.relaent
  else if tag = dtSymtab then d.symtabVa
  else d.syment

theorem Dyn.get_set {tag tag' val : BitVec 64} (hu : usedTag tag) (d : Dyn) :
    (d.set tag' val).get tag = if tag' = tag then val else d.get tag := by
  unfold Dyn.set
  rcases hu with rfl | rfl | rfl | rfl | rfl <;> split_ifs <;> simp_all [Dyn.get] <;> rfl

/-- Addresses in the image, as offsets. -/
theorem off_add (v n : Nat) (b : BitVec 64) :
    BitVec.ofNat 64 v - b + BitVec.ofNat 64 n = BitVec.ofNat 64 (v + n) - b := by
  rw [BitVec.ofNat_add]
  bv_omega

theorem dynEntry_at (b : BitVec 64) (k : Nat) :
    dynEntry (BitVec.ofNat 64 v - b) k = BitVec.ofNat 64 (v + 16 * k) - b := off_add v (16 * k) b

/-- The image has the bytes the segments describe. -/
def ShowsVirt (f : File) (im : Img) : Prop :=
  ∀ v, f.minV.toNat ≤ v → im (v - f.minV.toNat) = f.virt v

namespace Pie

/-- Entry `k` is in the image, and so is what is read of it. -/
theorem dynEntry_in (h : Pie f T) {k : Nat} (hk : k ≤ T.entries) :
    f.Mapped (T.dyn + 16 * k) 8 ∧ f.Mapped (T.dyn + 16 * k + 8) 8 :=
  ⟨h.dynMapped.sub (by omega) (by omega), h.dynMapped.sub (by omega) (by omega)⟩

theorem num_tag (h : Pie f T) (him : ShowsVirt f im) {k : Nat} (hk : k ≤ T.entries) :
    im.num (dynEntry (f.scan.dynVaddr - f.minV) k) 8 = f.dynTag T k := by
  have hb := h.mapped (h.dynEntry_in hk).1 (by omega)
  rw [h.dynVaddr, dynEntry_at]
  exact num_virt him hb.1 (by omega)

theorem num_val (h : Pie f T) (him : ShowsVirt f im) {k : Nat} (hk : k ≤ T.entries) :
    im.num (dynEntry (f.scan.dynVaddr - f.minV) k + 8) 8 = f.dynVal T k := by
  have hb := h.mapped (h.dynEntry_in hk).2 (by omega)
  rw [h.dynVaddr, dynEntry_at, show (8 : BitVec 64) = BitVec.ofNat 64 8 from rfl, off_add]
  exact num_virt him hb.1 (by omega)

theorem dynIn (h : Pie f T) (him : ShowsVirt f im) :
    DynIn im f.span (f.scan.dynVaddr - f.minV) := by
  intro k hk
  have hle : k ≤ T.entries := by
    by_contra hgt
    exact hk T.entries (by omega) (by rw [h.num_tag him (Nat.le_refl _), h.dynNull])
  have hin := h.dynEntry_in hle
  rw [h.dynVaddr, dynEntry_at]
  refine ⟨h.inSpan hin.1 (by omega), fun _ => ?_⟩
  rw [show (8 : BitVec 64) = BitVec.ofNat 64 8 from rfl, off_add]
  exact h.inSpan hin.2 (by omega)

/-- From entry `j` on: a value that no further entry sets has been set. -/
theorem dynScan_get (h : Pie f T) (him : ShowsVirt f im) {tag val dflt : BitVec 64} (hu : usedTag tag)
    (hs : f.Says T tag val dflt) : ∀ fuel j d, j ≤ T.entries → T.entries < j + fuel →
      ((∀ k < T.entries, j ≤ k → f.dynTag T k ≠ tag) → d.get tag = val) →
      (dynScan im fuel (dynEntry (f.scan.dynVaddr - f.minV) j) d).get tag = val := by
  intro fuel
  induction fuel with
  | zero => exact fun j d hj hf => absurd hf (by omega)
  | succ fuel ih =>
    intro j d hj hf hd
    unfold dynScan
    rw [h.num_tag him hj]
    rcases Nat.lt_or_eq_of_le hj with hlt | rfl
    · rw [if_neg (h.dynTags j hlt), h.num_val him hj, show dynEntry (f.scan.dynVaddr - f.minV) j + 16 =
          dynEntry (f.scan.dynVaddr - f.minV) (j + 1) by
        rw [h.dynVaddr, dynEntry_at, dynEntry_at, show (16 : BitVec 64) = BitVec.ofNat 64 16 from rfl,
          off_add]
        rfl]
      refine ih (j + 1) _ (by omega) (by omega) fun hrest => ?_
      by_cases ht : f.dynTag T j = tag
      · rw [if_pos (ht ▸ hu), Dyn.get_set hu, if_pos ht]
        exact hs.1 j hlt ht
      · have hval : d.get tag = val := by
          refine hd fun k hk hjk => ?_
          rcases Nat.lt_or_eq_of_le hjk with hjk | rfl
          · exact hrest k hk hjk
          · exact ht
        split
        · rw [Dyn.get_set hu, if_neg ht, hval]
        · exact hval
    · rw [if_pos h.dynNull]
      exact hd fun k hk hjk => absurd hk (by omega)

theorem dyn_get (h : Pie f T) (him : ShowsVirt f im) {tag val dflt : BitVec 64} (hu : usedTag tag)
    (hs : f.Says T tag val dflt) (hd : Dyn.init.get tag = dflt) : (f.dyn im).get tag = val := by
  have hb := h.mapped h.dynMapped (by omega)
  have hfuel : T.entries < 0 + (f.span.toNat / 16 + 2) := by omega
  have hget := h.dynScan_get him hu hs (f.span.toNat / 16 + 2) 0 Dyn.init (by omega) hfuel ?_
  · rwa [dynEntry_zero] at hget
  · intro hno
    rw [hd, hs.2 fun k hk => hno k hk (by omega)]

/-- **What the dynamic section is read as.** -/
theorem dyn_eq (h : Pie f T) (him : ShowsVirt f im) :
    f.dyn im = ⟨T.rela, T.relasz, 24, T.symtab, 24⟩ := by
  have hrela : (f.dyn im).rela = T.rela := h.dyn_get him (by decide) h.rela rfl
  have hrelasz : (f.dyn im).relasz = T.relasz := h.dyn_get him (by decide) h.relasz rfl
  have hrelaent : (f.dyn im).relaent = 24 := h.dyn_get him (by decide) h.relaent rfl
  have hsymtab : (f.dyn im).symtabVa = T.symtab := h.dyn_get him (by decide) h.symtab rfl
  have hsyment : (f.dyn im).syment = 24 := h.dyn_get him (by decide) h.syment rfl
  cases hd : f.dyn im
  simp_all

end Pie

/-! ## Relocations -/

variable {m : Nat}

theorem relocs_n (h : Pie f T) (him : ShowsVirt f im) : (f.relocs im).n.toNat = T.relocs := by
  have hn : (f.relocs im).n =
      if (f.dyn im).rela ≠ 0 ∧ (f.dyn im).relasz ≠ 0 ∧ (f.dyn im).relaent ≠ 0 then
        (f.dyn im).relasz / (f.dyn im).relaent else 0 := rfl
  rw [hn, h.dyn_eq him]
  dsimp only
  split
  · rw [BitVec.toNat_udiv]
    rfl
  · next hc =>
    -- without an address or a size there are no relocations
    have hzero : ¬ 0 < T.relocs := by
      intro hpos
      refine hc ⟨h.relaNe hpos, ?_, by decide⟩
      intro h0
      unfold PieTables.relocs at hpos
      rw [h0] at hpos
      exact absurd hpos (by decide)
    show 0 = T.relocs
    omega

/-- The image after the first `k` relocations. -/
structure After (f : File) (T : PieTables) (slide : BitVec 64) (k : Nat) (im : Img) : Prop where
  kept : ∀ v, f.minV.toNat ≤ v → (∀ i < k, ¬ f.InWord T i v) →
    im (v - f.minV.toNat) = f.virt v
  words : ∀ i < k, ∀ b < 8, im ((f.rOffset T i).toNat - f.minV.toNat + b) =
    byteAt (f.relocValue T slide i).toNat b

/-- A word that no relocation covers. -/
theorem After.num {k : Nat} (ha : After f T slide k im) (hlo : f.minV.toNat ≤ v) (hhi : v < 2 ^ 64)
    (hoff : ∀ i < k, ∀ b < 8, ¬ f.InWord T i (v + b)) :
    im.num (BitVec.ofNat 64 v - f.minV) 8 = f.word v := by
  unfold Img.num File.word
  rw [offset_toNat hlo hhi, readLE_congr (g := f.virt) (q := v)]
  intro b hb
  rw [← ha.kept (v + b) (by omega) fun i hi => hoff i hi b hb]
  congr 1
  omega

/-- A word of the relocation table. -/
theorem rela_num (h : Pie f T) {k : Nat} (ha : After f T slide k im) (hi : i < T.relocs)
    (hk : k ≤ T.relocs) (hm : m ≤ 16) :
    InSpan f.span (BitVec.ofNat 64 (T.rela.toNat + 24 * i + m) - f.minV) 8 ∧
      im.num (BitVec.ofNat 64 (T.rela.toNat + 24 * i + m) - f.minV) 8 =
        f.word (T.rela.toNat + 24 * i + m) := by
  have hmap : f.Mapped (T.rela.toNat + 24 * i + m) 8 := h.relaMapped.sub (by omega) (by omega)
  have hb := h.mapped hmap (by omega)
  refine ⟨h.inSpan hmap (by omega), ha.num hb.1 (by omega) fun j hj b hb hw => ?_⟩
  exact h.offRela j (by omega) _ hw ⟨by omega, by omega⟩

theorem entry_at (h : Pie f T) (him : ShowsVirt f im) (i : Nat) :
    (f.relocs im).entry i = BitVec.ofNat 64 (T.rela.toNat + 24 * i) - f.minV := by
  have hrela : (f.relocs im).rela = T.rela - f.minV := by
    show (f.dyn im).rela - f.minV = _
    rw [h.dyn_eq him]
  unfold Relocs.entry
  rw [hrela, ← off_add, BitVec.ofNat_toNat, BitVec.setWidth_eq]

/-- The symbols of the first 256 that the table has can be used. -/
theorem symtab_at (h : Pie f T) (him : ShowsVirt f im) (hn : 0 < T.symbols) :
    (f.relocs im).symtab = some (T.symtab - f.minV) ∧
      ∀ s < T.symbols, s < 256 → s < (f.relocs im).nsym.toNat := by
  have hb := h.mapped h.symtabMapped (by omega)
  have hoff : (T.symtab - f.minV).toNat = T.symtab.toNat - f.minV.toNat :=
    BitVec.toNat_sub_of_le (BitVec.le_def.mpr hb.1)
  have hlt : T.symtab - f.minV < f.span := by
    rw [BitVec.lt_def, hoff]
    omega
  have hst : symtabOf f.minV f.span (f.dyn im) = (some (T.symtab - f.minV),
      if (f.span - (T.symtab - f.minV)) / 24 > 256 then 256
      else (f.span - (T.symtab - f.minV)) / 24) := by
    rw [h.dyn_eq him]
    exact if_pos ⟨h.symtabNe hn, rfl, BitVec.le_def.mpr hb.1, hlt⟩
  have hdiv : ((f.span - (T.symtab - f.minV)) / 24).toNat =
      (f.span.toNat - (T.symtab - f.minV).toNat) / 24 := by
    rw [BitVec.toNat_udiv, BitVec.toNat_sub_of_le (BitVec.le_of_lt hlt)]
    rfl
  refine ⟨congrArg Prod.fst hst, fun s hs h256 => ?_⟩
  rw [show (f.relocs im).nsym = _ from congrArg Prod.snd hst]
  split
  · exact h256
  · rw [hdiv, hoff]
    omega

theorem symbol_at (h : Pie f T) (him : ShowsVirt f im) {k : Nat} {im' : Img}
    (ha : After f T slide k im') (hk : k ≤ T.relocs)
    (hinfo : (f.relocs im).info im' i = f.rInfo T i) (hs : f.rSym T i < T.symbols)
    (h256 : f.rSym T i < 256) :
    (f.relocs im).symbol im' i = some (f.stValue T (f.rSym T i)) := by
  obtain ⟨hsym, hlt⟩ := symtab_at h him (by omega)
  have hmap : f.Mapped (T.symtab.toNat + 24 * f.rSym T i + 8) 8 :=
    h.symtabMapped.sub (by omega) (by omega)
  have hb := h.mapped hmap (by omega)
  have hix : elfRSym (f.rInfo T i) = BitVec.ofNat 64 (f.rSym T i) := by
    rw [File.rSym, BitVec.ofNat_toNat, BitVec.setWidth_eq]
  have haddr : T.symtab - f.minV + 24 * elfRSym (f.rInfo T i) + 8 =
      BitVec.ofNat 64 (T.symtab.toNat + 24 * f.rSym T i + 8) - f.minV := by
    rw [hix, show (8 : BitVec 64) = BitVec.ofNat 64 8 from rfl, ← off_add, ← off_add,
      BitVec.ofNat_toNat, BitVec.setWidth_eq, BitVec.ofNat_mul]
    rfl
  unfold Relocs.symbol
  rw [hsym, Option.bind_some, hinfo, if_neg, haddr,
    ha.num hb.1 (by omega) fun j hj b hb hw => h.offSymtab j (by omega) _ hw ⟨by omega, by omega⟩]
  · rfl
  · intro hge
    have hle := BitVec.le_def.mp hge
    have hlt := hlt _ hs h256
    unfold File.rSym at hlt
    omega

/-- A word that is relocated lies in the span. -/
theorem rOffset_in (h : Pie f T) (hi : i < T.relocs) : f.minV.toNat ≤ (f.rOffset T i).toNat ∧
    (f.rOffset T i).toNat + 8 ≤ f.minV.toNat + f.span.toNat := by
  obtain ⟨j, hj, k, hk, hlj, hlk, hlo, hhi⟩ := h.inRange i hi
  have hlow := h.bounds.low j hj hlj
  have hhigh := h.bounds.high k hk hlk
  have hspan : f.span.toNat = f.scan.maxV.toNat - f.scan.minV.toNat :=
    BitVec.toNat_sub_of_le (BitVec.le_def.mpr (by omega))
  rw [hspan]
  show f.scan.minV.toNat ≤ _ ∧ _ ≤ f.scan.minV.toNat + _
  omega

/-- **One more relocation.** -/
theorem After.step (h : Pie f T) (him : ShowsVirt f im) {k : Nat} (ha : After f T slide k im')
    (hk : k < T.relocs)
    (h256 : elfRType (f.rInfo T k) = rAarch64Abs64 → f.rSym T k < 256) :
    RelocIn (f.relocs im) im' k ∧ ∃ im'', (f.relocs im).step slide im' k = some im'' ∧
      After f T slide (k + 1) im'' := by
  have hentry := entry_at h him k
  have hoffset := rela_num (m := 0) h ha hk (by omega) (by omega)
  have hinfo := rela_num (m := 8) h ha hk (by omega) (by omega)
  have haddend := rela_num (m := 16) h ha hk (by omega) (by omega)
  rw [← off_add, ← hentry] at hinfo haddend
  rw [Nat.add_zero, ← hentry] at hoffset
  have hin := rOffset_in h hk
  have hspan := f.span.isLt
  have hoffeq : (f.relocs im).offset im' k = f.rOffset T k := hoffset.2
  have hdst : (f.rOffset T k - f.minV).toNat = (f.rOffset T k).toNat - f.minV.toNat :=
    BitVec.toNat_sub_of_le (BitVec.le_def.mpr hin.1)
  have hfits : InSpan f.span (f.rOffset T k - f.minV) 8 := by
    unfold InSpan
    rw [hdst]
    omega
  have hnot : ¬ (f.relocs im).OutOfSpan im' k := by
    unfold Relocs.OutOfSpan
    rw [hoffeq]
    rintro (hlo | hhi)
    · have hlo : (f.rOffset T k).toNat < f.minV.toNat := BitVec.lt_def.mp hlo
      omega
    · have hhi : f.span.toNat < (f.rOffset T k - f.minV + 8).toNat := BitVec.lt_def.mp hhi
      rw [BitVec.toNat_add, hdst, show (8 : BitVec 64).toNat = 8 from rfl,
        Nat.mod_eq_of_lt (by omega)] at hhi
      omega
  refine ⟨⟨hinfo.1, hoffset.1, fun _ => haddend.1, fun _ => ?_⟩, ?_⟩
  · rw [hoffeq]
    exact hfits
  have hval : (f.relocs im).value im' k slide = some (f.relocValue T slide k) := by
    unfold Relocs.value File.relocValue
    have hi : (f.relocs im).info im' k = f.rInfo T k := hinfo.2
    have had : (f.relocs im).addend im' k = f.rAddend T k := haddend.2
    rw [if_neg hnot, hi, had]
    by_cases hrel : elfRType (f.rInfo T k) = rAarch64Relative
    · rw [if_pos hrel, if_pos hrel]
    · obtain ⟨habs, hs⟩ := (h.types k hk).resolve_left hrel
      rw [if_neg hrel, if_neg hrel, if_pos habs,
        symbol_at h him ha (by omega) hi hs (h256 habs)]
      rfl
  have hput : (f.relocs im).step slide im' k = some (im'.blit
      ((f.rOffset T k).toNat - f.minV.toNat) 8 (byteAt (f.relocValue T slide k).toNat)) := by
    rw [← hdst, ← hoffeq, Relocs.step, hval]
    rfl
  refine ⟨_, hput, fun v hv hno => ?_, fun i hi b hb => ?_⟩
  · have hout := hno k (by omega)
    unfold File.InWord at hout
    rw [Img.blit_of_not_mem (by omega)]
    exact ha.kept v hv fun i hi => hno i (by omega)
  · rcases Nat.lt_or_eq_of_le (Nat.lt_succ_iff.mp hi) with hi | rfl
    · have hlow := (rOffset_in h (Nat.lt_trans hi hk)).1
      have hap := h.apart i (by omega) k hk (by omega) ((f.rOffset T i).toNat + b)
        ⟨by omega, by omega⟩
      unfold File.InWord at hap
      rw [Img.blit_of_not_mem (by omega)]
      exact ha.words i hi b hb
    · rw [Img.blit_of_mem (by omega), Nat.add_sub_cancel_left]

/-- **All of them.** -/
theorem After.all (slide : BitVec 64) (h : Pie f T) (him : ShowsVirt f im)
    (h256 : ∀ i < T.relocs, elfRType (f.rInfo T i) = rAarch64Abs64 → f.rSym T i < 256) :
    RelocsIn (f.relocs im) slide im ∧ ∃ im',
      (f.relocs im).applied slide im T.relocs = some im' ∧ After f T slide T.relocs im' := by
  have hrun : ∀ k ≤ T.relocs, ∃ im', (f.relocs im).applied slide im k = some im' ∧
      After f T slide k im' := by
    intro k
    induction k with
    | zero => exact fun _ => ⟨im, rfl, fun v hv _ => him v hv, fun i hi => absurd hi (by omega)⟩
    | succ k ih =>
      intro hk
      obtain ⟨im', happ, ha⟩ := ih (by omega)
      obtain ⟨-, im'', hstep, ha'⟩ := ha.step h him hk (h256 k hk)
      refine ⟨im'', ?_, ha'⟩
      unfold Relocs.applied at happ ⊢
      rw [List.range_succ, List.foldlM_append, happ]
      show [k].foldlM ((f.relocs im).step slide) im' = _
      simpa using hstep
  refine ⟨fun k hk im' happ => ?_, hrun T.relocs (Nat.le_refl _)⟩
  rw [relocs_n h him] at hk
  obtain ⟨im'', happ', ha⟩ := hrun k (Nat.le_of_lt hk)
  obtain rfl := Option.some.inj (happ'.symm.trans happ)
  exact (ha.step h him hk (h256 k hk)).1

/-! ## Loading -/

/-- The file at a base: the addresses become offsets. -/
theorem PieLoaded.of_after (h : Pie f T) {mem : VP → UInt8}
    (ha : After f T (img - f.minV) T.relocs im)
    (hmem : ∀ o < f.span.toNat, mem (img + BitVec.ofNat 64 o) = im o) :
    PieLoaded f T img (f.imageAt img) mem := by
  refine ⟨rfl, rfl, rfl, fun i hi v hc hno => ?_, fun r hr b hb => ?_⟩
  · have hb := h.covers_bounds hi hc
    have hoff : BitVec.ofNat 64 v - f.minV = BitVec.ofNat 64 (v - f.minV.toNat) := by
      apply BitVec.eq_of_toNat_eq
      rw [offset_toNat hb.1 hb.2.2, BitVec.toNat_ofNat, Nat.mod_eq_of_lt (by omega)]
    rw [hoff, hmem _ (by omega), ha.kept v hb.1 hno, h.virt_eq hi hc]
  · have hin := rOffset_in h hr
    have hoff : f.rOffset T r - f.minV =
        BitVec.ofNat 64 ((f.rOffset T r).toNat - f.minV.toNat) := by
      apply BitVec.eq_of_toNat_eq
      rw [BitVec.toNat_sub_of_le (BitVec.le_def.mpr hin.1), BitVec.toNat_ofNat,
        Nat.mod_eq_of_lt (by omega)]
    rw [hoff, BitVec.add_assoc, ← BitVec.ofNat_add, hmem _ (by omega)]
    exact ha.words r hr b hb

/-- **A position-independent file is loaded correctly at any base**, if the symbols that are used are
among the first 256. -/
theorem elf_load_pie (f : File) (T : PieTables) (h : Pie f T)
    (h256 : ∀ i < T.relocs, elfRType (f.rInfo T i) = rAarch64Abs64 → f.rSym T i < 256)
    (img : VP) (hp : Placed img f.blockSize) (buf : VP) (m : Machine) :
    ∃ e m', elfLoad (.whole buf f) (some img) m = .ok (e, m') ∧ PieLoaded f T img e m'.mem := by
  obtain ⟨im, hlaid, him⟩ := h.laidOut
  obtain ⟨hin, im', happ, ha⟩ := After.all (img - f.minV) h him h256
  have himage : ImageIn f img := by
    refine ⟨fun k hk _ => h.segmentIn hk (h.phInside hk), fun _ im₁ h₁ => ?_, fun _ im₁ h₁ => ?_⟩
    · obtain rfl := Option.some.inj (hlaid.symm.trans h₁)
      exact h.dynIn him
    · obtain rfl := Option.some.inj (hlaid.symm.trans h₁)
      exact hin
  have hloaded : f.loaded (img - f.minV) = some im' := by
    unfold File.loaded
    rw [hlaid]
    show f.finished _ im = _
    unfold File.finished
    rw [if_pos h.haveDyn, relocs_n h him, happ]
  have hno : ¬ f.Itrm := fun hi => not_accepted_of_itrm hi h.accepted
  have hrel := (loadRelocatable_mirrors (m := m.malloc buf (bufSize f.size)) h.headersIn h.accepted
    rfl hp).passes himage
  rw [hloaded] at hrel
  obtain ⟨⟨e, m₁⟩, hv, he, hshows⟩ := hrel
  have hbuf : buf ∈ addrs m₁.heap := by
    rw [hshows.heap, addrs_cons]
    exact Multiset.mem_cons_of_mem (mem_malloc buf (bufSize f.size) m)
  obtain ⟨h', hfree⟩ := freeBlock_of_mem hbuf
  refine ⟨e, { m₁ with heap := h' }, ?_, ?_⟩
  · rw [elfLoad_whole, if_neg hno, loadElf_eq h.accepted h.headersIn, if_neg h.minV_le,
      if_neg h.not_fixed, hv, freeFile_ok hfree]
  · obtain rfl : e = f.imageAt img := he
    exact .of_after h ha hshows.bytes

/-! ## A file with one relocation -/

theorem length_le (w v : Nat) : (le w v).length = w := by simp [le]

/-- One segment and its dynamic section. The only relocation uses the symbol `sym`; the symbol table
is behind the bytes of the file. -/
def oneReloc (sym : Nat) : File where
  bytes := [ehdr 3 0x1000 2, phdr 1 0 0x1000 304 0x4000, phdr 2 176 0x10b0 96 96,
    le 8 7, le 8 0x1110, le 8 8, le 8 24, le 8 9, le 8 24, le 8 6, le 8 0x2000, le 8 11, le 8 24,
    le 8 0, le 8 0, le 8 0x1128, le 8 (2 ^ 32 * sym + 257), le 8 5, le 8 0].flatten
  size_lt := by simp [ehdr, phdr, length_le]

def oneRelocTables : PieTables := ⟨0x10b0, 5, 0x1110, 24, 0x2000, 300⟩

theorem ptDynamic_ne_ptLoad : ptDynamic ≠ ptLoad := by decide

theorem oneReloc_pie : ∀ sym ∈ [1, 256], Pie (oneReloc sym) oneRelocTables := by
  intro sym hsym
  have hheader : ∀ sym ∈ [1, 256], (oneReloc sym).Accepted ∧ (oneReloc sym).eType = etDyn ∧
      (oneReloc sym).ePhentsize = 56 ∧ (oneReloc sym).phnum = 2 ∧
      (oneReloc sym).ePhoff.toNat + 56 * 2 ≤ (oneReloc sym).bytes.length := by decide +kernel
  have hsegs : ∀ sym ∈ [1, 256], (oneReloc sym).ph 0 .type = ptLoad ∧
      (oneReloc sym).ph 0 .offset = 0 ∧ (oneReloc sym).ph 0 .vaddr = 0x1000 ∧
      (oneReloc sym).ph 0 .filesz = 304 ∧ (oneReloc sym).ph 0 .memsz = 0x4000 ∧
      (oneReloc sym).ph 1 .type = ptDynamic ∧ (oneReloc sym).ph 1 .vaddr = 0x10b0 ∧
      (oneReloc sym).bytes.length = 304 := by decide +kernel
  have hdyn : ∀ sym ∈ [1, 256],
      (∀ k < 6, (oneReloc sym).num (BitVec.ofNat 64 (176 + 16 * k)) 8 =
        [7, 8, 9, 6, 11, 0].getD k 0) ∧
      ∀ k < 5, (oneReloc sym).num (BitVec.ofNat 64 (184 + 16 * k)) 8 =
        [0x1110, 24, 24, 0x2000, 24].getD k 0 := by
    decide +kernel
  have hrel : ∀ sym ∈ [1, 256], (oneReloc sym).num 272 8 = 0x1128 ∧
      elfRType ((oneReloc sym).num 280 8) = rAarch64Abs64 ∧
      (elfRSym ((oneReloc sym).num 280 8)).toNat < 300 := by decide +kernel
  obtain ⟨hacc, htype, hent, hnum, hphdrs⟩ := hheader sym hsym
  obtain ⟨hload, hoff, hva, hfs, hms, hdt, hdv, hlen⟩ := hsegs sym hsym
  obtain ⟨hnumTag, hnumVal⟩ := hdyn sym hsym
  obtain ⟨hnumOff, hnumType, hnumSym⟩ := hrel sym hsym
  have hone : oneRelocTables.relocs = 1 := rfl
  generalize oneReloc sym = f at *
  have hnot : ¬ f.Loads 1 := by
    intro hl
    rw [File.Loads, hdt] at hl
    exact ptDynamic_ne_ptLoad hl
  have honly : ∀ i < f.phnum, f.Loads i → i = 0 := by
    intro i hi hl
    rw [hnum] at hi
    rcases Nat.lt_or_eq_of_le (Nat.lt_succ_iff.mp hi) with hi | rfl
    · omega
    · exact absurd hl hnot
  have hva' : (f.ph 0 .vaddr).toNat = 0x1000 := by rw [hva]; rfl
  have hms' : (f.ph 0 .memsz).toNat = 0x4000 := by rw [hms]; rfl
  have hlaid : WellLaid f := {
    filesz := fun i hi hl => by rw [honly i hi hl, hfs, hms]; decide
    inFile := fun i hi hl => by rw [honly i hi hl, hoff, hfs, hlen]; decide
    noWrap := fun i hi hl => by rw [honly i hi hl, hva', hms']; decide
    disjoint := fun i hi j hj v hc hc' => by rw [honly i hi hc.1, honly j hj hc'.1] }
  -- the bytes of the segment are those of the file
  have hword : ∀ v, 0x1000 ≤ v → v + 8 ≤ 0x1130 →
      f.word v = f.num (BitVec.ofNat 64 (v - 0x1000)) 8 := by
    intro v hlo hhi
    unfold File.word File.num
    rw [BitVec.toNat_ofNat, Nat.mod_eq_of_lt (a := v - 0x1000) (by omega)]
    congr 1
    refine readLE_congr fun k hk => ?_
    have hc : f.Covers 0 (v + k) := ⟨hload, by omega, by omega⟩
    have hfs' : (f.ph 0 .filesz).toNat = 304 := by rw [hfs]; rfl
    have hoff' : (f.ph 0 .offset).toNat = 0 := by rw [hoff]; rfl
    rw [hlaid.virt_eq (by omega) hc, File.segByte, hva', hfs', hoff', if_pos (by omega),
      show 0 + (v + k - 0x1000) = v - 0x1000 + k by omega]
  have htag : ∀ k < 6, f.dynTag oneRelocTables k = [7, 8, 9, 6, 11, 0].getD k 0 := by
    intro k hk
    show f.word (0x10b0 + 16 * k) = _
    rw [hword _ (by omega) (by omega), show 0x10b0 + 16 * k - 0x1000 = 176 + 16 * k by omega]
    exact hnumTag k hk
  have hval : ∀ k < 5,
      f.dynVal oneRelocTables k = [0x1110, 24, 24, 0x2000, 24].getD k 0 := by
    intro k hk
    show f.word (0x10b0 + 16 * k + 8) = _
    rw [hword _ (by omega) (by omega), show 0x10b0 + 16 * k + 8 - 0x1000 = 184 + 16 * k by omega]
    exact hnumVal k hk
  have hro : f.rOffset oneRelocTables 0 = 0x1128 := (hword 0x1110 (by omega) (by omega)).trans hnumOff
  have hinfo : f.rInfo oneRelocTables 0 = f.num 280 8 := hword 0x1118 (by omega) (by omega)
  have hmapped : ∀ v n, 0x1000 ≤ v → v + n ≤ 0x5000 → f.Mapped v n := by
    intro v n hlo hhi k hk
    exact ⟨0, by omega, hload, by omega, by omega⟩
  have hsays : ∀ tag v dflt : BitVec 64,
      (∀ k < 5, [7, 8, 9, 6, 11, 0].getD k 0 = tag → [0x1110, 24, 24, 0x2000, 24].getD k 0 = v) →
      ((∀ k < 5, [7, 8, 9, 6, 11, 0].getD k 0 ≠ tag) → v = dflt) →
      f.Says oneRelocTables tag v dflt := by
    intro tag v dflt hv hd
    refine ⟨fun k hk ht => ?_, fun hno => hd fun k hk => ?_⟩
    · rw [hval k hk]
      exact hv k hk ((htag k (Nat.lt_succ_of_lt hk)).symm.trans ht)
    · rw [← htag k (Nat.lt_succ_of_lt hk)]
      exact hno k hk
  have hzero : ∀ i < oneRelocTables.relocs, i = 0 := by
    intro i hi
    omega
  have hat : ∀ i < oneRelocTables.relocs, (f.rOffset oneRelocTables i).toNat = 0x1128 := by
    intro i hi
    rw [hzero i hi, hro]
    rfl
  exact {
    toWellLaid := hlaid
    size := by omega
    magic := hacc.2.1
    class_data := hacc.2.2.1
    machine := hacc.2.2.2.1
    type := htype
    phentsize := hent
    phdrs := by omega
    hasDyn := ⟨1, by omega, hdt⟩
    dynAt := fun i hi ht => by
      rw [hnum] at hi
      rcases Nat.lt_or_eq_of_le (Nat.lt_succ_iff.mp hi) with hi | rfl
      · obtain rfl : i = 0 := by omega
        exact absurd (ht.symm.trans hload) ptDynamic_ne_ptLoad
      · rw [hdv]
        rfl
    dynMapped := hmapped _ _ (by decide) (by decide)
    dynTags := fun k hk => by
      rw [htag k (Nat.lt_succ_of_lt hk)]
      revert k
      decide
    dynNull := htag 5 (by decide)
    rela := hsays _ _ _ (by decide) (by decide)
    relasz := hsays _ _ _ (by decide) (by decide)
    relaent := hsays _ _ _ (by decide) (by decide)
    symtab := hsays _ _ _ (by decide) (by decide)
    syment := hsays _ _ _ (by decide) (by decide)
    relaNe := fun _ => by decide
    relaMapped := hmapped _ _ (by decide) (by decide)
    symtabNe := fun _ => by decide
    symtabMapped := hmapped _ _ (by decide) (by decide)
    types := fun i hi => by rw [hzero i hi, File.rSym, hinfo]; exact Or.inr ⟨hnumType, hnumSym⟩
    inRange := fun i hi => ⟨0, by omega, 0, by omega, hload, hload, by rw [hat i hi]; omega,
      by rw [hat i hi]; omega⟩
    offRela := fun i hi v hw => by
      unfold File.InWord at hw
      rw [hat i hi] at hw
      have hlo : oneRelocTables.rela.toNat = 0x1110 := rfl
      omega
    offSymtab := fun i hi v hw => by
      unfold File.InWord at hw
      rw [hat i hi] at hw
      have hlo : oneRelocTables.symtab.toNat = 0x2000 := rfl
      omega
    apart := fun i hi j hj hne => absurd ((hzero i hi).trans (hzero j hj).symm) hne }

theorem elf_load_pie_at_base : ∃ e m', elfLoad (.whole 0x100000 (oneReloc 1)) (some 0x200000)
    ⟨fun _ => 0, []⟩ = .ok (e, m') ∧ PieLoaded (oneReloc 1) oneRelocTables 0x200000 e m'.mem := by
  have h256 : ∀ i < oneRelocTables.relocs,
      elfRType ((oneReloc 1).rInfo oneRelocTables i) = rAarch64Abs64 →
      (oneReloc 1).rSym oneRelocTables i < 256 := by decide +kernel
  have hplaced : Placed 0x200000 (oneReloc 1).blockSize := by decide +kernel
  exact elf_load_pie (oneReloc 1) oneRelocTables (oneReloc_pie 1 (by decide)) h256 0x200000 hplaced
    0x100000 ⟨fun _ => 0, []⟩

/-- The program has returned 0. -/
def loads {α : Type} (x : Load α) : Bool :=
  match x with
  | .ok _ => true
  | .error _ => false

/-- Symbol 256 is refused, although the table has it. -/
theorem elf_load_refuses_symbol : Pie (oneReloc 256) oneRelocTables ∧
    Placed 0x200000 (oneReloc 256).blockSize ∧
    ¬ ∃ e m', elfLoad (.whole 0x100000 (oneReloc 256)) (some 0x200000) ⟨fun _ => 0, []⟩ =
      .ok (e, m') := by
  have hplaced : Placed 0x200000 (oneReloc 256).blockSize := by decide +kernel
  have hno : loads (elfLoad (.whole 0x100000 (oneReloc 256)) (some 0x200000) ⟨fun _ => 0, []⟩) =
      false := by decide +kernel
  refine ⟨oneReloc_pie 256 (by decide), hplaced, ?_⟩
  rintro ⟨e, m', he⟩
  rw [he] at hno
  cases hno

end Ittrium.Elf
