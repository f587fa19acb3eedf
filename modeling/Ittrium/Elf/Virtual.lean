import Ittrium.Elf.Image

/-!
# The memory a file describes

What the segments of a file say about a virtual address. Addresses are numbers, nothing wraps.

* `File.Covers` — the address is in a segment
* `File.virt` — the byte there
* `WellLaid` — the segments are in the file, disjoint, and below 2^64
* `WellLaid.laidOut` — **the image of such a file holds these bytes**
-/

namespace Ittrium.Elf

open Infra

namespace File

variable (f : File)

/-- The address `v` is in segment `i`. -/
def Covers (i v : Nat) : Prop :=
  f.Loads i ∧ (f.ph i .vaddr).toNat ≤ v ∧ v < (f.ph i .vaddr).toNat + (f.ph i .memsz).toNat

instance (i v : Nat) : Decidable (f.Covers i v) := inferInstanceAs (Decidable (_ ∧ _ ∧ _))

/-- What segment `i` has at `v`: a byte of the file, or 0 behind `p_filesz`. -/
def segByte (i v : Nat) : UInt8 :=
  if v - (f.ph i .vaddr).toNat < (f.ph i .filesz).toNat then
    f.byte ((f.ph i .offset).toNat + (v - (f.ph i .vaddr).toNat))
  else 0

/-- What the first `n` segments have at `v`. -/
def virtOf : Nat → Nat → UInt8
  | 0, _ => 0
  | n + 1, v => if f.Covers n v then f.segByte n v else virtOf n v

def virt (v : Nat) : UInt8 := f.virtOf f.phnum v

/-- The 64-bit number at `v`. -/
def word (v : Nat) : BitVec 64 := BitVec.ofNat 64 (readLE f.virt v 8)

/-- The `n` bytes at `v` are in segments. -/
def Mapped (v n : Nat) : Prop := ∀ k < n, ∃ i < f.phnum, f.Covers i (v + k)

end File

/-- The segments of the file are as they should be. -/
structure WellLaid (f : File) : Prop where
  filesz : ∀ i < f.phnum, f.Loads i → (f.ph i .filesz).toNat ≤ (f.ph i .memsz).toNat
  inFile : ∀ i < f.phnum, f.Loads i →
    (f.ph i .offset).toNat + (f.ph i .filesz).toNat ≤ f.bytes.length
  noWrap : ∀ i < f.phnum, f.Loads i → (f.ph i .vaddr).toNat + (f.ph i .memsz).toNat < 2 ^ 64
  disjoint : ∀ i < f.phnum, ∀ j < f.phnum, ∀ v, f.Covers i v → f.Covers j v → i = j

variable {f : File} {i n v w : Nat} {im : Img}

/-! ## Bytes -/

theorem virtOf_none : ∀ n, (∀ i < n, ¬ f.Covers i v) → f.virtOf n v = 0 := by
  intro n
  induction n with
  | zero => exact fun _ => rfl
  | succ n ih =>
    intro h
    rw [File.virtOf, if_neg (h n (by omega))]
    exact ih fun i hi => h i (by omega)

theorem WellLaid.virtOf_eq (h : WellLaid f) (hc : f.Covers i v) :
    ∀ n, i < n → n ≤ f.phnum → f.virtOf n v = f.segByte i v := by
  intro n
  induction n with
  | zero => exact fun hi => absurd hi (by omega)
  | succ n ih =>
    intro hi hn
    rw [File.virtOf]
    split
    · next hcn => rw [h.disjoint i (by omega) n (by omega) v hc hcn]
    · next hcn =>
      rcases Nat.lt_or_eq_of_le (Nat.lt_succ_iff.mp hi) with hi | rfl
      · exact ih hi (by omega)
      · exact absurd hc hcn

/-- **There is only one segment to ask.** -/
theorem WellLaid.virt_eq (h : WellLaid f) (hi : i < f.phnum) (hc : f.Covers i v) :
    f.virt v = f.segByte i v := h.virtOf_eq hc f.phnum hi (Nat.le_refl _)

/-! ## The lowest and the highest address -/

section Scan

variable (f : File) (sc : Scan) (i : Nat)

theorem Scan.add_minV : (Scan.add f sc i).minV =
    if f.Loads i ∧ f.ph i .vaddr < sc.minV then f.ph i .vaddr else sc.minV := by
  unfold Scan.add File.Loads
  dsimp only
  split_ifs <;> simp_all

theorem Scan.add_maxV : (Scan.add f sc i).maxV =
    if f.Loads i ∧ f.ph i .vaddr + f.ph i .memsz > sc.maxV then f.ph i .vaddr + f.ph i .memsz
    else sc.maxV := by
  unfold Scan.add File.Loads
  dsimp only
  split_ifs <;> simp_all

theorem Scan.add_haveDyn : (Scan.add f sc i).haveDyn =
    (sc.haveDyn || decide (f.ph i .type = ptDynamic)) := by
  unfold Scan.add
  dsimp only
  split_ifs <;> simp_all

theorem Scan.add_dynVaddr : (Scan.add f sc i).dynVaddr =
    if f.ph i .type = ptDynamic then f.ph i .vaddr else sc.dynVaddr := by
  unfold Scan.add
  dsimp only
  split_ifs <;> simp_all

end Scan

/-- What the first loop knows after `n` headers. -/
structure Bounds (f : File) (n : Nat) (sc : Scan) : Prop where
  low : ∀ i < n, f.Loads i → sc.minV.toNat ≤ (f.ph i .vaddr).toNat
  high : ∀ i < n, f.Loads i → (f.ph i .vaddr).toNat + (f.ph i .memsz).toNat ≤ sc.maxV.toNat
  lowest : sc.minV = BitVec.allOnes 64 ∨ ∃ i < n, f.Loads i ∧ sc.minV = f.ph i .vaddr
  dynamic : ∀ i < n, f.ph i .type = ptDynamic → sc.haveDyn = true
  dynVaddr : sc.haveDyn = true → ∃ i < n, f.ph i .type = ptDynamic ∧ sc.dynVaddr = f.ph i .vaddr

theorem Bounds.add (h : WellLaid f) (hn : n < f.phnum) {sc : Scan} (hb : Bounds f n sc) :
    Bounds f (n + 1) (Scan.add f sc n) := by
  have hmin : (Scan.add f sc n).minV.toNat ≤ sc.minV.toNat := by
    rw [Scan.add_minV]
    split
    · next hc => exact Nat.le_of_lt (BitVec.lt_def.mp hc.2)
    · exact Nat.le_refl _
  have hmax : sc.maxV.toNat ≤ (Scan.add f sc n).maxV.toNat := by
    rw [Scan.add_maxV]
    split
    · next hc => exact Nat.le_of_lt (BitVec.lt_def.mp hc.2)
    · exact Nat.le_refl _
  constructor
  · intro i hi hl
    -- a segment seen before, whose bounds can only have widened, or the new one
    rcases Nat.lt_or_eq_of_le (Nat.lt_succ_iff.mp hi) with hi | rfl
    · exact Nat.le_trans hmin (hb.low i hi hl)
    · rw [Scan.add_minV]
      split
      · exact Nat.le_refl _
      · next hc => exact Nat.le_of_not_lt fun hlt => hc ⟨hl, BitVec.lt_def.mpr hlt⟩
  · intro i hi hl
    rcases Nat.lt_or_eq_of_le (Nat.lt_succ_iff.mp hi) with hi | rfl
    · exact Nat.le_trans (hb.high i hi hl) hmax
    · have hsum : (f.ph i .vaddr + f.ph i .memsz).toNat =
          (f.ph i .vaddr).toNat + (f.ph i .memsz).toNat := by
        rw [BitVec.toNat_add, Nat.mod_eq_of_lt (h.noWrap i hn hl)]
      rw [Scan.add_maxV, ← hsum]
      split
      · exact Nat.le_refl _
      · next hc => exact Nat.le_of_not_lt fun hlt => hc ⟨hl, BitVec.lt_def.mpr hlt⟩
  · rw [Scan.add_minV]
    split
    · next hc => exact Or.inr ⟨n, by omega, hc.1, rfl⟩
    · rcases hb.lowest with hones | ⟨i, hi, hl, hv⟩
      · exact Or.inl hones
      · exact Or.inr ⟨i, by omega, hl, hv⟩
  · intro i hi ht
    rw [Scan.add_haveDyn, Bool.or_eq_true]
    rcases Nat.lt_or_eq_of_le (Nat.lt_succ_iff.mp hi) with hi | rfl
    · exact Or.inl (hb.dynamic i hi ht)
    · exact Or.inr (decide_eq_true ht)
  · intro hd
    rw [Scan.add_dynVaddr]
    rw [Scan.add_haveDyn, Bool.or_eq_true, decide_eq_true_iff] at hd
    split
    · next ht => exact ⟨n, by omega, ht, rfl⟩
    · next ht =>
      obtain ⟨i, hi, ht', hv⟩ := hb.dynVaddr (hd.resolve_right ht)
      exact ⟨i, by omega, ht', hv⟩

theorem WellLaid.bounds (h : WellLaid f) : Bounds f f.phnum f.scan := by
  have hrun : ∀ n ≤ f.phnum,
      Bounds f n ((List.range n).foldl (Scan.add f) ⟨BitVec.allOnes 64, 0, 0, false⟩) := by
    intro n
    induction n with
    | zero =>
      exact fun _ => ⟨nofun, nofun, Or.inl rfl, nofun, nofun⟩
    | succ n ih =>
      intro hn
      rw [List.range_succ, List.foldl_append]
      exact (ih (by omega)).add h (by omega)
  exact hrun f.phnum (Nat.le_refl _)

/-! ## The image -/

/-- Segments are at or above `min_v`, and end in the span. -/
theorem WellLaid.covers_bounds (h : WellLaid f) (hi : i < f.phnum) (hc : f.Covers i v) :
    f.minV.toNat ≤ v ∧ v < f.minV.toNat + f.span.toNat ∧ v < 2 ^ 64 := by
  have hlow := h.bounds.low i hi hc.1
  have hhigh := h.bounds.high i hi hc.1
  have hlt := h.noWrap i hi hc.1
  have hv := hc.2
  have hspan : f.span.toNat = f.scan.maxV.toNat - f.scan.minV.toNat :=
    BitVec.toNat_sub_of_le (BitVec.le_def.mpr (by omega))
  rw [hspan]
  show f.scan.minV.toNat ≤ v ∧ v < f.scan.minV.toNat + _ ∧ _
  omega

theorem offset_toNat {a : BitVec 64} (ha : a.toNat ≤ v) (hv : v < 2 ^ 64) :
    (BitVec.ofNat 64 v - a).toNat = v - a.toNat := by
  have htoNat : (BitVec.ofNat 64 v).toNat = v := by
    rw [BitVec.toNat_ofNat, Nat.mod_eq_of_lt hv]
  rw [BitVec.toNat_sub_of_le (BitVec.le_def.mpr (by rwa [htoNat])), htoNat]

/-- Bytes in segments lie in the image. -/
theorem WellLaid.mapped (h : WellLaid f) (hm : f.Mapped v n) (hn : 0 < n) :
    f.minV.toNat ≤ v ∧ v + n ≤ f.minV.toNat + f.span.toNat ∧ v + n ≤ 2 ^ 64 := by
  obtain ⟨i, hi, hc⟩ := hm 0 hn
  obtain ⟨j, hj, hcj⟩ := hm (n - 1) (by omega)
  have hfirst := h.covers_bounds hi hc
  have hlast := h.covers_bounds hj hcj
  omega

theorem WellLaid.inSpan (h : WellLaid f) (hm : f.Mapped v n) (hn : 0 < n) :
    InSpan f.span (BitVec.ofNat 64 v - f.minV) n := by
  have hb := h.mapped hm hn
  unfold InSpan
  rw [offset_toNat hb.1 (by omega)]
  omega

theorem Img.blit_of_mem {dst n o : Nat} {src : Nat → UInt8} (h : dst ≤ o ∧ o < dst + n) :
    im.blit dst n src o = src (o - dst) := if_pos h

theorem Img.blit_of_not_mem {dst n o : Nat} {src : Nat → UInt8} (h : ¬ (dst ≤ o ∧ o < dst + n)) :
    im.blit dst n src o = im o := if_neg h

/-- **One more segment.** -/
theorem WellLaid.place (h : WellLaid f) (hn : n < f.phnum)
    (him : ∀ v, f.minV.toNat ≤ v → im (v - f.minV.toNat) = f.virtOf n v) :
    ∃ im', f.place im n = some im' ∧
      ∀ v, f.minV.toNat ≤ v → im' (v - f.minV.toNat) = f.virtOf (n + 1) v := by
  unfold File.place
  by_cases hl : f.ph n .type = ptLoad
  swap
  · refine ⟨im, if_pos hl, fun v hv => ?_⟩
    rw [File.virtOf, if_neg fun hc => hl hc.1]
    exact him v hv
  rw [if_neg (not_not.mpr hl)]
  -- what a segment has behind `p_filesz` has been 0 from the start
  have hbss : ∀ v, f.minV.toNat ≤ v → f.Covers n v →
      ¬ v - (f.ph n .vaddr).toNat < (f.ph n .filesz).toNat →
      im (v - f.minV.toNat) = f.virtOf (n + 1) v := by
    intro v hv hc ho
    rw [him v hv, File.virtOf, if_pos hc, File.segByte, if_neg ho]
    refine virtOf_none n fun i hi hci => ?_
    have heq := h.disjoint i (by omega) n hn v hci hc
    omega
  have hother : ∀ v, f.minV.toNat ≤ v → ¬ f.Covers n v →
      im (v - f.minV.toNat) = f.virtOf (n + 1) v := by
    intro v hv hc
    rw [him v hv, File.virtOf, if_neg hc]
  have hlow : f.minV.toNat ≤ (f.ph n .vaddr).toNat := h.bounds.low n hn hl
  by_cases hz : f.ph n .filesz = 0
  · refine ⟨im, if_pos hz, fun v hv => ?_⟩
    by_cases hc : f.Covers n v
    · exact hbss v hv hc (by rw [hz]; exact Nat.not_lt_zero _)
    · exact hother v hv hc
  have hfile := h.inFile n hn hl
  have hsize := h.filesz n hn hl
  have hfits : ¬ f.ph n .offset + f.ph n .filesz > f.size := by
    have hlen : f.size.toNat = f.bytes.length := by
      rw [File.size, BitVec.toNat_ofNat, Nat.mod_eq_of_lt f.size_lt]
    have hlt := f.size_lt
    rw [gt_iff_lt, BitVec.lt_def, BitVec.toNat_add, Nat.mod_eq_of_lt (by omega), hlen]
    omega
  rw [if_neg hz, if_neg hfits]
  refine ⟨_, rfl, fun v hv => ?_⟩
  have hdst : (f.ph n .vaddr - f.minV).toNat = (f.ph n .vaddr).toNat - f.minV.toNat :=
    BitVec.toNat_sub_of_le (BitVec.le_def.mpr hlow)
  by_cases hin : (f.ph n .vaddr).toNat ≤ v ∧ v < (f.ph n .vaddr).toNat + (f.ph n .filesz).toNat
  · have hc : f.Covers n v := ⟨hl, by omega, by omega⟩
    rw [hdst, Img.blit_of_mem (by omega), File.virtOf, if_pos hc, File.segByte, if_pos (by omega)]
    congr 1
    omega
  · rw [hdst, Img.blit_of_not_mem (by omega)]
    by_cases hc : f.Covers n v
    · have hge := hc.2.1
      exact hbss v hv hc (by omega)
    · exact hother v hv hc

/-- **The image holds what the segments describe.** -/
theorem WellLaid.laidOut (h : WellLaid f) : ∃ im, f.laidOut f.phnum = some im ∧
    ∀ v, f.minV.toNat ≤ v → im (v - f.minV.toNat) = f.virt v := by
  have hrun : ∀ n ≤ f.phnum, ∃ im, f.laidOut n = some im ∧
      ∀ v, f.minV.toNat ≤ v → im (v - f.minV.toNat) = f.virtOf n v := by
    intro n
    induction n with
    | zero => exact fun _ => ⟨_, rfl, fun _ _ => rfl⟩
    | succ n ih =>
      intro hn
      obtain ⟨im, him, hv⟩ := ih (by omega)
      obtain ⟨im', hplace, hv'⟩ := h.place (by omega) hv
      refine ⟨im', ?_, hv'⟩
      unfold File.laidOut at him ⊢
      rw [List.range_succ, List.foldlM_append, him]
      show [n].foldlM f.place im = _
      simpa using hplace
  exact hrun f.phnum (Nat.le_refl _)

/-- A number is read from the image as the segments have it. -/
theorem num_virt (him : ∀ v, f.minV.toNat ≤ v → im (v - f.minV.toNat) = f.virt v)
    (hv : f.minV.toNat ≤ v) (hlt : v < 2 ^ 64) :
    im.num (BitVec.ofNat 64 v - f.minV) 8 = f.word v := by
  unfold Img.num File.word
  rw [offset_toNat hv hlt, readLE_congr (g := f.virt) (q := v)]
  intro k _
  rw [← him (v + k) (by omega)]
  congr 1
  omega

end Ittrium.Elf
