import Ittrium.Elf.Image

/-!
# The checks of the loader

For each function of the loader: which accesses pass, and what it comes to if they do.

* `HeaderIn`, `FixedSegIn`, `SegmentIn`, `DynIn`, `RelocIn` — the accesses of one round of each loop
* `Shows` — the memory holds an image
* `loadFixed_mirrors`, `loadRelocatable_mirrors` — **the two branches**
* `loadElf_eq` — which of them is taken
-/

namespace Ittrium.Elf

open Infra

variable {f : File} {m : Machine} {i : Nat} {img : VP} {Q : Machine → Prop}

/-- A fault other than that of `free`. -/
abbrev Access (e : LoadFault) : Prop := e ≠ .free

/-! ## Reads -/

theorem getPh_mirrors (f : File) (i : Nat) (fld : PhField) :
    Mirrors Access (f.PhInside i fld) (f.getPh i fld) (some (f.ph i fld)) Eq Q :=
  .check (by decide) fun _ => rfl

theorem get_ok {off : BitVec 64} {w : Nat} (h : f.Inside off w) : f.get off w = .ok (f.num off w) :=
  if_pos h

theorem size_toNat (f : File) : f.size.toNat = f.bytes.length := by
  rw [File.size, BitVec.toNat_ofNat, Nat.mod_eq_of_lt f.size_lt]

theorem inside_header {n off : BitVec 64} {w : Nat} (h : ¬ f.size < n) (hw : off.toNat + w ≤ n.toNat) :
    f.Inside off w := by
  rw [BitVec.lt_def, size_toNat] at h
  unfold File.Inside
  omega

/-- The ELF header is in the file when it is read. -/
theorem checkEhdr_eq (f : File) (m : Machine) :
    checkEhdr f m = if f.Accepted then .ok f.eType else .error (.reject m) := by
  unfold checkEhdr
  by_cases hsz : f.size < 64
  · rw [if_pos hsz, if_neg fun h => h.1 hsz]
  have hin : ∀ (off : BitVec 64) (w : Nat), off.toNat + w ≤ 64 → f.get off w = .ok (f.num off w) :=
    fun off w hw => get_ok (inside_header hsz hw)
  rw [if_neg hsz, hin 0 1 (by decide), hin 1 1 (by decide), hin 2 1 (by decide), hin 3 1 (by decide),
    hin 4 1 (by decide), hin 5 1 (by decide), hin 18 2 (by decide), hin 16 2 (by decide),
    hin 32 8 (by decide), hin 56 2 (by decide), hin 54 2 (by decide)]
  dsimp only [bind, Except.bind]
  by_cases h₁ : f.num 0 1 ≠ 0x7f ∨ f.num 1 1 ≠ 0x45 ∨ f.num 2 1 ≠ 0x4c ∨ f.num 3 1 ≠ 0x46
  · rw [if_pos h₁, if_neg fun h => by have := h.2.1; tauto]
  rw [if_neg h₁]
  by_cases h₂ : f.num 4 1 ≠ 2 ∨ f.num 5 1 ≠ 1
  · rw [if_pos h₂, if_neg fun h => by have := h.2.2.1; tauto]
  rw [if_neg h₂]
  by_cases h₃ : f.num 18 2 ≠ emAarch64
  · rw [if_pos h₃, if_neg fun h => h₃ h.2.2.2.1]
  rw [if_neg h₃]
  by_cases h₄ : f.num 16 2 ≠ etExec ∧ f.num 16 2 ≠ etDyn
  · rw [if_pos h₄, if_neg fun h => h.2.2.2.2.1.elim h₄.1 h₄.2]
  rw [if_neg h₄]
  by_cases h₅ : f.num 32 8 + f.num 56 2 * f.num 54 2 > f.size
  · rw [if_pos h₅, if_neg fun h => h.2.2.2.2.2 h₅]
  have htype : f.num 16 2 = etExec ∨ f.num 16 2 = etDyn := by tauto
  rw [if_neg h₅, if_pos ⟨hsz, by tauto, by tauto, not_not.mp h₃, htype, h₅⟩]
  rfl

/-- What the loops read of `ph[i]` lies in the file. -/
structure HeaderIn (f : File) (i : Nat) : Prop where
  type : f.PhInside i .type
  dynamic : f.ph i .type = ptDynamic → f.PhInside i .vaddr
  vaddr : f.Loads i → f.PhInside i .vaddr
  memsz : f.Loads i → f.PhInside i .memsz

theorem scanPhdr_mirrors (f : File) (sc : Scan) (i : Nat) :
    Mirrors Access (HeaderIn f i) (scanPhdr f sc i) (some (Scan.add f sc i)) Eq Q := by
  unfold scanPhdr Scan.add
  apply Mirrors.congr
  case h =>
    apply Mirrors.bindSome (getPh_mirrors f i .type)
    apply Mirrors.bindSome
    · apply Mirrors.iteSome
      · intro _
        exact (getPh_mirrors f i .vaddr).bindSome (.pure rfl)
      · exact fun _ => .pure rfl
    · apply Mirrors.iteSome
      · exact fun _ => .pure rfl
      · intro _
        exact (getPh_mirrors f i .vaddr).bindSome ((getPh_mirrors f i .memsz).bindSome (.pure rfl))
  constructor
  · intro h
    refine ⟨h.type, ⟨fun hd => ⟨h.dynamic hd, trivial⟩, fun _ => trivial⟩, fun _ => trivial,
      fun hl => ⟨h.vaddr (not_not.mp hl), h.memsz (not_not.mp hl), trivial⟩⟩
  · rintro ⟨ht, ⟨hd, -⟩, -, hl⟩
    exact ⟨ht, fun h => (hd h).1, fun h => (hl (not_not.mpr h)).1, fun h => (hl (not_not.mpr h)).2.1⟩

/-- Every header that is read is in the file. -/
def HeadersIn (f : File) : Prop := ∀ i < f.phnum, HeaderIn f i

theorem scanPhdrs_mirrors (f : File) : Mirrors Access (HeadersIn f) (scanPhdrs f) (some f.scan) Eq Q :=
  .foldl (HeaderIn f) _ _ fun i _ sc => scanPhdr_mirrors f sc i

/-- The answer so far, with one more segment. -/
def File.fits (f : File) (ok : Bool) (i : Nat) : Bool :=
  if f.ph i .type ≠ ptLoad then ok
  else if !inExecWindow (f.ph i .vaddr) (f.ph i .memsz) then false else ok

theorem foldl_fits (f : File) :
    ∀ n, (List.range n).foldl f.fits true = decide (f.AllInWindow n) := by
  intro n
  induction n with
  | zero => simp [File.AllInWindow]
  | succ n ih =>
    have hsucc : f.AllInWindow (n + 1) ↔ f.AllInWindow n ∧
        (f.Loads n → inExecWindow (f.ph n .vaddr) (f.ph n .memsz)) := Nat.forall_lt_succ_right
    rw [List.range_succ, List.foldl_append, ih, Bool.eq_iff_iff, decide_eq_true_iff, hsucc]
    simp only [List.foldl_cons, List.foldl_nil, File.fits, File.Loads]
    by_cases hl : f.ph n .type = ptLoad <;>
      by_cases hw : inExecWindow (f.ph n .vaddr) (f.ph n .memsz) = true <;> simp [hl, hw]

/-- The loop that looks whether all segments are in the window. -/
theorem fitsWindow_mirrors (h : HeadersIn f) :
    Mirrors Access True ((List.range f.phnum).foldlM (fitsWindow f) true)
      (some (decide (f.AllInWindow f.phnum))) Eq Q := by
  rw [← foldl_fits]
  refine (Mirrors.foldl (fun _ => True) true f.phnum fun i hi ok => ?_).congr
    ⟨fun _ _ _ => trivial, fun _ => trivial⟩
  have hin := h i hi
  unfold fitsWindow File.fits
  apply Mirrors.congr
  case h =>
    apply Mirrors.bindSome (getPh_mirrors f i .type)
    apply Mirrors.iteSome
    · exact fun _ => .pure rfl
    · intro _
      exact (getPh_mirrors f i .vaddr).bindSome ((getPh_mirrors f i .memsz).bindSome (.pure rfl))
  refine ⟨fun _ => ⟨hin.type, fun _ => trivial, fun hl => ?_⟩, fun _ => trivial⟩
  exact ⟨hin.vaddr (not_not.mp hl), hin.memsz (not_not.mp hl), trivial⟩

/-! ## Fixed images -/

/-- The accesses for a segment at its own address. -/
structure FixedSegIn (f : File) (i : Nat) : Prop where
  cleared : f.Loads i → InWindow (f.ph i .vaddr) (f.ph i .memsz).toNat
  filesz : f.Loads i → f.PhInside i .filesz
  offset : f.Copies i → f.PhInside i .offset
  source : f.Copies i → ¬ f.TooLong i → f.Inside (f.ph i .offset) (f.ph i .filesz).toNat
  target : f.Copies i → ¬ f.TooLong i → InWindow (f.ph i .vaddr) (f.ph i .filesz).toNat

theorem loadFixedSegment_mirrors (hin : HeaderIn f i) {h : List Block} {m : Machine}
    (hm : m.heap = h) : Mirrors Access (FixedSegIn f i) (loadFixedSegment f m i) (f.allow () i)
      (fun m _ => m.heap = h) (fun m => m.heap = h) := by
  unfold loadFixedSegment File.allow
  apply Mirrors.congr
  case h =>
    apply Mirrors.bindSome (getPh_mirrors f i .type)
    apply Mirrors.ite
    · exact fun _ => .pure hm
    · intro _
      apply Mirrors.bindSome (getPh_mirrors f i .vaddr)
      apply Mirrors.bindSome (getPh_mirrors f i .memsz)
      apply Mirrors.bindSome (.check (by decide) fun _ => rfl)
      apply Mirrors.bindSome (getPh_mirrors f i .filesz)
      apply Mirrors.ite
      · exact fun _ => .pure hm
      · intro _
        apply Mirrors.bindSome (getPh_mirrors f i .offset)
        apply Mirrors.ite
        · exact fun _ => .reject hm
        · exact fun _ => .check₂ (by decide) (by decide) fun _ _ => hm
  -- the accesses of the branches taken are those that `FixedSegIn` asks for
  constructor
  · intro h
    refine ⟨hin.type, fun _ => trivial, fun hl => ?_⟩
    have hl := not_not.mp hl
    refine ⟨hin.vaddr hl, hin.memsz hl, h.cleared hl, h.filesz hl, fun _ => trivial, fun hz => ?_⟩
    exact ⟨h.offset ⟨hl, hz⟩, fun _ => trivial, fun hs =>
      ⟨h.source ⟨hl, hz⟩ fun ht => hs ht.2, h.target ⟨hl, hz⟩ fun ht => hs ht.2⟩⟩
  · rintro ⟨-, -, h⟩
    have h := fun hl => h (not_not.mpr hl)
    exact ⟨fun hl => (h hl).2.2.1, fun hl => (h hl).2.2.2.1, fun hc => ((h hc.1).2.2.2.2.2 hc.2).1,
      fun hc ht => (((h hc.1).2.2.2.2.2 hc.2).2.2 fun hs => ht ⟨hc, hs⟩).1,
      fun hc ht => (((h hc.1).2.2.2.2.2 hc.2).2.2 fun hs => ht ⟨hc, hs⟩).2⟩

/-- The accesses of the branch for fixed files, up to the segment that is refused. -/
def FixedIn (f : File) : Prop := ∀ k < f.phnum, f.Reaches k → FixedSegIn f k

theorem loadFixed_mirrors (hin : HeadersIn f) (hacc : f.Accepted) {h : List Block} {m : Machine}
    (hm : m.heap = h) : Mirrors Access (FixedIn f) (loadFixed f f.scan m)
      ((List.range f.phnum).foldlM f.allow () >>= fun _ => some f.fixedImage)
      (fun v _ => v.1 = f.fixedImage ∧ v.2.heap = h) (fun m => m.heap = h) := by
  unfold loadFixed
  have hloop := Mirrors.foldlM (R := fun (m : Machine) (_ : Unit) => m.heap = h)
    (Q := fun (m : Machine) => m.heap = h) (b := ())
    (fun _ i => FixedSegIn f i) hm f.phnum fun i hi m u hm => loadFixedSegment_mirrors (hin i hi) hm
  have hrest : ∀ (m' : Machine) (u : Unit), m'.heap = h → Mirrors Access True
      (f.get 24 8 >>= fun entry =>
        (.ok (⟨f.scan.minV, f.scan.maxV - f.scan.minV, entry, false⟩, m') : Load (ElfImage × Machine)))
      (some f.fixedImage) (fun v _ => v.1 = f.fixedImage ∧ v.2.heap = h) (fun m => m.heap = h) := by
    intro m' _ hm'
    rw [get_ok (inside_header hacc.1 (by decide))]
    exact .pure ⟨rfl, hm'⟩
  refine (hloop.bind hrest).congr ?_
  constructor
  · intro hk
    refine ⟨fun k hlt u hu => hk k hlt ?_, fun _ _ => trivial⟩
    exact (isSome_foldlM File.isSome_allow () k).mp (by rw [hu]; rfl)
  · rintro ⟨hk, -⟩ k hlt hr
    obtain ⟨u, hu⟩ := Option.isSome_iff_exists.mp ((isSome_foldlM File.isSome_allow () k).mpr hr)
    exact hk k hlt u hu

/-! ## Allocated images -/

/-- The memory at `img` holds the image `im`, and the blocks are those of `h`. -/
structure Shows (img : VP) (span : BitVec 64) (h : List Block) (m : Machine) (im : Img) : Prop where
  bytes : ∀ o < span.toNat, m.mem (img + BitVec.ofNat 64 o) = im o
  heap : m.heap = h

variable {span off dst v : BitVec 64} {h h₀ : List Block} {im : Img} {w n : Nat} {src : Nat → UInt8}

theorem Shows.blit (hs : Shows img span h m im) (hn : InSpan span dst n) :
    Shows img span h (m.blit (img + dst) n src) (im.blit dst.toNat n src) := by
  refine ⟨fun o ho => ?_, hs.heap⟩
  unfold InSpan at hn
  have hspan := span.isLt
  have hsub : img + BitVec.ofNat 64 o - (img + dst) = BitVec.ofNat 64 o - dst := by bv_omega
  have hoff : (BitVec.ofNat 64 o - dst).toNat =
      if dst.toNat ≤ o then o - dst.toNat else 2 ^ 64 + o - dst.toNat := by
    rw [BitVec.toNat_sub, BitVec.toNat_ofNat, Nat.mod_eq_of_lt (a := o) (by omega)]
    split <;> omega
  show (if _ then _ else _) = if _ then _ else _
  rw [hsub, hoff]
  by_cases hin : dst.toNat ≤ o ∧ o < dst.toNat + n
  · rw [if_pos hin.1, if_pos (by omega), if_pos hin]
  · rw [if_neg hin, if_neg (by split <;> omega), hs.bytes o ho]

theorem Shows.num (hs : Shows img span h m im) (hin : InSpan span off w) :
    imgNum img off w m = im.num off w := by
  unfold imgNum Img.num InSpan at *
  rw [readLE_congr (g := im) (q := off.toNat) fun k hk => hs.bytes _ (by omega)]

theorem readImg_mirrors (hs : Shows img span h m im) (off : BitVec 64) (w : Nat) :
    Mirrors Access (InSpan span off w) (readImg img span off w m) (some (im.num off w)) Eq Q :=
  .check (by decide) hs.num

theorem writeImg_mirrors (hs : Shows img span h m im) (off v : BitVec 64) :
    Mirrors Access (InSpan span off 8) (writeImg img span off v m) (some (im.put off v))
      (Shows img span h) Q := .check (by decide) hs.blit

theorem copyImg_mirrors (hs : Shows img span h m im) (dst src n : BitVec 64) :
    Mirrors Access (f.Inside src n.toNat ∧ InSpan span dst n.toNat) (copyImg f img span dst src n m)
      (some (im.blit dst.toNat n.toNat fun k => f.byte (src.toNat + k))) (Shows img span h) Q :=
  .check₂ (by decide) (by decide) fun _ hd => hs.blit hd

/-- The image is the last block that was allocated. -/
theorem free_top {k : Nat} (hi : img ≠ 0) (hm : m.heap = ⟨img, k⟩ :: h₀) :
    m.free img = .ok { m with heap := h₀ } := by
  have hfree : freeBlock img m.heap = some h₀ := by
    rw [freeBlock, if_neg hi, hm]
    simp
  rw [Machine.free, hfree]

/-- The accesses for a segment in the image. -/
structure SegmentIn (f : File) (i : Nat) : Prop where
  filesz : f.Loads i → f.PhInside i .filesz
  offset : f.Copies i → f.PhInside i .offset
  source : f.Copies i → ¬ f.TooLong i → f.Inside (f.ph i .offset) (f.ph i .filesz).toNat
  target : f.Copies i → ¬ f.TooLong i →
    InSpan f.span (f.ph i .vaddr - f.minV) (f.ph i .filesz).toNat

theorem loadSegment_mirrors (hin : HeaderIn f i) (hi : img ≠ 0) {k : Nat}
    (hs : Shows img f.span (⟨img, k⟩ :: h₀) m im) :
    Mirrors Access (SegmentIn f i) (loadSegment f img f.minV f.span m i) (f.place im i)
      (Shows img f.span (⟨img, k⟩ :: h₀)) (fun m => m.heap = h₀) := by
  unfold loadSegment File.place
  apply Mirrors.congr
  case h =>
    apply Mirrors.bindSome (getPh_mirrors f i .type)
    apply Mirrors.ite
    · exact fun _ => .pure hs
    · intro _
      apply Mirrors.bindSome (getPh_mirrors f i .vaddr)
      apply Mirrors.bindSome (getPh_mirrors f i .filesz)
      apply Mirrors.ite
      · exact fun _ => .pure hs
      · intro _
        apply Mirrors.bindSome (getPh_mirrors f i .offset)
        apply Mirrors.ite
        · intro _
          -- the image is the block allocated last, and it is given back
          rw [free_top hi hs.heap]
          exact .reject rfl
        · exact fun _ => copyImg_mirrors hs _ _ _
  constructor
  · intro h
    refine ⟨hin.type, fun _ => trivial, fun hl => ?_⟩
    have hl := not_not.mp hl
    refine ⟨hin.vaddr hl, h.filesz hl, fun _ => trivial, fun hz => ?_⟩
    exact ⟨h.offset ⟨hl, hz⟩, fun _ => trivial, fun hs =>
      ⟨h.source ⟨hl, hz⟩ fun ht => hs ht.2, h.target ⟨hl, hz⟩ fun ht => hs ht.2⟩⟩
  · rintro ⟨-, -, h⟩
    have h := fun hl => h (not_not.mpr hl)
    exact ⟨fun hl => (h hl).2.1, fun hc => ((h hc.1).2.2.2 hc.2).1,
      fun hc ht => (((h hc.1).2.2.2 hc.2).2.2 fun hs => ht ⟨hc, hs⟩).1,
      fun hc ht => (((h hc.1).2.2.2 hc.2).2.2 fun hs => ht ⟨hc, hs⟩).2⟩

/-! ## The dynamic section -/

/-- Entry `k` of the dynamic section at `dyn`. -/
def dynEntry (dyn : BitVec 64) (k : Nat) : BitVec 64 := dyn + BitVec.ofNat 64 (16 * k)

/-- The entries from `dyn` on are in the image, as far as they are read: up to `DT_NULL`. -/
def DynIn (im : Img) (span dyn : BitVec 64) : Prop :=
  ∀ k, (∀ j < k, im.num (dynEntry dyn j) 8 ≠ dtNull) → InSpan span (dynEntry dyn k) 8 ∧
    (usedTag (im.num (dynEntry dyn k) 8) → InSpan span (dynEntry dyn k + 8) 8)

theorem dynEntry_zero (dyn : BitVec 64) : dynEntry dyn 0 = dyn := by
  simp [dynEntry]

theorem dynEntry_succ (dyn : BitVec 64) (k : Nat) : dynEntry dyn (k + 1) = dynEntry (dyn + 16) k := by
  unfold dynEntry
  rw [Nat.mul_add, BitVec.ofNat_add, BitVec.add_comm (BitVec.ofNat 64 (16 * k)), ← BitVec.add_assoc]
  rfl

theorem not_usedTag_null : ¬ usedTag dtNull := by decide

theorem dynIn_iff {dyn : BitVec 64} : DynIn im span dyn ↔ InSpan span dyn 8 ∧
    (im.num dyn 8 ≠ dtNull →
      (usedTag (im.num dyn 8) → InSpan span (dyn + 8) 8) ∧ DynIn im span (dyn + 16)) := by
  constructor
  · intro h
    have h0 := h 0 (by omega)
    rw [dynEntry_zero] at h0
    refine ⟨h0.1, fun hn => ⟨h0.2, fun k hk => ?_⟩⟩
    have hsucc := h (k + 1) fun j hj => ?_
    · rwa [dynEntry_succ] at hsucc
    · cases j with
      | zero => rwa [dynEntry_zero]
      | succ j =>
        rw [dynEntry_succ]
        exact hk j (by omega)
  · rintro ⟨hin, hrest⟩ k hk
    cases k with
    | zero =>
      rw [dynEntry_zero]
      refine ⟨hin, fun hu => (hrest ?_).1 hu⟩
      intro hn
      rw [hn] at hu
      exact not_usedTag_null hu
    | succ k =>
      have h0 := hk 0 (by omega)
      rw [dynEntry_zero] at h0
      have hnext := (hrest h0).2 k fun j hj => ?_
      · rwa [dynEntry_succ]
      · rw [← dynEntry_succ]
        exact hk (j + 1) (by omega)

/-- **The loop ends, at `DT_NULL` or with a read outside the image.** -/
theorem dynLoop_mirrors (hs : Shows img span h m im) (hbig : span.toNat + 16 ≤ 2 ^ 64) :
    ∀ (fuel : Nat) (dyn : BitVec 64) (d : Dyn), span.toNat < dyn.toNat + 16 * fuel →
      Mirrors Access (DynIn im span dyn) (dynLoop img span m fuel dyn d) (some (dynScan im fuel dyn d))
        Eq Q := by
  intro fuel
  induction fuel with
  | zero =>
    intro dyn d hf
    refine ⟨fun hd => ?_, fun _ => ⟨.diverge, by decide, rfl⟩⟩
    have hin := (dynIn_iff.mp hd).1
    unfold InSpan at hin
    omega
  | succ fuel ih =>
    intro dyn d hf
    by_cases hin : InSpan span dyn 8
    -- the address does not wrap, so the fuel goes down with the bytes that are left
    · have hnext : (dyn + 16).toNat = dyn.toNat + 16 := by
        unfold InSpan at hin
        have h16 : (16 : BitVec 64).toNat = 16 := rfl
        rw [BitVec.toNat_add, h16, Nat.mod_eq_of_lt (by omega)]
      unfold dynLoop dynScan
      apply Mirrors.congr
      case h =>
        apply Mirrors.bindSome (readImg_mirrors hs dyn 8)
        apply Mirrors.iteSome
        · exact fun _ => .pure rfl
        · intro _
          apply Mirrors.bindSome
          · apply Mirrors.iteSome
            · intro _
              exact (readImg_mirrors hs (dyn + 8) 8).bindSome (.pure rfl)
            · exact fun _ => .pure rfl
          · exact ih (dyn + 16) _ (by omega)
      rw [dynIn_iff]
      constructor
      · rintro ⟨_, hrest⟩
        exact ⟨hin, fun _ => trivial, fun hn => ⟨⟨fun hu => ⟨(hrest hn).1 hu, trivial⟩,
          fun _ => trivial⟩, (hrest hn).2⟩⟩
      · rintro ⟨_, -, hrest⟩
        exact ⟨hin, fun hn => ⟨fun hu => ((hrest hn).1.1 hu).1, (hrest hn).2⟩⟩
    · refine ⟨fun hd => (hin (dynIn_iff.mp hd).1).elim, fun _ => ⟨.read, by decide, ?_⟩⟩
      unfold dynLoop readImg
      rw [if_neg hin]
      rfl

/-! ## Relocations -/

/-- The accesses for `rela[i]`. -/
structure RelocIn (rs : Relocs) (im : Img) (i : Nat) : Prop where
  info : InSpan rs.span (rs.entry i + 8) 8
  offset : InSpan rs.span (rs.entry i) 8
  addend : rs.Stores im i → InSpan rs.span (rs.entry i + 16) 8
  target : rs.Stores im i → InSpan rs.span (rs.offset im i - rs.minV) 8

/-- The symbol table does not go beyond the image. -/
def SymtabIn (rs : Relocs) : Prop :=
  ∀ sym, rs.symtab = some sym → sym.toNat + 24 * rs.nsym.toNat ≤ rs.span.toNat

theorem symtabIn_relocsOf (minV span : BitVec 64) (d : Dyn) : SymtabIn (relocsOf minV span d) := by
  intro sym hsym
  unfold relocsOf symtabOf at *
  dsimp only at hsym ⊢
  split at hsym
  · next h =>
    rw [if_pos h]
    obtain rfl := Option.some.inj hsym
    have hlt := BitVec.lt_def.mp h.2.2.2
    have hdiv : ((span - (d.symtabVa - minV)) / 24).toNat =
        (span.toNat - (d.symtabVa - minV).toNat) / 24 := by
      rw [BitVec.toNat_udiv, BitVec.toNat_sub_of_le (BitVec.le_of_lt h.2.2.2)]
      rfl
    dsimp only
    split
    · next hgt =>
      rw [gt_iff_lt, BitVec.lt_def, hdiv] at hgt
      have h256 : (256 : BitVec 64).toNat = 256 := rfl
      omega
    · rw [hdiv]
      omega
  · cases hsym

/-- Symbols the number of which has been checked are in the image. -/
theorem SymtabIn.symbol {rs : Relocs} (hst : SymtabIn rs) {sym si : BitVec 64}
    (hs : rs.symtab = some sym) (hi : ¬ si ≥ rs.nsym) : InSpan rs.span (sym + 24 * si + 8) 8 := by
  have h := hst sym hs
  have hlt : si.toNat < rs.nsym.toNat := by
    rw [ge_iff_le, BitVec.le_def] at hi
    omega
  have hspan := rs.span.isLt
  have h24 : (24 : BitVec 64).toNat = 24 := rfl
  have h8 : (8 : BitVec 64).toNat = 8 := rfl
  unfold InSpan
  rw [BitVec.toNat_add, BitVec.toNat_add, BitVec.toNat_mul, h24, h8,
    Nat.mod_eq_of_lt (a := 24 * si.toNat) (by omega),
    Nat.mod_eq_of_lt (a := sym.toNat + 24 * si.toNat) (by omega), Nat.mod_eq_of_lt (by omega)]
  omega

/-- A word that is stored: the addend is read, and then the word is written. -/
theorem store_mirrors {rs : Relocs} {slide : BitVec 64} (hs : Shows img rs.span h m im)
    (hstores : rs.Stores im i) {s : BitVec 64} (hv : rs.value im i slide = some (s + rs.addend im i)) :
    Mirrors Access (rs.Stores im i → InSpan rs.span (rs.entry i + 16) 8 ∧
        InSpan rs.span (rs.offset im i - rs.minV) 8)
      (readImg img rs.span (rs.entry i + 16) 8 m >>= fun addend =>
        writeImg img rs.span (rs.offset im i - rs.minV) (s + addend) m)
      (rs.step slide im i) (Shows img rs.span h) Q := by
  unfold Relocs.step
  rw [hv]
  exact ((readImg_mirrors hs _ 8).bindSome (writeImg_mirrors hs _ _)).congr
    ⟨fun hk => hk hstores, fun hk _ => hk⟩

/-- A relocation that is refused. -/
theorem refuse_mirrors {rs : Relocs} {slide : BitVec 64} (hm : m.heap = h) {P : Prop}
    (hstores : ¬ rs.Stores im i) (hv : rs.value im i slide = none) :
    Mirrors Access (rs.Stores im i → P) (.error (.reject m) : Load Machine) (rs.step slide im i)
      (Shows img rs.span h) (fun m => m.heap = h) := by
  unfold Relocs.step
  rw [hv]
  exact .rejectOf (fun hst => absurd hst hstores) hm

theorem applyReloc_mirrors {rs : Relocs} (hst : SymtabIn rs) (slide : BitVec 64)
    (hs : Shows img rs.span h m im) (i : Nat) :
    Mirrors Access (RelocIn rs im i)
      (applyReloc img rs.minV rs.span slide rs.rela rs.symtab rs.nsym m i) (rs.step slide im i)
      (Shows img rs.span h) (fun m => m.heap = h) := by
  -- `x` is the branch for a relocation that names a symbol
  have hbody : ∀ x : Load Machine, (rs.symtab = none → x = .error (.reject m)) →
      (∀ sym, rs.symtab = some sym → x =
        if elfRSym (rs.info im i) ≥ rs.nsym then .error (.reject m) else do
        let s ← readImg img rs.span (sym + 24 * elfRSym (rs.info im i) + 8) 8 m
        let addend ← readImg img rs.span (rs.entry i + 16) 8 m
        writeImg img rs.span (rs.offset im i - rs.minV) (slide + s + addend) m) →
      Mirrors Access (rs.Stores im i → InSpan rs.span (rs.entry i + 16) 8 ∧
        InSpan rs.span (rs.offset im i - rs.minV) 8)
      (if rs.OutOfSpan im i then .error (.reject m)
      else if elfRType (rs.info im i) = rAarch64Relative then do
        let addend ← readImg img rs.span (rs.entry i + 16) 8 m
        writeImg img rs.span (rs.offset im i - rs.minV) (slide + addend) m
      else if elfRType (rs.info im i) = rAarch64Abs64 then x
      else .error (.reject m)) (rs.step slide im i) (Shows img rs.span h) (fun m => m.heap = h) := by
    intro x hnone hsome
    by_cases hout : rs.OutOfSpan im i
    · rw [if_pos hout]
      exact refuse_mirrors hs.heap (fun hst => hst.1 hout) (if_pos hout)
    rw [if_neg hout]
    by_cases hrel : elfRType (rs.info im i) = rAarch64Relative
    · rw [if_pos hrel]
      refine store_mirrors hs ⟨hout, Or.inl hrel⟩ ?_
      rw [Relocs.value, if_neg hout, if_pos hrel]
    rw [if_neg hrel]
    by_cases habs : elfRType (rs.info im i) = rAarch64Abs64
    · rw [if_pos habs]
      have hval : rs.value im i slide = (rs.symbol im i).map fun s => slide + s + rs.addend im i := by
        rw [Relocs.value, if_neg hout, if_neg hrel, if_pos habs]
      have hno : rs.symbol im i = none → ¬ rs.Stores im i := by
        rintro hn ⟨-, hr | ⟨-, hsome⟩⟩
        · exact hrel hr
        · simp [hn] at hsome
      cases hsym : rs.symtab with
      | none =>
        have hn : rs.symbol im i = none := by rw [Relocs.symbol, hsym]; rfl
        rw [hnone hsym]
        exact refuse_mirrors hs.heap (hno hn) (by rw [hval, hn]; rfl)
      | some sym =>
        rw [hsome sym hsym]
        by_cases hsi : elfRSym (rs.info im i) ≥ rs.nsym
        · have hn : rs.symbol im i = none := by
            rw [Relocs.symbol, hsym]
            exact if_pos hsi
          rw [if_pos hsi]
          exact refuse_mirrors hs.heap (hno hn) (by rw [hval, hn]; rfl)
        · have hsome : rs.symbol im i =
              some (im.num (sym + 24 * elfRSym (rs.info im i) + 8) 8) := by
            rw [Relocs.symbol, hsym]
            exact if_neg hsi
          rw [if_neg hsi]
          refine ((readImg_mirrors hs _ 8).bindSome (store_mirrors hs
            ⟨hout, Or.inr ⟨habs, by rw [hsome]; rfl⟩⟩ (by rw [hval, hsome]; rfl))).congr ?_
          exact ⟨fun hk => ⟨hst.symbol hsym hsi, hk⟩, fun hk => hk.2⟩
    · rw [if_neg habs]
      refine refuse_mirrors hs.heap ?_ ?_
      · rintro ⟨-, hr | ⟨ha, -⟩⟩
        · exact hrel hr
        · exact habs ha
      · rw [Relocs.value, if_neg hout, if_neg hrel, if_neg habs]
  refine ((readImg_mirrors hs (rs.entry i + 8) 8).bindSome
    ((readImg_mirrors hs (rs.entry i) 8).bindSome (hbody _ (fun hn => by rw [hn])
      fun sym hsym => by rw [hsym]; rfl))).congr ?_
  exact ⟨fun hk => ⟨hk.info, hk.offset, fun hst => ⟨hk.addend hst, hk.target hst⟩⟩,
    fun hk => ⟨hk.1, hk.2.1, fun hst => (hk.2.2 hst).1, fun hst => (hk.2.2 hst).2⟩⟩

/-- The accesses of a loop over relocations, up to the one that is refused. -/
def RelocsIn (rs : Relocs) (slide : BitVec 64) (im : Img) : Prop :=
  ∀ k < rs.n.toNat, ∀ im', rs.applied slide im k = some im' → RelocIn rs im' k

theorem applyRelocs_mirrors (rs : Relocs) (hst : SymtabIn rs) (slide : BitVec 64)
    (hs : Shows img rs.span h m im) : Mirrors Access (RelocsIn rs slide im)
      (applyRelocs img rs.minV rs.span slide rs.rela rs.n rs.symtab rs.nsym m)
      (rs.applied slide im rs.n.toNat) (Shows img rs.span h) (fun m => m.heap = h) :=
  .foldlM (fun im i => RelocIn rs im i) hs rs.n.toNat
    fun i _ _ _ hs' => applyReloc_mirrors hst slide hs' i

/-- When the loop gives up the image is freed. -/
theorem freeing_mirrors {ok : Prop} {x : Load Machine} {o : Option Img} (hi : img ≠ 0) {k : Nat}
    (hx : Mirrors Access ok x o (Shows img span (⟨img, k⟩ :: h₀)) fun m => m.heap = ⟨img, k⟩ :: h₀) :
    Mirrors Access ok (match x with
      | .error (.reject m) => do
        let m ← m.free img
        .error (.reject m)
      | x => x) o (Shows img span (⟨img, k⟩ :: h₀)) fun m => m.heap = h₀ := by
  constructor
  · intro hk
    have hp := hx.passes hk
    cases o with
    | none =>
      obtain ⟨m', rfl, hm'⟩ := hp
      dsimp only
      rw [free_top hi hm']
      exact ⟨_, rfl, rfl⟩
    | some im' =>
      obtain ⟨m', rfl, hm'⟩ := hp
      exact ⟨m', rfl, hm'⟩
  · intro hk
    obtain ⟨e, he, rfl⟩ := hx.fails hk
    exact ⟨e, he, rfl⟩

theorem relocate_mirrors (f : File) (slide : BitVec 64) (hi : img ≠ 0) {k : Nat}
    (hs : Shows img f.span (⟨img, k⟩ :: h₀) m im) (hbig : f.span.toNat + 16 ≤ 2 ^ 64) :
    Mirrors Access (DynIn im f.span (f.scan.dynVaddr - f.minV) ∧ RelocsIn (f.relocs im) slide im)
      (relocate img f.minV f.span slide f.scan.dynVaddr m)
      ((f.relocs im).applied slide im (f.relocs im).n.toNat) (Shows img f.span (⟨img, k⟩ :: h₀))
      (fun m => m.heap = h₀) := by
  unfold relocate
  refine (dynLoop_mirrors hs hbig _ _ _ (by omega)).bindSome ?_
  have hrs := applyRelocs_mirrors (f.relocs im) (symtabIn_relocsOf _ _ _) slide hs
  show Mirrors Access _ (if (f.dyn im).rela ≠ 0 ∧ (f.dyn im).relasz ≠ 0 ∧ (f.dyn im).relaent ≠ 0 then _
    else _) _ _ _
  split
  · next hc =>
    have hn : (f.relocs im).n = (f.dyn im).relasz / (f.dyn im).relaent := if_pos hc
    unfold RelocsIn at hrs ⊢
    rw [hn] at hrs ⊢
    exact freeing_mirrors hi hrs
  · next hc =>
    have hn : (f.relocs im).n = 0 := if_neg hc
    unfold RelocsIn
    rw [hn]
    exact .pureOf (fun k hk => absurd hk (Nat.not_lt_zero k)) hs

/-- `memalign(4096, n)` has returned `img`. -/
structure Placed (img : VP) (n : Nat) : Prop where
  aligned : img.toNat % 4096 = 0
  ne : img ≠ 0
  fits : img.toNat + n ≤ 2 ^ 64

instance (img : VP) (n : Nat) : Decidable (Placed img n) :=
  decidable_of_iff (img.toNat % 4096 = 0 ∧ img ≠ 0 ∧ img.toNat + n ≤ 2 ^ 64)
    ⟨fun h => ⟨h.1, h.2.1, h.2.2⟩, fun h => ⟨h.aligned, h.ne, h.fits⟩⟩

theorem Placed.room (hp : Placed img f.blockSize) : f.span.toNat + 16 ≤ 2 ^ 64 := by
  have hal := hp.aligned
  have hfit := hp.fits
  have hpos : img.toNat ≠ 0 := fun h0 => hp.ne (BitVec.eq_of_toNat_eq h0)
  have hsize : f.span.toNat ≤ f.blockSize := by
    unfold File.blockSize
    split
    · exact Nat.le_refl _
    · next h0 => rw [not_not.mp h0]; exact Nat.zero_le _
  omega

/-- The accesses of the branch for allocated images. -/
structure ImageIn (f : File) (img : VP) : Prop where
  segments : ∀ k < f.phnum, f.Reaches k → SegmentIn f k
  dynamic : f.scan.haveDyn = true → ∀ im, f.laidOut f.phnum = some im →
    DynIn im f.span (f.scan.dynVaddr - f.minV)
  relocs : f.scan.haveDyn = true → ∀ im, f.laidOut f.phnum = some im →
    RelocsIn (f.relocs im) (img - f.minV) im

/-- What follows once the segments are in place. -/
theorem finish_mirrors (hi : img ≠ 0) {k : Nat} (hs : Shows img f.span (⟨img, k⟩ :: h₀) m im)
    (hbig : f.span.toNat + 16 ≤ 2 ^ 64) :
    Mirrors Access (f.scan.haveDyn = true → DynIn im f.span (f.scan.dynVaddr - f.minV) ∧
        RelocsIn (f.relocs im) (img - f.minV) im)
      (if f.scan.haveDyn then relocate img f.minV f.span (img - f.minV) f.scan.dynVaddr m
        else if f.eType = etDyn ∨ f.scan.haveDyn then do
          let m ← m.free img
          .error (.reject m)
        else .ok m)
      (f.finished (img - f.minV) im) (Shows img f.span (⟨img, k⟩ :: h₀)) (fun m => m.heap = h₀) := by
  unfold File.finished
  by_cases hd : f.scan.haveDyn = true
  · rw [if_pos hd, if_pos hd]
    exact (relocate_mirrors f _ hi hs hbig).congr ⟨fun hk => hk hd, fun hk _ => hk⟩
  · rw [if_neg hd, if_neg hd]
    by_cases ht : f.eType = etDyn
    · rw [if_pos (Or.inl ht), if_pos ht, free_top hi hs.heap]
      exact .rejectOf (fun h => absurd h hd) rfl
    · rw [if_neg (by simp [ht, hd]), if_neg ht]
      exact .pureOf (fun h => absurd h hd) hs

theorem loadRelocatable_mirrors (hin : HeadersIn f) (hacc : f.Accepted) (hm : m.heap = h₀)
    (hp : Placed img f.blockSize) :
    Mirrors Access (ImageIn f img) (loadRelocatable f f.eType f.scan (some img) m)
      (f.loaded (img - f.minV))
      (fun v im => v.1 = f.imageAt img ∧ Shows img f.span (⟨img, f.blockSize⟩ :: h₀) v.2 im)
      (fun m => m.heap = h₀) := by
  have hstart : Shows img f.span (⟨img, f.blockSize⟩ :: h₀)
      ((m.malloc img f.blockSize).blit img f.span.toNat fun _ => 0) fun _ => 0 := by
    refine ⟨fun o ho => ?_, by rw [← hm]; rfl⟩
    have hspan := f.span.isLt
    have hoff : (img + BitVec.ofNat 64 o - img).toNat = o := by
      rw [show img + BitVec.ofNat 64 o - img = BitVec.ofNat 64 o by bv_omega, BitVec.toNat_ofNat,
        Nat.mod_eq_of_lt (by omega)]
    show (if _ then _ else _) = _
    rw [hoff, if_pos ho]
  have hloop := Mirrors.foldlM (Q := fun m : Machine => m.heap = h₀) (fun _ i => SegmentIn f i)
    hstart f.phnum fun i hi _ _ hs => loadSegment_mirrors (hin i hi) hp.ne hs
  -- the header has been read before, so reading the entry succeeds
  have hentry : ∀ (m : Machine) (im : Img), Shows img f.span (⟨img, f.blockSize⟩ :: h₀) m im →
      Mirrors Access True (f.get 24 8 >>= fun entry =>
          (.ok (⟨img, f.span, entry + (img - f.minV), true⟩, m) : Load (ElfImage × Machine)))
        (some im)
        (fun v im => v.1 = f.imageAt img ∧ Shows img f.span (⟨img, f.blockSize⟩ :: h₀) v.2 im)
        (fun m => m.heap = h₀) := by
    intro m im hs
    rw [get_ok (inside_header hacc.1 (by decide))]
    exact .pure ⟨rfl, hs⟩
  have hrest := hloop.bind fun m im hs =>
    (finish_mirrors hp.ne hs hp.room).bind hentry
  have hpure : (fun im => f.finished (img - f.minV) im >>= some) = f.finished (img - f.minV) := by
    funext im
    cases f.finished (img - f.minV) im <;> rfl
  rw [hpure] at hrest
  refine (show Mirrors Access _ (loadRelocatable f f.eType f.scan (some img) m) _ _ _ from hrest).congr ?_
  constructor
  · intro hk
    refine ⟨fun k hlt im him => hk.segments k hlt ?_, fun im him => ⟨fun hd => ?_, fun _ _ => trivial⟩⟩
    · exact (File.isSome_laidOut k).mp (Option.isSome_iff_exists.mpr ⟨im, him⟩)
    · exact ⟨hk.dynamic hd im him, hk.relocs hd im him⟩
  · rintro ⟨hseg, hrest⟩
    refine ⟨fun k hlt hr => ?_, fun hd im him => ((hrest im him).1 hd).1,
      fun hd im him => ((hrest im him).1 hd).2⟩
    obtain ⟨im, him⟩ := Option.isSome_iff_exists.mp ((File.isSome_laidOut k).mpr hr)
    exact hseg k hlt im him

/-! ## Both branches -/

variable {alloc : Option VP}

theorem loadElf_reject (h : ¬ f.Accepted) : loadElf f alloc m = .error (.reject m) := by
  unfold loadElf
  rw [checkEhdr_eq, if_neg h]
  rfl

theorem loadElf_fault (h : f.Accepted) (hin : ¬ HeadersIn f) :
    ∃ e, Access e ∧ loadElf f alloc m = .error (.fault e) := by
  obtain ⟨e, hacc, he⟩ := (scanPhdrs_mirrors (Q := fun _ => True) f).fails hin
  refine ⟨e, hacc, ?_⟩
  unfold loadElf
  rw [checkEhdr_eq, if_pos h, he]
  rfl

/-- The loop over the segments finds out whether the file is fixed. -/
theorem fits_eq (hin : HeadersIn f) :
    (if (!(decide (f.eType = etDyn) || f.scan.haveDyn) && decide (f.eType = etExec)) = true
      then (List.range f.phnum).foldlM (fitsWindow f) true else .ok false : Load Bool) =
      .ok (decide f.Fixed) := by
  obtain ⟨ok, hok, rfl⟩ := (fitsWindow_mirrors (Q := fun _ => True) hin).passes trivial
  by_cases hc : f.eType = etExec ∧ f.scan.haveDyn = false
  · have hne : decide (f.eType = etDyn) = false := by
      rw [hc.1]
      decide
    have hiff : f.AllInWindow f.phnum ↔ f.Fixed := ⟨fun hw => ⟨hc.1, hc.2, hw⟩, fun hf => hf.2.2⟩
    rw [hne, hc.2, if_pos (by simpa using hc.1), hok, decide_eq_decide.mpr hiff]
  · have hno : ¬ f.Fixed := fun hf => hc ⟨hf.1, hf.2.1⟩
    rw [if_neg (by simp; tauto), decide_eq_false hno]

/-- **Which branch is taken.** -/
theorem loadElf_eq (h : f.Accepted) (hin : HeadersIn f) : loadElf f alloc m =
    if f.minV > f.scan.maxV then .error (.reject m)
    else if f.Fixed then loadFixed f f.scan m
    else loadRelocatable f f.eType f.scan alloc m := by
  obtain ⟨sc, hsc, rfl⟩ := (scanPhdrs_mirrors (Q := fun _ => True) f).passes hin
  unfold loadElf
  rw [checkEhdr_eq, if_pos h, hsc]
  show (if f.minV > f.scan.maxV then _ else _) = _
  by_cases hv : f.minV > f.scan.maxV
  · rw [if_pos hv, if_pos hv]
  · rw [if_neg hv, if_neg hv]
    rw [show f.ePhnum.toNat = f.phnum from rfl, fits_eq hin]
    show (if decide f.Fixed = true then _ else _) = _
    by_cases hf : f.Fixed <;> simp [hf]

end Ittrium.Elf
