import Ittrium.Elf.Load

/-!
# What a file means to the loader

The functions of the loader without memory and without checks: a field outside the file or the image
is then read as something. The image is a sequence of bytes, by offset.

* `File.scan` — the lowest and the highest address, and `PT_DYNAMIC`
* `File.laidOut` — the image with the segments in place
* `dynScan` — the entries of `PT_DYNAMIC` that count
* `relocStep` — the image with one more word relocated
-/

namespace Ittrium.Elf

open Infra

/-! ## Images -/

abbrev Img := Nat → UInt8

namespace Img

def blit (dst n : Nat) (src : Nat → UInt8) (im : Img) : Img := fun o =>
  if dst ≤ o ∧ o < dst + n then src (o - dst) else im o

/-- The number in the `w` bytes at `off`. -/
def num (im : Img) (off : BitVec 64) (w : Nat) : BitVec 64 := BitVec.ofNat 64 (readLE im off.toNat w)

/-- The word at `off` becomes `v`. -/
def put (off v : BitVec 64) (im : Img) : Img := im.blit off.toNat 8 (byteAt v.toNat)

end Img

/-! ## Program headers -/

def Scan.add (f : File) (sc : Scan) (i : Nat) : Scan :=
  let sc :=
    if f.ph i .type = ptDynamic then { sc with dynVaddr := f.ph i .vaddr, haveDyn := true } else sc
  if f.ph i .type ≠ ptLoad then sc else
  let sc := if f.ph i .vaddr < sc.minV then { sc with minV := f.ph i .vaddr } else sc
  if f.ph i .vaddr + f.ph i .memsz > sc.maxV then
    { sc with maxV := f.ph i .vaddr + f.ph i .memsz }
  else sc

namespace File

def phnum (f : File) : Nat := f.ePhnum.toNat

def scan (f : File) : Scan := (List.range f.phnum).foldl (Scan.add f) ⟨BitVec.allOnes 64, 0, 0, false⟩

def minV (f : File) : BitVec 64 := f.scan.minV

def span (f : File) : BitVec 64 := f.scan.maxV - f.scan.minV

/-- `ph[i]` is a segment to be loaded. -/
def Loads (f : File) (i : Nat) : Prop := f.ph i .type = ptLoad

instance (f : File) (i : Nat) : Decidable (f.Loads i) := inferInstanceAs (Decidable (_ = _))

/-- `ph[i]` is a segment with bytes in the file. -/
def Copies (f : File) (i : Nat) : Prop := f.Loads i ∧ f.ph i .filesz ≠ 0

instance (f : File) (i : Nat) : Decidable (f.Copies i) := inferInstanceAs (Decidable (_ ∧ _))

/-- The check that refuses `ph[i]`. The sum wraps. -/
def TooLong (f : File) (i : Nat) : Prop :=
  f.Copies i ∧ f.ph i .offset + f.ph i .filesz > f.size

instance (f : File) (i : Nat) : Decidable (f.TooLong i) := inferInstanceAs (Decidable (_ ∧ _))

/-- The checks of the ELF header. -/
def Accepted (f : File) : Prop :=
  ¬ f.size < 64 ∧ (f.num 0 1 = 0x7f ∧ f.num 1 1 = 0x45 ∧ f.num 2 1 = 0x4c ∧ f.num 3 1 = 0x46) ∧
  (f.num 4 1 = 2 ∧ f.num 5 1 = 1) ∧ f.eMachine = emAarch64 ∧
  (f.eType = etExec ∨ f.eType = etDyn) ∧ ¬ f.ePhoff + f.ePhnum * f.ePhentsize > f.size

instance (f : File) : Decidable f.Accepted :=
  inferInstanceAs (Decidable (_ ∧ (_ ∧ _ ∧ _ ∧ _) ∧ (_ ∧ _) ∧ _ ∧ (_ ∨ _) ∧ _))

/-- The first `n` segments are in the window, as far as `in_exec_window` can tell. -/
def AllInWindow (f : File) (n : Nat) : Prop :=
  ∀ i < n, f.Loads i → inExecWindow (f.ph i .vaddr) (f.ph i .memsz)

instance (f : File) (n : Nat) : Decidable (f.AllInWindow n) :=
  inferInstanceAs (Decidable (∀ i < n, _ → _))

/-- The file is loaded at fixed addresses. -/
def Fixed (f : File) : Prop :=
  f.eType = etExec ∧ f.scan.haveDyn = false ∧ f.AllInWindow f.phnum

instance (f : File) : Decidable f.Fixed := inferInstanceAs (Decidable (_ ∧ _ ∧ _))

/-- The file is an ITRM file. -/
def Itrm (f : File) : Prop := ¬ f.size < itrmHdrSize ∧ f.magic = itrmMagic

instance (f : File) : Decidable f.Itrm := inferInstanceAs (Decidable (_ ∧ _))

/-- The check of `ph[i]`. -/
def allow (f : File) (_ : Unit) (i : Nat) : Option Unit :=
  if f.ph i .type ≠ ptLoad then some ()
  else if f.ph i .filesz = 0 then some ()
  else if f.ph i .offset + f.ph i .filesz > f.size then none
  else some ()

/-- The image with one more segment. -/
def place (f : File) (im : Img) (i : Nat) : Option Img :=
  if f.ph i .type ≠ ptLoad then some im
  else if f.ph i .filesz = 0 then some im
  else if f.ph i .offset + f.ph i .filesz > f.size then none
  else some (im.blit (f.ph i .vaddr - f.minV).toNat (f.ph i .filesz).toNat
    fun k => f.byte ((f.ph i .offset).toNat + k))

/-- The image with the first `n` segments. -/
def laidOut (f : File) (n : Nat) : Option Img := (List.range n).foldlM f.place fun _ => 0

/-- What a fixed file is loaded as. -/
def fixedImage (f : File) : ElfImage := ⟨f.minV, f.span, f.eEntry, false⟩

theorem isSome_allow {f : File} (u : Unit) (i : Nat) : (f.allow u i).isSome ↔ ¬ f.TooLong i := by
  unfold allow TooLong Copies Loads
  split_ifs with hl hz hs <;> simp_all

theorem isSome_place {f : File} (im : Img) (i : Nat) : (f.place im i).isSome ↔ ¬ f.TooLong i := by
  unfold place TooLong Copies Loads
  split_ifs with hl hz hs <;> simp_all

/-- No segment before `k` is refused. -/
def Reaches (f : File) (k : Nat) : Prop := ∀ i < k, ¬ f.TooLong i

theorem isSome_laidOut {f : File} (k : Nat) : (f.laidOut k).isSome ↔ f.Reaches k :=
  isSome_foldlM isSome_place _ k

end File

/-! ## Dynamic section and relocations -/

/-- The entries of `PT_DYNAMIC` from `dyn` on, at most `fuel` of them. -/
def dynScan (im : Img) : Nat → BitVec 64 → Dyn → Dyn
  | 0, _, d => d
  | fuel + 1, dyn, d =>
    if im.num dyn 8 = dtNull then d
    else dynScan im fuel (dyn + 16)
      (if usedTag (im.num dyn 8) then d.set (im.num dyn 8) (im.num (dyn + 8) 8) else d)

/-- What the relocations of an image depend on besides its bytes. -/
structure Relocs where
  minV : BitVec 64
  span : BitVec 64
  rela : BitVec 64
  n : BitVec 64
  symtab : Option (BitVec 64)
  nsym : BitVec 64

namespace Relocs

variable (rs : Relocs) (im : Img) (i : Nat)

/-- Offset of `rela[i]`. -/
def entry : BitVec 64 := rs.rela + BitVec.ofNat 64 (24 * i)

def info : BitVec 64 := im.num (rs.entry i + 8) 8

def offset : BitVec 64 := im.num (rs.entry i) 8

def addend : BitVec 64 := im.num (rs.entry i + 16) 8

/-- The check of `r_offset`. The sum wraps. -/
def OutOfSpan : Prop := rs.offset im i < rs.minV ∨ (rs.offset im i - rs.minV) + 8 > rs.span

instance : Decidable (rs.OutOfSpan im i) := inferInstanceAs (Decidable (_ ∨ _))

/-- Value of the symbol `rela[i]` names, if it is one. -/
def symbol : Option (BitVec 64) :=
  rs.symtab.bind fun sym =>
    if elfRSym (rs.info im i) ≥ rs.nsym then none
    else some (im.num (sym + 24 * elfRSym (rs.info im i) + 8) 8)

/-- `rela[i]` is one that stores a word. -/
def Stores : Prop := ¬ rs.OutOfSpan im i ∧ (elfRType (rs.info im i) = rAarch64Relative ∨
  elfRType (rs.info im i) = rAarch64Abs64 ∧ (rs.symbol im i).isSome)

/-- The word `rela[i]` stores, unless it is refused. -/
def value (slide : BitVec 64) : Option (BitVec 64) :=
  if rs.OutOfSpan im i then none
  else if elfRType (rs.info im i) = rAarch64Relative then some (slide + rs.addend im i)
  else if elfRType (rs.info im i) = rAarch64Abs64 then
    (rs.symbol im i).map fun s => slide + s + rs.addend im i
  else none

/-- The image after `rela[i]`. -/
def step (slide : BitVec 64) (im : Img) (i : Nat) : Option Img :=
  (rs.value im i slide).map fun v => im.put (rs.offset im i - rs.minV) v

/-- The image after the first `k` relocations. -/
def applied (slide : BitVec 64) (im : Img) (k : Nat) : Option Img :=
  (List.range k).foldlM (rs.step slide) im

end Relocs

/-- The relocations an image asks for. -/
def relocsOf (minV span : BitVec 64) (d : Dyn) : Relocs where
  minV := minV
  span := span
  rela := d.rela - minV
  n := if d.rela ≠ 0 ∧ d.relasz ≠ 0 ∧ d.relaent ≠ 0 then d.relasz / d.relaent else 0
  symtab := (symtabOf minV span d).1
  nsym := (symtabOf minV span d).2

namespace File

/-- What the dynamic section of an image says. -/
def dyn (f : File) (im : Img) : Dyn :=
  dynScan im (f.span.toNat / 16 + 2) (f.scan.dynVaddr - f.minV) Dyn.init

def relocs (f : File) (im : Img) : Relocs := relocsOf f.minV f.span (f.dyn im)

/-- What becomes of an image with all segments in place. -/
def finished (f : File) (slide : BitVec 64) (im : Img) : Option Img :=
  if f.scan.haveDyn then (f.relocs im).applied slide im (f.relocs im).n.toNat
  else if f.eType = etDyn then none
  else some im

/-- The image when loading is done. -/
def loaded (f : File) (slide : BitVec 64) : Option Img := f.laidOut f.phnum >>= f.finished slide

/-- What the file is loaded as at `img`. -/
def imageAt (f : File) (img : VP) : ElfImage := ⟨img, f.span, f.eEntry + (img - f.minV), true⟩

/-- The block that is asked for. -/
def blockSize (f : File) : Nat := if f.span ≠ 0 then f.span.toNat else 16

end File

end Ittrium.Elf
