import Ittrium.Elf.Format
import Ittrium.Infra.Checked

/-!
# `elf_load.c`: loading

Every access goes to the file buffer, to the image or to the window of fixed images, and is checked
here: one that leaves its area is a fault. Pointers into the file and into the image are offsets,
which wrap as the pointers do. What `malloc` and `memalign` return is an argument. The file is read
as if its buffer could not change; `elfLoadIn` reads it there. Alignment is not checked: accesses to
words that are not aligned are taken to be allowed.

* `Machine` — the memory and the blocks that have been allocated
* `Load` — a function of the loader: it may return -1, in a state, and it may do something undefined
* `loadItrm`, `loadElf`, `elfLoad`
-/

namespace Ittrium.Elf

open Infra

/-! ## State and results -/

/-- What `malloc` or `memalign` has returned. -/
structure Block where
  addr : VP
  size : Nat
  deriving DecidableEq

structure Machine where
  mem : VP → UInt8
  heap : List Block

inductive LoadFault where
  /-- A read outside the file buffer and the image. -/
  | read
  /-- A write outside the image and the window. -/
  | write
  /-- A pointer is freed that is not allocated. -/
  | free
  /-- A loop never ends. -/
  | diverge
  deriving DecidableEq, Repr

/-- A function that gives up returns -1. -/
abbrev Load (α : Type) := Except (Halt LoadFault Machine) α

/-- `struct elf_image`. -/
structure ElfImage where
  base : VP
  size : BitVec 64
  entry : VP
  owned : Bool
  deriving DecidableEq

/-! ## Memory -/

/-- `free`, which ignores null. -/
def freeBlock (p : VP) (h : List Block) : Option (List Block) :=
  if p = 0 then some h
  else if h.any (·.addr = p) then some (h.eraseP (·.addr = p))
  else none

namespace Machine

/-- The `n` bytes at `dst` become those of `src`. -/
def blit (dst : VP) (n : Nat) (src : Nat → UInt8) (m : Machine) : Machine :=
  { m with mem := fun a => if (a - dst).toNat < n then src (a - dst).toNat else m.mem a }

def malloc (p : VP) (n : Nat) (m : Machine) : Machine := { m with heap := ⟨p, n⟩ :: m.heap }

def free (p : VP) (m : Machine) : Load Machine :=
  match freeBlock p m.heap with
  | some h => .ok { m with heap := h }
  | none => .error (.fault .free)

end Machine

/-- A read of the file. -/
def File.get (f : File) (off : BitVec 64) (w : Nat) : Load (BitVec 64) :=
  if f.Inside off w then .ok (f.num off w) else .error (.fault .read)

/-- A read of `ph[i]`. -/
def File.getPh (f : File) (i : Nat) (fld : PhField) : Load (BitVec 64) :=
  f.get (f.phdrAt i + fld.off) fld.width

/-- The `w` bytes at `off` are in an image of `span` bytes. -/
def InSpan (span off : BitVec 64) (w : Nat) : Prop := off.toNat + w ≤ span.toNat

instance (span off : BitVec 64) (w : Nat) : Decidable (InSpan span off w) :=
  inferInstanceAs (Decidable (_ ≤ _))

/-- The number in the `w` bytes of the image at `off`. -/
def imgNum (img : VP) (off : BitVec 64) (w : Nat) (m : Machine) : BitVec 64 :=
  BitVec.ofNat 64 (readLE (fun k => m.mem (img + BitVec.ofNat 64 k)) off.toNat w)

def readImg (img : VP) (span off : BitVec 64) (w : Nat) (m : Machine) : Load (BitVec 64) :=
  if InSpan span off w then .ok (imgNum img off w m) else .error (.fault .read)

def writeImg (img : VP) (span off : BitVec 64) (v : BitVec 64) (m : Machine) : Load Machine :=
  if InSpan span off 8 then .ok (m.blit (img + off) 8 (byteAt v.toNat))
  else .error (.fault .write)

/-- `memcpy` from the file into the image. -/
def copyImg (f : File) (img : VP) (span dst src n : BitVec 64) (m : Machine) : Load Machine :=
  if ¬ f.Inside src n.toNat then .error (.fault .read)
  else if InSpan span dst n.toNat then
    .ok (m.blit (img + dst) n.toNat fun k => f.byte (src.toNat + k))
  else .error (.fault .write)

/-- The `n` bytes at `a` are in the window. -/
def InWindow (a : VP) (n : Nat) : Prop :=
  elfLoadBase.toNat ≤ a.toNat ∧ a.toNat + n ≤ elfLoadBase.toNat + elfLoadSize.toNat

instance (a : VP) (n : Nat) : Decidable (InWindow a n) := inferInstanceAs (Decidable (_ ∧ _))

/-- `memset` with 0 in the window. -/
def clearWindow (dst : VP) (n : BitVec 64) (m : Machine) : Load Machine :=
  if InWindow dst n.toNat then .ok (m.blit dst n.toNat fun _ => 0) else .error (.fault .write)

/-- `memcpy` from the file into the window. -/
def copyWindow (f : File) (dst : VP) (src n : BitVec 64) (m : Machine) : Load Machine :=
  if ¬ f.Inside src n.toNat then .error (.fault .read)
  else if InWindow dst n.toNat then .ok (m.blit dst n.toNat fun k => f.byte (src.toNat + k))
  else .error (.fault .write)

/-! ## ITRM -/

/-- `sizeof(struct itrm_hdr)`. -/
def itrmHdrSize : BitVec 64 := 12

def loadItrm (f : File) (alloc : Option VP) (m : Machine) : Load (ElfImage × Machine) := do
  if f.size < itrmHdrSize then .error (.reject m) else do
  let magic ← f.get 0 4
  if magic ≠ itrmMagic then .error (.reject m) else do
  let payload ← f.get 8 4
  if itrmHdrSize + payload > f.size then .error (.reject m) else do
  let entryOff ← f.get 4 4
  if entryOff ≥ payload then .error (.reject m) else
  match alloc with
  | none => .error (.reject m)
  | some img => do
    let m ← copyImg f img payload 0 itrmHdrSize payload (m.malloc img payload.toNat)
    .ok (⟨img, payload, img + entryOff, true⟩, m)

/-! ## Program headers -/

/-- What the first loop of `load_elf` finds out. -/
structure Scan where
  minV : BitVec 64
  maxV : BitVec 64
  dynVaddr : BitVec 64
  haveDyn : Bool

def scanPhdr (f : File) (sc : Scan) (i : Nat) : Load Scan := do
  let type ← f.getPh i .type
  let sc ← (if type = ptDynamic then do
      let vaddr ← f.getPh i .vaddr
      .ok { sc with dynVaddr := vaddr, haveDyn := true }
    else .ok sc)
  if type ≠ ptLoad then .ok sc else do
  let vaddr ← f.getPh i .vaddr
  let sc := if vaddr < sc.minV then { sc with minV := vaddr } else sc
  let memsz ← f.getPh i .memsz
  .ok (if vaddr + memsz > sc.maxV then { sc with maxV := vaddr + memsz } else sc)

def scanPhdrs (f : File) : Load Scan :=
  (List.range f.ePhnum.toNat).foldlM (scanPhdr f) ⟨BitVec.allOnes 64, 0, 0, false⟩

/-! ## Fixed images -/

def inExecWindow (vaddr memsz : BitVec 64) : Bool :=
  !(vaddr < elfLoadBase) && !(vaddr + memsz > elfLoadBase + elfLoadSize)

def fitsWindow (f : File) (ok : Bool) (i : Nat) : Load Bool := do
  let type ← f.getPh i .type
  if type ≠ ptLoad then .ok ok else do
  let vaddr ← f.getPh i .vaddr
  let memsz ← f.getPh i .memsz
  .ok (if !inExecWindow vaddr memsz then false else ok)

def loadFixedSegment (f : File) (m : Machine) (i : Nat) : Load Machine := do
  let type ← f.getPh i .type
  if type ≠ ptLoad then .ok m else do
  let dst ← f.getPh i .vaddr
  let memsz ← f.getPh i .memsz
  let m ← clearWindow dst memsz m
  let filesz ← f.getPh i .filesz
  if filesz = 0 then .ok m else do
  let offset ← f.getPh i .offset
  if offset + filesz > f.size then .error (.reject m) else
  copyWindow f dst offset filesz m

/-- The branch for an `ET_EXEC` in the window. -/
def loadFixed (f : File) (sc : Scan) (m : Machine) : Load (ElfImage × Machine) := do
  let m ← (List.range f.ePhnum.toNat).foldlM (loadFixedSegment f) m
  let entry ← f.get 24 8
  .ok (⟨sc.minV, sc.maxV - sc.minV, entry, false⟩, m)

/-! ## Relocatable images -/

def loadSegment (f : File) (img : VP) (minV span : BitVec 64) (m : Machine) (i : Nat) :
    Load Machine := do
  let type ← f.getPh i .type
  if type ≠ ptLoad then .ok m else do
  let vaddr ← f.getPh i .vaddr
  let filesz ← f.getPh i .filesz
  if filesz = 0 then .ok m else do
  let offset ← f.getPh i .offset
  if offset + filesz > f.size then do
    let m ← m.free img
    .error (.reject m)
  else copyImg f img span (vaddr - minV) offset filesz m

/-- What the loop over `PT_DYNAMIC` collects. -/
structure Dyn where
  rela : BitVec 64
  relasz : BitVec 64
  relaent : BitVec 64
  symtabVa : BitVec 64
  syment : BitVec 64

def Dyn.init : Dyn := ⟨0, 0, 24, 0, 24⟩

/-- `d_tag` is one whose value is used. -/
def usedTag (tag : BitVec 64) : Prop :=
  tag = dtRela ∨ tag = dtRelasz ∨ tag = dtRelaent ∨ tag = dtSymtab ∨ tag = dtSyment

instance (tag : BitVec 64) : Decidable (usedTag tag) :=
  inferInstanceAs (Decidable (_ ∨ _ ∨ _ ∨ _ ∨ _))

def Dyn.set (tag val : BitVec 64) (d : Dyn) : Dyn :=
  if tag = dtRela then { d with rela := val }
  else if tag = dtRelasz then { d with relasz := val }
  else if tag = dtRelaent then { d with relaent := val }
  else if tag = dtSymtab then { d with symtabVa := val }
  else if tag = dtSyment then { d with syment := val }
  else d

/-- The loop, from the entry at `dyn` on. The fuel is more than the entries an image has room for. -/
def dynLoop (img : VP) (span : BitVec 64) (m : Machine) : Nat → BitVec 64 → Dyn → Load Dyn
  | 0, _, _ => .error (.fault .diverge)
  | fuel + 1, dyn, d => do
    let tag ← readImg img span dyn 8 m
    if tag = dtNull then .ok d else do
    let d ← (if usedTag tag then do
        let val ← readImg img span (dyn + 8) 8 m
        .ok (d.set tag val)
      else .ok d)
    dynLoop img span m fuel (dyn + 16) d

/-- `ELF_R_TYPE` and `ELF_R_SYM`. -/
def elfRType (info : BitVec 64) : BitVec 64 := info &&& 0xffffffff
def elfRSym (info : BitVec 64) : BitVec 64 := info >>> 32

/-- One round of `apply_relocs`: `rela` and `symtab` are offsets in the image. -/
def applyReloc (img : VP) (minV span slide rela : BitVec 64) (symtab : Option (BitVec 64))
    (nsym : BitVec 64) (m : Machine) (i : Nat) : Load Machine := do
  let entry := rela + BitVec.ofNat 64 (24 * i)
  let info ← readImg img span (entry + 8) 8 m
  let off ← readImg img span entry 8 m
  if off < minV ∨ (off - minV) + 8 > span then .error (.reject m) else
  let loc := off - minV
  if elfRType info = rAarch64Relative then do
    let addend ← readImg img span (entry + 16) 8 m
    writeImg img span loc (slide + addend) m
  else if elfRType info = rAarch64Abs64 then
    match symtab with
    | none => .error (.reject m)
    | some sym =>
      if elfRSym info ≥ nsym then .error (.reject m) else do
      let s ← readImg img span (sym + 24 * elfRSym info + 8) 8 m
      let addend ← readImg img span (entry + 16) 8 m
      writeImg img span loc (slide + s + addend) m
  else .error (.reject m)

def applyRelocs (img : VP) (minV span slide rela : BitVec 64) (n : BitVec 64)
    (symtab : Option (BitVec 64)) (nsym : BitVec 64) (m : Machine) : Load Machine :=
  (List.range n.toNat).foldlM (applyReloc img minV span slide rela symtab nsym) m

/-- The symbol table, where it lies in the image, and the number of symbols it may have. -/
def symtabOf (minV span : BitVec 64) (d : Dyn) : Option (BitVec 64) × BitVec 64 :=
  if d.symtabVa ≠ 0 ∧ d.syment = 24 ∧ d.symtabVa ≥ minV ∧ d.symtabVa - minV < span then
    let nsym := (span - (d.symtabVa - minV)) / 24
    (some (d.symtabVa - minV), if nsym > 256 then 256 else nsym)
  else (none, 0)

/-- What is done when `have_dyn`. -/
def relocate (img : VP) (minV span slide dynVaddr : BitVec 64) (m : Machine) : Load Machine := do
  let d ← dynLoop img span m (span.toNat / 16 + 2) (dynVaddr - minV) Dyn.init
  let (symtab, nsym) := symtabOf minV span d
  if d.rela ≠ 0 ∧ d.relasz ≠ 0 ∧ d.relaent ≠ 0 then
    match applyRelocs img minV span slide (d.rela - minV) (d.relasz / d.relaent) symtab nsym m with
    | .error (.reject m) => do
      let m ← m.free img
      .error (.reject m)
    | x => x
  else .ok m

/-- The branch for an image that is allocated. -/
def loadRelocatable (f : File) (type : BitVec 64) (sc : Scan) (alloc : Option VP) (m : Machine) :
    Load (ElfImage × Machine) :=
  let span := sc.maxV - sc.minV
  match alloc with
  | none => .error (.reject m)
  | some img => do
    let m := m.malloc img (if span ≠ 0 then span.toNat else 16)
    let m := m.blit img span.toNat fun _ => 0
    let slide := img - sc.minV
    let m ← (List.range f.ePhnum.toNat).foldlM (loadSegment f img sc.minV span) m
    let m ← (if sc.haveDyn then relocate img sc.minV span slide sc.dynVaddr m
      else if type = etDyn ∨ sc.haveDyn then do
        let m ← m.free img
        .error (.reject m)
      else .ok m)
    let entry ← f.get 24 8
    .ok (⟨img, span, entry + slide, true⟩, m)

/-! ## All files -/

/-- The checks of `load_elf` on the ELF header: what it returns is `e_type`. -/
def checkEhdr (f : File) (m : Machine) : Load (BitVec 64) := do
  if f.size < 64 then .error (.reject m) else do
  let i0 ← f.get 0 1
  let i1 ← f.get 1 1
  let i2 ← f.get 2 1
  let i3 ← f.get 3 1
  if i0 ≠ 0x7f ∨ i1 ≠ 0x45 ∨ i2 ≠ 0x4c ∨ i3 ≠ 0x46 then .error (.reject m) else do
  let i4 ← f.get 4 1
  let i5 ← f.get 5 1
  if i4 ≠ 2 ∨ i5 ≠ 1 then .error (.reject m) else do
  let machine ← f.get 18 2
  if machine ≠ emAarch64 then .error (.reject m) else do
  let type ← f.get 16 2
  if type ≠ etExec ∧ type ≠ etDyn then .error (.reject m) else do
  let phoff ← f.get 32 8
  let phnum ← f.get 56 2
  let phentsize ← f.get 54 2
  if phoff + phnum * phentsize > f.size then .error (.reject m) else
  .ok type

def loadElf (f : File) (alloc : Option VP) (m : Machine) : Load (ElfImage × Machine) := do
  let type ← checkEhdr f m
  let sc ← scanPhdrs f
  if sc.minV > sc.maxV then .error (.reject m) else do
  let wantReloc := decide (type = etDyn) || sc.haveDyn
  let ok ← (if !wantReloc && type = etExec then
      (List.range f.ePhnum.toNat).foldlM (fitsWindow f) true
    else .ok false)
  if ok then loadFixed f sc m else loadRelocatable f type sc alloc m

/-- The file is an ITRM file. -/
def isItrm (f : File) : Load Bool :=
  if f.size < itrmHdrSize then .ok false else do
  let magic ← f.get 0 4
  .ok (magic = itrmMagic)

/-- What `load_file` comes to. -/
inductive LoadFile where
  /-- No regular file can be opened under the path. -/
  | absent
  /-- There is no memory for a buffer. -/
  | nomem
  /-- A read ends early. -/
  | short (buf : VP) (size : BitVec 64)
  | whole (buf : VP) (f : File)

/-- A buffer of `st.size` bytes. -/
def bufSize (size : BitVec 64) : Nat := if size ≠ 0 then size.toNat else 1

/-- `free(file); return rc;`. -/
def freeFile (file : VP) (rc : Load (ElfImage × Machine)) : Load (ElfImage × Machine) :=
  match rc with
  | .ok (img, m) => do
    let m ← m.free file
    .ok (img, m)
  | .error (.reject m) => do
    let m ← m.free file
    .error (.reject m)
  | .error (.fault e) => .error (.fault e)

/-- `elf_load`, on a file that stays in its buffer. `alloc` is what the allocation of the image
returns. -/
def elfLoad (file : LoadFile) (alloc : Option VP) (m : Machine) : Load (ElfImage × Machine) :=
  match file with
  | .absent | .nomem => .error (.reject m)
  | .short buf size => do
    let m ← (m.malloc buf (bufSize size)).free buf
    .error (.reject m)
  | .whole buf f =>
    let m := m.malloc buf (bufSize f.size)
    freeFile buf do
      let itrm ← isItrm f
      if itrm then loadItrm f alloc m else loadElf f alloc m

end Ittrium.Elf
