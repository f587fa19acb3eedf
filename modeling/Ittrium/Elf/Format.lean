import Ittrium.Infra.Bytes
import Ittrium.Kernel.Config

/-!
# Module files

The files `elf_load.c` reads: ELF64 and ITRM, all numbers little-endian. A field is an offset in the
file and a width in bytes. Fields are zero-extended to 64 bits, as in the sums they enter.

* `File` — the bytes of a file
* `File.ph` — the fields of the program headers that the loader uses
* `ehdr`, `phdr` — headers as bytes
-/

namespace Ittrium.Elf

open Infra

/-! ## Constants -/

def etExec : BitVec 64 := 2
def etDyn : BitVec 64 := 3
def emAarch64 : BitVec 64 := 183
def ptLoad : BitVec 64 := 1
def ptDynamic : BitVec 64 := 2
def dtNull : BitVec 64 := 0
def dtSymtab : BitVec 64 := 6
def dtRela : BitVec 64 := 7
def dtRelasz : BitVec 64 := 8
def dtRelaent : BitVec 64 := 9
def dtSyment : BitVec 64 := 11
def rAarch64Abs64 : BitVec 64 := 257
def rAarch64Relative : BitVec 64 := 1027

/-- `ITRM_MAGIC`. -/
def itrmMagic : BitVec 64 := 0x4D525449
/-- The window of fixed images. -/
def elfLoadBase : BitVec 64 := 0x40200000
def elfLoadSize : BitVec 64 := 0x80000

/-! ## Bytes of a file -/

/-- The bytes of a file as they have been read. Its size is a `size_t`. -/
structure File where
  bytes : List UInt8
  size_lt : bytes.length < 2 ^ 64

namespace File

/-- `fsz`. -/
def size (f : File) : BitVec 64 := BitVec.ofNat 64 f.bytes.length

def byte (f : File) (k : Nat) : UInt8 := f.bytes.getD k 0

/-- The number in the `w` bytes at `off`. -/
def num (f : File) (off : BitVec 64) (w : Nat) : BitVec 64 :=
  BitVec.ofNat 64 (readLE f.byte off.toNat w)

/-- The `w` bytes at `off` are in the buffer. -/
def Inside (f : File) (off : BitVec 64) (w : Nat) : Prop := off.toNat + w ≤ f.bytes.length

instance (f : File) (off : BitVec 64) (w : Nat) : Decidable (f.Inside off w) :=
  inferInstanceAs (Decidable (_ ≤ _))

/-! ## Headers -/

/-- `magic` of an `itrm_hdr`. -/
def magic (f : File) : BitVec 64 := f.num 0 4
def entryOff (f : File) : BitVec 64 := f.num 4 4
def payload (f : File) : BitVec 64 := f.num 8 4

/-- `e_ident[k]`. -/
def ident (f : File) (k : Nat) : UInt8 := f.byte k
def eType (f : File) : BitVec 64 := f.num 16 2
def eMachine (f : File) : BitVec 64 := f.num 18 2
def eEntry (f : File) : BitVec 64 := f.num 24 8
def ePhoff (f : File) : BitVec 64 := f.num 32 8
def ePhentsize (f : File) : BitVec 64 := f.num 54 2
def ePhnum (f : File) : BitVec 64 := f.num 56 2

/-- Offset of `ph[i]`. -/
def phdrAt (f : File) (i : Nat) : BitVec 64 := f.ePhoff + BitVec.ofNat 64 (56 * i)

end File

/-- A field of a program header. -/
inductive PhField where
  | type
  | offset
  | vaddr
  | filesz
  | memsz
  deriving DecidableEq

namespace PhField

def off : PhField → BitVec 64
  | type => 0
  | offset => 8
  | vaddr => 16
  | filesz => 32
  | memsz => 40

def width : PhField → Nat
  | type => 4
  | _ => 8

end PhField

/-- `ph[i].fld`. -/
def File.ph (f : File) (i : Nat) (fld : PhField) : BitVec 64 :=
  f.num (f.phdrAt i + fld.off) fld.width

/-- The field is in the buffer. -/
def File.PhInside (f : File) (i : Nat) (fld : PhField) : Prop :=
  f.Inside (f.phdrAt i + fld.off) fld.width

instance (f : File) (i : Nat) (fld : PhField) : Decidable (f.PhInside i fld) :=
  inferInstanceAs (Decidable (f.Inside _ _))

/-! ## Writing headers -/

/-- The `w` bytes of `v`. -/
def le (w v : Nat) : List UInt8 := (List.range w).map (byteAt v)

/-- An ELF header, the program headers follow it. -/
def ehdr (type entry phnum : Nat) : List UInt8 :=
  [[0x7f, 0x45, 0x4c, 0x46, 2, 1, 1], le 9 0, le 2 type, le 2 183, le 4 1, le 8 entry, le 8 64,
    le 8 0, le 4 0, le 2 64, le 2 56, le 2 phnum, le 6 0].flatten

def phdr (type offset vaddr filesz memsz : Nat) : List UInt8 :=
  [le 4 type, le 4 7, le 8 offset, le 8 vaddr, le 8 vaddr, le 8 filesz, le 8 memsz,
    le 8 0x1000].flatten

end Ittrium.Elf
