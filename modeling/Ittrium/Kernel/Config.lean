import Mathlib.Algebra.Group.Int.Defs
import Mathlib.Algebra.Group.Nat.Defs
import Mathlib.Control.Monad.Basic
import Mathlib.Tactic.Basic

/-!
# Configuration and scalar types

The macros an application sets in `kernel_config.h`, and the scalar types of the Cortex-A53 port
(`config/cortex-a53/cpu_support.h`). All results are for an arbitrary configuration.
-/

namespace Ittrium

/-! ## Scalar types -/

/-! `ID` and `PRI` (`short`) and `INT` (`int`) are `Int` here. -/

/-- `typedef unsigned int UINT`, also `RELTIM` and `FLGPTN`. -/
abbrev UINT := BitVec 32
abbrev RELTIM := UINT
abbrev FLGPTN := UINT
/-- `typedef uint32_t UW`. -/
abbrev UW := BitVec 32
/-- `typedef H TMO`, a signed 16 bit number. -/
abbrev TMO := BitVec 16
/-- `typedef unsigned short ATR`, also `MODE` and `SIZE`. -/
abbrev ATR := BitVec 16
abbrev MODE := BitVec 16
abbrev SIZE := BitVec 16
/-- Pointers into memory that is not part of a control block. -/
abbrev VP := BitVec 64

/-- Storing a number in a `short`. -/
def toShort (x : Int) : Int := x.bmod (2 ^ 16)

theorem toShort_of_range {x : Int} (h₁ : -(2 ^ 15) ≤ x) (h₂ : x < 2 ^ 15) : toShort x = x := by
  unfold toShort
  exact Int.bmod_eq_of_le (by omega) (by omega)

/-! ## `kernel_config.h` -/

/--
The constants of one kernel build.

`nmsg` is the number of message packets in the memory of the application. It bounds nothing a
caller may do, it only makes the message addresses a finite type.
-/
structure Config where
  tmaxTskid : Nat
  trsvTskid : Nat
  tmaxSemid : Nat
  trsvSemid : Nat
  tmaxFlgid : Nat
  trsvFlgid : Nat
  tmaxMbxid : Nat
  trsvMbxid : Nat
  tmaxTpri : Nat
  bitmapshift : Nat
  tmaxActcnt : Nat
  tmaxMaxsem : Nat
  ticDeno : UW
  /-- Address of `ext_tsk`, the return address of a task's entry point. -/
  extTsk : VP
  nmsg : Nat
  /-- There is a ready line. -/
  tpri_pos : 0 < tmaxTpri
  /-- Priorities are kept in a `short`. -/
  tpri_short : tmaxTpri < 2 ^ 15
  /-- `TMAX_MAXSEM` is an `int`. -/
  maxsem_int : tmaxMaxsem < 2 ^ 31
  /-- A bitmap word has a bit for each of its `BITMAPSZ` lines. -/
  bitmap_fits : 2 ^ bitmapshift ≤ 32

namespace Config

variable (cfg : Config)

/-! The `TMIN_*` constants are all 1, so the tables have `TMAX - TMIN + 1 + TRSV` entries. -/

def tnumTskid : Nat := cfg.tmaxTskid + cfg.trsvTskid
def tnumSemid : Nat := cfg.tmaxSemid + cfg.trsvSemid
def tnumFlgid : Nat := cfg.tmaxFlgid + cfg.trsvFlgid
def tnumMbxid : Nat := cfg.tmaxMbxid + cfg.trsvMbxid

/-- `BITMAPSZ`. -/
def bitmapsz : Nat := 2 ^ cfg.bitmapshift

/-- `NUM_BITMAP`. -/
def numBitmap : Nat := (cfg.tmaxTpri + cfg.bitmapsz - 1) / cfg.bitmapsz

end Config

/-- Positions in the control block tables. -/
abbrev TskIx (cfg : Config) := Fin cfg.tnumTskid
abbrev SemIx (cfg : Config) := Fin cfg.tnumSemid
abbrev FlgIx (cfg : Config) := Fin cfg.tnumFlgid
abbrev MbxIx (cfg : Config) := Fin cfg.tnumMbxid

/-- `pri_to_index`, stored in a `PRI`. -/
def priToIndex (x : Int) : Int := toShort (x - 1)

/-! ## Constants of `ittrium.h` -/

/-- Task and object states (`TTS_*`). -/
inductive Stat where
  | noexs
  | run
  | rdy
  | wai
  | sus
  | was
  | dmt
  deriving DecidableEq, Repr

/-- The value of a `TTS_*` constant. -/
def Stat.code : Stat → BitVec 16
  | .noexs => 0x00
  | .run => 0x01
  | .rdy => 0x02
  | .wai => 0x04
  | .sus => 0x08
  | .was => 0x0c
  | .dmt => 0x10

/-- `state & TTS_WAI`: true of `TTS_WAI` and of `TTS_WAS`. -/
def Stat.waiting (st : Stat) : Bool := (st.code &&& Stat.wai.code) != 0

theorem Stat.waiting_iff {st : Stat} : st.waiting = true ↔ st = .wai ∨ st = .was := by
  cases st <;> decide

/-- Error codes. -/
inductive ER where
  | ok
  | rsatr
  | par
  | id
  | ilUse
  | nomem
  | noid
  | obj
  | noexs
  | qovr
  | tmout
  | dlt
  deriving DecidableEq, Repr

/-- Reasons for waiting a `tskwait` is ever set to. -/
inductive TskWait where
  | none
  | slp
  | dly
  deriving DecidableEq, Repr

def taTfifo : ATR := 0x00
def taTpri : ATR := 0x01
def taMfifo : ATR := 0x02
def taMpri : ATR := 0x03
def taWsgl : ATR := 0x00
def taWmul : ATR := 0x02
def taClr : ATR := 0x04
def taName : ATR := 0x8000

def twfAndw : MODE := 0x00
def twfOrw : MODE := 0x01

def tmoPol : TMO := 0
def tmoFevr : TMO := -1

def tminTpri : Int := 1
/-- `TPRI_INI` and `TPRI_SELF`. -/
def tpriIni : Int := 0
def tskSelf : Int := 0
def tskNameLen : Nat := 16

end Ittrium
