import Ittrium.Infra.Run
import Ittrium.Infra.Window
import Ittrium.Kernel.Config

/-!
# The console, `uart.c`

`uart_getc`, called by one task, `uart_putc`, called by any tasks, and the interrupt handler, after
`uart_init`. A critical section and a service call are one step each of a task. The handler is one
step: no task runs while it does.

* `Flag` — the eventflag, with the attributes `TA_TFIFO | TA_CLR | TA_WMUL`
* `Uart` — the soft FIFOs and the registers
* `Console.step` — a step of a task, of the UART or of the handler
-/

namespace Ittrium.Drv

/-! ## The eventflag -/

/-- The pattern, and the tasks that wait with what they wait for, the first one first. -/
structure Flag (τ : Type) where
  flgptn : FLGPTN
  waitq : List (τ × FLGPTN)

namespace Flag

variable {τ : Type}

/-- The walk of `_set_flg`: the tasks released, the pattern and the queue that are left. -/
def walk : List (τ × FLGPTN) → FLGPTN → List τ × FLGPTN × List (τ × FLGPTN)
  | [], ptn => ([], ptn, [])
  | w :: l, ptn =>
    if ptn &&& w.2 ≠ 0 then
      let r := walk l 0
      (w.1 :: r.1, r.2.1, r.2.2)
    else
      let r := walk l ptn
      (r.1, r.2.1, w :: r.2.2)

def set (setptn : FLGPTN) (f : Flag τ) : List τ × Flag τ :=
  let r := walk f.waitq (f.flgptn ||| setptn)
  (r.1, ⟨r.2.1, r.2.2⟩)

/-- `__wai_flg` with `TWF_ORW` where the pattern is there. -/
def wai (waiptn : FLGPTN) (f : Flag τ) : Option (Flag τ) :=
  if f.flgptn &&& waiptn ≠ 0 then some { f with flgptn := 0 } else none

/-- `__wai_flg` where it is not: the task is put last. -/
def block (t : τ) (waiptn : FLGPTN) (f : Flag τ) : Flag τ :=
  { f with waitq := f.waitq ++ [(t, waiptn)] }

end Flag

/-! ## The soft FIFOs -/

def uartFifoSize : Nat := 128

/-- `rx_fifo` with its indices, or `tx_fifo`. -/
structure Fifo where
  fifo : Int → UInt8
  head : Nat
  tail : Nat
  count : Nat

/-- `none` if the FIFO is full. -/
def Fifo.push (b : UInt8) (f : Fifo) : Option Fifo :=
  if f.count ≥ uartFifoSize then none
  else some {
    fifo := Function.update f.fifo f.head b
    head := (f.head + 1) % uartFifoSize
    tail := f.tail
    count := f.count + 1 }

/-- `none` if the FIFO is empty. -/
def Fifo.pop (f : Fifo) : Option (UInt8 × Fifo) :=
  if f.count = 0 then none
  else some (f.fifo f.tail, { f with tail := (f.tail + 1) % uartFifoSize, count := f.count - 1 })

/-- A byte is dropped if the FIFO is full. -/
def rxPush (b : UInt8) (rx : Fifo) : Fifo := (rx.push b).getD rx

def rxPop (rx : Fifo) : Option (UInt8 × Fifo) := rx.pop

def txPush (b : UInt8) (tx : Fifo) : Option Fifo := tx.push b

def txPop (tx : Fifo) : Option (UInt8 × Fifo) := tx.pop

/-! ## Registers -/

def uartIntRx : BitVec 32 := 1 <<< 4
def uartIntTx : BitVec 32 := 1 <<< 5
def uartIntRt : BitVec 32 := 1 <<< 6

def uartFlgRx : FLGPTN := 1 <<< 0
def uartFlgTx : FLGPTN := 1 <<< 1

structure Uart where
  rx : Fifo
  tx : Fifo
  /-- The interrupts that have been raised and not cleared. `UART_MIS` shows those of `imsc`. -/
  ris : BitVec 32
  imsc : BitVec 32
  /-- The bytes in the receive FIFO of the UART. -/
  received : List UInt8
  /-- What has been written to `UART_DR`. -/
  written : List UInt8

/-- `UART_MIS`. -/
def Uart.mis (u : Uart) : BitVec 32 := u.ris &&& u.imsc

/-- `UART_ICR = bits`. -/
def Uart.clear (bits : BitVec 32) (u : Uart) : Uart := { u with ris := u.ris &&& ~~~bits }

/-- The end of `uart_tx_kick`. -/
def Uart.maskTx (u : Uart) : Uart :=
  if u.tx.count ≠ 0 then { u with imsc := u.imsc ||| uartIntTx }
  else { u with imsc := u.imsc &&& ~~~uartIntTx }

/-- The UART has room for `room` bytes until `UART_FR_TXFF` is read as set. -/
def uartTxKick : Nat → Uart → Uart
  | 0, u => u.maskTx
  | room + 1, u =>
    match txPop u.tx with
    | some (b, tx) => uartTxKick room { u with tx, written := u.written ++ [b] }
    | none => u.maskTx

/-! ## The handler -/

/-- The receive interrupts: what is set, and the registers. -/
def irqRx (mis : BitVec 32) (u : Uart) : FLGPTN × Uart :=
  if mis &&& (uartIntRx ||| uartIntRt) ≠ 0 then
    let rx := u.received.foldl (fun rx b => rxPush b rx) u.rx
    let u := { u with rx, received := [] }.clear (uartIntRx ||| uartIntRt)
    (if u.rx.count ≠ 0 then uartFlgRx else 0, u)
  else (0, u)

/-- The transmit interrupt. -/
def irqTx (mis : BitVec 32) (room : Nat) (u : Uart) : FLGPTN × Uart :=
  if mis &&& uartIntTx ≠ 0 then
    let u := uartTxKick room (u.clear uartIntTx)
    (if u.tx.count < uartFifoSize then uartFlgTx else 0, u)
  else (0, u)

/-- `uart_irq` up to `iset_flg`. -/
def uartIrq (room : Nat) (u : Uart) : FLGPTN × Uart :=
  let mis := u.mis
  let r := irqRx mis u
  let t := irqTx mis room r.2
  (r.1 ||| t.1, t.2)

/-! ## The system -/

/-- The task that calls `uart_getc`, and those that call `uart_putc`. -/
inductive Caller (τ : Type) where
  | getc
  | putc (t : τ)
  deriving DecidableEq

/-- Where a task is in the loop of its function. -/
inductive Pc where
  | idle
  | start
  /-- It has found the FIFO empty, or full, and comes to `twai_flg`. -/
  | checked
  | waiting
  deriving DecidableEq

structure Console (τ : Type) where
  uart : Uart
  flag : Flag (Caller τ)
  pc : Caller τ → Pc
  /-- What a task has still to put. -/
  chars : τ → List UInt8

inductive ConsoleAct (τ : Type) where
  | uartGetc
  | uartPutc (t : τ) (c : UInt8)
  | getc
  | putc (t : τ) (room : Nat)
  /-- A byte comes in on the line. -/
  | receive (b : UInt8)
  /-- The UART raises interrupts. -/
  | raise (bits : BitVec 32)
  | irq (room : Nat)

namespace Console

variable {τ : Type} [DecidableEq τ]

def setPc (w : Caller τ) (p : Pc) (s : Console τ) : Console τ :=
  { s with pc := Function.update s.pc w p }

/-- The tasks go on with their loops. -/
def wake (ws : List (Caller τ)) (s : Console τ) : Console τ :=
  { s with pc := fun w => if w ∈ ws then .start else s.pc w }

def isetFlg (setptn : FLGPTN) (s : Console τ) : Console τ :=
  let r := s.flag.set setptn
  { s with flag := r.2 }.wake r.1

def twaiFlg (w : Caller τ) (waiptn : FLGPTN) (s : Console τ) : Console τ :=
  match s.flag.wai waiptn with
  | some flag => { s with flag }.setPc w .start
  | none => { s with flag := s.flag.block w waiptn }.setPc w .waiting

/-- What `uart_putc` puts: a carriage return comes before a newline. -/
def charsOf (c : UInt8) : List UInt8 := if c = 0x0a then [0x0d, 0x0a] else [c]

/-- A step, with the byte that `uart_getc` returns in it. -/
def step (s : Console τ) : ConsoleAct τ → Option (Console τ × Option UInt8)
  | .uartGetc => if s.pc .getc = .idle then some (s.setPc .getc .start, none) else none
  | .uartPutc t c =>
    if s.pc (.putc t) = .idle then
      some ({ s with chars := Function.update s.chars t (charsOf c) }.setPc (.putc t) .start, none)
    else none
  | .getc =>
    match s.pc .getc with
    | .start =>
      match rxPop s.uart.rx with
      | some (b, rx) => some ({ s with uart.rx := rx }.setPc .getc .idle, some b)
      | none => some (s.setPc .getc .checked, none)
    | .checked => some (s.twaiFlg .getc uartFlgRx, none)
    | _ => none
  | .putc t room =>
    match s.pc (.putc t), s.chars t with
    | .start, c :: cs =>
      match txPush c s.uart.tx with
      | some tx =>
        some ({ s with
          uart := uartTxKick room { s.uart with tx }
          chars := Function.update s.chars t cs }.setPc (.putc t)
            (if cs = [] then .idle else .start), none)
      | none => some (s.setPc (.putc t) .checked, none)
    | .checked, _ => some (s.twaiFlg (.putc t) uartFlgTx, none)
    | _, _ => none
  | .receive b => some ({ s with uart.received := s.uart.received ++ [b] }, none)
  | .raise bits => some ({ s with uart.ris := s.uart.ris ||| bits }, none)
  | .irq room =>
    let r := uartIrq room s.uart
    let s := { s with uart := r.2 }
    some (if r.1 ≠ 0 then s.isetFlg r.1 else s, none)

/-- After `uart_init`. -/
structure Start (s : Console τ) : Prop where
  pc : ∀ w, s.pc w = .idle
  flgptn : s.flag.flgptn = uartFlgTx
  waitq : s.flag.waitq = []
  rx : s.uart.rx.head = 0 ∧ s.uart.rx.tail = 0 ∧ s.uart.rx.count = 0
  tx : s.uart.tx.head = 0 ∧ s.uart.tx.tail = 0 ∧ s.uart.tx.count = 0
  imsc : s.uart.imsc = uartIntRx ||| uartIntRt

end Console

end Ittrium.Drv
