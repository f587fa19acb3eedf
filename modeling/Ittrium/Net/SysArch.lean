import Ittrium.Spec.Clock

/-!
# The lwIP port, `services/net/arch/sys_arch.c`

The mailboxes, `sys_sem` and `sys_now`. A task runs these functions in atomic steps: a critical
section of the port, a service call, and a reading of the clock are one step each.

* `Sem` — a kernel semaphore as its users see it
* `SysMbox` — `struct sys_mbox`, less its semaphores
* `Pc` — where a task is, with its local variables
* `Port.step` — a step of the tasks that use one mailbox and one `sys_sem`, and the tick
-/

namespace Ittrium.Net

/-! ## Kernel semaphores -/

/-- A semaphore with the attribute `TA_TFIFO`. The waiting task served next comes first. -/
structure Sem (τ : Type) where
  semcnt : Int
  waitq : List τ

namespace Sem

variable {τ : Type}

/-- `__wai_sem` where it obtains a resource. -/
def wai (s : Sem τ) : Option (Sem τ) :=
  if 0 < s.semcnt then some { s with semcnt := s.semcnt - 1 } else none

/-- `__wai_sem` where it does not: the task is put last. -/
def block (t : τ) (s : Sem τ) : Sem τ := { s with waitq := s.waitq ++ [t] }

/-- `_sig_sem`: the result, the task served, and the semaphore. -/
def sig (maxsem : Int) (s : Sem τ) : ER × Option τ × Sem τ :=
  match s.waitq with
  | t :: waitq => (.ok, some t, { s with waitq := waitq })
  | [] =>
    if s.semcnt ≥ maxsem then (.qovr, none, s)
    else (.ok, none, { s with semcnt := s.semcnt + 1 })

end Sem

/-! ## The ring -/

/-- `struct sys_mbox`, less `sem_empty` and `sem_full`. -/
structure SysMbox where
  q : Int → VP
  size : Int
  head : Int
  tail : Int
  used : Int

def mboxEnqueueUnlocked (msg : VP) (m : SysMbox) : SysMbox :=
  let m := { m with q := Function.update m.q m.head msg, head := m.head + 1 }
  let m := if m.head ≥ m.size then { m with head := 0 } else m
  { m with used := m.used + 1 }

def mboxDequeueUnlocked (m : SysMbox) : VP × SysMbox :=
  let msg := m.q m.tail
  let m := { m with q := Function.update m.q m.tail 0, tail := m.tail + 1 }
  let m := if m.tail ≥ m.size then { m with tail := 0 } else m
  (msg, { m with used := m.used - 1 })

/-- The mailbox `sys_mbox_new` makes when the memory and the semaphores can be had. Its assertion
stops the program on a size that is not positive. -/
def sysMboxNew (cfg : Config) (size : Int) : Option SysMbox :=
  if size ≤ 0 ∨ size > cfg.tmaxMaxsem then none
  else some { q := fun _ => 0, size := size, head := 0, tail := 0, used := 0 }

/-! ## Where a task is -/

def lwipTmoSliceMs : UW := 10000
def sysArchTimeout : UW := 0xffffffff
def sysMboxEmpty : UW := sysArchTimeout

/-- The two semaphores of the mailbox, and that of the `sys_sem`. -/
inductive SemName where
  | semEmpty
  | semFull
  | sem
  deriving DecidableEq

/-- Who calls `mbox_try_enqueue`. -/
inductive Poster where
  /-- `sys_mbox_trypost`, or the same from an ISR. -/
  | trypost
  /-- `sys_mbox_post`, in the first round of its loop. -/
  | first
  /-- `sys_mbox_post`, after a `wai_sem(sem_full)`. -/
  | again
  deriving DecidableEq

/-- Who calls `sem_wait_ms`. -/
inductive Waiter where
  /-- `sys_arch_mbox_fetch`. -/
  | fetch
  /-- `sys_arch_sem_wait`. -/
  | semWait
  deriving DecidableEq

def Waiter.sem : Waiter → SemName
  | .fetch => .semEmpty
  | .semWait => .sem

/-- The variables of `sys_arch_mbox_fetch` or `sys_arch_sem_wait`, and what is remembered of the
call: the ticks when `start` was read and when it was made, and how many resources it has got. -/
structure Wait where
  who : Waiter
  start : UW
  timeout : UW
  startTick : Nat
  callTick : Nat
  callTimeout : UW
  tokens : Nat
  deriving DecidableEq

/-- A fetch: `sys_arch_mbox_fetch` or `sys_arch_mbox_tryfetch`. -/
inductive Fetch where
  | timed (w : Wait)
  | tryfetch
  deriving DecidableEq

/-- The next step of a task. -/
inductive Pc where
  | idle
  /-- The critical section of `mbox_try_enqueue`. -/
  | enqueue (msg : VP) (p : Poster)
  /-- `sig_sem(sem_empty)`. -/
  | signalEmpty
  /-- `wai_sem(sem_full)`. -/
  | waitFull (msg : VP)
  /-- Waiting for `sem_full`. -/
  | blockedFull (msg : VP)
  /-- A round of `sem_wait_ms`. -/
  | semWaitMs (w : Wait) (left : UW)
  /-- Waiting in a round of `sem_wait_ms`; `count` is what is left of the slice, in ticks. -/
  | blocked (w : Wait) (left slice : UW) (count : Option Nat)
  /-- `sem_wait_ms` has failed. -/
  | timedOut (w : Wait)
  /-- `sys_arch_sem_wait` has got its resource. -/
  | semTaken (w : Wait)
  /-- `pol_sem(sem_empty)`. -/
  | polEmpty
  /-- The critical section of a fetch. -/
  | dequeue (f : Fetch)
  /-- `sys_arch_mbox_fetch` has found the mailbox empty. -/
  | foundEmpty (w : Wait)
  /-- It goes on with what is left of its timeout. -/
  | restart (w : Wait)
  /-- `sig_sem(sem_full)`. -/
  | signalFull (f : Fetch) (msg : VP)
  /-- The end of a fetch. -/
  | fetched (f : Fetch) (msg : VP)
  deriving DecidableEq

/-- After `sem_wait_ms` has returned `E_OK`. -/
def Wait.obtained (w : Wait) : Pc :=
  let w := { w with tokens := w.tokens + 1 }
  match w.who with
  | .fetch => .dequeue (.timed w)
  | .semWait => .semTaken w

/-- What a task served by a signal does next. -/
def Pc.served : Pc → Pc
  | .blockedFull msg => .enqueue msg .again
  | .blocked w _ _ _ => w.obtained
  | p => p

/-- The semaphore a task waits for. -/
def Pc.waitsFor : Pc → Option SemName
  | .blockedFull _ => some .semFull
  | .blocked w _ _ _ => some w.who.sem
  | _ => none

/-- A tick releases the task with `E_TMOUT`. -/
def Pc.expires : Pc → Bool
  | .blocked _ _ _ (some count) => count ≤ 1
  | _ => false

/-- What a tick does to a task. -/
def Pc.tick : Pc → Pc
  | .blocked w left slice (some count) =>
    if count ≤ 1 then
      -- `left -= (u32_t)slice;`
      let left := left - slice
      if left = 0 then .timedOut w else .semWaitMs w left
    else .blocked w left slice (some (count - 1))
  | p => p

/-! ## The system -/

/-- The shared data and the tasks. -/
structure Port (τ : Type) where
  mbox : SysMbox
  sem : SemName → Sem τ
  pc : τ → Pc
  systemTicks : SYSTIM
  /-- The ticks so far. -/
  now : Nat

inductive Act (τ : Type) where
  | post (t : τ) (msg : VP)
  | trypost (t : τ) (msg : VP)
  | fetch (t : τ) (timeout : UW)
  | tryfetch (t : τ)
  | semWait (t : τ) (timeout : UW)
  | semSignal (t : τ)
  /-- The task makes its next step. -/
  | run (t : τ)
  | tick
  deriving DecidableEq

/-- What a function returns. `msg` is what `*msg` is set to, `got` whether a resource was got. -/
inductive Ret where
  /-- `ERR_OK` or `ERR_MEM`. -/
  | posted (ok : Bool)
  | fetched (w : Wait) (value : UW) (msg : Option VP)
  | tryfetched (value : UW) (msg : Option VP)
  | waited (w : Wait) (value : UW) (got : Bool)
  deriving DecidableEq

namespace Port

variable {τ : Type} [DecidableEq τ]

def sysNow (net : Port τ) : UW := net.systemTicks.stLow

def goto (t : τ) (p : Pc) (net : Port τ) : Port τ := { net with pc := Function.update net.pc t p }

def setSem (n : SemName) (s : Sem τ) (net : Port τ) : Port τ :=
  { net with sem := Function.update net.sem n s }

/-- A signal, and the task it serves. -/
def signal (cfg : Config) (n : SemName) (net : Port τ) : Port τ :=
  match (net.sem n).sig cfg.tmaxMaxsem with
  | (_, some t, s) => (net.setSem n s).goto t (net.pc t).served
  | (_, none, s) => net.setSem n s

/-- A wait of the task `t` that ends at `ok`, or is taken up with `blocked`. -/
def waiSem (n : SemName) (t : τ) (ok blocked : Pc) (net : Port τ) : Port τ :=
  match (net.sem n).wai with
  | some s => (net.setSem n s).goto t ok
  | none => (net.setSem n ((net.sem n).block t)).goto t blocked

/-- The variables of a call made now. -/
def newWait (who : Waiter) (timeout : UW) (net : Port τ) : Wait where
  who := who
  start := net.sysNow
  timeout := timeout
  startTick := net.now
  callTick := net.now
  callTimeout := timeout
  tokens := 0

/-- The next step of the task `t`, which is at `pc t`. -/
def run (cfg : Config) (t : τ) (net : Port τ) : Option (Port τ × Option Ret) :=
  match net.pc t with
  | .idle | .blockedFull _ | .blocked _ _ _ _ => none
  | .enqueue msg p =>
    if net.mbox.used ≥ net.mbox.size then
      if p = .trypost then some (net.goto t .idle, some (.posted false))
      else some (net.goto t (.waitFull msg), none)
    else some ({ net with mbox := mboxEnqueueUnlocked msg net.mbox }.goto t .signalEmpty, none)
  | .signalEmpty => some ((net.signal cfg .semEmpty).goto t .idle, some (.posted true))
  | .waitFull msg =>
    some (net.waiSem .semFull t (.enqueue msg .again) (.blockedFull msg), none)
  | .semWaitMs w left =>
    if w.timeout = 0 then
      some (net.waiSem w.who.sem t w.obtained (.blocked w left 0 none), none)
    else
      let slice := if left > lwipTmoSliceMs then lwipTmoSliceMs else left
      some (net.waiSem w.who.sem t w.obtained (.blocked w left slice (some slice.toNat)), none)
  | .timedOut w =>
    match w.who with
    | .fetch => some (net.goto t .idle, some (.fetched w sysArchTimeout none))
    | .semWait => some (net.goto t .idle, some (.waited w sysArchTimeout false))
  | .semTaken w => some (net.goto t .idle, some (.waited w (net.sysNow - w.start) true))
  | .polEmpty =>
    match (net.sem .semEmpty).wai with
    | some s => some ((net.setSem .semEmpty s).goto t (.dequeue .tryfetch), none)
    | none => some (net.goto t .idle, some (.tryfetched sysMboxEmpty none))
  | .dequeue f =>
    if net.mbox.used = 0 then
      match f with
      | .timed w => some (net.goto t (.foundEmpty w), none)
      | .tryfetch => some (net.goto t .idle, some (.tryfetched sysMboxEmpty none))
    else
      let wasFull := decide (net.mbox.used ≥ net.mbox.size)
      let (msg, m) := mboxDequeueUnlocked net.mbox
      let next := if wasFull then Pc.signalFull f msg else .fetched f msg
      some ({ net with mbox := m }.goto t next, none)
  | .foundEmpty w =>
    if w.timeout ≠ 0 then
      let waited := net.sysNow - w.start
      if waited ≥ w.timeout then some (net.goto t .idle, some (.fetched w sysArchTimeout none))
      else some (net.goto t (.restart { w with timeout := w.timeout - waited }), none)
    else some (net.goto t (.semWaitMs w w.timeout), none)
  | .restart w =>
    some (net.goto t
      (.semWaitMs { w with start := net.sysNow, startTick := net.now } w.timeout), none)
  | .signalFull f msg => some ((net.signal cfg .semFull).goto t (.fetched f msg), none)
  | .fetched (.timed w) msg =>
    some (net.goto t .idle, some (.fetched w (net.sysNow - w.start) (some msg)))
  | .fetched .tryfetch msg => some (net.goto t .idle, some (.tryfetched 0 (some msg)))

/-- Every waiting task has a tick less, and those that have none left do not wait any more. -/
def tick (cfg : Config) (net : Port τ) : Port τ where
  mbox := net.mbox
  sem := fun n =>
    { net.sem n with waitq := (net.sem n).waitq.filter fun t => !(net.pc t).expires }
  pc := fun t => (net.pc t).tick
  systemTicks := net.systemTicks.advance cfg.ticDeno
  now := net.now + 1

/-- A step, and what the function that ends with it returns. -/
def step (cfg : Config) (net : Port τ) : Act τ → Option (Port τ × Option Ret)
  | .post t msg => if net.pc t = .idle then some (net.goto t (.enqueue msg .first), none) else none
  | .trypost t msg =>
    if net.pc t = .idle then some (net.goto t (.enqueue msg .trypost), none) else none
  | .fetch t timeout =>
    if net.pc t = .idle then
      some (net.goto t (.semWaitMs (net.newWait .fetch timeout) timeout), none)
    else none
  | .tryfetch t => if net.pc t = .idle then some (net.goto t .polEmpty, none) else none
  | .semWait t timeout =>
    if net.pc t = .idle then
      some (net.goto t (.semWaitMs (net.newWait .semWait timeout) timeout), none)
    else none
  | .semSignal t => if net.pc t = .idle then some (net.signal cfg .sem, none) else none
  | .run t => net.run cfg t
  | .tick => some (net.tick cfg, none)

end Port

end Ittrium.Net
