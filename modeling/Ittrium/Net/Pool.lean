import Ittrium.Net.SysArch
import Ittrium.Kernel.Semaphore
import Ittrium.Infra.Run

/-!
# The pool of semaphores, `services/net/arch/sys_arch.c`

The build is the one with `LWIP_SEM_ID_BASE`, where each slot has a semaphore of its own. All of
this code runs outside critical sections, so a task may lose the processor between any two accesses
to shared data. No function of the pool waits.

* `AllocPc`, `PoolPc` — where a task is in `sem_alloc_from_pool`, or in the call it makes
* `Pool` — the slots, their semaphores, the objects handed out, and the tasks
* `Pool.step` — one access to the pool or one service call
-/

namespace Ittrium.Net

structure PoolConfig where
  kernel : Config
  lwipSemIdBase : Int
  lwipSemCount : Nat

/-- `struct sem_slot`, less its `id`. -/
structure SemSlot where
  created : Bool
  free : Bool

/-! ## Where a task is -/

/-- Who calls `sem_alloc_from_pool`. A `sys_sem` is given by its slot. -/
inductive Caller where
  | semNew (count : BitVec 8)
  | mutexNew
  /-- `sys_mbox_new`, for its `sem_empty`. -/
  | mboxEmpty
  /-- `sys_mbox_new`, for its `sem_full`. -/
  | mboxFull (semEmpty : Option Nat)
  deriving DecidableEq

/-- The argument `count`. -/
def Caller.count : Caller → Nat
  | .semNew count => count.toNat
  | .mutexNew => 1
  | .mboxEmpty | .mboxFull _ => 0

/-- The next step of `sem_alloc_from_pool`. -/
inductive AllocPc where
  /-- `if (sem_pool_ready)`. -/
  | init
  /-- `sem_pool[i].created = 0`. -/
  | initCreated (i : Nat)
  /-- `sem_pool[i].free = 1`. -/
  | initFree (i : Nat)
  /-- `sem_pool_ready = 1`. -/
  | initReady
  /-- `if (sem_pool[i].free)`. -/
  | examine (i : Nat)
  /-- `if (slot->created)`. -/
  | ensure (i : Nat)
  /-- `cre_sem`. -/
  | create (i : Nat)
  /-- `slot->created = 1`. -/
  | created (i : Nat)
  /-- `pol_sem` of the first `sem_drain`. -/
  | drain (i : Nat)
  /-- `sig_sem`. -/
  | signal (i n : Nat)
  /-- `sem_pool[i].free = 0`. -/
  | mark (i : Nat)
  | malloc (i : Nat)
  /-- `sem_drain` after a `sig_sem` that failed. -/
  | drainFull (i : Nat)
  /-- `sem_drain` after a `malloc` that failed. -/
  | drainNull (i : Nat)
  /-- `sem_pool[i].free = 1` after it. -/
  | unmark (i : Nat)
  deriving DecidableEq

/-- The next step of `sem_release_to_pool`. -/
inductive ReleasePc where
  | drain
  /-- `sem_pool[sem->slot].free = 1`. -/
  | free
  deriving DecidableEq

inductive PoolPc where
  | idle
  | alloc (c : Caller) (a : AllocPc)
  /-- In `sem_release_to_pool` for slot `i`; the semaphores in `rest` are next. -/
  | release (i : Nat) (rest : List Nat) (r : ReleasePc)
  deriving DecidableEq

/-- The loop of `sem_pool_init`, from slot `i` on. -/
def AllocPc.initFrom (p : PoolConfig) (i : Nat) : AllocPc :=
  if i < p.lwipSemCount then .initCreated i else .initReady

/-- The loop of signals, `n` of which have been made. -/
def AllocPc.signalFrom (count i n : Nat) : AllocPc := if n < count then .signal i n else .mark i

/-- The given semaphores are released one after the other. -/
def PoolPc.releaseAll : List Nat → PoolPc
  | [] => .idle
  | i :: rest => .release i rest .drain

/-! ## The system -/

/-- A `sys_sem_t`, `sys_mutex_t` or `sys_mbox_t` that an application holds. -/
inductive PoolObj where
  | sem (i : Nat)
  | mutex (i : Nat)
  | mbox (semEmpty semFull : Nat)
  deriving DecidableEq

def PoolObj.slots : PoolObj → List Nat
  | .sem i | .mutex i => [i]
  | .mbox e f => [e, f]

structure Pool (τ : Type) where
  /-- `sem_pool_ready`. -/
  ready : Bool
  slot : Nat → SemSlot
  /-- The semaphores that exist. -/
  sem : Nat → Option (Sem τ)
  objs : List PoolObj
  pc : τ → PoolPc

/-- What the calls do. A call whose own memory cannot be had returns at once. -/
inductive PoolAct (τ : Type) where
  | semNew (t : τ) (count : BitVec 8)
  | mutexNew (t : τ)
  | mboxNew (t : τ)
  /-- `sys_sem_free`, `sys_mutex_free` or `sys_mbox_free`. -/
  | free (t : τ) (o : PoolObj)
  /-- The task makes its next step. A `malloc` succeeds if `mem` holds. -/
  | run (t : τ) (mem : Bool)
  deriving DecidableEq

namespace Pool

variable {τ : Type} [DecidableEq τ]

/-- Static storage is cleared, and no semaphore has been created. -/
def reset : Pool τ where
  ready := false
  slot := fun _ => { created := false, free := false }
  sem := fun _ => none
  objs := []
  pc := fun _ => .idle

def goto (t : τ) (p : PoolPc) (s : Pool τ) : Pool τ := { s with pc := Function.update s.pc t p }

def setFree (i : Nat) (v : Bool) (s : Pool τ) : Pool τ :=
  { s with slot := Function.update s.slot i { s.slot i with free := v } }

def setCreated (i : Nat) (v : Bool) (s : Pool τ) : Pool τ :=
  { s with slot := Function.update s.slot i { s.slot i with created := v } }

def setSem (i : Nat) (q : Sem τ) (s : Pool τ) : Pool τ :=
  { s with sem := Function.update s.sem i (some q) }

/-! Service calls. They give no state unless they return `E_OK`. -/

def creSem (p : PoolConfig) (i : Nat) (s : Pool τ) : Option (Pool τ) :=
  if badSemid p.kernel (p.lwipSemIdBase + i) ∨ (s.sem i).isSome then none
  else some (s.setSem i { semcnt := 0, waitq := [] })

def polSem (i : Nat) (s : Pool τ) : Option (Pool τ) := do
  let q ← s.sem i
  let q ← q.wai
  some (s.setSem i q)

def sigSem (p : PoolConfig) (i : Nat) (s : Pool τ) : Option (Pool τ) := do
  let q ← s.sem i
  match q.sig p.kernel.tmaxMaxsem with
  | (.ok, _, q) => some (s.setSem i q)
  | _ => none

/-- `sem_alloc_from_pool` returns a `sys_sem` with the slot given, or `NULL`. -/
def returned (t : τ) (c : Caller) (r : Option Nat) (s : Pool τ) : Pool τ :=
  match c, r with
  | .semNew _, some i => { s with objs := .sem i :: s.objs }.goto t .idle
  | .mutexNew, some i => { s with objs := .mutex i :: s.objs }.goto t .idle
  | .semNew _, none | .mutexNew, none => s.goto t .idle
  | .mboxEmpty, r => s.goto t (.alloc (.mboxFull r) .init)
  | .mboxFull (some e), some f => { s with objs := .mbox e f :: s.objs }.goto t .idle
  | .mboxFull e, r => s.goto t (.releaseAll (e.toList ++ r.toList))

/-- A step of `sem_alloc_from_pool`, and the slot it has failed with. -/
def allocStep (p : PoolConfig) (t : τ) (c : Caller) (a : AllocPc) (mem : Bool) (s : Pool τ) :
    Pool τ × Option Nat :=
  match a with
  | .init =>
    (s.goto t (.alloc c (if s.ready then .examine 0 else .initFrom p 0)), none)
  | .initCreated i => ((s.setCreated i false).goto t (.alloc c (.initFree i)), none)
  | .initFree i => ((s.setFree i true).goto t (.alloc c (.initFrom p (i + 1))), none)
  | .initReady => ({ s with ready := true }.goto t (.alloc c (.examine 0)), none)
  | .examine i =>
    if p.lwipSemCount ≤ i then (s.returned t c none, none)
    else if (s.slot i).free then (s.goto t (.alloc c (.ensure i)), none)
    else (s.goto t (.alloc c (.examine (i + 1))), none)
  | .ensure i =>
    (s.goto t (.alloc c (if (s.slot i).created then .drain i else .create i)), none)
  | .create i =>
    match s.creSem p i with
    | some s => (s.goto t (.alloc c (.created i)), none)
    | none => (s.returned t c none, some i)
  | .created i => ((s.setCreated i true).goto t (.alloc c (.drain i)), none)
  | .drain i =>
    match s.polSem i with
    | some s => (s, none)
    | none => (s.goto t (.alloc c (.signalFrom c.count i 0)), none)
  | .signal i n =>
    match s.sigSem p i with
    | some s => (s.goto t (.alloc c (.signalFrom c.count i (n + 1))), none)
    | none => (s.goto t (.alloc c (.drainFull i)), none)
  | .mark i => ((s.setFree i false).goto t (.alloc c (.malloc i)), none)
  | .malloc i =>
    if mem then (s.returned t c (some i), none) else (s.goto t (.alloc c (.drainNull i)), none)
  | .drainFull i =>
    match s.polSem i with
    | some s => (s, none)
    | none => (s.returned t c none, some i)
  | .drainNull i =>
    match s.polSem i with
    | some s => (s, none)
    | none => (s.goto t (.alloc c (.unmark i)), none)
  | .unmark i => ((s.setFree i true).returned t c none, some i)

/-- A step of `sem_release_to_pool`. -/
def releaseStep (t : τ) (i : Nat) (rest : List Nat) (r : ReleasePc) (s : Pool τ) : Pool τ :=
  match r with
  | .drain =>
    match s.polSem i with
    | some s => s
    | none => s.goto t (.release i rest .free)
  | .free => (s.setFree i true).goto t (.releaseAll rest)

/-- A step, and the slot an allocation has failed with. -/
def step (p : PoolConfig) (s : Pool τ) : PoolAct τ → Option (Pool τ × Option Nat)
  | .semNew t count =>
    if s.pc t = .idle then some (s.goto t (.alloc (.semNew count) .init), none) else none
  | .mutexNew t => if s.pc t = .idle then some (s.goto t (.alloc .mutexNew .init), none) else none
  | .mboxNew t => if s.pc t = .idle then some (s.goto t (.alloc .mboxEmpty .init), none) else none
  | .free t o =>
    if s.pc t = .idle ∧ o ∈ s.objs then
      some ({ s with objs := s.objs.erase o }.goto t (.releaseAll o.slots), none)
    else none
  | .run t mem =>
    match s.pc t with
    | .idle => none
    | .alloc c a => some (s.allocStep p t c a mem)
    | .release i rest r => some (s.releaseStep t i rest r, none)

section

omit [DecidableEq τ]

variable {s : Pool τ} {k : Nat}

/-! ## What changes where -/

/-- The count of the semaphore of slot `k`, if it exists. -/
def semcnt (k : Nat) (s : Pool τ) : Int := ((s.sem k).map Sem.semcnt).getD 0

@[simp] theorem setFree_self (i : Nat) (v : Bool) : ((s.setFree i v).slot i).free = v := by
  simp [Pool.setFree]

theorem setFree_of_ne {i : Nat} {v : Bool} (hk : k ≠ i) :
    ((s.setFree i v).slot k).free = (s.slot k).free := by
  simp [Pool.setFree, Function.update_of_ne hk]

@[simp] theorem setCreated_free (i : Nat) (v : Bool) :
    ((s.setCreated i v).slot k).free = (s.slot k).free := by
  by_cases hk : k = i
  · subst hk
    simp [Pool.setCreated]
  · simp [Pool.setCreated, Function.update_of_ne hk]

@[simp] theorem semcnt_setSem_self (i : Nat) (q : Sem τ) : (s.setSem i q).semcnt i = q.semcnt := by
  simp [Pool.setSem, semcnt]

theorem semcnt_setSem_of_ne {i : Nat} {q : Sem τ} (hk : k ≠ i) :
    (s.setSem i q).semcnt k = s.semcnt k := by
  simp [Pool.setSem, semcnt, Function.update_of_ne hk]

/-- `pol_sem` takes a resource, and fails when there is none. -/
theorem polSem_cases (i : Nat) (s : Pool τ) :
    (s.polSem i = none ∧ s.semcnt i ≤ 0) ∨
      ∃ q, s.polSem i = some (s.setSem i q) ∧ 0 < s.semcnt i ∧ q.semcnt = s.semcnt i - 1 := by
  unfold polSem semcnt
  cases hq : s.sem i with
  | none => exact Or.inl ⟨rfl, Int.le_refl 0⟩
  | some q =>
    by_cases hc : 0 < q.semcnt
    · exact Or.inr ⟨{ q with semcnt := q.semcnt - 1 }, by simp [Sem.wai, hc], hc, rfl⟩
    · exact Or.inl ⟨by simp [Sem.wai, hc], by simpa using hc⟩

/-- `sig_sem` adds a resource at most. -/
theorem sigSem_cases (cfg : PoolConfig) (i : Nat) (s : Pool τ) :
    s.sigSem cfg i = none ∨ ∃ q, s.sigSem cfg i = some (s.setSem i q) ∧
      s.semcnt i ≤ q.semcnt := by
  unfold sigSem semcnt
  cases hq : s.sem i with
  | none => exact Or.inl rfl
  | some q =>
    rcases q with ⟨cnt, _ | ⟨t, waitq⟩⟩
    · by_cases hc : cnt ≥ cfg.kernel.tmaxMaxsem
      · exact Or.inl (by simp [Sem.sig, hc])
      · exact Or.inr ⟨⟨cnt + 1, []⟩, by simp [Sem.sig, hc], Int.le_add_of_nonneg_right (by decide)⟩
    · exact Or.inr ⟨⟨cnt, waitq⟩, by simp [Sem.sig], by simp⟩

theorem creSem_cases (cfg : PoolConfig) (i : Nat) (s : Pool τ) :
    s.creSem cfg i = none ∨ s.creSem cfg i = some (s.setSem i ⟨0, []⟩) := by
  unfold creSem
  split
  · exact Or.inl rfl
  · exact Or.inr rfl

end

end Pool

end Ittrium.Net
