import Ittrium.Net.Pool
import Ittrium.Infra.Population
import Ittrium.Properties.Runs

/-!
# Who owns a slot of the pool

A task claims a slot when it finds it free, and takes it when it marks it used. It is still taken
while the semaphore is in use and until its release marks it free.

* `liveOn k` — how many semaphores that have been handed out have slot `k`
* `Exclusive` — the steps at which no two owners of a slot meet
* `pool_exclusive` — **in runs of such steps a slot has one owner, and none while it is free**
-/

namespace Ittrium.Net

open Infra

/-! ## Owners -/

/-- The slot that was found free, until it is marked or given up. -/
def AllocPc.claimed : AllocPc → List Nat
  | .ensure i | .create i | .created i | .drain i | .signal i _ | .mark i | .drainFull i => [i]
  | _ => []

/-- The slot that has been marked. -/
def AllocPc.marked : AllocPc → List Nat
  | .malloc i | .drainNull i | .unmark i => [i]
  | _ => []

/-- The slot of the task, while its semaphore is not to have resources. -/
def AllocPc.calm : AllocPc → List Nat
  | .ensure i | .create i | .created i | .unmark i => [i]
  | _ => []

/-- A task at that point owns nothing. -/
def AllocPc.Bare (a : AllocPc) : Prop := a.marked = [] ∧ a.claimed = [] ∧ a.calm = []

/-- The semaphore that `sys_mbox_new` has got already. -/
def Caller.live : Caller → List Nat
  | .mboxFull (some e) => [e]
  | _ => []

namespace PoolPc

def claimed : PoolPc → List Nat
  | .alloc _ a => a.claimed
  | _ => []

/-- The semaphores in variables of the task. -/
def live : PoolPc → List Nat
  | .idle => []
  | .alloc c _ => c.live
  | .release _ rest _ => rest

/-- They, and the one that is being made or released. -/
def taken : PoolPc → List Nat
  | .idle => []
  | .alloc c a => a.marked ++ c.live
  | .release i rest _ => i :: rest

def calm : PoolPc → List Nat
  | .alloc _ a => a.calm
  | .release i _ .free => [i]
  | _ => []

theorem live_count_le (k : Nat) (p : PoolPc) : p.live.count k ≤ p.taken.count k := by
  cases p with
  | idle => exact le_refl _
  | alloc c a =>
    simp only [live, taken, List.count_append]
    omega
  | release i rest r => exact (List.sublist_cons_self i rest).count_le k

/-- A task is calm about slots it owns. -/
theorem calm_count_le (k : Nat) (p : PoolPc) :
    p.calm.count k ≤ p.taken.count k + p.claimed.count k := by
  cases p with
  | idle => exact le_refl _
  | alloc c a =>
    simp only [calm, taken, claimed, List.count_append]
    cases a <;> simp [AllocPc.calm, AllocPc.marked, AllocPc.claimed]
  | release i rest r =>
    cases r with
    | drain => exact Nat.zero_le _
    | free => exact ((List.nil_sublist rest).cons_cons i).count_le k

end PoolPc

namespace Pool

variable {τ : Type}

/-- The slots of the semaphores the application holds. -/
def objSlots (s : Pool τ) : List Nat := s.objs.flatMap PoolObj.slots

section

variable [DecidableEq τ]

/-- `sem_alloc_from_pool` fails: the caller releases what it has got. -/
theorem returned_none (t : τ) (c : Caller) (s : Pool τ) :
    ∃ p, s.returned t c none = s.goto t p ∧ p.taken = c.live ∧ p.claimed = [] ∧ p.calm = [] := by
  rcases c with count | _ | _ | _ | e <;> exact ⟨_, rfl, rfl, rfl, rfl⟩

/-- It does not: the application or the caller has one more. -/
theorem returned_some (t : τ) (c : Caller) (i : Nat) (s : Pool τ) :
    ∃ p objs, s.returned t c (some i) = { s with objs := objs }.goto t p ∧
      p.claimed = [] ∧ p.calm = [] ∧
      ∀ k, (objs.flatMap PoolObj.slots).count k + p.taken.count k =
        s.objSlots.count k + ([i].count k + c.live.count k) := by
  rcases c with count | _ | _ | _ | e
  · refine ⟨.idle, .sem i :: s.objs, rfl, rfl, rfl, fun k => ?_⟩
    simp [PoolObj.slots, PoolPc.taken, Caller.live, objSlots, List.count_cons]
  · refine ⟨.idle, .mutex i :: s.objs, rfl, rfl, rfl, fun k => ?_⟩
    simp [PoolObj.slots, PoolPc.taken, Caller.live, objSlots, List.count_cons]
  · exact ⟨_, s.objs, rfl, rfl, rfl, fun k => rfl⟩
  · exact ⟨_, s.objs, rfl, rfl, rfl, fun k => rfl⟩
  · refine ⟨.idle, .mbox e i :: s.objs, rfl, rfl, rfl, fun k => ?_⟩
    simp [PoolObj.slots, PoolPc.taken, Caller.live, objSlots, List.count_cons]
    omega

end

section

variable [Fintype τ]

/-- How many live `sys_sem` objects have slot `k`. -/
def liveOn (k : Nat) (s : Pool τ) : Nat :=
  s.objSlots.count k + total (fun p => p.live.count k) s.pc

/-- How many such objects there are, and tasks that make or release one. -/
def takenOn (k : Nat) (s : Pool τ) : Nat :=
  s.objSlots.count k + total (fun p => p.taken.count k) s.pc

/-- How many tasks claim slot `k`. -/
def claimsOn (k : Nat) (s : Pool τ) : Nat := total (fun p => p.claimed.count k) s.pc

def calmOn (k : Nat) (s : Pool τ) : Nat := total (fun p => p.calm.count k) s.pc

/-! ## The invariant -/

/-- What is true of a slot: whether it is free, how many have taken and claim it, how many of these
are calm, and its count. -/
structure SlotOk (isFree : Bool) (taken claims calm : Nat) (cnt : Int) : Prop where
  excl : taken + claims ≤ 1
  free : isFree = true → taken = 0
  claimed : 0 < claims → isFree = true
  count : 0 < cnt → calm < taken + claims
  nonneg : 0 ≤ cnt

def Inv (s : Pool τ) : Prop :=
  ∀ k, SlotOk (s.slot k).free (s.takenOn k) (s.claimsOn k) (s.calmOn k) (s.semcnt k)

theorem Inv.reset : Inv (reset : Pool τ) := by
  have hz : ∀ f : PoolPc → List Nat, f .idle = [] → ∀ k,
      total (fun p => (f p).count k) (fun _ : τ => PoolPc.idle) = 0 := by
    intro f hf k
    rw [total_eq_zero]
    intro t
    rw [hf]
    rfl
  intro k
  have hT : (Pool.reset : Pool τ).takenOn k = 0 := (Nat.zero_add _).trans (hz PoolPc.taken rfl k)
  have hC : (Pool.reset : Pool τ).claimsOn k = 0 := hz PoolPc.claimed rfl k
  have hK : (Pool.reset : Pool τ).calmOn k = 0 := hz PoolPc.calm rfl k
  rw [hT, hC, hK]
  exact ⟨by omega, fun _ => rfl, fun h => absurd h (by omega), fun h => absurd h (lt_irrefl (0 : Int)),
    le_refl 0⟩

end

/-! ## Changes of one slot -/

namespace SlotOk

variable {f : Bool} {T C K K' : Nat} {n n' : Int}

theorem quiet (h : SlotOk f T C K n) (hK : K' ≤ K) : SlotOk f T C K' n :=
  ⟨h.excl, h.free, h.claimed, fun hn => lt_of_le_of_lt hK (h.count hn), h.nonneg⟩

/-- The count may change while an owner is not calm. -/
theorem setCnt (h : SlotOk f T C K n) (hK : K < T + C) (hn : 0 ≤ n') : SlotOk f T C K n' :=
  ⟨h.excl, h.free, h.claimed, fun _ => hK, hn⟩

/-- Without resources everyone is calm. -/
theorem zero (h : SlotOk f T C K n) : SlotOk f T C K' 0 :=
  ⟨h.excl, h.free, h.claimed, fun hn => absurd hn (lt_irrefl 0), le_refl 0⟩

/-- The only owner is calm. -/
theorem cnt_eq_zero (h : SlotOk f T C K n) (hK : 0 < K) : n = 0 := by
  have := h.excl
  have := h.nonneg
  by_contra hn
  have := h.count (by omega)
  omega

theorem claim (h : SlotOk f T C K n) (hf : f = true) (hC : C = 0) :
    SlotOk f T (C + 1) (K + 1) n := by
  have hT := h.free hf
  refine ⟨by omega, h.free, fun _ => hf, fun hn => ?_, h.nonneg⟩
  have := h.count hn
  omega

theorem unclaim (h : SlotOk f T (C + 1) K 0) : SlotOk f T C K' 0 := by
  have := h.excl
  exact ⟨by omega, h.free, fun hC => absurd hC (by omega), fun hn => absurd hn (lt_irrefl 0),
    le_refl 0⟩

theorem mark (h : SlotOk f T (C + 1) K n) : SlotOk false (T + 1) C K n := by
  have := h.excl
  refine ⟨by omega, by simp, fun hC => absurd hC (by omega), fun hn => ?_, h.nonneg⟩
  have := h.count hn
  omega

theorem unmark (h : SlotOk f (T + 1) C K 0) : SlotOk true T C K' 0 := by
  have := h.excl
  exact ⟨by omega, fun _ => by omega, fun _ => rfl, fun hn => absurd hn (lt_irrefl 0), le_refl 0⟩

/-- A slot that no one has taken may be made free. -/
theorem setFree (h : SlotOk f T C K n) (hT : T = 0) : SlotOk true T C K n :=
  ⟨h.excl, fun _ => hT, fun _ => rfl, h.count, h.nonneg⟩

end SlotOk

/-! ## Where the tasks are -/

section

variable [Fintype τ] [DecidableEq τ] {s s' s₁ : Pool τ} {t : τ} {p : PoolPc} {k : Nat}

/-- The weights of the other tasks and that of one. -/
theorem total_split (w : PoolPc → Nat) (hw : w .idle = 0) (pc : τ → PoolPc) (t : τ) (p : PoolPc) :
    total w (Function.update pc t p) = total w (Function.update pc t .idle) + w p := by
  have h := total_update w (Function.update pc t .idle) t p
  rw [Function.update_idem, Function.update_self, hw] at h
  omega

/-- **A task goes on, after a step that changes neither where the others are.** `T`, `C` and `K`
are what the other tasks have taken, claim and are calm about. -/
theorem Inv.goto (h : Inv s) (hpc : s₁.pc = s.pc)
    (hk : ∀ k T C K, K ≤ T + C →
      s.takenOn k = s.objSlots.count k + T + (s.pc t).taken.count k →
      s.claimsOn k = C + (s.pc t).claimed.count k →
      SlotOk (s.slot k).free (s.objSlots.count k + T + (s.pc t).taken.count k)
        (C + (s.pc t).claimed.count k) (K + (s.pc t).calm.count k) (s.semcnt k) →
      SlotOk (s₁.slot k).free (s₁.objSlots.count k + T + p.taken.count k)
        (C + p.claimed.count k) (K + p.calm.count k) (s₁.semcnt k)) : Inv (s₁.goto t p) := by
  -- each total is split into the part of `t` and that of the others, which does not change
  have hold : ∀ w : PoolPc → Nat, w .idle = 0 →
      total w s.pc = total w (Function.update s.pc t .idle) + w (s.pc t) := by
    intro w hw
    rw [← total_split w hw, Function.update_eq_self]
  have hnew : ∀ w : PoolPc → Nat, w .idle = 0 →
      total w (s₁.goto t p).pc = total w (Function.update s.pc t .idle) + w p := by
    intro w hw
    unfold Pool.goto
    rw [hpc]
    exact total_split w hw s.pc t p
  intro k
  have hle : total (fun p => p.calm.count k) (Function.update s.pc t .idle) ≤
      total (fun p => p.taken.count k) (Function.update s.pc t .idle) +
        total (fun p => p.claimed.count k) (Function.update s.pc t .idle) := by
    unfold total
    rw [← Finset.sum_add_distrib]
    exact Finset.sum_le_sum fun t _ => PoolPc.calm_count_le k _
  have hT := hold (fun p => p.taken.count k) rfl
  have hC := hold (fun p => p.claimed.count k) rfl
  have hK := hold (fun p => p.calm.count k) rfl
  have hs := h k
  unfold takenOn claimsOn calmOn at hs
  rw [hT, hC, hK, ← Nat.add_assoc] at hs
  have hres := hk k _ _ _ hle (by unfold takenOn; omega) (by unfold claimsOn; omega) hs
  unfold takenOn claimsOn calmOn
  rw [hnew (fun p => p.taken.count k) rfl, hnew (fun p => p.claimed.count k) rfl,
    hnew (fun p => p.calm.count k) rfl, ← Nat.add_assoc]
  exact hres

/-- A task in `sem_alloc_from_pool` goes on. What its caller has got already does not matter. -/
theorem Inv.alloc {c : Caller} {a : AllocPc} {M L R : List Nat} (h : Inv s)
    (hp : s.pc t = .alloc c a) (hM : p.taken = M ++ c.live) (hL : p.claimed = L) (hR : p.calm = R)
    (hpc : s₁.pc = s.pc) (hobj : s₁.objs = s.objs)
    (hk : ∀ k T C K, K ≤ T + C → s.takenOn k = T + a.marked.count k →
      s.claimsOn k = C + a.claimed.count k →
      SlotOk (s.slot k).free (T + a.marked.count k) (C + a.claimed.count k) (K + a.calm.count k)
        (s.semcnt k) →
      SlotOk (s₁.slot k).free (T + M.count k) (C + L.count k) (K + R.count k) (s₁.semcnt k)) :
    Inv (s₁.goto t p) := by
  refine h.goto hpc fun k T C K hle hT hC hs => ?_
  have hslots : s₁.objSlots = s.objSlots := by
    unfold objSlots
    rw [hobj]
  rw [hp] at hT hC hs
  rw [hM, hL, hR, hslots]
  simp only [PoolPc.taken, PoolPc.claimed, PoolPc.calm, List.count_append] at hT hC hs ⊢
  have hmove : ∀ x y z w : Nat, x + y + (z + w) = x + y + w + z := by omega
  rw [hmove] at hT hs ⊢
  exact hk k _ C K (by omega) hT hC hs

/-- A step that leaves the slots as they are and what the task owns. -/
theorem Inv.allocSame {c : Caller} {a b : AllocPc} (h : Inv s) (hp : s.pc t = .alloc c a)
    (hM : b.marked = a.marked) (hL : b.claimed = a.claimed) (hR : ∀ k, b.calm.count k ≤ a.calm.count k)
    (hpc : s₁.pc = s.pc) (hobj : s₁.objs = s.objs)
    (hfree : ∀ k, (s₁.slot k).free = (s.slot k).free) (hsem : s₁.sem = s.sem) :
    Inv (s₁.goto t (.alloc c b)) := by
  refine h.alloc (M := b.marked) (L := b.claimed) (R := b.calm) hp rfl rfl rfl hpc hobj ?_
  intro k T C K _ _ _ hs
  have hcnt : s₁.semcnt k = s.semcnt k := by
    unfold semcnt
    rw [hsem]
  rw [hM, hL, hfree, hcnt]
  exact hs.quiet (Nat.add_le_add_left (hR k) K)

omit [DecidableEq τ] in
/-- The semaphore of a slot changes, and nothing else. -/
theorem Inv.setSem {i : Nat} {q : Sem τ} (h : Inv s)
    (hs : SlotOk (s.slot i).free (s.takenOn i) (s.claimsOn i) (s.calmOn i) q.semcnt) :
    Inv (s.setSem i q) := by
  intro k
  by_cases hk : k = i
  · subst hk
    rw [semcnt_setSem_self]
    exact hs
  · rw [semcnt_setSem_of_ne hk]
    exact h k

/-! ### Steps -/

theorem initFrom_bare (cfg : PoolConfig) (i : Nat) : (AllocPc.initFrom cfg i).Bare := by
  unfold AllocPc.initFrom
  split <;> exact ⟨rfl, rfl, rfl⟩

theorem signalFrom_owns (count i n : Nat) : (AllocPc.signalFrom count i n).marked = [] ∧
    (AllocPc.signalFrom count i n).claimed = [i] ∧ (AllocPc.signalFrom count i n).calm = [] := by
  unfold AllocPc.signalFrom
  split <;> exact ⟨rfl, rfl, rfl⟩

theorem releaseAll_owns (l : List Nat) : (PoolPc.releaseAll l).taken = l ∧
    (PoolPc.releaseAll l).claimed = [] ∧ (PoolPc.releaseAll l).calm = [] := by
  cases l <;> exact ⟨rfl, rfl, rfl⟩

theorem count_of_ne {i : Nat} (hk : k ≠ i) : [i].count k = 0 :=
  List.count_eq_zero_of_not_mem (by simpa using hk)

omit [DecidableEq τ] in
theorem claimsOn_pos (hk : k ∈ (s.pc t).claimed) : 0 < s.claimsOn k :=
  total_pos.mpr ⟨t, List.count_pos_iff.mpr hk⟩

omit [DecidableEq τ] in
theorem calmOn_pos (hk : k ∈ (s.pc t).calm) : 0 < s.calmOn k :=
  total_pos.mpr ⟨t, List.count_pos_iff.mpr hk⟩

/-- An allocation has failed with the slot: it is free, and without resources. -/
def GivenUp (out : Option Nat) (s : Pool τ) : Prop :=
  ∀ i, out = some i → (s.slot i).free = true ∧ s.semcnt i = 0

section

variable {c : Caller} {a : AllocPc} {i : Nat}

omit [DecidableEq τ] in
/-- One round of a `sem_drain` that goes on. -/
theorem Inv.drained {q : Sem τ} (h : Inv s) (hpos : 0 < s.semcnt i)
    (hq : q.semcnt = s.semcnt i - 1) : Inv (s.setSem i q) :=
  h.setSem ((h i).setCnt ((h i).count hpos) (by omega))

/-- A task that owns nothing goes on to own nothing. -/
theorem Inv.allocBare {b : AllocPc} (h : Inv s) (hp : s.pc t = .alloc c a) (ha : a.Bare)
    (hb : b.Bare) (hpc : s₁.pc = s.pc) (hobj : s₁.objs = s.objs)
    (hfree : ∀ k, (s₁.slot k).free = (s.slot k).free) (hsem : s₁.sem = s.sem) :
    Inv (s₁.goto t (.alloc c b)) :=
  h.allocSame hp (hb.1.trans ha.1.symm) (hb.2.1.trans ha.2.1.symm)
    (fun k => by rw [hb.2.2]; exact Nat.zero_le _) hpc hobj hfree hsem

/-- There is no free slot. -/
theorem Inv.noneLeft (h : Inv s) (hp : s.pc t = .alloc c (.examine i)) :
    Inv (s.returned t c none) := by
  obtain ⟨p, he, hT, hL, hR⟩ := returned_none t c s
  rw [he]
  exact h.alloc (M := []) hp hT hL hR rfl rfl fun k T C K _ _ _ hs => hs

/-- A task finds a slot free that no other task claims. -/
theorem Inv.claim (h : Inv s) (hp : s.pc t = .alloc c (.examine i))
    (hf : (s.slot i).free = true) (hx : ∀ u, i ∉ (s.pc u).claimed) :
    Inv (s.goto t (.alloc c (.ensure i))) := by
  refine h.alloc (M := []) (L := [i]) (R := [i]) hp rfl rfl rfl rfl rfl ?_
  intro k T C K _ _ hC hs
  by_cases hk : k = i
  · subst hk
    have hz : s.claimsOn k = 0 := total_eq_zero.mpr fun u => List.count_eq_zero_of_not_mem (hx u)
    have hs : SlotOk (s.slot k).free T C K (s.semcnt k) := hs
    rw [List.count_singleton_self]
    exact hs.claim hf (hC.symm.trans hz)
  · simpa [AllocPc.marked, AllocPc.claimed, AllocPc.calm, count_of_ne hk] using hs

/-- It gives the slot up before it has marked it. -/
theorem Inv.giveUp (h : Inv s) (hp : s.pc t = .alloc c a) (hM : a.marked = [])
    (hL : a.claimed = [i]) (hn : s.semcnt i = 0) :
    Inv (s.returned t c none) ∧ GivenUp (some i) (s.returned t c none) := by
  obtain ⟨p, he, hpT, hpL, hpR⟩ := returned_none t c s
  rw [he]
  constructor
  · refine h.alloc (M := []) hp hpT hpL hpR rfl rfl fun k T C K _ _ _ hs => ?_
    rw [hM, hL] at hs
    by_cases hk : k = i
    · subst hk
      rw [hn] at hs ⊢
      exact SlotOk.unclaim (by simpa using hs)
    · rw [count_of_ne hk] at hs
      exact hs.quiet (by simp)
  · rintro _ ⟨⟩
    have hc : i ∈ (s.pc t).claimed := by
      rw [hp]
      show i ∈ a.claimed
      simp [hL]
    exact ⟨(h i).claimed (claimsOn_pos hc), hn⟩

/-- It marks the slot used. -/
theorem Inv.mark (h : Inv s) (hp : s.pc t = .alloc c (.mark i)) :
    Inv ((s.setFree i false).goto t (.alloc c (.malloc i))) := by
  refine h.alloc (M := [i]) (L := []) (R := []) hp rfl rfl rfl rfl rfl ?_
  intro k T C K _ _ _ hs
  show SlotOk _ _ _ _ (s.semcnt k)
  by_cases hk : k = i
  · subst hk
    rw [setFree_self]
    simpa [AllocPc.marked, AllocPc.claimed, AllocPc.calm] using
      SlotOk.mark (by simpa [AllocPc.marked, AllocPc.claimed, AllocPc.calm] using hs)
  · rw [setFree_of_ne hk]
    simpa [AllocPc.marked, AllocPc.claimed, AllocPc.calm, count_of_ne hk] using hs

/-- It hands the semaphore out. -/
theorem Inv.handOut (h : Inv s) (hp : s.pc t = .alloc c (.malloc i)) :
    Inv (s.returned t c (some i)) := by
  obtain ⟨p, objs, he, hL, hR, hT⟩ := returned_some t c i s
  rw [he]
  refine h.goto rfl fun k T C K _ _ _ hs => ?_
  have hsum : (objs.flatMap PoolObj.slots).count k + T + p.taken.count k =
      s.objSlots.count k + T + (s.pc t).taken.count k := by
    have hold : (s.pc t).taken.count k = [i].count k + c.live.count k := by
      rw [hp]
      exact List.count_append
    have := hT k
    omega
  show SlotOk _ ((objs.flatMap PoolObj.slots).count k + T + p.taken.count k) _ _ (s.semcnt k)
  rw [hsum, hL, hR]
  rw [hp] at hs ⊢
  exact hs

/-- Without memory for it, it takes the resources out again. -/
theorem Inv.drainedNull (h : Inv s) (hp : s.pc t = .alloc c (.drainNull i))
    (hn : s.semcnt i = 0) : Inv (s.goto t (.alloc c (.unmark i))) := by
  refine h.alloc (M := [i]) (L := []) (R := [i]) hp rfl rfl rfl rfl rfl ?_
  intro k T C K _ _ _ hs
  by_cases hk : k = i
  · subst hk
    rw [hn] at hs ⊢
    exact hs.zero
  · rw [count_of_ne hk]
    have hs : SlotOk (s.slot k).free (T + [i].count k) C K (s.semcnt k) := hs
    rwa [count_of_ne hk] at hs

/-- It marks the slot free again. -/
theorem Inv.unmark (h : Inv s) (hp : s.pc t = .alloc c (.unmark i)) :
    Inv ((s.setFree i true).returned t c none) ∧
      GivenUp (some i) ((s.setFree i true).returned t c none) := by
  obtain ⟨p, he, hpT, hpL, hpR⟩ := returned_none t c (s.setFree i true)
  have hcalm : i ∈ (s.pc t).calm := by
    rw [hp]
    exact List.mem_singleton_self i
  have hn : s.semcnt i = 0 := (h i).cnt_eq_zero (calmOn_pos hcalm)
  rw [he]
  constructor
  · refine h.alloc (M := []) hp hpT hpL hpR rfl rfl fun k T C K _ _ _ hs => ?_
    show SlotOk _ _ _ _ (s.semcnt k)
    by_cases hk : k = i
    · subst hk
      rw [hn] at hs ⊢
      rw [setFree_self]
      exact SlotOk.unmark (by simpa [AllocPc.marked, AllocPc.claimed] using hs)
    · rw [setFree_of_ne hk]
      exact SlotOk.quiet (by simpa [AllocPc.marked, AllocPc.claimed, count_of_ne hk] using hs)
        (by simp)
  · rintro _ ⟨⟩
    exact ⟨setFree_self i true, hn⟩

/-- `sem_pool_init` makes a slot free that no one has taken. -/
theorem Inv.initFree (h : Inv s) (hp : s.pc t = .alloc c (.initFree i)) (hx : s.takenOn i = 0)
    {b : AllocPc} (hb : b.Bare) : Inv ((s.setFree i true).goto t (.alloc c b)) := by
  refine h.alloc (M := b.marked) (L := b.claimed) (R := b.calm) hp rfl rfl rfl rfl rfl ?_
  intro k T C K _ hT _ hs
  rw [hb.1, hb.2.1, hb.2.2]
  show SlotOk _ _ _ _ (s.semcnt k)
  by_cases hk : k = i
  · subst hk
    rw [setFree_self]
    exact hs.setFree (hT.symm.trans hx)
  · rw [setFree_of_ne hk]
    exact hs

/-- `sig_sem` for a slot that the task claims. -/
theorem Inv.signalled {q : Sem τ} {n : Nat} {b : AllocPc} (h : Inv s)
    (hp : s.pc t = .alloc c (.signal i n)) (hq : s.semcnt i ≤ q.semcnt)
    (hb : b.marked = [] ∧ b.claimed = [i] ∧ b.calm = []) :
    Inv ((s.setSem i q).goto t (.alloc c b)) := by
  refine h.alloc (M := b.marked) (L := b.claimed) (R := b.calm) hp rfl rfl rfl rfl rfl ?_
  intro k T C K hle _ _ hs
  rw [hb.1, hb.2.1, hb.2.2]
  show SlotOk (s.slot k).free _ _ _ _
  by_cases hk : k = i
  · subst hk
    rw [semcnt_setSem_self]
    refine hs.setCnt ?_ (le_trans hs.nonneg hq)
    simp [AllocPc.marked, AllocPc.claimed, AllocPc.calm]
    omega
  · rw [semcnt_setSem_of_ne hk]
    exact hs

/-- `cre_sem` for a slot that the task claims. -/
theorem Inv.createdSem (h : Inv s) (hp : s.pc t = .alloc c (.create i)) :
    Inv ((s.setSem i ⟨0, []⟩).goto t (.alloc c (.created i))) := by
  refine h.alloc (M := []) (L := [i]) (R := [i]) hp rfl rfl rfl rfl rfl ?_
  intro k T C K _ _ _ hs
  show SlotOk (s.slot k).free _ _ _ _
  by_cases hk : k = i
  · subst hk
    rw [semcnt_setSem_self]
    exact hs.zero
  · rw [semcnt_setSem_of_ne hk]
    exact hs

end

/-! ## Runs -/

/-- The next step of a task at that point. It does not find a slot free that another task claims,
and `sem_pool_init` makes no slot free that is taken. -/
def ExclusiveAt (s : Pool τ) : PoolPc → Prop
  | .alloc _ (.examine i) => (s.slot i).free = true → ∀ u, i ∉ (s.pc u).claimed
  | .alloc _ (.initFree i) => i ∉ s.objSlots ∧ ∀ u, i ∉ (s.pc u).taken
  | _ => True

/-- In this step no two owners of a slot meet. -/
def Exclusive (s : Pool τ) : PoolAct τ → Prop
  | .run t _ => ExclusiveAt s (s.pc t)
  | _ => True

theorem Inv.allocStep {cfg : PoolConfig} {c : Caller} {a : AllocPc} {mem : Bool} (h : Inv s)
    (hp : s.pc t = .alloc c a) (hx : Exclusive s (.run t mem)) :
    Inv (s.allocStep cfg t c a mem).1 ∧
      GivenUp (s.allocStep cfg t c a mem).2 (s.allocStep cfg t c a mem).1 := by
  have hgone : ∀ s' : Pool τ, Inv s' → Inv s' ∧ GivenUp none s' :=
    fun s' hs => ⟨hs, by rintro _ ⟨⟩⟩
  have hx : ExclusiveAt s (.alloc c a) := hp ▸ hx
  cases a with
  | init =>
    have hb : (if s.ready then .examine 0 else AllocPc.initFrom cfg 0).Bare := by
      split
      · exact ⟨rfl, rfl, rfl⟩
      · exact initFrom_bare cfg 0
    exact hgone _ (h.allocBare hp ⟨rfl, rfl, rfl⟩ hb rfl rfl (fun _ => rfl) rfl)
  | initCreated i =>
    exact hgone _ (h.allocBare hp ⟨rfl, rfl, rfl⟩ ⟨rfl, rfl, rfl⟩ rfl rfl
      (fun _ => setCreated_free i false) rfl)
  -- by `ExclusiveAt` nobody has taken the slot that is made free
  | initFree i =>
    have htaken : s.takenOn i = 0 := by
      have hpcs : total (fun p => p.taken.count i) s.pc = 0 :=
        total_eq_zero.mpr fun u => List.count_eq_zero_of_not_mem (hx.2 u)
      unfold takenOn
      rw [hpcs, List.count_eq_zero_of_not_mem hx.1]
    exact hgone _ (h.initFree hp htaken (initFrom_bare cfg (i + 1)))
  | initReady =>
    exact hgone _ (h.allocBare hp ⟨rfl, rfl, rfl⟩ ⟨rfl, rfl, rfl⟩ rfl rfl (fun _ => rfl) rfl)
  | examine i =>
    simp only [Pool.allocStep]
    split
    · exact hgone _ (h.noneLeft hp)
    · split
      · next hf => exact hgone _ (h.claim hp hf (hx hf))
      · exact hgone _ (h.allocBare hp ⟨rfl, rfl, rfl⟩ ⟨rfl, rfl, rfl⟩ rfl rfl (fun _ => rfl) rfl)
  | ensure i =>
    refine hgone _ (h.allocSame hp ?_ ?_ (fun k => ?_) rfl rfl (fun _ => rfl) rfl)
    · split <;> rfl
    · split <;> rfl
    · split
      · exact Nat.zero_le _
      · exact le_refl _
  | create i =>
    simp only [Pool.allocStep]
    rcases creSem_cases cfg i s with he | he
    · have hcalm : i ∈ (s.pc t).calm := by
        rw [hp]
        exact List.mem_singleton_self i
      rw [he]
      exact h.giveUp hp rfl rfl ((h i).cnt_eq_zero (calmOn_pos hcalm))
    · rw [he]
      exact hgone _ (h.createdSem hp)
  | created i =>
    exact hgone _ (h.allocSame hp rfl rfl (fun _ => Nat.zero_le _) rfl rfl
      (fun _ => setCreated_free i true) rfl)
  | drain i =>
    obtain ⟨hM, hL, hR⟩ := signalFrom_owns c.count i 0
    simp only [Pool.allocStep]
    rcases polSem_cases i s with ⟨he, -⟩ | ⟨q, he, hpos, hq⟩
    · rw [he]
      exact hgone _ (h.allocSame hp hM hL (fun k => by rw [hR]; exact Nat.zero_le _) rfl rfl
        (fun _ => rfl) rfl)
    · rw [he]
      exact hgone _ (h.drained hpos hq)
  | signal i n =>
    simp only [Pool.allocStep]
    rcases sigSem_cases cfg i s with he | ⟨q, he, hq⟩
    · rw [he]
      exact hgone _ (h.allocSame hp rfl rfl (fun _ => le_refl _) rfl rfl (fun _ => rfl) rfl)
    · rw [he]
      exact hgone _ (h.signalled hp hq (signalFrom_owns c.count i (n + 1)))
  | mark i => exact hgone _ (h.mark hp)
  | malloc i =>
    simp only [Pool.allocStep]
    split
    · exact hgone _ (h.handOut hp)
    · exact hgone _ (h.allocSame hp rfl rfl (fun _ => le_refl _) rfl rfl (fun _ => rfl) rfl)
  | drainFull i =>
    simp only [Pool.allocStep]
    rcases polSem_cases i s with ⟨he, hle⟩ | ⟨q, he, hpos, hq⟩
    · rw [he]
      exact h.giveUp hp rfl rfl (le_antisymm hle (h i).nonneg)
    · rw [he]
      exact hgone _ (h.drained hpos hq)
  | drainNull i =>
    simp only [Pool.allocStep]
    rcases polSem_cases i s with ⟨he, hle⟩ | ⟨q, he, hpos, hq⟩
    · rw [he]
      exact hgone _ (h.drainedNull hp (le_antisymm hle (h i).nonneg))
    · rw [he]
      exact hgone _ (h.drained hpos hq)
  | unmark i => exact h.unmark hp

theorem Inv.releaseStep {i : Nat} {rest : List Nat} {r : ReleasePc} (h : Inv s)
    (hp : s.pc t = .release i rest r) : Inv (s.releaseStep t i rest r) := by
  cases r with
  | drain =>
    simp only [Pool.releaseStep]
    rcases polSem_cases i s with ⟨he, hle⟩ | ⟨q, he, hpos, hq⟩
    · rw [he]
      have hn : s.semcnt i = 0 := le_antisymm hle (h i).nonneg
      refine h.goto rfl fun k T C K _ _ _ hs => ?_
      rw [hp] at hs
      -- the count is 0 now, so the task becomes calm about the slot
      by_cases hk : k = i
      · subst hk
        rw [hn] at hs ⊢
        exact hs.zero
      · simpa [PoolPc.taken, PoolPc.claimed, PoolPc.calm, count_of_ne hk] using hs
    · rw [he]
      exact h.drained hpos hq
  | free =>
    have hcalm : i ∈ (s.pc t).calm := by
      rw [hp]
      exact List.mem_singleton_self i
    have hn : s.semcnt i = 0 := (h i).cnt_eq_zero (calmOn_pos hcalm)
    obtain ⟨hT, hL, hR⟩ := releaseAll_owns rest
    refine h.goto rfl fun k T C K _ _ _ hs => ?_
    rw [hp] at hs
    rw [hT, hL, hR]
    show SlotOk _ (s.objSlots.count k + T + rest.count k) C K (s.semcnt k)
    by_cases hk : k = i
    · subst hk
      rw [hn] at hs ⊢
      rw [setFree_self]
      refine SlotOk.unmark (K := K + 1) (f := (s.slot k).free) ?_
      simpa [PoolPc.taken, PoolPc.claimed, PoolPc.calm, Nat.add_assoc] using hs
    · rw [setFree_of_ne hk]
      have hk' : i ≠ k := Ne.symm hk
      simpa [PoolPc.taken, PoolPc.claimed, PoolPc.calm, hk'] using hs

/-- The application gives an object up. -/
theorem Inv.freeObj {o : PoolObj} (h : Inv s) (hp : s.pc t = .idle) (ho : o ∈ s.objs) :
    Inv ({ s with objs := s.objs.erase o }.goto t (.releaseAll o.slots)) := by
  obtain ⟨hT, hL, hR⟩ := releaseAll_owns o.slots
  refine h.goto rfl fun k T C K _ _ _ hs => ?_
  rw [hp] at hs
  rw [hT, hL, hR]
  -- the slots move from the object to the task that gives it up
  have hperm : (s.objs.flatMap PoolObj.slots).Perm ((o :: s.objs.erase o).flatMap PoolObj.slots) :=
    (List.perm_cons_erase ho).flatMap_right _
  have hcount := hperm.count_eq k
  rw [List.flatMap_cons, List.count_append] at hcount
  have hsum : ((s.objs.erase o).flatMap PoolObj.slots).count k + T + o.slots.count k =
      s.objSlots.count k + T := by
    unfold objSlots
    omega
  show SlotOk _ (((s.objs.erase o).flatMap PoolObj.slots).count k + T + o.slots.count k) C K _
  rw [hsum]
  exact hs

/-- A task begins a call. -/
theorem Inv.begin {c : Caller} (h : Inv s) (hp : s.pc t = .idle) (hc : c.live = []) :
    Inv (s.goto t (.alloc c .init)) := by
  refine h.goto rfl fun k T C K _ _ _ hs => ?_
  rw [hp] at hs
  have htaken : (PoolPc.alloc c .init).taken = [] := hc
  rw [htaken]
  exact hs

theorem step_inv {cfg : PoolConfig} {a : PoolAct τ} {out : Option Nat} (h : Inv s)
    (hx : Exclusive s a) (hs : s.step cfg a = some (s', out)) : Inv s' ∧ GivenUp out s' := by
  have hgone : ∀ s' : Pool τ, Inv s' → Inv s' ∧ GivenUp none s' :=
    fun s' hs => ⟨hs, by rintro _ ⟨⟩⟩
  cases a with
  | semNew t count =>
    obtain ⟨hp, he⟩ := Option.ite_none_right_eq_some.mp hs
    cases he
    exact hgone _ (h.begin hp rfl)
  | mutexNew t =>
    obtain ⟨hp, he⟩ := Option.ite_none_right_eq_some.mp hs
    cases he
    exact hgone _ (h.begin hp rfl)
  | mboxNew t =>
    obtain ⟨hp, he⟩ := Option.ite_none_right_eq_some.mp hs
    cases he
    exact hgone _ (h.begin hp rfl)
  | free t o =>
    obtain ⟨⟨hp, ho⟩, he⟩ := Option.ite_none_right_eq_some.mp hs
    cases he
    exact hgone _ (h.freeObj hp ho)
  | run t mem =>
    cases hp : s.pc t with
    | idle =>
      simp only [Pool.step, hp] at hs
      cases hs
    | alloc c a =>
      simp only [Pool.step, hp, Option.some.injEq] at hs
      have hI : Inv (s.allocStep cfg t c a mem).1 ∧ _ := h.allocStep hp hx
      rw [hs] at hI
      exact hI
    | release i rest r =>
      simp only [Pool.step, hp] at hs
      cases hs
      exact hgone _ (h.releaseStep hp)

/-- A step of the system that meets `C`, and the slot an allocation has failed with. -/
def PoolStep (cfg : PoolConfig) (C : Pool τ → PoolAct τ → Prop) (s : Pool τ)
    (l : PoolAct τ × Option Nat) (s' : Pool τ) : Prop :=
  C s l.1 ∧ s.step cfg l.1 = some (s', l.2)

/-- The runs of the pool, and the slots allocations have failed with. -/
abbrev PoolRun (cfg : PoolConfig) (C : Pool τ → PoolAct τ → Prop) :
    List (Event (Pool τ) (PoolAct τ × Option Nat)) → Pool τ → Prop :=
  Run (· = reset) (PoolStep cfg C)

/-- **No two semaphores that are in use have the same slot, none has a slot that is free, and a slot
an allocation has failed with is free and without resources.** -/
theorem pool_exclusive {cfg : PoolConfig} {tr : List (Event (Pool τ) (PoolAct τ × Option Nat))}
    (h : PoolRun cfg Exclusive tr s) :
    (∀ k, s.liveOn k ≤ 1 ∧ ((s.slot k).free = true → s.liveOn k = 0)) ∧
      ∀ e ∈ tr, GivenUp e.label.2 e.post := by
  have hrun : Inv s ∧ ∀ e ∈ tr, GivenUp e.label.2 e.post := by
    induction h with
    | start hs =>
      subst hs
      exact ⟨.reset, by simp⟩
    | step _ hs ih =>
      obtain ⟨hI, hout⟩ := step_inv ih.1 hs.1 hs.2
      refine ⟨hI, fun e he => ?_⟩
      rcases List.mem_cons.mp he with rfl | he
      · exact hout
      · exact ih.2 e he
  refine ⟨fun k => ?_, hrun.2⟩
  have hle : s.liveOn k ≤ s.takenOn k :=
    Nat.add_le_add_left (Finset.sum_le_sum fun t _ => PoolPc.live_count_le k _) _
  have hexcl := (hrun.1 k).excl
  refine ⟨by omega, fun hf => ?_⟩
  have := (hrun.1 k).free hf
  omega

end

/-! ## Two tasks and one slot -/

/-- One slot, for semaphore 1. -/
def oneSlot : PoolConfig where
  kernel := smallConfig
  lwipSemIdBase := 1
  lwipSemCount := 1

section

variable {τ : Type} [Fintype τ]

instance (s : Pool τ) (p : PoolPc) : Decidable (ExclusiveAt s p) := by
  rcases p with _ | ⟨c, a⟩ | _
  case alloc =>
    cases a with
    | examine i => exact inferInstanceAs (Decidable (_ → _))
    | initFree i => exact inferInstanceAs (Decidable (_ ∧ _))
    | _ => exact .isTrue trivial
  all_goals exact .isTrue trivial

instance (s : Pool τ) (a : PoolAct τ) : Decidable (Exclusive s a) :=
  match a with
  | .run t _ => inferInstanceAs (Decidable (ExclusiveAt s (s.pc t)))
  | .semNew .. | .mutexNew .. | .mboxNew .. | .free .. => .isTrue trivial

end

/-- The steps of the task alone. -/
def runs (t : Bool) (n : Nat) : List (PoolAct Bool) := List.replicate n (.run t true)

/-- A run of given steps. -/
theorem exists_poolRun {C : Pool Bool → PoolAct Bool → Prop} [∀ s a, Decidable (C s a)]
    (acts : List (PoolAct Bool)) (Q : Pool Bool → Prop) [∀ s, Decidable (Q s)]
    (h : ((perform (Pool.step oneSlot) C acts [] reset).map fun x => decide (Q x.2)) = some true) :
    ∃ tr s, PoolRun oneSlot C tr s ∧ Q s := by
  refine exists_perform (f := Pool.step oneSlot) (C := C) (s := reset) ?_ acts (fun _ s => Q s) h
  rfl

/-- A task makes a mutex and gives it up, and the other one makes one. -/
theorem pool_exclusive_mutexes :
    ∃ (tr : List (Event (Pool Bool) (PoolAct Bool × Option Nat))) (s : Pool Bool),
      s.objs = [.mutex 0] ∧
        (∀ k, s.liveOn k ≤ 1 ∧ ((s.slot k).free = true → s.liveOn k = 0)) ∧
          ∀ e ∈ tr, GivenUp e.label.2 e.post := by
  obtain ⟨tr, s, h, hobjs⟩ := exists_poolRun (C := Exclusive)
    ([.mutexNew false] ++ runs false 12 ++ [.free false (.mutex 0)] ++ runs false 3 ++
      [.mutexNew true] ++ runs true 7)
    (fun s => s.objs = [.mutex 0]) (by decide +kernel)
  exact ⟨tr, s, hobjs, pool_exclusive h⟩

/-- Both tasks find the slot free before one of them has marked it. -/
theorem pool_shared : ∃ (tr : List (Event (Pool Bool) (PoolAct Bool × Option Nat))) (s : Pool Bool),
    PoolRun oneSlot (fun _ _ => True) tr s ∧ 1 < s.liveOn 0 :=
  exists_poolRun
    ([.mutexNew false] ++ runs false 9 ++ [.mutexNew true] ++ runs true 7 ++ runs false 3)
    (fun s => 1 < s.liveOn 0) (by decide +kernel)

end Pool

end Ittrium.Net
