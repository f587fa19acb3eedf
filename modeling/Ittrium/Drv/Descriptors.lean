import Ittrium.Drv.VirtioNet

/-!
# The descriptors of the transmit queue

* `Circulates` — each descriptor is free, held, available, with the device, or used
* `Alone` — a task tests the used index only while the other one takes nothing back
* `descriptors_conserved` — **no descriptor is lost, doubled or rewritten in a run of such steps**
* `descriptors_doubled` — in other runs one is
-/

namespace Ittrium.Drv

open Infra

/-! ## What has happened -/

abbrev VTrace := List (Event Vnet (Act × Option Int))

/-- The runs of the tasks and the device, with all steps meeting `C`. -/
abbrev VRun (C : Vnet → Act → Prop) : VTrace → Vnet → Prop :=
  Run Start fun v l v' => C v l.1 ∧ v.step l.1 = some (v', l.2)

/-- What a step does with a descriptor, or with the index of the loop. -/
inductive Effect where
  | publishes (d : Nat)
  | uses (d : Nat)
  | pushes (d : Nat)
  | increments
  | other

def Reclaim.effect : Reclaim → Effect
  | .test => .other
  | .push di => .pushes di
  | .next => .increments

def effect (v : Vnet) : Act → Effect
  | .net =>
    match v.net with
    | .reclaim p _ => p.effect
    | .publish idx _ => .publishes idx
    | _ => .other
  | .drv =>
    match v.drv with
    | .reclaim p => p.effect
    | .idle => .other
  | .use d => .uses d
  | _ => .other

/-- Published and not pushed on the free list since. -/
def outstanding : VTrace → List Nat
  | [] => []
  | e :: tr =>
    match effect e.pre e.label.1 with
    | .publishes d => outstanding tr ++ [d]
    | .pushes d => (outstanding tr).erase d
    | _ => outstanding tr

/-- Published and not used since: the device may read the buffer. -/
def lent : VTrace → List Nat
  | [] => []
  | e :: tr =>
    match effect e.pre e.label.1 with
    | .publishes d => lent tr ++ [d]
    | .uses d => (lent tr).erase d
    | _ => lent tr

/-- How often the device has incremented the used index. -/
def uses : VTrace → Nat
  | [] => 0
  | e :: tr =>
    match effect e.pre e.label.1 with
    | .uses _ => uses tr + 1
    | _ => uses tr

/-- How often the tasks have incremented `tx_last_used`. -/
def increments : VTrace → Nat
  | [] => 0
  | e :: tr =>
    match effect e.pre e.label.1 with
    | .increments => increments tr + 1
    | _ => increments tr

/-- `tx_free_list[0..tx_free_count-1]`. -/
def freed (q : TxQueue) : List Nat := (List.range q.txFreeCount).map q.txFreeList

/-- The descriptor `vnet_tx` has taken and not published yet. -/
def held (v : Vnet) : List Nat :=
  match v.net with
  | .fill idx _ | .publish idx _ => [idx]
  | _ => []

/-! ## The queue alone -/

/-- What the device has not read of the available ring: `f` of `p` descriptors have been read. -/
def available (f p : Nat) (q : TxQueue) : List Nat := window q.availRing queueSize f (p - f)

/-- What has not been taken back of the used ring: `k` of `u` descriptors have been taken. -/
def usedUp (k u : Nat) (q : TxQueue) : List Nat := window q.usedRing queueSize k (u - k)

def places (f p k u : Nat) (held : List Nat) (q : TxQueue) : List Nat :=
  freed q ++ held ++ available f p q ++ q.flight ++ usedUp k u q

/-- **Each descriptor is at one place**, and the indices count what has been done. -/
structure Circulates (f p k u : Nat) (held : List Nat) (q : TxQueue) : Prop where
  seen : q.seen = BitVec.ofNat 16 f
  availIdx : q.availIdx = BitVec.ofNat 16 p
  usedIdx : q.usedIdx = BitVec.ofNat 16 u
  fetched : f ≤ p
  taken : k ≤ u
  perm : (places f p k u held q).Perm (List.range queueSize)

variable {f p k u r idx d di : Nat} {h : List Nat} {q q' : TxQueue} {v v' : Vnet} {tr : VTrace}
  {data : List UInt8} {a : Act} {res : Option Int}

theorem slot_ofNat (n : Nat) : slot (BitVec.ofNat 16 n) = (n : Int) % queueSize := by
  unfold slot
  rw [BitVec.toNat_ofNat, Nat.mod_mod_of_dvd _ (by decide)]
  exact Int.natCast_emod n queueSize

theorem ofNat_add_one (n : Nat) : BitVec.ofNat 16 n + 1 = BitVec.ofNat 16 (n + 1) := by
  rw [BitVec.ofNat_add]
  rfl

/-- Indices that are less than `2 ^ 16` apart can be told from their last 16 bits. -/
theorem ofNat_inj {m n : Nat} (hmn : m ≤ n) (hn : n < m + 2 ^ 16) :
    BitVec.ofNat 16 m = BitVec.ofNat 16 n ↔ m = n := by
  constructor
  · intro he
    have hv := congrArg BitVec.toNat he
    rw [BitVec.toNat_ofNat, BitVec.toNat_ofNat] at hv
    omega
  · exact fun he => he ▸ rfl

theorem length_freed (q : TxQueue) : (freed q).length = q.txFreeCount := by simp [freed]

theorem length_available (f p : Nat) (q : TxQueue) : (available f p q).length = p - f :=
  length_window ..

theorem length_usedUp (k u : Nat) (q : TxQueue) : (usedUp k u q).length = u - k :=
  length_window ..

theorem Circulates.count (hc : Circulates f p k u h q) (d : Nat) :
    (freed q).count d + h.count d + (available f p q).count d + q.flight.count d +
      (usedUp k u q).count d = if d < queueSize then 1 else 0 := by
  have hp := hc.perm.count_eq d
  rw [List.nodup_range.count] at hp
  simpa only [places, List.count_append, List.mem_range] using hp

theorem Circulates.length (hc : Circulates f p k u h q) :
    q.txFreeCount + h.length + (p - f) + q.flight.length + (u - k) = queueSize := by
  have hl := hc.perm.length_eq
  simpa only [places, List.length_append, length_freed, length_available, length_usedUp,
    List.length_range] using hl

/-- The descriptors move from place to place. -/
theorem Circulates.move {f' p' k' u' : Nat} {h' : List Nat} (hc : Circulates f p k u h q)
    (hseen : q'.seen = BitVec.ofNat 16 f') (havail : q'.availIdx = BitVec.ofNat 16 p')
    (hused : q'.usedIdx = BitVec.ofNat 16 u') (hf : f' ≤ p') (hk : k' ≤ u')
    (hcount : ∀ d, (freed q').count d + h'.count d + (available f' p' q').count d +
      q'.flight.count d + (usedUp k' u' q').count d =
      (freed q).count d + h.count d + (available f p q).count d + q.flight.count d +
        (usedUp k u q).count d) : Circulates f' p' k' u' h' q' := by
  refine ⟨hseen, havail, hused, hf, hk, List.perm_iff_count.mpr fun d => ?_⟩
  rw [List.nodup_range.count]
  simpa only [places, List.count_append, List.mem_range, hc.count d] using hcount d

/-! ### Taking back -/

theorem freed_push (di : Nat) (hlt : q.txFreeCount < queueSize) :
    freed (q.push di) = freed q ++ [di % 2 ^ 8] := by
  unfold freed TxQueue.push
  rw [if_pos hlt]
  simp only [List.range_succ, List.map_append, List.map_cons, List.map_nil, Function.update_self]
  congr 1
  refine List.map_congr_left fun i hi => ?_
  rw [List.mem_range] at hi
  exact Function.update_of_ne (by omega) _ _

/-- A push writes nothing but the free list. -/
theorem push_same (di : Nat) (q : TxQueue) : (q.push di).availRing = q.availRing ∧
    (q.push di).flight = q.flight ∧ (q.push di).usedRing = q.usedRing ∧
    (q.push di).seen = q.seen ∧ (q.push di).availIdx = q.availIdx ∧
    (q.push di).usedIdx = q.usedIdx ∧ (q.push di).txLastUsed = q.txLastUsed := by
  unfold TxQueue.push
  split <;> exact ⟨rfl, rfl, rfl, rfl, rfl, rfl, rfl⟩

theorem usedUp_cons (hk : k < u) (q : TxQueue) :
    usedUp k u q = q.usedRing ((k : Int) % queueSize) :: usedUp (k + 1) u q := by
  unfold usedUp
  rw [show u - k = u - (k + 1) + 1 by omega, window_cons]
  push_cast
  rfl

/-- The first used descriptor, `d`, goes to the free list. -/
theorem Circulates.push (hc : Circulates f p k u h q) (hd : usedUp k u q = d :: usedUp (k + 1) u q)
    (hk : k < u) : d % 2 ^ 16 = d ∧ Circulates f p (k + 1) u h (q.push (d % 2 ^ 16)) ∧
      usedUp (k + 1) u (q.push (d % 2 ^ 16)) = usedUp (k + 1) u q := by
  have hcount := hc.count d
  have hlen := hc.length
  have hlt : d < queueSize := by
    rw [hd, List.count_cons_self] at hcount
    split at hcount
    · assumption
    · omega
  have hcast : d % 2 ^ 16 = d ∧ d % 2 ^ 8 = d := by
    unfold queueSize at hlt
    omega
  have hpush := freed_push (q := q) d (by omega)
  obtain ⟨h₁, h₂, h₃, h₄, h₅, h₆, -⟩ := push_same d q
  have hback : usedUp (k + 1) u (q.push d) = usedUp (k + 1) u q := by
    unfold usedUp
    rw [h₃]
  rw [hcast.2] at hpush
  rw [hcast.1]
  refine ⟨rfl, hc.move (h₄.trans hc.seen) (h₅.trans hc.availIdx) (h₆.trans hc.usedIdx)
    hc.fetched hk fun x => ?_, hback⟩
  have hav : available f p (q.push d) = available f p q := by
    unfold available
    rw [h₁]
  rw [hpush, hav, hback, h₂, hd, List.count_append, List.count_cons, List.count_cons]
  simp only [List.count_nil]
  omega

/-! ### Sending -/

theorem freed_pop (hpos : q.txFreeCount ≠ 0) : freed q = freed q.pop.2 ++ [q.pop.1] := by
  obtain ⟨n, hn⟩ := Nat.exists_eq_succ_of_ne_zero hpos
  unfold freed TxQueue.pop
  rw [hn]
  simp [List.range_succ]

/-- A free descriptor is taken. -/
theorem Circulates.pop (hc : Circulates f p k u [] q) (hpos : q.txFreeCount ≠ 0) :
    Circulates f p k u [q.pop.1] q.pop.2 := by
  refine hc.move hc.seen hc.availIdx hc.usedIdx hc.fetched hc.taken fun d => ?_
  rw [freed_pop hpos, List.count_append]
  rfl

theorem available_publish (hc : Circulates f p k u [idx] q) :
    available f (p + 1) (q.publish idx) = available f p q ++ [idx] := by
  have hlen := hc.length
  have hf := hc.fetched
  have hlt : ((p - f : Nat) : Int) < (queueSize : Nat) := by
    rw [List.length_singleton] at hlen
    omega
  have hp : ((f : Int) + (p - f : Nat)) = p := by omega
  unfold available
  rw [show p + 1 - f = p - f + 1 by omega, ← window_push idx hlt, hp]
  unfold TxQueue.publish
  simp only [hc.availIdx, slot_ofNat]

/-- The descriptor that is held is made available. -/
theorem Circulates.publish (hc : Circulates f p k u [idx] q) :
    Circulates f (p + 1) k u [] (q.publish idx) := by
  have hf := hc.fetched
  refine hc.move hc.seen ?_ hc.usedIdx (by omega) hc.taken fun d => ?_
  · rw [← ofNat_add_one, ← hc.availIdx]
    rfl
  · have hsame : freed (q.publish idx) = freed q ∧ (q.publish idx).flight = q.flight ∧
        usedUp k u (q.publish idx) = usedUp k u q := ⟨rfl, rfl, rfl⟩
    rw [available_publish hc, hsame.1, hsame.2.1, hsame.2.2, List.count_append]
    simp only [List.count_nil]
    omega

/-! ### The device -/

/-- The device reads the ring. -/
theorem Circulates.fetch (hc : Circulates f p k u h q) (hq : q.fetch = some q') :
    ∃ d, available f p q = d :: available (f + 1) p q' ∧ q'.flight = q.flight ++ [d] ∧
      Circulates (f + 1) p k u h q' := by
  unfold TxQueue.fetch at hq
  split at hq
  · next hne =>
    obtain rfl := Option.some.inj hq
    have hlt : f < p := by
      rw [hc.seen, hc.availIdx] at hne
      by_contra hge
      have hf := hc.fetched
      exact hne (congrArg _ (by omega))
    have hcons : available f p q =
        q.availRing ((f : Int) % queueSize) :: available (f + 1) p q := by
      unfold available
      rw [show p - f = p - (f + 1) + 1 by omega, window_cons]
      push_cast
      rfl
    rw [hc.seen, slot_ofNat]
    refine ⟨_, hcons, rfl, hc.move ?_ hc.availIdx hc.usedIdx hlt hc.taken fun d => ?_⟩
    · exact ofNat_add_one f
    · rw [hcons, List.count_cons, List.count_append, List.count_singleton]
      show (freed q).count d + _ + (available (f + 1) p q).count d + _ + (usedUp k u q).count d = _
      omega
  · cases hq

theorem fetch_same (hq : q.fetch = some q') : q'.usedRing = q.usedRing ∧
    q'.txLastUsed = q.txLastUsed ∧ q'.txBuf = q.txBuf ∧ q'.txDesc = q.txDesc := by
  unfold TxQueue.fetch at hq
  split at hq
  · obtain rfl := Option.some.inj hq
    exact ⟨rfl, rfl, rfl, rfl⟩
  · cases hq

theorem use_same (hq : q.use d = some q') : q'.availRing = q.availRing ∧
    q'.txLastUsed = q.txLastUsed ∧ q'.txBuf = q.txBuf ∧ q'.txDesc = q.txDesc := by
  unfold TxQueue.use at hq
  split at hq
  · obtain rfl := Option.some.inj hq
    exact ⟨rfl, rfl, rfl, rfl⟩
  · cases hq

/-- The device is done with a descriptor. -/
theorem Circulates.use (hc : Circulates f p k u h q) (hq : q.use d = some q') :
    d ∈ q.flight ∧ q'.flight = q.flight.erase d ∧ usedUp k (u + 1) q' = usedUp k u q ++ [d] ∧
      Circulates f p k (u + 1) h q' := by
  unfold TxQueue.use at hq
  split at hq
  · next hmem =>
    obtain rfl := Option.some.inj hq
    have hlen := hc.length
    have hk := hc.taken
    have hpos := List.length_pos_of_mem hmem
    have hlt : ((u - k : Nat) : Int) < (queueSize : Nat) := by omega
    have hu : ((k : Int) + (u - k : Nat)) = u := by omega
    rw [hc.usedIdx, slot_ofNat, ofNat_add_one]
    have hused : window (Function.update q.usedRing (((k : Int) + (u - k : Nat)) % queueSize) d)
        queueSize k (u - k + 1) = window q.usedRing queueSize k (u - k) ++ [d] := window_push d hlt
    rw [hu, show u - k + 1 = u + 1 - k by omega] at hused
    refine ⟨hmem, rfl, hused, hc.move hc.seen hc.availIdx rfl hc.fetched (by omega) fun x => ?_⟩
    have hfl := (List.perm_cons_erase hmem).count_eq x
    rw [List.count_cons] at hfl
    show (freed q).count x + _ + _ + (q.flight.erase d).count x +
      (window (Function.update q.usedRing _ d) queueSize k (u + 1 - k)).count x = _
    rw [hused, List.count_append, List.count_singleton]
    show _ + _ + (available f p q).count x + _ + ((usedUp k u q).count x + _) = _
    omega
  · cases hq

/-! ## The tasks -/

/-- The loop is past its test. -/
def Reclaim.mid : Reclaim → List Reclaim
  | .test => []
  | p => [p]

def NetPc.mid : NetPc → List Reclaim
  | .reclaim p _ => p.mid
  | _ => []

def DrvPc.mid : DrvPc → List Reclaim
  | .reclaim p => p.mid
  | .idle => []

def NetPc.tests : NetPc → Bool
  | .reclaim .test _ => true
  | _ => false

def DrvPc.tests : DrvPc → Bool
  | .reclaim .test => true
  | _ => false

/-- A task tests the used index only while the other one takes nothing back. -/
def Alone (v : Vnet) : Act → Prop
  | .net => v.net.tests = true → v.drv.mid = []
  | .drv => v.drv.tests = true → v.net.mid = []
  | _ => True

instance (v : Vnet) : ∀ a, Decidable (Alone v a)
  | .net => inferInstanceAs (Decidable (_ → _))
  | .drv => inferInstanceAs (Decidable (_ → _))
  | .vnetTx _ | .vnetProcess | .fetch | .use _ => instDecidableTrue

/-- How far the loop has come which is past its test: `r` increments, `k` pushes, `u` used. -/
inductive Stage (r k u : Nat) (q : TxQueue) : List Reclaim → Prop where
  | outside : r = k → Stage r k u q []
  | read {d : Nat} : r = k → k < u → usedUp k u q = d :: usedUp (k + 1) u q →
      Stage r k u q [.push (d % 2 ^ 16)]
  | pushed : r + 1 = k → Stage r k u q [.next]

/-- The state against its past. -/
structure VnetInv (tr : VTrace) (v : Vnet) (f p k : Nat) : Prop where
  circulates : Circulates f p k (uses tr) (held v) v.q
  txLastUsed : v.q.txLastUsed = BitVec.ofNat 16 (increments tr)
  stage : Stage (increments tr) k (uses tr) v.q (v.net.mid ++ v.drv.mid)
  count_lent : ∀ d, (lent tr).count d = (available f p v.q).count d + v.q.flight.count d
  count_outstanding : ∀ d, (outstanding tr).count d =
    (lent tr).count d + (usedUp k (uses tr) v.q).count d

/-- One step of the loop. -/
theorem reclaimStep_spec {p₁ : Reclaim} (hc : Circulates f p k u h q)
    (hlast : q.txLastUsed = BitVec.ofNat 16 r) (hs : Stage r k u q p₁.mid) :
    ∃ r' k', (reclaimStep p₁ q).2.txLastUsed = BitVec.ofNat 16 r' ∧
      Circulates f p k' u h (reclaimStep p₁ q).2 ∧
      Stage r' k' u (reclaimStep p₁ q).2 (((reclaimStep p₁ q).1.map Reclaim.mid).getD []) ∧
      available f p (reclaimStep p₁ q).2 = available f p q ∧
      (reclaimStep p₁ q).2.flight = q.flight ∧
      match p₁.effect with
      | .pushes d => r' = r ∧ usedUp k u q = d :: usedUp k' u (reclaimStep p₁ q).2
      | .increments => r' = r + 1 ∧ usedUp k' u (reclaimStep p₁ q).2 = usedUp k u q
      | _ => r' = r ∧ usedUp k' u (reclaimStep p₁ q).2 = usedUp k u q := by
  cases p₁ with
  | test =>
    cases hs with
    | outside hrk =>
      have hlen := hc.length
      have hk := hc.taken
      refine ⟨r, k, ?_⟩
      unfold reclaimStep
      dsimp only
      split
      · next hne =>
        have hlt : k < u := by
          rw [hlast, hc.usedIdx, hrk] at hne
          by_contra hge
          exact hne (congrArg _ (by omega))
        refine ⟨hlast, hc, ?_, rfl, rfl, rfl, rfl⟩
        rw [hlast, slot_ofNat, hrk]
        exact .read rfl hlt (usedUp_cons hlt q)
      · exact ⟨hlast, hc, .outside hrk, rfl, rfl, rfl, rfl⟩
  | push di =>
    cases hs with
    | @read d hrk hk hd =>
      obtain ⟨hcast, hc', hback⟩ := hc.push hd hk
      obtain ⟨h₁, h₂, -, -, -, -, h₇⟩ := push_same (d % 2 ^ 16) q
      refine ⟨r, k + 1, h₇.trans hlast, hc', .pushed (by omega), ?_, h₂, rfl, ?_⟩
      · show available f p (q.push (d % 2 ^ 16)) = _
        unfold available
        rw [h₁]
      · show usedUp k u q = d % 2 ^ 16 :: usedUp (k + 1) u (q.push (d % 2 ^ 16))
        rw [hback, hcast]
        exact hd
  | next =>
    cases hs with
    | pushed hrk =>
      refine ⟨r + 1, k, ?_, ⟨hc.seen, hc.availIdx, hc.usedIdx, hc.fetched, hc.taken, hc.perm⟩,
        .outside hrk, rfl, rfl, rfl, rfl⟩
      show q.txLastUsed + 1 = _
      rw [hlast, ofNat_add_one]

theorem Stage.le {l : List Reclaim} (hs : Stage r k u q l) : r ≤ k := by
  cases hs <;> omega

theorem Stage.eq_nil {p₁ : Reclaim} {l : List Reclaim} (hs : Stage r k u q (p₁ :: l)) : l = [] := by
  cases hs <;> rfl

theorem Stage.swap {l₁ l₂ : List Reclaim} (hs : Stage r k u q (l₁ ++ l₂)) :
    Stage r k u q (l₂ ++ l₁) := by
  cases l₁ with
  | nil => simpa using hs
  | cons x l₁ =>
    have hnil := hs.eq_nil
    obtain ⟨rfl, rfl⟩ := List.append_eq_nil_iff.mp hnil
    exact hs

theorem Stage.congr {l : List Reclaim} (hs : Stage r k u q l) (hus : q'.usedRing = q.usedRing) :
    Stage r k u q' l := by
  cases hs with
  | outside hr => exact .outside hr
  | read hr hk hd =>
    refine .read hr hk ?_
    unfold usedUp at hd ⊢
    rw [hus]
    exact hd
  | pushed hr => exact .pushed hr

/-- The device adds to the used ring. -/
theorem Stage.used {l : List Reclaim} (hs : Stage r k u q l)
    (hback : usedUp k (u + 1) q' = usedUp k u q ++ [d]) : Stage r k (u + 1) q' l := by
  cases hs with
  | outside hr => exact .outside hr
  | @read x hr hk hx =>
    refine .read hr (by omega) ?_
    have hcons := usedUp_cons (show k < u + 1 by omega) q'
    rw [hcons, hx] at hback
    rw [hcons, (List.cons.inj hback).1]
  | pushed hr => exact .pushed hr

/-- If one task is in the loop, the other one is not past its test. -/
theorem Stage.alone {p₁ : Reclaim} {l : List Reclaim} (hs : Stage r k u q (p₁.mid ++ l))
    (ht : p₁ = .test → l = []) : l = [] := by
  cases p₁ with
  | test => exact ht rfl
  | push di => exact hs.eq_nil
  | next => exact hs.eq_nil

/-- A step of the loop, by the task that is in it. -/
theorem VnetInv.reclaim {p₁ : Reclaim} (hi : VnetInv tr v f p k) (v' : Vnet)
    (hmid : v.net.mid ++ v.drv.mid = p₁.mid) (heff : effect v a = p₁.effect)
    (hq : v'.q = (reclaimStep p₁ v.q).2) (hheld : held v' = held v)
    (hmid' : v'.net.mid ++ v'.drv.mid = ((reclaimStep p₁ v.q).1.map Reclaim.mid).getD []) :
    ∃ k', VnetInv (⟨v, (a, res), v'⟩ :: tr) v' f p k' := by
  obtain ⟨r', k', hlast, hc, hs, hav, hfl, heffect⟩ :=
    reclaimStep_spec hi.circulates hi.txLastUsed (hmid ▸ hi.stage)
  rw [← hq] at hlast hc hs hav hfl heffect
  rw [← hmid'] at hs
  have hlent : ∀ d, (lent tr).count d = (available f p v'.q).count d + v'.q.flight.count d := by
    rw [hav, hfl]
    exact hi.count_lent
  refine ⟨k', ?_⟩
  cases p₁ with
  | test =>
    obtain ⟨rfl, hback⟩ := heffect
    have heff : effect v a = .other := heff
    refine ⟨?_, ?_, ?_, ?_, ?_⟩ <;>
      simp only [uses, increments, lent, outstanding, heff, hheld]
    · exact hc
    · exact hlast
    · exact hs
    · exact hlent
    · rw [hback]
      exact hi.count_outstanding
  | push di =>
    obtain ⟨rfl, hback⟩ := heffect
    have heff : effect v a = .pushes di := heff
    have hmem : di ∈ outstanding tr := by
      rw [← List.count_pos_iff, hi.count_outstanding, hback, List.count_cons_self]
      omega
    refine ⟨?_, ?_, ?_, ?_, ?_⟩ <;>
      simp only [uses, increments, lent, outstanding, heff, hheld]
    · exact hc
    · exact hlast
    · exact hs
    · exact hlent
    · intro d
      have hout := hi.count_outstanding d
      have herase := (List.perm_cons_erase hmem).count_eq d
      rw [hback, List.count_cons] at hout
      rw [List.count_cons] at herase
      omega
  | next =>
    obtain ⟨rfl, hback⟩ := heffect
    have heff : effect v a = .increments := heff
    refine ⟨?_, ?_, ?_, ?_, ?_⟩ <;>
      simp only [uses, increments, lent, outstanding, heff, hheld]
    · exact hc
    · exact hlast
    · exact hs
    · exact hlent
    · rw [hback]
      exact hi.count_outstanding

/-- A step that is no step of the loop and moves nothing. -/
theorem VnetInv.still (hi : VnetInv tr v f p k) (heff : effect v a = .other)
    (hc : Circulates f p k (uses tr) (held v') v'.q) (hlast : v'.q.txLastUsed = v.q.txLastUsed)
    (hav : v'.q.availRing = v.q.availRing) (hfl : v'.q.flight = v.q.flight)
    (hus : v'.q.usedRing = v.q.usedRing)
    (hmid : v'.net.mid ++ v'.drv.mid = v.net.mid ++ v.drv.mid) :
    VnetInv (⟨v, (a, res), v'⟩ :: tr) v' f p k := by
  have hback : usedUp k (uses tr) v'.q = usedUp k (uses tr) v.q := by
    unfold usedUp
    rw [hus]
  refine ⟨?_, ?_, ?_, ?_, ?_⟩ <;> simp only [uses, increments, lent, outstanding, heff]
  · exact hc
  · rw [hlast]
    exact hi.txLastUsed
  · rw [hmid]
    exact hi.stage.congr hus
  · unfold available
    rw [hav, hfl]
    exact hi.count_lent
  · rw [hback]
    exact hi.count_outstanding

theorem VnetInv.net_step (hi : VnetInv tr v f p k) (ha : Alone v .net)
    (hs : netStep v = some (v', res)) :
    ∃ f' p' k', VnetInv (⟨v, (.net, res), v'⟩ :: tr) v' f' p' k' := by
  have hc := hi.circulates
  unfold held at hc
  unfold netStep at hs
  cases hnet : v.net with
  | idle =>
    rw [hnet] at hs
    cases hs
  | reclaim p₁ data =>
    have hst := hi.stage
    rw [hnet] at hst
    -- only one of the two tasks is inside the loop
    have hdrv : v.drv.mid = [] := hst.alone fun ht => ha (by rw [hnet, ht]; rfl)
    have hmid : v.net.mid ++ v.drv.mid = p₁.mid := by
      rw [hdrv, hnet, List.append_nil]
      rfl
    have heff : effect v .net = p₁.effect := by
      unfold effect
      simp only [hnet]
    rw [hnet] at hs
    dsimp only at hs
    split at hs
    · next p₂ hp₂ =>
      cases hs
      obtain ⟨k', hk'⟩ := hi.reclaim
        { v with q := (reclaimStep p₁ v.q).2, net := .reclaim p₂ data } hmid heff rfl
        (by unfold held; rw [hnet]) (by
          rw [hp₂]
          show p₂.mid ++ v.drv.mid = p₂.mid
          rw [hdrv, List.append_nil])
      exact ⟨f, p, k', hk'⟩
    · next hp₂ =>
      cases hs
      obtain ⟨k', hk'⟩ := hi.reclaim
        { v with q := (reclaimStep p₁ v.q).2, net := .pop data } hmid heff rfl
        (by unfold held; rw [hnet]) (by
          rw [hp₂]
          exact hdrv)
      exact ⟨f, p, k', hk'⟩
  | pop data =>
    rw [hnet] at hs hc
    have heff : effect v .net = .other := by
      unfold effect
      simp only [hnet]
    dsimp only at hs
    split at hs
    · cases hs
      exact ⟨f, p, k, hi.still heff hc rfl rfl rfl rfl (by rw [hnet]; rfl)⟩
    · next hpos =>
      cases hs
      exact ⟨f, p, k, hi.still heff (hc.pop hpos) rfl rfl rfl rfl (by rw [hnet]; rfl)⟩
  | fill idx data =>
    rw [hnet] at hs hc
    have heff : effect v .net = .other := by
      unfold effect
      simp only [hnet]
    cases hs
    refine ⟨f, p, k, hi.still heff ?_ rfl rfl rfl rfl (by rw [hnet]; rfl)⟩
    exact ⟨hc.seen, hc.availIdx, hc.usedIdx, hc.fetched, hc.taken, hc.perm⟩
  | publish idx len =>
    rw [hnet] at hs hc
    have heff : effect v .net = .publishes idx := by
      unfold effect
      simp only [hnet]
    cases hs
    have hst := hi.stage
    rw [hnet] at hst
    -- the descriptor goes from the task to the device
    have hcount : ∀ d, (lent tr ++ [idx]).count d =
        (available f (p + 1) (v.q.publish idx)).count d + v.q.flight.count d := by
      intro d
      rw [available_publish hc, List.count_append, List.count_append, hi.count_lent d]
      omega
    refine ⟨f, p + 1, k, ?_, ?_, ?_, ?_, ?_⟩ <;>
      simp only [uses, increments, lent, outstanding, heff]
    · exact hc.publish
    · exact hi.txLastUsed
    · exact hst.congr rfl
    · exact hcount
    · intro d
      rw [List.count_append, List.count_append, hi.count_outstanding d]
      show _ = _ + (usedUp k (uses tr) v.q).count d
      omega

theorem VnetInv.drv_step (hi : VnetInv tr v f p k) (ha : Alone v .drv)
    (hs : drvStep v = some v') :
    ∃ f' p' k', VnetInv (⟨v, (.drv, res), v'⟩ :: tr) v' f' p' k' := by
  unfold drvStep at hs
  cases hdrv : v.drv with
  | idle =>
    rw [hdrv] at hs
    cases hs
  | reclaim p₁ =>
    have hst := hi.stage.swap
    rw [hdrv] at hst
    have hnet : v.net.mid = [] := hst.alone fun ht => ha (by rw [hdrv, ht]; rfl)
    have hmid : v.net.mid ++ v.drv.mid = p₁.mid := by
      rw [hnet, hdrv]
      rfl
    have heff : effect v .drv = p₁.effect := by
      unfold effect
      simp only [hdrv]
    rw [hdrv] at hs
    dsimp only at hs
    split at hs
    · next p₂ hp₂ =>
      cases hs
      obtain ⟨k', hk'⟩ := hi.reclaim
        { v with q := (reclaimStep p₁ v.q).2, drv := .reclaim p₂ } hmid heff rfl rfl (by
          rw [hp₂]
          show v.net.mid ++ p₂.mid = p₂.mid
          rw [hnet, List.nil_append])
      exact ⟨f, p, k', hk'⟩
    · next hp₂ =>
      cases hs
      obtain ⟨k', hk'⟩ := hi.reclaim
        { v with q := (reclaimStep p₁ v.q).2, drv := .idle } hmid heff rfl rfl (by
          rw [hp₂]
          show v.net.mid ++ [] = []
          rw [hnet]
          rfl)
      exact ⟨f, p, k', hk'⟩

theorem VnetInv.fetch_step (hi : VnetInv tr v f p k) (hq : v.q.fetch = some q') :
    VnetInv (⟨v, (.fetch, res), { v with q := q' }⟩ :: tr) { v with q := q' } (f + 1) p k := by
  obtain ⟨d, hav, hfl, hc⟩ := hi.circulates.fetch hq
  have hsame := fetch_same hq
  have heff : effect v .fetch = .other := rfl
  refine ⟨?_, ?_, ?_, fun x => ?_, fun x => ?_⟩ <;>
    simp only [uses, increments, lent, outstanding, heff]
  · exact hc
  · exact hsame.2.1.trans hi.txLastUsed
  · exact hi.stage.congr hsame.1
  · have hx := hi.count_lent x
    rw [hav, List.count_cons] at hx
    rw [hfl, List.count_append, List.count_singleton]
    omega
  · unfold usedUp
    rw [hsame.1]
    exact hi.count_outstanding x

theorem VnetInv.use_step (hi : VnetInv tr v f p k) (hq : v.q.use d = some q') :
    VnetInv (⟨v, (.use d, res), { v with q := q' }⟩ :: tr) { v with q := q' } f p k := by
  obtain ⟨hmem, hfl, hback, hc⟩ := hi.circulates.use hq
  have hsame := use_same hq
  have heff : effect v (.use d) = .uses d := rfl
  have hlent : d ∈ lent tr := by
    rw [← List.count_pos_iff, hi.count_lent]
    have := List.count_pos_iff.mpr hmem
    omega
  refine ⟨?_, ?_, ?_, fun x => ?_, fun x => ?_⟩ <;>
    simp only [uses, increments, lent, outstanding, heff]
  · exact hc
  · exact hsame.2.1.trans hi.txLastUsed
  · exact hi.stage.used hback
  · have hx := hi.count_lent x
    have h₁ := (List.perm_cons_erase hmem).count_eq x
    have h₂ := (List.perm_cons_erase hlent).count_eq x
    rw [List.count_cons] at h₁ h₂
    have hav : available f p q' = available f p v.q := by
      unfold available
      rw [hsame.1]
    rw [hav, hfl]
    omega
  · have hx := hi.count_outstanding x
    have h₂ := (List.perm_cons_erase hlent).count_eq x
    rw [List.count_cons] at h₂
    rw [hback, List.count_append, List.count_singleton]
    omega

/-- **Every step keeps the descriptors.** -/
theorem VnetInv.step (hi : VnetInv tr v f p k) (ha : Alone v a) (hs : v.step a = some (v', res)) :
    ∃ f' p' k', VnetInv (⟨v, (a, res), v'⟩ :: tr) v' f' p' k' := by
  cases a with
  | vnetTx data =>
    simp only [Vnet.step] at hs
    split at hs
    · next data hnet =>
      split at hs
      · cases hs
        exact ⟨f, p, k, hi.still rfl hi.circulates rfl rfl rfl rfl rfl⟩
      · cases hs
        have hc := hi.circulates
        unfold held at hc
        rw [hnet] at hc
        exact ⟨f, p, k, hi.still rfl hc rfl rfl rfl rfl (by rw [hnet]; rfl)⟩
    · cases hs
      exact ⟨f, p, k, hi.still rfl hi.circulates rfl rfl rfl rfl rfl⟩
    · cases hs
  | vnetProcess =>
    simp only [Vnet.step] at hs
    split at hs
    · next hdrv =>
      cases hs
      exact ⟨f, p, k, hi.still rfl hi.circulates rfl rfl rfl rfl (by rw [hdrv]; rfl)⟩
    · cases hs
  | net => exact hi.net_step ha hs
  | drv =>
    obtain ⟨w, hw, he⟩ := Option.map_eq_some_iff.mp hs
    cases he
    exact hi.drv_step ha hw
  | fetch =>
    obtain ⟨q', hq, he⟩ := Option.map_eq_some_iff.mp hs
    cases he
    exact ⟨f + 1, p, k, hi.fetch_step hq⟩
  | use d =>
    obtain ⟨q', hq, he⟩ := Option.map_eq_some_iff.mp hs
    cases he
    exact ⟨f, p, k, hi.use_step hq⟩

/-! ## Runs -/

theorem Start.inv (h : Start v) : VnetInv [] v 0 0 0 := by
  have hfree : freed v.q = List.range queueSize := by
    unfold freed
    rw [h.txFreeCount]
    refine (List.map_congr_left fun i hi => ?_).trans (List.map_id _)
    have hlt := List.mem_range.mp hi
    rw [h.txFreeList i hlt]
    unfold queueSize at hlt
    show i % 2 ^ 8 = i
    omega
  have hheld : held v = [] := by
    unfold held
    rw [h.net]
  refine ⟨⟨h.seen, h.availIdx, h.usedIdx, Nat.le_refl 0, Nat.le_refl 0, ?_⟩, h.txLastUsed, ?_, ?_,
    ?_⟩
  · unfold places
    rw [hfree, hheld, h.flight]
    exact .refl _
  · rw [h.net, h.drv]
    exact .outside rfl
  · intro d
    rw [h.flight]
    rfl
  · exact fun _ => rfl

theorem VRun.inv (h : VRun Alone tr v) : ∃ f p k, VnetInv tr v f p k := by
  induction h with
  | start hi => exact ⟨0, 0, 0, hi.inv⟩
  | step _ hs ih =>
    obtain ⟨f, p, k, hi⟩ := ih
    exact hi.step hs.1 hs.2

/-- Every descriptor is at one place, the index of the loop does not pass the used index, and a
buffer that the device may read stays as it is. -/
structure Conserved (tr : VTrace) (v : Vnet) : Prop where
  /-- The descriptors from `0` to `queueSize - 1`, once each. -/
  once : ∀ d, (freed v.q).count d + (held v).count d + (outstanding tr).count d =
    if d < queueSize then 1 else 0
  behind : increments tr ≤ uses tr
  txLastUsed : v.q.txLastUsed = BitVec.ofNat 16 (increments tr)
  usedIdx : v.q.usedIdx = BitVec.ofNat 16 (uses tr)
  untouched : ∀ a v' res, v.step a = some (v', res) → ∀ d ∈ lent tr,
    v'.q.txBuf d = v.q.txBuf d ∧ v'.q.txDesc d = v.q.txDesc d

theorem push_data (di : Nat) (q : TxQueue) :
    (q.push di).txBuf = q.txBuf ∧ (q.push di).txDesc = q.txDesc := by
  unfold TxQueue.push
  split <;> exact ⟨rfl, rfl⟩

theorem reclaimStep_data (p₁ : Reclaim) (q : TxQueue) :
    (reclaimStep p₁ q).2.txBuf = q.txBuf ∧ (reclaimStep p₁ q).2.txDesc = q.txDesc := by
  cases p₁ with
  | test =>
    unfold reclaimStep
    dsimp only
    split <;> exact ⟨rfl, rfl⟩
  | push di => exact push_data di q
  | next => exact ⟨rfl, rfl⟩

/-- Only the buffer of the descriptor that is held is written. -/
theorem step_data (hs : v.step a = some (v', res)) (hd : d ∉ held v) :
    v'.q.txBuf d = v.q.txBuf d ∧ v'.q.txDesc d = v.q.txDesc d := by
  have hsame : ∀ q : TxQueue, q.txBuf = v.q.txBuf ∧ q.txDesc = v.q.txDesc →
      q.txBuf d = v.q.txBuf d ∧ q.txDesc d = v.q.txDesc d := by
    intro q h
    rw [h.1, h.2]
    exact ⟨rfl, rfl⟩
  cases a with
  | vnetTx data =>
    simp only [Vnet.step] at hs
    split at hs
    · split at hs <;> cases hs <;> exact ⟨rfl, rfl⟩
    · cases hs
      exact ⟨rfl, rfl⟩
    · cases hs
  | vnetProcess =>
    simp only [Vnet.step] at hs
    split at hs
    · cases hs
      exact ⟨rfl, rfl⟩
    · cases hs
  | net =>
    replace hs : netStep v = some (v', res) := hs
    unfold netStep at hs
    unfold held at hd
    split at hs
    · cases hs
    · next p₁ data hnet =>
      dsimp only at hs
      split at hs <;> cases hs <;> exact hsame _ (reclaimStep_data p₁ v.q)
    · split at hs <;> cases hs <;> exact ⟨rfl, rfl⟩
    · next idx data hnet =>
      cases hs
      rw [hnet] at hd
      -- the task writes the buffer of the descriptor it holds
      have hne : d ≠ idx := fun he => hd (by simp [he])
      exact ⟨Function.update_of_ne hne _ _, Function.update_of_ne hne _ _⟩
    · cases hs
      exact ⟨rfl, rfl⟩
  | drv =>
    obtain ⟨w, hw, he⟩ := Option.map_eq_some_iff.mp hs
    cases he
    unfold drvStep at hw
    split at hw
    · cases hw
    · next p₁ _ =>
      dsimp only at hw
      split at hw <;> cases hw <;> exact hsame _ (reclaimStep_data p₁ v.q)
  | fetch =>
    obtain ⟨q', hq, he⟩ := Option.map_eq_some_iff.mp hs
    cases he
    exact hsame q' (fetch_same hq).2.2
  | use x =>
    obtain ⟨q', hq, he⟩ := Option.map_eq_some_iff.mp hs
    cases he
    exact hsame q' (use_same hq).2.2

/-- **The descriptors are conserved in every run in which a task tests the used index only while the
other one takes nothing back.** -/
theorem descriptors_conserved (h : VRun Alone tr v) : Conserved tr v := by
  obtain ⟨f, p, k, hi⟩ := h.inv
  have hc := hi.circulates
  have honce : ∀ d, (freed v.q).count d + (held v).count d + (outstanding tr).count d =
      if d < queueSize then 1 else 0 := by
    intro d
    rw [hi.count_outstanding, hi.count_lent, ← hc.count d]
    omega
  refine ⟨honce, Nat.le_trans hi.stage.le hc.taken, hi.txLastUsed, hc.usedIdx, ?_⟩
  intro a v' res hs d hd
  refine step_data hs fun hheld => ?_
  have h₁ := honce d
  have h₂ := List.count_pos_iff.mpr hheld
  have h₃ := List.count_pos_iff.mpr hd
  have h₄ := hi.count_outstanding d
  split at h₁ <;> omega

/-- All memory is zero, but for the free list. -/
def vnetZero : Vnet where
  gReady := true
  q :=
    { txBuf := fun _ => [], txDesc := fun _ => ⟨0, 0, 0, 0⟩, availIdx := 0, availRing := fun _ => 0
      usedIdx := 0, usedRing := fun _ => 0, txLastUsed := 0, txFreeCount := queueSize
      txFreeList := id, seen := 0, flight := [] }
  net := .idle
  drv := .idle

theorem vnetZero_start : Start vnetZero := by
  refine ⟨rfl, rfl, rfl, rfl, rfl, rfl, fun i hi => ?_, rfl, rfl⟩
  unfold queueSize at hi
  show i = i % 2 ^ 8
  omega

/-- The driver task takes back what the network thread has sent. -/
theorem descriptors_conserved_one : ∃ tr v, VRun Alone tr v ∧ increments tr = 1 ∧
    Conserved tr v := by
  obtain ⟨tr, v, h, hn⟩ := exists_perform vnetZero_start
    [.vnetTx (some [1]), .net, .net, .net, .net, .fetch, .use 7, .vnetProcess, .drv, .drv, .drv]
    (f := Vnet.step) (C := Alone) (fun tr _ => increments tr = 1) (by decide +kernel)
  exact ⟨tr, v, h, hn, descriptors_conserved h⟩

/-- **Both tasks take the same descriptor back**: it is free and held, and `tx_last_used` has passed
the used index. -/
theorem descriptors_doubled : ∃ tr v, VRun (fun _ _ => True) tr v ∧ ¬ Conserved tr v ∧
    (freed v.q).count 7 + (held v).count 7 = 2 ∧ uses tr < increments tr := by
  obtain ⟨tr, v, h, hcount, hlt⟩ := exists_perform vnetZero_start
    [.vnetTx (some [1]), .net, .net, .net, .net, .fetch, .use 7, .vnetProcess, .drv,
      .vnetTx (some [2]), .net, .net, .net, .net, .net, .drv, .drv]
    (f := Vnet.step) (C := fun _ _ => True)
    (fun tr v => (freed v.q).count 7 + (held v).count 7 = 2 ∧ uses tr < increments tr)
    (by decide +kernel)
  exact ⟨tr, v, h, fun hc => Nat.not_le.mpr hlt hc.behind, hcount, hlt⟩

end Ittrium.Drv
