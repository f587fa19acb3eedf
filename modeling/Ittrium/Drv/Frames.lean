import Ittrium.Drv.Descriptors
import Ittrium.Drv.VirtioRx
import Ittrium.Infra.Doorbell
import Mathlib.Data.List.Forall2
import Mathlib.Tactic.IntervalCases

/-!
# The frames of the receive queue

* `Cycles` — each descriptor is available, with the device, used or being refilled
* `HandedOn` — the frames received are handed on one after the other, as the device stored them
* `frames_handed_on` — **that holds in every run**
-/

namespace Ittrium.Drv

open Infra

/-! ## What has happened -/

abbrev NicTrace := List (Event Nic (NicAct × Option Handed))

/-- The runs of the driver task, the handler and the device. -/
abbrev NicRun : NicTrace → Nic → Prop :=
  Run Nic.Start fun v l v' => v.step l.1 = some (v', l.2)

/-- What the device has stored, headers included, the first one first. -/
def received : NicTrace → List (List UInt8)
  | [] => []
  | e :: tr =>
    match e.label.1 with
    | .receive _ bytes => received tr ++ [bytes]
    | _ => received tr

/-- What has been done with frames, and whether `g_vdev.rx` was set then. -/
def handed : NicTrace → List (Bool × Handed)
  | [] => []
  | e :: tr =>
    match e.label.2 with
    | some h => handed tr ++ [(e.pre.rx, h)]
    | none => handed tr

/-- What is to be done with a frame. -/
def answer (rx : Bool) (bytes : List UInt8) : Handed :=
  if bytes.length > hdrSize ∧ rx then .passed (bytes.drop hdrSize) else .dropped

/-! ## The queue alone -/

namespace RxQueue

/-- What the device has not read of the available ring: `f` of `p` descriptors have been read. -/
def avail (f p : Nat) (q : RxQueue) : List Nat := window q.availRing queueSize f (p - f)

/-- What has not been processed of the used ring: `k` of `u` elements have. -/
def used (k u : Nat) (q : RxQueue) : List VirtqUsedElem := window q.usedRing queueSize k (u - k)

def places (f p k u : Nat) (held : List Nat) (q : RxQueue) : List Nat :=
  q.avail f p ++ q.flight ++ (q.used k u).map VirtqUsedElem.id ++ held

end RxQueue

/-- The whole buffer `d`, for the device to write. -/
def wholeBuf (d : Nat) : VirtqDesc := ⟨d, bufSize, vringDescFWrite, 0⟩

/-- **Each descriptor is at one place**, and those the device may use describe their buffers. -/
structure Cycles (f p k u : Nat) (held : List Nat) (q : RxQueue) : Prop where
  seen : q.seen = BitVec.ofNat 16 f
  availIdx : q.availIdx = BitVec.ofNat 16 p
  usedIdx : q.usedIdx = BitVec.ofNat 16 u
  rxLastUsed : q.rxLastUsed = BitVec.ofNat 16 k
  fetched : f ≤ p
  taken : k ≤ u
  perm : (q.places f p k u held).Perm (List.range queueSize)
  ready : ∀ d ∈ q.avail f p ++ q.flight, q.rxDesc d = wholeBuf d
  whole : ∀ d < queueSize, (q.rxBuf d).length = bufSize

/-- An element of the used ring says where a frame is. -/
structure Stores (buf : Nat → List UInt8) (e : VirtqUsedElem) (bytes : List UInt8) : Prop where
  len : e.len = bytes.length
  take : (buf e.id).take e.len = bytes

variable {f p k u n d di len : Nat} {h : List Nat} {q q' : RxQueue} {v v' : Nic} {tr : NicTrace}
  {bytes : List UInt8} {frames : List (List UInt8)} {a : NicAct} {res : Option Handed}

theorem Cycles.count (hc : Cycles f p k u h q) (d : Nat) :
    (q.avail f p).count d + q.flight.count d + ((q.used k u).map VirtqUsedElem.id).count d +
      h.count d = if d < queueSize then 1 else 0 := by
  have hp := hc.perm.count_eq d
  rw [List.nodup_range.count] at hp
  simpa only [RxQueue.places, List.count_append, List.mem_range] using hp

theorem Cycles.length (hc : Cycles f p k u h q) :
    (p - f) + q.flight.length + (u - k) + h.length = queueSize := by
  have hl := hc.perm.length_eq
  simpa only [RxQueue.places, RxQueue.avail, RxQueue.used, List.length_append, List.length_map,
    length_window, List.length_range] using hl

/-- A descriptor that is at one place is a number of the table, and at no other place. -/
theorem Cycles.lt_of_count (hc : Cycles f p k u h q)
    (hpos : 0 < (q.avail f p).count d + q.flight.count d +
      ((q.used k u).map VirtqUsedElem.id).count d + h.count d) : d < queueSize := by
  have hcount := hc.count d
  split at hcount
  · assumption
  · omega

theorem used_cons (hk : k < u) (q : RxQueue) :
    q.used k u = q.usedRing ((k : Int) % queueSize) :: q.used (k + 1) u := by
  unfold RxQueue.used
  rw [show u - k = u - (k + 1) + 1 by omega, window_cons]
  push_cast
  rfl

/-- The index of the driver is behind that of the device exactly when an element is left. -/
theorem Cycles.test (hc : Cycles f p k u h q) : q.rxLastUsed ≠ q.usedIdx ↔ k < u := by
  have hlen := hc.length
  have hk := hc.taken
  have hsize : queueSize = 8 := rfl
  rw [hc.rxLastUsed, hc.usedIdx, Ne, ofNat_inj hk (by omega)]
  omega

/-- The numbers in the used ring are those of descriptors. -/
theorem Cycles.id_lt (hc : Cycles f p k u h q) {e : VirtqUsedElem} (he : e ∈ q.used k u) :
    e.id < queueSize := by
  have hin : e.id ∈ (q.used k u).map VirtqUsedElem.id := List.mem_map_of_mem he
  have := List.count_pos_iff.mpr hin
  exact hc.lt_of_count (by omega)

/-! ### The driver -/

/-- The first element of the used ring is done with. -/
theorem Cycles.next (hc : Cycles f p k u [] q) (hk : k < u) :
    Cycles f p (k + 1) u [(q.usedRing ((k : Int) % queueSize)).id] q.next where
  seen := hc.seen
  availIdx := hc.availIdx
  usedIdx := hc.usedIdx
  rxLastUsed := by rw [← ofNat_add_one, ← hc.rxLastUsed]; rfl
  fetched := hc.fetched
  taken := hk
  perm := by
    have hp := hc.perm
    unfold RxQueue.places at hp ⊢
    rw [used_cons hk, List.map_cons] at hp
    refine List.Perm.trans (List.perm_iff_count.mpr fun d => ?_) hp
    show List.count d (q.avail f p ++ q.flight ++ (q.used (k + 1) u).map VirtqUsedElem.id ++ _) = _
    simp only [List.count_append, List.count_cons, List.count_nil]
    omega
  ready := hc.ready
  whole := hc.whole

theorem avail_fill (hc : Cycles f p k u [di] q) :
    (q.fill di).avail f p = q.avail f p ∧
      (q.fill di).avail f (p + 1) = q.avail f p ++ [di] := by
  have hlen := hc.length
  rw [List.length_singleton] at hlen
  have hlt : ((p - f : Nat) : Int) < (queueSize : Nat) := by omega
  have hf := hc.fetched
  have hp : ((f : Int) + (p - f : Nat)) = p := by omega
  have hpush : window (Function.update q.availRing (((f : Int) + (p - f : Nat)) % (queueSize : Nat))
      di) (queueSize : Nat) f (p - f + 1) = q.avail f p ++ [di] := window_push di hlt
  rw [hp] at hpush
  have hring : (q.fill di).availRing =
      Function.update q.availRing ((p : Int) % (queueSize : Nat)) di := by
    unfold RxQueue.fill
    rw [hc.availIdx, slot_ofNat]
  have hnew : (q.fill di).avail f (p + 1) = q.avail f p ++ [di] := by
    unfold RxQueue.avail
    rw [hring, show p + 1 - f = p - f + 1 by omega]
    exact hpush
  refine ⟨?_, hnew⟩
  have hall : (q.fill di).avail f (p + 1) =
      (q.fill di).avail f p ++ [(q.fill di).availRing (((f : Int) + (p - f : Nat)) % queueSize)] := by
    unfold RxQueue.avail window
    rw [show p + 1 - f = p - f + 1 by omega, List.range_succ, List.map_append]
    rfl
  exact (List.append_inj' (hall.symm.trans hnew) rfl).1

/-- The descriptor that is held is described anew. -/
theorem Cycles.fill (hc : Cycles f p k u [di] q) : Cycles f p k u [di] (q.fill di) ∧
    (q.fill di).availRing (slot (q.fill di).availIdx) = di ∧
      (q.fill di).rxDesc di = wholeBuf di := by
  have hav := (avail_fill hc).1
  have hnot : ∀ d ∈ q.avail f p ++ q.flight, d ≠ di := by
    rintro d hd rfl
    have hcount := hc.count d
    have hpos := List.count_pos_iff.mpr hd
    rw [List.count_append] at hpos
    rw [List.count_singleton_self] at hcount
    split at hcount <;> omega
  refine ⟨⟨hc.seen, hc.availIdx, hc.usedIdx, hc.rxLastUsed, hc.fetched, hc.taken, ?_, ?_, hc.whole⟩,
    ?_, ?_⟩
  · have hp := hc.perm
    unfold RxQueue.places at hp ⊢
    rw [hav]
    exact hp
  · intro d hd
    rw [hav] at hd
    exact (Function.update_of_ne (hnot d hd) _ _).trans (hc.ready d hd)
  · exact Function.update_self ..
  · exact Function.update_self ..

/-- It is made available. -/
theorem Cycles.publish (hc : Cycles f p k u [di] q) (hav : q.availRing (slot q.availIdx) = di)
    (hdesc : q.rxDesc di = wholeBuf di) : Cycles f (p + 1) k u [] q.publish := by
  have hf := hc.fetched
  have hnew : q.publish.avail f (p + 1) = q.avail f p ++ [di] := by
    unfold RxQueue.avail window
    rw [show p + 1 - f = p - f + 1 by omega, List.range_succ, List.map_append, List.map_singleton,
      show ((f : Int) + (p - f : Nat)) = p by omega]
    rw [hc.availIdx, slot_ofNat] at hav
    exact congrArg (fun x => _ ++ [x]) hav
  refine ⟨hc.seen, ?_, hc.usedIdx, hc.rxLastUsed, by omega, hc.taken, ?_, fun d hd => ?_, hc.whole⟩
  · rw [← ofNat_add_one, ← hc.availIdx]
    rfl
  · refine List.Perm.trans (List.perm_iff_count.mpr fun d => ?_) hc.perm
    unfold RxQueue.places
    rw [hnew]
    simp only [List.count_append, List.count_nil]
    show _ + _ + q.flight.count d + ((q.used k u).map VirtqUsedElem.id).count d + 0 = _
    omega
  · rw [hnew] at hd
    rcases List.mem_append.mp hd with hd | hd
    · rcases List.mem_append.mp hd with hd | hd
      · exact hc.ready d (List.mem_append_left _ hd)
      · obtain rfl := List.mem_singleton.mp hd
        exact hdesc
    · exact hc.ready d (List.mem_append_right _ hd)

/-! ### The device -/

theorem Cycles.fetch (hc : Cycles f p k u h q) (hq : q.fetch = some q') :
    Cycles (f + 1) p k u h q' ∧ q'.usedRing = q.usedRing ∧ q'.rxBuf = q.rxBuf ∧
      q'.rxDesc = q.rxDesc ∧ q'.availRing = q.availRing ∧ q'.availIdx = q.availIdx := by
  unfold RxQueue.fetch at hq
  split at hq
  · next hne =>
    obtain rfl := Option.some.inj hq
    have hlt : f < p := by
      rw [hc.seen, hc.availIdx] at hne
      by_contra hge
      have hf := hc.fetched
      exact hne (congrArg _ (by omega))
    have hcons : q.avail f p =
        q.availRing ((f : Int) % queueSize) :: q.avail (f + 1) p := by
      unfold RxQueue.avail
      rw [show p - f = p - (f + 1) + 1 by omega, window_cons]
      push_cast
      rfl
    have hslot : slot q.seen = (f : Int) % queueSize := by rw [hc.seen, slot_ofNat]
    refine ⟨⟨?_, hc.availIdx, hc.usedIdx, hc.rxLastUsed, hlt, hc.taken, ?_, fun d hd => ?_,
      hc.whole⟩, rfl, rfl, rfl, rfl, rfl⟩
    · rw [← ofNat_add_one, ← hc.seen]
    · refine List.Perm.trans (List.perm_iff_count.mpr fun d => ?_) hc.perm
      unfold RxQueue.places
      rw [hcons, hslot]
      simp only [List.count_append, List.count_cons, List.count_nil]
      show (q.avail (f + 1) p).count d + _ + ((q.used k u).map VirtqUsedElem.id).count d + _ = _
      omega
    · refine hc.ready d ?_
      replace hd : d ∈ q.avail (f + 1) p ++ (q.flight ++ [q.availRing (slot q.seen)]) := hd
      rw [hslot] at hd
      rw [hcons]
      simp only [List.mem_append, List.mem_cons, List.not_mem_nil, or_false] at hd ⊢
      tauto
  · cases hq

/-- The device stores a frame in a buffer of its own, so the frames that are there stay. -/
theorem Cycles.receive (hc : Cycles f p k u h q)
    (hs : List.Forall₂ (Stores q.rxBuf) (q.used k u) frames) (hq : q.receive d bytes = some q') :
    Cycles f p k (u + 1) h q' ∧
      List.Forall₂ (Stores q'.rxBuf) (q'.used k (u + 1)) (frames ++ [bytes]) ∧
      (∀ i < u, k ≤ i → q'.usedRing ((i : Int) % queueSize) = q.usedRing ((i : Int) % queueSize)) ∧
      q'.rxDesc = q.rxDesc ∧ q'.availRing = q.availRing ∧ q'.availIdx = q.availIdx := by
  unfold RxQueue.receive at hq
  dsimp only at hq
  split at hq
  · next hd =>
    obtain ⟨hmem, -, hle⟩ := hd
    have hready := hc.ready d (List.mem_append_right _ hmem)
    obtain rfl := Option.some.inj hq
    rw [hready] at hle
    replace hle : bytes.length ≤ bufSize := hle
    rw [show (q.rxDesc d).addr = d by rw [hready]; rfl]
    have hcount := hc.count d
    have hpos := List.count_pos_iff.mpr hmem
    have hdlt : d < queueSize := hc.lt_of_count (by omega)
    rw [if_pos hdlt] at hcount
    have hlen := hc.length
    have hflen := List.length_pos_of_mem hmem
    have hk := hc.taken
    have hlt : ((u - k : Nat) : Int) < (queueSize : Nat) := by omega
    have hu : ((k : Int) + (u - k : Nat)) = u := by omega
    have hslot : slot q.usedIdx = (u : Int) % (queueSize : Nat) := by rw [hc.usedIdx, slot_ofNat]
    have hpush : window (Function.update q.usedRing (((k : Int) + (u - k : Nat)) % (queueSize : Nat))
        ⟨d, bytes.length⟩) (queueSize : Nat) k (u - k + 1) =
        window q.usedRing (queueSize : Nat) k (u - k) ++ [⟨d, bytes.length⟩] := window_push _ hlt
    rw [hu, show u - k + 1 = u + 1 - k by omega, ← hslot] at hpush
    refine ⟨⟨hc.seen, hc.availIdx, ?_, hc.rxLastUsed, hc.fetched, by omega, ?_, fun x hx => ?_,
      fun x hx => ?_⟩, ?_, fun i hi hki => ?_, rfl, rfl, rfl⟩
    · rw [← ofNat_add_one, ← hc.usedIdx]
    · refine List.Perm.trans (List.perm_iff_count.mpr fun x => ?_) hc.perm
      have hfl := (List.perm_cons_erase hmem).count_eq x
      rw [List.count_cons] at hfl
      unfold RxQueue.places
      simp only [List.count_append]
      show (q.avail f p).count x + (q.flight.erase d).count x +
        ((window _ queueSize k (u + 1 - k)).map VirtqUsedElem.id).count x + _ = _
      rw [hpush, List.map_append, List.count_append, List.map_singleton, List.count_singleton]
      show _ + _ + (((q.used k u).map VirtqUsedElem.id).count x + if (d == x) = true then 1 else 0) +
        _ = _
      omega
    · refine hc.ready x ?_
      rcases List.mem_append.mp hx with hx | hx
      · exact List.mem_append_left _ hx
      · exact List.mem_append_right _ (List.mem_of_mem_erase hx)
    · show (Function.update q.rxBuf d _ x).length = bufSize
      by_cases hxd : x = d
      · subst hxd
        have := hc.whole x hx
        rw [Function.update_self, List.length_append, List.length_drop]
        omega
      · rw [Function.update_of_ne hxd]
        exact hc.whole x hx
    · show List.Forall₂ _ (window _ queueSize k (u + 1 - k)) _
      rw [hpush]
      refine List.rel_append ?_ (.cons ⟨rfl, ?_⟩ .nil)
      · refine List.Forall₂.imp ?_ ((List.forall₂_and_left _ _).mpr ⟨fun _ he => he, hs⟩)
        rintro e bs ⟨he, hst⟩
        -- the buffers of the frames that are there are not with the device
        have hne : e.id ≠ d := by
          rintro rfl
          have hin : e.id ∈ (q.used k u).map VirtqUsedElem.id := List.mem_map_of_mem he
          have := List.count_pos_iff.mpr hin
          omega
        exact ⟨hst.len, by
          show (Function.update q.rxBuf d _ e.id).take e.len = bs
          rw [Function.update_of_ne hne]
          exact hst.take⟩
      · show (Function.update q.rxBuf d _ d).take bytes.length = bytes
        rw [Function.update_self, List.take_left]
    · show Function.update q.usedRing _ _ _ = _
      refine Function.update_of_ne (fun heq => ?_) _ _
      have hsize : queueSize = 8 := rfl
      rw [hslot, hsize] at heq
      rw [hsize] at hlen
      omega
  · cases hq

/-! ## The driver task -/

namespace Nic

/-- The descriptor that has been taken from the used ring and is not available yet. -/
def held (v : Nic) : List Nat :=
  match v.pc with
  | .fill di => [di]
  | .publish => [v.q.availRing (slot v.q.availIdx)]
  | _ => []

end Nic

/-- What the driver task knows of the queue: `n` frames have been handed on. -/
def NicPc.Fits (k u n : Nat) (q : RxQueue) : NicPc → Prop
  | .deliver di len => n = k ∧ k < u ∧ q.usedRing ((k : Int) % queueSize) = ⟨di, len⟩
  | .next di => n = k + 1 ∧ k < u ∧ (q.usedRing ((k : Int) % queueSize)).id = di
  | .publish => n = k ∧ q.rxDesc (q.availRing (slot q.availIdx)) =
      wholeBuf (q.availRing (slot q.availIdx))
  | _ => n = k

/-- Frames have been handed on as they should. -/
def Answered (hs : List (Bool × Handed)) (frames : List (List UInt8)) : Prop :=
  List.Forall₂ (fun h bytes => h.2 = answer h.1 bytes) hs frames

/-- The state against its past. -/
structure NicInv (tr : NicTrace) (v : Nic) (f p k : Nat) : Prop where
  cycles : Cycles f p k (received tr).length v.held v.q
  stored : List.Forall₂ (Stores v.q.rxBuf) (v.q.used k (received tr).length) ((received tr).drop k)
  fits : v.pc.Fits k (received tr).length (handed tr).length v.q
  answered : Answered (handed tr) ((received tr).take (handed tr).length)

theorem NicInv.handed_le (hi : NicInv tr v f p k) : (handed tr).length ≤ (received tr).length := by
  have hl := hi.answered.length_eq
  rw [List.length_take] at hl
  omega

/-- A step of the driver task that hands nothing on. -/
theorem NicInv.move (hi : NicInv tr v f p k) {f' p' k' : Nat}
    (hc : Cycles f' p' k' (received tr).length v'.held v'.q)
    (hs : List.Forall₂ (Stores v'.q.rxBuf) (v'.q.used k' (received tr).length) ((received tr).drop k'))
    (hfits : v'.pc.Fits k' (received tr).length (handed tr).length v'.q)
    (ha : ∀ d bytes, a ≠ .receive d bytes) :
    NicInv (⟨v, (a, none), v'⟩ :: tr) v' f' p' k' := by
  have hrec : received (⟨v, (a, none), v'⟩ :: tr) = received tr := by
    cases a with
    | receive d bytes => exact absurd rfl (ha d bytes)
    | _ => rfl
  have hhand : handed (⟨v, (a, none), v'⟩ :: tr) = handed tr := rfl
  constructor <;> simp only [hrec, hhand]
  · exact hc
  · exact hs
  · exact hfits
  · exact hi.answered

/-- Nothing of the queue changes. -/
theorem NicInv.still (hi : NicInv tr v f p k) (hq : v'.q = v.q) (hheld : v'.held = v.held)
    (hfits : v'.pc.Fits k (received tr).length (handed tr).length v.q)
    (ha : ∀ d bytes, a ≠ .receive d bytes) :
    NicInv (⟨v, (a, none), v'⟩ :: tr) v' f p k :=
  hi.move (by rw [hheld, hq]; exact hi.cycles) (by rw [hq]; exact hi.stored)
    (by rw [hq]; exact hfits) ha

/-- The frame that is handed on is the first one that has not been. -/
theorem NicInv.deliver (hi : NicInv tr v f p k) (hpc : v.pc = .deliver di len) :
    ∃ bytes, (received tr).drop k = bytes :: (received tr).drop (k + 1) ∧
      v.deliver di len = answer v.rx bytes := by
  have hfits := hi.fits
  rw [hpc] at hfits
  obtain ⟨-, hlt, he⟩ := hfits
  have hs := hi.stored
  rw [used_cons hlt, he] at hs
  obtain ⟨bytes, rest, hst, -, hrest⟩ := List.forall₂_cons_left_iff.mp hs
  have hdrop := List.drop_eq_getElem_cons hlt
  rw [hdrop] at hrest
  obtain ⟨hb, -⟩ := List.cons.inj hrest
  refine ⟨_, hdrop, ?_⟩
  have hlen : len = bytes.length := hst.len
  have htake : (v.q.rxBuf di).take len = bytes := hst.take
  have hpay : v.q.payload di len = bytes.drop hdrSize := by
    unfold RxQueue.payload
    rw [← List.drop_take, htake]
  unfold Nic.deliver answer
  rw [hpay, hb, hlen]

theorem NicInv.task_step (hi : NicInv tr v f p k) (hs : v.taskStep = some (v', res)) :
    ∃ p' k', NicInv (⟨v, (.task, res), v'⟩ :: tr) v' f p' k' := by
  have hfits := hi.fits
  have hc := hi.cycles
  have ha : ∀ d bytes, NicAct.task ≠ .receive d bytes := fun _ _ => NicAct.noConfusion
  unfold Nic.held at hc
  unfold Nic.taskStep at hs
  split at hs
  · next hpc =>
    rw [hpc] at hfits
    split at hs <;> cases hs <;>
      exact ⟨p, k, hi.still rfl (by unfold Nic.held; rw [hpc]) hfits ha⟩
  · cases hs
  · next hpc =>
    rw [hpc] at hfits
    cases hs
    exact ⟨p, k, hi.still rfl (by unfold Nic.held; rw [hpc]) hfits ha⟩
  · next hpc =>
    rw [hpc] at hfits
    split at hs
    · next hne =>
      cases hs
      -- an element is there, and its number is that of a descriptor
      have hlt := hc.test.mp hne
      have hmem : v.q.usedRing ((k : Int) % queueSize) ∈ v.q.used k (received tr).length := by
        rw [used_cons hlt]
        exact List.mem_cons_self ..
      have hid := hc.id_lt hmem
      have hsize : queueSize = 8 := rfl
      refine ⟨p, k, hi.still rfl (by unfold Nic.held; rw [hpc]) ⟨hfits, hlt, ?_⟩ ha⟩
      rw [hc.rxLastUsed, slot_ofNat, Nat.mod_eq_of_lt (by omega)]
    · cases hs
      exact ⟨p, k, hi.still rfl (by unfold Nic.held; rw [hpc]) hfits ha⟩
  · next di len hpc =>
    cases hs
    obtain ⟨bytes, hdrop, hans⟩ := hi.deliver hpc
    rw [hpc] at hfits hc
    obtain ⟨hn, hlt, he⟩ := hfits
    refine ⟨p, k, hc, hi.stored, ⟨?_, hlt, by rw [he]⟩, ?_⟩
    · show (handed tr ++ _).length = k + 1
      rw [List.length_append, List.length_singleton, hn]
    · show Answered (handed tr ++ [(v.rx, v.deliver di len)])
        ((received tr).take (handed tr ++ [(v.rx, v.deliver di len)]).length)
      have htake : (received tr).take (handed tr ++ [(v.rx, v.deliver di len)]).length =
          (received tr).take (handed tr).length ++ [bytes] := by
        have hb : (received tr)[k]? = some bytes := by
          rw [← List.head?_drop, hdrop]
          rfl
        rw [List.length_append, List.length_singleton, List.take_add_one, hn, hb]
        rfl
      rw [htake]
      exact List.rel_append hi.answered (.cons hans .nil)
  · next di hpc =>
    cases hs
    rw [hpc] at hfits hc
    obtain ⟨hn, hlt, he⟩ := hfits
    have hnext := hc.next hlt
    rw [he] at hnext
    have hst := hi.stored
    rw [used_cons hlt, List.drop_eq_getElem_cons hlt] at hst
    exact ⟨p, k + 1, hi.move hnext (List.forall₂_cons.mp hst).2 hn ha⟩
  · next di hpc =>
    cases hs
    rw [hpc] at hfits hc
    obtain ⟨hfill, hav, hdesc⟩ := hc.fill
    refine ⟨p, k, hi.move ?_ hi.stored ⟨hfits, ?_⟩ ha⟩
    · show Cycles f p k _ [(v.q.fill di).availRing (slot (v.q.fill di).availIdx)] _
      rw [hav]
      exact hfill
    · show (v.q.fill di).rxDesc ((v.q.fill di).availRing (slot (v.q.fill di).availIdx)) =
        wholeBuf ((v.q.fill di).availRing (slot (v.q.fill di).availIdx))
      rw [hav, hdesc]
  · next hpc =>
    cases hs
    rw [hpc] at hfits hc
    exact ⟨p + 1, k, hi.move (hc.publish rfl hfits.2) hi.stored hfits.1 ha⟩
  · next hpc =>
    rw [hpc] at hfits
    cases hs
    exact ⟨p, k, hi.still rfl (by unfold Nic.held; rw [hpc]) hfits ha⟩

/-! ## The device -/

theorem held_congr (hpc : v'.pc = v.pc) (hav : v'.q.availRing = v.q.availRing)
    (hidx : v'.q.availIdx = v.q.availIdx) : v'.held = v.held := by
  unfold Nic.held
  rw [hpc, hav, hidx]

theorem NicPc.Fits.congr {pc : NicPc} {u' : Nat} (h : pc.Fits k u n q) (hu : u ≤ u')
    (hused : k < u → q'.usedRing ((k : Int) % queueSize) = q.usedRing ((k : Int) % queueSize))
    (hdesc : q'.rxDesc = q.rxDesc) (hav : q'.availRing = q.availRing)
    (hidx : q'.availIdx = q.availIdx) : pc.Fits k u' n q' := by
  cases pc with
  | deliver di len => exact ⟨h.1, by have := h.2.1; omega, (hused h.2.1).trans h.2.2⟩
  | next di => exact ⟨h.1, by have := h.2.1; omega, (congrArg _ (hused h.2.1)).trans h.2.2⟩
  | publish =>
    refine ⟨h.1, ?_⟩
    rw [hav, hidx, hdesc]
    exact h.2
  | _ => exact h

theorem NicInv.fetch_step (hi : NicInv tr v f p k) (hq : v.q.fetch = some q') :
    NicInv (⟨v, (.fetch, none), { v with q := q' }⟩ :: tr) { v with q := q' } (f + 1) p k := by
  obtain ⟨hc, hused, hbuf, hdesc, hav, hidx⟩ := hi.cycles.fetch hq
  have hheld : Nic.held { v with q := q' } = v.held := held_congr rfl hav hidx
  refine hi.move (by rw [hheld]; exact hc) ?_
    (hi.fits.congr (Nat.le_refl _) (fun _ => by rw [hused]) hdesc hav hidx)
    (fun _ _ => NicAct.noConfusion)
  unfold RxQueue.used
  dsimp only
  rw [hused, hbuf]
  exact hi.stored

theorem NicInv.receive_step (hi : NicInv tr v f p k) (hq : v.q.receive d bytes = some q')
    (hv : v' = { v with q := q', pending := true }) :
    NicInv (⟨v, (.receive d bytes, none), v'⟩ :: tr) v' f p k := by
  subst hv
  obtain ⟨hc, hst, hused, hdesc, hav, hidx⟩ := hi.cycles.receive hi.stored hq
  have hheld : Nic.held { v with q := q', pending := true } = v.held := held_congr rfl hav hidx
  have hk := hi.cycles.taken
  have hrec : received (⟨v, (.receive d bytes, none), { v with q := q', pending := true }⟩ :: tr) =
      received tr ++ [bytes] := rfl
  have hhand : handed (⟨v, (.receive d bytes, none), { v with q := q', pending := true }⟩ :: tr) =
      handed tr := rfl
  have hlen : (received tr ++ [bytes]).length = (received tr).length + 1 := by
    rw [List.length_append, List.length_singleton]
  refine ⟨?_, ?_, ?_, ?_⟩ <;> simp only [hrec, hhand, hlen]
  · rw [hheld]
    exact hc
  · rw [List.drop_append_of_le_length hk]
    exact hst
  · exact hi.fits.congr (Nat.le_succ _) (fun hlt => hused k hlt (Nat.le_refl k)) hdesc hav hidx
  · rw [List.take_append_of_le_length hi.handed_le]
    exact hi.answered

/-! ## Runs -/

/-- The eventflag is used by the driver task only. -/
def Nic.Queued (v : Nic) : Prop :=
  v.flag.waitq = match v.pc with
    | .waiting => [((), virtioFlgRx)]
    | _ => []

theorem Nic.Queued.not_waiting (h : v.Queued) (hpc : v.pc ≠ .waiting) : v.flag.waitq = [] := by
  unfold Nic.Queued at h
  split at h
  · next hw => exact absurd hw hpc
  · exact h

/-- The pattern is kept, and the driver task goes on if it waits. -/
theorem Nic.Queued.setKept (h : v.Queued) : v.flag.setKept virtioFlgRx =
    (if v.pc matches .waiting then [()] else [], ⟨v.flag.flgptn ||| virtioFlgRx, []⟩) := by
  have hor := Flag.or_and_ne_zero v.flag.flgptn (show virtioFlgRx ≠ 0 by decide)
  unfold Flag.setKept
  cases hpc : v.pc with
  | waiting =>
    have hq : v.flag.waitq = [((), virtioFlgRx)] := by
      unfold Nic.Queued at h
      rw [hpc] at h
      exact h
    dsimp only
    rw [hq, List.filter_singleton, List.filter_singleton, decide_eq_true hor, decide_eq_false hor]
    rfl
  | _ =>
    dsimp only
    rw [h.not_waiting (by rw [hpc]; exact NicPc.noConfusion)]
    rfl

/-- What `iset_flg` does. -/
theorem Nic.Queued.isetFlg (h : v.Queued) : v.isetFlg.Queued ∧ v.isetFlg.q = v.q ∧
    (v.pc = .waiting ∧ v.isetFlg.pc = .clear ∨ v.pc ≠ .waiting ∧ v.isetFlg.pc = v.pc) ∧
    v.isetFlg.flag.flgptn &&& virtioFlgRx ≠ 0 := by
  have hor := Flag.or_and_ne_zero v.flag.flgptn (show virtioFlgRx ≠ 0 by decide)
  unfold Nic.Queued Nic.isetFlg
  rw [h.setKept]
  cases hpc : v.pc with
  | waiting => exact ⟨rfl, rfl, Or.inl ⟨rfl, rfl⟩, hor⟩
  | _ => exact ⟨rfl, rfl, Or.inr ⟨NicPc.noConfusion, rfl⟩, hor⟩

theorem held_isetFlg (h : v.Queued) : v.isetFlg.held = v.held := by
  obtain ⟨-, hq, hpc, -⟩ := h.isetFlg
  rcases hpc with ⟨hw, hc⟩ | ⟨-, hpc⟩
  · unfold Nic.held
    rw [hw, hc]
  · exact held_congr hpc (by rw [hq]) (by rw [hq])

theorem NicInv.step (hi : NicInv tr v f p k) (hw : v.Queued) (hs : v.step a = some (v', res)) :
    ∃ f' p' k', NicInv (⟨v, (a, res), v'⟩ :: tr) v' f' p' k' := by
  cases a with
  | task =>
    simp only [Nic.step] at hs
    split at hs
    · cases hs
    · exact ⟨f, hi.task_step hs⟩
  | netdevSetRx fn =>
    simp only [Nic.step] at hs
    split at hs
    · cases hs
    · cases hs
      exact ⟨f, p, k, hi.still rfl rfl hi.fits fun _ _ => NicAct.noConfusion⟩
  | fetch =>
    obtain ⟨q', hq, he⟩ := Option.map_eq_some_iff.mp hs
    cases he
    exact ⟨f + 1, p, k, hi.fetch_step hq⟩
  | receive d bytes =>
    obtain ⟨q', hq, he⟩ := Option.map_eq_some_iff.mp hs
    cases he
    exact ⟨f, p, k, hi.receive_step hq rfl⟩
  | transmitted =>
    cases hs
    exact ⟨f, p, k, hi.still rfl rfl hi.fits fun _ _ => NicAct.noConfusion⟩
  | irq =>
    simp only [Nic.step] at hs
    split at hs
    · cases hs
    · cases hs
      exact ⟨f, p, k, hi.still rfl rfl hi.fits fun _ _ => NicAct.noConfusion⟩
  | isetFlg =>
    simp only [Nic.step] at hs
    split at hs
    · cases hs
      obtain ⟨-, hq, hpc, -⟩ := hw.isetFlg
      refine ⟨f, p, k, hi.still hq (held_isetFlg hw) ?_ fun _ _ => NicAct.noConfusion⟩
      have hfits := hi.fits
      rcases hpc with ⟨hwait, hclear⟩ | ⟨-, hpc⟩
      · rw [hwait] at hfits
        rw [hclear]
        exact hfits
      · rw [hpc]
        exact hfits
    · cases hs

/-- Only the driver task waits, and only where it is said to. -/
theorem Nic.Queued.step (h : v.Queued) (hs : v.step a = some (v', res)) : v'.Queued := by
  cases a with
  | task =>
    simp only [Nic.step] at hs
    split at hs
    · cases hs
    · unfold Nic.taskStep at hs
      unfold Nic.Queued at h
      split at hs
      · next hpc =>
        rw [hpc] at h
        unfold Flag.waiKept at hs
        split at hs
        · next flag hf =>
          cases hs
          split at hf
          · obtain rfl := Option.some.inj hf
            exact h
          · cases hf
        · cases hs
          show v.flag.waitq ++ [((), virtioFlgRx)] = [((), virtioFlgRx)]
          rw [h, List.nil_append]
      · cases hs
      · next hpc =>
        rw [hpc] at h
        cases hs
        exact h
      · next hpc =>
        rw [hpc] at h
        split at hs <;> cases hs <;> exact h
      all_goals
        next hpc =>
        rw [hpc] at h
        cases hs
        exact h
  | isetFlg =>
    simp only [Nic.step] at hs
    split at hs
    · cases hs
      exact h.isetFlg.1
    · cases hs
  | fetch | receive =>
    obtain ⟨q', -, he⟩ := Option.map_eq_some_iff.mp hs
    cases he
    exact h
  | netdevSetRx | irq =>
    simp only [Nic.step] at hs
    split at hs
    · cases hs
    · cases hs
      exact h
  | transmitted =>
    cases hs
    exact h

theorem avail_vnetInit (q : RxQueue) : q.vnetInit.avail 0 queueSize = List.range queueSize := rfl

theorem vnetInit_cycles (hq : ∀ i < queueSize, (q.rxBuf i).length = bufSize) :
    Cycles 0 queueSize 0 0 [] q.vnetInit where
  seen := rfl
  availIdx := rfl
  usedIdx := rfl
  rxLastUsed := rfl
  fetched := Nat.zero_le _
  taken := Nat.le_refl _
  perm := by
    unfold RxQueue.places
    rw [avail_vnetInit]
    exact .refl _
  ready := by
    intro d hd
    rw [avail_vnetInit] at hd
    have hsize : queueSize = 8 := rfl
    rcases List.mem_append.mp hd with hd | hd
    · have hlt := List.mem_range.mp hd
      rw [hsize] at hlt
      interval_cases d <;> rfl
    · cases hd
  whole := hq

theorem Nic.Start.inv (h : v.Start) : NicInv [] v 0 queueSize 0 := by
  obtain ⟨q, hbuf, hq⟩ := h.queue
  have hheld : v.held = [] := by
    unfold Nic.held
    rw [h.pc]
  refine ⟨?_, .nil, ?_, .nil⟩
  · rw [hheld, hq]
    exact vnetInit_cycles hbuf
  · rw [h.pc]
    exact rfl

theorem Nic.Start.queued (h : v.Start) : v.Queued := by
  unfold Nic.Queued
  rw [h.pc, h.waitq]

theorem NicRun.inv (h : NicRun tr v) : (∃ f p k, NicInv tr v f p k) ∧ v.Queued := by
  induction h with
  | start hi => exact ⟨⟨0, queueSize, 0, hi.inv⟩, hi.queued⟩
  | step _ hs ih =>
    obtain ⟨⟨f, p, k, hi⟩, hw⟩ := ih
    exact ⟨hi.step hw hs, hw.step hs⟩

/-- All buffers are zero. -/
def nicZero : Nic where
  q := RxQueue.vnetInit
    { rxBuf := fun _ => List.replicate bufSize 0, rxDesc := fun _ => ⟨0, 0, 0, 0⟩, availIdx := 0
      availRing := fun _ => 0, usedIdx := 0, usedRing := fun _ => ⟨0, 0⟩, rxLastUsed := 0, seen := 0
      flight := [] }
  flag := ⟨0, []⟩
  pc := .wait
  rx := false
  pending := false
  inIrq := false

theorem nicZero_start : nicZero.Start :=
  ⟨⟨_, fun _ _ => List.length_replicate, rfl⟩, rfl, rfl, rfl, rfl⟩

/-- The frames are handed on one after the other, each as the device has stored it, and each
descriptor is at one place: available, with the device, used, or held by the driver task. -/
structure HandedOn (tr : NicTrace) (v : Nic) : Prop where
  frames : ∃ old new, received tr = old ++ new ∧ Answered (handed tr) old ∧ new.length ≤ queueSize
  once : ∃ f p k, Cycles f p k (received tr).length v.held v.q

/-- **Every frame the device stores is handed on once, in order, and unchanged.** -/
theorem frames_handed_on (h : NicRun tr v) : HandedOn tr v := by
  obtain ⟨⟨f, p, k, hi⟩, -⟩ := h.inv
  have hlen := hi.cycles.length
  have hk : k ≤ (handed tr).length := by
    have hfits := hi.fits
    unfold NicPc.Fits at hfits
    split at hfits <;> omega
  refine ⟨⟨_, _, (List.take_append_drop (handed tr).length _).symm, hi.answered, ?_⟩,
    f, p, k, hi.cycles⟩
  rw [List.length_drop]
  omega

/-- A frame comes in and is handed on. -/
theorem frames_handed_on_one : ∃ tr v, NicRun tr v ∧ handed tr = [(true, .passed [7])] ∧
    HandedOn tr v := by
  obtain ⟨tr, v, h, hh⟩ := exists_perform nicZero_start
    (.netdevSetRx true :: .task :: .fetch :: .receive 0 (List.replicate hdrSize 0 ++ [7]) :: .irq ::
      .isetFlg :: List.replicate 3 .task)
    (f := Nic.step) (C := fun _ _ => True) (fun tr _ => handed tr = [(true, .passed [7])])
    (by decide +kernel)
  have hrun : NicRun tr v := h.mono (fun _ hi => hi) fun _ _ _ hs => hs.2
  exact ⟨tr, v, hrun, hh, frames_handed_on hrun⟩

/-! ## Wake-ups -/

/-- The driver task as a consumer of frames. -/
def Nic.door (v : Nic) : Doorbell where
  vigil :=
    match v.pc with
    | .transmit | .wait => .resigned
    | .waiting => .asleep
    | _ => .awake
  rung := decide (v.flag.flgptn &&& virtioFlgRx ≠ 0)
  owed := v.pending || v.inIrq
  work := decide (v.q.rxLastUsed ≠ v.q.usedIdx)

theorem door_task (hs : v.taskStep = some (v', res)) : Doorbell.Step v.door v'.door := by
  unfold Nic.taskStep at hs
  unfold Nic.door
  split at hs
  · next hpc =>
    rw [hpc]
    unfold Flag.waiKept at hs
    split at hs
    · next flag hf =>
      cases hs
      exact .heeds _ _ rfl
    · next hf =>
      cases hs
      refine .sleeps _ rfl (decide_eq_false fun hne => ?_)
      rw [if_pos hne] at hf
      cases hf
  · cases hs
  · next hpc =>
    rw [hpc]
    cases hs
    exact .works _ _ _ rfl
  · next hpc =>
    rw [hpc]
    split at hs
    · cases hs
      exact .idle _
    · next heq =>
      cases hs
      exact .resigns _ rfl (decide_eq_false heq)
  all_goals
    next hpc =>
    rw [hpc]
    cases hs
    first
      | exact .idle _
      | exact .works _ _ _ rfl

/-- **A step of the system is one of the consumer or of the bell.** -/
theorem door_step (hrun : NicRun tr v) (hs : v.step a = some (v', res)) :
    Doorbell.Step v.door v'.door := by
  obtain ⟨⟨f, p, k, hi⟩, hw⟩ := hrun.inv
  cases a with
  | task =>
    simp only [Nic.step] at hs
    split at hs
    · cases hs
    · exact door_task hs
  | netdevSetRx fn =>
    simp only [Nic.step] at hs
    split at hs
    · cases hs
    · cases hs
      exact .idle _
  | fetch =>
    obtain ⟨q', hq, he⟩ := Option.map_eq_some_iff.mp hs
    cases he
    unfold RxQueue.fetch at hq
    split at hq
    · obtain rfl := Option.some.inj hq
      exact .idle _
    · cases hq
  | receive d bytes =>
    obtain ⟨q', hq, he⟩ := Option.map_eq_some_iff.mp hs
    cases he
    obtain ⟨hc, -⟩ := hi.cycles.receive hi.stored hq
    have hk := hi.cycles.taken
    have hstep := Doorbell.Step.arrive v.door true
    have hwork : decide (q'.rxLastUsed ≠ q'.usedIdx) = true :=
      decide_eq_true (hc.test.mpr (by omega))
    unfold Nic.door at hstep ⊢
    rw [hwork]
    simpa only [Bool.or_true, Bool.true_or] using hstep
  | transmitted =>
    cases hs
    have hstep := Doorbell.Step.arrive v.door false
    simpa only [Nic.door, Bool.or_false, Bool.true_or] using hstep
  | irq =>
    simp only [Nic.step] at hs
    split at hs
    · cases hs
    · cases hs
      have hstep := Doorbell.Step.arrive v.door false
      simpa only [Nic.door, Bool.or_false, Bool.or_true] using hstep
  | isetFlg =>
    simp only [Nic.step] at hs
    split at hs
    · cases hs
      obtain ⟨-, hq, hpc, hptn⟩ := hw.isetFlg
      have hrung : decide (v.isetFlg.flag.flgptn &&& virtioFlgRx ≠ 0) = true :=
        decide_eq_true hptn
      unfold Nic.door
      rw [hrung, hq]
      rcases hpc with ⟨hwait, hclear⟩ | ⟨hne, hpc⟩
      · rw [hwait, hclear]
        exact .wakes _ _ _ rfl
      · rw [hpc]
        refine .rings _ _ fun hv => hne ?_
        dsimp only at hv
        split at hv <;> first | assumption | cases hv
    · cases hs

/-- **The driver task never waits while there are frames, unless an interrupt is still to come.** -/
theorem frames_awaited (h : NicRun tr v) (hpc : v.pc = .waiting) (hp : v.pending = false)
    (hq : v.inIrq = false) : (handed tr).length = (received tr).length := by
  have hal := Doorbell.alert_of_run Nic.door (fun v hi => ?_)
    (fun tr v l v' hrun hs => door_step hrun hs) h
  · obtain ⟨⟨f, p, k, hi⟩, -⟩ := h.inv
    have hasleep := (hal.asleep (by unfold Nic.door; rw [hpc])).2
    have hfits := hi.fits
    rw [hpc] at hfits
    have hlt : ¬ k < (received tr).length := by
      intro hlt
      have howed := hasleep (decide_eq_true (hi.cycles.test.mpr hlt))
      unfold Nic.door at howed
      rw [hp, hq] at howed
      cases howed
    have hk := hi.cycles.taken
    have hn : (handed tr).length = k := hfits
    omega
  · -- no frame has come at the start
    obtain ⟨q, -, hq⟩ := hi.queue
    have hwork : v.door.work = false := by
      unfold Nic.door
      rw [hq]
      have hsame : q.vnetInit.rxLastUsed = q.vnetInit.usedIdx := rfl
      exact decide_eq_false (not_not.mpr hsame)
    have hvigil : v.door.vigil = .resigned := by
      unfold Nic.door
      rw [hi.pc]
    exact ⟨fun _ hw => absurd (hwork.symm.trans hw) (by decide),
      fun hv => absurd (hvigil.symm.trans hv) (by decide)⟩

/-- A frame comes in, is handed on, and the driver task waits again. -/
theorem frames_awaited_again : ∃ tr v, NicRun tr v ∧ handed tr = [(true, .passed [7])] ∧
    (handed tr).length = (received tr).length := by
  obtain ⟨tr, v, h, hh, hpc, hp, hq⟩ := exists_perform nicZero_start
    (.netdevSetRx true :: .task :: .fetch :: .receive 0 (List.replicate hdrSize 0 ++ [7]) :: .irq ::
      .isetFlg :: List.replicate 9 .task)
    (f := Nic.step) (C := fun _ _ => True)
    (fun tr v => handed tr = [(true, .passed [7])] ∧ v.door.vigil = .asleep ∧ v.pending = false ∧
      v.inIrq = false) (by decide +kernel)
  have hrun : NicRun tr v := h.mono (fun _ hi => hi) fun _ _ _ hs => hs.2
  refine ⟨tr, v, hrun, hh, frames_awaited hrun ?_ hp hq⟩
  unfold Nic.door at hpc
  dsimp only at hpc
  split at hpc <;> first | assumption | cases hpc

end Ittrium.Drv
