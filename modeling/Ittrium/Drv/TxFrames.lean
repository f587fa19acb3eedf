import Ittrium.Drv.Descriptors
import Mathlib.Data.List.Perm.Basic

/-!
# The frames of the transmit queue

Where the tasks keep out of each other's way, the device reads what `vnet_tx` has been given.

* `Vnet.published`, `Vnet.read` — the data of `vnet_tx`, and what the device has found
* `Vnet.inFlight` — what has been published and not used since
* `frames_transmitted` — **the device reads every frame once, in order, and unchanged**
-/

namespace Ittrium.Drv

open Infra

/-! ## What has happened -/

/-- A header, which is zero, and the data. -/
def onWire (data : List UInt8) : List UInt8 := List.replicate hdrSize 0 ++ data

/-- What the device finds with a descriptor. -/
def TxQueue.frameAt (d : Nat) (q : TxQueue) : List UInt8 :=
  (q.txBuf (q.txDesc d).addr).take (q.txDesc d).len

/-- The part of the available ring that the device has not read. -/
def TxQueue.unread (q : TxQueue) : List Nat :=
  window q.availRing queueSize q.seen.toNat (q.availIdx - q.seen).toNat

namespace Vnet

/-- The data of the last call of `vnet_tx`. -/
def lastData : VTrace → List UInt8
  | [] => []
  | e :: tr =>
    match e.label.1 with
    | .vnetTx (some data) => data
    | _ => lastData tr

/-- The data of the calls that have returned their length, the first one first. -/
def published : VTrace → List (List UInt8)
  | [] => []
  | e :: tr =>
    match e.label.2 with
    | some rc => if rc < 0 then published tr else published tr ++ [lastData tr]
    | none => published tr

/-- What the device has found in the descriptors it has read from the ring. -/
def read : VTrace → List (List UInt8)
  | [] => []
  | e :: tr =>
    match e.label.1 with
    | .fetch => read tr ++ [e.pre.q.frameAt (e.pre.q.availRing (slot e.pre.q.seen))]
    | _ => read tr

/-- What has been published and not used since, with the data. -/
def inFlight : VTrace → List (Nat × List UInt8)
  | [] => []
  | e :: tr =>
    match effect e.pre e.label.1 with
    | .publishes d => inFlight tr ++ [(d, lastData tr)]
    | .uses d => (inFlight tr).eraseP fun x => x.1 = d
    | _ => inFlight tr

end Vnet

/-! ## The queue alone -/

variable {f p k u d idx : Nat} {h : List Nat} {q q' : TxQueue} {v v' : Vnet} {tr : VTrace}
  {data : List UInt8} {a : Act} {res : Option Int}

theorem available_eq_unread (hc : Circulates f p k u h q) : available f p q = q.unread := by
  have hlen := hc.length
  have hf := hc.fetched
  have hsize : queueSize = 8 := rfl
  have hn : (q.availIdx - q.seen).toNat = p - f := by
    rw [hc.seen, hc.availIdx, BitVec.toNat_sub, BitVec.toNat_ofNat, BitVec.toNat_ofNat]
    omega
  unfold available TxQueue.unread window
  rw [hn]
  refine List.map_congr_left fun i _ => congrArg q.availRing ?_
  rw [hc.seen, BitVec.toNat_ofNat, hsize]
  show ((f : Int) + i) % 8 = ((f % 2 ^ 16 : Nat) + i) % 8
  omega

/-- The next one the device reads. -/
theorem unread_fetch (hc : Circulates f p k u h q) (hq : q.fetch = some q') :
    q.unread = q.availRing (slot q.seen) :: q'.unread := by
  obtain ⟨d, hav, hfl, hc'⟩ := hc.fetch hq
  rw [available_eq_unread hc, available_eq_unread hc'] at hav
  unfold TxQueue.fetch at hq
  split at hq
  · obtain rfl := Option.some.inj hq
    have hd := List.append_cancel_left hfl
    rw [hav, ← (List.cons.inj hd).1]
  · cases hq

theorem unread_publish (hc : Circulates f p k u [idx] q) :
    (q.publish idx).unread = q.unread ++ [idx] := by
  rw [← available_eq_unread hc, ← available_eq_unread hc.publish]
  exact available_publish hc

/-- The descriptor `d` and its buffer hold the frame with these data. -/
structure Bears (q : TxQueue) (d : Nat) (data : List UInt8) : Prop where
  addr : (q.txDesc d).addr = d
  frame : q.frameAt d = onWire data

theorem Bears.congr (hb : Bears q d data) (hbuf : q'.txBuf d = q.txBuf d)
    (hdesc : q'.txDesc d = q.txDesc d) : Bears q' d data := by
  refine ⟨hdesc ▸ hb.addr, ?_⟩
  rw [← hb.frame]
  unfold TxQueue.frameAt
  rw [hdesc, hb.addr, hbuf]

/-- The frame that `vnet_tx` stores. -/
theorem bears_fill (idx : Nat) (data : List UInt8) (q : TxQueue) :
    Bears (q.fill idx data) idx data := by
  have hdesc : (q.fill idx data).txDesc idx = ⟨idx, hdrSize + data.length, 0, 0⟩ :=
    Function.update_self ..
  refine ⟨congrArg VirtqDesc.addr hdesc, ?_⟩
  unfold TxQueue.frameAt onWire
  rw [hdesc]
  show (Function.update q.txBuf idx _ idx).take _ = _
  rw [Function.update_self, List.take_left']
  rw [List.length_append, List.length_replicate]

/-! ## The network thread -/

/-- What the network thread is about to publish. -/
def NetPc.Carries (last : List UInt8) (q : TxQueue) : NetPc → Prop
  | .idle => True
  | .reclaim _ data | .pop data | .fill _ data => data = last
  | .publish idx len => len = last.length ∧ Bears q idx last

/-- The state against its past. -/
structure TxInv (tr : VTrace) (v : Vnet) : Prop where
  carries : v.net.Carries (Vnet.lastData tr) v.q
  order : ∃ new, (Vnet.published tr).map onWire = Vnet.read tr ++ new ∧
    v.q.unread.map (fun d => v.q.frameAt d) = new
  descs : (Vnet.inFlight tr).map Prod.fst = lent tr
  bears : ∀ x ∈ Vnet.inFlight tr, Bears v.q x.1 x.2

/-- What the device has not read is lent to it. -/
theorem VnetInv.unread_lent (hi : VnetInv tr v f p k) (hd : d ∈ v.q.unread) : d ∈ lent tr := by
  rw [← available_eq_unread hi.circulates] at hd
  rw [← List.count_pos_iff, hi.count_lent]
  have := List.count_pos_iff.mpr hd
  omega

/-- A descriptor that is lent is not held. -/
theorem VnetInv.not_held (hi : VnetInv tr v f p k) (hd : d ∈ lent tr) : d ∉ held v := by
  intro hheld
  have hlent := List.count_pos_iff.mpr hd
  have hcount := hi.circulates.count d
  have hpos := List.count_pos_iff.mpr hheld
  rw [hi.count_lent] at hlent
  split at hcount <;> omega

/-- A step by which nothing is published, read or used. -/
theorem TxInv.still (hi : VnetInv tr v f p k) (ht : TxInv tr v) (hs : v.step a = some (v', res))
    (heff : effect v a = .other ∨ (∃ d, effect v a = .pushes d) ∨ effect v a = .increments)
    (hres : ∀ rc, res = some rc → rc < 0) (hfetch : a ≠ .fetch)
    (hunread : v'.q.unread = v.q.unread)
    (hcarries : v'.net.Carries (Vnet.lastData (⟨v, (a, res), v'⟩ :: tr)) v'.q) :
    TxInv (⟨v, (a, res), v'⟩ :: tr) v' := by
  have hpub : Vnet.published (⟨v, (a, res), v'⟩ :: tr) = Vnet.published tr := by
    cases res with
    | none => rfl
    | some rc => exact if_pos (hres rc rfl)
  have hread : Vnet.read (⟨v, (a, res), v'⟩ :: tr) = Vnet.read tr := by
    cases a with
    | fetch => exact absurd rfl hfetch
    | _ => rfl
  have hfl : Vnet.inFlight (⟨v, (a, res), v'⟩ :: tr) = Vnet.inFlight tr ∧
      lent (⟨v, (a, res), v'⟩ :: tr) = lent tr := by
    rcases heff with heff | ⟨d, heff⟩ | heff <;>
      simp only [Vnet.inFlight, lent, heff, and_self]
  -- the buffers that are lent stay as they are
  have hsame : ∀ d ∈ lent tr,
      v'.q.txBuf d = v.q.txBuf d ∧ v'.q.txDesc d = v.q.txDesc d :=
    fun d hd => step_data hs (hi.not_held hd)
  have hbears : ∀ x ∈ Vnet.inFlight tr, Bears v'.q x.1 x.2 := by
    intro x hx
    have hmem : x.1 ∈ lent tr := ht.descs ▸ List.mem_map_of_mem hx
    exact (ht.bears x hx).congr (hsame _ hmem).1 (hsame _ hmem).2
  refine ⟨hcarries, ?_, ?_, ?_⟩
  · obtain ⟨new, hnew, hun⟩ := ht.order
    refine ⟨new, by rw [hpub, hread, hnew], ?_⟩
    rw [hunread, ← hun]
    refine List.map_congr_left fun d hd => ?_
    have hmem := hi.unread_lent hd
    obtain ⟨x, hx, rfl⟩ := List.mem_map.mp (ht.descs ▸ hmem)
    rw [(hbears x hx).frame, (ht.bears x hx).frame]
  · rw [hfl.1, hfl.2]
    exact ht.descs
  · rw [hfl.1]
    exact hbears

theorem unread_congr (hring : q'.availRing = q.availRing) (hseen : q'.seen = q.seen)
    (havail : q'.availIdx = q.availIdx) : q'.unread = q.unread := by
  unfold TxQueue.unread
  rw [hring, hseen, havail]

theorem unread_reclaimStep (p₁ : Reclaim) (q : TxQueue) :
    (reclaimStep p₁ q).2.unread = q.unread := by
  cases p₁ with
  | test =>
    unfold reclaimStep
    dsimp only
    split <;> rfl
  | push di =>
    obtain ⟨hring, -, -, hseen, havail, -, -⟩ := push_same di q
    exact unread_congr hring hseen havail
  | next => rfl

theorem unread_use (hq : q.use d = some q') : q'.unread = q.unread := by
  unfold TxQueue.use at hq
  split at hq
  · obtain rfl := Option.some.inj hq
    rfl
  · cases hq

theorem NetPc.Carries.congr {net : NetPc} {last : List UInt8} (h : net.Carries last q)
    (hbuf : q'.txBuf = q.txBuf) (hdesc : q'.txDesc = q.txDesc) : net.Carries last q' := by
  cases net with
  | publish idx len =>
    obtain ⟨hlen, hb⟩ := h
    exact ⟨hlen, hb.congr (congrFun hbuf idx) (congrFun hdesc idx)⟩
  | _ => exact h

theorem Reclaim.effect_cases (p₁ : Reclaim) : p₁.effect = .other ∨
    (∃ d, p₁.effect = .pushes d) ∨ p₁.effect = .increments := by
  cases p₁ with
  | test => exact Or.inl rfl
  | push d => exact Or.inr (Or.inl ⟨d, rfl⟩)
  | next => exact Or.inr (Or.inr rfl)

/-- The frame that has been stored is published. -/
theorem TxInv.publish_step {len : Nat} (hi : VnetInv tr v f p k) (ht : TxInv tr v)
    (hnet : v.net = .publish idx len) :
    TxInv (⟨v, (.net, some (len : Int)), { v with q := v.q.publish idx, net := .idle }⟩ :: tr)
      { v with q := v.q.publish idx, net := .idle } := by
  have heff : effect v .net = .publishes idx := by
    unfold effect
    rw [hnet]
  have hcarries := ht.carries
  rw [hnet] at hcarries
  obtain ⟨rfl, hb⟩ := hcarries
  have hc := hi.circulates
  unfold held at hc
  rw [hnet] at hc
  obtain ⟨new, hnew, hun⟩ := ht.order
  refine ⟨trivial, ⟨new ++ [onWire (Vnet.lastData tr)], ?_, ?_⟩, ?_, ?_⟩
  · show (if ((Vnet.lastData tr).length : Int) < 0 then Vnet.published tr else
      Vnet.published tr ++ [Vnet.lastData tr]).map onWire = _
    rw [if_neg (by omega), List.map_append, hnew, List.append_assoc]
    rfl
  · show ((v.q.publish idx).unread).map (fun d => v.q.frameAt d) = _
    rw [unread_publish hc, List.map_append, hun, List.map_singleton, hb.frame]
  · simp only [Vnet.inFlight, lent, heff, List.map_append, ht.descs, List.map_cons, List.map_nil]
  · intro x hx
    simp only [Vnet.inFlight, heff, List.mem_append, List.mem_singleton] at hx
    rcases hx with hx | rfl
    · exact (ht.bears x hx).congr rfl rfl
    · exact hb.congr rfl rfl

theorem TxInv.net_step (hi : VnetInv tr v f p k) (ht : TxInv tr v)
    (hs : netStep v = some (v', res)) : TxInv (⟨v, (.net, res), v'⟩ :: tr) v' := by
  have hstep : v.step .net = some (v', res) := hs
  have hcarries := ht.carries
  have hfetch : Act.net ≠ .fetch := Act.noConfusion
  have hnone : ∀ rc : Int, (none : Option Int) = some rc → rc < 0 := by
    intro rc he
    cases he
  unfold netStep at hs
  split at hs
  · cases hs
  · next p₁ data hnet =>
    rw [hnet] at hcarries
    have heff : effect v .net = p₁.effect := by
      unfold effect
      rw [hnet]
    dsimp only at hs
    split at hs <;> cases hs <;>
      exact ht.still hi hstep (heff ▸ p₁.effect_cases) hnone hfetch (unread_reclaimStep p₁ v.q)
        hcarries
  · next data hnet =>
    rw [hnet] at hcarries
    have heff : effect v .net = .other := by
      unfold effect
      rw [hnet]
    split at hs
    · cases hs
      refine ht.still hi hstep (Or.inl heff) (fun rc he => ?_) hfetch rfl trivial
      obtain rfl := Option.some.inj he
      decide
    · cases hs
      exact ht.still hi hstep (Or.inl heff) hnone hfetch rfl hcarries
  · next idx data hnet =>
    rw [hnet] at hcarries
    have heff : effect v .net = .other := by
      unfold effect
      rw [hnet]
    cases hs
    obtain rfl : data = Vnet.lastData tr := hcarries
    exact ht.still hi hstep (Or.inl heff) hnone hfetch rfl ⟨rfl, bears_fill idx _ v.q⟩
  · next idx len hnet =>
    cases hs
    exact ht.publish_step hi hnet

theorem map_eraseP_fst (d : Nat) (l : List (Nat × List UInt8)) :
    (l.eraseP fun x => x.1 = d).map Prod.fst = (l.map Prod.fst).erase d := by
  rw [List.erase_eq_eraseP, List.eraseP_map]
  congr 2
  funext x
  exact decide_eq_decide.mpr ⟨fun h => h.symm, fun h => h.symm⟩

theorem frameAt_congr (hbuf : q'.txBuf = q.txBuf) (hdesc : q'.txDesc = q.txDesc) (d : Nat) :
    q'.frameAt d = q.frameAt d := by
  unfold TxQueue.frameAt
  rw [hbuf, hdesc]

/-- The device reads the oldest frame that it has not read. -/
theorem TxInv.fetch_step (hi : VnetInv tr v f p k) (ht : TxInv tr v) (hq : v.q.fetch = some q') :
    TxInv (⟨v, (.fetch, none), { v with q := q' }⟩ :: tr) { v with q := q' } := by
  have hdata := (fetch_same hq).2.2
  obtain ⟨new, hnew, hun⟩ := ht.order
  rw [unread_fetch hi.circulates hq, List.map_cons] at hun
  refine ⟨?_, ⟨q'.unread.map fun d => v.q.frameAt d, ?_, ?_⟩, ht.descs, fun x hx => ?_⟩
  · exact ht.carries.congr hdata.1 hdata.2
  · show (Vnet.published tr).map onWire = (Vnet.read tr ++ [_]) ++ _
    rw [hnew, ← hun, List.append_assoc]
    rfl
  · exact List.map_congr_left fun d _ => frameAt_congr hdata.1 hdata.2 d
  · exact (ht.bears x hx).congr (congrFun hdata.1 _) (congrFun hdata.2 _)

theorem TxInv.use_step (ht : TxInv tr v) (hq : v.q.use d = some q') :
    TxInv (⟨v, (.use d, none), { v with q := q' }⟩ :: tr) { v with q := q' } := by
  have hdata := (use_same hq).2.2
  obtain ⟨new, hnew, hun⟩ := ht.order
  refine ⟨ht.carries.congr hdata.1 hdata.2, ⟨new, hnew, ?_⟩, ?_, fun x hx => ?_⟩
  · show q'.unread.map (fun d => q'.frameAt d) = new
    rw [unread_use hq, ← hun]
    exact List.map_congr_left fun d _ => frameAt_congr hdata.1 hdata.2 d
  · show ((Vnet.inFlight tr).eraseP fun x => x.1 = d).map Prod.fst = (lent tr).erase d
    rw [map_eraseP_fst, ht.descs]
  · exact (ht.bears x (List.mem_of_mem_eraseP hx)).congr (congrFun hdata.1 _) (congrFun hdata.2 _)

theorem TxInv.step (hi : VnetInv tr v f p k) (ht : TxInv tr v) (hs : v.step a = some (v', res)) :
    TxInv (⟨v, (a, res), v'⟩ :: tr) v' := by
  have hcarries := ht.carries
  have hnone : ∀ rc : Int, (none : Option Int) = some rc → rc < 0 := by
    intro rc he
    cases he
  have hrefused : ∀ rc : Int, some (-1) = some rc → rc < 0 := by
    intro rc he
    obtain rfl := Option.some.inj he
    decide
  have hstep := hs
  cases a with
  | vnetTx data =>
    simp only [Vnet.step] at hs
    split at hs
    · next data hnet =>
      split at hs
      · cases hs
        refine ht.still hi hstep (Or.inl rfl) hrefused Act.noConfusion rfl ?_
        rw [hnet]
        exact trivial
      · cases hs
        exact ht.still hi hstep (Or.inl rfl) hnone Act.noConfusion rfl rfl
    · next hnet =>
      cases hs
      refine ht.still hi hstep (Or.inl rfl) hrefused Act.noConfusion rfl ?_
      rw [hnet]
      exact trivial
    · cases hs
  | vnetProcess =>
    simp only [Vnet.step] at hs
    split at hs
    · cases hs
      exact ht.still hi hstep (Or.inl rfl) hnone Act.noConfusion rfl hcarries
    · cases hs
  | net => exact ht.net_step hi hs
  | drv =>
    obtain ⟨w, hw, he⟩ := Option.map_eq_some_iff.mp hs
    cases he
    unfold drvStep at hw
    split at hw
    · cases hw
    · next p₁ hdrv =>
      have heff : effect v .drv = p₁.effect := by
        unfold effect
        rw [hdrv]
      have hdata := reclaimStep_data p₁ v.q
      dsimp only at hw
      split at hw <;> cases hw <;>
        exact ht.still hi hstep (heff ▸ p₁.effect_cases) hnone Act.noConfusion
          (unread_reclaimStep p₁ v.q) (hcarries.congr hdata.1 hdata.2)
  | fetch =>
    obtain ⟨q', hq, he⟩ := Option.map_eq_some_iff.mp hs
    cases he
    exact ht.fetch_step hi hq
  | use d =>
    obtain ⟨q', hq, he⟩ := Option.map_eq_some_iff.mp hs
    cases he
    exact ht.use_step hq

/-! ## Runs -/

theorem Start.txInv (h : Start v) : TxInv [] v := by
  have hun : v.q.unread = [] := by
    unfold TxQueue.unread
    rw [h.seen, h.availIdx]
    rfl
  refine ⟨?_, ⟨[], rfl, ?_⟩, rfl, fun x hx => absurd hx List.not_mem_nil⟩
  · rw [h.net]
    exact trivial
  · rw [hun]
    rfl

theorem VRun.txInv (h : VRun Alone tr v) : TxInv tr v := by
  induction h with
  | start hi => exact hi.txInv
  | step hrun hs ih =>
    obtain ⟨f, p, k, hi⟩ := VRun.inv hrun
    exact ih.step hi hs.2

/-- The device has found the frames published in order, but for those it has not read, and what it
has not used is still there. -/
structure Transmitted (tr : VTrace) (v : Vnet) : Prop where
  order : ∃ new, (Vnet.published tr).map onWire = Vnet.read tr ++ new ∧ new.length ≤ queueSize
  kept : ∀ x ∈ Vnet.inFlight tr, v.q.frameAt x.1 = onWire x.2
  descs : (Vnet.inFlight tr).map Prod.fst = lent tr

/-- **The device reads every frame once, in order, and unchanged.** -/
theorem frames_transmitted (h : VRun Alone tr v) : Transmitted tr v := by
  obtain ⟨f, p, k, hi⟩ := h.inv
  have ht := h.txInv
  obtain ⟨new, hnew, hun⟩ := ht.order
  refine ⟨⟨new, hnew, ?_⟩, fun x hx => (ht.bears x hx).frame, ht.descs⟩
  have hlen := hi.circulates.length
  rw [← hun, List.length_map, ← available_eq_unread hi.circulates, length_available]
  omega

/-- Two frames are published, and the device reads one. -/
theorem frames_transmitted_two : ∃ tr v, VRun Alone tr v ∧ Vnet.published tr = [[1], [2, 3]] ∧
    Vnet.read tr = [onWire [1]] ∧ Transmitted tr v := by
  obtain ⟨tr, v, h, hp, hr⟩ := exists_perform vnetZero_start
    (.vnetTx (some [1]) :: List.replicate 4 .net ++ .vnetTx (some [2, 3]) ::
      List.replicate 4 .net ++ [.fetch])
    (f := Vnet.step) (C := Alone)
    (fun tr _ => Vnet.published tr = [[1], [2, 3]] ∧ Vnet.read tr = [onWire [1]])
    (by decide +kernel)
  exact ⟨tr, v, h, hp, hr, frames_transmitted h⟩

end Ittrium.Drv
