import Ittrium.Properties.Mailboxes
import Ittrium.Properties.WaitOrder

/-!
# The attributes of a mailbox

`TA_MFIFO` is 2 and `TA_MPRI` is 3, and both are tested with `objatr & TA_MPRI`: of what is asked
for in a mailbox's attributes only the order of the tasks with `TA_MFIFO`, and the order of the
messages with `TA_MPRI`, is what it gets by itself.

* `MbxOrders` — what is asked for, and the attributes that stand for it
* `Honoured` — the mailbox has done what was asked for
* `attributes_honoured` — **it does so while messages, or tasks, come in the order of priorities
  anyway**
-/

namespace Ittrium

open Infra

variable {cfg : Config} {i : MbxIx cfg} {t : TskIx cfg} {tr : Trace cfg} {s s' : Kernel cfg}
  {a a' : Spec.Model cfg} {c : Call cfg} {r : Ret cfg} {m : Fin cfg.nmsg}

/-- What is asked for: `TA_TPRI` or `TA_TFIFO` for the tasks, `TA_MPRI` or `TA_MFIFO` for the
messages. -/
structure MbxOrders where
  tpri : Bool
  mpri : Bool

namespace MbxOrders

def atr (q : MbxOrders) : ATR :=
  (if q.tpri then taTpri else taTfifo) ||| (if q.mpri then taMpri else taMfifo)

/-- Messages are always kept by priority. -/
theorem atr_mpri (q : MbxOrders) : q.atr &&& taMpri ≠ 0 := by
  obtain ⟨b₁, b₂⟩ := q
  cases b₁ <;> cases b₂ <;> decide

/-- Tasks are kept by priority if this is asked for, of them or of messages. -/
theorem atr_tpri (q : MbxOrders) : q.atr &&& taTpri ≠ 0 ↔ q.tpri = true ∨ q.mpri = true := by
  obtain ⟨b₁, b₂⟩ := q
  cases b₁ <;> cases b₂ <;> decide

end MbxOrders

/-- A mailbox for which `q` was asked, after the run `tr` since its creation. -/
structure Honoured (q : MbxOrders) (i : MbxIx cfg) (tr : Trace cfg) (s : Kernel cfg) : Prop where
  /-- Messages are received in the order in which they were sent. -/
  mfifo : q.mpri = false →
    received i tr ++ (Spec.queued s.core i).map MsgPtr.pkt = (sent i tr).map MsgPtr.pkt
  /-- No message is refused. -/
  accepted : q.mpri = false → ∀ e ∈ tr, Spec.Call.sndMsg i e.label.1 ≠ none → e.label.2 = .er .ok
  /-- The next message that is received is the most urgent one. -/
  mpri : q.mpri = true → ∀ l s', StepOf SoundSend s l s' → ¬ Deletes (.mbx i) l.1 →
    NextDelivery i taMpri tr ⟨s, l, s'⟩
  tfifo : q.tpri = false → waiters (.mbx i) s = arrivals (.mbx i) tr
  tpri : q.tpri = true →
    StablySorted (fun t => (s.core.tcb t).tskpri) (arrivals (.mbx i) tr) (waiters (.mbx i) s)
  /-- Tasks are served in the order in which they wait. -/
  served : ∀ l s' t ts, StepOf SoundSend s l s' → waiters (.mbx i) s = t :: ts →
    Spec.Call.sndMsg i l.1 ≠ none → l.2 = .er .ok → ReleasesFirst (.mbx i) t s s'

/-- A message comes in the order of priorities. -/
def SendsInTurn (i : MbxIx cfg) (s : Kernel cfg) (c : Call cfg) : Prop :=
  ∀ m, Spec.Call.sndMsg i c = some m →
    0 < s.core.msgpri m ∧ ∀ y ∈ Spec.queued s.core i, s.core.msgpri y ≤ s.core.msgpri m

/-- A task comes to wait in the order of priorities. -/
def WaitsInTurn (i : MbxIx cfg) (s : Kernel cfg) (c : Call cfg) : Prop :=
  ∀ tmout, Spec.Call.wait c = some (some (.mbx i), tmout) → tmout ≠ tmoPol →
    tmoFevr.toInt ≤ tmout.toInt →
      ∀ t ∈ caller s, ∀ u ∈ waiters (.mbx i) s, (s.core.tcb u).tskpri ≤ (s.core.tcb t).tskpri

/-- **The order that is kept is the one that was asked for.** -/
def InTurn (q : MbxOrders) (i : MbxIx cfg) (s : Kernel cfg) (c : Call cfg) : Prop :=
  (q.mpri = false → SendsInTurn i s c) ∧ (q.tpri = false → q.mpri = true → WaitsInTurn i s c)

/-! ## Steps -/

/-- **While every task that comes to wait is at most as urgent as those who wait, they stand in
the order of their priorities.** -/
theorem InOrder.sorted {C : Kernel cfg → Call cfg → Prop} {o : ObjId cfg}
    (h : InOrder o a.core (arrivals o tr) (a.queue (.waitq o))) (hm : Moves C s a c r s' a')
    (hs : KeySorted (fun t => (a.core.tcb t).tskpri) (arrivals o tr))
    (hjoin : ∀ t tmout, r = .blocked → Spec.Call.wait c = some (some o, tmout) →
      a.runtsk = some t → ∀ u ∈ arrivals o tr, (a.core.tcb u).tskpri ≤ (a.core.tcb t).tskpri) :
    KeySorted (fun t => (a'.core.tcb t).tskpri) (arrivals o (⟨s, (c, r), s'⟩ :: tr)) := by
  -- a step in which nobody comes can only shorten the line
  have hcalm : ∀ {b : Spec.Model cfg}, b.core = a'.core → r ≠ .blocked → Spec.Calm a b →
      KeySorted (fun t => (a'.core.tcb t).tskpri) (arrivals o (⟨s, (c, r), s'⟩ :: tr)) := by
    intro b hcore hr hc
    rw [arrivals, if_neg fun he => hr he.1]
    simp only [hm.post.refines.core, ← hcore]
    exact KeySorted.congr (hs.sublist List.filter_sublist) fun u hu =>
      (hc.keep u (waitsFor_iff.mp (List.mem_filter.mp hu).2).1).2.1.tskpri
  cases Spec.exec_step hm.pre.inv hm.sound _ hm.spec with
  | steady hr hst => exact hcalm rfl hr hst.toCalm
  | dispatch hr hc => exact hcalm rfl hr hc.dispatch
  | @blocked t o' tmout b hw hrun hb =>
    have hcaller : caller s = [t] := by
      unfold caller
      rw [hm.pre.refines.runtsk, hrun, Refine.ptr_some]
    have hkept : KeySorted (fun t => (b.core.tcb t).tskpri) (arrivals o tr) :=
      hs.congr fun u _ => hb.tskpri_all u
    have hstill := h.still hm.pre.inv.toSettled hb
    rw [arrivals]
    simp only [hm.post.refines.core, hcaller]
    show KeySorted (fun t => (b.core.tcb t).tskpri)
      (if Arrives o (c, .blocked) then (arrivals o tr).filter (waitsFor o b.core) ++ [t]
        else (arrivals o tr).filter (waitsFor o b.core))
    rw [hstill]
    split
    -- the one who comes goes to the end
    · next harr =>
      have ho : o' = some o := by
        have harr := harr.2
        rw [hw] at harr
        exact Option.some.inj harr
      refine List.pairwise_append.mpr ⟨hkept, List.pairwise_singleton _ _, fun u hu v hv => ?_⟩
      rw [List.mem_singleton] at hv
      have hle := hjoin t tmout rfl (by rw [hw, ho]) hrun u hu
      rw [← hb.tskpri_all, ← hb.tskpri_all t] at hle
      exact hv ▸ hle
    · exact hkept

/-! ## Runs -/

/-- The messages and the tasks of a mailbox for which `q` was asked. -/
structure OrdersInv (q : MbxOrders) (i : MbxIx cfg) (tr : Trace cfg) (a : Spec.Model cfg) : Prop
    extends MbxInv i q.atr tr a where
  line : InOrder (.mbx i) a.core (arrivals (.mbx i) tr) (a.queue (.waitq (.mbx i)))
  arrived : q.mpri = false → History False a.core.msgpri MsgPtr.pkt (sent i tr) (received i tr)
    (outstanding i tr) (Spec.queued a.core i)
  accepted : q.mpri = false → ∀ e ∈ tr, Spec.Call.sndMsg i e.label.1 ≠ none → e.label.2 = .er .ok
  sorted : q.tpri = false → q.mpri = true →
    KeySorted (fun t => (a.core.tcb t).tskpri) (arrivals (.mbx i) tr)

variable {q : MbxOrders}

/-- A message that comes in its turn goes to the end. -/
theorem SendsInTurn.place (h : SendsInTurn i s c) (hcore : s.core = a.core)
    (hs : sentAt i (c, r) = some m) :
    Spec.place a.core i m (Spec.queued a.core i) = Spec.queued a.core i ++ [m] := by
  have hsnd : Spec.Call.sndMsg i c = some m := by
    unfold sentAt at hs
    split at hs
    · exact hs
    · cases hs
  unfold Spec.place
  split
  · exact insertStable_of_le fun y hy => hcore ▸ (h m hsnd).2 y (hcore ▸ hy)
  · rfl

theorem OrdersInv.start {C : Kernel cfg → Call cfg → Prop} {mbxid : Int} {pk : TCmbx}
    (hi : getMbxcb mbxid = .ok i) (hl : Spec.CreatesMbx mbxid pk c r) (hq : pk.mbxatr = q.atr)
    (hm : Moves C s a c r s' a') (hch : Spec.Chains a.core) : OrdersInv q i [] a' := by
  have hinv := MbxInv.start hi hl hm hch
  rw [hq] at hinv
  obtain ⟨j, hj, hno, ha⟩ := Spec.exec_createsMbx hl hm.spec
  obtain rfl : i = j := Except.ok.inj (hi.symm.trans hj)
  have hline : a'.queue (.waitq (.mbx i)) = [] := by
    rw [ha]
    exact hm.pre.inv.toSettled.waitq_eq_nil (o := .mbx i) hno
  have hqueued : Spec.queued a'.core i = [] := by
    have hperm := hinv.history.perm
    simpa [sent, received] using hperm
  refine ⟨hinv, ?_, fun _ => ?_, fun _ e he => (by cases he), fun _ _ => .nil⟩
  · rw [hline]
    exact ⟨fun _ => rfl, fun _ => .nil⟩
  · rw [hqueued]
    exact .nil

theorem OrdersInv.step {C : Kernel cfg → Call cfg → Prop} (h : OrdersInv q i tr a)
    (hm : Moves C s a c r s' a') (hd : Spec.Delivers c r a a') (hdel : ¬ Deletes (.mbx i) c)
    (hturn : InTurn q i s c) : OrdersInv q i (⟨s, (c, r), s'⟩ :: tr) a' := by
  have hcore := hm.pre.refines.core
  obtain ⟨hstep, hlasts⟩ := hd.step i h.existing fun mbxid hc hi => hdel (by
    subst hc
    simp [Deletes, hi, Except.toOption])
  refine ⟨h.toMbxInv.step hm hd hdel, h.line.step hm, fun hq => ?_, fun hq e he hsnd => ?_,
    fun hqt hqm => ?_⟩
  · refine (hm.mbxEvent hstep).history (h.arrived hq) (h.chains.nodup i) h.nobody hlasts.msgpri
      fun m hs => ?_
    rw [if_neg not_false]
    exact (hturn.1 hq).place hcore hs
  · rcases List.mem_cons.mp he with rfl | he
    · obtain ⟨m, hs⟩ := Option.ne_none_iff_exists'.mp hsnd
      exact Spec.exec_sndMsg_ok hs h.existing (hcore ▸ (hturn.1 hq m hs).1) hm.spec
    · exact h.accepted hq e he hsnd
  · refine h.line.sorted hm (h.sorted hqt hqm) fun t tmout hr hw ht u hu => ?_
    subst hr
    obtain ⟨hpol, hle⟩ := Spec.exec_rcvMbx_tmout hw hm.spec
    have hex : (s.core.objcb (.mbx i)).state ≠ .noexs := by
      rw [hcore]
      exact h.existing
    -- the condition speaks of the callers and the waiters that the kernel shows
    have hcall : t ∈ caller s := by
      unfold caller
      rw [hm.pre.refines.runtsk, ht, Refine.ptr_some]
      exact List.mem_singleton.mpr rfl
    have hwait := hturn.2 hqt hqm tmout hw hpol hle t hcall u (by
      rw [hm.pre.waiters_eq _ hex]
      exact h.line.mem_iff.mp hu)
    rwa [hcore] at hwait

/-- The mailbox's attributes, as its control block has them. -/
theorem OrdersInv.objatr_tpri (h : OrdersInv q i tr a) :
    (a.core.objcb (.mbx i)).objatr &&& taTpri ≠ 0 ↔ q.tpri = true ∨ q.mpri = true := by
  rw [← q.atr_tpri, ← h.objatr]
  exact Iff.rfl

/-- The line of the mailbox is in the order that was asked for. -/
theorem OrdersInv.tfifo (h : OrdersInv q i tr a) (hq : q.tpri = false) :
    a.queue (.waitq (.mbx i)) = arrivals (.mbx i) tr := by
  by_cases hm : q.mpri = true
  · exact (h.line.byPriority (h.objatr_tpri.mpr (Or.inr hm))).eq_of_sorted
      (h.sorted hq hm)
  · refine h.line.fifo (not_not.mp fun hne => ?_)
    rcases h.objatr_tpri.mp hne with ht | ht
    · rw [hq] at ht
      cases ht
    · exact hm ht

/-- All attributes with the bits of `TA_MPRI` mean the same order. -/
theorem NextDelivery.of_bits {atr atr' : ATR} {e : Event (Kernel cfg) (Label cfg)}
    (h : NextDelivery i atr tr e) (hb : atr &&& taMpri ≠ 0) (hb' : atr' &&& taMpri ≠ 0) :
    NextDelivery i atr' tr e := by
  rcases h with h | ⟨m, hd, h | ⟨hs, l₁, l₂, he, -, hpri⟩⟩
  · exact Or.inl h
  · exact Or.inr ⟨m, hd, Or.inl h⟩
  · exact Or.inr ⟨m, hd, Or.inr ⟨hs, l₁, l₂, he, fun h0 => absurd h0 hb', fun _ => hpri hb⟩⟩

/-- A message goes to the first task that waits for one. -/
theorem Moves.serves_first {C : Kernel cfg → Call cfg → Prop} {ts : List (TskIx cfg)}
    (hm : Moves C s a c r s' a') (hsnd : Spec.Call.sndMsg i c = some m) (hr : r = .er .ok)
    (hex : (s.core.objcb (.mbx i)).state ≠ .noexs) (hw : waiters (.mbx i) s = t :: ts) :
    ReleasesFirst (.mbx i) t s s' := by
  cases c with
  | sndMbx mbxid m' =>
    simp only [Spec.Call.sndMsg] at hsnd
    split at hsnd
    · next hi => exact hm.pre.sndMbx_first hm.post hi hex (hr ▸ hm.spec) hw
    · cases hsnd
  | _ => cases hsnd

/-- **The attributes of a mailbox mean what they say while messages, where `TA_MFIFO` was asked for,
and tasks, where `TA_TFIFO` was asked for with `TA_MPRI`, come in the order of priorities.** -/
theorem attributes_honoured {mbxid : Int} {pk : TCmbx} {s₀ s₁ : Kernel cfg} {l : Label cfg}
    (hi : getMbxcb mbxid = .ok i) (hl : Spec.CreatesMbx mbxid pk l.1 l.2) (hq : pk.mbxatr = q.atr)
    (h : SinceOf SoundSend (fun s c => ¬ Deletes (.mbx i) c ∧ InTurn q i s c) s₀ l s₁ tr s) :
    Honoured q i tr s := by
  obtain ⟨tr₀, h₀⟩ := h.before
  obtain ⟨b, hb, hch₀⟩ := h₀.chains
  have hunq : ∀ {s : Kernel cfg} {a : Spec.Model cfg} {c : Call cfg}, Models s a → SoundSend s c →
      ∀ m, Spec.Call.msg c = some m → Spec.Unqueued a.core m := fun hm hc m hmsg => by
    rw [← hm.refines.core]
    exact hc.2 m hmsg
  obtain ⟨a, hm, hinv⟩ := h.lift (P := OrdersInv q i) (fun _ _ h => h.1)
    (fun a₀ a₁ hm => .start hi hl hq hm (by rwa [← hm.pre.refines.core, hb.refines.core]))
    fun tr s a c r s' a' hm hinv => hinv.step hm
      (Spec.exec_messages hm.pre.inv hm.sound hinv.chains (hunq hm.pre hm.call.1) hm.spec)
      hm.call.2.1 hm.call.2.2
  have hcore := hm.refines.core
  have hex : (s.core.objcb (.mbx i)).state ≠ .noexs := by
    rw [hcore]
    exact hinv.existing
  have hwait := hm.waiters_eq _ hex
  refine ⟨fun hq => ?_, hinv.accepted, fun hq l s' hs hdel => ?_, fun hq => ?_, fun hq => ?_,
    fun l s' t ts hs hw hsnd hr => ?_⟩
  · rw [hcore]
    exact ((hinv.arrived hq).fifo not_false).1
  · obtain ⟨a', hmv⟩ := hm.moves (fun _ _ h => h.1) hs
    exact (hinv.next hmv (Spec.exec_messages hmv.pre.inv hmv.sound hinv.chains
      (hunq hm hmv.call) hmv.spec) hdel).of_bits q.atr_mpri (by decide)
  · rw [hwait]
    exact hinv.tfifo hq
  · rw [hwait, hcore]
    exact hinv.line.byPriority (hinv.objatr_tpri.mpr (Or.inl hq))
  · obtain ⟨a', hmv⟩ := hm.moves (fun _ _ h => h.1) hs
    obtain ⟨m, hsnd⟩ := Option.ne_none_iff_exists'.mp hsnd
    exact hmv.serves_first hsnd hr hex hw

instance (i : MbxIx cfg) (s : Kernel cfg) (c : Call cfg) : Decidable (SendsInTurn i s c) :=
  inferInstanceAs (Decidable (∀ _, _ → _))

instance (i : MbxIx cfg) (s : Kernel cfg) (c : Call cfg) : Decidable (WaitsInTurn i s c) :=
  match hw : Spec.Call.wait c with
  | some (some o, tmout) =>
    if hk : o = .mbx i ∧ tmout ≠ tmoPol ∧ tmoFevr.toInt ≤ tmout.toInt then
      decidable_of_iff ((caller s).all fun t => (waiters (.mbx i) s).all fun u =>
        (s.core.tcb u).tskpri ≤ (s.core.tcb t).tskpri) (by
          simp only [List.all_eq_true, decide_eq_true_eq]
          constructor
          · exact fun h _ _ _ _ => h
          · exact fun h => h tmout (by rw [hw, hk.1]) hk.2.1 hk.2.2)
    else isTrue fun tmout' hw' hp hle => by
      rw [hw] at hw'
      cases hw'
      exact absurd ⟨rfl, hp, hle⟩ hk
  | some (none, _) => isTrue fun _ hw' => by rw [hw] at hw'; cases hw'
  | none => isTrue fun _ hw' => by rw [hw] at hw'; cases hw'

instance (q : MbxOrders) (i : MbxIx cfg) (s : Kernel cfg) (c : Call cfg) :
    Decidable (InTurn q i s c) :=
  inferInstanceAs (Decidable ((_ → _) ∧ (_ → _ → _)))

/-- Messages come with rising priorities, and both orders are the same. -/
theorem attributes_honoured_rising : ∃ (tr : Trace smallConfig) (s : Kernel smallConfig),
    Honoured ⟨false, false⟩ 0 tr s ∧ sent 0 tr = [0, 1] ∧ received 0 tr = [.pkt 0] := by
  obtain ⟨s₀, l, s₁, tr, s, h, hl, hr, hsent, hrcv⟩ := exists_sinceOf (C := SoundSend)
    (D := fun s c => ¬ Deletes (.mbx 0) c ∧ InTurn ⟨false, false⟩ 0 s c)
    (Q := fun _ l tr _ => l.2 = .er .ok ∧ sent 0 tr = [0, 1] ∧ received 0 tr = [.pkt 0])
    (startTasks [1] ++ [.dispatch, .setMsgpri 0 1, .setMsgpri 1 2])
    (.creMbx 1 ⟨taTfifo ||| taMfifo⟩) [.sndMbx 1 0, .sndMbx 1 1, .prcvMbx 1 8] zeroed
    (by decide +kernel)
  exact ⟨tr, s, attributes_honoured (show getMbxcb 1 = .ok 0 from rfl) (Or.inl ⟨hl, hr⟩) rfl h,
    hsent, hrcv⟩

/-- **One attribute switches another one on**: with `TA_MFIFO` the later message is received first,
and a message without a priority is refused; with `TA_TFIFO` and `TA_MPRI` the task that came later
stands first. -/
theorem attributes_confused :
    (∃ s₀ l s₁ tr s, SinceOf SoundSend (fun (_ : Kernel smallConfig) c => ¬ Deletes (.mbx 0) c)
      s₀ l s₁ tr s ∧ Spec.CreatesMbx 1 ⟨MbxOrders.atr ⟨false, false⟩⟩ l.1 l.2 ∧
      ¬ Honoured ⟨false, false⟩ 0 tr s ∧ sent 0 tr = [0, 1] ∧ received 0 tr = [.pkt 1]) ∧
    (∃ s₀ l s₁ tr s, SinceOf SoundSend (fun (_ : Kernel smallConfig) c => ¬ Deletes (.mbx 0) c)
      s₀ l s₁ tr s ∧ Spec.CreatesMbx 1 ⟨MbxOrders.atr ⟨false, false⟩⟩ l.1 l.2 ∧
      ¬ Honoured ⟨false, false⟩ 0 tr s ∧ tr.map Event.label = [(.sndMbx 1 0, .er .par)]) ∧
    ∃ s₀ l s₁ tr s, SinceOf SoundSend (fun (_ : Kernel smallConfig) c => ¬ Deletes (.mbx 0) c)
      s₀ l s₁ tr s ∧ Spec.CreatesMbx 1 ⟨MbxOrders.atr ⟨false, true⟩⟩ l.1 l.2 ∧
      ¬ Honoured ⟨false, true⟩ 0 tr s ∧ arrivals (.mbx 0) tr = [0, 1] ∧
      waiters (.mbx 0) s = [1, 0] := by
  refine ⟨?_, ?_, ?_⟩
  · obtain ⟨s₀, l, s₁, tr, s, h, hl, hr, hsent, hrcv⟩ := exists_sinceOf (C := SoundSend)
      (D := fun _ c => ¬ Deletes (.mbx 0) c)
      (Q := fun _ l tr _ => l.2 = .er .ok ∧ sent 0 tr = [0, 1] ∧ received 0 tr = [.pkt 1])
      (startTasks [1] ++ [.dispatch, .setMsgpri 0 2, .setMsgpri 1 1])
      (.creMbx 1 ⟨MbxOrders.atr ⟨false, false⟩⟩) [.sndMbx 1 0, .sndMbx 1 1, .prcvMbx 1 8] zeroed
      (by decide +kernel)
    refine ⟨s₀, l, s₁, tr, s, h, Or.inl ⟨hl, hr⟩, fun hh => ?_, hsent, hrcv⟩
    have hfifo := hh.mfifo rfl
    rw [hsent, hrcv] at hfifo
    cases hfifo
  · obtain ⟨s₀, l, s₁, tr, s, h, hl, hr, htr⟩ := exists_sinceOf (C := SoundSend)
      (D := fun _ c => ¬ Deletes (.mbx 0) c)
      (Q := fun _ l tr _ => l.2 = .er .ok ∧ tr.map Event.label = [(.sndMbx 1 0, .er .par)])
      (startTasks [1] ++ [.dispatch]) (.creMbx 1 ⟨MbxOrders.atr ⟨false, false⟩⟩) [.sndMbx 1 0]
      zeroed (by decide +kernel)
    refine ⟨s₀, l, s₁, tr, s, h, Or.inl ⟨hl, hr⟩, fun hh => ?_, htr⟩
    obtain ⟨e, rfl, he⟩ := List.map_eq_singleton_iff.mp htr
    have hok := hh.accepted rfl e (by simp) (by rw [he]; decide)
    rw [he] at hok
    cases hok
  · obtain ⟨s₀, l, s₁, tr, s, h, hl, hr, harr, hw⟩ := exists_sinceOf (C := SoundSend)
      (D := fun _ c => ¬ Deletes (.mbx 0) c)
      (Q := fun _ l tr s => l.2 = .er .ok ∧ arrivals (.mbx 0) tr = [0, 1] ∧
        waiters (.mbx 0) s = [1, 0])
      (startTasks [2, 1] ++ [.dispatch, .slpTsk])
      (.creMbx 1 ⟨MbxOrders.atr ⟨false, true⟩⟩) [.rcvMbx 1 8, .iwupTsk 2, .dispatch, .rcvMbx 1 16]
      zeroed (by decide +kernel)
    refine ⟨s₀, l, s₁, tr, s, h, Or.inl ⟨hl, hr⟩, fun hh => ?_, harr, hw⟩
    have hfifo := hh.tfifo rfl
    rw [harr, hw] at hfifo
    cases hfifo

end Ittrium
