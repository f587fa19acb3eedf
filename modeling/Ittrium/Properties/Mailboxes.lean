import Ittrium.Properties.Semaphores
import Ittrium.Infra.History
import Ittrium.Spec.Deliveries

/-!
# The messages of a mailbox

* `sentAt`, `deliveries` — the message a step sends, and what it hands to receivers
* `sent`, `received`, `outstanding` — all messages since the creation, in order
* `Delivered` — received and queued messages are the sent ones, in the order of the attribute
* `mbx_delivers` — **it is so in every run up to the deletion**
-/

namespace Ittrium

open Infra

variable {cfg : Config} {i : MbxIx cfg} {t : TskIx cfg} {tr : Trace cfg} {s s' : Kernel cfg}
  {a a' : Spec.Model cfg} {c : Call cfg} {r : Ret cfg} {m : Fin cfg.nmsg} {l : Label cfg}
  {e : Event (Kernel cfg) (Label cfg)}

/-! ## What has happened -/

instance (c : Core cfg) (m : Fin cfg.nmsg) : Decidable (Spec.Unqueued c m) :=
  inferInstanceAs (Decidable (∀ i, m ∉ Spec.queued c i))

/-- A message that is sent, or whose priority is written, is in no mailbox. -/
def SoundSend (s : Kernel cfg) (c : Call cfg) : Prop :=
  SoundCall s c ∧ ∀ m, Spec.Call.msg c = some m → Spec.Unqueued s.core m

instance (s : Kernel cfg) (c : Call cfg) : Decidable (SoundSend s c) :=
  inferInstanceAs (Decidable (_ ∧ ∀ _, _ → _))

/-- The message the step sends to the mailbox. -/
def sentAt (i : MbxIx cfg) (l : Label cfg) : Option (Fin cfg.nmsg) :=
  if l.2 = .er .ok then Spec.Call.sndMsg i l.1 else none

/-- The tasks whose wait for the mailbox the step ends with a message. -/
def receivers (i : MbxIx cfg) (s s' : Kernel cfg) : List (TskIx cfg) :=
  (List.finRange cfg.tnumTskid).filter fun t =>
    leaves (.mbx i) s s' t && (s'.core.tcb t).ercd = .ok

/-- What the step gives its caller, and tasks that wait. -/
def deliveries (i : MbxIx cfg) (e : Event (Kernel cfg) (Label cfg)) : List (MsgPtr cfg) :=
  (if e.label.2 = .er .ok then
    (Spec.Call.rcvPtr i e.label.1).toList.map e.post.core.msgvar else []) ++
  (receivers i e.pre e.post).map fun t => e.post.core.msgvar (e.pre.core.tcb t).waitinfo.ppkMsg

/-- Messages sent, the first one first. -/
def sent (i : MbxIx cfg) : Trace cfg → List (Fin cfg.nmsg)
  | [] => []
  | e :: tr => sent i tr ++ (sentAt i e.label).toList

/-- What the receivers have got, the first one first. -/
def received (i : MbxIx cfg) : Trace cfg → List (MsgPtr cfg)
  | [] => []
  | e :: tr => received i tr ++ deliveries i e

/-- Messages sent and not received, in the order of sending. -/
def outstanding (i : MbxIx cfg) : Trace cfg → List (Fin cfg.nmsg)
  | [] => []
  | e :: tr => (outstanding i tr ++ (sentAt i e.label).toList).filter fun m =>
      .pkt m ∉ deliveries i e

/-! ## One step -/

/-- Nobody gets a message whose wait ends with a timeout. -/
theorem Moves.receivers_eq_nil {C : Kernel cfg → Call cfg → Prop} (hm : Moves C s a c r s' a')
    (h : ∀ t ∈ a.queue (.waitq (.mbx i)), t ∉ a'.queue (.waitq (.mbx i)) →
      (a'.core.tcb t).ercd ≠ .ok) : receivers i s s' = [] := by
  refine List.filter_eq_nil_iff.mpr fun t _ ht => ?_
  obtain ⟨⟨h₁, h₂⟩, h₃⟩ := (hm.leaves_ok_iff _).mp ht
  exact h t h₁ h₂ h₃

/-- The first task of the line gets the message. -/
theorem Moves.receivers_eq_singleton {C : Kernel cfg → Call cfg → Prop} {ts : List (TskIx cfg)}
    (hm : Moves C s a c r s' a') (hq : a.queue (.waitq (.mbx i)) = t :: ts)
    (hq' : a'.queue (.waitq (.mbx i)) = ts) (he : (a'.core.tcb t).ercd = .ok) :
    receivers i s s' = [t] := by
  have hfilter : receivers i s s' = (List.finRange cfg.tnumTskid).filter (· = t) :=
    List.filter_congr fun u _ => by rw [Bool.eq_iff_iff, hm.leaves_ok_head hq hq' he, decide_eq_true_iff]
  rw [hfilter, List.filter_eq, List.count_eq_one_of_mem (List.nodup_finRange _)
    (List.mem_finRange t)]
  rfl

theorem sentAt_of_snd (hs : Spec.Call.sndMsg i c = some m) (hr : r = .er .ok) :
    sentAt i (c, r) = some m := by rw [sentAt, if_pos hr, hs]

theorem sentAt_of_fails (h : Spec.Call.sndMsg i c ≠ none → r ≠ .er .ok) :
    sentAt i (c, r) = none := by
  unfold sentAt
  split
  · next hr => exact not_not.mp fun hn => h hn hr
  · rfl

theorem rcvPtr_of_snd (hs : Spec.Call.sndMsg i c = some m) : Spec.Call.rcvPtr i c = none := by
  cases c <;> first | rfl | cases hs

theorem sndMsg_of_rcv {p : VP} (hs : Spec.Call.rcvPtr i c = some p) :
    Spec.Call.sndMsg i c = none := by
  cases c <;> first | rfl | cases hs

/-- The history of a mailbox after one more step. -/
inductive MbxEvent (i : MbxIx cfg) (a : Spec.Model cfg) (e : Event (Kernel cfg) (Label cfg))
    (a' : Spec.Model cfg) : Prop where
  | handed {m : Fin cfg.nmsg} : sentAt i e.label = some m → deliveries i e = [.pkt m] →
      a.queue (.waitq (.mbx i)) ≠ [] → Spec.queued a'.core i = Spec.queued a.core i →
      MbxEvent i a e a'
  | stored {m : Fin cfg.nmsg} : sentAt i e.label = some m → deliveries i e = [] →
      a'.queue (.waitq (.mbx i)) = [] →
      Spec.queued a'.core i = Spec.place a.core i m (Spec.queued a.core i) →
      a'.core.msgpri m = a.core.msgpri m → MbxEvent i a e a'
  | taken {m : Fin cfg.nmsg} : sentAt i e.label = none → deliveries i e = [.pkt m] →
      Spec.queued a.core i = m :: Spec.queued a'.core i →
      a'.queue (.waitq (.mbx i)) = a.queue (.waitq (.mbx i)) → MbxEvent i a e a'
  | still : sentAt i e.label = none → deliveries i e = [] →
      Spec.queued a'.core i = Spec.queued a.core i →
      (a'.queue (.waitq (.mbx i)) ≠ [] →
        a.queue (.waitq (.mbx i)) ≠ [] ∨ Spec.queued a.core i = []) → MbxEvent i a e a'

/-- **What a step does to a mailbox.** -/
theorem Moves.mbxEvent {C : Kernel cfg → Call cfg → Prop} (hm : Moves C s a c r s' a')
    (h : Spec.MbxStep i c r a a') : MbxEvent i a ⟨s, (c, r), s'⟩ a' := by
  cases h with
  | @handed m t ts hs hr hq hq' he hv hqs =>
    refine .handed (sentAt_of_snd hs hr) ?_ (by rw [hq]; simp) hqs
    simp only [deliveries, rcvPtr_of_snd hs, hm.receivers_eq_singleton hq hq' he,
      hm.pre.refines.core, hm.post.refines.core, List.map_cons, List.map_nil, hv]
    split <;> rfl
  | @stored m hs hr hq hq' hqs hpri =>
    refine .stored (sentAt_of_snd hs hr) ?_ hq' hqs hpri
    -- nobody has been waiting
    have hnil : receivers i s s' = [] := hm.receivers_eq_nil fun t ht => by
      rw [hq] at ht
      cases ht
    simp only [deliveries, rcvPtr_of_snd hs, hnil]
    split <;> rfl
  | @taken p m l hp hr hq hq' hv hline =>
    refine .taken (sentAt_of_fails fun hn => absurd (sndMsg_of_rcv hp) hn) ?_
      (by rw [hq, hq']) hline
    have hnil : receivers i s s' = [] := hm.receivers_eq_nil fun t ht hn => by
      rw [hline] at hn
      exact absurd ht hn
    simp only [deliveries, hp, hr, hnil, if_true, hm.post.refines.core, Option.toList_some,
      List.map_cons, List.map_nil, hv, List.append_nil]
  | still hs hp hqs hjoin hleave =>
    refine .still (sentAt_of_fails hs) ?_ hqs hjoin
    have hnil : receivers i s s' = [] := hm.receivers_eq_nil fun t ht hn => by
      rw [hleave t ht hn]
      decide
    have hnone : r = .er .ok → Spec.Call.rcvPtr i c = none := fun hr => not_not.mp fun hn =>
      hp hn hr
    simp only [deliveries, hnil]
    split
    · next hr => rw [hnone hr]; rfl
    · rfl

/-! ## All steps -/

/-- The messages of a mailbox against its past. -/
structure MbxInv (i : MbxIx cfg) (atr : ATR) (tr : Trace cfg) (a : Spec.Model cfg) : Prop where
  existing : (a.core.mbxcb i).obj.state ≠ .noexs
  objatr : (a.core.mbxcb i).obj.objatr = atr
  chains : Spec.Chains a.core
  nobody : Spec.queued a.core i ≠ [] → a.queue (.waitq (.mbx i)) = []
  history : History (atr &&& taMpri ≠ 0) a.core.msgpri MsgPtr.pkt (sent i tr) (received i tr)
    (outstanding i tr) (Spec.queued a.core i)

variable {atr : ATR}

/-- Nothing is delivered: what is outstanding stays so. -/
theorem filter_of_no_delivery (l : List (Fin cfg.nmsg)) {d : List (MsgPtr cfg)} (hd : d = []) :
    (l.filter fun m => (.pkt m : MsgPtr cfg) ∉ d) = l := by
  subst hd
  exact List.filter_eq_self.mpr fun _ _ => by simp

/-- A message is delivered: it is outstanding no more. -/
theorem filter_of_delivery {l : List (Fin cfg.nmsg)} (hnd : l.Nodup) {d : List (MsgPtr cfg)}
    (hd : d = [.pkt m]) : (l.filter fun m => (.pkt m : MsgPtr cfg) ∉ d) = l.erase m := by
  subst hd
  rw [hnd.erase_eq_filter]
  exact List.filter_congr fun x _ => by rw [Bool.eq_iff_iff]; simp [Spec.pkt_injective.eq_iff]

/-- **The history of a mailbox goes on.** -/
theorem MbxEvent.history {e : Event (Kernel cfg) (Label cfg)} {byKey : Prop} [Decidable byKey]
    (hev : MbxEvent i a e a')
    (h : History byKey a.core.msgpri MsgPtr.pkt (sent i tr) (received i tr) (outstanding i tr)
      (Spec.queued a.core i))
    (hnd : (Spec.queued a.core i).Nodup)
    (hnobody : Spec.queued a.core i ≠ [] → a.queue (.waitq (.mbx i)) = [])
    (hpri : ∀ y ∈ Spec.queued a.core i, a'.core.msgpri y = a.core.msgpri y)
    (hplace : ∀ m, sentAt i e.label = some m →
      Spec.place a.core i m (Spec.queued a.core i) =
        if byKey then insertStable a.core.msgpri m (Spec.queued a.core i)
        else Spec.queued a.core i ++ [m]) :
    History byKey a'.core.msgpri MsgPtr.pkt (sent i (e :: tr)) (received i (e :: tr))
      (outstanding i (e :: tr)) (Spec.queued a'.core i) := by
  have hout : (outstanding i tr).Nodup := by
    by_cases hb : byKey
    · exact (h.sorted hb).perm.nodup_iff.mp hnd
    · rw [(h.fifo hb).2]
      exact hnd
  simp only [sent, received, outstanding]
  cases hev with
  | @handed m hs hdv hw hq =>
    -- somebody waits, so no message is left in the line and the new one passes through
    have hnil : Spec.queued a.core i = [] := by
      by_contra hne
      exact hw (hnobody hne)
    have h := h.congr hpri
    rw [hnil] at h
    have hnone : outstanding i tr = [] :=
      List.eq_nil_iff_forall_not_mem.mpr fun y hy => by cases h.mem_iff.mp hy
    have hpass := h.pass m
    rw [hnone] at hpass
    simp only [hs, hdv, hq, hnil, hnone]
    simpa using hpass
  | @stored m hs hdv _ hq hm' =>
    rw [filter_of_no_delivery _ hdv]
    simp only [hs, hdv, List.append_nil, Option.toList_some]
    have hpush := h.push m
    rw [← hplace m hs, ← hq] at hpush
    refine hpush.congr fun y hy => ?_
    rw [hq, Spec.mem_place] at hy
    rcases hy with rfl | hy
    · exact hm'
    · exact hpri y hy
  | @taken m hs hdv hq _ =>
    have h := h.congr hpri
    rw [hq] at h
    rw [hs, Option.toList_none, List.append_nil, List.append_nil, filter_of_delivery hout hdv, hdv]
    exact h.pop
  | still hs hdv hq _ =>
    rw [filter_of_no_delivery _ hdv, hs, hdv, hq]
    simpa using h.congr hpri

/-- **Every step keeps the balance.** -/
theorem MbxInv.step {C : Kernel cfg → Call cfg → Prop} (h : MbxInv i atr tr a)
    (hm : Moves C s a c r s' a') (hd : Spec.Delivers c r a a')
    (hdel : ¬ Deletes (.mbx i) c) : MbxInv i atr (⟨s, (c, r), s'⟩ :: tr) a' := by
  obtain ⟨hstep, hlasts⟩ := hd.step i h.existing fun mbxid hc hi => hdel (by
    subst hc
    simp [Deletes, hi, Except.toOption])
  refine ⟨by rw [hlasts.obj]; exact h.existing, by rw [hlasts.obj]; exact h.objatr, hd.chains,
    ?_, ?_⟩
  · -- a message is kept only when nobody waits
    intro hne
    cases hm.mbxEvent hstep with
    | handed _ _ hw hq => exact absurd (h.nobody (hq ▸ hne)) hw
    | stored _ _ hw => exact hw
    | taken _ _ hq hw => rw [hw]; exact h.nobody (by rw [hq]; simp)
    | still _ _ hq hjoin =>
      rw [hq] at hne
      by_contra hw
      exact (hjoin hw).elim (fun hn => hn (h.nobody hne)) hne
  · have hb : Spec.ByMsgpri a.core i ↔ atr &&& taMpri ≠ 0 := by
      rw [← h.objatr]
      exact Iff.rfl
    exact (hm.mbxEvent hstep).history h.history (h.chains.nodup i) h.nobody hlasts.msgpri
      fun m _ => if_congr hb rfl rfl

/-! ## Runs -/

theorem RunOf.chains (h : RunOf SoundSend tr s) : ∃ a, Models s a ∧ Spec.Chains a.core := by
  refine RunOf.lift (P := fun _ a => Spec.Chains a.core) (fun _ _ h => h.1) (fun m => ?_)
    (fun tr s a c r s' a' hm hch => ?_) h
  · have hno : ∀ i, ((Refine.initial m).core.mbxcb i).obj.state = .noexs := Refine.boot_mbx m
    have hnil : ∀ i, Spec.queued (Refine.initial m).core i = [] :=
      fun i => Spec.queued_noexs (hno i)
    refine ⟨fun i hs => absurd (hno i) hs, fun i => ?_, fun i j _ x hx => ?_, fun i _ x hx => ?_,
      fun i _ => ?_⟩
    · rw [hnil]; exact .nil
    · rw [hnil] at hx; cases hx
    · rw [hnil] at hx; cases hx
    · rw [hnil]; exact .nil
  · refine (Spec.exec_messages hm.pre.inv hm.sound hch (fun m hmsg => ?_) hm.spec).chains
    rw [← hm.pre.refines.core]
    exact hm.call.2 m hmsg

theorem MbxInv.start {C : Kernel cfg → Call cfg → Prop} {mbxid : Int} {pk : TCmbx}
    (hi : getMbxcb mbxid = .ok i) (hl : Spec.CreatesMbx mbxid pk c r)
    (hm : Moves C s a c r s' a') (hch : Spec.Chains a.core) : MbxInv i pk.mbxatr [] a' := by
  have hcreated := Spec.exec_createsMbx hl hm.spec
  obtain ⟨j, hj, -, hcb, hmq, hmp⟩ := hcreated.core
  obtain rfl : i = j := Except.ok.inj (hi.symm.trans hj)
  obtain ⟨k, hk, -, ha⟩ := hcreated
  obtain rfl : i = k := Except.ok.inj (hi.symm.trans hk)
  have hobj : (a'.core.mbxcb i).obj = ⟨pk.mbxatr, .rdy⟩ := by
    rw [ha]
    show (Function.update a.core.mbxcb i _ i).obj = _
    rw [Function.update_self]
  obtain ⟨hch', hq, -⟩ := hch.emptied hcb hmq hmp
  refine ⟨by rw [hobj]; simp, by rw [hobj], hch', fun hne => absurd hq hne, ?_⟩
  rw [hq]
  exact .nil

/-- The message a step delivers: one that is sent while nothing is queued, or the first one that is
outstanding, or else the one of least `msgpri` that was sent first. -/
def NextDelivery (i : MbxIx cfg) (atr : ATR) (tr : Trace cfg) (e : Event (Kernel cfg) (Label cfg)) :
    Prop :=
  deliveries i e = [] ∨ ∃ m, deliveries i e = [.pkt m] ∧
    ((sentAt i e.label = some m ∧ Spec.queued e.pre.core i = []) ∨
      (sentAt i e.label = none ∧ ∃ l₁ l₂, outstanding i tr = l₁ ++ m :: l₂ ∧
        (atr &&& taMpri = 0 → l₁ = []) ∧
        (atr &&& taMpri ≠ 0 → (∀ y ∈ l₁, e.pre.core.msgpri m < e.pre.core.msgpri y) ∧
          ∀ y ∈ l₂, e.pre.core.msgpri m ≤ e.pre.core.msgpri y)))

/-- A mailbox with the attribute `atr`, after the run `tr` since its creation. -/
structure Delivered (i : MbxIx cfg) (atr : ATR) (tr : Trace cfg) (s : Kernel cfg) : Prop where
  /-- The link words lead through the queued messages to a null pointer. -/
  chain : Spec.Chain s.core.msgque (.mqHead i) (Spec.queued s.core i)
  nodup : (Spec.queued s.core i).Nodup
  nobody : Spec.queued s.core i ≠ [] → waiters (.mbx i) s = []
  /-- Each message that was sent has been received once, or is queued. -/
  all : (received i tr ++ (Spec.queued s.core i).map MsgPtr.pkt).Perm ((sent i tr).map MsgPtr.pkt)
  fifo : atr &&& taMpri = 0 →
    received i tr ++ (Spec.queued s.core i).map MsgPtr.pkt = (sent i tr).map MsgPtr.pkt
  byPriority : atr &&& taMpri ≠ 0 →
    StablySorted s.core.msgpri (outstanding i tr) (Spec.queued s.core i)
  next : ∀ l s', StepOf SoundSend s l s' → ¬ Deletes (.mbx i) l.1 →
    NextDelivery i atr tr ⟨s, l, s'⟩

theorem MbxInv.next {C : Kernel cfg → Call cfg → Prop} (h : MbxInv i atr tr a)
    (hm : Moves C s a c r s' a') (hd : Spec.Delivers c r a a') (hdel : ¬ Deletes (.mbx i) c) :
    NextDelivery i atr tr ⟨s, (c, r), s'⟩ := by
  obtain ⟨hstep, -⟩ := hd.step i h.existing fun mbxid hc hi => hdel (by
    subst hc
    simp [Deletes, hi, Except.toOption])
  cases hm.mbxEvent hstep with
  | stored _ hdv => exact Or.inl hdv
  | still _ hdv => exact Or.inl hdv
  | @handed m hs hdv hw _ =>
    refine Or.inr ⟨m, hdv, Or.inl ⟨hs, ?_⟩⟩
    rw [hm.pre.refines.core]
    by_contra hne
    exact hw (h.nobody hne)
  | @taken m hs hdv hq _ =>
    have hhist := h.history
    rw [hq] at hhist
    obtain ⟨l₁, l₂, he, hf, hb⟩ := hhist.first
    refine Or.inr ⟨m, hdv, Or.inr ⟨hs, l₁, l₂, he, fun h0 => hf (not_not.mpr h0), fun h0 => ?_⟩⟩
    show (∀ y ∈ l₁, s.core.msgpri m < s.core.msgpri y) ∧ _
    rw [hm.pre.refines.core]
    exact hb h0

/-- **A mailbox delivers every message once and in order**: in the order of sending, or of their
priorities where its attribute has the bits of `TA_MPRI`. -/
theorem mbx_delivers {mbxid : Int} {pk : TCmbx} {s₀ s₁ : Kernel cfg}
    (hi : getMbxcb mbxid = .ok i) (hl : Spec.CreatesMbx mbxid pk l.1 l.2)
    (h : SinceOf SoundSend (fun _ c => ¬ Deletes (.mbx i) c) s₀ l s₁ tr s) :
    Delivered i pk.mbxatr tr s := by
  obtain ⟨tr₀, h₀⟩ := h.before
  obtain ⟨b, hb, hch₀⟩ := h₀.chains
  -- the caller does not send a message that is still in a mailbox
  have hunq : ∀ {s : Kernel cfg} {a : Spec.Model cfg} {c : Call cfg}, Models s a → SoundSend s c →
      ∀ m, Spec.Call.msg c = some m → Spec.Unqueued a.core m := fun hm hc m hmsg => by
    rw [← hm.refines.core]
    exact hc.2 m hmsg
  obtain ⟨a, hm, hinv⟩ := h.lift (P := MbxInv i pk.mbxatr) (fun _ _ h => h.1)
    (fun a₀ a₁ hm => .start hi hl hm (by rwa [← hm.pre.refines.core, hb.refines.core]))
    fun tr s a c r s' a' hm hinv => hinv.step hm
      (Spec.exec_messages hm.pre.inv hm.sound hinv.chains (hunq hm.pre hm.call.1) hm.spec) hm.call.2
  have hcore := hm.refines.core
  have hex : (s.core.objcb (.mbx i)).state ≠ .noexs := by
    rw [hcore]
    exact hinv.existing
  refine ⟨?_, ?_, fun hne => ?_, ?_, fun h0 => ?_, fun h0 => ?_, fun l' s' hs hdel => ?_⟩
  · rw [hcore]
    exact hinv.chains.chain i hinv.existing
  · rw [hcore]
    exact hinv.chains.nodup i
  · rw [hm.waiters_eq _ hex]
    exact hinv.nobody (hcore ▸ hne)
  · rw [hcore]
    exact hinv.history.perm
  · rw [hcore]
    exact (hinv.history.fifo (not_not.mpr h0)).1
  · rw [hcore]
    exact hinv.history.sorted h0
  · obtain ⟨a', hmv⟩ := hm.moves (fun _ _ h => h.1) hs
    exact hinv.next hmv (Spec.exec_messages hmv.pre.inv hmv.sound hinv.chains
      (hunq hm hmv.call) hmv.spec) hdel

/-- Of two messages the later one has the more urgent priority and is received first. -/
theorem mbx_delivers_urgent : ∃ (tr : Trace smallConfig) (s : Kernel smallConfig),
    Delivered 0 taMpri tr s ∧ sent 0 tr = [0, 1] ∧ received 0 tr = [.pkt 1] := by
  obtain ⟨s₀, l, s₁, tr, s, h, hl, hr, hsent, hrcv⟩ := exists_sinceOf (C := SoundSend)
    (D := fun _ c => ¬ Deletes (.mbx 0) c)
    (Q := fun _ l tr _ => l.2 = .er .ok ∧ sent 0 tr = [0, 1] ∧ received 0 tr = [.pkt 1])
    (startTasks [1] ++ [.dispatch, .setMsgpri 0 2, .setMsgpri 1 1]) (.creMbx 1 ⟨taMpri⟩)
    [.sndMbx 1 0, .sndMbx 1 1, .prcvMbx 1 8] zeroed (by decide +kernel)
  have hdel := mbx_delivers (show getMbxcb 1 = .ok 0 from rfl) (Or.inl ⟨hl, hr⟩) h
  exact ⟨tr, s, hdel, hsent, hrcv⟩

end Ittrium
