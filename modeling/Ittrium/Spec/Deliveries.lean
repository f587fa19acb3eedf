import Ittrium.Spec.Messages

/-!
# What a step does to a mailbox

* `MbxStep` — a message is handed over, stored or taken, or none moves
* `Delivers` — what is known of all mailboxes after a step
* `exec_messages` — **every step is one of them for every mailbox, and keeps all chains in order**
-/

namespace Ittrium.Spec

open Infra

variable {cfg : Config} {a a' b : Model cfg} {i j : MbxIx cfg} {m : Fin cfg.nmsg} {t : TskIx cfg}
  {c : Call cfg} {r : Ret cfg} {p : VP}

/-- The message a call sends to the mailbox `i`. -/
def Call.sndMsg (i : MbxIx cfg) : Call cfg → Option (Fin cfg.nmsg)
  | .sndMbx mbxid m => if getMbxcb mbxid = .ok i then some m else none
  | _ => none

/-- The message whose header or priority a call writes, besides those in mailboxes. -/
def Call.msg : Call cfg → Option (Fin cfg.nmsg)
  | .sndMbx _ m | .setMsgpri m _ => some m
  | _ => none

/-- The ways a step goes for the mailbox `i`. -/
inductive MbxStep (i : MbxIx cfg) (c : Call cfg) (r : Ret cfg) (a a' : Model cfg) : Prop where
  /-- The message goes to the first waiting task. -/
  | handed {m : Fin cfg.nmsg} {t : TskIx cfg} {ts : List (TskIx cfg)} :
      Call.sndMsg i c = some m → r = .er .ok → a.queue (.waitq (.mbx i)) = t :: ts →
      a'.queue (.waitq (.mbx i)) = ts → (a'.core.tcb t).ercd = .ok →
      a'.core.msgvar (a.core.tcb t).waitinfo.ppkMsg = .pkt m →
      queued a'.core i = queued a.core i → MbxStep i c r a a'
  /-- Nobody waits, and the message goes to its place. -/
  | stored {m : Fin cfg.nmsg} : Call.sndMsg i c = some m → r = .er .ok →
      a.queue (.waitq (.mbx i)) = [] → a'.queue (.waitq (.mbx i)) = [] →
      queued a'.core i = place a.core i m (queued a.core i) →
      a'.core.msgpri m = a.core.msgpri m → MbxStep i c r a a'
  /-- The caller gets the first message. -/
  | taken {p : VP} {m : Fin cfg.nmsg} {l : List (Fin cfg.nmsg)} : Call.rcvPtr i c = some p →
      r = .er .ok → queued a.core i = m :: l → queued a'.core i = l →
      a'.core.msgvar p = .pkt m →
      a'.queue (.waitq (.mbx i)) = a.queue (.waitq (.mbx i)) → MbxStep i c r a a'
  /-- No message moves. Who leaves the line does so by timeout, or is deleted. -/
  | still : (Call.sndMsg i c ≠ none → r ≠ .er .ok) → (Call.rcvPtr i c ≠ none → r ≠ .er .ok) →
      queued a'.core i = queued a.core i →
      (a'.queue (.waitq (.mbx i)) ≠ [] → a.queue (.waitq (.mbx i)) ≠ [] ∨ queued a.core i = []) →
      (∀ t ∈ a.queue (.waitq (.mbx i)), t ∉ a'.queue (.waitq (.mbx i)) →
        (a'.core.tcb t).ercd = .tmout) → MbxStep i c r a a'

/-- The mailbox is the same one, and so are the priorities of its messages. -/
structure MbxLasts (i : MbxIx cfg) (a a' : Model cfg) : Prop where
  obj : (a'.core.mbxcb i).obj = (a.core.mbxcb i).obj
  msgpri : ∀ m ∈ queued a.core i, a'.core.msgpri m = a.core.msgpri m

/-! ## Sending and receiving -/

/-- An ID of a mailbox. -/
theorem getMbxcb_of_map {mbxid : Int}
    (h : (getMbxcb mbxid : Exec (MbxIx cfg)).toOption.map ObjId.mbx = some (.mbx i)) :
    getMbxcb mbxid = .ok i :=
  ok_of_toOption_map (fun _ _ => ObjId.mbx.inj) h

theorem release_msgvar (t : TskIx cfg) (e : ER) (a : Model cfg) :
    (a.release t e).core.msgvar = a.core.msgvar := by
  have hc := congrArg Core.msgvar (Model.cancel_core t a)
  rw [Model.release_eq]
  unfold Model.leaveWait
  dsimp only
  split <;> exact hc

/-- A task waits for a mailbox with a timeout that is neither a poll nor invalid. -/
theorem exec_rcvMbx_tmout {tmout : TMO} (hw : Call.wait c = some (some (.mbx i), tmout))
    (he : exec c a = .ok (a', .blocked)) : tmout ≠ tmoPol ∧ tmoFevr.toInt ≤ tmout.toInt := by
  have harg : ∀ {mbxid : Int} {k : TMO},
      ((getMbxcb mbxid : Exec (MbxIx cfg)).toOption.map fun j => (some (ObjId.mbx j), k)) =
        some (some (.mbx i), tmout) → k = tmout := by
    intro mbxid k h
    obtain ⟨j, -, hj⟩ := Option.map_eq_some_iff.mp h
    exact (Prod.mk.inj hj).2
  cases c with
  | rcvMbx mbxid p =>
    obtain rfl := harg hw
    exact rcvMbx_tmout _ he rfl
  | trcvMbx mbxid p k =>
    obtain rfl := harg hw
    exact rcvMbx_tmout _ he rfl
  | prcvMbx mbxid p =>
    obtain rfl := harg hw
    exact rcvMbx_tmout _ he rfl
  | waiSem | twaiSem | polSem | waiFlg | twaiFlg | polFlg =>
    obtain ⟨j, -, hj⟩ := Option.map_eq_some_iff.mp hw
    cases hj
  | _ => cases hw

/-- A message that comes with a priority is taken. -/
theorem exec_sndMsg_ok (hc : Call.sndMsg i c = some m) (hs : (a.core.mbxcb i).obj.state ≠ .noexs)
    (hpos : 0 < a.core.msgpri m) (he : exec c a = .ok (a', r)) : r = .er .ok := by
  cases c with
  | sndMbx mbxid m' =>
    simp only [Call.sndMsg] at hc
    split at hc
    · next hi =>
      obtain rfl := Option.some.inj hc
      obtain ⟨b, hb, -⟩ := exec_sndMbx hi hs he
      cases hb with
      | refused _ hle => omega
      | handed | queued => rfl
    · cases hc
  | _ => cases hc

/-- The mailbox an ID stands for, if it exists. -/
def mbxOf (a : Model cfg) (mbxid : Int) : Option (MbxIx cfg) :=
  match getMbxcb mbxid with
  | .ok i => if (a.core.mbxcb i).obj.state = .noexs then none else some i
  | .error _ => none

theorem mbxOf_eq_some {mbxid : Int} :
    mbxOf a mbxid = some i ↔ getMbxcb mbxid = .ok i ∧ (a.core.mbxcb i).obj.state ≠ .noexs := by
  unfold mbxOf
  cases hx : (getMbxcb mbxid : Exec (MbxIx cfg)) with
  | error e => simp
  | ok j =>
    by_cases hn : (a.core.mbxcb j).obj.state = .noexs
    · simp only [hn, if_true, Except.ok.injEq, reduceCtorEq, false_iff]
      rintro ⟨rfl, h⟩
      exact h hn
    · simp only [hn, if_false, Option.some.injEq, Except.ok.injEq]
      exact ⟨fun h => ⟨h, h ▸ hn⟩, fun h => h.1⟩

/-- Sending to no mailbox changes nothing. -/
theorem sndMbx_idle {mbxid : Int} (hn : mbxOf a mbxid = none) :
    Ensures (_sndMbx mbxid m a) fun v => v.1 = a ∧ v.2 ≠ .er .ok := by
  unfold _sndMbx
  refine .ite (fun _ => .ok ⟨rfl, by simp⟩) fun _ => .bind' fun j hj => ?_
  refine .ite (fun _ => .ok ⟨rfl, by simp⟩) fun hs => ?_
  rw [mbxOf_eq_some.mpr ⟨hj, hs⟩] at hn
  cases hn

/-- Receiving from no mailbox changes nothing but the result. -/
theorem rcvMbx_idle {mbxid : Int} {tmout : TMO} (hn : mbxOf a mbxid = none) :
    Ensures (_rcvMbx mbxid p tmout a) fun v => v.1.core.mbxcb = a.core.mbxcb ∧
      v.1.core.msgque = a.core.msgque ∧ v.1.core.msgpri = a.core.msgpri := by
  unfold _rcvMbx
  refine .ite (fun _ => .ok ⟨rfl, rfl, rfl⟩) fun _ => ?_
  refine .ite (fun _ => .ok ⟨rfl, rfl, rfl⟩) fun _ => ?_
  refine .bind' fun j hj => .bind' fun t _ => .ite (fun _ => .ok ⟨rfl, rfl, rfl⟩) fun hs => ?_
  rw [mbxOf_eq_some.mpr ⟨hj, hs⟩] at hn
  cases hn

/-- Where a call receives from. -/
def Call.rcvId : Call cfg → Option (Int × VP × TMO)
  | .rcvMbx mbxid p => some (mbxid, p, tmoFevr)
  | .trcvMbx mbxid p tmout => some (mbxid, p, tmout)
  | .prcvMbx mbxid p => some (mbxid, p, tmoPol)
  | _ => none

theorem exec_rcvId {mbxid : Int} {tmout : TMO} (hc : Call.rcvId c = some (mbxid, p, tmout)) :
    exec c a = _rcvMbx mbxid p tmout a := by
  cases c <;> cases hc <;> rfl

theorem rcvPtr_of_rcvId {mbxid : Int} {tmout : TMO} (hc : Call.rcvId c = some (mbxid, p, tmout))
    (i : MbxIx cfg) : Call.rcvPtr i c = if getMbxcb mbxid = .ok i then some p else none := by
  cases c <;> cases hc <;> rfl

/-! ## The chains, and the mailboxes a call is not about -/

/-- What is known after a step: of the chains, and of every mailbox that was there. -/
structure Delivers (c : Call cfg) (r : Ret cfg) (a a' : Model cfg) : Prop where
  chains : Chains a'.core
  step : ∀ i, (a.core.mbxcb i).obj.state ≠ .noexs →
    (∀ mbxid, c = .delMbx mbxid → getMbxcb mbxid ≠ .ok i) →
    MbxStep i c r a a' ∧ MbxLasts i a a'

/-- A step that sends nothing to the mailbox, receives nothing from it and keeps its chain. -/
theorem MbxStep.of_line
    (hline : (a'.queue (.waitq (.mbx i)) ≠ [] → a.queue (.waitq (.mbx i)) ≠ []) ∧
      ∀ t ∈ a.queue (.waitq (.mbx i)), t ∉ a'.queue (.waitq (.mbx i)) →
        (a'.core.tcb t).ercd = .tmout)
    (hs : Call.sndMsg i c ≠ none → r ≠ .er .ok) (hr : Call.rcvPtr i c ≠ none → r ≠ .er .ok)
    (hq : queued a'.core i = queued a.core i) : MbxStep i c r a a' :=
  .still hs hr hq (fun h => Or.inl (hline.1 h)) hline.2

theorem sndMsg_none (ho : Call.obj c ≠ some (.mbx i)) : Call.sndMsg i c = none := by
  cases c with
  | sndMbx mbxid m =>
    refine if_neg fun hi => ho ?_
    simp [Call.obj, hi, Except.toOption]
  | _ => rfl

theorem rcvPtr_none (ho : Call.obj c ≠ some (.mbx i)) : Call.rcvPtr i c = none := by
  cases c with
  | rcvMbx mbxid q =>
    refine if_neg fun hi => ho ?_
    simp [Call.obj, hi, Except.toOption]
  | trcvMbx mbxid q tmout =>
    refine if_neg fun hi => ho ?_
    simp [Call.obj, hi, Except.toOption]
  | prcvMbx mbxid q =>
    refine if_neg fun hi => ho ?_
    simp [Call.obj, hi, Except.toOption]
  | _ => rfl

/-- A step that is about another object and leaves the chain alone. -/
theorem MbxStep.of_other (h : Inv a) (hs : Sound a.core c) (he : exec c a = .ok (a', r))
    (ho : Call.obj c ≠ some (.mbx i)) (hq : queued a'.core i = queued a.core i) :
    MbxStep i c r a a' :=
  .of_line (exec_line_of_other h hs he ho) (fun hn => absurd (sndMsg_none ho) hn)
    (fun hn => absurd (rcvPtr_none ho) hn) hq

/-- Mailboxes and messages are as they were. -/
theorem Delivers.of_same (h : Chains a.core) (hcb : a'.core.mbxcb = a.core.mbxcb)
    (hq : a'.core.msgque = a.core.msgque)
    (hp : ∀ j, ∀ x ∈ queued a.core j, a'.core.msgpri x = a.core.msgpri x)
    (hstep : ∀ i, (a.core.mbxcb i).obj.state ≠ .noexs →
      (∀ mbxid, c = .delMbx mbxid → getMbxcb mbxid ≠ .ok i) →
      queued a'.core i = queued a.core i → MbxStep i c r a a') : Delivers c r a a' := by
  obtain ⟨hch, hqs⟩ := h.same hcb hq hp
  refine ⟨hch, fun i hs hd => ⟨hstep i hs hd (congrFun hqs i), by rw [hcb], hp i⟩⟩

/-- The call has done nothing. -/
theorem Delivers.idle (h : Chains a.core) (hd : UpToDispatch a a')
    (hs : ∀ i, Call.sndMsg i c ≠ none → r ≠ .er .ok)
    (hr : ∀ i, Call.rcvPtr i c ≠ none → r ≠ .er .ok) : Delivers c r a a' := by
  refine .of_same h (by rw [hd.core]) (by rw [hd.core]) (fun j x _ => by rw [hd.core]) ?_
  intro i _ _ hq
  refine .of_line ⟨fun hne => by rwa [hd.queue] at hne, fun t ht hn => ?_⟩ (hs i) (hr i) hq
  rw [hd.queue] at hn
  exact absurd ht hn

/-! ## Sending -/

theorem obj_of_getMbxcb {mbxid : Int} {j : MbxIx cfg} (hj : getMbxcb mbxid = .ok j) (hij : i ≠ j) :
    (getMbxcb mbxid : Exec (MbxIx cfg)).toOption.map ObjId.mbx ≠ some (.mbx i) := by
  intro h
  exact hij (Except.ok.inj ((getMbxcb_of_map h).symm.trans hj))

theorem handOver_objects (m : Fin cfg.nmsg) (t : TskIx cfg) (a : Model cfg) :
    (a.handOver m t).core.mbxcb = a.core.mbxcb ∧ (a.handOver m t).core.msgque = a.core.msgque ∧
      (a.handOver m t).core.msgpri = a.core.msgpri := by
  have h := release_objects t .ok (a.setCore fun c =>
    { c with msgvar := Function.update c.msgvar (c.tcb t).waitinfo.ppkMsg (.pkt m) })
  exact ⟨h.mbxcb, h.msgque, h.msgpri⟩

/-- **A message is sent.** -/
theorem Inv.delivers_sndMbx {mbxid : Int} (h : Inv a) (hch : Chains a.core)
    (hm : Unqueued a.core m) (he : exec (.sndMbx mbxid m) a = .ok (a', r)) :
    Delivers (.sndMbx mbxid m) r a a' := by
  have hst := h.toSettled
  have hsound : Sound a.core (.sndMbx mbxid m) := trivial
  cases ho : mbxOf a mbxid with
  | none =>
    obtain ⟨b, hb, hd⟩ := dispatchAll_ok he
    obtain ⟨hab, hr⟩ := sndMbx_idle ho _ hb
    obtain rfl : b = a := hab
    exact .idle hch hd (fun _ _ => hr) fun _ hn => absurd rfl hn
  | some j =>
    obtain ⟨hj, hs⟩ := mbxOf_eq_some.mp ho
    obtain ⟨b, hb, hd⟩ := exec_sndMbx hj hs he
    -- in every other mailbox nothing happens
    have hother : ∀ i, i ≠ j → queued a'.core i = queued a.core i →
        MbxStep i (.sndMbx mbxid m) r a a' := fun i hij hq =>
      .of_other h hsound he (obj_of_getMbxcb hj hij) hq
    have hmsg : Call.sndMsg j (.sndMbx mbxid m) = some m := if_pos hj
    cases hb with
    | refused _ _ => exact .idle hch hd (fun _ _ => by simp) fun _ hn => absurd rfl hn
    | @handed t ts _ hq =>
      obtain ⟨hcb, hmq, hmp⟩ := handOver_objects m t a
      refine .of_same hch (by rw [hd.core, hcb]) (by rw [hd.core, hmq])
        (fun _ _ _ => by rw [hd.core, hmp]) fun i _ _ hqs => ?_
      by_cases hij : i = j
      · subst hij
        have hset := (hst.setRest (f := fun c => { c with
          msgvar := Function.update c.msgvar (c.tcb t).waitinfo.ppkMsg (.pkt m) })
          rfl rfl rfl rfl rfl).settled
        refine .handed hmsg rfl hq ?_ ?_ ?_ hqs
        · rw [hd.queue]
          exact hset.release_first .ok hq
        · rw [hd.core]
          exact release_tcb_ercd _ _ _
        · rw [hd.core, Model.handOver, release_msgvar]
          exact Function.update_self ..
      · exact hother i hij hqs
    | @queued c' _ hq hc =>
      have hstored := hch.enqueue hs hm hc
      have hcore : a'.core = c' := hd.core
      refine ⟨hcore ▸ hstored.chains, fun i _ _ => ⟨?_, ?_, fun x _ => ?_⟩⟩
      · by_cases hij : i = j
        · subst hij
          refine .stored hmsg rfl hq (by rw [hd.queue]; exact hq) ?_ ?_
          · rw [hcore]
            exact hstored.queued
          · rw [hcore, hstored.same.msgpri]
        · exact hother i hij (by rw [hcore]; exact hstored.others i hij)
      · rw [hcore]
        exact hstored.same.obj i
      · rw [hcore, hstored.same.msgpri]

/-! ## Receiving -/

theorem headmsg_ne_null {l : List (Fin cfg.nmsg)} {c : Core cfg} (h : Chain c.msgque (.mqHead i) l)
    (hn : headmsg i c ≠ .null) : ∃ m l', l = m :: l' := by
  cases l with
  | nil => exact absurd h hn
  | cons m l' => exact ⟨m, l', rfl⟩

theorem queued_nil {c : Core cfg} (hch : Chains c) (hs : (c.mbxcb i).obj.state ≠ .noexs)
    (hn : headmsg i c = .null) : queued c i = [] := by
  cases hq : queued c i with
  | nil => rfl
  | cons m l =>
    have hchain := hch.chain i hs
    rw [hq] at hchain
    have hm : headmsg i c = .pkt m := hchain.1
    rw [hn] at hm
    cases hm

/-- **A message is received.** -/
theorem Inv.delivers_rcvMbx {mbxid : Int} {tmout : TMO} (h : Inv a) (hch : Chains a.core)
    (hc : Call.rcvId c = some (mbxid, p, tmout)) (hsound : Sound a.core c)
    (hobj : Call.obj c = (getMbxcb mbxid : Exec (MbxIx cfg)).toOption.map ObjId.mbx)
    (hsnd : ∀ i, Call.sndMsg i c = none) (he : exec c a = .ok (a', r)) : Delivers c r a a' := by
  have hst := h.toSettled
  cases ho : mbxOf a mbxid with
  | none =>
    obtain ⟨hcb, hmq, hmp⟩ := rcvMbx_idle ho _ (exec_rcvId hc ▸ he)
    refine .of_same hch hcb hmq (fun _ _ _ => by rw [hmp]) fun i hs _ hq => ?_
    refine .of_other h hsound he (fun hi => ?_) hq
    rw [hobj] at hi
    rw [mbxOf_eq_some.mpr ⟨getMbxcb_of_map hi, hs⟩] at ho
    cases ho
  | some j =>
    obtain ⟨hj, hs⟩ := mbxOf_eq_some.mp ho
    have hptr : Call.rcvPtr j c = some p := by rw [rcvPtr_of_rcvId hc, if_pos hj]
    obtain ⟨b, hb, hd⟩ := exec_rcvMbx hptr hs he
    have hother : ∀ i, i ≠ j → queued a'.core i = queued a.core i → MbxStep i c r a a' :=
      fun i hij hq => .of_other h hsound he (hobj ▸ obj_of_getMbxcb hj hij) hq
    have hsnd' : ∀ i, Call.sndMsg i c ≠ none → r ≠ .er .ok := fun i hn => absurd (hsnd i) hn
    cases hb with
    | refused => exact .idle hch hd hsnd' fun _ _ => by simp
    | @received t _ hhead =>
      obtain ⟨x, l, hl⟩ := headmsg_ne_null (hch.chain j hs) hhead
      obtain ⟨hch', hqj, hqo, hvar⟩ := hch.dequeue (p := p) hs hl
      -- the caller has got its error code before, which changes no mailbox
      have hsame : ∀ d : Core cfg, d.mbxcb = a.core.mbxcb → d.msgque = a.core.msgque →
          d.msgpri = a.core.msgpri → d.msgvar = a.core.msgvar →
          (dequeueMsg j p d).mbxcb = (dequeueMsg j p a.core).mbxcb ∧
          (dequeueMsg j p d).msgque = (dequeueMsg j p a.core).msgque ∧
          (dequeueMsg j p d).msgpri = (dequeueMsg j p a.core).msgpri ∧
          (dequeueMsg j p d).msgvar = (dequeueMsg j p a.core).msgvar := by
        intro d h₁ h₂ h₃ h₄
        simp [dequeueMsg, setNextmsg, headmsg, h₁, h₂, h₃, h₄]
      obtain ⟨hcb, hmq, hmp, hmv⟩ := hsame (Core.setTcb t (fun tcb => { tcb with ercd := .ok })
        a.core) rfl rfl rfl rfl
      obtain ⟨hch'', hqs⟩ := hch'.same hcb hmq fun _ _ _ => by rw [hmp]
      have hcore : a'.core = dequeueMsg j p (Core.setTcb t (fun tcb => { tcb with ercd := .ok })
        a.core) := hd.core
      refine ⟨hcore ▸ hch'', fun i _ _ => ⟨?_, ?_, fun y _ => ?_⟩⟩
      · by_cases hij : i = j
        · subst hij
          refine .taken hptr rfl hl ?_ ?_ ?_
          · rw [hcore, hqs, hqj]
          · rw [hcore, hmv, hvar]
          · rw [hd.queue]
            rfl
        · exact hother i hij (by rw [hcore, hqs, hqo i hij])
      · rw [hcore, hcb]
        rfl
      · rw [hcore, hmp]
        rfl
    | @failed t _ hhead =>
      refine .of_same hch (by rw [hd.core]; rfl) (by rw [hd.core]; rfl)
        (fun _ _ _ => by rw [hd.core]; rfl) fun i _ _ hq => ?_
      refine .of_line ⟨fun hne => by rw [hd.queue] at hne; exact hne, fun u hu hn => ?_⟩
        (hsnd' i) (fun _ => by simp) hq
      rw [hd.queue] at hn
      exact absurd hu hn
    | @blocked t tmout' _ hhead =>
      obtain ⟨u, o', k, b', _, _, hB, rfl⟩ := exec_blocks h hsound he
      have hobjs := hB.others.objects
      refine .of_same hch hobjs.mbxcb hobjs.msgque
        (fun _ _ _ => congrFun hobjs.msgpri _) fun i _ _ hq => ?_
      by_cases hij : i = j
      · subst hij
        refine .still (hsnd' i) (fun _ => by simp) hq (fun _ => Or.inr (queued_nil hch hs hhead))
          fun v hv hn => absurd ?_ hn
        exact hB.still hst hv
      · exact hother i hij hq

/-! ## Creating and deleting -/

/-- **A mailbox is created or deleted**: nothing moves in another one. -/
theorem Inv.delivers_emptied {j : MbxIx cfg} (h : Inv a) (hch : Chains a.core)
    (hsound : Sound a.core c) (he : exec c a = .ok (a', r))
    (hcb : ∀ i, i ≠ j → a'.core.mbxcb i = a.core.mbxcb i)
    (hq : a'.core.msgque = Function.update a.core.msgque (.mqHead j) .null)
    (hp : a'.core.msgpri = a.core.msgpri) (hj : (a.core.mbxcb j).obj.state ≠ .noexs →
      ∃ mbxid, c = .delMbx mbxid ∧ getMbxcb mbxid = .ok j)
    (hobj : ∀ i, i ≠ j → (a.core.mbxcb i).obj.state ≠ .noexs → Call.obj c ≠ some (.mbx i)) :
    Delivers c r a a' := by
  obtain ⟨hch', -, hqo⟩ := hch.emptied hcb hq hp
  refine ⟨hch', fun i hs hd => ?_⟩
  have hij : i ≠ j := by
    rintro rfl
    obtain ⟨mbxid, hc, hi⟩ := hj hs
    exact hd mbxid hc hi
  exact ⟨.of_other h hsound he (hobj i hij hs) (hqo i hij), by rw [hcb i hij],
    fun x _ => by rw [hp]⟩

theorem MbxCreated.core {mbxid : Int} {pk : TCmbx} (h : MbxCreated mbxid pk a a') :
    ∃ j, getMbxcb mbxid = .ok j ∧ (a.core.mbxcb j).obj.state = .noexs ∧
      (∀ i, i ≠ j → a'.core.mbxcb i = a.core.mbxcb i) ∧
      a'.core.msgque = Function.update a.core.msgque (.mqHead j) .null ∧
      a'.core.msgpri = a.core.msgpri := by
  obtain ⟨j, hj, hn, rfl⟩ := h
  exact ⟨j, hj, hn, fun i hij => Function.update_of_ne hij _ _, rfl, rfl⟩

/-- A creation succeeds, or nothing happens. -/
theorem creMbx_created {mbxid : Int} {pk : TCmbx} :
    Ensures (_creMbx mbxid pk a) fun v => v.1 = a ∨ MbxCreated mbxid pk a v.1 :=
  creMbx_cases.mono fun _ hv => hv.imp And.left And.right

theorem acreMbxLoop_created {pk : TCmbx} : ∀ (n : Nat) (k : Int),
    Ensures (acreMbxLoop pk a n k) fun v => v.1 = a ∨ ∃ id, MbxCreated id pk a v.1
  | 0, _ => .ok (Or.inl rfl)
  | n + 1, k => by
    unfold acreMbxLoop
    refine .bind' fun i _ => .ite (fun _ => ?_) fun _ => acreMbxLoop_created n (k + 1)
    exact .bind (creMbx_created.mono fun v hv => .ok (hv.imp id fun h => ⟨k, h⟩))

theorem Inv.delivers_created {mbxid : Int} {pk : TCmbx} (h : Inv a) (hch : Chains a.core)
    (hc : c = .creMbx mbxid pk ∨ c = .acreMbx pk) (he : exec c a = .ok (a', r))
    (hm : MbxCreated mbxid pk a a') : Delivers c r a a' := by
  obtain ⟨j, hj, hn, hcb, hq, hp⟩ := hm.core
  have hsound : Sound a.core c := by
    rcases hc with rfl | rfl <;> exact trivial
  refine h.delivers_emptied hch hsound he hcb hq hp (fun hs => absurd hn hs) fun i hij _ => ?_
  rcases hc with rfl | rfl
  · exact obj_of_getMbxcb hj hij
  · simp [Call.obj]

theorem Inv.delivers_delMbx {mbxid : Int} (h : Inv a) (hch : Chains a.core)
    (he : exec (.delMbx mbxid) a = .ok (a', r)) : Delivers (.delMbx mbxid) r a a' := by
  have hidle : ∀ v : Model cfg × Ret cfg, (.ok v : Outcome cfg) = .ok (a', r) → v.1 = a →
      Delivers (.delMbx mbxid) r a a' := by
    rintro v hv rfl
    cases hv
    exact .idle hch (Or.inl rfl) (fun _ hn => absurd rfl hn) fun _ hn => absurd rfl hn
  have he' : delMbx mbxid a = .ok (a', r) := he
  unfold delMbx at he'
  split at he'
  · exact hidle _ he' rfl
  · cases hj : (getMbxcb mbxid : Exec (MbxIx cfg)) with
    | error e =>
      rw [hj] at he'
      cases he'
    | ok j =>
      rw [hj] at he'
      have he' : (if (a.core.mbxcb j).obj.state = .noexs then _ else _) = Except.ok (a', r) := he'
      split at he'
      · exact hidle _ he' rfl
      · have hobjs := releaseAll_objects (.mbx j) a
        cases he'
        refine h.delivers_emptied hch trivial he (fun i hij => ?_) ?_ ?_
          (fun _ => ⟨mbxid, rfl, hj⟩) fun i hij _ => obj_of_getMbxcb hj hij
        · exact (Function.update_of_ne hij _ _).trans (congrFun hobjs.mbxcb i)
        · exact congrArg (fun f => Function.update f (.mqHead j) .null) hobjs.msgque
        · exact hobjs.msgpri

/-! ## All calls -/

/-- **Every step does to each mailbox one of the things of `MbxStep`**, if messages that are sent,
or whose priority is written, are in no mailbox. -/
theorem exec_messages (h : Inv a) (hs : Sound a.core c) (hch : Chains a.core)
    (hm : ∀ m, Call.msg c = some m → Unqueued a.core m) (he : exec c a = .ok (a', r)) :
    Delivers c r a a' := by
  by_cases hmsg : Call.messages c
  · cases c with
    | creMbx mbxid pk =>
      have hor : Ensures (creMbx mbxid pk a) fun v => v.1 = a ∨ MbxCreated mbxid pk a v.1 :=
        .ite (fun _ => .ok (Or.inl rfl)) fun _ => creMbx_created
      rcases hor _ he with hself | hcr
      · exact .idle hch (Or.inl hself) (fun _ hn => absurd rfl hn) fun _ hn => absurd rfl hn
      · exact h.delivers_created hch (Or.inl rfl) he hcr
    | acreMbx pk =>
      rcases acreMbxLoop_created _ _ _ he with hself | ⟨mbxid, hcr⟩
      · exact .idle hch (Or.inl hself) (fun _ hn => absurd rfl hn) fun _ hn => absurd rfl hn
      · exact h.delivers_created hch (Or.inr rfl) he hcr
    | sndMbx mbxid m => exact h.delivers_sndMbx hch (hm m rfl) he
    | rcvMbx mbxid q => exact h.delivers_rcvMbx hch rfl hs rfl (fun _ => rfl) he
    | trcvMbx mbxid q tmout => exact h.delivers_rcvMbx hch rfl hs rfl (fun _ => rfl) he
    | prcvMbx mbxid q => exact h.delivers_rcvMbx hch rfl hs rfl (fun _ => rfl) he
    | delMbx mbxid => exact h.delivers_delMbx hch he
    | setMsgpri m pri =>
      cases he
      refine .of_same hch rfl rfl (fun j x hx => Function.update_of_ne ?_ _ _) fun i _ _ hq => ?_
      · rintro rfl
        exact hm x rfl j hx
      · exact .of_line ⟨id, fun t ht hn => absurd ht hn⟩ (fun hn => absurd rfl hn)
          (fun hn => absurd rfl hn) hq
    | _ => exact hmsg.elim
  · obtain ⟨hcb, hmq, hmp⟩ := exec_keeps_messages h hs hmsg he
    refine .of_same hch hcb hmq (fun _ _ _ => by rw [hmp]) fun i _ _ hq => ?_
    have hobj : Call.obj c = some (.mbx i) → a' = a := by
      intro ho
      cases c with
      | refMbx mbxid => exact exec_refMbx he
      | _ =>
        first
        | cases ho
        | exact absurd trivial hmsg
        | exact absurd ho (toOption_map_ne (by simp))
    by_cases ho : Call.obj c = some (.mbx i)
    · obtain rfl := hobj ho
      have hsnd : Call.sndMsg i c = none := by
        cases c with
        | sndMbx mbxid m => exact absurd trivial hmsg
        | _ => rfl
      have hrcv : Call.rcvPtr i c = none := by
        cases c with
        | rcvMbx mbxid q => exact absurd trivial hmsg
        | trcvMbx mbxid q tmout => exact absurd trivial hmsg
        | prcvMbx mbxid q => exact absurd trivial hmsg
        | _ => rfl
      exact .of_line ⟨id, fun t ht hn => absurd ht hn⟩ (fun hn => absurd hsnd hn)
        (fun hn => absurd hrcv hn) hq
    · exact .of_other h hs he ho hq

end Ittrium.Spec
