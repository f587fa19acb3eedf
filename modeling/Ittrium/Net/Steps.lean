import Ittrium.Infra.Run
import Ittrium.Infra.Population
import Ittrium.Net.SysArch

/-!
# What a step of the port does

* `Move` — the steps by what they do to the shared data
* `step_move` — every step is one of them
* `Waiting`, `Move.waiting` — **the queue of a semaphore holds the tasks that wait for it, once**
* `NetRun` — the runs from a new mailbox on
-/

namespace Ittrium.Net

open Infra

variable {τ : Type} {cfg : Config} {net net' : Port τ}

/-! ## Steps -/

/-- The waits that obtain a resource: of which semaphore, and what the task does next. -/
inductive Pc.Takes : Pc → SemName → Pc → Prop where
  | full (msg : VP) : Takes (.waitFull msg) .semFull (.enqueue msg .again)
  | wait (w : Wait) (left : UW) : Takes (.semWaitMs w left) w.who.sem w.obtained
  | poll : Takes .polEmpty .semEmpty (.dequeue .tryfetch)

/-- The slice of a round of `sem_wait_ms`. -/
def sliceOf (left : UW) : UW := if left > lwipTmoSliceMs then lwipTmoSliceMs else left

/-- The waits that do not. -/
inductive Pc.Blocks : Pc → SemName → Pc → Prop where
  | full (msg : VP) : Blocks (.waitFull msg) .semFull (.blockedFull msg)
  | forever (w : Wait) (left : UW) :
      w.timeout = 0 → Blocks (.semWaitMs w left) w.who.sem (.blocked w left 0 none)
  | slice (w : Wait) (left : UW) : w.timeout ≠ 0 →
      Blocks (.semWaitMs w left) w.who.sem
        (.blocked w left (sliceOf left) (some (sliceOf left).toNat))

/-- The steps that begin a call or go on with it, and change nothing but the task's variables. -/
inductive Turns (net : Port τ) : Pc → Pc → Prop where
  | post (msg : VP) : Turns net .idle (.enqueue msg .first)
  | trypost (msg : VP) : Turns net .idle (.enqueue msg .trypost)
  | wait (who : Waiter) (timeout : UW) :
      Turns net .idle (.semWaitMs (net.newWait who timeout) timeout)
  | tryfetch : Turns net .idle .polEmpty
  | full (msg : VP) (p : Poster) : net.mbox.used ≥ net.mbox.size → p ≠ .trypost →
      Turns net (.enqueue msg p) (.waitFull msg)
  | foundEmpty (w : Wait) : net.mbox.used = 0 → Turns net (.dequeue (.timed w)) (.foundEmpty w)
  | less (w : Wait) : w.timeout ≠ 0 →
      Turns net (.foundEmpty w) (.restart { w with timeout := w.timeout - (net.sysNow - w.start) })
  | again (w : Wait) : w.timeout = 0 → Turns net (.foundEmpty w) (.semWaitMs w w.timeout)
  | restart (w : Wait) : Turns net (.restart w)
      (.semWaitMs { w with start := net.sysNow, startTick := net.now } w.timeout)

/-- The steps that end a call, and change nothing else. -/
inductive Ends (net : Port τ) : Pc → Ret → Prop where
  | full (msg : VP) : net.mbox.used ≥ net.mbox.size →
      Ends net (.enqueue msg .trypost) (.posted false)
  | fetchTimedOut (w : Wait) : w.who = .fetch →
      Ends net (.timedOut w) (.fetched w sysArchTimeout none)
  | waitTimedOut (w : Wait) : w.who = .semWait →
      Ends net (.timedOut w) (.waited w sysArchTimeout false)
  | waited (w : Wait) : Ends net (.semTaken w) (.waited w (net.sysNow - w.start) true)
  | noToken : Ends net .polEmpty (.tryfetched sysMboxEmpty none)
  | empty : net.mbox.used = 0 → Ends net (.dequeue .tryfetch) (.tryfetched sysMboxEmpty none)
  | gaveUp (w : Wait) : Ends net (.foundEmpty w) (.fetched w sysArchTimeout none)
  | fetched (w : Wait) (msg : VP) :
      Ends net (.fetched (.timed w) msg) (.fetched w (net.sysNow - w.start) (some msg))
  | tryfetched (msg : VP) : Ends net (.fetched .tryfetch msg) (.tryfetched 0 (some msg))

/-! ## The queues of the semaphores -/

@[simp] theorem setSem_pc (n : SemName) (s : Sem τ) (net : Port τ) :
    (net.setSem n s).pc = net.pc := rfl

@[simp] theorem setSem_mbox (n : SemName) (s : Sem τ) (net : Port τ) :
    (net.setSem n s).mbox = net.mbox := rfl

/-- What holds of a semaphore: no task is queued twice, and none is while there are resources. -/
structure Sem.Ok (s : Sem τ) : Prop where
  nodup : s.waitq.Nodup
  nonneg : 0 ≤ s.semcnt
  empty : s.waitq ≠ [] → s.semcnt = 0

/-- The tasks that wait for a semaphore are those in its queue. -/
structure Waiting (net : Port τ) : Prop where
  mem : ∀ n t, t ∈ (net.sem n).waitq ↔ (net.pc t).waitsFor = some n
  ok : ∀ n, (net.sem n).Ok

theorem Wait.obtained_waitsFor (w : Wait) : w.obtained.waitsFor = none := by
  unfold Wait.obtained
  dsimp only
  split <;> rfl

theorem Pc.served_waitsFor (p : Pc) : p.served.waitsFor = none := by
  cases p with
  | blocked w left slice count => exact w.obtained_waitsFor
  | _ => rfl

theorem Pc.Takes.waitsFor {p p' : Pc} {n : SemName} (h : p.Takes n p') :
    p.waitsFor = none ∧ p'.waitsFor = none := by
  cases h with
  | full msg => exact ⟨rfl, rfl⟩
  | wait w left => exact ⟨rfl, w.obtained_waitsFor⟩
  | poll => exact ⟨rfl, rfl⟩

theorem Pc.Blocks.waitsFor {p p' : Pc} {n : SemName} (h : p.Blocks n p') :
    p.waitsFor = none ∧ p'.waitsFor = some n := by
  cases h <;> exact ⟨rfl, rfl⟩

theorem Turns.waitsFor {p p' : Pc} (h : Turns net p p') : p.waitsFor = none ∧ p'.waitsFor = none := by
  cases h <;> exact ⟨rfl, rfl⟩

theorem Ends.waitsFor {p : Pc} {r : Ret} (h : Ends net p r) : p.waitsFor = none := by
  cases h <;> rfl

/-- One semaphore is changed, and only tasks that wait for it begin or stop waiting. -/
theorem Waiting.set (h : Waiting net) {n : SemName} {s : Sem τ} {pc : τ → Pc} (hs : s.Ok)
    (hmem : ∀ u, u ∈ s.waitq ↔ (pc u).waitsFor = some n)
    (hother : ∀ m u, m ≠ n → ((pc u).waitsFor = some m ↔ (net.pc u).waitsFor = some m)) :
    Waiting { net.setSem n s with pc := pc } := by
  constructor
  · intro m u
    by_cases hm : m = n
    · subst hm
      rw [← hmem]
      show u ∈ (Function.update net.sem m s m).waitq ↔ _
      rw [Function.update_self]
    · rw [hother m u hm, ← h.mem]
      show u ∈ (Function.update net.sem n s m).waitq ↔ _
      rw [Function.update_of_ne hm]
  · intro m
    show (Function.update net.sem n s m).Ok
    by_cases hm : m = n
    · subst hm
      rw [Function.update_self]
      exact hs
    · rw [Function.update_of_ne hm]
      exact h.ok m

/-- The mailbox does not matter. -/
theorem Waiting.mbox (h : Waiting net) (m : SysMbox) : Waiting { net with mbox := m } :=
  ⟨h.mem, h.ok⟩

theorem Pc.tick_waitsFor (p : Pc) :
    p.tick.waitsFor = if p.expires then none else p.waitsFor := by
  cases p with
  | blocked w left slice count =>
    cases count with
    | none => rfl
    | some count =>
      by_cases hc : count ≤ 1
      · simp only [Pc.tick, Pc.expires, hc, if_true, decide_true]
        split <;> rfl
      · simp [Pc.tick, Pc.expires, hc, Pc.waitsFor]
  | _ => rfl

theorem Waiting.tick (h : Waiting net) : Waiting (net.tick cfg) := by
  constructor
  · intro n t
    show t ∈ (net.sem n).waitq.filter _ ↔ (net.pc t).tick.waitsFor = some n
    rw [List.mem_filter, h.mem, Pc.tick_waitsFor]
    cases (net.pc t).expires <;> simp
  · intro n
    have hok := h.ok n
    refine ⟨hok.nodup.filter _, hok.nonneg, fun hne => hok.empty fun hq => hne ?_⟩
    show (net.sem n).waitq.filter _ = []
    rw [hq, List.filter_nil]

/-! ## Moves -/

section

variable [DecidableEq τ]

/-- The steps by what they do to the shared data. -/
inductive Move (cfg : Config) (net : Port τ) : Act τ → Option Ret → Port τ → Prop where
  | turn {a : Act τ} {t : τ} {p : Pc} : (∀ u, a = .run u → u = t) → Turns net (net.pc t) p →
      Move cfg net a none (net.goto t p)
  | ends {t : τ} {r : Ret} : Ends net (net.pc t) r → Move cfg net (.run t) (some r) (net.goto t .idle)
  | enqueue {t : τ} {msg : VP} {p : Poster} : net.pc t = .enqueue msg p →
      net.mbox.used < net.mbox.size →
      Move cfg net (.run t) none
        ({ net with mbox := mboxEnqueueUnlocked msg net.mbox }.goto t .signalEmpty)
  | posted {t : τ} : net.pc t = .signalEmpty →
      Move cfg net (.run t) (some (.posted true)) ((net.signal cfg .semEmpty).goto t .idle)
  | take {t : τ} {n : SemName} {p : Pc} : (net.pc t).Takes n p → 0 < (net.sem n).semcnt →
      Move cfg net (.run t) none
        ((net.setSem n { net.sem n with semcnt := (net.sem n).semcnt - 1 }).goto t p)
  | block {t : τ} {n : SemName} {p : Pc} : (net.pc t).Blocks n p → ¬ 0 < (net.sem n).semcnt →
      Move cfg net (.run t) none ((net.setSem n ((net.sem n).block t)).goto t p)
  | dequeue {t : τ} {f : Fetch} : net.pc t = .dequeue f → net.mbox.used ≠ 0 →
      Move cfg net (.run t) none
        ({ net with mbox := (mboxDequeueUnlocked net.mbox).2 }.goto t
          (if net.mbox.used ≥ net.mbox.size then .signalFull f (mboxDequeueUnlocked net.mbox).1
            else .fetched f (mboxDequeueUnlocked net.mbox).1))
  | notified {t : τ} {f : Fetch} {msg : VP} : net.pc t = .signalFull f msg →
      Move cfg net (.run t) none ((net.signal cfg .semFull).goto t (.fetched f msg))
  | signalled {t : τ} : net.pc t = .idle → Move cfg net (.semSignal t) none (net.signal cfg .sem)
  | tick : Move cfg net .tick none (net.tick cfg)

theorem move_waiSem {t : τ} {n : SemName} {ok blocked : Pc} (hok : (net.pc t).Takes n ok)
    (hblocked : (net.pc t).Blocks n blocked) :
    Move cfg net (.run t) none (net.waiSem n t ok blocked) := by
  unfold Port.waiSem Sem.wai
  by_cases h : 0 < (net.sem n).semcnt
  · rw [if_pos h]
    exact .take hok h
  · rw [if_neg h]
    exact .block hblocked h

theorem run_move {t : τ} {r : Option Ret} (h : net.run cfg t = some (net', r)) :
    Move cfg net (.run t) r net' := by
  unfold Port.run at h
  split at h
  · cases h
  · cases h
  · cases h
  -- post and trypost: the ring is full, or has a place
  · next msg p hpc =>
    split at h
    · next hfull =>
      split at h
      · next hp =>
        cases h
        exact .ends (by rw [hpc, hp]; exact .full msg hfull)
      · next hp =>
        cases h
        exact .turn (by rintro u ⟨⟩; rfl) (by rw [hpc]; exact .full msg p hfull hp)
    · next hfull =>
      cases h
      exact .enqueue hpc (not_le.mp hfull)
  · next hpc =>
    cases h
    exact .posted hpc
  · next msg hpc =>
    cases h
    exact move_waiSem (by rw [hpc]; exact .full msg) (by rw [hpc]; exact .full msg)
  -- a wait without a timeout, or the next slice of one
  · next w left hpc =>
    split at h
    · next h0 =>
      cases h
      exact move_waiSem (by rw [hpc]; exact .wait w left) (by rw [hpc]; exact .forever w left h0)
    · next h0 =>
      cases h
      exact move_waiSem (by rw [hpc]; exact .wait w left) (by rw [hpc]; exact .slice w left h0)
  · next w hpc =>
    split at h <;> cases h
    · next hw => exact .ends (by rw [hpc]; exact .fetchTimedOut w hw)
    · next hw => exact .ends (by rw [hpc]; exact .waitTimedOut w hw)
  · next w hpc =>
    cases h
    exact .ends (by rw [hpc]; exact .waited w)
  · next hpc =>
    unfold Sem.wai at h
    by_cases hcnt : 0 < (net.sem .semEmpty).semcnt
    · rw [if_pos hcnt] at h
      cases h
      exact .take (by rw [hpc]; exact .poll) hcnt
    · rw [if_neg hcnt] at h
      cases h
      exact .ends (by rw [hpc]; exact .noToken)
  -- a token was taken, but the ring may be empty
  · next f hpc =>
    split at h
    · next h0 =>
      cases f with
      | timed w =>
        cases h
        exact .turn (by rintro u ⟨⟩; rfl) (by rw [hpc]; exact .foundEmpty w h0)
      | tryfetch =>
        cases h
        exact .ends (by rw [hpc]; exact .empty h0)
    · next h0 =>
      obtain ⟨rfl, rfl⟩ := Prod.mk.inj (Option.some.inj h)
      simp only [decide_eq_true_eq]
      exact .dequeue hpc h0
  -- a fetch that found the ring empty goes on with the time that is left
  · next w hpc =>
    split at h
    · next h0 =>
      dsimp only at h
      split at h <;> cases h
      · exact .ends (by rw [hpc]; exact .gaveUp w)
      · exact .turn (by rintro u ⟨⟩; rfl) (by rw [hpc]; exact .less w h0)
    · next h0 =>
      cases h
      exact .turn (by rintro u ⟨⟩; rfl) (by rw [hpc]; exact .again w (not_not.mp h0))
  · next w hpc =>
    cases h
    exact .turn (by rintro u ⟨⟩; rfl) (by rw [hpc]; exact .restart w)
  · next f msg hpc =>
    cases h
    exact .notified hpc
  · next w msg hpc =>
    cases h
    exact .ends (by rw [hpc]; exact .fetched w msg)
  · next msg hpc =>
    cases h
    exact .ends (by rw [hpc]; exact .tryfetched msg)

/-- **Every step is one of these.** -/
theorem step_move {a : Act τ} {r : Option Ret} (h : net.step cfg a = some (net', r)) :
    Move cfg net a r net' := by
  cases a with
  | run t => exact run_move h
  | tick =>
    cases h
    exact .tick
  | semSignal t =>
    obtain ⟨hpc, heq⟩ := Option.ite_none_right_eq_some.mp h
    cases heq
    exact .signalled hpc
  | post t msg =>
    obtain ⟨hpc, heq⟩ := Option.ite_none_right_eq_some.mp h
    cases heq
    exact .turn nofun (by rw [hpc]; exact .post msg)
  | trypost t msg =>
    obtain ⟨hpc, heq⟩ := Option.ite_none_right_eq_some.mp h
    cases heq
    exact .turn nofun (by rw [hpc]; exact .trypost msg)
  | fetch t timeout =>
    obtain ⟨hpc, heq⟩ := Option.ite_none_right_eq_some.mp h
    cases heq
    exact .turn nofun (by rw [hpc]; exact .wait .fetch timeout)
  | tryfetch t =>
    obtain ⟨hpc, heq⟩ := Option.ite_none_right_eq_some.mp h
    cases heq
    exact .turn nofun (by rw [hpc]; exact .tryfetch)
  | semWait t timeout =>
    obtain ⟨hpc, heq⟩ := Option.ite_none_right_eq_some.mp h
    cases heq
    exact .turn nofun (by rw [hpc]; exact .wait .semWait timeout)

@[simp] theorem goto_sem (t : τ) (p : Pc) (net : Port τ) : (net.goto t p).sem = net.sem := rfl

@[simp] theorem goto_mbox (t : τ) (p : Pc) (net : Port τ) : (net.goto t p).mbox = net.mbox := rfl

/-- A task that waits neither before nor after a step. -/
theorem update_waitsFor {pc : τ → Pc} {t : τ} {p : Pc} (ht : (pc t).waitsFor = none)
    (hp : p.waitsFor = none) (u : τ) : (Function.update pc t p u).waitsFor = (pc u).waitsFor := by
  by_cases hu : u = t
  · subst hu
    rw [Function.update_self, hp, ht]
  · rw [Function.update_of_ne hu]

theorem Waiting.goto (h : Waiting net) {t : τ} {p : Pc} (ht : (net.pc t).waitsFor = none)
    (hp : p.waitsFor = none) : Waiting (net.goto t p) := by
  refine ⟨fun n u => ?_, h.ok⟩
  rw [goto_sem, h.mem]
  show _ ↔ (Function.update net.pc t p u).waitsFor = some n
  rw [update_waitsFor ht hp]

theorem Waiting.take (h : Waiting net) {t : τ} {n : SemName} {p : Pc}
    (ht : (net.pc t).Takes n p) (hcnt : 0 < (net.sem n).semcnt) :
    Waiting ((net.setSem n { net.sem n with semcnt := (net.sem n).semcnt - 1 }).goto t p) := by
  have hok := h.ok n
  have hempty : (net.sem n).waitq = [] := by
    by_contra hne
    have := hok.empty hne
    omega
  refine h.set ⟨hok.nodup, ?_, fun hne => absurd hempty hne⟩ (fun u => ?_) fun m u _ => ?_
  · show 0 ≤ (net.sem n).semcnt - 1
    omega
  · rw [setSem_pc, update_waitsFor ht.waitsFor.1 ht.waitsFor.2]
    exact h.mem n u
  · rw [setSem_pc, update_waitsFor ht.waitsFor.1 ht.waitsFor.2]

theorem Waiting.block (h : Waiting net) {t : τ} {n : SemName} {p : Pc}
    (ht : (net.pc t).Blocks n p) (hcnt : ¬ 0 < (net.sem n).semcnt) :
    Waiting ((net.setSem n ((net.sem n).block t)).goto t p) := by
  obtain ⟨hnone, hsome⟩ := ht.waitsFor
  have hok := h.ok n
  have hnonneg := hok.nonneg
  have hnot : t ∉ (net.sem n).waitq := by
    rw [h.mem, hnone]
    exact nofun
  have hnodup : ((net.sem n).waitq ++ [t]).Nodup := by
    rw [List.nodup_append]
    refine ⟨hok.nodup, List.nodup_singleton t, ?_⟩
    rintro u hu v hv rfl
    exact hnot (List.mem_singleton.mp hv ▸ hu)
  refine h.set ⟨hnodup, hnonneg, fun _ => ?_⟩ (fun u => ?_) fun m u hm => ?_
  · show (net.sem n).semcnt = 0
    omega
  · show u ∈ (net.sem n).waitq ++ [t] ↔ _
    rw [List.mem_append, List.mem_singleton, h.mem]
    by_cases hu : u = t
    · subst hu
      rw [Function.update_self, hsome]
      simp
    · rw [Function.update_of_ne hu]
      simp [hu]
  · by_cases hu : u = t
    · subst hu
      rw [Function.update_self, hsome, hnone]
      simp [Ne.symm hm]
    · rw [setSem_pc, Function.update_of_ne hu]

/-- What a signal does: it serves the first waiting task, or adds to the count up to the maximum. -/
theorem signal_cases (cfg : Config) (n : SemName) (net : Port τ) :
    (∃ t waitq, (net.sem n).waitq = t :: waitq ∧
      net.signal cfg n =
        (net.setSem n { net.sem n with waitq := waitq }).goto t (net.pc t).served) ∨
    ((net.sem n).waitq = [] ∧ (net.sem n).semcnt < cfg.tmaxMaxsem ∧
      net.signal cfg n = net.setSem n { net.sem n with semcnt := (net.sem n).semcnt + 1 }) ∨
    ((net.sem n).waitq = [] ∧ cfg.tmaxMaxsem ≤ (net.sem n).semcnt ∧
      net.signal cfg n = net.setSem n (net.sem n)) := by
  unfold Port.signal Sem.sig
  cases hq : (net.sem n).waitq with
  | cons t waitq => exact .inl ⟨t, waitq, rfl, rfl⟩
  | nil =>
    by_cases hmax : (net.sem n).semcnt ≥ cfg.tmaxMaxsem
    · refine .inr (.inr ⟨rfl, hmax, ?_⟩)
      simp only [if_pos hmax]
    · refine .inr (.inl ⟨rfl, not_le.mp hmax, ?_⟩)
      simp only [if_neg hmax, ← hq]

theorem Waiting.signal (h : Waiting net) (n : SemName) : Waiting (net.signal cfg n) := by
  have hok := h.ok n
  have hnonneg := hok.nonneg
  rcases signal_cases cfg n net with ⟨t, waitq, hq, hs⟩ | ⟨hq, hmax, hs⟩ | ⟨hq, hmax, hs⟩ <;> rw [hs]
  · have hnodup := hok.nodup
    rw [hq, List.nodup_cons] at hnodup
    have hwaits : (net.pc t).waitsFor = some n := by
      rw [← h.mem, hq]
      exact List.mem_cons_self
    refine h.set ⟨hnodup.2, hnonneg, fun _ => ?_⟩ (fun u => ?_) fun m u hm => ?_
    · exact hok.empty (by rw [hq]; exact List.cons_ne_nil _ _)
    · show u ∈ waitq ↔ _
      by_cases hu : u = t
      · subst hu
        rw [setSem_pc, Function.update_self, Pc.served_waitsFor]
        simp [hnodup.1]
      · rw [setSem_pc, Function.update_of_ne hu, ← h.mem, hq, List.mem_cons]
        simp [hu]
    · by_cases hu : u = t
      · subst hu
        rw [setSem_pc, Function.update_self, Pc.served_waitsFor, hwaits]
        simp [Ne.symm hm]
      · rw [setSem_pc, Function.update_of_ne hu]
  · refine h.set ⟨hok.nodup, ?_, fun hne => absurd hq hne⟩ (h.mem n) fun _ _ _ => Iff.rfl
    show 0 ≤ (net.sem n).semcnt + 1
    omega
  · exact h.set hok (h.mem n) fun _ _ _ => Iff.rfl

theorem signal_mbox (n : SemName) (net : Port τ) : (net.signal cfg n).mbox = net.mbox := by
  rcases signal_cases cfg n net with ⟨u, waitq, -, hs⟩ | ⟨-, -, hs⟩ | ⟨-, -, hs⟩ <;> rw [hs] <;> rfl

/-- A signal leaves the tasks that do not wait where they are. -/
theorem signal_pc (h : Waiting net) {n : SemName} {t : τ} (ht : (net.pc t).waitsFor = none) :
    (net.signal cfg n).pc t = net.pc t := by
  rcases signal_cases cfg n net with ⟨u, waitq, hq, hs⟩ | ⟨-, -, hs⟩ | ⟨-, -, hs⟩ <;> rw [hs]
  · have hne : t ≠ u := by
      rintro rfl
      have hmem := (h.mem n t).mp (by rw [hq]; exact List.mem_cons_self)
      rw [ht] at hmem
      cases hmem
    exact Function.update_of_ne hne _ _
  · rfl
  · rfl

/-- **Every step keeps the queues right.** -/
theorem Move.waiting {a : Act τ} {r : Option Ret} (h : Waiting net) (hm : Move cfg net a r net') :
    Waiting net' := by
  cases hm with
  | turn _ ht => exact h.goto ht.waitsFor.1 ht.waitsFor.2
  | ends ht => exact h.goto ht.waitsFor rfl
  | enqueue ht _ => exact (h.mbox _).goto (by rw [ht]; rfl) rfl
  | @posted t ht =>
    have hpc : (net.pc t).waitsFor = none := by
      rw [ht]
      rfl
    refine (h.signal .semEmpty).goto ?_ rfl
    rw [signal_pc h hpc, hpc]
  | take ht hcnt => exact h.take ht hcnt
  | block ht hcnt => exact h.block ht hcnt
  | dequeue ht _ => exact (h.mbox _).goto (by rw [ht]; rfl) (by split <;> rfl)
  | @notified t f msg ht =>
    have hpc : (net.pc t).waitsFor = none := by
      rw [ht]
      rfl
    refine (h.signal .semFull).goto ?_ rfl
    rw [signal_pc h hpc, hpc]
  | signalled _ => exact h.signal .sem
  | tick => exact h.tick

end

/-! ## New mailboxes -/

/-- A new mailbox, and no call under way. -/
structure Fresh (cfg : Config) (net : Port τ) : Prop where
  mbox : ∃ size, sysMboxNew cfg size = some net.mbox
  empty : net.sem .semEmpty = { semcnt := 0, waitq := [] }
  full : net.sem .semFull = { semcnt := 0, waitq := [] }
  sem : (net.sem .sem).waitq = [] ∧ 0 ≤ (net.sem .sem).semcnt
  idle : ∀ t, net.pc t = .idle

/-- A new mailbox with `size` places. -/
def newPort (τ : Type) (size : Int) : Port τ where
  mbox := { q := fun _ => 0, size := size, head := 0, tail := 0, used := 0 }
  sem := fun _ => { semcnt := 0, waitq := [] }
  pc := fun _ => .idle
  systemTicks := ⟨0, 0⟩
  now := 0

theorem newPort_fresh (τ : Type) {size : Int} (h : 0 < size ∧ size ≤ cfg.tmaxMaxsem)
    (ticks : SYSTIM) : Fresh cfg { newPort τ size with systemTicks := ticks } :=
  ⟨⟨size, if_neg (by omega)⟩, rfl, rfl, ⟨rfl, le_rfl⟩, fun _ => rfl⟩

theorem Fresh.waiting (h : Fresh cfg net) : Waiting net := by
  constructor
  · intro n t
    rw [h.idle]
    cases n <;> simp [h.empty, h.full, h.sem.1, Pc.waitsFor]
  · intro n
    cases n with
    | semEmpty => rw [h.empty]; exact ⟨List.nodup_nil, le_rfl, fun _ => rfl⟩
    | semFull => rw [h.full]; exact ⟨List.nodup_nil, le_rfl, fun _ => rfl⟩
    | sem =>
      exact ⟨by rw [h.sem.1]; exact List.nodup_nil, h.sem.2, fun hne => absurd h.sem.1 hne⟩

abbrev NetTrace (τ : Type) := List (Event (Port τ) (Act τ × Option Ret))

/-! ## Ticks while no task waits for a time -/

/-- The state `n` ticks later. -/
def aged (cfg : Config) (n : Nat) (net : Port τ) : Port τ :=
  { net with systemTicks := (SYSTIM.advance cfg.ticDeno)^[n] net.systemTicks, now := net.now + n }

theorem tick_aged (hpc : ∀ t, (net.pc t).tick = net.pc t ∧ (net.pc t).expires = false) (n : Nat) :
    (aged cfg n net).tick cfg = aged cfg (n + 1) net := by
  have hsem : (fun m => (⟨(net.sem m).semcnt,
      (net.sem m).waitq.filter fun t => !(net.pc t).expires⟩ : Sem τ)) = net.sem := by
    funext m
    rw [List.filter_eq_self.mpr fun t _ => by rw [(hpc t).2]; rfl]
  have hpcs : (fun t => (net.pc t).tick) = net.pc := funext fun t => (hpc t).1
  unfold aged
  rw [Function.iterate_succ_apply']
  show Port.mk net.mbox (fun m => ⟨(net.sem m).semcnt,
    (net.sem m).waitq.filter fun t => !(net.pc t).expires⟩) (fun t => (net.pc t).tick) _ _ = _
  rw [hsem, hpcs]
  rfl

/-! ## Runs -/

variable [DecidableEq τ]

/-- A step that meets `C`. -/
def NetStepOf (cfg : Config) (C : Port τ → Act τ → Prop) (net : Port τ) (l : Act τ × Option Ret)
    (net' : Port τ) : Prop := C net l.1 ∧ net.step cfg l.1 = some (net', l.2)

/-- The runs in which every step meets `C`. -/
abbrev NetRunOf (cfg : Config) (C : Port τ → Act τ → Prop) : NetTrace τ → Port τ → Prop :=
  Run (Fresh cfg) (NetStepOf cfg C)

abbrev NetRun (cfg : Config) : NetTrace τ → Port τ → Prop := NetRunOf cfg fun _ _ => True

/-- The queues are right in every state reached. -/
theorem NetRunOf.waiting {C : Port τ → Act τ → Prop} {tr : NetTrace τ}
    (h : NetRunOf cfg C tr net) : Waiting net :=
  h.invariant (fun _ => Fresh.waiting) fun _ _ _ hw hs => (step_move hs.2).waiting hw

/-! ## Runs of given steps -/

/-- Makes the given steps, if they meet `C`. -/
def runActs (cfg : Config) (C : Port τ → Act τ → Prop) [∀ net a, Decidable (C net a)] :
    List (Act τ) → NetTrace τ → Port τ → Option (NetTrace τ × Port τ)
  | [], tr, net => some (tr, net)
  | a :: acts, tr, net =>
    if C net a then
      match net.step cfg a with
      | some (net', r) => runActs cfg C acts (⟨net, (a, r), net'⟩ :: tr) net'
      | none => none
    else none

theorem runActs_run {C : Port τ → Act τ → Prop} [∀ net a, Decidable (C net a)]
    {init : Port τ → Prop} {acts : List (Act τ)} {tr tr' : NetTrace τ} {net net' : Port τ}
    (h₀ : Run init (NetStepOf cfg C) tr net)
    (h : runActs cfg C acts tr net = some (tr', net')) : Run init (NetStepOf cfg C) tr' net' := by
  induction acts generalizing tr net with
  | nil =>
    cases h
    exact h₀
  | cons a acts ih =>
    simp only [runActs] at h
    split at h
    · next hC =>
      split at h
      · next net₁ r hs => exact ih (h₀.step ⟨hC, hs⟩) h
      · cases h
    · cases h

/-- A run of given steps, and what can be computed of it. -/
theorem exists_netRun (cfg : Config) (C : Port τ → Act τ → Prop) [∀ net a, Decidable (C net a)]
    (acts : List (Act τ)) {init : Port τ → Prop} {net : Port τ} (hnet : init net)
    (Q : NetTrace τ → Port τ → Prop) [∀ tr net, Decidable (Q tr net)]
    (h : ((runActs cfg C acts [] net).map fun x => decide (Q x.1 x.2)) = some true) :
    ∃ tr net, Run init (NetStepOf cfg C) tr net ∧ Q tr net := by
  obtain ⟨⟨tr, net'⟩, hrun, hQ⟩ := Option.map_eq_some_iff.mp h
  exact ⟨tr, net', runActs_run (.start hnet) hrun, of_decide_eq_true hQ⟩

theorem exists_run_aged {init : Port τ → Prop} {tr : NetTrace τ}
    (h : Run init (NetStepOf cfg fun _ _ => True) tr net)
    (hpc : ∀ t, (net.pc t).tick = net.pc t ∧ (net.pc t).expires = false) (n : Nat) :
    ∃ tr', Run init (NetStepOf cfg fun _ _ => True) tr' (aged cfg n net) := by
  induction n with
  | zero => exact ⟨tr, h⟩
  | succ n ih =>
    obtain ⟨tr', h'⟩ := ih
    refine ⟨_, h'.step (l := (.tick, none)) ⟨trivial, ?_⟩⟩
    exact congrArg (fun net => some (net, none)) (tick_aged hpc n)

end Ittrium.Net
