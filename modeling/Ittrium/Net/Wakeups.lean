import Ittrium.Net.Mailbox

/-!
# Posters that wait for room

`sem_full` is signalled only where a fetch finds the mailbox full. When several posters wait and
several messages are taken, one signal serves one of them, and the others go on waiting next to
empty places.

* `Covered` — the fetches that leave no poster behind
* `WakeInv` — what a run of such steps keeps
* `no_lost_wakeup` — **a poster that waits while there is room is served by a step under way**
* `lost_wakeup` — two posters, and a fetch from a mailbox that is not full
-/

namespace Ittrium.Net

open Infra

variable {τ : Type} {cfg : Config} {net net' : Port τ}

/-! ## Tasks by what they do about `sem_full` -/

/-- A poster that has found the mailbox full. -/
def Pc.refused : Pc → Nat
  | .waitFull _ | .blockedFull _ => 1
  | _ => 0

/-- A fetcher that is about to signal. -/
def Pc.notifying : Pc → Nat
  | .signalFull _ _ => 1
  | _ => 0

/-- A poster that tries again. -/
def Pc.retrying : Pc → Nat
  | .enqueue _ .again => 1
  | _ => 0

theorem Pc.Takes.wakes {p p' : Pc} {n : SemName} (h : p.Takes n p') :
    p.refused = p'.retrying ∧ p'.refused = 0 ∧ p.retrying = 0 ∧
      p.notifying = 0 ∧ p'.notifying = 0 ∧ p.refused = if n = .semFull then 1 else 0 := by
  cases h with
  | wait w left =>
    obtain ⟨who⟩ := w
    cases who <;> exact ⟨rfl, rfl, rfl, rfl, rfl, rfl⟩
  | _ => exact ⟨rfl, rfl, rfl, rfl, rfl, rfl⟩

theorem Pc.Blocks.wakes {p p' : Pc} {n : SemName} (h : p.Blocks n p') :
    p'.refused = p.refused ∧ p'.retrying = p.retrying ∧ p'.notifying = p.notifying := by
  cases h <;> exact ⟨rfl, rfl, rfl⟩

theorem Pc.served_wakes {p : Pc} {n : SemName} (h : p.waitsFor = some n) :
    p.refused = (if n = .semFull then 1 else 0) ∧
      p.served.retrying = (if n = .semFull then 1 else 0) ∧ p.served.refused = 0 ∧
      p.retrying = 0 ∧ p.served.notifying = 0 ∧ p.notifying = 0 := by
  cases p with
  | blockedFull msg =>
    cases h
    exact ⟨rfl, rfl, rfl, rfl, rfl, rfl⟩
  | blocked w left slice count =>
    cases h
    obtain ⟨who⟩ := w
    cases who <;> exact ⟨rfl, rfl, rfl, rfl, rfl, rfl⟩
  | _ => cases h

/-- A step that changes only the task's variables: either the task has been refused, or nothing
changes. -/
theorem Turns.wakes {p p' : Pc} (h : Turns net p p') :
    net.mbox.used ≥ net.mbox.size ∨
      p'.refused = p.refused ∧ p'.retrying = p.retrying ∧ p'.notifying = p.notifying := by
  cases h with
  | full msg p hfull hp => exact .inl hfull
  | _ => exact .inr ⟨rfl, rfl, rfl⟩

theorem Ends.wakes {p : Pc} {r : Ret} (h : Ends net p r) :
    p.refused = 0 ∧ p.retrying = 0 ∧ p.notifying = 0 := by
  cases h <;> exact ⟨rfl, rfl, rfl⟩

theorem Pc.tick_wakes (p : Pc) :
    p.tick.refused = p.refused ∧ p.tick.retrying = p.retrying ∧ p.tick.notifying = p.notifying := by
  unfold Pc.tick
  split
  · split
    · dsimp only
      split <;> exact ⟨rfl, rfl, rfl⟩
    · exact ⟨rfl, rfl, rfl⟩
  · exact ⟨rfl, rfl, rfl⟩

section

variable [Fintype τ]

/-- Posters that wait or are about to. -/
def refused (net : Port τ) : Int := total Pc.refused net.pc

/-- Signals that have been or are about to be sent and have not served a poster. -/
def signals (net : Port τ) : Int := total Pc.notifying net.pc + (net.sem .semFull).semcnt

/-- Posters that have been served and have not tried again. -/
def retrying (net : Port τ) : Int := total Pc.retrying net.pc

/-- Places that hold no message. -/
def free (net : Port τ) : Int := net.mbox.size - net.mbox.used

/-- A message is taken from a mailbox that is not full only if each poster left waiting has a signal
coming, or if each place that is free then has a poster coming. -/
def Covered (net : Port τ) : Act τ → Prop
  | .run t =>
    match net.pc t with
    | .dequeue _ => net.mbox.used ≥ net.mbox.size ∨ refused net ≤ signals net ∨
        free net + 1 ≤ signals net + retrying net
    | _ => True
  | _ => True

instance (net : Port τ) (a : Act τ) : Decidable (Covered net a) := by
  cases a with
  | run t =>
    unfold Covered
    dsimp only
    split <;> infer_instance
  | _ => exact .isTrue trivial

/-- **What runs of such steps keep.** -/
def WakeInv (net : Port τ) : Prop :=
  refused net ≤ signals net ∨ free net ≤ signals net + retrying net

/-! ## Steps -/

theorem Fresh.wakeInv (h : Fresh cfg net) : WakeInv net := by
  left
  have h₁ : total Pc.refused net.pc = 0 := total_eq_zero.2 fun t => by rw [h.idle]; rfl
  unfold refused signals
  rw [h₁, h.full]
  exact Int.natCast_nonneg _

theorem WakeInv.tick (h : WakeInv net) : WakeInv (net.tick cfg) := by
  have h₁ : refused (net.tick cfg) = refused net :=
    congrArg Nat.cast (total_congr fun t => (net.pc t).tick_wakes.1)
  have h₂ : retrying (net.tick cfg) = retrying net :=
    congrArg Nat.cast (total_congr fun t => (net.pc t).tick_wakes.2.1)
  have h₃ : signals (net.tick cfg) = signals net :=
    congrArg (fun n : Nat => (n : Int) + (net.sem .semFull).semcnt)
      (total_congr fun t => (net.pc t).tick_wakes.2.2)
  unfold WakeInv
  rw [h₁, h₂, h₃]
  exact h

/-- What a change of a semaphore does to them. -/
theorem setSem_wakes (n : SemName) (s : Sem τ) (net : Port τ) :
    refused (net.setSem n s) = refused net ∧
    signals (net.setSem n s) =
      signals net + (if n = .semFull then s.semcnt - (net.sem .semFull).semcnt else 0) ∧
    retrying (net.setSem n s) = retrying net := by
  refine ⟨rfl, ?_, rfl⟩
  show _ + (Function.update net.sem n s .semFull).semcnt = _
  by_cases hn : n = .semFull
  · subst hn
    rw [Function.update_self, if_pos rfl]
    unfold signals
    rw [setSem_pc]
    omega
  · rw [Function.update_of_ne (Ne.symm hn), if_neg hn]
    exact (Int.add_zero _).symm

variable [DecidableEq τ]

/-- What a task's step to `p` does to the three counts. -/
theorem goto_wakes (t : τ) (p : Pc) (net : Port τ) :
    refused (net.goto t p) = refused net + p.refused - (net.pc t).refused ∧
    signals (net.goto t p) = signals net + p.notifying - (net.pc t).notifying ∧
    retrying (net.goto t p) = retrying net + p.retrying - (net.pc t).retrying := by
  have h₁ := total_update Pc.refused net.pc t p
  have h₂ := total_update Pc.notifying net.pc t p
  have h₃ := total_update Pc.retrying net.pc t p
  unfold refused signals retrying
  show (total _ (Function.update net.pc t p) : Int) = _ ∧
    (total _ (Function.update net.pc t p) : Int) + (net.sem .semFull).semcnt = _ ∧
    (total _ (Function.update net.pc t p) : Int) = _
  omega

/-- The same, where the mailbox changes as well. -/
theorem mbox_wakes (m : SysMbox) (t : τ) (p : Pc) (net : Port τ) :
    refused (Port.goto t p { net with mbox := m }) = refused net + p.refused - (net.pc t).refused ∧
    signals (Port.goto t p { net with mbox := m }) =
      signals net + p.notifying - (net.pc t).notifying ∧
    retrying (Port.goto t p { net with mbox := m }) =
      retrying net + p.retrying - (net.pc t).retrying ∧
    free (Port.goto t p { net with mbox := m }) = m.size - m.used := by
  obtain ⟨h₁, h₂, h₃⟩ := goto_wakes t p { net with mbox := m }
  exact ⟨h₁, h₂, h₃, rfl⟩

/-- A signal that serves a poster makes it try again, any other one of `sem_full` is kept, unless
the count is at its maximum. -/
theorem signal_wakes (cfg : Config) (h : Waiting net) (n : SemName) :
    (refused (net.signal cfg n) = refused net - (if n = .semFull then 1 else 0) ∧
      signals (net.signal cfg n) = signals net ∧
      retrying (net.signal cfg n) = retrying net + (if n = .semFull then 1 else 0)) ∨
    (refused (net.signal cfg n) = refused net ∧
      signals (net.signal cfg n) = signals net + (if n = .semFull then 1 else 0) ∧
      retrying (net.signal cfg n) = retrying net) ∨
    (cfg.tmaxMaxsem ≤ (net.sem n).semcnt ∧ refused (net.signal cfg n) = refused net ∧
      signals (net.signal cfg n) = signals net ∧ retrying (net.signal cfg n) = retrying net) := by
  rcases signal_cases cfg n net with ⟨t, waitq, hq, hs⟩ | ⟨hq, hlt, hs⟩ | ⟨hq, hge, hs⟩ <;> rw [hs]
  -- a task is served
  · left
    have hwaits : (net.pc t).waitsFor = some n := by
      rw [← h.mem, hq]
      exact List.mem_cons_self
    obtain ⟨h₁, h₂, h₃⟩ := goto_wakes t (net.pc t).served
      (net.setSem n { net.sem n with waitq := waitq })
    obtain ⟨k₁, k₂, k₃⟩ := setSem_wakes n { net.sem n with waitq := waitq } net
    obtain ⟨w₁, w₂, w₃, w₄, w₅, w₆⟩ := Pc.served_wakes hwaits
    rw [h₁, h₂, h₃, k₁, k₂, k₃, setSem_pc, w₁, w₂, w₃, w₄, w₅, w₆]
    by_cases hn : n = .semFull
    · subst hn
      simp
    · simp [hn]
  · right; left
    obtain ⟨k₁, k₂, k₃⟩ :=
      setSem_wakes n { net.sem n with semcnt := (net.sem n).semcnt + 1 } net
    rw [k₁, k₂, k₃]
    by_cases hn : n = .semFull
    · subst hn
      simp
    · simp [hn]
  · right; right
    obtain ⟨k₁, k₂, k₃⟩ := setSem_wakes n (net.sem n) net
    rw [k₁, k₂, k₃]
    by_cases hn : n = .semFull
    · subst hn
      simp [hge]
    · simp [hn, hge]

theorem WakeInv.goto (h : WakeInv net) {t : τ} {p : Pc} (h₁ : p.refused = (net.pc t).refused)
    (h₂ : p.retrying = (net.pc t).retrying) (h₃ : p.notifying = (net.pc t).notifying) :
    WakeInv (net.goto t p) := by
  obtain ⟨g₁, g₂, g₃⟩ := goto_wakes t p net
  have hfree : free (net.goto t p) = free net := rfl
  unfold WakeInv at h ⊢
  omega

/-- Signals of other semaphores do not matter. -/
theorem WakeInv.signal (h : WakeInv net) (hw : Waiting net) {n : SemName} (hn : n ≠ .semFull) :
    WakeInv (net.signal cfg n) := by
  have hfree : free (net.signal cfg n) = free net := by
    unfold free
    rw [signal_mbox]
  have hwakes := signal_wakes cfg hw n
  simp only [hn, if_false, sub_zero, add_zero] at hwakes
  unfold WakeInv at h ⊢
  rw [hfree]
  omega

/-- **Every step that does not leave a poster behind keeps the invariant.** -/
theorem WakeInv.step {a : Act τ} {r : Option Ret} {tr : NetTrace τ} (h : WakeInv net)
    (hinv : MboxInv cfg tr net) (hm : Move cfg net a r net') (hC : Covered net a) :
    WakeInv net' := by
  have hw := hinv.waiting
  have hcnt := (hw.ok .semFull).nonneg
  have hused := hinv.ring.used
  have hsize := hinv.size
  cases hm with
  | @turn _ t p _ ht =>
    rcases ht.wakes with hfull | ⟨h₁, h₂, h₃⟩
    · -- a poster is refused only where there is no free place
      right
      show net.mbox.size - net.mbox.used ≤ signals (net.goto t p) + retrying (net.goto t p)
      have hsignals : 0 ≤ signals (net.goto t p) :=
        Int.add_nonneg (Int.natCast_nonneg _) hcnt
      have hretrying : 0 ≤ retrying (net.goto t p) := Int.natCast_nonneg _
      omega
    · exact h.goto h₁ h₂ h₃
  | ends ht =>
    obtain ⟨h₁, h₂, h₃⟩ := ht.wakes
    exact h.goto h₁.symm h₂.symm h₃.symm
  | @enqueue t msg p ht hlt =>
    -- one place less is free, and at most one poster less is coming
    obtain ⟨g₁, g₂, g₃, g₄⟩ := mbox_wakes (mboxEnqueueUnlocked msg net.mbox) t .signalEmpty net
    have hpc : (net.pc t).refused = 0 ∧ (net.pc t).notifying = 0 ∧ (net.pc t).retrying ≤ 1 := by
      rw [ht]
      cases p <;> exact ⟨rfl, rfl, by simp [Pc.retrying]⟩
    have hp : Pc.signalEmpty.refused = 0 ∧ Pc.signalEmpty.notifying = 0 ∧
        Pc.signalEmpty.retrying = 0 := ⟨rfl, rfl, rfl⟩
    have hm : (mboxEnqueueUnlocked msg net.mbox).size = net.mbox.size ∧
        (mboxEnqueueUnlocked msg net.mbox).used = net.mbox.used + 1 := by
      rw [mboxEnqueueUnlocked_eq]
      exact ⟨rfl, rfl⟩
    have hfree : free net = net.mbox.size - net.mbox.used := rfl
    unfold WakeInv at h ⊢
    omega
  | @posted t ht =>
    have hpc : (net.signal cfg .semEmpty).pc t = .signalEmpty := by
      rw [signal_pc hw (by rw [ht]; rfl), ht]
    refine (h.signal hw (by decide)).goto ?_ ?_ ?_ <;> rw [hpc] <;> rfl
  | @take t n p ht hpos =>
    obtain ⟨w₁, w₂, w₃, w₄, w₅, w₆⟩ := ht.wakes
    have hset := setSem_wakes n { net.sem n with semcnt := (net.sem n).semcnt - 1 } net
    have hgoto := goto_wakes t p (net.setSem n { net.sem n with semcnt := (net.sem n).semcnt - 1 })
    rw [setSem_pc, w₂, w₃, w₄, w₅, ← w₁, w₆] at hgoto
    have hfree : free ((net.setSem n { net.sem n with semcnt := (net.sem n).semcnt - 1 }).goto t p) =
        free net := rfl
    unfold WakeInv at h ⊢
    rw [hfree, hgoto.1, hgoto.2.1, hgoto.2.2, hset.1, hset.2.1, hset.2.2]
    by_cases hn : n = .semFull
    · subst hn
      simp only [if_true]
      omega
    · simp only [hn, if_false]
      omega
  | @block t n p ht _ =>
    obtain ⟨w₁, w₂, w₃⟩ := ht.wakes
    have hset := setSem_wakes n ((net.sem n).block t) net
    have hstep : WakeInv (net.setSem n ((net.sem n).block t)) := by
      have hzero : (if n = .semFull then ((net.sem n).block t).semcnt - (net.sem .semFull).semcnt
          else 0) = 0 := by
        split
        · next hn =>
          subst hn
          exact Int.sub_self _
        · rfl
      unfold WakeInv at h ⊢
      rw [hset.1, hset.2.1, hset.2.2, hzero, add_zero]
      exact h
    exact hstep.goto w₁ w₂ w₃
  | @dequeue t f ht hne =>
    have hm : (mboxDequeueUnlocked net.mbox).2.size = net.mbox.size ∧
        (mboxDequeueUnlocked net.mbox).2.used = net.mbox.used - 1 := by
      rw [mboxDequeueUnlocked_eq]
      exact ⟨rfl, rfl⟩
    have hcov : net.mbox.used ≥ net.mbox.size ∨ refused net ≤ signals net ∨
        free net + 1 ≤ signals net + retrying net := by
      simpa [Covered, ht] using hC
    have hpc : (net.pc t).refused = 0 ∧ (net.pc t).notifying = 0 ∧ (net.pc t).retrying = 0 := by
      rw [ht]
      exact ⟨rfl, rfl, rfl⟩
    have hfree : free net = net.mbox.size - net.mbox.used := rfl
    have hsignals : 0 ≤ signals net := Int.add_nonneg (Int.natCast_nonneg _) hcnt
    have hretrying : 0 ≤ retrying net := Int.natCast_nonneg _
    by_cases hfull : net.mbox.used ≥ net.mbox.size
    · -- the one free place has the signal to come
      rw [if_pos hfull]
      obtain ⟨g₁, g₂, g₃, g₄⟩ := mbox_wakes (mboxDequeueUnlocked net.mbox).2 t
        (.signalFull f (mboxDequeueUnlocked net.mbox).1) net
      have hp : (Pc.signalFull f (mboxDequeueUnlocked net.mbox).1).refused = 0 ∧
          (Pc.signalFull f (mboxDequeueUnlocked net.mbox).1).notifying = 1 ∧
          (Pc.signalFull f (mboxDequeueUnlocked net.mbox).1).retrying = 0 := ⟨rfl, rfl, rfl⟩
      unfold WakeInv at h ⊢
      omega
    · rw [if_neg hfull]
      obtain ⟨g₁, g₂, g₃, g₄⟩ := mbox_wakes (mboxDequeueUnlocked net.mbox).2 t
        (.fetched f (mboxDequeueUnlocked net.mbox).1) net
      have hp : (Pc.fetched f (mboxDequeueUnlocked net.mbox).1).refused = 0 ∧
          (Pc.fetched f (mboxDequeueUnlocked net.mbox).1).notifying = 0 ∧
          (Pc.fetched f (mboxDequeueUnlocked net.mbox).1).retrying = 0 := ⟨rfl, rfl, rfl⟩
      unfold WakeInv at h ⊢
      omega
  | @notified t f msg ht =>
    have hpc : (net.signal cfg .semFull).pc t = .signalFull f msg := by
      rw [signal_pc hw (by rw [ht]; rfl), ht]
    have hsig := signal_wakes cfg hw .semFull
    have hgoto := goto_wakes t (.fetched f msg) (net.signal cfg .semFull)
    rw [hpc] at hgoto
    have hle := le_total Pc.notifying net.pc t
    rw [ht] at hle
    have hp : (Pc.signalFull f msg).refused = 0 ∧ (Pc.signalFull f msg).notifying = 1 ∧
        (Pc.signalFull f msg).retrying = 0 ∧ (Pc.fetched f msg).refused = 0 ∧
        (Pc.fetched f msg).notifying = 0 ∧ (Pc.fetched f msg).retrying = 0 :=
      ⟨rfl, rfl, rfl, rfl, rfl, rfl⟩
    have hfree : free ((net.signal cfg .semFull).goto t (.fetched f msg)) = free net := by
      show (net.signal cfg .semFull).mbox.size - (net.signal cfg .semFull).mbox.used = _
      rw [signal_mbox]
      rfl
    have hsignals : signals net = total Pc.notifying net.pc + (net.sem .semFull).semcnt := rfl
    have hretrying : 0 ≤ retrying net := Int.natCast_nonneg _
    have hfree' : free net = net.mbox.size - net.mbox.used := rfl
    simp only [if_true] at hsig
    unfold WakeInv at h ⊢
    rw [hfree]
    omega
  | signalled _ => exact h.signal hw (by decide)
  | tick => exact h.tick

theorem NetRunOf.wakeInv {tr : NetTrace τ} (h : NetRunOf cfg Covered tr net) : WakeInv net := by
  induction h with
  | start h => exact h.wakeInv
  | step hr hs ih => exact ih.step (NetRunOf.mboxInv hr) (step_move hs.2) hs.1

/-! ## The claim -/

/-- A poster waits next to an empty place, `sem_full` has no resource, and no task is between two
of its steps. -/
def Stuck (net : Port τ) : Prop :=
  (∃ t msg, net.pc t = .blockedFull msg) ∧ net.mbox.used < net.mbox.size ∧
    (net.sem .semFull).semcnt = 0 ∧ ∀ u, net.pc u = .idle ∨ (net.pc u).waitsFor ≠ none

/-- **Where every fetch is covered no state is stuck: while a poster waits next to an empty place
there is a signal about to be sent, or a poster about to try again.** -/
theorem no_lost_wakeup {tr : NetTrace τ} (h : NetRunOf cfg Covered tr net) :
    ¬ Stuck net ∧
      ∀ t msg, net.pc t = .blockedFull msg → net.mbox.used < net.mbox.size →
        (net.sem .semFull).semcnt = 0 →
        ∃ u, (∃ f msg, net.pc u = .signalFull f msg) ∨ ∃ msg, net.pc u = .enqueue msg .again := by
  have hmain : ∀ t msg, net.pc t = .blockedFull msg → net.mbox.used < net.mbox.size →
      (net.sem .semFull).semcnt = 0 →
      ∃ u, (∃ f msg, net.pc u = .signalFull f msg) ∨ ∃ msg, net.pc u = .enqueue msg .again := by
    intro t msg ht hfree hcnt
    have hrefused : 0 < total Pc.refused net.pc := total_pos.2 ⟨t, by rw [ht]; exact Nat.one_pos⟩
    have hinv := NetRunOf.wakeInv h
    unfold WakeInv refused signals retrying free at hinv
    -- the balance: a free place beyond the signals that are kept has a signal on its way
    have hcoming : 0 < total Pc.notifying net.pc ∨ 0 < total Pc.retrying net.pc := by omega
    rcases hcoming with hpos | hpos
    · obtain ⟨u, hu⟩ := total_pos.1 hpos
      refine ⟨u, .inl ?_⟩
      cases hpc : net.pc u with
      | signalFull f msg => exact ⟨f, msg, rfl⟩
      | _ =>
        rw [hpc] at hu
        exact absurd hu (lt_irrefl 0)
    · obtain ⟨u, hu⟩ := total_pos.1 hpos
      refine ⟨u, .inr ?_⟩
      cases hpc : net.pc u with
      | enqueue msg p =>
        rw [hpc] at hu
        cases p with
        | again => exact ⟨msg, rfl⟩
        | _ => exact absurd hu (lt_irrefl 0)
      | _ =>
        rw [hpc] at hu
        exact absurd hu (lt_irrefl 0)
  refine ⟨?_, hmain⟩
  rintro ⟨⟨t, msg, ht⟩, hfree, hcnt, hquiet⟩
  obtain ⟨u, ⟨f, msg, hu⟩ | ⟨msg, hu⟩⟩ := hmain t msg ht hfree hcnt
  · rcases hquiet u with hidle | hwaits
    · rw [hu] at hidle
      cases hidle
    · rw [hu] at hwaits
      exact hwaits rfl
  · rcases hquiet u with hidle | hwaits
    · rw [hu] at hidle
      cases hidle
    · rw [hu] at hwaits
      exact hwaits rfl

/-- A mailbox with one place: the poster waits, and the fetcher is about to signal. -/
theorem no_lost_wakeup_one : ∃ (tr : NetTrace (Fin 2)) (net : Port (Fin 2)),
    NetRunOf smallConfig Covered tr net ∧ net.pc 0 = .blockedFull 9 ∧ net.mbox.used = 0 ∧
      ∃ u, (∃ f msg, net.pc u = .signalFull f msg) ∨ ∃ msg, net.pc u = .enqueue msg .again := by
  have hnet : Fresh smallConfig { newPort (Fin 2) 1 with systemTicks := ⟨0, 0⟩ } :=
    newPort_fresh _ (by decide) _
  obtain ⟨tr, net, hrun, hblocked, hused, hsize, hcnt⟩ := exists_netRun smallConfig Covered
    [.trypost 1 7, .run 1, .run 1, .post 0 9, .run 0, .run 0, .tryfetch 1, .run 1, .run 1] hnet
    (fun _ net => net.pc 0 = .blockedFull 9 ∧ net.mbox.used = 0 ∧ net.mbox.size = 1 ∧
      (net.sem .semFull).semcnt = 0) (by decide +kernel)
  exact ⟨tr, net, hrun, hblocked, hused,
    (no_lost_wakeup hrun).2 0 9 hblocked (by omega) hcnt⟩

/-- The mailbox has two places and is full when two posters come. Task 2 takes both messages before
either of them runs: its first fetch wakes one of them, and the second one wakes none. The poster
that was woken has put its message in and returned, and the other one waits. -/
theorem lost_wakeup : ∃ (tr : NetTrace (Fin 3)) (net : Port (Fin 3)),
    NetRun smallConfig tr net ∧ Stuck net := by
  have hnet : Fresh smallConfig { newPort (Fin 3) 2 with systemTicks := ⟨0, 0⟩ } :=
    newPort_fresh _ (by decide) _
  obtain ⟨tr, net, hrun, h₀, h₁, h₂, hused, hsize, hcnt⟩ := exists_netRun smallConfig (fun _ _ => True)
    [.trypost 2 1, .run 2, .run 2, .trypost 2 2, .run 2, .run 2,
      .post 0 3, .run 0, .run 0, .post 1 4, .run 1, .run 1,
      .tryfetch 2, .run 2, .run 2, .run 2, .run 2, .tryfetch 2, .run 2, .run 2, .run 2,
      .run 0, .run 0] hnet
    (fun _ net => net.pc 0 = .idle ∧ net.pc 1 = .blockedFull 4 ∧ net.pc 2 = .idle ∧
      net.mbox.used = 1 ∧ net.mbox.size = 2 ∧ (net.sem .semFull).semcnt = 0) (by decide +kernel)
  refine ⟨tr, net, hrun, ⟨1, 4, h₁⟩, by omega, hcnt, fun u => ?_⟩
  match u with
  | 0 => exact .inl h₀
  | 1 => exact .inr (by rw [h₁]; exact nofun)
  | 2 => exact .inl h₂

end

end Ittrium.Net
