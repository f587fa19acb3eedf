import Mathlib.Data.Bool.Count
import Ittrium.Properties.Runs
import Ittrium.Spec.Clock

/-!
# Nested ticks

A tick may interrupt a `timer_handler` before or after its critical section. The inner handler
asks `timer_hw_enter` whether there is an outer one, and returns at once if so.

* `TickRun hw` — the sequences of ticks and returns from `start_hw_timer` on
* `generic_nesting` — the counter is the active handlers and all ticks that were ever skipped
* `tick_nesting` — **the counter is back at zero if and only if no tick was nested**
* `m16c62_nesting` — the pair of the M16C port gets back to zero always
-/

namespace Ittrium

open Infra

variable {cfg : Config}

/-! ## The system -/

/-- The two functions a port gives `timer_handler`. -/
structure TimerHw (cfg : Config) where
  enter : Core cfg → Int × Core cfg
  exit : Core cfg → Core cfg

/-- `config/cpu_generic.c`. -/
def genericHw : TimerHw cfg := ⟨timerHwEnter, timerHwExit⟩

namespace M16c62

/-- `timer_hw_enter` of `config/m16c62/cpu_support.c`. -/
def timerHwEnter (c : Core cfg) : Int × Core cfg :=
  let low := c.systemTicks.stLow + 1
  let ticks : SYSTIM :=
    if cfg.ticDeno = low then { stLow := 0, stHigh := c.systemTicks.stHigh + 1 }
    else { c.systemTicks with stLow := low }
  let c := { c with systemTicks := ticks }
  if c.timerNesting ≠ 0 then (1, c) else (0, { c with timerNesting := c.timerNesting + 1 })

def timerHwExit (c : Core cfg) : Core cfg := { c with timerNesting := c.timerNesting - 1 }

end M16c62

def m16c62Hw : TimerHw cfg := ⟨M16c62.timerHwEnter, M16c62.timerHwExit⟩

/-- The events of the timer interrupt. -/
inductive Interrupt where
  /-- The interrupt occurs and `timer_handler` calls `timer_hw_enter`. -/
  | tick
  /-- The innermost `timer_handler` returns. -/
  | ret
  deriving DecidableEq, Repr

/-- The data and the `timer_handler`s that have not returned, innermost first. -/
structure Handlers (cfg : Config) where
  core : Core cfg
  /-- Whether each of them runs the timer queue. -/
  stack : List Bool

/-- `if (timer_hw_enter()) return;` at a tick, `timer_hw_exit` at the return of a handler that went
on. What a handler does in between leaves both variables alone, see `timerHandler_ticks`. -/
def Handlers.step (hw : TimerHw cfg) (σ : Handlers cfg) : Interrupt → Option (Handlers cfg)
  | .tick =>
    let (nesting, c) := hw.enter σ.core
    some { core := c, stack := decide (nesting = 0) :: σ.stack }
  | .ret =>
    match σ.stack with
    | [] => none
    | true :: stack => some { core := hw.exit σ.core, stack := stack }
    | false :: stack => some { core := σ.core, stack := stack }

/-- What a tick does. -/
theorem Handlers.step_tick {hw : TimerHw cfg} {σ σ' : Handlers cfg}
    (h : σ.step hw .tick = some σ') :
    σ' = { core := (hw.enter σ.core).2
           stack := decide ((hw.enter σ.core).1 = 0) :: σ.stack } :=
  (Option.some.inj h).symm

/-- What a return does. -/
theorem Handlers.step_ret {hw : TimerHw cfg} {σ σ' : Handlers cfg}
    (h : σ.step hw .ret = some σ') :
    ∃ b stack, σ.stack = b :: stack ∧
      σ' = { core := if b then hw.exit σ.core else σ.core, stack := stack } := by
  obtain ⟨core, stack⟩ := σ
  cases stack with
  | nil => cases h
  | cons b stack => cases b <;> exact ⟨_, stack, rfl, (Option.some.inj h).symm⟩

abbrev TickTrace (cfg : Config) := List (Event (Handlers cfg) Interrupt)

/-- `start_hw_timer` is done and no tick has come. -/
def TimerStarted (σ : Handlers cfg) : Prop :=
  ∃ s : Kernel cfg, σ = { core := (timerInitialize s).core, stack := [] }

abbrev TickRun (hw : TimerHw cfg) : TickTrace cfg → Handlers cfg → Prop :=
  Run TimerStarted fun σ e σ' => σ.step hw e = some σ'

/-- The ticks of a run. -/
def ticks (tr : TickTrace cfg) : Nat := tr.countP fun e => e.label = .tick

/-- The ticks that came before an earlier handler had returned. -/
def nested (tr : TickTrace cfg) : Nat :=
  tr.countP fun e => e.label = .tick && !e.pre.stack.isEmpty

/-- The ticks that did not run the timer queue. -/
def skipped (tr : TickTrace cfg) : Nat :=
  tr.countP fun e => e.label = .tick && e.pre.core.timerNesting ≠ 0

/-! ## The generic pair -/

/-- What a run keeps: every tick adds one to the counter, and only a handler that ran the timer
queue takes one off again. -/
structure GenericInv (tr : TickTrace cfg) (σ : Handlers cfg) : Prop where
  count : σ.core.timerNesting = σ.stack.count true + skipped tr
  skips : σ.stack.count false ≤ skipped tr
  nested : skipped tr = 0 ↔ nested tr = 0

theorem GenericInv.pos {tr : TickTrace cfg} {σ : Handlers cfg} (h : GenericInv tr σ)
    (hs : σ.stack ≠ []) : σ.core.timerNesting ≠ 0 := by
  have hlen : 0 < σ.stack.length := List.length_pos_iff.2 hs
  have hsum := List.count_true_add_count_false σ.stack
  have hcount := h.count
  have hskips := h.skips
  omega

theorem GenericInv.tick {tr : TickTrace cfg} {σ σ' : Handlers cfg} (h : GenericInv tr σ)
    (hs : σ.step genericHw .tick = some σ') : GenericInv (⟨σ, .tick, σ'⟩ :: tr) σ' := by
  have hσ' := Handlers.step_tick hs
  have hnext : σ'.core.timerNesting = σ.core.timerNesting + 1 := by rw [hσ']; rfl
  have hstack : σ'.stack = decide (σ.core.timerNesting = 0) :: σ.stack := by rw [hσ']; rfl
  have hcount := h.count
  have hskips := h.skips
  by_cases h0 : σ.core.timerNesting = 0
  · -- the tick runs the timer queue, and there is no handler it could have interrupted
    have hempty : σ.stack = [] := by
      by_contra hne
      exact h.pos hne h0
    have hskipped : skipped (⟨σ, .tick, σ'⟩ :: tr) = skipped tr := by simp [skipped, h0]
    have hnested : Ittrium.nested (⟨σ, .tick, σ'⟩ :: tr) = Ittrium.nested tr := by
      simp [Ittrium.nested, hempty]
    rw [hempty] at hstack hcount
    refine ⟨?_, ?_, ?_⟩
    · rw [hnext, hcount, hstack, hskipped]
      simp [h0]
      omega
    · rw [hstack, hskipped]
      simp [h0]
    · rw [hskipped, hnested]
      exact h.nested
  · have hskipped : skipped (⟨σ, .tick, σ'⟩ :: tr) = skipped tr + 1 := by simp [skipped, h0]
    refine ⟨?_, ?_, ?_⟩
    · rw [hnext, hcount, hstack, hskipped]
      simp [h0]
      omega
    · rw [hstack, hskipped]
      simp [h0]
      omega
    · -- a skipped tick that is not nested comes after one that was
      refine iff_of_false (by omega) ?_
      cases hst : σ.stack with
      | cons b stack => simp [Ittrium.nested, hst]
      | nil =>
        rw [hst, List.count_nil] at hcount
        have hne : Ittrium.nested tr ≠ 0 := by
          intro hn
          have := h.nested.2 hn
          omega
        simpa [Ittrium.nested, hst] using hne

theorem GenericInv.ret {tr : TickTrace cfg} {σ σ' : Handlers cfg} (h : GenericInv tr σ)
    (hs : σ.step genericHw .ret = some σ') : GenericInv (⟨σ, .ret, σ'⟩ :: tr) σ' := by
  obtain ⟨b, stack, hst, rfl⟩ := Handlers.step_ret hs
  have h0 := h.pos (by rw [hst]; exact List.cons_ne_nil _ _)
  have hcount := h.count
  have hskips := h.skips
  have hskipped : ∀ σ', skipped (⟨σ, .ret, σ'⟩ :: tr) = skipped tr := by
    intro σ'
    simp [skipped]
  have hnested : ∀ σ', Ittrium.nested (⟨σ, .ret, σ'⟩ :: tr) = Ittrium.nested tr := by
    intro σ'
    simp [Ittrium.nested]
  rw [hst] at hcount hskips
  refine ⟨?_, ?_, by rw [hskipped, hnested]; exact h.nested⟩
  · rw [hskipped]
    cases b with
    | true =>
      have hexit : ((genericHw : TimerHw cfg).exit σ.core).timerNesting
          = σ.core.timerNesting - 1 := by
        show (timerHwExit σ.core).timerNesting = _
        rw [timerHwExit, if_pos h0]
      simp only [if_true, hexit, hcount, List.count_cons_self]
      omega
    | false => simpa using hcount
  · rw [hskipped]
    exact le_trans List.count_le_count_cons hskips

/-- **The counter is the handlers that run the timer queue and all ticks skipped so far.** -/
theorem generic_nesting {tr : TickTrace cfg} {σ : Handlers cfg} (h : TickRun genericHw tr σ) :
    GenericInv tr σ := by
  induction h with
  | start h =>
    obtain ⟨s, rfl⟩ := h
    exact ⟨rfl, le_rfl, Iff.rfl⟩
  | @step tr σ σ' e _ hs ih =>
    cases e with
    | tick => exact ih.tick hs
    | ret => exact ih.ret hs

/-! ## The time -/

/-- What both pairs do to the time. -/
def TimerHw.Counts (hw : TimerHw cfg) : Prop :=
  ∀ c, (hw.enter c).2.systemTicks = c.systemTicks.advance cfg.ticDeno ∧
    (hw.exit c).systemTicks = c.systemTicks

theorem genericHw_counts : (genericHw : TimerHw cfg).Counts := fun c =>
  ⟨timerHwEnter_systemTicks c, timerHwExit_systemTicks c⟩

theorem m16c62Hw_counts : (m16c62Hw : TimerHw cfg).Counts := by
  intro c
  refine ⟨?_, rfl⟩
  show (M16c62.timerHwEnter c).2.systemTicks = _
  unfold M16c62.timerHwEnter
  dsimp only
  split <;> rfl

/-- The words are those of as many ticks, whatever they were at the start. -/
theorem systemTicks_of_run {hw : TimerHw cfg} (hw' : hw.Counts) {p : SYSTIM}
    {init : Handlers cfg → Prop} (hinit : ∀ σ, init σ → σ.core.systemTicks = p)
    {tr : TickTrace cfg} {σ : Handlers cfg}
    (h : Run init (fun σ e σ' => σ.step hw e = some σ') tr σ) :
    σ.core.systemTicks = (SYSTIM.advance cfg.ticDeno)^[ticks tr] p := by
  induction h with
  | start h => exact hinit _ h
  | @step tr σ σ' e _ hs ih =>
    cases e with
    | tick =>
      have hticks : ticks (⟨σ, .tick, σ'⟩ :: tr) = ticks tr + 1 := by simp [ticks]
      rw [hticks, Function.iterate_succ_apply', ← ih, Handlers.step_tick hs]
      exact (hw' σ.core).1
    | ret =>
      have hticks : ticks (⟨σ, .ret, σ'⟩ :: tr) = ticks tr := by simp [ticks]
      obtain ⟨b, stack, -, rfl⟩ := Handlers.step_ret hs
      rw [hticks, ← ih]
      cases b with
      | true => exact (hw' σ.core).2
      | false => rfl

theorem TickRun.systemTicks {hw : TimerHw cfg} (hw' : hw.Counts) {tr : TickTrace cfg}
    {σ : Handlers cfg} (h : TickRun hw tr σ) :
    σ.core.systemTicks = (SYSTIM.advance cfg.ticDeno)^[ticks tr] ⟨0, 0⟩ :=
  systemTicks_of_run hw' (fun σ ⟨s, hσ⟩ => by rw [hσ]; rfl) h

/-- **Every tick, nested or not, advances the time by one.** -/
theorem TickRun.value {hw : TimerHw cfg} (hw' : hw.Counts) {tr : TickTrace cfg}
    {σ : Handlers cfg} (h : TickRun hw tr σ) :
    σ.core.systemTicks.value cfg.ticDeno = ticks tr % (2 ^ 32 * SYSTIM.period cfg.ticDeno) := by
  have hp := SYSTIM.period_pos cfg.ticDeno
  have h0 : (⟨0, 0⟩ : SYSTIM).value cfg.ticDeno = 0 := by simp [SYSTIM.value]
  rw [h.systemTicks hw', SYSTIM.iterate_advance_value (by simpa using hp) (by rw [h0]; omega),
    h0, Nat.zero_add]

/-! ## The pair of the M16C port -/

/-- What a run keeps: the innermost handlers skipped, and the outermost one did not. -/
structure M16c62Inv (σ : Handlers cfg) : Prop where
  count : σ.core.timerNesting = σ.stack.count true
  stack : σ.stack = [] ∨ ∃ k, σ.stack = List.replicate k false ++ [true]

theorem M16c62Inv.idle {σ : Handlers cfg} (h : M16c62Inv σ) :
    σ.core.timerNesting = 0 ↔ σ.stack = [] := by
  rcases h.stack with hs | ⟨k, hs⟩
  · simp [h.count, hs]
  · simp [h.count, hs, List.count_replicate]

theorem M16c62Inv.step {σ σ' : Handlers cfg} {e : Interrupt} (h : M16c62Inv σ)
    (hs : σ.step m16c62Hw e = some σ') : M16c62Inv σ' := by
  cases e with
  | tick =>
    obtain rfl := Handlers.step_tick hs
    by_cases h0 : σ.core.timerNesting = 0
    · have hst := h.idle.1 h0
      refine ⟨?_, .inr ⟨0, ?_⟩⟩ <;> simp [m16c62Hw, M16c62.timerHwEnter, h0, hst]
    · have hst : σ.stack ≠ [] := fun hst => h0 (h.idle.2 hst)
      obtain ⟨k, hk⟩ := h.stack.resolve_left hst
      refine ⟨?_, .inr ⟨k + 1, ?_⟩⟩
      · simpa [m16c62Hw, M16c62.timerHwEnter, h0] using h.count
      · simp [m16c62Hw, M16c62.timerHwEnter, h0, hk, List.replicate_succ]
  | ret =>
    obtain ⟨b, stack, hst, rfl⟩ := Handlers.step_ret hs
    have hcount := h.count
    rw [hst] at hcount
    obtain ⟨k, hk⟩ := h.stack.resolve_left (by rw [hst]; exact List.cons_ne_nil _ _)
    rw [hst] at hk
    cases k with
    | zero =>
      obtain ⟨rfl, rfl⟩ := List.cons.inj hk
      refine ⟨?_, .inl rfl⟩
      simp [m16c62Hw, M16c62.timerHwExit, hcount]
    | succ k =>
      rw [List.replicate_succ, List.cons_append] at hk
      obtain ⟨rfl, rfl⟩ := List.cons.inj hk
      exact ⟨by simpa using hcount, .inr ⟨k, rfl⟩⟩

/-- **With the pair of the M16C port the counter is zero when no handler is active, after any
sequence of ticks.** -/
theorem m16c62_nesting {tr : TickTrace cfg} {σ : Handlers cfg} (h : TickRun m16c62Hw tr σ) :
    M16c62Inv σ := by
  refine h.invariant ?_ fun σ e σ' hσ hs => hσ.step hs
  rintro σ ⟨s, rfl⟩
  exact ⟨rfl, .inl rfl⟩

/-! ## The two pairs -/

/-- Where no handler has skipped its tick the pairs do the same. -/
theorem GenericInv.same_step {tr : TickTrace cfg} {σ σ' : Handlers cfg} {e : Interrupt}
    (h : GenericInv tr σ) (hn : Ittrium.nested (⟨σ, e, σ'⟩ :: tr) = 0)
    (hs : σ.step genericHw e = some σ') : σ.step m16c62Hw e = some σ' := by
  cases e with
  | tick =>
    have hst : σ.stack = [] := by
      by_contra hne
      simp [Ittrium.nested, hne] at hn
    have hskip : skipped tr = 0 := by
      refine h.nested.2 ?_
      simpa [Ittrium.nested, hst] using hn
    have h0 : σ.core.timerNesting = 0 := by simp [h.count, hst, hskip]
    obtain rfl := Handlers.step_tick hs
    show some _ = some _
    simp [m16c62Hw, genericHw, M16c62.timerHwEnter, timerHwEnter, h0]
  | ret =>
    obtain ⟨b, stack, hst, rfl⟩ := Handlers.step_ret hs
    have h0 := h.pos (by rw [hst]; exact List.cons_ne_nil _ _)
    cases b <;> simp [Handlers.step, hst, m16c62Hw, genericHw, M16c62.timerHwExit, timerHwExit, h0]

theorem TickRun.m16c62_of_nested {tr : TickTrace cfg} {σ : Handlers cfg}
    (h : TickRun genericHw tr σ) (hn : nested tr = 0) : TickRun m16c62Hw tr σ := by
  induction h with
  | start h => exact .start h
  | @step tr σ σ' e hr hs ih =>
    have hle : nested tr ≤ nested (⟨σ, e, σ'⟩ :: tr) := by simp [nested, List.countP_cons]
    exact .step (ih (by omega)) ((generic_nesting hr).same_step hn hs)

/-- **The generic pair gets back to zero, and so runs the timer queue again, if and only if no tick
of the run was nested; up to then it does the same as the pair of the M16C port. Every tick advances
the time.** -/
theorem tick_nesting {tr : TickTrace cfg} {σ : Handlers cfg} (h : TickRun genericHw tr σ) :
    (σ.stack = [] → (σ.core.timerNesting = 0 ↔ nested tr = 0)) ∧
      σ.core.systemTicks.value cfg.ticDeno = ticks tr % (2 ^ 32 * SYSTIM.period cfg.ticDeno) ∧
      (TickRun m16c62Hw tr σ ↔ nested tr = 0) := by
  have hinv := generic_nesting h
  refine ⟨fun hst => ?_, h.value genericHw_counts, fun h' => ?_, h.m16c62_of_nested⟩
  · rw [hinv.count, hst, ← hinv.nested]
    simp
  · -- the counter cannot hold both what one pair and what the other one keeps
    have hcount := hinv.count
    rw [(m16c62_nesting h').count] at hcount
    exact hinv.nested.1 (by omega)

/-- One tick whose handler has returned. -/
theorem tick_nesting_one : ∃ (tr : TickTrace smallConfig) (σ : Handlers smallConfig),
    TickRun genericHw tr σ ∧ ticks tr = 1 ∧ σ.core.timerNesting = 0 ∧
      σ.core.systemTicks.value 1000 = 1 := by
  have h : TickRun genericHw _ _ :=
    .step (l := .ret) (.step (l := .tick) (.start ⟨zeroed, rfl⟩) rfl) rfl
  exact ⟨_, _, h, rfl, ((tick_nesting h).1 rfl).2 rfl, (tick_nesting h).2.1⟩

/-- A second tick comes before the handler of the first one has returned. When both have, the
counter is one, and the next tick does not run the timer queue. -/
theorem nested_tick_skips : ∃ (tr : TickTrace smallConfig) (σ : Handlers smallConfig),
    TickRun genericHw tr σ ∧ tr.map Event.label = [.ret, .ret, .tick, .tick] ∧ σ.stack = [] ∧
      σ.core.timerNesting = 1 ∧ (σ.step genericHw .tick).map Handlers.stack = some [false] := by
  have h : TickRun genericHw _ _ :=
    .step (l := .ret) (.step (l := .ret) (.step (l := .tick) (.step (l := .tick)
      (.start ⟨zeroed, rfl⟩) rfl) rfl) rfl) rfl
  exact ⟨_, _, h, rfl, rfl, rfl, rfl⟩

/-! ## The handler -/

/-- The two variables of the tick. -/
def Core.tickVars (c : Core cfg) : SYSTIM × Int := (c.systemTicks, c.timerNesting)

theorem rdyqInsert_tickVars (t : TskIx cfg) (s : Kernel cfg) :
    (rdyqInsert t s).2.core.tickVars = s.core.tickVars := by
  unfold rdyqInsert
  dsimp only
  split <;> rfl

theorem taskMakeReady_tickVars (t : TskIx cfg) (s : Kernel cfg) :
    (taskMakeReady t s).core.tickVars = s.core.tickVars := by
  unfold taskMakeReady
  dsimp only
  split <;> exact rdyqInsert_tickVars _ _

theorem waitReleaseTmout_tickVars (t : TskIx cfg) (s : Kernel cfg) :
    (waitReleaseTmout t s).core.tickVars = s.core.tickVars := by
  unfold waitReleaseTmout taskLeaveWait
  dsimp only
  split
  · exact taskMakeReady_tickVars _ _
  · rfl

theorem runCallback_tickVars (e : TMEB cfg) (s : Kernel cfg) :
    Ensures (runCallback e s) fun s' => s'.core.tickVars = s.core.tickVars := by
  unfold runCallback
  split
  · exact .bind' fun t _ => .ok (waitReleaseTmout_tickVars t s)
  · exact .ok rfl

theorem timerLoop_tickVars (n : Nat) (event : Node cfg) (s : Kernel cfg) :
    Ensures (timerLoop n event s) fun s' => s'.core.tickVars = s.core.tickVars := by
  induction n generalizing event s with
  | zero => exact .error
  | succ n ih =>
    cases event with
    | timerQueue => exact .ok rfl
    | wtmeb t =>
      unfold timerLoop
      dsimp only
      refine .ite (fun _ => ?_) fun _ => ih _ _
      refine .bind' fun s' hs' => (ih _ _).mono fun s'' h => ?_
      rw [h, runCallback_tickVars _ _ _ hs']
      rfl
    | _ => exact .error

theorem timerHwExit_tickVars {c c' : Core cfg} (h : c.tickVars = c'.tickVars) :
    (timerHwExit c).tickVars = (timerHwExit c').tickVars := by
  obtain ⟨hticks, hnest⟩ := Prod.mk.inj h
  unfold timerHwExit
  by_cases h0 : c'.timerNesting ≠ 0
  · rw [if_pos h0, if_pos (hnest ▸ h0)]
    exact Prod.ext hticks (congrArg (· - 1) hnest)
  · rw [if_neg h0, if_neg (hnest ▸ h0)]
    exact h

/-- The walk over the timer queue and the exit after it. -/
theorem walk_tickVars {c : Core cfg} {s : Kernel cfg} (h : s.core.tickVars = c.tickVars) (n : Nat)
    (event : Node cfg) :
    Ensures (timerLoop n event s >>= fun s => .ok (s.setCore timerHwExit)) fun s' =>
      s'.core.tickVars = (timerHwExit c).tickVars := by
  refine .bind' fun s' hs' => .ok ?_
  exact timerHwExit_tickVars ((timerLoop_tickVars _ _ _ _ hs').trans h)

theorem timerHandler_nested {s : Kernel cfg} (h0 : s.core.timerNesting ≠ 0) :
    timerHandler s = .ok { s with core := (timerHwEnter s.core).2 } := by
  unfold timerHandler
  exact if_pos h0

/-- A tick while nothing runs. -/
theorem timerHandler_idle {s : Kernel cfg} (h0 : s.core.timerNesting = 0) (hr : s.runtsk = .null) :
    timerHandler s = (timerLoop (cfg.tnumTskid + 1) (s.links.next .timerQueue)
        (s.setCore fun c =>
          { (timerHwEnter c).2 with
            telemetryWallTicks := c.telemetryWallTicks + 1
            telemetryIdleTicks := c.telemetryIdleTicks + 1 }) >>=
      fun s => .ok (s.setCore timerHwExit)) := by
  obtain ⟨core, links, rdyq, runtsk, schedtsk⟩ := s
  obtain rfl : runtsk = .null := hr
  exact if_neg (Classical.not_not.mpr h0)

theorem timerHandler_tickVars {s : Kernel cfg} (h0 : s.core.timerNesting = 0) :
    Ensures (timerHandler s) fun s' =>
      s'.core.tickVars = (timerHwExit (timerHwEnter s.core).2).tickVars := by
  unfold timerHandler
  refine .ite (fun h => absurd h0 h) fun _ => ?_
  refine .ite (fun _ => ?_) fun _ => ?_
  · refine .bind' fun t _ => .bind' fun s₁ hs₁ => ?_
    obtain rfl := Except.ok.inj hs₁
    exact walk_tickVars (c := (timerHwEnter s.core).2) rfl _ _
  · refine .bind' fun s₁ hs₁ => ?_
    obtain rfl := Except.ok.inj hs₁
    exact walk_tickVars (c := (timerHwEnter s.core).2) rfl _ _

/-- **To the two variables `timer_handler` is a tick and a return.** -/
theorem timerHandler_ticks {s s' : Kernel cfg} (h : timerHandler s = .ok s') :
    ∃ σ₁ σ₂ : Handlers cfg, Handlers.step genericHw ⟨s.core, []⟩ .tick = some σ₁ ∧
      σ₁.step genericHw .ret = some σ₂ ∧ s'.core.tickVars = σ₂.core.tickVars := by
  by_cases h0 : s.core.timerNesting = 0
  · refine ⟨⟨(timerHwEnter s.core).2, [true]⟩, ⟨timerHwExit (timerHwEnter s.core).2, []⟩, ?_, rfl,
      timerHandler_tickVars h0 _ h⟩
    simp [Handlers.step, genericHw, timerHwEnter, h0]
  · refine ⟨⟨(timerHwEnter s.core).2, [false]⟩, ⟨(timerHwEnter s.core).2, []⟩, ?_, rfl, ?_⟩
    · simp [Handlers.step, genericHw, timerHwEnter, h0]
    · rw [timerHandler_nested h0] at h
      obtain rfl := Except.ok.inj h
      rfl

end Ittrium
