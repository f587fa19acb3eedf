import Ittrium.Properties.CpuLoad

/-!
# Percentages

`task_cpu_pct` and `idle_cpu_pct` load `telemetry_wall_ticks` first and the counter they divide
later. Ticks, other tasks and other calls of the two may come in between.

* `Gauge` — the kernel, and the calls that have loaded the wall clock
* `Fits` — no tick wraps the wall clock, or brings a counter beyond a wall clock that is loaded
* `cpu_load` — **the percentages are percentages then**
* `percentages_overrun` — what becomes of them otherwise
-/

namespace Ittrium

open Infra

variable {cfg : Config} {s s' : Kernel cfg}

/-! ## One percentage -/

section

variable {ticks wall : UW}

/-- The largest counter that gives no more than 100: half a percent is rounded off. -/
def percentBound (wall : UW) : Nat := wall.toNat + (wall.toNat - 1) / 200

theorem tickPct_le_iff (hw : wall ≠ 0) (h : ticks.toNat ≤ 2 * wall.toNat) :
    Vfs.tickPct ticks wall ≤ 100 ↔ ticks.toNat ≤ percentBound wall := by
  have hpos : 0 < wall.toNat := Nat.pos_of_ne_zero fun h0 => hw (BitVec.eq_of_toNat_eq h0)
  have hlt : (ticks.toNat * 100 + wall.toNat / 2) / wall.toNat < 2 ^ 32 := by
    rw [Nat.div_lt_iff_lt_mul hpos]
    omega
  rw [Vfs.tickPct, if_neg hw, Nat.mod_eq_of_lt hlt, ← Nat.lt_succ_iff, Nat.div_lt_iff_lt_mul hpos,
    percentBound]
  omega

theorem tickPct_le (h : wall ≠ 0 → ticks.toNat ≤ percentBound wall) :
    Vfs.tickPct ticks wall ≤ 100 := by
  by_cases hw : wall = 0
  · rw [Vfs.tickPct, if_pos hw]
    exact Nat.zero_le _
  · have hb := h hw
    refine (tickPct_le_iff hw ?_).mpr hb
    unfold percentBound at hb
    omega

/-- The tick that brings a counter beyond the bound. -/
theorem tickPct_beyond (hw : wall ≠ 0) (h : ticks.toNat ≤ percentBound wall)
    (h' : percentBound wall < (ticks + 1).toNat) : 100 < Vfs.tickPct (ticks + 1) wall := by
  have hpos : wall.toNat ≠ 0 := fun h0 => hw (BitVec.eq_of_toNat_eq h0)
  have hle : (ticks + 1).toNat ≤ ticks.toNat + 1 := by
    rw [BitVec.toNat_add]
    exact Nat.mod_le _ _
  by_contra hno
  refine Nat.not_le_of_gt h' ((tickPct_le_iff hw ?_).mp (Nat.le_of_not_lt hno))
  unfold percentBound at h
  omega

end

/-! ## Calls that go on -/

/-- The kernel, and the calls of `task_cpu_pct` and `idle_cpu_pct` (`none`) that have loaded the wall
clock, with what they have loaded. -/
structure Gauge (cfg : Config) where
  kernel : Kernel cfg
  pending : List (Option (TskIx cfg) × UW)

inductive GaugeAct (cfg : Config) where
  | call (c : Call cfg)
  | loadWall (x : Option (TskIx cfg))
  | loadTicks (p : Option (TskIx cfg) × UW)

/-- What the second load returns, for a task that is looked at or for the idle time. -/
def pctOf (wall : UW) (c : Core cfg) : Option (TskIx cfg) → Nat
  | some t => Vfs.taskCpuPct wall (c.tcb t)
  | none => Vfs.idleCpuPct wall c

/-- One step: a call of the kernel, `UW wall = telemetry_wall_ticks`, or the rest of a call, which
returns a percentage. -/
def gaugeAct (g : Gauge cfg) : GaugeAct cfg → Option (Gauge cfg × Option Nat)
  | .call c =>
    match exec c g.kernel with
    | .ok (s, _) => some ({ g with kernel := s }, none)
    | .error _ => none
  | .loadWall x =>
    some ({ g with pending := (x, g.kernel.core.telemetryWallTicks) :: g.pending }, none)
  | .loadTicks p =>
    if p ∈ g.pending then
      some ({ g with pending := g.pending.erase p }, some (pctOf p.2 g.kernel.core p.1))
    else none

/-- A tick in which a counter moves leaves it within what the calls have loaded that are to divide
it. -/
def PendingFit (g : Gauge cfg) : Prop :=
  ∀ p ∈ g.pending, p.1 = ticking g.kernel → p.2 ≠ 0 →
    (tickCounter g.kernel + 1).toNat ≤ percentBound p.2

/-- The condition on a step. A nested tick counts nothing. -/
def Fits (g : Gauge cfg) : GaugeAct cfg → Prop
  | .call c => WallFits g.kernel c ∧
      (c = .timerHandler → g.kernel.core.timerNesting = 0 → PendingFit g)
  | _ => True

instance (g : Gauge cfg) : Decidable (PendingFit g) :=
  List.decidableBAll _ _

instance (g : Gauge cfg) (a : GaugeAct cfg) : Decidable (Fits g a) :=
  GaugeAct.casesOn (motive := fun a => Decidable (Fits g a)) a
    (fun c => inferInstanceAs (Decidable (WallFits g.kernel c ∧ (_ → _ → PendingFit g))))
    (fun _ => inferInstanceAs (Decidable True))
    (fun _ => inferInstanceAs (Decidable True))

abbrev GaugeEvent (cfg : Config) := Event (Gauge cfg) (GaugeAct cfg × Option Nat)

/-- The program has just been loaded. -/
def GaugeStart (g : Gauge cfg) : Prop := Loaded g.kernel ∧ g.pending = []

/-- The runs whose steps all meet `C`. -/
abbrev GaugeRun (C : Gauge cfg → GaugeAct cfg → Prop) :
    List (GaugeEvent cfg) → Gauge cfg → Prop :=
  Run GaugeStart fun g l g' => C g l.1 ∧ gaugeAct g l.1 = some (g', l.2)

/-! ## Runs -/

variable {g g' : Gauge cfg} {r : Option Nat}

/-- The counters are within the wall clock, and within what the calls have loaded from it. -/
structure Gauge.Bounded (g : Gauge cfg) : Prop where
  now : Ittrium.Bounded g.kernel.core
  loaded : ∀ p ∈ g.pending, p.2 ≠ 0 → (g.kernel.core.ticks p.1).toNat ≤ percentBound p.2

theorem pctOf_eq (wall : UW) (c : Core cfg) (x : Option (TskIx cfg)) :
    pctOf wall c x = Vfs.tickPct (c.ticks x) wall := by
  cases x <;> rfl

/-- A tick brings no counter beyond what is loaded. -/
theorem Gauge.Bounded.tick (h : g.Bounded)
    (hf : g.kernel.core.timerNesting = 0 → PendingFit g) :
    Ensures (timerHandler g.kernel) fun s' => ∀ p ∈ g.pending, p.2 ≠ 0 →
      (s'.core.ticks p.1).toNat ≤ percentBound p.2 := by
  by_cases h0 : g.kernel.core.timerNesting = 0
  · refine (timerHandler_counts h0).mono fun s' hs' p hp hw => ?_
    obtain ⟨c, hticked, htallies⟩ := hs'
    refine (htallies.ticks_le p.1).trans ?_
    rw [hticked.each]
    split
    · next hx => exact hf h0 p hp hx hw
    · exact h.loaded p hp hw
  · rw [timerHandler_nested h0]
    exact .ok h.loaded

theorem Gauge.Bounded.call {c : Call cfg} {r : Ret cfg} (h : g.Bounded) (hf : Fits g (.call c))
    (he : exec c g.kernel = .ok (s', r)) : Gauge.Bounded ⟨s', g.pending⟩ where
  now := h.now.step hf.1 he
  loaded := by
    by_cases htick : c = .timerHandler
    · subst htick
      have hstep : Ensures (exec .timerHandler g.kernel) fun v => ∀ p ∈ g.pending, p.2 ≠ 0 →
          (v.1.core.ticks p.1).toNat ≤ percentBound p.2 :=
        .bind' fun s₁ hs₁ => .ok (h.tick (hf.2 rfl) s₁ hs₁)
      exact hstep _ he
    · intro p hp hw
      exact ((exec_holds g.kernel htick _ he).ticks_le p.1).trans (h.loaded p hp hw)

/-- **A step that meets the condition keeps the bounds, and returns a percentage if it returns
anything.** -/
theorem Gauge.Bounded.step {a : GaugeAct cfg} (h : g.Bounded) (hf : Fits g a)
    (ha : gaugeAct g a = some (g', r)) : g'.Bounded ∧ ∀ n ∈ r, n ≤ 100 := by
  cases a with
  | call c =>
    unfold gaugeAct at ha
    dsimp only at ha
    split at ha
    · next s' r' he =>
      cases ha
      refine ⟨h.call hf he, fun n hn => ?_⟩
      cases hn
    · cases ha
  | loadWall x =>
    cases ha
    refine ⟨⟨h.now, fun p hp hw => ?_⟩, fun n hn => ?_⟩
    · rcases List.mem_cons.mp hp with rfl | hp
      · have hle := (ticks_le_counted g.kernel.core x).trans h.now
        exact hle.trans (Nat.le_add_right _ _)
      · exact h.loaded p hp hw
    · cases hn
  | loadTicks p =>
    unfold gaugeAct at ha
    dsimp only at ha
    split at ha
    · next hp =>
      cases ha
      refine ⟨⟨h.now, fun q hq hw => h.loaded q (List.mem_of_mem_erase hq) hw⟩, fun n hn => ?_⟩
      cases hn
      rw [pctOf_eq]
      exact tickPct_le (h.loaded p hp)
    · cases ha

theorem GaugeStart.bounded (h : GaugeStart g) : g.Bounded where
  now := h.1.bounded
  loaded := by
    rw [h.2]
    intro p hp
    cases hp

/-- No percentage that was returned is above 100, and the counters add up to no more than the wall
clock. -/
structure CpuLoad (tr : List (GaugeEvent cfg)) (g : Gauge cfg) : Prop where
  percent : ∀ ev ∈ tr, ∀ n ∈ ev.label.2, n ≤ 100
  sum : (∑ t, (g.kernel.core.tcb t).runTicks.toNat) + g.kernel.core.telemetryIdleTicks.toNat ≤
    g.kernel.core.telemetryWallTicks.toNat

/-- **The percentages are percentages as long as no tick wraps the wall clock before the other
counters, or brings a counter beyond what a call has loaded that is to divide it.** -/
theorem cpu_load {tr : List (GaugeEvent cfg)} (h : GaugeRun Fits tr g) : CpuLoad tr g := by
  have hrun : g.Bounded ∧ ∀ ev ∈ tr, ∀ n ∈ ev.label.2, n ≤ 100 := by
    induction h with
    | start hs =>
      refine ⟨hs.bounded, fun ev hev => ?_⟩
      cases hev
    | step _ hs ih =>
      obtain ⟨hb, hpct⟩ := ih.1.step hs.1 hs.2
      refine ⟨hb, fun ev hev => ?_⟩
      rcases List.mem_cons.mp hev with rfl | hev
      · exact hpct
      · exact ih.2 ev hev
  exact ⟨hrun.2, hrun.1.now⟩

/-- The percentages returned in a run, the latest one first. -/
def percentages (tr : List (GaugeEvent cfg)) : List Nat := tr.filterMap fun ev => ev.label.2

/-- The calls of the kernel alone. -/
def plain (cs : List (Call cfg)) : List (GaugeAct cfg) := cs.map .call

/-- Three ticks, the first one while nothing runs, the last one between the two loads of a call. -/
theorem cpu_load_three : ∃ (tr : List (GaugeEvent smallConfig)) (g : Gauge smallConfig),
    GaugeRun Fits tr g ∧ g.kernel.core.telemetryWallTicks = 3 ∧
      percentages tr = [33, 100] ∧ CpuLoad tr g := by
  have hstart : GaugeStart ⟨boot zeroed, []⟩ := ⟨⟨zeroed, rfl, rfl, rfl⟩, rfl⟩
  obtain ⟨tr, g, hrun, hwall, hpct⟩ := exists_perform (f := gaugeAct) (C := Fits) hstart
    (plain (.timerHandler :: startTasks [1] ++ [.timerHandler]) ++
      [.loadWall (some 0), .call .timerHandler, .loadTicks (some 0, 2), .loadWall none,
        .loadTicks (none, 3)])
    (fun tr g => g.kernel.core.telemetryWallTicks = 3 ∧
      percentages tr = [33, 100]) (by decide +kernel)
  exact ⟨tr, g, hrun, hwall, hpct, cpu_load hrun⟩

/-! ## When they are none -/

/-- Nothing runs and no timer is set. -/
structure AllIdle (s : Kernel cfg) : Prop where
  runtsk : s.runtsk = .null
  nesting : s.core.timerNesting = 0
  queue : s.links.next .timerQueue = .timerQueue

/-- The tick counts as idle, and nothing else happens. -/
theorem AllIdle.tick (h : AllIdle s) : ∃ s', exec .timerHandler s = .ok (s', .none) ∧ AllIdle s' ∧
    s'.core.tcb = s.core.tcb ∧ s'.core.telemetryWallTicks = s.core.telemetryWallTicks + 1 ∧
      s'.core.telemetryIdleTicks = s.core.telemetryIdleTicks + 1 := by
  obtain ⟨core, links, rdyq, runtsk, schedtsk⟩ := s
  have h0 : core.timerNesting = 0 := h.nesting
  let c : Core cfg := { (timerHwEnter core).2 with
    telemetryWallTicks := core.telemetryWallTicks + 1
    telemetryIdleTicks := core.telemetryIdleTicks + 1 }
  have hexit : timerHwExit c = { c with timerNesting := 0 } := by
    simp [timerHwExit, timerHwEnter, c, h0]
  refine ⟨⟨timerHwExit c, links, rdyq, runtsk, schedtsk⟩, ?_, ⟨h.runtsk, ?_, h.queue⟩, ?_⟩
  · show (timerHandler _ >>= fun s => .ok (s, Ret.none)) = _
    rw [timerHandler_idle h.nesting h.runtsk, h.queue]
    rfl
  · rw [hexit]
  · rw [hexit]
    exact ⟨rfl, rfl, rfl⟩

/-- The ticks that come now. -/
theorem AllIdle.ticks (h : AllIdle s) : ∀ n : Nat, ∃ tr s',
    Run (· = s) (StepOf SoundCall) tr s' ∧ AllIdle s' ∧ s'.core.tcb = s.core.tcb ∧
      s'.core.telemetryWallTicks = s.core.telemetryWallTicks + BitVec.ofNat 32 n ∧
      s'.core.telemetryIdleTicks = s.core.telemetryIdleTicks + BitVec.ofNat 32 n
  | 0 => ⟨[], s, .start rfl, h, rfl, by simp, by simp⟩
  | n + 1 => by
    obtain ⟨tr, s', hrun, h', htcb, hwall, hidle⟩ := h.ticks n
    obtain ⟨s₁, he, h₁, htcb₁, hwall₁, hidle₁⟩ := h'.tick
    have hstep : StepOf SoundCall s' (.timerHandler, .none) s₁ := ⟨trivial, he⟩
    refine ⟨_, s₁, hrun.step hstep, h₁, htcb₁.trans htcb, ?_, ?_⟩
    · rw [hwall₁, hwall, BitVec.add_assoc, BitVec.ofNat_add]
      rfl
    · rw [hidle₁, hidle, BitVec.add_assoc, BitVec.ofNat_add]
      rfl

/-- Calls of the kernel return no percentage. -/
theorem gauge_calls {C : Kernel cfg → Call cfg → Prop} {tr : Trace cfg}
    {tr₀ : List (GaugeEvent cfg)} {l : List (Option (TskIx cfg) × UW)}
    (h₀ : GaugeRun (fun _ _ => True) tr₀ ⟨s, l⟩) (h : Run (· = s) (StepOf C) tr s') :
    ∃ tr', GaugeRun (fun _ _ => True) tr' ⟨s', l⟩ ∧ percentages tr' = percentages tr₀ := by
  induction h with
  | start hs =>
    subst hs
    exact ⟨tr₀, h₀, rfl⟩
  | @step _ s₁ s₂ c _ hs ih =>
    obtain ⟨tr', hrun, hret⟩ := ih
    have hact : gaugeAct ⟨s₁, l⟩ (.call c.1) = some (⟨s₂, l⟩, none) := by
      rw [gaugeAct]
      simp only [hs.2]
    exact ⟨_, hrun.step (l := (.call c.1, none)) ⟨trivial, hact⟩, hret⟩

/-- A call that is not interrupted. -/
theorem gauge_call {tr : List (GaugeEvent cfg)} (h : GaugeRun (fun _ _ => True) tr g)
    (x : Option (TskIx cfg)) : ∃ tr', GaugeRun (fun _ _ => True) tr' g ∧
      percentages tr' = pctOf g.kernel.core.telemetryWallTicks g.kernel.core x :: percentages tr := by
  have hact : gaugeAct { g with pending := (x, g.kernel.core.telemetryWallTicks) :: g.pending }
      (.loadTicks (x, g.kernel.core.telemetryWallTicks)) =
        some (g, some (pctOf g.kernel.core.telemetryWallTicks g.kernel.core x)) := by
    unfold gaugeAct
    dsimp only
    rw [if_pos (List.mem_cons_self ..), List.erase_cons_head]
  exact ⟨_, (h.step (l := (.loadWall x, none)) ⟨trivial, rfl⟩).step
    (l := (.loadTicks _, some _)) ⟨trivial, hact⟩, rfl⟩

/-- A task runs for two ticks and ends, and nothing runs for `2^32 - 1` more. The wall clock is at
one then, and the idle percentage is `2^32 - 100`. -/
theorem wall_clock_wraps : ∃ (tr : List (GaugeEvent smallConfig)) (g : Gauge smallConfig),
    GaugeRun (fun _ _ => True) tr g ∧ g.kernel.core.telemetryWallTicks = 1 ∧
      g.kernel.core.telemetryIdleTicks = 0xffffffff ∧ (g.kernel.core.tcb 0).runTicks = 2 ∧
      percentages tr = [200, 2 ^ 32 - 100] := by
  have hstart : GaugeStart ⟨boot zeroed, []⟩ := ⟨⟨zeroed, rfl, rfl, rfl⟩, rfl⟩
  obtain ⟨tr₀, ⟨s₀, l₀⟩, hrun₀, hidling, hl₀, hret₀, hwall₀, hidle₀, hticks₀⟩ :=
    exists_perform (f := gaugeAct) (C := fun _ _ => True) hstart
      (plain (startTasks [1] ++ [.timerHandler, .timerHandler, .extTsk]))
      (fun tr g => (g.kernel.runtsk = .null ∧ g.kernel.core.timerNesting = 0 ∧
        g.kernel.links.next .timerQueue = .timerQueue) ∧ g.pending = [] ∧ percentages tr = [] ∧
          g.kernel.core.telemetryWallTicks = 2 ∧ g.kernel.core.telemetryIdleTicks = 0 ∧
          (g.kernel.core.tcb 0).runTicks = 2) (by decide +kernel)
  obtain ⟨tr, s, hrun, -, htcb, hwall, hidle⟩ :=
    AllIdle.ticks (s := s₀) ⟨hidling.1, hidling.2.1, hidling.2.2⟩ (2 ^ 32 - 1)
  dsimp only at hl₀ hwall₀ hidle₀ hticks₀
  subst hl₀
  rw [hwall₀] at hwall
  rw [hidle₀] at hidle
  rw [← htcb] at hticks₀
  obtain ⟨tr₁, hrun₁, hret₁⟩ := gauge_calls hrun₀ hrun
  obtain ⟨tr₂, hrun₂, hret₂⟩ := gauge_call hrun₁ none
  obtain ⟨tr₃, hrun₃, hret₃⟩ := gauge_call hrun₂ (some 0)
  refine ⟨tr₃, _, hrun₃, hwall, hidle, hticks₀, ?_⟩
  rw [hret₃, hret₂, hret₁, hret₀]
  simp only [pctOf, Vfs.taskCpuPct, Vfs.idleCpuPct, hwall, hidle, hticks₀]
  decide

/-- A task that runs asks for its own percentage after the first tick of all, and the second one
comes when the wall clock is loaded. -/
theorem loads_torn : ∃ (tr : List (GaugeEvent smallConfig)) (g : Gauge smallConfig),
    GaugeRun (fun _ _ => True) tr g ∧ g.kernel.core.telemetryWallTicks = 2 ∧
      percentages tr = [200] := by
  have hstart : GaugeStart ⟨boot zeroed, []⟩ := ⟨⟨zeroed, rfl, rfl, rfl⟩, rfl⟩
  exact exists_perform (f := gaugeAct) (C := fun _ _ => True) hstart
    (plain (startTasks [1] ++ [.timerHandler]) ++
      [.loadWall (some 0), .call .timerHandler, .loadTicks (some 0, 1)])
    (fun tr g => g.kernel.core.telemetryWallTicks = 2 ∧ percentages tr = [200]) (by decide +kernel)

/-- When the wall clock has wrapped, and when a tick comes between the two loads of a call. -/
theorem percentages_overrun :
    (∃ (tr : List (GaugeEvent smallConfig)) (g : Gauge smallConfig),
      GaugeRun (fun _ _ => True) tr g ∧ g.kernel.core.telemetryWallTicks = 1 ∧
        ¬ CpuLoad tr g) ∧
    ∃ (tr : List (GaugeEvent smallConfig)) (g : Gauge smallConfig),
      GaugeRun (fun _ _ => True) tr g ∧ g.kernel.core.telemetryWallTicks = 2 ∧
        ¬ CpuLoad tr g := by
  have hover : ∀ {tr : List (GaugeEvent smallConfig)} {g : Gauge smallConfig} {l : List Nat},
      percentages tr = 200 :: l → ¬ CpuLoad tr g := by
    intro tr g l hret h
    obtain ⟨ev, hev, hn⟩ := List.mem_filterMap.mp (hret ▸ List.mem_cons_self .. : 200 ∈ percentages tr)
    have hle := h.percent ev hev 200 hn
    omega
  obtain ⟨tr₁, g₁, hrun₁, hwall₁, -, -, hret₁⟩ := wall_clock_wraps
  obtain ⟨tr₂, g₂, hrun₂, hwall₂, hret₂⟩ := loads_torn
  exact ⟨⟨tr₁, g₁, hrun₁, hwall₁, hover hret₁⟩, tr₂, g₂, hrun₂, hwall₂, hover hret₂⟩

end Ittrium
