import Ittrium.Shell.Tokens
import Mathlib.Data.List.DropRight

/-!
# Chains of commands

The loop of `shell_exec_line` keeps a status and whether the next segment is run. Against it stands
the evaluation of a chain from the left.

* `cutComment`, `cutChain` — a line cut outside quotes
* `Command.eval` — what `;`, `&&` and `||` mean
* `exec_line_eval` — **a line does what its chain means**
-/

namespace Ittrium.Shell

variable {σ : Type} {run : RunArgv σ} {q : Option Ch} {seg s : Str} {ch : Chain σ}

/-! ## Cutting -/

/-- What stands before the first `#` outside quotes. -/
def cutComment : Option Ch → Str → Str
  | _, [] => []
  | q, c :: s => if q = none ∧ c = hash then [] else c :: cutComment (quoteStep q c) s

/-- The first segment, and each further one behind its separator. -/
def cutChain : Option Ch → Str → Str × List (ChainOp × Str)
  | _, [] => ([], [])
  | some q, c :: s =>
    let r := cutChain (quoteStep (some q) c) s
    (c :: r.1, r.2)
  | none, [c] => if c = semi then ([], [(.semi, [])]) else ([c], [])
  | none, c :: d :: s =>
    if c = semi then ([], (.semi, (cutChain none (d :: s)).1) :: (cutChain none (d :: s)).2)
    else if c = amp ∧ d = amp then ([], (.and, (cutChain none s).1) :: (cutChain none s).2)
    else if c = bar ∧ d = bar then ([], (.or, (cutChain none s).1) :: (cutChain none s).2)
    else
      let r := cutChain (quoteStep none c) (d :: s)
      (c :: r.1, r.2)

/-! ## Meaning -/

/-- A chain of segments. It associates to the left. -/
inductive Command where
  | segment (seg : Str)
  | chain (c : Command) (op : ChainOp) (seg : Str)

/-- The command of segments that are cut. -/
def Command.ofCut (r : Str × List (ChainOp × Str)) : Command :=
  r.2.foldl (fun c x => .chain c x.1 x.2) (.segment r.1)

/-- The segments executed, the latest last, and what they have done. -/
structure Executed (σ : Type) where
  segments : List Str
  done : Done σ

/-- A segment is executed. A blank one is skipped. -/
def Executed.segment (run : RunArgv σ) (seg : Str) (e : Executed σ) : Executed σ :=
  if seg.all isBlank then e else ⟨e.segments ++ [seg], runSegment run seg e.done⟩

/-- What a command does. -/
def Command.eval (run : RunArgv σ) : Command → Executed σ → Executed σ
  | .segment seg, e => e.segment run seg
  | .chain c .semi seg, e => (c.eval run e).segment run seg
  | .chain c .and seg, e =>
    let e := c.eval run e
    if e.done.status = 0 then e.segment run seg else e
  | .chain c .or seg, e =>
    let e := c.eval run e
    if e.done.status ≠ 0 then e.segment run seg else e

/-- The command of a line. -/
def lineCommand (line : Str) : Command := .ofCut (cutChain none (cutComment none line))

/-! ## The scanners cut a line like that -/

theorem stripComment_eq : ∀ (q : Option Ch) (s : Str), stripComment q s = cutComment q s
  | q, [] => by cases q <;> rfl
  | some q, c :: s => by
    have hn : ¬ (some q = none ∧ c = hash) := by simp
    rw [stripComment, cutComment, if_neg hn, ← stripComment_eq (quoteStep (some q) c) s]
    rfl
  | none, c :: s => by
    rw [stripComment, cutComment, stripComment_eq (some c) s, stripComment_eq none s]
    by_cases hq : isQuote c = true
    · have hc : c ≠ hash := by
        rintro rfl
        exact absurd hq (by decide)
      rw [if_pos hq, if_neg (by simp [hc]), quoteStep, if_pos hq]
    · simp [hq, quoteStep]

/-- The segments that are still to come, from the first on. -/
def runChain (run : RunArgv σ) : Chain σ → Str → List (ChainOp × Str) → Done σ
  | ch, seg, [] => ch.segment run seg
  | ch, seg, (op, next) :: rest => runChain run (ch.next run op seg) next rest

theorem semi_not_quote : isQuote semi = false := by decide
/-- **The loop cuts what is left and runs it.** -/
theorem execLoop_eq : ∀ (q : Option Ch) (seg : Str) (ch : Chain σ) (s : Str),
    execLoop run q seg ch s = runChain run ch (seg ++ (cutChain q s).1) (cutChain q s).2
  | q, seg, ch, [] => by cases q <;> simp [execLoop, cutChain, runChain]
  | some q, seg, ch, c :: s => by
    have ih := execLoop_eq (quoteStep (some q) c) (seg ++ [c]) ch s
    rw [List.append_assoc, List.singleton_append] at ih
    rw [execLoop, cutChain]
    exact ih
  | none, seg, ch, [c] => by
    by_cases hs : c = semi
    · subst hs
      simp [execLoop, cutChain, runChain, semi_not_quote]
    · by_cases hq : isQuote c = true <;> simp [execLoop, cutChain, runChain, hq, hs]
  | none, seg, ch, c :: d :: s => by
    rw [execLoop, cutChain]
    by_cases hs : c = semi
    · subst hs
      have ih := execLoop_eq none [] (ch.next run .semi seg) (d :: s)
      rw [if_neg (by decide), if_pos rfl, if_pos rfl, ih]
      simp [runChain]
    · by_cases ha : c = amp ∧ d = amp
      · obtain ⟨rfl, rfl⟩ := ha
        have ih := execLoop_eq none [] (ch.next run .and seg) s
        rw [if_neg (by decide), if_neg hs, if_neg hs, if_pos ⟨rfl, rfl⟩]
        dsimp only
        rw [if_pos ⟨rfl, rfl⟩, ih]
        simp [runChain]
      · by_cases hb : c = bar ∧ d = bar
        · obtain ⟨rfl, rfl⟩ := hb
          have ih := execLoop_eq none [] (ch.next run .or seg) s
          rw [if_neg (by decide), if_neg hs, if_neg hs, if_neg ha, if_pos ⟨rfl, rfl⟩]
          dsimp only
          rw [if_neg ha, if_pos ⟨rfl, rfl⟩, ih]
          simp [runChain]
        · -- no separator: the character belongs to the segment
          have ih := execLoop_eq (quoteStep none c) (seg ++ [c]) ch (d :: s)
          rw [List.append_assoc, List.singleton_append] at ih
          rw [if_neg hs, if_neg hs, if_neg ha, if_neg hb]
          dsimp only
          rw [if_neg ha, if_neg hb, ← ih]
          by_cases hq : isQuote c = true <;> simp [quoteStep, hq]

/-! ## The loop evaluates from the left -/

theorem dropWhile_blank_eq_nil : s.dropWhile isBlank = [] ↔ s.all isBlank = true := by
  rw [List.dropWhile_eq_nil_iff, List.all_eq_true]

theorem runSegment_dropWhile (seg : Str) (d : Done σ) :
    runSegment run (seg.dropWhile isBlank) d = runSegment run seg d := by
  unfold runSegment
  rw [List.dropWhile_idempotent]

/-- A segment that is run is executed. -/
theorem segment_eq {e : Executed σ} (hch : ch.done = e.done) :
    ch.segment run seg = (if ch.runNext = true then e.segment run seg else e).done := by
  unfold Chain.segment Executed.segment
  dsimp only
  by_cases hr : ch.runNext = true
  · rw [if_pos hr]
    by_cases hb : seg.all isBlank = true
    · rw [if_pos hb, if_neg fun h => h.2 (dropWhile_blank_eq_nil.mpr hb), hch]
    · rw [if_neg hb, if_pos ⟨hr, fun h => hb (dropWhile_blank_eq_nil.mp h)⟩, runSegment_dropWhile,
        hch]
  · rw [if_neg hr, if_neg fun h => hr h.1, hch]

/-- **What the flag and the status say is what the chain so far means.** -/
theorem runChain_eval {e : Executed σ} : ∀ (rest : List (ChainOp × Str)) (c : Command)
    (ch : Chain σ) (seg : Str), ch.segment run seg = (c.eval run e).done →
    runChain run ch seg rest =
      ((rest.foldl (fun c x => .chain c x.1 x.2) c).eval run e).done
  | [], _, _, _, h => h
  | (op, next) :: rest, c, ch, seg, h => by
    refine runChain_eval rest (.chain c op next) (ch.next run op seg) next ?_
    have hdone : (ch.next run op seg).done = (c.eval run e).done := h
    rw [segment_eq hdone]
    cases op <;> simp [Chain.next, Command.eval, h]

/-- What the executed segments have done. -/
theorem eval_done (c : Command) (e : Executed σ) (d : Done σ)
    (h : e.done = e.segments.foldl (fun d seg => runSegment run seg d) d) :
    (c.eval run e).done = (c.eval run e).segments.foldl (fun d seg => runSegment run seg d) d := by
  have hseg : ∀ {seg : Str} {e : Executed σ},
      e.done = e.segments.foldl (fun d seg => runSegment run seg d) d →
      (e.segment run seg).done =
        (e.segment run seg).segments.foldl (fun d seg => runSegment run seg d) d := by
    intro seg e h
    unfold Executed.segment
    split
    · exact h
    · rw [List.foldl_append, ← h]
      rfl
  induction c with
  | segment seg => exact hseg h
  | chain c op seg ih =>
    cases op with
    | semi => exact hseg ih
    | and =>
      rw [Command.eval]
      split
      · exact hseg ih
      · exact ih
    | or =>
      rw [Command.eval]
      split
      · exact hseg ih
      · exact ih

/-- **A line does what its chain means:** the same segments are executed in the same order, with
the same status at the end. -/
theorem exec_line_eval (run : RunArgv σ) (line : Str) (st : State σ)
    (h : line.length < shellLineMax) :
    let e := (lineCommand line).eval run ⟨[], ⟨st, [], 0⟩⟩
    shellExecLine run line st = e.done ∧
      e.done = e.segments.foldl (fun d seg => runSegment run seg d) ⟨st, [], 0⟩ := by
  refine ⟨?_, eval_done _ _ _ rfl⟩
  unfold shellExecLine
  rw [List.take_of_length_le (by omega), stripComment_eq, execLoop_eq, List.nil_append]
  exact runChain_eval _ _ _ _ (segment_eq rfl)

/-- All commands fail. -/
def sampleRun : RunArgv Nat := fun argv st => ({ st with data := st.data + argv.length }, 1)

/-- `a||b;c#d`. -/
theorem exec_line_eval_one :
    let line : Str := [0x61, bar, bar, 0x62, semi, 0x63, hash, 0x64]
    let e := (lineCommand line).eval sampleRun ⟨[], ⟨⟨fun _ => none, 0⟩, [], 0⟩⟩
    (shellExecLine sampleRun line ⟨fun _ => none, 0⟩ = e.done ∧
      e.done = e.segments.foldl (fun d seg => runSegment sampleRun seg d)
        ⟨⟨fun _ => none, 0⟩, [], 0⟩) ∧
      e.segments = [[0x61], [0x62], [0x63]] :=
  ⟨exec_line_eval sampleRun _ _ (by decide), by decide +kernel⟩

end Ittrium.Shell
