import Ittrium.Shell.Parse
import Mathlib.Data.List.TakeWhile

/-!
# Quoted words

Each scanner follows the quotes by itself. `expand_vars` copies a closing double quote and drops a
closing single quote, so `tokenize` then takes the opening quote of the next word for it.

* `quotedLine q ws` — the words `ws`, each in quotes `q`
* `ProtectsWords` — the line passes just these words on
* `quoting_protects` — **double quotes always do, single quotes only around one word**
-/

namespace Ittrium.Shell

variable {σ : Type} {vars : Vars} {q : Ch} {w s seg : Str} {ws : List Str} {run : RunArgv σ}
  {ch : Chain σ} {room max : Nat}

/-! ## Lines of quoted words -/

def quoted (q : Ch) (w : Str) : Str := q :: (w ++ [q])

/-- The words in quotes, separated by one blank. -/
def quotedLine (q : Ch) : List Str → Str
  | [] => []
  | [w] => quoted q w
  | w :: w' :: ws => quoted q w ++ blank :: quotedLine q (w' :: ws)

/-- Printable characters of ASCII. -/
def Printable (w : Str) : Prop := ∀ c ∈ w, 0x20 ≤ c ∧ c ≤ 0x7e

instance (w : Str) : Decidable (Printable w) := inferInstanceAs (Decidable (∀ c ∈ w, _ ∧ _))

/-- The words a line may have for quotes `q` to protect them. -/
structure Quotable (q : Ch) (ws : List Str) : Prop where
  one : ws ≠ []
  max : ws.length ≤ shellMaxArgs
  nonempty : ∀ w ∈ ws, w ≠ []
  printable : ∀ w ∈ ws, Printable w
  noQuote : ∀ w ∈ ws, q ∉ w
  noDollar : q = dquote → ∀ w ∈ ws, dollar ∉ w
  noAssign : ∀ w ∈ ws.head?, equals ∉ w
  fits : (quotedLine q ws).length < shellLineMax

/-- Whatever the variables and the commands, the words are passed on, in order and unchanged. -/
def ProtectsWords (q : Ch) (ws : List Str) : Prop :=
  ∀ (σ : Type) (run : RunArgv σ) (st : State σ),
    (shellExecLine run (quotedLine q ws) st).calls = [ws]

theorem quotedLine_cons (q : Ch) (w : Str) (ws : List Str) :
    ∃ s, quotedLine q (w :: ws) = q :: s := by
  cases ws with
  | nil => exact ⟨_, rfl⟩
  | cons w' ws => exact ⟨_, rfl⟩

theorem not_isBlank (hq : isQuote q = true) : isBlank q = false := by
  rcases (by simpa [isQuote] using hq : q = squote ∨ q = dquote) with rfl | rfl <;> decide

/-! ## Comments -/

theorem stripComment_word (hw : q ∉ w) :
    stripComment (some q) (w ++ q :: s) = w ++ q :: stripComment none s := by
  induction w with
  | nil => simp [stripComment]
  | cons c w ih =>
    obtain ⟨hc, hw⟩ := not_or.mp (mt List.mem_cons.mpr hw)
    rw [List.cons_append, stripComment, if_neg (Ne.symm hc), ih hw, List.cons_append]

theorem stripComment_quoted (hq : isQuote q = true) (hw : q ∉ w) :
    stripComment none (quoted q w ++ s) = quoted q w ++ stripComment none s := by
  unfold quoted
  rw [List.cons_append, stripComment, if_pos hq, List.append_assoc, List.singleton_append,
    stripComment_word hw]
  simp

/-- Nothing in a line of quoted words is taken for a comment. -/
theorem stripComment_line (hq : isQuote q = true) : ∀ ws : List Str, (∀ w ∈ ws, q ∉ w) →
    stripComment none (quotedLine q ws) = quotedLine q ws
  | [], _ => rfl
  | [w], h => by
    have hw := stripComment_quoted (s := []) hq (h w (by simp))
    simpa [quotedLine, stripComment] using hw
  | w :: w' :: ws, h => by
    have ih := stripComment_line hq (w' :: ws) fun v hv => h v (by simp [hv])
    rw [quotedLine, stripComment_quoted hq (h w (by simp)), stripComment, if_neg (by decide),
      if_neg (by decide), ih]

/-! ## Separators -/

theorem execLoop_word (hw : q ∉ w) :
    execLoop run (some q) seg ch (w ++ q :: s) = execLoop run none (seg ++ (w ++ [q])) ch s := by
  induction w generalizing seg with
  | nil => simp [execLoop]
  | cons c w ih =>
    obtain ⟨hc, hw⟩ := not_or.mp (mt List.mem_cons.mpr hw)
    rw [List.cons_append]
    conv => lhs; unfold execLoop
    rw [if_neg (Ne.symm hc), ih hw]
    simp

theorem execLoop_quoted (hq : isQuote q = true) (hw : q ∉ w) :
    execLoop run none seg ch (quoted q w ++ s) = execLoop run none (seg ++ quoted q w) ch s := by
  unfold quoted
  rw [List.cons_append, List.append_assoc, List.singleton_append]
  conv => lhs; unfold execLoop
  rw [if_pos hq, execLoop_word hw]
  simp

theorem execLoop_blank :
    execLoop run none seg ch (blank :: s) = execLoop run none (seg ++ [blank]) ch s := by
  have hamp : blank ≠ amp := by decide
  have hbar : blank ≠ bar := by decide
  conv => lhs; unfold execLoop
  rw [if_neg (by decide), if_neg (by decide)]
  cases s with
  | nil => rfl
  | cons d s =>
    dsimp only
    rw [if_neg fun h => hamp h.1, if_neg fun h => hbar h.1]

/-- A line of quoted words is one segment. -/
theorem execLoop_line (hq : isQuote q = true) : ∀ (ws : List Str) (seg : Str),
    (∀ w ∈ ws, q ∉ w) →
    execLoop run none seg ch (quotedLine q ws) = ch.segment run (seg ++ quotedLine q ws)
  | [], seg, _ => by simp [quotedLine, execLoop]
  | [w], seg, h => by
    have hw : execLoop run none seg ch (quoted q w ++ []) =
        execLoop run none (seg ++ quoted q w) ch [] := execLoop_quoted hq (h w (by simp))
    simpa [quotedLine, execLoop] using hw
  | w :: w' :: ws, seg, h => by
    have ih := execLoop_line hq (w' :: ws) (seg ++ quoted q w ++ [blank])
      fun v hv => h v (by simp [hv])
    rw [quotedLine, execLoop_quoted hq (h w (by simp)), execLoop_blank, ih]
    simp

/-! ## Expansion -/

/-- Inside single quotes everything is copied but the closing quote. -/
theorem expandLoop_single (hw : squote ∉ w) (hr : w.length < room) :
    expandLoop vars (some squote) room (w ++ squote :: s) =
      w ++ expandLoop vars none (room - w.length) s := by
  induction w generalizing room with
  | nil =>
    rw [List.nil_append, expandLoop, if_neg (by simp at hr; omega), if_pos rfl, if_pos rfl]
    rfl
  | cons c w ih =>
    obtain ⟨hc, hw⟩ := not_or.mp (mt List.mem_cons.mpr hw)
    rw [List.length_cons] at hr
    rw [List.cons_append, expandLoop, if_neg (by omega), if_pos rfl, if_neg (Ne.symm hc),
      ih hw (by omega), List.cons_append, List.length_cons]
    congr 3
    omega

/-- Inside double quotes everything is copied but variables. -/
theorem expandLoop_double (hw : dquote ∉ w) (hd : dollar ∉ w) (hr : w.length < room) :
    expandLoop vars (some dquote) room (w ++ dquote :: s) =
      w ++ dquote :: expandLoop vars none (room - w.length - 1) s := by
  induction w generalizing room with
  | nil =>
    rw [List.nil_append, expandLoop, if_neg (by simp at hr; omega), if_neg (by decide),
      if_neg (by decide), if_pos ⟨rfl, rfl⟩]
    rfl
  | cons c w ih =>
    obtain ⟨hc, hw⟩ := not_or.mp (mt List.mem_cons.mpr hw)
    obtain ⟨hcd, hd⟩ := not_or.mp (mt List.mem_cons.mpr hd)
    rw [List.length_cons] at hr
    rw [List.cons_append, expandLoop, if_neg (by omega), if_neg (by decide),
      if_neg (fun h => absurd h.1 (by decide)), if_neg fun h => hc h.2.symm,
      if_neg (Ne.symm hcd), ih hw hd (by omega), List.cons_append, List.length_cons]
    congr 4
    omega

/-- A quote opens. -/
theorem expandLoop_open (hq : isQuote q = true) (hr : 0 < room) :
    expandLoop vars none room (q :: s) = q :: expandLoop vars (some q) (room - 1) s := by
  rw [expandLoop, if_neg (by omega), if_neg (by decide), if_pos ⟨rfl, hq⟩]

theorem expandLoop_blank (hr : 0 < room) :
    expandLoop vars none room (blank :: s) = blank :: expandLoop vars none (room - 1) s := by
  rw [expandLoop, if_neg (by omega), if_neg (by decide), if_neg (by decide), if_neg (by decide),
    if_neg (by decide)]

theorem length_quotedLine (q : Ch) (w w' : Str) (ws : List Str) :
    (quotedLine q (w :: w' :: ws)).length = w.length + 3 + (quotedLine q (w' :: ws)).length := by
  simp [quotedLine, quoted]
  omega

/-- Words in double quotes come out as they are. -/
theorem expandLoop_line : ∀ (ws : List Str) (room : Nat), (∀ w ∈ ws, dquote ∉ w) →
    (∀ w ∈ ws, dollar ∉ w) → (quotedLine dquote ws).length ≤ room →
    expandLoop vars none room (quotedLine dquote ws) = quotedLine dquote ws
  | [], _, _, _, _ => by simp [quotedLine, expandLoop]
  | [w], room, h, hd, hr => by
    have hlen : (quotedLine dquote [w]).length = w.length + 2 := by simp [quotedLine, quoted]
    rw [quotedLine, quoted, expandLoop_open rfl (by omega),
      expandLoop_double (h w (by simp)) (hd w (by simp)) (by omega)]
    simp [expandLoop]
  | w :: w' :: ws, room, h, hd, hr => by
    rw [length_quotedLine] at hr
    have ih := expandLoop_line (w' :: ws) (room - 1 - w.length - 1 - 1)
      (fun v hv => h v (by simp [hv])) (fun v hv => hd v (by simp [hv])) (by omega)
    rw [quotedLine, quoted, List.cons_append, List.append_assoc, List.singleton_append,
      expandLoop_open rfl (by omega), expandLoop_double (h w (by simp)) (hd w (by simp)) (by omega),
      expandLoop_blank (by omega), ih]

/-! ## Tokens -/

theorem ne_of_mem_word (hw : q ∉ w) : ∀ c ∈ w, decide (c ≠ q) = true := by
  intro c hc
  rw [decide_eq_true_eq]
  rintro rfl
  exact hw hc

theorem takeWhile_quote (hw : q ∉ w) : (w ++ q :: s).takeWhile (· ≠ q) = w := by
  rw [List.takeWhile_append_of_pos (ne_of_mem_word hw)]
  simp

theorem dropWhile_quote (hw : q ∉ w) : (w ++ q :: s).dropWhile (· ≠ q) = q :: s := by
  rw [List.dropWhile_append_of_pos (ne_of_mem_word hw)]
  simp

theorem tokenize_quoted (hq : isQuote q = true) (hw : q ∉ w) :
    tokenize (max + 1) (q :: (w ++ q :: s)) = w :: tokenize max s := by
  have hdrop : (q :: (w ++ q :: s)).dropWhile isBlank = q :: (w ++ q :: s) :=
    List.dropWhile_cons_of_neg (by simp [not_isBlank hq])
  rw [tokenize, hdrop]
  dsimp only
  rw [if_pos hq, takeWhile_quote hw, dropWhile_quote hw, List.tail_cons]

theorem tokenize_blank : tokenize max (blank :: s) = tokenize max s := by
  cases max with
  | zero => rfl
  | succ max => rw [tokenize, tokenize, List.dropWhile_cons_of_pos (by decide)]

/-- The quotes come off again. -/
theorem tokenize_line (hq : isQuote q = true) : ∀ (ws : List Str) (max : Nat),
    (∀ w ∈ ws, q ∉ w) → ws.length ≤ max → tokenize max (quotedLine q ws) = ws
  | [], max, _, _ => by cases max <;> rfl
  | w :: ws, 0, _, hm => by simp at hm
  | [w], max + 1, h, _ => by
    have hw : tokenize (max + 1) (q :: (w ++ [q])) = w :: tokenize max [] :=
      tokenize_quoted hq (h w (by simp))
    rw [show tokenize max [] = [] by cases max <;> rfl] at hw
    exact hw
  | w :: w' :: ws, max + 1, h, hm => by
    have ih := tokenize_line hq (w' :: ws) max (fun v hv => h v (by simp [hv]))
      (by simpa using hm)
    rw [quotedLine, quoted, List.cons_append, List.append_assoc, List.singleton_append,
      tokenize_quoted hq (h w (by simp)), tokenize_blank, ih]

/-! ## Segments -/

theorem isAssign_none (hw : equals ∉ w) : isAssign w = none := by
  have hname : w.takeWhile (· ≠ equals) = w :=
    List.takeWhile_eq_self_iff.mpr (ne_of_mem_word hw)
  unfold isAssign
  rw [hname]
  simp

/-- A first word that is no assignment: all words are passed on. -/
theorem runSegment_calls {d : Done σ} {argv : List Str}
    (hseg : seg.dropWhile isBlank = seg) (hne : seg ≠ [])
    (ht : tokenize shellMaxArgs (expandVars d.state.vars seg shellLineMax) = w :: argv)
    (hw : equals ∉ w) : (runSegment run seg d).calls = d.calls ++ [w :: argv] := by
  unfold runSegment
  dsimp only
  rw [hseg, if_neg hne, ht, if_neg (List.cons_ne_nil _ _), assignVars, isAssign_none hw]
  dsimp only
  rw [if_neg (List.cons_ne_nil _ _)]

/-- A line of quoted words is expanded and split as a whole. -/
theorem shellExecLine_calls {st : State σ} {argv : List Str} {v : Str} (hq : isQuote q = true)
    (hws : ws ≠ []) (hn : ∀ w ∈ ws, q ∉ w) (hfit : (quotedLine q ws).length < shellLineMax)
    (ht : tokenize shellMaxArgs (expandVars st.vars (quotedLine q ws) shellLineMax) = v :: argv)
    (hv : equals ∉ v) : (shellExecLine run (quotedLine q ws) st).calls = [v :: argv] := by
  obtain ⟨w, ws, rfl⟩ := List.exists_cons_of_ne_nil hws
  obtain ⟨s, hs⟩ := quotedLine_cons q w ws
  have hdrop : (quotedLine q (w :: ws)).dropWhile isBlank = quotedLine q (w :: ws) := by
    rw [hs]
    exact List.dropWhile_cons_of_neg (by simp [not_isBlank hq])
  have hne : quotedLine q (w :: ws) ≠ [] := by
    rw [hs]
    exact List.cons_ne_nil _ _
  unfold shellExecLine
  rw [List.take_of_length_le (by omega), stripComment_line hq _ hn, execLoop_line hq _ _ hn,
    List.nil_append, Chain.segment]
  dsimp only
  rw [hdrop, if_pos ⟨rfl, hne⟩, runSegment_calls hdrop hne ht hv, List.nil_append]

/-! ## What quotes protect -/

theorem protects_double (h : Quotable dquote ws) : ProtectsWords dquote ws := by
  intro σ run st
  have htok : tokenize shellMaxArgs (expandVars st.vars (quotedLine dquote ws) shellLineMax) = ws := by
    rw [expandVars, expandLoop_line ws _ h.noQuote (h.noDollar rfl) (by have := h.fits; omega),
      tokenize_line rfl ws _ h.noQuote h.max]
  cases ws with
  | nil => exact absurd rfl h.one
  | cons w ws => exact shellExecLine_calls rfl h.one h.noQuote h.fits htok (h.noAssign w rfl)

theorem protects_single (h : Quotable squote [w]) : ProtectsWords squote [w] := by
  intro σ run st
  have hw : squote ∉ w := h.noQuote w (by simp)
  have hfit : (quotedLine squote [w]).length < 192 := h.fits
  have hlen : (quotedLine squote [w]).length = w.length + 2 := by simp [quotedLine, quoted]
  refine shellExecLine_calls rfl h.one h.noQuote h.fits ?_ (h.noAssign w rfl)
  rw [expandVars, quotedLine, quoted, expandLoop_open rfl (by decide),
    expandLoop_single hw (by show _ < 190; omega)]
  rw [show expandLoop st.vars none _ [] = [] by rw [expandLoop], List.append_nil]
  have hdrop : (squote :: w).dropWhile isBlank = squote :: w :=
    List.dropWhile_cons_of_neg (by decide)
  have hall := ne_of_mem_word hw
  rw [shellMaxArgs, tokenize, hdrop]
  dsimp only
  rw [if_pos (by decide), List.takeWhile_eq_self_iff.mpr hall, List.dropWhile_eq_nil_iff.mpr hall]
  rfl

/-- The first of two words in single quotes gets a blank at its end. -/
theorem spoils_single {w' : Str} (h : Quotable squote (w :: w' :: ws)) :
    ¬ ProtectsWords squote (w :: w' :: ws) := by
  intro hp
  have hw : squote ∉ w := h.noQuote w (by simp)
  have hfit : (quotedLine squote (w :: w' :: ws)).length < 192 := h.fits
  rw [length_quotedLine] at hfit
  obtain ⟨s, hs⟩ := quotedLine_cons squote w' ws
  obtain ⟨argv, ht⟩ : ∃ argv, tokenize shellMaxArgs (expandVars (fun _ => none)
      (quotedLine squote (w :: w' :: ws)) shellLineMax) = (w ++ [blank]) :: argv := by
    rw [expandVars, quotedLine, quoted, List.cons_append, List.append_assoc, List.singleton_append,
      expandLoop_open rfl (by decide), expandLoop_single hw (by show _ < 190; omega),
      expandLoop_blank (by show 0 < 190 - _; omega), hs,
      expandLoop_open rfl (by show 0 < 190 - _ - 1; omega)]
    have hblank : squote ∉ w ++ [blank] := by
      rw [List.mem_append, not_or]
      exact ⟨hw, by decide⟩
    have htok : ∀ s, tokenize (15 + 1) (squote :: (w ++ [blank] ++ squote :: s)) =
        (w ++ [blank]) :: tokenize 15 s := fun s => tokenize_quoted (by decide) hblank
    simp only [List.append_assoc, List.singleton_append] at htok
    exact ⟨_, htok _⟩
  let st : State Unit := ⟨fun _ => none, ()⟩
  let run : RunArgv Unit := fun _ st => (st, 0)
  have hv : equals ∉ w ++ [blank] := by
    rw [List.mem_append, not_or]
    exact ⟨h.noAssign w rfl, by decide⟩
  have hcalls : (shellExecLine run (quotedLine squote (w :: w' :: ws)) st).calls =
      [(w ++ [blank]) :: argv] := shellExecLine_calls rfl h.one h.noQuote h.fits ht hv
  have hsame := List.cons.inj (List.cons.inj (hcalls.symm.trans (hp Unit _ _))).1
  have hlen := congrArg List.length hsame.1
  simp at hlen

/-- **Double quotes protect all words, single quotes only a single one.** -/
theorem quoting_protects (hq : isQuote q = true) (h : Quotable q ws) :
    ProtectsWords q ws ↔ q = dquote ∨ ws.length = 1 := by
  rcases (by simpa [isQuote] using hq : q = squote ∨ q = dquote) with rfl | rfl
  · obtain ⟨w, ws, rfl⟩ := List.exists_cons_of_ne_nil h.one
    cases ws with
    | nil => exact ⟨fun _ => Or.inr rfl, fun _ => protects_single h⟩
    | cons w' ws =>
      refine ⟨fun hp => absurd hp (spoils_single h), fun hc => ?_⟩
      rcases hc with hc | hc
      · exact absurd hc (by decide)
      · simp at hc
  · exact ⟨fun _ => Or.inl rfl, fun _ => protects_double h⟩

/-- The words `$a;` and `#b|`. -/
def sampleWords : List Str := [[dollar, 0x61, semi], [hash, 0x62, bar]]

theorem quoting_protects_one :
    (isQuote squote = true ∧ Quotable squote [[dollar, blank, semi]]) ∧
      ProtectsWords squote [[dollar, blank, semi]] := by
  have h : Quotable squote [[dollar, blank, semi]] := by
    constructor <;> decide +kernel
  exact ⟨⟨rfl, h⟩, (quoting_protects rfl h).mpr (Or.inr rfl)⟩

/-- `'$a;' '#b|'` is passed on as `$a; ` and `#b|`. -/
theorem quoting_spoils : Quotable squote sampleWords ∧ ¬ ProtectsWords squote sampleWords ∧
    (shellExecLine (fun _ st => (st, 0)) (quotedLine squote sampleWords) ⟨fun _ => none, ()⟩).calls =
      [[[dollar, 0x61, semi, blank], [hash, 0x62, bar]]] := by
  have h : Quotable squote sampleWords := by
    constructor <;> decide +kernel
  refine ⟨h, spoils_single h, ?_⟩
  decide +kernel

end Ittrium.Shell
