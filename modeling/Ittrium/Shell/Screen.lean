import Ittrium.Shell.Drafts
import Ittrium.Shell.Echo

/-!
# What is seen of a line

For a terminal that does not wrap around.

* `Line.On` — the row with the cursor is the prompt and the line
* `shellCompleteCmds_completes` — what a completion puts into the line can be seen
* `lineedit_displays` — **the row shows the line in the buffer, whatever keys come**
-/

namespace Ittrium.Shell

open Infra
open Infra.Terminal (crlf right left)

/-! ## The screen -/

variable {N : Names} {hist : Hist} {prompt s new pre tok post : Str} {l l' : Line} {e e' : Edit}
  {m : Draft} {t t' : Terminal} {cursor size : Nat}

/-- Only what can be seen: the names are printed, and may come into the line. -/
structure Names.Printable (N : Names) : Prop where
  cmds : ∀ name ∈ N.cmds, Cells name
  mounts : ∀ mnt ∈ N.mounts, Cells mnt
  entries : ∀ dir, ∀ name ∈ N.entries dir, Cells name

/-- The row with the cursor is the prompt and the line, and the cursor is where it is in the
line. -/
structure Line.On (prompt : Str) (t : Terminal) (l : Line) : Prop where
  seq : t.seq = .none
  row : t.row = prompt ++ l.text
  col : (t.col : Int) = prompt.length + l.pos

/-- While keys are awaited the line can be seen. Then it is in the last row above an empty one, or
`^C` is. -/
def Displays (prompt : Str) (t : Terminal) : Reading → Prop
  | .waits e => e.line.On prompt t
  | .returned r buf _ =>
    (t.row = [] ∧ t.col = 0 ∧ t.seq = .none) ∧
      ((∃ s, t.above.getLast? = some (prompt ++ s) ∧ r = s.length ∧ Terminated buf s 0) ∨
        (∃ s s', t.above.getLast? = some (prompt ++ (s ++ ([0x5e, 0x43] ++ s'))) ∧ r = 0 ∧
          Terminated buf [] 0))

/-- No row above is lost, and the history stays printable. -/
structure Printed (prompt : Str) (t t' : Terminal) (o : Reading) : Prop where
  above : t.above <+: t'.above
  displays : Displays prompt t' o
  history : ∀ r buf hist, o = .returned r buf hist → ∀ line ∈ hist.toList, Cells line

/-! ## What is printed -/

/-- **A redraw shows the line**, whatever was in the row. -/
theorem redraw_on (ht : t.seq = .none) (hprompt : Cells prompt) (hl : l.Shows s cursor)
    (hs : Cells s) :
    l.On prompt (t.print (redraw prompt l)) ∧ (t.print (redraw prompt l)).above = t.above := by
  have htext : l.buf.take l.len.toNat = s := hl.text
  have hlen := hl.len
  have hpos := hl.pos
  have hin := hl.inside
  rw [redraw, htext, Terminal.print_redraw ht (hprompt.append hs)]
  refine ⟨⟨rfl, ?_, ?_⟩, rfl⟩
  · rw [hl.text]
  · dsimp only
    rw [List.length_append]
    omega

/-- A list of names makes a row of each. -/
theorem print_names (ht : t.seq = .none) (hrow : t.row = []) (hcol : t.col = 0) :
    ∀ {names : List Str}, (∀ name ∈ names, Cells name) →
      t.print (names.flatMap (· ++ crlf)) = ⟨t.above ++ names, [], 0, .none⟩ := by
  intro names
  induction names generalizing t with
  | nil =>
    intro _
    rw [List.flatMap_nil, Terminal.print_nil, List.append_nil, ← hrow, ← hcol, ← ht]
  | cons name names ih =>
    intro hnames
    have hname := hnames name List.mem_cons_self
    rw [List.flatMap_cons, Terminal.print_append, Terminal.print_append,
      Terminal.print_text ht hname (by omega), Terminal.print_crlf (by exact ht)]
    rw [ih rfl rfl rfl fun n hn => hnames n (List.mem_cons_of_mem _ hn)]
    simp only [hrow, hcol, List.take_nil, List.nil_append, List.drop_nil, List.append_nil,
      List.append_assoc, List.singleton_append]

theorem print_listNames (ht : t.seq = .none) {names : List Str} (h : ∀ name ∈ names, Cells name) :
    t.print (listNames names) = ⟨t.above ++ t.row :: names, [], 0, .none⟩ := by
  rw [listNames, Terminal.print_append, Terminal.print_crlf ht, print_names rfl rfl rfl h]
  simp only [List.append_assoc, List.singleton_append]

/-! ## Completions -/

/-- A completion, with what it lists: only what can be seen comes into the line, and where nothing
matches nothing is done. -/
def Completes (l : Line) (out : Str) (r : Option (Line × Nat)) : Prop :=
  ∃ l' n, r = some (l', n) ∧ Cells l'.text ∧ (n = 0 → l' = l ∧ out = []) ∧
    (out = [] ∨ ∃ names, out = listNames names ∧ ∀ name ∈ names, Cells name)

/-- A list of the matches, if there are several. -/
def Lists (n : Nat) (out : Str) : Prop :=
  (n = 0 → out = []) ∧ (out = [] ∨ ∃ names, out = listNames names ∧ ∀ name ∈ names, Cells name)

theorem completes_same {n : Nat} {out : Str} (hs : Cells l.text) (hout : Lists n out) :
    Completes l out (some (l, n)) :=
  ⟨l, n, rfl, hs, fun hn => ⟨rfl, hout.1 hn⟩, hout.2⟩

theorem completes_replace {n : Nat} {out : Str} (h : l.Bounded)
    (ht : l.text = pre ++ (tok ++ post)) (hs : Cells l.text) (hnew : Cells new) (hn : n ≠ 0)
    (hout : Lists n out) :
    Completes l out
      ((shellReplaceToken l pre.length (pre.length + tok.length) new).map fun l => (l, n)) := by
  obtain ⟨l', hr, -, hl'⟩ := shellReplaceToken_spec h ht new
  refine ⟨l', n, by rw [hr]; rfl, ?_, fun h0 => absurd h0 hn, hout.2⟩
  rw [ht] at hs
  by_cases hfit : l.Fits pre new post
  · rw [if_pos hfit] at hl'
    have hpre : Cells pre := hs.mono (List.subset_append_left _ _)
    have hpost : Cells post := hs.mono fun c hc => by simp [hc]
    rw [hl'.text]
    exact hpre.append (hnew.append hpost)
  · rw [if_neg hfit] at hl'
    rw [hl', ht]
    exact hs

theorem cells_blank : Cells [blank] := by decide

theorem cells_slash : Cells [slash] := by decide

theorem shellCompleteCmdword_completes (hN : N.Printable) (h : l.Bounded)
    (ht : l.text = pre ++ (tok ++ post)) (hs : Cells l.text) :
    Completes l (shellListCmdword N l pre.length (pre.length + tok.length))
      (shellCompleteCmdword N l pre.length (pre.length + tok.length)) := by
  have hcells : ∀ {p : Str → Bool}, ∀ name ∈ N.cmds.filter p, Cells name :=
    fun name hname => hN.cmds name (List.mem_of_mem_filter hname)
  unfold shellCompleteCmdword shellListCmdword
  dsimp only
  generalize hf : N.cmds.filter _ = names
  have hnames : ∀ name ∈ names, Cells name := hf ▸ hcells
  match names, hnames with
  | [], _ => exact completes_same hs ⟨fun _ => rfl, Or.inl rfl⟩
  | [first], hnames =>
    have hfirst := hnames first List.mem_cons_self
    exact completes_replace h ht hs ((hfirst.take _).append cells_blank) Nat.one_ne_zero
      ⟨fun _ => rfl, Or.inl rfl⟩
  | first :: second :: rest, hnames =>
    have hfirst := hnames first List.mem_cons_self
    have hlist : Lists (rest.length + 1 + 1) (listNames (first :: second :: rest)) :=
      ⟨fun h0 => absurd h0 (Nat.succ_ne_zero _), Or.inr ⟨_, rfl, hnames⟩⟩
    have hlen : ¬ (first :: second :: rest).length ≤ 1 := by
      simp only [List.length_cons]
      omega
    rw [if_neg hlen]
    dsimp only
    split
    · exact completes_replace h ht hs (hfirst.take _) (Nat.succ_ne_zero _) hlist
    · exact completes_same hs hlist

/-! ## Paths -/

theorem splitPath_cells (hs : Cells s) : Cells (splitPath s).1 ∧ Cells (splitPath s).2 := by
  unfold splitPath
  split
  · exact ⟨cells_slash, hs.take _⟩
  · exact ⟨cells_slash, (hs.drop _).take _⟩
  · exact ⟨hs.take _, (hs.drop _).take _⟩

theorem shellMountChild_cells {dir mnt name : Str} {outsz : Nat} (hmnt : Cells mnt)
    (h : shellMountChild dir mnt outsz = some name) : Cells name := by
  unfold shellMountChild at h
  split at h
  · cases h
  · obtain ⟨p, hp, hname⟩ := Option.bind_eq_some_iff.mp h
    have hcells : Cells p := by
      split at hp
      · cases hp
        exact hmnt.mono (List.tail_subset _)
      · split at hp
        · cases hp
          exact hmnt.drop _
        · cases hp
    split at hname
    · cases hname
    · cases hname
      exact hcells.take _

theorem listed_cells (hN : N.Printable) (dir : Str) : ∀ name ∈ listed N dir, Cells name := by
  intro name hname
  rcases List.mem_append.mp hname with hname | hname
  · obtain ⟨entry, hentry, rfl⟩ := List.mem_map.mp hname
    exact (hN.entries dir entry hentry).take _
  · obtain ⟨mnt, hmnt, hchild⟩ := List.mem_filterMap.mp hname
    exact shellMountChild_cells (hN.mounts mnt hmnt) hchild

/-- The loops over the matches keep to printable names. -/
theorem foldl_shellMatchUpdate_cells {names : List Str} (hnames : ∀ name ∈ names, Cells name)
    {b : Best} (hb : Cells b.best ∧ Cells b.common) :
    Cells (names.foldl (shellMatchUpdate Vfs.vfsNameMax) b).best ∧
      Cells (names.foldl (shellMatchUpdate Vfs.vfsNameMax) b).common := by
  induction names generalizing b with
  | nil => exact hb
  | cons name names ih =>
    have hname := hnames name List.mem_cons_self
    refine ih (fun n hn => hnames n (List.mem_cons_of_mem _ hn)) ?_
    unfold shellMatchUpdate
    split
    · exact ⟨hname.take _, hname.take _⟩
    · exact ⟨hb.1, hb.2.take _⟩

theorem pathIn_cells {dir name out : Str} (hdir : Cells dir) (hname : Cells name)
    (h : pathIn dir name = some out) : Cells out := by
  have hslash : Cells (slash :: name) := cells_slash.append hname
  unfold pathIn at h
  split at h
  · split at h
    · cases h
    · cases h
      exact hslash
  · split at h
    · cases h
    · split at h
      · cases h
      · cases h
        exact hdir.append hslash

theorem not_mem_zero (hs : Cells s) : (0 : Ch) ∉ s := fun h => absurd (hs 0 h).1 (by decide)

theorem shellCompletePath_completes (hN : N.Printable) (h : l.Bounded)
    (ht : l.text = pre ++ (tok ++ post)) (hs : Cells l.text) :
    Completes l (shellListPath N l pre.length (pre.length + tok.length))
      (shellCompletePath N l pre.length (pre.length + tok.length)) := by
  have htok : Cells tok := by
    rw [ht] at hs
    exact hs.mono fun c hc => by simp [hc]
  unfold shellCompletePath shellListPath
  dsimp only
  rw [copied_token ht (not_mem_zero htok)]
  obtain ⟨hdir, hpfx⟩ := splitPath_cells (htok.take (Vfs.vfsPathMax - 1))
  generalize splitPath (tok.take (Vfs.vfsPathMax - 1)) = dp at hdir hpfx
  obtain ⟨dir, pfx⟩ := dp
  dsimp only at hdir hpfx ⊢
  generalize hf : (listed N dir).filter _ = names
  have hnames : ∀ name ∈ names, Cells name := by
    rw [← hf]
    exact fun name hname => listed_cells hN dir name (List.mem_of_mem_filter hname)
  obtain ⟨hbest, hcommon⟩ := foldl_shellMatchUpdate_cells hnames (b := ⟨[], [], 0⟩)
    ⟨by decide, by decide⟩
  generalize names.foldl (shellMatchUpdate Vfs.vfsNameMax) ⟨[], [], 0⟩ = b at hbest hcommon
  -- no match, one match, or several with more or no more in common
  by_cases h0 : b.found = 0
  · rw [if_pos h0, if_pos (by omega)]
    exact completes_same hs ⟨fun _ => rfl, Or.inl rfl⟩
  rw [if_neg h0]
  by_cases h1 : b.found = 1
  · rw [if_pos h1, if_pos (by omega)]
    split
    · exact completes_same hs ⟨fun _ => rfl, Or.inl rfl⟩
    · rename_i out hout
      have hcells := pathIn_cells hdir hbest hout
      refine completes_replace h ht hs ?_ Nat.one_ne_zero ⟨fun _ => rfl, Or.inl rfl⟩
      split
      · exact hcells.append cells_slash
      · exact hcells
  rw [if_neg h1, if_neg (show ¬ b.found ≤ 1 by omega)]
  have hlist : Lists b.found (listNames names) :=
    ⟨fun h => absurd h h0, Or.inr ⟨names, rfl, hnames⟩⟩
  by_cases hlen : b.common.length > pfx.length
  · rw [if_pos hlen]
    cases hout : pathIn dir b.common with
    | none =>
      rw [if_pos ⟨hlen, rfl⟩]
      exact completes_same hs ⟨fun _ => rfl, Or.inl rfl⟩
    | some out =>
      rw [if_neg (by simp)]
      exact completes_replace h ht hs (pathIn_cells hdir hcommon hout) h0 hlist
  · rw [if_neg hlen, if_neg fun hc => hlen hc.1]
    exact completes_same hs hlist

/-- **What a completion puts into the line can be seen**, and it lists nothing where nothing
matches. -/
theorem shellCompleteCmds_completes (hN : N.Printable) (h : l.Bounded) (hs : Cells l.text) :
    Completes l (shellListCmds N l) (shellCompleteCmds N l) := by
  have hnonneg := h.nonneg
  have hroom := h.room
  obtain ⟨pre, tok, post, htok⟩ := exists_tokenAt l.text l.pos
  unfold shellCompleteCmds shellListCmds
  rw [if_neg (by omega), if_neg (by omega), shellTokenAt_spec h htok]
  dsimp only
  split
  · exact shellCompleteCmdword_completes hN h htok.eq hs
  · exact shellCompletePath_completes hN h htok.eq hs

/-! ## Keys -/

/-- The line is on the screen and can be seen. -/
structure Seen (size : Nat) (hist : Hist) (prompt : Str) (t : Terminal) (e : Edit) : Prop where
  shows : ∃ m, e.Shows size hist m
  cells : Cells e.line.text
  on : e.line.On prompt t

/-- After the output the line is on the screen, and no row above is lost. -/
def Echoes (size : Nat) (hist : Hist) (prompt : Str) (t : Terminal) (out : Str) (e : Edit) : Prop :=
  Seen size hist prompt (t.print out) e ∧ t.above <+: (t.print out).above

theorem Seen.echoes_nil (h : Seen size hist prompt t e) : Echoes size hist prompt t [] e :=
  ⟨h, List.prefix_rfl⟩

theorem echoes_redraw (ht : t.seq = .none) (hprompt : Cells prompt) (h : e.Shows size hist m)
    (hm : Cells m.text) : Echoes size hist prompt t (redraw prompt e.line) e := by
  obtain ⟨hon, habove⟩ := redraw_on ht hprompt h.line hm
  refine ⟨⟨⟨m, h⟩, ?_, hon⟩, ?_⟩
  · rw [h.line.text]
    exact hm
  · rw [habove]

/-- What a key makes of the text can be seen, if the history can. -/
theorem press_cells {recent : List Str} (hrecent : ∀ line ∈ recent, Cells line)
    (hm : Cells m.text) {p : Press} (hp : ∀ c, p = .char c → IsCell c) :
    Cells (m.press size recent p).text := by
  have hrecall : ∀ {k : Nat} {line : Str}, recent[k]? = some line → Cells (line.take (size - 1)) :=
    fun hline => (hrecent _ (List.mem_of_getElem? hline)).take _
  cases p with
  | char c =>
    have hc : Cells (c :: m.text.drop m.cursor) :=
      (show Cells [c] by simpa [Cells] using hp c rfl).append (hm.drop _)
    simp only [Draft.press]
    split
    · exact (hm.take _).append hc
    · exact hm
  | backspace =>
    simp only [Draft.press]
    split
    · exact (hm.take _).append (hm.drop _)
    · exact hm
  | up =>
    simp only [Draft.press]
    split
    · rename_i line hline
      exact hrecall hline
    · exact hm
  | down =>
    simp only [Draft.press]
    split
    · exact hm
    · exact fun c hc => absurd hc List.not_mem_nil
    · split
      · rename_i line hline
        exact hrecall hline
      · exact hm
  | right =>
    simp only [Draft.press]
    split <;> exact hm
  | left => exact hm
  | tab => exact hm
  | enter => exact hm
  | ctrlC => exact hm

section

variable (hprompt : Cells prompt) (hhist : ∀ line ∈ hist.toList, Cells line)

include hprompt

/-- A tab lists the matches before the line is drawn again. -/
theorem tab_echoes (hN : N.Printable) (h : Seen size hist prompt t e) (tabPending : Bool) :
    ∃ r, shellCompleteCmds N e.line = some r ∧
      Echoes size hist prompt t (tabEcho N prompt tabPending e.line r.1 r.2) ⟨r.1, 0⟩ := by
  obtain ⟨m, hm⟩ := h.shows
  obtain ⟨r, m', hr, -, hs⟩ := shellCompleteCmds_shows hm N
  obtain ⟨l', n, hr', hcells, hnone, hlist⟩ :=
    shellCompleteCmds_completes hN hm.line.bounded h.cells
  obtain rfl : r = (l', n) := Option.some.inj (hr.symm.trans hr')
  refine ⟨(l', n), hr, ?_⟩
  have hseq := h.on.seq
  have htext : Cells m'.text := by
    rw [← hs.line.text]
    exact hcells
  unfold tabEcho
  dsimp only
  rcases Nat.eq_zero_or_pos n with rfl | hn
  · -- nothing matches, and nothing is shown
    obtain ⟨hl, hout⟩ := hnone rfl
    subst hl
    rw [hout, ite_self, if_neg (by simp), if_neg (Nat.not_succ_le_zero 0), List.append_nil]
    exact ⟨⟨⟨m', hs⟩, h.cells, h.on⟩, List.prefix_rfl⟩
  · have hout : (if n > 1 ∧ tabPending = true then redraw prompt l'
        else if n ≥ 1 then redraw prompt l' else []) = redraw prompt l' := by
      rw [if_pos (show n ≥ 1 from hn), ite_self]
    rw [hout]
    have hdraw : ∀ t' : Terminal, t'.seq = .none →
        Echoes size hist prompt t' (redraw prompt l') ⟨l', 0⟩ :=
      fun t' ht' => echoes_redraw ht' hprompt hs htext
    by_cases hpending : tabPending = true
    · rw [if_pos hpending, Echoes, Terminal.print_append]
      rcases hlist with hnil | ⟨names, hnames, hseen⟩
      · rw [hnil]
        exact hdraw t hseq
      · -- the names come between the old row and the new one
        have hprint := print_listNames hseq hseen
        obtain ⟨hseen', habove⟩ := hdraw (t.print (listNames names)) (by rw [hprint])
        rw [hnames]
        refine ⟨hseen', List.IsPrefix.trans ?_ habove⟩
        rw [hprint]
        exact List.prefix_append _ _
    · rw [if_neg hpending, List.nil_append]
      exact hdraw t hseq

include hhist

theorem backspace_echoes (h : Seen size hist prompt t e) :
    ∃ line, backspace e.line = some line ∧
      Echoes size hist prompt t (backspaceEcho prompt e.line line) { e with line } := by
  obtain ⟨m, hm⟩ := h.shows
  obtain ⟨line, hline, hs⟩ := backspace_press hm
  refine ⟨line, hline, ?_⟩
  unfold backspaceEcho
  by_cases hpos : e.line.pos > 0
  · rw [if_pos hpos]
    have hcells := h.cells
    rw [hm.line.text] at hcells
    exact echoes_redraw (e := { e with line }) h.on.seq hprompt hs
      (press_cells hhist hcells nofun)
  · rw [if_neg hpos]
    rw [backspace, if_neg hpos] at hline
    cases hline
    exact h.echoes_nil

theorem char_echoes (h : Seen size hist prompt t e) (hroom : ¬ e.line.len + 1 ≥ e.line.buf.length)
    {c : Ch} (hc : IsCell c) :
    ∃ line, insertChar c e.line = some line ∧
      Echoes size hist prompt t (redraw prompt line) ⟨line, 0⟩ := by
  obtain ⟨m, hm⟩ := h.shows
  have hlen := hm.line.len
  have hsize := hm.size
  obtain ⟨line, hline, hs⟩ := insertChar_press hm c (by omega)
  have hcells := h.cells
  rw [hm.line.text] at hcells
  refine ⟨line, hline, echoes_redraw (e := ⟨line, 0⟩) h.on.seq hprompt hs
    (press_cells hhist hcells ?_)⟩
  intro d hd
  cases hd
  exact hc

theorem up_echoes (hsize : 2 ≤ size) (h : Seen size hist prompt t e) :
    ∃ e', keyUp hist e = some e' ∧ Echoes size hist prompt t (upEcho hist prompt e e') e' := by
  obtain ⟨m, hm⟩ := h.shows
  obtain ⟨e', he', hs⟩ := keyUp_shows hm hsize
  refine ⟨e', he', ?_⟩
  unfold upEcho
  unfold keyUp at he'
  cases hget : histGet (e.histNav + 1) hist with
  | none =>
    rw [hget] at he'
    cases he'
    exact h.echoes_nil
  | some line =>
    have hcells := h.cells
    rw [hm.line.text] at hcells
    exact echoes_redraw h.on.seq hprompt hs (press_cells hhist hcells nofun)

theorem down_echoes (hsize : 2 ≤ size) (h : Seen size hist prompt t e) :
    ∃ e', keyDown hist e = some e' ∧ Echoes size hist prompt t (downEcho hist prompt e e') e' := by
  obtain ⟨m, hm⟩ := h.shows
  obtain ⟨e', he', hs⟩ := keyDown_shows hm hsize
  have hcells := h.cells
  rw [hm.line.text] at hcells
  have hdraw : Echoes size hist prompt t (redraw prompt e'.line) e' :=
    echoes_redraw h.on.seq hprompt hs (press_cells hhist hcells nofun)
  refine ⟨e', he', ?_⟩
  unfold downEcho
  unfold keyDown at he'
  by_cases h0 : e.histNav ≤ 0
  · rw [if_pos h0] at he' ⊢
    cases he'
    exact h.echoes_nil
  rw [if_neg h0] at he' ⊢
  by_cases h1 : e.histNav - 1 = 0
  · rw [if_pos h1]
    exact hdraw
  rw [if_neg h1] at he' ⊢
  cases hget : histGet (e.histNav - 1) hist with
  | none =>
    -- the line stays, only the position in the history has changed
    rw [hget] at he'
    cases he'
    exact ⟨⟨⟨_, hs⟩, h.cells, ⟨h.on.seq, h.on.row, h.on.col⟩⟩, List.prefix_rfl⟩
  | some line => exact hdraw

/-- The arrows to the sides move the cursor only. -/
theorem escape_echoes (hsize : 2 ≤ size) (h : Seen size hist prompt t e) (c d : Int) :
    ∃ e', keyEscape hist c d e = some e' ∧
      Echoes size hist prompt t (escapeEcho hist prompt c d e e') e' := by
  obtain ⟨m, hm⟩ := h.shows
  obtain ⟨e', m', he', hs, -⟩ := keyEscape_shows hm hsize c d
  refine ⟨e', he', ?_⟩
  have hseq := h.on.seq
  have hcol := h.on.col
  have hpos := hm.line.pos
  unfold keyEscape at he'
  unfold escapeEcho
  by_cases hc : isChar c 0x5b = true
  · rw [if_pos hc] at he' ⊢
    by_cases hA : isChar d 0x41 = true
    · rw [if_pos hA] at he' ⊢
      obtain ⟨e'', he'', hup⟩ := up_echoes hprompt hhist hsize h
      cases he'.symm.trans he''
      exact hup
    rw [if_neg hA] at he' ⊢
    by_cases hB : isChar d 0x42 = true
    · rw [if_pos hB] at he' ⊢
      obtain ⟨e'', he'', hdown⟩ := down_echoes hprompt hhist hsize h
      cases he'.symm.trans he''
      exact hdown
    rw [if_neg hB] at he' ⊢
    by_cases hC : isChar d 0x43 = true
    · rw [if_pos hC] at he' ⊢
      by_cases hlt : e.line.pos < e.line.len
      · rw [if_pos hlt] at he' ⊢
        cases he'
        rw [Echoes, Terminal.print_right hseq]
        refine ⟨⟨⟨m', hs⟩, h.cells, ⟨hseq, h.on.row, ?_⟩⟩, List.prefix_rfl⟩
        push_cast
        rw [hcol]
        exact Int.add_assoc ..
      · rw [if_neg hlt] at he' ⊢
        cases he'
        exact h.echoes_nil
    rw [if_neg hC] at he' ⊢
    by_cases hD : isChar d 0x44 = true
    · rw [if_pos hD] at he' ⊢
      by_cases hgt : e.line.pos > 0
      · rw [if_pos hgt] at he' ⊢
        cases he'
        rw [Echoes, Terminal.print_left hseq]
        refine ⟨⟨⟨m', hs⟩, h.cells, ⟨hseq, h.on.row, ?_⟩⟩, List.prefix_rfl⟩
        dsimp only
        omega
      · rw [if_neg hgt] at he' ⊢
        cases he'
        exact h.echoes_nil
    · rw [if_neg hD] at he' ⊢
      cases he'
      exact h.echoes_nil
  · rw [if_neg hc] at he' ⊢
    cases he'
    exact h.echoes_nil

end

/-! ## The end of a line -/

/-- Enter leaves the line in the last row above. -/
theorem enter_printed (hhist : ∀ line ∈ hist.toList, Cells line) (h : Seen size hist prompt t e) :
    ∃ buf, memcpy e.line.len [0] e.line.buf = some buf ∧
      Printed prompt t (t.print crlf)
        (.returned e.line.len buf (histPush (buf.takeWhile (· ≠ 0)) hist)) := by
  obtain ⟨m, hm⟩ := h.shows
  obtain ⟨buf, hcopy, hlen, hterm, -, hpushed⟩ := enter_agrees hm
  have htext := hm.line.text
  have hcells := h.cells
  rw [htext] at hcells
  refine ⟨buf, hcopy, ?_⟩
  rw [Terminal.print_crlf h.on.seq]
  refine ⟨List.prefix_append _ _, ⟨⟨rfl, rfl, rfl⟩, Or.inl ⟨m.text, ?_, hlen, hterm⟩⟩, ?_⟩
  · rw [← htext, ← h.on.row]
    exact List.getLast?_concat
  · intro r b hist' heq line hline
    cases heq
    rw [hpushed, pushed] at hline
    split at hline
    · exact hhist line hline
    · rcases List.mem_cons.mp (List.mem_of_mem_take hline) with rfl | hline
      · exact (hcells.mono (List.takeWhile_subset _)).take _
      · exact hhist line hline

/-- Ctrl-C writes `^C` over what is at the cursor. -/
theorem ctrlC_printed (hhist : ∀ line ∈ hist.toList, Cells line) (h : Seen size hist prompt t e) :
    ∃ buf, memcpy 0 [0] e.line.buf = some buf ∧
      Printed prompt t (t.print ([0x5e, 0x43] ++ crlf)) (.returned 0 buf hist) := by
  obtain ⟨m, hm⟩ := h.shows
  obtain ⟨buf, hcopy, -, hterm, -⟩ := ctrlC_agrees hm
  have hcol := h.on.col
  have hrow := h.on.row
  have hpos := hm.line.pos
  have hin := hm.line.inside
  rw [hm.line.text] at hrow
  have hcell : Cells [0x5e, 0x43] := by decide
  have hle : t.col ≤ t.row.length := by
    rw [hrow, List.length_append]
    omega
  have htake : t.row.take t.col = prompt ++ m.text.take m.cursor := by
    rw [hrow, List.take_append, List.take_of_length_le (by omega)]
    congr 2
    omega
  refine ⟨buf, hcopy, ?_⟩
  rw [Terminal.print_append, Terminal.print_text h.on.seq hcell hle,
    Terminal.print_crlf (by exact h.on.seq)]
  refine ⟨List.prefix_append _ _, ⟨⟨rfl, rfl, rfl⟩, Or.inr
    ⟨m.text.take m.cursor, t.row.drop (t.col + 2), ?_, rfl, hterm⟩⟩, ?_⟩
  · rw [htake]
    simp only [List.getLast?_concat, List.append_assoc, List.length_cons, List.length_nil]
  · intro r b hist' heq
    cases heq
    exact hhist

/-! ## The run -/

/-- The output of one key, and then the rest. -/
theorem printed_before {out : Str} {r : Option (Str × Reading)} {r' : Option Reading}
    (h : Echoes size hist prompt t out e)
    (ih : Seen size hist prompt (t.print out) e → ∃ out' o, r = some (out', o) ∧ r' = some o ∧
      Printed prompt (t.print out) ((t.print out).print out') o) :
    ∃ out' o, before out r = some (out', o) ∧ r' = some o ∧
      Printed prompt t (t.print out') o := by
  obtain ⟨out', o, rfl, ho, hp⟩ := ih h.1
  refine ⟨out ++ out', o, rfl, ho, ?_⟩
  rw [Terminal.print_append]
  exact ⟨h.2.trans hp.above, hp.displays, hp.history⟩

/-- No key comes any more. -/
theorem printed_waits {prompt : Str} {t : Terminal} {e : Edit} (h : Seen size hist prompt t e) :
    ∃ out o, some (([] : Str), Reading.waits e) = some (out, o) ∧ some (Reading.waits e) = some o ∧
      Printed prompt t (t.print out) o := by
  refine ⟨[], .waits e, rfl, rfl, List.prefix_rfl, h.on, ?_⟩
  intro r buf hist he
  cases he

/-- **From any state of the loop**, whatever keys come. -/
theorem lineeditEcho_printed (hprompt : Cells prompt) (hhist : ∀ line ∈ hist.toList, Cells line)
    (hsize : 2 ≤ size) : ∀ (keys : List Key) (tabPending : Bool) (e : Edit) (t : Terminal),
    (∀ key ∈ keys, key.names.Printable) → Seen size hist prompt t e →
      ∃ out o, lineeditEcho hist prompt keys tabPending e = some (out, o) ∧
        lineeditLoop hist keys e = some o ∧ Printed prompt t (t.print out) o
  | [], _, _, _, _, h => printed_waits h
  | key :: keys, tabPending, e, t, hkeys, h => by
    have hrest : ∀ key ∈ keys, key.names.Printable :=
      fun k hk => hkeys k (List.mem_cons_of_mem _ hk)
    have ih := fun pending e' t' => lineeditEcho_printed hprompt hhist hsize keys pending e' t' hrest
    rw [lineeditEcho.eq_def, lineeditLoop.eq_def]
    dsimp only
    by_cases herr : key.code < 0
    · rw [if_pos herr, if_pos herr]
      exact ih tabPending e t h
    rw [if_neg herr, if_neg herr]
    by_cases htab : key.code = 0x09
    · rw [if_pos htab, if_pos htab]
      obtain ⟨r, hr, hecho⟩ := tab_echoes hprompt (hkeys key List.mem_cons_self) h tabPending
      rw [hr, Option.bind_some, Option.bind_some]
      exact printed_before hecho (ih _ _ _)
    rw [if_neg htab, if_neg htab]
    by_cases henter : key.code = 0x0d ∨ key.code = 0x0a
    · rw [if_pos henter, if_pos henter]
      obtain ⟨buf, hcopy, hp⟩ := enter_printed hhist h
      rw [hcopy]
      exact ⟨_, _, rfl, rfl, hp⟩
    rw [if_neg henter, if_neg henter]
    by_cases hback : key.code = 0x7f ∨ key.code = 0x08
    · rw [if_pos hback, if_pos hback]
      obtain ⟨line, hline, hecho⟩ := backspace_echoes hprompt hhist h
      rw [hline, Option.bind_some, Option.bind_some]
      exact printed_before hecho (ih _ _ _)
    rw [if_neg hback, if_neg hback]
    by_cases hctrl : key.code = 0x03
    · rw [if_pos hctrl, if_pos hctrl]
      obtain ⟨buf, hcopy, hp⟩ := ctrlC_printed hhist h
      rw [hcopy]
      exact ⟨_, _, rfl, rfl, hp⟩
    rw [if_neg hctrl, if_neg hctrl]
    by_cases hesc : key.code = 0x1b
    · rw [if_pos hesc, if_pos hesc]
      cases keys with
      | nil => exact printed_waits h
      | cons s₀ keys =>
        cases keys with
        | nil => exact printed_waits h
        | cons s₁ keys =>
          obtain ⟨e', he', hecho⟩ := escape_echoes hprompt hhist hsize h s₀.code s₁.code
          dsimp only
          rw [he', Option.bind_some, Option.bind_some]
          exact printed_before hecho (lineeditEcho_printed hprompt hhist hsize keys _ _ _
            fun k hk => hrest k (List.mem_cons_of_mem _ (List.mem_cons_of_mem _ hk)))
    rw [if_neg hesc, if_neg hesc]
    by_cases hother : key.code < 0x20 ∨ key.code > 0x7e
    · rw [if_pos hother, if_pos hother]
      exact ih false e t h
    rw [if_neg hother, if_neg hother]
    by_cases hroom : e.line.len + 1 ≥ e.line.buf.length
    · rw [if_pos hroom, if_pos hroom]
      exact ih false e t h
    · have hcell : IsCell (UInt8.ofNat key.code.toNat) := by
        rw [IsCell, UInt8.le_iff_toNat_le, UInt8.le_iff_toNat_le, UInt8.toNat_ofNat']
        exact ⟨show 0x20 ≤ _ by omega, show _ ≤ 0x7e by omega⟩
      obtain ⟨line, hline, hecho⟩ := char_echoes hprompt hhist h hroom hcell
      rw [if_neg hroom, if_neg hroom, hline, Option.bind_some, Option.bind_some]
      exact printed_before hecho (ih _ _ _)

/-- **On a terminal with an empty row the line in the buffer is seen**, whatever keys come, and the
output changes nothing of what is read. -/
theorem lineedit_displays (hist : Hist) (prompt : Str) (keys : List Key) (buf : Str) (t : Terminal)
    (hsize : 2 ≤ buf.length) (hprompt : Cells prompt) (hhist : ∀ line ∈ hist.toList, Cells line)
    (hkeys : ∀ key ∈ keys, key.names.Printable) (hrow : t.row = [] ∧ t.col = 0 ∧ t.seq = .none) :
    ∃ out o, lineeditPrint hist prompt keys buf = some (out, o) ∧
      lineeditRead hist keys buf = some o ∧ Printed prompt t (t.print out) o := by
  obtain ⟨hrow, hcol, hseq⟩ := hrow
  obtain ⟨l', hl', hs, hb⟩ := clear_shows (l := ⟨buf, 0, 0⟩) (by simp only; omega)
  obtain ⟨b, hcopy, rfl⟩ := Option.map_eq_some_iff.mp hl'
  have hcopy' : memcpy 0 [0] buf = some b := hcopy
  have hprint := Terminal.print_text hseq hprompt (by omega)
  have hstart : Echoes buf.length hist prompt t prompt ⟨⟨b, 0, 0⟩, 0⟩ := by
    rw [Echoes, hprint]
    refine ⟨⟨⟨⟨[], 0, 0⟩, hs, hb, rfl, Nat.zero_le _⟩, ?_, ⟨hseq, ?_, ?_⟩⟩, List.prefix_rfl⟩
    · exact fun c hc => absurd hc List.not_mem_nil
    · simp [hrow, Line.text]
    · simp [hcol]
  rw [lineeditPrint, lineeditRead, if_neg (by omega), if_neg (by omega), hcopy', Option.bind_some,
    Option.bind_some]
  exact printed_before hstart (lineeditEcho_printed hprompt hhist hsize keys _ _ _ hkeys)

/-- A terminal with nothing on it. -/
def blankScreen : Terminal := ⟨[], [], 0, .none⟩

/-- A key where two commands can be completed. -/
def namedKey (c : Int) : Key :=
  ⟨c, ⟨[[0x61, 0x62], [0x61, 0x63]], [], fun _ => [], fun _ => false, absolute_nil⟩⟩

/-- `a` and two tabs, an arrow to the left and `b`. -/
def listingKeys : List Key := [0x61, 0x09, 0x09, 0x1b, 0x5b, 0x44, 0x62].map namedKey

theorem namedKey_printable (c : Int) : (namedKey c).names.Printable :=
  ⟨by change ∀ name ∈ [[0x61, 0x62], [0x61, 0x63]], Cells name; decide,
    fun mnt h => absurd h List.not_mem_nil, fun dir name h => absurd h List.not_mem_nil⟩

theorem lineedit_displays_listing : ∃ out o,
    lineeditPrint noHist [0x3e] listingKeys [0, 0, 0, 0] = some (out, o) ∧
      lineeditRead noHist listingKeys [0, 0, 0, 0] = some o ∧
      Printed [0x3e] blankScreen (blankScreen.print out) o :=
  lineedit_displays noHist [0x3e] listingKeys [0, 0, 0, 0] blankScreen (by decide) (by decide)
    (by decide)
    (fun _ hkey => by
      obtain ⟨c, -, rfl⟩ := List.mem_map.mp hkey
      exact namedKey_printable c)
    (by decide)

example : (lineeditPrint noHist [0x3e] listingKeys [0, 0, 0, 0]).map (blankScreen.print ·.1) =
    some ⟨[[0x3e, 0x61], [0x61, 0x62], [0x61, 0x63]], [0x3e, 0x62, 0x61], 2, .none⟩ := by
  decide +kernel

end Ittrium.Shell
