import Ittrium.Shell.TabKey
import Ittrium.Vfs.Coherence

/-!
# What the tab key does to a path

The path is cut to 127 characters and its last component, like the names of the directory, to 63.

* `dirName`, `baseName`, `inDir` — the directory of a path, its last component, and the names there
* `namesOf` — what the file systems list
* `Completed` — what must be true of a call
* `tab_completes` — **it is for a word if and only if nothing is cut, and for a path if nothing is**
-/

namespace Ittrium.Shell

open Infra

variable {N : Names} {l l' : Line} {s pre tok post new : Str} {pos : Int}

/-! ## Directories and their names -/

/-- The last component of a path. -/
def baseName (path : Str) : Str := (path.reverse.takeWhile (· ≠ slash)).reverse

/-- What is before its slash. Without one, or with nothing before it, this is the root. -/
def dirName (path : Str) : Str :=
  let dir := path.take (path.length - (baseName path).length - 1)
  if dir = [] then [slash] else dir

/-- The directory with the slash that its entries' paths begin with. -/
def under (dir : Str) : Str := if dir = [slash] then [slash] else dir ++ [slash]

/-- The name of a mount point that lies in the directory. -/
def childOf (dir mnt : Str) : Option Str :=
  let name := mnt.drop (under dir).length
  if under dir <+: mnt ∧ name ≠ [] ∧ slash ∉ name then some name else none

/-- The entries and the mount points of a directory. -/
def inDir (N : Names) (dir : Str) : List Str := N.entries dir ++ N.mounts.filterMap (childOf dir)

theorem lastSlash_none : ∀ {s : Str}, lastSlash s = none → slash ∉ s
  | [], _ => by simp
  | c :: s, h => by
    simp only [lastSlash] at h
    cases hs : lastSlash s with
    | some k => simp [hs] at h
    | none =>
      have hc : ¬ c = slash := by
        intro hc
        simp [hs, hc] at h
      have := lastSlash_none hs
      simp only [List.mem_cons, not_or]
      exact ⟨fun he => hc he.symm, this⟩

theorem lastSlash_some : ∀ {s : Str} {k : Nat}, lastSlash s = some k →
    s = s.take k ++ slash :: s.drop (k + 1) ∧ slash ∉ s.drop (k + 1)
  | [], _, h => by cases h
  | c :: s, k, h => by
    simp only [lastSlash] at h
    cases hs : lastSlash s with
    | some j =>
      obtain ⟨heq, hmem⟩ := lastSlash_some hs
      obtain rfl : j + 1 = k := by simpa [hs] using h
      exact ⟨congrArg (c :: ·) heq, hmem⟩
    | none =>
      by_cases hc : c = slash
      · obtain rfl : 0 = k := by simpa [hs, hc] using h
        exact ⟨by simp [hc], by simpa using lastSlash_none hs⟩
      · simp [hs, hc] at h

theorem baseName_none (h : slash ∉ s) : baseName s = s := by
  have : s.reverse.takeWhile (· ≠ slash) = s.reverse :=
    List.takeWhile_eq_self_iff.mpr fun c hc => by
      have hne : c ≠ slash := fun he => h (he ▸ List.mem_reverse.mp hc)
      simp [hne]
  rw [baseName, this, List.reverse_reverse]

theorem baseName_append {a b : Str} (h : slash ∉ b) : baseName (a ++ slash :: b) = b := by
  have hrev : (a ++ slash :: b).reverse = b.reverse ++ (slash :: a.reverse) := by simp
  rw [baseName, hrev, takeWhile_stop, List.reverse_reverse]
  · intro c hc
    have hne : c ≠ slash := fun he => h (he ▸ List.mem_reverse.mp hc)
    simp [hne]
  · intro c hc
    obtain rfl : slash = c := by simpa using hc
    simp

theorem exists_last_slash (h : slash ∈ s) : ∃ a b, s = a ++ slash :: b ∧ slash ∉ b := by
  cases hk : lastSlash s with
  | none => exact absurd h (lastSlash_none hk)
  | some k => exact ⟨_, _, lastSlash_some hk⟩

/-- `dir` and `pfx`: the last component is cut. -/
theorem splitPath_eq (path : Str) :
    splitPath path = (dirName path, (baseName path).take (Vfs.vfsNameMax - 1)) := by
  unfold splitPath
  cases hk : lastSlash path with
  | none =>
    have hbase := baseName_none (lastSlash_none hk)
    simp [dirName, hbase]
  | some k =>
    obtain ⟨heq, hmem⟩ := lastSlash_some hk
    have hbase : baseName path = path.drop (k + 1) := by
      rw [heq, baseName_append hmem, ← heq]
    have hlen := congrArg List.length heq
    simp only [List.length_append, List.length_cons, List.length_take, List.length_drop] at hlen
    have hdir : path.length - (baseName path).length - 1 = k := by
      rw [hbase, List.length_drop]
      omega
    rw [hbase] at hdir ⊢
    -- a name in the root has `/` as its directory, any other one what stands before the slash
    cases k with
    | zero =>
      have hroot : dirName path = [slash] := by
        rw [dirName, hbase, hdir]
        rfl
      rw [hroot]
      rfl
    | succ k =>
      have hne : path.take (k + 1) ≠ [] := by
        intro h0
        have := congrArg List.length h0
        rw [List.length_take, List.length_nil] at this
        omega
      have hdir' : dirName path = path.take (k + 1) := by
        rw [dirName, hbase, hdir]
        exact if_neg hne
      rw [hdir']
      rfl

/-- `shell_mount_child` finds the name, and cuts it. -/
theorem shellMountChild_eq {dir mnt : Str} (h : Absolute mnt) {sz : Nat} (hsz : 2 ≤ sz) :
    shellMountChild dir mnt sz = (childOf dir mnt).map (·.take (sz - 1)) := by
  have hfirst : ¬ (mnt.head? ≠ some slash ∨ sz < 2) := by
    rw [Absolute] at h
    simp [h]
    omega
  unfold shellMountChild childOf
  rw [if_neg hfirst]
  dsimp only
  by_cases hroot : dir = [slash]
  · obtain ⟨s, rfl⟩ : ∃ s, mnt = slash :: s := by
      cases mnt with
      | nil => cases h
      | cons c s => exact ⟨s, by rw [Option.some.inj h]⟩
    rw [if_pos hroot, under, if_pos hroot]
    by_cases hs : s = [] ∨ slash ∈ s
    · have hs' : ¬ (s ≠ [] ∧ slash ∉ s) := by tauto
      simp [hs, hs']
    · have hs' : s ≠ [] ∧ slash ∉ s := by tauto
      simp [hs']
  · rw [if_neg hroot, under, if_neg hroot]
    -- the two comparisons of the code ask for one prefix
    have hiff : (sameFront dir.length mnt dir = true ∧ mnt[dir.length]? = some slash) ↔
        dir ++ [slash] <+: mnt := by
      rw [sameFront, decide_eq_true_iff, List.take_length, List.prefix_iff_eq_take,
        List.length_append, List.length_singleton]
      constructor
      · rintro ⟨hd, hs⟩
        obtain ⟨hlt, hget⟩ := List.getElem?_eq_some_iff.mp hs
        rw [List.take_succ_eq_append_getElem hlt, hd, hget]
      · intro h
        have hlen := congrArg List.length h
        simp only [List.length_append, List.length_singleton, List.length_take] at hlen
        have hlt : dir.length < mnt.length := by omega
        rw [List.take_succ_eq_append_getElem hlt] at h
        obtain ⟨hd, hs⟩ := List.append_inj' h rfl
        exact ⟨hd.symm, List.getElem?_eq_some_iff.mpr ⟨hlt, (List.cons.inj hs).1.symm⟩⟩
    by_cases hp : dir ++ [slash] <+: mnt
    · rw [if_pos (hiff.mpr hp), Option.bind_some, List.length_append, List.length_singleton]
      by_cases hs : mnt.drop (dir.length + 1) = [] ∨ slash ∈ mnt.drop (dir.length + 1)
      · rw [if_pos hs, if_neg (by tauto), Option.map_none]
      · rw [if_neg hs, if_pos (by tauto), Option.map_some]
    · rw [if_neg (fun h => hp (hiff.mp h)), if_neg (fun h => hp h.1)]
      rfl

theorem listed_eq (N : Names) (dir : Str) :
    listed N dir = (inDir N dir).map (·.take (Vfs.vfsNameMax - 1)) := by
  have hmounts : ∀ ms : List Str, (∀ m ∈ ms, Absolute m) →
      ms.filterMap (fun mnt => shellMountChild dir mnt Vfs.vfsNameMax) =
        (ms.filterMap (childOf dir)).map (·.take (Vfs.vfsNameMax - 1)) := by
    intro ms hms
    rw [List.map_filterMap]
    refine List.filterMap_congr fun m hm => ?_
    rw [shellMountChild_eq (hms m hm) (by decide)]
  rw [listed, inDir, List.map_append, hmounts _ N.absolute]

theorem pathIn_eq (dir name : Str) :
    pathIn dir name = if (under dir ++ name).length < Vfs.vfsPathMax then some (under dir ++ name)
      else none := by
  unfold pathIn under
  by_cases hroot : dir = [slash]
  · rw [if_pos hroot, if_pos hroot]
    simp only [List.length_append, List.length_singleton, ← not_lt, ite_not]
    rfl
  · rw [if_neg hroot, if_neg hroot]
    have hlen : (dir ++ [slash] ++ name).length = dir.length + 1 + name.length := by
      simp only [List.length_append, List.length_singleton]
    have happ : dir ++ [slash] ++ name = dir ++ slash :: name := by
      rw [List.append_assoc, List.singleton_append]
    rw [hlen, happ]
    split
    · rw [if_neg (by omega)]
    · simp only [← not_lt, ite_not]

/-- The first match is kept, and each further one cuts what the matches have in common. -/
theorem foldl_matchUpdate (sz : Nat) (name : Str) (names : List Str) :
    (name :: names).foldl (shellMatchUpdate sz) ⟨[], [], 0⟩ =
      ⟨name.take (sz - 1), names.foldl (fun p t => p.take (agree p t)) (name.take (sz - 1)),
        names.length + 1⟩ := by
  have hrest : ∀ (names : List Str) (p : Str) (k : Nat),
      names.foldl (shellMatchUpdate sz) ⟨name.take (sz - 1), p, k + 1⟩ =
        ⟨name.take (sz - 1), names.foldl (fun p t => p.take (agree p t)) p,
          k + 1 + names.length⟩ := by
    intro names
    induction names with
    | nil => exact fun p k => rfl
    | cons t names ih =>
      intro p k
      have hstep : shellMatchUpdate sz ⟨name.take (sz - 1), p, k + 1⟩ t =
          ⟨name.take (sz - 1), p.take (agree p t), k + 1 + 1⟩ := by
        rw [shellMatchUpdate, if_neg (by simp)]
      rw [List.foldl_cons, hstep, ih, List.foldl_cons, List.length_cons]
      congr 1
      omega
  have hfirst : shellMatchUpdate sz ⟨[], [], 0⟩ name =
      ⟨name.take (sz - 1), name.take (sz - 1), 1⟩ :=
    if_pos rfl
  rw [List.foldl_cons, hfirst, hrest names _ 0, Nat.zero_add, Nat.add_comm]

/-- The path of a match, with a slash if it is a directory and there is room. -/
def matchPath (N : Names) (path : Str) : Str :=
  if N.isDir path ∧ path.length + 1 < Vfs.vfsPathMax ∧ path.getLast? ≠ some slash then
    path ++ [slash]
  else path

section

variable (hl : l.Bounded) (ht : l.text = pre ++ (tok ++ post)) (hz : (0 : Ch) ∉ tok)

include hl ht hz

/-- The matches, by what the code does with them. -/
theorem shellCompletePath_cases (cut typed : Str) (hcut : cut = tok.take (Vfs.vfsPathMax - 1))
    (htyped : typed = (baseName cut).take (Vfs.vfsNameMax - 1)) :
    (matching (listed N (dirName cut)) typed = [] ∧
      Rewrites l pre tok post 0 (shellCompletePath N l pre.length (pre.length + tok.length))) ∨
    (∃ name, matching (listed N (dirName cut)) typed = [name] ∧
      Rewrites l pre (if (under (dirName cut) ++ name).length < Vfs.vfsPathMax then
          put l pre tok post (matchPath N (under (dirName cut) ++ name)) else tok) post 1
        (shellCompletePath N l pre.length (pre.length + tok.length))) ∨
    (∃ p, 2 ≤ (matching (listed N (dirName cut)) typed).length ∧
      LongestPrefix (matching (listed N (dirName cut)) typed) p ∧
      Rewrites l pre (if typed.length < p.length ∧
            (under (dirName cut) ++ p).length < Vfs.vfsPathMax then
          put l pre tok post (under (dirName cut) ++ p) else tok) post
        (matching (listed N (dirName cut)) typed).length
        (shellCompletePath N l pre.length (pre.length + tok.length))) := by
  have hpath := copied_token ht hz (Vfs.vfsPathMax - 1)
  unfold shellCompletePath
  rw [hpath, ← hcut]
  dsimp only
  rw [splitPath_eq, ← htyped]
  dsimp only
  rw [filter_sameFront rfl]
  -- a name that was listed has been cut already
  have hshort : ∀ name ∈ matching (listed N (dirName cut)) typed,
      name.take (Vfs.vfsNameMax - 1) = name := by
    intro name hname
    have hmem := (mem_matching.mp hname).1
    rw [listed_eq] at hmem
    obtain ⟨x, -, rfl⟩ := List.mem_map.mp hmem
    rw [List.take_take, Nat.min_self]
  cases hm : matching (listed N (dirName cut)) typed with
  | nil => exact Or.inl ⟨rfl, rewrites_same hl ht 0⟩
  | cons name names =>
    rw [hm] at hshort
    rw [foldl_matchUpdate, hshort name (by simp)]
    dsimp only
    rw [if_neg (by omega)]
    cases names with
    | nil =>
      refine Or.inr (Or.inl ⟨name, rfl, ?_⟩)
      rw [List.length_nil, if_pos rfl, pathIn_eq]
      by_cases hroom : (under (dirName cut) ++ name).length < Vfs.vfsPathMax
      · rw [if_pos hroom, if_pos hroom]
        exact rewrites_replace hl ht _ 1
      · rw [if_neg hroom, if_neg hroom]
        exact rewrites_same hl ht 1
    | cons name' names =>
      have hp := (LongestPrefix.single name).foldl (name' :: names)
      generalize (name' :: names).foldl (fun p t => p.take (agree p t)) name = p at hp ⊢
      have hone : ¬ (name' :: names).length + 1 = 1 := by
        rw [List.length_cons]
        omega
      refine Or.inr (Or.inr ⟨p, by simp, hp, ?_⟩)
      rw [if_neg hone, pathIn_eq]
      by_cases hlong : typed.length < p.length
      · by_cases hroom : (under (dirName cut) ++ p).length < Vfs.vfsPathMax
        · rw [if_pos hlong, if_pos hroom, if_pos ⟨hlong, hroom⟩]
          exact rewrites_replace hl ht _ _
        · rw [if_pos hlong, if_neg hroom, if_neg fun h => hroom h.2]
          exact rewrites_same hl ht _
      · rw [if_neg hlong, if_neg fun h => hlong h.1]
        exact rewrites_same hl ht _

end

/-- What must become of a path: its last component, and the number of matches. `p` is what the
names that begin with the last component have in common. -/
structure PathCompleted (N : Names) (l : Line) (pre tok post tok' : Str) (n : Nat) : Prop where
  count : n = (matching (inDir N (dirName tok)) (baseName tok)).length
  nothing : matching (inDir N (dirName tok)) (baseName tok) = [] → tok' = tok
  common : ∀ p new, matching (inDir N (dirName tok)) (baseName tok) ≠ [] →
    LongestPrefix (matching (inDir N (dirName tok)) (baseName tok)) p →
    new = p ++ (if (matching (inDir N (dirName tok)) (baseName tok)).length = 1 ∧
      N.isDir (under (dirName tok) ++ p) then [slash] else []) →
    if (under (dirName tok) ++ new).length < Vfs.vfsPathMax ∧
        l.Fits pre (under (dirName tok) ++ new) post then
      ∃ d, (d = [] ∨ d.getLast? = some slash) ∧ tok' = d ++ new
    else tok' = tok

/-- The buffers have room for the path and the names, and for the slash behind a directory. -/
structure PathUncut (N : Names) (l : Line) (pre tok post : Str) : Prop where
  path : tok.length < Vfs.vfsPathMax
  base : (baseName tok).length < Vfs.vfsNameMax
  names : ∀ name ∈ matching (inDir N (dirName tok)) (baseName tok), name.length < Vfs.vfsNameMax
  dir : ∀ name, matching (inDir N (dirName tok)) (baseName tok) = [name] →
    N.isDir (under (dirName tok) ++ name) →
    (under (dirName tok) ++ name).getLast? ≠ some slash ∧
      ((under (dirName tok) ++ name).length + 1 ≠ Vfs.vfsPathMax ∨
        ¬ l.Fits pre (under (dirName tok) ++ name) post ∨ tok = under (dirName tok) ++ name)

/-- A path is what is before its last component, and that component. -/
theorem exists_append_baseName (path : Str) :
    ∃ d, (d = [] ∨ d.getLast? = some slash) ∧ path = d ++ baseName path := by
  by_cases hs : slash ∈ path
  · obtain ⟨a, b, rfl, hb⟩ := exists_last_slash hs
    refine ⟨a ++ [slash], Or.inr (by simp), ?_⟩
    rw [baseName_append hb, List.append_assoc, List.singleton_append]
  · exact ⟨[], Or.inl rfl, by rw [baseName_none hs, List.nil_append]⟩

theorem getLast_under (dir : Str) : (under dir).getLast? = some slash := by
  unfold under
  split <;> simp

/-- Names that are not cut are listed as they are. -/
theorem matching_listed {dir typed : Str} (htyped : typed.length < Vfs.vfsNameMax)
    (h : ∀ name ∈ matching (inDir N dir) typed, name.length < Vfs.vfsNameMax) :
    matching (listed N dir) typed = matching (inDir N dir) typed := by
  have hfilter : matching (listed N dir) typed =
      (matching (inDir N dir) typed).map (·.take (Vfs.vfsNameMax - 1)) := by
    rw [listed_eq, matching, matching, List.filter_map]
    congr 1
    refine List.filter_congr fun name _ => ?_
    rw [Function.comp_apply, Bool.eq_iff_iff, List.isPrefixOf_iff_prefix,
      List.isPrefixOf_iff_prefix, List.prefix_take_iff]
    exact ⟨fun h => h.1, fun h => ⟨h, by omega⟩⟩
  rw [hfilter]
  refine (List.map_congr_left fun name hname => ?_).trans (List.map_id _)
  have := h name hname
  exact List.take_of_length_le (by omega)

/-- A single match. -/
theorem put_match {name : Str} (h : N.isDir (under (dirName tok) ++ name) →
      (under (dirName tok) ++ name).getLast? ≠ some slash ∧
        ((under (dirName tok) ++ name).length + 1 ≠ Vfs.vfsPathMax ∨
          ¬ l.Fits pre (under (dirName tok) ++ name) post ∨ tok = under (dirName tok) ++ name))
    (hnew : new = name ++ if N.isDir (under (dirName tok) ++ name) then [slash] else []) :
    (if (under (dirName tok) ++ name).length < Vfs.vfsPathMax then
        put l pre tok post (matchPath N (under (dirName tok) ++ name)) else tok) =
      if (under (dirName tok) ++ new).length < Vfs.vfsPathMax ∧
          l.Fits pre (under (dirName tok) ++ new) post then
        under (dirName tok) ++ new
      else tok := by
  generalize hpath : under (dirName tok) ++ name = path at h hnew ⊢
  have hnew' : under (dirName tok) ++ new = path ++ if N.isDir path then [slash] else [] := by
    rw [hnew, ← List.append_assoc, hpath]
  rw [hnew']
  by_cases hdir : N.isDir path = true
  · obtain ⟨hlast, hroom⟩ := h hdir
    rw [if_pos hdir, List.length_append, List.length_singleton]
    rcases Nat.lt_trichotomy (path.length + 1) Vfs.vfsPathMax with hlt | heq | hgt
    · rw [if_pos (by omega), matchPath, if_pos ⟨hdir, hlt, hlast⟩, put]
      simp only [hlt, true_and]
    · -- the slash would not fit into the path's buffer
      rw [if_pos (by omega), matchPath, if_neg (by omega), if_neg (by omega)]
      rcases hroom with hne | hfit | htok
      · exact absurd heq hne
      · exact put_of_not_fits hfit
      · rw [put, htok, ite_self]
    · rw [if_neg (by omega), if_neg (by omega)]
  · rw [if_neg hdir, List.append_nil]
    by_cases hlt : path.length < Vfs.vfsPathMax
    · rw [if_pos hlt, matchPath, if_neg (fun h => hdir h.1), put]
      simp only [hlt, true_and]
    · rw [if_neg hlt, if_neg fun h => hlt h.1]

/-- **A path is completed if nothing is cut.** -/
theorem path_completed (hl : l.Bounded) (ht : l.text = pre ++ (tok ++ post))
    (hz : (0 : Ch) ∉ tok) (h : PathUncut N l pre tok post) :
    ∃ tok' n, Rewrites l pre tok' post n
      (shellCompletePath N l pre.length (pre.length + tok.length)) ∧
      PathCompleted N l pre tok post tok' n := by
  have hpath := h.path
  have hbase := h.base
  have hcases := shellCompletePath_cases (N := N) hl ht hz tok (baseName tok)
    (List.take_of_length_le (by omega)).symm (List.take_of_length_le (by omega)).symm
  rw [matching_listed hbase h.names] at hcases
  have hunder := getLast_under (dirName tok)
  rcases hcases with ⟨hm, hr⟩ | ⟨name, hm, hr⟩ | ⟨p, hm, hp, hr⟩
  · refine ⟨_, _, hr, by rw [hm]; rfl, fun _ => rfl, fun p new hne => ?_⟩
    exact absurd hm hne
  · rw [put_match (h.dir name hm) rfl] at hr
    refine ⟨_, _, hr, by rw [hm]; rfl, fun h0 => ?_, fun p new _ hp hnew => ?_⟩
    · simp [hm] at h0
    · rw [hm] at hp hnew
      obtain rfl := hp.unique (LongestPrefix.single name)
      rw [List.length_singleton] at hnew
      simp only [true_and] at hnew
      rw [← hnew]
      by_cases hfit : (under (dirName tok) ++ new).length < Vfs.vfsPathMax ∧
          l.Fits pre (under (dirName tok) ++ new) post
      · rw [if_pos hfit, if_pos hfit]
        exact ⟨_, Or.inr hunder, rfl⟩
      · rw [if_neg hfit, if_neg hfit]
  · refine ⟨_, _, hr, rfl, fun h0 => ?_, fun p' new _ hp' hnew => ?_⟩
    · simp [h0] at hm
    · obtain rfl := hp.unique hp'
      rw [if_neg (by omega), List.append_nil] at hnew
      subst hnew
      have hbp : baseName tok <+: new := hp.longest _ fun s hs => (mem_matching.mp hs).2
      by_cases hfit : (under (dirName tok) ++ new).length < Vfs.vfsPathMax ∧
          l.Fits pre (under (dirName tok) ++ new) post
      · rw [if_pos hfit]
        by_cases hlong : (baseName tok).length < new.length
        · rw [if_pos ⟨hlong, hfit.1⟩, put_of_fits hfit.2]
          exact ⟨_, Or.inr hunder, rfl⟩
        · -- nothing was added to what is typed
          have heq := hbp.eq_of_length (Nat.le_antisymm hbp.length_le (by omega))
          rw [if_neg fun hn => hlong hn.1, ← heq]
          exact exists_append_baseName tok
      · rw [if_neg hfit]
        by_cases hlong : (baseName tok).length < new.length ∧
            (under (dirName tok) ++ new).length < Vfs.vfsPathMax
        · rw [if_pos hlong, put_of_not_fits fun hf => hfit ⟨hlong.2, hf⟩]
        · rw [if_neg hlong]

/-! ## Paths that are too long -/

/-- A directory with one name in it, and nothing else. -/
def oneName (dir name : Str) : Names :=
  ⟨[], [], fun d => if d = dir then [name] else [], fun _ => false, absolute_nil⟩

theorem inDir_oneName (dir name d : Str) :
    inDir (oneName dir name) d = if d = dir then [name] else [] := by
  simp [inDir, oneName]

theorem baseName_append_of_slash {a b : Str} (h : slash ∈ b) : baseName (a ++ b) = baseName b := by
  obtain ⟨u, v, rfl, hv⟩ := exists_last_slash h
  rw [← List.append_assoc, baseName_append hv, baseName_append hv]

theorem baseName_append_of_no_slash {a b : Str} (h : slash ∉ b) :
    baseName (a ++ b) = baseName a ++ b := by
  by_cases ha : slash ∈ a
  · obtain ⟨u, v, rfl, hv⟩ := exists_last_slash ha
    have hvb : slash ∉ v ++ b := fun hm => (List.mem_append.mp hm).elim hv h
    rw [List.append_assoc, List.cons_append, baseName_append hvb, baseName_append hv]
  · rw [baseName_none ha, baseName_none fun hm => (List.mem_append.mp hm).elim ha h]

theorem length_dirName_le (path : Str) : (dirName path).length ≤ max 1 (path.length - 1) := by
  unfold dirName
  dsimp only
  split
  · simp
  · rw [List.length_take]
    omega

/-- A slash behind `a` ends a directory that is at least as long. -/
theorem le_length_dirName {a b : Str} (h : slash ∈ b) (ha : 0 < a.length) :
    a.length ≤ (dirName (a ++ b)).length := by
  have hbase : (baseName b).length < b.length := by
    obtain ⟨u, v, rfl, hv⟩ := exists_last_slash h
    rw [baseName_append hv, List.length_append, List.length_cons]
    omega
  have htake : ((a ++ b).take ((a ++ b).length - (baseName b).length - 1)).length =
      (a ++ b).length - (baseName b).length - 1 := by
    rw [List.length_take]
    omega
  have hlen : (a ++ b).length = a.length + b.length := List.length_append
  unfold dirName
  rw [baseName_append_of_slash h]
  dsimp only
  rw [if_neg, htake]
  · omega
  · intro h0
    rw [h0, List.length_nil] at htake
    omega

theorem slash_not_mem_baseName (path : Str) : slash ∉ baseName path := by
  by_cases hs : slash ∈ path
  · obtain ⟨a, b, rfl, hb⟩ := exists_last_slash hs
    rwa [baseName_append hb]
  · rwa [baseName_none hs]

/-- In the directory of what is left of a path, the last component of the path is longer than what
is left of it. -/
theorem baseName_of_take {path : Str} {k : Nat} (hk : 1 < k) (hlen : k < path.length)
    (hdir : dirName path = dirName (path.take k)) :
    baseName path = baseName (path.take k) ++ path.drop k := by
  have htake : (path.take k).length = k := by
    rw [List.length_take]
    omega
  have hsplit := List.take_append_drop k path
  by_cases hs : slash ∈ path.drop k
  · -- its directory is longer
    have hge := le_length_dirName (a := path.take k) hs (by omega)
    rw [hsplit, hdir] at hge
    have hle := length_dirName_le (path.take k)
    omega
  · rw [← baseName_append_of_no_slash hs, hsplit]

/-- The name that only what is left of the path begins: it differs from what is cut off. -/
theorem exists_otherName (path : Str) (hcut : ¬ (path.length < Vfs.vfsPathMax ∧
    (baseName path).length < Vfs.vfsNameMax)) : ∃ name,
    (baseName (path.take (Vfs.vfsPathMax - 1))).take (Vfs.vfsNameMax - 1) <+: name ∧
      name.length < Vfs.vfsNameMax ∧ name ≠ [] ∧ slash ∉ name ∧
      ¬ (dirName path = dirName (path.take (Vfs.vfsPathMax - 1)) ∧ baseName path <+: name) := by
  have hpmax : Vfs.vfsPathMax = 128 := rfl
  have hnmax : Vfs.vfsNameMax = 64 := rfl
  have hslash := slash_not_mem_baseName (path.take (Vfs.vfsPathMax - 1))
  by_cases hlong : Vfs.vfsNameMax - 1 ≤ (baseName (path.take (Vfs.vfsPathMax - 1))).length
  · have hlen : ((baseName (path.take (Vfs.vfsPathMax - 1))).take (Vfs.vfsNameMax - 1)).length =
        Vfs.vfsNameMax - 1 := by
      rw [List.length_take]
      omega
    refine ⟨_, List.prefix_rfl, by omega, ?_, fun hm => hslash (List.mem_of_mem_take hm), ?_⟩
    · exact List.ne_nil_of_length_pos (by omega)
    · rintro ⟨hdir, hpre⟩
      have hle := hpre.length_le
      have hpath : ¬ path.length < Vfs.vfsPathMax := fun h => hcut ⟨h, by omega⟩
      have hbase := congrArg List.length (baseName_of_take (by omega) (by omega) hdir)
      rw [List.length_append, List.length_drop] at hbase
      omega
  · have hpath : ¬ path.length < Vfs.vfsPathMax := by
      intro h
      rw [List.take_of_length_le (by omega)] at hlong
      exact hcut ⟨h, by omega⟩
    obtain ⟨c, r, hr⟩ := List.exists_cons_of_length_pos
      (show 0 < (path.drop (Vfs.vfsPathMax - 1)).length by rw [List.length_drop]; omega)
    -- a character that is not the first one cut off
    obtain ⟨z, hz, hzs⟩ : ∃ z : Ch, z ≠ c ∧ z ≠ slash := by
      by_cases hc : c = tab
      · exact ⟨blank, by rw [hc]; decide, by decide⟩
      · exact ⟨tab, fun h => hc h.symm, by decide⟩
    refine ⟨baseName (path.take (Vfs.vfsPathMax - 1)) ++ [z], ?_, ?_, by simp, ?_, ?_⟩
    · exact (List.take_prefix _ _).trans (List.prefix_append _ _)
    · rw [List.length_append, List.length_singleton]
      omega
    · simp only [List.mem_append, List.mem_singleton, not_or]
      exact ⟨hslash, fun h => hzs h.symm⟩
    · rintro ⟨hdir, hpre⟩
      rw [baseName_of_take (by omega) (by omega) hdir, hr, List.prefix_append_right_inj,
        List.cons_prefix_cons] at hpre
      exact hz hpre.1.symm

/-! ## What the file systems list -/

section

variable {Fs File ε σ : Type}

/-- The names that `vfs_listdir` stores, from an index on. -/
def listFrom (v : Vfs.VfsState Fs File ε σ) (dir : Str) : Nat → Int → List Str
  | 0, _ => []
  | fuel + 1, idx =>
    match Vfs.vfsListdir dir Vfs.vfsNameMax idx v with
    | some (.name entry) => entry.name :: listFrom v dir fuel entry.idx
    | _ => []

/-- What a completion reads, if no directory has more than `fuel` names. -/
def namesOf (cmds : List Str) (v : Vfs.VfsState Fs File ε σ) (fuel : Nat) : Names where
  cmds := cmds
  mounts := (List.finRange Vfs.vfsMaxMounts).filterMap fun i => (v.mounts i).map (·.path)
  entries := fun dir => listFrom v dir fuel 0
  isDir := fun path =>
    match Vfs.vfsStat path v with
    | .ok st => st.type = .dir
    | .error _ => false
  absolute := by
    intro m hm
    obtain ⟨i, -, hi⟩ := List.mem_filterMap.mp hm
    obtain ⟨mnt, -, rfl⟩ := Option.map_eq_some_iff.mp hi
    exact mnt.absolute

/-- **A file system that lists these names gives these, each cut to the buffer.** -/
theorem entries_namesOf {v : Vfs.VfsState Fs File ε σ} {m : Vfs.Mount Fs File ε σ} {dir rel : Str}
    {names : List Str} (hm : Vfs.findMount dir v.mounts = some (m, rel))
    (h : Vfs.Lists m v.mem rel names) (cmds : List Str) {fuel : Nat} (hfuel : names.length < fuel) :
    (namesOf cmds v fuel).entries dir = names.map (·.take (Vfs.vfsNameMax - 1)) := by
  have hlist : ∀ idx, Vfs.vfsListdir dir Vfs.vfsNameMax idx v =
      Vfs.listAt m rel Vfs.vfsNameMax idx v.mem := by
    intro idx
    rw [Vfs.vfsListdir, hm]
  -- from the index `k` on, which needs as many steps as names are left
  have hrest : ∀ fuel k : Nat, names.length < k + fuel →
      listFrom v dir fuel k = (names.drop k).map (·.take (Vfs.vfsNameMax - 1)) := by
    intro fuel
    induction fuel with
    | zero =>
      intro k hk
      rw [List.drop_of_length_le (by omega)]
      rfl
    | succ fuel ih =>
      intro k hk
      rw [listFrom, hlist]
      by_cases hlt : k < names.length
      · rw [h.each Vfs.vfsNameMax k names[k] (by decide) (List.getElem?_eq_getElem hlt)]
        have hnext := ih (k + 1) (by omega)
        push_cast at hnext
        dsimp only
        rw [hnext, List.drop_eq_getElem_cons hlt, List.map_cons]
      · have hno : ∀ entry, Vfs.listAt m rel Vfs.vfsNameMax k v.mem ≠ some (.name entry) := by
          intro entry he
          obtain ⟨k', hk', hlt', -⟩ := h.only _ _ _ he
          omega
        rw [List.drop_of_length_le (by omega)]
        split
        · rename_i he
          exact absurd he (hno _)
        · rfl
  have := hrest fuel 0 (by omega)
  rwa [List.drop_zero] at this

end

/-! ## A call -/

/-- A word is completed as a command, and a later one as a path. -/
def Completed (N : Names) (l : Line) (pre tok post : Str) : Prop :=
  ∃ tok' n, Rewrites l pre tok' post n (shellCompleteCmds N l) ∧
    if pre.all isBlank then WordCompleted N l pre tok post tok' n
    else PathCompleted N l pre tok post tok' n

theorem shellCompleteCmds_eq (hl : l.Bounded) (h : TokenAt l.text l.pos pre tok post) :
    shellCompleteCmds N l =
      if pre.all isBlank then shellCompleteCmdword N l pre.length (pre.length + tok.length)
      else shellCompletePath N l pre.length (pre.length + tok.length) := by
  have hfirst : shellTokenIsFirst l.buf pre.length = pre.all isBlank := by
    have hpre : pre <+: l.buf := by
      have ht : l.text <+: l.buf := List.take_prefix _ _
      rw [h.eq] at ht
      exact (List.prefix_append _ _).trans ht
    rw [shellTokenIsFirst, ← List.prefix_iff_eq_take.mp hpre]
  have hnonneg := hl.nonneg
  have hroom := hl.room
  unfold shellCompleteCmds
  rw [if_neg (by omega), shellTokenAt_spec hl h]
  dsimp only
  rw [hfirst]

/-- For each path that is cut there is a directory for which the completion is wrong. -/
theorem path_cut (hl : l.Bounded) (ht : l.text = pre ++ (tok ++ post)) (hz : (0 : Ch) ∉ tok)
    (hcut : ¬ (tok.length < Vfs.vfsPathMax ∧ (baseName tok).length < Vfs.vfsNameMax)) :
    ∃ dir name, name ≠ [] ∧ slash ∉ name ∧ name.length < Vfs.vfsNameMax ∧
      ¬ ∃ tok' n, Rewrites l pre tok' post n
        (shellCompletePath (oneName dir name) l pre.length (pre.length + tok.length)) ∧
        PathCompleted (oneName dir name) l pre tok post tok' n := by
  obtain ⟨name, hpre, hlen, hne, hs, hother⟩ := exists_otherName tok hcut
  refine ⟨dirName (tok.take (Vfs.vfsPathMax - 1)), name, hne, hs, hlen, ?_⟩
  rintro ⟨tok', n, hr, h⟩
  generalize hcutdef : tok.take (Vfs.vfsPathMax - 1) = cut at *
  -- what is left of the path has one match
  have hone : matching (listed (oneName (dirName cut) name) (dirName cut))
      ((baseName cut).take (Vfs.vfsNameMax - 1)) = [name] := by
    rw [listed_eq, inDir_oneName, if_pos rfl, List.map_singleton,
      List.take_of_length_le (by omega), matching,
      List.filter_cons_of_pos (List.isPrefixOf_iff_prefix.mpr hpre), List.filter_nil]
  -- and the path has none
  have hnone : matching (inDir (oneName (dirName cut) name) (dirName tok)) (baseName tok) = [] := by
    rw [inDir_oneName]
    by_cases hdir : dirName tok = dirName cut
    · rw [if_pos hdir, matching,
        List.filter_cons_of_neg fun hp => hother ⟨hdir, List.isPrefixOf_iff_prefix.mp hp⟩,
        List.filter_nil]
    · rw [if_neg hdir]
      rfl
  have hcount := h.count
  rw [hnone, List.length_nil] at hcount
  have hcases := shellCompletePath_cases (N := oneName (dirName cut) name) hl ht hz cut _
    hcutdef.symm rfl
  rcases hcases with
    ⟨hm, -⟩ | ⟨_, -, hr'⟩ | ⟨_, hm, -⟩
  · rw [hone] at hm
    cases hm
  · have := (hr.unique hr').2
    omega
  · rw [hone] at hm
    simp at hm

/-- **A word is completed if and only if nothing is cut, and a path if nothing is. For each path
that is cut itself there is a directory for which the completion is wrong.** -/
theorem tab_completes (N : Names) (hl : l.Bounded) (hz : (0 : Ch) ∉ l.text)
    (h : TokenAt l.text l.pos pre tok post) :
    (pre.all isBlank = true → (Completed N l pre tok post ↔ WordUncut N l pre tok post)) ∧
    (pre.all isBlank = false → (PathUncut N l pre tok post → Completed N l pre tok post) ∧
      (¬ (tok.length < Vfs.vfsPathMax ∧ (baseName tok).length < Vfs.vfsNameMax) →
        ∃ dir name, name ≠ [] ∧ slash ∉ name ∧ name.length < Vfs.vfsNameMax ∧
          ¬ Completed (oneName dir name) l pre tok post)) := by
  have hztok : (0 : Ch) ∉ tok := by
    intro h0
    rw [h.eq] at hz
    exact hz (by simp [h0])
  have hb : blank ∉ tok := fun hmem => by simpa [isBlank] using h.word blank hmem
  unfold Completed
  simp only [shellCompleteCmds_eq hl h]
  constructor
  · intro hfirst
    simp only [hfirst, if_true]
    exact word_completed_iff hl h.eq hztok hb
  · intro hfirst
    simp only [hfirst, Bool.false_eq_true, if_false]
    exact ⟨path_completed hl h.eq hztok, path_cut hl h.eq hztok⟩

/-- `help` and `load`, and `dev` in the root. -/
def fewNames : Names :=
  ⟨[[0x68, 0x65, 0x6c, 0x70], [0x6c, 0x6f, 0x61, 0x64]], [[slash]],
    fun dir => if dir = [slash] then [[0x64, 0x65, 0x76]] else [],
    fun path => path = [slash] ++ [0x64, 0x65, 0x76], by decide⟩

theorem no_blank (h : (tok.all fun c => !isBlank c) = true) : ∀ c ∈ tok, isBlank c = false := by
  intro c hc
  simpa using List.all_eq_true.mp h c hc

/-- `l`, and `l /d`. -/
def wordLine : Line := ⟨[0x6c, 0, 0, 0, 0, 0, 0, 0], 1, 1⟩
def pathLine : Line := ⟨[0x6c, blank, slash, 0x64, 0, 0, 0, 0, 0], 4, 4⟩

theorem tokenAt_wordLine : TokenAt wordLine.text wordLine.pos [] [0x6c] [] :=
  ⟨by decide, no_blank (by decide), by simp, by simp, by decide, by decide⟩

theorem tokenAt_pathLine :
    TokenAt pathLine.text pathLine.pos [0x6c, blank] [slash, 0x64] [] := by
  refine ⟨by decide, no_blank (by decide), ?_, by simp, by decide, by decide⟩
  rintro c ⟨⟩
  rfl

theorem wordUncut_wordLine : WordUncut fewNames wordLine [] [0x6c] [] := by
  have hm : matching fewNames.cmds [0x6c] = [[0x6c, 0x6f, 0x61, 0x64]] := by decide
  refine ⟨by decide, fun name h1 => ?_, fun p h2 => ?_⟩
  · obtain rfl : [0x6c, 0x6f, 0x61, 0x64] = name := by simpa [hm] using h1
    exact Or.inl (by decide)
  · rw [hm] at h2
    exact absurd h2 (by decide)

theorem pathUncut_pathLine : PathUncut fewNames pathLine [0x6c, blank] [slash, 0x64] [] := by
  have hm : matching (inDir fewNames (dirName [slash, 0x64])) (baseName [slash, 0x64]) =
      [[0x64, 0x65, 0x76]] := by
    decide
  refine ⟨by decide, by decide, ?_, fun name h1 _ => ?_⟩
  · rw [hm]
    decide
  · obtain rfl : [0x64, 0x65, 0x76] = name := by simpa [hm] using h1
    exact ⟨by decide, Or.inl (by decide)⟩

theorem tab_completes_few :
    Completed fewNames wordLine [] [0x6c] [] ∧
      Completed fewNames pathLine [0x6c, blank] [slash, 0x64] [] :=
  ⟨((tab_completes fewNames ⟨by decide, by decide⟩ (by decide) tokenAt_wordLine).1 rfl).mpr
      wordUncut_wordLine,
    ((tab_completes fewNames ⟨by decide, by decide⟩ (by decide) tokenAt_pathLine).2 rfl).1
      pathUncut_pathLine⟩

/-! ## A name of 63 characters -/

/-- A mount point `/aa…a`, of which each character is looked at. -/
def longMount : Str := slash :: List.replicate 63 0x61

def longNames : Names := ⟨[], [longMount], fun _ => [], fun path => path = longMount, by decide⟩

/-- `ls /aa…ab`, with one character more. -/
def longLine : Line :=
  ⟨[0x6c, 0x73, blank] ++ (longMount ++ [0x62]) ++ List.replicate 124 0, 68, 68⟩

/-- **The last character is taken away.** -/
theorem tab_takes_away :
    longLine.Bounded ∧ (0 : Ch) ∉ longLine.text ∧
      TokenAt longLine.text longLine.pos [0x6c, 0x73, blank] (longMount ++ [0x62]) [] ∧
      (shellCompleteCmds longNames longLine).map (fun r => (r.1.text, r.2)) =
        some ([0x6c, 0x73, blank] ++ (longMount ++ [slash]), 1) ∧
      ¬ Completed longNames longLine [0x6c, 0x73, blank] (longMount ++ [0x62]) [] := by
  have hcall : (shellCompleteCmds longNames longLine).map (fun r => (r.1.text, r.2)) =
      some ([0x6c, 0x73, blank] ++ (longMount ++ [slash]), 1) := by
    decide +kernel
  refine ⟨⟨by decide, by decide +kernel⟩, by decide +kernel, ⟨by decide +kernel,
    no_blank (by decide +kernel), ?_, ?_, by decide +kernel, by decide +kernel⟩, hcall, ?_⟩
  · rintro c ⟨⟩
    rfl
  · rintro c ⟨⟩
  · rintro ⟨tok', n, ⟨l', hr, -⟩, h⟩
    rw [hr, Option.map_some] at hcall
    have hone : n = 1 := (Prod.mk.inj (Option.some.inj hcall)).2
    have hfirst : ([0x6c, 0x73, blank] : Str).all isBlank = false := by decide
    rw [hfirst, if_neg (by decide)] at h
    have hnone : (matching (inDir longNames (dirName (longMount ++ [0x62])))
        (baseName (longMount ++ [0x62]))).length = 0 := by
      decide +kernel
    have := h.count
    omega

end Ittrium.Shell
