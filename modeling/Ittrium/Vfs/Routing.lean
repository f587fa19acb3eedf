import Ittrium.Vfs.Calls
import Mathlib.Tactic.Basic

/-!
# Which mount a path goes to

`path_eq_prefix` looks for a slash behind the mount point, also where the mount point ends with one.

* `RoutesTo` — the longest mount point above a path, and the rest of the path
* `findMount_congr` — the order of the mounts does not matter
* `mount_routing` — **paths are routed right just if no mount point but the root ends with a slash**
-/

namespace Ittrium.Vfs

open Infra

variable {Fs File ε σ : Type} {v w : VfsState Fs File ε σ} {m m' : Mount Fs File ε σ}
  {mounts : MountIx → Option (Mount Fs File ε σ)} {path mnt rel s : Str}

/-! ## What routing is for -/

/-- The mount `m` is in the table. -/
def VfsState.Mounted (v : VfsState Fs File ε σ) (m : Mount Fs File ε σ) : Prop :=
  ∃ i, v.mounts i = some m

/-- A path goes to the longest mount point above it, with the rest of the path. -/
structure RoutesTo (v : VfsState Fs File ε σ) (path : Str) (m : Mount Fs File ε σ) (rel : Str) :
    Prop where
  mounted : v.Mounted m
  anc : Anc m.path path
  longest : ∀ m', v.Mounted m' → Anc m'.path path → m'.path.length ≤ m.path.length
  rest : rel = below m.path path

/-- `find_mount` finds where the path goes, or there is no mount point above it. -/
def Routed (v : VfsState Fs File ε σ) (path : Str) : Prop :=
  (∃ m rel, findMount path v.mounts = some (m, rel) ∧ RoutesTo v path m rel) ∨
    findMount path v.mounts = none ∧ ∀ m, v.Mounted m → ¬ Anc m.path path

/-- `vfs_stat`, `vfs_listdir` and `vfs_open` of `path` go to the mount `m`, with `rel`. -/
structure Reaches (v : VfsState Fs File ε σ) (path : Str) (m : Mount Fs File ε σ) (rel : Str) :
    Prop where
  stat : vfsStat path v = statAt m rel v.mem
  list : ∀ nlen idx, vfsListdir path nlen idx v = listAt m rel nlen idx v.mem
  picks : ∀ p, pickFd path v = some p → p.mount = m ∧ p.rel = rel

/-- No mount point but the root ends with a slash. -/
def VfsState.Unslashed (v : VfsState Fs File ε σ) : Prop :=
  ∀ m, v.Mounted m → m.path = [slash] ∨ ¬ Slashed m.path

/-! ## What the code compares -/

theorem pathEqPrefix_iff : pathEqPrefix path mnt = true ↔
    mnt ≠ [] ∧ ∃ s, path = mnt ++ s ∧ (s = [] ∨ mnt = [slash] ∨ s.head? = some slash) := by
  unfold pathEqPrefix
  simp only [Bool.and_eq_true, Bool.or_eq_true, decide_eq_true_eq, List.isPrefixOf_iff_prefix,
    List.length_pos_iff]
  constructor
  · intro h
    obtain ⟨⟨hne, hp⟩, h⟩ := h
    obtain ⟨s, rfl⟩ := hp
    refine ⟨hne, s, rfl, ?_⟩
    rcases h with (h | h) | h
    · exact Or.inr (Or.inl h)
    · exact Or.inl (by simpa using h)
    · refine Or.inr (Or.inr ?_)
      rw [List.getElem?_append_right (le_refl _), Nat.sub_self] at h
      rw [List.head?_eq_getElem?, h]
  · rintro ⟨hne, s, rfl, h⟩
    refine ⟨⟨hne, s, rfl⟩, ?_⟩
    rcases h with rfl | h | h
    · exact Or.inl (Or.inr (by simp))
    · exact Or.inl (Or.inl h)
    · refine Or.inr ?_
      rw [List.getElem?_append_right (le_refl _), Nat.sub_self, ← List.head?_eq_getElem?, h]

/-- What the code takes for a directory above a path is one. -/
theorem anc_of_pathEqPrefix (h : pathEqPrefix path mnt = true) : Anc mnt path := by
  obtain ⟨-, s, rfl, hs⟩ := pathEqPrefix_iff.mp h
  refine anc_append.mpr ?_
  rcases hs with hs | hs | hs
  · exact Or.inl hs
  · exact Or.inr (Or.inl (hs ▸ rfl))
  · exact Or.inr (Or.inr hs)

/-- The code misses only what is below a mount point that ends with a slash. -/
theorem pathEqPrefix_of_anc (h : Anc mnt path) (hne : mnt ≠ [])
    (hm : mnt = [slash] ∨ ¬ Slashed mnt) : pathEqPrefix path mnt = true := by
  obtain ⟨s, rfl, hs⟩ := h
  refine pathEqPrefix_iff.mpr ⟨hne, s, rfl, ?_⟩
  rcases hs with hs | hs | hs
  · exact Or.inl hs
  · exact Or.inr (Or.inl (hm.resolve_right (not_not_intro hs)))
  · exact Or.inr (Or.inr hs)

theorem relPath_eq (h : pathEqPrefix path mnt = true) (hm : mnt = [slash] ∨ ¬ Slashed mnt) :
    relPath mnt path = below mnt path := by
  obtain ⟨-, s, rfl, hs⟩ := pathEqPrefix_iff.mp h
  unfold relPath below
  by_cases hroot : mnt = [slash]
  · subst hroot
    rfl
  · have hend := hm.resolve_left hroot
    rw [if_neg hroot, if_neg hend]
    rcases hs with rfl | hs | hs
    · simp
    · exact absurd hs hroot
    · rw [if_pos]
      rw [List.getElem?_append_right (le_refl _), Nat.sub_self, ← List.head?_eq_getElem?, hs]

/-! ## The search -/

/-- The best mount for `path` among those with an index in `seen`. -/
structure Best (path : Str) (mounts : MountIx → Option (Mount Fs File ε σ)) (seen : List MountIx)
    (best : Option (MountIx × Mount Fs File ε σ)) : Prop where
  found : ∀ i m, best = some (i, m) → mounts i = some m ∧ pathEqPrefix path m.path = true
  longest : ∀ i ∈ seen, ∀ m, mounts i = some m → pathEqPrefix path m.path = true →
    ∃ j m', best = some (j, m') ∧ m.path.length ≤ m'.path.length

theorem Best.nil (path : Str) (mounts : MountIx → Option (Mount Fs File ε σ)) :
    Best path mounts [] none where
  found := fun _ _ h => absurd h (by simp)
  longest := fun _ h => absurd h List.not_mem_nil

theorem Best.step {seen : List MountIx} {best : Option (MountIx × Mount Fs File ε σ)}
    (h : Best path mounts seen best) (i : MountIx) :
    Best path mounts (seen ++ [i]) (betterMount path mounts best i) := by
  -- a mount that does not replace the best one leaves it as long as all others
  have hkeep : (∀ m, mounts i = some m → pathEqPrefix path m.path = true →
      ∃ j m', best = some (j, m') ∧ m.path.length ≤ m'.path.length) →
      Best path mounts (seen ++ [i]) best := by
    intro hi
    refine ⟨h.found, fun j hj => ?_⟩
    rcases List.mem_append.mp hj with hj | hj
    · exact h.longest j hj
    · rw [List.mem_singleton.mp hj]
      exact hi
  unfold betterMount
  cases hm : mounts i with
  | none => exact hkeep fun m hm' => absurd (hm.symm.trans hm') (by simp)
  | some m =>
    dsimp only
    have heq : ∀ m', mounts i = some m' → m' = m := fun m' hm' =>
      Option.some.inj (hm'.symm.trans hm)
    by_cases hp : pathEqPrefix path m.path = true
    · rw [if_neg (by simp [hp])]
      by_cases hb : (best.all fun b => decide (b.2.path.length < m.path.length)) = true
      · rw [if_pos hb]
        refine ⟨fun j m' he => ?_, fun j hj m' hj' hp' => ⟨i, m, rfl, ?_⟩⟩
        · obtain ⟨rfl, rfl⟩ := Prod.mk.inj (Option.some.inj he)
          exact ⟨hm, hp⟩
        · rcases List.mem_append.mp hj with hj | hj
          · obtain ⟨k, b, rfl, hle⟩ := h.longest j hj m' hj' hp'
            have hlt : b.path.length < m.path.length := by simpa using hb
            omega
          · rw [List.mem_singleton.mp hj] at hj'
            rw [heq m' hj']
      · rw [if_neg hb]
        refine hkeep fun m' hm' _ => ?_
        cases best with
        | none => simp at hb
        | some b =>
          refine ⟨b.1, b.2, rfl, ?_⟩
          rw [heq m' hm']
          simpa using hb
    · rw [if_pos (by simpa using hp)]
      exact hkeep fun m' hm' hp' => absurd (heq m' hm' ▸ hp') hp

theorem Best.foldl (l : List MountIx) : ∀ {seen : List MountIx}
    {best : Option (MountIx × Mount Fs File ε σ)}, Best path mounts seen best →
    Best path mounts (seen ++ l) (l.foldl (betterMount path mounts) best) := by
  induction l with
  | nil => intro seen best h; rwa [List.append_nil]
  | cons i l ih =>
    intro seen best h
    have := ih (h.step i)
    rwa [List.append_assoc] at this

/-- What `find_mount` has found. -/
structure Found (path : Str) (mounts : MountIx → Option (Mount Fs File ε σ))
    (m : Mount Fs File ε σ) (rel : Str) : Prop where
  absolute : Absolute path
  mounted : ∃ i, mounts i = some m
  matched : pathEqPrefix path m.path = true
  longest : ∀ i m', mounts i = some m' → pathEqPrefix path m'.path = true →
    m'.path.length ≤ m.path.length
  rest : rel = relPath m.path path

theorem findMount_some (h : findMount path mounts = some (m, rel)) : Found path mounts m rel := by
  unfold findMount at h
  split at h
  · cases h
  · next habs =>
    have hbest := Best.foldl (List.finRange vfsMaxMounts) (Best.nil path mounts)
    obtain ⟨⟨i, b⟩, hb, he⟩ := Option.map_eq_some_iff.mp h
    obtain ⟨rfl, rfl⟩ := Prod.mk.inj he
    obtain ⟨hi, hp⟩ := hbest.found i b hb
    refine ⟨not_not.mp habs, ⟨i, hi⟩, hp, fun j m' hj hp' => ?_, rfl⟩
    obtain ⟨k, b', hk, hle⟩ := hbest.longest j (by simp) m' hj hp'
    obtain ⟨-, rfl⟩ := Prod.mk.inj (Option.some.inj (hk.symm.trans hb))
    exact hle

theorem findMount_none (h : findMount path mounts = none) (habs : Absolute path) {i : MountIx}
    (hi : mounts i = some m) : ¬ pathEqPrefix path m.path = true := by
  intro hp
  unfold findMount at h
  rw [if_neg (not_not_intro habs)] at h
  have hbest := Best.foldl (List.finRange vfsMaxMounts) (Best.nil path mounts)
  obtain ⟨j, m', hj, -⟩ := hbest.longest i (by simp) m hi hp
  rw [Option.map_eq_none_iff] at h
  rw [h] at hj
  cases hj

/-! ## Tables -/

/-- No path is mounted twice. -/
def VfsState.Distinct (v : VfsState Fs File ε σ) : Prop :=
  ∀ i j m m', v.mounts i = some m → v.mounts j = some m' → m.path = m'.path → i = j

/-- `vfs_mount` and `vfs_umount`, with their arguments. -/
inductive MountCall (Fs File ε σ : Type) where
  | mount (path : Str) (ops : FileOps Fs File ε σ) (fs : Fs)
  | umount (path : Str)

def MountCall.call : MountCall Fs File ε σ → VfsState Fs File ε σ → Int × VfsState Fs File ε σ
  | .mount path ops fs => vfsMount path ops fs
  | .umount path => vfsUmount path

/-- The calls are made one after the other. -/
def mountAll (calls : List (MountCall Fs File ε σ)) (v : VfsState Fs File ε σ) :
    VfsState Fs File ε σ := calls.foldl (fun v c => (c.call v).2) v

/-- What a call does: it fails and changes nothing, or it adds or removes one mount. -/
theorem MountCall.call_cases (c : MountCall Fs File ε σ) (v : VfsState Fs File ε σ) :
    c.call v = (-1, v) ∨
      (∃ i m, v.mounts i = none ∧ (∀ j m', v.mounts j = some m' → m'.path ≠ m.path) ∧
        c.call v = (0, { v with mounts := Function.update v.mounts i (some m) })) ∨
      ∃ i, c.call v = (0, { v with mounts := Function.update v.mounts i none }) := by
  cases c with
  | mount path ops fs =>
    show vfsMount path ops fs v = _ ∨ (∃ i m, _ ∧ _ ∧ vfsMount path ops fs v = _) ∨
      ∃ i, vfsMount path ops fs v = _
    unfold vfsMount
    split
    · by_cases hany : ((List.finRange vfsMaxMounts).any fun i =>
          (v.mounts i).any fun m => m.path = path) = true
      · exact Or.inl (if_pos hany)
      · rw [if_neg hany]
        cases hfree : (List.finRange vfsMaxMounts).find? fun i => (v.mounts i).isNone with
        | none => exact Or.inl rfl
        | some i =>
          refine Or.inr (Or.inl ⟨i, _, ?_, fun j m' hj hp => hany ?_, rfl⟩)
          · simpa using List.find?_some hfree
          · rw [List.any_eq_true]
            exact ⟨j, by simp, by rw [hj]; simpa using hp⟩
    · exact Or.inl rfl
  | umount path =>
    show vfsUmount path v = _ ∨ (∃ i m, _ ∧ _ ∧ vfsUmount path v = _) ∨ ∃ i, vfsUmount path v = _
    unfold vfsUmount
    split
    · exact Or.inr (Or.inr ⟨_, rfl⟩)
    · exact Or.inl rfl

theorem MountCall.distinct {c : MountCall Fs File ε σ} (h : v.Distinct) : (c.call v).2.Distinct := by
  rcases c.call_cases v with he | ⟨i, m, -, hnew, he⟩ | ⟨i, he⟩ <;> rw [he]
  · exact h
  · intro j k mj mk hj hk hp
    dsimp only at hj hk
    by_cases hji : j = i
    · by_cases hki : k = i
      · rw [hji, hki]
      · rw [hji, Function.update_self] at hj
        rw [Function.update_of_ne hki] at hk
        cases hj
        exact absurd hp.symm (hnew k mk hk)
    · rw [Function.update_of_ne hji] at hj
      by_cases hki : k = i
      · rw [hki, Function.update_self] at hk
        cases hk
        exact absurd hp (hnew j mj hj)
      · rw [Function.update_of_ne hki] at hk
        exact h j k mj mk hj hk hp
  · intro j k mj mk hj hk hp
    have hkeep : ∀ {j m}, Function.update v.mounts i none j = some m → v.mounts j = some m := by
      intro j m hj
      by_cases hji : j = i
      · rw [hji, Function.update_self] at hj
        cases hj
      · rwa [Function.update_of_ne hji] at hj
    exact h j k mj mk (hkeep hj) (hkeep hk) hp

theorem mountAll_distinct (calls : List (MountCall Fs File ε σ)) :
    ∀ {v : VfsState Fs File ε σ}, v.Distinct → (mountAll calls v).Distinct := by
  induction calls with
  | nil => exact fun h => h
  | cons c calls ih => exact fun h => ih (MountCall.distinct h)

theorem vfsInit_distinct (mem : σ) : (vfsInit mem : VfsState Fs File ε σ).Distinct :=
  fun _ _ _ _ h => absurd h (by simp [vfsInit])

/-! ## Routes -/

/-- With distinct mount points there is one longest match. -/
theorem findMount_of_found (hv : v.Distinct) (h : Found path v.mounts m rel) :
    findMount path v.mounts = some (m, rel) := by
  obtain ⟨i, hi⟩ := h.mounted
  cases hf : findMount path v.mounts with
  | none => exact absurd h.matched (findMount_none hf h.absolute hi)
  | some b =>
    obtain ⟨m', rel'⟩ := b
    have h' := findMount_some hf
    obtain ⟨j, hj⟩ := h'.mounted
    have hlen : m.path.length = m'.path.length :=
      Nat.le_antisymm (h'.longest i m hi h.matched) (h.longest j m' hj h'.matched)
    have hpre := (anc_of_pathEqPrefix h.matched).comparable (anc_of_pathEqPrefix h'.matched) hlen.le
    obtain rfl := hv i j m m' hi hj (hpre.eq_of_length hlen)
    obtain rfl := Option.some.inj (hi.symm.trans hj)
    rw [h.rest, h'.rest]

/-- **The order of the mounts does not matter.** -/
theorem findMount_congr (hv : v.Distinct) (hw : w.Distinct)
    (hsame : ∀ m, v.Mounted m ↔ w.Mounted m) (path : Str) :
    findMount path v.mounts = findMount path w.mounts := by
  have hfound : ∀ {v w : VfsState Fs File ε σ} {m rel}, (∀ m, v.Mounted m ↔ w.Mounted m) →
      Found path v.mounts m rel → Found path w.mounts m rel := fun hsame h =>
    ⟨h.absolute, (hsame _).mp h.mounted, h.matched,
      fun i m' hi => let ⟨j, hj⟩ := (hsame m').mpr ⟨i, hi⟩; h.longest j m' hj, h.rest⟩
  cases hf : findMount path v.mounts with
  | some b => exact (findMount_of_found hw (hfound hsame (findMount_some hf))).symm
  | none =>
    cases hg : findMount path w.mounts with
    | none => rfl
    | some b =>
      have hback := findMount_of_found hv (hfound (fun m => (hsame m).symm) (findMount_some hg))
      rw [hf] at hback
      cases hback

/-- Without a slash at the end of a mount point all paths are routed right. -/
theorem routed_of_unslashed (h : v.Unslashed) (habs : Absolute path) : Routed v path := by
  have hmatch : ∀ m, v.Mounted m → Anc m.path path → pathEqPrefix path m.path = true := by
    intro m hm hanc
    refine pathEqPrefix_of_anc hanc (fun hnil => ?_) (h m hm)
    have := m.absolute
    rw [hnil] at this
    cases this
  cases hf : findMount path v.mounts with
  | none =>
    refine Or.inr ⟨hf, fun m hm hanc => ?_⟩
    obtain ⟨i, hi⟩ := hm
    exact findMount_none hf habs hi (hmatch m ⟨i, hi⟩ hanc)
  | some b =>
    obtain ⟨m, rel⟩ := b
    have hfound := findMount_some hf
    refine Or.inl ⟨m, rel, hf, hfound.mounted, anc_of_pathEqPrefix hfound.matched, ?_, ?_⟩
    · rintro m' ⟨i, hi⟩ hanc
      exact hfound.longest i m' hi (hmatch m' ⟨i, hi⟩ hanc)
    · rw [hfound.rest, relPath_eq hfound.matched (h m hfound.mounted)]

/-- A file below a mount point that ends with a slash is not found there. -/
theorem not_routed_of_slashed (hm : v.Mounted m) (hroot : m.path ≠ [slash])
    (hend : Slashed m.path) : ∃ path, Absolute path ∧ ¬ Routed v path := by
  -- no mount point reaches into the long name behind `m.path`
  let name : Str := List.replicate vfsPathMax 0x61
  have hanc : Anc m.path (m.path ++ name) := anc_append.mpr (Or.inr (Or.inl hend))
  have hne : m.path ≠ [] := by
    intro hnil
    have := m.absolute
    rw [hnil] at this
    cases this
  refine ⟨m.path ++ name, ?_, ?_⟩
  · have := m.absolute
    unfold Absolute at this ⊢
    rwa [List.head?_append_of_ne_nil _ hne]
  rintro (⟨m', rel, hf, hr⟩ | ⟨-, hno⟩)
  · have hp := (findMount_some hf).matched
    obtain ⟨t, ht⟩ := hanc.comparable hr.anc (hr.longest m hm hanc)
    obtain ⟨-, s, he, hs⟩ := pathEqPrefix_iff.mp hp
    rw [← ht, List.append_assoc] at he
    have hname : name = t ++ s := List.append_cancel_left he
    rcases hs with rfl | hs | hs
    · rw [List.append_nil] at hname
      have hlen := congrArg List.length ht
      rw [List.length_append, ← hname, List.length_replicate] at hlen
      have := m'.short
      omega
    · rw [hs] at ht
      rcases List.append_eq_cons_iff.mp ht with ⟨h, -⟩ | ⟨l, h, hl⟩
      · exact hne h
      · rw [(List.append_eq_nil_iff.mp hl.symm).1] at h
        exact hroot h
    · have hmem : slash ∈ name := by
        rw [hname]
        exact List.mem_append_right _ (List.mem_of_head? hs)
      exact absurd (List.eq_of_mem_replicate hmem) (by decide)
  · exact hno m hm hanc

/-! ## Routing -/

theorem reaches_of_findMount (h : findMount path v.mounts = some (m, rel)) :
    Reaches v path m rel where
  stat := by rw [vfsStat, h]
  list := fun nlen idx => by rw [vfsListdir, h]
  picks := by
    intro p hp
    unfold pickFd at hp
    rw [h, Option.bind_some] at hp
    dsimp only at hp
    by_cases hop : m.ops.open.isNone = true
    · rw [if_pos hop] at hp
      cases hp
    · rw [if_neg hop] at hp
      obtain ⟨fd, -, rfl⟩ := Option.map_eq_some_iff.mp hp
      exact ⟨rfl, rfl⟩

theorem pickFd_mounted {p : Picked Fs File ε σ}
    (h : pickFd path v = some p) : ∃ i, v.mounts i = some p.mount := by
  unfold pickFd at h
  obtain ⟨⟨m, rel⟩, hm, h⟩ := Option.bind_eq_some_iff.mp h
  dsimp only at h
  by_cases hop : m.ops.open.isNone = true
  · rw [if_pos hop] at h
    cases h
  · rw [if_neg hop] at h
    obtain ⟨fd, -, rfl⟩ := Option.map_eq_some_iff.mp h
    exact (findMount_some hm).mounted

/-- **Paths are routed right, after any calls, just if no mount point but the root ends with a
slash.** The order of the mounts does not matter, the calls go where `find_mount` says, and a call
that fails changes nothing. -/
theorem mount_routing (mem : σ) (calls : List (MountCall Fs File ε σ)) :
    let v := mountAll calls (vfsInit mem)
    ((∀ path, Absolute path → Routed v path) ↔ v.Unslashed) ∧
      (∀ calls', let w := mountAll calls' (vfsInit mem)
        (∀ m, v.Mounted m ↔ w.Mounted m) →
          ∀ path, findMount path v.mounts = findMount path w.mounts) ∧
      (∀ path m rel, findMount path v.mounts = some (m, rel) → Reaches v path m rel) ∧
      ∀ c : MountCall Fs File ε σ, (c.call v).1 ≠ 0 → c.call v = (-1, v) := by
  intro v
  have hv : v.Distinct := mountAll_distinct calls (vfsInit_distinct mem)
  refine ⟨⟨fun hall m hm => ?_, fun h path habs => routed_of_unslashed h habs⟩, ?_, ?_, ?_⟩
  · by_contra hbad
    obtain ⟨hroot, hend⟩ := not_or.mp hbad
    obtain ⟨path, habs, hno⟩ := not_routed_of_slashed hm hroot (not_not.mp hend)
    exact hno (hall path habs)
  · intro calls' w hsame path
    exact findMount_congr hv (mountAll_distinct calls' (vfsInit_distinct mem)) hsame path
  · exact fun path m rel h => reaches_of_findMount h
  · intro c hc
    rcases c.call_cases v with he | ⟨i, m, -, -, he⟩ | ⟨i, he⟩
    · exact he
    · exact absurd (by rw [he]) hc
    · exact absurd (by rw [he]) hc

/-- `/m/`. -/
def slashedPoint : Str := [slash, 0x6d, slash]

def noOps : FileOps Unit Unit Unit Unit := ⟨none, none, none, none, none, none, none⟩

/-- `/m/` is mounted, and `/m/a` is not found in it. -/
theorem mount_routing_slashed :
    (vfsMount slashedPoint noOps () (vfsInit ())).1 = 0 ∧
      findMount (slashedPoint ++ [0x61])
        (mountAll [.mount slashedPoint noOps ()] (vfsInit ())).mounts = none ∧
      ¬ ∀ path, Absolute path → Routed (mountAll [.mount slashedPoint noOps ()] (vfsInit ())) path := by
  have hnone : findMount (slashedPoint ++ [0x61])
      (mountAll [.mount slashedPoint noOps ()] (vfsInit ())).mounts = none := rfl
  refine ⟨rfl, hnone, fun hall => ?_⟩
  rcases hall (slashedPoint ++ [0x61]) (by decide) with ⟨m, rel, hf, -⟩ | ⟨-, hno⟩
  · rw [hnone] at hf
    cases hf
  · exact hno ⟨slashedPoint, noOps, (), by decide, by decide⟩ ⟨⟨0, by decide⟩, rfl⟩
      (anc_append.mpr (Or.inr (Or.inl (by decide))))

end Ittrium.Vfs
