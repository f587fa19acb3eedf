import Ittrium.Vfs.Namespace
import Ittrium.Vfs.Snapshots
import Ittrium.Vfs.Romfs

/-!
# What `stat`, `open` and `listdir` say of a path

Each file system answers the three calls from tables of its own. `pf_listdir` does not look at the
path, and `romfs` strips the slashes of the path it searches for but not those of its entries.

* `Coherent` — the three calls agree on a path
* `FindsItsNames` — the entries of a `romfs` that are listed can be found
* `backends_coherent` — **when they agree, for each file system**
-/

namespace Ittrium.Vfs

open Infra

variable {cfg : Config} {W : Nat} {board : Board} {Fs File ε σ : Type}

/-! ## Agreement -/

/-- `stat` says that the path is of the type. -/
def StatIs (mnt : Mount Fs File ε σ) (mem : σ) (rel : Str) (type : FileType) : Prop :=
  ∃ st, statAt mnt rel mem = .ok st ∧ st.type = type

/-- `listdir` succeeds from the beginning. -/
def Listable (mnt : Mount Fs File ε σ) (nlen : Nat) (mem : σ) (rel : Str) : Prop :=
  listAt mnt rel nlen 0 mem = some .done ∨ ∃ entry, listAt mnt rel nlen 0 mem = some (.name entry)

/-- `open` succeeds, whatever descriptor is free. -/
def Opens (mnt : Mount Fs File ε σ) (flags : Flags) (e : ε) (mem : σ) (rel : Str) : Prop :=
  ∀ fd, ∃ f, (openAt ⟨mnt, rel, fd⟩ flags e mem).1 = .ok f

/-- The three calls agree on a path. `enough` says that there is memory for an open file. -/
structure Coherent (mnt : Mount Fs File ε σ) (enough : ε → Prop) (nlen : Nat) (mem : σ)
    (rel : Str) : Prop where
  dir : Listable mnt nlen mem rel ↔ StatIs mnt mem rel .dir
  reg : ∀ flags e, flags.has vfsOCreat = false → enough e →
    (Opens mnt flags e mem rel ↔ StatIs mnt mem rel .reg)
  names : StatIs mnt mem rel .dir → ∀ idx entry,
    listAt mnt rel nlen idx mem = some (.name entry) →
      ∃ st, statAt mnt (rel ++ slash :: entry.name) mem = .ok st

/-- The buffer has room for every name that is listed, in whatever buffer. -/
def HasRoom (mnt : Mount Fs File ε σ) (nlen : Nat) (mem : σ) : Prop :=
  ∀ n rel idx entry, listAt mnt rel n idx mem = some (.name entry) → entry.name.length < nlen

/-- What is listed of a `romfs` can be found: a name is all slashes, or without its leading slashes
the name of an entry. -/
def FindsItsNames (fs : Romfs) : Prop :=
  ∀ e ∈ fs, strip e.name = [] ∨ ∃ e' ∈ fs, e'.name = strip e.name

/-- The files of the RAM file system after a mount. -/
def Cleared (m : RamMem) : Prop := ∀ i, (m.ents i).used = false

/-! ## Paths in a directory -/

theorem strip_append (p s : Str) :
    strip (p ++ s) = if strip p = [] then strip s else strip p ++ s := by
  unfold strip
  rw [List.dropWhile_append]
  simp only [List.isEmpty_iff]

/-- The path of a name in the root. -/
theorem strip_in_root {rel : Str} (h : strip rel = []) (name : Str) :
    strip (rel ++ slash :: name) = strip name := by
  rw [strip_append, if_pos h, strip_cons_slash]

/-- The path of a name in a directory below the root. -/
theorem strip_in_dir {rel : Str} (h : strip rel ≠ []) (name : Str) :
    strip (rel ++ slash :: name) = strip rel ++ slash :: name := by
  rw [strip_append, if_neg h]

/-! ## Lists of names -/

section

variable {mnt : Mount Fs File ε σ} {mem : σ} {rel : Str} {names : List Str} {nlen : Nat}
  {idx : Int} {entry : Listing}

/-- `listdir` of the path gives these names, one after the other. -/
structure Lists (mnt : Mount Fs File ε σ) (mem : σ) (rel : Str) (names : List Str) : Prop where
  each : ∀ nlen k name, 0 < nlen → names[k]? = some name →
    listAt mnt rel nlen (k : Nat) mem = some (.name ⟨name.take (nlen - 1), k + 1⟩)
  only : ∀ nlen idx entry, listAt mnt rel nlen idx mem = some (.name entry) →
    ∃ k : Nat, k = idx ∧ k < names.length ∧ 0 < nlen
  done : ∀ nlen, names = [] → listAt mnt rel nlen 0 mem = some .done

/-- The buffer has room for each of the names. -/
theorem Lists.room (h : Lists mnt mem rel names) (hroom : HasRoom mnt nlen mem) {name : Str}
    (hname : name ∈ names) : name.length < nlen := by
  obtain ⟨k, hk⟩ := List.mem_iff_getElem?.mp hname
  have := hroom _ _ _ _ (h.each (name.length + 1) k name (by omega) hk)
  simpa using this

theorem Lists.listable (h : Lists mnt mem rel names) (hroom : HasRoom mnt nlen mem) :
    Listable mnt nlen mem rel := by
  cases names with
  | nil => exact Or.inl (h.done nlen rfl)
  | cons name names =>
    have hlen := h.room hroom (List.mem_cons_self ..)
    exact Or.inr ⟨_, h.each nlen 0 name (by omega) rfl⟩

/-- Exactly these names are listed. -/
theorem Lists.listed (h : Lists mnt mem rel names) (hroom : HasRoom mnt nlen mem) {name : Str} :
    name ∈ names ↔ ∃ idx entry, listAt mnt rel nlen idx mem = some (.name entry) ∧
      entry.name = name := by
  constructor
  · intro hname
    have hlen := h.room hroom hname
    obtain ⟨k, hk⟩ := List.mem_iff_getElem?.mp hname
    exact ⟨_, _, h.each nlen k name (by omega) hk, List.take_of_length_le (by omega)⟩
  · rintro ⟨idx, entry, hl, rfl⟩
    obtain ⟨k, rfl, hk, hpos⟩ := h.only nlen idx entry hl
    have hget := List.getElem?_eq_getElem hk
    have hlen := h.room hroom (List.getElem_mem hk)
    rw [h.each nlen k _ hpos hget] at hl
    cases hl
    rw [List.take_of_length_le (by omega)]
    exact List.getElem_mem hk

end

theorem nextName_some {list : List Str} {nlen k : Nat} {name : Str} (hpos : 0 < nlen)
    (hk : list[k]? = some name) :
    nextName list nlen k = some (.name ⟨name.take (nlen - 1), k + 1⟩) := by
  unfold nextName storeName
  rw [if_neg (by omega), Int.toNat_natCast, hk]
  dsimp only
  rw [if_neg (by omega)]
  rfl

theorem nextName_only {list : List Str} {nlen : Nat} {idx : Int} {entry : Listing}
    (h : nextName list nlen idx = some (.name entry)) :
    ∃ k : Nat, k = idx ∧ k < list.length ∧ 0 < nlen := by
  unfold nextName at h
  split at h
  · cases h
  · split at h
    · next name hk =>
      refine ⟨idx.toNat, by omega, (List.getElem?_eq_some_iff.mp hk).1, ?_⟩
      unfold storeName at h
      by_contra hzero
      rw [if_pos (by omega)] at h
      cases h
    · split at h <;> cases h

/-! ## The RAM file system -/

section

variable {mnt : Mount Unit Addr Answer RamMem} {m : RamMem} {rel : Str}

theorem ramfs_lists (hops : mnt.ops = ramfsOps W) (hroot : strip rel = []) :
    Lists mnt m rel ((usedEnts m).map fun i => (m.ents i).name) := by
  have hlist : ∀ nlen idx, listAt mnt rel nlen idx m = rfListdir rel nlen idx m := by
    intro nlen idx
    unfold listAt
    rw [hops]
    rfl
  constructor
  · intro nlen k name hpos hk
    rw [List.getElem?_map] at hk
    obtain ⟨i, hi, rfl⟩ := Option.map_eq_some_iff.mp hk
    rw [hlist]
    unfold rfListdir storeName
    rw [if_neg (by simpa using hroot), if_neg (by omega), Int.toNat_natCast, hi]
    dsimp only
    rw [if_neg (by omega)]
    rfl
  -- what is listed has an index, and a buffer to be stored in
  · intro nlen idx entry hl
    rw [hlist] at hl
    unfold rfListdir at hl
    rw [if_neg (by simpa using hroot)] at hl
    split at hl
    · cases hl
    · split at hl
      · cases hl
      · next i hi =>
        refine ⟨idx.toNat, by omega, ?_, ?_⟩
        · simpa using (List.getElem?_eq_some_iff.mp hi).1
        · unfold storeName at hl
          by_contra hzero
          rw [if_pos (by omega)] at hl
          cases hl
  · intro nlen hnil
    rw [hlist]
    unfold rfListdir
    rw [if_neg (by simpa using hroot), if_neg (by omega), List.map_eq_nil_iff.mp hnil]
    rfl

theorem ramfs_stat (m : RamMem) (rel : Str) (hops : mnt.ops = ramfsOps W) :
    (StatIs mnt m rel .dir ↔ strip rel = []) ∧
      (StatIs mnt m rel .reg ↔ ∃ i, findEnt m rel = some i) := by
  unfold StatIs statAt
  rw [hops]
  dsimp only [ramfsOps]
  unfold rfStat
  dsimp only
  rw [findEnt_strip]
  by_cases hroot : strip rel = []
  · have hnone : findEnt m rel = none := by
      unfold findEnt
      rw [if_pos hroot]
    simp [hroot, hnone]
  · cases hf : findEnt m rel with
    | none => simp [hroot]
    | some i => simp [hroot]

theorem ramfs_opens (hops : mnt.ops = ramfsOps W) {flags : Flags} {e : Answer}
    (hcreat : flags.has vfsOCreat = false) (he : e.isSome = true) :
    Opens mnt flags e m rel ↔ ∃ i, findEnt m rel = some i := by
  have hopen : ∀ fd, openAt ⟨mnt, rel, fd⟩ flags e m = rfOpen rel flags e m := by
    intro fd
    unfold openAt
    rw [hops]
    rfl
  obtain ⟨b, rfl⟩ := Option.isSome_iff_exists.mp he
  constructor
  · intro ho
    obtain ⟨f, hf⟩ := ho ⟨0, by decide⟩
    rw [hopen] at hf
    rcases rfOpen_cases rel flags (some b) m with ⟨-, hr⟩ | ⟨i, m', -, hent, -⟩
    · rw [hr] at hf
      cases hf
    · rcases entFor_cases hent with ⟨hfound, -⟩ | ⟨-, hc, -⟩
      · exact ⟨i, findEnt_strip m rel ▸ hfound⟩
      · rw [hcreat] at hc
        cases hc
  · rintro ⟨i, hi⟩ fd
    rw [hopen]
    obtain ⟨m', file, hr, -⟩ := rfOpen_found hi flags b
    exact ⟨b.addr, by rw [hr]⟩

theorem ramfs_coherent (hops : mnt.ops = ramfsOps W) {nlen : Nat}
    (hrel : ∀ i, (m.ents i).used = true → strip (m.ents i).name = (m.ents i).name)
    (hroom : HasRoom mnt nlen m) : Coherent mnt (fun e => e.isSome = true) nlen m rel := by
  obtain ⟨hdir, hreg⟩ := ramfs_stat m rel hops
  constructor
  · rw [hdir]
    constructor
    · intro hl
      by_contra hroot
      have herr : listAt mnt rel nlen 0 m = some (.error (-1)) := by
        unfold listAt
        rw [hops]
        exact if_pos hroot
      rcases hl with hl | ⟨entry, hl⟩ <;> cases herr.symm.trans hl
    · exact fun hroot => (ramfs_lists hops hroot).listable hroom
  · intro flags e hcreat he
    rw [hreg]
    exact ramfs_opens hops hcreat he
  · intro hd idx entry hl
    have hroot := hdir.mp hd
    have hmem := ((ramfs_lists hops hroot).listed hroom).mpr ⟨idx, entry, hl, rfl⟩
    obtain ⟨i, hi, hname⟩ := List.mem_map.mp hmem
    have hused : (m.ents i).used = true := (List.mem_filter.mp hi).2
    -- some file has that name, be it another one
    have hstrip : strip (rel ++ slash :: entry.name) = entry.name := by
      rw [strip_in_root hroot, ← hname, hrel i hused]
    by_cases hnil : entry.name = []
    · obtain ⟨st, hst, -⟩ := (ramfs_stat m _ hops).1.mpr (hstrip.trans hnil)
      exact ⟨st, hst⟩
    · cases hf : findEnt m (rel ++ slash :: entry.name) with
      | none =>
        refine absurd ⟨hused, ?_⟩ (findEnt_none (i := i) hf (by rwa [hstrip]))
        rw [hstrip, hname]
      | some j =>
        obtain ⟨st, hst, -⟩ := (ramfs_stat m _ hops).2.mpr ⟨j, hf⟩
        exact ⟨st, hst⟩

end

/-- The names of files have no leading slashes. -/
theorem relative_step {m m' : RamMem} {a : RamAct} {r : RamRes}
    (h : ∀ i, (m.ents i).used = true → strip (m.ents i).name = (m.ents i).name)
    (ha : ramAct W m a = some (m', r)) (i : EntIx) (hi : (m'.ents i).used = true) :
    strip (m'.ents i).name = (m'.ents i).name := by
  rcases renames_step ha with hsame | ⟨rel, flags, e, k, -, -, -, -, -, -, hk, hsame⟩
  · rw [(hsame i).2]
    exact h i ((hsame i).1 ▸ hi)
  · by_cases hik : i = k
    · rw [hik, hk.2]
      refine strip_of_relative fun habs => not_absolute_strip rel ?_
      unfold Absolute at habs ⊢
      rwa [List.head?_take, if_neg (by decide)] at habs
    · rw [(hsame i hik).2]
      exact h i ((hsame i hik).1 ▸ hi)

/-! ## The ROM file system -/

section

variable {mnt : Mount Romfs Addr (Option Addr) RomMem} {m : RomMem} {rel : Str}

theorem romfs_lists (hops : mnt.ops = romfsOps W) (hroot : strip rel = []) :
    Lists mnt m rel (mnt.fs.map RomfsEntry.name) := by
  have hlist : ∀ nlen idx, listAt mnt rel nlen idx m = romListdir mnt.fs rel nlen idx m := by
    intro nlen idx
    unfold listAt
    rw [hops]
    rfl
  constructor
  · intro nlen k name hpos hk
    rw [List.getElem?_map] at hk
    obtain ⟨e, he, rfl⟩ := Option.map_eq_some_iff.mp hk
    rw [hlist]
    unfold romListdir storeName
    rw [if_neg (by simpa using hroot), if_neg (by omega), Int.toNat_natCast, he]
    dsimp only
    rw [if_neg (by omega), if_neg (by omega)]
    rfl
  · intro nlen idx entry hl
    rw [hlist] at hl
    unfold romListdir at hl
    rw [if_neg (by simpa using hroot)] at hl
    split at hl
    · cases hl
    · split at hl
      · cases hl
      · next e he =>
        refine ⟨idx.toNat, by omega, ?_, ?_⟩
        · simpa using (List.getElem?_eq_some_iff.mp he).1
        · by_contra hzero
          rw [if_pos (by omega)] at hl
          cases hl
  · intro nlen hnil
    rw [hlist]
    unfold romListdir
    rw [if_neg (by simpa using hroot), if_neg (by omega), List.map_eq_nil_iff.mp hnil]
    rfl

theorem romfs_stat (m : RomMem) (rel : Str) (hops : mnt.ops = romfsOps W) :
    (StatIs mnt m rel .dir ↔ strip rel = []) ∧
      (StatIs mnt m rel .reg ↔ ∃ e, romFindEnt mnt.fs rel = some e) := by
  have hsame : romFindEnt mnt.fs (strip rel) = romFindEnt mnt.fs rel := by
    unfold romFindEnt
    rw [strip_strip]
  unfold StatIs statAt
  rw [hops]
  dsimp only [romfsOps]
  unfold romStat
  dsimp only
  rw [hsame]
  by_cases hroot : strip rel = []
  · have hnone : romFindEnt mnt.fs rel = none := by
      unfold romFindEnt
      rw [if_pos hroot]
    simp [hroot, hnone]
  · cases hf : romFindEnt mnt.fs rel with
    | none => simp [hroot]
    | some e => simp [hroot]

theorem romfs_opens (hops : mnt.ops = romfsOps W) {flags : Flags} {e : Option Addr}
    (he : e.isSome = true) :
    Opens mnt flags e m rel ↔ ∃ ent, romFindEnt mnt.fs rel = some ent := by
  have hopen : ∀ fd, openAt ⟨mnt, rel, fd⟩ flags e m = romOpen mnt.fs rel flags e m := by
    intro fd
    unfold openAt
    rw [hops]
    rfl
  obtain ⟨a, rfl⟩ := Option.isSome_iff_exists.mp he
  unfold Opens
  simp only [hopen, romOpen]
  cases romFindEnt mnt.fs rel with
  | none =>
    have : Nonempty FdIx := ⟨⟨0, by decide⟩⟩
    simp
  | some ent => simp

theorem romFindEnt_some {fs : Romfs} (hne : strip rel ≠ []) :
    (∃ e, romFindEnt fs rel = some e) ↔ ∃ e ∈ fs, e.name = strip rel := by
  unfold romFindEnt
  rw [if_neg hne, ← Option.isSome_iff_exists, List.find?_isSome]
  simp

theorem romfs_coherent (hops : mnt.ops = romfsOps W) {nlen : Nat} (hroom : HasRoom mnt nlen m) :
    Coherent mnt (fun e => e.isSome = true) nlen m rel ↔
      (strip rel = [] → FindsItsNames mnt.fs) := by
  obtain ⟨hdir, hreg⟩ := romfs_stat m rel hops
  -- a name is found in the root just if the condition says so
  have hfound : strip rel = [] → ∀ name, (∃ st, statAt mnt (rel ++ slash :: name) m = .ok st) ↔
      strip name = [] ∨ ∃ e ∈ mnt.fs, e.name = strip name := by
    intro hroot name
    obtain ⟨hd, hr⟩ := romfs_stat m (rel ++ slash :: name) hops
    rw [strip_in_root hroot] at hd
    by_cases hnil : strip name = []
    · obtain ⟨st, hst, -⟩ := hd.mpr hnil
      exact iff_of_true ⟨st, hst⟩ (Or.inl hnil)
    · rw [or_iff_right hnil, ← strip_in_root hroot,
        ← romFindEnt_some (by rwa [strip_in_root hroot]), ← hr]
      constructor
      · rintro ⟨st, hst⟩
        cases htype : st.type with
        | reg => exact ⟨st, hst, htype⟩
        | dir => exact absurd (hd.mp ⟨st, hst, htype⟩) hnil
      · rintro ⟨st, hst, -⟩
        exact ⟨st, hst⟩
  constructor
  · intro hc hroot e he
    obtain ⟨idx, entry, hl, hname⟩ := ((romfs_lists hops hroot).listed hroom).mp
      (List.mem_map_of_mem (f := RomfsEntry.name) he)
    rw [← hname]
    exact (hfound hroot entry.name).mp (hc.names (hdir.mpr hroot) idx entry hl)
  · intro hfinds
    constructor
    · rw [hdir]
      constructor
      · intro hl
        by_contra hroot
        have herr : listAt mnt rel nlen 0 m = some (.error (-1)) := by
          unfold listAt
          rw [hops]
          exact if_pos hroot
        rcases hl with hl | ⟨entry, hl⟩ <;> cases herr.symm.trans hl
      · exact fun hroot => (romfs_lists hops hroot).listable hroom
    · intro flags e _ he
      rw [hreg]
      exact romfs_opens hops he
    · intro hd idx entry hl
      have hroot := hdir.mp hd
      have hmem := ((romfs_lists hops hroot).listed hroom).mpr ⟨idx, entry, hl, rfl⟩
      obtain ⟨e, he, hname⟩ := List.mem_map.mp hmem
      rw [hfound hroot, ← hname]
      exact hfinds hroot e he

end

/-! ## `procfs` -/

theorem genFile_some (board : Board) (cap : Nat) (tel : Telemetry cfg) (name : Str) :
    (∃ t, genFile board cap tel name = some t) ↔ name ∈ procNames := by
  unfold genFile procNames
  constructor
  · rintro ⟨t, ht⟩
    by_contra hno
    simp only [List.mem_cons, List.not_mem_nil, or_false, not_or] at hno
    obtain ⟨h₁, h₂, h₃, h₄, h₅, h₆⟩ := hno
    rw [if_neg h₁, if_neg h₂, if_neg h₃, if_neg h₄, if_neg h₅, if_neg h₆] at ht
    cases ht
  · intro hname
    simp only [List.mem_cons, List.not_mem_nil, or_false] at hname
    rcases hname with rfl | rfl | rfl | rfl | rfl | rfl <;> exact ⟨_, rfl⟩

section

variable {mnt : Mount Unit Addr (ProcEnv cfg) ProcMem} {m : ProcMem} {rel : Str}

theorem procfs_lists (hops : mnt.ops = procfsOps cfg board) : Lists mnt m rel procNames := by
  have hlist : ∀ nlen idx, listAt mnt rel nlen idx m = nextName procNames nlen idx := by
    intro nlen idx
    unfold listAt
    rw [hops]
    rfl
  constructor
  · intro nlen k name hpos hk
    rw [hlist]
    exact nextName_some hpos hk
  · intro nlen idx entry hl
    rw [hlist] at hl
    exact nextName_only hl
  · intro nlen hnil
    cases hnil

theorem procfs_stat (m : ProcMem) (rel : Str) (hops : mnt.ops = procfsOps cfg board) :
    (StatIs mnt m rel .dir ↔ strip rel = []) ∧ (StatIs mnt m rel .reg ↔ strip rel ∈ procNames) := by
  unfold StatIs statAt
  rw [hops]
  dsimp only [procfsOps]
  unfold pfStat
  dsimp only
  by_cases hroot : strip rel = []
  · have hno : [] ∉ procNames := by decide
    simp [hroot, hno]
  · by_cases hname : strip rel ∈ procNames <;> simp [hroot, hname]

theorem procfs_opens (hops : mnt.ops = procfsOps cfg board) {flags : Flags} {e : ProcEnv cfg}
    (hfile : e.file.isSome = true) (hbuf : e.buf.isSome = true) :
    Opens mnt flags e m rel ↔ strip rel ∈ procNames := by
  have hopen : ∀ fd, openAt ⟨mnt, rel, fd⟩ flags e m = pfOpen board rel flags e m := by
    intro fd
    unfold openAt
    rw [hops]
    rfl
  have hne : strip rel ∈ procNames → strip rel ≠ [] := by
    intro hname hnil
    rw [hnil] at hname
    exact absurd hname (by decide)
  obtain ⟨f, hf⟩ := Option.isSome_iff_exists.mp hfile
  obtain ⟨b, hb⟩ := Option.isSome_iff_exists.mp hbuf
  constructor
  · intro ho
    obtain ⟨f', hf'⟩ := ho ⟨0, by decide⟩
    rw [hopen] at hf'
    -- every way in which the open fails is excluded
    rcases pfOpen_cases board rel flags e m with ⟨-, hr⟩ | ⟨t, f, b, -, ht, -⟩
    · rw [hr] at hf'
      cases hf'
    · exact (genFile_some _ _ _ _).mp ⟨t, ht⟩
  · intro hname fd
    rw [hopen]
    rcases pfOpen_cases board rel flags e m with
      ⟨hno | hno | hno | hno, -⟩ | ⟨t, f, b, -, -, -, -, hr⟩
    · exact absurd hno (hne hname)
    · obtain ⟨t, ht⟩ := (genFile_some board procBufMax e.tel _).mpr hname
      cases hno.symm.trans ht
    · cases hf.symm.trans hno
    · cases hb.symm.trans hno
    · exact ⟨f, by rw [hr]⟩

theorem procfs_coherent (hops : mnt.ops = procfsOps cfg board) {nlen : Nat}
    (hroom : HasRoom mnt nlen m) :
    Coherent mnt (fun e => e.file.isSome = true ∧ e.buf.isSome = true) nlen m rel ↔
      strip rel = [] := by
  obtain ⟨hdir, hreg⟩ := procfs_stat m rel hops
  constructor
  · exact fun hc => hdir.mp (hc.dir.mp ((procfs_lists hops).listable hroom))
  · intro hroot
    constructor
    · exact iff_of_true ((procfs_lists hops).listable hroom) (hdir.mpr hroot)
    · intro flags e _ he
      rw [hreg]
      exact procfs_opens hops he.1 he.2
    · intro _ idx entry hl
      have hname := ((procfs_lists hops).listed hroom).mpr ⟨idx, entry, hl, rfl⟩
      have hstrip : ∀ name ∈ procNames, strip name = name := by decide
      obtain ⟨st, hst, -⟩ := (procfs_stat m (rel ++ slash :: entry.name) hops).2.mpr
        (by rw [strip_in_root hroot, hstrip _ hname]; exact hname)
      exact ⟨st, hst⟩

end

/-! ## `sysfs` -/

theorem sysText_some (tel : Telemetry cfg) (name : Str) :
    (∃ d t, sysText name tel = some (d, t)) ↔ name ∈ sysFiles := by
  unfold sysText sysFiles
  constructor
  · rintro ⟨d, t, ht⟩
    by_contra hno
    simp only [List.mem_cons, List.not_mem_nil, or_false, not_or] at hno
    obtain ⟨h₁, h₂, h₃, h₄, h₅, h₆⟩ := hno
    rw [if_neg h₁, if_neg h₂, if_neg h₃, if_neg h₄, if_neg h₅, if_neg h₆] at ht
    cases ht
  · intro hname
    simp only [List.mem_cons, List.not_mem_nil, or_false] at hname
    rcases hname with rfl | rfl | rfl | rfl | rfl | rfl <;> exact ⟨_, _, rfl⟩

section

variable {mnt : Mount Unit Addr (SysEnv cfg) SysMem} {m : SysMem} {rel : Str}

theorem sysfs_lists (hops : mnt.ops = sysfsOps cfg W) {list : List Str}
    (hlist : sysList rel = some list) : Lists mnt m rel list := by
  have hat : ∀ nlen idx, listAt mnt rel nlen idx m =
      if idx < 0 then some (.error (-1)) else nextName list nlen idx := by
    intro nlen idx
    unfold listAt
    rw [hops]
    show sfListdir rel nlen idx m = _
    unfold sfListdir
    rw [hlist]
  constructor
  · intro nlen k name hpos hk
    rw [hat, if_neg (by omega)]
    exact nextName_some hpos hk
  · intro nlen idx entry hl
    rw [hat] at hl
    split at hl
    · cases hl
    · exact nextName_only hl
  · intro nlen hnil
    rw [hat, hnil]
    rfl

/-- The directories. -/
theorem sysList_some : (∃ list, sysList rel = some list) ↔
    strip rel = [] ∨ strip rel = ascii "cpu" ∨ strip rel = ascii "net" := by
  unfold sysList
  dsimp only
  by_cases hcpu : strip rel = ascii "cpu"
  · exact iff_of_true ⟨_, if_pos hcpu⟩ (Or.inr (Or.inl hcpu))
  · rw [if_neg hcpu]
    by_cases hnet : strip rel = ascii "net"
    · exact iff_of_true ⟨_, if_pos hnet⟩ (Or.inr (Or.inr hnet))
    · rw [if_neg hnet]
      by_cases hroot : strip rel = []
      · exact iff_of_true ⟨_, if_neg (not_not.mpr hroot)⟩ (Or.inl hroot)
      · simp [hcpu, hnet, hroot]

theorem sysfs_stat (m : SysMem) (rel : Str) (hops : mnt.ops = sysfsOps cfg W) :
    (StatIs mnt m rel .dir ↔ ∃ list, sysList rel = some list) ∧
      (StatIs mnt m rel .reg ↔ strip rel ∈ sysFiles) := by
  rw [sysList_some]
  unfold StatIs statAt
  rw [hops]
  dsimp only [sysfsOps]
  unfold sfStat
  dsimp only
  by_cases hroot : strip rel = []
  · have hno : [] ∉ sysFiles := by decide
    simp [hroot, hno]
  · by_cases hname : strip rel ∈ sysFiles
    · have hno : ascii "cpu" ∉ sysFiles ∧ ascii "net" ∉ sysFiles := by decide
      have hcpu : strip rel ≠ ascii "cpu" := fun h => hno.1 (h ▸ hname)
      have hnet : strip rel ≠ ascii "net" := fun h => hno.2 (h ▸ hname)
      simp [hroot, hname, hcpu, hnet]
    · by_cases hd : strip rel = ascii "cpu" ∨ strip rel = ascii "net" <;> simp [hroot, hname, hd]

theorem sysfs_opens (hops : mnt.ops = sysfsOps cfg W) {flags : Flags} {e : SysEnv cfg}
    (he : e.file.isSome = true) : Opens mnt flags e m rel ↔ strip rel ∈ sysFiles := by
  have hopen : ∀ fd, openAt ⟨mnt, rel, fd⟩ flags e m = sfOpen rel flags e m := by
    intro fd
    unfold openAt
    rw [hops]
    rfl
  obtain ⟨a, ha⟩ := Option.isSome_iff_exists.mp he
  constructor
  · intro ho
    obtain ⟨f, hf⟩ := ho ⟨0, by decide⟩
    rw [hopen] at hf
    rcases sfOpen_cases rel flags e m with ⟨-, hr⟩ | ⟨d, t, -, ht, -⟩
    · rw [hr] at hf
      cases hf
    · exact (sysText_some _ _).mp ⟨d, t, ht⟩
  · intro hname fd
    rw [hopen]
    rcases sfOpen_cases rel flags e m with ⟨hno | hno, -⟩ | ⟨d, t, -, -, ⟨hno, -⟩ | ⟨a, -, hr⟩⟩
    · rw [hno] at hname
      exact absurd hname (by decide)
    · obtain ⟨d, t, ht⟩ := (sysText_some e.tel _).mpr hname
      cases hno.symm.trans ht
    · cases ha.symm.trans hno
    · exact ⟨a, by rw [hr]⟩

/-- Every name in a directory is a file or a directory. -/
theorem sysList_names {list : List Str} (hlist : sysList rel = some list) {name : Str}
    (hname : name ∈ list) :
    (∃ list, sysList (rel ++ slash :: name) = some list) ∨
      strip (rel ++ slash :: name) ∈ sysFiles := by
  -- the three directories, each with its own list
  rcases sysList_some.mp ⟨list, hlist⟩ with hroot | hcpu | hnet
  · have hl : list = [ascii "cpu", ascii "net"] := by
      unfold sysList at hlist
      rw [hroot] at hlist
      exact (Option.some.inj hlist).symm
    subst hl
    refine Or.inl (sysList_some.mpr (Or.inr ?_))
    rw [strip_in_root hroot]
    revert name
    decide
  · have hl : list = [ascii "el", ascii "cntfrq", ascii "midr", ascii "mmu", ascii "load"] := by
      unfold sysList at hlist
      rw [hcpu] at hlist
      exact (Option.some.inj hlist).symm
    subst hl
    refine Or.inr ?_
    rw [strip_in_dir (by rw [hcpu]; decide), hcpu]
    revert name
    decide
  · have hl : list = [ascii "loopback"] := by
      unfold sysList at hlist
      rw [hnet] at hlist
      exact (Option.some.inj hlist).symm
    subst hl
    refine Or.inr ?_
    rw [strip_in_dir (by rw [hnet]; decide), hnet]
    revert name
    decide

theorem sysfs_coherent (hops : mnt.ops = sysfsOps cfg W) {nlen : Nat}
    (hroom : HasRoom mnt nlen m) :
    Coherent mnt (fun e => e.file.isSome = true) nlen m rel := by
  obtain ⟨hdir, hreg⟩ := sysfs_stat m rel hops
  constructor
  · rw [hdir]
    constructor
    · intro hl
      by_contra hno
      have hnone : sysList rel = none := by
        cases hs : sysList rel with
        | none => rfl
        | some list => exact absurd ⟨list, hs⟩ hno
      have herr : listAt mnt rel nlen 0 m = some (.error (-1)) := by
        unfold listAt
        rw [hops]
        show sfListdir rel nlen 0 m = _
        unfold sfListdir
        rw [hnone]
      rcases hl with hl | ⟨entry, hl⟩ <;> cases herr.symm.trans hl
    · rintro ⟨list, hlist⟩
      exact (sysfs_lists hops hlist).listable hroom
  · intro flags e _ he
    rw [hreg]
    exact sysfs_opens hops he
  · intro hd idx entry hl
    obtain ⟨list, hlist⟩ := hdir.mp hd
    have hname := ((sysfs_lists hops hlist).listed hroom).mpr ⟨idx, entry, hl, rfl⟩
    obtain ⟨hd', hr'⟩ := sysfs_stat m (rel ++ slash :: entry.name) hops
    rcases sysList_names hlist hname with h | h
    · obtain ⟨st, hst, -⟩ := hd'.mpr h
      exact ⟨st, hst⟩
    · obtain ⟨st, hst, -⟩ := hr'.mpr h
      exact ⟨st, hst⟩

end

/-! ## Room for the names -/

theorem storeName_le {s t : Str} {nlen : Nat} (h : storeName s nlen = some t) :
    t.length ≤ s.length := by
  unfold storeName at h
  split at h
  · cases h
  · cases h
    exact List.length_take_le' ..

theorem nextName_le {list : List Str} {n bound : Nat} {idx : Int} {entry : Listing}
    (hlist : ∀ name ∈ list, name.length < bound) (h : nextName list n idx = some (.name entry)) :
    entry.name.length < bound := by
  unfold nextName at h
  split at h
  · cases h
  · split at h
    · next name hk =>
      obtain ⟨s, hs, he⟩ := Option.map_eq_some_iff.mp h
      cases he
      exact Nat.lt_of_le_of_lt (storeName_le hs) (hlist name (List.mem_of_getElem? hk))
    · split at h <;> cases h

/-- A buffer of `ROMFS_NAME_MAX` bytes has room for all names, and so on. -/
theorem romfs_room {mnt : Mount Romfs Addr (Option Addr) RomMem} {m : RomMem} {nlen : Nat}
    (hops : mnt.ops = romfsOps W) (hlen : romfsNameMax ≤ nlen) : HasRoom mnt nlen m := by
  intro n rel idx entry h
  unfold listAt at h
  rw [hops] at h
  have h : romListdir mnt.fs rel n idx m = some (.name entry) := h
  unfold romListdir at h
  split at h
  · cases h
  · split at h
    · cases h
    · split at h
      · cases h
      · next e _ =>
        split at h
        · cases h
        · obtain ⟨s, hs, he⟩ := Option.map_eq_some_iff.mp h
          cases he
          exact Nat.lt_of_le_of_lt (storeName_le hs) (Nat.lt_of_lt_of_le e.name_lt hlen)

theorem ramfs_room {mnt : Mount Unit Addr Answer RamMem} {m : RamMem} {nlen : Nat}
    (hops : mnt.ops = ramfsOps W) (hlen : ramfsNameMax ≤ nlen) : HasRoom mnt nlen m := by
  intro n rel idx entry h
  unfold listAt at h
  rw [hops] at h
  have h : rfListdir rel n idx m = some (.name entry) := h
  unfold rfListdir at h
  split at h
  · cases h
  · split at h
    · cases h
    · split at h
      · cases h
      · next i _ =>
        obtain ⟨s, hs, he⟩ := Option.map_eq_some_iff.mp h
        cases he
        exact Nat.lt_of_le_of_lt (storeName_le hs) (Nat.lt_of_lt_of_le (m.ents i).name_lt hlen)

theorem procfs_room {mnt : Mount Unit Addr (ProcEnv cfg) ProcMem} {m : ProcMem} {nlen : Nat}
    (hops : mnt.ops = procfsOps cfg board) (hlen : 11 ≤ nlen) : HasRoom mnt nlen m := by
  intro n rel idx entry h
  unfold listAt at h
  rw [hops] at h
  have hnames : ∀ name ∈ procNames, name.length < 11 := by decide
  exact Nat.lt_of_lt_of_le (nextName_le hnames h) hlen

theorem sysfs_room {mnt : Mount Unit Addr (SysEnv cfg) SysMem} {m : SysMem} {nlen : Nat}
    (hops : mnt.ops = sysfsOps cfg W) (hlen : 9 ≤ nlen) : HasRoom mnt nlen m := by
  intro n rel idx entry h
  unfold listAt at h
  rw [hops] at h
  have h : sfListdir rel n idx m = some (.name entry) := h
  unfold sfListdir at h
  split at h
  · cases h
  · next list hlist =>
    split at h
    · cases h
    · have hnames : ∀ name ∈ list, name.length < 9 := by
        unfold sysList at hlist
        dsimp only at hlist
        repeat' split at hlist
        all_goals cases hlist
        all_goals decide
      exact Nat.lt_of_lt_of_le (nextName_le hnames h) hlen

/-! ## All of them -/

/-- The states of the RAM file system after a mount and any calls. -/
abbrev RamReached (W : Nat) : List RamEvent → RamMem → Prop :=
  Run Cleared fun m l m' => ramAct W m l.1 = some (m', l.2)

/-- **The RAM file system and `sysfs` agree on every path, `procfs` on its root only, and `romfs` on
all paths but a root with a name that cannot be found.** -/
theorem backends_coherent (cfg : Config) (W : Nat) (board : Board) (nlen : Nat) (rel : Str) :
    (∀ (mnt : Mount Romfs Addr (Option Addr) RomMem) m, mnt.ops = romfsOps W → HasRoom mnt nlen m →
      (Coherent mnt (fun e => e.isSome = true) nlen m rel ↔
        (strip rel = [] → FindsItsNames mnt.fs))) ∧
    (∀ (mnt : Mount Unit Addr Answer RamMem) tr m, mnt.ops = ramfsOps W → RamReached W tr m →
      HasRoom mnt nlen m → Coherent mnt (fun e => e.isSome = true) nlen m rel) ∧
    (∀ (mnt : Mount Unit Addr (ProcEnv cfg) ProcMem) m, mnt.ops = procfsOps cfg board →
      HasRoom mnt nlen m →
        (Coherent mnt (fun e => e.file.isSome = true ∧ e.buf.isSome = true) nlen m rel ↔
          strip rel = [])) ∧
    (∀ (mnt : Mount Unit Addr (SysEnv cfg) SysMem) m, mnt.ops = sysfsOps cfg W →
      HasRoom mnt nlen m → Coherent mnt (fun e => e.file.isSome = true) nlen m rel) := by
  refine ⟨?_, ?_, ?_, ?_⟩
  · intro mnt m hops hroom
    exact romfs_coherent hops hroom
  · intro mnt tr m hops hrun hroom
    have hrel : ∀ i, (m.ents i).used = true → strip (m.ents i).name = (m.ents i).name := by
      refine hrun.invariant (fun m hm i hi => ?_) fun m l m' h hs => relative_step h hs
      rw [hm i] at hi
      cases hi
    exact ramfs_coherent hops hrel hroom
  · intro mnt m hops hroom
    exact procfs_coherent hops hroom
  · intro mnt m hops hroom
    exact sysfs_coherent hops hroom

/-- The entry `hello.txt`. -/
def helloEntry : RomfsEntry := ⟨ascii "hello.txt", ascii "hello from romfs\n", by decide⟩

/-- File systems mounted at the root. -/
def romAt (fs : Romfs) : Mount Romfs Addr (Option Addr) RomMem :=
  ⟨[slash], romfsOps 64, fs, by decide, by decide⟩
def ramAt : Mount Unit Addr Answer RamMem := ⟨[slash], ramfsOps 64, (), by decide, by decide⟩
def procAt (cfg : Config) (board : Board) : Mount Unit Addr (ProcEnv cfg) ProcMem :=
  ⟨[slash], procfsOps cfg board, (), by decide, by decide⟩
def sysAt (cfg : Config) : Mount Unit Addr (SysEnv cfg) SysMem :=
  ⟨[slash], sysfsOps cfg 64, (), by decide, by decide⟩

/-- Their roots, with one file each where files can be made. -/
theorem backends_coherent_roots :
    Coherent (romAt [helloEntry]) (fun e => e.isSome = true) 64 .empty [] ∧
      (∃ tr m, RamReached 64 tr m ∧ (usedEnts m).length = 1 ∧
        Coherent ramAt (fun e => e.isSome = true) 64 m []) ∧
      Coherent (procAt smallConfig plainBoard) (fun e => e.file.isSome = true ∧ e.buf.isSome = true)
        64 .empty [] ∧
      Coherent (sysAt smallConfig) (fun e => e.file.isSome = true) 64 .empty [] := by
  obtain ⟨hrom, hram, hproc, hsys⟩ := backends_coherent smallConfig 64 plainBoard 64 []
  refine ⟨?_, ?_, ?_, ?_⟩
  · refine (hrom (romAt [helloEntry]) .empty rfl (romfs_room rfl (by decide))).mpr fun _ e he => ?_
    obtain rfl := List.mem_singleton.mp he
    exact Or.inr ⟨helloEntry, he, by decide⟩
  · have hrun : RamReached 64 _ (rfOpen fileA vfsOCreat (filledWith 1 0) .empty).2 :=
      .step (l := (.open_ fileA vfsOCreat (filledWith 1 0), .opened (.ok 1)))
        (.start fun _ => rfl) rfl
    exact ⟨_, _, hrun, by decide +kernel,
      hram ramAt _ _ rfl hrun (ramfs_room rfl (by decide))⟩
  · exact (hproc (procAt smallConfig plainBoard) .empty rfl (procfs_room rfl (by decide))).mpr rfl
  · exact hsys (sysAt smallConfig) .empty rfl (sysfs_room rfl (by decide))

/-- The entry `/x`. -/
def slashedEntry : RomfsEntry := ⟨ascii "/x", [], by decide⟩

/-- `/proc/tasks` is a file, and has entries. The entry `/x` of a `romfs` is listed, and `//x` is
not there. -/
theorem backends_disagree :
    ¬ Coherent (procAt smallConfig plainBoard)
        (fun e => e.file.isSome = true ∧ e.buf.isSome = true) 64 .empty (ascii "tasks") ∧
      ¬ Coherent (romAt [slashedEntry]) (fun e => e.isSome = true) 64 .empty [] := by
  constructor
  · intro hc
    have hroot := (procfs_coherent rfl (procfs_room rfl (by decide))).mp hc
    exact absurd hroot (by decide)
  · intro hc
    have hfinds := (romfs_coherent rfl (romfs_room rfl (by decide))).mp hc rfl
    rcases hfinds slashedEntry (List.mem_singleton_self _) with h | ⟨e, he, hname⟩
    · exact absurd h (by decide)
    · rw [List.mem_singleton.mp he] at hname
      exact absurd hname (by decide)

end Ittrium.Vfs
