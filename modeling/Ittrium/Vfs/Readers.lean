import Ittrium.Vfs.Procfs
import Ittrium.Vfs.RamSteps
import Ittrium.Vfs.Romfs

/-!
# File systems that are only read

Those who only read a file system see its files, and of an open file what is still to come. An open
brings a file as it is then, and a read takes from it alone.

* `Reader` — what a memory shows to them
* `Readable` — a file system that shows it, through the operations that `vfs.c` calls
* `ram_readable`, `rom_readable`, `proc_readable` — **three file systems are readable**

The texts of `sysfs` are in buffers that the next open overwrites: no read shows what its open has
shown, so it is not among them.
-/

namespace Ittrium.Vfs

open Infra

variable {Fs File ε σ ω ν : Type}

/-! ## Memory -/

/-- Only finitely many addresses are in use. -/
def FinitelyUsed {α : Type} (g : Addr → Option α) : Prop :=
  ∃ n : Nat, ∀ a : Nat, n ≤ a → g a = none

theorem FinitelyUsed.update {α : Type} {g : Addr → Option α} (h : FinitelyUsed g) (a : Addr)
    (x : Option α) : FinitelyUsed (Function.update g a x) := by
  obtain ⟨n, hn⟩ := h
  refine ⟨n + a + 1, fun b hb => ?_⟩
  have hne : b ≠ a := by
    rintro rfl
    omega
  rw [Function.update_of_ne hne]
  exact hn b (by omega)

/-! ## What is seen -/

/-- What a memory shows. `ok` is its invariant, `fresh` says that an answer from outside gives memory
that is not in use, and `see` is what the answer can change: whether there is memory, and what there
is to be shown. -/
structure Reader (Fs File ε σ ω ν : Type) where
  ok : σ → Prop
  fresh : ε → σ → Prop
  see : ε → ω
  /-- The files, without those that are open. -/
  view : σ → ν
  /-- What is to come of an open file. -/
  rest : σ → File → Option Str
  /-- What an open of a path brings. -/
  text : ν → Fs → Str → ω → Option Str
  stat : ν → Fs → Str → Option Stat
  names : ν → Fs → Str → Option (List Str)

/-- The files are as they were, and of the open ones `rest` is to come. -/
structure Reader.Becomes (r : Reader Fs File ε σ ω ν) (s s' : σ) (rest : File → Option Str) :
    Prop where
  ok : r.ok s'
  view : r.view s' = r.view s
  rest : r.rest s' = rest

/-- The calls of a `listdir` from the index 0 on bring the names one after the other. -/
structure Enumerates (list : Int → Option ListResult) (l : List Str) : Prop where
  each : ∀ k (hk : k < l.length), list k = some (.name ⟨l[k], k + 1⟩)
  done : list l.length = some .done

theorem enumerates_of_getElem? {list : Int → Option ListResult} {l : List Str}
    (h : ∀ k : Nat, k ≤ l.length →
      list k = some (l[k]?.elim .done fun name => .name ⟨name, k + 1⟩)) : Enumerates list l where
  each := by
    intro k hk
    rw [h k (Nat.le_of_lt hk), List.getElem?_eq_getElem hk, Option.elim_some]
  done := by
    rw [h l.length (Nat.le_refl _), List.getElem?_eq_none (Nat.le_refl _), Option.elim_none]

/-- A file system with no directories lists its root, and no other path. -/
theorem lists_root (list : Int → Option ListResult) {names : Option (List Str)} {rel : Str}
    {l : List Str} {bound : Nat} (hnames : names = if strip rel ≠ [] then none else some l)
    (hother : strip rel ≠ [] → list 0 = some (.error (-1))) (hlen : l.length ≤ bound)
    (hroot : strip rel = [] → ∀ k : Nat,
      list k = some (l[k]?.elim .done fun name => .name ⟨name, k + 1⟩)) :
    (names = none → ∃ rc, list 0 = some (.error rc) ∧ rc < 0) ∧
      ∀ l, names = some l → l.length ≤ bound ∧ Enumerates list l := by
  by_cases hrel : strip rel = []
  · rw [if_neg (not_not_intro hrel)] at hnames
    subst hnames
    constructor
    · intro hnone
      cases hnone
    · intro l' hl
      obtain rfl := Option.some.inj hl
      exact ⟨hlen, enumerates_of_getElem? fun k _ => hroot hrel k⟩
  · rw [if_pos hrel] at hnames
    subst hnames
    constructor
    · intro _
      exact ⟨-1, hother hrel, by decide⟩
    · intro l' hl
      cases hl

/-- The read moves the position by the number of bytes it has taken. -/
theorem drop_drop_min (s : Str) (pos len : Nat) :
    (s.drop pos).drop len = s.drop (pos + min len (s.length - pos)) := by
  rw [List.drop_drop]
  by_cases hle : len ≤ s.length - pos
  · rw [Nat.min_eq_left hle]
  · rw [List.drop_of_length_le (by omega), List.drop_of_length_le (by omega)]

variable [DecidableEq File]

/-- A file that has been read to its end is as it was. -/
theorem Reader.becomes_end {r : Reader Fs File ε σ ω ν} {s : σ} {f : File} (hok : r.ok s)
    (h : r.rest s f = some []) : r.Becomes s s (Function.update (r.rest s) f (some [])) := by
  refine ⟨hok, rfl, ?_⟩
  rw [← h, Function.update_eq_self]

/-- The operations read and close the file. -/
structure Served (r : Reader Fs File ε σ ω ν) (ops : FileOps Fs File ε σ) (f : File) : Prop where
  reads : ∃ op, ops.read = some op ∧ ∀ s t len, r.ok s → r.rest s f = some t →
    ∃ s', op f len s = some ((((t.take len).length : Int), t.take len), s') ∧
      r.Becomes s s' (Function.update (r.rest s) f (some (t.drop len)))
  closes : ∃ op, ops.close = some op ∧ ∀ s t, r.ok s → r.rest s f = some t →
    ∃ rc s', op f s = some (rc, s') ∧ r.Becomes s s' (Function.update (r.rest s) f none)

/-- A file system shows what the reader sees. No text and no list is longer than `bound`. -/
structure Readable (r : Reader Fs File ε σ ω ν) (bound : Nat) (ops : FileOps Fs File ε σ)
    (fs : Fs) : Prop where
  opens : ∃ op, ops.open = some op ∧ ∀ rel e s, r.ok s → r.fresh e s →
    (r.text (r.view s) fs rel (r.see e) = none → ∃ rc s',
      op fs rel vfsORdonly e s = (.error rc, s') ∧ rc < 0 ∧ r.Becomes s s' (r.rest s)) ∧
    ∀ t, r.text (r.view s) fs rel (r.see e) = some t → t.length ≤ bound ∧ ∃ f s',
      op fs rel vfsORdonly e s = (.ok f, s') ∧ r.rest s f = none ∧ Served r ops f ∧
        r.Becomes s s' (Function.update (r.rest s) f (some t))
  stats : ∃ op, ops.stat = some op ∧ ∀ rel s, (op fs rel s).toOption = r.stat (r.view s) fs rel
  lists : ∃ op, ops.listdir = some op ∧ ∀ rel s,
    (r.names (r.view s) fs rel = none →
      ∃ rc, op fs rel vfsNameMax 0 s = some (.error rc) ∧ rc < 0) ∧
    ∀ l, r.names (r.view s) fs rel = some l → l.length ≤ bound ∧
      Enumerates (fun idx => op fs rel vfsNameMax idx s) l

/-! ## The RAM file system -/

/-- What is in an entry. -/
def RamfsEntry.text (e : RamfsEntry) : Str := (List.range e.size).map e.data

@[simp] theorem RamfsEntry.length_text (e : RamfsEntry) : e.text.length = e.size := by
  simp [RamfsEntry.text]

/-- The answer of `malloc` decides only whether there is memory. -/
def ramReader : Reader Unit Addr Answer RamMem Bool (EntIx → RamfsEntry) where
  ok m := FinitelyUsed m.files
  fresh e m := ∀ b ∈ e, m.files b.addr = none
  see := Option.isSome
  view m := m.ents
  rest m f := (m.files f).map fun file => (m.ents file.ent).text.drop file.pos
  text ents _ rel granted :=
    if granted then (findEnt ⟨ents, fun _ => none⟩ rel).map fun i => (ents i).text else none
  stat ents _ rel := (rfStat rel ⟨ents, fun _ => none⟩).toOption
  names ents _ rel :=
    if strip rel ≠ [] then none
    else some ((usedEnts ⟨ents, fun _ => none⟩).map fun i => (ents i).name.take (vfsNameMax - 1))

theorem findEnt_ents (m : RamMem) (rel : Str) :
    findEnt ⟨m.ents, fun _ => none⟩ rel = findEnt m rel := rfl

theorem ramReader_setFile {m : RamMem} (hok : ramReader.ok m) (f : Addr) (x : Option RamfsFile) :
    ramReader.Becomes m (m.setFile f x) (Function.update (ramReader.rest m) f
      (x.map fun file => (m.ents file.ent).text.drop file.pos)) where
  ok := hok.update f x
  view := rfl
  rest := Function.comp_update (Option.map _) m.files f x

/-- A read takes the next bytes of the text. -/
theorem rfRead_text {m : RamMem} {f : Addr} {file : RamfsFile} (hok : ramReader.ok m)
    (hf : m.files f = some file) (len : Nat) :
    let t := (m.ents file.ent).text.drop file.pos
    ∃ m', rfRead f len m = some ((((t.take len).length : Int), t.take len), m') ∧
      ramReader.Becomes m m' (Function.update (ramReader.rest m) f (some (t.drop len))) := by
  intro t
  have hrest : ramReader.rest m f = some t := by simp [ramReader, hf, t]
  unfold rfRead
  rw [hf, Option.map_some]
  dsimp only
  by_cases hend : file.pos ≥ (m.ents file.ent).size
  · have ht : t = [] := List.drop_eq_nil_iff.mpr (by simpa using hend)
    rw [ht] at hrest ⊢
    rw [dif_pos hend, List.take_nil, List.drop_nil]
    exact ⟨m, rfl, Reader.becomes_end hok hrest⟩
  · have hlen : t.length = (m.ents file.ent).size - file.pos := by simp [t]
    have htake : t.take len = (List.range (min len ((m.ents file.ent).size - file.pos))).map
        fun k => (m.ents file.ent).data (file.pos + k) := by
      apply List.ext_getElem
      · simp [hlen]
      · intro k hk hk'
        simp [t, RamfsEntry.text]
    have hcount : (t.take len).length = min len ((m.ents file.ent).size - file.pos) := by
      rw [List.length_take, hlen]
    refine ⟨_, by rw [dif_neg hend, hcount, htake], ?_⟩
    rw [drop_drop_min, RamfsEntry.length_text]
    exact ramReader_setFile hok f (some _)

theorem ram_served (W : Nat) (f : Addr) : Served ramReader (ramfsOps W) f where
  reads := by
    refine ⟨rfRead, rfl, fun m t len hok ht => ?_⟩
    obtain ⟨file, hf, rfl⟩ := Option.map_eq_some_iff.mp ht
    exact rfRead_text hok hf len
  closes := by
    refine ⟨rfClose, rfl, fun m t hok ht => ?_⟩
    obtain ⟨file, hf, -⟩ := Option.map_eq_some_iff.mp ht
    refine ⟨0, m.setFile f none, ?_, ramReader_setFile hok f none⟩
    unfold rfClose
    rw [hf, Option.map_some]

theorem truncEnt_rdonly (i : EntIx) (m : RamMem) : truncEnt i vfsORdonly m = m := by
  have hflag : Flags.has vfsORdonly vfsOTrunc = false := by decide
  unfold truncEnt
  rw [hflag, Bool.false_and, if_neg Bool.false_ne_true]

theorem entFor_rdonly (name : Str) (m : RamMem) :
    entFor name vfsORdonly m = (findEnt m name).map fun i => (i, m) := by
  have hflag : Flags.has vfsORdonly vfsOCreat = false := by decide
  unfold entFor
  cases findEnt m name with
  | none => simp [hflag]
  | some i => rfl

theorem findEnt_of_strip {m : RamMem} {rel : Str} (h : strip rel = []) : findEnt m rel = none := by
  unfold findEnt
  rw [if_pos h]

/-- An open that only reads makes no file and truncates none. -/
theorem rfOpen_rdonly (rel : Str) (e : Answer) (m : RamMem) :
    ((findEnt m rel = none ∨ e = none) ∧ rfOpen rel vfsORdonly e m = (.error (-1), m)) ∨
      ∃ i b, findEnt m rel = some i ∧ e = some b ∧ rfOpen rel vfsORdonly e m =
        (.ok b.addr, m.setFile b.addr (some ⟨i, 0, Nat.zero_le _⟩)) := by
  have hent := entFor_rdonly (strip rel) m
  rw [findEnt_strip] at hent
  rcases rfOpen_cases rel vfsORdonly e m with ⟨hno, he⟩ | ⟨i, m', -, hsome, hcase⟩
  · refine Or.inl ⟨Or.inl ?_, he⟩
    rcases hno with hno | hno
    · exact findEnt_of_strip hno
    · rwa [hno, eq_comm, Option.map_eq_none_iff] at hent
  · rw [hsome, eq_comm, Option.map_eq_some_iff] at hent
    obtain ⟨k, hk, hpair⟩ := hent
    obtain ⟨rfl, rfl⟩ := Prod.mk.inj hpair
    rcases hcase with ⟨rfl, he⟩ | ⟨b, rfl, he⟩
    · rw [truncEnt_rdonly] at he
      exact Or.inl ⟨Or.inr rfl, he⟩
    · refine Or.inr ⟨k, b, hk, rfl, ?_⟩
      rw [he, truncEnt_rdonly]
      rfl

theorem storeName_of_pos (s : Str) {nlen : Nat} (h : 0 < nlen) :
    storeName s nlen = some (s.take (nlen - 1)) := by
  unfold storeName
  rw [if_neg (by omega)]

theorem rfListdir_root {rel : Str} (hroot : strip rel = []) (m : RamMem) (k : Nat) :
    rfListdir rel vfsNameMax k m =
      some (((usedEnts m).map fun i => (m.ents i).name.take (vfsNameMax - 1))[k]?.elim .done
        fun name => .name ⟨name, k + 1⟩) := by
  have hname : 0 < vfsNameMax := by decide
  unfold rfListdir
  rw [if_neg (by simp [hroot]), if_neg (by omega), Int.toNat_natCast, List.getElem?_map]
  cases (usedEnts m)[k]? with
  | none => rfl
  | some i =>
    dsimp only
    rw [storeName_of_pos _ hname]
    rfl

/-- **The RAM file system is readable.** -/
theorem ram_readable (W : Nat) {bound : Nat} (hsize : ramfsMaxSize ≤ bound) :
    Readable ramReader bound (ramfsOps W) () where
  opens := by
    refine ⟨fun _ => rfOpen, rfl, fun rel e m hok hfresh => ?_⟩
    rcases rfOpen_rdonly rel e m with ⟨hno, he⟩ | ⟨i, b, hi, rfl, he⟩
    · constructor
      · intro _
        exact ⟨-1, m, he, by decide, hok, rfl, rfl⟩
      · intro t ht
        rcases hno with hno | rfl
        · simp [ramReader, findEnt_ents, hno] at ht
        · simp [ramReader] at ht
    · have htext : ramReader.text (ramReader.view m) () rel (ramReader.see (some b)) =
          some (m.ents i).text := by
        simp [ramReader, findEnt_ents, hi]
      constructor
      · intro hnone
        rw [htext] at hnone
        cases hnone
      · intro t ht
        rw [htext] at ht
        obtain rfl := Option.some.inj ht
        have hle : (m.ents i).size ≤ ramfsMaxSize :=
          Nat.le_trans (m.ents i).size_le (m.ents i).cap_le
        refine ⟨by rw [RamfsEntry.length_text]; omega, b.addr, _, he, ?_, ram_served W _, ?_⟩
        · simp [ramReader, hfresh b rfl]
        · exact ramReader_setFile hok b.addr (some _)
  stats := ⟨fun _ => rfStat, rfl, fun rel m => rfl⟩
  lists := by
    refine ⟨fun _ => rfListdir, rfl, fun rel m => ?_⟩
    have hnames : ramReader.names (ramReader.view m) () rel = if strip rel ≠ [] then none
        else some ((usedEnts m).map fun i => (m.ents i).name.take (vfsNameMax - 1)) := rfl
    refine lists_root (fun idx => rfListdir rel vfsNameMax idx m) hnames ?_ ?_ ?_
    · intro hrel
      unfold rfListdir
      rw [if_pos hrel]
    · have hle := List.length_filter_le (fun i => (m.ents i).used) (List.finRange ramfsMaxFiles)
      rw [List.length_finRange] at hle
      rw [List.length_map]
      exact Nat.le_trans hle (Nat.le_trans (by decide) hsize)
    · intro hroot k
      exact rfListdir_root hroot m k

/-! ## The read-only file system -/

/-- There is nothing to be seen but the open files: the table is the pointer. -/
def romReader : Reader Romfs Addr (Option Addr) RomMem Bool Unit where
  ok m := FinitelyUsed m.files
  fresh e m := ∀ a ∈ e, m.files a = none
  see := Option.isSome
  view _ := ()
  rest m f := (m.files f).map fun file => file.ent.data.drop file.pos
  text _ fs rel granted := if granted then (romFindEnt fs rel).map fun e => e.data else none
  stat _ fs rel := (romStat fs rel .empty).toOption
  names _ fs rel :=
    if strip rel ≠ [] then none else some (fs.map fun e => e.name.take (vfsNameMax - 1))

theorem romReader_setFile {m : RomMem} (hok : romReader.ok m) (f : Addr) (x : Option RomfsFile) :
    romReader.Becomes m (m.setFile f x) (Function.update (romReader.rest m) f
      (x.map fun file => file.ent.data.drop file.pos)) where
  ok := hok.update f x
  view := rfl
  rest := Function.comp_update (Option.map _) m.files f x

theorem romRead_text {m : RomMem} {f : Addr} {file : RomfsFile} (hok : romReader.ok m)
    (hf : m.files f = some file) (len : Nat) :
    let t := file.ent.data.drop file.pos
    ∃ m', romRead f len m = some ((((t.take len).length : Int), t.take len), m') ∧
      romReader.Becomes m m' (Function.update (romReader.rest m) f (some (t.drop len))) := by
  intro t
  have hrest : romReader.rest m f = some t := by simp [romReader, hf, t]
  have hlen : t.length = file.ent.data.length - file.pos := by simp [t]
  unfold romRead
  rw [hf, Option.map_some]
  by_cases hend : file.pos ≥ file.ent.data.length
  · have ht : t = [] := List.drop_eq_nil_iff.mpr hend
    rw [ht] at hrest ⊢
    rw [if_pos hend, List.take_nil, List.drop_nil]
    exact ⟨m, rfl, Reader.becomes_end hok hrest⟩
  · have htake : t.take (min len (file.ent.data.length - file.pos)) = t.take len := by
      rw [← hlen, List.take_eq_take_iff]
      omega
    have hcount : (t.take len).length = min len (file.ent.data.length - file.pos) := by
      rw [List.length_take, hlen]
    rw [if_neg hend, hcount, drop_drop_min, ← htake]
    refine ⟨_, rfl, ?_⟩
    exact romReader_setFile hok f (some _)

theorem rom_served (W : Nat) (f : Addr) : Served romReader (romfsOps W) f where
  reads := by
    refine ⟨romRead, rfl, fun m t len hok ht => ?_⟩
    obtain ⟨file, hf, rfl⟩ := Option.map_eq_some_iff.mp ht
    exact romRead_text hok hf len
  closes := by
    refine ⟨romClose, rfl, fun m t hok ht => ?_⟩
    obtain ⟨file, hf, -⟩ := Option.map_eq_some_iff.mp ht
    refine ⟨0, m.setFile f none, ?_, romReader_setFile hok f none⟩
    unfold romClose
    rw [hf, Option.map_some]

theorem romListdir_root {rel : Str} (hroot : strip rel = []) (fs : Romfs) (m : RomMem) (k : Nat) :
    romListdir fs rel vfsNameMax k m =
      some ((fs.map fun e => e.name.take (vfsNameMax - 1))[k]?.elim .done
        fun name => .name ⟨name, k + 1⟩) := by
  have hname : 0 < vfsNameMax := by decide
  unfold romListdir
  rw [if_neg (by simp [hroot]), if_neg (by omega), Int.toNat_natCast, List.getElem?_map]
  cases fs[k]? with
  | none => rfl
  | some e =>
    dsimp only
    rw [if_neg (by omega), storeName_of_pos _ hname]
    rfl

/-- **A read-only file system is readable.** -/
theorem rom_readable (W : Nat) {bound : Nat} {fs : Romfs} (hcount : fs.length ≤ bound)
    (hdata : ∀ e ∈ fs, e.data.length ≤ bound) : Readable romReader bound (romfsOps W) fs where
  opens := by
    refine ⟨romOpen, rfl, fun rel e m hok hfresh => ?_⟩
    unfold romOpen
    cases hent : romFindEnt fs rel with
    | none => exact ⟨fun _ => ⟨-1, m, rfl, by decide, hok, rfl, rfl⟩, by simp [romReader, hent]⟩
    | some ent =>
      cases e with
      | none => exact ⟨fun _ => ⟨-1, m, rfl, by decide, hok, rfl, rfl⟩, by simp [romReader]⟩
      | some a =>
        constructor
        · simp [romReader, hent]
        · intro t ht
          obtain rfl : ent.data = t := by simpa [romReader, hent] using ht
          have hmem : ent ∈ fs := by
            unfold romFindEnt at hent
            dsimp only at hent
            split at hent
            · cases hent
            · exact List.mem_of_find?_eq_some hent
          refine ⟨hdata ent hmem, a, _, rfl, ?_, rom_served W a, ?_⟩
          · simp [romReader, hfresh a rfl]
          · exact romReader_setFile hok a (some _)
  stats := ⟨romStat, rfl, fun rel m => rfl⟩
  lists := by
    refine ⟨romListdir, rfl, fun rel m => ?_⟩
    have hnames : romReader.names (romReader.view m) fs rel = if strip rel ≠ [] then none
        else some (fs.map fun e => e.name.take (vfsNameMax - 1)) := rfl
    refine lists_root (fun idx => romListdir fs rel vfsNameMax idx m) hnames ?_ ?_ ?_
    · intro hrel
      unfold romListdir
      rw [if_pos hrel]
    · rwa [List.length_map]
    · intro hroot k
      exact romListdir_root hroot fs m k

/-! ## The process file system -/

section

variable {cfg : Config} {cap : Nat} {buf : Str} {board : Board} {tel : Telemetry cfg}

theorem appendStr_fits (s : Str) (h : buf.length < cap) :
    (appendStr cap buf s).length < cap := by
  induction s generalizing buf with
  | nil => exact h
  | cons c s ih =>
    unfold appendStr
    split
    · next hroom => exact ih (by simpa using hroom)
    · exact h

theorem appendUint_fits (v : Nat) (h : buf.length < cap) :
    (appendUint cap buf v).length < cap := appendStr_fits _ h

theorem appendField_fits (s : Str) (width : Nat) (right : Bool) (h : buf.length < cap) :
    (appendField cap buf s width right).length < cap := by
  unfold appendField
  dsimp only
  split <;> exact appendStr_fits _ (appendStr_fits _ h)

theorem appendUintField_fits (v width : Nat) (h : buf.length < cap) :
    (appendUintField cap buf v width).length < cap := appendField_fits _ _ _ h

theorem appendName_fits (name : Str) (h : buf.length < cap) :
    (appendName board cap buf name).length < cap := by
  unfold appendName
  split
  · exact appendStr_fits _ (appendField_fits _ _ _ h)
  · exact h

theorem taskRow_fits (wall : UW) (t : TCB cfg) (h : buf.length < cap) :
    (taskRow board cap tel buf wall t).length < cap := by
  unfold taskRow
  dsimp only
  apply_rules [appendStr_fits, appendUintField_fits, appendName_fits, appendField_fits]

theorem taskRows_fits (is : List (TskIx cfg)) (h : buf.length < cap) :
    (taskRows board cap tel buf is).length < cap := by
  induction is generalizing buf with
  | nil => exact h
  | cons i is ih =>
    unfold taskRows
    dsimp only
    split
    · exact ih h
    · split
      · exact taskRow_fits _ _ h
      · exact ih (taskRow_fits _ _ h)

theorem irqRows_fits (vs : List (Fin telemetryIrqMax)) (h : buf.length < cap) :
    (irqRows board cap tel buf vs).length < cap := by
  induction vs generalizing buf with
  | nil => exact h
  | cons v vs ih =>
    unfold irqRows
    dsimp only
    split
    · exact ih h
    · have hrow : (appendStr cap (appendUintField cap (appendStr cap (appendField cap (appendStr cap
          (appendUintField cap buf v.val 3) (ascii " ")) (board.irqVecName v.val) 10 false)
          (ascii " ")) (tel.irqCount v).toNat 10) (ascii "\n")).length < cap := by
        apply_rules [appendStr_fits, appendUintField_fits, appendField_fits]
      split
      · exact hrow
      · exact ih hrow

/-- **A text and its zero fit in the buffer on the stack.** -/
theorem genFile_fits {name t : Str} (hcap : 0 < cap) (h : genFile board cap tel name = some t) :
    t.length < cap := by
  have hnil : ([] : Str).length < cap := hcap
  unfold genFile at h
  repeat' split at h
  · obtain rfl := Option.some.inj h
    have hrows : (taskRows board cap tel (tasksHead board cap)
        (List.finRange cfg.tnumTskid)).length < cap := by
      unfold tasksHead
      dsimp only
      apply_rules [taskRows_fits, appendStr_fits, appendField_fits, appendName_fits]
    unfold genTasks
    dsimp only
    split
    · exact hrows
    · apply_rules [appendStr_fits, appendUint_fits]
  · obtain rfl := Option.some.inj h
    unfold genTicks
    apply_rules [appendStr_fits, appendUint_fits]
  · obtain rfl := Option.some.inj h
    unfold genMem
    apply_rules [appendStr_fits, appendUint_fits]
  · obtain rfl := Option.some.inj h
    unfold genStat
    apply_rules [appendStr_fits, appendUint_fits]
  · obtain rfl := Option.some.inj h
    unfold genInterrupts
    apply_rules [irqRows_fits, appendStr_fits, appendField_fits]
  · obtain rfl := Option.some.inj h
    exact appendStr_fits _ hnil
  · cases h

/-- Each open file has a copy of its own, of the length that is noted. -/
structure ProcMem.Sound (m : ProcMem) : Prop where
  copied : ∀ f file, m.files f = some file → ∃ b, m.bufs file.buf = some b ∧ file.len ≤ b.length
  apart : ∀ f g file file', m.files f = some file → m.files g = some file' →
    file.buf = file'.buf → f = g
  files : FinitelyUsed m.files
  bufs : FinitelyUsed m.bufs

/-- What an open shows besides the memory are the tables of the kernel at that time. -/
def procReader (cfg : Config) (board : Board) :
    Reader Unit Addr (ProcEnv cfg) ProcMem (Telemetry cfg × Bool) Unit where
  ok := ProcMem.Sound
  fresh e m := (∀ a ∈ e.file, m.files a = none) ∧ ∀ a ∈ e.buf, m.bufs a = none
  see e := (e.tel, e.file.isSome && e.buf.isSome)
  view _ := ()
  rest m f := (m.files f).bind fun file =>
    (m.bufs file.buf).map fun b => (b.take file.len).drop file.pos
  text _ _ rel seen :=
    if seen.2 = true ∧ strip rel ≠ [] then procText board (strip rel) seen.1 else none
  stat _ _ rel := (pfStat rel .empty).toOption
  names _ _ _ := some procNames

variable {m : ProcMem} {f : Addr} {file : ProcFile}

theorem procReader_setFile (m : ProcMem) (f : Addr) (x : Option ProcFile) :
    (procReader cfg board).rest (m.setFile f x) = Function.update ((procReader cfg board).rest m) f
      (x.bind fun file => (m.bufs file.buf).map fun b => (b.take file.len).drop file.pos) :=
  Function.comp_update (fun y : Option ProcFile => y.bind _) m.files f x

/-- The files do not see a buffer that is not theirs. -/
theorem procReader_setBuf {b : Addr} (h : ∀ g file, m.files g = some file → file.buf ≠ b)
    (x : Option Str) :
    (procReader cfg board).rest (m.setBuf b x) = (procReader cfg board).rest m := by
  funext g
  change (m.files g).bind _ = (m.files g).bind _
  cases hg : m.files g with
  | none => rfl
  | some file => rw [Option.bind_some, Option.bind_some, ProcMem.setBuf_of_ne (h g file hg)]

namespace ProcMem.Sound

/-- What a fresh answer gives is no file's buffer. -/
theorem not_in_use (h : m.Sound) {b : Addr} (hb : m.bufs b = none) (g : Addr) (file : ProcFile)
    (hg : m.files g = some file) : file.buf ≠ b := by
  rintro rfl
  obtain ⟨s, hs, -⟩ := h.copied g file hg
  rw [hb] at hs
  cases hs

theorem setBuf (h : m.Sound) {b : Addr}
    (hb : ∀ g file, m.files g = some file → file.buf ≠ b) (x : Option Str) :
    (m.setBuf b x).Sound where
  copied := by
    intro g file hg
    rw [ProcMem.setBuf_of_ne (hb g file hg)]
    exact h.copied g file hg
  apart := h.apart
  files := h.files
  bufs := h.bufs.update b x

theorem setFile (h : m.Sound) (x : Option ProcFile) (hcopied : ∀ file ∈ x,
      ∃ b, m.bufs file.buf = some b ∧ file.len ≤ b.length)
    (hapart : ∀ file ∈ x, ∀ g file', g ≠ f → m.files g = some file' → file'.buf ≠ file.buf) :
    (m.setFile f x).Sound where
  copied := by
    intro g file hg
    by_cases he : g = f
    · subst he
      rw [ProcMem.setFile_self] at hg
      exact hcopied file hg
    · rw [ProcMem.setFile_of_ne he] at hg
      exact h.copied g file hg
  apart := by
    intro g g' file file' hg hg' hbuf
    by_cases he : g = f
    · by_cases he' : g' = f
      · rw [he, he']
      · subst he
        rw [ProcMem.setFile_self] at hg
        rw [ProcMem.setFile_of_ne he'] at hg'
        exact absurd hbuf.symm (hapart file hg g' file' he' hg')
    · rw [ProcMem.setFile_of_ne he] at hg
      by_cases he' : g' = f
      · subst he'
        rw [ProcMem.setFile_self] at hg'
        exact absurd hbuf (hapart file' hg' g file he hg)
      · rw [ProcMem.setFile_of_ne he'] at hg'
        exact h.apart g g' file file' hg hg' hbuf
  files := h.files.update f x
  bufs := h.bufs

end ProcMem.Sound

theorem pfRead_rest (hok : m.Sound) {t : Str} (ht : (procReader cfg board).rest m f = some t)
    (len : Nat) :
    ∃ m', pfRead f len m = some ((((t.take len).length : Int), t.take len), m') ∧
      (procReader cfg board).Becomes m m'
        (Function.update ((procReader cfg board).rest m) f (some (t.drop len))) := by
  obtain ⟨file, hf, hb⟩ := Option.bind_eq_some_iff.mp ht
  obtain ⟨b, hbuf, rfl⟩ := Option.map_eq_some_iff.mp hb
  have hle : file.len ≤ b.length := by
    obtain ⟨b', hbuf', hle⟩ := hok.copied f file hf
    rw [hbuf] at hbuf'
    cases hbuf'
    exact hle
  unfold pfRead
  rw [hf, Option.bind_some]
  by_cases hend : file.pos ≥ file.len
  · have hnil : (b.take file.len).drop file.pos = [] := by
      rw [List.drop_eq_nil_iff, List.length_take]
      omega
    rw [hnil] at ht ⊢
    rw [dif_pos hend, List.take_nil, List.drop_nil]
    exact ⟨m, rfl, Reader.becomes_end hok ht⟩
  · have hcount : (((b.take file.len).drop file.pos).take len).length =
        min len (file.len - file.pos) := by
      simp only [List.length_take, List.length_drop]
      omega
    have hlen : (b.take file.len).length = file.len := List.length_take_of_le hle
    have htake : ((b.take file.len).drop file.pos).take len =
        (b.drop file.pos).take (min len (file.len - file.pos)) := by
      rw [List.drop_take, List.take_take]
    rw [dif_neg hend, hbuf, hcount, htake]
    refine ⟨_, rfl, ?_, ?_, ?_⟩
    · refine hok.setFile _ ?_ ?_
      · rintro file' ⟨⟩
        exact ⟨b, hbuf, hle⟩
      · rintro file' ⟨⟩ g file'' hg hfile hsame
        exact hg (hok.apart g f file'' file hfile hf hsame)
    · rfl
    · rw [procReader_setFile, Option.bind_some, drop_drop_min, hlen]
      simp [hbuf]

theorem pfClose_rest (hok : m.Sound) {t : Str} (ht : (procReader cfg board).rest m f = some t) :
    ∃ rc m', pfClose f m = some (rc, m') ∧ (procReader cfg board).Becomes m m'
      (Function.update ((procReader cfg board).rest m) f none) := by
  obtain ⟨file, hf, -⟩ := Option.bind_eq_some_iff.mp ht
  have hswap : (m.setBuf file.buf none).setFile f none =
      (m.setFile f none).setBuf file.buf none := rfl
  have hapart : ∀ g file', (m.setFile f none).files g = some file' → file'.buf ≠ file.buf := by
    intro g file' hg hsame
    by_cases he : g = f
    · subst he
      rw [ProcMem.setFile_self] at hg
      cases hg
    · rw [ProcMem.setFile_of_ne he] at hg
      exact he (hok.apart g f file' file hg hf hsame)
  have hclosed : (m.setFile f none).Sound := by
    refine hok.setFile none ?_ ?_
    · rintro file' ⟨⟩
    · rintro file' ⟨⟩
  refine ⟨0, _, by unfold pfClose; rw [hf, Option.map_some], ?_⟩
  rw [hswap]
  refine ⟨hclosed.setBuf hapart none, rfl, ?_⟩
  rw [procReader_setBuf hapart, procReader_setFile, Option.bind_none]

theorem proc_served (cfg : Config) (board : Board) (f : Addr) :
    Served (procReader cfg board) (procfsOps cfg board) f where
  reads := ⟨pfRead, rfl, fun _ _ len hok ht => pfRead_rest hok ht len⟩
  closes := ⟨pfClose, rfl, fun _ _ hok ht => pfClose_rest hok ht⟩

/-- **The process file system is readable.** -/
theorem proc_readable (cfg : Config) (board : Board) {bound : Nat} (hbound : procBufMax ≤ bound) :
    Readable (procReader cfg board) bound (procfsOps cfg board) () where
  opens := by
    refine ⟨fun _ => pfOpen board, rfl, fun rel e m hok hfresh => ?_⟩
    rcases pfOpen_cases board rel vfsORdonly e m with ⟨hno, he⟩ | ⟨t, f, b, hne, ht, hf, hb, he⟩
    · constructor
      · exact fun _ => ⟨-1, m, he, by decide, hok, rfl, rfl⟩
      · intro t ht
        rcases hno with hno | hno | hno | hno <;> simp [procReader, hno] at ht
    · have htext : (procReader cfg board).text () () rel ((procReader cfg board).see e) =
          some t := by
        simp [procReader, hf, hb, hne, ht]
      constructor
      · intro hnone
        rw [show (procReader cfg board).view m = () from rfl, htext] at hnone
        cases hnone
      · intro t' ht'
        rw [show (procReader cfg board).view m = () from rfl, htext] at ht'
        obtain rfl := Option.some.inj ht'
        have hfits : t.length < procBufMax := genFile_fits (by decide) ht
        have hfree := hok.not_in_use (hfresh.2 b hb)
        refine ⟨by omega, f, _, he, ?_, proc_served cfg board f, ?_, rfl, ?_⟩
        · simp [procReader, hfresh.1 f hf]
        · refine (hok.setBuf hfree _).setFile _ ?_ ?_
          · rintro file ⟨⟩
            exact ⟨t ++ [0], ProcMem.setBuf_self _ _ _, by simp⟩
          · rintro file ⟨⟩ g file' _ hg
            exact hfree g file' hg
        · rw [procReader_setFile, procReader_setBuf hfree]
          simp
  stats := ⟨fun _ => pfStat, rfl, fun rel m => rfl⟩
  lists := by
    refine ⟨fun _ => pfListdir, rfl, fun rel m => ⟨?_, ?_⟩⟩
    · intro hnone
      simp [procReader] at hnone
    · rintro l ⟨⟩
      have hlist : ∀ k : Nat, k < procNames.length + 1 → nextName procNames vfsNameMax k =
          some (procNames[k]?.elim .done fun name => .name ⟨name, k + 1⟩) := by decide
      exact ⟨Nat.le_trans (by decide) hbound,
        enumerates_of_getElem? fun k hk => hlist k (Nat.lt_succ_of_le hk)⟩

end

end Ittrium.Vfs
