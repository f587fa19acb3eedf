import Ittrium.Vfs.Ramfs
import Ittrium.Infra.Run

/-!
# What the calls of the RAM file system do

For each operation one lemma says everything it can do. Runs begin with no files, and any number of
handles is open.

* `findEnt_some`, `findEnt_none` — the search for a name
* `rfOpen_cases`, `rfRead_cases`, `rfWrite_cases`, `rfLseek_cases` — the operations
* `RamAct`, `RamRun` — the runs
-/

namespace Ittrium.Vfs

open Infra

variable {W : Nat} {m m' : RamMem} {rel name : Str} {flags : Flags} {e : Answer} {i j : EntIx}
  {f : Addr} {buf : Nat → UInt8} {len : Nat}

/-! ## Searching -/

/-- The entry `i` is the file of that name. -/
def RamMem.Named (m : RamMem) (i : EntIx) (name : Str) : Prop :=
  (m.ents i).used = true ∧ (m.ents i).name = name

theorem findEnt_some (h : findEnt m rel = some i) : strip rel ≠ [] ∧ m.Named i (strip rel) := by
  unfold findEnt at h
  dsimp only at h
  split at h
  · cases h
  · next hne =>
    have hi := List.find?_some h
    rw [Bool.and_eq_true, decide_eq_true_eq] at hi
    exact ⟨hne, hi⟩

theorem findEnt_none (h : findEnt m rel = none) (hne : strip rel ≠ []) :
    ¬ m.Named i (strip rel) := by
  unfold findEnt at h
  dsimp only at h
  rw [if_neg hne] at h
  intro hi
  have := List.find?_eq_none.mp h i (List.mem_finRange i)
  rw [Bool.and_eq_true, decide_eq_true_eq] at this
  exact this hi

theorem findEnt_strip (m : RamMem) (rel : Str) : findEnt m (strip rel) = findEnt m rel := by
  unfold findEnt
  rw [strip_strip]

/-- All entries are files. -/
def RamMem.Full (m : RamMem) : Prop := ∀ i, (m.ents i).used = true

theorem allocEnt_none (name : Str) : allocEnt m name = none ↔ m.Full := by
  unfold allocEnt RamMem.Full
  rw [Option.map_eq_none_iff, List.find?_eq_none]
  simp

/-- A new file gets the first entry that is not in use. -/
theorem allocEnt_some (h : allocEnt m name = some (i, m')) :
    (m.ents i).used = false ∧ (∀ j < i, (m.ents j).used = true) ∧ m' = m.setEnt i (.new name) := by
  unfold allocEnt at h
  obtain ⟨k, hk, he⟩ := Option.map_eq_some_iff.mp h
  cases he
  obtain ⟨hfree, n, hn, hi, hbefore⟩ := List.find?_eq_some_iff_getElem.mp hk
  rw [List.getElem_finRange] at hi
  refine ⟨by simpa using hfree, fun j hj => ?_, rfl⟩
  have hjn : j.val < n := by
    rw [← hi] at hj
    exact hj
  have hj := hbefore j.val hjn
  rw [List.getElem_finRange] at hj
  simpa using hj

/-! ## Open -/

/-- The file is found, or made. -/
theorem entFor_cases (h : entFor name flags m = some (i, m')) :
    findEnt m name = some i ∧ m' = m ∨
      findEnt m name = none ∧ flags.has vfsOCreat = true ∧ (m.ents i).used = false ∧
        (∀ j < i, (m.ents j).used = true) ∧ m' = m.setEnt i (.new name) := by
  unfold entFor at h
  split at h
  · next hf =>
    cases h
    exact Or.inl ⟨hf, rfl⟩
  · next hf =>
    split at h
    · next hc => exact Or.inr ⟨hf, hc, allocEnt_some h⟩
    · cases h

/-- No file is found or made. -/
theorem entFor_none : entFor name flags m = none ↔
    findEnt m name = none ∧ (flags.has vfsOCreat = true → m.Full) := by
  unfold entFor
  split
  · next hf => simp [hf]
  · next hf =>
    rw [← allocEnt_none name]
    split
    · next hc => simp [hf, hc]
    · next hc => simp [hf, hc]

/-- An open fails with nothing done, fails for want of memory, or succeeds. -/
theorem rfOpen_cases (rel : Str) (flags : Flags) (e : Answer) (m : RamMem) :
    (strip rel = [] ∨ entFor (strip rel) flags m = none) ∧
        rfOpen rel flags e m = (.error (-1), m) ∨
      ∃ i m', strip rel ≠ [] ∧ entFor (strip rel) flags m = some (i, m') ∧
        (e = none ∧ rfOpen rel flags e m = (.error (-1), truncEnt i flags m') ∨
          ∃ b, e = some b ∧ rfOpen rel flags e m =
            (.ok b.addr, (truncEnt i flags m').setFile b.addr
              (some ⟨i, openPos ((truncEnt i flags m').ents i) flags, openPos_le _ flags⟩))) := by
  unfold rfOpen
  dsimp only
  by_cases hname : strip rel = []
  · rw [if_pos hname]
    exact Or.inl ⟨Or.inl hname, rfl⟩
  · rw [if_neg hname]
    cases hent : entFor (strip rel) flags m with
    | none => exact Or.inl ⟨Or.inr rfl, rfl⟩
    | some x =>
      refine Or.inr ⟨x.1, x.2, hname, rfl, ?_⟩
      cases e with
      | none => exact Or.inl ⟨rfl, rfl⟩
      | some b => exact Or.inr ⟨b, rfl, rfl⟩

@[simp] theorem truncEnt_files (i : EntIx) (flags : Flags) (m : RamMem) :
    (truncEnt i flags m).files = m.files := by
  unfold truncEnt
  split <;> rfl

theorem truncEnt_of_ne (h : j ≠ i) : (truncEnt i flags m).ents j = m.ents j := by
  unfold truncEnt
  split
  · exact RamMem.setEnt_of_ne h _ _
  · rfl

/-- A file that is not truncated stays as it is. -/
theorem truncEnt_ents_self : (truncEnt i flags m).ents i =
    if flags.has vfsOTrunc && (m.ents i).cap ≠ 0 then (m.ents i).truncate else m.ents i := by
  unfold truncEnt
  split
  · exact RamMem.setEnt_self _ _ _
  · rfl

/-- After truncation the file is empty. -/
theorem truncEnt_size (h : flags.has vfsOTrunc = true) : ((truncEnt i flags m).ents i).size = 0 := by
  rw [truncEnt_ents_self]
  have := (m.ents i).size_le
  split
  · rfl
  · next hcap =>
    rw [h, Bool.true_and, decide_eq_true_eq, not_not] at hcap
    omega

theorem truncEnt_used : ((truncEnt i flags m).ents j).used = (m.ents j).used := by
  by_cases hj : j = i
  · rw [hj, truncEnt_ents_self]
    split <;> rfl
  · rw [truncEnt_of_ne hj]

theorem entFor_files (h : entFor name flags m = some (i, m')) : m'.files = m.files := by
  rcases entFor_cases h with ⟨-, rfl⟩ | ⟨-, -, -, -, rfl⟩ <;> rfl

/-- An open that fails opens no file, and one that succeeds opens a file where `malloc` says. -/
theorem rfOpen_files (rel : Str) (flags : Flags) (e : Answer) (m : RamMem) :
    (∃ m', rfOpen rel flags e m = (.error (-1), m') ∧ m'.files = m.files) ∨
      ∃ (m' : RamMem) (b : Block) (file : RamfsFile), e = some b ∧ m'.files = m.files ∧
        rfOpen rel flags e m = (.ok b.addr, m'.setFile b.addr (some file)) := by
  rcases rfOpen_cases rel flags e m with ⟨-, h⟩ | ⟨i, m', -, hent, ⟨-, h⟩ | ⟨b, he, h⟩⟩
  · exact Or.inl ⟨m, h, rfl⟩
  · exact Or.inl ⟨_, h, (truncEnt_files i flags m').trans (entFor_files hent)⟩
  · exact Or.inr ⟨_, b, _, he, (truncEnt_files i flags m').trans (entFor_files hent), h⟩

/-! ## Read, write and seek -/

theorem rfRead_cases {r : (Int × List UInt8) × RamMem} (h : rfRead f len m = some r) :
    ∃ file, m.files f = some file ∧
      let n := min len ((m.ents file.ent).size - file.pos)
      r.1 = ((n : Int), (List.range n).map fun k => (m.ents file.ent).data (file.pos + k)) ∧
        (r.2 = m ∨ ∃ file', file'.ent = file.ent ∧ r.2 = m.setFile f (some file')) := by
  obtain ⟨file, hf, he⟩ := Option.map_eq_some_iff.mp h
  refine ⟨file, hf, ?_⟩
  dsimp only at he ⊢
  split at he
  · next hpos =>
    subst he
    rw [Nat.sub_eq_zero_of_le hpos, Nat.min_zero]
    exact ⟨rfl, Or.inl rfl⟩
  · subst he
    refine ⟨rfl, Or.inr ⟨_, ?_, rfl⟩⟩
    rfl

theorem reserve_none {need : Nat} {ent : RamfsEntry} {h : need ≤ ramfsMaxSize} :
    ent.reserve need e h = none ↔ ent.cap < need ∧ e = none := by
  unfold RamfsEntry.reserve
  split
  · next hneed =>
    rw [Option.map_eq_none_iff]
    exact ⟨fun he => ⟨hneed, he⟩, And.right⟩
  · next hneed => simp [hneed]

/-- More room leaves the file as it is. -/
theorem reserve_some {need : Nat} {ent ent' : RamfsEntry} {h : need ≤ ramfsMaxSize}
    (hr : ent.reserve need e h = some ent') :
    ent'.name = ent.name ∧ ent'.used = ent.used ∧ ent'.size = ent.size ∧ need ≤ ent'.cap ∧
      ∀ k < ent.size, ent'.data k = ent.data k := by
  have hsize := ent.size_le
  unfold RamfsEntry.reserve at hr
  split at hr
  · obtain ⟨b, -, rfl⟩ := Option.map_eq_some_iff.mp hr
    exact ⟨rfl, rfl, rfl, le_grownCap ent.cap h, fun k hk => if_pos (by omega)⟩
  · cases hr
    exact ⟨rfl, rfl, rfl, by omega, fun _ _ => rfl⟩

/-- The write passes the checks of the code: it is within the bound, and there is memory. -/
def Stores (W : Nat) (ent : RamfsEntry) (pos len : Nat) (e : Answer) : Prop :=
  (pos + len) % 2 ^ W ≤ ramfsMaxSize ∧ ((pos + len) % 2 ^ W ≤ ent.cap ∨ e ≠ none)

instance (ent : RamfsEntry) (pos len : Nat) (e : Answer) : Decidable (Stores W ent pos len e) :=
  inferInstanceAs (Decidable (_ ∧ _))

/-- A write fails and does nothing, stores its bytes, or leaves the buffer. -/
theorem rfWrite_cases {file : RamfsFile} (hf : m.files f = some file) :
    let ent := m.ents file.ent
    ¬ Stores W ent file.pos len e ∧ rfWrite W f buf len e m = some (-1, m) ∨
      Stores W ent file.pos len e ∧ ∃ h ent',
        ent.reserve ((file.pos + len) % 2 ^ W) e h = some ent' ∧
          ((∃ hcap hpos, rfWrite W f buf len e m = some ((len : Int),
              (m.setEnt file.ent (ent'.store file.pos len buf hcap)).setFile f
                (some ⟨file.ent, file.pos + len, hpos⟩))) ∨
            ent'.cap < file.pos + len ∧ rfWrite W f buf len e m = none) := by
  dsimp only
  unfold Stores rfWrite
  rw [hf, Option.bind_some]
  dsimp only
  -- beyond the bound nothing is stored, and else there is a buffer or there is no memory
  by_cases hmax : (file.pos + len) % 2 ^ W > ramfsMaxSize
  · rw [dif_pos hmax]
    exact Or.inl ⟨fun h => absurd h.1 (Nat.not_le_of_gt hmax), rfl⟩
  · rw [dif_neg hmax]
    cases hr : (m.ents file.ent).reserve ((file.pos + len) % 2 ^ W) e (Nat.le_of_not_gt hmax) with
    | none =>
      obtain ⟨hcap, he⟩ := reserve_none.mp hr
      refine Or.inl ⟨fun h => ?_, rfl⟩
      rcases h.2 with h | h
      · omega
      · exact h he
    | some ent' =>
      refine Or.inr ⟨⟨Nat.le_of_not_gt hmax, ?_⟩, Nat.le_of_not_gt hmax, ent', hr, ?_⟩
      · by_contra hno
        obtain ⟨hcap, he⟩ := not_or.mp hno
        rw [reserve_none.mpr ⟨Nat.lt_of_not_le hcap, not_not.mp he⟩] at hr
        cases hr
      · by_cases hcap : file.pos + len ≤ ent'.cap
        · exact Or.inl ⟨hcap, Nat.le_trans hcap ent'.cap_le, dif_pos hcap⟩
        · exact Or.inr ⟨Nat.lt_of_not_le hcap, dif_neg hcap⟩

theorem rfLseek_cases {off whence : Int} {r : Int × RamMem} (h : rfLseek W f off whence m = some r) :
    ∃ file, m.files f = some file ∧
      (r = (-1, m) ∨ 0 ≤ r.1 ∧ ∃ file', file'.ent = file.ent ∧ r.2 = m.setFile f (some file')) := by
  obtain ⟨file, hf, he⟩ := Option.map_eq_some_iff.mp h
  refine ⟨file, hf, ?_⟩
  dsimp only at he
  split at he
  · exact Or.inl he.symm
  · split at he
    · exact Or.inl he.symm
    · subst he
      refine Or.inr ⟨Int.natCast_nonneg _, _, ?_, rfl⟩
      rfl

/-! ## Runs -/

/-- A call of the RAM file system. -/
inductive RamAct where
  | open_ (rel : Str) (flags : Flags) (e : Answer)
  | read (f : Addr) (len : Nat)
  | write (f : Addr) (buf : Nat → UInt8) (len : Nat) (e : Answer)
  | lseek (f : Addr) (off whence : Int)
  | close (f : Addr)
  | stat (rel : Str)
  | listdir (rel : Str) (nlen : Nat) (idx : Int)

/-- What a call returns. -/
inductive RamRes where
  | opened (res : Except Int Addr)
  | bytes (rc : Int) (data : List UInt8)
  | rc (rc : Int)
  | stat (res : Except Int Stat)
  | listed (res : ListResult)

def ramAct (W : Nat) (m : RamMem) : RamAct → Option (RamMem × RamRes)
  | .open_ rel flags e =>
    let r := rfOpen rel flags e m
    some (r.2, .opened r.1)
  | .read f len => (rfRead f len m).map fun r => (r.2, .bytes r.1.1 r.1.2)
  | .write f buf len e => (rfWrite W f buf len e m).map fun r => (r.2, .rc r.1)
  | .lseek f off whence => (rfLseek W f off whence m).map fun r => (r.2, .rc r.1)
  | .close f => (rfClose f m).map fun r => (r.2, .rc r.1)
  | .stat rel => some (m, .stat (rfStat rel m))
  | .listdir rel nlen idx => (rfListdir rel nlen idx m).map fun r => (m, .listed r)

/-- `malloc` returns memory that no open file is in. -/
def RamMem.Answers (e : Answer) (m : RamMem) : Prop := (e.bind fun b => m.files b.addr) = none

instance (e : Answer) (m : RamMem) : Decidable (RamMem.Answers e m) :=
  inferInstanceAs (Decidable (_ = none))

/-- What may be passed to a call: a length is a `size_t`, and `malloc` answers as it does. -/
def RamMem.Admits (W : Nat) (m : RamMem) : RamAct → Prop
  | .open_ _ _ e => RamMem.Answers e m
  | .read _ len => len < 2 ^ W
  | .write _ _ len _ => len < 2 ^ W
  | _ => True

instance (m : RamMem) (a : RamAct) : Decidable (m.Admits W a) := by
  cases a
  case open_ rel flags e => exact inferInstanceAs (Decidable (RamMem.Answers e m))
  case read f len => exact inferInstanceAs (Decidable (len < 2 ^ W))
  case write f buf len e => exact inferInstanceAs (Decidable (len < 2 ^ W))
  all_goals exact inferInstanceAs (Decidable True)

abbrev RamEvent := Event RamMem (RamAct × RamRes)

/-- There are no files. -/
def RamStart (m : RamMem) : Prop := m = .empty

/-- The runs whose calls all meet `C`. -/
abbrev RamRun (W : Nat) (C : RamMem → RamAct → Prop) : List RamEvent → RamMem → Prop :=
  Run RamStart fun m l m' => (m.Admits W l.1 ∧ C m l.1) ∧ ramAct W m l.1 = some (m', l.2)

/-- The RAM file system, mounted at the root. -/
def ramRoot : VfsState Unit Addr Answer RamMem := (ramfsMount 64 [slash] (vfsInit .empty)).2

theorem ramRoot_ops {k : MountIx} {mnt : Mount Unit Addr Answer RamMem}
    (h : ramRoot.mounts k = some mnt) : mnt.ops = ramfsOps 64 := by
  have hmounts : ramRoot.mounts = Function.update (fun _ => none) ⟨0, by decide⟩
      (some ⟨[slash], ramfsOps 64, (), by decide, by decide⟩) := rfl
  rw [hmounts] at h
  by_cases hk : k = ⟨0, by decide⟩
  · rw [hk, Function.update_self] at h
    cases h
    rfl
  · rw [Function.update_of_ne hk] at h
    cases h

/-- The file `/a` and the file `/b`. -/
def pathA : Str := [slash, 0x61]
def pathB : Str := [slash, 0x62]

/-- The file `a`. -/
def fileA : Str := [0x61]

/-- New memory with `x` in all bytes. -/
def filledWith (a : Addr) (x : UInt8) : Answer := some ⟨a, fun _ => x⟩

end Ittrium.Vfs
