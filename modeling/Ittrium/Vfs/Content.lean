import Ittrium.Vfs.RamSteps
import Ittrium.Infra.Journal

/-!
# What is in a file

`rf_write` stores at the position of the handle, wherever the file ends by then, and adds the length
to it without a look at the carry.

* `journal` — the writes to a file since it was last truncated
* `Straight` — a write that begins within the file and whose end is a `size_t`
* `ram_content` — **after such writes every read returns what was written last**
-/

namespace Ittrium.Vfs

open Infra

variable {W : Nat} {m m' : RamMem} {rel name : Str} {flags : Flags} {e : Answer} {i j : EntIx}
  {f : Addr} {buf : Nat → UInt8} {len : Nat} {tr : List RamEvent} {ev : RamEvent}

/-! ## The past of a file -/

/-- The write to the entry `i` that has succeeded. -/
def writtenTo (i : EntIx) (ev : RamEvent) : Option (Written UInt8) :=
  match ev.label with
  | (.write f buf len _, .rc n) =>
    (ev.pre.files f).bind fun file =>
      if file.ent = i ∧ 0 ≤ n then some ⟨file.pos, len, buf⟩ else none
  | _ => none

/-- An open truncates the file `i`, also one that then fails for want of memory, or makes it. -/
def truncates (i : EntIx) (ev : RamEvent) : Bool :=
  match ev.label.1 with
  | .open_ rel flags _ =>
    (findEnt ev.pre rel = some i && flags.has vfsOTrunc) ||
      (!(ev.pre.ents i).used && (ev.post.ents i).used)
  | _ => false

/-- The writes to the file `i` since it was last truncated, the latest one first. -/
def journal (i : EntIx) : List RamEvent → List (Written UInt8)
  | [] => []
  | ev :: tr =>
    if truncates i ev then []
    else
      match writtenTo i ev with
      | some w => w :: journal i tr
      | none => journal i tr

/-- A write that passes the checks ends at a `size_t`, and begins where the file is. -/
def Straight (W : Nat) (m : RamMem) : RamAct → Prop
  | .write f _ len e =>
    ∀ file ∈ m.files f, Stores W (m.ents file.ent) file.pos len e →
      file.pos + len < 2 ^ W ∧ file.pos ≤ (m.ents file.ent).size
  | _ => True

instance (m : RamMem) (a : RamAct) : Decidable (Straight W m a) :=
  RamAct.casesOn (motive := fun a => Decidable (Straight W m a)) a
    (fun _ _ _ => inferInstanceAs (Decidable True))
    (fun _ _ => inferInstanceAs (Decidable True))
    (fun f _ _ _ => inferInstanceAs (Decidable (∀ file ∈ m.files f, _ → _)))
    (fun _ _ _ => inferInstanceAs (Decidable True))
    (fun _ => inferInstanceAs (Decidable True))
    (fun _ => inferInstanceAs (Decidable True))
    (fun _ _ _ => inferInstanceAs (Decidable True))

/-! ## What the files hold -/

/-- Every file holds what its journal says. -/
def RamMem.Faithful (m : RamMem) (tr : List RamEvent) : Prop :=
  ∀ i, Holds 0 (journal i tr) (m.ents i).size (m.ents i).data

theorem journal_same (ht : truncates i ev = false) (hw : writtenTo i ev = none) :
    journal i (ev :: tr) = journal i tr := by
  rw [journal, ht, hw]
  rfl

theorem journal_written {w : Written UInt8} (ht : truncates i ev = false)
    (hw : writtenTo i ev = some w) : journal i (ev :: tr) = w :: journal i tr := by
  rw [journal, ht, hw]
  rfl

theorem journal_truncated (ht : truncates i ev = true) : journal i (ev :: tr) = [] := by
  rw [journal, ht]
  rfl

theorem truncates_open {r : RamRes} : truncates i ⟨m, (.open_ rel flags e, r), m'⟩ =
    ((findEnt m rel = some i && flags.has vfsOTrunc) ||
      (!(m.ents i).used && (m'.ents i).used)) := rfl

/-- An open leaves a file as it is, or truncates it. -/
theorem faithful_open {r : RamRes} (h : m.Faithful tr) (ha : ramAct W m (.open_ rel flags e) = some (m', r)) :
    m'.Faithful (⟨m, (.open_ rel flags e, r), m'⟩ :: tr) := by
  cases ha
  intro i
  rcases rfOpen_cases rel flags e m with ⟨hno, he⟩ | ⟨k, m₁, hne, hent, he⟩
  · -- nothing was found or made
    have hnone : findEnt m rel = none := by
      rcases hno with hno | hno
      · unfold findEnt
        rw [if_pos hno]
      · rw [← findEnt_strip]
        exact (entFor_none.mp hno).1
    rw [he, journal_same (by simp [truncates, hnone]) rfl]
    exact h i
  · have hents : (rfOpen rel flags e m).2.ents = (truncEnt k flags m₁).ents := by
      rcases he with ⟨-, he⟩ | ⟨b, -, he⟩ <;> rw [he]
      rfl
    rw [hents]
    rcases entFor_cases hent with ⟨hfound, rfl⟩ | ⟨hnone, -, hfree, -, rfl⟩
    · rw [findEnt_strip] at hfound
      by_cases hi : i = k ∧ flags.has vfsOTrunc = true
      · obtain ⟨rfl, htrunc⟩ := hi
        rw [journal_truncated (by rw [truncates_open, hfound, htrunc]; simp)]
        rw [truncEnt_size htrunc]
        exact .empty 0 _
      · have hsame : (truncEnt k flags m₁).ents i = m₁.ents i := by
          by_cases hik : i = k
          · subst hik
            rw [truncEnt_ents_self, if_neg fun ht => hi ⟨rfl, (Bool.and_eq_true_iff.mp ht).1⟩]
          · exact truncEnt_of_ne hik
        have htrunc : (some k = some i && flags.has vfsOTrunc) = false := by
          rw [Bool.and_eq_false_iff, decide_eq_false_iff_not]
          by_cases hik : k = i
          · exact Or.inr (by simpa [hik] using hi)
          · exact Or.inl fun h => hik (Option.some.inj h)
        rw [hsame, journal_same ?_ rfl]
        · exact h i
        · rw [truncates_open, hents, hsame, hfound, htrunc, Bool.false_or, Bool.not_and_self]
    · rw [findEnt_strip] at hnone
      have hfalse : (findEnt m rel = some i && flags.has vfsOTrunc) = false := by simp [hnone]
      by_cases hik : i = k
      · -- the file has been made
        subst hik
        have hused : ((truncEnt i flags (m.setEnt i (.new (strip rel)))).ents i).used = true := by
          rw [truncEnt_used, RamMem.setEnt_self]
          rfl
        have hsize : ((truncEnt i flags (m.setEnt i (.new (strip rel)))).ents i).size = 0 := by
          rw [truncEnt_ents_self, RamMem.setEnt_self]
          split <;> rfl
        rw [journal_truncated (by rw [truncates_open, hents, hfree, hused]; simp), hsize]
        exact .empty 0 _
      · rw [truncEnt_of_ne hik, RamMem.setEnt_of_ne hik, journal_same ?_ rfl]
        · exact h i
        · rw [truncates_open, hents, truncEnt_of_ne hik, RamMem.setEnt_of_ne hik, hfalse,
            Bool.false_or, Bool.not_and_self]

theorem faithful_write {r : RamRes} (h : m.Faithful tr) (hs : Straight W m (.write f buf len e))
    (ha : ramAct W m (.write f buf len e) = some (m', r)) :
    m'.Faithful (⟨m, (.write f buf len e, r), m'⟩ :: tr) := by
  obtain ⟨⟨n, m''⟩, hw, he⟩ := Option.map_eq_some_iff.mp ha
  cases he
  obtain ⟨file, hf, -⟩ := Option.bind_eq_some_iff.mp hw
  have hwritten : ∀ i m', writtenTo i ⟨m, (.write f buf len e, .rc n), m'⟩ =
      if file.ent = i ∧ 0 ≤ n then some ⟨file.pos, len, buf⟩ else none := by
    intro i m'
    show (m.files f).bind _ = _
    rw [hf]
    rfl
  intro i
  rcases rfWrite_cases hf with ⟨-, he⟩ | ⟨hst, hmax, ent', hr, ⟨hcap, hpos, he⟩ | ⟨-, he⟩⟩
  · cases he.symm.trans hw
    rw [journal_same rfl (by rw [hwritten, if_neg (by omega)])]
    exact h i
  · cases he.symm.trans hw
    -- the write goes into the journal of one entry
    by_cases hi : file.ent = i
    · subst hi
      obtain ⟨hwrap, hle⟩ := hs file hf hst
      obtain ⟨-, -, hsize, -, hdata⟩ := reserve_some hr
      rw [journal_written rfl ((hwritten _ _).trans (if_pos ⟨rfl, Int.natCast_nonneg _⟩))]
      have hold : Holds 0 (journal file.ent tr) ent'.size ent'.data :=
        hsize ▸ (h file.ent).congr hdata
      have hnew := hold.write ⟨file.pos, len, buf⟩ (hsize ▸ hle)
      simpa [RamfsEntry.store] using hnew
    · rw [journal_same rfl (by rw [hwritten, if_neg fun h => hi h.1])]
      simpa [RamMem.setEnt_of_ne (Ne.symm hi)] using h i
  · cases he.symm.trans hw

/-- Calls that are neither an open nor a write leave the files as they are. -/
theorem faithful_other {a : RamAct} {r : RamRes} (h : m.Faithful tr) (hents : m'.ents = m.ents)
    (ht : ∀ i, truncates i ⟨m, (a, r), m'⟩ = false) (hw : ∀ i, writtenTo i ⟨m, (a, r), m'⟩ = none) :
    m'.Faithful (⟨m, (a, r), m'⟩ :: tr) := by
  intro i
  rw [hents, journal_same (ht i) (hw i)]
  exact h i

theorem faithful_step {a : RamAct} {r : RamRes} (h : m.Faithful tr) (hs : Straight W m a)
    (ha : ramAct W m a = some (m', r)) : m'.Faithful (⟨m, (a, r), m'⟩ :: tr) := by
  cases a with
  | open_ rel flags e => exact faithful_open h ha
  | write f buf len e => exact faithful_write h hs ha
  | read f len =>
    obtain ⟨x, hx, he⟩ := Option.map_eq_some_iff.mp ha
    cases he
    refine faithful_other h ?_ (fun _ => rfl) fun _ => rfl
    obtain ⟨file, -, -, hm | ⟨file', -, hm⟩⟩ := rfRead_cases hx <;> rw [hm]
    rfl
  | lseek f off whence =>
    obtain ⟨x, hx, he⟩ := Option.map_eq_some_iff.mp ha
    cases he
    refine faithful_other h ?_ (fun _ => rfl) fun _ => rfl
    obtain ⟨file, -, hm | ⟨-, file', -, hm⟩⟩ := rfLseek_cases hx <;> rw [hm]
    rfl
  | close f =>
    obtain ⟨x, hx, he⟩ := Option.map_eq_some_iff.mp ha
    cases he
    refine faithful_other h ?_ (fun _ => rfl) fun _ => rfl
    obtain ⟨file, -, rfl⟩ := Option.map_eq_some_iff.mp hx
    rfl
  | stat rel =>
    cases ha
    exact faithful_other h rfl (fun _ => rfl) fun _ => rfl
  | listdir rel nlen idx =>
    obtain ⟨x, hx, he⟩ := Option.map_eq_some_iff.mp ha
    cases he
    exact faithful_other h rfl (fun _ => rfl) fun _ => rfl

/-! ## Runs -/

/-- What reads and writes rely on, in a state reached with the past `tr`: the size is the largest
end of a write, a read returns what was written last, and no write leaves the buffer or ends beyond
the bound. -/
structure FilesRight (W : Nat) (tr : List RamEvent) (m : RamMem) : Prop where
  size : ∀ i, (m.ents i).size = extent (journal i tr)
  bounds : ∀ i, (m.ents i).size ≤ (m.ents i).cap ∧ (m.ents i).cap ≤ ramfsMaxSize
  read : ∀ f file len, m.files f = some file →
    let n := min len ((m.ents file.ent).size - file.pos)
    (rfRead f len m).map Prod.fst =
      some ((n : Int), (List.range n).map fun k => lastWritten 0 (journal file.ent tr) (file.pos + k))
  inside : ∀ f file buf len e, m.files f = some file → Straight W m (.write f buf len e) →
    rfWrite W f buf len e m ≠ none
  beyond : ∀ f file buf len e, m.files f = some file → Straight W m (.write f buf len e) →
    ramfsMaxSize < file.pos + len → rfWrite W f buf len e m = some (-1, m)

theorem RamMem.Faithful.right (h : m.Faithful tr) : FilesRight W tr m where
  size := fun i => (h i).1
  bounds := fun i => ⟨(m.ents i).size_le, (m.ents i).cap_le⟩
  read := by
    intro f file len hf n
    cases hr : rfRead f len m with
    | none =>
      rw [rfRead, hf] at hr
      cases hr
    | some r =>
      obtain ⟨file', hf', hres, -⟩ := rfRead_cases hr
      obtain rfl : file = file' := Option.some.inj (hf.symm.trans hf')
      rw [Option.map_some, hres]
      congr 2
      refine List.map_congr_left fun k hk => (h file.ent).2 _ ?_
      have hk : k < min len ((m.ents file.ent).size - file.pos) := List.mem_range.mp hk
      omega
  inside := by
    intro f file buf len e hf hs
    rcases rfWrite_cases hf with ⟨-, he⟩ | ⟨hst, hmax, ent', hr, ⟨hcap, hpos, he⟩ | ⟨hcap, -⟩⟩
    · rw [he]
      simp
    · rw [he]
      simp
    -- the end does not wrap, so what was reserved is enough
    · have hwrap := (hs file hf hst).1
      obtain ⟨-, -, -, hneed, -⟩ := reserve_some hr
      rw [Nat.mod_eq_of_lt hwrap] at hneed
      omega
  beyond := by
    intro f file buf len e hf hs hover
    rcases rfWrite_cases hf with ⟨-, he⟩ | ⟨hst, -⟩
    · exact he
    · have hwrap := (hs file hf hst).1
      have hmax := hst.1
      rw [Nat.mod_eq_of_lt hwrap] at hmax
      omega

theorem RamMem.Faithful.start : RamMem.empty.Faithful [] := fun _ => .empty 0 _

/-- **After writes that begin within the file a file holds what was written to it last.** -/
theorem ram_content (h : RamRun W (Straight W) tr m) : FilesRight W tr m := by
  suffices hf : m.Faithful tr from hf.right
  induction h with
  | start hs => exact hs ▸ .start
  | step _ hs ih => exact faithful_step ih hs.1.2 hs.2

/-- The second write begins inside the first one. -/
theorem ram_content_overlap : ∃ tr m, RamRun 64 (Straight 64) tr m ∧ FilesRight 64 tr m ∧
    (rfRead 2 9 m).map (·.1.2) = some [7, 8, 8, 8] := by
  have hstart : RamStart .empty := rfl
  obtain ⟨tr, m, hrun, hread⟩ := exists_perform
    (f := ramAct 64) (C := fun m a => m.Admits 64 a ∧ Straight 64 m a) hstart
    [.open_ fileA vfsOCreat (filledWith 1 0), .write 1 (fun _ => 7) 2 (filledWith 3 0xaa),
      .lseek 1 1 vfsSeekSet, .write 1 (fun _ => 8) 3 none, .open_ fileA 0 (filledWith 2 0)]
    (fun _ m => (rfRead 2 9 m).map (·.1.2) = some [7, 8, 8, 8]) (by decide +kernel)
  exact ⟨tr, m, hrun, ram_content hrun, hread⟩

/-- A file is truncated while the handle `1` is at `2`. The next write through this handle brings
two bytes that nobody wrote, and a write of almost all of memory leaves the buffer. -/
theorem ram_content_gap : ∃ tr m, RamRun 64 (fun _ _ => True) tr m ∧ ¬ FilesRight 64 tr m ∧
    rfWrite 64 1 (fun _ => 7) (2 ^ 64 - 1) none m = none := by
  have hstart : RamStart .empty := rfl
  obtain ⟨tr, m, hrun, hfile, hread, hlast, hwrap⟩ := exists_perform
    (f := ramAct 64) (C := fun m a => m.Admits 64 a ∧ True) hstart
    [.open_ fileA vfsOCreat (filledWith 1 0), .write 1 (fun _ => 7) 2 (filledWith 3 0xaa),
      .open_ fileA vfsOTrunc (filledWith 2 0), .write 1 (fun _ => 7) 1 (filledWith 3 0xaa)]
    (fun tr m => (m.files 2).map (fun file => (file.ent.val, file.pos)) = some (0, 0) ∧
      (rfRead 2 1 m).map (·.1.2) = some [0xaa] ∧ lastWritten 0 (journal ⟨0, by decide⟩ tr) 0 = 0 ∧
        (rfWrite 64 1 (fun _ => 7) (2 ^ 64 - 1) none m).isNone) (by decide +kernel)
  refine ⟨tr, m, hrun, fun hright => ?_, Option.isNone_iff_eq_none.mp hwrap⟩
  obtain ⟨file, hf, he⟩ := Option.map_eq_some_iff.mp hfile
  obtain ⟨hent, hpos⟩ := Prod.mk.inj he
  have hok := congrArg (Option.map Prod.snd) (hright.read 2 file 1 hf)
  rw [Option.map_map] at hok
  have hbytes := Option.some.inj (hok.symm.trans hread)
  have hmem : (0xaa : UInt8) ∈ [(0xaa : UInt8)] := List.mem_singleton_self _
  rw [← hbytes] at hmem
  obtain ⟨k, hk, hbyte⟩ := List.mem_map.mp hmem
  have hk : k < min 1 _ := List.mem_range.mp hk
  have hzero : file.pos + k = 0 := by
    rw [hpos]
    omega
  rw [hzero, show file.ent = ⟨0, by decide⟩ from Fin.ext hent, hlast] at hbyte
  cases hbyte

end Ittrium.Vfs
