import Ittrium.Elf.Buffer
import Ittrium.Elf.Launch

/-!
# Where modules are

An image is a block of the heap or lies in the window. The window is not a block: nothing keeps a
second file, or a block, out of an image that is there.

* `Mapped` — the system, with the window's images and the sizes of stacks noted
* `Mapped.Allots` — what `malloc` and `memalign` promise
* `Mapped.Clear` — what has to be true of the window and of the stack besides
* `elfRunWith_eq` — `elf_run` reads the file from its buffer, and finds it there unchanged
* `modules_apart` — **then images of live modules never overlap, and no `elf_run` changes a byte of
  an image or a stack that is live**
-/

namespace Ittrium.Elf

open Infra

variable {cfg : Config}

/-! ## The system -/

/-- The system, and the stack size each slot was filled in with. -/
structure Mapped (cfg : Config) extends Noted cfg where
  stksz : ModIx cfg → SIZE

inductive MapAct (cfg : Config) where
  /-- `got` is what the file buffer holds as far as no file is read into it. -/
  | run (a : RunArgs) (got : VP → UInt8)
  | kill (tskid : Int)
  | call (c : Call cfg)

/-- What is found in the file buffer, and what a read that ends early has put there. -/
def Sys.readFile (file : LoadFile) (got : VP → UInt8) (s : Sys cfg) : Sys cfg :=
  { s with kernel := s.kernel.withMem fun x =>
      if file.buffer.any fun b => (x - b.1).toNat < b.2 then got x else s.kernel.core.mem x }

/-- The blocks `elf_run` asks for. -/
def RunArgs.blocks (a : RunArgs) : List (VP × Nat) :=
  a.loads.buffer ++ a.loads.imageBlock a.image ++
    if a.stack = 0 then a.stackMem.toList.map (·, a.stksz.toNat) else []

namespace Mapped

variable (n : Mapped cfg)

/-- `elf_run`. -/
def run (a : RunArgs) (got : VP → UInt8) : SysExec (Mapped cfg × Ret cfg) := do
  let (s, b) ← elfRunWith elfLoadIn a (n.sys.readFile a.loads got)
  match b with
  | .done r => .ok ({ n with sys := s }, r)
  | .pending p =>
    let (s, r) := elfRunEnd p s
    .ok (⟨⟨s, Function.update n.fixed p.mod a.file.isFixed⟩,
      Function.update n.stksz p.mod a.stksz⟩, r)

def act : MapAct cfg → SysExec (Mapped cfg × Ret cfg)
  | .run a got => n.run a got
  | .kill tskid => do
    let (s, r) ← elfKill tskid n.sys
    .ok ({ n with sys := s }, r)
  | .call c => do
    let (s, r) ← n.sys.call c
    .ok ({ n with sys := s }, r)

/-! ## Live modules -/

def Used (i : ModIx cfg) : Prop := (n.sys.mods i).used = true

instance (i : ModIx cfg) : Decidable (n.Used i) := inferInstanceAs (Decidable (_ = _))

abbrev image (i : ModIx cfg) : Set VP :=
  area (n.sys.mods i).img.base (n.sys.mods i).img.size.toNat

abbrev stack (i : ModIx cfg) : Set VP := area (n.sys.mods i).stack (n.stksz i).toNat

/-- The blocks of a module. -/
def blocks (i : ModIx cfg) : List Block :=
  (if (n.sys.mods i).stackOwned then [⟨(n.sys.mods i).stack, (n.stksz i).toNat⟩] else []) ++
    if n.fixed i then [] else [(n.sys.mods i).img.block]

/-- The `k` bytes at `p` are in no image that is live. -/
def OffImages (p : VP) (k : Nat) : Prop := ∀ i, n.Used i → Disjoint (area p k) (n.image i)

/-- Nor in a stack. -/
def OffLive (p : VP) (k : Nat) : Prop :=
  ∀ i, n.Used i → Disjoint (area p k) (n.image i) ∧ Disjoint (area p k) (n.stack i)

/-! ## What is asked for -/

/-- `malloc` and `memalign` return what is neither a block nor the stack of a caller, and not twice
the same. -/
def Allots (a : RunArgs) : Prop :=
  (a.Granted ∧ (∀ b ∈ a.file.buffer, b.1 ∉ a.image) ∧
    ∀ b ∈ a.loads.buffer, ∀ c ∈ a.loads.imageBlock a.image, Disjoint (area b.1 b.2) (area c.1 c.2)) ∧
  ∀ b ∈ a.blocks,
    (∀ c ∈ n.sys.heap, Disjoint (area b.1 b.2) (area c.addr c.size)) ∧
    ∀ i, n.Used i → (n.sys.mods i).stackOwned = false → Disjoint (area b.1 b.2) (n.stack i)

/-- No block is in an image in the window, and no segment up to one that is refused in an image, a
stack or the buffer it is read from. If a task is created, neither image nor stack of another one is
where its image is, the stack the caller has for it, or the frame. -/
def Clear (a : RunArgs) : Prop :=
  (∀ b ∈ a.blocks, ∀ i, n.Used i → n.fixed i = true → Disjoint (area b.1 b.2) (n.image i)) ∧
  (∀ b ∈ a.loads.fixedAreas, n.OffLive b.1 b.2 ∧
    ∀ c ∈ a.loads.buffer, Disjoint (area c.1 c.2) (area b.1 b.2)) ∧
  ∀ c ∈ a.created n.sys,
    (a.file.isFixed = true → n.OffImages c.1.base c.1.size.toNat) ∧
    (a.stack ≠ 0 → n.OffLive a.stack a.stksz.toNat) ∧ n.OffLive (frameAt c.2 a.stksz) 264

/-- The allocator keeps its promise, the window is clear, and no module in it is killed. -/
def Permits : MapAct cfg → Prop
  | .run a _ => n.Allots a ∧ n.Clear a
  | .kill tskid => n.toNoted.Permits (.kill tskid)
  | .call _ => True

end Mapped

/-- Nothing has been loaded. -/
def Vacant (n : Mapped cfg) : Prop := ∀ i, n.sys.mods i = .zero

/-- The runs in which every step meets the condition. -/
abbrev MappedRun : List (Event (Mapped cfg) (MapAct cfg × Ret cfg)) → Mapped cfg → Prop :=
  Run Vacant fun n l n' => n.Permits l.1 ∧ (n.act l.1).toOption = some (n', l.2)

/-- **Images of live modules do not overlap.** -/
def Apart (n : Mapped cfg) : Prop :=
  ∀ i j, n.Used i → n.Used j → i ≠ j → Disjoint (n.image i) (n.image j)

/-- **An `elf_run` changes no byte of an image or a stack that is live.** -/
def Spares (e : Event (Mapped cfg) (MapAct cfg × Ret cfg)) : Prop :=
  ∀ a got, e.label.1 = .run a got → ∀ i, e.pre.Used i →
    Set.EqOn e.post.sys.kernel.core.mem e.pre.sys.kernel.core.mem (e.pre.image i ∪ e.pre.stack i)

/-! ## The invariant -/

/-- Modules have blocks of their own, and images do not overlap. -/
structure Charted (n : Mapped cfg) : Prop where
  allocated : ∀ i, n.Used i → ∀ b ∈ n.blocks i, b ∈ n.sys.heap ∧ b.size ≠ 0
  own : ∀ i j, n.Used i → n.Used j → i ≠ j → ∀ b ∈ n.blocks i, ∀ c ∈ n.blocks j,
    Disjoint (area b.addr b.size) (area c.addr c.size)
  images : Apart n

variable {n n' : Mapped cfg} {s s' : Sys cfg} {a : RunArgs} {i j : ModIx cfg} {p q : VP} {k : Nat}
  {b c : Block} {img : ElfImage} {got : VP → UInt8}

theorem size_le_block (e : ElfImage) : e.size.toNat ≤ e.block.size := by
  unfold ElfImage.block
  dsimp only
  split
  · exact Nat.le_refl _
  · next h0 => rw [not_not.mp h0]; exact Nat.zero_le _

theorem image_subset_block : area img.base img.size.toNat ⊆ area img.block.addr img.block.size :=
  fun _ hx => Nat.lt_of_lt_of_le hx (size_le_block img)

theorem image_mem_blocks (hf : n.fixed i = false) : (n.sys.mods i).img.block ∈ n.blocks i := by
  unfold Mapped.blocks
  rw [hf]
  exact List.mem_append_right _ (List.mem_singleton_self _)

theorem stack_mem_blocks (ho : (n.sys.mods i).stackOwned = true) :
    ⟨(n.sys.mods i).stack, (n.stksz i).toNat⟩ ∈ n.blocks i := by
  unfold Mapped.blocks
  rw [ho]
  exact List.mem_append_left _ (List.mem_singleton_self _)

/-- **A block that is new, and not in the window's images, is where nothing live is.** -/
theorem Charted.offLive (h : Charted n)
    (hheap : ∀ c ∈ n.sys.heap, Disjoint (area p k) (area c.addr c.size))
    (hstack : ∀ i, n.Used i → (n.sys.mods i).stackOwned = false → Disjoint (area p k) (n.stack i))
    (hwin : ∀ i, n.Used i → n.fixed i = true → Disjoint (area p k) (n.image i)) :
    n.OffLive p k := by
  intro i hu
  constructor
  · cases hf : n.fixed i with
    | true => exact hwin i hu hf
    | false =>
      have hmem := (h.allocated i hu _ (image_mem_blocks hf)).1
      exact (hheap _ hmem).mono_right image_subset_block
  · cases ho : (n.sys.mods i).stackOwned with
    | false => exact hstack i hu ho
    | true =>
      have hmem := (h.allocated i hu _ (stack_mem_blocks ho)).1
      have hoff := hheap _ hmem
      exact hoff

/-! ## What `elf_run` writes -/

theorem created_eq {c : ElfImage × VP} (h : c ∈ a.created s) :
    a.loads.image a.image = some c.1 ∧ modAlloc s ≠ none ∧ a.stackAt = some c.2 := by
  obtain ⟨img, himg, h⟩ := Option.bind_eq_some_iff.mp h
  obtain ⟨mod, hmod, h⟩ := Option.bind_eq_some_iff.mp h
  obtain ⟨stack, hst, h⟩ := Option.bind_eq_some_iff.mp h
  split at h
  · obtain rfl := Option.some.inj h
    exact ⟨himg, by rw [hmod]; exact Option.some_ne_none _, hst⟩
  · cases h

theorem stack_mem_asked {stack : VP} (h0 : a.stack = 0) (h : a.stackAt = some stack) :
    (stack, a.stksz.toNat) ∈ a.blocks := by
  rw [RunArgs.stackAt, if_neg (not_not.mpr h0)] at h
  refine List.mem_append_right _ ?_
  rw [if_pos h0, h]
  exact List.mem_singleton_self _

theorem Charted.offLive_block (h : Charted n) (ha : n.Allots a) (hc : n.Clear a) {b : VP × Nat}
    (hb : b ∈ a.blocks) : n.OffLive b.1 b.2 :=
  h.offLive (ha.2 b hb).1 (ha.2 b hb).2 (hc.1 b hb)

/-- **Nothing live is written.** -/
theorem Charted.offLive_writes (h : Charted n) (ha : n.Allots a) (hc : n.Clear a) {b : VP × Nat}
    (hb : b ∈ a.loads.buffer ++ a.writes n.sys) : n.OffLive b.1 b.2 := by
  rcases List.mem_append.mp hb with hb | hb
  · exact h.offLive_block ha hc (List.mem_append_left _ (List.mem_append_left _ hb))
  rcases List.mem_append.mp hb with hb | hb
  · rcases List.mem_append.mp hb with hb | hb
    · exact (hc.2.1 b hb).1
    · exact h.offLive_block ha hc (List.mem_append_left _ (List.mem_append_right _ hb))
  · obtain ⟨c, hcr, hb⟩ := List.mem_flatMap.mp hb
    have hcr : c ∈ a.created n.sys := Option.mem_toList.mp hcr
    obtain ⟨-, hstk, hframe⟩ := hc.2.2 c hcr
    have hat := (created_eq hcr).2.2
    rcases List.mem_cons.mp hb with rfl | hb
    · by_cases h0 : a.stack = 0
      · exact h.offLive_block ha hc (stack_mem_asked h0 hat)
      · rw [RunArgs.stackAt, if_pos h0] at hat
        rw [← Option.some.inj hat]
        exact hstk h0
    · rw [List.mem_singleton.mp hb]
      exact hframe

/-! ## Slots -/

/-- The slot is as it was. -/
def SameSlot (n n' : Mapped cfg) (j : ModIx cfg) : Prop :=
  n'.sys.mods j = n.sys.mods j ∧ n'.fixed j = n.fixed j ∧ n'.stksz j = n.stksz j

namespace SameSlot

theorem used (h : SameSlot n n' j) (hu : n'.Used j) : n.Used j := by
  unfold Mapped.Used at hu ⊢
  rwa [h.1] at hu

theorem blocks (h : SameSlot n n' j) : n'.blocks j = n.blocks j := by
  obtain ⟨hm, hf, hs⟩ := h
  unfold Mapped.blocks
  rw [hm, hf, hs]

theorem image (h : SameSlot n n' j) : n'.image j = n.image j := by
  unfold Mapped.image
  rw [h.1]

end SameSlot

/-- Some slots may be empty now. -/
theorem Charted.sub (h : Charted n) (hs : ∀ j, n'.Used j → SameSlot n n' j)
    (hheap : ∀ j, n'.Used j → ∀ b ∈ n.blocks j, b ∈ n'.sys.heap) : Charted n' := by
  constructor
  · intro j hu b hb
    rw [(hs j hu).blocks] at hb
    exact ⟨hheap j hu b hb, (h.allocated j ((hs j hu).used hu) b hb).2⟩
  · intro i j hui huj hne b hb c hc
    rw [(hs i hui).blocks] at hb
    rw [(hs j huj).blocks] at hc
    exact h.own i j ((hs i hui).used hui) ((hs j huj).used huj) hne b hb c hc
  · intro i j hui huj hne
    rw [(hs i hui).image, (hs j huj).image]
    exact h.images i j ((hs i hui).used hui) ((hs j huj).used huj) hne

/-- A slot is emptied, and its blocks are freed. -/
theorem Charted.empty (h : Charted n) (hu : n.Used i)
    (hm : n'.sys.mods = Function.update n.sys.mods i .zero)
    (hn : n'.fixed = n.fixed ∧ n'.stksz = n.stksz)
    (hheap : ∀ b ∈ n.sys.heap, (∀ c ∈ n.blocks i, b.addr ≠ c.addr) → b ∈ n'.sys.heap) :
    Charted n' := by
  have hne : ∀ j, n'.Used j → j ≠ i := fun j huj he => by
    unfold Mapped.Used at huj
    rw [hm, he, Function.update_self] at huj
    cases huj
  have hsame : ∀ j, n'.Used j → SameSlot n n' j := fun j huj =>
    ⟨by rw [hm, Function.update_of_ne (hne j huj)], congrFun hn.1 j, congrFun hn.2 j⟩
  refine h.sub hsame fun j huj b hb => ?_
  have huj₀ := (hsame j huj).used huj
  obtain ⟨hmem, hsz⟩ := h.allocated j huj₀ b hb
  refine hheap b hmem fun c hc => ?_
  exact ne_of_disjoint (h.own j i huj₀ hu (hne j huj) b hb c hc) hsz (h.allocated i hu c hc).2

/-- What a new module has is apart from what the others have. -/
structure Newcomer (n : Mapped cfg) (l : List Block) (A : Set VP) : Prop where
  blocks : ∀ b ∈ l, b.size ≠ 0 ∧
    ∀ c ∈ n.sys.heap, Disjoint (area b.addr b.size) (area c.addr c.size)
  image : ∀ i, n.Used i → Disjoint A (n.image i)

/-- A free slot is filled in. -/
theorem Charted.fill (h : Charted n) (hs : ∀ j, j ≠ i → SameSlot n n' j)
    (hheap : n'.sys.heap = n'.blocks i ++ n.sys.heap)
    (hnew : Newcomer n (n'.blocks i) (n'.image i)) : Charted n' := by
  -- the other slots have what they had
  have hused : ∀ j, j ≠ i → n'.Used j → n.Used j := fun j hj => (hs j hj).used
  have hown : ∀ j, j ≠ i → n'.Used j → ∀ b ∈ n'.blocks i, ∀ c ∈ n'.blocks j,
      Disjoint (area b.addr b.size) (area c.addr c.size) := fun j hj huj b hb c hc => by
    rw [(hs j hj).blocks] at hc
    exact (hnew.blocks b hb).2 c (h.allocated j (hused j hj huj) c hc).1
  have himage : ∀ j, j ≠ i → n'.Used j → Disjoint (n'.image i) (n'.image j) := fun j hj huj => by
    rw [(hs j hj).image]
    exact hnew.image j (hused j hj huj)
  constructor
  · intro j huj b hb
    rw [hheap]
    by_cases hj : j = i
    · subst hj
      exact ⟨List.mem_append_left _ hb, (hnew.blocks b hb).1⟩
    · rw [(hs j hj).blocks] at hb
      obtain ⟨hmem, hsz⟩ := h.allocated j (hused j hj huj) b hb
      exact ⟨List.mem_append_right _ hmem, hsz⟩
  · intro j₁ j₂ hu₁ hu₂ hne b hb c hc
    by_cases h₁ : j₁ = i
    · subst h₁
      exact hown j₂ (fun he => hne he.symm) hu₂ b hb c hc
    by_cases h₂ : j₂ = i
    · subst h₂
      exact (hown j₁ h₁ hu₁ c hc b hb).symm
    rw [(hs j₁ h₁).blocks] at hb
    rw [(hs j₂ h₂).blocks] at hc
    exact h.own j₁ j₂ (hused j₁ h₁ hu₁) (hused j₂ h₂ hu₂) hne b hb c hc
  · intro j₁ j₂ hu₁ hu₂ hne
    by_cases h₁ : j₁ = i
    · subst h₁
      exact himage j₂ (fun he => hne he.symm) hu₂
    by_cases h₂ : j₂ = i
    · subst h₂
      exact (himage j₁ h₁ hu₁).symm
    rw [(hs j₁ h₁).image, (hs j₂ h₂).image]
    exact h.images j₁ j₂ (hused j₁ h₁ hu₁) (hused j₂ h₂ hu₂) hne

/-! ## Steps -/

/-- Nothing has changed but the kernel, and what the slots do not have. -/
theorem Charted.still (h : Charted n) (hh : s.heap = n.sys.heap) (hm : s.mods = n.sys.mods) :
    Charted { n with sys := s } := by
  refine h.sub (fun j _ => ⟨congrFun hm j, rfl, rfl⟩) fun j hu b hb => ?_
  have hu : n.Used j := by
    unfold Mapped.Used at hu ⊢
    rwa [← congrFun hm j]
  rw [show ({ n with sys := s } : Mapped cfg).sys.heap = n.sys.heap from hh]
  exact (h.allocated j hu b hb).1

theorem block_size_ne (e : ElfImage) : e.block.size ≠ 0 := by
  unfold ElfImage.block
  dsimp only
  split
  · next h0 => exact fun h => h0 (BitVec.eq_of_toNat_eq h)
  · decide

/-- The blocks that are allocated are those that were asked for. -/
theorem mem_asked {e : ElfImage} {stack : VP} (himg : a.loads.image a.image = some e)
    (hat : a.stackAt = some stack) (hb : b ∈ a.stackBlocks stack ++ e.blocks) :
    (b.addr, b.size) ∈ a.blocks ∧ b.size ≠ 0 := by
  rcases List.mem_append.mp hb with hb | hb
  · unfold RunArgs.stackBlocks at hb
    split at hb
    · next h0 =>
      obtain rfl := List.mem_singleton.mp hb
      refine ⟨stack_mem_asked h0 hat, fun hsz => ?_⟩
      have hload : a.loads = .absent := if_pos (Or.inr (BitVec.eq_of_toNat_eq hsz))
      rw [hload] at himg
      cases himg
    · cases hb
  · unfold ElfImage.blocks at hb
    split at hb
    · next hown =>
      obtain rfl := List.mem_singleton.mp hb
      refine ⟨?_, block_size_ne e⟩
      rcases LoadFile.image_cases himg with ⟨-, hno⟩ | ⟨-, -, -, hmem⟩
      · exact absurd hown (by simp [hno])
      · exact List.mem_append_left _ (List.mem_append_right _ hmem)
    · cases hb

theorem readFile_onlyIn (file : LoadFile) (s : Sys cfg) :
    OnlyIn (areas file.buffer) s.kernel.core.mem (s.readFile file got).kernel.core.mem := by
  intro x hx
  refine if_neg fun hany => hx ?_
  obtain ⟨b, hb, hlt⟩ := List.any_eq_true.mp hany
  have hlt : (x - b.1).toNat < b.2 := by simpa using hlt
  exact ⟨b, hb, hlt⟩

/-- What a call that writes leaves as it was. -/
def Mapped.Keeps (n : Mapped cfg) (mem : VP → UInt8) : Prop :=
  ∀ i, n.Used i → Set.EqOn mem n.sys.kernel.core.mem (n.image i ∪ n.stack i)

theorem Charted.keeps (h : Charted n) (ha : n.Allots a) (hc : n.Clear a) {mem : VP → UInt8}
    (hw : OnlyIn (areas (a.loads.buffer ++ a.writes n.sys)) n.sys.kernel.core.mem mem) :
    n.Keeps mem := by
  intro i hu
  refine hw.keeps (Disjoint.union_right ?_ ?_) <;> rw [disjoint_areas_iff]
  · exact fun b hb => (h.offLive_writes ha hc hb i hu).1
  · exact fun b hb => (h.offLive_writes ha hc hb i hu).2

/-- The slot of a new module is filled in. -/
theorem Charted.starts (h : Charted n) (ha : n.Allots a) (hc : n.Clear a) {p : Pending cfg}
    (hcr : (p.img, p.stack) ∈ a.created n.sys) (hst : p.stackOwned = decide (a.stack = 0))
    (hown : p.img.owned = !a.file.isFixed) (hm : s.mods = n.sys.mods)
    (hheap : s.heap = a.stackBlocks p.stack ++ (p.img.blocks ++ n.sys.heap))
    (hsys : n'.sys = (elfRunEnd p s).1)
    (hfix : n'.fixed = Function.update n.fixed p.mod a.file.isFixed)
    (hsz : n'.stksz = Function.update n.stksz p.mod a.stksz) : Charted n' := by
  obtain ⟨himg, -, hat⟩ := created_eq hcr
  have hmods : n'.sys.mods = Function.update n.sys.mods p.mod
      ⟨p.id, { p.img with owned := true }, p.stack, p.stackOwned, true⟩ := by
    rw [hsys, ← hm]
    rfl
  have hblocks : n'.blocks p.mod = a.stackBlocks p.stack ++ p.img.blocks := by
    unfold Mapped.blocks RunArgs.stackBlocks ElfImage.blocks
    rw [hmods, hfix, hsz, Function.update_self, Function.update_self, Function.update_self, hst,
      hown]
    congr 1
    · exact if_congr decide_eq_true_iff rfl rfl
    · cases a.file.isFixed <;> rfl
  refine h.fill (i := p.mod) (fun j hj => ?_) ?_ ⟨fun b hb => ?_, fun i hu => ?_⟩
  · refine ⟨?_, ?_, ?_⟩
    · rw [hmods, Function.update_of_ne hj]
    · rw [hfix, Function.update_of_ne hj]
    · rw [hsz, Function.update_of_ne hj]
  · rw [hblocks, List.append_assoc, ← hheap, hsys]
    rfl
  · rw [hblocks] at hb
    obtain ⟨hmem, hne⟩ := mem_asked himg hat hb
    exact ⟨hne, (ha.2 _ hmem).1⟩
  · have himage : n'.image p.mod = area p.img.base p.img.size.toNat := by
      unfold Mapped.image
      rw [hmods, Function.update_self]
    rw [himage]
    cases hf : a.file.isFixed with
    | true => exact (hc.2.2 _ hcr).1 hf i hu
    | false =>
      have hb : p.img.block ∈ a.stackBlocks p.stack ++ p.img.blocks := by
        refine List.mem_append_right _ ?_
        rw [ElfImage.blocks, hown, hf]
        exact List.mem_singleton_self _
      -- an image outside the window lies in its own block, which was free
      have hoff := h.offLive_block ha hc (mem_asked himg hat hb).1 i hu
      exact hoff.1.mono_left image_subset_block

theorem bufferApart (ha : n.Allots a) (hc : n.Clear a) : a.loads.BufferApart a.image := by
  intro b hb c hmem
  rcases List.mem_append.mp hmem with hmem | hmem
  · exact (hc.2.1 c hmem).2 b hb
  · exact ha.1.2.2 b hb c hmem

/-- The reads of the file, if `elf_run` comes to loading it. -/
def Sys.fill (file : LoadFile) (s : Sys cfg) : Sys cfg :=
  { s with kernel := s.kernel.withMem (file.fill s.machine).mem }

/-- `elf_run` reads the file from its buffer, and does what it does to the file. -/
theorem elfRunWith_eq (hap : a.loads.BufferApart a.image) :
    elfRunWith elfLoadIn a s = elfRunBegin a (s.fill a.loads) := by
  unfold elfRunBegin elfRunWith
  cases hpath : a.path with
  | none =>
    have hloads : a.loads = .absent := if_pos (Or.inl hpath)
    rw [hloads]
    rfl
  | some path =>
    by_cases hsz : a.stksz = 0
    · have hloads : a.loads = .absent := if_pos (Or.inr hsz)
      rw [hloads]
      dsimp only
      rw [if_pos hsz, if_pos hsz]
      rfl
    · have hloads : a.loads = a.file := if_neg (by rw [hpath]; exact not_or.mpr ⟨nofun, hsz⟩)
      have hfill : (s.fill a.file).machine = a.file.fill s.machine := by
        cases a.file <;> rfl
      rw [hloads] at hap ⊢
      dsimp only
      rw [if_neg hsz, if_neg hsz, elfLoadIn_eq hap, hfill]
      rfl

theorem fill_onlyIn (file : LoadFile) (s : Sys cfg) :
    OnlyIn (areas file.buffer) s.kernel.core.mem (s.fill file).kernel.core.mem := by
  cases file with
  | absent | nomem | short buf size => exact OnlyIn.refl
  | whole buf f =>
    intro x hx
    refine if_neg fun hlt => hx ⟨(buf, bufSize f.size), List.mem_singleton_self _, ?_⟩
    exact Nat.lt_of_lt_of_le hlt (length_le_bufSize f)

/-- **`elf_run`.** -/
theorem Charted.run (h : Charted n) (ha : n.Allots a) (hc : n.Clear a) :
    Ensures (n.run a got) fun v => Charted v.1 ∧ n.Keeps v.1.sys.kernel.core.mem := by
  unfold Mapped.run
  rw [elfRunWith_eq (bufferApart ha hc)]
  refine .bind' fun v hv => ?_
  obtain ⟨hmem, hleft⟩ := elfRunBegin_effect ha.1.1 ha.1.2.1 v hv
  have hwell := (elfRunBegin_yields ha.1.1).result v hv
  have hbuf : ∀ {m m' : VP → UInt8}, OnlyIn (areas a.loads.buffer) m m' →
      OnlyIn (areas (a.loads.buffer ++ a.writes n.sys)) m m' := fun hm => hm.mono <| by
    rintro x ⟨b, hb, hx⟩
    exact ⟨b, List.mem_append_left _ hb, hx⟩
  have hwrites : OnlyIn (areas (a.loads.buffer ++ a.writes n.sys)) n.sys.kernel.core.mem
      v.1.kernel.core.mem := by
    refine (hbuf (readFile_onlyIn a.loads n.sys)).trans
      ((hbuf (fill_onlyIn a.loads (n.sys.readFile a.loads got))).trans (OnlyIn.mono hmem ?_))
    rintro x ⟨b, hb, hx⟩
    exact ⟨b, List.mem_append_right _ hb, hx⟩
  have hkeeps := h.keeps ha hc hwrites
  obtain ⟨s, r | p⟩ := v
  · have hwell : Holds ((n.sys.readFile a.loads got).fill a.loads) _ s := hwell
    exact .ok ⟨h.still hleft hwell.mods, hkeeps⟩
  · have hwell : Starts a ((n.sys.readFile a.loads got).fill a.loads) p s := hwell
    obtain ⟨hcr, hst, hheap⟩ := hleft
    exact .ok ⟨h.starts ha hc hcr hst hwell.owned hwell.heap.mods hheap rfl rfl rfl, hkeeps⟩

/-! ## `elf_kill` -/

/-- Blocks at other addresses stay. -/
theorem Sys.free_keeps : Ensures (s.free p) fun s' =>
    s'.mods = s.mods ∧ ∀ b ∈ s.heap, b.addr ≠ p → b ∈ s'.heap := by
  unfold Sys.free freeBlock
  split
  · next h hf =>
    refine .ok ⟨rfl, fun b hb hne => ?_⟩
    split_ifs at hf
    · exact Option.some.inj hf ▸ hb
    · rw [← Option.some.inj hf]
      exact (List.mem_eraseP_of_neg (by simpa using hne)).mpr hb
  · exact .error

theorem freeStack_keeps {own : Bool} {stack : VP} : Ensures (freeStack own stack s) fun s' =>
    s'.mods = s.mods ∧ ∀ b ∈ s.heap, (own = true → b.addr ≠ stack) → b ∈ s'.heap :=
  .ite (fun ho => Sys.free_keeps.mono fun _ h => ⟨h.1, fun b hb hne => h.2 b hb (hne ho)⟩) fun _ =>
    .ok ⟨rfl, fun _ hb _ => hb⟩

/-- A slot is emptied, and at most its blocks are freed. -/
structure Empties (s : Sys cfg) (i : ModIx cfg) (s' : Sys cfg) : Prop where
  mods : s'.mods = Function.update s.mods i .zero
  heap : ∀ b ∈ s.heap, b.addr ≠ (s.mods i).img.base →
    ((s.mods i).stackOwned = true → b.addr ≠ (s.mods i).stack) → b ∈ s'.heap

theorem modFreeSlot_empties : Ensures (modFreeSlot i s) (Empties s i) := by
  have hunload : Ensures (elfUnload (s.mods i).img s) fun s' =>
      s'.mods = s.mods ∧ ∀ b ∈ s.heap, b.addr ≠ (s.mods i).img.base → b ∈ s'.heap :=
    .ite (fun _ => Sys.free_keeps) fun _ => .ok ⟨rfl, fun b hb _ => hb⟩
  refine .bind' fun s₁ hs₁ => .bind' fun s₂ hs₂ => .ok ?_
  obtain ⟨hm₁, hh₁⟩ := hunload s₁ hs₁
  obtain ⟨hm₂, hh₂⟩ := freeStack_keeps s₂ hs₂
  refine ⟨?_, fun b hb hbase hstack => hh₂ b (hh₁ b hb hbase) fun ho => ?_⟩
  · exact congrArg (Function.update · i ElfMod.zero) (hm₂.trans hm₁)
  · exact hstack (Bool.and_eq_true_iff.mp ho).1

/-- **`elf_kill` changes only the kernel, or empties the slot it has found.** -/
theorem elfKill_empties {tskid : Int} : Ensures (elfKill tskid s) fun v =>
    (v.1.heap = s.heap ∧ v.1.mods = s.mods) ∨
      ∃ i s₁, modFind tskid s = some i ∧ s₁.heap = s.heap ∧ s₁.mods = s.mods ∧
        Empties s₁ i v.1 := by
  refine .ite (fun _ => .ok (Or.inl ⟨rfl, rfl⟩)) fun _ => ?_
  split
  · exact .ok (Or.inl ⟨rfl, rfl⟩)
  · next i hi =>
    refine .bind' fun v hv => ?_
    obtain ⟨hh, hm, -⟩ := call_result v hv
    refine .ite (fun _ => .ok (Or.inl ⟨hh, hm⟩)) fun _ => .bind' fun w hw => .ok ?_
    exact Or.inr ⟨i, v.1, hi, hh, hm, modFreeSlot_empties w hw⟩

theorem Charted.kill {tskid : Int} (h : Charted n) (hp : n.toNoted.Permits (.kill tskid)) :
    Ensures (elfKill tskid n.sys) fun v => Charted { n with sys := v.1 } := by
  intro v hv
  rcases elfKill_empties v hv with ⟨hh, hm⟩ | ⟨i, s₁, hi, hh, hm, he⟩
  · exact h.still hh hm
  cases hf : n.fixed i with
  | true =>
    rw [elfKill_running (hp i hi hf) hi] at hv
    obtain rfl := Except.ok.inj hv
    exact h.still rfl rfl
  | false =>
    refine h.empty (i := i) (modFind_used hi).1 (by rw [← hm]; exact he.mods) ⟨rfl, rfl⟩ ?_
    intro b hb hne
    refine he.heap b (by rw [hh]; exact hb) ?_ fun ho => ?_
    · rw [hm]
      exact hne _ (image_mem_blocks hf)
    · rw [hm] at ho ⊢
      exact hne _ (stack_mem_blocks ho)

/-! ## Runs -/

theorem Vacant.charted (h : Vacant n) : Charted n := by
  have hno : ∀ i, ¬ n.Used i := fun i hu => by
    unfold Mapped.Used at hu
    rw [h i] at hu
    cases hu
  exact ⟨fun i hu => absurd hu (hno i), fun i _ hu => absurd hu (hno i),
    fun i _ hu => absurd hu (hno i)⟩

/-- **One step.** -/
theorem Charted.step (h : Charted n) {l : MapAct cfg × Ret cfg} (hp : n.Permits l.1)
    (hs : (n.act l.1).toOption = some (n', l.2)) : Charted n' ∧ Spares ⟨n, l, n'⟩ := by
  have hs := ok_of_toOption hs
  obtain ⟨l, r⟩ := l
  cases l with
  | run a got =>
    obtain ⟨hc, hkeeps⟩ := h.run hp.1 hp.2 _ hs
    refine ⟨hc, ?_⟩
    rintro _ _ ⟨⟩
    exact hkeeps
  | kill tskid =>
    have hk : Ensures (n.act (.kill tskid)) fun v => Charted v.1 :=
      .bind' fun v hv => .ok (h.kill hp v hv)
    exact ⟨hk _ hs, fun a got he => by cases he⟩
  | call c =>
    have hk : Ensures (n.act (.call c)) fun v => Charted v.1 := .bind' fun v hv => by
      obtain ⟨hh, hm, -⟩ := call_result v hv
      exact .ok (h.still hh hm)
    exact ⟨hk _ hs, fun a got he => by cases he⟩

variable {tr : List (Event (Mapped cfg) (MapAct cfg × Ret cfg))}

/-- **Live modules never overlap, and no `elf_run` changes a byte of one**, in every run in which
the window is clear whenever something is loaded. -/
theorem modules_apart (h : MappedRun tr n) : Apart n ∧ ∀ e ∈ tr, Spares e := by
  suffices hI : Charted n ∧ ∀ e ∈ tr, Spares e from ⟨hI.1.images, hI.2⟩
  induction h with
  | start hv => exact ⟨hv.charted, by simp⟩
  | step _ hs ih =>
    obtain ⟨hc, hsp⟩ := ih.1.step hs.1 hs.2
    exact ⟨hc, List.forall_mem_cons.mpr ⟨hsp, ih.2⟩⟩

/-! ## Small files -/

instance (n : Mapped cfg) (a : RunArgs) : Decidable (n.Allots a) :=
  inferInstanceAs (Decidable (((_ ∧ _) ∧ _ ∧ ∀ b ∈ a.loads.buffer, ∀ c ∈ a.loads.imageBlock a.image, _) ∧
    ∀ b ∈ a.blocks, (∀ c ∈ n.sys.heap, _) ∧ ∀ _, _ → _ → _))

instance (n : Mapped cfg) (p : VP) (k : Nat) : Decidable (n.OffImages p k) :=
  inferInstanceAs (Decidable (∀ i, n.Used i → _))

instance (n : Mapped cfg) (p : VP) (k : Nat) : Decidable (n.OffLive p k) :=
  inferInstanceAs (Decidable (∀ i, n.Used i → _ ∧ _))

instance (n : Mapped cfg) (a : RunArgs) : Decidable (n.Clear a) :=
  inferInstanceAs (Decidable ((∀ b ∈ a.blocks, ∀ i, n.Used i → _ → _) ∧
    (∀ b ∈ a.loads.fixedAreas, _ ∧ ∀ c ∈ a.loads.buffer, _) ∧ ∀ c ∈ a.created n.sys, (_ → _) ∧ (_ → _) ∧ _))

instance (n : Mapped cfg) : ∀ l, Decidable (n.Permits l)
  | .run a _ => inferInstanceAs (Decidable (n.Allots a ∧ n.Clear a))
  | .kill tskid => inferInstanceAs (Decidable (n.toNoted.Permits (.kill tskid)))
  | .call _ => .isTrue trivial

/-- Nothing has been loaded. -/
def vacant : Mapped smallConfig := ⟨unloaded, fun _ => 0⟩

theorem vacant_vacant : Vacant vacant := fun _ => rfl

/-- Task 1 runs. -/
def mappedShell : List (MapAct smallConfig) := (startTasks [1]).map .call

/-- A module in a block and one in the window. -/
theorem modules_apart_two : ∃ (tr : List (Event (Mapped smallConfig)
      (MapAct smallConfig × Ret smallConfig)))
    (n : Mapped smallConfig), (Apart n ∧ ∀ e ∈ tr, Spares e) ∧ n.Used 0 ∧ n.Used 1 := by
  obtain ⟨tr, n, hrun, hu⟩ := exists_perform (f := fun n l => (Mapped.act n l).toOption)
    (C := Mapped.Permits) vacant_vacant (mappedShell ++ [.run (tinyRun tinyItrm 2 0) fun _ => 1,
      .run (tinyRun tinyFixed 3 0x9000) fun _ => 2])
    (fun _ n => n.Used 0 ∧ n.Used 1) (by decide +kernel)
  exact ⟨tr, n, modules_apart hrun, hu⟩

/-- The allocator keeps its promise. -/
def Mapped.Promised (n : Mapped cfg) : MapAct cfg → Prop
  | .run a _ => n.Allots a
  | _ => True

instance (n : Mapped cfg) : ∀ l, Decidable (n.Promised l)
  | .run a _ => inferInstanceAs (Decidable (n.Allots a))
  | .kill _ | .call _ => .isTrue trivial

/-- The runs of the system. -/
abbrev PromisedRun : List (Event (Mapped cfg) (MapAct cfg × Ret cfg)) → Mapped cfg → Prop :=
  Run Vacant fun n l n' => n.Promised l.1 ∧ (n.act l.1).toOption = some (n', l.2)

/-- A file in the window whose second segment is refused. -/
def brokenFixed : File :=
  ⟨[ehdr 2 0x40200000 2, phdr 1 0 0x40200000 8 8, phdr 1 0 0x40200010 0x10000 8].flatten,
    by decide +kernel⟩

/-- A module runs in the window. -/
def fixedShell : List (MapAct smallConfig) :=
  mappedShell ++ [.run (tinyRun tinyFixed 2 0x9000) fun _ => 0]

/-- **Two files share the window**, and a file that is refused has been written there. -/
theorem modules_overlap :
    (∃ (tr : List (Event (Mapped smallConfig) (MapAct smallConfig × Ret smallConfig)))
      (n : Mapped smallConfig), PromisedRun tr n ∧ ¬ Apart n) ∧
    ∃ (tr : List (Event (Mapped smallConfig) (MapAct smallConfig × Ret smallConfig)))
      (n : Mapped smallConfig), PromisedRun tr n ∧ ∃ e ∈ tr, e.label.2 = .er .par ∧ ¬ Spares e := by
  constructor
  · obtain ⟨tr, n, hrun, h0, h1, hn⟩ := exists_perform (f := fun n l => (Mapped.act n l).toOption)
      (C := Mapped.Promised) vacant_vacant
      (fixedShell ++ [.run (tinyRun tinyFixed 3 0xb000) fun _ => 0])
      (fun _ n => n.Used 0 ∧ n.Used 1 ∧ ¬ Disjoint (n.image 0) (n.image 1)) (by decide +kernel)
    exact ⟨tr, n, hrun, fun ha => hn (ha 0 1 h0 h1 (by decide))⟩
  · obtain ⟨tr, n, hrun, h0, hp, him, hm, hx⟩ := exists_perform
      (f := fun n l => (Mapped.act n l).toOption) (C := Mapped.Promised) vacant_vacant fixedShell
      (fun _ n => n.Used 0 ∧ n.Allots (tinyRun brokenFixed 3 0xb000) ∧
        ((n.sys.mods 0).img.base, (n.sys.mods 0).img.size) = (0x40200000, 8) ∧
        n.sys.kernel.core.mem 0x40200000 = 0 ∧
        ((n.act (.run (tinyRun brokenFixed 3 0xb000) fun _ => 0)).toOption.map fun v =>
          (v.2, v.1.sys.kernel.core.mem 0x40200000)) = some (.er .par, 0x7f)) (by decide +kernel)
    obtain ⟨⟨n', r⟩, hact, hv⟩ := Option.map_eq_some_iff.mp hx
    obtain ⟨rfl, hm'⟩ := Prod.mk.inj hv
    generalize tinyRun brokenFixed 3 0xb000 = a at hp hact
    have hp : n.Promised (.run a fun _ => 0) := hp
    have hstep := hrun.step (l := (.run a fun _ => 0, .er .par)) ⟨hp, hact⟩
    refine ⟨_, n', hstep, _, List.mem_cons_self, rfl, fun hs => ?_⟩
    have himage : (0x40200000 : VP) ∈ n.image 0 := by
      obtain ⟨hbase, hsize⟩ := Prod.mk.inj him
      unfold Mapped.image
      rw [hbase, hsize]
      exact self_mem_area (by decide)
    have heq := hs _ _ rfl 0 h0 (Or.inl himage)
    rw [hm', hm] at heq
    exact absurd heq (by decide)

end Ittrium.Elf
