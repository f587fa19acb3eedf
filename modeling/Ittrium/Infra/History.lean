import Ittrium.Infra.StableInsert

/-!
# A queue against its history

What is put into a queue leaves it later, or passes it by while it is empty. `History` relates all
that has been put in, all that has come out and what is still outstanding to the queue, whether
this is kept in the order of arrival or in the order of keys.

* `History.pass`, `History.push`, `History.pop` — the three steps
* `History.perm`, `History.first` — nothing is lost or doubled, and the right one leaves first
-/

namespace Ittrium.Infra

variable {α β κ : Type*} [LinearOrder κ]

/-- What has been put into a queue has come out as `f` of it or is outstanding, in the order of
arrival or, if `byKey` holds, in the order of the keys. -/
structure History (byKey : Prop) (key : α → κ) (f : α → β) (sent : List α) (received : List β)
    (outstanding q : List α) : Prop where
  all : (received ++ outstanding.map f).Perm (sent.map f)
  fifo : ¬ byKey → received ++ q.map f = sent.map f ∧ outstanding = q
  sorted : byKey → StablySorted key outstanding q

namespace History

variable {byKey : Prop} {key key' : α → κ} {f : α → β} {sent outstanding q : List α}
  {received : List β} {x : α}

theorem nil : History byKey key f [] [] [] [] := ⟨.nil, fun _ => ⟨rfl, rfl⟩, fun _ => .nil⟩

theorem mem_iff (h : History byKey key f sent received outstanding q) {y : α} :
    y ∈ outstanding ↔ y ∈ q := by
  by_cases hb : byKey
  · exact (h.sorted hb).mem_iff.symm
  · rw [(h.fifo hb).2]

/-- Only the keys of the queue matter. -/
theorem congr (h : History byKey key f sent received outstanding q)
    (hk : ∀ y ∈ q, key' y = key y) : History byKey key' f sent received outstanding q :=
  ⟨h.all, h.fifo, fun hb => (h.sorted hb).congr hk⟩

/-- An arrival passes an empty queue by. -/
theorem pass (h : History byKey key f sent received outstanding []) (x : α) :
    History byKey key f (sent ++ [x]) (received ++ [f x]) outstanding [] := by
  have hnil : outstanding = [] := List.eq_nil_iff_forall_not_mem.mpr fun y hy => by
    have := h.mem_iff.mp hy
    cases this
  subst hnil
  refine ⟨?_, fun hb => ⟨?_, rfl⟩, fun hb => .nil⟩
  · have hall : received.Perm (sent.map f) := by simpa using h.all
    simpa using hall.append_right [f x]
  · simpa using (h.fifo hb).1

/-- An arrival goes to its place. -/
theorem push [Decidable byKey] (h : History byKey key f sent received outstanding q) (x : α) :
    History byKey key f (sent ++ [x]) received (outstanding ++ [x])
      (if byKey then insertStable key x q else q ++ [x]) := by
  refine ⟨?_, fun hb => ?_, fun hb => ?_⟩
  · rw [List.map_append, List.map_append, ← List.append_assoc]
    exact h.all.append_right _
  · obtain ⟨h₁, h₂⟩ := h.fifo hb
    rw [if_neg hb, h₂, List.map_append, List.map_append, ← List.append_assoc, h₁]
    exact ⟨rfl, rfl⟩
  · rw [if_pos hb]
    exact (h.sorted hb).insert x

/-- The first one leaves. -/
theorem pop [DecidableEq α] (h : History byKey key f sent received outstanding (x :: q)) :
    History byKey key f sent (received ++ [f x]) (outstanding.erase x) q := by
  have hx : x ∈ outstanding := h.mem_iff.mpr List.mem_cons_self
  refine ⟨?_, fun hb => ?_, fun hb => (h.sorted hb).tail⟩
  · refine List.Perm.trans ?_ h.all
    rw [List.append_assoc]
    exact ((List.perm_cons_erase hx).map f).symm.append_left _
  · obtain ⟨h₁, h₂⟩ := h.fifo hb
    rw [h₂, List.erase_cons_head, ← h₁, List.append_assoc]
    exact ⟨rfl, rfl⟩

/-- **What has been put in has come out or is in the queue, each as often.** -/
theorem perm [DecidableEq α] (h : History byKey key f sent received outstanding q) :
    (received ++ q.map f).Perm (sent.map f) := by
  by_cases hb : byKey
  · exact (((h.sorted hb).perm.map f).append_left _).trans h.all
  · rw [(h.fifo hb).1]

/-- **The first one is the earliest arrival of the least key, or the earliest of all.** -/
theorem first (h : History byKey key f sent received outstanding (x :: q)) :
    ∃ l₁ l₂, outstanding = l₁ ++ x :: l₂ ∧ (¬ byKey → l₁ = []) ∧
      (byKey → (∀ y ∈ l₁, key x < key y) ∧ ∀ y ∈ l₂, key x ≤ key y) := by
  by_cases hb : byKey
  · obtain ⟨l₁, l₂, he, h₁, h₂⟩ := (h.sorted hb).head
    exact ⟨l₁, l₂, he, fun hn => absurd hb hn, fun _ => ⟨h₁, h₂⟩⟩
  · exact ⟨[], q, (h.fifo hb).2, fun _ => rfl, fun hn => absurd hn hb⟩

end History

end Ittrium.Infra
