import Mathlib.Data.List.Basic

/-!
# Lists in blocks

A list whose elements have keys that never decrease is the concatenation of its blocks, one for
each key.

* `filter_append_filter`: the first block and the rest;
* `flatMap_sublist_blocks`: what holds block by block holds of the whole.
-/

namespace Blocks

variable {α β : Type*} {key : α → ℕ}

/-- Where the keys never decrease and none is below `j`, the block of `j` comes first. -/
theorem filter_append_filter {l : List α} {j : ℕ}
    (hl : l.Pairwise fun a b => key a ≤ key b) (hj : ∀ a ∈ l, j ≤ key a) :
    l.filter (key · = j) ++ l.filter (key · ≠ j) = l := by
  induction l with
  | nil => rfl
  | cons a l ih =>
    obtain ⟨hfirst, hrest⟩ := List.pairwise_cons.1 hl
    by_cases ha : key a = j
    · rw [List.filter_cons_of_pos (by simpa using ha), List.filter_cons_of_neg (by simpa using ha),
        List.cons_append, ih hrest fun b hb => hj b (List.mem_cons_of_mem _ hb)]
    · -- every later key is above `j` as well
      have hnone : l.filter (key · = j) = [] := by
        rw [List.filter_eq_nil_iff]
        intro b hb
        have hab := hfirst b hb
        have := hj a List.mem_cons_self
        simp only [decide_eq_true_eq]
        omega
      have hall : l.filter (key · ≠ j) = l := by
        rw [List.filter_eq_self]
        intro b hb
        have hab := hfirst b hb
        have := hj a List.mem_cons_self
        simp only [decide_eq_true_eq]
        omega
      rw [List.filter_cons_of_neg (by simpa using ha), List.filter_cons_of_pos (by simpa using ha),
        hnone, hall, List.nil_append]

/-- Where the keys never decrease, and the image of the block of each key `j` is a part of `g j`,
the image of the whole is a part of the concatenation of all `g j`. -/
theorem flatMap_sublist_blocks {f : α → List β} {g : ℕ → List β} {keys : List ℕ}
    (hkeys : keys.Pairwise (· < ·)) {l : List α} (hl : l.Pairwise fun a b => key a ≤ key b)
    (hmem : ∀ a ∈ l, key a ∈ keys)
    (hblock : ∀ j ∈ keys, ((l.filter (key · = j)).flatMap f).Sublist (g j)) :
    (l.flatMap f).Sublist (keys.flatMap g) := by
  induction keys generalizing l with
  | nil =>
    cases l with
    | nil => exact List.Sublist.refl _
    | cons a l => exact absurd (hmem a List.mem_cons_self) List.not_mem_nil
  | cons j keys ih =>
    obtain ⟨hfirst, hrest⟩ := List.pairwise_cons.1 hkeys
    have hge : ∀ a ∈ l, j ≤ key a := by
      intro a ha
      rcases List.mem_cons.1 (hmem a ha) with h | h
      · exact Nat.le_of_eq h.symm
      · exact Nat.le_of_lt (hfirst _ h)
    rw [← filter_append_filter hl hge, List.flatMap_append, List.flatMap_cons]
    refine (hblock j List.mem_cons_self).append (ih hrest ?_ ?_ ?_)
    · exact hl.filter _
    · intro a ha
      obtain ⟨hal, hne⟩ := List.mem_filter.1 ha
      rcases List.mem_cons.1 (hmem a hal) with h | h
      · exact absurd h (by simpa using hne)
      · exact h
    · intro j' hj'
      have hne : j < j' := hfirst _ hj'
      have hsame : (l.filter (key · ≠ j)).filter (key · = j') = l.filter (key · = j') := by
        rw [List.filter_filter]
        refine List.filter_congr fun a _ => ?_
        by_cases ha : key a = j'
        · simp only [ha, decide_true, Bool.true_and, decide_eq_true_eq]
          omega
        · simp [ha]
      rw [hsame]
      exact hblock j' (List.mem_cons_of_mem _ hj')

end Blocks
