import JoeDlna.Lib.Text

/-!
# Sorting by a comparator

`sortBy cmp` sorts by a three-way comparator. Where the comparator tells all members of the list
apart the result does not depend on the algorithm (`sortBy_unique`), so it stands for a stable
and for an unstable sort alike.
-/

namespace JoeDlna.Lib

variable {α : Type*}

/-- A list in the order of a comparator. -/
def sortBy (cmp : α → α → Ordering) (l : List α) : List α :=
  l.insertionSort fun a b => (cmp a b).isLE = true

theorem perm_sortBy (cmp : α → α → Ordering) (l : List α) : (sortBy cmp l).Perm l :=
  List.perm_insertionSort _ l

@[simp] theorem mem_sortBy {cmp : α → α → Ordering} {l : List α} {a : α} : a ∈ sortBy cmp l ↔ a ∈ l :=
  (perm_sortBy cmp l).mem_iff

@[simp] theorem length_sortBy (cmp : α → α → Ordering) (l : List α) : (sortBy cmp l).length = l.length :=
  (perm_sortBy cmp l).length_eq

section Trans

variable (cmp : α → α → Ordering) [Std.TransCmp cmp]

theorem pairwise_sortBy (l : List α) : (sortBy cmp l).Pairwise fun a b => (cmp a b).isLE := by
  have : Std.Total fun a b : α => (cmp a b).isLE = true :=
    ⟨fun a b => by
      have hswap : cmp b a = (cmp a b).swap := Std.OrientedCmp.eq_swap
      rw [hswap]
      cases cmp a b <;> simp⟩
  have : IsTrans α fun a b => (cmp a b).isLE = true := ⟨fun _ _ _ => Std.TransCmp.isLE_trans⟩
  exact List.pairwise_insertionSort _ l

/-- Where no two members compare equal, the sorted list is strictly increasing. -/
theorem pairwise_lt_sortBy {l : List α} (h : l.Pairwise fun a b => cmp a b ≠ .eq) :
    (sortBy cmp l).Pairwise fun a b => cmp a b = .lt := by
  have hsymm : ∀ {a b : α}, cmp a b ≠ .eq → cmp b a ≠ .eq := by
    intro a b hab hba
    exact hab (Std.OrientedCmp.eq_comm.1 hba)
  have hne := ((perm_sortBy cmp l).pairwise_iff hsymm).2 h
  refine ((pairwise_sortBy cmp l).and hne).imp ?_
  rintro a b ⟨hle, hne⟩
  cases hc : cmp a b <;> simp_all

/-- Two strictly increasing lists with the same members are equal. -/
theorem eq_of_perm_of_lt {l m : List α} (hp : l.Perm m) (hl : l.Pairwise fun a b => cmp a b = .lt)
    (hm : m.Pairwise fun a b => cmp a b = .lt) : l = m := by
  refine hp.eq_of_pairwise ?_ hl hm
  intro a b _ _ hab hba
  have hswap : cmp a b = (cmp b a).swap := Std.OrientedCmp.eq_swap
  rw [hswap, hba] at hab
  simp at hab

theorem sortBy_unique {l m : List α} (hp : m.Perm l) (hm : m.Pairwise fun a b => cmp a b = .lt) :
    sortBy cmp l = m := by
  refine eq_of_perm_of_lt cmp ((perm_sortBy cmp l).trans hp.symm) (pairwise_lt_sortBy cmp ?_) hm
  refine (hp.symm.pairwise_iff ?_).2 (hm.imp fun h => by simp [h])
  intro a b hab hba
  exact hab (Std.OrientedCmp.eq_comm.1 hba)

end Trans

end JoeDlna.Lib
