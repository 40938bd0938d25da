import JoeDlna.Lib.Text

/-!
# Maps

Facts about `Std.ExtTreeMap` used here for the hash maps and ordered maps of a program: two maps
are equal when they hold the same pairs, and a fresh key adds one pair to the list of pairs.
-/

namespace JoeDlna.Lib

/-- A map from texts. -/
abbrev TextMap (β : Type*) := Std.ExtTreeMap Text β

namespace TextMap

variable {β : Type*} {m : TextMap β} {k a : Text} {v : β}

theorem getElem?_insert_self : (m.insert k v)[k]? = some v := by simp

theorem getElem?_insert_ne (h : a ≠ k) : (m.insert k v)[a]? = m[a]? := by
  rw [Std.ExtTreeMap.getElem?_insert, if_neg (by simpa using Ne.symm h)]

theorem getElem?_insert (m : TextMap β) (k : Text) (v : β) (a : Text) :
    (m.insert k v)[a]? = if a = k then some v else m[a]? := by
  split
  · next h => rw [h, getElem?_insert_self]
  · next h => exact getElem?_insert_ne h

theorem getElem?_alter (m : TextMap β) (k : Text) (f : Option β → Option β) (a : Text) :
    (m.alter k f)[a]? = if a = k then f m[k]? else m[a]? := by
  rw [Std.ExtTreeMap.getElem?_alter]
  simp only [Std.LawfulEqOrd.compare_eq_iff_eq, @eq_comm _ k a]

theorem getElem?_erase (m : TextMap β) (k a : Text) :
    (m.erase k)[a]? = if a = k then none else m[a]? := by
  rw [Std.ExtTreeMap.getElem?_erase]
  simp only [Std.LawfulEqOrd.compare_eq_iff_eq, @eq_comm _ k a]

theorem nodup_toList (m : TextMap β) : m.toList.Nodup := by
  refine (Std.ExtTreeMap.distinct_keys_toList (t := m)).imp ?_
  rintro a b h rfl
  simp at h

theorem mem_toList : (k, v) ∈ m.toList ↔ m[k]? = some v :=
  Std.ExtTreeMap.mem_toList_iff_getElem?_eq_some

/-- A fresh key adds one pair. -/
theorem toList_insert_perm (h : m[k]? = none) : (m.insert k v).toList.Perm ((k, v) :: m.toList) := by
  have hnot : (k, v) ∉ m.toList := by
    rw [mem_toList, h]
    simp
  rw [List.perm_ext_iff_of_nodup (nodup_toList _) (List.nodup_cons.2 ⟨hnot, nodup_toList m⟩)]
  rintro ⟨a, b⟩
  rw [mem_toList, getElem?_insert, List.mem_cons, mem_toList, Prod.mk.injEq]
  by_cases ha : a = k
  · subst ha
    simp [h, eq_comm]
  · simp [ha]

/-- What a map of distinct keys holds. -/
theorem getElem?_ofList {as : List (Text × β)} (hnodup : (as.map Prod.fst).Nodup) (h : (k, v) ∈ as) :
    (Std.ExtTreeMap.ofList as compare)[k]? = some v := by
  refine Std.ExtTreeMap.getElem?_ofList_of_mem (by simp) ?_ h
  rw [List.Nodup, List.pairwise_map] at hnodup
  exact hnodup.imp fun hne => by simpa using hne

/-- Maps of distinct keys are equal when their values are. -/
theorem ofList_eq_iff {α β : Type} {as : List α} {name : α → Text} {f g : α → β} (hnodup : (as.map name).Nodup) :
    (.ofList (as.map fun a => (name a, f a)) : TextMap β) = .ofList (as.map fun a => (name a, g a)) ↔
      ∀ a ∈ as, f a = g a := by
  have hlookup : ∀ (f : α → β), ∀ a ∈ as, (.ofList (as.map fun a => (name a, f a)) : TextMap β)[name a]? = some (f a) := by
    intro f a ha
    refine Std.ExtTreeMap.getElem?_ofList_of_mem (by simp) ?_ (List.mem_map_of_mem ha)
    rw [List.pairwise_map]
    rw [List.Nodup, List.pairwise_map] at hnodup
    exact hnodup.imp fun hne => by simpa using hne
  constructor
  · intro h a ha
    have hf := hlookup f a ha
    rw [h, hlookup g a ha] at hf
    exact (Option.some.inj hf).symm
  · intro h
    congr 1
    exact List.map_congr_left fun a ha => by rw [h a ha]

/-- The pairs of one key. -/
theorem filter_toList (m : TextMap β) (k : Text) :
    (m.toList.filter fun row => row.1 = k) = (m[k]?.map fun v => (k, v)).toList := by
  have hmem : ∀ row, row ∈ m.toList.filter (fun row => row.1 = k) ↔
      row ∈ (m[k]?.map fun v => (k, v)).toList := by
    rintro ⟨a, v⟩
    rw [List.mem_filter, mem_toList, Option.mem_toList, Option.map_eq_some_iff]
    constructor
    · rintro ⟨hv, ha⟩
      obtain rfl := of_decide_eq_true ha
      exact ⟨v, hv, rfl⟩
    · rintro ⟨w, hw, heq⟩
      obtain ⟨rfl, rfl⟩ := Prod.mk.inj heq
      exact ⟨hw, by simp⟩
  have hnodup : (m[k]?.map fun v => (k, v)).toList.Nodup := by
    cases m[k]? <;> simp
  have hperm := (List.perm_ext_iff_of_nodup ((nodup_toList m).filter _) hnodup).2 hmem
  cases h : m[k]? with
  | none =>
    rw [h] at hperm
    simpa using hperm
  | some v =>
    rw [h] at hperm
    exact List.perm_singleton.1 (by simpa using hperm)

end TextMap

end JoeDlna.Lib
