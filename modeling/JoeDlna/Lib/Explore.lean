import Mathlib.Data.Finset.Card
import Mathlib.Data.List.Basic
import Mathlib.Data.List.Nodup
import Mathlib.Data.List.Perm.Basic

/-!
# Explorations

A graph is explored from a stack: a node is taken from the top, entered unless a node with its key
has been entered before, and then its successors go on the stack. Nodes without a key are not
entered.

* `exists_explores` — an exploration with finitely many keys comes to its end;
* `Explores.reached` — an entered node is reached through nodes of different keys;
* `Explores.mem_keys` — every node that can be reached so has the key of an entered one;
* `Explores.perm` — what is collected from the nodes does not depend on the order of the successors,
  when only nodes without successors share a key.
-/

namespace JoeDlna.Lib

section Explore

variable {α κ : Type*} (key : α → Option κ) (next : α → List α)

/-- The nodes entered from a stack, in order, when some keys have been visited already. -/
inductive Explores : List α → List κ → List α → Prop
  | done (visited : List κ) : Explores [] visited []
  | skip {d : α} {pending : List α} {visited : List κ} {ds : List α}
      (hskip : ∀ k, key d = some k → k ∈ visited) (hrest : Explores pending visited ds) :
    Explores (d :: pending) visited ds
  | enter {d : α} {k : κ} {pending : List α} {visited : List κ} {ds : List α} (hkey : key d = some k)
      (hnew : k ∉ visited) (hrest : Explores (next d ++ pending) (k :: visited) ds) :
    Explores (d :: pending) visited (d :: ds)

/-- A node below some nodes, whose keys are all different. -/
inductive Below (root : α) : List κ → α → Prop
  | root : Below root [] root
  | step {above : List κ} {d c : α} {k : κ} (hd : Below root above d) (hkey : key d = some k)
      (hnew : k ∉ above) (hc : c ∈ next d) :
    Below root (k :: above) c

/-- **A node that can be entered**: it is below nodes of different keys, and has another one. -/
def ReachedBy (root d : α) : Prop := ∃ above k, Below key next root above d ∧ key d = some k ∧ k ∉ above

end Explore

/-- What holds of the root, and below each node of which it holds, holds of every node that can be entered. -/
theorem ReachedBy.holds {α κ : Type*} {key : α → Option κ} {next : α → List α} {root d : α} {P : α → Prop}
    (h : ReachedBy key next root d) (hroot : P root) (hnext : ∀ d, P d → ∀ c ∈ next d, P c) : P d := by
  obtain ⟨above, k, hbelow, -, -⟩ := h
  clear k
  induction hbelow with
  | root => exact hroot
  | step hd hkey hnew hc ih => exact hnext _ ih _ hc

theorem Below.congr {α κ : Type*} {key : α → Option κ} {next next' : α → List α} {root d : α} {above : List κ}
    (hnext : ∀ d c, c ∈ next d → c ∈ next' d) (h : Below key next root above d) : Below key next' root above d := by
  induction h with
  | root => exact .root
  | step hd hkey hnew hc ih => exact .step ih hkey hnew (hnext _ _ hc)

theorem reached_congr {α κ : Type*} {key : α → Option κ} {next next' : α → List α}
    (hnext : ∀ d, (next d).Perm (next' d)) (root d : α) : ReachedBy key next root d ↔ ReachedBy key next' root d := by
  constructor
  · rintro ⟨above, k, hbelow, hkey⟩
    exact ⟨above, k, hbelow.congr fun d c => (hnext d).mem_iff.1, hkey⟩
  · rintro ⟨above, k, hbelow, hkey⟩
    exact ⟨above, k, hbelow.congr fun d c => (hnext d).mem_iff.2, hkey⟩

/-- **An exploration with finitely many keys comes to its end.** -/
theorem exists_explores {α κ : Type*} {key : α → Option κ} (next : α → List α) (keys : Finset κ)
    (hkeys : ∀ d k, key d = some k → k ∈ keys) (pending : List α) (visited : List κ) :
    ∃ ds, Explores key next pending visited ds := by
  classical
  -- entering a node leaves fewer keys to visit, and leaving one out makes the stack smaller
  induction hleft : (keys.filter (· ∉ visited)).card using Nat.strongRecOn generalizing pending visited with
  | ind left ih =>
    induction pending with
    | nil => exact ⟨[], .done visited⟩
    | cons d pending ihpending =>
      by_cases henter : ∃ k, key d = some k ∧ k ∉ visited
      · obtain ⟨k, hkey, hnew⟩ := henter
        have hsub : keys.filter (· ∉ k :: visited) ⊂ keys.filter (· ∉ visited) := by
          refine (Finset.ssubset_iff_of_subset fun x hx => ?_).2 ⟨k, ?_, ?_⟩
          · rw [Finset.mem_filter] at hx ⊢
            exact ⟨hx.1, fun hmem => hx.2 (List.mem_cons_of_mem k hmem)⟩
          · exact Finset.mem_filter.2 ⟨hkeys d k hkey, hnew⟩
          · rw [Finset.mem_filter]
            exact fun hk => hk.2 List.mem_cons_self
        obtain ⟨ds, hds⟩ := ih _ (hleft ▸ Finset.card_lt_card hsub) (next d ++ pending) (k :: visited) rfl
        exact ⟨d :: ds, .enter hkey hnew hds⟩
      · obtain ⟨ds, hds⟩ := ihpending
        refine ⟨ds, .skip (fun k hkey => ?_) hds⟩
        by_contra hnew
        exact henter ⟨k, hkey, hnew⟩

/-- Two lists with the same keys, and with the same value for every key. -/
theorem perm_map_of_keys {α κ β : Type*} {key : α → κ} {f : α → β} {l l' : List α}
    (hkeys : (l.map key).Perm (l'.map key)) (hf : ∀ a ∈ l, ∀ b ∈ l', key a = key b → f a = f b) :
    (l.map f).Perm (l'.map f) := by
  induction l generalizing l' with
  | nil =>
    rw [List.map_nil, List.nil_perm, List.map_eq_nil_iff] at hkeys
    rw [hkeys]
  | cons a l ih =>
    obtain ⟨b, hb, hkey⟩ := List.mem_map.1 (hkeys.mem_iff.1 List.mem_cons_self)
    obtain ⟨before, after, rfl⟩ := List.append_of_mem hb
    have hmiddle : (before ++ b :: after).Perm (b :: (before ++ after)) := List.perm_middle
    have hrest : (l.map key).Perm ((before ++ after).map key) := by
      have hcons := hkeys.trans (hmiddle.map key)
      rw [List.map_cons, List.map_cons, hkey] at hcons
      exact hcons.cons_inv
    have hvalues := ih hrest fun c hc d hd => hf c (List.mem_cons_of_mem a hc) d
      (hmiddle.mem_iff.2 (List.mem_cons_of_mem b hd))
    rw [List.map_cons, hf a List.mem_cons_self b hb hkey.symm]
    exact (hvalues.cons (f b)).trans (hmiddle.map f).symm

namespace Explores

variable {α κ : Type*} {key : α → Option κ} {next : α → List α} {root : α} {pending ds : List α}
  {visited : List κ}

/-- Every entered node can be entered. -/
theorem reached_of_below (h : Explores key next pending visited ds)
    (hpending : ∀ d ∈ pending, ∃ above, Below key next root above d ∧ above ⊆ visited) :
    ∀ d ∈ ds, ReachedBy key next root d := by
  induction h with
  | done visited =>
    intro d hd
    cases hd
  | skip hskip hrest ih => exact ih fun d hd => hpending d (List.mem_cons_of_mem _ hd)
  | @enter d k pending visited ds hkey hnew hrest ih =>
    obtain ⟨above, hbelow, hsub⟩ := hpending d List.mem_cons_self
    have hd : k ∉ above := fun hk => hnew (hsub hk)
    have hsuccessors : ∀ c ∈ next d ++ pending, ∃ above, Below key next root above c ∧ above ⊆ k :: visited := by
      intro c hc
      rcases List.mem_append.1 hc with hc | hc
      · exact ⟨k :: above, .step hbelow hkey hd hc, List.cons_subset_cons k hsub⟩
      · obtain ⟨above', hbelow', hsub'⟩ := hpending c (List.mem_cons_of_mem d hc)
        exact ⟨above', hbelow', fun x hx => List.mem_cons_of_mem k (hsub' hx)⟩
    intro c hc
    rcases List.mem_cons.1 hc with rfl | hc
    · exact ⟨above, k, hbelow, hkey, hd⟩
    · exact ih hsuccessors c hc

/-- **An entered node is reached through nodes of different keys.** -/
theorem reached (h : Explores key next [root] [] ds) : ∀ d ∈ ds, ReachedBy key next root d := by
  apply h.reached_of_below
  intro d hd
  rw [List.mem_singleton.1 hd]
  exact ⟨[], .root, List.Subset.refl []⟩

/-- Every entered node has a key, and no two have the same. -/
theorem nodup_keys (h : Explores key next pending visited ds) :
    (ds.map key).Nodup ∧ ∀ d ∈ ds, ∃ k, key d = some k ∧ k ∉ visited := by
  induction h with
  | done visited => simp
  | skip hskip hrest ih => exact ih
  | @enter d k pending visited ds hkey hnew hrest ih =>
    obtain ⟨hnodup, hkeys⟩ := ih
    refine ⟨?_, ?_⟩
    · rw [List.map_cons, List.nodup_cons]
      refine ⟨fun hmem => ?_, hnodup⟩
      obtain ⟨c, hc, heq⟩ := List.mem_map.1 hmem
      obtain ⟨k', hk', hnew'⟩ := hkeys c hc
      rw [hk', hkey] at heq
      exact hnew' (Option.some.inj heq ▸ List.mem_cons_self)
    · intro c hc
      rcases List.mem_cons.1 hc with rfl | hc
      · exact ⟨k, hkey, hnew⟩
      · obtain ⟨k', hk', hnew'⟩ := hkeys c hc
        exact ⟨k', hk', fun hmem => hnew' (List.mem_cons_of_mem k hmem)⟩

/-- The key of a node that was on the stack has been visited in the end. -/
theorem visited_or_entered (h : Explores key next pending visited ds) {k : κ} :
    (∀ c ∈ pending, key c = some k → k ∈ visited ∨ ∃ d ∈ ds, key d = some k) ∧
      ∀ d ∈ ds, ∀ c ∈ next d, key c = some k → k ∈ visited ∨ ∃ d ∈ ds, key d = some k := by
  induction h with
  | done visited => simp
  | skip hskip hrest ih =>
    refine ⟨fun c hc hk => ?_, ih.2⟩
    rcases List.mem_cons.1 hc with rfl | hc
    · exact .inl (hskip k hk)
    · exact ih.1 c hc hk
  | @enter d k' pending visited ds hkey hnew hrest ih =>
    have hmore : (k ∈ k' :: visited ∨ ∃ c ∈ ds, key c = some k) →
        k ∈ visited ∨ ∃ c ∈ d :: ds, key c = some k := by
      rintro (hk | ⟨c, hc, hk⟩)
      · rcases List.mem_cons.1 hk with rfl | hk
        · exact .inr ⟨d, List.mem_cons_self, hkey⟩
        · exact .inl hk
      · exact .inr ⟨c, List.mem_cons_of_mem d hc, hk⟩
    refine ⟨fun c hc hk => ?_, fun e he c hc hk => ?_⟩
    · rcases List.mem_cons.1 hc with rfl | hc
      · rw [hkey] at hk
        exact .inr ⟨c, List.mem_cons_self, hkey.trans hk⟩
      · exact hmore (ih.1 c (List.mem_append_right _ hc) hk)
    · rcases List.mem_cons.1 he with rfl | he
      · exact hmore (ih.1 c (List.mem_append_left _ hc) hk)
      · exact hmore (ih.2 e he c hc hk)

/-- **Every node that can be entered has the key of an entered one.** -/
theorem mem_keys (h : Explores key next [root] [] ds)
    (hbarren : ∀ d d', ReachedBy key next root d → ReachedBy key next root d' → key d = key d' → d ≠ d' → next d = [])
    {d : α} (hd : ReachedBy key next root d) : ∃ d' ∈ ds, key d' = key d := by
  obtain ⟨above, k, hbelow, hkey, hnew⟩ := hd
  induction hbelow generalizing k with
  | root =>
    obtain hk | ⟨d', hd', hk⟩ := (h.visited_or_entered (k := k)).1 root List.mem_cons_self hkey
    · cases hk
    · exact ⟨d', hd', hk.trans hkey.symm⟩
  | @step above p c kp hp hkeyp hnewp hc ih =>
    -- the node above has been entered itself, since it has a successor
    obtain ⟨p', hp', hsame⟩ := ih kp hkeyp hnewp
    obtain rfl : p = p' := by
      by_contra hne
      have hnone := hbarren p p' ⟨above, kp, hp, hkeyp, hnewp⟩ (h.reached p' hp') hsame.symm hne
      rw [hnone] at hc
      cases hc
    obtain hk | ⟨d', hd', hk⟩ := (h.visited_or_entered (k := k)).2 p hp' c hc hkey
    · cases hk
    · exact ⟨d', hd', hk.trans hkey.symm⟩

/-- **What is collected from the nodes does not depend on the order**, when two nodes that can be
entered and have the same key have no successors, and the same to collect. -/
theorem perm {β : Type*} {f : α → β} {next' : α → List α} {ds' : List α} (hnext : ∀ d, (next' d).Perm (next d))
    (h : Explores key next [root] [] ds) (h' : Explores key next' [root] [] ds')
    (hsame : ∀ d d', ReachedBy key next root d → ReachedBy key next root d' → key d = key d' → d ≠ d' →
      next d = [] ∧ f d = f d') :
    (ds.map f).Perm (ds'.map f) := by
  have hreached' : ∀ d ∈ ds', ReachedBy key next root d :=
    fun d hd => (reached_congr hnext root d).1 (h'.reached d hd)
  have hbarren : ∀ d d', ReachedBy key next root d → ReachedBy key next root d' → key d = key d' → d ≠ d' → next d = [] :=
    fun d d' hd hd' hkey hne => (hsame d d' hd hd' hkey hne).1
  have hbarren' : ∀ d d', ReachedBy key next' root d → ReachedBy key next' root d' → key d = key d' → d ≠ d' →
      next' d = [] := by
    intro d d' hd hd' hkey hne
    have hnone := hbarren d d' ((reached_congr hnext root d).1 hd) ((reached_congr hnext root d').1 hd') hkey hne
    exact List.perm_nil.1 (hnone ▸ hnext d)
  have hf : ∀ d ∈ ds, ∀ d' ∈ ds', key d = key d' → f d = f d' := by
    intro d hd d' hd' hkey
    by_cases heq : d = d'
    · rw [heq]
    · exact (hsame d d' (h.reached d hd) (hreached' d' hd') hkey heq).2
  have hkeys : (ds.map key).Perm (ds'.map key) := by
    refine (List.perm_ext_iff_of_nodup h.nodup_keys.1 h'.nodup_keys.1).2 fun k => ?_
    simp only [List.mem_map]
    constructor
    · rintro ⟨d, hd, rfl⟩
      exact h'.mem_keys hbarren' ((reached_congr hnext root d).2 (h.reached d hd))
    · rintro ⟨d, hd, rfl⟩
      exact h.mem_keys hbarren (hreached' d hd)
  exact perm_map_of_keys hkeys hf

end Explores

end JoeDlna.Lib
