import JoeDlna.Lib.Runs
import JoeDlna.Lib.Tiles

/-!
# Reading a tree page by page

A tree whose containers give out their members in pages, and a reader that knows the root only. The reader asks
a container that it is not through with for a next page, of any size, and goes on with the containers that it
finds there, in any order.

* `Inv.step` — what a page keeps;
* `left_lt` — every page brings the reader closer to the end;
* `reads` — the reader reads every node once, and comes to an end.
-/

namespace JoeDlna.Lib

/-- Some members of a container, each with whether it is a container itself, and the number of all of them. -/
structure Page (ι : Type*) where
  members : List (ι × Bool)
  total : ℕ

/-- A finite tree: the members of each container in order. -/
structure PagedTree (ι : Type*) where
  root : ι
  nodes : Finset ι
  isContainer : ι → Bool
  children : ι → List ι
  root_notMem : root ∉ nodes
  mem_nodes : ∀ {id k}, k ∈ children id → k ∈ nodes
  nodup : ∀ id, (children id).Nodup
  parent_unique : ∀ {id id' k}, k ∈ children id → k ∈ children id' → id = id'
  isContainer_of_mem : ∀ {id k}, k ∈ children id → id = root ∨ isContainer id = true
  reach : ∀ k ∈ nodes, Relation.TransGen (fun id k => k ∈ children id) root k

/-- The members read so far, and the containers that are not read to the end, each with the number of its members
that are read. -/
structure Reader (ι : Type*) where
  seen : List ι
  todo : List (ι × ℕ)

namespace Reader

variable {ι α : Type*}

def start (root : ι) : Reader ι := ⟨[], [(root, 0)]⟩

/-- The entries that a page of a container leaves to do. -/
def rest (c : ι × ℕ) (page : Page ι) : List (ι × ℕ) :=
  (if c.2 + page.members.length < page.total then [(c.1, c.2 + page.members.length)] else []) ++
    (page.members.filter Prod.snd).map fun m => (m.1, 0)

/-- The reader after a page of the container at a place of its list. -/
def turn (r : Reader ι) (place : ℕ) (c : ι × ℕ) (page : Page ι) : Reader ι where
  seen := r.seen ++ page.members.map Prod.fst
  todo := r.todo.eraseIdx place ++ rest c page

/-- One request, which chooses a container and leaves the rest to whoever answers. -/
def step (answer : α → ι → ℕ → Option (Page ι)) (r : Reader ι) (a : ℕ × α) : Option (Reader ι) :=
  r.todo[a.1]?.bind fun c => (answer a.2 c.1 c.2).map (r.turn a.1 c)

end Reader

namespace PagedTree

variable {ι α : Type*} (t : PagedTree ι)

/-- What a reader of some members can ask for. -/
def Known (seen : List ι) (id : ι) : Prop := id = t.root ∨ id ∈ seen ∧ t.isContainer id = true

/-- The page of a container from one of its members on. -/
def page (id : ι) (start count : ℕ) : Page ι where
  members := (window (t.children id) (start, count)).map fun k => (k, t.isContainer k)
  total := (t.children id).length

/-- Every request of a reader is answered with a page that is not empty, as long as there are members. -/
def Serves (answer : α → ι → ℕ → Option (Page ι)) : Prop :=
  ∀ a id start, id = t.root ∨ id ∈ t.nodes ∧ t.isContainer id = true → start ≤ (t.children id).length →
    ∃ count, 0 < count ∧ answer a id start = some (t.page id start count)

/-- **The invariant of a reader.** -/
structure Inv (r : Reader ι) : Prop where
  nodup : r.seen.Nodup
  nodes : ∀ k ∈ r.seen, k ∈ t.nodes
  once : (r.todo.map Prod.fst).Nodup
  known : ∀ c ∈ r.todo, t.Known r.seen c.1
  unread : ∀ c ∈ r.todo, c.2 = 0 ∨ c.2 < (t.children c.1).length
  part : ∀ c ∈ r.todo, ∀ k ∈ t.children c.1, k ∈ r.seen ↔ k ∈ (t.children c.1).take c.2
  whole : ∀ id, t.Known r.seen id → id ∉ r.todo.map Prod.fst → ∀ k ∈ t.children id, k ∈ r.seen
  unknown : ∀ id, ¬t.Known r.seen id → ∀ k ∈ t.children id, k ∉ r.seen

theorem inv_start : t.Inv (.start t.root) where
  nodup := .nil
  nodes := by simp [Reader.start]
  once := by simp [Reader.start]
  known := by simp [Reader.start, Known]
  unread := by simp [Reader.start]
  part := by simp [Reader.start]
  whole := by
    rintro id (rfl | ⟨h, -⟩) hid
    · exact absurd (by simp [Reader.start]) hid
    · cases h
  unknown := by simp [Reader.start]

variable {t}

/-- A member of a page comes behind the members that are read. -/
theorem notMem_take {id k : ι} {start count : ℕ} (hk : k ∈ window (t.children id) (start, count)) :
    k ∉ (t.children id).take start := by
  intro htake
  have hnodup := t.nodup id
  rw [← List.take_append_drop start (t.children id), List.nodup_append] at hnodup
  exact hnodup.2.2 k htake k (List.mem_of_mem_take hk) rfl

theorem mem_children_of_mem_window {id k : ι} {start count : ℕ} (hk : k ∈ window (t.children id) (start, count)) :
    k ∈ t.children id :=
  List.mem_of_mem_drop (List.mem_of_mem_take hk)

theorem take_add_window (id : ι) (start count : ℕ) :
    (t.children id).take (start + (window (t.children id) (start, count)).length) =
      (t.children id).take start ++ window (t.children id) (start, count) := by
  rw [List.take_add, window, List.length_take, List.length_drop]
  congr 1
  rw [List.take_eq_take_iff, List.length_drop]
  omega

section Turn

variable {r : Reader ι} {place count : ℕ} {c : ι × ℕ}

theorem seen_turn (r : Reader ι) (place : ℕ) (c : ι × ℕ) (count : ℕ) :
    (r.turn place c (t.page c.1 c.2 count)).seen = r.seen ++ window (t.children c.1) (c.2, count) := by
  have hfst : (Prod.fst ∘ fun k => (k, t.isContainer k)) = id := rfl
  rw [Reader.turn, page, List.map_map, hfst, List.map_id]

/-- What a page leaves to do: more of the container, and the containers on the page. -/
theorem rest_page (c : ι × ℕ) (count : ℕ) :
    Reader.rest c (t.page c.1 c.2 count) =
      (if c.2 + (window (t.children c.1) (c.2, count)).length < (t.children c.1).length then
        [(c.1, c.2 + (window (t.children c.1) (c.2, count)).length)] else []) ++
      ((window (t.children c.1) (c.2, count)).filter t.isContainer).map fun k => (k, 0) := by
  unfold Reader.rest page
  rw [List.length_map, List.filter_map, List.map_map]
  rfl

theorem mem_rest_page {d : ι × ℕ} :
    d ∈ Reader.rest c (t.page c.1 c.2 count) ↔
      c.2 + (window (t.children c.1) (c.2, count)).length < (t.children c.1).length ∧
          d = (c.1, c.2 + (window (t.children c.1) (c.2, count)).length) ∨
        d.2 = 0 ∧ d.1 ∈ window (t.children c.1) (c.2, count) ∧ t.isContainer d.1 = true := by
  rw [rest_page, List.mem_append]
  refine or_congr ?_ ?_
  · split
    · next h => simp [h]
    · next h => simp [h]
  · obtain ⟨k, n⟩ := d
    simp only [List.mem_map, List.mem_filter, Prod.mk.injEq]
    constructor
    · rintro ⟨_, hk, rfl, rfl⟩
      exact ⟨rfl, hk⟩
    · rintro ⟨rfl, hk⟩
      exact ⟨k, hk, rfl, rfl⟩

theorem perm_eraseIdx (hplace : r.todo[place]? = some c) : (c :: r.todo.eraseIdx place).Perm r.todo := by
  obtain ⟨hlt, hget⟩ := List.getElem?_eq_some_iff.1 hplace
  exact hget ▸ List.getElem_cons_eraseIdx_perm hlt

theorem mem_todo (hplace : r.todo[place]? = some c) : c ∈ r.todo := List.mem_of_getElem? hplace

/-- Only members of the container itself are on the page. -/
theorem eq_of_mem_page {k id : ι} (hk : k ∈ window (t.children c.1) (c.2, count)) (hid : k ∈ t.children id) : id = c.1 :=
  t.parent_unique hid (mem_children_of_mem_window hk)

theorem known_turn {id : ι} (hid : t.Known r.seen id) :
    t.Known (r.turn place c (t.page c.1 c.2 count)).seen id := by
  rw [seen_turn]
  exact hid.imp_right fun hid => ⟨List.mem_append_left _ hid.1, hid.2⟩

theorem known_turn_cases {id : ι} (hid : t.Known (r.turn place c (t.page c.1 c.2 count)).seen id) :
    t.Known r.seen id ∨ id ∈ window (t.children c.1) (c.2, count) ∧ t.isContainer id = true := by
  rw [seen_turn] at hid
  rcases hid with hroot | ⟨hid, hcontainer⟩
  · exact .inl (.inl hroot)
  · rcases List.mem_append.1 hid with hid | hid
    · exact .inl (.inr ⟨hid, hcontainer⟩)
    · exact .inr ⟨hid, hcontainer⟩

namespace Inv

variable (h : t.Inv r) (hplace : r.todo[place]? = some c)
include h hplace

/-- The containers that stay in the list are other ones. -/
theorem others : c.1 ∉ (r.todo.eraseIdx place).map Prod.fst ∧ ((r.todo.eraseIdx place).map Prod.fst).Nodup := by
  have honce := ((perm_eraseIdx hplace).map Prod.fst).nodup_iff.2 h.once
  rwa [List.map_cons, List.nodup_cons] at honce

/-- The members of the next page are new. -/
theorem fresh {k : ι} (hk : k ∈ window (t.children c.1) (c.2, count)) : k ∉ r.seen := fun hseen =>
  notMem_take hk ((h.part c (mem_todo hplace) k (mem_children_of_mem_window hk)).1 hseen)

theorem not_known {k : ι} (hk : k ∈ window (t.children c.1) (c.2, count)) : ¬t.Known r.seen k := by
  rintro (rfl | ⟨hseen, -⟩)
  · exact t.root_notMem (t.mem_nodes (mem_children_of_mem_window hk))
  · exact h.fresh hplace hk hseen

theorem ne_of_known {k id : ι} (hk : k ∈ window (t.children c.1) (c.2, count)) (hid : t.Known r.seen id) : k ≠ id :=
  fun heq => h.not_known hplace hk (heq ▸ hid)

theorem once_turn : ((r.turn place c (t.page c.1 c.2 count)).todo.map Prod.fst).Nodup := by
  obtain ⟨hother, hnodup⟩ := h.others hplace
  have hmore : ∀ k ∈ ((if c.2 + (window (t.children c.1) (c.2, count)).length < (t.children c.1).length then
      [(c.1, c.2 + (window (t.children c.1) (c.2, count)).length)] else []) : List (ι × ℕ)).map Prod.fst, k = c.1 := by
    intro k hk
    split at hk
    · exact List.mem_singleton.1 hk
    · cases hk
  have hpage : ((window (t.children c.1) (c.2, count)).filter t.isContainer).Nodup :=
    (((t.nodup c.1).sublist (List.drop_sublist _ _)).sublist (List.take_sublist _ _)).filter _
  have hfst : (Prod.fst ∘ fun k : ι => (k, 0)) = id := rfl
  rw [Reader.turn, rest_page, List.map_append, List.map_append, List.map_map, hfst, List.map_id]
  refine List.nodup_append.2 ⟨hnodup, List.nodup_append.2 ⟨?_, hpage, ?_⟩, ?_⟩
  · split <;> simp
  · -- the container itself is not on its page
    rintro k hk k' hk' rfl
    rw [hmore k hk] at hk'
    exact h.not_known hplace (List.mem_filter.1 hk').1 (h.known c (mem_todo hplace))
  · rintro k hk k' hk' rfl
    rcases List.mem_append.1 hk' with hk' | hk'
    · exact hother (hmore k hk' ▸ hk)
    · obtain ⟨d, hd, rfl⟩ := List.mem_map.1 hk
      exact h.not_known hplace (List.mem_filter.1 hk').1
        (h.known d ((perm_eraseIdx hplace).mem_iff.1 (List.mem_cons_of_mem _ hd)))

/-- **What a page keeps.** -/
theorem turn : t.Inv (r.turn place c (t.page c.1 c.2 count)) := by
  have hmem := mem_todo hplace
  have hknown := h.known c hmem
  have hrest : ∀ d ∈ r.todo.eraseIdx place, d ∈ r.todo := fun d hd =>
    (perm_eraseIdx hplace).mem_iff.1 (List.mem_cons_of_mem _ hd)
  have htodo : ∀ d, d ∈ (r.turn place c (t.page c.1 c.2 count)).todo ↔
      d ∈ r.todo.eraseIdx place ∨ d ∈ Reader.rest c (t.page c.1 c.2 count) := fun d => List.mem_append
  constructor
  case nodup =>
    rw [seen_turn]
    refine List.nodup_append.2 ⟨h.nodup, ((t.nodup c.1).sublist (List.drop_sublist _ _)).sublist
      (List.take_sublist _ _), ?_⟩
    rintro k hk k' hk' rfl
    exact h.fresh hplace hk' hk
  case nodes =>
    intro k hk
    rw [seen_turn] at hk
    exact (List.mem_append.1 hk).elim (h.nodes k) fun hk => t.mem_nodes (mem_children_of_mem_window hk)
  case once => exact h.once_turn hplace
  case known =>
    intro d hd
    rcases (htodo d).1 hd with hd | hd
    · exact known_turn (h.known d (hrest d hd))
    · rcases mem_rest_page.1 hd with ⟨-, rfl⟩ | ⟨-, hd, hcontainer⟩
      · exact known_turn hknown
      · rw [seen_turn]
        exact .inr ⟨List.mem_append_right _ hd, hcontainer⟩
  case unread =>
    intro d hd
    rcases (htodo d).1 hd with hd | hd
    · exact h.unread d (hrest d hd)
    · rcases mem_rest_page.1 hd with ⟨hlt, rfl⟩ | ⟨hzero, -⟩
      · exact .inr hlt
      · exact .inl hzero
  case part =>
    intro d hd k hk
    rw [seen_turn, List.mem_append]
    rcases (htodo d).1 hd with hd | hd
    · rw [h.part d (hrest d hd) k hk, or_iff_left]
      intro hpage
      exact (h.others hplace).1 (eq_of_mem_page hpage hk ▸ List.mem_map_of_mem hd)
    · rcases mem_rest_page.1 hd with ⟨-, rfl⟩ | ⟨hzero, hd, -⟩
      · rw [h.part c hmem k hk, take_add_window, List.mem_append]
      · rw [hzero, List.take_zero, iff_false_right List.not_mem_nil]
        rintro (hseen | hpage)
        · exact h.unknown d.1 (h.not_known hplace hd) k hk hseen
        · exact h.ne_of_known hplace hd hknown (eq_of_mem_page hpage hk)
  case whole =>
    intro id hid hnot k hk
    rw [seen_turn, List.mem_append]
    have hgone : ∀ d, d.1 = id → d ∉ (r.turn place c (t.page c.1 c.2 count)).todo := by
      rintro d rfl hd
      exact hnot (List.mem_map_of_mem hd)
    rcases known_turn_cases hid with hid | ⟨hpage, hcontainer⟩
    · by_cases heq : id = c.1
      · -- nothing more of this container is to do, so the page is its last one
        subst heq
        by_cases hlt : c.2 + (window (t.children c.1) (c.2, count)).length < (t.children c.1).length
        · exact absurd ((htodo _).2 (.inr (mem_rest_page.2 (.inl ⟨hlt, rfl⟩)))) (hgone _ rfl)
        · rw [h.part c hmem k hk, ← List.mem_append, ← take_add_window, List.take_of_length_le (not_lt.1 hlt)]
          exact hk
      · refine .inl (h.whole id hid (fun hmap => ?_) k hk)
        obtain ⟨d, hd, rfl⟩ := List.mem_map.1 hmap
        rcases List.mem_cons.1 ((perm_eraseIdx hplace).mem_iff.2 hd) with rfl | hd
        · exact heq rfl
        · exact hgone d rfl ((htodo d).2 (.inl hd))
    · exact absurd ((htodo (id, 0)).2 (.inr (mem_rest_page.2 (.inr ⟨rfl, hpage, hcontainer⟩)))) (hgone _ rfl)
  case unknown =>
    intro id hid k hk
    have hold : ¬t.Known r.seen id := fun hold => hid (known_turn hold)
    rw [seen_turn, List.mem_append]
    rintro (hseen | hpage)
    · exact h.unknown id hold k hk hseen
    · exact hold (eq_of_mem_page hpage hk ▸ hknown)

end Inv

end Turn

/-! ### How long it takes -/

section Measure

variable (t) in
/-- What is left to do: the members to read, the containers to find, and the containers in the list. -/
def left [DecidableEq ι] (r : Reader ι) : ℕ :=
  (t.nodes.filter (· ∉ r.seen)).card + ((t.nodes.filter (t.isContainer · = true)).filter (· ∉ r.seen)).card +
    r.todo.length

variable [DecidableEq ι]

/-- New members of a set are as many fewer to come. -/
theorem card_filter_append (nodes : Finset ι) (seen : List ι) {new : List ι} (hnodup : new.Nodup) (hnodes : ∀ k ∈ new, k ∈ nodes)
    (hnew : ∀ k ∈ new, k ∉ seen) :
    (nodes.filter (· ∉ seen ++ new)).card + new.length = (nodes.filter (· ∉ seen)).card := by
  have hsdiff : nodes.filter (· ∉ seen ++ new) = nodes.filter (· ∉ seen) \ new.toFinset := by
    ext k
    simp only [Finset.mem_filter, Finset.mem_sdiff, List.mem_append, List.mem_toFinset, not_or, and_assoc]
  have hsub : new.toFinset ⊆ nodes.filter (· ∉ seen) := by
    intro k hk
    rw [List.mem_toFinset] at hk
    exact Finset.mem_filter.2 ⟨hnodes k hk, hnew k hk⟩
  rw [hsdiff, ← List.toFinset_card_of_nodup hnodup, Finset.card_sdiff_add_card_eq_card hsub]

/-- **Every page brings the reader closer to the end.** -/
theorem left_lt {r : Reader ι} {place count : ℕ} {c : ι × ℕ} (h : t.Inv r) (hplace : r.todo[place]? = some c)
    (hcount : 0 < count) : t.left (r.turn place c (t.page c.1 c.2 count)) < t.left r := by
  have hwindow : ∀ k ∈ window (t.children c.1) (c.2, count), k ∈ t.nodes :=
    fun k hk => t.mem_nodes (mem_children_of_mem_window hk)
  have hnodup : (window (t.children c.1) (c.2, count)).Nodup :=
    ((t.nodup c.1).sublist (List.drop_sublist _ _)).sublist (List.take_sublist _ _)
  have hfresh : ∀ k ∈ window (t.children c.1) (c.2, count), k ∉ r.seen := fun k hk => h.fresh hplace hk
  have hmembers := card_filter_append t.nodes r.seen hnodup hwindow hfresh
  have hcontainers := card_filter_append (t.nodes.filter (t.isContainer · = true)) r.seen
    (hnodup.filter t.isContainer) (fun k hk => Finset.mem_filter.2 ⟨hwindow k (List.mem_filter.1 hk).1, (List.mem_filter.1 hk).2⟩)
    fun k hk => hfresh k (List.mem_filter.1 hk).1
  have hsame : (t.nodes.filter (t.isContainer · = true)).filter
      (· ∉ r.seen ++ (window (t.children c.1) (c.2, count)).filter t.isContainer) =
        (t.nodes.filter (t.isContainer · = true)).filter (· ∉ r.seen ++ window (t.children c.1) (c.2, count)) := by
    refine Finset.filter_congr fun k hk => ?_
    rw [List.mem_append, List.mem_append, List.mem_filter, and_iff_left (Finset.mem_filter.1 hk).2]
  have hlength : (r.turn place c (t.page c.1 c.2 count)).todo.length =
      (r.todo.eraseIdx place).length + (Reader.rest c (t.page c.1 c.2 count)).length := List.length_append
  have hrest : (r.todo.eraseIdx place).length + 1 = r.todo.length := (perm_eraseIdx hplace).length_eq
  have htotal : (window (t.children c.1) (c.2, count)).length = min count ((t.children c.1).length - c.2) := by
    rw [window, List.length_take, List.length_drop]
  rw [rest_page, List.length_append, List.length_map] at hlength
  rw [hsame] at hcontainers
  unfold left
  rw [seen_turn, hlength]
  -- the container stays in the list only behind a page that is not empty
  split
  · rw [List.length_singleton]
    omega
  · rw [List.length_nil]
    omega

end Measure

/-! ### Reading to the end -/

section Read

variable {answer : α → ι → ℕ → Option (Page ι)}

/-- A known container is one of the tree. -/
theorem Inv.container {r : Reader ι} (h : t.Inv r) {id : ι} (hid : t.Known r.seen id) :
    id = t.root ∨ id ∈ t.nodes ∧ t.isContainer id = true :=
  hid.imp_right fun hid => ⟨h.nodes id hid.1, hid.2⟩

/-- **A request is a page**, and every container of the list can be asked. -/
theorem Inv.step_eq (hanswer : t.Serves answer) {r : Reader ι} (h : t.Inv r) {place : ℕ} {c : ι × ℕ}
    (hplace : r.todo[place]? = some c) (a : α) :
    ∃ count, 0 < count ∧ r.step answer (place, a) = some (r.turn place c (t.page c.1 c.2 count)) := by
  have hmem := mem_todo hplace
  have hle : c.2 ≤ (t.children c.1).length := by
    rcases h.unread c hmem with hzero | hlt
    · omega
    · omega
  obtain ⟨count, hcount, hpage⟩ := hanswer a c.1 c.2 (h.container (h.known c hmem)) hle
  refine ⟨count, hcount, ?_⟩
  rw [Reader.step, hplace, Option.bind_some, hpage]
  rfl

theorem Inv.step (hanswer : t.Serves answer) {r r' : Reader ι} (h : t.Inv r) {a : ℕ × α}
    (hstep : r.step answer a = some r') : t.Inv r' := by
  obtain ⟨c, hplace, -⟩ := Option.bind_eq_some_iff.1 hstep
  obtain ⟨count, -, heq⟩ := h.step_eq hanswer hplace a.2
  rw [heq] at hstep
  rw [← Option.some.inj hstep]
  exact h.turn hplace

/-- With nothing left to do, every node is read. -/
theorem Inv.all_seen {r : Reader ι} (h : t.Inv r) (htodo : r.todo = []) : ∀ k ∈ t.nodes, k ∈ r.seen := by
  have hchildren : ∀ id, t.Known r.seen id → ∀ k ∈ t.children id, k ∈ r.seen := by
    intro id hid
    refine h.whole id hid ?_
    rw [htodo]
    exact List.not_mem_nil
  intro k hk
  induction t.reach k hk with
  | single hroot => exact hchildren t.root (.inl rfl) _ hroot
  | @tail id k hreach hchild ih =>
    have hid : t.Known r.seen id := by
      rcases t.isContainer_of_mem hchild with hroot | hcontainer
      · exact .inl hroot
      · by_cases hroot : id = t.root
        · exact .inl hroot
        · obtain ⟨_, -, hmem⟩ := Relation.TransGen.tail'_iff.1 hreach
          exact .inr ⟨ih (t.mem_nodes hmem), hcontainer⟩
    exact hchildren id hid k hchild

/-- The reader can come to the end from wherever it is. -/
theorem Inv.exists_end [DecidableEq ι] (hanswer : t.Serves answer) (a : α) {r : Reader ι} (h : t.Inv r) :
    ∃ actions r', run (Reader.step answer) r actions = some r' ∧ r'.todo = [] := by
  induction hleft : t.left r using Nat.strongRecOn generalizing r with
  | ind left ih =>
    cases htodo : r.todo with
    | nil => exact ⟨[], r, rfl, htodo⟩
    | cons c todo =>
      have hplace : r.todo[0]? = some c := by rw [htodo]; rfl
      obtain ⟨count, hcount, hstep⟩ := h.step_eq hanswer hplace a
      obtain ⟨actions, r', hrun, hend⟩ := ih _ (hleft ▸ left_lt h hplace hcount) (h.turn hplace) rfl
      exact ⟨(0, a) :: actions, r', by rw [run_cons, hstep]; exact hrun, hend⟩

theorem length_add_left_le [DecidableEq ι] (hanswer : t.Serves answer) {actions : List (ℕ × α)} {r r' : Reader ι}
    (h : t.Inv r) (hrun : run (Reader.step answer) r actions = some r') : actions.length + t.left r' ≤ t.left r := by
  induction actions generalizing r with
  | nil =>
    obtain rfl := Option.some.inj hrun
    simp
  | cons a actions ih =>
    obtain ⟨s, hs, hrun⟩ := Option.bind_eq_some_iff.1 hrun
    obtain ⟨c, hplace, -⟩ := Option.bind_eq_some_iff.1 hs
    obtain ⟨count, hcount, heq⟩ := h.step_eq hanswer hplace a.2
    have hrest := ih (h.step hanswer hs) hrun
    obtain rfl := Option.some.inj (heq.symm.trans hs)
    have hlt := left_lt h hplace hcount
    rw [List.length_cons]
    omega

/-- **A reader reads every node once**: nothing is read twice, no request is refused, the number of requests is
bounded by the tree, at the end everything is read, and the end can always be reached. -/
theorem reads [DecidableEq ι] (hanswer : t.Serves answer) {actions : List (ℕ × α)} {r : Reader ι}
    (hrun : run (Reader.step answer) (.start t.root) actions = some r) :
    r.seen.Nodup ∧ (∀ k ∈ r.seen, k ∈ t.nodes) ∧
      (∀ place < r.todo.length, ∀ a, (r.step answer (place, a)).isSome) ∧
      actions.length + r.todo.length ≤ t.nodes.card + (t.nodes.filter (t.isContainer · = true)).card + 1 ∧
      (r.todo = [] → ∀ k ∈ t.nodes, k ∈ r.seen) ∧
      ∀ _ : α, ∃ more r', run (Reader.step answer) r more = some r' ∧ r'.todo = [] := by
  have hinv : t.Inv r := run_invariant (fun _ _ _ h hstep => h.step hanswer hstep) t.inv_start hrun
  have hlength := length_add_left_le hanswer t.inv_start hrun
  have hstart : t.left (.start t.root) = t.nodes.card + (t.nodes.filter (t.isContainer · = true)).card + 1 := by
    simp [left, Reader.start]
  refine ⟨hinv.nodup, hinv.nodes, ?_, ?_, hinv.all_seen, fun a => hinv.exists_end hanswer a⟩
  · intro place hplace a
    obtain ⟨count, -, heq⟩ := hinv.step_eq hanswer (List.getElem?_eq_getElem hplace) a
    rw [heq]
    rfl
  · rw [← hstart]
    have htodo : r.todo.length ≤ t.left r := Nat.le_add_left _ _
    omega

end Read

end PagedTree

end JoeDlna.Lib
