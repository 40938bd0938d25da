import JoeDlna.Catalog.Tree

/-!
# The walk as a recursion on the tree of files

Without symbolic links the explicit stack of `scanPending` does what a recursion on the tree does:
`Node.walk` lists what is below a directory, and the loop records the sightings of that list one
after the other.

* `mem_walk` — what the recursion finds below a node, by names;
* `nodup_walk` — it finds nothing twice;
* `scanPending_walk` — the loop over the stack is the recursion.
-/

namespace JoeDlna

open Lib

instance (s : Scope) (name : OsString) : Decidable (s.Admits name) := by
  unfold Scope.Admits
  infer_instance

/-! ### The recursion -/

/-- The entries of a directory that the walk looks at. -/
def Node.admitted (s : Scope) : Node → List (OsString × Node)
  | .dir _ children => children.filter fun c => s.Admits c.1
  | _ => []

theorem Node.sizeOf_lt_of_mem_admitted {s : Scope} {node : Node} {c : OsString × Node}
    (h : c ∈ node.admitted s) : sizeOf c.2 < sizeOf node := by
  cases node with
  | dir modified children =>
    have hmem := List.sizeOf_lt_of_mem (List.mem_filter.1 h).1
    obtain ⟨name, child⟩ := c
    simp only [Prod.mk.sizeOf_spec, Node.dir.sizeOf_spec] at hmem ⊢
    omega
  | _ => cases h

/-- What is below a node, with the names from the root: its own entries first, then what is below
each of them, the last one first. -/
def Node.walk (s : Scope) (node : Node) (rel : List OsString) : List (List OsString × Node) :=
  (node.admitted s).map (fun c => (rel ++ [c.1], c.2)) ++
    if s.recursive then
      (node.admitted s).reverse.attach.flatMap fun c => Node.walk s c.1.2 (rel ++ [c.1.1])
    else []
termination_by sizeOf node
decreasing_by exact Node.sizeOf_lt_of_mem_admitted (List.mem_reverse.1 c.2)

theorem Node.walk_eq (s : Scope) (node : Node) (rel : List OsString) :
    node.walk s rel = (node.admitted s).map (fun c => (rel ++ [c.1], c.2)) ++
      if s.recursive then (node.admitted s).reverse.flatMap fun c => c.2.walk s (rel ++ [c.1])
      else [] := by
  rw [Node.walk]
  congr 1
  split
  · conv_rhs => rw [← List.attach_map_subtype_val (node.admitted s).reverse, List.flatMap_map]
  · rfl

theorem Node.mem_admitted {s : Scope} {node : Node} (hv : node.Valid) {c : OsString × Node} :
    c ∈ node.admitted s ↔ node.child c.1 = some c.2 ∧ s.Admits c.1 := by
  cases hv with
  | dir modified children hnodup hnames hchildren =>
    simp only [Node.admitted, List.mem_filter, decide_eq_true_eq, Node.child]
    exact and_congr_left' ⟨Node.lookup_of_mem hnodup, Node.mem_of_lookup⟩
  | _ => simp [Node.admitted, Node.child]

theorem Node.Valid.of_mem_admitted {s : Scope} {node : Node} (hv : node.Valid) {c : OsString × Node}
    (h : c ∈ node.admitted s) : c.2.Valid := by
  cases hv with
  | dir modified children hnodup hnames hchildren => exact hchildren c (List.mem_filter.1 h).1
  | _ => cases h

theorem Node.nodup_admitted {s : Scope} {node : Node} (hv : node.Valid) :
    ((node.admitted s).map Prod.fst).Nodup := by
  cases hv with
  | dir modified children hnodup hnames hchildren => exact hnodup.sublist (List.filter_sublist.map _)
  | _ => exact List.nodup_nil

section Walk

variable {s : Scope}

/-- **What the recursion finds below a node**: the nodes whose names it admits, at any depth if
the walk is recursive. -/
theorem mem_walk {node : Node} (hv : node.Valid) (rel r : List OsString) (n : Node) :
    (r, n) ∈ node.walk s rel ↔ ∃ q, q ≠ [] ∧ r = rel ++ q ∧ node.lookup q = some n ∧
      (∀ name ∈ q, s.Admits name) ∧ (s.recursive = true ∨ q.length = 1) := by
  induction hsize : sizeOf node using Nat.strongRecOn generalizing node rel with
  | ind size ih =>
    subst hsize
    rw [Node.walk_eq, List.mem_append]
    constructor
    · rintro (h | h)
      · obtain ⟨c, hc, heq⟩ := List.mem_map.1 h
        obtain ⟨rfl, rfl⟩ := Prod.mk.inj heq
        obtain ⟨hchild, hadmits⟩ := (Node.mem_admitted hv).1 hc
        refine ⟨[c.1], by simp, rfl, ?_, by simpa using hadmits, .inr rfl⟩
        simp [Node.lookup, hchild]
      · split at h
        · next hrec =>
          obtain ⟨c, hc, h⟩ := List.mem_flatMap.1 h
          rw [List.mem_reverse] at hc
          obtain ⟨hchild, hadmits⟩ := (Node.mem_admitted hv).1 hc
          obtain ⟨q, hq, rfl, hlookup, hall, -⟩ :=
            (ih _ (Node.sizeOf_lt_of_mem_admitted hc) (hv.of_mem_admitted hc) _ rfl).1 h
          refine ⟨c.1 :: q, by simp, by simp, ?_, ?_, .inl hrec⟩
          · simp [Node.lookup, hchild, hlookup]
          · intro name hname
            rcases List.mem_cons.1 hname with rfl | hname
            · exact hadmits
            · exact hall name hname
        · cases h
    · rintro ⟨q, hq, rfl, hlookup, hall, hdepth⟩
      obtain ⟨name, q, rfl⟩ := List.exists_cons_of_ne_nil hq
      obtain ⟨child, hchild, hrest⟩ := Option.bind_eq_some_iff.1 hlookup
      have hc : (name, child) ∈ node.admitted s :=
        (Node.mem_admitted hv).2 ⟨hchild, hall name (by simp)⟩
      cases q with
      | nil =>
        obtain rfl := Option.some.inj hrest
        exact .inl (List.mem_map.2 ⟨_, hc, rfl⟩)
      | cons name' q =>
        have hrec : s.recursive = true := by simpa using hdepth
        right
        rw [if_pos hrec, List.mem_flatMap]
        refine ⟨_, List.mem_reverse.2 hc, ?_⟩
        refine (ih _ (Node.sizeOf_lt_of_mem_admitted hc) (hv.of_mem_admitted hc) _ rfl).2
          ⟨name' :: q, by simp, by simp, hrest, ?_, .inl hrec⟩
        exact fun n hn => hall n (List.mem_cons_of_mem _ hn)

/-- The recursion finds nothing twice. -/
theorem nodup_walk {node : Node} (hv : node.Valid) (rel : List OsString) :
    ((node.walk s rel).map Prod.fst).Nodup := by
  induction hsize : sizeOf node using Nat.strongRecOn generalizing node rel with
  | ind size ih =>
    subst hsize
    have hnames := Node.nodup_admitted (s := s) hv
    rw [Node.walk_eq, List.map_append, List.nodup_append]
    refine ⟨?_, ?_, ?_⟩
    · rw [List.map_map]
      have hinj : Function.Injective fun name : OsString => rel ++ [name] := by
        intro a b h
        simpa using h
      have hmap : (node.admitted s).map (Prod.fst ∘ fun c => (rel ++ [c.1], c.2)) =
          ((node.admitted s).map Prod.fst).map fun name => rel ++ [name] := by
        rw [List.map_map]
        rfl
      rw [hmap]
      exact hnames.map hinj
    · split
      · rw [List.map_flatMap, List.nodup_flatMap]
        constructor
        · intro c hc
          rw [List.mem_reverse] at hc
          exact ih _ (Node.sizeOf_lt_of_mem_admitted hc) (hv.of_mem_admitted hc) _ rfl
        · have hpair : (node.admitted s).Pairwise fun c d => c.1 ≠ d.1 := List.pairwise_map.1 hnames
          rw [List.pairwise_reverse]
          refine hpair.imp_of_mem fun {c d} hc hd hne => ?_
          intro r hr hr'
          obtain ⟨⟨_, n⟩, hn, rfl⟩ := List.mem_map.1 hr
          obtain ⟨⟨_, n'⟩, hn', heq⟩ := List.mem_map.1 hr'
          obtain ⟨q, -, hq, -⟩ := (mem_walk (hv.of_mem_admitted hd) _ _ _).1 hn
          obtain ⟨q', -, hq', -⟩ := (mem_walk (hv.of_mem_admitted hc) _ _ _).1 hn'
          simp only at heq hq hq'
          rw [heq, hq] at hq'
          simp only [List.append_assoc, List.append_cancel_left_eq, List.cons_append, List.nil_append,
            List.cons.injEq] at hq'
          exact hne hq'.1.symm
      · exact List.nodup_nil
    · -- the entries themselves are less deep than what is below them
      intro r hr r' hr'
      rw [List.map_map, List.mem_map] at hr
      obtain ⟨c, -, rfl⟩ := hr
      split at hr'
      · obtain ⟨⟨_, n⟩, hn, rfl⟩ := List.mem_map.1 hr'
        obtain ⟨d, hd, hn⟩ := List.mem_flatMap.1 hn
        rw [List.mem_reverse] at hd
        obtain ⟨q, hq, hr, -⟩ := (mem_walk (hv.of_mem_admitted hd) _ _ _).1 hn
        intro heq
        simp only [Function.comp_apply] at heq hr
        rw [← heq] at hr
        have hlen := congrArg List.length hr
        have hpos := List.length_pos_of_ne_nil hq
        simp only [List.length_append, List.length_singleton] at hlen
        omega
      · cases hr'

end Walk

/-! ### Effects -/

/-- What a sighting does to the catalog and the number of unsettled files. -/
def effect (acc : Catalog × ℕ) : Sighting → Except ScanError (Catalog × ℕ)
  | .skip => .ok acc
  | .unsettled => .ok (acc.1, acc.2 + 1)
  | .directory entry => (acc.1.insertEntry entry).map fun c => (c, acc.2)
  | .file entry => ((acc.1.countFile entry.size).insertEntry entry).map fun c => (c, acc.2)

/-- What a sighting puts on the stack. -/
def pushed : Sighting → List (Path × Text)
  | .directory entry => [(entry.path, entry.id)]
  | _ => []

/-- The entry that a sighting adds. -/
def Sighting.entry? : Sighting → Option Entry
  | .directory entry => some entry
  | .file entry => some entry
  | _ => none

theorem entry?_eq_some {x : Sighting} {e : Entry} :
    x.entry? = some e ↔ x = .directory e ∨ x = .file e := by
  cases x <;> simp [Sighting.entry?]

theorem record_eq_ok {w w' : Walk} {x : Sighting} (h : record w x = .ok w') :
    effect (w.catalog, w.unsettledFiles) x = .ok (w'.catalog, w'.unsettledFiles) ∧
      w'.pending = pushed x ++ w.pending ∧ w'.visited = w.visited := by
  cases x with
  | skip => obtain rfl := Except.ok.inj h; exact ⟨rfl, rfl, rfl⟩
  | unsettled => obtain rfl := Except.ok.inj h; exact ⟨rfl, rfl, rfl⟩
  | directory entry =>
    obtain ⟨c, hc, rfl⟩ := except_map_eq_ok h
    exact ⟨by simp [effect, hc, Except.map], rfl, rfl⟩
  | file entry =>
    obtain ⟨c, hc, rfl⟩ := except_map_eq_ok h
    exact ⟨by simp [effect, hc, Except.map], rfl, rfl⟩

theorem scanEntries_eq_ok {s : Scope} {directory : Path} {parentId : Text}
    {names : List (Except IoError OsString)} {w w' : Walk}
    (h : scanEntries s directory parentId w names = .ok w') :
    (names.map (inspect s directory parentId)).foldlM effect (w.catalog, w.unsettledFiles) =
        .ok (w'.catalog, w'.unsettledFiles) ∧
      w'.pending = (names.map (inspect s directory parentId)).reverse.flatMap pushed ++ w.pending := by
  induction names generalizing w with
  | nil =>
    obtain rfl := Except.ok.inj h
    exact ⟨rfl, rfl⟩
  | cons name names ih =>
    rw [scanEntries, List.foldlM_cons] at h
    obtain ⟨w₁, h₁, h⟩ := except_bind_eq_ok h
    obtain ⟨heffect, hpending, -⟩ := record_eq_ok h₁
    obtain ⟨ih₁, ih₂⟩ := ih h
    rw [List.map_cons, List.foldlM_cons, heffect]
    refine ⟨ih₁, ?_⟩
    rw [ih₂, hpending, List.reverse_cons, List.flatMap_append, List.append_assoc]
    simp

/-- Sightings without an effect change nothing. -/
theorem foldlM_effect_map {α : Type} {f g : α → Sighting} {p : α → Bool} {l : List α}
    (hf : ∀ a ∈ l, f a = if p a then g a else .skip) (acc : Catalog × ℕ) :
    (l.map f).foldlM effect acc = ((l.filter p).map g).foldlM effect acc := by
  induction l generalizing acc with
  | nil => rfl
  | cons a l ih =>
    have ih := ih fun b hb => hf b (List.mem_cons_of_mem a hb)
    rw [List.map_cons, List.foldlM_cons, hf a (by simp)]
    cases ha : p a with
    | false =>
      rw [List.filter_cons_of_neg (by simp [ha])]
      exact ih acc
    | true =>
      rw [List.filter_cons_of_pos ha, List.map_cons, List.foldlM_cons, if_pos rfl]
      cases effect acc (g a) with
      | error e => rfl
      | ok acc => exact ih acc

/-- The sightings of a part of a list that has no other effects put the same on the stack. -/
theorem flatMap_pushed_map {α : Type} {f g : α → Sighting} {p : α → Bool} {l : List α}
    (hf : ∀ a ∈ l, f a = if p a then g a else .skip) :
    (l.map f).reverse.flatMap pushed = (l.filter p).reverse.flatMap fun a => pushed (g a) := by
  induction l with
  | nil => rfl
  | cons a l ih =>
    have ih := ih fun b hb => hf b (List.mem_cons_of_mem a hb)
    rw [List.map_cons, List.reverse_cons, List.flatMap_append, ih, hf a (by simp)]
    cases ha : p a with
    | false => simp [ha, pushed]
    | true => simp [ha]

/-- **What a series of sightings leaves in the catalog.** -/
theorem effects_eq_ok {l : List Sighting} {acc acc' : Catalog × ℕ} (h : l.foldlM effect acc = .ok acc') :
    (∀ (id : Text) (e : Entry), acc'.1.entries[id]? = some e ↔
      acc.1.entries[id]? = some e ∨ e.id = id ∧ e ∈ l.filterMap Sighting.entry?) ∧
    acc'.2 = acc.2 + l.count .unsettled := by
  induction l generalizing acc with
  | nil =>
    obtain rfl := Except.ok.inj h
    simp
  | cons x l ih =>
    rw [List.foldlM_cons] at h
    obtain ⟨acc₁, h₁, h⟩ := except_bind_eq_ok h
    obtain ⟨hentries, hcount⟩ := ih h
    have hinsert : ∀ {c c' : Catalog} {d : Entry}, c.insertEntry d = .ok c' → ∀ id e,
        c'.entries[id]? = some e ↔ c.entries[id]? = some e ∨ e.id = id ∧ e = d := by
      intro c c' d hc id e
      rw [Catalog.insertEntry_entries hc]
      split
      · next heq =>
        rw [heq, Catalog.insertEntry_fresh hc]
        simp only [Option.some.injEq, reduceCtorEq, false_or]
        exact ⟨fun hd => ⟨by rw [hd], hd.symm⟩, fun hd => hd.2.symm⟩
      · next hne =>
        refine ⟨.inl, ?_⟩
        rintro (hd | ⟨hd, rfl⟩)
        · exact hd
        · exact absurd hd.symm hne
    cases x with
    | skip =>
      obtain rfl := Except.ok.inj h₁
      refine ⟨fun id e => ?_, ?_⟩
      · simpa [Sighting.entry?] using hentries id e
      · simpa using hcount
    | unsettled =>
      obtain rfl := Except.ok.inj h₁
      refine ⟨fun id e => ?_, ?_⟩
      · simpa [Sighting.entry?] using hentries id e
      · rw [hcount, List.count_cons_self]
        omega
    | directory d =>
      obtain ⟨c, hc, rfl⟩ := except_map_eq_ok h₁
      refine ⟨fun id e => ?_, by simpa using hcount⟩
      rw [hentries id e, hinsert hc id e]
      simp only [Sighting.entry?, List.filterMap_cons, List.mem_cons]
      tauto
    | file d =>
      obtain ⟨c, hc, rfl⟩ := except_map_eq_ok h₁
      refine ⟨fun id e => ?_, by simpa using hcount⟩
      rw [hentries id e, hinsert hc id e]
      simp only [Sighting.entry?, List.filterMap_cons, List.mem_cons]
      exact ⟨fun h => by tauto, fun h => by tauto⟩

/-! ### The loop over the stack -/

/-- The path of the names below the root. -/
def Scope.place (s : Scope) (rel : List OsString) : Path :=
  { s.root with parts := s.root.parts ++ rel }

/-- The id of the directory at the names below the root. -/
def Scope.directoryId (s : Scope) (rel : List OsString) : Text :=
  objectId 'd' s.rootHash ⟨false, rel⟩

/-- What the loop body makes of a node that the recursion finds. -/
def Scope.sight (s : Scope) (x : List OsString × Node) : Sighting :=
  inspectMetadata s (s.place x.1.dropLast) (s.directoryId x.1.dropLast) (x.1.getLastD []) x.2.metadata

section Loop

variable {t : FileTree} {s : Scope}

theorem place_join (rel : List OsString) (name : OsString) :
    (s.place rel).join name = s.place (rel ++ [name]) := by
  simp [Scope.place, Path.join, List.append_assoc]

theorem relative_place (rel : List OsString) : s.relative (s.place rel) = ⟨false, rel⟩ := by
  simp [Scope.relative, Scope.place, Path.stripBase]

theorem sight_concat (rel : List OsString) (name : OsString) (node : Node) :
    s.sight (rel ++ [name], node) =
      inspectMetadata s (s.place rel) (s.directoryId rel) name node.metadata := by
  simp [Scope.sight]

theorem directoryEntry_place (rel : List OsString) (name : OsString) (metadata : Metadata) :
    directoryEntry s (s.place rel) (s.directoryId rel) name metadata =
      { id := s.directoryId (rel ++ [name])
        parentId := s.directoryId rel
        title := toStringLossy name
        path := s.place (rel ++ [name])
        kind := .container
        size := 0
        modifiedSeconds := modifiedSeconds metadata } := by
  simp only [directoryEntry, place_join, relative_place, Scope.directoryId]

theorem pushed_inspectMetadata (directory : Path) (parentId : Text) (name : OsString)
    (metadata : Metadata) :
    pushed (inspectMetadata s directory parentId name metadata) =
      if s.recursive = true ∧ metadata.isDir = true then
        let entry := directoryEntry s directory parentId name metadata
        [(entry.path, entry.id)]
      else [] := by
  by_cases h : s.recursive = true ∧ metadata.isDir = true
  · rw [if_pos h, inspectMetadata_directory.2 ⟨h.1, h.2, rfl⟩]
    rfl
  · rw [if_neg h]
    cases hs : inspectMetadata s directory parentId name metadata with
    | directory e =>
      obtain ⟨hrec, hdir, -⟩ := inspectMetadata_directory.1 hs
      exact absurd ⟨hrec, hdir⟩ h
    | _ => rfl

/-- A sighting puts a directory on the stack, if the walk is recursive. -/
theorem pushed_sight (rel : List OsString) (name : OsString) (node : Node) :
    pushed (s.sight (rel ++ [name], node)) =
      if s.recursive = true ∧ node.isDir = true then
        [(s.place (rel ++ [name]), s.directoryId (rel ++ [name]))]
      else [] := by
  have hdir : node.metadata.isDir = node.isDir := by cases node <;> rfl
  rw [sight_concat, pushed_inspectMetadata, hdir, directoryEntry_place]

theorem walk_of_not_isDir {node : Node} (h : node.isDir = false) (rel : List OsString) :
    node.walk s rel = [] := by
  rw [Node.walk_eq]
  cases node <;> simp_all [Node.isDir, Node.admitted]

/-- The subdirectories that the walk will enter, the last one first. -/
def Node.entered (s : Scope) (node : Node) (rel : List OsString) : List (List OsString × Node) :=
  ((node.admitted s).reverse.filter fun c => s.recursive && c.2.isDir).map
    fun c => (rel ++ [c.1], c.2)

theorem walk_eq_entered (node : Node) (rel : List OsString) :
    node.walk s rel = (node.admitted s).map (fun c => (rel ++ [c.1], c.2)) ++
      (node.entered s rel).flatMap fun x => x.2.walk s x.1 := by
  rw [Node.walk_eq]
  congr 1
  unfold Node.entered
  cases s.recursive with
  | false => simp
  | true =>
    rw [if_pos rfl, List.flatMap_map]
    induction (node.admitted s).reverse with
    | nil => rfl
    | cons c l ih =>
      rw [List.flatMap_cons, ih]
      cases hc : c.2.isDir with
      | false => simp [hc, walk_of_not_isDir hc]
      | true => simp [hc]

theorem pushed_entered (node : Node) (rel : List OsString) :
    ((node.admitted s).reverse.flatMap fun c => pushed (s.sight (rel ++ [c.1], c.2))) =
      (node.entered s rel).map fun x => (s.place x.1, s.directoryId x.1) := by
  unfold Node.entered
  induction (node.admitted s).reverse with
  | nil => rfl
  | cons c l ih =>
    rw [List.flatMap_cons, ih, pushed_sight]
    by_cases h : s.recursive = true ∧ c.2.isDir = true
    · rw [if_pos h, List.filter_cons_of_pos (by simp [h]), List.map_cons, List.map_cons,
        List.singleton_append]
    · rw [if_neg h, List.filter_cons_of_neg (by simpa using h), List.nil_append]

theorem lookup_of_mem_entered {rel : List OsString} {node : Node} (hv : t.root.Valid)
    (hnode : t.root.lookup (s.root.parts ++ rel) = some node) {x : List OsString × Node}
    (hx : x ∈ node.entered s rel) :
    t.root.lookup (s.root.parts ++ x.1) = some x.2 ∧ x.2.isDir = true := by
  obtain ⟨c, hc, rfl⟩ := List.mem_map.1 hx
  obtain ⟨hc, hdir⟩ := List.mem_filter.1 hc
  rw [List.mem_reverse] at hc
  obtain ⟨hchild, -⟩ := (Node.mem_admitted (hv.lookup hnode).1).1 hc
  refine ⟨?_, by simpa using (Bool.and_eq_true_iff.1 hdir).2⟩
  rw [← List.append_assoc, Node.lookup_concat, hnode]
  exact hchild

variable (hfs : s.fs = t.fileSystem) (hlinks : s.followSymlinks = false) (habs : s.root.absolute = true)
include hfs hlinks habs

/-- A directory entry that is not admitted is skipped, and the others are sighted. -/
theorem inspect_child {rel : List OsString} {modified : SystemTime} {children : List (OsString × Node)}
    (hnode : t.root.lookup (s.root.parts ++ rel) = some (.dir modified children)) {c : OsString × Node}
    (hc : c ∈ children) :
    inspect s (s.place rel) (s.directoryId rel) (.ok c.1) =
      if s.Admits c.1 then s.sight (rel ++ [c.1], c.2) else .skip := by
  split
  · next ha =>
    have hstat : s.stat ((s.place rel).join c.1) = .ok c.2.metadata := by
      have hplace : s.place rel = ⟨true, s.root.parts ++ rel⟩ := by rw [← habs]; rfl
      rw [Scope.stat, hlinks, hfs, hplace]
      exact FileTree.symlinkMetadata_of_lookup hnode hc
    rw [inspect_of_admits ha hstat, sight_concat]
  · next ha =>
    by_contra hne
    obtain ⟨name, metadata, hname, hadmits, -⟩ := inspect_ne_skip hne
    obtain rfl := Except.ok.inj hname
    exact ha hadmits

/-- One directory taken from the stack. -/
theorem scanDirectory_eq_ok {rel : List OsString} {node : Node}
    (hnode : t.root.lookup (s.root.parts ++ rel) = some node)
    (hreal : ∀ modified target, node ≠ .symlink modified target) {w w' : Walk}
    (h : scanDirectory s w (s.place rel) (s.directoryId rel) = .ok w') :
    ((node.admitted s).map fun c => s.sight (rel ++ [c.1], c.2)).foldlM effect
        (w.catalog, w.unsettledFiles) = .ok (w'.catalog, w'.unsettledFiles) ∧
      w'.pending = (node.entered s rel).map (fun x => (s.place x.1, s.directoryId x.1)) ++ w.pending := by
  have hplace : s.place rel = ⟨true, s.root.parts ++ rel⟩ := by rw [← habs]; rfl
  have henter : enter s (s.place rel) w.visited = some w.visited := by simp [enter, hlinks]
  unfold scanDirectory at h
  rw [henter] at h
  simp only [hfs] at h
  cases node with
  | dir modified children =>
    rw [hplace, FileTree.readDir_of_lookup hnode, ← hplace] at h
    obtain ⟨heffect, hpending⟩ := scanEntries_eq_ok h
    rw [List.map_map] at heffect hpending
    have hinspect : ∀ c ∈ children, (inspect s (s.place rel) (s.directoryId rel) ∘ fun c => .ok c.1) c =
        if (decide (s.Admits c.1)) then s.sight (rel ++ [c.1], c.2) else .skip := by
      intro c hc
      simpa using inspect_child hfs hlinks habs hnode hc
    rw [foldlM_effect_map hinspect] at heffect
    rw [flatMap_pushed_map hinspect] at hpending
    refine ⟨heffect, ?_⟩
    rw [hpending, ← pushed_entered]
    rfl
  | symlink modified target => exact absurd rfl (hreal modified target)
  | file | other =>
    -- a node that has no entries cannot be read: the error is logged, and nothing is found
    have hread : t.fileSystem.readDir (s.place rel) = .error .other := by
      rw [hplace]
      change (t.nodeAt _ >>= _) = _
      rw [FileTree.nodeAt_of_lookup hnode (by simp)]
      rfl
    rw [hread] at h
    obtain rfl := Except.ok.inj h
    exact ⟨rfl, rfl⟩

/-- **The loop over the stack is the recursion**: it records what the recursion finds below the
nodes of the stack, from the top down. -/
theorem scanPending_walk {fuel : ℕ} {w w' : Walk} (stack : List (List OsString × Node))
    (hstack : ∀ x ∈ stack, t.root.lookup (s.root.parts ++ x.1) = some x.2 ∧
      ∀ modified target, x.2 ≠ .symlink modified target)
    (hpending : w.pending = stack.map fun x => (s.place x.1, s.directoryId x.1))
    (h : scanPending s fuel w = .ok w') :
    ((stack.flatMap fun x => x.2.walk s x.1).map s.sight).foldlM effect (w.catalog, w.unsettledFiles) =
      .ok (w'.catalog, w'.unsettledFiles) := by
  induction fuel generalizing w stack with
  | zero =>
    unfold scanPending at h
    split at h
    · next hnil =>
      obtain rfl := Except.ok.inj h
      rw [hpending, List.map_eq_nil_iff] at hnil
      subst hnil
      rfl
    · cases h
  | succ fuel ih =>
    unfold scanPending at h
    cases stack with
    | nil =>
      rw [hpending] at h
      obtain rfl := Except.ok.inj h
      rfl
    | cons x stack =>
      rw [hpending] at h
      obtain ⟨w₁, h₁, h⟩ := except_bind_eq_ok h
      obtain ⟨hnode, hreal⟩ := hstack x (by simp)
      obtain ⟨heffect, hpending₁⟩ := scanDirectory_eq_ok hfs hlinks habs hnode hreal (mapError_eq_ok h₁)
      rw [← List.map_append] at hpending₁
      have hrest := ih _ (fun y hy => ?_) hpending₁ h
      · rw [List.flatMap_cons, walk_eq_entered, List.map_append, List.map_append, List.foldlM_append,
          List.foldlM_append, List.map_map]
        rw [List.flatMap_append, List.map_append, List.foldlM_append] at hrest
        change (((((x.2.admitted s).map fun c => s.sight (x.1 ++ [c.1], c.2)).foldlM effect _) >>= _) >>= _) = _
        rw [heffect]
        exact hrest
      · rcases List.mem_append.1 hy with hy | hy
        · obtain ⟨hlookup, hdir⟩ := lookup_of_mem_entered t.valid hnode hy
          refine ⟨hlookup, fun modified target heq => ?_⟩
          rw [heq] at hdir
          cases hdir
        · exact hstack y (List.mem_cons_of_mem _ hy)

end Loop

end JoeDlna
