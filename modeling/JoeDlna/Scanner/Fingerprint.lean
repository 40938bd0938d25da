import JoeDlna.Lib.PrefixFree
import JoeDlna.Scanner.Order

/-!
# The fingerprint of a catalog

`content_fingerprint` hashes five fields of every entry, in the order of the ids: each field, and then a
byte `0xff` that also occurs inside the numbers. The path and the kind of an entry and the child lists are
not hashed.

* `contentFingerprint_eq_loop` — the loop of the source hashes one string of bytes;
* `contentBytes_eq_iff` — these bytes tell the content of a scanned catalog, where equal ids are of equal
  paths.
-/

namespace JoeDlna

open Lib

namespace Catalog

/-! ### The bytes -/

/-- `hash_value`, on the hash. -/
def hashValueInto (hash : UInt64) (value : List UInt8) : UInt64 :=
  (fnvBytes hash value ^^^ 0xFF) * fnvPrime

/-- What the loop of `content_fingerprint` does with one entry. -/
def hashEntryInto (hash : UInt64) (entry : Entry) : UInt64 :=
  let hash := hashValueInto hash (utf8 entry.id)
  let hash := hashValueInto hash (utf8 entry.parentId)
  let hash := hashValueInto hash (utf8 entry.title)
  let hash := hashValueInto hash (leBytes entry.modifiedSeconds)
  hashValueInto hash (leBytes entry.size)

/-- The entries in the order of their ids. -/
def sortedEntries (c : Catalog) : List Entry := sortBy (compareOn Entry.id) (c.entries.toList.map Prod.snd)

/-- The bytes that the fingerprint hashes. -/
def contentBytes (c : Catalog) : List UInt8 := c.sortedEntries.flatMap entryBytes

theorem hashValueInto_eq (hash : UInt64) (value : List UInt8) :
    hashValueInto hash value = fnvBytes hash (hashValue value) := by
  rw [hashValue, fnvBytes_append]
  rfl

theorem hashEntryInto_eq (hash : UInt64) (entry : Entry) :
    hashEntryInto hash entry = fnvBytes hash (entryBytes entry) := by
  simp only [hashEntryInto, hashValueInto_eq, entryBytes, fnvBytes_append]

/-- **The loop of the source** hashes the bytes of the entries, one after the other. -/
theorem contentFingerprint_eq_loop (c : Catalog) :
    c.contentFingerprint = foldUpdateId (c.sortedEntries.foldl hashEntryInto 0xcbf29ce484222325) ∧
      c.contentFingerprint = foldUpdateId (fnvBytes 0xcbf29ce484222325 c.contentBytes) := by
  have hloop : ∀ (l : List Entry) hash, l.foldl hashEntryInto hash = fnvBytes hash (l.flatMap entryBytes) := by
    intro l
    induction l with
    | nil => exact fun _ => rfl
    | cons e l ih =>
      intro hash
      rw [List.foldl_cons, hashEntryInto_eq, ih, List.flatMap_cons, fnvBytes_append]
  refine ⟨?_, rfl⟩
  rw [hloop]
  rfl

theorem Shape.mem_sortedEntries {c : Catalog} (hs : c.Shape) (e : Entry) :
    e ∈ c.sortedEntries ↔ c.entries[e.id]? = some e := by
  rw [sortedEntries, mem_sortBy, List.mem_map]
  constructor
  · rintro ⟨⟨id, d⟩, hd, rfl⟩
    have hd := TextMap.mem_toList.1 hd
    rwa [hs.storedById id d hd]
  · intro he
    exact ⟨(e.id, e), TextMap.mem_toList.2 he, rfl⟩

end Catalog

/-! ### The fields -/

/-- The fields of an entry that are hashed. -/
def Entry.fingerprinted (e : Entry) : Text × Text × Text × UInt64 × UInt64 :=
  (e.id, e.parentId, e.title, e.modifiedSeconds, e.size)

/-- The bytes of the fields. -/
def fingerprintBytes (x : Text × Text × Text × UInt64 × UInt64) : List UInt8 :=
  hashValue (utf8 x.1) ++ (hashValue (utf8 x.2.1) ++ (hashValue (utf8 x.2.2.1) ++
    (hashValue (leBytes x.2.2.2.1) ++ hashValue (leBytes x.2.2.2.2))))

theorem entryBytes_eq (e : Entry) : Catalog.entryBytes e = fingerprintBytes e.fingerprinted := by
  simp only [Catalog.entryBytes, fingerprintBytes, Entry.fingerprinted, List.append_assoc]

theorem prefixFree_fingerprintBytes : PrefixFree fingerprintBytes :=
  prefixFree_utf8.append (prefixFree_utf8.append (prefixFree_utf8.append
    (prefixFree_leBytes.append prefixFree_leBytes)))

/-- **The bytes tell the hashed fields** of all the entries. -/
theorem contentBytes_eq_iff_map {c d : Catalog} :
    c.contentBytes = d.contentBytes ↔
      c.sortedEntries.map Entry.fingerprinted = d.sortedEntries.map Entry.fingerprinted := by
  have hbytes : ∀ c : Catalog, c.contentBytes =
      (c.sortedEntries.map Entry.fingerprinted).flatMap fingerprintBytes := by
    intro c
    rw [List.flatMap_map]
    exact List.flatMap_congr fun e _ => entryBytes_eq e
  rw [hbytes, hbytes]
  refine ⟨fun h => ?_, fun h => by rw [h]⟩
  refine prefixFree_fingerprintBytes.flatMap_injective (fun x => ?_) h
  simp [fingerprintBytes, hashValue]

/-! ### The fields that are not hashed -/

/-- The kind of an entry is told by the first letter of its id and by its path. -/
def Entry.KindTold (e : Entry) : Prop :=
  (e.kind = .container ∧ e.id.head? = some 'd') ∨
    ∃ media, e.kind = .media media ∧ mediaKind e.path = some media ∧ e.id.head? = some 'f'

theorem Entry.KindTold.kind_eq {e d : Entry} (he : e.KindTold) (hd : d.KindTold) (hid : e.id = d.id)
    (hpath : e.path = d.path) : e.kind = d.kind := by
  rcases he with ⟨hek, he⟩ | ⟨media, hek, hem, he⟩ <;> rcases hd with ⟨hdk, hd⟩ | ⟨media', hdk, hdm, hd⟩
  · rw [hek, hdk]
  · rw [hid, hd] at he
    cases he
  · rw [hid, hd] at he
    cases he
  · rw [hpath, hdm] at hem
    rw [hek, hdk, Option.some.inj hem]

def Catalog.KindsTold (c : Catalog) : Prop := ∀ (id : Text) (e : Entry), c.entries[id]? = some e → e.KindTold

theorem Catalog.KindsTold.insertEntry {c c' : Catalog} {e : Entry} (hc : c.KindsTold) (he : e.KindTold)
    (h : c.insertEntry e = .ok c') : c'.KindsTold := by
  intro id d hd
  rw [Catalog.insertEntry_entries h] at hd
  split at hd
  · obtain rfl := Option.some.inj hd
    exact he
  · exact hc id d hd

section Scan

variable {fs fs' : FileSystem} {fuel fuel' : ℕ} {config config' : Config} {minimumAge minimumAge' : Duration}
  {r r' : CatalogScan}

theorem scanWithMinimumAge_kindsTold (h : scanWithMinimumAge fs fuel config minimumAge = .ok r) :
    r.catalog.KindsTold := by
  obtain ⟨acc, hacc, hr, -⟩ := scanWithMinimumAge_eq_ok h
  rw [hr]
  refine scan_induction (P := Catalog.KindsTold) ?_ ?_ ?_ ?_ hacc
  · intro id e he
    rw [Catalog.empty_entries] at he
    cases he
  · intro c c' share root metadata hc h
    exact hc.insertEntry (.inl ⟨rfl, rfl⟩) h
  · rintro c c' s directory parentId name metadata hc - h
    exact hc.insertEntry (.inl ⟨rfl, rfl⟩) h
  · rintro c c' s directory parentId name metadata kind hc - hkind h
    exact Catalog.KindsTold.insertEntry (c := c.countFile metadata.len) hc (.inr ⟨kind, rfl, hkind, rfl⟩) h

/-- An entry of one catalog is an entry of another with the same hashed fields. -/
theorem entries_of_fingerprinted {c d : Catalog} (hc : c.Shape) (hd : d.Shape) (hckinds : c.KindsTold)
    (hdkinds : d.KindsTold)
    (hpaths : ∀ (id : Text) (e e' : Entry), c.entries[id]? = some e → d.entries[id]? = some e' → e.path = e'.path)
    (hfields : c.sortedEntries.map Entry.fingerprinted = d.sortedEntries.map Entry.fingerprinted)
    {id : Text} {e : Entry} (he : c.entries[id]? = some e) : d.entries[id]? = some e := by
  have hmem : e.fingerprinted ∈ d.sortedEntries.map Entry.fingerprinted := by
    rw [← hfields]
    exact List.mem_map_of_mem ((hc.mem_sortedEntries e).2 (by rwa [hc.storedById id e he]))
  obtain ⟨e', he', heq⟩ := List.mem_map.1 hmem
  have he' := (hd.mem_sortedEntries e').1 he'
  simp only [Entry.fingerprinted, Prod.mk.injEq] at heq
  obtain ⟨hid, hparent, htitle, hmodified, hsize⟩ := heq
  rw [hid, hc.storedById id e he] at he'
  have hpath := hpaths id e e' he he'
  have hkind := (hckinds id e he).kind_eq (hdkinds id e' he') hid.symm hpath
  have hsame : e' = e := by
    obtain ⟨_, _, _, _, _, _, _⟩ := e
    obtain ⟨_, _, _, _, _, _, _⟩ := e'
    simp only [Entry.mk.injEq] at *
    exact ⟨hid, hparent, htitle, hpath.symm, hkind.symm, hsize, hmodified⟩
  rw [he', hsame]

/-- **The bytes that are hashed tell the content**: the fingerprint of every catalog is the folded hash of
one string of bytes, and for two scanned catalogs in which equal ids are of equal paths, these bytes are
equal exactly if the content is the same. -/
theorem contentBytes_eq_iff (h : scanWithMinimumAge fs fuel config minimumAge = .ok r)
    (h' : scanWithMinimumAge fs' fuel' config' minimumAge' = .ok r')
    (hpaths : ∀ (id : Text) (e e' : Entry), r.catalog.entries[id]? = some e →
      r'.catalog.entries[id]? = some e' → e.path = e'.path) :
    (∀ c : Catalog, c.contentFingerprint = foldUpdateId (c.sortedEntries.foldl Catalog.hashEntryInto
        0xcbf29ce484222325) ∧
      c.contentFingerprint = foldUpdateId (fnvBytes 0xcbf29ce484222325 c.contentBytes)) ∧
    (r.catalog.contentBytes = r'.catalog.contentBytes ↔ r.catalog.hasSameContent r'.catalog = true) := by
  refine ⟨Catalog.contentFingerprint_eq_loop, ?_⟩
  have htree := (scanWithMinimumAge_tree fs fuel config minimumAge).2 r h
  have htree' := (scanWithMinimumAge_tree fs' fuel' config' minimumAge').2 r' h'
  have hkinds := scanWithMinimumAge_kindsTold h
  have hkinds' := scanWithMinimumAge_kindsTold h'
  rw [contentBytes_eq_iff_map, Catalog.hasSameContent_iff]
  constructor
  · intro hfields
    have hentries : r.catalog.entries = r'.catalog.entries := by
      apply Std.ExtTreeMap.ext_getElem?
      intro id
      ext e
      constructor
      · exact entries_of_fingerprinted htree.toShape htree'.toShape hkinds hkinds' hpaths hfields
      · exact entries_of_fingerprinted htree'.toShape htree.toShape hkinds' hkinds
          (fun id e e' he he' => (hpaths id e' e he' he).symm) hfields.symm
    exact ⟨hentries, htree.children_eq htree' hentries⟩
  · rintro ⟨hentries, -⟩
    unfold Catalog.sortedEntries
    rw [hentries]

/-- Whether equal ids are of equal paths. -/
def samePaths (c d : Catalog) : Bool :=
  c.entries.toList.all fun x => (d.entries[x.1]?).all fun e => decide (x.2.path = e.path)

theorem path_eq_of_samePaths {c d : Catalog} (h : samePaths c d = true) (id : Text) (e e' : Entry)
    (he : c.entries[id]? = some e) (he' : d.entries[id]? = some e') : e.path = e'.path := by
  have hall := List.all_eq_true.1 h (id, e) (TextMap.mem_toList.2 he)
  rw [he'] at hall
  exact of_decide_eq_true hall

/-- Two scans of some files, in which equal ids are of equal paths, and whether they find the same. -/
def comparedScans (fs fs' : FileSystem) : Except Halt (Bool × Bool) := do
  let r ← scanSettled fs 2 FileTree.sampleConfig
  let r' ← scanSettled fs' 2 FileTree.sampleConfig
  return (samePaths r.catalog r'.catalog, r.catalog.hasSameContent r'.catalog)

theorem exists_comparedScans {fs fs' : FileSystem} {same : Bool} (h : comparedScans fs fs' = .ok (true, same)) :
    ∃ r r', scanSettled fs 2 FileTree.sampleConfig = .ok r ∧ scanSettled fs' 2 FileTree.sampleConfig = .ok r' ∧
      samePaths r.catalog r'.catalog = true ∧ r.catalog.hasSameContent r'.catalog = same := by
  obtain ⟨r, hr, h⟩ := except_bind_eq_ok h
  obtain ⟨r', hr', h⟩ := except_bind_eq_ok h
  obtain ⟨hpaths, hsame⟩ := Prod.mk.inj (Except.ok.inj h)
  exact ⟨r, r', hr, hr', hpaths, hsame⟩

/-- The bytes are the same when the directories are listed from their ends, and others when the film is left out. -/
theorem sample_contentBytes :
    ∃ r r' r'', scanSettled FileTree.sample.fileSystem 2 FileTree.sampleConfig = .ok r ∧
      scanSettled FileTree.sample.fileSystem.reversed 2 FileTree.sampleConfig = .ok r' ∧
      scanSettled FileTree.early.fileSystem 2 FileTree.sampleConfig = .ok r'' ∧
      r.catalog.contentBytes = r'.catalog.contentBytes ∧ r.catalog.contentBytes ≠ r''.catalog.contentBytes := by
  obtain ⟨r, r', hr, hr', hpaths', hsame'⟩ := exists_comparedScans
    (show comparedScans FileTree.sample.fileSystem FileTree.sample.fileSystem.reversed = .ok (true, true) by
      decide +kernel)
  obtain ⟨r₀, r'', hr₀, hr'', hpaths'', hsame''⟩ := exists_comparedScans
    (show comparedScans FileTree.sample.fileSystem FileTree.early.fileSystem = .ok (true, false) by
      decide +kernel)
  obtain rfl := Except.ok.inj (hr.symm.trans hr₀)
  refine ⟨r, r', r'', hr, hr', hr'', ?_, fun hbytes => ?_⟩
  · exact (contentBytes_eq_iff hr hr' (path_eq_of_samePaths hpaths')).2.2 hsame'
  · have hsame := (contentBytes_eq_iff hr hr'' (path_eq_of_samePaths hpaths'')).2.1 hbytes
    rw [hsame''] at hsame
    cases hsame

end Scan

end JoeDlna
