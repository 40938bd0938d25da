import JoeDlna.Lib.Utf8
import JoeDlna.Lib.Xml

/-!
# XML documents as events

A document as a pull reader reports it, one event after the other. Text is reported between markup
and entity references, without the white space at its ends, and not at all if there is nothing else;
each reference is reported by itself.

* `XmlNode.events` — the events of a document;
* `reports_readPlain` — a reader that reports them.
-/

namespace JoeDlna.Lib

/-- The events, with names and texts as bytes. `other` stands for declarations, comments and what
else a document may hold. -/
inductive XmlEvent
  | start (name : List UInt8)
  | stop (name : List UInt8)
  | empty (name : List UInt8)
  | text (raw : List UInt8)
  | generalRef (name : List UInt8)
  | other
deriving DecidableEq, Repr

/-- An element with its text and the elements after the text, or an empty-element tag. -/
inductive XmlNode
  | element (name : Text) (attributes : List (Text × Text)) (text : Text) (children : List XmlNode)
  | empty (name : Text) (attributes : List (Text × Text))

/-- The white space of XML. -/
def isSpace (c : Char) : Bool := c = ' ' || c = '\t' || c = '\n' || c = '\r'

/-- The characters of names, and others that markup does not use. -/
def isTagCharacter (c : Char) : Bool :=
  isXmlCharacter c && !isSpace c && c ∉ ['<', '>', '/', '&', '=', '"', '\'', '?', '!']

def IsTagName (name : Text) : Prop := name ≠ [] ∧ ∀ c ∈ name, isTagCharacter c = true

instance (name : Text) : Decidable (IsTagName name) :=
  decidable_of_iff (name ≠ [] ∧ name.all isTagCharacter = true) (by rw [List.all_eq_true, IsTagName])

/-! ### Documents -/

/-- A tag without its angle brackets. -/
def tagText (name : Text) (attributes : List (Text × Text)) : Text :=
  name ++ attributes.flatMap renderAttribute

def bracket (tag : Text) : Text := '<' :: (tag ++ ['>'])

mutual

def XmlNode.render : XmlNode → Text
  | .element name attributes text children =>
    bracket (tagText name attributes) ++ escape text ++ XmlNode.renderAll children ++ bracket ('/' :: name)
  | .empty name attributes => bracket (tagText name attributes ++ ['/'])

def XmlNode.renderAll : List XmlNode → Text
  | [] => []
  | x :: xs => x.render ++ XmlNode.renderAll xs

end

/-- A piece of text, without the white space at its ends. -/
def runEvents (run : Text) : List XmlEvent :=
  if trimMatches isSpace run = [] then [] else [.text (utf8 (trimMatches isSpace run))]

/-- The events of a text that follows an unfinished piece. -/
def textEvents (run : Text) : Text → List XmlEvent
  | [] => runEvents run
  | c :: s =>
    match entities.find? fun e => e.2 = c with
    | some e => runEvents run ++ .generalRef (utf8 e.1) :: textEvents [] s
    | none => textEvents (run ++ [c]) s

mutual

def XmlNode.events : XmlNode → List XmlEvent
  | .element name _ text children =>
    .start (utf8 name) :: (textEvents [] text ++ XmlNode.eventsAll children ++ [.stop (utf8 name)])
  | .empty name _ => [.empty (utf8 name)]

def XmlNode.eventsAll : List XmlNode → List XmlEvent
  | [] => []
  | x :: xs => x.events ++ XmlNode.eventsAll xs

end

/-- The attributes of a tag are those of XML. -/
structure ValidAttributes (attributes : List (Text × Text)) : Prop where
  keys : ∀ a ∈ attributes, IsTagName a.1
  nodup : (attributes.map Prod.fst).Nodup
  values : ∀ a ∈ attributes, IsXmlText a.2

instance (attributes : List (Text × Text)) : Decidable (ValidAttributes attributes) :=
  decidable_of_iff (attributes.all (fun a => decide (IsTagName a.1)) = true ∧ (attributes.map Prod.fst).Nodup ∧
      attributes.all (fun a => a.2.all isXmlCharacter) = true) <| by
    simp only [List.all_eq_true, decide_eq_true_eq]
    exact ⟨fun h => ⟨h.1, h.2.1, h.2.2⟩, fun h => ⟨h.keys, h.nodup, h.values⟩⟩

inductive XmlNode.Valid : XmlNode → Prop
  | element {name : Text} {attributes : List (Text × Text)} {text : Text} {children : List XmlNode}
      (hname : IsTagName name) (hattributes : ValidAttributes attributes) (htext : IsXmlText text)
      (hchildren : ∀ x ∈ children, XmlNode.Valid x) : XmlNode.Valid (.element name attributes text children)
  | empty {name : Text} {attributes : List (Text × Text)} (hname : IsTagName name)
      (hattributes : ValidAttributes attributes) : XmlNode.Valid (.empty name attributes)

/-- The reader reports the events of every document. -/
def Reports (read : List UInt8 → List XmlEvent) : Prop :=
  ∀ x : XmlNode, x.Valid → read (utf8 x.render) = x.events

/-! ### A reader -/

inductive ReadMode
  | content
  | tag
  | reference
deriving DecidableEq, Repr

/-- What has been read: the unfinished piece, and the events before it. -/
structure Reading where
  mode : ReadMode
  piece : Text
  events : List XmlEvent

def tagEvent (tag : Text) : XmlEvent :=
  match tag with
  | '/' :: name => .stop (utf8 name)
  | tag =>
    if tag.getLast? = some '/' then .empty (utf8 (tag.dropLast.takeWhile fun c => !isSpace c))
    else .start (utf8 (tag.takeWhile fun c => !isSpace c))

def readCharacter (r : Reading) (c : Char) : Reading :=
  match r.mode with
  | .content =>
    if c = '<' then ⟨.tag, [], r.events ++ runEvents r.piece⟩
    else if c = '&' then ⟨.reference, [], r.events ++ runEvents r.piece⟩
    else ⟨.content, r.piece ++ [c], r.events⟩
  | .tag =>
    if c = '>' then ⟨.content, [], r.events ++ [tagEvent r.piece]⟩ else ⟨.tag, r.piece ++ [c], r.events⟩
  | .reference =>
    if c = ';' then ⟨.content, [], r.events ++ [.generalRef (utf8 r.piece)]⟩
    else ⟨.reference, r.piece ++ [c], r.events⟩

def Reading.start : Reading := ⟨.content, [], []⟩

/-- The events of a document that holds no markup but tags and references. -/
def readPlain (body : List UInt8) : List XmlEvent :=
  let r := (toStringLossy body).foldl readCharacter .start
  r.events ++ runEvents r.piece

/-! ### What it reads -/

@[simp] theorem runEvents_nil : runEvents [] = [] := rfl

/-- In the content, with these events once the unfinished piece is finished. -/
structure Reading.Shows (r : Reading) (events : List XmlEvent) : Prop where
  mode : r.mode = .content
  events : r.events ++ runEvents r.piece = events

theorem shows_content (events : List XmlEvent) : Reading.Shows ⟨.content, [], events⟩ events where
  mode := rfl
  events := List.append_nil events

theorem foldl_tag {s : Text} (hs : '>' ∉ s) (piece : Text) (events : List XmlEvent) :
    s.foldl readCharacter ⟨.tag, piece, events⟩ = ⟨.tag, piece ++ s, events⟩ := by
  induction s generalizing piece with
  | nil => simp
  | cons c s ih =>
    obtain ⟨hc, hs⟩ := not_or.1 (fun hm => hs (List.mem_cons.2 hm))
    rw [List.foldl_cons]
    show s.foldl readCharacter (if c = '>' then _ else _) = _
    rw [if_neg (Ne.symm hc), ih hs, List.append_assoc, List.singleton_append]

theorem foldl_reference {s : Text} (hs : ';' ∉ s) (piece : Text) (events : List XmlEvent) :
    s.foldl readCharacter ⟨.reference, piece, events⟩ = ⟨.reference, piece ++ s, events⟩ := by
  induction s generalizing piece with
  | nil => simp
  | cons c s ih =>
    obtain ⟨hc, hs⟩ := not_or.1 (fun hm => hs (List.mem_cons.2 hm))
    rw [List.foldl_cons]
    show s.foldl readCharacter (if c = ';' then _ else _) = _
    rw [if_neg (Ne.symm hc), ih hs, List.append_assoc, List.singleton_append]

/-- A tag ends the piece before it. -/
theorem foldl_bracket {r : Reading} {events : List XmlEvent} (hr : r.Shows events) {tag : Text}
    (htag : '>' ∉ tag) : (bracket tag).foldl readCharacter r = ⟨.content, [], events ++ [tagEvent tag]⟩ := by
  obtain ⟨mode, piece, before⟩ := r
  obtain ⟨rfl, rfl⟩ := hr
  show (tag ++ ['>']).foldl readCharacter ⟨.tag, [], before ++ runEvents piece⟩ = _
  rw [List.foldl_append, foldl_tag htag]
  rfl

/-- The characters without an entity are those that are written as they are. -/
theorem find?_entities_eq_none_iff {c : Char} :
    (entities.find? fun e => e.2 = c) = none ↔ c ∉ ['&', '<', '>', '\'', '"'] := by
  rw [List.find?_eq_none]
  constructor
  · intro h hc
    simp only [List.mem_cons, List.not_mem_nil, or_false] at hc
    rcases hc with rfl | rfl | rfl | rfl | rfl <;> revert h <;> decide
  · intro hc e he heq
    have hmem : ∀ e ∈ entities, e.2 ∈ ['&', '<', '>', '\'', '"'] := by decide
    exact hc (of_decide_eq_true heq ▸ hmem e he)

theorem notMem_entity {e : Text × Char} (h : e ∈ entities) : ';' ∉ e.1 := by
  have hnone : ∀ e ∈ entities, ';' ∉ e.1 := by decide
  exact hnone e h

/-- Escaped text, read after an unfinished piece. -/
theorem shows_escape (s piece : Text) (events : List XmlEvent) :
    ((escape s).foldl readCharacter ⟨.content, piece, events⟩).Shows (events ++ textEvents piece s) := by
  induction s generalizing piece events with
  | nil => exact ⟨rfl, rfl⟩
  | cons c s ih =>
    show ((escapeChar c ++ escape s).foldl readCharacter _).Shows _
    rw [List.foldl_append, escapeChar, textEvents]
    cases hfind : entities.find? fun e => e.2 = c with
    | some e =>
      show ((escape s).foldl readCharacter
        ((e.1 ++ [';']).foldl readCharacter ⟨.reference, [], events ++ runEvents piece⟩)).Shows _
      rw [List.foldl_append, foldl_reference (notMem_entity (List.mem_of_find?_eq_some hfind))]
      have hevents : events ++ (runEvents piece ++ .generalRef (utf8 e.1) :: textEvents [] s) =
          events ++ runEvents piece ++ [.generalRef (utf8 e.1)] ++ textEvents [] s := by simp
      show Reading.Shows _ (events ++ (runEvents piece ++ .generalRef (utf8 e.1) :: textEvents [] s))
      rw [hevents]
      exact ih [] _
    | none =>
      have hc := find?_entities_eq_none_iff.1 hfind
      have hread : readCharacter ⟨.content, piece, events⟩ c = ⟨.content, piece ++ [c], events⟩ := by
        show (if c = '<' then _ else if c = '&' then _ else _) = _
        rw [if_neg, if_neg]
        · rintro rfl
          simp at hc
        · rintro rfl
          simp at hc
      rw [List.foldl_cons, List.foldl_nil, hread]
      exact ih (piece ++ [c]) events

/-! ### Tags -/

theorem isTagCharacter_ne {c d : Char} (hc : isTagCharacter c = true) (hd : isTagCharacter d = false) : c ≠ d := by
  rintro rfl
  rw [hc] at hd
  cases hd

theorem isSpace_of_isTagCharacter {c : Char} (h : isTagCharacter c = true) : isSpace c = false := by
  simp only [isTagCharacter, Bool.and_eq_true, Bool.not_eq_true'] at h
  exact h.1.2

theorem takeWhile_tagText {name : Text} (hname : IsTagName name) (attributes : List (Text × Text)) :
    (tagText name attributes).takeWhile (fun c => !isSpace c) = name := by
  have hall : ∀ c ∈ name, (!isSpace c) = true := by
    intro c hc
    rw [isSpace_of_isTagCharacter (hname.2 c hc)]
    rfl
  rw [tagText, List.takeWhile_append_of_pos hall]
  cases attributes with
  | nil => simp
  | cons a attributes =>
    -- the first attribute begins with a blank
    rw [List.flatMap_cons, renderAttribute, List.cons_append, List.takeWhile_cons_of_neg (by decide),
      List.append_nil]

theorem notMem_tagText {name : Text} {attributes : List (Text × Text)} (hname : IsTagName name)
    (hattributes : ValidAttributes attributes) : '>' ∉ tagText name attributes := by
  intro h
  rcases List.mem_append.1 h with h | h
  · exact isTagCharacter_ne (hname.2 _ h) (by decide) rfl
  · obtain ⟨a, ha, h⟩ := List.mem_flatMap.1 h
    simp only [renderAttribute, List.mem_cons, List.mem_append, List.not_mem_nil, or_false] at h
    rcases h with h | h | h | h | h | h
    · exact absurd h (by decide)
    · exact isTagCharacter_ne ((hattributes.keys a ha).2 _ h) (by decide) rfl
    · exact absurd h (by decide)
    · exact absurd h (by decide)
    · exact notMem_escape a.2 (by decide) h
    · exact absurd h (by decide)

/-- A tag begins with its name, and ends with its name or a quotation mark. -/
theorem getLast?_tagText {name : Text} (hname : IsTagName name) (attributes : List (Text × Text)) :
    (tagText name attributes).getLast? ≠ some '/' := by
  rw [tagText]
  induction attributes using List.reverseRecOn with
  | nil =>
    simp only [List.flatMap_nil, List.append_nil]
    intro h
    exact isTagCharacter_ne (hname.2 _ (List.mem_of_getLast? h)) (by decide) rfl
  | append_singleton attributes a ih =>
    have hlast : renderAttribute a = (' ' :: (a.1 ++ '=' :: '"' :: escape a.2)) ++ ['"'] := by
      simp [renderAttribute]
    rw [List.flatMap_append, List.flatMap_singleton, hlast, ← List.append_assoc, ← List.append_assoc,
      List.getLast?_concat]
    decide

theorem tagEvent_eq {tag : Text} (htag : tag.head? ≠ some '/') :
    tagEvent tag = if tag.getLast? = some '/' then .empty (utf8 (tag.dropLast.takeWhile fun c => !isSpace c))
      else .start (utf8 (tag.takeWhile fun c => !isSpace c)) := by
  cases tag with
  | nil => rfl
  | cons c tag =>
    have hc : c ≠ '/' := by
      rintro rfl
      exact htag rfl
    unfold tagEvent
    split
    · next heq => exact absurd (List.cons.inj heq).1 hc
    · rfl

theorem head?_tagText {name : Text} (hname : IsTagName name) (more : Text) : (name ++ more).head? ≠ some '/' := by
  obtain ⟨hne, hall⟩ := hname
  cases name with
  | nil => exact absurd rfl hne
  | cons c name =>
    intro h
    exact isTagCharacter_ne (hall c List.mem_cons_self) (d := '/') (by decide) (Option.some.inj h)

theorem tagEvent_start {name : Text} (hname : IsTagName name) (attributes : List (Text × Text)) :
    tagEvent (tagText name attributes) = .start (utf8 name) := by
  have hhead : (tagText name attributes).head? ≠ some '/' := head?_tagText hname _
  rw [tagEvent_eq hhead, if_neg (getLast?_tagText hname attributes),
    takeWhile_tagText hname attributes]

theorem tagEvent_empty {name : Text} (hname : IsTagName name) (attributes : List (Text × Text)) :
    tagEvent (tagText name attributes ++ ['/']) = .empty (utf8 name) := by
  have hhead : (tagText name attributes ++ ['/']).head? ≠ some '/' := by
    rw [tagText, List.append_assoc]
    exact head?_tagText hname _
  rw [tagEvent_eq hhead, if_pos (by simp), List.dropLast_concat, takeWhile_tagText hname attributes]

/-! ### Documents -/

theorem foldl_start {name : Text} (hname : IsTagName name) {attributes : List (Text × Text)}
    (hattributes : ValidAttributes attributes) {r : Reading} {events : List XmlEvent} (hr : r.Shows events) :
    (bracket (tagText name attributes)).foldl readCharacter r =
      ⟨.content, [], events ++ [.start (utf8 name)]⟩ := by
  rw [foldl_bracket hr (notMem_tagText hname hattributes), tagEvent_start hname]

theorem foldl_stop {name : Text} (hname : IsTagName name) {r : Reading} {events : List XmlEvent}
    (hr : r.Shows events) :
    (bracket ('/' :: name)).foldl readCharacter r = ⟨.content, [], events ++ [.stop (utf8 name)]⟩ := by
  refine foldl_bracket hr fun h => ?_
  rcases List.mem_cons.1 h with h | h
  · exact absurd h (by decide)
  · exact isTagCharacter_ne (hname.2 _ h) (by decide) rfl

mutual

theorem foldl_render {x : XmlNode} (hx : x.Valid) {r : Reading} {events : List XmlEvent} (hr : r.Shows events) :
    x.render.foldl readCharacter r = ⟨.content, [], events ++ x.events⟩ := by
  cases hx with
  | @element name attributes text children hname hattributes htext hchildren =>
    have htextShows := shows_escape text [] (events ++ [.start (utf8 name)])
    have hall := shows_renderAll hchildren htextShows
    rw [XmlNode.render, List.foldl_append, List.foldl_append, List.foldl_append, foldl_start hname hattributes hr,
      foldl_stop hname hall, XmlNode.events]
    simp
  | @empty name attributes hname hattributes =>
    have htag : '>' ∉ tagText name attributes ++ ['/'] := by
      intro h
      rcases List.mem_append.1 h with h | h
      · exact notMem_tagText hname hattributes h
      · exact absurd (List.mem_singleton.1 h) (by decide)
    rw [XmlNode.render, foldl_bracket hr htag, tagEvent_empty hname, XmlNode.events]

theorem shows_renderAll {xs : List XmlNode} (hxs : ∀ x ∈ xs, x.Valid) {r : Reading} {events : List XmlEvent}
    (hr : r.Shows events) :
    ((XmlNode.renderAll xs).foldl readCharacter r).Shows (events ++ XmlNode.eventsAll xs) := by
  cases xs with
  | nil =>
    rw [XmlNode.eventsAll, List.append_nil]
    exact hr
  | cons x xs =>
    rw [XmlNode.renderAll, List.foldl_append, foldl_render (hxs x List.mem_cons_self) hr, XmlNode.eventsAll,
      ← List.append_assoc]
    exact shows_renderAll (fun y hy => hxs y (List.mem_cons_of_mem x hy)) (shows_content _)

end

/-- **The plain reader reports the events of every document.** -/
theorem reports_readPlain : Reports readPlain := by
  intro x hx
  rw [readPlain, toStringLossy_utf8, Reading.start, foldl_render hx (shows_content []), List.nil_append]
  exact List.append_nil _

end JoeDlna.Lib
