import JoeDlna.Lib.XmlEvents
import JoeDlna.Soap.Defs

/-!
# SOAP requests

`parse_request`: the action of the `SOAPAction` header, and the arguments of the body, from the events
of an XML reader. The XML library is a parameter.

* `parseRequest_eq` — what is read of a request: of each value, its first piece between entities;
* `parseRequest_iff` — when that is the request.
-/

namespace JoeDlna

open Lib

/-! ### The parser -/

/-- The reader of the XML library with `trim_text`, as the events up to the end of the document or to
the first error, and its `unescape`. -/
structure QuickXml (ε : Type) where
  readEvents : List UInt8 → List XmlEvent × Option ε
  unescape : Text → Except ε Text

inductive SoapParseError (ε : Type)
  | missingAction
  | invalidXml (source : ε)
deriving DecidableEq, Repr

/-- A name without its namespace prefix, which ends at the first colon. -/
def localName (name : List UInt8) : List UInt8 := ((splitOnce 0x3A name).map Prod.snd).getD name

/-- `arguments.entry(name).or_default()`. -/
def entryOrDefault (arguments : Arguments) (name : Text) : Arguments :=
  match arguments[name]? with
  | some _ => arguments
  | none => arguments.insert name []

/-- The variables of the loop over the events. -/
structure ParseState where
  current : Option Text
  arguments : Arguments

section Parse

variable {ε : Type} (xml : QuickXml ε)

/-- One round of the loop. -/
def parseEvent (s : ParseState) : XmlEvent → Except (SoapParseError ε) ParseState
  | .start name => .ok { s with current := some (toStringLossy (localName name)) }
  | .text raw =>
    match s.current with
    | none => .ok s
    | some name =>
      match xml.unescape (toStringLossy raw) with
      | .error e => .error (.invalidXml e)
      | .ok value => .ok { current := none, arguments := s.arguments.insert name value }
  | .empty name =>
    .ok { current := none, arguments := entryOrDefault s.arguments (toStringLossy (localName name)) }
  | .stop _ =>
    match s.current with
    | none => .ok s
    | some name => .ok { current := none, arguments := entryOrDefault s.arguments name }
  | .generalRef _ => .ok s
  | .other => .ok s

/-- The action that the `SOAPAction` header names. -/
def soapActionName (soapAction : Option Text) : Option Text :=
  (soapAction.bind fun value => rsplitOnce '#' (trimMatches (fun c => c = '"' || c = ' ') value)).map Prod.snd

def parseRequest (soapAction : Option Text) (body : List UInt8) :
    Except (SoapParseError ε) (Text × Arguments) :=
  match soapActionName soapAction with
  | none => .error .missingAction
  | some action => do
    let s ← (xml.readEvents body).1.foldlM (parseEvent xml) ⟨none, ∅⟩
    match (xml.readEvents body).2 with
    | some e => throw (.invalidXml e)
    | none => return (action, s.arguments)

/-- What the program relies on: the reader reports the events of every document, and text without an
ampersand is its own unescaped text. -/
structure QuickXml.Documented : Prop where
  reads : ∀ x : XmlNode, x.Valid → xml.readEvents (utf8 x.render) = (x.events, none)
  unescape : ∀ s : Text, '&' ∉ s → xml.unescape s = .ok s

end Parse

/-! ### Requests -/

/-- A name without its namespace prefix. -/
def localText (name : Text) : Text := ((splitOnce ':' name).map Prod.snd).getD name

/-- An argument as its element: a tag name, and a value without white space at its ends. An empty
value may be written as an empty-element tag. -/
structure Argument where
  tag : Text
  value : Text
  selfClosing : Bool
  isTagName : IsTagName tag
  isXmlText : IsXmlText value
  trimmed : trimMatches isSpace value = value
  value_of_selfClosing : selfClosing = true → value = []

def Argument.name (a : Argument) : Text := localText a.tag

def Argument.node (a : Argument) : XmlNode :=
  if a.selfClosing then .empty a.tag [] else .element a.tag [] a.value []

/-- An element around the arguments: its name and its attributes. -/
structure Wrapper where
  tag : Text
  attributes : List (Text × Text)
  isTagName : IsTagName tag
  validAttributes : ValidAttributes attributes

def Wrapper.node (w : Wrapper) (children : List XmlNode) : XmlNode := .element w.tag w.attributes [] children

/-- A request for an action of a service. -/
structure SoapRequest where
  service : Text
  actionName : Text
  quoted : Bool
  envelope : Wrapper
  body : Wrapper
  action : Wrapper
  arguments : List Argument
  actionName_plain : ∀ c ∈ actionName, c ∉ ['#', '"', ' ']
  arguments_ne_nil : arguments ≠ []
  names_nodup : (arguments.map Argument.name).Nodup

namespace SoapRequest

variable (q : SoapRequest)

/-- The `SOAPAction` header, with or without quotation marks. -/
def header : Text :=
  if q.quoted then '"' :: (q.service ++ '#' :: (q.actionName ++ ['"'])) else q.service ++ '#' :: q.actionName

def document : XmlNode :=
  q.envelope.node [q.body.node [q.action.node (q.arguments.map Argument.node)]]

def argumentMap : Arguments := .ofList (q.arguments.map fun a => (a.name, a.value))

end SoapRequest

/-! ### The header -/

theorem soapActionName_header (q : SoapRequest) : soapActionName (some q.header) = some q.actionName := by
  have htrimmed : ∀ c ∈ q.actionName, (decide (c = '"') || decide (c = ' ')) = false := by
    intro c hc
    have hplain := q.actionName_plain c hc
    simp only [List.mem_cons, List.not_mem_nil, or_false, not_or] at hplain
    simp [hplain]
  have hsharp : '#' ∉ q.actionName := fun h => q.actionName_plain _ h List.mem_cons_self
  have hlast : ∀ s : Text, (rsplitOnce '#' (trimMatches (fun c => c = '"' || c = ' ')
      (s ++ '#' :: q.actionName))).map Prod.snd = some q.actionName := by
    intro s
    rw [trimMatches_append (by decide) htrimmed, rsplitOnce_append _ hsharp]
    rfl
  unfold soapActionName SoapRequest.header
  split
  · have hassoc : '"' :: (q.service ++ '#' :: (q.actionName ++ ['"'])) =
        (('"' :: q.service) ++ '#' :: q.actionName) ++ ['"'] := by simp
    rw [Option.bind_some, hassoc, trimMatches_concat (by decide)]
    exact hlast _
  · exact hlast _

/-! ### Names -/

theorem toStringLossy_localName (name : Text) : toStringLossy (localName (utf8 name)) = localText name := by
  have hcolon : ∀ {s : Text}, ':' ∉ s → (0x3A : UInt8) ∉ utf8 s := fun h => notMem_utf8_of_ascii (by decide) h
  unfold localName localText
  by_cases h : ':' ∈ name
  · obtain ⟨s, t, rfl, hs⟩ := List.eq_append_cons_of_mem h
    have hbytes : utf8 (s ++ ':' :: t) = utf8 s ++ 0x3A :: utf8 t := utf8_append s (':' :: t)
    rw [hbytes, splitOnce_append _ (hcolon hs), splitOnce_append _ hs]
    exact toStringLossy_utf8 t
  · rw [splitOnce_eq_none (hcolon h), splitOnce_eq_none h]
    exact toStringLossy_utf8 name

/-! ### One argument -/

/-- The first piece of a text between entities that is not only white space, after an unfinished
piece. -/
def firstPiece (run : Text) : Text → Text
  | [] => trimMatches isSpace run
  | c :: s =>
    match entities.find? fun e => e.2 = c with
    | some _ => if trimMatches isSpace run = [] then firstPiece [] s else trimMatches isSpace run
    | none => firstPiece (run ++ [c]) s

/-- What is kept of a value. -/
def storedValue (value : Text) : Text := firstPiece [] value

section Argument

variable {ε : Type} {xml : QuickXml ε}

/-- Without a name, text is passed over. -/
theorem foldlM_runEvents_none (run : Text) (arguments : Arguments) :
    (runEvents run).foldlM (parseEvent xml) ⟨none, arguments⟩ = .ok ⟨none, arguments⟩ := by
  unfold runEvents
  split <;> rfl

theorem foldlM_textEvents_none (run s : Text) (arguments : Arguments) :
    (textEvents run s).foldlM (parseEvent xml) ⟨none, arguments⟩ = .ok ⟨none, arguments⟩ := by
  induction s generalizing run with
  | nil => exact foldlM_runEvents_none run arguments
  | cons c s ih =>
    rw [textEvents]
    split
    · rw [List.foldlM_append, foldlM_runEvents_none]
      exact ih []
    · exact ih (run ++ [c])

/-- A piece becomes the value of the name, if there is more to it than white space. -/
theorem foldlM_runEvents_some (hxml : xml.Documented) (name : Text) (arguments : Arguments) {run : Text}
    (hrun : '&' ∉ run) :
    (runEvents run).foldlM (parseEvent xml) ⟨some name, arguments⟩ =
      .ok (if trimMatches isSpace run = [] then ⟨some name, arguments⟩
        else ⟨none, arguments.insert name (trimMatches isSpace run)⟩) := by
  rw [runEvents]
  split
  · rfl
  · have hunescape := hxml.unescape (trimMatches isSpace run) (fun h => hrun (mem_trimMatches h))
    rw [List.foldlM_cons, parseEvent, toStringLossy_utf8, hunescape]
    rfl

theorem foldlM_stop (xml : QuickXml ε) (name : Text) {arguments : Arguments} (hfresh : arguments[name]? = none)
    (stop : List UInt8) : [XmlEvent.stop stop].foldlM (parseEvent xml) ⟨some name, arguments⟩ =
      .ok ⟨none, arguments.insert name []⟩ := by
  show Except.ok (ParseState.mk none (entryOrDefault arguments name)) = _
  rw [entryOrDefault, hfresh]

/-- The first piece of a text becomes the value of the name, and an end tag without one makes it
empty. -/
theorem foldlM_textEvents (hxml : xml.Documented) {name : Text} {arguments : Arguments}
    (hfresh : arguments[name]? = none) (stop : List UInt8) {run : Text} (hrun : '&' ∉ run) (s : Text) :
    (textEvents run s ++ [XmlEvent.stop stop]).foldlM (parseEvent xml) ⟨some name, arguments⟩ =
      .ok ⟨none, arguments.insert name (firstPiece run s)⟩ := by
  induction s generalizing run with
  | nil =>
    rw [textEvents, firstPiece, List.foldlM_append, foldlM_runEvents_some hxml name arguments hrun]
    split
    · next hempty =>
      rw [hempty]
      exact foldlM_stop xml name hfresh stop
    · rfl
  | cons c s ih =>
    rw [textEvents, firstPiece]
    cases hfind : entities.find? fun e => e.2 = c with
    | some e =>
      dsimp only
      rw [List.append_assoc, List.foldlM_append, foldlM_runEvents_some hxml name arguments hrun]
      split
      · exact ih List.not_mem_nil
      · -- the rest of the text has no name to go to
        show ((textEvents [] s ++ [XmlEvent.stop stop]).foldlM (parseEvent xml) _) = _
        rw [List.foldlM_append, foldlM_textEvents_none]
        rfl
    | none =>
      have hc := find?_entities_eq_none_iff.1 hfind
      refine ih fun h => ?_
      rcases List.mem_append.1 h with h | h
      · exact hrun h
      · rw [List.mem_singleton.1 h] at hc
        exact hc List.mem_cons_self

/-- **One argument is stored** under its name, with the first piece of its value. -/
theorem foldlM_argument (hxml : xml.Documented) (a : Argument) {s : ParseState}
    (hfresh : s.arguments[a.name]? = none) :
    a.node.events.foldlM (parseEvent xml) s = .ok ⟨none, s.arguments.insert a.name (storedValue a.value)⟩ := by
  have hname : toStringLossy (localName (utf8 a.tag)) = a.name := toStringLossy_localName a.tag
  unfold Argument.node
  split
  · next hclosing =>
    show Except.ok (ParseState.mk none (entryOrDefault s.arguments (toStringLossy (localName (utf8 a.tag))))) = _
    rw [hname, entryOrDefault, hfresh, a.value_of_selfClosing hclosing]
    rfl
  · rw [XmlNode.events, XmlNode.eventsAll, List.append_nil, List.foldlM_cons, parseEvent, hname]
    exact foldlM_textEvents hxml hfresh _ List.not_mem_nil a.value

/-! ### The request -/

/-- The arguments are stored one after the other. -/
theorem foldlM_arguments (hxml : xml.Documented) (a : Argument) (as : List Argument) {s : ParseState}
    (hnodup : ((a :: as).map Argument.name).Nodup) (hfresh : ∀ b ∈ a :: as, s.arguments[b.name]? = none) :
    (XmlNode.eventsAll ((a :: as).map Argument.node)).foldlM (parseEvent xml) s =
      .ok ⟨none, s.arguments.insertMany ((a :: as).map fun b => (b.name, storedValue b.value))⟩ := by
  induction as generalizing a s with
  | nil =>
    rw [List.map_singleton, XmlNode.eventsAll, XmlNode.eventsAll, List.append_nil,
      foldlM_argument hxml a (hfresh a List.mem_cons_self)]
    rfl
  | cons b as ih =>
    obtain ⟨hnot, hnodup⟩ := List.nodup_cons.1 hnodup
    have hrest : ∀ d ∈ b :: as, (s.arguments.insert a.name (storedValue a.value))[d.name]? = none := by
      intro d hd
      have hne : d.name ≠ a.name := by
        intro heq
        exact hnot (heq ▸ List.mem_map_of_mem hd)
      rw [TextMap.getElem?_insert, if_neg hne]
      exact hfresh d (List.mem_cons_of_mem a hd)
    rw [List.map_cons, XmlNode.eventsAll, List.foldlM_append, foldlM_argument hxml a (hfresh a List.mem_cons_self)]
    show (XmlNode.eventsAll ((b :: as).map Argument.node)).foldlM (parseEvent xml) _ = _
    rw [ih b hnodup hrest, List.map_cons (l := b :: as), Std.ExtTreeMap.insertMany_cons]

theorem document_events (q : SoapRequest) :
    q.document.events = [XmlEvent.start (utf8 q.envelope.tag), .start (utf8 q.body.tag), .start (utf8 q.action.tag)] ++
      (XmlNode.eventsAll (q.arguments.map Argument.node) ++
        [XmlEvent.stop (utf8 q.action.tag), .stop (utf8 q.body.tag), .stop (utf8 q.envelope.tag)]) := by
  simp [SoapRequest.document, Wrapper.node, XmlNode.events, XmlNode.eventsAll, textEvents]

theorem valid_document (q : SoapRequest) : q.document.Valid := by
  have hargument : ∀ a : Argument, a.node.Valid := by
    intro a
    unfold Argument.node
    split
    · exact .empty a.isTagName ⟨by simp, by simp, by simp⟩
    · exact .element a.isTagName ⟨by simp, by simp, by simp⟩ a.isXmlText (by simp)
  have hwrapper : ∀ (w : Wrapper) (xs : List XmlNode), (∀ x ∈ xs, x.Valid) → (w.node xs).Valid := by
    intro w xs hxs
    exact .element w.isTagName w.validAttributes (by simp [IsXmlText]) hxs
  refine hwrapper _ _ (List.forall_mem_singleton.2 (hwrapper _ _ (List.forall_mem_singleton.2 (hwrapper _ _ ?_))))
  intro x hx
  obtain ⟨a, -, rfl⟩ := List.mem_map.1 hx
  exact hargument a

/-- **What is read of a request**: its action, and of each value the first piece between entities. -/
theorem parseRequest_eq (hxml : xml.Documented) (q : SoapRequest) :
    parseRequest xml (some q.header) (utf8 q.document.render) =
      .ok (q.actionName, .ofList (q.arguments.map fun a => (a.name, storedValue a.value))) := by
  obtain ⟨a, as, has⟩ := List.exists_cons_of_ne_nil q.arguments_ne_nil
  have hnodup := q.names_nodup
  rw [has] at hnodup
  have hloop : q.document.events.foldlM (parseEvent xml) ⟨none, ∅⟩ =
      .ok ⟨none, .ofList (q.arguments.map fun a => (a.name, storedValue a.value))⟩ := by
    rw [document_events, List.foldlM_append]
    show ((XmlNode.eventsAll (q.arguments.map Argument.node) ++ _).foldlM (parseEvent xml) _) = _
    rw [List.foldlM_append, has, foldlM_arguments hxml a as hnodup (fun b _ => by simp), ← has,
      Std.ExtTreeMap.ofList_eq_insertMany_empty]
    rfl
  rw [parseRequest, soapActionName_header, hxml.reads _ (valid_document q)]
  show (q.document.events.foldlM (parseEvent xml) ⟨none, ∅⟩ >>= fun s => .ok (q.actionName, s.arguments)) = _
  rw [hloop]
  rfl

end Argument

/-! ### When the arguments are read back -/

theorem notMem_firstPiece {run s : Text} (hrun : ∀ c ∈ run, c ∉ ['&', '<', '>', '\'', '"']) :
    ∀ c ∈ firstPiece run s, c ∉ ['&', '<', '>', '\'', '"'] := by
  induction s generalizing run with
  | nil =>
    intro c hc
    exact hrun c (mem_trimMatches hc)
  | cons d s ih =>
    rw [firstPiece]
    split
    · split
      · exact ih (by simp)
      · intro c hc
        exact hrun c (mem_trimMatches hc)
    · next hfind =>
      refine ih fun c hc => ?_
      rcases List.mem_append.1 hc with hc | hc
      · exact hrun c hc
      · rw [List.mem_singleton.1 hc]
        exact find?_entities_eq_none_iff.1 hfind

theorem firstPiece_plain {s : Text} (hs : ∀ c ∈ s, c ∉ ['&', '<', '>', '\'', '"']) (run : Text) :
    firstPiece run s = trimMatches isSpace (run ++ s) := by
  induction s generalizing run with
  | nil => rw [firstPiece, List.append_nil]
  | cons c s ih =>
    rw [firstPiece, find?_entities_eq_none_iff.2 (hs c List.mem_cons_self)]
    dsimp only
    rw [ih (fun d hd => hs d (List.mem_cons_of_mem c hd)), List.append_assoc, List.singleton_append]

/-- **A value is kept** exactly when it holds none of the five characters that are escaped. -/
theorem storedValue_eq_iff (a : Argument) :
    storedValue a.value = a.value ↔ ∀ c ∈ a.value, c ∉ ['&', '<', '>', '\'', '"'] := by
  constructor
  · intro h
    have hplain := @notMem_firstPiece [] a.value (by simp)
    rwa [show firstPiece [] a.value = a.value from h] at hplain
  · intro h
    rw [storedValue, firstPiece_plain h, List.nil_append, a.trimmed]

/-- **When a request is read back**: exactly when no value holds a character that is escaped. -/
theorem parseRequest_iff {ε : Type} (xml : QuickXml ε) (hxml : xml.Documented) (q : SoapRequest) :
    parseRequest xml (some q.header) (utf8 q.document.render) = .ok (q.actionName, q.argumentMap) ↔
      ∀ a ∈ q.arguments, ∀ c ∈ a.value, c ∉ ['&', '<', '>', '\'', '"'] := by
  rw [parseRequest_eq hxml, SoapRequest.argumentMap, Except.ok.injEq, Prod.mk.injEq, TextMap.ofList_eq_iff q.names_nodup]
  constructor
  · rintro ⟨-, h⟩ a ha
    exact (storedValue_eq_iff a).1 (h a ha)
  · intro h
    exact ⟨rfl, fun a ha => (storedValue_eq_iff a).2 (h a ha)⟩

/-! ### Two requests -/

/-- The reader of documents without other markup, with an `unescape` for the predefined entities. -/
def plainXml : QuickXml Unit where
  readEvents := fun body => (readPlain body, none)
  unescape := fun s => (unescape s).elim (.error ()) .ok

theorem documented_plainXml : plainXml.Documented where
  reads := by
    intro x hx
    show (readPlain (utf8 x.render), none) = _
    rw [reports_readPlain x hx]
  unescape := by
    intro s hs
    show (Lib.unescape s).elim _ _ = _
    rw [unescape_eq_self hs]
    rfl

/-- A request to browse an object, in an element `ObjectID`. -/
def browseRequest (value : Text) (hxml : IsXmlText value) (htrimmed : trimMatches isSpace value = value) :
    SoapRequest where
  service := CONTENT_DIRECTORY_TYPE
  actionName := "Browse".toList
  quoted := true
  envelope := ⟨"s:Envelope".toList, [("xmlns:s".toList, "http://schemas.xmlsoap.org/soap/envelope/".toList)],
    by decide +kernel, by decide +kernel⟩
  body := ⟨"s:Body".toList, [], by decide +kernel, by decide +kernel⟩
  action := ⟨"u:Browse".toList, [("xmlns:u".toList, CONTENT_DIRECTORY_TYPE)], by decide +kernel, by decide +kernel⟩
  arguments := [⟨"ObjectID".toList, value, false, by decide +kernel, hxml, htrimmed, by simp⟩]
  actionName_plain := by simp
  arguments_ne_nil := by simp
  names_nodup := by simp

/-- A request with all arguments of the action, each without a character that is escaped; the last one is empty. -/
def plainRequest : SoapRequest :=
  { browseRequest "0".toList (isXmlText_of_all rfl) rfl with
    arguments := [
      ⟨"ObjectID".toList, "0".toList, false, by decide +kernel, isXmlText_of_all rfl, rfl, by simp⟩,
      ⟨"BrowseFlag".toList, "BrowseDirectChildren".toList, false, by decide +kernel, isXmlText_of_all rfl, rfl, by simp⟩,
      ⟨"Filter".toList, "dc:title,res".toList, false, by decide +kernel, isXmlText_of_all rfl, rfl, by simp⟩,
      ⟨"StartingIndex".toList, "0".toList, false, by decide +kernel, isXmlText_of_all rfl, rfl, by simp⟩,
      ⟨"RequestedCount".toList, "25".toList, false, by decide +kernel, isXmlText_of_all rfl, rfl, by simp⟩,
      ⟨"SortCriteria".toList, [], true, by decide +kernel, isXmlText_of_all rfl, rfl, by simp⟩]
    arguments_ne_nil := by simp
    names_nodup := by decide }

/-- A request with an ampersand in a value. -/
def ampersandRequest : SoapRequest := browseRequest "a&b".toList (isXmlText_of_all rfl) rfl

theorem parseRequest_plain :
    parseRequest plainXml (some plainRequest.header) (utf8 plainRequest.document.render) =
      .ok ("Browse".toList, .ofList [
        ("ObjectID".toList, "0".toList), ("BrowseFlag".toList, "BrowseDirectChildren".toList),
        ("Filter".toList, "dc:title,res".toList), ("StartingIndex".toList, "0".toList),
        ("RequestedCount".toList, "25".toList), ("SortCriteria".toList, [])]) :=
  (parseRequest_iff plainXml documented_plainXml plainRequest).2 (by simp [plainRequest])

/-- The value `a&b` is read as `a`. -/
theorem parseRequest_truncates :
    parseRequest plainXml (some ampersandRequest.header) (utf8 ampersandRequest.document.render) =
        .ok (ampersandRequest.actionName, .ofList [("ObjectID".toList, "a".toList)]) ∧
      parseRequest plainXml (some ampersandRequest.header) (utf8 ampersandRequest.document.render) ≠
        .ok (ampersandRequest.actionName, ampersandRequest.argumentMap) := by
  have hstored : storedValue "a&b".toList = "a".toList := rfl
  rw [parseRequest_eq documented_plainXml]
  constructor
  · rfl
  · intro h
    have hvalues := (TextMap.ofList_eq_iff ampersandRequest.names_nodup).1 (Prod.mk.inj (Except.ok.inj h)).2
    have hvalue := hvalues _ List.mem_cons_self
    exact absurd (hstored.symm.trans hvalue) (by decide)

end JoeDlna
