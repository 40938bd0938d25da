import JoeDlna.Lib.Text

/-!
# XML documents

Elements with attributes, the text they are written as, and a decoder: a lexer that reads tags,
attributes and text character by character and expands the predefined entities, and a stack that
nests what the tags enclose.

The decoder rejects what is not well formed: a character XML forbids, a name without characters, an
attribute given twice, an unknown entity, an end tag that does not match its start tag.

* `unescape_escape` — escaped text expands to itself;
* `readContent_escape` — a processor reads it with the line ends normalised;
* `decode_render` — a document decodes to the element it was written from.
-/

namespace JoeDlna.Lib

/-- The characters of XML documents. -/
def isXmlCharacter (c : Char) : Bool :=
  let n := c.toNat
  n == 0x9 || n == 0xA || n == 0xD || (0x20 ≤ n && n ≤ 0xD7FF) || (0xE000 ≤ n && n ≤ 0xFFFD) ||
    (0x10000 ≤ n && n ≤ 0x10FFFF)

/-- The characters of names, among those of ASCII. -/
def isNameCharacter (c : Char) : Bool := c.isAlphanum || c = ':' || c = '-' || c = '_' || c = '.'

/-- An element: its name, its attributes, the text directly inside it, and the elements directly
inside it. -/
inductive Xml
  | element (name : Text) (attributes : List (Text × Text)) (text : Text) (children : List Xml)

namespace Xml

def name : Xml → Text
  | .element name _ _ _ => name

/-- The value of an attribute. -/
def attr (key : Text) : Xml → Option Text
  | .element _ attributes _ _ => attributes.lookup key

def text : Xml → Text
  | .element _ _ text _ => text

def children : Xml → List Xml
  | .element _ _ _ children => children

end Xml

/-! ### Escaping -/

/-- The predefined entities. -/
def entities : List (Text × Char) :=
  [("amp".toList, '&'), ("lt".toList, '<'), ("gt".toList, '>'), ("apos".toList, '\''),
    ("quot".toList, '"')]

def escapeChar (c : Char) : Text :=
  match entities.find? fun e => e.2 = c with
  | some e => '&' :: (e.1 ++ [';'])
  | none => [c]

def escape (s : Text) : Text := s.flatMap escapeChar

/-- The text after an unfinished entity, expanded. -/
def unescapeFrom : Option Text → Text → Option Text
  | none, [] => some []
  | some _, [] => none
  | none, c :: s =>
    if c = '&' then unescapeFrom (some []) s else (unescapeFrom none s).map fun t => c :: t
  | some name, c :: s =>
    if c = ';' then (entities.lookup name).bind fun d => (unescapeFrom none s).map fun t => d :: t
    else unescapeFrom (some (name ++ [c])) s

/-- The text with its entities expanded. -/
def unescape (s : Text) : Option Text := unescapeFrom none s

/-- A character is escaped as an entity, or it is none of the five. -/
theorem escapeChar_cases (c : Char) :
    (∃ name, (name, c) ∈ entities ∧ escapeChar c = '&' :: (name ++ [';'])) ∨
      c ∉ ['&', '<', '>', '\'', '"'] ∧ escapeChar c = [c] := by
  by_cases hc : c ∈ ['&', '<', '>', '\'', '"']
  · left
    simp only [List.mem_cons, List.not_mem_nil, or_false] at hc
    rcases hc with rfl | rfl | rfl | rfl | rfl <;> exact ⟨_, by simp [entities], rfl⟩
  · right
    refine ⟨hc, ?_⟩
    have hfind : (entities.find? fun e => e.2 = c) = none := by
      rw [List.find?_eq_none]
      intro e he heq
      have hmem : ∀ e ∈ entities, e.2 ∈ ['&', '<', '>', '\'', '"'] := by decide
      exact hc (of_decide_eq_true heq ▸ hmem e he)
    rw [escapeChar, hfind]

theorem unescapeFrom_escapeChar (c : Char) (s : Text) :
    unescapeFrom none (escapeChar c ++ s) = (unescapeFrom none s).map fun t => c :: t := by
  rcases escapeChar_cases c with ⟨name, hname, hescape⟩ | ⟨hc, hescape⟩
  · rw [hescape]
    simp only [entities, List.mem_cons, List.not_mem_nil, or_false, Prod.mk.injEq] at hname
    rcases hname with ⟨rfl, rfl⟩ | ⟨rfl, rfl⟩ | ⟨rfl, rfl⟩ | ⟨rfl, rfl⟩ | ⟨rfl, rfl⟩ <;> rfl
  · rw [hescape, List.singleton_append, unescapeFrom, if_neg]
    rintro rfl
    simp at hc

/-- **Escaped text expands to itself.** -/
theorem unescape_escape (s : Text) : unescape (escape s) = some s := by
  induction s with
  | nil => rfl
  | cons c s ih =>
    change unescapeFrom none (escapeChar c ++ escape s) = _
    rw [unescapeFrom_escapeChar]
    change (unescape (escape s)).map _ = _
    rw [ih, Option.map_some]

/-- Text without references is its own expansion. -/
theorem unescape_eq_self {s : Text} (h : '&' ∉ s) : unescape s = some s := by
  induction s with
  | nil => rfl
  | cons c s ih =>
    obtain ⟨hc, hs⟩ := not_or.1 (fun hm => h (List.mem_cons.2 hm))
    show (if c = '&' then _ else (unescapeFrom none s).map _) = _
    rw [if_neg (Ne.symm hc)]
    show (unescape s).map _ = _
    rw [ih hs]
    rfl

/-- What escaped text is made of: the characters of the entities, and others than the five. -/
theorem mem_escape {s : Text} {d : Char} (h : d ∈ escape s) :
    (d = '&' ∨ d = ';' ∨ d.isAlpha = true) ∨ d ∈ s ∧ d ∉ ['&', '<', '>', '\'', '"'] := by
  obtain ⟨c, hc, hd⟩ := List.mem_flatMap.1 h
  rcases escapeChar_cases c with ⟨name, hname, hescape⟩ | ⟨hplain, hescape⟩
  · left
    have halpha : ∀ e ∈ entities, ∀ x ∈ e.1, x.isAlpha = true := by simp [entities]
    rw [hescape] at hd
    simp only [List.mem_cons, List.mem_append, List.not_mem_nil, or_false] at hd
    rcases hd with rfl | hd | rfl
    · exact .inl rfl
    · exact .inr (.inr (halpha _ hname d hd))
    · exact .inr (.inl rfl)
  · right
    rw [hescape, List.mem_singleton] at hd
    exact ⟨hd ▸ hc, hd ▸ hplain⟩

/-- Escaped text holds no angle bracket and no quotation mark. -/
theorem notMem_escape (s : Text) {d : Char} (hd : d ∈ ['<', '>', '\'', '"']) : d ∉ escape s := by
  intro h
  rcases mem_escape h with h | ⟨-, h⟩
  · have hnone : ∀ d ∈ ['<', '>', '\'', '"'], d ≠ '&' ∧ d ≠ ';' ∧ d.isAlpha = false := by simp
    obtain ⟨hamp, hsemicolon, halpha⟩ := hnone d hd
    rcases h with h | h | h
    · exact hamp h
    · exact hsemicolon h
    · rw [halpha] at h
      cases h
  · exact h (List.mem_cons_of_mem _ hd)

@[simp] theorem escape_nil : escape [] = [] := rfl

@[simp] theorem escape_append (s t : Text) : escape (s ++ t) = escape s ++ escape t := List.flatMap_append

/-- Text without any of the five characters is escaped as it is. -/
theorem escape_eq_self {s : Text} (h : ∀ c ∈ s, c ∉ ['&', '<', '>', '\'', '"']) : escape s = s := by
  induction s with
  | nil => rfl
  | cons c s ih =>
    have hc : escapeChar c = [c] := by
      rcases escapeChar_cases c with ⟨name, hname, -⟩ | ⟨-, hescape⟩
      · have hmem : ∀ e ∈ entities, e.2 ∈ ['&', '<', '>', '\'', '"'] := by decide
        exact absurd (hmem _ hname) (h c (by simp))
      · exact hescape
    change escapeChar c ++ escape s = _
    rw [hc, ih fun d hd => h d (List.mem_cons_of_mem c hd)]
    rfl

/-- Each ampersand of escaped text begins an entity. -/
theorem entity_of_escape {s a b : Text} (h : escape s = a ++ '&' :: b) :
    ∃ name c, (name, c) ∈ entities ∧ name ++ [';'] <+: b := by
  induction s generalizing a with
  | nil => simp at h
  | cons c s ih =>
    have hcut : escapeChar c ++ escape s = a ++ '&' :: b := h
    rcases List.append_eq_append_iff.1 hcut with ⟨a', -, hrest⟩ | ⟨part, hchar, hrest⟩
    · exact ih hrest
    · cases part with
      | nil => exact ih (a := []) hrest.symm
      | cons d part =>
        obtain ⟨rfl, rfl⟩ := List.cons.inj hrest
        rcases escapeChar_cases c with ⟨name, hname, hescape⟩ | ⟨hplain, hescape⟩
        · rw [hescape] at hchar
          have hnone : '&' ∉ name ++ [';'] := by
            have hall : ∀ e ∈ entities, '&' ∉ e.1 ++ [';'] := by decide
            exact hall _ hname
          cases a with
          | nil => exact ⟨name, c, hname, ⟨escape s, by rw [(List.cons.inj hchar).2]; rfl⟩⟩
          | cons d' a =>
            refine absurd ?_ hnone
            rw [(List.cons.inj hchar).2]
            exact List.mem_append_right a List.mem_cons_self
        · rw [hescape] at hchar
          have hc : '&' = c := by
            have hmem : '&' ∈ [c] := hchar ▸ List.mem_append_right a List.mem_cons_self
            exact List.mem_singleton.1 hmem
          exact absurd List.mem_cons_self (hc ▸ hplain)

/-! ### Line ends -/

/-- A processor reads CR LF, and CR alone, as LF. -/
def normalizeLineEnds : Text → Text
  | [] => []
  | '\r' :: '\n' :: s => '\n' :: normalizeLineEnds s
  | c :: s => (if c = '\r' then '\n' else c) :: normalizeLineEnds s

/-- The text of an element as a processor reads it: the line ends first, then the entities. -/
def readContent (s : Text) : Option Text := unescape (normalizeLineEnds s)

theorem normalizeLineEnds_cons {c : Char} {s : Text} (h : c = '\r' → s.head? ≠ some '\n') :
    normalizeLineEnds (c :: s) = (if c = '\r' then '\n' else c) :: normalizeLineEnds s := by
  refine normalizeLineEnds.eq_3 c s fun rest hc hs => h hc ?_
  rw [hs]
  rfl

/-- A part without CR is read as it is. -/
theorem normalizeLineEnds_append {s : Text} (t : Text) (h : '\r' ∉ s) :
    normalizeLineEnds (s ++ t) = s ++ normalizeLineEnds t := by
  induction s with
  | nil => rfl
  | cons c s ih =>
    obtain ⟨hc, hs⟩ := not_or.1 (fun hm => h (List.mem_cons.2 hm))
    rw [List.cons_append, normalizeLineEnds_cons fun hcr => absurd hcr.symm hc, if_neg (Ne.symm hc), ih hs]
    rfl

theorem normalizeLineEnds_eq_self {s : Text} (h : '\r' ∉ s) : normalizeLineEnds s = s := by
  have happend := normalizeLineEnds_append [] h
  rwa [List.append_nil, normalizeLineEnds, List.append_nil] at happend

theorem notMem_normalizeLineEnds (s : Text) : '\r' ∉ normalizeLineEnds s := by
  fun_induction normalizeLineEnds s with
  | case1 => simp
  | case2 s ih => simp [ih]
  | case3 c s _ ih =>
    split
    · simp [ih]
    · next hc => simp [ih, Ne.symm hc]

theorem normalizeLineEnds_eq_self_iff {s : Text} : normalizeLineEnds s = s ↔ '\r' ∉ s :=
  ⟨fun h => h ▸ notMem_normalizeLineEnds s, normalizeLineEnds_eq_self⟩

theorem head?_escape {s : Text} : (escape s).head? = some '\n' → s.head? = some '\n' := by
  cases s with
  | nil => exact id
  | cons c s =>
    show (escapeChar c ++ escape s).head? = some '\n' → _
    rcases escapeChar_cases c with ⟨name, -, hescape⟩ | ⟨-, hescape⟩
    · rw [hescape]
      intro h
      cases h
    · rw [hescape]
      exact id

/-- No line end is hidden by escaping, and none comes about. -/
theorem normalizeLineEnds_escape (s : Text) : normalizeLineEnds (escape s) = escape (normalizeLineEnds s) := by
  fun_induction normalizeLineEnds s with
  | case1 => rfl
  | case2 s ih =>
    show '\n' :: normalizeLineEnds (escape s) = '\n' :: escape (normalizeLineEnds s)
    rw [ih]
  | case3 c s hcrlf ih =>
    show normalizeLineEnds (escapeChar c ++ escape s) =
      escapeChar (if c = '\r' then '\n' else c) ++ escape (normalizeLineEnds s)
    by_cases hc : c = '\r'
    · have hnext : (escape s).head? ≠ some '\n' := by
        intro h
        cases s with
        | nil => cases h
        | cons d s => exact hcrlf s hc (by rw [Option.some.inj (head?_escape h)])
      rw [if_pos hc, ← ih, hc]
      exact normalizeLineEnds_cons fun _ => hnext
    · have hplain : '\r' ∉ escapeChar c := by
        rcases escapeChar_cases c with ⟨name, hname, hescape⟩ | ⟨-, hescape⟩
        · have hall : ∀ e ∈ entities, '\r' ∉ '&' :: (e.1 ++ [';']) := by decide
          rw [hescape]
          exact hall _ hname
        · rw [hescape, List.mem_singleton]
          exact Ne.symm hc
      rw [if_neg hc, normalizeLineEnds_append _ hplain, ih]

/-- **Escaped text is read back with its line ends normalised.** -/
theorem readContent_escape (s : Text) : readContent (escape s) = some (normalizeLineEnds s) := by
  rw [readContent, normalizeLineEnds_escape, unescape_escape]

/-! ### The text of an element -/

def renderAttribute (a : Text × Text) : Text := ' ' :: (a.1 ++ '=' :: '"' :: (escape a.2 ++ ['"']))

def startTag (name : Text) (attributes : List (Text × Text)) : Text :=
  '<' :: (name ++ (attributes.flatMap renderAttribute ++ ['>']))

def endTag (name : Text) : Text := '<' :: '/' :: (name ++ ['>'])

mutual

/-- An element as text. -/
def Xml.render : Xml → Text
  | .element name attributes text children =>
    startTag name attributes ++ escape text ++ Xml.renderAll children ++ endTag name

/-- Elements as text, one after the other. -/
def Xml.renderAll : List Xml → Text
  | [] => []
  | x :: xs => x.render ++ Xml.renderAll xs

end

mutual

/-- An element with its names and attributes, and without its texts. -/
def Xml.outline : Xml → Xml
  | .element name attributes _ children => .element name attributes [] (Xml.outlineAll children)

def Xml.outlineAll : List Xml → List Xml
  | [] => []
  | x :: xs => x.outline :: Xml.outlineAll xs

end

theorem renderAll_eq (xs : List Xml) : Xml.renderAll xs = xs.flatMap Xml.render := by
  induction xs with
  | nil => rfl
  | cons x xs ih => rw [Xml.renderAll, ih, List.flatMap_cons]

/-- A name has characters, and all of them are those of names. -/
def IsName (name : Text) : Prop := name ≠ [] ∧ ∀ c ∈ name, isNameCharacter c = true

instance (name : Text) : Decidable (IsName name) := by
  unfold IsName
  infer_instance

/-- Text of the characters of XML documents. -/
def IsXmlText (s : Text) : Prop := ∀ c ∈ s, isXmlCharacter c = true

instance (s : Text) : Decidable (IsXmlText s) := by
  unfold IsXmlText
  infer_instance

theorem isXmlText_of_all {s : Text} (h : s.all isXmlCharacter = true) : IsXmlText s := List.all_eq_true.1 h

/-- The names, the attributes and the texts of an element are those of XML. -/
inductive Xml.Valid : Xml → Prop
  | element {name : Text} {attributes : List (Text × Text)} {text : Text} {children : List Xml}
      (hname : IsName name) (hkeys : ∀ a ∈ attributes, IsName a.1)
      (hnodup : (attributes.map Prod.fst).Nodup) (hvalues : ∀ a ∈ attributes, IsXmlText a.2)
      (htext : IsXmlText text) (hchildren : ∀ x ∈ children, Xml.Valid x) :
    Xml.Valid (.element name attributes text children)

/-! ### The lexer -/

inductive XmlToken
  | start (name : Text) (attributes : List (Text × Text))
  | text (t : Text)
  | stop (name : Text)
deriving DecidableEq, Repr

/-- Where the lexer is, with what it has read of the token it is in. -/
inductive XmlMode
  | content (raw : Text)
  | less
  | instruction
  | stop (name : Text)
  | start (name : Text)
  | key (name : Text) (attributes : List (Text × Text)) (key : Text)
  | equals (name : Text) (attributes : List (Text × Text)) (key : Text)
  | value (name : Text) (attributes : List (Text × Text)) (key raw : Text)
  | valueEnd (name : Text) (attributes : List (Text × Text))
deriving DecidableEq, Repr

def textTokens (t : Text) : List XmlToken := if t = [] then [] else [.text t]

/-- One character more of a name. -/
def nameStep (mode : Text → XmlMode) (name : Text) (c : Char) : Option (XmlMode × List XmlToken) :=
  if isNameCharacter c then some (mode (name ++ [c]), []) else none

/-- One character. -/
def lexStep : XmlMode → Char → Option (XmlMode × List XmlToken)
  | .content raw, c =>
    if c = '<' then (unescape raw).map fun t => (.less, textTokens t)
    else if isXmlCharacter c then some (.content (raw ++ [c]), [])
    else none
  | .less, c =>
    if c = '/' then some (.stop [], [])
    else if c = '?' then some (.instruction, [])
    else nameStep .start [] c
  | .instruction, c => some (if c = '>' then .content [] else .instruction, [])
  | .stop name, c =>
    if c = '>' then some (.content [], [.stop name]) else nameStep .stop name c
  | .start name, c =>
    if c = '>' then some (.content [], [.start name []])
    else if c = ' ' then some (.key name [] [], [])
    else nameStep .start name c
  | .key name attributes key, c =>
    if c = '=' then
      if key = [] ∨ key ∈ attributes.map Prod.fst then none else some (.equals name attributes key, [])
    else nameStep (.key name attributes) key c
  | .equals name attributes key, c =>
    if c = '"' then some (.value name attributes key [], []) else none
  | .value name attributes key raw, c =>
    if c = '"' then (unescape raw).map fun v => (.valueEnd name (attributes ++ [(key, v)]), [])
    else if c ≠ '<' ∧ isXmlCharacter c then some (.value name attributes key (raw ++ [c]), [])
    else none
  | .valueEnd name attributes, c =>
    if c = '>' then some (.content [], [.start name attributes])
    else if c = ' ' then some (.key name attributes [], [])
    else none

/-- The tokens of a text, up to its end. -/
def lex : XmlMode → Text → Option (List XmlToken)
  | .content raw, [] => (unescape raw).map textTokens
  | _, [] => none
  | mode, c :: s => (lexStep mode c).bind fun x => (lex x.1 s).map fun tokens => x.2 ++ tokens

/-- Reading `s` takes the lexer from one mode to another, with some tokens, whatever follows. -/
def Lexes (mode : XmlMode) (s : Text) (tokens : List XmlToken) (mode' : XmlMode) : Prop :=
  ∀ rest, lex mode (s ++ rest) = (lex mode' rest).map fun more => tokens ++ more

theorem Lexes.nil (mode : XmlMode) : Lexes mode [] [] mode := by
  intro rest
  simp

theorem Lexes.trans {m m' m'' : XmlMode} {s s' : Text} {ts ts' : List XmlToken} (h : Lexes m s ts m')
    (h' : Lexes m' s' ts' m'') : Lexes m (s ++ s') (ts ++ ts') m'' := by
  intro rest
  rw [List.append_assoc, h, h', Option.map_map]
  congr 1
  funext more
  simp

theorem Lexes.single {m m' : XmlMode} {c : Char} {ts : List XmlToken} (h : lexStep m c = some (m', ts)) :
    Lexes m [c] ts m' := by
  intro rest
  cases m <;> simp [lex, h]

theorem Lexes.cons {m m' m'' : XmlMode} {c : Char} {s : Text} {ts : List XmlToken}
    (h : lexStep m c = some (m', [])) (hs : Lexes m' s ts m'') : Lexes m (c :: s) ts m'' :=
  (Lexes.single h).trans hs

/-- Characters that only extend what has been read. -/
theorem Lexes.extend (mode : Text → XmlMode) (p : Char → Prop)
    (hmode : ∀ acc c, p c → lexStep (mode acc) c = some (mode (acc ++ [c]), [])) {s : Text}
    (hs : ∀ c ∈ s, p c) (acc : Text) : Lexes (mode acc) s [] (mode (acc ++ s)) := by
  induction s generalizing acc with
  | nil => simpa using Lexes.nil (mode acc)
  | cons c s ih =>
    have hrest := ih (fun d hd => hs d (List.mem_cons_of_mem c hd)) (acc ++ [c])
    rw [List.append_assoc, List.singleton_append] at hrest
    exact .cons (hmode acc c (hs c (by simp))) hrest

/-! ### The lexer on the text of an element -/

theorem isNameCharacter_ne {c d : Char} (hc : isNameCharacter c = true) (hd : isNameCharacter d = false) :
    c ≠ d := by
  rintro rfl
  rw [hc] at hd
  cases hd

theorem isXmlCharacter_of_isAlphanum {c : Char} (h : c.isAlphanum = true) : isXmlCharacter c = true := by
  simp only [Char.isAlphanum, Char.isAlpha, Char.isUpper, Char.isLower, Char.isDigit, Bool.or_eq_true,
    Bool.and_eq_true, decide_eq_true_eq, ge_iff_le, UInt32.le_iff_toNat_le] at h
  have hupper : 'A'.val.toNat = 65 ∧ 'Z'.val.toNat = 90 := by decide
  have hlower : 'a'.val.toNat = 97 ∧ 'z'.val.toNat = 122 := by decide
  have hdigit : '0'.val.toNat = 48 ∧ '9'.val.toNat = 57 := by decide
  simp only [isXmlCharacter, Char.toNat, Bool.or_eq_true, Bool.and_eq_true, decide_eq_true_eq, beq_iff_eq]
  omega

theorem isXmlCharacter_of_isNameCharacter {c : Char} (h : isNameCharacter c = true) :
    isXmlCharacter c = true := by
  simp only [isNameCharacter, Bool.or_eq_true, decide_eq_true_eq] at h
  rcases h with (((h | rfl) | rfl) | rfl) | rfl
  · exact isXmlCharacter_of_isAlphanum h
  all_goals decide

theorem isXmlText_normalizeLineEnds {s : Text} (hs : IsXmlText s) : IsXmlText (normalizeLineEnds s) := by
  have hlf : isXmlCharacter '\n' = true := by decide
  fun_induction normalizeLineEnds s with
  | case1 => exact hs
  | case2 s ih =>
    have hrest : IsXmlText s := fun c hc => hs c (List.mem_cons_of_mem _ (List.mem_cons_of_mem _ hc))
    exact List.forall_mem_cons.2 ⟨hlf, ih hrest⟩
  | case3 c s _ ih =>
    refine List.forall_mem_cons.2 ⟨?_, ih fun d hd => hs d (List.mem_cons_of_mem _ hd)⟩
    split
    · exact hlf
    · exact hs c List.mem_cons_self

theorem isXmlText_escape {s : Text} (hs : IsXmlText s) : IsXmlText (escape s) := by
  intro c hc
  rcases mem_escape hc with (rfl | rfl | h) | ⟨h, -⟩
  · decide
  · decide
  · exact isXmlCharacter_of_isAlphanum (by simp [Char.isAlphanum, h])
  · exact hs c h

theorem lexStep_stop (name : Text) {c : Char} (h : isNameCharacter c = true) :
    lexStep (.stop name) c = some (.stop (name ++ [c]), []) := by
  rw [lexStep, if_neg (isNameCharacter_ne h (by decide)), nameStep, if_pos h]

theorem lexStep_start (name : Text) {c : Char} (h : isNameCharacter c = true) :
    lexStep (.start name) c = some (.start (name ++ [c]), []) := by
  rw [lexStep, if_neg (isNameCharacter_ne h (by decide)), if_neg (isNameCharacter_ne h (by decide)),
    nameStep, if_pos h]

theorem lexStep_key (name : Text) (attributes : List (Text × Text)) (key : Text) {c : Char}
    (h : isNameCharacter c = true) :
    lexStep (.key name attributes key) c = some (.key name attributes (key ++ [c]), []) := by
  rw [lexStep, if_neg (isNameCharacter_ne h (by decide)), nameStep, if_pos h]

theorem lexStep_less {c : Char} (h : isNameCharacter c = true) : lexStep .less c = some (.start [c], []) := by
  rw [lexStep, if_neg (isNameCharacter_ne h (by decide)), if_neg (isNameCharacter_ne h (by decide)),
    nameStep, if_pos h, List.nil_append]

/-- Escaped text extends the content. -/
theorem lexes_content {s : Text} (hs : IsXmlText s) :
    Lexes (.content []) (escape s) [] (.content (escape s)) := by
  refine Lexes.extend .content (fun c => c ≠ '<' ∧ isXmlCharacter c = true) ?_ ?_ []
  · rintro acc c ⟨hless, hxml⟩
    rw [lexStep, if_neg hless, if_pos hxml]
  · intro c hc
    refine ⟨?_, isXmlText_escape hs c hc⟩
    rintro rfl
    exact notMem_escape s (by decide) hc

/-- Where the lexer is inside a start tag, after some attributes. -/
def tagMode (name : Text) : List (Text × Text) → XmlMode
  | [] => .start name
  | a :: attributes => .valueEnd name (a :: attributes)

theorem tagMode_concat (name : Text) (attributes : List (Text × Text)) (a : Text × Text) :
    tagMode name (attributes ++ [a]) = .valueEnd name (attributes ++ [a]) := by
  cases attributes <;> rfl

theorem lexStep_tagMode (name : Text) (attributes : List (Text × Text)) :
    lexStep (tagMode name attributes) ' ' = some (.key name attributes [], []) ∧
      lexStep (tagMode name attributes) '>' = some (.content [], [.start name attributes]) := by
  cases attributes <;> exact ⟨rfl, rfl⟩

/-- One attribute. -/
theorem lexes_attribute (name : Text) {attributes : List (Text × Text)} {a : Text × Text}
    (hkey : IsName a.1) (hnew : a.1 ∉ attributes.map Prod.fst) (hvalue : IsXmlText a.2) :
    Lexes (tagMode name attributes) (renderAttribute a) [] (tagMode name (attributes ++ [a])) := by
  have hname : Lexes (.key name attributes []) a.1 [] (.key name attributes a.1) :=
    Lexes.extend (.key name attributes) _ (fun acc c h => lexStep_key name attributes acc h) hkey.2 []
  have hescape : Lexes (.value name attributes a.1 []) (escape a.2) []
      (.value name attributes a.1 (escape a.2)) := by
    refine Lexes.extend (.value name attributes a.1)
      (fun c => c ≠ '"' ∧ c ≠ '<' ∧ isXmlCharacter c = true) ?_ ?_ []
    · rintro acc c ⟨hquote, hless, hxml⟩
      rw [lexStep, if_neg hquote, if_pos ⟨hless, hxml⟩]
    · intro c hc
      refine ⟨?_, ?_, isXmlText_escape hvalue c hc⟩
      · rintro rfl
        exact notMem_escape a.2 (by decide) hc
      · rintro rfl
        exact notMem_escape a.2 (by decide) hc
  have hequals : lexStep (.key name attributes a.1) '=' = some (.equals name attributes a.1, []) := by
    rw [lexStep, if_pos rfl, if_neg]
    rintro (h | h)
    · exact hkey.1 h
    · exact hnew h
  have hclose : lexStep (.value name attributes a.1 (escape a.2)) '"' =
      some (tagMode name (attributes ++ [a]), []) := by
    rw [lexStep, if_pos rfl, unescape_escape, tagMode_concat]
    rfl
  exact .cons (lexStep_tagMode name attributes).1
    (hname.trans (.cons hequals (.cons rfl (hescape.trans (.single hclose)))))

theorem lexes_attributes (name : Text) {done todo : List (Text × Text)}
    (hkeys : ∀ a ∈ todo, IsName a.1) (hnodup : ((done ++ todo).map Prod.fst).Nodup)
    (hvalues : ∀ a ∈ todo, IsXmlText a.2) :
    Lexes (tagMode name done) (todo.flatMap renderAttribute) [] (tagMode name (done ++ todo)) := by
  induction todo generalizing done with
  | nil => simpa using Lexes.nil (tagMode name done)
  | cons a todo ih =>
    have hnew : a.1 ∉ done.map Prod.fst := by
      intro hmem
      rw [List.map_append, List.nodup_append] at hnodup
      exact hnodup.2.2 _ hmem _ (by simp) rfl
    have happend : done ++ a :: todo = done ++ [a] ++ todo := by simp
    rw [happend] at hnodup ⊢
    exact (lexes_attribute name (hkeys a (by simp)) hnew (hvalues a (by simp))).trans
      (ih (fun b hb => hkeys b (List.mem_cons_of_mem a hb)) hnodup
        fun b hb => hvalues b (List.mem_cons_of_mem a hb))

/-- A start tag, after content that is still to be expanded. -/
theorem lexes_startTag {name : Text} {attributes : List (Text × Text)} (hname : IsName name)
    (hkeys : ∀ a ∈ attributes, IsName a.1) (hnodup : (attributes.map Prod.fst).Nodup)
    (hvalues : ∀ a ∈ attributes, IsXmlText a.2) {raw t : Text} (ht : unescape raw = some t) :
    Lexes (.content raw) (startTag name attributes) (textTokens t ++ [.start name attributes]) (.content []) := by
  obtain ⟨c, rest, rfl⟩ := List.exists_cons_of_ne_nil hname.1
  have hless : lexStep (.content raw) '<' = some (.less, textTokens t) := by
    rw [lexStep, if_pos rfl, ht]
    rfl
  have hrest : Lexes (.start [c]) rest [] (.start (c :: rest)) :=
    Lexes.extend .start _ (fun acc d h => lexStep_start acc h)
      (fun d hd => hname.2 d (List.mem_cons_of_mem c hd)) [c]
  have htag : Lexes .less (c :: rest) [] (tagMode (c :: rest) []) :=
    .cons (lexStep_less (hname.2 c (by simp))) hrest
  have hattributes := @lexes_attributes (c :: rest) [] attributes hkeys hnodup hvalues
  exact (Lexes.single hless).trans
    (htag.trans (hattributes.trans (.single (lexStep_tagMode (c :: rest) attributes).2)))

theorem lexes_endTag {name : Text} (hname : IsName name) {raw t : Text} (ht : unescape raw = some t) :
    Lexes (.content raw) (endTag name) (textTokens t ++ [.stop name]) (.content []) := by
  have hless : lexStep (.content raw) '<' = some (.less, textTokens t) := by
    rw [lexStep, if_pos rfl, ht]
    rfl
  have hrest : Lexes (.stop []) name [] (.stop name) :=
    Lexes.extend .stop _ (fun acc c h => lexStep_stop acc h) hname.2 []
  exact (Lexes.single hless).trans (.cons rfl (hrest.trans (.single rfl)))

/-! ### Nesting -/

/-- An element whose end tag is still to come. -/
structure XmlFrame where
  name : Text
  attributes : List (Text × Text)
  text : Text
  children : List Xml

def XmlFrame.close (f : XmlFrame) : Xml := .element f.name f.attributes f.text f.children

/-- One token: an end tag closes the innermost element, whose name it has to repeat. -/
def pushToken : List XmlFrame → XmlToken → Option (List XmlFrame)
  | f :: fs, .start name attributes => some (⟨name, attributes, [], []⟩ :: f :: fs)
  | f :: fs, .text t => some ({ f with text := f.text ++ t } :: fs)
  | f :: g :: fs, .stop name =>
    if f.name = name then some ({ g with children := g.children ++ [f.close] } :: fs) else none
  | _, _ => none

/-- The element of a document: everything else outside of it are instructions. -/
def decode (s : Text) : Option Xml := do
  let tokens ← lex (.content []) s
  let stack ← tokens.foldlM pushToken [⟨[], [], [], []⟩]
  match stack with
  | [⟨_, _, [], [x]⟩] => some x
  | _ => none

mutual

/-- The tokens of an element. -/
def Xml.tokens : Xml → List XmlToken
  | .element name attributes text children =>
    .start name attributes :: (textTokens text ++ Xml.tokensAll children ++ [.stop name])

def Xml.tokensAll : List Xml → List XmlToken
  | [] => []
  | x :: xs => x.tokens ++ Xml.tokensAll xs

end

/-- **The lexer reads an element as its tokens.** -/
theorem lexes_render {x : Xml} (hv : x.Valid) {raw t : Text} (ht : unescape raw = some t) :
    Lexes (.content raw) x.render (textTokens t ++ x.tokens) (.content []) := by
  induction hv generalizing raw t with
  | @element name attributes text children hname hkeys hnodup hvalues htext hchildren ih =>
    have hinside : ∀ (xs : List Xml) (raw t : Text), (∀ x ∈ xs, x ∈ children) → unescape raw = some t →
        Lexes (.content raw) (Xml.renderAll xs ++ endTag name)
          (textTokens t ++ (Xml.tokensAll xs ++ [.stop name])) (.content []) := by
      intro xs
      induction xs with
      | nil => exact fun raw t _ ht => lexes_endTag hname ht
      | cons x xs ihxs =>
        intro raw t hmem ht
        have hx := ih x (hmem x (by simp)) ht
        have hxs := ihxs [] [] (fun y hy => hmem y (List.mem_cons_of_mem x hy)) rfl
        simpa [Xml.renderAll, Xml.tokensAll, textTokens] using hx.trans hxs
    have hstart := lexes_startTag hname hkeys hnodup hvalues ht
    have hcontent := hinside children (escape text) text (fun _ h => h) (unescape_escape text)
    simpa [Xml.render, Xml.tokens] using hstart.trans ((lexes_content htext).trans hcontent)

/-- **The stack nests the tokens of an element.** -/
theorem foldlM_tokens {x : Xml} (hv : x.Valid) (f : XmlFrame) (fs : List XmlFrame) :
    x.tokens.foldlM pushToken (f :: fs) = some ({ f with children := f.children ++ [x] } :: fs) := by
  induction hv generalizing f fs with
  | @element name attributes text children hname hkeys hnodup hvalues htext hchildren ih =>
    have hall : ∀ (xs : List Xml) (f : XmlFrame) (fs : List XmlFrame), (∀ x ∈ xs, x ∈ children) →
        (Xml.tokensAll xs).foldlM pushToken (f :: fs) =
          some ({ f with children := f.children ++ xs } :: fs) := by
      intro xs
      induction xs with
      | nil => intro f fs _; simp [Xml.tokensAll]
      | cons x xs ihxs =>
        intro f fs hmem
        rw [Xml.tokensAll, List.foldlM_append, ih x (hmem x (by simp))]
        change (Xml.tokensAll xs).foldlM pushToken _ = _
        rw [ihxs _ _ fun y hy => hmem y (List.mem_cons_of_mem x hy)]
        simp
    have htokens : (textTokens text).foldlM pushToken (⟨name, attributes, [], []⟩ :: f :: fs) =
        some (⟨name, attributes, text, []⟩ :: f :: fs) := by
      unfold textTokens
      split
      · next h => rw [h]; rfl
      · rfl
    rw [Xml.tokens, List.foldlM_cons]
    change (textTokens text ++ _ ++ _).foldlM pushToken (⟨name, attributes, [], []⟩ :: f :: fs) = _
    rw [List.foldlM_append, List.foldlM_append, htokens]
    change ((Xml.tokensAll children).foldlM pushToken _ >>= _) = _
    rw [hall children _ _ fun _ h => h]
    change ([.stop name] : List XmlToken).foldlM pushToken (⟨name, attributes, text, children⟩ :: f :: fs) = _
    rw [List.foldlM_cons, pushToken, if_pos rfl]
    rfl

theorem decode_of_lex {s : Text} {x : Xml} (hv : x.Valid) (h : lex (.content []) s = some x.tokens) :
    decode s = some x := by
  unfold decode
  rw [h]
  change (x.tokens.foldlM pushToken [⟨[], [], [], []⟩] >>= _) = _
  rw [foldlM_tokens hv]
  rfl

theorem lex_render {x : Xml} (hv : x.Valid) : lex (.content []) x.render = some x.tokens := by
  have hlex := @lexes_render x hv [] [] rfl []
  rw [List.append_nil] at hlex
  rw [hlex]
  change some (x.tokens ++ []) = _
  rw [List.append_nil]

/-- **A document decodes to the element it was written from.** -/
theorem decode_render {x : Xml} (hv : x.Valid) : decode x.render = some x :=
  decode_of_lex hv (lex_render hv)

/-- An instruction before the element changes nothing. -/
theorem decode_instruction {x : Xml} (hv : x.Valid) {instruction : Text} (h : '>' ∉ instruction) :
    decode ('<' :: '?' :: (instruction ++ ['>']) ++ x.render) = some x := by
  have hskip : Lexes .instruction instruction [] .instruction :=
    Lexes.extend (fun _ => .instruction) (fun c => c ≠ '>')
      (fun _ c hc => by rw [lexStep, if_neg hc]) (fun c hc heq => h (heq ▸ hc)) []
  have hprolog : Lexes (.content []) ('<' :: '?' :: (instruction ++ ['>'])) [] (.content []) :=
    .cons rfl (.cons rfl (hskip.trans (.single rfl)))
  refine decode_of_lex hv ?_
  rw [hprolog, lex_render hv]
  rfl

/-! ### Characters -/

/-- An element is written in the characters of XML. -/
theorem isXmlText_render {x : Xml} (hv : x.Valid) : IsXmlText x.render := by
  induction hv with
  | @element name attributes text children hname hkeys hnodup hvalues htext hchildren ih =>
    have hnameText : ∀ {n : Text}, IsName n → IsXmlText n :=
      fun hn c hc => isXmlCharacter_of_isNameCharacter (hn.2 c hc)
    intro c hc
    rw [Xml.render, renderAll_eq] at hc
    simp only [startTag, endTag, List.mem_append, List.mem_cons, List.not_mem_nil, or_false,
      List.mem_flatMap] at hc
    rcases hc with (((rfl | hc | ⟨a, ha, hc⟩ | rfl) | hc) | ⟨x, hx, hc⟩) | rfl | rfl | hc | rfl
    · decide
    · exact hnameText hname c hc
    · simp only [renderAttribute, List.mem_append, List.mem_cons, List.not_mem_nil, or_false] at hc
      rcases hc with rfl | hc | rfl | rfl | hc | rfl
      · decide
      · exact hnameText (hkeys a ha) c hc
      · decide
      · decide
      · exact isXmlText_escape (hvalues a ha) c hc
      · decide
    · decide
    · exact isXmlText_escape htext c hc
    · exact ih x hx c hc
    · decide
    · decide
    · exact hnameText hname c hc
    · decide

end JoeDlna.Lib
