import JoeDlna.Lib.XmlEvents

/-!
# Documents with white space

A document that is written by hand has an instruction in front, and white space between its tags.
`decodeDocument` is the decoder that leaves both out, and `readRun` is the same decoder as a machine:
the lexer and the stack of open elements, character by character. A document that is put together from
fixed pieces and values is decoded piece by piece.

* `Reads.trans`, `reads_of_run`, `Reads.value` — one piece after the other, a fixed piece, a value;
* `decodeDocument_of_reads` — a document that leaves one closed element decodes to it.
-/

namespace JoeDlna.Lib

/-- The text of a literal, without evaluating it. -/
theorem toList_literal {s : String} {l : Text} (h : s = String.ofList l) : s.toList = l :=
  h ▸ String.toList_ofList

/-! ### Parts of an element -/

/-- The first child with a name. -/
def Xml.child (x : Xml) (name : String) : Option Xml := x.children.find? fun y => y.name = name.toList

/-- The text of a child. -/
def Xml.textOf (x : Xml) (name : String) : Text := ((x.child name).map Xml.text).getD []

/-- The children of a child. -/
def Xml.childrenOf (x : Xml) (name : String) : List Xml := ((x.child name).map Xml.children).getD []

/-! ### White space -/

/-- One token, where white space alone is no text. -/
def pushContent (stack : List XmlFrame) : XmlToken → Option (List XmlFrame)
  | .text t => if t.all isSpace then some stack else pushToken stack (.text t)
  | token => pushToken stack token

/-- The element of a document, without the white space around it and between its tags. -/
def decodeDocument (s : Text) : Option Xml := do
  let tokens ← lex (.content []) s
  let stack ← tokens.foldlM pushContent [⟨[], [], [], []⟩]
  match stack with
  | [⟨_, _, [], [x]⟩] => some x
  | _ => none

/-! ### The decoder as a machine -/

/-- Where the decoder is: in the text, and in the elements that are open. -/
abbrev XmlState := XmlMode × List XmlFrame

/-- The elements that are open at the end of a text. -/
def readAll (x : XmlState) (s : Text) : Option (List XmlFrame) :=
  (lex x.1 s).bind fun tokens => tokens.foldlM pushContent x.2

/-- One character. -/
def readStep (x : XmlState) (c : Char) : Option XmlState :=
  (lexStep x.1 c).bind fun y => (y.2.foldlM pushContent x.2).map fun stack => (y.1, stack)

def readRun (x : XmlState) (s : Text) : Option XmlState := s.foldlM readStep x

/-- Reading `s` takes the decoder from one state to another, whatever follows. -/
def Reads (x : XmlState) (s : Text) (y : XmlState) : Prop := ∀ rest, readAll x (s ++ rest) = readAll y rest

theorem readAll_cons (x : XmlState) (c : Char) (s : Text) :
    readAll x (c :: s) = (readStep x c).bind fun y => readAll y s := by
  obtain ⟨mode, stack⟩ := x
  have hlex : lex mode (c :: s) = (lexStep mode c).bind fun y => (lex y.1 s).map fun tokens => y.2 ++ tokens := by
    cases mode <;> rfl
  unfold readAll readStep
  rw [hlex]
  cases lexStep mode c with
  | none => rfl
  | some y =>
    dsimp only [Option.bind_some]
    cases hs : lex y.1 s with
    | none =>
      cases y.2.foldlM pushContent stack with
      | none => rfl
      | some stack' =>
        rw [Option.map_some, Option.bind_some, hs]
        rfl
    | some tokens =>
      rw [Option.map_some, Option.bind_some, List.foldlM_append]
      cases y.2.foldlM pushContent stack with
      | none => rfl
      | some stack' =>
        rw [Option.map_some, Option.bind_some, hs]
        rfl

theorem Reads.trans {x y z : XmlState} {s t : Text} (h : Reads x s y) (h' : Reads y t z) : Reads x (s ++ t) z := by
  intro rest
  rw [List.append_assoc, h, h']

/-- A fixed piece is read by running the machine. -/
theorem reads_of_run {x y : XmlState} {s : Text} (h : readRun x s = some y) : Reads x s y := by
  induction s generalizing x with
  | nil =>
    obtain rfl := Option.some.inj h
    exact fun _ => rfl
  | cons c s ih =>
    intro rest
    obtain ⟨z, hz, h⟩ := Option.bind_eq_some_iff.1 h
    rw [List.cons_append, readAll_cons, hz, Option.bind_some]
    exact ih h rest

/-- **A value is read as the text of the element around it**, up to the tag that follows it. -/
theorem reads_value {s : Text} (hs : IsXmlText s) (hblank : s.all isSpace = false) (f : XmlFrame)
    (fs : List XmlFrame) :
    Reads (.content [], f :: fs) (escape s ++ ['<']) (.less, { f with text := f.text ++ s } :: fs) := by
  intro rest
  have hne : s ≠ [] := by
    rintro rfl
    cases hblank
  have hlex : Lexes (.content []) (escape s ++ ['<']) [.text s] .less := by
    refine (lexes_content hs).trans (.single ?_)
    rw [lexStep, if_pos rfl, unescape_escape, Option.map_some, textTokens, if_neg hne]
  unfold readAll
  rw [hlex]
  cases lex .less rest with
  | none => rfl
  | some tokens =>
    rw [Option.map_some, Option.bind_some, List.singleton_append, List.foldlM_cons, pushContent, hblank,
      if_neg Bool.false_ne_true]
    rfl

/-- A fixed piece that starts with a tag takes the decoder on behind a value. -/
structure Follows (piece : Text) (stack : List XmlFrame) (y : XmlState) : Prop where
  head : piece.head? = some '<'
  reads : Reads (.less, stack) piece.tail y

/-- A value, and the fixed piece that follows it. -/
theorem Reads.value {s piece : Text} (hs : IsXmlText s) (hblank : s.all isSpace = false) {f : XmlFrame}
    {fs : List XmlFrame} {y : XmlState} (h : Follows piece ({ f with text := f.text ++ s } :: fs) y) :
    Reads (.content [], f :: fs) (escape s ++ piece) y := by
  have hsplit : escape s ++ piece = (escape s ++ ['<']) ++ piece.tail := by
    rw [List.append_assoc, List.singleton_append, List.cons_head?_tail h.head]
  rw [hsplit]
  exact (reads_value hs hblank f fs).trans h.reads

/-- **A document that leaves one closed element decodes to it.** -/
theorem decodeDocument_of_reads {s : Text} {x : Xml}
    (h : Reads (.content [], [⟨[], [], [], []⟩]) s (.content [], [⟨[], [], [], [x]⟩])) :
    decodeDocument s = some x := by
  have hall := h []
  rw [List.append_nil] at hall
  have hend : readAll (.content [], [⟨[], [], [], [x]⟩]) [] = some [⟨[], [], [], [x]⟩] := rfl
  rw [hend] at hall
  obtain ⟨tokens, htokens, hstack⟩ := Option.bind_eq_some_iff.1 hall
  unfold decodeDocument
  rw [htokens]
  show (tokens.foldlM pushContent [⟨[], [], [], []⟩] >>= _) = _
  rw [hstack]
  rfl

end JoeDlna.Lib
