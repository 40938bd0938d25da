import JoeDlna.Lib.Numerals
import JoeDlna.Lib.Utf8

/-!
# HTTP requests as text

An HTTP/1.1 request is a request line, header lines, an empty line and a body. A reader takes it apart: the
lines end in CR LF, the request line is three parts with a space between them, and the body is as long as the
headers say.

* `HttpRequest.render` — the text of a request;
* `readHead`, `HttpRequest.read` — the lines before the body, and the request in a text;
* `read_render_iff` — the requests that are read from their text.
-/

namespace JoeDlna.Lib

structure HttpRequest where
  method : Text
  target : Text
  headers : List (Text × Text)
  body : Text
deriving DecidableEq, Repr

/-! ### Characters -/

def isBlank (c : Char) : Bool := c = ' ' || c = '\t'

/-- The visible characters of ASCII. -/
def isVisible (c : Char) : Bool := 0x21 ≤ c.toNat && c.toNat ≤ 0x7E

/-- A visible character that is no delimiter. -/
def isTokenChar (c : Char) : Bool := isVisible c && c ∉ "\"(),/:;<=>?@[\\]\x7b\x7d".toList

/-- The name of a method or of a header. -/
def IsToken (s : Text) : Prop := s ≠ [] ∧ ∀ c ∈ s, isTokenChar c = true

/-- What a request is for. -/
def IsTarget (s : Text) : Prop := s ≠ [] ∧ ∀ c ∈ s, isVisible c = true

/-- The value of a header, which has no blank at either end. -/
def IsFieldValue (s : Text) : Prop := (∀ c ∈ s, isVisible c || isBlank c) ∧ trimMatches isBlank s = s

instance (s : Text) : Decidable (IsToken s) :=
  decidable_of_iff (s ≠ [] ∧ s.all isTokenChar = true) (and_congr_right' List.all_eq_true)

instance (s : Text) : Decidable (IsTarget s) :=
  decidable_of_iff (s ≠ [] ∧ s.all isVisible = true) (and_congr_right' List.all_eq_true)

instance (s : Text) : Decidable (IsFieldValue s) :=
  decidable_of_iff ((s.all fun c => isVisible c || isBlank c) = true ∧ trimMatches isBlank s = s)
    (and_congr_left' List.all_eq_true)

/-- The text has no line end. -/
def InLine (s : Text) : Prop := '\r' ∉ s ∧ '\n' ∉ s

instance (s : Text) : Decidable (InLine s) := inferInstanceAs (Decidable (_ ∧ _))

/-! ### The text of a request -/

namespace HttpRequest

def version : Text := "HTTP/1.1".toList

def requestLine (r : HttpRequest) : Text := r.method ++ ' ' :: (r.target ++ ' ' :: version)

end HttpRequest

def headerLine (header : Text × Text) : Text := header.1 ++ ':' :: ' ' :: header.2

/-- Lines, and an empty one after them. -/
def renderHead (lines : List Text) : Text := lines.flatMap (· ++ ['\r', '\n']) ++ ['\r', '\n']

namespace HttpRequest

/-- The lines before the empty one. -/
def head (r : HttpRequest) : List Text := r.requestLine :: r.headers.map headerLine

def render (r : HttpRequest) : Text := renderHead r.head ++ r.body

/-- The values of the headers with this name, in lower case or not. -/
def values (r : HttpRequest) (name : Text) : List Text :=
  (r.headers.filter fun header => header.1.map Char.toLower = name).map Prod.snd

/-- The request names one host, and its body is as long as its headers say. -/
def Framed (r : HttpRequest) : Prop :=
  (r.values "host".toList).length = 1 ∧ r.values "transfer-encoding".toList = [] ∧
    (∀ value ∈ r.values "content-length".toList, Numeral value (utf8 r.body).length) ∧
    (r.values "content-length".toList = [] → r.body = [])

instance (r : HttpRequest) : Decidable r.Framed := inferInstanceAs (Decidable (_ ∧ _ ∧ _ ∧ _))

/-- The parts of the request are what they should be. -/
structure Valid (r : HttpRequest) : Prop where
  method : IsToken r.method
  target : IsTarget r.target
  headers : ∀ header ∈ r.headers, IsToken header.1 ∧ IsFieldValue header.2
  framed : r.Framed

end HttpRequest

/-! ### Reading a request -/

/-- The lines up to the first empty one, and the text after it; `line` is what has been read of a line, the
last character first. A line ends in CR LF, and neither stands alone. -/
def readLines (line : Text) : Text → Option (List Text × Text)
  | [] => none
  | '\r' :: '\n' :: rest =>
    if line = [] then some ([], rest)
    else (readLines [] rest).map fun parts => (line.reverse :: parts.1, parts.2)
  | c :: rest => if c = '\r' ∨ c = '\n' then none else readLines (c :: line) rest

/-- The lines before the body, and the body. -/
def readHead (text : Text) : Option (List Text × Text) := readLines [] text

def readRequestLine (line : Text) : Option (Text × Text) :=
  match splitOn ' ' line with
  | [method, target, version] =>
    if IsToken method ∧ IsTarget target ∧ version = HttpRequest.version then some (method, target) else none
  | _ => none

def readHeader (line : Text) : Option (Text × Text) :=
  match splitOnce ':' line with
  | none => none
  | some (name, value) =>
    if IsToken name ∧ IsFieldValue (trimMatches isBlank value) then some (name, trimMatches isBlank value)
    else none

/-- The request that the whole text is. -/
def HttpRequest.read (text : Text) : Option HttpRequest :=
  match readHead text with
  | none | some ([], _) => none
  | some (line :: lines, body) =>
    match readRequestLine line, lines.mapM readHeader with
    | some (method, target), some headers =>
      if (HttpRequest.mk method target headers body).Framed then some ⟨method, target, headers, body⟩ else none
    | _, _ => none

/-! ### Parts without blanks -/

theorem isVisible_of_isTokenChar {c : Char} (h : isTokenChar c = true) : isVisible c = true :=
  (Bool.and_eq_true _ _ ▸ h).1

/-- A part of visible characters has neither blanks nor line ends. -/
theorem notMem_of_visible {s : Text} (h : ∀ c ∈ s, isVisible c = true) {d : Char} (hd : isVisible d = false) :
    d ∉ s := by
  intro hmem
  rw [h d hmem] at hd
  cases hd

theorem IsToken.visible {s : Text} (h : IsToken s) : ∀ c ∈ s, isVisible c = true :=
  fun c hc => isVisible_of_isTokenChar (h.2 c hc)

theorem inLine_of_visible {s : Text} (h : ∀ c ∈ s, isVisible c = true) : InLine s :=
  ⟨notMem_of_visible h (by decide), notMem_of_visible h (by decide)⟩

theorem IsFieldValue.inLine {s : Text} (h : IsFieldValue s) : InLine s :=
  ⟨fun hmem => absurd (h.1 _ hmem) (by decide), fun hmem => absurd (h.1 _ hmem) (by decide)⟩

/-- A value of visible characters. -/
theorem isFieldValue_of_visible {s : Text} (h : ∀ c ∈ s, isVisible c = true) : IsFieldValue s := by
  have hblank : ∀ c ∈ s, isBlank c = false := by
    intro c hc
    have hspace : c ≠ ' ' := fun heq => notMem_of_visible h (by decide) (heq ▸ hc)
    have htab : c ≠ '\t' := fun heq => notMem_of_visible h (by decide) (heq ▸ hc)
    simp [isBlank, hspace, htab]
  refine ⟨fun c hc => by rw [h c hc, Bool.true_or], trimMatches_of_forall hblank⟩

theorem InLine.append {s t : Text} (hs : InLine s) (ht : InLine t) : InLine (s ++ t) := by
  constructor
  · exact fun hmem => (List.mem_append.1 hmem).elim hs.1 ht.1
  · exact fun hmem => (List.mem_append.1 hmem).elim hs.2 ht.2

/-! ### The lines of a head -/

/-- A line is read to its end. -/
theorem readLines_line {s : Text} (h : InLine s) (line rest : Text) :
    readLines line (s ++ '\r' :: '\n' :: rest) =
      if line = [] ∧ s = [] then some ([], rest)
      else (readLines [] rest).map fun parts => ((line.reverse ++ s) :: parts.1, parts.2) := by
  induction s generalizing line with
  | nil =>
    by_cases hline : line = []
    · simp [readLines, hline]
    · simp [readLines, hline]
  | cons c s ih =>
    have hreturn : c ≠ '\r' := fun heq => h.1 (heq ▸ List.mem_cons_self)
    have hfeed : c ≠ '\n' := fun heq => h.2 (heq ▸ List.mem_cons_self)
    have ih := ih ⟨fun hmem => h.1 (List.mem_cons_of_mem c hmem), fun hmem => h.2 (List.mem_cons_of_mem c hmem)⟩
      (c :: line)
    rw [List.cons_append, readLines.eq_3 _ _ _ (fun _ hc _ => hreturn hc), if_neg (not_or.2 ⟨hreturn, hfeed⟩), ih,
      if_neg (fun hnil => List.cons_ne_nil _ _ hnil.1), if_neg (fun hnil => List.cons_ne_nil _ _ hnil.2)]
    simp

/-- The lines of a head are read from it. -/
theorem readHead_renderHead {lines : List Text} (h : ∀ line ∈ lines, line ≠ [] ∧ InLine line) (body : Text) :
    readHead (renderHead lines ++ body) = some (lines, body) := by
  induction lines with
  | nil => rfl
  | cons line lines ih =>
    obtain ⟨hne, hline⟩ := h line List.mem_cons_self
    have htext : renderHead (line :: lines) ++ body = line ++ '\r' :: '\n' :: (renderHead lines ++ body) := by
      simp [renderHead]
    have ih := ih fun l hl => h l (List.mem_cons_of_mem line hl)
    unfold readHead at ih ⊢
    rw [htext, readLines_line hline, if_neg (fun hnil => hne hnil.2), ih]
    rfl

/-! ### The request line and the headers -/

theorem readRequestLine_eq_some {line method target : Text} (h : readRequestLine line = some (method, target)) :
    IsToken method ∧ IsTarget target := by
  unfold readRequestLine at h
  split at h
  · split at h
    · next hparts =>
      obtain ⟨rfl, rfl⟩ := Prod.mk.inj (Option.some.inj h)
      exact ⟨hparts.1, hparts.2.1⟩
    · cases h
  · cases h

/-- The parts between the spaces of a request line are the three it is made of, unless the target has a space. -/
theorem splitOn_requestLine_iff {r : HttpRequest} (hmethod : ' ' ∉ r.method) :
    splitOn ' ' r.requestLine = [r.method, r.target, HttpRequest.version] ↔ ' ' ∉ r.target := by
  have hversion : ' ' ∉ HttpRequest.version := by decide
  constructor
  · intro hparts
    exact notMem_of_mem_splitOn (hparts ▸ List.mem_cons_of_mem _ List.mem_cons_self)
  · intro htarget
    unfold HttpRequest.requestLine
    rw [splitOn_append _ hmethod, splitOn_append _ htarget, splitOn_of_notMem hversion]

theorem readRequestLine_requestLine {r : HttpRequest} (hmethod : IsToken r.method) (htarget : IsTarget r.target) :
    readRequestLine r.requestLine = some (r.method, r.target) := by
  have hparts := (splitOn_requestLine_iff (notMem_of_visible hmethod.visible (by decide))).2
    (notMem_of_visible htarget.2 (by decide))
  unfold readRequestLine
  rw [hparts]
  exact if_pos ⟨hmethod, htarget, rfl⟩

theorem readHeader_eq_some {line : Text} {header : Text × Text} (h : readHeader line = some header) :
    IsToken header.1 ∧ IsFieldValue header.2 := by
  unfold readHeader at h
  split at h
  · cases h
  · split at h
    · next hparts =>
      obtain rfl := Option.some.inj h
      exact hparts
    · cases h

theorem readHeaders_valid {lines : List Text} {headers : List (Text × Text)}
    (h : lines.mapM readHeader = some headers) : ∀ header ∈ headers, IsToken header.1 ∧ IsFieldValue header.2 := by
  induction lines generalizing headers with
  | nil =>
    obtain rfl := Option.some.inj h
    simp
  | cons line lines ih =>
    rw [List.mapM_cons] at h
    obtain ⟨first, hfirst, h⟩ := Option.bind_eq_some_iff.1 h
    obtain ⟨rest, hrest, h⟩ := Option.bind_eq_some_iff.1 h
    obtain rfl := Option.some.inj h
    intro header hheader
    rcases List.mem_cons.1 hheader with rfl | hheader
    · exact readHeader_eq_some hfirst
    · exact ih hrest header hheader

theorem readHeader_headerLine {header : Text × Text} (hname : IsToken header.1) (hvalue : IsFieldValue header.2) :
    readHeader (headerLine header) = some header := by
  have hcolon : ':' ∉ header.1 := fun hmem => absurd (hname.2 _ hmem) (by decide)
  have htrim : trimMatches isBlank (' ' :: header.2) = header.2 := hvalue.2
  unfold readHeader headerLine
  rw [splitOnce_append _ hcolon]
  dsimp only
  rw [htrim, if_pos ⟨hname, hvalue⟩]

theorem readHeaders_headerLines {headers : List (Text × Text)}
    (h : ∀ header ∈ headers, IsToken header.1 ∧ IsFieldValue header.2) :
    (headers.map headerLine).mapM readHeader = some headers := by
  induction headers with
  | nil => rfl
  | cons header headers ih =>
    obtain ⟨hname, hvalue⟩ := h header List.mem_cons_self
    rw [List.map_cons, List.mapM_cons, readHeader_headerLine hname hvalue,
      ih fun rest hrest => h rest (List.mem_cons_of_mem header hrest)]
    rfl

/-! ### Whole requests -/

namespace HttpRequest

theorem inLine_requestLine {r : HttpRequest} (hmethod : IsToken r.method) (htarget : InLine r.target) :
    InLine r.requestLine := by
  have hspace : InLine [' '] := by decide
  have hversion : InLine version := by decide
  have hmethod := inLine_of_visible hmethod.visible
  have hline := hmethod.append (hspace.append (htarget.append (hspace.append hversion)))
  exact hline

theorem inLine_headerLine {header : Text × Text} (hname : IsToken header.1) (hvalue : IsFieldValue header.2) :
    InLine (headerLine header) := by
  have hcolon : InLine [':', ' '] := by decide
  exact (inLine_of_visible hname.visible).append (hcolon.append hvalue.inLine)

/-- The lines of the head are lines. The target may have blanks. -/
theorem readHead_render {r : HttpRequest} (hmethod : IsToken r.method) (htarget : InLine r.target)
    (hheaders : ∀ header ∈ r.headers, IsToken header.1 ∧ IsFieldValue header.2) :
    readHead r.render = some (r.head, r.body) := by
  refine readHead_renderHead (fun line hline => ?_) r.body
  rcases List.mem_cons.1 hline with rfl | hline
  · exact ⟨by simp [requestLine], inLine_requestLine hmethod htarget⟩
  · obtain ⟨header, hheader, rfl⟩ := List.mem_map.1 hline
    obtain ⟨hname, hvalue⟩ := hheaders header hheader
    exact ⟨by simp [headerLine], inLine_headerLine hname hvalue⟩

/-- What is read is a request. -/
theorem read_valid {text : Text} {r : HttpRequest} (h : read text = some r) : r.Valid := by
  unfold read at h
  split at h
  · cases h
  · cases h
  · next line lines body hhead =>
    split at h
    · next method target headers hline hheaders =>
      split at h
      · next hframed =>
        obtain rfl := Option.some.inj h
        obtain ⟨hmethod, htarget⟩ := readRequestLine_eq_some hline
        exact ⟨hmethod, htarget, readHeaders_valid hheaders, hframed⟩
      · cases h
    · cases h

theorem read_render {r : HttpRequest} (h : r.Valid) : read r.render = some r := by
  unfold read
  rw [readHead_render h.method (inLine_of_visible h.target.2) h.headers]
  dsimp only [head]
  rw [readRequestLine_requestLine h.method h.target, readHeaders_headerLines h.headers]
  exact if_pos h.framed

/-- **The requests that are read from their text** are those whose parts are what they should be. -/
theorem read_render_iff {r : HttpRequest} : read r.render = some r ↔ r.Valid := ⟨read_valid, read_render⟩

end HttpRequest

end JoeDlna.Lib
