import JoeDlna.Lib.Xml

/-!
# Escaping

`escape_text` and `element`: the text of an XML element, with the five predefined entities and
U+FFFD in place of the characters XML forbids.

* `escapeText_eq` — `escape_text` replaces the forbidden characters and escapes the others;
* `escapeText_faithful_iff` — a processor reads the text back exactly when it holds no CR.
-/

namespace JoeDlna

open Lib

/-- The characters `escape_text` copies as they are, the five escaped ones included. -/
def isXmlChar (c : Char) : Bool :=
  let n := c.toNat
  n == 0x9 || n == 0xA || n == 0xD || (0x20 ≤ n && n ≤ 0xD7FF) || (0xE000 ≤ n && n ≤ 0xFFFD) ||
    (0x10000 ≤ n && n ≤ 0x10FFFF)

def escapeCharacter (c : Char) : Text :=
  if c = '&' then "&amp;".toList
  else if c = '<' then "&lt;".toList
  else if c = '>' then "&gt;".toList
  else if c = '\'' then "&apos;".toList
  else if c = '"' then "&quot;".toList
  else if isXmlChar c then [c]
  else [Char.ofNat 0xFFFD]

def escapeText (value : Text) : Text := value.flatMap escapeCharacter

/-- The text that `element` appends to its output. -/
def element (name value : Text) : Text :=
  "<".toList ++ name ++ ">".toList ++ escapeText value ++ "</".toList ++ name ++ ">".toList

/-! ### Escaping in two steps -/

/-- A character, or U+FFFD in place of one that XML forbids. -/
def sanitize (c : Char) : Char := if isXmlCharacter c then c else Char.ofNat 0xFFFD

/-- A text with U+FFFD in place of the characters XML forbids. -/
def clean (s : Text) : Text := s.map sanitize

theorem isXmlText_clean (s : Text) : IsXmlText (clean s) := by
  intro c hc
  obtain ⟨d, -, rfl⟩ := List.mem_map.1 hc
  unfold sanitize
  split
  · assumption
  · decide

theorem clean_eq_self {s : Text} (h : IsXmlText s) : clean s = s := by
  conv_rhs => rw [← List.map_id s]
  refine List.map_congr_left fun c hc => ?_
  rw [sanitize, if_pos (h c hc)]
  rfl

@[simp] theorem clean_append (s t : Text) : clean (s ++ t) = clean s ++ clean t := List.map_append

theorem escapeCharacter_eq (c : Char) : escapeCharacter c = escapeChar (sanitize c) := by
  rcases escapeChar_cases c with ⟨name, hname, -⟩ | ⟨hplain, hescape⟩
  · simp only [entities, List.mem_cons, List.not_mem_nil, or_false, Prod.mk.injEq] at hname
    rcases hname with ⟨rfl, rfl⟩ | ⟨rfl, rfl⟩ | ⟨rfl, rfl⟩ | ⟨rfl, rfl⟩ | ⟨rfl, rfl⟩ <;> rfl
  · simp only [List.mem_cons, List.not_mem_nil, or_false, not_or] at hplain
    obtain ⟨hamp, hlt, hgt, hapos, hquot⟩ := hplain
    rw [escapeCharacter, if_neg hamp, if_neg hlt, if_neg hgt, if_neg hapos, if_neg hquot, sanitize]
    change (if isXmlCharacter c then _ else _) = _
    split
    · exact hescape.symm
    · rfl

/-- **`escape_text` replaces the forbidden characters and escapes the others.** -/
theorem escapeText_eq (s : Text) : escapeText s = escape (clean s) := by
  rw [escapeText, escape, clean, List.flatMap_map]
  exact List.flatMap_congr fun c _ => escapeCharacter_eq c

@[simp] theorem escapeText_append (s t : Text) : escapeText (s ++ t) = escapeText s ++ escapeText t :=
  List.flatMap_append

/-- Text that `escape_text` copies as it is. -/
theorem escapeText_eq_self {s : Text} (hxml : IsXmlText s)
    (hplain : ∀ c ∈ s, c ∉ ['&', '<', '>', '\'', '"']) : escapeText s = s := by
  rw [escapeText_eq, clean_eq_self hxml, escape_eq_self hplain]

theorem escapeText_of_isAlphanum {s : Text} (h : ∀ c ∈ s, c.isAlphanum = true) : escapeText s = s := by
  refine escapeText_eq_self (fun c hc => isXmlCharacter_of_isAlphanum (h c hc)) fun c hc hmem => ?_
  have hfive : ∀ d ∈ ['&', '<', '>', '\'', '"'], d.isAlphanum = false := by simp
  have halpha := h c hc
  rw [hfive c hmem] at halpha
  cases halpha

theorem notMem_escapeText (s : Text) {d : Char} (hd : d ∈ ['<', '>', '\'', '"']) : d ∉ escapeText s := by
  rw [escapeText_eq]
  exact notMem_escape _ hd

/-! ### What a processor reads -/

/-- A processor reads the text without its forbidden characters, and with its line ends normalised. -/
theorem readContent_escapeText (s : Text) : readContent (escapeText s) = some (normalizeLineEnds (clean s)) := by
  rw [escapeText_eq, readContent_escape]

/-- Cleaning neither adds CR nor takes it away. -/
theorem mem_clean_iff {s : Text} : '\r' ∈ clean s ↔ '\r' ∈ s := by
  constructor
  · intro h
    obtain ⟨c, hc, heq⟩ := List.mem_map.1 h
    unfold sanitize at heq
    split at heq
    · exact heq ▸ hc
    · exact absurd heq (by decide)
  · intro h
    exact List.mem_map.2 ⟨'\r', h, rfl⟩

/-- **When a text is shown as it is**: a text without CR. Every text is escaped so that it is well formed; but a
CR is copied, and read as a line feed, also in the text of another title. -/
theorem escapeText_faithful_iff (s : Text) :
    (IsXmlText (escapeText s) ∧ (∀ d ∈ ['<', '>', '\'', '"'], d ∉ escapeText s) ∧
      ∀ before after, escapeText s = before ++ '&' :: after →
        ∃ name c, (name, c) ∈ entities ∧ name ++ [';'] <+: after) ∧
    (readContent (escapeText s) = some (clean s) ↔ '\r' ∉ s) ∧
    ((∀ t, '\r' ∉ t → clean s ≠ clean t → readContent (escapeText s) ≠ readContent (escapeText t)) ↔
      '\r' ∉ s) := by
  have hread : readContent (escapeText s) = some (clean s) ↔ '\r' ∉ s := by
    rw [readContent_escapeText, Option.some.injEq, normalizeLineEnds_eq_self_iff, mem_clean_iff]
  refine ⟨⟨?_, fun d hd => notMem_escapeText s hd, fun before after h => ?_⟩, hread, ?_, ?_⟩
  · rw [escapeText_eq]
    exact isXmlText_escape (isXmlText_clean s)
  · rw [escapeText_eq] at h
    exact entity_of_escape h
  · -- the title with line feeds in place of the line ends
    intro h hcr
    have hnone := notMem_normalizeLineEnds (clean s)
    have hclean : clean (normalizeLineEnds (clean s)) = normalizeLineEnds (clean s) :=
      clean_eq_self (isXmlText_normalizeLineEnds (isXmlText_clean s))
    refine h (normalizeLineEnds (clean s)) hnone ?_ ?_
    · rw [hclean]
      intro heq
      exact hnone (heq ▸ mem_clean_iff.2 hcr)
    · rw [readContent_escapeText, readContent_escapeText, hclean, normalizeLineEnds_eq_self hnone]
  · intro hcr t ht hne heq
    rw [readContent_escapeText, readContent_escapeText,
      normalizeLineEnds_eq_self (mem_clean_iff.not.2 hcr), normalizeLineEnds_eq_self (mem_clean_iff.not.2 ht)] at heq
    exact hne (Option.some.inj heq)

/-- A title with CR is well formed, and read as another title. -/
theorem carriage_return_lost :
    escapeText "a\rb".toList = "a\rb".toList ∧ clean "a\rb".toList = "a\rb".toList ∧
      readContent (escapeText "a\rb".toList) = some "a\nb".toList ∧
      readContent (escapeText "a\nb".toList) = some "a\nb".toList ∧
      ¬ (∀ s, readContent (escapeText s) = some (clean s)) ∧
      ¬ ∀ s t, clean s ≠ clean t → readContent (escapeText s) ≠ readContent (escapeText t) := by
  have hread : readContent (escapeText "a\rb".toList) = some "a\nb".toList := by decide
  have hother : readContent (escapeText "a\nb".toList) = some "a\nb".toList := by decide
  refine ⟨by decide, by decide, hread, hother, fun h => ?_, fun h => ?_⟩
  · have hsame := hread.symm.trans (h "a\rb".toList)
    exact absurd hsame (by decide)
  · exact h "a\rb".toList "a\nb".toList (by decide) (hread.trans hother.symm)

end JoeDlna
