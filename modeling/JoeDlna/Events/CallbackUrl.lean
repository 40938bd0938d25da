import JoeDlna.Events.Callbacks
import JoeDlna.Lib.Numerals

/-!
# The URL in a callback header

`Callback::parse` cuts the first URL out of the header, and puts the path together again with a slash. It
takes the path `/` for the one that stands there when the URL has none.

* `parse_eq_ok_iff` — what is accepted, and with which address and path;
* `parse_exact_iff` — when that is the address and the path of the URL.
-/

namespace JoeDlna

open Lib

/-! ### Addresses -/

theorem parseOctet_decimal (b : UInt8) : parseOctet (decimal b.toNat) = some b := by
  have hsize := b.toNat_lt
  have hlength : (decimal b.toNat).length ≤ 3 := (Nat.length_toDigits_le_iff (by decide) (by decide)).2 (by omega)
  have hdigits : (decimal b.toNat).all Char.isDigit = true :=
    List.all_eq_true.2 fun c hc => isDigit_of_mem_decimal hc
  have hzero : (decimal b.toNat).head? ≠ some '0' ∨ (decimal b.toNat).length = 1 := by
    by_cases h : b.toNat = 0
    · rw [h]
      exact .inr rfl
    · exact .inl (decimal_head? (Nat.pos_of_ne_zero h))
  unfold parseOctet
  rw [if_pos ⟨decimal_ne_nil _, hlength, hdigits, hzero⟩, parseUnsigned_decimal (by omega)]
  simp

/-- An address is read as it is displayed. -/
theorem parseIpv4_displayIpv4 (ip : Ipv4Addr) : parseIpv4 (displayIpv4 ip) = some ip := by
  have hdot : ∀ b : UInt8, '.' ∉ decimal b.toNat := fun b => notMem_decimal (by decide)
  have hparts : splitOn '.' (displayIpv4 ip) =
      [decimal ip.1.toNat, decimal ip.2.1.toNat, decimal ip.2.2.1.toNat, decimal ip.2.2.2.toNat] := by
    have htext : displayIpv4 ip = decimal ip.1.toNat ++ '.' :: (decimal ip.2.1.toNat ++ '.' ::
        (decimal ip.2.2.1.toNat ++ '.' :: decimal ip.2.2.2.toNat)) := by simp [displayIpv4]
    rw [htext, splitOn_append _ (hdot _), splitOn_append _ (hdot _), splitOn_append _ (hdot _),
      splitOn_of_notMem (hdot _)]
  unfold parseIpv4
  rw [hparts]
  simp only [parseOctet_decimal]
  rfl

theorem notMem_displayIpv4 {c : Char} (hdigit : c.isDigit = false) (hdot : c ≠ '.') (ip : Ipv4Addr) :
    c ∉ displayIpv4 ip := by
  have hpart : ∀ n : ℕ, c ∉ decimal n := fun n => notMem_decimal hdigit
  simp [displayIpv4, hpart, hdot]

/-! ### The URL -/

/-- The URL with this address, this spelling of its port, and this text after the slash, if there is one. -/
def callbackUrl (ip : Ipv4Addr) (port : Text) (path : Option Text) : Text :=
  "http://".toList ++ (displayIpv4 ip ++ ':' :: port ++ (path.map ('/' :: ·)).getD [])

/-- **The header names a delivery URL**: after any blanks, and whatever follows. -/
structure Names (value : Text) (ip : Ipv4Addr) (port : Text) (path : Option Text) : Prop where
  shape : ∃ blanks rest, value = blanks ++ '<' :: (callbackUrl ip port path ++ '>' :: rest) ∧
    ∀ c ∈ blanks, isWhitespace c = true
  closing : ∀ q, path = some q → '>' ∉ q

/-- The path that is kept for the text after the slash. -/
def keptPath : Option Text → Text
  | none => ['/']
  | some q => if q = ['/'] then q else '/' :: q

section Parse

variable {value port : Text} {ip : Ipv4Addr} {p : UInt16} {path : Option Text}

/-- A port has neither a colon nor a slash nor an angle bracket. -/
theorem notMem_port (hport : parsePort port = some p) {c : Char} (hdigit : c.isDigit = false) (hplus : c ≠ '+') :
    c ∉ port := by
  obtain ⟨n, hn, -⟩ := Option.map_eq_some_iff.1 hport
  exact notMem_of_parseUnsigned hn hdigit hplus

theorem notMem_callbackUrl (hport : parsePort port = some p) (hclosing : ∀ q, path = some q → '>' ∉ q) :
    '>' ∉ callbackUrl ip port path := by
  have hip := notMem_displayIpv4 (c := '>') (by decide) (by decide) ip
  have hport := notMem_port hport (c := '>') (by decide) (by decide)
  have hscheme : '>' ∉ "http://".toList := by decide
  have hauthority : '>' ∉ displayIpv4 ip ++ ':' :: port := by simp [hip, hport]
  have hpath : '>' ∉ (path.map ('/' :: ·)).getD [] := by
    cases path with
    | none => simp
    | some q => simp [hclosing q rfl]
  unfold callbackUrl
  rw [List.mem_append, List.mem_append, not_or, not_or]
  exact ⟨hscheme, hauthority, hpath⟩

/-- The part of the header between the angle brackets. -/
def urlOf (value : Text) : Option Text :=
  (stripPrefix "<".toList (trim value)).bind fun value => (splitOnce '>' value).map Prod.fst

theorem Names.urlOf (h : Names value ip port path) (hport : parsePort port = some p) :
    urlOf value = some (callbackUrl ip port path) := by
  obtain ⟨blanks, rest, rfl, hblanks⟩ := h.shape
  have htrim : trim (blanks ++ '<' :: (callbackUrl ip port path ++ '>' :: rest)) =
      "<".toList ++ (callbackUrl ip port path ++ '>' :: rest.rdropWhile isWhitespace) :=
    trimMatches_between hblanks (by decide) (by decide)
  unfold JoeDlna.urlOf
  rw [htrim, stripPrefix_append, Option.bind_some, splitOnce_append _ (notMem_callbackUrl hport h.closing)]
  rfl

/-- The authority, and the text after the first slash. -/
theorem authority_of_callbackUrl (hport : parsePort port = some p) (path : Option Text) :
    (splitOnce '/' (displayIpv4 ip ++ ':' :: port ++ (path.map ('/' :: ·)).getD [])).getD
        (displayIpv4 ip ++ ':' :: port ++ (path.map ('/' :: ·)).getD [], "/".toList) =
      (displayIpv4 ip ++ ':' :: port, path.getD "/".toList) := by
  have hip := notMem_displayIpv4 (c := '/') (by decide) (by decide) ip
  have hport := notMem_port hport (c := '/') (by decide) (by decide)
  have hauthority : '/' ∉ displayIpv4 ip ++ ':' :: port := by simp [hip, hport]
  cases path with
  | none =>
    rw [Option.map_none, Option.getD_none, List.append_nil, splitOnce_eq_none hauthority]
    rfl
  | some q =>
    rw [Option.map_some, Option.getD_some, splitOnce_append q hauthority]
    rfl

/-- A header that names a URL is accepted, with its address and the path that is kept. -/
theorem parse_of_names (h : Names value ip port path) (hport : parsePort port = some p) :
    Callback.parse value = .ok ⟨⟨ip, p⟩, keptPath path⟩ := by
  have hurl := h.urlOf hport
  have hcolon := rsplitOnce_append (displayIpv4 ip) (notMem_port hport (c := ':') (by decide) (by decide))
  have hslash : "/".toList = ['/'] := by decide
  unfold urlOf at hurl
  unfold Callback.parse
  rw [hurl]
  dsimp only
  unfold callbackUrl
  rw [stripPrefix_append]
  dsimp only
  rw [authority_of_callbackUrl hport, hslash]
  dsimp only
  rw [hcolon]
  dsimp only
  rw [parseIpv4_displayIpv4, hport]
  cases path with
  | none => rfl
  | some q => rfl

/-- A header with a URL between angle brackets. -/
theorem shape_of_urlOf {url : Text} (h : urlOf value = some url) :
    '>' ∉ url ∧ ∃ blanks rest, value = blanks ++ '<' :: (url ++ '>' :: rest) ∧
      ∀ c ∈ blanks, isWhitespace c = true := by
  obtain ⟨inner, hinner, hcut⟩ := Option.bind_eq_some_iff.1 h
  obtain ⟨⟨url', after⟩, hsplit, rfl⟩ := Option.map_eq_some_iff.1 hcut
  obtain ⟨hclosing, rfl⟩ := splitOnce_eq_some hsplit
  obtain ⟨blanks, last, hvalue, hblanks⟩ := exists_trimMatches isWhitespace value
  refine ⟨hclosing, blanks, after ++ last, ?_, hblanks⟩
  rw [show trimMatches isWhitespace value = "<".toList ++ (url' ++ '>' :: after) from stripPrefix_eq_some hinner]
    at hvalue
  have hopening : "<".toList = ['<'] := by decide
  rw [hvalue, hopening]
  simp

/-- A header that is accepted names a URL. -/
theorem names_of_parse {callback : Callback} (h : Callback.parse value = .ok callback) :
    ∃ port path, Names value callback.address.ip port path ∧ parsePort port = some callback.address.port ∧
      callback.path = keptPath path := by
  unfold Callback.parse at h
  split at h
  · cases h
  · next url hurl =>
    obtain ⟨hclosing, blanks, rest, hvalue, hblanks⟩ := shape_of_urlOf hurl
    split at h
    · cases h
    · next authorityAndPath hstrip =>
      obtain rfl := stripPrefix_eq_some hstrip
      obtain ⟨path, hpath, hcut⟩ : ∃ path : Option Text, authorityAndPath =
          ((splitOnce '/' authorityAndPath).getD (authorityAndPath, "/".toList)).1 ++
            (path.map ('/' :: ·)).getD [] ∧
          ((splitOnce '/' authorityAndPath).getD (authorityAndPath, "/".toList)).2 = path.getD "/".toList := by
        cases hslash : splitOnce '/' authorityAndPath with
        | none => exact ⟨none, (List.append_nil _).symm, rfl⟩
        | some parts => exact ⟨some parts.2, (splitOnce_eq_some hslash).2, rfl⟩
      dsimp only at h
      split at h
      · cases h
      · next host port hcolon =>
        obtain ⟨-, hauthority⟩ := rsplitOnce_eq_some hcolon
        split at h
        · next ip p hip hport =>
          obtain rfl := Except.ok.inj h
          rw [hauthority, displayIpv4_of_parseIpv4 hip] at hpath
          refine ⟨port, path, ⟨⟨blanks, rest, ?_, hblanks⟩, ?_⟩, hport, ?_⟩
          · rw [hvalue, hpath]
            rfl
          · rintro q rfl hq
            rw [hpath] at hclosing
            refine hclosing (List.mem_append_right _ (List.mem_append_right _ ?_))
            exact List.mem_cons_of_mem _ hq
          · have hslash : "/".toList = ['/'] := by decide
            dsimp only
            rw [hcut, hslash]
            cases path <;> rfl
        · cases h

/-- **What is accepted**: the headers that name a URL, with its address. -/
theorem parse_eq_ok_iff {callback : Callback} :
    Callback.parse value = .ok callback ↔
      ∃ port path, Names value callback.address.ip port path ∧ parsePort port = some callback.address.port ∧
        callback.path = keptPath path := by
  refine ⟨names_of_parse, ?_⟩
  rintro ⟨port, path, hnames, hport, hpath⟩
  rw [parse_of_names hnames hport, ← hpath]

/-- A header names one URL. -/
theorem Names.unique {ip' : Ipv4Addr} {port' : Text} {p' : UInt16} {path' : Option Text}
    (h : Names value ip port path) (hport : parsePort port = some p) (h' : Names value ip' port' path')
    (hport' : parsePort port' = some p') : ip = ip' ∧ port = port' ∧ path = path' := by
  have hurl : callbackUrl ip port path = callbackUrl ip' port' path' :=
    Option.some.inj ((h.urlOf hport).symm.trans (h'.urlOf hport'))
  have hrest := List.append_cancel_left hurl
  have hcut := @authority_of_callbackUrl port ip p hport path
  rw [hrest, authority_of_callbackUrl hport' path'] at hcut
  have hauthority : displayIpv4 ip' ++ ':' :: port' = displayIpv4 ip ++ ':' :: port := (Prod.mk.inj hcut).1
  have hcolon := rsplitOnce_append (displayIpv4 ip) (notMem_port hport (c := ':') (by decide) (by decide))
  rw [← hauthority, rsplitOnce_append _ (notMem_port hport' (c := ':') (by decide) (by decide))] at hcolon
  obtain ⟨hip, rfl⟩ := Prod.mk.inj (Option.some.inj hcolon)
  have hparsed := congrArg parseIpv4 hip
  rw [parseIpv4_displayIpv4, parseIpv4_displayIpv4] at hparsed
  obtain rfl := Option.some.inj hparsed
  refine ⟨rfl, rfl, ?_⟩
  have htail := List.append_cancel_left hrest
  cases path with
  | none =>
    cases path' with
    | none => rfl
    | some q' => cases htail
  | some q =>
    cases path' with
    | none => cases htail
    | some q' => rw [(List.cons.inj htail).2]

end Parse

/-! ### The path of the URL -/

/-- **The header is parsed exactly**, for these spellings of a port: a URL that it names gives the address and
the path of the URL, and what is accepted is such a URL. -/
structure ParsedExactly (spells : Text → UInt16 → Prop) (value : Text) : Prop where
  recovered : ∀ ip port p path, spells port p → Names value ip port path →
    Callback.parse value = .ok ⟨⟨ip, p⟩, '/' :: path.getD []⟩
  shaped : ∀ callback, Callback.parse value = .ok callback → ∃ port path, spells port callback.address.port ∧
    Names value callback.address.ip port path

theorem keptPath_eq_iff {path : Option Text} : keptPath path = '/' :: path.getD [] ↔ path ≠ some ['/'] := by
  cases path with
  | none => simp [keptPath]
  | some q => by_cases hq : q = ['/'] <;> simp [keptPath, hq]

theorem parsedExactly_iff {spells : Text → UInt16 → Prop} (hspells : ∀ port p, spells port p → parsePort port = some p)
    {value : Text} :
    ParsedExactly spells value ↔ ∀ ip port p path, Names value ip port path → parsePort port = some p →
      spells port p ∧ path ≠ some ['/'] := by
  constructor
  · intro h ip port p path hnames hport
    have hparse := parse_of_names hnames hport
    obtain ⟨port', path', hspelled, hnames'⟩ := h.shaped _ hparse
    obtain ⟨-, rfl, rfl⟩ := hnames.unique hport hnames' (hspells _ _ hspelled)
    refine ⟨hspelled, keptPath_eq_iff.1 ?_⟩
    have hrecovered := hparse.symm.trans (h.recovered ip port p path hspelled hnames)
    exact (Callback.mk.inj (Except.ok.inj hrecovered)).2
  · intro h
    refine ⟨fun ip port p path hspelled hnames => ?_, fun callback hparse => ?_⟩
    · have hport := hspells port p hspelled
      rw [parse_of_names hnames hport, keptPath_eq_iff.2 (h ip port p path hnames hport).2]
    · obtain ⟨port, path, hnames, hport, -⟩ := names_of_parse hparse
      exact ⟨port, path, (h _ port _ path hnames hport).1, hnames⟩

/-- **When the delivery URL is recovered**: unless the text after its first slash is one more slash. The port is
any spelling that is read as a number, or the number as it is written, and then the header must not spell it
with a plus sign or leading zeros. -/
theorem parse_exact_iff (value : Text) :
    (ParsedExactly (fun port p => parsePort port = some p) value ↔
      ∀ ip port p path, Names value ip port path → parsePort port = some p → path ≠ some ['/']) ∧
    (ParsedExactly (fun port p => port = decimal p.toNat) value ↔
      ∀ ip port p path, Names value ip port path → parsePort port = some p →
        port = decimal p.toNat ∧ path ≠ some ['/']) := by
  constructor
  · rw [parsedExactly_iff fun port p h => h]
    exact ⟨fun h ip port p path hnames hport => (h ip port p path hnames hport).2,
      fun h ip port p path hnames hport => ⟨hport, h ip port p path hnames hport⟩⟩
  · refine parsedExactly_iff fun port p h => ?_
    rw [h, parsePort, parseUnsigned_decimal (by have := p.toNat_lt; omega)]
    simp

/-- A URL whose path is two slashes. -/
def twoSlashes : Text := "<http://192.168.1.40:49152//>".toList

/-- The notifications of this subscription go to the path of one slash. -/
theorem two_slashes_misread :
    Names twoSlashes (192, 168, 1, 40) (decimal 49152) (some ['/']) ∧
      Callback.parse twoSlashes = .ok ⟨⟨(192, 168, 1, 40), 49152⟩, ['/']⟩ ∧
      ¬ ∀ value, ParsedExactly (fun port p => port = decimal p.toNat) value := by
  have hnames : Names twoSlashes (192, 168, 1, 40) (decimal 49152) (some ['/']) := by
    refine ⟨⟨[], [], by decide, by simp⟩, fun q hq => ?_⟩
    obtain rfl := Option.some.inj hq
    decide
  have hparse : Callback.parse twoSlashes = .ok ⟨⟨(192, 168, 1, 40), 49152⟩, ['/']⟩ := by decide +kernel
  refine ⟨hnames, hparse, fun h => ?_⟩
  have hexact := (h twoSlashes).recovered _ _ 49152 _ rfl hnames
  rw [hparse] at hexact
  cases hexact

end JoeDlna
