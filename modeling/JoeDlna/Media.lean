import JoeDlna.Catalog.Tree
import JoeDlna.Http
import JoeDlna.Lib.Tiles
import JoeDlna.Soap.Defs

/-!
# Serving media

The handler of `/media/{id}/{name}` and its `Range` header.

* `parseRange_spec` — a range that is accepted lies within the file, and no subtraction underflows;
* `serveFile_spec` — the answer for a file that can be read;
* `media_correct` — every answer of the handler, and the file from its parts.

Subtractions of the source that are not saturating are `checkedSub`, which fails where they would
underflow.
-/

namespace JoeDlna

open Lib

structure ByteRange where
  start : UInt64
  end_ : UInt64
  isPartial : Bool
deriving DecidableEq, Repr

/-- Why there is no range: the header is refused, or a subtraction has underflowed. -/
inductive RangeError
  | refused
  | underflow
deriving DecidableEq, Repr

/-- `u64::saturating_sub`. -/
def saturatingSub (a b : UInt64) : UInt64 := if b ≤ a then a - b else 0

/-- `a - b` with overflow checks. -/
def checkedSub (a b : UInt64) : Except RangeError UInt64 :=
  if b ≤ a then .ok (a - b) else .error .underflow

/-- `value.parse::<u64>().map_err(|_| ())`. -/
def parseU64 (s : Text) : Except RangeError UInt64 :=
  match parseUnsigned (2 ^ 64 - 1) s with
  | some n => .ok (UInt64.ofNat n)
  | none => .error .refused

/-- The ends of a range between its two texts, before they are compared. -/
def rangeEnds (start end_ : Text) (fileSize : UInt64) : Except RangeError (UInt64 × UInt64) :=
  if start = [] then do
    let suffix ← parseU64 end_
    if suffix = 0 then throw .refused
    let last ← checkedSub fileSize 1
    return (saturatingSub fileSize suffix, last)
  else do
    let start ← parseU64 start
    let last ← if end_ = [] then checkedSub fileSize 1 else parseU64 end_
    let limit ← checkedSub fileSize 1
    return (start, min last limit)

def parseRange (value : Option Text) (fileSize : UInt64) : Except RangeError ByteRange :=
  match value with
  | none => .ok { start := 0, end_ := saturatingSub fileSize 1, isPartial := false }
  | some value =>
    if fileSize = 0 then .error .refused
    else match stripPrefix "bytes=".toList value with
      | none => .error .refused
      | some range =>
        if ',' ∈ range then .error .refused
        else match splitOnce '-' range with
          | none => .error .refused
          | some (start, end_) => do
            let ends ← rangeEnds start end_ fileSize
            if ends.1 ≥ fileSize ∨ ends.1 > ends.2 then throw .refused
            return { start := ends.1, end_ := ends.2, isPartial := true }

section Range

variable {fileSize : UInt64}

theorem toNat_saturatingSub (a b : UInt64) : (saturatingSub a b).toNat = a.toNat - b.toNat := by
  unfold saturatingSub
  split
  · next h => exact UInt64.toNat_sub_of_le _ _ h
  · next h =>
    rw [UInt64.le_iff_toNat_le] at h
    have : (0 : UInt64).toNat = 0 := rfl
    omega

theorem one_le_of_ne_zero (h : fileSize ≠ 0) : 1 ≤ fileSize := by
  rw [UInt64.le_iff_toNat_le]
  have : fileSize.toNat ≠ 0 := fun h0 => h (UInt64.toNat_inj.1 h0)
  have : (1 : UInt64).toNat = 1 := rfl
  omega

/-- The subtraction `file_size - 1` does not underflow once the size is known not to be zero. -/
theorem checkedSub_one (h : fileSize ≠ 0) : checkedSub fileSize 1 = .ok (fileSize - 1) :=
  if_pos (one_le_of_ne_zero h)

theorem sub_one_lt (h : fileSize ≠ 0) : fileSize - 1 < fileSize := by
  have hle := one_le_of_ne_zero h
  have hone : (1 : UInt64).toNat = 1 := rfl
  rw [UInt64.lt_iff_toNat_lt, UInt64.toNat_sub_of_le _ _ hle]
  rw [UInt64.le_iff_toNat_le] at hle
  omega

theorem min_le_of_uint64 (a b : UInt64) : min a b ≤ b := by
  change (if a ≤ b then a else b) ≤ b
  split
  · assumption
  · exact UInt64.le_refl b

theorem parseU64_cases (s : Text) : parseU64 s = .error .refused ∨ ∃ n, parseU64 s = .ok n := by
  unfold parseU64
  cases parseUnsigned (2 ^ 64 - 1) s with
  | none => exact .inl rfl
  | some n => exact .inr ⟨_, rfl⟩

/-- The ends of a range in a file that is not empty: refused, or the second one within the file. -/
theorem rangeEnds_cases (h : fileSize ≠ 0) (start end_ : Text) :
    rangeEnds start end_ fileSize = .error .refused ∨
      ∃ ends, rangeEnds start end_ fileSize = .ok ends ∧ ends.2 ≤ fileSize - 1 := by
  unfold rangeEnds
  rw [checkedSub_one h]
  split
  · rcases parseU64_cases end_ with he | ⟨suffix, he⟩
    · rw [he]
      exact .inl rfl
    · rw [he]
      by_cases h0 : suffix = 0
      · exact .inl (by simp [h0, bind, Except.bind, throw, throwThe, MonadExceptOf.throw])
      · exact .inr ⟨(saturatingSub fileSize suffix, fileSize - 1), by
          simp only [h0, bind, Except.bind, pure, Except.pure, if_false], UInt64.le_refl _⟩
  · rcases parseU64_cases start with hs | ⟨first, hs⟩
    · rw [hs]
      exact .inl rfl
    · rw [hs]
      split
      · exact .inr ⟨_, rfl, min_le_of_uint64 _ _⟩
      · rcases parseU64_cases end_ with he | ⟨last, he⟩
        · rw [he]
          exact .inl rfl
        · rw [he]
          exact .inr ⟨_, rfl, min_le_of_uint64 _ _⟩

/-- **What the `Range` header gives**: without one the whole file, and with one either nothing or
a range within the file. No subtraction underflows. -/
theorem parseRange_spec (value : Option Text) (fileSize : UInt64) :
    (value = none ∧ parseRange value fileSize =
      .ok { start := 0, end_ := saturatingSub fileSize 1, isPartial := false }) ∨
    parseRange value fileSize = .error .refused ∨
    ∃ start end_, parseRange value fileSize = .ok { start, end_, isPartial := true } ∧
      start ≤ end_ ∧ end_ < fileSize := by
  cases value with
  | none => exact .inl ⟨rfl, rfl⟩
  | some value =>
    right
    unfold parseRange
    by_cases h0 : fileSize = 0
    · exact .inl (by simp [h0])
    simp only [h0, if_false]
    cases stripPrefix "bytes=".toList value with
    | none => exact .inl rfl
    | some range =>
      by_cases hcomma : ',' ∈ range
      · exact .inl (by simp [hcomma])
      simp only [hcomma, if_false]
      cases splitOnce '-' range with
      | none => exact .inl rfl
      | some parts =>
        rcases rangeEnds_cases h0 parts.1 parts.2 with he | ⟨ends, he, hle⟩
        · simp only [he]
          exact .inl rfl
        · simp only [he, bind, Except.bind]
          split
          · exact .inl rfl
          · next hcmp =>
            rw [not_or] at hcmp
            exact .inr ⟨_, _, rfl, UInt64.not_lt.1 hcmp.2, UInt64.lt_of_le_of_lt hle (sub_one_lt h0)⟩

/-- The text of the range from `a` to `b`. -/
def rangeText (a b : ℕ) : Text := "bytes=".toList ++ (decimal a ++ '-' :: decimal b)

theorem parseU64_decimal {n : ℕ} (h : n < 2 ^ 64) : parseU64 (decimal n) = .ok (UInt64.ofNat n) := by
  unfold parseU64
  rw [parseUnsigned_decimal (by omega)]

/-- A range within the file is read as it is written. -/
theorem parseRange_rangeText {a b : ℕ} (hab : a ≤ b) (hb : b < fileSize.toNat) :
    parseRange (some (rangeText a b)) fileSize =
      .ok { start := UInt64.ofNat a, end_ := UInt64.ofNat b, isPartial := true } := by
  have hsize := fileSize.toNat_lt
  have hbound : UInt64.size = 2 ^ 64 := rfl
  have ha : (UInt64.ofNat a).toNat = a := UInt64.toNat_ofNat_of_lt' (by omega)
  have hb' : (UInt64.ofNat b).toNat = b := UInt64.toNat_ofNat_of_lt' (by omega)
  have h0 : fileSize ≠ 0 := by
    rintro rfl
    exact absurd hb (by simp)
  have hcomma : ',' ∉ decimal a ++ '-' :: decimal b := by
    have := notMem_decimal (n := a) (c := ',') (by decide)
    have := notMem_decimal (n := b) (c := ',') (by decide)
    simp_all
  have hmin : min (UInt64.ofNat b) (fileSize - 1) = UInt64.ofNat b := by
    refine if_pos ?_
    rw [UInt64.le_iff_toNat_le, UInt64.toNat_sub_of_le _ _ (one_le_of_ne_zero h0), hb']
    have : (1 : UInt64).toNat = 1 := rfl
    omega
  have hends : rangeEnds (decimal a) (decimal b) fileSize = .ok (UInt64.ofNat a, UInt64.ofNat b) := by
    unfold rangeEnds
    rw [if_neg (decimal_ne_nil a), parseU64_decimal (n := a) (by omega),
      parseU64_decimal (n := b) (by omega), checkedSub_one h0]
    simp only [decimal_ne_nil b, if_false, bind, Except.bind, pure, Except.pure, hmin]
  have hin : ¬(UInt64.ofNat a ≥ fileSize ∨ UInt64.ofNat a > UInt64.ofNat b) := by
    simp only [ge_iff_le, gt_iff_lt, UInt64.le_iff_toNat_le, UInt64.lt_iff_toNat_lt, ha, hb']
    omega
  have hsplit := splitOnce_append (p := '-') (decimal b) (notMem_decimal (n := a) (by decide))
  unfold parseRange rangeText
  simp only [h0, if_false, stripPrefix_append, hcomma, hsplit, hends]
  change (if _ then _ else _) = _
  rw [if_neg hin]
  rfl

end Range

/-! ### The handler -/

/-- The calls the handler makes on a file: its metadata, its bytes once it is open, and the seek. -/
structure MediaFiles where
  metadata : Path → Except IoError Metadata
  openFile : Path → Except IoError (List UInt8)
  seek : Path → UInt64 → Except IoError Unit

def contentLength : String := "content-length"

def contentRange : String := "content-range"

/-- The part of `protocol_info` after its third colon. -/
def contentFeatures (kind : MediaKind) : Text :=
  (do
    let (_, value) ← splitOnce ':' (protocolInfo kind.mimeType kind.dlnaProfile)
    let (_, value) ← splitOnce ':' value
    let (_, features) ← splitOnce ':' value
    return features).getD "*".toList

/-- The number of bytes a range asks for. -/
def rangeLength (range : ByteRange) (fileSize : UInt64) : UInt64 :=
  if fileSize = 0 then 0 else saturatingAdd (saturatingSub range.end_ range.start) 1

/-- The body of a response, or the status it fails with. -/
def mediaBody (files : MediaFiles) (path : Path) (method : Method) (range : ByteRange)
    (length : UInt64) : Except StatusCode (List UInt8) :=
  if method = .head ∨ length = 0 then .ok []
  else match files.openFile path with
    | .error _ => .error .notFound
    | .ok content =>
      if 0 < range.start then
        match files.seek path range.start with
        | .error _ => .error .internalServerError
        | .ok _ => .ok (window content (range.start.toNat, length.toNat))
      else .ok (window content (0, length.toNat))

/-- The headers of a response with a body. -/
def mediaHeaders (kind : MediaKind) (range : ByteRange) (fileSize length : UInt64)
    (headers : HeaderMap) : List (String × Text) :=
  [ ("content-type", kind.mimeType),
    (contentLength, decimal length.toNat),
    ("accept-ranges", "bytes".toList),
    ("server", SERVER),
    ("ext", []),
    ("transfermode.dlna.org", "Streaming".toList) ] ++
  (if range.isPartial then
    [(contentRange, "bytes ".toList ++ decimal range.start.toNat ++ "-".toList ++
      decimal range.end_.toNat ++ "/".toList ++ decimal fileSize.toNat)]
  else []) ++
  (if headers.lookup "getcontentfeatures.dlna.org".toList = some (utf8 "1".toList) then
    [("contentfeatures.dlna.org", contentFeatures kind)]
  else [])

/-- The answer to a range that is refused. -/
def refusal (fileSize : UInt64) : Response where
  status := .rangeNotSatisfiable
  headers := [(contentRange, "bytes */".toList ++ decimal fileSize.toNat), (contentLength, decimal 0)]
  body := []

/-- The answer once the file is known; `none` where a subtraction underflows. -/
def serveFile (files : MediaFiles) (path : Path) (kind : MediaKind) (fileSize : UInt64)
    (method : Method) (headers : HeaderMap) : Option Response :=
  match parseRange (headers.str "range") fileSize with
  | .error .underflow => none
  | .error .refused => some (refusal fileSize)
  | .ok range =>
    match mediaBody files path method range (rangeLength range fileSize) with
    | .error status => some status.response
    | .ok body => some {
        status := if range.isPartial then .partialContent else .ok
        headers := mediaHeaders kind range fileSize (rangeLength range fileSize) headers
        body := body }

def media (files : MediaFiles) (c : Catalog) (id : Text) (method : Method) (headers : HeaderMap) :
    Option Response :=
  match c.entry id with
  | none => some StatusCode.notFound.response
  | some entry =>
    match entry.kind with
    | .container => some StatusCode.notFound.response
    | .media kind =>
      match files.metadata entry.path with
      | .error _ => some StatusCode.notFound.response
      | .ok metadata =>
        if metadata.isFile then serveFile files entry.path kind metadata.len method headers
        else some StatusCode.notFound.response

/-! ### The answer -/

/-- A file that can be read from end to end, with bytes that do not change. -/
structure Readable (files : MediaFiles) (path : Path) (content : List UInt8) : Prop where
  metadata : ∃ m, files.metadata path = .ok m ∧ m.isFile ∧ m.len.toNat = content.length
  openFile : files.openFile path = .ok content
  seek : ∀ offset, files.seek path offset = .ok ()

/-- The answer for a file: `416`, the whole file, or the part that `Content-Range` names. -/
def Answers (content : List UInt8) (r : Response) : Prop :=
  (r.status = .rangeNotSatisfiable ∧ r.body = [] ∧
    r.header contentRange = some ("bytes */".toList ++ decimal content.length)) ∨
  (r.status = .ok ∧ r.body = content ∧ r.header contentRange = none ∧
    r.header contentLength = some (decimal content.length)) ∨
  (r.status = .partialContent ∧ ∃ start end_, start ≤ end_ ∧ end_ < content.length ∧
    r.body = window content (start, end_ - start + 1) ∧
    r.header contentLength = some (decimal (end_ - start + 1)) ∧
    r.header contentRange = some ("bytes ".toList ++ decimal start ++ "-".toList ++ decimal end_ ++
      "/".toList ++ decimal content.length))

section Answer

variable {files : MediaFiles} {path : Path} {content : List UInt8} {fileSize : UInt64}

theorem length_window {start length : ℕ} (h : start + length ≤ content.length) :
    (window content (start, length)).length = length := by
  simp only [window, List.length_take, List.length_drop]
  omega

theorem mediaBody_of_readable (hr : Readable files path content) (method : Method) (range : ByteRange)
    (length : UInt64) :
    mediaBody files path method range length =
      .ok (if method = .head then [] else window content (range.start.toNat, length.toNat)) := by
  unfold mediaBody
  rw [hr.openFile]
  simp only [hr.seek]
  by_cases hm : method = .head
  · simp [hm]
  by_cases hl : length = 0
  · simp [hl, window]
  simp only [hm, hl, or_self, if_false]
  split
  · rfl
  · next hstart =>
    have : range.start.toNat = 0 := by
      rw [UInt64.lt_iff_toNat_lt] at hstart
      have : (0 : UInt64).toNat = 0 := rfl
      omega
    rw [this]

theorem toNat_rangeLength_whole :
    (rangeLength { start := 0, end_ := saturatingSub fileSize 1, isPartial := false } fileSize).toNat =
      fileSize.toNat := by
  unfold rangeLength
  split
  · next h => rw [h]
  · next h =>
    have h1 := one_le_of_ne_zero h
    rw [UInt64.le_iff_toNat_le] at h1
    have hlt := fileSize.toNat_lt
    have hone : (1 : UInt64).toNat = 1 := rfl
    have hzero : (0 : UInt64).toNat = 0 := rfl
    change (saturatingAdd (saturatingSub (saturatingSub fileSize 1) 0) 1).toNat = _
    rw [Catalog.toNat_saturatingAdd, toNat_saturatingSub, toNat_saturatingSub]
    omega

theorem toNat_rangeLength_part (start : UInt64) {end_ : UInt64} (hlt : end_ < fileSize) :
    (rangeLength { start, end_, isPartial := true } fileSize).toNat = end_.toNat - start.toNat + 1 := by
  rw [UInt64.lt_iff_toNat_lt] at hlt
  have hsize := fileSize.toNat_lt
  have hone : (1 : UInt64).toNat = 1 := rfl
  have h0 : fileSize ≠ 0 := by
    rintro rfl
    simp at hlt
  unfold rangeLength
  rw [if_neg h0, Catalog.toNat_saturatingAdd, toNat_saturatingSub]
  simp only
  omega

section Headers

variable (kind : MediaKind) (range : ByteRange) (length : UInt64) (headers : HeaderMap)

theorem lookup_contentLength :
    (mediaHeaders kind range fileSize length headers).lookup contentLength =
      some (decimal length.toNat) := by
  simp only [mediaHeaders, contentLength, List.cons_append, List.nil_append, List.lookup_cons,
    String.reduceBEq]

theorem lookup_contentRange :
    (mediaHeaders kind range fileSize length headers).lookup contentRange =
      if range.isPartial then
        some ("bytes ".toList ++ decimal range.start.toNat ++ "-".toList ++
          decimal range.end_.toNat ++ "/".toList ++ decimal fileSize.toNat)
      else none := by
  have hfeatures : ∀ (p : Prop) [Decidable p] (v : Text),
      List.lookup contentRange (if p then [("contentfeatures.dlna.org", v)] else []) = none := by
    intro p _ v
    split <;> rfl
  unfold contentRange at hfeatures
  cases h : range.isPartial <;>
    simp only [mediaHeaders, contentRange, contentLength, List.cons_append, List.nil_append,
      List.lookup_cons, String.reduceBEq, h, if_true, if_false, Bool.false_eq_true, hfeatures]

end Headers

/-- What the handler answers for a range it has accepted. -/
theorem serveFile_of_range (hr : Readable files path content) (kind : MediaKind)
    (method : Method) (headers : HeaderMap) {range : ByteRange}
    (h : parseRange (headers.str "range") fileSize = .ok range) :
    serveFile files path kind fileSize method headers = some {
      status := if range.isPartial then .partialContent else .ok
      headers := mediaHeaders kind range fileSize (rangeLength range fileSize) headers
      body := if method = .head then []
        else window content (range.start.toNat, (rangeLength range fileSize).toNat) } := by
  simp only [serveFile, h, mediaBody_of_readable hr]

/-- **The answer for a file**, with the same status and headers for both methods. -/
theorem serveFile_spec (hr : Readable files path content) (hsize : fileSize.toNat = content.length)
    (kind : MediaKind) (headers : HeaderMap) :
    ∃ r, serveFile files path kind fileSize .get headers = some r ∧
      serveFile files path kind fileSize .head headers = some { r with body := [] } ∧
      r.header contentLength = some (decimal r.body.length) ∧ Answers content r := by
  rcases parseRange_spec (headers.str "range") fileSize with
    ⟨-, h⟩ | h | ⟨start, end_, h, hle, hlt⟩
  · refine ⟨_, serveFile_of_range hr kind .get headers h, serveFile_of_range hr kind .head headers h, ?_, ?_⟩
    · simp only [Response.header, lookup_contentLength, toNat_rangeLength_whole, hsize]
      simp [window]
    · refine .inr (.inl ⟨rfl, ?_, ?_, ?_⟩)
      · simp [toNat_rangeLength_whole, hsize, window]
      · simp [Response.header, lookup_contentRange]
      · simp only [Response.header, lookup_contentLength, toNat_rangeLength_whole, hsize]
  · refine ⟨refusal fileSize, by simp only [serveFile, h], by simp only [serveFile, h]; rfl, ?_,
      .inl ⟨rfl, rfl, ?_⟩⟩
    · simp only [refusal, Response.header, contentRange, contentLength, List.lookup_cons, String.reduceBEq]
      rfl
    · simp only [refusal, Response.header, contentRange, List.lookup_cons, String.reduceBEq, hsize]
  · have hlen := toNat_rangeLength_part start hlt
    rw [UInt64.le_iff_toNat_le] at hle
    rw [UInt64.lt_iff_toNat_lt] at hlt
    refine ⟨_, serveFile_of_range hr kind .get headers h, serveFile_of_range hr kind .head headers h, ?_,
      .inr (.inr ⟨rfl, start.toNat, end_.toNat, hle, by omega, ?_, ?_, ?_⟩)⟩
    · simp only [Response.header, lookup_contentLength, hlen]
      rw [if_neg (by simp), length_window (by omega)]
    · simp [hlen]
    · simp only [Response.header, lookup_contentLength, hlen]
    · simp [Response.header, lookup_contentRange, hsize]

end Answer

/-! ### The file from its parts -/

/-- The id of a media entry. -/
def Catalog.IsMedia (c : Catalog) (id : Text) : Prop :=
  ∃ e kind, c.entry id = some e ∧ e.kind = .media kind

section Parts

variable {files : MediaFiles} {c : Catalog} {id : Text} {content : List UInt8}

theorem media_eq_serveFile {e : Entry} {kind : MediaKind} (he : c.entry id = some e)
    (hk : e.kind = .media kind) (hr : Readable files e.path content) :
    ∃ fileSize : UInt64, fileSize.toNat = content.length ∧ ∀ method headers,
      media files c id method headers = serveFile files e.path kind fileSize method headers := by
  obtain ⟨m, hm, hfile, hlen⟩ := hr.metadata
  exact ⟨m.len, hlen, fun method headers => by simp [media, he, hk, hm, hfile]⟩

/-- The response to a range within the file is that part of it. -/
theorem media_rangeText {e : Entry} {kind : MediaKind} (he : c.entry id = some e)
    (hk : e.kind = .media kind) (hr : Readable files e.path content) {w : ℕ × ℕ} (hpos : 0 < w.2)
    (hw : w.1 + w.2 ≤ content.length) {headers : HeaderMap}
    (hh : headers.str "range" = some (rangeText w.1 (w.1 + w.2 - 1))) :
    ∃ r, media files c id .get headers = some r ∧ r.status = .partialContent ∧
      r.body = window content w := by
  obtain ⟨fileSize, hsize, heq⟩ := media_eq_serveFile he hk hr
  have hlt := fileSize.toNat_lt
  have hbound : UInt64.size = 2 ^ 64 := rfl
  have ha : (UInt64.ofNat w.1).toNat = w.1 := UInt64.toNat_ofNat_of_lt' (by omega)
  have hb : (UInt64.ofNat (w.1 + w.2 - 1)).toNat = w.1 + w.2 - 1 := UInt64.toNat_ofNat_of_lt' (by omega)
  have hle : w.1 ≤ w.1 + w.2 - 1 := by omega
  have hlast : w.1 + w.2 - 1 < fileSize.toNat := by omega
  have hparse := parseRange_rangeText hle hlast
  rw [← hh] at hparse
  have hend : UInt64.ofNat (w.1 + w.2 - 1) < fileSize := by
    rw [UInt64.lt_iff_toNat_lt]
    omega
  have hlen := toNat_rangeLength_part (UInt64.ofNat w.1) hend
  refine ⟨_, (heq .get headers).trans (serveFile_of_range hr kind .get headers hparse), rfl, ?_⟩
  simp only [hlen, ha, hb]
  have hcount : w.1 + w.2 - 1 - w.1 + 1 = w.2 := by omega
  rw [if_neg (by simp), hcount]

theorem media_parts {e : Entry} {kind : MediaKind} (he : c.entry id = some e)
    (hk : e.kind = .media kind) (hr : Readable files e.path content) {ws : List (ℕ × ℕ)}
    {requests : List HeaderMap}
    (hreq : List.Forall₂ (fun w headers => HeaderMap.str headers "range" =
      some (rangeText w.1 (w.1 + w.2 - 1))) ws requests)
    (hws : ∀ w ∈ ws, 0 < w.2 ∧ w.1 + w.2 ≤ content.length) :
    ∃ parts, requests.mapM (media files c id .get) = some parts ∧
      (∀ r ∈ parts, r.status = .partialContent) ∧
      parts.flatMap Response.body = ws.flatMap (window content) := by
  induction hreq with
  | nil => exact ⟨[], rfl, by simp, rfl⟩
  | @cons w headers ws requests hw _ ih =>
    obtain ⟨hpos, hle⟩ := hws w (by simp)
    obtain ⟨r, hr', hstatus, hbody⟩ := media_rangeText he hk hr hpos hle hw
    obtain ⟨parts, hparts, hall, hflat⟩ := ih fun v hv => hws v (List.mem_cons_of_mem _ hv)
    refine ⟨r :: parts, by simp [List.mapM_cons, hr', hparts], ?_, ?_⟩
    · simpa [hstatus] using hall
    · rw [List.flatMap_cons, List.flatMap_cons, hbody, hflat]

end Parts

/-- **Every answer of the handler for media files.** `HEAD` is `GET` without the body, a header
with the length of the body never lies, an id that is no media entry is not found, and a file is
the concatenation of the answers to ranges that cut it into consecutive parts. -/
theorem media_correct (files : MediaFiles) (c : Catalog) (id : Text) (headers : HeaderMap)
    (content : List UInt8)
    (hfile : ∀ e kind, c.entry id = some e → e.kind = .media kind → Readable files e.path content) :
    ∃ r, media files c id .get headers = some r ∧
      media files c id .head headers = some { r with body := [] } ∧
      (∀ value, r.header contentLength = some value → value = decimal r.body.length) ∧
      (¬c.IsMedia id → r.status = .notFound ∧ r.body = []) ∧
      (c.IsMedia id → r.header contentLength = some (decimal r.body.length) ∧ Answers content r) ∧
      (c.IsMedia id → ∀ ws requests, Tiles 0 ws content.length →
        List.Forall₂ (fun w h => HeaderMap.str h "range" = some (rangeText w.1 (w.1 + w.2 - 1)))
          ws requests →
        ∃ parts, requests.mapM (media files c id .get) = some parts ∧
          (∀ part ∈ parts, part.status = .partialContent) ∧
          parts.flatMap Response.body = content) := by
  by_cases hmedia : c.IsMedia id
  · obtain ⟨e, kind, he, hk⟩ := hmedia
    have hr := hfile e kind he hk
    obtain ⟨fileSize, hsize, heq⟩ := media_eq_serveFile he hk hr
    obtain ⟨r, hget, hhead, hlength, hanswer⟩ := serveFile_spec hr hsize kind headers
    refine ⟨r, (heq _ _).trans hget, (heq _ _).trans hhead, ?_, ?_, fun _ => ⟨hlength, hanswer⟩, ?_⟩
    · intro value hvalue
      exact Option.some.inj (hvalue.symm.trans hlength)
    · exact fun hnot => absurd ⟨e, kind, he, hk⟩ hnot
    · intro _ ws requests htiles hreq
      obtain ⟨parts, hparts, hall, hflat⟩ := media_parts he hk hr hreq fun w hw => (htiles.mem hw).2
      exact ⟨parts, hparts, hall, hflat.trans (htiles.flatMap_window content le_rfl)⟩
  · have hnone : ∀ method, media files c id method headers = some StatusCode.notFound.response := by
      intro method
      cases he : c.entry id with
      | none => simp [media, he]
      | some e =>
        cases hk : e.kind with
        | container => simp [media, he, hk]
        | media kind => exact absurd ⟨e, kind, he, hk⟩ hmedia
    refine ⟨_, hnone .get, hnone .head, ?_, fun _ => ⟨rfl, rfl⟩, ?_, ?_⟩
    · intro value hvalue
      simp [Response.header, StatusCode.response] at hvalue
    · exact fun h => absurd h hmedia
    · exact fun h => absurd h hmedia

/-- One song of three bytes, with the id `f`. -/
def sampleSong : Entry where
  id := "f".toList
  parentId := ROOT_ID
  title := "song".toList
  path := ⟨true, [FileTree.osName "song.mp3"]⟩
  kind := .media (audioKind "audio/mpeg")
  size := 3
  modifiedSeconds := 0

def sampleSongCatalog : Catalog :=
  { Catalog.empty with entries := (∅ : TextMap Entry).insert sampleSong.id sampleSong }

def sampleSongFiles : MediaFiles where
  metadata := fun _ => .ok ⟨.file, 3, some 0⟩
  openFile := fun _ => .ok [1, 2, 3]
  seek := fun _ _ => .ok ()

theorem media_correct_song :
    ∃ r, media sampleSongFiles sampleSongCatalog "f".toList .get
        [("range".toList, utf8 "bytes=1-".toList)] = some r ∧
      r.status = .partialContent ∧ r.body = [2, 3] ∧ Answers [1, 2, 3] r := by
  obtain ⟨r, hr, -, -, -, hanswer, -⟩ := media_correct sampleSongFiles sampleSongCatalog "f".toList
    [("range".toList, utf8 "bytes=1-".toList)] [1, 2, 3]
    fun e kind _ _ => ⟨⟨_, rfl, rfl, rfl⟩, rfl, fun _ => rfl⟩
  have hmedia : sampleSongCatalog.IsMedia "f".toList := ⟨sampleSong, _, by decide, rfl⟩
  have hvalue : (media sampleSongFiles sampleSongCatalog "f".toList .get
      [("range".toList, utf8 "bytes=1-".toList)]).map (fun r => (r.status, r.body)) =
      some (.partialContent, [2, 3]) := by decide +kernel
  rw [hr] at hvalue
  obtain ⟨hstatus, hbody⟩ := Prod.mk.inj (Option.some.inj hvalue)
  exact ⟨r, hr, hstatus, hbody, (hanswer hmedia).2⟩

end JoeDlna
