import JoeDlna.Lib.Numerals
import JoeDlna.Media

/-!
# The `Range` header

The grammar of a header with a single range of bytes, and what such a range means for a file of a given
size. `parse_range` reads its numbers with `u64::from_str`, which takes a plus sign before the digits and
refuses numbers from `2 ^ 64` on.

* `parseRange_eq_ok_iff` — `parse_range` accepts this grammar over the numbers it reads;
* `meets_iff` — when that is the grammar over the numerals.
-/

namespace JoeDlna

open Lib

/-- **The ranges of bytes**, over a format of numbers: from a first byte to the end of the file or to a
last byte, or a number of bytes at the end of the file. -/
inductive SingleRange (Num : Text → ℕ → Prop) (size : ℕ) : Text → ℕ → ℕ → Prop
  | openEnd {d : Text} {first : ℕ} : Num d first → first < size →
    SingleRange Num size ("bytes=".toList ++ (d ++ ['-'])) first (size - 1)
  | bounded {d d' : Text} {first last : ℕ} : Num d first → Num d' last → first ≤ last → first < size →
    SingleRange Num size ("bytes=".toList ++ (d ++ '-' :: d')) first (min last (size - 1))
  | suffix {d : Text} {length : ℕ} : Num d length → 0 < length →
    SingleRange Num size ("bytes=".toList ++ '-' :: d) (size - min length size) (size - 1)

/-- The numbers that `u64::from_str` reads. -/
def U64Number (s : Text) (n : ℕ) : Prop := parseUnsigned (2 ^ 64 - 1) s = some n

theorem u64Number_iff {s : Text} {n : ℕ} :
    U64Number s n ↔ n < 2 ^ 64 ∧ (Numeral s n ∨ PlusNumeral s n) := by
  unfold U64Number
  rw [parseUnsigned_eq_some_iff]
  exact and_congr_left fun _ => by omega

theorem U64Number.lt {s : Text} {n : ℕ} (h : U64Number s n) : n < 2 ^ 64 := (u64Number_iff.1 h).1

theorem U64Number.ne_nil {s : Text} {n : ℕ} (h : U64Number s n) : s ≠ [] := by
  rintro rfl
  cases h

theorem U64Number.unique {s : Text} {m n : ℕ} (hm : U64Number s m) (hn : U64Number s n) : m = n :=
  Option.some.inj (hm.symm.trans hn)

theorem parseU64_eq_ok_iff {s : Text} {x : UInt64} : parseU64 s = .ok x ↔ U64Number s x.toNat := by
  unfold parseU64 U64Number
  cases h : parseUnsigned (2 ^ 64 - 1) s with
  | none => simp
  | some n =>
    have hn : (UInt64.ofNat n).toNat = n := UInt64.toNat_ofNat_of_lt' (Nat.lt_of_le_pred (by decide)
      (le_of_parseUnsigned h))
    rw [Except.ok.injEq, Option.some.injEq, ← UInt64.toNat_inj, hn]

/-! ### What is accepted -/

section Accept

variable {size : UInt64}

theorem toNat_size_sub_one (h0 : size ≠ 0) : (size - 1).toNat = size.toNat - 1 :=
  UInt64.toNat_sub_of_le _ _ (one_le_of_ne_zero h0)

theorem toNat_pos (h0 : size ≠ 0) : 0 < size.toNat :=
  Nat.pos_of_ne_zero fun h => h0 (UInt64.toNat_inj.1 h)

theorem toNat_min (a b : UInt64) : (min a b).toNat = min a.toNat b.toNat := by
  show (if a ≤ b then a else b).toNat = _
  split
  · next h => rw [min_eq_left (UInt64.le_iff_toNat_le.1 h)]
  · next h =>
    rw [UInt64.le_iff_toNat_le] at h
    rw [min_eq_right (by omega)]

theorem uint64_min_self (a : UInt64) : min a a = a := UInt64.toNat_inj.1 (by rw [toNat_min, min_self])

theorem parseU64_of_u64Number {s : Text} {n : ℕ} (h : U64Number s n) :
    parseU64 s = .ok (UInt64.ofNat n) ∧ (UInt64.ofNat n).toNat = n := by
  have hn : (UInt64.ofNat n).toNat = n := UInt64.toNat_ofNat_of_lt' h.lt
  exact ⟨parseU64_eq_ok_iff.2 (by rwa [hn]), hn⟩

/-- A suffix range, by the text of its length. -/
theorem rangeEnds_nil_eq_ok_iff (h0 : size ≠ 0) {end_ : Text} {ends : UInt64 × UInt64} :
    rangeEnds [] end_ size = .ok ends ↔ ∃ length, U64Number end_ length ∧ 0 < length ∧
      ends.1.toNat = size.toNat - length ∧ ends.2 = size - 1 := by
  unfold rangeEnds
  rw [if_pos rfl, checkedSub_one h0]
  constructor
  · intro h
    obtain ⟨suffix, hsuffix, h⟩ := except_bind_eq_ok h
    obtain ⟨hne, h⟩ := guard_eq_ok h
    obtain rfl := Except.ok.inj h
    refine ⟨suffix.toNat, parseU64_eq_ok_iff.1 hsuffix, ?_, toNat_saturatingSub size suffix, rfl⟩
    exact toNat_pos hne
  · rintro ⟨length, hlength, hpos, hstart, hend⟩
    obtain ⟨hparse, hvalue⟩ := parseU64_of_u64Number hlength
    have hne : UInt64.ofNat length ≠ 0 := by
      intro hzero
      rw [hzero] at hvalue
      exact hpos.ne hvalue
    rw [hparse]
    show (if UInt64.ofNat length = 0 then _ else _) = _
    rw [if_neg hne]
    refine congrArg Except.ok (Prod.ext (UInt64.toNat_inj.1 ?_) hend.symm)
    rw [toNat_saturatingSub, hvalue, hstart]

/-- A range with a first byte, by the texts of its ends. -/
theorem rangeEnds_eq_ok_iff (h0 : size ≠ 0) {start end_ : Text} (hstart : start ≠ []) {ends : UInt64 × UInt64} :
    rangeEnds start end_ size = .ok ends ↔ U64Number start ends.1.toNat ∧
      (end_ = [] ∧ ends.2 = size - 1 ∨
        ∃ last, U64Number end_ last ∧ ends.2.toNat = min last (size.toNat - 1)) := by
  have hends : rangeEnds start end_ size = parseU64 start >>= fun first =>
      if end_ = [] then .ok (first, size - 1)
      else parseU64 end_ >>= fun last => .ok (first, min last (size - 1)) := by
    unfold rangeEnds
    rw [if_neg hstart, checkedSub_one h0]
    refine bind_congr fun first => ?_
    by_cases hnil : end_ = []
    · rw [if_pos hnil, if_pos hnil]
      exact congrArg (fun last => Except.ok (first, last)) (uint64_min_self (size - 1))
    · rw [if_neg hnil, if_neg hnil]
      rfl
  rw [hends]
  constructor
  · intro h
    obtain ⟨first, hfirst, h⟩ := except_bind_eq_ok h
    split at h
    · next hnil =>
      obtain rfl := Except.ok.inj h
      exact ⟨parseU64_eq_ok_iff.1 hfirst, .inl ⟨hnil, rfl⟩⟩
    · obtain ⟨last, hlast, h⟩ := except_bind_eq_ok h
      obtain rfl := Except.ok.inj h
      refine ⟨parseU64_eq_ok_iff.1 hfirst, .inr ⟨last.toNat, parseU64_eq_ok_iff.1 hlast, ?_⟩⟩
      rw [toNat_min, toNat_size_sub_one h0]
  · rintro ⟨hfirst, hend⟩
    rw [parseU64_eq_ok_iff.2 hfirst]
    show (if end_ = [] then _ else _) = _
    rcases hend with ⟨hnil, hend⟩ | ⟨last, hlast, hend⟩
    · rw [if_pos hnil]
      exact congrArg Except.ok (Prod.ext rfl hend.symm)
    · obtain ⟨hparse, hvalue⟩ := parseU64_of_u64Number hlast
      rw [if_neg hlast.ne_nil, hparse]
      refine congrArg Except.ok (Prod.ext rfl (UInt64.toNat_inj.1 ?_))
      rw [toNat_min, toNat_size_sub_one h0, hvalue, hend]

/-- The header by its parts: there is no comma, and the first text holds no minus. -/
theorem parseRange_parts (h0 : size ≠ 0) {start end_ : Text} (hdash : '-' ∉ start) (hcomma : ',' ∉ start)
    (hcomma' : ',' ∉ end_) {r : ByteRange} :
    parseRange (some ("bytes=".toList ++ (start ++ '-' :: end_))) size = .ok r ↔
      r.isPartial = true ∧ rangeEnds start end_ size = .ok (r.start, r.end_) ∧ r.start < size ∧
        r.start ≤ r.end_ := by
  have hlist : ',' ∉ start ++ '-' :: end_ := by
    rw [List.mem_append, List.mem_cons]
    rintro (h | h | h)
    · exact hcomma h
    · cases h
    · exact hcomma' h
  have hparse : parseRange (some ("bytes=".toList ++ (start ++ '-' :: end_))) size =
      rangeEnds start end_ size >>= fun ends =>
        if ends.1 ≥ size ∨ ends.1 > ends.2 then .error .refused
        else .ok { start := ends.1, end_ := ends.2, isPartial := true } := by
    unfold parseRange
    simp only [if_neg h0, stripPrefix_append, if_neg hlist, splitOnce_append end_ hdash]
    rfl
  rw [hparse]
  constructor
  · intro h
    obtain ⟨ends, hends, h⟩ := except_bind_eq_ok h
    split at h
    · cases h
    · next hin =>
      obtain rfl := Except.ok.inj h
      rw [not_or] at hin
      exact ⟨rfl, hends, UInt64.not_le.1 hin.1, UInt64.not_lt.1 hin.2⟩
  · obtain ⟨start', end', isPartial⟩ := r
    rintro ⟨rfl, hends, hsize, hle⟩
    rw [hends]
    refine if_neg ?_
    rw [not_or]
    exact ⟨UInt64.not_le.2 hsize, UInt64.not_lt.2 hle⟩

/-- A header that is accepted has these parts. -/
theorem parts_of_parseRange (h0 : size ≠ 0) {value : Text} {r : ByteRange}
    (h : parseRange (some value) size = .ok r) :
    ∃ start end_, value = "bytes=".toList ++ (start ++ '-' :: end_) ∧ '-' ∉ start ∧ ',' ∉ start ∧
      ',' ∉ end_ := by
  unfold parseRange at h
  simp only [if_neg h0] at h
  split at h
  · cases h
  · next range hrange =>
    obtain rfl := stripPrefix_eq_some hrange
    split at h
    · cases h
    · next hcomma =>
      split at h
      · cases h
      · next start end_ hsplit =>
        obtain ⟨hdash, rfl⟩ := splitOnce_eq_some hsplit
        rw [List.mem_append, List.mem_cons, not_or, not_or] at hcomma
        exact ⟨start, end_, rfl, hdash, hcomma.1, hcomma.2.2⟩

/-- **What `parse_range` accepts**: the ranges over the numbers that it reads. -/
theorem parseRange_eq_ok_iff (h0 : size ≠ 0) {value : Text} {r : ByteRange} :
    parseRange (some value) size = .ok r ↔
      r.isPartial = true ∧ SingleRange U64Number size.toNat value r.start.toNat r.end_.toNat := by
  constructor
  · intro h
    obtain ⟨start, end_, rfl, hdash, hcomma, hcomma'⟩ := parts_of_parseRange h0 h
    obtain ⟨hpart, hends, hsize, hle⟩ := (parseRange_parts h0 hdash hcomma hcomma').1 h
    rw [UInt64.lt_iff_toNat_lt] at hsize
    rw [UInt64.le_iff_toNat_le] at hle
    refine ⟨hpart, ?_⟩
    by_cases hstart : start = []
    · subst hstart
      obtain ⟨length, hlength, hpos, hfirst, hlast⟩ := (rangeEnds_nil_eq_ok_iff h0).1 hends
      have hrange : SingleRange U64Number size.toNat _ (size.toNat - min length size.toNat) (size.toNat - 1) :=
        .suffix hlength hpos
      have hmin : size.toNat - min length size.toNat = r.start.toNat := by
        rw [show r.start.toNat = _ from hfirst]
        omega
      rw [hmin, ← toNat_size_sub_one h0, ← show r.end_ = size - 1 from hlast] at hrange
      exact hrange
    · obtain ⟨hfirst, hend⟩ := (rangeEnds_eq_ok_iff h0 hstart).1 hends
      rcases hend with ⟨rfl, hend⟩ | ⟨last, hlast, hend⟩
      · have hrange : SingleRange U64Number size.toNat _ r.start.toNat (size.toNat - 1) := .openEnd hfirst hsize
        rw [← toNat_size_sub_one h0, ← show r.end_ = size - 1 from hend] at hrange
        exact hrange
      · rw [show r.end_.toNat = _ from hend] at hle ⊢
        exact .bounded hfirst hlast (hle.trans (min_le_left _ _)) hsize
  · obtain ⟨start, end_, isPartial⟩ := r
    rintro ⟨rfl, hrange⟩
    have hparts : ∀ {d : Text} {n : ℕ}, U64Number d n → '-' ∉ d ∧ ',' ∉ d := fun hd =>
      ⟨notMem_of_parseUnsigned hd (by decide) (by decide), notMem_of_parseUnsigned hd (by decide) (by decide)⟩
    have hsize := toNat_pos h0
    generalize hfirst : start.toNat = first at hrange
    generalize hlast : end_.toNat = last at hrange
    cases hrange with
    | openEnd hd hlt =>
      refine (parseRange_parts h0 (hparts hd).1 (hparts hd).2 List.not_mem_nil).2
        ⟨rfl, (rangeEnds_eq_ok_iff h0 hd.ne_nil).2 ⟨by rwa [hfirst], .inl ⟨rfl, ?_⟩⟩, ?_, ?_⟩
      · rw [← UInt64.toNat_inj, toNat_size_sub_one h0, hlast]
      · rwa [UInt64.lt_iff_toNat_lt, hfirst]
      · rw [UInt64.le_iff_toNat_le, hfirst, hlast]
        exact Nat.le_pred_of_lt hlt
    | bounded hd hd' hle hlt =>
      refine (parseRange_parts h0 (hparts hd).1 (hparts hd).2 (hparts hd').2).2
        ⟨rfl, (rangeEnds_eq_ok_iff h0 hd.ne_nil).2 ⟨by rwa [hfirst], .inr ⟨_, hd', hlast⟩⟩, ?_, ?_⟩
      · rwa [UInt64.lt_iff_toNat_lt, hfirst]
      · rw [UInt64.le_iff_toNat_le, hfirst, hlast]
        exact le_min hle (Nat.le_pred_of_lt hlt)
    | suffix hd hpos =>
      refine (parseRange_parts h0 List.not_mem_nil List.not_mem_nil (hparts hd).2).2
        ⟨rfl, (rangeEnds_nil_eq_ok_iff h0).2 ⟨_, hd, hpos, ?_, ?_⟩, ?_, ?_⟩
      · rw [hfirst]
        omega
      · rw [← UInt64.toNat_inj, toNat_size_sub_one h0, hlast]
      · rw [UInt64.lt_iff_toNat_lt, hfirst]
        omega
      · rw [UInt64.le_iff_toNat_le, hfirst, hlast]
        omega

end Accept

/-! ### The numbers that are misread -/

/-- **The header is read as the grammar says**: it is accepted exactly if it is a range over the numerals,
with the ends of that range, and refused otherwise. -/
structure Meets (size : UInt64) (value : Text) : Prop where
  accepts : ∀ r, parseRange (some value) size = .ok r ↔
    r.isPartial = true ∧ SingleRange Numeral size.toNat value r.start.toNat r.end_.toNat
  refuses : ∀ e, parseRange (some value) size = .error e → e = .refused

/-- The headers whose numbers are misread: the last byte of a range that begins within the file, or the
length of a suffix, is `2 ^ 64` or more; or a number has a plus sign before it, and the header would be a
range without it. -/
inductive Misread (size : ℕ) : Text → Prop
  | hugeLast {d d' : Text} {first last : ℕ} : Numeral d first → Numeral d' last → first < size →
    2 ^ 64 ≤ last → Misread size ("bytes=".toList ++ (d ++ '-' :: d'))
  | hugeSuffix {d : Text} {length : ℕ} : Numeral d length → 2 ^ 64 ≤ length →
    Misread size ("bytes=".toList ++ '-' :: d)
  | plusOpen {d : Text} {first : ℕ} : PlusNumeral d first → first < size →
    Misread size ("bytes=".toList ++ (d ++ ['-']))
  | plusFirst {d d' : Text} {first last : ℕ} : PlusNumeral d first → Numeral d' last ∨ PlusNumeral d' last →
    first ≤ last → first < size → last < 2 ^ 64 → Misread size ("bytes=".toList ++ (d ++ '-' :: d'))
  | plusLast {d d' : Text} {first last : ℕ} : Numeral d first → PlusNumeral d' last → first ≤ last →
    first < size → last < 2 ^ 64 → Misread size ("bytes=".toList ++ (d ++ '-' :: d'))
  | plusSuffix {d : Text} {length : ℕ} : PlusNumeral d length → 0 < length → length < 2 ^ 64 →
    Misread size ("bytes=".toList ++ '-' :: d)

section Meets

variable {size : UInt64}

/-- Without a misread number, the numbers that are read and the numerals give the same ranges. -/
theorem singleRange_iff {value : Text} (hmisread : ¬Misread size.toNat value) {first last : ℕ} :
    SingleRange U64Number size.toNat value first last ↔ SingleRange Numeral size.toNat value first last := by
  have hsize : size.toNat < 2 ^ 64 := size.toNat_lt
  constructor
  · intro h
    cases h with
    | openEnd hd hlt =>
      rcases (u64Number_iff.1 hd).2 with hd | hd
      · exact .openEnd hd hlt
      · exact absurd (.plusOpen hd hlt) hmisread
    | bounded hd hd' hle hlt =>
      obtain ⟨hbound, hlast⟩ := u64Number_iff.1 hd'
      rcases (u64Number_iff.1 hd).2 with hd | hd
      · rcases hlast with hlast | hlast
        · exact .bounded hd hlast hle hlt
        · exact absurd (.plusLast hd hlast hle hlt hbound) hmisread
      · exact absurd (.plusFirst hd hlast hle hlt hbound) hmisread
    | suffix hd hpos =>
      obtain ⟨hbound, hd⟩ := u64Number_iff.1 hd
      rcases hd with hd | hd
      · exact .suffix hd hpos
      · exact absurd (.plusSuffix hd hpos hbound) hmisread
  · intro h
    cases h with
    | openEnd hd hlt => exact .openEnd (u64Number_iff.2 ⟨hlt.trans hsize, .inl hd⟩) hlt
    | bounded hd hd' hle hlt =>
      refine .bounded (u64Number_iff.2 ⟨hlt.trans hsize, .inl hd⟩) (u64Number_iff.2 ⟨?_, .inl hd'⟩) hle hlt
      by_contra hbound
      exact hmisread (.hugeLast hd hd' hlt (Nat.le_of_not_lt hbound))
    | suffix hd hpos =>
      refine .suffix (u64Number_iff.2 ⟨?_, .inl hd⟩) hpos
      by_contra hbound
      exact hmisread (.hugeSuffix hd (Nat.le_of_not_lt hbound))

theorem SingleRange.notMem_plus {n : ℕ} {value : Text} {first last : ℕ}
    (h : SingleRange Numeral n value first last) : '+' ∉ value := by
  have hnumeral : ∀ {d : Text} {k : ℕ}, Numeral d k → '+' ∉ d := fun hd => hd.notMem (by decide)
  cases h with
  | openEnd hd _ => simp [hnumeral hd]
  | bounded hd hd' _ _ => simp [hnumeral hd, hnumeral hd']
  | suffix hd _ => simp [hnumeral hd]

/-- The text after the first minus is empty, or a number. -/
theorem SingleRange.last {n : ℕ} {start end_ : Text} {a b : ℕ} (hdash : '-' ∉ start)
    (h : SingleRange U64Number n ("bytes=".toList ++ (start ++ '-' :: end_)) a b) :
    end_ = [] ∨ ∃ k, U64Number end_ k := by
  have hnumber : ∀ {d : Text} {k : ℕ}, U64Number d k → '-' ∉ d := fun hd =>
    notMem_of_parseUnsigned hd (by decide) (by decide)
  have hsplit : ∀ {d d' : Text}, '-' ∉ d → "bytes=".toList ++ (start ++ '-' :: end_) =
      "bytes=".toList ++ (d ++ '-' :: d') → end_ = d' := by
    intro d d' hd heq
    have hparts := congrArg (splitOnce '-') (List.append_cancel_left heq)
    rw [splitOnce_append _ hdash, splitOnce_append _ hd] at hparts
    exact (Prod.mk.inj (Option.some.inj hparts)).2
  generalize hvalue : "bytes=".toList ++ (start ++ '-' :: end_) = value at h
  cases h with
  | openEnd hd _ => exact .inl (hsplit (hnumber hd) hvalue)
  | bounded hd hd' _ _ => exact .inr ⟨_, (hsplit (hnumber hd) hvalue).symm ▸ hd'⟩
  | suffix hd _ => exact .inr ⟨_, (hsplit List.not_mem_nil hvalue).symm ▸ hd⟩

theorem SingleRange.lt {Num : Text → ℕ → Prop} {n : ℕ} (hn : 0 < n) {value : Text} {a b : ℕ}
    (h : SingleRange Num n value a b) : a < n ∧ b < n := by
  cases h with
  | openEnd _ hlt => exact ⟨hlt, Nat.sub_lt hn Nat.one_pos⟩
  | bounded _ _ _ hlt => exact ⟨hlt, by omega⟩
  | suffix _ hpos => exact ⟨by omega, by omega⟩

/-- Where the header is read as the grammar says, both formats of numbers give the same ranges. -/
theorem Meets.singleRange_iff {value : Text} (hm : Meets size value) (h0 : size ≠ 0) {a b : ℕ} :
    SingleRange U64Number size.toNat value a b ↔ SingleRange Numeral size.toNat value a b := by
  have hsize : size.toNat < 2 ^ 64 := size.toNat_lt
  have hboth : a < size.toNat ∧ b < size.toNat →
      (SingleRange U64Number size.toNat value a b ↔ SingleRange Numeral size.toNat value a b) := by
    rintro ⟨ha, hb⟩
    have ha' : (UInt64.ofNat a).toNat = a := UInt64.toNat_ofNat_of_lt' (ha.trans hsize)
    have hb' : (UInt64.ofNat b).toNat = b := UInt64.toNat_ofNat_of_lt' (hb.trans hsize)
    have haccepts := (parseRange_eq_ok_iff h0).symm.trans (hm.accepts ⟨UInt64.ofNat a, UInt64.ofNat b, true⟩)
    simp only [ha', hb', true_and] at haccepts
    exact haccepts
  exact ⟨fun h => (hboth (h.lt (toNat_pos h0))).1 h, fun h => (hboth (h.lt (toNat_pos h0))).2 h⟩

theorem Meets.not_misread {value : Text} (hm : Meets size value) (h0 : size ≠ 0) :
    ¬Misread size.toNat value := by
  have hsize : size.toNat < 2 ^ 64 := size.toNat_lt
  have hhuge : ∀ {start d : Text} {a b n : ℕ}, '-' ∉ start → Numeral d n → 2 ^ 64 ≤ n →
      value = "bytes=".toList ++ (start ++ '-' :: d) → ¬SingleRange Numeral size.toNat value a b := by
    rintro start d a b n hdash hd hn rfl h
    rcases ((hm.singleRange_iff h0).2 h).last hdash with rfl | ⟨k, hk⟩
    · exact hd.1 rfl
    · obtain ⟨hbound, hk | ⟨digits, rfl, -⟩⟩ := u64Number_iff.1 hk
      · rw [hd.unique hk] at hn
        omega
      · exact hd.notMem (c := '+') (by decide) List.mem_cons_self
  have hplus : ∀ {a b : ℕ}, SingleRange U64Number size.toNat value a b → '+' ∉ value :=
    fun h => ((hm.singleRange_iff h0).1 h).notMem_plus
  intro h
  cases h with
  | hugeLast hd hd' hlt hge =>
    exact hhuge (hd.notMem (by decide)) hd' hge rfl (.bounded hd hd' (by omega) hlt)
  | hugeSuffix hd hge => exact hhuge List.not_mem_nil hd hge rfl (.suffix hd (by omega))
  | plusOpen hd hlt =>
    refine hplus (.openEnd (u64Number_iff.2 ⟨hlt.trans hsize, .inr hd⟩) hlt) ?_
    obtain ⟨digits, rfl, -⟩ := hd
    simp
  | plusFirst hd hd' hle hlt hbound =>
    refine hplus (.bounded (u64Number_iff.2 ⟨hlt.trans hsize, .inr hd⟩) (u64Number_iff.2 ⟨hbound, hd'⟩)
      hle hlt) ?_
    obtain ⟨digits, rfl, -⟩ := hd
    simp
  | plusLast hd hd' hle hlt hbound =>
    refine hplus (.bounded (u64Number_iff.2 ⟨hlt.trans hsize, .inl hd⟩) (u64Number_iff.2 ⟨hbound, .inr hd'⟩)
      hle hlt) ?_
    obtain ⟨digits, rfl, -⟩ := hd'
    simp
  | plusSuffix hd hpos hbound =>
    refine hplus (.suffix (u64Number_iff.2 ⟨hbound, .inr hd⟩) hpos) ?_
    obtain ⟨digits, rfl, -⟩ := hd
    simp

/-- **When a range header is read as the grammar says**, for a file that is not empty: exactly if none of
its numbers is misread. -/
theorem meets_iff (h0 : size ≠ 0) (value : Text) : Meets size value ↔ ¬Misread size.toNat value := by
  constructor
  · intro hm
    exact hm.not_misread h0
  · intro hmisread
    constructor
    · intro r
      exact (parseRange_eq_ok_iff h0).trans (and_congr_right fun _ => singleRange_iff hmisread)
    · intro e he
      rcases parseRange_spec (some value) size with ⟨hnone, -⟩ | hrefused | ⟨start, end_, hok, -⟩
      · cases hnone
      · exact Except.error.inj (he.symm.trans hrefused)
      · rw [hok] at he
        cases he

theorem meets_suffix :
    Meets 10 "bytes=-3".toList ↔ ¬Misread (10 : UInt64).toNat "bytes=-3".toList :=
  meets_iff (by decide) _

/-- A plus sign is accepted, and a last byte far beyond the file is refused. -/
theorem plus_and_huge_misread :
    ¬(∀ size value, size ≠ 0 → Meets size value) ∧ ¬Meets 10 "bytes=+2-5".toList ∧
      ¬Meets 10 "bytes=2-18446744073709551616".toList := by
  have hplus : ¬Meets 10 "bytes=+2-5".toList := by
    intro hm
    have hok : parseRange (some "bytes=+2-5".toList) 10 = .ok ⟨2, 5, true⟩ := rfl
    exact absurd ((hm.accepts _).1 hok).2.notMem_plus (by decide)
  have hhuge : ¬Meets 10 "bytes=2-18446744073709551616".toList := by
    intro hm
    have hrefused : parseRange (some "bytes=2-18446744073709551616".toList) 10 = .error .refused := rfl
    have htwo : Numeral ['2'] 2 := numeral_decimal 2
    have hlast : Numeral "18446744073709551616".toList 18446744073709551616 :=
      ⟨by simp, List.all_eq_true.1 rfl, by decide +kernel⟩
    have hrange : SingleRange Numeral 10
        ("bytes=".toList ++ (['2'] ++ '-' :: "18446744073709551616".toList)) 2
          (min 18446744073709551616 (10 - 1)) := .bounded htwo hlast (by omega) (by omega)
    rw [Nat.min_eq_right (by omega)] at hrange
    have hok := (hm.accepts ⟨2, 9, true⟩).2 ⟨rfl, hrange⟩
    rw [hrefused] at hok
    cases hok
  exact ⟨fun hall => hplus (hall 10 _ (by decide)), hplus, hhuge⟩

end Meets

end JoeDlna
