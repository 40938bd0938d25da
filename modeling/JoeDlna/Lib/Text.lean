import Mathlib

/-!
# Text

Strings as lists of characters: cutting at a separator, reading and writing numbers.

* `splitOnce`, `rsplitOnce` — the two parts around the first or the last separator;
* `trimMatches` — both ends without the characters of a predicate;
* `decimal`, `hexPadded` — a number in base ten, and in base sixteen with leading zeros;
* `parseUnsigned` — the number a decimal text names, up to a bound.
-/

namespace JoeDlna.Lib

/-- A string, as the list of its characters. -/
abbrev Text := List Char

instance : LawfulBEq Text := inferInstance

/-! ### Cutting at a separator -/

section Split

variable {α : Type*} [DecidableEq α]

/-- The parts before and after the first `p`. -/
def splitOnce (p : α) : List α → Option (List α × List α)
  | [] => none
  | c :: cs => if c = p then some ([], cs) else (splitOnce p cs).map fun ab => (c :: ab.1, ab.2)

/-- The parts before and after the last `p`. -/
def rsplitOnce (p : α) (s : List α) : Option (List α × List α) :=
  (splitOnce p s.reverse).map fun ab => (ab.2.reverse, ab.1.reverse)

/-- The parts between the separators `p`; one more than there are separators. -/
def splitOn (p : α) : List α → List (List α)
  | [] => [[]]
  | c :: cs =>
    if c = p then [] :: splitOn p cs
    else match splitOn p cs with
      | [] => [[c]]
      | part :: parts => (c :: part) :: parts

/-- The rest of `s` after `p`, when `s` begins with `p`. -/
def stripPrefix : List α → List α → Option (List α)
  | [], s => some s
  | _ :: _, [] => none
  | c :: p, d :: s => if c = d then stripPrefix p s else none

@[simp] theorem splitOnce_append {p : α} {s : List α} (t : List α) (h : p ∉ s) :
    splitOnce p (s ++ p :: t) = some (s, t) := by
  induction s with
  | nil => simp [splitOnce]
  | cons c s ih =>
    obtain ⟨hc, hs⟩ := not_or.1 (fun hm => h (List.mem_cons.2 hm))
    simp [splitOnce, Ne.symm hc, ih hs]

theorem splitOnce_eq_none {p : α} {s : List α} (h : p ∉ s) : splitOnce p s = none := by
  induction s with
  | nil => rfl
  | cons c s ih =>
    obtain ⟨hc, hs⟩ := not_or.1 (fun hm => h (List.mem_cons.2 hm))
    simp [splitOnce, Ne.symm hc, ih hs]

theorem splitOnce_eq_some {p : α} {s a b : List α} (h : splitOnce p s = some (a, b)) :
    p ∉ a ∧ s = a ++ p :: b := by
  induction s generalizing a with
  | nil => simp [splitOnce] at h
  | cons c s ih =>
    by_cases hc : c = p
    · simp only [splitOnce, hc, if_true, Option.some.injEq, Prod.mk.injEq] at h
      obtain ⟨rfl, rfl⟩ := h
      simp [hc]
    · simp only [splitOnce, hc, if_false, Option.map_eq_some_iff, Prod.mk.injEq] at h
      obtain ⟨⟨x, y⟩, hs, rfl, rfl⟩ := h
      obtain ⟨hx, rfl⟩ := ih hs
      exact ⟨fun hm => (List.mem_cons.1 hm).elim (Ne.symm hc) hx, rfl⟩

theorem rsplitOnce_append {p : α} {t : List α} (s : List α) (h : p ∉ t) :
    rsplitOnce p (s ++ p :: t) = some (s, t) := by
  have := splitOnce_append s.reverse (p := p) (s := t.reverse) (by simpa using h)
  simp [rsplitOnce, this]

theorem rsplitOnce_eq_some {p : α} {s a b : List α} (h : rsplitOnce p s = some (a, b)) :
    p ∉ b ∧ s = a ++ p :: b := by
  obtain ⟨⟨x, y⟩, hs, heq⟩ := Option.map_eq_some_iff.1 h
  obtain ⟨rfl, rfl⟩ := Prod.mk.inj heq
  obtain ⟨hx, hs⟩ := splitOnce_eq_some hs
  refine ⟨by simpa using hx, ?_⟩
  rw [← List.reverse_reverse s, hs]
  simp

@[simp] theorem splitOn_append {p : α} {s : List α} (t : List α) (h : p ∉ s) :
    splitOn p (s ++ p :: t) = s :: splitOn p t := by
  induction s with
  | nil => simp [splitOn]
  | cons c s ih =>
    obtain ⟨hc, hs⟩ := not_or.1 (fun hm => h (List.mem_cons.2 hm))
    simp [splitOn, Ne.symm hc, ih hs]

theorem splitOn_of_notMem {p : α} {s : List α} (h : p ∉ s) : splitOn p s = [s] := by
  induction s with
  | nil => rfl
  | cons c s ih =>
    obtain ⟨hc, hs⟩ := not_or.1 (fun hm => h (List.mem_cons.2 hm))
    simp [splitOn, Ne.symm hc, ih hs]

theorem splitOn_ne_nil (p : α) (s : List α) : splitOn p s ≠ [] := by
  cases s with
  | nil => simp [splitOn]
  | cons c s =>
    unfold splitOn
    split
    · simp
    · split <;> simp

/-- The parts between the separators, put together again. -/
theorem intercalate_splitOn (p : α) (s : List α) : List.intercalate [p] (splitOn p s) = s := by
  induction s with
  | nil => rfl
  | cons c s ih =>
    obtain ⟨part, parts, hs⟩ := List.exists_cons_of_ne_nil (splitOn_ne_nil p s)
    rw [hs] at ih
    unfold splitOn
    split
    · next hc =>
      rw [hs, List.intercalate_cons_cons, ih, hc]
      rfl
    · rw [hs]
      cases parts with
      | nil =>
        rw [List.intercalate_singleton] at ih ⊢
        rw [ih]
      | cons next parts =>
        rw [List.intercalate_cons_cons] at ih ⊢
        rw [← ih]
        simp

/-- A part between separators has no separator. -/
theorem notMem_of_mem_splitOn {p : α} {s part : List α} (h : part ∈ splitOn p s) : p ∉ part := by
  induction s generalizing part with
  | nil =>
    obtain rfl := List.mem_singleton.1 h
    simp
  | cons c s ih =>
    unfold splitOn at h
    split at h
    · rcases List.mem_cons.1 h with rfl | h
      · simp
      · exact ih h
    · next hc =>
      split at h
      · next hnil => exact absurd hnil (splitOn_ne_nil p s)
      · next first parts hs =>
        rcases List.mem_cons.1 h with rfl | h
        · have hfirst := ih (hs ▸ List.mem_cons_self)
          simp [Ne.symm hc, hfirst]
        · exact ih (hs ▸ List.mem_cons_of_mem first h)

@[simp] theorem stripPrefix_append (p s : List α) : stripPrefix p (p ++ s) = some s := by
  induction p with
  | nil => rfl
  | cons c p ih => simpa [stripPrefix] using ih

theorem stripPrefix_eq_some {p s r : List α} (h : stripPrefix p s = some r) : s = p ++ r := by
  induction p generalizing s with
  | nil => simpa [stripPrefix] using h
  | cons c p ih =>
    cases s with
    | nil => simp [stripPrefix] at h
    | cons d s =>
      by_cases hc : c = d
      · simp only [stripPrefix, hc, if_true] at h
        rw [ih h, hc, List.cons_append]
      · simp [stripPrefix, hc] at h

end Split

/-- `s` without the characters of `p` at either end. -/
def trimMatches (p : Char → Bool) (s : Text) : Text :=
  ((s.dropWhile p).reverse.dropWhile p).reverse

/-- Trimming reaches neither past a character outside `p` nor into a part that has none of `p`. -/
theorem trimMatches_append {p : Char → Bool} {c : Char} {s t : Text} (hc : p c = false)
    (ht : ∀ d ∈ t, p d = false) :
    trimMatches p (s ++ c :: t) = s.dropWhile p ++ c :: t := by
  have hfirst : (s ++ c :: t).dropWhile p = s.dropWhile p ++ c :: t := by
    rw [List.dropWhile_append]
    by_cases he : (s.dropWhile p).isEmpty
    · simp [List.isEmpty_iff.1 he, hc]
    · simp [he]
  have hlast : ∀ d ∈ (c :: t).reverse, p d = false := by
    intro d hd
    rcases List.mem_cons.1 (List.mem_reverse.1 hd) with rfl | hd
    · exact hc
    · exact ht d hd
  rw [trimMatches, hfirst, List.reverse_append]
  obtain ⟨d, r, hr⟩ := List.exists_cons_of_ne_nil (l := (c :: t).reverse) (by simp)
  rw [hr, List.cons_append, List.dropWhile_cons_of_neg (by simp [hlast d (by simp [hr])]),
    ← List.cons_append, ← hr, ← List.reverse_append, List.reverse_reverse]

/-- Trimming stops at characters outside `p` on either side. -/
theorem trimMatches_between {p : Char → Bool} {a s t : Text} {c d : Char} (ha : ∀ x ∈ a, p x = true)
    (hc : p c = false) (hd : p d = false) :
    trimMatches p (a ++ c :: (s ++ d :: t)) = c :: (s ++ d :: t.rdropWhile p) := by
  have hfirst : (a ++ c :: (s ++ d :: t)).dropWhile p = c :: (s ++ d :: t) := by
    rw [List.dropWhile_append, List.dropWhile_eq_nil_iff.2 ha]
    simp [hc]
  have hlast : (c :: (s ++ d :: t)).reverse.dropWhile p = t.reverse.dropWhile p ++ d :: (c :: s).reverse := by
    have hsplit : (c :: (s ++ d :: t)).reverse = t.reverse ++ d :: (c :: s).reverse := by simp
    rw [hsplit, List.dropWhile_append]
    by_cases he : (t.reverse.dropWhile p).isEmpty
    · simp [List.isEmpty_iff.1 he, hd]
    · simp [he]
  rw [trimMatches, hfirst, hlast]
  simp [List.rdropWhile]

/-- What is left after trimming stands between characters of `p`. -/
theorem exists_trimMatches (p : Char → Bool) (s : Text) :
    ∃ a b, s = a ++ trimMatches p s ++ b ∧ ∀ c ∈ a, p c = true := by
  refine ⟨s.takeWhile p, (s.dropWhile p).rtakeWhile p, ?_, fun c hc => List.mem_takeWhile_imp hc⟩
  have hrest : trimMatches p s ++ (s.dropWhile p).rtakeWhile p = s.dropWhile p := by
    unfold trimMatches List.rtakeWhile
    rw [← List.reverse_append, List.takeWhile_append_dropWhile, List.reverse_reverse]
  rw [List.append_assoc, hrest, List.takeWhile_append_dropWhile]

/-- A last character that is trimmed does not matter. -/
theorem trimMatches_concat {p : Char → Bool} {c : Char} (hc : p c = true) (s : Text) :
    trimMatches p (s ++ [c]) = trimMatches p s := by
  unfold trimMatches
  rw [List.dropWhile_append]
  split
  · next hempty =>
    rw [List.isEmpty_iff.1 hempty, List.dropWhile_cons_of_pos hc]
    rfl
  · rw [List.reverse_append, List.reverse_singleton, List.singleton_append, List.dropWhile_cons_of_pos hc]

/-- Nothing is trimmed of a text that has no character to trim. -/
theorem trimMatches_of_forall {p : Char → Bool} {s : Text} (h : ∀ c ∈ s, p c = false) : trimMatches p s = s := by
  cases s with
  | nil => rfl
  | cons c s =>
    have htrim := trimMatches_append (s := []) (h c List.mem_cons_self) fun d hd => h d (List.mem_cons_of_mem c hd)
    exact htrim

theorem mem_trimMatches {p : Char → Bool} {s : Text} {c : Char} (h : c ∈ trimMatches p s) : c ∈ s := by
  have h := (List.dropWhile_sublist p).subset (List.mem_reverse.1 h)
  exact (List.dropWhile_sublist p).subset (List.mem_reverse.1 h)

/-! ### Numbers -/

/-- `n` in base ten. -/
def decimal (n : ℕ) : Text := Nat.toDigits 10 n

/-- `n` in base sixteen, with leading zeros up to `width` digits. -/
def hexPadded (width n : ℕ) : Text := (Nat.toDigits 16 n).leftpad width '0'

theorem isAlphanum_of_mem_toDigits {n : ℕ} {c : Char} (h : c ∈ Nat.toDigits 16 n) : c.isAlphanum = true := by
  have hdigit : ∀ d < 16, (Nat.digitChar d).isAlphanum = true := by decide
  induction n using Nat.strongRecOn with
  | ind n ih =>
    rw [Nat.toDigits_eq_if (by decide)] at h
    split at h
    · next hlt =>
      obtain rfl := List.mem_singleton.1 h
      exact hdigit n hlt
    · next hle =>
      rcases List.mem_append.1 h with h | h
      · exact ih (n / 16) (by omega) h
      · obtain rfl := List.mem_singleton.1 h
        exact hdigit (n % 16) (by omega)

theorem isAlphanum_of_mem_hexPadded {width n : ℕ} {c : Char} (h : c ∈ hexPadded width n) :
    c.isAlphanum = true := by
  rcases List.mem_append.1 h with h | h
  · rw [List.eq_of_mem_replicate h]
    decide
  · exact isAlphanum_of_mem_toDigits h

/-- The number that hexadecimal digits show. -/
def ofHexChars (s : Text) : ℕ :=
  s.foldl (fun n c => 16 * n + (if c.isDigit then c.toNat - '0'.toNat else c.toNat - 'a'.toNat + 10)) 0

theorem ofHexChars_toDigits (n : ℕ) : ofHexChars (Nat.toDigits 16 n) = n := by
  have hdigit : ∀ d < 16, ofHexChars [Nat.digitChar d] = d := by decide
  induction n using Nat.strongRecOn with
  | ind n ih =>
    rw [Nat.toDigits_eq_if (by decide)]
    split
    · next hlt => exact hdigit n hlt
    · next hle =>
      have hlast := hdigit (n % 16) (by omega)
      have hrest := ih (n / 16) (by omega)
      unfold ofHexChars at hlast hrest ⊢
      rw [List.foldl_append, hrest]
      simp only [List.foldl_cons, List.foldl_nil, Nat.mul_zero, Nat.zero_add] at hlast ⊢
      rw [hlast]
      omega

theorem hexPadded_injective (width : ℕ) : Function.Injective (hexPadded width) := by
  have hzeros : ∀ (k : ℕ) (s : Text), ofHexChars (List.replicate k '0' ++ s) = ofHexChars s := by
    intro k s
    induction k with
    | zero => rfl
    | succ k ih => exact ih
  have hvalue : ∀ n, ofHexChars (hexPadded width n) = n := fun n => (hzeros _ _).trans (ofHexChars_toDigits n)
  exact Function.LeftInverse.injective hvalue

theorem length_hexPadded {width n : ℕ} (hwidth : 0 < width) (h : n < 16 ^ width) :
    (hexPadded width n).length = width := by
  rw [hexPadded, List.length_leftpad]
  exact max_eq_left ((Nat.length_toDigits_le_iff (by decide) hwidth).2 h)

/-- One more digit of a number that may not pass `max`. -/
def pushDigit (max acc : ℕ) (c : Char) : Option ℕ :=
  if c.isDigit ∧ 10 * acc + (c.toNat - '0'.toNat) ≤ max then some (10 * acc + (c.toNat - '0'.toNat))
  else none

/-- A number without the `+` it may begin with. -/
def dropPlus : Text → Text
  | '+' :: digits => digits
  | digits => digits

/-- The number a decimal text names: an optional `+`, then at least one digit; nothing for a
number above `max`. -/
def parseUnsigned (max : ℕ) (s : Text) : Option ℕ :=
  if dropPlus s = [] then none else (dropPlus s).foldlM (pushDigit max) 0

theorem isDigit_of_mem_decimal {n : ℕ} {c : Char} (h : c ∈ decimal n) : c.isDigit :=
  Nat.isDigit_of_mem_toDigits (by decide) le_rfl h

theorem decimal_ne_nil (n : ℕ) : decimal n ≠ [] := Nat.toDigits_ne_nil

theorem decimal_injective : Function.Injective decimal := by
  intro m n h
  have := congrArg (fun s => Nat.ofDigitChars 10 s 0) h
  simpa [decimal] using this

theorem notMem_decimal {n : ℕ} {c : Char} (h : c.isDigit = false) : c ∉ decimal n := by
  intro hc
  simp [isDigit_of_mem_decimal hc] at h

theorem le_ofDigitChars (s : Text) (acc : ℕ) : acc ≤ Nat.ofDigitChars 10 s acc := by
  rw [Nat.ofDigitChars_eq_ofDigitChars_zero]
  have : 1 ≤ 10 ^ s.length := Nat.one_le_pow _ _ (by decide)
  nlinarith

theorem foldlM_pushDigit (max : ℕ) {s : Text} (h : ∀ c ∈ s, c.isDigit) {acc : ℕ} (hacc : acc ≤ max) :
    s.foldlM (pushDigit max) acc =
      if Nat.ofDigitChars 10 s acc ≤ max then some (Nat.ofDigitChars 10 s acc) else none := by
  induction s generalizing acc with
  | nil => simp [hacc]
  | cons c s ih =>
    have hc := h c (by simp)
    have hs := fun d hd => h d (List.mem_cons_of_mem c hd)
    rw [List.foldlM_cons, Nat.ofDigitChars_cons]
    by_cases hv : 10 * acc + (c.toNat - '0'.toNat) ≤ max
    · rw [pushDigit, if_pos ⟨hc, hv⟩]
      exact ih hs hv
    · have := le_ofDigitChars s (10 * acc + (c.toNat - '0'.toNat))
      rw [pushDigit, if_neg (fun hp => hv hp.2), if_neg (by omega)]
      rfl

theorem dropPlus_digits {s : Text} (h : ∀ c ∈ s, c.isDigit) : dropPlus s = s := by
  unfold dropPlus
  split
  · exact absurd (h '+' (by simp)) (by decide)
  · rfl

theorem parseUnsigned_digits (max : ℕ) {s : Text} (hne : s ≠ []) (h : ∀ c ∈ s, c.isDigit) :
    parseUnsigned max s =
      if Nat.ofDigitChars 10 s 0 ≤ max then some (Nat.ofDigitChars 10 s 0) else none := by
  rw [parseUnsigned, dropPlus_digits h, if_neg hne]
  exact foldlM_pushDigit max h (Nat.zero_le max)

theorem parseUnsigned_decimal {max n : ℕ} (h : n ≤ max) : parseUnsigned max (decimal n) = some n := by
  rw [parseUnsigned_digits max (decimal_ne_nil n) fun c hc => isDigit_of_mem_decimal hc]
  simp [decimal, h]

theorem digitChar_of_isDigit {c : Char} (h : c.isDigit) :
    c.toNat - '0'.toNat < 10 ∧ Nat.digitChar (c.toNat - '0'.toNat) = c := by
  obtain ⟨n, hn⟩ : ∃ n, n = c.toNat := ⟨_, rfl⟩
  have hc : c = Char.ofNat n := by rw [hn, Char.ofNat_toNat]
  have hbounds : 48 ≤ n ∧ n ≤ 57 := by
    simp only [Char.isDigit, Bool.and_eq_true, decide_eq_true_eq, ge_iff_le, UInt32.le_iff_toNat_le] at h
    rw [hn]
    exact h
  subst hc
  obtain ⟨hlo, hhi⟩ := hbounds
  clear hn h
  interval_cases n <;> decide

/-- Digits without a leading zero are a number in base ten. -/
theorem decimal_ofDigitChars {s : Text} (hne : s ≠ []) (hdigits : ∀ c ∈ s, c.isDigit)
    (hzero : s.head? ≠ some '0' ∨ s.length = 1) : decimal (Nat.ofDigitChars 10 s 0) = s := by
  induction s using List.reverseRecOn with
  | nil => exact absurd rfl hne
  | append_singleton t c ih =>
    obtain ⟨hlt, hc⟩ := digitChar_of_isDigit (hdigits c (by simp))
    rw [Nat.ofDigitChars_append, Nat.ofDigitChars_cons, Nat.ofDigitChars_nil]
    cases t with
    | nil =>
      rw [Nat.ofDigitChars_nil, decimal, Nat.toDigits_of_lt_base (by omega)]
      simpa using hc
    | cons d t =>
      have hzero : d ≠ '0' := by simpa using hzero
      have ih := ih (by simp) (fun c hc => hdigits c (List.mem_append_left _ hc))
        (.inl (by simpa using hzero))
      have hpos : 1 ≤ Nat.ofDigitChars 10 (d :: t) 0 := by
        by_contra h0
        rw [show Nat.ofDigitChars 10 (d :: t) 0 = 0 by omega] at ih
        have hd : '0' = d := by
          have h0 : decimal 0 = ['0'] := rfl
          rw [h0] at ih
          exact (List.cons.inj ih).1
        exact hzero hd.symm
      rw [decimal, Nat.toDigits_eq_if (by decide), if_neg (by omega)]
      have hdiv : (10 * Nat.ofDigitChars 10 (d :: t) 0 + (c.toNat - '0'.toNat)) / 10 =
          Nat.ofDigitChars 10 (d :: t) 0 := by omega
      have hmod : (10 * Nat.ofDigitChars 10 (d :: t) 0 + (c.toNat - '0'.toNat)) % 10 =
          c.toNat - '0'.toNat := by omega
      rw [hdiv, hmod, hc]
      change decimal _ ++ _ = _
      rw [ih]

theorem le_of_foldlM_pushDigit {max n : ℕ} {s : Text} {acc : ℕ} (hacc : acc ≤ max)
    (h : s.foldlM (pushDigit max) acc = some n) : n ≤ max := by
  induction s generalizing acc with
  | nil =>
    simp only [List.foldlM_nil, Option.pure_def, Option.some.injEq] at h
    omega
  | cons c s ih =>
    rw [List.foldlM_cons] at h
    obtain ⟨v, hv, h⟩ := Option.bind_eq_some_iff.1 h
    refine ih ?_ h
    unfold pushDigit at hv
    split at hv
    · next hp =>
      obtain rfl := Option.some.inj hv
      exact hp.2
    · simp at hv

/-- A number read up to a bound is within it. -/
theorem le_of_parseUnsigned {max n : ℕ} {s : Text} (h : parseUnsigned max s = some n) : n ≤ max := by
  unfold parseUnsigned at h
  split at h
  · simp at h
  · exact le_of_foldlM_pushDigit (Nat.zero_le max) h

end JoeDlna.Lib
