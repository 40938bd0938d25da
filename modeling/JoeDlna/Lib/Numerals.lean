import JoeDlna.Lib.Text

/-!
# Numerals

A numeral is a text of decimal digits, of any length, and names a natural number. `parseUnsigned` reads
numerals up to a bound, and also those with a plus sign before them.

* `parseUnsigned_eq_some_iff` — what `parseUnsigned` reads, exactly.
-/

namespace JoeDlna.Lib

/-- The text is a series of digits that names the number. -/
def Numeral (s : Text) (n : ℕ) : Prop :=
  s ≠ [] ∧ (∀ c ∈ s, c.isDigit = true) ∧ Nat.ofDigitChars 10 s 0 = n

instance (s : Text) (n : ℕ) : Decidable (Numeral s n) :=
  decidable_of_iff (s ≠ [] ∧ s.all Char.isDigit = true ∧ Nat.ofDigitChars 10 s 0 = n)
    (and_congr_right' (and_congr_left' List.all_eq_true))

/-- A numeral after a plus sign. -/
def PlusNumeral (s : Text) (n : ℕ) : Prop := ∃ digits, s = '+' :: digits ∧ Numeral digits n

theorem Numeral.unique {s : Text} {m n : ℕ} (hm : Numeral s m) (hn : Numeral s n) : m = n :=
  hm.2.2.symm.trans hn.2.2

theorem numeral_decimal (n : ℕ) : Numeral (decimal n) n :=
  ⟨decimal_ne_nil n, fun _ hc => isDigit_of_mem_decimal hc, by simp [decimal]⟩

/-- A number is written without a leading zero. -/
theorem decimal_head? {n : ℕ} (h : 0 < n) : (decimal n).head? ≠ some '0' := by
  have hdigit : ∀ d < 10, 0 < d → Nat.digitChar d ≠ '0' := by decide
  induction n using Nat.strongRecOn with
  | ind n ih =>
    unfold decimal
    rw [Nat.toDigits_eq_if (by decide)]
    split
    · next hlt => exact fun heq => hdigit n hlt h (Option.some.inj heq)
    · next hle =>
      rw [List.head?_append_of_ne_nil _ Nat.toDigits_ne_nil]
      exact ih (n / 10) (by omega) (by omega)

/-- A character that is no digit is not in a numeral. -/
theorem Numeral.notMem {s : Text} {n : ℕ} (h : Numeral s n) {c : Char} (hc : c.isDigit = false) : c ∉ s := by
  intro hmem
  rw [h.2.1 c hmem] at hc
  cases hc

theorem isDigit_of_foldlM_pushDigit {max n : ℕ} {s : Text} {acc : ℕ}
    (h : s.foldlM (pushDigit max) acc = some n) : ∀ c ∈ s, c.isDigit = true := by
  induction s generalizing acc with
  | nil => simp
  | cons c s ih =>
    rw [List.foldlM_cons] at h
    obtain ⟨v, hv, h⟩ := Option.bind_eq_some_iff.1 h
    unfold pushDigit at hv
    split at hv
    · next hp =>
      intro d hd
      rcases List.mem_cons.1 hd with rfl | hd
      · exact hp.1
      · exact ih h d hd
    · cases hv

theorem foldlM_pushDigit_eq_some_iff {max n : ℕ} {s : Text} :
    s.foldlM (pushDigit max) 0 = some n ↔
      (∀ c ∈ s, c.isDigit = true) ∧ Nat.ofDigitChars 10 s 0 = n ∧ n ≤ max := by
  constructor
  · intro h
    have hdigits := isDigit_of_foldlM_pushDigit h
    rw [foldlM_pushDigit max hdigits (Nat.zero_le max)] at h
    split at h
    · next hle =>
      obtain rfl := Option.some.inj h
      exact ⟨hdigits, rfl, hle⟩
    · cases h
  · rintro ⟨hdigits, rfl, hle⟩
    rw [foldlM_pushDigit max hdigits (Nat.zero_le max), if_pos hle]

theorem dropPlus_eq (s : Text) : s = dropPlus s ∨ s = '+' :: dropPlus s := by
  unfold dropPlus
  split
  · exact .inr rfl
  · exact .inl rfl

/-- **What is read as a number up to a bound**: a numeral, or one after a plus sign. -/
theorem parseUnsigned_eq_some_iff {max n : ℕ} {s : Text} :
    parseUnsigned max s = some n ↔ n ≤ max ∧ (Numeral s n ∨ PlusNumeral s n) := by
  constructor
  · intro h
    unfold parseUnsigned at h
    split at h
    · cases h
    · next hne =>
      obtain ⟨hdigits, hvalue, hle⟩ := foldlM_pushDigit_eq_some_iff.1 h
      have hnumeral : Numeral (dropPlus s) n := ⟨hne, hdigits, hvalue⟩
      refine ⟨hle, (dropPlus_eq s).imp (fun hs => ?_) fun hs => ⟨_, hs, hnumeral⟩⟩
      rwa [hs]
  · rintro ⟨hle, ⟨hne, hdigits, hvalue⟩ | ⟨digits, rfl, hne, hdigits, hvalue⟩⟩
    · unfold parseUnsigned
      rw [dropPlus_digits hdigits, if_neg hne]
      exact foldlM_pushDigit_eq_some_iff.2 ⟨hdigits, hvalue, hle⟩
    · unfold parseUnsigned
      rw [show dropPlus ('+' :: digits) = digits from rfl, if_neg hne]
      exact foldlM_pushDigit_eq_some_iff.2 ⟨hdigits, hvalue, hle⟩

/-- A character that is neither a digit nor a plus sign is not in a text that is read as a number. -/
theorem notMem_of_parseUnsigned {max n : ℕ} {s : Text} (h : parseUnsigned max s = some n) {c : Char}
    (hdigit : c.isDigit = false) (hplus : c ≠ '+') : c ∉ s := by
  rcases (parseUnsigned_eq_some_iff.1 h).2 with hs | ⟨digits, rfl, hs⟩
  · exact hs.notMem hdigit
  · rw [List.mem_cons, not_or]
    exact ⟨hplus, hs.notMem hdigit⟩

end JoeDlna.Lib
