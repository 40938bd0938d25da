import Mathlib

/-!
# Instants of a signed 64-bit clock

A `Timespec` is a count of seconds in the range of a signed 64-bit integer, with the nanoseconds of
the last second. Adding a duration fails when the sum leaves the range.

* `le_iff` — the order of two instants is that of their nanoseconds;
* `toNanos_checkedAdd` — what a sum is, where there is one;
* `checkedAdd_seconds_isSome` — when there is one, for a whole number of seconds.
-/

namespace JoeDlna.Lib

def NANOS_PER_SEC : ℕ := 1000000000

@[ext]
structure Timespec where
  secs : ℤ
  nanos : ℕ
  le_secs : -2 ^ 63 ≤ secs
  secs_lt : secs < 2 ^ 63
  nanos_lt : nanos < NANOS_PER_SEC
deriving DecidableEq, Repr

namespace Timespec

/-- The nanoseconds since the zero of the clock. -/
def toNanos (t : Timespec) : ℤ := t.secs * NANOS_PER_SEC + t.nanos

/-- Seconds are compared first, and then nanoseconds. -/
instance : LE Timespec where
  le a b := a.secs < b.secs ∨ a.secs = b.secs ∧ a.nanos ≤ b.nanos

instance (a b : Timespec) : Decidable (a ≤ b) :=
  inferInstanceAs (Decidable (a.secs < b.secs ∨ a.secs = b.secs ∧ a.nanos ≤ b.nanos))

theorem le_def {a b : Timespec} : a ≤ b ↔ a.secs < b.secs ∨ a.secs = b.secs ∧ a.nanos ≤ b.nanos := Iff.rfl

theorem le_iff {a b : Timespec} : a ≤ b ↔ a.toNanos ≤ b.toNanos := by
  have ha := a.nanos_lt
  have hb := b.nanos_lt
  unfold NANOS_PER_SEC at ha hb
  rw [le_def]
  unfold toNanos NANOS_PER_SEC
  omega

instance : Preorder Timespec where
  le_refl a := le_iff.2 (le_refl a.toNanos)
  le_trans a b c hab hbc := le_iff.2 ((le_iff.1 hab).trans (le_iff.1 hbc))

/-- `checked_add_duration`, for a duration in nanoseconds: the seconds are added first, and one more
where the nanoseconds overflow. -/
def checkedAdd (t : Timespec) (d : ℕ) : Option Timespec :=
  if hsecs : t.secs + (d / NANOS_PER_SEC : ℕ) < 2 ^ 63 then
    if hnanos : t.nanos + d % NANOS_PER_SEC < NANOS_PER_SEC then
      some {
        secs := t.secs + (d / NANOS_PER_SEC : ℕ)
        nanos := t.nanos + d % NANOS_PER_SEC
        le_secs := t.le_secs.trans (Int.le_add_of_nonneg_right (Int.natCast_nonneg _))
        secs_lt := hsecs
        nanos_lt := hnanos }
    else if hcarry : t.secs + (d / NANOS_PER_SEC : ℕ) + 1 < 2 ^ 63 then
      some {
        secs := t.secs + (d / NANOS_PER_SEC : ℕ) + 1
        nanos := t.nanos + d % NANOS_PER_SEC - NANOS_PER_SEC
        le_secs := (t.le_secs.trans (Int.le_add_of_nonneg_right (Int.natCast_nonneg _))).trans
          (Int.le_add_of_nonneg_right Int.one_nonneg)
        secs_lt := hcarry
        nanos_lt := by
          have := t.nanos_lt
          have : d % NANOS_PER_SEC < NANOS_PER_SEC := Nat.mod_lt _ (by decide)
          omega }
    else none
  else none

variable {t u : Timespec} {d : ℕ}

/-- **A sum** is later by exactly the duration. -/
theorem toNanos_checkedAdd (h : t.checkedAdd d = some u) : u.toNanos = t.toNanos + d := by
  unfold checkedAdd at h
  have hd := Nat.div_add_mod d NANOS_PER_SEC
  split at h
  · split at h
    · obtain rfl := Option.some.inj h
      unfold toNanos NANOS_PER_SEC at *
      dsimp only
      omega
    · next hnanos =>
      split at h
      · obtain rfl := Option.some.inj h
        unfold toNanos NANOS_PER_SEC at *
        dsimp only
        omega
      · cases h
  · cases h

/-- **A whole number of seconds** can be added exactly if the seconds of the clock stay in range. -/
theorem checkedAdd_seconds_isSome (t : Timespec) (n : ℕ) :
    (t.checkedAdd (n * NANOS_PER_SEC)).isSome = true ↔ t.secs + n < 2 ^ 63 := by
  have hdiv : n * NANOS_PER_SEC / NANOS_PER_SEC = n := Nat.mul_div_cancel n (by decide)
  have hmod : n * NANOS_PER_SEC % NANOS_PER_SEC = 0 := Nat.mul_mod_left n NANOS_PER_SEC
  unfold checkedAdd
  constructor
  · intro h
    by_contra hlt
    have hsecs : ¬t.secs + (n * NANOS_PER_SEC / NANOS_PER_SEC : ℕ) < 2 ^ 63 := by rwa [hdiv]
    rw [dif_neg hsecs] at h
    cases h
  · intro hlt
    have hsecs : t.secs + (n * NANOS_PER_SEC / NANOS_PER_SEC : ℕ) < 2 ^ 63 := by rwa [hdiv]
    have hnanos : t.nanos + n * NANOS_PER_SEC % NANOS_PER_SEC < NANOS_PER_SEC := by
      rw [hmod, Nat.add_zero]
      exact t.nanos_lt
    rw [dif_pos hsecs, dif_pos hnanos]
    rfl

/-- The instant of a number of seconds. -/
def ofSecs (secs : ℤ) (hle : -2 ^ 63 ≤ secs) (hlt : secs < 2 ^ 63) : Timespec where
  secs := secs
  nanos := 0
  le_secs := hle
  secs_lt := hlt
  nanos_lt := by decide

end Timespec

end JoeDlna.Lib
