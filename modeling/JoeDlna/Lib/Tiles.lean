import JoeDlna.Lib.Text

/-!
# Consecutive windows of a list

`Tiles a ws b` — the windows `ws`, each a start and a length, follow one another from `a` to `b`.
The windows of a list, read one after the other, are the list again (`Tiles.flatMap_window`).
-/

namespace JoeDlna.Lib

variable {α : Type*}

/-- The part of a list from `start` on, at most `length` long. -/
def window (l : List α) (w : ℕ × ℕ) : List α := (l.drop w.1).take w.2

/-- Nonempty windows that follow one another from `a` to `b`. -/
inductive Tiles : ℕ → List (ℕ × ℕ) → ℕ → Prop
  | done (a : ℕ) : Tiles a [] a
  | next {a length b : ℕ} {ws : List (ℕ × ℕ)} (hpos : 0 < length) (h : Tiles (a + length) ws b) :
      Tiles a ((a, length) :: ws) b

theorem Tiles.le {a b : ℕ} {ws : List (ℕ × ℕ)} (h : Tiles a ws b) : a ≤ b := by
  induction h with
  | done a => exact le_rfl
  | next _ _ ih => omega

/-- Every window lies between the ends. -/
theorem Tiles.mem {a b : ℕ} {ws : List (ℕ × ℕ)} (h : Tiles a ws b) {w : ℕ × ℕ} (hw : w ∈ ws) :
    a ≤ w.1 ∧ 0 < w.2 ∧ w.1 + w.2 ≤ b := by
  induction h with
  | done a => cases hw
  | next hpos h ih =>
    rcases List.mem_cons.1 hw with rfl | hw
    · exact ⟨le_rfl, hpos, h.le⟩
    · obtain ⟨ha, hb, hc⟩ := ih hw
      exact ⟨by omega, hb, hc⟩

theorem Tiles.flatMap_window_drop (l : List α) {a b : ℕ} {ws : List (ℕ × ℕ)} (h : Tiles a ws b) :
    ws.flatMap (window l) = (l.drop a).take (b - a) := by
  induction h with
  | done a => simp
  | @next a length b ws _ h ih =>
    have hle := h.le
    have hsplit : b - a = length + (b - (a + length)) := by omega
    rw [List.flatMap_cons, ih, hsplit, List.take_add, List.drop_drop]
    rfl

/-- **Windows that cover a list contain it exactly once, in order.** -/
theorem Tiles.flatMap_window (l : List α) {b : ℕ} {ws : List (ℕ × ℕ)} (h : Tiles 0 ws b)
    (hb : l.length ≤ b) : ws.flatMap (window l) = l := by
  rw [h.flatMap_window_drop, List.drop_zero, Nat.sub_zero, List.take_of_length_le hb]

end JoeDlna.Lib
