import JoeDlna.Lib.Text

/-!
# UTF-8

Byte strings as text: the bytes of a text, and the text of a byte string that may hold
ill-formed sequences.

* `utf8` — the encoding of a text;
* `chunks` — a byte string as its characters, with `none` for each maximal ill-formed sequence;
* `toStr`, `toStringLossy` — the text of a well-formed byte string, and of any byte string with
  one U+FFFD for each ill-formed sequence;
* `toStringLossy_utf8` — the text of its own bytes.
-/

namespace JoeDlna.Lib

/-- The UTF-8 encoding of a text. -/
def utf8 (s : Text) : List UInt8 := s.flatMap String.utf8EncodeChar

theorem utf8_append (s t : Text) : utf8 (s ++ t) = utf8 s ++ utf8 t := List.flatMap_append

/-- An unfinished character: how many continuation bytes it still needs, the bounds of the next
one, and the bits read so far. -/
structure Partway where
  need : ℕ
  low : UInt8
  high : UInt8
  bits : ℕ
deriving DecidableEq, Repr

/-- A byte where a character begins: what it completes, and what it opens. -/
def openByte (b : UInt8) : List (Option Char) × Option Partway :=
  if b ≤ 0x7F then ([some (Char.ofNat b.toNat)], none)
  else if 0xC2 ≤ b ∧ b ≤ 0xDF then ([], some ⟨1, 0x80, 0xBF, b.toNat % 32⟩)
  else if b = 0xE0 then ([], some ⟨2, 0xA0, 0xBF, b.toNat % 16⟩)
  else if b = 0xED then ([], some ⟨2, 0x80, 0x9F, b.toNat % 16⟩)
  else if 0xE1 ≤ b ∧ b ≤ 0xEF then ([], some ⟨2, 0x80, 0xBF, b.toNat % 16⟩)
  else if b = 0xF0 then ([], some ⟨3, 0x90, 0xBF, b.toNat % 8⟩)
  else if b = 0xF4 then ([], some ⟨3, 0x80, 0x8F, b.toNat % 8⟩)
  else if 0xF1 ≤ b ∧ b ≤ 0xF3 then ([], some ⟨3, 0x80, 0xBF, b.toNat % 8⟩)
  else ([none], none)

/-- One byte. A byte that does not continue the unfinished character ends an ill-formed sequence
and begins a character itself. -/
def feedByte : Option Partway → UInt8 → List (Option Char) × Option Partway
  | none, b => openByte b
  | some p, b =>
    if p.low ≤ b ∧ b ≤ p.high then
      let bits := 64 * p.bits + b.toNat % 64
      if p.need ≤ 1 then ([some (Char.ofNat bits)], none)
      else ([], some ⟨p.need - 1, 0x80, 0xBF, bits⟩)
    else (none :: (openByte b).1, (openByte b).2)

/-- The characters of a byte string after an unfinished one. -/
def chunksFrom : Option Partway → List UInt8 → List (Option Char)
  | none, [] => []
  | some _, [] => [none]
  | p, b :: bs => (feedByte p b).1 ++ chunksFrom (feedByte p b).2 bs

/-- The characters of a byte string, `none` for each maximal ill-formed sequence. -/
def chunks (bs : List UInt8) : List (Option Char) := chunksFrom none bs

/-- The text of a byte string, if it is well-formed. -/
def toStr (bs : List UInt8) : Option Text := (chunks bs).mapM id

/-- The text of a byte string, with U+FFFD in place of each ill-formed sequence. -/
def toStringLossy (bs : List UInt8) : Text := (chunks bs).map (·.getD (Char.ofNat 0xFFFD))

example : toStringLossy [0x61, 0xE2, 0x82, 0x62, 0xC3, 0xA9, 0xFF] =
    ['a', Char.ofNat 0xFFFD, 'b', 'é', Char.ofNat 0xFFFD] := by decide

/-! ### The bytes of a text -/

theorem openByte_one : ∀ n < 128, openByte (.ofNat n) = ([some (Char.ofNat n)], none) := by decide +kernel

theorem openByte_two : ∀ n < 32, 2 ≤ n → openByte (.ofNat (n + 0xC0)) = ([], some ⟨1, .ofNat 0x80, .ofNat 0xBF, n⟩) := by
  decide +kernel

theorem openByte_three : ∀ n < 16, openByte (.ofNat (n + 0xE0)) =
    ([], some ⟨2, .ofNat (if n = 0 then 0xA0 else 0x80), .ofNat (if n = 13 then 0x9F else 0xBF), n⟩) := by
  decide +kernel

theorem openByte_four : ∀ n < 5, openByte (.ofNat (n + 0xF0)) =
    ([], some ⟨3, .ofNat (if n = 0 then 0x90 else 0x80), .ofNat (if n = 4 then 0x8F else 0xBF), n⟩) := by
  decide +kernel

theorem ofNat_le_ofNat {m n : ℕ} (hm : m < 256) (hn : n < 256) : UInt8.ofNat m ≤ UInt8.ofNat n ↔ m ≤ n := by
  rw [UInt8.le_iff_toNat_le, UInt8.toNat_ofNat', UInt8.toNat_ofNat', Nat.mod_eq_of_lt hm, Nat.mod_eq_of_lt hn]

/-- A continuation byte within the bounds. -/
theorem feedByte_ofNat {low high n : ℕ} (need bits : ℕ) (hn : n < 64) (hlow : low ≤ n + 0x80)
    (hhigh : n + 0x80 ≤ high) (h256 : high < 256) :
    feedByte (some ⟨need, .ofNat low, .ofNat high, bits⟩) (.ofNat (n + 0x80)) =
      if need ≤ 1 then ([some (Char.ofNat (64 * bits + n))], none)
      else ([], some ⟨need - 1, .ofNat 0x80, .ofNat 0xBF, 64 * bits + n⟩) := by
  have hbits : (UInt8.ofNat (n + 0x80)).toNat % 64 = n := by
    rw [UInt8.toNat_ofNat']
    omega
  have hbounds : UInt8.ofNat low ≤ .ofNat (n + 0x80) ∧ UInt8.ofNat (n + 0x80) ≤ .ofNat high := by
    rw [ofNat_le_ofNat (by omega) (by omega), ofNat_le_ofNat (by omega) h256]
    exact ⟨hlow, hhigh⟩
  rw [feedByte, if_pos hbounds, hbits]
  rfl

theorem chunksFrom_cons (p : Option Partway) (b : UInt8) (bs : List UInt8) :
    chunksFrom p (b :: bs) = (feedByte p b).1 ++ chunksFrom (feedByte p b).2 bs := by
  cases p <;> rfl

/-- A character is read from its bytes. -/
theorem chunksFrom_utf8EncodeChar (c : Char) (bs : List UInt8) :
    chunksFrom none (String.utf8EncodeChar c ++ bs) = some c :: chunksFrom none bs := by
  have hvalid : c.val.toNat < 0xD800 ∨ 0xDFFF < c.val.toNat ∧ c.val.toNat < 0x110000 := c.valid
  have hc : Char.ofNat c.val.toNat = c := Char.ofNat_toNat c
  unfold String.utf8EncodeChar
  generalize c.val.toNat = v at *
  subst hc
  have hlast : 64 * (v / 64) + v % 64 = v := Nat.div_add_mod v 64
  have hbefore : 64 * (v / 4096) + v / 64 % 64 = v / 64 := by omega
  have hfirst : 64 * (v / 262144) + v / 4096 % 64 = v / 4096 := by omega
  dsimp only
  split
  · rw [List.singleton_append, chunksFrom_cons, feedByte, openByte_one v (by omega)]
    rfl
  · split
    · rw [Nat.mod_eq_of_lt (show v / 64 < 32 by omega)]
      simp only [List.cons_append, List.nil_append, chunksFrom_cons]
      rw [feedByte, openByte_two _ (by omega) (by omega),
        feedByte_ofNat _ _ (by omega) (by omega) (by omega) (by omega), hlast]
      rfl
    · split
      · rw [Nat.mod_eq_of_lt (show v / 4096 < 16 by omega)]
        simp only [List.cons_append, List.nil_append, chunksFrom_cons]
        rw [feedByte, openByte_three _ (by omega),
          feedByte_ofNat _ _ (by omega) (by split <;> omega) (by split <;> omega) (by split <;> omega), hbefore,
          if_neg (show ¬2 ≤ 1 by decide), feedByte_ofNat _ _ (by omega) (by omega) (by omega) (by omega), hlast]
        rfl
      · rw [Nat.mod_eq_of_lt (show v / 262144 < 8 by omega)]
        simp only [List.cons_append, List.nil_append, chunksFrom_cons]
        rw [feedByte, openByte_four _ (by omega),
          feedByte_ofNat _ _ (by omega) (by split <;> omega) (by split <;> omega) (by split <;> omega), hfirst,
          if_neg (show ¬3 ≤ 1 by decide), feedByte_ofNat _ _ (by omega) (by omega) (by omega) (by omega), hbefore,
          if_neg (show ¬3 - 1 ≤ 1 by decide), feedByte_ofNat _ _ (by omega) (by omega) (by omega) (by omega), hlast]
        rfl

theorem chunks_utf8 (s : Text) : chunks (utf8 s) = s.map some := by
  induction s with
  | nil => rfl
  | cons c s ih =>
    show chunksFrom none (String.utf8EncodeChar c ++ utf8 s) = _
    rw [chunksFrom_utf8EncodeChar]
    exact congrArg _ ih

/-- **The text of its own bytes.** -/
@[simp] theorem toStringLossy_utf8 (s : Text) : toStringLossy (utf8 s) = s := by
  rw [toStringLossy, chunks_utf8, List.map_map]
  exact List.map_id s

/-- A byte of a character: the character itself in ASCII, or a byte that ASCII does not use. -/
theorem mem_utf8EncodeChar {c : Char} {b : UInt8} (h : b ∈ String.utf8EncodeChar c) :
    c.val.toNat < 0x80 ∧ b.toNat = c.val.toNat ∨ 0x80 ≤ b.toNat ∧ b.toNat < 0xF8 := by
  have hbyte : ∀ n, b = UInt8.ofNat n → b.toNat = n % 256 := by
    rintro n rfl
    exact UInt8.toNat_ofNat'
  have hle : c.val.toNat ≤ 0x10FFFF := by
    have hvalid := c.valid
    simp only [UInt32.isValidChar, Nat.isValidChar] at hvalid
    omega
  unfold String.utf8EncodeChar at h
  simp only at h
  split at h
  · have := hbyte _ (List.mem_singleton.1 h)
    omega
  · split at h
    · simp only [List.mem_cons, List.not_mem_nil, or_false] at h
      rcases h with h | h <;> have := hbyte _ h <;> omega
    · split at h
      · simp only [List.mem_cons, List.not_mem_nil, or_false] at h
        rcases h with h | h | h <;> have := hbyte _ h <;> omega
      · simp only [List.mem_cons, List.not_mem_nil, or_false] at h
        rcases h with h | h | h | h <;> have := hbyte _ h <;> omega

/-- No byte of UTF-8 is `0xff`. -/
theorem notMem_utf8 (s : Text) : (0xFF : UInt8) ∉ utf8 s := by
  intro h
  obtain ⟨c, -, hc⟩ := List.mem_flatMap.1 h
  have hff : (0xFF : UInt8).toNat = 255 := rfl
  rcases mem_utf8EncodeChar hc with ⟨hlt, heq⟩ | ⟨-, hlt⟩ <;> omega

/-- The byte of an ASCII character stands for that character only. -/
theorem notMem_utf8_of_ascii {c : Char} (hc : c.val.toNat < 0x80) {s : Text} (h : c ∉ s) :
    UInt8.ofNat c.val.toNat ∉ utf8 s := by
  intro hmem
  obtain ⟨d, hd, hmem⟩ := List.mem_flatMap.1 hmem
  have hbyte : (UInt8.ofNat c.val.toNat).toNat = c.val.toNat := by
    rw [UInt8.toNat_ofNat', Nat.mod_eq_of_lt (by omega)]
  rcases mem_utf8EncodeChar hmem with ⟨-, heq⟩ | ⟨hge, -⟩
  · obtain rfl : c = d := Char.ext (UInt32.toNat.inj (hbyte.symm.trans heq))
    exact h hd
  · omega

end JoeDlna.Lib
