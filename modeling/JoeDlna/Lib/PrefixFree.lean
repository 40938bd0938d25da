import JoeDlna.Lib.Fnv
import JoeDlna.Lib.Utf8

/-!
# Words that end by themselves

When every word of an encoding can be split off the front of a longer string, a concatenation of
such words can be taken apart.

* `cut_inj` — a word ends at a separator it does not hold;
* `forall₂_of_flatMap_eq` — equal concatenations are equal word by word;
* `PrefixFree.flatMap_injective` — the same for lists of unknown lengths.
-/

namespace JoeDlna.Lib

variable {α β γ : Type*}

/-- Every word of the encoding can be split off the front of a longer string. -/
def PrefixFree (f : α → List γ) : Prop := ∀ a b r s, f a ++ r = f b ++ s → a = b ∧ r = s

/-- A word that does not hold the first symbol of what follows it ends there. -/
theorem cut_inj {p : γ} {s s' t t' lit : List γ} (hs : p ∉ s) (hs' : p ∉ s') (hlit : lit.head? = some p)
    (h : s ++ (lit ++ t) = s' ++ (lit ++ t')) : s = s' ∧ t = t' := by
  obtain ⟨q, rest, rfl⟩ : ∃ q rest, lit = q :: rest := by
    cases lit with
    | nil => cases hlit
    | cons q rest => exact ⟨q, rest, rfl⟩
  obtain rfl : q = p := Option.some.inj hlit
  classical
  rw [List.cons_append, List.cons_append] at h
  have hcut := congrArg (splitOnce q) h
  rw [splitOnce_append _ hs, splitOnce_append _ hs'] at hcut
  obtain ⟨rfl, ht⟩ := Prod.mk.inj (Option.some.inj hcut)
  exact ⟨rfl, List.append_cancel_left ht⟩

/-- Equal concatenations over lists of one length are equal word by word. -/
theorem forall₂_of_flatMap_eq {f : α → List γ} {g : β → List γ} {P Q : α → β → Prop}
    (hsplit : ∀ a b r s, Q a b → f a ++ r = g b ++ s → P a b ∧ r = s) {l : List α} {m : List β}
    (hQ : List.Forall₂ Q l m) (h : l.flatMap f = m.flatMap g) : List.Forall₂ P l m := by
  induction hQ with
  | nil => exact .nil
  | @cons a b l m hab _ ih =>
    rw [List.flatMap_cons, List.flatMap_cons] at h
    obtain ⟨hP, hrest⟩ := hsplit a b _ _ hab h
    exact .cons hP (ih hrest)

theorem flatMap_eq_of_forall₂ {f : α → List γ} {g : β → List γ} {l : List α} {m : List β}
    (h : List.Forall₂ (fun a b => f a = g b) l m) : l.flatMap f = m.flatMap g := by
  induction h with
  | nil => rfl
  | cons hab _ ih => rw [List.flatMap_cons, List.flatMap_cons, hab, ih]

theorem forall₂_of_map_eq {f : α → γ} {p q : α → Prop} {l m : List α} (h : l.map f = m.map f)
    (hl : ∀ a ∈ l, p a) (hm : ∀ b ∈ m, q b) : List.Forall₂ (fun a b => f a = f b ∧ p a ∧ q b) l m := by
  induction l generalizing m with
  | nil =>
    obtain rfl := List.map_eq_nil_iff.1 h.symm
    exact .nil
  | cons a l ih =>
    cases m with
    | nil => cases h
    | cons b m =>
      obtain ⟨hab, hrest⟩ := List.cons.inj h
      exact .cons ⟨hab, hl a (by simp), hm b (by simp)⟩
        (ih hrest (fun x hx => hl x (List.mem_cons_of_mem a hx)) fun x hx => hm x (List.mem_cons_of_mem b hx))

theorem forall₂_and {R S : α → β → Prop} {l : List α} {m : List β} (h : List.Forall₂ R l m)
    (h' : List.Forall₂ S l m) : List.Forall₂ (fun a b => R a b ∧ S a b) l m := by
  induction h with
  | nil => exact .nil
  | cons hR _ ih =>
    cases h' with
    | cons hS h' => exact .cons ⟨hR, hS⟩ (ih h')

namespace PrefixFree

variable {f : α → List γ} {g : β → List γ}

/-- Two words one after the other. -/
theorem append (hf : PrefixFree f) (hg : PrefixFree g) : PrefixFree fun x : α × β => f x.1 ++ g x.2 := by
  rintro ⟨a, b⟩ ⟨a', b'⟩ r s h
  simp only [List.append_assoc] at h
  obtain ⟨rfl, hrest⟩ := hf _ _ _ _ h
  obtain ⟨rfl, rfl⟩ := hg _ _ _ _ hrest
  exact ⟨rfl, rfl⟩

/-- Words of one length. -/
theorem of_length (hf : Function.Injective f) (n : ℕ) (hlength : ∀ a, (f a).length = n) : PrefixFree f := by
  intro a b r s h
  obtain ⟨hab, hrs⟩ := List.append_inj h (by rw [hlength, hlength])
  exact ⟨hf hab, hrs⟩

/-- Words that end at a separator they do not hold. -/
theorem terminated (hf : Function.Injective f) (p : γ) (hp : ∀ a, p ∉ f a) :
    PrefixFree fun a => f a ++ [p] := by
  intro a b r s h
  simp only [List.append_assoc] at h
  obtain ⟨hab, hrs⟩ := cut_inj (hp a) (hp b) rfl h
  exact ⟨hf hab, hrs⟩

theorem flatMap_injective (hf : PrefixFree f) (hne : ∀ a, f a ≠ []) :
    Function.Injective fun l : List α => l.flatMap f := by
  intro l m h
  induction l generalizing m with
  | nil =>
    cases m with
    | nil => rfl
    | cons b m => exact absurd (List.append_eq_nil_iff.1 h.symm).1 (hne b)
  | cons a l ih =>
    cases m with
    | nil => exact absurd (List.append_eq_nil_iff.1 h).1 (hne a)
    | cons b m =>
      obtain ⟨rfl, hrest⟩ := hf a b _ _ h
      rw [ih hrest]

end PrefixFree

/-! ### Bytes -/

theorem utf8_injective : Function.Injective utf8 := by
  intro s t h
  induction s generalizing t with
  | nil =>
    cases t with
    | nil => rfl
    | cons d t => exact absurd (List.append_eq_nil_iff.1 h.symm).1 String.utf8EncodeChar_ne_nil
  | cons c s ih =>
    cases t with
    | nil => exact absurd (List.append_eq_nil_iff.1 h).1 String.utf8EncodeChar_ne_nil
    | cons d t =>
      change String.utf8EncodeChar c ++ utf8 s = String.utf8EncodeChar d ++ utf8 t at h
      have hc : c = d := by
        have hbytes := congrArg (fun l => ByteArray.utf8DecodeChar? l.toByteArray 0) h
        simpa only [List.toByteArray_append, ByteArray.utf8DecodeChar?_utf8EncodeChar_append,
          Option.some.injEq] using hbytes
      subst hc
      rw [ih (List.append_cancel_left h)]

/-- No UTF-8 text holds the byte `0xff`. -/
theorem prefixFree_utf8 : PrefixFree fun s : Text => utf8 s ++ [0xFF] :=
  PrefixFree.terminated utf8_injective 0xFF notMem_utf8

/-- The bytes of a number have a fixed length, whatever they are. -/
theorem prefixFree_leBytes : PrefixFree fun n : UInt64 => leBytes n ++ [0xFF] := by
  refine PrefixFree.of_length (fun m n h => ?_) 9 fun n => by simp
  exact leBytes_injective (List.append_inj_left' h rfl)

end JoeDlna.Lib
