import JoeDlna.Bookmarks.Defs

/-!
# Replacing the file

`replace_file` as a program that makes file calls, each of which succeeds or fails as it may. What stands at
the destination is looked at after every single call.

* `run_replaceFileCalls` — the program is `replaceFile`, once its calls are answered;
* `replaceFile_atomic_iff` — when the destination holds the old or the new text all the time.
-/

namespace JoeDlna

open Lib

/-! ### File calls -/

inductive FileCall
  | rename
  | removeFile
deriving DecidableEq, Repr

/-- What a call does to the two files: nothing when it fails. -/
def FileCall.effect (disk : Disk) : FileCall → Except IoError Unit → Disk
  | _, .error _ => disk
  | .rename, .ok () => disk.renamed
  | .removeFile, .ok () => { disk with destination := none }

/-- A program that makes file calls and goes on with their answers. -/
inductive FileCalls (α : Type)
  | done (a : α)
  | call (c : FileCall) (next : Except IoError Unit → FileCalls α)

/-- What the program returns when its calls, counted from `n`, are answered so, and the files after each of
its calls. -/
def FileCalls.run {α : Type} (answer : ℕ → Except IoError Unit) : ℕ → Disk → FileCalls α → α × List Disk
  | _, _, .done a => (a, [])
  | n, disk, .call c next =>
    let rest := run answer (n + 1) (c.effect disk (answer n)) (next (answer n))
    (rest.1, c.effect disk (answer n) :: rest.2)

/-- `replace_file`, on Windows and elsewhere. -/
def replaceFileCalls (windows : Bool) : FileCalls (Except IoError Unit) :=
  .call .rename fun
    | .ok () => .done (.ok ())
    | .error e =>
      if windows ∧ (e = .alreadyExists ∨ e = .permissionDenied) then
        .call .removeFile fun
          | .ok () => .call .rename .done
          | .error .notFound => .call .rename .done
          | .error e => .done (.error e)
      else .done (.error e)

section Replace

variable (windows : Bool) (answer : ℕ → Except IoError Unit) (disk : Disk)

/-- The result and the files after each call. -/
def replaceRun : Except IoError Unit × List Disk := (replaceFileCalls windows).run answer 0 disk

/-- **The rules for a replacement** of one text by another: a failure leaves the old one, a success leaves the
new one, and after every call it is one of the two that stands at the destination. -/
structure Replacement (disk : Disk) (run : Except IoError Unit × List Disk) : Prop where
  failed : ∀ e, run.1 = .error e → (run.2.getLastD disk).destination = disk.destination
  replaced : run.1 = .ok () → (run.2.getLastD disk).destination = disk.temporary
  between : ∀ d ∈ run.2, d.destination = disk.destination ∨ d.destination = disk.temporary

/-- The calls go wrong on Windows only: the first rename is refused because of the file that is there, and
the removal takes it away. -/
structure Removes : Prop where
  windows : windows = true
  refused : answer 0 = .error .alreadyExists ∨ answer 0 = .error .permissionDenied
  removed : answer 1 = .ok ()

variable {windows answer disk}

/-! ### What the calls can be -/

theorem replaceRun_renamed (h : answer 0 = .ok ()) :
    replaceRun windows answer disk = (.ok (), [disk.renamed]) := by
  simp only [replaceRun, replaceFileCalls, FileCalls.run, h]
  rfl

theorem replaceRun_failed {e : IoError} (h : answer 0 = .error e)
    (he : ¬ (windows = true ∧ (e = .alreadyExists ∨ e = .permissionDenied))) :
    replaceRun windows answer disk = (.error e, [disk]) := by
  simp only [replaceRun, replaceFileCalls, FileCalls.run, h, if_neg he]
  rfl

/-- After a removal that fails for another reason there is no second rename. -/
theorem replaceRun_kept {e e' : IoError} (h : answer 0 = .error e)
    (he : windows = true ∧ (e = .alreadyExists ∨ e = .permissionDenied)) (h' : answer 1 = .error e')
    (he' : e' ≠ .notFound) : replaceRun windows answer disk = (.error e', [disk, disk]) := by
  simp only [replaceRun, replaceFileCalls, FileCalls.run, h, if_pos he, Nat.zero_add, h']
  cases e' with
  | notFound => exact absurd rfl he'
  | _ => rfl

theorem replaceRun_absent {e : IoError} (h : answer 0 = .error e)
    (he : windows = true ∧ (e = .alreadyExists ∨ e = .permissionDenied)) (h' : answer 1 = .error .notFound) :
    replaceRun windows answer disk = (answer 2, [disk, disk, FileCall.rename.effect disk (answer 2)]) := by
  simp only [replaceRun, replaceFileCalls, FileCalls.run, h, if_pos he, Nat.zero_add, h']
  rfl

theorem replaceRun_removed (h : Removes windows answer) :
    replaceRun windows answer disk = (answer 2, [disk, { disk with destination := none },
      FileCall.rename.effect { disk with destination := none } (answer 2)]) := by
  obtain ⟨e, he, hrefused⟩ : ∃ e, (e = .alreadyExists ∨ e = .permissionDenied) ∧ answer 0 = .error e := by
    rcases h.refused with hrefused | hrefused
    · exact ⟨_, .inl rfl, hrefused⟩
    · exact ⟨_, .inr rfl, hrefused⟩
  have hcheck : windows = true ∧ (e = .alreadyExists ∨ e = .permissionDenied) := ⟨h.windows, he⟩
  simp only [replaceRun, replaceFileCalls, FileCalls.run, hrefused, if_pos hcheck, Nat.zero_add, h.removed]
  rfl

end Replace

/-- A last rename, before which the files stay as they are, leaves the old text or the new one. -/
theorem replacement_of_rename {disk : Disk} (before : List Disk) (hbefore : ∀ d ∈ before, d = disk)
    (last : Except IoError Unit) :
    Replacement disk (last, before ++ [FileCall.rename.effect disk last]) := by
  have hlast : (before ++ [FileCall.rename.effect disk last]).getLastD disk = FileCall.rename.effect disk last :=
    List.getLastD_concat
  have hdestination : (FileCall.rename.effect disk last).destination = disk.destination ∨
      (FileCall.rename.effect disk last).destination = disk.temporary := by
    cases last with
    | ok u => exact .inr rfl
    | error e => exact .inl rfl
  refine ⟨?_, ?_, ?_⟩
  · rintro e rfl
    rw [hlast]
    rfl
  · rintro rfl
    rw [hlast]
    rfl
  · intro d hd
    rcases List.mem_append.1 hd with hd | hd
    · rw [hbefore d hd]
      exact .inl rfl
    · rw [List.mem_singleton.1 hd]
      exact hdestination

/-- **When a replacement is atomic**: unless the calls remove a file that is there. -/
theorem replaceFile_atomic_iff (windows : Bool) (answer : ℕ → Except IoError Unit) (old : Option Text)
    (new : Text) :
    Replacement ⟨old, some new⟩ (replaceRun windows answer ⟨old, some new⟩) ↔
      ¬ (Removes windows answer ∧ old.isSome = true) := by
  by_cases hremoves : Removes windows answer
  · rw [replaceRun_removed hremoves]
    constructor
    · rintro h ⟨-, hold⟩
      obtain ⟨text, rfl⟩ := Option.isSome_iff_exists.1 hold
      rcases h.between ⟨none, some new⟩ (by simp) with hbetween | hbetween
      · cases hbetween
      · cases hbetween
    · intro h
      obtain rfl : old = none := Option.not_isSome_iff_eq_none.1 fun hold => h ⟨hremoves, hold⟩
      exact replacement_of_rename [_, _] (by simp) (answer 2)
  · refine ⟨fun _ h => hremoves h.1, fun _ => ?_⟩
    cases hrename : answer 0 with
    | ok u =>
      rw [replaceRun_renamed hrename]
      exact replacement_of_rename [] (by simp) (.ok ())
    | error e =>
      by_cases hrefused : windows = true ∧ (e = .alreadyExists ∨ e = .permissionDenied)
      · cases hremove : answer 1 with
        | ok u =>
          have hanswer : answer 0 = .error .alreadyExists ∨ answer 0 = .error .permissionDenied := by
            rw [hrename]
            exact hrefused.2.imp (congrArg _) (congrArg _)
          exact absurd ⟨hrefused.1, hanswer, hremove⟩ hremoves
        | error e' =>
          by_cases habsent : e' = .notFound
          · rw [habsent] at hremove
            rw [replaceRun_absent hrename hrefused hremove]
            exact replacement_of_rename [_, _] (by simp) (answer 2)
          · rw [replaceRun_kept hrename hrefused hremove habsent]
            exact replacement_of_rename [_] (by simp) (.error e')
      · rw [replaceRun_failed hrename hrefused]
        exact replacement_of_rename [] (by simp) (.error e)

/-- On Windows the file is in use for a moment: the rename is denied, the removal succeeds, and the second
rename fails. -/
def deniedAnswers : ℕ → Except IoError Unit
  | 0 => .error .permissionDenied
  | 1 => .ok ()
  | _ => .error .other

/-- The call fails, and the old text is gone. -/
theorem denied_replacement_lost :
    (replaceRun true deniedAnswers ⟨some "old".toList, some "new".toList⟩).1 = .error .other ∧
      ((replaceRun true deniedAnswers ⟨some "old".toList, some "new".toList⟩).2.getLastD
        ⟨some "old".toList, some "new".toList⟩).destination = none ∧
      ¬ ∀ windows answer old new, Replacement ⟨old, some new⟩ (replaceRun windows answer ⟨old, some new⟩) := by
  refine ⟨rfl, rfl, fun h => ?_⟩
  have hlost : none = some "old".toList := (h true deniedAnswers (some "old".toList) "new".toList).failed .other rfl
  cases hlost

/-! ### The calls of `set` -/

/-- The answers that the faults of a call of `set` give. -/
def Faults.answer (faults : Faults) : ℕ → Except IoError Unit
  | 0 => faults.rename.elim (.ok ()) .error
  | 1 => faults.remove.elim (.ok ()) .error
  | _ => faults.renameAgain.elim (.ok ()) .error

/-- **The program is `replaceFile`**, once its calls are answered. -/
theorem run_replaceFileCalls (windows : Bool) (faults : Faults) (disk : Disk) :
    replaceFile windows faults disk =
      ((replaceRun windows faults.answer disk).1, (replaceRun windows faults.answer disk).2.getLastD disk) := by
  obtain ⟨write, rename, remove, renameAgain⟩ := faults
  cases rename with
  | none => rfl
  | some e =>
    by_cases hrefused : windows = true ∧ (e = .alreadyExists ∨ e = .permissionDenied)
    · cases remove with
      | none =>
        have hremoves : Removes windows (Faults.answer ⟨write, some e, none, renameAgain⟩) :=
          ⟨hrefused.1, hrefused.2.imp (congrArg _) (congrArg _), rfl⟩
        have hreplace : replaceFile windows ⟨write, some e, none, renameAgain⟩ disk =
            renameFile { disk with destination := none } renameAgain := if_pos hrefused
        rw [hreplace, replaceRun_removed hremoves]
        cases renameAgain <;> rfl
      | some e' =>
        by_cases habsent : e' = .notFound
        · subst habsent
          have hreplace : replaceFile windows ⟨write, some e, some .notFound, renameAgain⟩ disk =
              renameFile disk renameAgain := if_pos hrefused
          rw [hreplace, replaceRun_absent rfl hrefused rfl]
          cases renameAgain <;> rfl
        · rw [replaceRun_kept rfl hrefused rfl habsent]
          cases e' with
          | notFound => exact absurd rfl habsent
          | _ => exact if_pos hrefused
    · rw [replaceRun_failed rfl hrefused]
      exact if_neg hrefused

end JoeDlna
