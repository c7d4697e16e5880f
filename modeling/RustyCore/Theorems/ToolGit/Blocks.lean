import RustyCore.Lib.Except
import RustyCore.ToolGit.Patch

/-! The block of one file: its header, the hunks that match up to the limit, in order, and how many more there are. -/

namespace RustyCore.GitPatch

/-- A fold that fails only where it reads can read everything first. -/
theorem foldlM_read {ε α β γ : Type} {step : γ → α → Except ε γ} {read : α → Except ε β} {add : γ → β → γ}
    (hstep : ∀ acc x, step acc x = (read x).map (add acc)) (l : List α) (acc : γ) :
    l.foldlM step acc = (l.mapM read).map (List.foldl add acc) := by
  induction l generalizing acc with
  | nil => rfl
  | cons x l ih =>
    rw [List.foldlM_cons, List.mapM_cons, hstep]
    cases hread : read x with
    | error e => rfl
    | ok y =>
      have hrest := ih (add acc y)
      cases hl : l.mapM read with
      | error e =>
        rw [hl] at hrest
        exact hrest
      | ok ys =>
        rw [hl] at hrest
        exact hrest

def matchingTexts (texts : List (String × Bool)) : List String := (texts.filter (·.2)).map (·.1)

def DiffFile.matching (needle : Option String) (file : DiffFile) : Except String (Option (List String)) := do
  match ← file.patch with
  | none => pure none
  | some patch =>
    let texts ← patch.hunks.mapM (hunkText needle)
    pure (some (matchingTexts texts))

def addText (maxHunks : Nat) (hunks : Hunks) (text : String) : Hunks :=
  if maxHunks ≤ hunks.shown then { hunks with omitted := hunks.omitted + 1 }
  else { hunks with text := hunks.text ++ text, shown := hunks.shown + 1 }

theorem foldl_addText (maxHunks : Nat) (texts : List String) (hunks : Hunks) (hroom : hunks.shown ≤ maxHunks)
    (hfull : 0 < hunks.omitted → hunks.shown = maxHunks) :
    texts.foldl (addText maxHunks) hunks =
      ⟨hunks.text ++ String.join (texts.take (maxHunks - hunks.shown)), min (hunks.shown + texts.length) maxHunks,
        hunks.omitted + (texts.length - (maxHunks - hunks.shown))⟩ := by
  induction texts generalizing hunks with
  | nil =>
    simp [Nat.min_eq_left hroom]
  | cons text texts ih =>
    rw [List.foldl_cons, addText]
    split
    · rename_i hle
      have hshown : hunks.shown = maxHunks := Nat.le_antisymm hroom hle
      rw [ih { hunks with omitted := hunks.omitted + 1 } hroom fun _ => hshown]
      simp only [hshown, Nat.sub_self, List.take_zero, List.length_cons, Hunks.mk.injEq, true_and]
      omega
    · rename_i hlt
      have hnone : hunks.omitted = 0 := by
        by_contra hpos
        exact hlt (hfull (Nat.pos_of_ne_zero hpos)).ge
      obtain ⟨room, hsucc⟩ : ∃ room, maxHunks - hunks.shown = room + 1 := ⟨maxHunks - hunks.shown - 1, by omega⟩
      have hroom' : maxHunks - (hunks.shown + 1) = room := by omega
      rw [ih ⟨hunks.text ++ text, hunks.shown + 1, hunks.omitted⟩ (by dsimp only; omega) fun hpos => absurd hnone hpos.ne']
      simp only [hroom', hsucc, List.take_succ_cons, String.join_cons, String.append_assoc, List.length_cons, Hunks.mk.injEq,
        true_and]
      omega

theorem foldl_matchingTexts (maxHunks : Nat) (texts : List (String × Bool)) (hunks : Hunks) :
    texts.foldl (fun hunks text => if text.2 then addText maxHunks hunks text.1 else hunks) hunks =
      (matchingTexts texts).foldl (addText maxHunks) hunks := by
  rw [matchingTexts, List.foldl_map, List.foldl_filter]

/-- The hunks shown are the first of those that match, and all others are counted. -/
theorem selectHunks_eq (patch : Patch) (needle : Option String) (maxHunks : Nat) :
    selectHunks patch needle maxHunks = (patch.hunks.mapM (hunkText needle)).map fun texts =>
      ⟨String.join ((matchingTexts texts).take maxHunks), min (matchingTexts texts).length maxHunks,
        (matchingTexts texts).length - maxHunks⟩ := by
  have hstep (hunks : Hunks) (hunk : Except String DiffHunk) : selectHunk needle maxHunks hunks hunk =
      (hunkText needle hunk).map fun text => if text.2 then addText maxHunks hunks text.1 else hunks := by
    unfold selectHunk
    cases hunkText needle hunk with
    | error e => rfl
    | ok text =>
      obtain ⟨text, found⟩ := text
      cases found with
      | false => rfl
      | true =>
        change (if maxHunks ≤ hunks.shown then _ else _) = Except.ok (addText maxHunks hunks text)
        unfold addText
        split <;> rfl
  rw [selectHunks, foldlM_read hstep]
  congr 1
  funext texts
  rw [foldl_matchingTexts, foldl_addText maxHunks _ {} (Nat.zero_le _) nofun]
  simp

def omittedNote (omitted : Nat) : String :=
  if 0 < omitted then "... (" ++ toString omitted ++ " more matching hunk(s) omitted)\n" else ""

def blockText (delta : DiffDelta) (needle : Option String) (maxHunks : Nat) : Option (List String) → Option String
  | none => if needle.isSome then none else some (diffHeader delta ++ "Binary files differ\n")
  | some hunks =>
    if needle.isSome && hunks.isEmpty then none
    else some (diffHeader delta ++ fileMarkers delta ++ String.join (hunks.take maxHunks) ++
      omittedNote (hunks.length - maxHunks))

def omittedOf (maxHunks : Nat) (hunks : Option (List String)) : Nat := (hunks.map fun hunks => hunks.length - maxHunks).getD 0

/-- The block of a file, from the texts of its hunks. -/
theorem fileBlock_of_matching {file : DiffFile} {patch : Option Patch} {needle : Option String} {maxHunks : Nat}
    {block : FileBlock} (hpos : 0 < maxHunks) (hpatch : file.patch = .ok patch)
    (h : fileBlock file.delta patch needle maxHunks = .ok block) :
    ∃ hunks, file.matching needle = .ok hunks ∧ block.text = blockText file.delta needle maxHunks hunks ∧
      block.omittedHunks = omittedOf maxHunks hunks := by
  cases patch with
  | none =>
    refine ⟨none, ?_, ?_⟩
    · rw [DiffFile.matching, hpatch]
      rfl
    · obtain rfl := Except.ok.inj h
      unfold binaryBlock blockText
      split <;> exact ⟨rfl, rfl⟩
  | some patch =>
    rw [fileBlock, selectHunks_eq] at h
    obtain ⟨hunks, hhunks, h⟩ := Except.ok_of_bind h
    obtain ⟨texts, htexts, rfl⟩ := Except.ok_of_map hhunks
    refine ⟨some (matchingTexts texts), ?_, ?_⟩
    · rw [DiffFile.matching, hpatch]
      change (patch.hunks.mapM (hunkText needle) >>= _) = _
      rw [htexts]
      rfl
    · have hshown : (min (matchingTexts texts).length maxHunks == 0) = (matchingTexts texts).isEmpty := by
        rw [Bool.eq_iff_iff, beq_iff_eq, List.isEmpty_iff, ← List.length_eq_zero_iff]
        omega
      rw [hshown] at h
      rw [blockText]
      split at h
      · rename_i hnone
        obtain rfl := Except.ok.inj h
        exact ⟨(if_pos hnone).symm, rfl⟩
      · rename_i hsome
        obtain rfl := Except.ok.inj h
        exact ⟨(if_neg hsome).symm, rfl⟩

end RustyCore.GitPatch
