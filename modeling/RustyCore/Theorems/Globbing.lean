import RustyCore.Behavior.Rules
import RustyCore.Lib.Passage

/-! What a glob of a behaviour rule means: its tokens, and the pieces of a text that each of them stands for. The
    matcher drops the slash of a `**/` with the stars, so that it matches where a `**/` stops inside a segment too. -/

namespace RustyCore

open Text List

inductive GlobToken where
  /-- `**/` -/
  | segments
  /-- `**` without a slash behind it. -/
  | anything
  | withinSegment
  | one
  | literal (c : Char)

namespace Rules

def globTokens : List Char → List GlobToken
  | [] => []
  | '*' :: '*' :: '/' :: rest => .segments :: globTokens rest
  | '*' :: '*' :: rest => .anything :: globTokens rest
  | '*' :: rest => .withinSegment :: globTokens rest
  | '?' :: rest => .one :: globTokens rest
  | literal :: rest => .literal literal :: globTokens rest

def WholeSegments (piece : List Char) : Prop :=
  ∃ segments : List (List Char), (∀ segment ∈ segments, '/' ∉ segment) ∧ piece = segments.flatMap (· ++ ['/'])

/-- What each token stands for, given what a `**/` does. -/
def StandsFor (segments : List Char → Prop) : GlobToken → List Char → Prop
  | .segments, piece => segments piece
  | .anything, _ => True
  | .withinSegment, piece => '/' ∉ piece
  | .one, piece => ∃ c, piece = [c] ∧ c ≠ '/'
  | .literal literal, piece => piece = [literal]

def GlobMeans (pattern text : String) : Prop :=
  Splits (StandsFor WholeSegments) (globTokens pattern.toList) text.toList

/-- The text can be split so that a `**/` stops inside a segment. -/
def StopsInside (pattern text : String) : Prop :=
  ∃ pieces, text.toList = pieces.flatten ∧
    List.Forall₂ (StandsFor fun _ => True) (globTokens pattern.toList) pieces ∧
    ∃ piece, (GlobToken.segments, piece) ∈ (globTokens pattern.toList).zip pieces ∧ ¬WholeSegments piece

variable {pattern text tail piece : List Char} {tokens : List GlobToken} {segments : List Char → Prop}

theorem mem_segmentTails : tail ∈ segmentTails text ↔ ∃ piece, text = piece ++ tail ∧ '/' ∉ piece := by
  induction text generalizing tail with
  | nil =>
    rw [segmentTails, mem_singleton]
    constructor
    · rintro rfl
      exact ⟨[], rfl, not_mem_nil⟩
    · rintro ⟨piece, hnil, -⟩
      exact (append_eq_nil_iff.mp hnil.symm).2
  | cons c cs ih =>
    rw [segmentTails, mem_cons]
    constructor
    · rintro (rfl | htail)
      · exact ⟨[], rfl, not_mem_nil⟩
      · split at htail
        · cases htail
        · rename_i hc
          obtain ⟨piece, rfl, hpiece⟩ := ih.mp htail
          exact ⟨c :: piece, rfl, by simp [Ne.symm hc, hpiece]⟩
    · rintro ⟨piece, htext, hpiece⟩
      cases piece with
      | nil => exact .inl htext.symm
      | cons d piece =>
        obtain ⟨rfl, rfl⟩ := List.cons.inj htext
        rw [mem_cons, not_or] at hpiece
        right
        rw [if_neg (Ne.symm hpiece.1)]
        exact ih.mpr ⟨piece, rfl, hpiece.2⟩

theorem globTokens_stars (h : ∀ rest, pattern ≠ '/' :: rest) :
    globTokens ('*' :: '*' :: pattern) = .anything :: globTokens pattern := by
  cases pattern with
  | nil => rfl
  | cons c rest =>
    rw [globTokens]
    rintro rest' hrest
    exact h rest' hrest

theorem globTokens_star (h : ∀ rest, pattern ≠ '*' :: rest) :
    globTokens ('*' :: pattern) = .withinSegment :: globTokens pattern := by
  rw [globTokens]
  · rintro rest rfl
    exact h _ rfl
  · rintro rest rfl
    exact h rest rfl

theorem globTokens_literal {c : Char} (hstar : c ≠ '*') (hone : c ≠ '?') :
    globTokens (c :: pattern) = .literal c :: globTokens pattern := by
  rw [globTokens]
  · rintro rest rfl
    exact absurd rfl hstar
  · rintro rest rfl
    exact absurd rfl hstar
  · exact hstar
  · exact hone

theorem globMatches_iff : globMatches pattern text = true ↔ Splits (StandsFor fun _ => True) (globTokens pattern) text := by
  have hany {p : List Char → Bool} (text : List Char) : text.tails.any p = true ↔ ∃ tail, tail <:+ text ∧ p tail = true := by
    simp only [any_eq_true, mem_tails]
  induction pattern, text using globMatches.induct with
  | case1 text => simp [globMatches, globTokens, splits_nil]
  | case2 text ih =>
    rw [globMatches, globTokens_stars fun rest => (cons_ne_nil '/' rest).symm, splits_cons_any fun _ => trivial, hany]
    simp only [ih]
  | case3 rest text ihtail ih =>
    rw [globMatches, globTokens, splits_cons_any fun _ => trivial, Bool.or_eq_true, hany]
    simp only [ihtail, ih]
    refine or_iff_left_of_imp ?_
    rw [globTokens_literal (by decide) (by decide), splits_cons]
    rintro ⟨piece, tail, rfl, -, htail⟩
    exact ⟨tail, suffix_append piece tail, htail⟩
  | case4 c rest text hc ihtail ih =>
    rw [globMatches, globTokens_stars fun rest' hrest => hc (List.cons.inj hrest).1, splits_cons_any fun _ => trivial,
      Bool.or_eq_true, hany]
    · simp only [ihtail]
      exact or_iff_left_of_imp fun hwhole => ⟨text, suffix_rfl, hwhole⟩
    · exact hc
  | case5 rest text h1 h2 h3 ih =>
    have hstar : ∀ rest', rest ≠ '*' :: rest' := by
      rintro (_ | ⟨c, rest'⟩) rfl
      · exact h1 rfl
      · exact h3 c rest' rfl
    rw [globMatches, globTokens_star hstar, splits_cons, any_eq_true]
    · constructor
      · rintro ⟨tail, htail, hmatches⟩
        obtain ⟨piece, rfl, hpiece⟩ := mem_segmentTails.mp htail
        exact ⟨piece, tail, rfl, hpiece, (ih tail).mp hmatches⟩
      · rintro ⟨piece, tail, rfl, hpiece, htail⟩
        exact ⟨tail, mem_segmentTails.mpr ⟨piece, rfl, hpiece⟩, (ih tail).mpr htail⟩
    · exact h1
    · exact h2
    · exact h3
  | case6 rest first text ih =>
    rw [globMatches, globTokens, splits_cons_one fun _ => Iff.rfl, Bool.and_eq_true]
    simp [ih]
  | case7 rest =>
    rw [globMatches, globTokens, splits_cons_one fun _ => Iff.rfl]
    simp
  | case8 literal rest h1 h2 h3 h4 h5 first text ih =>
    rw [globMatches, globTokens_literal h4 h5, splits_cons_one (p := (· = literal)) fun piece => by simp [StandsFor],
      Bool.and_eq_true]
    · simp [ih]
    all_goals assumption
  | case9 literal rest h1 h2 h3 h4 h5 =>
    rw [globMatches, globTokens_literal h4 h5, splits_cons_one (p := (· = literal)) fun piece => by simp [StandsFor]]
    · simp
    all_goals assumption

theorem splits_literals {literals : List Char} : Splits (StandsFor segments) (literals.map .literal) text ↔ text = literals := by
  induction literals generalizing text with
  | nil => exact splits_nil
  | cons c literals ih =>
    rw [map_cons, splits_cons_one (p := (· = c)) fun piece => by simp [StandsFor]]
    simp [ih]

theorem WholeSegments.getLast? (h : WholeSegments piece) (hne : piece ≠ []) : piece.getLast? = some '/' := by
  obtain ⟨segments, -, rfl⟩ := h
  rcases eq_nil_or_concat segments with rfl | ⟨init, last, rfl⟩
  · exact absurd rfl hne
  · simp

theorem GlobMeans.loosely {pattern text : String} (h : GlobMeans pattern text) : globMatch pattern text = true := by
  rw [globMatch, globMatches_iff]
  refine h.mono fun token piece hpiece => ?_
  cases token with
  | segments | anything => trivial
  | withinSegment | one | literal => exact hpiece

theorem globMatch_cases {pattern text : String} (h : globMatch pattern text = true) :
    GlobMeans pattern text ∨ StopsInside pattern text := by
  rw [globMatch, globMatches_iff] at h
  obtain ⟨pieces, htext, hpieces⟩ := h
  by_cases hinside : ∃ piece, (GlobToken.segments, piece) ∈ (globTokens pattern.toList).zip pieces ∧ ¬WholeSegments piece
  · exact .inr ⟨pieces, htext, hpieces, hinside⟩
  · refine .inl ⟨pieces, htext, forall₂_iff_zip.mpr ⟨hpieces.length_eq, fun {token piece} hmem => ?_⟩⟩
    have hloose := forall₂_zip hpieces hmem
    cases token with
    | segments =>
      by_contra hwhole
      exact hinside ⟨piece, hmem, hwhole⟩
    | anything => trivial
    | withinSegment | one | literal => exact hloose

theorem StopsInside.matches {pattern text : String} (h : StopsInside pattern text) : globMatch pattern text = true := by
  obtain ⟨pieces, htext, hpieces, -⟩ := h
  rw [globMatch, globMatches_iff]
  exact ⟨pieces, htext, hpieces⟩

/-- Glob matching follows its grammar exactly when a text that could be split with a `**/` stopping inside a segment can
    also be split with whole segments. -/
theorem globMatch_follows_iff (pattern text : String) :
    (globMatch pattern text = true ↔ GlobMeans pattern text) ↔ (StopsInside pattern text → GlobMeans pattern text) := by
  constructor
  · intro h hinside
    exact h.mp hinside.matches
  · intro h
    refine ⟨fun hmatch => ?_, GlobMeans.loosely⟩
    rcases globMatch_cases hmatch with hmeans | hinside
    · exact hmeans
    · exact h hinside

/-- A rule about the file `.env` in any folder matches a file whose name only ends so. -/
theorem env_matches_inside : ¬(globMatch "**/.env" "app.env" = true ↔ GlobMeans "**/.env" "app.env") := by
  intro h
  have hmeans : Splits (StandsFor WholeSegments) (.segments :: ".env".toList.map .literal) "app.env".toList :=
    h.mp (by decide)
  obtain ⟨whole, tail, htext, hwhole, htail⟩ := splits_cons.mp hmeans
  rw [splits_literals.mp htail, show "app.env".toList = "app".toList ++ ".env".toList from rfl] at htext
  obtain rfl := append_cancel_right htext
  cases hwhole.getLast? (cons_ne_nil _ _)

end Rules

end RustyCore
