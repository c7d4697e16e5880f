import RustyCore.Theorems.Transition
import RustyCore.Workflow.Criteria

/-! The repair message carries the unmet criteria from a verification to the task queue, which reads their keys
    back from its lines. -/

namespace RustyCore

open List

section

variable [Externals] [CharTables]

namespace Criteria

structure Listed where
  id : String
  status : String
  evidence : String

def Listed.line (e : Listed) : String := "- " ++ e.id ++ " [" ++ e.status ++ "]: " ++ e.evidence

def Listed.key (e : Listed) : String := idKey e.id

def listed (unmet : Nat × Value × String) : Listed where
  id := criterionId unmet.2.1 unmet.1
  status := unmet.2.2
  evidence := ((unmet.2.1.get "evidence").bind Value.asStr).getD "No evidence supplied"

/-- The plan criteria that `check` wants and nobody reported. -/
def unreported (input : Value) (check : CriteriaCheck) : List Listed :=
  match check.planPointer with
  | some planPointer =>
    (missingPlanCriteria (planCriteria (input.pointer planPointer)) (elements (input.pointer check.pointer))).map fun id =>
      ⟨id, "missing", "the review did not report it"⟩
  | none => []

/-- The criteria that `check` reads and that were judged unmet, the deferred ones or the others. -/
def unmetUnder (input : Value) (check : CriteriaCheck) (deferred : Bool) : List Listed :=
  ((unmetCriteria (elements (input.pointer check.pointer))).filter fun unmet =>
    isDeferred unmet.2.2 check.blockOn check.defer == deferred).map listed

def toFix (input : Value) (checks : List VerificationCheck) : List Listed :=
  if (criteriaChecks checks).isEmpty then
    (unmetCriteria (elements ((input.get "check").bind (·.get "criteria")))).map listed
  else (criteriaChecks checks).flatMap fun check => unreported input check ++ unmetUnder input check false

def leftToUser (input : Value) (checks : List VerificationCheck) : List Listed :=
  (criteriaChecks checks).flatMap fun check => unmetUnder input check true

omit [Externals] [CharTables] in
theorem line_missing (id : String) :
    (⟨id, "missing", "the review did not report it"⟩ : Listed).line =
      "- " ++ id ++ " [missing]: the review did not report it" := by
  simp only [Listed.line, String.append_assoc]
  rfl

theorem sortForRepair_eq (input : Value) (check : CriteriaCheck) (unresolved manual : List String) :
    sortForRepair input check unresolved manual =
      (unresolved ++ (unreported input check ++ unmetUnder input check false).map (·.line),
        manual ++ (unmetUnder input check true).map (·.line)) := by
  have hsorted : ∀ (unmet : List (Nat × Value × String)) (u m : List String),
      unmet.foldl (fun lists x =>
        if isDeferred x.2.2 check.blockOn check.defer then (lists.1, lists.2 ++ [focusLine x.1 x.2.1 x.2.2])
        else (lists.1 ++ [focusLine x.1 x.2.1 x.2.2], lists.2)) (u, m) =
      (u ++ ((unmet.filter fun x => isDeferred x.2.2 check.blockOn check.defer == false).map listed).map (·.line),
        m ++ ((unmet.filter fun x => isDeferred x.2.2 check.blockOn check.defer == true).map listed).map (·.line)) := by
    intro unmet
    induction unmet with
    | nil => simp
    | cons first rest ih =>
      intro u m
      obtain ⟨index, criterion, status⟩ := first
      have hline : (listed (index, criterion, status)).line = focusLine index criterion status := rfl
      rw [foldl_cons]
      cases hdeferred : isDeferred status check.blockOn check.defer with
      | true | false => simp [hdeferred, ih, hline]
  unfold sortForRepair unreported
  dsimp only
  rw [hsorted]
  cases check.planPointer with
  | none => simp [unmetUnder]
  | some planPointer =>
    have hline : (fun e : Listed => e.line) ∘ (fun id => ⟨id, "missing", "the review did not report it"⟩) =
        fun id => "- " ++ id ++ " [missing]: the review did not report it" := funext line_missing
    simp only [unmetUnder, map_append, map_map, append_assoc, hline]

theorem verificationRepairFocus_eq (input : Value) (issues : List String) (checks : List VerificationCheck) :
    verificationRepairFocus input issues checks =
      repairMessage input issues ((toFix input checks).map (·.line)) ((leftToUser input checks).map (·.line)) := by
  have hfold : ∀ (cs : List CriteriaCheck) (u m : List String),
      cs.foldl (fun lists check => sortForRepair input check lists.1 lists.2) (u, m) =
        (u ++ (cs.flatMap fun check => unreported input check ++ unmetUnder input check false).map (·.line),
          m ++ (cs.flatMap fun check => unmetUnder input check true).map (·.line)) := by
    intro cs
    induction cs with
    | nil => simp
    | cons check cs ih =>
      intro u m
      rw [foldl_cons]
      dsimp only
      rw [sortForRepair_eq, ih]
      simp only [flatMap_cons, map_append, append_assoc]
  unfold verificationRepairFocus toFix leftToUser
  dsimp only
  rw [hfold]
  cases hchecks : criteriaChecks checks with
  | nil =>
    simp only [isEmpty_nil, if_true, flatMap_nil, map_nil, append_nil, map_map]
    rfl
  | cons check rest => simp

def summary (input : Value) : Option String := ((input.get "check").bind (·.get "summary")).bind Value.asStr

def issuePieces : List String → List (String × String)
  | [] => [("Verification did not pass: ", "")]
  | issue :: issues => ("Verification did not pass: ", issue) :: issues.map ("; ", ·)

def Listed.pieces (before : String) (e : Listed) : List (String × String) :=
  [(before ++ "- ", e.id), (" [", e.status), ("]: ", e.evidence)]

def sectionPieces (title : String) : List Listed → List (String × String)
  | [] => []
  | e :: es => e.pieces ("\n\n" ++ title ++ "\n") ++ es.flatMap (·.pieces "\n")

def focusTitle : String := "Focus on these unmet criteria:"

def manualTitle : String := "Left for the user to check by hand; do not try to fix these:"

/-- The message as it is put together: the texts it quotes, each with the words before it. -/
def pieces (input : Value) (issues : List String) (checks : List VerificationCheck) : List (String × String) :=
  issuePieces issues ++ (sectionPieces focusTitle (toFix input checks) ++
    (sectionPieces manualTitle (leftToUser input checks) ++
      (summary input).toList.map ("\n\nReview summary: ", ·)))

omit [Externals] [CharTables] in
theorem weave_issuePieces (issues : List String) :
    Text.weave (issuePieces issues) = ("Verification did not pass: " ++ Text.join "; " issues).toList := by
  cases issues with
  | nil => rfl
  | cons issue issues =>
    rw [issuePieces, Text.weave_cons, String.toList_append, Text.toList_join]
    simp [Text.weave, flatMap_map]

omit [Externals] [CharTables] in
theorem Listed.weave_pieces (before : String) (e : Listed) :
    Text.weave (e.pieces before) = before.toList ++ e.line.toList := by
  simp [Text.weave, Listed.pieces, Listed.line]

omit [Externals] [CharTables] in
theorem weave_sectionPieces (title : String) (es : List Listed) :
    Text.weave (sectionPieces title es) =
      (if (es.map (·.line)).isEmpty then [] else [title ++ "\n" ++ Text.join "\n" (es.map (·.line))]).flatMap
        fun part : String => "\n\n".toList ++ part.toList := by
  cases es with
  | nil => rfl
  | cons e es =>
    have hrest : Text.weave (es.flatMap (·.pieces "\n")) = es.flatMap fun e => "\n".toList ++ e.line.toList := by
      simp only [Text.weave, flatMap_assoc]
      exact flatMap_congr fun e _ => e.weave_pieces "\n"
    have hjoin := Text.toList_join "\n" e.line (es.map (·.line))
    rw [flatMap_map] at hjoin
    rw [sectionPieces, Text.weave_append, e.weave_pieces, hrest]
    simp [hjoin]

theorem toList_verificationRepairFocus (input : Value) (issues : List String) (checks : List VerificationCheck) :
    (verificationRepairFocus input issues checks).toList = Text.weave (pieces input issues checks) := by
  have hfocus := weave_sectionPieces focusTitle (toFix input checks)
  have hmanual := weave_sectionPieces manualTitle (leftToUser input checks)
  have hmessage : repairMessage input issues ((toFix input checks).map (·.line)) ((leftToUser input checks).map (·.line)) =
      Text.join "\n\n" (("Verification did not pass: " ++ Text.join "; " issues) ::
        ((if ((toFix input checks).map (·.line)).isEmpty then []
            else [focusTitle ++ "\n" ++ Text.join "\n" ((toFix input checks).map (·.line))]) ++
          ((if ((leftToUser input checks).map (·.line)).isEmpty then []
              else [manualTitle ++ "\n" ++ Text.join "\n" ((leftToUser input checks).map (·.line))]) ++
            (summary input).toList.map ("Review summary: " ++ ·)))) := by
    unfold repairMessage
    rw [append_assoc, append_assoc, singleton_append]
    cases hsummary : summary input <;> rw [summary] at hsummary <;> rw [hsummary] <;> rfl
  rw [verificationRepairFocus_eq, hmessage, Text.toList_join, flatMap_append, flatMap_append, ← hfocus,
    ← hmanual, pieces, Text.weave_append, Text.weave_append, Text.weave_append, weave_issuePieces]
  cases summary input <;> simp [Text.weave]

/-- The words before a quoted text, the section's own apart. -/
def words : List String :=
  ["Verification did not pass: ", "; ", "\n- ", " [", "]: ", "\n\n" ++ manualTitle ++ "\n- ", "\n\nReview summary: "]

section

variable {pattern : List Char}

omit [Externals] [CharTables] in
theorem separates_issuePieces (h : ∀ w ∈ words, Text.Separates pattern w.toList) (issues : List String) :
    ∀ piece ∈ issuePieces issues, Text.Separates pattern piece.1.toList := by
  intro piece hpiece
  cases issues with
  | nil =>
    rw [mem_singleton.mp hpiece]
    exact h _ (by simp [words])
  | cons issue issues =>
    rcases mem_cons.mp hpiece with rfl | hpiece
    · exact h _ (by simp [words])
    · obtain ⟨issue, -, rfl⟩ := mem_map.mp hpiece
      exact h _ (by simp [words])

omit [Externals] [CharTables] in
theorem separates_sectionPieces (h : ∀ w ∈ words, Text.Separates pattern w.toList) {title : String}
    {es : List Listed} (htitle : es = [] ∨ Text.Separates pattern ("\n\n" ++ title ++ "\n- ").toList) :
    ∀ piece ∈ sectionPieces title es, Text.Separates pattern piece.1.toList := by
  have hlisted : ∀ (before : String) (e : Listed), Text.Separates pattern (before ++ "- ").toList →
      ∀ piece ∈ e.pieces before, Text.Separates pattern piece.1.toList := by
    intro before e hbefore piece hpiece
    simp only [Listed.pieces, mem_cons, not_mem_nil, or_false] at hpiece
    rcases hpiece with rfl | rfl | rfl
    · exact hbefore
    · exact h _ (by simp [words])
    · exact h _ (by simp [words])
  intro piece hpiece
  cases es with
  | nil => cases hpiece
  | cons e es =>
    rcases mem_append.mp hpiece with hpiece | hpiece
    · refine hlisted _ e ?_ piece hpiece
      rw [String.append_assoc]
      exact htitle.resolve_left (cons_ne_nil e es)
    · obtain ⟨e, -, hpiece⟩ := mem_flatMap.mp hpiece
      exact hlisted "\n" e (h "\n- " (by simp [words])) piece hpiece

theorem separates_pieces (issues : List String) (h : ∀ w ∈ words, Text.Separates pattern w.toList) {input : Value}
    {checks : List VerificationCheck}
    (hfocus : toFix input checks = [] ∨ Text.Separates pattern ("\n\n" ++ focusTitle ++ "\n- ").toList) :
    ∀ piece ∈ pieces input issues checks, Text.Separates pattern piece.1.toList := by
  intro piece hpiece
  simp only [pieces, mem_append] at hpiece
  rcases hpiece with hpiece | hpiece | hpiece | hpiece
  · exact separates_issuePieces h issues piece hpiece
  · exact separates_sectionPieces h hfocus piece hpiece
  · exact separates_sectionPieces h (.inr (h _ (by simp [words]))) piece hpiece
  · obtain ⟨text, -, rfl⟩ := mem_map.mp hpiece
    exact h _ (by simp [words])

end

def Listed.lines (e : Listed) : List (List Char) := Text.splitOn (· == '\n') e.line.toList

/-- The lines of a criterion up to a blank one. -/
def Listed.openLines (e : Listed) : List (List Char) := e.lines.takeWhile (!Text.isBlankLine ·)

/-- The criteria with no blank line before them. -/
def shown : List Listed → List Listed
  | [] => []
  | e :: es => e :: if e.lines.all (!Text.isBlankLine ·) then shown es else []

omit [Externals] [CharTables] in
theorem Listed.exists_lines (e : Listed) :
    ∃ line lines, e.lines = line :: lines ∧ Text.isBlankLine line = false := by
  obtain ⟨line, lines, hlines⟩ := exists_cons_of_ne_nil (@Text.splitOn_ne_nil (· == '\n')
    (' ' :: (e.id.toList ++ (" [".toList ++ (e.status.toList ++ ("]: ".toList ++ e.evidence.toList))))))
  refine ⟨'-' :: line, lines, ?_, ?_⟩
  · have hline : e.line.toList = ['-'] ++
        (' ' :: (e.id.toList ++ (" [".toList ++ (e.status.toList ++ ("]: ".toList ++ e.evidence.toList))))) := by
      simp [Listed.line]
    rw [Listed.lines, hline, Text.splitOn_append_head (by simp) hlines]
    rfl
  · rw [← Bool.not_eq_true, Text.isBlankLine_iff]
    intro hblank
    exact absurd (hblank '-' mem_cons_self) (by decide)

omit [Externals] [CharTables] in
theorem takeWhile_lines (es : List Listed) :
    (es.flatMap (·.lines)).takeWhile (!Text.isBlankLine ·) = (shown es).flatMap (·.openLines) := by
  induction es with
  | nil => rfl
  | cons e es ih =>
    rw [flatMap_cons, shown, flatMap_cons]
    split
    · rename_i hopen
      have hlines : ∀ line ∈ e.lines, (!Text.isBlankLine line) = true := all_eq_true.mp hopen
      rw [takeWhile_append_of_pos hlines, ih, Listed.openLines, takeWhile_eq_self_iff.mpr hlines]
    · rename_i hblank
      have hlength : (e.lines.takeWhile (!Text.isBlankLine ·)).length ≠ e.lines.length := by
        intro hlength
        refine hblank (all_eq_true.mpr (takeWhile_eq_self_iff.mp ?_))
        exact (List.takeWhile_prefix _).eq_of_length hlength
      rw [takeWhile_append, if_neg hlength, flatMap_nil, append_nil, Listed.openLines]

end Criteria

namespace Feedback

open Criteria

omit [Externals] in
theorem criterionKey_stripReturn (line : List Char) : criterionKey (Text.stripReturn line) = criterionKey line := by
  unfold Text.stripReturn
  split
  · rename_i hlast
    unfold criterionKey
    conv_rhs => rw [Text.eq_append_return (beq_iff_eq.mp hlast), Text.trimMatches_append_of_pos (by decide)]
  · rfl

/-- The keys on the lines `- ID [` of the first paragraph of a text. -/
def keysOn (text : List Char) : List String := (Text.paragraph (Text.lines text)).filterMap criterionKey

omit [Externals] in
theorem keysOn_eq (text : List Char) :
    keysOn text = (Text.paragraph (Text.splitOn (· == '\n') text)).filterMap criterionKey :=
  Text.filterMap_paragraph_lines criterionKey_stripReturn text

/-- The keys are those of the criteria. -/
def Names (keys : List String) (es : List Listed) : Prop := ∀ key, key ∈ keys ↔ key ∈ es.map (·.key)

/-- Every criterion is named on a line that no blank one hides, by its own line or another, and no such line names
    what is not listed. -/
structure ReadBack (es : List Listed) : Prop where
  named : ∀ e ∈ es, ∃ other ∈ shown es, ∃ line ∈ other.openLines, criterionKey line = some e.key
  listed : ∀ e ∈ shown es, ∀ line ∈ e.openLines, ∀ key, criterionKey line = some key → key ∈ es.map (·.key)

omit [CharTables] in
/-- The criteria list in the texts: it opens in the first that holds `<criteria>` and closes at the next
    `</criteria>`, in the same text or a later one. -/
def quotedList (pieces : List (String × String)) : Option (List Value) :=
  (Text.splitTexts "<criteria>".toList [] pieces).bind fun (_, text, rest) =>
    (Text.splitTexts "</criteria>".toList text rest).bind fun (json, _) =>
      (Externals.parseJson (String.ofList json)).bind Value.asArray

def failed (results : List Value) : List String :=
  (results.filter fun result => (result.get "status").bind Value.asStr != some "pass").filterMap fun result =>
    ((result.get "id").bind Value.asStr).map idKey

/-- What follows the first section heading in the issues, blank lines apart; in any text where there is nothing to
    fix. -/
def quotedSection (input : Value) (issues : List String) (checks : List VerificationCheck) : Option (List Char) :=
  if toFix input checks = [] then
    (Text.splitTexts focusTitle.toList [] (pieces input issues checks)).map fun (_, text, rest) => text ++ Text.weave rest
  else
    ((Text.splitTexts focusTitle.toList [] (issuePieces issues)).map fun (_, text, rest) => text ++ Text.weave rest).filter
      fun text => (Text.splitOn (· == '\n') text).any (!Text.isBlankLine ·)

/-- No quoted text passes for what the message is made of: a criteria list or a section heading in the texts names
    just the criteria to fix, and without one they are read back from their own lines. -/
structure Plain (input : Value) (issues : List String) (checks : List VerificationCheck) : Prop where
  list : ∀ results, quotedList (pieces input issues checks) = some results → Names (failed results) (toFix input checks)
  heading : quotedList (pieces input issues checks) = none →
    ∀ text, quotedSection input issues checks = some text → Names (keysOn text) (toFix input checks)
  readBack : quotedList (pieces input issues checks) = none → quotedSection input issues checks = none →
    ReadBack (toFix input checks)

theorem legacyResults_eq (input : Value) (issues : List String) (checks : List VerificationCheck) :
    legacyResults (verificationRepairFocus input issues checks) = quotedList (pieces input issues checks) := by
  have hopen : ∀ piece ∈ pieces input issues checks, Text.Separates "<criteria>".toList piece.1.toList :=
    separates_pieces _ (by decide +kernel) (.inr (by decide +kernel))
  have hclose : ∀ piece ∈ pieces input issues checks, Text.Separates "</criteria>".toList piece.1.toList :=
    separates_pieces _ (by decide +kernel) (.inr (by decide +kernel))
  have hsplit := Text.splitOnce_weave [] (by decide) hopen
  rw [nil_append, ← toList_verificationRepairFocus] at hsplit
  rw [legacyResults, quotedList, hsplit, Option.bind_map]
  refine Option.bind_congr fun found hfound => ?_
  have hrest := Text.splitOnce_weave found.2.1 (by decide) fun piece hpiece =>
    hclose piece (Text.mem_of_splitTexts hfound hpiece)
  show (Text.splitOnce "</criteria>".toList (found.2.1 ++ Text.weave found.2.2)).bind _ = _
  rw [hrest, Option.bind_map]
  rfl

theorem unmetCriteria_of_list {results : List Value} {input : Value} {issues : List String}
    {checks : List VerificationCheck} (h : quotedList (pieces input issues checks) = some results) :
    unmetCriteria (verificationRepairFocus input issues checks) = failed results := by
  rw [unmetCriteria, legacyResults_eq, h]
  rfl

theorem unmetCriteria_of_none {input : Value} {issues : List String} {checks : List VerificationCheck}
    (h : quotedList (pieces input issues checks) = none) :
    unmetCriteria (verificationRepairFocus input issues checks) =
      ((Text.splitOnce focusTitle.toList (Text.weave (pieces input issues checks))).map (keysOn ·.2)).getD [] := by
  rw [unmetCriteria, legacyResults_eq, h, toList_verificationRepairFocus]
  cases hsplit : Text.splitOnce focusTitle.toList (Text.weave (pieces input issues checks)) <;>
    rw [focusTitle] at hsplit <;> dsimp only <;> rw [hsplit] <;> rfl

omit [Externals] in
theorem readBack_iff (es : List Listed) :
    Names (((es.flatMap (·.lines)).takeWhile (!Text.isBlankLine ·)).filterMap criterionKey) es ↔ ReadBack es := by
  have hread : ∀ key, key ∈ ((es.flatMap (·.lines)).takeWhile (!Text.isBlankLine ·)).filterMap criterionKey ↔
      ∃ e ∈ shown es, ∃ line ∈ e.openLines, criterionKey line = some key := by
    intro key
    rw [takeWhile_lines, mem_filterMap]
    constructor
    · rintro ⟨line, hline, hkey⟩
      obtain ⟨e, he, hline⟩ := mem_flatMap.mp hline
      exact ⟨e, he, line, hline, hkey⟩
    · rintro ⟨e, he, line, hline, hkey⟩
      exact ⟨line, mem_flatMap.mpr ⟨e, he, hline⟩, hkey⟩
  constructor
  · intro h
    refine ⟨fun e he => (hread e.key).mp ((h e.key).mpr (mem_map_of_mem he)), fun e he line hline key hkey => ?_⟩
    exact (h key).mp ((hread key).mpr ⟨e, he, line, hline, hkey⟩)
  · intro h key
    rw [hread]
    constructor
    · rintro ⟨e, he, line, hline, hkey⟩
      exact h.listed e he line hline key hkey
    · intro hmem
      obtain ⟨e, he, rfl⟩ := mem_map.mp hmem
      exact h.named e he

omit [Externals] in
theorem keysOn_append_of_blank (text : List Char) (hblank : ∀ line ∈ Text.splitOn (· == '\n') text, Text.isBlankLine line = true)
    (more : List Char) : keysOn (text ++ '\n' :: more) = keysOn more := by
  rw [keysOn_eq, keysOn_eq, Text.splitOn_append_sep _ _ rfl, Text.paragraph_append_of_blank hblank]

omit [Externals] in
theorem keysOn_append_of_solid {text : List Char}
    (hsolid : (Text.splitOn (· == '\n') text).any (!Text.isBlankLine ·) = true) (more : List Char) :
    keysOn (text ++ '\n' :: '\n' :: more) = keysOn text := by
  have hleading : Text.splitOn (· == '\n') ('\n' :: more) = [] :: Text.splitOn (· == '\n') more :=
    Text.splitOn_append_sep [] more rfl
  rw [keysOn_eq, keysOn_eq, Text.splitOn_append_sep _ _ rfl, hleading, Text.paragraph_append_blank_of_solid hsolid rfl]

/-- What ends a section: the end of the message or a blank line. -/
def Ends (rest : List Char) : Prop := rest = [] ∨ ∃ more, rest = '\n' :: '\n' :: more

section

variable {es : List Listed} {rest : List Char}

omit [Externals] [CharTables] in
theorem takeWhile_section (hsome : es ≠ []) (hrest : Ends rest) :
    (Text.splitOn (· == '\n') ((Text.join "\n" (es.map (·.line))).toList ++ rest)).takeWhile (!Text.isBlankLine ·) =
      (es.flatMap (·.lines)).takeWhile (!Text.isBlankLine ·) := by
  have hlines : es.map (·.line) ≠ [] := by simpa using hsome
  have hbody : Text.splitOn (· == '\n') (Text.join "\n" (es.map (·.line))).toList = es.flatMap (·.lines) := by
    have hjoin := @Text.splitOn_join '\n' (· == '\n') rfl _ hlines
    rwa [flatMap_map] at hjoin
  rcases hrest with rfl | ⟨more, rfl⟩
  · rw [append_nil, hbody]
  · have hleading : Text.splitOn (· == '\n') ('\n' :: more) = [] :: Text.splitOn (· == '\n') more :=
      Text.splitOn_append_sep [] more rfl
    rw [Text.splitOn_append_sep _ _ rfl, hbody, hleading, Text.takeWhile_append_blank rfl]

omit [Externals] in
theorem keysOn_section (hsome : es ≠ []) (hrest : Ends rest) :
    keysOn ('\n' :: ((Text.join "\n" (es.map (·.line))).toList ++ rest)) =
      ((es.flatMap (·.lines)).takeWhile (!Text.isBlankLine ·)).filterMap criterionKey := by
  obtain ⟨e, others, rfl⟩ := exists_cons_of_ne_nil hsome
  obtain ⟨line, lines, hlines, hsolid⟩ := e.exists_lines
  have htake := takeWhile_section hsome hrest
  obtain ⟨first, after, hsplit⟩ := exists_cons_of_ne_nil (@Text.splitOn_ne_nil (· == '\n')
    ((Text.join "\n" ((e :: others).map (·.line))).toList ++ rest))
  have hfirst : Text.isBlankLine first = false := by
    rw [hsplit, flatMap_cons, hlines, cons_append, takeWhile_cons_of_pos (a := line) (by simp [hsolid]),
      takeWhile_cons] at htake
    split at htake
    · rename_i h
      simpa using h
    · cases htake
  have hblank := keysOn_append_of_blank [] (by decide)
    ((Text.join "\n" ((e :: others).map (·.line))).toList ++ rest)
  rw [nil_append] at hblank
  rw [hblank, keysOn_eq, ← htake, hsplit, Text.paragraph_cons hfirst]

omit [Externals] in
/-- The section is read in the same way behind its own title. -/
theorem keysOn_titled (hsome : es ≠ []) (hrest : Ends rest) :
    keysOn (focusTitle.toList ++ '\n' :: ((Text.join "\n" (es.map (·.line))).toList ++ rest)) =
      ((es.flatMap (·.lines)).takeWhile (!Text.isBlankLine ·)).filterMap criterionKey := by
  have htitle : Text.splitOn (· == '\n') focusTitle.toList = [focusTitle.toList] := by decide
  have hsolid : Text.isBlankLine focusTitle.toList = false := by decide
  have hkey : criterionKey focusTitle.toList = none := by
    have hprefix : Text.stripPrefix "- ".toList (Text.trimMatches Text.isWhitespace focusTitle.toList) = none := by
      decide
    rw [criterionKey, hprefix]
    rfl
  rw [keysOn_eq, Text.splitOn_append_sep _ _ rfl, htitle, singleton_append, Text.paragraph_cons hsolid,
    takeWhile_cons_of_pos (by rw [hsolid]; rfl), filterMap_cons_none hkey, takeWhile_section hsome hrest]

end

section

variable {input : Value} {issues : List String} {checks : List VerificationCheck}

variable (issues) in
theorem weave_pieces (hsome : toFix input checks ≠ []) :
    ∃ rest, Ends rest ∧ Text.weave (pieces input issues checks) =
      Text.weave (issuePieces issues) ++ ("\n\n".toList ++ (focusTitle.toList ++
        '\n' :: ((Text.join "\n" ((toFix input checks).map (·.line))).toList ++ rest))) := by
  have hunresolved : ¬ ((toFix input checks).map (·.line)).isEmpty = true := by simpa using hsome
  have hends : ∀ parts : List String, Ends (parts.flatMap fun part : String => "\n\n".toList ++ part.toList) := by
    intro parts
    cases parts with
    | nil => exact .inl rfl
    | cons part parts => exact .inr ⟨_, rfl⟩
  refine ⟨_, hends ((if ((leftToUser input checks).map (·.line)).isEmpty then []
      else [manualTitle ++ "\n" ++ Text.join "\n" ((leftToUser input checks).map (·.line))]) ++
    (summary input).toList.map ("Review summary: " ++ ·)), ?_⟩
  rw [pieces, Text.weave_append, Text.weave_append, Text.weave_append, weave_sectionPieces focusTitle,
    if_neg hunresolved, weave_sectionPieces manualTitle, flatMap_append]
  cases summary input <;> simp [Text.weave]

omit [Externals] [CharTables] in
theorem separates_words : ∀ w ∈ words, Text.Separates focusTitle.toList w.toList := by decide +kernel

theorem unmetCriteria_of_section {text : List Char} (hlist : quotedList (pieces input issues checks) = none)
    (h : quotedSection input issues checks = some text) :
    unmetCriteria (verificationRepairFocus input issues checks) = keysOn text := by
  rw [unmetCriteria_of_none hlist]
  unfold quotedSection at h
  split at h
  · rename_i hnone
    obtain ⟨found, hfound, rfl⟩ := Option.map_eq_some_iff.mp h
    have hsplit := Text.splitOnce_weave [] (by decide) (separates_pieces issues separates_words (.inl hnone))
    rw [nil_append, hfound] at hsplit
    rw [hsplit]
    rfl
  · rename_i hsome
    obtain ⟨hmap, hsolid⟩ := Option.filter_eq_some_iff.mp h
    obtain ⟨found, hfound, rfl⟩ := Option.map_eq_some_iff.mp hmap
    obtain ⟨rest, -, hmessage⟩ := weave_pieces issues hsome
    have hsplit := Text.splitOnce_weave [] (by decide) (separates_issuePieces separates_words issues)
    rw [nil_append, hfound] at hsplit
    rw [hmessage, Text.splitOnce_append_of_some (by decide) hsplit]
    exact keysOn_append_of_solid hsolid _

theorem names_unmetCriteria_iff (hlist : quotedList (pieces input issues checks) = none)
    (h : quotedSection input issues checks = none) :
    Names (unmetCriteria (verificationRepairFocus input issues checks)) (toFix input checks) ↔
      ReadBack (toFix input checks) := by
  rw [unmetCriteria_of_none hlist, ← readBack_iff]
  unfold quotedSection at h
  split at h
  · rename_i hnone
    have hsplit := Text.splitOnce_weave [] (by decide) (separates_pieces issues separates_words (.inl hnone))
    rw [nil_append, Option.map_eq_none_iff.mp h] at hsplit
    rw [hsplit, hnone]
    rfl
  · rename_i hsome
    obtain ⟨rest, hrest, hmessage⟩ := weave_pieces issues hsome
    have hsplit := Text.splitOnce_weave [] (by decide) (separates_issuePieces separates_words issues)
    rw [nil_append] at hsplit
    rw [hmessage]
    cases hfound : Text.splitTexts focusTitle.toList [] (issuePieces issues) with
    | none =>
      rw [hfound] at hsplit
      have hfirst : ¬ focusTitle.toList <:+: (Text.weave (issuePieces issues) ++ "\n\n".toList) ++ focusTitle.toList.dropLast := by
        rw [append_assoc]
        intro hin
        have hblank : Text.Separates focusTitle.toList "\n\n".toList := by decide
        rcases hblank.occurs hin with hin | hin
        · have hsome := Text.splitOnce_isSome hin
          rw [hsplit] at hsome
          cases hsome
        · have hlength := hin.length_le
          exact absurd hlength (by decide)
      rw [← append_assoc, Text.splitOnce_append hfirst]
      show Names (keysOn _) _ ↔ _
      rw [keysOn_section hsome hrest]
    | some found =>
      rw [hfound] at hsplit h
      rw [Text.splitOnce_append_of_some (by decide) hsplit]
      show Names (keysOn _) _ ↔ _
      have hblank : ∀ line ∈ Text.splitOn (· == '\n') (found.2.1 ++ Text.weave found.2.2), Text.isBlankLine line = true := by
        intro line hline
        by_contra hsolid
        have hany : (Text.splitOn (· == '\n') (found.2.1 ++ Text.weave found.2.2)).any (!Text.isBlankLine ·) = true :=
          any_eq_true.mpr ⟨line, hline, by simpa using hsolid⟩
        simp [Option.filter, hany] at h
      have hleading := keysOn_append_of_blank [] (by decide) (focusTitle.toList ++
        '\n' :: ((Text.join "\n" ((toFix input checks).map (·.line))).toList ++ rest))
      have hbefore := keysOn_append_of_blank _ hblank ('\n' :: (focusTitle.toList ++
        '\n' :: ((Text.join "\n" ((toFix input checks).map (·.line))).toList ++ rest)))
      rw [nil_append] at hleading
      rw [hleading, keysOn_titled hsome hrest] at hbefore
      exact iff_of_eq (congrArg (Names · _) hbefore)

end

end Feedback

end

section

open Sample Criteria Feedback

namespace Sample

/-- The tables as far as ASCII goes. -/
scoped instance charTables : CharTables := ⟨Char.isAlphanum, fun c => [c.toLower]⟩

def reported (id status evidence : String) : Value :=
  .object [("evidence", .string evidence), ("id", .string id), ("status", .string status)]

def reviewed (criteria : List Value) : Value := .object [("check", .object [("criteria", .array criteria)])]

def quoting : Value :=
  reviewed [reported "C1" "fail" "the page shows a raw <criteria> tag\n- red", reported "C2" "fail" "slow"]

end Sample

/-- A closing tag before the opening one is no list, and a bullet without ` [` is no criterion. -/
example : Plain quoting ["report ends with </criteria>"] [] := by
  have hlist : quotedList (pieces quoting ["report ends with </criteria>"] []) = none := by decide
  have hsection : quotedSection quoting ["report ends with </criteria>"] [] = none := by decide
  have hread : (((toFix quoting []).flatMap (·.lines)).takeWhile (!Text.isBlankLine ·)).filterMap criterionKey =
      (toFix quoting []).map (·.key) := by decide
  exact ⟨by simp [hlist], by simp [hsection], fun _ _ => (readBack_iff _).mp fun key => by rw [hread]⟩

end

end RustyCore
