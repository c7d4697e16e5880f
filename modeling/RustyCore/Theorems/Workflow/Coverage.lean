import RustyCore.Workflow.Criteria

/-! What a verdict that lets a plan's criteria pass has found among the reported results: an answer to each of the
    criteria. -/

namespace RustyCore.Criteria

open List

def reportedId (result : Value) : Option String := (result.get "id").bind Value.asStr

section

variable [CharTables]

def ReportedFor (result : Value) (id : String) : Prop := ∃ found, reportedId result = some found ∧ idKey found = idKey id

def InOrder (expected : List String) (results : List Value) : Prop :=
  (∀ id ∈ expected, ∀ result ∈ results, ¬ ReportedFor result id) ∧ results.length = expected.length

/-- Each criterion is answered by a good result that is reported for it, or by the one at its place when the results
    answer in order; criteria that are told apart have answers of their own. -/
structure Answers (expected : List String) (results : List Value) (good : Value → Prop) (answer : Nat → Nat) : Prop where
  answered : ∀ i id, expected[i]? = some id → ∃ result, results[answer i]? = some result ∧ good result ∧
    (ReportedFor result id ∨ InOrder expected results ∧ answer i = i)
  apart : ∀ i j id id', expected[i]? = some id → expected[j]? = some id' → idKey id ≠ idKey id' → answer i ≠ answer j

def OneEach (expected : List String) (results : List Value) (good : Value → Prop) : Prop :=
  (∃ answer : Nat → Nat, (∀ i < expected.length, ∃ result, results[answer i]? = some result ∧ good result) ∧
      ∀ i < expected.length, ∀ j < expected.length, answer i = answer j → i = j) ∧
    ∀ result ∈ results, ∀ id ∈ expected, ReportedFor result id → good result

def firstFor (results : List Value) (id : String) : Option Value :=
  results.find? fun result => (reportedId result).any fun found => idKey found == idKey id

variable {expected : List String} {results : List Value} {good : Value → Prop} {id : String} {result : Value}

theorem reportedFor_iff : ((reportedId result).any fun found => idKey found == idKey id) = true ↔
    ReportedFor result id := by
  simp [ReportedFor, Option.any_eq_true]

theorem firstFor_eq_none : firstFor results id = none ↔ ∀ result ∈ results, ¬ ReportedFor result id := by
  simp only [firstFor, List.find?_eq_none, reportedFor_iff]

theorem reportedFor_of_firstFor (h : firstFor results id = some result) : result ∈ results ∧ ReportedFor result id :=
  ⟨mem_of_find?_eq_some h, reportedFor_iff.mp (@List.find?_some _ (fun result =>
    (reportedId result).any fun found => idKey found == idKey id) result results h)⟩

theorem matchResults_cases (expected : List String) (results : List Value) :
    (InOrder expected results ∧ matchResults expected results reportedId = results.map some) ∨
      matchResults expected results reportedId = expected.map (firstFor results) := by
  have hnone : (expected.map (firstFor results)).all Option.isNone = true ↔
      ∀ id ∈ expected, ∀ result ∈ results, ¬ ReportedFor result id := by
    simp only [all_map, all_eq_true, Function.comp_apply, Option.isNone_iff_eq_none, firstFor_eq_none]
  have hmatch : matchResults expected results reportedId =
      if (expected.map (firstFor results)).all Option.isNone && results.length == expected.length then
        results.map some else expected.map (firstFor results) := rfl
  rw [hmatch]
  split
  · rename_i h
    rw [Bool.and_eq_true, hnone, beq_iff_eq] at h
    exact .inl ⟨h, rfl⟩
  · exact .inr rfl

theorem answers_of_matched
    (h : ∀ found ∈ matchResults expected results reportedId, ∃ result, found = some result ∧ good result) :
    ∃ answer, Answers expected results good answer := by
  rcases matchResults_cases expected results with ⟨horder, hmatch⟩ | hmatch
  · rw [hmatch] at h
    refine ⟨id, fun i id hi => ?_, fun i j id id' hi hj hne heq => ?_⟩
    · have hlt : i < results.length := by
        rw [horder.2]
        exact (List.getElem?_eq_some_iff.mp hi).1
      obtain ⟨result, hresult, hgood⟩ := h (some results[i]) (mem_map_of_mem (getElem_mem hlt))
      cases hresult
      exact ⟨results[i], List.getElem?_eq_getElem hlt, hgood, .inr ⟨horder, rfl⟩⟩
    · obtain rfl : i = j := heq
      rw [hi] at hj
      exact hne (congrArg idKey (Option.some.inj hj))
  · rw [hmatch] at h
    -- the place of the first result reported for the criterion
    let place (i : Nat) : Nat := results.findIdx fun result =>
      (reportedId result).any fun found => (expected[i]?).any fun id => idKey found == idKey id
    have hplace : ∀ i id, expected[i]? = some id → ∃ result, results[place i]? = some result ∧ good result ∧
        ReportedFor result id := by
      intro i id hi
      obtain ⟨result, hresult, hgood⟩ := h _ (mem_map_of_mem (mem_of_getElem? hi))
      have hfound : results[place i]? = some result := by
        have hplace : place i = results.findIdx fun result =>
            (reportedId result).any fun found => idKey found == idKey id := by
          simp only [place, hi, Option.any_some]
        rw [hplace, ← hresult, firstFor, List.find?_eq_getElem?_findIdx]
      exact ⟨result, hfound, hgood, (reportedFor_of_firstFor hresult).2⟩
    refine ⟨place, fun i id hi => ?_, fun i j id id' hi hj hne heq => ?_⟩
    · obtain ⟨result, hfound, hgood, hreported⟩ := hplace i id hi
      exact ⟨result, hfound, hgood, .inl hreported⟩
    · obtain ⟨result, hfound, -, found, hid, hkey⟩ := hplace i id hi
      obtain ⟨result', hfound', -, found', hid', hkey'⟩ := hplace j id' hj
      rw [heq, hfound'] at hfound
      obtain rfl := Option.some.inj hfound
      rw [hid] at hid'
      obtain rfl := Option.some.inj hid'
      exact hne (hkey.symm.trans hkey')

theorem firstFor_of_nodup (hnodup : (results.filterMap fun result => (reportedId result).map idKey).Nodup)
    (hmem : result ∈ results) (hreported : ReportedFor result id) : firstFor results id = some result := by
  induction results with
  | nil => cases hmem
  | cons first rest ih =>
    obtain ⟨found, hfound, hkey⟩ := hreported
    rcases mem_cons.mp hmem with rfl | hrest
    · rw [firstFor, List.find?_cons_of_pos]
      simp [hfound, hkey]
    · have hother : ((reportedId first).any fun found => idKey found == idKey id) = false := by
        cases hfirst : reportedId first with
        | none => rfl
        | some other =>
          simp only [filterMap_cons, hfirst, Option.map_some, nodup_cons, mem_filterMap,
            not_exists, not_and] at hnodup
          have hne := hnodup.1 result hrest
          rw [hfound, Option.map_some, Option.some.injEq, hkey] at hne
          simpa using fun heq => hne heq.symm
      rw [firstFor, List.find?_cons_of_neg (by simp [hother])]
      refine ih ?_ hrest
      cases hfirst : reportedId first with
      | none => simpa [hfirst] using hnodup
      | some other =>
        simp only [filterMap_cons, hfirst, Option.map_some, nodup_cons] at hnodup
        exact hnodup.2

theorem requirementCoverage_passed {plan value : Option Value} (h : (requirementCoverage plan value).1 = true) :
    ∃ results, value.bind Value.asArray = some results ∧ planCriteria plan ≠ [] ∧
      ∀ found ∈ matchResults (planCriteria plan) results reportedId, ∃ result, found = some result ∧
        isEvidenced result = true := by
  unfold requirementCoverage at h
  cases hvalue : value.bind Value.asArray with
  | none => simp [hvalue] at h
  | some results =>
    simp only [hvalue, Bool.and_eq_true, Bool.not_eq_true', isEmpty_eq_false_iff, all_eq_true,
      Option.any_eq_true] at h
    exact ⟨results, rfl, h.1, h.2⟩

variable [Externals]

def Accepted (blockOn defer : List String) (result : Value) : Prop :=
  criterionStatus result = "pass" ∨ isDeferred (criterionStatus result) blockOn defer = true

omit [CharTables] in
theorem accepted_of_unmet {blockOn defer : List String}
    (h : (unmetCriteria results).filter (fun (_, _, status) => !isDeferred status blockOn defer) = []) :
    ∀ result ∈ results, Accepted blockOn defer result := by
  intro result hresult
  by_contra hnot
  obtain ⟨hpass, hdefer⟩ := not_or.mp hnot
  obtain ⟨index, hlt, rfl⟩ := getElem_of_mem hresult
  have hunmet : (index, results[index], criterionStatus results[index]) ∈ unmetCriteria results := by
    refine mem_filterMap.mpr ⟨(results[index], index), ?_, by simp [hpass]⟩
    exact mem_zipIdx_iff_getElem?.mpr (List.getElem?_eq_getElem hlt)
  exact filter_eq_nil_iff.mp h _ hunmet (by simpa using hdefer)

theorem judgeCriteria_passed {value : Option Value} {blockOn defer : List String} {maxDeferred : Option Nat}
    (h : (judgeCriteria value blockOn defer maxDeferred (some expected)).passed = true) :
    ∃ results, value.bind Value.asArray = some results ∧ results ≠ [] ∧
      (∀ result ∈ results, Accepted blockOn defer result) ∧ missingPlanCriteria expected results = [] := by
  unfold judgeCriteria at h
  split at h
  · cases h
  · cases h
  · rename_i results hne hvalue
    dsimp only at h
    split at h
    · cases h
    · rename_i hblocking
      simp only [Option.map_some, Option.getD_some, Bool.not_eq_true', Bool.not_eq_false, List.isEmpty_iff,
        append_eq_nil_iff, map_eq_nil_iff] at hblocking
      exact ⟨results, hvalue, fun hnil => hne (by rw [← hnil]), accepted_of_unmet hblocking.1.1, hblocking.1.2⟩

omit [Externals] in
theorem matched_of_missing (h : missingPlanCriteria expected results = []) :
    ∀ found ∈ matchResults expected results reportedId, ∃ result, found = some result ∧ result ∈ results := by
  have hlength : (matchResults expected results reportedId).length = expected.length := by
    rcases matchResults_cases expected results with ⟨horder, hmatch⟩ | hmatch
    · rw [hmatch, List.length_map, horder.2]
    · rw [hmatch, length_map]
  intro found hfound
  obtain ⟨i, hi, rfl⟩ := getElem_of_mem hfound
  have hsome : (matchResults expected results reportedId)[i] ≠ none := by
    intro hnone
    simp only [missingPlanCriteria, map_eq_nil_iff, filter_eq_nil_iff] at h
    refine h (expected.get ⟨i, hlength ▸ hi⟩, (matchResults expected results reportedId)[i]) ?_ (by simp [hnone])
    exact mem_of_getElem? (List.getElem?_zip_eq_some.mpr
      ⟨List.getElem?_eq_getElem (hlength ▸ hi), List.getElem?_eq_getElem hi⟩)
  obtain ⟨result, hresult⟩ := Option.ne_none_iff_exists'.mp hsome
  refine ⟨result, hresult, ?_⟩
  rcases matchResults_cases expected results with ⟨-, hmatch⟩ | hmatch
  · have hin := hfound
    rw [hresult, hmatch] at hin
    simpa using hin
  · have hin := hfound
    rw [hresult, hmatch] at hin
    obtain ⟨id, -, hfirst⟩ := mem_map.mp hin
    exact (reportedFor_of_firstFor hfirst).1

/-- A verdict that passes has an answer to each of the plan's criteria: with `requirement_coverage` one that passed
    with evidence, with `judge_criteria` one that passed or is deferred, where no reported result does otherwise. -/
theorem coverage_sound (plan value : Option Value) :
    ((requirementCoverage plan value).1 = true → ∃ results, value.bind Value.asArray = some results ∧
        planCriteria plan ≠ [] ∧
        (∃ answer, Answers (planCriteria plan) results (isEvidenced · = true) answer) ∧
        ((results.filterMap fun result => (reportedId result).map idKey).Nodup →
          ∀ result ∈ results, ∀ id ∈ planCriteria plan, ReportedFor result id → isEvidenced result = true)) ∧
      ∀ blockOn defer maxDeferred expected,
        (judgeCriteria value blockOn defer maxDeferred (some expected)).passed = true →
          ∃ results, value.bind Value.asArray = some results ∧ results ≠ [] ∧
            (∀ result ∈ results, Accepted blockOn defer result) ∧
            ∃ answer, Answers expected results (Accepted blockOn defer) answer := by
  constructor
  · intro h
    obtain ⟨results, hvalue, hne, hmatched⟩ := requirementCoverage_passed h
    refine ⟨results, hvalue, hne, answers_of_matched hmatched, fun hnodup result hresult id hid hreported => ?_⟩
    rcases matchResults_cases (planCriteria plan) results with ⟨horder, -⟩ | hmatch
    · exact absurd hreported (horder.1 id hid result hresult)
    · rw [hmatch] at hmatched
      obtain ⟨found, hfound, hgood⟩ := hmatched _ (mem_map_of_mem hid)
      rw [firstFor_of_nodup hnodup hresult hreported] at hfound
      rwa [Option.some.inj hfound]
  · intro blockOn defer maxDeferred expected h
    obtain ⟨results, hvalue, hne, haccepted, hmissing⟩ := judgeCriteria_passed h
    refine ⟨results, hvalue, hne, haccepted, answers_of_matched fun found hfound => ?_⟩
    obtain ⟨result, hresult, hmem⟩ := matched_of_missing hmissing found hfound
    exact ⟨result, hresult, haccepted result hmem⟩

end

namespace Reports

scoped instance charTables : CharTables := ⟨Char.isAlphanum, fun c => [c.toLower]⟩

scoped instance externals : Externals where
  decodeProfile _ := none
  encodeProfile _ := []
  parseJson _ := none
  toLowercase text := String.ofList (text.toList.map Char.toLower)
  escapeDebug text := "\"" ++ text ++ "\""
  toRfc3339 _ := "1970-01-01T00:00:00+00:00"
  hashText text := text.toList.foldl (fun hash c => (hash * 31 + c.toNat) % 2 ^ 64) 7

def result (id status evidence : String) : Value :=
  .object [("evidence", .string evidence), ("id", .string id), ("status", .string status)]

def plan (criteria : List String) : Value :=
  .object [("requirements", .array [.object [("criteria", .array (criteria.map fun id => .object [("id", .string id)]))]])]

def both : List Value := [result "C1" "pass" "ran it", result "c-2" "pass" "seen"]

theorem coverage_sound_both : (requirementCoverage (some (plan ["C1", "C2"])) (some (.array both))).1 = true ∧
    (∃ answer, Answers ["C1", "C2"] both (isEvidenced · = true) answer) ∧
    (judgeCriteria (some (.array both)) [] [] none (some ["C1", "C2"])).passed = true ∧
    ∃ answer, Answers ["C1", "C2"] both (Accepted [] []) answer := by
  have hcovered : (requirementCoverage (some (plan ["C1", "C2"])) (some (.array both))).1 = true := rfl
  have hjudged : (judgeCriteria (some (.array both)) [] [] none (some ["C1", "C2"])).passed = true := rfl
  obtain ⟨hplan, hexpected⟩ := coverage_sound (some (plan ["C1", "C2"])) (some (.array both))
  obtain ⟨_, hresults, -, hanswer, -⟩ := hplan hcovered
  obtain ⟨_, hreported, -, -, haccepted⟩ := hexpected [] [] none ["C1", "C2"] hjudged
  cases hresults
  cases hreported
  exact ⟨hcovered, hanswer, hjudged, haccepted⟩

/-- One result answers two criteria, a second report of a criterion is not looked at, and a criterion passes without
    evidence. -/
theorem coverage_not_one_each :
    ((requirementCoverage (some (plan ["C1", "c-1"])) (some (.array [result "C1" "pass" "ran it"]))).1 = true ∧
        ¬ OneEach ["C1", "c-1"] [result "C1" "pass" "ran it"] (isEvidenced · = true)) ∧
      ((requirementCoverage (some (plan ["C1"]))
            (some (.array [result "C1" "pass" "ran it", result "C1" "fail" "red"]))).1 = true ∧
        ¬ OneEach ["C1"] [result "C1" "pass" "ran it", result "C1" "fail" "red"] (isEvidenced · = true)) ∧
      (judgeCriteria (some (.array [result "C1" "pass" ""])) [] [] none (some ["C1"])).passed = true ∧
        ¬ OneEach ["C1"] [result "C1" "pass" ""]
          (fun found => isEvidenced found = true ∨ isDeferred (criterionStatus found) [] [] = true) := by
  refine ⟨⟨rfl, fun h => ?_⟩, ⟨rfl, fun h => ?_⟩, rfl, fun h => ?_⟩
  · obtain ⟨⟨answer, hgood, hinj⟩, -⟩ := h
    have hfirst : ∀ i < 2, answer i = 0 := by
      intro i hi
      obtain ⟨found, hfound, -⟩ := hgood i hi
      have hlt := (List.getElem?_eq_some_iff.mp hfound).1
      exact Nat.lt_one_iff.mp hlt
    have heq := hinj 0 (by decide) 1 (by decide) ((hfirst 0 (by decide)).trans (hfirst 1 (by decide)).symm)
    cases heq
  · have hgood := h.2 (result "C1" "fail" "red") (mem_cons_of_mem _ (mem_singleton_self _)) "C1"
      (mem_singleton_self _) ⟨"C1", rfl, rfl⟩
    cases hgood
  · have hgood := h.2 (result "C1" "pass" "") (mem_singleton_self _) "C1" (mem_singleton_self _) ⟨"C1", rfl, rfl⟩
    rcases hgood with hgood | hgood <;> cases hgood

end Reports

end RustyCore.Criteria
