import RustyCore.Theorems.Reply.Repairs

/-! An unclear check result: when the status of an item that does not say `pass` is read as `pass` all the same. -/

namespace RustyCore

namespace Reply

open Text Value Option

variable {schema p item : Value} {fields : Fields} {name status : String}

section

variable [CharTables] [Externals] [ReplyExternals]

structure AsciiTables : Prop where
  isAlphanumeric : ∀ c : Char, c.isAlphanum = true → CharTables.isAlphanumeric c = true
  toLowercase : ∀ text : String, (∀ c ∈ text.toList, c.isLower = true) → Externals.toLowercase text = text

/-- The status begins with a form of `pass` (`Pass`, `PASSED`, `passing`). -/
def FormOfPass (status : String) : Prop := "pass".toList <+: (firstWord (normalize status.toList)).toList

def written (schema : Value) (text : Line) : Value :=
  .object (parseObject verbatim schema (promoteBareNames schema (trimMatches isWhitespace text)))

def asRead (schema : Value) (text : Line) : Value :=
  .object (parseObject coerce schema (promoteBareNames schema (trimMatches isWhitespace text)))

/-- The schema of the status at an item of a list, which lists `pass`. -/
def ChecksAt (schema : Value) (path : List Step) (p : Value) : Prop :=
  ∃ item, schemaAt schema path = some item ∧ property item "status" = some p ∧ "pass" ∈ enumValues p

/-- No item has the status `pass` unless its written status begins with a form of it. -/
def UnclearNeverPasses (schema : Value) (text : Line) (value : Value) : Prop :=
  ∀ (path : List Step) (i : Nat) (p : Value), ChecksAt schema (path ++ [.index i]) p →
    (value.at? (path ++ [.index i])).bind statusOf = some "pass" →
    ∃ status, ((written schema text).at? (path ++ [.index i])).bind statusOf = some status ∧ FormOfPass status

variable {w r value : Value} {text : Line}

omit [CharTables] [Externals] in
theorem readNumber_cases (h : readNumber text = some value) : (∃ n, value = .number n) ∨ value = .null := by
  unfold readNumber at h
  dsimp only at h
  split at h
  · cases h
    exact Or.inl ⟨_, rfl⟩
  · obtain ⟨n, -, rfl⟩ := map_eq_some_iff.mp h
    cases n with
    | none => exact Or.inr rfl
    | some n => exact Or.inl ⟨n, rfl⟩

omit [CharTables] in
theorem typedValue_cases (h : typedValue schema text = some value) :
    (∃ n, value = .number n) ∨ (∃ b, value = .bool b) ∨ value = .null := by
  have hnumber : readNumber text = some value → (∃ n, value = .number n) ∨ (∃ b, value = .bool b) ∨ value = .null := by
    intro h
    rcases readNumber_cases h with h | h
    · exact Or.inl h
    · exact Or.inr (Or.inr h)
  unfold typedValue at h
  split at h
  · exact hnumber h
  · exact hnumber h
  · cases h
    exact Or.inr (Or.inl ⟨_, rfl⟩)
  · cases h

theorem coerce_cases (schema : Value) (text : Line) :
    coerce schema text = .string ((enumMatch (enumValues schema) text).getD (String.ofList text)) ∨
      (coerce schema text).asStr = none ∧ ∀ step, (coerce schema text).childAt step = none := by
  unfold coerce
  split
  · rename_i value hvalue
    rcases typedValue_cases hvalue with ⟨n, rfl⟩ | ⟨b, rfl⟩ | rfl <;> exact Or.inr ⟨rfl, fun _ => rfl⟩
  · exact Or.inl rfl

theorem childAt_coerce (schema : Value) (text : Line) (step : Step) : (coerce schema text).childAt step = none := by
  rcases coerce_cases schema text with h | ⟨-, h⟩
  · rw [h]
    rfl
  · exact h step

theorem childAt_reads {step : Step} {child : Value} (h : Reads schema w r) (hchild : childSchema schema step = some child) :
    (w.childAt step = none ∧ r.childAt step = none) ∨ ∃ part part', w.childAt step = some part ∧
      r.childAt step = some part' ∧ (Reads child part part' ∨ step.isIndex = false ∧ step ≠ .field "status" ∧
        part.asStr.isSome ∧ part'.asStr.isSome) := by
  cases h with
  | scalar text => exact Or.inl ⟨rfl, childAt_coerce schema text step⟩
  | @array _ ws rs h =>
    cases step with
    | field name => exact Or.inl ⟨rfl, rfl⟩
    | index i =>
      rw [show (schema.get "items").getD .null = child by rw [show schema.get "items" = some child from hchild]; rfl] at h
      rcases h.getElem? i with hnone | ⟨w, r, hw, hr, hread⟩
      · exact Or.inl hnone
      · exact Or.inr ⟨w, r, hw, hr, Or.inl hread⟩
  | object h =>
    cases step with
    | index i => exact Or.inl ⟨rfl, rfl⟩
    | field name =>
      rcases h.lookup name with hnone | ⟨w, r, hw, hr, hread⟩
      · exact Or.inl hnone
      · refine Or.inr ⟨w, r, hw, hr, ?_⟩
        cases hread with
        | stated hp hread =>
          have hsame : some _ = some child := hp.symm.trans hchild
          cases hsame
          exact Or.inl hread
        | filled text hname => exact Or.inr ⟨rfl, fun h => hname (by cases h; rfl), rfl, rfl⟩

theorem at?_reads {path : List Step} {i : Nat} (h : Reads schema w r)
    (hitem : schemaAt schema (path ++ [.index i]) = some item) :
    (w.at? (path ++ [.index i]) = none ∧ r.at? (path ++ [.index i]) = none) ∨ ∃ part part',
      w.at? (path ++ [.index i]) = some part ∧ r.at? (path ++ [.index i]) = some part' ∧ Reads item part part' := by
  induction path generalizing schema w r with
  | nil =>
    obtain ⟨child, hchild, hitem⟩ := bind_eq_some_iff.mp hitem
    cases hitem
    rw [List.nil_append, at?_cons, at?_cons]
    rcases childAt_reads h hchild with ⟨hw, hr⟩ | ⟨part, part', hw, hr, hread | ⟨hindex, -⟩⟩
    · exact Or.inl ⟨by rw [hw]; rfl, by rw [hr]; rfl⟩
    · exact Or.inr ⟨part, part', by rw [hw]; rfl, by rw [hr]; rfl, hread⟩
    · cases hindex
  | cons step rest ih =>
    obtain ⟨child, hchild, hrest⟩ := bind_eq_some_iff.mp hitem
    rw [List.cons_append, at?_cons, at?_cons]
    rcases childAt_reads h hchild with ⟨hw, hr⟩ | ⟨part, part', hw, hr, hread | ⟨-, -, htext, htext'⟩⟩
    · exact Or.inl ⟨by rw [hw]; rfl, by rw [hr]; rfl⟩
    · rw [hw, hr]
      exact ih hread hrest
    · rw [hw, hr]
      exact Or.inl ⟨at?_text htext _ _, at?_text htext' _ _⟩

theorem statusOf_reads (h : Reads item w r) (hp : property item "status" = some p) :
    statusOf r = (statusOf w).bind fun status => (coerce p status.toList).asStr := by
  have hchild : childSchema item (.field "status") = some p := hp
  rw [statusOf, statusOf]
  rcases childAt_reads h hchild with ⟨hw, hr⟩ | ⟨part, part', hw, hr, hread | ⟨-, hname, -⟩⟩
  · rw [hw, hr]
    rfl
  · rw [hw, hr, bind_some, bind_some]
    cases hread with
    | scalar text =>
      rw [verbatim, asStr, bind_some, String.toList_ofList]
    | array | object => rfl
  · exact absurd rfl hname

def Plain (value : Value) : Prop := value = .array [] ∨ value.asStr.isSome

omit [CharTables] [Externals] [ReplyExternals] in
theorem at?_plain (h : Plain value) (path : List Step) (i : Nat) : value.at? (path ++ [.index i]) = none := by
  rcases h with rfl | h
  · cases path with
    | nil => rfl
    | cons step path =>
      rw [List.cons_append, at?_cons]
      cases step <;> rfl
  · exact at?_text h path _

omit [CharTables] [ReplyExternals] in
theorem plain_filling {map : Fields} (h : filling map text name p = some value) : Plain value := by
  unfold filling at h
  split at h
  · cases h
    exact Or.inl rfl
  · cases h
    exact Or.inl rfl
  · split_ifs at h
    · obtain ⟨found, -, rfl⟩ := map_eq_some_iff.mp h
      exact Or.inr rfl
    · cases h
      exact Or.inr rfl
    · cases h
      exact Or.inr rfl
  · cases h

omit [CharTables] [ReplyExternals] in
theorem lookup_fillMissing (schema : Value) (text : Line) (map : Fields) (name : String) :
    (fillMissing schema text map).lookup name = map.lookup name ∨
      map.lookup name = none ∧ ∃ value, (fillMissing schema text map).lookup name = some value ∧ Plain value := by
  unfold fillMissing
  generalize properties schema = props
  induction props generalizing map with
  | nil => exact Or.inl rfl
  | cons prop props ih =>
    obtain ⟨key, p⟩ := prop
    rw [List.foldl_cons]
    dsimp only
    split
    · exact ih map
    · rename_i hmissing
      split
      · rename_i filled hfilled
        rcases ih (Value.insertField key filled map) with h | ⟨hnone, h⟩
        · rw [h, lookup_insertField]
          by_cases hname : name = key
          · subst hname
            rw [if_pos rfl]
            rw [Bool.or_eq_true, not_or, not_isSome_iff_eq_none] at hmissing
            exact Or.inr ⟨hmissing.1, filled, rfl, plain_filling hfilled⟩
          · rw [if_neg hname]
            exact Or.inl rfl
        · rw [lookup_insertField] at hnone
          split_ifs at hnone
          exact Or.inr ⟨hnone, h⟩
      · exact ih map

omit [CharTables] [ReplyExternals] in
theorem at?_fillMissing (schema : Value) (text : Line) (map : Fields) (path : List Step) (i : Nat) :
    (Value.object (fillMissing schema text map)).at? (path ++ [.index i]) = (Value.object map).at? (path ++ [.index i]) := by
  cases path with
  | nil => rfl
  | cons step path =>
    cases step with
    | index j => rfl
    | field name =>
      rw [List.cons_append, at?_cons, at?_cons, childAt, childAt]
      rcases lookup_fillMissing schema text map name with h | ⟨hnone, value, h, hplain⟩
      · rw [h]
      · rw [h, hnone]
        exact at?_plain hplain path i

section

omit [ReplyExternals]

omit [CharTables] in
theorem normalize_pass (h : Externals.toLowercase "pass" = "pass") : normalize "pass".toList = "pass" := by
  have hplain : String.ofList (trimMatches "*`:# ".toList.contains (trimMatches isWhitespace "pass".toList)) = "pass" := by
    decide
  rw [normalize, hplain, h]
  decide

omit [CharTables] [Externals] in
theorem mem_pass {c : Char} (h : c ∈ "pass".toList) : c = 'p' ∨ c = 'a' ∨ c = 's' := by
  simpa using h

theorem AsciiTables.normalize_pass (htables : AsciiTables) : normalize "pass".toList = "pass" := by
  refine Reply.normalize_pass (htables.toLowercase "pass" fun c hc => ?_)
  rcases mem_pass hc with rfl | rfl | rfl <;> decide

theorem AsciiTables.firstWord_pass (htables : AsciiTables) : firstWord "pass" = "pass" := by
  have hletters : ∀ c ∈ "pass".toList, (!(CharTables.isAlphanumeric c || c == '_')) = false := by
    intro c hc
    have halnum : c.isAlphanum = true := by
      rcases mem_pass hc with rfl | rfl | rfl <;> decide
    rw [htables.isAlphanumeric c halnum]
    rfl
  rw [firstWord, splitOn_eq_singleton hletters]
  decide

theorem enumMatch_spec {values : List String} {found : String} (h : enumMatch values text = some found) :
    normalize found.toList = normalize text ∨
      (normalize found.toList).toList <+: (firstWord (normalize text)).toList := by
  have hcases : ∀ {a b : Option String}, (a <|> b) = some found → a = some found ∨ b = some found := by
    intro a b h
    cases a with
    | none => exact Or.inr h
    | some value => exact Or.inl h
  rcases hcases h with h | h
  · have htest := List.find?_some h
    exact Or.inl (eq_of_beq htest)
  · rcases hcases h with h | h
    · have htest := List.find?_some h
      have hfirst := eq_of_beq htest
      exact Or.inr (by rw [hfirst])
    · have htest := List.find?_some h
      exact Or.inr (List.isPrefixOf_iff_prefix.mp ((Bool.and_eq_true _ _).mp htest).2)

end

theorem formOfPass_of_coerce (htables : AsciiTables) {status : String} (h : coerce p status.toList = .string "pass") :
    FormOfPass status := by
  have hplain : normalize status.toList = "pass" → FormOfPass status := by
    intro h
    rw [FormOfPass, h, htables.firstWord_pass]
  rcases coerce_cases p status.toList with heq | ⟨hnot, -⟩
  · rw [h] at heq
    injection heq with heq
    rcases hmatch : enumMatch (enumValues p) status.toList with _ | found
    · rw [hmatch, getD_none, String.ofList_toList] at heq
      exact hplain (by rw [← heq, htables.normalize_pass])
    · rw [hmatch, getD_some] at heq
      rcases enumMatch_spec hmatch with hfound | hfound
      · rw [← heq, htables.normalize_pass] at hfound
        exact hplain hfound.symm
      · rwa [← heq, htables.normalize_pass] at hfound
  · rw [h] at hnot
    cases hnot

theorem parse_ok (h : parse schema text = .ok value) : value = repair schema (.object (fillMissing schema
    (trimMatches isWhitespace text) (parseObject coerce schema (promoteBareNames schema (trimMatches isWhitespace text))))) := by
  unfold parse at h
  dsimp only at h
  split at h
  · cases h
  · cases h
    rfl

theorem statusOf_parsed (h : parse schema text = .ok value) {path : List Step} {i : Nat}
    (hitem : schemaAt schema (path ++ [.index i]) = some item) (hp : property item "status" = some p)
    (hpass : "pass" ∈ enumValues p) :
    (value.at? (path ++ [.index i])).bind statusOf = some "pass" ↔
      ∃ status, ((asRead schema text).at? (path ++ [.index i])).bind statusOf = some status ∧
        (status = "pass" ∨ Misread p (((asRead schema text).at? (path ++ [.index i])).bind idOf)
          (2 ≤ occurrences item (.field "status") * times schema (path ++ [.index i])) status) := by
  rw [parse_ok h]
  have hrepaired := at?_iterate hitem (v := .object (fillMissing schema (trimMatches isWhitespace text)
    (parseObject coerce schema (promoteBareNames schema (trimMatches isWhitespace text))))) 1
  rw [Function.iterate_one, Nat.mul_one, at?_fillMissing] at hrepaired
  rw [hrepaired]
  change ((((asRead schema text).at? (path ++ [.index i])).map _).bind statusOf = _) ↔ _
  cases (asRead schema text).at? (path ++ [.index i]) with
  | none => simp
  | some read =>
    rw [map_some, bind_some, bind_some, bind_some]
    obtain ⟨ids, hlength, hhead, hstatus⟩ := statusOf_iterate hp (times schema (path ++ [.index i])) read
    have hchild : childSchema item (.field "status") = some p := hp
    have hpos := Nat.mul_pos (occurrences_pos hchild) (times_pos hitem)
    cases ids with
    | nil => exact absurd hlength.symm hpos.ne'
    | cons id ids =>
      have hid : id = idOf read := hhead id rfl
      have hagain : ids ≠ [] ↔ 2 ≤ occurrences item (.field "status") * times schema (path ++ [.index i]) := by
        rw [← hlength, List.length_cons, Nat.succ_le_succ_iff, Nat.one_le_iff_ne_zero, ne_eq, ne_eq, List.length_eq_zero_iff]
      rw [hstatus, map_eq_some_iff]
      simp only [repaired_pass_iff hpass, hid, hagain]

/-- Each status begins with a form of `pass`, or is not misread. -/
def NoneMisread (schema : Value) (text : Line) : Prop :=
  ∀ (path : List Step) (i : Nat) (item p : Value), schemaAt schema (path ++ [.index i]) = some item →
    property item "status" = some p → "pass" ∈ enumValues p →
    ∀ status read, ((written schema text).at? (path ++ [.index i])).bind statusOf = some status →
      coerce p status.toList = .string read → FormOfPass status ∨
        ¬ Misread p (((asRead schema text).at? (path ++ [.index i])).bind idOf)
          (2 ≤ occurrences item (.field "status") * times schema (path ++ [.index i])) read

/-- No unclear status is read as a pass exactly when none is misread. -/
theorem unclear_never_passes_iff (htables : AsciiTables) (h : parse schema text = .ok value) :
    UnclearNeverPasses schema text value ↔ NoneMisread schema text := by
  have hreads : ∀ {path : List Step} {i : Nat} {item p : Value}, schemaAt schema (path ++ [.index i]) = some item →
      property item "status" = some p → ((asRead schema text).at? (path ++ [.index i])).bind statusOf =
        (((written schema text).at? (path ++ [.index i])).bind statusOf).bind fun status =>
          (coerce p status.toList).asStr := by
    intro path i item p hitem hp
    rcases at?_reads (reads_parseObject schema (promoteBareNames schema (trimMatches isWhitespace text))) hitem with
      ⟨hw, hr⟩ | ⟨part, part', hw, hr, hread⟩
    · rw [written, asRead, hw, hr]
      rfl
    · rw [written, asRead, hw, hr]
      exact statusOf_reads hread hp
  have hasStr : ∀ {v : Value} {text : String}, v.asStr = some text ↔ v = .string text := by
    intro v text
    cases v <;> simp [asStr]
  constructor
  · intro hnever path i item p hitem hp hpass status read hstatus hread
    refine or_iff_not_imp_right.mpr fun hmisread => ?_
    have hasRead : ((asRead schema text).at? (path ++ [.index i])).bind statusOf = some read := by
      rw [hreads hitem hp, hstatus]
      exact hasStr.mpr hread
    obtain ⟨found, hfound, hform⟩ := hnever path i p ⟨item, hitem, hp, hpass⟩
      ((statusOf_parsed h hitem hp hpass).mpr ⟨read, hasRead, Or.inr (not_not.mp hmisread)⟩)
    rw [hstatus] at hfound
    cases hfound
    exact hform
  · rintro hclear path i p ⟨item, hitem, hp, hpass⟩ hvalue
    obtain ⟨read, hasRead, hread⟩ := (statusOf_parsed h hitem hp hpass).mp hvalue
    rw [hreads hitem hp] at hasRead
    obtain ⟨status, hstatus, hcoerce⟩ := bind_eq_some_iff.mp hasRead
    refine ⟨status, hstatus, ?_⟩
    rcases hread with rfl | hmisread
    · exact formOfPass_of_coerce htables (hasStr.mp hcoerce)
    · exact (hclear path i item p hitem hp hpass status read hstatus (hasStr.mp hcoerce)).resolve_right fun h => h hmisread

end

namespace Sample

scoped instance charTables : CharTables := ⟨Char.isAlphanum, fun c => [c.toLower]⟩

/-- The libraries, as far as these replies need them: they are in ASCII and hold no float. -/
scoped instance externals : Externals where
  decodeProfile _ := none
  encodeProfile _ := []
  parseJson _ := none
  toLowercase text := String.ofList (text.toList.map Char.toLower)
  escapeDebug text := text
  toRfc3339 _ := ""
  hashText text := text.toList.foldl (fun hash c => (hash * 31 + c.toNat) % 2 ^ 64) 7

scoped instance replyExternals : ReplyExternals := ⟨fun _ => none, fun c => [c.toUpper]⟩

theorem asciiTables : AsciiTables where
  isAlphanumeric _ h := h
  toLowercase text h := by
    have hsame : ∀ c ∈ text.toList, c.toLower = c := by
      intro c hc
      have hlower := h c hc
      have hupper : ¬(c.val ≥ 'A'.val ∧ c.val ≤ 'Z'.val) := by
        simp only [Char.isLower, Bool.and_eq_true, decide_eq_true_eq, ge_iff_le, UInt32.le_iff_toNat_le] at hlower ⊢
        have : 'a'.val.toNat = 97 := rfl
        have : 'Z'.val.toNat = 90 := rfl
        omega
      rw [Char.toLower, dif_neg hupper]
    change String.ofList (text.toList.map Char.toLower) = text
    rw [List.map_congr_left hsame, List.map_id', String.ofList_toList]

def checks (values : List String) : Value :=
  .object [("properties", .object [("criteria", .object [
    ("items", .object [
      ("properties", .object [("evidence", .object [("type", .string "string")]), ("id", .object [("type", .string "string")]),
        ("status", .object [("enum", .array (values.map .string)), ("type", .string "string")])]),
      ("type", .string "object")]),
    ("type", .string "array")])]), ("type", .string "object")]

def reply : Line := "## criteria\n### C1\nstatus: looks ok\nseen".toList

def firstCheck : List Step := [.field "criteria"] ++ [.index 0]

def parsedStatus (values : List String) : Option String :=
  match parse (checks values) reply with
  | .ok value => (value.at? firstCheck).bind statusOf
  | .error _ => none

theorem exists_parsed (values : List String) (status : String) (h : parsedStatus values = some status) :
    ∃ value, parse (checks values) reply = .ok value ∧ (value.at? firstCheck).bind statusOf = some status := by
  unfold parsedStatus at h
  split at h
  · rename_i value hvalue
    exact ⟨value, hvalue, h⟩
  · cases h

/-- With `unverified` in the enumeration the unclear status is no pass. -/
theorem unclear_reply_unverified : ∃ value, parse (checks ["pass", "fail", "unverified"]) reply = .ok value ∧
    (value.at? firstCheck).bind statusOf = some "unverified" ∧
    (UnclearNeverPasses (checks ["pass", "fail", "unverified"]) reply value ↔
      NoneMisread (checks ["pass", "fail", "unverified"]) reply) := by
  obtain ⟨value, hvalue, hstatus⟩ := exists_parsed ["pass", "fail", "unverified"] "unverified" (by decide)
  exact ⟨value, hvalue, hstatus, unclear_never_passes_iff asciiTables hvalue⟩

/-- Without it the first value is taken. -/
theorem unclear_reply_passes : ∃ value, parse (checks ["pass", "fail"]) reply = .ok value ∧
    ¬ UnclearNeverPasses (checks ["pass", "fail"]) reply value := by
  obtain ⟨value, hvalue, hstatus⟩ := exists_parsed ["pass", "fail"] "pass" (by decide)
  refine ⟨value, hvalue, fun hnever => ?_⟩
  obtain ⟨status, hwritten, hform⟩ := hnever [.field "criteria"] 0 _ ⟨_, rfl, rfl, by decide⟩ hstatus
  have hlooks : ((written (checks ["pass", "fail"]) reply).at? firstCheck).bind statusOf = some "looks ok" := by
    decide
  have hsame : some status = some "looks ok" := hwritten.symm.trans hlooks
  cases hsame
  exact absurd hform (by unfold FormOfPass; decide)

end Sample

end Reply

end RustyCore
