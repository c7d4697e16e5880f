import Mathlib.Algebra.Order.BigOperators.Group.List
import RustyCore.Theorems.Specs.AllOrNothing

/-! The edits of `change.md` and its reader. The reader takes the last line of a field and the editor sets the first; a
    `## History` line in the block is taken for the section's heading; and a carriage return at the end of the text is
    lost when the text has no other. -/

namespace RustyCore.Specs.Front

open Text List

variable {text : List Char} {key value entry line first closing k : Line} {inner body ls more a b : List Line}

def knownKeys : List Line :=
  ["id".toList, "title".toList, "status".toList, "created".toList, "branch".toList, "capabilities".toList,
    "main".toList, "links".toList]

theorem known_spec : ∀ key ∈ knownKeys, key.map Char.toLower = key ∧ trimMatches isWhitespace key = key ∧
    ':' ∉ key ∧ '\n' ∉ key ∧ '\r' ∉ key := by decide

def isDelimiter (line : Line) : Bool := trimMatches isWhitespace line == "---".toList

def fieldOf (line : Line) : Option (Line × Line) :=
  (splitOnce [':'] line).map fun (key, value) =>
    ((trimMatches isWhitespace key).map Char.toLower, unquote (trimMatches isWhitespace value))

def isField (key : Line) (line : Line) : Bool :=
  match splitOnce [':'] line with
  | some (k, _) => eqIgnoreAsciiCase (trimMatches isWhitespace k) key
  | none => false

def fieldIn (inner : List Line) (key : Line) : Option Line := (inner.filterMap fieldOf).reverse.lookup key

def readField (text : List Char) (key : Line) : Option Line := (split text).1.lookup key

structure Block (ls : List Line) (first : Line) (inner : List Line) (closing : Line) (body : List Line) : Prop where
  eq : ls = first :: (inner ++ closing :: body)
  first : isDelimiter first = true
  inner : ∀ line ∈ inner, isDelimiter line = false
  closing : isDelimiter closing = true

theorem fieldOf_colon (h : ':' ∉ k) : fieldOf (k ++ ':' :: value) =
    some ((trimMatches isWhitespace k).map Char.toLower, unquote (trimMatches isWhitespace value)) := by
  rw [fieldOf, splitOnce_char.mpr ⟨rfl, h⟩]
  rfl

theorem fieldsFrom_cons {fields : List (Line × Line)} {n : Nat} : fieldsFrom fields n (line :: ls) =
    if isDelimiter line = true then some (fields, n + 1)
    else fieldsFrom ((fieldOf line).toList ++ fields) (n + 1) ls := by
  rw [fieldsFrom, isDelimiter, fieldOf]
  cases splitOnce [':'] line <;> rfl

theorem fieldsFrom_closed {fields : List (Line × Line)} {n : Nat} (h : ∀ line ∈ inner, isDelimiter line = false)
    (hclosing : isDelimiter closing = true) : fieldsFrom fields n (inner ++ closing :: body) =
      some ((inner.filterMap fieldOf).reverse ++ fields, n + inner.length + 1) := by
  induction inner generalizing fields n with
  | nil =>
    rw [nil_append, fieldsFrom_cons, if_pos hclosing]
    rfl
  | cons line inner ih =>
    obtain ⟨hline, hinner⟩ := forall_mem_cons.mp h
    have hlength : n + 1 + inner.length + 1 = n + (line :: inner).length + 1 := by
      rw [length_cons]
      omega
    rw [cons_append, fieldsFrom_cons, if_neg (ne_true_of_eq_false hline), ih hinner, hlength]
    cases hfield : fieldOf line with
    | none => rw [filterMap_cons_none hfield, Option.toList_none, nil_append]
    | some found =>
      rw [filterMap_cons_some hfield, Option.toList_some, reverse_cons, append_assoc]

theorem fieldsFrom_open {fields : List (Line × Line)} {n : Nat} (h : ∀ line ∈ ls, isDelimiter line = false) :
    fieldsFrom fields n ls = none := by
  induction ls generalizing fields n with
  | nil => rfl
  | cons line ls ih =>
    obtain ⟨hline, hls⟩ := forall_mem_cons.mp h
    rw [fieldsFrom_cons, if_neg (ne_true_of_eq_false hline)]
    exact ih hls

/-- What `split` makes of the lines of a text. -/
def splitLines : List Line → List (Line × Line) × Nat
  | [] => ([], 0)
  | first :: rest => if isDelimiter first then (fieldsFrom [] 1 rest).getD ([], 0) else ([], 0)

theorem split_eq (text : List Char) : split text = splitLines (lines text) := by
  unfold split splitLines
  rcases lines text with _ | ⟨first, rest⟩ <;> rfl

theorem splitLines_block (h : Block ls first inner closing body) :
    splitLines ls = ((inner.filterMap fieldOf).reverse, inner.length + 2) := by
  rw [h.eq, splitLines, if_pos h.first, fieldsFrom_closed h.inner h.closing, Option.getD_some, append_nil]
  exact Prod.ext rfl (by omega)

theorem exists_closing (h : ∃ line ∈ ls, isDelimiter line = true) : ∃ inner closing body,
    ls = inner ++ closing :: body ∧ (∀ line ∈ inner, isDelimiter line = false) ∧ isDelimiter closing = true := by
  induction ls with
  | nil => simp at h
  | cons line ls ih =>
    cases hline : isDelimiter line with
    | true => exact ⟨[], line, ls, rfl, nofun, hline⟩
    | false =>
      simp only [exists_mem_cons_iff, hline, Bool.false_eq_true, false_or] at h
      obtain ⟨inner, closing, body, rfl, hinner, hclosing⟩ := ih h
      exact ⟨line :: inner, closing, body, rfl, forall_mem_cons.mpr ⟨hline, hinner⟩, hclosing⟩

def Blockless : List Line → Prop
  | [] => True
  | first :: rest => isDelimiter first = true → ∀ line ∈ rest, isDelimiter line = false

theorem splitLines_blockless (h : Blockless ls) : splitLines ls = ([], 0) := by
  cases ls with
  | nil => rfl
  | cons first rest =>
    rw [splitLines]
    split
    · rename_i hfirst
      rw [fieldsFrom_open (h hfirst)]
      rfl
    · rfl

theorem blockless_or_block (ls : List Line) :
    Blockless ls ∨ ∃ first inner closing body, Block ls first inner closing body := by
  cases ls with
  | nil => exact Or.inl trivial
  | cons first rest =>
    by_cases hblock : isDelimiter first = true ∧ ∃ line ∈ rest, isDelimiter line = true
    · obtain ⟨inner, closing, body, rfl, hinner, hclosing⟩ := exists_closing hblock.2
      exact Or.inr ⟨first, inner, closing, body, rfl, hblock.1, hinner, hclosing⟩
    · exact Or.inl fun hfirst line hline => by
        by_contra hdelimiter
        exact hblock ⟨hfirst, line, hline, by simpa using hdelimiter⟩

theorem isDelimiter_stripReturn : isDelimiter (stripReturn line) = isDelimiter line := by
  rw [isDelimiter, trimMatches_stripReturn, isDelimiter]

theorem splitOnce_colon_none : splitOnce [':'] line = none ↔ ':' ∉ line := by
  constructor
  · intro h hmem
    obtain ⟨head, rest, rfl, hhead⟩ := eq_append_cons_of_mem hmem
    rw [splitOnce_char.mpr ⟨rfl, hhead⟩] at h
    cases h
  · intro h
    rw [Option.eq_none_iff_forall_ne_some]
    rintro ⟨head, rest⟩ hsplit
    obtain ⟨rfl, -⟩ := splitOnce_char.mp hsplit
    exact h (by simp)

theorem fieldOf_append_return : fieldOf (line ++ ['\r']) = fieldOf line := by
  rcases hsplit : splitOnce [':'] line with _ | ⟨key, value⟩
  · have hnone : splitOnce [':'] (line ++ ['\r']) = none := by
      rw [splitOnce_colon_none] at hsplit ⊢
      simpa using hsplit
    rw [fieldOf, fieldOf, hsplit, hnone]
  · obtain ⟨rfl, hkey⟩ := splitOnce_char.mp hsplit
    rw [append_assoc, cons_append, fieldOf_colon hkey, fieldOf_colon hkey,
      trimMatches_append_of_pos (by rfl)]

theorem fieldOf_stripReturn : fieldOf (stripReturn line) = fieldOf line := by
  unfold stripReturn
  split
  · rename_i hlast
    conv_rhs => rw [eq_append_return (beq_iff_eq.mp hlast), fieldOf_append_return]
  · rfl

theorem Block.stripReturn (h : Block ls first inner closing body) : Block (ls.map Text.stripReturn)
    (Text.stripReturn first) (inner.map Text.stripReturn) (Text.stripReturn closing) (body.map Text.stripReturn) where
  eq := by rw [h.eq]; simp
  first := by rw [isDelimiter_stripReturn, h.first]
  inner := by simpa [isDelimiter_stripReturn] using h.inner
  closing := by rw [isDelimiter_stripReturn, h.closing]

theorem Blockless.stripReturn (h : Blockless ls) : Blockless (ls.map Text.stripReturn) := by
  cases ls with
  | nil => trivial
  | cons first rest =>
    intro hfirst
    rw [isDelimiter_stripReturn] at hfirst
    simpa [isDelimiter_stripReturn] using h hfirst

theorem splitLines_stripReturn (ls : List Line) : splitLines (ls.map Text.stripReturn) = splitLines ls := by
  rcases blockless_or_block ls with h | ⟨first, inner, closing, body, h⟩
  · rw [splitLines_blockless h, splitLines_blockless h.stripReturn]
  · have hfields : (inner.map Text.stripReturn).filterMap fieldOf = inner.filterMap fieldOf := by
      rw [filterMap_map]
      exact filterMap_congr fun line _ => fieldOf_stripReturn
    rw [splitLines_block h, splitLines_block h.stripReturn, hfields, length_map]

/-- The text has `\r\n` somewhere. -/
def Returns (text : List Char) : Prop := "\r\n".toList <:+: text

theorem lines_finish (hne : ls ≠ []) (h : ∀ line ∈ ls, '\n' ∉ line) (text : List Char) :
    (Returns text → lines (finish ls text) = ls) ∧
      (¬Returns text → lines (finish ls text) = ls.map Text.stripReturn) := by
  unfold finish Returns
  constructor
  · intro hreturns
    rw [if_pos (before_isSome.mpr hreturns), intercalate_append hne]
    exact lines_flatMap_return h
  · intro hreturns
    rw [if_neg (mt before_isSome.mp hreturns), intercalate_append hne]
    exact lines_flatMap_newline h

theorem split_finish (hne : ls ≠ []) (h : ∀ line ∈ ls, '\n' ∉ line) (text : List Char) :
    split (finish ls text) = splitLines ls := by
  rw [split_eq]
  by_cases hreturns : Returns text
  · rw [(lines_finish hne h text).1 hreturns]
  · rw [(lines_finish hne h text).2 hreturns, splitLines_stripReturn]

/-- The last line of the text keeps its end: it is no carriage return, or the text has `\r\n`. -/
def Settled (text : List Char) : Prop := Returns text ∨ text.getLast? ≠ some '\r'

def newLine (key value : Line) : Line := key ++ ": ".toList ++ value

def setInner (key line : Line) (inner : List Line) : List Line :=
  match inner.findIdx? (isField key) with
  | some place => inner.set place line
  | none => inner ++ [line]

theorem fieldIn_append : fieldIn (a ++ b) key = (fieldIn b key).or (fieldIn a key) := by
  rw [fieldIn, filterMap_append, reverse_append, lookup_append]
  rfl

theorem fieldIn_cons : fieldIn (line :: b) key = (fieldIn b key).or (fieldIn [line] key) := fieldIn_append (a := [line])

theorem fieldIn_singleton : fieldIn [line] key =
    (fieldOf line).bind fun found => if key = found.1 then some found.2 else none := by
  rw [fieldIn]
  cases hfield : fieldOf line with
  | none => rw [filterMap_cons_none hfield]; rfl
  | some found =>
    obtain ⟨k, v⟩ := found
    rw [filterMap_cons_some hfield]
    by_cases hk : key = k
    · simp [hk]
    · have hne : (key == k) = false := by simpa using hk
      simp [hk, hne]

theorem isField_iff (h : key.map Char.toLower = key) :
    isField key line = true ↔ ∃ v, fieldOf line = some (key, v) := by
  rw [isField, fieldOf]
  cases splitOnce [':'] line with
  | none => simp
  | some found =>
    simp only [eqIgnoreAsciiCase, h, beq_iff_eq, Option.map_some, Option.some_inj, Prod.mk.injEq, exists_and_left,
      exists_eq', and_true]

theorem fieldIn_isField (h : key.map Char.toLower = key) : fieldIn [line] key = none ↔ isField key line = false := by
  rw [← not_iff_not, Bool.not_eq_false, isField_iff h, fieldIn_singleton]
  cases hfield : fieldOf line with
  | none => simp
  | some found =>
    obtain ⟨k, v⟩ := found
    by_cases hk : key = k
    · simp [hk]
    · simp [hk, Ne.symm hk]

theorem fieldIn_eq_none (h : key.map Char.toLower = key) :
    fieldIn inner key = none ↔ ∀ line ∈ inner, isField key line = false := by
  induction inner with
  | nil => simp [fieldIn]
  | cons line inner ih =>
    rw [fieldIn_cons, Option.or_eq_none_iff, ih, fieldIn_isField h, forall_mem_cons, and_comm]

theorem fieldOf_newLine (h : key ∈ knownKeys) (value : Line) :
    fieldOf (newLine key value) = some (key, unquote (trimMatches isWhitespace value)) := by
  obtain ⟨hlower, htrim, hcolon, -, -⟩ := known_spec key h
  have hline : newLine key value = key ++ ':' :: (' ' :: value) := by simp [newLine]
  have hblank : trimMatches isWhitespace (' ' :: value) = trimMatches isWhitespace value := by
    rw [trimMatches, dropWhile_cons_of_pos (by rfl), trimMatches]
  rw [hline, fieldOf_colon hcolon, htrim, hlower, hblank]

theorem setInner_spec (key line : Line) (inner : List Line) :
    (∃ a old b, inner = a ++ old :: b ∧ setInner key line inner = a ++ line :: b ∧
      (∀ l ∈ a, isField key l = false) ∧ isField key old = true) ∨
    ((∀ l ∈ inner, isField key l = false) ∧ setInner key line inner = inner ++ [line]) := by
  unfold setInner
  rcases hfind : inner.findIdx? (isField key) with _ | place
  · exact Or.inr ⟨List.findIdx?_eq_none_iff.mp hfind, rfl⟩
  · obtain ⟨hlt, hold, hbefore⟩ := List.findIdx?_eq_some_iff_getElem.mp hfind
    refine Or.inl ⟨inner.take place, inner[place], inner.drop (place + 1), ?_, ?_, fun l hl => ?_, hold⟩
    · rw [getElem_cons_drop, take_append_drop]
    · exact set_eq_take_append_cons_drop.trans (if_pos hlt)
    · obtain ⟨i, hi, rfl⟩ := getElem_of_mem hl
      rw [getElem_take]
      simpa using hbefore i (by simpa using (length_take_le place inner).trans_lt' hi)

theorem insertIdx_append (a b : List Line) : (a ++ b).insertIdx a.length line = a ++ line :: b := by
  induction a with
  | nil => rfl
  | cons head a ih => rw [cons_append, length_cons, insertIdx_succ_cons, ih, cons_append]

theorem setField_blockless (h : (split text).2 = 0) (key value : Line) :
    setField text key value = "---\n".toList ++ newLine key value ++ "\n---\n".toList ++ text := by
  unfold setField
  rw [if_pos h]
  rfl

theorem setField_block (h : Block (lines text) first inner closing body) (key value : Line) :
    setField text key value = finish (first :: (setInner key (newLine key value) inner ++ closing :: body)) text := by
  have hsplit : (split text).2 = inner.length + 2 := by rw [split_eq, splitLines_block h]
  have hinner : ((lines text).take (inner.length + 2 - 1)).drop 1 = inner := by
    rw [h.eq]
    simp
  unfold setField setInner
  rw [hsplit, if_neg (by omega)]
  dsimp only
  rw [hinner]
  change (match inner.findIdx? (isField key) with
    | some place => finish ((lines text).set (place + 1) (newLine key value)) text
    | none => finish ((lines text).insertIdx (inner.length + 1) (newLine key value)) text) = _
  rcases hfind : inner.findIdx? (isField key) with _ | place
  · dsimp only
    rw [h.eq, insertIdx_succ_cons, insertIdx_append, append_assoc, singleton_append]
  · obtain ⟨hlt, -⟩ := List.findIdx?_eq_some_iff_getElem.mp hfind
    dsimp only
    rw [h.eq, set_cons_succ, set_append_left _ _ hlt]

structure FieldSet (text : List Char) (key value : Line) (after : List Char) : Prop where
  read : readField after key = some (unquote (trimMatches isWhitespace value))
  others : ∀ k, k ≠ key → readField after k = readField text k
  body : (lines after).drop (split after).2 = (lines text).drop (split text).2

def blockLines (text : List Char) : List Line := ((lines text).take ((split text).2 - 1)).drop 1

theorem blockLines_block (h : Block (lines text) first inner closing body) : blockLines text = inner := by
  rw [blockLines, split_eq, splitLines_block h, h.eq]
  simp

def Single (text : List Char) (key value : Line) : Prop :=
  ((blockLines text).filter (isField key)).length ≤ 1 ∨ readField text key = some (unquote (trimMatches isWhitespace value))

def BodySettled (text : List Char) : Prop :=
  Settled text ∨ (split text).2 = 0 ∨ (lines text).length = (split text).2

theorem mem_trimMatches {p : Char → Bool} {cs : List Char} {c : Char} (hc : c ∈ cs) (hp : p c = false) :
    c ∈ trimMatches p cs := by
  have hdrop : ∀ ds : List Char, c ∈ ds → c ∈ ds.dropWhile p := by
    intro ds hmem
    rw [← takeWhile_append_dropWhile (p := p) (l := ds)] at hmem
    rcases mem_append.mp hmem with htake | hdrop
    · rw [mem_takeWhile_imp htake] at hp
      cases hp
    · exact hdrop
  exact mem_reverse.mpr (hdrop _ (mem_reverse.mpr (hdrop cs hc)))

theorem not_delimiter_of_colon (h : ':' ∈ line) : isDelimiter line = false := by
  rw [isDelimiter, beq_eq_false_iff_ne]
  intro htrim
  have hmem := mem_trimMatches (p := isWhitespace) h (by rfl)
  rw [htrim] at hmem
  exact absurd hmem (by decide)

theorem not_delimiter_newLine : isDelimiter (newLine key value) = false :=
  not_delimiter_of_colon (by simp [newLine])

theorem not_mem_newLine {c : Char} (hc : c ≠ ':' ∧ c ≠ ' ') (hkey : c ∉ key) (hvalue : c ∉ value) :
    c ∉ newLine key value := by simp [newLine, hc, hkey, hvalue]

theorem bare_of_not_mem (h : '\r' ∉ line) : Bare line := fun hlast => h (mem_of_getLast? hlast)

theorem fieldIn_newLine (h : key ∈ knownKeys) (value : Line) :
    fieldIn [newLine key value] key = some (unquote (trimMatches isWhitespace value)) := by
  rw [fieldIn_singleton, fieldOf_newLine h]
  simp

theorem fieldIn_other (hk : k ≠ key) (h : ∀ found, fieldOf line = some found → found.1 = key) : fieldIn [line] k = none := by
  rw [fieldIn_singleton]
  cases hfield : fieldOf line with
  | none => rfl
  | some found => exact if_neg fun hsame => hk (hsame.trans (h found hfield))

theorem mem_setInner (key line : Line) (inner : List Line) : ∀ l ∈ setInner key line inner, l = line ∨ l ∈ inner := by
  intro l hl
  rcases setInner_spec key line inner with ⟨a, old, b, rfl, hset, -, -⟩ | ⟨-, hset⟩
  · rw [hset] at hl
    simp only [mem_append, mem_cons] at hl ⊢
    tauto
  · rw [hset] at hl
    simpa [or_comm] using hl

theorem fieldIn_setInner_other (hkey : key ∈ knownKeys) (hk : k ≠ key) :
    fieldIn (setInner key (newLine key value) inner) k = fieldIn inner k := by
  have hlower := (known_spec key hkey).1
  have hnew : fieldIn [newLine key value] k = none := by
    refine fieldIn_other hk fun found hfound => ?_
    rw [fieldOf_newLine hkey] at hfound
    rw [← Option.some.inj hfound]
  rcases setInner_spec key (newLine key value) inner with ⟨a, old, b, rfl, hset, -, hold⟩ | ⟨-, hset⟩
  · have hother : fieldIn [old] k = none := by
      obtain ⟨v, hv⟩ := (isField_iff hlower).mp hold
      refine fieldIn_other hk fun found hfound => ?_
      rw [hv] at hfound
      rw [← Option.some.inj hfound]
    have hcons : fieldIn (old :: b) k = (fieldIn b k).or (fieldIn [old] k) := fieldIn_cons
    rw [hset, fieldIn_append, fieldIn_append, fieldIn_cons, hcons, hnew, hother]
  · rw [hset, fieldIn_append, hnew, Option.none_or]

theorem fieldIn_setInner_iff (hkey : key ∈ knownKeys) :
    fieldIn (setInner key (newLine key value) inner) key = some (unquote (trimMatches isWhitespace value)) ↔
      (inner.filter (isField key)).length ≤ 1 ∨ fieldIn inner key = some (unquote (trimMatches isWhitespace value)) := by
  have hlower := (known_spec key hkey).1
  rcases setInner_spec key (newLine key value) inner with ⟨a, old, b, rfl, hset, ha, hold⟩ | ⟨hnone, hset⟩
  · have hcount : ((a ++ old :: b).filter (isField key)).length ≤ 1 ↔ fieldIn b key = none := by
      have hfilter : a.filter (isField key) = [] := filter_eq_nil_iff.mpr fun l hl => by simp [ha l hl]
      rw [filter_append, hfilter, nil_append, filter_cons_of_pos hold, length_cons,
        fieldIn_eq_none hlower, Nat.succ_le_succ_iff, Nat.le_zero, length_eq_zero_iff, filter_eq_nil_iff]
      simp
    have hcons : fieldIn (old :: b) key = (fieldIn b key).or (fieldIn [old] key) := fieldIn_cons
    rw [hset, hcount, fieldIn_append, fieldIn_append, fieldIn_cons, hcons, fieldIn_newLine hkey]
    cases fieldIn b key with
    | none | some => simp
  · have hfilter : inner.filter (isField key) = [] := filter_eq_nil_iff.mpr fun l hl => by simp [hnone l hl]
    rw [hset, fieldIn_append, fieldIn_newLine hkey, hfilter]
    simp

theorem fieldIn_stripReturn : fieldIn [stripReturn line] k = fieldIn [line] k := by
  rw [fieldIn_singleton, fieldIn_singleton, fieldOf_stripReturn]

theorem fieldSet_blockless (hkey : key ∈ knownKeys) (hvalue : '\n' ∉ value) (h : Blockless (lines text)) :
    FieldSet text key value (setField text key value) ∧ Single text key value ∧ BodySettled text := by
  have hsplit : split text = ([], 0) := by rw [split_eq, splitLines_blockless h]
  obtain ⟨-, -, -, hnewline, -⟩ := known_spec key hkey
  have hafter : setField text key value =
      "---".toList ++ '\n' :: (newLine key value ++ '\n' :: ("---".toList ++ '\n' :: text)) := by
    rw [setField_blockless (by rw [hsplit])]
    simp
  have hlines : lines (setField text key value) =
      "---".toList :: ([stripReturn (newLine key value)] ++ "---".toList :: lines text) := by
    rw [hafter, lines_cons (by decide), lines_cons (not_mem_newLine (by decide) hnewline hvalue),
      lines_cons (by decide), stripReturn_bare (bare_of_not_mem (by decide))]
    rfl
  have hblock : Block (lines (setField text key value)) "---".toList [stripReturn (newLine key value)] "---".toList
      (lines text) :=
    ⟨hlines, by rfl, by simpa [isDelimiter_stripReturn] using not_delimiter_newLine, by rfl⟩
  have hafterSplit := (split_eq (setField text key value)).trans (splitLines_block hblock)
  refine ⟨⟨?_, fun k hk => ?_, ?_⟩, Or.inl ?_, Or.inr (Or.inl (by rw [hsplit]))⟩
  · rw [readField, hafterSplit]
    exact fieldIn_stripReturn.trans (fieldIn_newLine hkey value)
  · rw [readField, hafterSplit, readField, hsplit]
    refine fieldIn_stripReturn.trans (fieldIn_other hk fun found hfound => ?_)
    rw [fieldOf_newLine hkey] at hfound
    rw [← Option.some.inj hfound]
  · rw [hafterSplit, hlines, hsplit]
    rfl
  · rw [blockLines, hsplit]
    simp

theorem body_map_stripReturn (h : Block (lines text) first inner closing body) (hreturns : ¬Returns text) :
    body.map Text.stripReturn = body ↔ Settled text ∨ body = [] := by
  rcases lines_bare hreturns with ⟨hbare, hall⟩ | ⟨hbare, init, last, hlines, -, hlast⟩
  · have hsame : body.map Text.stripReturn = body.map id := map_congr_left fun line hline =>
      stripReturn_bare (hall line (by rw [h.eq]; simp [hline]))
    rw [hsame, map_id]
    exact ⟨fun _ => Or.inl (Or.inr hbare), fun _ => rfl⟩
  · have hsettled : ¬Settled text := fun hsettled => hsettled.elim hreturns hbare
    constructor
    · intro hsame
      refine Or.inr (by_contra fun hne => ?_)
      obtain ⟨front, final, rfl⟩ := (eq_nil_or_concat body).resolve_left hne
      have hfinal : final = last := by
        have heq : (first :: (inner ++ closing :: front)) ++ [final] = init ++ [last] := by
          rw [← hlines, h.eq]
          simp
        exact (append_inj' heq rfl).2 |> head_eq_of_cons_eq
      have hkept : Text.stripReturn final = final := by
        rw [concat_eq_append, map_append] at hsame
        exact head_eq_of_cons_eq (append_inj' hsame rfl).2
      exact stripReturn_ne hlast (hfinal ▸ hkept)
    · rintro (habs | rfl)
      · exact absurd habs hsettled
      · rfl

theorem setField_iff (hkey : key ∈ knownKeys) (hvalue : '\n' ∉ value) :
    FieldSet text key value (setField text key value) ↔ Single text key value ∧ BodySettled text := by
  rcases blockless_or_block (lines text) with hnone | ⟨first, inner, closing, body, h⟩
  · obtain ⟨hset, hholds⟩ := fieldSet_blockless hkey hvalue hnone
    exact ⟨fun _ => hholds, fun _ => hset⟩
  obtain ⟨-, -, -, hnewline, -⟩ := known_spec key hkey
  have hsplit : split text = ((inner.filterMap fieldOf).reverse, inner.length + 2) := by
    rw [split_eq, splitLines_block h]
  have hlines : ∀ l ∈ first :: (setInner key (newLine key value) inner ++ closing :: body), '\n' ∉ l := by
    have hkept : ∀ l ∈ first :: (inner ++ closing :: body), '\n' ∉ l := by
      rw [← h.eq]
      exact newline_not_mem_lines
    simp only [forall_mem_cons, forall_mem_append] at hkept ⊢
    refine ⟨hkept.1, fun l hl => ?_, hkept.2.2⟩
    rcases mem_setInner key _ inner l hl with rfl | hl
    · exact not_mem_newLine (by decide) hnewline hvalue
    · exact hkept.2.1 l hl
  have hblock : Block (first :: (setInner key (newLine key value) inner ++ closing :: body)) first
      (setInner key (newLine key value) inner) closing body := by
    refine ⟨rfl, h.first, fun l hl => ?_, h.closing⟩
    rcases mem_setInner key _ inner l hl with rfl | hl
    · exact not_delimiter_newLine
    · exact h.inner l hl
  have hafter : split (setField text key value) =
      (((setInner key (newLine key value) inner).filterMap fieldOf).reverse,
        (setInner key (newLine key value) inner).length + 2) := by
    rw [setField_block h, split_finish (cons_ne_nil _ _) hlines, splitLines_block hblock]
  have hfield : ∀ k, readField (setField text key value) k = fieldIn (setInner key (newLine key value) inner) k := by
    intro k
    rw [readField, hafter]
    rfl
  have hbefore : ∀ k, readField text k = fieldIn inner k := by
    intro k
    rw [readField, hsplit]
    rfl
  have hread : readField (setField text key value) key = some (unquote (trimMatches isWhitespace value)) ↔
      Single text key value := by
    rw [hfield, fieldIn_setInner_iff hkey, Single, blockLines_block h, hbefore]
  have hbody : ∀ ls : List Line, (first :: (ls ++ closing :: body)).drop (ls.length + 2) = body := by
    intro ls
    rw [drop_succ_cons, drop_length_add_append]
    rfl
  have hkept : (lines (setField text key value)).drop (split (setField text key value)).2 =
      (lines text).drop (split text).2 ↔ BodySettled text := by
    have hlength : (lines text).length = (split text).2 ↔ body = [] := by
      rw [hsplit, h.eq]
      simp
    rw [BodySettled, hlength, hafter, hsplit, h.eq, hbody, setField_block h]
    by_cases hreturns : Returns text
    · rw [(lines_finish (cons_ne_nil _ _) hlines text).1 hreturns, hbody]
      exact ⟨fun _ => Or.inl (Or.inl hreturns), fun _ => rfl⟩
    · rw [(lines_finish (cons_ne_nil _ _) hlines text).2 hreturns, ← map_drop, hbody,
        body_map_stripReturn h hreturns]
      simp
  constructor
  · exact fun hset => ⟨hread.mp hset.read, hkept.mp hset.body⟩
  · rintro ⟨hsingle, hsettled⟩
    refine ⟨hread.mpr hsingle, fun k hk => ?_, hkept.mpr hsettled⟩
    rw [hfield, hbefore, fieldIn_setInner_other hkey hk]

def isHistory (line : Line) : Bool := eqIgnoreAsciiCase (trimMatches isWhitespace line) "## history".toList

/-- The lines of a section's text: up to one that starts with `#`. -/
def sectionText (ls : List Line) : List Line := ls.takeWhile (!startsWith · "#".toList)

def InHistory (consumed : Nat) (before : List Line) : Prop :=
  ∃ a heading b, before = a ++ heading :: b ∧ isHistory heading = true ∧ consumed ≤ a.length ∧
    ∀ line ∈ b, startsWith line "#".toList = false

def IsHeading (heading : List Line) : Prop := heading = ["## History".toList] ∨ heading = [[], "## History".toList]

/-- The fields read as before, and the lines are the same but for one bullet, and for the heading of the history when
    there was none. -/
structure Recorded (text : List Char) (entry : Line) (after : List Char) : Prop where
  fields : (split after).1 = (split text).1
  bullet : ∃ before heading bullet rest, lines text = before ++ rest ∧
    lines after = before ++ heading ++ bullet :: rest ∧
    (bullet = "- ".toList ++ entry ∨ bullet = stripReturn ("- ".toList ++ entry)) ∧
    (heading = [] ∨ (∀ line ∈ lines text, isHistory line = false) ∧ rest = [] ∧ IsHeading heading) ∧
    InHistory (split text).2 (before ++ heading)

def Placed (text : List Char) : Prop :=
  ∀ a heading b, lines text = a ++ heading :: b → (∀ line ∈ a, isHistory line = false) → isHistory heading = true →
    ∃ c other d, heading :: sectionText b = c ++ other :: d ∧ isHistory other = true ∧
      (split text).2 ≤ a.length + c.length

theorem isHistory_not_blank (h : isHistory line = true) : isBlankLine line = false := by
  rw [isBlankLine, isEmpty_eq_false_iff]
  intro hnil
  rw [isHistory, hnil] at h
  exact absurd h (by decide)

theorem trimMatches_prefix {p : Char → Bool} {c : Char} {cs : List Char} (hc : p c = false) :
    trimMatches p (c :: cs) <+: c :: cs := by
  rw [trimMatches, dropWhile_cons_of_neg (by simp [hc])]
  exact rdropWhile_prefix p (c :: cs)

theorem bullet_trim (entry : Line) : ∃ cs, trimMatches isWhitespace ("- ".toList ++ entry) ++ cs = '-' :: ' ' :: entry :=
  trimMatches_prefix (by rfl)

theorem isHistory_bullet (entry : Line) : isHistory ("- ".toList ++ entry) = false := by
  obtain ⟨cs, hcs⟩ := bullet_trim entry
  rw [isHistory, eqIgnoreAsciiCase, beq_eq_false_iff_ne]
  intro hsame
  cases htrim : trimMatches isWhitespace ("- ".toList ++ entry) with
  | nil =>
    rw [htrim] at hsame
    exact absurd hsame (by decide)
  | cons c rest =>
    rw [htrim, cons_append] at hcs
    rw [htrim, (List.cons.inj hcs).1] at hsame
    exact absurd (head_eq_of_cons_eq hsame) (by decide)

theorem not_delimiter_bullet (entry : Line) : isDelimiter ("- ".toList ++ entry) = false := by
  obtain ⟨cs, hcs⟩ := bullet_trim entry
  rw [isDelimiter, beq_eq_false_iff_ne]
  intro hsame
  rw [hsame] at hcs
  exact absurd (head_eq_of_cons_eq (List.cons.inj hcs).2) (by decide)

structure Insertion (text : List Char) (before heading rest : List Line) : Prop where
  eq : lines text = before ++ rest
  place : (∃ a h b, lines text = a ++ h :: b ∧ (∀ line ∈ a, isHistory line = false) ∧ isHistory h = true ∧
      heading = [] ∧ before = a ++ h :: (sectionText b).rdropWhile isBlankLine) ∨
    (∀ line ∈ lines text, isHistory line = false) ∧ rest = [] ∧ IsHeading heading

theorem addHistory_eq (text : List Char) (entry : Line) : ∃ before heading rest, Insertion text before heading rest ∧
    addHistory text entry = finish (before ++ heading ++ ("- ".toList ++ entry) :: rest) text := by
  have hunfold : addHistory text entry = match (lines text).findIdx? isHistory with
      | some start => finish ((lines text).insertIdx (historyEnd (lines text) start) ("- ".toList ++ entry)) text
      | none => finish ((if ((lines text).getLast?.map (!isBlankLine ·)).getD false then lines text ++ [[]]
          else lines text) ++ ["## History".toList, "- ".toList ++ entry]) text := rfl
  rw [hunfold]
  rcases hfind : (lines text).findIdx? isHistory with _ | start
  · have hnone := List.findIdx?_eq_none_iff.mp hfind
    dsimp only
    split
    · exact ⟨lines text, [[], "## History".toList], [],
        ⟨(append_nil _).symm, Or.inr ⟨hnone, rfl, Or.inr rfl⟩⟩, by simp⟩
    · exact ⟨lines text, ["## History".toList], [],
        ⟨(append_nil _).symm, Or.inr ⟨hnone, rfl, Or.inl rfl⟩⟩, by simp⟩
  · obtain ⟨hlt, hheading, hbefore⟩ := List.findIdx?_eq_some_iff_getElem.mp hfind
    have hls : lines text = (lines text).take start ++ (lines text)[start] :: (lines text).drop (start + 1) := by
      rw [getElem_cons_drop, take_append_drop]
    have htake : ∀ line ∈ (lines text).take start, isHistory line = false := by
      intro line hline
      obtain ⟨i, hi, rfl⟩ := getElem_of_mem hline
      rw [getElem_take]
      simpa using hbefore i (by simpa using (length_take_le start (lines text)).trans_lt' hi)
    obtain ⟨rest, hrest⟩ := (List.rdropWhile_prefix isBlankLine (sectionText ((lines text).drop (start + 1)))).trans
      (List.takeWhile_prefix _)
    have hunfold : historyEnd (lines text) start =
        start + 1 + ((sectionText ((lines text).drop (start + 1))).rdropWhile isBlankLine).length := rfl
    have hend : historyEnd (lines text) start = ((lines text).take start ++ (lines text)[start] ::
        (sectionText ((lines text).drop (start + 1))).rdropWhile isBlankLine).length := by
      rw [length_append, length_take, length_cons, hunfold]
      omega
    have hwhole : lines text = ((lines text).take start ++ (lines text)[start] ::
        (sectionText ((lines text).drop (start + 1))).rdropWhile isBlankLine) ++ rest := by
      rw [append_assoc, cons_append, hrest]
      exact hls
    refine ⟨_, [], rest, ⟨hwhole, Or.inl ⟨_, _, _, hls, htake, hheading, rfl, rfl⟩⟩, ?_⟩
    dsimp only
    have hinsert : ∀ a : List Line, (a ++ rest).insertIdx a.length ("- ".toList ++ entry) = a ++ ("- ".toList ++ entry) :: rest :=
      fun a => insertIdx_append a rest
    specialize hinsert ((lines text).take start ++ (lines text)[start] ::
      (sectionText ((lines text).drop (start + 1))).rdropWhile isBlankLine)
    rw [← hwhole, ← hend] at hinsert
    rw [hinsert, append_nil]

theorem exists_section (b : List Line) : ∃ blank, sectionText b = (sectionText b).rdropWhile isBlankLine ++ blank ∧
    ∀ line ∈ blank, isHistory line = false := by
  refine ⟨(sectionText b).rtakeWhile isBlankLine, rdropWhile_append_rtakeWhile.symm, fun line hline => ?_⟩
  by_contra hheading
  have hnot := isHistory_not_blank (Bool.not_eq_false _ ▸ hheading)
  rw [mem_rtakeWhile_imp hline] at hnot
  cases hnot

theorem section_of_heading {heading other : Line} {x y : List Line} (ha : ∀ line ∈ a, isHistory line = false)
    (heq : a ++ heading :: (sectionText b).rdropWhile isBlankLine = x ++ other :: y) (hother : isHistory other = true) :
    ∃ c d, x = a ++ c ∧ heading :: sectionText b = c ++ other :: d := by
  obtain ⟨blank, hsection, -⟩ := exists_section b
  have hin : ∃ c, x = a ++ c ∧ heading :: (sectionText b).rdropWhile isBlankLine = c ++ other :: y := by
    rcases append_eq_append_iff.mp heq with hafter | ⟨c, rfl, hc⟩
    · exact hafter
    cases c with
    | nil => exact ⟨[], by simp, hc.symm⟩
    | cons l c =>
      obtain ⟨rfl, -⟩ := List.cons.inj hc
      rw [ha other (by simp)] at hother
      cases hother
  obtain ⟨c, hx, hc⟩ := hin
  refine ⟨c, y ++ blank, hx, ?_⟩
  rw [hsection, ← cons_append, hc, append_assoc, cons_append]

theorem inHistory_section {n : Nat} {heading other : Line} {c d : List Line}
    (heq : heading :: sectionText b = c ++ other :: d) (hother : isHistory other = true) (hn : n ≤ a.length + c.length) :
    InHistory n (a ++ heading :: (sectionText b).rdropWhile isBlankLine) := by
  obtain ⟨blank, hsection, hblank⟩ := exists_section b
  have hnotBlank : other ∉ blank := by
    intro hin
    rw [hblank other hin] at hother
    cases hother
  rw [hsection, ← cons_append] at heq
  rcases append_eq_append_iff.mp heq with ⟨c', -, hc'⟩ | ⟨c', hc', hd⟩
  · exact absurd (by rw [hc']; simp) hnotBlank
  cases c' with
  | nil => exact absurd (by rw [← nil_append blank, ← hd]; simp) hnotBlank
  | cons l c' =>
    obtain ⟨rfl, -⟩ := List.cons.inj hd
    refine ⟨a ++ c, other, c', by rw [hc', append_assoc], hother, by simpa using hn, fun line hline => ?_⟩
    have hin : line ∈ (sectionText b).rdropWhile isBlankLine := by
      cases c with
      | nil => rwa [(List.cons.inj hc').2]
      | cons l c =>
        rw [(List.cons.inj hc').2]
        simp [hline]
    simpa using mem_takeWhile_imp ((List.rdropWhile_prefix _ _).subset hin)

theorem first_heading {heading other : Line} {c d : List Line} (ha : ∀ line ∈ a, isHistory line = false)
    (hheading : isHistory heading = true) (hc : ∀ line ∈ c, isHistory line = false) (hother : isHistory other = true)
    (heq : a ++ heading :: b = c ++ other :: d) : a = c ∧ heading = other ∧ b = d := by
  induction a generalizing c with
  | nil =>
    cases c with
    | nil => simpa using heq
    | cons l c =>
      obtain ⟨rfl, -⟩ := List.cons.inj heq
      rw [hc heading (by simp)] at hheading
      cases hheading
  | cons l a ih =>
    cases c with
    | nil =>
      obtain ⟨rfl, -⟩ := List.cons.inj heq
      rw [ha l (by simp)] at hother
      cases hother
    | cons l' c =>
      obtain ⟨rfl, htail⟩ := List.cons.inj heq
      obtain ⟨rfl, hrest⟩ := ih (forall_mem_cons.mp ha).2 (forall_mem_cons.mp hc).2 htail
      exact ⟨rfl, hrest⟩

theorem eq_of_insert {c rest : List Line} {l l' : Line} (h : l :: (c ++ rest) = c ++ l' :: rest) : ∀ x ∈ c, x = l := by
  induction c generalizing l with
  | nil => nofun
  | cons x c ih =>
    obtain ⟨rfl, h⟩ := List.cons.inj h
    exact forall_mem_cons.mpr ⟨rfl, ih h⟩

theorem splitLines_insert {new : List Line} (h : ∀ line ∈ new, isDelimiter line = false)
    (hn : (splitLines (a ++ b)).2 ≤ a.length) : (splitLines (a ++ new ++ b)).1 = (splitLines (a ++ b)).1 := by
  rcases blockless_or_block (a ++ b) with hnone | ⟨first, inner, closing, body, hblock⟩
  · rw [splitLines_blockless hnone, splitLines_blockless]
    cases a with
    | nil =>
      cases new with
      | nil => exact hnone
      | cons line new =>
        intro hfirst
        rw [h line (by simp)] at hfirst
        cases hfirst
    | cons first a =>
      intro hfirst line hline
      have hrest := hnone hfirst
      simp only [append_eq, mem_append] at hline hrest
      rcases hline with (ha | hnew) | hb
      · exact hrest line (Or.inl ha)
      · exact h line hnew
      · exact hrest line (Or.inr hb)
  · rw [splitLines_block hblock] at hn ⊢
    obtain ⟨head, rfl⟩ : ∃ head, a = first :: (inner ++ closing :: head) := by
      have hprefix : first :: (inner ++ [closing]) <+: a := by
        have hlength : (first :: (inner ++ [closing])).length ≤ a.length := by
          rw [length_cons, length_append, length_singleton]
          omega
        refine prefix_of_prefix_length_le ?_ (prefix_append a b) hlength
        exact ⟨body, by rw [hblock.eq]; simp⟩
      obtain ⟨head, hhead⟩ := hprefix
      exact ⟨head, by rw [← hhead]; simp⟩
    have hafter : Block (first :: (inner ++ closing :: head) ++ new ++ b) first inner closing (head ++ new ++ b) :=
      ⟨by simp, hblock.first, hblock.inner, hblock.closing⟩
    rw [splitLines_block hafter]

def charCount (ls : List Line) : Nat := (ls.map List.length).sum

theorem charCount_stripReturn (h : ∃ line ∈ ls, ¬Bare line) : charCount (ls.map stripReturn) < charCount ls := by
  unfold charCount
  rw [map_map]
  refine sum_lt_sum _ _ (fun line _ => length_stripReturn_le line) ?_
  obtain ⟨line, hline, hbare⟩ := h
  exact ⟨line, hline, length_stripReturn_lt hbare⟩

theorem charCount_append : charCount (a ++ b) = charCount a + charCount b := by simp [charCount]

theorem charCount_cons : charCount (line :: b) = line.length + charCount b := by simp [charCount]

theorem charCount_stripReturn_le (ls : List Line) : charCount (ls.map stripReturn) ≤ charCount ls := by
  unfold charCount
  rw [map_map]
  exact sum_le_sum fun line _ => length_stripReturn_le line

theorem IsHeading.spec {heading : List Line} (h : IsHeading heading) : (∀ line ∈ heading, isDelimiter line = false) ∧
    (∀ line ∈ heading, Bare line) ∧ (∀ line ∈ heading, '\n' ∉ line) ∧ charCount heading = 10 ∧
    ∃ blank, heading = blank ++ ["## History".toList] := by
  rcases h with rfl | rfl
  · exact ⟨by decide, by simp [Bare], by decide, by decide, [], rfl⟩
  · exact ⟨by decide, by simp [Bare], by decide, by decide, [[]], rfl⟩

theorem InHistory.le_length {n : Nat} (h : InHistory n ls) : n < ls.length := by
  obtain ⟨a, heading, b, rfl, -, hn, -⟩ := h
  simp
  omega

theorem split_le_length (text : List Char) : (split text).2 ≤ (lines text).length := by
  rw [split_eq]
  rcases blockless_or_block (lines text) with hnone | ⟨first, inner, closing, body, hblock⟩
  · rw [splitLines_blockless hnone]
    exact Nat.zero_le _
  · rw [splitLines_block hblock, hblock.eq]
    simp

section

variable {before heading rest : List Line}

theorem Insertion.heading_spec (h : Insertion text before heading rest) : (∀ line ∈ heading, isDelimiter line = false) ∧
    (∀ line ∈ heading, Bare line) ∧ ∀ line ∈ heading, '\n' ∉ line := by
  rcases h.place with ⟨-, -, -, -, -, -, rfl, -⟩ | ⟨-, -, hheading⟩
  · exact ⟨nofun, nofun, nofun⟩
  · exact ⟨hheading.spec.1, hheading.spec.2.1, hheading.spec.2.2.1⟩

theorem Insertion.newline_not_mem (h : Insertion text before heading rest) (hentry : '\n' ∉ entry) :
    ∀ line ∈ before ++ heading ++ ("- ".toList ++ entry) :: rest, '\n' ∉ line := by
  have htext : ∀ line ∈ lines text, '\n' ∉ line := newline_not_mem_lines
  rw [h.eq] at htext
  simp only [forall_mem_append, forall_mem_cons] at htext ⊢
  exact ⟨⟨htext.1, h.heading_spec.2.2⟩, by simpa using hentry, htext.2⟩

end

theorem lines_addHistory (text : List Char) (hentry : '\n' ∉ entry) : ∃ before heading rest,
    Insertion text before heading rest ∧
    split (addHistory text entry) = splitLines (before ++ heading ++ ("- ".toList ++ entry) :: rest) ∧
    (Returns text → lines (addHistory text entry) = before ++ heading ++ ("- ".toList ++ entry) :: rest) ∧
    (¬Returns text → lines (addHistory text entry) =
      (before ++ heading ++ ("- ".toList ++ entry) :: rest).map stripReturn) := by
  obtain ⟨before, heading, rest, h, hadd⟩ := addHistory_eq text entry
  have hne : before ++ heading ++ ("- ".toList ++ entry) :: rest ≠ [] :=
    append_ne_nil_of_right_ne_nil _ (cons_ne_nil _ _)
  obtain ⟨hreturns, hbare⟩ := lines_finish hne (h.newline_not_mem hentry) text
  refine ⟨before, heading, rest, h, ?_, ?_, ?_⟩
  · rw [hadd, split_finish hne (h.newline_not_mem hentry)]
  · rwa [hadd]
  · rwa [hadd]

theorem lines_addHistory_settled (hsettled : Settled text) (hentry : '\n' ∉ entry) : ∃ before heading bullet rest,
    Insertion text before heading rest ∧
    split (addHistory text entry) = splitLines (before ++ heading ++ ("- ".toList ++ entry) :: rest) ∧
    lines (addHistory text entry) = before ++ heading ++ bullet :: rest ∧
    (bullet = "- ".toList ++ entry ∨ bullet = stripReturn ("- ".toList ++ entry)) := by
  obtain ⟨before, heading, rest, h, hsplit, hreturns, hbare⟩ := lines_addHistory text hentry
  by_cases hr : Returns text
  · exact ⟨before, heading, _, rest, h, hsplit, hreturns hr, Or.inl rfl⟩
  · have hall : ∀ line ∈ lines text, Bare line := by
      rcases lines_bare hr with ⟨-, hall⟩ | ⟨hlast, -⟩
      · exact hall
      · exact absurd (hsettled.resolve_left hr) hlast
    have hsame : ∀ ls : List Line, (∀ line ∈ ls, Bare line) → ls.map stripReturn = ls := by
      intro ls hls
      conv_rhs => rw [← map_id ls]
      exact map_congr_left fun line hline => stripReturn_bare (hls line hline)
    rw [h.eq, forall_mem_append] at hall
    refine ⟨before, heading, _, rest, h, hsplit, ?_, Or.inr rfl⟩
    rw [hbare hr, map_append, map_append, map_cons, hsame before hall.1,
      hsame heading h.heading_spec.2.1, hsame rest hall.2]

theorem settled_of_recorded (hentry : '\n' ∉ entry) (h : Recorded text entry (addHistory text entry)) : Settled text := by
  by_contra hsettled
  obtain ⟨before, heading, rest, hplace, -, -, hbare⟩ := lines_addHistory text hentry
  obtain ⟨before', heading', bullet', rest', htext', hafter, hbullet, hheading', hin⟩ := h.bullet
  have hreturns : ¬Returns text := fun hr => hsettled (Or.inl hr)
  have hlost : ∃ line ∈ lines text, ¬Bare line := by
    rcases lines_bare hreturns with ⟨hlast, -⟩ | ⟨-, init, last, hlines, -, hlast⟩
    · exact absurd (Or.inr hlast) hsettled
    · exact ⟨last, by rw [hlines]; simp, hlast⟩
  have hheading : charCount heading ≤ charCount heading' := by
    rcases hplace.place with ⟨-, -, -, -, -, -, rfl, -⟩ | ⟨hnone, -, hheading⟩
    · exact Nat.zero_le _
    · rcases hheading' with rfl | ⟨-, -, hheading'⟩
      · obtain ⟨a, line, b, hin, hline, -⟩ := hin
        rw [append_nil] at hin
        rw [hnone line (by rw [htext', hin]; simp)] at hline
        cases hline
      · rw [hheading.spec.2.2.2.1, hheading'.spec.2.2.2.1]
  have hbullet' : (stripReturn ("- ".toList ++ entry)).length ≤ bullet'.length := by
    rcases hbullet with rfl | rfl
    · exact length_stripReturn_le _
    · exact le_rfl
  have hcount := congrArg charCount (hafter.symm.trans (hbare hreturns))
  have hless := charCount_stripReturn hlost
  have htext := congrArg charCount htext'
  have hstrip := charCount_stripReturn_le heading
  rw [hplace.eq] at hless htext
  simp only [charCount_append, charCount_cons, map_append, map_cons] at hcount hless htext
  omega

theorem heading_before {before before' rest rest' x y : List Line} {bullet bullet' other : Line}
    (htext : before ++ rest = before' ++ rest') (hafter : before ++ bullet :: rest = before' ++ bullet' :: rest')
    (hbullet : isHistory bullet = false) (hother : isHistory other = true) (heq : before' = x ++ other :: y) :
    ∃ z, before = x ++ other :: z := by
  rcases append_eq_append_iff.mp htext with ⟨c, rfl, rfl⟩ | ⟨c, rfl, -⟩
  · rw [append_assoc] at hafter
    have hall := eq_of_insert (append_cancel_left hafter)
    have hnotIn : other ∉ c := by
      intro hin
      rw [hall other hin, hbullet] at hother
      cases hother
    rcases append_eq_append_iff.mp heq with ⟨z, -, hz⟩ | ⟨z, rfl, hz⟩
    · exact absurd (by rw [hz]; simp) hnotIn
    cases z with
    | nil => exact absurd (by rw [← nil_append c, ← hz]; simp) hnotIn
    | cons l z =>
      obtain ⟨rfl, -⟩ := List.cons.inj hz
      exact ⟨z, rfl⟩
  · exact ⟨y ++ c, by rw [heq, append_assoc, cons_append]⟩

theorem addHistory_iff (hentry : '\n' ∉ entry) :
    Recorded text entry (addHistory text entry) ↔ Settled text ∧ Placed text := by
  constructor
  · intro h
    have hsettled := settled_of_recorded hentry h
    refine ⟨hsettled, fun a line b heq ha hline => ?_⟩
    obtain ⟨before, heading, bullet, rest, hplace, -, hlines, hbullet⟩ := lines_addHistory_settled hsettled hentry
    obtain ⟨before', heading', bullet', rest', htext', hafter, -, hheading', hin⟩ := h.bullet
    have hnotBullet : isHistory bullet = false := by
      rcases hbullet with rfl | rfl
      · exact isHistory_bullet entry
      · rw [isHistory, trimMatches_stripReturn]
        exact isHistory_bullet entry
    rcases hplace.place with ⟨a', line', b', heq', ha', hline', rfl, rfl⟩ | ⟨hnone, -⟩
    · obtain ⟨rfl, rfl, rfl⟩ := first_heading ha hline ha' hline' (heq.symm.trans heq')
      obtain rfl : heading' = [] := by
        refine hheading'.resolve_right fun hnone => ?_
        rw [hnone.1 line (by rw [heq]; simp)] at hline
        cases hline
      obtain ⟨x, other, y, hx, hother, hn, -⟩ := hin
      rw [append_nil] at hlines hafter hx
      obtain ⟨z, hz⟩ := heading_before (hplace.eq.symm.trans htext') (hlines.symm.trans hafter) hnotBullet hother hx
      obtain ⟨c, d, rfl, hsection⟩ := section_of_heading ha hz hother
      exact ⟨c, other, d, hsection, hother, by simpa using hn⟩
    · rw [hnone line (by rw [heq]; simp)] at hline
      cases hline
  · rintro ⟨hsettled, hplaced⟩
    obtain ⟨before, heading, bullet, rest, hplace, hsplit, hlines, hbullet⟩ := lines_addHistory_settled hsettled hentry
    have hin : InHistory (split text).2 (before ++ heading) := by
      rcases hplace.place with ⟨a, line, b, heq, ha, hline, rfl, rfl⟩ | ⟨hnone, rfl, hheading⟩
      · obtain ⟨c, other, d, hsection, hother, hn⟩ := hplaced a line b heq ha hline
        rw [append_nil]
        exact inHistory_section hsection hother hn
      · obtain ⟨-, -, -, -, blank, rfl⟩ := hheading.spec
        refine ⟨before ++ blank, "## History".toList, [], (append_assoc _ _ _).symm, by decide, ?_, nofun⟩
        have hlength := split_le_length text
        rw [hplace.eq, append_nil] at hlength
        rw [length_append]
        omega
    have hbefore : (splitLines (before ++ rest)).2 ≤ before.length := by
      rw [← hplace.eq, ← split_eq]
      rcases hplace.place with ⟨a, line, b, heq, ha, hline, rfl, rfl⟩ | ⟨hnone, rfl, hheading⟩
      · have hlength := hin.le_length
        rw [append_nil] at hlength
        exact hlength.le
      · have hlength := split_le_length text
        rwa [hplace.eq, append_nil] at hlength
    refine ⟨?_, before, heading, bullet, rest, hplace.eq, hlines, hbullet, ?_, hin⟩
    · have hnew : ∀ line ∈ heading ++ ["- ".toList ++ entry], isDelimiter line = false := by
        simpa [or_imp, forall_and] using ⟨hplace.heading_spec.1, not_delimiter_bullet entry⟩
      have hinsert := splitLines_insert (a := before) (b := rest) hnew hbefore
      rw [hsplit, split_eq text, hplace.eq, ← hinsert]
      simp
    · rcases hplace.place with ⟨-, -, -, -, -, -, hheading, -⟩ | hheading
      · exact Or.inl hheading
      · exact Or.inr hheading

/-- Setting a field is exact as long as no other line of the block has it and the last line after the block keeps its
    end; adding to the history is as long as every line keeps its end and the history stands after the block. -/
theorem edits_exact_iff (hkey : key ∈ knownKeys) (hvalue : '\n' ∉ value) (hentry : '\n' ∉ entry) :
    (FieldSet text key value (setField text key value) ↔ Single text key value ∧ BodySettled text) ∧
      (Recorded text entry (addHistory text entry) ↔ Settled text ∧ Placed text) :=
  ⟨setField_iff hkey hvalue, addHistory_iff hentry⟩

namespace Sample

def twice : List Char := "---\nstatus: draft\nstatus: done\n---\n".toList

theorem edits_of_twice :
    (FieldSet twice "id".toList "a".toList (setField twice "id".toList "a".toList) ↔
      Single twice "id".toList "a".toList ∧ BodySettled twice) ∧
    (Recorded twice "begun".toList (addHistory twice "begun".toList) ↔ Settled twice ∧ Placed twice) :=
  edits_exact_iff (by decide) (by decide) (by decide)

/-- The status that was set is not the one that is read. -/
theorem status_unread :
    setField twice "status".toList "planned".toList = "---\nstatus: planned\nstatus: done\n---\n".toList ∧
      readField (setField twice "status".toList "planned".toList) "status".toList = some "done".toList ∧
      ¬FieldSet twice "status".toList "planned".toList (setField twice "status".toList "planned".toList) := by
  have hread : readField (setField twice "status".toList "planned".toList) "status".toList = some "done".toList := by decide
  refine ⟨by decide, hread, fun hset => ?_⟩
  have hplanned := hset.read
  rw [hread] at hplanned
  exact absurd hplanned (by decide)

end Sample

end RustyCore.Specs.Front
