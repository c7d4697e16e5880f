import Mathlib.Data.List.Basic
import RustyCore.Context.Superseded

/-! Which stubs have a newer copy behind them. To cover is transitive, so the last read that covers one is covered by
    none itself; only where one call was answered more than once can its results be replaced with it. -/

namespace RustyCore

open List
namespace Superseded

variable {messages after : List AgentMessage} {upto i j : Nat} {lookup : ToolCallId → Option Read}
  {bs : List ContentBlock} {block : ContentBlock} {id id' : ToolCallId} {read later : Read} {ids : List ToolCallId}
  {result : ToolResultSummary}

def mapContent (f : ContentBlock → ContentBlock) (message : AgentMessage) : AgentMessage :=
  { message with content := message.content.map f }

def before (messages : List AgentMessage) (upto : Nat) : List ContentBlock := blocks (messages.take upto)

/-- The `i`th block is the result of a read that succeeded. -/
def ReadAt (lookup : ToolCallId → Option Read) (bs : List ContentBlock) (i : Nat) (id : ToolCallId) (read : Read) :
    Prop :=
  ∃ result, bs[i]? = some (.toolResult id result) ∧ result.hasError = false ∧ lookup id = some read

def Covered (lookup : ToolCallId → Option Read) (bs : List ContentBlock) (i : Nat) (read : Read) : Prop :=
  ∃ j, i < j ∧ ∃ id later, ReadAt lookup bs j id later ∧ later.supersedes read = true

/-- Each result that is replaced has, later in the same prefix, a successful result of a read that covers it and is not
    replaced; nothing else is changed; and a second time nothing is. -/
structure Stubbed (messages : List AgentMessage) (upto : Nat) (after : List AgentMessage) : Prop where
  newer : ∀ i id result result', (before messages upto)[i]? = some (.toolResult id result) →
    (before after upto)[i]? = some (.toolResult id result') → result' ≠ result →
    ∃ read, reads (before messages upto) id = some read ∧ ∃ j, i < j ∧ ∃ id' later,
      ReadAt (reads (before messages upto)) (before messages upto) j id' later ∧ later.supersedes read = true ∧
      (before after upto)[j]? = (before messages upto)[j]?
  rest : ∃ f : ContentBlock → ContentBlock,
    (∀ block, f block = block ∨ ∃ id result text, block = .toolResult id result ∧
      (reads (before messages upto) id).isSome ∧ f block = .toolResult id { result with outputPreview := text }) ∧
    after = (messages.take upto).map (mapContent f) ++ messages.drop upto
  twice : stubSupersededReads after upto = (after, 0)

/-- When one result of a call is followed by a read that covers it, so is every other result of the same call that does
    not read as a stub already. -/
def Alike (lookup : ToolCallId → Option Read) (bs : List ContentBlock) : Prop :=
  ∀ i j id result read, ReadAt lookup bs i id read → Covered lookup bs i read →
    bs[j]? = some (.toolResult id result) → isStub result = false → Covered lookup bs j read

theorem supersedes_trans {a b c : Read} (hab : a.supersedes b = true) (hbc : b.supersedes c = true) :
    a.supersedes c = true := by
  simp only [Read.supersedes, decide_eq_true_eq] at hab hbc ⊢
  obtain ⟨hpath, hscope⟩ := hab
  obtain ⟨hpath', hscope'⟩ := hbc
  refine ⟨hpath.trans hpath', ?_⟩
  rcases hscope with hwhole | hsame
  · exact Or.inl hwhole
  · rw [hsame]
    exact hscope'

theorem ReadAt.called (h : ReadAt lookup bs i id read) : lookup id = some read := h.choose_spec.2.2

theorem readAt_zero : ReadAt lookup (block :: bs) 0 id read ↔
    ∃ result, block = .toolResult id result ∧ result.hasError = false ∧ lookup id = some read := by
  simp [ReadAt]

theorem readAt_succ : ReadAt lookup (block :: bs) (i + 1) id read ↔ ReadAt lookup bs i id read := by simp [ReadAt]

theorem covered_succ : Covered lookup (block :: bs) (i + 1) read ↔ Covered lookup bs i read := by
  constructor
  · rintro ⟨j, hlt, id, later, hread, hsup⟩
    obtain ⟨j, rfl⟩ := Nat.exists_eq_succ_of_ne_zero (by omega : j ≠ 0)
    exact ⟨j, by omega, id, later, readAt_succ.mp hread, hsup⟩
  · rintro ⟨j, hlt, id, later, hread, hsup⟩
    exact ⟨j + 1, by omega, id, later, readAt_succ.mpr hread, hsup⟩

theorem mem_order : id ∈ order lookup bs ↔ ∃ i read, ReadAt lookup bs i id read := by
  rw [order, mem_filterMap]
  constructor
  · rintro ⟨block, hblock, hid⟩
    obtain ⟨i, hi⟩ := mem_iff_getElem?.mp hblock
    cases block with
    | toolResult id' result =>
      rw [Option.ite_none_right_eq_some] at hid
      obtain ⟨hread, hid⟩ := hid
      obtain rfl := Option.some.inj hid
      simp only [Bool.and_eq_true, Option.isSome_iff_exists, Bool.not_eq_true'] at hread
      obtain ⟨⟨read, hread⟩, herror⟩ := hread
      exact ⟨i, read, result, hi, herror, hread⟩
    | text | toolUse | image => cases hid
  · rintro ⟨i, read, result, hi, herror, hread⟩
    exact ⟨_, mem_of_getElem? hi, by simp [hread, herror]⟩

theorem covered_zero (hread : lookup id = some read) :
    ((order lookup bs).any fun later => covers lookup later id) = true ↔ Covered lookup (block :: bs) 0 read := by
  rw [any_eq_true]
  constructor
  · rintro ⟨id', hid, hcovers⟩
    obtain ⟨i, later, hlater⟩ := mem_order.mp hid
    have hsome : lookup id' = some later := hlater.called
    simp only [covers, hsome, hread] at hcovers
    exact ⟨i + 1, i.succ_pos, id', later, readAt_succ.mpr hlater, hcovers⟩
  · rintro ⟨j, hlt, id', later, hlater, hsup⟩
    obtain ⟨j, rfl⟩ := Nat.exists_eq_succ_of_ne_zero (by omega : j ≠ 0)
    have hsome : lookup id' = some later := hlater.called
    exact ⟨id', mem_order.mpr ⟨j, later, readAt_succ.mp hlater⟩, by simpa [covers, hsome, hread] using hsup⟩

theorem order_cons_read (herror : result.hasError = false) (hread : lookup id = some read) :
    order lookup (.toolResult id result :: bs) = id :: order lookup bs := by simp [order, hread, herror]

theorem order_cons (h : ∀ id read, ¬ReadAt lookup (block :: bs) 0 id read) :
    order lookup (block :: bs) = order lookup bs := by
  rw [order, filterMap_cons_none]
  · rfl
  · cases block with
    | toolResult id result =>
      by_contra hsome
      simp only [ite_eq_right_iff, reduceCtorEq, imp_false, not_not, Bool.and_eq_true, Option.isSome_iff_exists,
        Bool.not_eq_true'] at hsome
      obtain ⟨⟨read, hread⟩, herror⟩ := hsome
      exact h id read (readAt_zero.mpr ⟨result, rfl, herror, hread⟩)
    | text | toolUse | image => rfl

theorem mem_superseded : id ∈ superseded lookup (order lookup bs) ↔
    ∃ i read, ReadAt lookup bs i id read ∧ Covered lookup bs i read := by
  induction bs with
  | nil => simp [order, superseded, ReadAt]
  | cons block bs ih =>
    have htail : (∃ i read, ReadAt lookup bs i id read ∧ Covered lookup bs i read) ↔
        ∃ i read, ReadAt lookup (block :: bs) (i + 1) id read ∧ Covered lookup (block :: bs) (i + 1) read := by
      simp only [readAt_succ, covered_succ]
    have hsplit : (∃ i read, ReadAt lookup (block :: bs) i id read ∧ Covered lookup (block :: bs) i read) ↔
        (∃ read, ReadAt lookup (block :: bs) 0 id read ∧ Covered lookup (block :: bs) 0 read) ∨
          ∃ i read, ReadAt lookup bs i id read ∧ Covered lookup bs i read := by
      rw [htail]
      constructor
      · rintro ⟨_ | i, read, h⟩
        · exact Or.inl ⟨read, h⟩
        · exact Or.inr ⟨i, read, h⟩
      · rintro (⟨read, h⟩ | ⟨i, read, h⟩)
        · exact ⟨0, read, h⟩
        · exact ⟨i + 1, read, h⟩
    rw [hsplit, ← ih]
    by_cases hfirst : ∃ id read, ReadAt lookup (block :: bs) 0 id read
    · obtain ⟨id', read, hread⟩ := hfirst
      obtain ⟨result, rfl, herror, hsome⟩ := readAt_zero.mp hread
      rw [order_cons_read herror hsome, superseded]
      have hhead : (∃ read, ReadAt lookup (.toolResult id' result :: bs) 0 id read ∧
          Covered lookup (.toolResult id' result :: bs) 0 read) ↔
          id = id' ∧ ((order lookup bs).any fun later => covers lookup later id') = true := by
        have hzero : ((order lookup bs).any fun later => covers lookup later id') = true ↔
            Covered lookup (.toolResult id' result :: bs) 0 read := covered_zero hsome
        rw [hzero]
        constructor
        · rintro ⟨read', hread', hcovered⟩
          obtain ⟨result', hblock, -, hsome'⟩ := readAt_zero.mp hread'
          obtain ⟨rfl, rfl⟩ := ContentBlock.toolResult.inj hblock
          obtain rfl : read = read' := Option.some.inj (hsome.symm.trans hsome')
          exact ⟨rfl, hcovered⟩
        · rintro ⟨rfl, hcovered⟩
          exact ⟨read, hread, hcovered⟩
      rw [hhead]
      split
      · rename_i hany
        simp [hany]
      · rename_i hany
        simp [hany]
    · simp only [not_exists] at hfirst
      rw [order_cons hfirst]
      simp [hfirst]

def stubbed (lookup : ToolCallId → Option Read) (ids : List ToolCallId) (block : ContentBlock) : ContentBlock :=
  (replace lookup ids block).getD block

theorem isStub_stubText : isStub { result with outputPreview := stubText lookup id } = true := by
  rw [isStub, stubText, Text.startsWith, isPrefixOf_iff_prefix, String.append_assoc, String.append_assoc,
    String.toList_append]
  exact prefix_append _ _

theorem stubbed_eq_of_kept (h : id ∉ ids ∨ isStub result = true) :
    stubbed lookup ids (.toolResult id result) = .toolResult id result := by
  have hkept : (ids.contains id && !isStub result) = false := by
    rcases h with h | h
    · simp [h]
    · simp [h]
  rw [stubbed, replace, hkept]
  rfl

theorem stubbed_eq_of_replaced (hid : id ∈ ids) (hstub : isStub result = false) :
    stubbed lookup ids (.toolResult id result) = .toolResult id { result with outputPreview := stubText lookup id } := by
  rw [stubbed, replace, contains_iff_mem.mpr hid, hstub]
  rfl

theorem stubbed_ne_iff : stubbed lookup ids (.toolResult id result) ≠ .toolResult id result ↔
    id ∈ ids ∧ isStub result = false := by
  constructor
  · intro h
    by_contra hkept
    rw [not_and, Bool.not_eq_false] at hkept
    refine h (stubbed_eq_of_kept ?_)
    by_cases hid : id ∈ ids
    · exact Or.inr (hkept hid)
    · exact Or.inl hid
  · rintro ⟨hid, hstub⟩ hsame
    rw [stubbed_eq_of_replaced hid hstub] at hsame
    have hresult := (ContentBlock.toolResult.inj hsame).2
    have hagain : isStub { result with outputPreview := stubText lookup id } = true := isStub_stubText
    rw [hresult, hstub] at hagain
    cases hagain

theorem stubbed_eq_of_not (h : ¬(id ∈ ids ∧ isStub result = false)) :
    stubbed lookup ids (.toolResult id result) = .toolResult id result := not_not.mp (mt stubbed_ne_iff.mp h)

theorem replace_stubbed : replace lookup ids (stubbed lookup ids block) = none := by
  cases block with
  | toolResult id result =>
    by_cases hreplaced : id ∈ ids ∧ isStub result = false
    · rw [stubbed_eq_of_replaced hreplaced.1 hreplaced.2, replace, isStub_stubText]
      simp
    · rw [stubbed_eq_of_not hreplaced, replace]
      rw [not_and, Bool.not_eq_false] at hreplaced
      refine if_neg fun h => ?_
      rw [Bool.and_eq_true, contains_iff_mem] at h
      rw [hreplaced h.1] at h
      cases h.2
  | text | toolUse | image => rfl

theorem filterMap_stubbed {β : Type} {f : ContentBlock → Option β}
    (hf : ∀ id result text, f (.toolResult id { result with outputPreview := text }) = f (.toolResult id result)) :
    (bs.map (stubbed lookup ids)).filterMap f = bs.filterMap f := by
  rw [filterMap_map]
  congr 1
  funext block
  cases block with
  | toolResult id result =>
    by_cases hreplaced : id ∈ ids ∧ isStub result = false
    · rw [Function.comp_apply, stubbed_eq_of_replaced hreplaced.1 hreplaced.2]
      exact hf ..
    · rw [Function.comp_apply, stubbed_eq_of_not hreplaced]
  | text | toolUse | image => rfl

theorem reads_stubbed : reads (bs.map (stubbed lookup ids)) = reads bs := by
  have hcalls : calls (bs.map (stubbed lookup ids)) = calls bs := filterMap_stubbed fun _ _ _ => rfl
  funext id
  rw [reads, reads, hcalls]

def targets (messages : List AgentMessage) (upto : Nat) : List ToolCallId :=
  superseded (reads (before messages upto)) (order (reads (before messages upto)) (before messages upto))

theorem stub_eq (messages : List AgentMessage) (upto : Nat) : (stubSupersededReads messages upto).1 =
    (messages.take upto).map (mapContent (stubbed (reads (before messages upto)) (targets messages upto))) ++
      messages.drop upto := rfl

theorem take_stub : (stubSupersededReads messages upto).1.take upto =
    (messages.take upto).map (mapContent (stubbed (reads (before messages upto)) (targets messages upto))) := by
  rw [stub_eq, take_append, length_map, length_take, take_of_length_le (by simp),
    append_right_eq_self, take_eq_nil_iff]
  rcases Nat.le_total upto messages.length with hle | hle
  · exact Or.inl (by omega)
  · exact Or.inr (drop_of_length_le hle)

theorem drop_stub : (stubSupersededReads messages upto).1.drop upto = messages.drop upto := by
  rw [stub_eq, drop_append, length_map, length_take, drop_of_length_le (by simp), nil_append,
    drop_drop]
  rcases Nat.le_total upto messages.length with hle | hle
  · rw [Nat.min_eq_left hle, Nat.sub_self, Nat.add_zero]
  · rw [drop_of_length_le hle, drop_of_length_le (by omega)]

theorem before_stub : before (stubSupersededReads messages upto).1 upto =
    (before messages upto).map (stubbed (reads (before messages upto)) (targets messages upto)) := by
  rw [before, take_stub, before, blocks, blocks, flatMap_map, map_flatMap]
  rfl

theorem reads_stub : reads (before (stubSupersededReads messages upto).1 upto) = reads (before messages upto) := by
  rw [before_stub, reads_stubbed]

theorem targets_stub : targets (stubSupersededReads messages upto).1 upto = targets messages upto := by
  rw [targets, reads_stub, before_stub, order, filterMap_stubbed fun _ _ _ => rfl, ← order]
  rfl

theorem stub_twice : stubSupersededReads (stubSupersededReads messages upto).1 upto =
    ((stubSupersededReads messages upto).1, 0) := by
  have hnone : ∀ block ∈ before (stubSupersededReads messages upto).1 upto,
      replace (reads (before messages upto)) (targets messages upto) block = none := by
    intro block hblock
    rw [before_stub, mem_map] at hblock
    obtain ⟨old, -, rfl⟩ := hblock
    exact replace_stubbed
  refine Prod.ext ?_ ?_
  · rw [stub_eq, reads_stub, targets_stub, drop_stub]
    conv_rhs => rw [← take_append_drop upto (stubSupersededReads messages upto).1, drop_stub]
    congr 1
    conv_rhs => rw [← map_id ((stubSupersededReads messages upto).1.take upto)]
    refine map_congr_left fun message hmessage => ?_
    have hcontent : message.content.map (stubbed (reads (before messages upto)) (targets messages upto)) =
        message.content := by
      conv_rhs => rw [← map_id message.content]
      refine map_congr_left fun block hblock => ?_
      rw [stubbed, hnone block (mem_flatMap.mpr ⟨message, hmessage, hblock⟩)]
      rfl
    rw [mapContent, hcontent]
    rfl
  · have hcount : (stubSupersededReads (stubSupersededReads messages upto).1 upto).2 =
        ((before (stubSupersededReads messages upto).1 upto).filterMap
          (replace (reads (before (stubSupersededReads messages upto).1 upto))
            (targets (stubSupersededReads messages upto).1 upto))).length := rfl
    rw [hcount, reads_stub, targets_stub, length_eq_zero_iff, filterMap_eq_nil_iff]
    exact hnone

theorem exists_newest (h : Covered lookup bs i read) : ∃ j, i < j ∧ ∃ id later, ReadAt lookup bs j id later ∧
    later.supersedes read = true ∧ ¬Covered lookup bs j later := by
  obtain ⟨j, hlt, id, later, hread, hsup⟩ := h
  induction hbound : bs.length - j using Nat.strong_induction_on generalizing j id later with
  | _ bound ih =>
    by_cases hcovered : Covered lookup bs j later
    · obtain ⟨k, hjk, id', newest, hnewest, hsup'⟩ := hcovered
      have hlength : k < bs.length := (List.getElem?_eq_some_iff.mp hnewest.choose_spec.1).1
      exact ih (bs.length - k) (by omega) k (by omega) id' newest hnewest (supersedes_trans hsup' hsup) rfl
    · exact ⟨j, hlt, id, later, hread, hsup, hcovered⟩

/-- The stubs have newer copies exactly when the results of each call are alike. -/
theorem stubbed_iff (messages : List AgentMessage) (upto : Nat) :
    Stubbed messages upto (stubSupersededReads messages upto).1 ↔
      Alike (reads (before messages upto)) (before messages upto) := by
  have hafter : ∀ i : Nat, (before (stubSupersededReads messages upto).1 upto)[i]? =
      ((before messages upto)[i]?).map (stubbed (reads (before messages upto)) (targets messages upto)) := by
    intro i
    rw [before_stub, List.getElem?_map]
  constructor
  · intro h i j id result read hread hcovered hj hstub
    have hid : id ∈ targets messages upto := mem_superseded.mpr ⟨i, read, hread, hcovered⟩
    have hsome : reads (before messages upto) id = some read := hread.called
    have hchanged : stubbed (reads (before messages upto)) (targets messages upto) (.toolResult id result) ≠
        .toolResult id result := stubbed_ne_iff.mpr ⟨hid, hstub⟩
    have hj' := hafter j
    rw [hj, Option.map_some, stubbed_eq_of_replaced hid hstub] at hj'
    obtain ⟨read', hsome', k, hlt, id', later, hlater, hsup, -⟩ := h.newer j id result _ hj hj' fun hsame =>
      hchanged (by rw [stubbed_eq_of_replaced hid hstub, hsame])
    obtain rfl : read = read' := Option.some.inj (hsome.symm.trans hsome')
    exact ⟨k, hlt, id', later, hlater, hsup⟩
  · intro halike
    refine ⟨fun i id result result' hi hi' hne => ?_,
      ⟨stubbed (reads (before messages upto)) (targets messages upto), fun block => ?_, stub_eq messages upto⟩, stub_twice⟩
    · rw [hafter, hi, Option.map_some, Option.some_inj] at hi'
      obtain ⟨hid, hstub⟩ := stubbed_ne_iff.mp (fun hsame => hne (by
        rw [hsame] at hi'
        exact (ContentBlock.toolResult.inj hi').2.symm))
      obtain ⟨first, read, hread, hcovered⟩ := mem_superseded.mp hid
      obtain ⟨j, hlt, id', later, hlater, hsup, hlast⟩ := exists_newest (halike first i id result read hread hcovered hi hstub)
      refine ⟨read, hread.called, j, hlt, id', later, hlater, hsup, ?_⟩
      obtain ⟨newest, hj, -, hsome⟩ := hlater
      rw [hafter, hj, Option.map_some]
      congr 1
      by_contra hchanged
      obtain ⟨hid', hstub'⟩ := stubbed_ne_iff.mp hchanged
      obtain ⟨first', read', hread', hcovered'⟩ := mem_superseded.mp hid'
      obtain rfl : later = read' := Option.some.inj (hsome.symm.trans hread'.called)
      exact hlast (halike first' j id' newest later hread' hcovered' hj hstub')
    · cases block with
      | toolResult id result =>
        by_cases hreplaced : id ∈ targets messages upto ∧ isStub result = false
        · obtain ⟨first, read, hread, -⟩ := mem_superseded.mp hreplaced.1
          refine Or.inr ⟨id, result, _, rfl, ?_, stubbed_eq_of_replaced hreplaced.1 hreplaced.2⟩
          rw [hread.called]
          rfl
        · exact Or.inl (stubbed_eq_of_not hreplaced)
      | text | toolUse | image => exact Or.inl rfl

namespace Sample

def asks : AgentMessage :=
  ⟨⟨8⟩, .assistant, [.toolUse ⟨⟨1⟩, "read_file", .object [("path", .string "a.ts")]⟩], ⟨0, 0⟩⟩

def answers (text : String) : AgentMessage := ⟨⟨9⟩, .tool, [.toolResult ⟨1⟩ ⟨false, text⟩], ⟨0, 0⟩⟩

def repeated : List AgentMessage := [asks, answers "old", asks, answers "new"]

def replaced : String := "[older read replaced: a.ts was read again later; use that newer copy]"

/-- The newest copy is replaced with the older one. -/
theorem newest_stubbed : (stubSupersededReads repeated 4).1 = [asks, answers replaced, asks, answers replaced] ∧
    ¬Stubbed repeated 4 (stubSupersededReads repeated 4).1 := by
  refine ⟨by rfl, fun h => ?_⟩
  obtain ⟨read, -, j, hlt, id', later, ⟨result, hj, -⟩, -⟩ := h.newer 3 ⟨1⟩ ⟨false, "new"⟩ ⟨false, replaced⟩
    (by rfl) (by rfl) (by decide)
  have hlength : j < 4 := (List.getElem?_eq_some_iff.mp hj).1
  omega

end Sample

end Superseded
end RustyCore
