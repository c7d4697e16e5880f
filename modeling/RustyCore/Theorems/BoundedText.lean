import RustyCore.Agent.Transcript
import RustyCore.Lib.Utf8

/-! # The bounded text of an assistant message

What `push_bounded` stores of a sequence of deltas is what one reading of their concatenation gives: the text,
or its longest prefix within the limit and the notice. The notice is also how a later delta learns that the
text was cut, so a text within the limit that itself ends with the notice loses what follows: the splits
without such a point (`Unmarked`) are exactly those that are stored faithfully. -/

namespace RustyCore

open List Text

/-- `push_bounded` with its limit open. -/
def pushWithin (limit : Nat) (text delta : String) : String :=
  if delta.isEmpty || Text.endsWith text truncationMarker then text
  else if text.utf8ByteSize ≥ limit then text ++ truncationMarker
  else
    let remaining := limit - text.utf8ByteSize
    if delta.utf8ByteSize ≤ remaining then text ++ delta
    else text ++ String.ofList (Text.takeBytes remaining delta.toList) ++ truncationMarker

namespace BoundedText

variable {limit : Nat} {text delta whole kept rest : String} {deltas others : List String}

def stored (limit : Nat) (deltas : List String) : String := deltas.foldl (pushWithin limit) ""

@[simp] theorem stored_snoc : stored limit (deltas ++ [delta]) = pushWithin limit (stored limit deltas) delta := by
  rw [stored, foldl_append]
  rfl

@[simp] theorem join_snoc : String.join (deltas ++ [delta]) = String.join deltas ++ delta := by
  rw [String.join, foldl_append]
  rfl

structure LongestWithin (limit : Nat) (whole kept : String) : Prop where
  front : kept.toList <+: whole.toList
  within : kept.utf8ByteSize ≤ limit
  longest : ∀ other : String, other.toList <+: whole.toList → other.utf8ByteSize ≤ limit →
    other.toList <+: kept.toList

def Bounds (limit : Nat) (whole stored : String) : Prop :=
  ∃ kept, LongestWithin limit whole kept ∧
    stored = if whole.utf8ByteSize ≤ limit then kept else kept ++ truncationMarker

def cut (limit : Nat) (whole : String) : String := String.ofList (Text.takeBytes limit whole.toList)

theorem longestWithin_cut : LongestWithin limit whole (cut limit whole) where
  front := by
    rw [cut, String.toList_ofList]
    exact takeBytes_prefix limit _
  within := by
    rw [cut, String.utf8ByteSize_ofList]
    exact utf8Len_takeBytes limit _
  longest other hfront hwithin := by
    rw [cut, String.toList_ofList]
    rw [← String.utf8Len_toList] at hwithin
    exact prefix_takeBytes hfront hwithin

theorem LongestWithin.eq_cut (h : LongestWithin limit whole kept) : kept = cut limit whole := by
  have hcut : LongestWithin limit whole (cut limit whole) := longestWithin_cut
  have hle := h.longest _ hcut.front hcut.within
  have hge := hcut.longest _ h.front h.within
  exact String.toList_inj.mp (hge.eq_of_length_le hle.length_le)

theorem cut_eq_self (h : whole.utf8ByteSize ≤ limit) : cut limit whole = whole := by
  rw [cut, takeBytes_eq_self (by rwa [String.utf8Len_toList]), String.ofList_toList]

theorem bounds_iff {out : String} :
    Bounds limit whole out ↔ out = if whole.utf8ByteSize ≤ limit then whole else cut limit whole ++ truncationMarker := by
  constructor
  · rintro ⟨kept, hkept, rfl⟩
    rw [hkept.eq_cut]
    split_ifs with hwithin
    · exact cut_eq_self hwithin
    · rfl
  · intro h
    refine ⟨cut limit whole, longestWithin_cut, h.trans ?_⟩
    split_ifs with hwithin
    · exact (cut_eq_self hwithin).symm
    · rfl

theorem endsWith_marker : Text.endsWith (text ++ truncationMarker) truncationMarker = true := by
  rw [Text.endsWith, isSuffixOf_iff_suffix, String.toList_append]
  exact suffix_append _ _

theorem pushWithin_empty : pushWithin limit text "" = text := rfl

theorem pushWithin_marked (h : Text.endsWith text truncationMarker = true) : pushWithin limit text delta = text := by
  rw [pushWithin, h, Bool.or_true, if_pos rfl]

def Marked (limit : Nat) (whole : String) : Prop :=
  whole.utf8ByteSize ≤ limit ∧ Text.endsWith whole truncationMarker = true

theorem pushWithin_bounds (hmarked : Marked limit whole → delta = "") (h : Bounds limit whole text) :
    Bounds limit (whole ++ delta) (pushWithin limit text delta) := by
  rw [bounds_iff] at h ⊢
  by_cases hdelta : delta = ""
  · rw [hdelta, String.append_empty, pushWithin_empty]
    exact h
  have hpos : 0 < delta.utf8ByteSize := Nat.pos_of_ne_zero fun hzero => hdelta (String.utf8ByteSize_eq_zero_iff.mp hzero)
  have hempty : delta.isEmpty = false := by simpa using hdelta
  have hsize : (whole ++ delta).utf8ByteSize = whole.utf8ByteSize + delta.utf8ByteSize := String.utf8ByteSize_append
  by_cases hwithin : whole.utf8ByteSize ≤ limit
  · rw [if_pos hwithin] at h
    subst h
    have hends : Text.endsWith text truncationMarker = false :=
      Bool.eq_false_iff.mpr fun hends => hdelta (hmarked ⟨hwithin, hends⟩)
    have hcut : cut limit (text ++ delta) =
        text ++ String.ofList (Text.takeBytes (limit - text.utf8ByteSize) delta.toList) := by
      rw [cut, String.toList_append, takeBytes_append (by rwa [String.utf8Len_toList]), String.utf8Len_toList,
        String.ofList_append, String.ofList_toList]
    rw [pushWithin, hempty, hends, Bool.or_false, if_neg Bool.false_ne_true]
    simp only
    split_ifs with hfull hlong hfits hlong hlong
    · omega
    · -- the text fills the limit to the byte
      have hzero : limit - text.utf8ByteSize = 0 := by omega
      rw [hcut, hzero, takeBytes_zero, String.ofList_nil, String.append_empty]
    · rfl
    · omega
    · omega
    · rw [hcut]
  · -- already cut: the notice keeps what comes out
    rw [if_neg hwithin] at h
    have hlong : ¬(whole ++ delta).utf8ByteSize ≤ limit := by omega
    rw [if_neg hlong, h, pushWithin_marked endsWith_marker, cut, cut, String.toList_append,
      takeBytes_append_of_lt (by rw [String.utf8Len_toList]; omega)]

/-- At no point of the sequence does the text so far, still within the limit, end with the notice while
    more text is to come. -/
def Unmarked (limit : Nat) (deltas : List String) : Prop :=
  ∀ before after, deltas = before ++ after → Marked limit (String.join before) → String.join after = ""

theorem unmarked_snoc : Unmarked limit (deltas ++ [delta]) ↔
    Unmarked limit deltas ∧ (Marked limit (String.join deltas) → delta = "") := by
  constructor
  · intro h
    refine ⟨fun before after hsplit hmarked => ?_, fun hmarked => ?_⟩
    · have hrest := h before (after ++ [delta]) (by rw [hsplit, append_assoc]) hmarked
      rw [join_snoc] at hrest
      exact (String.append_eq_empty_iff.mp hrest).1
    · have hrest := h deltas [delta] rfl hmarked
      rwa [String.join, foldl_cons, foldl_nil, String.empty_append] at hrest
  · rintro ⟨hrun, hlast⟩ before after hsplit hmarked
    rcases eq_nil_or_concat' after with rfl | ⟨front, last, rfl⟩
    · rfl
    · rw [← append_assoc] at hsplit
      obtain ⟨rfl, hlasts⟩ := append_inj' hsplit rfl
      cases hlasts
      have hfront := hrun before front rfl hmarked
      rw [join_snoc, hfront, String.empty_append]
      refine hlast ?_
      rwa [String.join_append, hfront, String.append_empty]

structure Stuck (limit : Nat) (whole text : String) : Prop where
  within : text.utf8ByteSize ≤ limit
  ends : Text.endsWith text truncationMarker = true
  lost : ∃ rest, rest ≠ "" ∧ whole = text ++ rest

theorem Stuck.push (h : Stuck limit whole text) : Stuck limit (whole ++ delta) (pushWithin limit text delta) := by
  obtain ⟨rest, hne, hwhole⟩ := h.lost
  rw [pushWithin_marked h.ends]
  refine ⟨h.within, h.ends, rest ++ delta, fun hnil => hne (String.append_eq_empty_iff.mp hnil).1, ?_⟩
  rw [hwhole, String.append_assoc]

theorem Stuck.not_bounds (h : Stuck limit whole text) : ¬Bounds limit whole text := by
  intro hbounds
  obtain ⟨rest, hne, rfl⟩ := h.lost
  have hpos : rest.utf8ByteSize ≠ 0 := fun hzero => hne (String.utf8ByteSize_eq_zero_iff.mp hzero)
  rw [bounds_iff] at hbounds
  have hsize := congrArg String.utf8ByteSize hbounds
  split_ifs at hsize with hwithin
  · rw [String.utf8ByteSize_append] at hsize
    omega
  · -- the prefix that should be stored is at least as long, and the notice follows it
    have hprefix : text.toList <+: (cut limit (text ++ rest)).toList :=
      longestWithin_cut.longest text (by rw [String.toList_append]; exact prefix_append _ _) h.within
    obtain ⟨more, hmore⟩ := hprefix
    have hlen := congrArg String.utf8Len hmore
    rw [String.utf8Len_append, String.utf8Len_toList, String.utf8Len_toList] at hlen
    have hmarker : 0 < truncationMarker.utf8ByteSize := by decide
    rw [String.utf8ByteSize_append] at hsize
    omega

theorem stored_spec (deltas : List String) :
    (Unmarked limit deltas ∧ Bounds limit (String.join deltas) (stored limit deltas)) ∨
    (¬Unmarked limit deltas ∧ Stuck limit (String.join deltas) (stored limit deltas)) := by
  induction deltas using List.reverseRecOn with
  | nil =>
    refine .inl ⟨fun before after hsplit _ => ?_, ?_⟩
    · rw [(append_eq_nil_iff.mp hsplit.symm).2]
      rfl
    · exact bounds_iff.mpr (if_pos (Nat.zero_le _)).symm
  | append_singleton deltas delta ih =>
    rw [stored_snoc, join_snoc, unmarked_snoc]
    rcases ih with ⟨hrun, hbounds⟩ | ⟨hrun, hstuck⟩
    · by_cases hlast : Marked limit (String.join deltas) → delta = ""
      · exact .inl ⟨⟨hrun, hlast⟩, pushWithin_bounds hlast hbounds⟩
      · obtain ⟨hmarked, hne⟩ := Classical.not_imp.mp hlast
        rw [bounds_iff, if_pos hmarked.1] at hbounds
        rw [hbounds, pushWithin_marked hmarked.2]
        exact .inr ⟨fun h => hlast h.2, hmarked.1, hmarked.2, delta, hne, rfl⟩
    · exact .inr ⟨fun h => hrun h.1, hstuck.push⟩

theorem Bounds.size_le (h : Bounds limit whole text) :
    text.utf8ByteSize ≤ limit + truncationMarker.utf8ByteSize := by
  obtain ⟨kept, hkept, rfl⟩ := h
  have hwithin := hkept.within
  split_ifs
  · omega
  · rw [String.utf8ByteSize_append]
    omega

theorem stored_size (deltas : List String) :
    (stored limit deltas).utf8ByteSize ≤ limit + truncationMarker.utf8ByteSize := by
  rcases @stored_spec limit deltas with ⟨-, hbounds⟩ | ⟨-, hstuck⟩
  · exact hbounds.size_le
  · exact hstuck.within.trans (Nat.le_add_right _ _)

theorem Bounds.unique {out : String} (h : Bounds limit whole text) (hout : Bounds limit whole out) : text = out :=
  (bounds_iff.mp h).trans (bounds_iff.mp hout).symm

/-- The stored text never exceeds the limit and the notice. It is the longest prefix of the concatenation within
    the limit, with the notice where the text was cut, exactly when no text within the limit ended with the notice
    before the end; and then it does not depend on the split. -/
theorem push_bounded_keeps_prefix (limit : Nat) (deltas : List String) :
    (stored limit deltas).utf8ByteSize ≤ limit + truncationMarker.utf8ByteSize ∧
    (Bounds limit (String.join deltas) (stored limit deltas) ↔ Unmarked limit deltas) ∧
    (Unmarked limit deltas → ∀ others, String.join others = String.join deltas → Unmarked limit others →
      stored limit others = stored limit deltas) := by
  have hspec : ∀ ds, Unmarked limit ds → Bounds limit (String.join ds) (stored limit ds) := by
    intro ds hds
    rcases @stored_spec limit ds with ⟨-, hbounds⟩ | ⟨hrun, -⟩
    · exact hbounds
    · exact absurd hds hrun
  refine ⟨stored_size deltas, ⟨fun hbounds => ?_, hspec deltas⟩, fun hrun others hjoin hothers => ?_⟩
  · rcases @stored_spec limit deltas with ⟨hrun, -⟩ | ⟨-, hstuck⟩
    · exact hrun
    · exact absurd hbounds hstuck.not_bounds
  · have hone := hspec others hothers
    rw [hjoin] at hone
    exact hone.unique (hspec deltas hrun)

/-- A model that quotes the notice, and then goes on: the rest is lost. -/
theorem quoted_notice_loses_rest :
    ¬Bounds maxAssistantTextBytes (String.join [truncationMarker, "x"])
      (stored maxAssistantTextBytes [truncationMarker, "x"]) := by
  have hstuck : Stuck maxAssistantTextBytes (String.join [truncationMarker, "x"])
      (stored maxAssistantTextBytes [truncationMarker, "x"]) := by
    have hstored : stored maxAssistantTextBytes [truncationMarker, "x"] = truncationMarker := by decide
    rw [hstored]
    exact ⟨by decide, by decide, "x", by decide, by decide⟩
  exact hstuck.not_bounds

end BoundedText

end RustyCore
