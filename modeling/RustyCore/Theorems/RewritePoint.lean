import RustyCore.Context.Superseded

/-! The point up to which superseded reads are replaced moves by whole steps of the history. Between two of them every
    request sends what was rewritten before as it was sent before. -/

namespace RustyCore

open List
namespace Superseded

variable {messages later : List AgentMessage} {boundary boundary' seen index upto step : Nat}

def total (messages : List AgentMessage) : Nat := (messages.map size).sum

theorem total_append (messages later : List AgentMessage) : total (messages ++ later) = total messages + total later := by
  rw [total, map_append, sum_append, total, total]

theorem le_pointAt (messages : List AgentMessage) : index ≤ pointAt boundary seen index messages := by
  induction messages generalizing seen index with
  | nil => exact Nat.le_refl index
  | cons message rest ih =>
    rw [pointAt]
    split
    · exact Nat.le_succ index
    · exact Nat.le_of_succ_le ih

theorem pointAt_le (boundary seen index : Nat) (messages : List AgentMessage) :
    pointAt boundary seen index messages ≤ index + messages.length := by
  induction messages generalizing seen index with
  | nil => exact Nat.le_refl index
  | cons message rest ih =>
    rw [pointAt, length_cons]
    split
    · omega
    · have hrest := ih (seen + size message) (index + 1)
      omega

theorem pointAt_append (hseen : seen < boundary) (hreached : boundary ≤ seen + total messages) :
    pointAt boundary seen index (messages ++ later) = pointAt boundary seen index messages := by
  induction messages generalizing seen index with
  | nil =>
    rw [total, map_nil, sum_nil] at hreached
    omega
  | cons message rest ih =>
    rw [cons_append, pointAt, pointAt]
    split
    · rfl
    · rename_i hmore
      refine ih (not_le.mp hmore) ?_
      rw [total, map_cons, sum_cons] at hreached
      rw [total]
      omega

theorem pointAt_mono (hboundary : boundary ≤ boundary') (messages later : List AgentMessage) :
    pointAt boundary seen index messages ≤ pointAt boundary' seen index (messages ++ later) := by
  induction messages generalizing seen index with
  | nil => exact le_pointAt later
  | cons message rest ih =>
    rw [cons_append, pointAt, pointAt]
    split
    · split
      · exact Nat.le_refl _
      · exact le_pointAt (rest ++ later)
    · rename_i hmore
      rw [if_neg fun h => hmore (hboundary.trans h)]
      exact ih

theorem rewritePoint_le (messages : List AgentMessage) : rewritePoint messages step ≤ messages.length := by
  rw [rewritePoint]
  split
  · exact Nat.zero_le _
  · have hle := pointAt_le ((messages.map size).sum / step * step) 0 0 messages
    rwa [Nat.zero_add] at hle

theorem rewritePoint_mono (messages later : List AgentMessage) :
    rewritePoint messages step ≤ rewritePoint (messages ++ later) step := by
  have hboundary : total messages / step * step ≤ total (messages ++ later) / step * step := by
    rw [total_append]
    exact Nat.mul_le_mul_right step (Nat.div_le_div_right (Nat.le_add_right _ _))
  show (if total messages / step * step = 0 then 0 else pointAt (total messages / step * step) 0 0 messages) ≤
    if total (messages ++ later) / step * step = 0 then 0
    else pointAt (total (messages ++ later) / step * step) 0 0 (messages ++ later)
  split
  · exact Nat.zero_le _
  · rename_i hsome
    rw [if_neg (by omega)]
    exact pointAt_mono hboundary messages later

theorem rewritePoint_append (h : total messages / step = total (messages ++ later) / step) :
    rewritePoint (messages ++ later) step = rewritePoint messages step := by
  show (if total (messages ++ later) / step * step = 0 then 0
      else pointAt (total (messages ++ later) / step * step) 0 0 (messages ++ later)) =
    if total messages / step * step = 0 then 0 else pointAt (total messages / step * step) 0 0 messages
  rw [← h]
  split
  · rfl
  · rename_i hsome
    refine pointAt_append (Nat.pos_of_ne_zero hsome) ?_
    rw [Nat.zero_add]
    exact Nat.div_mul_le_self _ _

theorem stubSupersededReads_append (later : List AgentMessage) (h : upto ≤ messages.length) :
    (stubSupersededReads (messages ++ later) upto).1 = (stubSupersededReads messages upto).1 ++ later := by
  simp only [stubSupersededReads, take_append_of_le_length h, drop_append_of_le_length h, append_assoc]

theorem length_stubSupersededReads (messages : List AgentMessage) (upto : Nat) :
    (stubSupersededReads messages upto).1.length = messages.length := by
  simp only [stubSupersededReads, length_append, length_map, length_take, length_drop]
  omega

/-- As a history grows the point never moves back; and while it grows within one step, what was sent of it before is
    sent again, message for message. -/
theorem rewritten_prefix_stable (messages later : List AgentMessage) :
    rewritePoint messages stepChars ≤ rewritePoint (messages ++ later) stepChars ∧
    (total messages / stepChars = total (messages ++ later) / stepChars →
      rewritePoint (messages ++ later) stepChars = rewritePoint messages stepChars ∧
      (assemble (messages ++ later)).take messages.length = assemble messages ∧
      (assemble (messages ++ later)).drop messages.length = later) := by
  refine ⟨rewritePoint_mono messages later, fun h => ?_⟩
  have hpoint := rewritePoint_append h
  have hassemble : assemble (messages ++ later) = assemble messages ++ later := by
    rw [assemble, hpoint, stubSupersededReads_append later (rewritePoint_le messages), assemble]
  have hlength : (assemble messages).length = messages.length := length_stubSupersededReads messages _
  refine ⟨hpoint, ?_, ?_⟩
  · rw [hassemble, ← hlength, take_left]
  · rw [hassemble, ← hlength, drop_left]

namespace Sample

def message (text : String) : AgentMessage := ⟨⟨1⟩, .user, [.text text], .fromSequence 0⟩

def large : String := String.ofList (List.replicate stepChars 'x')

theorem utf8ByteSize_large : large.utf8ByteSize = stepChars := by
  have hlen (n : Nat) : String.utf8Len (List.replicate n 'x') = n := by
    induction n with
    | zero => rfl
    | succ n ih =>
      rw [replicate_succ, String.utf8Len_cons, ih]
      rfl
  rw [large, String.utf8ByteSize_ofList, hlen]

theorem size_large : size (message large) = stepChars := by
  simp [size, message, utf8ByteSize_large]

def calls (id : Nat) : AgentMessage :=
  ⟨⟨2⟩, .assistant, [.toolUse ⟨⟨id⟩, "read_file", .object [("path", .string "a.ts")]⟩], .fromSequence 0⟩

def returns (id : Nat) (text : String) : AgentMessage := ⟨⟨3⟩, .tool, [.toolResult ⟨id⟩ ⟨false, text⟩], .fromSequence 0⟩

def reread : List AgentMessage := [calls 1, returns 1 "old", calls 2, returns 2 "new", message large]

def stubbedText : String := "[older read replaced: a.ts was read again later; use that newer copy]"

theorem sizes_reread : reread.map size = [24, 3, 24, 3, stepChars] := by
  have hreads : (reread.take 4).map size = [24, 3, 24, 3] := by decide
  rw [← take_append_drop 4 reread, map_append, hreads, ← size_large]
  rfl

theorem rewritePoint_reread : rewritePoint reread stepChars = 5 := by
  obtain ⟨h1, h2, h3, h4, h5, -⟩ : size (calls 1) = 24 ∧ size (returns 1 "old") = 3 ∧ size (calls 2) = 24 ∧
      size (returns 2 "new") = 3 ∧ size (message large) = stepChars ∧ True := by
    simpa [reread] using sizes_reread
  rw [rewritePoint, sizes_reread]
  simp [reread, pointAt, h1, h2, h3, h4, h5, stepChars]

end Sample

open Superseded.Sample in
/-- The older copy of a file that is read twice is replaced, and stays so in the next request. -/
theorem rewritten_prefix_stable_large : total reread / stepChars = total (reread ++ [message "next"]) / stepChars ∧
    (assemble reread)[1]? = some (returns 1 stubbedText) ∧
    (assemble (reread ++ [message "next"])).take 5 = assemble reread ∧
    (assemble (reread ++ [message "next"])).drop 5 = [message "next"] := by
  have hnext : size (message "next") = 4 := by decide
  have hstep : total reread / stepChars = total (reread ++ [message "next"]) / stepChars := by
    rw [total_append, total, total, sizes_reread, map_singleton, hnext]
    decide
  obtain ⟨-, hstable⟩ := rewritten_prefix_stable reread [message "next"]
  refine ⟨hstep, ?_, (hstable hstep).2⟩
  rw [assemble, rewritePoint_reread]
  rfl

end Superseded
end RustyCore
