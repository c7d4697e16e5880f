import Mathlib.Algebra.Order.Group.Int
import Mathlib.Algebra.BigOperators.Group.List.Basic
import Mathlib.Data.List.Basic

/-! Sliding-window rate bookkeeping used by per-backend rate limits. Instants are nanoseconds; token counts and
    limits have the source's widths, and a sum that overflows is no result. -/

namespace RustyCore

abbrev RateEntry := Int × UInt64

structure RateWindow where
  entries : List RateEntry

/-- `Duration::from_secs(60)`. -/
def sixtySeconds : Int := 60 * 10 ^ 9

namespace RateWindow

def new : RateWindow := ⟨[]⟩

def purge (now : Int) (entries : List RateEntry) : List RateEntry :=
  entries.dropWhile fun entry => entry.1 < now - sixtySeconds

def checkedAdd (a b : UInt64) : Option UInt64 := if a.toNat + b.toNat < 2 ^ 64 then some (a + b) else none

def saturatingAdd (a b : UInt64) : UInt64 := (checkedAdd a b).getD (.ofNat (2 ^ 64 - 1))

def sum (entries : List RateEntry) : Option UInt64 := entries.foldlM (fun total entry => checkedAdd total entry.2) 0

/-- Check whether a request with `tokens` falls within the configured rate limits and record it if so. -/
def checkAndRecord (w : RateWindow) (now : Int) (tokens : UInt64) (maxRequests : Option UInt32)
    (maxTokens : Option UInt64) : Option (Bool × RateWindow) :=
  let entries := purge now w.entries
  if maxRequests.any fun maxReq => maxReq.toNat ≤ entries.length then some (false, ⟨entries⟩)
  else
    match maxTokens with
    | none => some (true, ⟨entries ++ [(now, tokens)]⟩)
    | some maxTok => (sum entries).map fun total =>
      if saturatingAdd total tokens > maxTok then (false, ⟨entries⟩) else (true, ⟨entries ++ [(now, tokens)]⟩)

end RateWindow

end RustyCore
