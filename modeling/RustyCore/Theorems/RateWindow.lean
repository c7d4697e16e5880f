import Mathlib
import RustyCore.Scheduler.RateWindow

/-! # The rate limit in every window

Each call looks at the window that ends now. Since the entries kept at a call are exactly the requests accepted
in the 60 seconds before it (`Kept`), a request that is accepted fits into every window that holds it, and by
induction every closed window is within the limits. The one gap is the greatest token limit there is: a saturated
sum does not exceed it. -/

namespace RustyCore.RateWindow

open List

structure Limits where
  maxRequests : Option UInt32
  maxTokens : Option UInt64

variable {limits : Limits} {w w' : RateWindow} {now cutoff : Int} {tokens : UInt64} {ok : Bool}
  {entries calls accepted : List RateEntry} {call : RateEntry}

def total (entries : List RateEntry) : Nat := (entries.map fun entry => entry.2.toNat).sum

@[simp] theorem total_nil : total [] = 0 := rfl

@[simp] theorem total_append {more : List RateEntry} : total (entries ++ more) = total entries + total more := by
  rw [total, map_append, sum_append]
  rfl

@[simp] theorem total_singleton : total [(now, tokens)] = tokens.toNat := rfl

theorem total_sublist {fewer : List RateEntry} (h : fewer.Sublist entries) : total fewer ≤ total entries := by
  induction h with
  | slnil => exact le_rfl
  | cons entry _ ih => exact ih.trans (Nat.le_add_left _ _)
  | cons_cons entry _ ih => exact Nat.add_le_add_left ih _

theorem checkedAdd_eq {a b : UInt64} :
    checkedAdd a b = if a.toNat + b.toNat < 2 ^ 64 then some (.ofNat (a.toNat + b.toNat)) else none := by
  rw [checkedAdd]
  split_ifs with h
  · refine congrArg some (UInt64.toNat_inj.mp ?_)
    rw [UInt64.toNat_add, UInt64.toNat_ofNat_of_lt' h, Nat.mod_eq_of_lt h]
  · rfl

theorem foldlM_checkedAdd (start : UInt64) :
    entries.foldlM (fun sum entry => checkedAdd sum entry.2) start =
      if start.toNat + total entries < 2 ^ 64 then some (.ofNat (start.toNat + total entries)) else none := by
  induction entries generalizing start with
  | nil =>
    have hlt : start.toNat + total [] < 2 ^ 64 := start.toNat_lt
    rw [if_pos hlt, total_nil, Nat.add_zero, UInt64.ofNat_toNat]
    rfl
  | cons entry rest ih =>
    have htotal : total (entry :: rest) = entry.2.toNat + total rest := rfl
    rw [foldlM_cons, checkedAdd_eq, htotal, ← Nat.add_assoc]
    by_cases hfirst : start.toNat + entry.2.toNat < 2 ^ 64
    · rw [if_pos hfirst, Option.bind_eq_bind, Option.bind_some, ih, UInt64.toNat_ofNat_of_lt' hfirst]
    · rw [if_neg hfirst, if_neg (by omega)]
      rfl

theorem sum_eq : sum entries = if total entries < 2 ^ 64 then some (.ofNat (total entries)) else none := by
  rw [sum, foldlM_checkedAdd]
  simp

theorem toNat_saturatingAdd {a b : UInt64} : (saturatingAdd a b).toNat = min (a.toNat + b.toNat) (2 ^ 64 - 1) := by
  rw [saturatingAdd, checkedAdd_eq]
  split_ifs with h
  · rw [Option.getD_some, UInt64.toNat_ofNat_of_lt' h]
    omega
  · rw [Option.getD_none, UInt64.toNat_ofNat_of_lt' (by decide)]
    omega

def Full (limits : Limits) (entries : List RateEntry) : Prop :=
  ∃ maxReq, limits.maxRequests = some maxReq ∧ maxReq.toNat ≤ entries.length

def Limits.check (limits : Limits) (w : RateWindow) (call : RateEntry) : Option (Bool × RateWindow) :=
  w.checkAndRecord call.1 call.2 limits.maxRequests limits.maxTokens

theorem check_cases (limits : Limits) (w : RateWindow) (call : RateEntry) :
    (Full limits (purge call.1 w.entries) ∧ limits.check w call = some (false, ⟨purge call.1 w.entries⟩)) ∨
    ¬Full limits (purge call.1 w.entries) ∧
      ((limits.maxTokens = none ∧ limits.check w call = some (true, ⟨purge call.1 w.entries ++ [call]⟩)) ∨
      ∃ maxTok, limits.maxTokens = some maxTok ∧
        ((2 ^ 64 ≤ total (purge call.1 w.entries) ∧ limits.check w call = none) ∨
        (maxTok.toNat < min (total (purge call.1 w.entries) + call.2.toNat) (2 ^ 64 - 1) ∧
          limits.check w call = some (false, ⟨purge call.1 w.entries⟩)) ∨
        (min (total (purge call.1 w.entries) + call.2.toNat) (2 ^ 64 - 1) ≤ maxTok.toNat ∧
          total (purge call.1 w.entries) < 2 ^ 64 ∧
          limits.check w call = some (true, ⟨purge call.1 w.entries ++ [call]⟩)))) := by
  obtain ⟨maxRequests, maxTokens⟩ := limits
  obtain ⟨now, tokens⟩ := call
  simp only [Limits.check, checkAndRecord, Full]
  by_cases hfull : ∃ maxReq, maxRequests = some maxReq ∧ maxReq.toNat ≤ (purge now w.entries).length
  · refine .inl ⟨hfull, if_pos ?_⟩
    obtain ⟨maxReq, rfl, hle⟩ := hfull
    simpa using hle
  · have hany : ¬(maxRequests.any fun maxReq => maxReq.toNat ≤ (purge now w.entries).length) = true := by
      intro hany
      cases maxRequests with
      | none => cases hany
      | some maxReq => exact hfull ⟨maxReq, rfl, by simpa using hany⟩
    rw [if_neg hany]
    refine .inr ⟨hfull, ?_⟩
    cases maxTokens with
    | none => exact .inl ⟨rfl, rfl⟩
    | some maxTok =>
      refine .inr ⟨maxTok, rfl, ?_⟩
      rw [sum_eq]
      by_cases hsum : total (purge now w.entries) < 2 ^ 64
      · rw [if_pos hsum]
        simp only [Option.map_some]
        have hadd : (saturatingAdd (.ofNat (total (purge now w.entries))) tokens).toNat =
            min (total (purge now w.entries) + tokens.toNat) (2 ^ 64 - 1) := by
          rw [toNat_saturatingAdd, UInt64.toNat_ofNat_of_lt' hsum]
        by_cases hover : saturatingAdd (.ofNat (total (purge now w.entries))) tokens > maxTok
        · rw [if_pos hover]
          exact .inr (.inl ⟨hadd ▸ UInt64.lt_iff_toNat_lt.mp hover, rfl⟩)
        · rw [if_neg hover]
          refine .inr (.inr ⟨?_, hsum, rfl⟩)
          rw [← hadd]
          exact Nat.not_lt.mp fun hlt => hover (UInt64.lt_iff_toNat_lt.mpr hlt)
      · rw [if_neg hsum]
        exact .inl ⟨Nat.not_lt.mp hsum, rfl⟩

theorem check_accepted (h : limits.check w call = some (true, w')) :
    w'.entries = purge call.1 w.entries ++ [call] ∧ ¬Full limits (purge call.1 w.entries) ∧
    ∀ maxTok, limits.maxTokens = some maxTok →
      min (total (purge call.1 w.entries) + call.2.toNat) (2 ^ 64 - 1) ≤ maxTok.toNat := by
  rcases check_cases limits w call with ⟨-, hcheck⟩ | ⟨hfull, ⟨hnone, hcheck⟩ |
    ⟨maxTok, hmax, ⟨-, hcheck⟩ | ⟨-, hcheck⟩ | ⟨hle, -, hcheck⟩⟩⟩
  · cases hcheck.symm.trans h
  · cases hcheck.symm.trans h
    exact ⟨rfl, hfull, fun maxTok hmax => by cases hnone.symm.trans hmax⟩
  · cases hcheck.symm.trans h
  · cases hcheck.symm.trans h
  · cases hcheck.symm.trans h
    refine ⟨rfl, hfull, fun other hother => ?_⟩
    cases hmax.symm.trans hother
    exact hle

theorem check_refused (h : limits.check w call = some (false, w')) : w'.entries = purge call.1 w.entries := by
  rcases check_cases limits w call with ⟨-, hcheck⟩ | ⟨-, ⟨-, hcheck⟩ |
    ⟨maxTok, -, ⟨-, hcheck⟩ | ⟨-, hcheck⟩ | ⟨-, -, hcheck⟩⟩⟩
  · cases hcheck.symm.trans h
    rfl
  · cases hcheck.symm.trans h
  · cases hcheck.symm.trans h
  · cases hcheck.symm.trans h
    rfl
  · cases hcheck.symm.trans h

theorem check_defined (h : ∀ maxTok, limits.maxTokens = some maxTok → total (purge call.1 w.entries) < 2 ^ 64) :
    ∃ answer, limits.check w call = some answer := by
  rcases check_cases limits w call with ⟨-, hcheck⟩ | ⟨-, ⟨-, hcheck⟩ |
    ⟨maxTok, hmax, ⟨hover, -⟩ | ⟨-, hcheck⟩ | ⟨-, -, hcheck⟩⟩⟩
  · exact ⟨_, hcheck⟩
  · exact ⟨_, hcheck⟩
  · exact absurd (h maxTok hmax) (Nat.not_lt.mpr hover)
  · exact ⟨_, hcheck⟩
  · exact ⟨_, hcheck⟩

def Limits.run (limits : Limits) (calls : List RateEntry) : Option (RateWindow × List RateEntry) :=
  calls.foldlM (fun state call => (limits.check state.1 call).map fun (ok, w) =>
    (w, if ok then state.2 ++ [call] else state.2)) (new, [])

theorem run_snoc : limits.run (calls ++ [call]) = (limits.run calls).bind fun state =>
    (limits.check state.1 call).map fun (ok, w) => (w, if ok then state.2 ++ [call] else state.2) := by
  rw [Limits.run, foldlM_append]
  refine congrArg ((limits.run calls).bind ·) (funext fun state => ?_)
  rw [foldlM_cons]
  exact bind_pure _

structure Within (limits : Limits) (entries : List RateEntry) : Prop where
  requests : ∀ maxReq, limits.maxRequests = some maxReq → entries.length ≤ maxReq.toNat
  tokens : ∀ maxTok, limits.maxTokens = some maxTok → total entries ≤ maxTok.toNat

def during (start : Int) (accepted : List RateEntry) : List RateEntry :=
  accepted.filter fun entry => start ≤ entry.1 ∧ entry.1 ≤ start + sixtySeconds

def recent (now : Int) (entries : List RateEntry) : List RateEntry :=
  entries.filter fun entry => now - sixtySeconds ≤ entry.1

theorem purge_eq_recent (h : entries.Pairwise (·.1 ≤ ·.1)) : purge now entries = recent now entries := by
  induction entries with
  | nil => rfl
  | cons entry rest ih =>
    obtain ⟨hhead, hrest⟩ := pairwise_cons.mp h
    rw [purge, dropWhile_cons, recent, filter_cons]
    by_cases hold : entry.1 < now - sixtySeconds
    · rw [if_pos (decide_eq_true hold), if_neg (by rw [decide_eq_true_eq]; exact not_le.mpr hold)]
      exact ih hrest
    · rw [if_neg (by rwa [decide_eq_true_eq]), if_pos (decide_eq_true (not_lt.mp hold))]
      have hnone : recent now rest = rest :=
        filter_eq_self.mpr fun other hother => by
          have := hhead other hother
          simp only [decide_eq_true_eq]
          omega
      rw [← hnone, recent, filter_filter]
      simp

theorem recent_recent {later : Int} (h : now ≤ later) : recent later (recent now entries) = recent later entries := by
  rw [recent, recent, recent, filter_filter]
  refine filter_congr fun entry _ => ?_
  simp only [Bool.and_eq_decide, decide_eq_true_eq, decide_eq_decide]
  omega

/-- The window is what the accepted requests leave of it: purged at any later time, it holds those that are
    not older than 60 seconds. -/
structure Kept (calls : List RateEntry) (w : RateWindow) (accepted : List RateEntry) : Prop where
  sublist : accepted.Sublist calls
  sorted : w.entries.Pairwise (·.1 ≤ ·.1)
  entries : ∀ now, (∀ c ∈ calls, c.1 ≤ now) → recent now w.entries = recent now accepted

theorem kept_new : Kept [] new [] := ⟨.slnil, .nil, fun _ _ => rfl⟩

theorem Kept.purge_eq (h : Kept calls w accepted) (hcalls : ∀ c ∈ calls, c.1 ≤ call.1) :
    purge call.1 w.entries = recent call.1 accepted :=
  (purge_eq_recent h.sorted).trans (h.entries call.1 hcalls)

theorem Kept.check (h : Kept calls w accepted) (hsorted : (calls ++ [call]).Pairwise (·.1 ≤ ·.1))
    (hcheck : limits.check w call = some (ok, w')) :
    Kept (calls ++ [call]) w' (if ok then accepted ++ [call] else accepted) := by
  obtain ⟨-, -, hlast⟩ := pairwise_append.mp hsorted
  have hcalls : ∀ c ∈ calls, c.1 ≤ call.1 := fun c hc => hlast c hc call (mem_singleton.mpr rfl)
  have hpurge := h.purge_eq hcalls
  have hpurged : (purge call.1 w.entries).Pairwise (·.1 ≤ ·.1) := h.sorted.sublist (dropWhile_sublist _)
  have hrecent : ∀ now, (∀ c ∈ calls ++ [call], c.1 ≤ now) →
      recent now (purge call.1 w.entries) = recent now accepted := by
    intro now hnow
    rw [hpurge, recent_recent (hnow call (by simp))]
  cases ok with
  | true =>
    obtain ⟨hentries, -, -⟩ := check_accepted hcheck
    refine ⟨h.sublist.append_right [call], ?_, fun now hnow => ?_⟩
    · rw [hentries]
      refine pairwise_append.mpr ⟨hpurged, pairwise_singleton _ _, fun entry hentry last hl => ?_⟩
      rw [mem_singleton.mp hl]
      rw [hpurge] at hentry
      exact hcalls entry (h.sublist.subset (mem_of_mem_filter hentry))
    · rw [hentries, if_pos rfl, recent, filter_append, recent, filter_append]
      exact congrArg (· ++ _) (hrecent now hnow)
  | false =>
    refine ⟨h.sublist.trans (sublist_append_left _ _), ?_, fun now hnow => ?_⟩
    · rw [check_refused hcheck]
      exact hpurged
    · rw [check_refused hcheck]
      exact hrecent now hnow

structure Law (limits : Limits) (calls : List RateEntry) : Prop where
  /-- No sum overflows, and what was accepted is within the limits in every closed interval of 60 seconds. -/
  windows : ∃ w accepted, limits.run calls = some (w, accepted) ∧ ∀ start, Within limits (during start accepted)
  /-- A refused call takes from the window what has expired, and nothing else. -/
  refused : ∀ before call after w accepted w', calls = before ++ call :: after →
    limits.run before = some (w, accepted) → limits.check w call = some (false, w') →
    w'.entries = recent call.1 w.entries

/-- The condition on a call, given the window before it: where the token limit is the greatest number there is,
    the tokens of the window and of the call add up, or the requests are used up. -/
def Fits (limits : Limits) (w : RateWindow) (call : RateEntry) : Prop :=
  limits.maxTokens = some (.ofNat (2 ^ 64 - 1)) → ¬Full limits (purge call.1 w.entries) →
    total (purge call.1 w.entries) + call.2.toNat < 2 ^ 64

def AllFit (limits : Limits) (calls : List RateEntry) : Prop :=
  ∀ before call after w accepted, calls = before ++ call :: after → limits.run before = some (w, accepted) →
    Fits limits w call

theorem run_snoc_eq (h : limits.run (calls ++ [call]) = some (w', accepted)) :
    ∃ w earlier ok, limits.run calls = some (w, earlier) ∧ limits.check w call = some (ok, w') ∧
      accepted = if ok then earlier ++ [call] else earlier := by
  rw [run_snoc] at h
  obtain ⟨⟨w, earlier⟩, hrun, hstep⟩ := Option.bind_eq_some_iff.mp h
  obtain ⟨⟨ok, next⟩, hcheck, hstate⟩ := Option.map_eq_some_iff.mp hstep
  cases hstate
  exact ⟨w, earlier, ok, hrun, hcheck, rfl⟩

theorem run_kept (hsorted : calls.Pairwise (·.1 ≤ ·.1)) (h : limits.run calls = some (w, accepted)) :
    Kept calls w accepted := by
  induction calls using List.reverseRecOn generalizing w accepted with
  | nil =>
    cases h
    exact kept_new
  | append_singleton calls call ih =>
    obtain ⟨before, earlier, ok, hrun, hcheck, rfl⟩ := run_snoc_eq h
    exact (ih (pairwise_append.mp hsorted).1 hrun).check hsorted hcheck

theorem run_prefix {more : List RateEntry} (h : limits.run (calls ++ more) = some (w', accepted)) :
    ∃ w earlier, limits.run calls = some (w, earlier) ∧ earlier <+: accepted := by
  induction more using List.reverseRecOn generalizing w' accepted with
  | nil =>
    rw [append_nil] at h
    exact ⟨w', accepted, h, prefix_rfl⟩
  | append_singleton more call ih =>
    rw [← append_assoc] at h
    obtain ⟨next, later, ok, hrun, -, rfl⟩ := run_snoc_eq h
    obtain ⟨w, earlier, hbefore, hprefix⟩ := ih hrun
    refine ⟨w, earlier, hbefore, ?_⟩
    cases ok with
    | true => exact hprefix.trans (prefix_append _ _)
    | false => exact hprefix

theorem Within.sublist {fewer : List RateEntry} (h : Within limits entries) (hsub : fewer.Sublist entries) :
    Within limits fewer where
  requests maxReq hmax := hsub.length_le.trans (h.requests maxReq hmax)
  tokens maxTok hmax := (total_sublist hsub).trans (h.tokens maxTok hmax)

theorem within_accepted (hfits : Fits limits w call) (hcheck : limits.check w call = some (true, w')) :
    Within limits (purge call.1 w.entries ++ [call]) := by
  obtain ⟨-, hfull, htokens⟩ := check_accepted hcheck
  refine ⟨fun maxReq hmax => ?_, fun maxTok hmax => ?_⟩
  · have hlt : ¬maxReq.toNat ≤ (purge call.1 w.entries).length := fun hle => hfull ⟨maxReq, hmax, hle⟩
    rw [length_append, length_singleton]
    omega
  · have hle := htokens maxTok hmax
    have hwidth := maxTok.toNat_lt
    rw [total_append, show total [call] = call.2.toNat from rfl]
    by_cases htop : maxTok.toNat = 2 ^ 64 - 1
    · have hmost : maxTok = .ofNat (2 ^ 64 - 1) := by rw [← htop, UInt64.ofNat_toNat]
      have := hfits (hmost ▸ hmax) hfull
      omega
    · omega

theorem mem_le (hsorted : (calls ++ [call]).Pairwise (·.1 ≤ ·.1)) (h : Kept calls w accepted) :
    ∀ entry ∈ accepted, entry.1 ≤ call.1 := fun entry hentry =>
  (pairwise_append.mp hsorted).2.2 entry (h.sublist.subset hentry) call (mem_singleton.mpr rfl)

theorem recent_eq_during (h : ∀ entry ∈ accepted, entry.1 ≤ now) :
    recent now accepted = during (now - sixtySeconds) accepted := by
  refine filter_congr fun entry hentry => ?_
  have := h entry hentry
  simp only [decide_eq_decide]
  omega

theorem during_sublist_recent {start : Int} (h : now ≤ start + sixtySeconds) :
    (during start accepted).Sublist (recent now accepted) := by
  refine monotone_filter_right accepted fun entry hentry => ?_
  simp only [decide_eq_true_eq] at hentry ⊢
  omega

theorem AllFit.init (h : AllFit limits (calls ++ [call])) : AllFit limits calls := by
  intro before c after w accepted hsplit hrun
  exact h before c (after ++ [call]) w accepted (by rw [hsplit, append_assoc]; rfl) hrun

theorem run_within (hsorted : calls.Pairwise (·.1 ≤ ·.1)) (hfit : AllFit limits calls) :
    ∃ w accepted, limits.run calls = some (w, accepted) ∧ ∀ start, Within limits (during start accepted) := by
  induction calls using List.reverseRecOn with
  | nil => exact ⟨new, [], rfl, fun _ => ⟨fun _ _ => Nat.zero_le _, fun _ _ => Nat.zero_le _⟩⟩
  | append_singleton calls call ih =>
    obtain ⟨hinit, -, hlast⟩ := pairwise_append.mp hsorted
    obtain ⟨w, accepted, hrun, hwithin⟩ := ih hinit hfit.init
    have hkept := run_kept hinit hrun
    have hpurge := hkept.purge_eq fun c hc => hlast c hc call (mem_singleton.mpr rfl)
    have hdefined : ∃ answer, limits.check w call = some answer := by
      refine check_defined fun maxTok hmax => ?_
      have hle := (hwithin (call.1 - sixtySeconds)).tokens maxTok hmax
      rw [hpurge, recent_eq_during (mem_le hsorted hkept)]
      exact hle.trans_lt maxTok.toNat_lt
    obtain ⟨⟨ok, w'⟩, hcheck⟩ := hdefined
    refine ⟨w', if ok then accepted ++ [call] else accepted, by rw [run_snoc, hrun, Option.bind_some, hcheck]; rfl, ?_⟩
    intro start
    cases ok with
    | false => exact hwithin start
    | true =>
      have hfits := hfit calls call [] w accepted rfl hrun
      rw [if_pos rfl, during, filter_append]
      by_cases hin : start ≤ call.1 ∧ call.1 ≤ start + sixtySeconds
      · -- the call is in the interval, so the rest of it is in the call's window
        refine (within_accepted hfits hcheck).sublist ?_
        rw [hpurge]
        exact (during_sublist_recent hin.2).append filter_sublist
      · rw [filter_cons_of_neg (by simpa using hin), filter_nil, append_nil]
        exact hwithin start

theorem Law.fits {before after : List RateEntry} (hlaw : Law limits calls) (hsorted : calls.Pairwise (·.1 ≤ ·.1))
    (hsplit : calls = before ++ call :: after) (hrun : limits.run before = some (w, accepted)) :
    Fits limits w call := by
  intro hmax hfull
  by_contra hover
  obtain ⟨last, all, hall, hwithin⟩ := hlaw.windows
  have hsplit' : calls = (before ++ [call]) ++ after := by rw [hsplit, append_assoc]; rfl
  rw [hsplit'] at hall hsorted
  obtain ⟨w', through, hthrough, hprefix⟩ := run_prefix hall
  obtain ⟨w₀, earlier, ok, hrun', hcheck, rfl⟩ := run_snoc_eq hthrough
  cases hrun.symm.trans hrun'
  have hupto := (pairwise_append.mp hsorted).1
  have hkept := run_kept (pairwise_append.mp hupto).1 hrun
  have hpurge := hkept.purge_eq fun c hc =>
    (pairwise_append.mp hupto).2.2 c hc call (mem_singleton.mpr rfl)
  have htop : (UInt64.ofNat (2 ^ 64 - 1)).toNat = 2 ^ 64 - 1 := by decide
  have hok : ok = true := by
    rcases check_cases limits w call with ⟨hfull', -⟩ | ⟨-, ⟨hnone, -⟩ |
      ⟨maxTok, hmaxTok, ⟨-, hcheck'⟩ | ⟨hlt, -⟩ | ⟨-, -, hcheck'⟩⟩⟩
    · exact absurd hfull' hfull
    · cases hnone.symm.trans hmax
    · cases hcheck'.symm.trans hcheck
    · cases hmaxTok.symm.trans hmax
      omega
    · cases hcheck'.symm.trans hcheck
      rfl
  subst hok
  have hle := (hwithin (call.1 - sixtySeconds)).tokens _ hmax
  have hmore : (during (call.1 - sixtySeconds) (accepted ++ [call])).Sublist (during (call.1 - sixtySeconds) all) :=
    hprefix.sublist.filter _
  have hsum : total (during (call.1 - sixtySeconds) (accepted ++ [call])) =
      total (purge call.1 w.entries) + call.2.toNat := by
    have hcall : during (call.1 - sixtySeconds) [call] = [call] := by
      refine filter_eq_self.mpr fun entry hentry => ?_
      rw [mem_singleton.mp hentry, decide_eq_true_eq, sixtySeconds]
      omega
    rw [during, filter_append, total_append, hpurge, recent_eq_during (mem_le hupto hkept)]
    exact congrArg (total _ + ·) (congrArg total hcall)
  have hge := total_sublist hmore
  omega

/-- For calls at non-decreasing times under fixed limits: in every closed interval of 60 seconds the accepted
    requests and their tokens are within the limits, no sum overflows and a refused call takes nothing but expired
    entries from the window, exactly when no call under the greatest possible token limit takes the tokens of its
    window out of range. -/
theorem rate_limit_holds (limits : Limits) (calls : List RateEntry) (hsorted : calls.Pairwise (·.1 ≤ ·.1)) :
    Law limits calls ↔ AllFit limits calls := by
  constructor
  · intro hlaw before call after w accepted hsplit hrun
    exact hlaw.fits hsorted hsplit hrun
  · intro hfit
    refine ⟨run_within hsorted hfit, fun before call after w accepted w' hsplit hrun hrefused => ?_⟩
    rw [hsplit] at hsorted
    rw [check_refused hrefused]
    exact purge_eq_recent (run_kept (pairwise_append.mp hsorted).1 hrun).sorted

namespace Sample

/-- Three requests of one instant under a token limit of `u64::MAX`. -/
def topLimit : Limits := ⟨none, some (.ofNat (2 ^ 64 - 1))⟩

def burst : List RateEntry := [(0, .ofNat (2 ^ 64 - 1)), (0, 1), (0, 0)]

/-- The second is accepted over the limit, and the sum of the third overflows. -/
theorem burst_breaks_limit : ¬Law topLimit burst := by
  rintro ⟨⟨w, accepted, hrun, -⟩, -⟩
  have hnone : topLimit.run burst = none := by decide
  rw [hnone] at hrun
  cases hrun

def twice : Limits := ⟨some 2, some 10⟩

theorem rate_limit_holds_twice : Law twice [(0, 4), (1, 4), (sixtySeconds, 1), (sixtySeconds + 1, 2)] := by
  refine (rate_limit_holds twice _ (by decide)).mpr fun before call after w accepted hsplit hrun hmax => ?_
  cases hmax

end Sample

end RustyCore.RateWindow
