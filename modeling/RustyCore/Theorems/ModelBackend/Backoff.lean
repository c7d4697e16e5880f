import RustyCore.Theorems.ModelBackend.Circuit

/-! # The arithmetic of the backoff

`retry_delay` shifts by the attempt number and adds the clock's milliseconds. Delays the provider gives do not pass
through that expression, so nothing but `max_attempts` bounds the attempt at which it is first evaluated: up to the
57th attempt it is in range, from the 58th the base is saturated and any milliseconds overflow it, and from the 65th
the shift does. -/

namespace RustyCore.ModelBackend

open List Option

variable {policy : RecoveryPolicy} {r : RequestRun} {input : RequestInput} {inputs : List RequestInput}

/-- A call of `retry_delay`, with the milliseconds it reads off the clock. -/
structure RetryCall where
  attempt : Nat
  error : ModelError
  subsecMillis : Nat

namespace RetryCall

def Evaluates (c : RetryCall) : Prop :=
  checkedRetryDelay c.attempt c.error c.subsecMillis = some (retryDelay c.attempt c.error c.subsecMillis)

def base (c : RetryCall) : Option Nat := if c.error.retryAfter.isNone then checkedBaseMs c.attempt else none

/-- The condition: a call without a provider's delay is one of the first 57 attempts, or of the first 64 on the very
    second. -/
def InRange (c : RetryCall) : Prop :=
  c.error.retryAfter = none → c.attempt ≤ 57 ∨ c.attempt ≤ 64 ∧ c.subsecMillis = 0

variable {c : RetryCall}

theorem shift_eq (h : c.attempt ≤ 2 ^ 32) : (c.attempt - 1) % 2 ^ 32 = c.attempt - 1 :=
  Nat.mod_eq_of_lt (by omega)

theorem base_small {k : Nat} (h : k ≤ 56) : 250 * 2 ^ k + 1000 ≤ 2 ^ 64 := by
  have hpow : 2 ^ k ≤ 2 ^ 56 := Nat.pow_le_pow_right (by decide) h
  omega

theorem base_saturated {k : Nat} (h : 57 ≤ k) : min (250 * 2 ^ k) (2 ^ 64 - 1) = 2 ^ 64 - 1 := by
  have hpow : 2 ^ 57 ≤ 2 ^ k := Nat.pow_le_pow_right (by decide) h
  omega

theorem checkedBaseMs_eq {attempt : Nat} (h : attempt ≤ 64) :
    checkedBaseMs attempt = some (min (250 * 2 ^ ((attempt - 1) % 64)) (2 ^ 64 - 1)) := by
  have hwide : (attempt - 1) % 2 ^ 32 = attempt - 1 := Nat.mod_eq_of_lt (by omega)
  have hnarrow : (attempt - 1) % 64 = attempt - 1 := Nat.mod_eq_of_lt (by omega)
  rw [checkedBaseMs, hwide, hnarrow]
  exact if_pos (by omega)

theorem InRange.evaluates (h : c.InRange) (hclock : c.subsecMillis < 1000) : c.Evaluates := by
  unfold Evaluates checkedRetryDelay retryDelay
  cases hafter : c.error.retryAfter with
  | some delay => rfl
  | none =>
    have hattempt : c.attempt ≤ 64 := by rcases h hafter with h | ⟨h, -⟩ <;> omega
    have hnarrow : (c.attempt - 1) % 64 = c.attempt - 1 := Nat.mod_eq_of_lt (by omega)
    simp only [checkedBaseMs_eq hattempt, bind_some]
    have hmodulus : ∀ base, base ≤ 2 ^ 64 - 1 → ¬(base / 2 + 1 = 0 ∨ 2 ^ 64 ≤ base / 2 + 1) := by omega
    rw [if_neg (hmodulus _ (min_le_right _ _))]
    have hsum : min (250 * 2 ^ ((c.attempt - 1) % 64)) (2 ^ 64 - 1) +
        c.subsecMillis % (min (250 * 2 ^ ((c.attempt - 1) % 64)) (2 ^ 64 - 1) / 2 + 1) < 2 ^ 64 := by
      rcases h hafter with h | ⟨-, hzero⟩
      · have hbase := base_small (k := c.attempt - 1) (by omega)
        have hjitter := Nat.mod_le c.subsecMillis (min (250 * 2 ^ ((c.attempt - 1) % 64)) (2 ^ 64 - 1) / 2 + 1)
        rw [hnarrow] at hjitter ⊢
        omega
      · rw [hzero, Nat.zero_mod]
        omega
    rw [if_pos hsum, Nat.mod_eq_of_lt hsum]

theorem Evaluates.inRange (h : c.Evaluates) (hclock : c.subsecMillis < 1000) (hattempt : c.attempt ≤ 2 ^ 32) :
    c.InRange := by
  intro hafter
  unfold Evaluates checkedRetryDelay checkedBaseMs at h
  rw [hafter, shift_eq hattempt] at h
  by_contra hout
  by_cases hshift : c.attempt - 1 < 64
  · -- the base is saturated, and the milliseconds are not zero
    have hsaturated := base_saturated (k := c.attempt - 1) (by omega)
    have hjitter : c.subsecMillis % ((2 ^ 64 - 1) / 2 + 1) = c.subsecMillis := Nat.mod_eq_of_lt (by omega)
    simp only [if_pos hshift, bind_some, hsaturated, hjitter] at h
    rw [if_neg (by omega), if_neg (by omega)] at h
    cases h
  · simp only [if_neg hshift, bind_none] at h
    cases h

theorem base_mono {d : RetryCall} {b b' : Nat} (hd : d.InRange) (hle : c.attempt ≤ d.attempt) (hb : c.base = some b)
    (hb' : d.base = some b') : b ≤ b' := by
  unfold base at hb hb'
  split_ifs at hb hb' with hc hnone
  have hattempt : d.attempt ≤ 64 := by rcases hd (isNone_iff_eq_none.mp hnone) with h | ⟨h, -⟩ <;> omega
  rw [checkedBaseMs_eq (hle.trans hattempt)] at hb
  rw [checkedBaseMs_eq hattempt] at hb'
  cases hb
  cases hb'
  rw [Nat.mod_eq_of_lt (show c.attempt - 1 < 64 by omega), Nat.mod_eq_of_lt (show d.attempt - 1 < 64 by omega)]
  have hpow : 2 ^ (c.attempt - 1) ≤ 2 ^ (d.attempt - 1) := Nat.pow_le_pow_right (by decide) (by omega)
  omega

end RetryCall

/-- The call of `retry_delay` that a step of the loop reaches: `prepare_retry` makes it for an attempt that is to be
    retried. -/
def RequestRun.retryCall (policy : RecoveryPolicy) (r : RequestRun) (input : RequestInput) : Option RetryCall :=
  match r.phase, input with
  | .attempting, .attempt script moment =>
    match (r.attemptOnce policy script).2 with
    | .retry error => some ⟨r.attempt, error, moment.subsecMillis⟩
    | _ => none
  | _, _ => none

/-- The calls of `retry_delay` along a run, in order. -/
def retryCalls (policy : RecoveryPolicy) (r : RequestRun) (inputs : List RequestInput) : List RetryCall :=
  ((requestMachine policy).trace r inputs).filterMap fun st => st.pre.retryCall policy st.input

theorem retryCalls_cons : retryCalls policy r (input :: inputs) =
    (r.retryCall policy input).toList ++ retryCalls policy (r.step policy input).1 inputs := by
  rw [retryCalls, Machine.trace_cons, filterMap_cons]
  cases h : r.retryCall policy input with
  | none =>
    rw [show ((requestMachine policy).stepAt r input).pre.retryCall policy ((requestMachine policy).stepAt r input).input =
      none from h]
    rfl
  | some c =>
    rw [show ((requestMachine policy).stepAt r input).pre.retryCall policy ((requestMachine policy).stepAt r input).input =
      some c from h]
    rfl

def RequestRun.upcoming (r : RequestRun) : Nat :=
  match r.phase with
  | .attempting => r.attempt
  | _ => r.attempt + 1

theorem retryCall_eq_some {c : RetryCall} (h : r.retryCall policy input = some c) :
    ∃ script moment, r.phase = .attempting ∧ input = .attempt script moment ∧ c.attempt = r.attempt ∧
      c.subsecMillis = moment.subsecMillis := by
  unfold RequestRun.retryCall at h
  split at h
  · rename_i script moment hphase
    split at h
    · cases h
      exact ⟨script, moment, hphase, rfl, rfl, rfl⟩
    · cases h
  · cases h

theorem retryCall_of_retry {script : AttemptScript} {moment : RetryMoment} {error : ModelError}
    (hphase : r.phase = .attempting) (h : (r.attemptOnce policy script).2 = .retry error) :
    r.retryCall policy (.attempt script moment) = some ⟨r.attempt, error, moment.subsecMillis⟩ := by
  simp only [RequestRun.retryCall, hphase, h]

theorem attemptStep_upcoming {script : AttemptScript} {moment : RetryMoment} :
    (r.attemptStep policy script moment).1.upcoming = r.attempt + 1 := by
  unfold RequestRun.attemptStep
  dsimp only
  split
  · split <;> rfl
  · rfl

theorem step_upcoming : r.upcoming ≤ (r.step policy input).1.upcoming := by
  unfold RequestRun.step
  split
  · rename_i script moment hphase
    rw [attemptStep_upcoming, RequestRun.upcoming, hphase]
    exact Nat.le_succ _
  · rename_i elapsed hphase
    cases elapsed with
    | true | false => rw [RequestRun.upcoming, hphase]; exact le_rfl
  · rename_i result hphase
    rw [RequestRun.upcoming, hphase]
    exact le_rfl
  · exact le_rfl

theorem retryCalls_rising (inputs : List RequestInput) (r : RequestRun) :
    (∀ c ∈ retryCalls policy r inputs, r.upcoming ≤ c.attempt) ∧
      (retryCalls policy r inputs).Pairwise fun c d => c.attempt < d.attempt := by
  induction inputs generalizing r with
  | nil => exact ⟨nofun, .nil⟩
  | cons input inputs ih =>
    obtain ⟨hlater, hrising⟩ := ih (r.step policy input).1
    rw [retryCalls_cons]
    cases hcall : r.retryCall policy input with
    | none => exact ⟨fun c hc => step_upcoming.trans (hlater c hc), hrising⟩
    | some c =>
      obtain ⟨script, moment, hphase, rfl, hattempt, -⟩ := retryCall_eq_some hcall
      have hstep : (r.step policy (.attempt script moment)).1.upcoming = c.attempt + 1 := by
        rw [RequestRun.step]
        · rw [hattempt]
          exact attemptStep_upcoming
        · exact hphase
      have hfirst : r.upcoming = c.attempt := by rw [RequestRun.upcoming, hphase, hattempt]
      refine ⟨fun d hd => ?_, pairwise_cons.mpr ⟨fun d hd => ?_, hrising⟩⟩
      · rcases mem_cons.mp hd with rfl | hd
        · exact hfirst.le
        · exact step_upcoming.trans (hlater d hd)
      · have := hlater d hd
        omega

def ClockInRange (inputs : List RequestInput) : Prop :=
  ∀ script moment, .attempt script moment ∈ inputs → moment.subsecMillis < 1000

theorem subsecMillis_lt {c : RetryCall} (hclock : ClockInRange inputs) (h : c ∈ retryCalls policy r inputs) :
    c.subsecMillis < 1000 := by
  obtain ⟨st, hst, hcall⟩ := mem_filterMap.mp h
  obtain ⟨script, moment, -, hinput, -, hmillis⟩ := retryCall_eq_some hcall
  rw [hmillis]
  exact hclock script moment (hinput ▸ Machine.input_mem hst)

structure Sound (calls : List RetryCall) : Prop where
  evaluates : ∀ c ∈ calls, c.Evaluates
  rising : (calls.filterMap RetryCall.base).Pairwise (· ≤ ·)

/-- Under every policy and for every run of the attempt loop: where each call of `retry_delay` without a provider's
    delay is in range, every call has a result and the bases do not fall; and up to the 2^32nd attempt a call out of
    range has no result. -/
theorem backoff_in_range (policy : RecoveryPolicy) (request : ExecutionRequest) (inputs : List RequestInput)
    (hclock : ClockInRange inputs) :
    ((∀ c ∈ retryCalls policy (.submitted request) inputs, c.InRange) →
      Sound (retryCalls policy (.submitted request) inputs)) ∧
    ((∀ c ∈ retryCalls policy (.submitted request) inputs, c.attempt ≤ 2 ^ 32) →
      Sound (retryCalls policy (.submitted request) inputs) →
      ∀ c ∈ retryCalls policy (.submitted request) inputs, c.InRange) := by
  obtain ⟨-, hrising⟩ := @retryCalls_rising policy inputs (.submitted request)
  refine ⟨fun hrange => ⟨fun c hc => (hrange c hc).evaluates (subsecMillis_lt hclock hc), ?_⟩, fun hfew hsound c hc => ?_⟩
  · refine pairwise_filterMap.mpr (hrising.imp_of_mem fun {c d} _ hd hlt b hb b' hb' => ?_)
    exact RetryCall.base_mono (hrange d hd) hlt.le hb hb'
  · exact (hsound.evaluates c hc).inRange (subsecMillis_lt hclock hc) (hfew c hc)

theorem retryCalls_append {more : List RequestInput} : retryCalls policy r (inputs ++ more) =
    retryCalls policy r inputs ++ retryCalls policy ((requestMachine policy).run r inputs) more := by
  rw [retryCalls, Machine.trace_append, filterMap_append]
  rfl

namespace Sample

def patient : RecoveryPolicy := { maxAttempts := 100 }

def failing (error : ModelError) : RequestInput := .attempt ⟨[], .closed, .ok (.error error), false⟩ moment

def turnedDown (n : Nat) : List RequestInput :=
  (List.replicate n [failing (.rateLimited (some 0)), .wait true]).flatten

theorem attemptOnce_failing {error : ModelError} (hretry : error.isRetryable = true) (hattempt : r.attempt < 100) :
    r.attemptOnce patient ⟨[], .closed, .ok (.error error), false⟩ = (⟨.error error, {}, []⟩, .retry error) := by
  have hmore : decide (r.attempt < patient.maxAttempts) = true := decide_eq_true hattempt
  have houtcome : runAttempt r.request.requestId ⟨[], .closed, .ok (.error error), false⟩ =
      ⟨.error error, {}, []⟩ := rfl
  have hnot : (error == .cancelled) = false := beq_false_of_ne fun h => by cases h; cases hretry
  rw [RequestRun.attemptOnce, houtcome]
  simp [classifyAttempt, shouldRetry, hretry, hmore, hnot]

theorem turnedDown_round (hphase : r.phase = .attempting) (hattempt : r.attempt < 100) :
    ((requestMachine patient).run r (turnedDown 1)).phase = .attempting ∧
      ((requestMachine patient).run r (turnedDown 1)).attempt = r.attempt + 1 := by
  have hstep : r.step patient (failing (.rateLimited (some 0))) =
      ({ r with log := r.log ++ [.call r.modelRequest], phase := .waiting }, []) := by
    obtain ⟨request, modelRequest, attempt, log, phase⟩ := r
    cases hphase
    show RequestRun.attemptStep patient _ _ moment = _
    rw [RequestRun.attemptStep, @attemptOnce_failing _ (.rateLimited (some 0)) rfl hattempt]
    rfl
  show (RequestRun.step patient (r.step patient (failing (.rateLimited (some 0)))).1 (.wait true)).1.phase = _ ∧
    (RequestRun.step patient (r.step patient (failing (.rateLimited (some 0)))).1 (.wait true)).1.attempt = _
  rw [hstep]
  exact ⟨rfl, rfl⟩

theorem turnedDown_run {n : Nat} (hn : n < 100) :
    ((requestMachine patient).run (.submitted request) (turnedDown n)).phase = .attempting ∧
      ((requestMachine patient).run (.submitted request) (turnedDown n)).attempt = n + 1 := by
  induction n with
  | zero => exact ⟨rfl, rfl⟩
  | succ n ih =>
    obtain ⟨hphase, hattempt⟩ := ih (by omega)
    have hsplit : turnedDown (n + 1) = turnedDown n ++ turnedDown 1 := by
      rw [turnedDown, turnedDown, turnedDown, replicate_succ', flatten_append]
      rfl
    rw [hsplit, Machine.run_append]
    have hround := turnedDown_round hphase (by omega)
    rwa [hattempt] at hround

/-- Turned down 64 times and then left without an answer, the request comes to a shift by 64. -/
theorem turned_down_overflows :
    ¬Sound (retryCalls patient (.submitted request) (turnedDown 64 ++ [failing .timeout])) := by
  intro hsound
  obtain ⟨hphase, hattempt⟩ := @turnedDown_run 64 (by decide)
  have hcall : RequestRun.retryCall patient ((requestMachine patient).run (.submitted request) (turnedDown 64))
      (failing .timeout) = some ⟨65, .timeout, 0⟩ := by
    have hdecision := congrArg (·.2) (@attemptOnce_failing _ .timeout rfl (show _ < 100 by rw [hattempt]; decide))
    rw [failing, retryCall_of_retry hphase hdecision, hattempt]
    rfl
  have hmem : ⟨65, .timeout, 0⟩ ∈ retryCalls patient (.submitted request) (turnedDown 64 ++ [failing .timeout]) := by
    rw [retryCalls_append, retryCalls_cons, hcall]
    exact mem_append_right _ (mem_append_left _ (mem_singleton.mpr rfl))
  have hnone : checkedRetryDelay 65 .timeout 0 = none := by decide
  have hsome := hsound.evaluates _ hmem
  rw [RetryCall.Evaluates, hnone] at hsome
  cases hsome

/-- Two attempts of the default policy, the first without an answer. -/
theorem backoff_in_range_once :
    retryCalls {} (.submitted request) [failing .timeout, .wait true] = [⟨1, .timeout, 0⟩] ∧
      Sound (retryCalls {} (.submitted request) [failing .timeout, .wait true]) := by
  have hcalls : retryCalls {} (.submitted request) [failing .timeout, .wait true] = [⟨1, .timeout, 0⟩] := rfl
  have hclock : ClockInRange [failing .timeout, .wait true] := by
    intro script moment h
    rcases mem_cons.mp h with h | h
    · cases h
      decide
    · cases mem_singleton.mp h
  refine ⟨hcalls, (backoff_in_range {} request _ hclock).1 fun c hc => ?_⟩
  rw [hcalls] at hc
  rw [mem_singleton.mp hc]
  exact fun _ => .inl (by decide)

end Sample

end RustyCore.ModelBackend
