import RustyCore.ModelBackend.Request

/-! The circuit breaker under any interleaving of requests: it admits again once every request has ended, it counts
    requests, and it lets one probe through. Each fails where a request leaves the breaker in another way than the
    breaker assumes, and holds in every run without such a step. -/

namespace RustyCore.ModelBackend

open List Machine

inductive Verdict where
  | succeeded
  | cancelled
  | failed (error : ModelError)
deriving DecidableEq

namespace Phase

/-- `execute_attempts` is still at work. -/
def inFlight : Phase → Bool
  | .attempting | .waiting => true
  | _ => false

/-- `execute_request` has returned. -/
def isOver : Phase → Bool
  | .ended _ | .rejected _ => true
  | _ => false

def admitted : Phase → Bool
  | .rejected _ => false
  | _ => true

end Phase

def RequestRun.verdict (policy : RecoveryPolicy) (r : RequestRun) (input : RequestInput) : Option Verdict :=
  match r.phase, input with
  | .attempting, .attempt script moment =>
    match (r.attemptOnce policy script).2 with
    | .completed _ => some .succeeded
    | .cancelled => some .cancelled
    | .failed error => some (.failed error)
    | .retry error =>
      if retryDelay r.attempt error moment.subsecMillis ≥ policy.idleTimeout then some (.failed error) else none
  | .waiting, .wait false => some .cancelled
  | _, _ => none

inductive Stepped (r : RequestRun) : Option Verdict → RequestRun × List CircuitCall → Prop
  | idle : Stepped r none (r, [])
  | continues {r'} (h : r.phase.inFlight) (h' : r'.phase.inFlight) : Stepped r none (r', [])
  | succeeds {r'} (result : ExecutionResult) (h : r.phase.inFlight) (h' : r'.phase = .concluding (.ok result)) :
    Stepped r (some .succeeded) (r', [.recordSuccess])
  | cancels {r'} (h : r.phase.inFlight) (h' : r'.phase = .concluding (.error .cancelled)) :
    Stepped r (some .cancelled) (r', [])
  | fails {r'} (error : ModelError) (h : r.phase.inFlight)
      (h' : r'.phase = .concluding (.error (toExecutionError error))) :
    Stepped r (some (.failed error)) (r', [.recordFailure error])
  | concludes {r'} (result : Except ExecutionError ExecutionResult) (h : r.phase = .concluding result)
      (h' : r'.phase = .ended result) (hresult : result ≠ .error .timeout) : Stepped r none (r', [])
  | timesOut {r'} (h : r.phase = .concluding (.error .timeout)) (h' : r'.phase = .ended (.error .timeout)) :
    Stepped r none (r', [.recordFailure .timeout])

variable {r : RequestRun}

theorem stepped_attempt {policy : RecoveryPolicy} (hphase : r.phase = .attempting)
    (script : AttemptScript) (moment : RetryMoment) :
    Stepped r (r.verdict policy (.attempt script moment)) (r.attemptStep policy script moment) := by
  have hflight : r.phase.inFlight := by rw [hphase]; rfl
  unfold RequestRun.verdict RequestRun.attemptStep
  rw [hphase]
  dsimp only
  cases hdecision : (r.attemptOnce policy script).2 with
  | completed result => exact .succeeds _ hflight rfl
  | cancelled => exact .cancels hflight rfl
  | failed error => exact .fails error hflight rfl
  | retry error =>
    unfold prepareRetry
    dsimp only
    by_cases hdelay : retryDelay r.attempt error moment.subsecMillis ≥ policy.idleTimeout
    · rw [if_pos hdelay, if_pos hdelay]
      exact .fails error hflight rfl
    · rw [if_neg hdelay, if_neg hdelay]
      split
      · rename_i heq
        split at heq
        all_goals exact .continues hflight rfl
      · rename_i heq
        split at heq
        all_goals cases heq

theorem stepped_conclude {policy : RecoveryPolicy} {result : Except ExecutionError ExecutionResult}
    (hphase : r.phase = .concluding result) :
    Stepped r (r.verdict policy .conclude) (r.concludeStep result) := by
  have hverdict : r.verdict policy .conclude = none := by
    unfold RequestRun.verdict
    rw [hphase]
  rw [hverdict]
  unfold RequestRun.concludeStep
  dsimp only
  split
  · exact .timesOut hphase rfl
  · rename_i hresult
    exact .concludes result hphase rfl hresult

theorem stepped (policy : RecoveryPolicy) (r : RequestRun) (input : RequestInput) :
    Stepped r (r.verdict policy input) (r.step policy input) := by
  cases hphase : r.phase with
  | attempting =>
    cases input with
    | attempt script moment =>
      have hstep : r.step policy (.attempt script moment) = r.attemptStep policy script moment := by
        simp only [RequestRun.step, hphase]
      rw [hstep]
      exact stepped_attempt hphase script moment
    | _ => simpa only [RequestRun.step, RequestRun.verdict, hphase] using Stepped.idle
  | waiting =>
    cases input with
    | wait elapsed =>
      have hflight : r.phase.inFlight := by rw [hphase]; rfl
      simp only [RequestRun.step, RequestRun.verdict, hphase]
      cases elapsed with
      | true => exact .continues hflight rfl
      | false => exact .cancels hflight rfl
    | _ => simpa only [RequestRun.step, RequestRun.verdict, hphase] using Stepped.idle
  | concluding result =>
    cases input with
    | conclude =>
      have hstep : r.step policy .conclude = r.concludeStep result := by simp only [RequestRun.step, hphase]
      rw [hstep]
      exact stepped_conclude hphase
    | _ => simpa only [RequestRun.step, RequestRun.verdict, hphase] using Stepped.idle
  | ended _ => simpa only [RequestRun.step, RequestRun.verdict, hphase] using Stepped.idle
  | rejected _ => simpa only [RequestRun.step, RequestRun.verdict, hphase] using Stepped.idle

theorem Stepped.inFlight {verdict : Option Verdict} {next : RequestRun × List CircuitCall}
    (h : Stepped r verdict next) (hflight : next.1.phase.inFlight) : r.phase.inFlight ∧ verdict = none := by
  cases h with
  | idle => exact ⟨hflight, rfl⟩
  | continues hr _ => exact ⟨hr, rfl⟩
  | succeeds _ _ h' | cancels _ h' | fails _ _ h' | concludes _ _ h' _ | timesOut _ h' =>
    rw [h'] at hflight
    cases hflight

theorem Stepped.admitted {r : RequestRun} {verdict : Option Verdict} {next : RequestRun × List CircuitCall}
    (h : Stepped r verdict next) : next.1.phase.admitted = r.phase.admitted := by
  have hflight {p : Phase} (hp : p.inFlight) : p.admitted := by cases p <;> first | rfl | cases hp
  cases h with
  | idle => rfl
  | continues hr hr' => rw [hflight hr, hflight hr']
  | succeeds _ hr h' | cancels hr h' | fails _ hr h' =>
    rw [hflight hr, h']
    rfl
  | concludes _ hr h' _ | timesOut hr h' =>
    rw [hr, h']
    rfl

variable {config : BackendConfig}

inductive Moved (config : BackendConfig) (b : Backend) : BackendInput → Backend → Prop
  | elapses (span : Nat) : Moved config b (.elapse span) { b with now := b.now + span }
  | rejects {request r error} (h : r.phase = .rejected error) :
    Moved config b (.submit request) { b with requests := b.requests ++ [r] }
  | admits {request circuit} (hpass : config.checkCapabilities request = none)
      (h : b.circuit.allowRequest config.recovery b.now = .ok circuit) :
    Moved config b (.submit request) { b with circuit := circuit, requests := b.requests ++ [.submitted request] }
  | missing {index input} (h : b.requests[index]? = none) : Moved config b (.proceed index input) b
  | proceeds {index input r r' calls} (h : b.requests[index]? = some r)
      (hstep : Stepped r (r.verdict config.recovery input) (r', calls)) :
    Moved config b (.proceed index input)
      { b with
        circuit := calls.foldl (Backend.perform config.recovery b.now) b.circuit
        requests := b.requests.set index r' }

theorem moved (config : BackendConfig) (b : Backend) (input : BackendInput) : Moved config b input (b.step config input) := by
  cases input with
  | elapse span => exact .elapses span
  | submit request =>
    unfold Backend.step Backend.submit
    dsimp only
    split
    · exact .rejects rfl
    · rename_i hpass
      split
      · exact .rejects rfl
      · rename_i circuit hallow
        exact .admits hpass hallow
  | proceed index input =>
    unfold Backend.step
    dsimp only
    split
    · rename_i hmissing
      exact .missing hmissing
    · rename_i r hr
      exact .proceeds hr (stepped config.recovery r input)

def LastAdmitted (requests : List RequestRun) (index : Nat) : Prop :=
  (∃ r, requests[index]? = some r ∧ r.phase.admitted) ∧
    ∀ later r, index < later → requests[later]? = some r → r.phase.admitted = false

variable {requests : List RequestRun}

theorem lastAdmitted_rejects {index : Nat} {error : ExecutionError}
    (h : r.phase = .rejected error) (hlast : LastAdmitted requests index) : LastAdmitted (requests ++ [r]) index := by
  obtain ⟨⟨holder, hholder, hadmitted⟩, hlater⟩ := hlast
  have hlt : index < requests.length := (List.getElem?_eq_some_iff.mp hholder).1
  refine ⟨⟨holder, by rw [List.getElem?_append_left hlt]; exact hholder, hadmitted⟩, fun later r' hlt' hr' => ?_⟩
  rcases Nat.lt_or_ge later requests.length with hin | hout
  · exact hlater later r' hlt' (by rwa [List.getElem?_append_left hin] at hr')
  · rw [List.getElem?_append_right hout] at hr'
    obtain rfl := mem_singleton.mp (mem_of_getElem? hr')
    rw [h]
    rfl

theorem lastAdmitted_admits (h : r.phase.admitted) :
    LastAdmitted (requests ++ [r]) requests.length := by
  refine ⟨⟨r, by simp, h⟩, fun later r' hlt hr' => ?_⟩
  rw [List.getElem?_eq_none (by simp; omega)] at hr'
  cases hr'

theorem lastAdmitted_proceeds {index holder : Nat} {r r' : RequestRun}
    (hr : requests[index]? = some r) (hsame : r'.phase.admitted = r.phase.admitted) (hlast : LastAdmitted requests holder) :
    LastAdmitted (requests.set index r') holder := by
  have hlt : index < requests.length := (List.getElem?_eq_some_iff.mp hr).1
  obtain ⟨⟨held, hheld, hadmitted⟩, hlater⟩ := hlast
  constructor
  · by_cases heq : index = holder
    · subst heq
      obtain rfl := Option.some.inj (hr.symm.trans hheld)
      exact ⟨r', by rw [List.getElem?_set_self hlt], by rw [hsame, hadmitted]⟩
    · exact ⟨held, by rw [List.getElem?_set_ne heq]; exact hheld, hadmitted⟩
  · intro later x hafter hx
    by_cases heq : index = later
    · subst heq
      rw [List.getElem?_set_self hlt] at hx
      obtain rfl := Option.some.inj hx
      rw [hsame]
      exact hlater index r hafter hr
    · exact hlater later x hafter (by rwa [List.getElem?_set_ne heq] at hx)

theorem LastAdmitted.unique {i j : Nat} (hi : LastAdmitted requests i)
    (hj : LastAdmitted requests j) : i = j := by
  obtain ⟨⟨ri, hri, hai⟩, hlateri⟩ := hi
  obtain ⟨⟨rj, hrj, haj⟩, hlaterj⟩ := hj
  rcases Nat.lt_trichotomy i j with hlt | heq | hgt
  · rw [hlateri j rj hlt hrj] at haj
    cases haj
  · exact heq
  · rw [hlaterj i ri hgt hri] at hai
    cases hai

def Unstuck (config : BackendConfig) (b : Backend) : Prop :=
  (∀ r ∈ b.requests, r.phase.isOver) → (∀ openUntil, b.circuit.openUntil = some openUntil → openUntil ≤ b.now) →
    ∃ circuit, b.circuit.allowRequest config.recovery b.now = .ok circuit

def CancelsProbe (config : BackendConfig) (st : Machine.Step Backend BackendInput Empty) : Prop :=
  ∃ index input r, st.input = .proceed index input ∧ st.pre.requests[index]? = some r ∧
    r.verdict config.recovery input = some .cancelled ∧ st.pre.circuit.halfOpenProbeInFlight = true ∧
    LastAdmitted st.pre.requests index

structure SlotHeld (b : Backend) : Prop where
  opened : b.circuit.halfOpenProbeInFlight = true → b.circuit.openUntil.isSome
  held : b.circuit.halfOpenProbeInFlight = true →
    ∃ index r, b.requests[index]? = some r ∧ r.phase.inFlight ∧ LastAdmitted b.requests index

variable {b : Backend}

theorem slotHeld_free (h : b.circuit.halfOpenProbeInFlight = false) : SlotHeld b := by
  constructor <;> simp [h]

theorem SlotHeld.quiet {index : Nat} {r r' : RequestRun} (h : SlotHeld b) (hr : b.requests[index]? = some r)
    (hsame : r'.phase.admitted = r.phase.admitted)
    (hflight : b.circuit.halfOpenProbeInFlight = true → LastAdmitted b.requests index → r.phase.inFlight →
      r'.phase.inFlight) :
    SlotHeld { b with requests := b.requests.set index r' } := by
  refine ⟨h.opened, fun hflag => ?_⟩
  have hlt : index < b.requests.length := (List.getElem?_eq_some_iff.mp hr).1
  obtain ⟨holder, held, hheld, hin, hlast⟩ := h.held hflag
  have hlast' := lastAdmitted_proceeds hr hsame hlast
  by_cases heq : index = holder
  · subst heq
    obtain rfl := Option.some.inj (hr.symm.trans hheld)
    exact ⟨index, r', List.getElem?_set_self hlt, hflight hflag hlast hin, hlast'⟩
  · exact ⟨holder, held, by rw [List.getElem?_set_ne heq]; exact hheld, hin, hlast'⟩

theorem SlotHeld.step {b : Backend} {input : BackendInput} (h : SlotHeld b)
    (hkeep : ¬ CancelsProbe config ((backendMachine config).stepAt b input)) : SlotHeld (b.step config input) := by
  have hmoved := moved config b input
  revert hmoved
  generalize b.step config input = b'
  intro hmoved
  cases hmoved with
  | elapses span => exact ⟨h.opened, h.held⟩
  | missing _ => exact h
  | rejects hrejected =>
    refine ⟨h.opened, fun hflag => ?_⟩
    obtain ⟨holder, held, hheld, hin, hlast⟩ := h.held hflag
    have hlt : holder < b.requests.length := (List.getElem?_eq_some_iff.mp hheld).1
    exact ⟨holder, held, by rw [List.getElem?_append_left hlt]; exact hheld, hin, lastAdmitted_rejects hrejected hlast⟩
  | admits _ hallow =>
    rcases CircuitState.allowRequest_ok hallow with ⟨hclosed, rfl⟩ | ⟨openUntil, hopen, -, -, rfl⟩
    · refine slotHeld_free ?_
      rw [← Bool.not_eq_true]
      intro hflag
      have := h.opened hflag
      rw [hclosed] at this
      cases this
    · exact ⟨fun _ => by simp [hopen], fun _ => ⟨b.requests.length, _, List.getElem?_concat_length, rfl, lastAdmitted_admits rfl⟩⟩
  | @proceeds index input r r' calls hr hstep =>
    have hsame : r'.phase.admitted = r.phase.admitted := hstep.admitted
    generalize hverdict : r.verdict config.recovery input = verdict at hstep
    cases hstep with
    | idle => exact h.quiet hr hsame fun _ _ hin => hin
    | continues _ h' => exact h.quiet hr hsame fun _ _ _ => h'
    | cancels _ _ =>
      exact h.quiet hr hsame fun hflag hlast _ => absurd ⟨index, input, r, rfl, hr, hverdict, hflag, hlast⟩ hkeep
    | concludes result hphase _ _ =>
      refine h.quiet hr hsame fun _ _ hin => ?_
      rw [hphase] at hin
      cases hin
    | succeeds _ _ _ => exact slotHeld_free rfl
    | fails error _ _ => exact slotHeld_free CircuitState.recordFailure_probe
    | timesOut _ _ =>
      have hfree : (b.circuit.recordFailure config.recovery b.now .timeout).halfOpenProbeInFlight = false :=
        CircuitState.recordFailure_probe
      exact slotHeld_free hfree

theorem SlotHeld.released (h : SlotHeld b) (hover : ∀ r ∈ b.requests, r.phase.isOver) :
    b.circuit.halfOpenProbeInFlight = false := by
  rw [← Bool.not_eq_true]
  intro hflag
  obtain ⟨index, r, hr, hin, -⟩ := h.held hflag
  have hended := hover r (mem_of_getElem? hr)
  cases hphase : r.phase <;> simp_all [Phase.inFlight, Phase.isOver]

/-- In a run that never cancels the holder of the probe slot, every request that has ended has released the slot,
    and the breaker never sticks. -/
theorem circuit_never_sticks (config : BackendConfig) (inputs : List BackendInput)
    (h : ∀ st ∈ (backendMachine config).trace {} inputs, ¬ CancelsProbe config st) :
    (backendMachine config).Always
      (fun b => Unstuck config b ∧ ((∀ r ∈ b.requests, r.phase.isOver) → b.circuit.halfOpenProbeInFlight = false))
      {} inputs := by
  refine always_rule (I := SlotHeld) (fun b input hheld hkeep => hheld.step hkeep) (fun b hheld => ?_)
    (slotHeld_free rfl) h
  exact ⟨fun hover hdue => CircuitState.allowRequest_of_free (hheld.released hover) hdue, hheld.released⟩

def endVerdict (config : BackendConfig) (st : Machine.Step Backend BackendInput Empty) : Option Verdict :=
  match st.input with
  | .proceed index input => st.pre.requests[index]?.bind fun r => r.verdict config.recovery input
  | _ => none

def countEnd (config : BackendConfig) (failures : Nat) (st : Machine.Step Backend BackendInput Empty) : Nat :=
  match endVerdict config st with
  | some .succeeded => 0
  | some (.failed error) => if error.isRetryable then failures + 1 else failures
  | _ => failures

def CountsRequests (config : BackendConfig) (inputs : List BackendInput) : Prop :=
  ((backendMachine config).run {} inputs).circuit.consecutiveFailures =
    ((backendMachine config).trace {} inputs).foldl (countEnd config) 0

/-- From any point where the circuit is open until a success, at most one of the requests that came since is in
    flight. -/
def SingleProbe (config : BackendConfig) (inputs : List BackendInput) : Prop :=
  ∀ before after, inputs = before ++ after →
    ((backendMachine config).run {} before).circuit.openUntil.isSome →
    (∀ st ∈ (backendMachine config).trace ((backendMachine config).run {} before) after,
      endVerdict config st ≠ some .succeeded) →
    ∀ i j r r', ((backendMachine config).run {} before).requests.length ≤ i →
      ((backendMachine config).run {} before).requests.length ≤ j →
      ((backendMachine config).run {} inputs).requests[i]? = some r → r.phase.inFlight →
      ((backendMachine config).run {} inputs).requests[j]? = some r' → r'.phase.inFlight → i = j

def Miscounts (config : BackendConfig) (st : Machine.Step Backend BackendInput Empty) : Prop :=
  ∃ error, endVerdict config st = some (.failed error) ∧
    (error = .timeout ∨ error.isRetryable ∧ st.pre.circuit.consecutiveFailures + 1 = 2 ^ 32)

def ClearsProbe (config : BackendConfig) (st : Machine.Step Backend BackendInput Empty) : Prop :=
  ∃ index input error, st.input = .proceed index input ∧ endVerdict config st = some (.failed error) ∧
    st.pre.circuit.halfOpenProbeInFlight = true ∧ ¬ LastAdmitted st.pre.requests index

def NoTimeout (b : Backend) : Prop := ∀ r ∈ b.requests, r.phase ≠ .concluding (.error .timeout)

theorem endVerdict_proceed (config : BackendConfig) (input : RequestInput) {index : Nat}
    (hr : b.requests[index]? = some r) :
    endVerdict config ((backendMachine config).stepAt b (.proceed index input)) = r.verdict config.recovery input := by
  show (b.requests[index]?.bind fun r => r.verdict config.recovery input) = _
  rw [hr]
  rfl

theorem NoTimeout.append (h : NoTimeout b) (hr : r.phase ≠ .concluding (.error .timeout)) :
    ∀ x ∈ b.requests ++ [r], x.phase ≠ .concluding (.error .timeout) := by
  intro x hx
  rcases mem_append.mp hx with hx | hx
  · exact h x hx
  · rw [mem_singleton.mp hx]
    exact hr

theorem NoTimeout.set {index : Nat} (h : NoTimeout b)
    (hr : r.phase ≠ .concluding (.error .timeout)) :
    ∀ x ∈ b.requests.set index r, x.phase ≠ .concluding (.error .timeout) := by
  intro x hx
  rcases mem_or_eq_of_mem_set hx with hx | rfl
  · exact h x hx
  · exact hr

theorem NoTimeout.step {b : Backend} {input : BackendInput} (h : NoTimeout b)
    (hcount : ¬ Miscounts config ((backendMachine config).stepAt b input)) : NoTimeout (b.step config input) := by
  have hmoved := moved config b input
  revert hmoved
  generalize b.step config input = b'
  intro hmoved
  cases hmoved with
  | elapses | missing => exact h
  | rejects hrejected => exact h.append (by rw [hrejected]; simp)
  | admits _ _ => exact h.append (by simp [RequestRun.submitted])
  | @proceeds index input r r' calls hr hstep =>
    refine h.set ?_
    have hold := h r (mem_of_getElem? hr)
    generalize hverdict : r.verdict config.recovery input = verdict at hstep
    cases hstep with
    | idle => exact hold
    | continues _ h' =>
      intro heq
      rw [heq] at h'
      cases h'
    | succeeds _ _ h' | cancels _ h' | concludes _ _ h' _ | timesOut _ h' => simp [h']
    | fails error _ h' =>
      rw [h']
      intro heq
      have htimeout := toExecutionError_eq_timeout (Except.error.inj (Phase.concluding.inj heq))
      exact hcount ⟨error, (endVerdict_proceed config input hr).trans hverdict, .inl htimeout⟩

/-- The breaker's counter, a `u32`, is at `failures`. -/
structure Counted (failures : Nat) (b : Backend) : Prop where
  noTimeout : NoTimeout b
  count : b.circuit.consecutiveFailures = failures
  room : failures < 2 ^ 32

theorem Counted.of_circuit {failures : Nat} {b b' : Backend} (h : Counted failures b) (hnone : NoTimeout b')
    (hsame : b'.circuit.consecutiveFailures = b.circuit.consecutiveFailures) : Counted failures b' :=
  ⟨hnone, hsame.trans h.count, h.room⟩

theorem Counted.step {failures : Nat} {b : Backend} {input : BackendInput} (h : Counted failures b)
    (hcount : ¬ Miscounts config ((backendMachine config).stepAt b input)) :
    Counted (countEnd config failures ((backendMachine config).stepAt b input)) (b.step config input) := by
  have hnone := h.noTimeout.step hcount
  have hmoved := moved config b input
  revert hmoved hnone
  generalize b.step config input = b'
  intro hnone hmoved
  cases hmoved with
  | elapses | rejects => exact h.of_circuit hnone rfl
  | admits _ hallow =>
    rcases CircuitState.allowRequest_ok hallow with ⟨-, rfl⟩ | ⟨_, -, -, -, rfl⟩
    · exact h.of_circuit hnone rfl
    · exact h.of_circuit hnone rfl
  | @missing index input hmissing =>
    have hend : endVerdict config ((backendMachine config).stepAt b (.proceed index input)) = none := by
      show (b.requests[index]?.bind fun r => r.verdict config.recovery input) = none
      rw [hmissing]
      rfl
    rw [countEnd, hend]
    exact h
  | @proceeds index input r r' calls hr hstep =>
    have hend := endVerdict_proceed config input hr
    generalize hverdict : r.verdict config.recovery input = verdict at hstep hend
    rw [countEnd, hend]
    cases hstep with
    | idle | continues _ _ | cancels _ _ | concludes _ _ _ _ => exact h.of_circuit hnone rfl
    | succeeds _ _ _ => exact ⟨hnone, rfl, by simp⟩
    | timesOut hphase _ => exact absurd hphase (h.noTimeout r (mem_of_getElem? hr))
    | fails error _ _ =>
      have hfailures : (b.circuit.recordFailure config.recovery b.now error).consecutiveFailures = _ :=
        CircuitState.recordFailure_failures
      rw [h.count] at hfailures
      show Counted (if error.isRetryable then failures + 1 else failures) _
      cases hretry : error.isRetryable with
      | false =>
        rw [hretry] at hfailures
        exact ⟨hnone, hfailures, h.room⟩
      | true =>
        have hroom : failures + 1 ≠ 2 ^ 32 := fun hfull =>
          hcount ⟨error, hend.trans rfl, .inr ⟨hretry, by rw [← hfull, ← h.count]; rfl⟩⟩
        have hnext : failures + 1 < 2 ^ 32 := by have := h.room; omega
        rw [hretry, if_pos rfl, Nat.mod_eq_of_lt hnext] at hfailures
        exact ⟨hnone, hfailures, hnext⟩

/-- Of the requests from number `base` on, only the holder of the probe slot is in flight. -/
structure OneProbe (base : Nat) (b : Backend) : Prop where
  noTimeout : NoTimeout b
  opened : b.circuit.openUntil.isSome
  probe : ∀ index r, base ≤ index → b.requests[index]? = some r → r.phase.inFlight →
    b.circuit.halfOpenProbeInFlight = true ∧ LastAdmitted b.requests index

theorem OneProbe.before {base index : Nat} {r r' : RequestRun} {verdict : Option Verdict}
    {calls : List CircuitCall} (h : OneProbe base b) (hr : b.requests[index]? = some r)
    (hstep : Stepped r verdict (r', calls)) {i : Nat} {x : RequestRun} (hi : base ≤ i)
    (hx : (b.requests.set index r')[i]? = some x) (hin : x.phase.inFlight) :
    (i = index → verdict = none) ∧ b.circuit.halfOpenProbeInFlight = true ∧ LastAdmitted b.requests i := by
  have hlt : index < b.requests.length := (List.getElem?_eq_some_iff.mp hr).1
  by_cases heq : index = i
  · subst heq
    rw [List.getElem?_set_self hlt] at hx
    obtain rfl := Option.some.inj hx
    obtain ⟨hold, hverdict⟩ := hstep.inFlight hin
    exact ⟨fun _ => hverdict, h.probe index r hi hr hold⟩
  · rw [List.getElem?_set_ne heq] at hx
    exact ⟨fun h => absurd h.symm heq, h.probe i x hi hx hin⟩

theorem OneProbe.step {base : Nat} {b : Backend} {input : BackendInput} (h : OneProbe base b)
    (hcount : ¬ Miscounts config ((backendMachine config).stepAt b input))
    (hclear : ¬ ClearsProbe config ((backendMachine config).stepAt b input))
    (hfail : endVerdict config ((backendMachine config).stepAt b input) ≠ some .succeeded) :
    OneProbe base (b.step config input) := by
  have hnone := h.noTimeout.step hcount
  have hmoved := moved config b input
  revert hmoved hnone
  generalize b.step config input = b'
  intro hnone hmoved
  cases hmoved with
  | elapses span => exact ⟨hnone, h.opened, h.probe⟩
  | missing _ => exact h
  | @rejects _ rejected _ hrejected =>
    refine ⟨hnone, h.opened, fun index r hindex hr hin => ?_⟩
    rcases Nat.lt_or_ge index b.requests.length with hlt | hge
    · rw [List.getElem?_append_left hlt] at hr
      obtain ⟨hflag, hlast⟩ := h.probe index r hindex hr hin
      exact ⟨hflag, lastAdmitted_rejects hrejected hlast⟩
    · rw [List.getElem?_append_right hge] at hr
      obtain rfl := mem_singleton.mp (mem_of_getElem? hr)
      rw [hrejected] at hin
      cases hin
  | admits _ hallow =>
    rcases CircuitState.allowRequest_ok hallow with ⟨hclosed, rfl⟩ | ⟨openUntil, hopen, -, hfree, rfl⟩
    · have hopened := h.opened
      rw [hclosed] at hopened
      cases hopened
    · refine ⟨hnone, by simp [hopen], fun index r hindex hr hin => ⟨rfl, ?_⟩⟩
      rcases Nat.lt_or_ge index b.requests.length with hlt | hge
      · rw [List.getElem?_append_left hlt] at hr
        obtain ⟨hflag, -⟩ := h.probe index r hindex hr hin
        rw [hfree] at hflag
        cases hflag
      · have hlt := (List.getElem?_eq_some_iff.mp hr).1
        rw [length_append, length_singleton] at hlt
        obtain rfl : index = b.requests.length := by omega
        exact lastAdmitted_admits rfl
  | @proceeds index input r r' calls hr hstep =>
    have hend := endVerdict_proceed config input hr
    have hquiet : ∀ i x, base ≤ i → (b.requests.set index r')[i]? = some x → x.phase.inFlight →
        b.circuit.halfOpenProbeInFlight = true ∧ LastAdmitted (b.requests.set index r') i := by
      intro i x hi hx hin
      obtain ⟨-, hflag, hlast⟩ := h.before hr hstep hi hx hin
      exact ⟨hflag, lastAdmitted_proceeds hr hstep.admitted hlast⟩
    generalize hverdict : r.verdict config.recovery input = verdict at hstep hend
    cases hstep with
    | idle | continues _ _ | cancels _ _ | concludes _ _ _ _ => exact ⟨hnone, h.opened, hquiet⟩
    | succeeds _ _ _ => exact absurd hend hfail
    | timesOut hphase _ => exact absurd hphase (h.noTimeout r (mem_of_getElem? hr))
    | fails error hflight hphase =>
      refine ⟨hnone, CircuitState.recordFailure_open h.opened, fun i x hi hx hin => ?_⟩
      obtain ⟨hself, hflag, hlast⟩ := h.before hr (.fails error hflight hphase) hi hx hin
      by_cases heq : i = index
      · cases hself heq
      · refine absurd ⟨index, input, error, rfl, hend, hflag, fun hlast' => heq (hlast.unique hlast')⟩ hclear

/-- In a run that miscounts no failure and in which no request fails while another one holds the probe slot, the
    breaker counts requests and lets one probe through. -/
theorem circuit_counts_and_probes (config : BackendConfig) (inputs : List BackendInput)
    (h : ∀ st ∈ (backendMachine config).trace {} inputs, ¬ Miscounts config st ∧ ¬ ClearsProbe config st) :
    CountsRequests config inputs ∧ SingleProbe config inputs := by
  have hcounted : Counted 0 {} := ⟨fun r hr => absurd hr not_mem_nil, rfl, by simp⟩
  constructor
  · exact (fold_rule (I := Counted) (fun failures b input hold hcount => hold.step hcount) hcounted
      fun st hst => (h st hst).1).count
  · rintro before after rfl hopened hopen i j r r' hi hj hr hin hr' hin'
    rw [trace_append] at h
    rw [run_append] at hr hr'
    have hfirst : Counted _ ((backendMachine config).run {} before) :=
      fold_rule (I := Counted) (fun failures b input hold hcount => hold.step hcount) hcounted
        fun st hst => (h st (mem_append_left _ hst)).1
    have hstart : OneProbe ((backendMachine config).run {} before).requests.length
        ((backendMachine config).run {} before) := by
      refine ⟨hfirst.noTimeout, hopened, fun index x hindex hx _ => ?_⟩
      rw [List.getElem?_eq_none hindex] at hx
      cases hx
    have hafter : ∀ st ∈ (backendMachine config).trace ((backendMachine config).run {} before) after,
        (¬ Miscounts config st ∧ ¬ ClearsProbe config st) ∧ endVerdict config st ≠ some .succeeded :=
      fun st hst => ⟨h st (mem_append_right _ hst), hopen st hst⟩
    have hend : OneProbe ((backendMachine config).run {} before).requests.length _ :=
      run_rule (fun b input hold hcond => hold.step hcond.1.1 hcond.1.2 hcond.2) hstart hafter
    exact (hend.probe i r hi hr hin).2.unique (hend.probe j r' hj hr' hin').2

namespace Sample

/-- A backend that tries each request once and opens its circuit after `threshold` failures. -/
def breaker (threshold : Nat) : BackendConfig where
  name := "generic-model-backend"
  capabilities := ⟨true, true, true, true⟩
  recovery := { maxAttempts := 1, circuitFailureThreshold := threshold }

def request : ExecutionRequest where
  requestId := ⟨1⟩
  runId := ⟨2⟩
  systemPrompt := ""
  messages := []
  tools := []
  extendedThinking := false
  params := {}

def moment : RetryMoment := ⟨0, (⟨3⟩, ⟨4⟩), (⟨0, 0⟩, ⟨0, 0⟩)⟩

/-- Request `index` makes an attempt that streams nothing and ends so. -/
def attempt (index : Nat) (cut : StreamCut) (result : Except ModelError ModelResult) : BackendInput :=
  .proceed index (.attempt ⟨[], cut, .ok result, false⟩ moment)

def interrupted : Except ModelError ModelResult := .error (.streamInterrupted "")

def opened : List BackendInput :=
  [.submit request, attempt 0 .closed interrupted, .proceed 0 .conclude, .elapse (fromSecs 30), .submit request]

def cancelledProbe : List BackendInput := opened ++ [attempt 1 .cancelled interrupted, .proceed 1 .conclude]

def failedProbe : List BackendInput := opened ++ [attempt 1 .closed interrupted, .proceed 1 .conclude]

def completed : Except ModelError ModelResult := .ok ⟨"end_turn", {}, {}⟩

def answeredProbe : List BackendInput := opened ++ [attempt 1 .closed completed, .proceed 1 .conclude]

def timedOut : List BackendInput := [.submit request, attempt 0 .timedOut completed, .proceed 0 .conclude]

def openedEarly : List BackendInput := [.submit request, .submit request, attempt 0 .closed interrupted]

def staleFailure : List BackendInput :=
  [.elapse (fromSecs 30), .submit request, attempt 1 .closed interrupted, .elapse (fromSecs 30), .submit request]

def harmless (config : BackendConfig) (st : Machine.Step Backend BackendInput Empty) : Bool :=
  match endVerdict config st with
  | some (.failed error) =>
    error != .timeout && !st.pre.circuit.halfOpenProbeInFlight && st.pre.circuit.consecutiveFailures < 3
  | _ => true

end Sample

section

open ModelBackend.Sample

theorem circuit_sticks_on_cancelled_probe :
    ¬ (backendMachine (breaker 1)).Always (Unstuck (breaker 1)) {} cancelledProbe := by
  intro h
  have hstate : ((backendMachine (breaker 1)).run {} cancelledProbe).circuit = ⟨1, some (fromSecs 30), true⟩ := rfl
  have hnow : ((backendMachine (breaker 1)).run {} cancelledProbe).now = fromSecs 30 := rfl
  have hover : ((backendMachine (breaker 1)).run {} cancelledProbe).requests.all (·.phase.isOver) = true := rfl
  obtain ⟨circuit, hallow⟩ := h cancelledProbe [] rfl (all_eq_true.mp hover) (by
    rw [hstate, hnow]
    rintro _ ⟨⟩
    exact Nat.le_refl _)
  rw [hstate, hnow] at hallow
  cases hallow

theorem circuit_never_sticks_failed_probe :
    (backendMachine (breaker 1)).Always
      (fun b => Unstuck (breaker 1) b ∧ ((∀ r ∈ b.requests, r.phase.isOver) → b.circuit.halfOpenProbeInFlight = false))
      {} failedProbe := by
  refine circuit_never_sticks (breaker 1) failedProbe fun st hst => ?_
  have hnone : ((backendMachine (breaker 1)).trace {} failedProbe).all
      (fun st => endVerdict (breaker 1) st != some .cancelled) = true := rfl
  rintro ⟨index, input, r, hinput, hr, hverdict, -⟩
  have hst' := all_eq_true.mp hnone st hst
  simp [endVerdict, hinput, hr, hverdict] at hst'

theorem circuit_double_counts_and_admits_twice :
    ¬ CountsRequests (breaker 3) timedOut ∧ ¬ SingleProbe (breaker 1) (openedEarly ++ staleFailure) := by
  constructor
  · intro h
    have hcount : ((backendMachine (breaker 3)).run {} timedOut).circuit.consecutiveFailures = 2 := rfl
    have hended : ((backendMachine (breaker 3)).trace {} timedOut).foldl (countEnd (breaker 3)) 0 = 1 := rfl
    rw [CountsRequests, hcount, hended] at h
    cases h
  · intro h
    have hfailed : ((backendMachine (breaker 1)).trace ((backendMachine (breaker 1)).run {} openedEarly) staleFailure).all
        (fun st => endVerdict (breaker 1) st != some .succeeded) = true := rfl
    have hboth := h openedEarly staleFailure rfl rfl
      (fun st hst => by simpa using all_eq_true.mp hfailed st hst) 2 3 _ _ (Nat.le_refl 2) (Nat.le_succ 2)
      rfl rfl rfl rfl
    cases hboth

theorem circuit_counts_and_probes_answered :
    CountsRequests (breaker 1) answeredProbe ∧ SingleProbe (breaker 1) answeredProbe := by
  refine circuit_counts_and_probes (breaker 1) answeredProbe fun st hst => ?_
  have hall : ((backendMachine (breaker 1)).trace {} answeredProbe).all (harmless (breaker 1)) = true := rfl
  have hst' := all_eq_true.mp hall st hst
  constructor
  · rintro ⟨error, hend, hbad⟩
    simp only [harmless, hend, Bool.and_eq_true, bne_iff_ne, decide_eq_true_eq] at hst'
    rcases hbad with htimeout | ⟨-, hfull⟩
    · exact hst'.1.1 htimeout
    · omega
  · rintro ⟨index, input, error, -, hend, hflag, -⟩
    simp [harmless, hend, hflag] at hst'

end

end RustyCore.ModelBackend
