import RustyCore.Store.Restoration
import RustyCore.Theorems.Restore

/-! What the conversions give back of an agent that was stored in a checkpoint, and what no checkpoint holds: its
    queue, its requested profile and its count of timeouts. -/

namespace RustyCore

open List

structure Serde.RoundTrips [Externals] [Serde] (a : Agent) : Prop where
  toolset : Serde.toolset.Reads a.capabilities.tools
  records : ∀ record ∈ a.usage.records, Serde.record.Reads record
  childKeys : ∀ entry ∈ a.usage.childUsage.entries, Serde.parseUuid entry.1.display = .ok entry.1.uuid
  childMetrics : ∀ entry ∈ a.usage.childUsage.entries, Serde.metrics.Reads entry.2.selfUsage ∧
    Serde.metrics.Reads entry.2.descendantUsage ∧ Serde.metrics.Reads entry.2.inclusiveUsage
  /-- The bound is a `u32`. -/
  childDepth : ∀ depth ∈ a.capabilities.maxChildDepth, depth < 2 ^ 32

section

variable [Serde]

theorem capabilitiesFromValue_toValue {c : AgentCapabilities} (htools : Serde.toolset.Reads c.tools)
    (hdepth : ∀ depth ∈ c.maxChildDepth, depth < 2 ^ 32) : capabilitiesFromValue (capabilitiesToValue c) = c := by
  obtain ⟨tools, canSpawn, maxDepth, ⟨canRead, canWrite, canSearch⟩⟩ := c
  rw [Codec.Reads] at htools
  cases maxDepth with
  | none =>
    simp [capabilitiesFromValue, tryCapabilities, capabilitiesToValue, Value.required, Value.get, lookup_cons, Value.isObject,
      Value.asBool, workspaceBool, childDepth, inProjection, htools, bind, Except.bind, pure, Except.pure]
  | some depth =>
    have hlt : depth < 4294967296 := hdepth depth rfl
    simp [capabilitiesFromValue, tryCapabilities, capabilitiesToValue, Value.required, Value.get, lookup_cons, Value.isObject,
      Value.asBool, Value.asU64, Value.ofNat, workspaceBool, childDepth, inProjection, htools, Nat.mod_eq_of_lt hlt, bind,
      Except.bind, pure, Except.pure]

theorem usageSummaryFromValue_toValue {s : AgentUsageSummary} (hself : Serde.metrics.Reads s.selfUsage)
    (hdescendants : Serde.metrics.Reads s.descendantUsage) (hinclusive : Serde.metrics.Reads s.inclusiveUsage) :
    usageSummaryFromValue (summaryToValue s) = .ok s := by
  rw [Codec.Reads] at hself hdescendants hinclusive
  simp [usageSummaryFromValue, summaryToValue, Value.required, Value.get, lookup_cons, Value.isObject, inProjection,
    hself, hdescendants, hinclusive, bind, Except.bind, pure, Except.pure]

theorem recordsFromValue_toValue {records : List UsageRecord} (hrecords : ∀ record ∈ records, Serde.record.Reads record) :
    recordsFromValue (.array (records.map Serde.record.toValue)) = .ok records := by
  show (records.map Serde.record.toValue).mapM Serde.record.fromValue = .ok records
  induction records with
  | nil => rfl
  | cons record rest ih =>
    obtain ⟨hrecord, hrest⟩ := forall_mem_cons.mp hrecords
    rw [Codec.Reads] at hrecord
    rw [map_cons, mapM_cons, hrecord, ih hrest]
    rfl

theorem childUsageFromFields_map (children : List (Sigma fun _ : AgentId => AgentUsageSummary))
    (hnodup : children.NodupKeys) (hkeys : ∀ entry ∈ children, Serde.parseUuid entry.1.display = .ok entry.1.uuid)
    (hread : ∀ entry ∈ children, usageSummaryFromValue (summaryToValue entry.2) = .ok entry.2) (usage : Table.Map AgentId AgentUsageSummary) :
    ∃ usage', childUsageFromFields usage (children.map fun entry => (entry.1.display, summaryToValue entry.2)) =
      .ok usage' ∧ ∀ k, usage'.lookup k = (children.dlookup k).or (usage.lookup k) := by
  induction children generalizing usage with
  | nil => exact ⟨usage, rfl, fun k => rfl⟩
  | cons entry rest ih =>
    obtain ⟨id, summary⟩ := entry
    obtain ⟨hfresh, hrest⟩ := nodupKeys_cons.mp hnodup
    obtain ⟨hkey, hkeys⟩ := forall_mem_cons.mp hkeys
    obtain ⟨hsummary, hread⟩ := forall_mem_cons.mp hread
    obtain ⟨usage', hrest', hlookup⟩ := ih hrest hkeys hread (usage.insert id summary)
    refine ⟨usage', ?_, fun k => ?_⟩
    · simp only [map_cons, childUsageFromFields, hkey, inProjection, hsummary, bind, Except.bind]
      exact hrest'
    · rw [hlookup k]
      by_cases hk : k = id
      · subst hk
        rw [dlookup_eq_none.mpr hfresh, dlookup_cons_eq, Table.lookup_insert_self]
        rfl
      · have hskip : List.dlookup k (⟨id, summary⟩ :: rest) = rest.dlookup k := dlookup_cons_ne rest ⟨id, summary⟩ hk
        rw [hskip, Table.lookup_insert_ne hk]

theorem usageFromValue_toValue {u : UsageLedger} (hrecords : ∀ record ∈ u.records, Serde.record.Reads record)
    (hkeys : ∀ entry ∈ u.childUsage.entries, Serde.parseUuid entry.1.display = .ok entry.1.uuid)
    (hmetrics : ∀ entry ∈ u.childUsage.entries, Serde.metrics.Reads entry.2.selfUsage ∧
      Serde.metrics.Reads entry.2.descendantUsage ∧ Serde.metrics.Reads entry.2.inclusiveUsage) :
    (usageFromValue (usageToValue u)).records = u.records ∧ (usageFromValue (usageToValue u)).toolCalls = u.toolCalls ∧
    (usageFromValue (usageToValue u)).runs = u.runs ∧
    ∀ k, (usageFromValue (usageToValue u)).childUsage.lookup k = u.childUsage.lookup k := by
  have hperm := perm_insertionSort (fun a b : Sigma fun _ : AgentId => AgentUsageSummary =>
    a.1.display ≤ b.1.display) u.childUsage.entries
  have hnodup := (perm_nodupKeys hperm).mpr u.childUsage.nodupKeys
  obtain ⟨usage, hread, hlookup⟩ := childUsageFromFields_map _ hnodup (fun entry h => hkeys entry (hperm.mem_iff.mp h))
    (fun entry h => by
      obtain ⟨hself, hdescendants, hinclusive⟩ := hmetrics entry (hperm.mem_iff.mp h)
      exact usageSummaryFromValue_toValue hself hdescendants hinclusive) ∅
  have hledger : usageFromValue (usageToValue u) = { u with childUsage := usage } := by
    simp [usageFromValue, tryUsage, usageToValue, childUsageToValue, Value.get, lookup_cons, Value.isObject,
      Value.asU64, Value.ofNat, inProjection, recordsFromValue_toValue hrecords, hread, bind, Except.bind, pure, Except.pure]
  rw [hledger]
  refine ⟨rfl, rfl, rfl, fun k => ?_⟩
  show usage.lookup k = u.childUsage.lookup k
  rw [hlookup k, perm_dlookup k hnodup hperm]
  show (u.childUsage.lookup k).or ((∅ : Table.Map AgentId AgentUsageSummary).lookup k) = u.childUsage.lookup k
  rw [AList.lookup_empty, Option.or_none]

end

section

variable [Externals]

theorem fromStored_ok {b : BehaviorState} {library : ProfileRegistry}
    (h : ProfileRegistry.fromLibrary b.library.documents = .ok library) : BehaviorState.fromStored (some b.toStored) =
      .ok { b with library, run := { b.run with enteredFrom := none } } := by
  dsimp only [BehaviorState.fromStored, BehaviorState.toStored]
  rw [compile_profile b.profile]
  dsimp only
  rw [if_neg (fun h => h rfl), h]

end

theorem mapValues_stored (m : Table.Map ToolCallId PendingToolCall) :
    Table.mapValues (fun pending : StoredPendingToolCall => (⟨pending.call, pending.startedAt⟩ : PendingToolCall))
      (Table.mapValues (fun pending => ⟨pending.call, pending.startedAt⟩) m) = m := by
  apply AList.ext
  show List.map _ (List.map _ m.entries) = m.entries
  rw [map_map]
  exact map_id m.entries

section

variable [Externals]

structure SameAgent (a b : Agent) : Prop where
  id : b.id = a.id
  sessionId : b.sessionId = a.sessionId
  parentId : b.parentId = a.parentId
  status : b.state.status = a.state.status
  systemPrompt : b.state.systemPrompt = a.state.systemPrompt
  executionParams : b.state.executionParams = a.state.executionParams
  messages : b.state.messages = a.state.messages
  activeRun : b.state.activeRun = a.state.activeRun
  queuedInputs : b.state.queuedInputs = a.state.queuedInputs
  pendingTools : b.state.pendingTools = a.state.pendingTools
  pendingPermissions : b.state.pendingPermissions = a.state.pendingPermissions
  children : b.state.children = a.state.children
  lastError : b.state.lastError = a.state.lastError
  timeouts : b.state.consecutiveToolTimeouts = a.state.consecutiveToolTimeouts
  transitionSequence : b.state.transitionSequence = a.state.transitionSequence
  depth : b.state.depth = a.state.depth
  pendingProfile : b.state.pendingProfile = a.state.pendingProfile
  profile : b.state.behavior.profile = a.state.behavior.profile
  targets : ∀ target, b.state.behavior.resolveSwitch target = a.state.behavior.resolveSwitch target
  enteredFrom : b.state.behavior.enteredFrom = a.state.behavior.enteredFrom
  commandsTrusted : b.state.behavior.commandsTrusted = a.state.behavior.commandsTrusted
  run : b.state.behavior.run = a.state.behavior.run
  capabilities : b.capabilities = a.capabilities
  records : b.usage.records = a.usage.records
  toolCalls : b.usage.toolCalls = a.usage.toolCalls
  runs : b.usage.runs = a.usage.runs
  childUsage : ∀ k, b.usage.childUsage.lookup k = a.usage.childUsage.lookup k

variable [Serde]

theorem restored_queuedInputs {sessionId : SessionId} {stored : StoredAgent} {b : Agent}
    (h : restoredAgent sessionId stored = .ok b) : b.state.queuedInputs = [] := by
  unfold restoredAgent at h
  split at h
  · cases h
  · cases h
    rfl

end

namespace Sample

/-- Conversions for an agent without tools, records and children. -/
scoped instance serde : Serde where
  toolset := ⟨fun _ => .object [("tools", .object [])], fun _ => .ok ⟨∅⟩⟩
  record := ⟨fun _ => .null, fun _ => .error "invalid type: null"⟩
  metrics := ⟨fun _ => .null, fun _ => .error "invalid type: null"⟩
  parseUuid _ := .error "invalid length"

def bare : Agent := Agent.new ⟨7⟩ ⟨1⟩ none 0 "You are helpful." ⟨⟨∅⟩, false, none, ⟨false, false, false⟩⟩

theorem fresh_bare : bare.Fresh :=
  ⟨⟨7⟩, ⟨1⟩, none, 0, "You are helpful.", _, defaultProfile, .new, false, {}, rfl⟩

def waiting : Agent := Agent.machine.run bare [prompt, prompt]

theorem roundTrips_of_bare {a : Agent} (hcapabilities : a.capabilities = bare.capabilities) (husage : a.usage = {}) :
    Serde.RoundTrips a := by
  obtain ⟨id, sessionId, parentId, state, capabilities, usage⟩ := a
  dsimp only at hcapabilities husage
  subst hcapabilities husage
  constructor
  case toolset => rfl
  case records => exact fun record h => absurd h not_mem_nil
  case childKeys => exact fun entry h => absurd h not_mem_nil
  case childMetrics => exact fun entry h => absurd h not_mem_nil
  case childDepth => exact fun depth h => absurd h (by simp [bare, Agent.new])

end Sample

section

open Sample

/-- The second prompt does not come back. -/
theorem queued_prompt_is_lost : waiting.Reachable ∧ Serde.RoundTrips waiting ∧
    ¬ ∃ b, restoredAgent waiting.sessionId (storedAgent waiting) = .ok b ∧ SameAgent waiting b := by
  refine ⟨(Machine.Reachable.start fresh_bare).run [prompt, prompt], roundTrips_of_bare rfl rfl, ?_⟩
  rintro ⟨b, hb, hsame⟩
  have hqueued := hsame.queuedInputs
  rw [restored_queuedInputs hb] at hqueued
  exact absurd (congrArg List.length hqueued) (by decide)

end

end RustyCore
