import Mathlib.Data.List.Find
import RustyCore.Theorems.Relabel
import RustyCore.Theorems.Snapshot
import RustyCore.Theorems.SwitchTargets

/-! A behavior that is stored comes back. The libraries that agents hold are the registry of the built-in profiles
    and those that a bundle's documents were loaded into; the documents of such a library, loaded again in the order
    of their keys, give its entries. Only the leave to switch to a draft may be new, and a library without drafts never
    asks for it. -/

namespace RustyCore

open List

section

variable [Externals]

namespace ProfileRegistry

def Registered (registry : ProfileRegistry) : Prop :=
  registry = .new ∨ ∃ documents, fromLibrary documents = .ok registry

structure Hosted (x : (ProfileId × Nat) × Entry) : Prop where
  keyed : x.1 = (x.2.compiled.profile.id, x.2.compiled.profile.revision)
  source : x.2.source = .host
  plain : Text.startsWith x.2.compiled.profile.id reservedProfilePrefix = false

structure Shelved (registry : ProfileRegistry) : Prop where
  sorted : registry.entries.Pairwise fun x y => toLex x.1 < toLex y.1
  builtIn : ∀ x ∈ new.entries, x ∈ registry.entries
  hosted : ∀ x ∈ registry.entries, x ∈ new.entries ∨ Hosted x
  default : registry.default = none
  allowDrafts : registry.allowDrafts = true

theorem shelved_new : Shelved { new with allowDrafts := true } where
  sorted := sound_new.sorted
  builtIn := fun _ hx => hx
  hosted := fun _ hx => .inl hx
  default := rfl
  allowDrafts := rfl

theorem Hosted.not_builtIn {x y : (ProfileId × Nat) × Entry} (hx : Hosted x) (hy : y ∈ new.entries) : x.1 ≠ y.1 := by
  intro hkey
  have hplain := hx.plain
  rw [mem_singleton.mp hy, hx.keyed] at hkey
  rw [(Prod.mk.inj hkey).1] at hplain
  rw [show defaultProfile.profile.id = defaultProfileId from rfl] at hplain
  exact absurd hplain (by decide)

theorem mem_insertEntry_of_ne {key : ProfileId × Nat} {entry : Entry} {entries : List ((ProfileId × Nat) × Entry)}
    {x : (ProfileId × Nat) × Entry} (h : x ∈ entries) (hkey : x.1 ≠ key) : x ∈ insertEntry key entry entries := by
  induction entries with
  | nil => cases h
  | cons y rest ih =>
    rw [insertEntry]
    split
    · rename_i heq
      rcases mem_cons.mp h with rfl | hrest
      · exact absurd heq.symm hkey
      · exact mem_cons_of_mem _ hrest
    · split
      · exact mem_cons_of_mem _ h
      · rcases mem_cons.mp h with rfl | hrest
        · exact mem_cons_self
        · exact mem_cons_of_mem _ (ih hrest)

theorem Shelved.add {registry next : ProfileRegistry} {profile : BehaviorProfile} {compiled : CompiledProfile}
    (h : registry.Shelved) (hplain : Text.startsWith profile.id reservedProfilePrefix = false)
    (hregister : registry.register profile .host = .ok (next, compiled)) : next.Shelved := by
  obtain ⟨hcompile, rfl⟩ := register_host hregister
  have hhosted : Hosted ((compiled.profile.id, compiled.profile.revision), ⟨compiled, .host⟩) :=
    ⟨rfl, rfl, by rw [compile_eq hcompile, hplain]⟩
  constructor
  case sorted => exact sorted_insertEntry _ h.sorted
  case builtIn => exact fun x hx => mem_insertEntry_of_ne (h.builtIn x hx) (hhosted.not_builtIn hx).symm
  case hosted =>
    intro x hx
    rcases mem_insertEntry hx with rfl | hx
    · exact .inr hhosted
    · exact h.hosted x hx
  case default => exact h.default
  case allowDrafts => exact h.allowDrafts

variable {registry : ProfileRegistry}

theorem register_free {x : (ProfileId × Nat) × Entry} (hx : Hosted x)
    (hfree : ∀ y ∈ registry.entries, y.1 ≠ x.1) : registry.register x.2.compiled.profile .host =
      .ok ({ registry with entries := insertEntry x.1 x.2 registry.entries }, x.2.compiled) := by
  obtain ⟨key, ⟨compiled, source⟩⟩ := x
  obtain ⟨hkeyed, hsource, hplain⟩ := hx
  dsimp only at hkeyed hsource hplain hfree ⊢
  subst hkeyed hsource
  have hnone : registry.entries.lookup (compiled.profile.id, compiled.profile.revision) = none :=
    lookup_eq_none_iff.mpr fun y hy => by simpa using (hfree y hy).symm
  unfold register
  rw [if_neg (by simp [hplain]), compile_profile]
  dsimp only
  rw [hnone]

theorem load_hosted {hosted : List ((ProfileId × Nat) × Entry)} (hhosted : ∀ x ∈ hosted, Hosted x)
    (hsorted : hosted.Pairwise fun x y => toLex x.1 < toLex y.1) (registry : ProfileRegistry)
    (hfree : ∀ x ∈ hosted, ∀ y ∈ registry.entries, y.1 ≠ x.1)
    (hentries : registry.entries.Pairwise fun x y => toLex x.1 < toLex y.1) :
    ∃ entries, (hosted.map fun x => x.2.compiled.profile).foldlM (fun registry profile =>
        if Text.startsWith profile.id reservedProfilePrefix then
          (.ok registry : Except ProfileRegistryError ProfileRegistry)
        else (registry.register profile .host).map (·.1)) registry = .ok { registry with entries } ∧
      (entries.Pairwise fun x y => toLex x.1 < toLex y.1) ∧ ∀ x, x ∈ entries ↔ x ∈ registry.entries ∨ x ∈ hosted := by
  induction hosted generalizing registry with
  | nil => exact ⟨registry.entries, rfl, hentries, by simp⟩
  | cons x rest ih =>
    obtain ⟨hx, hrest⟩ := forall_mem_cons.mp hhosted
    obtain ⟨hbefore, hsorted⟩ := pairwise_cons.mp hsorted
    obtain ⟨hxfree, hrestfree⟩ := forall_mem_cons.mp hfree
    have hlater : ∀ z ∈ rest, ∀ y ∈ insertEntry x.1 x.2 registry.entries, y.1 ≠ z.1 := by
      intro z hz y hy
      rcases mem_insertEntry hy with rfl | hy
      · exact fun heq => (hbefore z hz).ne (congrArg toLex heq)
      · exact hrestfree z hz y hy
    obtain ⟨entries, hload, hsorted', hmem⟩ := ih hrest hsorted
      { registry with entries := insertEntry x.1 x.2 registry.entries } hlater
      (sorted_insertEntry x.2 hentries)
    refine ⟨entries, ?_, hsorted', fun z => ?_⟩
    · rw [map_cons, foldlM_cons, hx.plain, if_neg (by simp), register_free hx hxfree]
      exact hload
    · rw [hmem, mem_cons]
      constructor
      · rintro (hz | hz)
        · rcases mem_insertEntry hz with rfl | hz
          · exact .inr (.inl rfl)
          · exact .inl hz
        · exact .inr (.inr hz)
      · rintro (hz | rfl | hz)
        · exact .inl (mem_insertEntry_of_ne hz (hxfree z hz))
        · exact .inl (mem_insertEntry_self z.1 z.2 _)
        · exact .inr hz

theorem Shelved.reload (h : registry.Shelved) :
    fromLibrary registry.documents = .ok registry := by
  have hfree : ∀ x ∈ registry.entries.filter (fun entry => decide (entry.2.source ≠ .builtIn)), Hosted x := by
    intro x hx
    obtain ⟨hmem, hsource⟩ := mem_filter.mp hx
    rcases h.hosted x hmem with hnew | hhosted
    · rw [mem_singleton.mp hnew] at hsource
      cases hsource
    · exact hhosted
  have hapart : ∀ x ∈ registry.entries.filter (fun entry => decide (entry.2.source ≠ .builtIn)),
      ∀ y ∈ new.entries, y.1 ≠ x.1 := fun x hx y hy => ((hfree x hx).not_builtIn hy).symm
  obtain ⟨entries, hload, hsorted, hmem⟩ := load_hosted hfree (h.sorted.filter _)
    { new with allowDrafts := true } hapart sound_new.sorted
  have hsame (x : (ProfileId × Nat) × Entry) : x ∈ entries ↔ x ∈ registry.entries := by
    rw [hmem]
    constructor
    · rintro (hx | hx)
      · exact h.builtIn x hx
      · exact mem_of_mem_filter hx
    · intro hx
      rcases h.hosted x hx with hnew | hhosted
      · exact .inl hnew
      · exact .inr (mem_filter.mpr ⟨hx, by simp [hhosted.source]⟩)
  have hentries : entries = registry.entries := by
    have hnodup {l : List ((ProfileId × Nat) × Entry)} (hl : l.Pairwise fun x y => toLex x.1 < toLex y.1) : l.Nodup :=
      hl.imp fun hlt heq => hlt.ne (congrArg (fun x => toLex x.1) heq)
    have hperm := (perm_ext_iff_of_nodup (hnodup hsorted) (hnodup h.sorted)).mpr hsame
    exact hperm.eq_of_pairwise (fun x y _ _ hlt hgt => absurd (hlt.trans hgt) (lt_irrefl _)) hsorted h.sorted
  rw [hentries] at hload
  refine hload.trans (congrArg Except.ok ?_)
  rw [← h.allowDrafts, show new.default = registry.default from h.default.symm]

theorem Registered.reload (h : registry.Registered) :
    fromLibrary registry.documents = .ok { registry with allowDrafts := true } := by
  rcases h with rfl | ⟨documents, hload⟩
  · rfl
  · have hshelved : registry.Shelved := load_rule Shelved.add shelved_new hload
    rw [hshelved.reload, ← hshelved.allowDrafts]

theorem Registered.reloaded (h : registry.Registered) :
    Registered { registry with allowDrafts := true } := .inr ⟨_, h.reload⟩

def opened (registry : ProfileRegistry) : ProfileRegistry :=
  if registry.entries.any fun x => x.2.compiled.profile.status == .draft then registry
  else { registry with allowDrafts := true }

theorem opened_eq (h : registry.allowDrafts = true) : registry.opened = registry := by
  unfold opened
  split
  · rfl
  · rw [← h]

theorem Registered.opened_eq (h : registry.Registered) :
    registry.opened = { registry with allowDrafts := true } := by
  rcases h with rfl | ⟨documents, hload⟩
  · rfl
  · have hshelved : registry.Shelved := load_rule Shelved.add shelved_new hload
    rw [ProfileRegistry.opened_eq hshelved.allowDrafts, ← hshelved.allowDrafts]

theorem resolve_opened (registry : ProfileRegistry) (target : ProfileRef) :
    registry.opened.resolve target = registry.resolve target := by
  unfold opened
  split
  · rfl
  · rename_i hdraft
    have hnone : ∀ x ∈ registry.entries, x.2.compiled.profile.status ≠ .draft := by
      intro x hx hstatus
      exact hdraft (any_eq_true.mpr ⟨x, hx, by simp [hstatus]⟩)
    have hlatest {x : (ProfileId × Nat) × Entry} (hx : x ∈ registry.entries) :
        ProfileRegistry.isLatest { registry with allowDrafts := true } x.2 = registry.isLatest x.2 := by
      unfold isLatest
      cases hstatus : x.2.compiled.profile.status with
      | draft => exact absurd hstatus (hnone x hx)
      | published | deprecated => rfl
    have hfound : ((registry.entries.filter fun e => e.1.1 == target.id).reverse.map (·.2)).find?
          (isLatest { registry with allowDrafts := true }) =
        ((registry.entries.filter fun e => e.1.1 == target.id).reverse.map (·.2)).find? registry.isLatest := by
      refine List.find?_congr fun e he => ?_
      obtain ⟨x, hx, rfl⟩ := mem_map.mp he
      exact hlatest (mem_of_mem_filter (mem_reverse.mp hx))
    -- no entry that is found is a draft, so neither registry refuses it
    have hexecutable {x : (ProfileId × Nat) × Entry} (hx : x ∈ registry.entries) (allow : Bool) :
        (if x.2.compiled.profile.status = .draft ∧ !allow then
          .error (.draftNotExecutable x.2.compiled.reference) else .ok x.2.compiled :
          Except ProfileRegistryError CompiledProfile) = .ok x.2.compiled := if_neg fun h => hnone x hx h.1
    unfold resolve
    dsimp only
    cases target.revision with
    | some revision =>
      dsimp only
      cases hlookup : registry.entries.lookup (target.id, revision) with
      | none => rfl
      | some e =>
        obtain ⟨before, after, heq, -⟩ := lookup_eq_some_iff.mp hlookup
        have hx : ((target.id, revision), e) ∈ registry.entries := heq ▸ mem_append_right _ mem_cons_self
        exact (hexecutable hx true).trans (hexecutable hx registry.allowDrafts).symm
    | none =>
      rw [hfound]
      cases hfind :
        ((registry.entries.filter fun e => e.1.1 == target.id).reverse.map (·.2)).find? registry.isLatest with
      | none => rfl
      | some e =>
        obtain ⟨x, hx, rfl⟩ := mem_map.mp (mem_of_find?_eq_some hfind)
        have hx := mem_of_mem_filter (mem_reverse.mp hx)
        exact (hexecutable hx true).trans (hexecutable hx registry.allowDrafts).symm

end ProfileRegistry

open ProfileRegistry

theorem registered_of_install {profile : Value} {documents : List Value} {next : CompiledProfile}
    {library : ProfileRegistry} (h : installBundle profile documents = some (next, library)) : library.Registered := by
  obtain ⟨definitions, result, hload, -⟩ := loaded_of_install h
  exact .inr ⟨_, hload⟩

theorem unnoticed_opened : Unnoticed opened where
  resolve := resolve_opened
  installed := by
    intro profile documents next library hinstall
    obtain ⟨definitions, result, hload, -⟩ := loaded_of_install hinstall
    exact opened_eq (load_rule Shelved.add shelved_new hload).allowDrafts

theorem unnoticed_same : Unnoticed (fun registry => registry) := ⟨fun _ _ => rfl, fun _ => rfl⟩

namespace Agent

variable [Serde]

/-- The agents that there are in a session. A root agent starts with the built-in registry as its library and a child
    with the library that its parent has then; an agent goes by commands, and is restored from what is stored of it, or
    from a snapshot that is older than the behavior layer. -/
inductive Lived : Agent → Prop
  | root {a} (hfresh : a.Fresh) (hlibrary : a.state.behavior.library = .new) : Lived a
  | child {parent a} (hparent : Lived parent) (hfresh : a.Fresh)
      (hlibrary : a.state.behavior.library = parent.state.behavior.library) : Lived a
  | command {a} (ha : Lived a) (command : AgentCommand) : Lived (a.apply command).1
  | restored {a b} (ha : Lived a) {sessionId stored}
      (hstored : stored.behavior = none ∨ stored.behavior = some a.state.behavior.toStored)
      (hrestored : restoredAgent sessionId stored = .ok b) : Lived b

omit [Serde]

abbrev Stocked (held : Holdings) : Prop := Bundled (fun _ library => library.Registered) held

variable {a b : Agent}

theorem stocked_apply (ha : Stocked a.holdings) (command : AgentCommand) : Stocked (a.apply command).1.holdings := by
  obtain ⟨start, opened, es, hstart, hdeeds⟩ := a.goesThrough_apply command
  refine hdeeds.bundled ⟨fun hactive _ _ => hactive, fun _ hnext _ => hnext, fun {next library} h => ?_⟩ ?_
  · cases command with
    | setBehaviorProfile profile documents allowCommands => exact registered_of_install h
    | _ => cases h
  · rw [hstart]
    exact ⟨ha.active, ha.pending⟩

theorem relabel_same (h : a.state.behavior.run.enteredFrom = none) : a.relabel (fun registry => registry) = a := by
  obtain ⟨_, _, _, ⟨_, _, _, _, _, _, _, _, _, _, _, _, _, _, ⟨_, _, _, _, run⟩, pending⟩, _, _⟩ := a
  obtain ⟨_, _, _, _, _, _, _, _, _, _, _, _, _, _, _, entered⟩ := run
  obtain rfl : entered = none := h
  cases pending <;> rfl

theorem enteredFrom_apply (ha : a.state.behavior.run.enteredFrom = none) (command : AgentCommand) :
    (a.apply command).1.state.behavior.run.enteredFrom = none := by
  have happly := apply_relabel unnoticed_same a command
  rw [relabel_same ha] at happly
  rw [happly]
  rfl

variable [Serde]

theorem Lived.settled (h : Lived a) : Stocked a.holdings ∧ a.state.behavior.run.enteredFrom = none := by
  induction h with
  | root hfresh hlibrary =>
    refine ⟨⟨.inl hlibrary, fun next library hpending => ?_⟩, ?_⟩
    · cases (fresh_pending hfresh).symm.trans hpending
    · obtain ⟨_, _, _, _, _, _, _, _, _, _, rfl⟩ := hfresh
      rfl
  | @child parent a _ hfresh hlibrary ih =>
    refine ⟨⟨?_, fun next library hpending => ?_⟩, ?_⟩
    · rw [show a.holdings.library = parent.holdings.library from hlibrary]
      exact ih.1.1
    · cases (fresh_pending hfresh).symm.trans hpending
    · obtain ⟨_, _, _, _, _, _, _, _, _, _, rfl⟩ := hfresh
      rfl
  | command ha command ih => exact ⟨stocked_apply ih.1 command, enteredFrom_apply ih.2 command⟩
  | @restored a b _ sessionId stored hstored hrestored ih =>
    obtain ⟨behavior, hbehavior, hb, hpending⟩ : ∃ behavior, BehaviorState.fromStored stored.behavior = .ok behavior ∧
        b.state.behavior = behavior ∧ b.state.pendingProfile = none := by
      unfold restoredAgent at hrestored
      split at hrestored
      · cases hrestored
      · cases hrestored
        exact ⟨_, ‹_›, rfl, rfl⟩
    have hnone (next : CompiledProfile) (library : ProfileRegistry)
        (h : b.holdings.pending = some (next, library)) : library.Registered := by
      cases hpending.symm.trans h
    rcases hstored with hstored | hstored
    · rw [hstored] at hbehavior
      cases hbehavior
      exact ⟨⟨.inl (congrArg BehaviorState.library hb), hnone⟩, by rw [hb]; rfl⟩
    · rw [hstored, fromStored_ok ih.1.active.reload] at hbehavior
      cases hbehavior
      refine ⟨⟨?_, hnone⟩, by rw [hb]⟩
      rw [show b.holdings.library = _ from congrArg BehaviorState.library hb]
      exact ih.1.active.reloaded

end Agent

/-- The behavior that comes back is the one that was stored: its library holds the same profiles under the same keys and
    answers every switch alike. -/
structure SameBehavior (b b' : BehaviorState) : Prop where
  profile : b'.profile = b.profile
  contentHash : b'.profile.contentHash = b.profile.contentHash
  entries : b'.library.entries = b.library.entries
  resolve : ∀ target, b'.library.resolve target = b.library.resolve target
  run : b'.run = b.run
  enteredFrom : b'.enteredFrom = b.enteredFrom
  commandsTrusted : b'.commandsTrusted = b.commandsTrusted

namespace Agent

variable [Serde]

/-- The behavior of an agent survives storage, and under it every sequence of commands has the same effects. -/
theorem behavior_survives_storage {a : Agent} (ha : a.Lived) :
    ∃ b, BehaviorState.fromStored (some a.state.behavior.toStored) = .ok b ∧ SameBehavior a.state.behavior b ∧
      ∀ commands, (machine.trace (a.withBehavior b) commands).map (·.out) = (machine.trace a commands).map (·.out) := by
  obtain ⟨⟨hregistered, -⟩, hentered⟩ := ha.settled
  have hlibrary : a.state.behavior.library.Registered := hregistered
  have hrun : { a.state.behavior.run with enteredFrom := none } = a.state.behavior.run := by
    rw [← hentered]
  have hopened : opened { a.state.behavior.library with allowDrafts := true } = opened a.state.behavior.library :=
    (ProfileRegistry.opened_eq rfl).trans hlibrary.opened_eq.symm
  refine ⟨_, fromStored_ok hlibrary.reload, ?_, fun commands => ?_⟩
  · constructor
    case resolve =>
      intro target
      rw [← resolve_opened a.state.behavior.library, hlibrary.opened_eq]
    case run => exact hrun
    all_goals rfl
  · have hover : (a.withBehavior { a.state.behavior with
        library := { a.state.behavior.library with allowDrafts := true }
        run := { a.state.behavior.run with enteredFrom := none } }).relabel opened = a.relabel opened := by
      unfold relabel withBehavior BehaviorState.relabel
      rw [hopened]
    exact (effects_relabel unnoticed_opened _ commands).symm.trans
      ((congrArg (fun b => (machine.trace b commands).map (·.out)) hover).trans
        (effects_relabel unnoticed_opened a commands))

variable {a : Agent}

theorem Lived.fromStored_eq (ha : a.Lived) : BehaviorState.fromStored (some a.state.behavior.toStored) =
    .ok { a.state.behavior with library := { a.state.behavior.library with allowDrafts := true } } := by
  obtain ⟨⟨hregistered, -⟩, hentered⟩ := ha.settled
  have hlibrary : a.state.behavior.library.Registered := hregistered
  rw [fromStored_ok hlibrary.reload, ← hentered]

theorem Lived.resolve_eq (ha : a.Lived) (target : ProfileRef) :
    ({ a.state.behavior.library with allowDrafts := true } : ProfileRegistry).resolve target =
      a.state.behavior.library.resolve target := by
  have hlibrary : a.state.behavior.library.Registered := ha.settled.1.1
  rw [← hlibrary.opened_eq, resolve_opened]

theorem Lived.run (ha : a.Lived) (commands : List AgentCommand) : (machine.run a commands).Lived := by
  induction commands generalizing a with
  | nil => exact ha
  | cons command rest ih => exact ih (ha.command command)

end Agent

/-- An agent of a session and what is restored from its stored form are the same exactly if the agent had nothing
    queued, no profile requested and no timeout counted. -/
theorem snapshot_round_trips_iff [Serde] {a : Agent} (ha : a.Lived) (hserde : Serde.RoundTrips a) :
    (∃ b, restoredAgent a.sessionId (storedAgent a) = .ok b ∧ SameAgent a b) ↔
      a.state.queuedInputs = [] ∧ a.state.pendingProfile = none ∧ a.state.consecutiveToolTimeouts = 0 := by
  obtain ⟨hrecords, htoolCalls, hruns, hchildUsage⟩ := usageFromValue_toValue hserde.records hserde.childKeys
    hserde.childMetrics
  simp only [restoredAgent, storedAgent, ha.fromStored_eq]
  constructor
  · rintro ⟨b, hb, hsame⟩
    cases hb
    exact ⟨hsame.queuedInputs.symm, hsame.pendingProfile.symm, hsame.timeouts.symm⟩
  · rintro ⟨hqueued, hpending, htimeouts⟩
    refine ⟨_, rfl, ?_⟩
    constructor
    case queuedInputs => exact hqueued.symm
    case pendingProfile => exact hpending.symm
    case timeouts => exact htimeouts.symm
    case pendingTools => exact mapValues_stored a.state.pendingTools
    case targets => exact fun target => congrArg Except.toOption (ha.resolve_eq target)
    case capabilities => exact capabilitiesFromValue_toValue hserde.toolset hserde.childDepth
    case records => exact hrecords
    case toolCalls => exact htoolCalls
    case runs => exact hruns
    case childUsage => exact hchildUsage
    all_goals rfl

end

section

open Sample Agent

attribute [local instance] documents

theorem lived_rooted [Serde] : rooted.Lived :=
  .root ⟨⟨7⟩, ⟨1⟩, none, 0, "You are helpful.", _, defaultProfile, .new, false, {}, rfl⟩ rfl

theorem lived_led : led.Lived := lived_rooted.command installLead

theorem lead_survives_storage : led.state.behavior.profile.switchTargets = [⟨"author", none⟩] ∧
    ∃ b, BehaviorState.fromStored (some led.state.behavior.toStored) = .ok b ∧ SameBehavior led.state.behavior b ∧
      ∀ commands,
        (machine.trace (led.withBehavior b) commands).map (·.out) = (machine.trace led commands).map (·.out) := by
  obtain ⟨-, htargets, -⟩ := switches_evaluated
  exact ⟨htargets, behavior_survives_storage lived_led⟩

namespace Sample

def written : UsageValue → Value
  | none => .null
  | some n => .ofNat n

def counter (value : Value) (key : String) : UsageValue := (value.get key).bind Value.asU64

def usageWritten (usage : ModelUsage) : Value := .object [("cache_read_tokens", written usage.cacheReadTokens),
  ("cache_write_tokens", written usage.cacheWriteTokens), ("input_tokens", written usage.inputTokens),
  ("output_tokens", written usage.outputTokens), ("reasoning_tokens", written usage.reasoningTokens),
  ("total_tokens", written usage.totalTokens)]

def usageRead (value : Value) : ModelUsage where
  inputTokens := counter value "input_tokens"
  outputTokens := counter value "output_tokens"
  cacheReadTokens := counter value "cache_read_tokens"
  cacheWriteTokens := counter value "cache_write_tokens"
  reasoningTokens := counter value "reasoning_tokens"
  totalTokens := counter value "total_tokens"

def toolWritten (entry : Sigma fun _ : ToolId => ToolCapability) : String × Value :=
  let descriptor := entry.2.descriptor
  (entry.1.display, .object [("delegatable", .bool entry.2.delegatable),
    ("descriptor", .object [("description", .string descriptor.description), ("id", .string entry.1.display),
      ("input_schema", descriptor.inputSchema), ("name", .string descriptor.name)]),
    ("policy", .object [("enabled", .bool entry.2.policy.enabled), ("permission", .string "Allow")])])

/-- The derived conversions as far as they are needed below: costs are unknown, and one tool set and one child's
    key are read. -/
local instance conversions : Serde where
  toolset := ⟨fun toolset => .object [("tools", .object (toolset.tools.entries.map toolWritten))],
    fun _ => .ok (capabilities .allow).tools⟩
  record := ⟨fun record => .object [("cost", .object [("amount_usd", .null), ("source", .null)]),
      ("model_usage", usageWritten record.modelUsage), ("tool_usage", .null)],
    fun value => .ok ⟨usageRead ((value.get "model_usage").getD .null), {}, none⟩⟩
  metrics := ⟨fun metrics => .object [("total_cost", .null), ("total_requests", .ofNat metrics.totalRequests),
      ("total_runs", .ofNat metrics.totalRuns), ("total_tokens", written metrics.totalTokens),
      ("total_tool_calls", .ofNat metrics.totalToolCalls)],
    fun value => .ok {
      totalRuns := (counter value "total_runs").getD 0
      totalRequests := (counter value "total_requests").getD 0
      totalToolCalls := (counter value "total_tool_calls").getD 0
      totalTokens := counter value "total_tokens" }⟩
  parseUuid _ := .ok 8

def spent : AgentUsageMetrics := { totalRuns := 1, totalRequests := 2, totalTokens := some 90 }

/-- The lead takes a prompt, and its rule hands over to the author; it spawns two children, of which one reports,
    and a request ends. -/
def handover : List AgentCommand := [installLead, prompt, .childSpawned ⟨8⟩ false, .childSpawned ⟨9⟩ false,
  .childCompleted ⟨8⟩ ⟨"done", ⟨spent, {}, spent⟩, none⟩,
  .backendEvent ⟨6⟩ (.completed ⟨0⟩ ⟨⟨0⟩, { inputTokens := some 40, outputTokens := some 2 }, {}, "tool_use"⟩)]

def promoted : Agent := Agent.machine.run rooted handover

theorem promoted_evaluated : (promoted.state.behavior.profile.profile.id = "author" ∧ promoted.state.children = [⟨9⟩]) ∧
    promoted.state.queuedInputs.length = 0 ∧ promoted.state.pendingProfile.isNone = true ∧
    promoted.state.consecutiveToolTimeouts = 0 := by
  decide +kernel

set_option maxRecDepth 20000 in
theorem promoted_kept : promoted.capabilities = capabilities .allow ∧
    promoted.usage.records = [⟨{ inputTokens := some 40, outputTokens := some 2 }, {}, none⟩] ∧
    promoted.usage.childUsage.entries = [⟨⟨8⟩, ⟨spent, {}, spent⟩⟩] := ⟨rfl, rfl, rfl⟩

theorem roundTrips_promoted : Serde.RoundTrips promoted := by
  obtain ⟨hcapabilities, hrecords, hchildren⟩ := promoted_kept
  constructor
  case toolset =>
    rw [hcapabilities]
    rfl
  case records =>
    rw [hrecords]
    intro record hrecord
    rw [mem_singleton.mp hrecord]
    rfl
  case childKeys =>
    rw [hchildren]
    intro entry hentry
    rw [mem_singleton.mp hentry]
    rfl
  case childMetrics =>
    rw [hchildren]
    intro entry hentry
    rw [mem_singleton.mp hentry]
    exact ⟨rfl, rfl, rfl⟩
  case childDepth =>
    rw [hcapabilities]
    exact fun depth h => absurd h (by simp [Sample.capabilities])

theorem lived_promoted : promoted.Lived := lived_rooted.run handover

theorem snapshot_round_trips_iff_promoted :
    (promoted.state.behavior.profile.profile.id = "author" ∧ promoted.state.children = [⟨9⟩]) ∧
    (promoted.capabilities = capabilities .allow ∧
      promoted.usage.records = [⟨{ inputTokens := some 40, outputTokens := some 2 }, {}, none⟩] ∧
      promoted.usage.childUsage.entries = [⟨⟨8⟩, ⟨spent, {}, spent⟩⟩]) ∧
    ∃ b, restoredAgent promoted.sessionId (storedAgent promoted) = .ok b ∧ SameAgent promoted b := by
  obtain ⟨hauthor, hqueued, hpending, htimeouts⟩ := promoted_evaluated
  exact ⟨hauthor, promoted_kept, (snapshot_round_trips_iff lived_promoted roundTrips_promoted).mpr
    ⟨length_eq_zero_iff.mp hqueued, Option.isNone_iff_eq_none.mp hpending, htimeouts⟩⟩

end Sample

end

end RustyCore
