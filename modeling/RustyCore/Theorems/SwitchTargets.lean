import Mathlib.Data.List.Perm.Subperm
import Mathlib.Data.Prod.Lex
import RustyCore.Lib.Except
import RustyCore.Theorems.Deeds
import RustyCore.Theorems.Transition

/-! The profiles that an agent can switch to. A bundle is only installed when every target that can be reached from its
    profile resolves in its library; the agent keeps its profile and its library, and the pair that waits, closed in this
    sense, as long as no two different profiles share a content hash. -/

namespace RustyCore

open List Option Except

section

variable [Externals]

namespace ProfileRegistry

omit [Externals] in
theorem keyLt_iff {a b : ProfileId × Nat} : keyLt a b = true ↔ toLex a < toLex b := by
  simp [keyLt, Prod.Lex.lt_iff]

structure Sound (registry : ProfileRegistry) : Prop where
  sorted : registry.entries.Pairwise fun x y => toLex x.1 < toLex y.1
  keyed : ∀ x ∈ registry.entries, x.1 = (x.2.compiled.profile.id, x.2.compiled.profile.revision)
  builtIn : ∀ x ∈ registry.entries, Text.startsWith x.2.compiled.profile.id reservedProfilePrefix = true →
    x.2.compiled.switchTargets = []

theorem mem_insertEntry_self (key : ProfileId × Nat) (entry : Entry) (entries : List ((ProfileId × Nat) × Entry)) :
    (key, entry) ∈ insertEntry key entry entries := by
  induction entries with
  | nil => exact mem_cons_self
  | cons x rest ih =>
    rw [insertEntry]
    split
    · exact mem_cons_self
    · split
      · exact mem_cons_self
      · exact mem_cons_of_mem _ ih

variable {entries : List ((ProfileId × Nat) × Entry)}

theorem mem_insertEntry {key : ProfileId × Nat} {entry : Entry}
    {x : (ProfileId × Nat) × Entry} (h : x ∈ insertEntry key entry entries) : x = (key, entry) ∨ x ∈ entries := by
  induction entries with
  | nil => exact .inl (mem_singleton.mp h)
  | cons y rest ih =>
    rw [insertEntry] at h
    split at h
    · rcases mem_cons.mp h with h | h
      · exact .inl h
      · exact .inr (mem_cons_of_mem _ h)
    · split at h
      · exact mem_cons.mp h
      · rcases mem_cons.mp h with h | h
        · exact .inr (h ▸ mem_cons_self)
        · exact (ih h).imp_right (mem_cons_of_mem _)

theorem sorted_insertEntry {key : ProfileId × Nat} (entry : Entry)
    (h : entries.Pairwise fun x y => toLex x.1 < toLex y.1) :
    (insertEntry key entry entries).Pairwise fun x y => toLex x.1 < toLex y.1 := by
  induction entries with
  | nil => exact pairwise_singleton _ _
  | cons y rest ih =>
    obtain ⟨hhead, hrest⟩ := pairwise_cons.mp h
    rw [insertEntry]
    split
    · rename_i heq
      exact pairwise_cons.mpr ⟨heq ▸ hhead, hrest⟩
    · rename_i hne
      split
      · rename_i hlt
        have hbefore := keyLt_iff.mp hlt
        refine pairwise_cons.mpr ⟨fun x hx => ?_, h⟩
        rcases mem_cons.mp hx with rfl | hx
        · exact hbefore
        · exact hbefore.trans (hhead x hx)
      · rename_i hnot
        have hafter : toLex y.1 < toLex key :=
          lt_of_le_of_ne (not_lt.mp fun hlt => hnot (keyLt_iff.mpr hlt)) fun heq => hne (toLex.injective heq).symm
        refine pairwise_cons.mpr ⟨fun x hx => ?_, ih hrest⟩
        rcases mem_insertEntry hx with rfl | hx
        · exact hafter
        · exact hhead x hx

theorem eq_of_key (h : entries.Pairwise fun x y => toLex x.1 < toLex y.1)
    {x y : (ProfileId × Nat) × Entry} (hx : x ∈ entries) (hy : y ∈ entries) (hkey : x.1 = y.1) : x = y := by
  have hnodup : (entries.map Prod.fst).Nodup := pairwise_map.mpr (h.imp fun hlt heq => hlt.ne (congrArg toLex heq))
  exact inj_on_of_nodup_map hnodup hx hy hkey

theorem resolve_mem {registry : ProfileRegistry} {target : ProfileRef} {found : CompiledProfile}
    (h : registry.resolve target = .ok found) : ∃ x ∈ registry.entries, x.2.compiled = found := by
  unfold resolve at h
  dsimp only at h
  split at h
  · cases h
  · rename_i entry hentry
    split at h
    · cases h
    · cases h
      split at hentry
      · rename_i revision hrevision
        obtain ⟨before, after, heq, -⟩ := lookup_eq_some_iff.mp hentry
        exact ⟨((target.id, revision), entry), heq ▸ mem_append_right _ mem_cons_self, rfl⟩
      · obtain ⟨x, hx, rfl⟩ := mem_map.mp (mem_of_find?_eq_some hentry)
        exact ⟨x, mem_of_mem_filter (mem_reverse.mp hx), rfl⟩

theorem Sound.eq_of_reference {registry : ProfileRegistry} (h : registry.Sound) {x y : (ProfileId × Nat) × Entry}
    (hx : x ∈ registry.entries) (hy : y ∈ registry.entries)
    (href : x.2.compiled.reference = y.2.compiled.reference) : x.2.compiled = y.2.compiled := by
  have hkey : x.1 = y.1 := by
    rw [h.keyed x hx, h.keyed y hy]
    simp only [CompiledProfile.reference, ProfileRef.mk.injEq, Option.some.injEq] at href
    rw [href.1, href.2]
  rw [eq_of_key h.sorted hx hy hkey]

theorem sound_new : Sound { new with allowDrafts := true } where
  sorted := pairwise_singleton _ _
  keyed := by
    intro x hx
    rw [mem_singleton.mp hx]
  builtIn := by
    intro x hx _
    rw [mem_singleton.mp hx]
    rfl

variable {registry next : ProfileRegistry}

theorem register_host {profile : BehaviorProfile} {compiled : CompiledProfile}
    (h : registry.register profile .host = .ok (next, compiled)) :
    compile profile = .ok compiled ∧ next = { registry with
      entries := insertEntry (compiled.profile.id, compiled.profile.revision) ⟨compiled, .host⟩ registry.entries } := by
  unfold register at h
  split at h
  · cases h
  · split at h
    · cases h
    · rename_i found hfound
      dsimp only at h
      have hinsert (h : (Except.ok ({ registry with
          entries := insertEntry (found.profile.id, found.profile.revision) ⟨found, .host⟩ registry.entries }, found) :
          Except ProfileRegistryError (ProfileRegistry × CompiledProfile)) = .ok (next, compiled)) :
          compile profile = .ok compiled ∧ next = { registry with
            entries := insertEntry (compiled.profile.id, compiled.profile.revision) ⟨compiled, .host⟩
              registry.entries } := by
        cases h
        exact ⟨hfound, rfl⟩
      split at h
      · exact hinsert h
      · rename_i existing _
        split at h
        · rename_i hrank
          cases hsource : existing.source <;> simp [hsource, ProfileSource.rank] at hrank
        · split at h
          · cases h
          · exact hinsert h

theorem Sound.add {profile : BehaviorProfile} {compiled : CompiledProfile}
    (h : registry.Sound) (hplain : Text.startsWith profile.id reservedProfilePrefix = false)
    (hregister : registry.register profile .host = .ok (next, compiled)) : next.Sound := by
  obtain ⟨hcompile, rfl⟩ := register_host hregister
  refine ⟨sorted_insertEntry _ h.sorted, fun x hx => ?_, fun x hx hreserved => ?_⟩
  · rcases mem_insertEntry hx with rfl | hx
    · rfl
    · exact h.keyed x hx
  · rcases mem_insertEntry hx with rfl | hx
    · rw [compile_eq hcompile, hplain] at hreserved
      cases hreserved
    · exact h.builtIn x hx hreserved

theorem load_rule {P : ProfileRegistry → Prop}
    (hadd : ∀ {registry next profile compiled}, P registry → Text.startsWith profile.id reservedProfilePrefix = false →
      registry.register profile .host = .ok (next, compiled) → P next) {profiles : List BehaviorProfile} (h : P registry)
    (hload : profiles.foldlM (fun registry profile =>
      if Text.startsWith profile.id reservedProfilePrefix then
        (.ok registry : Except ProfileRegistryError ProfileRegistry)
      else (registry.register profile .host).map (·.1)) registry = .ok next) : P next := by
  induction profiles generalizing registry with
  | nil =>
    cases hload
    exact h
  | cons profile rest ih =>
    rw [foldlM_cons] at hload
    split at hload
    · exact ih h hload
    · rename_i hplain
      obtain ⟨loaded, hregistered, hload⟩ := ok_of_bind hload
      obtain ⟨r, hregister, rfl⟩ := ok_of_map hregistered
      exact ih (hadd h (Bool.eq_false_iff.mpr hplain) hregister) hload

end ProfileRegistry

/-- Among some profiles with `root`, every switch target of one of them resolves to one of them. -/
def ClosedOver (library : ProfileRegistry) (root : CompiledProfile) : Prop :=
  ∃ met : CompiledProfile → Prop, met root ∧
    ∀ p, met p → ∀ target ∈ p.switchTargets, ∃ found, library.resolve target = .ok found ∧ met found

variable {library : ProfileRegistry} {root : CompiledProfile} {target : ProfileRef}

theorem ClosedOver.resolves (h : ClosedOver library root) (htarget : target ∈ root.switchTargets) :
    ∃ found, library.resolve target = .ok found ∧ ClosedOver library found := by
  obtain ⟨met, hroot, hclosed⟩ := h
  obtain ⟨found, hresolve, hfound⟩ := hclosed root hroot target htarget
  exact ⟨found, hresolve, met, hfound, hclosed⟩

theorem closedOver_of_nil (library : ProfileRegistry) (h : root.switchTargets = []) :
    ClosedOver library root := by
  refine ⟨(· = root), rfl, ?_⟩
  rintro p rfl target htarget
  rw [h] at htarget
  cases htarget

structure Resolved (library : ProfileRegistry) (targets seen : List ProfileRef) (new : List CompiledProfile)
    (seen' : List ProfileRef) : Prop where
  targets : ∀ target ∈ targets, ∃ found, library.resolve target = .ok found ∧ found.reference ∈ seen'
  fresh : ∀ p ∈ new, ∃ target, library.resolve target = .ok p
  marks : seen' = (new.map (·.reference)).reverse ++ seen
  nodup : seen.Nodup → seen'.Nodup

variable {new : List CompiledProfile}

theorem resolved_of_ok {targets seen seen' : List ProfileRef}
    (h : library.resolveTargets targets seen = .ok (new, seen')) : Resolved library targets seen new seen' := by
  induction targets generalizing seen new with
  | nil =>
    cases h
    exact ⟨by simp, by simp, rfl, id⟩
  | cons target rest ih =>
    rw [ProfileRegistry.resolveTargets] at h
    split at h
    · cases h
    · rename_i compiled hresolve
      split at h
      · rename_i hseen
        have hrest := ih h
        refine ⟨forall_mem_cons.mpr ⟨⟨compiled, hresolve, ?_⟩, hrest.targets⟩, hrest.fresh, hrest.marks,
          hrest.nodup⟩
        rw [hrest.marks]
        exact mem_append_right _ (by simpa using hseen)
      · rename_i hnew
        obtain ⟨r, hresolveRest, h⟩ := ok_of_map h
        cases h
        have hrest := ih hresolveRest
        have hseen : r.2 = ((compiled :: r.1).map (·.reference)).reverse ++ seen := by
          rw [hrest.marks]
          simp
        refine ⟨forall_mem_cons.mpr ⟨⟨compiled, hresolve, ?_⟩, hrest.targets⟩, ?_, hseen, fun hnodup => ?_⟩
        · rw [hseen]
          simp
        · exact forall_mem_cons.mpr ⟨⟨target, hresolve⟩, hrest.fresh⟩
        · exact hrest.nodup (nodup_cons.mpr ⟨by simpa using hnew, hnodup⟩)

theorem Resolved.subset {targets seen seen' all : List ProfileRef} (h : Resolved library targets seen new seen')
    (hall : ∀ x ∈ library.entries, x.2.compiled.reference ∈ all) (hseen : seen ⊆ all) : seen' ⊆ all := by
  rw [h.marks]
  refine append_subset.mpr ⟨fun reference hreference => ?_, hseen⟩
  obtain ⟨p, hp, rfl⟩ := mem_map.mp (mem_reverse.mp hreference)
  obtain ⟨target, htarget⟩ := h.fresh p hp
  obtain ⟨x, hx, rfl⟩ := ProfileRegistry.resolve_mem htarget
  exact hall x hx

theorem Resolved.known (hsound : library.Sound) {targets seen seen' : List ProfileRef} (h : Resolved library targets seen new seen') {found : CompiledProfile} (hfound : library.resolve target = .ok found) (hmem : found.reference ∈ seen') :
    found.reference ∈ seen ∨ found ∈ new := by
  rw [h.marks] at hmem
  rcases mem_append.mp hmem with hmem | hmem
  · obtain ⟨p, hp, href⟩ := mem_map.mp (mem_reverse.mp hmem)
    obtain ⟨target', htarget'⟩ := h.fresh p hp
    obtain ⟨x, hx, rfl⟩ := ProfileRegistry.resolve_mem hfound
    obtain ⟨y, hy, rfl⟩ := ProfileRegistry.resolve_mem htarget'
    rw [hsound.eq_of_reference hx hy href.symm]
    exact .inr hp
  · exact .inl hmem

theorem resolveQueue_closed (hsound : library.Sound) {all : List ProfileRef}
    (hall : ∀ x ∈ library.entries, x.2.compiled.reference ∈ all) {fuel : Nat} {queue result : List CompiledProfile}
    {seen : List ProfileRef} (hnodup : seen.Nodup) (hseen : seen ⊆ all)
    (hfuel : all.length + queue.length ≤ fuel + seen.length) (h : library.resolveQueue fuel queue seen = .ok result) :
    queue ⊆ result ∧ ∀ p ∈ result, ∀ target ∈ p.switchTargets, ∃ found, library.resolve target = .ok found ∧
      (found.reference ∈ seen ∨ found ∈ result) := by
  induction fuel generalizing queue seen result with
  | zero =>
    have hlength : seen.length ≤ all.length := (subperm_of_subset hnodup hseen).length_le
    cases h
    obtain rfl : queue = [] := eq_nil_of_length_eq_zero (by omega)
    exact ⟨List.Subset.refl _, by simp⟩
  | succ fuel ih =>
    cases queue with
    | nil =>
      cases h
      exact ⟨List.Subset.refl _, by simp⟩
    | cons profile queue =>
      rw [ProfileRegistry.resolveQueue] at h
      split at h
      · cases h
      · rename_i new seen' hresolveTargets
        have hresolved := resolved_of_ok hresolveTargets
        obtain ⟨rest, hresolveRest, rfl⟩ := ok_of_map h
        have hfuel' : all.length + (queue ++ new).length ≤ fuel + seen'.length := by
          rw [hresolved.marks]
          simp only [length_append, length_reverse, length_map, length_cons] at hfuel ⊢
          omega
        obtain ⟨hqueue, hclosed⟩ := ih (hresolved.nodup hnodup) (hresolved.subset hall hseen) hfuel' hresolveRest
        have hknown {found : CompiledProfile} {target : ProfileRef} (hfound : library.resolve target = .ok found)
            (hmem : found.reference ∈ seen') : found.reference ∈ seen ∨ found ∈ rest :=
          (hresolved.known hsound hfound hmem).imp_right fun hnew => hqueue (mem_append_right _ hnew)
        have hwider {found : CompiledProfile} (h : found.reference ∈ seen ∨ found ∈ rest) :
            found.reference ∈ seen ∨ found ∈ profile :: rest := h.imp_right (mem_cons_of_mem _)
        refine ⟨cons_subset_cons _ fun p hp => hqueue (mem_append_left _ hp), fun p hp target htarget => ?_⟩
        rcases mem_cons.mp hp with rfl | hp
        · obtain ⟨found, hfound, hmem⟩ := hresolved.targets target htarget
          exact ⟨found, hfound, hwider (hknown hfound hmem)⟩
        · obtain ⟨found, hfound, hmem | hmem⟩ := hclosed p hp target htarget
          · exact ⟨found, hfound, hwider (hknown hfound hmem)⟩
          · exact ⟨found, hfound, .inr (mem_cons_of_mem _ hmem)⟩

theorem root_entry {definitions : List BehaviorProfile}
    (h : ProfileRegistry.fromLibrary (definitions ++ [root.profile]) = .ok library) (hsound : library.Sound)
    {x : (ProfileId × Nat) × Entry} (hx : x ∈ library.entries) (href : x.2.compiled.reference = root.reference) :
    x.2.compiled = root ∨ x.2.compiled.switchTargets = [] := by
  unfold ProfileRegistry.fromLibrary at h
  rw [foldlM_append] at h
  obtain ⟨earlier, -, h⟩ := ok_of_bind h
  rw [foldlM_cons] at h
  split at h
  · rename_i hreserved
    refine .inr (hsound.builtIn x hx ?_)
    rw [show x.2.compiled.profile.id = root.profile.id from congrArg ProfileRef.id href]
    exact hreserved
  · obtain ⟨loaded, hregistered, h⟩ := ok_of_bind h
    cases h
    obtain ⟨r, hregister, rfl⟩ := ok_of_map hregistered
    obtain ⟨hcompile, hentries⟩ := ProfileRegistry.register_host hregister
    have hroot : r.2 = root := by
      rw [compile_profile] at hcompile
      cases hcompile
      rfl
    have hmem := ProfileRegistry.mem_insertEntry_self (r.2.profile.id, r.2.profile.revision) ⟨r.2, .host⟩
      earlier.entries
    rw [hentries] at hx hsound
    exact .inl ((hsound.eq_of_reference hx hmem (hroot ▸ href)).trans hroot)

theorem loaded_of_install {profile : Value} {documents : List Value} (h : installBundle profile documents = some (root, library)) : ∃ definitions result,
      ProfileRegistry.fromLibrary (definitions ++ [root.profile]) = .ok library ∧
      library.resolveClosure root = .ok result := by
  unfold installBundle at h
  simp only [bind_eq_bind, bind_eq_some_iff, toOption_eq_some] at h
  obtain ⟨definition, -, compiled, hcompile, definitions, -, registry, hload, result, hclosure, h⟩ := h
  cases h
  exact ⟨definitions, result, hload, hclosure⟩

theorem closedOver_of_install {profile : Value} {documents : List Value} (h : installBundle profile documents = some (root, library)) :
    ClosedOver library root := by
  obtain ⟨definitions, result, hload, hclosure⟩ := loaded_of_install h
  have hsound : library.Sound := ProfileRegistry.load_rule ProfileRegistry.Sound.add ProfileRegistry.sound_new hload
  have hall : ∀ x ∈ library.entries,
      x.2.compiled.reference ∈ root.reference :: library.entries.map (·.2.compiled.reference) :=
    fun x hx => mem_cons_of_mem _ (mem_map_of_mem hx)
  obtain ⟨hroot, hclosed⟩ := resolveQueue_closed hsound hall (nodup_singleton _)
    (cons_subset.mpr ⟨mem_cons_self, nil_subset _⟩) (by simp) hclosure
  refine ⟨fun p => p ∈ result ∨ p.switchTargets = [], .inl (hroot mem_cons_self), ?_⟩
  rintro p (hp | hnone) target htarget
  · obtain ⟨found, hresolve, hseen | hfound⟩ := hclosed p hp target htarget
    · obtain ⟨x, hx, rfl⟩ := ProfileRegistry.resolve_mem hresolve
      refine ⟨x.2.compiled, hresolve, ?_⟩
      rcases root_entry hload hsound hx (mem_singleton.mp hseen) with heq | hnone
      · exact .inl (heq ▸ hroot mem_cons_self)
      · exact .inr hnone
    · exact ⟨found, hresolve, .inl hfound⟩
  · rw [hnone] at htarget
    cases htarget

def Apart (met : CompiledProfile → Prop) : Prop := ∀ p q, met p → met q → p.contentHash = q.contentHash → p = q

def Among (met : CompiledProfile → Prop) (profile : CompiledProfile) (library : ProfileRegistry) : Prop :=
  met profile ∧ ∀ x ∈ library.entries, met x.2.compiled

structure Bundle (met : CompiledProfile → Prop) (profile : CompiledProfile) (library : ProfileRegistry) : Prop where
  among : Among met profile library
  closed : ClosedOver library profile

structure Secured (met : CompiledProfile → Prop) (held : Holdings) : Prop where
  active : Bundle met held.profile held.library
  pending : ∀ next library, held.pending = some (next, library) → Bundle met next library

variable {met : CompiledProfile → Prop} {B : CompiledProfile → ProfileRegistry → Prop} {a b : Agent}
  {es : List AgentEffect} {opened : List UserInput}

theorem Bundle.named {profile next : CompiledProfile} (h : Bundle met profile library) (hnamed : target ∈ profile.switchTargets) (hresolve : library.resolve target = .ok next) :
    Bundle met next library := by
  obtain ⟨found, hfound, hclosed⟩ := h.closed.resolves hnamed
  obtain rfl : found = next := Except.ok.inj (hfound.symm.trans hresolve)
  obtain ⟨x, hx, rfl⟩ := ProfileRegistry.resolve_mem hresolve
  exact ⟨⟨h.among.2 x hx, h.among.2⟩, hclosed⟩

theorem conveys_bundle (hapart : Apart met) (hbundle : ∀ next library, B next library → Bundle met next library) :
    Conveys (Bundle met) B where
  named hactive hnamed hresolve := hactive.named hnamed hresolve
  refreshed hactive hnext hsame := by
    rw [hapart _ _ hactive.among.1 hnext.among.1 hsame]
    exact hnext
  brought := hbundle _ _

theorem Deeds.secured (h : Deeds B opened a es b) (hapart : Apart met)
    (hbundle : ∀ next library, B next library → Bundle met next library) (ha : Secured met a.holdings) :
    Secured met b.holdings := by
  obtain ⟨hactive, hpending⟩ := h.bundled (conveys_bundle hapart hbundle) ⟨ha.active, ha.pending⟩
  exact ⟨hactive, hpending⟩

namespace Agent

/-- The agents that the runtime drives. A root agent starts with the built-in profile and a child with the profile and
    the library that its parent has then; from there they go by commands. The bundles are among these profiles. -/
inductive Driven (met : CompiledProfile → Prop) : Agent → Prop
  | root {a : Agent} (hfresh : a.Fresh) (hprofile : a.state.behavior.profile = defaultProfile)
    (hlibrary : a.state.behavior.library = .new) (hmet : met defaultProfile) : Driven met a
  | child {parent a : Agent} (hparent : Driven met parent) (hfresh : a.Fresh)
    (hprofile : a.state.behavior.profile = parent.state.behavior.profile)
    (hlibrary : a.state.behavior.library = parent.state.behavior.library) : Driven met a
  | command {a : Agent} (ha : Driven met a) (command : AgentCommand)
    (hamong : ∀ next library, command.Installs next library → Among met next library) : Driven met (a.apply command).1

def GoesThrough (a : Agent) (command : AgentCommand) (m : Agent) : Prop :=
  ∃ start opened es, start.holdings = { a.holdings with queue := a.queueAfter command } ∧
    Deeds (fun next library => command.Installs next library) opened start es m

theorem goesThrough_apply (a : Agent) (command : AgentCommand) : a.GoesThrough command (a.apply command).1 := by
  obtain ⟨start, hstart, hdeeds⟩ := a.deeds_apply command fun _ _ h => h
  exact ⟨start, _, _, hstart, hdeeds⟩

theorem bundle_of_installs {command : AgentCommand}
    (hamong : ∀ next library, command.Installs next library → Among met next library) (next : CompiledProfile)
    (library : ProfileRegistry) (h : command.Installs next library) : Bundle met next library := by
  refine ⟨hamong next library h, ?_⟩
  cases command with
  | setBehaviorProfile profile documents allowCommands => exact closedOver_of_install h
  | _ => cases h

theorem GoesThrough.secured {command : AgentCommand} {m : Agent} (h : a.GoesThrough command m) (hapart : Apart met)
    (hamong : ∀ next library, command.Installs next library → Among met next library) (ha : Secured met a.holdings) :
    Secured met m.holdings := by
  obtain ⟨start, opened, es, hstart, hdeeds⟩ := h
  refine hdeeds.secured hapart (bundle_of_installs hamong) ?_
  rw [hstart]
  exact ⟨ha.active, ha.pending⟩

theorem Driven.run (ha : Driven met a) (commands : List AgentCommand)
    (hamong : ∀ command ∈ commands, ∀ next library, AgentCommand.Installs next library command →
      Among met next library) : Driven met (machine.run a commands) := by
  induction commands generalizing a with
  | nil => exact ha
  | cons command rest ih =>
    obtain ⟨hfirst, hrest⟩ := forall_mem_cons.mp hamong
    exact ih (ha.command command hfirst) hrest

theorem fresh_pending (h : a.Fresh) : a.state.pendingProfile = none := by
  obtain ⟨_, _, _, _, _, _, _, _, _, _, rfl⟩ := h
  rfl

theorem Driven.secured (h : Driven met a) (hapart : Apart met) : Secured met a.holdings := by
  induction h with
  | @root a hfresh hprofile hlibrary hmet =>
    refine ⟨⟨⟨?_, ?_⟩, ?_⟩, fun next library hpending => ?_⟩
    · rw [show a.holdings.profile = defaultProfile from hprofile]
      exact hmet
    · rw [show a.holdings.library = .new from hlibrary]
      intro x hx
      rw [mem_singleton.mp hx]
      exact hmet
    · rw [show a.holdings.profile = defaultProfile from hprofile]
      exact closedOver_of_nil _ rfl
    · cases (fresh_pending hfresh).symm.trans hpending
  | @child parent a _ hfresh hprofile hlibrary ih =>
    refine ⟨?_, fun next library hpending => ?_⟩
    · rw [show a.holdings.profile = parent.holdings.profile from hprofile,
        show a.holdings.library = parent.holdings.library from hlibrary]
      exact ih.active
    · cases (fresh_pending hfresh).symm.trans hpending
  | command _ command hamong ih => exact (goesThrough_apply _ command).secured hapart hamong ih

theorem placeInjections_library (injections : List Injection) (callId : Option ToolCallId) (a : Agent) :
    (injections.foldl (fun a injection => a.placeInjection injection callId) a).state.behavior.library =
      a.state.behavior.library := by
  induction injections generalizing a with
  | nil => rfl
  | cons injection rest ih =>
    have hplaced : (a.placeInjection injection callId).state.behavior.library = a.state.behavior.library := by
      unfold placeInjection
      split
      · rfl
      · split <;> rfl
      · rfl
    exact (ih _).trans hplaced

theorem applyRuleOutcome_pending {a m : Agent} (hheld : m.holdings = a.holdings) {outcome : RuleOutcome}
    (callId : Option ToolCallId) {ruleId : String} {target : ProfileRef} {found : CompiledProfile}
    (hswitch : outcome.switch = some (ruleId, target)) (hfound : a.state.behavior.resolveSwitch target = some found) :
    (m.applyRuleOutcome outcome callId).1.state.pendingProfile = some (found, a.state.behavior.library) := by
  have hlibrary : m.state.behavior.library = a.state.behavior.library := congrArg Holdings.library hheld
  have hplaced := (placeInjections_library outcome.injections callId m).trans hlibrary
  simp only [applyRuleOutcome, requestSwitch, hswitch, BehaviorState.resolveSwitch] at hfound ⊢
  rw [hplaced, hfound]
  rfl

theorem pending_behaviorStop (a : Agent) (stop : RuleStop) :
    (a.behaviorStop stop).1.state.pendingProfile = a.state.pendingProfile :=
  congrArg Holdings.pending a.holdings_discardTrailing

/-- Whatever the rules of the agent switch to is in its library, and what waits switches within the library that waits
    with it. A switch that a rule asks for is found, and waits. -/
structure SwitchesResolve (a : Agent) : Prop where
  active : ∀ target ∈ a.state.behavior.profile.switchTargets,
    ∃ found, a.state.behavior.resolveSwitch target = some found
  pending : ∀ next library, a.state.pendingProfile = some (next, library) → ∀ target ∈ next.switchTargets,
    ∃ found, library.resolve target = .ok found
  asked : ∀ event tool callId ruleId target, (a.runRules event tool callId).2.2.switch = some (ruleId, target) →
    ∃ found, a.state.behavior.resolveSwitch target = some found ∧
      (a.runRules event tool callId).1.state.pendingProfile = some (found, a.state.behavior.library)
  entered : ∀ from_ : ProfileRef, ∀ ruleId target,
    (a.state.behavior.evaluateEntered from_.id).2.switch = some (ruleId, target) →
      ∃ found, a.state.behavior.resolveSwitch target = some found ∧
        (a.enteredRules from_).1.state.pendingProfile = some (found, a.state.behavior.library)

theorem resolves_of_secured {m : Agent} (h : Secured met m.holdings) : m.SwitchesResolve := by
  have hactive (target : ProfileRef) (htarget : target ∈ m.state.behavior.profile.switchTargets) :
      ∃ found, m.state.behavior.resolveSwitch target = some found := by
    obtain ⟨found, hresolve, -⟩ := h.active.closed.resolves htarget
    exact ⟨found, toOption_eq_some.mpr hresolve⟩
  refine ⟨hactive, fun next library hpending target htarget => ?_, fun event tool callId ruleId target hswitch => ?_,
    fun from_ ruleId target hswitch => ?_⟩
  · obtain ⟨found, hresolve, -⟩ := (h.pending next library hpending).closed.resolves htarget
    exact ⟨found, hresolve⟩
  · obtain ⟨found, hfound⟩ := hactive target (m.asks_evaluate event tool ruleId target hswitch)
    exact ⟨found, hfound, applyRuleOutcome_pending (m.holdings_evaluate event tool) callId hswitch hfound⟩
  · obtain ⟨found, hfound⟩ := hactive target (m.asks_evaluateEntered from_.id ruleId target hswitch)
    have hpending := applyRuleOutcome_pending (m.holdings_evaluateEntered from_.id) none hswitch hfound
    refine ⟨found, hfound, ?_⟩
    unfold enteredRules
    dsimp only
    split
    · exact (pending_behaviorStop _ _).trans hpending
    · exact hpending

end Agent

/-- Along every run, what the active profile switches to is in the agent's library and what the waiting profile switches
    to is in the library that waits with it; no switch that a rule asks for misses its target. -/
theorem switch_targets_resolve (met : CompiledProfile → Prop) (hapart : Apart met) (a : Agent) (ha : a.Driven met) :
    a.SwitchesResolve ∧
      ∀ command : AgentCommand, (∀ next library, command.Installs next library → Among met next library) →
        ∀ m, a.GoesThrough command m → m.SwitchesResolve := by
  have hsecured := ha.secured hapart
  refine ⟨Agent.resolves_of_secured hsecured, fun command hamong m hm => ?_⟩
  exact Agent.resolves_of_secured (hm.secured hapart hamong hsecured)

end

namespace Sample

section

def profileText (id name : String) (description : Option String) (rules metadata : String) : List String :=
  ["\x7b\"schema_version\":1,\"id\":\"", id, "\",\"revision\":1,\"name\":\"", name, "\""] ++
    (description.map fun text => [",\"description\":\"", text, "\""]).getD [] ++
    [",\"status\":\"published\",\"instructions\":\x7b\"mode\":\"append\",\"text\":\"\"\x7d,",
      "\"tools\":\x7b\"type\":\"inherit\"\x7d,\"tool_overrides\":\x7b\x7d,\"execution\":\x7b\x7d,\"limits\":\x7b\x7d,",
      "\"rules\":", rules, ",\"children\":\x7b\"type\":\"inherit\"\x7d,\"metadata\":", metadata, "\x7d"]

def hand : Rule := { id := "hand", on := .runStart, action := .switchProfile ⟨"author", none⟩ }

def plainProfile (id : ProfileId) (name : String) : BehaviorProfile where
  schemaVersion := behaviorSchemaVersion
  id := id
  revision := 1
  name := name

def leadProfile : BehaviorProfile :=
  { plainProfile "lead" "Lead" with rules := [hand], metadata := .string "db3cf24d89ed08b6" }

def soloProfile : BehaviorProfile := { plainProfile "solo" "Solo" with metadata := .string "d4e3bdcd97defc3b" }

/-- The libraries again, which read these profiles by their ids and write them in full. -/
local instance documents : Externals :=
  { externals with
    decodeProfile := fun document =>
      if document.get "id" == some (.string "lead") then some leadProfile
      else if document.get "id" == some (.string "solo") then some soloProfile
      else if document.get "id" == some (.string "author") then some (plainProfile "author" "Author")
      else none
    encodeProfile := fun profile =>
      let rules := if profile.rules.isEmpty then "[]" else
        "[\x7b\"id\":\"hand\",\"on\":\"RunStart\",\"do\":\x7b\"switch_profile\":\x7b\"profile\":\x7b\"id\":\"author\"\x7d\x7d\x7d\x7d]"
      (profileText profile.id profile.name profile.description rules profile.metadata.display).flatMap fun part =>
        part.toUTF8.data.toList }

def documentOf (id name : String) (rest : List (String × Value)) : Value :=
  .object ([("schema_version", .number (.posInt 1)), ("id", .string id), ("revision", .number (.posInt 1)),
    ("name", .string name)] ++ rest)

def leadDocument : Value := documentOf "lead" "Lead"
  [("rules", .array [.object [("id", .string "hand"), ("on", .string "RunStart"),
    ("do", .object [("switch_profile", .object [("profile", .object [("id", .string "author")])])])]]),
    ("metadata", .string "db3cf24d89ed08b6")]

def soloDocument : Value := documentOf "solo" "Solo" [("metadata", .string "d4e3bdcd97defc3b")]

def installLead : AgentCommand := .setBehaviorProfile leadDocument [documentOf "author" "Author" []] false

def installSolo : AgentCommand := .setBehaviorProfile soloDocument [] false

def rooted : Agent := Agent.new ⟨7⟩ ⟨1⟩ none 0 "You are helpful." (capabilities .allow)

def anyProfile : CompiledProfile → Prop := fun _ => True

theorem driven_rooted : rooted.Driven anyProfile :=
  .root ⟨⟨7⟩, ⟨1⟩, none, 0, "You are helpful.", _, defaultProfile, .new, false, {}, rfl⟩ rfl rfl trivial

theorem driven_run (commands : List AgentCommand) : (Agent.machine.run rooted commands).Driven anyProfile :=
  driven_rooted.run commands fun _ _ _ _ _ => ⟨trivial, fun _ _ => trivial⟩

def led : Agent := Agent.machine.run rooted [installLead]

def leadWaits : Agent := Agent.machine.run rooted [prompt, installLead]

def replaced : Agent := Agent.machine.run rooted [installLead, installSolo]

def compiledLead : CompiledProfile := ⟨leadProfile, contentHash leadProfile, by decide, rfl⟩

def compiledAuthor : CompiledProfile :=
  ⟨plainProfile "author" "Author", contentHash (plainProfile "author" "Author"), by decide, rfl⟩

def leadLibrary : ProfileRegistry where
  entries := [(("author", 1), ⟨compiledAuthor, .host⟩), (("lead", 1), ⟨compiledLead, .host⟩),
    (("rusty.default", 1), ⟨defaultProfile, .builtIn⟩)]
  default := none
  allowDrafts := true

theorem installBundle_lead :
    installBundle leadDocument [documentOf "author" "Author" []] = some (compiledLead, leadLibrary) := rfl

def group (p : CompiledProfile) : Prop := p = defaultProfile ∨ p = compiledLead ∨ p = compiledAuthor

theorem switches_evaluated :
    ((defaultProfile : CompiledProfile).contentHash ≠ compiledLead.contentHash ∧
      (defaultProfile : CompiledProfile).contentHash ≠ compiledAuthor.contentHash ∧
        compiledLead.contentHash ≠ compiledAuthor.contentHash) ∧
    led.state.behavior.profile.switchTargets = [⟨"author", none⟩] ∧
    ((leadWaits.state.pendingProfile.any fun p => p.1.switchTargets.contains ⟨"author", none⟩) = true ∧
      (leadWaits.state.behavior.resolveSwitch ⟨"author", none⟩).isNone = true) ∧
    replaced.state.behavior.profile.switchTargets = [⟨"author", none⟩] ∧
      (replaced.state.behavior.resolveSwitch ⟨"author", none⟩).isNone = true ∧
        (replaced.state.behavior.evaluate .runStart none).2.switch = some ("hand", ⟨"author", none⟩) := by
  decide +kernel

theorem apart_group : Apart group := by
  obtain ⟨⟨hdefaultLead, hdefaultAuthor, hleadAuthor⟩, -⟩ := switches_evaluated
  rintro p q (rfl | rfl | rfl) (rfl | rfl | rfl) hsame
  · rfl
  · exact absurd hsame hdefaultLead
  · exact absurd hsame hdefaultAuthor
  · exact absurd hsame.symm hdefaultLead
  · rfl
  · exact absurd hsame hleadAuthor
  · exact absurd hsame.symm hdefaultAuthor
  · exact absurd hsame.symm hleadAuthor
  · rfl

theorem driven_led : led.Driven group := by
  have hrooted : rooted.Driven group :=
    .root ⟨⟨7⟩, ⟨1⟩, none, 0, "You are helpful.", _, defaultProfile, .new, false, {}, rfl⟩ rfl rfl (.inl rfl)
  refine hrooted.command installLead fun next library h => ?_
  obtain ⟨rfl, rfl⟩ := Prod.mk.inj (Option.some.inj (installBundle_lead.symm.trans h))
  refine ⟨.inr (.inl rfl), ?_⟩
  simp [leadLibrary, group]

theorem switch_targets_resolve_of_lead : led.state.behavior.profile.switchTargets = [⟨"author", none⟩] ∧
    ∃ found, led.state.behavior.resolveSwitch ⟨"author", none⟩ = some found := by
  obtain ⟨-, htargets, -⟩ := switches_evaluated
  have htarget : ⟨"author", none⟩ ∈ led.state.behavior.profile.switchTargets := htargets ▸ mem_cons_self
  exact ⟨htargets, (switch_targets_resolve group apart_group led driven_led).1.active ⟨"author", none⟩ htarget⟩

/-- What waits need not switch within the agent's own library, and a profile may lose its library to another with the
    same hash: its rule then asks for a switch that misses its target. -/
theorem switch_targets_missed :
    (∃ a : Agent, a.Driven anyProfile ∧ ∃ next library, a.state.pendingProfile = some (next, library) ∧
      ∃ target ∈ next.switchTargets, a.state.behavior.resolveSwitch target = none) ∧
    ∃ a : Agent, a.Driven anyProfile ∧ ∃ target ∈ a.state.behavior.profile.switchTargets,
      a.state.behavior.resolveSwitch target = none ∧
        (a.state.behavior.evaluate .runStart none).2.switch = some ("hand", target) := by
  obtain ⟨-, -, ⟨hwaits, hunknown⟩, htargets, hmissed, hasked⟩ := switches_evaluated
  constructor
  · cases hpending : leadWaits.state.pendingProfile with
    | none =>
      rw [hpending] at hwaits
      cases hwaits
    | some p =>
      rw [hpending, any_some] at hwaits
      exact ⟨leadWaits, driven_run _, p.1, p.2, hpending, ⟨"author", none⟩, contains_iff_mem.mp hwaits,
        isNone_iff_eq_none.mp hunknown⟩
  · exact ⟨replaced, driven_run _, ⟨"author", none⟩, htargets ▸ mem_cons_self,
      isNone_iff_eq_none.mp hmissed, hasked⟩

end

end Sample

end RustyCore
