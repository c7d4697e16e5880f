import RustyCore.Store.Delivery

/-! What a subscriber gets. Events leave the commit boundary in the order of their numbers, but the channels of the
    agents are emptied one after the other, so they reach the subscriber in another order, and its filter takes a
    number below the highest one sent for a repetition. -/

namespace RustyCore

open List

def AgentStream.pending (stream : AgentStream) : List SessionEvent := stream.channel ++ stream.held.toList

namespace Delivery

/-- The events a subscriber is to receive: those committed since it subscribed, and the stored ones above the number
    it asked for. -/
def Required (d : Delivery) (sub : Subscriber) (e : SessionEvent) : Prop :=
  e ∈ d.log.drop sub.joined ∨ e ∈ d.log ∧ isDurable e.event = true ∧ ∃ n, sub.since = some n ∧ n < e.sequence

def InBacklog (d : Delivery) (sub : Subscriber) (e : SessionEvent) : Prop := sub.replayed = false ∧ e ∈ d.backlog sub

def OnItsWay (d : Delivery) (sub : Subscriber) (e : SessionEvent) : Prop :=
  (∃ k, e ∈ (d.streams k).pending) ∨ e ∈ sub.queue ∨ d.InBacklog sub e

structure ExactlyOnce (d : Delivery) : Prop where
  once : ∀ sub, d.subscriber = some sub → sub.delivered.Nodup
  kept : ∀ sub, d.subscriber = some sub → ∀ e, d.Required sub e → e ∈ sub.delivered ∨ d.OnItsWay sub e

def Overruns (capacity : Nat) (d : Delivery) (agentId : AgentId) : Prop :=
  ∃ sub e, d.subscriber = some sub ∧ (d.streams agentId).held ≠ none ∧ capacity ≤ (d.streams agentId).channel.length ∧
    (d.streams agentId).channel.head? = some e ∧ d.Required sub e ∧ e ∉ sub.delivered ∧ ¬ d.InBacklog sub e

/-- The next event to be forwarded is required and was not delivered, but its number is not above all that were
    sent. -/
def Skips (d : Delivery) : Prop :=
  ∃ sub e, d.subscriber = some sub ∧ sub.replayed = true ∧ sub.queue.head? = some e ∧ e.sequence ≤ sub.lastSent ∧
    d.Required sub e ∧ e ∉ sub.delivered

def Loses (capacity : Nat) (d : Delivery) : Input → Prop
  | .publish agentId => d.Overruns capacity agentId
  | .forward => d.Skips
  | _ => False

structure Tracked (d : Delivery) : Prop where
  logged : ∀ e ∈ d.log, e.index < d.log.length
  log : d.log.Nodup
  pending : ∀ k, ∀ e ∈ (d.streams k).pending, e.index < d.log.length ∧ e.agentId = k
  nodup : ∀ k, (d.streams k).pending.Nodup

structure Watched (d : Delivery) (sub : Subscriber) : Prop where
  queued : ∀ e ∈ sub.queue, e.index < d.log.length
  queue : sub.queue.Nodup
  apart : ∀ e ∈ sub.queue, ∀ k, e ∉ (d.streams k).pending
  sent : ∀ e ∈ sub.delivered, e.sequence ≤ sub.lastSent
  first : sub.replayed = false → sub.delivered = []
  joined : sub.joined ≤ d.log.length
  once : sub.delivered.Nodup
  kept : ∀ e, d.Required sub e → e ∈ sub.delivered ∨ d.OnItsWay sub e

structure Sound (d : Delivery) : Prop where
  tracked : Tracked d
  watched : ∀ sub, d.subscriber = some sub → Watched d sub

theorem Sound.exactlyOnce {d : Delivery} (h : Sound d) : d.ExactlyOnce :=
  ⟨fun sub hsub => (h.watched sub hsub).once, fun sub hsub => (h.watched sub hsub).kept⟩

variable {capacity : Nat} {d d' : Delivery} {sub : Subscriber} {e : SessionEvent} {a : AgentId}

theorem Sound.congr (h : Sound d) (hlog : d'.log = d.log) (hstreams : d'.streams = d.streams)
    (hsub : d'.subscriber = d.subscriber) : Sound d' := by
  obtain ⟨next, log, registered, streams, cursor, subscriber⟩ := d
  obtain ⟨next', log', registered', streams', cursor', subscriber'⟩ := d'
  dsimp only at hlog hstreams hsub
  subst hlog hstreams hsub
  refine ⟨⟨h.tracked.logged, h.tracked.log, h.tracked.pending, h.tracked.nodup⟩, fun sub hsub => ?_⟩
  have hw := h.watched sub hsub
  exact ⟨hw.queued, hw.queue, hw.apart, hw.sent, hw.first, hw.joined, hw.once, hw.kept⟩

@[simp] theorem streams_setStream_self (d : Delivery) (a : AgentId) (stream : AgentStream) :
    (d.setStream a stream).streams a = stream := if_pos rfl

theorem streams_setStream_ne (d : Delivery) {a k : AgentId} (stream : AgentStream) (h : k ≠ a) :
    (d.setStream a stream).streams k = d.streams k := if_neg h

theorem mem_backlog : e ∈ d.backlog sub ↔ e ∈ d.log ∧ isDurable e.event = true ∧ ∃ n, sub.since = some n ∧ n < e.sequence := by
  unfold backlog
  cases sub.since with
  | none => simp
  | some since => simp [eventsSince, mem_filter]

theorem pending_sublist {stream : AgentStream} (hsub : stream.pending.Sublist (d.streams a).pending) (k : AgentId) :
    ((d.setStream a stream).streams k).pending.Sublist (d.streams k).pending := by
  by_cases hk : k = a
  · subst hk
    rw [streams_setStream_self]
    exact hsub
  · rw [streams_setStream_ne d stream hk]

theorem pending_held (hnone : (d.streams a).held = none) (new : SessionEvent) (k : AgentId) :
    ((d.setStream a { d.streams a with held := some new }).streams k).pending =
      (d.streams k).pending ++ if k = a then [new] else [] := by
  by_cases hk : k = a
  · subst hk
    rw [streams_setStream_self, if_pos rfl, AgentStream.pending, AgentStream.pending, hnone]
    simp
  · rw [streams_setStream_ne d _ hk, if_neg hk, append_nil]

theorem mem_pending_held (hnone : (d.streams a).held = none) (new : SessionEvent) (k : AgentId) :
    e ∈ ((d.setStream a { d.streams a with held := some new }).streams k).pending ↔
      e ∈ (d.streams k).pending ∨ k = a ∧ e = new := by
  rw [pending_held hnone, mem_append]
  split <;> simp [*]

theorem Required.of_snoc {new : SessionEvent} (h : d'.Required sub e) (hlog : d'.log = d.log ++ [new])
    (hjoined : sub.joined ≤ d.log.length) : d.Required sub e ∨ e = new := by
  rcases h with hdrop | ⟨hmem, hdurable, habove⟩
  · rw [hlog, drop_append_of_le_length hjoined] at hdrop
    rcases mem_append.mp hdrop with hdrop | hdrop
    · exact .inl (.inl hdrop)
    · exact .inr (mem_singleton.mp hdrop)
  · rw [hlog] at hmem
    rcases mem_append.mp hmem with hmem | hmem
    · exact .inl (.inr ⟨hmem, hdurable, habove⟩)
    · exact .inr (mem_singleton.mp hmem)

theorem Sound.commit (h : Sound d) (agentId : AgentId) (event : AgentEvent) : Sound (d.commit agentId event) := by
  unfold Delivery.commit
  split
  case isFalse => exact h
  case isTrue hfree =>
    have hnone : (d.streams agentId).held = none := by simpa using hfree.2
    generalize hnew : (⟨d.log.length, agentId, d.next, event⟩ : SessionEvent) = new
    have hindex : new.index = d.log.length := by rw [← hnew]
    have hagent : new.agentId = agentId := by rw [← hnew]
    have hmem := fun k e => mem_pending_held (e := e) hnone new k
    have hnewer : ∀ {e : SessionEvent}, e.index < d.log.length → e ≠ new := by
      rintro e hlt rfl
      omega
    refine ⟨⟨?_, ?_, ?_, ?_⟩, fun sub hsub => ?_⟩
    · intro e he
      rw [length_append, length_singleton]
      rcases mem_append.mp he with he | he
      · exact (h.tracked.logged e he).trans (Nat.lt_succ_self _)
      · rw [mem_singleton.mp he, hindex]
        exact Nat.lt_succ_self _
    · refine nodup_append.mpr ⟨h.tracked.log, nodup_singleton _, ?_⟩
      intro e he f hf
      rw [mem_singleton.mp hf]
      exact hnewer (h.tracked.logged e he)
    · intro k e he
      rw [length_append, length_singleton]
      rcases (hmem k e).mp he with he | ⟨rfl, rfl⟩
      · exact ⟨(h.tracked.pending k e he).1.trans (Nat.lt_succ_self _), (h.tracked.pending k e he).2⟩
      · exact ⟨by omega, hagent⟩
    · intro k
      show (AgentStream.pending _).Nodup
      rw [pending_held hnone new k]
      split
      · refine nodup_append.mpr ⟨h.tracked.nodup k, nodup_singleton _, ?_⟩
        intro e he f hf
        rw [mem_singleton.mp hf]
        exact hnewer (h.tracked.pending k e he).1
      · rw [append_nil]
        exact h.tracked.nodup k
    · have hw := h.watched sub hsub
      have hlater : ∀ {n}, n < d.log.length → n < (d.log ++ [new]).length := by
        intro n hn
        rw [length_append]
        exact hn.trans_le (Nat.le_add_right _ _)
      refine ⟨fun e he => hlater (hw.queued e he), hw.queue, ?_, hw.sent, hw.first, ?_, hw.once, ?_⟩
      · intro e he k hin
        rcases (hmem k e).mp hin with hin | ⟨-, hsame⟩
        · exact hw.apart e he k hin
        · exact hnewer (hw.queued e he) hsame
      · exact hw.joined.trans (length_append ▸ Nat.le_add_right _ _)
      · intro e hrequired
        rcases hrequired.of_snoc rfl hw.joined with hold | rfl
        · rcases hw.kept e hold with hsent | ⟨k, hin⟩ | hin | ⟨hreplay, hin⟩
          · exact .inl hsent
          · exact .inr (.inl ⟨k, (hmem k e).mpr (.inl hin)⟩)
          · exact .inr (.inr (.inl hin))
          · obtain ⟨hlog, hrest⟩ := mem_backlog.mp hin
            exact .inr (.inr (.inr ⟨hreplay, mem_backlog.mpr ⟨mem_append_left _ hlog, hrest⟩⟩))
        · exact .inr (.inl ⟨agentId, (hmem agentId e).mpr (.inr ⟨rfl, rfl⟩)⟩)

theorem push_sublist (capacity : Nat) (channel : List SessionEvent) (e : SessionEvent) :
    (push capacity channel e).Sublist (channel ++ [e]) := by
  unfold push
  split
  · exact (tail_sublist channel).append_right [e]
  · exact List.Sublist.refl _

theorem mem_push_or {channel : List SessionEvent} {x : SessionEvent} (h : e ∈ channel ++ [x]) :
    e ∈ push capacity channel x ∨ capacity ≤ channel.length ∧ channel.head? = some e := by
  unfold push
  split
  · rename_i hfull
    rcases mem_append.mp h with h | h
    · cases channel with
      | nil => cases h
      | cons oldest rest =>
        rcases mem_cons.mp h with rfl | h
        · exact .inr ⟨hfull, rfl⟩
        · exact .inl (mem_append_left _ h)
    · exact .inl (mem_append_right _ h)
  · exact .inl h

theorem Sound.shrink (h : Sound d) {stream : AgentStream} (hsub : stream.pending.Sublist (d.streams a).pending)
    (hkept : ∀ sub, d.subscriber = some sub → ∀ e, e ∈ (d.streams a).pending → d.Required sub e →
      e ∈ stream.pending ∨ e ∈ sub.delivered ∨ d.InBacklog sub e) : Sound (d.setStream a stream) := by
  have hpending := pending_sublist hsub
  refine ⟨⟨h.tracked.logged, h.tracked.log, fun k e he => h.tracked.pending k e ((hpending k).subset he),
    fun k => (h.tracked.nodup k).sublist (hpending k)⟩, fun sub hsome => ?_⟩
  have hw := h.watched sub hsome
  refine ⟨hw.queued, hw.queue, fun e he k hin => hw.apart e he k ((hpending k).subset hin), hw.sent, hw.first, hw.joined,
    hw.once, fun e hrequired => ?_⟩
  rcases hw.kept e hrequired with hsent | ⟨k, hin⟩ | hin | hin
  · exact .inl hsent
  · by_cases hk : k = a
    · subst hk
      rcases hkept sub hsome e hin hrequired with hin | hsent | hin
      · exact .inr (.inl ⟨k, by rwa [streams_setStream_self]⟩)
      · exact .inl hsent
      · exact .inr (.inr (.inr hin))
    · exact .inr (.inl ⟨k, by rwa [streams_setStream_ne d stream hk]⟩)
  · exact .inr (.inr (.inl hin))
  · exact .inr (.inr (.inr hin))

theorem publish_cases (capacity : Nat) (d : Delivery) (a : AgentId) :
    (d.streams a).held = none ∧ d.publish capacity a = d ∨
      ∃ x, (d.streams a).held = some x ∧
        d.publish capacity a = d.setStream a ⟨none, push capacity (d.streams a).channel x⟩ ∧
        (d.streams a).pending = (d.streams a).channel ++ [x] := by
  unfold publish AgentStream.pending
  cases hheld : (d.streams a).held with
  | none => exact .inl ⟨rfl, rfl⟩
  | some x => exact .inr ⟨x, rfl, rfl, rfl⟩

theorem pending_pushed (capacity : Nat) (channel : List SessionEvent) (x : SessionEvent) :
    (⟨none, push capacity channel x⟩ : AgentStream).pending = push capacity channel x := append_nil _

theorem Sound.publish (h : Sound d) (hsafe : ¬ d.Overruns capacity a) : Sound (d.publish capacity a) := by
  rcases publish_cases capacity d a with ⟨-, heq⟩ | ⟨x, hheld, heq, hpending⟩
  · rw [heq]
    exact h
  · rw [heq]
    refine h.shrink ?_ fun sub hsome e he hrequired => ?_
    · rw [pending_pushed, hpending]
      exact push_sublist capacity _ x
    · rw [hpending] at he
      rw [pending_pushed]
      rcases @mem_push_or capacity _ _ _ he with hin | ⟨hfull, holdest⟩
      · exact .inl hin
      · by_contra hlost
        rw [not_or, not_or] at hlost
        exact hsafe ⟨sub, e, hsome, by simp [hheld], hfull, holdest, hrequired, hlost.2.1, hlost.2.2⟩

theorem Sound.not_exactlyOnce_of_overruns (h : Sound d) (hlost : d.Overruns capacity a) :
    ¬ (d.publish capacity a).ExactlyOnce := by
  obtain ⟨sub, e, hsome, hbusy, hfull, holdest, hrequired, hunsent, hbacklog⟩ := hlost
  rcases publish_cases capacity d a with ⟨hnone, -⟩ | ⟨x, hheld, heq, hpending⟩
  · exact absurd hnone hbusy
  · rw [heq]
    intro hexact
    have hw := h.watched sub hsome
    have hnodup := h.tracked.nodup a
    cases hchannel : (d.streams a).channel with
    | nil =>
      rw [hchannel] at holdest
      cases holdest
    | cons oldest rest =>
      rw [hchannel] at holdest hfull hpending
      obtain rfl := Option.some.inj holdest
      rw [hpending, cons_append, nodup_cons] at hnodup
      have hin : oldest ∈ (d.streams a).pending := by
        rw [hpending]
        exact mem_cons_self
      rcases hexact.kept sub hsome oldest hrequired with hsent | ⟨k, hk⟩ | hqueue | hback
      · exact hunsent hsent
      · by_cases hka : k = a
        · subst hka
          rw [streams_setStream_self, pending_pushed, hchannel, push, if_pos hfull] at hk
          exact hnodup.1 hk
        · rw [streams_setStream_ne d _ hka] at hk
          exact hka ((h.tracked.pending k oldest hk).2.symm.trans (h.tracked.pending a oldest hin).2)
      · exact hw.apart oldest hqueue a hin
      · exact hbacklog hback

structure Taken (d : Delivery) (a : AgentId) (x : SessionEvent) (stream : AgentStream) : Prop where
  pending : x ∈ (d.streams a).pending
  less : ∀ k, ((d.setStream a stream).streams k).pending.Sublist (d.streams k).pending
  gone : ∀ k, x ∉ ((d.setStream a stream).streams k).pending
  rest : ∀ k e, e ∈ (d.streams k).pending → e = x ∨ e ∈ ((d.setStream a stream).streams k).pending

theorem Sound.taken (h : Sound d) {x : SessionEvent} {stream : AgentStream}
    (hpending : (d.streams a).pending = x :: stream.pending) : Taken d a x stream := by
  have hin : x ∈ (d.streams a).pending := by
    rw [hpending]
    exact mem_cons_self
  have hless := pending_sublist (d := d) (a := a) (hpending ▸ sublist_cons_self x stream.pending)
  have hnodup := h.tracked.nodup a
  rw [hpending, nodup_cons] at hnodup
  refine ⟨hin, hless, fun k hk => ?_, fun k e he => ?_⟩
  · by_cases hka : k = a
    · subst hka
      rw [streams_setStream_self] at hk
      exact hnodup.1 hk
    · have hold := h.tracked.pending k x ((hless k).subset hk)
      exact hka (hold.2.symm.trans (h.tracked.pending a x hin).2)
  · by_cases hka : k = a
    · subst hka
      rw [streams_setStream_self]
      rw [hpending] at he
      exact mem_cons.mp he
    · rw [streams_setStream_ne d stream hka]
      exact .inr he

theorem Sound.poll (h : Sound d) : Sound d.poll := by
  unfold Delivery.poll
  split
  · exact h.congr rfl rfl rfl
  · rename_i agentId _
    split
    · exact h.congr rfl rfl rfl
    · rename_i x rest hchannel
      have hpending : (d.streams agentId).pending = x :: ({ d.streams agentId with channel := rest } : AgentStream).pending := by
        rw [AgentStream.pending, hchannel]
        rfl
      obtain ⟨hin, hless, hgone, hrest⟩ := h.taken hpending
      generalize ({ d.streams agentId with channel := rest } : AgentStream) = stream at hless hgone hrest
      refine ⟨⟨h.tracked.logged, h.tracked.log, fun k e he => h.tracked.pending k e ((hless k).subset he),
        fun k => (h.tracked.nodup k).sublist (hless k)⟩, fun sub' hsome => ?_⟩
      obtain ⟨sub, hsub, rfl⟩ := Option.map_eq_some_iff.mp hsome
      have hw := h.watched sub hsub
      have hfresh : x ∉ sub.queue := fun hqueue => hw.apart x hqueue agentId hin
      refine ⟨?_, ?_, ?_, hw.sent, hw.first, hw.joined, hw.once, ?_⟩
      · intro e he
        rcases mem_append.mp he with he | he
        · exact hw.queued e he
        · rw [mem_singleton.mp he]
          exact (h.tracked.pending agentId x hin).1
      · refine nodup_append.mpr ⟨hw.queue, nodup_singleton x, ?_⟩
        rintro e he f hf rfl
        rw [mem_singleton.mp hf] at he
        exact hfresh he
      · intro e he k hk
        rcases mem_append.mp he with he | he
        · exact hw.apart e he k ((hless k).subset hk)
        · rw [mem_singleton.mp he] at hk
          exact hgone k hk
      · intro e hrequired
        rcases hw.kept e hrequired with hsent | ⟨k, hk⟩ | hqueue | hback
        · exact .inl hsent
        · rcases hrest k e hk with rfl | hk
          · exact .inr (.inr (.inl (mem_append_right _ (mem_singleton_self e))))
          · exact .inr (.inl ⟨k, hk⟩)
        · exact .inr (.inr (.inl (mem_append_left _ hqueue)))
        · exact .inr (.inr (.inr hback))

theorem Sound.subscribe (h : Sound d) (since : Option Nat) : Sound (d.subscribe since) := by
  unfold Delivery.subscribe
  split
  · exact h
  · refine ⟨⟨h.tracked.logged, h.tracked.log, h.tracked.pending, h.tracked.nodup⟩, fun sub hsome => ?_⟩
    obtain rfl := Option.some.inj hsome
    refine ⟨fun e he => absurd he not_mem_nil, nodup_nil, fun e he => absurd he not_mem_nil,
      fun e he => absurd he not_mem_nil, fun _ => rfl, le_refl _, nodup_nil, fun e hrequired => ?_⟩
    rcases hrequired with hlater | hstored
    · rw [drop_length] at hlater
      cases hlater
    · exact .inr (.inr (.inr ⟨rfl, mem_backlog.mpr hstored⟩))

theorem le_foldl_max {n k : Nat} {ns : List Nat} (h : n ≤ k ∨ n ∈ ns) : n ≤ ns.foldl max k := by
  induction ns generalizing k with
  | nil => exact h.resolve_right not_mem_nil
  | cons m ns ih =>
    apply ih
    rcases h with h | h
    · exact .inl (h.trans (le_max_left k m))
    · rcases mem_cons.mp h with rfl | h
      · exact .inl (le_max_right k n)
      · exact .inr h

theorem Watched.replay (hd : Tracked d) (h : Watched d sub) (hwaiting : sub.replayed = false) :
    Watched d (d.replayBacklog sub) := by
  have hfirst := h.first hwaiting
  have hdelivered : (d.replayBacklog sub).delivered = d.backlog sub := by
    rw [replayBacklog, hfirst]
    rfl
  refine ⟨h.queued, h.queue, h.apart, ?_, ?_, h.joined, ?_, ?_⟩
  · intro e he
    rw [hdelivered] at he
    exact le_foldl_max (.inr (mem_map_of_mem he))
  · exact fun hno => absurd hno (by simp [replayBacklog])
  · rw [hdelivered]
    unfold backlog
    split
    · exact hd.log.filter _
    · exact nodup_nil
  · intro e hrequired
    rcases h.kept e hrequired with hsent | hk | hqueue | hback
    · rw [hfirst] at hsent
      cases hsent
    · exact .inr (.inl hk)
    · exact .inr (.inr (.inl hqueue))
    · rw [hdelivered]
      exact .inl hback.2

theorem forwardLive_cases (sub : Subscriber) : sub.queue = [] ∧ forwardLive sub = sub ∨
    ∃ x rest, sub.queue = x :: rest ∧
      (sub.lastSent < x.sequence ∧ forwardLive sub =
          { sub with queue := rest, lastSent := x.sequence, delivered := sub.delivered ++ [x] } ∨
        x.sequence ≤ sub.lastSent ∧ forwardLive sub = { sub with queue := rest }) := by
  unfold forwardLive freshSequence
  cases sub.queue with
  | nil => exact .inl ⟨rfl, rfl⟩
  | cons x rest =>
    refine .inr ⟨x, rest, rfl, ?_⟩
    by_cases hlt : sub.lastSent < x.sequence
    · exact .inl ⟨hlt, by simp [hlt]⟩
    · exact .inr ⟨Nat.le_of_not_lt hlt, by simp [hlt]⟩

theorem Watched.forward (h : Watched d sub) (hreplayed : sub.replayed = true)
    (hsafe : ∀ e, sub.queue.head? = some e → e.sequence ≤ sub.lastSent → d.Required sub e → e ∈ sub.delivered) :
    Watched d (forwardLive sub) := by
  rcases forwardLive_cases sub with ⟨-, heq⟩ | ⟨x, rest, hqueue, ⟨hlt, heq⟩ | ⟨hle, heq⟩⟩
  · rw [heq]
    exact h
  · have hrest : ∀ e ∈ rest, e ∈ sub.queue := fun e he => by
      rw [hqueue]
      exact mem_cons_of_mem _ he
    have hnodup := h.queue
    rw [hqueue, nodup_cons] at hnodup
    rw [heq]
    refine ⟨fun e he => h.queued e (hrest e he), hnodup.2, fun e he => h.apart e (hrest e he), ?_, ?_, h.joined, ?_, ?_⟩
    · intro e he
      rcases mem_append.mp he with he | he
      · exact (h.sent e he).trans hlt.le
      · exact (congrArg SessionEvent.sequence (mem_singleton.mp he)).le
    · exact fun hno => absurd (hreplayed.symm.trans hno) Bool.noConfusion
    · refine nodup_append.mpr ⟨h.once, nodup_singleton x, ?_⟩
      rintro e he f hf rfl
      rw [mem_singleton.mp hf] at he
      exact absurd (h.sent x he) (Nat.not_le_of_lt hlt)
    · intro e hrequired
      rcases h.kept e hrequired with hsent | hk | hin | hback
      · exact .inl (mem_append_left _ hsent)
      · exact .inr (.inl hk)
      · rw [hqueue] at hin
        rcases mem_cons.mp hin with rfl | hin
        · exact .inl (mem_append_right _ (mem_singleton_self e))
        · exact .inr (.inr (.inl hin))
      · exact .inr (.inr (.inr hback))
  · have hrest : ∀ e ∈ rest, e ∈ sub.queue := fun e he => by
      rw [hqueue]
      exact mem_cons_of_mem _ he
    have hnodup := h.queue
    rw [hqueue, nodup_cons] at hnodup
    rw [heq]
    refine ⟨fun e he => h.queued e (hrest e he), hnodup.2, fun e he => h.apart e (hrest e he), h.sent, h.first, h.joined,
      h.once, ?_⟩
    intro e hrequired
    rcases h.kept e hrequired with hsent | hk | hin | hback
    · exact .inl hsent
    · exact .inr (.inl hk)
    · rw [hqueue] at hin
      rcases mem_cons.mp hin with rfl | hin
      · exact .inl (hsafe e (by rw [hqueue]; rfl) hle hrequired)
      · exact .inr (.inr (.inl hin))
    · exact .inr (.inr (.inr hback))

theorem not_exactlyOnce_of_skips (h : Sound d) (hlost : d.Skips) : ¬ (step capacity d .forward).ExactlyOnce := by
  obtain ⟨sub, e, hsome, hreplayed, hhead, hle, hrequired, hunsent⟩ := hlost
  have hw := h.watched sub hsome
  rcases forwardLive_cases sub with ⟨hnil, -⟩ | ⟨x, rest, hqueue, ⟨hlt, -⟩ | ⟨-, heq⟩⟩
  · rw [hnil] at hhead
    cases hhead
  · rw [hqueue] at hhead
    obtain rfl := Option.some.inj hhead
    exact absurd hle (Nat.not_le_of_lt hlt)
  · rw [hqueue] at hhead
    obtain rfl := Option.some.inj hhead
    intro hexact
    have hnodup := hw.queue
    rw [hqueue, nodup_cons] at hnodup
    have hafter : (step capacity d .forward).subscriber = some { sub with queue := rest } := by
      show d.subscriber.map (fun sub => if sub.replayed then forwardLive sub else sub) = _
      rw [hsome, Option.map_some, if_pos hreplayed, heq]
    rcases hexact.kept _ hafter x hrequired with hsent | ⟨k, hk⟩ | hin | hback
    · exact hunsent hsent
    · exact hw.apart x (by rw [hqueue]; exact mem_cons_self) k hk
    · exact hnodup.1 hin
    · exact absurd (hreplayed.symm.trans hback.1) Bool.noConfusion

theorem Sound.step (h : Sound d) {i : Input} (hsafe : ¬ Loses capacity d i) : Sound (step capacity d i) := by
  cases i with
  | register agentId =>
    show Sound (if agentId ∈ d.registered then d else { d with registered := d.registered ++ [agentId] })
    split
    · exact h
    · exact h.congr rfl rfl rfl
  | commit agentId event => exact h.commit agentId event
  | publish agentId => exact h.publish hsafe
  | poll => exact h.poll
  | subscribe since => exact h.subscribe since
  | replay =>
    refine ⟨⟨h.tracked.logged, h.tracked.log, h.tracked.pending, h.tracked.nodup⟩, fun sub' hsome => ?_⟩
    obtain ⟨sub, hsub, rfl⟩ := Option.map_eq_some_iff.mp hsome
    have hw := h.watched sub hsub
    have hnext : Watched d (if sub.replayed then sub else d.replayBacklog sub) := by
      split
      · exact hw
      · rename_i hwaiting
        exact hw.replay h.tracked (by simpa using hwaiting)
    exact ⟨hnext.queued, hnext.queue, hnext.apart, hnext.sent, hnext.first, hnext.joined, hnext.once, hnext.kept⟩
  | forward =>
    refine ⟨⟨h.tracked.logged, h.tracked.log, h.tracked.pending, h.tracked.nodup⟩, fun sub' hsome => ?_⟩
    obtain ⟨sub, hsub, rfl⟩ := Option.map_eq_some_iff.mp hsome
    have hw := h.watched sub hsub
    have hnext : Watched d (if sub.replayed then forwardLive sub else sub) := by
      split
      · rename_i hreplayed
        refine hw.forward hreplayed fun e hhead hle hrequired => ?_
        by_contra hunsent
        exact hsafe ⟨sub, e, hsub, hreplayed, hhead, hle, hrequired, hunsent⟩
      · exact hw
    exact ⟨hnext.queued, hnext.queue, hnext.apart, hnext.sent, hnext.first, hnext.joined, hnext.once, hnext.kept⟩

structure Start (d : Delivery) : Prop where
  log : d.log = []
  streams : ∀ k, (d.streams k).pending = []
  subscriber : d.subscriber = none

theorem Start.sound (h : Start d) : Sound d := by
  refine ⟨⟨?_, ?_, fun k e he => ?_, fun k => ?_⟩, fun sub hsome => ?_⟩
  · rw [h.log]
    exact fun e he => absurd he not_mem_nil
  · rw [h.log]
    exact nodup_nil
  · rw [h.streams k] at he
    cases he
  · rw [h.streams k]
    exact nodup_nil
  · rw [h.subscriber] at hsome
    cases hsome

/-- A subscriber gets every required event exactly once, in every state of a run, exactly if no channel overruns
    and the filter skips nothing that was not sent. -/
theorem delivered_exactly_once_iff (capacity : Nat) (h : Start d) (inputs : List Input) :
    (machine capacity).Always ExactlyOnce d inputs ↔
      ∀ st ∈ (machine capacity).trace d inputs, ¬ Loses capacity st.pre st.input := by
  refine @Machine.always_iff _ _ _ _ Sound _ (fun st => Loses capacity st.pre st.input) (fun d i hd hsafe => hd.step hsafe)
    (fun d hd => hd.exactlyOnce) (fun d i hd hlost => ?_) _ h.sound _
  cases i with
  | publish agentId => exact hd.not_exactlyOnce_of_overruns hlost
  | forward => exact @not_exactlyOnce_of_skips capacity d hd hlost
  | _ => exact hlost.elim

def Enrolled (d : Delivery) : Prop := ∀ k, k ∉ d.registered → (d.streams k).pending = []

theorem Enrolled.setStream (h : Enrolled d) (ha : a ∈ d.registered) (stream : AgentStream) :
    Enrolled (d.setStream a stream) := by
  intro k hk
  have hne : k ≠ a := fun heq => hk (heq ▸ ha)
  rw [streams_setStream_ne d stream hne]
  exact h k hk

theorem Enrolled.step (h : Enrolled d) (i : Input) : Enrolled (step capacity d i) := by
  cases i with
  | register agentId =>
    show Enrolled (if agentId ∈ d.registered then d else { d with registered := d.registered ++ [agentId] })
    split
    · exact h
    · exact fun k hk => h k fun hin => hk (mem_append_left _ hin)
  | commit agentId event =>
    show Enrolled (d.commit agentId event)
    unfold Delivery.commit
    split
    · rename_i hfree
      exact fun k hk => h.setStream hfree.1 _ k hk
    · exact h
  | publish agentId =>
    show Enrolled (d.publish capacity agentId)
    rcases publish_cases capacity d agentId with ⟨-, heq⟩ | ⟨x, -, heq, hpending⟩
    · rw [heq]
      exact h
    · rw [heq]
      refine h.setStream ?_ _
      by_contra hout
      simp [h agentId hout] at hpending
  | poll =>
    show Enrolled d.poll
    unfold Delivery.poll
    split
    · exact h
    · rename_i agentId hat
      split
      · exact h
      · exact fun k hk => h.setStream (mem_of_getElem? hat) _ k hk
  | subscribe since =>
    show Enrolled (d.subscribe since)
    unfold Delivery.subscribe
    split <;> exact h
  | replay | forward => exact h

theorem enrolled_run (capacity : Nat) (h : Enrolled d) (inputs : List Input) :
    Enrolled ((machine capacity).run d inputs) :=
  @Machine.run_rule _ _ _ (machine capacity) Enrolled (fun _ => True) (fun _ i h _ => h.step i) d h inputs
    (fun _ _ => trivial)

end Delivery

namespace Sample

open Delivery

def writer : AgentId := ⟨1⟩

def reader : AgentId := ⟨2⟩

def opened : Delivery := { next := 1 }

theorem start_opened : opened.Start := ⟨rfl, fun _ => rfl, rfl⟩

def interleaved : List Delivery.Input :=
  [.register writer, .register reader, .subscribe none, .replay, .commit writer (.stateChanged .idle .preparingContext),
    .commit reader (.stateChanged .idle .preparingContext), .publish reader, .poll, .poll, .publish writer, .poll, .poll,
    .poll, .forward, .forward]

end Sample

section

open Sample Delivery

theorem delivered_exactly_once_iff_opened : opened.Start ∧ ((machine 256).Always ExactlyOnce opened interleaved ↔
    ∀ st ∈ (machine 256).trace opened interleaved, ¬ Loses 256 st.pre st.input) :=
  ⟨start_opened, delivered_exactly_once_iff 256 start_opened interleaved⟩

/-- The reader's event arrives first, and the filter takes the writer's for a repetition. -/
theorem late_event_is_dropped : opened.Start ∧ ¬ (machine 256).Always ExactlyOnce opened interleaved := by
  refine ⟨start_opened, fun halways => ?_⟩
  have hexact := halways interleaved [] (append_nil _).symm
  have hregistered : ((machine 256).run opened interleaved).registered = [writer, reader] := by decide
  have hpending : ∀ k ∈ [writer, reader], (((machine 256).run opened interleaved).streams k).pending.length = 0 := by
    decide
  have hstreams : ∀ k, (((machine 256).run opened interleaved).streams k).pending = [] := by
    intro k
    by_cases hk : k ∈ [writer, reader]
    · exact length_eq_zero_iff.mp (hpending k hk)
    · exact enrolled_run 256 (fun _ _ => rfl) interleaved k (by rwa [hregistered])
  have hsub : ((machine 256).run opened interleaved).subscriber.map (fun sub =>
      (sub.replayed, sub.joined, sub.queue.map (·.index), sub.delivered.map (·.index))) = some (true, 0, [], [1]) := by
    decide
  have hlog : ((machine 256).run opened interleaved).log.map (·.index) = [0, 1] := by decide
  obtain ⟨sub, hsome, hread⟩ := Option.map_eq_some_iff.mp hsub
  obtain ⟨hreplayed, hread⟩ := Prod.mk.inj hread
  obtain ⟨hjoined, hread⟩ := Prod.mk.inj hread
  obtain ⟨hqueue, hdelivered⟩ := Prod.mk.inj hread
  obtain ⟨e, he, hindex⟩ := mem_map.mp (hlog ▸ mem_cons_self : 0 ∈ _)
  rcases hexact.kept sub hsome e (.inl (by rwa [hjoined, drop_zero])) with hsent | ⟨k, hk⟩ | hin | hback
  · have hmem : e.index ∈ sub.delivered.map (·.index) := mem_map_of_mem hsent
    rw [hdelivered, hindex] at hmem
    exact absurd hmem (by decide)
  · rw [hstreams k] at hk
    cases hk
  · rw [map_eq_nil_iff.mp hqueue] at hin
    cases hin
  · exact Bool.noConfusion (hreplayed.symm.trans hback.1)

end

end RustyCore
