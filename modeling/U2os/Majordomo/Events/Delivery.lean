import U2os.Lib.Cursor
import U2os.Majordomo.Events.Bus

/-!
# Delivery without gaps

What a subscription returns is a prefix of the events of the log that match its pattern and are
past the cursor it started with, and when it returns nothing it has returned all of them that
were announced.  The channel may lose events, so the channel alone does not carry the proof.
For every subscription the invariant compares three readings of the log: what is past the
cursor, what was announced to this subscriber so far, and what its channel still holds.

## Main results

* `recvStep_live`, `trySend_live` : the two sides keep the invariant.
-/

namespace U2os.Majordomo

open List Option Bus Delivery Event EventLog Subscription

/-- The events of the log that a pattern wants. -/
def matching (pattern : String) (log : EventLog) : List Event :=
  log.events.filter fun e => matchesPattern pattern e.eventType

theorem matching_sorted (pattern : String) (log : EventLog) :
    (matching pattern log).Pairwise fun a b => a.seq < b.seq :=
  log.increasing.filter _

theorem mem_matching {pattern : String} {log : EventLog} {e : Event} :
    e ∈ matching pattern log ↔ e ∈ log.events ∧ matchesPattern pattern e.eventType = true :=
  mem_filter

theorem filter_readAfter_prefix (s : Subscription) (log : EventLog) (c limit : ℕ) :
    (log.readAfter c limit).filter s.wants <+: after seq c (matching s.pattern log) := by
  have hb : log.readAfter c limit <+: after seq c log.events := take_prefix _ _
  have hf := hb.filter s.wants
  rwa [filter_after] at hf

/-! ### One subscription -/

/-- The channel of a subscription has what was announced past its cursor, or the flag is set or
the log is going to be read before the channel.  While the thread waits for the channel the flag
alone is not enough: the channel must be full, so that the wait ends. -/
def Subscription.Synced (capacity : ℕ) (announced : List Event) (s : Subscription) : Prop :=
  match s.position with
  | .idle | .top => s.needsReplay = true ∨ s.lagged = true ∨
      after seq s.cursor s.channel = after seq s.cursor announced
  | .receive => after seq s.cursor s.channel = after seq s.cursor announced ∨
      s.lagged = true ∧ max 1 capacity ≤ s.channel.length ∧
        after seq s.cursor s.channel <+: after seq s.cursor announced
  | .drain => True
  | .refill => s.needsReplay = true

/-- A subscription that is not dropped, over the events that match its pattern and those of them
that were announced to it. -/
structure Subscription.Live (capacity : ℕ) (wanted announced : List Event) (s : Subscription) :
    Prop where
  /-- The buffer holds the next events. -/
  buffer : s.buffer <+: after seq s.cursor wanted
  /-- It is used up before anything else happens, and then the log is read again. -/
  replaying : s.buffer ≠ [] →
    (s.position = .idle ∨ s.position = .top) ∧ s.needsReplay = true
  /-- The channel holds announced events in order. -/
  channel : s.channel.Sublist announced
  synced : s.Synced capacity announced

/-- The events returned so far and those past the cursor are the ones past the start. -/
structure Subscription.Returned (start : ℕ) (log : EventLog) (got : List Event)
    (s : Subscription) : Prop where
  split : got ++ after seq s.cursor (matching s.pattern log) =
    after seq start (matching s.pattern log)
  cursor : s.cursor = start ∨ start ≤ s.cursor ∧ s.cursor ≤ log.maxSeq

section Receiving

variable {capacity start : ℕ} {log : EventLog} {got announced : List Event} {s : Subscription}

theorem Subscription.Returned.next {e : Event} {rest : List Event}
    (hs : s.Returned start log got)
    (he : e :: rest <+: after seq s.cursor (matching s.pattern log)) {t : Subscription}
    (hp : t.pattern = s.pattern) (ht : t.cursor = e.seq) : t.Returned start log (got ++ [e]) := by
  have hmem := mem_after.1 (he.subset mem_cons_self)
  refine ⟨?_, .inr ⟨?_, ?_⟩⟩
  · rw [hp, ht]
    exact append_after_next (matching_sorted _ _) hs.split he
  · rcases hs.cursor with h | h <;> omega
  · rw [ht]
    exact le_maxSeq (mem_matching.1 hmem.1).1

theorem Subscription.Returned.skip {e : Event} {c : ℕ} (hs : s.Returned start log got)
    (hb : e ∈ log.readAfter s.cursor c) (hnone : (log.readAfter s.cursor c).filter s.wants = [])
    {t : Subscription} (hp : t.pattern = s.pattern) (ht : t.cursor = e.seq) :
    t.Returned start log got := by
  obtain ⟨he, hlt⟩ := mem_readAfter hb
  -- A matching event between the two cursors would be in the batch.
  have hgap : ∀ x ∈ matching s.pattern log, s.cursor < x.seq ↔ e.seq < x.seq := by
    intro x hx
    refine ⟨fun hc => ?_, fun hc => hlt.trans hc⟩
    by_contra hle
    obtain ⟨hxl, hxm⟩ := mem_matching.1 hx
    have hxb : x ∈ log.readAfter s.cursor c :=
      mem_of_prefix_after log.increasing (List.take_prefix _ _) hb hxl hc (not_lt.1 hle)
    exact absurd hxm (by simpa [wants] using filter_eq_nil_iff.1 hnone x hxb)
  refine ⟨?_, .inr ⟨?_, ht ▸ le_maxSeq he⟩⟩
  · rw [hp, ht, ← hs.split, after_eq_after hgap]
  · rcases hs.cursor with h | h <;> omega

theorem Subscription.Live.head_prefix {wanted : List Event} (hl : s.Live capacity wanted announced)
    {e : Event} {rest : List Event} (hp : s.position = .receive)
    (hc : s.channel = e :: rest) (he : s.cursor < e.seq) :
    e :: after seq s.cursor rest <+: after seq s.cursor announced := by
  have hsync := hl.synced
  simp only [Subscription.Synced, hp, hc, after_cons_of_lt he] at hsync
  rcases hsync with heq | ⟨-, -, hpre⟩
  · rw [heq]
  · exact hpre

theorem recvStep_returned (hs : s.Returned start log got)
    (hl : s.Live capacity (matching s.pattern log) announced)
    (ha : announced <+: matching s.pattern log) :
    (s.recvStep log).1.Returned start log (got ++ (s.recvStep log).2.join.toList) := by
  have hsame : ∀ t : Subscription, t.pattern = s.pattern → t.cursor = s.cursor →
      t.Returned start log (got ++ []) := by
    intro t hp hc
    rw [append_nil]
    exact ⟨by rw [hp, hc]; exact hs.split, by rw [hc]; exact hs.cursor⟩
  cases hpos : s.position with
  | idle =>
    simp only [recvStep, hpos]
    exact hsame _ rfl rfl
  | top =>
    simp only [recvStep, hpos]
    cases hb : s.buffer with
    | cons e rest => exact hs.next (hb ▸ hl.buffer) rfl rfl
    | nil =>
      simp only
      split_ifs <;> exact hsame _ rfl rfl
  | drain =>
    simp only [recvStep, hpos]
    cases hc : s.channel <;> exact hsame _ rfl rfl
  | refill =>
    simp only [recvStep, hpos]
    split
    · exact hsame _ rfl rfl
    · rename_i hnil hlast
      have hnone := (append_eq_nil_iff.1 hnil).2
      rw [show (none : Option (Option Event)).join.toList = [] from rfl, append_nil]
      exact hs.skip (mem_of_getLast? hlast) hnone rfl rfl
    · exact hsame _ rfl rfl
  | receive =>
    simp only [recvStep, hpos]
    cases hc : s.channel with
    | nil => exact hsame _ rfl rfl
    | cons e rest =>
      simp only
      split_ifs with he
      · exact hs.next ((hl.head_prefix hpos hc he).trans (prefix_after ha)) rfl rfl
      · exact hsame _ rfl rfl

/-- A step of `recv_timeout` keeps the channel in step with what was announced. -/
theorem recvStep_live (hl : s.Live capacity (matching s.pattern log) announced)
    (ha : announced <+: matching s.pattern log) :
    (s.recvStep log).1.Live capacity (matching s.pattern log) announced := by
  have hsorted := matching_sorted s.pattern log
  -- Outside of the head of the loop the buffer is empty.
  have hempty : s.position ≠ .idle → s.position ≠ .top → s.buffer = [] := fun h₁ h₂ => by
    by_contra hne
    rcases (hl.replaying hne).1 with h | h
    · exact h₁ h
    · exact h₂ h
  have hsync := hl.synced
  cases hpos : s.position with
  | idle =>
    simp only [recvStep, hpos]
    rw [Subscription.Synced, hpos] at hsync
    exact ⟨hl.buffer, fun h => ⟨.inr rfl, (hl.replaying h).2⟩, hl.channel, hsync⟩
  | top =>
    simp only [recvStep, hpos]
    rw [Subscription.Synced, hpos] at hsync
    cases hb : s.buffer with
    | cons e rest =>
      have hrep := (hl.replaying (by simp [hb])).2
      exact ⟨prefix_after_of_cons hsorted (hb ▸ hl.buffer), fun _ => ⟨.inl rfl, hrep⟩,
        hl.channel, .inl hrep⟩
    | nil =>
      simp only
      split_ifs with hlag hrep
      · exact ⟨List.nil_prefix, fun h => absurd rfl h, hl.channel, trivial⟩
      · exact ⟨List.nil_prefix, fun h => absurd rfl h, hl.channel, hrep⟩
      · refine ⟨List.nil_prefix, fun h => absurd rfl h, hl.channel, .inl ?_⟩
        exact (hsync.resolve_left hrep).resolve_left hlag
  | drain =>
    simp only [recvStep, hpos]
    have hnil := hempty (by simp [hpos]) (by simp [hpos])
    cases hc : s.channel with
    | cons e rest =>
      have hsub := hl.channel
      rw [hc] at hsub
      exact ⟨hl.buffer, fun h => absurd hnil h, (sublist_cons_self _ _).trans hsub, trivial⟩
    | nil => exact ⟨hl.buffer, fun h => absurd hnil h, nil_sublist _, rfl⟩
  | refill =>
    simp only [recvStep, hpos]
    have hnil := hempty (by simp [hpos]) (by simp [hpos])
    rw [Subscription.Synced, hpos] at hsync
    rw [hnil, nil_append]
    split
    · rename_i hfound
      refine ⟨?_, fun _ => ⟨.inr rfl, hsync⟩, hl.channel, .inl hsync⟩
      have hpre := filter_readAfter_prefix s log s.cursor replayBatch
      rwa [hfound] at hpre
    · exact ⟨List.nil_prefix, fun h => absurd rfl h, hl.channel, hsync⟩
    · -- The log has nothing past the cursor, so neither has the channel.
      rename_i hlast
      have hend := readAfter_eq_nil.1 (getLast?_eq_none_iff.1 hlast)
      have hle : ∀ e ∈ announced, e.seq ≤ s.cursor := fun e he =>
        hend e (mem_matching.1 (ha.subset he)).1
      refine ⟨List.nil_prefix, fun h => absurd rfl h, hl.channel, .inl ?_⟩
      rw [after_eq_nil.2 hle, after_eq_nil.2 fun e he => hle e (hl.channel.subset he)]
  | receive =>
    simp only [recvStep, hpos]
    have hnil := hempty (by simp [hpos]) (by simp [hpos])
    rw [Subscription.Synced, hpos] at hsync
    cases hc : s.channel with
    | nil =>
      rw [hc] at hsync
      refine ⟨hl.buffer, fun h => absurd hnil h, nil_sublist _, ?_⟩
      exact hsync.elim (fun h => .inr (.inr h)) fun h => .inr (.inl h.1)
    | cons e rest =>
      have hsub : (e :: rest).Sublist announced := hc ▸ hl.channel
      have hrest := (sublist_cons_self e rest).trans hsub
      rw [hc] at hsync
      simp only
      split_ifs with he
      · refine ⟨hnil ▸ nil_prefix, fun h => absurd hnil h, hrest, ?_⟩
        refine hsync.elim (fun h => .inr (.inr ?_)) fun h => .inr (.inl h.1)
        -- The rest of the channel is past the event that is returned.
        have hlt := (pairwise_cons.1 ((hsorted.sublist ha.sublist).sublist hsub)).1
        rw [after_cons_of_lt he] at h
        rw [← after_eq_cons (hsorted.sublist ha.sublist) h.symm]
        exact after_eq_after fun x hx => iff_of_true (hlt x hx) (he.trans (hlt x hx))
      · refine ⟨hl.buffer, fun h => absurd hnil h, hrest, ?_⟩
        rw [after_cons_of_le (not_lt.1 he)] at hsync
        exact hsync.elim (fun h => .inr (.inr h)) fun h => .inr (.inl h.1)

end Receiving

section Offering

variable {capacity : ℕ} {wanted announced : List Event} {s : Subscription} {e : Event}

theorem Subscription.Live.grow {more : List Event} (hl : s.Live capacity wanted announced) :
    s.Live capacity (wanted ++ more) announced :=
  ⟨hl.buffer.trans (prefix_after (prefix_append _ _)), hl.replaying, hl.channel, hl.synced⟩

/-- Room in the channel takes one event more. -/
theorem Subscription.Live.push (hl : s.Live capacity wanted announced)
    (hroom : s.channel.length < max 1 capacity) :
    ({ s with channel := s.channel ++ [e] } : Subscription).Live capacity wanted
      (announced ++ [e]) := by
  refine ⟨hl.buffer, hl.replaying, hl.channel.append (Sublist.refl _), ?_⟩
  have hsync := hl.synced
  have hpush : after seq s.cursor s.channel = after seq s.cursor announced →
      after seq s.cursor (s.channel ++ [e]) =
        after seq s.cursor (announced ++ [e]) := fun h => by
    rw [after_append, after_append, h]
  unfold Subscription.Synced at hsync ⊢
  cases hp : s.position with
  | idle | top =>
    simp only [hp] at hsync ⊢
    exact hsync.imp_right (Or.imp_right hpush)
  | drain => trivial
  | refill => simpa only [hp] using hsync
  | receive =>
    simp only [hp] at hsync ⊢
    rcases hsync with h | ⟨-, hfull, -⟩
    · exact .inl (hpush h)
    · exact absurd hroom (not_lt.2 hfull)

theorem Subscription.Live.lag (hl : s.Live capacity wanted announced)
    (hfull : max 1 capacity ≤ s.channel.length) :
    ({ s with lagged := true } : Subscription).Live capacity wanted (announced ++ [e]) := by
  refine ⟨hl.buffer, hl.replaying, hl.channel.trans (sublist_append_left _ _), ?_⟩
  have hsync := hl.synced
  have hgrow : after seq s.cursor announced <+: after seq s.cursor (announced ++ [e]) :=
    prefix_after (prefix_append _ _)
  unfold Subscription.Synced at hsync ⊢
  cases hp : s.position with
  | idle | top => exact .inr (.inl rfl)
  | drain => trivial
  | refill => simpa only [hp] using hsync
  | receive =>
    simp only [hp] at hsync ⊢
    refine .inr ⟨trivial, hfull, ?_⟩
    rcases hsync with h | ⟨-, -, h⟩
    · rw [h]
      exact hgrow
    · exact h.trans hgrow

end Offering

/-! ### The announcing thread -/

/-- The subscribers that the current event was not offered to yet. -/
def Delivery.todo : Delivery → List ℕ
  | .sending _ _ todo _ => todo
  | _ => []

/-- Events below the frontier of a subscriber were announced to it. -/
def Bus.frontier (b : Bus) (k : ℕ) : ℕ :=
  if k ∈ b.delivery.todo then b.delivered else b.delivered + 1

/-- The matching events that were announced to a subscriber. -/
def Bus.announced (b : Bus) (k : ℕ) (pattern : String) : List Event :=
  below seq (b.frontier k) (matching pattern b.log)

/-- The batch in hand is what follows the last event announced. -/
def Delivery.Fits (b : Bus) : Delivery → Prop
  | .idle | .reading _ => True
  | .announcing _ batch => batch <+: after seq b.delivered b.log.events
  | .sending _ e todo batch => e ∈ b.log.events ∧ b.delivered = e.seq ∧ todo.Nodup ∧
      batch <+: after seq b.delivered b.log.events

/-- The bookkeeping of the bus. -/
structure Bus.Wf (b : Bus) : Prop where
  nodup : b.subscribers.Nodup
  /-- A subscription that is not dropped is announced to. -/
  listed : ∀ k s, b.subscription k = some s → s.dropped = false → k ∈ b.subscribers
  known : ∀ k ∈ b.subscribers, b.subscription k ≠ none
  delivered_le : b.delivered ≤ b.log.maxSeq
  fits : b.delivery.Fits b

section Announcing

variable {capacity : ℕ} {b c : Bus} {k : ℕ}

@[simp] theorem Bus.set_subscription (s : Subscription) (j : ℕ) :
    (b.set k s).subscription j = if j = k then some s else b.subscription j := by
  simp [Bus.set, Function.update_apply]

theorem Bus.Wf.set {s t : Subscription} (hw : b.Wf) (hs : b.subscription k = some s)
    (ht : t.dropped = false → s.dropped = false) : (b.set k t).Wf where
  nodup := hw.nodup
  listed j u hu hd := by
    rw [set_subscription] at hu
    split_ifs at hu with hj
    · obtain rfl := some_inj.1 hu
      exact hj ▸ hw.listed k s hs (ht hd)
    · exact hw.listed j u hu hd
  known j hj := by
    rw [set_subscription]
    split_ifs
    · simp
    · exact hw.known j hj
  delivered_le := hw.delivered_le
  fits := hw.fits

theorem Bus.Wf.deliver {d : Delivery} (hw : b.Wf) (hd : d.Fits b) : { b with delivery := d }.Wf :=
  ⟨hw.nodup, hw.listed, hw.known, hw.delivered_le, by cases d <;> exact hd⟩

theorem trySend_cases (capacity : ℕ) (b : Bus) (k : ℕ) (e : Event) :
    b.trySend capacity k e = b ∧ (∀ s, b.subscription k = some s → s.wants e = false) ∨
    ∃ s, b.subscription k = some s ∧ s.wants e = true ∧
      (s.dropped = true ∧
          b.trySend capacity k e = { b with subscribers := b.subscribers.filter (· ≠ k) } ∨
        s.dropped = false ∧ s.channel.length < max 1 capacity ∧
          b.trySend capacity k e = b.set k { s with channel := s.channel ++ [e] } ∨
        s.dropped = false ∧ max 1 capacity ≤ s.channel.length ∧
          b.trySend capacity k e = b.set k { s with lagged := true }) := by
  unfold trySend
  cases hs : b.subscription k with
  | none => exact .inl ⟨rfl, fun s h => by cases h⟩
  | some s =>
    by_cases hm : s.wants e = true
    · refine .inr ⟨s, rfl, hm, ?_⟩
      by_cases hd : s.dropped = true
      · exact .inl ⟨hd, by simp [hm, hd]⟩
      · rw [Bool.not_eq_true] at hd
        by_cases hc : s.channel.length < max 1 capacity
        · exact .inr (.inl ⟨hd, hc, by simp only [hm, hd, hc]; rfl⟩)
        · exact .inr (.inr ⟨hd, not_lt.1 hc, by simp only [hm, hd, hc]; rfl⟩)
    · rw [Bool.not_eq_true] at hm
      refine .inl ⟨by simp [hm], fun t ht => ?_⟩
      obtain rfl := some_inj.1 ht
      exact hm

theorem trySend_frame (capacity : ℕ) (b : Bus) (k : ℕ) (e : Event) :
    (b.trySend capacity k e).log = b.log ∧
    (b.trySend capacity k e).delivered = b.delivered ∧
    ∀ j ≠ k, (b.trySend capacity k e).subscription j = b.subscription j := by
  rcases trySend_cases capacity b k e with
    ⟨h, -⟩ | ⟨s, -, -, ⟨-, h⟩ | ⟨-, -, h⟩ | ⟨-, -, h⟩⟩ <;> rw [h]
  · exact ⟨rfl, rfl, fun _ _ => rfl⟩
  · exact ⟨rfl, rfl, fun _ _ => rfl⟩
  · exact ⟨rfl, rfl, fun j hj => by rw [set_subscription, if_neg hj]⟩
  · exact ⟨rfl, rfl, fun j hj => by rw [set_subscription, if_neg hj]⟩

theorem Bus.Wf.trySend (hw : b.Wf) (e : Event) : (b.trySend capacity k e).Wf := by
  rcases trySend_cases capacity b k e with
    ⟨h, -⟩ | ⟨s, hs, -, ⟨hd, h⟩ | ⟨hd, -, h⟩ | ⟨hd, -, h⟩⟩ <;> rw [h]
  · exact hw
  · refine ⟨hw.nodup.filter _, fun j t ht htd => ?_, fun j hj => ?_, hw.delivered_le, hw.fits⟩
    · have hjk : j ≠ k := by
        rintro rfl
        rw [hs] at ht
        obtain rfl := some_inj.1 ht
        rw [hd] at htd
        cases htd
      exact mem_filter.2 ⟨hw.listed j t ht htd, by simpa using hjk⟩
    · exact hw.known j (mem_filter.1 hj).1
  · exact hw.set hs fun _ => hd
  · exact hw.set hs fun _ => hd

theorem Bus.Wf.deliverStep (hw : b.Wf) : (b.deliverStep capacity).1.Wf := by
  have hfits := hw.fits
  unfold Bus.deliverStep
  cases hd : b.delivery with
  | idle => exact hw.deliver trivial
  | reading total =>
    simp only
    cases hb : b.log.readAfter b.delivered replayBatch with
    | nil => exact hw.deliver trivial
    | cons e rest => exact hw.deliver (show _ <+: _ from hb ▸ take_prefix _ _)
  | announcing total batch =>
    rw [hd] at hfits
    cases batch with
    | nil => exact hw.deliver trivial
    | cons e rest =>
      obtain ⟨he, -⟩ := mem_after.1 (hfits.subset mem_cons_self)
      exact ⟨hw.nodup, hw.listed, hw.known, EventLog.le_maxSeq he, he, rfl, hw.nodup,
        prefix_after_of_cons b.log.increasing hfits⟩
  | sending total e todo batch =>
    rw [hd] at hfits
    obtain ⟨he, hseq, hnd, hpre⟩ := hfits
    cases todo with
    | nil => exact hw.deliver hpre
    | cons k todo =>
      obtain ⟨hlog, hdel, -⟩ := trySend_frame capacity b k e
      refine (hw.trySend e).deliver ⟨hlog ▸ he, hdel.trans hseq, (nodup_cons.1 hnd).2, ?_⟩
      rwa [hlog, hdel]

theorem maxSeq_le_of_insert {log log' : EventLog} {e : Event} (h : log.insert? e = some log') :
    log.maxSeq < log'.maxSeq := by
  have hev := (insert?_eq_some.1 h).2
  have hmem : ({ e with seq := log.maxSeq + 1 } : Event) ∈ log'.events := by
    rw [hev]
    exact mem_append_right _ mem_cons_self
  exact le_maxSeq hmem

/-- An appended event comes last in the log. -/
theorem Bus.Wf.append (hw : b.Wf) {e : Event} {log : EventLog}
    (h : b.log.insert? e = some log) : { b with log := log }.Wf := by
  have hev := (insert?_eq_some.1 h).2
  have hgrow : after seq b.delivered b.log.events <+:
      after seq b.delivered log.events := by
    rw [hev]
    exact prefix_after (prefix_append _ _)
  refine ⟨hw.nodup, hw.listed, hw.known, hw.delivered_le.trans (maxSeq_le_of_insert h).le, ?_⟩
  have hfits := hw.fits
  show b.delivery.Fits _
  cases hd : b.delivery with
  | idle | reading => trivial
  | announcing total batch =>
    rw [hd] at hfits
    exact IsPrefix.trans hfits hgrow
  | sending total x todo batch =>
    rw [hd] at hfits
    refine ⟨?_, hfits.2.1, hfits.2.2.1, hfits.2.2.2.trans hgrow⟩
    show x ∈ log.events
    rw [hev]
    exact mem_append_left _ hfits.1

theorem subscribe_ok {pattern : String} {from_ : Cursor}
    (h : b.subscribe k pattern from_ = .ok c) :
    checkField "pattern" pattern = .ok () ∧ b.subscribers.length < maxSubscribers ∧
      c = { b.set k (.new b.delivered pattern from_) with
        subscribers := b.subscribers ++ [k] } := by
  unfold subscribe at h
  cases hc : checkField "pattern" pattern with
  | error e =>
    rw [hc] at h
    cases h
  | ok u =>
    rw [hc] at h
    by_cases hl : maxSubscribers ≤ b.subscribers.length
    · simp only [hl, if_true] at h
      cases h
    · simp only [hl, if_false] at h
      exact ⟨rfl, not_le.1 hl, (Except.ok.inj h).symm⟩

theorem Bus.Wf.subscribe (hw : b.Wf) (hidle : b.delivery = .idle)
    (hnone : b.subscription k = none) {pattern : String} {from_ : Cursor}
    (h : b.subscribe k pattern from_ = .ok c) : c.Wf := by
  obtain ⟨-, -, rfl⟩ := subscribe_ok h
  have hk : k ∉ b.subscribers := fun hk => hw.known k hk hnone
  refine ⟨?_, fun j t ht htd => ?_, fun j hj => ?_, hw.delivered_le, ?_⟩
  · exact nodup_append.2 ⟨hw.nodup, nodup_singleton _, fun x hx y hy =>
      fun he => hk (mem_singleton.1 hy ▸ he ▸ hx)⟩
  · simp only [set_subscription] at ht
    split_ifs at ht with hj
    · simp [hj]
    · exact mem_append_left _ (hw.listed j t ht htd)
  · simp only [set_subscription]
    split_ifs with hjk
    · simp
    · refine hw.known j ((mem_append.1 hj).resolve_right ?_)
      simpa using hjk
  · show b.delivery.Fits _
    rw [hidle]
    trivial

theorem Bus.Wf.step (hw : b.Wf) {l : BusLabel} (hst : b.Step capacity l c) : c.Wf := by
  cases hst with
  | append h => exact hw.append h
  | deliver => exact hw.deliverStep
  | deliverError _ => exact hw.deliver trivial
  | subscribe hidle hnone h => exact hw.subscribe hidle hnone h
  | receive hs hd | receiveError hs hd _ => exact hw.set hs fun _ => hd
  | drop hs _ => exact hw.set hs fun h => by cases h

theorem eventBus_wf {log : EventLog} {h : List BusLabel} (hr : (eventBus capacity log).Run h b) :
    b.Wf :=
  hr.invariant
    ⟨nodup_nil, fun _ _ h => (nomatch h), fun _ h => (nomatch h), le_rfl, trivial⟩
    fun _ _ _ hw hst => Bus.Wf.step hw hst

end Announcing

/-! ### Runs -/

/-- A subscription with its pattern, and the events it returned since it started. -/
structure Subscribed (capacity : ℕ) (k : ℕ) (pattern : String) (start : ℕ) (got : List Event)
    (b : Bus) (s : Subscription) : Prop where
  subscription : b.subscription k = some s
  pattern : s.pattern = pattern
  returned : s.Returned start b.log got
  live : s.dropped = false →
    s.Live capacity (matching s.pattern b.log) (b.announced k s.pattern)

section Following

variable {capacity k start : ℕ} {pattern : String} {got : List Event} {b c : Bus}
  {s : Subscription}

theorem announced_prefix : b.announced k pattern <+: matching pattern b.log :=
  below_prefix (matching_sorted _ _)

theorem Subscribed.change {t : Subscription} {announced : List Event}
    (hf : Subscribed capacity k pattern start got b s) (ht : c.subscription k = some t)
    (hp : t.pattern = s.pattern) (hc : t.cursor = s.cursor) (hlog : c.log = b.log)
    (ha : c.announced k s.pattern = announced)
    (hl : t.dropped = false → t.Live capacity (matching s.pattern b.log) announced) :
    Subscribed capacity k pattern start got c t := by
  refine ⟨ht, hp.trans hf.pattern, ⟨?_, ?_⟩, fun hd => ?_⟩
  · rw [hp, hc, hlog]
    exact hf.returned.split
  · rw [hc, hlog]
    exact hf.returned.cursor
  · rw [hp, hlog, ha]
    exact hl hd

theorem Subscribed.frame (hf : Subscribed capacity k pattern start got b s)
    (hs : c.subscription k = b.subscription k) (hlog : c.log = b.log)
    (ha : s.dropped = false → c.announced k s.pattern = b.announced k s.pattern) :
    Subscribed capacity k pattern start got c s :=
  hf.change (hs.trans hf.subscription) rfl rfl hlog rfl fun hd => ha hd ▸ hf.live hd

theorem Subscribed.quiet (hf : Subscribed capacity k pattern start got b s) {d : Delivery}
    (hd : d.todo = b.delivery.todo) :
    Subscribed capacity k pattern start got { b with delivery := d } s :=
  hf.frame rfl rfl fun _ => by simp only [announced, Bus.frontier, hd]

theorem recvStep_none {log : EventLog} (h : (s.recvStep log).2 = some none) :
    s.position = .receive ∧ s.channel = [] := by
  unfold recvStep at h
  split at h
  · cases h
  · split at h
    · cases h
    · split_ifs at h
  · split at h <;> cases h
  · simp only at h
    split at h <;> cases h
  · split at h
    · split_ifs at h
      cases h
    · exact ⟨by assumption, by assumption⟩

theorem recvStep_frame (log : EventLog) : (s.recvStep log).1.pattern = s.pattern ∧
    (s.recvStep log).1.dropped = s.dropped := by
  unfold recvStep
  split
  · exact ⟨rfl, rfl⟩
  · split
    · exact ⟨rfl, rfl⟩
    · split_ifs <;> exact ⟨rfl, rfl⟩
  · split <;> exact ⟨rfl, rfl⟩
  · simp only
    split <;> exact ⟨rfl, rfl⟩
  · split
    · split_ifs <;> exact ⟨rfl, rfl⟩
    · exact ⟨rfl, rfl⟩

theorem Subscribed.receive (hf : Subscribed capacity k pattern start got b s)
    (hd : s.dropped = false) : Subscribed capacity k pattern start
      (got ++ (s.recvStep b.log).2.join.toList) (b.set k (s.recvStep b.log).1)
      (s.recvStep b.log).1 := by
  obtain ⟨hp, -⟩ := recvStep_frame (s := s) b.log
  have hl := hf.live hd
  refine ⟨by rw [set_subscription, if_pos rfl], hp.trans hf.pattern,
    recvStep_returned hf.returned hl announced_prefix, fun _ => ?_⟩
  rw [hp]
  exact recvStep_live hl announced_prefix

/-- An event in the log is one that a subscriber has still to get. -/
theorem Subscribed.append (hw : b.Wf) (hf : Subscribed capacity k pattern start got b s) {e : Event}
    {log : EventLog} (h : b.log.insert? e = some log) :
    Subscribed capacity k pattern start got { b with log := log } s := by
  have hev := (insert?_eq_some.1 h).2
  have hmax := (maxSeq_le_of_insert h).le
  obtain ⟨more, hmore, hseq⟩ : ∃ more, matching s.pattern log = matching s.pattern b.log ++ more ∧
      ∀ x ∈ more, x.seq = b.log.maxSeq + 1 := by
    refine ⟨_, by rw [matching, hev, filter_append]; rfl, fun x hx => ?_⟩
    rw [mem_singleton.1 (mem_filter.1 hx).1]
  have hann : announced { b with log := log } k s.pattern = b.announced k s.pattern := by
    show below seq (b.frontier k) (matching s.pattern log) = _
    rw [hmore]
    refine below_append_of_le fun x hx => ?_
    have hle := hw.delivered_le
    rw [hseq x hx, Bus.frontier]
    split_ifs <;> omega
  refine ⟨hf.subscription, hf.pattern, ⟨?_, ?_⟩, fun hd => ?_⟩
  · show got ++ after _ _ (matching s.pattern log) = after _ _ (matching s.pattern log)
    rw [hmore]
    refine append_after_grow hf.returned.split fun x hx => ?_
    rw [hseq x hx]
    rcases hf.returned.cursor with h | h <;> omega
  · exact hf.returned.cursor.imp_right fun h => ⟨h.1, h.2.trans hmax⟩
  · show s.Live capacity (matching s.pattern log) _
    rw [hann, hmore]
    exact (hf.live hd).grow

theorem announced_next {e : Event} {batch : List Event} {log : EventLog} {d : ℕ}
    (h : e :: batch <+: after seq d log.events) :
    below seq (d + 1) (matching pattern log) =
      below seq e.seq (matching pattern log) := by
  have hd : d < e.seq := (mem_after.1 (h.subset mem_cons_self)).2
  refine below_eq_below fun x hx => ⟨fun hx' => by omega, fun hx' => ?_⟩
  by_contra hlt
  have hfirst : [e] <+: after seq d log.events := (prefix_append [e] batch).trans h
  have hmem := mem_of_prefix_after log.increasing hfirst mem_cons_self
    (mem_matching.1 hx).1 (by omega) hx'.le
  rw [mem_singleton.1 hmem] at hx'
  exact lt_irrefl _ hx'

theorem announced_succ {log : EventLog} {e : Event} (he : e ∈ log.events) :
    below seq (e.seq + 1) (matching pattern log) =
      below seq e.seq (matching pattern log) ++
        [e].filter fun x => matchesPattern pattern x.eventType := by
  rw [matching, ← filter_below, ← filter_below, below_succ log.increasing he, filter_append]

theorem Subscribed.offer (hf : Subscribed capacity k pattern start got b s) {total : ℕ} {e : Event}
    {todo : List ℕ} {rest : List Event} (hd : b.delivery = .sending total e (k :: todo) rest)
    (he : e ∈ b.log.events) (hseq : b.delivered = e.seq) (hk : k ∉ todo) :
    ∃ t, Subscribed capacity k pattern start got
      { b.trySend capacity k e with delivery := .sending total e todo rest } t := by
  have hbefore : b.announced k s.pattern = below Event.seq e.seq (matching s.pattern b.log) := by
    rw [Bus.announced, Bus.frontier, hd, if_pos (show k ∈ Delivery.todo _ from
      mem_cons_self), hseq]
  -- Whatever the offer does to the bus, the event now counts as announced.
  have hafter : ∀ c : Bus, c.log = b.log → c.delivered = b.delivered →
      c.delivery = .sending total e todo rest →
      c.announced k s.pattern = b.announced k s.pattern ++ [e].filter s.wants := by
    intro c hlog hdel hsend
    rw [hbefore, Bus.announced, Bus.frontier, hsend,
      if_neg (show k ∉ Delivery.todo (.sending total e todo rest) from hk), hlog, hdel, hseq]
    exact announced_succ he
  rcases trySend_cases capacity b k e with
    ⟨h, hm⟩ | ⟨u, hu, hm, hcase⟩
  · refine ⟨s, hf.frame (by rw [h]) (by rw [h]) fun _ => ?_⟩
    rw [hafter _ (by rw [h]) (by rw [h]) rfl,
      filter_eq_nil_iff.2 (by simp [hm s hf.subscription]), append_nil]
  · obtain rfl := some_inj.1 (hu.symm.trans hf.subscription)
    have hone : [e].filter u.wants = [e] := by simp [hm]
    rw [hone] at hafter
    rcases hcase with ⟨hdrop, h⟩ | ⟨hlive, hroom, h⟩ | ⟨hlive, hfull, h⟩ <;> rw [h]
    · exact ⟨u, hf.frame rfl rfl fun hlive => by rw [hdrop] at hlive; cases hlive⟩
    · exact ⟨_, hf.change ((Bus.set_subscription _ k).trans (if_pos rfl)) rfl rfl rfl
        (hafter _ rfl rfl rfl) fun _ => (hf.live hlive).push hroom⟩
    · exact ⟨_, hf.change ((Bus.set_subscription _ k).trans (if_pos rfl)) rfl rfl rfl
        (hafter _ rfl rfl rfl) fun _ => (hf.live hlive).lag hfull⟩

/-- Delivery hands an event to a subscriber, or marks that it lags. -/
theorem Subscribed.deliverStep (hw : b.Wf) (hf : Subscribed capacity k pattern start got b s) :
    ∃ t, Subscribed capacity k pattern start got (b.deliverStep capacity).1 t := by
  have hfits := hw.fits
  unfold Bus.deliverStep
  cases hd : b.delivery with
  | idle => exact ⟨s, hf.quiet (by rw [hd]; rfl)⟩
  | reading total =>
    simp only
    cases hb : b.log.readAfter b.delivered replayBatch with
    | nil | cons e rest => exact ⟨s, hf.quiet (by rw [hd]; rfl)⟩
  | announcing total batch =>
    rw [hd] at hfits
    cases batch with
    | nil => exact ⟨s, hf.quiet (by rw [hd]; rfl)⟩
    | cons e rest =>
      refine ⟨s, hf.frame rfl rfl fun hlive => ?_⟩
      -- The subscription is one of those the event is offered to, and has not got it yet.
      have hk := hw.listed k s hf.subscription hlive
      show below _ (Bus.frontier _ _) _ = below _ (Bus.frontier _ _) _
      rw [Bus.frontier, Bus.frontier, hd,
        if_pos (show k ∈ Delivery.todo (.sending (total + 1) e b.subscribers rest) from hk),
        if_neg (show k ∉ Delivery.todo (.announcing total (e :: rest)) from not_mem_nil)]
      exact (announced_next hfits).symm
  | sending total e todo batch =>
    rw [hd] at hfits
    obtain ⟨he, hseq, hnd, hpre⟩ := hfits
    cases todo with
    | nil => exact ⟨s, hf.quiet (by rw [hd]; rfl)⟩
    | cons j todo =>
      by_cases hjk : j = k
      · subst hjk
        exact hf.offer hd he hseq (nodup_cons.1 hnd).1
      · obtain ⟨hlog, hdel, hsub⟩ := trySend_frame capacity b j e
        refine ⟨s, hf.frame (hsub k (Ne.symm hjk)) hlog fun _ => ?_⟩
        have hmem : k ∈ j :: todo ↔ k ∈ todo := by simp [Ne.symm hjk]
        simp only [Bus.announced, Bus.frontier, hd, Delivery.todo, hmem, hlog, hdel]

theorem Subscribed.set_of_ne (hf : Subscribed capacity k pattern start got b s) {j : ℕ}
    {t : Subscription} (hj : k ≠ j) : Subscribed capacity k pattern start got (b.set j t) s :=
  hf.frame ((set_subscription t k).trans (if_neg hj)) rfl fun _ => rfl

theorem returned_receive_self (r : Option (Option Event)) :
    BusLabel.returned k (.receive k r) = r.join := by
  rcases r with _ | _ | e <;> simp [BusLabel.returned]

theorem returned_receive_of_ne {j : ℕ} (hj : k ≠ j) (r : Option (Option Event)) :
    BusLabel.returned k (.receive j r) = none := by
  rcases r with _ | _ | e <;> simp [BusLabel.returned, Ne.symm hj]

/-- A subscriber gets what comes next for it, at every step. -/
theorem Subscribed.step (hw : b.Wf) (hf : Subscribed capacity k pattern start got b s)
    {l : BusLabel} (hst : b.Step capacity l c) :
    ∃ t, Subscribed capacity k pattern start (got ++ (l.returned k).toList) c t := by
  have hsilent : ∀ t, Subscribed capacity k pattern start got c t →
      ∃ t, Subscribed capacity k pattern start (got ++ []) c t := fun t ht => by
    rw [append_nil]
    exact ⟨t, ht⟩
  cases hst with
  | append h => exact hsilent s (hf.append hw h)
  | deliver =>
    obtain ⟨t, ht⟩ := hf.deliverStep hw
    exact hsilent t ht
  | deliverError hd => exact hsilent s (hf.quiet (by rw [hd]; rfl))
  | @subscribe j p f _ hidle hnone h =>
    obtain ⟨-, -, rfl⟩ := subscribe_ok h
    have hj : k ≠ j := by
      rintro rfl
      rw [hf.subscription] at hnone
      cases hnone
    exact hsilent s (hf.frame ((set_subscription _ k).trans (if_neg hj)) rfl fun _ => rfl)
  | @receive j u hu hd =>
    by_cases hj : k = j
    · subst hj
      obtain rfl := some_inj.1 (hu.symm.trans hf.subscription)
      refine ⟨(u.recvStep b.log).1, ?_⟩
      rw [returned_receive_self]
      exact hf.receive hd
    · rw [returned_receive_of_ne hj]
      exact hsilent s (hf.set_of_ne hj)
  | @receiveError j u _ hu hd hpos =>
    by_cases hj : k = j
    · subst hj
      obtain rfl := some_inj.1 (hu.symm.trans hf.subscription)
      refine hsilent _ (hf.change ((set_subscription _ k).trans (if_pos rfl)) rfl rfl rfl rfl
        fun _ => ?_)
      have hl := hf.live hd
      have hrep : u.needsReplay = true := by
        have hsync := hl.synced
        rwa [Subscription.Synced, hpos] at hsync
      exact ⟨hl.buffer, fun _ => ⟨.inl rfl, hrep⟩, hl.channel, .inl hrep⟩
    · exact hsilent s (hf.set_of_ne hj)
  | @drop j u hu hpos =>
    by_cases hj : k = j
    · subst hj
      obtain rfl := some_inj.1 (hu.symm.trans hf.subscription)
      exact hsilent _ (hf.change ((set_subscription _ k).trans (if_pos rfl)) rfl rfl rfl rfl
        fun h => by cases h)
    · exact hsilent s (hf.set_of_ne hj)

theorem subscribed_start (hidle : b.delivery = .idle) {from_ : Cursor}
    (h : b.subscribe k pattern from_ = .ok c) :
    Subscribed capacity k pattern (from_.seq b.delivered) [] c
      (.new b.delivered pattern from_) := by
  obtain ⟨-, -, rfl⟩ := subscribe_ok h
  refine ⟨(set_subscription _ k).trans (if_pos rfl), rfl, ⟨rfl, .inl rfl⟩, fun _ =>
    ⟨List.nil_prefix, fun h => absurd rfl h, nil_sublist _, ?_⟩⟩
  cases from_ with
  | start | past => exact .inl rfl
  | now =>
    refine .inr (.inr ?_)
    rw [eq_comm, show channel (.new b.delivered pattern .now) = [] from rfl,
      after_nil, after_eq_nil]
    intro e he
    have hlt : e.seq < b.frontier k := (mem_below.1 he).2
    rw [Bus.frontier, hidle, if_neg (show k ∉ todo .idle from not_mem_nil)] at hlt
    exact Nat.le_of_lt_succ hlt

theorem received_append {h : List BusLabel} {l : BusLabel} :
    received k (h ++ [l]) = received k h ++ (l.returned k).toList := by
  rw [received, filterMap_append]
  cases hl : l.returned k <;> simp [hl, received]

/-- **Gap-free delivery.**  After any run that follows the start of a subscription, the events
it returned are, in order, a prefix of the events of the log that match its pattern and are past
the cursor it started with; and when `recv_timeout` is about to return nothing while nothing is
being announced, every such event that was announced has been returned. -/
theorem gap_free_delivery (capacity : ℕ) (log : EventLog) (h₁ : List BusLabel) (b₁ : Bus) (k : ℕ)
    (pattern : String) (from_ : Cursor) (b₂ : Bus) (h₂ : List BusLabel) (b₃ : Bus)
    (hr : (eventBus capacity log).Run h₁ b₁)
    (hsub : (eventBus capacity log).step b₁ (.subscribe k pattern from_) b₂)
    (hs : (eventBus capacity log).Steps b₂ h₂ b₃) :
    received k h₂ <+: after seq (from_.seq b₁.delivered) (matching pattern b₃.log) ∧
      ∀ b₄, (eventBus capacity log).step b₃ (.receive k (some none)) b₄ → b₃.delivery = .idle →
        ∀ e ∈ matching pattern b₃.log, from_.seq b₁.delivered < e.seq → e.seq ≤ b₃.delivered →
          e ∈ received k h₂ := by
  have hstart : ∃ t, Subscribed capacity k pattern (from_.seq b₁.delivered) [] b₂ t := by
    cases hsub with
    | subscribe hidle _ h => exact ⟨_, subscribed_start hidle h⟩
  obtain ⟨s, hf⟩ :
      ∃ t, Subscribed capacity k pattern (from_.seq b₁.delivered) (received k h₂) b₃ t :=
    hs.history (I := fun h b => ∃ t, Subscribed capacity k pattern _ (received k h) b t) hstart
      fun h b l c hb hi hst => by
        obtain ⟨t, ht⟩ := hi
        rw [received_append]
        exact ht.step (eventBus_wf ((hr.snoc hsub).append hb)) hst
  obtain rfl := hf.pattern
  refine ⟨⟨_, hf.returned.split⟩, fun b₄ hnone hidle e he hlt hle => ?_⟩
  obtain ⟨hpos, hchan, hd⟩ : s.position = .receive ∧ s.channel = [] ∧ s.dropped = false := by
    generalize hl : BusLabel.receive k (some none) = l at hnone
    cases hnone with
    | receive hu hd =>
      obtain ⟨rfl, hres⟩ := BusLabel.receive.inj hl
      obtain rfl := some_inj.1 (hu.symm.trans hf.subscription)
      obtain ⟨hpos, hchan⟩ := recvStep_none hres.symm
      exact ⟨hpos, hchan, hd⟩
    | _ => cases hl
  -- The channel is empty, not full, so it has all that was announced past the cursor: nothing.
  have hsync := (hf.live hd).synced
  rw [Subscription.Synced, hpos, hchan] at hsync
  have hnil : after seq s.cursor (b₃.announced k s.pattern) = [] := by
    rcases hsync with h | ⟨-, hfull, -⟩
    · exact h.symm
    · exact absurd (le_trans (le_max_left 1 capacity) hfull) (by simp)
  have hcursor : e.seq ≤ s.cursor := by
    refine after_eq_nil.1 hnil e (mem_below.2 ⟨he, ?_⟩)
    rw [Bus.frontier, hidle, if_neg (show k ∉ todo .idle from not_mem_nil)]
    exact Nat.lt_succ_of_le hle
  have hall : e ∈ received k h₂ ++ after seq s.cursor (matching s.pattern b₃.log) := by
    rw [hf.returned.split]
    exact mem_after.2 ⟨he, hlt⟩
  exact (mem_append.1 hall).resolve_right fun h => absurd (mem_after.1 h).2 (not_lt.2 hcursor)

end Following

/-! ### Schedules -/

/-- A turn of one of the parties. -/
inductive Turn where
  | append (e : Event)
  | deliver
  | receive (k : ℕ)

/-- The step a turn makes, and the bus after it. -/
def Bus.turn (capacity : ℕ) (b : Bus) : Turn → Option (BusLabel × Bus)
  | .append e => (b.log.insert? e).map fun log => (.append e, { b with log := log })
  | .deliver => some (.deliver (b.deliverStep capacity).2, (b.deliverStep capacity).1)
  | .receive k => ((b.subscription k).filter fun s => !s.dropped).map fun s =>
      (.receive k (s.recvStep b.log).2, b.set k (s.recvStep b.log).1)

/-- The steps of a schedule, and the bus after it. -/
def Bus.turns (capacity : ℕ) (b : Bus) : List Turn → Option (List BusLabel × Bus)
  | [] => some ([], b)
  | t :: ts => (b.turn capacity t).bind fun (l, c) =>
      (c.turns capacity ts).map fun (h, d) => (l :: h, d)

theorem step_of_turn {capacity : ℕ} {log : EventLog} {b c : Bus} {t : Turn} {l : BusLabel}
    (h : b.turn capacity t = some (l, c)) : (eventBus capacity log).step b l c := by
  cases t with
  | append e =>
    obtain ⟨log, hlog, ⟨⟩⟩ := map_eq_some_iff.1 h
    exact .append hlog
  | deliver =>
    cases h
    exact .deliver
  | receive k =>
    obtain ⟨s, hs, ⟨⟩⟩ := map_eq_some_iff.1 h
    obtain ⟨hs, hd⟩ := filter_eq_some_iff.1 hs
    exact .receive hs (by simpa using hd)

theorem steps_of_turns {capacity : ℕ} {log : EventLog} {b c : Bus} {ts : List Turn}
    {h : List BusLabel} (hts : b.turns capacity ts = some (h, c)) :
    (eventBus capacity log).Steps b h c := by
  induction ts generalizing b h with
  | nil =>
    cases hts
    exact .nil
  | cons t ts ih =>
    obtain ⟨⟨l, d⟩, hl, hts⟩ := bind_eq_some_iff.1 hts
    obtain ⟨⟨h, _⟩, hh, ⟨⟩⟩ := map_eq_some_iff.1 hts
    exact Machine.Steps.cons (step_of_turn hl) (ih hh)

/-- A note of the owner. -/
def sampleNote (id : String) (seq : ℕ) : Event :=
  { eventType := "note.added", source := "owner", seq, id, tsMs := 0 }

/-- Two events are announced while the channel has room for one.  The call that finds the flag set
empties the channel, reads both from the log and returns the first; the next two calls return the
second and nothing, of the last of which the final step is left out. -/
def laggedTurns : List Turn :=
  [.append (sampleNote "e1" 0), .append (sampleNote "e2" 0)] ++ .replicate 10 .deliver ++
    .replicate 11 (.receive 0)

/-- A subscription to notes, over an empty log. -/
def subscribedBus : Bus :=
  { (eventBus 1 .empty).init.set 0 (.new 0 "note.*" .now) with subscribers := [0] }

/-- The event that did not fit is returned, and then `recv_timeout` returns nothing. -/
theorem gap_free_delivery_lagged : ∃ h b, subscribedBus.turns 1 laggedTurns = some (h, b) ∧
    received 0 h = [sampleNote "e1" 1, sampleNote "e2" 2] ∧
    received 0 h <+: after seq 0 (matching "note.*" b.log) ∧
    ∀ e ∈ matching "note.*" b.log, 0 < e.seq → e.seq ≤ b.delivered → e ∈ received 0 h := by
  have hsub : (eventBus 1 .empty).step (eventBus 1 .empty).init
      (.subscribe 0 "note.*" .now) subscribedBus := .subscribe rfl rfl rfl
  obtain ⟨h, b, hb, hgot, hnone, hidle⟩ : ∃ h b, subscribedBus.turns 1 laggedTurns = some (h, b) ∧
      received 0 h = [sampleNote "e1" 1, sampleNote "e2" 2] ∧
      (∃ c, b.turn 1 (.receive 0) = some (.receive 0 (some none), c)) ∧ b.delivery = .idle :=
    ⟨_, _, rfl, rfl, ⟨_, rfl⟩, rfl⟩
  obtain ⟨c, hc⟩ := hnone
  obtain ⟨hread, hall⟩ := gap_free_delivery 1 .empty [] _ 0 "note.*" .now _ h b
    Machine.Steps.nil hsub (steps_of_turns hb)
  exact ⟨h, b, hb, hgot, hread, hall c (step_of_turn hc) hidle⟩

end U2os.Majordomo
