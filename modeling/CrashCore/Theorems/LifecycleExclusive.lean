import CrashCore.Delivery.OutboxLifecycle
import Mathlib.Data.List.Nodup
import Mathlib.Data.List.Perm.Subperm
import Mathlib.Tactic.Common

/-! One live copy per key under leases. The law holds as long as no worker completes an item whose lease was
recovered: recovery puts the item back under a new id, and neither completion looks at the lease.

The invariant has three parts: the keys of the live copies (`Keys`), the ids of the queue, the leases and
the held items (`Ids`), and the closed history. During a recovery the expired items are in no container;
their keys are the `extra` ones. -/

namespace CrashCore
namespace LifecycleCalls
open Outbox OutboxLifecycle Transition

variable {s t : State} {l l' : OutboxLifecycle} {o : Outbox} {w : String} {item : OutboxItem} {signal : Signal}
  {now : TimestampMs} {error key : String} {extra extra' : List String} {history history' : List Event}
  {held held' : List (String × OutboxItem)} {id : Nat}

/-! ### Keys -/

/-- The keys of the live copies are distinct, reserved, and not yet delivered. -/
structure Keys (l : OutboxLifecycle) (extra : List String) (history : List Event) : Prop where
  nodup : (liveKeys l ++ extra).Nodup
  reserved : ∀ k ∈ liveKeys l ++ extra, k ∈ l.outbox.pendingKeys
  fresh : ∀ k ∈ liveKeys l ++ extra, Event.delivered k ∉ history

/-- Live copies may go away as long as the keys of the others stay reserved and undelivered. -/
theorem Keys.of_subperm (h : Keys l extra history)
    (hsub : (liveKeys l' ++ extra').Subperm (liveKeys l ++ extra))
    (hpend : ∀ k ∈ liveKeys l' ++ extra', k ∈ l.outbox.pendingKeys → k ∈ l'.outbox.pendingKeys)
    (hhist : ∀ k ∈ liveKeys l' ++ extra', Event.delivered k ∉ history → Event.delivered k ∉ history') :
    Keys l' extra' history' where
  nodup := by
    obtain ⟨keys, hperm, hsublist⟩ := hsub
    exact hperm.nodup_iff.mp (h.nodup.sublist hsublist)
  reserved := fun k hk => hpend k hk (h.reserved k (hsub.subset hk))
  fresh := fun k hk => hhist k hk (h.fresh k (hsub.subset hk))

/-- The live keys with a changed outbox. -/
theorem liveKeys_outbox (l : OutboxLifecycle) (o : Outbox) :
    liveKeys { l with outbox := o } = o.items.map (·.dedupeKey) ++ l.inFlight.map (·.dedupeKey) := rfl

theorem Keys.publish (now : TimestampMs) (h : Keys l extra history)
    (hok : Event.delivered signal.dedupeKey ∈ history → l.outbox.Knows signal.dedupeKey) :
    Keys { l with outbox := (l.outbox.publish signal now).1 } extra history := by
  have hsame : SameKeys l.outbox (l.outbox.publish signal now).1 →
      Keys { l with outbox := (l.outbox.publish signal now).1 } extra history := by
    intro hs
    have hkeys : liveKeys { l with outbox := (l.outbox.publish signal now).1 } = liveKeys l := by
      rw [liveKeys_outbox, hs.items]
      rfl
    exact h.of_subperm (by rw [hkeys]) (fun k _ hk => hs.pending ▸ hk) (fun k _ hk => hk)
  rcases l.outbox.publish_cases signal now with ⟨-, -, hs⟩ | ⟨-, -, -, hs⟩ | ⟨ha, -, hitems, hpend, -⟩
  · exact hsame hs
  · exact hsame hs
  · have hnew : signal.dedupeKey ∉ liveKeys l ++ extra := fun hk => ha.1 (.inr (h.reserved _ hk))
    have hperm : (liveKeys { l with outbox := (l.outbox.publish signal now).1 } ++ extra).Perm
        (signal.dedupeKey :: (liveKeys l ++ extra)) := by
      rw [liveKeys_outbox, hitems, List.map_append, List.append_assoc, List.append_assoc]
      exact List.perm_middle.trans (by simp [liveKeys, freshItem])
    refine ⟨hperm.nodup_iff.mpr (List.nodup_cons.mpr ⟨hnew, h.nodup⟩), fun k hk => ?_, fun k hk => ?_⟩
    · show k ∈ (l.outbox.publish signal now).1.pendingKeys
      rw [hpend, Finset.mem_insert]
      exact (List.mem_cons.mp (hperm.subset hk)).imp id (h.reserved k)
    · rcases List.mem_cons.mp (hperm.subset hk) with rfl | hk
      · exact fun hd => ha.1 (hok hd)
      · exact h.fresh k hk

/-- A claim turns the head of the queue into an item in flight. -/
theorem Keys.claimWithLease (h : Keys l extra history) (hc : l.claimWithLease w now = some (item, l')) :
    Keys l' extra (history ++ [.handedOut item.dedupeKey]) ∧ .delivered item.dedupeKey ∉ history := by
  obtain ⟨⟨claimed, o⟩, hclaim, heq⟩ := Option.map_eq_some_iff.mp hc
  cases heq
  obtain ⟨head, hitems, rfl, hpend, -⟩ := Outbox.claim_eq_some hclaim
  have hlive : liveKeys l ++ extra =
      head.dedupeKey :: (o.items.map (·.dedupeKey) ++ (l.inFlight.map (·.dedupeKey) ++ extra)) := by
    simp [liveKeys, hitems]
  refine ⟨h.of_subperm ?_ (fun k _ hk => hpend ▸ hk) (fun k _ hk => ?_), h.fresh head.dedupeKey (by simp [hlive])⟩
  · rw [hlive]
    have hrest := ((List.filter_sublist (p := fun x => decide (x.id ≠ head.id)) (l := l.inFlight)).map
      (·.dedupeKey)).subperm
    refine List.Subperm.trans (List.Perm.subperm ?_)
      ((List.subperm_cons _).mpr ((List.subperm_append_left _).mpr ((List.subperm_append_right extra).mpr hrest)))
    simp only [liveKeys, List.map_append, List.map_cons, List.map_nil, List.append_assoc, List.cons_append,
      List.nil_append]
    rw [← List.append_assoc, ← List.append_assoc (o.items.map _)]
    exact List.perm_middle
  · simp [hk]

/-- An erased lease takes its item out of the ones in flight. -/
theorem Keys.eraseLease (h : Keys l extra history) (hm : item ∈ l.inFlight) :
    Keys (l.eraseLease item.id) (item.dedupeKey :: extra) history := by
  obtain ⟨items, hperm, hsub⟩ : (item :: l.inFlight.filter (·.id ≠ item.id)).Subperm l.inFlight :=
    List.cons_subperm_of_not_mem_of_mem (by simp) hm List.filter_sublist.subperm
  have hkeys : (item.dedupeKey :: (l.inFlight.filter (·.id ≠ item.id)).map (·.dedupeKey)).Subperm
      (l.inFlight.map (·.dedupeKey)) := ⟨items.map (·.dedupeKey), hperm.map _, hsub.map _⟩
  refine h.of_subperm (List.Subperm.trans (List.Perm.subperm ?_)
    ((List.subperm_append_right extra).mpr ((List.subperm_append_left (l.outbox.items.map (·.dedupeKey))).mpr hkeys)))
    (fun k _ hk => hk) (fun k _ hk => hk)
  show (l.outbox.items.map (·.dedupeKey) ++ (l.inFlight.filter (·.id ≠ item.id)).map (·.dedupeKey) ++
    item.dedupeKey :: extra).Perm _
  rw [List.append_assoc, List.append_assoc]
  exact List.perm_middle.append_left _

theorem Keys.eraseLease_subset (h : Keys l extra history) (id : Nat) : Keys (l.eraseLease id) extra history := by
  refine h.of_subperm ?_ (fun k _ hk => hk) (fun k _ hk => hk)
  refine (List.subperm_append_right extra).mpr ((List.subperm_append_left _).mpr ?_)
  exact (List.filter_sublist.map _).subperm

theorem Keys.notMem (h : Keys l (key :: extra) history) : key ∉ liveKeys l ++ extra :=
  (List.nodup_cons.mp (List.nodup_middle.mp h.nodup)).1

theorem Keys.drop (h : Keys l (key :: extra) history) : Keys l extra history :=
  h.of_subperm ((List.subperm_append_left _).mpr (List.sublist_cons_self key extra).subperm)
    (fun _ _ hk => hk) (fun _ _ hk => hk)

/-- The outbox keeps its items and releases the key of none of the live copies. -/
theorem Keys.release (h : Keys l extra history) (hn : key ∉ liveKeys l ++ extra) (hitems : o.items = l.outbox.items)
    (hpend : o.pendingKeys = l.outbox.pendingKeys.erase key)
    (hhist : ∀ k, k ≠ key → Event.delivered k ∈ history' → Event.delivered k ∈ history) :
    Keys { l with outbox := o } extra history' := by
  have hlive : liveKeys { l with outbox := o } = liveKeys l := by
    rw [liveKeys_outbox, hitems]
    rfl
  have hne : ∀ k ∈ liveKeys { l with outbox := o } ++ extra, k ≠ key := by
    intro k hk heq
    rw [hlive] at hk
    exact hn (heq ▸ hk)
  refine h.of_subperm (by rw [hlive]) (fun k hk hp => ?_) (fun k hk hd hd' => hd (hhist k (hne k hk) hd'))
  show k ∈ o.pendingKeys
  rw [hpend, Finset.mem_erase]
  exact ⟨hne k hk, hp⟩

theorem Keys.markDelivered (item : OutboxItem) (now : TimestampMs) (h : Keys l (item.dedupeKey :: extra) history) :
    Keys { l with outbox := (l.outbox.markDelivered item now).1 } extra
      (history ++ [.delivered item.dedupeKey]) :=
  h.drop.release h.notMem markDelivered_items markDelivered_pending fun k hk hd => by simpa [hk] using hd

theorem Keys.markFailed (item : OutboxItem) (error : String) (h : Keys l (item.dedupeKey :: extra) history) :
    Keys { l with outbox := (l.outbox.markFailed item error).1 } extra history := by
  by_cases hl : LastAttempt item
  · obtain ⟨hitems, -, hpend⟩ := Outbox.markFailed_dead l.outbox error hl
    exact h.drop.release h.notMem hitems hpend fun _ _ hd => hd
  · obtain ⟨hpend, ⟨-, hitems⟩ | ⟨-, hitems⟩, -⟩ := Outbox.markFailed_requeue l.outbox error hl
    · refine h.of_subperm (List.Perm.subperm ?_) (fun k _ hk => hpend ▸ hk) (fun _ _ hk => hk)
      rw [liveKeys_outbox, hitems, List.map_append, List.append_assoc, List.append_assoc, liveKeys,
        List.append_assoc]
      refine List.Perm.append_left _ ?_
      simp only [failedItem, List.map_cons, List.map_nil, List.cons_append, List.nil_append]
      exact List.perm_middle.symm
    · -- The queue was full: the copy is gone.
      refine h.drop.of_subperm ?_ (fun k _ hk => hpend ▸ hk) (fun _ _ hk => hk)
      rw [liveKeys_outbox, hitems]
      exact List.Subperm.refl _

/-! ### Ids -/

/-- The ids in the queue are distinct, no held item has one of them, and a held item whose id has a lease is
    the one in flight under it. -/
structure Ids (l : OutboxLifecycle) (held : List (String × OutboxItem)) : Prop where
  queued : (l.outbox.items.map (·.id)).Nodup
  below : ∀ i ∈ l.outbox.items.map (·.id), i < l.outbox.queue.nextId
  heldBelow : ∀ p ∈ held, p.2.id < l.outbox.queue.nextId
  heldFresh : ∀ p ∈ held, p.2.id ∉ l.outbox.items.map (·.id)
  own : ∀ p ∈ held, p.2.id ∈ l.leases.map (·.id) → p.2 ∈ l.inFlight

/-- The queue of `o'` is that of `o`, or has one more item, under the next id. -/
def Grows (o o' : Outbox) : Prop :=
  o.queue.nextId ≤ o'.queue.nextId ∧
    (o'.items.map (·.id) = o.items.map (·.id) ∨
      (o'.items.map (·.id) = o.items.map (·.id) ++ [o.queue.nextId] ∧ o.queue.nextId < o'.queue.nextId))

theorem grows_publish (o : Outbox) (signal : Signal) (now : TimestampMs) : Grows o (o.publish signal now).1 := by
  rcases o.publish_cases signal now with ⟨-, -, hs⟩ | ⟨-, -, -, hs⟩ | ⟨-, -, hitems, -, -, hnext, -⟩
  · exact ⟨hs.nextId, Or.inl (by rw [hs.items])⟩
  · exact ⟨hs.nextId, Or.inl (by rw [hs.items])⟩
  · exact ⟨by omega, Or.inr ⟨by simp [hitems, freshItem], by omega⟩⟩

theorem grows_markFailed (o : Outbox) (item : OutboxItem) (error : String) :
    Grows o (o.markFailed item error).1 := by
  by_cases hl : LastAttempt item
  · obtain ⟨hitems, hqueue, -⟩ := Outbox.markFailed_dead o error hl
    exact ⟨by rw [hqueue], Or.inl (by rw [hitems])⟩
  · obtain ⟨-, ⟨-, hitems⟩ | ⟨-, hitems⟩, hnext, -⟩ := Outbox.markFailed_requeue o error hl
    · exact ⟨by omega, Or.inr ⟨by simp [hitems], by omega⟩⟩
    · exact ⟨by omega, Or.inl (by rw [hitems])⟩

theorem Ids.grow (h : Ids l held) (hg : Grows l.outbox o) : Ids { l with outbox := o } held := by
  obtain ⟨hle, heq | ⟨heq, hlt⟩⟩ := hg
  · exact ⟨heq ▸ h.queued, fun i hi => Nat.lt_of_lt_of_le (h.below i (heq ▸ hi)) hle,
      fun p hp => Nat.lt_of_lt_of_le (h.heldBelow p hp) hle, fun p hp => heq ▸ h.heldFresh p hp, h.own⟩
  · have hnew : l.outbox.queue.nextId ∉ l.outbox.items.map (·.id) := fun hm => Nat.lt_irrefl _ (h.below _ hm)
    refine ⟨?_, fun i hi => ?_, fun p hp => Nat.lt_of_lt_of_le (h.heldBelow p hp) hle, fun p hp => ?_, h.own⟩
    · show (o.items.map (·.id)).Nodup
      rw [heq, ← List.concat_eq_append]
      exact List.Nodup.concat hnew h.queued
    · have hi : i ∈ o.items.map (·.id) := hi
      rw [heq, List.mem_append, List.mem_singleton] at hi
      rcases hi with hi | rfl
      · exact Nat.lt_of_lt_of_le (h.below i hi) hle
      · exact hlt
    · show p.2.id ∉ o.items.map (·.id)
      rw [heq, List.mem_append, List.mem_singleton]
      rintro (hm | hnext)
      · exact h.heldFresh p hp hm
      · exact Nat.ne_of_lt (h.heldBelow p hp) hnext

theorem Ids.claimWithLease (h : Ids l held) (hc : l.claimWithLease w now = some (item, l')) :
    Ids l' (held ++ [(w, item)]) := by
  obtain ⟨⟨claimed, o⟩, hclaim, heq⟩ := Option.map_eq_some_iff.mp hc
  cases heq
  obtain ⟨head, hitems, rfl, -, -, hnext, -⟩ := Outbox.claim_eq_some hclaim
  have hids : l.outbox.items.map (·.id) = head.id :: o.items.map (·.id) := by rw [hitems, List.map_cons]
  have hq := h.queued
  rw [hids, List.nodup_cons] at hq
  have hbelow : ∀ i ∈ head.id :: o.items.map (·.id), i < o.queue.nextId := by
    rw [← hids, hnext]
    exact h.below
  refine ⟨hq.2, fun i hi => hbelow i (List.mem_cons_of_mem _ hi), fun p hp => ?_, fun p hp => ?_, fun p hp hl => ?_⟩
  · rcases List.mem_append.mp hp with hp | hp
    · show p.2.id < o.queue.nextId
      rw [hnext]
      exact h.heldBelow p hp
    · rw [List.mem_singleton.mp hp]
      exact hbelow _ (List.mem_cons_self ..)
  · rcases List.mem_append.mp hp with hp | hp
    · exact fun hm => h.heldFresh p hp (hids ▸ List.mem_cons_of_mem _ hm)
    · rw [List.mem_singleton.mp hp]
      exact hq.1
  · rcases List.mem_append.mp hp with hp | hp
    · -- An item held before has another id than the head of the queue, so its lease is an older one.
      have hne : p.2.id ≠ head.id := fun heq => h.heldFresh p hp (by rw [hids, heq]; exact List.mem_cons_self ..)
      refine List.mem_append_left _ (List.mem_filter.mpr ⟨h.own p hp ?_, by simpa using hne⟩)
      obtain ⟨lease, hlease, hid⟩ := List.mem_map.mp hl
      rcases List.mem_append.mp hlease with hlease | hlease
      · exact List.mem_map.mpr ⟨lease, (List.mem_filter.mp hlease).1, hid⟩
      · rw [List.mem_singleton.mp hlease] at hid
        exact absurd hid.symm hne
    · rw [List.mem_singleton.mp hp]
      exact List.mem_append_right _ (List.mem_singleton.mpr rfl)

theorem Ids.eraseLease (h : Ids l held) (id : Nat) : Ids (l.eraseLease id) held where
  queued := h.queued
  below := h.below
  heldBelow := h.heldBelow
  heldFresh := h.heldFresh
  own := fun p hp hl => by
    obtain ⟨lease, hlease, hid⟩ := List.mem_map.mp hl
    obtain ⟨hlease, hne⟩ := List.mem_filter.mp hlease
    refine List.mem_filter.mpr ⟨h.own p hp (List.mem_map.mpr ⟨lease, hlease, hid⟩), ?_⟩
    rwa [← hid]

theorem Ids.subset (h : Ids l held) (hsub : held' ⊆ held) : Ids l held' where
  queued := h.queued
  below := h.below
  heldBelow := fun p hp => h.heldBelow p (hsub hp)
  heldFresh := fun p hp => h.heldFresh p (hsub hp)
  own := fun p hp => h.own p (hsub hp)

/-! ### The invariant -/

/-- The invariant while the items with the keys `extra` are being recovered. -/
structure Inv (l : OutboxLifecycle) (extra : List String) (held : List (String × OutboxItem))
    (history : List Event) : Prop where
  keys : Keys l extra history
  ids : Ids l held
  closed : history.Pairwise Closes

theorem inv_initial (capacity : Nat) (claimTimeoutMs : Int) : Inv (.new capacity claimTimeoutMs) [] [] [] where
  keys := ⟨List.nodup_nil, fun _ hk => absurd hk List.not_mem_nil, fun _ _ => List.not_mem_nil⟩
  ids := ⟨List.nodup_nil, fun _ hi => absurd hi List.not_mem_nil, fun _ hp => absurd hp List.not_mem_nil,
    fun _ hp => absurd hp List.not_mem_nil, fun _ hp => absurd hp List.not_mem_nil⟩
  closed := List.Pairwise.nil

theorem Inv.exclusive (h : Inv s.lifecycle [] s.held s.history) : Exclusive s :=
  ⟨List.append_nil (liveKeys s.lifecycle) ▸ h.keys.nodup, h.closed⟩

/-- The counters of the lifecycle do not matter. -/
theorem Inv.congr (h : Inv l extra held history) (ho : l'.outbox = l.outbox) (hf : l'.inFlight = l.inFlight)
    (hl : l'.leases = l.leases) : Inv l' extra held history := by
  obtain ⟨⟨hnodup, hreserved, hfresh⟩, ⟨hqueued, hbelow, hheldBelow, hheldFresh, hown⟩, hclosed⟩ := h
  have hlive : liveKeys l' = liveKeys l := by rw [liveKeys, liveKeys, ho, hf]
  exact ⟨⟨hlive ▸ hnodup, hlive ▸ ho ▸ hreserved, hlive ▸ hfresh⟩,
    ⟨ho ▸ hqueued, ho ▸ hbelow, ho ▸ hheldBelow, ho ▸ hheldFresh, hl ▸ hf ▸ hown⟩, hclosed⟩

/-- An event may follow a history that records no delivery of its key. -/
theorem closed_append {e : Event} (h : history.Pairwise Closes) (hn : Event.delivered e.key ∉ history) :
    (history ++ [e]).Pairwise Closes := by
  refine List.pairwise_append.mpr ⟨h, List.pairwise_singleton _ _, fun d hd e' he' => ?_⟩
  obtain rfl := List.mem_singleton.mp he'
  cases d with
  | handedOut k => trivial
  | delivered k => exact fun heq => hn (heq ▸ hd)

theorem Inv.completeDelivered (now : TimestampMs) (h : Inv l [] held history) (hm : (w, item) ∈ held)
    (hl : item.id ∈ l.leases.map (·.id)) :
    Inv (l.completeDelivered item now) [] (held.erase (w, item)) (history ++ [.delivered item.dedupeKey]) := by
  have hflight := h.ids.own (w, item) hm hl
  have hkeys := (h.keys.eraseLease hflight).markDelivered item now
  have hids : Ids (l.eraseLease item.id) (held.erase (w, item)) := (h.ids.eraseLease item.id).subset List.erase_subset
  have hfresh : Event.delivered item.dedupeKey ∉ history := by
    refine h.keys.fresh item.dedupeKey ?_
    rw [List.append_nil]
    exact List.mem_append_right _ (List.mem_map.mpr ⟨item, hflight, rfl⟩)
  exact Inv.congr ⟨hkeys, hids.grow ⟨Nat.le_refl _, Or.inl rfl⟩, closed_append h.closed hfresh⟩ rfl rfl rfl

theorem Inv.completeFailed (error : String) (h : Inv l [] held history) (hm : (w, item) ∈ held)
    (hl : item.id ∈ l.leases.map (·.id)) :
    Inv (l.completeFailed item error) [] (held.erase (w, item)) history := by
  have hkeys := (h.keys.eraseLease (h.ids.own (w, item) hm hl)).markFailed item error
  have hids : Ids (l.eraseLease item.id) (held.erase (w, item)) := (h.ids.eraseLease item.id).subset List.erase_subset
  exact Inv.congr ⟨hkeys, hids.grow (grows_markFailed l.outbox item error), h.closed⟩ rfl rfl rfl

/-! ### Recovery -/

/-- The expired items leave the ones in flight; until they are requeued their keys are the extra ones. -/
theorem Inv.takeExpired : ∀ (order : List Nat) {l : OutboxLifecycle} {extra : List String}, Inv l extra held history →
    Inv (l.takeExpired order).2 ((l.takeExpired order).1.map (·.dedupeKey) ++ extra) held history
  | [], _, _, h => h
  | id :: order, l, extra, h => by
    rcases hf : l.inFlight.find? (·.id = id) with _ | item
    · have hnext : Inv (l.eraseLease id) extra held history :=
        ⟨h.keys.eraseLease_subset id, h.ids.eraseLease id, h.closed⟩
      have heq : l.takeExpired (id :: order) = (l.eraseLease id).takeExpired order := by
        rw [OutboxLifecycle.takeExpired, hf]
      rw [heq]
      exact Inv.takeExpired order hnext
    · have hid : item.id = id := by simpa using List.find?_some hf
      have hnext : Inv (l.eraseLease id) (item.dedupeKey :: extra) held history :=
        ⟨hid ▸ h.keys.eraseLease (List.mem_of_find?_eq_some hf), h.ids.eraseLease id, h.closed⟩
      have heq : l.takeExpired (id :: order) =
          (expiredItem item :: ((l.eraseLease id).takeExpired order).1, ((l.eraseLease id).takeExpired order).2) := by
        rw [OutboxLifecycle.takeExpired, hf]
      have ih := Inv.takeExpired order hnext
      rw [heq]
      refine ⟨ih.keys.of_subperm ?_ (fun _ _ hk => hk) (fun _ _ hk => hk), ih.ids, ih.closed⟩
      exact (List.subperm_append_left _).mpr (List.perm_middle.symm.subperm)

theorem Inv.requeueExpired (now : TimestampMs) (h : Inv l (item.dedupeKey :: extra) held history) :
    Inv (l.requeueExpired now item).1 extra held (history ++ recoveryEvents [item]) := by
  by_cases hmax : MaxAttempts item
  · -- The key is released twice, and recorded as delivered in between.
    have hdead : LastAttempt (l.outbox.markDelivered (deadLettered item) now).2 := Nat.le_succ_of_le hmax
    have hdelivered := Keys.markDelivered (deadLettered item) now h.keys
    obtain ⟨hitems, -, hpend⟩ := Outbox.markFailed_dead (l.outbox.markDelivered (deadLettered item) now).1
      "lease expired max attempts" hdead
    have hkeys := hdelivered.release h.keys.notMem hitems hpend fun _ _ hd => hd
    have hids : Ids { l with outbox := (l.outbox.markDelivered (deadLettered item) now).1 } held :=
      h.ids.grow ⟨Nat.le_refl _, Or.inl rfl⟩
    have hids := hids.grow (grows_markFailed _ (l.outbox.markDelivered (deadLettered item) now).2
      "lease expired max attempts")
    have hevents : recoveryEvents [item] = [.delivered item.dedupeKey] := by simp [recoveryEvents, hmax]
    have hfresh : Event.delivered item.dedupeKey ∉ history := h.keys.fresh _ (by simp)
    rw [hevents, OutboxLifecycle.requeueExpired, if_pos hmax]
    exact Inv.congr ⟨hkeys, hids, closed_append h.closed hfresh⟩ rfl rfl rfl
  · have hkeys := h.keys.markFailed item "lease expired — requeued"
    have hids := h.ids.grow (grows_markFailed l.outbox item "lease expired — requeued")
    have hevents : recoveryEvents [item] = [] := by simp [recoveryEvents, hmax]
    rw [hevents, List.append_nil, OutboxLifecycle.requeueExpired, if_neg hmax]
    exact Inv.congr ⟨hkeys, hids, h.closed⟩ rfl rfl rfl

theorem recoveryEvents_cons (item : OutboxItem) (items : List OutboxItem) :
    recoveryEvents (item :: items) = recoveryEvents [item] ++ recoveryEvents items := by
  simp only [recoveryEvents, ← List.map_append, ← List.filter_append, List.singleton_append]

theorem Inv.requeueAll (now : TimestampMs) : ∀ (items : List OutboxItem) {l : OutboxLifecycle} {history : List Event},
    Inv l (items.map (·.dedupeKey) ++ extra) held history →
    Inv (l.requeueAll now items).1 extra held (history ++ recoveryEvents items)
  | [], _, history, h => by simpa [OutboxLifecycle.requeueAll, recoveryEvents] using h
  | item :: items, l, history, h => by
    have hone : Inv (l.requeueExpired now item).1 (items.map (·.dedupeKey) ++ extra) held
        (history ++ recoveryEvents [item]) := h.requeueExpired now
    rw [recoveryEvents_cons, ← List.append_assoc]
    exact Inv.requeueAll now items hone

theorem Inv.recoverExpiredLeases (h : Inv l [] held history) (order : List Nat) :
    Inv (l.recoverExpiredLeases now order).1 [] held (history ++ recoveryEvents (l.takeExpired order).1) := by
  have hall := Inv.requeueAll now (l.takeExpired order).1 (h.takeExpired order)
  unfold OutboxLifecycle.recoverExpiredLeases
  dsimp only
  split
  · exact hall
  · exact hall.congr rfl rfl rfl

/-! ### Runs -/

theorem publishSignal_inv (h : Inv l [] held history)
    (hok : Event.delivered signal.dedupeKey ∈ history → l.outbox.Knows signal.dedupeKey) :
    Inv (l.publishSignal signal now).1 [] held history := by
  have hkeys := h.keys.publish now hok
  have hids := h.ids.grow (grows_publish l.outbox signal now)
  unfold OutboxLifecycle.publishSignal
  rcases hp : l.outbox.publish signal now with ⟨o, e | id⟩ <;> rw [hp] at hkeys hids
  · exact ⟨hkeys, hids, h.closed⟩
  · exact Inv.congr ⟨hkeys, hids, h.closed⟩ rfl rfl rfl

theorem step_inv (h : Inv s.lifecycle [] s.held s.history) {c : Call} (hok : OwnLease s c)
    (hs : step s c = some t) : Inv t.lifecycle [] t.held t.history := by
  cases c with
  | advance ms =>
    cases hs
    exact h
  | publishSignal signal =>
    cases hs
    exact publishSignal_inv h hok
  | claimWithLease w =>
    rcases claimWithLease_inv hs with rfl | ⟨item, lifecycle, hc, rfl⟩
    · exact h
    · obtain ⟨hkeys, hfresh⟩ := h.keys.claimWithLease hc
      exact ⟨hkeys, h.ids.claimWithLease hc, closed_append h.closed hfresh⟩
  | completeDelivered w item =>
    obtain ⟨hm, rfl⟩ := completeDelivered_inv hs
    exact h.completeDelivered s.now hm hok
  | completeFailed w item error =>
    obtain ⟨hm, rfl⟩ := completeFailed_inv hs
    exact h.completeFailed error hm hok
  | recoverExpiredLeases order =>
    obtain ⟨-, rfl⟩ := recoverExpiredLeases_inv hs
    exact h.recoverExpiredLeases order

/-- In a run whose completions all come before the recovery of their lease, and which publishes no forgotten
    key, each key has one live copy and nothing follows its delivery. -/
theorem exclusive_of_reaches (capacity : Nat) (claimTimeoutMs : Int)
    (hr : Reaches step OwnLease (initial capacity claimTimeoutMs) s) : Exclusive s :=
  (hr.invariant (P := fun s => Inv s.lifecycle [] s.held s.history) (inv_initial capacity claimTimeoutMs)
    fun _ _ _ h hok hs => step_inv h hok hs).exclusive

/-- The item of prediction `p` as a worker holds it after claiming it at time 0 under the id 1. -/
def heldItem : OutboxItem := { freshItem { predictionId := "p" } 0 1 with state := .inFlight }

/-- The same item after its lease expired, as the next worker holds it. -/
def reclaimedItem : OutboxItem :=
  { heldItem with id := 2, attempts := 2, claimedAtMs := 30001, lastError := "lease expired — requeued" }

/-- The item is recovered and claimed again, and only its second holder completes it. -/
def recoveredDelivery : List Call :=
  [.publishSignal { predictionId := "p" }, .claimWithLease "a", .advance 30001, .recoverExpiredLeases [1],
    .claimWithLease "b", .completeDelivered "b" reclaimedItem]

theorem recoveredDelivery_exclusive :
    ∃ s, run step (initial 4 Constants.OUTBOX_CLAIM_TIMEOUT_MS) recoveredDelivery = some s ∧ Exclusive s := by
  obtain ⟨s, hs⟩ := Option.isSome_iff_exists.mp
    (by decide : (run step (initial 4 Constants.OUTBOX_CLAIM_TIMEOUT_MS) recoveredDelivery).isSome = true)
  exact ⟨s, hs, exclusive_of_reaches 4 Constants.OUTBOX_CLAIM_TIMEOUT_MS (.of_run (by decide) hs)⟩

/-- The first holder completes after the recovery, and the requeued copy is handed out all the same. -/
def zombieDelivery : List Call :=
  [.publishSignal { predictionId := "p" }, .claimWithLease "a", .advance 30001, .recoverExpiredLeases [1],
    .completeDelivered "a" heldItem, .claimWithLease "b"]

theorem zombieDelivery_not_exclusive :
    ∃ s, Reaches step anyStep (initial 4 Constants.OUTBOX_CLAIM_TIMEOUT_MS) s ∧ ¬Exclusive s := by
  have hhistory : (run step (initial 4 Constants.OUTBOX_CLAIM_TIMEOUT_MS) zombieDelivery).map (·.history) =
      some [.handedOut "p:0", .delivered "p:0", .handedOut "p:0"] := by decide
  obtain ⟨s, hs, hh⟩ := Option.map_eq_some_iff.mp hhistory
  refine ⟨s, .of_run (meets_anyStep _ _) hs, fun he => ?_⟩
  have hclosed := he.closed
  rw [hh, List.pairwise_cons, List.pairwise_cons] at hclosed
  exact hclosed.2.1 (.handedOut "p:0") (List.mem_singleton.mpr rfl) rfl

end LifecycleCalls

/-! ### Recovery and failure

What the recovery of an expired lease does to the outbox and to the item, beside what `completeFailed` does: the
recovery counts two attempts where a failure counts one, so that the two never agree. -/

namespace OutboxLifecycle
open Outbox (LastAttempt)

variable {l : OutboxLifecycle} {o : Outbox} {item : OutboxItem} {now : TimestampMs} {error : String} {id : Nat}

/-! ### The outbox after a recovery -/

/-- `requeueExpired` on the outbox. -/
def recoverInto (now : TimestampMs) (o : Outbox) (item : OutboxItem) : Outbox × OutboxItem :=
  if MaxAttempts item then
    let (o, copy) := o.markDelivered (deadLettered item) now
    o.markFailed copy "lease expired max attempts"
  else o.markFailed item "lease expired — requeued"

theorem requeueExpired_eq : (l.requeueExpired now item).1.outbox = (recoverInto now l.outbox item).1 ∧
    (l.requeueExpired now item).2 = (recoverInto now l.outbox item).2 := by
  unfold requeueExpired recoverInto
  split <;> exact ⟨rfl, rfl⟩

/-- The items go back into the outbox one after another. -/
theorem requeueAll_outbox : ∀ (items : List OutboxItem) (l : OutboxLifecycle),
    (l.requeueAll now items).1.outbox = items.foldl (fun o item => (recoverInto now o item).1) l.outbox
  | [], _ => rfl
  | item :: items, l => by
    rw [List.foldl_cons, ← (requeueExpired_eq (l := l)).1]
    exact requeueAll_outbox items _

theorem markFailed_attempts : (o.markFailed item error).2.attempts = item.attempts + 1 := by
  unfold Outbox.markFailed
  dsimp only
  split <;> rfl

theorem recoverInto_attempts : (recoverInto now o item).2.attempts = item.attempts + 1 := by
  unfold recoverInto
  split <;> exact markFailed_attempts

theorem requeueAll_attempts : ∀ (items : List OutboxItem) (l : OutboxLifecycle),
    (l.requeueAll now items).2.map (·.attempts) = items.map (·.attempts + 1)
  | [], _ => rfl
  | item :: items, l => by
    have hone : (l.requeueExpired now item).2.attempts = item.attempts + 1 := by
      rw [requeueExpired_eq.2, recoverInto_attempts]
    show (l.requeueExpired now item).2.attempts :: _ = _
    rw [hone, requeueAll_attempts items _, List.map_cons]

theorem takeExpired_outbox : ∀ (order : List Nat) (l : OutboxLifecycle), (l.takeExpired order).2.outbox = l.outbox
  | [], _ => rfl
  | id :: order, l => by
    unfold takeExpired
    split <;> exact takeExpired_outbox order (l.eraseLease id)

theorem recoverExpiredLeases_outbox (order : List Nat) : (l.recoverExpiredLeases now order).1.outbox =
    (l.takeExpired order).1.foldl (fun o item => (recoverInto now o item).1) l.outbox := by
  have h : ((l.takeExpired order).2.requeueAll now (l.takeExpired order).1).1.outbox =
      (l.takeExpired order).1.foldl (fun o item => (recoverInto now o item).1) l.outbox := by
    rw [requeueAll_outbox, takeExpired_outbox]
  rw [← h]
  show (if ((l.takeExpired order).2.requeueAll now (l.takeExpired order).1).2.isEmpty then _ else wake _).outbox = _
  split <;> rfl

/-- However many leases have expired, each recovered item is left with one attempt more than it was taken out with:
    the attempt of `markFailed`, beside that of `expiredItem`. -/
theorem recoverExpiredLeases_attempts (order : List Nat) :
    (l.recoverExpiredLeases now order).2.map (·.attempts) = (l.takeExpired order).1.map (·.attempts + 1) :=
  requeueAll_attempts _ _

theorem takeExpired_single (hin : l.inFlight.find? (·.id = id) = some item) :
    (l.takeExpired [id]).1 = [expiredItem item] := by
  simp [takeExpired, hin]

theorem recover_single (hin : l.inFlight.find? (·.id = id) = some item) :
    (l.recoverExpiredLeases now [id]).1.outbox = (recoverInto now l.outbox (expiredItem item)).1 := by
  rw [recoverExpiredLeases_outbox, takeExpired_single hin]
  rfl

/-! ### The two failures side by side -/

/-- The item without the text of its last error. -/
def withoutError (item : OutboxItem) : OutboxItem := { item with lastError := "" }

/-- The recovery has led to the same queue, keys and counters as the failure, and delivers nothing. -/
structure SameOutbox (before recovered failure : Outbox) : Prop where
  items : recovered.items.map withoutError = failure.items.map withoutError
  pendingKeys : recovered.pendingKeys = failure.pendingKeys
  deliveredKeys : recovered.deliveredKeys = before.deliveredKeys
  failed : recovered.failed = failure.failed
  deadLetters : recovered.deadLetters = failure.deadLetters
  delivered : recovered.delivered = before.delivered

/-- The recovery of `item`, which it has left as `left`, agrees with its failure: the outbox is the same, the item has
    one attempt more, and it stands at the end of the queue or, at its last attempt, is dead-lettered. -/
structure AgreesWithFailure (item : OutboxItem) (before recovered failure : Outbox) (left : OutboxItem) : Prop where
  outbox : SameOutbox before recovered failure
  attempts : left.attempts = item.attempts + 1
  requeued : ¬LastAttempt item → recovered.items.map withoutError =
    (before.items ++ [{ Outbox.failedItem item "" with id := before.queue.nextId }]).map withoutError
  dead : LastAttempt item → left.state = .deadLetter

theorem markFailed_counters : (o.markFailed item error).1.failed = o.failed + 1 ∧
    (o.markFailed item error).1.deadLetters = o.deadLetters + (if LastAttempt item then 1 else 0) ∧
    (o.markFailed item error).1.delivered = o.delivered := by
  by_cases h : LastAttempt item
  · have h' : item.attempts + 1 ≥ Constants.OUTBOX_MAX_ATTEMPTS := h
    rw [if_pos h, Outbox.markFailed, if_pos h']
    exact ⟨rfl, rfl, rfl⟩
  · have h' : ¬item.attempts + 1 ≥ Constants.OUTBOX_MAX_ATTEMPTS := h
    rw [if_neg h, Outbox.markFailed, if_neg h']
    exact ⟨rfl, rfl, rfl⟩

/-- An item that cannot be re-queued has left nothing but its key. -/
theorem markFailed_lost (h : ¬LastAttempt item) (hroom : ¬o.queue.HasRoom) :
    (o.markFailed item error).1.items = o.items := by
  rcases (o.markFailed_requeue error h).2.1 with ⟨hr, -⟩ | ⟨-, hitems⟩
  · exact absurd hr hroom
  · exact hitems

theorem markFailed_queued (h : ¬LastAttempt item) (hroom : o.queue.HasRoom) : (o.markFailed item error).1.items =
    o.items ++ [{ Outbox.failedItem item error with id := o.queue.nextId }] := by
  rcases (o.markFailed_requeue error h).2.1 with ⟨-, hitems⟩ | ⟨hf, -⟩
  · exact hitems
  · exact absurd hroom hf

/-- At the bound the recovery also counts a delivery, which a failure never does. -/
theorem recoverInto_delivered (h : MaxAttempts item) : (recoverInto now o item).1.delivered = o.delivered + 1 := by
  rw [recoverInto, if_pos h]
  exact markFailed_counters.2.2

/-- The recovery counts two attempts: its own, and that of `markFailed`. -/
theorem lastAttempt_expiredItem : LastAttempt (expiredItem item) ↔ Constants.OUTBOX_MAX_ATTEMPTS ≤ item.attempts + 2 :=
  Iff.rfl

/-- The outbox alone does not show the second attempt exactly when the item has three attempts left at least and the
    queue takes no item, so that both calls lose it. -/
theorem sameOutbox_iff : SameOutbox o (recoverInto now o (expiredItem item)).1 (o.markFailed item error).1 ↔
    item.attempts + 2 < Constants.OUTBOX_MAX_ATTEMPTS ∧ ¬o.queue.HasRoom := by
  constructor
  · intro h
    by_cases hmax : MaxAttempts (expiredItem item)
    · -- a delivery is counted
      have hdelivered := h.delivered
      rw [recoverInto_delivered hmax] at hdelivered
      omega
    have hfail : ¬LastAttempt item := hmax
    rw [recoverInto, if_neg hmax] at h
    by_cases hlast : LastAttempt (expiredItem item)
    · -- the recovery dead-letters one attempt too early
      have hdead := h.deadLetters
      rw [markFailed_counters.2.1, markFailed_counters.2.1, if_pos hlast, if_neg hfail] at hdead
      omega
    refine ⟨Nat.not_le.mp (mt lastAttempt_expiredItem.mpr hlast), fun hroom => ?_⟩
    have hitems := h.items
    rw [markFailed_queued hlast hroom, markFailed_queued hfail hroom, List.map_append, List.map_append,
      List.append_cancel_left_eq] at hitems
    have hattempts := congrArg OutboxItem.attempts (List.cons.inj hitems).1
    change item.attempts + 1 + 1 = item.attempts + 1 at hattempts
    omega
  · rintro ⟨hlt, hroom⟩
    have hlast : ¬LastAttempt (expiredItem item) := fun h => absurd (lastAttempt_expiredItem.mp h) (Nat.not_le.mpr hlt)
    have hfail : ¬LastAttempt item := fun h => hlast (h.trans (Nat.le_succ _))
    have hmax : ¬MaxAttempts (expiredItem item) := hfail
    rw [recoverInto, if_neg hmax]
    constructor
    · rw [markFailed_lost hlast hroom, markFailed_lost hfail hroom]
    · exact ((o.markFailed_requeue _ hlast).1).trans ((o.markFailed_requeue _ hfail).1).symm
    · exact Outbox.markFailed_delivered
    · exact markFailed_counters.1.trans markFailed_counters.1.symm
    · rw [markFailed_counters.2.1, markFailed_counters.2.1, if_neg hlast, if_neg hfail]
    · exact markFailed_counters.2.2

/-- No recovery agrees with the failure of the item whose lease has expired: in every state of the outbox and at every
    number of attempts the item has two attempts more. -/
theorem not_recovery_agrees (hexpired : l.expired now = [item.id])
    (hin : l.inFlight.find? (·.id = item.id) = some item) :
    ∃ left, (l.recoverExpiredLeases now (l.expired now)).2 = [left] ∧ left.attempts = item.attempts + 2 ∧
      ¬AgreesWithFailure item l.outbox (l.recoverExpiredLeases now (l.expired now)).1.outbox
        (l.completeFailed item error).outbox left := by
  have hleft : (l.recoverExpiredLeases now (l.expired now)).2.map (·.attempts) = _ := recoverExpiredLeases_attempts _
  rw [hexpired, takeExpired_single hin, List.map_cons, List.map_nil] at hleft
  obtain ⟨left, hlist, hattempts⟩ := List.map_eq_singleton_iff.mp hleft
  have htwo : left.attempts = item.attempts + 2 := hattempts
  refine ⟨left, hexpired ▸ hlist, htwo, fun h => ?_⟩
  have hone := h.attempts
  omega

/-- The outboxes alone come out alike exactly where both calls lose the item. -/
theorem recovery_sameOutbox_iff (hexpired : l.expired now = [item.id])
    (hin : l.inFlight.find? (·.id = item.id) = some item) :
    SameOutbox l.outbox (l.recoverExpiredLeases now (l.expired now)).1.outbox (l.completeFailed item error).outbox ↔
      item.attempts + 2 < Constants.OUTBOX_MAX_ATTEMPTS ∧ ¬l.outbox.queue.HasRoom := by
  rw [hexpired, recover_single hin]
  exact sameOutbox_iff

/-- A signal that a worker has claimed at 0 and not completed. -/
def leasedItem : OutboxItem :=
  { id := 1, state := .inFlight, signal := { predictionId := "p1" }, dedupeKey := "p1:0" }

def leased : OutboxLifecycle :=
  let l := ((new 1 30000).publishSignal leasedItem.signal 0).1
  (l.claimWithLease "w1" 0).elim l Prod.snd

/-- The recovered item has two attempts, the failed one has one. -/
theorem not_recovery_agrees_leased : ∃ left,
    (leased.recoverExpiredLeases 30001 (leased.expired 30001)).2 = [left] ∧
      ¬AgreesWithFailure leasedItem leased.outbox (leased.recoverExpiredLeases 30001 (leased.expired 30001)).1.outbox
        (leased.completeFailed leasedItem "lost").outbox left :=
  ⟨_, rfl, fun h => absurd ((recovery_sameOutbox_iff (by decide) (by decide)).mp h.outbox).2 (by decide)⟩

/-- The same lease, and a second signal that fills the queue. -/
def leasedAndFull : OutboxLifecycle := (leased.publishSignal { predictionId := "p2" } 0).1

theorem not_recovery_agrees_leasedAndFull : ∃ left,
    (leasedAndFull.recoverExpiredLeases 30001 (leasedAndFull.expired 30001)).2 = [left] ∧
      left.attempts = leasedItem.attempts + 2 ∧
      ¬AgreesWithFailure leasedItem leasedAndFull.outbox
        (leasedAndFull.recoverExpiredLeases 30001 (leasedAndFull.expired 30001)).1.outbox
        (leasedAndFull.completeFailed leasedItem "lost").outbox left :=
  not_recovery_agrees (by decide) (by decide)

end OutboxLifecycle
end CrashCore
