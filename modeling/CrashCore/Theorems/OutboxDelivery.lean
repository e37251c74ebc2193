import CrashCore.Delivery.OutboxCalls
import CrashCore.Library.Firsts
import Mathlib.Data.Finset.Image
import Mathlib.Tactic.Common

/-! Published signals are neither lost nor delivered twice. A published signal is queued, held, delivered or dead-lettered
as long as every failed delivery that is not the last one finds room in the queue; a re-queue into a full queue
loses the signal and leaves its key reserved. -/

namespace CrashCore
namespace OutboxCalls
open Outbox Transition

variable {s t : State} {w : WorkerId} {item : OutboxItem} {error : String}

/-- Every publication is in exactly one place: as lists up to order, what was published is what is queued,
    held, delivered and dead-lettered. And the reserved keys are those of the live items. -/
structure Conserved (s : State) : Prop where
  placed : s.published.Perm
    (s.outbox.items.map (·.signal) ++ s.held.map (·.2.signal) ++ s.delivered ++ s.dead)
  reserved : ∀ key, key ∈ s.outbox.pendingKeys ↔ ∃ x ∈ live s, x.dedupeKey = key

/-- A failed delivery that is not the last one finds room in the queue. -/
def RequeueHasRoom (s : State) : Call → Prop
  | .markFailed _ item _ => LastAttempt item ∨ s.outbox.queue.HasRoom
  | _ => True

instance (s : State) : DecidablePred (RequeueHasRoom s)
  | .publish .. => .isTrue trivial
  | .claim .. => .isTrue trivial
  | .markDelivered .. => .isTrue trivial
  | .markFailed _ item _ => inferInstanceAs (Decidable (LastAttempt item ∨ s.outbox.queue.HasRoom))

theorem liveSignals_eq (s : State) :
    liveSignals s = s.outbox.items.map (·.signal) ++ s.held.map (·.2.signal) := by
  simp [liveSignals, live, Function.comp_def]

theorem liveKeys_eq (s : State) :
    liveKeys s = s.outbox.items.map (·.dedupeKey) ++ s.held.map (·.2.dedupeKey) := by
  simp [liveKeys, live, Function.comp_def]

theorem mem_liveKeys {key : String} : key ∈ liveKeys s ↔ ∃ x ∈ live s, x.dedupeKey = key := List.mem_map

/-- `Conserved` in terms of the live items. -/
theorem conserved_iff : Conserved s ↔ s.published.Perm (liveSignals s ++ (s.delivered ++ s.dead)) ∧
    ∀ key, key ∈ s.outbox.pendingKeys ↔ key ∈ liveKeys s := by
  constructor
  · rintro ⟨hp, hr⟩
    exact ⟨by rwa [liveSignals_eq, ← List.append_assoc], fun key => (hr key).trans mem_liveKeys.symm⟩
  · rintro ⟨hp, hr⟩
    exact ⟨by rwa [liveSignals_eq, ← List.append_assoc] at hp, fun key => (hr key).trans mem_liveKeys⟩

/-- The invariant of runs without a loss. -/
def Inv (s : State) : Prop := Keyed s ∧ Conserved s

theorem inv_initial (capacity : Nat) : Inv (initial capacity) :=
  ⟨keyed_initial capacity, conserved_iff.mpr ⟨List.Perm.refl _, fun key => by simp [initial, liveKeys, live]⟩⟩

/-! ### One step -/

theorem publish_conserved (h : Inv s) {signal : Signal} {now : TimestampMs}
    (hs : step s (.publish signal now) = some t) : Conserved t := by
  obtain ⟨hplaced, hres⟩ := conserved_iff.mp h.2
  rcases publish_inv hs with ⟨ha, rfl⟩ | ⟨ha, rfl⟩
  · obtain ⟨-, hpend, -⟩ := Outbox.publish_accepted now ha
    refine conserved_iff.mpr ⟨?_, fun key => ?_⟩
    · have hsig := live_map_publish (·.signal) now ha
      calc (s.published ++ [signal]).Perm (signal :: s.published) := List.perm_append_singleton _ _
        _ |>.Perm (signal :: (liveSignals s ++ (s.delivered ++ s.dead))) := hplaced.cons _
        _ |>.Perm _ := (hsig.symm.append_right _)
    · have hkeys := (live_map_publish (·.dedupeKey) now ha).mem_iff (a := key)
      rw [hpend, Finset.mem_insert, hres key]
      exact List.mem_cons.symm.trans hkeys.symm
  · obtain ⟨hlive, hpend, -⟩ := live_refused now ha
    refine conserved_iff.mpr ⟨?_, fun key => ?_⟩
    · rw [liveSignals, hlive]
      exact hplaced
    · rw [liveKeys, hlive, hpend]
      exact hres key

theorem claim_conserved (h : Inv s) {now : TimestampMs} (hs : step s (.claim w now) = some t) :
    Conserved t := by
  obtain ⟨hplaced, hres⟩ := conserved_iff.mp h.2
  rcases claim_inv hs with rfl | ⟨item, o, hc, rfl⟩
  · exact h.2
  · obtain ⟨-, -, -, hpend, -⟩ := Outbox.claim_eq_some hc
    refine conserved_iff.mpr ⟨?_, fun key => ?_⟩
    · exact hplaced.trans ((live_map_claim (·.signal) hc fun _ => rfl).symm.append_right _)
    · have hkeys := (live_map_claim (·.dedupeKey) (w := w) hc fun _ => rfl).mem_iff (a := key)
      rw [hpend]
      exact (hres key).trans hkeys.symm

/-- A completed item leaves the live ones; its signal is appended to one of the logs. -/
theorem completed_placed (h : Inv s) (hm : (w, item) ∈ s.held) :
    s.published.Perm (item.signal :: (s.outbox.items.map (·.signal) ++
      (s.held.erase (w, item)).map (·.2.signal) ++ (s.delivered ++ s.dead))) :=
  (conserved_iff.mp h.2).1.trans ((live_map_perm_erase _ hm).append_right _)

/-- When the key of a completed item is released, the reserved keys are again those of the live items. -/
theorem completed_reserved (h : Inv s) (hm : (w, item) ∈ s.held) (key : String) :
    key ∈ s.outbox.pendingKeys.erase item.dedupeKey ↔
      key ∈ s.outbox.items.map (·.dedupeKey) ++ (s.held.erase (w, item)).map (·.2.dedupeKey) := by
  have hperm := live_map_perm_erase (·.dedupeKey) hm
  have hnodup := hperm.nodup_iff.mp h.1.nodup
  rw [List.nodup_cons] at hnodup
  have hlive : key ∈ liveKeys s ↔ key = item.dedupeKey ∨ _ := hperm.mem_iff.trans List.mem_cons
  rw [Finset.mem_erase, (conserved_iff.mp h.2).2 key, hlive]
  constructor
  · rintro ⟨hne, heq | hk⟩
    · exact absurd heq hne
    · exact hk
  · intro hk
    exact ⟨fun heq => hnodup.1 (heq ▸ hk), Or.inr hk⟩

theorem markDelivered_conserved (h : Inv s) {now : TimestampMs}
    (hs : step s (.markDelivered w item now) = some t) : Conserved t := by
  obtain ⟨hm, rfl⟩ := markDelivered_inv hs
  refine conserved_iff.mpr ⟨(completed_placed h hm).trans ?_, fun key => ?_⟩
  · rw [liveSignals_eq, List.append_assoc s.delivered]
    exact List.perm_middle.symm.trans (List.perm_middle.symm.append_left _ |>.trans (by simp))
  · rw [liveKeys_eq]
    exact completed_reserved h hm key

theorem markFailed_dead_conserved (h : Inv s) (hl : LastAttempt item)
    (hs : step s (.markFailed w item error) = some t) : Conserved t := by
  obtain ⟨hm, ⟨-, rfl⟩ | ⟨hn, -⟩⟩ := markFailed_inv hs
  · obtain ⟨hitems, -, hpend⟩ := Outbox.markFailed_dead s.outbox error hl
    refine conserved_iff.mpr ⟨(completed_placed h hm).trans ?_, fun key => ?_⟩
    · rw [liveSignals_eq, hitems, ← List.append_assoc s.delivered]
      exact (List.perm_append_singleton _ _).symm.trans (by simp)
    · rw [liveKeys_eq, hitems, hpend]
      exact completed_reserved h hm key
  · exact absurd hl hn

theorem markFailed_requeue_conserved (h : Inv s) (hl : ¬LastAttempt item) (hroom : s.outbox.queue.HasRoom)
    (hs : step s (.markFailed w item error) = some t) : Conserved t := by
  obtain ⟨hm, ⟨hy, -⟩ | ⟨-, rfl⟩⟩ := markFailed_inv hs
  · exact absurd hy hl
  · obtain ⟨hpend, ⟨-, hitems⟩ | ⟨hfull, -⟩, -⟩ := Outbox.markFailed_requeue s.outbox error hl
    · refine conserved_iff.mpr ⟨(completed_placed h hm).trans ?_, fun key => ?_⟩
      · rw [liveSignals_eq, hitems]
        simp only [failedItem, List.map_append, List.map_cons, List.map_nil, List.append_assoc,
          List.cons_append, List.nil_append]
        exact List.perm_middle.symm
      · have hkeys : key ∈ liveKeys s ↔ _ := (live_map_perm_erase (·.dedupeKey) hm).mem_iff
        rw [hpend, (conserved_iff.mp h.2).2 key, hkeys, liveKeys_eq, hitems]
        simp [failedItem, or_left_comm]
    · exact absurd hroom hfull

theorem step_inv (h : Inv s) {c : Call} (hok : RequeueHasRoom s c) (hs : step s c = some t) : Inv t := by
  refine ⟨step_keyed h.1 hs, ?_⟩
  cases c with
  | publish signal now => exact publish_conserved h hs
  | claim w now => exact claim_conserved h hs
  | markDelivered w item now => exact markDelivered_conserved h hs
  | markFailed w item error =>
    by_cases hl : LastAttempt item
    · exact markFailed_dead_conserved h hl hs
    · exact markFailed_requeue_conserved h hl (hok.resolve_left hl) hs

/-- A re-queue into a full queue loses a signal: the places then hold one signal less than was published. -/
theorem markFailed_lost (h : Inv s) (hl : ¬LastAttempt item) (hfull : ¬s.outbox.queue.HasRoom)
    (hs : step s (.markFailed w item error) = some t) : ¬Conserved t := by
  obtain ⟨hm, ⟨hy, -⟩ | ⟨-, rfl⟩⟩ := markFailed_inv hs
  · exact absurd hy hl
  · obtain ⟨-, ⟨hroom, -⟩ | ⟨-, hitems⟩, -⟩ := Outbox.markFailed_requeue s.outbox error hl
    · exact absurd hroom hfull
    · intro hc
      have hbefore := (completed_placed h hm).length_eq
      have hafter := hc.placed.length_eq
      simp only [hitems, List.length_cons, List.length_append, List.length_map] at hbefore hafter
      omega

theorem requeueHasRoom_of_conserved (h : Inv s) {c : Call} (hs : step s c = some t) (hc : Conserved t) :
    RequeueHasRoom s c := by
  cases c with
  | publish signal now => trivial
  | claim w now => trivial
  | markDelivered w item now => trivial
  | markFailed w item error =>
    by_contra hn
    rw [RequeueHasRoom, not_or] at hn
    exact markFailed_lost h hn.1 hn.2 hs hc

/-! ### Runs -/

/-- A run from an empty outbox keeps every published signal in exactly one place, in each of its states,
    exactly if none of its failed deliveries is re-queued into a full queue. -/
theorem conserved_along_iff (capacity : Nat) (calls : List Call) (hrun : run step (initial capacity) calls ≠ none) :
    Along step Conserved (initial capacity) calls ↔ Meets step RequeueHasRoom (initial capacity) calls :=
  along_iff_meets (I := Inv) (fun _ h => h.2) (fun _ _ _ h hok hs => step_inv h hok hs)
    (fun _ _ _ h hs hc => requeueHasRoom_of_conserved h hs hc) (inv_initial capacity) hrun

/-- Capacity one: `p1` is claimed, `p2` fills the queue, and the failed delivery of `p1` finds no room. -/
def fullRequeue : List Call :=
  [.publish { predictionId := "p1" } 0, .claim 0 0, .publish { predictionId := "p2" } 0,
    .markFailed 0 (claimedItem "p1" 1) "delivery failed"]

theorem fullRequeue_not_conserved : ¬Along step Conserved (initial 1) fullRequeue := by
  intro h
  obtain ⟨t, ht⟩ := Option.isSome_iff_exists.mp (by decide : (run step (initial 1) fullRequeue).isSome = true)
  have hlen := (h.last ht).placed.length_eq
  have hnum : (run step (initial 1) fullRequeue).map
      (fun t => (t.published.length, t.outbox.items.length + t.held.length + t.delivered.length + t.dead.length)) =
      some (2, 1) := by decide
  rw [ht, Option.map_some, Option.some.injEq, Prod.mk.injEq] at hnum
  simp only [List.length_append, List.length_map] at hlen
  omega

/-- The same calls with room for one more item keep both signals. -/
theorem conserved_along_fullRequeue_roomy : Along step Conserved (initial 2) fullRequeue :=
  (conserved_along_iff 2 fullRequeue (by decide)).mpr (by decide)

end OutboxCalls

/-! ### Once per dedupe key

The outbox refuses a delivered key as long as the delivered set stays within its bound; the delivery that takes it past
the bound forgets every key. -/

namespace OutboxCalls
open Outbox Transition

variable {s t : State} {w : WorkerId} {item : OutboxItem} {signal : Signal} {now : TimestampMs} {error : String}

def deliveredLogKeys (s : State) : List String := s.delivered.map (·.dedupeKey)

/-- A publication under a delivered key is a duplicate, and no key was delivered twice. -/
structure ExactlyOnce (s : State) : Prop where
  refused : ∀ (signal : Signal) (now : TimestampMs), signal.dedupeKey ∈ deliveredLogKeys s →
    (s.outbox.publish signal now).2 = .error ⟨.duplicate, "already published"⟩
  once : (deliveredLogKeys s).Nodup

/-- A delivery leaves the delivered set within its bound. -/
def BelowBound (s : State) : Call → Prop
  | .markDelivered _ item _ => (insert item.dedupeKey s.outbox.deliveredKeys).card ≤ maxDeliveredKeys
  | _ => True

instance (s : State) : DecidablePred (BelowBound s)
  | .publish .. => .isTrue trivial
  | .claim .. => .isTrue trivial
  | .markFailed .. => .isTrue trivial
  | .markDelivered .. => inferInstanceAs (Decidable (_ ≤ _))

/-- The invariant of runs that never clear the delivered set. -/
structure Remembers (s : State) : Prop where
  keyed : Keyed s
  remembered : ∀ k ∈ deliveredLogKeys s, k ∈ s.outbox.deliveredKeys
  fresh : ∀ k ∈ liveKeys s, k ∉ s.outbox.deliveredKeys
  once : (deliveredLogKeys s).Nodup

theorem remembers_initial (capacity : Nat) : Remembers (initial capacity) where
  keyed := keyed_initial capacity
  remembered := fun _ hk => by simp [deliveredLogKeys, initial] at hk
  fresh := fun _ hk => by simp [liveKeys, live, initial] at hk
  once := by simp [deliveredLogKeys, initial]

theorem publish_of_knows (now : TimestampMs) (hk : s.outbox.Knows signal.dedupeKey) :
    (s.outbox.publish signal now).2 = .error ⟨.duplicate, "already published"⟩ := by
  rcases s.outbox.publish_cases signal now with ⟨-, hr, -⟩ | ⟨hn, -⟩ | ⟨ha, -⟩
  · exact hr
  · exact absurd hk hn
  · exact absurd hk ha.1

theorem knows_of_publish (h : (s.outbox.publish signal now).2 = .error ⟨.duplicate, "already published"⟩) :
    s.outbox.Knows signal.dedupeKey := by
  rcases s.outbox.publish_cases signal now with ⟨hk, -⟩ | ⟨-, -, hr, -⟩ | ⟨-, ⟨n, hr⟩, -⟩
  · exact hk
  · rw [hr] at h
    cases h
  · rw [hr] at h
    cases h

theorem Remembers.exactlyOnce (h : Remembers s) : ExactlyOnce s :=
  ⟨fun _ now hk => publish_of_knows now (.inl (h.remembered _ hk)), h.once⟩

/-! ### One step -/

/-- A step other than a delivery keeps the log and the delivered set; its live keys may only grow by a key
    that was not known. -/
theorem Remembers.of_live (h : Remembers s) (hkeyed : Keyed t) (hlog : t.delivered = s.delivered)
    (hset : t.outbox.deliveredKeys = s.outbox.deliveredKeys)
    (hlive : ∀ k ∈ liveKeys t, k ∈ liveKeys s ∨ ¬s.outbox.Knows k) : Remembers t where
  keyed := hkeyed
  remembered := by
    rw [deliveredLogKeys, hlog, hset]
    exact h.remembered
  fresh := fun k hk => by
    rw [hset]
    rcases hlive k hk with hk | hk
    · exact h.fresh k hk
    · exact fun hd => hk (.inl hd)
  once := by
    rw [deliveredLogKeys, hlog]
    exact h.once

theorem publish_remembers (h : Remembers s) (hs : step s (.publish signal now) = some t) : Remembers t := by
  have hkeyed := step_keyed h.keyed hs
  rcases publish_inv hs with ⟨ha, rfl⟩ | ⟨ha, rfl⟩
  · obtain ⟨-, -, hset⟩ := Outbox.publish_accepted now ha
    refine h.of_live hkeyed rfl hset fun k hk => ?_
    rcases List.mem_cons.mp ((live_map_publish (·.dedupeKey) now ha).subset hk) with rfl | hk
    · exact Or.inr ha.1
    · exact Or.inl hk
  · obtain ⟨hlive, -, hset⟩ := live_refused now ha
    exact h.of_live hkeyed rfl hset fun k hk => Or.inl (by rwa [liveKeys, hlive] at hk)

theorem claim_remembers (h : Remembers s) (hs : step s (.claim w now) = some t) : Remembers t := by
  have hkeyed := step_keyed h.keyed hs
  rcases claim_inv hs with rfl | ⟨item, o, hc, rfl⟩
  · exact h
  · obtain ⟨-, -, -, -, hset, -⟩ := Outbox.claim_eq_some hc
    exact h.of_live hkeyed rfl hset fun k hk =>
      Or.inl ((live_map_claim (·.dedupeKey) hc fun _ => rfl).subset hk)

theorem markFailed_remembers (h : Remembers s) (hs : step s (.markFailed w item error) = some t) :
    Remembers t := by
  have hkeyed := step_keyed h.keyed hs
  obtain ⟨hm, hcase⟩ := markFailed_inv hs
  have hsplit := live_map_perm_erase (·.dedupeKey) hm
  -- Whatever is left of the item, its key was live before.
  have hlive : ∀ k ∈ item.dedupeKey ::
      (s.outbox.items.map (·.dedupeKey) ++ (s.held.erase (w, item)).map (·.2.dedupeKey)), k ∈ liveKeys s :=
    fun k hk => hsplit.symm.subset hk
  rcases hcase with ⟨hl, rfl⟩ | ⟨hl, rfl⟩
  · obtain ⟨hitems, -⟩ := Outbox.markFailed_dead s.outbox error hl
    refine h.of_live hkeyed rfl markFailed_delivered fun k hk => Or.inl (hlive k (List.mem_cons_of_mem _ ?_))
    simpa [liveKeys, live, hitems, Function.comp_def] using hk
  · obtain ⟨-, ⟨-, hitems⟩ | ⟨-, hitems⟩, -⟩ := Outbox.markFailed_requeue s.outbox error hl
    · refine h.of_live hkeyed rfl markFailed_delivered fun k hk => Or.inl (hlive k ?_)
      simpa [liveKeys, live, hitems, failedItem, Function.comp_def, or_left_comm] using hk
    · refine h.of_live hkeyed rfl markFailed_delivered fun k hk => Or.inl (hlive k (List.mem_cons_of_mem _ ?_))
      simpa [liveKeys, live, hitems, Function.comp_def] using hk

theorem markDelivered_remembers (h : Remembers s)
    (hb : (insert item.dedupeKey s.outbox.deliveredKeys).card ≤ maxDeliveredKeys)
    (hs : step s (.markDelivered w item now) = some t) : Remembers t := by
  have hkeyed := step_keyed h.keyed hs
  obtain ⟨hm, rfl⟩ := markDelivered_inv hs
  have hsplit := live_map_perm_erase (·.dedupeKey) hm
  have hnodup := hsplit.nodup_iff.mp h.keyed.nodup
  have hkey : item.signal.dedupeKey = item.dedupeKey := by
    refine (h.keyed.key item ?_).symm
    exact List.mem_append_right _ (List.mem_map.mpr ⟨(w, item), hm, rfl⟩)
  have hfresh : item.dedupeKey ∉ s.outbox.deliveredKeys :=
    h.fresh _ (hsplit.symm.subset (List.mem_cons_self ..))
  have hset := markDelivered_delivered now hb
  rw [List.nodup_cons] at hnodup
  refine ⟨hkeyed, fun k hk => ?_, fun k hk => ?_, ?_⟩
  · rw [deliveredLogKeys, List.map_append, List.mem_append] at hk
    rw [hset, Finset.mem_insert]
    rcases hk with hk | hk
    · exact Or.inr (h.remembered k hk)
    · exact Or.inl (by simpa [hkey] using hk)
  · have hk' : k ∈ s.outbox.items.map (·.dedupeKey) ++ (s.held.erase (w, item)).map (·.2.dedupeKey) := by
      simpa [liveKeys, live, Function.comp_def] using hk
    rw [hset, Finset.mem_insert, not_or]
    exact ⟨fun heq => hnodup.1 (heq ▸ hk'), h.fresh k (hsplit.symm.subset (List.mem_cons_of_mem _ hk'))⟩
  · refine List.nodup_map_append_singleton h.once fun x hx heq => hfresh ?_
    exact hkey ▸ heq ▸ h.remembered _ (List.mem_map_of_mem hx)

theorem step_remembers (h : Remembers s) {c : Call} (hok : BelowBound s c) (hs : step s c = some t) :
    Remembers t := by
  cases c with
  | publish signal now => exact publish_remembers h hs
  | claim w now => exact claim_remembers h hs
  | markDelivered w item now => exact markDelivered_remembers h hok hs
  | markFailed w item error => exact markFailed_remembers h hs

/-- After a delivery that clears the set, the delivered key itself is unknown, so a publication under it is
    not a duplicate. -/
theorem markDelivered_forgets (h : Keyed s)
    (hb : maxDeliveredKeys < (insert item.dedupeKey s.outbox.deliveredKeys).card)
    (hs : step s (.markDelivered w item now) = some t) : ¬ExactlyOnce t := by
  obtain ⟨hm, rfl⟩ := markDelivered_inv hs
  have hkey : item.dedupeKey = item.signal.dedupeKey := by
    refine h.key item ?_
    exact List.mem_append_right _ (List.mem_map.mpr ⟨(w, item), hm, rfl⟩)
  intro he
  have hknows := knows_of_publish (he.refused item.signal 0 (by simp [deliveredLogKeys]))
  rcases hknows with hd | hp
  · rw [markDelivered_cleared now hb] at hd
    exact absurd hd (Finset.notMem_empty _)
  · rw [markDelivered_pending, Finset.mem_erase] at hp
    exact hp.1 hkey.symm

theorem belowBound_of_exactlyOnce (h : Remembers s) {c : Call} (hs : step s c = some t) (he : ExactlyOnce t) :
    BelowBound s c := by
  cases c with
  | publish signal now => trivial
  | claim w now => trivial
  | markFailed w item error => trivial
  | markDelivered w item now =>
    by_contra hn
    exact markDelivered_forgets h.keyed (Nat.lt_of_not_le hn) hs he

/-! ### Runs -/

/-- A run from an empty outbox delivers each key at most once and refuses every delivered key, in each of its
    states, exactly if none of its deliveries takes the delivered set past its bound. -/
theorem exactlyOnce_along_iff (capacity : Nat) (calls : List Call)
    (hrun : run step (initial capacity) calls ≠ none) :
    Along step ExactlyOnce (initial capacity) calls ↔ Meets step BelowBound (initial capacity) calls :=
  along_iff_meets (I := Remembers) (fun _ h => h.exactlyOnce) (fun _ _ _ h hok hs => step_remembers h hok hs)
    (fun _ _ _ h hs he => belowBound_of_exactlyOnce h hs he) (remembers_initial capacity) hrun

/-- One delivery, and a second publication that is refused. -/
def oneDelivery : List Call :=
  [.publish { predictionId := "p" } 0, .claim 0 0, .markDelivered 0 (claimedItem "p" 1) 0,
    .publish { predictionId := "p" } 1]

theorem exactlyOnce_along_oneDelivery : Along step ExactlyOnce (initial 1) oneDelivery :=
  (exactlyOnce_along_iff 1 oneDelivery (by decide)).mpr (by decide)

/-! ### A run past the bound

Capacity one, one worker: prediction `i` is published, claimed and delivered before prediction `i + 1`. -/

/-- Pairwise distinct ids. -/
def nthId (i : Nat) : PredictionId := String.ofList (List.replicate i 'p')

def nthSignal (i : Nat) : Signal := { predictionId := nthId i }

def deliverOne (i : Nat) : List Call :=
  [.publish (nthSignal i) 0, .claim 0 0, .markDelivered 0 (claimedItem (nthId i) (i + 1)) 0]

def deliveries : Nat → List Call
  | 0 => []
  | n + 1 => deliveries n ++ deliverOne n

theorem nthSignal_key_inj {i j : Nat} (h : (nthSignal i).dedupeKey = (nthSignal j).dedupeKey) : i = j := by
  have hid : nthId i = nthId j := by
    simpa [Signal.dedupeKey, nthSignal, String.append_assoc] using h
  have hlen := congrArg List.length (String.ofList_inj.mp hid)
  simpa using hlen

/-- Between two deliveries: nothing is queued, held or reserved, and the first `n` keys are remembered. -/
structure Quiet (n : Nat) (s : State) : Prop where
  items : s.outbox.items = []
  held : s.held = []
  pending : s.outbox.pendingKeys = ∅
  room : s.outbox.queue.HasRoom
  nextId : s.outbox.queue.nextId = n + 1
  remembered : s.outbox.deliveredKeys = (Finset.range n).image fun i => (nthSignal i).dedupeKey

theorem Quiet.card {n : Nat} (h : Quiet n s) : s.outbox.deliveredKeys.card = n := by
  rw [h.remembered, Finset.card_image_of_injective _ fun _ _ => nthSignal_key_inj, Finset.card_range]

theorem Quiet.fresh {n : Nat} (h : Quiet n s) : (nthSignal n).dedupeKey ∉ s.outbox.deliveredKeys := by
  rw [h.remembered, Finset.mem_image]
  rintro ⟨i, hi, heq⟩
  obtain rfl := nthSignal_key_inj heq
  exact Finset.notMem_range_self hi

/-- The state before the delivery of prediction `n` is marked: its item is held, and it is the only one. -/
theorem Quiet.claimed {n : Nat} (h : Quiet n s) :
    ∃ u, run step s [.publish (nthSignal n) 0, .claim 0 0] = some u ∧
      u.outbox.items = [] ∧ u.held = [(0, claimedItem (nthId n) (n + 1))] ∧
      u.outbox.pendingKeys = {(nthSignal n).dedupeKey} ∧ u.outbox.queue.HasRoom ∧
      u.outbox.queue.nextId = n + 2 ∧ u.outbox.deliveredKeys = s.outbox.deliveredKeys := by
  have haccepts : s.outbox.Accepts (nthSignal n) := by
    refine ⟨?_, h.room⟩
    rintro (hd | hp)
    · exact h.fresh hd
    · rw [h.pending] at hp
      exact absurd hp (Finset.notMem_empty _)
  obtain ⟨hk, -⟩ | ⟨-, hf, -⟩ | ⟨-, ⟨m, hres⟩, hitems, hpend, hdeliv, hnext, hcap, hclosed⟩ :=
    s.outbox.publish_cases (nthSignal n) 0
  · exact absurd hk haccepts.1
  · exact absurd h.room hf
  rcases hpub : s.outbox.publish (nthSignal n) 0 with ⟨o, r⟩
  rw [hpub] at hres hitems hpend hdeliv hnext hcap hclosed
  obtain ⟨item, o', hclaim⟩ := Outbox.claim_of_ne_nil (o := o) 0 (by rw [hitems]; simp)
  obtain ⟨head, hqueue, hitem, hpend', hdeliv', hnext', hcap', hclosed'⟩ := Outbox.claim_eq_some hclaim
  rw [hitems, h.items, List.nil_append, List.cons.injEq] at hqueue
  obtain ⟨rfl, hempty⟩ := hqueue
  refine ⟨{ s with outbox := o', held := s.held ++ [(0, item)], published := s.published ++ [nthSignal n] },
    ?_, hempty.symm, ?_, ?_, ?_, ?_, hdeliv'.trans hdeliv⟩
  · cases hres
    simp [run, step, hpub, hclaim]
  · rw [h.held, hitem, h.nextId]
    rfl
  · rw [hpend', hpend, h.pending]
    rfl
  · have hsize : o'.queue.q.size = 0 := by
      rw [BoundedQueue.size, List.length_eq_zero_iff]
      exact hempty.symm
    exact ⟨by rw [hclosed', hclosed, h.room.1], by rw [hsize]; exact o'.queue.q.cap_pos⟩
  · rw [hnext', hnext, h.nextId]

theorem Quiet.delivered {n : Nat} (h : Quiet n s) :
    ∃ t, run step s (deliverOne n) = some t ∧ nthSignal n ∈ t.delivered ∧ t.outbox.items = [] ∧ t.held = [] ∧
      t.outbox.pendingKeys = ∅ ∧ t.outbox.queue.HasRoom ∧ t.outbox.queue.nextId = n + 2 ∧
      t.outbox.deliveredKeys =
        if maxDeliveredKeys < n + 1 then ∅ else insert (nthSignal n).dedupeKey s.outbox.deliveredKeys := by
  obtain ⟨u, hrun, hitems, hheld, hpend, hroom, hnext, hdeliv⟩ := h.claimed
  have hcard : (insert (nthSignal n).dedupeKey u.outbox.deliveredKeys).card = n + 1 := by
    rw [hdeliv, Finset.card_insert_of_notMem h.fresh, h.card]
  obtain ⟨t, hdone⟩ : ∃ t, step u (.markDelivered 0 (claimedItem (nthId n) (n + 1)) 0) = some t :=
    ⟨_, by simp only [step, hheld, List.mem_cons, true_or, ↓reduceIte]; rfl⟩
  obtain ⟨-, ht⟩ := markDelivered_inv hdone
  have happend : deliverOne n = [.publish (nthSignal n) 0, .claim 0 0] ++
      [.markDelivered 0 (claimedItem (nthId n) (n + 1)) 0] := rfl
  refine ⟨t, ?_, ?_, ?_, ?_, ?_, ?_, ?_, ?_⟩
  · rw [happend, run_append, hrun, Option.bind_some, run, hdone]
    rfl
  · rw [ht]
    exact List.mem_append_right u.delivered (List.mem_singleton.mpr rfl)
  · rw [ht, markDelivered_items, hitems]
  · simp [ht, hheld]
  · rw [ht, markDelivered_pending, hpend]
    exact Finset.erase_singleton _
  · rw [ht]
    exact hroom
  · rw [ht]
    exact hnext
  · rw [ht]
    split
    · rename_i hpast
      exact markDelivered_cleared 0 (by rw [← hcard] at hpast; exact hpast)
    · rename_i hwithin
      rw [← hdeliv]
      exact markDelivered_delivered 0 (by rw [← hcard] at hwithin; exact Nat.le_of_not_lt hwithin)

theorem deliveries_quiet : ∀ n ≤ maxDeliveredKeys, ∃ s, run step (initial 1) (deliveries n) = some s ∧ Quiet n s
  | 0, _ => ⟨initial 1, rfl, rfl, rfl, rfl, by decide, rfl, rfl⟩
  | n + 1, hn => by
    obtain ⟨s, hrun, hq⟩ := deliveries_quiet n (by omega)
    obtain ⟨t, hstep, -, hitems, hheld, hpend, hroom, hnext, hdeliv⟩ := hq.delivered
    refine ⟨t, by rw [deliveries, run_append, hrun, Option.bind_some, hstep], hitems, hheld, hpend, hroom, hnext, ?_⟩
    rw [hdeliv, if_neg (by omega), hq.remembered, Finset.range_add_one, Finset.image_insert]

/-- The delivery after `maxDeliveredKeys` many forgets its own key. -/
theorem deliveries_forget : ∃ t, run step (initial 1) (deliveries (maxDeliveredKeys + 1)) = some t ∧ ¬ExactlyOnce t := by
  obtain ⟨s, hrun, hq⟩ := deliveries_quiet maxDeliveredKeys (Nat.le_refl _)
  obtain ⟨t, hstep, hmem, -, -, hpend, -, -, hdeliv⟩ := hq.delivered
  rw [if_pos (Nat.lt_succ_self _)] at hdeliv
  refine ⟨t, by rw [deliveries, run_append, hrun, Option.bind_some, hstep], fun he => ?_⟩
  rcases knows_of_publish (he.refused (nthSignal maxDeliveredKeys) 0 (List.mem_map.mpr ⟨_, hmem, rfl⟩)) with hd | hp
  · rw [hdeliv] at hd
    exact absurd hd (Finset.notMem_empty _)
  · rw [hpend] at hp
    exact absurd hp (Finset.notMem_empty _)

theorem deliveries_not_exactlyOnce : ¬Along step ExactlyOnce (initial 1) (deliveries (maxDeliveredKeys + 1)) := by
  obtain ⟨t, hrun, ht⟩ := deliveries_forget
  exact not_along_of_last hrun ht

end OutboxCalls
end CrashCore
