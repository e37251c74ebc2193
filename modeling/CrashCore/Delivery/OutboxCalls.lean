import CrashCore.Delivery.Outbox
import CrashCore.Library.Run
import Mathlib.Data.List.Perm.Basic
import Mathlib.Data.List.Nodup

/-! Publishers and any number of workers calling one outbox, call by call. A worker completes an item it has
claimed at most once: the completion takes the item out of `held`. The three logs are bookkeeping. -/

namespace CrashCore
namespace OutboxCalls
open Outbox

abbrev WorkerId := Nat

structure State where
  outbox : Outbox
  /-- Claimed items that their claimer has not completed. -/
  held : List (WorkerId × OutboxItem) := []
  published : List Signal := []
  delivered : List Signal := []
  dead : List Signal := []

inductive Call
  | publish (signal : Signal) (now : TimestampMs)
  | claim (worker : WorkerId) (now : TimestampMs)
  | markDelivered (worker : WorkerId) (item : OutboxItem) (now : TimestampMs)
  | markFailed (worker : WorkerId) (item : OutboxItem) (error : String)

def initial (capacity : Nat) : State := { outbox := .new capacity }

def step (s : State) : Call → Option State
  | .publish signal now =>
    match s.outbox.publish signal now with
    | (outbox, .ok _) => some { s with outbox, published := s.published ++ [signal] }
    | (outbox, .error _) => some { s with outbox }
  | .claim worker now =>
    match s.outbox.claim now with
    | none => some s
    | some (item, outbox) => some { s with outbox, held := s.held ++ [(worker, item)] }
  | .markDelivered worker item now =>
    if (worker, item) ∈ s.held then
      some { s with
        outbox := (s.outbox.markDelivered item now).1
        held := s.held.erase (worker, item)
        delivered := s.delivered ++ [item.signal] }
    else none
  | .markFailed worker item error =>
    if (worker, item) ∈ s.held then
      some { s with
        outbox := (s.outbox.markFailed item error).1
        held := s.held.erase (worker, item)
        dead := if (s.outbox.markFailed item error).2.state = .deadLetter then s.dead ++ [item.signal] else s.dead }
    else none

/-- The items in the queue and those held by a worker. -/
def live (s : State) : List OutboxItem := s.outbox.items ++ s.held.map (·.2)

def liveKeys (s : State) : List String := (live s).map (·.dedupeKey)

def liveSignals (s : State) : List Signal := (live s).map (·.signal)

/-- The item of a prediction published, enqueued as number `id` and claimed at time 0. -/
def claimedItem (predictionId : PredictionId) (id : Nat) : OutboxItem :=
  { freshItem { predictionId } 0 id with state := .claimed }

/-! ### Inversion -/

variable {s t : State} {w : WorkerId} {item : OutboxItem} {signal : Signal} {now : TimestampMs} {error : String}

theorem publish_inv (hs : step s (.publish signal now) = some t) :
    (s.outbox.Accepts signal ∧
      t = { s with outbox := (s.outbox.publish signal now).1, published := s.published ++ [signal] }) ∨
    (¬s.outbox.Accepts signal ∧ t = { s with outbox := (s.outbox.publish signal now).1 }) := by
  have hiff := s.outbox.publish_ok_iff signal now
  rcases hp : s.outbox.publish signal now with ⟨o, _ | n⟩ <;> rw [hp] at hiff <;>
    simp only [step, hp, Option.some.injEq] at hs <;> subst hs
  · exact Or.inr ⟨fun ha => by simpa using hiff.mpr ha, rfl⟩
  · exact Or.inl ⟨hiff.mp ⟨n, rfl⟩, rfl⟩

theorem claim_inv (hs : step s (.claim w now) = some t) :
    t = s ∨ ∃ item outbox, s.outbox.claim now = some (item, outbox) ∧
      t = { s with outbox, held := s.held ++ [(w, item)] } := by
  rcases hc : s.outbox.claim now with _ | ⟨item, outbox⟩ <;>
    simp only [step, hc, Option.some.injEq] at hs
  · exact Or.inl hs.symm
  · exact Or.inr ⟨item, outbox, rfl, hs.symm⟩

theorem markDelivered_inv (hs : step s (.markDelivered w item now) = some t) :
    (w, item) ∈ s.held ∧ t = { s with
      outbox := (s.outbox.markDelivered item now).1
      held := s.held.erase (w, item)
      delivered := s.delivered ++ [item.signal] } := by
  simp only [step] at hs
  split at hs
  · rename_i hm
    exact ⟨hm, (Option.some.inj hs).symm⟩
  · cases hs

theorem markFailed_state : (s.outbox.markFailed item error).2.state = .deadLetter ↔ LastAttempt item := by
  unfold Outbox.markFailed LastAttempt
  dsimp only
  split <;> simp_all

theorem markFailed_inv (hs : step s (.markFailed w item error) = some t) :
    (w, item) ∈ s.held ∧
    ((LastAttempt item ∧ t = { s with
        outbox := (s.outbox.markFailed item error).1
        held := s.held.erase (w, item)
        dead := s.dead ++ [item.signal] }) ∨
      (¬LastAttempt item ∧ t = { s with
        outbox := (s.outbox.markFailed item error).1
        held := s.held.erase (w, item) })) := by
  simp only [step, markFailed_state] at hs
  split at hs
  · rename_i hm
    refine ⟨hm, ?_⟩
    have hs := (Option.some.inj hs).symm
    by_cases hl : LastAttempt item
    · exact Or.inl ⟨hl, by simpa [hl] using hs⟩
    · exact Or.inr ⟨hl, by simpa [hl] using hs⟩
  · cases hs

/-! ### The live items

Each call adds an item, takes one out, or passes one on with the same signal and key. -/

section Live
variable {κ : Type}

theorem live_map_perm_erase (f : OutboxItem → κ) (hm : (w, item) ∈ s.held) :
    ((live s).map f).Perm (f item :: (s.outbox.items.map f ++ (s.held.erase (w, item)).map (f ·.2))) := by
  have hheld : (s.held.map (f ·.2)).Perm (f item :: (s.held.erase (w, item)).map (f ·.2)) :=
    (List.perm_cons_erase hm).map (f ·.2)
  have hlive : (live s).map f = s.outbox.items.map f ++ s.held.map (f ·.2) := by
    simp [live, Function.comp_def]
  rw [hlive]
  exact (hheld.append_left _).trans List.perm_middle

/-- A claim keeps what the live items carry beside their state and claim time. -/
theorem live_map_claim (f : OutboxItem → κ) {o : Outbox} (hc : s.outbox.claim now = some (item, o))
    (hf : ∀ x : OutboxItem, f { x with state := .claimed, claimedAtMs := now } = f x) :
    ((live { s with outbox := o, held := s.held ++ [(w, item)] }).map f).Perm ((live s).map f) := by
  obtain ⟨head, hitems, rfl, -⟩ := Outbox.claim_eq_some hc
  simp only [live, hitems, List.map_append, List.map_cons, List.map_nil, List.map_map, hf,
    List.cons_append]
  rw [← List.append_assoc]
  exact List.perm_append_singleton _ _

theorem live_map_publish (f : OutboxItem → κ) (now : TimestampMs) (ha : s.outbox.Accepts signal) :
    ((live { s with outbox := (s.outbox.publish signal now).1, published := s.published ++ [signal] }).map f).Perm
      (f (freshItem signal now s.outbox.queue.nextId) :: (live s).map f) := by
  obtain ⟨hitems, -⟩ := publish_accepted now ha
  simp only [live, hitems, List.map_append, List.map_cons, List.append_assoc, List.cons_append, List.nil_append]
  exact List.perm_middle

theorem live_refused (now : TimestampMs) (ha : ¬s.outbox.Accepts signal) :
    live { s with outbox := (s.outbox.publish signal now).1 } = live s ∧
      (s.outbox.publish signal now).1.pendingKeys = s.outbox.pendingKeys ∧
      (s.outbox.publish signal now).1.deliveredKeys = s.outbox.deliveredKeys := by
  rcases s.outbox.publish_cases signal now with ⟨-, -, h⟩ | ⟨-, -, -, h⟩ | ⟨h, -⟩
  · exact ⟨by simp [live, h.items], h.pending, h.delivered⟩
  · exact ⟨by simp [live, h.items], h.pending, h.delivered⟩
  · exact absurd h ha

end Live

/-! ### Keys

In every run, with or without losses: live items carry their signal's key, no two carry the same one, and
each of their keys is reserved. -/

structure Keyed (s : State) : Prop where
  key : ∀ x ∈ live s, x.dedupeKey = x.signal.dedupeKey
  nodup : (liveKeys s).Nodup
  reserved : ∀ k ∈ liveKeys s, k ∈ s.outbox.pendingKeys

theorem keyed_initial (capacity : Nat) : Keyed (initial capacity) :=
  ⟨fun _ hx => by simp [live, initial] at hx, by simp [liveKeys, live, initial],
    fun _ hk => by simp [liveKeys, live, initial] at hk⟩

/-- `Keyed` only reads the pairs of item key and signal key of the live items, in any order. -/
theorem keyed_of_perm {l : List (String × String)}
    (hp : ((live s).map (fun x => (x.dedupeKey, x.signal.dedupeKey))).Perm l)
    (hkey : ∀ p ∈ l, p.1 = p.2) (hnodup : (l.map (·.1)).Nodup)
    (hres : ∀ k ∈ l.map (·.1), k ∈ s.outbox.pendingKeys) : Keyed s := by
  have hkeys : (liveKeys s).Perm (l.map (·.1)) := by
    have := hp.map (·.1)
    rwa [List.map_map] at this
  exact ⟨fun x hx => hkey (x.dedupeKey, x.signal.dedupeKey) (hp.subset (List.mem_map.mpr ⟨x, hx, rfl⟩)),
    hkeys.nodup_iff.mpr hnodup, fun k hk => hres k (hkeys.subset hk)⟩

theorem Keyed.pairs (h : Keyed s) {l : List (String × String)}
    (hp : ((live s).map (fun x => (x.dedupeKey, x.signal.dedupeKey))).Perm l) :
    (∀ p ∈ l, p.1 = p.2) ∧ (l.map (·.1)).Nodup ∧ ∀ k ∈ l.map (·.1), k ∈ s.outbox.pendingKeys := by
  have hkeys : (liveKeys s).Perm (l.map (·.1)) := by
    have := hp.map (·.1)
    rwa [List.map_map] at this
  refine ⟨fun p hp' => ?_, hkeys.nodup_iff.mp h.nodup, fun k hk => h.reserved k (hkeys.symm.subset hk)⟩
  obtain ⟨x, hx, rfl⟩ := List.mem_map.mp (hp.symm.subset hp')
  exact h.key x hx

theorem step_keyed (h : Keyed s) {c : Call} (hs : step s c = some t) : Keyed t := by
  cases c with
  | publish signal now =>
    rcases publish_inv hs with ⟨ha, rfl⟩ | ⟨ha, rfl⟩
    · obtain ⟨hkey, hnodup, hres⟩ := h.pairs (List.Perm.refl _)
      obtain ⟨-, hpend, -⟩ := publish_accepted now ha
      refine keyed_of_perm (live_map_publish _ _ ha) ?_ ?_ ?_
      · intro p hp
        rcases List.mem_cons.mp hp with rfl | hp
        · rfl
        · exact hkey p hp
      · rw [List.map_cons, List.nodup_cons]
        exact ⟨fun hk => ha.1 (.inr (hres _ hk)), hnodup⟩
      · intro k hk
        rw [List.map_cons, List.mem_cons] at hk
        rw [hpend, Finset.mem_insert]
        exact hk.imp id (hres k)
    · obtain ⟨hlive, hpend, -⟩ := live_refused now ha
      exact ⟨hlive ▸ h.key, by rw [liveKeys, hlive]; exact h.nodup,
        fun k hk => by rw [liveKeys, hlive] at hk; rw [hpend]; exact h.reserved k hk⟩
  | claim w now =>
    rcases claim_inv hs with rfl | ⟨item, o, hc, rfl⟩
    · exact h
    · obtain ⟨-, -, -, hpend, -⟩ := Outbox.claim_eq_some hc
      obtain ⟨hkey, hnodup, hres⟩ := h.pairs (List.Perm.refl _)
      exact keyed_of_perm (live_map_claim _ hc fun _ => rfl) hkey hnodup (by rw [hpend]; exact hres)
  | markDelivered w item now =>
    obtain ⟨hm, rfl⟩ := markDelivered_inv hs
    obtain ⟨hkey, hnodup, hres⟩ := h.pairs (live_map_perm_erase _ hm)
    rw [List.map_cons, List.nodup_cons] at hnodup
    refine keyed_of_perm (List.Perm.of_eq (by simp [live])) (fun p hp => hkey p (List.mem_cons_of_mem _ hp))
      hnodup.2 fun k hk => ?_
    rw [markDelivered_pending, Finset.mem_erase]
    exact ⟨fun heq => hnodup.1 (heq ▸ hk), hres k (List.mem_cons_of_mem _ hk)⟩
  | markFailed w item error =>
    obtain ⟨hm, hcase⟩ := markFailed_inv hs
    obtain ⟨hkey, hnodup, hres⟩ := h.pairs (live_map_perm_erase _ hm)
    have hnodup' := hnodup
    rw [List.map_cons, List.nodup_cons] at hnodup'
    rcases hcase with ⟨hl, rfl⟩ | ⟨hl, rfl⟩
    · obtain ⟨hitems, -, hpend⟩ := Outbox.markFailed_dead s.outbox error hl
      refine keyed_of_perm (List.Perm.of_eq (by simp [live, hitems]))
        (fun p hp => hkey p (List.mem_cons_of_mem _ hp)) hnodup'.2 fun k hk => ?_
      rw [hpend, Finset.mem_erase]
      exact ⟨fun heq => hnodup'.1 (heq ▸ hk), hres k (List.mem_cons_of_mem _ hk)⟩
    · obtain ⟨hpend, ⟨-, hitems⟩ | ⟨-, hitems⟩, -⟩ := Outbox.markFailed_requeue s.outbox error hl
      · refine keyed_of_perm ?_ hkey hnodup (by rw [hpend]; exact hres)
        simp only [live, hitems, List.map_append, List.map_cons, List.map_map, failedItem, List.append_assoc,
          List.cons_append, List.nil_append]
        exact List.perm_middle
      · -- The queue was full: the item is gone, and its key stays reserved.
        exact keyed_of_perm (List.Perm.of_eq (by simp [live, hitems]))
          (fun p hp => hkey p (List.mem_cons_of_mem _ hp)) hnodup'.2
          fun k hk => by rw [hpend]; exact hres k (List.mem_cons_of_mem _ hk)

end OutboxCalls
end CrashCore
