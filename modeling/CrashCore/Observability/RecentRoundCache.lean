import CrashCore.Common.Types
import CrashCore.Library.BoundedList
import CrashCore.Library.Lru
import Mathlib.Data.List.Nodup

/-! The cache of recent rounds (`observability/recent_round_cache.hpp`), from the least to the most recently used.
`map_` has the ids of `order_`. -/

namespace CrashCore

structure CachedRound where
  gameId : GameId
  multiplier : Double := 0
  endedAtMs : TimestampMs := 0
  cachedAtMs : TimestampMs := 0
  hash : String := ""

structure RecentRoundCache where
  capacity : Nat := 200
  order : List CachedRound := []
  nodup : (order.map (·.gameId)).Nodup := by exact List.nodup_nil
  bounded : order.length ≤ capacity := by exact Nat.zero_le _

namespace RecentRoundCache

def ids (c : RecentRoundCache) : List GameId := c.order.map (·.gameId)

def contains (c : RecentRoundCache) (gameId : GameId) : Prop := gameId ∈ c.ids

instance (c : RecentRoundCache) (gameId : GameId) : Decidable (c.contains gameId) :=
  inferInstanceAs (Decidable (_ ∈ _))

/-- A round that is there moves to the end; a new one may push out the oldest. -/
def put (c : RecentRoundCache) (r : CachedRound) (now : TimestampMs) : RecentRoundCache :=
  let r := { r with cachedAtMs := if r.cachedAtMs ≠ 0 then r.cachedAtMs else now }
  if h : c.contains r.gameId then
    { c with
      order := c.order.filter (·.gameId ≠ r.gameId) ++ [r]
      nodup := by
        rw [List.map_append, List.nodup_append]
        refine ⟨c.nodup.sublist (List.filter_sublist.map _), List.nodup_singleton _, ?_⟩
        intro a ha b hb
        obtain ⟨x, hx, rfl⟩ := List.mem_map.mp ha
        rw [List.mem_singleton.mp hb]
        simpa using (List.mem_filter.mp hx).2
      bounded := by
        obtain ⟨x, hx, hid⟩ := List.mem_map.mp h
        have hlt : (c.order.filter (·.gameId ≠ r.gameId)).length < c.order.length :=
          List.length_filter_lt_length_iff_exists.mpr ⟨x, hx, by simpa using hid⟩
        rw [List.length_append, List.length_singleton]
        exact (Nat.succ_le_of_lt hlt).trans c.bounded }
  else
    { c with
      order := (c.order ++ [r]).popFrontTo c.capacity
      nodup := by
        refine List.Nodup.sublist ((List.popFrontTo_suffix _).sublist.map _) ?_
        rw [List.map_append, List.nodup_append]
        refine ⟨c.nodup, List.nodup_singleton _, ?_⟩
        rintro a ha b hb rfl
        have hid : a = r.gameId := List.mem_singleton.mp hb
        rw [hid] at ha
        exact h ha
      bounded := List.length_popFrontTo_le _ }

variable {c : RecentRoundCache} {r : CachedRound} {now : TimestampMs}

theorem put_capacity : (c.put r now).capacity = c.capacity := by
  unfold put
  dsimp only
  split <;> rfl

/-- The ids after a new round came in. -/
theorem put_ids (h : ¬c.contains r.gameId) : (c.put r now).ids = (c.ids ++ [r.gameId]).popFrontTo c.capacity := by
  have hput : (c.put r now).order =
      (c.order ++ [{ r with cachedAtMs := if r.cachedAtMs ≠ 0 then r.cachedAtMs else now }]).popFrontTo c.capacity := by
    unfold put
    dsimp only
    rw [dif_neg h]
  rw [ids, hput, List.map_popFrontTo, List.map_append]
  rfl

end RecentRoundCache

/-! ### Nodes and iterators

The cache of recent rounds with its nodes and iterators (`observability/recent_round_cache.hpp`), its calls in any
order, and the map that forgets the least recently used round. -/

structure RoundCacheNodes where
  capacity : Nat := 200
  nodes : LinkedMap GameId CachedRound := {}

namespace RoundCacheNodes

/-- A round keeps the time that it comes with. -/
def stamped (r : CachedRound) (now : TimestampMs) : CachedRound :=
  { r with cachedAtMs := if r.cachedAtMs ≠ 0 then r.cachedAtMs else now }

def put (c : RoundCacheNodes) (r : CachedRound) (now : TimestampMs) : Option RoundCacheNodes :=
  let r := stamped r now
  match c.nodes.find r.gameId with
  | some it => do
    let nodes ← c.nodes.spliceToEnd it
    let nodes ← nodes.assign it r
    return { c with nodes }
  | none => do
    let nodes := c.nodes.pushBack r
    let lit ← nodes.last
    let stored ← nodes.deref lit
    let nodes ← (nodes.bind stored.gameId lit).evict (·.gameId) c.capacity
    return { c with nodes }

def get (c : RoundCacheNodes) (gameId : GameId) : Option (Option CachedRound × RoundCacheNodes) :=
  match c.nodes.find gameId with
  | none => some (none, c)
  | some it => do
    let nodes ← c.nodes.spliceToEnd it
    let r ← nodes.deref it
    return (some r, { c with nodes })

def contains (c : RoundCacheNodes) (gameId : GameId) : Bool := (c.nodes.find gameId).isSome

def size (c : RoundCacheNodes) : Nat := c.nodes.map.length

def clear (c : RoundCacheNodes) : RoundCacheNodes := { c with nodes := { c.nodes with order := [], map := [] } }

/-- The calls, with the time that they read from the clock. -/
inductive Call
  | put (r : CachedRound) (now : TimestampMs)
  | get (gameId : GameId)
  | contains (gameId : GameId)
  | size
  | clear

inductive Reply
  | done
  | round (r : Option CachedRound)
  | known (b : Bool)
  | size (n : Nat)

def call (c : RoundCacheNodes) : Call → Option (Reply × RoundCacheNodes)
  | .put r now => (c.put r now).map (.done, ·)
  | .get gameId => (c.get gameId).map fun (r, c) => (.round r, c)
  | .contains gameId => some (.known (c.contains gameId), c)
  | .size => some (.size c.size, c)
  | .clear => some (.done, c.clear)

/-- The answers to a sequence of calls and the cache after it. -/
def answers (c : RoundCacheNodes) : List Call → Option (List Reply × RoundCacheNodes)
  | [] => some ([], c)
  | a :: calls => do
    let (reply, c) ← c.call a
    let (replies, c) ← c.answers calls
    return (reply :: replies, c)

/-! ### The reference -/

/-- A call of a map that forgets the least recently used round. -/
def lruCall (capacity : Nat) (l : List CachedRound) : Call → Reply × List CachedRound
  | .put r now => (.done, Lru.put (·.gameId) capacity l (stamped r now))
  | .get gameId => (.round (Lru.get (·.gameId) l gameId).1, (Lru.get (·.gameId) l gameId).2)
  | .contains gameId => (.known (Lru.contains (·.gameId) l gameId), l)
  | .size => (.size l.length, l)
  | .clear => (.done, [])

def lruAnswers (capacity : Nat) (l : List CachedRound) : List Call → List Reply × List CachedRound
  | [] => ([], l)
  | a :: calls =>
    let (reply, l) := lruCall capacity l a
    let (replies, l) := lruAnswers capacity l calls
    (reply :: replies, l)

end RoundCacheNodes

/-- The list of the rounds alone behaves like the reference. -/
theorem RecentRoundCache.put_order (c : RecentRoundCache) (r : CachedRound) (now : TimestampMs) :
    (c.put r now).order = Lru.put (·.gameId) c.capacity c.order (RoundCacheNodes.stamped r now) := by
  by_cases h : c.contains r.gameId
  · rw [Lru.put_of_mem (v := RoundCacheNodes.stamped r now) c.bounded h, put]
    dsimp only
    rw [dif_pos h]
    rfl
  · rw [Lru.put_of_new (v := RoundCacheNodes.stamped r now) h, put]
    dsimp only
    rw [dif_neg h]
    rfl

theorem RecentRoundCache.contains_iff (c : RecentRoundCache) (gameId : GameId) :
    c.contains gameId ↔ Lru.contains (·.gameId) c.order gameId = true := by
  rw [Lru.contains, Option.isSome_iff_ne_none, Ne, Lru.peek_eq_none, not_not]
  rfl

end CrashCore
