import CrashCore.Library.BoundedList
import CrashCore.Library.Firsts
import Mathlib.Data.List.Dedup
import Mathlib.Data.List.Nodup
import Mathlib.Data.List.Perm.Basic

/-! A map of bounded size that forgets what was used least recently, over arbitrary keys and values: as the list of its values
from the least to the most recently used one, and as a linked list with a map from the keys to its nodes. The key is a
part of the value. -/

namespace Lru
variable {κ ν : Type} [DecidableEq κ] {key : ν → κ} {capacity : Nat} {l : List ν} {v : ν} {k : κ}

/-- The value with the key of `v` becomes `v`, the most recent one. -/
def touch (key : ν → κ) (l : List ν) (v : ν) : List ν := l.filter (key · ≠ key v) ++ [v]

/-- Only the most recent values stay. -/
def put (key : ν → κ) (capacity : Nat) (l : List ν) (v : ν) : List ν :=
  (touch key l v).drop ((touch key l v).length - capacity)

def peek (key : ν → κ) (l : List ν) (k : κ) : Option ν := l.find? (key · = k)

/-- What is found becomes the most recent one. -/
def get (key : ν → κ) (l : List ν) (k : κ) : Option ν × List ν :=
  (peek key l k, ((peek key l k).map (touch key l)).getD l)

def contains (key : ν → κ) (l : List ν) (k : κ) : Bool := (peek key l k).isSome

/-- The last `n` different keys in the order of their last use. -/
def recent (n : Nat) (used : List κ) : List κ := used.dedup.drop (used.dedup.length - n)

/-! ### Keys that are there, and new ones -/

theorem mem_of_peek (h : peek key l k = some v) : v ∈ l ∧ key v = k :=
  ⟨List.mem_of_find?_eq_some h, by simpa using List.find?_some h⟩

theorem peek_eq_none : peek key l k = none ↔ k ∉ l.map key := by
  simp [peek]

theorem touch_of_new (h : key v ∉ l.map key) : touch key l v = l ++ [v] := by
  have hkeep : l.filter (key · ≠ key v) = l := by
    refine List.filter_eq_self.mpr fun x hx => ?_
    have hne : key x ≠ key v := fun heq => h (heq ▸ List.mem_map_of_mem hx)
    simpa using hne
  rw [touch, hkeep]

/-- Where the key was there, a touch makes the list no longer. -/
theorem length_touch_le (h : key v ∈ l.map key) : (touch key l v).length ≤ l.length := by
  obtain ⟨x, hx, hkey⟩ := List.mem_map.mp h
  have hlt : (l.filter (key · ≠ key v)).length < l.length :=
    List.length_filter_lt_length_iff_exists.mpr ⟨x, hx, by simpa using hkey⟩
  rw [touch, List.length_append, List.length_singleton]
  exact hlt

theorem put_eq_popFrontTo : put key capacity l v = (touch key l v).popFrontTo capacity :=
  (List.popFrontTo_eq_drop _).symm

theorem put_of_mem (hl : l.length ≤ capacity) (h : key v ∈ l.map key) : put key capacity l v = touch key l v := by
  rw [put_eq_popFrontTo, List.popFrontTo_of_le (Nat.le_trans (length_touch_le h) hl)]

theorem put_of_new (h : key v ∉ l.map key) : put key capacity l v = (l ++ [v]).popFrontTo capacity := by
  rw [put_eq_popFrontTo, touch_of_new h]

theorem length_put_le : (put key capacity l v).length ≤ capacity := by
  rw [put_eq_popFrontTo]
  exact List.length_popFrontTo_le _

/-! ### The keys of a history of uses -/

theorem dedup_concat (used : List κ) (k : κ) : (used ++ [k]).dedup = touch id used.dedup k := by
  induction used with
  | nil => simp [touch]
  | cons x used ih =>
    by_cases hmem : x ∈ used
    · rw [List.cons_append, List.dedup_cons_of_mem (List.mem_append_left _ hmem), List.dedup_cons_of_mem hmem, ih]
    · rw [List.cons_append, List.dedup_cons_of_notMem hmem]
      by_cases hx : x = k
      · rw [List.dedup_cons_of_mem (by simp [hx]), ih]
        simp [touch, hx]
      · rw [List.dedup_cons_of_notMem (by simp [hmem, hx]), ih]
        simp [touch, hx]

/-- What has been forgotten makes no difference to what is remembered later. -/
theorem put_drop : ∀ {l : List κ}, l.Nodup →
    (touch id (l.popFrontTo capacity) k).popFrontTo capacity = (touch id l k).popFrontTo capacity
  | [], _ => rfl
  | x :: xs, hl => by
    obtain ⟨hx, hxs⟩ := List.nodup_cons.mp hl
    by_cases hlen : capacity < (x :: xs).length
    · rw [List.popFrontTo, if_pos hlen, put_drop hxs]
      by_cases hk : x = k
      · simp [touch, hk]
      · have herase : (xs.filter (· ≠ k)).length + 1 ≥ xs.length := by
          have heq : xs.filter (· ≠ k) = xs.erase k := by
            rw [hxs.erase_eq_filter]
            exact List.filter_congr fun y _ => by rw [bne, beq_eq_decide, decide_not]
          rw [heq, List.length_erase]
          split <;> omega
        have hlong : capacity < (x :: touch id xs k).length := by
          simp only [touch, id, List.length_cons, List.length_append] at hlen herase ⊢
          omega
        have hcons : touch id (x :: xs) k = x :: touch id xs k := by simp [touch, hk]
        rw [hcons, List.popFrontTo, if_pos hlong]
    · rw [List.popFrontTo_of_le (Nat.le_of_not_lt hlen)]

/-- The keys that are remembered are the recent ones. -/
theorem put_recent (n : Nat) (used : List κ) (k : κ) : put id n (recent n used) k = recent n (used ++ [k]) := by
  rw [put_eq_popFrontTo, recent, recent, ← List.popFrontTo_eq_drop, ← List.popFrontTo_eq_drop,
    put_drop (List.nodup_dedup used), dedup_concat]

theorem nodup_recent (n : Nat) (used : List κ) : (recent n used).Nodup :=
  (List.nodup_dedup used).sublist (List.drop_sublist _ _)

theorem length_recent_le (n : Nat) (used : List κ) : (recent n used).length ≤ n := by
  rw [recent, List.length_drop]
  omega

end Lru

/-! ### Nodes

`std::list` and `std::unordered_map` of its iterators. An operation on a node that is no longer there is undefined,
`none`. -/

structure LinkedMap (κ ν : Type) where
  /-- The nodes in their order, each with its address. -/
  order : List (Nat × ν) := []
  map : List (κ × Nat) := []
  /-- No node has had this address or a later one. -/
  next : Nat := 0

namespace LinkedMap
variable {κ ν : Type} {key : ν → κ} {m m' : LinkedMap κ ν} {k : κ} {v : ν} {it : Nat}

def values (m : LinkedMap κ ν) : List ν := m.order.map (·.2)

section
variable [DecidableEq κ]

/-- `map.find(k)`, `none` for `map.end()`. -/
def find (m : LinkedMap κ ν) (k : κ) : Option Nat := (m.map.find? (·.1 = k)).map (·.2)

/-- `*it`. -/
def deref (m : LinkedMap κ ν) (it : Nat) : Option ν := (m.order.find? (·.1 = it)).map (·.2)

/-- `order.splice(order.end(), order, it)`. -/
def spliceToEnd (m : LinkedMap κ ν) (it : Nat) : Option (LinkedMap κ ν) :=
  (m.order.find? (·.1 = it)).map fun node => { m with order := m.order.filter (·.1 ≠ it) ++ [node] }

/-- `*it = v`. -/
def assign (m : LinkedMap κ ν) (it : Nat) (v : ν) : Option (LinkedMap κ ν) :=
  (m.deref it).map fun _ => { m with order := m.order.map fun node => if node.1 = it then (it, v) else node }

/-- `order.push_back(v)`. -/
def pushBack (m : LinkedMap κ ν) (v : ν) : LinkedMap κ ν :=
  { m with order := m.order ++ [(m.next, v)], next := m.next + 1 }

/-- `std::prev(order.end())`. -/
def last (m : LinkedMap κ ν) : Option Nat := m.order.getLast?.map (·.1)

/-- `map[k] = it`. -/
def bind (m : LinkedMap κ ν) (k : κ) (it : Nat) : LinkedMap κ ν :=
  { m with map := m.map.filter (·.1 ≠ k) ++ [(k, it)] }

/-- `map.erase(k)`. -/
def erase (map : List (κ × Nat)) (k : κ) : List (κ × Nat) := map.filter (·.1 ≠ k)

/-- The loop `while (map.size() > capacity)` that erases the front of the list and its key. -/
def evictLoop (key : ν → κ) (capacity : Nat) :
    List (Nat × ν) → List (κ × Nat) → Option (List (Nat × ν) × List (κ × Nat))
  | [], map => if capacity < map.length then none else some ([], map)
  | oldest :: order, map =>
    if capacity < map.length then evictLoop key capacity order (erase map (key oldest.2)) else some (oldest :: order, map)

def evict (key : ν → κ) (capacity : Nat) (m : LinkedMap κ ν) : Option (LinkedMap κ ν) :=
  (evictLoop key capacity m.order m.map).map fun (order, map) => { m with order, map }

end

/-! ### The bijection between the nodes and the map -/

/-- The entry of the map for a node. -/
def entry (key : ν → κ) (node : Nat × ν) : κ × Nat := (key node.2, node.1)

/-- The map has the nodes of the list under their keys, and nothing else. -/
structure Bijective (key : ν → κ) (order : List (Nat × ν)) (map : List (κ × Nat)) : Prop where
  entries : map.Perm (order.map (entry key))
  keys : (order.map fun node => key node.2).Nodup
  addresses : (order.map (·.1)).Nodup

/-- The list and the map agree, and the next address is free. -/
structure Linked (key : ν → κ) (m : LinkedMap κ ν) : Prop where
  bijective : Bijective key m.order m.map
  free : ∀ node ∈ m.order, node.1 < m.next

section
variable {order : List (Nat × ν)} {map : List (κ × Nat)} {node : Nat × ν}

theorem Bijective.length (h : Bijective key order map) : map.length = order.length := by
  rw [h.entries.length_eq, List.length_map]

/-- It depends on the entries alone. -/
theorem Bijective.of_perm {order' : List (Nat × ν)} (h : Bijective key order map)
    (hperm : (order.map (entry key)).Perm (order'.map (entry key))) : Bijective key order' map := by
  have hkeys : ∀ l : List (Nat × ν), l.map (fun node => key node.2) = (l.map (entry key)).map (·.1) := fun l => by
    simp [entry]
  have haddr : ∀ l : List (Nat × ν), l.map (·.1) = (l.map (entry key)).map (·.2) := fun l => by simp [entry]
  refine ⟨h.entries.trans hperm, ?_, ?_⟩
  · rw [hkeys, ← (hperm.map _).nodup_iff, ← hkeys]
    exact h.keys
  · rw [haddr, ← (hperm.map _).nodup_iff, ← haddr]
    exact h.addresses

/-- A key leads to the node with this key. -/
theorem Bijective.mem_map (h : Bijective key order map) : (k, it) ∈ map ↔ ∃ v, (it, v) ∈ order ∧ key v = k := by
  rw [h.entries.mem_iff, List.mem_map]
  constructor
  · rintro ⟨⟨i, v⟩, hmem, heq⟩
    obtain ⟨rfl, rfl⟩ := Prod.mk.inj heq
    exact ⟨v, hmem, rfl⟩
  · rintro ⟨v, hmem, rfl⟩
    exact ⟨(it, v), hmem, rfl⟩

variable [DecidableEq κ]

theorem Bijective.of_cons (h : Bijective key (node :: order) map) :
    Bijective key order (erase map (key node.2)) := by
  obtain ⟨hfresh, hkeys⟩ := List.nodup_cons.mp h.keys
  refine ⟨?_, hkeys, (List.nodup_cons.mp h.addresses).2⟩
  have hrest : (order.map (entry key)).filter (·.1 ≠ key node.2) = order.map (entry key) := by
    refine List.filter_eq_self.mpr fun e he => ?_
    obtain ⟨n, hn, rfl⟩ := List.mem_map.mp he
    exact decide_eq_true fun heq => hfresh (List.mem_map.mpr ⟨n, hn, heq⟩)
  have hperm := h.entries.filter (·.1 ≠ key node.2)
  rw [List.map_cons, List.filter_cons_of_neg (by simp [entry]), hrest] at hperm
  exact hperm

/-- The loop ends, with as many nodes as there may be. -/
theorem evictLoop_eq (capacity : Nat) : ∀ {order : List (Nat × ν)} {map : List (κ × Nat)}, Bijective key order map →
    ∃ map', evictLoop key capacity order map = some (order.popFrontTo capacity, map') ∧
      Bijective key (order.popFrontTo capacity) map'
  | [], map, h => by
    have hlen : ¬capacity < map.length := by
      rw [h.length]
      exact Nat.not_lt_zero _
    exact ⟨map, if_neg hlen, h⟩
  | node :: order, map, h => by
    rw [evictLoop, List.popFrontTo, h.length]
    split
    · exact evictLoop_eq capacity h.of_cons
    · exact ⟨map, rfl, h⟩

end

/-! ### Nodes -/

theorem find?_node {before behind : List (Nat × ν)} (h : ∀ node ∈ before, node.1 ≠ it) :
    (before ++ (it, v) :: behind).find? (·.1 = it) = some (it, v) := by
  rw [List.find?_append, List.find?_eq_none.mpr fun node hn => by simpa using h node hn]
  simp

theorem deref_last {rest : List (Nat × ν)} (h : ∀ node ∈ rest, node.1 ≠ it) :
    { m with order := rest ++ [(it, v)] }.deref it = some v := by
  rw [deref, find?_node h]
  rfl

theorem assign_last {rest : List (Nat × ν)} (h : ∀ node ∈ rest, node.1 ≠ it) (w : ν) :
    { m with order := rest ++ [(it, v)] }.assign it w = some { m with order := rest ++ [(it, w)] } := by
  have hrest : rest.map (fun node => if node.1 = it then (it, w) else node) = rest := by
    conv_rhs => rw [← List.map_id rest]
    exact List.map_congr_left fun node hn => if_neg (h node hn)
  rw [assign, deref_last h, Option.map_some, List.map_append, hrest, List.map_singleton, if_pos rfl]

theorem last_pushBack : (m.pushBack v).last = some m.next := by simp [last, pushBack]

theorem Linked.deref_pushBack (h : m.Linked key) : (m.pushBack v).deref m.next = some v := by
  have hne : ∀ node ∈ m.order, node.1 ≠ m.next := fun node hn => Nat.ne_of_lt (h.free node hn)
  rw [deref, pushBack, find?_node hne]
  rfl

/-! ### What the operations find -/

section
variable [DecidableEq κ]

theorem Linked.find_eq_none (h : m.Linked key) : m.find k = none ↔ k ∉ m.values.map key := by
  have hmem : k ∈ m.values.map key ↔ ∃ it, (k, it) ∈ m.map := by
    simp only [h.bijective.mem_map, values, List.mem_map]
    constructor
    · rintro ⟨v, ⟨⟨i, w⟩, hn, rfl⟩, rfl⟩
      exact ⟨i, w, hn, rfl⟩
    · rintro ⟨i, v, hn, rfl⟩
      exact ⟨v, ⟨(i, v), hn, rfl⟩, rfl⟩
  rw [find, Option.map_eq_none_iff, List.find?_eq_none, hmem]
  constructor
  · rintro hnone ⟨i, hi⟩
    exact hnone (k, i) hi (by simp)
  · rintro hnone ⟨k', i⟩ hi heq
    obtain rfl : k' = k := by simpa using heq
    exact hnone ⟨i, hi⟩

/-- The node that a key leads to, and where it stands in the list. -/
theorem Linked.find_eq_some (h : m.Linked key) (hf : m.find k = some it) :
    ∃ v before behind, m.order = before ++ (it, v) :: behind ∧ key v = k ∧
      (∀ node ∈ before ++ behind, node.1 ≠ it ∧ key node.2 ≠ k) := by
  obtain ⟨⟨k', i⟩, he, rfl⟩ := Option.map_eq_some_iff.mp hf
  obtain rfl : k' = k := by simpa using List.find?_some he
  obtain ⟨v, hmem, rfl⟩ := h.bijective.mem_map.mp (List.mem_of_find?_eq_some he)
  obtain ⟨before, behind, heq⟩ := List.append_of_mem hmem
  have hsplit : m.order.Perm ((i, v) :: (before ++ behind)) := heq ▸ List.perm_middle
  have hkeys := (hsplit.map fun node => key node.2).nodup_iff.mp h.bijective.keys
  have haddr := (hsplit.map (·.1)).nodup_iff.mp h.bijective.addresses
  refine ⟨v, before, behind, heq, rfl, fun node hn => ⟨fun hi => ?_, fun hk => ?_⟩⟩
  · exact (List.nodup_cons.mp haddr).1 (List.mem_map.mpr ⟨node, hn, hi⟩)
  · exact (List.nodup_cons.mp hkeys).1 (List.mem_map.mpr ⟨node, hn, hk⟩)

/-! ### A key that is there -/

/-- The node of a key that is there, moved to the end with a value of this key. -/
structure Moves (key : ν → κ) (m : LinkedMap κ ν) (it : Nat) (v : ν) (rest : List (Nat × ν)) : Prop where
  found : Lru.peek key m.values (key v) = some v
  deref : m.deref it = some v
  splice : m.spliceToEnd it = some { m with order := rest ++ [(it, v)] }
  others : ∀ node ∈ rest, node.1 ≠ it
  linked : ∀ w, key w = key v → { m with order := rest ++ [(it, w)] }.Linked key
  touched : ∀ w, key w = key v → { m with order := rest ++ [(it, w)] }.values = Lru.touch key m.values w

theorem Linked.moves (h : m.Linked key) (hf : m.find k = some it) : ∃ v rest, key v = k ∧ m.Moves key it v rest := by
  obtain ⟨v, before, behind, heq, rfl, hothers⟩ := h.find_eq_some hf
  have hbefore : ∀ node ∈ before, node.1 ≠ it := fun node hn => (hothers node (List.mem_append_left _ hn)).1
  have hrest : ∀ node ∈ before ++ behind, node.1 ≠ it := fun node hn => (hothers node hn).1
  refine ⟨v, before ++ behind, rfl, ?_, ?_, ?_, hrest, fun w hw => ?_, fun w hw => ?_⟩
  · have hnone : (before.map (·.2)).find? (key · = key v) = none := by
      refine List.find?_eq_none.mpr fun x hx => ?_
      obtain ⟨node, hn, rfl⟩ := List.mem_map.mp hx
      simpa using (hothers node (List.mem_append_left _ hn)).2
    rw [Lru.peek, values, heq, List.map_append, List.find?_append, hnone]
    simp
  · rw [LinkedMap.deref, heq, find?_node hbefore]
    rfl
  · have hfilter : m.order.filter (·.1 ≠ it) = before ++ behind := by
      rw [heq, List.filter_append, List.filter_cons_of_neg (by simp), ← List.filter_append]
      exact List.filter_eq_self.mpr fun node hn => by simpa using hrest node hn
    rw [spliceToEnd, hfilter, heq, find?_node hbefore]
    rfl
  · have hperm : (m.order.map (entry key)).Perm ((before ++ behind ++ [(it, w)]).map (entry key)) := by
      have hentry : entry key (it, w) = entry key (it, v) := by rw [entry, entry, hw]
      rw [heq, List.map_append, List.map_cons, List.map_append, List.map_append, List.map_singleton, hentry]
      exact List.perm_middle.trans (List.perm_append_singleton _ _).symm
    refine ⟨h.bijective.of_perm hperm, fun node hn => ?_⟩
    rcases List.mem_append.mp hn with hn | hn
    · exact h.free node (heq ▸ List.mem_append.mpr ((List.mem_append.mp hn).imp_right (List.mem_cons_of_mem _)))
    · rw [List.mem_singleton.mp hn]
      exact h.free (it, v) (heq ▸ List.mem_append_right _ List.mem_cons_self)
  · have hkeep : ((before ++ behind).map (·.2)).filter (key · ≠ key w) = (before ++ behind).map (·.2) := by
      refine List.filter_eq_self.mpr fun x hx => ?_
      obtain ⟨node, hn, rfl⟩ := List.mem_map.mp hx
      simpa [hw] using (hothers node hn).2
    have hdrop : m.values.filter (key · ≠ key w) = (before ++ behind).map (·.2) := by
      rw [← hkeep, values, heq, List.map_append, List.map_cons, List.map_append, List.filter_append,
        List.filter_cons_of_neg (by simp [hw]), List.filter_append]
    rw [Lru.touch, hdrop, values, List.map_append]
    rfl

/-! ### A new key -/

theorem Linked.insert (h : m.Linked key) (hnew : m.find (key v) = none) :
    ((m.pushBack v).bind (key v) m.next).Linked key := by
  have hfresh : ∀ node ∈ m.order, key node.2 ≠ key v := fun node hn heq =>
    h.find_eq_none.mp hnew (List.mem_map.mpr ⟨node.2, List.mem_map_of_mem hn, heq⟩)
  have hunbound : m.map.filter (·.1 ≠ key v) = m.map := by
    refine List.filter_eq_self.mpr fun ⟨k, i⟩ he => ?_
    obtain ⟨x, hx, rfl⟩ := h.bijective.mem_map.mp he
    exact decide_eq_true (hfresh (i, x) hx)
  refine ⟨⟨?_, ?_, ?_⟩, fun node hn => ?_⟩
  · show (m.map.filter (·.1 ≠ key v) ++ [(key v, m.next)]).Perm ((m.order ++ [(m.next, v)]).map (entry key))
    rw [hunbound, List.map_append]
    exact h.bijective.entries.append_right _
  · exact List.nodup_map_append_singleton h.bijective.keys hfresh
  · exact List.nodup_map_append_singleton h.bijective.addresses fun node hn => Nat.ne_of_lt (h.free node hn)
  · rcases List.mem_append.mp hn with hn | hn
    · exact Nat.lt_succ_of_lt (h.free node hn)
    · rw [List.mem_singleton.mp hn]
      exact Nat.lt_succ_self _

theorem values_insert : ((m.pushBack v).bind k it).values = m.values ++ [v] := by
  simp [values, bind, pushBack]

theorem Linked.evict (h : m.Linked key) (capacity : Nat) : ∃ m', m.evict key capacity = some m' ∧ m'.Linked key ∧
    m'.values = m.values.popFrontTo capacity := by
  obtain ⟨map, hloop, hbij⟩ := evictLoop_eq capacity h.bijective
  refine ⟨{ m with order := m.order.popFrontTo capacity, map }, ?_, ⟨hbij, fun node hn => ?_⟩,
    List.map_popFrontTo _ _⟩
  · rw [LinkedMap.evict, hloop]
    rfl
  · exact h.free node ((List.popFrontTo_suffix _).subset hn)

end
end LinkedMap
