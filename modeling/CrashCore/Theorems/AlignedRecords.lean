import CrashCore.Theorems.HistoryRecords
import CrashCore.Theorems.PollOnce

/-! When `parseHistoryBody` gives each round the fields of its own record. It looks for a detail behind an id without
regard to where the record ends. -/

namespace CrashCore
namespace HistoryReader
open TextSearch

variable {reader : HistoryReader} {decode : List Char → List Char} {now : TimestampMs} {cache : RecentRoundCache}
variable {x y : RecordAt} {d : DetailAt} {xs rest : List RecordAt}

/-- A round, and where the id and the detail open that it comes from. -/
structure Sourced where
  idAt : Nat
  detailAt : Nat
  round : FetchedRound

/-- The round of a record with a numeric id and a valid detail. `decode` is what a JSON reader makes of the text between
    the quotes of a string. -/
def RecordAt.stated (reader : HistoryReader) (decode : List Char → List Char) (x : RecordAt) : Option Sourced :=
  x.detail.bind fun d =>
    (reader.parseFetchedRound (decode x.record.id) (decode d.detail.raw)).map (⟨x.opens, d.opens, ·⟩)

def Reading.sourced (reader : HistoryReader) (r : Reading) : Option Sourced :=
  (r.round reader).map (⟨r.idAt, r.detailAt, ·⟩)

/-- The rounds that the cache does not have; they are put there. -/
def keepNew (now : TimestampMs) : RecentRoundCache → List Sourced → List Sourced
  | _, [] => []
  | cache, s :: rest =>
    if cache.contains s.round.gameId then keepNew now cache rest
    else s :: keepNew now (cache.put (PollWorker.cached s.round) now) rest

/-- What `parseHistoryBody` returns for the page, and where it comes from, are the rounds of the records, in order. -/
def StaysAligned (reader : HistoryReader) (decode : List Char → List Char) (now : TimestampMs) (cache : RecentRoundCache)
    (page : Page) : Prop :=
  ∃ fuel rounds rs,
    reader.parseHistoryBody page.text fuel 0 = some rounds ∧ readings page.text fuel 0 = some rs ∧
    (PollWorker.takeNew now cache rounds).2 =
      ((place 0 page.records).filterMap (·.stated reader decode)).map (·.round) ∧
    keepNew now cache (rs.filterMap (·.sourced reader)) = (place 0 page.records).filterMap (·.stated reader decode)

/-! ### When a page is read as what it says -/

/-- What is left of a body is read as what the records `xs` say. -/
inductive Aligned (reader : HistoryReader) (decode : List Char → List Char) (now : TimestampMs) (body : List Char) :
    RecentRoundCache → List RecordAt → List Char → Prop
  /-- No id is left, and no record that says something. -/
  | ended {cache : RecentRoundCache} {xs : List RecordAt} {text : List Char} :
      (∀ opened id behind, ¬IdAt body text opened id behind) → (∀ x ∈ xs, x.stated reader decode = none) →
      Aligned reader decode now body cache xs text
  /-- An id without a detail. -/
  | plain {cache : RecentRoundCache} {xs : List RecordAt} {text opened id behind : List Char} :
      IdAt body text opened id behind → (∀ detail, ¬DetailOpens body ('"' :: behind) detail) →
      Aligned reader decode now body cache xs behind → Aligned reader decode now body cache xs text
  /-- An id and a detail that make no round, or one that the cache has. -/
  | unused {cache : RecentRoundCache} {xs : List RecordAt} {text opened id behind detail : List Char} :
      IdAt body text opened id behind → DetailOpens body ('"' :: behind) detail →
      (∀ fr ∈ reader.parseFetchedRound id (unescape detail 0).1, cache.contains fr.gameId) →
      Aligned reader decode now body cache xs (behindString detail) → Aligned reader decode now body cache xs text
  /-- The id and the detail of one record, with the round that the record says. The records before it say nothing. -/
  | own {cache : RecentRoundCache} {skipped xs : List RecordAt} {x : RecordAt} {d : DetailAt} {fr : FetchedRound}
      {text opened id behind detail : List Char} :
      IdAt body text opened id behind → DetailOpens body ('"' :: behind) detail →
      (∀ z ∈ skipped, z.stated reader decode = none) → x.detail = some d →
      x.opens = quoteAt body opened → d.opens = quoteAt body detail →
      reader.parseFetchedRound id (unescape detail 0).1 = some fr →
      reader.parseFetchedRound (decode x.record.id) (decode d.detail.raw) = some fr → ¬cache.contains fr.gameId →
      Aligned reader decode now body (cache.put (PollWorker.cached fr) now) xs (behindString detail) →
      Aligned reader decode now body cache (skipped ++ x :: xs) text

theorem map_keepNew (now : TimestampMs) : ∀ (l : List Sourced) (cache : RecentRoundCache),
    (keepNew now cache l).map (·.round) = (PollWorker.takeNew now cache (l.map (·.round))).2
  | [], _ => rfl
  | s :: l, cache => by
    rw [keepNew, List.map_cons, PollWorker.takeNew]
    split
    · exact map_keepNew now l cache
    · exact congrArg (s.round :: ·) (map_keepNew now l _)

theorem map_sourced (reader : HistoryReader) (rs : List Reading) :
    (rs.filterMap (·.sourced reader)).map (·.round) = rs.filterMap (·.round reader) := by
  rw [List.map_filterMap]
  refine List.filterMap_congr fun r _ => ?_
  rw [Reading.sourced, Option.map_map]
  exact Option.map_id'

/-- The readings of the loop decide it. -/
theorem staysAligned_iff_readings {page : Page} : StaysAligned reader decode now cache page ↔
    ∃ fuel rs, readings page.text fuel 0 = some rs ∧ keepNew now cache (rs.filterMap (·.sourced reader)) =
      (place 0 page.records).filterMap (·.stated reader decode) := by
  constructor
  · rintro ⟨fuel, rounds, rs, -, hrs, -, hkeep⟩
    exact ⟨fuel, rs, hrs, hkeep⟩
  · rintro ⟨fuel, rs, hrs, hkeep⟩
    have hparse : reader.parseHistoryBody page.text fuel 0 = some (rs.filterMap (·.round reader)) := by
      rw [parseHistoryBody_readings, hrs, Option.map_some]
    refine ⟨fuel, _, rs, hparse, hrs, ?_, hkeep⟩
    rw [← map_sourced, ← map_keepNew]
    exact congrArg (List.map (·.round)) hkeep

theorem turn_eq_none_iff {body : List Char} {pos : Nat} :
    turn body pos = none ↔ ∀ opened id behind, ¬IdAt body (body.drop pos) opened id behind := by
  constructor
  · intro h opened id behind hid
    obtain ⟨gidPos, q1, q2, hgid, hq1, hq2, -⟩ := hid.exists_turn
    cases h.symm.trans (turn_eq_some.mpr ⟨gidPos, q1, q2, hgid, hq1, hq2, rfl⟩)
  · intro h
    refine Option.eq_none_iff_forall_ne_some.mpr fun t ht => ?_
    obtain ⟨opened, id, behind, hid⟩ := exists_idAt ht
    exact h opened id behind hid

theorem aligned_of_readings {body : List Char} : ∀ {fuel pos : Nat} {cache : RecentRoundCache} {xs : List RecordAt}
    {rs : List Reading}, readings body fuel pos = some rs →
    keepNew now cache (rs.filterMap (·.sourced reader)) = xs.filterMap (·.stated reader decode) →
    Aligned reader decode now body cache xs (body.drop pos) := by
  intro fuel
  induction fuel with
  | zero => exact fun h => nomatch h
  | succ fuel ih =>
    intro pos cache xs rs hread hkeep
    rw [readings] at hread
    rcases ht : turn body pos with _ | t
    · rw [ht] at hread
      cases hread
      exact .ended (turn_eq_none_iff.mp ht) (List.filterMap_eq_nil_iff.mp hkeep.symm)
    rw [ht] at hread
    obtain ⟨rest, hrest, rfl⟩ := Option.map_eq_some_iff.mp hread
    obtain ⟨opened, id, behind, hid⟩ := exists_idAt ht
    by_cases hdetail : ∃ detail, DetailOpens body ('"' :: behind) detail
    · obtain ⟨detail, hdetail⟩ := hdetail
      obtain ⟨next, ht', hnext⟩ := hid.turn_detailed hdetail
      obtain rfl := Option.some.inj (ht.symm.trans ht')
      dsimp only at hrest hkeep
      have hround : ∀ fr, reader.parseFetchedRound id (unescape detail 0).1 = fr →
          Reading.sourced reader ⟨quoteAt body opened, id, quoteAt body detail, (unescape detail 0).1⟩ =
            fr.map (⟨quoteAt body opened, quoteAt body detail, ·⟩) := fun _ h => h ▸ rfl
      rw [Option.toList_some, List.singleton_append, List.filterMap_cons] at hkeep
      rcases hfr : reader.parseFetchedRound id (unescape detail 0).1 with _ | fr
      · rw [hround _ hfr] at hkeep
        exact .unused hid hdetail (by simp [hfr]) (hnext ▸ ih hrest hkeep)
      · rw [hround _ hfr, Option.map_some, keepNew] at hkeep
        by_cases hold : cache.contains fr.gameId
        · rw [if_pos hold] at hkeep
          exact .unused hid hdetail (by simp [hfr, hold]) (hnext ▸ ih hrest hkeep)
        · rw [if_neg hold] at hkeep
          obtain ⟨skipped, x, xs', rfl, hskipped, hx, hxs⟩ := List.filterMap_eq_cons_iff.mp hkeep.symm
          obtain ⟨d, hd, hs⟩ := Option.bind_eq_some_iff.mp hx
          obtain ⟨fr', hstated, heq⟩ := Option.map_eq_some_iff.mp hs
          obtain ⟨hopens, hdopens, rfl⟩ := Sourced.mk.inj heq
          exact .own hid hdetail hskipped hd hopens hdopens hfr hstated hold (hnext ▸ ih hrest hxs.symm)
    · have hplain : ∀ detail, ¬DetailOpens body ('"' :: behind) detail := not_exists.mp hdetail
      obtain ⟨next, ht', rfl⟩ := hid.turn_plain hplain
      obtain rfl := Option.some.inj (ht.symm.trans ht')
      exact .plain hid hplain (ih hrest hkeep)

theorem Aligned.readings {body text : List Char} (h : Aligned reader decode now body cache xs text) :
    ∀ pos, body.drop pos = text → ∃ fuel rs, readings body fuel pos = some rs ∧
      keepNew now cache (rs.filterMap (·.sourced reader)) = xs.filterMap (·.stated reader decode) := by
  induction h with
  | ended hnone hxs =>
    rintro pos rfl
    refine ⟨1, [], by rw [HistoryReader.readings, turn_eq_none_iff.mpr hnone], ?_⟩
    exact (List.filterMap_eq_nil_iff.mpr hxs).symm
  | plain hid hplain _ ih =>
    rintro pos rfl
    obtain ⟨next, ht, hnext⟩ := hid.turn_plain hplain
    obtain ⟨fuel, rs, hrs, hkeep⟩ := ih next hnext
    exact ⟨fuel + 1, rs, by rw [HistoryReader.readings, ht]; simp [hrs], hkeep⟩
  | unused hid hdetail hunused _ ih =>
    rintro pos rfl
    obtain ⟨next, ht, hnext⟩ := hid.turn_detailed hdetail
    obtain ⟨fuel, rs, hrs, hkeep⟩ := ih next hnext
    refine ⟨fuel + 1, _, by rw [HistoryReader.readings, ht]; simp only [hrs, Option.map_some]; rfl, ?_⟩
    rw [← hkeep, Option.toList_some, List.singleton_append, List.filterMap_cons, Reading.sourced, Reading.round]
    dsimp only
    rcases hfr : reader.parseFetchedRound _ (unescape _ 0).1 with _ | fr
    · rfl
    · dsimp only [Option.map_some]
      rw [keepNew, if_pos (hunused fr hfr)]
  | @own cache skipped xs x d fr text opened id behind detail hid hdetail hskipped hd hopens hdopens hfr hstated hnew _ ih =>
    rintro pos rfl
    obtain ⟨next, ht, hnext⟩ := hid.turn_detailed hdetail
    obtain ⟨fuel, rs, hrs, hkeep⟩ := ih next hnext
    refine ⟨fuel + 1, _, by rw [HistoryReader.readings, ht]; simp only [hrs, Option.map_some]; rfl, ?_⟩
    have hx : x.stated reader decode = some ⟨quoteAt body opened, quoteAt body detail, fr⟩ := by
      rw [RecordAt.stated, hd, Option.bind_some, hstated, hopens, hdopens, Option.map_some]
    have hstated : (skipped ++ x :: xs).filterMap (·.stated reader decode) =
        ⟨quoteAt body opened, quoteAt body detail, fr⟩ :: xs.filterMap (·.stated reader decode) := by
      rw [List.filterMap_append, List.filterMap_eq_nil_iff.mpr hskipped, List.nil_append, List.filterMap_cons, hx]
    rw [hstated, Option.toList_some, List.singleton_append, List.filterMap_cons, Reading.sourced, Reading.round, hfr]
    dsimp only [Option.map_some]
    rw [keepNew, if_neg hnew, hkeep]

/-! ### Pages where the keys stand clear -/

/-- The round that is read of an id and a detail, unless the cache has it. -/
def taken (reader : HistoryReader) (cache : RecentRoundCache) (p : RecordAt × DetailAt) : Option Sourced :=
  ((reading p).sourced reader).filter fun s => ¬cache.contains s.round.gameId

def cacheWith (now : TimestampMs) (cache : RecentRoundCache) : Option Sourced → RecentRoundCache
  | none => cache
  | some s => cache.put (PollWorker.cached s.round) now

/-- A record with a near detail is read as what it says, and is new; one with a far detail says nothing. Where a record
    without a detail comes near the detail of a later one, nothing is read of the two and the later one says nothing. -/
def RecordsAlign (reader : HistoryReader) (decode : List Char → List Char) (now : TimestampMs) :
    RecentRoundCache → List RecordAt → Prop
  | _, [] => True
  | cache, x :: xs =>
    match x.detail with
    | some d =>
      if d.keyAt ≤ x.stop + 500 then
        taken reader cache (x, d) = x.stated reader decode ∧
          RecordsAlign reader decode now (cacheWith now cache (x.stated reader decode)) xs
      else x.stated reader decode = none ∧ RecordsAlign reader decode now cache xs
    | none =>
      match _h : firstDetail xs with
      | none => RecordsAlign reader decode now cache xs
      | some (y, d, rest) =>
        if d.keyAt ≤ x.stop + 500 then
          taken reader cache (x, d) = none ∧ y.stated reader decode = none ∧ RecordsAlign reader decode now cache rest
        else RecordsAlign reader decode now cache xs
termination_by _ xs => xs.length
decreasing_by
  · exact Nat.lt_succ_self _
  · exact Nat.lt_succ_self _
  · exact Nat.lt_succ_self _
  · exact Nat.lt_succ_of_lt (firstDetail_length _h)
  · exact Nat.lt_succ_self _

/-! ### The rounds that come out -/

theorem keepNew_toList (s : Option Sourced) (l : List Sourced) :
    keepNew now cache (s.toList ++ l) =
      (s.filter fun s => ¬cache.contains s.round.gameId).toList ++
        keepNew now (cacheWith now cache (s.filter fun s => ¬cache.contains s.round.gameId)) l := by
  cases s with
  | none => rfl
  | some s =>
    rw [Option.toList_some, List.singleton_append, keepNew]
    by_cases hold : cache.contains s.round.gameId
    · simp [Option.filter_some, hold, cacheWith]
    · simp [Option.filter_some, hold, cacheWith]

/-- What the code returns for the ids and details that it puts together. -/
def returned (reader : HistoryReader) (now : TimestampMs) (cache : RecentRoundCache) (ps : List (RecordAt × DetailAt)) :
    List Sourced :=
  keepNew now cache ((ps.map reading).filterMap (·.sourced reader))

theorem returned_cons (p : RecordAt × DetailAt) (ps : List (RecordAt × DetailAt)) : returned reader now cache (p :: ps) =
    (taken reader cache p).toList ++ returned reader now (cacheWith now cache (taken reader cache p)) ps := by
  have hcons : ((p :: ps).map reading).filterMap (·.sourced reader) =
      ((reading p).sourced reader).toList ++ (ps.map reading).filterMap (·.sourced reader) := by
    rw [List.map_cons, List.filterMap_cons]
    cases (reading p).sourced reader <;> rfl
  rw [returned, hcons, keepNew_toList]
  rfl

theorem taken_idAt {s : Sourced} (h : s ∈ taken reader cache (x, d)) : s.idAt = x.opens := by
  obtain ⟨hs, -⟩ := Option.filter_eq_some_iff.mp h
  obtain ⟨r, -, rfl⟩ := Option.map_eq_some_iff.mp hs
  rfl

theorem stated_idAt {s : Sourced} (h : s ∈ x.stated reader decode) : s.idAt = x.opens := by
  obtain ⟨d, -, hs⟩ := Option.bind_eq_some_iff.mp h
  obtain ⟨r, -, rfl⟩ := Option.map_eq_some_iff.mp hs
  rfl

theorem stated_of_no_detail (h : x.detail = none) : x.stated reader decode = none := by
  rw [RecordAt.stated, h]
  rfl

/-- Where the first detail stands among the records. -/
theorem firstDetail_split (h : firstDetail xs = some (y, d, rest)) :
    ∃ skipped, xs = skipped ++ y :: rest ∧ (∀ z ∈ skipped, z.detail = none) ∧ y.detail = some d := by
  induction xs with
  | nil => cases h
  | cons x xs ih =>
    rw [firstDetail] at h
    split at h
    · rename_i hd
      cases h
      exact ⟨[], rfl, by simp, hd⟩
    · rename_i hnone
      obtain ⟨skipped, rfl, hskipped, hd⟩ := ih h
      exact ⟨x :: skipped, rfl, List.forall_mem_cons.mpr ⟨hnone, hskipped⟩, hd⟩

theorem pairs_subset : ∀ {xs : List RecordAt} {p : RecordAt × DetailAt}, p ∈ pairs xs → p.1 ∈ xs := by
  intro xs
  fun_induction pairs xs with
  | case1 => exact fun h => nomatch h
  | case2 x xs hnone ih => exact fun h => List.mem_cons_of_mem x (ih h)
  | case3 x xs y d rest hfirst hnear ih =>
    intro p h
    rcases List.mem_cons.mp h with rfl | h
    · exact List.mem_cons_self
    · obtain ⟨skipped, heq, -⟩ := firstDetail_split hfirst
      rw [heq]
      exact List.mem_append_right _ (List.mem_cons_of_mem y (ih h))
  | case4 x xs y d rest hfirst hfar ih => exact fun h => List.mem_cons_of_mem x (ih h)

/-! ### Comparing them with what the records say -/

/-- Lists that go on behind their first elements are compared part by part. -/
theorem toList_append_inj {a : Nat} {o o' : Option Sourced} {l l' : List Sourced} (ho : ∀ s ∈ o, s.idAt = a)
    (ho' : ∀ s ∈ o', s.idAt = a) (hl : ∀ s ∈ l, a < s.idAt) (hl' : ∀ s ∈ l', a < s.idAt) :
    o.toList ++ l = o'.toList ++ l' ↔ o = o' ∧ l = l' := by
  refine ⟨fun h => ?_, fun h => by rw [h.1, h.2]⟩
  cases o with
  | none =>
    cases o' with
    | none => exact ⟨rfl, h⟩
    | some s =>
      have hlt := hl s (by simp at h; simp [h])
      rw [ho' s rfl] at hlt
      exact absurd hlt (Nat.lt_irrefl a)
  | some s =>
    cases o' with
    | none =>
      have hlt := hl' s (by simp at h; simp [← h])
      rw [ho s rfl] at hlt
      exact absurd hlt (Nat.lt_irrefl a)
    | some s' =>
      obtain ⟨rfl, rfl⟩ := List.cons.inj h
      exact ⟨rfl, rfl⟩

theorem mem_keepNew {s : Sourced} : ∀ {l : List Sourced} {cache : RecentRoundCache}, s ∈ keepNew now cache l → s ∈ l
  | t :: l, cache, h => by
    rw [keepNew] at h
    split at h
    · exact List.mem_cons_of_mem t (mem_keepNew h)
    · exact (List.mem_cons.mp h).elim (fun h => h ▸ List.mem_cons_self) fun h => List.mem_cons_of_mem t (mem_keepNew h)

theorem mem_returned {s : Sourced} (h : s ∈ returned reader now cache (pairs xs)) : ∃ x ∈ xs, s.idAt = x.opens := by
  obtain ⟨r, hr, hs⟩ := List.mem_filterMap.mp (mem_keepNew h)
  obtain ⟨p, hp, rfl⟩ := List.mem_map.mp hr
  obtain ⟨fr, -, rfl⟩ := Option.map_eq_some_iff.mp hs
  exact ⟨p.1, pairs_subset hp, rfl⟩

theorem mem_stated {s : Sourced} (h : s ∈ xs.filterMap (·.stated reader decode)) : ∃ x ∈ xs, s.idAt = x.opens := by
  obtain ⟨x, hx, hs⟩ := List.mem_filterMap.mp h
  exact ⟨x, hx, stated_idAt hs⟩

theorem filterMap_stated_cons : (x :: xs).filterMap (·.stated reader decode) =
    (x.stated reader decode).toList ++ xs.filterMap (·.stated reader decode) := by
  rw [List.filterMap_cons]
  cases x.stated reader decode <;> rfl

/-- The ids open one behind the other. -/
def InOrder (xs : List RecordAt) : Prop := xs.Pairwise (·.opens < ·.opens)

theorem inOrder_place : ∀ (rs : List Record) (start : Nat), InOrder (place start rs)
  | [], _ => List.Pairwise.nil
  | r :: rs, start => by
    refine List.Pairwise.cons (fun y hy => ?_) (inOrder_place rs _)
    have hstart := le_start_of_mem_place hy
    have hx := RecordAt.stop_lt ⟨start, r⟩
    have hopens : RecordAt.opens ⟨start, r⟩ < RecordAt.stop ⟨start, r⟩ := by
      rw [RecordAt.stop]
      omega
    have hy' : y.start ≤ y.opens := by
      rw [RecordAt.opens, RecordAt.keyAt]
      omega
    dsimp only at hx
    omega

theorem pairs_of_none (h : firstDetail (x :: xs) = none) : pairs (x :: xs) = pairs xs := by
  rw [pairs]
  split
  · rfl
  · rename_i hsome
    cases h.symm.trans hsome

theorem pairs_of_some (h : firstDetail (x :: xs) = some (y, d, rest)) :
    pairs (x :: xs) = if d.keyAt ≤ x.stop + 500 then (x, d) :: pairs rest else pairs xs := by
  rw [pairs]
  split
  · rename_i hnone
    cases h.symm.trans hnone
  · rename_i hsome
    cases h.symm.trans hsome
    rfl

theorem firstDetail_of_own (h : x.detail = some d) : firstDetail (x :: xs) = some (x, d, xs) := by
  rw [firstDetail, h]

theorem firstDetail_of_none (h : x.detail = none) : firstDetail (x :: xs) = firstDetail xs := by
  rw [firstDetail, h]

theorem InOrder.returned_lt (h : InOrder (x :: xs)) {s : Sourced} (hs : s ∈ returned reader now cache (pairs xs)) :
    x.opens < s.idAt := by
  obtain ⟨y, hy, heq⟩ := mem_returned hs
  rw [heq]
  exact List.rel_of_pairwise_cons h hy

theorem InOrder.stated_lt (h : InOrder (x :: xs)) {s : Sourced} (hs : s ∈ xs.filterMap (·.stated reader decode)) :
    x.opens < s.idAt := by
  obtain ⟨y, hy, heq⟩ := mem_stated hs
  rw [heq]
  exact List.rel_of_pairwise_cons h hy

/-- The rounds that come out are those of the records exactly if the records are aligned. -/
theorem returned_eq_iff : ∀ {cache : RecentRoundCache} {xs : List RecordAt}, InOrder xs →
    (returned reader now cache (pairs xs) = xs.filterMap (·.stated reader decode) ↔
      RecordsAlign reader decode now cache xs) := by
  intro cache xs
  fun_induction RecordsAlign reader decode now cache xs with
  | case1 cache =>
    rw [pairs]
    simp [returned, keepNew]
  | case2 cache x xs d hd hnear ih =>
    intro h
    rw [pairs_of_some (firstDetail_of_own hd), if_pos hnear, returned_cons, filterMap_stated_cons,
      toList_append_inj (fun _ => taken_idAt) (fun _ => stated_idAt) (fun _ => h.returned_lt) fun _ => h.stated_lt]
    refine and_congr_right fun heq => ?_
    rw [heq]
    exact ih (List.Pairwise.of_cons h)
  | case3 cache x xs d hd hfar ih =>
    intro h
    have hnone : returned reader now cache (pairs xs) =
        (none : Option Sourced).toList ++ returned reader now cache (pairs xs) := rfl
    rw [pairs_of_some (firstDetail_of_own hd), if_neg hfar, hnone, filterMap_stated_cons,
      toList_append_inj (by simp) (fun _ => stated_idAt) (fun _ => h.returned_lt) fun _ => h.stated_lt]
    exact and_congr eq_comm (ih (List.Pairwise.of_cons h))
  | case4 cache x xs hnone hfirst ih =>
    intro h
    rw [pairs_of_none ((firstDetail_of_none hnone).trans hfirst), filterMap_stated_cons, stated_of_no_detail hnone]
    exact ih (List.Pairwise.of_cons h)
  | case5 cache x xs hnone y d rest hfirst hnear ih =>
    intro h
    obtain ⟨skipped, rfl, hskipped, hd⟩ := firstDetail_split hfirst
    have hxs := List.Pairwise.of_cons h
    have hrest : InOrder (y :: rest) := hxs.sublist (List.sublist_append_right _ _)
    have hall : InOrder (x :: rest) := h.sublist
      (((List.sublist_cons_self y rest).trans (List.sublist_append_right skipped _)).cons_cons x)
    have hempty : skipped.filterMap (·.stated reader decode) = [] :=
      List.filterMap_eq_nil_iff.mpr fun z hz => stated_of_no_detail (hskipped z hz)
    have hstated : (skipped ++ y :: rest).filterMap (·.stated reader decode) =
        (y.stated reader decode).toList ++ rest.filterMap (·.stated reader decode) := by
      rw [List.filterMap_append, hempty, List.nil_append, filterMap_stated_cons]
    have hnobody : (x :: (skipped ++ y :: rest)).filterMap (·.stated reader decode) =
        (none : Option Sourced).toList ++ (skipped ++ y :: rest).filterMap (·.stated reader decode) := by
      rw [filterMap_stated_cons, stated_of_no_detail hnone]
    rw [pairs_of_some ((firstDetail_of_none hnone).trans hfirst), if_pos hnear, returned_cons, hnobody,
      toList_append_inj (fun _ => taken_idAt) (by simp) (fun _ => hall.returned_lt) fun _ => h.stated_lt]
    refine and_congr_right fun heq => ?_
    rw [heq, hstated]
    refine Iff.trans (toList_append_inj (o := none) (by simp) (fun _ => stated_idAt)
      (fun _ => hrest.returned_lt) fun _ => hrest.stated_lt) (and_congr eq_comm (ih (List.Pairwise.of_cons hrest)))
  | case6 cache x xs hnone y d rest hfirst hfar ih =>
    intro h
    rw [pairs_of_some ((firstDetail_of_none hnone).trans hfirst), if_neg hfar, filterMap_stated_cons,
      stated_of_no_detail hnone]
    exact ih (List.Pairwise.of_cons h)

/-! ### The page -/

/-- A loop that has ended would not take more turns. -/
theorem readings_mono {body : List Char} {rs : List Reading} (more : Nat) : ∀ {fuel pos : Nat},
    readings body fuel pos = some rs → readings body (fuel + more) pos = some rs
  | 0, _, h => nomatch h
  | fuel + 1, pos, h => by
    rw [Nat.add_right_comm, readings]
    rw [readings] at h
    rcases ht : turn body pos with _ | t
    · rwa [ht] at h
    · rw [ht] at h
      obtain ⟨rest, hrest, hrs⟩ := Option.map_eq_some_iff.mp h
      dsimp only
      rw [readings_mono more hrest, Option.map_some, hrs]

theorem staysAligned_iff_returned {page : Page} (h : page.Clear) : StaysAligned reader decode now cache page ↔
    returned reader now cache (pairs (place 0 page.records)) =
      (place 0 page.records).filterMap (·.stated reader decode) := by
  have hread := h.ahead.readings_eq (page.records.length + 1) (Nat.le_refl 0) (fun p _ hlt => absurd hlt (Nat.not_lt_zero p))
    (Nat.lt_succ_self _)
  constructor
  · rintro ⟨fuel, rounds, rs, -, hrs, -, hkeep⟩
    have hsame := readings_mono fuel hread
    rw [Nat.add_comm, readings_mono (page.records.length + 1) hrs] at hsame
    obtain rfl := Option.some.inj hsame
    exact hkeep
  · intro hreturned
    have hparse : reader.parseHistoryBody page.text (page.records.length + 1) 0 =
        some (((pairs (place 0 page.records)).map reading).filterMap (·.round reader)) := by
      rw [parseHistoryBody_readings, hread, Option.map_some]
    refine ⟨page.records.length + 1, _, _, hparse, hread, ?_, hreturned⟩
    rw [← map_sourced, ← map_keepNew]
    exact congrArg (List.map (·.round)) hreturned

/-! ### A record without a detail

`[{"gameId":"1"},{"gameId":"2","gameDetail":"{\"rate\":2,\"endTime\":1700000000000}"}]` -/

def lastRound : Entry := PollWorker.entry 2 1700000000000 (Nat.le_of_ble_eq_true rfl)

def withoutDetail : Page where
  records :=
    [{ before := ['[', '{'], id := ['1'], closed := trivial },
      { before := ['}', ',', '{']
        id := ['2']
        closed := trivial
        detail := some { between := [','], raw := escape lastRound.detail, closed := closed_escape _ } }]
  tail := ['}', ']']

theorem clear_withoutDetail : withoutDetail.Clear := Page.clear_of (by decide) (by decide)

/-- A later record whose detail is read for another id must not be a round. -/
theorem RecordsAlign.stated_eq_none (h : RecordsAlign reader decode now cache (x :: xs)) (hx : x.detail = none)
    (hfirst : firstDetail xs = some (y, d, rest)) (hnear : d.keyAt ≤ x.stop + 500) : y.stated reader decode = none := by
  rw [RecordsAlign] at h
  split at h
  · rename_i hown
    cases hx.symm.trans hown
  · split at h
    · rename_i hnone
      cases hfirst.symm.trans hnone
    · rename_i hsome
      cases hfirst.symm.trans hsome
      rw [if_pos hnear] at h
      exact h.2.1

end HistoryReader
end CrashCore
