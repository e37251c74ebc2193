import CrashCore.Ingestion.PollWorker
import CrashCore.Library.Decimal
import CrashCore.Theorems.HistoryPages

/-! What the handler of the poll worker gets. The cache of recent rounds keeps a round from coming again for as long as
it holds it, and nothing sorts the rounds of a fetch. -/

namespace CrashCore
namespace PollWorker
open Transition

variable {reader : HistoryReader} {s t : State} {before : RecentRoundCache} {cfg : Config} {router : Option EventRouter}
  {now : TimestampMs}

/-- No round twice. -/
def HandsOnce (s : State) : Prop := (s.handed.map (·.round.gameId)).Nodup

/-- Within a fetch, the rounds in the order of their ends. -/
def HandsInOrder (s : State) : Prop :=
  s.handed.Pairwise fun a b => a.fetch = b.fetch → a.round.crashedAtMs ≤ b.round.crashedAtMs

/-- A round comes again only after as many others as the cache holds, and the rounds come in the order in which the
    pages have them. -/
structure Ingests (capacity : Nat) (s : State) : Prop where
  spaced : (s.handed.map (·.round.gameId)).Spaced capacity
  asServed : s.handed.Sublist s.served

/-- The rounds that wait for the handler. -/
def Phase.waiting : Phase → List FetchedRound
  | .idle => []
  | .pulling _ _ batch _ => batch
  | .handling todo _ _ => todo

/-- What the handler has got and will get, as far as it is known. -/
def taken (s : State) : List Polled := s.handed ++ s.phase.waiting.map (⟨s.fetches, ·⟩)

def takenIds (s : State) : List GameId := (taken s).map (·.round.gameId)

/-- `before` is the cache when the worker starts. -/
structure Inv (before : RecentRoundCache) (s : State) : Prop where
  capacity : s.cache.capacity = before.capacity
  ids : s.cache.ids = (before.ids ++ takenIds s).popFrontTo before.capacity
  spaced : (takenIds s).Spaced before.capacity
  asServed : (taken s).Sublist s.served

theorem Inv.ingests (h : Inv before s) : Ingests before.capacity s where
  spaced := by
    have hspaced := h.spaced
    rw [takenIds, taken, List.map_append] at hspaced
    exact hspaced.of_append
  asServed := (List.sublist_append_left _ _).trans h.asServed

theorem inv_initial (cfg : Config) (before : RecentRoundCache) (router : Option EventRouter) :
    Inv before { cfg, cache := before, router } where
  capacity := rfl
  ids := by
    have hbounded : before.ids.length ≤ before.capacity := by simpa [RecentRoundCache.ids] using before.bounded
    exact ((congrArg _ (List.append_nil _)).trans (List.popFrontTo_of_le hbounded)).symm
  spaced := by
    intro l₁ x l₂ l₃ h
    simp [takenIds, taken, Phase.waiting] at h
  asServed := List.Sublist.refl _

/-- A step that neither touches the cache and the served rounds nor takes a round away. -/
theorem Inv.same (h : Inv before s) (hcache : t.cache = s.cache) (htaken : taken t = taken s)
    (hserved : t.served = s.served) : Inv before t := by
  have hids : takenIds t = takenIds s := congrArg (List.map _) htaken
  refine ⟨?_, ?_, ?_, ?_⟩
  · rw [hcache]
    exact h.capacity
  · rw [hcache, hids]
    exact h.ids
  · rw [hids]
    exact h.spaced
  · rw [htaken, hserved]
    exact h.asServed

theorem takeNew_capacity (rs : List FetchedRound) (cache : RecentRoundCache) :
    (takeNew now cache rs).1.capacity = cache.capacity := by
  induction rs generalizing cache with
  | nil => rfl
  | cons r rs ih =>
    rw [takeNew]
    split
    · exact ih cache
    · exact (ih _).trans RecentRoundCache.put_capacity

theorem takeNew_sublist (rs : List FetchedRound) (cache : RecentRoundCache) :
    (takeNew now cache rs).2.Sublist rs := by
  induction rs generalizing cache with
  | nil => exact List.Sublist.refl _
  | cons r rs ih =>
    rw [takeNew]
    split
    · exact (ih cache).cons r
    · exact (ih _).cons_cons r

/-- Each new round is put behind the others, and the cache has forgotten it if it has come before. -/
theorem takeNew_ids (now : TimestampMs) (rs : List FetchedRound) (cache : RecentRoundCache) (before ids : List GameId)
    (hids : cache.ids = (before ++ ids).popFrontTo cache.capacity) (hspaced : ids.Spaced cache.capacity) :
    (takeNew now cache rs).1.ids =
        (before ++ (ids ++ (takeNew now cache rs).2.map (·.gameId))).popFrontTo cache.capacity ∧
      (ids ++ (takeNew now cache rs).2.map (·.gameId)).Spaced cache.capacity := by
  induction rs generalizing cache ids with
  | nil =>
    rw [takeNew, List.map_nil, List.append_nil]
    exact ⟨hids, hspaced⟩
  | cons r rs ih =>
    rw [takeNew]
    split
    · exact ih cache ids hids hspaced
    rename_i hnew
    have hcapacity : (cache.put (cached r) now).capacity = cache.capacity := RecentRoundCache.put_capacity
    have hput : (cache.put (cached r) now).ids = (before ++ (ids ++ [r.gameId])).popFrontTo cache.capacity := by
      rw [RecentRoundCache.put_ids hnew, hids, List.popFrontTo_append_singleton, List.append_assoc]
      rfl
    have hout : r.gameId ∉ (before ++ ids).popFrontTo cache.capacity := hids ▸ hnew
    have hnext : (ids ++ [r.gameId]).Spaced cache.capacity := hspaced.append_singleton hout
    have hrest := ih (cache.put (cached r) now) (ids ++ [r.gameId]) (hcapacity ▸ hput) (hcapacity ▸ hnext)
    rw [hcapacity] at hrest
    simpa only [List.map_cons, List.append_assoc, List.singleton_append] using hrest

theorem Inv.stepPage {resp : Except Error (List Char)} {fuel : Nat} (h : Inv before s)
    (hs : stepPage reader s resp fuel now = some t) : Inv before t := by
  unfold PollWorker.stepPage at hs
  split at hs
  swap
  · cases hs
  rename_i page maxPages batch looping hphase
  split at hs
  · cases hs
    exact h.same rfl (by simp only [taken, hphase]; rfl) rfl
  obtain ⟨rs, -, rfl⟩ := Option.map_eq_some_iff.mp hs
  set new := (takeNew now s.cache rs).2
  have hwaiting : (afterPage page maxPages batch new looping).waiting = batch ++ new := by
    unfold afterPage
    split
    · rename_i hempty
      rw [hempty.1, List.append_nil]
      rfl
    · rfl
  have htaken : s.handed ++ (batch ++ new).map (Polled.mk s.fetches) = taken s ++ new.map (Polled.mk s.fetches) := by
    rw [taken, hphase, List.map_append, List.append_assoc]
    rfl
  have hids : takenIds s ++ new.map (·.gameId) = (taken s ++ new.map (Polled.mk s.fetches)).map (·.round.gameId) := by
    rw [List.map_append, List.map_map]
    rfl
  obtain ⟨hcache, hspaced⟩ := takeNew_ids now rs s.cache before.ids (takenIds s) (h.capacity ▸ h.ids)
    (h.capacity ▸ h.spaced)
  rw [h.capacity] at hcache hspaced
  refine ⟨(takeNew_capacity rs s.cache).trans h.capacity, ?_, ?_, ?_⟩
  · simp only [takenIds, taken, hwaiting]
    rw [htaken, ← hids]
    exact hcache
  · simp only [takenIds, taken, hwaiting]
    rw [htaken, ← hids]
    exact hspaced
  · simp only [taken, hwaiting]
    rw [htaken]
    exact h.asServed.append ((takeNew_sublist rs s.cache).map _)

theorem step_inv {a : Act} (h : Inv before s) (hs : step reader s a = some t) : Inv before t := by
  cases a with
  | start =>
    cases hs
    split
    · exact h
    · exact h.same rfl rfl rfl
  | stop =>
    cases hs
    exact h.same rfl rfl rfl
  | fetch looping =>
    simp only [step] at hs
    split at hs <;> cases hs
    rename_i hphase
    refine h.same rfl ?_ rfl
    simp only [taken, hphase]
    rfl
  | page => exact h.stepPage hs
  | handle t0 =>
    simp only [step, stepHandle] at hs
    split at hs
    · rename_i r todo total looping hphase
      cases hs
      refine h.same rfl ?_ rfl
      simp only [taken, hphase, Phase.waiting, List.map_cons, List.append_assoc, List.singleton_append]
    · rename_i total looping hphase
      cases hs
      refine h.same rfl ?_ rfl
      simp only [taken, hphase]
      rfl
    · cases hs

/-- In every run, whatever pages the worker is served, a round is handed over again only after as many others as the
    cache holds, and the rounds are handed over in the order in which they were served. -/
theorem ingests_of_reaches (hr : Reaches (step reader) anyStep { cfg, cache := before, router } s) :
    Ingests before.capacity s :=
  (hr.invariant (inv_initial cfg before router) fun _ _ _ h _ hs => step_inv h hs).ingests

/-! ### Two runs

The cache of the program holds 200 rounds; `std::strtod` reads decimal numerals. -/

def decimal : HistoryReader where
  strtod text :=
    let digits := text.takeWhile Char.isDigit
    if digits = [] then none else some (Nat.ofDigitChars 10 digits 0 : Nat)

theorem decimal_readsNumerals : decimal.ReadsNumerals := by
  intro n c rest hc
  have hcomma : ¬c.isDigit := by rcases hc with rfl | rfl <;> decide
  have htake : (HistoryReader.digits n ++ c :: rest).takeWhile Char.isDigit = HistoryReader.digits n := by
    rw [List.takeWhile_append_of_pos fun _ => HistoryReader.isDigit_of_mem_digits, List.takeWhile_cons_of_neg hcomma,
      List.append_nil]
  have hne : HistoryReader.digits n ≠ [] := Nat.toDigits_ne_nil
  simp only [decimal, htake]
  rw [if_neg hne]
  exact congrArg _ (congrArg _ Nat.ofDigitChars_ten_toDigits)

/-- Distinct rounds that the cache does not have are all taken. -/
theorem takeNew_all (rs : List FetchedRound) (cache : RecentRoundCache) (hnodup : (rs.map (·.gameId)).Nodup)
    (hnew : ∀ r ∈ rs, ¬cache.contains r.gameId) : (takeNew now cache rs).2 = rs := by
  induction rs generalizing cache with
  | nil => rfl
  | cons r rs ih =>
    rw [List.map_cons, List.nodup_cons] at hnodup
    have hr : ¬cache.contains r.gameId := hnew r List.mem_cons_self
    have hrest : ∀ r' ∈ rs, ¬(cache.put (cached r) now).contains r'.gameId := by
      intro r' hr' hmem
      rw [RecentRoundCache.contains, RecentRoundCache.put_ids hr] at hmem
      rcases List.mem_append.mp ((List.popFrontTo_suffix _).subset hmem) with hold | hput
      · exact hnew r' (List.mem_cons_of_mem r hr') hold
      · have hid : r'.gameId = r.gameId := List.mem_singleton.mp hput
        exact hnodup.1 (hid ▸ List.mem_map_of_mem hr')
    rw [takeNew, if_neg hr]
    exact congrArg (r :: ·) (ih _ hnodup.2 hrest)

/-- The handler gets the whole batch. -/
theorem run_handle (todo : List FetchedRound) (s : State) (total : Nat) (looping : Bool)
    (hphase : s.phase = .handling todo total looping) :
    ∃ t, run (step reader) s (List.replicate todo.length (.handle 0)) = some t ∧
      t.handed = s.handed ++ todo.map (Polled.mk s.fetches) := by
  induction todo generalizing s total with
  | nil => exact ⟨s, rfl, (List.append_nil _).symm⟩
  | cons r todo ih =>
    obtain ⟨t, ht, hhanded⟩ := ih
      { s with
        router := s.router.map fun router => (router.route r.event 0).1
        phase := .handling todo (total + 1) looping
        handed := s.handed ++ [⟨s.fetches, r⟩] } (total + 1) rfl
    refine ⟨t, ?_, ?_⟩
    · rw [List.length_cons, List.replicate_succ, run]
      simp only [step, stepHandle, hphase, Option.bind_some]
      exact ht
    · rw [hhanded, List.append_assoc]
      rfl

/-- A round of the service, as it writes it. -/
def entry (id endTime : Nat) (h : 1000000000000 ≤ endTime) : HistoryReader.Entry where
  id := id
  rate := 2
  endTime := endTime
  inRange := by decide
  ended := h

/-- Rounds 0 to 200. -/
def page1 : List HistoryReader.Entry := (List.range 201).map fun id => entry id 1700000000000 (by decide)

/-- The page after it begins with a round that the first one has as well. -/
def page2 : List HistoryReader.Entry := [entry 0 1700000000000 (by decide)]

def overlapping : List Act :=
  .start :: .fetch false :: .page (.ok (HistoryReader.pageText page1)) 300 0 ::
    .page (.ok (HistoryReader.pageText page2)) 300 0 :: .page (.error ⟨.networkError, "history HTTP error"⟩) 0 0 ::
      List.replicate 202 (.handle 0)

/-- What the worker reads of a page that has fewer than 300 rounds. -/
theorem rounds_pageText (es : List HistoryReader.Entry) (hlen : es.length < 300) :
    ∃ rs, rounds decimal 300 (.ok (HistoryReader.pageText es)) = some rs ∧
      rs.map (·.gameId) = es.map fun e => toString e.id := by
  obtain ⟨rs, hrs, hsummary⟩ :=
    Option.map_eq_some_iff.mp (HistoryReader.parseHistoryBody_pageText decimal_readsNumerals es hlen)
  refine ⟨rs, hrs, ?_⟩
  have hids := congrArg (List.map Prod.fst) hsummary
  rw [List.map_map, List.map_map] at hids
  exact hids

theorem run_cons {a : Act} {as : List Act} (h : step reader s a = some t) :
    run (step reader) s (a :: as) = run (step reader) t as := by
  rw [run, h]
  rfl

theorem overlapping_handed : ∃ s, run (step decimal) { cache := {} } overlapping = some s ∧
    s.handed.map (·.round.gameId) = (List.range 201).map toString ++ ["0"] := by
  obtain ⟨rs, hrs, hids⟩ := rounds_pageText page1 (by simp [page1])
  obtain ⟨rs₂, hrs₂, hids₂⟩ := rounds_pageText page2 (by simp [page2])
  obtain ⟨r, rfl, hr⟩ := List.map_eq_singleton_iff.mp (hids₂.trans rfl)
  rw [show page1.map (fun e => toString e.id) = (List.range 201).map toString from List.map_map] at hids
  have hlen : rs.length = 201 := by simpa using congrArg List.length hids
  have hnodup : (rs.map (·.gameId)).Nodup := hids ▸ List.nodup_range.map Decimal.nat_injective
  have hall : (takeNew 0 {} rs).2 = rs := takeNew_all rs {} hnodup (by simp [RecentRoundCache.contains, RecentRoundCache.ids])
  -- the first page has pushed its first round out of the cache
  have hcons : rs.map (·.gameId) = "0" :: (List.range 200).map fun i => toString (i + 1) := by
    rw [hids, show (201 : Nat) = 200 + 1 from rfl, List.range_succ_eq_map, List.map_cons, List.map_map]
    rfl
  have hcache : (takeNew 0 {} rs).1.ids = (List.range 200).map fun i => toString (i + 1) := by
    have h := (takeNew_ids 0 rs {} [] [] rfl (by intro l₁ x l₂ l₃ h; simp at h)).1
    rw [hall, List.nil_append, List.nil_append, hcons, List.popFrontTo, if_pos (by simp),
      List.popFrontTo_of_le (by simp)] at h
    exact h
  have hzero : r.gameId = "0" := hr.trans rfl
  have hnew : (takeNew 0 (takeNew 0 {} rs).1 [r]).2 = [r] := by
    refine takeNew_all [r] _ (by simp) ?_
    rw [hcons, List.nodup_cons] at hnodup
    simpa [RecentRoundCache.contains, hcache, hzero] using hnodup.1
  -- the three pages, and the batch
  let s₀ : State := { cache := {}, running := true, phase := .pulling 1 20 [] false, fetches := 1 }
  let s₁ : State :=
    { s₀ with
      cache := (takeNew 0 {} rs).1
      phase := .pulling 2 20 rs false
      served := rs.map (Polled.mk 1) }
  let s₂ : State :=
    { s₁ with
      cache := (takeNew 0 s₁.cache [r]).1
      phase := .pulling 3 20 (rs ++ [r]) false
      served := rs.map (Polled.mk 1) ++ [⟨1, r⟩] }
  let s₃ : State := { s₂ with phase := .handling (rs ++ [r]) 0 false }
  have h₁ : step decimal s₀ (.page (.ok (HistoryReader.pageText page1)) 300 0) = some s₁ := by
    simp [step, stepPage, s₀, s₁, hrs, hall, afterPage]
  have h₂ : step decimal s₁ (.page (.ok (HistoryReader.pageText page2)) 300 0) = some s₂ := by
    simp [step, stepPage, s₀, s₁, s₂, hrs₂, hnew, afterPage]
  have h₃ : step decimal s₂ (.page (.error ⟨.networkError, "history HTTP error"⟩) 0 0) = some s₃ := by
    simp [step, stepPage, s₀, s₁, s₂, s₃, rounds, takeNew, afterPage]
  obtain ⟨t, ht, hhanded⟩ := run_handle (rs ++ [r]) s₃ 0 false rfl
  refine ⟨t, ?_, ?_⟩
  · have hstart : step decimal { cache := {} } .start = some { cache := {}, running := true } := by simp [step]
    have hfetch : step decimal { cache := {}, running := true } (.fetch false) = some s₀ := by simp [step, s₀]
    rw [overlapping, run_cons hstart, run_cons hfetch, run_cons h₁, run_cons h₂, run_cons h₃]
    rw [List.length_append, hlen] at ht
    exact ht
  · rw [hhanded, ← hids, ← hzero]
    simp [s₃, s₂, s₁, s₀, Function.comp_def]

/-- A page with the newer round first. -/
def newestFirst : List Act :=
  [.start, .fetch false,
    .page (.ok (HistoryReader.pageText [entry 102 1700000060000 (by decide), entry 101 1700000000000 (by decide)])) 10 0,
    .page (.error ⟨.networkError, "history HTTP error"⟩) 0 0, .handle 0, .handle 0]

theorem newestFirst_ingests : ∃ s, run (step decimal) { cache := {} } newestFirst = some s ∧
    s.handed.map (·.round.gameId) = ["102", "101"] ∧ Ingests 200 s := by
  have hrun : ((run (step decimal) { cache := {} } newestFirst).map fun s => s.handed.map (·.round.gameId)) =
      some ["102", "101"] := by decide +kernel
  obtain ⟨s, hs, heq⟩ := Option.map_eq_some_iff.mp hrun
  exact ⟨s, hs, heq, ingests_of_reaches (Reaches.of_run (meets_anyStep ..) hs)⟩

/-- The first run hands round 0 over twice; the second hands over the newer round before the older one. -/
theorem not_handsOnce_not_handsInOrder :
    (∃ s, run (step decimal) { cache := {} } overlapping = some s ∧ ¬HandsOnce s) ∧
      ∃ s, run (step decimal) { cache := {} } newestFirst = some s ∧ ¬HandsInOrder s := by
  constructor
  · obtain ⟨s, hs, hids⟩ := overlapping_handed
    refine ⟨s, hs, fun honce => ?_⟩
    rw [HandsOnce, hids] at honce
    exact (List.nodup_append.mp honce).2.2 "0" (List.mem_map.mpr ⟨0, by simp, rfl⟩) "0" (by simp) rfl
  · have hrun : ((run (step decimal) { cache := {} } newestFirst).map fun s =>
        s.handed.map fun p => (p.fetch, p.round.crashedAtMs)) = some [(1, 1700000060000), (1, 1700000000000)] := by
      decide +kernel
    obtain ⟨s, hs, hhanded⟩ := Option.map_eq_some_iff.mp hrun
    refine ⟨s, hs, fun hinOrder => ?_⟩
    have htimes : (s.handed.map fun p => (p.fetch, p.round.crashedAtMs)).Pairwise fun a b => a.1 = b.1 → a.2 ≤ b.2 :=
      List.pairwise_map.mpr hinOrder
    rw [hhanded] at htimes
    simp at htimes

end PollWorker
end CrashCore
