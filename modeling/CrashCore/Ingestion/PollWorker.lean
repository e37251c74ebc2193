import CrashCore.Ingestion.CrashHistory
import CrashCore.Ingestion.EventRouter
import CrashCore.Library.Run
import CrashCore.Observability.RecentRoundCache

/-! The poll worker (`ingestion/rest/poll_worker.hpp`) with the recent-round cache that its client checks
(`ingestion/rest/crash_history_client.hpp`). It is the only user of the cache while it runs; what was put there before
is arbitrary. The counters, which only set the length of its pauses, are left out. -/

namespace CrashCore
namespace PollWorker

structure Config where
  coldMaxPages : Nat := 20
  warmMaxPages : Nat := 2

/-- A round and the number of the fetch that it belongs to. -/
structure Polled where
  fetch : Nat
  round : FetchedRound

inductive Phase
  | idle
  /-- In the loop over the pages, with the rounds so far. -/
  | pulling (page maxPages : Nat) (batch : List FetchedRound) (looping : Bool)
  /-- In the loop over the batch, with what is left of it and the number of the rounds handled. -/
  | handling (todo : List FetchedRound) (total : Nat) (looping : Bool)

structure State where
  cfg : Config := {}
  cache : RecentRoundCache
  router : Option EventRouter := none
  running : Bool := false
  cold : Bool := true
  phase : Phase := .idle
  /-- Bookkeeping: the number of fetches, the valid rounds of their pages and what the handler got, in order. -/
  fetches : Nat := 0
  served : List Polled := []
  handed : List Polled := []

inductive Act
  | start
  | stop
  /-- A turn of `loop` begins, or `tickOnce`. -/
  | fetch (looping : Bool)
  /-- The answer to the request for the next page; the client reads a body in at most `fuel` turns. -/
  | page (resp : Except Error (List Char)) (fuel : Nat) (now : TimestampMs)
  | handle (t0 : Int)

/-- The cached form of a round. -/
def cached (r : FetchedRound) : CachedRound where
  gameId := r.gameId
  multiplier := r.multiplier
  endedAtMs := r.crashedAtMs
  hash := r.hash

/-- The rounds that the cache does not have; they are put there. -/
def takeNew (now : TimestampMs) : RecentRoundCache → List FetchedRound → RecentRoundCache × List FetchedRound
  | cache, [] => (cache, [])
  | cache, r :: rest =>
    if cache.contains r.gameId then takeNew now cache rest
    else
      let (cache, out) := takeNew now (cache.put (cached r) now) rest
      (cache, r :: out)

/-- The rounds of the answer, and none when the request failed. -/
def rounds (reader : HistoryReader) (fuel : Nat) : Except Error (List Char) → Option (List FetchedRound)
  | .error _ => some []
  | .ok body => reader.parseHistoryBody body fuel 0

/-- The next turn of the loop over the pages: after a later page without a new round there is none. -/
def afterPage (page maxPages : Nat) (batch new : List FetchedRound) (looping : Bool) : Phase :=
  if new = [] ∧ 1 < page then .handling batch 0 looping else .pulling (page + 1) maxPages (batch ++ new) looping

def stepPage (reader : HistoryReader) (s : State) (resp : Except Error (List Char)) (fuel : Nat) (now : TimestampMs) :
    Option State :=
  match s.phase with
  | .pulling page maxPages batch looping =>
    if maxPages < page ∨ ¬s.running then some { s with phase := .handling batch 0 looping }
    else
      (rounds reader fuel resp).map fun rs =>
        { s with
          cache := (takeNew now s.cache rs).1
          phase := afterPage page maxPages batch (takeNew now s.cache rs).2 looping
          served := s.served ++ rs.map (⟨s.fetches, ·⟩) }
  | _ => none

/-- The handler comes first, then the router. -/
def stepHandle (s : State) (t0 : Int) : Option State :=
  match s.phase with
  | .handling (r :: todo) total looping =>
    some { s with
      router := s.router.map fun router => (router.route r.event t0).1
      phase := .handling todo (total + 1) looping
      handed := s.handed ++ [⟨s.fetches, r⟩] }
  | .handling [] total looping => some { s with phase := .idle, cold := if looping ∧ 0 < total then false else s.cold }
  | _ => none

def step (reader : HistoryReader) (s : State) : Act → Option State
  | .start => some (if s.running then s else { s with running := true, cold := true })
  | .stop => some { s with running := false }
  | .fetch looping =>
    match s.phase with
    | .idle =>
      some { s with
        phase := .pulling 1 (if s.cold then s.cfg.coldMaxPages else s.cfg.warmMaxPages) [] looping
        fetches := s.fetches + 1 }
    | _ => none
  | .page resp fuel now => stepPage reader s resp fuel now
  | .handle t0 => stepHandle s t0

end PollWorker

/-! ### Pauses

The pauses of the poll worker (`ingestion/rest/poll_worker.hpp`): the counters of its fetches, and how long it waits
after a turn. The sums and products fit their types. -/

namespace PollWorker

/-- The times of `Config`. -/
structure Pacing where
  intervalMs : Int := 5000
  minBackoffMs : Int := 1000
  maxBackoffMs : Int := 30000

/-- The worker with its counters. -/
structure Paced where
  worker : State
  pacing : Pacing := {}
  pages : Nat := 0
  errors : Nat := 0
  consecutiveFails : Nat := 0
  /-- How long the worker waits before its next turn. -/
  pauseMs : Option Int := none
  /-- Bookkeeping: whether the fetches of pages succeeded. -/
  history : List Bool := []

/-- An action with the next two values of the jitter. -/
structure PacedAct where
  act : Act
  jitter : Fin 501 := 0
  backoffJitter : Fin 501 := 0

/-- The end of a turn of `loop`. -/
def sleepMs (s : Paced) (jitter backoffJitter : Fin 501) : Int :=
  if 0 < s.errors then
    min s.pacing.maxBackoffMs (s.pacing.minBackoffMs * 2 ^ min s.consecutiveFails 5) + backoffJitter.val
  else s.pacing.intervalMs + jitter.val

/-- The wait loop at `w`: it sleeps 50 ms in each turn. A stop ends it too, and the thread with it, so that no turn of
    `loop` follows. -/
def waitLoop (sleepMs w : Int) : Int :=
  if w < sleepMs then 50 + waitLoop sleepMs (w + 50) else 0
termination_by (sleepMs - w).toNat

/-- The counters after the answer to a request for a page. -/
def pull (s : Paced) : Except Error (List Char) → Paced
  | .error _ =>
    { s with
      pages := s.pages + 1, errors := s.errors + 1, consecutiveFails := s.consecutiveFails + 1
      history := s.history ++ [false] }
  | .ok _ => { s with pages := s.pages + 1, consecutiveFails := 0, history := s.history ++ [true] }

/-- The loop over the pages requests one more. -/
def requests (s : State) : Bool :=
  match s.phase with
  | .pulling page maxPages _ _ => page ≤ maxPages && s.running
  | _ => false

/-- What an action of the worker does to the counters and to the pause. -/
def count (s : Paced) (a : PacedAct) : Paced :=
  match a.act with
  | .start | .stop => s
  | .fetch _ => { s with pauseMs := none }
  | .page resp _ _ => if requests s.worker then pull s resp else s
  | .handle _ =>
    match s.worker.phase with
    | .handling [] _ true => { s with pauseMs := some (waitLoop (sleepMs s a.jitter a.backoffJitter) 0) }
    | _ => s

def pacedStep (reader : HistoryReader) (s : Paced) (a : PacedAct) : Option Paced :=
  (step reader s.worker a.act).map fun worker => { count s a with worker }

end PollWorker
end CrashCore
