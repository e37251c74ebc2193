import CrashCore.Ingestion.WebSocketSession
import CrashCore.Library.Run
import Mathlib.Tactic.Linarith

/-! Reconnects of a WebSocket session. -/

namespace CrashCore
namespace WebSocketSession
open Transition

variable {cfg : WebSocketConfig} {s t : State} {h : Handshake} {a : Act}

/-- The waits since the session was connected are those of the schedule, and there are no more than configured. A session
    that does not run has no connection and no thread. -/
structure Paced (cfg : WebSocketConfig) (s : State) : Prop where
  waits : s.waits = (List.range s.consecutiveFails).map cfg.delayMs
  fails : s.consecutiveFails ≤ cfg.maxReconnectAttempts.toNat
  idle : s.running = false → s.transport = false ∧ s.ioThread = false

/-- The thread of a connection that was lost has not been joined. -/
def Unjoined (cfg : WebSocketConfig) (s : State) : Prop := cfg.beast = true → s.running = true → s.ioThread = true

/-- The ways a connect can go where there is no connection. -/
inductive Connects (cfg : WebSocketConfig) (s : State) : Handshake → State × Bool → Prop
  | failed : Connects cfg s .failed (s, false)
  | terminated {h : Handshake} (hh : h ≠ .failed) (hthread : cfg.beast = true ∧ s.ioThread = true) :
      Connects cfg s h ({ s with terminated := true }, false)
  | notJoined (hthread : ¬(cfg.beast = true ∧ s.ioThread = true)) :
      Connects cfg s .notJoined ({ s with transport := false, ioThread := false, connected := false }, false)
  | joined {lost : Bool} (hthread : ¬(cfg.beast = true ∧ s.ioThread = true)) :
      Connects cfg s (.joined lost)
        ({ s with connected := true, consecutiveFails := 0, transport := !lost, ioThread := cfg.beast, waits := [] }, true)

theorem connects_doConnect (cfg : WebSocketConfig) (h : Handshake) (hdown : s.transport = false) :
    Connects cfg s h (doConnect cfg s h) := by
  unfold doConnect connect
  rw [if_neg (Bool.eq_false_iff.mp hdown)]
  by_cases hfailed : h = .failed
  · subst hfailed
    exact .failed
  · rw [if_neg hfailed]
    by_cases hthread : cfg.beast = true ∧ s.ioThread = true
    · rw [if_pos hthread]
      exact .terminated hfailed hthread
    · rw [if_neg hthread]
      cases h with
      | failed => exact absurd rfl hfailed
      | notJoined =>
        simp only [close, Bool.not_true, Bool.and_false]
        exact .notJoined hthread
      | joined lost => exact .joined hthread

/-- What holds in every state. -/
structure Kept (cfg : WebSocketConfig) (s : State) : Prop where
  paced : Paced cfg s
  unjoined : Unjoined cfg s

theorem Paced.attempt (hp : Paced cfg s) (hless : ¬cfg.maxReconnectAttempts ≤ s.consecutiveFails) :
    (s.waits ++ [cfg.delayMs s.consecutiveFails] = (List.range (s.consecutiveFails + 1)).map cfg.delayMs) ∧
      s.consecutiveFails + 1 ≤ cfg.maxReconnectAttempts.toNat := by
  refine ⟨?_, by omega⟩
  rw [List.range_succ, List.map_append, ← hp.waits]
  rfl

/-- The state in which an attempt connects. -/
def attempt (cfg : WebSocketConfig) (s : State) : State :=
  { s with
    connected := false
    consecutiveFails := s.consecutiveFails + 1
    reconnects := s.reconnects + 1
    waits := s.waits ++ [cfg.delayMs s.consecutiveFails] }

/-- The ways a turn can go where there is no connection. -/
inductive Turns (cfg : WebSocketConfig) (s : State) : Handshake → State → Prop
  | gaveUp {h : Handshake} (hmany : cfg.maxReconnectAttempts ≤ s.consecutiveFails) :
      Turns cfg s h { s with connected := false }
  | attempted {h : Handshake} {r : State × Bool} (hless : ¬cfg.maxReconnectAttempts ≤ s.consecutiveFails)
      (hc : Connects cfg (attempt cfg s) h r) : Turns cfg s h r.1

theorem turns_of_step (hdown : s.transport = false) (hs : step cfg s (.turn h) = some t) :
    s.running = true ∧ Turns cfg s h t := by
  obtain ⟨-, hs⟩ := Option.ite_none_left_eq_some.mp hs
  obtain ⟨hon, hs⟩ := Option.ite_none_left_eq_some.mp hs
  rw [if_neg (Bool.eq_false_iff.mp hdown)] at hs
  obtain rfl := Option.some.inj hs
  refine ⟨(not_not.mp hon).1, ?_⟩
  unfold attemptReconnect
  split
  · rename_i hmany
    exact .gaveUp hmany
  · rename_i hless
    exact .attempted hless (connects_doConnect cfg h hdown)

theorem Kept.turn (hk : Kept cfg s) (hdown : s.transport = false) (hs : step cfg s (.turn h) = some t) : Kept cfg t := by
  obtain ⟨hp, hu⟩ := hk
  obtain ⟨hrunning, hturn⟩ := turns_of_step hdown hs
  have hbusy : s.running ≠ false := Bool.ne_false_iff.mpr hrunning
  cases hturn with
  | gaveUp => exact ⟨⟨hp.waits, hp.fails, fun h => absurd h hbusy⟩, hu⟩
  | attempted hless hc =>
    obtain ⟨hwaits, hfails⟩ := hp.attempt hless
    cases hc with
    | failed => exact ⟨⟨hwaits, hfails, fun h => absurd h hbusy⟩, hu⟩
    | terminated => exact ⟨⟨hwaits, hfails, fun h => absurd h hbusy⟩, hu⟩
    | notJoined hthread =>
      exact ⟨⟨hwaits, hfails, fun h => absurd h hbusy⟩, fun hbeast _ => absurd ⟨hbeast, hu hbeast hrunning⟩ hthread⟩
    | joined => exact ⟨⟨rfl, Nat.zero_le _, fun h => absurd h hbusy⟩, fun hbeast _ => hbeast⟩

theorem Kept.start (hk : Kept cfg s) (hs : step cfg s (.start h) = some t) : Kept cfg t := by
  obtain ⟨hp, hu⟩ := hk
  obtain ⟨-, hs⟩ := Option.ite_none_left_eq_some.mp hs
  dsimp only at hs
  split at hs
  · cases hs
    exact ⟨hp, hu⟩
  · rename_i hrunning
    obtain ⟨hdown, hthread⟩ := hp.idle (Bool.eq_false_iff.mpr hrunning)
    have hc : Connects cfg { s with running := true } h _ := connects_doConnect cfg h hdown
    generalize doConnect cfg { s with running := true } h = r at hs hc
    cases hc with
    | failed =>
      cases hs
      exact ⟨⟨hp.waits, hp.fails, fun _ => ⟨hdown, hthread⟩⟩, fun _ h => by cases h⟩
    | terminated _ hboth => simp [hthread] at hboth
    | notJoined =>
      cases hs
      exact ⟨⟨hp.waits, hp.fails, fun _ => ⟨rfl, rfl⟩⟩, fun _ h => by cases h⟩
    | joined =>
      cases hs
      exact ⟨⟨rfl, Nat.zero_le _, fun h => by cases h⟩, fun hbeast _ => hbeast⟩

theorem Kept.step (hk : Kept cfg s) (hs : step cfg s a = some t) : Kept cfg t := by
  cases a with
  | start h => exact hk.start hs
  | drop =>
    obtain ⟨-, hs⟩ := Option.ite_none_left_eq_some.mp hs
    obtain ⟨-, hs⟩ := Option.ite_none_right_eq_some.mp hs
    obtain rfl := Option.some.inj hs
    exact ⟨⟨hk.paced.waits, hk.paced.fails, fun h => ⟨rfl, (hk.paced.idle h).2⟩⟩, hk.unjoined⟩
  | turn h =>
    by_cases hup : s.transport = true
    · obtain ⟨-, hs⟩ := Option.ite_none_left_eq_some.mp hs
      obtain ⟨-, hs⟩ := Option.ite_none_left_eq_some.mp hs
      rw [if_pos hup] at hs
      obtain rfl := Option.some.inj hs
      exact hk
    · exact hk.turn (Bool.eq_false_iff.mpr hup) hs
  | stop =>
    obtain ⟨-, hs⟩ := Option.ite_none_left_eq_some.mp hs
    obtain rfl := Option.some.inj hs
    exact ⟨⟨hk.paced.waits, hk.paced.fails, fun _ => ⟨rfl, rfl⟩⟩, fun _ h => by cases h⟩

/-- A connection that was lost: the session runs and has none. -/
def Lost (s : State) : Prop := s.running = true ∧ s.transport = false

/-- A lost Beast connection stays lost as long as nobody calls `stop`. -/
theorem Lost.step (hbeast : cfg.beast = true) (hk : Kept cfg s) (hl : Lost s) (ha : a ≠ .stop)
    (hs : step cfg s a = some t) :
    Lost t ∧ t.ioThread = true ∧
      ∀ h, a = .turn h → (t.terminated = true ↔ h ≠ .failed ∧ s.consecutiveFails < cfg.maxReconnectAttempts) := by
  obtain ⟨hrunning, hdown⟩ := hl
  have hthread : s.ioThread = true := hk.unjoined hbeast hrunning
  obtain ⟨hlive, hafter⟩ := Option.ite_none_left_eq_some.mp hs
  cases a with
  | start h =>
    dsimp only at hafter
    rw [if_pos hrunning] at hafter
    obtain rfl := Option.some.inj hafter
    exact ⟨⟨hrunning, hdown⟩, hthread, fun h ha => by cases ha⟩
  | drop => simp [hdown] at hafter
  | turn h =>
    have hturn := (turns_of_step hdown hs).2
    cases hturn with
    | gaveUp hmany =>
      refine ⟨⟨hrunning, hdown⟩, hthread, fun h' _ => iff_of_false hlive fun hless => ?_⟩
      exact absurd hless.2 (not_lt.mpr hmany)
    | attempted hless hc =>
      cases hc with
      | failed =>
        refine ⟨⟨hrunning, hdown⟩, hthread, fun h' ha => iff_of_false hlive fun hnot => ?_⟩
        cases ha
        exact hnot.1 rfl
      | terminated hh =>
        refine ⟨⟨hrunning, hdown⟩, hthread, fun h' ha => iff_of_true rfl ?_⟩
        cases ha
        exact ⟨hh, not_le.mp hless⟩
      | notJoined hfree => exact absurd ⟨hbeast, hthread⟩ hfree
      | joined hfree => exact absurd ⟨hbeast, hthread⟩ hfree
  | stop => exact absurd rfl ha

theorem kept_initial : Kept cfg {} := ⟨⟨rfl, Nat.zero_le _, fun _ => ⟨rfl, rfl⟩⟩, fun _ h => by cases h⟩

/-- A session over the Beast connection never recovers a connection that it lost. Until `stop`, it stays without one, it
    makes at most `maxReconnectAttempts` attempts, after the waits of the schedule, and an attempt fails or, when the
    server is there, ends the program: the thread of the lost connection has not been joined. -/
theorem never_recovers (hbeast : cfg.beast = true) (hr : Reaches (step cfg) anyStep {} s) (hlost : Lost s)
    (hr' : Reaches (step cfg) (fun _ a => a ≠ .stop) s t) :
    Lost t ∧ t.waits = (List.range t.consecutiveFails).map cfg.delayMs ∧
      t.consecutiveFails ≤ cfg.maxReconnectAttempts.toNat ∧
      ∀ h u, step cfg t (.turn h) = some u →
        (u.terminated = true ↔ h ≠ .failed ∧ t.consecutiveFails < cfg.maxReconnectAttempts) := by
  have hs : Kept cfg s := hr.invariant kept_initial fun _ _ _ hk _ hs => hk.step hs
  obtain ⟨ht, hlost⟩ : Kept cfg t ∧ Lost t :=
    hr'.invariant (P := fun t => Kept cfg t ∧ Lost t) ⟨hs, hlost⟩ fun _ _ _ h hok hs =>
      ⟨h.1.step hs, (h.2.step hbeast h.1 hok hs).1⟩
  refine ⟨hlost, ht.paced.waits, ht.paced.fails, fun h u hu => ?_⟩
  exact (hlost.step hbeast ht (fun h => by cases h) hu).2.2 h rfl

/-- The first attempt fails, and at the second one the server is there. -/
def lostOnce : List Act := [.start (.joined false), .drop]

theorem never_recovers_twice :
    ∃ s t u, run (step {}) {} lostOnce = some s ∧ run (step {}) s [.turn .failed] = some t ∧
      t.waits = [500] ∧ step {} t (.turn (.joined false)) = some u ∧ u.terminated = true := by
  have hrun : run (step {}) {} lostOnce = some { running := true, ioThread := true } := rfl
  have hturn : run (step {}) { running := true, ioThread := true } [.turn .failed] =
      some { running := true, ioThread := true, consecutiveFails := 1, reconnects := 1, waits := [500] } := rfl
  have hnoStop : Meets (step {}) (fun _ a => a ≠ .stop) { running := true, ioThread := true } [.turn .failed] :=
    ⟨by decide, fun _ _ => trivial⟩
  obtain ⟨-, -, -, hnext⟩ :=
    never_recovers rfl (Reaches.of_run (meets_anyStep _ _) hrun) ⟨rfl, rfl⟩ (Reaches.of_run hnoStop hturn)
  exact ⟨_, _, _, hrun, hturn, rfl, rfl, (hnext (.joined false) _ rfl).mpr ⟨by decide, by decide⟩⟩

end WebSocketSession
end CrashCore
