import CrashCore.Ingestion.NativeBcSocket

/-! Reconnects of the crash socket. `scheduleReconnect` sets the status to reconnecting, and the `start` that its worker
calls does nothing in that status: a run makes progress exactly as long as no worker gets to call `start`. -/

namespace CrashCore
namespace NativeBcSocket
open Transition

variable {s t : State} {pc : Pc}

/-- The thread will make a new connection attempt, or give it to a reconnect worker. -/
def Pc.attempts : Pc → Bool
  | .check | .scheduleCheck | .selfJoin => false
  | _ => true

def Watchdog.attempts : Watchdog → Bool
  | .scheduling pc => pc.attempts
  | _ => false

/-- A worker that has not returned is on its way to a call of `start`. -/
def Worker.attempts : Worker → Bool
  | .delay => true
  | .starting pc => pc ≠ .selfJoin
  | .ended => false

def AttemptPending (s : State) : Prop :=
  s.owner.any Pc.attempts = true ∨ s.watchdog.attempts = true ∨ s.worker.any Worker.attempts = true

instance (s : State) : Decidable (AttemptPending s) := inferInstanceAs (Decidable (_ ∨ _ ∨ _))

/-- Each worker that was not superseded has made an attempt with a new client, none waits for itself, and the socket is
    not left reconnecting without a client and without an attempt to come. -/
structure Progresses (s : State) : Prop where
  attempted : ∀ made ∈ s.workerCalls, made = true
  noSelfJoin : s.worker ≠ some (.starting .selfJoin)
  notStuck : s.status = .reconnecting → s.client = false → AttemptPending s

/-- No worker calls `start`, and no thread with a frame reports a lost transport where there is none to lose. -/
def KeepsTrying (s : State) : Act → Prop
  | .worker _ => s.worker ≠ some (.starting .check)
  | .handlerSets status => status = .reconnecting → s.client = true ∨ AttemptPending s
  | .start | .owner _ | .watchdog _ | .frame .. => True

instance (s : State) : DecidablePred (KeepsTrying s)
  | .worker _ => inferInstanceAs (Decidable (_ ≠ _))
  | .handlerSets _ => inferInstanceAs (Decidable (_ → _ ∨ _))
  | .start | .owner _ | .watchdog _ | .frame .. => inferInstanceAs (Decidable True)

/-! ### The invariant

There is one attempt at most, the owner's: before it, during it, and after it. -/

structure Before (s : State) : Prop where
  owner : s.owner = none ∨ s.owner = some .check ∨ s.owner = some .launch
  watchdog : s.watchdog = .off
  worker : s.worker = none
  client : s.client = false
  running : s.intentionalStop = false
  notStuck : s.status = .reconnecting → AttemptPending s

/-- Where the owner can be in its attempt, and up to where it has the client. -/
def Pc.During (client : Bool) : Pc → Prop
  | .connect | .setFailed | .setOpen | .setConnected | .scheduleCheck | .scheduleStatus | .scheduleReset => client = true
  | .scheduleJoin | .scheduleSpawn => True
  | .check | .launch | .scheduleAwait | .scheduleResume | .selfJoin => False

structure During (s : State) (pc : Pc) : Prop where
  owner : s.owner = some pc
  during : pc.During s.client
  watchdog : s.watchdog = .off
  worker : s.worker = none
  running : s.intentionalStop = false
  status : s.status ≠ .stopped

/-- What the watchdog relies on in `scheduleReconnect`. -/
def Pc.Scheduling (s : State) : Pc → Prop
  | .scheduleCheck | .scheduleStatus | .scheduleReset | .scheduleJoin => s.intentionalStop = false
  | .scheduleAwait => s.intentionalStop = true ∧ s.worker ≠ none
  | .scheduleResume => s.intentionalStop = true ∧ s.worker = none
  | .scheduleSpawn => s.intentionalStop = false ∧ s.worker = none
  | .check | .launch | .connect | .setFailed | .setOpen | .setConnected | .selfJoin => False

def Watchdog.Inv (s : State) : Watchdog → Prop
  | .scheduling pc => pc.Scheduling s
  | .off | .sleeping | .setDegraded | .checkStale | .ended => s.intentionalStop = false

structure After (s : State) : Prop where
  owner : s.owner = none ∨ s.owner = some .check
  watchdog : s.watchdog.Inv s
  worker : s.worker = none ∨ s.worker = some .delay ∨ s.worker = some (.starting .check) ∨ s.worker = some .ended
  status : s.status ≠ .stopped
  client : s.client = false → AttemptPending s

structure Inv (s : State) : Prop where
  notBlocked : s.status ≠ .wafBlocked
  handlers : ∀ status ∈ s.handlers, status ≠ .stopped ∧ status ≠ .wafBlocked
  attempted : ∀ made ∈ s.workerCalls, made = true
  phase : Before s ∨ (∃ pc, During s pc) ∨ After s

theorem inv_initial (cfg : NativeSocketConfig) : Inv { cfg } where
  notBlocked := nofun
  handlers := nofun
  attempted := nofun
  phase := Or.inl ⟨Or.inl rfl, rfl, rfl, rfl, rfl, nofun⟩

theorem During.notStuck (h : During s pc) (hclient : s.client = false) : AttemptPending s := by
  refine Or.inl ?_
  have hd := h.during
  rw [hclient] at hd
  rw [h.owner]
  cases pc <;> first | rfl | cases hd

theorem Inv.progresses (h : Inv s) : Progresses s where
  attempted := h.attempted
  noSelfJoin := by
    rcases h.phase with hb | ⟨pc, hd⟩ | ha
    · rw [hb.worker]
      nofun
    · rw [hd.worker]
      nofun
    · rcases ha.worker with hw | hw | hw | hw <;> rw [hw] <;> nofun
  notStuck hstatus hclient := by
    rcases h.phase with hb | ⟨pc, hd⟩ | ha
    · exact hb.notStuck hstatus
    · exact hd.notStuck hclient
    · exact ha.client hclient

/-! ### Steps -/

theorem Inv.notIdle (h : Inv s) (hstatus : s.status ≠ .stopped) : ¬Idle s := fun hi => hi.elim hstatus h.notBlocked

theorem Inv.start (h : Inv s) (howner : s.owner = none) : Inv { s with owner := some .check } := by
  refine ⟨h.notBlocked, h.handlers, h.attempted, ?_⟩
  have hpending : AttemptPending s → AttemptPending { s with owner := some .check } := by
    simp [AttemptPending, howner, Pc.attempts]
  rcases h.phase with hb | ⟨pc, hd⟩ | ha
  · exact Or.inl ⟨Or.inr (Or.inl rfl), hb.watchdog, hb.worker, hb.client, hb.running, fun hs => hpending (hb.notStuck hs)⟩
  · rw [hd.owner] at howner
    cases howner
  · exact Or.inr (Or.inr ⟨Or.inr rfl, ha.watchdog, ha.worker, ha.status, fun hc => hpending (ha.client hc)⟩)

/-- The owner finds the socket started. -/
theorem Inv.turnedAway (h : Inv s) (howner : s.owner = some .check) : Inv { s with owner := none } := by
  refine ⟨h.notBlocked, h.handlers, h.attempted, ?_⟩
  have hpending : AttemptPending s → AttemptPending { s with owner := none } := by
    simp [AttemptPending, howner, Pc.attempts]
  rcases h.phase with hb | ⟨pc, hd⟩ | ha
  · exact Or.inl ⟨Or.inl rfl, hb.watchdog, hb.worker, hb.client, hb.running, fun hs => hpending (hb.notStuck hs)⟩
  · have hduring := hd.during
    obtain rfl : pc = .check := Option.some.inj (hd.owner.symm.trans howner)
    exact hduring.elim
  · exact Or.inr (Or.inr ⟨Or.inl rfl, ha.watchdog, ha.worker, ha.status, fun hc => hpending (ha.client hc)⟩)

/-- The steps of the first attempt. -/
theorem During.advance (h : Inv s) (hd : During s pc) {ok : Bool} {u : State} {next : Option Pc}
    (hs : advance s false ok pc = some (u, next)) : Inv { u with owner := next } := by
  obtain ⟨howner, hduring, hwatchdog, hworker, hrunning, hstatus⟩ := hd
  cases pc with
  | check | launch | scheduleAwait | scheduleResume | selfJoin => exact hduring.elim
  | connect =>
    simp only [NativeBcSocket.advance] at hs
    split at hs <;> cases hs
    · exact ⟨h.notBlocked, h.handlers, h.attempted,
        Or.inr (Or.inl ⟨.setOpen, rfl, hduring, hwatchdog, hworker, hrunning, hstatus⟩)⟩
    · exact ⟨h.notBlocked, h.handlers, h.attempted,
        Or.inr (Or.inl ⟨.setFailed, rfl, hduring, hwatchdog, hworker, hrunning, hstatus⟩)⟩
  | setFailed =>
    cases hs
    exact ⟨nofun, h.handlers, h.attempted,
      Or.inr (Or.inl ⟨.scheduleCheck, rfl, hduring, hwatchdog, hworker, hrunning, nofun⟩)⟩
  | setOpen =>
    cases hs
    exact ⟨nofun, h.handlers, h.attempted,
      Or.inr (Or.inl ⟨.setConnected, rfl, hduring, hwatchdog, hworker, hrunning, nofun⟩)⟩
  | setConnected =>
    cases hs
    have hset : ∀ status : NativeSocketStatus, status ≠ .connected → s.status ≠ status →
        (if s.joined then NativeSocketStatus.connected else s.status) ≠ status := by
      intro status hc hne
      split
      · exact hc.symm
      · exact hne
    refine ⟨hset _ nofun h.notBlocked, h.handlers, h.attempted, Or.inr (Or.inr ⟨Or.inl rfl, ?_, Or.inl hworker,
      hset _ nofun hstatus, fun hc => ?_⟩)⟩
    · simp only [hwatchdog, if_true]
      exact hrunning
    · rw [hduring] at hc
      cases hc
  | scheduleCheck =>
    simp only [NativeBcSocket.advance, hrunning] at hs
    cases hs
    exact ⟨h.notBlocked, h.handlers, h.attempted,
      Or.inr (Or.inl ⟨.scheduleStatus, rfl, hduring, hwatchdog, hworker, hrunning, hstatus⟩)⟩
  | scheduleStatus =>
    cases hs
    exact ⟨nofun, h.handlers, h.attempted,
      Or.inr (Or.inl ⟨.scheduleReset, rfl, hduring, hwatchdog, hworker, hrunning, nofun⟩)⟩
  | scheduleReset =>
    cases hs
    exact ⟨h.notBlocked, h.handlers, h.attempted,
      Or.inr (Or.inl ⟨.scheduleJoin, rfl, trivial, hwatchdog, hworker, hrunning, hstatus⟩)⟩
  | scheduleJoin =>
    simp only [NativeBcSocket.advance, hworker, if_true] at hs
    cases hs
    exact ⟨h.notBlocked, h.handlers, h.attempted,
      Or.inr (Or.inl ⟨.scheduleSpawn, rfl, trivial, hwatchdog, hworker, hrunning, hstatus⟩)⟩
  | scheduleSpawn =>
    cases hs
    refine ⟨h.notBlocked, h.handlers, h.attempted, Or.inr (Or.inr ⟨Or.inl rfl, ?_, Or.inr (Or.inl rfl), hstatus,
      fun _ => Or.inr (Or.inr rfl)⟩)⟩
    simp only [hwatchdog]
    exact hrunning

theorem Inv.stepOwner {ok : Bool} (h : Inv s) (hs : stepOwner s ok = some t) : Inv t := by
  unfold NativeBcSocket.stepOwner at hs
  split at hs
  · cases hs
  rename_i pc howner
  obtain ⟨⟨u, next⟩, hadv, rfl⟩ := Option.map_eq_some_iff.mp hs
  rcases h.phase with hb | ⟨pc', hd⟩ | ha
  · rcases hb.owner with ho | ho | ho <;> rw [ho] at howner <;> cases howner
    · simp only [NativeBcSocket.advance] at hadv
      split at hadv <;> cases hadv
      · exact h.turnedAway ho
      · exact ⟨h.notBlocked, h.handlers, h.attempted,
          Or.inl ⟨Or.inr (Or.inr rfl), hb.watchdog, hb.worker, hb.client, hb.running, fun _ => Or.inl rfl⟩⟩
    · cases hadv
      exact ⟨nofun, h.handlers, h.attempted, Or.inr (Or.inl ⟨.connect, rfl, rfl, hb.watchdog, hb.worker, rfl, nofun⟩)⟩
  · obtain rfl : pc' = pc := Option.some.inj (hd.owner.symm.trans howner)
    exact hd.advance h hadv
  · rcases ha.owner with ho | ho <;> rw [ho] at howner <;> cases howner
    simp only [NativeBcSocket.advance, h.notIdle ha.status, not_false_eq_true, if_true] at hadv
    cases hadv
    exact h.turnedAway ho

/-- The steps of a `scheduleReconnect` in the watchdog. -/
theorem After.advance (h : Inv s) (ha : After s) (hw : s.watchdog = .scheduling pc) {u : State} {next : Option Pc}
    (hs : advance s false false pc = some (u, next)) :
    Inv { u with watchdog := next.elim .sleeping .scheduling } := by
  obtain ⟨howner, hpc, hworker, hstatus, hclient⟩ := ha
  rw [hw] at hpc
  cases pc with
  | check | launch | connect | setFailed | setOpen | setConnected | selfJoin => exact hpc.elim
  | scheduleCheck =>
    simp only [NativeBcSocket.advance, show s.intentionalStop = false from hpc] at hs
    cases hs
    exact ⟨h.notBlocked, h.handlers, h.attempted,
      Or.inr (Or.inr ⟨howner, hpc, hworker, hstatus, fun _ => Or.inr (Or.inl rfl)⟩)⟩
  | scheduleStatus =>
    cases hs
    exact ⟨nofun, h.handlers, h.attempted,
      Or.inr (Or.inr ⟨howner, hpc, hworker, nofun, fun _ => Or.inr (Or.inl rfl)⟩)⟩
  | scheduleReset =>
    cases hs
    exact ⟨h.notBlocked, h.handlers, h.attempted,
      Or.inr (Or.inr ⟨howner, hpc, hworker, hstatus, fun _ => Or.inr (Or.inl rfl)⟩)⟩
  | scheduleJoin =>
    simp only [NativeBcSocket.advance] at hs
    split at hs <;> cases hs <;> rename_i hnone
    · exact ⟨h.notBlocked, h.handlers, h.attempted,
        Or.inr (Or.inr ⟨howner, ⟨hpc, hnone⟩, hworker, hstatus, fun _ => Or.inr (Or.inl rfl)⟩)⟩
    · exact ⟨h.notBlocked, h.handlers, h.attempted,
        Or.inr (Or.inr ⟨howner, ⟨rfl, hnone⟩, hworker, hstatus, fun _ => Or.inr (Or.inl rfl)⟩)⟩
  | scheduleAwait =>
    simp only [NativeBcSocket.advance] at hs
    split at hs <;> cases hs
    exact ⟨h.notBlocked, h.handlers, h.attempted,
      Or.inr (Or.inr ⟨howner, ⟨hpc.1, rfl⟩, Or.inl rfl, hstatus, fun _ => Or.inr (Or.inl rfl)⟩)⟩
  | scheduleResume =>
    cases hs
    exact ⟨h.notBlocked, h.handlers, h.attempted,
      Or.inr (Or.inr ⟨howner, ⟨rfl, hpc.2⟩, hworker, hstatus, fun _ => Or.inr (Or.inl rfl)⟩)⟩
  | scheduleSpawn =>
    cases hs
    exact ⟨h.notBlocked, h.handlers, h.attempted,
      Or.inr (Or.inr ⟨howner, hpc.1, Or.inr (Or.inl rfl), hstatus, fun _ => Or.inr (Or.inr rfl)⟩)⟩

theorem Inv.stepWatchdog {now : TimestampMs} (h : Inv s) (hs : stepWatchdog s now = some t) : Inv t := by
  rcases h.phase with hb | ⟨pc, hd⟩ | ha
  · simp [NativeBcSocket.stepWatchdog, hb.watchdog] at hs
  · simp [NativeBcSocket.stepWatchdog, hd.watchdog] at hs
  -- outside `scheduleReconnect` the watchdog is no attempt
  have hquiet : ∀ (w : Watchdog) (st : NativeSocketStatus), s.watchdog.attempts = false → w.Inv s →
      st ≠ .stopped → st ≠ .wafBlocked → Inv { s with status := st, watchdog := w } := by
    intro w st hold hnew hstopped hblocked
    refine ⟨hblocked, h.handlers, h.attempted, Or.inr (Or.inr ⟨ha.owner, ?_, ha.worker, hstopped, fun hc => ?_⟩)⟩
    · cases w <;> exact hnew
    · rcases ha.client hc with ho | hw | hk
      · exact Or.inl ho
      · rw [hold] at hw
        cases hw
      · exact Or.inr (Or.inr hk)
  have hinv := ha.watchdog
  unfold NativeBcSocket.stepWatchdog at hs
  split at hs
  · cases hs
  · cases hs
  · rename_i hw
    have hold : s.watchdog.attempts = false := by rw [hw]; rfl
    rw [hw] at hinv
    rw [if_neg (by rw [show s.intentionalStop = false from hinv]; nofun)] at hs
    split at hs <;> cases hs
    · exact hquiet .setDegraded s.status hold hinv ha.status h.notBlocked
    · exact hquiet .checkStale s.status hold hinv ha.status h.notBlocked
  · rename_i hw
    have hold : s.watchdog.attempts = false := by rw [hw]; rfl
    rw [hw] at hinv
    cases hs
    exact hquiet .checkStale .degraded hold hinv nofun nofun
  · rename_i hw
    have hold : s.watchdog.attempts = false := by rw [hw]; rfl
    rw [hw] at hinv
    split at hs <;> cases hs
    · exact hquiet (.scheduling .scheduleCheck) s.status hold hinv ha.status h.notBlocked
    · exact hquiet .sleeping s.status hold hinv ha.status h.notBlocked
  · rename_i pc hw
    obtain ⟨⟨u, next⟩, hadv, rfl⟩ := Option.map_eq_some_iff.mp hs
    have hnext := ha.advance h hw hadv
    cases next <;> exact hnext

/-- A worker that finds the intention to stop is awaited by the watchdog. -/
theorem After.superseded (ha : After s) (hstop : s.intentionalStop = true) :
    s.watchdog.attempts = true := by
  have hinv := ha.watchdog
  have hne : s.intentionalStop ≠ false := by simp [hstop]
  cases hw : s.watchdog with
  | off | sleeping | setDegraded | checkStale | ended =>
    rw [hw] at hinv
    exact absurd hinv hne
  | scheduling pc =>
    rw [hw] at hinv
    cases pc with
    | check | launch | connect | setFailed | setOpen | setConnected | selfJoin => exact hinv.elim
    | scheduleCheck => exact absurd hinv hne
    | scheduleStatus | scheduleReset | scheduleJoin | scheduleAwait | scheduleResume | scheduleSpawn => rfl

theorem Inv.stepWorker {ok : Bool} (h : Inv s) (hok : s.worker ≠ some (.starting .check))
    (hs : stepWorker s ok = some t) : Inv t := by
  rcases h.phase with hb | ⟨pc, hd⟩ | ha
  · simp [NativeBcSocket.stepWorker, hb.worker] at hs
  · simp [NativeBcSocket.stepWorker, hd.worker] at hs
  rcases ha.worker with hw | hw | hw | hw
  · simp [NativeBcSocket.stepWorker, hw] at hs
  · simp only [NativeBcSocket.stepWorker, hw] at hs
    cases hs
    have hne : s.worker ≠ none := by simp [hw]
    have hwatchdog : ∀ k : Worker, s.watchdog.Inv { s with worker := some k } := by
      intro k
      have hinv := ha.watchdog
      cases hd : s.watchdog with
      | off | sleeping | setDegraded | checkStale | ended =>
        rw [hd] at hinv
        exact hinv
      | scheduling pc =>
        rw [hd] at hinv
        cases pc with
        | check | launch | connect | setFailed | setOpen | setConnected | selfJoin => exact hinv.elim
        | scheduleCheck | scheduleStatus | scheduleReset | scheduleJoin => exact hinv
        | scheduleAwait => exact ⟨hinv.1, nofun⟩
        | scheduleResume | scheduleSpawn => exact absurd hinv.2 hne
    refine ⟨h.notBlocked, h.handlers, h.attempted,
      Or.inr (Or.inr ⟨ha.owner, hwatchdog _, ?_, ha.status, fun _ => ?_⟩)⟩
    · split
      · exact Or.inr (Or.inr (Or.inr rfl))
      · exact Or.inr (Or.inr (Or.inl rfl))
    · split
      · rename_i hstop
        exact Or.inr (Or.inl (ha.superseded hstop))
      · exact Or.inr (Or.inr rfl)
  · exact absurd hw hok
  · simp [NativeBcSocket.stepWorker, hw] at hs

/-! ### Frames -/

/-- A frame leaves the threads of the control plane and the status alone. -/
theorem Inv.frame (h : Inv s) (lastFrameMs lastEventMs : TimestampMs) (joined : Bool)
    {handlers : List NativeSocketStatus} (hh : ∀ status ∈ handlers, status ≠ .stopped ∧ status ≠ .wafBlocked) :
    Inv { s with lastFrameMs, lastEventMs, joined, handlers } := by
  refine ⟨h.notBlocked, hh, h.attempted, ?_⟩
  rcases h.phase with hb | ⟨pc, hd⟩ | ha
  · exact Or.inl ⟨hb.owner, hb.watchdog, hb.worker, hb.client, hb.running, hb.notStuck⟩
  · exact Or.inr (Or.inl ⟨pc, hd.owner, hd.during, hd.watchdog, hd.worker, hd.running, hd.status⟩)
  · refine Or.inr (Or.inr ⟨ha.owner, ?_, ha.worker, ha.status, ha.client⟩)
    have hinv := ha.watchdog
    cases hw : s.watchdog <;> rw [hw] at hinv <;> exact hinv

/-- A frame announces a status that is neither stopped nor blocked. -/
theorem Inv.announce (h : Inv s) {st : NativeSocketStatus} (hstopped : st ≠ .stopped) (hblocked : st ≠ .wafBlocked) :
    ∀ status ∈ s.handlers ++ [st], status ≠ .stopped ∧ status ≠ .wafBlocked := by
  intro status hmem
  rcases List.mem_append.mp hmem with hm | hm
  · exact h.handlers status hm
  · rw [List.mem_singleton.mp hm]
    exact ⟨hstopped, hblocked⟩

theorem Inv.onFrame (h : Inv s) (f : Frame) (injected : Bool) (now : TimestampMs) : Inv (onFrame s f injected now) := by
  have harrived : Inv (if injected then { s with lastFrameMs := now } else s) := by
    split
    · exact h.frame now s.lastEventMs s.joined h.handlers
    · exact h
  unfold NativeBcSocket.onFrame
  dsimp only
  generalize (if injected then { s with lastFrameMs := now } else s) = u at harrived ⊢
  cases f with
  | other => exact harrived
  | engineOpen =>
    simp only
    split
    · exact harrived.frame u.lastFrameMs u.lastEventMs u.joined (harrived.announce nofun nofun)
    · exact harrived
  | engineClose => exact harrived.frame u.lastFrameMs u.lastEventMs false (harrived.announce nofun nofun)
  | connect =>
    simp only
    split
    · exact harrived.frame u.lastFrameMs u.lastEventMs true (harrived.announce nofun nofun)
    · exact harrived
  | event =>
    simp only
    split
    · exact harrived.frame u.lastFrameMs now u.joined (harrived.announce nofun nofun)
    · exact harrived.frame u.lastFrameMs now u.joined harrived.handlers

theorem Inv.handlerSets {status : NativeSocketStatus} (h : Inv s) (hmem : status ∈ s.handlers)
    (hok : status = .reconnecting → s.client = true ∨ AttemptPending s) :
    Inv { s with status, handlers := s.handlers.erase status } := by
  obtain ⟨hstopped, hblocked⟩ := h.handlers status hmem
  refine ⟨hblocked, fun st hst => h.handlers st (List.mem_of_mem_erase hst), h.attempted, ?_⟩
  rcases h.phase with hb | ⟨pc, hd⟩ | ha
  · refine Or.inl ⟨hb.owner, hb.watchdog, hb.worker, hb.client, hb.running, fun hs => ?_⟩
    rcases hok hs with hc | hp
    · rw [hb.client] at hc
      cases hc
    · exact hp
  · exact Or.inr (Or.inl ⟨pc, hd.owner, hd.during, hd.watchdog, hd.worker, hd.running, hstopped⟩)
  · refine Or.inr (Or.inr ⟨ha.owner, ?_, ha.worker, hstopped, ha.client⟩)
    have hinv := ha.watchdog
    cases hw : s.watchdog <;> rw [hw] at hinv <;> exact hinv

theorem step_inv {a : Act} (h : Inv s) (hok : KeepsTrying s a) (hs : step s a = some t) : Inv t := by
  cases a with
  | start =>
    obtain ⟨howner, hs⟩ := Option.ite_none_right_eq_some.mp hs
    cases hs
    exact h.start howner
  | owner => exact h.stepOwner hs
  | watchdog => exact h.stepWatchdog hs
  | worker => exact h.stepWorker hok hs
  | frame =>
    cases hs
    exact h.onFrame _ _ _
  | handlerSets =>
    obtain ⟨hmem, hs⟩ := Option.ite_none_right_eq_some.mp hs
    cases hs
    exact h.handlerSets hmem hok

/-- A worker that calls `start` finds the socket reconnecting, and returns. -/
theorem Inv.startReturns {ok : Bool} (h : Inv s) (hw : s.worker = some (.starting .check))
    (hs : NativeBcSocket.stepWorker s ok = some t) : t.workerCalls = s.workerCalls ++ [false] := by
  rcases h.phase with hb | ⟨pc, hd⟩ | ha
  · rw [hb.worker] at hw
    cases hw
  · rw [hd.worker] at hw
    cases hw
  · simp only [NativeBcSocket.stepWorker, hw, NativeBcSocket.advance, h.notIdle ha.status, not_false_eq_true,
      if_true] at hs
    cases hs
    rfl

theorem Progresses.keepsTrying {a : Act} (h : Inv s) (hs : step s a = some t) (hp : Progresses t) :
    KeepsTrying s a := by
  cases a with
  | start | owner | watchdog | frame => trivial
  | worker ok =>
    intro hw
    have hmade := hp.attempted false
    rw [h.startReturns hw hs] at hmade
    cases hmade (by simp)
  | handlerSets status =>
    obtain ⟨_, hs⟩ := Option.ite_none_right_eq_some.mp hs
    cases hs
    intro hstatus
    cases hc : s.client with
    | true => exact Or.inl rfl
    | false => exact Or.inr (hp.notStuck hstatus hc)

/-- In every run from the start of the program, reconnecting makes progress exactly as long as no reconnect worker
    gets to call `start` and no thread reports the loss of a transport that is not there. -/
theorem progresses_along_iff {cfg : NativeSocketConfig} {acts : List Act} (hrun : run step { cfg } acts ≠ none) :
    Along step Progresses { cfg } acts ↔ Meets step KeepsTrying { cfg } acts :=
  along_iff_meets (I := Inv) (fun _ h => h.progresses) (fun _ _ _ h hok hs => step_inv h hok hs)
    (fun _ _ _ h hs hp => hp.keepsTrying h hs) (inv_initial cfg) hrun

/-- A stream that goes stale twice: the watchdog starts a worker, and supersedes it in its delay. -/
def staleTwice : List Act := List.flatten [
  [.start, .owner true, .owner true, .owner true, .owner true, .owner true],
  [.frame .engineOpen true 1000, .handlerSets .socketOpen],
  List.replicate 7 (.watchdog 100000),
  List.replicate 6 (.watchdog 105000),
  [.worker true],
  List.replicate 3 (.watchdog 105000)]

theorem progresses_along_staleTwice : Along step Progresses {} staleTwice :=
  (progresses_along_iff (by decide +kernel)).mpr (by decide +kernel)

/-- The first connection fails; the worker that is to make the second attempt returns, and the socket stays where it
    is. -/
def firstFails : List Act := List.flatten [[.start, .owner true, .owner true, .owner false], List.replicate 6 (.owner true),
  [.worker true, .worker true]]

theorem not_progresses_along_firstFails : ¬Along step Progresses {} firstFails := by
  intro h
  have hcalls : (run step {} firstFails).map State.workerCalls = some [false] := by decide +kernel
  obtain ⟨t, ht, hcalls⟩ := Option.map_eq_some_iff.mp hcalls
  have hmade := (h.last ht).attempted false
  rw [hcalls] at hmade
  cases hmade (by simp)

end NativeBcSocket
end CrashCore
