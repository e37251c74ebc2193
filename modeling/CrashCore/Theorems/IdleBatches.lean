import CrashCore.Theorems.BatchConservation

/-! What the idle worker of the batch writer leaves in the buffer. The branch of an item empties a full buffer, so the
branch without one never finds the full buffer that it looks for, unless batches are empty. -/

namespace CrashCore
namespace BatchWriter
open Transition

variable {α : Type} {sql : α → String} {s t : State α} {a : Act α}

/-- The writer, and the items accepted when the last `pop` ran out of time, up to the next turn of the worker. -/
structure Watched (α : Type) where
  writer : State α
  noted : Option (List α) := none

namespace Watched

/-- What is noted after an action. -/
def note (w : Watched α) : Act α → Option (List α)
  | .work _ =>
    match w.writer.worker with
    | .looping => none
    | .popping => if w.writer.running ∧ w.writer.queue.items = [] then some w.writer.accepted else none
    | _ => w.noted
  | _ => w.noted

def step (sql : α → String) (w : Watched α) (a : Act α) : Option (Watched α) :=
  (BatchWriter.step sql w.writer a).map fun writer => { writer, noted := w.note a }

/-- At the end of the turn the noted items have been passed to `writeBatch`. -/
def IdleFlushed (w : Watched α) : Prop := ∀ items, w.noted = some items → w.writer.worker = .looping → items <+: w.writer.passed

/-- When the worker looks at the buffer without an item, a multiple of the batch size was accepted. -/
def WholeBatches (w : Watched α) : Act α → Prop
  | .work _ =>
    ∀ items, w.noted = some items → w.writer.worker = .idle → w.writer.batchSize = 0 ∨ w.writer.batchSize ∣ items.length
  | _ => True

end Watched

/-! ### Batches -/

/-- `stop` has joined the worker. -/
def Stop.Flushes : Stop α → Prop
  | .flushing _ | .returned => True
  | .notCalled | .closing | .joining => False

/-- The call is one of `writeBatch`. -/
def Call.Writes : Call α → Prop
  | .write _ => True
  | .swap | .drain _ => False

/-- The buffer is never full between two steps, and what has left it are whole batches. -/
structure Batched (s : State α) : Prop where
  small : s.buffer.length < s.batchSize ∨ s.buffer = []
  whole : s.batchSize = 0 ∨ s.batchSize ∣ s.passed.length
  writes : s.batchSize = 0 ∨ ∀ c, s.worker = .calling c → c.Writes

theorem batched_initial (batchSize queueCapacity : Nat) : Batched (initial batchSize queueCapacity : State α) :=
  ⟨.inr rfl, .inr (Nat.dvd_zero _), .inr fun _ h => by cases h⟩

theorem Batched.congr (h : Batched s) (hbatch : t.batchSize = s.batchSize) (hbuffer : t.buffer = s.buffer)
    (hpassed : t.passed = s.passed) (hwrites : t.batchSize = 0 ∨ ∀ c, t.worker = .calling c → c.Writes) : Batched t :=
  ⟨by rw [hbuffer, hbatch]; exact h.small, by rw [hbatch, hpassed]; exact h.whole, hwrites⟩

/-- A call of `writeBatch` leaves the buffer and the passed items alone; a call of `flush` fills no buffer. -/
theorem callStep_buffer (sql : α → String) (s : State α) (c : Call α) (execution : Execution) :
    (callStep sql s execution c).1.batchSize = s.batchSize ∧
    (s.buffer = [] → (callStep sql s execution c).1.buffer = []) ∧
    (c.Writes → (callStep sql s execution c).1.buffer = s.buffer ∧ (callStep sql s execution c).1.passed = s.passed ∧
      ∀ c', (callStep sql s execution c).2 = some c' → c'.Writes) := by
  cases c with
  | swap => exact ⟨rfl, fun _ => rfl, fun h => h.elim⟩
  | drain batch =>
    rw [callStep]
    split
    · exact ⟨rfl, id, fun h => h.elim⟩
    · exact ⟨rfl, id, fun h => h.elim⟩
  | write rest =>
    cases rest with
    | nil => exact ⟨rfl, id, fun _ => ⟨rfl, rfl, fun c' hc => by cases hc⟩⟩
    | cons item rest => cases execution <;> exact ⟨rfl, id, fun _ => ⟨rfl, rfl, fun c' hc => by cases hc; trivial⟩⟩

/-- A call that ends leaves `small` and `whole`, and one that goes on `writes` as well. -/
theorem Batched.callStep {c : Call α} (h : Batched s) (hworker : s.worker = .calling c) (execution : Execution)
    (ht : t.batchSize = (callStep sql s execution c).1.batchSize)
    (hbuffer : t.buffer = (callStep sql s execution c).1.buffer)
    (hpassed : t.passed = (callStep sql s execution c).1.passed)
    (hcall : ∀ c', t.worker = .calling c' → (callStep sql s execution c).2 = some c') : Batched t := by
  obtain ⟨hbatch, hempty, hwrite⟩ := callStep_buffer sql s c execution
  rcases Nat.eq_zero_or_pos s.batchSize with hzero | hpos
  · have hnil : s.buffer = [] := h.small.resolve_left (by rw [hzero]; exact Nat.not_lt_zero _)
    have hzero' : t.batchSize = 0 := ht.trans (hbatch.trans hzero)
    exact ⟨.inr (hbuffer.trans (hempty hnil)), .inl hzero', .inl hzero'⟩
  · obtain ⟨hkeep, hkeep', hgo⟩ := hwrite (h.writes.resolve_left (Nat.ne_of_gt hpos) c hworker)
    exact h.congr (ht.trans hbatch) (hbuffer.trans hkeep) (hpassed.trans hkeep')
      (.inr fun c' hc' => hgo c' (hcall c' hc'))

/-- A batch that is passed on is whole. -/
theorem Batched.hold {item : α} (h : Batched s) (hfull : s.batchSize ≤ (s.buffer ++ [item]).length) :
    s.batchSize = 0 ∨ s.batchSize ∣ (s.passed ++ (s.buffer ++ [item])).length := by
  rcases Nat.eq_zero_or_pos s.batchSize with hzero | hpos
  · exact .inl hzero
  · have hlen : (s.buffer ++ [item]).length = s.batchSize := by
      rw [List.length_append, List.length_singleton] at hfull ⊢
      rcases h.small with hsmall | hnil
      · omega
      · rw [hnil, List.length_nil] at hfull ⊢
        omega
    rw [List.length_append, hlen]
    exact .inr (Nat.dvd_add (h.whole.resolve_left (Nat.ne_of_gt hpos)) (Nat.dvd_refl _))

theorem Batched.work {execution : Execution} (h : Batched s) (hs : work sql s execution = some t) : Batched t := by
  cases hworker : s.worker with
  | absent | finished =>
    rw [BatchWriter.work, hworker] at hs
    cases hs
  | looping =>
    rw [BatchWriter.work, hworker] at hs
    cases hs
    refine h.congr rfl rfl rfl (.inr fun c hc => ?_)
    dsimp only at hc
    split at hc <;> cases hc
  | popping =>
    rw [BatchWriter.work, hworker] at hs
    dsimp only at hs
    split at hs <;> cases hs
    · exact h.congr rfl rfl rfl (.inr fun c hc => by cases hc)
    · exact h.congr rfl rfl rfl (.inr fun c hc => by cases hc)
  | idle =>
    rw [BatchWriter.work, hworker] at hs
    cases hs
    refine h.congr rfl rfl rfl ?_
    by_cases hfull : s.batchSize ≤ s.buffer.length
    · have hempty : s.buffer = [] := h.small.resolve_left (Nat.not_lt.mpr hfull)
      rw [hempty] at hfull
      exact .inl (Nat.le_zero.mp hfull)
    · refine .inr fun c hc => ?_
      dsimp only at hc
      rw [if_neg hfull] at hc
      cases hc
  | holding item =>
    rw [BatchWriter.work, hworker] at hs
    dsimp only at hs
    split at hs <;> rename_i hfull <;> cases hs
    · exact ⟨.inr rfl, h.hold hfull, .inr fun c hc => by cases hc; trivial⟩
    · exact ⟨.inl (Nat.lt_of_not_le hfull), h.whole, .inr fun c hc => by cases hc⟩
  | calling c =>
    rw [BatchWriter.work, hworker] at hs
    dsimp only at hs
    split at hs <;> rename_i hcall <;> cases hs
    · exact h.callStep hworker execution (by rw [hcall]) (by rw [hcall]) (by rw [hcall])
        fun c' hc' => by cases hc'; rw [hcall]
    · exact h.callStep hworker execution (by rw [hcall]) (by rw [hcall]) (by rw [hcall]) fun c' hc' => by cases hc'

/-- What the other threads do to the items: nothing, before `stop` flushes. -/
structure Aside (s t : State α) : Prop where
  batchSize : t.batchSize = s.batchSize
  flushes : s.stop.Flushes → t.stop.Flushes
  kept : t.stop.Flushes ∨ (t.buffer = s.buffer ∧ t.passed = s.passed)
  worker : t.worker = s.worker ∨ (s.worker.Ended ∧ t.worker = .looping)

theorem aside_stop {execution : Execution} (hs : stop sql s execution = some t) : Aside s t := by
  rw [BatchWriter.stop] at hs
  split at hs <;> rename_i hstop
  · cases hs
    exact ⟨rfl, fun h => by rw [hstop] at h; exact h, .inr ⟨rfl, rfl⟩, .inl rfl⟩
  · cases hs
    exact ⟨rfl, fun h => by rw [hstop] at h; exact h, .inr ⟨rfl, rfl⟩, .inl rfl⟩
  · split at hs <;> cases hs <;> exact ⟨rfl, fun _ => trivial, .inl trivial, .inl rfl⟩
  · rename_i c
    obtain ⟨hworker, -, -, -⟩ := callStep_frame sql (s := s) (c := c) execution
    obtain ⟨hbatch, -, -⟩ := callStep_buffer sql s c execution
    split at hs <;> rename_i hcall <;> rw [hcall] at hworker hbatch <;> cases hs <;>
      exact ⟨hbatch, fun _ => trivial, .inl trivial, .inl hworker⟩
  · cases hs

theorem aside_of_step (h : Inv s) (ha : ∀ execution, a ≠ .work execution) (hs : step sql s a = some t) : Aside s t := by
  cases a with
  | start =>
    simp only [step] at hs
    split at hs
    · rename_i hstop
      cases hs
      rw [BatchWriter.start]
      split
      · exact ⟨rfl, id, .inr ⟨rfl, rfl⟩, .inl rfl⟩
      · rename_i hrunning
        have hreached := h.reached
        rw [hstop] at hreached
        exact ⟨rfl, id, .inr ⟨rfl, rfl⟩, .inr ⟨hreached (by simpa using hrunning), rfl⟩⟩
    · cases hs
  | push item =>
    cases hs
    rw [BatchWriter.push]
    split <;> exact ⟨rfl, id, .inr ⟨rfl, rfl⟩, .inl rfl⟩
  | count | drop =>
    simp only [step] at hs
    split at hs <;> cases hs
    exact ⟨rfl, id, .inr ⟨rfl, rfl⟩, .inl rfl⟩
  | work execution => exact absurd rfl (ha execution)
  | stop execution => exact aside_stop hs

/-! ### The noted items -/

/-- Where the noted items are, by what the worker does next. -/
def Worker.Behind (items : List α) (s : State α) : Worker α → Prop
  | .idle => items = s.passed ++ s.buffer
  | .calling .swap => items <+: s.passed ++ s.buffer
  | .calling (.drain batch) => items <+: s.passed ++ batch
  | .calling (.write _) | .looping => items <+: s.passed
  | .absent | .popping | .holding _ | .finished => False

/-- Whole batches were accepted if the buffer is empty, or full, which then means the same. -/
theorem Batched.whole_iff (h : Batched s) : (s.batchSize = 0 ∨ s.batchSize ∣ (s.passed ++ s.buffer).length) ↔
    (s.batchSize ≤ s.buffer.length ∨ s.buffer = []) := by
  constructor
  · intro hwhole
    rcases h.small with hsmall | hnil
    · have hpos : s.batchSize ≠ 0 := by omega
      have hdvd := hwhole.resolve_left hpos
      rw [List.length_append] at hdvd
      have hrest : s.batchSize ∣ s.buffer.length := (Nat.dvd_add_right (h.whole.resolve_left hpos)).mp hdvd
      exact .inr (List.eq_nil_of_length_eq_zero (Nat.eq_zero_of_dvd_of_lt hrest hsmall))
    · exact .inr hnil
  · intro hrest
    have hnil : s.buffer = [] := hrest.elim (fun hle => h.small.resolve_left (Nat.not_lt.mpr hle)) id
    rw [hnil, List.append_nil]
    exact h.whole

namespace Watched
variable {w v : Watched α}

structure Kept (w : Watched α) : Prop where
  writer : Inv w.writer
  batched : ¬w.writer.stop.Flushes → Batched w.writer
  noted : ∀ items, w.noted = some items → w.writer.worker.Behind items w.writer

theorem kept_initial (batchSize queueCapacity : Nat) : Kept { writer := (initial batchSize queueCapacity : State α) } :=
  ⟨inv_initial batchSize queueCapacity, fun _ => batched_initial batchSize queueCapacity, fun _ h => by cases h⟩

theorem Kept.idleFlushed (h : Kept w) : IdleFlushed w := by
  intro items hitems hlooping
  have hbehind := h.noted items hitems
  rwa [hlooping] at hbehind

theorem not_flushes (h : Inv s) (hgoes : ¬s.worker.Ended) : ¬s.stop.Flushes := by
  intro hflushes
  have hreached := h.reached
  cases hs : s.stop with
  | notCalled | closing | joining => rw [hs] at hflushes; exact hflushes
  | flushing c | returned => rw [hs] at hreached; exact hgoes hreached.2.1

theorem Worker.Behind.goes {items : List α} (h : s.worker.Behind items s) : ¬s.worker.Ended := by
  intro hended
  cases hs : s.worker with
  | absent | finished => rw [hs] at h; exact h
  | looping | popping | idle | holding _ | calling _ => rw [hs] at hended; exact hended

theorem goes_of_work {execution : Execution} (hs : work sql s execution = some t) : ¬s.worker.Ended := by
  intro hended
  cases hworker : s.worker with
  | absent | finished => rw [BatchWriter.work, hworker] at hs; cases hs
  | looping | popping | idle | holding _ | calling _ => rw [hworker] at hended; exact hended

/-- The step after a `pop` without an item: the noted items have been passed on, or are with the worker, exactly if whole
    batches were accepted. -/
theorem Kept.idle {execution : Execution} {items : List α} (h : Kept w) (hworker : w.writer.worker = .idle)
    (hnoted : w.noted = some items) (hs : work sql w.writer execution = some t) :
    t.worker.Behind items t ↔ (w.writer.batchSize = 0 ∨ w.writer.batchSize ∣ items.length) := by
  have hitems := h.noted items hnoted
  have hbatched := h.batched (not_flushes h.writer (by rw [hworker]; exact id))
  rw [hworker] at hitems
  obtain rfl : items = w.writer.passed ++ w.writer.buffer := hitems
  rw [BatchWriter.work, hworker] at hs
  cases hs
  rw [hbatched.whole_iff]
  by_cases hfull : w.writer.batchSize ≤ w.writer.buffer.length
  · simp only [if_pos hfull]
    exact iff_of_true (List.prefix_refl _) (.inl hfull)
  · simp only [if_neg hfull]
    constructor
    · intro hprefix
      exact .inr (List.eq_nil_of_length_eq_zero (by
        have hle := List.IsPrefix.length_le hprefix
        rw [List.length_append] at hle
        dsimp only at hle
        omega))
    · rintro (hle | hnil)
      · exact absurd hle hfull
      · show _ <+: _
        rw [hnil, List.append_nil]

theorem Behind.call {items : List α} {c : Call α} {execution : Execution} (hworker : s.worker = .calling c)
    (h : s.worker.Behind items s) (hs : work sql s execution = some t) : t.worker.Behind items t := by
  rw [hworker] at h
  rw [BatchWriter.work, hworker] at hs
  dsimp only at hs
  cases c with
  | swap =>
    cases hs
    exact h
  | drain batch =>
    rw [callStep] at hs
    rcases hpop : s.queue.tryPop with _ | ⟨item, queue⟩ <;> rw [hpop] at hs <;> cases hs
    · exact h
    · refine List.IsPrefix.trans h ?_
      rw [← List.append_assoc]
      exact List.prefix_append _ _
  | write rest =>
    cases rest with
    | nil =>
      cases hs
      exact h
    | cons item rest => cases execution <;> cases hs <;> exact h

theorem Kept.work {execution : Execution} (h : Kept w) (hok : WholeBatches w (.work execution))
    (hs : work sql w.writer execution = some t) :
    ∀ items, w.note (.work execution) = some items → t.worker.Behind items t := by
  intro items hnote
  cases hworker : w.writer.worker with
  | absent | finished =>
    rw [BatchWriter.work, hworker] at hs
    cases hs
  | looping =>
    simp only [note, hworker] at hnote
    cases hnote
  | popping =>
    have hordered := h.writer.worker_ordered hworker id
    simp only [note, hworker] at hnote
    split at hnote
    · rename_i hempty
      cases hnote
      have horder := hordered.order
      rw [BatchWriter.work, hworker] at hs
      dsimp only at hs
      rw [BoundedQueue.tryPop_eq_none.mpr hempty.2] at hs
      cases hs
      show w.writer.accepted = _
      rw [← horder, hempty.2]
      simp [Worker.call, Worker.hand]
    · cases hnote
  | idle =>
    simp only [note, hworker] at hnote
    exact (h.idle hworker hnote hs).mpr (hok items hnote hworker)
  | holding item =>
    simp only [note, hworker] at hnote
    have hbehind := h.noted items hnote
    rw [hworker] at hbehind
    exact hbehind.elim
  | calling c =>
    simp only [note, hworker] at hnote
    exact Behind.call hworker (h.noted items hnote) hs

/-- A step of another thread leaves the noted items where they are. -/
theorem Kept.aside (h : Kept w) (hinv : Inv t) (ht : Aside w.writer t) :
    Kept { writer := t, noted := w.noted } where
  writer := hinv
  batched hflushes := by
    have hbatched := h.batched fun hs => hflushes (ht.flushes hs)
    obtain ⟨hbuffer, hpassed⟩ := ht.kept.resolve_left hflushes
    refine hbatched.congr ht.batchSize hbuffer hpassed ?_
    dsimp only
    rw [ht.batchSize]
    refine hbatched.writes.imp_right fun hwrites c hc => ?_
    rcases ht.worker with hsame | ⟨-, hlooping⟩
    · exact hwrites c (hsame ▸ hc)
    · rw [hlooping] at hc
      cases hc
  noted items hitems := by
    have hbehind := h.noted items hitems
    have hgoes : ¬w.writer.worker.Ended := Worker.Behind.goes hbehind
    have hsame : t.worker = w.writer.worker := ht.worker.resolve_right fun hend => hgoes hend.1
    obtain ⟨hbuffer, hpassed⟩ := ht.kept.resolve_left (not_flushes hinv (hsame ▸ hgoes))
    dsimp only
    rw [hsame]
    cases hw : w.writer.worker with
    | calling c =>
      rw [hw] at hbehind
      cases c <;> simpa only [Worker.Behind, hbuffer, hpassed] using hbehind
    | looping | idle =>
      rw [hw] at hbehind
      simpa only [Worker.Behind, hbuffer, hpassed] using hbehind
    | absent | popping | holding _ | finished =>
      rw [hw] at hbehind
      exact hbehind

theorem Kept.step (h : Kept w) (hok : WholeBatches w a) (hs : step sql w a = some v) : Kept v := by
  obtain ⟨t, ht, rfl⟩ := Option.map_eq_some_iff.mp hs
  have hinv := step_inv h.writer ht
  by_cases hwork : ∃ execution, a = .work execution
  · obtain ⟨execution, rfl⟩ := hwork
    exact ⟨hinv, fun _ => (h.batched (not_flushes h.writer (goes_of_work ht))).work ht, h.work hok ht⟩
  · have hnote : w.note a = w.noted := by
      cases a with
      | work execution => exact absurd ⟨execution, rfl⟩ hwork
      | start | push _ | count | drop | stop _ => rfl
    rw [hnote]
    exact h.aside hinv (aside_of_step h.writer (fun execution ha => hwork ⟨execution, ha⟩) ht)

/-- The noted items are passed on by the end of the turn only if whole batches were accepted. -/
theorem Kept.wholeBatches (h : Kept w) (hs : Watched.step sql w a = some v) (hv : IdleFlushed v) : WholeBatches w a := by
  cases a with
  | work execution =>
    intro items hnoted hworker
    obtain ⟨t, ht, rfl⟩ := Option.map_eq_some_iff.mp hs
    refine (h.idle hworker hnoted ht).mp ?_
    have hitems := h.noted items hnoted
    rw [hworker] at hitems
    have hflushed := hv items (by simp only [note, hworker]; exact hnoted)
    simp only [BatchWriter.step, BatchWriter.work, hworker] at ht
    cases ht
    by_cases hfull : w.writer.batchSize ≤ w.writer.buffer.length
    · obtain rfl : items = w.writer.passed ++ w.writer.buffer := hitems
      simp only [if_pos hfull]
      exact List.prefix_refl _
    · simp only [if_neg hfull] at hflushed ⊢
      exact hflushed trivial
  | start | push _ | count | drop | stop _ => trivial

theorem wholeBatches_of_disabled (hs : step sql w a = none) : WholeBatches w a := by
  cases a with
  | work execution =>
    intro items hnoted hworker
    simp [step, BatchWriter.step, BatchWriter.work, hworker] at hs
  | start | push _ | count | drop | stop _ => trivial

end Watched

/-- In a run of the writer, each `pop` that runs out of time is followed by the writing of all that was accepted before
    it, in the same turn, exactly if it comes after whole batches. -/
theorem idleFlushed_along_iff (sql : α → String) (batchSize queueCapacity : Nat) (as : List (Act α)) :
    Along (Watched.step sql) Watched.IdleFlushed { writer := initial batchSize queueCapacity } as ↔
      Meets (Watched.step sql) Watched.WholeBatches { writer := initial batchSize queueCapacity } as :=
  along_iff_meets_of_disabled (fun _ h => h.idleFlushed) (fun _ _ _ h hok hs => h.step hok hs)
    (fun _ _ _ h hs hv => h.wholeBatches hs hv) (fun _ _ hs => Watched.wholeBatches_of_disabled hs)
    (Watched.kept_initial batchSize queueCapacity)

/-- One item is enqueued, and `pop` runs out of time after it. -/
def oneItem : List (Act Nat) := [.start, .push 1] ++ List.replicate 6 (.work .done)

/-- With batches of two the item stays in the buffer. -/
theorem not_idleFlushed_along : ¬∀ (batchSize queueCapacity : Nat) (as : List (Act Nat)),
    Along (Watched.step fun _ => "") Watched.IdleFlushed { writer := initial batchSize queueCapacity } as := by
  intro h
  have hrun : ∃ w, run (Watched.step fun _ => "") { writer := initial 2 4 } oneItem = some w ∧
      w.noted = some [1] ∧ w.writer.worker = .looping ∧ w.writer.passed = [] :=
    ⟨_, rfl, by decide +kernel, rfl, by decide +kernel⟩
  obtain ⟨w, hw, hnoted, hworker, hpassed⟩ := hrun
  have hprefix := (h 2 4 oneItem).last hw [1] hnoted hworker
  rw [hpassed] at hprefix
  exact absurd hprefix (by decide)

end BatchWriter
end CrashCore
