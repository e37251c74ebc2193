import CrashCore.Library.RingBuffer
import CrashCore.Library.Run
import CrashCore.PredictionInterface.ShmPredictionClient

/-! The response ring of the shared-memory client as a queue. A write takes no notice of the responses that are not
polled yet; when there are as many as the ring holds, it hides them all. -/

namespace CrashCore
namespace ShmPredictionClient
open Transition

variable {s t : ShmPredictionClient} {a : Act} {f : TimedResponse → TimedResponse}

/-- The responses between the tail and the head. -/
def unpolled (s : ShmPredictionClient) : Nat := (s.respHead + shmQueueSlots - s.respTail) % shmQueueSlots

/-- What is still to be polled. -/
def contents (s : ShmPredictionClient) : List TimedResponse :=
  (RingWindow.window shmQueueSlots s.responses s.respTail s.unpolled).map readResponseSlot

/-- The written responses, as `f` gives them, are those polled and those that can still be polled, each once and in
    order. -/
def Queues (f : TimedResponse → TimedResponse) (s : ShmPredictionClient) : Prop :=
  s.polled ++ s.contents = s.written.map f

/-- A write finds a free slot, beside the one that tells a full ring from an empty one. -/
def HasRoom (s : ShmPredictionClient) : Act → Prop
  | .writeResponse _ => s.unpolled < shmQueueSlots - 1
  | .pollResponseSlot => True

/-- A slot gives the written response as `f` does. -/
def Gives (f : TimedResponse → TimedResponse) : Act → Prop
  | .writeResponse resp => carried resp = f resp
  | .pollResponseSlot => True

/-- A written response survives its slot. -/
def Whole : Act → Prop
  | .writeResponse resp => Survives resp
  | .pollResponseSlot => True

/-- Head and tail are positions of the ring. -/
structure InRing (s : ShmPredictionClient) : Prop where
  head_lt : s.respHead < shmQueueSlots
  tail_lt : s.respTail < shmQueueSlots

theorem inRing_initial : InRing {} := ⟨by decide, by decide⟩

theorem InRing.head (h : InRing s) : s.respHead = (s.respTail + s.unpolled) % shmQueueSlots := by
  have hhead := h.head_lt
  have htail := h.tail_lt
  simp only [unpolled, shmQueueSlots] at *
  omega

theorem InRing.step (h : InRing s) (hs : step s a = some t) : InRing t := by
  cases a with
  | writeResponse resp =>
    cases hs
    exact ⟨Nat.mod_lt _ (by decide), h.tail_lt⟩
  | pollResponseSlot =>
    cases hs
    rw [pollResponseSlot]
    split
    · exact h
    · exact ⟨h.head_lt, Nat.mod_lt _ (by decide)⟩

theorem unpolled_lt (s : ShmPredictionClient) : s.unpolled < shmQueueSlots := Nat.mod_lt _ (by decide)

/-! ### Writes -/

theorem unpolled_write (h : InRing s) (resp : TimedResponse) :
    (s.writeResponse resp).unpolled = (s.unpolled + 1) % shmQueueSlots := by
  have hhead := h.head_lt
  have htail := h.tail_lt
  simp only [unpolled, writeResponse, shmQueueSlots] at *
  omega

theorem contents_write (h : InRing s) (hroom : s.unpolled < shmQueueSlots - 1) (resp : TimedResponse) :
    (s.writeResponse resp).contents = s.contents ++ [carried resp] := by
  have hcell : s.respHead % shmQueueSlots = (s.respTail + s.unpolled) % shmQueueSlots := by
    rw [Nat.mod_eq_of_lt h.head_lt, ← h.head]
  have hnext : (s.unpolled + 1) % shmQueueSlots = s.unpolled + 1 := Nat.mod_eq_of_lt (by omega)
  rw [contents, unpolled_write h, hnext, writeResponse, contents, RingWindow.window_update_last s.unpolled_lt hcell,
    List.map_append, List.map_singleton, read_writeSlot]

/-- A write into a full ring hides what is in it. -/
theorem contents_write_full (h : InRing s) (hfull : ¬s.unpolled < shmQueueSlots - 1) (resp : TimedResponse) :
    (s.writeResponse resp).contents = [] := by
  have hlast : s.unpolled + 1 = shmQueueSlots := by
    have := s.unpolled_lt
    omega
  rw [contents, unpolled_write h, hlast, Nat.mod_self]
  rfl

theorem queues_write_iff (h : InRing s) (hq : Queues f s) (resp : TimedResponse) :
    Queues f (s.writeResponse resp) ↔ s.unpolled < shmQueueSlots - 1 ∧ carried resp = f resp := by
  have hwritten : (s.writeResponse resp).written.map f = s.polled ++ s.contents ++ [f resp] := by
    rw [writeResponse, List.map_append, ← hq]
    rfl
  have hpolled : (s.writeResponse resp).polled = s.polled := rfl
  rw [Queues, hwritten, hpolled]
  by_cases hroom : s.unpolled < shmQueueSlots - 1
  · rw [contents_write h hroom, ← List.append_assoc, List.append_cancel_left_eq, List.singleton_inj]
    exact ⟨fun heq => ⟨hroom, heq⟩, And.right⟩
  · rw [contents_write_full h hroom, List.append_nil]
    refine iff_of_false (fun heq => ?_) fun hboth => hroom hboth.1
    have hlen := congrArg List.length heq
    rw [List.length_append, List.length_append, List.length_singleton] at hlen
    omega

/-! ### Polls -/

/-- A poll takes the first of the responses, if there is one. -/
theorem poll_moves (h : InRing s) :
    s.pollResponseSlot.polled ++ s.pollResponseSlot.contents = s.polled ++ s.contents ∧
      s.pollResponseSlot.written = s.written := by
  by_cases hempty : s.respTail = s.respHead
  · rw [pollResponseSlot, if_pos hempty]
    exact ⟨rfl, rfl⟩
  · have hcount : s.unpolled = s.pollResponseSlot.unpolled + 1 := by
      have hhead := h.head_lt
      have htail := h.tail_lt
      simp only [unpolled, pollResponseSlot, if_neg hempty, shmQueueSlots] at *
      omega
    have hcontents : s.contents = readResponseSlot (s.responses s.respTail) :: s.pollResponseSlot.contents := by
      rw [contents, hcount, RingWindow.window_succ h.tail_lt, List.map_cons, contents]
      simp only [pollResponseSlot, if_neg hempty]
    rw [hcontents, pollResponseSlot, if_neg hempty, Nat.mod_eq_of_lt h.tail_lt]
    exact ⟨by rw [List.append_assoc]; rfl, rfl⟩

theorem queues_step_iff (h : InRing s) (hq : Queues f s) (hs : step s a = some t) :
    Queues f t ↔ HasRoom s a ∧ Gives f a := by
  cases a with
  | writeResponse resp =>
    cases hs
    exact queues_write_iff h hq resp
  | pollResponseSlot =>
    cases hs
    obtain ⟨hmoves, hwritten⟩ := poll_moves h
    rw [Queues, hmoves, hwritten]
    exact iff_of_true hq ⟨trivial, trivial⟩

theorem queues_along_iff (f : TimedResponse → TimedResponse) (as : List Act) :
    Along step (Queues f) {} as ↔ Meets step (fun s a => HasRoom s a ∧ Gives f a) {} as := by
  refine along_iff_meets_of_disabled (I := fun s => InRing s ∧ Queues f s) (fun _ h => h.2)
    (fun _ _ _ h hok hs => ⟨h.1.step hs, (queues_step_iff h.1 h.2 hs).mpr hok⟩)
    (fun _ _ _ h hs hq => (queues_step_iff h.1 h.2 hs).mp hq) (fun s a hs => ?_) ⟨inRing_initial, rfl⟩
  cases a <;> cases hs

/-- Up to what a slot has no place for, the responses are polled as they were written exactly if each write finds a free
    slot; they are polled unchanged exactly if, besides, each of them survives its slot. -/
theorem responseRing_iff (as : List Act) :
    (Along step (Queues carried) {} as ↔ Meets step HasRoom {} as) ∧
    (Along step (Queues id) {} as ↔ Meets step (fun s a => HasRoom s a ∧ Whole a) {} as) := by
  have hslot : (fun s a => HasRoom s a ∧ Gives carried a) = HasRoom := by
    funext s a
    refine propext (and_iff_left ?_)
    cases a with
    | writeResponse resp => exact rfl
    | pollResponseSlot => trivial
  have hwhole : (fun s a => HasRoom s a ∧ Gives id a) = fun s a => HasRoom s a ∧ Whole a := by
    funext s a
    refine propext (and_congr_right fun _ => ?_)
    cases a with
    | writeResponse resp => exact carried_eq_iff resp
    | pollResponseSlot => exact Iff.rfl
  refine ⟨?_, ?_⟩
  · rw [queues_along_iff, hslot]
  · rw [queues_along_iff, hwhole]

/-- After `n` writes and no poll. -/
theorem run_writes (resp : TimedResponse) (n : Nat) : ∃ s, run step {} (List.replicate n (.writeResponse resp)) = some s ∧
    s.respHead = n % shmQueueSlots ∧ s.respTail = 0 ∧ s.polled = [] ∧ s.written.length = n := by
  induction n with
  | zero => exact ⟨{}, rfl, rfl, rfl, rfl, rfl⟩
  | succ n ih =>
    obtain ⟨s, hs, hhead, htail, hpolled, hlen⟩ := ih
    refine ⟨s.writeResponse resp, ?_, ?_, htail, hpolled, ?_⟩
    · have hlast : List.replicate (n + 1) (Act.writeResponse resp) =
          List.replicate n (.writeResponse resp) ++ [.writeResponse resp] := List.replicate_succ'
      rw [hlast, run_append, hs, Option.bind_some]
      rfl
    · rw [writeResponse, hhead, Nat.mod_add_mod]
    · rw [writeResponse, List.length_append, hlen, List.length_singleton]

/-- As many writes as there are slots. -/
def noPoll : List Act := List.replicate 256 (.writeResponse { predictionId := "p", targetRoundId := "r" })

theorem not_queues_noPoll (f : TimedResponse → TimedResponse) : ¬Along step (Queues f) {} noPoll := by
  obtain ⟨s, hs, hhead, htail, hpolled, hlen⟩ := run_writes { predictionId := "p", targetRoundId := "r" } 256
  refine not_along_of_last hs fun hq => ?_
  have hcontents : s.contents = [] := by
    have hnone : s.unpolled = 0 := by
      rw [unpolled, hhead, htail]
      rfl
    rw [contents, hnone]
    rfl
  rw [Queues, hpolled, hcontents] at hq
  have hzero := congrArg List.length hq
  rw [List.length_map, hlen] at hzero
  cases hzero

/-- After them there is nothing to poll. -/
theorem not_queues_along : ¬Along step (Queues carried) {} noPoll ∧ ¬Along step (Queues id) {} noPoll :=
  ⟨not_queues_noPoll carried, not_queues_noPoll id⟩

end ShmPredictionClient
end CrashCore
