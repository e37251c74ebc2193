import CrashCore.Concurrency.MpscQueue
import Mathlib.Data.List.Infix
import Mathlib.Data.List.Nodup
import Mathlib.Data.List.ReduceOption

/-! The multi-producer single-consumer queue under every interleaving of its accesses: items come out at most once and
in the order of their reservations, and a published item at the front is what the next `try_pop` returns. -/

namespace CrashCore
namespace MpscThreads
open Transition

variable {ι α : Type} {s t : State ι α} {i j : ι} {p : Producer α} {item : α} {pos : Nat}

abbrev cap (s : State ι α) : Nat := s.queue.slots.cap

/-- The slots that the consumer has given back to the producers. -/
def released (s : State ι α) : Nat :=
  match s.consumer with
  | .release _ pos => pos
  | _ => s.popped.length

/-- A reserved position whose item is in its slot. -/
def Published (s : State ι α) (pos : Nat) : Prop :=
  s.popped.length ≤ pos ∧ pos < s.queue.tail ∧ (slot s pos).sequence = pos + 1

/-- The item of the position was popped or is in its slot. -/
def Stored (s : State ι α) (pos : Nat) : Prop := pos < s.popped.length ∨ Published s pos

/-- The oldest reserved item that is not popped is published. -/
def FrontPublished (s : State ι α) (item : α) : Prop :=
  Published s s.popped.length ∧ s.reserved[s.popped.length]? = some item

/-! ### The invariant -/

def ConsumerInv (s : State ι α) : Consumer α → Prop
  | .idle => s.queue.head = s.popped.length
  | .loadSequence pos => s.queue.head = pos ∧ pos = s.popped.length
  | .read pos => s.queue.head = pos ∧ pos = s.popped.length ∧ Published s pos
  | .release item pos =>
    s.queue.head = pos ∧ s.popped.length = pos + 1 ∧ s.popped[pos]? = some item ∧ (slot s pos).sequence = pos + 1
  | .storeHead item pos => s.queue.head = pos ∧ s.popped.length = pos + 1 ∧ s.popped[pos]? = some item
  | .count _ => s.queue.head = s.popped.length

/-- The slots of all positions from the first that is not released on, over one round. -/
structure RingInv (s : State ι α) : Prop where
  two_le : 2 ≤ cap s
  tail : s.queue.tail = s.reserved.length
  popped : s.popped <+: s.reserved
  consumer : ConsumerInv s s.consumer
  window : s.queue.tail ≤ released s + cap s
  free : ∀ pos, s.queue.tail ≤ pos → pos < released s + cap s → (slot s pos).sequence = pos
  used : ∀ pos, s.popped.length ≤ pos → pos < s.queue.tail → (slot s pos).sequence = pos ∨
    ((slot s pos).sequence = pos + 1 ∧ s.reserved[pos]? = some (slot s pos).data)

/-- The position of a producer whose slot is not published yet. -/
def Producer.Writes : Producer α → Nat → Prop
  | .write _ pos, pos' | .publish _ pos, pos' => pos' = pos
  | _, _ => False

/-- The position that a producer has reserved. -/
def Producer.Owns : Producer α → Nat → Prop
  | .write _ pos, pos' | .publish _ pos, pos' | .count _ pos, pos' => pos' = pos
  | _, _ => False

/-- The producer has reserved the position for the item and not published it. -/
structure Unpublished (s : State ι α) (item : α) (pos : Nat) : Prop where
  unpopped : s.popped.length ≤ pos
  reserved : pos < s.queue.tail
  sequence : (slot s pos).sequence = pos
  item : s.reserved[pos]? = some item

def ProducerInv (s : State ι α) : Producer α → Prop
  | .idle | .loadTail _ => True
  | .loadSequence _ pos => pos ≤ s.queue.tail
  | .exchange _ pos => pos ≤ s.queue.tail ∧ (pos = s.queue.tail → pos < released s + cap s)
  | .write item pos => Unpublished s item pos
  | .publish item pos => Unpublished s item pos ∧ (slot s pos).data = item
  | .count item pos => s.reserved[pos]? = some item ∧ Stored s pos

structure Inv (s : State ι α) : Prop where
  ring : RingInv s
  producers : ∀ i, ProducerInv s (s.producers i)
  owners : ∀ i j pos, (s.producers i).Owns pos → (s.producers j).Owns pos → i = j
  accepted : ∀ p ∈ s.accepted, s.reserved[p.1]? = some p.2 ∧ Stored s p.1 ∧ ∀ i, ¬(s.producers i).Owns p.1
  acceptedOnce : (s.accepted.map (·.1)).Nodup

/-! ### Frames -/

theorem Producer.Writes.owns (h : p.Writes pos) : p.Owns pos := by
  cases p <;> first | exact h | exact h.elim

theorem released_cases (h : RingInv s) :
    released s = s.popped.length ∨ (s.popped.length = released s + 1 ∧ ∃ item, s.consumer = .release item (released s)) := by
  have hc := h.consumer
  rcases hstage : s.consumer with _ | pos | pos | ⟨item, pos⟩ | ⟨item, pos⟩ | item <;> rw [hstage] at hc
  case release =>
    have hrel : released s = pos := by simp [released, hstage]
    exact Or.inr ⟨hrel ▸ hc.2.1, item, hrel ▸ rfl⟩
  all_goals
    exact Or.inl (by simp [released, hstage])

theorem released_le (h : RingInv s) : released s ≤ s.popped.length := by
  have := released_cases h
  omega

theorem popped_le (h : RingInv s) : s.popped.length ≤ s.queue.tail := h.tail ▸ h.popped.length_le

/-- What a step leaves alone outside of the positions `except`. -/
structure Kept (except : Nat → Prop) (s t : State ι α) : Prop where
  reserved : s.reserved <+: t.reserved
  cap : cap t = cap s
  tail : s.queue.tail < t.queue.tail ∨ (t.queue.tail = s.queue.tail ∧ released s ≤ released t)
  slots : ∀ pos, ¬except pos → s.popped.length ≤ pos → pos < s.queue.tail → (slot s pos).sequence = pos →
    t.popped.length ≤ pos ∧ slot t pos = slot s pos
  stored : ∀ pos, Stored s pos → Stored t pos

namespace Kept
variable {except : Nat → Prop}

theorem mono {except' : Nat → Prop} (k : Kept except s t) (h : ∀ pos, except pos → except' pos) : Kept except' s t where
  reserved := k.reserved
  cap := k.cap
  tail := k.tail
  slots pos he := k.slots pos fun hpos => he (h pos hpos)
  stored := k.stored

theorem tail_le (k : Kept except s t) : s.queue.tail ≤ t.queue.tail := by
  have := k.tail
  omega

theorem reservation (k : Kept except s t) (h : s.reserved[pos]? = some item) : t.reserved[pos]? = some item := by
  obtain ⟨hlt, rfl⟩ := List.getElem?_eq_some_iff.mp h
  exact List.prefix_iff_getElem?.mp k.reserved pos hlt

theorem unpublished (k : Kept except s t) (he : ¬except pos) (h : Unpublished s item pos) : Unpublished t item pos := by
  obtain ⟨hpopped, hslot⟩ := k.slots pos he h.unpopped h.reserved h.sequence
  exact ⟨hpopped, h.reserved.trans_le k.tail_le, hslot ▸ h.sequence, k.reservation h.item⟩

theorem producer (k : Kept except s t) (he : ∀ pos, p.Writes pos → ¬except pos) (h : ProducerInv s p) :
    ProducerInv t p := by
  cases p with
  | idle | loadTail => trivial
  | loadSequence item pos => exact Nat.le_trans h k.tail_le
  | exchange item pos =>
    obtain ⟨hpos, hroom⟩ := h
    refine ⟨hpos.trans k.tail_le, fun heq => ?_⟩
    have hcap := k.cap
    have htail := k.tail
    omega
  | write item pos => exact k.unpublished (he pos rfl) h
  | publish item pos =>
    obtain ⟨hu, hdata⟩ := h
    obtain ⟨-, hslot⟩ := k.slots pos (he pos rfl) hu.unpopped hu.reserved hu.sequence
    exact ⟨k.unpublished (he pos rfl) hu, hslot ▸ hdata⟩
  | count item pos => exact ⟨k.reservation h.1, k.stored pos h.2⟩

theorem of_eq (hslots : t.queue.slots = s.queue.slots) (htail : t.queue.tail = s.queue.tail)
    (hreserved : t.reserved = s.reserved) (hpopped : t.popped = s.popped) (hconsumer : t.consumer = s.consumer) :
    Kept except s t where
  reserved := hreserved ▸ List.prefix_refl _
  cap := congrArg RingBuffer.cap hslots
  tail := Or.inr ⟨htail, by rw [released, released, hconsumer, hpopped]⟩
  slots pos _ hpos _ _ := ⟨hpopped ▸ hpos, by rw [slot, slot, hslots]⟩
  stored pos hs := by
    unfold Stored Published slot at hs ⊢
    rw [hpopped, htail, hslots]
    exact hs

end Kept

theorem ProducerInv.lt_tail (hr : RingInv s) (h : ProducerInv s p) (ho : p.Owns pos) : pos < s.queue.tail := by
  cases p with
  | idle | loadTail | loadSequence | exchange => exact ho.elim
  | write item pos' => exact ho ▸ h.reserved
  | publish item pos' => exact ho ▸ h.1.reserved
  | count item pos' =>
    obtain ⟨hlt, -⟩ := List.getElem?_eq_some_iff.mp h.1
    rw [hr.tail]
    exact ho ▸ hlt

theorem RingInv.congr (h : RingInv s) (hqueue : t.queue.slots = s.queue.slots) (hhead : t.queue.head = s.queue.head)
    (htail : t.queue.tail = s.queue.tail) (hreserved : t.reserved = s.reserved) (hpopped : t.popped = s.popped)
    (hconsumer : t.consumer = s.consumer) : RingInv t := by
  obtain ⟨⟨slots, head, tail, pushes, pops⟩, producers, consumer, reserved, popped, accepted, results⟩ := s
  obtain ⟨⟨slots', head', tail', pushes', pops'⟩, producers', consumer', reserved', popped', accepted', results'⟩ := t
  dsimp only at hqueue hhead htail hreserved hpopped hconsumer
  subst hqueue hhead htail hreserved hpopped hconsumer
  exact ⟨h.two_le, h.tail, h.popped, h.consumer, h.window, h.free, h.used⟩

/-- A step of the producer `i`. -/
theorem Inv.produced [DecidableEq ι] (h : Inv s) (k : Kept (s.producers i).Owns s t) (hring : RingInv t)
    (hproducers : t.producers = Function.update s.producers i p) (haccepted : t.accepted = s.accepted)
    (hp : ProducerInv t p) (howns : ∀ pos, p.Owns pos → (s.producers i).Owns pos ∨ s.queue.tail ≤ pos) : Inv t := by
  have hself : t.producers i = p := by rw [hproducers, Function.update_self]
  have hother : ∀ j, j ≠ i → t.producers j = s.producers j := fun j hj => by
    rw [hproducers, Function.update_of_ne hj]
  have hnew : ∀ j pos, j ≠ i → (t.producers i).Owns pos → ¬(s.producers j).Owns pos := by
    intro j pos hj hi ho
    rw [hself] at hi
    obtain hold | hle := howns pos hi
    · exact hj (h.owners j i pos ho hold)
    · exact absurd ((h.producers j).lt_tail h.ring ho) (Nat.not_lt.mpr hle)
  refine ⟨hring, fun j => ?_, fun j j' pos hj hj' => ?_, fun a ha => ?_, haccepted ▸ h.acceptedOnce⟩
  · by_cases hj : j = i
    · rw [hj, hself]
      exact hp
    · rw [hother j hj]
      exact k.producer (fun pos hw ho => hj (h.owners j i pos hw.owns ho)) (h.producers j)
  · by_cases hi : j = i <;> by_cases hi' : j' = i
    · rw [hi, hi']
    · subst hi
      rw [hother j' hi'] at hj'
      exact absurd hj' (hnew j' pos hi' hj)
    · subst hi'
      rw [hother j hi] at hj
      exact absurd hj (hnew j pos hi hj')
    · rw [hother j hi] at hj
      rw [hother j' hi'] at hj'
      exact h.owners j j' pos hj hj'
  · rw [haccepted] at ha
    obtain ⟨hitem, hstored, hfree⟩ := h.accepted a ha
    refine ⟨k.reservation hitem, k.stored a.1 hstored, fun j => ?_⟩
    by_cases hj : j = i
    · rw [hj, hself]
      intro ho
      obtain hold | hle := howns a.1 ho
      · exact hfree i hold
      · obtain ⟨hlt, -⟩ := List.getElem?_eq_some_iff.mp hitem
        rw [h.ring.tail] at hle
        omega
    · rw [hother j hj]
      exact hfree j

/-- A step of the consumer. -/
theorem Inv.consumed (h : Inv s) (k : Kept (fun _ => False) s t) (hring : RingInv t)
    (hproducers : t.producers = s.producers) (haccepted : t.accepted = s.accepted) : Inv t := by
  refine ⟨hring, fun j => ?_, hproducers ▸ h.owners, fun a ha => ?_, haccepted ▸ h.acceptedOnce⟩
  · rw [hproducers]
    exact k.producer (fun _ _ hf => hf) (h.producers j)
  · rw [haccepted] at ha
    obtain ⟨hitem, hstored, hfree⟩ := h.accepted a ha
    exact ⟨k.reservation hitem, k.stored a.1 hstored, hproducers ▸ hfree⟩

/-! ### The slots -/

theorem slot_setSlot_self {x : Slot α} : slot (setSlot s pos x) pos = x := RingBuffer.get_set_self

/-- Positions of one round do not share a slot. -/
theorem slot_setSlot_other {pos' : Nat} {x : Slot α} (hpos : released s ≤ pos) (hlt : pos < released s + cap s)
    (hpos' : released s ≤ pos') (hlt' : pos' < released s + cap s) (hne : pos' ≠ pos) :
    slot (setSlot s pos x) pos' = slot s pos' := by
  have hnear : s.queue.slots.Near pos pos' :=
    ⟨hlt.trans_le (Nat.add_le_add_right hpos' _), hlt'.trans_le (Nat.add_le_add_right hpos _)⟩
  exact RingBuffer.get_set_of_near hnear hne

/-- The slot of an unpublished position is not that of another position in use. -/
theorem Unpublished.slot_other (h : Unpublished s item pos) (hr : RingInv s) {pos' : Nat} {x : Slot α}
    (hpos' : released s ≤ pos') (hlt' : pos' < released s + cap s) (hne : pos' ≠ pos) :
    slot (setSlot s pos x) pos' = slot s pos' :=
  slot_setSlot_other ((released_le hr).trans h.unpopped) (h.reserved.trans_le hr.window) hpos' hlt' hne

theorem Unpublished.published_other (h : Unpublished s item pos) (hr : RingInv s) {pos' : Nat} {x : Slot α}
    (hp : Published s pos') : slot (setSlot s pos x) pos' = slot s pos' := by
  obtain ⟨hpos', hlt', hseq⟩ := hp
  refine h.slot_other hr ((released_le hr).trans hpos') (hlt'.trans_le hr.window) fun heq => ?_
  rw [heq, h.sequence] at hseq
  omega

section Producers
variable [DecidableEq ι]

theorem setProducer_self : (setProducer s i p).producers i = p := Function.update_self ..

theorem setProducer_other (h : j ≠ i) : (setProducer s i p).producers j = s.producers j := Function.update_of_ne h ..

/-- A producer that does not touch the ring. -/
theorem Inv.setProducer_quiet (h : Inv s) (hp : ProducerInv s p) (ho : ∀ pos, ¬p.Owns pos) :
    Inv (setProducer s i p) := by
  have k : Kept (s.producers i).Owns s (setProducer s i p) := .of_eq rfl rfl rfl rfl rfl
  have hp' : ProducerInv (setProducer s i p) p := by
    cases p with
    | idle | loadTail | loadSequence | exchange => exact hp
    | write item pos | publish item pos | count item pos => exact absurd rfl (ho pos)
  exact h.produced k (h.ring.congr rfl rfl rfl rfl rfl rfl) rfl rfl hp' fun pos hpos => absurd hpos (ho pos)

/-- The slot of an unpublished position is written, or published with its item. -/
theorem Unpublished.ringInv (h : Unpublished s item pos) (hr : RingInv s) {x : Slot α}
    (hx : x.sequence = pos ∨ (x.sequence = pos + 1 ∧ x.data = item)) : RingInv (setProducer (setSlot s pos x) i p) := by
  have hconsumer : ConsumerInv (setProducer (setSlot s pos x) i p) s.consumer := by
    have hc := hr.consumer
    have hrel := released_cases hr
    cases hstage : s.consumer with
    | idle | loadSequence | storeHead | count =>
      rw [hstage] at hc
      exact hc
    | read pos' =>
      rw [hstage] at hc
      obtain ⟨hhead, hpos', hp⟩ := hc
      exact ⟨hhead, hpos', hp.1, hp.2.1, (congrArg Slot.sequence (h.published_other hr hp)).trans hp.2.2⟩
    | release item' pos' =>
      rw [hstage] at hc
      obtain ⟨hhead, hlen, hitem, hseq⟩ := hc
      have hrel : released s = pos' := by simp [released, hstage]
      have hcap := RingBuffer.cap_pos s.queue.slots
      have hpos := h.unpopped
      refine ⟨hhead, hlen, hitem, (congrArg Slot.sequence (h.slot_other hr hrel.le ?_ ?_)).trans hseq⟩
      · rw [hrel]
        exact Nat.lt_add_of_pos_right hcap
      · omega
  refine ⟨hr.two_le, hr.tail, hr.popped, hconsumer, hr.window, fun pos' hpos' hlt' => ?_, fun pos' hpos' hlt' => ?_⟩
  · have hlt := h.reserved
    have hle := popped_le hr
    have hrel := released_le hr
    refine (congrArg Slot.sequence (h.slot_other hr ?_ hlt' ?_)).trans (hr.free pos' hpos' hlt')
    · exact hrel.trans (hle.trans hpos')
    · exact fun heq => absurd hlt (Nat.not_lt.mpr (heq ▸ hpos'))
  · by_cases heq : pos' = pos
    · subst heq
      have hself : slot (setProducer (setSlot s pos' x) i p) pos' = x := slot_setSlot_self
      rw [hself]
      exact hx.imp id fun ⟨hseq, hdata⟩ => ⟨hseq, hdata ▸ h.item⟩
    · have hother : slot (setProducer (setSlot s pos x) i p) pos' = slot s pos' :=
        h.slot_other hr ((released_le hr).trans hpos') (hlt'.trans_le hr.window) heq
      rw [hother]
      exact hr.used pos' hpos' hlt'

theorem Unpublished.kept (h : Unpublished s item pos) (hr : RingInv s) {x : Slot α} :
    Kept (· = pos) s (setProducer (setSlot s pos x) i p) where
  reserved := List.prefix_refl _
  cap := rfl
  tail := Or.inr ⟨rfl, Nat.le_refl _⟩
  slots pos' hne hpos' hlt' _ :=
    ⟨hpos', h.slot_other hr ((released_le hr).trans hpos') (hlt'.trans_le hr.window) hne⟩
  stored pos' hs := hs.imp id fun hp => ⟨hp.1, hp.2.1, by
    rw [← hp.2.2]
    exact congrArg Slot.sequence (h.published_other hr hp)⟩

/-! ### The producers -/

theorem exchange_kept {except : Nat → Prop} (htail : s.queue.tail = pos) : Kept except s (setProducer { s with
    queue := { s.queue with tail := pos + 1 }, reserved := s.reserved ++ [item] } i (.write item pos)) where
  reserved := List.prefix_append _ _
  cap := rfl
  tail := Or.inl (htail ▸ Nat.lt_succ_self _)
  slots _ _ hpos _ _ := ⟨hpos, rfl⟩
  stored _ hs := hs.imp id fun hp => ⟨hp.1, htail ▸ Nat.lt_succ_of_lt hp.2.1, hp.2.2⟩

theorem exchange_keeps (h : Inv s) (hi : s.producers i = .exchange item pos) (htail : s.queue.tail = pos) :
    Inv (setProducer { s with queue := { s.queue with tail := pos + 1 }, reserved := s.reserved ++ [item] } i
      (.write item pos)) := by
  subst htail
  have hp := h.producers i
  rw [hi] at hp
  have hroom : s.queue.tail < released s + cap s := hp.2 rfl
  have hr := h.ring
  have hseq : (slot s s.queue.tail).sequence = s.queue.tail := hr.free _ (Nat.le_refl _) hroom
  have hold : ∀ pos, pos < s.queue.tail → (s.reserved ++ [item])[pos]? = s.reserved[pos]? := fun pos hpos =>
    List.getElem?_append_left (hr.tail ▸ hpos)
  have hconsumer : ∀ c, ConsumerInv s c → ConsumerInv (setProducer { s with
      queue := { s.queue with tail := s.queue.tail + 1 }, reserved := s.reserved ++ [item] } i
      (.write item s.queue.tail)) c := by
    intro c hc
    cases c with
    | idle | loadSequence | release | storeHead | count => exact hc
    | read pos =>
      obtain ⟨hhead, hpos, hle, hlt, hseq⟩ := hc
      exact ⟨hhead, hpos, hle, Nat.lt_succ_of_lt hlt, hseq⟩
  have hitem : (s.reserved ++ [item])[s.queue.tail]? = some item := by simp [hr.tail]
  have hring : RingInv (setProducer { s with
      queue := { s.queue with tail := s.queue.tail + 1 }, reserved := s.reserved ++ [item] } i
      (.write item s.queue.tail)) := by
    refine ⟨hr.two_le, ?_, hr.popped.trans (List.prefix_append _ _), hconsumer _ hr.consumer, hroom,
      fun pos hpos hlt => hr.free pos (Nat.le_of_succ_le hpos) hlt, fun pos hpos hlt => ?_⟩
    · simp [setProducer, hr.tail]
    · obtain hlt | rfl := Nat.lt_succ_iff_lt_or_eq.mp hlt
      · exact (hr.used pos hpos hlt).imp id fun hp => ⟨hp.1, (hold pos hlt).trans hp.2⟩
      · exact Or.inl hseq
  exact h.produced (p := .write item s.queue.tail) (exchange_kept rfl) hring rfl rfl
    ⟨popped_le hr, Nat.lt_succ_self _, hseq, hitem⟩ fun pos hpos => Or.inr hpos.ge

theorem write_keeps (h : Inv s) (hi : s.producers i = .write item pos) :
    Inv (setProducer (setSlot s pos { slot s pos with data := item }) i (.publish item pos)) := by
  have hu := h.producers i
  rw [hi] at hu
  have hself : slot (setProducer (setSlot s pos { slot s pos with data := item }) i (.publish item pos)) pos =
      { slot s pos with data := item } := slot_setSlot_self
  have k := hu.kept h.ring (x := { slot s pos with data := item }) (i := i) (p := .publish item pos)
  have hpublish : Unpublished (setProducer (setSlot s pos { slot s pos with data := item }) i (.publish item pos)) item pos :=
    ⟨hu.unpopped, hu.reserved, by rw [hself]; exact hu.sequence, hu.item⟩
  refine h.produced ?_ (hu.ringInv h.ring (Or.inl hu.sequence)) rfl rfl ⟨hpublish, by rw [hself]⟩ fun pos' ho => ?_
  · rw [hi]
    exact k
  · exact Or.inl (hi ▸ ho)

theorem publish_keeps (h : Inv s) (hi : s.producers i = .publish item pos) :
    Inv (setProducer (setSlot s pos { slot s pos with sequence := pos + 1 }) i (.count item pos)) := by
  have hp := h.producers i
  rw [hi] at hp
  obtain ⟨hu, hdata⟩ := hp
  have hself : slot (setProducer (setSlot s pos { slot s pos with sequence := pos + 1 }) i (.count item pos)) pos =
      { slot s pos with sequence := pos + 1 } := slot_setSlot_self
  have k := hu.kept h.ring (x := { slot s pos with sequence := pos + 1 }) (i := i) (p := .count item pos)
  refine h.produced ?_ (hu.ringInv h.ring (Or.inr ⟨rfl, hdata⟩)) rfl rfl ⟨hu.item, Or.inr ?_⟩ fun pos' ho => ?_
  · rw [hi]
    exact k
  · exact ⟨hu.unpopped, hu.reserved, by rw [hself]⟩
  · exact Or.inl (hi ▸ ho)

/-- A call that returns true. -/
theorem count_keeps (h : Inv s) (hi : s.producers i = .count item pos) :
    Inv (setProducer { s with
      queue := { s.queue with pushes := s.queue.pushes + 1 }, accepted := s.accepted ++ [(pos, item)] } i .idle) := by
  have hp := h.producers i
  rw [hi] at hp
  have hown : (s.producers i).Owns pos := by
    rw [hi]
    rfl
  have hquiet : Inv (setProducer s i .idle) := h.setProducer_quiet trivial fun _ ho => ho
  have hnone : ∀ j, ¬((setProducer s i .idle).producers j).Owns pos := by
    intro j ho
    by_cases hj : j = i
    · rw [hj, setProducer_self] at ho
      exact ho
    · rw [setProducer_other hj] at ho
      exact hj (h.owners j i pos ho hown)
  have hring : RingInv (setProducer { s with
      queue := { s.queue with pushes := s.queue.pushes + 1 }, accepted := s.accepted ++ [(pos, item)] } i .idle) :=
    h.ring.congr rfl rfl rfl rfl rfl rfl
  have k : Kept (fun _ => False) (setProducer s i .idle) (setProducer { s with
      queue := { s.queue with pushes := s.queue.pushes + 1 }, accepted := s.accepted ++ [(pos, item)] } i .idle) :=
    .of_eq rfl rfl rfl rfl rfl
  refine ⟨hring, fun j => k.producer (fun _ _ hf => hf) (hquiet.producers j), hquiet.owners, fun a ha => ?_, ?_⟩
  · obtain ha | ha := List.mem_append.mp ha
    · obtain ⟨hitem, hstored, hfree⟩ := hquiet.accepted a ha
      exact ⟨hitem, hstored, hfree⟩
    · obtain rfl := List.mem_singleton.mp ha
      exact ⟨hp.1, hp.2, hnone⟩
  · have hfresh : pos ∉ s.accepted.map (·.1) := by
      intro hmem
      obtain ⟨a, ha, hfst⟩ := List.mem_map.mp hmem
      exact (h.accepted a ha).2.2 i (hfst ▸ hown)
    have hnodup : ((s.accepted ++ [(pos, item)]).map (·.1)).Nodup := by
      rw [List.map_append, List.map_singleton, ← List.concat_eq_append]
      exact List.Nodup.concat hfresh h.acceptedOnce
    exact hnodup

end Producers

/-! ### The consumer -/

/-- A step of the consumer that does not touch the ring. -/
theorem Inv.setConsumer (h : Inv s) {head pops : Nat} {c : Consumer α} {results : List (Option α)}
    (hrel : released s = s.popped.length) (hc : ConsumerInv { s with queue := { s.queue with head } } c)
    (hno : ∀ item pos, c ≠ .release item pos) :
    Inv { s with queue := { s.queue with head, pops }, consumer := c, results } := by
  have hr := h.ring
  have hrel' : released { s with queue := { s.queue with head, pops }, consumer := c, results } = released s := by
    rw [hrel]
    cases c with
    | idle | loadSequence | read | storeHead | count => rfl
    | release item pos => exact absurd rfl (hno item pos)
  have hconsumer : ConsumerInv { s with queue := { s.queue with head, pops }, consumer := c, results } c := by
    cases c with
    | idle | loadSequence | read | storeHead | count => exact hc
    | release item pos => exact absurd rfl (hno item pos)
  refine h.consumed (t := { s with queue := { s.queue with head, pops }, consumer := c, results }) ?_ ?_ rfl rfl
  · exact
      { reserved := List.prefix_refl _, cap := rfl, tail := Or.inr ⟨rfl, hrel'.ge⟩
        slots := fun _ _ hpos _ _ => ⟨hpos, rfl⟩, stored := fun _ hs => hs }
  · exact ⟨hr.two_le, hr.tail, hr.popped, hconsumer, hrel' ▸ hr.window, fun pos hpos hlt => hr.free pos hpos (hrel' ▸ hlt),
      hr.used⟩

/-- An item is moved out of its slot. -/
theorem read_keeps [Inhabited α] (h : Inv s) (hstage : s.consumer = .read pos) :
    Inv { setSlot s pos { slot s pos with data := default } with
      consumer := .release (slot s pos).data pos, popped := s.popped ++ [(slot s pos).data] } := by
  have hr := h.ring
  have hc := hr.consumer
  rw [hstage] at hc
  obtain ⟨hhead, hpos, hpub⟩ := hc
  obtain ⟨hle, hlt, hseq⟩ := hpub
  have hrel : released s = pos := by simp [released, hstage, hpos]
  have hcap := RingBuffer.cap_pos s.queue.slots
  have hitem : s.reserved[pos]? = some (slot s pos).data := by
    obtain hfree | ⟨-, hitem⟩ := hr.used pos hle hlt
    · omega
    · exact hitem
  have hself : slot (setSlot s pos { slot s pos with data := default }) pos = { slot s pos with data := default } :=
    slot_setSlot_self
  have hother : ∀ pos', pos ≤ pos' → pos' < released s + cap s → pos' ≠ pos →
      slot (setSlot s pos { slot s pos with data := default }) pos' = slot s pos' := fun pos' hle' hlt' hne =>
    slot_setSlot_other hrel.le (hlt.trans_le hr.window) (hrel.le.trans hle') hlt' hne
  have hlen : (s.popped ++ [(slot s pos).data]).length = pos + 1 := by simp [hpos]
  have hlast : (s.popped ++ [(slot s pos).data])[pos]? = some (slot s pos).data := by simp [hpos]
  have hprefix : s.popped ++ [(slot s pos).data] <+: s.reserved := by
    obtain ⟨rest, hrest⟩ := hr.popped
    rw [← hrest, hpos, List.getElem?_append_right (Nat.le_refl _), Nat.sub_self] at hitem
    rcases rest with _ | ⟨x, rest⟩
    · simp at hitem
    · obtain rfl : x = _ := by simpa using hitem
      exact ⟨rest, by rw [← hrest, List.append_assoc, List.singleton_append, ← hpos]⟩
  refine h.consumed ?_ ⟨hr.two_le, hr.tail, hprefix, ⟨hhead, hlen, hlast, ?_⟩, ?_, fun pos' hpos' hlt' => ?_,
    fun pos' hpos' hlt' => ?_⟩ rfl rfl
  · refine { reserved := List.prefix_refl _, cap := rfl, tail := Or.inr ⟨rfl, hrel.le⟩, slots := ?_, stored := ?_ }
    · intro pos' _ hpos' hlt' hseq'
      have hne : pos' ≠ pos := by
        rintro rfl
        omega
      refine ⟨?_, hother pos' (hpos ▸ hpos') (hlt'.trans_le hr.window) hne⟩
      rw [hlen]
      omega
    · rintro pos' (hpopped | ⟨hpos', hlt', hseq'⟩)
      · exact Or.inl (by rw [hlen]; omega)
      · by_cases hne : pos' = pos
        · exact Or.inl (by rw [hlen, hne]; omega)
        · refine Or.inr ⟨by rw [hlen]; omega, hlt', ?_⟩
          exact (congrArg Slot.sequence (hother pos' (hpos ▸ hpos') (hlt'.trans_le hr.window) hne)).trans hseq'
  · exact (congrArg Slot.sequence hself).trans hseq
  · exact hrel ▸ hr.window
  · have hlt' : pos' < released s + cap s := hrel ▸ hlt'
    have hle' : s.queue.tail ≤ pos' := hpos'
    exact (congrArg Slot.sequence (hother pos' (by omega) hlt' (by omega))).trans (hr.free pos' hpos' hlt')
  · rw [hlen] at hpos'
    have hlt'' : pos' < s.queue.tail := hlt'
    have hsame := hother pos' (by omega) (hlt''.trans_le hr.window) (by omega)
    exact hsame ▸ hr.used pos' (by omega) hlt'

/-- The slot of a popped item is given back for the next round. -/
theorem release_keeps (h : Inv s) (hstage : s.consumer = .release item pos) :
    Inv { setSlot s pos { slot s pos with sequence := pos + s.queue.slots.cap } with
      consumer := .storeHead item pos } := by
  have hr := h.ring
  have hc := hr.consumer
  rw [hstage] at hc
  obtain ⟨hhead, hlen, hitem, hseq⟩ := hc
  have hrel : released s = pos := by simp [released, hstage]
  have hcap := RingBuffer.cap_pos s.queue.slots
  have hwindow := hr.window
  have hpopped := popped_le hr
  rw [hrel] at hwindow
  have hpos : pos ≤ s.popped.length := hlen.ge.trans' (Nat.le_succ pos)
  have hself : slot (setSlot s pos { slot s pos with sequence := pos + s.queue.slots.cap }) pos =
      { slot s pos with sequence := pos + s.queue.slots.cap } := slot_setSlot_self
  have hother : ∀ pos', pos < pos' → pos' < pos + cap s →
      slot (setSlot s pos { slot s pos with sequence := pos + s.queue.slots.cap }) pos' = slot s pos' :=
    fun pos' hlt hlt' => slot_setSlot_other hrel.le (hrel ▸ Nat.lt_add_of_pos_right hcap) (hrel ▸ hlt.le) (hrel ▸ hlt')
      (Nat.ne_of_gt hlt)
  refine h.consumed ?_ ⟨hr.two_le, hr.tail, hr.popped, ⟨hhead, hlen, hitem⟩, ?_, fun pos' hpos' hlt' => ?_,
    fun pos' hpos' hlt' => ?_⟩ rfl rfl
  · refine { reserved := List.prefix_refl _, cap := rfl, tail := Or.inr ⟨rfl, ?_⟩, slots := ?_, stored := ?_ }
    · rw [hrel]
      exact hpos
    · intro pos' _ hpos' hlt' _
      exact ⟨hpos', hother pos' (by omega) (hlt'.trans_le hwindow)⟩
    · refine fun pos' hs => hs.imp id fun ⟨hpos', hlt', hseq'⟩ => ⟨hpos', hlt', ?_⟩
      exact (congrArg Slot.sequence (hother pos' (by omega) (hlt'.trans_le hwindow))).trans hseq'
  · exact hwindow.trans (Nat.add_le_add_right hpos _)
  · have hlt' : pos' < s.popped.length + cap s := hlt'
    have hpos' : s.queue.tail ≤ pos' := hpos'
    by_cases hround : pos' = pos + cap s
    · -- The position of the next round has the slot that was just given back.
      subst hround
      have hround : slot (setSlot s pos { slot s pos with sequence := pos + s.queue.slots.cap }) (pos + cap s) = _ :=
        RingBuffer.get_add_cap.trans hself
      exact congrArg Slot.sequence hround
    · have hold : pos' < released s + cap s := by omega
      exact (congrArg Slot.sequence (hother pos' (by omega) (by omega))).trans (hr.free pos' hpos' hold)
  · have hlt' : pos' < s.queue.tail := hlt'
    have hpos' : s.popped.length ≤ pos' := hpos'
    have hsame := hother pos' (by omega) (by omega)
    exact hsame ▸ hr.used pos' hpos' hlt'

/-! ### One step -/

theorem produce_keeps [DecidableEq ι] {spurious : Bool} (h : Inv s) (hs : produce s i spurious = some t) : Inv t := by
  have hp := h.producers i
  unfold produce at hs
  rcases hi : s.producers i with _ | item | ⟨item, pos⟩ | ⟨item, pos⟩ | ⟨item, pos⟩ | ⟨item, pos⟩ | ⟨item, pos⟩ <;>
    rw [hi] at hs hp
  case idle => cases hs
  case loadTail =>
    obtain rfl := Option.some.inj hs
    exact h.setProducer_quiet (Nat.le_refl s.queue.tail) fun _ ho => ho
  case loadSequence =>
    dsimp only at hs
    split at hs
    · -- The slot is free for this position.
      rename_i hdif
      obtain rfl := Option.some.inj hs
      have hseq : (slot s pos).sequence = pos := by omega
      refine h.setProducer_quiet ⟨hp, fun htail => ?_⟩ fun _ ho => ho
      by_contra hfull
      have hcap := h.ring.two_le
      have hwindow := h.ring.window
      have hround : (slot s (released s)).sequence = pos := by
        rw [← hseq, show pos = released s + cap s by omega, slot, slot, RingBuffer.get_add_cap]
      obtain heq | ⟨hlen, item, hstage⟩ := released_cases h.ring
      · have hused := h.ring.used (released s) heq.ge (by omega)
        omega
      · have hc := h.ring.consumer
        rw [hstage] at hc
        have hseq := hc.2.2.2
        omega
    · split at hs
      · obtain rfl := Option.some.inj hs
        exact h.setProducer_quiet trivial fun _ ho => ho
      · obtain rfl := Option.some.inj hs
        exact h.setProducer_quiet trivial fun _ ho => ho
  case exchange =>
    dsimp only at hs
    split at hs
    · rename_i hswap
      obtain rfl := Option.some.inj hs
      exact exchange_keeps h hi hswap.1
    · obtain rfl := Option.some.inj hs
      exact h.setProducer_quiet (Nat.le_refl s.queue.tail) fun _ ho => ho
  case write =>
    obtain rfl := Option.some.inj hs
    exact write_keeps h hi
  case publish =>
    obtain rfl := Option.some.inj hs
    exact publish_keeps h hi
  case count =>
    obtain rfl := Option.some.inj hs
    exact count_keeps h hi

theorem produce_kept [DecidableEq ι] {spurious : Bool} (h : Inv s) (hs : produce s i spurious = some t) :
    Kept (s.producers i).Owns s t := by
  have hp := h.producers i
  unfold produce at hs
  rcases hi : s.producers i with _ | item | ⟨item, pos⟩ | ⟨item, pos⟩ | ⟨item, pos⟩ | ⟨item, pos⟩ | ⟨item, pos⟩ <;>
    rw [hi] at hs hp <;> dsimp only at hs
  case idle => cases hs
  case exchange =>
    split at hs
    · rename_i hswap
      obtain rfl := Option.some.inj hs
      exact exchange_kept hswap.1
    · obtain rfl := Option.some.inj hs
      exact .of_eq rfl rfl rfl rfl rfl
  case write =>
    obtain rfl := Option.some.inj hs
    exact hp.kept h.ring
  case publish =>
    obtain rfl := Option.some.inj hs
    exact hp.1.kept h.ring
  case loadSequence =>
    repeat' split at hs
    all_goals
      obtain rfl := Option.some.inj hs
      exact .of_eq rfl rfl rfl rfl rfl
  case loadTail | count =>
    obtain rfl := Option.some.inj hs
    exact .of_eq rfl rfl rfl rfl rfl

theorem consume_keeps [Inhabited α] (h : Inv s) : Inv (consume s) := by
  have hc := h.ring.consumer
  have hrel : (∀ item pos, s.consumer ≠ .release item pos) → released s = s.popped.length := fun hno => by
    obtain heq | ⟨-, item, hstage⟩ := released_cases h.ring
    · exact heq
    · exact absurd hstage (hno item _)
  unfold consume
  rcases hstage : s.consumer with _ | pos | pos | ⟨item, pos⟩ | ⟨item, pos⟩ | item <;> rw [hstage] at hc
  case idle => exact h.setConsumer (hrel (by simp [hstage])) ⟨rfl, hc⟩ nofun
  case loadSequence =>
    dsimp only
    by_cases hseq : (slot s pos).sequence = pos + 1
    · rw [if_neg (not_not_intro hseq)]
      obtain ⟨hhead, hpos⟩ := hc
      have hlt : pos < s.queue.tail := by
        by_contra hle
        have hfree := h.ring.free pos (Nat.le_of_not_lt hle)
        have hcap := RingBuffer.cap_pos s.queue.slots
        rw [hrel (by simp [hstage]), ← hpos] at hfree
        exact absurd (hfree (Nat.lt_add_of_pos_right hcap)) (by omega)
      exact h.setConsumer (hrel (by simp [hstage])) ⟨hhead, hpos, hpos.ge, hlt, hseq⟩ nofun
    · rw [if_pos hseq]
      exact h.setConsumer (hrel (by simp [hstage])) (hc.1.trans hc.2) nofun
  case read => exact read_keeps h hstage
  case release => exact release_keeps h hstage
  case storeHead => exact h.setConsumer (hrel (by simp [hstage])) hc.2.1.symm nofun
  case count => exact h.setConsumer (hrel (by simp [hstage])) hc nofun

section Runs
variable [DecidableEq ι] [Inhabited α]

theorem step_keeps {a : Act ι α} (h : Inv s) (hs : step s a = some t) : Inv t := by
  cases a with
  | tryPush i item =>
    simp only [step] at hs
    split at hs
    · obtain rfl := Option.some.inj hs
      exact h.setProducer_quiet trivial fun _ ho => ho
    · cases hs
  | produce i spurious => exact produce_keeps h hs
  | consume =>
    obtain rfl := Option.some.inj hs
    exact consume_keeps h

omit [DecidableEq ι] in
theorem inv_initial (capacity : Nat) : Inv (initial capacity : State ι α) where
  ring :=
    { two_le := SpscQueue.le_grow capacity, tail := rfl, popped := List.prefix_refl _, consumer := rfl
      window := Nat.zero_le _, used := fun _ _ hlt => absurd hlt (Nat.not_lt_zero _)
      free := fun pos _ hlt => by
        have hlt : pos < (MpscQueue.new capacity : MpscQueue α).slots.cap := hlt.trans_eq (Nat.zero_add _)
        exact (RingBuffer.index_eq _ pos).trans (Nat.mod_eq_of_lt hlt) }
  producers _ := trivial
  owners _ _ _ ho := ho.elim
  accepted _ ha := absurd ha List.not_mem_nil
  acceptedOnce := List.nodup_nil

/-! ### What `try_pop` returns -/

/-- The item that the consumer has popped and not returned yet. -/
def Consumer.inHand : Consumer α → List α
  | .release item _ | .storeHead item _ | .count item => [item]
  | .idle | .loadSequence _ | .read _ => []

/-- The accesses that are left of a call of `try_pop` that succeeds. -/
def Consumer.remaining : Consumer α → Nat
  | .idle => 6
  | .loadSequence _ => 5
  | .read _ => 4
  | .release _ _ => 3
  | .storeHead _ _ => 2
  | .count _ => 1

def Act.isConsume : Act ι α → Bool
  | .consume => true
  | _ => false

/-- The call of `try_pop` that is in progress, or the next one, will return the item after the results `before`. -/
def Serves (before : List (Option α)) (item : α) (s : State ι α) : Prop :=
  s.results = before ∧ match s.consumer with
    | .idle | .loadSequence _ | .read _ => FrontPublished s item
    | .release x _ | .storeHead x _ | .count x => x = item

theorem step_consumer {a : Act ι α} (hs : step s a = some t) (ha : a.isConsume = false) :
    t.consumer = s.consumer ∧ t.popped = s.popped ∧ t.results = s.results := by
  cases a with
  | consume => cases ha
  | tryPush i item =>
    simp only [step] at hs
    split at hs
    · obtain rfl := Option.some.inj hs
      exact ⟨rfl, rfl, rfl⟩
    · cases hs
  | produce i spurious =>
    simp only [step, produce] at hs
    repeat' split at hs
    all_goals cases hs
    all_goals exact ⟨rfl, rfl, rfl⟩

/-- The results and the item in hand are the popped items. -/
theorem step_returned {a : Act ι α} (h : s.results.reduceOption ++ s.consumer.inHand = s.popped)
    (hs : step s a = some t) : t.results.reduceOption ++ t.consumer.inHand = t.popped := by
  by_cases ha : a.isConsume = false
  · obtain ⟨hconsumer, hpopped, hresults⟩ := step_consumer hs ha
    rw [hconsumer, hpopped, hresults, h]
  · obtain rfl : a = .consume := by cases a <;> simp_all [Act.isConsume]
    obtain rfl := Option.some.inj hs
    unfold consume
    split <;> rename_i hstage <;> rw [hstage] at h
    case h_2 =>
      split
      · simpa [List.reduceOption_append, Consumer.inHand] using h
      · exact h
    case h_6 => simpa [List.reduceOption_append, Consumer.inHand] using h
    case h_3 => simpa [Consumer.inHand, setSlot] using h
    all_goals exact h

/-- The front stays published until it is popped. -/
theorem frontPublished_step {a : Act ι α} (hf : FrontPublished s item) (h : Inv s) (hs : step s a = some t)
    (ha : a.isConsume = false) : FrontPublished t item := by
  obtain ⟨-, hpopped, -⟩ := step_consumer hs ha
  have k : Kept (fun pos => ∃ i, (s.producers i).Owns pos) s t := by
    cases a with
    | consume => cases ha
    | tryPush i item =>
      simp only [step] at hs
      split at hs
      · obtain rfl := Option.some.inj hs
        exact .of_eq rfl rfl rfl rfl rfl
      · cases hs
    | produce i spurious => exact (produce_kept h hs).mono fun pos ho => ⟨i, ho⟩
  obtain ⟨hpub, hitem⟩ := hf
  rw [FrontPublished, hpopped]
  exact ⟨(k.stored _ (Or.inr hpub)).resolve_left (by rw [hpopped]; exact Nat.lt_irrefl _), k.reservation hitem⟩

/-- A step of a call that serves the front, or one of the producers beside it. -/
theorem serves_step {before : List (Option α)} {a : Act ι α} (hv : Serves before item s) (h : Inv s)
    (hs : step s a = some t) :
    (a.isConsume = false ∧ Serves before item t ∧ t.consumer.remaining = s.consumer.remaining) ∨
    (a.isConsume = true ∧ Serves before item t ∧ t.consumer.remaining + 1 = s.consumer.remaining) ∨
    (a.isConsume = true ∧ s.consumer.remaining = 1 ∧ t.results = before ++ [some item]) := by
  obtain ⟨hresults, hv⟩ := hv
  by_cases ha : a.isConsume = false
  · obtain ⟨hconsumer, -, hresults'⟩ := step_consumer hs ha
    refine Or.inl ⟨ha, ⟨hresults'.trans hresults, ?_⟩, by rw [hconsumer]⟩
    rw [hconsumer]
    cases hstage : s.consumer with
    | idle | loadSequence | read =>
      rw [hstage] at hv
      exact frontPublished_step hv h hs ha
    | release | storeHead | count =>
      rw [hstage] at hv
      exact hv
  · obtain rfl : a = .consume := by cases a <;> simp_all [Act.isConsume]
    obtain rfl := Option.some.inj hs
    refine Or.inr ?_
    have hc := h.ring.consumer
    unfold consume
    cases hstage : s.consumer with
    | idle =>
      rw [hstage] at hv
      exact Or.inl ⟨rfl, ⟨hresults, hv⟩, rfl⟩
    | loadSequence pos =>
      rw [hstage] at hv hc
      have hseq : ¬(slot s pos).sequence ≠ pos + 1 := not_not_intro (hc.2 ▸ hv.1.2.2)
      dsimp only
      rw [if_neg hseq]
      exact Or.inl ⟨rfl, ⟨hresults, hv⟩, rfl⟩
    | read pos =>
      rw [hstage] at hv hc
      obtain ⟨-, hpos, hle, hlt, hseq⟩ := hc
      have hitem : (slot s pos).data = item := by
        obtain hfree | ⟨-, hdata⟩ := h.ring.used pos hle hlt
        · omega
        · rw [hpos, hv.2] at hdata
          exact hpos ▸ (Option.some.inj hdata).symm
      exact Or.inl ⟨rfl, ⟨hresults, hitem⟩, rfl⟩
    | release x pos =>
      rw [hstage] at hv
      exact Or.inl ⟨rfl, ⟨hresults, hv⟩, rfl⟩
    | storeHead x pos =>
      rw [hstage] at hv
      exact Or.inl ⟨rfl, ⟨hresults, hv⟩, rfl⟩
    | count x =>
      rw [hstage] at hv
      exact Or.inr ⟨rfl, rfl, by rw [← hresults, ← hv]⟩

theorem results_grow {a : Act ι α} (hs : step s a = some t) : s.results <+: t.results := by
  by_cases ha : a.isConsume = false
  · exact (step_consumer hs ha).2.2 ▸ List.prefix_refl _
  · obtain rfl : a = .consume := by cases a <;> simp_all [Act.isConsume]
    obtain rfl := Option.some.inj hs
    unfold consume
    split
    case h_2 =>
      split
      · exact List.prefix_append _ _
      · exact List.prefix_refl _
    case h_6 => exact List.prefix_append _ _
    all_goals exact List.prefix_refl _

/-- A call of `try_pop` has returned the item as soon as the consumer has made its accesses, whatever the producers
    do meanwhile. -/
theorem serves_run {before : List (Option α)} : ∀ {as : List (Act ι α)} {s : State ι α}, Serves before item s → Inv s →
    run step s as = some t →
    (as.countP Act.isConsume < s.consumer.remaining ∧ t.results = before) ∨
      (s.consumer.remaining ≤ as.countP Act.isConsume ∧ before ++ [some item] <+: t.results)
  | [], s, hv, _, hr => by
    obtain rfl := Option.some.inj hr
    refine Or.inl ⟨?_, hv.1⟩
    cases s.consumer <;> simp [Consumer.remaining]
  | a :: as, s, hv, h, hr => by
    obtain ⟨u, hu, hr⟩ := Option.bind_eq_some_iff.mp hr
    have hkeep := step_keeps h hu
    rw [List.countP_cons]
    obtain ⟨ha, hv', hrem⟩ | ⟨ha, hv', hrem⟩ | ⟨ha, hrem, hdone⟩ := serves_step hv h hu
    · obtain hlt | hle := serves_run hv' hkeep hr
      · exact Or.inl ⟨by simpa [ha] using hrem ▸ hlt.1, hlt.2⟩
      · exact Or.inr ⟨by simpa [ha] using hrem ▸ hle.1, hle.2⟩
    · obtain hlt | hle := serves_run hv' hkeep hr
      · exact Or.inl ⟨by simp only [ha, if_true]; omega, hlt.2⟩
      · exact Or.inr ⟨by simp only [ha, if_true]; omega, hle.2⟩
    · refine Or.inr ⟨by simp only [ha, if_true]; omega, ?_⟩
      have hgrow : u.results <+: t.results :=
        run_invariant (P := fun v => u.results <+: v.results) (fun _ _ _ hp hs => hp.trans (results_grow hs))
          (List.prefix_refl _) hr
      exact hdone ▸ hgrow

/-! ### Every run -/

/-- What holds in every state. `front`: from here on, a call of `try_pop` returns the published front, after six
    accesses of the consumer and any number of accesses of the producers. -/
structure Correct (s : State ι α) : Prop where
  inOrder : s.popped <+: s.reserved
  returned : s.results.reduceOption <+: s.popped
  acceptedOnce : (s.accepted.map (·.1)).Nodup
  accepted : ∀ p ∈ s.accepted, s.reserved[p.1]? = some p.2 ∧ Stored s p.1
  intact : ∀ pos, Published s pos → s.reserved[pos]? = some (slot s pos).data
  bounded : s.reserved.length ≤ s.popped.length + s.queue.slots.cap
  front : ∀ item as t, FrontPublished s item → s.consumer = .idle → run step s as = some t →
    (as.countP Act.isConsume < 6 ∧ t.results = s.results) ∨
      (6 ≤ as.countP Act.isConsume ∧ s.results ++ [some item] <+: t.results)

theorem Inv.correct (h : Inv s) (hreturned : s.results.reduceOption ++ s.consumer.inHand = s.popped) : Correct s where
  inOrder := h.ring.popped
  returned := hreturned ▸ List.prefix_append _ _
  acceptedOnce := h.acceptedOnce
  accepted p hp := ⟨(h.accepted p hp).1, (h.accepted p hp).2.1⟩
  intact pos hp := by
    obtain ⟨hle, hlt, hseq⟩ := hp
    obtain hfree | ⟨-, hdata⟩ := h.ring.used pos hle hlt
    · omega
    · exact hdata
  bounded := by
    have hwindow := h.ring.window
    rw [h.ring.tail] at hwindow
    exact hwindow.trans (Nat.add_le_add_right (released_le h.ring) _)
  front item as t hf hidle hr := by
    have hv : Serves s.results item s := ⟨rfl, by rw [hidle]; exact hf⟩
    have hrun := serves_run hv h hr
    rwa [hidle] at hrun

/-- Whatever any number of producers and the consumer do, in any order of their accesses. -/
theorem correct_along (capacity : Nat) (as : List (Act ι α)) : Along step Correct (initial capacity) as :=
  Along.of_invariant (I := fun s => Inv s ∧ s.results.reduceOption ++ s.consumer.inHand = s.popped)
    (fun _ h => h.1.correct h.2) (fun _ _ _ h hs => ⟨step_keeps h.1 hs, step_returned h.2 hs⟩)
    ⟨inv_initial capacity, rfl⟩

end Runs
end MpscThreads
end CrashCore
