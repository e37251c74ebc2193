import CrashCore.Application.ApplicationConfig
import CrashCore.Concurrency.QueueCapacity

/-! When the construction of a queue ends: the capacity is doubled on 64 bits, so a capacity above the top bit is never
reached. A negative integer of the configuration is such a capacity, except the least one. -/

namespace CrashCore

/-- The constructor ends with a power of two that is at least the requested capacity and at least 2, and its mask. -/
def EndsWell (construct : UInt64 → Nat → Option (UInt64 × UInt64)) (capacity : UInt64) : Prop :=
  ∃ turns cap mask, construct capacity turns = some (cap, mask) ∧ (∃ k, cap.toNat = 2 ^ k) ∧ capacity ≤ cap ∧ 2 ≤ cap ∧
    mask.toNat = cap.toNat - 1

namespace QueueCapacity
variable {capacity c : UInt64} {turns : Nat}

/-- The loop ends with the capacity of the queue that the model constructs. -/
theorem loop_eq_cap (α : Type) (hcap : capacity.toNat ≤ 2 ^ 63) :
    ∃ turns c, loop capacity turns 2 = some c ∧ c.toNat = (SpscQueue.new capacity.toNat : SpscQueue α).cap := by
  have hle : capacity.toNat ≤ 2 ^ capacity.toNat * (2 : UInt64).toNat :=
    Nat.lt_two_pow_self.le.trans (Nat.le_mul_of_pos_right _ Nat.two_pos)
  obtain ⟨c, hloop, hc⟩ := loop_eq_grow hcap hle
  exact ⟨_, c, hloop, hc⟩

theorem endsWell_iff {construct : UInt64 → Nat → Option (UInt64 × UInt64)}
    (h : ∀ turns, construct capacity turns = (loop capacity turns 2).map fun c => (c, c - 1)) :
    EndsWell construct capacity ↔ capacity.toNat ≤ 2 ^ 63 := by
  constructor
  · rintro ⟨turns, cap, mask, hends, -⟩
    by_contra hcap
    have hnone : loop capacity turns 2 = none := loop_eq_none (Nat.lt_of_not_le hcap) (.inr ⟨1, by decide, rfl⟩)
    rw [h, hnone] at hends
    cases hends
  · intro hcap
    obtain ⟨turns, c, hloop, hc⟩ := loop_eq_cap Unit hcap
    have hisPow : ∃ k, c.toNat = 2 ^ k := hc ▸ SpscQueue.isPow_cap capacity.toNat
    have hge : capacity.toNat ≤ c.toNat := hc ▸ SpscQueue.capacity_le_cap capacity.toNat
    have htwo : 2 ≤ c.toNat := hc ▸ (SpscQueue.new capacity.toNat : SpscQueue Unit).two_le
    refine ⟨turns, c, c - 1, by rw [h, hloop]; rfl, hisPow, UInt64.le_iff_toNat_le.mpr hge,
      UInt64.le_iff_toNat_le.mpr htwo, ?_⟩
    exact UInt64.toNat_sub_of_le _ _ (UInt64.le_iff_toNat_le.mpr (Nat.le_of_succ_le htwo))

end QueueCapacity

theorem toNat_ofInt_le_iff {v : Int} (hlow : -2 ^ 63 ≤ v) (hhigh : v < 2 ^ 63) :
    (UInt64.ofInt v).toNat ≤ 2 ^ 63 ↔ 0 ≤ v ∨ v = -2 ^ 63 := by
  have hnat : (UInt64.ofInt v).toNat = (v % 2 ^ 64).toNat := by
    rw [UInt64.ofInt, UInt64.toNat_ofNat']
    omega
  rw [hnat]
  omega

/-- The construction of a queue ends well exactly up to the capacity `2 ^ 63`: with the capacity of a configuration
    file, exactly if its integer is not negative, or the least of 64 bits. -/
theorem queueConstruction_iff (capacity : UInt64) (config : TomlConfig) :
    (EndsWell SpscQueue.construct capacity ↔ capacity.toNat ≤ 2 ^ 63) ∧
    (EndsWell MpscQueue.construct capacity ↔ capacity.toNat ≤ 2 ^ 63) ∧
    (EndsWell SpscQueue.construct config.toApplicationConfig.eventQueueCapacity ↔
      0 ≤ config.getInt "concurrency".toList "event_queue_capacity".toList 4096 ∨
        config.getInt "concurrency".toList "event_queue_capacity".toList 4096 = -2 ^ 63) := by
  refine ⟨QueueCapacity.endsWell_iff fun _ => rfl, QueueCapacity.endsWell_iff fun _ => rfl, ?_⟩
  have hfallback : (-2 ^ 63 : Int) ≤ 4096 ∧ (4096 : Int) < 2 ^ 63 := by decide
  obtain ⟨hlow, hhigh⟩ :=
    TomlConfig.getInt_range config "concurrency".toList "event_queue_capacity".toList hfallback.1 hfallback.2
  exact (QueueCapacity.endsWell_iff fun _ => rfl).trans (toNat_ofInt_le_iff hlow hhigh)

/-- The capacity -1. -/
theorem not_queueConstruction :
    ¬EndsWell SpscQueue.construct
      (TomlConfig.loadString "[concurrency]\nevent_queue_capacity = -1\n".toList).toApplicationConfig.eventQueueCapacity := by
  have hcapacity : (TomlConfig.loadString
      "[concurrency]\nevent_queue_capacity = -1\n".toList).toApplicationConfig.eventQueueCapacity = .ofInt (-1) := by
    decide
  rw [hcapacity, QueueCapacity.endsWell_iff fun _ => rfl]
  decide

end CrashCore
