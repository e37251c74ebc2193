import CrashCore.Delivery.DurablePredictionTx
import CrashCore.Delivery.TemporalGuard

/-! Which rows the kill of a started target takes: it compares the round, up to its first NUL, with the column `round_id`,
and as a LIKE pattern with every part of the composite key, which is built from the prediction id. -/

namespace CrashCore

/-! ### LIKE -/

section
variable {text word : List Char}

theorem firstMatch_some : ∀ tries : List Bool, firstMatch (tries.map some) = some (tries.any id)
  | [] => rfl
  | true :: _ => rfl
  | false :: tries => firstMatch_some tries

/-- The character stands for itself in a pattern, and the pattern goes on behind it. -/
def Plain (c : Char) : Prop := c ≠ '%' ∧ c ≠ '_' ∧ c ≠ '\\' ∧ c ≠ '\x00'

instance : DecidablePred Plain := fun _ => inferInstanceAs (Decidable (_ ∧ _))

theorem like_plain_cons {c : Char} {pattern : List Char} (hc : Plain c) (d : Char) :
    like (c :: pattern) (d :: text) = if c = d then like pattern text else some false := by
  obtain ⟨hpercent, hunderscore, hbackslash, -⟩ := hc
  simp [like, hbackslash]

theorem like_plain : ∀ {word text : List Char}, (∀ c ∈ word, Plain c) →
    like (word ++ ['%']) text = some (decide (word <+: text))
  | [], text, _ => by
    have hempty : ∀ text : List Char, (like [] text) = some text.isEmpty := fun _ => rfl
    have htails : text.tails.map (like []) = (text.tails.map List.isEmpty).map some := by
      rw [List.map_map]
      exact List.map_congr_left fun text _ => hempty text
    have hany : (text.tails.map List.isEmpty).any id = true :=
      List.any_eq_true.mpr ⟨true, List.mem_map.mpr ⟨[], List.mem_tails _ _ |>.mpr List.nil_suffix, rfl⟩, rfl⟩
    show firstMatch (text.tails.map (like [])) = _
    rw [htails, firstMatch_some, hany, decide_eq_true List.nil_prefix]
  | c :: word, [], h => by
    obtain ⟨hpercent, -⟩ := h c List.mem_cons_self
    simp [like]
  | c :: word, d :: text, h => by
    rw [List.cons_append, like_plain_cons (h c List.mem_cons_self),
      like_plain fun x hx => h x (List.mem_cons_of_mem c hx)]
    by_cases hcd : c = d <;> simp [hcd, List.cons_prefix_cons]

/-- `LIKE '%word%'` looks for the word, when it has no wildcard and no escape. -/
theorem like_infix (h : ∀ c ∈ word, Plain c) : like ('%' :: word ++ ['%']) text = some (decide (word <:+: text)) := by
  have htails : text.tails.map (like (word ++ ['%'])) = (text.tails.map fun t => decide (word <+: t)).map some := by
    rw [List.map_map]
    exact List.map_congr_left fun _ _ => like_plain h
  show firstMatch (text.tails.map (like (word ++ ['%']))) = _
  rw [htails, firstMatch_some, Option.some.injEq, Bool.eq_iff_iff, List.any_eq_true, decide_eq_true_iff,
    List.infix_iff_prefix_suffix]
  constructor
  · rintro ⟨b, hb, hbt⟩
    obtain ⟨t, ht, rfl⟩ := List.mem_map.mp hb
    exact ⟨t, of_decide_eq_true hbt, (List.mem_tails _ _).mp ht⟩
  · rintro ⟨t, hpre, hsuf⟩
    exact ⟨_, List.mem_map.mpr ⟨t, (List.mem_tails _ _).mpr hsuf, rfl⟩, decide_eq_true hpre⟩

end

namespace TemporalGuard

variable {d : Tables} {r : NotificationRow} {roundId target : RoundId} {targetOf : NotificationRow → RoundId}
  {now : TimestampMs}

/-! ### The kill -/

theorem killed_ne (h : Undelivered r) : killed r ≠ r := by
  intro heq
  have hstatus : NotificationStatus.dead = r.status := congrArg NotificationRow.status heq
  rcases h with h | h <;> rw [h] at hstatus <;> cases hstatus

theorem rows_of_evaluated (g : TemporalGuard) (h : roundId ≠ "")
    (hall : ∀ r ∈ d.notifications.rows, ¬Unmatchable roundId r) :
    (g.killStaleForTarget ⟨d, .idle⟩ roundId now none).2.committed.notifications.rows =
      d.notifications.rows.map fun r => if Selected roundId r then killed r else r := by
  have hok : Connection.attempt (killStale roundId) none d = .ok (d.updateNotifications (Selected roundId) killed fun _ => rfl) :=
    killStale_ok hall
  rw [killStaleForTarget_conn g _ now none h, Connection.exec_idle_ok hok]
  rfl

/-- A statement whose WHERE clause cannot be evaluated takes no row. -/
theorem rows_of_failed (g : TemporalGuard) (h : roundId ≠ "") (hbad : ∃ r ∈ d.notifications.rows, Unmatchable roundId r) :
    (g.killStaleForTarget ⟨d, .idle⟩ roundId now none).2.committed.notifications.rows = d.notifications.rows := by
  have herror : Connection.attempt (killStale roundId) none d = .error _ := killStale_error hbad
  rw [killStaleForTarget_conn g _ now none h, Connection.exec_idle_error herror]

/-- Exactly the undelivered rows that were written for the round are dead after the kill. -/
def KillsExactly (d d' : Tables) (targetOf : NotificationRow → RoundId) (roundId : RoundId) : Prop :=
  d'.notifications.rows = d.notifications.rows.map fun r =>
    if Undelivered r ∧ targetOf r = roundId then killed r else r

/-- A row of the round has it, as the parameter is cut, in its column or in its key; a row of another round has it in
    neither. -/
def TellsTarget (targetOf : NotificationRow → RoundId) (roundId : RoundId) (r : NotificationRow) : Prop :=
  if targetOf r = roundId then r.roundId = asParam roundId ∨ keyLike roundId r = some true
  else r.roundId ≠ asParam roundId ∧ keyLike roundId r = some false

instance (targetOf : NotificationRow → RoundId) (roundId : RoundId) : DecidablePred (TellsTarget targetOf roundId) :=
  fun _ => inferInstanceAs (Decidable (ite ..))

/-- A row that tells its target is selected exactly for that target. -/
theorem tellsTarget_iff (hlive : Undelivered r) (hmatch : ¬Unmatchable roundId r) :
    TellsTarget targetOf roundId r ↔ (Selected roundId r ↔ targetOf r = roundId) := by
  have hkey : r.roundId ≠ asParam roundId → keyLike roundId r ≠ none := fun hc hn => hmatch ⟨hlive, hc, hn⟩
  unfold TellsTarget Selected
  rcases hk : keyLike roundId r with _ | _ | _ <;> by_cases hcolumn : r.roundId = asParam roundId <;>
    by_cases htarget : targetOf r = roundId <;> simp_all

theorem not_unmatchable_of_tellsTarget (h : Undelivered r → TellsTarget targetOf roundId r) : ¬Unmatchable roundId r := by
  rintro ⟨hlive, hcolumn, hnone⟩
  have htells := h hlive
  unfold TellsTarget at htells
  split at htells
  · rcases htells with hc | hk
    · exact hcolumn hc
    · rw [hnone] at hk
      cases hk
  · rw [hnone] at htells
    cases htells.2

/-! ### Rows of the prediction path -/

/-- How a row keeps the round it was written for, when its id has no NUL: in its column, or without one in front of its
    payload. -/
def StoredFor (r : NotificationRow) (target : RoundId) : Prop :=
  r.roundId = target ∨ (r.roundId = "" ∧ ∃ text, r.payload = "round=" ++ target ++ "\n" ++ text)

/-- The row of step 3 of `persistPrediction`, and the one of its fallback. -/
theorem storedFor_notification (now : TimestampMs) (pev : PredictionEvent) (sig : Signal) :
    StoredFor (OutboxRepository.notification (DurablePredictionTx.outboxRow pev sig now) pev.targetRoundId now)
        pev.targetRoundId ∧
      StoredFor (OutboxRepository.notification (DurablePredictionTx.outboxRow pev sig now) "" now) pev.targetRoundId :=
  ⟨Or.inl rfl, Or.inr ⟨rfl, sig.text, rfl⟩⟩

theorem asParam_of_plain (h : ∀ c ∈ roundId.toList, Plain c) : asParam roundId = roundId :=
  asParam_eq fun hnul => (h _ hnul).2.2.2 rfl

theorem keyLike_of_plain (h : ∀ c ∈ roundId.toList, Plain c) :
    keyLike roundId r = some (decide (roundId.toList <:+: r.dedupeKey.toList)) := by
  have hpattern : ("%" ++ roundId ++ "%").toList = '%' :: roundId.toList ++ ['%'] := by
    rw [String.toList_append, String.toList_append]
    rfl
  have hnul : NulFree roundId := fun hnul => (h _ hnul).2.2.2 rfl
  have hpercent : NulFree "%" := by decide
  rw [keyLike, asParam_eq ((hpercent.append hnul).append hpercent), hpattern, like_infix h]

/-- Another round than its target is not in the column of a row. -/
theorem roundId_ne_of_storedFor (hne : roundId ≠ "") (hstored : StoredFor r target) (htarget : target ≠ roundId) :
    r.roundId ≠ roundId := by
  rcases hstored with h | ⟨h, -⟩
  · rwa [h]
  · rw [h]
    exact hne.symm

/-- For a round without wildcards, escapes and NULs: a row that `persistPrediction` has written tells its target exactly
    if the round is, for a row of the round, in its column or in its key, and for another row not in its key. -/
theorem tellsTarget_iff_of_plain (hplain : ∀ c ∈ roundId.toList, Plain c) (hne : roundId ≠ "")
    (hstored : StoredFor r (targetOf r)) : TellsTarget targetOf roundId r ↔
      if targetOf r = roundId then r.roundId = roundId ∨ roundId.toList <:+: r.dedupeKey.toList
      else ¬roundId.toList <:+: r.dedupeKey.toList := by
  unfold TellsTarget
  rw [asParam_of_plain hplain, keyLike_of_plain hplain, Option.some.injEq, Option.some.injEq, decide_eq_true_iff,
    decide_eq_false_iff_not]
  split
  · rfl
  · rename_i htarget
    exact and_iff_right (roundId_ne_of_storedFor hne hstored htarget)

/-- A pending row as `persistPrediction` writes it. -/
def rowFor (id : Nat) (predictionId : PredictionId) (target : RoundId) : NotificationRow :=
  let pev : PredictionEvent := { predictionId, targetRoundId := target }
  { OutboxRepository.notification (DurablePredictionTx.outboxRow pev { predictionId } 1000) target 1000 with id }

def rowsFor312And313 : Tables :=
  { notifications := { rows := [rowFor 1 "312-900" "312", rowFor 2 "313-950" "313"], nodup := by decide }
    openTargets := openTargetsUnique_empty }

/-- A round that begins with a NUL is every round to the kill. -/
example : (({} : TemporalGuard).killStaleForTarget ⟨rowsFor312And313, .idle⟩ "\x00" 2000 none).2.committed.notifications.rows.map
    (·.status) = [.dead, .dead] := by
  decide

end TemporalGuard
end CrashCore
