import CrashCore.Common.Rounding
import CrashCore.Persistence.Repositories
import CrashCore.Persistence.RowCodecs
import CrashCore.Theorems.StatementTokens

/-! Records through the database and back: an outcome comes back as pending, whatever its result was, a prediction comes
back as it was, and so does a round whose sequence fits its column. -/

namespace CrashCore
open SqlLexer (Token scan)
open SqlTable SqlBuilder

/-! ### What can be stored -/

def Int64 (i : Int) : Prop := -2 ^ 63 ≤ i ∧ i < 2 ^ 63

instance : DecidablePred Int64 := fun _ => inferInstanceAs (Decidable (_ ∧ _))

/-- The `double` of a number with so many decimal places. -/
def HasPlaces (digits : Nat) (d : Double) : Prop := ∃ k : Int, d = Double.nearest (k / 10 ^ digits)

/-- The server writes the number so that it is read back. -/
def ReadsBack (out : Double → String) (d : Double) : Prop := atof (out d) = d

structure Outcome.Storable (out : Double → String) (o : Outcome) : Prop where
  texts : ∀ s ∈ [o.predictionId, o.roundId], NulFree s
  places : ∀ d ∈ [o.actualMult, o.targetMult], HasPlaces 4 d
  reads : ∀ d ∈ [o.actualMult, o.targetMult], ReadsBack out d
  time : Int64 o.resolvedAtMs

structure PredictionEvent.Storable (out : Double → String) (e : PredictionEvent) : Prop where
  texts : ∀ s ∈ [e.predictionId, e.targetRoundId, e.gameId, e.correlationId, e.modelVersion], NulFree s
  places : ∀ d ∈ [e.entryMult, e.targetMult], HasPlaces 4 d
  confidencePlaces : HasPlaces 6 e.confidence
  reads : ∀ d ∈ [e.confidence, e.entryMult, e.targetMult], ReadsBack out d
  time : Int64 e.createdAtMs

structure CrashRound.Storable (out : Double → String) (r : CrashRound) : Prop where
  texts : ∀ s ∈ [r.gameId, r.hash, r.salt], NulFree s
  places : HasPlaces 4 r.multiplier
  reads : ReadsBack out r.multiplier
  times : ∀ t ∈ [r.beganAtMs, r.crashedAtMs], Int64 t

/-! ### Constants -/

variable {out : Double → String} {d : Double} {i : Int} {digits : Nat}

theorem HasPlaces.mono (h : HasPlaces digits d) (more : Nat) : HasPlaces (digits + more) d := by
  obtain ⟨k, rfl⟩ := h
  refine ⟨k * 10 ^ more, congrArg Double.nearest ?_⟩
  push_cast
  rw [pow_add, mul_div_mul_right _ _ (by positivity)]

theorem constant_numeral (n : Nat) (tail : List Char) :
    constant (numeral ((toString n).toList ++ tail)) = some (Decimal.real ((toString n).toList ++ tail)) ∧
      constant (numeral ('-' :: ((toString n).toList ++ tail))) =
        some (-Decimal.real ((toString n).toList ++ tail)) := by
  obtain ⟨c, ds, htext, hc, -⟩ := Decimal.exists_digits n
  rw [htext, List.cons_append, numeral_digit hc]
  exact ⟨rfl, rfl⟩

theorem constant_integer (i : Int) : constant (numeral (toString i).toList) = some (i : Rat) := by
  rcases Decimal.toList_int i with ⟨n, rfl, htext⟩ | ⟨n, rfl, htext⟩
  · have hnumeral := (constant_numeral n []).1
    rw [List.append_nil, Decimal.real_toString] at hnumeral
    rw [htext, hnumeral]
    rfl
  · have hnumeral := (constant_numeral (n + 1) []).2
    rw [List.append_nil, Decimal.real_toString] at hnumeral
    rw [htext, hnumeral, Int.cast_negSucc]

theorem constant_fixed (hdigits : 0 < digits) (d : Double) :
    constant (numeral (fixed digits d).toList) =
      some ((if d < 0 then -1 else 1) * (((|d| * 10 ^ digits).roundTiesToEven.toNat : Rat) / (10 ^ digits : Nat))) := by
  unfold fixed
  dsimp only
  generalize (|d| * 10 ^ digits).roundTiesToEven.toNat = n
  have hreal := Decimal.real_places (n / 10 ^ digits) hdigits (Nat.mod_lt n (Nat.pow_pos (by decide)))
  rw [Nat.div_add_mod'] at hreal
  obtain ⟨hplain, hsigned⟩ := constant_numeral (n / 10 ^ digits)
    ('.' :: (toString (n % 10 ^ digits)).toList.leftpad digits '0')
  rw [hreal] at hplain hsigned
  by_cases hneg : d < 0
  · simpa [hneg] using hsigned
  · simpa [hneg] using hplain

/-! ### Cells and their texts -/

theorem cell_decimal (out : Double → String) (hdigits : 0 < digits) (hfew : digits ≤ 15) (h : HasPlaces digits d) :
    ColumnType.cell (float8 out) .float8 (Slot.tokens (.decimal digits d)) = some (.float8 d) := by
  obtain ⟨k, hk⟩ := h
  have hle : 10 ^ digits ≤ 4503599627370496 := (Nat.pow_le_pow_right (by decide) hfew).trans (by decide)
  have hpow : ((10 ^ digits : Nat) : Rat) = 10 ^ digits := by push_cast; rfl
  have hnearest := Double.nearest_round_abs (N := 10 ^ digits) (Nat.pow_pos (by decide)) hle (hpow ▸ hk)
  show (constant (numeral (fixed digits d).toList)).map (fun q => Cell.float8 (Double.nearest q)) = _
  rw [constant_fixed hdigits, Option.map_some, ← hpow, hnearest]

theorem integer_intCast {bound : Int} (hlow : -bound ≤ i) (hhigh : i < bound) :
    integer bound (i : Rat) = some (.int i) :=
  if_pos ⟨Rat.den_intCast i, hlow, hhigh⟩

theorem cell_bigint (h : Int64 i) :
    ColumnType.cell (float8 out) .bigint (Slot.tokens (.integer i)) = some (.int i) := by
  show (constant (numeral (toString i).toList)).bind (integer (2 ^ 63)) = _
  rw [constant_integer, Option.bind_some, integer_intCast h.1 h.2]

theorem cell_bigint_eq_none (h : 2 ^ 63 ≤ i) :
    ColumnType.cell (float8 out) .bigint (Slot.tokens (.integer i)) = none := by
  show (constant (numeral (toString i).toList)).bind (integer (2 ^ 63)) = _
  rw [constant_integer, Option.bind_some]
  exact if_neg fun hrange => absurd hrange.2.2 (not_lt.mpr h)

theorem cell_decision (decision : PredictionDecision) :
    ColumnType.cell (float8 out) .smallint (Slot.tokens (.integer decision.toNat)) =
      some (.int decision.toNat) := by
  show (constant (numeral (toString (decision.toNat : Int)).toList)).bind (integer (2 ^ 15)) = _
  rw [constant_integer, Option.bind_some]
  cases decision <;> exact integer_intCast (by decide) (by decide)

theorem cell_flag (b : Bool) : ColumnType.cell (float8 out) .boolean (Slot.tokens (.flag b)) = some (.bool b) := by
  cases b <;> rfl

/-- What the client gets of a cell. -/
def received (out : Double → String) (c : Cell) : String := String.ofList (c.out (float8 out))

theorem received_text (s : String) : received out (.text s.toList) = s := String.ofList_toList

theorem received_float8 (d : Double) : received out (.float8 d) = out d := String.ofList_toList

theorem received_int (i : Int) : received out (.int i) = toString i := String.ofList_toList

theorem atoll_toString (i : Int) : atoll (toString i) = i := by
  have hspace : (toString i).toList.dropWhile isSpace = (toString i).toList := by
    rcases hlist : (toString i).toList with _ | ⟨c, cs⟩
    · rfl
    · have hc : c = '-' ∨ c.isDigit = true := Decimal.mem_int (hlist ▸ List.mem_cons_self)
      have hno : isSpace c = false := by
        rcases hc with rfl | hc
        · rfl
        · exact isSpace_of_isDigit hc
      rw [List.dropWhile_cons, hno]
      rfl
  rw [atoll, hspace, Decimal.signed_natural_toString]

theorem ofInt_toNat (decision : PredictionDecision) : PredictionDecision.ofInt decision.toNat = some decision := by
  cases decision <;> rfl

/-! ### Statements -/

theorem nulFree_quote {s : String} (h : NulFree s) : NulFree (quote s) := by
  have hdoubled : NulFree (String.ofList (s.toList.flatMap fun c => if c = '\'' then ['\'', '\''] else [c])) := by
    rw [NulFree, String.toList_ofList]
    intro hmem
    obtain ⟨c, hc, hmem⟩ := List.mem_flatMap.mp hmem
    split at hmem
    · simp at hmem
    · obtain rfl := List.mem_singleton.mp hmem
      exact h hc
  have hquote : NulFree "'" := by decide
  exact (hquote.append hdoubled).append hquote

theorem nulFree_nat (n : Nat) : NulFree (toString n) := fun h =>
  absurd (Decimal.isDigit_of_mem_nat h) (by decide)

theorem nulFree_int (i : Int) : NulFree (toString i) := fun h => by
  rcases Decimal.mem_int h with h | h
  · cases h
  · cases h

theorem nulFree_fixed (digits : Nat) (d : Double) : NulFree (fixed digits d) := by
  have hsign : NulFree (if d < 0 then "-" else "") := by split <;> decide
  have hpoint : NulFree "." := by decide
  have hpart (n : Nat) : NulFree (String.ofList ((toString n).toList.leftpad digits '0')) := by
    rw [NulFree, String.toList_ofList]
    exact fun h => absurd (Decimal.isDigit_of_mem_leftpad h) (by decide)
  exact ((hsign.append (nulFree_nat _)).append hpoint).append (hpart _)

theorem nulFree_written {x : SqlBuilder.Slot} (h : ∀ s, x = .text s → NulFree s) : NulFree x.written := by
  cases x with
  | text s => exact nulFree_quote (h s rfl)
  | decimal digits d => exact nulFree_fixed digits d
  | integer i => exact nulFree_int i
  | flag b => cases b <;> decide

theorem nulFree_listed {xs : List SqlBuilder.Slot} (h : ∀ x ∈ xs, ∀ s, x = .text s → NulFree s) : NulFree (listed xs) := by
  induction xs with
  | nil => decide
  | cons x xs ih =>
    have hcomma : NulFree ", " := by decide
    have hx := nulFree_written (h x List.mem_cons_self)
    exact (hcomma.append hx).append (ih fun y hy => h y (List.mem_cons_of_mem _ hy))

theorem nulFree_head (k : Kind) : NulFree k.head ∧ NulFree k.tail :=
  ⟨(scan_head k).2.2, (tokens_tail k).2.2.2⟩

theorem nulFree_sql {r : Record} (h : ∀ x ∈ r.slots, ∀ s, x = .text s → NulFree s) : NulFree r.sql := by
  obtain ⟨x, xs, hslots, hsql⟩ := sql_eq r
  rw [hslots] at h
  rw [hsql]
  have hx := nulFree_written (h x List.mem_cons_self)
  have hxs := nulFree_listed fun y hy => h y (List.mem_cons_of_mem _ hy)
  exact (nulFree_head r.kind).1.append (hx.append (hxs.append (nulFree_head r.kind).2))

/-- The tables of the records. -/
def SqlBuilder.Kind.schema : Kind → Option Schema
  | .round => some crashRoundsTable
  | .prediction => some predictionsTable
  | .outcome => some outcomesTable
  | .outbox => none

/-- A statement names all columns of its table. -/
theorem statement_eq {k : Kind} {schema : Schema} (h : k.schema = some schema) (values : List (List Token)) :
    k.statement values = (schema.insert values k.after.tail).tokens := by
  have hbefore : k.before =
      [.word "INSERT".toList, .word "INTO".toList, .word schema.name, .symbol '('] ++
        ([.symbol ','].intercalate ((schema.columns.map Prod.fst).map fun c => [.word c]) ++
          [.symbol ')', .word "VALUES".toList, .symbol '(']) := by
    cases k
    all_goals cases h
    all_goals
      unfold Kind.before spaced
      first
        | unfold crashRoundsTable
        | unfold predictionsTable
        | unfold outcomesTable
      simp only [-String.reduceAppend, String.reduceToList]
      decide +kernel
  have hafter : k.after = .symbol ')' :: k.after.tail := by
    cases k
    all_goals
      unfold Kind.after spaced
      simp only [-String.reduceAppend, String.reduceToList]
      decide +kernel
  rw [Kind.statement, hbefore, congrArg (_ ++ ·) hafter, Insert.tokens, Schema.insert]
  simp

theorem schema_nodup {k : Kind} {schema : Schema} (h : k.schema = some schema) :
    (schema.columns.map Prod.fst).Nodup ∧ "FROM".toList ∉ schema.columns.map Prod.fst ∧ schema.columns ≠ [] := by
  cases k
  all_goals cases h
  all_goals
    first
      | unfold crashRoundsTable
      | unfold predictionsTable
      | unfold outcomesTable
    simp only [String.reduceToList]
    decide +kernel

/-- The tokens of a SELECT up to the text. -/
def opening (schema : Schema) (key : List Char) : List Token :=
  [.word "SELECT".toList] ++ ([.symbol ','].intercalate ((schema.columns.map Prod.fst).map fun c => [.word c]) ++
    [.word "FROM".toList, .word schema.name, .word "WHERE".toList, .word key, .operator ['=']])

/-- The text before the id in the SELECT of a kind, and the column that it is in. -/
def SqlBuilder.Kind.selectHead : Kind → String × List Char
  | .round =>
    ("SELECT game_id, multiplier, hash, salt, " ++ "began_at_ms, crashed_at_ms, sequence " ++ "FROM crash_rounds " ++
      "WHERE game_id = ", "game_id".toList)
  | .prediction =>
    ("SELECT id, round_id, game_id, decision, " ++ "confidence, entry_mult, target_mult, " ++
      "correlation_id, model_version, " ++ "created_at_ms FROM predictions " ++ "WHERE id = ", "id".toList)
  | .outcome =>
    ("SELECT prediction_id, round_id, result, " ++ "actual_mult, target_mult, is_win, " ++
      "resolved_at_ms FROM outcomes " ++ "WHERE prediction_id = ", "prediction_id".toList)
  | .outbox => ("", [])

theorem scan_selectHead {k : Kind} {schema : Schema} (h : k.schema = some schema) :
    scan .plain k.selectHead.1.toList = (opening schema k.selectHead.2, .plain) ∧ NulFree k.selectHead.1 := by
  cases k
  all_goals cases h
  all_goals
    unfold Kind.selectHead opening NulFree
    first
      | unfold crashRoundsTable
      | unfold predictionsTable
      | unfold outcomesTable
    simp only [-String.reduceAppend, String.toList_append, String.reduceToList]
    decide +kernel

theorem scan_quoted_limit (text : List Char) :
    scan (.quote text) " LIMIT 1".toList = ([.literal text, .word "LIMIT".toList], .number ['1']) := by
  rfl

/-- A SELECT by an id: whatever the id is, it is the one text. -/
theorem tokens_select {k : Kind} {schema : Schema} (h : k.schema = some schema) {id : String} (hid : NulFree id) :
    SqlLexer.tokens (cString (k.selectHead.1 ++ quote id ++ " LIMIT 1")) =
      some (schema.select k.selectHead.2 id.toList).tokens := by
  obtain ⟨hscan, hnul⟩ := scan_selectHead h
  have hlimit : NulFree " LIMIT 1" := by decide
  have hquote : (quote id).toList = SqlLexer.quoted id.toList := by simp [quote, SqlLexer.quoted]
  have htail : scan .plain ((k.selectHead.1 ++ quote id ++ " LIMIT 1").toList) =
      (opening schema k.selectHead.2 ++ [.literal id.toList, .word "LIMIT".toList], .number ['1']) := by
    rw [String.toList_append, String.toList_append, hquote, SqlLexer.scan_append, SqlLexer.scan_append, hscan]
    dsimp only
    rw [SqlLexer.scan_quoted]
    dsimp only
    rw [scan_quoted_limit, List.append_nil]
  rw [cString_eq ((hnul.append (nulFree_quote hid)).append hlimit), SqlLexer.tokens, htail]
  have hone : Nat.toDigits 10 1 = ['1'] := rfl
  simp [SqlLexer.finish, opening, Select.tokens, Schema.select, hone]

/-- The INSERT of a record, as the server takes it. -/
theorem parse_sql {r : Record} {schema : Schema} (h : r.kind.schema = some schema)
    (htexts : ∀ x ∈ r.slots, ∀ s, x = .text s → NulFree s) :
    (SqlLexer.tokens (cString r.sql)).bind Insert.parse =
      some (schema.insert (r.slots.map Slot.tokens) r.kind.after.tail) := by
  obtain ⟨x, xs, hslots, -⟩ := sql_eq r
  have hcolumns : schema.columns.map Prod.fst ≠ [] := List.map_eq_nil_iff.not.mpr (schema_nodup h).2.2
  have hvalues : r.slots.map Slot.tokens ≠ [] := hslots ▸ List.cons_ne_nil _ _
  have hsymbols : ∀ v ∈ r.slots.map Slot.tokens, Token.symbol ',' ∉ v ∧ Token.symbol ')' ∉ v := by
    intro v hv
    obtain ⟨x, -, rfl⟩ := List.mem_map.mp hv
    exact ⟨symbol_not_mem_tokens x ',', symbol_not_mem_tokens x ')'⟩
  rw [cString_eq (nulFree_sql htexts), tokens_record, statement_eq h, Option.bind_some]
  exact Insert.parse_tokens _ hcolumns hvalues hsymbols

/-- What was inserted is read back, if each of its values makes its cell. -/
theorem insertAndRead_eq {ε : Type} {schema : Schema} {id : String} (read : List String → Option ε) (r : Record)
    (values : List (List Token × Cell)) (h : r.kind.schema = some schema) (hid : NulFree id)
    (htexts : ∀ x ∈ r.slots, ∀ s, x = .text s → NulFree s) (hvalues : r.slots.map Slot.tokens = values.map Prod.fst)
    (hcells : List.Forall₂ (fun c v => ColumnType.cell (float8 out) c.2 v.1 = some v.2) schema.columns values)
    (hkey : ((r.kind.selectHead.2, .text), (Slot.tokens (.text id), Cell.text id.toList)) ∈
      schema.columns.zip values) :
    insertAndRead out schema r.sql (r.kind.selectHead.1 ++ quote id ++ " LIMIT 1") read =
      read (values.map fun v => received out v.2) := by
  obtain ⟨hnodup, hfrom, hne⟩ := schema_nodup h
  have hcolumns : schema.columns.map Prod.fst ≠ [] := List.map_eq_nil_iff.not.mpr hne
  have hselect := Select.parse_tokens (schema.select r.kind.selectHead.2 id.toList) hcolumns hfrom
  unfold insertAndRead
  rw [parse_sql h htexts, hvalues, tokens_select h hid]
  simp only [Option.bind_some, hselect, Option.bind_eq_bind]
  rw [Schema.row_insert hnodup hcells, Option.bind_some, Schema.rows_select hnodup hcells hkey]
  simp [received, Function.comp_def]

/-- Nothing is inserted, if one of the values makes no cell. -/
theorem insertAndRead_eq_none {ε : Type} {schema : Schema} (read : List String → Option ε) (r : Record)
    (select : String) (h : r.kind.schema = some schema) (htexts : ∀ x ∈ r.slots, ∀ s, x = .text s → NulFree s)
    {c : List Char × ColumnType} {v : List Token} (hmem : (c, v) ∈ schema.columns.zip (r.slots.map Slot.tokens))
    (hcell : ColumnType.cell (float8 out) c.2 v = none) : insertAndRead out schema r.sql select read = none := by
  have hlookup : schema.columns.lookup c.1 = some c.2 := lookup_of_mem (schema_nodup h).1 (List.of_mem_zip hmem).1
  have hzip : (c.1, v) ∈ (schema.columns.map Prod.fst).zip (r.slots.map Slot.tokens) := by
    rw [List.zip_map_left]
    exact List.mem_map.mpr ⟨_, hmem, rfl⟩
  have hrow : (schema.insert (r.slots.map Slot.tokens) r.kind.after.tail).row (float8 out) schema = none :=
    Insert.row_eq_none hzip (by rw [hlookup, Option.bind_some, hcell])
  unfold insertAndRead
  rw [parse_sql h htexts]
  simp only [Option.bind_some, hrow, Option.bind_eq_bind, Option.bind_none]

/-! ### The records -/

theorem nulFree_outcomeName (result : PredictionOutcome) : NulFree (outcomeName result) := by
  cases result <;> decide

/-- None of the names that are written is one that is read. -/
theorem resultOf_outcomeName (result : PredictionOutcome) :
    OutcomeRepository.resultOf (outcomeName result) = .pending := by
  cases result <;> decide

theorem flagOf_received (b : Bool) : OutcomeRepository.flagOf (received out (.bool b)) = b := by
  cases b <;> rfl

/-- An outcome comes back as pending: its result is written in small letters and read in capitals. -/
theorem OutcomeRepository.roundTrip_eq {o : Outcome} (h : o.Storable out) :
    roundTrip out o = some { o with result := .pending } := by
  have hactual : ReadsBack out o.actualMult := h.reads _ (by simp)
  have htarget : ReadsBack out o.targetMult := h.reads _ (by simp)
  have hactualCell := cell_decimal out (by decide) (by decide) (h.places o.actualMult (by simp))
  have htargetCell := cell_decimal out (by decide) (by decide) (h.places o.targetMult (by simp))
  have htexts : ∀ x ∈ (Record.outcome o).slots, ∀ s, x = .text s → NulFree s := by
    rintro x hx s rfl
    have hs : s = o.predictionId ∨ s = o.roundId ∨ s = outcomeName o.result := by simpa [Record.slots] using hx
    rcases hs with rfl | rfl | rfl
    · exact h.texts _ (by simp)
    · exact h.texts _ (by simp)
    · exact nulFree_outcomeName o.result
  refine (insertAndRead_eq rowToOutcome (.outcome o)
    [(_, .text o.predictionId.toList), (_, .text o.roundId.toList), (_, .text (outcomeName o.result).toList),
      (_, .float8 o.actualMult), (_, .float8 o.targetMult), (_, .bool o.isWin), (_, .int o.resolvedAtMs)]
    rfl (h.texts o.predictionId (by simp)) htexts rfl
    (.cons rfl (.cons rfl (.cons rfl (.cons hactualCell (.cons htargetCell (.cons (cell_flag o.isWin)
      (.cons (cell_bigint h.time) .nil))))))) List.mem_cons_self).trans ?_
  simp only [List.map_cons, List.map_nil, received_text, received_float8, received_int, rowToOutcome, atoll_toString,
    flagOf_received, resultOf_outcomeName]
  rw [hactual, htarget]

/-- A prediction comes back with all that its columns hold. -/
theorem PredictionRepository.roundTrip_eq {e : PredictionEvent} (h : e.Storable out) :
    roundTrip out e = some e.persisted := by
  have hconfidence : ReadsBack out e.confidence := h.reads _ (by simp)
  have hentry : ReadsBack out e.entryMult := h.reads _ (by simp)
  have htarget : ReadsBack out e.targetMult := h.reads _ (by simp)
  have hconfidenceCell := cell_decimal out (by decide) (by decide) h.confidencePlaces
  have hentryCell := cell_decimal out (by decide) (by decide) ((h.places e.entryMult (by simp)).mono 2)
  have htargetCell := cell_decimal out (by decide) (by decide) ((h.places e.targetMult (by simp)).mono 2)
  have htexts : ∀ x ∈ (Record.prediction e).slots, ∀ s, x = .text s → NulFree s := by
    rintro x hx s rfl
    exact h.texts s (by simpa [Record.slots] using hx)
  refine (insertAndRead_eq rowToEvent (.prediction e)
    [(_, .text e.predictionId.toList), (_, .text e.targetRoundId.toList), (_, .text e.gameId.toList),
      (_, .int e.decision.toNat), (_, .float8 e.confidence), (_, .float8 e.entryMult), (_, .float8 e.targetMult),
      (_, .text e.correlationId.toList), (_, .text e.modelVersion.toList), (_, .int e.createdAtMs)]
    rfl (h.texts e.predictionId (by simp)) htexts rfl
    (.cons rfl (.cons rfl (.cons rfl (.cons (cell_decision e.decision) (.cons hconfidenceCell (.cons hentryCell
      (.cons htargetCell (.cons rfl (.cons rfl (.cons (cell_bigint h.time) .nil)))))))))) List.mem_cons_self).trans ?_
  simp only [List.map_cons, List.map_nil, received_text, received_float8, received_int, rowToEvent, atoll_toString,
    ofInt_toNat, Option.map_some]
  rw [hconfidence, hentry, htarget]
  rfl

/-- A round whose sequence fits its column comes back, with flags that say whether there are texts. -/
theorem CrashRoundRepository.roundTrip_eq {r : CrashRound} (h : r.Storable out) (hsequence : r.sequence < 2 ^ 63) :
    roundTrip out r = some { r with hasHash := r.hash ≠ "", hasSalt := r.salt ≠ "" } := by
  have hmultiplier : ReadsBack out r.multiplier := h.reads
  have hcell := cell_decimal out (by decide) (by decide) h.places
  have htexts : ∀ x ∈ (Record.round r).slots, ∀ s, x = .text s → NulFree s := by
    rintro x hx s rfl
    exact h.texts s (by simpa [Record.slots] using hx)
  have hrange : Int64 r.sequence := ⟨by omega, by omega⟩
  have hwrap : ((r.sequence : Int) % 2 ^ 64).toNat = r.sequence := by omega
  refine (insertAndRead_eq rowToRound (.round r)
    [(_, .text r.gameId.toList), (_, .float8 r.multiplier), (_, .text r.hash.toList), (_, .text r.salt.toList),
      (_, .int r.beganAtMs), (_, .int r.crashedAtMs), (_, .int r.sequence)]
    rfl (h.texts r.gameId (by simp)) htexts rfl
    (.cons rfl (.cons hcell (.cons rfl (.cons rfl (.cons (cell_bigint (h.times _ (by simp)))
      (.cons (cell_bigint (h.times _ (by simp))) (.cons (cell_bigint hrange) .nil))))))) List.mem_cons_self).trans ?_
  simp only [List.map_cons, List.map_nil, received_text, received_float8, received_int, rowToRound, atoll_toString,
    hwrap]
  rw [hmultiplier]

theorem CrashRoundRepository.roundTrip_eq_none {r : CrashRound} (h : r.Storable out) (hsequence : 2 ^ 63 ≤ r.sequence) :
    roundTrip out r = none := by
  have htexts : ∀ x ∈ (Record.round r).slots, ∀ s, x = .text s → NulFree s := by
    rintro x hx s rfl
    exact h.texts s (by simpa [Record.slots] using hx)
  have hcell : ColumnType.cell (float8 out) .bigint (Slot.tokens (.integer r.sequence)) = none :=
    cell_bigint_eq_none (by omega)
  exact insertAndRead_eq_none rowToRound (.round r) _ rfl htexts
    (.tail _ (.tail _ (.tail _ (.tail _ (.tail _ (.tail _ (.head _))))))) hcell

/-- A record with few decimal places, once inserted into the empty table, is read back in all its columns: an outcome
    exactly if it is pending, a prediction always, a round exactly if its sequence fits its column. -/
theorem roundTrip_iff (out : Double → String) :
    (∀ o : Outcome, o.Storable out → (OutcomeRepository.roundTrip out o = some o ↔ o.result = .pending)) ∧
    (∀ e : PredictionEvent, e.Storable out →
      (PredictionRepository.roundTrip out e).map PredictionEvent.persisted = some e.persisted) ∧
    ∀ r : CrashRound, r.Storable out →
      ((CrashRoundRepository.roundTrip out r).map CrashRound.persisted = some r.persisted ↔ r.sequence < 2 ^ 63) := by
  refine ⟨fun o ho => ?_, fun e he => ?_, fun r hr => ?_⟩
  · rw [OutcomeRepository.roundTrip_eq ho, Option.some_inj]
    exact ⟨fun h => congrArg Outcome.result h.symm, fun h => by rw [← h]⟩
  · rw [PredictionRepository.roundTrip_eq he]
    rfl
  · by_cases hsequence : r.sequence < 2 ^ 63
    · rw [CrashRoundRepository.roundTrip_eq hr hsequence]
      exact iff_of_true rfl hsequence
    · rw [CrashRoundRepository.roundTrip_eq_none hr (not_lt.mp hsequence)]
      exact iff_of_false nofun hsequence

/-- What the server writes for some halves and for integers. -/
def shortest (d : Double) : String :=
  if d = 1 / 2 then "0.5" else if d = 5 / 2 then "2.5" else toString d.num

theorem shortest_half : HasPlaces 4 (1 / 2) ∧ ReadsBack shortest (1 / 2) :=
  ⟨⟨5000, by decide +kernel⟩, by unfold ReadsBack; decide +kernel⟩

theorem shortest_two : HasPlaces 4 2 ∧ ReadsBack shortest 2 :=
  ⟨⟨20000, by decide +kernel⟩, by unfold ReadsBack; decide +kernel⟩

theorem shortest_twoAndHalf : HasPlaces 4 (5 / 2) ∧ ReadsBack shortest (5 / 2) :=
  ⟨⟨25000, by decide +kernel⟩, by unfold ReadsBack; decide +kernel⟩

theorem outcome_storable (result : PredictionOutcome) (isWin : Bool) :
    Outcome.Storable shortest
      { predictionId := "p", roundId := "r", result := result, actualMult := 5 / 2, targetMult := 2,
        resolvedAtMs := 1000, isWin := isWin } where
  texts := by
    show ∀ s ∈ ["p", "r"], NulFree s
    decide
  places := List.forall_mem_cons.mpr ⟨shortest_twoAndHalf.1, List.forall_mem_singleton.mpr shortest_two.1⟩
  reads := List.forall_mem_cons.mpr ⟨shortest_twoAndHalf.2, List.forall_mem_singleton.mpr shortest_two.2⟩
  time := by
    show Int64 1000
    decide

/-- A prediction with a confidence of one half. -/
def halfConfident : PredictionEvent where
  predictionId := "p"
  targetRoundId := "r"
  decision := .enter
  confidence := 1 / 2
  entryMult := 2
  targetMult := 5 / 2
  createdAtMs := 1000
  modelVersion := "v1"

theorem halfConfident_storable : halfConfident.Storable shortest where
  texts := by decide
  places := List.forall_mem_cons.mpr ⟨shortest_two.1, List.forall_mem_singleton.mpr shortest_twoAndHalf.1⟩
  confidencePlaces := shortest_half.1.mono 2
  reads := List.forall_mem_cons.mpr ⟨shortest_half.2, List.forall_mem_cons.mpr
    ⟨shortest_two.2, List.forall_mem_singleton.mpr shortest_twoAndHalf.2⟩⟩
  time := by decide

/-- A round with a hash and without a salt. -/
def hashedRound : CrashRound where
  gameId := "g"
  multiplier := 5 / 2
  hash := "it's"
  beganAtMs := 1000
  crashedAtMs := 2000
  sequence := 7
  hasHash := true

theorem hashedRound_storable : hashedRound.Storable shortest where
  texts := by decide
  places := shortest_twoAndHalf.1
  reads := shortest_twoAndHalf.2
  times := by decide

theorem roundTrip_pending :
    OutcomeRepository.roundTrip shortest
        { predictionId := "p", roundId := "r", result := .pending, actualMult := 5 / 2, targetMult := 2,
          resolvedAtMs := 1000, isWin := false } =
      some { predictionId := "p", roundId := "r", result := .pending, actualMult := 5 / 2, targetMult := 2,
             resolvedAtMs := 1000, isWin := false } ∧
    (PredictionRepository.roundTrip shortest halfConfident).map PredictionEvent.persisted =
      some halfConfident.persisted ∧
    (CrashRoundRepository.roundTrip shortest hashedRound).map CrashRound.persisted = some hashedRound.persisted :=
  ⟨((roundTrip_iff shortest).1 _ (outcome_storable .pending false)).mpr rfl,
    (roundTrip_iff shortest).2.1 _ halfConfident_storable,
    ((roundTrip_iff shortest).2.2 _ hashedRound_storable).mpr (by decide)⟩

/-- A win comes back as pending. -/
theorem not_roundTrip_win :
    let o : Outcome :=
      { predictionId := "p", roundId := "r", result := .win, actualMult := 5 / 2, targetMult := 2,
        resolvedAtMs := 1000, isWin := true }
    o.Storable shortest ∧ OutcomeRepository.roundTrip shortest o ≠ some o := by
  refine ⟨outcome_storable .win true, ?_⟩
  rw [OutcomeRepository.roundTrip_eq (outcome_storable .win true)]
  exact nofun

end CrashCore
