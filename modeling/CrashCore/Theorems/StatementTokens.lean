import CrashCore.Library.Decimal
import CrashCore.Library.SqlLexer
import CrashCore.Persistence.RowCodecs

/-! The statements of `SqlBuilder` for the tables of rounds, predictions, outcomes and notifications have fixed tokens
but for the values: whatever a text holds, it is the one literal that denotes it. -/

namespace CrashCore
namespace SqlBuilder
open SqlLexer

/-- What a statement is about. -/
inductive Record
  | round (r : CrashRound)
  | prediction (e : PredictionEvent)
  | outcome (o : Outcome)
  | outbox (item : OutboxItem)

inductive Kind
  | round | prediction | outcome | outbox

def Record.kind : Record → Kind
  | .round _ => .round
  | .prediction _ => .prediction
  | .outcome _ => .outcome
  | .outbox _ => .outbox

def Record.sql : Record → String
  | .round r => upsertCrashRound r
  | .prediction e => upsertPrediction e
  | .outcome o => upsertOutcome o
  | .outbox item => insertOutbox item

/-- A value in a statement. -/
inductive Slot
  | text (s : String)
  | decimal (digits : Nat) (d : Double)
  | integer (i : Int)
  | flag (b : Bool)

def Record.slots : Record → List Slot
  | .round r =>
    [.text r.gameId, .decimal 4 r.multiplier, .text r.hash, .text r.salt, .integer r.beganAtMs, .integer r.crashedAtMs,
      .integer r.sequence]
  | .prediction e =>
    [.text e.predictionId, .text e.targetRoundId, .text e.gameId, .integer e.decision.toNat, .decimal 6 e.confidence,
      .decimal 6 e.entryMult, .decimal 6 e.targetMult, .text e.correlationId, .text e.modelVersion,
      .integer e.createdAtMs]
  | .outcome o =>
    [.text o.predictionId, .text o.roundId, .text (outcomeName o.result), .decimal 4 o.actualMult,
      .decimal 4 o.targetMult, .flag o.isWin, .integer o.resolvedAtMs]
  | .outbox item =>
    [.integer item.state.toNat, .text item.signal.predictionId, .text item.signal.roundId,
      .integer item.signal.kind.toNat, .text item.signal.text, .text item.dedupeKey, .integer item.attempts,
      .integer item.createdAtMs]

/-- A number, with its sign as a token of its own. -/
def numeral : List Char → List Token
  | '-' :: ds => [.operator ['-'], .number ds]
  | ds => [.number ds]

/-- A text is one literal, which denotes it. -/
def Slot.tokens : Slot → List Token
  | .text s => [.literal s.toList]
  | .decimal digits d => numeral (fixed digits d).toList
  | .integer i => numeral (toString i).toList
  | .flag b => [.word (if b then "TRUE" else "FALSE").toList]

/-- The tokens of a text with a space between any two. -/
def spaced (text : String) : List Token :=
  (text.toList.between (· = ' ')).map fun
    | [c] => if c = '=' then .operator [c] else .symbol c
    | word => .word word

/-- The tokens before the values of a statement. -/
def Kind.before : Kind → List Token
  | .round =>
    spaced "INSERT INTO crash_rounds ( game_id ," ++ spaced "multiplier , hash , salt , began_at_ms ," ++
      spaced "crashed_at_ms , sequence ) VALUES ("
  | .prediction =>
    spaced "INSERT INTO predictions ( id , round_id ," ++ spaced "game_id , decision , confidence ," ++
      spaced "entry_mult , target_mult ," ++ spaced "correlation_id , model_version ," ++
      spaced "created_at_ms ) VALUES ("
  | .outcome =>
    spaced "INSERT INTO outcomes ( prediction_id ," ++ spaced "round_id , result , actual_mult ," ++
      spaced "target_mult , is_win ," ++ spaced "resolved_at_ms ) VALUES ("
  | .outbox =>
    spaced "INSERT INTO notification_outbox ( state ," ++ spaced "prediction_id , round_id , signal_kind ," ++
      spaced "text , dedupe_key , attempts ," ++ spaced "created_at_ms ) VALUES ("

/-- The tokens behind them. -/
def Kind.after : Kind → List Token
  | .round =>
    spaced ") ON CONFLICT ( game_id ) DO UPDATE SET" ++ spaced "multiplier = EXCLUDED . multiplier ," ++
      spaced "hash = COALESCE ( EXCLUDED . hash ," ++ spaced "crash_rounds . hash ) ," ++
      spaced "crashed_at_ms = EXCLUDED . crashed_at_ms ," ++ spaced "sequence = EXCLUDED . sequence"
  | .prediction => spaced ") ON CONFLICT ( id ) DO NOTHING"
  | .outcome => spaced ") ON CONFLICT ( prediction_id ) DO NOTHING"
  | .outbox => spaced ") ON CONFLICT ( dedupe_key ) DO NOTHING"

/-- The statement of a kind with the given values, which commas separate. -/
def Kind.statement (k : Kind) (values : List (List Token)) : List Token :=
  k.before ++ [Token.symbol ','].intercalate values ++ k.after

/-! ### The values -/

variable {x : Slot}

def Slot.written : Slot → String
  | .text s => quote s
  | .decimal digits d => fixed digits d
  | .integer i => toString i
  | .flag b => if b then "TRUE" else "FALSE"

theorem numeral_digit {d : Char} (hd : d.isDigit = true) (ds : List Char) :
    numeral (d :: ds) = [.number (d :: ds)] := by
  unfold numeral
  split
  · rename_i heq
    obtain ⟨rfl, -⟩ := List.cons.inj heq
    cases hd
  · rfl

/-- A number whose text begins with the digits of `n`, perhaps with a sign before them. -/
theorem item_numeral (n : Nat) {tail : List Char} (h : ∀ c ∈ tail, c.isDigit = true ∨ c = '.') :
    Item ((toString n).toList ++ tail) (numeral ((toString n).toList ++ tail)) ∧
      Item ('-' :: ((toString n).toList ++ tail)) (numeral ('-' :: ((toString n).toList ++ tail))) := by
  obtain ⟨d, ds, htext, hd, hds⟩ := Decimal.exists_digits n
  have hrest : ∀ c ∈ ds ++ tail, c.isDigit = true ∨ c = '.' :=
    List.forall_mem_append.mpr ⟨fun c hc => .inl (hds c hc), h⟩
  rw [htext, List.cons_append, numeral_digit hd]
  exact ⟨item_number hd hrest, item_signed hd hrest⟩

theorem item_integer (i : Int) : Item (toString i).toList (numeral (toString i).toList) := by
  rcases Decimal.toList_int i with ⟨n, -, htext⟩ | ⟨n, -, htext⟩
  · rw [htext]
    simpa using (@item_numeral n [] nofun).1
  · rw [htext]
    simpa using (@item_numeral (n + 1) [] nofun).2

theorem item_fixed (digits : Nat) (d : Double) : Item (fixed digits d).toList (numeral (fixed digits d).toList) := by
  have hpart (n : Nat) : ∀ c ∈ '.' :: (toString n).toList.leftpad digits '0', c.isDigit = true ∨ c = '.' := by
    intro c hc
    rcases List.mem_cons.mp hc with rfl | hc
    · exact .inr rfl
    · rw [List.leftpad] at hc
      rcases List.mem_append.mp hc with hc | hc
      · rw [List.eq_of_mem_replicate hc]
        exact .inl rfl
      · exact .inl (Decimal.isDigit_of_mem_nat hc)
  unfold fixed
  dsimp only
  generalize (|d| * 10 ^ digits).roundTiesToEven.toNat = n
  obtain ⟨hplain, hsigned⟩ := item_numeral (n / 10 ^ digits) (hpart (n % 10 ^ digits))
  by_cases hneg : d < 0
  · simpa [hneg] using hsigned
  · simpa [hneg] using hplain

theorem item_slot : Item x.written.toList x.tokens := by
  cases x with
  | text s =>
    have htext : (quote s).toList = quoted s.toList := by simp [quote, quoted]
    rw [Slot.written, htext]
    exact item_quoted s.toList
  | decimal digits d => exact item_fixed digits d
  | integer i => exact item_integer i
  | flag b =>
    cases b with
    | true => exact item_word (by decide)
    | false => exact item_word (by decide)

/-! ### The statements -/

/-- The text before the values. -/
def Kind.head : Kind → String
  | .round => "INSERT INTO crash_rounds(game_id, " ++ "multiplier, hash, salt, began_at_ms, " ++
    "crashed_at_ms, sequence) VALUES("
  | .prediction =>
    "INSERT INTO predictions(id, round_id, " ++ "game_id, decision, confidence, entry_mult, " ++
    "target_mult, correlation_id, " ++ "model_version, created_at_ms) VALUES("
  | .outcome =>
    "INSERT INTO outcomes(prediction_id, " ++ "round_id, result, actual_mult, target_mult, " ++
    "is_win, resolved_at_ms) VALUES("
  | .outbox =>
    "INSERT INTO notification_outbox(state, " ++ "prediction_id, round_id, signal_kind, " ++
    "text, dedupe_key, attempts, " ++ "created_at_ms) VALUES("

/-- The text behind them. -/
def Kind.tail : Kind → String
  | .round =>
    ") ON CONFLICT (game_id) DO UPDATE SET " ++ "multiplier = EXCLUDED.multiplier, " ++
      "hash = COALESCE(EXCLUDED.hash, crash_rounds.hash), " ++ "crashed_at_ms = EXCLUDED.crashed_at_ms, " ++
      "sequence = EXCLUDED.sequence"
  | .prediction => ") ON CONFLICT (id) DO NOTHING"
  | .outcome => ") ON CONFLICT (prediction_id) DO NOTHING"
  | .outbox => ") ON CONFLICT (dedupe_key) DO NOTHING"

/-- More values, with a comma before each. -/
def listed : List Slot → String
  | [] => ""
  | x :: xs => ", " ++ x.written ++ listed xs

theorem toList_listed (xs : List Slot) :
    (listed xs).toList = (xs.map (·.written.toList)).flatMap ([',', ' '] ++ ·) := by
  induction xs with
  | nil => rfl
  | cons x xs ih =>
    have hcomma : ", ".toList = [',', ' '] := rfl
    rw [listed, String.toList_append, String.toList_append, ih, hcomma, List.map_cons, List.flatMap_cons]

theorem sql_eq (r : Record) : ∃ x xs, r.slots = x :: xs ∧
    r.sql = r.kind.head ++ (x.written ++ (listed xs ++ r.kind.tail)) := by
  cases r with
  | round r =>
    refine ⟨_, _, rfl, ?_⟩
    unfold Record.sql upsertCrashRound Record.kind Kind.head Kind.tail
    simp only [-String.reduceAppend, String.append_assoc, listed]
    rfl
  | prediction e =>
    refine ⟨_, _, rfl, ?_⟩
    unfold Record.sql upsertPrediction Record.kind Kind.head Kind.tail
    simp only [-String.reduceAppend, String.append_assoc, listed]
    rfl
  | outcome o =>
    refine ⟨_, _, rfl, ?_⟩
    unfold Record.sql upsertOutcome Record.kind Kind.head Kind.tail
    simp only [-String.reduceAppend, String.append_assoc, listed]
    rfl
  | outbox item =>
    refine ⟨_, _, rfl, ?_⟩
    unfold Record.sql insertOutbox Record.kind Kind.head Kind.tail
    simp only [-String.reduceAppend, String.append_assoc, listed]
    rfl

theorem scan_head (k : Kind) : scan .plain k.head.toList = (k.before, .plain) ∧ Token.symbol ';' ∉ k.before ∧
    '\x00' ∉ k.head.toList := by
  cases k
  all_goals
    unfold Kind.head Kind.before spaced
    simp only [-String.reduceAppend, String.toList_append, String.reduceToList]
    decide +kernel

theorem tokens_tail (k : Kind) : k.tail.toList = ')' :: k.tail.toList.tail ∧ tokens k.tail.toList = some k.after ∧
    Token.symbol ';' ∉ k.after ∧ '\x00' ∉ k.tail.toList := by
  cases k
  all_goals
    unfold Kind.tail Kind.after spaced
    simp only [-String.reduceAppend, String.toList_append, String.reduceToList]
    decide +kernel

theorem intercalate_cons (t : Token) (values : List (List Token)) : ∀ ts : List Token,
    [t].intercalate (ts :: values) = ts ++ values.flatMap (t :: ·) := by
  induction values with
  | nil => simp [List.intercalate]
  | cons ts' values ih =>
    intro ts
    rw [List.intercalate_cons_cons, ih ts', List.flatMap_cons, List.append_assoc, List.cons_append]
    rfl

/-- There is no symbol in a value. -/
theorem symbol_not_mem_tokens (x : Slot) (c : Char) : Token.symbol c ∉ x.tokens := by
  have hnumeral (text : List Char) : Token.symbol c ∉ numeral text := by
    unfold numeral
    split <;> simp
  cases x with
  | text s => simp [Slot.tokens]
  | decimal digits d => exact hnumeral _
  | integer i => exact hnumeral _
  | flag b => simp [Slot.tokens]

theorem separator_not_mem_statement (k : Kind) (xs : List Slot) :
    Token.symbol ';' ∉ k.statement (xs.map Slot.tokens) := by
  have hvalues : Token.symbol ';' ∉ [Token.symbol ','].intercalate (xs.map Slot.tokens) := by
    refine not_mem_intercalate (by decide) fun ts hts => ?_
    obtain ⟨x, -, rfl⟩ := List.mem_map.mp hts
    exact symbol_not_mem_tokens x ';'
  rw [Kind.statement, List.mem_append, List.mem_append, not_or, not_or]
  exact ⟨⟨(scan_head k).2.1, hvalues⟩, (tokens_tail k).2.2.1⟩

theorem tokens_record (r : Record) : tokens r.sql.toList = some (r.kind.statement (r.slots.map Slot.tokens)) := by
  obtain ⟨x, xs, hslots, hsql⟩ := sql_eq r
  obtain ⟨hclose, htail, -⟩ := tokens_tail r.kind
  obtain ⟨last, hlast, hafter⟩ := Option.map_eq_some_iff.mp htail
  have hitems : List.Forall₂ Item (xs.map (·.written.toList)) (xs.map Slot.tokens) := by
    rw [List.forall₂_map_left_iff, List.forall₂_map_right_iff, List.forall₂_same]
    exact fun _ _ => item_slot
  have hscan : scan .plain (')' :: r.kind.tail.toList.tail) =
      ((scan .plain r.kind.tail.toList).1, (scan .plain r.kind.tail.toList).2) := by rw [← hclose]
  have htokens := tokens_items (scan_head r.kind).1 (item_slot (x := x)) hitems (by simp) hscan hlast
  rw [← hclose] at htokens
  rw [hsql, String.toList_append, String.toList_append, String.toList_append, toList_listed, htokens, hslots,
    Kind.statement, List.map_cons, intercalate_cons, hafter]
  simp

/-- Whatever its texts hold, a record has the one statement of its kind: every text is a literal that denotes it, and
    nothing separates a second statement. -/
theorem tokens_sql (r : Record) : tokens r.sql.toList = some (r.kind.statement (r.slots.map Slot.tokens)) ∧
    Token.symbol ';' ∉ r.kind.statement (r.slots.map Slot.tokens) :=
  ⟨tokens_record r, separator_not_mem_statement r.kind r.slots⟩

end SqlBuilder
end CrashCore
