import CrashCore.Logging.JsonLogger
import Mathlib.Data.List.Forall2
import Mathlib.Data.List.Nodup

/-! When a log line is JSON. The escape writes the quote, the backslash and the newline; every other control character
goes into the line as it is, and no JSON string may have one. -/

namespace CrashCore
namespace JsonLogger
open JsonText

variable {ev : JsonLogEvent} {c : UInt8} {s : List UInt8}

/-- The members of the object that a line should be. -/
def members (ev : JsonLogEvent) : List (List UInt8 × Value) :=
  (octets "ts", .number (octets (toString ev.tsMs))) :: (octets "level", .string ev.level.toString) ::
    (octets "component", .string ev.component) :: (octets "msg", .string ev.message) ::
    ((if ev.correlationId = [] then [] else [(octets "correlationId", .string ev.correlationId)]) ++
      ev.fields.map fun (k, v) => (k, .string v))

def fixedNames : List (List UInt8) := ["ts", "level", "component", "msg", "correlationId"].map octets

/-- The line is one object, with the parts of the event under names of their own, and a newline. -/
def Valid (ev : JsonLogEvent) (line : List UInt8) : Prop :=
  ∃ body, line = body ++ ['\n'.toUInt8] ∧ (∀ c ∈ body, 0x20 ≤ c) ∧ parse body = some (.object (members ev)) ∧
    ((members ev).map (·.1)).Nodup

/-- The texts of an event that are escaped. -/
def texts (ev : JsonLogEvent) : List (List UInt8) :=
  ev.component :: ev.message :: ev.correlationId :: ev.fields.flatMap fun (k, v) => [k, v]

/-- No text has a control character other than the newline. -/
def Printable (ev : JsonLogEvent) : Prop := ∀ s ∈ texts ev, ∀ c ∈ s, c < 0x20 → c = '\n'.toUInt8

instance : DecidablePred Printable := fun ev =>
  inferInstanceAs (Decidable (∀ s ∈ texts ev, ∀ c ∈ s, c < 0x20 → c = '\n'.toUInt8))

/-! ### One character -/

theorem reads_escapeChar (h : c < 0x20 → c = '\n'.toUInt8) : Reads escapeChar c := by
  by_cases hspecial : c = '"'.toUInt8 ∨ c = '\\'.toUInt8
  · exact reads_special rfl rfl hspecial
  obtain ⟨hquote, hback⟩ := not_or.mp hspecial
  by_cases hline : c = '\n'.toUInt8
  · subst hline
    exact reads_of_escape rfl fun _ => rfl
  intro fuel rest
  rw [escapeChar, if_neg hquote, if_neg hback, if_neg hline]
  exact stringFrom_plain hquote hback (UInt8.not_lt.mp fun hc => hline (h hc))

theorem escapeChar_control (hc : c < 0x20) (hline : c ≠ '\n'.toUInt8) : escapeChar c = [c] := by
  have hquote : c ≠ '"'.toUInt8 := ne_of_control hc (by decide)
  have hback : c ≠ '\\'.toUInt8 := ne_of_control hc (by decide)
  rw [escapeChar, if_neg hquote, if_neg hback, if_neg hline]

theorem rejects_escapeChar (hc : c < 0x20) (hline : c ≠ '\n'.toUInt8) : Rejects escapeChar c := by
  intro fuel rest
  rw [escapeChar_control hc hline]
  exact stringFrom_control hc

theorem reads_or_rejects (c : UInt8) : Reads escapeChar c ∨ Rejects escapeChar c := by
  by_cases h : c < 0x20 → c = '\n'.toUInt8
  · exact .inl (reads_escapeChar h)
  · obtain ⟨hc, hline⟩ := Classical.not_imp.mp h
    exact .inr (rejects_escapeChar hc hline)

theorem le_escapeChar (h : c < 0x20 → c = '\n'.toUInt8) : ∀ d ∈ escapeChar c, 0x20 ≤ d := by
  unfold escapeChar
  split_ifs with hquote hback hline
  · decide
  · decide
  · decide
  · intro d hd
    obtain rfl := List.mem_singleton.mp hd
    exact UInt8.not_lt.mp fun hc => hline (h hc)

/-! ### The line -/

def firstText (ev : JsonLogEvent) : List UInt8 := memberText escapeChar (octets "ts") (octets (toString ev.tsMs))

def fieldText (f : List UInt8 × List UInt8) : List UInt8 := memberText escapeChar f.1 (quoted escapeChar f.2)

/-- The members with a string. -/
def stringMembers (ev : JsonLogEvent) : List (List UInt8 × List UInt8) :=
  (octets "level", ev.level.toString) :: (octets "component", ev.component) :: (octets "msg", ev.message) ::
    ((if ev.correlationId = [] then [] else [(octets "correlationId", ev.correlationId)]) ++ ev.fields)

def body (ev : JsonLogEvent) : List UInt8 := objectText (firstText ev) ((stringMembers ev).map fieldText)

theorem members_eq : members ev = (octets "ts", .number (octets (toString ev.tsMs))) ::
    (stringMembers ev).map fun (k, v) => (k, .string v) := by
  unfold members stringMembers
  split <;> rfl

/-- What is written for a member after a comma. -/
def fieldPart (f : List UInt8 × List UInt8) : List UInt8 :=
  octets ",\"" ++ escape f.1 ++ octets "\":\"" ++ escape f.2 ++ octets "\""

theorem others_eq (fs : List (List UInt8 × List UInt8)) : others (fs.map fieldText) = fs.flatMap fieldPart := by
  rw [others, List.flatMap_map]
  refine List.flatMap_congr fun f _ => ?_
  have hopen : octets ",\"" = [','.toUInt8, '"'.toUInt8] := by decide
  have hmid : octets "\":\"" = ['"'.toUInt8, ':'.toUInt8, '"'.toUInt8] := by decide
  have hclose : octets "\"" = ['"'.toUInt8] := by decide
  rw [fieldPart, hopen, hmid, hclose]
  simp [fieldText, memberText, quoted, escape]

theorem writeLine_eq (ev : JsonLogEvent) : writeLine ev = body ev ++ ['\n'.toUInt8] := by
  have hts : octets "\x7b\"ts\":" = '\x7b'.toUInt8 :: (quoted escapeChar (octets "ts") ++ [':'.toUInt8]) := by decide
  have hend : octets "\x7d\n" = ['\x7d'.toUInt8, '\n'.toUInt8] := by decide
  have hlevel : escape ev.level.toString = ev.level.toString := by cases ev.level <;> rfl
  have hlevelName : octets ",\"level\":\"" = octets ",\"" ++ escape (octets "level") ++ octets "\":\"" := by decide
  have hcomponent : octets "\",\"component\":\"" =
      octets "\"" ++ (octets ",\"" ++ escape (octets "component") ++ octets "\":\"") := by decide
  have hmsg : octets "\",\"msg\":\"" = octets "\"" ++ (octets ",\"" ++ escape (octets "msg") ++ octets "\":\"") := by decide
  have hcorrelation : octets ",\"correlationId\":\"" =
      octets ",\"" ++ escape (octets "correlationId") ++ octets "\":\"" := by decide
  have hfields : (fun (k, v) => octets ",\"" ++ escape k ++ octets "\":\"" ++ escape v ++ octets "\"") = fieldPart := rfl
  rw [writeLine, body, objectText, others_eq, firstText, memberText, hfields, hts, hend, hlevelName, hcomponent, hmsg,
    hcorrelation]
  unfold stringMembers
  by_cases hempty : ev.correlationId = []
  · simp [hempty, fieldPart, hlevel]
  · simp [hempty, fieldPart, hlevel]

/-! ### Reading the line back -/

theorem reads_plain (h : ∀ c ∈ s, c < 0x20 → c = '\n'.toUInt8) : ∀ c ∈ s, Reads escapeChar c :=
  fun c hc => reads_escapeChar (h c hc)

theorem level_plain (l : JsonLogLevel) : ∀ c ∈ l.toString, c < 0x20 → c = '\n'.toUInt8 := by
  cases l <;> decide

theorem mem_texts {f : List UInt8 × List UInt8} (hf : f ∈ ev.fields) : f.1 ∈ texts ev ∧ f.2 ∈ texts ev := by
  have hmem : ∀ s ∈ [f.1, f.2], s ∈ texts ev := fun s hs =>
    List.mem_cons_of_mem _ (List.mem_cons_of_mem _ (List.mem_cons_of_mem _ (List.mem_flatMap.mpr ⟨f, hf, hs⟩)))
  exact ⟨hmem _ List.mem_cons_self, hmem _ (List.mem_cons_of_mem _ List.mem_cons_self)⟩

/-- Every text of a line with strings is of the event, or fixed and plain. -/
theorem stringMembers_plain (h : Printable ev) {f : List UInt8 × List UInt8} (hf : f ∈ stringMembers ev) :
    ∀ c ∈ f.1 ++ f.2, c < 0x20 → c = '\n'.toUInt8 := by
  have hname : ∀ name ∈ fixedNames, ∀ c ∈ name, c < 0x20 → c = '\n'.toUInt8 := by decide
  have hboth {k v : List UInt8} (hk : k ∈ fixedNames) (hv : ∀ c ∈ v, c < 0x20 → c = '\n'.toUInt8) :
      ∀ c ∈ k ++ v, c < 0x20 → c = '\n'.toUInt8 := List.forall_mem_append.mpr ⟨hname k hk, hv⟩
  unfold stringMembers at hf
  rcases List.mem_cons.mp hf with rfl | hf
  · exact hboth (by simp [fixedNames]) (level_plain ev.level)
  rcases List.mem_cons.mp hf with rfl | hf
  · exact hboth (by simp [fixedNames]) (h _ (by simp [texts]))
  rcases List.mem_cons.mp hf with rfl | hf
  · exact hboth (by simp [fixedNames]) (h _ (by simp [texts]))
  rcases List.mem_append.mp hf with hf | hf
  · split at hf
    · cases hf
    · obtain rfl := List.mem_singleton.mp hf
      exact hboth (by simp [fixedNames]) (h _ (by simp [texts]))
  · exact List.forall_mem_append.mpr ⟨h _ (mem_texts hf).1, h _ (mem_texts hf).2⟩

theorem member_ts (ev : JsonLogEvent) (depth : Nat) : ReadsItem (member (value (depth + 1))) (firstText ev)
    (octets "ts", .number (octets (toString ev.tsMs))) :=
  member_read (reads_plain (by decide)) (value_int ev.tsMs)

theorem parse_body (h : Printable ev) : parse (body ev) = some (.object (members ev)) := by
  rw [members_eq]
  refine parse_object (member_ts ev) fun depth => ?_
  rw [List.forall₂_map_left_iff, List.forall₂_map_right_iff, List.forall₂_same]
  intro f hf
  have hplain := stringMembers_plain h hf
  exact member_read (reads_plain fun c hc => hplain c (List.mem_append_left _ hc))
    (value_quoted (reads_plain fun c hc => hplain c (List.mem_append_right _ hc)))

/-- Every byte of the event's texts goes into a member. -/
theorem exists_stringMember (hs : s ∈ texts ev) (hc : c ∈ s) : ∃ f ∈ stringMembers ev, c ∈ f.1 ++ f.2 := by
  rcases List.mem_cons.mp hs with rfl | hs
  · exact ⟨(octets "component", ev.component), by simp [stringMembers], List.mem_append_right _ hc⟩
  rcases List.mem_cons.mp hs with rfl | hs
  · exact ⟨(octets "msg", ev.message), by simp [stringMembers], List.mem_append_right _ hc⟩
  rcases List.mem_cons.mp hs with rfl | hs
  · have hne : ev.correlationId ≠ [] := List.ne_nil_of_mem hc
    exact ⟨(octets "correlationId", ev.correlationId), by simp [stringMembers, hne], List.mem_append_right _ hc⟩
  · obtain ⟨f, hf, hmem⟩ := List.mem_flatMap.mp hs
    refine ⟨f, by simp [stringMembers, hf], ?_⟩
    rcases List.mem_cons.mp hmem with rfl | hmem
    · exact List.mem_append_left _ hc
    · obtain rfl := List.mem_singleton.mp hmem
      exact List.mem_append_right _ hc

/-- A control character other than the newline leaves no JSON. -/
theorem parse_body_of_not_printable (h : ¬Printable ev) : parse (body ev) = none := by
  have hbad : ∃ f ∈ stringMembers ev, ∃ c ∈ f.1 ++ f.2, Rejects escapeChar c := by
    by_contra hno
    refine h fun s hs c hc hlt => by_contra fun hline => ?_
    obtain ⟨f, hf, hmem⟩ := exists_stringMember hs hc
    exact hno ⟨f, hf, c, hmem, rejects_escapeChar hlt hline⟩
  obtain ⟨f, hf, hrej⟩ := hbad
  refine parse_object_rejected (fun depth t' ht' => ?_) ⟨fieldText f, ?_, fun depth => ?_⟩
  · rcases List.mem_cons.mp ht' with rfl | ht'
    · exact .inl ⟨_, member_ts ev depth⟩
    · obtain ⟨g, -, rfl⟩ := List.mem_map.mp ht'
      exact member_quoted_cases reads_or_rejects _ _ depth
  · exact List.mem_cons_of_mem _ (List.mem_map_of_mem hf)
  · exact member_quoted_rejected reads_or_rejects hrej

theorem le_body (h : Printable ev) : ∀ c ∈ body ev, 0x20 ≤ c := by
  have hescaped {t : List UInt8} (ht : ∀ c ∈ t, c < 0x20 → c = '\n'.toUInt8) :
      ∀ c ∈ t.flatMap escapeChar, 0x20 ≤ c := by
    intro c hc
    obtain ⟨d, hd, hc⟩ := List.mem_flatMap.mp hc
    exact le_escapeChar (ht d hd) c hc
  have hnumber : ∀ c ∈ octets (toString ev.tsMs), 0x20 ≤ c := le_int ev.tsMs
  have hfirst : ∀ c ∈ firstText ev, 0x20 ≤ c := by
    intro c hc
    have hname : ∀ c ∈ quoted escapeChar (octets "ts"), 0x20 ≤ c := by decide
    rcases List.mem_append.mp hc with hc | hc
    · exact hname c hc
    · rcases List.mem_cons.mp hc with rfl | hc
      · decide
      · exact hnumber c hc
  intro c hc
  rcases List.mem_cons.mp hc with rfl | hc
  · decide
  rcases List.mem_append.mp hc with hc | hc
  · exact hfirst c hc
  rcases List.mem_append.mp hc with hc | hc
  · rw [others_eq] at hc
    obtain ⟨f, hf, hc⟩ := List.mem_flatMap.mp hc
    have hplain := stringMembers_plain h hf
    have hk := hescaped fun c hc => hplain c (List.mem_append_left _ hc)
    have hv := hescaped fun c hc => hplain c (List.mem_append_right _ hc)
    have happend {s t : List UInt8} (hs : ∀ c ∈ s, 0x20 ≤ c) (ht : ∀ c ∈ t, 0x20 ≤ c) : ∀ c ∈ s ++ t, 0x20 ≤ c :=
      List.forall_mem_append.mpr ⟨hs, ht⟩
    exact happend (happend (happend (happend (by decide) hk) (by decide)) hv) (by decide) c hc
  · obtain rfl := List.mem_singleton.mp hc
    decide

theorem nodup_names (h : ∀ f ∈ ev.fields, f.1 ∉ fixedNames) : ((members ev).map (·.1)).Nodup := by
  have hnames : (members ev).map (·.1) = [octets "ts", octets "level", octets "component", octets "msg"] ++
      ((if ev.correlationId = [] then [] else [octets "correlationId"]) ++ ev.fields.map (·.1)) := by
    unfold members
    split <;> simp
  have hfixed : ((if ev.correlationId = [] then [] else [octets "correlationId"]) : List (List UInt8)).Nodup ∧
      ∀ name ∈ [octets "ts", octets "level", octets "component", octets "msg"],
        name ∉ if ev.correlationId = [] then [] else [octets "correlationId"] := by
    split <;> decide
  have hother {name : List UInt8} (hname : name ∈ fixedNames) : name ∉ ev.fields.map (·.1) := by
    intro hmem
    obtain ⟨f, hf, rfl⟩ := List.mem_map.mp hmem
    exact h f hf hname
  rw [hnames]
  refine List.nodup_append'.mpr ⟨by decide, List.nodup_append'.mpr ⟨hfixed.1, ev.keys_nodup, ?_⟩, ?_⟩
  · intro name hname
    refine hother ?_
    split at hname
    · cases hname
    · obtain rfl := List.mem_singleton.mp hname
      simp [fixedNames]
  · intro name hname hmem
    rcases List.mem_append.mp hmem with hmem | hmem
    · exact hfixed.2 name hname hmem
    · refine hother ?_ hmem
      exact (by decide : [octets "ts", octets "level", octets "component", octets "msg"] ⊆ fixedNames) hname

/-- A line is one JSON object with the parts of its event exactly if no text of the event has a control character other
    than the newline. -/
theorem writeLine_valid_iff (h : ∀ f ∈ ev.fields, f.1 ∉ fixedNames) : Valid ev (writeLine ev) ↔ Printable ev := by
  refine ⟨fun hvalid => ?_, fun hplain => ⟨body ev, writeLine_eq ev, le_body hplain, parse_body hplain, nodup_names h⟩⟩
  obtain ⟨text, htext, -, hparse, -⟩ := hvalid
  obtain rfl : body ev = text := List.append_cancel_right ((writeLine_eq ev).symm.trans htext)
  by_contra hno
  rw [parse_body_of_not_printable hno] at hparse
  cases hparse

def startedEvent : JsonLogEvent where
  component := octets "app"
  message := octets "started\n\"ok\""
  correlationId := []
  fields := [(octets "worker", octets "w\\1")]
  keys_nodup := by decide
  tsMs := 1700000000000

theorem writeLine_valid_started : Valid startedEvent (writeLine startedEvent) :=
  (writeLine_valid_iff (by decide)).mpr (by decide)

def tabbedEvent : JsonLogEvent where
  component := octets "app"
  message := octets "a\tb"
  correlationId := []
  fields := []
  keys_nodup := by decide

/-- A tab in the message goes into the line as it is. -/
theorem not_writeLine_valid_tab : (∀ f ∈ tabbedEvent.fields, f.1 ∉ fixedNames) ∧
    writeLine tabbedEvent =
      octets "\x7b\"ts\":0,\"level\":\"info\",\"component\":\"app\",\"msg\":\"a\tb\"\x7d\n" ∧
    ¬Valid tabbedEvent (writeLine tabbedEvent) := by
  refine ⟨nofun, by decide, ?_⟩
  rintro ⟨text, htext, hle, -⟩
  have hmem : '\t'.toUInt8 ∈ text := by
    have hmem : '\t'.toUInt8 ∈ text ++ ['\n'.toUInt8] := htext ▸ (by decide)
    exact (List.mem_append.mp hmem).resolve_right (by decide)
  exact absurd (hle _ hmem) (by decide)

end JsonLogger
end CrashCore
