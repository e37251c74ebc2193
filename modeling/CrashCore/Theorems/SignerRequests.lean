import CrashCore.Ingestion.ExternalSigner
import CrashCore.Library.Run
import Mathlib.Data.List.Chain
import Mathlib.Data.List.Forall2

/-! When a request to the signer is one line with one JSON object. Quotes and backslashes of the user agent are escaped,
control characters are not. -/

namespace CrashCore
namespace ExternalSignerClient
open JsonText

variable {c : UInt8} {userAgent line : Bytes} {ts : TimestampMs}

/-- The members of the object that a request should be. -/
def members (userAgent : Bytes) (ts : TimestampMs) : List (List UInt8 × Value) :=
  [(octets "op", .string (octets "sign")), (octets "ua", .string userAgent),
    (octets "ts", .number (octets (toString ts)))]

/-- One line, with the only newline at its end, that is the JSON object of the request. -/
def Framed (userAgent : Bytes) (ts : TimestampMs) (line : Bytes) : Prop :=
  ∃ body, line = body ++ ['\n'.toUInt8] ∧ '\n'.toUInt8 ∉ body ∧ parse body = some (.object (members userAgent ts))

/-- No byte of the user agent is a control character. -/
def Printable (userAgent : Bytes) : Prop := ∀ c ∈ userAgent, 0x20 ≤ c

/-! ### One byte -/

theorem reads_escapeChar (hc : 0x20 ≤ c) : Reads escapeChar c := by
  by_cases hspecial : c = '"'.toUInt8 ∨ c = '\\'.toUInt8
  · exact reads_special rfl rfl hspecial
  obtain ⟨hquote, hback⟩ := not_or.mp hspecial
  intro fuel rest
  rw [escapeChar, if_neg hspecial]
  exact stringFrom_plain hquote hback hc

theorem rejects_escapeChar (hc : c < 0x20) : Rejects escapeChar c := by
  have hquote : c ≠ '"'.toUInt8 := ne_of_control hc (by decide)
  have hback : c ≠ '\\'.toUInt8 := ne_of_control hc (by decide)
  intro fuel rest
  rw [escapeChar, if_neg (not_or.mpr ⟨hquote, hback⟩)]
  exact stringFrom_control hc

theorem reads_or_rejects (c : UInt8) : Reads escapeChar c ∨ Rejects escapeChar c :=
  (UInt8.le_or_lt 0x20 c).imp reads_escapeChar rejects_escapeChar

/-! ### The line -/

def body (userAgent : Bytes) (ts : TimestampMs) : Bytes :=
  objectText (memberText escapeChar (octets "op") (quoted escapeChar (octets "sign")))
    [memberText escapeChar (octets "ua") (quoted escapeChar userAgent),
      memberText escapeChar (octets "ts") (octets (toString ts))]

theorem request_eq (userAgent : Bytes) (ts : TimestampMs) : request userAgent ts = body userAgent ts ++ ['\n'.toUInt8] := by
  have hopen : octets "\x7b\"op\":\"sign\",\"ua\":\"" = '\x7b'.toUInt8 ::
      (memberText escapeChar (octets "op") (quoted escapeChar (octets "sign")) ++
        ','.toUInt8 :: (quoted escapeChar (octets "ua") ++ [':'.toUInt8, '"'.toUInt8])) := by decide
  have hts : octets "\",\"ts\":" = '"'.toUInt8 :: ','.toUInt8 :: (quoted escapeChar (octets "ts") ++ [':'.toUInt8]) := by
    decide
  have hclose : octets "\x7d\n" = ['\x7d'.toUInt8, '\n'.toUInt8] := by decide
  rw [request, hopen, hts, hclose]
  simp [body, objectText, others, memberText, quoted]

theorem reads_name {name : Bytes} (h : ∀ c ∈ name, 0x20 ≤ c) : ∀ c ∈ name, Reads escapeChar c :=
  fun c hc => reads_escapeChar (h c hc)

theorem member_op (depth : Nat) : ReadsItem (member (value (depth + 1)))
    (memberText escapeChar (octets "op") (quoted escapeChar (octets "sign"))) (octets "op", .string (octets "sign")) :=
  member_read (reads_name (by decide)) (value_quoted (reads_name (by decide)))

theorem member_ts (ts : TimestampMs) (depth : Nat) : ReadsItem (member (value (depth + 1)))
    (memberText escapeChar (octets "ts") (octets (toString ts))) (octets "ts", .number (octets (toString ts))) :=
  member_read (reads_name (by decide)) (value_int ts)

theorem parse_body (h : Printable userAgent) (ts : TimestampMs) :
    parse (body userAgent ts) = some (.object (members userAgent ts)) := by
  refine parse_object member_op fun depth => ?_
  have hua : ReadsItem (member (value (depth + 1))) (memberText escapeChar (octets "ua") (quoted escapeChar userAgent))
      (octets "ua", .string userAgent) := member_read (reads_name (by decide)) (value_quoted (reads_name h))
  exact .cons hua (.cons (member_ts ts depth) .nil)

/-- One control character in the user agent leaves no JSON. -/
theorem parse_body_of_not_printable (h : ¬Printable userAgent) (ts : TimestampMs) : parse (body userAgent ts) = none := by
  obtain ⟨c, hc, hlt⟩ : ∃ c ∈ userAgent, c < 0x20 := by simpa [Printable] using h
  refine parse_object_rejected (fun depth t ht => ?_)
    ⟨memberText escapeChar (octets "ua") (quoted escapeChar userAgent), by simp, fun depth => ?_⟩
  · rcases List.mem_cons.mp ht with rfl | ht
    · exact .inl ⟨_, member_op depth⟩
    rcases List.mem_cons.mp ht with rfl | ht
    · exact member_quoted_cases reads_or_rejects _ _ depth
    · obtain rfl := List.mem_singleton.mp ht
      exact .inl ⟨_, member_ts ts depth⟩
  · exact member_quoted_rejected reads_or_rejects ⟨c, List.mem_append_right _ hc, rejects_escapeChar hlt⟩

theorem le_body (h : Printable userAgent) (ts : TimestampMs) : ∀ c ∈ body userAgent ts, 0x20 ≤ c := by
  have hescaped : ∀ c ∈ userAgent.flatMap escapeChar, 0x20 ≤ c := by
    intro c hc
    obtain ⟨d, hd, hc⟩ := List.mem_flatMap.mp hc
    unfold escapeChar at hc
    split at hc
    · rcases List.mem_cons.mp hc with rfl | hc
      · decide
      · obtain rfl := List.mem_singleton.mp hc
        exact h c hd
    · obtain rfl := List.mem_singleton.mp hc
      exact h c hd
  have hrequest : ∀ c ∈ octets "\x7b\"op\":\"sign\",\"ua\":\"" ++ userAgent.flatMap escapeChar ++ octets "\",\"ts\":" ++
      octets (toString ts) ++ octets "\x7d", 0x20 ≤ c := by
    simp only [List.forall_mem_append]
    exact ⟨⟨⟨⟨by decide, hescaped⟩, by decide⟩, le_int ts⟩, by decide⟩
  have hbody : body userAgent ts = octets "\x7b\"op\":\"sign\",\"ua\":\"" ++ userAgent.flatMap escapeChar ++
      octets "\",\"ts\":" ++ octets (toString ts) ++ octets "\x7d" := by
    have hclose : octets "\x7d\n" = octets "\x7d" ++ ['\n'.toUInt8] := by decide
    have hrequest := request_eq userAgent ts
    rw [request, hclose, ← List.append_assoc] at hrequest
    exact (List.append_cancel_right hrequest).symm
  rwa [hbody]

/-- Whatever the signer and the system do, a request is framed exactly if its user agent has no control character. -/
theorem sign_framed_iff (client : ExternalSignerClient) (peer : SignerPeer)
    (hwritten : (client.sign peer userAgent ts).written = some line) : Framed userAgent ts line ↔ Printable userAgent := by
  obtain rfl := written_sign hwritten
  rw [request_eq]
  constructor
  · rintro ⟨text, htext, -, hparse⟩
    obtain rfl : body userAgent ts = text := List.append_cancel_right htext
    by_contra hno
    rw [parse_body_of_not_printable hno] at hparse
    cases hparse
  · intro h
    refine ⟨body userAgent ts, rfl, fun hmem => ?_, parse_body h ts⟩
    exact absurd (le_body h ts _ hmem) (by decide)

/-- A user agent with quotes. -/
theorem sign_framed_quotes :
    Framed (octets "UA \"x\"") 123 (octets "\x7b\"op\":\"sign\",\"ua\":\"UA \\\"x\\\"\",\"ts\":123\x7d\n") := by
  have hprintable : Printable (octets "UA \"x\"") :=
    (by decide : ∀ c ∈ octets "UA \"x\"", (0x20 : UInt8) ≤ c)
  exact (sign_framed_iff {} { taken := 39, reply := none } (by decide)).mpr hprintable

/-- A newline in the user agent makes two lines of the request. -/
theorem not_sign_framed : (({} : ExternalSignerClient).sign { taken := 34, reply := none } (octets "a\nb") 123).written =
      some (octets "\x7b\"op\":\"sign\",\"ua\":\"a\nb\",\"ts\":123\x7d\n") ∧
    ¬Framed (octets "a\nb") 123 (octets "\x7b\"op\":\"sign\",\"ua\":\"a\nb\",\"ts\":123\x7d\n") := by
  refine ⟨by decide, ?_⟩
  rintro ⟨text, htext, hline, -⟩
  have hmem : '\n'.toUInt8 ∈ text := by
    have hdrop := congrArg List.dropLast htext
    rw [List.dropLast_concat] at hdrop
    exact hdrop ▸ (by decide)
  exact hline hmem

end ExternalSignerClient
end CrashCore
