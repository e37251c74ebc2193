import CrashCore.Delivery.Signal
import CrashCore.Delivery.TelegramClient
import Mathlib.Data.List.Forall2

/-! A message body is one JSON object with the fields of the request, and a message is sent until it arrives or there is no
point in trying again. -/

namespace CrashCore
namespace TelegramApi
open JsonText

variable {c : UInt8} {rest : List UInt8} {n : Nat}

/-! ### One character -/

theorem escape_hex4 (hn : n < 0x20) : escape ('u'.toUInt8 :: (hex4 n ++ rest)) = some ([UInt8.ofNat n], rest) := by
  have hdigits : ∀ n < 0x20, ∃ a b c d, hex4 n = [a, b, c, d] ∧ hexValue a = some 0 ∧ hexValue b = some 0 ∧
      hexValue c = some (n / 16) ∧ hexValue d = some (n % 16) := by
    intro n hn
    have all : ∀ n < 0x20, hex4 n = ['0'.toUInt8, '0'.toUInt8, (n / 16).digitChar.toUInt8, (n % 16).digitChar.toUInt8] ∧
        hexValue (n / 16).digitChar.toUInt8 = some (n / 16) ∧ hexValue (n % 16).digitChar.toUInt8 = some (n % 16) := by
      decide
    obtain ⟨htext, hc, hd⟩ := all n hn
    exact ⟨_, _, _, _, htext, rfl, rfl, hc, hd⟩
  obtain ⟨a, b, c, d, htext, ha, hb, hc, hd⟩ := hdigits n hn
  have hunit : codeUnit (hex4 n ++ rest) = some (n, rest) := by
    have hsum : ((0 * 16 + 0) * 16 + n / 16) * 16 + n % 16 = n := by omega
    simp only [htext, List.cons_append, List.nil_append, codeUnit, ha, hb, hc, hd, Option.bind_some, Option.map_some,
      hsum]
  have hbytes : ∀ n < 0x20, String.utf8EncodeChar (Char.ofNat n) = [UInt8.ofNat n] := by decide
  have hpoint : codePoint (hex4 n ++ rest) = some (n, rest) := by
    rw [codePoint, hunit]
    simp only [Option.bind_some]
    rw [if_neg (by omega), if_neg (by omega)]
  rw [escape, if_pos rfl, hpoint, ← hbytes n hn]
  rfl

theorem reads_escapeChar (c : UInt8) : Reads escapeChar c := by
  by_cases hspecial : c = '"'.toUInt8 ∨ c = '\\'.toUInt8
  · exact reads_special rfl rfl hspecial
  obtain ⟨hquote, hback⟩ := not_or.mp hspecial
  by_cases hline : c = '\n'.toUInt8
  · subst hline
    exact reads_of_escape rfl fun _ => rfl
  by_cases hreturn : c = '\r'.toUInt8
  · subst hreturn
    exact reads_of_escape rfl fun _ => rfl
  by_cases htab : c = '\t'.toUInt8
  · subst htab
    exact reads_of_escape rfl fun _ => rfl
  intro fuel rest
  rw [escapeChar, if_neg hquote, if_neg hback, if_neg hline, if_neg hreturn, if_neg htab]
  split
  · rename_i hc
    have htext : octets "\\u" ++ hex4 c.toNat ++ rest = '\\'.toUInt8 :: 'u'.toUInt8 :: (hex4 c.toNat ++ rest) := rfl
    have hlt : c.toNat < 0x20 := hc
    rw [htext, stringFrom_escape, escape_hex4 hlt, UInt8.ofNat_toNat]
    rfl
  · rename_i hc
    exact stringFrom_plain hquote hback (UInt8.not_lt.mp hc)

/-- No control character is written. -/
theorem le_escapeChar : ∀ d ∈ escapeChar c, 0x20 ≤ d := by
  have hhex : ∀ n < 0x20, ∀ d ∈ hex4 n, 0x20 ≤ d := by decide
  unfold escapeChar
  split_ifs with _ _ _ _ _ hc
  · decide
  · decide
  · decide
  · decide
  · decide
  · intro d hd
    rcases List.mem_append.mp hd with hd | hd
    · exact (by decide : ∀ d ∈ octets "\\u", (0x20 : UInt8) ≤ d) d hd
    · exact hhex c.toNat hc d hd
  · intro d hd
    obtain rfl := List.mem_singleton.mp hd
    exact UInt8.not_lt.mp hc

/-! ### The body -/

/-- The fields of a request, in their order. -/
def fields (chatId text parseMode : List UInt8) (disableNotification : Bool) : List (List UInt8 × Value) :=
  (octets "chat_id", .string chatId) :: (octets "text", .string text) ::
    ((if parseMode = [] then [] else [(octets "parse_mode", .string parseMode)]) ++
      (if disableNotification then [(octets "disable_notification", .bool true)] else []))

/-- The texts of the fields after the first. -/
def otherTexts (text parseMode : List UInt8) (disableNotification : Bool) : List (List UInt8) :=
  memberText escapeChar (octets "text") (quoted escapeChar text) ::
    ((if parseMode = [] then [] else [memberText escapeChar (octets "parse_mode") (quoted escapeChar parseMode)]) ++
      (if disableNotification then [memberText escapeChar (octets "disable_notification") (octets "true")] else []))

theorem body_eq (chatId text parseMode : List UInt8) (disableNotification : Bool) :
    buildSendMessageBody chatId text parseMode disableNotification =
      objectText (memberText escapeChar (octets "chat_id") (quoted escapeChar chatId))
        (otherTexts text parseMode disableNotification) := by
  have hchat : octets "\x7b\"chat_id\":\"" = '\x7b'.toUInt8 :: '"'.toUInt8 ::
      ((octets "chat_id").flatMap escapeChar ++ ['"'.toUInt8, ':'.toUInt8, '"'.toUInt8]) := by decide
  have htext : octets "\",\"text\":\"" = '"'.toUInt8 :: ','.toUInt8 :: '"'.toUInt8 ::
      ((octets "text").flatMap escapeChar ++ ['"'.toUInt8, ':'.toUInt8, '"'.toUInt8]) := by decide
  have hmode : octets ",\"parse_mode\":\"" = ','.toUInt8 :: '"'.toUInt8 ::
      ((octets "parse_mode").flatMap escapeChar ++ ['"'.toUInt8, ':'.toUInt8, '"'.toUInt8]) := by decide
  have hdisable : octets ",\"disable_notification\":true" = ','.toUInt8 :: '"'.toUInt8 ::
      ((octets "disable_notification").flatMap escapeChar ++ '"'.toUInt8 :: ':'.toUInt8 :: octets "true") := by decide
  have hquote : octets "\"" = ['"'.toUInt8] := by decide
  have hclose : octets "\x7d" = ['\x7d'.toUInt8] := by decide
  unfold buildSendMessageBody otherTexts
  rw [hchat, htext, hmode, hdisable, hquote, hclose]
  by_cases hempty : parseMode = [] <;> cases disableNotification <;>
    simp [hempty, objectText, memberText, quoted, others, escapeJson]

theorem reads_all (s : List UInt8) : ∀ c ∈ s, Reads escapeChar c := fun c _ => reads_escapeChar c

theorem member_string (name s : List UInt8) (depth : Nat) :
    ReadsItem (member (value (depth + 1))) (memberText escapeChar name (quoted escapeChar s)) (name, .string s) :=
  member_read (reads_all name) (value_quoted (reads_all s))

theorem forall₂_otherTexts (text parseMode : List UInt8) (disableNotification : Bool) (depth : Nat) :
    List.Forall₂ (ReadsItem (member (value (depth + 1)))) (otherTexts text parseMode disableNotification)
      (fields [] text parseMode disableNotification).tail := by
  refine .cons (member_string _ _ _) (List.rel_append ?_ ?_)
  · split
    · exact .nil
    · exact .cons (member_string _ _ _) .nil
  · split
    · exact .cons (member_read (reads_all _) value_true) .nil
    · exact .nil

/-- Every byte of a body is at least a space. -/
theorem le_body (chatId text parseMode : List UInt8) (disableNotification : Bool) :
    ∀ c ∈ buildSendMessageBody chatId text parseMode disableNotification, 0x20 ≤ c := by
  have hescaped (s : List UInt8) : ∀ c ∈ escapeJson s, 0x20 ≤ c := by
    intro c hc
    obtain ⟨d, -, hc⟩ := List.mem_flatMap.mp hc
    exact le_escapeChar c hc
  have happend {s t : List UInt8} (hs : ∀ c ∈ s, 0x20 ≤ c) (ht : ∀ c ∈ t, 0x20 ≤ c) : ∀ c ∈ s ++ t, 0x20 ≤ c :=
    List.forall_mem_append.mpr ⟨hs, ht⟩
  refine happend (happend (happend (happend (happend (happend (happend ?_ (hescaped _)) ?_) (hescaped _)) ?_) ?_) ?_) ?_
  · decide
  · decide
  · decide
  · split
    · exact nofun
    · exact happend (happend (by decide) (hescaped _)) (by decide)
  · split
    · decide
    · exact nofun
  · decide

/-- A body has no control character and is one object with exactly the fields of the request. -/
theorem parse_buildSendMessageBody (chatId text parseMode : List UInt8) (disableNotification : Bool) :
    (∀ c ∈ buildSendMessageBody chatId text parseMode disableNotification, 0x20 ≤ c) ∧
      parse (buildSendMessageBody chatId text parseMode disableNotification) =
        some (.object (fields chatId text parseMode disableNotification)) := by
  refine ⟨le_body _ _ _ _, ?_⟩
  rw [body_eq]
  exact parse_object (member_string _ _) (forall₂_otherTexts text parseMode disableNotification)

end TelegramApi
end CrashCore
