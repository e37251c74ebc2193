import CrashCore.Delivery.TelegramClient

/-! A message is sent until it arrives or there is no point in trying again. -/

namespace CrashCore

theorem strtoll_toString {i : Int} (hlow : -2 ^ 63 ≤ i) (hhigh : i < 2 ^ 63) : strtoll (toString i).toList = i := by
  have hspace : (toString i).toList.dropWhile [' ', '\t', '\n', '\x0b', '\x0c', '\r'].contains = (toString i).toList := by
    rcases htext : (toString i).toList with _ | ⟨c, text⟩
    · rfl
    · have hc : c = '-' ∨ c.isDigit = true := Decimal.mem_int (i := i) (htext ▸ List.mem_cons_self)
      refine List.dropWhile_cons_of_neg fun hspace => ?_
      rcases hc with rfl | hdigit
      · cases hspace
      · have hmem : c ∈ [' ', '\t', '\n', '\x0b', '\x0c', '\r'] := List.contains_iff_mem.mp hspace
        simp only [List.mem_cons, List.not_mem_nil, or_false] at hmem
        rcases hmem with rfl | rfl | rfl | rfl | rfl | rfl <;> cases hdigit
  rw [strtoll, hspace, Decimal.signed_natural_toString]
  omega

theorem strtoll_range (text : List Char) : -2 ^ 63 ≤ strtoll text ∧ strtoll text < 2 ^ 63 := by
  unfold strtoll
  dsimp only
  omega

namespace TelegramClient

variable {c : TelegramClient} {text : List UInt8} {answer : Nat → Except Error HttpResponse} {now : Nat → TimestampMs}
  {i : Nat} {lastErr : Error}

theorem bmod_eq_self {x : Int} {m : Nat} (hlow : 0 ≤ x) (hhigh : 2 * x < m) : x.bmod m = x :=
  Int.bmod_eq_of_le (by omega) (by omega)

/-- The pauses that grow with the turns fit their type this far. -/
theorem growingMs_eq {unit : Int} (hlow : 0 ≤ unit) (hhigh : unit ≤ 500) (hturn : 500 * ((i : Int) + 1) < 2 ^ 31) :
    growingMs unit i = unit * (i + 1) := by
  have hpos : 0 ≤ unit * ((i : Int) + 1) := mul_nonneg hlow (by omega)
  have hle : unit * ((i : Int) + 1) ≤ 500 * (i + 1) := mul_le_mul_of_nonneg_right hhigh (by omega)
  exact bmod_eq_self hpos (by norm_num at hturn ⊢; omega)

/-- The pause that a rate limit asks for gets through the text of the error. -/
theorem rateLimitMs_retryAfter {sec : Int} (hturn : 500 * ((i : Int) + 1) < 2 ^ 31) (hlow : -2 ^ 63 ≤ sec)
    (hfits : sec * 1000 < 2 ^ 63) :
    rateLimitMs i ("rate limited retry_after=" ++ toString sec) = if 0 < sec then sec * 1000 else 500 * (i + 1) := by
  have htext : ("rate limited retry_after=" ++ toString sec).toList =
      "rate limited ".toList ++ "retry_after=".toList ++ (toString sec).toList := by
    rw [String.toList_append]
    rfl
  have hfind : TextSearch.find ("rate limited retry_after=" ++ toString sec).toList "retry_after=".toList 0 = some 13 := by
    rw [htext]
    rfl
  have hdrop : ("rate limited retry_after=" ++ toString sec).toList.drop (13 + 12) = (toString sec).toList := by
    rw [htext]
    rfl
  simp only [rateLimitMs, hfind, hdrop, strtoll_toString hlow (show sec < 2 ^ 63 by omega),
    growingMs_eq (show (0 : Int) ≤ 500 by decide) le_rfl hturn]
  split
  · exact bmod_eq_self (by omega) (by omega)
  · rfl

/-- What turn `i` finds out. -/
def outcome (answer : Nat → Except Error HttpResponse) (i : Nat) : Except Error TelegramResponse :=
  match answer i with
  | .error e => .error e
  | .ok http => parseResponse http

/-- The message has arrived, or the credentials are refused. -/
def Settled : Except Error TelegramResponse → Prop
  | .ok _ => True
  | .error e => e.code = .authFailed

instance : DecidablePred Settled
  | .ok _ => .isTrue trivial
  | .error _ => inferInstanceAs (Decidable (_ = _))

/-- The request did not get through. -/
def Broken (answer : Nat → Except Error HttpResponse) (i : Nat) : Bool := !(answer i).isOk

/-- The pause after turn `i`. -/
def pauseMs (answer : Nat → Except Error HttpResponse) (i : Nat) : Int :=
  match answer i with
  | .ok http =>
    if http.status = 429 then
      let sec := (numberAfter http.body "\"retry_after\"").getD 1
      if 0 < sec then sec * 1000 else 500 * (i + 1)
    else 100 * (i + 1)
  | .error e => if e.code = .rateLimited then rateLimitMs i e.message else 100 * (i + 1)

/-- The pause that a rate limit of turn `i` asks for fits its type. -/
def LimitFits (answer : Nat → Except Error HttpResponse) (i : Nat) : Prop :=
  ∀ http, answer i = .ok http → http.status = 429 → (numberAfter http.body "\"retry_after\"").getD 1 * 1000 < 2 ^ 63

theorem numberAfter_range (body : List Char) (key : String) :
    -2 ^ 63 ≤ (numberAfter body key).getD 1 := by
  rcases h : numberAfter body key with _ | sec
  · decide
  · obtain ⟨pos, -, colon, -, hsec⟩ := by
      simpa only [numberAfter, Option.bind_eq_bind, Option.bind_eq_some_iff] using h
    obtain rfl := Option.some.inj hsec
    exact (strtoll_range _).1

theorem sleep_eq {e : Error} (hturn : 500 * ((i : Int) + 1) < 2 ^ 31) (hfits : LimitFits answer i)
    (h : outcome answer i = .error e) :
    (if e.code = .rateLimited then rateLimitMs i e.message else growingMs 100 i) = pauseMs answer i := by
  rw [growingMs_eq (by decide) (by decide) hturn]
  unfold outcome at h
  unfold pauseMs
  rcases hanswer : answer i with e' | http <;> simp only [hanswer] at h ⊢
  · cases h
    rfl
  · unfold parseResponse at h
    by_cases hok : http.ok = true
    · have hstatus : http.status ≠ 429 := by
        have hrange : 200 ≤ http.status ∧ http.status < 300 := by simpa [HttpResponse.ok] using hok
        omega
      rw [if_neg (not_not_intro hok)] at h
      dsimp only at h
      split at h <;> cases h
      rw [if_neg (by decide), if_neg hstatus]
    · rw [if_pos hok] at h
      dsimp only at h
      by_cases hstatus : http.status = 429
      · rw [if_pos hstatus] at h ⊢
        cases h
        exact rateLimitMs_retryAfter hturn (numberAfter_range http.body "\"retry_after\"") (hfits http hanswer hstatus)
      · rw [if_neg hstatus] at h ⊢
        split at h <;> cases h <;> exact if_neg fun h => by cases h

/-- What is left of a call at turn `i`, `left` turns before its end: `tries` turns that settle nothing, and one more that
    does if there is one. -/
structure Tried (c : TelegramClient) (text : List UInt8) (answer : Nat → Except Error HttpResponse) (left i : Nat)
    (lastErr : Error) (r : Sending) (tries : Nat) : Prop where
  le : tries ≤ left
  unsettled : ∀ j < tries, ¬Settled (outcome answer (i + j))
  sleeps : r.sleeps = (List.range tries).map fun j => pauseMs answer (i + j)
  ends : (tries = left ∧ r.requests = List.replicate tries (c.request text) ∧ r.client.sent = c.sent ∧
      r.client.failed = c.failed + (List.range tries).countP (fun j => Broken answer (i + j)) + 1 ∧
      r.result = if tries = 0 then .error lastErr else outcome answer (i + tries - 1)) ∨
    (tries < left ∧ Settled (outcome answer (i + tries)) ∧ r.requests = List.replicate (tries + 1) (c.request text) ∧
      r.result = outcome answer (i + tries) ∧
      r.client.sent = c.sent + (if r.result.isOk then 1 else 0) ∧
      r.client.failed = c.failed + (List.range (tries + 1)).countP (fun j => Broken answer (i + j)) +
        if r.result.isOk then 0 else 1)

/-- One request, with its answer. -/
theorem sendMessage_spec (text : List UInt8) (answer : Nat → Except Error HttpResponse) (i : Nat)
    (hvalid : c.creds.valid = true) :
    c.sendMessage text (answer i) =
      { client := { c with failed := c.failed + if Broken answer i then 1 else 0 }
        requests := [c.request text]
        result := outcome answer i } := by
  unfold sendMessage outcome Broken
  rw [if_neg (not_not_intro hvalid)]
  rcases answer i with e | http <;> rfl

theorem countP_range_succ (p : Nat → Bool) (n : Nat) :
    (List.range (n + 1)).countP p = (if p 0 then 1 else 0) + (List.range n).countP fun j => p (j + 1) := by
  rw [List.range_succ_eq_map, List.countP_cons, List.countP_map, Nat.add_comm]
  rfl

theorem retryFrom_settled (text : List UInt8) (now : Nat → TimestampMs) (lastErr : Error) (left : Nat)
    (hvalid : c.creds.valid = true) (h : Settled (outcome answer i)) :
    ∃ lastSentMs, retryFrom text answer now (left + 1) i c lastErr =
      { client := { c with
          lastSentMs
          sent := c.sent + if (outcome answer i).isOk then 1 else 0
          failed := c.failed + (if Broken answer i then 1 else 0) + if (outcome answer i).isOk then 0 else 1 }
        requests := [c.request text]
        result := outcome answer i } := by
  have hsend := sendMessage_spec text answer i hvalid
  rcases hout : outcome answer i with e | resp
  · have hauth : e.code = .authFailed := by simpa [hout, Settled] using h
    exact ⟨c.lastSentMs, by simp [retryFrom, hsend, hout, hauth, Except.isOk, Except.toBool]⟩
  · exact ⟨now i, by simp [retryFrom, hsend, hout, Except.isOk, Except.toBool]⟩

theorem retryFrom_unsettled (text : List UInt8) (now : Nat → TimestampMs) (lastErr : Error) (left : Nat)
    (hvalid : c.creds.valid = true) (hturn : 500 * ((i : Int) + 1) < 2 ^ 31) (hfits : LimitFits answer i)
    (h : ¬Settled (outcome answer i)) :
    ∃ e, outcome answer i = .error e ∧
      let later := retryFrom text answer now left (i + 1) { c with failed := c.failed + if Broken answer i then 1 else 0 } e
      retryFrom text answer now (left + 1) i c lastErr =
        { later with requests := c.request text :: later.requests, sleeps := pauseMs answer i :: later.sleeps } := by
  have hsend := sendMessage_spec text answer i hvalid
  rcases hout : outcome answer i with e | resp
  · have hauth : ¬e.code = .authFailed := by simpa [hout, Settled] using h
    refine ⟨e, rfl, ?_⟩
    simp only [retryFrom, hsend, hout, hauth, if_false, sleep_eq hturn hfits hout, List.singleton_append]
  · exact absurd (show Settled (outcome answer i) by rw [hout]; trivial) h

theorem tried_retryFrom (lastErr : Error) (hvalid : c.creds.valid = true) (left : Nat)
    (hturns : 500 * ((i : Int) + left) < 2 ^ 31) (hfits : ∀ j < left, LimitFits answer (i + j)) :
    ∃ tries, Tried c text answer left i lastErr (retryFrom text answer now left i c lastErr) tries := by
  induction left generalizing i c lastErr with
  | zero =>
    refine ⟨0, Nat.le_refl 0, fun j hj => absurd hj (Nat.not_lt_zero j), rfl, .inl ⟨rfl, rfl, rfl, ?_, rfl⟩⟩
    simp [retryFrom]
  | succ left ih =>
    by_cases hsettled : Settled (outcome answer i)
    · obtain ⟨lastSentMs, heq⟩ := retryFrom_settled text now lastErr left hvalid hsettled
      rw [heq]
      refine ⟨0, Nat.zero_le _, fun j hj => absurd hj (Nat.not_lt_zero j), rfl,
        .inr ⟨Nat.succ_pos left, hsettled, rfl, rfl, rfl, ?_⟩⟩
      simp
    · have hshift (j : Nat) : i + 1 + j = i + (j + 1) := by omega
      have hturn : 500 * ((i : Int) + 1) < 2 ^ 31 := by omega
      have hfirst : LimitFits answer i := hfits 0 (Nat.succ_pos left)
      obtain ⟨e, hout, heq⟩ := retryFrom_unsettled text now lastErr left hvalid hturn hfirst hsettled
      rw [heq]
      obtain ⟨tries, hle, hunsettled, hsleeps, hends⟩ :=
        ih (c := { c with failed := c.failed + if Broken answer i then 1 else 0 }) (i := i + 1) e hvalid (by omega)
          fun j hj => (hshift j).symm ▸ hfits (j + 1) (by omega)
      simp only [hshift] at hunsettled hsleeps hends
      refine ⟨tries + 1, Nat.succ_le_succ hle, ?_, ?_, hends.imp ?_ ?_⟩
      · rintro (_ | j) hj
        · exact hsettled
        · exact hunsettled j (Nat.lt_of_succ_lt_succ hj)
      · rw [List.range_succ_eq_map, List.map_cons, List.map_map]
        exact congrArg (pauseMs answer i :: ·) hsleeps
      · rintro ⟨rfl, hrequests, hsent, hfailed, hresult⟩
        refine ⟨rfl, ?_, hsent, ?_, ?_⟩
        · exact congrArg (c.request text :: ·) hrequests
        · dsimp only at hfailed ⊢
          simp only [countP_range_succ, Nat.add_zero]
          omega
        · dsimp only
          rw [hresult, if_neg (Nat.succ_ne_zero tries)]
          split
          · subst_vars
            exact hout.symm
          · rfl
      · rintro ⟨hlt, hsettledLast, hrequests, hresult, hsent, hfailed⟩
        refine ⟨Nat.succ_lt_succ hlt, hsettledLast, ?_, hresult, hsent, ?_⟩
        · exact congrArg (c.request text :: ·) hrequests
        · rw [countP_range_succ]
          simp only [Nat.add_zero] at hfailed ⊢
          omega

/-- A message with retries. With usable credentials there is a number of tries that settle nothing, each followed by its
    pause, and then the one that settles it, if the retries last: success, or credentials that are refused. Each request is
    the same, the result is that of the last try, and what is counted as failed are the requests that did not get through
    and the message itself. Without such credentials nothing is requested. The pauses must fit their types: those that
    grow with the turns as an `int`, those that a rate limit asks for as an `int64`. -/
theorem sendMessageWithRetry_spec (c : TelegramClient) (text : List UInt8) (answer : Nat → Except Error HttpResponse)
    (now : Nat → TimestampMs) (maxRetries : Int) (hturns : 500 * maxRetries < 2 ^ 31)
    (hfits : ∀ i < maxRetries.toNat, LimitFits answer i) :
    (c.creds.valid = true → ∃ tries, Tried c text answer maxRetries.toNat 0 ⟨.networkError, "no attempt"⟩
      (c.sendMessageWithRetry text answer now maxRetries) tries) ∧
    (c.creds.valid = false →
      (c.sendMessageWithRetry text answer now maxRetries).requests = [] ∧
      (c.sendMessageWithRetry text answer now maxRetries).sleeps = [] ∧
      (c.sendMessageWithRetry text answer now maxRetries).client = { c with failed := c.failed + 1 }) := by
  refine ⟨fun hvalid => ?_, fun hinvalid => ?_⟩
  · refine tried_retryFrom _ hvalid _ (by omega) fun j hj => ?_
    rw [Nat.zero_add]
    exact hfits j hj
  rw [sendMessageWithRetry]
  rcases maxRetries.toNat with _ | left
  · exact ⟨rfl, rfl, rfl⟩
  · simp [retryFrom, sendMessage, hinvalid]

/-- A rate limit of two seconds, a request that is lost, and success. -/
def thirdTry : Nat → Except Error HttpResponse
  | 0 => .ok { status := 429, body := "\"retry_after\": 2".toList }
  | 1 => .error ⟨.timeout, "timeout"⟩
  | _ => .ok { status := 200, body := "\"ok\":true,\"message_id\":7".toList }

theorem limitFits_thirdTry : ∀ i, LimitFits thirdTry i
  | 0 => by rintro _ ⟨⟩ -; decide
  | 1 => nofun
  | _ + 2 => by rintro _ ⟨⟩ hstatus; cases hstatus

theorem sendMessageWithRetry_spec_three :
    (∃ tries, Tried ⟨{ botToken := [1], chatId := [2] }, 0, 0, 0⟩ [3] thirdTry 3 0 ⟨.networkError, "no attempt"⟩
      (sendMessageWithRetry ⟨{ botToken := [1], chatId := [2] }, 0, 0, 0⟩ [3] thirdTry fun _ => 9) tries) ∧
    (sendMessageWithRetry ⟨{ botToken := [1] }, 0, 0, 0⟩ [3] thirdTry fun _ => 9).requests = [] :=
  ⟨(sendMessageWithRetry_spec ⟨{ botToken := [1], chatId := [2] }, 0, 0, 0⟩ [3] thirdTry (fun _ => 9) 3 (by decide)
      fun i _ => limitFits_thirdTry i).1 rfl,
    ((sendMessageWithRetry_spec ⟨{ botToken := [1] }, 0, 0, 0⟩ [3] thirdTry (fun _ => 9) 3 (by decide)
      fun i _ => limitFits_thirdTry i).2 rfl).1⟩

example : (sendMessageWithRetry ⟨{ botToken := [1], chatId := [2] }, 0, 0, 0⟩ [3] thirdTry fun _ => 9).sleeps =
    [2000, 200] := by decide

end TelegramClient
end CrashCore
