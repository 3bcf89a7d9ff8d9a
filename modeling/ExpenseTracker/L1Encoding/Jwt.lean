import ExpenseTracker.L1Encoding.Base64Url
import ExpenseTracker.L1Encoding.Password

/-!
# Tokens

`generateJWT` writes `header.payload.signature`, each part in unpadded
base64url; `verifyJWT` splits a token at its first two dots and compares the
rest with the signature of what stands before the second dot. The clock is in
nanoseconds since the epoch.

* `WellSigned`, `verifyJWT_wellSigned`, `verifyJWT_reject`: `verifyJWT`
  returns 1 on the tokens `a.b.s` with dot-free `a`, `b` and `s` the signature
  of `a.b`, and -1 on every other string.
* `generateJWT_wellSigned`: every issued token is one of them.
* `payloadOf_generateJWT`: the middle segment of a token decodes to the text built.
* `expClaim_generateJWT`: the `exp` member read back from an issued token is
  the time of issue plus 24 hours.
-/
namespace ExpenseTracker.L1.Jwt

open ExpenseTracker.Core ExpenseTracker.L1.Base64Url ExpenseTracker.L1.Password

/-- mirrors src/src/auth_manager.cpp:11 -/
def SECRET_KEY : Bytes := ascii "stellar_expenses_super_secret_key"

def second : Nat := 1000000000

/-- `std::chrono::hours(24)`. -/
def hours24 : Nat := 24 * 3600 * second

/-- `system_clock::to_time_t`: whole seconds. -/
def toTimeT (t : Nat) : Nat := t / second

/-- The text `generateJWT` builds. -/
def payloadText (user_id : Int32) (username : Bytes) (exp_ts : Nat) : Bytes :=
  ascii "\x7b\"user_id\":" ++ intText user_id.toInt ++ ascii ",\"username\":\"" ++ username ++
    ascii "\",\"exp\":" ++ natText exp_ts ++ ascii "\x7d"

variable (C : Crypto)

/-- `base64UrlEncode(HMAC(SECRET_KEY, data_to_sign))`. -/
def signatureOf (data_to_sign : Bytes) : Bytes :=
  base64UrlEncode (C.hmac SECRET_KEY data_to_sign).toList

/-- mirrors src/src/auth_manager.cpp:85-106 -/
def generateJWT (user_id : Int32) (username : Bytes) (now : Nat) : Bytes :=
  let header := ascii "\x7b\"alg\":\"HS256\",\"typ\":\"JWT\"\x7d"
  let exp_ts := toTimeT (now + hours24)
  let payload := payloadText user_id username exp_ts
  let encoded_header := base64UrlEncode header
  let encoded_payload := base64UrlEncode payload
  let data_to_sign := encoded_header ++ ascii "." ++ encoded_payload
  data_to_sign ++ ascii "." ++ signatureOf C data_to_sign

/-- The payload segment is cut out but never decoded: a token with the right
signature is always user 1.
mirrors src/src/auth_manager.cpp:109-135 -/
def verifyJWT (token : Bytes) : Int32 :=
  match find token 46 0 with
  | none => -1
  | some pos1 =>
    match find token 46 (pos1 + 1) with
    | none => -1
    | some pos2 =>
      let data_to_sign := substr token 0 pos2
      let provided_sig := substrFrom token (pos2 + 1)
      let calculated_sig := signatureOf C data_to_sign
      if provided_sig ≠ calculated_sig then -1 else 1

/-! ## What `verifyJWT` accepts -/

/-- `a.b.s` with dot-free `a` and `b`, and `s` the signature of `a.b`. -/
def WellSigned (token : Bytes) : Prop :=
  ∃ a b : Bytes, (46 : UInt8) ∉ a ∧ (46 : UInt8) ∉ b ∧
    token = a ++ ascii "." ++ b ++ ascii "." ++ signatureOf C (a ++ ascii "." ++ b)

theorem dot_eq : ascii "." = [46] := by decide

/-- A token split at its first two dots. -/
theorem verifyJWT_split {a b : Bytes} (s : Bytes) (ha : (46 : UInt8) ∉ a) (hb : (46 : UInt8) ∉ b) :
    verifyJWT C (a ++ 46 :: (b ++ 46 :: s)) =
      if s = signatureOf C (a ++ 46 :: b) then 1 else -1 := by
  have h2 : find (a ++ 46 :: (b ++ 46 :: s)) 46 (a.length + 1) =
      some (a.length + 1 + b.length) := by
    have := find_of_split_from (p := a ++ [46]) (a := b) (b := s) (c := 46) hb
    simpa using this
  have hlen : a.length + 1 + b.length = (a ++ 46 :: b).length := by simp; omega
  have hd : substr (a ++ 46 :: (b ++ 46 :: s)) 0 (a.length + 1 + b.length) = a ++ 46 :: b := by
    rw [hlen, substr, List.drop_zero,
      show a ++ 46 :: (b ++ 46 :: s) = (a ++ 46 :: b) ++ 46 :: s by simp, List.take_left]
  have hs : substrFrom (a ++ 46 :: (b ++ 46 :: s)) (a.length + 1 + b.length + 1) = s := by
    rw [substrFrom, ← List.drop_drop, hlen,
      show a ++ 46 :: (b ++ 46 :: s) = (a ++ 46 :: b) ++ 46 :: s by simp, List.drop_left]
    rfl
  simp only [verifyJWT, find_of_split ha, h2, hd, hs, ne_eq, ite_not]

/-- A text with fewer than two dots, or split at its first two. -/
theorem dots_cases (t : Bytes) :
    verifyJWT C t = -1 ∨ ∃ a b s : Bytes, (46 : UInt8) ∉ a ∧ (46 : UInt8) ∉ b ∧
      t = a ++ 46 :: (b ++ 46 :: s) := by
  by_cases h1 : (46 : UInt8) ∈ t
  · obtain ⟨a, r, rfl, ha⟩ := exists_split h1
    by_cases h2 : (46 : UInt8) ∈ r
    · obtain ⟨b, s, rfl, hb⟩ := exists_split h2
      exact Or.inr ⟨a, b, s, ha, hb, rfl⟩
    · left
      have hr : find (a ++ 46 :: r) 46 (a.length + 1) = none := by
        rw [find, ← List.drop_drop, List.drop_left, List.drop_one, List.tail_cons,
          findIdx?_split, if_neg h2]
        rfl
      simp only [verifyJWT, find_of_split ha, hr]
  · left; simp only [verifyJWT, find_none h1]

theorem verifyJWT_wellSigned {t : Bytes} (h : WellSigned C t) : verifyJWT C t = 1 := by
  obtain ⟨a, b, ha, hb, rfl⟩ := h
  simp only [dot_eq, List.append_assoc, List.cons_append, List.nil_append]
  rw [verifyJWT_split C _ ha hb, if_pos rfl]

theorem verifyJWT_reject {t : Bytes} (h : ¬ WellSigned C t) : verifyJWT C t = -1 := by
  rcases dots_cases C t with h' | ⟨a, b, s, ha, hb, rfl⟩
  · exact h'
  rw [verifyJWT_split C s ha hb]
  split
  · rename_i hs
    exact absurd ⟨a, b, ha, hb, by simp [dot_eq, hs]⟩ h
  · rfl

theorem verifyJWT_ne_iff (t : Bytes) : verifyJWT C t ≠ -1 ↔ WellSigned C t := by
  by_cases h : WellSigned C t
  · simp only [h, verifyJWT_wellSigned C h, iff_true]; decide
  · simp only [h, verifyJWT_reject C h, iff_false]; decide

theorem generateJWT_wellSigned (user_id : Int32) (username : Bytes) (now : Nat) :
    WellSigned C (generateJWT C user_id username now) :=
  ⟨_, _, base64UrlEncode_noDot _, base64UrlEncode_noDot _, rfl⟩

/-! ## The `exp` member -/

/-- The number that ends a payload `...,"exp":N}`. -/
def expOfPayload (p : Bytes) : Option Nat :=
  match p.reverse with
  | 125 :: r =>
    let ds := r.takeWhile isDigit
    if (ascii ",\"exp\":").reverse.isPrefixOf (r.drop ds.length) then some (readNat ds.reverse)
    else none
  | _ => none

/-- The payload of a token, its middle segment decoded. -/
def payloadOf (token : Bytes) : Option Bytes := do
  let pos1 ← find token 46 0
  let pos2 ← find token 46 (pos1 + 1)
  Base64.decode (substr token (pos1 + 1) (pos2 - pos1 - 1))

/-- The `exp` claim of a token, read from its middle segment. -/
def expClaim (token : Bytes) : Option Nat := (payloadOf token).bind expOfPayload

theorem expOfPayload_payloadText (n : Int32) (u : Bytes) (e : Nat) :
    expOfPayload (payloadText n u e) = some e := by
  have hbrace : ascii "\x7d" = [125] := by decide
  have hexp : (ascii "\",\"exp\":").reverse = (ascii ",\"exp\":").reverse ++ [34] := by decide
  generalize hpre : ascii "\x7b\"user_id\":" ++ intText n.toInt ++ ascii ",\"username\":\"" ++ u = pre
  have hrev : (payloadText n u e).reverse =
      125 :: ((natText e).reverse ++ ((ascii ",\"exp\":").reverse ++ ([34] ++ pre.reverse))) := by
    simp only [payloadText, hpre, hbrace, List.reverse_append, hexp]
    simp
  have htw : ((natText e).reverse ++ ((ascii ",\"exp\":").reverse ++ ([34] ++ pre.reverse))).takeWhile
      isDigit = (natText e).reverse := by
    rw [List.takeWhile_append_of_pos fun x hx => natText_digit (List.mem_reverse.mp hx)]
    have : (ascii ",\"exp\":").reverse = 58 :: (ascii ",\"exp\"").reverse := by decide
    rw [this, List.cons_append, List.takeWhile_cons, if_neg (by decide), List.append_nil]
  unfold expOfPayload
  rw [hrev]
  simp only [htw, List.drop_left, List.reverse_reverse, readNat_natText]
  rw [if_pos (List.isPrefixOf_iff_prefix.mpr (List.prefix_append _ _))]

/-- The payload of an issued token is the text built for it. -/
theorem payloadOf_generateJWT (n : Int32) (u : Bytes) (now : Nat) :
    payloadOf (generateJWT C n u now) = some (payloadText n u (toTimeT (now + hours24))) := by
  obtain ⟨h, hh⟩ : ∃ h, h = base64UrlEncode (ascii "\x7b\"alg\":\"HS256\",\"typ\":\"JWT\"\x7d") :=
    ⟨_, rfl⟩
  obtain ⟨p, hp⟩ : ∃ p, p = base64UrlEncode (payloadText n u (toTimeT (now + hours24))) := ⟨_, rfl⟩
  have h1 : (46 : UInt8) ∉ h := hh ▸ base64UrlEncode_noDot _
  have h2 : (46 : UInt8) ∉ p := hp ▸ base64UrlEncode_noDot _
  have he : generateJWT C n u now = h ++ 46 :: (p ++ 46 :: signatureOf C (h ++ 46 :: p)) := by
    simp [generateJWT, dot_eq, ← hh, ← hp]
  have hf : find (h ++ 46 :: (p ++ 46 :: signatureOf C (h ++ 46 :: p))) 46 (h.length + 1) =
      some (h.length + 1 + p.length) := by
    have := find_of_split_from (p := h ++ [46]) (b := signatureOf C (h ++ 46 :: p)) h2
    simpa using this
  have hsub : substr (h ++ 46 :: (p ++ 46 :: signatureOf C (h ++ 46 :: p))) (h.length + 1)
      (h.length + 1 + p.length - h.length - 1) = p := by
    rw [substr, show h.length + 1 + p.length - h.length - 1 = p.length by omega,
      ← List.drop_drop, List.drop_left, List.drop_one, List.tail_cons, List.take_left]
  rw [he, payloadOf, find_of_split h1]
  simp only [Option.bind_eq_bind, Option.bind_some, hf, hsub]
  rw [hp, base64UrlEncode_eq, Base64.decode_encode]

/-- An issued token carries the time of issue plus 24 hours. -/
theorem expClaim_generateJWT (n : Int32) (u : Bytes) (now : Nat) :
    expClaim (generateJWT C n u now) = some (toTimeT (now + hours24)) := by
  rw [expClaim, payloadOf_generateJWT, Option.bind_some]
  exact expOfPayload_payloadText n u _

end ExpenseTracker.L1.Jwt
