import ExpenseTracker.L3Server.Serve

/-!
# The authentication gate

Which requests get past `authenticate`, and that a protected route touches
nothing before it.

* `authenticate_ne_iff`: an acting user needs a header `Bearer ` and a
  well-signed token.
* `gate`: a protected route that sends a statement, or answers anything but
  401, was sent such a header; the tokens accepted are the well-signed ones,
  issued tokens are among them, and a signing input has one signature.
-/
namespace ExpenseTracker.L4.Gate

open ExpenseTracker.Core ExpenseTracker.L1.Base64Url ExpenseTracker.L1.Jwt ExpenseTracker.L1.Password
open ExpenseTracker.L2.Schema ExpenseTracker.L2.Server
open ExpenseTracker.L3.Routes ExpenseTracker.L3.Serve

/-- The `Authorization` header of a request. -/
def authorization (req : Request) : Option Bytes := headersFind req.headers (ascii "Authorization")

theorem bearer_length : (ascii "Bearer ").length = 7 := by decide

/-- The token behind `Bearer `. -/
theorem bearer_iff (auth t : Bytes) :
    substr auth 0 7 = ascii "Bearer " ∧ substrFrom auth 7 = t ↔ auth = ascii "Bearer " ++ t := by
  refine ⟨?_, ?_⟩
  · intro ⟨h1, h2⟩
    subst h2
    rw [← h1, substr, substrFrom, List.drop_zero, List.take_append_drop]
  · intro h
    subst h
    have h := bearer_length
    refine ⟨?_, ?_⟩
    · rw [substr, List.drop_zero, ← h, List.take_left]
    · rw [substrFrom, ← h, List.drop_left]

variable (C : Crypto)

theorem authenticate_bearer {req : Request} {t : Bytes}
    (h : authorization req = some (ascii "Bearer " ++ t)) : authenticate C req = verifyJWT C t := by
  obtain ⟨h1, h2⟩ := (bearer_iff _ t).mpr rfl
  unfold authorization at h
  simp only [authenticate, h, h1, if_true, h2]

/-- A request with an acting user carries a well-signed token, and one that
carries one has an acting user. -/
theorem authenticate_ne_iff (req : Request) : authenticate C req ≠ -1 ↔
    ∃ t, authorization req = some (ascii "Bearer " ++ t) ∧ WellSigned C t := by
  refine ⟨?_, ?_⟩
  · intro h
    cases hh : authorization req with
    | none =>
      unfold authorization at hh
      simp only [authenticate, hh, ne_eq, not_true_eq_false] at h
    | some auth =>
      by_cases hb : substr auth 0 7 = ascii "Bearer "
      · have ha := (bearer_iff auth _).mp ⟨hb, rfl⟩
        rw [authenticate_bearer C (hh.trans (congrArg some ha))] at h
        exact ⟨_, congrArg some ha, (verifyJWT_ne_iff C _).mp h⟩
      · unfold authorization at hh
        simp only [authenticate, hh, hb, if_false, ne_eq, not_true_eq_false] at h
  · intro ⟨t, ht, hw⟩
    rw [authenticate_bearer C ht]
    exact (verifyJWT_ne_iff C t).mpr hw

/-- A protected route without an acting user sends nothing and answers 401. -/
theorem shut {auth : Request → Int32} {ms : MySql} {call : Call} (hp : call.route.protected = true)
    (ha : auth call.req = -1) (c : Conn Db ResultSet) :
    (handle C auth call.route call.req).issued (exec ms) call.fault c = [] ∧
      (serve C auth ms call c).1.code = 401 := by
  rw [handle_unauthorized hp ha, serve_unauthorized hp ha]
  exact ⟨rfl, rfl⟩

/-- **The authentication gate.** -/
theorem gate (C : Crypto) :
    (∀ (ms : MySql) (call : Call) (c : Conn Db ResultSet), call.route.protected = true →
      ((handle C (authenticate C) call.route call.req).issued (exec ms) call.fault c ≠ [] ∨
        (serve C (authenticate C) ms call c).1.code ≠ 401) →
      ∃ a b : Bytes, (46 : UInt8) ∉ a ∧ (46 : UInt8) ∉ b ∧
        authorization call.req = some (ascii "Bearer " ++ (a ++ ascii "." ++ b ++ ascii "." ++
          base64UrlEncode (C.hmac SECRET_KEY (a ++ ascii "." ++ b)).toList))) ∧
    (∀ a b : Bytes, (46 : UInt8) ∉ a → (46 : UInt8) ∉ b →
      verifyJWT C (a ++ ascii "." ++ b ++ ascii "." ++
        base64UrlEncode (C.hmac SECRET_KEY (a ++ ascii "." ++ b)).toList) ≠ -1) ∧
    (∀ (user_id : Int32) (username : Bytes) (now : ℕ), ∃ a b : Bytes,
      (46 : UInt8) ∉ a ∧ (46 : UInt8) ∉ b ∧
        generateJWT C user_id username now = a ++ ascii "." ++ b ++ ascii "." ++
          base64UrlEncode (C.hmac SECRET_KEY (a ++ ascii "." ++ b)).toList) ∧
    (∀ a b : Bytes, (46 : UInt8) ∉ a → (46 : UInt8) ∉ b →
      ∃! s : Bytes, verifyJWT C (a ++ ascii "." ++ b ++ ascii "." ++ s) ≠ -1) := by
  refine ⟨?_, ?_, ?_, ?_⟩
  · intro ms call c hp h
    have ha : authenticate C call.req ≠ -1 := by
      intro ha
      obtain ⟨hi, hc⟩ : _ ∧ (serve C (authenticate C) ms call c).1.code = 401 := shut C hp ha c
      rcases h with h | h
      · exact h hi
      · exact h hc
    obtain ⟨t, ht, a, b, hna, hnb, rfl⟩ := (authenticate_ne_iff C call.req).mp ha
    exact ⟨a, b, hna, hnb, ht⟩
  · intro a b hna hnb
    exact (verifyJWT_ne_iff C _).mpr ⟨a, b, hna, hnb, rfl⟩
  · intro user_id username now
    obtain ⟨a, b, hna, hnb, h⟩ := generateJWT_wellSigned C user_id username now
    exact ⟨a, b, hna, hnb, h⟩
  · intro a b hna hnb
    have hsplit : ∀ s, verifyJWT C (a ++ ascii "." ++ b ++ ascii "." ++ s) =
        if s = signatureOf C (a ++ 46 :: b) then 1 else -1 := by
      intro s
      rw [← verifyJWT_split C s hna hnb]
      simp [dot_eq]
    refine ⟨signatureOf C (a ++ 46 :: b), ?_, ?_⟩
    · simp only [hsplit, if_true]
      decide
    · intro s hs
      simp only [hsplit] at hs
      by_contra hne
      simp [hne] at hs

end ExpenseTracker.L4.Gate
