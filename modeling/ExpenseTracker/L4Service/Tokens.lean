import ExpenseTracker.L4Service.Gate

/-!
# Whose token, and for how long

What `authenticate` gets out of a token besides that it is well signed: not
the user it was issued to, and not the time it expires.

* `token_identity`: a token is taken for its owner's only when the owner is
  user 1, and the tokens of any two users are taken for the same user's.
* `expiry`: a run honours the `exp` claim exactly when no request of the run
  comes with a well-signed token past it.
-/
namespace ExpenseTracker.L4.Tokens

open ExpenseTracker.Core ExpenseTracker.L1.Jwt ExpenseTracker.L1.Password
open ExpenseTracker.L2.Schema ExpenseTracker.L2.Server
open ExpenseTracker.L3.Json ExpenseTracker.L3.Routes ExpenseTracker.L3.Serve
open ExpenseTracker.L4.Gate

/-! ## Identity -/

theorem verifyJWT_generateJWT (C : Crypto) (n : Int32) (u : Bytes) (now : ℕ) :
    verifyJWT C (generateJWT C n u now) = 1 :=
  verifyJWT_wellSigned C (generateJWT_wellSigned C n u now)

/-- **Token identity.** `auth_manager.h` promises the user_id; the code
returns 1 for every issued token. -/
theorem token_identity (C : Crypto) :
    (∀ (n : Int32) (u : Bytes) (now : ℕ), 0 < n →
      (verifyJWT C (generateJWT C n u now) = n ↔ n = 1)) ∧
    (∀ (n₁ n₂ : Int32) (u₁ u₂ : Bytes) (now₁ now₂ : ℕ) (req₁ req₂ : Request),
      authorization req₁ = some (ascii "Bearer " ++ generateJWT C n₁ u₁ now₁) →
      authorization req₂ = some (ascii "Bearer " ++ generateJWT C n₂ u₂ now₂) →
      authenticate C req₁ = authenticate C req₂) := by
  refine ⟨?_, ?_⟩
  · intro n u now _
    rw [verifyJWT_generateJWT]
    exact eq_comm
  · intro n₁ n₂ u₁ u₂ now₁ now₂ req₁ req₂ h₁ h₂
    rw [authenticate_bearer C h₁, authenticate_bearer C h₂, verifyJWT_generateJWT,
      verifyJWT_generateJWT]

/-- User 2's token is taken for user 1's. -/
theorem token_identity_two :
    verifyJWT Crypto.zero (generateJWT Crypto.zero 2 (ascii "bob") 0) = 1 ∧
      ¬ ∀ (n : Int32) (u : Bytes) (now : ℕ), 0 < n →
        verifyJWT Crypto.zero (generateJWT Crypto.zero n u now) = n := by
  refine ⟨verifyJWT_generateJWT _ _ _ _, fun h => ?_⟩
  have h2 := h 2 (ascii "bob") 0 (by decide)
  rw [verifyJWT_generateJWT] at h2
  exact absurd h2 (by decide)

/-! ## Expiry -/

/-- Requests with the clock time each is served at. A login reads the clock. -/
structure TimedRun where
  calls : List (ℕ × Call)
  ordered : (calls.map Prod.fst).Pairwise (· ≤ ·)
  stamped : ∀ p ∈ calls, ∀ now, p.2.route = .login now → now = p.1

variable (C : Crypto) (ms : MySql)

/-- The server, with the clock time of each request. -/
def timed : Machine (Conn Db ResultSet) (ℕ × Call) Response where
  step c p := serve C (authenticate C) ms p.2 c

/-- A protected request that is served. -/
def Served (c : Conn Db ResultSet) (p : ℕ × Call) : Prop :=
  p.2.route.protected = true ∧ ((timed C ms).out c p).code ≠ 401

/-- Whatever is served came before the `exp` of its token. -/
def HonoursExp (c : Conn Db ResultSet) (calls : List (ℕ × Call)) : Prop :=
  (timed C ms).Along (fun c p => Served C ms c p → ∃ t e,
    authorization p.2.req = some (ascii "Bearer " ++ t) ∧ expClaim t = some e ∧
      p.1 < e * second) c calls

/-- No issued token is honoured more than 24 hours after its time of issue. -/
def HonoursDay (c : Conn Db ResultSet) (calls : List (ℕ × Call)) : Prop :=
  (timed C ms).Along (fun c p => Served C ms c p → ∀ n u issued,
    authorization p.2.req = some (ascii "Bearer " ++ generateJWT C n u issued) →
      p.1 ≤ issued + hours24) c calls

/-- No request to a protected route comes with a well-signed token past the
token's `exp`. -/
def NoneExpired (calls : List (ℕ × Call)) : Prop :=
  ∀ p ∈ calls, p.2.route.protected = true → ∀ t,
    authorization p.2.req = some (ascii "Bearer " ++ t) → WellSigned C t →
      ∃ e, expClaim t = some e ∧ p.1 < e * second

variable {C ms}

theorem timed_idle : (timed C ms).Inductive Idle := fun c p hc => server_idle c p.2 hc

theorem served_iff_wellSigned {c : Conn Db ResultSet} (hc : Idle c) (p : ℕ × Call) :
    Served C ms c p ↔ p.2.route.protected = true ∧
      ∃ t, authorization p.2.req = some (ascii "Bearer " ++ t) ∧ WellSigned C t := by
  refine and_congr_right fun hp => ?_
  have h : (timed C ms).out c p = (server C (authenticate C) ms).out c p.2 := rfl
  rw [h, hc.out, served_iff hp, authenticate_ne_iff]

theorem honoursExp_iff (db : Db) (calls : List (ℕ × Call)) :
    HonoursExp C ms (.idle db) calls ↔ NoneExpired C calls := by
  unfold HonoursExp NoneExpired
  rw [← (timed C ms).along_inputs (fun p => p.2.route.protected = true → ∀ t,
    authorization p.2.req = some (ascii "Bearer " ++ t) → WellSigned C t →
      ∃ e, expClaim t = some e ∧ p.1 < e * second) (.idle db) calls]
  refine timed_idle.along_congr (fun c p hc => ?_) (idle_idle db) calls
  rw [served_iff_wellSigned hc]
  refine ⟨?_, ?_⟩
  · intro h hp t ht hw
    obtain ⟨t', e, ht', he, hlt⟩ := h ⟨hp, t, ht, hw⟩
    cases List.append_cancel_left (Option.some.inj (ht.symm.trans ht'))
    exact ⟨e, he, hlt⟩
  · intro h ⟨hp, t, ht, hw⟩
    obtain ⟨e, he, hlt⟩ := h hp t ht hw
    exact ⟨t, e, ht, he, hlt⟩

/-- The `exp` of an issued token is no later than 24 hours after its issue. -/
theorem exp_le_day (issued : ℕ) : toTimeT (issued + hours24) * second ≤ issued + hours24 :=
  Nat.div_mul_le_self _ _

theorem HonoursExp.day {db : Db} {calls : List (ℕ × Call)} (h : HonoursExp C ms (.idle db) calls) :
    HonoursDay C ms (.idle db) calls := by
  unfold HonoursExp at h
  unfold HonoursDay
  rw [Machine.along_iff] at h ⊢
  intro xs p ys he hs n u issued ht
  obtain ⟨t, e, ht', hexp, hlt⟩ := h xs p ys he hs
  cases List.append_cancel_left (Option.some.inj (ht.symm.trans ht'))
  rw [expClaim_generateJWT] at hexp
  cases hexp
  have := exp_le_day issued
  omega

/-- **Expiry over timed runs.** The `exp` claim is written and never read: a run
honours it only when no request arrives with an expired token. -/
theorem expiry (C : Crypto) (ms : MySql) (db : Db) (run : TimedRun) :
    (HonoursExp C ms (.idle db) run.calls ∧ HonoursDay C ms (.idle db) run.calls) ↔
      NoneExpired C run.calls := by
  refine ⟨?_, ?_⟩
  · intro h
    exact (honoursExp_iff db run.calls).mp h.1
  · intro h
    have he : HonoursExp C ms (.idle db) run.calls := (honoursExp_iff db run.calls).mpr h
    exact ⟨he, he.day⟩

/-! ## A run past the day -/

/-- A JSON string without escapes. -/
def jsonString (s : String) : RValue := .string (ascii s) (ascii s)

/-- A request with a JSON object of strings. -/
def form (fields : List (String × String)) : Request :=
  ⟨[], some (.object (fields.map fun p => (ascii p.1, jsonString p.2)))⟩

/-- A request with a bearer token. -/
def bearer (token : Bytes) (body : Option RValue) : Request :=
  ⟨[(ascii "Authorization", ascii "Bearer " ++ token)], body⟩

/-- The token user 1, named ann, is issued at time 0. -/
def annToken : Bytes := generateJWT Crypto.zero 1 (ascii "ann") 0

def annRegister : Call :=
  ⟨.register (.replicate 16 0),
    form [("email", "ann@x"), ("displayName", "ann"), ("password", "pw")], .none⟩

def bobRegister : Call :=
  ⟨.register (.replicate 16 0),
    form [("email", "bob@x"), ("displayName", "bob"), ("password", "pw")], .none⟩

def annLogin : Call := ⟨.login 0, form [("email", "ann@x"), ("password", "pw")], .none⟩

/-- Ann registers and logs in, and comes back with her token 25 hours later. -/
def nextDay : TimedRun where
  calls := [(0, annRegister), (0, annLogin),
    (25 * 3600 * second, ⟨.getExpenses, bearer annToken none, .none⟩)]
  ordered := by simp
  stamped := by simp [annRegister, annLogin]

/-- The login issues the token, and 25 hours later it is still served. -/
theorem expiry_nextDay :
    (timed Crypto.zero MySql.plain).out
        ((timed Crypto.zero MySql.plain).after (.idle Db.migrated) [(0, annRegister)]) (0, annLogin) =
      ⟨200, .json (.object [(ascii "token", .string annToken),
        (ascii "username", .string (ascii "ann"))])⟩ ∧
    ¬ HonoursExp Crypto.zero MySql.plain (.idle Db.migrated) nextDay.calls ∧
    ¬ HonoursDay Crypto.zero MySql.plain (.idle Db.migrated) nextDay.calls := by
  have hlast : ∀ c, Idle c → Served Crypto.zero MySql.plain c
      (25 * 3600 * second, ⟨.getExpenses, bearer annToken none, .none⟩) := by
    intro c hc
    exact (served_iff_wellSigned hc _).mpr ⟨rfl, annToken, rfl, generateJWT_wellSigned _ _ _ _⟩
  have hidle : Idle ((timed Crypto.zero MySql.plain).after (.idle Db.migrated)
      [(0, annRegister), (0, annLogin)]) := timed_idle.after (idle_idle _) _
  refine ⟨rfl, fun h => ?_, fun h => ?_⟩
  · obtain ⟨t, e, ht, he, hlt⟩ := h.2.2.1 (hlast _ hidle)
    cases List.append_cancel_left (Option.some.inj ht)
    rw [annToken, expClaim_generateJWT] at he
    cases he
    revert hlt
    decide
  · have hle := h.2.2.1 (hlast _ hidle) 1 (ascii "ann") 0 rfl
    revert hle
    decide

end ExpenseTracker.L4.Tokens
