import ExpenseTracker.L4Service.Isolation

/-!
# Registering and logging in

Runs of register and login requests from an empty users table. A
registration is a register request answered 201; the invariant (`Inv`) is
that the users table holds exactly the rows of the registrations so far, in
their order, no two with one email.

* `inv_next`, `inv_after`: the invariant, over one request and over a run.
* `login_contract`: a login is answered 200 exactly when its email is
  registered and PBKDF2 takes its password for the registered one, and it
  answers with that registration's row.
-/
namespace ExpenseTracker.L4.Login

open ExpenseTracker.Core ExpenseTracker.L1.Jwt ExpenseTracker.L1.Password
open ExpenseTracker.L2.Schema ExpenseTracker.L2.Statement ExpenseTracker.L2.Server
open ExpenseTracker.L3.Json ExpenseTracker.L3.DbManager ExpenseTracker.L3.Routes
open ExpenseTracker.L3.Serve ExpenseTracker.L4.Tokens

/-- A request to one of the two routes. Calls may fail while registering. -/
inductive AuthCall where
  | register (salt : Salt) (req : Request) (fault : Fault)
  | login (now : ℕ) (req : Request)

def AuthCall.call : AuthCall → Call
  | register salt req fault => ⟨.register salt, req, fault⟩
  | login now req => ⟨.login now, req, .none⟩

/-- What a register request answered 201 leaves. -/
structure Registration where
  id : Int32
  email : Bytes
  display_name : Bytes
  password : Bytes
  salt : Salt

/-- Its row. -/
def Registration.row (C : Crypto) (g : Registration) : Int32 × UserRow :=
  (g.id, ⟨some g.display_name, some g.email, hashPassword C g.salt g.password⟩)

variable (C : Crypto) (auth : Request → Int32) (ms : MySql)

/-- The registration a request makes, if it is answered 201. -/
def registration (c : Conn Db ResultSet) : AuthCall → Option Registration
  | .login _ _ => none
  | .register salt req fault =>
    match req.body with
    | none => none
    | some x =>
      match readRegisterBody x with
      | .error _ => none
      | .ok (email, display_name, password) =>
        if ((server C auth ms).out c (AuthCall.register salt req fault).call).code = 201 then
          some ⟨c.db.users.nextKey, email, display_name, password, salt⟩
        else none

/-- The registrations of a run, in their order. -/
def registrations : Conn Db ResultSet → List AuthCall → List Registration
  | _, [] => []
  | c, a :: as =>
    (registration C auth ms c a).toList ++ registrations ((server C auth ms).next c a.call) as

/-- The users table holds the registrations `gs`. -/
structure Inv (gs : List Registration) (c : Conn Db ResultSet) : Prop where
  idle : Idle c
  rows : c.db.users.rows = gs.map (Registration.row C)
  nodup : (gs.map Registration.email).Nodup
  plain : ∀ g ∈ gs, ∀ s ∈ [g.email, g.display_name, hashPassword C g.salt g.password], (0 : UInt8) ∉ s

variable {C auth ms} {c : Conn Db ResultSet} {gs : List Registration}

/-- A register request answered 201 appends its row. -/
theorem inv_register (auth : Request → Int32) (ms : MySql) (hi : Inv C gs c) (salt : Salt)
    (f : Fault) {req : Request} {x : RValue} {e n p : Bytes} (hb : req.body = some x)
    (hr : readRegisterBody x = .ok (e, n, p)) :
    (((server C auth ms).out c (AuthCall.register salt req f).call).code = 201 ∧
        Inv C (gs ++ [⟨c.db.users.nextKey, e, n, p, salt⟩])
          ((server C auth ms).next c (AuthCall.register salt req f).call)) ∨
      (((server C auth ms).out c (AuthCall.register salt req f).call).code ≠ 201 ∧
        Inv C gs ((server C auth ms).next c (AuthCall.register salt req f).call)) := by
  have hs : storing C auth ⟨.register salt, req, f⟩ =
      some (.insertUser e n (hashPassword C salt p)) := by
    simp only [storing, registerStmt, hb, hr]
  obtain ⟨r, hserve, hcode⟩ : ∃ r, serve C auth ms ⟨.register salt, req, f⟩ (.idle c.db) = (r, _) ∧ _ :=
    serve_storing hs
  rw [AuthCall.call, hi.idle.out, hi.idle.next, hserve, hs, Option.bind_some]
  cases hst : stored ms f c.db (.insertUser e n (hashPassword C salt p)) with
  | none =>
    right
    rw [hst] at hcode
    refine ⟨by rw [hcode]; simp [failCode], ?_⟩
    rw [Option.getD_none, ← hi.idle.eq]
    exact hi
  | some db' =>
    left
    rw [hst] at hcode
    refine ⟨by rw [hcode]; simp [okCode], ?_⟩
    obtain ⟨_, rs, he⟩ := stored_eq_some hst
    obtain ⟨u, users, hu, hnew, hins, rfl, _⟩ := exec_insertUser he
    cases userRow_eq_some hu
    have hrows := (Table.insert_spec hins).1
    refine ⟨rfl, ?_, ?_, ?_⟩
    · simp only [Option.getD_some, Conn.idle, hrows, hi.rows, List.map_append, List.map_singleton]
      rfl
    · rw [List.map_append, List.map_singleton]
      refine List.nodup_append.mpr ⟨hi.nodup, List.nodup_singleton _, ?_⟩
      intro e₁ he₁ e₂ he₂ heq
      subst heq
      obtain ⟨g, hg, hge⟩ := List.mem_map.mp he₁
      rw [List.mem_singleton] at he₂
      -- the unique key of `email` refused a second row
      unfold newUser at hnew
      rw [hi.rows, List.all_eq_true] at hnew
      have := hnew (g.row C) (List.mem_map_of_mem hg)
      simp [Registration.row, hge, he₂] at this
    · intro g hg
      rcases List.mem_append.mp hg with hg | hg
      · exact hi.plain g hg
      · rw [List.mem_singleton] at hg
        subst hg
        exact (exec_noNul he).1

/-- One request keeps the invariant. -/
theorem inv_next (hi : Inv C gs c) (a : AuthCall) :
    Inv C (gs ++ (registration C auth ms c a).toList) ((server C auth ms).next c a.call) := by
  have unchanged : ∀ {call : Call}, storing C auth call = none →
      Inv C gs ((server C auth ms).next c call) := by
    intro call hs
    rw [hi.idle.next, hs, Option.bind_none, Option.getD_none, ← hi.idle.eq]
    exact hi
  cases a with
  | login now req =>
    rw [registration, Option.toList_none, List.append_nil]
    exact unchanged rfl
  | register salt req f =>
    cases hb : req.body with
    | none =>
      simp only [registration, hb, Option.toList_none, List.append_nil]
      exact unchanged (by simp only [AuthCall.call, storing, registerStmt, hb])
    | some x =>
      cases hr : readRegisterBody x with
      | error e =>
        simp only [registration, hb, hr, Option.toList_none, List.append_nil]
        exact unchanged (by simp only [AuthCall.call, storing, registerStmt, hb, hr])
      | ok enp =>
        obtain ⟨e, n, p⟩ := enp
        simp only [registration, hb, hr]
        rcases inv_register auth ms hi salt f hb hr with ⟨hcode, h⟩ | ⟨hcode, h⟩
        · rw [if_pos hcode, Option.toList_some]
          exact h
        · rw [if_neg hcode, Option.toList_none, List.append_nil]
          exact h

/-- The invariant over a run. -/
theorem inv_after (hi : Inv C gs c) (calls : List AuthCall) :
    Inv C (gs ++ registrations C auth ms c calls)
      ((server C auth ms).after c (calls.map AuthCall.call)) := by
  induction calls generalizing gs c with
  | nil =>
    rw [registrations, List.append_nil]
    exact hi
  | cons a as ih =>
    rw [registrations, ← List.append_assoc]
    exact ih (inv_next hi a)

/-! ## Logins -/

/-- The row a login reads is the row of its email's registration. -/
theorem lookup_eq (hi : Inv C gs c) (e : Bytes) :
    (lookup .none c.db e = none ∧ ∀ g ∈ gs, g.email ≠ e) ∨
      ∃ g ∈ gs, g.email = e ∧ lookup .none c.db e = some (g.row C) ∧
        ∀ g' ∈ gs, g'.email = e → g' = g := by
  by_cases h0 : e.contains 0 = true
  · left
    refine ⟨by simp [lookup, Fault.none, List.contains_iff_mem.mp h0], ?_⟩
    intro g hg he
    subst he
    exact hi.plain g hg g.email List.mem_cons_self (List.contains_iff_mem.mp h0)
  have hl : lookup .none c.db e =
      (gs.map (Registration.row C)).find? fun r => r.2.email == some e := by
    rw [← hi.rows, ← List.head?_filter]
    simp only [lookup, Fault.none, h0, Bool.or_self, Bool.false_eq_true, if_false]
    rfl
  rw [hl]
  cases hf : (gs.map (Registration.row C)).find? fun r => r.2.email == some e with
  | none =>
    left
    refine ⟨rfl, fun g hg he => ?_⟩
    have := List.find?_eq_none.mp hf _ (List.mem_map_of_mem hg)
    simp [Registration.row, he] at this
  | some r =>
    right
    obtain ⟨g, hg, rfl⟩ := List.mem_map.mp (List.mem_of_find?_eq_some hf)
    have he : g.email = e := by
      have := List.find?_some hf
      simpa [Registration.row] using this
    refine ⟨g, hg, he, rfl, fun g' hg' he' => ?_⟩
    exact List.inj_on_of_nodup_map hi.nodup hg' hg (he'.trans he.symm)

/-- The answer of a login that reads a registration's row. -/
theorem loginAnswer_row (hi : Inv C gs c) {g : Registration} (hg : g ∈ gs) (now : ℕ) (p : Bytes) :
    loginAnswer C now p (some (g.row C)) =
      if C.pbkdf2 p g.salt.toList ITERATIONS = C.pbkdf2 g.password g.salt.toList ITERATIONS then
        ⟨200, .json (.object
          [(ascii "token", .string (generateJWT C g.id g.display_name now)),
            (ascii "username", .string g.display_name)])⟩
      else respond 401 "Invalid credentials" := by
  have hname : cStr g.display_name = g.display_name :=
    cStr_of_noNul (hi.plain g hg _ (by simp))
  have hhash : cStr (hashPassword C g.salt g.password) = hashPassword C g.salt g.password :=
    cStr_of_noNul (hi.plain g hg _ (by simp))
  simp only [loginAnswer, Registration.row, Cell.ofText, textOr, hname, hhash,
    hashPassword_ne_nil, ne_eq, not_false_eq_true, true_and, verifyPassword_hashPassword]

/-- **Login contract.** After any run of the two routes from an empty users
table, with `gs` the registrations of the run: no email is registered twice,
and a login is answered 200 exactly for a registered email and a password
PBKDF2 cannot tell from the registered one, with that registration's row. -/
theorem login_contract (C : Crypto) (auth : Request → Int32) (ms : MySql) (db : Db)
    (hempty : db.users.rows = []) (calls : List AuthCall) :
    let gs := registrations C auth ms (.idle db) calls
    let c := (server C auth ms).after (.idle db) (calls.map AuthCall.call)
    (gs.map Registration.email).Nodup ∧
    ∀ (now : ℕ) (req : Request) (x : RValue) (e p : Bytes),
      req.body = some x → readLoginBody x = .ok (e, p) →
      ((((server C auth ms).out c (AuthCall.login now req).call).code = 200 ↔
        ∃ g ∈ gs, g.email = e ∧
          C.pbkdf2 p g.salt.toList ITERATIONS = C.pbkdf2 g.password g.salt.toList ITERATIONS) ∧
      ∀ g ∈ gs, g.email = e →
        ((server C auth ms).out c (AuthCall.login now req).call).code = 200 →
        g.row C ∈ c.db.users.rows ∧
        (server C auth ms).out c (AuthCall.login now req).call = ⟨200, .json (.object
          [(ascii "token", .string (generateJWT C g.id g.display_name now)),
            (ascii "username", .string g.display_name)])⟩) := by
  intro gs c
  have h0 : Inv C [] (.idle db) := ⟨rfl, hempty, List.nodup_nil, by simp⟩
  have hi : Inv C gs c := inv_after h0 calls
  refine ⟨hi.nodup, fun now req x e p hb hr => ?_⟩
  have hout : (server C auth ms).out c (AuthCall.login now req).call =
      loginAnswer C now p (lookup .none c.db e) := by
    rw [hi.idle.out, AuthCall.call, serve_login hb hr]
  rw [hout]
  rcases lookup_eq hi e with ⟨hl, hno⟩ | ⟨g, hg, he, hl, huniq⟩
  · rw [hl]
    refine ⟨⟨fun h => ?_, ?_⟩, fun g hg he => absurd he (hno g hg)⟩
    · exact absurd h (by simp [loginAnswer, respond])
    · rintro ⟨g, hg, he, _⟩
      exact absurd he (hno g hg)
  · rw [hl, loginAnswer_row hi hg]
    refine ⟨⟨fun h => ?_, ?_⟩, ?_⟩
    · by_contra hn
      rw [if_neg fun hp => hn ⟨g, hg, he, hp⟩] at h
      exact absurd h (by simp [respond])
    · rintro ⟨g', hg', he', hp⟩
      cases huniq g' hg' he'
      rw [if_pos hp]
    · intro g' hg' he' h
      cases huniq g' hg' he'
      refine ⟨hi.rows ▸ List.mem_map_of_mem hg, ?_⟩
      split at h
      · rename_i hp
        rw [if_pos hp]
      · exact absurd h (by simp [respond])

/-- Ann registers, and logs in with another password of the same hash. -/
theorem login_contract_ann :
    ((server Crypto.zero (authenticate Crypto.zero) MySql.plain).out
      ((server Crypto.zero (authenticate Crypto.zero) MySql.plain).after (.idle Db.migrated)
        [(AuthCall.register (.replicate 16 0) annRegister.req .none).call])
      (AuthCall.login 0 (form [("email", "ann@x"), ("password", "other")])).call).code = 200 := by
  have hregs : registrations Crypto.zero (authenticate Crypto.zero) MySql.plain (.idle Db.migrated)
      [.register (.replicate 16 0) annRegister.req .none] =
        [⟨1, ascii "ann@x", ascii "ann", ascii "pw", .replicate 16 0⟩] := rfl
  have h := (login_contract Crypto.zero (authenticate Crypto.zero) MySql.plain Db.migrated rfl
    [.register (.replicate 16 0) annRegister.req .none]).2 0
    (form [("email", "ann@x"), ("password", "other")]) _ (ascii "ann@x") (ascii "other") rfl rfl
  refine h.1.mpr ?_
  rw [hregs]
  exact ⟨_, List.mem_cons_self, rfl, rfl⟩

end ExpenseTracker.L4.Login
