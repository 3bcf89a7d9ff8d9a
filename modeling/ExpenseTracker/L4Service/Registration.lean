import ExpenseTracker.L2Store.Migration
import ExpenseTracker.L4Service.Login

/-!
# Which registrations are accepted

`schema.sql` makes `username` unique, and the migration renames the column
and keeps its index: besides two rows with one email the table refuses two
rows with one display name.

* `admitted_iff_newUser`: the keys a registration is tested against are those of the
  final schema of the migration.
* `registration_accepts`: so the emails that are free are accepted only with a
  display name that is free too.
-/
namespace ExpenseTracker.L4.Registration

open ExpenseTracker.Core ExpenseTracker.L1.Hex ExpenseTracker.L1.Password
open ExpenseTracker.L2.Schema ExpenseTracker.L2.Statement ExpenseTracker.L2.Server
open ExpenseTracker.L3.Json ExpenseTracker.L3.Routes ExpenseTracker.L3.Serve
open ExpenseTracker.L4.Tokens

/-! ## The stored hash -/

theorem length_toHex (data : Bytes) : (toHex data).length = 2 * data.length := by
  induction data with
  | nil => rfl
  | cons b data ih =>
    simp only [toHex, List.length_cons, ih]
    omega

/-- Two hex texts and a colon. -/
theorem length_hashPassword (C : Crypto) (salt : Salt) (p : Bytes) :
    (hashPassword C salt p).length = 97 := by
  rw [hashPassword_eq]
  simp [length_toHex]

theorem hexChar_ascii {n : Nat} (h : n < 16) : hexChar n ≠ 0 ∧ hexChar n < 128 := by
  have key : ∀ n, n < 16 → hexChar n ≠ 0 ∧ hexChar n < 128 := by decide
  exact key n h

theorem hashPassword_ascii (C : Crypto) (salt : Salt) (p : Bytes) :
    ∀ b ∈ hashPassword C salt p, b ≠ 0 ∧ b < 128 := by
  intro b hb
  have hex : ∀ {data : Bytes}, b ∈ toHex data → b ≠ 0 ∧ b < 128 := by
    intro data h
    obtain ⟨n, hn, rfl⟩ := toHex_hexDigit h
    exact hexChar_ascii hn
  rw [hashPassword_eq, List.mem_append, List.mem_cons] at hb
  rcases hb with hb | rfl | hb
  · exact hex hb
  · decide
  · exact hex hb

/-! ## What the table refuses -/

section Accept

variable {ms : MySql} {f : Fault} {db : Db} {e n hash : Bytes}

/-- No row has the email. -/
def EmailFree (db : Db) (e : Bytes) : Prop := ∀ o ∈ db.users.rows, o.2.email ≠ some e

/-- No row has the display name, as the unique key compares names. -/
def NameFree (ms : MySql) (db : Db) (n : Bytes) : Prop :=
  ∀ o ∈ db.users.rows, ∀ a, o.2.display_name = some a → ms.sameName a n = false

/-- The statement arrives, and there is a key for the row. -/
def Storable (f : Fault) (db : Db) (e n : Bytes) : Prop :=
  f.query = false ∧ (0 : UInt8) ∉ e ∧ (0 : UInt8) ∉ n ∧ db.users.counter < 2 ^ 31

theorem newUser_iff : newUser ms db ⟨some n, some e, hash⟩ = true ↔
    EmailFree db e ∧ NameFree ms db n := by
  unfold newUser EmailFree NameFree
  rw [List.all_eq_true]
  refine ⟨?_, ?_⟩
  · intro h
    refine ⟨fun o ho => ?_, fun o ho a ha => ?_⟩
    · have := h o ho
      rw [Bool.and_eq_true, bne_iff_ne] at this
      exact this.1
    · have := h o ho
      rw [Bool.and_eq_true, ha] at this
      simpa using this.2
  · rintro ⟨he, hn⟩ o ho
    rw [Bool.and_eq_true, bne_iff_ne]
    refine ⟨he o ho, ?_⟩
    cases hd : o.2.display_name with
    | none => rfl
    | some a =>
      show (!ms.sameName a n) = true
      rw [hn o ho a hd]
      rfl

/-- When the row of a registration is stored. -/
theorem stored_register_iff (he : ms.fits 255 e = true) (hn : ms.fits 100 n = true)
    (hh : ms.fits 255 hash = true) (h0 : (0 : UInt8) ∉ hash) :
    (stored ms f db (.insertUser e n hash)).isSome = true ↔
      Storable f db e n ∧ EmailFree db e ∧ NameFree ms db n := by
  have hrow : userRow ms e n hash = some ⟨some n, some e, hash⟩ := by
    simp [userRow, storeText, he, hn, hh]
  have hkeys : newUser ms db ⟨some n, some e, hash⟩ = true ↔ _ := newUser_iff
  rw [← hkeys]
  refine ⟨?_, ?_⟩
  · intro h
    obtain ⟨db', hdb'⟩ := Option.isSome_iff_exists.mp h
    obtain ⟨hf, rs, hexec⟩ := stored_eq_some hdb'
    obtain ⟨r, users, hr, hnew, hins, _, _⟩ := exec_insertUser hexec
    rw [hrow] at hr
    cases hr
    have hplain := (exec_noNul hexec).1
    refine ⟨⟨hf, hplain e (by simp [Stmt.strings]), hplain n (by simp [Stmt.strings]), ?_⟩, hnew⟩
    by_contra hroom
    unfold Table.insert at hins
    rw [dif_neg hroom] at hins
    cases hins
  · rintro ⟨⟨hf, hne, hnn, hroom⟩, hnew⟩
    have hplain : ∀ s ∈ (Stmt.insertUser e n hash).strings, (0 : UInt8) ∉ s := by
      simp [Stmt.strings, hne, hnn, h0]
    have hins : ∃ users, db.users.insert ⟨some n, some e, hash⟩ = some users := by
      unfold Table.insert
      rw [dif_pos hroom]
      exact ⟨_, rfl⟩
    obtain ⟨users, hins⟩ := hins
    simpa [stored, hf, exec, execParam, hrow, hnew, hins] using hplain

end Accept

/-! ## The keys of the migrated schema -/

section Keys

open ExpenseTracker.Core.Ddl ExpenseTracker.L2.Migration

/-- `users` after the migration. -/
def usersAfter : Shape ColumnType Value where
  columns := [notNull "id" .serial, nullable "display_name" (.varchar 100),
    notNull "password_hash" (.varchar 255), nullable "created_at" .timestamp,
    nullable "email" (.varchar 255)]
  unique := ["id", "display_name", "email"]
  refs := []

theorem finalSchema_users : finalSchema "users" = some usersAfter := rfl

/-- A row of `users`, with the time it was created. -/
def userValues (created : Option ℕ) (r : Int32 × UserRow) : List (Option Value) :=
  [some (.int r.1), r.2.display_name.map .text, some (.text r.2.password_hash),
    created.map .timestamp, r.2.email.map .text]

variable {S : Charset} {ms : MySql} {db : Db} {e n hash : Bytes} {created created' : Option ℕ}
  {r r' : Int32 × UserRow}

theorem clash_id : usersAfter.clash (domain S) (userValues created r) (userValues created' r') "id" =
    decide (r.1 = r'.1) := by
  show decide (Value.int r.1 = Value.int r'.1) = _
  simp

/-- Two texts clash when the character set takes them for one; NULL clashes with nothing. -/
def sameText (S : Charset) : Option Bytes → Option Bytes → Bool
  | some a, some b => S.same a b
  | _, _ => false

theorem clash_display_name :
    usersAfter.clash (domain S) (userValues created r) (userValues created' r') "display_name" =
      sameText S r.2.display_name r'.2.display_name := by
  have hr : usersAfter.value (userValues created r) "display_name" = r.2.display_name.map .text := rfl
  have hr' : usersAfter.value (userValues created' r') "display_name" =
      r'.2.display_name.map .text := rfl
  unfold Shape.clash
  rw [hr, hr']
  cases r.2.display_name <;> cases r'.2.display_name <;> rfl

theorem clash_email :
    usersAfter.clash (domain S) (userValues created r) (userValues created' r') "email" =
      sameText S r.2.email r'.2.email := by
  have hr : usersAfter.value (userValues created r) "email" = r.2.email.map .text := rfl
  have hr' : usersAfter.value (userValues created' r') "email" = r'.2.email.map .text := rfl
  unfold Shape.clash
  rw [hr, hr']
  cases r.2.email <;> cases r'.2.email <;> rfl

/-- The values of a new row fit their columns. -/
theorem fits_userValues (k : Int32) : usersAfter.Fits (domain S)
    (userValues created (k, ⟨some n, some e, hash⟩)) ↔
      S.chars n ≤ 100 ∧ S.chars hash ≤ 255 ∧ S.chars e ≤ 255 := by
  unfold Shape.Fits usersAfter userValues
  cases created <;> simp [Column.fits, nullable, notNull, domain, ColumnType.admits]

/-- **The keys of a registration.** With texts compared byte by byte, the migrated
`users` admits a new row exactly when it fits and `newUser` holds. -/
theorem admitted_iff_newUser (hsame : ∀ a b, S.same a b = (a == b))
    (hname : ms.sameName = S.same) (hroom : db.users.counter < 2 ^ 31)
    (database : Database ColumnType Value) (times : Int32 × UserRow → Option ℕ) :
    admitted (domain S) database ⟨usersAfter, db.users.rows.map fun r => userValues (times r) r⟩
        (userValues created (db.users.nextKey, ⟨some n, some e, hash⟩)) = true ↔
      (S.chars n ≤ 100 ∧ S.chars hash ≤ 255 ∧ S.chars e ≤ 255) ∧
        newUser ms db ⟨some n, some e, hash⟩ = true := by
  unfold admitted
  rw [Bool.and_eq_true, Bool.and_eq_true, decide_eq_true_eq, fits_userValues]
  have hrefs : usersAfter.refs = [] := rfl
  have hunique : usersAfter.unique = ["id", "display_name", "email"] := rfl
  simp only [hrefs, hunique, List.all_nil, and_true, List.all_cons, Bool.and_true,
    Bool.and_eq_true, List.all_map, List.all_eq_true, Function.comp_apply, clash_id,
    clash_display_name, clash_email]
  refine and_congr_right fun _ => ?_
  rw [newUser_iff]
  refine ⟨?_, ?_⟩
  · rintro ⟨_, hd, hm⟩
    refine ⟨fun o ho heq => ?_, fun o ho a ha => ?_⟩
    · have := hm o ho
      rw [heq] at this
      simp [sameText, hsame] at this
    · have := hd o ho
      rw [ha] at this
      simpa [sameText, hname] using this
  · rintro ⟨hm, hd⟩
    refine ⟨fun o ho => ?_, fun o ho => ?_, fun o ho => ?_⟩
    · have hne : o.1 ≠ db.users.nextKey := fun heq =>
        Table.nextKey_notMem hroom (heq ▸ List.mem_map_of_mem ho)
      simp [hne]
    · cases ha : o.2.display_name with
      | none => rfl
      | some a =>
        have := hd o ho a ha
        rw [hname] at this
        simp [sameText, this]
    · cases ha : o.2.email with
      | none => rfl
      | some a =>
        have hne : a ≠ e := fun heq => hm o ho (heq ▸ ha)
        simp [sameText, hsame, hne]

end Keys

/-! ## Registrations -/

/-- The response of a registration is 201 exactly for a free email, and a 400 leaves the
table as it was. -/
def FreeAccepted (C : Crypto) (auth : Request → Int32) (ms : MySql) (c : Conn Db ResultSet)
    (call : Call) (e : Bytes) : Prop :=
  (((server C auth ms).out c call).code = 201 ↔ EmailFree c.db e) ∧
    (((server C auth ms).out c call).code = 400 →
      ((server C auth ms).next c call).db.users = c.db.users)

/-- **Registration.** Of an ASCII-compatible character set is asked that 97 of its
characters fit the column of the hash. -/
theorem registration_accepts (C : Crypto) (auth : Request → Int32) (ms : MySql)
    (hascii : ∀ s : Bytes, (∀ b ∈ s, b < 128) → s.length ≤ 255 → ms.fits 255 s = true)
    (calls : List Call) (salt : Salt) (req : Request) (f : Fault) (x : RValue) (e n p : Bytes)
    (hb : req.body = some x) (hr : readRegisterBody x = .ok (e, n, p))
    (he : ms.fits 255 e = true) (hn : ms.fits 100 n = true) :
    let c := (server C auth ms).after (.idle Db.migrated) calls
    FreeAccepted C auth ms c ⟨.register salt, req, f⟩ e ↔
      ¬ EmailFree c.db e ∨ (NameFree ms c.db n ∧ Storable f c.db e n) := by
  intro c
  have hidle : Idle c := server_idle.after (idle_idle _) calls
  have hash := hashPassword_ascii C salt p
  have hh : ms.fits 255 (hashPassword C salt p) = true := by
    apply hascii
    · exact fun b hb => (hash b hb).2
    · rw [length_hashPassword]
      omega
  have h0 : (0 : UInt8) ∉ hashPassword C salt p := fun h => (hash 0 h).1 rfl
  have hs : storing C auth ⟨.register salt, req, f⟩ =
      some (.insertUser e n (hashPassword C salt p)) := by
    simp only [storing, registerStmt, hb, hr]
  obtain ⟨r, hserve, hcode⟩ : ∃ r, serve C auth ms ⟨.register salt, req, f⟩ (.idle c.db) = (r, _) ∧ _ :=
    serve_storing hs
  have hstored : (stored ms f c.db _).isSome = true ↔ _ := stored_register_iff he hn hh h0
  unfold FreeAccepted
  rw [hidle.out, hidle.next, hserve, hs, Option.bind_some, hcode]
  cases hst : stored ms f c.db (.insertUser e n (hashPassword C salt p)) with
  | some db' =>
    rw [hst] at hstored
    obtain ⟨hstor, hem, hnm⟩ := hstored.mp rfl
    simp [okCode, hem, hnm, hstor]
  | none =>
    rw [hst] at hstored
    have hno : ¬ (Storable f c.db e n ∧ EmailFree c.db e ∧ NameFree ms c.db n) :=
      fun h => absurd (hstored.mpr h) (by simp)
    simp only [Option.isSome_none, Bool.false_eq_true, if_false, failCode, Option.getD_none]
    refine ⟨?_, ?_⟩
    · rintro ⟨h, _⟩
      left
      exact fun hem => absurd (h.mpr hem) (by decide)
    · intro h
      refine ⟨⟨fun h400 => absurd h400 (by decide), fun hem => ?_⟩, fun _ => rfl⟩
      rcases h with h | ⟨hnm, hstor⟩
      · exact absurd hem h
      · exact absurd ⟨hstor, hem, hnm⟩ hno

theorem users_after_ann :
    ((server Crypto.zero (authenticate Crypto.zero) MySql.plain).after (.idle Db.migrated)
      [annRegister]).db.users.rows = [(1, ⟨some (ascii "ann"), some (ascii "ann@x"),
        hashPassword Crypto.zero (.replicate 16 0) (ascii "pw")⟩)] := rfl

/-- After Ann there is room for Bob. -/
theorem registration_accepts_bob : FreeAccepted Crypto.zero (authenticate Crypto.zero) MySql.plain
    ((server Crypto.zero (authenticate Crypto.zero) MySql.plain).after (.idle Db.migrated)
      [annRegister]) bobRegister (ascii "bob@x") := by
  refine (registration_accepts Crypto.zero (authenticate Crypto.zero) MySql.plain
    (fun _ _ hlen => decide_eq_true hlen) [annRegister] (.replicate 16 0) bobRegister.req .none _
    (ascii "bob@x") (ascii "bob") (ascii "pw") rfl rfl rfl rfl).mpr
    (Or.inr ⟨?_, rfl, by decide, by decide, by decide⟩)
  unfold NameFree
  rw [users_after_ann]
  decide

/-- Another Ann, with an email of her own. -/
def otherAnn : Call :=
  ⟨.register (.replicate 16 0),
    form [("email", "ann@y"), ("displayName", "ann"), ("password", "pw")], .none⟩

/-- She is turned away. -/
theorem registration_rejects_twin :
    let c := (server Crypto.zero (authenticate Crypto.zero) MySql.plain).after (.idle Db.migrated)
      [annRegister]
    EmailFree c.db (ascii "ann@y") ∧
      ((server Crypto.zero (authenticate Crypto.zero) MySql.plain).out c otherAnn).code = 400 ∧
      ¬ FreeAccepted Crypto.zero (authenticate Crypto.zero) MySql.plain c otherAnn
        (ascii "ann@y") := by
  intro c
  have hfree : EmailFree c.db (ascii "ann@y") := by
    intro o ho
    rw [users_after_ann, List.mem_singleton] at ho
    subst ho
    decide
  have hcode : ((server Crypto.zero (authenticate Crypto.zero) MySql.plain).out c otherAnn).code =
      400 := rfl
  refine ⟨hfree, hcode, fun h => ?_⟩
  have h201 := h.1.mpr hfree
  rw [hcode] at h201
  cases h201

end ExpenseTracker.L4.Registration
