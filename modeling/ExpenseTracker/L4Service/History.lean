import ExpenseTracker.L2Store.Integrity
import ExpenseTracker.L4Service.Categorised
import ExpenseTracker.L4Service.Workers

/-!
# The tables over whole runs

Whatever is requested, whoever asks and whichever calls fail, the rows meet the
constraints of the schema, also while the workers interleave; and so every list that
is read shows them. A list only ever grows at its end, under larger ids, but for the
expenses whose DELETE was answered 200, and an id stands for one record for good.

* `integrity`: the constraints in every state that is reached, and what a list
  shows there.
* `later_after`: the tables before and after a run.
* `lists_over_time`: two lists of a user, one after the other.
-/
namespace ExpenseTracker.L4.History

open ExpenseTracker.Core ExpenseTracker.L1.Password
open ExpenseTracker.L2.Schema ExpenseTracker.L2.Server ExpenseTracker.L2.Statement
open ExpenseTracker.L2.Integrity
open ExpenseTracker.L3.Json ExpenseTracker.L3.Routes ExpenseTracker.L3.Serve ExpenseTracker.L3.Records
open ExpenseTracker.L3.Answers ExpenseTracker.L3.Program
open ExpenseTracker.L4.Reads ExpenseTracker.L4.Tokens

/-! ## Constraints -/

section Valid

variable {ms : MySql} {db : Db} (hv : Valid ms db) (u : Int32) (k : Collection)

include hv

/-- No text that is stored ends early. -/
theorem plainTexts_of_valid : PlainTexts db u k := by
  cases k with
  | Expenses =>
    intro r hr s hs
    obtain ⟨_, ⟨d, hd, hdesc⟩, hdate, t, ht, hlabel⟩ := hv.Expenses r (Table.mem_select.mp hr).1
    simp only [expenseReader, hd, ht, Option.toList_some, List.mem_append, List.mem_cons,
      List.not_mem_nil, or_false] at hs
    rcases hs with rfl | rfl | rfl
    · exact hdesc.whole
    · exact hdate.noNul
    · rcases hlabel with rfl | rfl <;> decide
  | Budgets =>
    intro r hr s hs
    obtain ⟨_, c, _, _, hc, _, hname⟩ := hv.Budgets r (Table.mem_select.mp hr).1
    simp only [budgetReader, hc, Option.toList_some, List.mem_singleton] at hs
    exact hs ▸ hname.whole
  | Savings =>
    intro r hr s hs
    obtain ⟨_, _, d, t, _, _, hd, ht, hdesc, hdate⟩ := hv.Savings r (Table.mem_select.mp hr).1
    simp only [savingReader, hd, ht, Option.toList_some, List.mem_append, List.mem_singleton] at hs
    rcases hs with rfl | rfl
    · exact hdesc.whole
    · exact hdate.noNul
  | Goals =>
    intro r hr s hs
    obtain ⟨_, t, _, _, d, p, _, ht, _, _, hd, hp, htitle, hdate, hprio⟩ :=
      hv.Goals r (Table.mem_select.mp hr).1
    simp only [goalReader, ht, hd, hp, Option.toList_some, List.mem_append, List.mem_singleton] at hs
    rcases hs with (rfl | rfl) | rfl
    · exact htitle.whole
    · exact hdate.noNul
    · exact hprio.whole

theorem noNull_of_valid : hasNull db u k = false := by
  have hnull : ∀ {ρ α : Type} (R : Reader ρ α) (t : Table ρ),
      (∀ r ∈ t.rows, R.null r.2 = false) → R.hasNull t u = false := by
    intro ρ α R t h
    rw [Reader.hasNull, List.any_eq_false]
    intro r hr
    rw [h r (Table.mem_select.mp hr).1]
    exact Bool.false_ne_true
  cases k with
  | Expenses => exact hnull _ _ fun _ _ => rfl
  | Budgets =>
    refine hnull _ _ fun r hr => ?_
    obtain ⟨_, _, _, _, _, hx, _⟩ := hv.Budgets r hr
    simp [budgetReader, hx]
  | Savings =>
    refine hnull _ _ fun r hr => ?_
    obtain ⟨_, _, _, _, _, hx, _⟩ := hv.Savings r hr
    simp [savingReader, hx]
  | Goals =>
    refine hnull _ _ fun r hr => ?_
    obtain ⟨_, _, _, _, _, _, _, _, hx, hy, _⟩ := hv.Goals r hr
    simp [goalReader, hx, hy]

/-- So a list is answered with the rows as they are. -/
theorem listed_of_valid : listed db u k = .ok (shown db u k) := by
  have reader : ∀ {ρ α : Type} (R : Reader ρ α) (t : Table ρ), R.hasNull t u = false →
      R.Plain t u → R.listed t u = .ok (R.shown t u) := by
    intro ρ α R t hn hp
    rw [R.listed_ok hn]
    exact congrArg Except.ok (List.map_congr_left fun r hr => by rw [R.cut_plain r.2 (hp r hr)])
  have hn := noNull_of_valid hv u k
  have hp := plainTexts_of_valid hv u k
  cases k with
  | Expenses =>
    rw [listed_Expenses]
    exact reader _ _ hn hp
  | Budgets => exact reader _ _ hn hp
  | Savings => exact reader _ _ hn hp
  | Goals => exact reader _ _ hn hp

end Valid

/-- A list whose calls are carried out. -/
def listCall (k : Collection) (req : Request) : Call := ⟨k.getRoute, req, .none⟩

section Integrity

variable (C : Crypto) (auth : Request → Int32) (ms : MySql)

theorem serve_list {db : Db} (hv : Valid ms db) {req : Request} (ha : auth req ≠ -1)
    (k : Collection) :
    (serve C auth ms (listCall k req) (.idle db)).1 =
      ⟨200, .json (.ofList (shown db (auth req) k))⟩ := by
  have hserve : serve C auth ms (listCall k req) (.idle db) = _ := serve_get (c := k) rfl ha
  rw [hserve]
  show listing (listed db (auth req) k) = _
  rw [listed_of_valid hv]
  rfl

theorem server_keeps {P : Db → Prop} (h : Keeps (exec ms) P) :
    (server C auth ms).Inductive fun c => P c.db :=
  fun _ call hc => h.run (handle C auth call.route call.req) hc

end Integrity

/-- The expense a request deleted, by its answer. -/
def deletedBy (call : Call) (r : Response) : List Int32 :=
  match call.route with
  | .deleteExpense id => if r.code = 200 then [id] else []
  | _ => []

/-- The expenses deleted in a run, by its answers. -/
def deleted (history : List (Call × Option Response)) : List Int32 :=
  history.flatMap fun x => x.2.elim [] (deletedBy x.1)

section Run

variable {C : Crypto} {auth : Request → Int32} {ms : MySql}

/-- A request deletes what its statement deletes. -/
theorem goneBy_of_storing {call : Call} {q : Stmt} (h : storing C auth call = some q) {r : Response}
    (hr : r.code = okCode call.route) : goneBy q = deletedBy call r := by
  obtain ⟨route, req, f⟩ := call
  cases route with
  | deleteExpense id =>
    simp only [storing] at h
    split at h
    · cases h
    · cases h
      exact (if_pos hr).symm
  | _ =>
    cases q with
    | deleteExpense id => cases (Isolation.storing_delete h).1
    | _ => rfl

/-- A refused request deletes nothing. -/
theorem deletedBy_of_code {call : Call} {r : Response} (hr : r.code ≠ 200) : deletedBy call r = [] := by
  unfold deletedBy
  split
  · exact if_neg hr
  · rfl

/-- **One request.** -/
theorem later_next {c : Conn Db ResultSet} (hc : Idle c) (call : Call) :
    Later (deletedBy call ((server C auth ms).out c call)) c.db ((server C auth ms).next c call).db := by
  cases hs : storing C auth call with
  | some q =>
    rcases Refinement.step_storing ms hc hs with ⟨_, hnext, hcode⟩ | ⟨db', rs, he, hnext, hcode⟩
    · have hfail : ((server C auth ms).out c call).code ≠ 200 := by
        rw [hcode]
        unfold failCode
        split <;> decide
      rw [hnext, deletedBy_of_code hfail]
      exact Later.refl _
    · rw [hnext, ← goneBy_of_storing hs hcode]
      exact later_exec he
  | none =>
    have hnext : (server C auth ms).next c call = c := by
      rw [hc.next, hs]
      exact hc.eq.symm
    have hnone : deletedBy call ((server C auth ms).out c call) = [] := by
      by_cases hw : writes call.route = true
      · have ⟨r, hr, hcode, _⟩ : ∃ r, serve C auth ms call (.idle c.db) = (r, .idle c.db) ∧ _ :=
          serve_unstored hs hw
        refine deletedBy_of_code ?_
        rw [hc.out, hr]
        intro h200
        rw [h200] at hcode
        simp at hcode
      · unfold deletedBy
        split
        · rename_i id hroute
          rw [hroute] at hw
          exact absurd rfl hw
        · rfl
    rw [hnext, hnone]
    exact Later.refl _

/-- **A run** of the server. -/
theorem later_after {c : Conn Db ResultSet} (hc : Idle c) (calls : List Call) :
    Later (((server C auth ms).history c calls).flatMap fun x => deletedBy x.1 x.2) c.db
      ((server C auth ms).after c calls).db := by
  induction calls generalizing c with
  | nil => exact Later.refl _
  | cons call calls ih => exact (later_next hc call).trans (ih (server_idle c call hc))

/-- What is deleted by the program's answers is what is deleted by the server's. -/
theorem deleted_history {other : Exec Db Bytes ResultSet} {calls : List Call}
    (h : ∀ call ∈ calls, Tame C auth ms call) (c : Conn Db ResultSet) :
    deleted ((app C auth ms other).history ⟨true, c⟩ calls) =
      ((server C auth ms).history c calls).flatMap fun x => deletedBy x.1 x.2 := by
  rw [app, program_history (fun call hc => (h call hc).orderly other), deleted, List.flatMap_map]
  rfl

end Run

/-! ## Lists over time -/

/-- The `id` of an entry. -/
def idOf (v : WValue) : Option Int32 :=
  match v with
  | .object o =>
    match o.find? (·.1 == ascii "id") with
    | some (_, .int i) => some i
    | _ => none
  | _ => none

/-- The entries whose ids are not among `gone`. -/
def remaining (gone : List Int32) (l : List WValue) : List WValue :=
  l.filter fun v => match idOf v with
    | some id => !gone.contains id
    | none => true

/-- `l'` is `l` some time later: the entries `gone` are not in it, the others stand unchanged and
in the same order, and what is new stands behind them, under larger ids. An id stands for one
entry. -/
def Follows (gone : List Int32) (l l' : List WValue) : Prop :=
  (∃ new, l' = remaining gone l ++ new ∧ ∀ v ∈ l, ∀ w ∈ new,
    ∃ i j, idOf v = some i ∧ idOf w = some j ∧ i.toInt < j.toInt) ∧
    ∀ v ∈ l, ∀ w ∈ l', idOf v = idOf w → v = w

section Lists

variable {ρ α : Type} (R : Reader ρ α)

theorem follows_of_later (hid : ∀ r, idOf (R.json (R.ofRow r)) = some r.1) {t t' : Table ρ}
    {gone : List Int32} (h : Table.Later gone t t') (u : Int32) :
    Follows gone (R.shown t u) (R.shown t' u) := by
  obtain ⟨new, hrows, hnew⟩ := h.select fun r => R.owner r == some u
  have hold : remaining gone (R.shown t u) =
      ((R.rows t u).filter fun r => !gone.contains r.1).map fun r => R.json (R.ofRow r) := by
    unfold remaining Reader.shown
    rw [List.filter_map]
    congr 1
    refine List.filter_congr fun r _ => ?_
    simp only [Function.comp_apply, hid]
  have hrows' : R.rows t' u = ((R.rows t u).filter fun r => !gone.contains r.1) ++ new := hrows
  have hlarger : ∀ r ∈ R.rows t u, ∀ r' ∈ new, r.1.toInt < r'.1.toInt := by
    intro r hr r' hr'
    have hbelow := t.below r (Table.mem_select.mp hr).1
    have hge := hnew r' hr'
    omega
  refine ⟨⟨new.map fun r => R.json (R.ofRow r), ?_, ?_⟩, ?_⟩
  · rw [hold, Reader.shown, hrows', List.map_append]
  · intro v hv w hw
    obtain ⟨r, hr, rfl⟩ := List.mem_map.mp hv
    obtain ⟨r', hr', rfl⟩ := List.mem_map.mp hw
    exact ⟨_, _, hid r, hid r', hlarger r hr r' hr'⟩
  · intro v hv w hw he
    obtain ⟨r, hr, rfl⟩ := List.mem_map.mp hv
    obtain ⟨r', hr', rfl⟩ := List.mem_map.mp hw
    rw [hid, hid] at he
    have hkey : r.1 = r'.1 := Option.some.inj he
    rw [hrows'] at hr'
    rcases List.mem_append.mp hr' with hr' | hr'
    · -- the same row, since keys differ
      have hmem : r ∈ t.rows := (Table.mem_select.mp hr).1
      have hmem' : r' ∈ t.rows := (Table.mem_select.mp (List.mem_of_mem_filter hr')).1
      rw [List.inj_on_of_nodup_map t.nodup hmem hmem' hkey]
    · have hlt := hlarger r hr r' hr'
      rw [hkey] at hlt
      exact absurd hlt (lt_irrefl _)

end Lists

/-- What a list of the collection loses in a run. -/
def goneFrom (ids : List Int32) : Collection → List Int32
  | .Expenses => ids
  | _ => []

theorem shown_follows {gone : List Int32} {db db' : Db} (h : Later gone db db') (u : Int32)
    (k : Collection) : Follows (goneFrom gone k) (shown db u k) (shown db' u k) := by
  cases k with
  | Expenses => exact follows_of_later expenseReader (fun _ => rfl) h.Expenses u
  | Budgets => exact follows_of_later budgetReader (fun _ => rfl) h.Budgets u
  | Savings => exact follows_of_later savingReader (fun _ => rfl) h.Savings u
  | Goals => exact follows_of_later goalReader (fun _ => rfl) h.Goals u

section Run

variable {C : Crypto} {auth : Request → Int32} {ms : MySql} {other : Exec Db Bytes ResultSet}

/-- After tame requests the process answers a list with the rows. -/
theorem out_list {db : Db} (hv : Valid ms db) {calls : List Call}
    (h : ∀ call ∈ calls, Tame C auth ms call) {req : Request} (ha : auth req ≠ -1) (k : Collection) :
    (app C auth ms other).out ((app C auth ms other).after (.start db) calls) (listCall k req) =
      some ⟨200, .json (.ofList
        (shown ((server C auth ms).after (.idle db) calls).db (auth req) k))⟩ := by
  have hidle : Idle ((server C auth ms).after (.idle db) calls) :=
    server_idle.after (idle_idle db) calls
  have hvalid : Valid ms ((server C auth ms).after (.idle db) calls).db :=
    (server_keeps C auth ms (keeps_valid ms)).after (s := .idle db) hv calls
  rw [app, Process.start, program_after fun call hc => (h call hc).orderly other,
    program_out ((tame_get (k := k) rfl).orderly other), hidle.out,
    serve_list C auth ms hvalid ha k]

end Run

/-- **Lists over time.** Two lists of a user at two points of any run: both are answered 200, and
the later one follows the earlier, the expenses deleted in between gone. -/
theorem lists_over_time (C : Crypto) (auth : Request → Int32) (ms : MySql)
    (other : Exec Db Bytes ResultSet) (db : Db) (hv : Valid ms db) (xs ys : List Call)
    (htame : ∀ call ∈ xs ++ ys, Tame C auth ms call) (k : Collection) (req req' : Request)
    (ha : auth req ≠ -1) (hsame : auth req' = auth req) :
    ∃ l l', (app C auth ms other).out ((app C auth ms other).after (.start db) xs)
        (listCall k req) = some ⟨200, .json (.ofList l)⟩ ∧
      (app C auth ms other).out ((app C auth ms other).after (.start db) (xs ++ ys))
        (listCall k req') = some ⟨200, .json (.ofList l')⟩ ∧
      Follows (goneFrom (deleted ((app C auth ms other).history
        ((app C auth ms other).after (.start db) xs) ys)) k) l l' := by
  obtain ⟨hxs, hys⟩ := List.forall_mem_append.mp htame
  have hidle : Idle ((server C auth ms).after (.idle db) xs) := server_idle.after (idle_idle db) xs
  have hlater := @later_after C auth ms _ hidle ys
  rw [← Machine.after_append] at hlater
  refine ⟨_, _, out_list hv hxs ha k, out_list hv htame (hsame ▸ ha) k, ?_⟩
  rw [hsame, Process.start, app, program_after fun call hc => (hxs call hc).orderly other]
  rw [← app, deleted_history hys]
  exact shown_follows hlater (auth req) k

theorem valid_annsHome : Valid .plain Refinement.annsHome := by
  refine ⟨rfl, ?_, by decide, by simp [Refinement.annsHome], ?_, ?_, ?_, ?_, ?_⟩
  · intro r hr
    obtain rfl := List.mem_singleton.mp hr
    exact ⟨_, _, rfl, rfl, ⟨by decide, by decide, by decide⟩, ⟨by decide, by decide, by decide⟩,
      ⟨by decide, by decide, by decide⟩⟩
  all_goals simp [Refinement.annsHome, Db.migrated, Table.empty]

theorem tame_lunch : Tame Crypto.zero (authenticate Crypto.zero) .plain Refinement.postLunch :=
  Categorised.tame_post Crypto.zero (Categorised.postable_ann _
    (Refinement.readExpenseBody_form Refinement.lunchForm_body) (by decide))

/-- Ann's expenses after a lunch, and after another. -/
theorem lists_over_time_ann :
    ((app Crypto.zero (authenticate Crypto.zero) .plain fun _ _ => none).after
      (.start Refinement.annsHome)
      ([Refinement.postLunch] ++ [Refinement.postLunch])).conn.db.Expenses.rows.length = 2 ∧
    ∃ l l',
      (app Crypto.zero (authenticate Crypto.zero) .plain fun _ _ => none).out
        ((app Crypto.zero (authenticate Crypto.zero) .plain fun _ _ => none).after
          (.start Refinement.annsHome) [Refinement.postLunch])
        (listCall .Expenses (bearer annToken none)) = some ⟨200, .json (.ofList l)⟩ ∧
      (app Crypto.zero (authenticate Crypto.zero) .plain fun _ _ => none).out
        ((app Crypto.zero (authenticate Crypto.zero) .plain fun _ _ => none).after
          (.start Refinement.annsHome) ([Refinement.postLunch] ++ [Refinement.postLunch]))
        (listCall .Expenses (bearer annToken none)) = some ⟨200, .json (.ofList l')⟩ ∧
      Follows (goneFrom (deleted
        ((app Crypto.zero (authenticate Crypto.zero) .plain fun _ _ => none).history
          ((app Crypto.zero (authenticate Crypto.zero) .plain fun _ _ => none).after
            (.start Refinement.annsHome) [Refinement.postLunch]) [Refinement.postLunch])) .Expenses)
        l l' := by
  have htame : ∀ call ∈ [Refinement.postLunch] ++ [Refinement.postLunch],
      Tame Crypto.zero (authenticate Crypto.zero) .plain call := by
    intro call hcall
    obtain rfl : call = Refinement.postLunch := by simpa using hcall
    exact tame_lunch
  refine ⟨?_, lists_over_time Crypto.zero (authenticate Crypto.zero) .plain (fun _ _ => none)
    Refinement.annsHome valid_annsHome [Refinement.postLunch] [Refinement.postLunch] htame .Expenses
    (bearer annToken none) (bearer annToken none) (Refinement.acting_ann .getExpenses none .none) rfl⟩
  rw [app, Process.start, program_after fun call hc => (htame call hc).orderly _]
  decide +kernel

end ExpenseTracker.L4.History
