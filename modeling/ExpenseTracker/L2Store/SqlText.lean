import ExpenseTracker.Core.SqlLex
import ExpenseTracker.L2Store.Statement

/-!
# The texts of the statements

`Stmt.template` is the statement meant, part by part, and `Stmt.tokens` what the
server should read. The program puts its string arguments between quotes as
they are, without escaping.

* `text_template`: the text built is the text of the template.
* `literals_tokens`: the statement meant has one string literal for each string
  argument, the argument itself.
* `sql_text_iff`: what MySQL reads is the statement meant exactly when no
  string argument has a NUL, a quote, or a backslash but before `%` or `_`.
-/
namespace ExpenseTracker.L2.SqlText

open ExpenseTracker.Core ExpenseTracker.Core.SqlLex
open ExpenseTracker.L1.Amount ExpenseTracker.L2.Statement

/-- An integer argument. -/
def int (i : Int32) : Piece := .num (decide (i.toInt < 0)) (natText i.toInt.natAbs)

/-- An amount argument: six decimals. -/
def double (x : Double) : Piece :=
  .num (decide (x.val < 0)) (natText ((micros x).natAbs / 10 ^ 6) ++ ascii "." ++
    sixDigits ((micros x).natAbs % 10 ^ 6))

def sql (s : String) : Piece := .sql (ascii s)

/-- The statement meant. -/
def template : Stmt → List Piece
  | .insertUser email display_name password_hash =>
    [sql "INSERT INTO users (email, display_name, password_hash) VALUES (", .str email, sql ", ",
      .str display_name, sql ", ", .str password_hash, sql ")"]
  | .selectUser email =>
    [sql "SELECT id, password_hash, display_name FROM users WHERE email = ", .str email]
  | .insertExpense exp =>
    [sql ("INSERT INTO Expenses (user_id, category_id, amount, description, " ++
        "expense_date, type) VALUES ("), int exp.user_id, sql ", ", int exp.category_id, sql ", ",
      double exp.amount, sql ", ", .str exp.description, sql ", ", .str exp.expense_date, sql ", ",
      .str exp.type, sql ")"]
  | .selectExpenses user_id =>
    [sql ("SELECT id, user_id, category_id, amount, description, expense_date, type " ++
        "FROM Expenses WHERE user_id = "), int user_id]
  | .deleteExpense id => [sql "DELETE FROM Expenses WHERE id = ", int id]
  | .insertBudget b =>
    [sql "INSERT INTO Budgets (user_id, category_name, target_amount) VALUES (", int b.user_id,
      sql ", ", .str b.category_name, sql ", ", double b.target_amount, sql ")"]
  | .selectBudgets user_id =>
    [sql "SELECT id, user_id, category_name, target_amount FROM Budgets WHERE user_id = ",
      int user_id]
  | .insertSaving stx =>
    [sql "INSERT INTO Savings (user_id, amount, description, transaction_date) VALUES (",
      int stx.user_id, sql ", ", double stx.amount, sql ", ", .str stx.description, sql ", ",
      .str stx.transaction_date, sql ")"]
  | .selectSavings user_id =>
    [sql ("SELECT id, user_id, amount, description, transaction_date " ++
        "FROM Savings WHERE user_id = "), int user_id]
  | .insertGoal g =>
    [sql ("INSERT INTO Goals (user_id, title, target_amount, saved_amount, deadline, " ++
        "priority) VALUES ("), int g.user_id, sql ", ", .str g.title, sql ", ",
      double g.target_amount, sql ", ", double g.saved_amount, sql ", ", .str g.deadline, sql ", ",
      .str g.priority, sql ")"]
  | .selectGoals user_id =>
    [sql ("SELECT id, user_id, title, target_amount, saved_amount, deadline, priority " ++
        "FROM Goals WHERE user_id = "), int user_id]

/-- The tokens of the statement meant. -/
def tokens (q : Stmt) : List Token := (template q).flatMap Piece.tokens

/-- MySQL reads the text sent as the statement meant, with a string literal
for each string argument. -/
def Faithful (q : Stmt) : Prop := lex q.sent = some (tokens q) ∧ literals (tokens q) = q.strings

/-- A string the program can put between quotes as it is. -/
def Plain (s : Bytes) : Prop := (0 : UInt8) ∉ s ∧ verbatim 39 s = true

/-! ## The template -/

theorem int_text (i : Int32) : (int i).text = intText i.toInt := by
  unfold int Piece.text intText
  by_cases h : i.toInt < 0 <;> simp [h]

theorem double_text (x : Double) : (double x).text = doubleText x := by
  unfold double Piece.text doubleText
  simp only [decide_eq_true_eq, List.append_assoc]

/-- The text built is the text of the template. -/
theorem text_template (q : Stmt) : (template q).flatMap Piece.text = q.text := by
  have hopen : ascii ", '" = ascii ", " ++ [39] := by decide +kernel
  have hclose : ascii "', " = 39 :: ascii ", " := by decide +kernel
  have hnext : ascii "', '" = 39 :: (ascii ", " ++ [39]) := by decide +kernel
  have hlast : ascii "')" = 39 :: ascii ")" := by decide +kernel
  have hquote : ascii "'" = [39] := by decide +kernel
  have huser : ascii "INSERT INTO users (email, display_name, password_hash) VALUES ('" =
      ascii "INSERT INTO users (email, display_name, password_hash) VALUES (" ++ [39] := by
    decide +kernel
  have hemail : ascii "SELECT id, password_hash, display_name FROM users WHERE email = '" =
      ascii "SELECT id, password_hash, display_name FROM users WHERE email = " ++ [39] := by
    decide +kernel
  cases q <;>
    simp only [template, Stmt.text, List.flatMap_cons, List.flatMap_nil, List.append_nil, sql,
      int_text, double_text, Piece.text_sql, Piece.text_str, List.append_assoc, List.cons_append,
      List.nil_append, hopen, hclose, hnext, hlast, hquote, huser, hemail]

theorem isNumber_int (n : ℕ) : isNumber (natText n) = true := by
  have hd : ∀ b ∈ natText n, isDigit b = true := fun b hb => natText_digit hb
  cases h : natText n with
  | nil => exact absurd h (natText_ne_nil n)
  | cons b s =>
    rw [h] at hd
    simp only [isNumber, List.head?_cons, Option.any_some, Bool.and_eq_true]
    exact ⟨hd b List.mem_cons_self, List.all_eq_true.mpr fun c hc => by simp [hd c hc]⟩

theorem isNumber_append {s t : Bytes} (hs : isNumber s = true)
    (ht : t.all (fun b => isDigit b || b == 46) = true) : isNumber (s ++ t) = true := by
  cases s with
  | nil => cases hs
  | cons b s =>
    simp only [isNumber, List.head?_cons, Bool.and_eq_true, List.cons_append, List.all_cons,
      List.all_append] at hs ⊢
    exact ⟨hs.1, hs.2.1, hs.2.2, ht⟩

theorem isNumber_double (m : ℕ) :
    isNumber (natText (m / 10 ^ 6) ++ ascii "." ++ sixDigits (m % 10 ^ 6)) = true := by
  refine isNumber_append (isNumber_append (isNumber_int _) (by decide)) ?_
  refine List.all_eq_true.mpr fun b hb => ?_
  rcases List.mem_append.mp hb with hb | hb
  · obtain rfl : b = 48 := (List.mem_replicate.mp hb).2
    rfl
  · simp [natText_digit hb]

theorem template_wellFormed (q : Stmt) : wellFormed (template q) = true := by
  have hcomma : ∀ l, separated (.sql (ascii ", ") :: l) = true := fun _ => rfl
  have hparen : ∀ l, separated (.sql (ascii ")") :: l) = true := fun _ => rfl
  have hend : separated [] = true := rfl
  cases q <;>
    simp only [template, wellFormed, sql, int, double, isNumber_int, isNumber_double, hcomma,
      hparen, hend, Bool.and_true] <;>
    decide +kernel

/-! ## The texts -/

/-- The literals of the statement meant are its string arguments. -/
theorem literals_eq_strings (q : Stmt) : literals (tokens q) = q.strings := by
  rw [tokens, literals_tokens (template_wellFormed q)]
  cases q <;> rfl

theorem faithful_iff (q : Stmt) : Faithful q ↔ ∀ s ∈ q.strings, Plain s := by
  have hstrings : strings (template q) = q.strings := by
    rw [← literals_eq_strings, tokens, literals_tokens (template_wellFormed q)]
  have hiff := template_iff (template_wellFormed q)
  rw [text_template, hstrings] at hiff
  unfold Faithful tokens Stmt.sent
  rw [hiff]
  exact and_iff_left (literals_eq_strings q)

instance (s : Bytes) : Decidable (Plain s) := inferInstanceAs (Decidable (_ ∧ _))

instance (q : Stmt) : Decidable (Faithful q) := decidable_of_iff _ (faithful_iff q).symm

/-- **SQL text fidelity**, exactly for the plain arguments. -/
theorem sql_text_iff (q : Stmt) : Faithful q ↔ ∀ s ∈ q.strings, Plain s := faithful_iff q

/-- A login with an email that reads as a condition true of every row. -/
theorem sql_text_login :
    lex (Stmt.sent (.selectUser (ascii "x' OR '1'='1"))) =
        some (tokens (.selectUser (ascii "x")) ++
          [.word (ascii "OR"), .str (ascii "1"), .punct 61, .str (ascii "1")]) ∧
      ¬ Faithful (.selectUser (ascii "x' OR '1'='1")) := by
  have hread : lex (Stmt.sent (.selectUser (ascii "x' OR '1'='1"))) =
      some (tokens (.selectUser (ascii "x")) ++
        [.word (ascii "OR"), .str (ascii "1"), .punct 61, .str (ascii "1")]) := by
    decide +kernel
  refine ⟨hread, fun h => ?_⟩
  have hmeant := Option.some.inj (hread.symm.trans h.1)
  have hlit : literals (tokens (.selectUser (ascii "x' OR '1'='1"))) =
      [ascii "x", ascii "1", ascii "1"] := by
    rw [← hmeant]
    decide +kernel
  rw [literals_eq_strings] at hlit
  cases hlit

end ExpenseTracker.L2.SqlText
