import Mathlib.Data.List.Forall2
import Mathlib.Logic.Function.Basic
import ExpenseTracker.Core.Machine

/-!
# Tables whose columns change

A database of named relations under `CREATE TABLE IF NOT EXISTS`, `ALTER
TABLE ... CHANGE`, `ALTER TABLE ... ADD COLUMN`, `INSERT IGNORE` and single
insertions, over any column types `τ` and values `w`. A row is the list of its
values in column order, NULL being `none`. A statement is carried out whole or
fails without effect.

* `upgrade`: a script run with its errors ignored, and cut short; `upgrade_keeps`
  carries an invariant of its statements along.
* `attempt_change_of_notMem`, `attempt_add_of_mem`: an alteration made already fails.
* `Extends`: every row is where it was, with its values first; no statement loses a
  row (`extends_attempt`, `extends_insert`).
-/
namespace ExpenseTracker.Core.Ddl

structure Column (τ w : Type) where
  name : String
  type : τ
  notNull : Bool
  /-- What a row has in it that was there before the column, or leaves it out. -/
  dflt : Option w
  deriving DecidableEq

/-- A table without its rows: columns, unique keys, and foreign keys (column,
table, key column). -/
structure Shape (τ w : Type) where
  columns : List (Column τ w)
  unique : List String
  refs : List (String × String × String)
  deriving DecidableEq

structure Relation (τ w : Type) where
  shape : Shape τ w
  rows : List (List (Option w))

abbrev Database (τ w : Type) := String → Option (Relation τ w)

/-- What the server knows of types and values: the values a column type takes,
and the values a unique key takes for one. -/
structure Domain (τ w : Type) where
  admits : τ → w → Bool
  same : w → w → Bool

variable {τ w : Type} (D : Domain τ w)

def Column.fits (c : Column τ w) : Option w → Bool
  | none => !c.notNull
  | some x => D.admits c.type x

namespace Shape

def names (s : Shape τ w) : List String := s.columns.map Column.name

/-- The value of a row in a column. -/
def value (s : Shape τ w) (row : List (Option w)) (name : String) : Option w :=
  row.getD (s.names.idxOf name) none

/-- NULLs never clash. -/
def clash (s : Shape τ w) (row row' : List (Option w)) (key : String) : Bool :=
  match s.value row key, s.value row' key with
  | some x, some y => D.same x y
  | _, _ => false

/-- Every value is one its column takes. -/
def Fits (s : Shape τ w) (row : List (Option w)) : Prop :=
  List.Forall₂ (fun c x => c.fits D x = true) s.columns row

instance (s : Shape τ w) (row : List (Option w)) : Decidable (s.Fits D row) :=
  inferInstanceAs (Decidable (List.Forall₂ _ _ _))

end Shape

/-! ## Statements -/

/-- The row meets the columns, the unique keys and the foreign keys. -/
def admitted (db : Database τ w) (t : Relation τ w) (row : List (Option w)) : Bool :=
  decide (t.shape.Fits D row) &&
  (t.shape.unique.all fun key => t.rows.all fun r => !t.shape.clash D r row key) &&
  t.shape.refs.all fun (column, table, key) =>
    match t.shape.value row column, db table with
    | none, _ => true
    | some x, some u => u.rows.any fun r => (u.shape.value r key).any (D.same x)
    | some _, none => false

/-- `INSERT` of one row. -/
def insert (db : Database τ w) (table : String) (row : List (Option w)) : Option (Database τ w) :=
  match db table with
  | none => none
  | some t =>
    if admitted D db t row then
      some (Function.update db table (some { t with rows := t.rows ++ [row] }))
    else none

namespace Relation

/-- `CHANGE old c`. The column keeps its place and its keys, the rows keep their
values; a value the new column does not take is an error. -/
def change (t : Relation τ w) (old : String) (c : Column τ w) : Option (Relation τ w) :=
  let rename (name : String) := if name = old then c.name else name
  if old ∈ t.shape.names ∧ (c.name = old ∨ c.name ∉ t.shape.names) ∧
      ∀ r ∈ t.rows, c.fits D (t.shape.value r old) = true then
    some
      { shape :=
          { columns := t.shape.columns.map fun d => if d.name = old then c else d
            unique := t.shape.unique.map rename
            refs := t.shape.refs.map fun p => (rename p.1, p.2) }
        rows := t.rows }
  else none

/-- `ADD COLUMN c`, with or without `UNIQUE`. The rows there get its default. -/
def add (t : Relation τ w) (c : Column τ w) (unique : Bool) : Option (Relation τ w) :=
  if c.name ∉ t.shape.names ∧ c.fits D c.dflt = true ∧
      (unique = true → c.dflt.isSome = true → t.rows.length ≤ 1) then
    some
      { shape :=
          { t.shape with
            columns := t.shape.columns ++ [c]
            unique := if unique then t.shape.unique ++ [c.name] else t.shape.unique }
        rows := t.rows.map (· ++ [c.dflt]) }
  else none

end Relation

/-- The row of values given for some columns. -/
def Shape.fill (s : Shape τ w) (columns : List String) (values : List (Option w)) : List (Option w) :=
  s.columns.map fun c =>
    if c.name ∈ columns then values.getD (columns.idxOf c.name) none else c.dflt

inductive Statement (τ w : Type) where
  | create (table : String) (shape : Shape τ w)
  | change (table old : String) (c : Column τ w)
  | add (table : String) (c : Column τ w) (unique : Bool)
  | insertIgnore (table : String) (columns : List String) (rows : List (List (Option w)))

/-- A statement on a database; `none` is an error. -/
def exec (db : Database τ w) : Statement τ w → Option (Database τ w)
  | .create table shape =>
    match db table with
    | none => some (Function.update db table (some ⟨shape, []⟩))
    | some _ => some db
  | .change table old c =>
    match db table with
    | none => none
    | some t => (t.change D old c).map fun t' => Function.update db table (some t')
  | .add table c unique =>
    match db table with
    | none => none
    | some t => (t.add D c unique).map fun t' => Function.update db table (some t')
  | .insertIgnore table columns rows =>
    match db table with
    | none => none
    | some t =>
      -- an unknown column is an error of the statement, not of a row
      if ∀ c ∈ columns, c ∈ t.shape.names then
        some (rows.foldl (fun db row => (insert D db table (t.shape.fill columns row)).getD db) db)
      else none

/-- `mysql_query` with its error ignored. -/
def attempt (db : Database τ w) (s : Statement τ w) : Database τ w := (exec D db s).getD db

/-- A script whose errors are ignored, stopped after `n` statements. -/
def upgrade (script : List (Statement τ w)) (n : ℕ) (db : Database τ w) : Database τ w :=
  (script.take n).foldl (attempt D) db

/-- An invariant of every statement of a script holds after any part of it. -/
theorem upgrade_keeps {P : Database τ w → Prop} {script : List (Statement τ w)}
    (h : ∀ s ∈ script, ∀ db, P db → P (attempt D db s)) (n : ℕ) {db : Database τ w} (hdb : P db) :
    P (upgrade D script n db) := by
  unfold upgrade
  have htake : ∀ s ∈ script.take n, ∀ db, P db → P (attempt D db s) :=
    fun s hs => h s (List.mem_of_mem_take hs)
  generalize script.take n = part at htake
  induction part generalizing db with
  | nil => exact hdb
  | cons s rest ih =>
    obtain ⟨hs, hrest⟩ := List.forall_mem_cons.mp htake
    exact ih (hs db hdb) hrest

variable {D} {db db' : Database τ w} {table old : String} {t : Relation τ w} {c : Column τ w}

/-! ## Alterations that are made already -/

theorem attempt_change_of_notMem (ht : db table = some t) (hold : old ∉ t.shape.names) :
    attempt D db (.change table old c) = db := by
  unfold attempt exec
  simp only [ht]
  unfold Relation.change
  rw [if_neg fun h => hold h.1]
  rfl

theorem attempt_add_of_mem {unique : Bool} (ht : db table = some t) (hc : c.name ∈ t.shape.names) :
    attempt D db (.add table c unique) = db := by
  unfold attempt exec
  simp only [ht]
  unfold Relation.add
  rw [if_neg fun h => h.1 hc]
  rfl

theorem attempt_change_of_some {t' : Relation τ w} (ht : db table = some t)
    (h : t.change D old c = some t') :
    attempt D db (.change table old c) = Function.update db table (some t') := by
  unfold attempt exec
  simp only [ht, h]
  rfl

theorem attempt_add_of_some {t' : Relation τ w} {unique : Bool} (ht : db table = some t)
    (h : t.add D c unique = some t') :
    attempt D db (.add table c unique) = Function.update db table (some t') := by
  unfold attempt exec
  simp only [ht, h]
  rfl

theorem attempt_create_of_some {shape : Shape τ w} (ht : db table = some t) :
    attempt D db (.create table shape) = db := by
  unfold attempt exec
  simp only [ht]
  rfl

theorem attempt_create_of_none {shape : Shape τ w} (ht : db table = none) :
    attempt D db (.create table shape) = Function.update db table (some ⟨shape, []⟩) := by
  unfold attempt exec
  simp only [ht]
  rfl

theorem attempt_insertIgnore_of_notMem {columns : List String} {rows : List (List (Option w))}
    (ht : db table = some t) {name : String} (hn : name ∈ columns) (hno : name ∉ t.shape.names) :
    attempt D db (.insertIgnore table columns rows) = db := by
  unfold attempt exec
  simp only [ht]
  rw [if_neg fun h => hno (h name hn)]
  rfl

/-! ## Rows stay -/

/-- The rows of `t` are the first rows of `t'`, each with its values first. -/
def Relation.Extends (t t' : Relation τ w) : Prop :=
  ∃ kept more, t'.rows = kept ++ more ∧ List.Forall₂ (· <+: ·) t.rows kept

def Extends (db db' : Database τ w) : Prop :=
  ∀ table t, db table = some t → ∃ t', db' table = some t' ∧ t.Extends t'

theorem Relation.extends_append (t : Relation τ w) (shape : Shape τ w)
    (more : List (List (Option w))) : t.Extends ⟨shape, t.rows ++ more⟩ :=
  ⟨t.rows, more, rfl, List.forall₂_same.mpr fun _ _ => List.prefix_rfl⟩

theorem Relation.Extends.refl (t : Relation τ w) : t.Extends t :=
  ⟨t.rows, [], (List.append_nil _).symm, List.forall₂_same.mpr fun _ _ => List.prefix_rfl⟩

theorem prefixes_trans {α : Type} : ∀ {l₁ l₂ l₃ : List (List α)}, List.Forall₂ (· <+: ·) l₁ l₂ →
    List.Forall₂ (· <+: ·) l₂ l₃ → List.Forall₂ (· <+: ·) l₁ l₃
  | _, _, _, .nil, .nil => .nil
  | _, _, _, .cons h hs, .cons h' hs' => .cons (h.trans h') (prefixes_trans hs hs')

theorem Relation.Extends.trans {t₁ t₂ t₃ : Relation τ w} (h : t₁.Extends t₂) (h' : t₂.Extends t₃) :
    t₁.Extends t₃ := by
  obtain ⟨k₁, m₁, he₁, hf₁⟩ := h
  obtain ⟨k₂, m₂, he₂, hf₂⟩ := h'
  rw [he₁] at hf₂
  -- the rows kept the second time, cut where the rows kept the first time end
  refine ⟨k₂.take k₁.length, k₂.drop k₁.length ++ m₂, ?_, ?_⟩
  · rw [he₂, ← List.append_assoc, List.take_append_drop]
  · have htake := List.forall₂_take_append k₂ k₁ m₁ hf₂.flip
    exact prefixes_trans hf₁ htake.flip

/-- Without new rows, row by row. -/
theorem Relation.Extends.forall₂ {t t' : Relation τ w} (h : t.Extends t')
    (hlen : t'.rows.length = t.rows.length) : List.Forall₂ (· <+: ·) t.rows t'.rows := by
  obtain ⟨kept, more, he, hf⟩ := h
  have hkept := hf.length_eq
  have hmore : more = [] := by
    apply List.eq_nil_of_length_eq_zero
    rw [he, List.length_append] at hlen
    omega
  rw [he, hmore, List.append_nil]
  exact hf

theorem Extends.refl (db : Database τ w) : Extends db db := fun _ t ht => ⟨t, ht, .refl t⟩

theorem Extends.trans {db₁ db₂ db₃ : Database τ w} (h : Extends db₁ db₂) (h' : Extends db₂ db₃) :
    Extends db₁ db₃ := by
  intro table t ht
  obtain ⟨t', ht', he⟩ := h table t ht
  obtain ⟨t'', ht'', he'⟩ := h' table t' ht'
  exact ⟨t'', ht'', he.trans he'⟩

/-- Only the table written changes. -/
theorem extends_update {t' : Relation τ w} (ht : db table = some t) (h : t.Extends t') :
    Extends db (Function.update db table (some t')) := by
  intro name u hu
  by_cases hn : name = table
  · subst hn
    cases ht.symm.trans hu
    exact ⟨t', Function.update_self .., h⟩
  · exact ⟨u, by rw [Function.update_of_ne hn, hu], .refl u⟩

theorem extends_insert {row : List (Option w)} (h : insert D db table row = some db') :
    Extends db db' := by
  unfold insert at h
  split at h
  · cases h
  rename_i t ht
  split at h
  · cases h
    exact extends_update ht (t.extends_append _ _)
  · cases h

theorem Relation.extends_change {t' : Relation τ w} (h : t.change D old c = some t') :
    t.Extends t' := by
  unfold Relation.change at h
  split at h
  · cases h
    exact .refl t
  · cases h

theorem Relation.extends_add {unique : Bool} {t' : Relation τ w} (h : t.add D c unique = some t') :
    t.Extends t' := by
  unfold Relation.add at h
  split at h
  · cases h
    refine ⟨_, [], (List.append_nil _).symm, ?_⟩
    rw [List.forall₂_map_right_iff]
    exact List.forall₂_same.mpr fun r _ => List.prefix_append r _
  · cases h

/-- **No statement loses a row.** -/
theorem extends_attempt (s : Statement τ w) (db : Database τ w) : Extends db (attempt D db s) := by
  unfold attempt
  cases hs : exec D db s with
  | none => exact .refl db
  | some db' =>
    rw [Option.getD_some]
    cases s with
    | create table shape =>
      simp only [exec] at hs
      split at hs
      · rename_i hnone
        cases hs
        intro name u hu
        have hne : name ≠ table := by
          intro hn
          subst hn
          rw [hnone] at hu
          cases hu
        exact ⟨u, by rw [Function.update_of_ne hne, hu], .refl u⟩
      · cases hs
        exact .refl db
    | change table old c =>
      simp only [exec] at hs
      split at hs
      · cases hs
      rename_i t ht
      obtain ⟨t', ht', rfl⟩ := Option.map_eq_some_iff.mp hs
      exact extends_update ht (Relation.extends_change ht')
    | add table c unique =>
      simp only [exec] at hs
      split at hs
      · cases hs
      rename_i t ht
      obtain ⟨t', ht', rfl⟩ := Option.map_eq_some_iff.mp hs
      exact extends_update ht (Relation.extends_add ht')
    | insertIgnore table columns rows =>
      simp only [exec] at hs
      split at hs
      · cases hs
      rename_i t ht
      split at hs
      · cases hs
        -- row by row: one more, or skipped
        generalize hfill : t.shape.fill columns = fill
        clear ht hfill
        induction rows generalizing db with
        | nil => exact .refl db
        | cons row rows ih =>
          refine Extends.trans ?_ (ih _)
          show Extends db ((insert D db table (fill row)).getD db)
          cases hi : insert D db table (fill row) with
          | none => exact .refl db
          | some db' => exact extends_insert hi
      · cases hs

theorem extends_upgrade (script : List (Statement τ w)) (n : ℕ) (db : Database τ w) :
    Extends db (upgrade D script n db) :=
  upgrade_keeps D (fun s _ db' h => h.trans (extends_attempt s db')) n (.refl db)

end ExpenseTracker.Core.Ddl
