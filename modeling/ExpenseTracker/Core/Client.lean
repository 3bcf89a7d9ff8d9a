import Mathlib.Data.List.Basic

/-!
# Programs over a database client library

A program that talks to one connection of a client library with two calls:
`query q` runs a statement (its answer: did it fail), and `store` fetches the
result set of the last successful query. `Prog` is the tree of calls of such
a program, generic in statements `Q`, result sets `R` and exceptions `E`.

`Conn` is the connection: the database and the result set still to be
fetched. A query issued while one is pending fails (commands out of sync),
and `store` hands out the pending one. `Fault` says which calls fail besides.

* `run_bind`: the run of a sequence is the run of its parts.
* `Prog.issued`: the statements a run passes to the library; `issued_bind`: those of
  a sequence. A run depends on these statements alone (`run_congr`).
* `Prog.Only`, `Prog.Never`: what the statements of a program meet, and an exception it has
  nowhere; `Only.issued`, `Never.run`: so in every run.
-/
namespace ExpenseTracker.Core

inductive Prog (Q R E α : Type) where
  | ret (a : α)
  | raise (e : E)
  | query (q : Q) (k : Bool → Prog Q R E α)
  | store (k : Option R → Prog Q R E α)

namespace Prog

variable {Q R E α β : Type}

def bind : Prog Q R E α → (α → Prog Q R E β) → Prog Q R E β
  | .ret a, f => f a
  | .raise e, _ => .raise e
  | .query q k, f => .query q fun b => (k b).bind f
  | .store k, f => .store fun r => (k r).bind f

instance : Monad (Prog Q R E) where
  pure := .ret
  bind := bind

@[simp] theorem pure_eq (a : α) : (pure a : Prog Q R E α) = .ret a := rfl

@[simp] theorem bind_eq (p : Prog Q R E α) (f : α → Prog Q R E β) : (p >>= f) = p.bind f := rfl

@[simp] theorem ret_bind (a : α) (f : α → Prog Q R E β) : (ret a).bind f = f a := rfl

@[simp] theorem raise_bind (e : E) (f : α → Prog Q R E β) : (raise e).bind f = raise e := rfl

/-- A computation without calls. -/
def lift : Except E α → Prog Q R E α
  | .ok a => .ret a
  | .error e => .raise e

@[simp] theorem lift_ok (a : α) : (lift (.ok a) : Prog Q R E α) = .ret a := rfl

@[simp] theorem lift_error (e : E) : (lift (.error e) : Prog Q R E α) = .raise e := rfl

/-- Run a statement; the answer is true when it fails. -/
def callQuery (q : Q) : Prog Q R E Bool := .query q .ret

/-- Fetch the pending result set. -/
def callStore : Prog Q R E (Option R) := .store .ret

end Prog

/-! ## The connection -/

/-- The database and the result set still to be fetched. -/
structure Conn (D R : Type) where
  db : D
  pending : Option R

/-- What the server does with a statement: `none` when it fails; otherwise
the database after it and the result set of a statement that has one. -/
abbrev Exec (D Q R : Type) := D → Q → Option (D × Option R)

/-- Which calls fail for a reason of their own. -/
structure Fault where
  query : Bool
  store : Bool
  deriving DecidableEq

def Fault.none : Fault := ⟨false, false⟩

namespace Conn

variable {D Q R : Type}

/-- A connection with nothing to fetch. -/
def idle (d : D) : Conn D R := ⟨d, .none⟩

/-- One query: it fails while a result set is pending, on a fault,
and when the server refuses the statement. -/
def query (ex : Exec D Q R) (f : Fault) (c : Conn D R) (q : Q) : Bool × Conn D R :=
  if c.pending.isSome || f.query then (true, c)
  else
    match ex c.db q with
    | .none => (true, c)
    | some (d, r) => (false, ⟨d, r⟩)

/-- One fetch: the pending result set, NULL when there is none
or on a fault. -/
def store (f : Fault) (c : Conn D R) : Option R × Conn D R :=
  (if f.store then .none else c.pending, idle c.db)

end Conn

namespace Prog

variable {D Q R E α β : Type} (ex : Exec D Q R) (f : Fault)

/-- A program alone on a connection. -/
def run : Prog Q R E α → Conn D R → Except E α × Conn D R
  | .ret a, c => (.ok a, c)
  | .raise e, c => (.error e, c)
  | .query q k, c => (k (c.query ex f q).1).run (c.query ex f q).2
  | .store k, c => (k (c.store f).1).run (c.store f).2

/-- The statements it passes to the library. -/
def issued : Prog Q R E α → Conn D R → List Q
  | .ret _, _ => []
  | .raise _, _ => []
  | .query q k, c => q :: (k (c.query ex f q).1).issued (c.query ex f q).2
  | .store k, c => (k (c.store f).1).issued (c.store f).2

variable {ex f}

@[simp] theorem run_ret (a : α) (c : Conn D R) : (ret a : Prog Q R E α).run ex f c = (.ok a, c) := rfl

@[simp] theorem run_raise (e : E) (c : Conn D R) :
    (raise e : Prog Q R E α).run ex f c = (.error e, c) := rfl

theorem run_bind (p : Prog Q R E α) (g : α → Prog Q R E β) (c : Conn D R) :
    (p.bind g).run ex f c =
      match p.run ex f c with
      | (.ok a, c') => (g a).run ex f c'
      | (.error e, c') => (.error e, c') := by
  induction p generalizing c with
  | ret a => rfl
  | raise e => rfl
  | query q k ih => exact ih _ _
  | store k ih => exact ih _ _

theorem issued_bind (p : Prog Q R E α) (g : α → Prog Q R E β) (c : Conn D R) :
    (p.bind g).issued ex f c = p.issued ex f c ++
      match p.run ex f c with
      | (.ok a, c') => (g a).issued ex f c'
      | (.error _, _) => [] := by
  induction p generalizing c with
  | ret a => rfl
  | raise e => rfl
  | query q k ih => exact congrArg (q :: ·) (ih _ _)
  | store k ih => exact ih _ _

@[simp] theorem run_lift (x : Except E α) (c : Conn D R) :
    (lift x : Prog Q R E α).run ex f c = (x, c) := by
  cases x <;> rfl

/-- Two servers that do the same with the statements of a run. -/
theorem run_congr {ex' : Exec D Q R} (p : Prog Q R E α) (c : Conn D R)
    (h : ∀ q ∈ p.issued ex f c, ∀ d, ex' d q = ex d q) : p.run ex' f c = p.run ex f c := by
  induction p generalizing c with
  | ret a => rfl
  | raise e => rfl
  | query q k ih =>
    have hq : c.query ex' f q = c.query ex f q := by
      unfold Conn.query
      rw [h q List.mem_cons_self]
    show (k _).run ex' f _ = (k _).run ex f _
    rw [hq]
    exact ih _ _ fun q' hq' => h q' (List.mem_cons_of_mem _ hq')
  | store k ih => exact ih _ _ h

/-! ## What is in a program -/

/-- Every statement in the program meets `S`. -/
def Only (S : Q → Prop) : Prog Q R E α → Prop
  | .ret _ => True
  | .raise _ => True
  | .query q k => S q ∧ ∀ b, (k b).Only S
  | .store k => ∀ r, (k r).Only S

theorem Only.bind {S : Q → Prop} {p : Prog Q R E α} {g : α → Prog Q R E β} (hp : p.Only S)
    (hg : ∀ a, (g a).Only S) : (p.bind g).Only S := by
  induction p with
  | ret a => exact hg a
  | raise e => trivial
  | query q k ih => exact ⟨hp.1, fun b => ih b (hp.2 b)⟩
  | store k ih => exact fun r => ih r (hp r)

theorem only_lift {S : Q → Prop} (x : Except E α) : (lift x : Prog Q R E α).Only S := by
  cases x <;> trivial

theorem Only.issued {S : Q → Prop} {p : Prog Q R E α} (h : p.Only S) (c : Conn D R) :
    ∀ q ∈ p.issued ex f c, S q := by
  induction p generalizing c with
  | ret a => exact fun q hq => by cases hq
  | raise e => exact fun q hq => by cases hq
  | query q k ih =>
    intro q' hq'
    rcases List.mem_cons.mp hq' with rfl | hq'
    · exact h.1
    · exact ih _ (h.2 _) _ q' hq'
  | store k ih => exact ih _ (h _) _

/-- The exception is nowhere raised. -/
def Never (e : E) : Prog Q R E α → Prop
  | .ret _ => True
  | .raise e' => e' ≠ e
  | .query _ k => ∀ b, (k b).Never e
  | .store k => ∀ r, (k r).Never e

variable {e : E}

theorem Never.bind {p : Prog Q R E α} {g : α → Prog Q R E β} (hp : p.Never e)
    (hg : ∀ a, (g a).Never e) : (p.bind g).Never e := by
  induction p with
  | ret a => exact hg a
  | raise e' => exact hp
  | query q k ih => exact fun b => ih b (hp b)
  | store k ih => exact fun r => ih r (hp r)

theorem never_lift {x : Except E α} (h : x ≠ .error e) : (lift x : Prog Q R E α).Never e := by
  cases x with
  | ok a => trivial
  | error e' => exact fun he => h (congrArg Except.error he)

theorem Never.run {p : Prog Q R E α} (h : p.Never e) (c : Conn D R) : (p.run ex f c).1 ≠ .error e := by
  induction p generalizing c with
  | ret a => exact fun he => by cases he
  | raise e' => exact fun he => h (Except.error.inj he)
  | query q k ih => exact ih _ (h _) _
  | store k ih => exact ih _ (h _) _

end Prog

end ExpenseTracker.Core
