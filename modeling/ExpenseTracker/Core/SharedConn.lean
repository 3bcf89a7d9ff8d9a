import ExpenseTracker.Core.Client
import ExpenseTracker.Core.Machine
import Mathlib.Data.List.Induction
import Mathlib.Data.List.Nodup
import Mathlib.Logic.Function.Basic

/-!
# Programs that share a connection

Any number of programs take turns on one connection, a call at a time and in
the order of a schedule: the machine `sharing`, whose inputs name the program
that takes its next call.

A `Transaction` is one query and, where that opens a result set, one fetch.
Such programs interfere only where one queries while the result set of
another is still to be fetched (a clash).

* `Inv.step`: without a clash, a step keeps the invariant that the programs so
  far answer as one after another, in the order of their queries.
* `serialisable_of_noClash`: so does a whole run.
-/
namespace ExpenseTracker.Core

namespace Prog

variable {D Q R E α : Type}

/-- The next call of a program. -/
def call (ex : Exec D Q R) : Prog Q R E α → Conn D R → Prog Q R E α × Conn D R
  | .ret a, c => (.ret a, c)
  | .raise e, c => (.raise e, c)
  | .query q k, c => (k (c.query ex .none q).1, (c.query ex .none q).2)
  | .store k, c => (k (c.store .none).1, (c.store .none).2)

/-- The next call is a query. -/
def queries : Prog Q R E α → Bool
  | .query _ _ => true
  | _ => false

@[simp] theorem call_lift (ex : Exec D Q R) (x : Except E α) (c : Conn D R) :
    (lift x : Prog Q R E α).call ex c = (lift x, c) := by
  cases x <;> rfl

theorem lift_inj {x y : Except E α} (h : (lift x : Prog Q R E α) = lift y) : x = y := by
  cases x <;> cases y <;> cases h <;> rfl

/-- After its query: with a result set pending the program fetches it and
answers `x`, and without one it has answered. -/
def Answers (p : Prog Q R E α) : Option R → Except E α → Prop
  | none, x => p = lift x
  | some r, x => ∃ k, p = .store k ∧ k (some r) = lift x

/-- One query, and one fetch where there is something to fetch. -/
def Transaction (ex : Exec D Q R) (p : Prog Q R E α) : Prop :=
  ∃ q k, p = .query q k ∧ (∃ x, k true = lift x) ∧
    ∀ d d' rs, ex d q = some (d', rs) → ∃ x, Answers (k false) rs x

theorem Answers.run {ex : Exec D Q R} {p : Prog Q R E α} {rs : Option R} {x : Except E α}
    (h : p.Answers rs x) (d : D) : p.run ex .none ⟨d, rs⟩ = (x, .idle d) := by
  cases rs with
  | none =>
    have h : p = lift x := h
    rw [h, run_lift]
    rfl
  | some r =>
    obtain ⟨k, rfl, hk⟩ := h
    simp only [Prog.run, Conn.store, Fault.none, Bool.false_eq_true, if_false, hk, run_lift]

/-- What a transaction alone on the connection does, and where its query
leaves it. -/
theorem Transaction.query {ex : Exec D Q R} {p : Prog Q R E α} (h : p.Transaction ex) (d : D) :
    p.queries = true ∧ ∃ d' rs x, p.run ex .none (.idle d) = (x, .idle d') ∧
      (p.call ex (.idle d)).2 = ⟨d', rs⟩ ∧ Answers (p.call ex (.idle d)).1 rs x := by
  obtain ⟨q, k, rfl, ⟨x, hx⟩, hk⟩ := h
  refine ⟨rfl, ?_⟩
  cases he : ex d q with
  | none =>
    have hq : (Conn.idle d : Conn D R).query ex .none q = (true, .idle d) := by
      simp [Conn.query, Conn.idle, Fault.none, he]
    refine ⟨d, none, x, ?_, ?_, ?_⟩
    · simp only [Prog.run, hq, hx, run_lift]
    · simp only [call, hq]; rfl
    · simp only [call, hq, hx]; rfl
  | some r =>
    obtain ⟨d', rs⟩ := r
    obtain ⟨x, hx⟩ := hk d d' rs he
    have hq : (Conn.idle d : Conn D R).query ex .none q = (false, ⟨d', rs⟩) := by
      simp [Conn.query, Conn.idle, Fault.none, he]
    refine ⟨d', rs, x, ?_, ?_, ?_⟩
    · simp only [Prog.run, hq]
      exact hx.run d'
    · simp only [call, hq]
    · simpa only [call, hq] using hx

end Prog

section Sharing

variable {D Q R E ι : Type} {α : ι → Type}

/-! ## One after another -/

section Serial

variable (ex : Exec D Q R) (ps : ∀ i, Prog Q R E (α i))

/-- The answers of programs run one after another. -/
def serial : List ι → Conn D R → List (Σ i, Except E (α i))
  | [], _ => []
  | i :: is, c => ⟨i, ((ps i).run ex .none c).1⟩ :: serial is ((ps i).run ex .none c).2

/-- The connection after them. -/
def serialConn : List ι → Conn D R → Conn D R
  | [], c => c
  | i :: is, c => serialConn is ((ps i).run ex .none c).2

theorem serialConn_snoc (is : List ι) (i : ι) (c : Conn D R) :
    serialConn ex ps (is ++ [i]) c = ((ps i).run ex .none (serialConn ex ps is c)).2 := by
  induction is generalizing c with
  | nil => rfl
  | cons j is ih => exact ih _

theorem serial_snoc (is : List ι) (i : ι) (c : Conn D R) :
    serial ex ps (is ++ [i]) c =
      serial ex ps is c ++ [⟨i, ((ps i).run ex .none (serialConn ex ps is c)).1⟩] := by
  induction is generalizing c with
  | nil => rfl
  | cons j is ih => exact congrArg _ (ih _)

/-- Programs that leave the connection as it was answer the same in every
order. -/
theorem serial_steady {c : Conn D R} (h : ∀ i, ((ps i).run ex .none c).2 = c) (is : List ι) :
    serial ex ps is c = is.map fun i => ⟨i, ((ps i).run ex .none c).1⟩ := by
  induction is with
  | nil => rfl
  | cons i is ih =>
    rw [serial, h i, ih]
    rfl

end Serial

/-! ## Taking turns -/

variable [DecidableEq ι]

/-- The connection and what is left of each program. -/
structure Shared (D Q R E : Type) {ι : Type} (α : ι → Type) where
  conn : Conn D R
  progs : ∀ i, Prog Q R E (α i)

/-- Program `i` takes its next call. -/
def sharing (ex : Exec D Q R) : Machine (Shared D Q R E α) ι Unit where
  step s i :=
    ((), ⟨((s.progs i).call ex s.conn).2, Function.update s.progs i ((s.progs i).call ex s.conn).1⟩)

/-- The next call of `i` is no query issued while a result set is to be
fetched. -/
def NoClash (s : Shared D Q R E α) (i : ι) : Prop :=
  (s.progs i).queries = true → s.conn.pending = none

variable (ex : Exec D Q R) (ps : ∀ i, Prog Q R E (α i))

/-- Every program that has answered has the answer it gives when the programs
run one after another, in some order of those that took a call. -/
def Serialisable (d : D) (is : List ι) (s : Shared D Q R E α) : Prop :=
  ∃ order : List ι, order.Nodup ∧ (∀ i ∈ order, i ∈ is) ∧
    ∀ i x, s.progs i = Prog.lift x → ⟨i, x⟩ ∈ serial ex ps order (.idle d)

/-! ## Runs without a clash -/

/-- The programs of `order` have answered as one after another, but for one
that has its result set still to fetch; the others have not begun. -/
structure Inv (d : D) (order : List ι) (s : Shared D Q R E α) : Prop where
  nodup : order.Nodup
  conn : serialConn ex ps order (.idle d) = .idle s.conn.db
  waiting : ∀ i, i ∉ order → s.progs i = ps i
  free : s.conn.pending = none →
    ∀ i ∈ order, ∃ x, s.progs i = Prog.lift x ∧ ⟨i, x⟩ ∈ serial ex ps order (.idle d)
  held : ∀ r, s.conn.pending = some r → ∃ o ∈ order,
    (∃ x, (s.progs o).Answers (some r) x ∧ ⟨o, x⟩ ∈ serial ex ps order (.idle d)) ∧
    ∀ i ∈ order, i ≠ o → ∃ x, s.progs i = Prog.lift x ∧ ⟨i, x⟩ ∈ serial ex ps order (.idle d)

variable {ex ps} {d : D} {order : List ι} {s : Shared D Q R E α}

/-- A program that has answered takes no call. -/
theorem next_lift {i : ι} {x : Except E (α i)} (h : s.progs i = Prog.lift x) :
    (sharing ex).next s i = s := by
  have hcall : (s.progs i).call ex s.conn = (s.progs i, s.conn) := by
    rw [h, Prog.call_lift]
  show Shared.mk ((s.progs i).call ex s.conn).2
    (Function.update s.progs i ((s.progs i).call ex s.conn).1) = s
  rw [hcall, Function.update_eq_self]

/-- A program that begins, with nothing to fetch. -/
theorem Inv.begin (h : Inv ex ps d order s) {i : ι} (hi : i ∉ order)
    (hp : (ps i).Transaction ex) (hfree : s.conn.pending = none) :
    Inv ex ps d (order ++ [i]) ((sharing ex).next s i) := by
  have hconn : s.conn = .idle s.conn.db := by
    rw [Conn.idle, ← hfree]
  obtain ⟨-, d', rs, x, hrun, hnext, hans⟩ := hp.query s.conn.db
  rw [← hconn, ← h.waiting i hi] at hnext hans
  have hserial : serial ex ps (order ++ [i]) (.idle d) = serial ex ps order (.idle d) ++ [⟨i, x⟩] := by
    rw [serial_snoc, h.conn, hrun]
  have hsettled : ∀ j ∈ order, ∃ y, ((sharing ex).next s i).progs j = Prog.lift y ∧
      ⟨j, y⟩ ∈ serial ex ps (order ++ [i]) (.idle d) := by
    intro j hj
    have hji : j ≠ i := fun e => hi (e ▸ hj)
    obtain ⟨y, hy, hmem⟩ := h.free hfree j hj
    refine ⟨y, ?_, ?_⟩
    · exact (Function.update_of_ne hji _ _).trans hy
    · rw [hserial]
      exact List.mem_append_left _ hmem
  have hself : ((sharing ex).next s i).progs i = ((s.progs i).call ex s.conn).1 :=
    Function.update_self _ _ _
  have hmem : (⟨i, x⟩ : Σ i, Except E (α i)) ∈ serial ex ps (order ++ [i]) (.idle d) := by
    rw [hserial]
    exact List.mem_append_right _ List.mem_cons_self
  refine ⟨?_, ?_, ?_, ?_, ?_⟩
  · exact List.nodup_append.mpr ⟨h.nodup, List.nodup_singleton i, fun a ha b hb => by
      intro hab
      exact hi (List.mem_singleton.mp hb ▸ hab ▸ ha)⟩
  · rw [serialConn_snoc, h.conn, hrun]
    show Conn.idle d' = Conn.idle ((s.progs i).call ex s.conn).2.db
    rw [hnext]
  · intro j hj
    have hji : j ≠ i := fun e => hj (by simp [e])
    exact (Function.update_of_ne hji _ _).trans (h.waiting j fun hm => hj (by simp [hm]))
  · intro hnone j hj
    have hrs : rs = none := by
      have : ((s.progs i).call ex s.conn).2.pending = none := hnone
      rwa [hnext] at this
    rcases List.mem_append.mp hj with hj | hj
    · exact hsettled j hj
    · obtain rfl := List.mem_singleton.mp hj
      rw [hrs] at hans
      exact ⟨x, hself.trans hans, hmem⟩
  · intro r hr
    have hrs : rs = some r := by
      have : ((s.progs i).call ex s.conn).2.pending = some r := hr
      rwa [hnext] at this
    refine ⟨i, by simp, ⟨x, ?_, hmem⟩, ?_⟩
    · rw [hself, ← hrs]
      exact hans
    · intro j hj hji
      exact hsettled j ((List.mem_append.mp hj).resolve_right fun hm => hji (List.mem_singleton.mp hm))

/-- The one program with something to fetch fetches it. -/
theorem Inv.fetch (h : Inv ex ps d order s) {o : ι} {r : R} {x : Except E (α o)}
    (hr : s.conn.pending = some r) (ho : (s.progs o).Answers (some r) x)
    (hmem : ⟨o, x⟩ ∈ serial ex ps order (.idle d))
    (hrest : ∀ i ∈ order, i ≠ o →
      ∃ x, s.progs i = Prog.lift x ∧ ⟨i, x⟩ ∈ serial ex ps order (.idle d)) (horder : o ∈ order) :
    Inv ex ps d order ((sharing ex).next s o) := by
  obtain ⟨k, hk, hx⟩ := ho
  have hcall : (s.progs o).call ex s.conn = (Prog.lift x, .idle s.conn.db) := by
    simp only [hk, Prog.call, Conn.store, Fault.none, Bool.false_eq_true, if_false, hr, hx]
  have hconn : ((sharing ex).next s o).conn = .idle s.conn.db := congrArg Prod.snd hcall
  have hself : ((sharing ex).next s o).progs o = Prog.lift x :=
    (Function.update_self _ _ _).trans (congrArg Prod.fst hcall)
  refine ⟨h.nodup, ?_, ?_, ?_, ?_⟩
  · rw [hconn]
    exact h.conn
  · intro i hi
    have hio : i ≠ o := fun e => hi (e ▸ horder)
    exact (Function.update_of_ne hio _ _).trans (h.waiting i hi)
  · intro _ i hi
    by_cases hio : i = o
    · subst hio
      exact ⟨x, hself, hmem⟩
    · obtain ⟨y, hy, hm⟩ := hrest i hi hio
      exact ⟨y, (Function.update_of_ne hio _ _).trans hy, hm⟩
  · intro r' hr'
    rw [hconn] at hr'
    cases hr'

/-- A step without a clash. -/
theorem Inv.step (hps : ∀ i, (ps i).Transaction ex) (h : Inv ex ps d order s) {i : ι}
    (hc : NoClash s i) :
    Inv ex ps d order ((sharing ex).next s i) ∨
      Inv ex ps d (order ++ [i]) ((sharing ex).next s i) := by
  by_cases hi : i ∈ order
  · left
    cases hr : s.conn.pending with
    | none =>
      obtain ⟨x, hx, -⟩ := h.free hr i hi
      rwa [next_lift hx]
    | some r =>
      obtain ⟨o, ho, ⟨x, hans, hmem⟩, hrest⟩ := h.held r hr
      by_cases hio : i = o
      · subst hio
        exact h.fetch hr hans hmem hrest hi
      · obtain ⟨y, hy, -⟩ := hrest i hi hio
        rwa [next_lift hy]
  · right
    have hq : (s.progs i).queries = true := by
      rw [h.waiting i hi]
      exact ((hps i).query d).1
    exact h.begin hi (hps i) (hc hq)

/-- **A run without a clash is serialisable.** -/
theorem serialisable_of_noClash (hps : ∀ i, (ps i).Transaction ex) {is : List ι}
    (hc : (sharing ex).Along NoClash ⟨.idle d, ps⟩ is) :
    Serialisable ex ps d is ((sharing ex).after ⟨.idle d, ps⟩ is) := by
  have hinv : ∃ order, (∀ i ∈ order, i ∈ is) ∧
      Inv ex ps d order ((sharing ex).after ⟨.idle d, ps⟩ is) := by
    induction is using List.reverseRecOn with
    | nil => 
      refine ⟨[], by simp, ⟨List.nodup_nil, rfl, fun _ _ => rfl, ?_, ?_⟩⟩
      · intro _ i hi
        cases hi
      · intro r hr
        cases hr
    | append_singleton is i ih =>
      obtain ⟨hbefore, hlast, -⟩ := ((sharing ex).along_append NoClash _ is [i]).mp hc
      obtain ⟨order, hsub, h⟩ := ih hbefore
      rw [Machine.after_snoc]
      rcases h.step hps hlast with h | h
      · exact ⟨order, fun j hj => List.mem_append_left _ (hsub j hj), h⟩
      · refine ⟨order ++ [i], ?_, h⟩
        intro j hj
        rcases List.mem_append.mp hj with hj | hj
        · exact List.mem_append_left _ (hsub j hj)
        · exact List.mem_append_right _ hj
  obtain ⟨order, hsub, h⟩ := hinv
  refine ⟨order, h.nodup, hsub, fun i x hx => ?_⟩
  by_cases hi : i ∈ order
  · cases hr : ((sharing ex).after ⟨.idle d, ps⟩ is).conn.pending with
    | none =>
      obtain ⟨y, hy, hmem⟩ := h.free hr i hi
      rwa [Prog.lift_inj (hx.symm.trans hy)]
    | some r =>
      obtain ⟨o, -, ⟨y, ⟨k, hk, -⟩, -⟩, hrest⟩ := h.held r hr
      have hio : i ≠ o := by
        intro he
        subst he
        rw [hk] at hx
        cases x <;> cases hx
      obtain ⟨y, hy, hmem⟩ := hrest i hi hio
      rwa [Prog.lift_inj (hx.symm.trans hy)]
  · rw [h.waiting i hi] at hx
    have hq := ((hps i).query d).1
    rw [hx] at hq
    cases x <;> cases hq

end Sharing

end ExpenseTracker.Core
