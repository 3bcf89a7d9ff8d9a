import Mathlib.Data.List.Basic

/-!
# Runs of a deterministic machine

A server that takes one input at a time: `step` answers an input and gives
the next state. `after s is` is the state after the inputs `is`.

Rules for whole runs, each from a fact about one step:
* `Inductive.after`: an invariant of every step holds in every state reached.
* `Along`: a condition on the state before each step and its input; `along_iff`
  reads it off the splits of the run, and `Inductive.along_congr` rewrites it
  under an invariant.
* `after_view`: a view of the state that no step of the run changes is the
  same before and after the run (unwinding).
* `Refines.run`: a relation to an abstract transition system kept by every
  step of the run relates the whole run to an abstract run (forward
  simulation).
-/
namespace ExpenseTracker.Core

structure Machine (S I O : Type) where
  step : S → I → O × S

namespace Machine

variable {S I O : Type} (m : Machine S I O)

def next (s : S) (i : I) : S := (m.step s i).2

def out (s : S) (i : I) : O := (m.step s i).1

/-- The state after the inputs `is`. -/
def after : S → List I → S
  | s, [] => s
  | s, i :: is => after (m.next s i) is

@[simp] theorem after_nil (s : S) : m.after s [] = s := rfl

@[simp] theorem after_cons (s : S) (i : I) (is : List I) :
    m.after s (i :: is) = m.after (m.next s i) is := rfl

theorem after_append (s : S) (is js : List I) :
    m.after s (is ++ js) = m.after (m.after s is) js := by
  induction is generalizing s with
  | nil => rfl
  | cons i is ih => exact ih (m.next s i)

theorem after_snoc (s : S) (is : List I) (i : I) :
    m.after s (is ++ [i]) = m.next (m.after s is) i := by
  rw [after_append]; rfl

/-! ## Invariants -/

/-- Every step keeps `P`. -/
def Inductive (P : S → Prop) : Prop := ∀ s i, P s → P (m.next s i)

variable {m}

theorem Inductive.after {P : S → Prop} (h : m.Inductive P) {s : S} (hs : P s) :
    ∀ is, P (m.after s is)
  | [] => hs
  | i :: is => Inductive.after h (h s i hs) is

variable (m)

/-! ## Conditions along a run -/

/-- `C` holds of the state before each step of the run and the step's input. -/
def Along (C : S → I → Prop) : S → List I → Prop
  | _, [] => True
  | s, i :: is => C s i ∧ Along C (m.next s i) is

instance (C : S → I → Prop) [∀ s i, Decidable (C s i)] (s : S) (is : List I) :
    Decidable (m.Along C s is) :=
  match is with
  | [] => .isTrue trivial
  | i :: is =>
    have : Decidable (m.Along C (m.next s i) is) := instDecidableAlong C (m.next s i) is
    inferInstanceAs (Decidable (_ ∧ _))

theorem along_append (C : S → I → Prop) (s : S) (is js : List I) :
    m.Along C s (is ++ js) ↔ m.Along C s is ∧ m.Along C (m.after s is) js := by
  induction is generalizing s with
  | nil => simp [Along]
  | cons i is ih => simp only [List.cons_append, Along, ih, after_cons, and_assoc]

theorem along_iff (C : S → I → Prop) (s : S) (is : List I) :
    m.Along C s is ↔ ∀ xs i ys, is = xs ++ i :: ys → C (m.after s xs) i := by
  induction is generalizing s with
  | nil => simp [Along]
  | cons j is ih =>
    rw [Along, ih]
    refine ⟨?_, ?_⟩
    · intro ⟨h0, h⟩ xs i ys he
      cases xs with
      | nil => cases he; exact h0
      | cons x xs => cases he; exact h xs i ys rfl
    · intro h
      exact ⟨h [] j is rfl, fun xs i ys he => h (j :: xs) i ys (by rw [he]; rfl)⟩

/-- A condition on the inputs alone. -/
theorem along_inputs (C : I → Prop) (s : S) (is : List I) :
    m.Along (fun _ i => C i) s is ↔ ∀ i ∈ is, C i := by
  induction is generalizing s with
  | nil => simp [Along]
  | cons i is ih => simp only [Along, ih, List.forall_mem_cons]

theorem along_and (C D : S → I → Prop) (s : S) (is : List I) :
    m.Along (fun s i => C s i ∧ D s i) s is ↔ m.Along C s is ∧ m.Along D s is := by
  induction is generalizing s with
  | nil => simp [Along]
  | cons i is ih => simp only [Along, ih, and_and_and_comm]

variable {m} in
theorem Along.imp {C D : S → I → Prop} (h : ∀ s i, C s i → D s i) :
    ∀ {is : List I} {s : S}, m.Along C s is → m.Along D s is
  | [], _, _ => trivial
  | i :: _, s, ⟨h0, hr⟩ => ⟨h s i h0, Along.imp h hr⟩

variable {m} in
/-- Conditions that agree wherever an invariant holds agree along its runs. -/
theorem Inductive.along_congr {P : S → Prop} (h : m.Inductive P) {C D : S → I → Prop}
    (hcd : ∀ s i, P s → (C s i ↔ D s i)) {s : S} (hs : P s) (is : List I) :
    m.Along C s is ↔ m.Along D s is := by
  induction is generalizing s with
  | nil => exact Iff.rfl
  | cons i is ih => exact and_congr (hcd s i hs) (ih (h s i hs))

variable {m} in
/-- What steps meeting `C` keep holds after a run of such steps. -/
theorem Along.after {C : S → I → Prop} {P : S → Prop}
    (h : ∀ s i, C s i → P s → P (m.next s i)) :
    ∀ (is : List I) (s : S), P s → m.Along C s is → P (m.after s is)
  | [], _, hs, _ => hs
  | i :: is, s, hs, ⟨h0, hr⟩ => Along.after h is (m.next s i) (h s i h0 hs) hr

/-- **Unwinding.** A view that no step of the run changes is the same after
the run. -/
theorem after_view {V : Type} (view : S → V) (C : S → I → Prop)
    (h : ∀ s i, C s i → view (m.next s i) = view s) :
    ∀ (is : List I) (s : S), m.Along C s is → view (m.after s is) = view s
  | [], _, _ => rfl
  | i :: is, s, ⟨h0, hr⟩ => (after_view view C h is (m.next s i) hr).trans (h s i h0)

/-! ## Refinement -/

variable {m} {A : Type}

/-- An abstract run answering the inputs with the outputs the machine gives. -/
inductive AbsRun (T : A → I → O → A → Prop) : A → List (I × O) → A → Prop
  | nil (a : A) : AbsRun T a [] a
  | cons {a b c : A} {i : I} {o : O} {l : List (I × O)} :
      T a i o b → AbsRun T b l c → AbsRun T a ((i, o) :: l) c

variable (m)

/-- The inputs of a run with the outputs given. -/
def history : S → List I → List (I × O)
  | _, [] => []
  | s, i :: is => (i, m.out s i) :: history (m.next s i) is

theorem history_snoc (s : S) (is : List I) (i : I) :
    m.history s (is ++ [i]) = m.history s is ++ [(i, m.out (m.after s is) i)] := by
  induction is generalizing s with
  | nil => rfl
  | cons j is ih => exact congrArg _ (ih (m.next s j))

/-- The last step of an abstract run. -/
theorem AbsRun.snoc_inv {T : A → I → O → A → Prop} {a c : A} {l : List (I × O)} {i : I} {o : O}
    (h : AbsRun T a (l ++ [(i, o)]) c) : ∃ b, AbsRun T a l b ∧ T b i o c := by
  induction l generalizing a with
  | nil =>
    cases h with
    | cons hT hnil => cases hnil; exact ⟨a, .nil a, hT⟩
  | cons p l ih =>
    cases h with
    | cons hT hrun =>
      obtain ⟨b, hb, hlast⟩ := ih hrun
      exact ⟨b, .cons hT hb, hlast⟩

/-- Steps meeting `C` keep `R` along an abstract step with the same answer. -/
def Refines (T : A → I → O → A → Prop) (R : S → A → Prop) (C : S → I → Prop) : Prop :=
  ∀ s a i, R s a → C s i → ∃ b, T a i (m.out s i) b ∧ R (m.next s i) b

variable {m}

/-- **Forward simulation.** -/
theorem Refines.run {T : A → I → O → A → Prop} {R : S → A → Prop} {C : S → I → Prop}
    (h : m.Refines T R C) : ∀ (is : List I) (s : S) (a : A), R s a → m.Along C s is →
      ∃ b, AbsRun T a (m.history s is) b ∧ R (m.after s is) b
  | [], s, a, hR, _ => ⟨a, .nil a, hR⟩
  | i :: is, s, a, hR, ⟨hi, hC⟩ => by
    obtain ⟨b, hT, hb⟩ := h s a i hR hi
    obtain ⟨c, hrun, hc⟩ := Refines.run h is (m.next s i) b hb hC
    exact ⟨c, .cons hT hrun, hc⟩

end Machine

end ExpenseTracker.Core
