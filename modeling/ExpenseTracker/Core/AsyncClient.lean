import ExpenseTracker.Core.Machine

/-!
# A client whose requests are in flight

A client runs a callback when its user acts and when an answer arrives; a
callback changes the client's state and sends requests, each with the
continuation waiting for its answer. A server handles the requests in any
order, one at a time, and the answers arrive in any order, or are lost.

Three parts of the world are history and read by nobody: the turn and the server
state kept with an answer, the requests handled, and the answers delivered.

* `happens`: what an event does; `Happens.page`: what it does to the client.
* `Happens.fate`: what becomes of a request in flight; `Happens.requests`: what they keep.
* `Happens.current`: an answer is as good as new while no later request changed the server.
-/
namespace ExpenseTracker.Core

/-- `act` is the callback of an action, `resume` what runs behind an `await`; a lost
answer is a rejected promise. -/
structure AsyncClient (S A K Q R : Type) where
  act : S → A → S × List (K × Q)
  resume : S → K → Option R → S × List (K × Q)

/-- An answer, with how many requests the server had handled before this one and its
state afterwards. -/
structure Served (D R : Type) where
  answer : R
  turn : ℕ
  state : D

structure Flight (K Q D R : Type) where
  cont : K
  request : Q
  served : Option (Served D R)

/-- `delivered` has the latest answer first. -/
structure World (S K Q D R : Type) where
  page : S
  server : D
  flight : List (Flight K Q D R)
  handled : List Q
  delivered : List (K × Served D R)

/-- An action; the server handling a request, with what the environment adds; an answer
arriving; a request or its answer getting lost. -/
inductive Event (A F : Type) where
  | act (a : A)
  | serve (n : ℕ) (f : F)
  | deliver (n : ℕ)
  | lose (n : ℕ)

namespace AsyncClient

variable {S A K Q R D F : Type}

/-- Requests on their way. -/
def sent (l : List (K × Q)) : List (Flight K Q D R) := l.map fun p => ⟨p.1, p.2, none⟩

/-- The client's first render and the requests it sends. -/
def boot (r : S × List (K × Q)) (d : D) : World S K Q D R := ⟨r.1, d, sent r.2, [], []⟩

variable (P : AsyncClient S A K Q R) (handle : D → Q → F → R × D)

/-- The callback that ran, and what it did to the requests in flight. -/
def ran (w : World S K Q D R) (r : S × List (K × Q)) (flight : List (Flight K Q D R))
    (delivered : List (K × Served D R)) : List Q × World S K Q D R :=
  (r.2.map Prod.snd,
    { w with page := r.1, flight := flight ++ sent r.2, delivered := delivered })

def step (w : World S K Q D R) : Event A F → List Q × World S K Q D R
  | .act a => ran w (P.act w.page a) w.flight w.delivered
  | .serve n f =>
    match w.flight[n]? with
    | some ⟨k, q, none⟩ =>
      let r := handle w.server q f
      ([], { w with server := r.2
                    flight := w.flight.set n ⟨k, q, some ⟨r.1, w.handled.length, r.2⟩⟩
                    handled := w.handled ++ [q] })
    | _ => ([], w)
  | .deliver n =>
    match w.flight[n]? with
    | some ⟨k, _, some s⟩ =>
      ran w (P.resume w.page k (some s.answer)) (w.flight.eraseIdx n) ((k, s) :: w.delivered)
    | _ => ([], w)
  | .lose n =>
    match w.flight[n]? with
    | some ⟨k, _, _⟩ => ran w (P.resume w.page k none) (w.flight.eraseIdx n) w.delivered
    | none => ([], w)

/-- The client and its server; the output of an event is the requests it sends. -/
def machine : Machine (World S K Q D R) (Event A F) (List Q) := ⟨P.step handle⟩

/-- The continuation an event runs, and with what. -/
def resumed (w : World S K Q D R) : Event A F → Option (K × Option R)
  | .deliver n =>
    match w.flight[n]? with
    | some ⟨k, _, some s⟩ => some (k, some s.answer)
    | _ => none
  | .lose n => (w.flight[n]?).map fun x => (x.cont, none)
  | _ => none

variable {P handle}

/-! ## One event -/

@[simp] theorem out_act (w : World S K Q D R) (a : A) :
    (P.machine handle).out w (.act a : Event A F) = (P.act w.page a).2.map Prod.snd := rfl

/-- What an event does. -/
inductive Happens (P : AsyncClient S A K Q R) (handle : D → Q → F → R × D) (w : World S K Q D R) :
    Event A F → World S K Q D R → Prop
  | act (a : A) : Happens P handle w (.act a) (ran w (P.act w.page a) w.flight w.delivered).2
  | serve (n : ℕ) (f : F) (k : K) (q : Q) : w.flight[n]? = some ⟨k, q, none⟩ →
      Happens P handle w (.serve n f)
        { w with server := (handle w.server q f).2
                 flight := w.flight.set n ⟨k, q, some
                   ⟨(handle w.server q f).1, w.handled.length, (handle w.server q f).2⟩⟩
                 handled := w.handled ++ [q] }
  | deliver (n : ℕ) (k : K) (q : Q) (s : Served D R) : w.flight[n]? = some ⟨k, q, some s⟩ →
      Happens P handle w (.deliver n) (ran w (P.resume w.page k (some s.answer))
        (w.flight.eraseIdx n) ((k, s) :: w.delivered)).2
  | lose (n : ℕ) (x : Flight K Q D R) : w.flight[n]? = some x →
      Happens P handle w (.lose n)
        (ran w (P.resume w.page x.cont none) (w.flight.eraseIdx n) w.delivered).2
  | nothing (e : Event A F) : (∀ a, e ≠ .act a) → resumed w e = none → Happens P handle w e w

theorem happens (P : AsyncClient S A K Q R) (handle : D → Q → F → R × D) (w : World S K Q D R)
    (e : Event A F) : Happens P handle w e ((P.machine handle).next w e) := by
  have still : (∀ a, e ≠ .act a) → resumed w e = none → (P.step handle w e).2 = w →
      Happens P handle w e (P.step handle w e).2 := by
    intro hact hres hw
    rw [hw]
    exact .nothing e hact hres
  show Happens P handle w e (P.step handle w e).2
  cases e with
  | act a => exact .act a
  | serve n f =>
    cases hn : w.flight[n]? with
    | none => exact still (fun a => by simp) rfl (by simp [step, hn])
    | some x =>
      obtain ⟨k, q, s⟩ := x
      cases s with
      | some s => exact still (fun a => by simp) rfl (by simp [step, hn])
      | none =>
        have h : Happens P handle w (.serve n f) _ := .serve n f k q hn
        simpa [step, hn] using h
  | deliver n =>
    cases hn : w.flight[n]? with
    | none => exact still (fun a => by simp) (by simp [resumed, hn]) (by simp [step, hn])
    | some x =>
      obtain ⟨k, q, s⟩ := x
      cases s with
      | none => exact still (fun a => by simp) (by simp [resumed, hn]) (by simp [step, hn])
      | some s =>
        have h : Happens P handle w (.deliver n) _ := .deliver n k q s hn
        simpa [step, hn] using h
  | lose n =>
    cases hn : w.flight[n]? with
    | none => exact still (fun a => by simp) (by simp [resumed, hn]) (by simp [step, hn])
    | some x =>
      have h : Happens P handle w (.lose n) _ := .lose n x hn
      simpa [step, hn] using h

variable {w w' : World S K Q D R} {e : Event A F}

/-- What an event does to the client: a callback runs, a continuation runs, or
nothing happens to it. -/
theorem Happens.page (h : Happens P handle w e w') :
    (∃ a, e = .act a ∧ w'.page = (P.act w.page a).1) ∨
      (∃ k r, resumed w e = some (k, r) ∧ w'.page = (P.resume w.page k r).1) ∨
      (resumed w e = none ∧ (∀ a, e ≠ .act a) ∧ w'.page = w.page) := by
  cases h with
  | act a => exact Or.inl ⟨a, rfl, rfl⟩
  | serve n f k q hn => exact Or.inr (Or.inr ⟨rfl, fun a => by simp, rfl⟩)
  | deliver n k q s hn => exact Or.inr (Or.inl ⟨k, some s.answer, by simp [resumed, hn], rfl⟩)
  | lose n x hn => exact Or.inr (Or.inl ⟨x.cont, none, by simp [resumed, hn], rfl⟩)
  | nothing e ha hr => exact Or.inr (Or.inr ⟨hr, ha, rfl⟩)

/-- What becomes of a request: it stays in flight, it is served, its answer is
delivered and the continuation runs, or it is lost. -/
theorem Happens.fate (h : Happens P handle w e w') {x : Flight K Q D R} (hx : x ∈ w.flight) :
    x ∈ w'.flight ∨
      (x.served = none ∧
        ∃ s, s.turn = w.handled.length ∧ ⟨x.cont, x.request, some s⟩ ∈ w'.flight) ∨
      (∃ s, x.served = some s ∧ (x.cont, s) ∈ w'.delivered ∧
        ∀ y ∈ sent (P.resume w.page x.cont (some s.answer)).2, y ∈ w'.flight) ∨
      ∃ n, e = .lose n := by
  obtain ⟨i, hi⟩ := List.mem_iff_getElem?.mp hx
  cases h with
  | act a => exact Or.inl (List.mem_append_left _ hx)
  | serve n f k q hn =>
    by_cases hin : i = n
    · rw [← hin, hi, Option.some.injEq] at hn
      rw [hn]
      refine Or.inr (Or.inl ⟨rfl, ⟨(handle w.server q f).1, w.handled.length,
        (handle w.server q f).2⟩, rfl, ?_⟩)
      rw [← hin]
      apply List.mem_of_getElem? (i := i)
      rw [List.getElem?_set_self (List.getElem?_eq_some_iff.mp hi).1]
    · refine Or.inl (List.mem_of_getElem? (i := i) ?_)
      rw [List.getElem?_set_ne (Ne.symm hin), hi]
  | deliver n k q s hn =>
    by_cases hin : i = n
    · rw [← hin, hi, Option.some.injEq] at hn
      rw [hn]
      exact Or.inr (Or.inr (Or.inl
        ⟨s, rfl, List.mem_cons_self, fun y hy => List.mem_append_right _ hy⟩))
    · exact Or.inl (List.mem_append_left _
        (List.mem_eraseIdx_iff_getElem?.mpr ⟨i, hin, hi⟩))
  | lose n x hn => exact Or.inr (Or.inr (Or.inr ⟨n, rfl⟩))
  | nothing e _ _ => exact Or.inl hx

theorem resumed_cont {k : K} {r : Option R} (h : resumed w e = some (k, r)) :
    ∃ x ∈ w.flight, x.cont = k := by
  cases e with
  | act a => cases h
  | serve n f => cases h
  | deliver n =>
    unfold resumed at h
    dsimp only at h
    split at h
    · rename_i hn
      cases h
      exact ⟨_, List.mem_of_getElem? hn, rfl⟩
    · cases h
  | lose n =>
    obtain ⟨x, hx, hk⟩ := Option.map_eq_some_iff.mp h
    cases hk
    exact ⟨x, List.mem_of_getElem? hx, rfl⟩

theorem resumed_lost {k : K} (h : resumed w e = some (k, none)) : ∃ n, e = .lose n := by
  cases e with
  | act a => cases h
  | serve n f => cases h
  | deliver n =>
    unfold resumed at h
    dsimp only at h
    split at h <;> cases h
  | lose n => exact ⟨n, rfl⟩

/-- What holds of every request sent, with its continuation, holds of those in flight. -/
theorem Happens.requests (h : Happens P handle w e w') {C : K → Q → Prop}
    (hw : ∀ x ∈ w.flight, C x.cont x.request)
    (hact : ∀ a, e = .act a → ∀ p ∈ (P.act w.page a).2, C p.1 p.2)
    (hres : ∀ k r, resumed w e = some (k, r) → ∀ p ∈ (P.resume w.page k r).2, C p.1 p.2) :
    ∀ x ∈ w'.flight, C x.cont x.request := by
  have hsent : ∀ {l : List (K × Q)}, (∀ p ∈ l, C p.1 p.2) →
      ∀ x ∈ (sent l : List (Flight K Q D R)), C x.cont x.request := by
    intro l hl x hx
    obtain ⟨p, hp, rfl⟩ := List.mem_map.mp hx
    exact hl p hp
  intro x hx
  cases h with
  | act a =>
    rcases List.mem_append.mp hx with hx | hx
    · exact hw x hx
    · exact hsent (hact a rfl) x hx
  | serve n f k q hn =>
    rcases List.mem_or_eq_of_mem_set hx with hx | rfl
    · exact hw x hx
    · exact hw ⟨k, q, none⟩ (List.mem_of_getElem? hn)
  | deliver n k q s hn =>
    rcases List.mem_append.mp hx with hx | hx
    · exact hw x (List.mem_of_mem_eraseIdx hx)
    · exact hsent (hres k (some s.answer) (by simp [resumed, hn])) x hx
  | lose n y hn =>
    rcases List.mem_append.mp hx with hx | hx
    · exact hw x (List.mem_of_mem_eraseIdx hx)
    · exact hsent (hres y.cont none (by simp [resumed, hn])) x hx
  | nothing e _ _ => exact hw x hx

theorem Happens.delivered (h : Happens P handle w e w') {p : K × Served D R}
    (hp : p ∈ w.delivered) : p ∈ w'.delivered := by
  cases h with
  | deliver n k q s hn => exact List.mem_cons_of_mem _ hp
  | _ => exact hp

/-! ## How old an answer is -/

/-- An answer given, delivered or not. -/
def Answered (w : World S K Q D R) (k : K) (s : Served D R) : Prop :=
  (k, s) ∈ w.delivered ∨ ∃ q, ⟨k, q, some s⟩ ∈ w.flight

/-- The requests handled after an answer was given. -/
def since (w : World S K Q D R) (s : Served D R) : List Q := w.handled.drop (s.turn + 1)

/-- Every answer shows the server as it is, but for the requests handled since that
do not only read. -/
def Current (reads : Q → Prop) (w : World S K Q D R) : Prop :=
  ∀ k s, Answered w k s →
    s.turn < w.handled.length ∧ ((∀ q ∈ since w s, reads q) → s.state = w.server)

/-- A continuation that runs with an answer has been answered it. -/
theorem resumed_answered {k : K} {r : R} (h : resumed w e = some (k, some r)) :
    ∃ s, Answered w k s ∧ s.answer = r := by
  cases e with
  | act a => cases h
  | serve n f => cases h
  | deliver n =>
    unfold resumed at h
    dsimp only at h
    split at h
    · rename_i q s hn
      cases h
      exact ⟨s, Or.inr ⟨q, List.mem_of_getElem? hn⟩, rfl⟩
    · cases h
  | lose n =>
    obtain ⟨x, _, hk⟩ := Option.map_eq_some_iff.mp h
    cases hk

theorem not_mem_sent {l : List (K × Q)} {k : K} {q : Q} {s : Served D R} :
    (⟨k, q, some s⟩ : Flight K Q D R) ∉ sent l := by
  intro h
  obtain ⟨p, _, hp⟩ := List.mem_map.mp h
  cases hp

/-- The answers after an event are the answers before it, and the one given by it. -/
theorem Happens.answered (h : Happens P handle w e w') {k : K} {s : Served D R}
    (hs : Answered w' k s) :
    Answered w k s ∧ w'.server = w.server ∧ w'.handled = w.handled ∨
      ∃ n f q, e = .serve n f ∧ w'.server = (handle w.server q f).2 ∧
        w'.handled = w.handled ++ [q] ∧
        (Answered w k s ∨ w.flight[n]? = some ⟨k, q, none⟩ ∧
          s = ⟨(handle w.server q f).1, w.handled.length, (handle w.server q f).2⟩) := by
  have inFlight : ∀ {fl : List (Flight K Q D R)} {l : List (K × Q)} {q : Q},
      (∀ x ∈ fl, x ∈ w.flight) → ⟨k, q, some s⟩ ∈ fl ++ sent l →
      (⟨k, q, some s⟩ : Flight K Q D R) ∈ w.flight := by
    intro fl l q hsub hmem
    rcases List.mem_append.mp hmem with hmem | hmem
    · exact hsub _ hmem
    · exact absurd hmem not_mem_sent
  cases h with
  | act a =>
    refine Or.inl ⟨?_, rfl, rfl⟩
    rcases hs with hs | ⟨q, hs⟩
    · exact Or.inl hs
    · exact Or.inr ⟨q, inFlight (fun x hx => hx) hs⟩
  | serve n f k' q' hn =>
    refine Or.inr ⟨n, f, q', rfl, rfl, rfl, ?_⟩
    rcases hs with hs | ⟨q, hs⟩
    · exact Or.inl (Or.inl hs)
    · rcases List.mem_or_eq_of_mem_set hs with hs | hs
      · exact Or.inl (Or.inr ⟨q, hs⟩)
      · cases hs
        exact Or.inr ⟨hn, rfl⟩
  | deliver n k' q' s' hn =>
    refine Or.inl ⟨?_, rfl, rfl⟩
    rcases hs with hs | ⟨q, hs⟩
    · rcases List.mem_cons.mp hs with hs | hs
      · cases hs
        exact Or.inr ⟨q', List.mem_of_getElem? hn⟩
      · exact Or.inl hs
    · exact Or.inr ⟨q, inFlight (fun x hx => List.mem_of_mem_eraseIdx hx) hs⟩
  | lose n x hn =>
    refine Or.inl ⟨?_, rfl, rfl⟩
    rcases hs with hs | ⟨q, hs⟩
    · exact Or.inl hs
    · exact Or.inr ⟨q, inFlight (fun x hx => List.mem_of_mem_eraseIdx hx) hs⟩
  | nothing e _ _ => exact Or.inl ⟨hs, rfl, rfl⟩

/-- **Answers stay current** as long as later requests only read. -/
theorem Happens.current {reads : Q → Prop}
    (hreads : ∀ q f, reads q → (handle w.server q f).2 = w.server)
    (h : Happens P handle w e w') (hw : Current reads w) : Current reads w' := by
  intro k s hs
  rcases h.answered hs with ⟨hold, hserver, hhandled⟩ | ⟨n, f, q, _, hserver, hhandled, hs⟩
  · unfold since
    rw [hserver, hhandled]
    exact hw k s hold
  unfold since
  rw [hserver, hhandled, List.length_append, List.length_singleton]
  rcases hs with hold | ⟨_, rfl⟩
  · obtain ⟨hlt, hstate⟩ := hw k s hold
    refine ⟨by omega, fun hall => ?_⟩
    rw [List.drop_append_of_le_length (by omega)] at hall
    have hq : reads q := hall q (List.mem_append_right _ List.mem_cons_self)
    rw [hreads q f hq]
    exact hstate fun q' hq' => hall q' (List.mem_append_left _ hq')
  · exact ⟨Nat.lt_succ_self _, fun _ => rfl⟩

end AsyncClient

end ExpenseTracker.Core
