import ExpenseTracker.L3Server.CrowDump

/-!
# Answers as they are parsed

What `JSON.parse` makes of the text of an answer. The server keeps the members
of an object in an `unordered_map`, so they are written in an order of its own
(`Held`), and the pages take them by name (`Shows`). Numbers are rounded.

`dump()` writes a double with `%.17g` and drops zeros at the end of the text,
those of an exponent too: `1.5e+20` becomes `1.5e+2`. Such a double is `Cut`.

* `dump_shows_iff`: the parsed answer is the value written, exactly when no
  double of it is cut; `list_shows`: so for the lists of the GET routes.
* `shows_members`, `shows_int_iff`, `shows_string_iff`: what a parsed object tells
  of another value with the same names.
-/
namespace ExpenseTracker.L3.Answers

open ExpenseTracker.Core ExpenseTracker.Core.JsonText ExpenseTracker.Core.JsonWrite
open ExpenseTracker.L3.Json ExpenseTracker.L3.CrowDump

/-! ## The same value -/

mutual

/-- The value as the maps of the server hold it. -/
def Held : WValue → WValue → Prop
  | .list l, v => ∃ l', v = .list l' ∧ HeldAll l l'
  | .object o, v => ∃ o' o'', v = .object o' ∧ o''.Perm o' ∧ HeldMembers o o''
  | x, v => v = x

def HeldAll : List WValue → List WValue → Prop
  | [], l' => l' = []
  | x :: l, l' => ∃ y l'', l' = y :: l'' ∧ Held x y ∧ HeldAll l l''

def HeldMembers : List (Bytes × WValue) → List (Bytes × WValue) → Prop
  | [], o' => o' = []
  | (k, x) :: o, o' => ∃ y o'', o' = (k, y) :: o'' ∧ Held x y ∧ HeldMembers o o''

end

mutual

/-- What was parsed is the value written. -/
def Shows : WValue → Value → Prop
  | .null, V => V = .null
  | .int i, V => ∃ q, V = .number q ∧ nearest q = i.toInt
  | .double x, V => ∃ q, V = .number q ∧ nearest q = x.val
  | .string s, V => V = .string s
  | .list l, V => ∃ vs, V = .array vs ∧ ShowsAll l vs
  | .object o, V => ∃ ms ms', V = .object ms ∧ ms.Perm ms' ∧ ShowsMembers o ms'

def ShowsAll : List WValue → List Value → Prop
  | [], vs => vs = []
  | x :: l, vs => ∃ V vs', vs = V :: vs' ∧ Shows x V ∧ ShowsAll l vs'

def ShowsMembers : List (Bytes × WValue) → List (Bytes × Value) → Prop
  | [], ms => ms = []
  | (k, x) :: o, ms => ∃ V ms', ms = (k, V) :: ms' ∧ Shows x V ∧ ShowsMembers o ms'

end

mutual

/-- No name stands twice in an object. -/
def Keyed : WValue → Prop
  | .list l => KeyedAll l
  | .object o => (o.map Prod.fst).Nodup ∧ KeyedMembers o
  | _ => True

def KeyedAll : List WValue → Prop
  | [] => True
  | x :: l => Keyed x ∧ KeyedAll l

def KeyedMembers : List (Bytes × WValue) → Prop
  | [] => True
  | (_, x) :: o => Keyed x ∧ KeyedMembers o

end

mutual

/-- The doubles of a value. -/
def doubles : WValue → List Double
  | .double x => [x]
  | .list l => listDoubles l
  | .object o => memberDoubles o
  | _ => []

def listDoubles : List WValue → List Double
  | [] => []
  | x :: l => doubles x ++ listDoubles l

def memberDoubles : List (Bytes × WValue) → List Double
  | [] => []
  | (_, x) :: o => doubles x ++ memberDoubles o

end

/-! ## Members by name -/

/-- Members are told apart by their names. -/
theorem eq_of_perm {α : Type} {l l' : List (Bytes × α)} (hp : l.Perm l')
    (hk : l.map Prod.fst = l'.map Prod.fst) (hn : (l.map Prod.fst).Nodup) : l = l' := by
  induction l generalizing l' with
  | nil => exact hp.nil_eq
  | cons p l ih =>
    cases l' with
    | nil => exact absurd hp.symm.nil_eq (by simp)
    | cons q l' =>
      obtain ⟨_, hnames⟩ := List.cons.inj hk
      obtain ⟨hfresh, hnodup⟩ := List.nodup_cons.mp hn
      have hmem : p ∈ q :: l' := hp.subset List.mem_cons_self
      have heq : p = q := by
        rcases List.mem_cons.mp hmem with h | h
        · exact h
        · have hp' : p.1 ∈ l'.map Prod.fst := List.mem_map_of_mem h
          rw [← hnames] at hp'
          exact absurd hp' hfresh
      subst heq
      rw [ih hp.cons_inv hnames hnodup]

theorem values_outs (l : List WValue) : Out.values (outs l) = l.map fun x => (out x).value := by
  induction l with
  | nil => rfl
  | cons x l ih => rw [outs, Out.values, ih, List.map_cons]

theorem members_outMembers (o : List (Bytes × WValue)) :
    Out.members (outMembers o) = o.map fun p => (p.1, (out p.2).value) := by
  induction o with
  | nil => rfl
  | cons p o ih =>
    obtain ⟨k, x⟩ := p
    rw [outMembers, Out.members, ih, List.map_cons]

mutual

/-- The order the members were given in is one of the orders. -/
theorem Held.refl (v : WValue) : Held v v := by
  match v with
  | .null | .int _ | .double _ | .string _ => rfl
  | .list l => exact ⟨l, rfl, heldAll_refl l⟩
  | .object o => exact ⟨o, o, rfl, .refl o, heldMembers_refl o⟩

theorem heldAll_refl (l : List WValue) : HeldAll l l := by
  match l with
  | [] => rfl
  | x :: l => exact ⟨x, l, rfl, Held.refl x, heldAll_refl l⟩

theorem heldMembers_refl (o : List (Bytes × WValue)) : HeldMembers o o := by
  match o with
  | [] => rfl
  | (k, x) :: o => exact ⟨x, o, rfl, Held.refl x, heldMembers_refl o⟩

end

theorem heldMembers_names {o o' : List (Bytes × WValue)} (h : HeldMembers o o') :
    o'.map Prod.fst = o.map Prod.fst := by
  induction o generalizing o' with
  | nil => rw [h]
  | cons p o ih =>
    obtain ⟨k, x⟩ := p
    obtain ⟨y, o'', rfl, _, ho⟩ := h
    rw [List.map_cons, List.map_cons, ih ho]

theorem showsMembers_names {o : List (Bytes × WValue)} {ms : List (Bytes × Value)}
    (h : ShowsMembers o ms) : ms.map Prod.fst = o.map Prod.fst := by
  induction o generalizing ms with
  | nil => rw [h]; rfl
  | cons p o ih =>
    obtain ⟨k, x⟩ := p
    obtain ⟨V, ms', rfl, _, ho⟩ := h
    rw [List.map_cons, List.map_cons, ih ho]

/-! ## Parsed back -/

/-- A double is parsed as itself unless it is cut. -/
theorem number_shows (x : Double) : Shows (.double x) (out (.double x)).value ↔ ¬ Cut x := by
  rw [← reads_iff]
  constructor
  · rintro ⟨q, hq, h⟩
    rw [Value.number.inj hq]
    exact h
  · exact fun h => ⟨_, rfl, h⟩

/-- An integer always is: 32 bits fit into a double. -/
theorem int_shows (i : Int32) : Shows (.int i) (out (.int i)).value := by
  have h1 := Int32.le_toInt i
  have h2 := Int32.toInt_lt i
  refine ⟨(intNumeral i).value, rfl, ?_⟩
  rw [intNumeral_value]
  refine nearest_intCast (abs_le.mpr ⟨?_, ?_⟩) <;> omega

mutual

/-- By induction on the value; the members are found by name. -/
theorem shows_iff (v : WValue) {v' : WValue} (hk : Keyed v) (hh : Held v v') :
    Shows v (out v').value ↔ ∀ x ∈ doubles v, ¬ Cut x := by
  match v with
  | .null =>
    cases hh
    exact iff_of_true rfl (by simp [doubles])
  | .int i =>
    cases hh
    exact iff_of_true (int_shows i) (by simp [doubles])
  | .double x =>
    cases hh
    rw [number_shows]
    simp [doubles]
  | .string s =>
    cases hh
    exact iff_of_true rfl (by simp [doubles])
  | .list l =>
    obtain ⟨l', rfl, hl⟩ := hh
    rw [doubles, ← showsAll_iff l hk hl, out, Out.value, values_outs]
    constructor
    · rintro ⟨vs, hvs, h⟩
      rw [Value.array.inj hvs]
      exact h
    · exact fun h => ⟨_, rfl, h⟩
  | .object o =>
    obtain ⟨o', o'', rfl, hperm, ho⟩ := hh
    obtain ⟨hnodup, hk⟩ := hk
    rw [doubles, ← showsMembers_iff o hk ho, out, Out.value, members_outMembers]
    have hp := (hperm.map fun p => (p.1, (out p.2).value)).symm
    constructor
    · rintro ⟨ms, ms', hms, hperm', h⟩
      rw [← Value.object.inj hms] at hperm'
      have hnames : (o''.map fun p => (p.1, (out p.2).value)).map Prod.fst = o.map Prod.fst := by
        rw [List.map_map]
        exact heldMembers_names ho
      rwa [eq_of_perm (hp.symm.trans hperm') (hnames.trans (showsMembers_names h).symm)
        (hnames ▸ hnodup)]
    · exact fun h => ⟨_, _, rfl, hp, h⟩

theorem showsAll_iff (l : List WValue) {l' : List WValue} (hk : KeyedAll l) (hh : HeldAll l l') :
    ShowsAll l (l'.map fun x => (out x).value) ↔ ∀ x ∈ listDoubles l, ¬ Cut x := by
  match l with
  | [] =>
    cases hh
    exact iff_of_true rfl (by simp [listDoubles])
  | x :: l =>
    obtain ⟨y, l'', rfl, hx, hl⟩ := hh
    rw [listDoubles, List.forall_mem_append, ← shows_iff x hk.1 hx, ← showsAll_iff l hk.2 hl,
      List.map_cons, ShowsAll]
    constructor
    · rintro ⟨V, vs, hvs, h1, h2⟩
      obtain ⟨rfl, rfl⟩ := List.cons.inj hvs
      exact ⟨h1, h2⟩
    · exact fun h => ⟨_, _, rfl, h.1, h.2⟩

theorem showsMembers_iff (o : List (Bytes × WValue)) {o' : List (Bytes × WValue)}
    (hk : KeyedMembers o) (hh : HeldMembers o o') :
    ShowsMembers o (o'.map fun p => (p.1, (out p.2).value)) ↔ ∀ x ∈ memberDoubles o, ¬ Cut x := by
  match o with
  | [] =>
    cases hh
    exact iff_of_true rfl (by simp [memberDoubles])
  | (k, x) :: o =>
    obtain ⟨y, o'', rfl, hx, ho⟩ := hh
    rw [memberDoubles, List.forall_mem_append, ← shows_iff x hk.1 hx, ← showsMembers_iff o hk.2 ho,
      List.map_cons, ShowsMembers]
    constructor
    · rintro ⟨V, ms, hms, h1, h2⟩
      obtain ⟨hv, rfl⟩ := List.cons.inj hms
      obtain rfl := (Prod.mk.inj hv).2
      exact ⟨h1, h2⟩
    · exact fun h => ⟨_, _, rfl, h.1, h.2⟩

end

/-- Every answer is a JSON text. -/
theorem parses_dump (v : WValue) : Parses (dump v) (out v).value := by
  rw [dump_text]
  exact Out.parses _

/-- **What arrives is what was written**, in any order the maps are walked in,
exactly when no double is cut. -/
theorem dump_shows_iff {v v' : WValue} (hk : Keyed v) (hh : Held v v') :
    ∃ V, Parses (dump v') V ∧ (Shows v V ↔ ∀ x ∈ doubles v, ¬ Cut x) :=
  ⟨(out v').value, parses_dump v', shows_iff v hk hh⟩

/-- A target of 150000000000000000000. -/
def fortune : Double := Double.ofRat (15 * 10 ^ 19)

theorem fortune_ne : fortune.val ≠ 0 := by decide +kernel

theorem fortune_cut : Cut fortune :=
  ⟨fortune_ne, by decide +kernel, by decide +kernel, by decide +kernel⟩

/-- A budget of that target, held the other way round, arrives as another. -/
theorem dump_shows_iff_fortune : ∃ V,
    Parses (dump (.object [(ascii "target_amount", .double fortune), (ascii "id", .int 1)])) V ∧
    ¬ Shows (.object [(ascii "id", .int 1), (ascii "target_amount", .double fortune)]) V := by
  have h : ∃ V,
      Parses (dump (.object [(ascii "target_amount", .double fortune), (ascii "id", .int 1)])) V ∧
      (Shows (.object [(ascii "id", .int 1), (ascii "target_amount", .double fortune)]) V ↔
        ∀ x ∈ doubles (.object [(ascii "id", .int 1), (ascii "target_amount", .double fortune)]),
          ¬ Cut x) :=
    dump_shows_iff ⟨by decide, trivial, trivial, trivial⟩
      ⟨_, _, rfl, .swap _ _ [], _, _, rfl, rfl, _, _, rfl, rfl, rfl⟩
  obtain ⟨V, hp, hs⟩ := h
  exact ⟨V, hp, fun hshows => hs.mp hshows fortune (by simp [doubles, memberDoubles]) fortune_cut⟩

/-! ## Lists -/

/-- `Array.isArray(data) ? data : []` -/
def listOf : Value → List Value
  | .array vs => vs
  | _ => []

/-- A body, decoded as the pages do and in whatever order its maps are walked, is the list
`l` in some order. -/
def Decoded (body : Body) (l : List WValue) : Prop := ∃ v, body = .json v ∧
  ∀ v', Held v v' → ∃ V vs, Parses (dump v') V ∧ (listOf V).Perm vs ∧ ShowsAll l vs

/-- A body, decoded so, has an entry that is `x`. -/
def Lists (body : Body) (x : WValue) : Prop := ∃ v, body = .json v ∧
  ∀ v', Held v v' → ∃ V, Parses (dump v') V ∧ ∃ W ∈ listOf V, Shows x W

theorem keyedAll_of {l : List WValue} (h : ∀ v ∈ l, Keyed v) : KeyedAll l := by
  induction l with
  | nil => trivial
  | cons v l ih => exact ⟨h v List.mem_cons_self, ih fun w hw => h w (List.mem_cons_of_mem _ hw)⟩

theorem mem_listDoubles {l : List WValue} {x : Double} (h : x ∈ listDoubles l) :
    ∃ v ∈ l, x ∈ doubles v := by
  induction l with
  | nil => cases h
  | cons v l ih =>
    rcases List.mem_append.mp h with h | h
    · exact ⟨v, List.mem_cons_self, h⟩
    · obtain ⟨w, hw, hx⟩ := ih h
      exact ⟨w, List.mem_cons_of_mem _ hw, hx⟩

/-- A list without a double that is cut is parsed as it is, entry by entry. -/
theorem list_shows {l : List WValue} (hk : KeyedAll l) (hcut : ∀ x ∈ listDoubles l, ¬ Cut x)
    {v' : WValue} (hh : Held (.ofList l) v') :
    ∃ V, Parses (dump v') V ∧ ShowsAll l (listOf V) := by
  refine ⟨(out v').value, parses_dump v', ?_⟩
  cases l with
  | nil =>
    cases hh
    rfl
  | cons v l =>
    have hshows : Shows (.list (v :: l)) (out v').value :=
      (shows_iff (.list (v :: l)) hk hh).mpr hcut
    obtain ⟨vs, hvs, hall⟩ := hshows
    rw [hvs]
    exact hall

/-- What the text of a list is parsed as. -/
theorem listOf_outs (l : List WValue) :
    listOf (out (.ofList l)).value = l.map fun v => (out v).value := by
  cases l with
  | nil => rfl
  | cons v l => exact values_outs (v :: l)

theorem showsAll_mem {l : List WValue} {vs : List Value} (h : ShowsAll l vs) {v : WValue}
    (hv : v ∈ l) : ∃ V ∈ vs, Shows v V := by
  induction l generalizing vs with
  | nil => cases hv
  | cons w l ih =>
    obtain ⟨V, vs', rfl, hw, hl⟩ := h
    rcases List.mem_cons.mp hv with rfl | hv
    · exact ⟨V, List.mem_cons_self, hw⟩
    · obtain ⟨V', hV', hs⟩ := ih hl hv
      exact ⟨V', List.mem_cons_of_mem _ hV', hs⟩

theorem heldAll_mem {l l' : List WValue} (h : HeldAll l l') {x : WValue} (hx : x ∈ l) :
    ∃ y ∈ l', Held x y := by
  induction l generalizing l' with
  | nil => cases hx
  | cons w l ih =>
    obtain ⟨y, l'', rfl, hw, hl⟩ := h
    rcases List.mem_cons.mp hx with rfl | hx
    · exact ⟨y, List.mem_cons_self, hw⟩
    · obtain ⟨y', hy', hh⟩ := ih hl hx
      exact ⟨y', List.mem_cons_of_mem _ hy', hh⟩

/-- An entry arrives if no double of its own is cut. -/
theorem lists_of_mem {l : List WValue} {x : WValue} (hx : x ∈ l) (hk : Keyed x)
    (hcut : ∀ d ∈ doubles x, ¬ Cut d) : Lists (.json (.ofList l)) x := by
  refine ⟨_, rfl, fun v' hh => ?_⟩
  cases l with
  | nil => cases hx
  | cons w l =>
    obtain ⟨l', rfl, hl⟩ := hh
    obtain ⟨y, hy, hxy⟩ := heldAll_mem hl hx
    refine ⟨_, parses_dump _, (out y).value, ?_, (shows_iff x hk hxy).mpr hcut⟩
    rw [out, Out.value, values_outs]
    exact List.mem_map_of_mem hy

/-! ## Another value of the same names -/

/-- Members are compared by their names. -/
theorem shows_members {o o' : List (Bytes × WValue)} (hnames : o'.map Prod.fst = o.map Prod.fst)
    (hn : (o.map Prod.fst).Nodup) (h : Shows (.object o) (out (.object o')).value) :
    ShowsMembers o (o'.map fun p => (p.1, (out p.2).value)) := by
  obtain ⟨ms, ms', hms, hperm, hs⟩ := h
  rw [out, Out.value, members_outMembers] at hms
  rw [← Value.object.inj hms] at hperm
  have hfst : (o'.map fun p => (p.1, (out p.2).value)).map Prod.fst = o.map Prod.fst := by
    rw [List.map_map]
    exact hnames
  rwa [eq_of_perm hperm (hfst.trans (showsMembers_names hs).symm) (hfst ▸ hn)]

/-- The first member, and the rest. -/
theorem showsMembers_cons {k k' : Bytes} {x : WValue} {o : List (Bytes × WValue)} {V : Value}
    {ms : List (Bytes × Value)} :
    ShowsMembers ((k, x) :: o) ((k', V) :: ms) ↔ k' = k ∧ Shows x V ∧ ShowsMembers o ms := by
  constructor
  · rintro ⟨W, ms', h, hx, ho⟩
    cases h
    exact ⟨rfl, hx, ho⟩
  · rintro ⟨rfl, hx, ho⟩
    exact ⟨V, ms, rfl, hx, ho⟩

theorem shows_int_iff {i j : Int32} : Shows (.int i) (out (.int j)).value ↔ i = j := by
  constructor
  · rintro ⟨q, hq, h⟩
    obtain ⟨q', hq', h'⟩ := int_shows j
    rw [hq] at hq'
    rw [Value.number.inj hq', h'] at h
    exact (Int32.toInt_inj.mp (by exact_mod_cast h)).symm
  · rintro rfl
    exact int_shows i

theorem shows_string_iff {s t : Bytes} : Shows (.string s) (out (.string t)).value ↔ s = t :=
  ⟨fun h => (Value.string.inj h).symm, fun h => h ▸ rfl⟩

end ExpenseTracker.L3.Answers
