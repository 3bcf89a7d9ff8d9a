import ExpenseTracker.Core.Decimal
import ExpenseTracker.L3Server.CrowValue

/-!
# What the handlers read of a body

The accessors of `rvalue` on the pieces of the text the parser kept, and the
value the model of the handlers takes (`Node.rvalue`). Numbers are converted
when they are read; a number that ends in the sign of its exponent is none.

* `rvalue_s`, `rvalue_d`, `rvalue_i`: the accessors give the same on both.
* `read_means`: what is read of a value of RFC 8259 is that value.
* `load_rfc`: a JSON text is read as what it means, or refused for one of two
  reasons.
-/
namespace ExpenseTracker.L3.CrowLoad

open ExpenseTracker.Core ExpenseTracker.Core.JsonSyntax ExpenseTracker.L3.Json

/-! ## Conversions -/

/-- The parts of a number; `none` if the text ends inside its exponent. -/
def scanNumber (s : Bytes) : Option Number :=
  let neg := cur s == 45
  let s := if neg then s.tail else s
  let int := s.takeWhile isDigit
  let s := s.dropWhile isDigit
  let frac := if cur s = 46 then s.tail.takeWhile isDigit else []
  let s := if cur s = 46 then s.tail.dropWhile isDigit else s
  if s = [] then some ⟨neg, readNat int, readNat frac, frac.length, 0⟩
  else
    let minus := cur s.tail == 45
    let ds := if cur s.tail = 45 ∨ cur s.tail = 43 then s.tail.tail else s.tail
    if ds = [] then none
    else some ⟨neg, readNat int, readNat frac, frac.length,
      if minus then -(readNat ds : ℤ) else readNat ds⟩

/-- `lexical_cast<double>`: the conversion takes the whole number, or fails and stores 0. -/
def lexicalCastDouble (s : Bytes) : Double :=
  match scanNumber s with
  | some n => Double.ofRat n.value
  | none => Double.zero

namespace Node

/-- mirrors src/include/Crow/include/crow/json.h:453-461 -/
def s : Node → Except Exn Bytes
  | string raw esc => .ok (unescape raw esc)
  | _ => .error .runtime_error

/-- mirrors src/include/Crow/include/crow/json.h:433-440 -/
def d : Node → Except Exn Double
  | number text => .ok (lexicalCastDouble text)
  | _ => .error .runtime_error

/-- mirrors src/include/Crow/include/crow/json.h:400-414 -/
def i : Node → Except Exn ℤ
  | number text => .ok (lexicalCastInt text)
  | string raw _ => .ok (lexicalCastInt raw)
  | _ => .error .runtime_error

mutual

/-- The value the handlers' model reads; `none` if one of its numbers is cut off. -/
def rvalue : Node → Option RValue
  | null => some .null
  | bool b => some (.bool b)
  | number text => (scanNumber text).map .number
  | string raw esc => some (.string raw (unescape raw esc))
  | list l => (rvalues l).map .list
  | object o => (members o).map .object

def rvalues : List Node → Option (List RValue)
  | [] => some []
  | n :: l => n.rvalue.bind fun x => (rvalues l).map (x :: ·)

def members : List (Bytes × Node) → Option (List (Bytes × RValue))
  | [] => some []
  | (k, n) :: o => n.rvalue.bind fun x => (members o).map ((k, x) :: ·)

end

end Node

/-! ## Numbers -/

/-- The parts of a number that is written out. -/
def numberOf (n : Numeral) : Number where
  neg := n.neg
  int := readNat n.int
  frac := readNat (n.frac.getD [])
  scale := (n.frac.getD []).length
  exp := n.expValue

theorem numberOf_value (n : Numeral) : (numberOf n).value = n.value := by
  unfold Number.value Numeral.value Numeral.fracValue numberOf
  cases n.frac with
  | none => simp [readNat]
  | some ds => simp only [Option.getD_some, mul_assoc]

theorem takeWhile_end {ds r : Bytes} (hd : ∀ b ∈ ds, isDigit b = true) (hr : DigitsEnd r) :
    (ds ++ r).takeWhile isDigit = ds ∧ (ds ++ r).dropWhile isDigit = r := by
  have htake := takeWhile_digits_end hd hr
  refine ⟨htake, ?_⟩
  have hsplit : (ds ++ r).takeWhile isDigit ++ (ds ++ r).dropWhile isDigit = ds ++ r :=
    List.takeWhile_append_dropWhile
  rw [htake] at hsplit
  exact List.append_cancel_left hsplit

/-- An exponent as `scanNumber` takes it apart. -/
theorem exp_parts (e : Exponent) : expText (some e) ≠ [] ∧
    (cur (expText (some e)).tail == 45) = (e.sign == some true) ∧
    (if cur (expText (some e)).tail = 45 ∨ cur (expText (some e)).tail = 43 then
      (expText (some e)).tail.tail else (expText (some e)).tail) = e.digits := by
  refine ⟨by simp [expText, Exponent.text], ?_⟩
  rw [expText, Exponent.text, List.tail_cons]
  cases hs : e.sign with
  | some minus => cases minus <;> exact ⟨rfl, rfl⟩
  | none =>
    have hdigit : cur e.digits ≠ 45 ∧ cur e.digits ≠ 43 := by
      cases hd : e.digits with
      | nil => decide
      | cons b ds =>
        have hb := e.areDigits b (hd ▸ List.mem_cons_self)
        refine ⟨?_, ?_⟩
        · rintro rfl
          exact absurd hb (by decide)
        · rintro rfl
          exact absurd hb (by decide)
    rw [signText, List.nil_append, if_neg (by simp [hdigit])]
    exact ⟨by simp [hdigit], rfl⟩

theorem scanNumber_text (n : Numeral) : scanNumber n.text =
    if ∀ e ∈ n.exp, e.digits ≠ [] then some (numberOf n) else none := by
  have hend := fracText_head n numberEnd_nil
  rw [List.append_nil] at hend
  obtain ⟨hint, hrest⟩ := takeWhile_end n.intDigits hend
  -- the sign
  have hsign : (cur n.text == 45) = n.neg ∧
      (if n.neg then n.text.tail else n.text) = n.int ++ (fracText n.frac ++ expText n.exp) := by
    unfold Numeral.text
    cases n.neg with
    | true => exact ⟨rfl, rfl⟩
    | false =>
      refine ⟨?_, rfl⟩
      cases hi : n.int with
      | nil => exact absurd hi n.intSome
      | cons b ds =>
        have hb := n.intDigits b (hi ▸ List.mem_cons_self)
        have hne : b ≠ 45 := by
          rintro rfl
          exact absurd hb (by decide)
        simpa [cur] using hne
  -- the fraction
  have hfrac : (if cur (fracText n.frac ++ expText n.exp) = 46 then
        (fracText n.frac ++ expText n.exp).tail.takeWhile isDigit else []) = n.frac.getD [] ∧
      (if cur (fracText n.frac ++ expText n.exp) = 46 then
        (fracText n.frac ++ expText n.exp).tail.dropWhile isDigit
        else fracText n.frac ++ expText n.exp) = expText n.exp := by
    have hhead := expText_head n numberEnd_nil
    rw [List.append_nil] at hhead
    cases hf : n.frac with
    | some ds => exact takeWhile_end (n.fracDigits ds hf) fun c hc => (hhead c hc).1
    | none =>
      have hne : cur (expText n.exp) ≠ 46 := by
        cases ht : expText n.exp with
        | nil => decide
        | cons c t =>
          rw [ht] at hhead
          exact (hhead c rfl).2
      exact ⟨if_neg hne, if_neg hne⟩
  unfold scanNumber
  simp only [hsign.1, hsign.2, hint, hrest, hfrac.1, hfrac.2]
  unfold numberOf Numeral.expValue
  cases hexp : n.exp with
  | none => rfl
  | some e =>
    obtain ⟨hne, hminus, hds⟩ := exp_parts e
    simp only [if_neg hne, hminus, hds]
    by_cases hd : e.digits = []
    · rw [if_pos hd, if_neg fun h => h e rfl hd]
    · have hall : ∀ x ∈ some e, x.digits ≠ [] := by
        rintro _ ⟨⟩
        exact hd
      rw [if_neg hd, if_pos hall]
      simp

/-! ## The accessors -/

theorem rvalue_s {n : Node} {x : RValue} (h : n.rvalue = some x) : n.s = x.s := by
  cases n with
  | null => cases h; rfl
  | bool b => cases h; rfl
  | string raw esc => cases h; rfl
  | number text =>
    obtain ⟨m, _, rfl⟩ := Option.map_eq_some_iff.mp h
    rfl
  | list l =>
    obtain ⟨m, _, rfl⟩ := Option.map_eq_some_iff.mp h
    rfl
  | object o =>
    obtain ⟨m, _, rfl⟩ := Option.map_eq_some_iff.mp h
    rfl

theorem rvalue_d {n : Node} {x : RValue} (h : n.rvalue = some x) : n.d = x.d := by
  cases n with
  | null => cases h; rfl
  | bool b => cases h; rfl
  | string raw esc => cases h; rfl
  | number text =>
    obtain ⟨m, hm, rfl⟩ := Option.map_eq_some_iff.mp h
    rw [Node.d, lexicalCastDouble, hm, RValue.d]
  | list l =>
    obtain ⟨m, _, rfl⟩ := Option.map_eq_some_iff.mp h
    rfl
  | object o =>
    obtain ⟨m, _, rfl⟩ := Option.map_eq_some_iff.mp h
    rfl

theorem lexicalCastInt_text (n : Numeral) :
    lexicalCastInt n.text = clampInt64 (numberOf n).leading := by
  have hend := fracText_head n numberEnd_nil
  rw [List.append_nil] at hend
  have hint := (takeWhile_end n.intDigits hend).1
  cases hi : n.int with
  | nil => exact absurd hi n.intSome
  | cons b ds =>
    have hb := n.intDigits b (hi ▸ List.mem_cons_self)
    have hplain : isSpace b = false ∧ b ≠ 45 ∧ b ≠ 43 := by
      unfold isDigit at hb
      unfold isSpace
      rw [decide_eq_true_eq] at hb
      refine ⟨?_, ?_, ?_⟩ <;> grind
    have hleading : (numberOf n).leading =
        if n.neg then -(readNat n.int : ℤ) else readNat n.int := rfl
    rw [hleading]
    cases hn : n.neg with
    | true =>
      have htext : n.text = 45 :: (n.int ++ (fracText n.frac ++ expText n.exp)) := by
        simp [Numeral.text, hn]
      rw [htext, lexicalCastInt, List.dropWhile_cons_of_neg (by decide)]
      simp only [hint]
      rfl
    | false =>
      have htext : n.text = b :: (ds ++ (fracText n.frac ++ expText n.exp)) := by
        simp [Numeral.text, hn, hi]
      rw [hi, List.cons_append] at hint
      rw [htext, lexicalCastInt, List.dropWhile_cons_of_neg (by simp [hplain.1])]
      split
      · rename_i r h
        exact absurd (List.cons.inj h).1 hplain.2.1
      · rename_i r h
        exact absurd (List.cons.inj h).1 hplain.2.2
      · rw [hint, ← hi]
        rfl

theorem rvalue_i (d : Doc) {x : RValue} (h : (nodeOf d).rvalue = some x) : (nodeOf d).i = x.i := by
  cases d with
  | null => cases h; rfl
  | bool b => cases h; rfl
  | string ps => cases h; rfl
  | number n =>
    obtain ⟨m, hm, rfl⟩ := Option.map_eq_some_iff.mp h
    rw [scanNumber_text] at hm
    split at hm
    · cases hm
      rw [nodeOf, Node.i, lexicalCastInt_text, RValue.i]
    · cases hm
  | emptyArray w => cases h; rfl
  | emptyObject w => cases h; rfl
  | array l =>
    obtain ⟨m, _, rfl⟩ := Option.map_eq_some_iff.mp h
    rfl
  | object o =>
    obtain ⟨m, _, rfl⟩ := Option.map_eq_some_iff.mp h
    rfl

/-! ## Read as meant -/

/-- Two texts that differ in characters past U+FFFF only: where one has their
UTF-8 bytes, the other may have those of each half of their surrogate pair. -/
inductive Cesu : Bytes → Bytes → Prop
  | nil : Cesu [] []
  | same {s t : Bytes} (c : Bytes) : Cesu s t → Cesu (c ++ s) (c ++ t)
  | pair {s t : Bytes} (hi lo : ℕ) : 0xD800 ≤ hi → hi < 0xDC00 → 0xDC00 ≤ lo → lo < 0xE000 →
      Cesu s t → Cesu (JsonText.utf8 (pairPoint hi lo) ++ s) (JsonText.utf8 hi ++ (JsonText.utf8 lo ++ t))

mutual

/-- What the handlers read is what the text means. -/
def Means : RValue → JsonText.Value → Prop
  | .null, .null => True
  | .bool a, .bool b => a = b
  | .number n, .number q => n.value = q
  | .string _ t, .string s => Cesu s t
  | .list l, .array vs => MeansAll l vs
  | .object o, .object ms => MeansMembers o ms
  | _, _ => False

def MeansAll : List RValue → List JsonText.Value → Prop
  | [], [] => True
  | x :: l, v :: vs => Means x v ∧ MeansAll l vs
  | _, _ => False

def MeansMembers : List (Bytes × RValue) → List (Bytes × JsonText.Value) → Prop
  | [], [] => True
  | (k, x) :: o, (name, v) :: ms => Cesu name k ∧ Means x v ∧ MeansMembers o ms
  | _, _ => False

end

theorem utf8s_cesu (ps : List Piece) {v : Bytes} (h : utf8s ps = some v) :
    Cesu v (ps.flatMap Piece.bytes) := by
  induction ps using utf8s.induct generalizing v with
  | case1 =>
    cases h
    exact .nil
  | case2 b hb ps hlt =>
    rw [utf8s, if_pos hlt] at h
    cases h
  | case3 b hb ps hlt ih =>
    rw [utf8s, if_neg hlt] at h
    obtain ⟨w, hw, rfl⟩ := Option.map_eq_some_iff.mp h
    exact .same [b] (ih hw)
  | case4 b c hc ps ih =>
    rw [utf8s] at h
    obtain ⟨w, hw, rfl⟩ := Option.map_eq_some_iff.mp h
    exact .same [c] (ih hw)
  | case5 x ps hx ih =>
    rw [utf8s_unit hx] at h
    obtain ⟨w, hw, rfl⟩ := Option.map_eq_some_iff.mp h
    exact .same _ (ih hw)
  | case6 x hx hhigh y ps hy ih =>
    rw [utf8s_pair hx hhigh, if_pos hy] at h
    obtain ⟨w, hw, rfl⟩ := Option.map_eq_some_iff.mp h
    exact .pair x.n y.n (by omega) hhigh hy.1 hy.2 (ih hw)
  | case7 x hx hhigh y ps hy =>
    rw [utf8s_pair hx hhigh, if_neg hy] at h
    cases h
  | case8 x ps hx hhigh hps =>
    rw [utf8s_alone hx hps] at h
    cases h
  | case9 x ps hx hlow =>
    rw [utf8s_low hx hlow] at h
    cases h

mutual

/-- What the parser keeps of a value of RFC 8259 is read as that value. -/
theorem read_means (d : Doc) {v : JsonText.Value} (h : d.value = some v) :
    ∃ x, (nodeOf d).rvalue = some x ∧ Means x v := by
  match d with
  | .null =>
    cases h
    exact ⟨.null, rfl, trivial⟩
  | .bool b =>
    cases h
    exact ⟨.bool b, rfl, rfl⟩
  | .string ps =>
    obtain ⟨w, hw, rfl⟩ := Option.map_eq_some_iff.mp h
    exact ⟨_, rfl, by rw [unescape_texts]; exact utf8s_cesu ps hw⟩
  | .number n =>
    rw [Doc.value] at h
    split at h
    · rename_i hrfc
      cases h
      refine ⟨.number (numberOf n), ?_, numberOf_value n⟩
      rw [nodeOf, Node.rvalue, scanNumber_text, if_pos hrfc.2]
      rfl
    · cases h
  | .emptyArray w =>
    cases h
    exact ⟨.list [], rfl, trivial⟩
  | .emptyObject w =>
    cases h
    exact ⟨.object [], rfl, trivial⟩
  | .array l =>
    obtain ⟨vs, hvs, rfl⟩ := Option.map_eq_some_iff.mp h
    obtain ⟨xs, hxs, hmeans⟩ := read_meansAll l hvs
    exact ⟨.list xs, by rw [nodeOf, Node.rvalue, hxs]; rfl, hmeans⟩
  | .object m =>
    obtain ⟨ms, hms, rfl⟩ := Option.map_eq_some_iff.mp h
    obtain ⟨xs, hxs, hmeans⟩ := read_meansMembers m hms
    exact ⟨.object xs, by rw [nodeOf, Node.rvalue, hxs]; rfl, hmeans⟩

theorem read_meansAll (l : Elements) {vs : List JsonText.Value} (h : l.values = some vs) :
    ∃ xs, Node.rvalues (nodesOf l) = some xs ∧ MeansAll xs vs := by
  match l with
  | .last w d w' =>
    obtain ⟨v, hv, rfl⟩ := Option.map_eq_some_iff.mp h
    obtain ⟨x, hx, hmeans⟩ := read_means d hv
    exact ⟨[x], by rw [nodesOf, Node.rvalues, hx]; rfl, hmeans, trivial⟩
  | .more w d w' l =>
    rw [Elements.values] at h
    obtain ⟨v, hv, h⟩ := Option.bind_eq_some_iff.mp h
    obtain ⟨vs, hvs, rfl⟩ := Option.map_eq_some_iff.mp h
    obtain ⟨x, hx, hmeans⟩ := read_means d hv
    obtain ⟨xs, hxs, hall⟩ := read_meansAll l hvs
    exact ⟨x :: xs, by rw [nodesOf, Node.rvalues, hx, hxs]; rfl, hmeans, hall⟩

theorem read_meansMembers (m : Members) {ms : List (Bytes × JsonText.Value)}
    (h : m.values = some ms) : ∃ xs, Node.members (namedOf m) = some xs ∧ MeansMembers xs ms := by
  match m with
  | .last w k w' w₁ d w₁' =>
    rw [Members.values] at h
    obtain ⟨name, hname, h⟩ := Option.bind_eq_some_iff.mp h
    obtain ⟨v, hv, rfl⟩ := Option.map_eq_some_iff.mp h
    obtain ⟨x, hx, hmeans⟩ := read_means d hv
    exact ⟨[(_, x)], by rw [namedOf, Node.members, hx]; rfl, utf8s_cesu k hname, hmeans, trivial⟩
  | .more w k w' w₁ d w₁' m =>
    rw [Members.values] at h
    obtain ⟨name, hname, h⟩ := Option.bind_eq_some_iff.mp h
    obtain ⟨v, hv, h⟩ := Option.bind_eq_some_iff.mp h
    obtain ⟨ms, hms, rfl⟩ := Option.map_eq_some_iff.mp h
    obtain ⟨x, hx, hmeans⟩ := read_means d hv
    obtain ⟨xs, hxs, hall⟩ := read_meansMembers m hms
    exact ⟨(_, x) :: xs, by rw [namedOf, Node.members, hx, hxs]; rfl, utf8s_cesu k hname, hmeans,
      hall⟩

end

/-- **A JSON text is read as what it means, or refused**, and it is refused only for
a zero with an exponent right behind it or for more than 5000 levels. -/
theorem load_rfc {s : Bytes} {v : JsonText.Value} (h : JsonText.Parses s v) :
    (∀ n, load s = some n → ∃ x, n.rvalue = some x ∧ Means x v) ∧
    (load s = none ↔ ∃ (w : Blank) (d : Doc) (w' : Blank), s = w.1 ++ (d.text ++ w'.1) ∧
      d.value = some v ∧ ((∃ m ∈ d.numerals, ZeroExp m) ∨ 5000 < d.height)) := by
  obtain ⟨w, d, w', rfl, hd⟩ := parses_iff.mp h
  refine ⟨fun n hn => ?_, ?_, ?_⟩
  · rw [load_doc] at hn
    obtain ⟨_, _, rfl⟩ := (loaded_iff d 0 n).mp hn
    exact read_means d hd
  · intro hnone
    refine ⟨w, d, w', rfl, hd, ?_⟩
    by_contra hnot
    push Not at hnot
    have hsome := (loaded_iff d 0 (nodeOf d)).mpr ⟨hnot.1, (fits_zero _).mpr hnot.2, rfl⟩
    rw [load_doc, hsome] at hnone
    cases hnone
  · rintro ⟨w₁, d₁, w₁', hs, _, hbad⟩
    rw [hs, load_doc, Option.eq_none_iff_forall_ne_some]
    intro n hn
    obtain ⟨hz, hf, _⟩ := (loaded_iff d₁ 0 n).mp hn
    rcases hbad with ⟨m, hm, hzero⟩ | hdeep
    · exact hz m hm hzero
    · have := (fits_zero _).mp hf
      omega

theorem two_digits : ∀ b ∈ ([50] : Bytes), isDigit b = true := List.forall_mem_singleton.mpr rfl

theorem two_some : (none : Option Bool) ≠ none ∨ ([50] : Bytes) ≠ [] := Or.inr (List.cons_ne_nil _ _)

/-- `0e2`, a zero with an exponent. -/
def zeroSquared : Numeral where
  neg := false
  int := [48]
  frac := none
  exp := some ⟨101, none, [50], Decimal.letter_e, two_digits, two_some⟩
  intDigits := Decimal.zero_digits
  intSome := Decimal.zero_ne_nil
  noLeading := Decimal.zero_leading
  fracDigits := Decimal.no_fraction

theorem zeroSquared_parses : JsonText.Parses zeroSquared.text (.number 0) := by
  refine parses_iff.mpr ⟨⟨[], by simp⟩, .number zeroSquared, ⟨[], by simp⟩, rfl, ?_⟩
  have hvalue : zeroSquared.value = 0 := by simp [Numeral.value, Numeral.fracValue, zeroSquared, readNat]
  rw [Doc.value, if_pos (by decide), hvalue]

/-- It is refused though `JSON.parse` reads a zero. -/
theorem load_rfc_zeroSquared :
    (∀ n, load zeroSquared.text = some n → ∃ x, n.rvalue = some x ∧ Means x (.number 0)) ∧
    (load zeroSquared.text = none ↔ ∃ (w : Blank) (d : Doc) (w' : Blank),
      zeroSquared.text = w.1 ++ (d.text ++ w'.1) ∧ d.value = some (.number 0) ∧
      ((∃ m ∈ d.numerals, ZeroExp m) ∨ 5000 < d.height)) :=
  load_rfc zeroSquared_parses

end ExpenseTracker.L3.CrowLoad
