import ExpenseTracker.Core.JsonSyntax
import ExpenseTracker.L3Server.Json

/-!
# Reading a request body (`crow::json::load`)

`load` copies the body, puts a NUL behind it and parses in place: strings and
numbers stay pieces of the text (`Node`), which the accessors unescape and
convert when they are called.

* `stringLoop_texts`, `stringLoop_tree`: the strings the parser takes, and what
  it keeps of them.
* `unescape_texts`: every character is replaced by the bytes it stands for, the
  halves of a surrogate pair each by itself.
-/
namespace ExpenseTracker.L3.CrowLoad

open ExpenseTracker.Core ExpenseTracker.Core.JsonSyntax ExpenseTracker.L3.Json

/-- mirrors crow::json::rvalue as the parser leaves it: a string or a number
is a piece of the text, and only the names of an object are unescaped. -/
inductive Node where
  | null
  | bool (b : Bool)
  | number (text : Bytes)
  | string (raw : Bytes) (hasEscaping : Bool)
  | list (l : List Node)
  | object (o : List (Bytes × Node))

/-! ## The parser -/

/-- `*data`: a NUL stands behind the last byte. -/
def cur (s : Bytes) : UInt8 := s.headD 0

/-- mirrors src/include/Crow/include/crow/json.h:888-894 -/
def consume (c : UInt8) (s : Bytes) : Option Bytes := if cur s ≠ c then none else some s.tail

/-- mirrors src/include/Crow/include/crow/json.h:896-900 -/
def wsSkip (s : Bytes) : Bytes := s.dropWhile fun b => b == 32 || b == 9 || b == 13 || b == 10

/-- The hex digits of an escape.
mirrors src/include/Crow/include/crow/json.h:929-933 -/
def check (c : UInt8) : Bool :=
  (48 ≤ c && c ≤ 57) || (97 ≤ c && c ≤ 102) || (65 ≤ c && c ≤ 70)

/-- The escapes of one letter, in the order of the switch. -/
def letters : Bytes := [34, 92, 47, 98, 102, 110, 114, 116]

/-- The loop of `decode_string`: the body, `has_escaping`, and what stands
behind the closing quote. A NUL ends the text.
mirrors src/include/Crow/include/crow/json.h:906-959 -/
def stringLoop : Bytes → Option (Bytes × Bool × Bytes)
  | [] => none
  | b :: s =>
    if b ≠ 34 ∧ b ≠ 92 ∧ b ≠ 0 then (stringLoop s).map fun p => (b :: p.1, p.2)
    else if b = 34 then some ([], false, s)
    else if b = 92 then
      match s with
      | [] => none
      | e :: s =>
        if e = 117 then
          match s with
          | h₁ :: h₂ :: h₃ :: h₄ :: s =>
            if check h₁ && check h₂ && check h₃ && check h₄ then
              (stringLoop s).map fun p => (b :: e :: h₁ :: h₂ :: h₃ :: h₄ :: p.1, true, p.2.2)
            else none
          | _ => none
        else if e ∈ letters then (stringLoop s).map fun p => (b :: e :: p.1, true, p.2.2)
        else none
    else none

/-- mirrors src/include/Crow/include/crow/json.h:902-960 -/
def decodeString (s : Bytes) : Option (Bytes × Bool × Bytes) := (consume 34 s).bind stringLoop

inductive NumberParsingState where
  | Minus
  | AfterMinus
  | ZeroFirst
  | Digits
  | DigitsAfterPoints
  | E
  | DigitsAfterE
  | Invalid
  deriving DecidableEq

namespace NumberParsingState

/-- The seven columns of the table. -/
def index : NumberParsingState → ℕ
  | Minus => 0
  | AfterMinus => 1
  | ZeroFirst => 2
  | Digits => 3
  | DigitsAfterPoints => 4
  | E => 5
  | DigitsAfterE => 6
  | Invalid => 7

/-- The states a number may end in. -/
def accepts : NumberParsingState → Bool
  | ZeroFirst | Digits | DigitsAfterPoints | DigitsAfterE => true
  | _ => false

end NumberParsingState

open NumberParsingState in
/-- The row of the transition table for a byte; `none` is the `default` of the switch. -/
def row (b : UInt8) : Option (List NumberParsingState) :=
  if b = 48 then
    some [ZeroFirst, ZeroFirst, Invalid, Digits, DigitsAfterPoints, DigitsAfterE, DigitsAfterE]
  else if 49 ≤ b ∧ b ≤ 57 then
    some [Digits, Digits, Invalid, Digits, DigitsAfterPoints, DigitsAfterE, DigitsAfterE]
  else if b = 46 then
    some [Invalid, Invalid, DigitsAfterPoints, DigitsAfterPoints, Invalid, Invalid, Invalid]
  else if b = 45 then some [AfterMinus, Invalid, Invalid, Invalid, Invalid, DigitsAfterE, Invalid]
  else if b = 43 then some [Invalid, Invalid, Invalid, Invalid, Invalid, DigitsAfterE, Invalid]
  else if b = 101 ∨ b = 69 then some [Invalid, Invalid, Invalid, E, E, Invalid, Invalid]
  else none

/-- The loop of `decode_number`: the text of the number, and the rest. A digit
from 1 to 9 takes the digits behind it along without asking the table (`run`).
mirrors src/include/Crow/include/crow/json.h:1017-1123 -/
def numberLoop (state : NumberParsingState) (run : Bool) : Bytes → Option (Bytes × Bytes)
  | [] => if state.accepts then some ([], []) else none
  | b :: s =>
    if run && isDigit b then (numberLoop state true s).map fun p => (b :: p.1, p.2)
    else if state = .Invalid then none
    else
      match row b with
      | some r =>
        (numberLoop (r.getD state.index .Invalid) (49 ≤ b && b ≤ 57) s).map fun p => (b :: p.1, p.2)
      | none => if state.accepts then some ([], b :: s) else none

/-- mirrors src/include/Crow/include/crow/json.h:1002-1126 -/
def decodeNumber (s : Bytes) : Option (Bytes × Bytes) := numberLoop .Minus false s

/-- The rest of a literal behind its first byte. -/
def literal (name : String) (v : Node) (s : Bytes) : Option (Node × Bytes) :=
  if (ascii name).isPrefixOf s.tail then some (v, s.drop (name.length + 1)) else none

/-- mirrors src/include/Crow/include/crow/json.h:502-508 -/
def fromHex (c : UInt8) : ℕ :=
  if 97 ≤ c then c.toNat - 97 + 10 else if 65 ≤ c then c.toNat - 65 + 10 else c.toNat - 48

/-- The bytes of a `\u`: one to three, whatever the number. -/
def encode (code : ℕ) : Bytes :=
  if 0x800 ≤ code then
    [UInt8.ofNat (0xE0 ||| code >>> 12), UInt8.ofNat (0x80 ||| (code >>> 6 &&& 0x3F)),
      UInt8.ofNat (0x80 ||| (code &&& 0x3F))]
  else if 0x80 ≤ code then
    [UInt8.ofNat (0xC0 ||| code >>> 6), UInt8.ofNat (0x80 ||| (code &&& 0x3F))]
  else [UInt8.ofNat code]

/-- The loop of `unescape`.
mirrors src/include/Crow/include/crow/json.h:486-537 -/
def unescapeLoop : Bytes → Bytes
  | [] => []
  | b :: s =>
    if b = 92 then
      match s with
      | [] => []
      | e :: s =>
        if e = 34 ∨ e = 92 ∨ e = 47 then e :: unescapeLoop s
        else if e = 98 then 8 :: unescapeLoop s
        else if e = 102 then 12 :: unescapeLoop s
        else if e = 110 then 10 :: unescapeLoop s
        else if e = 114 then 13 :: unescapeLoop s
        else if e = 116 then 9 :: unescapeLoop s
        else if e = 117 then
          match s with
          | h₁ :: h₂ :: h₃ :: h₄ :: s =>
            encode (fromHex h₁ <<< 12 + fromHex h₂ <<< 8 + fromHex h₃ <<< 4 + fromHex h₄) ++
              unescapeLoop s
          | _ => []
        else unescapeLoop s
    else b :: unescapeLoop s

/-- A text without escapes is left alone. -/
def unescape (raw : Bytes) (hasEscaping : Bool) : Bytes :=
  if hasEscaping then unescapeLoop raw else raw

def maxDepth : ℕ := 10000

mutual

/-- mirrors src/include/Crow/include/crow/json.h:1129-1181 -/
def decodeValue : ℕ → ℕ → Bytes → Option (Node × Bytes)
  | 0, _, _ => none
  | fuel + 1, depth, s =>
    if cur s = 91 then decodeList fuel (depth + 1) s
    else if cur s = 123 then decodeObject fuel (depth + 1) s
    else if cur s = 34 then (decodeString s).map fun p => (.string p.1 p.2.1, p.2.2)
    else if cur s = 116 then literal "rue" (.bool true) s
    else if cur s = 102 then literal "alse" (.bool false) s
    else if cur s = 110 then literal "ull" .null s
    else (decodeNumber s).map fun p => (.number p.1, p.2)

/-- mirrors src/include/Crow/include/crow/json.h:962-1000 -/
def decodeList : ℕ → ℕ → Bytes → Option (Node × Bytes)
  | 0, _, _ => none
  | fuel + 1, depth, s =>
    (consume 91 s).bind fun s =>
      if maxDepth < depth then none
      else if cur (wsSkip s) = 93 then some (.list [], (wsSkip s).tail)
      else (listLoop fuel depth (wsSkip s)).map fun p => (.list p.1, p.2)

def listLoop : ℕ → ℕ → Bytes → Option (List Node × Bytes)
  | 0, _, _ => none
  | fuel + 1, depth, s =>
    (decodeValue fuel (depth + 1) s).bind fun p =>
      if cur (wsSkip p.2) = 93 then some ([p.1], (wsSkip p.2).tail)
      else (consume 44 (wsSkip p.2)).bind fun s =>
        (listLoop fuel depth (wsSkip s)).map fun q => (p.1 :: q.1, q.2)

/-- mirrors src/include/Crow/include/crow/json.h:1183-1244 -/
def decodeObject : ℕ → ℕ → Bytes → Option (Node × Bytes)
  | 0, _, _ => none
  | fuel + 1, depth, s =>
    (consume 123 s).bind fun s =>
      if maxDepth < depth then none
      else if cur (wsSkip s) = 125 then some (.object [], (wsSkip s).tail)
      else (objectLoop fuel depth (wsSkip s)).map fun p => (.object p.1, p.2)

def objectLoop : ℕ → ℕ → Bytes → Option (List (Bytes × Node) × Bytes)
  | 0, _, _ => none
  | fuel + 1, depth, s =>
    (decodeString s).bind fun t =>
      (consume 58 (wsSkip t.2.2)).bind fun s =>
        (decodeValue fuel (depth + 1) (wsSkip s)).bind fun p =>
          let member := (unescape t.1 t.2.1, p.1)
          if cur (wsSkip p.2) = 125 then some ([member], (wsSkip p.2).tail)
          else (consume 44 (wsSkip p.2)).bind fun s =>
            (objectLoop fuel depth (wsSkip s)).map fun q => (member :: q.1, q.2)

end

/-- Every byte of a text is worth three calls at most. -/
def fuelFor (s : Bytes) : ℕ := 3 * s.length + 3

/-- mirrors src/include/Crow/include/crow/json.h:1246-1254,1260-1271 -/
def load (data : Bytes) : Option Node :=
  (decodeValue (fuelFor (wsSkip data)) 0 (wsSkip data)).bind fun p =>
    if cur (wsSkip p.2) ≠ 0 then none else some p.1

/-! ## Strings -/

/-- The digits a reader of hex digits takes are those the parser lets pass. -/
theorem check_iff (c : UInt8) : check c = true ↔ ∃ n, hexVal c = some n := by
  unfold check hexVal
  simp only [Bool.or_eq_true, Bool.and_eq_true, decide_eq_true_eq]
  constructor
  · intro h
    split
    · exact ⟨_, rfl⟩
    split
    · exact ⟨_, rfl⟩
    split
    · exact ⟨_, rfl⟩
    · grind
  · rintro ⟨n, h⟩
    grind

theorem letters_iff (b : UInt8) : b ∈ letters ↔ ∃ c, JsonText.shortEscape b = some c := by
  unfold letters JsonText.shortEscape
  simp only [List.mem_cons, List.not_mem_nil, or_false]
  constructor
  · rintro (rfl | rfl | rfl | rfl | rfl | rfl | rfl | rfl) <;> exact ⟨_, rfl⟩
  · rintro ⟨c, h⟩
    grind

theorem fromHex_of_hexVal {c : UInt8} {n : ℕ} (h : hexVal c = some n) : fromHex c = n := by
  unfold hexVal at h
  unfold fromHex
  simp only [UInt8.le_iff_toNat_le, UInt8.reduceToNat] at h ⊢
  split at h
  · cases h
    rw [if_neg (by omega), if_neg (by omega)]
  split at h
  · cases h
    rw [if_pos (by omega)]
    omega
  split at h
  · cases h
    rw [if_neg (by omega), if_pos (by omega)]
    omega
  · cases h

/-- A piece that is written with a backslash. -/
def isEscape : Piece → Bool
  | .plain _ _ => false
  | _ => true

def hasEscape (ps : List Piece) : Bool := ps.any isEscape

theorem stringLoop_quote (s : Bytes) : stringLoop (34 :: s) = some ([], false, s) := by
  rw [stringLoop.eq_def]
  rfl

theorem stringLoop_plain {b : UInt8} (h : b ≠ 0 ∧ b ≠ 34 ∧ b ≠ 92) (s : Bytes) :
    stringLoop (b :: s) = (stringLoop s).map fun p => (b :: p.1, p.2) := by
  rw [stringLoop.eq_def]
  exact if_pos ⟨h.2.1, h.2.2, h.1⟩

theorem stringLoop_hex (a b c d : UInt8) (s : Bytes) :
    stringLoop (92 :: 117 :: a :: b :: c :: d :: s) =
      if check a && check b && check c && check d then
        (stringLoop s).map fun p => (92 :: 117 :: a :: b :: c :: d :: p.1, true, p.2.2)
      else none := by
  rw [stringLoop.eq_def]
  rfl

theorem stringLoop_escape {e : UInt8} (h : e ≠ 117) (s : Bytes) : stringLoop (92 :: e :: s) =
    if e ∈ letters then (stringLoop s).map fun p => (92 :: e :: p.1, true, p.2.2) else none := by
  rw [stringLoop.eq_def]
  exact if_neg h

theorem stringLoop_unit (x : Hex4) (s : Bytes) : stringLoop (92 :: 117 :: (x.digits ++ s)) =
    (stringLoop s).map fun p => (92 :: 117 :: (x.digits ++ p.1), true, p.2.2) := by
  obtain ⟨a, b, c, d, na, nb, nc, nd, hx, ha, hb, hc, hd, _⟩ := x.inv
  have hcheck : (check a && check b && check c && check d) = true := by
    rw [(check_iff a).mpr ⟨_, ha⟩, (check_iff b).mpr ⟨_, hb⟩, (check_iff c).mpr ⟨_, hc⟩,
      (check_iff d).mpr ⟨_, hd⟩]
    rfl
  rw [hx]
  exact (stringLoop_hex a b c d s).trans (if_pos hcheck)

/-- A body is kept as it is written. -/
theorem stringLoop_texts (ps : List Piece) (r : Bytes) :
    stringLoop (texts ps ++ 34 :: r) = some (texts ps, hasEscape ps, r) := by
  induction ps with
  | nil => exact stringLoop_quote r
  | cons p ps ih =>
    cases p with
    | plain b h =>
      refine (stringLoop_plain h (texts ps ++ 34 :: r)).trans ?_
      rw [ih]
      rfl
    | short b c h =>
      refine (stringLoop_escape (shortEscape_ne h) (texts ps ++ 34 :: r)).trans ?_
      rw [if_pos ((letters_iff b).mpr ⟨c, h⟩), ih]
      rfl
    | unit x =>
      have htext : texts (.unit x :: ps) ++ 34 :: r =
          92 :: 117 :: (x.digits ++ (texts ps ++ 34 :: r)) := by
        simp [Piece.text]
      rw [htext, stringLoop_unit, ih]
      rfl

/-- What the parser takes for a string is a string of pieces. -/
theorem stringLoop_tree {s : Bytes} {p : Bytes × Bool × Bytes} (h : stringLoop s = some p) :
    ∃ ps, s = texts ps ++ 34 :: p.2.2 ∧ p.1 = texts ps ∧ p.2.1 = hasEscape ps := by
  induction s using stringLoop.induct generalizing p with
  | case1 =>
    rw [stringLoop.eq_def] at h
    cases h
  | case2 b s hb ih =>
    have hplain : b ≠ 0 ∧ b ≠ 34 ∧ b ≠ 92 := ⟨hb.2.2, hb.1, hb.2.1⟩
    rw [stringLoop_plain hplain] at h
    obtain ⟨q, hq, rfl⟩ := Option.map_eq_some_iff.mp h
    obtain ⟨ps, hs, h1, h2⟩ := ih hq
    exact ⟨.plain b hplain :: ps, by rw [hs]; rfl, by rw [h1]; rfl, h2⟩
  | case3 s =>
    rw [stringLoop_quote] at h
    cases h
    exact ⟨[], rfl, rfl, rfl⟩
  | case4 =>
    rw [stringLoop.eq_def] at h
    cases h
  | case5 h₁ h₂ h₃ h₄ s hcheck _ _ ih =>
    rw [stringLoop_hex, if_pos hcheck] at h
    obtain ⟨q, hq, rfl⟩ := Option.map_eq_some_iff.mp h
    obtain ⟨ps, hs, h1, h2⟩ := ih hq
    simp only [Bool.and_eq_true, check_iff] at hcheck
    obtain ⟨⟨⟨⟨n₁, e₁⟩, n₂, e₂⟩, n₃, e₃⟩, n₄, e₄⟩ := hcheck
    have hreads : JsonText.hex4 [h₁, h₂, h₃, h₄] =
        some (((n₁ * 16 + n₂) * 16 + n₃) * 16 + n₄, []) := by
      simp [JsonText.hex4, e₁, e₂, e₃, e₄]
    exact ⟨.unit ⟨_, _, hreads⟩ :: ps, by rw [hs]; rfl, by rw [h1]; rfl, rfl⟩
  | case6 h₁ h₂ h₃ h₄ s hcheck =>
    rw [stringLoop_hex, if_neg hcheck] at h
    cases h
  | case7 s hs =>
    rw [stringLoop.eq_def] at h
    simp at h
  | case8 e s h117 he _ _ ih =>
    rw [stringLoop_escape h117, if_pos he] at h
    obtain ⟨q, hq, rfl⟩ := Option.map_eq_some_iff.mp h
    obtain ⟨ps, hs, h1, h2⟩ := ih hq
    obtain ⟨c, hc⟩ := (letters_iff e).mp he
    exact ⟨.short e c hc :: ps, by rw [hs]; rfl, by rw [h1]; rfl, rfl⟩
  | case9 e s h117 he =>
    rw [stringLoop_escape h117, if_neg he] at h
    cases h
  | case10 b s hb h34 h92 =>
    have h0 : b = 0 := by
      by_contra h0
      exact hb ⟨h34, h92, h0⟩
    rw [h0, stringLoop.eq_def] at h
    simp at h

/-! ## Unescaping -/

/-- The bits put together are the bytes of UTF-8, for a number of four hex digits. -/
theorem encode_eq {n : ℕ} (h : n < 65536) : encode n = JsonText.utf8 n := by
  have hlow : n &&& 0x3F = n % 64 := Nat.and_two_pow_sub_one_eq_mod n 6
  have hmid : n >>> 6 &&& 0x3F = n / 64 % 64 := by
    rw [Nat.shiftRight_eq_div_pow]
    exact Nat.and_two_pow_sub_one_eq_mod _ 6
  have htop : n >>> 12 = n / 4096 := Nat.shiftRight_eq_div_pow n 12
  have hshift : n >>> 6 = n / 64 := Nat.shiftRight_eq_div_pow n 6
  have hor2 : ∀ k, k < 64 → 0x80 ||| k = 0x80 + k := by decide
  have hor3 : ∀ k, k < 16 → 0xE0 ||| k = 0xE0 + k := by decide
  have hor1 : ∀ k, k < 32 → 0xC0 ||| k = 0xC0 + k := by decide
  have l1 := hor2 (n % 64) (Nat.mod_lt _ (by decide))
  have l2 := hor2 (n / 64 % 64) (Nat.mod_lt _ (by decide))
  unfold encode JsonText.utf8
  rw [hmid, hlow, htop, hshift, l1, l2]
  by_cases h1 : n < 0x80
  · rw [if_neg (by omega), if_neg (by omega), if_pos h1]
  by_cases h2 : n < 0x800
  · rw [if_neg (by omega), if_pos (by omega), if_neg h1, if_pos h2, hor1 _ (by omega)]
  · rw [if_pos (by omega), if_neg h1, if_neg h2, if_pos (by omega), hor3 _ (by omega)]

theorem unescapeLoop_unit (x : Hex4) (s : Bytes) :
    unescapeLoop (92 :: 117 :: (x.digits ++ s)) = JsonText.utf8 x.n ++ unescapeLoop s := by
  obtain ⟨a, b, c, d, na, nb, nc, nd, hx, ha, hb, hc, hd, hn⟩ := x.inv
  have hcode : fromHex a <<< 12 + fromHex b <<< 8 + fromHex c <<< 4 + fromHex d = x.n := by
    simp only [fromHex_of_hexVal ha, fromHex_of_hexVal hb, fromHex_of_hexVal hc,
      fromHex_of_hexVal hd, Nat.shiftLeft_eq, hn]
    omega
  rw [hx, unescapeLoop.eq_def]
  show encode (fromHex a <<< 12 + fromHex b <<< 8 + fromHex c <<< 4 + fromHex d) ++ _ = _
  rw [hcode, encode_eq x.lt]
  rfl

theorem unescapeLoop_short {e c : UInt8} (h : JsonText.shortEscape e = some c) (s : Bytes) :
    unescapeLoop (92 :: e :: s) = c :: unescapeLoop s := by
  rw [unescapeLoop.eq_def]
  simp only [if_true]
  unfold JsonText.shortEscape at h
  grind

theorem unescapeLoop_texts (ps : List Piece) : unescapeLoop (texts ps) = ps.flatMap Piece.bytes := by
  induction ps with
  | nil => rw [unescapeLoop.eq_def]; rfl
  | cons p ps ih =>
    rw [texts_cons, List.flatMap_cons, ← ih]
    cases p with
    | plain b h =>
      rw [Piece.text, List.singleton_append, unescapeLoop.eq_def]
      exact if_neg h.2.2
    | short b c h => exact unescapeLoop_short h (texts ps)
    | unit x => exact unescapeLoop_unit x (texts ps)

/-- Every piece is replaced by the bytes it stands for. -/
theorem unescape_texts (ps : List Piece) :
    unescape (texts ps) (hasEscape ps) = ps.flatMap Piece.bytes := by
  unfold unescape
  split
  · exact unescapeLoop_texts ps
  · rename_i h
    -- without an escape every piece is its own byte
    refine List.flatMap_congr fun p hp => ?_
    cases p with
    | plain b hb => rfl
    | short b c hb => exact absurd (List.any_eq_true.mpr ⟨_, hp, rfl⟩) h
    | unit x => exact absurd (List.any_eq_true.mpr ⟨_, hp, rfl⟩) h

end ExpenseTracker.L3.CrowLoad
