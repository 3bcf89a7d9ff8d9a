import ExpenseTracker.Core.JsonTree

/-!
# Writing JSON

The text a writer makes of a value without white space. Both writers of the
system quote strings alike: `quoted` escapes quotes, backslashes and control
characters, and leaves every other byte as it is.

An `Out` is a value on its way to a text. It has the numerals themselves, since it
is the writer that chooses how a number is written; strings are bytes. `Out.doc` is
its tree, so that what is known of trees is known of what is written, and `numerals`
and `height` are what a reader with limits of its own has to look at.

* `utf8s_quote`, `bytes_quote`: a quoted string reads as the string, for a
  reader that pairs surrogates and for one that does not.
* `Out.parses`: what is written is JSON, and means what was to be written.
-/
namespace ExpenseTracker.Core.JsonWrite

open ExpenseTracker.Core ExpenseTracker.Core.JsonText ExpenseTracker.Core.JsonSyntax

/-! ## Strings -/

/-- `0`-`9`, `a`-`f`. -/
def hexDigit (n : ℕ) : UInt8 := if n < 10 then UInt8.ofNat (48 + n) else UInt8.ofNat (97 + n - 10)

theorem hexVal_hexDigit : ∀ n < 16, hexVal (hexDigit n) = some n := by decide

/-- Its four digits are read back. -/
theorem hex4_control (b : UInt8) :
    hex4 [48, 48, hexDigit (b.toNat / 16), hexDigit (b.toNat % 16)] = some (b.toNat, []) := by
  have hb := b.toNat_lt
  have h1 := hexVal_hexDigit (b.toNat / 16) (by omega)
  have h2 := hexVal_hexDigit (b.toNat % 16) (by omega)
  have h0 : hexVal 48 = some 0 := rfl
  simp only [hex4, h0, h1, h2, Option.bind_eq_bind, Option.bind_some]
  show some (((0 * 16 + 0) * 16 + b.toNat / 16) * 16 + b.toNat % 16, _) = _
  congr 2
  omega

/-- A control character without an escape of its own: `\u00` and two digits. -/
def control (b : UInt8) : Hex4 where
  digits := [48, 48, hexDigit (b.toNat / 16), hexDigit (b.toNat % 16)]
  n := b.toNat
  reads := hex4_control b

/-- How a byte of a string is written. -/
def quote (b : UInt8) : Piece :=
  if h : b = 34 then .short 34 b (by rw [h]; rfl)
  else if h' : b = 92 then .short 92 b (by rw [h']; rfl)
  else if h10 : b = 10 then .short 110 b (by rw [h10]; rfl)
  else if h8 : b = 8 then .short 98 b (by rw [h8]; rfl)
  else if h12 : b = 12 then .short 102 b (by rw [h12]; rfl)
  else if h13 : b = 13 then .short 114 b (by rw [h13]; rfl)
  else if h9 : b = 9 then .short 116 b (by rw [h9]; rfl)
  else if h32 : b < 32 then .unit (control b)
  else .plain b ⟨by rintro rfl; exact h32 (by decide), h, h'⟩

/-- A string in quotes. -/
def quoted (s : Bytes) : Bytes := 34 :: (texts (s.map quote) ++ [34])

theorem utf8_byte {b : UInt8} (h : b < 32) : utf8 b.toNat = [b] := by
  have hb : b.toNat < 32 := UInt8.lt_iff_toNat_lt.mp h
  rw [utf8, if_pos (by omega), UInt8.ofNat_toNat]

/-- To a reader that takes escapes one by one. -/
theorem bytes_quote (b : UInt8) : (quote b).bytes = [b] := by
  unfold quote
  split_ifs with h1 h2 h3 h4 h5 h6 h7 h8
  case pos => rfl
  all_goals first | rfl | exact utf8_byte ‹_›

theorem utf8s_quote_cons (b : UInt8) (ps : List Piece) :
    utf8s (quote b :: ps) = (utf8s ps).map (b :: ·) := by
  unfold quote
  split_ifs with h1 h2 h3 h4 h5 h6 h7 h8
  case neg => rw [utf8s, if_neg h8]
  case pos => rfl
  all_goals first
    | rfl
    | (have hlt : b.toNat < 32 := UInt8.lt_iff_toNat_lt.mp ‹_›
       rw [utf8s_unit (Or.inl (show b.toNat < 0xD800 by omega))]
       show (utf8s ps).map (utf8 b.toNat ++ ·) = _
       rw [utf8_byte ‹_›]
       rfl)

/-- A quoted string is the string, to a reader that pairs surrogates. -/
theorem utf8s_quote (s : Bytes) : utf8s (s.map quote) = some s := by
  induction s with
  | nil => rfl
  | cons b s ih =>
    rw [List.map_cons, utf8s_quote_cons, ih]
    rfl

/-- And to one that does not. -/
theorem flatMap_quote (s : Bytes) : (s.map quote).flatMap Piece.bytes = s := by
  induction s with
  | nil => rfl
  | cons b s ih =>
    rw [List.map_cons, List.flatMap_cons, ih, bytes_quote]
    rfl

/-! ## Values -/

/-- A value to be written, its numbers with their digits. -/
inductive Out where
  | null
  | bool (b : Bool)
  | number (n : Numeral) (h : n.Rfc)
  | string (s : Bytes)
  | array (l : List Out)
  | object (o : List (Bytes × Out))

/-- No white space. -/
def tight : Blank := ⟨[], by simp⟩

namespace Out

mutual

def text : Out → Bytes
  | null => ascii "null"
  | bool b => if b then ascii "true" else ascii "false"
  | number n _ => n.text
  | string s => quoted s
  | array l => 91 :: (listText l ++ [93])
  | object o => 123 :: (membersText o ++ [125])

def listText : List Out → Bytes
  | [] => []
  | [x] => x.text
  | x :: y :: l => x.text ++ 44 :: listText (y :: l)

def membersText : List (Bytes × Out) → Bytes
  | [] => []
  | [(k, x)] => quoted k ++ 58 :: x.text
  | (k, x) :: y :: o => quoted k ++ 58 :: (x.text ++ 44 :: membersText (y :: o))

end

mutual

/-- The value written. -/
def value : Out → Value
  | null => .null
  | bool b => .bool b
  | number n _ => .number n.value
  | string s => .string s
  | array l => .array (values l)
  | object o => .object (members o)

def values : List Out → List Value
  | [] => []
  | x :: l => x.value :: values l

def members : List (Bytes × Out) → List (Bytes × Value)
  | [] => []
  | (k, x) :: o => (k, x.value) :: members o

end

mutual

def doc : Out → Doc
  | null => .null
  | bool b => .bool b
  | number n _ => .number n
  | string s => .string (s.map quote)
  | array l =>
    match elements l with
    | none => .emptyArray tight
    | some e => .array e
  | object o =>
    match named o with
    | none => .emptyObject tight
    | some m => .object m

def elements : List Out → Option Elements
  | [] => none
  | x :: l =>
    match elements l with
    | none => some (.last tight x.doc tight)
    | some e => some (.more tight x.doc tight e)

def named : List (Bytes × Out) → Option Members
  | [] => none
  | (k, x) :: o =>
    match named o with
    | none => some (.last tight (k.map quote) tight tight x.doc tight)
    | some m => some (.more tight (k.map quote) tight tight x.doc tight m)

end

/-! ## The tree of what is written -/

theorem elements_cons (x : Out) (l : List Out) : ∃ e, elements (x :: l) = some e := by
  rw [elements]
  split
  · exact ⟨_, rfl⟩
  · exact ⟨_, rfl⟩

theorem named_cons (m : Bytes × Out) (o : List (Bytes × Out)) : ∃ e, named (m :: o) = some e := by
  obtain ⟨k, x⟩ := m
  rw [named]
  split
  · exact ⟨_, rfl⟩
  · exact ⟨_, rfl⟩

mutual

/-- The tree has the text. -/
theorem doc_text (x : Out) : x.doc.text = x.text := by
  match x with
  | null => rfl
  | bool true => rfl
  | bool false => rfl
  | number n h => rfl
  | string s => rfl
  | array l =>
    have hl := elements_text l
    rw [doc, text]
    cases he : elements l with
    | none =>
      rw [he] at hl
      rw [hl]
      rfl
    | some e =>
      rw [he] at hl
      exact congrArg (91 :: ·) hl
  | object o =>
    have ho := named_text o
    rw [doc, text]
    cases he : named o with
    | none =>
      rw [he] at ho
      rw [ho]
      rfl
    | some e =>
      rw [he] at ho
      exact congrArg (123 :: ·) ho

theorem elements_text (l : List Out) :
    match elements l with
    | none => l = []
    | some e => e.text = listText l ++ [93] := by
  match l with
  | [] => rfl
  | [x] =>
    have hx := doc_text x
    rw [elements, elements]
    simp [Elements.text, listText, tight, hx]
  | x :: y :: l =>
    have hx := doc_text x
    have hl := elements_text (y :: l)
    obtain ⟨e, he⟩ := elements_cons y l
    rw [he] at hl
    rw [elements, he]
    simp only at hl
    simp [Elements.text, listText, tight, hx, hl]

theorem named_text (o : List (Bytes × Out)) :
    match named o with
    | none => o = []
    | some e => e.text = membersText o ++ [125] := by
  match o with
  | [] => rfl
  | [(k, x)] =>
    have hx := doc_text x
    rw [named, named]
    simp [Members.text, membersText, quoted, tight, hx]
  | (k, x) :: y :: o =>
    have hx := doc_text x
    have ho := named_text (y :: o)
    obtain ⟨e, he⟩ := named_cons y o
    rw [he] at ho
    rw [named, he]
    simp only at ho
    simp [Members.text, membersText, quoted, tight, hx, ho]

end

mutual

/-- And the value. -/
theorem doc_value (x : Out) : x.doc.value = some x.value := by
  match x with
  | null => rfl
  | bool b => rfl
  | number n h => rw [doc, Doc.value, if_pos h, value]
  | string s => rw [doc, Doc.value, utf8s_quote, value]; rfl
  | array l =>
    have hl := elements_values l
    rw [doc, value]
    cases he : elements l with
    | none =>
      rw [he] at hl
      rw [hl]
      rfl
    | some e =>
      rw [he] at hl
      exact congrArg (Option.map Value.array) hl
  | object o =>
    have ho := named_values o
    rw [doc, value]
    cases he : named o with
    | none =>
      rw [he] at ho
      rw [ho]
      rfl
    | some e =>
      rw [he] at ho
      exact congrArg (Option.map Value.object) ho

theorem elements_values (l : List Out) :
    match elements l with
    | none => values l = []
    | some e => e.values = some (values l) := by
  match l with
  | [] => rfl
  | x :: l =>
    have hx := doc_value x
    have hl := elements_values l
    rw [elements]
    cases he : elements l with
    | none =>
      rw [he] at hl
      simp only at hl ⊢
      rw [Elements.values, hx, values, hl]
      rfl
    | some e =>
      rw [he] at hl
      simp only at hl ⊢
      rw [Elements.values, hx, hl, values]
      rfl

theorem named_values (o : List (Bytes × Out)) :
    match named o with
    | none => members o = []
    | some e => e.values = some (members o) := by
  match o with
  | [] => rfl
  | (k, x) :: o =>
    have hx := doc_value x
    have ho := named_values o
    rw [named]
    cases he : named o with
    | none =>
      rw [he] at ho
      simp only at ho ⊢
      rw [Members.values, utf8s_quote, hx, members, ho]
      rfl
    | some e =>
      rw [he] at ho
      simp only at ho ⊢
      rw [Members.values, utf8s_quote, hx, ho, members]
      rfl

end

/-- What is written is JSON, and means what was to be written. -/
theorem parses (x : Out) : Parses x.text x.value :=
  parses_iff.mpr ⟨tight, x.doc, tight, by simp [tight, doc_text], doc_value x⟩

mutual

/-- The numbers written. -/
def numerals : Out → List Numeral
  | number n _ => [n]
  | array l => listNumerals l
  | object o => memberNumerals o
  | _ => []

def listNumerals : List Out → List Numeral
  | [] => []
  | x :: l => x.numerals ++ listNumerals l

def memberNumerals : List (Bytes × Out) → List Numeral
  | [] => []
  | (_, x) :: o => x.numerals ++ memberNumerals o

end

mutual

def height : Out → ℕ
  | array l => listHeight l + 1
  | object o => memberHeight o + 1
  | _ => 0

def listHeight : List Out → ℕ
  | [] => 0
  | x :: l => max x.height (listHeight l)

def memberHeight : List (Bytes × Out) → ℕ
  | [] => 0
  | (_, x) :: o => max x.height (memberHeight o)

end

mutual

/-- Numbers and depth are those of the tree. -/
theorem doc_numerals (x : Out) : x.doc.numerals = x.numerals ∧ x.doc.height = x.height := by
  match x with
  | null => exact ⟨rfl, rfl⟩
  | bool b => exact ⟨rfl, rfl⟩
  | number n h => exact ⟨rfl, rfl⟩
  | string s => exact ⟨rfl, rfl⟩
  | array l =>
    have hl := elements_numerals l
    rw [doc, numerals, height]
    cases he : elements l with
    | none =>
      rw [he] at hl
      rw [hl]
      exact ⟨rfl, rfl⟩
    | some e =>
      rw [he] at hl
      exact ⟨hl.1, congrArg (· + 1) hl.2⟩
  | object o =>
    have ho := named_numerals o
    rw [doc, numerals, height]
    cases he : named o with
    | none =>
      rw [he] at ho
      rw [ho]
      exact ⟨rfl, rfl⟩
    | some e =>
      rw [he] at ho
      exact ⟨ho.1, congrArg (· + 1) ho.2⟩

theorem elements_numerals (l : List Out) :
    match elements l with
    | none => l = []
    | some e => e.numerals = listNumerals l ∧ e.height = listHeight l := by
  match l with
  | [] => rfl
  | x :: l =>
    have hx := doc_numerals x
    have hl := elements_numerals l
    rw [elements]
    cases he : elements l with
    | none =>
      rw [he] at hl
      simp only at hl ⊢
      simp [Elements.numerals, Elements.height, listNumerals, listHeight, hx, hl]
    | some e =>
      rw [he] at hl
      simp only at hl ⊢
      simp [Elements.numerals, Elements.height, listNumerals, listHeight, hx, hl]

theorem named_numerals (o : List (Bytes × Out)) :
    match named o with
    | none => o = []
    | some e => e.numerals = memberNumerals o ∧ e.height = memberHeight o := by
  match o with
  | [] => rfl
  | (k, x) :: o =>
    have hx := doc_numerals x
    have ho := named_numerals o
    rw [named]
    cases he : named o with
    | none =>
      rw [he] at ho
      simp only at ho ⊢
      simp [Members.numerals, Members.height, memberNumerals, memberHeight, hx, ho]
    | some e =>
      rw [he] at ho
      simp only at ho ⊢
      simp [Members.numerals, Members.height, memberNumerals, memberHeight, hx, ho]

end

end Out

end ExpenseTracker.Core.JsonWrite
