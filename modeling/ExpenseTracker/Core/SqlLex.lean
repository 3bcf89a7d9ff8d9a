import ExpenseTracker.Core.Bytes
import Mathlib.Data.List.Induction

/-!
# The tokens of an SQL text

MySQL's lexer in its default mode (backslash escapes on, double quotes for
strings), one byte at a time: a `Mode` says what the text read so far leaves
open, `step` reads one byte and puts out the tokens it completes. Words cover
names, keywords and numbers; `/*! … */` is read as any other comment.

A statement is given as a template, `Piece` by piece: fixed SQL, numbers and
strings between single quotes.

* `quoted_inv`: what an accepted literal looks like and what it denotes (`Body`).
* `literal_iff`: the text `'s'` put before a plain byte is read as the string
  `s` exactly when `s` is `verbatim`: no quote, and no backslash but
  before `%` or `_`.
* `template_iff`: the text of a template, as a C string, is read as its
  tokens exactly when every string in it is verbatim and has no NUL.
-/
namespace ExpenseTracker.Core.SqlLex

/-! ## The lexer -/

inductive Token where
  | word (s : Bytes)
  | punct (b : UInt8)
  | str (s : Bytes)
  | name (s : Bytes)
  deriving DecidableEq

/-- What is open: a word or a literal with the bytes it has so far, a
literal whose last quote may be doubled, a comment or the start of one. -/
inductive Mode where
  | between
  | word (s : Bytes)
  | quoted (q : UInt8) (s : Bytes)
  | escaped (q : UInt8) (s : Bytes)
  | closing (q : UInt8) (s : Bytes)
  | dash
  | dashes
  | slash
  | lineComment
  | block
  | blockStar
  deriving DecidableEq

def isCntrl (b : UInt8) : Bool := decide (b < 32) || b == 127

/-- Letters, digits, `_`, `$` and bytes above ASCII. -/
def isWord (b : UInt8) : Bool :=
  isDigit b || decide (65 ≤ b ∧ b ≤ 90) || decide (97 ≤ b ∧ b ≤ 122) || b == 95 || b == 36 ||
    decide (128 ≤ b)

/-- A byte goes on with a word; a dot does in a number. -/
def extendsWord (s : Bytes) (b : UInt8) : Bool :=
  isWord b || (b == 46 && s.head?.any isDigit)

/-- The bytes `\b` stands for in a string. -/
def unescape (b : UInt8) : Bytes :=
  if b = 110 then [10]
  else if b = 116 then [9]
  else if b = 114 then [13]
  else if b = 98 then [8]
  else if b = 48 then [0]
  else if b = 90 then [26]
  else if b = 37 ∨ b = 95 then [92, b]
  else [b]

/-- A closed literal; backticks quote a name. -/
def literal (q : UInt8) (s : Bytes) : Token := if q = 96 then .name s else .str s

/-- A byte with nothing open. -/
def start (b : UInt8) : List Token × Mode :=
  if isSpace b then ([], .between)
  else if isWord b then ([], .word [b])
  else if b = 39 ∨ b = 34 ∨ b = 96 then ([], .quoted b [])
  else if b = 35 then ([], .lineComment)
  else if b = 45 then ([], .dash)
  else if b = 47 then ([], .slash)
  else ([.punct b], .between)

/-- A byte that closes what was open. -/
def startAfter (t : Token) (b : UInt8) : List Token × Mode := (t :: (start b).1, (start b).2)

def step : Mode → UInt8 → List Token × Mode
  | .between, b => start b
  | .word s, b => if extendsWord s b then ([], .word (s ++ [b])) else startAfter (.word s) b
  | .quoted q s, b =>
    if b = q then ([], .closing q s)
    else if b = 92 ∧ q ≠ 96 then ([], .escaped q s)
    else ([], .quoted q (s ++ [b]))
  | .escaped q s, b => ([], .quoted q (s ++ unescape b))
  | .closing q s, b => if b = q then ([], .quoted q (s ++ [q])) else startAfter (literal q s) b
  | .dash, b => if b = 45 then ([], .dashes) else startAfter (.punct 45) b
  | .dashes, b =>
    -- `--` opens a comment only before a space or a control character
    if isSpace b || isCntrl b then ([], if b = 10 then .between else .lineComment)
    else if b = 45 then ([.punct 45], .dashes)
    else (.punct 45 :: (startAfter (.punct 45) b).1, (start b).2)
  | .slash, b => if b = 42 then ([], .block) else startAfter (.punct 47) b
  | .lineComment, b => ([], if b = 10 then .between else .lineComment)
  | .block, b => ([], if b = 42 then .blockStar else .block)
  | .blockStar, b => ([], if b = 47 then .between else if b = 42 then .blockStar else .block)

/-- The end of the text; an open literal or comment is an error. -/
def finish : Mode → Option (List Token)
  | .between | .dashes | .lineComment => some []
  | .word s => some [.word s]
  | .closing q s => some [literal q s]
  | .dash => some [.punct 45]
  | .slash => some [.punct 47]
  | .quoted _ _ | .escaped _ _ | .block | .blockStar => none

def lexFrom : Mode → Bytes → Option (List Token)
  | m, [] => finish m
  | m, b :: s => (lexFrom (step m b).2 s).map ((step m b).1 ++ ·)

def lex (s : Bytes) : Option (List Token) := lexFrom .between s

/-! ## Texts in a row -/

/-- The mode a text leads to. -/
def modeAfter : Mode → Bytes → Mode
  | m, [] => m
  | m, b :: s => modeAfter (step m b).2 s

/-- The tokens it completes. -/
def emitted : Mode → Bytes → List Token
  | _, [] => []
  | m, b :: s => (step m b).1 ++ emitted (step m b).2 s

theorem lexFrom_append (m : Mode) (s t : Bytes) :
    lexFrom m (s ++ t) = (lexFrom (modeAfter m s) t).map (emitted m s ++ ·) := by
  induction s generalizing m with
  | nil => simp [modeAfter, emitted]
  | cons b s ih =>
    rw [List.cons_append, lexFrom, ih, Option.map_map]
    simp only [modeAfter, emitted, List.append_assoc, Function.comp_def]

/-- A text that leaves nothing open is read on its own. -/
theorem lexFrom_closed {s : Bytes} (h : modeAfter .between s = .between) (t : Bytes) :
    lexFrom .between (s ++ t) = (lexFrom .between t).map ((lex s).getD [] ++ ·) := by
  have hs : lex s = some (emitted .between s) := by
    have := lexFrom_append .between s []
    rw [List.append_nil, h] at this
    simpa [lex, lexFrom, finish] using this
  rw [lexFrom_append, h, hs]
  rfl

/-! ## String literals -/

/-- What stands between two quotes `q`, and the string it denotes. -/
inductive Body (q : UInt8) : Bytes → Bytes → Prop
  | nil : Body q [] []
  | byte {b u d} : b ≠ q → b ≠ 92 → Body q u d → Body q (b :: u) (b :: d)
  | doubled {u d} : Body q u d → Body q (q :: q :: u) (q :: d)
  | escape {b u d} : Body q u d → Body q (92 :: b :: u) (unescape b ++ d)

/-- The bytes that no escape is made of. -/
def plainCount (q : UInt8) (s : Bytes) : ℕ := s.countP fun b => b ≠ q && b ≠ 92

/-- The string stands in its own literal as it is: no quote, and no backslash
but before `%` or `_`. -/
def verbatim (q : UInt8) : Bytes → Bool
  | [] => true
  | [b] => b != q && b != 92
  | b :: c :: s =>
    if b = 92 then (c == 37 || c == 95) && verbatim q s else b != q && verbatim q (c :: s)

section Quote

variable {q : UInt8} {u d : Bytes}

theorem unescape_length (b : UInt8) :
    (unescape b).length = if b = 37 ∨ b = 95 then 2 else 1 := by
  unfold unescape
  split_ifs <;> simp_all

theorem Body.length_le (h : Body q u d) : d.length ≤ u.length := by
  induction h with
  | nil => simp
  | byte _ _ _ ih => simpa using ih
  | doubled _ ih => simp only [List.length_cons]; omega
  | @escape b u d _ ih =>
    have hb := unescape_length b
    simp only [List.length_append, List.length_cons]
    split_ifs at hb <;> omega

/-- Reading a literal keeps the number of plain bytes. -/
theorem Body.plainCount_eq (hq : q = 39 ∨ q = 34) (h : Body q u d) :
    plainCount q d = plainCount q u := by
  induction h with
  | nil => rfl
  | byte _ _ _ ih => simpa only [plainCount, List.countP_cons, Nat.add_right_cancel_iff] using ih
  | doubled _ ih => simpa [plainCount, List.countP_cons] using ih
  | @escape b u d _ ih =>
    have hb : plainCount q (unescape b) = plainCount q [b] := by
      unfold unescape
      rcases hq with rfl | rfl <;> split_ifs <;> simp_all [plainCount]
    simp only [plainCount, List.countP_append, List.countP_cons, List.countP_nil] at ih hb ⊢
    simp only [hb, ih]
    simp [Nat.add_comm]

/-- A literal that loses no byte is the string itself. -/
theorem Body.verbatim_of_length (h : Body q u d)
    (hl : d.length = u.length) : verbatim q u = true ∧ d = u := by
  induction h with
  | nil => exact ⟨rfl, rfl⟩
  | @byte b u d hbq hb _ ih =>
    obtain ⟨hv, rfl⟩ := ih (by simpa using hl)
    refine ⟨?_, rfl⟩
    cases d with
    | nil => simp [verbatim, hbq, hb]
    | cons c d => simp [verbatim, hbq, hb, hv]
  | doubled h _ =>
    have := h.length_le
    simp only [List.length_cons] at hl
    omega
  | @escape b u d h ih =>
    have hle := h.length_le
    have hb := unescape_length b
    simp only [List.length_append, List.length_cons] at hl
    split_ifs at hb with hw
    · obtain ⟨hv, rfl⟩ := ih (by omega)
      refine ⟨?_, ?_⟩
      · simpa [verbatim, hv] using hw
      · rcases hw with rfl | rfl <;> rfl
    · omega

theorem Body.of_verbatim {s : Bytes} (h : verbatim q s = true) :
    Body q s s := by
  induction s using List.twoStepInduction with
  | nil => exact .nil
  | singleton b =>
    simp only [verbatim, Bool.and_eq_true, bne_iff_ne] at h
    exact .byte h.1 h.2 .nil
  | cons_cons b c s ih ih' =>
    simp only [verbatim] at h
    split_ifs at h with hb
    · simp only [Bool.and_eq_true, Bool.or_eq_true, beq_iff_eq] at h
      have hc : unescape c = [92, c] := by rcases h.1 with rfl | rfl <;> rfl
      have := Body.escape (b := c) (ih h.2)
      rwa [hc, List.cons_append, List.singleton_append, ← hb] at this
    · simp only [Bool.and_eq_true, bne_iff_ne] at h
      exact .byte h.1 hb (ih' c h.2)

end Quote

/-! ## Reading a literal -/

variable {q : UInt8} {rest : Bytes} {ts : List Token}

/-- A closing quote, if no second one follows. -/
theorem lexFrom_closing (hq : q = 39 ∨ q = 34) (s : Bytes) (h : rest.head? ≠ some q) :
    lexFrom (.closing q s) rest = (lexFrom .between rest).map (.str s :: ·) := by
  have hlit : literal q s = .str s := by rcases hq with rfl | rfl <;> rfl
  cases rest with
  | nil => simp [lexFrom, finish, hlit]
  | cons b rest =>
    have hb : b ≠ q := by simpa using h
    simp only [lexFrom, step, hb, if_false, startAfter, hlit, Option.map_map]
    rfl

theorem lexFrom_body (hq : q = 39 ∨ q = 34) {u d : Bytes} (h : Body q u d) (s : Bytes) :
    modeAfter (.quoted q s) u = .quoted q (s ++ d) ∧ emitted (.quoted q s) u = [] := by
  have h96 : q ≠ 96 := by rcases hq with rfl | rfl <;> decide
  have h92 : (92 : UInt8) ≠ q := by rcases hq with rfl | rfl <;> decide
  induction h generalizing s with
  | nil => simp [modeAfter, emitted]
  | @byte b u d hbq hb _ ih => simpa [modeAfter, emitted, step, hbq, hb] using ih (s ++ [b])
  | doubled _ ih => simpa [modeAfter, emitted, step] using ih (s ++ [q])
  | @escape b u d _ ih => simpa [modeAfter, emitted, step, h92, h96] using ih (s ++ unescape b)

/-- An accepted literal: a body, its closing quote and no second one. -/
theorem quoted_inv (hq : q = 39 ∨ q = 34) {s t : Bytes}
    (h : lexFrom (.quoted q s) t = some ts) :
    ∃ u d rest ts', t = u ++ q :: rest ∧ Body q u d ∧ rest.head? ≠ some q ∧
      lexFrom .between rest = some ts' ∧ ts = .str (s ++ d) :: ts' := by
  have h96 : q ≠ 96 := by rcases hq with rfl | rfl <;> decide
  induction t using List.twoStepInduction generalizing s with
  | nil => cases h
  | singleton b =>
    by_cases hb : b = q
    · subst hb
      simp only [lexFrom, step, if_true, Option.map_some, List.nil_append, finish] at h
      have hlit : literal b s = .str s := if_neg h96
      rw [hlit] at h
      exact ⟨[], [], [], [], rfl, .nil, by simp, rfl, by simpa using h.symm⟩
    · have hopen : finish (step (.quoted q s) b).2 = none := by
        simp only [step, hb, if_false]
        split <;> rfl
      rw [lexFrom, lexFrom, hopen] at h
      cases h
  | cons_cons b c t ih ih' =>
    by_cases hb : b = q
    · subst hb
      by_cases hc : c = b
      · -- a doubled quote
        subst hc
        simp only [lexFrom, step, if_true, Option.map_map] at h
        have h : lexFrom (.quoted c (s ++ [c])) t = some ts := by
          simpa [Function.comp_def] using h
        obtain ⟨u, d, rest, ts', rfl, hB, hr, hl, rfl⟩ := ih h
        exact ⟨c :: c :: u, c :: d, rest, ts', rfl, .doubled hB, hr, hl, by simp⟩
      · -- the closing quote
        have hhead : (c :: t).head? ≠ some b := by simpa using hc
        have h : lexFrom (.closing b s) (c :: t) = some ts := by
          rw [lexFrom] at h
          simpa only [step, if_true, List.nil_append, Option.map_id'] using h
        rw [lexFrom_closing hq s hhead] at h
        obtain ⟨ts', hl, rfl⟩ := Option.map_eq_some_iff.mp h
        exact ⟨[], [], c :: t, ts', rfl, .nil, hhead, hl, by simp⟩
    · by_cases h92 : b = 92
      · -- an escape
        subst h92
        have h : lexFrom (.quoted q (s ++ unescape c)) t = some ts := by
          simpa [lexFrom, step, hb, h96] using h
        obtain ⟨u, d, rest, ts', rfl, hB, hr, hl, rfl⟩ := ih h
        exact ⟨92 :: c :: u, unescape c ++ d, rest, ts', rfl, .escape hB, hr, hl, by simp⟩
      · have h : lexFrom (.quoted q (s ++ [b])) (c :: t) = some ts := by
          rw [lexFrom] at h
          simpa [step, hb, h92] using h
        obtain ⟨u, d, rest, ts', he, hB, hr, hl, rfl⟩ := ih' c h
        exact ⟨b :: u, b :: d, rest, ts', by rw [he]; rfl, .byte hb h92 hB, hr, hl, by simp⟩

/-- **A string between quotes** is read as itself exactly when it is verbatim.
A body that goes on behind the string's own closing quote would have to make up
the same string from more plain bytes. -/
theorem literal_iff (hq : q = 39 ∨ q = 34) {s : Bytes}
    (hrest : ∀ b ∈ rest.head?, b ≠ q ∧ b ≠ 92) :
    lexFrom (.quoted q []) (s ++ q :: rest) = some (.str s :: ts) ↔
      verbatim q s = true ∧ lexFrom .between rest = some ts := by
  have hhead : rest.head? ≠ some q := fun h => (hrest q h).1 rfl
  refine ⟨?_, ?_⟩
  · intro h
    obtain ⟨u, d, rest', ts', he, hB, hr', hl, hts⟩ := quoted_inv hq h
    obtain ⟨hd, rfl⟩ : s = d ∧ ts = ts' := by simpa using hts
    subst hd
    rcases List.append_eq_append_iff.mp he with ⟨w, hu, hw⟩ | ⟨w, hs, hw⟩
    · cases w with
      | nil =>
        obtain rfl : rest = rest' := by simpa using hw
        rw [List.append_nil] at hu
        exact ⟨hu ▸ (hB.verbatim_of_length (by rw [hu])).1, hl⟩
      | cons c w =>
        obtain ⟨rfl, hrw⟩ : q = c ∧ rest = w ++ q :: rest' := by simpa using hw
        have hcount := hB.plainCount_eq hq
        rw [hu] at hcount
        simp only [plainCount, List.countP_append, List.countP_cons] at hcount
        cases w with
        | nil => exact absurd (by rw [hrw]; rfl) hhead
        | cons c w =>
          obtain ⟨hcq, hc⟩ := hrest c (by rw [hrw]; rfl)
          simp [hcq, hc] at hcount
    · cases w with
      | nil =>
        obtain rfl : rest = rest' := by simpa using hw.symm
        rw [List.append_nil] at hs
        exact ⟨hs ▸ (hB.verbatim_of_length (by rw [hs])).1, hl⟩
      | cons c w =>
        have hle := hB.length_le
        rw [hs, List.length_append, List.length_cons] at hle
        omega
  · intro ⟨hv, hl⟩
    obtain ⟨hm, hem⟩ := lexFrom_body hq (Body.of_verbatim hv) []
    rw [lexFrom_append, hm, hem, lexFrom]
    simp only [step, if_true, List.nil_append]
    rw [lexFrom_closing hq s hhead, hl]
    rfl

/-! ## Templates -/

/-- A part of a statement: fixed SQL, a number with its sign, a string. -/
inductive Piece where
  | sql (s : Bytes)
  | num (neg : Bool) (w : Bytes)
  | str (s : Bytes)

namespace Piece

def text : Piece → Bytes
  | sql s => s
  | num neg w => (if neg then [45] else []) ++ w
  | str s => 39 :: s ++ [39]

/-- The tokens meant. -/
def tokens : Piece → List Token
  | sql s => (lex s).getD []
  | num neg w => (if neg then [.punct 45] else []) ++ [.word w]
  | str s => [.str s]

@[simp] theorem text_sql (s : Bytes) : (sql s).text = s := rfl

@[simp] theorem text_str (s : Bytes) : (str s).text = 39 :: s ++ [39] := rfl

@[simp] theorem tokens_str (s : Bytes) : (str s).tokens = [.str s] := rfl

end Piece

/-- The strings among the parts. -/
def strings (l : List Piece) : List Bytes :=
  l.filterMap fun
    | .str s => some s
    | _ => none

/-- The string literals among tokens, decoded. -/
def literals (ts : List Token) : List Bytes :=
  ts.filterMap fun
    | .str s => some s
    | _ => none

/-- Digits and dots, a digit first. -/
def isNumber (w : Bytes) : Bool := w.head?.any isDigit && w.all fun b => isDigit b || b == 46

/-- A comma, a parenthesis or the end follows. -/
def separated : List Piece → Bool
  | [] => true
  | .sql (b :: _) :: _ => b == 44 || b == 41
  | _ => false

/-- Fixed SQL that leaves nothing open and has no literal of its own. -/
def isFixed (s : Bytes) : Bool :=
  modeAfter .between s == .between && !s.contains 0 && literals ((lex s).getD []) == []

/-- A template of fixed SQL, numbers and strings, each value with a separator
behind it. -/
def wellFormed : List Piece → Bool
  | [] => true
  | .sql s :: l => isFixed s && wellFormed l
  | .num _ w :: l => isNumber w && separated l && wellFormed l
  | .str _ :: l => separated l && wellFormed l

theorem head_of_separated {l : List Piece} (h : separated l = true) {b : UInt8}
    (hb : b ∈ (cStr (l.flatMap Piece.text)).head?) : b = 44 ∨ b = 41 := by
  match l, h with
  | [], _ => cases hb
  | .sql (c :: s) :: l, h =>
    have hc : c = 44 ∨ c = 41 := by simpa [separated] using h
    have hne : c ≠ 0 := by rcases hc with rfl | rfl <;> decide
    simp only [List.flatMap_cons, Piece.text, cStr, List.cons_append, List.takeWhile_cons, ne_eq,
      hne, not_false_eq_true, decide_true, if_true, List.head?_cons, Option.mem_some_iff] at hb
    exact hb ▸ hc

theorem extendsWord_of_isNumber {b : UInt8} {w : Bytes} (hw : w.head?.any isDigit = true)
    (hb : (isDigit b || b == 46) = true) : extendsWord w b = true := by
  rw [Bool.or_eq_true] at hb
  rcases hb with hb | hb
  · simp [extendsWord, isWord, hb]
  · simp [extendsWord, hb, hw]

/-- A number goes on with its digits. -/
theorem word_digits {w v : Bytes} (hw : w.head?.any isDigit = true)
    (hv : v.all (fun b => isDigit b || b == 46) = true) :
    modeAfter (.word w) v = .word (w ++ v) ∧ emitted (.word w) v = [] := by
  induction v generalizing w with
  | nil => simp [modeAfter, emitted]
  | cons b v ih =>
    rw [List.all_cons, Bool.and_eq_true] at hv
    have hext := extendsWord_of_isNumber hw hv.1
    have hw' : (w ++ [b]).head?.any isDigit = true := by
      cases w with
      | nil => cases hw
      | cons c w => exact hw
    obtain ⟨hm, he⟩ := ih hw' hv.2
    simp only [modeAfter, emitted, step, hext, if_true, hm, he, List.append_assoc,
      List.singleton_append, List.nil_append, and_self]

theorem start_digit {b : UInt8} (h : isDigit b = true) : start b = ([], .word [b]) := by
  have hs : isSpace b = false := by
    simp only [isDigit, decide_eq_true_eq, UInt8.le_iff_toNat_le] at h
    have h1 : b ≠ 32 := by
      intro he
      subst he
      exact absurd h.1 (by decide)
    simp only [isSpace, beq_eq_false_iff_ne.mpr h1, Bool.false_or, decide_eq_false_iff_not,
      UInt8.le_iff_toNat_le, UInt8.reduceToNat] at h ⊢
    omega
  simp [start, hs, isWord, h]

/-- A word before a separator is complete. -/
theorem lexFrom_word {w : Bytes} (h : ∀ b ∈ rest.head?, b = 44 ∨ b = 41) :
    lexFrom (.word w) rest = (lexFrom .between rest).map (.word w :: ·) := by
  cases rest with
  | nil => rfl
  | cons b rest =>
    have hb : extendsWord w b = false := by
      rcases h b rfl with rfl | rfl <;> rfl
    simp only [lexFrom, step, hb, startAfter, Option.map_map]
    rfl

/-- A number is read as its sign and its digits. -/
theorem lexFrom_num {neg : Bool} {w : Bytes} (hw : isNumber w = true)
    (h : ∀ b ∈ rest.head?, b = 44 ∨ b = 41) :
    lexFrom .between ((Piece.num neg w).text ++ rest) =
      (lexFrom .between rest).map ((Piece.num neg w).tokens ++ ·) := by
  cases w with
  | nil => cases hw
  | cons b w =>
    simp only [isNumber, List.head?_cons, Option.any_some, List.all_cons, Bool.and_eq_true] at hw
    obtain ⟨hm, he⟩ := word_digits (w := [b]) hw.1 hw.2.2
    have hword : lexFrom (.word [b]) (w ++ rest) =
        (lexFrom .between rest).map (.word (b :: w) :: ·) := by
      rw [lexFrom_append, hm, he, lexFrom_word h]
      exact Option.map_id'
    have hsp : isDigit b = true := hw.1
    have h45 : b ≠ 45 := by
      intro he
      subst he
      exact absurd hw.1 (by decide)
    have hdash : start 45 = ([], .dash) := rfl
    cases neg with
    | false =>
      simp [Piece.text, Piece.tokens, lexFrom, step, start_digit hsp, hword, Function.comp_def]
    | true =>
      simp [Piece.text, Piece.tokens, lexFrom, step, hdash, h45, startAfter, start_digit hsp, hword,
        Function.comp_def]

/-- A text too short for a string and its closing quote is not read as it. -/
theorem quoted_short {s t : Bytes} (h : t.length ≤ s.length) :
    lexFrom (.quoted 39 []) t ≠ some (.str s :: ts) := by
  intro he
  obtain ⟨u, d, rest, ts', ht, hB, -, -, hts⟩ := quoted_inv (.inl rfl) he
  obtain ⟨hd, -⟩ : s = d ∧ ts = ts' := by simpa using hts
  have hle := hB.length_le
  rw [ht, List.length_append, List.length_cons] at h
  rw [← hd] at hle
  omega

theorem isNumber_noNul {w : Bytes} (h : isNumber w = true) : (0 : UInt8) ∉ w := by
  intro h0
  rw [isNumber, Bool.and_eq_true] at h
  exact absurd (List.all_eq_true.mp h.2 0 h0) (by decide)

/-- The literals of a template are its strings. -/
theorem literals_tokens {l : List Piece} (h : wellFormed l = true) :
    literals (l.flatMap Piece.tokens) = strings l := by
  induction l with
  | nil => rfl
  | cons p l ih =>
    have happ : literals ((p :: l).flatMap Piece.tokens) =
        literals p.tokens ++ literals (l.flatMap Piece.tokens) := List.filterMap_append
    rw [happ]
    cases p with
    | sql s =>
      simp only [wellFormed, isFixed, Bool.and_eq_true, beq_iff_eq] at h
      rw [ih h.2, Piece.tokens, h.1.2]
      rfl
    | num neg w =>
      simp only [wellFormed, Bool.and_eq_true] at h
      rw [ih h.2]
      cases neg <;> rfl
    | str s =>
      simp only [wellFormed, Bool.and_eq_true] at h
      rw [ih h.2]
      rfl

/-- **The text of a template** is read as its tokens exactly when each string
in it is verbatim and has no NUL. -/
theorem template_iff {l : List Piece} (h : wellFormed l = true) :
    lex (cStr (l.flatMap Piece.text)) = some (l.flatMap Piece.tokens) ↔
      ∀ s ∈ strings l, (0 : UInt8) ∉ s ∧ verbatim 39 s = true := by
  unfold lex
  induction l with
  | nil => simp [cStr, lexFrom, finish, strings]
  | cons p l ih =>
    rw [List.flatMap_cons, List.flatMap_cons]
    cases p with
    | sql s =>
      simp only [wellFormed, isFixed, Bool.and_eq_true, beq_iff_eq, Bool.not_eq_true',
        List.contains_eq_mem, decide_eq_false_iff_not] at h
      have hiff := ih h.2
      have hstrings : strings (.sql s :: l) = strings l := rfl
      rw [hstrings, Piece.text_sql, cStr_append h.1.1.2, lexFrom_closed h.1.1.1]
      simpa [Piece.tokens] using hiff
    | num neg w =>
      simp only [wellFormed, Bool.and_eq_true] at h
      have hiff := ih h.2
      have hstrings : strings (.num neg w :: l) = strings l := rfl
      have hn : (0 : UInt8) ∉ (Piece.num neg w).text := by
        have := isNumber_noNul h.1.1
        cases neg <;> simpa [Piece.text] using this
      rw [hstrings, cStr_append hn, lexFrom_num h.1.1 fun b hb => head_of_separated h.1.2 hb]
      simpa using hiff
    | str s =>
      simp only [wellFormed, Bool.and_eq_true] at h
      have hiff := ih h.2
      have hstrings : strings (.str s :: l) = s :: strings l := rfl
      rw [hstrings, List.forall_mem_cons]
      simp only [Piece.text_str, Piece.tokens_str, List.cons_append, List.nil_append,
        List.append_assoc]
      have hopen : ∀ t, lexFrom .between (cStr (39 :: t)) = lexFrom (.quoted 39 []) (cStr t) := by
        intro t
        have : cStr (39 :: t) = 39 :: cStr t := rfl
        rw [this, lexFrom]
        simp [step, start, isSpace, isWord, isDigit]
      rw [hopen]
      by_cases hs : (0 : UInt8) ∈ s
      · rw [cStr_append_of_nul hs]
        have hshort : (cStr s).length ≤ s.length := (List.takeWhile_prefix _).length_le
        exact iff_of_false (quoted_short hshort) fun hall => hall.1.1 hs
      · have hcut : cStr (s ++ 39 :: l.flatMap Piece.text) =
            s ++ 39 :: cStr (l.flatMap Piece.text) := by
          rw [cStr_append hs]
          rfl
        rw [hcut, literal_iff (.inl rfl), hiff]
        · simp [hs]
        · intro b hb
          rcases head_of_separated h.1 hb with rfl | rfl <;> decide

end ExpenseTracker.Core.SqlLex
