import ExpenseTracker.Core.Bytes
import ExpenseTracker.Core.Rounding

/-!
# JSON values

`RValue` is what `crow::json::load` makes of a request body, with the
accessors the handlers call on it; `WValue` is what they write. The handlers
see JSON text through these two only.

* `get`, `has`, `s`, `d`, `i`: the accessors, with the exceptions they throw;
  `field` and `fieldOr`: the two ways the handlers combine them.
* `entries`: a response body as the pages decode it.
-/
namespace ExpenseTracker.L3.Json

open ExpenseTracker.Core

/-- How a handler ends without an answer of its own: by a standard exception, or by a
read of memory nobody has written. -/
inductive Exn where
  | runtime_error
  | logic_error
  | invalid_argument
  | segfault
  deriving DecidableEq

/-- A sequence that ends well went well in both parts. -/
theorem bind_eq_ok {α β : Type} {x : Except Exn α} {f : α → Except Exn β} {b : β} :
    (x >>= f) = .ok b ↔ ∃ a, x = .ok a ∧ f a = .ok b := by
  cases x with
  | error e => simp [Bind.bind, Except.bind]
  | ok a => simp [Bind.bind, Except.bind]

/-- A number token: sign, integer digits, `scale` fractional digits, exponent. -/
structure Number where
  neg : Bool
  int : ℕ
  frac : ℕ
  scale : ℕ
  exp : ℤ

/-- The number it denotes. -/
def Number.value (n : Number) : ℚ :=
  (if n.neg then -1 else 1) * (n.int + n.frac / 10 ^ n.scale) * 10 ^ n.exp

/-- The integer its leading digits denote. -/
def Number.leading (n : Number) : ℤ := if n.neg then -n.int else n.int

/-- mirrors crow::json::rvalue. A string keeps its source text besides the
unescaped one. -/
inductive RValue where
  | null
  | bool (b : Bool)
  | number (n : Number)
  | string (raw text : Bytes)
  | list (l : List RValue)
  | object (o : List (Bytes × RValue))

/-- `stream >> res` for an `int64_t`: out of range clamps to the ends. -/
def clampInt64 (z : ℤ) : ℤ := max (-(2 ^ 63)) (min z (2 ^ 63 - 1))

/-- `lexical_cast<int64_t>` of a text: blanks, a sign, digits; the rest is not
read, and without a digit the result is 0 (of a blank text the code leaves it unset). -/
def lexicalCastInt (s : Bytes) : ℤ :=
  let s := s.dropWhile isSpace
  match s with
  | 45 :: r => clampInt64 (-(readNat (r.takeWhile isDigit)))
  | 43 :: r => clampInt64 (readNat (r.takeWhile isDigit))
  | r => clampInt64 (readNat (r.takeWhile isDigit))

namespace RValue

/-- `x[key]`; among members of one name it is the first that is found.
mirrors src/include/Crow/include/crow/json.h:641-676 -/
def get (x : RValue) (key : String) : Except Exn RValue :=
  match x with
  | object o =>
    match o.find? (·.1 == ascii key) with
    | some (_, v) => .ok v
    | none => .error .runtime_error
  | _ => .error .runtime_error

/-- `x.has(key)`. It looks among the elements of a list too, and compares keys that were
never set.
mirrors src/include/Crow/include/crow/json.h:550-574 -/
def has (x : RValue) (key : String) : Except Exn Bool :=
  match x with
  | object o => .ok (o.any (·.1 == ascii key))
  | list [] => .ok false
  | list (_ :: _) => .error .segfault
  | _ => .error .runtime_error

/-- mirrors src/include/Crow/include/crow/json.h:453-461 -/
def s : RValue → Except Exn Bytes
  | string _ text => .ok text
  | _ => .error .runtime_error

/-- mirrors src/include/Crow/include/crow/json.h:433-440 -/
def d : RValue → Except Exn Double
  | number n => .ok (Double.ofRat n.value)
  | _ => .error .runtime_error

/-- mirrors src/include/Crow/include/crow/json.h:400-414 -/
def i : RValue → Except Exn ℤ
  | number n => .ok (clampInt64 n.leading)
  | string raw _ => .ok (lexicalCastInt raw)
  | _ => .error .runtime_error

/-- `x[key].read()` -/
def field {α : Type} (x : RValue) (key : String) (read : RValue → Except Exn α) : Except Exn α := do
  let v ← x.get key
  read v

/-- `x.has(key) ? x[key].read() : dflt` -/
def fieldOr {α : Type} (x : RValue) (key : String) (read : RValue → Except Exn α) (dflt : α) :
    Except Exn α := do
  let present ← x.has key
  if present then x.field key read else return dflt

end RValue

/-- mirrors crow::json::wvalue, as far as the handlers build it. -/
inductive WValue where
  | null
  | int (i : Int32)
  | double (x : Double)
  | string (s : Bytes)
  | list (l : List WValue)
  | object (o : List (Bytes × WValue))

/-- A response body. -/
inductive Body where
  | text (s : Bytes)
  | json (v : WValue)

/-- The list a page takes a body for: `Array.isArray(data) ? data : []`. -/
def Body.entries : Body → List WValue
  | json (.list l) => l
  | _ => []

/-- A `wvalue` whose entries are assigned one by one; without a first
assignment it stays null. -/
def WValue.ofList : List WValue → WValue
  | [] => .null
  | l => .list l

theorem entries_ofList (l : List WValue) : (Body.json (.ofList l)).entries = l := by
  cases l <;> rfl

end ExpenseTracker.L3.Json
