import Mathlib.Algebra.Order.Floor.Div
import ExpenseTracker.Core.Bytes

/-!
# Unpadded base64url (RFC 4648 §5)

The reference encoding, on numbers: three bytes are a 24-bit number, written
as four base-64 digits; one or two bytes left over give two or three digits.

* `length_encode`: four characters for three bytes, rounded up.
* `mem_encode`: the output is made of the 64 URL-safe characters only.
* `decode_encode`: the reference decoder returns the encoded bytes, so
  `encode` is injective.
-/
namespace ExpenseTracker.Core.Base64

open ExpenseTracker.Core

def alphabet : Bytes := ascii "ABCDEFGHIJKLMNOPQRSTUVWXYZabcdefghijklmnopqrstuvwxyz0123456789-_"

/-- The character of a base-64 digit. -/
def digitChar (n : Nat) : UInt8 := alphabet.getD n 0

/-- The base-64 digit of a character. -/
def digitOf (c : UInt8) : Option Nat :=
  let i := alphabet.findIdx (· == c)
  if i < 64 then some i else none

def encode : Bytes → Bytes
  | a :: b :: c :: rest =>
    let n := a.toNat * 65536 + b.toNat * 256 + c.toNat
    digitChar (n / 262144) :: digitChar (n / 4096 % 64) :: digitChar (n / 64 % 64) ::
      digitChar (n % 64) :: encode rest
  | [a, b] =>
    let n := a.toNat * 65536 + b.toNat * 256
    [digitChar (n / 262144), digitChar (n / 4096 % 64), digitChar (n / 64 % 64)]
  | [a] =>
    let n := a.toNat * 65536
    [digitChar (n / 262144), digitChar (n / 4096 % 64)]
  | [] => []

/-- The bytes of a 24-bit number. -/
def bytesOf (n : Nat) : Bytes :=
  [UInt8.ofNat (n / 65536), UInt8.ofNat (n / 256), UInt8.ofNat n]

def decode : Bytes → Option Bytes
  | p :: q :: r :: s :: rest => do
    let n := (← digitOf p) * 262144 + (← digitOf q) * 4096 + (← digitOf r) * 64 + (← digitOf s)
    let tail ← decode rest
    return bytesOf n ++ tail
  | [p, q, r] => do
    let n := (← digitOf p) * 262144 + (← digitOf q) * 4096 + (← digitOf r) * 64
    return (bytesOf n).take 2
  | [p, q] => do
    let n := (← digitOf p) * 262144 + (← digitOf q) * 4096
    return (bytesOf n).take 1
  | [_] => none
  | [] => some []

theorem digitOf_digitChar {n : Nat} (h : n < 64) : digitOf (digitChar n) = some n := by
  have key : ∀ n, n < 64 → digitOf (digitChar n) = some n := by decide +kernel
  exact key n h

theorem digitChar_mem {n : Nat} (h : n < 64) : digitChar n ∈ alphabet := by
  have key : ∀ n, n < 64 → digitChar n ∈ alphabet := by decide +kernel
  exact key n h

theorem mem_encode {s : Bytes} {x : UInt8} (h : x ∈ encode s) : x ∈ alphabet := by
  induction s using encode.induct with
  | case1 a b c rest ih =>
    have ha := a.toNat_lt; have hb := b.toNat_lt; have hc := c.toNat_lt
    simp only [encode, List.mem_cons] at h
    rcases h with rfl | rfl | rfl | rfl | h
    · exact digitChar_mem (by omega)
    · exact digitChar_mem (by omega)
    · exact digitChar_mem (by omega)
    · exact digitChar_mem (by omega)
    · exact ih h
  | case2 a b =>
    have ha := a.toNat_lt; have hb := b.toNat_lt
    simp only [encode, List.mem_cons, List.not_mem_nil, or_false] at h
    rcases h with rfl | rfl | rfl <;> exact digitChar_mem (by omega)
  | case3 a =>
    have ha := a.toNat_lt
    simp only [encode, List.mem_cons, List.not_mem_nil, or_false] at h
    rcases h with rfl | rfl <;> exact digitChar_mem (by omega)
  | case4 => simp [encode] at h

/-- Four characters for three bytes; a rest of one or two bytes takes one more
character than it has bytes. -/
theorem length_encode (s : Bytes) : (encode s).length = (4 * s.length) ⌈/⌉ 3 := by
  rw [Nat.ceilDiv_eq_add_pred_div]
  induction s using encode.induct with
  | case1 a b c rest ih =>
    simp only [encode, List.length_cons, ih]
    omega
  | case2 a b => simp [encode]
  | case3 a => simp [encode]
  | case4 => rfl

theorem bytesOf_eq {n : Nat} {a b c : UInt8}
    (h : n = a.toNat * 65536 + b.toNat * 256 + c.toNat) : bytesOf n = [a, b, c] := by
  have ha := a.toNat_lt; have hb := b.toNat_lt; have hc := c.toNat_lt
  unfold bytesOf
  congr 1
  · apply UInt8.toNat_inj.mp; rw [UInt8.toNat_ofNat']; omega
  congr 1
  · apply UInt8.toNat_inj.mp; rw [UInt8.toNat_ofNat']; omega
  congr 1
  · apply UInt8.toNat_inj.mp; rw [UInt8.toNat_ofNat']; omega

/-- The reference decoder inverts the encoder. -/
theorem decode_encode (s : Bytes) : decode (encode s) = some s := by
  induction s using encode.induct with
  | case1 a b c rest ih =>
    have ha := a.toNat_lt; have hb := b.toNat_lt; have hc := c.toNat_lt
    simp only [encode, decode, ih, Option.bind_eq_bind, Option.bind_some, pure]
    rw [digitOf_digitChar (by omega), digitOf_digitChar (by omega), digitOf_digitChar (by omega),
      digitOf_digitChar (by omega)]
    simp only [Option.bind_some]
    rw [bytesOf_eq (a := a) (b := b) (c := c) (by omega)]; rfl
  | case2 a b =>
    have ha := a.toNat_lt; have hb := b.toNat_lt
    simp only [encode, decode, Option.bind_eq_bind, pure]
    rw [digitOf_digitChar (by omega), digitOf_digitChar (by omega), digitOf_digitChar (by omega)]
    simp only [Option.bind_some]
    rw [bytesOf_eq (a := a) (b := b) (c := 0) (by simp; omega)]; rfl
  | case3 a =>
    have ha := a.toNat_lt
    simp only [encode, decode, Option.bind_eq_bind, pure]
    rw [digitOf_digitChar (by omega), digitOf_digitChar (by omega)]
    simp only [Option.bind_some]
    rw [bytesOf_eq (a := a) (b := 0) (c := 0) (by simp; omega)]; rfl
  | case4 => rfl

theorem encode_injective : Function.Injective encode := fun s t h => by
  have := congrArg decode h
  simpa [decode_encode] using this

end ExpenseTracker.Core.Base64
