import ExpenseTracker.Core.Base64
import Mathlib.GroupTheory.GroupAction.Ring

/-!
# `base64UrlEncode`

The program's encoder is a loop over the input with a three-byte buffer
`char_array_3`, filled at `i`; a full buffer is written as four characters
and `i` starts again. Behind the loop a partly filled buffer is padded with
zero bytes and its first `i + 1` characters are written.

* `base64UrlEncode_eq`: the loop computes the reference encoding
  (`Core.Base64.encode`) of every byte string. The invariant is that between
  buffers the emitted text is the encoding of the bytes consumed so far, and
  the stale buffer contents do not matter.
* `base64UrlEncode_correct`: with the length and the characters of the output, and
  the input back from it.
* `base64UrlEncode_noDot`: the output never contains a dot.
-/
namespace ExpenseTracker.L1.Base64Url

open ExpenseTracker.Core

def cb64 : Bytes := ascii "ABCDEFGHIJKLMNOPQRSTUVWXYZabcdefghijklmnopqrstuvwxyz0123456789-_"

/-- `cb64[i]`. -/
def char64 (i : UInt8) : UInt8 := cb64.getD i.toNat 0

/-- `char_array_4` computed from `char_array_3`. -/
def charArray4 (a : Bytes) : Bytes :=
  let a0 := a.getD 0 0
  let a1 := a.getD 1 0
  let a2 := a.getD 2 0
  [(a0 &&& 0xfc) >>> 2, ((a0 &&& 0x03) <<< 4) + ((a1 &&& 0xf0) >>> 4),
    ((a1 &&& 0x0f) <<< 2) + ((a2 &&& 0xc0) >>> 6), a2 &&& 0x3f]

/-- The loop's variables. -/
structure Enc where
  i : Nat
  char_array_3 : Bytes
  ret : Bytes

/-- One turn of `for(char c : data)`.
mirrors src/src/auth_manager.cpp:64-74 -/
def encodeByte (s : Enc) (c : UInt8) : Enc :=
  let a := s.char_array_3.set s.i c
  if s.i + 1 = 3 then { i := 0, char_array_3 := a, ret := s.ret ++ (charArray4 a).map char64 }
  else { i := s.i + 1, char_array_3 := a, ret := s.ret }

/-- `if(i) { ... }` behind the loop. Only the first `i + 1` characters are
written; the fourth one is never computed there.
mirrors src/src/auth_manager.cpp:75-81 -/
def encodeTail (s : Enc) : Bytes :=
  if s.i = 0 then s.ret
  else
    let a := s.char_array_3.mapIdx fun j x => if s.i ≤ j then 0 else x
    s.ret ++ ((charArray4 a).take (s.i + 1)).map char64

/-- mirrors src/src/auth_manager.cpp:58-83 -/
def base64UrlEncode (data : Bytes) : Bytes :=
  encodeTail (data.foldl encodeByte { i := 0, char_array_3 := [0, 0, 0], ret := [] })

/-! ## Masks and shifts as arithmetic -/

theorem char64_eq (x : UInt8) (n : Nat) (h : x.toNat = n) : char64 x = Base64.digitChar n := by
  subst h; rfl

set_option maxRecDepth 8000 in
theorem mask_fc (a : UInt8) : ((a &&& 0xfc) >>> 2).toNat = a.toNat / 4 := by
  have key : ∀ n, n < 256 → (n &&& 252) >>> 2 = n / 4 := by decide
  simpa using key a.toNat a.toNat_lt

set_option maxRecDepth 8000 in
theorem mask_03 (a : UInt8) : ((a &&& 0x03) <<< 4).toNat = a.toNat % 4 * 16 := by
  have key : ∀ n, n < 256 → (n &&& 3) <<< 4 % 256 = n % 4 * 16 := by decide
  simpa using key a.toNat a.toNat_lt

set_option maxRecDepth 8000 in
theorem mask_f0 (b : UInt8) : ((b &&& 0xf0) >>> 4).toNat = b.toNat / 16 := by
  have key : ∀ n, n < 256 → (n &&& 240) >>> 4 = n / 16 := by decide
  simpa using key b.toNat b.toNat_lt

set_option maxRecDepth 8000 in
theorem mask_0f (b : UInt8) : ((b &&& 0x0f) <<< 2).toNat = b.toNat % 16 * 4 := by
  have key : ∀ n, n < 256 → (n &&& 15) <<< 2 % 256 = n % 16 * 4 := by decide
  simpa using key b.toNat b.toNat_lt

set_option maxRecDepth 8000 in
theorem mask_c0 (c : UInt8) : ((c &&& 0xc0) >>> 6).toNat = c.toNat / 64 := by
  have key : ∀ n, n < 256 → (n &&& 192) >>> 6 = n / 64 := by decide
  simpa using key c.toNat c.toNat_lt

set_option maxRecDepth 8000 in
theorem mask_3f (c : UInt8) : (c &&& 0x3f).toNat = c.toNat % 64 := by
  have key : ∀ n, n < 256 → n &&& 63 = n % 64 := by decide
  simpa using key c.toNat c.toNat_lt

/-- The four characters of a full buffer are the base-64 digits of its
24-bit number. -/
theorem charArray4_map (a b c : UInt8) :
    (charArray4 [a, b, c]).map char64 =
      [Base64.digitChar ((a.toNat * 65536 + b.toNat * 256 + c.toNat) / 262144),
        Base64.digitChar ((a.toNat * 65536 + b.toNat * 256 + c.toNat) / 4096 % 64),
        Base64.digitChar ((a.toNat * 65536 + b.toNat * 256 + c.toNat) / 64 % 64),
        Base64.digitChar ((a.toNat * 65536 + b.toNat * 256 + c.toNat) % 64)] := by
  have ha := a.toNat_lt; have hb := b.toNat_lt; have hc := c.toNat_lt
  simp only [charArray4, List.getD_cons_zero, List.getD_cons_succ, List.map_cons, List.map_nil]
  congr 1
  · exact char64_eq _ _ (by rw [mask_fc]; omega)
  congr 1
  · exact char64_eq _ _ (by rw [UInt8.toNat_add, mask_03, mask_f0]; omega)
  congr 1
  · exact char64_eq _ _ (by rw [UInt8.toNat_add, mask_0f, mask_c0]; omega)
  congr 1
  exact char64_eq _ _ (by rw [mask_3f]; omega)

/-! ## The loop -/

/-- From an empty buffer, whatever its stale contents, the rest of the run
appends the encoding of the rest of the input. -/
theorem encode_loop (data : Bytes) : ∀ (x y z : UInt8) (ret : Bytes),
    encodeTail (data.foldl encodeByte ⟨0, [x, y, z], ret⟩) = ret ++ Base64.encode data := by
  induction data using Base64.encode.induct with
  | case1 a b c rest ih =>
    intro x y z ret
    have h3 : (a :: b :: c :: rest).foldl encodeByte ⟨0, [x, y, z], ret⟩ =
        rest.foldl encodeByte ⟨0, [a, b, c], ret ++ (charArray4 [a, b, c]).map char64⟩ := by
      simp [encodeByte]
    rw [h3, ih, charArray4_map, Base64.encode]
    simp
  | case2 a b =>
    intro x y z ret
    have h2 : encodeTail ([a, b].foldl encodeByte ⟨0, [x, y, z], ret⟩) =
        ret ++ ((charArray4 [a, b, 0]).map char64).take 3 := by
      simp [encodeByte, encodeTail, charArray4]
    rw [h2, charArray4_map, Base64.encode]
    simp
  | case3 a =>
    intro x y z ret
    have h1 : encodeTail ([a].foldl encodeByte ⟨0, [x, y, z], ret⟩) =
        ret ++ ((charArray4 [a, 0, 0]).map char64).take 2 := by
      simp [encodeByte, encodeTail, charArray4]
    rw [h1, charArray4_map, Base64.encode]
    simp
  | case4 => intro x y z ret; simp [encodeTail, Base64.encode]

/-- The loop computes unpadded base64url. -/
theorem base64UrlEncode_eq (data : Bytes) : base64UrlEncode data = Base64.encode data := by
  rw [base64UrlEncode, encode_loop]; rfl

theorem base64UrlEncode_injective : Function.Injective base64UrlEncode := fun s t h =>
  Base64.encode_injective (by rw [← base64UrlEncode_eq, h, base64UrlEncode_eq])

/-- **The encoder is unpadded base64url.** -/
theorem base64UrlEncode_correct :
    (∀ s, base64UrlEncode s = Base64.encode s ∧
      (base64UrlEncode s).length = (4 * s.length) ⌈/⌉ 3 ∧
      (∀ x ∈ base64UrlEncode s, x ∈ Base64.alphabet) ∧
      Base64.decode (base64UrlEncode s) = some s) ∧
    Base64.alphabet.length = 64 ∧ Base64.alphabet.Nodup ∧
    Function.Injective base64UrlEncode := by
  refine ⟨fun s => ?_, rfl, by decide +kernel, base64UrlEncode_injective⟩
  rw [base64UrlEncode_eq]
  exact ⟨rfl, Base64.length_encode s, fun x => Base64.mem_encode, Base64.decode_encode s⟩

theorem base64UrlEncode_noDot (data : Bytes) : (46 : UInt8) ∉ base64UrlEncode data := by
  intro h
  rw [base64UrlEncode_eq] at h
  have hd : (46 : UInt8) ∉ Base64.alphabet := by decide
  exact hd (Base64.mem_encode h)

end ExpenseTracker.L1.Base64Url
