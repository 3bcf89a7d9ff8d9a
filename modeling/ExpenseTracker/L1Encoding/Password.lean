import ExpenseTracker.L1Encoding.Hex

/-!
# Password hashes

`hashPassword` stores `hex(salt) ++ ":" ++ hex(PBKDF2(password, salt))`;
`verifyPassword` splits a stored string at its first colon, reads the salt
back and compares the hex text of the recomputed hash. OpenSSL's HMAC and
PBKDF2 are parameters (`Crypto`): arbitrary functions to 32 bytes.

* `verifyPassword_iff`: which stored strings are accepted.
* `verifyPassword_hashPassword`: a stored hash accepts exactly the passwords
  that PBKDF2 maps to the same bytes under its salt.
* `verifyPassword_exact`: both, as the contract of the pair.
-/
namespace ExpenseTracker.L1.Password

open ExpenseTracker.Core ExpenseTracker.L1.Hex

abbrev Digest := Vector UInt8 32
abbrev Salt := Vector UInt8 16

/-- OpenSSL: `HMAC(EVP_sha256(), key, data)` and
`PKCS5_PBKDF2_HMAC(password, salt, iterations, EVP_sha256(), 32)`. -/
structure Crypto where
  hmac : Bytes → Bytes → Digest
  pbkdf2 : Bytes → Bytes → Nat → Digest

/-- Functions that forget their input. -/
def Crypto.zero : Crypto := ⟨fun _ _ => .replicate 32 0, fun _ _ _ => .replicate 32 0⟩

/-- mirrors src/src/auth_manager.cpp:12 -/
def ITERATIONS : Nat := 10000

variable (C : Crypto)

/-- `salt` is what `RAND_bytes` yields.
mirrors src/src/auth_manager.cpp:34-42 -/
def hashPassword (salt : Salt) (password : Bytes) : Bytes :=
  toHex salt.toList ++ ascii ":" ++ toHex (C.pbkdf2 password salt.toList ITERATIONS).toList

/-- mirrors src/src/auth_manager.cpp:44-55 -/
def verifyPassword (password stored_hash : Bytes) : Bool :=
  match find stored_hash 58 0 with
  | none => false
  | some colon_pos =>
    let salt := fromHex (substr stored_hash 0 colon_pos)
    let correct_hash_hex := substrFrom stored_hash (colon_pos + 1)
    let hash := C.pbkdf2 password salt ITERATIONS
    toHex hash.toList == correct_hash_hex

/-- A stored string split at its first colon. -/
theorem verifyPassword_split (p h t : Bytes) (hh : (58 : UInt8) ∉ h) :
    verifyPassword C p (h ++ 58 :: t) =
      (toHex (C.pbkdf2 p (fromHex h) ITERATIONS).toList == t) := by
  have h1 : substr (h ++ 58 :: t) 0 h.length = h := by simp [substr]
  have h2 : substrFrom (h ++ 58 :: t) (h.length + 1) = t := by
    simp [substrFrom, ← List.drop_drop]
  simp only [verifyPassword, find_of_split hh, h1, h2]

theorem verifyPassword_iff (p s : Bytes) :
    verifyPassword C p s = true ↔ ∃ h, (58 : UInt8) ∉ h ∧
      s = h ++ 58 :: toHex (C.pbkdf2 p (fromHex h) ITERATIONS).toList := by
  refine ⟨?_, ?_⟩
  · intro hv
    by_cases hc : (58 : UInt8) ∈ s
    · obtain ⟨h, t, rfl, hh⟩ := exists_split hc
      rw [verifyPassword_split C p h t hh, beq_iff_eq] at hv
      exact ⟨h, hh, by rw [hv]⟩
    · simp [verifyPassword, find_none hc] at hv
  · intro ⟨h, hh, hs⟩
    subst hs
    rw [verifyPassword_split C p h _ hh, beq_iff_eq]

theorem hashPassword_eq (salt : Salt) (q : Bytes) :
    hashPassword C salt q =
      toHex salt.toList ++ 58 :: toHex (C.pbkdf2 q salt.toList ITERATIONS).toList := by
  have : ascii ":" = [58] := by decide
  simp [hashPassword, this]

/-- A stored hash accepts exactly the passwords with the same PBKDF2 bytes. -/
theorem verifyPassword_hashPassword (salt : Salt) (p q : Bytes) :
    verifyPassword C p (hashPassword C salt q) = true ↔
      C.pbkdf2 p salt.toList ITERATIONS = C.pbkdf2 q salt.toList ITERATIONS := by
  rw [hashPassword_eq, verifyPassword_split C p _ _ (toHex_noColon _), fromHex_toHex, beq_iff_eq]
  exact ⟨fun h => Vector.toList_inj.mp (toHex_injective h), fun h => by rw [h]⟩

/-- **Exact acceptance.** Of all strings, `verifyPassword` takes exactly those
with a first part whose bytes, as the salt, give the rest; of what
`hashPassword` stores, exactly the passwords with the same PBKDF2 bytes. -/
theorem verifyPassword_exact :
    (∀ p s, verifyPassword C p s = true ↔ ∃ h, (58 : UInt8) ∉ h ∧
      s = h ++ ascii ":" ++ toHex (C.pbkdf2 p (fromHex h) ITERATIONS).toList) ∧
    ∀ (p q : Bytes) (salt : Salt), verifyPassword C p (hashPassword C salt q) = true ↔
      C.pbkdf2 p salt.toList ITERATIONS = C.pbkdf2 q salt.toList ITERATIONS := by
  refine ⟨fun p s => ?_, fun p q salt => verifyPassword_hashPassword C salt p q⟩
  have colon : ascii ":" = [58] := by decide
  simp only [verifyPassword_iff, colon, List.append_assoc, List.singleton_append]

theorem hashPassword_ne_nil (salt : Salt) (q : Bytes) : hashPassword C salt q ≠ [] := by
  simp [hashPassword_eq]

end ExpenseTracker.L1.Password
