import ExpenseTracker.Core.JsonText
import ExpenseTracker.L1Encoding.Jwt

/-!
# The claims in a token

`generateJWT` puts the user name between two quotes as it is. Read as JSON,
the payload is the object meant only for names that are their own string
body: a quote ends the string and starts further members, a backslash takes
the closing quote for itself, and a control character is no JSON.

* `payload_faithful`: the names for which the payload has exactly the claims meant.
-/
namespace ExpenseTracker.L1.Claims

open ExpenseTracker.Core ExpenseTracker.Core.JsonText
open ExpenseTracker.L1.Base64Url ExpenseTracker.L1.Password ExpenseTracker.L1.Jwt

/-- The members meant. -/
def claims (user_id : Int32) (username : Bytes) (exp : ℕ) : List (Bytes × Value) :=
  [(ascii "user_id", .number user_id.toInt), (ascii "username", .string username),
    (ascii "exp", .number exp)]

/-- The text is a JSON object of exactly these members, in whatever order. -/
def Faithful (payload : Bytes) (user_id : Int32) (username : Bytes) (exp : ℕ) : Prop :=
  ∃ members, Parses payload (.object members) ∧ members.Perm (claims user_id username exp)

/-! ## The text -/

/-- Behind the name: `,"exp":N}` without its first quote. -/
def expText (exp : ℕ) : Bytes :=
  44 :: 34 :: (ascii "exp" ++ 34 :: 58 :: (intText exp ++ [125]))

theorem intText_natCast (n : ℕ) : intText n = natText n := by
  unfold intText
  rw [if_neg (by omega), Int.natAbs_natCast]

theorem payloadText_eq (n : Int32) (u : Bytes) (e : ℕ) : payloadText n u e =
    123 :: 34 :: (ascii "user_id" ++ 34 :: 58 :: (intText n.toInt ++
      44 :: 34 :: (ascii "username" ++ 34 :: 58 :: 34 :: (u ++ 34 :: expText e)))) := by
  have h1 : ascii "\x7b\"user_id\":" = 123 :: 34 :: (ascii "user_id" ++ [34, 58]) := by decide
  have h2 : ascii ",\"username\":\"" = 44 :: 34 :: (ascii "username" ++ [34, 58, 34]) := by decide
  have h3 : ascii "\",\"exp\":" = 34 :: 44 :: 34 :: (ascii "exp" ++ [34, 58]) := by decide
  have h4 : ascii "\x7d" = [125] := by decide
  unfold payloadText expText
  rw [h1, h2, h3, h4, intText_natCast]
  simp only [List.append_assoc, List.cons_append, List.nil_append]

theorem unescaped_names :
    Unescaped (ascii "user_id") ∧ Unescaped (ascii "username") ∧ Unescaped (ascii "exp") := by
  decide

/-- The reader up to the name. What the name reads as decides the rest. -/
theorem read_payload (n : Int32) (u : Bytes) (e : ℕ) (fuel : ℕ) :
    readValue (fuel + 4) (payloadText n u e) =
      ((readString (u ++ 34 :: expText e)).bind fun p =>
        behindMember (fuel + 1) (ascii "username", .string p.1) p.2).map fun m =>
          (.object ((ascii "user_id", .number n.toInt) :: m.1), m.2) := by
  rw [payloadText_eq, readValue_object (by decide) (by decide),
    readMembers_plain unescaped_names.1, readValue_intText _ _ (by decide), Option.bind_some,
    behindMember_comma, readMembers_plain unescaped_names.2.1, readValue_string]
  cases readString (u ++ 34 :: expText e) with
  | none => rfl
  | some p =>
    simp only [Option.map_some, Option.bind_some]
    cases behindMember (fuel + 1) (ascii "username", Value.string p.1) p.2 <;> rfl

/-- Every quote behind the name ends in a byte that neither goes on with the object
nor closes it. -/
theorem expText_split {e : ℕ} {x rest : Bytes} (h : expText e = x ++ 34 :: rest) :
    ∃ b t, rest = b :: t ∧ (b = 101 ∨ b = 58) := by
  obtain ⟨head, hhead⟩ : ∃ head : Bytes, head = [44, 34, 101, 120, 112, 34, 58] := ⟨_, rfl⟩
  have hsplit : expText e = head ++ (intText e ++ [125]) := by
    have hexp : ascii "exp" = [101, 120, 112] := by decide
    rw [hhead, expText, hexp]
    rfl
  have hdigits : (34 : UInt8) ∉ intText e ++ [125] := by
    rw [intText_natCast, List.mem_append]
    rintro (hmem | hmem)
    · have := natText_digit hmem
      cases this
    · simp at hmem
  have hquotes : ∀ k < head.length, head[k]? = some 34 →
      (head.drop (k + 1)).head? = some 101 ∨ (head.drop (k + 1)).head? = some 58 := by
    rw [hhead]
    decide
  rw [hsplit] at h
  rcases List.append_eq_append_iff.mp h with ⟨a, _, ha⟩ | ⟨c, hc, hrest⟩
  · exact absurd (ha ▸ List.mem_append_right a List.mem_cons_self) hdigits
  cases c with
  | nil =>
    rw [List.nil_append] at hrest
    exact absurd (hrest ▸ List.mem_cons_self) hdigits
  | cons b cs =>
    rw [List.cons_append] at hrest
    obtain ⟨rfl, rfl⟩ := List.cons.inj hrest
    have hlt : x.length < head.length := by
      rw [hc, List.length_append, List.length_cons]
      omega
    have hdrop : head.drop (x.length + 1) = cs := by
      rw [hc, ← List.drop_drop, List.drop_left]
      rfl
    have hnext := hquotes x.length hlt (by rw [hc]; simp)
    rw [hdrop] at hnext
    cases cs with
    | nil => simp at hnext
    | cons b t => exact ⟨b, t ++ (intText e ++ [125]), rfl, by simpa using hnext⟩

/-! ## What the text reads as -/

theorem readMembers_exp (fuel e : ℕ) :
    readMembers (fuel + 2) (34 :: (ascii "exp" ++ 34 :: 58 :: (intText e ++ [125]))) =
      some ([(ascii "exp", .number e)], []) := by
  rw [readMembers_plain unescaped_names.2.2, readValue_intText _ _ (by decide), Option.bind_some,
    behindMember_end]
  rfl

/-- A plain name makes the payload meant. -/
theorem parses_payload {u : Bytes} (hu : Unescaped u) (n : Int32) (e : ℕ) :
    Parses (payloadText n u e) (.object (claims n u e)) := by
  refine ⟨6, ?_⟩
  have hread : readValue 6 (payloadText n u e) = some (.object (claims n u e), []) := by
    rw [read_payload, readString_plain hu, Option.bind_some, expText, behindMember_comma,
      readMembers_exp]
    rfl
  unfold parse
  rw [hread]
  rfl

/-- In a payload that is an object, a name that is not plain reads as something else. -/
theorem unescaped_of_read {n : Int32} {u : Bytes} {e : ℕ} {members : List (Bytes × Value)}
    (h : Parses (payloadText n u e) (.object members))
    (honly : ∀ v, (ascii "username", v) ∈ members → v = .string u) : Unescaped u := by
  obtain ⟨fuel, h⟩ := h
  obtain ⟨p, hp, h⟩ := Option.bind_eq_some_iff.mp h
  have hread := readValue_le (Nat.le_add_right fuel 4) hp
  rw [read_payload] at hread
  obtain ⟨m, hm, hmp⟩ := Option.map_eq_some_iff.mp hread
  obtain ⟨q, hq, hm⟩ := Option.bind_eq_some_iff.mp hm
  have hmembers : members = (ascii "user_id", .number n.toInt) :: m.1 := by
    rw [← hmp] at h
    dsimp only at h
    split at h
    · cases h
      rfl
    · cases h
  obtain ⟨v, rest⟩ := q
  obtain ⟨hname, b, t, hrest, hb⟩ := behindMember_inv hm
  have hv : v = u := by
    apply Value.string.inj
    apply honly
    rw [hmembers]
    exact List.mem_cons_of_mem _ hname
  obtain ⟨raw, hsplit, hraw⟩ := readString_inv hq
  rcases hraw with ⟨_, hplain⟩ | hlt
  · rwa [← hv]
  · -- the body of the name takes the closing quote, and no object goes on behind it
    rw [hv] at hlt
    obtain ⟨x, hx⟩ : ∃ x, expText e = x ++ 34 :: rest := by
      rcases List.append_eq_append_iff.mp hsplit with ⟨a, ha, hrest⟩ | ⟨c, hc, _⟩
      · cases a with
        | nil =>
          rw [ha, List.append_nil] at hlt
          omega
        | cons d a =>
          rw [List.cons_append] at hrest
          exact ⟨a, (List.cons.inj hrest).2⟩
      · have := congrArg List.length hc
        rw [List.length_append] at this
        omega
    obtain ⟨b', t', rfl, hb'⟩ := expText_split hx
    have hws : isWs b' = false := by
      rcases hb' with rfl | rfl <;> decide
    rw [skipWs_cons hws] at hrest
    obtain ⟨rfl, _⟩ := List.cons.inj hrest
    rcases hb' with rfl | rfl <;> simp at hb

/-- The name read from the members meant is the name. -/
theorem mem_claims_username {n : Int32} {u : Bytes} {e : ℕ} {v : Value}
    (h : (ascii "username", v) ∈ claims n u e) : v = .string u := by
  have hnames : ascii "username" ≠ ascii "user_id" ∧ ascii "username" ≠ ascii "exp" := by decide
  simpa [claims, hnames.1, hnames.2] using h

theorem faithful_iff (n : Int32) (u : Bytes) (e : ℕ) :
    Faithful (payloadText n u e) n u e ↔ Unescaped u := by
  constructor
  · intro ⟨members, h, hperm⟩
    apply unescaped_of_read h
    intro v hv
    exact mem_claims_username (hperm.subset hv)
  · intro hu
    exact ⟨_, parses_payload hu n e, List.Perm.refl _⟩

theorem claims_distinct {n n' : Int32} {u u' : Bytes} {e e' : ℕ}
    (h : (claims n u e).Perm (claims n' u' e')) : n = n' ∧ u = u' ∧ e = e' := by
  have hnames : ascii "user_id" ≠ ascii "username" ∧ ascii "user_id" ≠ ascii "exp" ∧
      ascii "username" ≠ ascii "exp" := by decide
  obtain ⟨h1, h2, h3⟩ := hnames
  have hid : (ascii "user_id", Value.number n.toInt) ∈ claims n' u' e' :=
    h.subset (by simp [claims])
  have hname : (ascii "username", Value.string u) ∈ claims n' u' e' := h.subset (by simp [claims])
  have hexp : (ascii "exp", Value.number e) ∈ claims n' u' e' := h.subset (by simp [claims])
  simp [claims, h1, h2] at hid
  simp [claims, h3, h1.symm] at hname
  simp [claims, h2.symm, h3.symm] at hexp
  exact ⟨Int32.toInt_inj.mp hid, hname, hexp⟩

/-! ## Issued tokens -/

theorem toTimeT_hours24 (now : ℕ) : toTimeT (now + hours24) = toTimeT now + 86400 := by
  unfold toTimeT hours24 second
  omega

/-- The payload of a token of user `user_id`, issued to `username` at `now`, is the JSON
object of exactly the claims meant if and only if the name has no quote, no backslash and
no control character; among such names, different users, names and seconds of issue make
different claims. -/
theorem payload_faithful (C : Crypto) :
    (∀ user_id username now, ∃ payload,
      payloadOf (generateJWT C user_id username now) = some payload ∧
      (Faithful payload user_id username (toTimeT now + 86400) ↔ Unescaped username)) ∧
    (∀ user_id user_id' username username' now now', Unescaped username → Unescaped username' →
      ∀ payload payload' members members',
        payloadOf (generateJWT C user_id username now) = some payload →
        payloadOf (generateJWT C user_id' username' now') = some payload' →
        Parses payload (.object members) → Parses payload' (.object members') →
        members.Perm members' →
        user_id = user_id' ∧ username = username' ∧ toTimeT now = toTimeT now') := by
  refine ⟨fun n u now => ?_, fun n n' u u' now now' hu hu' p p' m m' hp hp' hm hm' hperm => ?_⟩
  · refine ⟨_, payloadOf_generateJWT C n u now, ?_⟩
    rw [toTimeT_hours24]
    exact faithful_iff n u _
  · rw [payloadOf_generateJWT, toTimeT_hours24, Option.some.injEq] at hp hp'
    subst hp hp'
    have h1 : Value.object m = .object (claims n u _) := hm.unique (parses_payload hu n _)
    have h2 : Value.object m' = .object (claims n' u' _) := hm'.unique (parses_payload hu' n' _)
    rw [Value.object.inj h1, Value.object.inj h2] at hperm
    obtain ⟨hn, hu, he⟩ := claims_distinct hperm
    exact ⟨hn, hu, by omega⟩

/-- Two tokens of one user, a second apart. -/
theorem payload_faithful_ann :
    (∃ payload, payloadOf (generateJWT Crypto.zero 7 (ascii "ann") 0) = some payload ∧
      (Faithful payload 7 (ascii "ann") 86400 ↔ Unescaped (ascii "ann"))) ∧
    ∀ members members',
      Parses (payloadText 7 (ascii "ann") 86400) (.object members) →
      Parses (payloadText 7 (ascii "ann") 86401) (.object members') →
      members.Perm members' → toTimeT 0 = toTimeT second := by
  obtain ⟨hfaithful, hdistinct⟩ := payload_faithful Crypto.zero
  refine ⟨hfaithful 7 (ascii "ann") 0, fun m m' hm hm' hperm => ?_⟩
  have hann : Unescaped (ascii "ann") := by decide
  exact (hdistinct 7 7 _ _ 0 second hann hann _ _ m m' (payloadOf_generateJWT _ _ _ _)
    (payloadOf_generateJWT _ _ _ _) hm hm' hperm).2.2

/-- A name that closes its string and goes on with a member of its own. -/
def second_id : Bytes := ascii "x\",\"user_id\":2,\"y\":\""

/-- User 1 under this name is issued a token whose claims name user 2 after user 1. -/
theorem payload_second_id :
    payloadOf (generateJWT Crypto.zero 1 second_id 0) = some (payloadText 1 second_id 86400) ∧
    Parses (payloadText 1 second_id 86400) (.object [
      (ascii "user_id", .number 1), (ascii "username", .string (ascii "x")),
      (ascii "user_id", .number 2), (ascii "y", .string []), (ascii "exp", .number 86400)]) ∧
    ¬ Faithful (payloadText 1 second_id 86400) 1 second_id 86400 := by
  refine ⟨payloadOf_generateJWT _ _ _ _, ⟨8, ?_⟩, ?_⟩
  · have hbody : second_id ++ 34 :: expText 86400 = ascii "x" ++ 34 :: 44 :: 34 ::
        (ascii "user_id" ++ 34 :: 58 :: (intText 2 ++ 44 :: 34 ::
          (ascii "y" ++ 34 :: 58 :: 34 :: ([] ++ 34 :: expText 86400)))) := by decide +kernel
    have hplain : Unescaped (ascii "x") ∧ Unescaped (ascii "y") ∧ Unescaped [] := by decide
    have hread : readValue 8 (payloadText 1 second_id 86400) = some (.object [
        (ascii "user_id", .number 1), (ascii "username", .string (ascii "x")),
        (ascii "user_id", .number 2), (ascii "y", .string []), (ascii "exp", .number 86400)],
        []) := by
      rw [read_payload, hbody, readString_plain hplain.1, Option.bind_some, behindMember_comma,
        readMembers_plain unescaped_names.1, readValue_intText _ _ (by decide), Option.bind_some,
        behindMember_comma, readMembers_plain hplain.2.1, readValue_string,
        readString_plain hplain.2.2, Option.map_some, Option.bind_some, expText,
        behindMember_comma, readMembers_exp]
      rfl
    unfold parse
    rw [hread]
    rfl
  · rw [faithful_iff]
    decide

end ExpenseTracker.L1.Claims
