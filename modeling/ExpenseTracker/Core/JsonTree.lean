import ExpenseTracker.Core.JsonSyntax

/-!
# The tree of a JSON text

Whatever the reader of RFC 8259 takes for a value is the text of a tree, so
what holds of every tree holds of every JSON text. `JsonSyntax` goes from trees to
texts, this module back. The reader is followed construct by construct: each
`…_tree` lemma names the piece of the tree behind what one function of it took, and
that the value it gives is the piece's. A tree is not determined by its value: white
space, escapes and the way a number is written are part of it, so the lemmas give
some tree, with the text that was read.

* `readUnicode_tree`, `readChars_tree`: strings, with the pairs of surrogates.
* `readNumber_tree`: numbers.
* `read_tree`: the tree behind a value, the elements of an array, the members
  of an object.
* `parses_iff`: the texts of RFC 8259 are the texts of the trees that have a value.
-/
namespace ExpenseTracker.Core.JsonSyntax

open ExpenseTracker.Core ExpenseTracker.Core.JsonText

/-- White space, and what is behind it. -/
theorem skipWs_split (s : Bytes) : ∃ w : Blank, s = w.1 ++ skipWs s :=
  ⟨⟨s.takeWhile isWs, fun _ hb => List.mem_takeWhile_imp hb⟩,
    (List.takeWhile_append_dropWhile).symm⟩

theorem hex4_tree {s t : Bytes} {n : ℕ} (h : hex4 s = some (n, t)) :
    ∃ x : Hex4, s = x.digits ++ t ∧ x.n = n := by
  unfold hex4 at h
  split at h
  · rename_i a b c d s
    simp only [Option.bind_eq_bind, Option.bind_eq_some_iff] at h
    obtain ⟨na, ha, nb, hb, nc, hc, nd, hd, h⟩ := h
    cases h
    exact ⟨⟨[a, b, c, d], _, by simp only [hex4, ha, hb, hc, hd]; rfl⟩, rfl, rfl⟩
  · cases h

/-- The characters of an escape: what they stand for goes in front of the rest. -/
def Stands (ps : List Piece) (c : Bytes) : Prop :=
  ∀ qs, utf8s (ps ++ qs) = (utf8s qs).map (c ++ ·)

/-- What a `\u` is read as: one unit, or two that make a pair. Half a pair stands for
nothing. -/
theorem readUnicode_tree {s t c : Bytes} (h : readUnicode s = some (c, t)) :
    ∃ ps, 92 :: 117 :: s = texts ps ++ t ∧ Stands ps c := by
  unfold readUnicode at h
  simp only [Option.bind_eq_bind, Option.bind_eq_some_iff] at h
  obtain ⟨⟨n, u⟩, hn, h⟩ := h
  obtain ⟨x, rfl, rfl⟩ := hex4_tree hn
  split at h
  · rename_i hx
    cases h
    exact ⟨[.unit x], by simp [Piece.text], fun qs => utf8s_unit hx⟩
  rename_i hx
  split at h
  · rename_i hhigh
    split at h
    · rename_i v hu
      simp only [Option.bind_eq_some_iff] at h
      obtain ⟨⟨m, w⟩, hm, h⟩ := h
      obtain ⟨y, rfl, rfl⟩ := hex4_tree hm
      split at h
      · rename_i hy
        have hc : utf8 (pairPoint x.n y.n) = c ∧ w = t := Prod.mk.inj (Option.some.inj h)
        obtain ⟨rfl, rfl⟩ := hc
        have hu : u = 92 :: 117 :: (y.digits ++ w) := hu
        refine ⟨[.unit x, .unit y], by simp [Piece.text, hu], fun qs => ?_⟩
        exact (utf8s_pair hx hhigh).trans (if_pos hy)
      · cases h
    · cases h
  · cases h

theorem readEscape_tree {s t c : Bytes} (h : readEscape s = some (c, t)) :
    ∃ ps, 92 :: s = texts ps ++ t ∧ Stands ps c := by
  unfold readEscape at h
  split at h
  · cases h
  rename_i b s
  split at h
  · rename_i hb
    rw [hb]
    exact readUnicode_tree h
  · obtain ⟨c', hc, he⟩ := Option.map_eq_some_iff.mp h
    cases he
    exact ⟨[.short b c' hc], rfl, fun qs => rfl⟩

/-- The characters of a string, up to the quote behind it. -/
theorem readChars_tree {fuel : ℕ} {s v t : Bytes} (h : readChars fuel s = some (v, t)) :
    ∃ ps, s = texts ps ++ 34 :: t ∧ utf8s ps = some v := by
  induction fuel generalizing s v t with
  | zero => simp [readChars] at h
  | succ fuel ih =>
    cases s with
    | nil => simp [readChars] at h
    | cons b s =>
      by_cases h34 : b = 34
      · rw [readChars, if_pos h34] at h
        cases h
        exact ⟨[], by rw [h34]; rfl, rfl⟩
      by_cases h92 : b = 92
      · rw [h92] at h ⊢
        cases he : readEscape s with
        | none =>
          rw [readChars_refused he] at h
          cases h
        | some p =>
          obtain ⟨c, u⟩ := p
          rw [readChars_escape he] at h
          obtain ⟨⟨w, t'⟩, hw, heq⟩ := Option.map_eq_some_iff.mp h
          cases heq
          obtain ⟨qs, rfl, hqs⟩ := ih hw
          obtain ⟨ps, hps, hstands⟩ := readEscape_tree he
          refine ⟨ps ++ qs, ?_, by rw [hstands, hqs]; rfl⟩
          rw [hps, texts, texts, texts, List.flatMap_append, List.append_assoc]
      · rw [readChars_char h34 h92] at h
        split at h
        · cases h
        rename_i hlt
        obtain ⟨⟨w, t'⟩, hw, heq⟩ := Option.map_eq_some_iff.mp h
        cases heq
        obtain ⟨qs, rfl, hqs⟩ := ih hw
        have h0 : b ≠ 0 := by
          rintro rfl
          exact hlt (by decide)
        refine ⟨.plain b ⟨h0, h34, h92⟩ :: qs, rfl, ?_⟩
        rw [utf8s, if_neg hlt, hqs]
        rfl

theorem readDigits_tree {s ds t : Bytes} (h : readDigits s = some (ds, t)) :
    s = ds ++ t ∧ (∀ b ∈ ds, isDigit b = true) ∧ ds ≠ [] := by
  unfold readDigits at h
  simp only at h
  split at h
  · cases h
  rename_i hne
  cases h
  refine ⟨?_, fun b hb => List.mem_takeWhile_imp hb, hne⟩
  have hsplit : s.takeWhile isDigit ++ s.dropWhile isDigit = s := List.takeWhile_append_dropWhile
  have hdrop : s.drop (s.takeWhile isDigit).length = s.dropWhile isDigit :=
    (congrArg (List.drop (s.takeWhile isDigit).length) hsplit.symm).trans List.drop_left
  rw [hdrop, hsplit]

theorem readFraction_tree {s t : Bytes} {q : ℚ} (h : readFraction s = some (q, t)) :
    ∃ f : Option Bytes, s = fracText f ++ t ∧ (∀ ds ∈ f, ∀ b ∈ ds, isDigit b = true) ∧
      f ≠ some [] ∧ q = match f with
        | none => 0
        | some ds => (readNat ds : ℚ) / 10 ^ ds.length := by
  unfold readFraction at h
  split at h
  · rename_i u
    simp only [Option.bind_eq_bind, Option.bind_eq_some_iff] at h
    obtain ⟨⟨ds, u'⟩, hds, h⟩ := h
    cases h
    obtain ⟨rfl, hd, hne⟩ := readDigits_tree hds
    refine ⟨some ds, rfl, ?_, by simpa using hne, rfl⟩
    rintro _ ⟨⟩
    exact hd
  · cases h
    exact ⟨none, rfl, by simp, by simp, rfl⟩

theorem readSigned_tree {s t : Bytes} {z : ℤ} {c : UInt8} (hc : c = 101 ∨ c = 69)
    (h : readSigned s = some (z, t)) : ∃ e : Exponent, c :: s = e.text ++ t ∧ e.digits ≠ [] ∧
      z = if e.sign = some true then -(readNat e.digits : ℤ) else readNat e.digits := by
  unfold readSigned at h
  split at h
  · obtain ⟨⟨ds, u⟩, hds, he⟩ := Option.map_eq_some_iff.mp h
    cases he
    obtain ⟨rfl, hd, hne⟩ := readDigits_tree hds
    exact ⟨⟨c, some true, ds, hc, hd, Or.inr hne⟩, rfl, hne, rfl⟩
  · obtain ⟨⟨ds, u⟩, hds, he⟩ := Option.map_eq_some_iff.mp h
    cases he
    obtain ⟨rfl, hd, hne⟩ := readDigits_tree hds
    exact ⟨⟨c, some false, ds, hc, hd, Or.inr hne⟩, rfl, hne, rfl⟩
  · obtain ⟨⟨ds, u⟩, hds, he⟩ := Option.map_eq_some_iff.mp h
    cases he
    obtain ⟨rfl, hd, hne⟩ := readDigits_tree hds
    exact ⟨⟨c, none, ds, hc, hd, Or.inr hne⟩, rfl, hne, rfl⟩

/-- An exponent, if there is one. -/
theorem readExponent_tree {s t : Bytes} {z : ℤ} (h : readExponent s = some (z, t)) :
    ∃ e : Option Exponent, s = expText e ++ t ∧ (∀ x ∈ e, x.digits ≠ []) ∧
      z = match e with
        | none => 0
        | some x => if x.sign = some true then -(readNat x.digits : ℤ) else readNat x.digits := by
  unfold readExponent at h
  split at h
  · obtain ⟨e, htext, hne, hz⟩ := readSigned_tree (c := 101) (Or.inl rfl) h
    refine ⟨some e, htext, ?_, hz⟩
    rintro _ ⟨⟩
    exact hne
  · obtain ⟨e, htext, hne, hz⟩ := readSigned_tree (c := 69) (Or.inr rfl) h
    refine ⟨some e, htext, ?_, hz⟩
    rintro _ ⟨⟩
    exact hne
  · cases h
    exact ⟨none, rfl, by simp, rfl⟩

theorem readUnsigned_tree {s t : Bytes} {q : ℚ} (h : readUnsigned s = some (q, t)) (neg : Bool) :
    ∃ n : Numeral, n.neg = neg ∧ n.Rfc ∧ s = n.int ++ (fracText n.frac ++ (expText n.exp ++ t)) ∧
      q = (readNat n.int + n.fracValue) * 10 ^ n.expValue := by
  unfold readUnsigned at h
  simp only [Option.bind_eq_bind, Option.bind_eq_some_iff] at h
  obtain ⟨⟨ds, u⟩, hds, h⟩ := h
  obtain ⟨rfl, hd, hne⟩ := readDigits_tree hds
  split at h
  · cases h
  rename_i hlead
  simp only [Option.bind_eq_some_iff] at h
  obtain ⟨⟨f, v⟩, hf, ⟨e, w⟩, he, h⟩ := h
  obtain ⟨frac, rfl, hfd, hfne, hfv⟩ := readFraction_tree hf
  obtain ⟨exp, rfl, hed, hev⟩ := readExponent_tree he
  cases h
  have hleading : ds.head? = some 48 → ds = [48] := by
    intro h48
    have hlen : ds.length = 1 := by
      by_contra hlen
      exact hlead ⟨h48, hlen⟩
    obtain ⟨b, rfl⟩ := List.length_eq_one_iff.mp hlen
    rw [Option.some.inj h48]
  refine ⟨⟨neg, ds, frac, exp, hd, hne, hleading, hfd⟩, rfl, ⟨hfne, hed⟩, rfl, ?_⟩
  rw [hfv, hev]
  rfl

/-- A number is the text of a numeral, of the same value. -/
theorem readNumber_tree {s t : Bytes} {q : ℚ} (h : readNumber s = some (q, t)) :
    ∃ n : Numeral, n.Rfc ∧ s = n.text ++ t ∧ q = n.value := by
  unfold readNumber at h
  split at h
  · obtain ⟨⟨q', u⟩, hq, he⟩ := Option.map_eq_some_iff.mp h
    cases he
    obtain ⟨n, hneg, hrfc, rfl, rfl⟩ := readUnsigned_tree hq true
    exact ⟨n, hrfc, by simp [Numeral.text, hneg], by simp [Numeral.value, hneg]⟩
  · obtain ⟨n, hneg, hrfc, rfl, rfl⟩ := readUnsigned_tree h false
    exact ⟨n, hrfc, by simp [Numeral.text, hneg], by simp [Numeral.value, hneg]⟩

/-- A name is read letter by letter. -/
theorem readLiteral_inv {name : String} {v w : Value} {s t : Bytes}
    (h : readLiteral name v s = some (w, t)) : s = ascii name ++ t ∧ w = v := by
  unfold readLiteral at h
  split at h
  · rename_i hpre
    cases h
    obtain ⟨u, rfl⟩ := List.isPrefixOf_iff_prefix.mp hpre
    have hlen : name.length = (ascii name).length := by simp [ascii, String.length_toList]
    rw [hlen, List.drop_left]
    exact ⟨rfl, rfl⟩
  · cases h

/-- What a reader read is the text of a tree. -/
theorem read_tree (fuel : ℕ) :
    (∀ s v t, readValue fuel s = some (v, t) →
      ∃ (w : Blank) (d : Doc), s = w.1 ++ (d.text ++ t) ∧ d.value = some v) ∧
    (∀ s v t, readElements fuel s = some (v, t) →
      ∃ l : Elements, s = l.text ++ t ∧ l.values = some v) ∧
    (∀ s v t, readMembers fuel s = some (v, t) →
      ∃ m : Members, s = m.text ++ t ∧ m.values = some v) := by
  induction fuel with
  | zero =>
    refine ⟨fun s v t h => ?_, fun s v t h => ?_, fun s v t h => ?_⟩
    · simp [readValue] at h
    · simp [readElements] at h
    · simp [readMembers] at h
  | succ fuel ih =>
    obtain ⟨ihv, ihe, ihm⟩ := ih
    refine ⟨fun s v t h => ?_, fun s v t h => ?_, fun s v t h => ?_⟩
    · obtain ⟨w, hw⟩ := skipWs_split s
      rw [readValue] at h
      cases hs : skipWs s with
      | nil =>
        rw [hs] at h
        cases h
      | cons b u =>
        rw [hs] at h hw
        simp only at h
        refine ⟨w, ?_⟩
        rw [hw]
        by_cases h34 : b = 34
        · rw [if_pos h34] at h
          obtain ⟨⟨x, u'⟩, hx, he⟩ := Option.map_eq_some_iff.mp h
          cases he
          obtain ⟨ps, rfl, hps⟩ := readChars_tree hx
          exact ⟨.string ps, by simp [Doc.text, h34], by rw [Doc.value, hps]; rfl⟩
        rw [if_neg h34] at h
        by_cases h123 : b = 123
        · rw [if_pos h123] at h
          obtain ⟨w', hw'⟩ := skipWs_split u
          split at h
          · rename_i hempty
            cases h
            rw [List.eq_cons_of_mem_head? hempty] at hw'
            refine ⟨.emptyObject w', ?_, rfl⟩
            generalize (skipWs u).tail = r at hw' ⊢
            rw [h123, hw']
            simp [Doc.text]
          · obtain ⟨⟨x, u'⟩, hx, he⟩ := Option.map_eq_some_iff.mp h
            cases he
            obtain ⟨m, rfl, hm⟩ := ihm _ _ _ hx
            exact ⟨.object m, by simp [Doc.text, h123], by rw [Doc.value, hm]; rfl⟩
        rw [if_neg h123] at h
        by_cases h91 : b = 91
        · rw [if_pos h91] at h
          obtain ⟨w', hw'⟩ := skipWs_split u
          split at h
          · rename_i hempty
            cases h
            rw [List.eq_cons_of_mem_head? hempty] at hw'
            refine ⟨.emptyArray w', ?_, rfl⟩
            generalize (skipWs u).tail = r at hw' ⊢
            rw [h91, hw']
            simp [Doc.text]
          · obtain ⟨⟨x, u'⟩, hx, he⟩ := Option.map_eq_some_iff.mp h
            cases he
            obtain ⟨l, rfl, hl⟩ := ihe _ _ _ hx
            exact ⟨.array l, by simp [Doc.text, h91], by rw [Doc.value, hl]; rfl⟩
        rw [if_neg h91] at h
        by_cases h116 : b = 116
        · rw [if_pos h116] at h
          obtain ⟨rfl, rfl⟩ := readLiteral_inv h
          exact ⟨.bool true, by rw [h116]; rfl, rfl⟩
        rw [if_neg h116] at h
        by_cases h102 : b = 102
        · rw [if_pos h102] at h
          obtain ⟨rfl, rfl⟩ := readLiteral_inv h
          exact ⟨.bool false, by rw [h102]; rfl, rfl⟩
        rw [if_neg h102] at h
        by_cases h110 : b = 110
        · rw [if_pos h110] at h
          obtain ⟨rfl, rfl⟩ := readLiteral_inv h
          exact ⟨.null, by rw [h110]; rfl, rfl⟩
        rw [if_neg h110] at h
        obtain ⟨⟨q, u'⟩, hq, he⟩ := Option.map_eq_some_iff.mp h
        cases he
        obtain ⟨n, hrfc, hn, rfl⟩ := readNumber_tree hq
        exact ⟨.number n, by rw [hn]; rfl, by rw [Doc.value, if_pos hrfc]⟩
    · rw [readElements] at h
      simp only [Option.bind_eq_bind, Option.bind_eq_some_iff] at h
      obtain ⟨⟨x, u⟩, hx, h⟩ := h
      obtain ⟨w, d, rfl, hd⟩ := ihv _ _ _ hx
      obtain ⟨w', hw'⟩ := skipWs_split u
      split at h
      · rename_i r hr
        simp only [Option.bind_eq_some_iff] at h
        obtain ⟨⟨l, r'⟩, hl, h⟩ := h
        cases h
        obtain ⟨l, rfl, hlv⟩ := ihe _ _ _ hl
        rw [hr] at hw'
        exact ⟨.more w d w' l, by rw [hw']; simp [Elements.text], by rw [Elements.values, hd, hlv]; rfl⟩
      · rename_i r hr
        cases h
        rw [hr] at hw'
        exact ⟨.last w d w', by rw [hw']; simp [Elements.text], by rw [Elements.values, hd]; rfl⟩
      · cases h
    · rw [readMembers] at h
      obtain ⟨w, hw⟩ := skipWs_split s
      split at h
      · rename_i r hr
        rw [hr] at hw
        simp only [Option.bind_eq_bind, Option.bind_eq_some_iff] at h
        obtain ⟨⟨k, r₁⟩, hk, h⟩ := h
        obtain ⟨ps, rfl, hps⟩ := readChars_tree hk
        obtain ⟨w', hw'⟩ := skipWs_split r₁
        split at h
        · rename_i r₂ hr₂
          rw [hr₂] at hw'
          simp only [Option.bind_eq_some_iff] at h
          obtain ⟨⟨x, r₃⟩, hx, h⟩ := h
          obtain ⟨w₁, d, rfl, hd⟩ := ihv _ _ _ hx
          obtain ⟨w₁', hw₁'⟩ := skipWs_split r₃
          split at h
          · rename_i r₄ hr₄
            simp only [Option.bind_eq_some_iff] at h
            obtain ⟨⟨m, r₅⟩, hm, h⟩ := h
            cases h
            obtain ⟨m, rfl, hmv⟩ := ihm _ _ _ hm
            rw [hr₄] at hw₁'
            refine ⟨.more w ps w' w₁ d w₁' m, ?_, by rw [Members.values, hps, hd, hmv]; rfl⟩
            rw [hw, hw', hw₁']
            simp [Members.text]
          · rename_i r₄ hr₄
            cases h
            rw [hr₄] at hw₁'
            refine ⟨.last w ps w' w₁ d w₁', ?_, by rw [Members.values, hps, hd]; rfl⟩
            rw [hw, hw', hw₁']
            simp [Members.text]
          · cases h
        · cases h
      · cases h

/-- **The texts of RFC 8259 are the texts of the trees that have a value.** -/
theorem parses_iff {s : Bytes} {v : Value} :
    Parses s v ↔ ∃ (w : Blank) (d : Doc) (w' : Blank), s = w.1 ++ (d.text ++ w'.1) ∧
      d.value = some v := by
  constructor
  · rintro ⟨fuel, hparse⟩
    obtain ⟨⟨x, t⟩, hx, h⟩ := Option.bind_eq_some_iff.mp hparse
    obtain ⟨w, d, rfl, hd⟩ := (read_tree fuel).1 _ _ _ hx
    obtain ⟨w', hw'⟩ := skipWs_split t
    by_cases ht : skipWs t = []
    · rw [ht, List.append_nil] at hw'
      have hv : some x = some v := (if_pos ht).symm.trans h
      cases hv
      exact ⟨w, d, w', by rw [hw'], hd⟩
    · exact absurd ((if_neg ht).symm.trans h) (by simp)
  · rintro ⟨w, d, w', rfl, hd⟩
    have hend : NumberEnd w'.1 := by
      cases hw : w'.1 with
      | nil => exact numberEnd_nil
      | cons b t =>
        have hb := numberEnd_blank ⟨[b], by simpa using w'.2 b (hw ▸ List.mem_cons_self)⟩
          (c := 93) (by decide) []
        exact numberEnd_cons (hb b rfl) t
    have hskip : skipWs w'.1 = [] := by
      have h := skipWs_blank w' []
      rwa [List.append_nil] at h
    refine ⟨d.size, ?_⟩
    unfold parse
    rw [readValue_blank, d.readValue_text (Nat.le_refl _) hend, hd]
    show (if skipWs w'.1 = [] then _ else _) = _
    rw [if_pos hskip]
    rfl

end ExpenseTracker.Core.JsonSyntax
