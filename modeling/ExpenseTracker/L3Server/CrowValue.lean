import ExpenseTracker.L3Server.CrowNumber
import ExpenseTracker.Core.JsonTree

/-!
# The bodies the server accepts

* `decodeValue_text`, `decode_tree`: the parser on a tree, and the tree behind
  whatever it took.
* `loaded_iff`: what is kept of a tree, and when it is refused.
* `load_iff`: the bodies that are accepted, exactly, and what is kept of them.

The parser is run on the text of a tree, with anything behind it, by induction on
the tree; every level of nesting counts twice towards `maxDepth`. Backwards, by
induction on the fuel, whatever the parser took is the text of a tree. The fuel of
`load` is enough for every text, so a body is refused for what is in it only. Two
things the grammar has are refused: a zero with an exponent behind it, where the
table of states has no way on, and more than 5000 levels. One thing it has not is
accepted: whatever stands behind a NUL.
-/
namespace ExpenseTracker.L3.CrowLoad

open ExpenseTracker.Core ExpenseTracker.Core.JsonSyntax ExpenseTracker.L3.Json

/-! ## Values -/

mutual

/-- What the parser keeps of a value at a depth, `none` if it refuses it. -/
def loadedDoc : ℕ → Doc → Option Node
  | _, .null => some .null
  | _, .bool b => some (.bool b)
  | _, .number n => if ZeroExp n then none else some (.number n.text)
  | _, .string s => some (.string (texts s) (hasEscape s))
  | depth, .emptyArray _ => if maxDepth < depth + 1 then none else some (.list [])
  | depth, .array l =>
    if maxDepth < depth + 1 then none else (loadedElements (depth + 2) l).map .list
  | depth, .emptyObject _ => if maxDepth < depth + 1 then none else some (.object [])
  | depth, .object m =>
    if maxDepth < depth + 1 then none else (loadedMembers (depth + 2) m).map .object

def loadedElements : ℕ → Elements → Option (List Node)
  | depth, .last _ d _ => (loadedDoc depth d).map fun n => [n]
  | depth, .more _ d _ l => (loadedDoc depth d).bind fun n => (loadedElements depth l).map (n :: ·)

def loadedMembers : ℕ → Members → Option (List (Bytes × Node))
  | depth, .last _ k _ _ d _ => (loadedDoc depth d).map fun n => [(k.flatMap Piece.bytes, n)]
  | depth, .more _ k _ _ d _ m =>
    (loadedDoc depth d).bind fun n => (loadedMembers depth m).map ((k.flatMap Piece.bytes, n) :: ·)

end

mutual

/-- Fuel enough for the parser. -/
def costDoc : Doc → ℕ
  | .array l => costElements l + 2
  | .object m => costMembers m + 2
  | _ => 2

def costElements : Elements → ℕ
  | .last _ d _ => costDoc d + 1
  | .more _ d _ l => costDoc d + costElements l + 1

def costMembers : Members → ℕ
  | .last _ _ _ _ d _ => costDoc d + 1
  | .more _ _ _ _ d _ m => costDoc d + costMembers m + 1

end

/-- The parser skips what the grammar calls white space. -/
theorem wsSkip_eq (s : Bytes) : wsSkip s = JsonText.skipWs s := by
  have hpred : (fun b : UInt8 => b == 32 || b == 9 || b == 13 || b == 10) = JsonText.isWs := by
    funext b
    simp only [JsonText.isWs, Bool.or_assoc, Bool.or_comm (b == 13)]
  rw [wsSkip, hpred]
  rfl

theorem wsSkip_byte (w : Blank) {b : UInt8} (hb : JsonText.isWs b = false) (r : Bytes) :
    wsSkip (w.1 ++ b :: r) = b :: r := by
  rw [wsSkip_eq, skipWs_byte w hb]

theorem wsSkip_doc (w : Blank) (d : Doc) (r : Bytes) :
    wsSkip (w.1 ++ (d.text ++ r)) = d.text ++ r := by
  rw [wsSkip_eq, d.skipWs_text]

theorem ends_blank (w : Blank) {r : Bytes} (h : Ends r) : Ends (w.1 ++ r) := by
  cases hw : w.1 with
  | nil => exact h
  | cons b t =>
    have hb := w.2 b (hw ▸ List.mem_cons_self)
    refine ends_cons ?_ (t ++ r)
    simp only [JsonText.isWs, Bool.or_eq_true, beq_iff_eq] at hb
    rcases hb with ((rfl | rfl) | rfl) | rfl <;> rfl

/-- A string is taken whole, with its escapes. -/
theorem decodeString_texts (ps : List Piece) (r : Bytes) :
    decodeString (34 :: (texts ps ++ 34 :: r)) = some (texts ps, hasEscape ps, r) :=
  stringLoop_texts ps r

theorem decodeValue_number (fuel depth : ℕ) (n : Numeral) (r : Bytes) :
    decodeValue (fuel + 1) depth (n.text ++ r) =
      (decodeNumber (n.text ++ r)).map fun p => (.number p.1, p.2) := by
  obtain ⟨b, t, ht, hb⟩ := n.head_text r
  obtain ⟨_, h34, h123, h91, _, h116, h102, h110⟩ := numberHead hb
  have hcur : cur (n.text ++ r) = b := by rw [ht]; rfl
  rw [decodeValue, hcur, if_neg h91, if_neg h123, if_neg h34, if_neg h116, if_neg h102, if_neg h110]

/-- One call for the bracket, one for the elements. -/
theorem decodeValue_list (fuel depth : ℕ) (t : Bytes) : decodeValue (fuel + 2) depth (91 :: t) =
    if maxDepth < depth + 1 then none
    else if cur (wsSkip t) = 93 then some (.list [], (wsSkip t).tail)
    else (listLoop fuel (depth + 1) (wsSkip t)).map fun p => (.list p.1, p.2) := by
  rw [decodeValue]
  show decodeList (fuel + 1) (depth + 1) (91 :: t) = _
  rw [decodeList]
  rfl

theorem decodeValue_object (fuel depth : ℕ) (t : Bytes) : decodeValue (fuel + 2) depth (123 :: t) =
    if maxDepth < depth + 1 then none
    else if cur (wsSkip t) = 125 then some (.object [], (wsSkip t).tail)
    else (objectLoop fuel (depth + 1) (wsSkip t)).map fun p => (.object p.1, p.2) := by
  rw [decodeValue]
  show decodeObject (fuel + 1) (depth + 1) (123 :: t) = _
  rw [decodeObject]
  rfl

/-- A literal is compared with its first letter left out. -/
theorem literal_text (name : String) (v : Node) (b : UInt8) (r : Bytes) :
    literal name v (b :: (ascii name ++ r)) = some (v, r) := by
  have hlen : name.length = (ascii name).length := by simp [ascii, String.length_toList]
  have hpre : (ascii name).isPrefixOf (ascii name ++ r) = true :=
    List.isPrefixOf_iff_prefix.mpr (List.prefix_append _ _)
  unfold literal
  rw [List.tail_cons, if_pos hpre, List.drop_succ_cons, hlen, List.drop_left]

section Loops

variable {fuel depth : ℕ} {s t u : Bytes} {o : Option Node}

/-- The last element of a list. -/
theorem listLoop_last (h : decodeValue fuel (depth + 1) s = o.map fun n => (n, t))
    (ht : wsSkip t = 93 :: u) : listLoop (fuel + 1) depth s = o.map fun n => ([n], u) := by
  rw [listLoop, h]
  cases o with
  | none => rfl
  | some n =>
    show (if cur (wsSkip t) = 93 then some ([n], (wsSkip t).tail) else _) = _
    rw [ht]
    rfl

/-- An element with more behind it. -/
theorem listLoop_more (h : decodeValue fuel (depth + 1) s = o.map fun n => (n, t))
    (ht : wsSkip t = 44 :: u) : listLoop (fuel + 1) depth s = o.bind fun n =>
      (listLoop fuel depth (wsSkip u)).map fun q => (n :: q.1, q.2) := by
  rw [listLoop, h]
  cases o with
  | none => rfl
  | some n =>
    show (if cur (wsSkip t) = 93 then _ else (consume 44 (wsSkip t)).bind _) = _
    rw [ht]
    rfl

variable {k : List Piece} {v : Bytes}

/-- The last member of an object. -/
theorem objectLoop_last (hv : wsSkip v = 58 :: s)
    (h : decodeValue fuel (depth + 1) (wsSkip s) = o.map fun n => (n, t))
    (ht : wsSkip t = 125 :: u) : objectLoop (fuel + 1) depth (34 :: (texts k ++ 34 :: v)) =
      o.map fun n => ([(k.flatMap Piece.bytes, n)], u) := by
  rw [objectLoop, decodeString_texts]
  show (consume 58 (wsSkip v)).bind _ = _
  rw [hv]
  show (decodeValue fuel (depth + 1) (wsSkip s)).bind _ = _
  rw [h]
  cases o with
  | none => rfl
  | some n =>
    show (if cur (wsSkip t) = 125 then some ([(unescape _ _, n)], (wsSkip t).tail) else _) = _
    rw [ht, unescape_texts]
    rfl

/-- A member with more behind it. -/
theorem objectLoop_more (hv : wsSkip v = 58 :: s)
    (h : decodeValue fuel (depth + 1) (wsSkip s) = o.map fun n => (n, t))
    (ht : wsSkip t = 44 :: u) : objectLoop (fuel + 1) depth (34 :: (texts k ++ 34 :: v)) =
      o.bind fun n => (objectLoop fuel depth (wsSkip u)).map
        fun q => ((k.flatMap Piece.bytes, n) :: q.1, q.2) := by
  rw [objectLoop, decodeString_texts]
  show (consume 58 (wsSkip v)).bind _ = _
  rw [hv]
  show (decodeValue fuel (depth + 1) (wsSkip s)).bind _ = _
  rw [h]
  cases o with
  | none => rfl
  | some n =>
    show (if cur (wsSkip t) = 125 then _ else (consume 44 (wsSkip t)).bind _) = _
    rw [ht, unescape_texts]
    rfl

end Loops

/-- A value does not start with a closing bracket. -/
theorem elements_start (l : Elements) (r : Bytes) : cur (wsSkip (l.text ++ r)) ≠ 93 := by
  have h := l.not_empty r
  rw [wsSkip_eq]
  intro he
  cases hs : JsonText.skipWs (l.text ++ r) with
  | nil =>
    rw [hs] at he
    cases he
  | cons b t =>
    rw [hs] at he h
    exact h (congrArg some he)

theorem members_start (m : Members) (r : Bytes) : cur (wsSkip (m.text ++ r)) ≠ 125 := by
  have h := m.not_empty r
  rw [wsSkip_eq]
  intro he
  cases hs : JsonText.skipWs (m.text ++ r) with
  | nil =>
    rw [hs] at he
    cases he
  | cons b t =>
    rw [hs] at he h
    exact h (congrArg some he)

mutual

/-- The parser keeps what stands in the tree, or refuses the text. -/
theorem decodeValue_text (d : Doc) (depth : ℕ) {fuel : ℕ} (hf : costDoc d ≤ fuel) {r : Bytes}
    (hr : Ends r) : decodeValue fuel depth (d.text ++ r) = (loadedDoc depth d).map fun n => (n, r) := by
  obtain ⟨fuel, rfl⟩ : ∃ k, fuel = k + 2 := ⟨fuel - 2, by cases d <;> simp [costDoc] at hf ⊢ <;> omega⟩
  match d with
  | .null =>
    rw [decodeValue]
    exact literal_text "ull" .null 110 r
  | .bool true =>
    rw [decodeValue]
    exact literal_text "rue" (.bool true) 116 r
  | .bool false =>
    rw [decodeValue]
    exact literal_text "alse" (.bool false) 102 r
  | .number n =>
    rw [Doc.text, decodeValue_number, decodeNumber_text n hr, loadedDoc]
    split <;> rfl
  | .string s =>
    rw [Doc.text, List.cons_append, List.append_assoc, decodeValue]
    show (decodeString (34 :: (texts s ++ 34 :: r))).map _ = _
    rw [decodeString_texts]
    rfl
  | .emptyArray w =>
    have hend : wsSkip (w.1 ++ ([93] ++ r)) = 93 :: r := wsSkip_byte w (by decide) r
    rw [Doc.text, List.cons_append, List.append_assoc, decodeValue_list, hend, loadedDoc]
    split <;> rfl
  | .emptyObject w =>
    have hend : wsSkip (w.1 ++ ([125] ++ r)) = 125 :: r := wsSkip_byte w (by decide) r
    rw [Doc.text, List.cons_append, List.append_assoc, decodeValue_object, hend, loadedDoc]
    split <;> rfl
  | .array l =>
    have hl : costElements l ≤ fuel := by
      simp [costDoc] at hf
      omega
    rw [Doc.text, List.cons_append, decodeValue_list, if_neg (elements_start l r),
      listLoop_text l (depth + 1) hl r, loadedDoc]
    split
    · rfl
    · rw [Option.map_map, Option.map_map]
      rfl
  | .object m =>
    have hm : costMembers m ≤ fuel := by
      simp [costDoc] at hf
      omega
    rw [Doc.text, List.cons_append, decodeValue_object, if_neg (members_start m r),
      objectLoop_text m (depth + 1) hm r, loadedDoc]
    split
    · rfl
    · rw [Option.map_map, Option.map_map]
      rfl

theorem listLoop_text (l : Elements) (depth : ℕ) {fuel : ℕ} (hf : costElements l ≤ fuel) (r : Bytes) :
    listLoop fuel depth (wsSkip (l.text ++ r)) =
      (loadedElements (depth + 1) l).map fun ns => (ns, r) := by
  obtain ⟨fuel, rfl⟩ : ∃ k, fuel = k + 1 :=
    ⟨fuel - 1, by cases l <;> simp [costElements] at hf ⊢ <;> omega⟩
  match l with
  | .last w d w' =>
    have hd := decodeValue_text d (depth + 1) (show costDoc d ≤ fuel by simp [costElements] at hf; omega)
      (ends_blank w' (ends_cons (c := 93) rfl r))
    have htext : wsSkip ((Elements.last w d w').text ++ r) = d.text ++ (w'.1 ++ 93 :: r) := by
      rw [← wsSkip_doc w]
      simp [Elements.text]
    rw [htext, listLoop_last hd (wsSkip_byte w' (by decide) r), loadedElements, Option.map_map]
    rfl
  | .more w d w' l =>
    have hd := decodeValue_text d (depth + 1) (show costDoc d ≤ fuel by simp [costElements] at hf; omega)
      (ends_blank w' (ends_cons (c := 44) rfl (l.text ++ r)))
    have hl := listLoop_text l depth (show costElements l ≤ fuel by simp [costElements] at hf; omega) r
    have htext : wsSkip ((Elements.more w d w' l).text ++ r) =
        d.text ++ (w'.1 ++ 44 :: (l.text ++ r)) := by
      rw [← wsSkip_doc w]
      simp [Elements.text]
    rw [htext, listLoop_more hd (wsSkip_byte w' (by decide) _), hl, loadedElements]
    cases loadedDoc (depth + 1) d with
    | none => rfl
    | some n => cases loadedElements (depth + 1) l <;> rfl

theorem objectLoop_text (m : Members) (depth : ℕ) {fuel : ℕ} (hf : costMembers m ≤ fuel) (r : Bytes) :
    objectLoop fuel depth (wsSkip (m.text ++ r)) =
      (loadedMembers (depth + 1) m).map fun ns => (ns, r) := by
  obtain ⟨fuel, rfl⟩ : ∃ k, fuel = k + 1 :=
    ⟨fuel - 1, by cases m <;> simp [costMembers] at hf ⊢ <;> omega⟩
  match m with
  | .last w k w' w₁ d w₁' =>
    have hd := decodeValue_text d (depth + 1) (show costDoc d ≤ fuel by simp [costMembers] at hf; omega)
      (ends_blank w₁' (ends_cons (c := 125) rfl r))
    rw [← wsSkip_doc w₁] at hd
    have htext : wsSkip ((Members.last w k w' w₁ d w₁').text ++ r) = 34 :: (texts k ++ 34 ::
        (w'.1 ++ 58 :: (w₁.1 ++ (d.text ++ (w₁'.1 ++ 125 :: r))))) := by
      rw [← wsSkip_byte w (by decide)]
      simp [Members.text]
    rw [htext, objectLoop_last (wsSkip_byte w' (by decide) _) hd (wsSkip_byte w₁' (by decide) r),
      loadedMembers, Option.map_map]
    rfl
  | .more w k w' w₁ d w₁' m =>
    have hd := decodeValue_text d (depth + 1) (show costDoc d ≤ fuel by simp [costMembers] at hf; omega)
      (ends_blank w₁' (ends_cons (c := 44) rfl (m.text ++ r)))
    rw [← wsSkip_doc w₁] at hd
    have hm := objectLoop_text m depth (show costMembers m ≤ fuel by simp [costMembers] at hf; omega) r
    have htext : wsSkip ((Members.more w k w' w₁ d w₁' m).text ++ r) = 34 :: (texts k ++ 34 ::
        (w'.1 ++ 58 :: (w₁.1 ++ (d.text ++ (w₁'.1 ++ 44 :: (m.text ++ r)))))) := by
      rw [← wsSkip_byte w (by decide)]
      simp [Members.text]
    rw [htext, objectLoop_more (wsSkip_byte w' (by decide) _) hd (wsSkip_byte w₁' (by decide) _), hm,
      loadedMembers]
    cases loadedDoc (depth + 1) d with
    | none => rfl
    | some n => cases loadedMembers (depth + 1) m <;> rfl

end

/-! ## What the parser takes for a value -/

theorem cur_eq {s : Bytes} {c : UInt8} (h : cur s = c) (hc : c ≠ 0) : s = c :: s.tail := by
  cases s with
  | nil => exact absurd h.symm hc
  | cons b s => rw [← h]; rfl

/-- What was consumed was there. -/
theorem consume_inv {c : UInt8} (hc : c ≠ 0) {s t : Bytes} (h : consume c s = some t) : s = c :: t := by
  unfold consume at h
  split at h
  · cases h
  rename_i hcur
  cases h
  exact cur_eq (not_not.mp hcur) hc

theorem literal_inv {name : String} {v n : Node} {s t : Bytes} (h : literal name v s = some (n, t))
    {c : UInt8} (hc : c ≠ 0) (hcur : cur s = c) : s = c :: (ascii name ++ t) ∧ n = v := by
  obtain ⟨u, rfl⟩ : ∃ u, s = c :: u := ⟨s.tail, cur_eq hcur hc⟩
  unfold literal at h
  split at h
  · rename_i hpre
    cases h
    obtain ⟨u', rfl⟩ := List.isPrefixOf_iff_prefix.mp hpre
    have hlen : name.length = (ascii name).length := by simp [ascii, String.length_toList]
    rw [List.drop_succ_cons, hlen, List.drop_left]
    exact ⟨rfl, rfl⟩
  · cases h

theorem wsSkip_split (s : Bytes) : ∃ w : Blank, s = w.1 ++ wsSkip s := by
  rw [wsSkip_eq]
  exact skipWs_split s

/-- What was taken for a string is one. -/
theorem decodeString_tree {s : Bytes} {p : Bytes × Bool × Bytes} (h : decodeString s = some p) :
    ∃ ps, s = 34 :: (texts ps ++ 34 :: p.2.2) ∧ p.1 = texts ps ∧ p.2.1 = hasEscape ps := by
  obtain ⟨t, ht, hp⟩ := Option.bind_eq_some_iff.mp h
  obtain ⟨ps, rfl, h1, h2⟩ := stringLoop_tree hp
  exact ⟨ps, consume_inv (by decide) ht, h1, h2⟩

/-- What the parser keeps comes from a tree. -/
theorem decode_tree (fuel : ℕ) :
    (∀ depth s n t, decodeValue fuel depth s = some (n, t) →
      ∃ d : Doc, s = d.text ++ t ∧ loadedDoc depth d = some n) ∧
    (∀ depth s ns t, listLoop fuel depth s = some (ns, t) → ∀ w : Blank,
      ∃ l : Elements, w.1 ++ s = l.text ++ t ∧ loadedElements (depth + 1) l = some ns) ∧
    (∀ depth s ns t, objectLoop fuel depth s = some (ns, t) → ∀ w : Blank,
      ∃ m : Members, w.1 ++ s = m.text ++ t ∧ loadedMembers (depth + 1) m = some ns) := by
  induction fuel using Nat.strong_induction_on with
  | _ fuel ih =>
    refine ⟨fun depth s n t h => ?_, fun depth s ns t h w => ?_, fun depth s ns t h w => ?_⟩
    · cases fuel with
      | zero => simp [decodeValue] at h
      | succ fuel =>
        by_cases h91 : cur s = 91
        · obtain ⟨u, rfl⟩ : ∃ u, s = 91 :: u := ⟨s.tail, cur_eq h91 (by decide)⟩
          cases fuel with
          | zero => simp [decodeValue, decodeList, h91] at h
          | succ fuel =>
            rw [decodeValue_list] at h
            obtain ⟨w, hw⟩ := wsSkip_split u
            split at h
            · cases h
            rename_i hdepth
            split at h
            · rename_i hend
              cases h
              have hu := cur_eq hend (by decide)
              generalize (wsSkip u).tail = r at hu ⊢
              rw [hu] at hw
              refine ⟨.emptyArray w, ?_, by rw [loadedDoc, if_neg hdepth]⟩
              rw [hw]
              simp [Doc.text]
            · obtain ⟨⟨ns, t'⟩, hns, he⟩ := Option.map_eq_some_iff.mp h
              cases he
              obtain ⟨l, hl, hload⟩ := (ih fuel (by omega)).2.1 _ _ _ _ hns w
              refine ⟨.array l, ?_, by rw [loadedDoc, if_neg hdepth, hload]; rfl⟩
              rw [hw, hl]
              rfl
        by_cases h123 : cur s = 123
        · obtain ⟨u, rfl⟩ : ∃ u, s = 123 :: u := ⟨s.tail, cur_eq h123 (by decide)⟩
          cases fuel with
          | zero => simp [decodeValue, decodeObject, cur] at h
          | succ fuel =>
            rw [decodeValue_object] at h
            obtain ⟨w, hw⟩ := wsSkip_split u
            split at h
            · cases h
            rename_i hdepth
            split at h
            · rename_i hend
              cases h
              have hu := cur_eq hend (by decide)
              generalize (wsSkip u).tail = r at hu ⊢
              rw [hu] at hw
              refine ⟨.emptyObject w, ?_, by rw [loadedDoc, if_neg hdepth]⟩
              rw [hw]
              simp [Doc.text]
            · obtain ⟨⟨ns, t'⟩, hns, he⟩ := Option.map_eq_some_iff.mp h
              cases he
              obtain ⟨m, hm, hload⟩ := (ih fuel (by omega)).2.2 _ _ _ _ hns w
              refine ⟨.object m, ?_, by rw [loadedDoc, if_neg hdepth, hload]; rfl⟩
              rw [hw, hm]
              rfl
        rw [decodeValue, if_neg h91, if_neg h123] at h
        split at h
        · obtain ⟨p, hp, he⟩ := Option.map_eq_some_iff.mp h
          cases he
          obtain ⟨ps, hs, h1, h2⟩ := decodeString_tree hp
          refine ⟨.string ps, ?_, by rw [loadedDoc, h1, h2]⟩
          rw [hs]
          simp [Doc.text]
        split at h
        · rename_i hcur
          obtain ⟨rfl, rfl⟩ := literal_inv h (by decide) hcur
          exact ⟨.bool true, rfl, rfl⟩
        split at h
        · rename_i hcur
          obtain ⟨rfl, rfl⟩ := literal_inv h (by decide) hcur
          exact ⟨.bool false, rfl, rfl⟩
        split at h
        · rename_i hcur
          obtain ⟨rfl, rfl⟩ := literal_inv h (by decide) hcur
          exact ⟨.null, rfl, rfl⟩
        obtain ⟨⟨text, t'⟩, hp, he⟩ := Option.map_eq_some_iff.mp h
        cases he
        obtain ⟨n, hz, hs, rfl⟩ := decodeNumber_tree hp
        exact ⟨.number n, hs, by rw [loadedDoc, if_neg hz]⟩
    · cases fuel with
      | zero => simp [listLoop] at h
      | succ fuel =>
        rw [listLoop] at h
        obtain ⟨⟨n, r⟩, hn, hloop⟩ := Option.bind_eq_some_iff.mp h
        clear h
        obtain ⟨d, rfl, hd⟩ := (ih fuel (by omega)).1 _ _ _ _ hn
        obtain ⟨w', hw'⟩ := wsSkip_split r
        split at hloop
        · rename_i hend
          cases hloop
          have hu := cur_eq hend (by decide)
          simp only at hu hw'
          generalize (wsSkip r).tail = u at hu ⊢
          rw [hu] at hw'
          refine ⟨.last w d w', ?_, by rw [loadedElements, hd]; rfl⟩
          rw [hw']
          simp [Elements.text]
        · obtain ⟨u, hu, hmap⟩ := Option.bind_eq_some_iff.mp hloop
          obtain ⟨⟨ns', t'⟩, hns, he⟩ := Option.map_eq_some_iff.mp hmap
          cases he
          obtain ⟨w'', hw''⟩ := wsSkip_split u
          obtain ⟨l, hl, hload⟩ := (ih fuel (by omega)).2.1 _ _ _ _ hns w''
          have hr := consume_inv (by decide) hu
          rw [hr, hw'', hl] at hw'
          refine ⟨.more w d w' l, ?_, by rw [loadedElements, hd, hload]; rfl⟩
          rw [hw']
          simp [Elements.text]
    · cases fuel with
      | zero => simp [objectLoop] at h
      | succ fuel =>
        rw [objectLoop] at h
        obtain ⟨p, hp, hloop⟩ := Option.bind_eq_some_iff.mp h
        clear h
        obtain ⟨ps, rfl, h1, h2⟩ := decodeString_tree hp
        obtain ⟨s₁, hs₁, h⟩ := Option.bind_eq_some_iff.mp hloop
        obtain ⟨⟨n, r⟩, hn, h⟩ := Option.bind_eq_some_iff.mp h
        obtain ⟨d, hd₁, hd⟩ := (ih fuel (by omega)).1 _ _ _ _ hn
        obtain ⟨w₁, hw₁⟩ := wsSkip_split p.2.2
        rw [consume_inv (by decide) hs₁] at hw₁
        obtain ⟨w₂, hw₂⟩ := wsSkip_split s₁
        rw [hd₁] at hw₂
        obtain ⟨w', hw'⟩ := wsSkip_split r
        have hkey : unescape p.1 p.2.1 = ps.flatMap Piece.bytes := by
          rw [h1, h2, unescape_texts]
        simp only [hkey] at h
        split at h
        · rename_i hend
          cases h
          have hu := cur_eq hend (by decide)
          generalize (wsSkip r).tail = u at hu ⊢
          rw [hu] at hw'
          refine ⟨.last w ps w₁ w₂ d w', ?_, by rw [loadedMembers, hd]; rfl⟩
          rw [hw₁, hw₂, hw']
          simp [Members.text]
        · obtain ⟨u, hu, h⟩ := Option.bind_eq_some_iff.mp h
          obtain ⟨⟨ns', t'⟩, hns, he⟩ := Option.map_eq_some_iff.mp h
          cases he
          obtain ⟨w'', hw''⟩ := wsSkip_split u
          obtain ⟨m, hm, hload⟩ := (ih fuel (by omega)).2.2 _ _ _ _ hns w''
          rw [consume_inv (by decide) hu, hw'', hm] at hw'
          refine ⟨.more w ps w₁ w₂ d w' m, ?_, by rw [loadedMembers, hd, hload]; rfl⟩
          rw [hw₁, hw₂, hw']
          simp [Members.text]

/-! ## Accepted and kept -/

mutual

/-- What the parser keeps of a value it accepts. -/
def nodeOf : Doc → Node
  | .null => .null
  | .bool b => .bool b
  | .number n => .number n.text
  | .string s => .string (texts s) (hasEscape s)
  | .emptyArray _ => .list []
  | .array l => .list (nodesOf l)
  | .emptyObject _ => .object []
  | .object m => .object (namedOf m)

def nodesOf : Elements → List Node
  | .last _ d _ => [nodeOf d]
  | .more _ d _ l => nodeOf d :: nodesOf l

def namedOf : Members → List (Bytes × Node)
  | .last _ k _ _ d _ => [(k.flatMap Piece.bytes, nodeOf d)]
  | .more _ k _ _ d _ m => (k.flatMap Piece.bytes, nodeOf d) :: namedOf m

end

/-- A level of nesting takes two levels of the parser. -/
def Fits (depth height : ℕ) : Prop := height = 0 ∨ depth + 2 * height ≤ maxDepth + 1

instance (depth height : ℕ) : Decidable (Fits depth height) := inferInstanceAs (Decidable (_ ∨ _))

theorem fits_one (depth : ℕ) : Fits depth 1 ↔ ¬ maxDepth < depth + 1 := by
  unfold Fits
  omega

theorem fits_succ (depth height : ℕ) :
    Fits depth (height + 1) ↔ ¬ maxDepth < depth + 1 ∧ Fits (depth + 2) height := by
  unfold Fits
  omega

/-- 5000 levels, since each counts twice. -/
theorem fits_zero (height : ℕ) : Fits 0 height ↔ height ≤ 5000 := by
  unfold Fits maxDepth
  omega

theorem fits_max (depth a b : ℕ) : Fits depth (max a b) ↔ Fits depth a ∧ Fits depth b := by
  unfold Fits
  omega

mutual

/-- **A value is kept if it holds no zero with an exponent and is not nested too deep.** -/
theorem loaded_iff (d : Doc) (depth : ℕ) (n : Node) : loadedDoc depth d = some n ↔
    (∀ m ∈ d.numerals, ¬ ZeroExp m) ∧ Fits depth d.height ∧ n = nodeOf d := by
  match d with
  | .null => simp [loadedDoc, Doc.numerals, Doc.height, nodeOf, Fits, eq_comm]
  | .bool b => simp [loadedDoc, Doc.numerals, Doc.height, nodeOf, Fits, eq_comm]
  | .string s => simp [loadedDoc, Doc.numerals, Doc.height, nodeOf, Fits, eq_comm]
  | .number m =>
    rw [loadedDoc]
    split <;> simp_all [Doc.numerals, Doc.height, nodeOf, Fits, eq_comm]
  | .emptyArray w =>
    rw [loadedDoc, Doc.height, fits_one]
    split <;> simp_all [Doc.numerals, nodeOf, eq_comm]
  | .emptyObject w =>
    rw [loadedDoc, Doc.height, fits_one]
    split <;> simp_all [Doc.numerals, nodeOf, eq_comm]
  | .array l =>
    rw [loadedDoc, Doc.height, fits_succ, Doc.numerals, nodeOf]
    split
    · rename_i hdeep
      simp [hdeep]
    · rename_i hdeep
      simp only [Option.map_eq_some_iff, loadedElements_iff l]
      constructor
      · rintro ⟨_, ⟨hz, hf, rfl⟩, rfl⟩
        exact ⟨hz, ⟨hdeep, hf⟩, rfl⟩
      · rintro ⟨hz, ⟨_, hf⟩, rfl⟩
        exact ⟨_, ⟨hz, hf, rfl⟩, rfl⟩
  | .object m =>
    rw [loadedDoc, Doc.height, fits_succ, Doc.numerals, nodeOf]
    split
    · rename_i hdeep
      simp [hdeep]
    · rename_i hdeep
      simp only [Option.map_eq_some_iff, loadedMembers_iff m]
      constructor
      · rintro ⟨_, ⟨hz, hf, rfl⟩, rfl⟩
        exact ⟨hz, ⟨hdeep, hf⟩, rfl⟩
      · rintro ⟨hz, ⟨_, hf⟩, rfl⟩
        exact ⟨_, ⟨hz, hf, rfl⟩, rfl⟩

theorem loadedElements_iff (l : Elements) (depth : ℕ) (ns : List Node) :
    loadedElements depth l = some ns ↔
      (∀ m ∈ l.numerals, ¬ ZeroExp m) ∧ Fits depth l.height ∧ ns = nodesOf l := by
  match l with
  | .last w d w' =>
    simp only [loadedElements, Option.map_eq_some_iff, loaded_iff d, Elements.numerals,
      Elements.height, nodesOf]
    constructor
    · rintro ⟨_, ⟨hz, hf, rfl⟩, rfl⟩
      exact ⟨hz, hf, rfl⟩
    · rintro ⟨hz, hf, rfl⟩
      exact ⟨_, ⟨hz, hf, rfl⟩, rfl⟩
  | .more w d w' l =>
    simp only [loadedElements, Option.bind_eq_some_iff, Option.map_eq_some_iff, loaded_iff d,
      loadedElements_iff l, Elements.numerals, Elements.height, nodesOf, fits_max,
      List.forall_mem_append]
    constructor
    · rintro ⟨_, ⟨hz, hf, rfl⟩, _, ⟨hz', hf', rfl⟩, rfl⟩
      exact ⟨⟨hz, hz'⟩, ⟨hf, hf'⟩, rfl⟩
    · rintro ⟨⟨hz, hz'⟩, ⟨hf, hf'⟩, rfl⟩
      exact ⟨_, ⟨hz, hf, rfl⟩, _, ⟨hz', hf', rfl⟩, rfl⟩

theorem loadedMembers_iff (m : Members) (depth : ℕ) (ns : List (Bytes × Node)) :
    loadedMembers depth m = some ns ↔
      (∀ x ∈ m.numerals, ¬ ZeroExp x) ∧ Fits depth m.height ∧ ns = namedOf m := by
  match m with
  | .last w k w' w₁ d w₁' =>
    simp only [loadedMembers, Option.map_eq_some_iff, loaded_iff d, Members.numerals,
      Members.height, namedOf]
    constructor
    · rintro ⟨_, ⟨hz, hf, rfl⟩, rfl⟩
      exact ⟨hz, hf, rfl⟩
    · rintro ⟨hz, hf, rfl⟩
      exact ⟨_, ⟨hz, hf, rfl⟩, rfl⟩
  | .more w k w' w₁ d w₁' m =>
    simp only [loadedMembers, Option.bind_eq_some_iff, Option.map_eq_some_iff, loaded_iff d,
      loadedMembers_iff m, Members.numerals, Members.height, namedOf, fits_max,
      List.forall_mem_append]
    constructor
    · rintro ⟨_, ⟨hz, hf, rfl⟩, _, ⟨hz', hf', rfl⟩, rfl⟩
      exact ⟨⟨hz, hz'⟩, ⟨hf, hf'⟩, rfl⟩
    · rintro ⟨⟨hz, hz'⟩, ⟨hf, hf'⟩, rfl⟩
      exact ⟨_, ⟨hz, hf, rfl⟩, _, ⟨hz', hf', rfl⟩, rfl⟩

end

mutual

/-- A call is paid for by the bytes it reads. -/
theorem costDoc_le (d : Doc) : costDoc d ≤ 3 * d.text.length := by
  match d with
  | .null => decide
  | .bool true => decide
  | .bool false => decide
  | .number n =>
    have hne := List.length_pos_iff.mpr n.intSome
    simp only [costDoc, Doc.text, Numeral.text, List.length_append]
    omega
  | .string s => simp [costDoc, Doc.text]; omega
  | .emptyArray w => simp [costDoc, Doc.text]; omega
  | .emptyObject w => simp [costDoc, Doc.text]; omega
  | .array l =>
    have := costElements_le l
    simp only [costDoc, Doc.text, List.length_cons]
    omega
  | .object m =>
    have := costMembers_le m
    simp only [costDoc, Doc.text, List.length_cons]
    omega

theorem costElements_le (l : Elements) : costElements l ≤ 3 * l.text.length := by
  match l with
  | .last w d w' =>
    have := costDoc_le d
    simp only [costElements, Elements.text, List.length_append, List.length_cons]
    omega
  | .more w d w' l =>
    have := costDoc_le d
    have := costElements_le l
    simp only [costElements, Elements.text, List.length_append, List.length_cons]
    omega

theorem costMembers_le (m : Members) : costMembers m ≤ 3 * m.text.length := by
  match m with
  | .last w k w' w₁ d w₁' =>
    have := costDoc_le d
    simp only [costMembers, Members.text, List.length_append, List.length_cons]
    omega
  | .more w k w' w₁ d w₁' m =>
    have := costDoc_le d
    have := costMembers_le m
    simp only [costMembers, Members.text, List.length_append, List.length_cons]
    omega

end

theorem ends_of_cur {r : Bytes} (h : cur r = 0) : Ends r := by
  cases r with
  | nil => exact ends_nil
  | cons b r =>
    obtain rfl : b = 0 := h
    exact ends_cons rfl r

/-- Behind the value: white space, and the end or a NUL. -/
theorem load_text (w : Blank) (d : Doc) (w' : Blank) {r : Bytes} (hr : cur r = 0) :
    load (w.1 ++ (d.text ++ (w'.1 ++ r))) = loadedDoc 0 d := by
  have hends := ends_blank w' (ends_of_cur hr)
  have hcost : costDoc d ≤ fuelFor (d.text ++ (w'.1 ++ r)) := by
    have := costDoc_le d
    unfold fuelFor
    rw [List.length_append]
    omega
  have hskip : cur (wsSkip (w'.1 ++ r)) = 0 := by
    cases r with
    | nil =>
      have h := JsonSyntax.skipWs_blank w' []
      rw [wsSkip_eq, h]
      rfl
    | cons b r =>
      obtain rfl : b = 0 := hr
      rw [wsSkip_byte w' (by decide)]
      rfl
  unfold load
  rw [wsSkip_doc, decodeValue_text d 0 hcost hends]
  cases loadedDoc 0 d with
  | none => rfl
  | some n =>
    show (if cur (wsSkip (w'.1 ++ r)) ≠ 0 then none else some n) = some n
    rw [if_neg (not_not.mpr hskip)]

/-- A body that is the text of a tree. -/
theorem load_doc (w : Blank) (d : Doc) (w' : Blank) :
    load (w.1 ++ (d.text ++ w'.1)) = loadedDoc 0 d := by
  have h := load_text w d w' (r := []) rfl
  rwa [List.append_nil] at h

/-- And every body that is accepted is one, up to the NUL that ends it. -/
theorem load_tree {s : Bytes} {n : Node} (h : load s = some n) :
    ∃ (w : Blank) (d : Doc) (w' : Blank) (r : Bytes), s = w.1 ++ (d.text ++ (w'.1 ++ r)) ∧
      cur r = 0 ∧ loadedDoc 0 d = some n := by
  obtain ⟨w, hw⟩ := wsSkip_split s
  obtain ⟨⟨m, t⟩, hm, hend⟩ := Option.bind_eq_some_iff.mp h
  obtain ⟨d, hd, hload⟩ := (decode_tree _).1 _ _ _ _ hm
  obtain ⟨w', hw'⟩ := wsSkip_split t
  split at hend
  · cases hend
  rename_i hcur
  cases hend
  refine ⟨w, d, w', wsSkip t, ?_, not_not.mp hcur, hload⟩
  rw [hd, hw'] at hw
  exact hw

/-- **The bodies that are accepted, and what is kept of them**: a value, white
space around it, whatever stands behind a NUL; at most 5000 levels deep, and
without a zero that has an exponent right behind it. -/
theorem load_iff (s : Bytes) (n : Node) : load s = some n ↔
    ∃ (w : Blank) (d : Doc) (w' : Blank) (r : Bytes), s = w.1 ++ (d.text ++ (w'.1 ++ r)) ∧
      cur r = 0 ∧ (∀ m ∈ d.numerals, ¬ ZeroExp m) ∧ d.height ≤ 5000 ∧ n = nodeOf d := by
  constructor
  · intro h
    obtain ⟨w, d, w', r, hs, hr, hload⟩ := load_tree h
    obtain ⟨hz, hf, hn⟩ := (loaded_iff d 0 n).mp hload
    exact ⟨w, d, w', r, hs, hr, hz, (fits_zero _).mp hf, hn⟩
  · rintro ⟨w, d, w', r, rfl, hr, hz, hf, hn⟩
    rw [load_text w d w' hr]
    exact (loaded_iff d 0 n).mpr ⟨hz, (fits_zero _).mpr hf, hn⟩

end ExpenseTracker.L3.CrowLoad
