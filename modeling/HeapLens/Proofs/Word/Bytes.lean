import HeapLens.Proofs.Target.Members

/-!
Byte strings that are rows of words, and byte strings that stand somewhere in longer ones. A part of
either is found again by cutting the longer string at its ends.
-/
namespace HeapLens.Bytes

/-- Words one behind the other. -/
def ofWords (ws : List UInt64) : Bytes := ws.flatMap ofWord

theorem ofWord_eight (w : UInt64) : ∃ a b c d e f g h, ofWord w = [a, b, c, d, e, f, g, h] :=
  ⟨_, _, _, _, _, _, _, _, rfl⟩

theorem words_append (w : UInt64) (rest : Bytes) : words (ofWord w ++ rest) = w :: words rest := by
  have whole := word_ofWord w
  obtain ⟨a, b, c, d, e, f, g, h, row⟩ := ofWord_eight w
  rw [row] at whole ⊢
  exact congrArg (· :: words rest) whole

theorem limbs_append (w : UInt64) (rest : Bytes) : limbs (ofWord w ++ rest) = w :: limbs rest := by
  have whole := word_ofWord w
  obtain ⟨a, b, c, d, e, f, g, h, row⟩ := ofWord_eight w
  rw [row] at whole ⊢
  exact congrArg (· :: limbs rest) whole

theorem words_ofWords (ws : List UInt64) : words (ofWords ws) = ws := by
  induction ws with
  | nil => rfl
  | cons w ws ih => rw [ofWords, List.flatMap_cons, words_append, ← ofWords, ih]

theorem limbs_ofWords (ws : List UInt64) : limbs (ofWords ws) = ws := by
  induction ws with
  | nil => rfl
  | cons w ws ih => rw [ofWords, List.flatMap_cons, limbs_append, ← ofWords, ih]

theorem length_ofWords (ws : List UInt64) : (ofWords ws).length = 8 * ws.length := by
  induction ws with
  | nil => rfl
  | cons w ws ih =>
    rw [ofWords, List.flatMap_cons, List.length_append, ← ofWords, ih, List.length_cons, ofWord,
      length_ofNat]
    omega

theorem take_ofWords (ws : List UInt64) (count : Nat) :
    (ofWords ws).take (8 * count) = ofWords (ws.take count) := by
  induction ws generalizing count with
  | nil => simp [ofWords]
  | cons w ws ih =>
    cases count with
    | zero => rfl
    | succ count =>
      have eight : (ofWord w).length = 8 := length_ofNat 8 _
      rw [ofWords, List.flatMap_cons, List.take_append, List.take_of_length_le (by omega), eight,
        ← ofWords, Nat.mul_succ, Nat.add_sub_cancel, ih, List.take_succ_cons, ofWords, ofWords,
        List.flatMap_cons]

theorem drop_ofWords_append (ws : List UInt64) (rest : Bytes) {count : Nat}
    (inside : count ≤ ws.length) :
    (ofWords ws ++ rest).drop (8 * count) = ofWords (ws.drop count) ++ rest := by
  induction ws generalizing count with
  | nil =>
    obtain rfl := Nat.le_zero.mp inside
    rfl
  | cons w ws ih =>
    cases count with
    | zero => rfl
    | succ count =>
      have eight : (ofWord w).length = 8 := length_ofNat 8 _
      rw [ofWords, List.flatMap_cons, ← ofWords, List.append_assoc, Nat.mul_succ, Nat.add_comm,
        ← List.drop_drop, List.drop_left' eight, ih (Nat.le_of_succ_le_succ inside),
        List.drop_succ_cons]

theorem wordAt_ofWords_append {ws : List UInt64} {w : UInt64} (count : Nat)
    (there : ws[count]? = some w) (rest : Bytes) :
    wordAt (ofWords ws ++ rest) (8 * count) = w := by
  obtain ⟨inside, rfl⟩ := List.getElem?_eq_some_iff.mp there
  have eight : (ofWord ws[count]).length = 8 := length_ofNat 8 _
  rw [wordAt, drop_ofWords_append ws rest (Nat.le_of_lt inside), List.drop_eq_getElem_cons inside,
    ofWords, List.flatMap_cons, List.append_assoc, ← word_take _ (Nat.le_refl 8),
    List.take_left' eight, word_ofWord]

theorem wordAt_ofWords {ws : List UInt64} {w : UInt64} (count : Nat)
    (there : ws[count]? = some w) : wordAt (ofWords ws) (8 * count) = w := by
  have whole := wordAt_ofWords_append count there []
  rwa [List.append_nil] at whole

theorem wordAt_take (bytes : Bytes) {offset count : Nat} (inside : offset + 8 ≤ count) :
    wordAt (bytes.take count) offset = wordAt bytes offset := by
  rw [wordAt, wordAt, List.drop_take, word_take _ (by omega)]

theorem take_of_front {part bytes : Bytes} (front : part <+: bytes) {count : Nat}
    (few : count ≤ part.length) : bytes.take count = part.take count := by
  obtain ⟨rest, rfl⟩ := front
  exact List.take_append_of_le_length few

/-- Data that stands in a byte string is found in what is left of it when the end is cut off. -/
theorem slice?_of_front {part bytes : Bytes} {start count size : Nat}
    (front : part <+: bytes.drop start) (few : count ≤ part.length) (inside : start + count ≤ size)
    (short : size ≤ bytes.length) : slice? (bytes.take size) start count = some (part.take count) := by
  have cut : (bytes.take size).length = size := List.length_take_of_le short
  rw [slice?_inside (by omega), List.drop_take, List.take_take, Nat.min_eq_left (by omega),
    take_of_front front few]

end HeapLens.Bytes
