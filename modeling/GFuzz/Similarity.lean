import GFuzz.Runtime

/-!
# Per-variable similarity

`gfuzz_calculate_var_similarity` compares one slot of the current snapshot with
the same slot of a historical one.  The upper byte of a word is an ad-hoc tag,
and the function classifies the pair by it:

* zero on either side: no comparison, `0`;
* both words with bit 24 set: a char pair, compared by the distance of the low
  bytes (`charSimilarity`);
* both upper bytes in `[1, 254]`: a string pair, compared by the Hamming
  distance of the 24-bit hashes and the difference of the lengths
  (`stringSimilarity`);
* otherwise a numeric or pointer pair, compared for equality
  (`numericSimilarity`).

The three formulas are named definitions, each the block of the source that
computes it, and `gfuzzCalculateVarSimilarity` is the source's chain of tests
over them.

## Bounds

No formula is normalised to `[0, 1]`: a char difference is divided by `127`,
not `255`, and the Hamming distance is divided by the shorter length, which can
be `1`.  `gfuzzCalculateVarSimilarity_le` bounds every comparison by
`maxVarSimilarity = W_string · (24·α + 253/255·β)`: a length-1 string word against a
length-254 one with complementary hashes reaches it.

## The distance

`gfuzz_levenshtein_distance` is no edit distance: it counts the differing bits of the two
words, and is a metric on them (`levenshtein_is_hamming_metric`).
-/

namespace GFuzz

/-! ## Hamming distance -/

/-- The loop of `gfuzz_levenshtein_distance`: `while (xor_val) { dist += xor_val & 1;
xor_val >>= 1; }`, run for at most `fuel` rounds.  A `uint32_t` is zero after 32 shifts, so fuel `32` never
stops it early: the 32 rounds count every set bit of the word (`hammingLoop_eq_bitCount`). -/
def hammingLoop : Nat → UInt32 → Nat → Nat
  | 0, _, dist => dist
  | fuel + 1, x, dist => if x = 0 then dist else hammingLoop fuel (x >>> 1) (dist + (x &&& 1).toNat)

/-- `gfuzz_levenshtein_distance`: the Hamming distance of the two hashes, the source's
stand-in for an edit distance. -/
def gfuzzLevenshteinDistance (hash1 hash2 : UInt32) : Nat :=
  hammingLoop 32 (hash1 ^^^ hash2) 0

theorem UInt32.toNat_shiftRight_one (x : UInt32) : (x >>> 1).toNat = x.toNat / 2 := by
  show (x.toBitVec >>> ((1 : UInt32) % 32).toBitVec).toNat = _
  simp [BitVec.toNat_ushiftRight, Nat.shiftRight_eq_div_pow, UInt32.toNat]

theorem UInt32.toNat_and_one (x : UInt32) : (x &&& 1).toNat = x.toNat % 2 := by
  simp [Nat.and_one_is_mod]

theorem UInt32.toNat_pos_of_ne_zero {x : UInt32} (h : x ≠ 0) : 0 < x.toNat :=
  Nat.pos_of_ne_zero fun h0 => h (UInt32.toNat.inj (h0.trans UInt32.toNat_zero.symm))

/-- A word below `2^k` has at most `k` set bits. -/
theorem hammingLoop_le (fuel : Nat) :
    ∀ (x : UInt32) (dist k : Nat), x.toNat < 2 ^ k → hammingLoop fuel x dist ≤ dist + k := by
  induction fuel with
  | zero => intro x dist k _; exact Nat.le_add_right _ _
  | succ n ih =>
    intro x dist k hx
    unfold hammingLoop
    split_ifs with h0
    · exact Nat.le_add_right _ _
    · have hpos := UInt32.toNat_pos_of_ne_zero h0
      obtain ⟨j, rfl⟩ : ∃ j, k = j + 1 :=
        Nat.exists_eq_succ_of_ne_zero fun hk => by subst hk; omega
      have hj : (x >>> 1).toNat < 2 ^ j := by
        rw [UInt32.toNat_shiftRight_one]; rw [pow_succ] at hx; omega
      calc hammingLoop n (x >>> 1) (dist + (x &&& 1).toNat)
          ≤ dist + (x &&& 1).toNat + j := ih _ _ j hj
        _ ≤ dist + (j + 1) := by rw [UInt32.toNat_and_one]; omega

/-- Two 24-bit hashes differ in at most 24 bits. -/
theorem gfuzzLevenshteinDistance_le_of_lt {hash1 hash2 : UInt32} (h1 : hash1.toNat < 2 ^ 24)
    (h2 : hash2.toNat < 2 ^ 24) : gfuzzLevenshteinDistance hash1 hash2 ≤ 24 := by
  have hx : (hash1 ^^^ hash2).toNat < 2 ^ 24 := by
    show (hash1.toBitVec ^^^ hash2.toBitVec).toNat < _
    rw [BitVec.toNat_xor]
    exact Nat.xor_lt_two_pow h1 h2
  simpa using hammingLoop_le 32 _ 0 24 hx

theorem toNat_and_lowMask_lt (w : UInt32) : (w &&& 0x00FFFFFF).toNat < 2 ^ 24 := by
  rw [UInt32.and_toNat]
  exact Nat.and_lt_two_pow _ (by decide)

/-! ## The three formulas -/

/-- `(len1 < len2) ? len1 : len2`. -/
def uMin (x y : UInt32) : UInt32 := if x < y then x else y

/-- `(len1 > len2) ? (len1 - len2) : (len2 - len1)`. -/
def uDiff (x y : UInt32) : UInt32 := if x > y then x - y else y - x

theorem uMin_toNat (x y : UInt32) : (uMin x y).toNat = min x.toNat y.toNat := by
  unfold uMin
  split_ifs with h
  · exact (min_eq_left (le_of_lt h)).symm
  · exact (min_eq_right (not_lt.mp h)).symm

theorem uDiff_toNat (x y : UInt32) :
    (uDiff x y).toNat = x.toNat - y.toNat + (y.toNat - x.toNat) := by
  unfold uDiff
  split_ifs with h
  · have h' : y.toNat < x.toNat := h
    rw [UInt32.toNat_sub_of_le x y (Nat.le_of_lt h')]; omega
  · have h' : x.toNat ≤ y.toNat := Nat.not_lt.mp h
    rw [UInt32.toNat_sub_of_le y x h']; omega

/-- `len = (w >> 24) & 0xFF`: the upper byte, read as a string length. -/
def tagByte (w : UInt32) : UInt32 := (w >>> 24) &&& 0xFF

section Formulas

variable {K : Type*} [LinearOrderedField K]

/-- The char block: `c1 = current & 0xFF`, `c2 = historical & 0xFF`,
`fabs(c1 - c2) / 127.0 * GFUZZ_WEIGHT_CHAR`. -/
def charSimilarity (current historical : UInt32) : K :=
  let c1 : UInt8 := (current &&& 0xFF).toUInt8
  let c2 : UInt8 := (historical &&& 0xFF).toUInt8
  |(c1.toNat : K) - c2.toNat| / 127 * gfuzzWeightChar

/-- The string block: Hamming distance of the low 24 bits over the shorter length, mixed with
the length difference over 255. -/
def stringSimilarity (current historical : UInt32) : K :=
  let len1 := tagByte current
  let len2 := tagByte historical
  let hash1 := current &&& 0x00FFFFFF
  let hash2 := historical &&& 0x00FFFFFF
  let levDist := gfuzzLevenshteinDistance hash1 hash2
  let minLen := uMin len1 len2
  let lenDiff := uDiff len1 len2
  let levSim : K := if minLen > 0 then (levDist : K) / minLen.toNat else 0
  let lenSim : K := (lenDiff.toNat : K) / 255
  let strSim := levSim * gfuzzStringLevAlpha + lenSim * gfuzzStringLenBeta
  strSim * gfuzzWeightString

/-- The string block over natural numbers: `l₁`, `l₂` the two lengths. -/
theorem stringSimilarity_eq (a b : UInt32) :
    (stringSimilarity a b : K) =
      ((if 0 < min (tagByte a).toNat (tagByte b).toNat then
          (gfuzzLevenshteinDistance (a &&& 0x00FFFFFF) (b &&& 0x00FFFFFF) : K) /
            (min (tagByte a).toNat (tagByte b).toNat : ℕ) else 0) * gfuzzStringLevAlpha +
        (((tagByte a).toNat - (tagByte b).toNat + ((tagByte b).toNat - (tagByte a).toNat) : ℕ) : K) /
          255 * gfuzzStringLenBeta) * gfuzzWeightString := by
  simp only [stringSimilarity, ← uMin_toNat, ← uDiff_toNat]
  rfl

/-- The numeric block: `(current == historical ? 0.0 : 1.0) * GFUZZ_WEIGHT_NUMERIC`. -/
def numericSimilarity (current historical : UInt32) : K :=
  (if current = historical then 0 else 1) * gfuzzWeightNumeric

/-- `gfuzz_calculate_var_similarity`. -/
def gfuzzCalculateVarSimilarity (current historical : UInt32) : K :=
  if current = 0 ∨ historical = 0 then 0
  else if current &&& 0x01000000 ≠ 0 ∧ historical &&& 0x01000000 ≠ 0 then
    charSimilarity current historical
  else if tagByte current > 0 ∧ tagByte historical > 0 ∧ tagByte current < 255 ∧
      tagByte historical < 255 then
    stringSimilarity current historical
  else numericSimilarity current historical

/-- The largest value a comparison takes: a length-1 and a length-254 string whose hashes
differ in all 24 bits. -/
def maxVarSimilarity : K :=
  gfuzzWeightString * (24 * gfuzzStringLevAlpha + 253 / 255 * gfuzzStringLenBeta)

/-! ## Bounds -/

theorem charSimilarity_nonneg (a b : UInt32) : 0 ≤ (charSimilarity a b : K) := by
  unfold charSimilarity gfuzzWeightChar; positivity

theorem stringSimilarity_nonneg (a b : UInt32) : 0 ≤ (stringSimilarity a b : K) := by
  rw [stringSimilarity_eq]
  unfold gfuzzStringLevAlpha gfuzzStringLenBeta gfuzzWeightString
  split_ifs <;> positivity

theorem numericSimilarity_nonneg (a b : UInt32) : 0 ≤ (numericSimilarity a b : K) := by
  unfold numericSimilarity gfuzzWeightNumeric; split_ifs <;> norm_num

theorem gfuzzCalculateVarSimilarity_nonneg (a b : UInt32) :
    0 ≤ (gfuzzCalculateVarSimilarity a b : K) := by
  unfold gfuzzCalculateVarSimilarity
  split_ifs
  · exact le_rfl
  · exact charSimilarity_nonneg a b
  · exact stringSimilarity_nonneg a b
  · exact numericSimilarity_nonneg a b

theorem charSimilarity_le (a b : UInt32) : (charSimilarity a b : K) ≤ maxVarSimilarity := by
  have hb : ∀ c : UInt8, (0 : K) ≤ c.toNat ∧ (c.toNat : K) ≤ 255 := fun c =>
    ⟨Nat.cast_nonneg _, by exact_mod_cast Nat.le_of_lt_succ c.toNat_lt_size⟩
  have h1 := hb (a &&& 0xFF).toUInt8
  have h2 := hb (b &&& 0xFF).toUInt8
  have hd : |((a &&& 0xFF).toUInt8.toNat : K) - (b &&& 0xFF).toUInt8.toNat| ≤ 255 :=
    abs_sub_le_iff.mpr ⟨by linarith, by linarith⟩
  unfold charSimilarity maxVarSimilarity gfuzzWeightChar gfuzzWeightString gfuzzStringLevAlpha
    gfuzzStringLenBeta
  calc |((a &&& 0xFF).toUInt8.toNat : K) - (b &&& 0xFF).toUInt8.toNat| / 127 * 0.8
      ≤ 255 / 127 * 0.8 := by gcongr
    _ ≤ 1.2 * (24 * 0.6 + 253 / 255 * 0.4) := by norm_num

theorem numericSimilarity_le (a b : UInt32) : (numericSimilarity a b : K) ≤ maxVarSimilarity := by
  unfold numericSimilarity maxVarSimilarity gfuzzWeightNumeric gfuzzWeightString
    gfuzzStringLevAlpha gfuzzStringLenBeta
  split_ifs <;> norm_num

/-- With both tags in `[1, 254]` the shorter length is at least `1` and the lengths differ by
at most `253`. -/
theorem stringSimilarity_le {a b : UInt32} (ha : 0 < (tagByte a).toNat)
    (hb : 0 < (tagByte b).toNat) (ha' : (tagByte a).toNat < 255) (hb' : (tagByte b).toNat < 255) :
    (stringSimilarity a b : K) ≤ maxVarSimilarity := by
  have hlev := gfuzzLevenshteinDistance_le_of_lt (toNat_and_lowMask_lt a) (toNat_and_lowMask_lt b)
  rw [stringSimilarity_eq, if_pos (lt_min ha hb)]
  generalize gfuzzLevenshteinDistance (a &&& 0x00FFFFFF) (b &&& 0x00FFFFFF) = lev at hlev ⊢
  generalize (tagByte a).toNat = l₁ at *
  generalize (tagByte b).toNat = l₂ at *
  have hmin : (1 : K) ≤ (min l₁ l₂ : ℕ) := by exact_mod_cast le_min ha hb
  have hdist : ((l₁ - l₂ + (l₂ - l₁) : ℕ) : K) ≤ 253 := by exact_mod_cast (by omega)
  have hlev' : (lev : K) / (min l₁ l₂ : ℕ) ≤ 24 := by
    rw [div_le_iff₀ (zero_lt_one.trans_le hmin)]
    calc (lev : K) ≤ 24 := by exact_mod_cast hlev
      _ ≤ 24 * (min l₁ l₂ : ℕ) := le_mul_of_one_le_right (by norm_num) hmin
  unfold maxVarSimilarity gfuzzWeightString gfuzzStringLevAlpha gfuzzStringLenBeta
  calc ((lev : K) / (min l₁ l₂ : ℕ) * 0.6 + ((l₁ - l₂ + (l₂ - l₁) : ℕ) : K) / 255 * 0.4) * 1.2
      ≤ (24 * 0.6 + 253 / 255 * 0.4) * 1.2 := by gcongr
    _ = 1.2 * (24 * 0.6 + 253 / 255 * 0.4) := mul_comm _ _

/-- **Every comparison lies in `[0, maxVarSimilarity]`.** -/
theorem gfuzzCalculateVarSimilarity_le (a b : UInt32) :
    (gfuzzCalculateVarSimilarity a b : K) ≤ maxVarSimilarity := by
  unfold gfuzzCalculateVarSimilarity
  split_ifs with h0 hc hs
  · unfold maxVarSimilarity gfuzzWeightString gfuzzStringLevAlpha gfuzzStringLenBeta; norm_num
  · exact charSimilarity_le a b
  · exact stringSimilarity_le hs.1 hs.2.1 hs.2.2.1 hs.2.2.2
  · exact numericSimilarity_le a b

/-! ## Symmetry and the zero diagonal

Every test of the classifier and every formula treats its two words alike, so the measure is
symmetric; on equal words each formula compares a value with itself and gives `0`. -/

theorem UInt32.xor_comm (a b : UInt32) : a ^^^ b = b ^^^ a :=
  UInt32.eq_of_toBitVec_eq (BitVec.xor_comm _ _)

theorem UInt32.xor_self (a : UInt32) : a ^^^ a = 0 :=
  UInt32.eq_of_toBitVec_eq BitVec.xor_self

theorem gfuzzLevenshteinDistance_comm (hash1 hash2 : UInt32) :
    gfuzzLevenshteinDistance hash1 hash2 = gfuzzLevenshteinDistance hash2 hash1 := by
  unfold gfuzzLevenshteinDistance; rw [UInt32.xor_comm]

theorem gfuzzLevenshteinDistance_self (hash : UInt32) : gfuzzLevenshteinDistance hash hash = 0 := by
  unfold gfuzzLevenshteinDistance; rw [UInt32.xor_self]; rfl

theorem charSimilarity_comm (a b : UInt32) : (charSimilarity a b : K) = charSimilarity b a := by
  simp only [charSimilarity]; rw [abs_sub_comm]

theorem stringSimilarity_comm (a b : UInt32) : (stringSimilarity a b : K) = stringSimilarity b a := by
  rw [stringSimilarity_eq, stringSimilarity_eq, min_comm, gfuzzLevenshteinDistance_comm,
    Nat.add_comm ((tagByte a).toNat - (tagByte b).toNat)]

theorem numericSimilarity_comm (a b : UInt32) :
    (numericSimilarity a b : K) = numericSimilarity b a := by
  by_cases h : a = b <;> simp [numericSimilarity, h, Ne.symm]

theorem gfuzzCalculateVarSimilarity_comm (a b : UInt32) :
    (gfuzzCalculateVarSimilarity a b : K) = gfuzzCalculateVarSimilarity b a := by
  have hz : (b = 0 ∨ a = 0) ↔ (a = 0 ∨ b = 0) := or_comm
  have hc : (b &&& 0x01000000 ≠ 0 ∧ a &&& 0x01000000 ≠ 0) ↔
      (a &&& 0x01000000 ≠ 0 ∧ b &&& 0x01000000 ≠ 0) := and_comm
  have hs : (tagByte b > 0 ∧ tagByte a > 0 ∧ tagByte b < 255 ∧ tagByte a < 255) ↔
      (tagByte a > 0 ∧ tagByte b > 0 ∧ tagByte a < 255 ∧ tagByte b < 255) :=
    ⟨fun ⟨h1, h2, h3, h4⟩ => ⟨h2, h1, h4, h3⟩, fun ⟨h1, h2, h3, h4⟩ => ⟨h2, h1, h4, h3⟩⟩
  simp only [gfuzzCalculateVarSimilarity, hz, hc, hs, charSimilarity_comm a b,
    stringSimilarity_comm a b, numericSimilarity_comm a b]

theorem gfuzzCalculateVarSimilarity_self (a : UInt32) : (gfuzzCalculateVarSimilarity a a : K) = 0 := by
  unfold gfuzzCalculateVarSimilarity
  split_ifs
  · rfl
  · simp [charSimilarity]
  · simp [stringSimilarity_eq, gfuzzLevenshteinDistance_self]
  · simp [numericSimilarity]

/-- **The per-variable measure is a symmetric function that vanishes on equal states**, and so
is the Hamming distance it calls. -/
theorem var_similarity_symmetric_vanishing (a b : UInt32) :
    gfuzzLevenshteinDistance a b = gfuzzLevenshteinDistance b a ∧ gfuzzLevenshteinDistance a a = 0 ∧
      (gfuzzCalculateVarSimilarity a b : K) = gfuzzCalculateVarSimilarity b a ∧
      (gfuzzCalculateVarSimilarity a a : K) = 0 :=
  ⟨gfuzzLevenshteinDistance_comm a b, gfuzzLevenshteinDistance_self a,
    gfuzzCalculateVarSimilarity_comm a b, gfuzzCalculateVarSimilarity_self a⟩

/-! ## Words of the string recorder

The classifier tests bit 24 before the tag byte, and bit 24 is the low bit of a
string word's length: every string of odd length is classified as a char.  For
`"abc"` against `"abd"` the code computes `1/127 · 0.8` from the low bytes of
the hashes, where the string formula gives `0.72`. -/

/-- The words `__gfuzz_record_string` stores for `"a"`, `"ab"`, `"abc"` and `"abd"`; for `"ab"`
the hash is `5381·33 + 97 = 177670`, then `177670·33 + 98 = 5863208 = 0x597728`, length 2. -/
theorem stringWord_a : Runtime.stringWord [97] = 0x0102B606 := by decide
theorem stringWord_ab : Runtime.stringWord [97, 98] = 0x02597728 := by decide
theorem stringWord_abc : Runtime.stringWord [97, 98, 99] = 0x03885C8B := by decide
theorem stringWord_abd : Runtime.stringWord [97, 98, 100] = 0x03885C8C := by decide

/-- `"a"` against `"ab"`: the hashes differ in 12 bits, over a shorter length of 1. -/
theorem gfuzzCalculateVarSimilarity_a_ab :
    (gfuzzCalculateVarSimilarity (Runtime.stringWord [97]) (Runtime.stringWord [97, 98]) : K) =
      (12 * 0.6 + 1 / 255 * 0.4) * 1.2 := by
  have hl : gfuzzLevenshteinDistance (0x0102B606 &&& 0x00FFFFFF) (0x02597728 &&& 0x00FFFFFF) = 12 := by
    decide
  rw [stringWord_a, stringWord_ab, gfuzzCalculateVarSimilarity, if_neg (by decide),
    if_neg (by decide), if_pos (by decide), stringSimilarity_eq,
    show (tagByte 0x0102B606).toNat = 1 by decide, show (tagByte 0x02597728).toNat = 2 by decide, hl]
  unfold gfuzzStringLevAlpha gfuzzStringLenBeta gfuzzWeightString
  norm_num

/-- Two strings of length `3`, tagged `3`, are compared by the char formula: `1/127 · 0.8`,
where the string formula gives `(3/3 · 0.6 + 0/255 · 0.4) · 1.2`. -/
theorem odd_length_strings_compared_as_chars :
    tagByte (Runtime.stringWord [97, 98, 99]) = 3 ∧ tagByte (Runtime.stringWord [97, 98, 100]) = 3 ∧
      (gfuzzCalculateVarSimilarity (Runtime.stringWord [97, 98, 99])
          (Runtime.stringWord [97, 98, 100]) : K) = 1 / 127 * 0.8 ∧
      (stringSimilarity (Runtime.stringWord [97, 98, 99]) (Runtime.stringWord [97, 98, 100]) : K) =
        (3 / 3 * 0.6 + 0 / 255 * 0.4) * 1.2 := by
  have hl : gfuzzLevenshteinDistance (0x03885C8B &&& 0x00FFFFFF) (0x03885C8C &&& 0x00FFFFFF) = 3 := by
    decide
  rw [stringWord_abc, stringWord_abd]
  refine ⟨by decide, by decide, ?_, ?_⟩
  · rw [gfuzzCalculateVarSimilarity, if_neg (by decide), if_pos (by decide), charSimilarity,
      show ((0x03885C8B : UInt32) &&& 0xFF).toUInt8.toNat = 139 by decide,
      show ((0x03885C8C : UInt32) &&& 0xFF).toUInt8.toNat = 140 by decide]
    unfold gfuzzWeightChar
    norm_num
  · rw [stringSimilarity_eq, show (tagByte 0x03885C8B).toNat = 3 by decide,
      show (tagByte 0x03885C8C).toNat = 3 by decide, hl]
    unfold gfuzzStringLevAlpha gfuzzStringLenBeta gfuzzWeightString
    norm_num

end Formulas

/-! ## The distance is the Hamming metric

The loop adds the low bit and shifts until the word is zero, so it counts the set bits of the
XOR, which are the positions where the hashes differ (`gfuzzLevenshteinDistance_eq_bitCount`).
That count is a metric on 32-bit words, whatever the name says about edit distances. -/

/-- The number of set bits among the low `n` bits. -/
def bitCount (n x : Nat) : Nat := (List.range n).countP fun i => x.testBit i

/-- The loop counts the set bits of its word. -/
theorem hammingLoop_eq_bitCount (n : Nat) :
    ∀ (x : UInt32) (dist : Nat), x.toNat < 2 ^ n → hammingLoop n x dist = dist + bitCount n x.toNat := by
  induction n with
  | zero => intro x dist _; simp [hammingLoop, bitCount]
  | succ n ih =>
    intro x dist hx
    have hcount : bitCount (n + 1) x.toNat = x.toNat % 2 + bitCount n (x.toNat / 2) := by
      rw [bitCount, List.range_succ_eq_map, List.countP_cons, List.countP_map, bitCount]
      simp only [Function.comp_def, Nat.succ_eq_add_one, Nat.testBit_succ, Nat.testBit_zero]
      rcases Nat.mod_two_eq_zero_or_one x.toNat with h2 | h2 <;> simp [h2, Nat.add_comm]
    unfold hammingLoop
    split_ifs with h0
    · subst h0; simp [bitCount]
    · rw [ih _ _ (by rw [UInt32.toNat_shiftRight_one]; rw [pow_succ] at hx; omega),
        UInt32.toNat_shiftRight_one, UInt32.toNat_and_one, hcount, Nat.add_assoc]

theorem countP_le_add {α : Type*} {p q r : α → Bool} (l : List α)
    (h : ∀ a ∈ l, p a → q a ∨ r a) : l.countP p ≤ l.countP q + l.countP r := by
  induction l with
  | nil => simp
  | cons a l ih =>
    have ih := ih fun b hb => h b (List.mem_cons_of_mem _ hb)
    have ha := h a (List.mem_cons_self _ _)
    simp only [List.countP_cons]
    by_cases hp : p a <;> by_cases hq : q a <;> by_cases hr : r a <;> simp_all <;> omega

theorem UInt32.toNat_xor (a b : UInt32) : (a ^^^ b).toNat = a.toNat ^^^ b.toNat :=
  BitVec.toNat_xor _ _

theorem gfuzzLevenshteinDistance_eq_bitCount (hash1 hash2 : UInt32) :
    gfuzzLevenshteinDistance hash1 hash2 = bitCount 32 (hash1.toNat ^^^ hash2.toNat) := by
  rw [gfuzzLevenshteinDistance, hammingLoop_eq_bitCount 32 _ 0 (UInt32.toNat_lt_size _),
    UInt32.toNat_xor, Nat.zero_add]

theorem gfuzzLevenshteinDistance_triangle (a b c : UInt32) :
    gfuzzLevenshteinDistance a c ≤ gfuzzLevenshteinDistance a b + gfuzzLevenshteinDistance b c := by
  simp only [gfuzzLevenshteinDistance_eq_bitCount, bitCount]
  refine countP_le_add _ fun i _ => ?_
  simp only [Nat.testBit_xor]
  cases a.toNat.testBit i <;> cases b.toNat.testBit i <;> cases c.toNat.testBit i <;> simp

theorem eq_of_gfuzzLevenshteinDistance_eq_zero {a b : UInt32} (h : gfuzzLevenshteinDistance a b = 0) :
    a = b := by
  rw [gfuzzLevenshteinDistance_eq_bitCount, bitCount, List.countP_eq_zero] at h
  have hx : a.toNat ^^^ b.toNat = 0 := Nat.eq_of_testBit_eq fun i => by
    rw [Nat.zero_testBit]
    by_cases hi : i < 32
    · simpa using h i (List.mem_range.mpr hi)
    · have hlt : a.toNat ^^^ b.toNat < 2 ^ 32 := UInt32.toNat_xor a b ▸ UInt32.toNat_lt_size _
      exact Nat.testBit_lt_two_pow (lt_of_lt_of_le hlt (Nat.pow_le_pow_right (by norm_num) (by omega)))
  exact UInt32.toNat.inj (Nat.xor_eq_zero.mp hx)

/-- **`gfuzz_levenshtein_distance` is the Hamming distance.**  For all 32-bit hashes it counts
the bit positions where they differ, and so it is a metric: zero exactly on equal hashes,
symmetric, and within the sum of the distances through any third hash. -/
theorem levenshtein_is_hamming_metric :
    (∀ a b : UInt32, gfuzzLevenshteinDistance a b =
        (List.range 32).countP fun i => a.toNat.testBit i != b.toNat.testBit i) ∧
      (∀ a b : UInt32, gfuzzLevenshteinDistance a b = 0 ↔ a = b) ∧
      (∀ a b : UInt32, gfuzzLevenshteinDistance a b = gfuzzLevenshteinDistance b a) ∧
      ∀ a b c : UInt32,
        gfuzzLevenshteinDistance a c ≤ gfuzzLevenshteinDistance a b + gfuzzLevenshteinDistance b c :=
  ⟨fun a b => by simp only [gfuzzLevenshteinDistance_eq_bitCount, bitCount, Nat.testBit_xor],
    fun a b => ⟨eq_of_gfuzzLevenshteinDistance_eq_zero, fun h => h ▸ gfuzzLevenshteinDistance_self a⟩,
    gfuzzLevenshteinDistance_comm, gfuzzLevenshteinDistance_triangle⟩

end GFuzz
