import AccessRules.Binary.Bytes

/-!
# Texts come back from their bytes

Decoding the bytes of a character takes exactly these bytes and adds the character to the text read so far
(`decodeFrom_encodePoint`), whatever stands behind them. So every text is decoded from its bytes (`decode_encode`).
-/

namespace AccessRules.Utf8

theorem toNat_ofNat {n : Nat} (h : n < 256) : (UInt8.ofNat n).toNat = n := by
  simp [UInt8.toNat_ofNat', Nat.mod_eq_of_lt h]

/-! ## One byte at a time -/

theorem decodeFrom_ascii {n : Nat} (h : n < 0x80) (valid : Nat) (text : String) (rest : List UInt8) :
    decodeFrom .start valid text (.ofNat n :: rest) = decodeFrom .start (valid + 1) (text.push (.ofNat n)) rest := by
  rw [decodeFrom, toNat_ofNat (by omega), if_pos h]

theorem decodeFrom_lead {b : Nat} (hb : b < 256) (h : 0x80 ≤ b) {place : Place} (hp : Place.ofLead? b = some place)
    (valid : Nat) (text : String) (rest : List UInt8) :
    decodeFrom .start valid text (.ofNat b :: rest) = decodeFrom place valid text rest := by
  rw [decodeFrom, toNat_ofNat hb, if_neg (by omega), hp]

section

variable {low high k : Nat} (hk : k < 64) (hlow : low ≤ 0x80 + k) (hhigh : 0x80 + k ≤ high)
include hk hlow hhigh

theorem decodeFrom_inside (missing bits seen valid : Nat) (text : String) (rest : List UInt8) :
    decodeFrom (.inside (missing + 1) low high bits seen) valid text (.ofNat (0x80 + k) :: rest) =
      decodeFrom (.inside missing 0x80 0xBF (bits * 64 + k) (seen + 1)) valid text rest := by
  rw [decodeFrom, toNat_ofNat (by omega), if_neg (by omega), Nat.add_sub_cancel_left]

theorem decodeFrom_last (bits seen valid : Nat) (text : String) (rest : List UInt8) :
    decodeFrom (.inside 0 low high bits seen) valid text (.ofNat (0x80 + k) :: rest) =
      decodeFrom .start (valid + seen + 1) (text.push (.ofNat (bits * 64 + k))) rest := by
  rw [decodeFrom, toNat_ofNat (by omega), if_neg (by omega), Nat.add_sub_cancel_left]

end

/-! ## One character at a time -/

theorem ofLead?_of_two {n : Nat} (h : 0x80 ≤ n) (h' : n < 0x800) :
    Place.ofLead? (0xC0 + n / 64) = some (.inside 0 0x80 0xBF (n / 64) 1) := by
  rw [Place.ofLead?, if_neg (by omega), if_pos (by omega), Nat.add_sub_cancel_left]

theorem ofLead?_of_three {n : Nat} (h' : n < 0x10000) :
    Place.ofLead? (0xE0 + n / 4096) = some (.inside 1 (if 0xE0 + n / 4096 = 0xE0 then 0xA0 else 0x80)
      (if 0xE0 + n / 4096 = 0xED then 0x9F else 0xBF) (n / 4096) 1) := by
  rw [Place.ofLead?, if_neg (by omega), if_neg (by omega), if_pos (by omega), Nat.add_sub_cancel_left]

theorem ofLead?_of_four {n : Nat} (h' : n < 0x110000) :
    Place.ofLead? (0xF0 + n / 262144) = some (.inside 2 (if 0xF0 + n / 262144 = 0xF0 then 0x90 else 0x80)
      (if 0xF0 + n / 262144 = 0xF4 then 0x8F else 0xBF) (n / 262144) 1) := by
  rw [Place.ofLead?, if_neg (by omega), if_neg (by omega), if_neg (by omega), if_pos (by omega),
    Nat.add_sub_cancel_left]

/-- The code points that are characters are decoded from their bytes. -/
theorem decodeFrom_encodePoint {n : Nat} (hn : n.isValidChar) (valid : Nat) (text : String) (rest : List UInt8) :
    decodeFrom .start valid text (encodePoint n ++ rest) =
      decodeFrom .start (valid + (encodePoint n).length) (text.push (.ofNat n)) rest := by
  have hmax : n < 0xD800 ∨ 0xDFFF < n ∧ n < 0x110000 := hn
  unfold encodePoint
  split
  · next h => exact decodeFrom_ascii h valid text rest
  split
  · next h1 h2 =>
    have hbits : n / 64 * 64 + n % 64 = n := by omega
    simp only [List.cons_append, List.nil_append, List.length_cons, List.length_nil]
    rw [decodeFrom_lead (by omega) (by omega) (ofLead?_of_two (by omega) h2),
      decodeFrom_last (by omega) (by omega) (by omega), hbits]
  split
  · next h1 h2 h3 =>
    have hbits : (n / 4096 * 64 + n / 64 % 64) * 64 + n % 64 = n := by omega
    simp only [List.cons_append, List.nil_append, List.length_cons, List.length_nil]
    rw [decodeFrom_lead (by omega) (by omega) (ofLead?_of_three h3),
      decodeFrom_inside (by omega) (by split <;> omega) (by split <;> omega),
      decodeFrom_last (by omega) (by omega) (by omega), hbits]
  · next h1 h2 h3 =>
    have hbits : ((n / 262144 * 64 + n / 4096 % 64) * 64 + n / 64 % 64) * 64 + n % 64 = n := by omega
    simp only [List.cons_append, List.nil_append, List.length_cons, List.length_nil]
    rw [decodeFrom_lead (by omega) (by omega) (ofLead?_of_four (by omega)),
      decodeFrom_inside (by omega) (by split <;> omega) (by split <;> omega),
      decodeFrom_inside (by omega) (by omega) (by omega),
      decodeFrom_last (by omega) (by omega) (by omega), hbits]

theorem decodeFrom_encode (cs : List Char) (valid : Nat) (text : String) :
    decodeFrom .start valid text (cs.flatMap fun c => encodePoint c.toNat) = .ok (text ++ String.ofList cs) := by
  induction cs generalizing valid text with
  | nil => simp [decodeFrom]
  | cons c cs ih =>
    have hc : c.toNat.isValidChar := c.valid
    rw [List.flatMap_cons, decodeFrom_encodePoint hc, Char.ofNat_toNat, ih]
    simp [String.ext_iff]

/-- **Texts come back from their bytes.** -/
theorem decode_encode (s : String) : decode (encode s) = .ok s := by
  refine (decodeFrom_encode s.toList 0 "").trans ?_
  simp

end AccessRules.Utf8
