import AccessRules.Proofs.Delimiting

/-!
# The length that a header tells

Four bytes of the header tell how long the payload is, and what does not fit into them is cut off
(`toldLength_header_append`). So a blob tells its own length exactly if its payload is shorter than `2 ^ 32` bytes
(`told_length_iff_fits`). A longer payload is written as well, but not read back: no more of it is looked at than is
told, which is a part of it. If its checksum does not give this away, the form of the payload does, since the part ends
too early.
-/

namespace AccessRules

namespace Blob

/-- The length of the payload that the header of a blob tells. -/
def toldLength (bytes : Bytes) : Nat := (slice bytes 12 4).toNat

theorem toldLength_header_append (p body : Bytes) : toldLength (header p ++ body) = p.length % 2 ^ 32 := by
  rw [toldLength, slice_header_length, Bytes.toNat_ofNat]
  rfl

/-- No more bytes of a blob are looked at than its header tells. -/
theorem readAlike_take_told (p : Bytes) :
    ReadAlike (ofPayload p) ((ofPayload p).take (headerSize + toldLength (ofPayload p))) := by
  have htold : toldLength (ofPayload p) = p.length % 2 ^ 32 := toldLength_header_append p p
  have htake : (ofPayload p).take (headerSize + toldLength (ofPayload p)) = header p ++ p.take (p.length % 2 ^ 32) := by
    rw [htold, ofPayload, ← length_header p, List.take_length_add_append]
  have hlength : (p.take (p.length % 2 ^ 32)).length = p.length % 2 ^ 32 := by
    rw [List.length_take, Nat.min_eq_left (Nat.mod_le _ _)]
  refine .of_payload ?_
  rw [htake, ofPayload, payload_header_append, payload_header_append, hlength, List.take_take, Nat.min_self,
    if_neg (Nat.not_lt.2 (Nat.mod_le _ _)), if_neg (Nat.lt_irrefl _)]

/-- Of a payload that does not fit, the part that is told is all that may be found behind the header. -/
theorem payload_ofPayload_of_le {p : Bytes} (h : 2 ^ 32 ≤ p.length) :
    payload (ofPayload p) = .error .checksumMismatch ∨
      ∃ front, front <+: p ∧ front.length < p.length ∧ payload (ofPayload p) = .ok front := by
  have htold : p.length % 2 ^ 32 < p.length := Nat.lt_of_lt_of_le (Nat.mod_lt _ (by decide)) h
  unfold ofPayload
  rw [payload_header_append, if_neg (Nat.not_lt.2 (Nat.le_of_lt htold))]
  split
  · exact .inl rfl
  · refine .inr ⟨p.take (p.length % 2 ^ 32), List.take_prefix _ p, ?_, rfl⟩
    rw [List.length_take]
    omega

/-- **A listing that does not fit is not read back.** -/
theorem refused_ofListing {l : Listing} (hl : l.WellFormed) (hlong : 2 ^ 32 ≤ (Payload.write l).length)
    (hword : (Payload.write l).length < 2 ^ 64) :
    Refused (ofListing l) .checksumMismatch ∨ ∃ k, 0 < k ∧ Refused (ofListing l) (.decode (.unexpectedEnd k)) := by
  rcases payload_ofPayload_of_le hlong with hsum | ⟨front, hfront, hlt, hpayload⟩
  · exact .inl (.of_payload hsum)
  · obtain ⟨k, hpos, -, hread⟩ := (Payload.takes_write hl hword).cut front hfront hlt
    refine .inr ⟨k, hpos, .of_listing ?_⟩
    unfold listing
    rw [show payload (ofListing l) = .ok front from hpayload]
    dsimp only
    rw [show Payload.read.run front = _ from hread]

end Blob

open Blob

/-- **The header tells the truth exactly about payloads that fit**: those shorter than `2 ^ 32` bytes, which are read back
whole. Of longer ones it tells less, no more than that is looked at, and they are not read back. -/
theorem told_length_iff_fits (t : RuleTree) (source : Option String) :
    let p := Payload.write (Listing.ofTree t source)
    let blob := t.toBytes source
    blob.length = headerSize + p.length ∧ toldLength blob = p.length % 2 ^ 32 ∧
      (toldLength blob = blob.length - headerSize ↔ p.length < 2 ^ 32) ∧
      ReadAlike blob (blob.take (headerSize + toldLength blob)) ∧
      (p.length < 2 ^ 32 → RuleTree.ofBytes blob = .ok t.prune) ∧
      (2 ^ 32 ≤ p.length → p.length < 2 ^ 64 →
        Refused blob .checksumMismatch ∨ ∃ k, 0 < k ∧ Refused blob (.decode (.unexpectedEnd k))) := by
  intro p blob
  have hsize : blob.length = headerSize + p.length := length_ofPayload p
  have htold : toldLength blob = p.length % 2 ^ 32 := toldLength_header_append p p
  have htruth : toldLength blob = blob.length - headerSize ↔ p.length < 2 ^ 32 := by
    rw [hsize, htold, Nat.add_sub_cancel_left]
    exact Nat.mod_eq_iff_lt (by decide)
  exact ⟨hsize, htold, htruth, readAlike_take_told p, RuleTree.ofBytes_eq_prune,
    refused_ofListing (Listing.wellFormed_ofTree t source)⟩

/-! ## A payload that does not fit -/

/-- A tree of one node with one predicate, of `n` letters. -/
def RuleTree.ofLetters (n : Nat) : RuleTree := RuleTree.empty.add .read ⟨String.ofList (List.replicate n 'a')⟩

namespace Payload

theorem length_encode_replicate (n : Nat) : (Utf8.encode (String.ofList (List.replicate n 'a'))).length = n := by
  have hpoint : Utf8.encodePoint 'a'.toNat = [0x61] := by decide
  simp only [Utf8.encode, String.toList_ofList, List.length_flatMap, List.map_replicate, hpoint, List.length_singleton,
    List.sum_replicate_nat, Nat.mul_one]

/-- With so many letters their number takes a mark and four bytes, and nine bytes stand before it. -/
theorem length_write_ofLetters {n : Nat} (hmark : 2 ^ 16 ≤ n) (hn : n < 2 ^ 32) :
    (write (Listing.ofTree (RuleTree.ofLetters n) none)).length = n + 14 := by
  have hlisting (s : String) : Listing.ofTree (RuleTree.empty.add .read ⟨s⟩) none =
      ⟨⟨1, 1, none⟩, [⟨none, none, [(.read, [⟨s⟩])]⟩]⟩ := rfl
  have hwrite (s : String) : write (Listing.ofTree (RuleTree.empty.add .read ⟨s⟩) none) =
      [1, 1, 0, 1, 0, 0, 1, 0, 1] ++ writeText s := by
    simp only [hlisting, write, writeInfo, writeList, writeRow, writeRule, List.flatMap_cons, List.flatMap_nil,
      List.append_nil]
    rfl
  have hnat : (writeNat n).length = 5 := by
    rw [writeNat, if_neg (by omega), if_neg (by omega), if_pos (by omega), List.length_cons, Bytes.length_ofNat]
  rw [RuleTree.ofLetters, hwrite, List.length_append, writeText, List.length_append, length_encode_replicate, hnat]
  simp only [List.length_cons, List.length_nil]
  omega

end Payload

/-- Of a payload of `2 ^ 32` bytes the header tells that there is none. -/
theorem told_length_iff_fits_of_overlong :
    let p := Payload.write (Listing.ofTree (RuleTree.ofLetters (2 ^ 32 - 14)) none)
    let blob := (RuleTree.ofLetters (2 ^ 32 - 14)).toBytes none
    (2 ^ 32 ≤ p.length ∧ p.length < 2 ^ 64) ∧ blob.length = headerSize + 2 ^ 32 ∧ toldLength blob = 0 ∧
      ReadAlike blob (blob.take headerSize) ∧
      (Refused blob .checksumMismatch ∨ ∃ k, 0 < k ∧ Refused blob (.decode (.unexpectedEnd k))) := by
  intro p blob
  have hp : p.length = 2 ^ 32 := Payload.length_write_ofLetters (by decide) (by decide)
  obtain ⟨hsize, htold, -, halike, -, hrefused⟩ := told_length_iff_fits (RuleTree.ofLetters (2 ^ 32 - 14)) none
  have hlong : 2 ^ 32 ≤ p.length := Nat.le_of_eq hp.symm
  have hword : p.length < 2 ^ 64 := by rw [hp]; decide
  have hnone : toldLength blob = 0 := htold.trans (by rw [hp, Nat.mod_self])
  rw [show toldLength ((RuleTree.ofLetters (2 ^ 32 - 14)).toBytes none) = 0 from hnone, Nat.add_zero] at halike
  exact ⟨⟨hlong, hword⟩, hsize.trans (by rw [hp]), hnone, halike, hrefused hlong hword⟩

/-- So headers do not always tell how long the payload is that stands behind them. -/
theorem told_length_wraps :
    ¬ ∀ (t : RuleTree) (source : Option String),
      toldLength (t.toBytes source) = (t.toBytes source).length - headerSize := by
  intro htrue
  let p := Payload.write (Listing.ofTree (RuleTree.ofLetters (2 ^ 32 - 14)) none)
  have hp : p.length = 2 ^ 32 := Payload.length_write_ofLetters (by decide) (by decide)
  have htold : toldLength (ofPayload p) = p.length % 2 ^ 32 := toldLength_header_append p p
  have hsize : (ofPayload p).length = headerSize + p.length := length_ofPayload p
  have hfits : toldLength (ofPayload p) = (ofPayload p).length - headerSize :=
    htrue (RuleTree.ofLetters (2 ^ 32 - 14)) none
  rw [htold, hsize, hp] at hfits
  exact absurd hfits (by decide)

end AccessRules
