import AccessRules.Proofs.Loading

/-!
# Cut, padded and altered blobs

Both readers of blobs go by the payload that the header frames: where this is the same, they answer the same
(`ReadAlike.of_payload`), and where there is none, both are refused for it (`Refused.of_payload`). So it is enough to see
what becomes of the payload:

* a blob that was cut has none, and it is told how many bytes there should be and how many are there
  (`payload_of_prefix`);
* unless bytes were missing, what stands behind them makes no difference (`payload_append`), since the payload is taken
  by the length that the header tells;
* the version of the writer and the flags are not looked at (`payload_eq_of_fields`).

`cut_refused_padding_ignored` says this of the readers.
-/

namespace AccessRules

namespace Blob

variable {bytes bytes' : Bytes} {error : LoadError}

/-! ## Answers -/

/-- Both readers refuse the bytes with this error. -/
def Refused (bytes : Bytes) (error : LoadError) : Prop :=
  RuleTree.ofBytes bytes = .error error ∧ TreeInfo.ofBytes bytes = .error error

/-- Both readers answer to the one as they answer to the other, with a value or an error. -/
def ReadAlike (bytes bytes' : Bytes) : Prop :=
  RuleTree.ofBytes bytes = RuleTree.ofBytes bytes' ∧ TreeInfo.ofBytes bytes = TreeInfo.ofBytes bytes'

theorem Refused.of_listing (h : listing bytes = .error error) : Refused bytes error := by
  unfold Refused RuleTree.ofBytes TreeInfo.ofBytes
  rw [h]
  exact ⟨rfl, rfl⟩

theorem Refused.of_payload (h : payload bytes = .error error) : Refused bytes error := by
  refine .of_listing ?_
  unfold listing
  rw [h]

theorem ReadAlike.of_listing (h : listing bytes = listing bytes') : ReadAlike bytes bytes' := by
  unfold ReadAlike RuleTree.ofBytes TreeInfo.ofBytes
  rw [h]
  exact ⟨rfl, rfl⟩

theorem ReadAlike.of_payload (h : payload bytes = payload bytes') : ReadAlike bytes bytes' := by
  refine .of_listing ?_
  unfold listing
  rw [h]

/-! ## Slices -/

theorem slice_append_of_le {i k : Nat} (h : i + k ≤ bytes.length) (behind : Bytes) :
    slice (bytes ++ behind) i k = slice bytes i k := by
  unfold slice
  rw [List.drop_append_of_le_length (by omega), List.take_append_of_le_length (by rw [List.length_drop]; omega)]

theorem slice_congr {i k : Nat} (h : ∀ j, i ≤ j → j < i + k → bytes[j]? = bytes'[j]?) :
    slice bytes i k = slice bytes' i k := by
  refine List.ext_getElem? fun j => ?_
  unfold slice
  rw [List.getElem?_take, List.getElem?_take, List.getElem?_drop, List.getElem?_drop]
  split
  · exact h (i + j) (by omega) (by omega)
  · rfl

/-! ## The payload of altered bytes -/

theorem payload_of_short (h : bytes.length < headerSize) :
    payload bytes = .error (.lengthMismatch headerSize bytes.length) := if_pos h

/-- What a blob is checked for that has a whole header, in this order. -/
theorem payload_of_le (h : headerSize ≤ bytes.length) :
    payload bytes =
      if slice bytes 0 4 ≠ magic then .error .badMagic
      else if (slice bytes 4 2).toNat ≠ formatVersion then .error (.incompatibleVersion (slice bytes 4 2).toNat)
      else if bytes.length < headerSize + (slice bytes 12 4).toNat then
        .error (.lengthMismatch (slice bytes 12 4).toNat (bytes.length - headerSize))
      else if checksum (slice bytes headerSize (slice bytes 12 4).toNat) ≠ slice bytes 16 16 then .error .checksumMismatch
      else .ok (slice bytes headerSize (slice bytes 12 4).toNat) := if_neg (Nat.not_lt.2 h)

/-- **Of a blob that was cut nothing is read**: either its header is not whole, or what is left of its payload is shorter
than the header tells. -/
theorem payload_of_prefix {p front : Bytes} (hp : p.length < 2 ^ 32) (hfront : front <+: ofPayload p)
    (hne : front ≠ ofPayload p) :
    (front.length < headerSize → payload front = .error (.lengthMismatch headerSize front.length)) ∧
      (headerSize ≤ front.length → payload front = .error (.lengthMismatch p.length (front.length - headerSize))) := by
  refine ⟨payload_of_short, fun hlong => ?_⟩
  have hlt : front.length < (ofPayload p).length :=
    Nat.lt_of_le_of_ne hfront.length_le fun h => hne (hfront.eq_of_length h)
  rw [length_ofPayload] at hlt
  have hbody : front = header p ++ p.take (front.length - headerSize) :=
    calc front = (header p ++ p).take front.length := List.prefix_iff_eq_take.1 hfront
      _ = header p ++ p.take (front.length - headerSize) := by
        rw [List.take_append, length_header, List.take_of_length_le (by rw [length_header]; exact hlong)]
  have hpart : (p.take (front.length - headerSize)).length = front.length - headerSize := by
    rw [List.length_take]
    omega
  conv_lhs => rw [hbody]
  rw [payload_header_append, Nat.mod_eq_of_lt hp, hpart, if_pos (by omega)]

/-- **Bytes behind a blob are not looked at**, unless bytes were missing of the blob itself. -/
theorem payload_append (h : ∀ expected actual, payload bytes ≠ .error (.lengthMismatch expected actual))
    (behind : Bytes) : payload (bytes ++ behind) = payload bytes := by
  have hlong : headerSize ≤ bytes.length := Nat.not_lt.1 fun hshort => h _ _ (payload_of_short hshort)
  have hfield {i k : Nat} (hik : i + k ≤ headerSize) : slice (bytes ++ behind) i k = slice bytes i k :=
    slice_append_of_le (Nat.le_trans hik hlong) behind
  have hmagic : slice (bytes ++ behind) 0 4 = slice bytes 0 4 := hfield (by decide)
  have hversion : slice (bytes ++ behind) 4 2 = slice bytes 4 2 := hfield (by decide)
  have hlength : slice (bytes ++ behind) 12 4 = slice bytes 12 4 := hfield (by decide)
  have hchecksum : slice (bytes ++ behind) 16 16 = slice bytes 16 16 := hfield (by decide)
  rw [payload_of_le hlong] at h ⊢
  rw [payload_of_le (by rw [List.length_append]; omega), hmagic, hversion, hlength, hchecksum]
  split
  · rfl
  split
  · rfl
  next hok hok' =>
  rw [if_neg hok, if_neg hok'] at h
  have hwhole : ¬ bytes.length < headerSize + (slice bytes 12 4).toNat := fun hcut => h _ _ (if_pos hcut)
  rw [if_neg hwhole, if_neg (by rw [List.length_append]; omega), slice_append_of_le (Nat.not_lt.1 hwhole)]

/-- **The bytes for information are not looked at**: those from position 6 to 11, which hold the version of the writer and
the flags. -/
theorem payload_eq_of_fields (hlength : bytes.length = bytes'.length)
    (h : ∀ i, i < 6 ∨ 12 ≤ i → bytes[i]? = bytes'[i]?) : payload bytes = payload bytes' := by
  have hbefore {i k : Nat} (hik : i + k ≤ 6) : slice bytes i k = slice bytes' i k :=
    slice_congr fun j _ hj => h j (.inl (by omega))
  have hbehind {i k : Nat} (hi : 12 ≤ i) : slice bytes i k = slice bytes' i k :=
    slice_congr fun j hj _ => h j (.inr (by omega))
  have hmagic : slice bytes 0 4 = slice bytes' 0 4 := hbefore (by decide)
  have hversion : slice bytes 4 2 = slice bytes' 4 2 := hbefore (by decide)
  have hsaid : slice bytes 12 4 = slice bytes' 12 4 := hbehind (by decide)
  have hchecksum : slice bytes 16 16 = slice bytes' 16 16 := hbehind (by decide)
  have hbody (k : Nat) : slice bytes headerSize k = slice bytes' headerSize k := hbehind (by decide)
  unfold payload
  simp only [hlength, hmagic, hversion, hsaid, hchecksum, hbody]

/-! ## The readers -/

/-- Both readers miss bytes if one of them does. -/
theorem not_lengthMismatch_of_reader
    (h : (∀ expected actual, RuleTree.ofBytes bytes ≠ .error (.lengthMismatch expected actual)) ∨
      ∀ expected actual, TreeInfo.ofBytes bytes ≠ .error (.lengthMismatch expected actual))
    (expected actual : Nat) : payload bytes ≠ .error (.lengthMismatch expected actual) := by
  intro hpayload
  obtain ⟨htree, hinfo⟩ := Refused.of_payload hpayload
  rcases h with h | h
  · exact h _ _ htree
  · exact h _ _ hinfo

end Blob

open Blob

/-- **Cut, padded and altered blobs.** The first bytes of a blob are refused by both readers for their length, as long as
they are not the whole of it. Bytes that are not refused for their length are answered in the same way with any others
behind. The version of the writer and the flags make no difference to any bytes. -/
theorem cut_refused_padding_ignored :
    (∀ (t : RuleTree) (source : Option String) (front : Bytes),
      (Payload.write (Listing.ofTree t source)).length < 2 ^ 32 → front <+: t.toBytes source →
        front ≠ t.toBytes source →
          (front.length < headerSize → Refused front (.lengthMismatch headerSize front.length)) ∧
            (headerSize ≤ front.length →
              Refused front (.lengthMismatch (Payload.write (Listing.ofTree t source)).length
                (front.length - headerSize)))) ∧
    (∀ bytes behind : Bytes,
      ((∀ expected actual, RuleTree.ofBytes bytes ≠ .error (.lengthMismatch expected actual)) ∨
        ∀ expected actual, TreeInfo.ofBytes bytes ≠ .error (.lengthMismatch expected actual)) →
          ReadAlike (bytes ++ behind) bytes) ∧
    ∀ bytes bytes' : Bytes, bytes.length = bytes'.length → (∀ i, i < 6 ∨ 12 ≤ i → bytes[i]? = bytes'[i]?) →
      ReadAlike bytes bytes' := by
  refine ⟨fun t source front hp hfront hne => ?_, fun bytes behind h => ?_, fun bytes bytes' hlength h => ?_⟩
  · obtain ⟨hshort, hlong⟩ := payload_of_prefix hp hfront hne
    exact ⟨fun h => .of_payload (hshort h), fun h => .of_payload (hlong h)⟩
  · exact .of_payload (payload_append (not_lengthMismatch_of_reader h) behind)
  · exact .of_payload (payload_eq_of_fields hlength h)

/-- A blob of 32 and 19 bytes, cut within its header, behind it and before its last byte, with itself behind, and by
another version of the writer. -/
theorem cut_refused_padding_ignored_of_small_blob :
    let t := RuleTree.empty.attach (.capture "id") (RuleTree.empty.add .read ⟨"p"⟩)
    let blob := t.toBytes none
    Refused (blob.take 31) (.lengthMismatch 32 31) ∧ Refused (blob.take 32) (.lengthMismatch 19 0) ∧
      Refused (blob.take 50) (.lengthMismatch 19 18) ∧
        (RuleTree.ofBytes blob = .ok t ∧ ReadAlike (blob ++ blob) blob) ∧ ReadAlike (blob.set 6 0xFF) blob := by
  intro t blob
  obtain ⟨hcut, hpadded, haltered⟩ := cut_refused_padding_ignored
  have hpayload : (Payload.write (Listing.ofTree t none)).length = 19 := by decide
  have hsmall : (Payload.write (Listing.ofTree t none)).length < 2 ^ 32 := by rw [hpayload]; decide
  have hsize : blob.length = 51 := by
    show (ofPayload (Payload.write (Listing.ofTree t none))).length = 51
    rw [length_ofPayload, hpayload]
    rfl
  have hfront {k : Nat} (hk : k < 51) : (blob.take k).length = k := by
    rw [List.length_take, hsize]
    omega
  have htaken {k : Nat} (hk : k < 51) := hcut t none (blob.take k) hsmall (List.take_prefix k blob) fun h => by
    have := congrArg List.length h
    rw [hfront hk, show (t.toBytes none).length = 51 from hsize] at this
    omega
  have hloaded : RuleTree.ofBytes blob = .ok t := RuleTree.ofBytes_eq_prune hsmall
  refine ⟨?_, ?_, ?_, ⟨hloaded, ?_⟩, ?_⟩
  · have h31 := (htaken (k := 31) (by decide)).1
    rw [hfront (by decide)] at h31
    exact h31 (by decide)
  · have h32 := (htaken (k := 32) (by decide)).2
    rw [hfront (by decide), hpayload] at h32
    exact h32 (by decide)
  · have h50 := (htaken (k := 50) (by decide)).2
    rw [hfront (by decide), hpayload] at h50
    exact h50 (by decide)
  · refine hpadded blob blob (.inl fun expected actual h => ?_)
    rw [hloaded] at h
    cases h
  · refine haltered _ _ List.length_set fun i hi => ?_
    rw [List.getElem?_set_ne (by omega)]

end AccessRules
