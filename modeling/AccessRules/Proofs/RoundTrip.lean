import AccessRules.Binary.Blob
import AccessRules.Proofs.Faults
import AccessRules.Proofs.Gathering
import AccessRules.Proofs.Grafting
import AccessRules.Proofs.Payload

/-!
# Stored trees come back

A header frames as many of the bytes behind it as it tells (`payload_header_append`). As long as the payload is so short
that the header can tell its length, a blob gives back the payload that was put into it (`payload_header`), the payload
its listing, and the listing the pruned tree. So what `toBytes` writes is accepted by `ofBytes`, and nothing is lost but
what pruning takes away (`ofBytes_toBytes`).
-/

namespace AccessRules

/-! ## The payload of a blob -/

namespace Blob

theorem slice_append {bytes : Bytes} (before middle behind : Bytes) (h : bytes = before ++ (middle ++ behind))
    {start k : Nat} (hstart : before.length = start) (hk : middle.length = k) : slice bytes start k = middle := by
  subst h hstart hk
  unfold slice
  rw [List.drop_left, List.take_left]

theorem length_checksum (payload : Bytes) : (checksum payload).length = 16 := by simp [checksum]

theorem length_header (payload : Bytes) : (header payload).length = headerSize := by
  simp [header, magic, headerSize, Bytes.length_ofNat, length_checksum]

/-- A blob by its fields. -/
theorem header_append (p body : Bytes) :
    header p ++ body = magic ++ (Bytes.ofNat 2 formatVersion ++ (Bytes.ofNat 2 writerVersion ++ (Bytes.ofNat 4 0 ++
      (Bytes.ofNat 4 p.length ++ (checksum p ++ body))))) := by
  simp only [header, List.append_assoc]

/-- The field for the length of the payload. -/
theorem slice_header_length (p body : Bytes) : slice (header p ++ body) 12 4 = Bytes.ofNat 4 p.length := by
  refine slice_append (magic ++ (Bytes.ofNat 2 formatVersion ++ (Bytes.ofNat 2 writerVersion ++ Bytes.ofNat 4 0))) _
    (checksum p ++ body) ?_ rfl rfl
  simp only [header_append, List.append_assoc]

/-- What a header frames of the bytes behind it: as many as it tells, which is the length of its payload cut off to four
bytes, if they have the checksum of its payload. -/
theorem payload_header_append (p body : Bytes) :
    payload (header p ++ body) =
      if body.length < p.length % 2 ^ 32 then .error (.lengthMismatch (p.length % 2 ^ 32) body.length)
      else if checksum (body.take (p.length % 2 ^ 32)) ≠ checksum p then .error .checksumMismatch
      else .ok (body.take (p.length % 2 ^ 32)) := by
  have hsize : (header p ++ body).length = headerSize + body.length := by rw [List.length_append, length_header]
  have hparts := header_append p body
  have hmagic : slice (header p ++ body) 0 4 = magic := slice_append [] _ _ hparts rfl rfl
  have hversion : slice (header p ++ body) 4 2 = Bytes.ofNat 2 formatVersion := slice_append _ _ _ hparts rfl rfl
  have hchecksum : slice (header p ++ body) 16 16 = checksum p := by
    refine slice_append (magic ++ (Bytes.ofNat 2 formatVersion ++ (Bytes.ofNat 2 writerVersion ++ (Bytes.ofNat 4 0 ++
      Bytes.ofNat 4 p.length)))) _ body ?_ rfl (length_checksum p)
    simp only [hparts, List.append_assoc]
  have hbody (k : Nat) : slice (header p ++ body) headerSize k = body.take k := by
    rw [slice, ← length_header p, List.drop_left]
  have hreadable : (Bytes.ofNat 2 formatVersion).toNat = formatVersion := by decide
  unfold payload
  simp only [hsize, hmagic, hversion, hreadable, slice_header_length, Bytes.toNat_ofNat, hchecksum, hbody,
    Nat.add_lt_add_iff_left, Nat.add_sub_cancel_left, Nat.not_lt.2 (Nat.le_add_right _ _), ne_eq, not_true_eq_false,
    if_false]
  rfl

/-- **A blob gives back its payload.** -/
theorem payload_header {p : Bytes} (h : p.length < 2 ^ 32) : payload (header p ++ p) = .ok p := by
  rw [payload_header_append, Nat.mod_eq_of_lt h, if_neg (Nat.lt_irrefl _), List.take_length, if_neg (by simp)]

end Blob

/-! ## The listing of a blob -/

namespace Payload

theorem count_le_writeRow (row : Listing.Row) : row.rules.count ≤ (writeRow row).length := by
  have hrule (r : Category × List Predicate) : r.2.length ≤ (writeRule r).length := by
    have := length_le_writeList (fun p : Predicate => length_writeText_pos p.text) r.2
    rw [writeRule, List.length_append]
    omega
  have hcount : row.rules.count ≤ (writeList writeRule row.rules).length :=
    le_length_writeList rfl (fun r rest => Nat.add_le_add_right (hrule r) _) row.rules
  rw [writeRow, List.length_append]
  omega

theorem rows_le_write (l : Listing) : l.rows.length ≤ (write l).length := by
  have := length_le_writeList length_writeRow_pos l.rows
  rw [write, List.length_append]
  omega

theorem predicates_le_write (l : Listing) : Listing.listedPredicates l.rows ≤ (write l).length := by
  have : Listing.listedPredicates l.rows ≤ (writeList writeRow l.rows).length :=
    le_length_writeList rfl (fun row rest => Nat.add_le_add_right (count_le_writeRow row) _) l.rows
  rw [write, List.length_append]
  omega

/-- A well-formed listing comes back if what is written of it is short: its numbers are no larger than that. -/
theorem gives_read_of_wellFormed {l : Listing} (hl : l.WellFormed) (h : (write l).length < 2 ^ 64) :
    Gives read (write l) l := by
  have hrows := rows_le_write l
  have hpredicates := predicates_le_write l
  have hnodes := hl.nodeCount
  have hcount := hl.predicateCount
  refine gives_read (by omega) (by omega) (fun row hrow p hp => ?_) h
  obtain ⟨rules, rest, hroot⟩ := hl.root
  have hlinked := hl.linked
  rw [hroot] at hrow hlinked
  rcases List.mem_cons.1 hrow with rfl | hrow
  · cases hp
  · obtain ⟨i, hi⟩ := Listing.exists_mem_zipIdx hrow 1
    obtain ⟨p', s, hp', -, hlt⟩ := hlinked _ hi
    cases hp.symm.trans hp'
    have hlast := List.snd_lt_add_of_mem_zipIdx hi
    have hlen : l.rows.length = rest.length + 1 := by rw [hroot, List.length_cons]
    omega

end Payload

namespace Blob

/-- A payload behind a header of its own. -/
def ofPayload (p : Bytes) : Bytes := header p ++ p

theorem length_ofPayload (p : Bytes) : (ofPayload p).length = headerSize + p.length := by
  rw [ofPayload, List.length_append, length_header]

/-- The blob of a listing. -/
def ofListing (l : Listing) : Bytes := header (Payload.write l) ++ Payload.write l

/-- A payload behind its header is read from its own front. -/
theorem listing_ofPayload {p : Bytes} (h : p.length < 2 ^ 32) :
    listing (ofPayload p) =
      match Payload.read p with
      | .error e => .error (.decode e)
      | .ok (l, _) => .ok l := by
  unfold listing ofPayload
  rw [payload_header h]
  rfl

/-- **A blob gives back its listing** if this is well-formed. -/
theorem listing_ofListing {l : Listing} (hl : l.WellFormed) (h : (Payload.write l).length < 2 ^ 32) :
    listing (ofListing l) = .ok l := by
  have hread := Payload.gives_read_of_wellFormed hl (by omega) []
  rw [List.append_nil] at hread
  refine (listing_ofPayload h).trans ?_
  rw [hread]

theorem listing_toBytes {t : RuleTree} {source : Option String}
    (h : (Payload.write (Listing.ofTree t source)).length < 2 ^ 32) :
    listing (t.toBytes source) = .ok (Listing.ofTree t source) :=
  listing_ofListing (Listing.wellFormed_ofTree t source) h

end Blob

/-- **Stored trees come back**, pruned and otherwise as they were, and are told by what stands beside them. -/
theorem ofBytes_toBytes (t : RuleTree) (source : Option String)
    (h : (Payload.write (Listing.ofTree t source)).length < 2 ^ 32) :
    RuleTree.ofBytes (t.toBytes source) = .ok t.prune ∧
      TreeInfo.ofBytes (t.toBytes source) = .ok ⟨t.prune.size, t.predicateCount, source.map sourceDigest⟩ := by
  have hlisting := Blob.listing_toBytes h
  constructor
  · have hfault := Listing.fault?_eq_none_iff.2 (Listing.wellFormed_ofTree t source)
    unfold RuleTree.ofBytes
    simp only [hlisting, hfault, Listing.toTree_ofTree]
  · have hinfo : (Listing.ofTree t source).info = ⟨t.prune.size, t.predicateCount, source.map sourceDigest⟩ := by
      rw [← t.predicateCount_prune]
      exact congrArg (TreeInfo.mk · _ _) (Listing.length_rowsOf 0 none none t.prune.node)
    unfold TreeInfo.ofBytes
    simp only [hlisting, hinfo]

/-- A branch that leads to an empty tree is lost. -/
theorem ofBytes_toBytes_of_hollow :
    let kept := RuleTree.empty.attach (.capture "id") (RuleTree.empty.add .read ⟨"p"⟩)
    let t := kept.attach (.literal "a") .empty
    (Payload.write (Listing.ofTree t (some "source"))).length < 2 ^ 32 ∧
      RuleTree.ofBytes (t.toBytes (some "source")) = .ok kept ∧
      TreeInfo.ofBytes (t.toBytes (some "source")) = .ok ⟨2, 1, some (sourceDigest "source")⟩ := by
  intro kept t
  have hlen : (Payload.write (Listing.ofTree t (some "source"))).length < 2 ^ 32 := by
    show (Payload.writeNat 2 ++ Payload.writeNat 1 ++ 1 :: (sourceDigest "source").toList ++ _).length < _
    rw [List.length_append, List.length_append, List.length_cons, Vector.length_toList]
    decide
  exact ⟨hlen, ofBytes_toBytes t (some "source") hlen⟩

end AccessRules
