import AccessRules.Proofs.Assembly
import AccessRules.Proofs.Consumption
import AccessRules.Proofs.InPlace
import AccessRules.Proofs.Loading

/-!
# Loading breaches nothing

Loading in place gives the answers of `RuleTree.ofBytes` and `TreeInfo.ofBytes`, and so none of its steps is ever out of
bounds, whatever the bytes (`loads_within_bounds`). Three things keep it there:

* the length of a payload stands in four bytes, and a listing is no larger than its payload, so no sum leaves a machine
  word (`size_listing_lt`);
* a row is counted only once it is known to hang on an earlier one, and the counters then say how many rows hang on each
  (`countLinks_eq`);
* trees are moved only if the listing is without faults, so each to a row that stands before its own; what the trees
  hold meanwhile is `Attached`.
-/

namespace AccessRules

/-- So many bytes say a number below that power of 256. -/
theorem Bytes.toNat_lt (bytes : Bytes) : bytes.toNat < 256 ^ bytes.length := by
  induction bytes with
  | nil => exact Nat.one_pos
  | cons b rest ih =>
    have hb : b.toNat < 256 := b.toNat_lt
    rw [toNat, List.length_cons, Nat.pow_succ]
    omega

namespace Blob

/-! ## Slices -/

theorem slice_zero (bytes : Bytes) (i : Nat) : slice bytes i 0 = [] := List.take_zero

theorem slice_succ {bytes : Bytes} {i : Nat} (h : i < bytes.length) (k : Nat) :
    slice bytes i (k + 1) = bytes[i] :: slice bytes (i + 1) k := by
  rw [slice, List.drop_eq_getElem_cons h, List.take_succ_cons]
  rfl

theorem length_slice_le (bytes : Bytes) (i k : Nat) : (slice bytes i k).length ≤ k := List.length_take_le _ _

theorem length_slice {bytes : Bytes} {i k : Nat} (h : i + k ≤ bytes.length) : (slice bytes i k).length = k := by
  rw [slice, List.length_take, List.length_drop]
  omega

theorem toNat_slice_lt (bytes : Bytes) (i k : Nat) : (slice bytes i k).toNat < 256 ^ k :=
  Nat.lt_of_lt_of_le (Bytes.toNat_lt _) (Nat.pow_le_pow_right (by omega) (length_slice_le bytes i k))

/-! ## How large a listing is -/

/-- The length of a payload stands in four bytes of the header. -/
theorem length_payload_lt {bytes p : Bytes} (h : payload bytes = .ok p) : p.length < 2 ^ 32 := by
  have hlength := toNat_slice_lt bytes 12 4
  have hslice := length_slice_le bytes headerSize (slice bytes 12 4).toNat
  unfold payload at h
  dsimp only at h
  repeat
    split at h
    · cases h
  cases h
  omega

/-- The listing of a blob is read from its payload. -/
theorem listing_eq_ok_iff {bytes : Bytes} {l : Listing} :
    listing bytes = .ok l ↔ ∃ p rest, payload bytes = .ok p ∧ Payload.read p = .ok (l, rest) := by
  unfold listing
  constructor
  · intro h
    split at h
    · cases h
    next p hp =>
    split at h
    · cases h
    next rest hread =>
    cases h
    exact ⟨p, rest, hp, hread⟩
  · rintro ⟨p, rest, hp, hread⟩
    rw [hp]
    dsimp only
    rw [show Payload.read.run p = _ from hread]

/-- A listing has fewer rows and predicates than four bytes can say. -/
theorem size_listing_lt {bytes : Bytes} {l : Listing} (h : listing bytes = .ok l) :
    l.rows.length < 2 ^ 32 ∧ Listing.listedPredicates l.rows < 2 ^ 32 := by
  obtain ⟨p, rest, hp, hread⟩ := listing_eq_ok_iff.1 h
  have hlen := length_payload_lt hp
  obtain ⟨taken, rfl, hsize⟩ := Payload.size_le_length hread
  rw [List.length_append] at hlen
  omega

end Blob

namespace InPlace

open Listing (Row)

/-- What loading comes to if nothing is breached: the value, or the error that it is refused with. -/
def answer {α : Type} (r : Except LoadError α) : Checked α := r.mapError .refused

theorem answer_ok {α : Type} (a : α) : answer (.ok a) = .ok a := rfl

/-! ## The header and the payload -/

theorem range_eq_slice {bytes : Bytes} {start k : Nat} (h : start + k ≤ bytes.length) :
    range bytes start (start + k) = .ok (Blob.slice bytes start k) := by
  rw [range_of_le (Nat.le_add_right start k) h, Nat.add_sub_cancel_left]
  rfl

theorem header_of_short {bytes : Bytes} (h : bytes.length < Blob.headerSize) :
    header bytes = refuse (.lengthMismatch Blob.headerSize bytes.length) := if_pos h

/-- The fields of a header are slices of it. -/
theorem header_of_le {bytes : Bytes} (h : Blob.headerSize ≤ bytes.length) :
    header bytes =
      if Blob.slice bytes 0 4 ≠ Blob.magic then refuse .badMagic
      else .ok ((Blob.slice bytes 4 2).toNat, (Blob.slice bytes 12 4).toNat, Blob.slice bytes 16 16) := by
  have hlen : 32 ≤ bytes.length := h
  have hmagic : range bytes 0 4 = .ok (Blob.slice bytes 0 4) := range_eq_slice (show 0 + 4 ≤ _ by omega)
  have hchecksum : range bytes 16 32 = .ok (Blob.slice bytes 16 16) := range_eq_slice (show 16 + 16 ≤ _ by omega)
  have hcopy : copy 16 (Blob.slice bytes 16 16) = .ok (Blob.slice bytes 16 16) :=
    copy_of_length (Blob.length_slice (by omega))
  have h4 : 4 < bytes.length := by omega
  have h5 : 5 < bytes.length := by omega
  have h12 : 12 < bytes.length := by omega
  have h13 : 13 < bytes.length := by omega
  have h14 : 14 < bytes.length := by omega
  have h15 : 15 < bytes.length := by omega
  have hversion : Blob.slice bytes 4 2 = [bytes[4], bytes[5]] := by
    simp only [Blob.slice_succ h4, Blob.slice_succ h5, Blob.slice_zero]
  have hlength : Blob.slice bytes 12 4 = [bytes[12], bytes[13], bytes[14], bytes[15]] := by
    simp only [Blob.slice_succ h12, Blob.slice_succ h13, Blob.slice_succ h14, Blob.slice_succ h15, Blob.slice_zero]
  rw [header, if_neg (Nat.not_lt.2 h), hmagic, ok_bind]
  split
  · rfl
  · simp only [get_of_lt h4, get_of_lt h5, get_of_lt h12, get_of_lt h13, get_of_lt h14, get_of_lt h15, hchecksum, hcopy,
      ok_bind, hversion, hlength]
    rfl

/-- The payload is found without a breach. -/
theorem payload_eq (bytes : Bytes) : payload bytes = answer (Blob.payload bytes) := by
  unfold payload Blob.payload
  split
  · next hshort =>
    rw [header_of_short hshort]
    rfl
  next hlong =>
  have hle : Blob.headerSize ≤ bytes.length := Nat.not_lt.1 hlong
  have hbound : Blob.headerSize + (Blob.slice bytes 12 4).toNat < wordBound :=
    Nat.lt_trans (Nat.add_lt_add_left (Blob.toNat_slice_lt bytes 12 4) 32) (by decide)
  rw [header_of_le hle]
  split
  · rfl
  dsimp only [ok_bind]
  split
  · rfl
  rw [plus_of_lt hbound]
  dsimp only [ok_bind]
  split
  · rw [minus_of_le hle]
    rfl
  next hlen =>
  have hhash : range (Blake3.hash (Blob.slice bytes Blob.headerSize (Blob.slice bytes 12 4).toNat)).toList 0 16 =
      .ok (Blob.checksum (Blob.slice bytes Blob.headerSize (Blob.slice bytes 12 4).toNat)) :=
    range_of_le (by decide) (by rw [Vector.length_toList]; decide)
  rw [range_eq_slice (Nat.not_lt.1 hlen)]
  dsimp only [ok_bind]
  rw [hhash]
  dsimp only [ok_bind]
  split
  · rfl
  · rfl

theorem listing_eq (bytes : Bytes) : listing bytes = answer (Blob.listing bytes) := by
  unfold listing Blob.listing
  rw [payload_eq]
  cases Blob.payload bytes with
  | error e => rfl
  | ok payload =>
    rw [answer_ok, ok_bind]
    dsimp only
    cases Payload.read.run payload <;> rfl

/-! ## Faults -/

theorem sumPredicates_eq {rows : List Row} (h : Listing.listedPredicates rows < wordBound) :
    sumPredicates rows = .ok (Listing.listedPredicates rows) := by
  have hsum : ((rows.flatMap Row.rules).map fun r => r.2.length).sum = Listing.listedPredicates rows := by
    clear h
    induction rows with
    | nil => rfl
    | cons row rest ih =>
      rw [List.flatMap_cons, List.map_append, List.sum_append, ih, Listing.listedPredicates, Rules.count_eq_sum]
  rw [← hsum] at h ⊢
  exact sum_of_lt h

/-- For each of the first `n` positions, how many of the rows hang on it. -/
def tally (n : Nat) (rows : List Row) : List Nat :=
  (List.range n).map fun p => rows.countP fun row => row.parent = some p

theorem length_tally (n : Nat) (rows : List Row) : (tally n rows).length = n := by
  rw [tally, List.length_map, List.length_range]

theorem get_tally {n p : Nat} (h : p < n) (rows : List Row) :
    get (tally n rows) p = .ok (rows.countP fun row => row.parent = some p) :=
  get_of_getElem? (by rw [tally, List.getElem?_map, List.getElem?_range h]; rfl)

/-- No row hangs on any yet. -/
theorem tally_root {n : Nat} {root : Row} (h : root.parent = none) : tally n [root] = List.replicate n 0 := by
  refine List.eq_replicate_iff.2 ⟨length_tally n [root], fun c hc => ?_⟩
  obtain ⟨p, -, rfl⟩ := List.mem_map.1 hc
  simp [h]

/-- One more row that hangs on position `p`. -/
theorem set_tally {n p : Nat} (rows : List Row) {row : Row} (hp : row.parent = some p) :
    (tally n rows).set p ((rows.countP fun row => row.parent = some p) + 1) = tally n (rows ++ [row]) := by
  refine List.ext_getElem (by simp [length_tally]) fun q _ _ => ?_
  rw [List.getElem_set]
  split
  · next hq =>
    subst hq
    simp [tally, hp]
  · next hq => simp [tally, hp, hq]

/-- **The counters tally the rows.** They are raised without a breach, for each row hangs on an earlier one and no
counter exceeds the number of rows. -/
theorem countLinks_eq {n : Nat} (hn : n < wordBound) (seen : List (Nat × Edge)) (before : List Row) {rows : List Row}
    (hrows : before.length + rows.length ≤ n) :
    countLinks seen (tally n before) before.length rows =
      (Listing.linkFault? seen before.length rows).elim (.ok (tally n (before ++ rows))) refuseFault := by
  induction rows generalizing seen before with
  | nil => rw [List.append_nil]; rfl
  | cons row rest ih =>
    rw [List.length_cons] at hrows
    obtain ⟨parent, edge, rules⟩ := row
    rw [countLinks, Listing.linkFault?]
    simp only [List.contains_iff_mem]
    cases parent with
    | none => rfl
    | some p =>
    cases edge with
    | none => rfl
    | some s =>
      dsimp only
      split
      · rfl
      split
      · rfl
      next hbefore hnew =>
      have hlt : p < n := by omega
      have hcount : (before.countP fun row => row.parent = some p) ≤ before.length := List.countP_le_length
      have hlater := ih ((p, s.edge) :: seen) (before ++ [⟨some p, some s, rules⟩])
        (by rw [List.length_append, List.length_singleton]; omega)
      rw [List.length_append, List.length_singleton, List.append_assoc, List.singleton_append] at hlater
      have hraised := set_tally (n := n) before (show Row.parent ⟨some p, some s, rules⟩ = some p from rfl)
      rw [get_tally hlt, ok_bind, plus_of_lt (by omega), ok_bind, set_of_lt (by rw [length_tally]; exact hlt), ok_bind,
        hraised, hlater]

/-- The counters of all rows tell which of them have a child. -/
theorem checkContents_eq {all rows : List Row} (index : Nat) (h : index + rows.length ≤ all.length) :
    checkContents (tally all.length all) index rows =
      (Listing.contentFault? all index rows).elim (.ok ()) refuseFault := by
  induction rows generalizing index with
  | nil => rfl
  | cons row rest ih =>
    rw [List.length_cons] at h
    have hlater := ih (index + 1) (by omega)
    have hchild : (all.countP fun row => row.parent = some index) = 0 ↔ Listing.hasChild all index = false := by
      simp [Listing.hasChild, List.countP_eq_zero]
    rw [checkContents, Listing.contentFault?]
    cases Listing.ruleFault? index [] row.rules with
    | some fault => rfl
    | none =>
      rw [Option.none_or]
      dsimp only
      by_cases hbare : 0 < index ∧ row.rules = []
      · rw [if_pos hbare, get_tally (by omega), ok_bind, hlater]
        simp only [hchild, hbare.1, hbare.2, decide_true, List.isEmpty_nil, Bool.true_and, Bool.not_eq_true']
        split <;> rfl
      · rw [if_neg hbare, hlater, if_neg]
        simpa [and_assoc] using fun hi hr => absurd ⟨hi, hr⟩ hbare

/-- **A listing is checked without a breach**, and by the same faults refused. -/
theorem check_eq {l : Listing} (hrows : l.rows.length < wordBound)
    (hpredicates : Listing.listedPredicates l.rows < wordBound) :
    check l = l.fault?.elim (.ok ()) refuseFault := by
  unfold check Listing.fault?
  split
  · rfl
  rw [sumPredicates_eq hpredicates, ok_bind]
  split
  · rfl
  generalize l.rows = rows at *
  cases rows with
  | nil => rfl
  | cons root rest =>
    dsimp only
    split
    · rfl
    next hroot =>
    have hnone : root.parent = none ∧ root.edge = none := by simpa using hroot
    have hlinks := countLinks_eq hrows [] [root] (show [root].length + rest.length ≤ (root :: rest).length by
      rw [List.length_singleton, List.length_cons]; omega)
    rw [List.length_singleton, List.singleton_append] at hlinks
    rw [← tally_root hnone.1, hlinks]
    cases Listing.linkFault? [] 1 rest with
    | some fault => rfl
    | none => exact checkContents_eq 0 (by omega)

/-! ## Assembly -/

/-- The tree at a row as far as the rows from position `k` on make it. -/
def partAt (rows : List Row) (k i : Nat) : RuleTree :=
  match rows[i]? with
  | none => .empty
  | some row => Listing.graft i row.tree (rows.zipIdx.drop k)

/-- The trees at the positions before `k`, with all that the later ones have been moved there. -/
def Attached (rows : List Row) (k : Nat) (trees : List RuleTree) : Prop :=
  trees.length = rows.length ∧ ∀ i, i < k → i < rows.length → trees[i]? = some (partAt rows k i)

section

variable {l : Listing} {trees : List RuleTree}

/-- The row at position `k` puts its tree below the row that it hangs on, and leaves the others as they are. -/
theorem partAt_eq (h : l.WellFormed) {k p i : Nat} {s : Segment} (hk : Listing.HangsBy l.rows k p s) (hi : i < k) :
    partAt l.rows k i =
      if i = p then (partAt l.rows (k + 1) i).put s (Listing.treeAt l.rows k) else partAt l.rows (k + 1) i := by
  have hlt : k < l.rows.length := hk.lt_length
  have hrow : l.rows[i]? = some l.rows[i] := List.getElem?_eq_getElem (by omega)
  have hlen : l.rows.length - k = l.rows.length - (k + 1) + 1 := by omega
  have hlater : (List.range' k (l.rows.length - k)).Sublist (List.range l.rows.length) := by
    rw [Listing.range_eq_append (Nat.le_of_lt hlt)]
    exact List.sublist_append_right _ _
  have hnew := (h.newTo_branchesAt hrow).sublist (hlater.filterMap _)
  unfold partAt
  simp only [hrow]
  rw [Listing.graft_drop, Listing.graft_drop]
  rw [hlen, List.range'_succ, List.filterMap_cons] at hnew ⊢
  by_cases hp : i = p
  · subst hp
    have hbranch : Listing.branchAt? l.rows i k = some (s, Listing.treeAt l.rows k) :=
      Listing.branchAt?_eq_some_iff.2 ⟨hk, rfl⟩
    rw [hbranch] at hnew ⊢
    rw [if_pos rfl]
    exact RuleTree.putAll_cons hnew
  · have hnone : Listing.branchAt? l.rows i k = none := by
      refine Option.eq_none_iff_forall_ne_some.2 fun b hb => ?_
      obtain ⟨rules, hrow⟩ := hk
      obtain ⟨rules', hrow'⟩ := (Listing.branchAt?_eq_some_iff.1 hb).1
      cases hrow.symm.trans hrow'
      exact hp rfl
    rw [hnone, if_neg hp]

/-- **One tree is moved** without a breach, to a row that stands before. -/
theorem move_attached (h : l.WellFormed) {k : Nat} (hpos : 0 < k) (hk : k < l.rows.length)
    (ht : Attached l.rows (k + 1) trees) :
    ∃ trees', move (l.rows.map branchOf) trees k = .ok trees' ∧ Attached l.rows k trees' := by
  obtain ⟨hlen, htrees⟩ := ht
  obtain ⟨p, s, hhangs, hp⟩ := h.hangs hk hpos
  obtain ⟨rules, hrow⟩ := hhangs
  have hlink : (l.rows.map branchOf)[k]? = some (some (p, s)) := by
    rw [List.getElem?_map, hrow]
    rfl
  have hchild : trees[k]? = some (Listing.treeAt l.rows k) := htrees k (Nat.lt_succ_self k) hk
  have hparent : (trees.set k .empty)[p]? = some (partAt l.rows (k + 1) p) := by
    rw [List.getElem?_set_ne (Nat.ne_of_gt hp)]
    exact htrees p (by omega) (by omega)
  refine ⟨(trees.set k .empty).set p ((partAt l.rows (k + 1) p).put s (Listing.treeAt l.rows k)), ?_, ?_, ?_⟩
  · rw [move, get_of_getElem? hlink, ok_bind]
    dsimp only
    rw [get_of_getElem? hchild, ok_bind, set_of_lt (by omega), ok_bind, get_of_getElem? hparent, ok_bind,
      set_of_lt (by rw [List.length_set]; omega)]
  · rw [List.length_set, List.length_set, hlen]
  · intro i hi hilen
    rw [partAt_eq h ⟨rules, hrow⟩ hi]
    split
    · next hip =>
      subst hip
      rw [List.getElem?_set_self (by rw [List.length_set]; omega)]
    · next hip =>
      rw [List.getElem?_set_ne (Ne.symm hip), List.getElem?_set_ne (Nat.ne_of_gt hi)]
      exact htrees i (by omega) hilen

/-- All trees are moved without a breach, the last one first. -/
theorem attach_attached (h : l.WellFormed) {k : Nat} (hk : k < l.rows.length) (ht : Attached l.rows (k + 1) trees) :
    ∃ trees', attach (l.rows.map branchOf) k trees = .ok trees' ∧ Attached l.rows 1 trees' := by
  induction k generalizing trees with
  | zero => exact ⟨trees, rfl, ht⟩
  | succ k ih =>
    obtain ⟨moved, hmove, hmoved⟩ := move_attached h (Nat.succ_pos k) hk ht
    obtain ⟨trees', hattach, hattached⟩ := ih (by omega) hmoved
    refine ⟨trees', ?_, hattached⟩
    rw [attach, hmove, ok_bind, hattach]

/-- No tree has been moved. -/
theorem attached_trees (l : Listing) : Attached l.rows l.rows.length (l.rows.map Row.tree) := by
  refine ⟨List.length_map _, fun i _ hi => ?_⟩
  have hnone : l.rows.zipIdx.drop l.rows.length = [] := List.drop_eq_nil_of_le (Nat.le_of_eq List.length_zipIdx)
  unfold partAt
  rw [List.getElem?_map, List.getElem?_eq_getElem hi, hnone]
  rfl

/-- **A listing without faults is assembled without a breach.** -/
theorem build_eq (h : l.WellFormed) : build l = .ok l.toTree := by
  have hpos := h.length_pos
  have hlast : l.rows.length - 1 + 1 = l.rows.length := Nat.sub_add_cancel hpos
  obtain ⟨trees, hattach, -, htrees⟩ := attach_attached h (Nat.sub_one_lt_of_lt hpos) (hlast.symm ▸ attached_trees l)
  rw [build, hattach, ok_bind, get_of_getElem? (htrees 0 Nat.one_pos hpos), h.toTree_eq]
  rfl

end

/-! ## Loading -/

theorem info_eq (bytes : Bytes) : info bytes = answer (TreeInfo.ofBytes bytes) := by
  unfold info TreeInfo.ofBytes
  rw [listing_eq]
  cases Blob.listing bytes <;> rfl

theorem tree_eq (bytes : Bytes) : tree bytes = answer (RuleTree.ofBytes bytes) := by
  unfold tree RuleTree.ofBytes
  rw [listing_eq]
  cases hl : Blob.listing bytes with
  | error e => rfl
  | ok l =>
    obtain ⟨hrows, hpredicates⟩ := Blob.size_listing_lt hl
    have hword : 2 ^ 32 < wordBound := by decide
    rw [answer_ok, ok_bind, check_eq (Nat.lt_trans hrows hword) (Nat.lt_trans hpredicates hword)]
    dsimp only
    cases hfault : l.fault? with
    | some fault => rfl
    | none => exact build_eq (Listing.fault?_eq_none_iff.1 hfault)

end InPlace

/-- **Loading stays within bounds.** Whatever the bytes, loading in place gives a value or refuses them with an error,
the same as `RuleTree.ofBytes` and `TreeInfo.ofBytes`. A listing that is read from a payload has no more rows, rules and
predicates than bytes are taken for it, and these are fewer than `2 ^ 32`. -/
theorem loads_within_bounds (bytes : Bytes) :
    InPlace.tree bytes = (RuleTree.ofBytes bytes).mapError .refused ∧
      InPlace.info bytes = (TreeInfo.ofBytes bytes).mapError .refused ∧
        ∀ payload l rest, Blob.payload bytes = .ok payload → Payload.read payload = .ok (l, rest) →
          ∃ taken, payload = taken ++ rest ∧ taken.length < 2 ^ 32 ∧
            l.rows.length + (l.rows.map fun row => row.rules.length).sum + Listing.listedPredicates l.rows ≤
              taken.length := by
  refine ⟨InPlace.tree_eq bytes, InPlace.info_eq bytes, fun payload l rest hpayload hread => ?_⟩
  have hlen := Blob.length_payload_lt hpayload
  obtain ⟨taken, rfl, hsize⟩ := Payload.size_le_length hread
  rw [List.length_append] at hlen
  exact ⟨taken, rfl, by omega, hsize⟩

/-- A blob in order, but for a row that hangs on one that is not there: nothing is looked up at that position. -/
theorem loads_within_bounds_of_stray_row :
    let l : Listing := ⟨⟨2, 1, none⟩, [⟨none, none, []⟩, ⟨some 5, some (.literal "a"), [(.read, [⟨"p"⟩])]⟩]⟩
    InPlace.tree (Blob.ofListing l) = .error (.refused (.validation (.laterParent 1 5))) ∧
      InPlace.info (Blob.ofListing l) = .ok l.info ∧
        ∃ taken, Payload.write l = taken ++ [] ∧ taken.length < 2 ^ 32 ∧
          l.rows.length + (l.rows.map fun row => row.rules.length).sum + Listing.listedPredicates l.rows ≤
            taken.length := by
  intro l
  have hpayload : Blob.payload (Blob.ofListing l) = .ok (Payload.write l) := Blob.payload_header (by decide)
  have hread : Payload.read (Payload.write l) = .ok (l, []) := by
    have hgives := Payload.gives_read (l := l) (by decide) (by decide) (by decide) (by decide) []
    rwa [List.append_nil] at hgives
  have hlisting : Blob.listing (Blob.ofListing l) = .ok l := Blob.listing_eq_ok_iff.2 ⟨_, [], hpayload, hread⟩
  have hfault : l.fault? = some (.laterParent 1 5) := by decide
  obtain ⟨htree, hinfo, hsize⟩ := loads_within_bounds (Blob.ofListing l)
  refine ⟨?_, ?_, hsize _ l [] hpayload hread⟩
  · rw [htree, RuleTree.ofBytes, hlisting]
    dsimp only
    rw [hfault]
    rfl
  · rw [hinfo, TreeInfo.ofBytes_of_listing hlisting]
    rfl

end AccessRules
