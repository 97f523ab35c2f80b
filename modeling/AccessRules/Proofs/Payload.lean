import Mathlib.Algebra.Group.Nat.Defs
import AccessRules.Binary.Payload
import AccessRules.Proofs.Utf8

/-!
# Listings come back from their bytes

`Gives read bytes a` says that a reader takes exactly these bytes and gives `a`, whatever stands behind them. Every
reader gives back what the writer of the same name has written, as long as its numbers fit into eight bytes; for lengths
this holds if all that is written is that short. `gives_read` puts this together for listings.
-/

namespace AccessRules

theorem Bytes.toNat_ofNat (k n : Nat) : (ofNat k n).toNat = n % 256 ^ k := by
  induction k generalizing n with
  | zero => simp [ofNat, toNat, Nat.mod_one]
  | succ k ih =>
    have hbyte : (UInt8.ofNat n).toNat = n % 256 := UInt8.toNat_ofNat'
    rw [ofNat, toNat, ih, hbyte, Nat.pow_succ', Nat.mod_mul]

namespace Payload

/-- The reader takes these bytes off the front and gives `a`. -/
def Gives {α : Type} (read : Reader α) (bytes : Bytes) (a : α) : Prop :=
  ∀ rest, read (bytes ++ rest) = .ok (a, rest)

namespace Gives

variable {α β : Type} {read : Reader α} {bs bs' : Bytes} {a : α}

theorem pure (a : α) : Gives (Pure.pure a) [] a := fun _ => rfl

theorem bind {next : α → Reader β} {b : β} (h : Gives read bs a) (hnext : Gives (next a) bs' b) :
    Gives (read >>= next) (bs ++ bs') b := by
  intro rest
  show (do let (a, left) ← read (bs ++ bs' ++ rest); next a left) = _
  rw [List.append_assoc, h]
  exact hnext rest

theorem map (h : Gives read bs a) (f : α → β) : Gives (f <$> read) bs (f a) := by
  intro rest
  show (do let (a, left) ← read (bs ++ rest); Except.ok (f a, left)) = _
  rw [h]
  rfl

/-- What comes behind the last bytes of a value reads no more of them. -/
theorem bind_nil {next : α → Reader β} {b : β} (h : Gives read bs a) (hnext : Gives (next a) [] b) :
    Gives (read >>= next) bs b := by
  have hboth := h.bind hnext
  rwa [List.append_nil] at hboth

end Gives

/-! ## Bytes and numbers -/

theorem gives_readByte (b : UInt8) : Gives readByte [b] b := fun _ => rfl

theorem gives_readBytes : ∀ bs : Bytes, Gives (readBytes bs.length) bs bs
  | [] => fun _ => rfl
  | b :: bs => by
    intro rest
    have ih : splitExactly bs.length (bs ++ rest) = .ok (bs, rest) := gives_readBytes bs rest
    show splitExactly (bs.length + 1) (b :: (bs ++ rest)) = _
    rw [splitExactly, ih]

/-- A number in `k` bytes that are as many as it needs. -/
theorem gives_toNat {k n : Nat} (h : n < 256 ^ k) : Gives (Bytes.toNat <$> readBytes k) (Bytes.ofNat k n) n := by
  have hbytes := gives_readBytes (Bytes.ofNat k n)
  rw [Bytes.length_ofNat] at hbytes
  have hnat := hbytes.map Bytes.toNat
  rwa [Bytes.toNat_ofNat, Nat.mod_eq_of_lt h] at hnat

theorem gives_readNat (purpose : Purpose) {n : Nat} (h : n < 2 ^ 64) (hp : purpose = .alternative → n < 2 ^ 32) :
    Gives (readNat purpose) (writeNat n) n := by
  have hmark {mark : UInt8} {bytes : Bytes} (hfrom : Gives (readNatFrom purpose mark) bytes n) :
      Gives (readNat purpose) (mark :: bytes) n :=
    (gives_readByte mark).bind hfrom
  unfold writeNat
  split
  · next h1 =>
    have hbyte : (UInt8.ofNat n).toNat = n := Utf8.toNat_ofNat (by omega)
    have hlt : UInt8.ofNat n < 0xFB := by
      rw [UInt8.lt_iff_toNat_lt, hbyte]
      exact h1
    refine hmark ?_
    rw [readNatFrom, if_pos hlt, hbyte]
    exact .pure n
  split
  · next h2 => exact hmark (gives_toNat (by omega))
  split
  · next h3 => exact hmark (gives_toNat (by omega))
  · next h3 =>
    have hne : purpose ≠ .alternative := fun e => by have := hp e; omega
    refine hmark ?_
    rw [readNatFrom, if_neg (by decide), if_neg (by decide), if_neg (by decide), if_pos ⟨rfl, hne⟩]
    exact gives_toNat (by omega)

theorem gives_readAlternative {n alternatives : Nat} (hn : n < alternatives) (h : n < 2 ^ 32) :
    Gives (readAlternative alternatives) (writeNat n) n := by
  have hnat : Gives (readNat .alternative) (writeNat n) n := gives_readNat _ (by omega) fun _ => h
  refine hnat.bind_nil ?_
  simp only [if_pos hn]
  exact .pure n

/-! ## Texts, optional values and lists -/

section

variable {α : Type} {read : Reader α} {write : α → Bytes}

theorem gives_readText {s : String} (h : (writeText s).length < 2 ^ 64) : Gives readText (writeText s) s := by
  have hlen : (Utf8.encode s).length < 2 ^ 64 := by
    simp only [writeText, List.length_append] at h
    omega
  refine (gives_readNat .count hlen nofun).bind ((gives_readBytes _).bind_nil ?_)
  rw [Utf8.decode_encode]
  exact .pure s

theorem gives_readOption {o : Option α} (h : ∀ a ∈ o, Gives read (write a) a) :
    Gives (readOption read) (writeOption write o) o := by
  cases o with
  | none => exact (gives_readByte 0).bind (.pure none)
  | some a => exact (gives_readByte 1).bind ((h a rfl).map some)

theorem gives_readTimes {as : List α} (h : ∀ a ∈ as, Gives read (write a) a) :
    Gives (readTimes read as.length) (as.flatMap write) as := by
  induction as with
  | nil => exact .pure []
  | cons a as ih =>
    have htail := ih fun a ha => h a (List.mem_cons_of_mem _ ha)
    exact (h a List.mem_cons_self).bind (htail.bind_nil (.pure _))

theorem length_write_le {as : List α} (ha : a ∈ as) : (write a).length ≤ (writeList write as).length := by
  have hsub : (write a).Sublist (as.flatMap write) := List.sublist_flatten_of_mem (List.mem_map_of_mem ha)
  unfold writeList
  rw [List.length_append]
  exact Nat.le_add_left_of_le hsub.length_le

/-- A measure of lists is no more than what is written of them if each element adds no more than what is written of
it. -/
theorem le_length_writeList {measure : List α → Nat} (hnil : measure [] = 0)
    (hcons : ∀ a as, measure (a :: as) ≤ (write a).length + measure as) (as : List α) :
    measure as ≤ (writeList write as).length := by
  have hflat : measure as ≤ (as.flatMap write).length := by
    induction as with
    | nil => exact Nat.le_of_eq hnil
    | cons a as ih =>
      rw [List.flatMap_cons, List.length_append]
      exact Nat.le_trans (hcons a as) (Nat.add_le_add_left ih _)
  unfold writeList
  rw [List.length_append]
  exact Nat.le_add_left_of_le hflat

theorem length_le_writeList (hw : ∀ a, 0 < (write a).length) (as : List α) : as.length ≤ (writeList write as).length :=
  le_length_writeList rfl (fun a as => by have := hw a; simp; omega) as

/-- A list comes back if its elements do, of which each writes something. -/
theorem gives_readList (hw : ∀ a, 0 < (write a).length) {as : List α} (h : (writeList write as).length < 2 ^ 64)
    (hread : ∀ a ∈ as, (write a).length < 2 ^ 64 → Gives read (write a) a) :
    Gives (readList read) (writeList write as) as := by
  have hlen : as.length < 2 ^ 64 := Nat.lt_of_le_of_lt (length_le_writeList hw as) h
  exact (gives_readNat .listLength hlen nofun).bind
    (gives_readTimes fun a ha => hread a ha (Nat.lt_of_le_of_lt (length_write_le ha) h))

end

/-! ## What is written is not empty -/

theorem length_writeNat_pos (n : Nat) : 0 < (writeNat n).length := by
  unfold writeNat
  split
  · exact Nat.one_pos
  split
  · exact Nat.succ_pos _
  split <;> exact Nat.succ_pos _

theorem length_writeText_pos (s : String) : 0 < (writeText s).length := by
  unfold writeText
  rw [List.length_append]
  exact Nat.add_pos_left (length_writeNat_pos _) _

theorem length_writeRule_pos (r : Category × List Predicate) : 0 < (writeRule r).length := by
  unfold writeRule
  rw [List.length_append]
  exact Nat.add_pos_left (length_writeNat_pos _) _

theorem length_writeOption_pos {α : Type} (write : α → Bytes) (o : Option α) : 0 < (writeOption write o).length := by
  cases o <;> exact Nat.succ_pos _

theorem length_writeRow_pos (row : Listing.Row) : 0 < (writeRow row).length := by
  unfold writeRow
  rw [List.length_append, List.length_append]
  have := length_writeOption_pos writeNat row.parent
  omega

/-! ## Listings -/

theorem gives_readSegment {s : Segment} (h : (writeSegment s).length < 2 ^ 64) :
    Gives readSegment (writeSegment s) s := by
  have hn {n : Nat} (hn : n < 2) : Gives (readAlternative 2) (writeNat n) n := gives_readAlternative hn (by omega)
  cases s with
  | literal text =>
    have ht : (writeText text).length < 2 ^ 64 := by
      simp only [writeSegment, List.length_append] at h
      omega
    exact (hn (n := 0) (by omega)).bind ((gives_readText ht).bind_nil (.pure _))
  | capture name =>
    have ht : (writeText name).length < 2 ^ 64 := by
      simp only [writeSegment, List.length_append] at h
      omega
    exact (hn (n := 1) (by omega)).bind ((gives_readText ht).bind_nil (.pure _))

theorem gives_readCategory (c : Category) : Gives readCategory (writeNat c.position) c := by
  have hlt : c.position < 8 := by cases c <;> decide
  have hnat : Gives (readNat .alternative) (writeNat c.position) c.position :=
    gives_readNat _ (by omega) fun _ => by omega
  refine hnat.bind_nil ?_
  rw [Category.ofPosition?_position]
  exact .pure c

theorem gives_readPredicate {p : Predicate} (h : (writeText p.text).length < 2 ^ 64) :
    Gives (Predicate.mk <$> readText) (writeText p.text) p :=
  (gives_readText h).map Predicate.mk

theorem gives_readRule {r : Category × List Predicate} (h : (writeRule r).length < 2 ^ 64) :
    Gives readRule (writeRule r) r := by
  have hp : (writeList (fun p => writeText p.text) r.2).length < 2 ^ 64 := by
    simp only [writeRule, List.length_append] at h
    omega
  have hpos : ∀ p : Predicate, 0 < (writeText p.text).length := fun p => length_writeText_pos p.text
  have hps := gives_readList hpos hp fun _ _ => gives_readPredicate
  exact (gives_readCategory r.1).bind (hps.bind_nil (.pure _))

theorem gives_readRow {row : Listing.Row} (hp : ∀ p ∈ row.parent, p < 2 ^ 64) (h : (writeRow row).length < 2 ^ 64) :
    Gives readRow (writeRow row) row := by
  simp only [writeRow, List.length_append] at h
  have hparent : Gives (readOption (readNat .count)) (writeOption writeNat row.parent) row.parent :=
    gives_readOption fun p hmem => gives_readNat .count (hp p hmem) nofun
  have hedge : Gives (readOption readSegment) (writeOption writeSegment row.edge) row.edge := by
    refine gives_readOption fun s hs => gives_readSegment ?_
    have hlen : (writeOption writeSegment row.edge).length = (writeSegment s).length + 1 := by
      rw [hs]
      rfl
    omega
  have hrules : Gives (readList readRule) (writeList writeRule row.rules) row.rules :=
    gives_readList length_writeRule_pos (by omega) fun r _ => gives_readRule
  unfold writeRow
  rw [List.append_assoc]
  exact hparent.bind (hedge.bind (hrules.bind_nil (.pure _)))

theorem gives_readDigest (d : Blake3.Digest) : Gives readDigest d.toList d := by
  have hbytes : Gives (readTimes readByte d.toList.length) (d.toList.flatMap fun b => [b]) d.toList :=
    gives_readTimes fun b _ => gives_readByte b
  rw [Vector.length_toList, List.flatMap_singleton'] at hbytes
  refine hbytes.bind_nil ?_
  have hback : (Vector.ofFn fun i : Fin 32 => d.toList[i.val]?.getD 0) = d := by
    ext i hi
    simp
  rw [hback]
  exact .pure d

theorem gives_readInfo {info : TreeInfo} (hn : info.nodeCount < 2 ^ 64) (hp : info.predicateCount < 2 ^ 64) :
    Gives readInfo (writeInfo info) info := by
  have hdigest := gives_readOption (o := info.sourceDigest) fun d _ => gives_readDigest d
  unfold writeInfo
  rw [List.append_assoc]
  exact (gives_readNat .count hn nofun).bind
    ((gives_readNat .count hp nofun).bind (hdigest.bind_nil (.pure _)))

/-- **Listings come back from their bytes.** -/
theorem gives_read {l : Listing} (hn : l.info.nodeCount < 2 ^ 64) (hp : l.info.predicateCount < 2 ^ 64)
    (hparents : ∀ row ∈ l.rows, ∀ p ∈ row.parent, p < 2 ^ 64) (h : (write l).length < 2 ^ 64) :
    Gives read (write l) l := by
  simp only [write, List.length_append] at h
  have hrows : Gives (readList readRow) (writeList writeRow l.rows) l.rows :=
    gives_readList length_writeRow_pos (by omega) fun row hrow => gives_readRow (hparents row hrow)
  exact (gives_readInfo hn hp).bind (hrows.bind_nil (.pure _))

end Payload

end AccessRules
