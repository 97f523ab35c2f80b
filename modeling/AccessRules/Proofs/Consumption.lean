import AccessRules.Binary.Payload
import Mathlib.Algebra.GroupWithZero.Nat

/-!
# What readers take

A reader that gives a value has taken at least as many bytes as the value is large: every row, every rule and every
predicate of a listing has a byte of its own (`covers_read`). So the sizes of what is read are bounded by the length of
a payload, whatever numbers stand in it.

`Covers` says this of a reader with some bytes to its credit, those that were taken before and not yet counted; credits
are handed on along `bind`.
-/

namespace AccessRules.Payload

/-! ## Two readers in sequence -/

section

variable {α β : Type} {read : Reader α} {next : α → Reader β} {bytes left rest : Bytes} {a : α} {b : β}

theorem bind_of_ok (h : read bytes = .ok (a, left)) : (read >>= next) bytes = next a left := by
  have hbind : (read >>= next) bytes = (read bytes) >>= fun r => next r.1 r.2 := rfl
  rw [hbind, h]
  rfl

theorem bind_of_error {error : DecodeError} (h : read bytes = .error error) :
    (read >>= next) bytes = .error error := by
  have hbind : (read >>= next) bytes = (read bytes) >>= fun r => next r.1 r.2 := rfl
  rw [hbind, h]
  rfl

/-- Both readers give a value, the second one from what the first one leaves. -/
theorem bind_eq_ok_iff :
    (read >>= next) bytes = .ok (b, rest) ↔ ∃ a left, read bytes = .ok (a, left) ∧ next a left = .ok (b, rest) := by
  constructor
  · intro h
    cases hr : read bytes with
    | error error =>
      rw [bind_of_error hr] at h
      cases h
    | ok r =>
      rw [bind_of_ok hr] at h
      exact ⟨r.1, r.2, rfl, h⟩
  · rintro ⟨a, left, hr, h⟩
    exact (bind_of_ok hr).trans h

end

/-! ## Credit -/

/-- The reader takes its bytes off the front, and these, with `credit` more, are no fewer than the size of what it
gives. -/
def Covers {α : Type} (credit : Nat) (read : Reader α) (size : α → Nat) : Prop :=
  ∀ bytes a rest, read bytes = .ok (a, rest) → ∃ taken, bytes = taken ++ rest ∧ size a ≤ taken.length + credit

section

variable {α β : Type} {credit : Nat} {read : Reader α} {size size' : α → Nat}

namespace Covers

theorem pure {a : α} (h : size a ≤ credit) : Covers credit (Pure.pure a) size := by
  rintro bytes _ _ ⟨⟩
  exact ⟨[], rfl, Nat.le_trans h (Nat.le_add_left _ _)⟩

theorem throw (error : DecodeError) : Covers credit (MonadExcept.throw error : Reader α) size := by
  rintro bytes _ _ ⟨⟩

/-- What the first reader has taken is to the credit of the next one. -/
theorem bind {next : α → Reader β} {size' : β → Nat} (h : Covers credit read size)
    (hnext : ∀ a, Covers (size a) (next a) size') : Covers credit (read >>= next) size' := by
  intro bytes b rest hb
  obtain ⟨a, left, hread, hnextread⟩ := bind_eq_ok_iff.1 hb
  obtain ⟨taken, rfl, hfirst⟩ := h bytes a left hread
  obtain ⟨taken', rfl, hsecond⟩ := hnext a left b rest hnextread
  refine ⟨taken ++ taken', (List.append_assoc ..).symm, ?_⟩
  rw [List.length_append]
  omega

theorem mono (h : Covers credit read size) (hle : ∀ a, size' a ≤ size a) : Covers credit read size' := by
  intro bytes a rest ha
  obtain ⟨taken, hbytes, hsize⟩ := h bytes a rest ha
  exact ⟨taken, hbytes, Nat.le_trans (hle a) hsize⟩

theorem map {f : α → β} {size' : β → Nat} (h : Covers credit read size) (hle : ∀ a, size' (f a) ≤ size a) :
    Covers credit (f <$> read) size' := by
  rw [← bind_pure_comp]
  exact h.bind fun a => .pure (hle a)

end Covers

end

/-! ## Bytes and numbers -/

section

variable {credit : Nat}

theorem covers_readByte : Covers credit readByte fun _ => credit + 1 := by
  intro bytes a rest h
  cases bytes with
  | nil => cases h
  | cons b bytes =>
    cases h
    exact ⟨[a], rfl, Nat.le_of_eq (Nat.add_comm _ _)⟩

/-- What is split off is so long, and what is left stands behind it. -/
theorem eq_append_of_splitExactly {n : Nat} {bytes taken rest : Bytes} (h : splitExactly n bytes = .ok (taken, rest)) :
    bytes = taken ++ rest ∧ taken.length = n := by
  induction n generalizing bytes taken rest with
  | zero =>
    cases h
    exact ⟨rfl, rfl⟩
  | succ n ih =>
    cases bytes with
    | nil => cases h
    | cons b bytes =>
      rw [splitExactly] at h
      split at h
      · cases h
      · next taken' rest' hsplit =>
        cases h
        obtain ⟨rfl, rfl⟩ := ih hsplit
        exact ⟨rfl, rfl⟩

theorem covers_readBytes (n : Nat) : Covers credit (readBytes n) fun _ => credit + n := by
  intro bytes taken rest h
  obtain ⟨hbytes, rfl⟩ := eq_append_of_splitExactly h
  exact ⟨taken, hbytes, Nat.le_of_eq (Nat.add_comm _ _)⟩

/-- A number takes its first byte at least. -/
theorem covers_readNat (purpose : Purpose) : Covers credit (readNat purpose) fun _ => credit + 1 := by
  refine covers_readByte.bind fun mark => ?_
  unfold readNatFrom
  have hbytes {k : Nat} : Covers (credit + 1) (Bytes.toNat <$> readBytes k) fun _ => credit + 1 :=
    (covers_readBytes k).map fun _ => Nat.le_add_right _ _
  split
  · exact .pure (Nat.le_refl _)
  split
  · exact hbytes
  split
  · exact hbytes
  split
  · exact hbytes
  · rintro bytes _ _ ⟨⟩

end

/-! ## Texts, optional values and lists -/

section

variable {α : Type} {credit : Nat} {read : Reader α} {size : α → Nat}

theorem covers_readText : Covers credit readText fun _ => credit + 1 := by
  refine (covers_readNat .count).bind fun n => (covers_readBytes n).bind fun bytes => ?_
  cases Utf8.decode bytes with
  | ok s => exact .pure (Nat.le_add_right _ _)
  | error flaw => exact .throw _

theorem covers_readOption (h : ∀ credit, Covers credit read fun _ => credit) :
    Covers credit (readOption read) fun _ => credit + 1 := by
  refine covers_readByte.bind fun present => ?_
  split
  · exact .pure (Nat.le_refl _)
  split
  · exact (h (credit + 1)).map fun _ => Nat.le_refl _
  · exact .throw _

/-- Values take the sum of what each of them takes. -/
theorem covers_readTimes (h : ∀ credit, Covers credit read fun a => credit + size a) (n : Nat) :
    Covers credit (readTimes read n) fun as => credit + (as.map size).sum := by
  induction n generalizing credit with
  | zero => exact .pure (Nat.le_refl _)
  | succ n ih =>
    refine (h credit).bind fun a => ih.bind fun as => .pure (Nat.le_of_eq ?_)
    rw [List.map_cons, List.sum_cons, Nat.add_assoc]

theorem covers_readList (h : ∀ credit, Covers credit read fun a => credit + size a) :
    Covers credit (readList read) fun as => credit + 1 + (as.map size).sum :=
  (covers_readNat .listLength).bind fun n => covers_readTimes h n

end

/-! ## Listings -/

section

variable {credit : Nat}

theorem covers_readAlternative (alternatives : Nat) :
    Covers credit (readAlternative alternatives) fun _ => credit + 1 := by
  refine (covers_readNat .alternative).bind fun n => ?_
  split
  · exact .pure (Nat.le_refl _)
  · exact .throw _

theorem covers_readSegment : Covers credit readSegment fun _ => credit :=
  (covers_readAlternative 2).bind fun _ => covers_readText.bind fun _ => .pure (by omega)

theorem covers_readCategory : Covers credit readCategory fun _ => credit + 1 := by
  refine (covers_readNat .alternative).bind fun n => ?_
  cases Category.ofPosition? n with
  | some c => exact .pure (Nat.le_refl _)
  | none => exact .throw _

/-- A rule takes a byte for itself and one for each of its predicates. -/
theorem covers_readRule : Covers credit readRule fun r => credit + (1 + r.2.length) := by
  have hpredicate : ∀ credit, Covers credit (Predicate.mk <$> readText) fun _ => credit + 1 :=
    fun _ => covers_readText.map fun _ => Nat.le_refl _
  refine covers_readCategory.bind fun c => (covers_readList hpredicate).bind fun ps => .pure ?_
  simp only [List.map_const', List.sum_replicate_nat]
  omega

/-- The number of the rules of a row and of their predicates. -/
def entries (row : Listing.Row) : Nat := (row.rules.map fun r => 1 + r.2.length).sum

/-- A row takes a byte for itself and those of its rules. -/
theorem covers_readRow : Covers credit readRow fun row => credit + (1 + entries row) := by
  have hparent : ∀ credit, Covers credit (readNat .count) fun _ => credit :=
    fun _ => (covers_readNat .count).mono fun _ => Nat.le_succ _
  refine (covers_readOption hparent).bind fun parent => ?_
  refine (covers_readOption fun _ => covers_readSegment).bind fun edge => ?_
  refine (covers_readList fun _ => covers_readRule).bind fun rules => .pure ?_
  show credit + (1 + (rules.map fun r => 1 + r.2.length).sum) ≤ _
  omega

theorem covers_readInfo : Covers credit readInfo fun _ => credit := by
  have hbyte : ∀ credit, Covers credit readByte fun _ => credit + 0 :=
    fun _ => covers_readByte.mono fun _ => Nat.le_succ _
  have hdigest : ∀ credit, Covers credit readDigest fun _ => credit :=
    fun _ => (covers_readTimes hbyte 32).bind fun _ => .pure (Nat.le_add_right _ _)
  refine (covers_readNat .count).bind fun _ => (covers_readNat .count).bind fun _ => ?_
  exact (covers_readOption hdigest).bind fun _ => .pure (by omega)

/-- **A listing takes a byte for each of its rows, rules and predicates.** -/
theorem covers_read : Covers credit read fun l => credit + (l.rows.map fun row => 1 + entries row).sum := by
  refine covers_readInfo.bind fun info => (covers_readList fun _ => covers_readRow).bind fun rows => .pure ?_
  show credit + (rows.map fun row => 1 + entries row).sum ≤ _
  omega

end

/-! ## Sizes of listings -/

theorem entries_eq (row : Listing.Row) : entries row = row.rules.length + row.rules.count := by
  unfold entries
  induction row.rules with
  | nil => rfl
  | cons r rest ih =>
    simp only [List.map_cons, List.sum_cons, List.length_cons, Rules.count]
    omega

theorem sum_entries (rows : List Listing.Row) :
    (rows.map fun row => 1 + entries row).sum =
      rows.length + (rows.map fun row => row.rules.length).sum + Listing.listedPredicates rows := by
  induction rows with
  | nil => rfl
  | cons row rest ih =>
    simp only [List.map_cons, List.sum_cons, List.length_cons, Listing.listedPredicates, entries_eq]
    simp only [entries_eq] at ih
    omega

/-- What is read from a payload is no larger than what is taken from it. -/
theorem size_le_length {bytes rest : Bytes} {l : Listing} (h : read bytes = .ok (l, rest)) :
    ∃ taken, bytes = taken ++ rest ∧
      l.rows.length + (l.rows.map fun row => row.rules.length).sum + Listing.listedPredicates l.rows ≤
        taken.length := by
  have hcovers : Covers 0 read _ := covers_read
  obtain ⟨taken, hbytes, hsize⟩ := hcovers bytes l rest h
  simp only [sum_entries, Nat.zero_add, Nat.add_zero] at hsize
  exact ⟨taken, hbytes, hsize⟩

end AccessRules.Payload
