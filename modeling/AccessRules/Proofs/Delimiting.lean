import AccessRules.Proofs.Alterations
import AccessRules.Proofs.Consumption

/-!
# Payloads tell where they end

A reader is *self-delimiting* if the bytes that it takes for a value settle the value by themselves: it gives the same
whatever stands behind them, and of any shorter part of them it says that the bytes end too early (`Takes`). No value is
then read from the beginning of the bytes of another one.

This holds of bytes and of numbers behind their first byte, and it is handed on along `bind`, so it holds of every reader
of payloads, at every place where bytes may be cut off (`selfDelimiting_read`). A header with the right checksum before
such a part makes no difference: what protects a tree from being read as a smaller one is the form of its payload
(`payload_delimits_itself`).
-/

namespace AccessRules

namespace Payload

/-- The bytes end before the reader does, which needs at once no more than the missing ones. -/
def EndsEarly {α : Type} (read : Reader α) (bytes : Bytes) (missing : Nat) : Prop :=
  ∃ k, 0 < k ∧ k ≤ missing ∧ read bytes = .error (.unexpectedEnd k)

/-- The reader takes these bytes and gives `a`, whatever stands behind them, and no fewer of them will do. -/
structure Takes {α : Type} (read : Reader α) (bytes : Bytes) (a : α) : Prop where
  gives : Gives read bytes a
  cut : ∀ front, front <+: bytes → front.length < bytes.length → EndsEarly read front (bytes.length - front.length)

/-- Whatever the reader takes is delimited by itself. -/
def SelfDelimiting {α : Type} (read : Reader α) : Prop :=
  ∀ bytes a rest, read bytes = .ok (a, rest) → ∃ taken, bytes = taken ++ rest ∧ Takes read taken a

/-! ## Sequences -/

section

variable {α β : Type} {read : Reader α}

namespace Takes

variable {next : α → Reader β} {bs bs' : Bytes} {a : α} {b : β}

theorem pure (a : α) : Takes (Pure.pure a : Reader α) [] a where
  gives := .pure a
  cut := fun _ _ hlt => absurd hlt (Nat.not_lt_zero _)

/-- Bytes that are cut off in the first part stop the first reader, others the second. -/
theorem bind (h : Takes read bs a) (hnext : Takes (next a) bs' b) : Takes (read >>= next) (bs ++ bs') b where
  gives := h.gives.bind hnext.gives
  cut := by
    intro front hfront hlt
    rw [List.length_append] at hlt ⊢
    rcases Nat.lt_or_ge front.length bs.length with hfirst | hfirst
    · have hpart : front <+: bs :=
        List.prefix_of_prefix_length_le hfront (List.prefix_append bs bs') (Nat.le_of_lt hfirst)
      obtain ⟨k, hpos, hle, hread⟩ := h.cut front hpart hfirst
      exact ⟨k, hpos, by omega, bind_of_error hread⟩
    · obtain ⟨part, rfl⟩ := List.prefix_of_prefix_length_le (List.prefix_append bs bs') hfront hfirst
      rw [List.length_append] at hlt ⊢
      obtain ⟨k, hpos, hle, hread⟩ := hnext.cut part ((List.prefix_append_right_inj bs).1 hfront) (by omega)
      exact ⟨k, hpos, by omega, (bind_of_ok (h.gives part)).trans hread⟩

end Takes

namespace SelfDelimiting

theorem pure (a : α) : SelfDelimiting (Pure.pure a : Reader α) := by
  rintro bytes _ _ ⟨⟩
  exact ⟨[], rfl, .pure a⟩

theorem throw (error : DecodeError) : SelfDelimiting (MonadExcept.throw error : Reader α) := by
  rintro bytes _ _ ⟨⟩

theorem bind {next : α → Reader β} (h : SelfDelimiting read) (hnext : ∀ a, SelfDelimiting (next a)) :
    SelfDelimiting (read >>= next) := by
  intro bytes b rest hb
  obtain ⟨a, left, hread, hnextread⟩ := bind_eq_ok_iff.1 hb
  obtain ⟨taken, rfl, htaken⟩ := h bytes a left hread
  obtain ⟨taken', rfl, htaken'⟩ := hnext a left b rest hnextread
  exact ⟨taken ++ taken', (List.append_assoc ..).symm, htaken.bind htaken'⟩

theorem map (h : SelfDelimiting read) (f : α → β) : SelfDelimiting (f <$> read) := by
  rw [← bind_pure_comp]
  exact h.bind fun a => .pure (f a)

end SelfDelimiting

end

/-! ## Bytes and numbers -/

theorem selfDelimiting_readByte : SelfDelimiting readByte := by
  intro bytes b rest h
  cases bytes with
  | nil => cases h
  | cons b bytes =>
    cases h
    refine ⟨[b], rfl, gives_readByte b, fun front _ hlt => ⟨1, Nat.one_pos, ?_, ?_⟩⟩
    · omega
    · rw [List.length_singleton, Nat.lt_one_iff] at hlt
      rw [List.eq_nil_of_length_eq_zero hlt]
      rfl

/-- Bytes that are too few are all taken, and the others are missing. -/
theorem splitExactly_of_lt {bytes : Bytes} {n : Nat} (h : bytes.length < n) :
    splitExactly n bytes = .error (.unexpectedEnd (n - bytes.length)) := by
  induction bytes generalizing n with
  | nil =>
    cases n with
    | zero => exact absurd h (Nat.lt_irrefl 0)
    | succ n => rfl
  | cons b bytes ih =>
    cases n with
    | zero => exact absurd h (Nat.not_lt_zero _)
    | succ n =>
      rw [List.length_cons] at h ⊢
      rw [splitExactly, ih (Nat.lt_of_succ_lt_succ h), Nat.add_sub_add_right]

theorem selfDelimiting_readBytes (n : Nat) : SelfDelimiting (readBytes n) := by
  intro bytes taken rest h
  obtain ⟨hbytes, rfl⟩ := eq_append_of_splitExactly h
  refine ⟨taken, hbytes, gives_readBytes taken, fun front _ hlt => ?_⟩
  exact ⟨taken.length - front.length, Nat.sub_pos_of_lt hlt, Nat.le_refl _, splitExactly_of_lt hlt⟩

theorem selfDelimiting_readNat (purpose : Purpose) : SelfDelimiting (readNat purpose) := by
  refine selfDelimiting_readByte.bind fun mark => ?_
  have hbytes (k : Nat) : SelfDelimiting (Bytes.toNat <$> readBytes k) := (selfDelimiting_readBytes k).map _
  unfold readNatFrom
  split
  · exact .pure _
  split
  · exact hbytes 2
  split
  · exact hbytes 4
  split
  · exact hbytes 8
  · rintro bytes _ _ ⟨⟩

/-! ## Texts, optional values and lists -/

section

variable {α : Type} {read : Reader α}

theorem selfDelimiting_readText : SelfDelimiting readText := by
  refine (selfDelimiting_readNat .count).bind fun n => (selfDelimiting_readBytes n).bind fun bytes => ?_
  cases Utf8.decode bytes with
  | ok s => exact .pure s
  | error flaw => exact .throw _

theorem selfDelimiting_readOption (h : SelfDelimiting read) : SelfDelimiting (readOption read) := by
  refine selfDelimiting_readByte.bind fun present => ?_
  split
  · exact .pure none
  split
  · exact h.map some
  · exact .throw _

theorem selfDelimiting_readTimes (h : SelfDelimiting read) (n : Nat) : SelfDelimiting (readTimes read n) := by
  induction n with
  | zero => exact .pure []
  | succ n ih => exact h.bind fun a => ih.bind fun as => .pure (a :: as)

theorem selfDelimiting_readList (h : SelfDelimiting read) : SelfDelimiting (readList read) :=
  (selfDelimiting_readNat .listLength).bind fun n => selfDelimiting_readTimes h n

end

/-! ## Listings -/

theorem selfDelimiting_readAlternative (alternatives : Nat) : SelfDelimiting (readAlternative alternatives) := by
  refine (selfDelimiting_readNat .alternative).bind fun n => ?_
  split
  · exact .pure n
  · exact .throw _

theorem selfDelimiting_readSegment : SelfDelimiting readSegment :=
  (selfDelimiting_readAlternative 2).bind fun _ => selfDelimiting_readText.bind fun _ => .pure _

theorem selfDelimiting_readCategory : SelfDelimiting readCategory := by
  refine (selfDelimiting_readNat .alternative).bind fun n => ?_
  cases Category.ofPosition? n with
  | some c => exact .pure c
  | none => exact .throw _

theorem selfDelimiting_readRule : SelfDelimiting readRule :=
  selfDelimiting_readCategory.bind fun _ =>
    (selfDelimiting_readList (selfDelimiting_readText.map Predicate.mk)).bind fun _ => .pure _

theorem selfDelimiting_readRow : SelfDelimiting readRow :=
  (selfDelimiting_readOption (selfDelimiting_readNat .count)).bind fun _ =>
    (selfDelimiting_readOption selfDelimiting_readSegment).bind fun _ =>
      (selfDelimiting_readList selfDelimiting_readRule).bind fun _ => .pure _

theorem selfDelimiting_readInfo : SelfDelimiting readInfo := by
  have hdigest : SelfDelimiting readDigest :=
    (selfDelimiting_readTimes selfDelimiting_readByte 32).bind fun _ => .pure _
  exact (selfDelimiting_readNat .count).bind fun _ => (selfDelimiting_readNat .count).bind fun _ =>
    (selfDelimiting_readOption hdigest).bind fun _ => .pure _

/-- **Payloads are self-delimiting**, whoever wrote them. -/
theorem selfDelimiting_read : SelfDelimiting Payload.read :=
  selfDelimiting_readInfo.bind fun _ => (selfDelimiting_readList selfDelimiting_readRow).bind fun _ => .pure _

/-- What is written of a well-formed listing is taken for it, and no fewer bytes are. -/
theorem takes_write {l : Listing} (hl : l.WellFormed) (h : (write l).length < 2 ^ 64) :
    Takes Payload.read (write l) l := by
  have hread := gives_read_of_wellFormed hl h []
  obtain ⟨taken, hbytes, htaken⟩ := selfDelimiting_read _ _ _ hread
  rw [List.append_nil, List.append_nil] at hbytes
  rwa [hbytes]

end Payload

/-! ## Payloads behind a header of their own -/

open Blob

/-- **The payload of a tree tells where it ends.** No part of it is read as a smaller tree: behind a header of its own it
is refused, since it ends before what is to be read next does. Other bytes behind it, under the same header with it, do
not change the answers. -/
theorem payload_delimits_itself (t : RuleTree) (source : Option String)
    (h : (Payload.write (Listing.ofTree t source)).length < 2 ^ 32) :
    let p := Payload.write (Listing.ofTree t source)
    (∀ front, front <+: p → front ≠ p → ∃ k, 0 < k ∧ k ≤ p.length - front.length ∧
      Refused (ofPayload front) (.decode (.unexpectedEnd k))) ∧
    (RuleTree.ofBytes (t.toBytes source) = .ok t.prune ∧
      TreeInfo.ofBytes (t.toBytes source) = .ok (Listing.ofTree t source).info) ∧
    ∀ behind, (p ++ behind).length < 2 ^ 32 → ReadAlike (ofPayload (p ++ behind)) (t.toBytes source) := by
  intro p
  have hwf := Listing.wellFormed_ofTree t source
  have htakes : Payload.Takes Payload.read p (Listing.ofTree t source) := Payload.takes_write hwf (by omega)
  refine ⟨fun front hfront hne => ?_, ⟨RuleTree.ofBytes_eq_prune h, TreeInfo.ofBytes_of_listing (listing_toBytes h)⟩,
    fun behind hlen => ?_⟩
  · have hlt : front.length < p.length :=
      Nat.lt_of_le_of_ne hfront.length_le fun heq => hne (hfront.eq_of_length heq)
    obtain ⟨k, hpos, hle, hread⟩ := htakes.cut front hfront hlt
    refine ⟨k, hpos, hle, .of_listing ?_⟩
    rw [listing_ofPayload (Nat.lt_trans hlt h), hread]
  · refine .of_listing ?_
    rw [listing_ofPayload hlen, htakes.gives behind, listing_toBytes h]

/-- A payload of 19 bytes, without its last one and with two more. -/
theorem payload_delimits_itself_at_last_byte :
    let t := RuleTree.empty.attach (.capture "id") (RuleTree.empty.add .read ⟨"p"⟩)
    let p := Payload.write (Listing.ofTree t none)
    p.length = 19 ∧ Refused (ofPayload (p.take 18)) (.decode (.unexpectedEnd 1)) ∧
      RuleTree.ofBytes (ofPayload (p ++ [0, 0])) = .ok t ∧
        TreeInfo.ofBytes (ofPayload (p ++ [0, 0])) = .ok ⟨2, 1, none⟩ := by
  intro t p
  have hlen : p.length = 19 := by decide
  obtain ⟨hcut, ⟨hloaded, htold⟩, hmore⟩ := payload_delimits_itself t none (by rw [show _ = 19 from hlen]; decide)
  have hfront : (p.take 18).length = 18 := by rw [List.length_take, hlen]; rfl
  refine ⟨hlen, ?_, ?_⟩
  · obtain ⟨k, hpos, hle, hrefused⟩ := hcut (p.take 18) (List.take_prefix 18 p) fun h => by
      rw [h, hlen] at hfront
      exact absurd hfront (by decide)
    rw [hfront, show _ = 19 from hlen] at hle
    obtain rfl : k = 1 := by omega
    exact hrefused
  · have hlonger : (p ++ [0, 0]).length < 2 ^ 32 := by rw [List.length_append, hlen]; decide
    obtain ⟨htree, hinfo⟩ := hmore [0, 0] hlonger
    exact ⟨htree.trans hloaded, hinfo.trans htold⟩

end AccessRules
