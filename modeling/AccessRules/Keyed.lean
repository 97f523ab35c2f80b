/-!
# Lists in ascending order of a key

A list of entries is *ascending* when the keys of its entries go up strictly, so no key occurs twice. Such a list is
a finite map from keys to entries with one form for each map: `find?` is its view, `alter` changes the entry of one
key, and two ascending lists with the same view are equal (`ext`).

The entries are of any type; `key` reads the key off an entry, so entries may hold more than their key shows.
-/

namespace AccessRules.Keyed

variable {ε κ : Type} [Ord κ]

/-- The keys go up strictly. -/
def Ascending (key : ε → κ) (entries : List ε) : Prop :=
  entries.Pairwise fun a b => compare (key a) (key b) = .lt

/-- The entry with key `k`. -/
def find? (key : ε → κ) (k : κ) (entries : List ε) : Option ε :=
  entries.find? fun e => compare k (key e) == .eq

/-- Put `f` of the entry with key `k`, or of `none`, in the place of that entry; an answer `none` leaves the key
without an entry. -/
def alter (key : ε → κ) (k : κ) (f : Option ε → Option ε) : List ε → List ε
  | [] => (f none).toList
  | e :: rest =>
    match compare k (key e) with
    | .lt => (f none).toList ++ e :: rest
    | .eq => (f (some e)).toList ++ rest
    | .gt => e :: alter key k f rest

/-- Add an entry unless its key has one already. -/
def insert (key : ε → κ) (e : ε) (entries : List ε) : List ε :=
  alter key (key e) (fun old => some (old.getD e)) entries

/-- Add entries one after the other; of two with the same key the first one stays. -/
def insertAll (key : ε → κ) (entries new : List ε) : List ε :=
  new.foldl (fun acc e => insert key e acc) entries

/-- `f` keeps the key: if what it is given has key `k`, so has what it gives. -/
def KeepsKey (key : ε → κ) (k : κ) (f : Option ε → Option ε) : Prop :=
  ∀ o, (∀ e, o = some e → key e = k) → ∀ a, f o = some a → key a = k

variable {key : ε → κ}

theorem ascending_nil : Ascending key [] := .nil

theorem Ascending.tail {e : ε} {l : List ε} (h : Ascending key (e :: l)) : Ascending key l :=
  (List.pairwise_cons.1 h).2

theorem Ascending.head_lt {e a : ε} {l : List ε} (h : Ascending key (e :: l)) (ha : a ∈ l) :
    compare (key e) (key a) = .lt :=
  (List.pairwise_cons.1 h).1 a ha

theorem Ascending.sublist {l l' : List ε} (h : Ascending key l) (hs : l'.Sublist l) : Ascending key l' :=
  List.Pairwise.sublist hs h

omit [Ord κ] in
theorem keepsKey_insert {e : ε} : KeepsKey key (key e) (fun old => some (old.getD e)) := by
  intro o ho a ha
  cases o with
  | none => cases ha; rfl
  | some b => cases ha; exact ho _ rfl

omit [Ord κ] in
theorem KeepsKey.none {k : κ} {f : Option ε → Option ε} (hf : KeepsKey key k f) {a : ε} (h : f .none = some a) :
    key a = k :=
  hf .none (fun _ h => by cases h) a h

omit [Ord κ] in
theorem KeepsKey.some {k : κ} {f : Option ε → Option ε} (hf : KeepsKey key k f) {e a : ε} (he : key e = k)
    (h : f (.some e) = .some a) : key a = k :=
  hf (.some e) (fun _ h => by cases h; exact he) a h

@[simp] theorem find?_nil {k : κ} : find? key k [] = none := rfl

theorem mem_of_find? {k : κ} {e : ε} {l : List ε} (h : find? key k l = some e) : e ∈ l :=
  List.mem_of_find?_eq_some h

/-! ## Keys that are equal when they compare equal -/

section Lawful

variable [Std.LawfulEqOrd κ]

theorem find?_cons_self {e : ε} {l : List ε} : find? key (key e) (e :: l) = some e := by
  simp [find?, Std.compare_self]

theorem find?_cons_of_ne {k : κ} {e : ε} {l : List ε} (h : k ≠ key e) : find? key k (e :: l) = find? key k l := by
  have : (compare k (key e) == Ordering.eq) = false := by simpa using h
  simp [find?, this]

theorem key_of_find? {k : κ} {e : ε} {l : List ε} (h : find? key k l = some e) : key e = k := by
  have h := List.find?_some h
  exact (Std.LawfulEqCmp.eq_of_compare (beq_iff_eq.1 h)).symm

theorem find?_eq_none_iff {k : κ} {l : List ε} : find? key k l = none ↔ ∀ e ∈ l, key e ≠ k := by
  simp only [find?, List.find?_eq_none, beq_iff_eq, Std.LawfulEqCmp.compare_eq_iff_eq]
  exact ⟨fun h e he hk => h e he hk.symm, fun h e he hk => h e he hk.symm⟩

/-- The first key is not found again behind it. -/
theorem find?_tail_eq_none {e : ε} {l : List ε} (h : Ascending key (e :: l)) : find? key (key e) l = none := by
  refine find?_eq_none_iff.2 fun a ha hk => ?_
  have := h.head_lt ha
  rw [hk, Std.compare_self] at this; cases this

theorem find?_eq_some_iff {l : List ε} (h : Ascending key l) {k : κ} {e : ε} :
    find? key k l = some e ↔ e ∈ l ∧ key e = k := by
  refine ⟨fun hf => ⟨mem_of_find? hf, key_of_find? hf⟩, ?_⟩
  rintro ⟨hm, rfl⟩
  induction l with
  | nil => cases hm
  | cons a l ih =>
    rcases List.mem_cons.1 hm with rfl | hm
    · exact find?_cons_self
    · have hlt := h.head_lt hm
      rw [find?_cons_of_ne, ih h.tail hm]
      intro he
      rw [he, Std.compare_self] at hlt; cases hlt

/-- An entry that `alter` leaves is an old one or has key `k`. -/
theorem mem_alter_imp {k : κ} {f : Option ε → Option ε} (hf : KeepsKey key k f) {a : ε} :
    ∀ {l : List ε}, a ∈ alter key k f l → a ∈ l ∨ key a = k
  | [], h => .inr (hf.none (by simpa [alter] using h))
  | e :: l, h => by
    unfold alter at h
    split at h
    · rcases List.mem_append.1 h with h | h
      · exact .inr (hf.none (by simpa using h))
      · exact .inl h
    · next he =>
      rcases List.mem_append.1 h with h | h
      · exact .inr (hf.some (Std.LawfulEqCmp.eq_of_compare he).symm (by simpa using h))
      · exact .inl (List.mem_cons_of_mem _ h)
    · rcases List.mem_cons.1 h with h | h
      · exact .inl (h ▸ List.mem_cons_self)
      · exact (mem_alter_imp hf h).imp_left (List.mem_cons_of_mem _)

theorem find?_alter_of_ne {k k' : κ} {f : Option ε → Option ε} (hf : KeepsKey key k f) (hne : k' ≠ k) :
    ∀ l : List ε, find? key k' (alter key k f l) = find? key k' l
  | [] => by
    unfold alter
    cases hn : f none with
    | none => rfl
    | some e => exact find?_cons_of_ne (by rwa [hf.none hn])
  | a :: l => by
    unfold alter
    split
    · cases hn : f none with
      | none => rfl
      | some e => exact find?_cons_of_ne (by rwa [hf.none hn])
    · next hk =>
      obtain rfl := Std.LawfulEqCmp.eq_of_compare hk
      rw [find?_cons_of_ne hne]
      cases hn : f (some a) with
      | none => rfl
      | some e => exact find?_cons_of_ne (by rwa [hf.some rfl hn])
    · by_cases ha : k' = key a
      · rw [ha, find?_cons_self, find?_cons_self]
      · rw [find?_cons_of_ne ha, find?_cons_of_ne ha, find?_alter_of_ne hf hne l]

end Lawful

/-! ## Keys in a lawful order -/

section Ordered

variable [Std.TransOrd κ] [Std.LawfulEqOrd κ]

theorem ascending_alter {k : κ} {f : Option ε → Option ε} (hf : KeepsKey key k f) :
    ∀ {l : List ε}, Ascending key l → Ascending key (alter key k f l)
  | [], _ => by
    unfold alter
    cases f none with
    | none => exact .nil
    | some e => exact List.pairwise_singleton ..
  | e :: l, h => by
    unfold alter
    split
    · next hk =>
      cases hn : f none with
      | none => exact h
      | some a =>
        refine List.pairwise_cons.2 ⟨fun x hx => ?_, h⟩
        rw [hf.none hn]
        rcases List.mem_cons.1 hx with rfl | hx
        · exact hk
        · exact Std.TransCmp.lt_trans hk (h.head_lt hx)
    · next hk =>
      have hk := Std.LawfulEqCmp.eq_of_compare hk
      cases hn : f (some e) with
      | none => exact h.tail
      | some a =>
        refine List.pairwise_cons.2 ⟨fun x hx => ?_, h.tail⟩
        rw [hf.some hk.symm hn, hk]
        exact h.head_lt hx
    · next hk =>
      have hk := Std.OrientedCmp.gt_iff_lt.1 hk
      refine List.pairwise_cons.2 ⟨fun x hx => ?_, ascending_alter hf h.tail⟩
      rcases mem_alter_imp hf hx with hx | hx
      · exact h.head_lt hx
      · rwa [hx]

theorem ascending_insert {e : ε} {l : List ε} (h : Ascending key l) : Ascending key (insert key e l) :=
  ascending_alter keepsKey_insert h

theorem ascending_insertAll {l : List ε} (h : Ascending key l) :
    ∀ new : List ε, Ascending key (insertAll key l new)
  | [] => h
  | e :: new => ascending_insertAll (ascending_insert (e := e) h) new

/-- Before the first key there is nothing to find. -/
theorem find?_eq_none_of_lt {k : κ} {e : ε} {l : List ε} (h : Ascending key (e :: l))
    (hk : compare k (key e) = .lt) : find? key k (e :: l) = none := by
  refine find?_eq_none_iff.2 fun a ha => ?_
  rintro rfl
  rcases List.mem_cons.1 ha with rfl | ha
  · rw [Std.compare_self] at hk; cases hk
  · have := Std.TransCmp.lt_trans hk (h.head_lt ha)
    rw [Std.compare_self] at this; cases this

theorem find?_alter_self {k : κ} {f : Option ε → Option ε} (hf : KeepsKey key k f) :
    ∀ {l : List ε}, Ascending key l → find? key k (alter key k f l) = f (find? key k l)
  | [], _ => by
    rw [find?_nil]
    unfold alter
    cases hn : f none with
    | none => rfl
    | some e => obtain rfl := hf.none hn; exact find?_cons_self
  | a :: l, h => by
    unfold alter
    split
    · next hk =>
      rw [find?_eq_none_of_lt h hk]
      cases hn : f none with
      | none => exact find?_eq_none_of_lt h hk
      | some e => obtain rfl := hf.none hn; exact find?_cons_self
    · next hk =>
      obtain rfl := Std.LawfulEqCmp.eq_of_compare hk
      rw [find?_cons_self]
      cases hn : f (some a) with
      | none => exact find?_tail_eq_none h
      | some e => rw [← hf.some rfl hn]; exact find?_cons_self
    · next hk =>
      have hne : k ≠ key a := by rintro rfl; rw [Std.compare_self] at hk; cases hk
      rw [find?_cons_of_ne hne, find?_cons_of_ne hne, find?_alter_self hf h.tail]

/-- Ascending lists with the same view are equal. -/
theorem ext {l₁ l₂ : List ε} (h₁ : Ascending key l₁) (h₂ : Ascending key l₂)
    (h : ∀ k, find? key k l₁ = find? key k l₂) : l₁ = l₂ := by
  induction l₁ generalizing l₂ with
  | nil =>
    cases l₂ with
    | nil => rfl
    | cons b l₂ => have := h (key b); rw [find?_cons_self] at this; cases this
  | cons a l₁ ih =>
    cases l₂ with
    | nil => have := h (key a); rw [find?_cons_self] at this; cases this
    | cons b l₂ =>
      have hab : key a = key b := by
        cases hc : compare (key a) (key b) with
        | lt => have := h (key a); rw [find?_cons_self, find?_eq_none_of_lt h₂ hc] at this; cases this
        | eq => exact Std.LawfulEqCmp.eq_of_compare hc
        | gt =>
          have := h (key b)
          rw [find?_cons_self, find?_eq_none_of_lt h₁ (Std.OrientedCmp.gt_iff_lt.1 hc)] at this; cases this
      have heq : a = b := by
        have := h (key a)
        rw [find?_cons_self, hab, find?_cons_self] at this
        exact Option.some.inj this
      subst heq
      refine congrArg _ (ih h₁.tail h₂.tail fun k => ?_)
      by_cases hk : k = key a
      · rw [hk, find?_tail_eq_none h₁, find?_tail_eq_none h₂]
      · have := h k
        rwa [find?_cons_of_ne hk, find?_cons_of_ne hk] at this

end Ordered

end AccessRules.Keyed
