import AccessRules.Rules

/-!
# What sets and rules hold

A set of predicates in order is determined by its members (`Predicates.ext`), and rules in order by the set found for
each category (`Rules.ext`). Seen so, `union` joins members, and `Rules.merge` joins the sets of each category
(`find?_merge`); both are associative, with the empty list on either side as their unit.
-/

namespace AccessRules

namespace Keyed

variable {ε κ : Type} [Ord κ] [Std.TransOrd κ] [Std.LawfulEqOrd κ] {key : ε → κ}

theorem find?_insert_self {l : List ε} (h : Ascending key l) (e : ε) :
    find? key (key e) (insert key e l) = some ((find? key (key e) l).getD e) :=
  find?_alter_self keepsKey_insert h

omit [Std.TransOrd κ] in
theorem find?_insert_of_ne {l : List ε} {e : ε} {k : κ} (hk : k ≠ key e) :
    find? key k (insert key e l) = find? key k l :=
  find?_alter_of_ne keepsKey_insert hk l

end Keyed

/-! ## Sets of predicates -/

namespace Predicates

theorem find?_text {ps : Predicates} (h : ps.Ordered) {p : Predicate} :
    Keyed.find? Predicate.text p.text ps = some p ↔ p ∈ ps := by
  rw [Keyed.find?_eq_some_iff h]
  exact and_iff_left rfl

/-- Sets with the same members are equal. -/
theorem ext {ps qs : Predicates} (hp : ps.Ordered) (hq : qs.Ordered) (h : ∀ p, p ∈ ps ↔ p ∈ qs) : ps = qs := by
  refine Keyed.ext hp hq fun k => Option.ext fun p => ?_
  rw [Keyed.find?_eq_some_iff hp, Keyed.find?_eq_some_iff hq, h p]

theorem mem_insert {ps : Predicates} (h : ps.Ordered) (p q : Predicate) :
    q ∈ Keyed.insert Predicate.text p ps ↔ q = p ∨ q ∈ ps := by
  have hi : Ordered (Keyed.insert Predicate.text p ps) := Keyed.ascending_insert h
  by_cases hq : q.text = p.text
  · have hqp : q = p := by cases p; cases q; cases hq; rfl
    subst hqp
    rw [← find?_text hi, Keyed.find?_insert_self h]
    simp only [true_or, iff_true, Option.some.injEq]
    cases hf : Keyed.find? Predicate.text q.text ps with
    | none => rfl
    | some r => exact congrArg Predicate.mk (Keyed.key_of_find? hf)
  · have hqp : q ≠ p := fun e => hq (e ▸ rfl)
    rw [← find?_text hi, Keyed.find?_insert_of_ne hq, find?_text h]
    exact (or_iff_right hqp).symm

@[simp] theorem mem_union {ps : Predicates} (h : ps.Ordered) {q : Predicate} :
    ∀ {new : List Predicate}, q ∈ ps.union new ↔ q ∈ ps ∨ q ∈ new
  | [] => by simp [union, Keyed.insertAll]
  | p :: new => by
    have hi : Ordered (Keyed.insert Predicate.text p ps) := Keyed.ascending_insert h
    have ih : q ∈ union (Keyed.insert Predicate.text p ps) new ↔ _ := mem_union hi
    rw [mem_insert h] at ih
    rw [List.mem_cons]
    show q ∈ union (Keyed.insert Predicate.text p ps) new ↔ _
    rw [ih, or_comm (a := q = p), or_assoc]

theorem union_nil (ps : Predicates) : ps.union [] = ps := rfl

theorem nil_union {ps : Predicates} (h : ps.Ordered) : union [] ps = ps :=
  ext (ordered_ofList ps) h fun p => by simp [mem_union Keyed.ascending_nil]

theorem union_assoc {ps qs : Predicates} (hp : ps.Ordered) (hq : qs.Ordered) (rs : Predicates) :
    (ps.union qs).union rs = ps.union (qs.union rs) := by
  have hpq := ordered_union hp qs
  refine ext (ordered_union hpq rs) (ordered_union hp _) fun p => ?_
  rw [mem_union hpq, mem_union hp, mem_union hp, mem_union hq, or_assoc]

theorem union_comm {ps qs : Predicates} (hp : ps.Ordered) (hq : qs.Ordered) : ps.union qs = qs.union ps := by
  refine ext (ordered_union hp qs) (ordered_union hq ps) fun p => ?_
  rw [mem_union hp, mem_union hq, or_comm]

theorem union_self {ps : Predicates} (h : ps.Ordered) : ps.union ps = ps := by
  refine ext (ordered_union h ps) h fun p => ?_
  rw [mem_union h, or_self]

theorem union_eq_nil {ps : Predicates} (h : ps.Ordered) {new : List Predicate} :
    ps.union new = [] ↔ ps = [] ∧ new = [] := by
  simp only [List.eq_nil_iff_forall_not_mem, mem_union h, not_or, forall_and]

end Predicates

/-! ## Rules -/

namespace Rules

theorem ordered_cons {r : Category × Predicates} {rules : Rules} (h : Ordered (r :: rules)) :
    r.2.Ordered ∧ rules.Ordered :=
  ⟨h.sets r List.mem_cons_self, h.categories.tail, fun r' hr' => h.sets r' (List.mem_cons_of_mem _ hr')⟩

theorem find?_eq_some_iff {rules : Rules} (h : rules.Ordered) {c : Category} {ps : Predicates} :
    rules.find? c = some ps ↔ (c, ps) ∈ rules := by
  unfold find?
  rw [Option.map_eq_some_iff]
  constructor
  · rintro ⟨r, hr, rfl⟩
    obtain ⟨hm, rfl⟩ := (Keyed.find?_eq_some_iff h.categories).1 hr
    exact hm
  · intro hm
    exact ⟨(c, ps), (Keyed.find?_eq_some_iff h.categories).2 ⟨hm, rfl⟩, rfl⟩

/-- Rules that hold the same set for each category are equal. -/
theorem ext {r₁ r₂ : Rules} (h₁ : r₁.Ordered) (h₂ : r₂.Ordered) (h : ∀ c, r₁.find? c = r₂.find? c) : r₁ = r₂ := by
  refine Keyed.ext h₁.categories h₂.categories fun c => Option.ext fun r => ?_
  have hr := congrArg (· = some r.2) (h r.1)
  simp only [find?_eq_some_iff h₁, find?_eq_some_iff h₂, eq_iff_iff] at hr
  rw [Keyed.find?_eq_some_iff h₁.categories, Keyed.find?_eq_some_iff h₂.categories, hr]

theorem find?_cons_self (r : Category × Predicates) (rules : Rules) : find? (r :: rules) r.1 = some r.2 :=
  congrArg (Option.map Prod.snd) Keyed.find?_cons_self

theorem find?_cons_of_ne {r : Category × Predicates} {rules : Rules} {c : Category} (hc : c ≠ r.1) :
    find? (r :: rules) c = rules.find? c :=
  congrArg (Option.map Prod.snd) (Keyed.find?_cons_of_ne hc)

theorem find?_extend_self {rules : Rules} (h : rules.Ordered) (c : Category) (ps : List Predicate) :
    (rules.extend c ps).find? c = some (((rules.find? c).getD []).union ps) := by
  unfold find? extend
  rw [Keyed.find?_alter_self (keepsKey_extend c ps) h.categories]
  rfl

theorem find?_extend_of_ne {rules : Rules} {c c' : Category} (hc : c' ≠ c) (ps : List Predicate) :
    (rules.extend c ps).find? c' = rules.find? c' := by
  unfold find? extend
  rw [Keyed.find?_alter_of_ne (keepsKey_extend c ps) hc]

/-- A union holds, for each category, the union of what either side holds. -/
theorem find?_merge {rules : Rules} (h : rules.Ordered) {new : Rules} (hn : new.Ordered) (c : Category) :
    (rules.merge new).find? c = (rules.find? c).merge Predicates.union (new.find? c) := by
  induction new generalizing rules with
  | nil => exact Option.merge_none_right.symm
  | cons r new ih =>
    obtain ⟨hr, hn'⟩ := ordered_cons hn
    have ih := ih (h.extend r.1 r.2) hn'
    by_cases hc : c = r.1
    · subst hc
      have hnew : Rules.find? new r.1 = none := congrArg (Option.map Prod.snd) (Keyed.find?_tail_eq_none hn.categories)
      rw [hnew, find?_extend_self h, Option.merge_none_right] at ih
      rw [find?_cons_self]
      refine ih.trans ?_
      cases rules.find? r.1 with
      | none => exact congrArg some (Predicates.nil_union hr)
      | some ps => rfl
    · rw [find?_extend_of_ne hc] at ih
      rw [find?_cons_of_ne hc]
      exact ih

theorem Ordered.getD_find? {rules : Rules} (h : rules.Ordered) (c : Category) :
    Predicates.Ordered ((rules.find? c).getD []) := by
  cases hf : rules.find? c with
  | none => exact Keyed.ascending_nil
  | some ps => exact h.find? hf

/-- The same with the empty set for a category that is not declared. -/
theorem getD_find?_merge {rules : Rules} (h : rules.Ordered) {new : Rules} (hn : new.Ordered) (c : Category) :
    ((rules.merge new).find? c).getD [] = ((rules.find? c).getD []).union ((new.find? c).getD []) := by
  rw [find?_merge h hn]
  cases hp : rules.find? c with
  | none =>
    rw [Option.merge_none_left]
    exact (Predicates.nil_union (hn.getD_find? c)).symm
  | some ps => cases new.find? c <;> rfl

theorem merge_nil (rules : Rules) : rules.merge [] = rules := rfl

theorem nil_merge {rules : Rules} (h : rules.Ordered) : merge [] rules = rules :=
  ext (ordered_nil.merge rules) h fun c => (find?_merge ordered_nil h c).trans Option.merge_none_left

theorem merge_assoc {r₁ r₂ r₃ : Rules} (h₁ : r₁.Ordered) (h₂ : r₂.Ordered) (h₃ : r₃.Ordered) :
    (r₁.merge r₂).merge r₃ = r₁.merge (r₂.merge r₃) := by
  refine ext ((h₁.merge _).merge _) (h₁.merge _) fun c => ?_
  rw [find?_merge (h₁.merge r₂) h₃, find?_merge h₁ h₂, find?_merge h₁ (h₂.merge r₃), find?_merge h₂ h₃]
  cases hp : r₁.find? c with
  | none => rw [Option.merge_none_left, Option.merge_none_left]
  | some ps =>
    cases hq : r₂.find? c with
    | none => rw [Option.merge_none_right, Option.merge_none_left]
    | some qs =>
      cases r₃.find? c with
      | none => rfl
      | some rs => exact congrArg some (Predicates.union_assoc (h₁.find? hp) (h₂.find? hq) rs)

theorem merge_comm {r₁ r₂ : Rules} (h₁ : r₁.Ordered) (h₂ : r₂.Ordered) : r₁.merge r₂ = r₂.merge r₁ := by
  refine ext (h₁.merge r₂) (h₂.merge r₁) fun c => ?_
  rw [find?_merge h₁ h₂, find?_merge h₂ h₁]
  cases hp : r₁.find? c with
  | none => rw [Option.merge_none_left, Option.merge_none_right]
  | some ps =>
    cases hq : r₂.find? c with
    | none => rfl
    | some qs => exact congrArg some (Predicates.union_comm (h₁.find? hp) (h₂.find? hq))

theorem merge_self {rules : Rules} (h : rules.Ordered) : rules.merge rules = rules := by
  refine ext (h.merge rules) h fun c => ?_
  rw [find?_merge h h]
  cases hp : rules.find? c with
  | none => rfl
  | some ps => exact congrArg some (Predicates.union_self (h.find? hp))

/-- Adding one predicate is the union with that predicate alone. -/
theorem add_eq_merge (rules : Rules) (c : Category) (p : Predicate) : rules.add c p = rules.merge (add [] c p) := rfl

/-! ## Rules without empty sets -/

theorem find?_prune {rules : Rules} (h : rules.Ordered) (c : Category) :
    rules.prune.find? c = (rules.find? c).filter fun ps => !ps.isEmpty := by
  refine Option.ext fun ps => ?_
  rw [find?_eq_some_iff h.prune, Option.filter_eq_some_iff, find?_eq_some_iff h]
  exact List.mem_filter

theorem prune_eq_self {rules : Rules} (h : ∀ r ∈ rules, r.2 ≠ []) : rules.prune = rules :=
  List.filter_eq_self.2 fun r hr => by simpa using h r hr

theorem prune_ne_nil {rules : Rules} {r : Category × Predicates} (hr : r ∈ rules.prune) : r.2 ≠ [] := by
  simpa using (List.mem_filter.1 hr).2

/-- Empty sets on the right are lost in a union with rules that have none. -/
theorem prune_merge {rules : Rules} (h : rules.Ordered) (hne : ∀ r ∈ rules, r.2 ≠ []) {new : Rules}
    (hn : new.Ordered) : (rules.merge new).prune = rules.merge new.prune := by
  refine ext (h.merge new).prune (h.merge _) fun c => ?_
  rw [find?_prune (h.merge new), find?_merge h hn, find?_merge h hn.prune, find?_prune hn]
  cases hp : rules.find? c with
  | none => rw [Option.merge_none_left, Option.merge_none_left]
  | some ps =>
    have hps : ps ≠ [] := hne _ ((find?_eq_some_iff h).1 hp)
    cases new.find? c with
    | none => simp [Option.filter_some, hps]
    | some qs =>
      by_cases hq : qs = []
      · subst hq; simp [Option.filter_some, Predicates.union_nil, hps]
      · have hu : ps.union qs ≠ [] := fun e => hq ((Predicates.union_eq_nil (h.find? hp)).1 e).2
        simp [Option.filter_some, hq, hu]

end Rules

end AccessRules
