import AccessRules.Proofs.Agreement
import AccessRules.Proofs.Families

/-!
# Strict dispatch

A tag that is the name of a category only if the case of letters is ignored is a step down, or is refused: that is all in
which the two policies differ. Where it is refused, the scope around it is lost, with whatever the other policy would have
made of the entries behind it. So a run under strict dispatch that completes does nothing that is not done under the
other policy as well (`Run.Narrows`), although other scopes inside of it may have failed; and if nothing was reported, or
if there is no such tag, there is no difference at all (`strict_only_removes`).
-/

namespace AccessRules

/-! ## Tags under both policies -/

namespace DispatchPolicy

variable {tag : String}

/-- What strict dispatch makes of a tag that it does not refuse is what is inferred. -/
theorem classify_infer_of_strict {category? : Option Category} (h : strict.classify tag = .ok category?) :
    infer.classify tag = .ok category? := by
  cases category? with
  | some c => exact classify_eq_some_iff.2 (classify_eq_some_iff.1 h)
  | none => exact classify_eq_none_iff.2 ⟨(classify_eq_none_iff.1 h).1, nofun⟩

theorem classify_strict_eq_infer (h : ¬ NearlyNamesCategory tag) : strict.classify tag = infer.classify tag := by
  obtain ⟨category?, hc⟩ := classify_ok_iff.2 fun _ : strict = strict => h
  rw [hc, classify_infer_of_strict hc]

end DispatchPolicy

/-! ## Runs that do no more -/

namespace Run

variable {ν : Type}

/-- If the first run completes, then so does the second, and the facts of the first are among those of the second; if the
first run is flawless, it is the second one. -/
structure Narrows (r r' : Run ν) : Prop where
  completes : r.Completes → r'.Completes
  facts : r.Completes → (Event.factsOf r.1).Sublist (Event.factsOf r'.1)
  same : ∀ path, r.Flawless path → r = r'

namespace Narrows

variable {a a' b b' : Run ν}

theorem refl (r : Run ν) : r.Narrows r := ⟨id, fun _ => .refl _, fun _ _ => rfl⟩

/-- A run that fails does no more than any other. -/
theorem of_fails (error : CompileError) (r : Run ν) : (fails error).Narrows r :=
  ⟨nofun, nofun, fun _ h => absurd h (not_flawless_fails error)⟩

theorem andThen (ha : a.Narrows a') (hb : b.Narrows b') : (a.andThen b).Narrows (a'.andThen b') := by
  constructor
  · intro h
    obtain ⟨hca, hcb⟩ := completes_andThen.1 h
    exact completes_andThen.2 ⟨ha.completes hca, hb.completes hcb⟩
  · intro h
    obtain ⟨hca, hcb⟩ := completes_andThen.1 h
    rw [facts_andThen hca, facts_andThen (ha.completes hca)]
    exact (ha.facts hca).append (hb.facts hcb)
  · intro path h
    obtain ⟨hfa, hfb⟩ := flawless_andThen.1 h
    rw [ha.same path hfa, hb.same path hfb]

/-- In a scope: if the body of the first run fails, the scope is lost. -/
theorem ofScope (h : a.Narrows a') (limit live : Nat) (segments : Path) :
    (ofEvent (.ofScope limit live segments a)).Narrows (ofEvent (.ofScope limit live segments a')) := by
  refine ⟨fun _ => rfl, fun _ => ?_, fun path hflawless => ?_⟩
  · unfold Event.ofScope
    split
    · exact .refl _
    · obtain ⟨events, outcome⟩ := a
      obtain ⟨events', outcome'⟩ := a'
      cases outcome with
      | error error => exact List.nil_sublist _
      | ok =>
        obtain rfl : outcome' = .ok () := h.completes rfl
        simp only [ofEvent, Event.factsOf_singleton, Event.facts]
        exact (h.facts rfl).map _
  · rw [h.same _ (flawless_ofScope.1 hflawless).2]

end Narrows

end Run

/-! ## Data under both policies -/

section

variable {ν : Type}

theorem closed_narrows : Closed (ν := ν) (fun _ => True) fun f =>
    ∀ limit live, (f ⟨.strict, limit⟩ live).Narrows (f ⟨.infer, limit⟩ live) where
  idle _ _ := .refl _
  fails _ _ _ _ := .refl _
  added _ _ _ _ := .refl _
  unresolved _ _ _ := .refl _
  andThen hf hg limit live := (hf limit live).andThen (hg limit live)
  scope segments hf limit live := (hf limit (live + 1)).ofScope limit live segments
  dispatched := by
    intro f tag _ hf limit live
    unfold Family.dispatched
    cases hc : DispatchPolicy.strict.classify tag with
    | error error => exact .of_fails error _
    | ok category? =>
      rw [DispatchPolicy.classify_infer_of_strict hc]
      exact hf category? limit live

theorem closed_indifferent : Closed (ν := ν) (fun tag => ¬ NearlyNamesCategory tag) fun f =>
    ∀ limit live, f ⟨.strict, limit⟩ live = f ⟨.infer, limit⟩ live where
  idle _ _ := rfl
  fails _ _ _ _ := rfl
  added _ _ _ _ := rfl
  unresolved _ _ _ := rfl
  andThen hf hg limit live := congrArg₂ Run.andThen (hf limit live) (hg limit live)
  scope segments hf limit live := by rw [Family.scope, Family.scope, hf]
  dispatched := by
    intro f tag htag hf limit live
    unfold Family.dispatched
    rw [DispatchPolicy.classify_strict_eq_infer htag]
    cases DispatchPolicy.infer.classify tag with
    | error error => rfl
    | ok category? => exact hf category? limit live

variable (resolver : Resolver) (limit : Nat) (d : Data)

theorem Data.trace_narrows : (Run.ofEvent ((d.body : Body ν).trace ⟨.strict, limit⟩ resolver)).Narrows
    (.ofEvent (d.body.trace ⟨.infer, limit⟩ resolver)) := by
  rw [Data.trace_compile, Data.trace_compile]
  exact (closed_narrows.data resolver d (fun _ _ => trivial) limit 1).ofScope limit 0 []

theorem Data.trace_strict_eq_infer {d : Data} (h : ∀ tag ∈ d.tags, ¬ NearlyNamesCategory tag) :
    (d.body : Body ν).trace ⟨.strict, limit⟩ resolver = d.body.trace ⟨.infer, limit⟩ resolver := by
  have hrun := closed_indifferent.data (ν := ν) resolver d h limit 1
  rw [Data.trace_compile, Data.trace_compile]
  exact congrArg (Event.ofScope limit 0 []) hrun

end

/-- **Strict dispatch only removes.** Every fact of the tree that is compiled under strict dispatch is one of the tree that
is compiled when all such tags are steps down. If the former is complete, or if no tag of the data is the name of a
category but for the case of letters, both compilations are the same, down to the names of captures. -/
theorem strict_only_removes {ν : Type} {limit : Nat} {resolver : Resolver} {strict infer : Compiler ν}
    (hstrict : strict.Reached ⟨.strict, limit⟩ resolver) (hinfer : infer.Reached ⟨.infer, limit⟩ resolver) (d : Data) :
    (∀ q k p, (strict.compile d.body).1.tree.Holds q k p → (infer.compile d.body).1.tree.Holds q k p) ∧
      ((strict.compile d.body).1.isComplete = true ∨ (∀ tag ∈ d.tags, ¬ NearlyNamesCategory tag) →
        (strict.compile d.body).1 = (infer.compile d.body).1) := by
  have hnarrows := d.trace_narrows (ν := ν) resolver limit
  rw [hstrict.compile_trace, hinfer.compile_trace]
  constructor
  · intro q k p
    have hfacts := hnarrows.facts rfl
    simp only [Run.ofEvent, Event.factsOf_singleton] at hfacts
    rw [RuleTree.holds_ofFacts, RuleTree.holds_ofFacts]
    rintro ⟨f, hf, hsays⟩
    exact ⟨f, hfacts.subset hf, hsays⟩
  · rintro (hcomplete | hplain)
    · have hclean := List.isEmpty_iff.1 hcomplete
      have hsame := hnarrows.same [] ⟨rfl, (Event.failuresOf_singleton [] _).trans hclean⟩
      simp only [Run.ofEvent, Prod.mk.injEq, List.cons.injEq, and_true] at hsame
      rw [hsame]
    · rw [Data.trace_strict_eq_infer resolver limit hplain]

/-- Data in which a scope is lost under strict dispatch with the entries around a near miss, and fails later on in any case;
and data without near misses that fails under both policies. -/
theorem strict_only_removes_of_lost_scope :
    let near : Directive := .mk "Read" (.nested [.mk "write" (.predicate ⟨"q"⟩)])
    let scope (tag : String) (ds : List Directive) : Directive := .mk tag (.nested (.mk "read" (.predicate ⟨"p"⟩) :: ds))
    let d : Data := .directives [scope "a" [near], scope "b" [near, .mk "c" (.predicate ⟨"r"⟩)], scope "$id" []]
    let d' : Data := .directives [scope "b" [.mk "c" (.predicate ⟨"r"⟩)], scope "$id" []]
    let under (policy : DispatchPolicy) : Compiler Unit := { config := ⟨policy, 3⟩ }
    (∀ policy, (under policy).Reached ⟨policy, 3⟩ .slash) ∧
      (∀ q k p, ((under .strict).compile d.body).1.tree.Holds q k p → ((under .infer).compile d.body).1.tree.Holds q k p) ∧
      ((under .strict).compile d.body).1.diagnostics =
        [⟨[.literal "a"], .categoryCollision "Read" .read⟩, ⟨[.literal "b"], .categoryCollision "Read" .read⟩] ∧
      ((under .infer).compile d.body).1.diagnostics = [⟨[.literal "b"], .expectedBody "c"⟩] ∧
      (∀ tag ∈ d'.tags, ¬ NearlyNamesCategory tag) ∧
      ((under .strict).compile d'.body).1 = ((under .infer).compile d'.body).1 ∧
      ((under .strict).compile d'.body).1.diagnostics = [⟨[.literal "b"], .expectedBody "c"⟩] := by
  intro near scope d d' under
  have hreached (policy : DispatchPolicy) : (under policy).Reached ⟨policy, 3⟩ .slash := .fresh
  have htags : ∀ tag ∈ d'.tags, DispatchPolicy.strict.classify tag = .ok (Category.ofName? tag) := by decide
  have hplain : ∀ tag ∈ d'.tags, ¬ NearlyNamesCategory tag :=
    fun tag htag => DispatchPolicy.classify_ok_iff.1 ⟨_, htags tag htag⟩ rfl
  obtain ⟨hfacts, -⟩ := strict_only_removes (hreached .strict) (hreached .infer) d
  obtain ⟨-, hsame⟩ := strict_only_removes (hreached .strict) (hreached .infer) d'
  exact ⟨hreached, hfacts, by decide, by decide, hplain, hsame (.inr hplain), by decide⟩

end AccessRules
