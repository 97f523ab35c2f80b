import AccessRules.Proofs.Completeness

/-!
# Runs that agree

Two runs agree when they end in the same way, the same facts survive them in the same order, and the same is reported in
them, wherever they take place (`Run.Agree`); only what is noted may differ. Sequences and scopes of runs that agree
agree. So bodies whose runs agree compile to the same tree, down to the names of captures, with the same diagnostics
(`Compiler.Reached.compile_eq`), and declarations may be replaced by others whose runs agree, anywhere in a body that is
given as data (`Data.Replaced.compile_eq`). The same goes for any relation of runs that is kept in sequences and scopes
(`Data.Replaced.related`).
-/

namespace AccessRules

namespace Run

variable {ν μ : Type}

/-- The runs end in the same way, with the same facts, and the same is reported in them. -/
structure Agree (a : Run ν) (b : Run μ) : Prop where
  outcome : a.2 = b.2
  facts : Event.factsOf a.1 = Event.factsOf b.1
  failures : ∀ path, Event.failuresOf path a.1 = Event.failuresOf path b.1

namespace Agree

variable {a a' : Run ν} {b b' : Run μ}

theorem refl (a : Run ν) : a.Agree a := ⟨rfl, rfl, fun _ => rfl⟩

theorem andThen (h : a.Agree b) (h' : a'.Agree b') : (a.andThen a').Agree (b.andThen b') := by
  obtain ⟨events, outcome⟩ := a
  obtain ⟨events', outcome'⟩ := b
  obtain rfl : outcome = outcome' := h.outcome
  cases outcome with
  | error error => exact h
  | ok =>
    refine ⟨h'.outcome, ?_, fun path => ?_⟩
    · simp only [Run.andThen, Event.factsOf_append]
      rw [h.facts, h'.facts]
    · simp only [Run.andThen, Event.failuresOf_append]
      rw [h.failures, h'.failures]

/-- A scope around runs that agree. -/
theorem scope (h : a.Agree b) (segments : Path) :
    (ofEvent (.scope segments a.1 a.2)).Agree (ofEvent (.scope segments b.1 b.2)) := by
  obtain ⟨events, outcome⟩ := a
  obtain ⟨events', outcome'⟩ := b
  obtain rfl : outcome = outcome' := h.outcome
  have hfacts : Event.factsOf events = Event.factsOf events' := h.facts
  have hfailures : ∀ path, Event.failuresOf path events = Event.failuresOf path events' := h.failures
  cases outcome with
  | error error =>
    refine ⟨rfl, rfl, fun path => ?_⟩
    simp only [ofEvent, Event.failuresOf_singleton, Event.failures, hfailures]
  | ok =>
    refine ⟨rfl, ?_, fun path => ?_⟩
    · simp only [ofEvent, Event.factsOf_singleton, Event.facts, hfacts]
    · simp only [ofEvent, Event.failuresOf_singleton, Event.failures, hfailures]

theorem ofScope (h : a.Agree b) (limit live : Nat) (segments : Path) :
    (ofEvent (.ofScope limit live segments a)).Agree (ofEvent (.ofScope limit live segments b)) := by
  unfold Event.ofScope
  split
  · exact ⟨rfl, rfl, fun _ => rfl⟩
  · exact h.scope segments

end Agree

end Run

namespace Compiler.Reached

variable {ν : Type} {config : Config} {resolver : Resolver} {c : Compiler ν}

/-- Bodies whose events agree compile to the same. -/
theorem compile_eq_of_events (hc : c.Reached config resolver) {b b' : Body ν}
    (h : Run.Agree (.ofEvent (b.trace config resolver)) (.ofEvent (b'.trace config resolver))) :
    (c.compile b).1 = (c.compile b').1 := by
  have hfacts : (b.trace config resolver).facts = (b'.trace config resolver).facts := by
    simpa only [Run.ofEvent, Event.factsOf_singleton] using h.facts
  have hfailures : (b.trace config resolver).failures [] = (b'.trace config resolver).failures [] := by
    simpa only [Run.ofEvent, Event.failuresOf_singleton] using h.failures []
  rw [hc.compile_trace, hc.compile_trace, hfacts, hfailures]

/-- **Bodies whose runs agree compile to the same.** -/
theorem compile_eq (hc : c.Reached config resolver) {b b' : Body ν}
    (h : Run.Agree (b.toScript.trace config resolver (View.outside.inside []))
      (b'.toScript.trace config resolver (View.outside.inside []))) :
    (c.compile b).1 = (c.compile b').1 :=
  hc.compile_eq_of_events (h.ofScope config.maxDepth 0 [])

end Compiler.Reached

/-! ## Replacing declarations -/

section

variable (R : Declaration → Declaration → Prop)

mutual

/-- The second declaration is the first one with declarations in it, or itself, replaced by ones to which `R` relates
them. -/
inductive Declaration.Replaced : Declaration → Declaration → Prop
  | same (d : Declaration) : Declaration.Replaced d d
  | here {d d' : Declaration} : R d d' → Declaration.Replaced d d'
  | authorize {ds ds' : List Directive} : Directive.AllReplaced ds ds' →
      Declaration.Replaced (.authorize ds) (.authorize ds')
  | within {expr : String} {ds ds' : List Declaration} : Declaration.AllReplaced ds ds' →
      Declaration.Replaced (.within expr ds) (.within expr ds')

/-- Entry by entry. -/
inductive Declaration.AllReplaced : List Declaration → List Declaration → Prop
  | nil : Declaration.AllReplaced [] []
  | cons {d d' : Declaration} {ds ds' : List Declaration} : Declaration.Replaced d d' →
      Declaration.AllReplaced ds ds' → Declaration.AllReplaced (d :: ds) (d' :: ds')

/-- The same for a directive, with the declarations under its tag. -/
inductive Directive.Replaced : Directive → Directive → Prop
  | same (d : Directive) : Directive.Replaced d d
  | nested {tag : String} {ds ds' : List Directive} : Directive.AllReplaced ds ds' →
      Directive.Replaced (.mk tag (.nested ds)) (.mk tag (.nested ds'))
  | body {tag : String} {ds ds' : List Declaration} : Declaration.AllReplaced ds ds' →
      Directive.Replaced (.mk tag (.body ds)) (.mk tag (.body ds'))

/-- Entry by entry. -/
inductive Directive.AllReplaced : List Directive → List Directive → Prop
  | nil : Directive.AllReplaced [] []
  | cons {d d' : Directive} {ds ds' : List Directive} : Directive.Replaced d d' →
      Directive.AllReplaced ds ds' → Directive.AllReplaced (d :: ds) (d' :: ds')

end

/-- Declarations are replaced in a body that is given as data. -/
inductive Data.Replaced : Data → Data → Prop
  | declaration {d d' : Declaration} : d.Replaced R d' → Data.Replaced (.declaration d) (.declaration d')
  | declarations {ds ds' : List Declaration} : Declaration.AllReplaced R ds ds' →
      Data.Replaced (.declarations ds) (.declarations ds')
  | directives {ds ds' : List Directive} : Directive.AllReplaced R ds ds' →
      Data.Replaced (.directives ds) (.directives ds')

end

section

variable {ν : Type} {config : Config} {resolver : Resolver} {R : Declaration → Declaration → Prop}

/-- A relation of runs that is kept where the runs are parts of others: in sequences and in scopes. -/
structure Run.Congruence (config : Config) (rel : Run ν → Run ν → Prop) : Prop where
  refl (r : Run ν) : rel r r
  andThen {a a' b b' : Run ν} : rel a b → rel a' b' → rel (a.andThen a') (b.andThen b')
  ofScope {a b : Run ν} (live : Nat) (segments : Path) : rel a b →
    rel (.ofEvent (.ofScope config.maxDepth live segments a)) (.ofEvent (.ofScope config.maxDepth live segments b))

namespace Run.Congruence

variable {rel : Run ν → Run ν → Prop}

theorem askedAt (h : Congruence config rel) {a b : Run ν} (hab : rel a b) (live : Nat) (expr : String) :
    rel (.ofEvent (.askedAt config resolver live expr a)) (.ofEvent (.askedAt config resolver live expr b)) := by
  unfold Event.askedAt
  cases resolver expr with
  | error error => exact h.refl _
  | ok segments => exact h.ofScope live segments hab

/-- Under one tag, values whose runs are related. -/
theorem directive (h : Congruence config rel) {tag : String} {value value' : Directive.Value} {live : Nat}
    (hvalue : ∀ category?, rel (Directive.Value.runIn config resolver tag value category? live)
      (Directive.Value.runIn config resolver tag value' category? live)) :
    rel (Directive.runIn config resolver (.mk tag value) live) (Directive.runIn config resolver (.mk tag value') live) := by
  simp only [Directive.runIn]
  cases config.dispatch.classify tag with
  | error e => exact h.refl _
  | ok category? => exact hvalue category?

end Run.Congruence

/-- What takes the place of a declaration does a run to which the relation relates that of the declaration. -/
def Respects (config : Config) (resolver : Resolver) (R : Declaration → Declaration → Prop)
    (rel : Run ν → Run ν → Prop) : Prop :=
  ∀ d d', R d d' → ∀ live, rel (d.runIn config resolver live) (d'.runIn config resolver live)

section

variable {rel : Run ν → Run ν → Prop}

mutual

theorem Declaration.Replaced.related (hrel : Run.Congruence config rel) (hR : Respects config resolver R rel)
    {d d' : Declaration} (h : d.Replaced R d') (live : Nat) :
    rel (d.runIn config resolver live) (d'.runIn config resolver live) := by
  match h with
  | .same d => exact hrel.refl _
  | .here hd => exact hR _ _ hd live
  | .authorize hs => exact Directive.AllReplaced.related hrel hR hs live
  | .within hs => exact hrel.askedAt (Declaration.AllReplaced.related hrel hR hs (live + 1)) live _
termination_by structural h

theorem Declaration.AllReplaced.related (hrel : Run.Congruence config rel) (hR : Respects config resolver R rel)
    {ds ds' : List Declaration} (h : Declaration.AllReplaced R ds ds') (live : Nat) :
    rel (Declaration.runsIn config resolver ds live) (Declaration.runsIn config resolver ds' live) := by
  match h with
  | .nil => exact hrel.refl _
  | .cons hd hs =>
    have hfirst := Declaration.Replaced.related hrel hR hd live
    exact hrel.andThen hfirst (Declaration.AllReplaced.related hrel hR hs live)
termination_by structural h

theorem Directive.Replaced.related (hrel : Run.Congruence config rel) (hR : Respects config resolver R rel)
    {d d' : Directive} (h : d.Replaced R d') (live : Nat) :
    rel (d.runIn config resolver live) (d'.runIn config resolver live) := by
  match h with
  | .same d => exact hrel.refl _
  | .nested hs =>
    refine hrel.directive fun category? => ?_
    cases category? with
    | none => exact hrel.ofScope live _ (Directive.AllReplaced.related hrel hR hs (live + 1))
    | some c => exact hrel.refl _
  | .body hs =>
    refine hrel.directive fun category? => ?_
    cases category? with
    | none => exact hrel.ofScope live _ (Declaration.AllReplaced.related hrel hR hs (live + 1))
    | some c => exact hrel.refl _
termination_by structural h

theorem Directive.AllReplaced.related (hrel : Run.Congruence config rel) (hR : Respects config resolver R rel)
    {ds ds' : List Directive} (h : Directive.AllReplaced R ds ds') (live : Nat) :
    rel (Directive.runsIn config resolver ds live) (Directive.runsIn config resolver ds' live) := by
  match h with
  | .nil => exact hrel.refl _
  | .cons hd hs =>
    have hfirst := Directive.Replaced.related hrel hR hd live
    exact hrel.andThen hfirst (Directive.AllReplaced.related hrel hR hs live)
termination_by structural h

end

/-- **Replacing declarations** by others to whose runs a congruence relates theirs relates what compiling does. -/
theorem Data.Replaced.related (hrel : Run.Congruence config rel) (hR : Respects config resolver R rel) {d d' : Data}
    (h : d.Replaced R d') :
    rel (.ofEvent (d.body.trace config resolver)) (.ofEvent (d'.body.trace config resolver)) := by
  rw [Data.trace_compile, Data.trace_compile]
  refine hrel.ofScope 0 [] ?_
  cases h with
  | declaration h => exact Declaration.Replaced.related hrel hR h 1
  | declarations h => exact Declaration.AllReplaced.related hrel hR h 1
  | directives h => exact Directive.AllReplaced.related hrel hR h 1

end

theorem Run.congruence_agree (config : Config) : Congruence config (Agree (ν := ν) (μ := ν)) where
  refl := .refl
  andThen := .andThen
  ofScope live segments h := h.ofScope config.maxDepth live segments

/-- What takes the place of a declaration does a run that agrees with that of the declaration. -/
def Agreeable (ν : Type) (config : Config) (resolver : Resolver) (R : Declaration → Declaration → Prop) : Prop :=
  ∀ d d', R d d' → ∀ live, Run.Agree (d.runIn config resolver live : Run ν) (d'.runIn config resolver live : Run ν)

/-- **Replacing declarations by others whose runs agree** changes neither the tree nor the diagnostics. -/
theorem Data.Replaced.compile_eq (hR : Agreeable ν config resolver R) {c : Compiler ν}
    (hc : c.Reached config resolver) {d d' : Data} (h : d.Replaced R d') :
    (c.compile d.body).1 = (c.compile d'.body).1 :=
  hc.compile_eq_of_events (Data.Replaced.related (Run.congruence_agree config) hR h)

end

end AccessRules
