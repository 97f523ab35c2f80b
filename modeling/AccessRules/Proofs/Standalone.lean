import AccessRules.Proofs.Room
import AccessRules.Proofs.Spelling

/-!
# Scopes by themselves

A scope of data may be run by itself, or as the only entry of a body that is compiled, where it stands one level deeper:
below the root. If the limit is higher by one there, then the scope has the same room in both places, and so it does the
same: its tree is the tree of the compilation, and the same is reported, but for the limit that refused scopes are told
(`standalone_agrees`).
-/

namespace AccessRules

/-! ## Data as the body of a scope -/

/-- The declarations in the body of a scope that is declared to do what the data does. -/
def Data.entries : Data → List Declaration
  | declaration d => [d]
  | declarations ds => ds
  | directives ds => [.authorize ds]

section

variable {ν : Type} (config : Config) (resolver : Resolver)

theorem Data.runsIn_entries (d : Data) (live : Nat) :
    (Declaration.runsIn config resolver d.entries live : Run ν) = d.runIn config resolver live := by
  cases d with
  | declaration d => exact Declaration.runsIn_singleton resolver d live
  | declarations ds => rfl
  | directives ds => exact Declaration.runsIn_singleton resolver (.authorize ds) live

/-- Data that is run by itself at an expression is asked for where no scope is open. -/
theorem Data.traceWithin_eq (d : Data) (expr : String) :
    (d.body : Body ν).traceWithin config resolver expr = .askedAt config resolver 0 expr (d.runIn config resolver 1) := by
  unfold Body.traceWithin View.asked Event.askedAt
  cases resolver expr with
  | error error => rfl
  | ok segments =>
    simp only [Data.trace_body]
    rfl

/-- What it is answered and what is reported is read off this event. -/
theorem Compiler.Reached.within_data {c : Compiler ν} (hc : c.Reached config resolver) (d : Data) (expr : String) :
    (c.within expr d.body).1 = View.outside.answer (.askedAt config resolver 0 expr (d.runIn config resolver 1 : Run ν)) ∧
      (c.within expr d.body).2.diagnostics = c.diagnostics ++
        Event.failures [] (.askedAt config resolver 0 expr (d.runIn config resolver 1 : Run ν)) := by
  obtain ⟨rfl, rfl⟩ := hc.settings
  rw [hc.idle.within, Data.traceWithin_eq]
  refine ⟨rfl, ?_⟩
  have hpath : c.session.current.path = [] := by rw [hc.idle.current]; rfl
  rw [← Event.failuresOf_singleton, ← hpath]
  rfl

/-- In a compilation of its own, it is asked for in the root. -/
theorem Data.trace_within_entries (hroot : 0 < config.maxDepth) (d : Data) (expr : String) :
    (Body.declarations [.within expr d.entries] : Body ν).trace config resolver =
      .scope [] [.askedAt config resolver 1 expr (d.runIn config resolver 2)] (.ok ()) := by
  have hrun : (Declaration.runsIn config resolver [.within expr d.entries] 1 : Run ν) =
      .ofEvent (.askedAt config resolver 1 expr (d.runIn config resolver 2)) := by
    rw [Declaration.runsIn_singleton, Declaration.runIn, Data.runsIn_entries]
  rw [show Body.declarations [.within expr d.entries] = Data.body (.declarations [.within expr d.entries]) from rfl,
    Data.trace_compile, Data.runIn, hrun, Event.ofScope_of_lt hroot]
  rfl

/-- The root adds nothing to what it gives. -/
theorem Compiler.Reached.compile_within_entries {c : Compiler ν} (hc : c.Reached config resolver)
    (hroot : 0 < config.maxDepth) (d : Data) (expr : String) :
    (c.compile (.declarations [.within expr d.entries])).1 =
      ⟨.ofFacts (Event.askedAt config resolver 1 expr (d.runIn config resolver 2 : Run ν)).facts,
        Event.failures [] (.askedAt config resolver 1 expr (d.runIn config resolver 2 : Run ν))⟩ := by
  have hbelow : Fact.below [] = id := rfl
  rw [hc.compile_trace, Data.trace_within_entries config resolver hroot]
  simp [Event.facts, Event.failures, hbelow]

/-- A scope that is asked for where none is open is answered with the tree of what it leaves. -/
theorem View.answer_askedAt (live : Nat) (expr : String) (body : Run ν) :
    (View.outside.answer (.askedAt config resolver live expr body)).getD .empty =
      .ofFacts (Event.askedAt config resolver live expr body).facts := by
  unfold Event.askedAt
  cases resolver expr with
  | error error => rfl
  | ok segments => exact View.answer_ofScope config.maxDepth live segments body

end

/-! ## The same room -/

section

variable {ν : Type}

theorem Run.exists_of_limited_eq {room limit : Nat} {r : Run ν} {e : Event ν} (h : r.limited room limit = .ofEvent e) :
    ∃ e', r = .ofEvent e' ∧ e'.limited room limit = e := by
  obtain ⟨events, outcome⟩ := r
  obtain ⟨hevents, houtcome⟩ := Prod.mk.inj h
  match events, hevents with
  | [e'], hevents => exact ⟨e', Prod.ext rfl houtcome, (List.cons.inj hevents).1⟩

/-- Where a scope of data has the same room, the same happens in it, but for the limit that refused scopes are told. -/
theorem Data.asked_in_same_room (policy : DispatchPolicy) (resolver : Resolver) (d : Data) (expr : String)
    {limit limit' level level' : Nat} (hroom : limit - level = limit' - level') :
    let e : Event ν :=
      .askedAt ⟨policy, limit⟩ resolver level expr (d.runIn ⟨policy, limit⟩ resolver (level + 1))
    let e' : Event ν :=
      .askedAt ⟨policy, limit'⟩ resolver level' expr (d.runIn ⟨policy, limit'⟩ resolver (level' + 1))
    e.facts = e'.facts ∧ e.completes = e'.completes ∧
      ∀ path, e.failures path = (e'.failures path).map (Diagnostic.withLimit limit) := by
  intro e e'
  obtain ⟨r, hr, hrun⟩ := Data.exists_unlimited (ν := ν) policy resolver (.declaration (.within expr d.entries))
  have hasked (limit level : Nat) : r.limited (limit - level) limit =
      .ofEvent (.askedAt ⟨policy, limit⟩ resolver level expr (d.runIn ⟨policy, limit⟩ resolver (level + 1))) := by
    rw [← hrun, Data.runIn, Declaration.runIn, Data.runsIn_entries]
  -- One event is limited in both places.
  obtain ⟨x, rfl, he⟩ := Run.exists_of_limited_eq (hasked limit level)
  obtain ⟨y, hy, he'⟩ := Run.exists_of_limited_eq (hasked limit' level')
  cases hy
  replace he : x.limited (limit' - level') limit = e := hroom ▸ he
  replace he' : x.limited (limit' - level') limit' = e' := he'
  have hx : Unrefused x.errors := by simpa [Run.ofEvent] using hr.events
  rw [← he, ← he']
  exact ⟨x.facts_limited _ _ _, x.completes_limited _ _ _, fun path => x.failures_limited _ _ _ path hx⟩

end

/-- **Standalone and compiled scopes agree.** A scope of data that is run by itself under a limit is answered with a tree
exactly if it is opened and completes as the only entry of a body that is compiled under the next higher limit, and then
this is the tree of the compilation; else that is empty. What is reported is the same, one by one, but for the limit that
refused scopes are told. -/
theorem standalone_agrees {ν : Type} {policy : DispatchPolicy} {limit : Nat} {resolver : Resolver}
    {alone compiling : Compiler ν} (halone : alone.Reached ⟨policy, limit⟩ resolver)
    (hcompiling : compiling.Reached ⟨policy, limit + 1⟩ resolver) (expr : String) (d : Data) :
    let body : Body ν := .declarations [.within expr d.entries]
    ∃ (e : Event ν) (reported : List Diagnostic),
      body.trace ⟨policy, limit + 1⟩ resolver = .scope [] [e] (.ok ()) ∧
      (alone.within expr d.body).1.isSome = e.completes ∧
      (∀ t, (alone.within expr d.body).1 = some t → (compiling.compile body).1.tree = t) ∧
      ((alone.within expr d.body).1 = none → (compiling.compile body).1.tree = .empty) ∧
      (alone.within expr d.body).2.diagnostics = alone.diagnostics ++ reported ∧
      reported = (compiling.compile body).1.diagnostics.map (Diagnostic.withLimit limit) ∧
      (compiling.compile body).1.diagnostics = reported.map (Diagnostic.withLimit (limit + 1)) := by
  intro body
  have htrace := d.trace_within_entries (ν := ν) ⟨policy, limit + 1⟩ resolver (Nat.succ_pos limit) expr
  obtain ⟨hanswered, hreported⟩ := halone.within_data _ _ d expr
  have hcompiled := hcompiling.compile_within_entries _ _ (Nat.succ_pos limit) d expr
  have hanswer := View.answer_askedAt ⟨policy, limit⟩ resolver 0 expr (d.runIn ⟨policy, limit⟩ resolver 1 : Run ν)
  -- In both places the scope has the whole limit as its room.
  have hroom : limit - 0 = limit + 1 - 1 := rfl
  obtain ⟨hfacts, hcompletes, hfailures⟩ := d.asked_in_same_room (ν := ν) policy resolver expr hroom
  obtain ⟨-, -, hfailures'⟩ := d.asked_in_same_room (ν := ν) policy resolver expr hroom.symm
  have htree : (compiling.compile body).1.tree = (alone.within expr d.body).1.getD .empty := by
    rw [hcompiled, hanswered, hanswer, hfacts]
  refine ⟨_, _, htrace, ?_, fun t ht => ?_, fun hnone => ?_, hreported, ?_, ?_⟩
  · rw [hanswered, ← hcompletes, View.answer]
    cases Event.completes _ <;> rfl
  · rw [htree, ht]
    rfl
  · rw [htree, hnone]
    rfl
  · rw [hcompiled]
    exact hfailures []
  · rw [hcompiled]
    exact hfailures' []

/-- A scope in which one scope is too deep and another one is not resolved; and one that fails. -/
theorem standalone_agrees_of_deep_and_failing_scopes :
    let d : Data := .declarations [.add .read ⟨"p"⟩, .within "b" [.within "$c" [.add .write ⟨"q"⟩]], .within "$" []]
    let failing : Data := .directives [.mk "b" (.nested []), .mk "c" (.predicate ⟨"q"⟩)]
    let expr := "/$id/a"
    let alone : Compiler Unit := { config := ⟨.infer, 2⟩ }
    let compiling : Compiler Unit := { config := ⟨.infer, 3⟩ }
    let reported (limit : Nat) : List Diagnostic :=
      [⟨[.capture "id", .literal "a", .literal "b", .capture "c"], .depthExceeded limit⟩,
        ⟨[.capture "id", .literal "a"], .resolve ⟨"expected variable name, path segment in \"$\"", some 1⟩⟩]
    alone.Reached ⟨.infer, 2⟩ .slash ∧ compiling.Reached ⟨.infer, 3⟩ .slash ∧
      (∃ t, (alone.within expr d.body).1 = some t ∧
        (compiling.compile (.declarations [.within expr d.entries])).1.tree = t) ∧
      (alone.within expr d.body).2.diagnostics = reported 2 ∧
      (compiling.compile (.declarations [.within expr d.entries])).1.diagnostics = reported 3 ∧
      (alone.within expr failing.body).1 = none ∧
      (compiling.compile (.declarations [.within expr failing.entries])).1.tree = .empty ∧
      (compiling.compile (.declarations [.within expr failing.entries])).1.diagnostics =
        [⟨[.capture "id", .literal "a"], .expectedBody "c"⟩] := by
  intro d failing expr alone compiling reported
  have halone : alone.Reached ⟨.infer, 2⟩ .slash := .fresh
  have hcompiling : compiling.Reached ⟨.infer, 3⟩ .slash := .fresh
  obtain ⟨-, ds, -, -, hsome, -, hds, -, hds'⟩ := standalone_agrees halone hcompiling expr d
  obtain ⟨-, -, -, -, -, hnone, -, -, -⟩ := standalone_agrees halone hcompiling expr failing
  obtain ⟨t, ht⟩ := Option.isSome_iff_exists.1 (show (alone.within expr d.body).1.isSome = true by decide)
  have hnone' := Option.isNone_iff_eq_none.1 (show (alone.within expr failing.body).1.isNone = true by decide)
  have hreported : (alone.within expr d.body).2.diagnostics = reported 2 := by decide
  obtain rfl : ds = reported 2 := hds.symm.trans hreported
  have hlimit : (reported 2).map (Diagnostic.withLimit 3) = reported 3 := rfl
  rw [hlimit] at hds'
  exact ⟨halone, hcompiling, ⟨t, ht, hsome t ht⟩, hreported, hds', hnone', hnone hnone', by decide⟩

end AccessRules
