import AccessRules.Proofs.Completeness

/-!
# Directives up to the first that offends

A directive offends if its value does not fit its tag, or if strict dispatch refuses the tag. This shows in the tag, the
shape of the value and the policy (`Directive.Offends`), whatever is in the value and in the scope. One that does not
offend always lets the directives behind it go on, even if a scope that it opens fails (`Directive.exists_effect`). So
directives fail exactly if one of them offends, for the error of the first that does, and leave the session as those
before this one leave it (`authorize_stops_at_first_offence`).
-/

namespace AccessRules

/-! ## Directives that offend -/

namespace Directive

/-- What a value is, whatever is in it. -/
inductive Shape where
  | predicate
  | nested
  | body
  deriving DecidableEq, Repr

def Value.shape : Value → Shape
  | predicate _ => .predicate
  | nested _ => .nested
  | body _ => .body

/-- A value of this shape may not stand under this tag, and the error says why. -/
inductive Misfits (policy : DispatchPolicy) (tag : String) : Shape → CompileError → Prop
  /-- The tag is the name of a category but for the case of letters, which strict dispatch refuses. -/
  | collision {shape : Shape} {c : Category} : policy = .strict → ¬ NamesCategory tag →
      c.name.toList = tag.toList.map Char.toLower → Misfits policy tag shape (.categoryCollision tag c)
  /-- Under the name of a category a predicate is expected. -/
  | noPredicate {shape : Shape} : NamesCategory tag → shape ≠ .predicate →
      Misfits policy tag shape (.expectedPredicate tag)
  /-- Under any other tag a body is expected. -/
  | noBody : ¬ NamesCategory tag → (policy = .strict → ¬ NearlyNamesCategory tag) →
      Misfits policy tag .predicate (.expectedBody tag)

/-- The directive cannot be worked off. -/
def Offends (policy : DispatchPolicy) (d : Directive) (error : CompileError) : Prop :=
  Misfits policy d.tag d.value.shape error

end Directive

theorem Category.name_inj {c c' : Category} (h : c.name = c'.name) : c = c' := by
  have hc := ofName?_name c
  rw [h, ofName?_name] at hc
  exact (Option.some.inj hc).symm

theorem Category.ofNameIgnoringCase?_eq_some_iff {tag : String} {c : Category} :
    ofNameIgnoringCase? tag = some c ↔ c.name.toList = tag.toList.map Char.toLower := by
  constructor
  · intro h
    simpa using List.find?_some h
  · intro hc
    cases h : ofNameIgnoringCase? tag with
    | none => exact absurd ⟨c, hc⟩ (ofNameIgnoringCase?_eq_none_iff.1 h)
    | some c' =>
      have hc' : c'.name.toList = tag.toList.map Char.toLower := by simpa using List.find?_some h
      rw [name_inj (String.toList_inj.1 (hc'.trans hc.symm))]

/-- A tag is refused by strict dispatch alone, for being nearly the name of a category. -/
theorem DispatchPolicy.classify_eq_error_iff {policy : DispatchPolicy} {tag : String} {error : CompileError} :
    policy.classify tag = .error error ↔ policy = .strict ∧ ¬ NamesCategory tag ∧
      ∃ c : Category, c.name.toList = tag.toList.map Char.toLower ∧ error = .categoryCollision tag c := by
  rw [← Category.ofName?_eq_none_iff]
  simp only [← Category.ofNameIgnoringCase?_eq_some_iff]
  unfold classify
  cases Category.ofName? tag with
  | some c => simp
  | none => cases policy <;> cases Category.ofNameIgnoringCase? tag <;> simp [eq_comm]

/-! ## What a directive does -/

section

variable {ν : Type} (config : Config) (resolver : Resolver)

namespace Directive

variable {policy : DispatchPolicy}

/-- A directive that offends fails the scope at once. -/
theorem script_of_offends {d : Directive} {error : CompileError} (h : d.Offends policy error) (next : Script ν) :
    d.script policy next = .fail error := by
  obtain ⟨tag, value⟩ := d
  change Misfits policy tag value.shape error at h
  rw [script]
  generalize hshape : value.shape = shape at h
  cases h with
  | collision hpolicy hname hc => rw [DispatchPolicy.classify_eq_error_iff.2 ⟨hpolicy, hname, _, hc, rfl⟩]
  | noPredicate hname hne =>
    obtain ⟨c, hc⟩ := hname
    rw [DispatchPolicy.classify_eq_some_iff.2 hc]
    cases value with
    | predicate p => exact absurd hshape.symm hne
    | nested ds => rfl
    | body ds => rfl
  | noBody hname hnear =>
    rw [DispatchPolicy.classify_eq_none_iff.2 ⟨hname, hnear⟩]
    cases value with
    | predicate p => rfl
    | nested ds => cases hshape
    | body ds => cases hshape

/-- **A directive that does not offend** does something to the session and lets the scope go on, however a scope that it
opens ends. -/
theorem exists_effect {d : Directive} (h : ∀ error, ¬ d.Offends policy error) :
    ∃ effect : Nat → Session ν → Session ν, ∀ next depth s,
      (d.script policy next).run config resolver depth s = next.run config resolver depth (effect depth s) := by
  obtain ⟨tag, value⟩ := d
  simp only [script]
  -- The script is one operation and then `next`, whatever comes of a scope that it opens; so the effect is read off.
  cases hclass : policy.classify tag with
  | error error =>
    obtain ⟨hpolicy, hname, c, hc, rfl⟩ := DispatchPolicy.classify_eq_error_iff.1 hclass
    exact absurd (.collision hpolicy hname hc) (h _)
  | ok category? =>
    cases category? with
    | some c =>
      have hname : NamesCategory tag := ⟨c, DispatchPolicy.classify_eq_some_iff.1 hclass⟩
      cases value with
      | predicate p => exact ⟨_, fun next depth s => rfl⟩
      | nested ds => exact absurd (.noPredicate hname (show Shape.nested ≠ .predicate by decide)) (h _)
      | body ds => exact absurd (.noPredicate hname (show Shape.body ≠ .predicate by decide)) (h _)
    | none =>
      obtain ⟨hname, hnear⟩ := DispatchPolicy.classify_eq_none_iff.1 hclass
      cases value with
      | predicate p => exact absurd (.noBody hname hnear) (h _)
      | nested ds => exact ⟨_, fun next depth s => rfl⟩
      | body ds => exact ⟨_, fun next depth s => rfl⟩

theorem scripts_append (before after : List Directive) (next : Script ν) :
    scripts policy (before ++ after) next = scripts policy before (scripts policy after next) := by
  induction before with
  | nil => rfl
  | cons d before ih => rw [List.cons_append, scripts, scripts, ih]

/-- So do directives of which none offends. -/
theorem exists_effect_scripts {ds : List Directive} (h : ∀ d ∈ ds, ∀ error, ¬ d.Offends policy error) :
    ∃ effect : Nat → Session ν → Session ν, ∀ next depth s,
      (scripts policy ds next).run config resolver depth s = next.run config resolver depth (effect depth s) := by
  induction ds with
  | nil => exact ⟨fun _ s => s, fun next depth s => rfl⟩
  | cons d ds ih =>
    obtain ⟨hd, hds⟩ := List.forall_mem_cons.1 h
    obtain ⟨first, hfirst⟩ := exists_effect config resolver hd
    obtain ⟨later, hlater⟩ := ih hds
    refine ⟨fun depth s => later depth (first depth s), fun next depth s => ?_⟩
    rw [scripts, hfirst, hlater]

/-- What goes on only if directives do not fail may as well be put behind them. -/
theorem script_andThen (d : Directive) (script next : Script ν) :
    (d.script policy script).andThen next.orFail = d.script policy (script.andThen next.orFail) := by
  obtain ⟨tag, value⟩ := d
  simp only [Directive.script]
  cases policy.classify tag with
  | error error => rfl
  | ok category? => cases value <;> cases category? <;> rfl

theorem scripts_eq_andThen (ds : List Directive) (next : Script ν) :
    scripts policy ds next = (scripts policy ds .done).andThen next.orFail := by
  induction ds with
  | nil => rfl
  | cons d ds ih => rw [scripts, scripts, script_andThen, ih]

/-- In a list in which some directive offends there is a first one. -/
theorem exists_first_offence {ds : List Directive} (h : ∃ d ∈ ds, ∃ error, d.Offends policy error) :
    ∃ before d after error, ds = before ++ d :: after ∧ (∀ b ∈ before, ∀ error, ¬ b.Offends policy error) ∧
      d.Offends policy error := by
  induction ds with
  | nil =>
    obtain ⟨d, hd, -⟩ := h
    cases hd
  | cons d ds ih =>
    by_cases hd : ∃ error, d.Offends policy error
    · obtain ⟨error, hd⟩ := hd
      exact ⟨[], d, ds, error, rfl, nofun, hd⟩
    · have hds : ∃ d ∈ ds, ∃ error, d.Offends policy error := by
        obtain ⟨d', hd', hoffends⟩ := h
        rcases List.mem_cons.1 hd' with rfl | hd'
        · exact absurd hoffends hd
        · exact ⟨d', hd', hoffends⟩
      obtain ⟨before, d', after, error, rfl, hbefore, hoffends⟩ := ih hds
      exact ⟨d :: before, d', after, error, rfl, List.forall_mem_cons.2 ⟨not_exists.1 hd, hbefore⟩, hoffends⟩

end Directive

/-! ## Authorizing -/

/-- Behind a script another one goes on, as the first one ended and from where it left the session. -/
theorem Script.run_andThen (script : Script ν) (next : Outcome → Script ν) (depth : Nat) (s : Session ν) :
    (script.andThen next).run config resolver depth s =
      (next (script.run config resolver depth s).1).run config resolver depth (script.run config resolver depth s).2 := by
  induction script generalizing s with
  | done | fail error => rfl
  | add c p rest ih => exact ih _
  | note n rest ih => exact ih _
  | look rest ih => exact ih _ s
  | policy rest ih => exact ih _ s
  | within expr body rest _ ih => exact ih _ _
  | descend segment body rest _ ih => exact ih _ _

end

namespace Session

variable {ν : Type} (s : Session ν) (config : Config) (resolver : Resolver) (depth : Nat)

/-- Work off directives in the scope at a depth: how that ends, and the session behind it. -/
def authorize (ds : List Directive) : Outcome × Session ν :=
  (Directive.scripts config.dispatch ds .done).run config resolver depth s

/-- Directives of which none offends are all worked off. -/
theorem authorize_of_none {ds : List Directive} (h : ∀ d ∈ ds, ∀ error, ¬ d.Offends config.dispatch error) :
    (s.authorize config resolver depth ds).1 = .ok () := by
  obtain ⟨effect, heffect⟩ := Directive.exists_effect_scripts config resolver h
  rw [authorize, heffect]
  rfl

/-- The first directive that offends ends it, where those before it have led. -/
theorem authorize_of_first {before after : List Directive} {d : Directive} {error : CompileError}
    (hbefore : ∀ b ∈ before, ∀ error, ¬ b.Offends config.dispatch error) (hd : d.Offends config.dispatch error) :
    s.authorize config resolver depth (before ++ d :: after) =
      (.error error, (s.authorize config resolver depth before).2) := by
  obtain ⟨effect, heffect⟩ := Directive.exists_effect_scripts config resolver hbefore
  rw [authorize, authorize, Directive.scripts_append, Directive.scripts, Directive.script_of_offends hd, heffect,
    heffect]
  rfl

end Session

/-- **Directives fail from the first one that offends.** A script that works off directives, and a declaration that does,
go on with what `authorize` says. This is a failure exactly if some directive offends; the error is that of the first one
that does, the session is in all its parts the one behind the directives before it, which do not fail, and those behind
it are not even looked at. -/
theorem authorize_stops_at_first_offence {ν : Type} (config : Config) (resolver : Resolver) (depth : Nat)
    (s : Session ν) :
    (∀ (ds : List Directive) (next : Outcome → Script ν),
      (Script.authorize ds next).run config resolver depth s =
        (next (s.authorize config resolver depth ds).1).run config resolver depth
          (s.authorize config resolver depth ds).2) ∧
    (∀ (ds : List Directive) (next : Script ν),
      ((Declaration.authorize ds).script config.dispatch next).run config resolver depth s =
        (next.orFail (s.authorize config resolver depth ds).1).run config resolver depth
          (s.authorize config resolver depth ds).2) ∧
    (∀ ds : List Directive, (∃ error, (s.authorize config resolver depth ds).1 = .error error) ↔
      ∃ d ∈ ds, ∃ error, d.Offends config.dispatch error) ∧
    ∀ (before : List Directive) (d : Directive) (after : List Directive) (error : CompileError),
      (∀ b ∈ before, ∀ error, ¬ b.Offends config.dispatch error) → d.Offends config.dispatch error →
      (s.authorize config resolver depth before).1 = .ok () ∧
        s.authorize config resolver depth (before ++ d :: after) =
          (.error error, (s.authorize config resolver depth before).2) := by
  refine ⟨fun ds next => Script.run_andThen config resolver _ next depth s, fun ds next => ?_, fun ds => ⟨?_, ?_⟩, ?_⟩
  · rw [Declaration.script, Directive.scripts_eq_andThen, Script.run_andThen]
    rfl
  · rintro ⟨error, herror⟩
    -- If none offended, all would be worked off.
    by_contra hnone
    have hfit : ∀ d ∈ ds, ∀ error, ¬ d.Offends config.dispatch error := fun d hd error hoffends =>
      hnone ⟨d, hd, error, hoffends⟩
    rw [s.authorize_of_none config resolver depth hfit] at herror
    cases herror
  · intro h
    obtain ⟨before, d, after, error, rfl, hbefore, hd⟩ := Directive.exists_first_offence h
    exact ⟨error, by rw [s.authorize_of_first config resolver depth hbefore hd]⟩
  · intro before d after error hbefore hd
    exact ⟨s.authorize_of_none config resolver depth hbefore, s.authorize_of_first config resolver depth hbefore hd⟩

/-- Under strict dispatch, behind a scope that fails and one that does not, in a scope that holds something already. -/
theorem authorize_stops_at_near_name :
    let config : Config := { dispatch := .strict }
    let s : Session Unit := { frames := [⟨[.literal "x"], RuleTree.empty.add .write ⟨"w"⟩⟩] }
    let before : List Directive :=
      [.mk "read" (.predicate ⟨"p"⟩), .mk "$id" (.nested [.mk "create" (.nested [])]),
        .mk "a" (.body [.add .index ⟨"q"⟩])]
    let d : Directive := .mk "Delete" (.nested [])
    let after : List Directive := [.mk "update" (.predicate ⟨"r"⟩), .mk "write" (.nested [])]
    (∀ b ∈ before, ∀ error, ¬ b.Offends .strict error) ∧ d.Offends .strict (.categoryCollision "Delete" .delete) ∧
      (s.authorize config .slash 1 before).1 = .ok () ∧
      s.authorize config .slash 1 (before ++ d :: after) =
        (.error (.categoryCollision "Delete" .delete), (s.authorize config .slash 1 before).2) ∧
      (s.authorize config .slash 1 (before ++ d :: after)).2.diagnostics =
        [⟨[.literal "x", .capture "id"], .expectedPredicate "create"⟩] := by
  intro config s before d after
  obtain ⟨-, -, hfails, hfirst⟩ := authorize_stops_at_first_offence config .slash 1 s
  have hok : (s.authorize config .slash 1 before).1 = .ok () := by decide
  have hbefore : ∀ b ∈ before, ∀ error, ¬ b.Offends .strict error := by
    intro b hb error hoffends
    obtain ⟨error', herror⟩ := (hfails before).2 ⟨b, hb, error, hoffends⟩
    rw [hok] at herror
    cases herror
  have hname : ¬ NamesCategory "Delete" := Category.ofName?_eq_none_iff.1 (by decide)
  have hd : d.Offends .strict (.categoryCollision "Delete" .delete) := .collision rfl hname (by decide)
  obtain ⟨-, hstop⟩ := hfirst before d after _ hbefore hd
  refine ⟨hbefore, hd, hok, hstop, ?_⟩
  rw [hstop]
  decide

end AccessRules
