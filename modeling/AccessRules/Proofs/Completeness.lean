import AccessRules.Proofs.Rearranging

/-!
# Complete compilations of data

Whether data can be carried out completely shows in the data alone (`Data.Fits`): expressions have to resolve, scopes
must not be nested too deep, values have to fit their tags, and strict dispatch has to put up with the tags. A run stops
at the first entry that fails, but then it reports, or the scope around it does; so nothing is reported exactly if every
entry fits, at every depth (`Data.flawless_iff`). The facts of such a run are those that the data declares
(`Data.facts_runIn`). Together: a compilation is complete exactly if the data fits, and then its tree holds what the
data declares (`complete_iff_fits`).
-/

namespace AccessRules

/-! ## Tags -/

/-- The tag is exactly the name of a category. -/
def NamesCategory (tag : String) : Prop := ∃ c : Category, c.name = tag

/-- The tag is the name of a category only if the case of ASCII letters is ignored. -/
def NearlyNamesCategory (tag : String) : Prop :=
  ¬ NamesCategory tag ∧ ∃ c : Category, c.name.toList = tag.toList.map Char.toLower

theorem Category.mem_all (c : Category) : c ∈ all := by cases c <;> decide

theorem Category.ofName?_eq_some_iff {tag : String} {c : Category} : ofName? tag = some c ↔ c.name = tag := by
  constructor
  · exact name_of_ofName?
  · rintro rfl
    exact ofName?_name c

theorem Category.ofName?_eq_none_iff {tag : String} : ofName? tag = none ↔ ¬ NamesCategory tag := by
  simp only [NamesCategory, Option.eq_none_iff_forall_ne_some, ne_eq, ofName?_eq_some_iff, not_exists]

theorem Category.ofNameIgnoringCase?_eq_none_iff {tag : String} :
    ofNameIgnoringCase? tag = none ↔ ¬ ∃ c : Category, c.name.toList = tag.toList.map Char.toLower := by
  simp [ofNameIgnoringCase?, mem_all]

namespace DispatchPolicy

variable {policy : DispatchPolicy} {tag : String}

theorem classify_eq_some_iff {c : Category} : policy.classify tag = .ok (some c) ↔ c.name = tag := by
  rw [← Category.ofName?_eq_some_iff]
  unfold classify
  cases Category.ofName? tag with
  | some c' => simp
  | none => cases policy <;> cases Category.ofNameIgnoringCase? tag <;> simp

theorem classify_eq_none_iff :
    policy.classify tag = .ok none ↔ ¬ NamesCategory tag ∧ (policy = .strict → ¬ NearlyNamesCategory tag) := by
  unfold classify
  cases hname : Category.ofName? tag with
  | some c =>
    have hnames : NamesCategory tag := ⟨c, Category.ofName?_eq_some_iff.1 hname⟩
    simp [hnames]
  | none =>
    have hnames := Category.ofName?_eq_none_iff.1 hname
    have hnear : NearlyNamesCategory tag ↔ ¬ Category.ofNameIgnoringCase? tag = none := by
      rw [Category.ofNameIgnoringCase?_eq_none_iff, Classical.not_not]
      exact and_iff_right hnames
    rw [hnear]
    cases policy <;> cases Category.ofNameIgnoringCase? tag <;> simp [hnames]

/-- A tag is refused only by strict dispatch, if it is nearly the name of a category. -/
theorem classify_ok_iff :
    (∃ category?, policy.classify tag = .ok category?) ↔ (policy = .strict → ¬ NearlyNamesCategory tag) := by
  constructor
  · rintro ⟨_ | c, hc⟩
    · exact (classify_eq_none_iff.1 hc).2
    · exact fun _ hnear => hnear.1 ⟨c, classify_eq_some_iff.1 hc⟩
  · intro h
    by_cases hnames : NamesCategory tag
    · obtain ⟨c, hc⟩ := hnames
      exact ⟨some c, classify_eq_some_iff.2 hc⟩
    · exact ⟨none, classify_eq_none_iff.2 ⟨hnames, h⟩⟩

end DispatchPolicy

/-! ## What the data says -/

section

variable (config : Config) (resolver : Resolver)

mutual

/-- A declaration in a scope at a level, the root being at level 1, can be carried out with all that is in it. -/
def Declaration.Fits : Declaration → Nat → Prop
  | .add _ _, _ => True
  | .authorize directives, level => Directive.AllFit directives level
  | .within expr body, level =>
    (∃ segments, resolver expr = .ok segments) ∧ level + 1 ≤ config.maxDepth ∧ Declaration.AllFit body (level + 1)

def Declaration.AllFit : List Declaration → Nat → Prop
  | [], _ => True
  | d :: rest, level => Declaration.Fits d level ∧ Declaration.AllFit rest level

/-- A directive in a scope at a level can be carried out with all that is in it. -/
def Directive.Fits : Directive → Nat → Prop
  | .mk tag value, level =>
    (config.dispatch = .strict → ¬ NearlyNamesCategory tag) ∧ Directive.Value.Fits tag value level

/-- Under the names of categories predicates belong, and nested entries under all other tags. -/
def Directive.Value.Fits (tag : String) : Directive.Value → Nat → Prop
  | .predicate _, _ => NamesCategory tag
  | .nested directives, level =>
    ¬ NamesCategory tag ∧ level + 1 ≤ config.maxDepth ∧ Directive.AllFit directives (level + 1)
  | .body declarations, level =>
    ¬ NamesCategory tag ∧ level + 1 ≤ config.maxDepth ∧ Declaration.AllFit declarations (level + 1)

def Directive.AllFit : List Directive → Nat → Prop
  | [], _ => True
  | d :: rest, level => Directive.Fits d level ∧ Directive.AllFit rest level

end

/-- Data in a scope at a level can be carried out with all that is in it. -/
def Data.FitsAt : Data → Nat → Prop
  | .declaration d, level => d.Fits config resolver level
  | .declarations ds, level => Declaration.AllFit config resolver ds level
  | .directives ds, level => Directive.AllFit config resolver ds level

/-- Data can be compiled with all that is in it. -/
def Data.Fits (d : Data) : Prop := 1 ≤ config.maxDepth ∧ d.FitsAt config resolver 1

end

section

variable (resolver : Resolver)

mutual

/-- The facts that a declaration declares, as seen from its place. -/
def Declaration.declared : Declaration → List Fact
  | .add c p => [⟨[], c, p⟩]
  | .authorize directives => Directive.allDeclared directives
  | .within expr body =>
    match resolver expr with
    | .error _ => []
    | .ok segments => (Declaration.allDeclared body).map (Fact.below segments)

def Declaration.allDeclared : List Declaration → List Fact
  | [] => []
  | d :: rest => Declaration.declared d ++ Declaration.allDeclared rest

/-- The facts that a directive declares, as seen from its place. -/
def Directive.declared : Directive → List Fact
  | .mk tag value => Directive.Value.declared tag value

def Directive.Value.declared (tag : String) : Directive.Value → List Fact
  | .predicate p => (Category.ofName? tag).toList.map fun c => ⟨[], c, p⟩
  | .nested directives => (Directive.allDeclared directives).map (Fact.below [.ofTag tag])
  | .body declarations => (Declaration.allDeclared declarations).map (Fact.below [.ofTag tag])

def Directive.allDeclared : List Directive → List Fact
  | [] => []
  | d :: rest => Directive.declared d ++ Directive.allDeclared rest

end

/-- The facts that data declares. -/
def Data.declared : Data → List Fact
  | .declaration d => d.declared resolver
  | .declarations ds => Declaration.allDeclared resolver ds
  | .directives ds => Directive.allDeclared resolver ds

end

/-! ## Runs in which nothing fails -/

namespace Run

variable {ν : Type} {a b : Run ν} {path : Path}

/-- The run completes and nothing is reported in it. -/
def Flawless (path : Path) (r : Run ν) : Prop := r.Completes ∧ r.Clean path

theorem flawless_idle : (idle : Run ν).Flawless path := ⟨rfl, rfl⟩

theorem not_flawless_fails (error : CompileError) : ¬ (fails error : Run ν).Flawless path := fun h => nomatch h.1

theorem flawless_added (c : Category) (p : Predicate) : (ofEvent (.added c p) : Run ν).Flawless path := ⟨rfl, rfl⟩

theorem flawless_andThen : (a.andThen b).Flawless path ↔ a.Flawless path ∧ b.Flawless path := by
  unfold Flawless
  rw [completes_andThen]
  constructor
  · rintro ⟨⟨ha, hb⟩, hclean⟩
    rw [clean_andThen ha] at hclean
    exact ⟨⟨ha, hclean.1⟩, hb, hclean.2⟩
  · rintro ⟨⟨ha, hcleana⟩, hb, hcleanb⟩
    exact ⟨⟨ha, hb⟩, (clean_andThen ha).2 ⟨hcleana, hcleanb⟩⟩

/-- A scope in which nothing fails is one that may be opened and whose body is run flawlessly. -/
theorem flawless_ofScope {limit live : Nat} {segments : Path} :
    (ofEvent (.ofScope limit live segments a)).Flawless path ↔ live + 1 ≤ limit ∧ a.Flawless (path ++ segments) := by
  obtain ⟨events, outcome⟩ := a
  unfold Event.ofScope
  split
  · next hl =>
    refine iff_of_false (fun h => nomatch h.2) fun h => ?_
    omega
  · next hl =>
    rw [and_iff_right (by omega)]
    cases outcome with
    | error error =>
      refine iff_of_false (fun h => ?_) fun h => nomatch h.1
      have hclean : Event.failuresOf (path ++ segments) events ++ [⟨path ++ segments, error⟩] = [] :=
        (Event.failuresOf_singleton _ _).symm.trans h.2
      exact List.append_ne_nil_of_right_ne_nil _ (List.cons_ne_nil _ _) hclean
    | ok =>
      simp [Flawless, Completes, Clean, ofEvent, Event.failures]

theorem flawless_askedAt {config : Config} {resolver : Resolver} {live : Nat} {expr : String} :
    (ofEvent (.askedAt config resolver live expr a)).Flawless path ↔
      ∃ segments, resolver expr = .ok segments ∧ live + 1 ≤ config.maxDepth ∧ a.Flawless (path ++ segments) := by
  unfold Event.askedAt
  cases resolver expr with
  | error error => exact iff_of_false (fun h => nomatch h.2) (by simp)
  | ok segments => simp [flawless_ofScope]

/-- The facts of a run in which nothing fails. -/
theorem facts_andThen (ha : a.Completes) : Event.factsOf (a.andThen b).1 = Event.factsOf a.1 ++ Event.factsOf b.1 := by
  rw [andThen_of_completes ha, Event.factsOf_append]

theorem facts_ofScope {limit live : Nat} {segments : Path} (hl : live + 1 ≤ limit) (ha : a.Completes) :
    Event.factsOf (ofEvent (.ofScope limit live segments a)).1 = (Event.factsOf a.1).map (Fact.below segments) := by
  obtain ⟨events, outcome⟩ := a
  obtain rfl : outcome = .ok () := ha
  unfold Event.ofScope
  rw [if_neg (by omega)]
  exact Event.factsOf_singleton _

end Run

/-! ## Data that fits -/

section

variable {ν : Type} {config : Config} {resolver : Resolver}

/-- A scope at an expression, with a body that is run flawlessly exactly if it fits. -/
theorem Run.flawless_within {body : Run ν} {expr : String} {level : Nat} {path : Path} {fits : Prop}
    (h : ∀ path, body.Flawless path ↔ fits) :
    (ofEvent (.askedAt config resolver level expr body)).Flawless path ↔
      (∃ segments, resolver expr = .ok segments) ∧ level + 1 ≤ config.maxDepth ∧ fits := by
  simp only [flawless_askedAt, h, exists_and_right]

/-- A directive is run as its value under the tag, unless the tag is refused. -/
theorem Directive.flawless_mk {tag : String} {value : Directive.Value} {level : Nat} {path : Path} {fits : Prop}
    (hvalue : ∀ category?, config.dispatch.classify tag = .ok category? →
      ((Directive.Value.runIn config resolver tag value category? level : Run ν).Flawless path ↔ fits)) :
    (Directive.runIn config resolver (.mk tag value) level : Run ν).Flawless path ↔
      (config.dispatch = .strict → ¬ NearlyNamesCategory tag) ∧ fits := by
  rw [← DispatchPolicy.classify_ok_iff, Directive.runIn]
  cases hc : config.dispatch.classify tag with
  | error error =>
    refine iff_of_false (Run.not_flawless_fails error) ?_
    rintro ⟨⟨_, h⟩, -⟩
    cases h
  | ok category? => exact (hvalue category? hc).trans (and_iff_right ⟨category?, rfl⟩).symm

mutual

/-- **A declaration is run flawlessly exactly if it fits.** -/
theorem Declaration.flawless_iff (d : Declaration) (level : Nat) (path : Path) :
    (d.runIn config resolver level : Run ν).Flawless path ↔ d.Fits config resolver level := by
  match d with
  | .add c p => exact iff_of_true (Run.flawless_added c p) trivial
  | .authorize directives => exact Directive.all_flawless_iff directives level path
  | .within expr body => exact Run.flawless_within fun path => Declaration.all_flawless_iff body (level + 1) path
termination_by structural d

theorem Declaration.all_flawless_iff (ds : List Declaration) (level : Nat) (path : Path) :
    (Declaration.runsIn config resolver ds level : Run ν).Flawless path ↔
      Declaration.AllFit config resolver ds level := by
  match ds with
  | [] => exact iff_of_true Run.flawless_idle trivial
  | d :: rest =>
    have hd := Declaration.flawless_iff d level path
    have hrest := Declaration.all_flawless_iff rest level path
    exact Run.flawless_andThen.trans (and_congr hd hrest)
termination_by structural ds

/-- **A directive is run flawlessly exactly if it fits.** -/
theorem Directive.flawless_iff (d : Directive) (level : Nat) (path : Path) :
    (d.runIn config resolver level : Run ν).Flawless path ↔ d.Fits config resolver level := by
  match d with
  | .mk tag value => exact Directive.flawless_mk (Directive.Value.flawless_iff tag value level path)
termination_by structural d

theorem Directive.Value.flawless_iff (tag : String) (value : Directive.Value) (level : Nat) (path : Path)
    (category? : Option Category) (hc : config.dispatch.classify tag = .ok category?) :
    (Directive.Value.runIn config resolver tag value category? level : Run ν).Flawless path ↔
      Directive.Value.Fits config resolver tag value level := by
  match value, category? with
  | .predicate p, some c => exact iff_of_true (Run.flawless_added c p) ⟨c, DispatchPolicy.classify_eq_some_iff.1 hc⟩
  | .predicate p, none =>
    exact iff_of_false (Run.not_flawless_fails _) (DispatchPolicy.classify_eq_none_iff.1 hc).1
  | .nested directives, some c =>
    exact iff_of_false (Run.not_flawless_fails _) fun h => h.1 ⟨c, DispatchPolicy.classify_eq_some_iff.1 hc⟩
  | .nested directives, none =>
    have hbody := Directive.all_flawless_iff directives (level + 1) (path ++ [.ofTag tag])
    have hname := (DispatchPolicy.classify_eq_none_iff.1 hc).1
    exact Run.flawless_ofScope.trans ((and_congr_right fun _ => hbody).trans (and_iff_right hname).symm)
  | .body declarations, some c =>
    exact iff_of_false (Run.not_flawless_fails _) fun h => h.1 ⟨c, DispatchPolicy.classify_eq_some_iff.1 hc⟩
  | .body declarations, none =>
    have hbody := Declaration.all_flawless_iff declarations (level + 1) (path ++ [.ofTag tag])
    have hname := (DispatchPolicy.classify_eq_none_iff.1 hc).1
    exact Run.flawless_ofScope.trans ((and_congr_right fun _ => hbody).trans (and_iff_right hname).symm)
termination_by structural value

theorem Directive.all_flawless_iff (ds : List Directive) (level : Nat) (path : Path) :
    (Directive.runsIn config resolver ds level : Run ν).Flawless path ↔ Directive.AllFit config resolver ds level := by
  match ds with
  | [] => exact iff_of_true Run.flawless_idle trivial
  | d :: rest =>
    have hd := Directive.flawless_iff d level path
    have hrest := Directive.all_flawless_iff rest level path
    exact Run.flawless_andThen.trans (and_congr hd hrest)
termination_by structural ds

end

variable (ν) in
theorem Declaration.completes_all {ds : List Declaration} {level : Nat}
    (h : Declaration.AllFit config resolver ds level) :
    (Declaration.runsIn config resolver ds level : Run ν).Completes :=
  ((Declaration.all_flawless_iff ds level []).2 h).1

variable (ν) in
theorem Directive.completes_all {ds : List Directive} {level : Nat} (h : Directive.AllFit config resolver ds level) :
    (Directive.runsIn config resolver ds level : Run ν).Completes :=
  ((Directive.all_flawless_iff ds level []).2 h).1

mutual

/-- **The facts of a declaration that fits** are those it declares. -/
theorem Declaration.facts_runIn (d : Declaration) (level : Nat) (h : d.Fits config resolver level) :
    Event.factsOf (d.runIn config resolver level : Run ν).1 = d.declared resolver := by
  match d, h with
  | .add c p, _ => rfl
  | .authorize directives, h => exact Directive.facts_runsIn directives level h
  | .within expr body, h =>
    obtain ⟨⟨segments, hexpr⟩, hl, hbody⟩ := h
    have hasked : ∀ body : Run ν, Event.askedAt config resolver level expr body =
        .ofScope config.maxDepth level segments body := fun body => by rw [Event.askedAt, hexpr]
    rw [Declaration.runIn, hasked, Declaration.declared, hexpr,
      Run.facts_ofScope hl (Declaration.completes_all ν hbody)]
    exact congrArg _ (Declaration.facts_runsIn body (level + 1) hbody)
termination_by structural d

theorem Declaration.facts_runsIn (ds : List Declaration) (level : Nat)
    (h : Declaration.AllFit config resolver ds level) :
    Event.factsOf (Declaration.runsIn config resolver ds level : Run ν).1 = Declaration.allDeclared resolver ds := by
  match ds, h with
  | [], _ => rfl
  | d :: rest, h =>
    obtain ⟨hd, hrest⟩ := h
    have hcompletes : (d.runIn config resolver level : Run ν).Completes := ((d.flawless_iff level []).2 hd).1
    rw [Declaration.runsIn, Run.facts_andThen hcompletes, Declaration.facts_runIn d level hd,
      Declaration.facts_runsIn rest level hrest, Declaration.allDeclared]
termination_by structural ds

/-- **The facts of a directive that fits** are those it declares. -/
theorem Directive.facts_runIn (d : Directive) (level : Nat) (h : d.Fits config resolver level) :
    Event.factsOf (d.runIn config resolver level : Run ν).1 = d.declared resolver := by
  match d, h with
  | .mk tag value, h =>
    obtain ⟨htag, hvalue⟩ := h
    obtain ⟨category?, hc⟩ := DispatchPolicy.classify_ok_iff.2 htag
    rw [Directive.runIn, hc, Directive.declared]
    exact Directive.Value.facts_runIn tag value level hvalue category? hc
termination_by structural d

theorem Directive.Value.facts_runIn (tag : String) (value : Directive.Value) (level : Nat)
    (h : Directive.Value.Fits config resolver tag value level) (category? : Option Category)
    (hc : config.dispatch.classify tag = .ok category?) :
    Event.factsOf (Directive.Value.runIn config resolver tag value category? level : Run ν).1 =
      Directive.Value.declared resolver tag value := by
  match value, category?, h with
  | .predicate p, some c, _ =>
    have hname := Category.ofName?_eq_some_iff.2 (DispatchPolicy.classify_eq_some_iff.1 hc)
    rw [Directive.Value.declared, hname]
    rfl
  | .predicate p, none, h => exact absurd h (DispatchPolicy.classify_eq_none_iff.1 hc).1
  | .nested directives, some c, h => exact absurd ⟨c, DispatchPolicy.classify_eq_some_iff.1 hc⟩ h.1
  | .nested directives, none, ⟨_, hl, hbody⟩ =>
    rw [Directive.Value.runIn, Directive.Value.declared, Run.facts_ofScope hl (Directive.completes_all ν hbody),
      Directive.facts_runsIn directives (level + 1) hbody]
  | .body declarations, some c, h => exact absurd ⟨c, DispatchPolicy.classify_eq_some_iff.1 hc⟩ h.1
  | .body declarations, none, ⟨_, hl, hbody⟩ =>
    rw [Directive.Value.runIn, Directive.Value.declared, Run.facts_ofScope hl (Declaration.completes_all ν hbody),
      Declaration.facts_runsIn declarations (level + 1) hbody]
termination_by structural value

theorem Directive.facts_runsIn (ds : List Directive) (level : Nat) (h : Directive.AllFit config resolver ds level) :
    Event.factsOf (Directive.runsIn config resolver ds level : Run ν).1 = Directive.allDeclared resolver ds := by
  match ds, h with
  | [], _ => rfl
  | d :: rest, h =>
    obtain ⟨hd, hrest⟩ := h
    have hcompletes : (d.runIn config resolver level : Run ν).Completes := ((d.flawless_iff level []).2 hd).1
    rw [Directive.runsIn, Run.facts_andThen hcompletes, Directive.facts_runIn d level hd,
      Directive.facts_runsIn rest level hrest, Directive.allDeclared]
termination_by structural ds

end

/-! ## Compilations of data -/

namespace Data

theorem flawless_iff (d : Data) (level : Nat) (path : Path) :
    (d.runIn config resolver level : Run ν).Flawless path ↔ d.FitsAt config resolver level := by
  cases d with
  | declaration d => exact d.flawless_iff level path
  | declarations ds => exact Declaration.all_flawless_iff ds level path
  | directives ds => exact Directive.all_flawless_iff ds level path

theorem facts_runIn {d : Data} {level : Nat} (h : d.FitsAt config resolver level) :
    Event.factsOf (d.runIn config resolver level : Run ν).1 = d.declared resolver := by
  cases d with
  | declaration d => exact d.facts_runIn level h
  | declarations ds => exact Declaration.facts_runsIn ds level h
  | directives ds => exact Directive.facts_runsIn ds level h

/-- Nothing is reported when data is compiled exactly if it fits. -/
theorem failures_trace_iff (d : Data) :
    ((d.body : Body ν).trace config resolver).failures [] = [] ↔ d.Fits config resolver := by
  have hscope : (Run.ofEvent ((d.body : Body ν).trace config resolver)).Flawless [] ↔ d.Fits config resolver := by
    rw [trace_compile, Run.flawless_ofScope, flawless_iff]
    rfl
  rw [← hscope, ← Event.failuresOf_singleton]
  exact (and_iff_right rfl).symm

theorem facts_trace {d : Data} (h : d.Fits config resolver) :
    ((d.body : Body ν).trace config resolver).facts = d.declared resolver := by
  have hcompletes : (d.runIn config resolver 1 : Run ν).Completes := ((d.flawless_iff 1 []).2 h.2).1
  have hscope : Event.factsOf (Run.ofEvent (.ofScope config.maxDepth 0 [] (d.runIn config resolver 1 : Run ν))).1 =
      (Event.factsOf (d.runIn config resolver 1 : Run ν).1).map (Fact.below []) := Run.facts_ofScope h.1 hcompletes
  have hbelow : Fact.below [] = id := rfl
  rw [← trace_compile, facts_runIn h.2, hbelow, List.map_id] at hscope
  exact (Event.factsOf_singleton _).symm.trans hscope

end Data

end

/-- **Data compiles completely exactly if it fits** in all of its parts, at every depth. Then the tree holds what the
data declares, and nothing else. -/
theorem complete_iff_fits {ν : Type} {config : Config} {resolver : Resolver} {c : Compiler ν}
    (hc : c.Reached config resolver) (d : Data) :
    ((c.compile d.body).1.isComplete = true ↔ d.Fits config resolver) ∧
      ((c.compile d.body).1.isComplete = true → ∀ q k p, (c.compile d.body).1.tree.Holds q k p ↔
        ∃ f ∈ d.declared resolver, f.path.same q = true ∧ f.category = k ∧ f.predicate = p) := by
  have hfits : (c.compile d.body).1.isComplete = true ↔ d.Fits config resolver := by
    rw [hc.compile_trace, Compilation.isComplete, List.isEmpty_iff]
    exact d.failures_trace_iff
  refine ⟨hfits, fun hcomplete q k p => ?_⟩
  rw [hc.compile_trace, ← Data.facts_trace (ν := ν) (hfits.1 hcomplete)]
  exact RuleTree.holds_ofFacts _ q

/-- Data that is nested as deep as may be, and the same with an entry behind a misfit. -/
theorem complete_iff_fits_of_nested_data :
    let config : Config := { dispatch := .strict, maxDepth := 3 }
    let d : Data := .directives [.mk "read" (.predicate ⟨"p"⟩), .mk "$id" (.body [.within "a" [.add .write ⟨"q"⟩]])]
    let d' : Data := .declarations [.authorize [.mk "Read" (.nested []), .mk "b" (.nested [])]]
    let facts : List Fact := [⟨[], .read, ⟨"p"⟩⟩, ⟨[.capture "id", .literal "a"], .write, ⟨"q"⟩⟩]
    let c : Compiler Unit := { config }
    c.Reached config .slash ∧ d.Fits config .slash ∧ (c.compile d.body).1.isComplete = true ∧
      (∀ q k p, (c.compile d.body).1.tree.Holds q k p ↔
        ∃ f ∈ facts, f.path.same q = true ∧ f.category = k ∧ f.predicate = p) ∧
      (c.compile d'.body).1.isComplete = false ∧ ¬ d'.Fits config .slash := by
  intro config d d' facts c
  have hc : c.Reached config .slash := .fresh
  have hread : NamesCategory "read" := ⟨.read, rfl⟩
  have htag : ¬ NamesCategory "$id" ∧ (config.dispatch = .strict → ¬ NearlyNamesCategory "$id") :=
    DispatchPolicy.classify_eq_none_iff.1 (by decide)
  have hwithin : Declaration.Fits config .slash (.within "a" [.add .write ⟨"q"⟩]) 2 :=
    ⟨⟨[.literal "a"], rfl⟩, by decide, trivial, trivial⟩
  have hfits : d.Fits config .slash :=
    ⟨by decide, ⟨fun _ hnear => hnear.1 hread, hread⟩, ⟨htag.2, htag.1, by decide, hwithin, trivial⟩, trivial⟩
  obtain ⟨hiff, hfacts⟩ := complete_iff_fits hc d
  obtain ⟨hiff', -⟩ := complete_iff_fits hc d'
  have hincomplete : (c.compile d'.body).1.isComplete = false := by decide
  exact ⟨hc, hfits, hiff.2 hfits, hfacts (hiff.2 hfits), hincomplete, fun h => by simp [hiff'.2 h] at hincomplete⟩

end AccessRules
