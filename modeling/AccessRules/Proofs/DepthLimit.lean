import AccessRules.Proofs.Agreement

/-!
# What the depth limit does

Data looks at nothing, so a scope that is too deep changes nothing around it: the scope that asked for it goes on, and
ends as it would have ended anyway. Two comparisons of runs follow by recursion on the data.

* Under a limit, data does what it does under the next higher one if every scope one level too deep is emptied
  (`Data.cut`), but for these scopes being reported (`Data.cutTo`). Here the level of the root is 1, and what is reported
  is told by the ends of all scopes in their order (`Event.endings`).
* Under a higher limit no fact is lost, and limits that are as high as scopes are nested make no difference
  (`Data.grows`).

Both are brought together for compilations in `compile_limited`.
-/

namespace AccessRules

/-! ## The ends of scopes -/

/-- How a scope ended that was asked for: its absolute path and its level, or those of the scope around it where its own
path could not be resolved. -/
structure Ending where
  path : Path
  level : Nat
  outcome : Outcome

namespace Ending

/-- What is reported of a scope that ended. -/
def diagnostic? (x : Ending) : Option Diagnostic :=
  match x.outcome with
  | .ok _ => none
  | .error error => some ⟨x.path, error⟩

/-- What is reported of it under a limit that refuses it if it is one level too deep. -/
def diagnosticUnder? (limit : Nat) (x : Ending) : Option Diagnostic :=
  if x.level = limit + 1 then some ⟨x.path, .depthExceeded limit⟩ else x.diagnostic?

theorem diagnosticUnder?_of_le {limit : Nat} {x : Ending} (h : x.level ≤ limit) :
    x.diagnosticUnder? limit = x.diagnostic? :=
  if_neg (by omega)

end Ending

namespace Event

variable {ν : Type}

mutual

/-- The ends of the scopes of an event that happens in the scope at a path and level: those inside a scope come before
its own. -/
def endings (path : Path) (level : Nat) : Event ν → List Ending
  | unresolved error => [⟨path, level, .error (.resolve error)⟩]
  | refused segments limit => [⟨path ++ segments, level + 1, .error (.depthExceeded limit)⟩]
  | scope segments events outcome =>
    endingsOf (path ++ segments) (level + 1) events ++ [⟨path ++ segments, level + 1, outcome⟩]
  | _ => []

def endingsOf (path : Path) (level : Nat) : List (Event ν) → List Ending
  | [] => []
  | e :: rest => e.endings path level ++ endingsOf path level rest

end

theorem endingsOf_append (path : Path) (level : Nat) (es es' : List (Event ν)) :
    endingsOf path level (es ++ es') = endingsOf path level es ++ endingsOf path level es' := by
  induction es with
  | nil => rfl
  | cons e rest ih => rw [List.cons_append, endingsOf, endingsOf, ih, List.append_assoc]

theorem endingsOf_singleton (path : Path) (level : Nat) (e : Event ν) :
    endingsOf path level [e] = e.endings path level := by
  rw [endingsOf, endingsOf, List.append_nil]

mutual

/-- **The diagnostics of an event** are what is reported of the scopes that ended. -/
theorem failures_eq_endings (path : Path) (level : Nat) (e : Event ν) :
    e.failures path = (e.endings path level).filterMap Ending.diagnostic? := by
  match e with
  | added c p | noted n | unresolved error | refused segments limit => rfl
  | scope segments events outcome =>
    have hevents := failuresOf_eq_endings (path ++ segments) (level + 1) events
    rw [endings, List.filterMap_append, ← hevents]
    cases outcome with
    | error error => rfl
    | ok => exact (List.append_nil _).symm
termination_by structural e

theorem failuresOf_eq_endings (path : Path) (level : Nat) (es : List (Event ν)) :
    failuresOf path es = (endingsOf path level es).filterMap Ending.diagnostic? := by
  match es with
  | [] => rfl
  | e :: rest =>
    rw [failuresOf, endingsOf, List.filterMap_append, failures_eq_endings path level e,
      failuresOf_eq_endings path level rest]
termination_by structural es

end

end Event

/-! ## Cutting data -/

section

variable (policy : DispatchPolicy) (limit : Nat)

mutual

/-- A declaration in a scope at a level, the scopes in it that are too deep being emptied. -/
def Declaration.cut : Declaration → Nat → Declaration
  | .add c p, _ => .add c p
  | .authorize directives, level => .authorize (Directive.cutAll directives level)
  | .within expr body, level => .within expr (if level < limit then Declaration.cutAll body (level + 1) else [])

def Declaration.cutAll : List Declaration → Nat → List Declaration
  | [], _ => []
  | d :: rest, level => Declaration.cut d level :: Declaration.cutAll rest level

/-- What stands under a tag that is no step down is not the body of a scope. -/
def Directive.cut : Directive → Nat → Directive
  | .mk tag value, level =>
    match policy.classify tag with
    | .ok none => .mk tag (Directive.Value.cut value level)
    | _ => .mk tag value

def Directive.Value.cut : Directive.Value → Nat → Directive.Value
  | .predicate p, _ => .predicate p
  | .nested directives, level => .nested (if level < limit then Directive.cutAll directives (level + 1) else [])
  | .body declarations, level => .body (if level < limit then Declaration.cutAll declarations (level + 1) else [])

def Directive.cutAll : List Directive → Nat → List Directive
  | [], _ => []
  | d :: rest, level => Directive.cut d level :: Directive.cutAll rest level

end

/-- Data as the body of the root, which is at level 1, every scope at the level behind the limit being emptied. -/
def Data.cut (d : Data) : Data :=
  if 0 < limit then
    match d with
    | .declaration d => .declaration (d.cut policy limit 1)
    | .declarations ds => .declarations (Declaration.cutAll policy limit ds 1)
    | .directives ds => .directives (Directive.cutAll policy limit ds 1)
  else .declarations []

end

section

variable (policy : DispatchPolicy)

mutual

/-- How deep the scopes of a declaration are nested. -/
def Declaration.nesting : Declaration → Nat
  | .add _ _ => 0
  | .authorize directives => Directive.nestingOf directives
  | .within _ body => Declaration.nestingOf body + 1

def Declaration.nestingOf : List Declaration → Nat
  | [] => 0
  | d :: rest => max (Declaration.nesting d) (Declaration.nestingOf rest)

/-- How deep the scopes of a directive are nested. -/
def Directive.nesting : Directive → Nat
  | .mk tag value =>
    match policy.classify tag with
    | .ok none => Directive.Value.nesting value
    | _ => 0

def Directive.Value.nesting : Directive.Value → Nat
  | .predicate _ => 0
  | .nested directives => Directive.nestingOf directives + 1
  | .body declarations => Declaration.nestingOf declarations + 1

def Directive.nestingOf : List Directive → Nat
  | [] => 0
  | d :: rest => max (Directive.nesting d) (Directive.nestingOf rest)

end

/-- How deep scopes are nested when data is compiled, the root included. -/
def Data.nesting : Data → Nat
  | .declaration d => 1 + d.nesting policy
  | .declarations ds => 1 + Declaration.nestingOf policy ds
  | .directives ds => 1 + Directive.nestingOf policy ds

theorem Data.nesting_pos (d : Data) : 0 < d.nesting policy := by
  cases d <;> exact Nat.add_pos_left Nat.one_pos _

end

/-! ## Runs under a limit, and cut -/

namespace Run

variable {ν : Type}

/-- A run in a scope at a level under a limit, and that of cut data under the next higher limit: both end in the same way
with the same facts, and what is reported differs in the scopes behind the limit, which are refused in the first run and
complete in the second. -/
structure CutTo (limit level : Nat) (r r' : Run ν) : Prop where
  outcome : r.2 = r'.2
  facts : Event.factsOf r.1 = Event.factsOf r'.1
  failures : ∀ path,
    Event.failuresOf path r.1 = (Event.endingsOf path level r'.1).filterMap (Ending.diagnosticUnder? limit)
  deepest : ∀ path, ∀ x ∈ Event.endingsOf path level r'.1, x.level = limit + 1 → x.outcome = .ok ()

namespace CutTo

variable {limit level : Nat} {a a' b b' : Run ν}

/-- No scope is asked for. -/
theorem of_no_endings {r : Run ν} (h : ∀ path, Event.endingsOf path level r.1 = []) : CutTo limit level r r where
  outcome := rfl
  facts := rfl
  failures path := by rw [Event.failuresOf_eq_endings path level, h]; rfl
  deepest path x hx := by
    rw [h] at hx
    cases hx

theorem idle : CutTo limit level (idle : Run ν) .idle := of_no_endings fun _ => rfl

theorem fails (error : CompileError) : CutTo limit level (fails error : Run ν) (.fails error) :=
  of_no_endings fun _ => rfl

theorem added (c : Category) (p : Predicate) : CutTo limit level (ofEvent (.added c p) : Run ν) (ofEvent (.added c p)) :=
  of_no_endings fun _ => rfl

theorem andThen (ha : CutTo limit level a a') (hb : CutTo limit level b b') :
    CutTo limit level (a.andThen b) (a'.andThen b') := by
  obtain ⟨events, outcome⟩ := a
  obtain ⟨events', outcome'⟩ := a'
  obtain rfl : outcome = outcome' := ha.outcome
  cases outcome with
  | error error => exact ha
  | ok =>
    refine ⟨hb.outcome, ?_, fun path => ?_, fun path x hx => ?_⟩
    · simp only [Run.andThen, Event.factsOf_append]
      rw [ha.facts, hb.facts]
    · simp only [Run.andThen, Event.failuresOf_append, Event.endingsOf_append, List.filterMap_append]
      rw [ha.failures, hb.failures]
    · simp only [Run.andThen, Event.endingsOf_append, List.mem_append] at hx
      exact hx.elim (ha.deepest path x) (hb.deepest path x)

/-- A scope that is not resolved is reported for the one around it, which is open under both limits. -/
theorem unresolved (hlevel : level ≤ limit) (error : ResolveError) :
    CutTo limit level (ofEvent (.unresolved error) : Run ν) (ofEvent (.unresolved error)) := by
  refine ⟨rfl, rfl, fun path => ?_, fun path x hx hx' => ?_⟩
  · have hunder : Ending.diagnosticUnder? limit ⟨path, level, .error (.resolve error)⟩ = some ⟨path, .resolve error⟩ :=
      Ending.diagnosticUnder?_of_le hlevel
    simp [ofEvent, Event.failures, Event.endingsOf, Event.endings, hunder]
  · obtain rfl : x = ⟨path, level, .error (.resolve error)⟩ := List.mem_singleton.1 hx
    simp only at hx'
    omega

/-- A scope that may be opened under both limits. -/
theorem scope (hlevel : level < limit) (segments : Path) (h : CutTo limit (level + 1) b b') :
    CutTo limit level (ofEvent (.scope segments b.1 b.2)) (ofEvent (.scope segments b'.1 b'.2)) := by
  obtain ⟨events, outcome⟩ := b
  obtain ⟨events', outcome'⟩ := b'
  obtain rfl : outcome = outcome' := h.outcome
  have hfacts : Event.factsOf events = Event.factsOf events' := h.facts
  refine ⟨rfl, ?_, fun path => ?_, fun path x hx hx' => ?_⟩
  · cases outcome with
    | error error => rfl
    | ok => simp only [ofEvent, Event.factsOf_singleton, Event.facts, hfacts]
  · have hfailures := h.failures (path ++ segments)
    have hunder := Ending.diagnosticUnder?_of_le (x := ⟨path ++ segments, level + 1, outcome⟩) hlevel
    simp only [ofEvent, Event.failuresOf_singleton, Event.endingsOf_singleton, Event.endings, List.filterMap_append,
      List.filterMap_cons, List.filterMap_nil, ← hfailures, hunder]
    cases outcome with
    | error error => rfl
    | ok => exact (List.append_nil _).symm
  · simp only [ofEvent, Event.endingsOf_singleton, Event.endings, List.mem_append, List.mem_singleton] at hx
    rcases hx with hx | rfl
    · exact h.deepest _ x hx hx'
    · simp only at hx'
      omega

/-- A scope just behind the limit, and emptied. -/
theorem refused (segments : Path) :
    CutTo limit limit (ofEvent (.refused segments limit) : Run ν) (ofEvent (.scope segments [] (.ok ()))) := by
  refine ⟨rfl, rfl, fun path => ?_, fun path x hx _ => ?_⟩
  · have hunder : Ending.diagnosticUnder? limit ⟨path ++ segments, limit + 1, .ok ()⟩ =
        some ⟨path ++ segments, .depthExceeded limit⟩ := if_pos rfl
    simp [ofEvent, Event.failures, Event.endingsOf, Event.endings, hunder]
  · rw [List.mem_singleton.1 hx]

/-- A scope that is emptied just behind the limit. -/
theorem ofScope (hlevel : level ≤ limit) (segments : Path) (hopened : level < limit → CutTo limit (level + 1) b b')
    (hemptied : ¬ level < limit → b' = .idle) :
    CutTo limit level (ofEvent (.ofScope limit level segments b)) (ofEvent (.ofScope (limit + 1) level segments b')) := by
  unfold Event.ofScope
  -- The higher limit opens the scope in any case.
  rw [if_neg (show ¬ limit + 1 ≤ level by omega)]
  by_cases hl : level < limit
  · rw [if_neg (by omega)]
    exact (hopened hl).scope hl segments
  · obtain rfl : level = limit := by omega
    rw [if_pos (by omega), hemptied hl]
    exact refused segments

/-- The same where the body is a list. -/
theorem ofScope_list {α : Type} (run : List α → Run ν) (hnil : run [] = .idle) (hlevel : level ≤ limit)
    (segments : Path) {entries : List α} (h : level < limit → CutTo limit (level + 1) b (run entries)) :
    CutTo limit level (ofEvent (.ofScope limit level segments b))
      (ofEvent (.ofScope (limit + 1) level segments (run (if level < limit then entries else [])))) :=
  ofScope hlevel segments (fun hl => by rw [if_pos hl]; exact h hl) fun hl => by rw [if_neg hl, hnil]

end CutTo

/-! ## Runs under a higher limit -/

/-- A run, and that under a higher limit: it ends in the same way, no fact is lost, and if the lower limit is enough there
is no difference. -/
structure Grows (enough : Prop) (r r' : Run ν) : Prop where
  outcome : r.2 = r'.2
  facts : (Event.factsOf r.1).Sublist (Event.factsOf r'.1)
  same : enough → r = r'

namespace Grows

variable {enough enough' : Prop} {a a' b b' : Run ν}

theorem refl (enough : Prop) (r : Run ν) : Grows enough r r := ⟨rfl, .refl _, fun _ => rfl⟩

theorem mono (h : Grows enough a a') (himp : enough' → enough) : Grows enough' a a' :=
  ⟨h.outcome, h.facts, fun h' => h.same (himp h')⟩

theorem andThen (ha : Grows enough a a') (hb : Grows enough b b') : Grows enough (a.andThen b) (a'.andThen b') := by
  have hsame : enough → a.andThen b = a'.andThen b' := fun h => by rw [ha.same h, hb.same h]
  obtain ⟨events, outcome⟩ := a
  obtain ⟨events', outcome'⟩ := a'
  obtain rfl : outcome = outcome' := ha.outcome
  cases outcome with
  | error error => exact ⟨rfl, ha.facts, hsame⟩
  | ok =>
    refine ⟨hb.outcome, ?_, hsame⟩
    simp only [Run.andThen, Event.factsOf_append]
    exact ha.facts.append hb.facts

theorem ofScope {limit limit' : Nat} (hlimit : limit ≤ limit') (level : Nat) (segments : Path) (h : Grows enough b b') :
    Grows (level + 1 ≤ limit ∧ enough) (ofEvent (.ofScope limit level segments b))
      (ofEvent (.ofScope limit' level segments b')) := by
  unfold Event.ofScope
  by_cases hl : limit ≤ level
  · rw [if_pos hl]
    exact ⟨rfl, List.nil_sublist _, fun h => by omega⟩
  · rw [if_neg hl, if_neg (by omega)]
    refine ⟨rfl, ?_, fun henough => by rw [h.same henough.2]⟩
    obtain ⟨events, outcome⟩ := b
    obtain ⟨events', outcome'⟩ := b'
    obtain rfl : outcome = outcome' := h.outcome
    cases outcome with
    | error error => exact .refl _
    | ok =>
      simp only [ofEvent, Event.factsOf_singleton, Event.facts]
      exact h.facts.map _

end Grows

end Run

section

variable {ν : Type} {policy : DispatchPolicy} {limit limit' : Nat} {resolver : Resolver}

/-! ## Cut data -/

/-- Under the name of a category no scope is asked for. -/
theorem Directive.Value.cutTo_of_category (tag : String) (value : Directive.Value) (c : Category) (level : Nat) :
    Run.CutTo limit level (Directive.Value.runIn ⟨policy, limit⟩ resolver tag value (some c) level : Run ν)
      (Directive.Value.runIn ⟨policy, limit + 1⟩ resolver tag value (some c) level) := by
  cases value with
  | predicate p => exact .added c p
  | nested directives => exact .fails (.expectedPredicate tag)
  | body declarations => exact .fails (.expectedPredicate tag)

mutual

/-- **A declaration under a limit**, and cut under the next higher one. -/
theorem Declaration.cutTo (d : Declaration) {level : Nat} (hlevel : level ≤ limit) :
    Run.CutTo limit level (d.runIn ⟨policy, limit⟩ resolver level : Run ν)
      ((d.cut policy limit level).runIn ⟨policy, limit + 1⟩ resolver level) := by
  match d with
  | .add c p => exact .added c p
  | .authorize directives => exact Directive.all_cutTo directives hlevel
  | .within expr body =>
    simp only [Declaration.cut, Declaration.runIn, Event.askedAt]
    cases resolver expr with
    | error error => exact .unresolved hlevel error
    | ok segments =>
      exact .ofScope_list (Declaration.runsIn _ resolver · (level + 1)) rfl hlevel segments (Declaration.all_cutTo body)
termination_by structural d

theorem Declaration.all_cutTo (ds : List Declaration) {level : Nat} (hlevel : level ≤ limit) :
    Run.CutTo limit level (Declaration.runsIn ⟨policy, limit⟩ resolver ds level : Run ν)
      (Declaration.runsIn ⟨policy, limit + 1⟩ resolver (Declaration.cutAll policy limit ds level) level) := by
  match ds with
  | [] => exact .idle
  | d :: rest => exact (Declaration.cutTo d hlevel).andThen (Declaration.all_cutTo rest hlevel)
termination_by structural ds

/-- **A directive under a limit**, and cut under the next higher one. -/
theorem Directive.cutTo (d : Directive) {level : Nat} (hlevel : level ≤ limit) :
    Run.CutTo limit level (d.runIn ⟨policy, limit⟩ resolver level : Run ν)
      ((d.cut policy limit level).runIn ⟨policy, limit + 1⟩ resolver level) := by
  match d with
  | .mk tag value =>
    have hvalue := Directive.Value.cutTo tag value hlevel
    rcases hc : policy.classify tag with error | _ | c
    all_goals simp only [Directive.cut, hc, Directive.runIn]
    · exact .fails error
    · exact hvalue
    · exact Directive.Value.cutTo_of_category tag value c level
termination_by structural d

theorem Directive.Value.cutTo (tag : String) (value : Directive.Value) {level : Nat} (hlevel : level ≤ limit) :
    Run.CutTo limit level (Directive.Value.runIn ⟨policy, limit⟩ resolver tag value none level : Run ν)
      (Directive.Value.runIn ⟨policy, limit + 1⟩ resolver tag (value.cut policy limit level) none level) := by
  match value with
  | .predicate p => exact .fails (.expectedBody tag)
  | .nested directives =>
    exact .ofScope_list (Directive.runsIn _ resolver · (level + 1)) rfl hlevel [.ofTag tag] (Directive.all_cutTo directives)
  | .body declarations =>
    exact .ofScope_list (Declaration.runsIn _ resolver · (level + 1)) rfl hlevel [.ofTag tag]
      (Declaration.all_cutTo declarations)
termination_by structural value

theorem Directive.all_cutTo (ds : List Directive) {level : Nat} (hlevel : level ≤ limit) :
    Run.CutTo limit level (Directive.runsIn ⟨policy, limit⟩ resolver ds level : Run ν)
      (Directive.runsIn ⟨policy, limit + 1⟩ resolver (Directive.cutAll policy limit ds level) level) := by
  match ds with
  | [] => exact .idle
  | d :: rest => exact (Directive.cutTo d hlevel).andThen (Directive.all_cutTo rest hlevel)
termination_by structural ds

end

/-- **Data under a limit** is compiled as it is, cut, under the next higher one. -/
theorem Data.cutTo (policy : DispatchPolicy) (limit : Nat) (resolver : Resolver) (d : Data) :
    Run.CutTo limit 0 (.ofEvent ((d.body : Body ν).trace ⟨policy, limit⟩ resolver))
      (.ofEvent ((d.cut policy limit).body.trace ⟨policy, limit + 1⟩ resolver)) := by
  rw [Data.trace_compile, Data.trace_compile]
  refine .ofScope (Nat.zero_le limit) [] (fun hl => ?_) fun hl => ?_
  · unfold Data.cut
    rw [if_pos hl]
    cases d with
    | declaration d => exact d.cutTo hl
    | declarations ds => exact Declaration.all_cutTo ds hl
    | directives ds => exact Directive.all_cutTo ds hl
  · -- Under the limit 0 the root is the scope that is too deep.
    unfold Data.cut
    rw [if_neg hl]
    rfl

/-! ## Data under a higher limit -/

mutual

/-- **A declaration under a higher limit.** -/
theorem Declaration.grows (hlimit : limit ≤ limit') (d : Declaration) (level : Nat) :
    Run.Grows (level + d.nesting policy ≤ limit) (d.runIn ⟨policy, limit⟩ resolver level : Run ν)
      (d.runIn ⟨policy, limit'⟩ resolver level) := by
  match d with
  | .add c p => exact .refl _ _
  | .authorize directives => exact Directive.all_grow hlimit directives level
  | .within expr body =>
    have hbody := Declaration.all_grow hlimit body (level + 1)
    simp only [Declaration.runIn, Event.askedAt, Declaration.nesting]
    cases resolver expr with
    | error error => exact .refl _ _
    | ok segments => exact (hbody.ofScope hlimit level segments).mono fun h => by omega
termination_by structural d

theorem Declaration.all_grow (hlimit : limit ≤ limit') (ds : List Declaration) (level : Nat) :
    Run.Grows (level + Declaration.nestingOf policy ds ≤ limit)
      (Declaration.runsIn ⟨policy, limit⟩ resolver ds level : Run ν)
      (Declaration.runsIn ⟨policy, limit'⟩ resolver ds level) := by
  match ds with
  | [] => exact .refl _ _
  | d :: rest =>
    have hd := Declaration.grows hlimit d level
    have hrest := Declaration.all_grow hlimit rest level
    simp only [Declaration.nestingOf]
    exact (hd.mono fun h => by omega).andThen (hrest.mono fun h => by omega)
termination_by structural ds

/-- **A directive under a higher limit.** -/
theorem Directive.grows (hlimit : limit ≤ limit') (d : Directive) (level : Nat) :
    Run.Grows (level + d.nesting policy ≤ limit) (d.runIn ⟨policy, limit⟩ resolver level : Run ν)
      (d.runIn ⟨policy, limit'⟩ resolver level) := by
  match d with
  | .mk tag value =>
    have hvalue := Directive.Value.grows hlimit tag value level
    -- Only under a step down scopes are opened, and only there is the nesting counted.
    rcases hc : policy.classify tag with error | _ | c
    all_goals simp only [Directive.runIn, Directive.nesting, hc]
    · exact .refl _ _
    · exact hvalue
    · cases value <;> exact .refl _ _
termination_by structural d

theorem Directive.Value.grows (hlimit : limit ≤ limit') (tag : String) (value : Directive.Value) (level : Nat) :
    Run.Grows (level + value.nesting policy ≤ limit)
      (Directive.Value.runIn ⟨policy, limit⟩ resolver tag value none level : Run ν)
      (Directive.Value.runIn ⟨policy, limit'⟩ resolver tag value none level) := by
  match value with
  | .predicate p => exact .refl _ _
  | .nested directives =>
    have hbody := Directive.all_grow hlimit directives (level + 1)
    exact (hbody.ofScope hlimit level [.ofTag tag]).mono fun h => by
      simp only [Directive.Value.nesting] at h
      omega
  | .body declarations =>
    have hbody := Declaration.all_grow hlimit declarations (level + 1)
    exact (hbody.ofScope hlimit level [.ofTag tag]).mono fun h => by
      simp only [Directive.Value.nesting] at h
      omega
termination_by structural value

theorem Directive.all_grow (hlimit : limit ≤ limit') (ds : List Directive) (level : Nat) :
    Run.Grows (level + Directive.nestingOf policy ds ≤ limit)
      (Directive.runsIn ⟨policy, limit⟩ resolver ds level : Run ν)
      (Directive.runsIn ⟨policy, limit'⟩ resolver ds level) := by
  match ds with
  | [] => exact .refl _ _
  | d :: rest =>
    have hd := Directive.grows hlimit d level
    have hrest := Directive.all_grow hlimit rest level
    simp only [Directive.nestingOf]
    exact (hd.mono fun h => by omega).andThen (hrest.mono fun h => by omega)
termination_by structural ds

end

/-- **Data under a higher limit** loses no fact, and limits that are high enough are all the same. -/
theorem Data.grows (policy : DispatchPolicy) (resolver : Resolver) (hlimit : limit ≤ limit') (d : Data) :
    Run.Grows (d.nesting policy ≤ limit) (.ofEvent ((d.body : Body ν).trace ⟨policy, limit⟩ resolver))
      (.ofEvent (d.body.trace ⟨policy, limit'⟩ resolver)) := by
  have hrun : Run.Grows (d.nesting policy ≤ limit) (d.runIn ⟨policy, limit⟩ resolver 1 : Run ν)
      (d.runIn ⟨policy, limit'⟩ resolver 1) := by
    cases d with
    | declaration d => exact d.grows hlimit 1
    | declarations ds => exact Declaration.all_grow hlimit ds 1
    | directives ds => exact Directive.all_grow hlimit ds 1
  have hpos := d.nesting_pos policy
  rw [Data.trace_compile, Data.trace_compile]
  exact (hrun.ofScope hlimit 0 []).mono fun h => ⟨by omega, h⟩

/-- Limits that are as high as scopes are nested. -/
theorem Data.trace_eq_of_nesting (resolver : Resolver) {d : Data} (h : d.nesting policy ≤ limit)
    (h' : d.nesting policy ≤ limit') :
    (d.body : Body ν).trace ⟨policy, limit⟩ resolver = d.body.trace ⟨policy, limit'⟩ resolver := by
  rcases Nat.le_total limit limit' with hle | hle
  · have hruns := (d.grows (ν := ν) policy resolver hle).same h
    simpa [Run.ofEvent] using hruns
  · have hruns := (d.grows (ν := ν) policy resolver hle).same h'
    simpa [Run.ofEvent] using hruns.symm

end

/-! ## Compilations under a limit -/

/-- **The depth limit.** Compiled under a limit, data gives the tree that it gives under the next higher one if every
scope one level too deep is emptied. These scopes complete then; the diagnostics are the same but for one more for each
of them, at its path and in its place: that the limit is exceeded. So a higher limit loses no fact of the tree, and
limits that are as high as scopes are nested give the same. -/
theorem compile_limited {ν : Type} {policy : DispatchPolicy} {limit : Nat} {resolver : Resolver} {low high : Compiler ν}
    (hlow : low.Reached ⟨policy, limit⟩ resolver) (hhigh : high.Reached ⟨policy, limit + 1⟩ resolver) (d : Data) :
    let cut := d.cut policy limit
    let ends := ((cut.body : Body ν).trace ⟨policy, limit + 1⟩ resolver).endings [] 0
    ((low.compile d.body).1.tree = (high.compile cut.body).1.tree ∧
      (∀ x ∈ ends, x.level = limit + 1 → x.outcome = .ok ()) ∧
      (high.compile cut.body).1.diagnostics = ends.filterMap Ending.diagnostic? ∧
      (low.compile d.body).1.diagnostics = ends.filterMap (Ending.diagnosticUnder? limit)) ∧
    ∀ (limit' : Nat) (other : Compiler ν), other.Reached ⟨policy, limit'⟩ resolver →
      (limit ≤ limit' →
        ∀ q k p, (low.compile d.body).1.tree.Holds q k p → (other.compile d.body).1.tree.Holds q k p) ∧
      (d.nesting policy ≤ limit → d.nesting policy ≤ limit' →
        (low.compile d.body).1 = (other.compile d.body).1) := by
  intro cut ends
  refine ⟨?_, fun limit' other hother => ⟨fun hlimit q k p => ?_, fun hnesting hnesting' => ?_⟩⟩
  · have hcut := d.cutTo (ν := ν) policy limit resolver
    have hfacts := hcut.facts
    have hfailures := hcut.failures []
    have hdeepest := hcut.deepest []
    simp only [Run.ofEvent, Event.factsOf_singleton, Event.failuresOf_singleton, Event.endingsOf_singleton]
      at hfacts hfailures hdeepest
    rw [hlow.compile_trace, hhigh.compile_trace]
    exact ⟨congrArg RuleTree.ofFacts hfacts, hdeepest, Event.failures_eq_endings [] 0 _, hfailures⟩
  · have hgrows := d.grows (ν := ν) policy resolver hlimit
    have hfacts := hgrows.facts
    simp only [Run.ofEvent, Event.factsOf_singleton] at hfacts
    rw [hlow.compile_trace, hother.compile_trace, RuleTree.holds_ofFacts, RuleTree.holds_ofFacts]
    rintro ⟨f, hf, hsays⟩
    exact ⟨f, hfacts.subset hf, hsays⟩
  · rw [hlow.compile_trace, hother.compile_trace, Data.trace_eq_of_nesting resolver hnesting hnesting']

/-- A scope that is too deep by one level, and then one that is not resolved and one that fails; and the same data under
limits that are high enough. -/
theorem compile_limited_of_deep_scope :
    let resolver : Resolver := fun expr => if expr = "" then .error ⟨"empty", none⟩ else .ok [.literal expr]
    let deep : Declaration := .within "b" [.authorize [.mk "Read" (.nested [])]]
    let d : Data := .declarations [.within "a" [.add .read ⟨"p"⟩, deep, .within "" [], .add .create ⟨"q"⟩],
      .authorize [.mk "$id" (.nested [.mk "write" (.nested [])])]]
    let under (limit : Nat) : Compiler Unit := { config := ⟨.strict, limit⟩, resolver }
    let reported : List Diagnostic :=
      [⟨[.literal "a"], .resolve ⟨"empty", none⟩⟩, ⟨[.capture "id"], .expectedPredicate "write"⟩]
    (∀ limit, (under limit).Reached ⟨.strict, limit⟩ resolver) ∧
      ((under 2).compile d.body).1.tree = ((under 3).compile (d.cut .strict 2).body).1.tree ∧
      ((under 3).compile (d.cut .strict 2).body).1.diagnostics = reported ∧
      ((under 2).compile d.body).1.diagnostics = ⟨[.literal "a", .literal "b"], .depthExceeded 2⟩ :: reported ∧
      (∀ q k p, ((under 2).compile d.body).1.tree.Holds q k p → ((under 3).compile d.body).1.tree.Holds q k p) ∧
      d.nesting .strict ≤ 3 ∧ ((under 3).compile d.body).1 = ((under 64).compile d.body).1 := by
  intro resolver deep d under reported
  have hreached (limit : Nat) : (under limit).Reached ⟨.strict, limit⟩ resolver := .fresh
  have hnesting : d.nesting .strict ≤ 3 := by decide
  obtain ⟨⟨htree, -, hhigh, hlow⟩, hraised⟩ := compile_limited (hreached 2) (hreached 3) d
  obtain ⟨-, henough⟩ := compile_limited (hreached 3) (hreached 4) d
  exact ⟨hreached, htree, hhigh.trans (by decide), hlow.trans (by decide),
    (hraised 3 (under 3) (hreached 3)).1 (by decide), hnesting,
    (henough 64 (under 64) (hreached 64)).2 hnesting (by omega)⟩

end AccessRules
