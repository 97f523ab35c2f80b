import AccessRules.Proofs.Trace

/-!
# What declarations and directives do

Data looks at nothing: what a declaration or a directive does depends on how many scopes are open where it stands, and
on nothing that was done before it. So it has a run of its own (`Declaration.runIn`, `Directive.runIn`). A list of them
runs its entries one after the other up to the first one that fails (`Run.sequence`), and a script that starts with data
starts with the run of the data, whatever it goes on with (`Declaration.script_does`, `Directive.script_does`). The
trace of a body that is given as data is the run of the data (`Data.trace_body`).
-/

namespace AccessRules

/-! ## Runs -/

/-- What happens, and how it ends. -/
abbrev Run (ν : Type) := List (Event ν) × Outcome

namespace Run

variable {ν : Type}

def idle : Run ν := ([], .ok ())

def fails (error : CompileError) : Run ν := ([], .error error)

def ofEvent (e : Event ν) : Run ν := ([e], .ok ())

/-- One run, and then another one unless the first fails. -/
def andThen (a b : Run ν) : Run ν :=
  match a.2 with
  | .ok _ => (a.1 ++ b.1, b.2)
  | .error _ => a

/-- Runs one after the other, up to the first that fails. -/
def sequence : List (Run ν) → Run ν
  | [] => idle
  | r :: rest => r.andThen (sequence rest)

theorem andThen_idle (r : Run ν) : r.andThen idle = r := by
  obtain ⟨events, outcome⟩ := r
  cases outcome <;> simp [andThen, idle]

theorem andThen_assoc (a b c : Run ν) : (a.andThen b).andThen c = a.andThen (b.andThen c) := by
  obtain ⟨events, outcome⟩ := a
  obtain ⟨events', outcome'⟩ := b
  cases outcome <;> cases outcome' <;> simp [andThen]

end Run

/-! ## The runs of data -/

/-- A body that is given as data. -/
inductive Data where
  | declaration (d : Declaration)
  | declarations (ds : List Declaration)
  | directives (ds : List Directive)

def Data.body {ν : Type} : Data → Body ν
  | declaration d => .declaration d
  | declarations ds => .declarations ds
  | directives ds => .directives ds

section

variable {ν : Type} (config : Config) (resolver : Resolver)

/-- The event of a scope that is asked for at an expression when `live` scopes are open, from the run of its body. -/
def Event.askedAt (live : Nat) (expr : String) (body : Run ν) : Event ν :=
  match resolver expr with
  | .error error => .unresolved error
  | .ok segments => .ofScope config.maxDepth live segments body

mutual

/-- What a declaration does in a scope when `live` scopes are open. -/
def Declaration.runIn : Declaration → Nat → Run ν
  | .add c p, _ => .ofEvent (.added c p)
  | .authorize directives, live => Directive.runsIn directives live
  | .within expr body, live => .ofEvent (.askedAt config resolver live expr (Declaration.runsIn body (live + 1)))

def Declaration.runsIn : List Declaration → Nat → Run ν
  | [], _ => .idle
  | d :: rest, live => (Declaration.runIn d live).andThen (Declaration.runsIn rest live)

/-- What a directive does in a scope when `live` scopes are open. -/
def Directive.runIn : Directive → Nat → Run ν
  | .mk tag value, live =>
    match config.dispatch.classify tag with
    | .error e => .fails e
    | .ok category? => Directive.Value.runIn tag value category? live

def Directive.Value.runIn (tag : String) : Directive.Value → Option Category → Nat → Run ν
  | .predicate p, some c, _ => .ofEvent (.added c p)
  | .predicate _, none, _ => .fails (.expectedBody tag)
  | .nested _, some _, _ => .fails (.expectedPredicate tag)
  | .nested directives, none, live =>
    .ofEvent (.ofScope config.maxDepth live [.ofTag tag] (Directive.runsIn directives (live + 1)))
  | .body _, some _, _ => .fails (.expectedPredicate tag)
  | .body declarations, none, live =>
    .ofEvent (.ofScope config.maxDepth live [.ofTag tag] (Declaration.runsIn declarations (live + 1)))

def Directive.runsIn : List Directive → Nat → Run ν
  | [], _ => .idle
  | d :: rest, live => (Directive.runIn d live).andThen (Directive.runsIn rest live)

end

/-- What data does in a scope when `live` scopes are open. -/
def Data.runIn : Data → Nat → Run ν
  | declaration d, live => d.runIn config resolver live
  | declarations ds, live => Declaration.runsIn config resolver ds live
  | directives ds, live => Directive.runsIn config resolver ds live

theorem Declaration.runsIn_eq (ds : List Declaration) (live : Nat) :
    (Declaration.runsIn config resolver ds live : Run ν) = .sequence (ds.map fun d => d.runIn config resolver live) := by
  induction ds with
  | nil => rfl
  | cons d rest ih => rw [runsIn, ih, List.map_cons, Run.sequence]

theorem Directive.runsIn_eq (ds : List Directive) (live : Nat) :
    (Directive.runsIn config resolver ds live : Run ν) = .sequence (ds.map fun d => d.runIn config resolver live) := by
  induction ds with
  | nil => rfl
  | cons d rest ih => rw [runsIn, ih, List.map_cons, Run.sequence]

/-! ## Scripts that start with data -/

/-- Scripts that start in this way do at first what the run says, and then go on from the same depth. -/
def Does (start : Script ν → Script ν) (run : Nat → Run ν) : Prop :=
  ∀ next v, ∃ w : View, w.depth = v.depth ∧
    (start next).trace config resolver v = (run v.depth).andThen (next.trace config resolver w)

variable {config resolver}

namespace Does

theorem idle : Does config resolver (fun next : Script ν => next) fun _ => .idle := by
  intro next v
  exact ⟨v, rfl, rfl⟩

theorem fails (error : CompileError) :
    Does config resolver (fun _ : Script ν => .fail error) fun _ => .fails error := by
  intro next v
  exact ⟨v, rfl, rfl⟩

theorem add (c : Category) (p : Predicate) :
    Does config resolver (fun next : Script ν => .add c p next) fun _ => .ofEvent (.added c p) := by
  intro next v
  exact ⟨v.after (.added c p), rfl, rfl⟩

variable {start start' : Script ν → Script ν} {run run' : Nat → Run ν}

theorem andThen (h : Does config resolver start run) (h' : Does config resolver start' run') :
    Does config resolver (fun next => start (start' next)) fun live => (run live).andThen (run' live) := by
  intro next v
  obtain ⟨w, hw, htrace⟩ := h (start' next) v
  obtain ⟨w', hw', htrace'⟩ := h' next w
  refine ⟨w', hw'.trans hw, ?_⟩
  rw [htrace, htrace', hw, Run.andThen_assoc]

/-- A script that does nothing behind. -/
theorem trace_done (h : Does config resolver start run) (v : View) :
    (start .done).trace config resolver v = run v.depth := by
  obtain ⟨w, -, htrace⟩ := h .done v
  rw [htrace]
  exact Run.andThen_idle _

theorem within (h : Does config resolver start run) (expr : String) :
    Does config resolver (fun next => .within expr (start .done) fun _ => next)
      fun live => .ofEvent (.askedAt config resolver live expr (run (live + 1))) := by
  intro next v
  have hasked : v.asked config resolver expr ((start .done).trace config resolver) =
      .askedAt config resolver v.depth expr (run (v.depth + 1)) := by
    unfold View.asked Event.askedAt
    cases resolver expr with
    | error error => rfl
    | ok segments =>
      simp only [h.trace_done]
      rfl
  refine ⟨v.after (.askedAt config resolver v.depth expr (run (v.depth + 1))), rfl, ?_⟩
  rw [Script.trace, hasked]
  rfl

theorem descend (h : Does config resolver start run) (s : Segment) :
    Does config resolver (fun next => .descend s (start .done) fun _ => next)
      fun live => .ofEvent (.ofScope config.maxDepth live [s] (run (live + 1))) := by
  intro next v
  refine ⟨v.after (.ofScope config.maxDepth v.depth [s] (run (v.depth + 1))), rfl, ?_⟩
  rw [Script.trace, h.trace_done]
  rfl

end Does

mutual

/-- **A declaration does its run.** -/
theorem Declaration.script_does (d : Declaration) :
    Does config resolver (fun next : Script ν => d.script config.dispatch next) (d.runIn config resolver) := by
  match d with
  | .add c p => exact Does.add c p
  | .authorize directives => exact Directive.scripts_do directives
  | .within expr body => exact (Declaration.scripts_do body).within expr
termination_by structural d

theorem Declaration.scripts_do (ds : List Declaration) :
    Does config resolver (fun next : Script ν => Declaration.scripts config.dispatch ds next)
      (Declaration.runsIn config resolver ds) := by
  match ds with
  | [] => exact Does.idle
  | d :: rest => exact (Declaration.script_does d).andThen (Declaration.scripts_do rest)
termination_by structural ds

/-- **A directive does its run.** -/
theorem Directive.script_does (d : Directive) :
    Does config resolver (fun next : Script ν => d.script config.dispatch next) (d.runIn config resolver) := by
  match d with
  | .mk tag value =>
    have hvalue := Directive.Value.script_does tag value
    intro next v
    simp only [Directive.script, Directive.runIn]
    cases config.dispatch.classify tag with
    | error e => exact Does.fails e next v
    | ok category? => exact hvalue category? next v
termination_by structural d

theorem Directive.Value.script_does (tag : String) (value : Directive.Value) (category? : Option Category) :
    Does config resolver (fun next : Script ν => Directive.Value.script config.dispatch tag category? value next)
      (Directive.Value.runIn config resolver tag value category?) := by
  match value, category? with
  | .predicate p, some c => exact Does.add c p
  | .predicate _, none => exact Does.fails (.expectedBody tag)
  | .nested _, some _ => exact Does.fails (.expectedPredicate tag)
  | .nested directives, none => exact (Directive.scripts_do directives).descend (.ofTag tag)
  | .body _, some _ => exact Does.fails (.expectedPredicate tag)
  | .body declarations, none => exact (Declaration.scripts_do declarations).descend (.ofTag tag)
termination_by structural value

theorem Directive.scripts_do (ds : List Directive) :
    Does config resolver (fun next : Script ν => Directive.scripts config.dispatch ds next)
      (Directive.runsIn config resolver ds) := by
  match ds with
  | [] => exact Does.idle
  | d :: rest => exact (Directive.script_does d).andThen (Directive.scripts_do rest)
termination_by structural ds

end

/-! ## Bodies given as data -/

theorem Body.trace_declaration (d : Declaration) (v : View) :
    (Body.declaration d : Body ν).toScript.trace config resolver v = d.runIn config resolver v.depth :=
  d.script_does.trace_done v

theorem Body.trace_declarations (ds : List Declaration) (v : View) :
    (Body.declarations ds : Body ν).toScript.trace config resolver v = Declaration.runsIn config resolver ds v.depth :=
  (Declaration.scripts_do ds).trace_done v

theorem Body.trace_directives (ds : List Directive) (v : View) :
    (Body.directives ds : Body ν).toScript.trace config resolver v = Directive.runsIn config resolver ds v.depth :=
  (Directive.scripts_do ds).trace_done v

theorem Data.trace_body (d : Data) (v : View) :
    (d.body : Body ν).toScript.trace config resolver v = d.runIn config resolver v.depth := by
  cases d with
  | declaration d => exact Body.trace_declaration d v
  | declarations ds => exact Body.trace_declarations ds v
  | directives ds => exact Body.trace_directives ds v

/-- Compiling data is one scope around its run. -/
theorem Data.trace_compile (d : Data) :
    (d.body : Body ν).trace config resolver = .ofScope config.maxDepth 0 [] (d.runIn config resolver 1) := by
  unfold Body.trace
  rw [trace_body]
  rfl

end

end AccessRules
