import AccessRules.Proofs.Completeness

/-!
# What all data has in common

Data does different runs under different settings and at different depths: it stands for a family of runs, one for each
configuration and each number of open scopes. All these families are put together in the same few ways. So a property of
families that is kept by each of them (`Closed`) holds of all data (`Closed.data`): this is the induction for whatever
relates the runs that the same data does under several settings. Where the tags matter, they may be restricted to those
that occur in the data (`Data.tags`).
-/

namespace AccessRules

/-! ## The tags of data -/

mutual

/-- The tags in a declaration, at any depth. -/
def Declaration.tags : Declaration → List String
  | .add _ _ => []
  | .authorize directives => Directive.allTags directives
  | .within _ body => Declaration.allTags body

def Declaration.allTags : List Declaration → List String
  | [] => []
  | d :: rest => Declaration.tags d ++ Declaration.allTags rest

/-- The tags in a directive, at any depth, its own one first. -/
def Directive.tags : Directive → List String
  | .mk tag value => tag :: Directive.Value.tags value

def Directive.Value.tags : Directive.Value → List String
  | .predicate _ => []
  | .nested directives => Directive.allTags directives
  | .body declarations => Declaration.allTags declarations

def Directive.allTags : List Directive → List String
  | [] => []
  | d :: rest => Directive.tags d ++ Directive.allTags rest

end

/-- The tags in data, at any depth. -/
def Data.tags : Data → List String
  | .declaration d => d.tags
  | .declarations ds => Declaration.allTags ds
  | .directives ds => Directive.allTags ds

/-! ## Families of runs -/

section

variable {ν : Type}

/-- A run for each configuration and each number of open scopes. -/
abbrev Family (ν : Type) := Config → Nat → Run ν

namespace Family

/-- Under a tag, what its reading asks for; if the tag is refused, nothing but the failure. -/
def dispatched (tag : String) (f : Option Category → Family ν) : Family ν := fun config live =>
  match config.dispatch.classify tag with
  | .error error => .fails error
  | .ok category? => f category? config live

/-- In a scope that is asked for, so many segments further down. -/
def scope (segments : Path) (f : Family ν) : Family ν := fun config live =>
  .ofEvent (.ofScope config.maxDepth live segments (f config (live + 1)))

end Family

/-- A property of families that is kept by all that data is put together from, for tags with the property `T`. -/
structure Closed (T : String → Prop) (P : Family ν → Prop) : Prop where
  idle : P fun _ _ => .idle
  fails (error : CompileError) : (∀ limit, error ≠ .depthExceeded limit) → P fun _ _ => .fails error
  added (c : Category) (p : Predicate) : P fun _ _ => .ofEvent (.added c p)
  unresolved (error : ResolveError) : P fun _ _ => .ofEvent (.unresolved error)
  andThen {f g : Family ν} : P f → P g → P fun config live => (f config live).andThen (g config live)
  scope {f : Family ν} (segments : Path) : P f → P (f.scope segments)
  dispatched {f : Option Category → Family ν} {tag : String} : T tag → (∀ category?, P (f category?)) →
    P (.dispatched tag f)

section

variable {T : String → Prop} {P : Family ν → Prop} (resolver : Resolver)

mutual

theorem Closed.declaration (h : Closed T P) (d : Declaration) (ht : ∀ tag ∈ d.tags, T tag) :
    P fun config live => d.runIn config resolver live := by
  match d, ht with
  | .add c p, _ => exact h.added c p
  | .authorize directives, ht => exact h.directives directives ht
  | .within expr body, ht =>
    have hbody := h.declarations body ht
    simp only [Declaration.runIn, Event.askedAt]
    cases resolver expr with
    | error error => exact h.unresolved error
    | ok segments => exact h.scope segments hbody
termination_by structural d

theorem Closed.declarations (h : Closed T P) (ds : List Declaration) (ht : ∀ tag ∈ Declaration.allTags ds, T tag) :
    P fun config live => Declaration.runsIn config resolver ds live := by
  match ds, ht with
  | [], _ => exact h.idle
  | d :: rest, ht =>
    obtain ⟨hd, hrest⟩ := List.forall_mem_append.1 ht
    exact h.andThen (h.declaration d hd) (h.declarations rest hrest)
termination_by structural ds

theorem Closed.directive (h : Closed T P) (d : Directive) (ht : ∀ tag ∈ d.tags, T tag) :
    P fun config live => d.runIn config resolver live := by
  match d, ht with
  | .mk tag value, ht =>
    obtain ⟨htag, hvalue⟩ := List.forall_mem_cons.1 ht
    exact h.dispatched htag (h.value tag value hvalue)
termination_by structural d

theorem Closed.value (h : Closed T P) (tag : String) (value : Directive.Value) (ht : ∀ tag ∈ value.tags, T tag)
    (category? : Option Category) : P fun config live => value.runIn config resolver tag category? live := by
  match value, category?, ht with
  | .predicate p, some c, _ => exact h.added c p
  | .predicate _, none, _ => exact h.fails (.expectedBody tag) nofun
  | .nested _, some _, _ => exact h.fails (.expectedPredicate tag) nofun
  | .nested directives, none, ht => exact h.scope [.ofTag tag] (h.directives directives ht)
  | .body _, some _, _ => exact h.fails (.expectedPredicate tag) nofun
  | .body declarations, none, ht => exact h.scope [.ofTag tag] (h.declarations declarations ht)
termination_by structural value

theorem Closed.directives (h : Closed T P) (ds : List Directive) (ht : ∀ tag ∈ Directive.allTags ds, T tag) :
    P fun config live => Directive.runsIn config resolver ds live := by
  match ds, ht with
  | [], _ => exact h.idle
  | d :: rest, ht =>
    obtain ⟨hd, hrest⟩ := List.forall_mem_append.1 ht
    exact h.andThen (h.directive d hd) (h.directives rest hrest)
termination_by structural ds

end

/-- **What is closed holds of all data.** -/
theorem Closed.data (h : Closed T P) (d : Data) (ht : ∀ tag ∈ d.tags, T tag) :
    P fun config live => d.runIn config resolver live := by
  cases d with
  | declaration d => exact h.declaration resolver d ht
  | declarations ds => exact h.declarations resolver ds ht
  | directives ds => exact h.directives resolver ds ht

end

end

end AccessRules
