import AccessRules.Proofs.Agreement
import AccessRules.Proofs.Nameless
import AccessRules.Proofs.RenamedText

/-!
# Renamed data

Data may be renamed in all expressions and tags, at any depth (`Data.Renamed`). A renamed scope is opened along the same
edges, so the run of renamed data differs from that of the data in names alone (`Data.Renamed.upToNames`): it compiles to
the same tree up to names, and the same is reported, in kind and up to names. Together with the operations on trees: names
never matter (`names_never_matter`).
-/

namespace AccessRules

/-! ## Runs that differ in names -/

/-- What went wrong, without the particulars. -/
inductive ErrorKind where
  | resolve
  | expectedPredicate
  | expectedBody
  | categoryCollision
  | depthExceeded
  | predicate
  deriving DecidableEq, Repr

def CompileError.kind : CompileError → ErrorKind
  | resolve _ => .resolve
  | expectedPredicate _ => .expectedPredicate
  | expectedBody _ => .expectedBody
  | categoryCollision _ _ => .categoryCollision
  | depthExceeded _ => .depthExceeded
  | predicate _ => .predicate

/-- What a diagnostic says, without the names of captures on its path and the particulars. -/
def Diagnostic.key (x : Diagnostic) : List Edge × ErrorKind := (x.path.edges, x.error.kind)

theorem Path.edges_append (p q : Path) : (p ++ q).edges = p.edges ++ q.edges := List.map_append

namespace Run

variable {ν : Type}

/-- The runs end in the same way, with the same facts, and the same is reported in them, all but for names. -/
structure UpToNames (a b : Run ν) : Prop where
  outcome : a.2.mapError CompileError.kind = b.2.mapError CompileError.kind
  facts : (Event.factsOf a.1).map Fact.key = (Event.factsOf b.1).map Fact.key
  failures : ∀ path path' : Path, path.edges = path'.edges →
    (Event.failuresOf path a.1).map Diagnostic.key = (Event.failuresOf path' b.1).map Diagnostic.key

namespace UpToNames

variable {a a' b b' : Run ν} {segments segments' : Path}

theorem idle : UpToNames (idle : Run ν) idle := ⟨rfl, rfl, fun _ _ _ => rfl⟩

theorem fails {error error' : CompileError} (h : error.kind = error'.kind) :
    UpToNames (fails error : Run ν) (fails error') :=
  ⟨congrArg Except.error h, rfl, fun _ _ _ => rfl⟩

theorem added (c : Category) (p : Predicate) : UpToNames (ofEvent (.added c p) : Run ν) (ofEvent (.added c p)) :=
  ⟨rfl, rfl, fun _ _ _ => rfl⟩

theorem unresolved (error error' : ResolveError) :
    UpToNames (ofEvent (.unresolved error) : Run ν) (ofEvent (.unresolved error')) := by
  refine ⟨rfl, rfl, fun path path' hpath => ?_⟩
  simp [ofEvent, Event.failures, Diagnostic.key, CompileError.kind, hpath]

/-- Both runs complete, or both fail. -/
theorem outcomes (h : a.UpToNames b) :
    (a.2 = .ok () ∧ b.2 = .ok ()) ∨
      ∃ error error', a.2 = .error error ∧ b.2 = .error error' ∧ error.kind = error'.kind := by
  have houtcome := h.outcome
  cases ha : a.2 with
  | ok =>
    cases hb : b.2 with
    | ok => exact .inl ⟨rfl, rfl⟩
    | error error' =>
      rw [ha, hb] at houtcome
      cases houtcome
  | error error =>
    cases hb : b.2 with
    | ok =>
      rw [ha, hb] at houtcome
      cases houtcome
    | error error' =>
      rw [ha, hb] at houtcome
      exact .inr ⟨error, error', rfl, rfl, Except.error.inj houtcome⟩

theorem andThen (h : a.UpToNames b) (h' : a'.UpToNames b') : (a.andThen a').UpToNames (b.andThen b') := by
  rcases h.outcomes with ⟨ha, hb⟩ | ⟨error, error', ha, hb, -⟩
  · refine ⟨?_, ?_, fun path path' hpath => ?_⟩
    · simpa only [Run.andThen, ha, hb] using h'.outcome
    · simp only [Run.andThen, ha, hb, Event.factsOf_append, List.map_append, h.facts, h'.facts]
    · simp only [Run.andThen, ha, hb, Event.failuresOf_append, List.map_append, h.failures path path' hpath,
        h'.failures path path' hpath]
  · simpa only [Run.andThen, ha, hb] using h

/-- In scopes at paths that differ in names. -/
theorem scope (h : a.UpToNames b) (hsegments : segments.edges = segments'.edges) :
    UpToNames (ofEvent (.scope segments a.1 a.2)) (ofEvent (.scope segments' b.1 b.2)) := by
  have hfailures : ∀ path path' : Path, path.edges = path'.edges →
      (Event.failuresOf (path ++ segments) a.1).map Diagnostic.key =
        (Event.failuresOf (path' ++ segments') b.1).map Diagnostic.key := by
    intro path path' hpath
    refine h.failures _ _ ?_
    rw [Path.edges_append, Path.edges_append, hpath, hsegments]
  rcases h.outcomes with ⟨ha, hb⟩ | ⟨error, error', ha, hb, hkind⟩
  · refine ⟨rfl, ?_, fun path path' hpath => ?_⟩
    · have hbelow (p : Path) (fs : List Fact) :
          (fs.map (Fact.below p)).map Fact.key = (fs.map Fact.key).map fun k => (p.edges ++ k.1, k.2) := by
        simp [Fact.key_below]
      simp only [ofEvent, ha, hb, Event.factsOf_singleton, Event.facts, hbelow, h.facts, hsegments]
    · simpa only [ofEvent, ha, hb, Event.failuresOf_singleton, Event.failures] using hfailures path path' hpath
  · refine ⟨rfl, ?_, fun path path' hpath => ?_⟩
    · simp only [ofEvent, ha, hb, Event.factsOf_singleton, Event.facts]
    · simp only [ofEvent, ha, hb, Event.failuresOf_singleton, Event.failures, List.map_append,
        hfailures path path' hpath, List.map_cons, List.map_nil, Diagnostic.key, Path.edges_append, hpath, hsegments,
        hkind]

theorem ofScope (h : a.UpToNames b) (hsegments : segments.edges = segments'.edges) (limit live : Nat) :
    UpToNames (ofEvent (.ofScope limit live segments a)) (ofEvent (.ofScope limit live segments' b)) := by
  unfold Event.ofScope
  split
  · refine ⟨rfl, rfl, fun path path' hpath => ?_⟩
    simp only [ofEvent, Event.failuresOf_singleton, Event.failures, List.map_cons, List.map_nil, Diagnostic.key,
      CompileError.kind, Path.edges_append, hpath, hsegments]
  · exact h.scope hsegments

end UpToNames

end Run

/-! ## Renamed data -/

mutual

/-- The same declaration, but for names in expressions and tags, at any depth. -/
inductive Declaration.Renamed : Declaration → Declaration → Prop
  | add (c : Category) (p : Predicate) : Declaration.Renamed (.add c p) (.add c p)
  | authorize {ds ds' : List Directive} : Directive.AllRenamed ds ds' →
      Declaration.Renamed (.authorize ds) (.authorize ds')
  | within {expr expr' : String} {ds ds' : List Declaration} : Expression.Renamed expr.toList expr'.toList →
      Declaration.AllRenamed ds ds' → Declaration.Renamed (.within expr ds) (.within expr' ds')

/-- Entry by entry. -/
inductive Declaration.AllRenamed : List Declaration → List Declaration → Prop
  | nil : Declaration.AllRenamed [] []
  | cons {d d' : Declaration} {ds ds' : List Declaration} : Declaration.Renamed d d' →
      Declaration.AllRenamed ds ds' → Declaration.AllRenamed (d :: ds) (d' :: ds')

/-- The same directive, but for names. -/
inductive Directive.Renamed : Directive → Directive → Prop
  | mk {tag tag' : String} {value value' : Directive.Value} : RenamedTag tag tag' →
      Directive.Value.Renamed value value' → Directive.Renamed (.mk tag value) (.mk tag' value')

inductive Directive.Value.Renamed : Directive.Value → Directive.Value → Prop
  | predicate (p : Predicate) : Directive.Value.Renamed (.predicate p) (.predicate p)
  | nested {ds ds' : List Directive} : Directive.AllRenamed ds ds' → Directive.Value.Renamed (.nested ds) (.nested ds')
  | body {ds ds' : List Declaration} : Declaration.AllRenamed ds ds' → Directive.Value.Renamed (.body ds) (.body ds')

/-- Entry by entry. -/
inductive Directive.AllRenamed : List Directive → List Directive → Prop
  | nil : Directive.AllRenamed [] []
  | cons {d d' : Directive} {ds ds' : List Directive} : Directive.Renamed d d' →
      Directive.AllRenamed ds ds' → Directive.AllRenamed (d :: ds) (d' :: ds')

end

/-- The same data, but for names. -/
inductive Data.Renamed : Data → Data → Prop
  | declaration {d d' : Declaration} : d.Renamed d' → Data.Renamed (.declaration d) (.declaration d')
  | declarations {ds ds' : List Declaration} : Declaration.AllRenamed ds ds' →
      Data.Renamed (.declarations ds) (.declarations ds')
  | directives {ds ds' : List Directive} : Directive.AllRenamed ds ds' → Data.Renamed (.directives ds) (.directives ds')

section

variable {ν : Type} {config : Config}

/-- Scopes at expressions that are renamed. -/
theorem Run.UpToNames.askedAt {a b : Run ν} (h : a.UpToNames b) {expr expr' : String}
    (hexpr : Expression.Renamed expr.toList expr'.toList) (live : Nat) :
    UpToNames (.ofEvent (.askedAt config .slash live expr a)) (.ofEvent (.askedAt config .slash live expr' b)) := by
  unfold Event.askedAt
  rcases Resolver.slash_renamed hexpr with ⟨error, error', herror, herror'⟩ | ⟨p, p', hp, hp', hedges⟩
  · rw [herror, herror']
    exact .unresolved error error'
  · rw [hp, hp']
    exact h.ofScope hedges config.maxDepth live

mutual

theorem Declaration.Renamed.upToNames {d d' : Declaration} (h : d.Renamed d') (live : Nat) :
    Run.UpToNames (d.runIn config .slash live : Run ν) (d'.runIn config .slash live) := by
  match h with
  | .add c p => exact .added c p
  | .authorize hs => exact Directive.AllRenamed.upToNames hs live
  | .within hexpr hs => exact (Declaration.AllRenamed.upToNames hs (live + 1)).askedAt hexpr live
termination_by structural h

theorem Declaration.AllRenamed.upToNames {ds ds' : List Declaration} (h : Declaration.AllRenamed ds ds') (live : Nat) :
    Run.UpToNames (Declaration.runsIn config .slash ds live : Run ν) (Declaration.runsIn config .slash ds' live) := by
  match h with
  | .nil => exact .idle
  | .cons hd hs => exact (Declaration.Renamed.upToNames hd live).andThen (Declaration.AllRenamed.upToNames hs live)
termination_by structural h

theorem Directive.Renamed.upToNames {d d' : Directive} (h : d.Renamed d') (live : Nat) :
    Run.UpToNames (d.runIn config .slash live : Run ν) (d'.runIn config .slash live) := by
  match h with
  | @Directive.Renamed.mk tag tag' value value' htag hvalue =>
    simp only [Directive.runIn, htag.classify_eq]
    cases config.dispatch.classify tag' with
    | error error => exact .fails rfl
    | ok category? => exact Directive.Value.Renamed.upToNames hvalue htag category? live
termination_by structural h

theorem Directive.Value.Renamed.upToNames {value value' : Directive.Value} (h : value.Renamed value')
    {tag tag' : String} (htag : RenamedTag tag tag') (category? : Option Category) (live : Nat) :
    Run.UpToNames (value.runIn config .slash tag category? live : Run ν)
      (value'.runIn config .slash tag' category? live) := by
  match h, category? with
  | .predicate p, some c => exact .added c p
  | .predicate _, none => exact .fails rfl
  | .nested _, some _ => exact .fails rfl
  | .nested hs, none =>
    exact (Directive.AllRenamed.upToNames hs (live + 1)).ofScope htag.edges_ofTag config.maxDepth live
  | .body _, some _ => exact .fails rfl
  | .body hs, none =>
    exact (Declaration.AllRenamed.upToNames hs (live + 1)).ofScope htag.edges_ofTag config.maxDepth live
termination_by structural h

theorem Directive.AllRenamed.upToNames {ds ds' : List Directive} (h : Directive.AllRenamed ds ds') (live : Nat) :
    Run.UpToNames (Directive.runsIn config .slash ds live : Run ν) (Directive.runsIn config .slash ds' live) := by
  match h with
  | .nil => exact .idle
  | .cons hd hs => exact (Directive.Renamed.upToNames hd live).andThen (Directive.AllRenamed.upToNames hs live)
termination_by structural h

end

variable (ν config) in
/-- **Renamed data** does a run that differs in names alone. -/
theorem Data.Renamed.upToNames {d d' : Data} (h : d.Renamed d') :
    Run.UpToNames (.ofEvent (d.body.trace config .slash) : Run ν) (.ofEvent (d'.body.trace config .slash)) := by
  rw [Data.trace_compile, Data.trace_compile]
  refine Run.UpToNames.ofScope ?_ rfl config.maxDepth 0
  cases h with
  | declaration h => exact h.upToNames 1
  | declarations h => exact Declaration.AllRenamed.upToNames h 1
  | directives h => exact Directive.AllRenamed.upToNames h 1

end

/-- **Names never matter.** From trees and paths that differ in the names of captures alone, operations give what is the
same up to names; and so it is with compilations of data that differs in names alone, each occurrence renamed by itself:
the trees are the same, and so are the diagnostics, one by one, in path and in kind. -/
theorem names_never_matter {ν : Type} {config : Config} {c : Compiler ν} (hc : c.Reached config .slash) :
    (∀ (t t' a a' : RuleTree) (target target' : Option RuleTree) (p p' : Path) (s s' : Segment),
      t.same t' = true → a.same a' = true → Option.Rel (fun u u' => u.same u' = true) target target' →
      p.same p' = true → s.edge = s'.edge →
        (t.merge a).same (t'.merge a') = true ∧
        (RuleTree.mergeRules target p a).same (RuleTree.mergeRules target' p' a') = true ∧
        (t.attach s a).same (t'.attach s' a') = true ∧
        t.prune.same t'.prune = true ∧
        Option.Rel (fun u u' => u.same u' = true) (t.get? p) (t'.get? p') ∧
        Option.Rel (fun u u' => u.same u' = true) (t.child? s) (t'.child? s') ∧
        t.size = t'.size ∧ t.predicateCount = t'.predicateCount ∧ t.isEmpty = t'.isEmpty ∧
        (∀ k, t.predicates? k = t'.predicates? k) ∧
        List.Forall₂ (fun q q' => Path.same q q' = true) t.paths t'.paths) ∧
      ∀ d d' : Data, d.Renamed d' →
        (c.compile d.body).1.tree.same (c.compile d'.body).1.tree = true ∧
        List.Forall₂ (fun x x' => x.path.same x'.path = true ∧ x.error.kind = x'.error.kind)
          (c.compile d.body).1.diagnostics (c.compile d'.body).1.diagnostics := by
  constructor
  · intro t t' a a' target target' p p' s s' ht ha htarget hp hs
    have hstep : Path.same [s] [s'] = true := Path.cons_same.2 ⟨hs, rfl⟩
    have htop : (target.getD .empty).same (target'.getD .empty) = true := by
      cases htarget with
      | none => exact RuleTree.same_refl .empty
      | some htarget => exact htarget
    refine ⟨RuleTree.same_merge ht ha, RuleTree.same_mergeAt htop ha hp, RuleTree.same_mergeAt ht ha hstep,
      RuleTree.same_prune ht, RuleTree.same_get? ht hp, ?_, Node.size_eq_of_same ht, Node.predicateCount_eq_of_same ht,
      RuleTree.same_isEmpty ht, fun k => ?_, Node.paths_same ht⟩
    · rw [RuleTree.child?_eq_get?, RuleTree.child?_eq_get?]
      exact RuleTree.same_get? ht hstep
    · rw [RuleTree.predicates?, RuleTree.predicates?, (RuleTree.same_iff.1 ht).1]
  · intro d d' h
    have hnames := h.upToNames ν config
    have hfacts := hnames.facts
    have hfailures := hnames.failures [] [] rfl
    simp only [Run.ofEvent, Event.factsOf_singleton, Event.failuresOf_singleton] at hfacts hfailures
    rw [hc.compile_trace, hc.compile_trace]
    constructor
    · refine RuleTree.same_of_holds (RuleTree.pruned_ofFacts _) (RuleTree.pruned_ofFacts _) fun q k p => ?_
      rw [holds_ofFacts_iff_key, holds_ofFacts_iff_key, ← List.mem_map, ← List.mem_map, hfacts]
    · rw [← List.forall₂_eq_eq_eq, List.forall₂_map_left_iff, List.forall₂_map_right_iff] at hfailures
      refine hfailures.imp fun x x' hkey => ?_
      obtain ⟨hpath, hkind⟩ := Prod.mk.inj hkey
      exact ⟨Path.same_iff.2 hpath, hkind⟩

/-- Trees in which one capture has two names; and data in which a scope at a renamed capture fails, with an expression
that is not read. -/
theorem names_never_matter_of_two_names :
    let tree (name name' : String) : RuleTree :=
      (RuleTree.empty.mergeAt [.capture name, .literal "a"] (.add .empty .read ⟨"p"⟩)).attach (.capture name') .empty
    let data (expr expr' tag tag' : String) : Data := .declarations [
      .within expr [.add .read ⟨"p"⟩, .within expr' []],
      .authorize [.mk tag (.nested [.mk "write" (.predicate ⟨"q"⟩)]), .mk tag' (.nested [.mk "b" (.predicate ⟨"r"⟩)])]]
    let t := tree "id" "key"
    let t' := tree "uid" "x"
    let d := data "a/$id" "$id/b$" "$id" "$ id"
    let d' := data "a/$key" "$x/b$" "$/" "$y"
    let c : Compiler Unit := {}
    c.Reached {} .slash ∧ t.same t' = true ∧ (t.merge t).same (t'.merge t') = true ∧
      (RuleTree.mergeRules (some t) [.capture "m"] t).same (RuleTree.mergeRules (some t') [.capture "n"] t') = true ∧
      t.paths = [[.capture "id", .literal "a"]] ∧ t'.paths = [[.capture "uid", .literal "a"]] ∧
      d.Renamed d' ∧ (c.compile d.body).1.tree.same (c.compile d'.body).1.tree = true ∧
      (c.compile d.body).1.diagnostics.map Diagnostic.path = [[.literal "a", .capture "id"], [.capture " id"]] ∧
      List.Forall₂ (fun x x' => x.path.same x'.path = true ∧ x.error.kind = x'.error.kind)
        (c.compile d.body).1.diagnostics (c.compile d'.body).1.diagnostics := by
  intro tree data t t' d d' c
  have hc : c.Reached {} .slash := .fresh
  have hsame : t.same t' = true := by decide
  obtain ⟨htrees, hdata⟩ := names_never_matter hc
  obtain ⟨hmerge, hmergeRules, -⟩ := htrees t t' t t' (some t) (some t') [.capture "m"] [.capture "n"] (.capture "m")
    (.capture "n") hsame hsame (.some hsame) rfl rfl
  have hid : Expression.IsName ['i', 'd'] := .mk rfl (List.all_eq_true.1 rfl)
  have hkey : Expression.IsName ['k', 'e', 'y'] := .mk rfl (List.all_eq_true.1 rfl)
  have hx : Expression.IsName ['x'] := .mk rfl (List.forall_mem_nil _)
  have hexpr : Expression.Renamed "a/$id".toList "a/$key".toList :=
    .keep 'a' (.keep '/' (.name hid hkey .nil))
  have hexpr' : Expression.Renamed "$id/b$".toList "$x/b$".toList :=
    .name hid hx (.keep '/' (.keep 'b' (.keep '$' .nil)))
  have htag : RenamedTag "$id" "$/" := @RenamedTag.capture "id" "/" (by decide) (by decide)
  have htag' : RenamedTag "$ id" "$y" := @RenamedTag.capture " id" "y" (by decide) (by decide)
  have hrenamed : d.Renamed d' :=
    .declarations (.cons (.within hexpr (.cons (.add .read ⟨"p"⟩) (.cons (.within hexpr' .nil) .nil)))
      (.cons (.authorize (.cons (.mk htag (.nested (.cons (.mk (.same _) (.predicate _)) .nil)))
        (.cons (.mk htag' (.nested (.cons (.mk (.same _) (.predicate _)) .nil))) .nil))) .nil))
  obtain ⟨htree, hdiagnostics⟩ := hdata d d' hrenamed
  exact ⟨hc, hsame, hmerge, hmergeRules, by decide, by decide, hrenamed, htree, by decide, hdiagnostics⟩

end AccessRules
