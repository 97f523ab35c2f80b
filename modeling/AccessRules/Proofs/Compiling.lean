import AccessRules.Proofs.DataRuns
import AccessRules.Proofs.Running

/-!
# What a compilation gives

A compiler is used by compiling bodies, running single scopes and taking what they left; between these no scope is open
(`Compiler.Reached.idle`). Hence the tree of a compilation is grown from the facts of its trace that survive
(`tree_compile_eq_fold`), and its diagnostics are those of the scopes that failed in it
(`diagnostics_compile_eq_failures`), whatever the compiler was used for before. Both are said of any body by the trace
of its script, and of data by its own run as well.
-/

namespace AccessRules

open RuleTree

variable {ν : Type} {config : Config} {resolver : Resolver}

namespace Compiler

/-- The compilers with these settings that can be had by using them. -/
inductive Reached (config : Config) (resolver : Resolver) : Compiler ν → Prop
  | fresh : Reached config resolver { config, resolver }
  | compile {c : Compiler ν} (body : Body ν) : Reached config resolver c → Reached config resolver (c.compile body).2
  | within {c : Compiler ν} (expr : String) (body : Body ν) :
      Reached config resolver c → Reached config resolver (c.within expr body).2
  | takeDiagnostics {c : Compiler ν} : Reached config resolver c → Reached config resolver c.takeDiagnostics.2
  | takeNotes {c : Compiler ν} : Reached config resolver c → Reached config resolver c.takeNotes.2

/-- No scope is open. -/
def Idle (c : Compiler ν) : Prop := c.session.frames = []

theorem Idle.current {c : Compiler ν} (h : c.Idle) : c.session.current = View.outside := Session.current_of_nil h

theorem Idle.pruned {c : Compiler ν} (h : c.Idle) : c.session.current.tree.Pruned := by
  rw [h.current]
  exact pruned_empty

/-- The event of a body that is compiled is what the session does. -/
theorem Idle.enter {c : Compiler ν} (h : c.Idle) (body : Body ν) :
    c.session.enter c.config.maxDepth [] (body.toScript.run c.config c.resolver) =
      (View.outside.answer (body.trace c.config c.resolver), c.session.after [body.trace c.config c.resolver]) := by
  have hrun := body.toScript.run_follows c.config c.resolver
  rw [Session.enter_eq hrun h.pruned, h.current]
  rfl

/-- A scope by itself does what its event says. -/
theorem Idle.within {c : Compiler ν} (h : c.Idle) (expr : String) (body : Body ν) :
    c.within expr body =
      (View.outside.answer (body.traceWithin c.config c.resolver expr),
        { c with session := c.session.after [body.traceWithin c.config c.resolver expr] }) := by
  have hrun := body.toScript.run_follows c.config c.resolver
  unfold Compiler.within
  rw [Session.enterAt_eq hrun h.pruned, h.current]
  rfl

end Compiler

/-- A scope that completes is answered with the tree of the facts that survive it. -/
theorem View.answer_ofScope (limit live : Nat) (segments : Path) (run : List (Event ν) × Outcome) :
    (View.outside.answer (.ofScope limit live segments run)).getD .empty =
      .ofFacts (Event.ofScope limit live segments run).facts := by
  unfold Event.ofScope
  split
  · rfl
  · cases run.2 <;> rfl

namespace Compiler

/-- A compilation, and the compiler that is left, as the trace of the body has them. -/
theorem Idle.compile {c : Compiler ν} (h : c.Idle) (body : Body ν) :
    c.compile body =
      (⟨.ofFacts (body.trace c.config c.resolver).facts, (body.trace c.config c.resolver).failures []⟩,
        { c with session := { c.session with notes := c.session.notes ++ (body.trace c.config c.resolver).notes } }) := by
  have hpath : c.session.current.path = [] := by rw [h.current]; rfl
  have hframes : (c.session.after [body.trace c.config c.resolver]).frames = c.session.frames :=
    (Session.frames_after_of_nil h _).trans h.symm
  have hdiagnostics : (c.session.after [body.trace c.config c.resolver]).diagnostics =
      c.session.diagnostics ++ (body.trace c.config c.resolver).failures [] := by
    rw [← hpath, ← Event.failuresOf_singleton]
    rfl
  have hnotes : (c.session.after [body.trace c.config c.resolver]).notes =
      c.session.notes ++ (body.trace c.config c.resolver).notes := by
    rw [← Event.notesOf_singleton]
    rfl
  have htree : (View.outside.answer (body.trace c.config c.resolver)).getD empty =
      ofFacts (body.trace c.config c.resolver).facts :=
    View.answer_ofScope _ _ _ _
  unfold Compiler.compile
  rw [h.enter body]
  simp only [hframes, hdiagnostics, hnotes, htree, List.drop_left, List.take_left]

theorem Reached.settings {c : Compiler ν} (h : c.Reached config resolver) :
    c.config = config ∧ c.resolver = resolver := by
  induction h with
  | fresh => exact ⟨rfl, rfl⟩
  | compile _ _ ih | within _ _ _ ih | takeDiagnostics _ ih | takeNotes _ ih => exact ih

/-- Between its uses a compiler has no scope open. -/
theorem Reached.idle {c : Compiler ν} (h : c.Reached config resolver) : c.Idle := by
  induction h with
  | fresh => rfl
  | compile body _ ih =>
    rw [Idle, ih.compile]
    exact ih
  | within expr body _ ih =>
    rw [Idle, ih.within]
    exact Session.frames_after_of_nil ih _
  | takeDiagnostics _ ih | takeNotes _ ih => exact ih

/-- What a body compiles to is read off its trace. -/
theorem Reached.compile_trace {c : Compiler ν} (hc : c.Reached config resolver) (b : Body ν) :
    (c.compile b).1 = ⟨.ofFacts (b.trace config resolver).facts, (b.trace config resolver).failures []⟩ := by
  obtain ⟨rfl, rfl⟩ := hc.settings
  rw [hc.idle.compile]

end Compiler

/-- **The tree of a compilation** is grown from the empty tree by one union for each fact that survives, in the order in
which they were added, so it holds these facts and no others. For data, the facts are told by its own run, without the
script that it is turned into. -/
theorem tree_compile_eq_fold {c : Compiler ν} (hc : c.Reached config resolver) (body : Body ν) :
    (c.compile body).1.tree =
        (body.trace config resolver).facts.foldl
          (fun t f => mergeRules (some t) f.path (empty.add f.category f.predicate)) empty ∧
      (∀ q k p, (c.compile body).1.tree.Holds q k p ↔
        ∃ f ∈ (body.trace config resolver).facts, f.path.same q = true ∧ f.category = k ∧ f.predicate = p) ∧
      ∀ d : Data, (c.compile d.body).1.tree =
        (Event.ofScope config.maxDepth 0 [] (d.runIn config resolver 1 : Run ν)).facts.foldl
          (fun t f => mergeRules (some t) f.path (empty.add f.category f.predicate)) empty := by
  refine ⟨?_, fun q k p => ?_, fun d => ?_⟩
  · rw [hc.compile_trace]
    rfl
  · rw [hc.compile_trace]
    exact holds_ofFacts _ q
  · rw [hc.compile_trace, Data.trace_compile]
    rfl

/-- Of the scopes in this body the second is lost with what completed in it, and the third keeps the name that the first
has given to its capture. In the data a scope is lost for an entry behind one that was added. -/
theorem tree_compile_of_lost_scope :
    let resolver : Resolver := fun expr => .ok (if expr = "/" then [] else [.capture expr])
    let lost : Script Unit := .within "/" (.add .read ⟨"p"⟩ .done) fun _ => .fail (.predicate "no")
    let body : Body Unit := .script (.within "id" (.add .read ⟨"q"⟩ .done) fun _ => .within "id" lost fun _ =>
      .within "key" (.add .write ⟨"r"⟩ .done) fun _ => .done)
    let c := (Compiler.within ({ config := {}, resolver } : Compiler Unit) "id" (.script lost)).2
    let facts : List Fact := [⟨[.capture "id"], .read, ⟨"q"⟩⟩, ⟨[.capture "key"], .write, ⟨"r"⟩⟩]
    let d : Data := .directives [.mk "read" (.predicate ⟨"p"⟩),
      .mk "lost" (.nested [.mk "create" (.predicate ⟨"q"⟩), .mk "write" (.nested [])]),
      .mk "$key" (.body [.within "id" [.add .delete ⟨"r"⟩]])]
    let dataFacts : List Fact := [⟨[], .read, ⟨"p"⟩⟩, ⟨[.capture "key", .capture "id"], .delete, ⟨"r"⟩⟩]
    c.Reached {} resolver ∧
      (c.compile body).1.tree =
        facts.foldl (fun t f => mergeRules (some t) f.path (empty.add f.category f.predicate)) empty ∧
      (∀ q k p, (c.compile body).1.tree.Holds q k p ↔
        ∃ f ∈ facts, f.path.same q = true ∧ f.category = k ∧ f.predicate = p) ∧
      (c.compile d.body).1.tree =
        dataFacts.foldl (fun t f => mergeRules (some t) f.path (empty.add f.category f.predicate)) empty := by
  intro resolver lost body c facts d dataFacts
  have hc : c.Reached {} resolver := .within "id" _ .fresh
  obtain ⟨htree, hholds, hdata⟩ := tree_compile_eq_fold hc body
  exact ⟨hc, htree, hholds, hdata d⟩

/-- **The diagnostics of a compilation** are one for each scope that was asked for and failed, in the order in which
they ended. For data, the scopes are told by its own run. -/
theorem diagnostics_compile_eq_failures {c : Compiler ν} (hc : c.Reached config resolver) (body : Body ν) :
    (c.compile body).1.diagnostics = (body.trace config resolver).failures [] ∧
      ∀ d : Data, (c.compile d.body).1.diagnostics =
        (Event.ofScope config.maxDepth 0 [] (d.runIn config resolver 1 : Run ν)).failures [] := by
  refine ⟨?_, fun d => ?_⟩
  · rw [hc.compile_trace]
  · rw [hc.compile_trace, Data.trace_compile]

/-- One scope of each kind that fails, in a script and in data. -/
theorem diagnostics_compile_of_failing_scopes :
    let config : Config := { maxDepth := 2 }
    let resolver : Resolver := fun expr => if expr = "" then .error ⟨"empty", none⟩ else .ok [.literal expr]
    let deep : Script Unit := .within "b" .done fun _ => .within "" .done fun _ => .fail (.predicate "no")
    let body : Body Unit := .script
      (.within "a" deep fun _ => .descend (.capture "id") (.fail (.expectedBody "x")) fun _ => .done)
    let c := (Compiler.within ({ config, resolver } : Compiler Unit) "" body).2
    let d : Data := .declarations [.within "a" [.within "b" [], .within "" []],
      .authorize [.mk "$id" (.nested [.mk "read" (.nested [])]), .mk "x" (.predicate ⟨"p"⟩)], .within "" []]
    c.Reached config resolver ∧
      (c.compile body).1.diagnostics = [
        ⟨[.literal "a", .literal "b"], .depthExceeded 2⟩,
        ⟨[.literal "a"], .resolve ⟨"empty", none⟩⟩,
        ⟨[.literal "a"], .predicate "no"⟩,
        ⟨[.capture "id"], .expectedBody "x"⟩] ∧
      (c.compile d.body).1.diagnostics = [
        ⟨[.literal "a", .literal "b"], .depthExceeded 2⟩,
        ⟨[.literal "a"], .resolve ⟨"empty", none⟩⟩,
        ⟨[.capture "id"], .expectedPredicate "read"⟩,
        ⟨[], .expectedBody "x"⟩] := by
  intro config resolver deep body c d
  have hc : c.Reached config resolver := .within "" _ .fresh
  obtain ⟨hbody, hdata⟩ := diagnostics_compile_eq_failures hc body
  exact ⟨hc, hbody.trans rfl, (hdata d).trans rfl⟩

end AccessRules
