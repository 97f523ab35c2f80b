import AccessRules.Proofs.Atomicity

/-!
# Runs keep all trees pruned

A union that prunes looks only at the trees on its way along the path (`mergeTargets`), so it relies on the tree it
merges into being pruned already. In every state of every run it is: the frames on the stack hold pruned trees, also
when the body of a scope has run and its own frame has been closed (`closed_eq`), and whatever is shown, answered or
compiled is pruned (`pruned_of_reached`).
-/

namespace AccessRules

variable {ν : Type} {config : Config} {resolver : Resolver}

/-! ## Where a union merges -/

namespace RuleTree

/-- The trees that a union along a path finds on its way: the tree itself, and then what stands one step further, or
the empty tree where nothing does. -/
def mergeTargets : RuleTree → Path → List RuleTree
  | t, [] => [t]
  | t, s :: p => t :: mergeTargets (((t.branch? s.edge).map Prod.snd).getD empty) p

theorem Pruned.mergeTargets {t : RuleTree} (h : t.Pruned) (p : Path) : ∀ u ∈ t.mergeTargets p, u.Pruned := by
  induction p generalizing t with
  | nil => simpa [RuleTree.mergeTargets] using h
  | cons s p ih =>
    intro u hu
    rcases List.mem_cons.1 hu with rfl | hu
    · exact h
    · exact ih (h.getD_empty s.edge) u hu

end RuleTree

open RuleTree (mergeTargets Pruned)

/-- What is answered to a scope is pruned if the tree around it is. -/
theorem View.pruned_answer {v : View} (hv : v.tree.Pruned) {e : Event ν} {t : RuleTree} (h : v.answer e = some t) :
    t.Pruned := by
  unfold answer at h
  split at h
  · cases h
    exact hv.declareAll e.facts
  · cases h

namespace Session

/-! ## The states of a run -/

theorem Reached.pruned {s : Session ν} (h : s.Reached config resolver) : ∀ f ∈ s.frames, f.tree.Pruned := by
  cases h with
  | idle hc =>
    rw [show _ = [] from hc.idle]
    simp
  | running hrun => exact hrun.sound.pruned

theorem Reached.pruned_view {s : Session ν} (h : s.Reached config resolver) (depth : Nat) :
    (s.view depth).tree.Pruned := by
  unfold view
  split
  · next frame hframe =>
    cases depth with
    | zero => cases hframe
    | succ d => exact h.pruned frame (List.mem_of_getElem? hframe)
  · exact RuleTree.pruned_empty

/-- The session when the body of a scope has run and the frame of the scope is taken away: into its innermost frame the
tree of the scope is merged. -/
def closed (s : Session ν) (config : Config) (resolver : Resolver) (segments : Path) (body : Script ν) : Session ν :=
  ((body.run config resolver (s.depth + 1) (s.opened segments)).2.pop (s.depth + 1)).2

/-- The frames around a scope are left alone while it runs. -/
theorem closed_eq (s : Session ν) (config : Config) (resolver : Resolver) (segments : Path) (body : Script ν) :
    ∃ reported noted, s.closed config resolver segments body =
      { s with diagnostics := s.diagnostics ++ reported, notes := s.notes ++ noted } := by
  unfold closed
  rw [(body.run_follows config resolver).opened s segments, pop_opened_after]
  exact ⟨_, _, rfl⟩

/-- A union of a scope with the one around it finds pruned trees on its way. -/
theorem Reached.pruned_mergeTargets {s : Session ν} (h : s.Reached config resolver) (segments : Path)
    (body : Script ν) :
    ∀ u ∈ mergeTargets (s.closed config resolver segments body).current.tree segments, u.Pruned := by
  obtain ⟨reported, noted, hclosed⟩ := s.closed_eq config resolver segments body
  rw [hclosed]
  apply Pruned.mergeTargets
  exact h.current

theorem Reached.pruned_runScope {s : Session ν} (h : s.Reached config resolver) {opening : Opening} {body : Script ν}
    {t : RuleTree} {s' : Session ν} (hrun : s.runScope config resolver opening body = (some t, s')) : t.Pruned := by
  cases hseg : opening.segments resolver with
  | error error =>
    rw [runScope_of_error hseg] at hrun
    cases hrun
  | ok segments =>
    rw [runScope_of_ok hseg, enter_eq (body.run_follows config resolver) h.current] at hrun
    exact View.pruned_answer h.current (congrArg Prod.fst hrun)

end Session

/-! ## Compilers -/

namespace Compiler

theorem Idle.pruned_compile {c : Compiler ν} (h : c.Idle) (body : Body ν) : (c.compile body).1.tree.Pruned := by
  rw [h.compile]
  exact RuleTree.pruned_ofFacts _

theorem Idle.pruned_within {c : Compiler ν} (h : c.Idle) {expr : String} {body : Body ν} {t : RuleTree}
    {c' : Compiler ν} (hrun : c.within expr body = (some t, c')) : t.Pruned := by
  rw [h.within] at hrun
  exact View.pruned_answer RuleTree.pruned_empty (congrArg Prod.fst hrun)

end Compiler

/-- **All trees are pruned** that a run has to do with: in every state those on the stack and those that scopes show;
when a scope is closed those on the way of its union; what a scope is answered, and what is compiled. -/
theorem pruned_of_reached {s : Session ν} {c : Compiler ν} (hs : s.Reached config resolver)
    (hc : c.Reached config resolver) (body : Body ν) :
    (∀ f ∈ s.frames, f.tree.Pruned) ∧
    (∀ depth, (s.view depth).tree.Pruned) ∧
    (∀ segments, ∀ u ∈ mergeTargets (s.closed config resolver segments body.toScript).current.tree segments,
      u.Pruned) ∧
    (∀ opening t s', s.runScope config resolver opening body.toScript = (some t, s') → t.Pruned) ∧
    (c.compile body).1.tree.Pruned ∧
    ∀ expr t c', c.within expr body = (some t, c') → t.Pruned := by
  refine ⟨hs.pruned, hs.pruned_view, fun segments => hs.pruned_mergeTargets segments body.toScript, ?_,
    hc.idle.pruned_compile body, ?_⟩
  · intro opening t s' hrun
    exact hs.pruned_runScope hrun
  · intro expr t c' hrun
    exact hc.idle.pruned_within hrun

/-- Two scopes are open, and in the inner one a scope that added nothing has been closed. -/
theorem pruned_behind_hollow_scope :
    let rest : Script Unit := .descend (.literal "y") (.add .read ⟨"p"⟩ .done) fun _ => .done
    let inner : Script Unit := .add .read ⟨"p"⟩ (.within "x/y" .done fun _ => rest)
    let outer : Script Unit := .within "a" inner fun _ => .done
    let kept := RuleTree.empty.add .read ⟨"p"⟩
    let s : Session Unit := { frames := [⟨[], .empty⟩, ⟨[.literal "a"], kept⟩] }
    s.Reached {} .slash ∧ ({} : Compiler Unit).Reached {} .slash ∧
      (∀ f ∈ s.frames, f.tree.Pruned) ∧ (s.view 2).tree.Pruned ∧
      (∀ u ∈ mergeTargets (s.closed {} .slash [.literal "y"] rest).current.tree [.literal "y"], u.Pruned) ∧
      (∃ t s', s.runScope {} .slash (.directive "y") rest = (some t, s') ∧ t.Pruned) ∧
      (({} : Compiler Unit).compile (.script outer)).1.tree.Pruned ∧
      ∃ t c', ({} : Compiler Unit).within "a" (.script rest) = (some t, c') ∧ t.Pruned := by
  intro rest inner outer kept s
  have hc : ({} : Compiler Unit).Reached {} .slash := .fresh
  have houter : Reached {} .slash outer 1 (({} : Session Unit).opened []) := .compile (.script outer) hc (by decide)
  have hinner : Reached {} .slash inner 2 ((({} : Session Unit).opened []).opened [.literal "a"]) :=
    .withinBody houter rfl (by decide)
  have hs : s.Reached {} .slash := .running hinner.add.withinNext
  obtain ⟨t, s', hscope⟩ : ∃ t s', s.runScope {} .slash (.directive "y") rest = (some t, s') := ⟨_, _, rfl⟩
  obtain ⟨u, c', halone⟩ : ∃ u c', ({} : Compiler Unit).within "a" (.script rest) = (some u, c') := ⟨_, _, rfl⟩
  obtain ⟨hframes, hview, htargets, hrun, -, hwithin⟩ := pruned_of_reached hs hc (.script rest)
  obtain ⟨-, -, -, -, hcompile, -⟩ := pruned_of_reached hs hc (.script outer)
  exact ⟨hs, hc, hframes, hview 2, htargets _, ⟨t, s', hscope, hrun _ _ _ hscope⟩, hcompile, u, c', halone,
    hwithin _ _ _ halone⟩

end AccessRules
