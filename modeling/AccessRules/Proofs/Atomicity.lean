import AccessRules.Proofs.Reachable

/-!
# Scopes are atomic and local

However the body of a scope runs, the scope as a whole either fails and leaves the frames as they were, or completes
and changes one tree, that of the scope around it (`runScope_atomic`).
-/

namespace AccessRules

open RuleTree

variable {ν : Type} {config : Config} {resolver : Resolver}

/-- How a scope is asked for. -/
inductive Opening where
  | expression (expr : String)
  /-- By the tag of a directive, which is one step down. -/
  | directive (tag : String)

/-- The segments between a scope and the one around it. -/
def Opening.segments (resolver : Resolver) : Opening → Except ResolveError Path
  | expression expr => resolver expr
  | directive tag => .ok [.ofTag tag]

/-- Run a body in a scope that is asked for in either way. -/
def Session.runScope (s : Session ν) (config : Config) (resolver : Resolver) (opening : Opening) (body : Script ν) :
    Option RuleTree × Session ν :=
  match opening with
  | .expression expr => s.enterAt config.maxDepth resolver expr (body.run config resolver)
  | .directive tag => s.enter config.maxDepth [.ofTag tag] (body.run config resolver)

namespace Session

theorem runScope_of_error {s : Session ν} {opening : Opening} {error : ResolveError}
    (h : opening.segments resolver = .error error) (body : Script ν) :
    s.runScope config resolver opening body = (none, s.report s.currentPath (.resolve error)) := by
  cases opening with
  | directive tag => cases h
  | expression expr =>
    show s.enterAt config.maxDepth resolver expr _ = _
    unfold enterAt
    rw [show resolver expr = .error error from h]

theorem runScope_of_ok {s : Session ν} {opening : Opening} {segments : Path}
    (h : opening.segments resolver = .ok segments) (body : Script ν) :
    s.runScope config resolver opening body = s.enter config.maxDepth segments (body.run config resolver) := by
  cases opening with
  | directive tag => cases h; rfl
  | expression expr =>
    show s.enterAt config.maxDepth resolver expr _ = _
    unfold enterAt
    rw [show resolver expr = .ok segments from h]

/-- A scope that fails changes nothing but what is reported and noted. -/
theorem after_of_failure (s : Session ν) {e : Event ν} (hfacts : e.facts = [])
    (hfails : e.failures s.current.path ≠ []) :
    ∃ reported noted, reported ≠ [] ∧
      s.after [e] = { s with diagnostics := s.diagnostics ++ reported, notes := s.notes ++ noted } :=
  ⟨e.failures s.current.path, e.notes, hfails, after_of_facts_nil s hfacts⟩

/-- Declaring the facts of a scope that completes unites a tree with that of the scope, and prunes. -/
theorem foldl_declare_scope {A : RuleTree} (hA : A.Pruned) (segments : Path) (events : List (Event ν)) :
    (Event.scope segments events (.ok ())).facts.foldl declare A =
      (mergeRules (some A) segments (ofFacts (Event.factsOf events))).prune := by
  show ((Event.factsOf events).map (Fact.below segments)).foldl declare A = _
  rw [foldl_declare_below hA, mergePruned_eq_prune hA]
  rfl

/-- A scope that completes changes the tree of the innermost frame, if there is one. -/
theorem after_of_completion {s : Session ν} (hs : s.current.tree.Pruned) (segments : Path) (events : List (Event ν)) :
    ∃ reported noted, s.after [.scope segments events (.ok ())] =
      ⟨s.frames.dropLast ++ (s.top?.map fun parent => { parent with
          tree := (mergeRules (some s.current.tree) segments (ofFacts (Event.factsOf events))).prune }).toList,
        s.diagnostics ++ reported, s.notes ++ noted⟩ := by
  refine ⟨_, _, congrArg (fun frames => Session.mk frames _ _) ?_⟩
  rcases s.frames_cases with hnil | ⟨outer, parent, hc⟩
  · simp [top?, hnil]
  · rw [current_of_concat hc] at hs ⊢
    simp only [top?, hc, List.getLast?_concat, Option.map_some, Event.factsOf_singleton]
    rw [foldl_declare_scope hs]

end Session

/-- **Atomicity.** In every state that is reached, a scope that fails leaves all frames as they were and reports at
least once; a scope that completes has run its body in one frame above those that were there, and changes nothing but
the tree of the scope around it, which is united with the tree of that frame, and pruned. -/
theorem runScope_atomic {s : Session ν} (h : s.Reached config resolver) (opening : Opening) (body : Body ν) :
    (∀ s', s.runScope config resolver opening body.toScript = (none, s') →
      ∃ reported noted, reported ≠ [] ∧
        s' = { s with diagnostics := s.diagnostics ++ reported, notes := s.notes ++ noted }) ∧
    (∀ t s', s.runScope config resolver opening body.toScript = (some t, s') →
      ∃ segments ran leaf reported noted,
        opening.segments resolver = .ok segments ∧
        body.toScript.run config resolver (s.depth + 1) (s.opened segments) = (.ok (), ran) ∧
        ran.frames = s.frames ++ [⟨s.currentPath ++ segments, leaf⟩] ∧
        t = (mergeRules (some s.current.tree) segments leaf).prune ∧
        s'.depth = s.depth ∧
        s' = ⟨s.frames.dropLast ++ (s.top?.map fun parent => { parent with tree := t }).toList,
          s.diagnostics ++ reported, s.notes ++ noted⟩) := by
  have hs := h.current
  have hbody := body.toScript.run_follows config resolver
  cases hseg : opening.segments resolver with
  | error error =>
    rw [Session.runScope_of_error hseg]
    refine ⟨?_, by rintro t s' ⟨⟩⟩
    rintro s' ⟨⟩
    exact ⟨[⟨s.currentPath, .resolve error⟩], [], List.cons_ne_nil _ _, by simp [Session.report]⟩
  | ok segments =>
    rw [Session.runScope_of_ok hseg]
    by_cases hl : config.maxDepth ≤ s.depth
    · rw [Session.enter_refused s hl]
      refine ⟨?_, by rintro t s' ⟨⟩⟩
      rintro s' ⟨⟩
      exact s.after_of_failure rfl (List.cons_ne_nil _ _)
    · have hrun := hbody.opened s segments
      rw [Session.enter_opened hbody hs hl]
      generalize body.toScript.trace config resolver (s.current.inside segments) = trace at hrun ⊢
      obtain ⟨events, outcome⟩ := trace
      cases outcome with
      | error error =>
        refine ⟨?_, by rintro t s' ⟨⟩⟩
        rintro s' ⟨⟩
        exact s.after_of_failure rfl (List.append_ne_nil_of_right_ne_nil _ (List.cons_ne_nil _ _))
      | ok =>
        refine ⟨fun s' hnone => ?_, ?_⟩
        · cases congrArg Prod.fst hnone
        rintro t s' ⟨⟩
        obtain ⟨reported, noted, hafter⟩ := Session.after_of_completion hs segments events
        refine ⟨segments, _, _, reported, noted, rfl, hrun, s.frames_opened_after segments events,
          Session.foldl_declare_scope hs segments events, Session.depth_after s _, hafter.trans ?_⟩
        rw [← Session.foldl_declare_scope hs segments events]
        rfl

/-- The same scope with a body that fails and with one that completes. -/
theorem runScope_in_open_scope :
    let s : Session Unit := ({} : Session Unit).opened []
    let tree := empty.add .read ⟨"p"⟩
    s.Reached {} .slash ∧
      (∃ s', s.runScope {} .slash (.directive "a") (.add .read ⟨"p"⟩ (.fail (.predicate "no"))) = (none, s') ∧
        s'.frames = s.frames ∧ s'.diagnostics ≠ []) ∧
      ∃ t s', s.runScope {} .slash (.directive "a") (.add .read ⟨"p"⟩ .done) = (some t, s') ∧
        t = (mergeRules (some empty) [.ofTag "a"] tree).prune ∧ s'.frames = [⟨[], t⟩] := by
  have h : (({} : Session Unit).opened []).Reached {} .slash :=
    .running (.compile (c := {}) (.script .done) .fresh (by decide))
  obtain ⟨reported, noted, hne, hs'⟩ :=
    (runScope_atomic h (.directive "a") (.script (.add .read ⟨"p"⟩ (.fail (.predicate "no"))))).1 _ rfl
  obtain ⟨segments, ran, leaf, reported', noted', hseg, hrun, hframes, ht, -, hs''⟩ :=
    (runScope_atomic h (.directive "a") (.script (.add .read ⟨"p"⟩ .done))).2 _ _ rfl
  refine ⟨h, ⟨_, rfl, ?_, ?_⟩, _, _, rfl, ?_, ?_⟩
  · rw [hs']
  · rw [hs']
    exact hne
  · cases hseg
    cases hrun
    cases hframes
    exact ht
  · rw [hs'']
    rfl

end AccessRules
