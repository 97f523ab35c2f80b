import AccessRules.Proofs.Compiling

/-!
# The states of runs

`Reached` holds of every state in which a script is about to do its next operation, in any run of any compiler with
the settings: what is left of the script, the depth of its scope, and the session. In all of them the scope is the one
on top of the stack and every tree on the stack is pruned (`Reached.sound`).
-/

namespace AccessRules

variable {ν : Type} {config : Config} {resolver : Resolver}

namespace Session

/-- The scope at this depth is the innermost one, and all that was grown so far is pruned. -/
structure Sound (s : Session ν) (depth : Nat) : Prop where
  innermost : s.depth = depth
  isOpen : s.frames ≠ []
  pruned : ∀ f ∈ s.frames, f.tree.Pruned

theorem Sound.current {s : Session ν} {depth : Nat} (h : s.Sound depth) : s.current.tree.Pruned := by
  rcases s.frames_cases with hnil | ⟨outer, f, hc⟩
  · exact absurd hnil h.isOpen
  · rw [current_of_concat hc]
    exact h.pruned f (by simp [hc])

theorem Sound.after {s : Session ν} {depth : Nat} (h : s.Sound depth) (es : List (Event ν)) :
    (s.after es).Sound depth := by
  refine ⟨(depth_after s es).trans h.innermost, frames_after_ne_nil h.isOpen es, fun f hf => ?_⟩
  rcases s.frames_cases with hnil | ⟨outer, top, hc⟩
  · exact absurd hnil h.isOpen
  · rw [frames_after_of_concat hc, List.mem_append, List.mem_singleton] at hf
    rcases hf with hf | rfl
    · exact h.pruned f (by simp [hc, hf])
    · exact RuleTree.Pruned.declareAll (h.pruned top (by simp [hc])) _

theorem sound_opened {s : Session ν} (h : ∀ f ∈ s.frames, f.tree.Pruned) (segments : Path) :
    (s.opened segments).Sound (s.depth + 1) := by
  refine ⟨depth_opened s segments, by simp [opened, push], fun f hf => ?_⟩
  rcases List.mem_append.1 hf with hf | hf
  · exact h f hf
  · rw [List.mem_singleton.1 hf]
    exact RuleTree.pruned_empty

end Session

/-- What is left of the script of the scope at a depth, and the session it goes on from. -/
inductive Reached (config : Config) (resolver : Resolver) : Script ν → Nat → Session ν → Prop
  /-- A body that is compiled starts. -/
  | compile {c : Compiler ν} (body : Body ν) : c.Reached config resolver → 0 < config.maxDepth →
      Reached config resolver body.toScript 1 (c.session.opened [])
  /-- A body that is run by itself starts. -/
  | within {c : Compiler ν} {expr : String} {segments : Path} (body : Body ν) : c.Reached config resolver →
      resolver expr = .ok segments → 0 < config.maxDepth →
      Reached config resolver body.toScript 1 (c.session.opened segments)
  | add {category : Category} {p : Predicate} {next : Script ν} {depth : Nat} {s : Session ν} :
      Reached config resolver (.add category p next) depth s →
      Reached config resolver next depth
        (s.modifyFrame depth fun frame => { frame with tree := frame.tree.add category p })
  | note {n : ν} {next : Script ν} {depth : Nat} {s : Session ν} :
      Reached config resolver (.note n next) depth s → Reached config resolver next depth (s.addNote n)
  | look {next : View → Script ν} {depth : Nat} {s : Session ν} :
      Reached config resolver (.look next) depth s → Reached config resolver (next (s.view depth)) depth s
  | policy {next : DispatchPolicy → Script ν} {depth : Nat} {s : Session ν} :
      Reached config resolver (.policy next) depth s → Reached config resolver (next config.dispatch) depth s
  /-- The body of a scope at an expression starts. -/
  | withinBody {expr : String} {segments : Path} {body : Script ν} {next : Option RuleTree → Script ν} {depth : Nat}
      {s : Session ν} : Reached config resolver (.within expr body next) depth s → resolver expr = .ok segments →
      s.depth < config.maxDepth → Reached config resolver body (s.depth + 1) (s.opened segments)
  /-- The script goes on behind a scope at an expression. -/
  | withinNext {expr : String} {body : Script ν} {next : Option RuleTree → Script ν} {depth : Nat} {s : Session ν} :
      Reached config resolver (.within expr body next) depth s →
      Reached config resolver (next (s.enterAt config.maxDepth resolver expr (body.run config resolver)).1) depth
        (s.enterAt config.maxDepth resolver expr (body.run config resolver)).2
  /-- The body of a scope one segment further down starts. -/
  | descendBody {segment : Segment} {body : Script ν} {next : Option RuleTree → Script ν} {depth : Nat}
      {s : Session ν} : Reached config resolver (.descend segment body next) depth s → s.depth < config.maxDepth →
      Reached config resolver body (s.depth + 1) (s.opened [segment])
  /-- The script goes on behind a scope one segment further down. -/
  | descendNext {segment : Segment} {body : Script ν} {next : Option RuleTree → Script ν} {depth : Nat}
      {s : Session ν} : Reached config resolver (.descend segment body next) depth s →
      Reached config resolver (next (s.enter config.maxDepth [segment] (body.run config resolver)).1) depth
        (s.enter config.maxDepth [segment] (body.run config resolver)).2

theorem Compiler.Reached.sound_opened {c : Compiler ν} (h : c.Reached config resolver) (segments : Path) :
    (c.session.opened segments).Sound 1 := by
  have hnil : c.session.frames = [] := h.idle
  have hdepth : c.session.depth = 0 := congrArg List.length hnil
  have hs := Session.sound_opened (s := c.session) (by rw [hnil]; exact fun _ hf => nomatch hf) segments
  rwa [hdepth] at hs

/-- **The invariant of runs.** -/
theorem Reached.sound {script : Script ν} {depth : Nat} {s : Session ν} (h : Reached config resolver script depth s) :
    s.Sound depth := by
  induction h with
  | compile _ hc _ => exact hc.sound_opened []
  | within _ hc _ _ => exact hc.sound_opened _
  | @add k p _ depth s _ ih =>
    rw [← ih.innermost, Session.modifyFrame_add ih.isOpen, ih.innermost]
    exact ih.after [.added k p]
  | @note n _ _ s _ ih =>
    rw [Session.addNote_eq]
    exact ih.after [.noted n]
  | look _ ih | policy _ ih => exact ih
  | withinBody _ _ _ ih | descendBody _ _ ih => exact Session.sound_opened ih.pruned _
  | @withinNext _ body _ _ _ _ ih =>
    rw [Session.enterAt_eq (body.run_follows config resolver) ih.current]
    exact ih.after _
  | @descendNext _ body _ _ _ _ ih =>
    rw [Session.enter_eq (body.run_follows config resolver) ih.current]
    exact ih.after _

/-- The sessions of a compiler: between its uses, and in the course of a run. -/
inductive Session.Reached (config : Config) (resolver : Resolver) : Session ν → Prop
  | idle {c : Compiler ν} : c.Reached config resolver → Session.Reached config resolver c.session
  | running {script : Script ν} {depth : Nat} {s : Session ν} :
      AccessRules.Reached config resolver script depth s → Session.Reached config resolver s

theorem Session.Reached.current {s : Session ν} (h : s.Reached config resolver) : s.current.tree.Pruned := by
  cases h with
  | idle hc => exact hc.idle.pruned
  | running hrun => exact hrun.sound.current

end AccessRules
