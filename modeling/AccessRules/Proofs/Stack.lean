import AccessRules.Proofs.Reachable
import Mathlib.Logic.Relation

/-!
# The stack of a run

`ReachedThrough` tells the states of runs once more, with the segments by which each of the open scopes was opened. A
run goes on by single operations (`Script.step?`) or into the body of a scope that it opens (`Script.Opens`). Running a
script is doing its operations up to the end (`Script.run_eq_iff_steps`), so the end of a scope is one of these states.
In every state the frame of the running scope is the one on top, no more scopes are open than may be, and the path of a
frame is that of the frame below it and the segments of its scope; between the uses of a compiler no frame is left
(`stack_disciplined`).
-/

namespace AccessRules

variable {ν : Type} {config : Config} {resolver : Resolver}

/-! ## Operations -/

/-- The next operation of a script in the scope at a depth, scopes that it opens included: how the script goes on, and
the session. -/
def Script.step? (config : Config) (resolver : Resolver) : Script ν → Nat → Session ν → Option (Script ν × Session ν)
  | .done, _, _ => none
  | .fail _, _, _ => none
  | .add c p next, depth, s =>
    some (next, s.modifyFrame depth fun frame => { frame with tree := frame.tree.add c p })
  | .note n next, _, s => some (next, s.addNote n)
  | .look next, depth, s => some (next (s.view depth), s)
  | .policy next, _, s => some (next config.dispatch, s)
  | .within expr body next, _, s =>
    let (answer, s) := s.enterAt config.maxDepth resolver expr (body.run config resolver)
    some (next answer, s)
  | .descend segment body next, _, s =>
    let (answer, s) := s.enter config.maxDepth [segment] (body.run config resolver)
    some (next answer, s)

/-- Running a script is running what is left of it behind its next operation. -/
theorem Script.run_of_step? {script script' : Script ν} {depth : Nat} {s s' : Session ν}
    (h : script.step? config resolver depth s = some (script', s')) :
    script.run config resolver depth s = script'.run config resolver depth s' := by
  cases script <;> cases h <;> rfl

/-- Operations of the scope at a depth one after the other, from what is left of its script and the session to what is
left then. -/
abbrev Script.Steps (config : Config) (resolver : Resolver) (depth : Nat) :
    Script ν × Session ν → Script ν × Session ν → Prop :=
  Relation.ReflTransGen fun a b => a.1.step? config resolver depth a.2 = some b

theorem Script.run_of_steps {a b : Script ν × Session ν} {depth : Nat} (h : Steps config resolver depth a b) :
    a.1.run config resolver depth a.2 = b.1.run config resolver depth b.2 := by
  induction h with
  | refl => rfl
  | tail _ hstep ih => exact ih.trans (run_of_step? hstep)

/-- Every script comes to an end by its operations, the one that its run tells. -/
theorem Script.steps_to_end (config : Config) (resolver : Resolver) (script : Script ν) (depth : Nat) (s : Session ν) :
    Steps config resolver depth (script, s)
      (Script.orFail .done (script.run config resolver depth s).1, (script.run config resolver depth s).2) := by
  induction script generalizing s with
  | done | fail error => exact .refl
  | add c p next ih | note n next ih => exact .head rfl (ih _)
  | look next ih | policy next ih => exact .head rfl (ih _ s)
  | within expr body next _ ih | descend segment body next _ ih => exact .head rfl (ih _ _)

/-- **Running a script** is doing its operations one after the other, up to the end. -/
theorem Script.run_eq_iff_steps {script : Script ν} {depth : Nat} {s s' : Session ν} {outcome : Outcome} :
    script.run config resolver depth s = (outcome, s') ↔
      Steps config resolver depth (script, s) (Script.orFail .done outcome, s') := by
  constructor
  · intro h
    have hend := script.steps_to_end config resolver depth s
    rwa [h] at hend
  · intro h
    rw [run_of_steps h]
    cases outcome <;> rfl

/-- The next operation of a script opens a scope, if this may be opened: its segments and its body. -/
inductive Script.Opens (resolver : Resolver) : Script ν → Path → Script ν → Prop
  | within {expr : String} {segments : Path} {body : Script ν} {next : Option RuleTree → Script ν} :
      resolver expr = .ok segments → Opens resolver (.within expr body next) segments body
  | descend {segment : Segment} {body : Script ν} {next : Option RuleTree → Script ν} :
      Opens resolver (.descend segment body next) [segment] body

/-- In a sound session an operation leads where some events lead. -/
theorem Script.step?_eq_after {script script' : Script ν} {depth : Nat} {s s' : Session ν} (hs : s.Sound depth)
    (h : script.step? config resolver depth s = some (script', s')) : ∃ es, s' = s.after es := by
  cases script with
  | done | fail error => cases h
  | add c p next =>
    cases h
    rw [← hs.innermost, Session.modifyFrame_add hs.isOpen]
    exact ⟨_, rfl⟩
  | note n next => cases h; exact ⟨_, s.addNote_eq n⟩
  | look next | policy next => cases h; exact ⟨[], s.after_nil.symm⟩
  | within expr body next =>
    have hs' : (s.enterAt config.maxDepth resolver expr (body.run config resolver)).2 = s' :=
      congrArg Prod.snd (Option.some.inj h)
    rw [← hs', Session.enterAt_eq (body.run_follows config resolver) hs.current]
    exact ⟨_, rfl⟩
  | descend segment body next =>
    have hs' : (s.enter config.maxDepth [segment] (body.run config resolver)).2 = s' :=
      congrArg Prod.snd (Option.some.inj h)
    rw [← hs', Session.enter_eq (body.run_follows config resolver) hs.current]
    exact ⟨_, rfl⟩

/-! ## States with the scopes that are open -/

/-- A state of a run, as in `Reached`, with the segments by which the open scopes were opened, outermost first. -/
inductive ReachedThrough (config : Config) (resolver : Resolver) : List Path → Script ν → Nat → Session ν → Prop
  | compile {c : Compiler ν} (body : Body ν) : c.Reached config resolver → 0 < config.maxDepth →
      ReachedThrough config resolver [[]] body.toScript 1 (c.session.opened [])
  | within {c : Compiler ν} {expr : String} {segments : Path} (body : Body ν) : c.Reached config resolver →
      resolver expr = .ok segments → 0 < config.maxDepth →
      ReachedThrough config resolver [segments] body.toScript 1 (c.session.opened segments)
  /-- The scope goes on. -/
  | step {opened : List Path} {script script' : Script ν} {depth : Nat} {s s' : Session ν} :
      ReachedThrough config resolver opened script depth s →
      script.step? config resolver depth s = some (script', s') →
      ReachedThrough config resolver opened script' depth s'
  /-- The body of a scope in it starts. -/
  | enter {opened : List Path} {script body : Script ν} {segments : Path} {depth : Nat} {s : Session ν} :
      ReachedThrough config resolver opened script depth s → script.Opens resolver segments body →
      s.depth < config.maxDepth →
      ReachedThrough config resolver (opened ++ [segments]) body (s.depth + 1) (s.opened segments)

/-- Every state of a run is reached through some scopes. -/
theorem Reached.through {script : Script ν} {depth : Nat} {s : Session ν} (h : Reached config resolver script depth s) :
    ∃ opened, ReachedThrough config resolver opened script depth s := by
  induction h with
  | compile body hc hl => exact ⟨_, .compile body hc hl⟩
  | within body hc hexpr hl => exact ⟨_, .within body hc hexpr hl⟩
  | add _ ih | note _ ih | look _ ih | policy _ ih | withinNext _ ih | descendNext _ ih =>
    obtain ⟨opened, ih⟩ := ih
    exact ⟨opened, .step ih rfl⟩
  | withinBody _ hexpr hl ih =>
    obtain ⟨opened, ih⟩ := ih
    exact ⟨_, .enter ih (.within hexpr) hl⟩
  | descendBody _ hl ih =>
    obtain ⟨opened, ih⟩ := ih
    exact ⟨_, .enter ih .descend hl⟩

/-- Operations of a scope leave the scopes that are open as they are. -/
theorem ReachedThrough.steps {opened : List Path} {a b : Script ν × Session ν} {depth : Nat}
    (h : ReachedThrough config resolver opened a.1 depth a.2) (hsteps : Script.Steps config resolver depth a b) :
    ReachedThrough config resolver opened b.1 depth b.2 := by
  induction hsteps with
  | refl => exact h
  | tail _ hstep ih => exact .step ih hstep

namespace Session

/-! ## Paths on the stack -/

/-- The absolute path of the scope at a depth. -/
def path? (s : Session ν) (depth : Nat) : Option Path := (s.frame? depth).map Frame.path

theorem path?_succ (s : Session ν) (d : Nat) : s.path? (d + 1) = (s.frames.map Frame.path)[d]? := by
  simp [path?, frame?]

theorem path?_after (s : Session ν) (es : List (Event ν)) (depth : Nat) : (s.after es).path? depth = s.path? depth := by
  have hpaths : (s.after es).frames.map Frame.path = s.frames.map Frame.path := by
    rcases s.frames_cases with hnil | ⟨outer, f, hc⟩
    · rw [frames_after_of_nil hnil, hnil]
    · rw [frames_after_of_concat hc, hc, List.map_append, List.map_append]
      rfl
  cases depth with
  | zero => rfl
  | succ d => rw [path?_succ, path?_succ, hpaths]

theorem path?_opened_of_le {s : Session ν} {d : Nat} (hd : d ≤ s.depth) (segments : Path) :
    (s.opened segments).path? d = s.path? d := by
  cases d with
  | zero => rfl
  | succ d =>
    have hlt : d < (s.frames.map Frame.path).length := by
      rw [List.length_map]
      exact hd
    rw [path?_succ, path?_succ]
    simp only [opened, push, List.map_append]
    exact List.getElem?_append_left hlt

theorem path?_opened_top (s : Session ν) (segments : Path) :
    (s.opened segments).path? (s.depth + 1) = some (s.currentPath ++ segments) := by
  rw [path?_succ]
  simp [opened, push, depth]

theorem path?_depth (s : Session ν) : (s.path? s.depth).getD [] = s.currentPath := by
  rcases s.frames_cases with hnil | ⟨outer, f, hc⟩
  · simp [path?, frame?, depth, currentPath, top?, hnil]
  · have hdepth : s.depth = outer.length + 1 := by simp [depth, hc]
    rw [hdepth, path?_succ]
    simp [currentPath, top?, hc]

/-- The open scopes were opened with these segments: the path of each is that of the one below it, and they. -/
structure Stacked (opened : List Path) (s : Session ν) : Prop where
  length : opened.length = s.depth
  path : ∀ d segments, opened[d]? = some segments → s.path? (d + 1) = some ((s.path? d).getD [] ++ segments)

theorem stacked_nil {s : Session ν} (h : s.frames = []) : Stacked [] s := ⟨congrArg List.length h.symm, nofun⟩

theorem Stacked.after {opened : List Path} {s : Session ν} (h : Stacked opened s) (es : List (Event ν)) :
    Stacked opened (s.after es) := by
  constructor
  · rw [depth_after, h.length]
  · intro d segments hd
    rw [path?_after, path?_after]
    exact h.path d segments hd

theorem Stacked.opened {opened : List Path} {s : Session ν} (h : Stacked opened s) (segments : Path) :
    Stacked (opened ++ [segments]) (s.opened segments) := by
  constructor
  · rw [depth_opened, List.length_append, h.length]
    rfl
  · intro d segs hd
    rcases Nat.lt_or_ge d opened.length with hlt | hge
    · have hle : d + 1 ≤ s.depth := h.length ▸ hlt
      rw [List.getElem?_append_left hlt] at hd
      rw [path?_opened_of_le hle, path?_opened_of_le (Nat.le_of_succ_le hle)]
      exact h.path d segs hd
    · -- This is the scope that has just been opened.
      have hlt : d < opened.length + 1 := by simpa using (List.getElem?_eq_some_iff.1 hd).1
      obtain rfl : d = s.depth := by have := h.length; omega
      rw [← h.length, List.getElem?_concat_length] at hd
      obtain rfl := Option.some.inj hd
      rw [path?_opened_top, path?_opened_of_le (Nat.le_refl _), path?_depth]

end Session

/-! ## The invariant -/

/-- What a state of a run is like, in which the open scopes were opened with these segments. -/
structure Disciplined (config : Config) (opened : List Path) (s : Session ν) (depth : Nat) : Prop where
  sound : s.Sound depth
  within : depth ≤ config.maxDepth
  stacked : s.Stacked opened

theorem ReachedThrough.disciplined {opened : List Path} {script : Script ν} {depth : Nat} {s : Session ν}
    (h : ReachedThrough config resolver opened script depth s) : Disciplined config opened s depth := by
  induction h with
  | compile _ hc hl => exact ⟨hc.sound_opened [], hl, (Session.stacked_nil hc.idle).opened []⟩
  | within _ hc _ hl => exact ⟨hc.sound_opened _, hl, (Session.stacked_nil hc.idle).opened _⟩
  | step _ hstep ih =>
    obtain ⟨es, rfl⟩ := Script.step?_eq_after ih.sound hstep
    exact ⟨ih.sound.after es, ih.within, ih.stacked.after es⟩
  | enter _ _ hl ih => exact ⟨Session.sound_opened ih.sound.pruned _, hl, ih.stacked.opened _⟩

/-- The scope at the depth of the stack has the frame on top, and changes made in the scope are made there. -/
theorem Session.Sound.top {s : Session ν} {depth : Nat} (h : s.Sound depth) :
    ∃ f, s.frame? depth = some f ∧ s.top? = some f ∧
      ∀ change, (s.modifyFrame depth change).frames = s.frames.dropLast ++ [change f] := by
  rcases s.frames_cases with hnil | ⟨outer, f, hc⟩
  · exact absurd hnil h.isOpen
  · have hdepth : depth = outer.length + 1 := by
      rw [← h.innermost]
      simp [Session.depth, hc]
    subst hdepth
    refine ⟨f, by simp [frame?, hc], by simp [top?, hc], fun change => ?_⟩
    simp [modifyFrame, hc, List.modify_eq_take_drop]

/-- Closing the scope at the depth of the stack takes away the frame on top, and no other. -/
theorem Session.Sound.pop {s : Session ν} {depth : Nat} (h : s.Sound depth) :
    ∃ f, s.top? = some f ∧ s.pop depth = (f, { s with frames := s.frames.dropLast }) := by
  rcases s.frames_cases with hnil | ⟨outer, f, hc⟩
  · exact absurd hnil h.isOpen
  · have htop : s.top? = some f := by simp [top?, hc]
    have htake : s.frames.take depth = s.frames := List.take_of_length_le (Nat.le_of_eq h.innermost)
    refine ⟨f, htop, ?_⟩
    unfold Session.pop
    rw [htake]
    simp [hc]

/-- **The stack is disciplined.** Whenever a scope does something, its depth is the number of open scopes, from one up
to the limit, and its frame is the one on top; each frame has the path of the one below it and the segments of its own
scope. However the scope ends, this is so again where it ends, with the same scopes open, and closing it takes away its
frame and no other. After compiling a body or running one by itself no frame is left. -/
theorem stack_disciplined {script : Script ν} {depth : Nat} {s : Session ν} {c : Compiler ν}
    (h : Reached config resolver script depth s) (hc : c.Reached config resolver) (body : Body ν) (expr : String) :
    (s.depth = depth ∧ 1 ≤ depth ∧ depth ≤ config.maxDepth) ∧
    (∃ f, s.frame? depth = some f ∧ s.top? = some f ∧
      ∀ change, (s.modifyFrame depth change).frames = s.frames.dropLast ++ [change f]) ∧
    (∃ opened, ReachedThrough config resolver opened script depth s) ∧
    (∀ opened, ReachedThrough config resolver opened script depth s → opened.length = depth ∧
      ∀ d segments, opened[d]? = some segments → s.path? (d + 1) = some ((s.path? d).getD [] ++ segments)) ∧
    (∀ outcome s', script.run config resolver depth s = (outcome, s') →
      (∀ opened, ReachedThrough config resolver opened script depth s →
        ReachedThrough config resolver opened (Script.orFail .done outcome) depth s') ∧
      ∃ f, s'.top? = some f ∧ s'.pop depth = (f, { s' with frames := s'.frames.dropLast })) ∧
    (c.compile body).2.session.frames = [] ∧ (c.within expr body).2.session.frames = [] := by
  obtain ⟨opened, hthrough⟩ := h.through
  obtain ⟨hsound, hwithin, -⟩ := hthrough.disciplined
  have hpos : 0 < s.depth := List.length_pos_iff.2 hsound.isOpen
  refine ⟨⟨hsound.innermost, hsound.innermost ▸ hpos, hwithin⟩, hsound.top, ⟨opened, hthrough⟩, ?_, ?_, ?_, ?_⟩
  · intro opened' hthrough'
    obtain ⟨-, -, hstacked⟩ := hthrough'.disciplined
    exact ⟨hstacked.length.trans hsound.innermost, hstacked.path⟩
  · intro outcome s' hrun
    have hsteps := Script.run_eq_iff_steps.1 hrun
    exact ⟨fun _ hthrough' => hthrough'.steps hsteps, (hthrough.steps hsteps).disciplined.sound.pop⟩
  · exact (Compiler.Reached.compile body hc).idle
  · exact (Compiler.Reached.within expr body hc).idle

/-- In a scope two steps below the root, whose body is going to fail. What it has added by then is in the frame that is
taken away. -/
theorem stack_disciplined_in_inner_scope :
    let inner : Script Unit := .add .read ⟨"p"⟩ (.fail (.predicate "no"))
    let outer : Script Unit := .add .write ⟨"q"⟩ (.within "a/$id" inner fun _ => .done)
    let root : Frame := ⟨[], RuleTree.empty.add .write ⟨"q"⟩⟩
    let s : Session Unit := { frames := [root, ⟨[.literal "a", .capture "id"], .empty⟩] }
    let ended : Session Unit :=
      { frames := [root, ⟨[.literal "a", .capture "id"], RuleTree.empty.add .read ⟨"p"⟩⟩] }
    let c : Compiler Unit := {}
    Reached {} .slash inner 2 s ∧ c.Reached {} .slash ∧
      (s.depth = 2 ∧ 1 ≤ 2 ∧ 2 ≤ ({} : Config).maxDepth) ∧
      (∃ f, s.frame? 2 = some f ∧ s.top? = some f ∧
        ∀ change, (s.modifyFrame 2 change).frames = s.frames.dropLast ++ [change f]) ∧
      (∃ opened, ReachedThrough {} .slash opened inner 2 s) ∧
      (∀ opened, ReachedThrough {} .slash opened inner 2 s → opened.length = 2 ∧
        ∀ d segments, opened[d]? = some segments → s.path? (d + 1) = some ((s.path? d).getD [] ++ segments)) ∧
      inner.run {} .slash 2 s = (.error (.predicate "no"), ended) ∧
      (∀ opened, ReachedThrough {} .slash opened inner 2 s →
        ReachedThrough {} .slash opened (.fail (.predicate "no")) 2 ended) ∧
      (∃ f, ended.top? = some f ∧ ended.pop 2 = (f, { frames := [root] })) ∧
      (c.compile (.script outer)).2.session.frames = [] ∧ (c.within "a" (.script inner)).2.session.frames = [] := by
  intro inner outer root s ended c
  have hc : c.Reached {} .slash := .fresh
  have houter : Reached {} .slash outer 1 (c.session.opened []) := .compile (.script outer) hc (by decide)
  have hresolves : Resolver.slash "a/$id" = .ok [.literal "a", .capture "id"] := rfl
  have hinner : Reached {} .slash inner 2 s := houter.add.withinBody hresolves (by decide)
  have hrun : inner.run {} .slash 2 s = (.error (.predicate "no"), ended) := rfl
  obtain ⟨hdepth, htop, hthrough, hpaths, hends, hcompile, -⟩ := stack_disciplined hinner hc (.script outer) "a"
  obtain ⟨-, -, -, -, -, -, hwithin⟩ := stack_disciplined hinner hc (.script inner) "a"
  obtain ⟨hended, hpop⟩ := hends _ _ hrun
  exact ⟨hinner, hc, hdepth, htop, hthrough, hpaths, hrun, hended, hpop, hcompile, hwithin⟩

end AccessRules
