import AccessRules.Proofs.Trace

/-!
# Runs follow traces

A session holds a stack of frames, each with a tree of its own that is merged into the next one when its scope
completes; a trace knows of no stack and declares the surviving facts one by one. Both tell the same: from a session
whose trees are pruned, a script ends as its trace says, and leaves the session to which the events of the trace lead
(`Script.run_follows`). So does a single scope, whether one is open around it or not (`enter_eq`, `enterAt_eq`).
-/

namespace AccessRules

namespace Event

variable {ν : Type}

@[simp] theorem factsOf_singleton (e : Event ν) : factsOf [e] = e.facts := List.append_nil _

@[simp] theorem failuresOf_singleton (path : Path) (e : Event ν) : failuresOf path [e] = e.failures path :=
  List.append_nil _

@[simp] theorem notesOf_singleton (e : Event ν) : notesOf [e] = e.notes := List.append_nil _

end Event

namespace Session

variable {ν : Type}

/-- What the innermost scope sees. -/
def current (s : Session ν) : View := s.view s.depth

/-- The session after events in its innermost scope: the facts are declared in the frame on top. -/
def after (s : Session ν) (es : List (Event ν)) : Session ν where
  frames := s.frames.dropLast ++ (s.frames.getLast?.map fun f =>
    { f with tree := (Event.factsOf es).foldl RuleTree.declare f.tree }).toList
  diagnostics := s.diagnostics ++ Event.failuresOf s.current.path es
  notes := s.notes ++ Event.notesOf es

theorem frames_cases (s : Session ν) : s.frames = [] ∨ ∃ outer f, s.frames = outer ++ [f] := by
  simpa using s.frames.eq_nil_or_concat

theorem current_of_nil {s : Session ν} (h : s.frames = []) : s.current = View.outside := by
  unfold current view depth
  rw [h]
  rfl

theorem current_of_concat {s : Session ν} {outer : List Frame} {f : Frame} (h : s.frames = outer ++ [f]) :
    s.current = ⟨f.path, s.depth, f.tree⟩ := by
  unfold current view depth
  rw [h, List.length_append, List.length_singleton]
  simp [frame?, h]

theorem depth_current (s : Session ν) : s.current.depth = s.depth := by
  unfold current view
  split <;> rfl

theorem currentPath_eq (s : Session ν) : s.currentPath = s.current.path := by
  rcases s.frames_cases with h | ⟨outer, f, h⟩
  · rw [current_of_nil h]
    simp [currentPath, top?, h, View.outside]
  · rw [current_of_concat h]
    simp [currentPath, top?, h]

theorem frames_after_of_nil {s : Session ν} (h : s.frames = []) (es : List (Event ν)) : (s.after es).frames = [] := by
  simp [after, h]

theorem frames_after_of_concat {s : Session ν} {outer : List Frame} {f : Frame} (h : s.frames = outer ++ [f])
    (es : List (Event ν)) :
    (s.after es).frames = outer ++ [{ f with tree := (Event.factsOf es).foldl RuleTree.declare f.tree }] := by
  simp [after, h]

theorem depth_after (s : Session ν) (es : List (Event ν)) : (s.after es).depth = s.depth := by
  unfold depth
  rcases s.frames_cases with h | ⟨outer, f, h⟩
  · rw [frames_after_of_nil h, h]
  · rw [frames_after_of_concat h, h, List.length_append, List.length_append]
    rfl

theorem current_after {s : Session ν} (h : s.frames ≠ []) (e : Event ν) :
    (s.after [e]).current = s.current.after e := by
  rcases s.frames_cases with hnil | ⟨outer, f, hc⟩
  · exact absurd hnil h
  · rw [current_of_concat hc, current_of_concat (frames_after_of_concat hc [e]), depth_after, Event.factsOf_singleton]
    rfl

/-- Events from which no fact survives leave the frames alone. -/
theorem after_of_facts_nil (s : Session ν) {e : Event ν} (h : e.facts = []) :
    s.after [e] = { s with
      diagnostics := s.diagnostics ++ e.failures s.current.path
      notes := s.notes ++ e.notes } := by
  have hframes : (s.after [e]).frames = s.frames := by
    rcases s.frames_cases with hnil | ⟨outer, f, hc⟩
    · rw [frames_after_of_nil hnil, hnil]
    · rw [frames_after_of_concat hc, hc, Event.factsOf_singleton, h]
      rfl
  have hdiagnostics : (s.after [e]).diagnostics = s.diagnostics ++ e.failures s.current.path :=
    congrArg _ (Event.failuresOf_singleton _ e)
  have hnotes : (s.after [e]).notes = s.notes ++ e.notes := congrArg _ (Event.notesOf_singleton e)
  rw [← hframes, ← hdiagnostics, ← hnotes]

/-! ## One scope -/

theorem current_push (s : Session ν) (path : Path) : (s.push path).current = ⟨path, s.depth + 1, .empty⟩ := by
  rw [current_of_concat (s := s.push path) rfl]
  simp [depth, push]

/-- Put a frame on top for a scope, `segments` below the innermost one. -/
def opened (s : Session ν) (segments : Path) : Session ν := s.push (s.currentPath ++ segments)

theorem depth_opened (s : Session ν) (segments : Path) : (s.opened segments).depth = s.depth + 1 := by
  simp [opened, depth, push]

theorem current_opened (s : Session ν) (segments : Path) : (s.opened segments).current = s.current.inside segments := by
  rw [opened, current_push, currentPath_eq, View.inside, depth_current]

theorem frames_opened_after (s : Session ν) (segments : Path) (events : List (Event ν)) :
    ((s.opened segments).after events).frames =
      s.frames ++ [⟨s.currentPath ++ segments, .ofFacts (Event.factsOf events)⟩] :=
  frames_after_of_concat (s := s.opened segments) rfl events

/-- Closing a scope gives its frame and leaves those that were there before it. -/
theorem pop_of_concat {s : Session ν} {outer : List Frame} {f : Frame} (h : s.frames = outer ++ [f]) :
    s.pop (outer.length + 1) = (f, { s with frames := outer }) := by
  have htake : s.frames.take (outer.length + 1) = outer ++ [f] := by
    rw [h]
    exact List.take_of_length_le (by simp)
  unfold pop
  simp [htake]

/-- What is left of a scope when it is closed: its tree, and what it reported and noted. -/
theorem pop_opened_after (s : Session ν) (segments : Path) (events : List (Event ν)) :
    ((s.opened segments).after events).pop (s.depth + 1) =
      (⟨s.currentPath ++ segments, .ofFacts (Event.factsOf events)⟩,
        { s with
          diagnostics := s.diagnostics ++ Event.failuresOf (s.current.path ++ segments) events
          notes := s.notes ++ Event.notesOf events }) := by
  have hpath : (s.opened segments).current.path = s.current.path ++ segments := by rw [current_opened]; rfl
  refine (pop_of_concat (frames_opened_after s segments events)).trans ?_
  simp only [after, hpath]
  rfl

/-- Adopting the tree of a scope declares its facts below the segments of the scope. -/
theorem adopt_eq {s : Session ν} (hs : s.current.tree.Pruned) (segments : Path) (facts : List Fact) :
    s.adopt segments (.ofFacts facts) =
      ((facts.map (Fact.below segments)).foldl RuleTree.declare s.current.tree,
        { s with frames := s.frames.dropLast ++ (s.frames.getLast?.map fun f =>
            { f with tree := (facts.map (Fact.below segments)).foldl RuleTree.declare f.tree }).toList }) := by
  rw [RuleTree.foldl_declare_below hs]
  rcases s.frames_cases with h | ⟨outer, f, h⟩
  · rw [current_of_nil h]
    cases s
    cases h
    rfl
  · rw [current_of_concat h] at hs ⊢
    simp only [adopt, top?, h, List.getLast?_concat, List.dropLast_concat, Option.map_some, Option.toList_some]
    rw [RuleTree.foldl_declare_below hs]

/-- A body does what the trace says, from any session in which a scope is open on a pruned tree. -/
def Follows (body : Nat → Session ν → Outcome × Session ν) (trace : View → List (Event ν) × Outcome) : Prop :=
  ∀ s : Session ν, s.frames ≠ [] → s.current.tree.Pruned →
    body s.depth s = ((trace s.current).2, s.after (trace s.current).1)

variable {body : Nat → Session ν → Outcome × Session ν} {trace : View → List (Event ν) × Outcome}

/-- The body of a scope that is opened, in its fresh frame. -/
theorem Follows.opened (hbody : Follows body trace) (s : Session ν) (segments : Path) :
    body (s.depth + 1) (s.opened segments) =
      ((trace (s.current.inside segments)).2, (s.opened segments).after (trace (s.current.inside segments)).1) := by
  have hrun := hbody (s.opened segments) (by simp [Session.opened, push])
    (by rw [current_opened]; exact RuleTree.pruned_empty)
  rwa [depth_opened, current_opened] at hrun

/-- While as many scopes as may be are open, asking for another one is reported and changes nothing else. -/
theorem enter_refused (s : Session ν) {limit : Nat} (hl : limit ≤ s.depth) (segments : Path) :
    s.enter limit segments body = (none, s.after [.refused segments limit]) := by
  unfold enter
  rw [if_pos hl, after_of_facts_nil s rfl, currentPath_eq]
  show (none, _) = (none, _)
  simp [report, Event.failures, Event.notes]

/-- A scope that may be opened runs its body in a fresh frame. -/
theorem enter_opened (hbody : Follows body trace) {s : Session ν} (hs : s.current.tree.Pruned) {limit : Nat}
    (hl : ¬ limit ≤ s.depth) (segments : Path) :
    s.enter limit segments body =
      (s.current.answer (.scope segments (trace (s.current.inside segments)).1 (trace (s.current.inside segments)).2),
        s.after [.scope segments (trace (s.current.inside segments)).1 (trace (s.current.inside segments)).2]) := by
  have hrun := hbody.opened s segments
  generalize trace (s.current.inside segments) = run at hrun ⊢
  obtain ⟨events, outcome⟩ := run
  have hopen : s.push (s.currentPath ++ segments) = s.opened segments := rfl
  unfold enter
  rw [if_neg hl]
  simp only [hopen, depth_opened, hrun, pop_opened_after]
  rw [currentPath_eq]
  cases outcome with
  | error error =>
    rw [after_of_facts_nil s rfl]
    simp [View.answer, Event.completes, Event.failures, Event.notes, report]
  | ok =>
    -- What the body reported and noted is on the session already, which still shows the frames around the scope.
    have hclosed := adopt_eq (s := { s with
      diagnostics := s.diagnostics ++ Event.failuresOf (s.current.path ++ segments) events
      notes := s.notes ++ Event.notesOf events }) hs segments (Event.factsOf events)
    simp only [hclosed]
    refine Prod.ext rfl ?_
    simp only [after, Event.factsOf_singleton, Event.failuresOf_singleton, Event.notesOf_singleton]
    rfl

/-- A scope does what its event says. -/
theorem enter_eq (hbody : Follows body trace) {s : Session ν} (hs : s.current.tree.Pruned) (limit : Nat)
    (segments : Path) :
    s.enter limit segments body =
      (s.current.answer (.ofScope limit s.current.depth segments (trace (s.current.inside segments))),
        s.after [.ofScope limit s.current.depth segments (trace (s.current.inside segments))]) := by
  rw [depth_current]
  unfold Event.ofScope
  split
  · next hl => exact enter_refused s hl segments
  · next hl => exact enter_opened hbody hs hl segments

/-- So does a scope at an expression. -/
theorem enterAt_eq (hbody : Follows body trace) {s : Session ν} (hs : s.current.tree.Pruned) (config : Config)
    (resolver : Resolver) (expr : String) :
    s.enterAt config.maxDepth resolver expr body =
      (s.current.answer (s.current.asked config resolver expr trace),
        s.after [s.current.asked config resolver expr trace]) := by
  unfold enterAt View.asked
  cases resolver expr with
  | error error =>
    rw [currentPath_eq, after_of_facts_nil s rfl]
    simp [View.answer, Event.completes, Event.failures, Event.notes, report]
  | ok segments => exact enter_eq hbody hs config.maxDepth segments

/-! ## Events one after the other -/

theorem frames_after_ne_nil {s : Session ν} (h : s.frames ≠ []) (es : List (Event ν)) : (s.after es).frames ≠ [] := by
  rcases s.frames_cases with hnil | ⟨outer, f, hc⟩
  · exact absurd hnil h
  · rw [frames_after_of_concat hc]
    exact List.append_ne_nil_of_right_ne_nil _ (List.cons_ne_nil _ _)

@[simp] theorem after_nil (s : Session ν) : s.after [] = s := by
  obtain ⟨frames, diagnostics, notes⟩ := s
  rcases List.eq_nil_or_concat frames with rfl | ⟨outer, f, rfl⟩ <;> simp [after, Event.factsOf, Event.failuresOf,
    Event.notesOf]

theorem after_cons (s : Session ν) (e : Event ν) (es : List (Event ν)) :
    s.after (e :: es) = (s.after [e]).after es := by
  have hpath : (s.after [e]).current.path = s.current.path := by
    rcases s.frames_cases with hnil | ⟨outer, f, hc⟩
    · rw [current_of_nil hnil, current_of_nil (frames_after_of_nil hnil [e])]
    · rw [current_of_concat hc, current_of_concat (frames_after_of_concat hc [e])]
  have hframes : (s.after (e :: es)).frames = ((s.after [e]).after es).frames := by
    rcases s.frames_cases with hnil | ⟨outer, f, hc⟩
    · rw [frames_after_of_nil hnil, frames_after_of_nil (frames_after_of_nil hnil [e])]
    · rw [frames_after_of_concat hc, frames_after_of_concat (frames_after_of_concat hc [e]), Event.factsOf_singleton,
        ← List.foldl_append]
      rfl
  have hdiagnostics : (s.after (e :: es)).diagnostics = ((s.after [e]).after es).diagnostics := by
    show s.diagnostics ++ (e.failures s.current.path ++ Event.failuresOf s.current.path es) =
      s.diagnostics ++ Event.failuresOf s.current.path [e] ++ Event.failuresOf (s.after [e]).current.path es
    rw [hpath, Event.failuresOf_singleton, List.append_assoc]
  have hnotes : (s.after (e :: es)).notes = ((s.after [e]).after es).notes := by
    show s.notes ++ (e.notes ++ Event.notesOf es) = s.notes ++ Event.notesOf [e] ++ Event.notesOf es
    rw [Event.notesOf_singleton, List.append_assoc]
  calc s.after (e :: es)
      _ = ⟨(s.after (e :: es)).frames, (s.after (e :: es)).diagnostics, (s.after (e :: es)).notes⟩ := rfl
      _ = (s.after [e]).after es := by rw [hframes, hdiagnostics, hnotes]

theorem modifyFrame_add {s : Session ν} (h : s.frames ≠ []) (c : Category) (p : Predicate) :
    s.modifyFrame s.depth (fun frame => { frame with tree := frame.tree.add c p }) = s.after [.added c p] := by
  rcases s.frames_cases with hnil | ⟨outer, f, hc⟩
  · exact absurd hnil h
  · have hdepth : s.depth = outer.length + 1 := by simp [depth, hc]
    have hmodify : s.frames.modify outer.length (fun frame => { frame with tree := frame.tree.add c p }) =
        outer ++ [{ f with tree := f.tree.add c p }] := by
      simp [hc, List.modify_eq_take_drop]
    rw [hdepth, modifyFrame, hmodify]
    unfold after
    simp [hc, Event.facts, Event.failures, Event.notes, RuleTree.declare_here]

theorem addNote_eq (s : Session ν) (n : ν) : s.addNote n = s.after [.noted n] := by
  rw [after_of_facts_nil s rfl]
  simp [addNote, Event.failures, Event.notes]

/-- What follows on an event follows the trace from there. -/
theorem Follows.after_event (hbody : Follows body trace) {s : Session ν} (h : s.frames ≠ [])
    (hs : s.current.tree.Pruned) (e : Event ν) :
    body s.depth (s.after [e]) =
      ((e.followedBy (trace (s.current.after e))).2, s.after (e.followedBy (trace (s.current.after e))).1) := by
  have hcurrent := current_after h e
  have hp : (s.after [e]).current.tree.Pruned := by
    rw [hcurrent]
    exact RuleTree.Pruned.declareAll hs e.facts
  have hrun := hbody (s.after [e]) (frames_after_ne_nil h [e]) hp
  rw [depth_after, hcurrent] at hrun
  rw [hrun]
  exact Prod.ext rfl (after_cons s e _).symm

end Session

open Session in
/-- **Runs follow traces.** -/
theorem Script.run_follows {ν : Type} (config : Config) (resolver : Resolver) (script : Script ν) :
    Follows (script.run config resolver) (script.trace config resolver) := by
  induction script with
  | done => exact fun s _ _ => congrArg _ (after_nil s).symm
  | fail error => exact fun s _ _ => congrArg _ (after_nil s).symm
  | add c p next ih =>
    intro s h hs
    unfold run
    rw [modifyFrame_add h]
    exact ih.after_event h hs (.added c p)
  | note n next ih =>
    intro s h hs
    unfold run
    rw [addNote_eq]
    exact ih.after_event h hs (.noted n)
  | look next ih => exact fun s h hs => ih s.current s h hs
  | policy next ih => exact fun s h hs => ih config.dispatch s h hs
  | within expr body next ihBody ihNext =>
    intro s h hs
    unfold run
    rw [enterAt_eq ihBody hs]
    exact (ihNext _).after_event h hs _
  | descend segment body next ihBody ihNext =>
    intro s h hs
    unfold run
    rw [enter_eq ihBody hs]
    exact (ihNext _).after_event h hs _

end AccessRules
