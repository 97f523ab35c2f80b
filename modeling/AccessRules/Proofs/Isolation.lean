import AccessRules.Proofs.Agreement
import AccessRules.Proofs.Atomicity

/-!
# What a run depends on

A scope does not see what is around it: how its body ends, what grows in its frame, what it reports and what it is told
on the way depend on the number of open scopes and on the path where it is opened, not on the trees in the frames below
or on what was reported before. For a body that is given as data, how it ends and what grows do not even depend on the
path (`scope_isolated`). What a script is told is what it notes when it is made to note it all (`Script.observing`).

Nor does a compiler keep a history: whatever it was used for, it gives what a fresh one gives, and adds what a fresh one
would report to what is pending (`compiler_keeps_no_history`).
-/

namespace AccessRules

/-! ## What a script is told -/

/-- Something that a script is told in the course of its run. -/
inductive Observation where
  /-- What the scope shows when the script looks at it. -/
  | seen (v : View)
  /-- The answer to a scope that the script asked for. -/
  | answered (tree? : Option RuleTree)

/-- The script that does the same and notes whatever it is told, and so do the scopes that it opens. -/
def Script.observing {ν : Type} : Script ν → Script Observation
  | .done => .done
  | .fail error => .fail error
  | .add c p next => .add c p next.observing
  | .note _ next => next.observing
  | .look next => .look fun v => .note (.seen v) (next v).observing
  | .policy next => .policy fun policy => (next policy).observing
  | .within expr body next =>
    .within expr body.observing fun tree? => .note (.answered tree?) (next tree?).observing
  | .descend segment body next =>
    .descend segment body.observing fun tree? => .note (.answered tree?) (next tree?).observing

section

variable {ν μ : Type}

namespace Run.Agree

variable {a : Run ν} {b : Run μ} {e : Event ν} {e' : Event μ}

theorem symm (h : a.Agree b) : b.Agree a := ⟨h.outcome.symm, h.facts.symm, fun path => (h.failures path).symm⟩

theorem followedBy (he : (ofEvent e).Agree (ofEvent e')) (h : a.Agree b) :
    Run.Agree (e.followedBy a) (e'.followedBy b) :=
  he.andThen h

/-- A note is no difference. -/
theorem noted (n : μ) (h : a.Agree b) : a.Agree ((Event.noted n).followedBy b) := ⟨h.outcome, h.facts, h.failures⟩

theorem after_eq (he : (ofEvent e).Agree (ofEvent e')) (v : View) : v.after e = v.after e' := by
  have hfacts : e.facts = e'.facts := by simpa only [ofEvent, Event.factsOf_singleton] using he.facts
  rw [View.after, View.after, hfacts]

/-- To runs of its body that agree, a scope that is asked for gives the same answer. -/
theorem answer_ofScope (h : a.Agree b) (limit live : Nat) (segments : Path) (v : View) :
    v.answer (.ofScope limit live segments a) = v.answer (.ofScope limit live segments b) := by
  have hafter := after_eq (h.ofScope limit live segments) v
  have hcompletes : (Event.ofScope limit live segments a).completes = (Event.ofScope limit live segments b).completes := by
    obtain ⟨events, outcome⟩ := a
    obtain ⟨events', outcome'⟩ := b
    obtain rfl : outcome = outcome' := h.outcome
    unfold Event.ofScope
    split
    · rfl
    · cases outcome <;> rfl
  rw [View.answer, View.answer, hafter, hcompletes]

end Run.Agree

section

variable {trace : View → Run ν} {trace' : View → Run μ} (config : Config) (resolver : Resolver)

theorem View.agree_asked (h : ∀ v, (trace v).Agree (trace' v)) (v : View) (expr : String) :
    Run.Agree (.ofEvent (v.asked config resolver expr trace)) (.ofEvent (v.asked config resolver expr trace')) := by
  unfold View.asked
  cases resolver expr with
  | error error => exact ⟨rfl, rfl, fun _ => rfl⟩
  | ok segments => exact (h _).ofScope config.maxDepth v.depth segments

theorem View.answer_asked (h : ∀ v, (trace v).Agree (trace' v)) (v : View) (expr : String) :
    v.answer (v.asked config resolver expr trace) = v.answer (v.asked config resolver expr trace') := by
  unfold View.asked
  cases resolver expr with
  | error error => rfl
  | ok segments => exact (h _).answer_ofScope config.maxDepth v.depth segments v

end

/-- **Observing a script** changes nothing in its run. -/
theorem Script.agree_observing (script : Script ν) (config : Config) (resolver : Resolver) (v : View) :
    Run.Agree (script.trace config resolver v) (script.observing.trace config resolver v) := by
  induction script generalizing v with
  | done | fail error => exact ⟨rfl, rfl, fun _ => rfl⟩
  | add c p next ih => exact .followedBy ⟨rfl, rfl, fun _ => rfl⟩ (ih _)
  | note n next ih => exact ((ih v).symm.noted n).symm
  | look next ih => exact (ih v v).noted (Observation.seen v)
  | policy next ih => exact ih config.dispatch v
  | within expr body next ihBody ihNext =>
    have hasked := View.agree_asked config resolver ihBody v expr
    have hanswer := View.answer_asked config resolver ihBody v expr
    simp only [observing, trace]
    rw [← hasked.after_eq v, ← hanswer]
    exact hasked.followedBy ((ihNext _ _).noted _)
  | descend segment body next ihBody ihNext =>
    have hscope := (ihBody (v.inside [segment])).ofScope config.maxDepth v.depth [segment]
    have hanswer := (ihBody (v.inside [segment])).answer_ofScope config.maxDepth v.depth [segment] v
    simp only [observing, trace]
    rw [← hscope.after_eq v, ← hanswer]
    exact hscope.followedBy ((ihNext _ _).noted _)

end

/-! ## Bodies in new scopes -/

namespace Session

variable {ν : Type} {config : Config} {resolver : Resolver}

/-- The session when the body of a new scope has run: the frame of the scope is on top of those that were there. -/
def grown (s : Session ν) (segments : Path) (leaf : RuleTree) (reported : List Diagnostic) (noted : List ν) :
    Session ν :=
  ⟨s.frames ++ [⟨s.currentPath ++ segments, leaf⟩], s.diagnostics ++ reported, s.notes ++ noted⟩

/-- The session, open to notes of another kind. -/
def renoted {μ : Type} (s : Session ν) : Session μ := ⟨s.frames, s.diagnostics, []⟩

/-- The body of a new scope ends like this, having grown a tree, reported and noted. -/
def RunsTo (s : Session ν) (config : Config) (resolver : Resolver) (segments : Path) (body : Script ν)
    (outcome : Outcome) (leaf : RuleTree) (reported : List Diagnostic) (noted : List ν) : Prop :=
  body.run config resolver (s.depth + 1) (s.opened segments) = (outcome, s.grown segments leaf reported noted)

/-- What a new scope shows in the beginning. -/
theorem current_inside (s : Session ν) (segments : Path) :
    s.current.inside segments = ⟨s.currentPath ++ segments, s.depth + 1, .empty⟩ := by
  rw [View.inside, depth_current, currentPath_eq]

theorem opened_after (s : Session ν) (segments : Path) (events : List (Event ν)) :
    (s.opened segments).after events =
      s.grown segments (.ofFacts (Event.factsOf events)) (Event.failuresOf (s.currentPath ++ segments) events)
        (Event.notesOf events) := by
  have hframes := s.frames_opened_after segments events
  have hpath : (s.opened segments).current.path = s.currentPath ++ segments := by rw [current_opened, current_inside]
  rw [grown, ← hframes, ← hpath]
  rfl

/-- **The body of a new scope** runs as its trace says, whatever there is around the scope. -/
theorem runsTo_trace (s : Session ν) (config : Config) (resolver : Resolver) (segments : Path) (body : Script ν)
    {run : Run ν} (hrun : body.trace config resolver ⟨s.currentPath ++ segments, s.depth + 1, .empty⟩ = run) :
    s.RunsTo config resolver segments body run.2 (.ofFacts (Event.factsOf run.1))
      (Event.failuresOf (s.currentPath ++ segments) run.1) (Event.notesOf run.1) := by
  have hopened := (body.run_follows config resolver).opened s segments
  rw [current_inside, hrun, opened_after] at hopened
  exact hopened

/-- Observed, it runs in the same way, and what it is told is told by its trace, too. -/
theorem runsTo_observing (s : Session ν) (config : Config) (resolver : Resolver) (segments : Path) (body : Script ν)
    {run : Run ν} (hrun : body.trace config resolver ⟨s.currentPath ++ segments, s.depth + 1, .empty⟩ = run) :
    s.renoted.RunsTo config resolver segments body.observing run.2 (.ofFacts (Event.factsOf run.1))
      (Event.failuresOf (s.currentPath ++ segments) run.1)
      (Event.notesOf (body.observing.trace config resolver ⟨s.currentPath ++ segments, s.depth + 1, .empty⟩).1) := by
  have hagree := body.agree_observing config resolver ⟨s.currentPath ++ segments, s.depth + 1, .empty⟩
  rw [← hrun, hagree.outcome, hagree.facts, hagree.failures]
  exact s.renoted.runsTo_trace config resolver segments body.observing rfl

/-- A new scope as a whole completes and reports as its event says, whatever there is around it. -/
theorem enter_reports (s : Session ν) (config : Config) (resolver : Resolver) (limit : Nat) (segments : Path)
    (body : Script ν) :
    let e := Event.ofScope limit s.depth segments
      (body.trace config resolver ⟨s.currentPath ++ segments, s.depth + 1, .empty⟩)
    (s.enter limit segments (body.run config resolver)).1.isSome = e.completes ∧
      (s.enter limit segments (body.run config resolver)).2.diagnostics = s.diagnostics ++ e.failures s.currentPath := by
  have hrun := (body.run_follows config resolver).opened s segments
  have hpop := s.pop_opened_after segments (body.trace config resolver (s.current.inside segments)).1
  rw [← currentPath_eq] at hpop
  rw [current_inside] at hrun hpop
  generalize body.trace config resolver ⟨s.currentPath ++ segments, s.depth + 1, .empty⟩ = run at hrun hpop ⊢
  obtain ⟨events, outcome⟩ := run
  have hopen : s.push (s.currentPath ++ segments) = s.opened segments := rfl
  unfold enter Event.ofScope
  split
  · exact ⟨rfl, rfl⟩
  · simp only [hopen, depth_opened, hrun, hpop]
    cases outcome with
    | error error => simp [Event.completes, Event.failures, report]
    | ok =>
      refine ⟨rfl, ?_⟩
      simp only [adopt]
      split <;> rfl

/-- Scopes that are asked for in the same way, at the same depth and path, both complete or both fail, and report the
same. -/
theorem runScope_reports {s s' : Session ν} (hdepth : s.depth = s'.depth) (hpath : s.currentPath = s'.currentPath)
    (opening : Opening) (body : Script ν) :
    (s.runScope config resolver opening body).1.isSome = (s'.runScope config resolver opening body).1.isSome ∧
      ∃ reported, (s.runScope config resolver opening body).2.diagnostics = s.diagnostics ++ reported ∧
        (s'.runScope config resolver opening body).2.diagnostics = s'.diagnostics ++ reported := by
  cases hseg : opening.segments resolver with
  | error error =>
    rw [runScope_of_error hseg, runScope_of_error hseg, hpath]
    exact ⟨rfl, _, rfl, rfl⟩
  | ok segments =>
    obtain ⟨hcompletes, hreports⟩ := s.enter_reports config resolver config.maxDepth segments body
    obtain ⟨hcompletes', hreports'⟩ := s'.enter_reports config resolver config.maxDepth segments body
    -- Both events are of the same trace, as the body starts from the same view.
    rw [hdepth, hpath] at hcompletes hreports
    rw [runScope_of_ok hseg, runScope_of_ok hseg]
    exact ⟨hcompletes.trans hcompletes'.symm, _, hreports, hreports'⟩

end Session

/-- **A scope does not see its surroundings.** Where as many scopes are open and the path is the same, the body of a new
scope ends in the same way, grows the same tree, reports and notes the same, and is told the same, whatever is in the
frames around it and whatever was reported before; and the scope as a whole completes or fails, and reports, the same.
How a body ends that is given as data, and what it grows, is the same at any path. -/
theorem scope_isolated {ν : Type} {config : Config} {resolver : Resolver} {s s' : Session ν}
    (hdepth : s.depth = s'.depth) (segments : Path) :
    (∀ body : Body ν, s.currentPath = s'.currentPath →
      (∃ outcome leaf reported noted observed,
        s.RunsTo config resolver segments body.toScript outcome leaf reported noted ∧
        s'.RunsTo config resolver segments body.toScript outcome leaf reported noted ∧
        s.renoted.RunsTo config resolver segments body.toScript.observing outcome leaf reported observed ∧
        s'.renoted.RunsTo config resolver segments body.toScript.observing outcome leaf reported observed) ∧
      ∀ opening,
        (s.runScope config resolver opening body.toScript).1.isSome =
          (s'.runScope config resolver opening body.toScript).1.isSome ∧
        ∃ reported,
          (s.runScope config resolver opening body.toScript).2.diagnostics = s.diagnostics ++ reported ∧
          (s'.runScope config resolver opening body.toScript).2.diagnostics = s'.diagnostics ++ reported) ∧
    ∀ d : Data, ∃ outcome leaf noted reported reported',
      s.RunsTo config resolver segments d.body.toScript outcome leaf reported noted ∧
      s'.RunsTo config resolver segments d.body.toScript outcome leaf reported' noted := by
  constructor
  · intro body hpath
    refine ⟨?_, fun opening => Session.runScope_reports hdepth hpath opening body.toScript⟩
    have hrun := s.runsTo_trace config resolver segments body.toScript rfl
    have hrun' := s'.runsTo_trace config resolver segments body.toScript rfl
    have hobserved := s.runsTo_observing config resolver segments body.toScript rfl
    have hobserved' := s'.runsTo_observing config resolver segments body.toScript rfl
    rw [← hdepth, ← hpath] at hrun' hobserved'
    exact ⟨_, _, _, _, _, hrun, hrun', hobserved, hobserved'⟩
  · intro d
    have hrun := s.runsTo_trace config resolver segments d.body.toScript (d.trace_body _)
    have hrun' := s'.runsTo_trace config resolver segments d.body.toScript (d.trace_body _)
    simp only [← hdepth] at hrun'
    exact ⟨_, _, _, _, _, hrun, hrun'⟩

/-- In two sessions with other trees in the frames, of which the outer one is at another path, and with other
diagnostics: a script that looks, opens a scope that fails, notes the answer and fails. And directives, where the paths
are different as well. -/
theorem scope_isolated_from_frames_and_reports :
    let s : Session Nat := ⟨[⟨[], .empty⟩, ⟨[.literal "a"], .empty⟩], [], []⟩
    let s' : Session Nat :=
      ⟨[⟨[.literal "b"], RuleTree.empty.add .write ⟨"q"⟩⟩, ⟨[.literal "a"], RuleTree.empty.add .read ⟨"p"⟩⟩],
        [⟨[], .depthExceeded 7⟩], [3]⟩
    let elsewhere : Session Nat := ⟨[⟨[], .empty⟩, ⟨[.capture "id"], .empty⟩], [], [5]⟩
    let script : Script Nat := .look fun v => .add .read ⟨"r"⟩ (.within "c" (.fail (.expectedBody "x")) fun tree? =>
      .note (if tree?.isSome then 0 else v.depth) (.fail (.predicate "lost")))
    let lost : Outcome := .error (.predicate "lost")
    let d : Data := .directives [.mk "read" (.predicate ⟨"r"⟩), .mk "$key" (.nested [.mk "create" (.nested [])])]
    s.depth = s'.depth ∧ s.currentPath = s'.currentPath ∧
      (∃ leaf reported noted observed,
        s.RunsTo {} .slash [.literal "k"] script lost leaf reported noted ∧
        s'.RunsTo {} .slash [.literal "k"] script lost leaf reported noted ∧
        s.renoted.RunsTo {} .slash [.literal "k"] script.observing lost leaf reported observed ∧
        s'.renoted.RunsTo {} .slash [.literal "k"] script.observing lost leaf reported observed) ∧
      (∃ reported,
        (s.runScope {} .slash (.directive "k") script).2.diagnostics = s.diagnostics ++ reported ∧
        (s'.runScope {} .slash (.directive "k") script).2.diagnostics = s'.diagnostics ++ reported) ∧
      s.depth = elsewhere.depth ∧ s.currentPath ≠ elsewhere.currentPath ∧
      ∃ leaf noted reported reported',
        s.RunsTo {} .slash [.literal "k"] d.body.toScript (.ok ()) leaf reported noted ∧
        elsewhere.RunsTo {} .slash [.literal "k"] d.body.toScript (.ok ()) leaf reported' noted := by
  intro s s' elsewhere script lost d
  have hdepth : s.depth = s'.depth := rfl
  have hdepth' : s.depth = elsewhere.depth := rfl
  obtain ⟨⟨outcome, leaf, reported, noted, observed, hruns⟩, hreports⟩ :=
    (@scope_isolated _ {} .slash _ _ hdepth [.literal "k"]).1 (.script script) rfl
  obtain ⟨outcome', leaf', noted', here, there, hhere, hthere⟩ :=
    (@scope_isolated _ {} .slash _ _ hdepth' [.literal "k"]).2 d
  obtain rfl : lost = outcome := congrArg Prod.fst hruns.1
  obtain rfl : .ok () = outcome' := congrArg Prod.fst hhere
  exact ⟨hdepth, rfl, ⟨leaf, reported, noted, observed, hruns⟩, (hreports (.directive "k")).2, hdepth', by decide,
    leaf', noted', here, there, hhere, hthere⟩

/-! ## Compilers -/

/-- **A compiler keeps no history.** However it was used, compiling a body gives what it gives on a fresh compiler, and
what is pending stays as it is; a scope by itself gives what it gives on a fresh compiler, and what is reported there
comes behind what is pending. What scripts note is the same as well. -/
theorem compiler_keeps_no_history {ν : Type} {config : Config} {resolver : Resolver} {c : Compiler ν}
    (hc : c.Reached config resolver) (body : Body ν) (expr : String) :
    let fresh : Compiler ν := { config, resolver }
    ((c.compile body).1 = (fresh.compile body).1 ∧
      (c.compile body).2.diagnostics = c.diagnostics ∧
      (c.compile body).2.session.notes = c.session.notes ++ (fresh.compile body).2.session.notes) ∧
    (c.within expr body).1 = (fresh.within expr body).1 ∧
      (c.within expr body).2.diagnostics = c.diagnostics ++ (fresh.within expr body).2.diagnostics ∧
      (c.within expr body).2.session.notes = c.session.notes ++ (fresh.within expr body).2.session.notes := by
  intro fresh
  have hfresh : fresh.Reached config resolver := .fresh
  obtain ⟨rfl, rfl⟩ := hc.settings
  have hpath : c.session.current.path = fresh.session.current.path := by rw [hc.idle.current, hfresh.idle.current]
  refine ⟨?_, ?_⟩
  · rw [hc.idle.compile, hfresh.idle.compile]
    exact ⟨rfl, rfl, rfl⟩
  · rw [hc.idle.within, hfresh.idle.within]
    refine ⟨rfl, ?_, rfl⟩
    simp only [Compiler.diagnostics, Session.after, hpath]
    rfl

/-- On a compiler with a diagnostic pending, used for a scope that fails and for a body in which a scope is too deep. -/
theorem compiler_keeps_no_history_of_lost_scopes :
    let config : Config := { maxDepth := 1 }
    let body : Body Nat := .declarations [.add .read ⟨"p"⟩, .within "b" []]
    let fresh : Compiler Nat := { config }
    let c := ((fresh.within "a" (.script (.note 1 (.fail (.predicate "lost"))))).2.compile body).2
    c.Reached config .slash ∧
      ((c.compile body).1 = (fresh.compile body).1 ∧
        (c.compile body).2.diagnostics = [⟨[.literal "a"], .predicate "lost"⟩] ∧
        (c.compile body).2.session.notes = [1]) ∧
      (c.within "$id" body).1 = (fresh.within "$id" body).1 ∧
      (c.within "$id" body).2.diagnostics =
        [⟨[.literal "a"], .predicate "lost"⟩, ⟨[.capture "id", .literal "b"], .depthExceeded 1⟩] ∧
      (c.within "$id" body).2.session.notes = [1] := by
  intro config body fresh c
  have hc : c.Reached config .slash := .compile body (.within "a" _ .fresh)
  obtain ⟨⟨htree, hpending, hnotes⟩, hanswer, hreported, hnotes'⟩ := compiler_keeps_no_history hc body "$id"
  exact ⟨hc, ⟨htree, hpending, hnotes⟩, hanswer, hreported, hnotes'⟩

end AccessRules
