import AccessRules.Proofs.Agreement
import AccessRules.Proofs.Families

/-!
# The room that is left

How many scopes may be opened in each other, at most, is the room of the scope where data stands: the difference of the
limit and the number of open scopes. Data has one run without any limit (`Run.Unlimited`), and under a limit it does
what is left of this run when scopes for which there is no room are refused (`Run.limited`, `Data.exists_unlimited`).

So where the room is the same, a run differs only in the limit that refused scopes are told (`failuresOf_limitedOf`); and
if no scope was refused, it is the same in more room (`Data.runIn_eq_of_unrefused`).
-/

namespace AccessRules

/-! ## Errors of a run -/

namespace Event

variable {ν : Type}

mutual

/-- Why scopes of an event failed, in the order in which they ended. -/
def errors : Event ν → List CompileError
  | unresolved error => [.resolve error]
  | refused _ limit => [.depthExceeded limit]
  | scope _ events (.ok _) => errorsOf events
  | scope _ events (.error error) => errorsOf events ++ [error]
  | _ => []

def errorsOf : List (Event ν) → List CompileError
  | [] => []
  | e :: rest => e.errors ++ errorsOf rest

end

theorem errorsOf_append (es es' : List (Event ν)) : errorsOf (es ++ es') = errorsOf es ++ errorsOf es' := by
  induction es with
  | nil => rfl
  | cons e rest ih => rw [List.cons_append, errorsOf, errorsOf, ih, List.append_assoc]

@[simp] theorem errorsOf_singleton (e : Event ν) : errorsOf [e] = e.errors := List.append_nil _

mutual

/-- Wherever an event takes place, it reports its errors. -/
theorem map_error_failures (path : Path) (e : Event ν) : (e.failures path).map Diagnostic.error = e.errors := by
  match e with
  | added c p | noted n | unresolved error | refused segments limit => rfl
  | scope segments events outcome =>
    have hevents := map_error_failuresOf (path ++ segments) events
    cases outcome with
    | error error => rw [failures, errors, List.map_append, hevents]; rfl
    | ok => exact hevents
termination_by structural e

theorem map_error_failuresOf (path : Path) (es : List (Event ν)) :
    (failuresOf path es).map Diagnostic.error = errorsOf es := by
  match es with
  | [] => rfl
  | e :: rest =>
    rw [failuresOf, errorsOf, List.map_append, map_error_failures path e, map_error_failuresOf path rest]
termination_by structural es

end

end Event

/-- No scope was refused. -/
def Unrefused (errors : List CompileError) : Prop := ∀ limit, .depthExceeded limit ∉ errors

theorem unrefused_append {errors errors' : List CompileError} :
    Unrefused (errors ++ errors') ↔ Unrefused errors ∧ Unrefused errors' := by
  simp [Unrefused, forall_and]

/-- If none was refused in or around a scope, then none was in it. -/
theorem Unrefused.of_scope {ν : Type} {segments : Path} {events : List (Event ν)} {outcome : Outcome}
    (h : Unrefused (Event.scope segments events outcome).errors) : Unrefused (Event.errorsOf events) := by
  cases outcome with
  | error error => exact (unrefused_append.1 h).1
  | ok => exact h

/-- The same error, under another limit. -/
def CompileError.withLimit (limit : Nat) : CompileError → CompileError
  | depthExceeded _ => depthExceeded limit
  | error => error

theorem CompileError.withLimit_eq {error : CompileError} (h : Unrefused [error]) (limit : Nat) :
    error.withLimit limit = error := by
  cases error with
  | depthExceeded n => exact absurd List.mem_cons_self (h n)
  | _ => rfl

/-- The same diagnostic, under another limit. -/
def Diagnostic.withLimit (limit : Nat) (x : Diagnostic) : Diagnostic := { x with error := x.error.withLimit limit }

/-! ## Events in a room -/

namespace Event

variable {ν : Type}

/-- A scope is opened where there is room for it. -/
theorem ofScope_of_lt {limit live : Nat} (h : live < limit) (segments : Path) (body : Run ν) :
    ofScope limit live segments body = .scope segments body.1 body.2 :=
  if_neg (Nat.not_le.2 h)

/-- Where a scope was not refused, there was room for it. -/
theorem lt_of_unrefused {limit live : Nat} {segments : Path} {body : Run ν}
    (h : Unrefused (ofScope limit live segments body).errors) : live < limit := by
  by_contra hl
  rw [ofScope, if_pos (Nat.not_lt.1 hl)] at h
  exact h limit List.mem_cons_self

mutual

/-- What is left of an event when no more scopes than there is room for may be opened in each other. -/
def limited (room limit : Nat) : Event ν → Event ν
  | scope segments events outcome =>
    match room with
    | 0 => refused segments limit
    | room + 1 => scope segments (limitedOf room limit events) outcome
  | e => e

def limitedOf (room limit : Nat) : List (Event ν) → List (Event ν)
  | [] => []
  | e :: rest => e.limited room limit :: limitedOf room limit rest

end

theorem limitedOf_append (room limit : Nat) (es es' : List (Event ν)) :
    limitedOf room limit (es ++ es') = limitedOf room limit es ++ limitedOf room limit es' := by
  induction es with
  | nil => rfl
  | cons e rest ih => rw [List.cons_append, limitedOf, limitedOf, ih, List.cons_append]

mutual

/-- The facts that survive depend on the room alone. -/
theorem facts_limited (room limit limit' : Nat) (e : Event ν) :
    (e.limited room limit').facts = (e.limited room limit).facts := by
  match e, room with
  | added c p, _ | noted n, _ | unresolved error, _ | refused segments n, _ => cases room <;> rfl
  | scope segments events outcome, 0 => rfl
  | scope segments events outcome, room + 1 =>
    have hevents := factsOf_limitedOf room limit limit' events
    cases outcome with
    | error error => rfl
    | ok => simp only [limited, facts, hevents]
termination_by structural e

theorem factsOf_limitedOf (room limit limit' : Nat) (es : List (Event ν)) :
    factsOf (limitedOf room limit' es) = factsOf (limitedOf room limit es) := by
  match es with
  | [] => rfl
  | e :: rest =>
    rw [limitedOf, limitedOf, factsOf, factsOf, facts_limited room limit limit' e,
      factsOf_limitedOf room limit limit' rest]
termination_by structural es

end

theorem completes_limited (room limit limit' : Nat) (e : Event ν) :
    (e.limited room limit').completes = (e.limited room limit).completes := by
  match e, room with
  | added c p, _ | noted n, _ | unresolved error, _ | refused segments n, _ => rfl
  | scope segments events outcome, 0 => rfl
  | scope segments events (.ok _), room + 1 => rfl
  | scope segments events (.error error), room + 1 => rfl

mutual

/-- Of a run without refusals the same is reported in the same room, but for the limit that refused scopes are told. -/
theorem failures_limited (room limit limit' : Nat) (path : Path) (e : Event ν) (h : Unrefused e.errors) :
    (e.limited room limit').failures path =
      ((e.limited room limit).failures path).map (Diagnostic.withLimit limit') := by
  match e, room, h with
  | added c p, _, _ | noted n, _, _ | unresolved error, _, _ => rfl
  | refused segments n, _, h => exact absurd List.mem_cons_self (h n)
  | scope segments events outcome, 0, _ => rfl
  | scope segments events (.ok _), room + 1, h => exact failuresOf_limitedOf room limit limit' (path ++ segments) events h
  | scope segments events (.error error), room + 1, h =>
    obtain ⟨hevents, herror⟩ := unrefused_append.1 h
    have hreported := failuresOf_limitedOf room limit limit' (path ++ segments) events hevents
    simp only [limited, failures, hreported, List.map_append, List.map_cons, List.map_nil, Diagnostic.withLimit,
      CompileError.withLimit_eq herror]
termination_by structural e

theorem failuresOf_limitedOf (room limit limit' : Nat) (path : Path) (es : List (Event ν)) (h : Unrefused (errorsOf es)) :
    failuresOf path (limitedOf room limit' es) =
      (failuresOf path (limitedOf room limit es)).map (Diagnostic.withLimit limit') := by
  match es, h with
  | [], _ => rfl
  | e :: rest, h =>
    obtain ⟨he, hrest⟩ := unrefused_append.1 h
    rw [limitedOf, limitedOf, failuresOf, failuresOf, List.map_append, failures_limited room limit limit' path e he,
      failuresOf_limitedOf room limit limit' path rest hrest]
termination_by structural es

end

mutual

/-- If no scope is refused, then nothing is left out, nor would it be in more room. -/
theorem limited_eq_self {room room' : Nat} (hroom : room ≤ room') (limit limit' : Nat) (e : Event ν)
    (h : Unrefused (e.limited room limit).errors) : e.limited room' limit' = e := by
  match e, room, room', hroom, h with
  | added c p, _, _, _, _ | noted n, _, _, _, _ | unresolved error, _, _, _, _ | refused segments n, _, _, _, _ => rfl
  | scope segments events outcome, 0, _, _, h => exact absurd List.mem_cons_self (h limit)
  | scope segments events outcome, room + 1, room' + 1, hroom, h =>
    have hevents : Unrefused (errorsOf (limitedOf room limit events)) := h.of_scope
    simp only [limited, limitedOf_eq_self (Nat.le_of_succ_le_succ hroom) limit limit' events hevents]
termination_by structural e

theorem limitedOf_eq_self {room room' : Nat} (hroom : room ≤ room') (limit limit' : Nat) (es : List (Event ν))
    (h : Unrefused (errorsOf (limitedOf room limit es))) : limitedOf room' limit' es = es := by
  match es, h with
  | [], _ => rfl
  | e :: rest, h =>
    obtain ⟨he, hrest⟩ := unrefused_append.1 h
    rw [limitedOf, limited_eq_self hroom limit limit' e he, limitedOf_eq_self hroom limit limit' rest hrest]
termination_by structural es

end

end Event

/-! ## The run without a limit -/

namespace Run

variable {ν : Type} {a b r : Run ν}

/-- What is left of a run when no more scopes than there is room for may be opened in each other. -/
def limited (room limit : Nat) (r : Run ν) : Run ν := (Event.limitedOf room limit r.1, r.2)

theorem limited_andThen (room limit : Nat) (a b : Run ν) :
    (a.andThen b).limited room limit = (a.limited room limit).andThen (b.limited room limit) := by
  obtain ⟨events, outcome⟩ := a
  cases outcome with
  | error error => rfl
  | ok => simp only [andThen, limited, Event.limitedOf_append]

/-- A scope is refused if there is no room for it, and its body has less room by one. -/
theorem limited_scope (limit level : Nat) (segments : Path) (r : Run ν) :
    (ofEvent (.scope segments r.1 r.2)).limited (limit - level) limit =
      ofEvent (.ofScope limit level segments (r.limited (limit - (level + 1)) limit)) := by
  unfold Event.ofScope
  split
  · next hl =>
    rw [Nat.sub_eq_zero_of_le hl]
    rfl
  · next hl =>
    rw [show limit - level = limit - (level + 1) + 1 by omega]
    rfl

/-- No scope was refused in the run, and it does not fail as if one had been. -/
structure Unlimited (r : Run ν) : Prop where
  events : Unrefused (Event.errorsOf r.1)
  outcome : ∀ error, r.2 = .error error → Unrefused [error]

namespace Unlimited

theorem ofEvent {e : Event ν} (h : Unrefused e.errors) : (ofEvent e).Unlimited where
  events := by
    rw [Run.ofEvent, Event.errorsOf_singleton]
    exact h
  outcome := nofun

theorem andThen (ha : a.Unlimited) (hb : b.Unlimited) : (a.andThen b).Unlimited := by
  obtain ⟨events, outcome⟩ := a
  cases outcome with
  | error error => exact ha
  | ok =>
    refine ⟨?_, hb.outcome⟩
    simp only [Run.andThen, Event.errorsOf_append]
    exact unrefused_append.2 ⟨ha.events, hb.events⟩

theorem scope (h : r.Unlimited) (segments : Path) : (Run.ofEvent (.scope segments r.1 r.2)).Unlimited := by
  obtain ⟨events, outcome⟩ := r
  cases outcome with
  | error error => exact ofEvent (unrefused_append.2 ⟨h.events, h.outcome error rfl⟩)
  | ok => exact ofEvent h.events

end Unlimited

end Run

section

variable {ν : Type}

theorem DispatchPolicy.unrefused_of_classify {policy : DispatchPolicy} {tag : String} {error : CompileError}
    (h : policy.classify tag = .error error) : Unrefused [error] := by
  unfold classify at h
  split at h
  · cases h
  · split at h <;> cases h
    simp [Unrefused]

/-- **All that data does under a limit** is what is left of one run in the room that is there. -/
theorem closed_limited : Closed (ν := ν) (fun _ => True) fun f =>
    ∀ policy, ∃ r : Run ν, r.Unlimited ∧ ∀ limit level, f ⟨policy, limit⟩ level = r.limited (limit - level) limit where
  idle _ := ⟨.idle, ⟨by simp [Unrefused, Run.idle, Event.errorsOf], nofun⟩, fun _ _ => rfl⟩
  fails error herror _ := by
    refine ⟨.fails error, ⟨by simp [Unrefused, Run.fails, Event.errorsOf], ?_⟩, fun _ _ => rfl⟩
    rintro _ ⟨⟩ limit hmem
    exact herror limit (List.mem_singleton.1 hmem).symm
  added c p _ := ⟨.ofEvent (.added c p), .ofEvent (by simp [Unrefused, Event.errors]), fun _ _ => rfl⟩
  unresolved error _ :=
    ⟨.ofEvent (.unresolved error), .ofEvent (by simp [Unrefused, Event.errors]), fun _ _ => rfl⟩
  andThen := by
    intro f g hf hg policy
    obtain ⟨a, ha, hfa⟩ := hf policy
    obtain ⟨b, hb, hgb⟩ := hg policy
    refine ⟨a.andThen b, ha.andThen hb, fun limit level => ?_⟩
    rw [Run.limited_andThen, ← hfa, ← hgb]
  scope := by
    intro f segments hf policy
    obtain ⟨r, hr, hfr⟩ := hf policy
    refine ⟨.ofEvent (.scope segments r.1 r.2), hr.scope segments, fun limit level => ?_⟩
    rw [Run.limited_scope, Family.scope, hfr]
  dispatched := by
    intro f tag _ hf policy
    cases hc : policy.classify tag with
    | error error =>
      have herror := DispatchPolicy.unrefused_of_classify hc
      refine ⟨.fails error, ⟨by simp [Unrefused, Run.fails, Event.errorsOf], ?_⟩, fun limit level => ?_⟩
      · rintro _ ⟨⟩
        exact herror
      · simp only [Family.dispatched, hc]
        rfl
    | ok category? =>
      obtain ⟨r, hr, hfr⟩ := hf category? policy
      refine ⟨r, hr, fun limit level => ?_⟩
      simp only [Family.dispatched, hc]
      exact hfr limit level

/-- **The run of data without a limit.** -/
theorem Data.exists_unlimited (policy : DispatchPolicy) (resolver : Resolver) (d : Data) :
    ∃ r : Run ν, r.Unlimited ∧
      ∀ limit level, d.runIn ⟨policy, limit⟩ resolver level = r.limited (limit - level) limit :=
  closed_limited.data resolver d (fun _ _ => trivial) policy

/-- If no scope is refused, then data does the same wherever it has at least as much room. -/
theorem Data.runIn_eq_of_unrefused {policy : DispatchPolicy} {resolver : Resolver} {d : Data}
    {limit limit' level level' : Nat} (hroom : limit - level ≤ limit' - level')
    (h : Unrefused (Event.errorsOf (d.runIn ⟨policy, limit⟩ resolver level : Run ν).1)) :
    (d.runIn ⟨policy, limit'⟩ resolver level' : Run ν) = d.runIn ⟨policy, limit⟩ resolver level := by
  obtain ⟨r, -, hr⟩ := Data.exists_unlimited (ν := ν) policy resolver d
  rw [hr] at h
  have hless := Event.limitedOf_eq_self (Nat.le_refl _) limit limit r.1 h
  have hmore := Event.limitedOf_eq_self hroom limit limit' r.1 h
  rw [hr, hr, Run.limited, Run.limited, hless, hmore]

end

end AccessRules
