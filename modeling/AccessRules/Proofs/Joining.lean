import AccessRules.Proofs.Room
import AccessRules.Proofs.Spelling

/-!
# Scopes in scopes

Expressions are joined by a slash: that is read as the path of the first one and then that of the second
(`Resolver.slash_join`). A scope that has nothing in it but another one is a scope at the joined expression: the facts
come to the same place, and the same is reported, as the outer scope cannot fail. Only the room is less by one in two
scopes than in one. So both may be exchanged anywhere in a body where no scope is refused (`joined_compile_eq`).
-/

namespace AccessRules

/-! ## Joined expressions -/

namespace Expression

theorem Slashes.append {slashes slashes' : List Char} (h : Slashes slashes) (h' : Slashes slashes') :
    Slashes (slashes ++ slashes') :=
  List.forall_mem_append.2 ⟨h, h'⟩

theorem slashes_cons {slashes : List Char} (h : Slashes slashes) : Slashes ('/' :: slashes) :=
  List.forall_mem_cons.2 ⟨rfl, h⟩

/-- More slashes behind the last segment. -/
theorem Spelled.behind {p : Path} {text slashes : List Char} (h : Spelled p text) (hslashes : Slashes slashes) :
    Spelled p (text ++ slashes) := by
  induction h with
  | last hs hbehind =>
    rw [List.append_assoc]
    exact .last hs (hbehind.append hslashes)
  | next hs hbetween hne _ ih =>
    rw [List.append_assoc, List.append_assoc]
    exact .next hs hbetween hne ih

/-- More segments, behind some slashes. -/
theorem Spelled.join {p p' : Path} {text between text' : List Char} (h : Spelled p text) (hbetween : Slashes between)
    (hne : between ≠ []) (h' : Spelled p' text') : Spelled (p ++ p') (text ++ (between ++ text')) := by
  induction h with
  | @last s text behind hs hbehind =>
    have hchars : text ++ behind ++ (between ++ text') = text ++ (behind ++ between ++ text') := by simp
    rw [hchars]
    exact .next hs (hbehind.append hbetween) (List.append_ne_nil_of_right_ne_nil _ hne) h'
  | next hs hbehind hne' _ ih =>
    rw [List.append_assoc, List.append_assoc]
    exact .next hs hbehind hne' ih

/-- **A slash joins expressions**, whatever slashes there are in front of them and behind. -/
theorem Written.join {p p' : Path} {chars chars' : List Char} (h : Written p chars) (h' : Written p' chars') :
    Written (p ++ p') (chars ++ '/' :: chars') := by
  cases h with
  | root hslashes =>
    cases h' with
    | root hslashes' => exact .root (hslashes.append (slashes_cons hslashes'))
    | @path _ before text hbefore htext =>
      have hchars : chars ++ '/' :: (before ++ text) = chars ++ '/' :: before ++ text := by simp
      rw [hchars]
      exact .path (hslashes.append (slashes_cons hbefore)) htext
  | @path _ before text hbefore htext =>
    rw [List.append_assoc]
    cases h' with
    | root hslashes =>
      rw [List.append_nil]
      exact .path hbefore (htext.behind (slashes_cons hslashes))
    | path hbetween htext' => exact .path hbefore (htext.join (slashes_cons hbetween) (List.cons_ne_nil _ _) htext')

end Expression

theorem Resolver.slash_join {expr expr' : String} {p p' : Path} (h : slash expr = .ok p) (h' : slash expr' = .ok p') :
    slash (expr ++ "/" ++ expr') = .ok (p ++ p') := by
  have hjoined := (slash_eq_ok_iff.1 h).join (slash_eq_ok_iff.1 h')
  rw [slash_eq_ok_iff]
  simpa using hjoined

/-! ## Joined scopes -/

/-- A scope with nothing in it but another one, and the scope at the joined expression. -/
inductive Joined : Declaration → Declaration → Prop
  | join {expr expr' : String} {p p' : Path} (body : List Declaration) : Resolver.slash expr = .ok p →
      Resolver.slash expr' = .ok p' → Joined (.within expr [.within expr' body]) (.within (expr ++ "/" ++ expr') body)

namespace Run

variable {ν : Type}

/-- The second run agrees with the first one, unless a scope was refused in this. -/
def AgreeUnrefused (a b : Run ν) : Prop := Unrefused (Event.errorsOf a.1) → a.Agree b

theorem congruence_agreeUnrefused (config : Config) : Congruence config (AgreeUnrefused (ν := ν)) where
  refl r _ := .refl r
  andThen := by
    intro a a' b b' h h' hunrefused
    obtain ⟨events, outcome⟩ := a
    cases outcome with
    | error error =>
      have hagree := h hunrefused
      obtain ⟨events', outcome'⟩ := b
      obtain rfl : _ = outcome' := hagree.outcome
      exact hagree
    | ok =>
      simp only [Run.andThen, Event.errorsOf_append, unrefused_append] at hunrefused
      exact (h hunrefused.1).andThen (h' hunrefused.2)
  ofScope := by
    intro a b live segments h
    unfold Event.ofScope
    split
    · exact fun _ => .refl _
    · intro hunrefused
      rw [ofEvent, Event.errorsOf_singleton] at hunrefused
      exact (h hunrefused.of_scope).scope segments

/-- A run in two scopes, and in one. -/
theorem agree_scope_scope (p p' : Path) (r : Run ν) :
    Run.Agree (ofEvent (.scope p [.scope p' r.1 r.2] (.ok ()))) (ofEvent (.scope (p ++ p') r.1 r.2)) := by
  have hbelow : Fact.below p ∘ Fact.below p' = Fact.below (p ++ p') := by
    funext f
    simp [Fact.below]
  obtain ⟨events, outcome⟩ := r
  refine ⟨rfl, ?_, fun path => ?_⟩
  · cases outcome with
    | error error => rfl
    | ok => simp [ofEvent, Event.facts, hbelow]
  · cases outcome <;> simp [ofEvent, Event.failures]

end Run

section

variable {ν : Type} {config : Config}

theorem respects_joined : Respects config .slash Joined (Run.AgreeUnrefused (ν := ν)) := by
  rintro - - ⟨body, hexpr, hexpr'⟩ live hunrefused
  obtain ⟨policy, limit⟩ := config
  simp only [Declaration.runIn, Declaration.runsIn_singleton, Event.askedAt, hexpr, hexpr',
    Resolver.slash_join hexpr hexpr', Run.ofEvent, Event.errorsOf_singleton] at hunrefused ⊢
  have houter := Event.lt_of_unrefused hunrefused
  rw [Event.ofScope_of_lt houter] at hunrefused
  replace hunrefused := hunrefused.of_scope
  rw [Event.errorsOf_singleton] at hunrefused
  have hinner := Event.lt_of_unrefused hunrefused
  rw [Event.ofScope_of_lt hinner] at hunrefused
  -- The body has more room in one scope than in two, but does not need it.
  have hroom : limit - (live + 2) ≤ limit - (live + 1) := by omega
  have hbody : (Declaration.runsIn ⟨policy, limit⟩ .slash body (live + 1) : Run ν) =
      Declaration.runsIn ⟨policy, limit⟩ .slash body (live + 2) :=
    Data.runIn_eq_of_unrefused (d := .declarations body) hroom hunrefused.of_scope
  rw [hbody, Event.ofScope_of_lt houter, Event.ofScope_of_lt hinner, Event.ofScope_of_lt houter]
  exact Run.agree_scope_scope _ _ _

end

/-- **Nesting composes like paths.** Where a scope has nothing in it but another one, anywhere in a body, and both are
replaced by one scope at the joined expression, the tree is the same, down to the names of captures, and so are the
diagnostics, provided that no scope of the former is refused. -/
theorem joined_compile_eq {ν : Type} {config : Config} {c : Compiler ν} (hc : c.Reached config .slash) {d d' : Data}
    (h : d.Replaced Joined d')
    (hunrefused : ∀ x ∈ (c.compile d.body).1.diagnostics, ∀ limit, x.error ≠ .depthExceeded limit) :
    (c.compile d.body).1 = (c.compile d'.body).1 := by
  refine hc.compile_eq_of_events (Data.Replaced.related (Run.congruence_agreeUnrefused config) respects_joined h ?_)
  intro limit hmem
  rw [Run.ofEvent, Event.errorsOf_singleton, ← Event.map_error_failures [], List.mem_map] at hmem
  obtain ⟨x, hx, herror⟩ := hmem
  rw [hc.compile_trace] at hunrefused
  exact hunrefused x hx limit herror

/-- A scope at a capture that has another name already, and one that fails, inside of a scope at the root. -/
theorem joined_compile_eq_of_failing_scope :
    let failing : List Declaration := [.add .read ⟨"p"⟩, .authorize [.mk "read" (.nested [])], .within "a" []]
    let data (d d' : Declaration) : Data :=
      .directives [.mk "a" (.body [.within "$uid" [.add .read ⟨"r"⟩], d, d']), .mk "read" (.predicate ⟨"p"⟩)]
    let d := data (.within "/$id//" [.within "b/" [.add .write ⟨"q"⟩]]) (.within "" [.within "//$key" failing])
    let d' := data (.within ("/$id//" ++ "/" ++ "b/") [.add .write ⟨"q"⟩]) (.within ("" ++ "/" ++ "//$key") failing)
    let c : Compiler Unit := { config := ⟨.infer, 4⟩ }
    c.Reached ⟨.infer, 4⟩ .slash ∧ d.Replaced Joined d' ∧
      (∀ x ∈ (c.compile d.body).1.diagnostics, ∀ limit, x.error ≠ .depthExceeded limit) ∧
      (c.compile d.body).1 = (c.compile d'.body).1 ∧
      (c.compile d'.body).1.diagnostics = [⟨[.literal "a", .capture "key"], .expectedPredicate "read"⟩] := by
  intro failing data d d' c
  have hc : c.Reached ⟨.infer, 4⟩ .slash := .fresh
  have hreplaced : d.Replaced Joined d' :=
    .directives (.cons (.body (.cons (.same _) (.cons (.here (.join _ rfl rfl)) (.cons (.here (.join _ rfl rfl)) .nil))))
      (.cons (.same _) .nil))
  have hreported : (c.compile d.body).1.diagnostics = [⟨[.literal "a", .capture "key"], .expectedPredicate "read"⟩] := by
    decide
  have hunrefused : ∀ x ∈ (c.compile d.body).1.diagnostics, ∀ limit, x.error ≠ .depthExceeded limit := by
    rw [hreported]
    simp
  have hsame := joined_compile_eq hc hreplaced hunrefused
  exact ⟨hc, hreplaced, hunrefused, hsame, hsame ▸ hreported⟩

end AccessRules
