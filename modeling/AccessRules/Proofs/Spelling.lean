import AccessRules.Proofs.Agreement
import AccessRules.Proofs.Grammar

/-!
# The spellings of a scope

A scope one step down can be declared by a path expression or under the tag of a directive; an expression is read by the
resolver, and a tag stands for one segment as it is. Where an expression of one segment has no slashes in it, both give
the same segment (`slash_eq_ofTag`), and if it is not taken for the name of a category either, all spellings of the scope
do the same run (`SpellsScope.runIn_eq`). So they may be exchanged anywhere in a body (`respelled_compile_eq`).
-/

namespace AccessRules

/-! ## Tags as expressions -/

theorem Resolver.slash_eq_ok_iff {expr : String} {p : Path} : slash expr = .ok p ↔ Expression.Written p expr.toList := by
  rw [← Expression.read_eq_ok_iff, slash]
  cases Expression.read expr <;> simp [Expression.mapError_ok, Expression.mapError_error]

namespace Expression

/-- Of the slashes around and between segments there are none. -/
theorem Slashes.eq_nil {slashes chars : List Char} (h : Slashes slashes) (hsub : slashes ⊆ chars)
    (hnone : '/' ∉ chars) : slashes = [] := by
  refine List.eq_nil_iff_forall_not_mem.2 fun c hc => hnone ?_
  rw [← h c hc]
  exact hsub hc

/-- Without slashes, what is written for one segment is the spelling of this segment. -/
theorem Written.spells {s : Segment} {chars : List Char} (h : Written [s] chars) (hnone : '/' ∉ chars) :
    Spells s chars := by
  generalize hp : [s] = p at h
  cases h with
  | root => cases hp
  | @path p before text hbefore hspelled =>
    obtain rfl := hbefore.eq_nil (List.subset_append_left before text) hnone
    rw [List.nil_append] at hnone ⊢
    subst hp
    cases hspelled with
    | @last s text behind hs hbehind =>
      obtain rfl := hbehind.eq_nil (List.subset_append_right text behind) hnone
      rwa [List.append_nil]
    | next hs hbetween hne hrest => exact absurd hrest.ne_nil (by simp)

/-- A tag that is spelled as a segment stands for it. -/
theorem Spells.eq_ofTag {s : Segment} {tag : String} (h : Spells s tag.toList) : s = .ofTag tag := by
  generalize hchars : tag.toList = chars at h
  unfold Segment.ofTag
  rw [hchars]
  cases h with
  | @literal c run hc _ =>
    have hdollar : c ≠ '$' := by
      rintro rfl
      cases hc
    have htag : String.ofList (c :: run) = tag := by rw [← hchars, String.ofList_toList]
    rw [htag]
    split
    · next heq => exact absurd (List.cons.inj heq).1 hdollar
    · rfl
  | capture => rfl

end Expression

/-- The tag is an expression for one segment, there is no slash in it, and it is not taken for the name of a category,
which strict dispatch does whatever the case of its letters. -/
structure IsStep (policy : DispatchPolicy) (tag : String) : Prop where
  reads : ∃ s, Resolver.slash tag = .ok [s]
  noSlash : '/' ∉ tag.toList
  noName : ¬ NamesCategory tag
  noNearName : policy = .strict → ¬ NearlyNamesCategory tag

namespace IsStep

variable {policy : DispatchPolicy} {tag : String}

/-- As an expression and as a tag it is the same segment. -/
theorem slash_eq_ofTag (h : IsStep policy tag) : Resolver.slash tag = .ok [.ofTag tag] := by
  obtain ⟨s, hs⟩ := h.reads
  have hspells := (Resolver.slash_eq_ok_iff.1 hs).spells h.noSlash
  rw [hs, hspells.eq_ofTag]

theorem classify_eq (h : IsStep policy tag) : policy.classify tag = .ok none :=
  DispatchPolicy.classify_eq_none_iff.2 ⟨h.noName, h.noNearName⟩

end IsStep

/-! ## Spellings -/

/-- The declaration opens a scope at the tag, with this body. -/
inductive SpellsScope (tag : String) : List Declaration → Declaration → Prop
  | within (body : List Declaration) : SpellsScope tag body (.within tag body)
  | body (body : List Declaration) : SpellsScope tag body (.authorize [.mk tag (.body body)])
  | nested (ds : List Directive) : SpellsScope tag [.authorize ds] (.authorize [.mk tag (.nested ds)])

/-- Two declarations that open one scope, one step down. -/
def Respelled (policy : DispatchPolicy) (d d' : Declaration) : Prop :=
  ∃ tag body, IsStep policy tag ∧ SpellsScope tag body d ∧ SpellsScope tag body d'

section

variable {ν : Type} {config : Config}

/-- A list of one declaration does what the declaration does. -/
theorem Declaration.runsIn_singleton (resolver : Resolver) (d : Declaration) (live : Nat) :
    (Declaration.runsIn config resolver [d] live : Run ν) = d.runIn config resolver live := by
  rw [runsIn, runsIn, Run.andThen_idle]

/-- **However it is spelled**, a scope does its run. -/
theorem SpellsScope.runIn_eq {tag : String} {body : List Declaration} {d : Declaration}
    (htag : IsStep config.dispatch tag) (h : SpellsScope tag body d) (live : Nat) :
    (d.runIn config .slash live : Run ν) =
      .ofEvent (.ofScope config.maxDepth live [.ofTag tag] (Declaration.runsIn config .slash body (live + 1))) := by
  cases h with
  | within body =>
    rw [Declaration.runIn, Event.askedAt, htag.slash_eq_ofTag]
  | body body =>
    rw [Declaration.runIn, Directive.runsIn, Directive.runsIn, Run.andThen_idle, Directive.runIn, htag.classify_eq]
    rfl
  | nested ds =>
    rw [Declaration.runIn, Directive.runsIn, Directive.runsIn, Run.andThen_idle, Directive.runIn, htag.classify_eq,
      Declaration.runsIn_singleton]
    rfl

theorem agreeable_respelled : Agreeable ν config .slash (Respelled config.dispatch) := by
  rintro d d' ⟨tag, body, htag, hd, hd'⟩ live
  rw [hd.runIn_eq htag, hd'.runIn_eq htag]
  exact .refl _

end

/-- **Spellings compile to the same.** Where a scope one step down is spelled in another way, anywhere in a body, the
tree is the same, down to the names of captures, and so are the diagnostics. So it is when a body is given as directives
and as the declaration that works them off, or as a declaration and as the list of this one, whatever the resolver. -/
theorem respelled_compile_eq {ν : Type} {config : Config} {c : Compiler ν} (hc : c.Reached config .slash) :
    (∀ d d' : Data, d.Replaced (Respelled config.dispatch) d' → (c.compile d.body).1 = (c.compile d'.body).1) ∧
      ∀ (resolver : Resolver) (c' : Compiler ν), c'.Reached config resolver →
        (∀ ds, (c'.compile (.directives ds)).1 = (c'.compile (.declarations [.authorize ds])).1) ∧
        ∀ d, (c'.compile (.declaration d)).1 = (c'.compile (.declarations [d])).1 := by
  refine ⟨fun d d' h => h.compile_eq agreeable_respelled hc, fun resolver c' hc' => ⟨fun ds => ?_, fun d => ?_⟩⟩
  · apply hc'.compile_eq
    rw [Body.trace_directives, Body.trace_declarations, Declaration.runsIn_singleton]
    exact .refl _
  · apply hc'.compile_eq
    rw [Body.trace_declaration, Body.trace_declarations, Declaration.runsIn_singleton]
    exact .refl _

/-- Under strict dispatch: a scope whose directives fail, inside of another one; declared by an expression and under a
tag. -/
theorem respelled_compile_eq_of_failing_scope :
    let config : Config := { dispatch := .strict, maxDepth := 3 }
    let misfit : List Directive := [.mk "READ" (.predicate ⟨"p"⟩)]
    let data (d : Declaration) : Data := .directives [.mk "$id" (.body [.add .read ⟨"q"⟩, d, .add .write ⟨"r"⟩])]
    let d := data (.within "$key" [.authorize misfit])
    let d' := data (.authorize [.mk "$key" (.nested misfit)])
    let c : Compiler Unit := { config }
    let c' : Compiler Unit := { config, resolver := fun _ => .error ⟨"no path", none⟩ }
    c.Reached config .slash ∧ c'.Reached config c'.resolver ∧ d.Replaced (Respelled config.dispatch) d' ∧
      (c.compile d.body).1 = (c.compile d'.body).1 ∧
      (c.compile d.body).1.diagnostics = [⟨[.capture "id", .capture "key"], .categoryCollision "READ" .read⟩] ∧
      (c'.compile (.directives misfit)).1 = (c'.compile (.declarations [.authorize misfit])).1 ∧
      (c'.compile (.declaration (.authorize misfit))).1 = (c'.compile (.declarations [.authorize misfit])).1 := by
  intro config misfit data d d' c c'
  have hc : c.Reached config .slash := .fresh
  have hc' : c'.Reached config c'.resolver := .fresh
  have hnames := DispatchPolicy.classify_eq_none_iff.1 (show config.dispatch.classify "$key" = .ok none by decide)
  have hstep : IsStep config.dispatch "$key" := ⟨⟨.capture "key", rfl⟩, by decide, hnames.1, hnames.2⟩
  have hrespelled : Respelled config.dispatch (.within "$key" [.authorize misfit])
      (.authorize [.mk "$key" (.nested misfit)]) := ⟨"$key", [.authorize misfit], hstep, .within _, .nested misfit⟩
  have hreplaced : d.Replaced (Respelled config.dispatch) d' :=
    .directives (.cons (.body (.cons (.same _) (.cons (.here hrespelled) (.cons (.same _) .nil)))) .nil)
  obtain ⟨hspellings, hbodies⟩ := respelled_compile_eq hc
  obtain ⟨hdirectives, hdeclaration⟩ := hbodies c'.resolver c' hc'
  exact ⟨hc, hc', hreplaced, hspellings d d' hreplaced, by decide, hdirectives misfit, hdeclaration _⟩

end AccessRules
