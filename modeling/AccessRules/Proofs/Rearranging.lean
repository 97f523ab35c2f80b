import AccessRules.Proofs.Compiling
import AccessRules.Proofs.Same

/-!
# Rearranged data

The entries of a list of declarations or directives may stand in any order, and any of them may be repeated, at any
depth (`Body.Rearranged`). What is run then is different: the first entry that fails ends its scope, so other entries
are left out, and other diagnostics come up inside a scope that is lost anyway. But whether a scope completes depends
only on whether all of its entries do; if it completes, the facts that survive it are those of its entries in whatever
order, and something was reported in it exactly if something was reported in one of them (`alike_sequence`). So neither
the tree nor the completeness of a compilation is changed (`same_compile_of_rearranged`).
-/

namespace AccessRules

/-! ## Facts of a run -/

/-- What a fact says, without the names of captures on its path. -/
def Fact.key (f : Fact) : List Edge × Category × Predicate := (f.path.edges, f.category, f.predicate)

theorem Fact.key_below (p : Path) (f : Fact) : (f.below p).key = (p.edges ++ f.key.1, f.key.2) := by
  simp [key, below, Path.edges]

namespace Event

variable {ν : Type}

theorem factsOf_append (es es' : List (Event ν)) : factsOf (es ++ es') = factsOf es ++ factsOf es' := by
  induction es with
  | nil => rfl
  | cons e rest ih => rw [List.cons_append, factsOf, factsOf, ih, List.append_assoc]

theorem failuresOf_append (path : Path) (es es' : List (Event ν)) :
    failuresOf path (es ++ es') = failuresOf path es ++ failuresOf path es' := by
  induction es with
  | nil => rfl
  | cons e rest ih => rw [List.cons_append, failuresOf, failuresOf, ih, List.append_assoc]

end Event

namespace Run

variable {ν : Type}

/-- The run does not fail. -/
def Completes (r : Run ν) : Prop := r.2 = .ok ()

/-- Some fact that survives the run says this. -/
def Declares (r : Run ν) (k : List Edge × Category × Predicate) : Prop := ∃ f ∈ Event.factsOf r.1, f.key = k

/-- Nothing is reported in the run, which is in the scope at a path. -/
def Clean (path : Path) (r : Run ν) : Prop := Event.failuresOf path r.1 = []

section

variable {a b : Run ν}

theorem completes_andThen : (a.andThen b).Completes ↔ a.Completes ∧ b.Completes := by
  obtain ⟨events, outcome⟩ := a
  cases outcome <;> simp [andThen, Completes]

theorem andThen_of_completes (ha : a.Completes) : (a.andThen b).1 = a.1 ++ b.1 := by
  unfold andThen
  rw [show a.2 = .ok () from ha]

theorem declares_andThen (ha : a.Completes) {k : List Edge × Category × Predicate} :
    (a.andThen b).Declares k ↔ a.Declares k ∨ b.Declares k := by
  unfold Declares
  rw [andThen_of_completes ha, Event.factsOf_append]
  simp [or_and_right, exists_or]

theorem clean_andThen (ha : a.Completes) {path : Path} : (a.andThen b).Clean path ↔ a.Clean path ∧ b.Clean path := by
  unfold Clean
  rw [andThen_of_completes ha, Event.failuresOf_append, List.append_eq_nil_iff]

end

section

variable {rs : List (Run ν)}

/-- A sequence completes if all of its runs do. -/
theorem completes_sequence : (sequence rs).Completes ↔ ∀ r ∈ rs, r.Completes := by
  induction rs with
  | nil => simp [sequence, idle, Completes]
  | cons r rest ih => rw [sequence, completes_andThen, ih, List.forall_mem_cons]

theorem declares_sequence (h : ∀ r ∈ rs, r.Completes) {k : List Edge × Category × Predicate} :
    (sequence rs).Declares k ↔ ∃ r ∈ rs, r.Declares k := by
  induction rs with
  | nil => simp [sequence, idle, Declares, Event.factsOf]
  | cons r rest ih =>
    obtain ⟨hr, hrest⟩ := List.forall_mem_cons.1 h
    rw [sequence, declares_andThen hr, ih hrest]
    simp

theorem clean_sequence (h : ∀ r ∈ rs, r.Completes) {path : Path} :
    (sequence rs).Clean path ↔ ∀ r ∈ rs, r.Clean path := by
  induction rs with
  | nil => simp [sequence, idle, Clean, Event.failuresOf]
  | cons r rest ih =>
    obtain ⟨hr, hrest⟩ := List.forall_mem_cons.1 h
    rw [sequence, clean_andThen hr, ih hrest, List.forall_mem_cons]

end

/-! ## Runs that come to the same -/

/-- Both runs fail; or neither does, and the same facts survive them, and if nothing is reported in one, nothing is
reported in the other. -/
structure Alike (a b : Run ν) : Prop where
  completes : a.Completes ↔ b.Completes
  declares : a.Completes → ∀ k, a.Declares k ↔ b.Declares k
  clean : a.Completes → ∀ path, a.Clean path ↔ b.Clean path

namespace Alike

variable {a b c : Run ν}

theorem refl (a : Run ν) : a.Alike a := ⟨.rfl, fun _ _ => .rfl, fun _ _ => .rfl⟩

theorem trans (h : a.Alike b) (h' : b.Alike c) : a.Alike c where
  completes := h.completes.trans h'.completes
  declares ha k := (h.declares ha k).trans (h'.declares (h.completes.1 ha) k)
  clean ha path := (h.clean ha path).trans (h'.clean (h.completes.1 ha) path)

end Alike

end Run

/-! ## Lists that match -/

section

variable {α : Type} {R : α → α → Prop} {as bs cs : List α}

/-- Every entry of either list is related to one of the other. -/
structure Matched {α : Type} (R : α → α → Prop) (as bs : List α) : Prop where
  left : ∀ a ∈ as, ∃ b ∈ bs, R a b
  right : ∀ b ∈ bs, ∃ a ∈ as, R a b

/-- Lists with the same members match. -/
theorem matched_of_mem_iff (hrefl : ∀ a, R a a) (h : ∀ a, a ∈ as ↔ a ∈ bs) : Matched R as bs where
  left a ha := ⟨a, (h a).1 ha, hrefl a⟩
  right b hb := ⟨b, (h b).2 hb, hrefl b⟩

theorem Matched.cons {a b : α} (hab : R a b) (h : Matched R as bs) : Matched R (a :: as) (b :: bs) := by
  constructor
  · intro x hx
    rcases List.mem_cons.1 hx with rfl | hx
    · exact ⟨b, List.mem_cons_self, hab⟩
    · obtain ⟨y, hy, hxy⟩ := h.left x hx
      exact ⟨y, List.mem_cons_of_mem _ hy, hxy⟩
  · intro y hy
    rcases List.mem_cons.1 hy with rfl | hy
    · exact ⟨a, List.mem_cons_self, hab⟩
    · obtain ⟨x, hx, hxy⟩ := h.right y hy
      exact ⟨x, List.mem_cons_of_mem _ hx, hxy⟩

theorem Matched.trans (htrans : ∀ a b c, R a b → R b c → R a c) (h : Matched R as bs) (h' : Matched R bs cs) :
    Matched R as cs := by
  constructor
  · intro a ha
    obtain ⟨b, hb, hab⟩ := h.left a ha
    obtain ⟨c, hc, hbc⟩ := h'.left b hb
    exact ⟨c, hc, htrans a b c hab hbc⟩
  · intro c hc
    obtain ⟨b, hb, hbc⟩ := h'.right c hc
    obtain ⟨a, ha, hab⟩ := h.right b hb
    exact ⟨a, ha, htrans a b c hab hbc⟩

theorem Matched.map {β : Type} {S : β → β → Prop} {f : α → β} (hf : ∀ a b, R a b → S (f a) (f b))
    (h : Matched R as bs) : Matched S (as.map f) (bs.map f) := by
  constructor
  · intro x hx
    obtain ⟨a, ha, rfl⟩ := List.mem_map.1 hx
    obtain ⟨b, hb, hab⟩ := h.left a ha
    exact ⟨f b, List.mem_map_of_mem hb, hf a b hab⟩
  · intro y hy
    obtain ⟨b, hb, rfl⟩ := List.mem_map.1 hy
    obtain ⟨a, ha, hab⟩ := h.right b hb
    exact ⟨f a, List.mem_map_of_mem ha, hf a b hab⟩

end

/-- **Sequences come to the same if their runs do**, in whatever order these are and however often. -/
theorem Run.alike_sequence {ν : Type} {as bs : List (Run ν)} (h : Matched Alike as bs) :
    (sequence as).Alike (sequence bs) := by
  have hcompletes : (∀ a ∈ as, a.Completes) ↔ ∀ b ∈ bs, b.Completes := by
    constructor
    · intro has b hb
      obtain ⟨a, ha, hab⟩ := h.right b hb
      exact hab.completes.1 (has a ha)
    · intro hbs a ha
      obtain ⟨b, hb, hab⟩ := h.left a ha
      exact hab.completes.2 (hbs b hb)
  constructor
  · rw [completes_sequence, completes_sequence]
    exact hcompletes
  · intro hseq k
    have has := completes_sequence.1 hseq
    rw [declares_sequence has, declares_sequence (hcompletes.1 has)]
    constructor
    · rintro ⟨a, ha, hk⟩
      obtain ⟨b, hb, hab⟩ := h.left a ha
      exact ⟨b, hb, (hab.declares (has a ha) k).1 hk⟩
    · rintro ⟨b, hb, hk⟩
      obtain ⟨a, ha, hab⟩ := h.right b hb
      exact ⟨a, ha, (hab.declares (has a ha) k).2 hk⟩
  · intro hseq path
    have has := completes_sequence.1 hseq
    rw [clean_sequence has, clean_sequence (hcompletes.1 has)]
    constructor
    · intro hclean b hb
      obtain ⟨a, ha, hab⟩ := h.right b hb
      exact (hab.clean (has a ha) path).1 (hclean a ha)
    · intro hclean a ha
      obtain ⟨b, hb, hab⟩ := h.left a ha
      exact (hab.clean (has a ha) path).2 (hclean b hb)

/-! ## Scopes around runs -/

namespace Run.Alike

variable {ν : Type} {a b : Run ν}

/-- A scope that completes declares what its body does, below its segments. -/
theorem declares_scope {segments : Path} {r : Run ν} {k : List Edge × Category × Predicate} :
    (ofEvent (.scope segments r.1 (.ok ()))).Declares k ↔ ∃ k', r.Declares k' ∧ (segments.edges ++ k'.1, k'.2) = k := by
  have hfacts : Event.factsOf (ofEvent (.scope segments r.1 (.ok ()))).1 =
      (Event.factsOf r.1).map (Fact.below segments) := Event.factsOf_singleton _
  unfold Declares
  rw [hfacts]
  simp [Fact.key_below]

/-- A scope around runs that come to the same. -/
theorem scope (h : a.Alike b) (segments : Path) :
    (ofEvent (.scope segments a.1 a.2)).Alike (ofEvent (.scope segments b.1 b.2)) := by
  obtain ⟨events, outcome⟩ := a
  obtain ⟨events', outcome'⟩ := b
  have hcompletes := h.completes
  cases outcome with
  | error error =>
    cases outcome' with
    | error error' =>
      refine ⟨.rfl, fun _ _ => .rfl, fun _ path => ?_⟩
      simp [Clean, ofEvent, Event.failures]
    | ok => cases hcompletes.2 rfl
  | ok =>
    cases outcome' with
    | error error' => cases hcompletes.1 rfl
    | ok =>
      refine ⟨.rfl, fun _ k => ?_, fun _ path => ?_⟩
      · have hdeclares := h.declares rfl
        rw [declares_scope (r := (events, _)), declares_scope (r := (events', _))]
        simp only [hdeclares]
      · simpa [Clean, ofEvent, Event.failuresOf, Event.failures] using h.clean rfl (path ++ segments)

theorem ofScope (h : a.Alike b) (limit live : Nat) (segments : Path) :
    (ofEvent (.ofScope limit live segments a)).Alike (ofEvent (.ofScope limit live segments b)) := by
  unfold Event.ofScope
  split
  · exact refl _
  · exact h.scope segments

theorem askedAt (h : a.Alike b) (config : Config) (resolver : Resolver) (live : Nat) (expr : String) :
    (ofEvent (.askedAt config resolver live expr a)).Alike (ofEvent (.askedAt config resolver live expr b)) := by
  unfold Event.askedAt
  cases resolver expr with
  | error error => exact refl _
  | ok segments => exact h.ofScope config.maxDepth live segments

end Run.Alike

/-! ## Rearranging -/

/-- The second list is the first one in another order, with repeats, and with entries that are related by `R`. -/
inductive Reordered {α : Type} (R : α → α → Prop) : List α → List α → Prop
  | perm {as bs : List α} : as.Perm bs → Reordered R as bs
  | again {a : α} {as : List α} : a ∈ as → Reordered R as (a :: as)
  | entry {a b : α} {as bs : List α} : R a b → Reordered R as bs → Reordered R (a :: as) (b :: bs)
  | trans {as bs cs : List α} : Reordered R as bs → Reordered R bs cs → Reordered R as cs

theorem Reordered.matched {α : Type} {R : α → α → Prop} (hrefl : ∀ a, R a a) (htrans : ∀ a b c, R a b → R b c → R a c)
    {as bs : List α} (h : Reordered R as bs) : Matched R as bs := by
  induction h with
  | perm h => exact matched_of_mem_iff hrefl fun a => h.mem_iff
  | again hmem =>
    apply matched_of_mem_iff hrefl
    intro b
    rw [List.mem_cons, or_iff_right_of_imp]
    rintro rfl
    exact hmem
  | entry hab _ ih => exact ih.cons hab
  | trans _ _ ih ih' => exact ih.trans htrans ih'

mutual

/-- The lists inside a declaration are rearranged. -/
inductive Declaration.Rearranged : Declaration → Declaration → Prop
  | same (d : Declaration) : Declaration.Rearranged d d
  | authorize {ds ds' : List Directive} : Reordered Directive.Rearranged ds ds' →
      Declaration.Rearranged (.authorize ds) (.authorize ds')
  | within {expr : String} {ds ds' : List Declaration} : Reordered Declaration.Rearranged ds ds' →
      Declaration.Rearranged (.within expr ds) (.within expr ds')

/-- The lists inside a directive are rearranged. -/
inductive Directive.Rearranged : Directive → Directive → Prop
  | same (d : Directive) : Directive.Rearranged d d
  | nested {tag : String} {ds ds' : List Directive} : Reordered Directive.Rearranged ds ds' →
      Directive.Rearranged (.mk tag (.nested ds)) (.mk tag (.nested ds'))
  | body {tag : String} {ds ds' : List Declaration} : Reordered Declaration.Rearranged ds ds' →
      Directive.Rearranged (.mk tag (.body ds)) (.mk tag (.body ds'))

end

/-- The lists of a body that is given as data are rearranged, at any depth. -/
inductive Body.Rearranged {ν : Type} : Body ν → Body ν → Prop
  | declaration {d d' : Declaration} : d.Rearranged d' → Body.Rearranged (.declaration d) (.declaration d')
  | declarations {ds ds' : List Declaration} : Reordered Declaration.Rearranged ds ds' →
      Body.Rearranged (.declarations ds) (.declarations ds')
  | directives {ds ds' : List Directive} : Reordered Directive.Rearranged ds ds' →
      Body.Rearranged (.directives ds) (.directives ds')

/-! ## Rearranged data comes to the same -/

section

variable {ν α : Type}

/-- The runs of two entries come to the same, however many scopes are open. -/
def AlikeBy (run : α → Nat → Run ν) (a b : α) : Prop := ∀ live, (run a live).Alike (run b live)

theorem AlikeBy.refl (run : α → Nat → Run ν) (a : α) : AlikeBy run a a := fun live => .refl (run a live)

/-- Reordered lists come to the same. -/
theorem Reordered.alike {run : α → Nat → Run ν} {as bs : List α} (h : Reordered (AlikeBy run) as bs) (live : Nat) :
    (Run.sequence (as.map fun a => run a live)).Alike (.sequence (bs.map fun b => run b live)) := by
  have hmatched := h.matched (AlikeBy.refl run) fun a b c hab hbc live => (hab live).trans (hbc live)
  exact Run.alike_sequence (hmatched.map fun a b hab => hab live)

end

section

variable {ν : Type} (config : Config) (resolver : Resolver)

/-- The runs of two declarations come to the same. -/
abbrev Declaration.Alike (ν : Type) : Declaration → Declaration → Prop :=
  AlikeBy (ν := ν) (Declaration.runIn config resolver)

/-- The runs of two directives come to the same. -/
abbrev Directive.Alike (ν : Type) : Directive → Directive → Prop :=
  AlikeBy (ν := ν) (Directive.runIn config resolver)

variable {config resolver}

theorem Declaration.alike_runsIn {ds ds' : List Declaration} (h : Reordered (Declaration.Alike config resolver ν) ds ds')
    (live : Nat) :
    (Declaration.runsIn config resolver ds live : Run ν).Alike (Declaration.runsIn config resolver ds' live) := by
  rw [Declaration.runsIn_eq, Declaration.runsIn_eq]
  exact h.alike live

theorem Directive.alike_runsIn {ds ds' : List Directive} (h : Reordered (Directive.Alike config resolver ν) ds ds')
    (live : Nat) :
    (Directive.runsIn config resolver ds live : Run ν).Alike (Directive.runsIn config resolver ds' live) := by
  rw [Directive.runsIn_eq, Directive.runsIn_eq]
  exact h.alike live

/-- Under one tag, values whose runs come to the same. -/
theorem Directive.alike_mk {tag : String} {value value' : Directive.Value}
    (h : ∀ category? live, (Directive.Value.runIn config resolver tag value category? live : Run ν).Alike
      (Directive.Value.runIn config resolver tag value' category? live)) :
    Directive.Alike config resolver ν (.mk tag value) (.mk tag value') := by
  intro live
  simp only [Directive.runIn]
  cases config.dispatch.classify tag with
  | error e => exact .refl _
  | ok category? => exact h category? live

mutual

theorem Declaration.Rearranged.alike {d d' : Declaration} (h : d.Rearranged d') :
    Declaration.Alike config resolver ν d d' := by
  match h with
  | .same d => exact .refl _ d
  | .authorize hs => exact fun live => Directive.alike_runsIn (Directive.reordered_alike hs) live
  | .within hs =>
    intro live
    exact (Declaration.alike_runsIn (Declaration.reordered_alike hs) (live + 1)).askedAt config resolver live _
termination_by structural h

theorem Declaration.reordered_alike {ds ds' : List Declaration} (h : Reordered Declaration.Rearranged ds ds') :
    Reordered (Declaration.Alike config resolver ν) ds ds' := by
  match h with
  | .perm hp => exact .perm hp
  | .again hm => exact .again hm
  | .entry hd hs => exact .entry hd.alike (Declaration.reordered_alike hs)
  | .trans hs hs' => exact .trans (Declaration.reordered_alike hs) (Declaration.reordered_alike hs')
termination_by structural h

theorem Directive.Rearranged.alike {d d' : Directive} (h : d.Rearranged d') :
    Directive.Alike config resolver ν d d' := by
  match h with
  | .same d => exact .refl _ d
  | .nested hs =>
    refine Directive.alike_mk fun category? live => ?_
    cases category? with
    | none => exact (Directive.alike_runsIn (Directive.reordered_alike hs) (live + 1)).ofScope config.maxDepth live _
    | some c => exact .refl _
  | .body hs =>
    refine Directive.alike_mk fun category? live => ?_
    cases category? with
    | none =>
      exact (Declaration.alike_runsIn (Declaration.reordered_alike hs) (live + 1)).ofScope config.maxDepth live _
    | some c => exact .refl _
termination_by structural h

theorem Directive.reordered_alike {ds ds' : List Directive} (h : Reordered Directive.Rearranged ds ds') :
    Reordered (Directive.Alike config resolver ν) ds ds' := by
  match h with
  | .perm hp => exact .perm hp
  | .again hm => exact .again hm
  | .entry hd hs => exact .entry hd.alike (Directive.reordered_alike hs)
  | .trans hs hs' => exact .trans (Directive.reordered_alike hs) (Directive.reordered_alike hs')
termination_by structural h

end

/-- Rearranged bodies do runs that come to the same. -/
theorem Body.Rearranged.alike_trace {b b' : Body ν} (h : b.Rearranged b') (v : View) :
    Run.Alike (b.toScript.trace config resolver v) (b'.toScript.trace config resolver v) := by
  cases h with
  | declaration h =>
    rw [Body.trace_declaration, Body.trace_declaration]
    exact h.alike v.depth
  | declarations h =>
    rw [Body.trace_declarations, Body.trace_declarations]
    exact Declaration.alike_runsIn (Declaration.reordered_alike h) v.depth
  | directives h =>
    rw [Body.trace_directives, Body.trace_directives]
    exact Directive.alike_runsIn (Directive.reordered_alike h) v.depth

end

/-! ## Compilations of rearranged data -/

variable {ν : Type} {config : Config} {resolver : Resolver}

/-- The tree of facts holds what they say. -/
theorem holds_ofFacts_iff_key {facts : List Fact} {q : Path} {c : Category} {p : Predicate} :
    (RuleTree.ofFacts facts).Holds q c p ↔ ∃ f ∈ facts, f.key = (q.edges, c, p) := by
  simp [RuleTree.holds_ofFacts, Path.same_iff, Fact.key]

/-- **Rearranged data compiles to the same tree**, up to the names of captures, and is as complete. -/
theorem same_compile_of_rearranged {c : Compiler ν} (hc : c.Reached config resolver) {b b' : Body ν}
    (h : b.Rearranged b') :
    (c.compile b).1.tree.same (c.compile b').1.tree = true ∧
      (c.compile b).1.isComplete = (c.compile b').1.isComplete := by
  have halike : (Run.ofEvent (b.trace config resolver)).Alike (.ofEvent (b'.trace config resolver)) :=
    (h.alike_trace (View.outside.inside [])).ofScope config.maxDepth 0 []
  rw [hc.compile_trace, hc.compile_trace]
  constructor
  · apply RuleTree.same_of_holds (RuleTree.pruned_ofFacts _) (RuleTree.pruned_ofFacts _)
    intro q k p
    rw [holds_ofFacts_iff_key, holds_ofFacts_iff_key, ← Event.factsOf_singleton, ← Event.factsOf_singleton]
    exact halike.declares rfl (q.edges, k, p)
  · have hclean := halike.clean rfl []
    simp only [Run.Clean, Run.ofEvent, Event.failuresOf_singleton] at hclean
    rw [Compilation.isComplete, Compilation.isComplete, Bool.eq_iff_iff, List.isEmpty_iff, List.isEmpty_iff]
    exact hclean

/-- Data with an entry that fits no tag, an expression that leads nowhere and a scope that is too deep; turned round, with
two entries repeated. -/
theorem same_compile_of_turned_data :
    let config : Config := { dispatch := .strict, maxDepth := 2 }
    let resolver : Resolver := fun expr => if expr = "?" then .error ⟨"no path", none⟩ else .ok [.literal expr]
    let fits : Directive := .mk "read" (.predicate ⟨"p"⟩)
    let misfit : Directive := .mk "READ" (.predicate ⟨"p"⟩)
    let deep : Declaration := .within "a" [.add .write ⟨"q"⟩, .within "b" [.add .read ⟨"r"⟩]]
    let data (inside : List Directive) : List Declaration :=
      [.authorize [.mk "$id" (.nested inside), fits], .within "?" [], deep]
    let b : Body Unit := .declarations (data [fits, misfit])
    let b' : Body Unit := .declarations (deep :: data [misfit, misfit, fits]).reverse
    let c : Compiler Unit := { config, resolver }
    c.Reached config resolver ∧ b.Rearranged b' ∧
      (c.compile b).1.tree.same (c.compile b').1.tree = true ∧
      (c.compile b).1.isComplete = (c.compile b').1.isComplete := by
  intro config resolver fits misfit deep data b b' c
  have hc : c.Reached config resolver := .fresh
  have hinside : Reordered Directive.Rearranged [fits, misfit] [misfit, misfit, fits] :=
    .trans (.perm (.swap misfit fits [])) (.again List.mem_cons_self)
  have hdata : Reordered Declaration.Rearranged (data [fits, misfit]) (data [misfit, misfit, fits]) :=
    .entry (.authorize (.entry (.nested hinside) (.perm (.refl _)))) (.perm (.refl _))
  have hrearranged : b.Rearranged b' := by
    refine .declarations (.trans hdata (.trans (.again (a := deep) ?_) (.perm (List.reverse_perm _).symm)))
    simp [data]
  exact ⟨hc, hrearranged, same_compile_of_rearranged hc hrearranged⟩

end AccessRules
