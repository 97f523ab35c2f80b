import AccessRules.Proofs.Completeness

/-!
# Renamed texts

A name may stand behind a `$` in an expression (`Expression.Renamed`) or in a tag (`RenamedTag`). Where it is replaced by
another one, each occurrence by one of its own, an expression is read as a path with the same edges, or is still not read
(`Expression.Renamed.edgesRead_eq`), and a tag is classified alike and stands for the same edge. For an expression this
needs an argument, as it is read character by character: in a capture the name that has been read so far leaves no mark
on what is read behind it (`Expression.edgesRead_alike`).
-/

namespace AccessRules

/-! ## Renamed expressions -/

namespace Expression

/-- What may stand behind the `$` of a capture. -/
inductive IsName : List Char → Prop
  | mk {c : Char} {run : List Char} : startsName c = true → (∀ d ∈ run, continuesName d = true) → IsName (c :: run)

/-- The same characters, but for names behind a `$`. -/
inductive Renamed : List Char → List Char → Prop
  | nil : Renamed [] []
  | keep {rest rest' : List Char} (c : Char) : Renamed rest rest' → Renamed (c :: rest) (c :: rest')
  | name {name name' rest rest' : List Char} : IsName name → IsName name' → Renamed rest rest' →
      Renamed ('$' :: (name ++ rest)) ('$' :: (name' ++ rest'))

/-- The edges of the path that was read. -/
def edgesRead (outcome : Except Fault Path) : Option (List Edge) := outcome.toOption.map Path.edges

theorem edgesRead_map (outcome : Except Fault Path) (s : Segment) :
    edgesRead (outcome.map (s :: ·)) = (edgesRead outcome).map (s.edge :: ·) := by
  cases outcome <;> rfl

/-- Two places where reading stands alike: in a capture the name that it has begun with is left open. -/
inductive Place.Alike : Place → Place → Prop
  | same (place : Place) : Place.Alike place place
  | capture (name name' : String) : Place.Alike (.capture name) (.capture name')

section

variable {place place' : Place}

theorem edgesRead_nil (h : place.Alike place') (offset offset' : Nat) :
    edgesRead (readFrom place offset []) = edgesRead (readFrom place' offset' []) := by
  cases h with
  | same => cases place <;> rfl
  | capture => rfl

/-- One more character in front. -/
theorem edgesRead_cons (h : place.Alike place') (c : Char) {rest rest' : List Char}
    (hrest : ∀ next next' : Place, next.Alike next' → ∀ offset offset',
      edgesRead (readFrom next offset rest) = edgesRead (readFrom next' offset' rest')) (offset offset' : Nat) :
    edgesRead (readFrom place offset (c :: rest)) = edgesRead (readFrom place' offset' (c :: rest')) := by
  cases h with
  | same =>
    unfold readFrom
    rcases advance c place with _ | ⟨_ | s, next⟩
    · rfl
    · exact hrest next next (.same next) _ _
    · simp only [edgesRead_map, hrest next next (.same next) _ (offset' + c.utf8Size)]
  | capture name name' =>
    unfold readFrom advance
    by_cases hslash : c = '/'
    · simp only [if_pos hslash, edgesRead_map, hrest .between .between (.same _) _ (offset' + c.utf8Size)]
      rfl
    · by_cases hname : continuesName c = true
      · simp only [if_neg hslash, if_pos hname]
        exact hrest _ _ (.capture _ _) _ _
      · simp only [if_neg hslash, if_neg hname]
        rfl

/-- Names and offsets leave no mark on the edges. -/
theorem edgesRead_alike (h : place.Alike place') (chars : List Char) (offset offset' : Nat) :
    edgesRead (readFrom place offset chars) = edgesRead (readFrom place' offset' chars) := by
  induction chars generalizing place place' offset offset' with
  | nil => exact edgesRead_nil h offset offset'
  | cons c rest ih => exact edgesRead_cons h c (fun next next' hnext => ih hnext) offset offset'

theorem edgesRead_run {run : List Char} (h : ∀ d ∈ run, continuesName d = true) (name : String) (offset : Nat)
    (rest : List Char) :
    edgesRead (readFrom (.capture name) offset (run ++ rest)) = edgesRead (readFrom (.capture name) offset rest) := by
  induction run generalizing name offset with
  | nil => rfl
  | cons d run ih =>
    obtain ⟨hd, hrun⟩ := List.forall_mem_cons.1 h
    have hslash : d ≠ '/' := by
      rintro rfl
      cases hd
    have hstep : readFrom (.capture name) offset (d :: run ++ rest) =
        readFrom (.capture (name.push d)) (offset + d.utf8Size) (run ++ rest) := by
      simp only [List.cons_append, readFrom, advance, if_neg hslash, if_pos hd]
    rw [hstep, ih hrun]
    exact edgesRead_alike (.capture _ _) rest _ _

/-- Behind a `$` and a name reading stands in a capture, if a segment may begin at the `$`. -/
theorem edgesRead_name {name : List Char} (h : IsName name) (place : Place) (offset : Nat) (rest : List Char) :
    edgesRead (readFrom place offset ('$' :: (name ++ rest))) =
      if place = .between then edgesRead (readFrom (.capture "") 0 rest) else none := by
  cases place with
  | between =>
    cases h with
    | @mk c run hc hrun =>
      have hdollar : readFrom .between offset ('$' :: (c :: run ++ rest)) =
          readFrom (.capture c.toString) (offset + '$'.utf8Size + c.utf8Size) (run ++ rest) := by
        rw [readFrom, show advance '$' .between = .ok (none, .dollar) from rfl]
        simp only [List.cons_append, readFrom, advance, if_pos hc]
      rw [hdollar, edgesRead_run hrun, if_pos rfl]
      exact edgesRead_alike (.capture _ _) rest _ _
  | dollar | literal _ | capture _ => rfl

/-- **Renamed characters are read alike.** -/
theorem Renamed.edgesRead_eq {chars chars' : List Char} (h : Renamed chars chars') (hplace : place.Alike place')
    (offset offset' : Nat) :
    edgesRead (readFrom place offset chars) = edgesRead (readFrom place' offset' chars') := by
  induction h generalizing place place' offset offset' with
  | nil => exact edgesRead_nil hplace offset offset'
  | keep c _ ih => exact edgesRead_cons hplace c (fun next next' hnext => ih hnext) offset offset'
  | name hname hname' _ ih =>
    rw [edgesRead_name hname, edgesRead_name hname', ih (.same _) 0 0]
    cases hplace with
    | same => rfl
    | capture => rfl

end

end Expression

/-- A renamed expression leads nowhere as well, or to a place with the same edges. -/
theorem Resolver.slash_renamed {expr expr' : String} (h : Expression.Renamed expr.toList expr'.toList) :
    (∃ error error', slash expr = .error error ∧ slash expr' = .error error') ∨
      ∃ p p' : Path, slash expr = .ok p ∧ slash expr' = .ok p' ∧ p.edges = p'.edges := by
  have hread := h.edgesRead_eq (.same .between) 0 0
  change Expression.edgesRead (Expression.read expr) = Expression.edgesRead (Expression.read expr') at hread
  unfold slash
  generalize Expression.read expr = r, Expression.read expr' = r' at hread ⊢
  cases r with
  | error fault =>
    cases r' with
    | error fault' => exact .inl ⟨_, _, rfl, rfl⟩
    | ok p' => cases hread
  | ok p =>
    cases r' with
    | error fault' => cases hread
    | ok p' => exact .inr ⟨p, p', rfl, rfl, Option.some.inj hread⟩

/-! ## Renamed tags -/

/-- The same tag, or one that is for a capture as well, with another name. -/
inductive RenamedTag : String → String → Prop
  | same (tag : String) : RenamedTag tag tag
  | capture {name name' : String} : name ≠ "" → name' ≠ "" → RenamedTag ("$" ++ name) ("$" ++ name')

theorem Segment.ofTag_capture {name : String} (h : name ≠ "") : ofTag ("$" ++ name) = .capture name := by
  have hchars : name.toList ≠ [] := fun hnil => h (String.toList_eq_nil_iff.1 hnil)
  obtain ⟨c, rest, hname⟩ := List.exists_cons_of_ne_nil hchars
  unfold ofTag
  rw [String.toList_append, hname]
  show capture (String.ofList (c :: rest)) = capture name
  rw [← hname, String.ofList_toList]

/-- No name of a category begins with a `$`. -/
theorem DispatchPolicy.classify_capture (policy : DispatchPolicy) (name : String) :
    policy.classify ("$" ++ name) = .ok none := by
  have hhead : ∀ c : Category, c.name.toList.head? ≠ some '$' := by
    intro c
    cases c <;> decide
  rw [classify_eq_none_iff]
  constructor
  · rintro ⟨c, hc⟩
    refine hhead c ?_
    rw [hc, String.toList_append]
    rfl
  · rintro - ⟨-, c, hc⟩
    refine hhead c ?_
    rw [hc, String.toList_append]
    rfl

namespace RenamedTag

variable {tag tag' : String}

theorem classify_eq (h : RenamedTag tag tag') (policy : DispatchPolicy) : policy.classify tag = policy.classify tag' := by
  cases h with
  | same => rfl
  | capture => rw [policy.classify_capture, policy.classify_capture]

theorem edges_ofTag (h : RenamedTag tag tag') : Path.edges [.ofTag tag] = Path.edges [.ofTag tag'] := by
  cases h with
  | same => rfl
  | capture hname hname' =>
    rw [Segment.ofTag_capture hname, Segment.ofTag_capture hname']
    rfl

end RenamedTag

end AccessRules
