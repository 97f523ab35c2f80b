import AccessRules.Proofs.Rounds

/-!
# The grammar of path expressions

An expression is written as segments with slashes between them, any number but one at least, and any number of slashes
in front of the first and behind the last one, or as slashes alone (`Written`). Exactly these expressions are read, each
as the path of its segments (`slash_reads_written`): the rounds take the segments one by one (`rounds_eq_ok_iff`).
-/

namespace AccessRules.Expression

/-- No characters but slashes. -/
def Slashes (chars : List Char) : Prop := ∀ c ∈ chars, c = '/'

/-- Segments with slashes between them, and perhaps behind the last one. -/
inductive Spelled : Path → List Char → Prop
  | last {s : Segment} {text behind : List Char} : Spells s text → Slashes behind → Spelled [s] (text ++ behind)
  | next {s : Segment} {p : Path} {text between rest : List Char} : Spells s text → Slashes between → between ≠ [] →
      Spelled p rest → Spelled (s :: p) (text ++ (between ++ rest))

/-- What an expression for a path may be: slashes alone for the empty one, and else its segments, with slashes in
front or not. -/
inductive Written : Path → List Char → Prop
  | root {slashes : List Char} : Slashes slashes → Written [] slashes
  | path {p : Path} {before text : List Char} : Slashes before → Spelled p text → Written p (before ++ text)

/-! ## Slashes -/

theorem slashes_takeWhile (chars : List Char) : Slashes (chars.takeWhile (· = '/')) := by
  intro c hc
  simpa using List.all_eq_true.1 List.all_takeWhile c hc

theorem passSlashes_append {slashes : List Char} (h : Slashes slashes) (rest : List Char) :
    passSlashes (slashes ++ rest) = passSlashes rest :=
  List.dropWhile_append_of_pos fun c hc => decide_eq_true (h c hc)

theorem passSlashes_of_slashes {slashes : List Char} (h : Slashes slashes) : passSlashes slashes = [] := by
  rw [← List.append_nil slashes, passSlashes_append h]
  rfl

theorem exists_slashes (chars : List Char) : ∃ slashes, Slashes slashes ∧ chars = slashes ++ passSlashes chars :=
  ⟨_, slashes_takeWhile chars, List.takeWhile_append_dropWhile.symm⟩

/-- A segment does not start with a slash. -/
theorem Spells.passSlashes_eq {s : Segment} {text : List Char} (h : Spells s text) (rest : List Char) :
    passSlashes (text ++ rest) = text ++ rest := by
  cases h with
  | @literal c run hc _ =>
    have hne : c ≠ '/' := by
      rintro rfl
      cases hc
    simp [passSlashes, hne]
  | capture => rfl

theorem Spelled.passSlashes_eq {p : Path} {text : List Char} (h : Spelled p text) : passSlashes text = text := by
  cases h with
  | last hs _ => exact hs.passSlashes_eq _
  | next hs _ _ _ => exact hs.passSlashes_eq _

theorem Spelled.ne_nil {p : Path} {text : List Char} (h : Spelled p text) : p ≠ [] := by
  cases h <;> exact List.cons_ne_nil _ _

/-- The slashes that are taken are all that stand there, one at least unless nothing is behind them. -/
theorem takeSlashes_eq_ok_iff {chars left : List Char} :
    takeSlashes chars = .ok left ↔
      ∃ slashes, Slashes slashes ∧ chars = slashes ++ left ∧ passSlashes left = left ∧ (slashes = [] → left = []) := by
  constructor
  · intro h
    cases chars with
    | nil => cases h; exact ⟨[], List.forall_mem_nil _, rfl, rfl, fun _ => rfl⟩
    | cons c rest =>
      rw [takeSlashes] at h
      split at h
      · next hc =>
        cases h
        obtain ⟨slashes, hslashes, hrest⟩ := exists_slashes rest
        refine ⟨c :: slashes, List.forall_mem_cons.2 ⟨hc, hslashes⟩, congrArg (c :: ·) hrest, ?_,
          fun h => absurd h (List.cons_ne_nil _ _)⟩
        rw [← passSlashes_append hslashes, ← hrest]
      · cases h
  · rintro ⟨slashes, hslashes, rfl, hleft, hnone⟩
    cases slashes with
    | nil => rw [hnone rfl]; rfl
    | cons c slashes =>
      obtain ⟨hc, hslashes⟩ := List.forall_mem_cons.1 hslashes
      rw [List.cons_append, takeSlashes, if_pos hc, passSlashes_append hslashes, hleft]

/-! ## Rounds and the grammar -/

/-- No segment goes on with a slash. -/
theorem continuesSegment_slash (s : Segment) : continuesSegment '/' s = false := by cases s <;> rfl

/-- A round takes a segment and the slashes behind it, if there are slashes behind it or nothing. -/
theorem round_of_spells {s : Segment} {text slashes left : List Char} (hs : Spells s text) (h : Slashes slashes)
    (hleft : passSlashes left = left) (hnone : slashes = [] → left = []) :
    round (text ++ (slashes ++ left)) = .ok (s, left) := by
  refine round_eq_ok_iff.2 ⟨slashes ++ left, takeSegment_eq_ok_iff.2 ⟨text, hs, rfl, ?_⟩,
    takeSlashes_eq_ok_iff.2 ⟨slashes, h, rfl, hleft, hnone⟩⟩
  intro c hc
  cases slashes with
  | nil => rw [hnone rfl] at hc; cases hc
  | cons d slashes =>
    obtain rfl : d = c := Option.some.inj hc
    rw [h d List.mem_cons_self]
    exact continuesSegment_slash s

/-- What a round takes is spelled so. -/
theorem spells_of_round {chars left : List Char} {s : Segment} (h : round chars = .ok (s, left)) :
    ∃ text slashes, Spells s text ∧ Slashes slashes ∧ chars = text ++ (slashes ++ left) ∧
      (slashes = [] → left = []) := by
  obtain ⟨behind, hsegment, hbehind⟩ := round_eq_ok_iff.1 h
  obtain ⟨text, hs, rfl, -⟩ := takeSegment_eq_ok_iff.1 hsegment
  obtain ⟨slashes, hslashes, rfl, -, hnone⟩ := takeSlashes_eq_ok_iff.1 hbehind
  exact ⟨text, slashes, hs, hslashes, rfl, hnone⟩

theorem rounds_of_spelled {p : Path} {chars : List Char} (h : Spelled p chars) : rounds chars = .ok p := by
  induction h with
  | @last s text behind hs hbehind =>
    have hround := round_of_spells hs hbehind rfl fun _ => rfl
    rw [List.append_nil] at hround
    rw [rounds_of_ok hround, rounds]
    rfl
  | next hs hbetween hne hrest ih =>
    rw [rounds_of_ok (round_of_spells hs hbetween hrest.passSlashes_eq fun h => absurd h hne), ih]
    rfl

/-- **What rounds take**: nothing, or segments as they are spelled. -/
theorem rounds_eq_ok_iff {chars : List Char} {p : Path} :
    rounds chars = .ok p ↔ p = [] ∧ chars = [] ∨ Spelled p chars := by
  constructor
  · intro h
    induction chars using rounds.induct generalizing p with
    | case1 =>
      rw [rounds] at h
      cases h
      exact .inl ⟨rfl, rfl⟩
    | case2 c rest stop hround =>
      rw [rounds_of_error hround (List.cons_ne_nil _ _)] at h
      cases h
    | case3 c rest s left hround _ ih =>
      rw [rounds_of_ok hround] at h
      obtain ⟨q, hq, rfl⟩ := map_eq_ok_iff.1 h
      obtain ⟨text, slashes, hs, hslashes, hchars, hnone⟩ := spells_of_round hround
      rw [hchars]
      right
      rcases ih hq with ⟨rfl, rfl⟩ | hspelled
      · rw [List.append_nil]
        exact .last hs hslashes
      · refine .next hs hslashes (fun hnil => ?_) hspelled
        rw [hnone hnil] at hq
        rw [rounds] at hq
        cases hq
        exact hspelled.ne_nil rfl
  · rintro (⟨rfl, rfl⟩ | h)
    · rw [rounds]
    · exact rounds_of_spelled h

/-- An expression is written for a path if that is what rounds take behind its first slashes. -/
theorem written_iff_rounds {p : Path} {chars : List Char} : Written p chars ↔ rounds (passSlashes chars) = .ok p := by
  rw [rounds_eq_ok_iff]
  constructor
  · intro h
    cases h with
    | root h => exact .inl ⟨rfl, passSlashes_of_slashes h⟩
    | path hbefore h =>
      rw [passSlashes_append hbefore, h.passSlashes_eq]
      exact .inr h
  · obtain ⟨slashes, hslashes, hchars⟩ := exists_slashes chars
    rintro (⟨rfl, hnil⟩ | h)
    · rw [hnil, List.append_nil] at hchars
      rw [hchars]
      exact .root hslashes
    · rw [hchars]
      exact .path hslashes h

theorem read_eq_ok_iff {expr : String} {p : Path} : read expr = .ok p ↔ Written p expr.toList := by
  rw [written_iff_rounds, read_eq_rounds]
  cases rounds (passSlashes expr.toList) <;> simp [mapError_ok, mapError_error]

/-- **What is read** is what the grammar allows, each expression as the path of its segments. The rounds in which this
can be done end, whatever the expression: each of them takes a character at least. -/
theorem slash_reads_written (expr : String) :
    (∀ p, Resolver.slash expr = .ok p ↔ Written p expr.toList) ∧
      (∀ chars s left, round chars = .ok (s, left) → left.length < chars.length) ∧
      ∃ outcome, (∀ n, expr.toList.length ≤ n → loop n (passSlashes expr.toList) = some outcome) ∧
        read expr = outcome.mapError (Stop.fault (bytes expr.toList)) := by
  refine ⟨fun p => ?_, fun chars s left => length_lt_of_round, rounds (passSlashes expr.toList), ?_,
    read_eq_rounds expr⟩
  · rw [← read_eq_ok_iff, Resolver.slash]
    cases read expr <;> simp [mapError_ok, mapError_error]
  · intro n hn
    exact loop_eq_rounds (Nat.le_trans (length_passSlashes_le _) hn)

end AccessRules.Expression
