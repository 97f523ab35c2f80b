import AccessRules.Path.Expression
import Mathlib.Algebra.GroupWithZero.Nat

/-!
# Reading in rounds

An expression is read one character at a time (`readFrom`). It can be told in larger steps too: the slashes in front are
passed over, and then rounds follow, each of which takes a segment and the slashes behind it, until nothing is left
(`rounds`). Both tell the same, down to faults and their offsets (`read_eq_rounds`). Each round takes a character at
least (`length_lt_of_round`), so there are no more rounds than characters (`loop_eq_rounds`).
-/

namespace AccessRules.Expression

/-- Where reading stops and why; the place is told by what is left from there on. -/
structure Stop where
  expected : Expected
  left : List Char
  deriving DecidableEq, Repr

/-! ## Taking what belongs together -/

/-- A character to start with and all that continue it, off the front. -/
def takeRun (expected : Expected) (starts continues : Char → Bool) : List Char → Except Stop (String × List Char)
  | [] => .error ⟨expected, []⟩
  | c :: rest =>
    if starts c then .ok (String.ofList (c :: rest.takeWhile continues), rest.dropWhile continues)
    else .error ⟨expected, c :: rest⟩

/-- A character of a literal. -/
def continuesLiteral (c : Char) : Bool := c ≠ '/' && c ≠ '$' && !Text.isWhiteSpace c

/-- A segment off the front, as long as it goes; with a `$` it is settled that it is a capture. -/
def takeSegment : List Char → Except Stop (Segment × List Char)
  | [] => .error ⟨.segment, []⟩
  | c :: rest =>
    if c = '$' then (takeRun .captureName startsName continuesName rest).map fun r => (.capture r.1, r.2)
    else (takeRun .segment continuesLiteral continuesLiteral (c :: rest)).map fun r => (.literal r.1, r.2)

/-- What is left without the slashes in front. -/
def passSlashes (chars : List Char) : List Char := chars.dropWhile (· = '/')

/-- The slashes behind a segment, one at least unless nothing is left. -/
def takeSlashes : List Char → Except Stop (List Char)
  | [] => .ok []
  | c :: rest => if c = '/' then .ok (passSlashes rest) else .error ⟨.slash, c :: rest⟩

/-- A segment and the slashes behind it. -/
def round (chars : List Char) : Except Stop (Segment × List Char) :=
  match takeSegment chars with
  | .error stop => .error stop
  | .ok (s, left) => (takeSlashes left).map fun left => (s, left)

/-! ## What is taken -/

theorem map_eq_ok_iff {ε α β : Type} {x : Except ε α} {f : α → β} {b : β} :
    x.map f = .ok b ↔ ∃ a, x = .ok a ∧ f a = b := by
  cases x <;> simp [Except.map]

/-- Cutting a list where a run of members ends. -/
theorem span_eq_iff {p : Char → Bool} {chars run left : List Char} :
    chars.takeWhile p = run ∧ chars.dropWhile p = left ↔
      chars = run ++ left ∧ (∀ c ∈ run, p c = true) ∧ ∀ c ∈ left.head?, p c = false := by
  constructor
  · rintro ⟨rfl, rfl⟩
    refine ⟨List.takeWhile_append_dropWhile.symm, List.all_eq_true.1 List.all_takeWhile,
      fun c hc => ?_⟩
    have := List.head?_dropWhile_not p chars
    rw [hc] at this
    simpa using this
  · rintro ⟨rfl, hrun, hleft⟩
    have hnone : left.takeWhile p = [] ∧ left.dropWhile p = left := by
      cases left with
      | nil => exact ⟨rfl, rfl⟩
      | cons c rest => simp [hleft c rfl]
    rw [List.takeWhile_append_of_pos hrun, List.dropWhile_append_of_pos hrun, hnone.1, hnone.2, List.append_nil]
    exact ⟨rfl, rfl⟩

theorem takeRun_eq_ok_iff {expected : Expected} {starts continues : Char → Bool} {chars left : List Char}
    {text : String} :
    takeRun expected starts continues chars = .ok (text, left) ↔
      ∃ c run, starts c = true ∧ (∀ d ∈ run, continues d = true) ∧ text = String.ofList (c :: run) ∧
        chars = c :: run ++ left ∧ ∀ d ∈ left.head?, continues d = false := by
  cases chars with
  | nil => simp [takeRun]
  | cons c rest =>
    rw [takeRun]
    split
    · next hc =>
      constructor
      · rintro ⟨⟩
        obtain ⟨hrest, hrun, hleft⟩ := span_eq_iff.1 ⟨rfl, rfl⟩
        exact ⟨c, _, hc, hrun, rfl, congrArg (c :: ·) hrest, hleft⟩
      · rintro ⟨c', run, -, hrun, rfl, heq, hleft⟩
        obtain ⟨rfl, hrest⟩ := List.cons.inj heq
        obtain ⟨htake, hdrop⟩ := span_eq_iff.2 ⟨hrest, hrun, hleft⟩
        rw [htake, hdrop]
    · next hc =>
      refine iff_of_false (by simp) ?_
      rintro ⟨c', run, hc', -, -, heq, -⟩
      cases heq
      exact hc hc'

/-- The characters that are written for a segment. -/
inductive Spells : Segment → List Char → Prop
  | literal {c : Char} {run : List Char} : continuesLiteral c = true → (∀ d ∈ run, continuesLiteral d = true) →
      Spells (.literal (String.ofList (c :: run))) (c :: run)
  | capture {c : Char} {run : List Char} : startsName c = true → (∀ d ∈ run, continuesName d = true) →
      Spells (.capture (String.ofList (c :: run))) ('$' :: c :: run)

/-- Behind the segment this character would belong to it. -/
def continuesSegment (c : Char) : Segment → Bool
  | .literal _ => continuesLiteral c
  | .capture _ => continuesName c

/-- **The segment that is taken** is spelled in front and does not go on behind. -/
theorem takeSegment_eq_ok_iff {chars left : List Char} {s : Segment} :
    takeSegment chars = .ok (s, left) ↔
      ∃ text, Spells s text ∧ chars = text ++ left ∧ ∀ c ∈ left.head?, continuesSegment c s = false := by
  constructor
  · intro h
    cases chars with
    | nil => cases h
    | cons c rest =>
      rw [takeSegment] at h
      split at h
      · next hc =>
        obtain ⟨⟨_, _⟩, hrun, heq⟩ := map_eq_ok_iff.1 h
        obtain ⟨c', run, hstart, hcontinue, rfl, rfl, hend⟩ := takeRun_eq_ok_iff.1 hrun
        cases heq
        exact ⟨_, .capture hstart hcontinue, congrArg (· :: _) hc, hend⟩
      · obtain ⟨⟨_, _⟩, hrun, heq⟩ := map_eq_ok_iff.1 h
        obtain ⟨c', run, hstart, hcontinue, rfl, hrest, hend⟩ := takeRun_eq_ok_iff.1 hrun
        cases heq
        exact ⟨_, .literal hstart hcontinue, hrest, hend⟩
  · rintro ⟨text, hs, rfl, hleft⟩
    cases hs with
    | @literal c run hc hrun =>
      have htake : takeRun .segment continuesLiteral continuesLiteral (c :: run ++ left) = .ok (_, left) :=
        takeRun_eq_ok_iff.2 ⟨c, run, hc, hrun, rfl, rfl, hleft⟩
      have hne : c ≠ '$' := by
        rintro rfl
        cases hc
      rw [List.cons_append, takeSegment, if_neg hne, ← List.cons_append, htake]
      rfl
    | @capture c run hc hrun =>
      have htake : takeRun .captureName startsName continuesName (c :: run ++ left) = .ok (_, left) :=
        takeRun_eq_ok_iff.2 ⟨c, run, hc, hrun, rfl, rfl, hleft⟩
      rw [List.cons_append, takeSegment, if_pos rfl, htake]
      rfl

theorem Spells.length_pos {s : Segment} {text : List Char} (h : Spells s text) : 0 < text.length := by
  cases h <;> exact Nat.succ_pos _

theorem length_passSlashes_le (chars : List Char) : (passSlashes chars).length ≤ chars.length :=
  (List.dropWhile_sublist _).length_le

theorem length_le_of_takeSlashes {chars left : List Char} (h : takeSlashes chars = .ok left) :
    left.length ≤ chars.length := by
  cases chars with
  | nil => cases h; exact Nat.le_refl _
  | cons c rest =>
    rw [takeSlashes] at h
    split at h
    · cases h
      exact Nat.le_succ_of_le (length_passSlashes_le rest)
    · cases h

theorem round_eq_ok_iff {chars left : List Char} {s : Segment} :
    round chars = .ok (s, left) ↔ ∃ behind, takeSegment chars = .ok (s, behind) ∧ takeSlashes behind = .ok left := by
  unfold round
  cases takeSegment chars with
  | error stop => simp
  | ok r =>
    obtain ⟨s', behind⟩ := r
    simp only [map_eq_ok_iff, Except.ok.injEq, Prod.mk.injEq]
    constructor
    · rintro ⟨left, h, rfl, rfl⟩
      exact ⟨behind, ⟨rfl, rfl⟩, h⟩
    · rintro ⟨_, ⟨rfl, rfl⟩, h⟩
      exact ⟨left, h, rfl, rfl⟩

/-- **A round takes a character at least.** -/
theorem length_lt_of_round {chars left : List Char} {s : Segment} (h : round chars = .ok (s, left)) :
    left.length < chars.length := by
  obtain ⟨behind, hsegment, hslashes⟩ := round_eq_ok_iff.1 h
  obtain ⟨text, hs, rfl, -⟩ := takeSegment_eq_ok_iff.1 hsegment
  have hpos := hs.length_pos
  have hle := length_le_of_takeSlashes hslashes
  rw [List.length_append]
  omega

/-! ## Rounds until nothing is left -/

/-- Rounds until nothing is left. -/
def rounds : List Char → Except Stop Path
  | [] => .ok []
  | c :: rest =>
    match h : round (c :: rest) with
    | .error stop => .error stop
    | .ok (s, left) =>
      have := length_lt_of_round h
      (rounds left).map (s :: ·)
termination_by chars => chars.length
decreasing_by assumption

/-- The same with no more than so many rounds; `none` if these are not enough. -/
def loop : Nat → List Char → Option (Except Stop Path)
  | _, [] => some (.ok [])
  | 0, _ :: _ => none
  | n + 1, c :: rest =>
    match round (c :: rest) with
    | .error stop => some (.error stop)
    | .ok (s, left) => (loop n left).map fun path => path.map (s :: ·)

theorem rounds_of_error {chars : List Char} {stop : Stop} (h : round chars = .error stop) (hne : chars ≠ []) :
    rounds chars = .error stop := by
  cases chars with
  | nil => exact absurd rfl hne
  | cons c rest =>
    rw [rounds]
    split
    · next h' => rw [h'] at h; cases h; rfl
    · next h' => rw [h'] at h; cases h

theorem rounds_of_ok {chars left : List Char} {s : Segment} (h : round chars = .ok (s, left)) :
    rounds chars = (rounds left).map (s :: ·) := by
  cases chars with
  | nil => cases h
  | cons c rest =>
    rw [rounds]
    split
    · next h' => rw [h'] at h; cases h
    · next h' => rw [h'] at h; cases h; rfl

/-- **As many rounds as there are characters are enough.** -/
theorem loop_eq_rounds {chars : List Char} {n : Nat} (h : chars.length ≤ n) : loop n chars = some (rounds chars) := by
  induction n generalizing chars with
  | zero =>
    obtain rfl := List.eq_nil_of_length_eq_zero (Nat.le_zero.1 h)
    simp [loop, rounds]
  | succ n ih =>
    cases chars with
    | nil => simp [loop, rounds]
    | cons c rest =>
      rw [loop]
      cases hr : round (c :: rest) with
      | error stop => rw [rounds_of_error hr nofun]
      | ok r =>
        obtain ⟨s, left⟩ := r
        have hlt := length_lt_of_round hr
        rw [rounds_of_ok hr]
        show (loop n left).map _ = _
        rw [ih (by omega)]
        rfl

/-! ## Reading one character at a time -/

/-- What the rounds make of what is left behind a segment. -/
def behind (s : Segment) (left : List Char) : Except Stop Path :=
  match takeSlashes left with
  | .error stop => .error stop
  | .ok left => (rounds left).map (s :: ·)

/-- What they make of it inside of a segment whose text has begun. -/
def behindRun (segment : String → Segment) (continues : Char → Bool) (text : String) (chars : List Char) :
    Except Stop Path :=
  behind (segment (text ++ String.ofList (chars.takeWhile continues))) (chars.dropWhile continues)

/-- What the rounds make of the rest of an expression, from any place in a round. -/
def resume : Place → List Char → Except Stop Path
  | .between, chars => rounds (passSlashes chars)
  | .dollar, chars =>
    match takeRun .captureName startsName continuesName chars with
    | .error stop => .error stop
    | .ok (name, left) => behind (.capture name) left
  | .literal text, chars => behindRun .literal continuesLiteral text chars
  | .capture name, chars => behindRun .capture continuesName name chars

theorem rounds_cons (c : Char) (rest : List Char) :
    rounds (c :: rest) =
      match takeSegment (c :: rest) with
      | .error stop => .error stop
      | .ok (s, left) => behind s left := by
  cases hsegment : takeSegment (c :: rest) with
  | error stop =>
    have hround : round (c :: rest) = .error stop := by rw [round, hsegment]
    exact rounds_of_error hround nofun
  | ok r =>
    obtain ⟨s, left⟩ := r
    have hround : round (c :: rest) = (takeSlashes left).map fun left => (s, left) := by rw [round, hsegment]
    show _ = behind s left
    unfold behind
    cases hslashes : takeSlashes left with
    | error stop =>
      rw [hslashes] at hround
      exact rounds_of_error hround nofun
    | ok left' =>
      rw [hslashes] at hround
      exact rounds_of_ok hround

theorem behind_slash (s : Segment) (rest : List Char) :
    behind s ('/' :: rest) = (resume .between rest).map (s :: ·) := rfl

theorem behind_other (s : Segment) {c : Char} (hc : c ≠ '/') (rest : List Char) :
    behind s (c :: rest) = .error ⟨.slash, c :: rest⟩ := by
  unfold behind
  rw [takeSlashes, if_neg hc]

theorem behindRun_nil (segment : String → Segment) (continues : Char → Bool) (text : String) :
    behindRun segment continues text [] = .ok [segment text] := by
  simp [behindRun, behind, takeSlashes, rounds, Except.map]

theorem behindRun_of_continues (segment : String → Segment) {continues : Char → Bool} (text : String) {c : Char}
    (hc : continues c = true) (rest : List Char) :
    behindRun segment continues text (c :: rest) = behindRun segment continues (text.push c) rest := by
  have htext : text ++ String.ofList (c :: rest.takeWhile continues) =
      text.push c ++ String.ofList (rest.takeWhile continues) := by
    simp [String.ext_iff]
  unfold behindRun
  rw [List.takeWhile_cons_of_pos hc, List.dropWhile_cons_of_pos hc, htext]

theorem behindRun_of_ends (segment : String → Segment) {continues : Char → Bool} (text : String) {c : Char}
    (hc : continues c = false) (rest : List Char) :
    behindRun segment continues text (c :: rest) = behind (segment text) (c :: rest) := by
  unfold behindRun
  simp [hc]

/-- A run that starts here is inside of a segment one character further. -/
theorem takeRun_behind (expected : Expected) (segment : String → Segment) {starts : Char → Bool}
    (continues : Char → Bool) {c : Char} (hc : starts c = true) (rest : List Char) :
    (match takeRun expected starts continues (c :: rest) with
      | .error stop => .error stop
      | .ok (text, left) => behind (segment text) left) = behindRun segment continues c.toString rest := by
  have htext : String.ofList (c :: rest.takeWhile continues) =
      c.toString ++ String.ofList (rest.takeWhile continues) := by
    simp
  rw [takeRun, if_pos hc, htext]
  rfl

section

variable {ε ε' α β : Type}

theorem mapError_ok (g : ε → ε') (a : α) : (Except.ok a).mapError g = .ok a := rfl

theorem mapError_error (g : ε → ε') (e : ε) : (Except.error e : Except ε α).mapError g = .error (g e) := rfl

theorem mapError_map (x : Except ε α) (f : α → β) (g : ε → ε') : (x.map f).mapError g = (x.mapError g).map f := by
  cases x <;> rfl

end

/-- At the end the rounds say what `finish` says. -/
theorem resume_nil (place : Place) : resume place [] = (finish place).mapError (⟨·, []⟩) := by
  cases place with
  | between => simp [resume, passSlashes, rounds, finish, mapError_ok]
  | dollar => rfl
  | literal text => exact behindRun_nil _ _ _
  | capture name => exact behindRun_nil _ _ _

/-- **One character further** the rounds go on from the place to which `advance` leads. -/
theorem resume_cons (place : Place) (c : Char) (rest : List Char) :
    resume place (c :: rest) =
      match advance c place with
      | .error expected => .error ⟨expected, c :: rest⟩
      | .ok (none, next) => resume next rest
      | .ok (some s, next) => (resume next rest).map (s :: ·) := by
  cases place with
  | between =>
    by_cases hslash : c = '/'
    · subst hslash
      rfl
    have hpass : passSlashes (c :: rest) = c :: rest := by simp [passSlashes, hslash]
    rw [resume, hpass, rounds_cons, takeSegment]
    by_cases hdollar : c = '$'
    · subst hdollar
      show _ = resume .dollar rest
      rw [if_pos rfl, resume]
      cases takeRun .captureName startsName continuesName rest <;> rfl
    rw [if_neg hdollar]
    by_cases hspace : Text.isWhiteSpace c = true
    · have hliteral : continuesLiteral c = false := by simp [continuesLiteral, hspace]
      simp [advance, takeRun, hslash, hdollar, hspace, hliteral, Except.map]
    · have hliteral : continuesLiteral c = true := by simp [continuesLiteral, hslash, hdollar, hspace]
      have hrun := takeRun_behind .segment .literal continuesLiteral hliteral rest
      simp only [advance, if_neg hslash, if_neg hdollar, if_neg hspace]
      rw [resume, ← hrun]
      cases takeRun .segment continuesLiteral continuesLiteral (c :: rest) <;> rfl
  | dollar =>
    by_cases hc : startsName c = true
    · simp only [advance, if_pos hc]
      exact takeRun_behind .captureName .capture continuesName hc rest
    · simp only [advance, if_neg hc]
      rw [resume, takeRun, if_neg hc]
  | literal text =>
    rw [resume]
    by_cases hslash : c = '/'
    · subst hslash
      exact (behindRun_of_ends _ _ rfl rest).trans (behind_slash _ rest)
    by_cases hc : continuesLiteral c = true
    · have hother : (c = '$' || Text.isWhiteSpace c) = false := by simpa [continuesLiteral, hslash] using hc
      rw [behindRun_of_continues _ _ hc]
      simp [advance, hslash, hother, resume]
    · have hother : (c = '$' || Text.isWhiteSpace c) = true := by
        simpa [continuesLiteral, hslash, Classical.or_iff_not_imp_left] using hc
      rw [behindRun_of_ends _ _ (Bool.not_eq_true _ ▸ hc), behind_other _ hslash]
      simp [advance, hslash, hother]
  | capture name =>
    rw [resume]
    by_cases hslash : c = '/'
    · subst hslash
      exact (behindRun_of_ends _ _ rfl rest).trans (behind_slash _ rest)
    by_cases hc : continuesName c = true
    · rw [behindRun_of_continues _ _ hc]
      simp [advance, hslash, hc, resume]
    · rw [behindRun_of_ends _ _ (Bool.not_eq_true _ ▸ hc), behind_other _ hslash]
      simp [advance, hslash, hc]

/-! ## Both ways of reading -/

/-- The number of bytes of characters. -/
def bytes (chars : List Char) : Nat := (chars.map Char.utf8Size).sum

/-- The fault where reading stops in an expression of so many bytes. -/
def Stop.fault (size : Nat) (stop : Stop) : Fault := ⟨stop.expected, size - bytes stop.left⟩

theorem readFrom_eq_resume (place : Place) (offset : Nat) (chars : List Char) :
    readFrom place offset chars = (resume place chars).mapError (Stop.fault (offset + bytes chars)) := by
  induction chars generalizing place offset with
  | nil =>
    rw [resume_nil, readFrom]
    cases finish place <;> simp [mapError_ok, mapError_error, Stop.fault, bytes]
  | cons c rest ih =>
    have hsize : offset + bytes (c :: rest) = offset + c.utf8Size + bytes rest := by
      rw [bytes, List.map_cons, List.sum_cons, Nat.add_assoc]
      rfl
    rw [resume_cons, readFrom, hsize]
    cases advance c place with
    | error expected =>
      simp only [mapError_error, Stop.fault]
      rw [← hsize, Nat.add_sub_cancel]
    | ok step =>
      obtain ⟨_ | s, next⟩ := step
      · exact ih next _
      · show (readFrom next _ rest).map _ = _
        rw [mapError_map, ih]

/-- **Reading one character at a time is reading in rounds**, down to faults and their offsets. -/
theorem read_eq_rounds (expr : String) :
    read expr = (rounds (passSlashes expr.toList)).mapError (Stop.fault (bytes expr.toList)) := by
  have hread := readFrom_eq_resume .between 0 expr.toList
  rwa [Nat.zero_add] at hread

end AccessRules.Expression
