import AccessRules.Proofs.Rounds
import Mathlib.Data.List.Basic

/-!
# What expressions begin with

Reading passes over characters from place to place (`pass`), until one of them is refused or the end is (`Refused`).
What has been passed can always be completed, by one letter at most, and what is refused is refused whatever follows. So
the characters that can be passed are exactly those that some expression begins with (`begins_iff_pass`), and a text that
is no expression is given up behind the longest part of it that some expression begins with. What is said to be missing
there shows in how this part ends (`slash_stops_behind_longest_beginning`).
-/

namespace AccessRules

namespace Expression

variable {place next : Place} {chars left : List Char} {p : Path} {offset : Nat}

/-! ## From place to place -/

/-- What an expression is said to lack when reading cannot go on from a place. -/
def Place.expects : Place → Expected
  | between => .segment
  | dollar => .captureName
  | literal _ | capture _ => .slash

/-- Pass over characters: the segments that end on the way, and the place behind. -/
def pass : Place → List Char → Option (Path × Place)
  | place, [] => some ([], place)
  | place, c :: rest =>
    match advance c place with
    | .error _ => none
    | .ok (s?, next) => (pass next rest).map fun r => (s?.toList ++ r.1, r.2)

/-- Reading does not get beyond a place with what is left. -/
inductive Refused : Place → List Char → Prop
  | character {place : Place} {c : Char} {rest : List Char} :
      advance c place = .error place.expects → Refused place (c :: rest)
  /-- An expression does not end behind a `$`. -/
  | atEnd : Refused .dollar []

theorem expects_of_advance {c : Char} {expected : Expected} (h : advance c place = .error expected) :
    expected = place.expects := by
  cases place <;> rw [advance] at h <;> repeat' split at h
  all_goals cases h <;> rfl

theorem pass_cons {c : Char} {s? : Option Segment} (h : advance c place = .ok (s?, next)) (rest : List Char) :
    pass place (c :: rest) = (pass next rest).map fun r => (s?.toList ++ r.1, r.2) := by
  rw [pass, h]

theorem map_nil_append {ε : Type} (x : Except ε Path) : x.map ([] ++ ·) = x := by cases x <;> rfl

theorem map_append_map {ε : Type} (x : Except ε Path) (p q : Path) :
    (x.map (q ++ ·)).map (p ++ ·) = x.map (p ++ q ++ ·) := by
  cases x with
  | error e => rfl
  | ok r => exact congrArg _ (List.append_assoc p q r).symm

theorem readFrom_cons {c : Char} {s? : Option Segment} (h : advance c place = .ok (s?, next)) (offset : Nat)
    (rest : List Char) :
    readFrom place offset (c :: rest) = (readFrom next (offset + c.utf8Size) rest).map (s?.toList ++ ·) := by
  rw [readFrom, h]
  cases s? with
  | none => exact (map_nil_append _).symm
  | some s => rfl

theorem pass_cons_eq_some {c : Char} {rest : List Char} (h : pass place (c :: rest) = some (p, next)) :
    ∃ s? middle q, advance c place = .ok (s?, middle) ∧ pass middle rest = some (q, next) ∧ s?.toList ++ q = p := by
  cases hstep : advance c place with
  | error expected =>
    rw [pass, hstep] at h
    cases h
  | ok step =>
    obtain ⟨s?, middle⟩ := step
    rw [pass_cons hstep] at h
    obtain ⟨⟨q, _⟩, hrest, heq⟩ := Option.map_eq_some_iff.1 h
    cases heq
    exact ⟨s?, middle, q, rfl, hrest, rfl⟩

theorem readFrom_cons_eq_ok {c : Char} {rest : List Char} (h : readFrom place offset (c :: rest) = .ok p) :
    ∃ s? next q, advance c place = .ok (s?, next) ∧ readFrom next (offset + c.utf8Size) rest = .ok q ∧
      s?.toList ++ q = p := by
  cases hstep : advance c place with
  | error expected =>
    rw [readFrom, hstep] at h
    cases h
  | ok step =>
    obtain ⟨s?, next⟩ := step
    rw [readFrom_cons hstep] at h
    obtain ⟨q, hrest, heq⟩ := map_eq_ok_iff.1 h
    exact ⟨s?, next, q, rfl, hrest, heq⟩

theorem bytes_cons (c : Char) (rest : List Char) : bytes (c :: rest) = c.utf8Size + bytes rest := rfl

theorem bytes_append (chars chars' : List Char) : bytes (chars ++ chars') = bytes chars + bytes chars' := by
  simp [bytes]

/-- Behind characters that can be passed reading goes on from the place behind them. -/
theorem readFrom_append (h : pass place chars = some (p, next)) (offset : Nat) (left : List Char) :
    readFrom place offset (chars ++ left) = (readFrom next (offset + bytes chars) left).map (p ++ ·) := by
  induction chars generalizing place p offset with
  | nil =>
    cases h
    exact (map_nil_append _).symm
  | cons c rest ih =>
    obtain ⟨s?, middle, q, hstep, hrest, rfl⟩ := pass_cons_eq_some h
    rw [List.cons_append, readFrom_cons hstep, ih hrest, map_append_map, bytes_cons, Nat.add_assoc]

theorem readFrom_of_refused (h : Refused place left) (offset : Nat) :
    readFrom place offset left = .error ⟨place.expects, offset⟩ := by
  cases h with
  | character h => rw [readFrom, h]
  | atEnd => rfl

/-- **Where reading fails**, it has passed what is in front, and what is left is refused. -/
theorem readFrom_eq_error_iff {fault : Fault} :
    readFrom place offset chars = .error fault ↔
      ∃ taken left p next, chars = taken ++ left ∧ pass place taken = some (p, next) ∧ Refused next left ∧
        fault = ⟨next.expects, offset + bytes taken⟩ := by
  constructor
  · intro h
    -- Either the first character is refused where reading stands, or the fault is one of the rest.
    induction chars generalizing place offset with
    | nil =>
      cases place <;> cases h
      exact ⟨[], [], [], .dollar, rfl, rfl, .atEnd, rfl⟩
    | cons c rest ih =>
      cases hstep : advance c place with
      | error expected =>
        rw [readFrom, hstep] at h
        obtain rfl := expects_of_advance hstep
        cases h
        exact ⟨[], c :: rest, [], place, rfl, rfl, .character hstep, rfl⟩
      | ok step =>
        obtain ⟨s?, place'⟩ := step
        rw [readFrom_cons hstep] at h
        cases hrest : readFrom place' (offset + c.utf8Size) rest with
        | ok q => rw [hrest] at h; cases h
        | error fault' =>
          rw [hrest] at h
          cases h
          obtain ⟨taken, left, q, next, rfl, hpass, hrefused, rfl⟩ := ih hrest
          refine ⟨c :: taken, left, s?.toList ++ q, next, rfl, ?_, hrefused, ?_⟩
          · rw [pass_cons hstep, hpass]
            rfl
          · rw [bytes_cons, Nat.add_assoc]
  · rintro ⟨taken, left, p, next, rfl, hpass, hrefused, rfl⟩
    rw [readFrom_append hpass, readFrom_of_refused hrefused]
    rfl

/-! ## What can be passed -/

theorem pass_append (place : Place) (chars left : List Char) :
    pass place (chars ++ left) = (pass place chars).bind fun r => (pass r.2 left).map fun r' => (r.1 ++ r'.1, r'.2) := by
  induction chars generalizing place with
  | nil => simp [pass]
  | cons c rest ih =>
    cases hstep : advance c place with
    | error expected => simp [pass, hstep]
    | ok step =>
      obtain ⟨s?, next⟩ := step
      rw [List.cons_append, pass_cons hstep, pass_cons hstep, ih]
      cases pass next rest <;> simp [Function.comp_def]

/-- What is refused cannot be passed, whatever follows. -/
theorem Refused.pass_eq_none {c : Char} {rest : List Char} (h : Refused place (c :: rest)) (rest' : List Char) :
    pass place (c :: rest') = none := by
  cases h with
  | character h => rw [pass, h]

/-- From every place a letter at most completes an expression. -/
theorem exists_completion (place : Place) (offset : Nat) :
    ∃ left p, readFrom place offset left = .ok p := by
  cases place with
  | between => exact ⟨[], _, rfl⟩
  | dollar => exact ⟨['a'], _, rfl⟩
  | literal text => exact ⟨[], _, rfl⟩
  | capture name => exact ⟨[], _, rfl⟩

theorem pass_of_readFrom {q : Path} (h : readFrom place offset (chars ++ left) = .ok q) :
    (pass place chars).isSome = true := by
  induction chars generalizing place offset q with
  | nil => rfl
  | cons c rest ih =>
    obtain ⟨s?, next, q', hstep, hrest, -⟩ := readFrom_cons_eq_ok h
    rw [pass_cons hstep, Option.isSome_map]
    exact ih hrest

theorem isSome_pass_of_append {taken : List Char} (h : (pass place (taken ++ left)).isSome = true) :
    (pass place taken).isSome = true := by
  rw [pass_append] at h
  exact Option.isSome_of_isSome_bind h

/-- **What is refused bounds what can be passed**: of the beginnings of a text it is those that are no longer than what
is passed before. -/
theorem isSome_pass_iff_le {taken start rest : List Char} (hpass : pass place taken = some (p, next))
    (hrefused : Refused next left) (h : start ++ rest = taken ++ left) :
    (pass place start).isSome = true ↔ bytes start ≤ bytes taken := by
  -- The beginning ends within what is passed, or it goes on into what is refused.
  rcases List.append_eq_append_iff.1 h with ⟨more, rfl, -⟩ | ⟨more, rfl, rfl⟩
  · have hstart : (pass place (start ++ more)).isSome = true := by rw [hpass]; rfl
    rw [bytes_append]
    exact iff_of_true (isSome_pass_of_append hstart) (Nat.le_add_right _ _)
  · cases more with
    | nil =>
      rw [List.append_nil, hpass]
      simp
    | cons c more =>
      have hpos := c.utf8Size_pos
      rw [pass_append, hpass, bytes_append, bytes_cons, Option.bind_some, hrefused.pass_eq_none more]
      refine iff_of_false nofun ?_
      omega

/-! ## How it ends -/

theorem place_of_slash {s? : Option Segment} (h : advance '/' place = .ok (s?, next)) : next = .between := by
  cases place <;> cases h <;> rfl

theorem place_of_dollar {s? : Option Segment} (h : advance '$' place = .ok (s?, next)) :
    place = .between ∧ next = .dollar := by
  cases place <;> cases h
  exact ⟨rfl, rfl⟩

/-- No other character leads before a segment or behind a `$`. -/
theorem place_of_other {c : Char} {s? : Option Segment} (h : advance c place = .ok (s?, next)) (hslash : c ≠ '/')
    (hdollar : c ≠ '$') : next ≠ .between ∧ next ≠ .dollar := by
  cases place <;> simp only [advance, hslash, hdollar, if_false] at h <;> split at h
  all_goals cases h <;> simp

theorem between_iff_of_advance {c : Char} {s? : Option Segment} (h : advance c place = .ok (s?, next)) :
    next = .between ↔ c = '/' := by
  by_cases hslash : c = '/'
  · subst hslash
    simp [place_of_slash h]
  by_cases hdollar : c = '$'
  · subst hdollar
    simp [(place_of_dollar h).2]
  · simp [hslash, (place_of_other h hslash hdollar).1]

theorem dollar_iff_of_advance {c : Char} {s? : Option Segment} (h : advance c place = .ok (s?, next)) :
    next = .dollar ↔ c = '$' := by
  by_cases hdollar : c = '$'
  · subst hdollar
    simp [(place_of_dollar h).2]
  by_cases hslash : c = '/'
  · subst hslash
    simp [place_of_slash h]
  · simp [hdollar, (place_of_other h hslash hdollar).2]

theorem pass_concat {c : Char} (h : pass place (chars ++ [c]) = some (p, next)) :
    ∃ q middle s?, pass place chars = some (q, middle) ∧ advance c middle = .ok (s?, next) := by
  rw [pass_append] at h
  obtain ⟨⟨q, middle⟩, hchars, h⟩ := Option.bind_eq_some_iff.1 h
  obtain ⟨⟨q', _⟩, hlast, heq⟩ := Option.map_eq_some_iff.1 h
  cases heq
  obtain ⟨s?, _, _, hstep, hnil, -⟩ := pass_cons_eq_some hlast
  cases hnil
  exact ⟨q, middle, s?, hchars, hstep⟩

/-- A segment is to begin where nothing has been passed or a slash last. -/
theorem between_iff_of_pass (h : pass .between chars = some (p, next)) :
    next = .between ↔ chars = [] ∨ ∃ before, chars = before ++ ['/'] := by
  rcases List.eq_nil_or_concat' chars with rfl | ⟨before, c, rfl⟩
  · cases h
    simp
  · obtain ⟨q, middle, s?, -, hstep⟩ := pass_concat h
    rw [between_iff_of_advance hstep]
    simp

/-- Only there a `$` is passed, and then a name is to follow. -/
theorem dollar_iff_of_pass (h : pass .between chars = some (p, next)) :
    next = .dollar ↔ chars = ['$'] ∨ ∃ before, chars = before ++ ['/', '$'] := by
  rcases List.eq_nil_or_concat' chars with rfl | ⟨before, c, rfl⟩
  · cases h
    simp
  · obtain ⟨q, middle, s?, hbefore, hstep⟩ := pass_concat h
    rw [dollar_iff_of_advance hstep]
    constructor
    · rintro rfl
      -- A segment is to begin in front of the `$`, which shows in the character before.
      obtain ⟨rfl, -⟩ := place_of_dollar hstep
      rcases (between_iff_of_pass hbefore).1 rfl with rfl | ⟨before, rfl⟩
      · exact .inl rfl
      · exact .inr ⟨before, List.append_assoc _ _ _⟩
    · rintro (hchars | ⟨before', hchars⟩)
      · simpa using congrArg List.getLast? hchars
      · simpa using congrArg List.getLast? hchars

/-! ## Beginnings -/

theorem bytes_toList (text : String) : bytes text.toList = text.utf8ByteSize := by
  induction text using String.push_induction with
  | empty => rfl
  | push text c ih =>
    rw [String.toList_push, bytes_append, ih, String.utf8ByteSize_push]
    rfl

theorem expects_eq_segment_iff : place.expects = .segment ↔ place = .between := by cases place <;> simp [Place.expects]

theorem expects_eq_captureName_iff : place.expects = .captureName ↔ place = .dollar := by
  cases place <;> simp [Place.expects]

theorem phrase_inj {a b : Expected} (h : a.phrase = b.phrase) : a = b := by
  cases a <;> cases b <;> simp_all [Expected.phrase]

/-- Some expression begins with the text. -/
def Begins (text : String) : Prop := ∃ (rest : String) (p : Path), Resolver.slash (text ++ rest) = .ok p

def EndsInSlash (text : String) : Prop := ∃ before, text = before ++ "/"

/-- The text ends with a `$` at which a segment begins. -/
def EndsInDollar (text : String) : Prop := text = "$" ∨ ∃ before, text = before ++ "/$"

theorem endsInSlash_iff {text : String} : EndsInSlash text ↔ ∃ before, text.toList = before ++ ['/'] := by
  constructor
  · rintro ⟨before, rfl⟩
    exact ⟨before.toList, String.toList_append⟩
  · rintro ⟨before, h⟩
    exact ⟨String.ofList before, String.toList_inj.1 (by simpa using h)⟩

theorem endsInDollar_iff {text : String} :
    EndsInDollar text ↔ text.toList = ['$'] ∨ ∃ before, text.toList = before ++ ['/', '$'] := by
  refine or_congr ⟨fun h => congrArg String.toList h, fun h => String.toList_inj.1 h⟩ ⟨?_, ?_⟩
  · rintro ⟨before, rfl⟩
    exact ⟨before.toList, String.toList_append⟩
  · rintro ⟨before, h⟩
    exact ⟨String.ofList before, String.toList_inj.1 (by simpa using h)⟩

/-- The error by which an expression is refused for a fault. -/
def Fault.refusal (fault : Fault) (expr : String) : ResolveError := ⟨fault.detail expr, some fault.offset⟩

/-- It shows in the error what was missed, and where. -/
theorem Fault.refusal_inj {fault fault' : Fault} {expr : String} (h : fault.refusal expr = fault'.refusal expr) :
    fault = fault' := by
  obtain ⟨expected, offset⟩ := fault
  obtain ⟨expected', offset'⟩ := fault'
  obtain ⟨hdetail, hoffset⟩ := ResolveError.mk.inj h
  rw [detail, detail, String.append_left_inj, String.append_left_inj, String.append_right_inj] at hdetail
  exact congr (congrArg Fault.mk (phrase_inj hdetail)) (Option.some.inj hoffset)

end Expression

open Expression

theorem Resolver.slash_eq_ok_iff_read {expr : String} {p : Path} : slash expr = .ok p ↔ read expr = .ok p := by
  rw [slash]
  cases read expr <;> simp [mapError_ok, mapError_error]

theorem Resolver.slash_eq_error_iff {expr : String} {error : ResolveError} :
    slash expr = .error error ↔ ∃ fault, read expr = .error fault ∧ error = fault.refusal expr := by
  rw [slash]
  cases read expr <;> simp [mapError_ok, mapError_error, Fault.refusal, eq_comm]

/-- **What expressions begin with** is what can be passed. -/
theorem Expression.begins_iff_pass {text : String} : Begins text ↔ (pass .between text.toList).isSome = true := by
  constructor
  · rintro ⟨rest, p, h⟩
    rw [Resolver.slash_eq_ok_iff_read, read, String.toList_append] at h
    exact pass_of_readFrom h
  · intro h
    obtain ⟨⟨p, next⟩, hpass⟩ := Option.isSome_iff_exists.1 h
    obtain ⟨left, q, hleft⟩ := exists_completion next (0 + bytes text.toList)
    refine ⟨String.ofList left, p ++ q, ?_⟩
    rw [Resolver.slash_eq_ok_iff_read, read, String.toList_append, String.toList_ofList, readFrom_append hpass, hleft]
    rfl

/-- **The offset of a fault** is the size of the longest beginning of the text that some expression begins with: this is
so up to there, and no longer with the next character. Only behind a `$` at which a segment begins it is the size of the
whole text. What is missed is a name there, a segment at the start and behind a slash, and else a slash. -/
theorem slash_stops_behind_longest_beginning {expr : String} {error : ResolveError}
    (h : Resolver.slash expr = .error error) :
    ∃ taken left phrase : String,
      expr = taken ++ left ∧
      error = ⟨"expected " ++ phrase ++ " in " ++ Text.quoted expr, some taken.utf8ByteSize⟩ ∧
      (String.Pos.Raw.mk taken.utf8ByteSize).IsValid expr ∧
      Begins taken ∧
      (∀ start rest, expr = start ++ rest → Begins start → start.utf8ByteSize ≤ taken.utf8ByteSize) ∧
      (∀ c rest, left = String.singleton c ++ rest → ¬ Begins (taken.push c)) ∧
      (taken.utf8ByteSize = expr.utf8ByteSize → EndsInDollar expr) ∧
      (phrase = "variable name, path segment" ↔ EndsInDollar taken) ∧
      (phrase = "path segment" ↔ taken = "" ∨ EndsInSlash taken) ∧
      (phrase = "`/`" ↔ ¬ EndsInDollar taken ∧ taken ≠ "" ∧ ¬ EndsInSlash taken) := by
  obtain ⟨fault, hread, rfl⟩ := Resolver.slash_eq_error_iff.1 h
  obtain ⟨takenChars, leftChars, p, next, hchars, hpass, hrefused, rfl⟩ := readFrom_eq_error_iff.1 hread
  obtain ⟨taken, rfl⟩ : ∃ taken : String, taken.toList = takenChars := ⟨.ofList takenChars, String.toList_ofList⟩
  obtain ⟨left, rfl⟩ : ∃ left : String, left.toList = leftChars := ⟨.ofList leftChars, String.toList_ofList⟩
  have hexpr : expr = taken ++ left := String.toList_inj.1 (hchars.trans String.toList_append.symm)
  -- What is said of beginnings is this, at one beginning or another.
  have hmost : ∀ start rest, expr = start ++ rest → (Begins start ↔ start.utf8ByteSize ≤ taken.utf8ByteSize) := by
    intro start rest hstart
    have hsplit : start.toList ++ rest.toList = taken.toList ++ left.toList := by
      rw [← hchars, hstart, String.toList_append]
    rw [begins_iff_pass, isSome_pass_iff_le hpass hrefused hsplit, bytes_toList, bytes_toList]
  have hdollar : next = .dollar ↔ EndsInDollar taken := (dollar_iff_of_pass hpass).trans endsInDollar_iff.symm
  have hbetween : next = .between ↔ taken = "" ∨ EndsInSlash taken := by
    rw [between_iff_of_pass hpass, endsInSlash_iff, String.toList_eq_nil_iff]
  have hname : next.expects.phrase = "variable name, path segment" ↔ next = .dollar :=
    ⟨fun h => expects_eq_captureName_iff.1 (phrase_inj h), by rintro rfl; rfl⟩
  have hsegment : next.expects.phrase = "path segment" ↔ next = .between :=
    ⟨fun h => expects_eq_segment_iff.1 (phrase_inj h), by rintro rfl; rfl⟩
  have hslash : next.expects.phrase = "`/`" ↔ next ≠ .dollar ∧ next ≠ .between := by
    cases next <;> simp [Place.expects, Expected.phrase]
  refine ⟨taken, left, next.expects.phrase, hexpr, ?_, ?_, (hmost taken left hexpr).2 (Nat.le_refl _),
    fun start rest hstart => (hmost start rest hstart).1, ?_, ?_, hname.trans hdollar, hsegment.trans hbetween, ?_⟩
  · rw [Nat.zero_add, bytes_toList]
    rfl
  · exact String.Pos.Raw.isValid_iff_exists_append.2 ⟨taken, left, hexpr, rfl⟩
  · rintro c rest rfl hbegins
    have hle := (hmost (taken.push c) rest (by rw [hexpr, ← String.append_singleton, String.append_assoc])).1 hbegins
    have hpos := c.utf8Size_pos
    rw [String.utf8ByteSize_push] at hle
    omega
  · intro hsize
    rw [hexpr, String.utf8ByteSize_append] at hsize
    obtain rfl : left = "" := String.utf8ByteSize_eq_zero_iff.1 (by omega)
    rw [hexpr, String.append_empty]
    refine hdollar.1 ?_
    cases hrefused
    rfl
  · rw [hslash, ne_eq, hdollar, ne_eq, hbetween, not_or]

/-- At a letter that may not begin a name, behind characters of more than one byte. -/
theorem slash_stops_behind_dollar :
    let expr := "é//$ü"
    let error : ResolveError := ⟨"expected variable name, path segment in \"é//$ü\"", some 5⟩
    Resolver.slash expr = .error error ∧
      ∃ taken left,
        expr = taken ++ left ∧ error.offset = some taken.utf8ByteSize ∧ Begins taken ∧ EndsInDollar taken ∧
        (∀ start rest, expr = start ++ rest → Begins start → start.utf8ByteSize ≤ taken.utf8ByteSize) ∧
        ∀ c rest, left = String.singleton c ++ rest → ¬ Begins (taken.push c) := by
  intro expr error
  have h : Resolver.slash expr = .error error := by decide
  obtain ⟨taken, left, phrase, hexpr, herror, -, hbegins, hmost, hnext, -, hname, -⟩ :=
    slash_stops_behind_longest_beginning h
  have hwords : "expected " ++ "variable name, path segment" ++ " in " ++ Text.quoted expr = error.detail := by decide
  have hphrase : "variable name, path segment" = phrase := by
    rwa [herror, String.append_left_inj, String.append_left_inj, String.append_right_inj] at hwords
  exact ⟨h, taken, left, hexpr, congrArg ResolveError.offset herror, hbegins, hname.1 hphrase.symm, hmost, hnext⟩

end AccessRules
