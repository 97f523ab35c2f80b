import AccessRules.Proofs.Beginnings
import AccessRules.Proofs.Joining

/-!
# Paths as expressions

A path is rendered with a slash in front of every segment. It is read back from there exactly if each of its segments can
be written in an expression (`Segment.Writable`), and what is read from any expression is such a path. Where two
expressions are joined by a slash, the first one is read as if it stood alone: what is refused in it is refused in the
joined expression at the same offset, and else reading goes on behind the slash as at the start, so that a fault of the
second one is only shifted (`slash_inverts_render_and_joins`).
-/

namespace AccessRules

open Expression

/-! ## What can be written -/

/-- The segment can be written in an expression: a literal is not empty, and no slash, `$` or white space is in it; the
name of a capture begins with a letter or an underscore, and no others but these and digits follow. -/
def Segment.Writable : Segment → Prop
  | literal text => text ≠ "" ∧ ∀ c ∈ text.toList, c ≠ '/' ∧ c ≠ '$' ∧ Text.isWhiteSpace c = false
  | capture name =>
    ∃ c run, name.toList = c :: run ∧ (c.isAlpha = true ∨ c = '_') ∧ ∀ d ∈ run, d.isAlphanum = true ∨ d = '_'

/-- Every segment can be written. -/
def Path.Writable (p : Path) : Prop := ∀ s ∈ p, s.Writable

namespace Expression

theorem continuesLiteral_iff {c : Char} :
    continuesLiteral c = true ↔ c ≠ '/' ∧ c ≠ '$' ∧ Text.isWhiteSpace c = false := by
  simp [continuesLiteral, and_assoc]

theorem startsName_iff {c : Char} : startsName c = true ↔ c.isAlpha = true ∨ c = '_' := by simp [startsName]

theorem continuesName_iff {c : Char} : continuesName c = true ↔ c.isAlphanum = true ∨ c = '_' := by
  simp [continuesName]

/-- A segment has one spelling, its rendered text. -/
theorem Spells.eq_render {s : Segment} {text : List Char} (h : Spells s text) : text = s.render.toList := by
  cases h <;> simp [Segment.render]

/-- **What can be written** is what is spelled by its rendered text. -/
theorem spells_render_iff {s : Segment} : Spells s s.render.toList ↔ s.Writable := by
  constructor
  · intro h
    generalize s.render.toList = text at h
    cases h with
    | @literal c run hc hrun =>
      have hall : ∀ d ∈ c :: run, continuesLiteral d = true := List.forall_mem_cons.2 ⟨hc, hrun⟩
      refine ⟨fun hnil => ?_, fun d hd => ?_⟩
      · simpa using congrArg String.toList hnil
      · rw [String.toList_ofList] at hd
        exact continuesLiteral_iff.1 (hall d hd)
    | capture hc hrun =>
      exact ⟨_, _, String.toList_ofList, startsName_iff.1 hc, fun d hd => continuesName_iff.1 (hrun d hd)⟩
  · intro h
    cases s with
    | literal text =>
      obtain ⟨hne, hall⟩ := h
      obtain ⟨c, run, htext⟩ := List.exists_cons_of_ne_nil fun hnil => hne (String.toList_eq_nil_iff.1 hnil)
      obtain ⟨hc, hrun⟩ := List.forall_mem_cons.1 (htext ▸ hall)
      have hspells := Spells.literal (continuesLiteral_iff.2 hc) fun d hd => continuesLiteral_iff.2 (hrun d hd)
      rw [← htext, String.ofList_toList] at hspells
      exact hspells
    | capture name =>
      obtain ⟨c, run, hname, hc, hrun⟩ := h
      have hspells := Spells.capture (startsName_iff.2 hc) fun d hd => continuesName_iff.2 (hrun d hd)
      have hrender : (Segment.capture name).render.toList = '$' :: name.toList := String.toList_append
      rw [← hname, String.ofList_toList, ← hrender] at hspells
      exact hspells

theorem Spells.writable {s : Segment} {text : List Char} (h : Spells s text) : s.Writable := by
  rw [h.eq_render] at h
  exact spells_render_iff.1 h

theorem Spelled.writable {p : Path} {text : List Char} (h : Spelled p text) : p.Writable := by
  induction h with
  | last hs _ => exact List.forall_mem_singleton.2 hs.writable
  | next hs _ _ _ ih => exact List.forall_mem_cons.2 ⟨hs.writable, ih⟩

theorem Written.writable {p : Path} {chars : List Char} (h : Written p chars) : p.Writable := by
  cases h with
  | root => exact List.forall_mem_nil _
  | path _ h => exact h.writable

/-! ## Rendered paths -/

/-- Segments with a slash in front of each but the first. -/
theorem spelled_render {s : Segment} {p : Path} (hs : s.Writable) (hp : p.Writable) :
    Spelled (s :: p) (s.render.toList ++ p.flatMap fun t => '/' :: t.render.toList) := by
  induction p generalizing s with
  | nil => exact .last (spells_render_iff.2 hs) (List.forall_mem_nil _)
  | cons t p ih =>
    obtain ⟨ht, hp⟩ := List.forall_mem_cons.1 hp
    have hslash : Slashes ['/'] := slashes_cons (List.forall_mem_nil _)
    show Spelled _ (s.render.toList ++ (['/'] ++ (t.render.toList ++ p.flatMap fun t => '/' :: t.render.toList)))
    exact .next (spells_render_iff.2 hs) hslash (List.cons_ne_nil _ _) (ih ht hp)

theorem written_render {p : Path} (h : p.Writable) : Written p p.render.toList := by
  cases p with
  | nil => exact .root (slashes_cons (List.forall_mem_nil _))
  | cons s p =>
    obtain ⟨hs, hp⟩ := List.forall_mem_cons.1 h
    have hchars : (Path.render (s :: p)).toList =
        ['/'] ++ (s.render.toList ++ p.flatMap fun t => '/' :: t.render.toList) := by
      simp [Path.render, String.toList_join, List.flatMap_map]
    rw [hchars]
    exact .path (slashes_cons (List.forall_mem_nil _)) (spelled_render hs hp)

/-! ## Faults in joined expressions -/

theorem Refused.before_slash {place : Place} {left : List Char} (h : Refused place left) (rest : List Char) :
    Refused place (left ++ '/' :: rest) := by
  cases h with
  | character h => exact .character h
  | atEnd => exact .character rfl

/-- Behind an expression and a slash a segment is to begin. -/
theorem pass_slash_of_readFrom {place : Place} {offset : Nat} {chars : List Char} {p : Path}
    (h : readFrom place offset chars = .ok p) : pass place (chars ++ ['/']) = some (p, .between) := by
  induction chars generalizing place offset p with
  | nil => cases place <;> cases h <;> rfl
  | cons c rest ih =>
    obtain ⟨s?, next, q, hstep, hrest, rfl⟩ := readFrom_cons_eq_ok h
    rw [List.cons_append, pass_cons hstep, ih hrest]
    rfl

/-- A fault is found as much further as reading starts further. -/
theorem readFrom_add {place : Place} {offset : Nat} {chars : List Char} {fault : Fault}
    (h : readFrom place offset chars = .error fault) (shift : Nat) :
    readFrom place (shift + offset) chars = .error { fault with offset := shift + fault.offset } := by
  obtain ⟨taken, left, p, next, hchars, hpass, hrefused, rfl⟩ := readFrom_eq_error_iff.1 h
  refine readFrom_eq_error_iff.2 ⟨taken, left, p, next, hchars, hpass, hrefused, ?_⟩
  rw [Nat.add_assoc]

theorem toList_join (expr expr' : String) : (expr ++ "/" ++ expr').toList = expr.toList ++ '/' :: expr'.toList := by
  simp

/-- What is refused is refused as well when another expression is joined to it. -/
theorem read_join_of_error {expr : String} {fault : Fault} (h : read expr = .error fault) (expr' : String) :
    read (expr ++ "/" ++ expr') = .error fault := by
  obtain ⟨taken, left, p, next, hchars, hpass, hrefused, rfl⟩ := readFrom_eq_error_iff.1 h
  -- Only behind a `$` at the end the slash is looked at, and is refused there as the end is.
  refine readFrom_eq_error_iff.2 ⟨taken, left ++ '/' :: expr'.toList, p, next, ?_, hpass, hrefused.before_slash _, rfl⟩
  rw [toList_join, hchars, List.append_assoc]

/-- A fault of an expression that is joined to another one is found as far behind the slash. -/
theorem read_join_of_ok_of_error {expr expr' : String} {p : Path} {fault : Fault} (h : read expr = .ok p)
    (h' : read expr' = .error fault) :
    read (expr ++ "/" ++ expr') = .error { fault with offset := expr.utf8ByteSize + 1 + fault.offset } := by
  have hsize : 0 + bytes (expr.toList ++ ['/']) = expr.utf8ByteSize + 1 + 0 := by
    rw [Nat.zero_add, bytes_append, bytes_toList]
    rfl
  have hjoined : (expr ++ "/" ++ expr').toList = expr.toList ++ ['/'] ++ expr'.toList := by simp
  rw [read, hjoined, readFrom_append (pass_slash_of_readFrom h), hsize, readFrom_add h']
  rfl

end Expression

/-- **Rendering and reading are inverse** on the paths that can be written, and these are what is read from any
expression. **Reading respects joins**: paths of joined expressions are joined, what is refused in the first expression
is refused in the joined one for the same fault, and what is refused in the second one alone is refused there for the
same fault, as far behind the slash. -/
theorem slash_inverts_render_and_joins :
    (∀ p : Path, Resolver.slash p.render = .ok p ↔ p.Writable) ∧
      (∀ (expr : String) (p : Path), Resolver.slash expr = .ok p → p.Writable) ∧
      ∀ expr expr' : String,
        (∀ p p' : Path, Resolver.slash expr = .ok p → Resolver.slash expr' = .ok p' →
          Resolver.slash (expr ++ "/" ++ expr') = .ok (p ++ p')) ∧
        (∀ error, Resolver.slash expr = .error error → ∃ fault : Fault, error = fault.refusal expr ∧
          Resolver.slash (expr ++ "/" ++ expr') = .error (fault.refusal (expr ++ "/" ++ expr'))) ∧
        ∀ (p : Path) (error), Resolver.slash expr = .ok p → Resolver.slash expr' = .error error →
          ∃ fault : Fault, error = fault.refusal expr' ∧
            Resolver.slash (expr ++ "/" ++ expr') =
              .error (Fault.refusal ⟨fault.expected, expr.utf8ByteSize + 1 + fault.offset⟩ (expr ++ "/" ++ expr')) := by
  have hwritable : ∀ (expr : String) (p : Path), Resolver.slash expr = .ok p → p.Writable := fun expr p h =>
    (Resolver.slash_eq_ok_iff.1 h).writable
  refine ⟨fun p => ⟨hwritable p.render p, fun h => Resolver.slash_eq_ok_iff.2 (written_render h)⟩, hwritable, ?_⟩
  intro expr expr'
  refine ⟨fun p p' h h' => Resolver.slash_join h h', ?_, ?_⟩
  · intro error h
    obtain ⟨fault, hread, rfl⟩ := Resolver.slash_eq_error_iff.1 h
    exact ⟨fault, rfl, Resolver.slash_eq_error_iff.2 ⟨fault, read_join_of_error hread expr', rfl⟩⟩
  · intro p error h h'
    obtain ⟨fault, hread', rfl⟩ := Resolver.slash_eq_error_iff.1 h'
    have hread := Resolver.slash_eq_ok_iff_read.1 h
    exact ⟨fault, rfl, Resolver.slash_eq_error_iff.2 ⟨_, read_join_of_ok_of_error hread hread', rfl⟩⟩

/-- White space behind an expression in which there are characters of more than one byte. -/
theorem slash_joins_behind_accented_text :
    let p : Path := [.literal "é", .capture "id"]
    let fault : Fault := ⟨.slash, 1⟩
    p.render = "/é/$id" ∧ p.Writable ∧ Resolver.slash p.render = .ok p ∧
      Resolver.slash "b c" = .error (fault.refusal "b c") ∧
      Resolver.slash "/é/$id/b c" = .error (Fault.refusal ⟨.slash, 9⟩ "/é/$id/b c") ∧
      Resolver.slash "b c//é/$id" = .error (fault.refusal "b c//é/$id") := by
  intro p fault
  have hp : Resolver.slash "/é/$id" = .ok p := by decide
  have hfault : Resolver.slash "b c" = .error (fault.refusal "b c") := by decide
  obtain ⟨hinverse, hwritable, hjoins⟩ := slash_inverts_render_and_joins
  obtain ⟨-, -, hsecond⟩ := hjoins "/é/$id" "b c"
  obtain ⟨-, hfirst, -⟩ := hjoins "b c" "/é/$id"
  obtain ⟨fault', heq, hsecond⟩ := hsecond p _ hp hfault
  obtain ⟨fault'', heq', hfirst⟩ := hfirst _ hfault
  obtain rfl := Fault.refusal_inj heq
  obtain rfl := Fault.refusal_inj heq'
  have hrender := (hinverse p).2 (hwritable _ p hp)
  exact ⟨by decide, hwritable _ p hp, hrender, hfault, hsecond, hfirst⟩

end AccessRules
