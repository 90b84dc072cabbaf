import GoGraft.Proofs.ReadingDepth

/-! Blanks and comments in front of a token. `pass` is the text behind them, and it is the same when
more blanks and whole comments are put in front of a text. Where a comment ends may depend on what
comes behind it, but only if it goes to the end of its line. -/

namespace GoGraft.Go

/-- Whether a character is white space, a newline only where newlines are. -/
def isBlank (newlines : Bool) (c : Char) : Bool :=
  Lexeme.isSpace c && (newlines || c != '\n')

/-- The trivia at the front of a text. -/
def gap (newlines : Bool) (text : Text) : List Tree :=
  ((takeTrivia newlines (text.length + 1) text).map Prod.fst).getD []

/-- The text behind the trivia at its front. -/
def pass (newlines : Bool) (text : Text) : Text :=
  ((takeTrivia newlines (text.length + 1) text).map Prod.snd).getD text

theorem takeTrivia_succ (newlines : Bool) (fuel : Nat) (text : Text) :
    takeTrivia newlines (fuel + 1) text =
      let blank := text.takeWhile (isBlank newlines)
      let lead (trees : List Tree) := if blank.isEmpty then trees else .leaf .blank blank :: trees
      match Lexeme.comment? (text.dropWhile (isBlank newlines)) with
      | some (comment, left) => (takeTrivia newlines fuel left).map fun (trees, last) =>
          (lead (.leaf .comment comment :: trees), last)
      | none => some (lead [], text.dropWhile (isBlank newlines)) := by
  have behind : (if (text.takeWhile (isBlank newlines)).isEmpty then text
      else text.dropWhile (isBlank newlines)) = text.dropWhile (isBlank newlines) := by
    split
    next nothing =>
      have whole := @List.takeWhile_append_dropWhile _ (isBlank newlines) text
      rwa [List.isEmpty_iff.1 nothing, List.nil_append, eq_comm] at whole
    next => rfl
  have same : (fun c => Lexeme.isSpace c && (newlines || c != '\n')) = isBlank newlines := rfl
  simp only [takeTrivia]
  rw [same, behind]
  cases Lexeme.comment? (text.dropWhile (isBlank newlines)) with
  | none => rfl
  | some found =>
    dsimp only
    cases takeTrivia newlines fuel found.2 <;> rfl

theorem takeTrivia_isSome {newlines : Bool} {fuel : Nat} {text : Text} (deep : text.length < fuel) :
    (takeTrivia newlines fuel text).isSome := by
  induction fuel generalizing text with
  | zero => cases deep
  | succ fuel ih =>
    rw [takeTrivia_succ]
    dsimp only
    split
    next comment left read =>
      have shorter := Lexeme.comment?_shorter read
      have bound := (List.dropWhile_sublist (isBlank newlines) (l := text)).length_le
      rw [Option.isSome_map]
      exact ih (by omega)
    next => rfl

theorem takeTrivia_eq {newlines : Bool} {fuel : Nat} {text : Text} (deep : text.length < fuel) :
    takeTrivia newlines fuel text = some (gap newlines text, pass newlines text) := by
  rw [takeTrivia_of_le (Nat.lt_succ_self _) deep, gap, pass]
  obtain ⟨found, taken⟩ := Option.isSome_iff_exists.1
    (@takeTrivia_isSome newlines _ text (Nat.lt_succ_self _))
  rw [taken]
  rfl

theorem takeTrivia_mono {newlines : Bool} {fuel more : Nat} {text rest : Text} {trivia : List Tree}
    (taken : takeTrivia newlines fuel text = some (trivia, rest)) (le : fuel ≤ more) :
    takeTrivia newlines more text = some (trivia, rest) := by
  induction fuel generalizing more text trivia rest with
  | zero => cases taken
  | succ fuel ih =>
    obtain ⟨more, rfl⟩ := Nat.exists_eq_add_of_le' (Nat.one_le_of_lt le)
    rw [takeTrivia_succ] at taken ⊢
    dsimp only at taken ⊢
    split at taken
    next comment left read =>
      obtain ⟨⟨trees, last⟩, inner, same⟩ := Option.map_eq_some_iff.1 taken
      rw [ih inner (Nat.le_of_succ_le_succ le)]
      exact congrArg some same
    next => exact taken

theorem takeTrivia_eq_some {newlines : Bool} {fuel : Nat} {text rest : Text} {trivia : List Tree}
    (taken : takeTrivia newlines fuel text = some (trivia, rest)) :
    trivia = gap newlines text ∧ rest = pass newlines text := by
  have deep : text.length < fuel + text.length + 1 := by omega
  have whole := takeTrivia_mono taken (Nat.le_add_right fuel (text.length + 1))
  rw [← Nat.add_assoc, takeTrivia_eq deep] at whole
  cases whole
  exact ⟨rfl, rfl⟩

/-- The blanks at the front, and a comment behind them with more trivia if there is one. -/
theorem trivia_eq (newlines : Bool) (text : Text) :
    let blank := text.takeWhile (isBlank newlines)
    let lead (trees : List Tree) := if blank.isEmpty then trees else .leaf .blank blank :: trees
    (gap newlines text, pass newlines text) =
      match Lexeme.comment? (text.dropWhile (isBlank newlines)) with
      | some (comment, left) => (lead (.leaf .comment comment :: gap newlines left), pass newlines left)
      | none => (lead [], text.dropWhile (isBlank newlines)) := by
  dsimp only
  apply Option.some.inj
  rw [← takeTrivia_eq (Nat.lt_succ_self _), takeTrivia_succ]
  dsimp only
  split
  next comment left read =>
    have shorter := Lexeme.comment?_shorter read
    have bound := (List.dropWhile_sublist (isBlank newlines) (l := text)).length_le
    rw [takeTrivia_eq (by omega)]
    rfl
  next => rfl

theorem pass_eq (newlines : Bool) (text : Text) :
    pass newlines text =
      match Lexeme.comment? (text.dropWhile (isBlank newlines)) with
      | some (_, left) => pass newlines left
      | none => text.dropWhile (isBlank newlines) := by
  have whole := congrArg Prod.snd (trivia_eq newlines text)
  dsimp only at whole
  rw [whole]
  split <;> rfl

theorem pass_blank {newlines : Bool} {c : Char} (blank : isBlank newlines c) (text : Text) :
    pass newlines (c :: text) = pass newlines text := by
  rw [pass_eq, pass_eq newlines text, List.dropWhile_cons_of_pos blank]

theorem pass_blanks {newlines : Bool} {blanks : Text} (blank : ∀ c ∈ blanks, isBlank newlines c)
    (text : Text) : pass newlines (blanks ++ text) = pass newlines text := by
  induction blanks with
  | nil => rfl
  | cons c blanks ih =>
    obtain ⟨first, others⟩ := List.forall_mem_cons.1 blank
    rw [List.cons_append, pass_blank first, ih others]

theorem Lexeme.comment?_head {text : Text} {found : Text × Text} (read : comment? text = some found) :
    text.head? = some '/' := by
  revert read
  fun_cases comment? text with
  | case1 => exact fun _ => rfl
  | case2 => exact fun _ => rfl
  | case3 => intro read; cases read

theorem pass_comment {newlines : Bool} {comment text : Text}
    (read : Lexeme.comment? (comment ++ text) = some (comment, text)) :
    pass newlines (comment ++ text) = pass newlines text := by
  have slash := Lexeme.comment?_head read
  have solid : (comment ++ text).dropWhile (isBlank newlines) = comment ++ text :=
    Text.dropWhile_of_head fun c first => by
      cases slash.symm.trans first
      cases newlines <;> rfl
  rw [pass_eq, solid, read]

/-- A text that starts with a character of code, or is at its end. -/
structure Solid (newlines : Bool) (text : Text) : Prop where
  first : ∀ c, text.head? = some c → isBlank newlines c = false
  code : Lexeme.comment? text = none

theorem pass_solid {newlines : Bool} {text : Text} (solid : Solid newlines text) :
    pass newlines text = text := by
  rw [pass_eq, Text.dropWhile_of_head solid.first, solid.code]

theorem solid_pass (newlines : Bool) (text : Text) : Solid newlines (pass newlines text) := by
  -- Each comment in front makes the text shorter.
  induction size : text.length using Nat.strongRecOn generalizing text with
  | ind length ih =>
    rw [pass_eq]
    split
    next comment left read =>
      have shorter := Lexeme.comment?_shorter read
      have bound := (List.dropWhile_sublist (isBlank newlines) (l := text)).length_le
      exact ih left.length (by omega) left rfl
    next code =>
      refine ⟨fun c first => ?_, code⟩
      have stop := List.head?_dropWhile_not (isBlank newlines) text
      rw [first] at stop
      simpa using stop

theorem textOfAll_gap (newlines : Bool) (text : Text) :
    Tree.textOfAll (gap newlines text) ++ pass newlines text = text :=
  takeTrivia_append (takeTrivia_eq (Nat.lt_succ_self _))

theorem isTrivia_of_mem_gap {newlines : Bool} {text : Text} :
    ∀ tree ∈ gap newlines text, tree.isTrivia :=
  takeTrivia_isTrivia (takeTrivia_eq (Nat.lt_succ_self _))

theorem wrap_gap (kind : NodeKind) (newlines : Bool) (text : Text) (tree : Tree) (rest : List Tree)
    (solid : tree.isTrivia = false) :
    Tree.wrap kind (gap newlines text ++ tree :: rest) =
      gap newlines text ++ [.node kind (tree :: rest)] := by
  have trivia := @isTrivia_of_mem_gap newlines text
  rw [Tree.wrap, List.takeWhile_append_of_pos trivia, List.dropWhile_append_of_pos trivia,
    List.takeWhile_cons_of_neg (by simp [solid]), List.dropWhile_cons_of_neg (by simp [solid]),
    List.append_nil]

/-! ### Newlines -/

theorem span_isBlank {text : Text} (stop : (text.dropWhile (isBlank false)).head? ≠ some '\n') :
    text.takeWhile (isBlank true) = text.takeWhile (isBlank false) ∧
      text.dropWhile (isBlank true) = text.dropWhile (isBlank false) := by
  induction text with
  | nil => exact ⟨rfl, rfl⟩
  | cons c text ih =>
    cases blank : isBlank false c with
    | true =>
      have more : isBlank true c := Bool.and_eq_true_iff.2 ⟨(Bool.and_eq_true_iff.1 blank).1, rfl⟩
      rw [List.dropWhile_cons_of_pos blank] at stop
      rw [List.takeWhile_cons_of_pos blank, List.dropWhile_cons_of_pos blank,
        List.takeWhile_cons_of_pos more, List.dropWhile_cons_of_pos more, (ih stop).1, (ih stop).2]
      exact ⟨rfl, rfl⟩
    | false =>
      have code : ¬ isBlank false c := Bool.eq_false_iff.1 blank
      rw [List.dropWhile_cons_of_neg code] at stop
      have code' : ¬ isBlank true c := by
        simp only [isBlank, List.head?_cons, ne_eq, Option.some.injEq] at *
        simpa [stop] using code
      rw [List.takeWhile_cons_of_neg code, List.dropWhile_cons_of_neg code,
        List.takeWhile_cons_of_neg code', List.dropWhile_cons_of_neg code']
      exact ⟨rfl, rfl⟩

/-- Trivia that end in front of no newline are the same where newlines are white space. -/
theorem takeTrivia_newlines {fuel : Nat} {text rest : Text} {trees : List Tree}
    (taken : takeTrivia false fuel text = some (trees, rest)) (code : rest.head? ≠ some '\n') :
    takeTrivia true fuel text = some (trees, rest) := by
  induction fuel generalizing text trees with
  | zero => cases taken
  | succ fuel ih =>
    rw [takeTrivia_succ] at taken
    dsimp only at taken
    split at taken
    next comment left read =>
      obtain ⟨⟨more, last⟩, inner, same⟩ := Option.map_eq_some_iff.1 taken
      have slash := Lexeme.comment?_head read
      obtain ⟨front, back⟩ := @span_isBlank text (by rw [slash]; decide)
      cases same
      rw [takeTrivia_succ, front, back]
      dsimp only
      rw [read]
      dsimp only
      rw [ih inner]
      rfl
    next none =>
      cases taken
      obtain ⟨front, back⟩ := span_isBlank code
      rw [takeTrivia_succ, front, back]
      dsimp only
      rw [none]

theorem pass_newlines {text : Text} (code : (pass false text).head? ≠ some '\n') :
    gap true text = gap false text ∧ pass true text = pass false text := by
  have same := takeTrivia_newlines (takeTrivia_eq (Nat.lt_succ_self text.length)) code
  rw [takeTrivia_eq (Nat.lt_succ_self text.length)] at same
  exact ⟨congrArg Prod.fst (Option.some.inj same), congrArg Prod.snd (Option.some.inj same)⟩

/-! ### Comments and what comes behind them -/

namespace Lexeme

theorem blockComment?_ne_nil {text taken rest : Text}
    (read : blockComment? text = some (taken, rest)) : taken ≠ [] := by
  revert read
  fun_cases blockComment? text with
  | case1 left => intro read; cases read; exact List.cons_ne_nil _ _
  | case2 c text =>
    intro read
    obtain ⟨_, _, same⟩ := Option.map_eq_some_iff.1 read
    cases same
    exact List.cons_ne_nil _ _
  | case3 => intro read; cases read

theorem blockComment?_closed {text taken rest : Text}
    (read : blockComment? text = some (taken, rest)) (other : Text) :
    blockComment? (taken ++ other) = some (taken, other) := by
  fun_induction blockComment? text generalizing taken with
  | case1 left => cases read; rfl
  | case2 c text unclosed ih =>
    obtain ⟨⟨inner, left⟩, found, same⟩ := Option.map_eq_some_iff.1 read
    cases same
    obtain ⟨d, more, rfl⟩ := List.exists_cons_of_ne_nil (blockComment?_ne_nil found)
    have whole := blockComment?_append found
    rw [List.cons_append, blockComment?, ih found]
    · rfl
    · intro tail star slash
      cases slash
      exact unclosed (more ++ rest) star whole.symm
  | case3 => cases read

/-- A comment that goes on to the end of its line. -/
def isLineComment (text : Text) : Bool :=
  "//".toList.isPrefixOf text

/-- A comment is closed by its own marks, or it goes on to the end of its line. -/
theorem comment?_kinds {text rest : Text} (read : comment? (text ++ rest) = some (text, rest)) :
    (∀ other, comment? (text ++ other) = some (text, other)) ∨ isLineComment text ∧
      (∀ c, rest.head? = some c → c = '\n') ∧ ∀ more other, (∀ c ∈ more, c ≠ '\n') →
        (∀ c, other.head? = some c → c = '\n') →
          comment? (text ++ more ++ other) = some (text ++ more, other) := by
  generalize text ++ rest = whole at read
  revert read
  fun_cases comment? whole with
  | case1 line =>
    intro read
    cases read
    refine .inr ⟨rfl, fun c first => ?_, fun more other plain stops => ?_⟩
    · have stop := List.head?_dropWhile_not (· != '\n') line
      rw [first] at stop
      simpa using stop
    · have body : ∀ c ∈ line.takeWhile (· != '\n') ++ more, (c != '\n') := by
        rw [List.forall_mem_append]
        exact ⟨List.all_eq_true.1 List.all_takeWhile, fun c held => by simpa using plain c held⟩
      have nothing : other.takeWhile (· != '\n') = [] := by
        cases other with
        | nil => rfl
        | cons c other => exact List.takeWhile_cons_of_neg (by simp [stops c rfl])
      simp only [List.cons_append]
      rw [comment?, List.takeWhile_append_of_pos body, List.dropWhile_append_of_pos body, nothing,
        Text.dropWhile_of_head fun c first => by simp [stops c first], List.append_nil]
  | case2 body =>
    intro read
    obtain ⟨found, block, equal⟩ := Option.map_eq_some_iff.1 read
    cases equal
    refine .inl fun other => ?_
    rw [List.cons_append, List.cons_append, comment?, blockComment?_closed block]
    rfl
  | case3 => intro read; cases read

/-- A comment ends where it did if a newline comes behind it, or the character that came. -/
theorem comment?_behind {text rest other : Text}
    (read : comment? (text ++ rest) = some (text, rest))
    (same : other.head? = some '\n' ∨ other.head? = rest.head?) :
    comment? (text ++ other) = some (text, other) := by
  rcases comment?_kinds read with closed | ⟨_, stops, line⟩
  · exact closed other
  · have again := line [] other (List.forall_mem_nil _) fun c first => by
      rcases same with newline | same
      · exact (Option.some.inj (newline.symm.trans first)).symm
      · exact stops c (same ▸ first)
    rwa [List.append_nil] at again

end Lexeme

/-! ### Tokens -/

namespace Grammar

open Rule

/-- Whether newlines are white space in front of a token. -/
def skipsNewlines (here : Accepts) (symbol : Token) : Bool :=
  !here.terminator && !(symbol.leafKind == .terminator)

theorem reading_token (symbol : Token) (here next : Accepts) (text : Text) :
    reading (token symbol) here next text =
      (symbol.read? here (pass (skipsNewlines here symbol) text)).map fun (found, left) =>
        (gap (skipsNewlines here symbol) text ++ [.leaf symbol.leafKind found], left) := by
  have deep : text.length < 128 * text.length + 1 := by omega
  change run rules (128 * text.length + 1 + 1) _ _ _ _ = _
  simp only [run]
  rw [takeTrivia_eq deep]
  dsimp only
  rw [← skipsNewlines]
  cases symbol.read? here (pass (skipsNewlines here symbol) text) <;> rfl

end Grammar

end GoGraft.Go
