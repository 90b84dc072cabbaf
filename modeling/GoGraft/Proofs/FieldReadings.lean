import GoGraft.Proofs.Probes
import GoGraft.Proofs.Spellings

/-! How a field is read from the front of a declaration. A field has one of three forms, and where its
first word is a name, the whole name is read. -/

namespace GoGraft.Go

open Rule Grammar

/-! ### Characters that start no token -/

/-- Whether a token starts with a character of ASCII, unless it starts with an identifier. -/
def Token.opensInAscii : Token → Bool
  | mark spelling _ => spelling.head?.any (·.toNat < 128)
  | word spelling => spelling.head?.any (·.toNat < 128)
  | _ => true

theorem Token.starts_foreign {x : Char} (far : 128 ≤ x.toNat) (other : Text.startsIdentifier x = false)
    {symbol : Token} (ascii : symbol.opensInAscii) : symbol.starts x = false := by
  have apart (d : Char) (near : d.toNat < 128) : (x == d) = false := by
    rw [beq_eq_false_iff_ne]
    rintro rfl
    exact absurd near (Nat.not_lt.2 far)
  have none {spelling : Text} (near : spelling.head?.any (·.toNat < 128)) :
      (spelling.head? == some x) = false := by
    cases spelling with
    | nil => cases near
    | cons d spelling =>
      have first : d.toNat < 128 := by simpa using near
      rw [List.head?_cons, beq_eq_false_iff_ne]
      rintro ⟨⟩
      exact absurd first (Nat.not_lt.2 far)
  have among {spellings : List Text} (near : spellings.all (·.head?.any (·.toNat < 128))) :
      spellings.any (·.head? == some x) = false := by
    refine List.any_eq_false.2 fun spelling inside => ?_
    rw [none (List.all_eq_true.1 near spelling inside)]
    exact Bool.false_ne_true
  cases symbol with
  | mark spelling notBefore =>
    cases spelling with
    | nil => cases ascii
    | cons d spelling => exact none ascii
  | word spelling => exact none ascii
  | name reserved => exact other
  | number =>
    have digit : x.isDigit = false := by
      rw [Bool.eq_false_iff]
      intro digit
      simp only [Char.isDigit, ge_iff_le, Bool.and_eq_true, decide_eq_true_eq] at digit
      have bound : x.toNat ≤ '9'.toNat := digit.2
      exact absurd (far.trans bound) (by decide)
    rw [starts, digit, apart '.' (by decide)]
    rfl
  | string => rw [starts, apart '\x22' (by decide), apart '\x60' (by decide)]; rfl
  | rune => exact apart '\x27' (by decide)
  | operator => exact among (by decide)
  | assignment => exact among (by decide)
  | terminator =>
    rw [starts, apart '\n' (by decide), apart ';' (by decide), apart '\x00' (by decide)]
    rfl
  | ending => rfl

theorem lacks_of_foreign {x : Char} (far : 128 ≤ x.toNat) (other : Text.startsIdentifier x = false)
    (text : Text) : Lacks Token.opensInAscii (fun _ => True) (x :: text) where
  grows _ _ := trivial
  unread {symbol here} ascii _ newlines := by
    have code : isCode x :=
      @isCode_of (fun c => decide (128 ≤ c.toNat)) (by decide) x (decide_eq_true far)
    rw [pass_solid (solid_of_isCode code text)]
    cases read : symbol.read? here (x :: text) with
    | none => rfl
    | some found =>
      have starts := Token.starts_of_read? read
      rw [Token.starts_foreign far other ascii] at starts
      cases starts

theorem isNameChar_ascii : ∀ code < 128, FieldSpec.isNameChar (Char.ofNat code) →
    Text.continuesIdentifier (Char.ofNat code) := by
  decide +kernel

/-- A name in front of something else is an identifier, or a character in it starts no token. -/
theorem identifier?_isName {word rest one behind : Text} (named : FieldSpec.isName word)
    (stop : ∀ c, rest.head? = some c → Text.continuesIdentifier c = false)
    (read : Lexeme.identifier? (word ++ rest) = some (one, behind)) :
    (one = word ∧ behind = rest) ∨
      ∃ x more, behind = x :: more ∧ 128 ≤ x.toNat ∧ Text.startsIdentifier x = false := by
  obtain ⟨c, more, rfl, starts, continues, ends⟩ := Lexeme.identifier?_parts read
  have whole := Lexeme.identifier?_append read
  rcases List.append_eq_append_iff.1 whole with ⟨tail, rfl, rfl⟩ | ⟨tail, same, rfl⟩
  · cases tail with
    | nil => exact .inl ⟨(List.append_nil _).symm, rfl⟩
    | cons x tail =>
      have stops : Text.continuesIdentifier x = false := ends x rfl
      have char : FieldSpec.isNameChar x :=
        List.all_eq_true.1 (Bool.and_eq_true_iff.1 named).2 x (by simp)
      have far : 128 ≤ x.toNat := by
        refine Nat.not_lt.1 fun near => ?_
        have ascii := isNameChar_ascii x.toNat near
        rw [Char.ofNat_toNat] at ascii
        rw [ascii char] at stops
        cases stops
      refine .inr ⟨x, tail ++ rest, rfl, far, ?_⟩
      rw [Text.continuesIdentifier, if_neg (Nat.not_lt.2 far)] at stops
      simp only [Bool.or_eq_false_iff] at stops
      exact stops.1.1.1.1
  · cases tail with
    | nil => exact .inl ⟨by simpa using same, rfl⟩
    | cons d tail =>
      -- What follows the name would have to continue it.
      have inside : d ∈ more := by
        cases word with
        | nil => cases named
        | cons e word =>
          rw [(List.cons.inj same).2]
          exact List.mem_append_right word List.mem_cons_self
      have stops := stop d rfl
      rw [continues d inside] at stops
      cases stops

theorem Grammar.rules_fail_foreign (name : Name) :
    (rules name).outlook Token.opensInAscii (fun _ => true) = .fails := by
  cases name <;> decide

/-! ### Forms of a field -/

/-- The children of a field and what is left behind it. The words of a field are a name with more names
and a type behind it, or a type with its arguments, which may have a star in front. -/
inductive FieldForm (text : Text) : List Tree → Text → Prop where
  | named {one behind between left rest : Text} {names typed tagged : List Tree} {here after last : Accepts}
      (first : Lexeme.identifier? text = some (one, behind))
      (more : Reads rules (many (seq (mark ",") (node .fieldName name))) here behind names between)
      (type : Reads rules (node .fieldType anyType) after between typed left)
      (tag : Reads rules (opt fieldTag) last left tagged rest) :
      FieldForm text (.node .fieldName [.leaf .token one] :: (names ++ (typed ++ tagged))) rest
  | embedded {one behind between left rest : Text} {dotted bracketed tagged : List Tree}
      {here after last : Accepts}
      (first : Lexeme.identifier? text = some (one, behind))
      (package : Reads rules (opt (seq dot name)) here behind dotted between)
      (arguments : Reads rules (opt fieldTypeArguments) after between bracketed left)
      (tag : Reads rules (opt fieldTag) last left tagged rest) :
      FieldForm text (.node .fieldType (.leaf .token one :: (dotted ++ bracketed)) :: tagged) rest
  | pointer {behind left rest : Text} {typed tagged : List Tree} {here last : Accepts}
      (star : text = '*' :: behind)
      (type : Reads rules (embeddedType typeArguments) here behind typed left)
      (tag : Reads rules (opt fieldTag) last left tagged rest) :
      FieldForm text (.leaf .token ['*'] :: (typed ++ tagged)) rest

theorem trivia_probeBody {c : Char} (code : isCode c) (declaration : Text) :
    gap true (probeBody (c :: declaration)) = [.leaf .blank "\n\t".toList] ∧
      pass true (probeBody (c :: declaration)) = c :: declaration ++ probeEnd :=
  @trivia_of_solid true "\n\t".toList (c :: declaration ++ probeEnd)
    (List.all_eq_true.1 (by decide)) (solid_of_isCode code _)

theorem pass_probeBody (declaration : Text) : pass false (probeBody declaration) = probeBody declaration :=
  pass_solid (solid_terminator rfl _)

section Front

variable {c : Char} (code : isCode c) {declaration rest : Text} {here : Accepts} {trees : List Tree}
include code

theorem reads_front_name {reserved : List Text}
    (reads : Reads rules (token (.name reserved)) here (probeBody (c :: declaration)) trees rest) :
    ∃ found, trees = [.leaf .blank "\n\t".toList, .leaf .token found] ∧
      Lexeme.identifier? (c :: declaration ++ probeEnd) = some (found, rest) := by
  obtain ⟨newlines, found, rfl, read⟩ := reads_name reads
  cases newlines with
  | false =>
    rw [pass_probeBody] at read
    cases read
  | true =>
    obtain ⟨gaps, passed⟩ := trivia_probeBody code declaration
    rw [passed] at read
    rw [gaps]
    exact ⟨found, rfl, read⟩

theorem reads_front_mark {spelling : String} (solid : spelling.toList.head? ≠ some '\n')
    (filled : spelling.toList ≠ [])
    (reads : Reads rules (mark spelling) here (probeBody (c :: declaration)) trees rest) :
    trees = [.leaf .blank "\n\t".toList, .leaf .token spelling.toList] ∧
      c :: declaration ++ probeEnd = spelling.toList ++ rest := by
  obtain ⟨newlines, rfl, read⟩ := reads_mark reads
  cases newlines with
  | false =>
    rw [pass_probeBody] at read
    have first := congrArg List.head? read
    rw [List.head?_append_of_ne_nil _ filled] at first
    exact absurd first.symm solid
  | true =>
    obtain ⟨gaps, passed⟩ := trivia_probeBody code declaration
    rw [passed] at read
    rw [gaps]
    exact ⟨rfl, read⟩

theorem reads_embeddedType (other : c ≠ '~') {arguments : Rule Name}
    (reads : Reads rules (embeddedType arguments) here (probeBody (c :: declaration)) trees rest) :
    ∃ one behind between dotted bracketed before after,
      Lexeme.identifier? (c :: declaration ++ probeEnd) = some (one, behind) ∧
      Reads rules (opt (seq dot name)) before behind dotted between ∧
      Reads rules (opt arguments) after between bracketed rest ∧
      trees = [.leaf .blank "\n\t".toList,
        .node .fieldType (.leaf .token one :: (dotted ++ bracketed))] := by
  obtain ⟨inner, whole, rfl⟩ := reads.children
  rcases whole.choice with plain | tilde
  · obtain ⟨front, between, bracketed, after, first, arguments, rfl⟩ := plain.parts
    obtain ⟨front, behind, dotted, before, one, package, rfl⟩ := first.parts
    obtain ⟨found, rfl, read⟩ := reads_front_name code one
    exact ⟨found, behind, between, dotted, bracketed, before, after, read, package, arguments, rfl⟩
  · obtain ⟨front, between, back, after, first, -, rfl⟩ := tilde.parts
    obtain ⟨-, same⟩ := reads_front_mark code (by decide) (by decide) first
    exact absurd (List.cons.inj same).1 other

theorem reads_field (other : c ≠ '~')
    (reads : Reads rules field here (probeBody (c :: declaration)) trees rest) :
    ∃ children, FieldForm (c :: declaration ++ probeEnd) children rest ∧
      trees = [.leaf .blank "\n\t".toList, .node .field children] := by
  obtain ⟨inner, whole, rfl⟩ := reads.children
  rcases whole.choice with embedded | named
  · obtain ⟨front, between, back, after, first, others, rfl⟩ := embedded.parts
    obtain ⟨tagged, left, ended, last, tag, ahead, rfl⟩ := others.parts
    obtain ⟨rfl, rfl, -⟩ := ahead.looked
    rcases first.choice with plain | pointer
    · obtain ⟨one, behind, middle, dotted, bracketed, before, beyond, read, package, arguments, rfl⟩ :=
        reads_embeddedType code other plain
      refine ⟨_, .embedded read package arguments tag, ?_⟩
      rw [List.append_nil]
      rfl
    · obtain ⟨front, behind, typed, beyond, star, type, rfl⟩ := pointer.parts
      obtain ⟨rfl, same⟩ := reads_front_mark code (by decide) (by decide) star
      refine ⟨_, .pointer same type tag, ?_⟩
      rw [List.append_nil]
      rfl
  · obtain ⟨front, between, back, after, names, others, rfl⟩ := named.parts
    obtain ⟨typed, left, tagged, last, type, tag, rfl⟩ := others.parts
    obtain ⟨front, behind, more, beyond, first, rounds, rfl⟩ := names.parts
    obtain ⟨inner, one, rfl⟩ := first.children
    obtain ⟨found, rfl, read⟩ := reads_front_name code one
    exact ⟨_, .named read rounds type tag, rfl⟩

end Front

/-! ### Parts of a field -/

section Parts

variable {here : Accepts} {text rest : Text} {trees : List Tree}

theorem lacksNode_of_reads {rule : Rule Name} (kind : NodeKind) (only : rule.makes (· != kind) false)
    (reads : Reads rules rule here text trees rest) : ∀ tree ∈ trees, tree.isNode kind = false := by
  intro tree inside
  cases tree with
  | leaf => rfl
  | node other children =>
    have apart := @Derives.makes _ _ _ false nofun _ _ reads.derives only _ _ inside
    exact beq_eq_false_iff_ne.2 (bne_iff_ne.1 apart)

theorem countP_of_reads {rule : Rule Name} {kind : NodeKind} (only : rule.makes (· != kind) false)
    (reads : Reads rules rule here text trees rest) : trees.countP (Tree.isNode kind) = 0 := by
  refine List.countP_eq_zero.2 fun tree inside => ?_
  rw [lacksNode_of_reads kind only reads tree inside]
  exact Bool.false_ne_true

theorem node_mem_wrap (kind : NodeKind) (trees : List Tree) :
    ∃ tree ∈ Tree.wrap kind trees, tree.isNode kind :=
  ⟨_, List.mem_append_right _ (List.mem_singleton_self _), beq_self_eq_true kind⟩

theorem reads_names (reads : Reads rules (many (seq (mark ",") (node .fieldName name))) here text trees rest) :
    (trees = [] ∧ rest = text) ∨
      (∃ tree ∈ trees, tree.isNode .fieldName) ∧ ∃ newlines left, pass newlines text = ',' :: left := by
  rcases reads.rounds with none | ⟨front, middle, back, after, round, -, rfl⟩
  · exact .inl none
  · obtain ⟨comma, between, named, beyond, first, second, rfl⟩ := round.parts
    obtain ⟨newlines, -, passed⟩ := reads_mark first
    obtain ⟨inner, -, rfl⟩ := second.children
    obtain ⟨tree, inside, own⟩ := node_mem_wrap .fieldName inner
    refine .inr ⟨⟨tree, ?_, own⟩, newlines, _, passed⟩
    exact List.mem_append_left _ (List.mem_append_right _ inside)

theorem reads_tag (reads : Reads rules (opt fieldTag) here text trees rest) :
    (trees = [] ∧ rest = text) ∨
      (∃ tree ∈ trees, tree.isNode .fieldTag) ∧ ∃ c ∈ quotes, c ∈ Tree.textOfAll trees := by
  rcases reads.option with none | ⟨after, made⟩
  · exact .inl none
  · obtain ⟨inner, string, rfl⟩ := made.children
    refine .inr ⟨node_mem_wrap .fieldTag inner, ?_⟩
    rw [Tree.textOfAll_wrap]
    unfold Grammar.string at string
    cases string with
    | token read =>
      obtain ⟨⟨c, quote, first⟩, -⟩ := Token.spells_of_read? read
      refine ⟨c, quote, ?_⟩
      rw [Tree.textOfAll_append]
      refine List.mem_append_right _ ?_
      simpa [Tree.textOfAll, Tree.text] using List.mem_of_head? first

/-- Only trivia come in front of a node. -/
theorem reads_node {kind : NodeKind} {rule : Rule Name} (leads : rule.leads) (consumes : rule.consumes)
    (reads : Reads rules (node kind rule) here text trees rest) :
    ∃ newlines inner, trees = gap newlines text ++ [.node kind inner] ∧
      Tree.textOfAll inner ++ rest = pass newlines text := by
  obtain ⟨whole, made, rfl⟩ := reads.children
  have spelled := made.spelled
  rcases made.led bounds.consumes rules_leads leads with rfl | ⟨newlines, tree, more, solid, rfl⟩
  · have shorter := made.shorter bounds.consumes consumes
    rw [← spelled] at shorter
    exact absurd shorter (Nat.lt_irrefl _)
  · have code := Tree.isTrivia_of_isPreamble solid
    refine ⟨newlines, tree :: more, wrap_gap _ _ _ _ _ code, ?_⟩
    rw [Tree.textOfAll_append, List.append_assoc] at spelled
    exact List.append_cancel_left (spelled.trans (textOfAll_gap newlines text).symm)

end Parts

/-! ### What is left behind a field -/

theorem brace_mem_of_endsProbe {middle : Text} (ends : EndsProbe middle) : '\x7d' ∈ middle := by
  obtain ⟨behind, ended, last, after, closing, left, line, rest, more, between, brace, -, -⟩ := ends
  obtain ⟨newlines, -, passed⟩ := reads_mark brace
  rw [← between.spelled, ← textOfAll_gap newlines last, passed]
  exact List.mem_append_right _ (List.mem_append_right _ List.mem_cons_self)

/-- A field never reaches behind its declaration. -/
theorem prefix_of_closed {front rest declaration : Text} (spelled : front ++ rest = declaration ++ probeEnd)
    (closed : Closed front) (brace : '\x7d' ∈ rest) : front <+: declaration := by
  rcases List.append_eq_append_iff.1 spelled with ⟨tail, rfl, -⟩ | ⟨tail, rfl, parts⟩
  · exact List.prefix_append front tail
  · cases tail with
    | nil => rw [List.append_nil]
    | cons c tail =>
      obtain ⟨rfl, others⟩ := List.cons.inj parts
      cases tail with
      | nil => exact absurd List.getLast?_concat closed
      | cons d tail =>
        -- The closing brace would be part of the field.
        obtain ⟨rfl, last⟩ := List.cons.inj others
        have inside : '\x7d' ∈ ['\n'] := last ▸ List.mem_append_right tail brace
        exact absurd inside (by decide)

theorem isBare_probeEnd {text : Text} (bare : isBare text) : isBare (text ++ probeEnd) :=
  @isBare_between text ['\x7d', '\n'] '\n' (by decide) bare (by decide)

/-- A text without comments, literals and ends of items, and with no white space at its end. -/
structure Calm (text : Text) : Prop where
  bare : isBare text
  unended : ∀ c ∈ text, endsItem c = false
  solid : ∀ c, text.getLast? = some c → Lexeme.isSpace c = false

namespace Calm

theorem suffix {text tail : Text} (calm : Calm text) (held : tail <:+ text) : Calm tail := by
  obtain ⟨front, rfl⟩ := held
  refine ⟨(isBare_append calm.bare).2, fun c inside => calm.unended c (List.mem_append_right _ inside), ?_⟩
  intro c last
  apply calm.solid c
  rw [List.getLast?_append, last]
  rfl

/-- Some code is at the front, behind white space. -/
theorem opens {text : Text} (calm : Calm text) (filled : text ≠ []) (newlines : Bool) :
    ∃ c more, pass newlines (text ++ probeEnd) = c :: (more ++ probeEnd) ∧ c :: more <:+ text := by
  rw [pass_of_isBare (isBare_probeEnd calm.bare)]
  have solid := calm.solid
  clear calm
  induction text with
  | nil => exact absurd rfl filled
  | cons c text ih =>
    cases blank : isBlank newlines c with
    | false =>
      refine ⟨c, text, ?_, List.suffix_refl _⟩
      rw [List.cons_append, List.dropWhile_cons_of_neg (by simp [blank])]
    | true =>
      have more : text ≠ [] := by
        rintro rfl
        have space := (Bool.and_eq_true_iff.1 blank).1
        rw [solid c rfl] at space
        cases space
      have last : ∀ d, text.getLast? = some d → Lexeme.isSpace d = false := by
        intro d last
        apply solid d
        rw [List.getLast?_cons, last]
        rfl
      obtain ⟨d, others, dropped, tail⟩ := ih more last
      refine ⟨d, others, ?_, tail.trans (List.suffix_cons c text)⟩
      rw [List.cons_append, List.dropWhile_cons_of_pos blank, dropped]

theorem not_reads_terminator {text rest : Text} {here : Accepts} {trees : List Tree} (calm : Calm text)
    (filled : text ≠ []) : ¬ Reads rules terminator here (text ++ probeEnd) trees rest := by
  intro reads
  obtain ⟨c, more, passed, held⟩ := calm.opens filled false
  obtain ⟨ending, -, taken, known⟩ := reads_terminator reads
  rw [passed] at taken
  rcases known with ⟨rfl, rfl⟩ | ⟨d, rfl, ends⟩
  · cases taken
  · cases (List.cons.inj taken).1
    rw [calm.unended c (held.subset List.mem_cons_self)] at ends
    cases ends

end Calm

theorem Grammar.rules_fail_at_brace (name : Name) :
    (rules name).outlook (Token.avoids ['\x7d']) (fun _ => true) = .fails := by
  cases name <;> decide

theorem not_reads_file_brace {here : Accepts} {trees : List Tree} {rest : Text} :
    ¬ Reads rules file here ['\x7d', '\n'] trees rest := by
  intro reads
  have opens : Opens ['\x7d'] ['\x7d', '\n'] := by
    intro newlines
    exact ⟨'\x7d', List.mem_singleton_self _, ['\n'], pass_solid (solid_of_isCode (by decide) _)⟩
  exact reads.fails (by decide) (fun name _ => rules_fail_at_brace name) (lacks_of_opens opens) trivial

/-- A field takes all of a declaration in which nothing ends it. -/
theorem eq_nil_of_endsProbe {tail : Text} (calm : Calm tail) (ends : EndsProbe (tail ++ probeEnd)) :
    tail = [] := by
  by_contra filled
  obtain ⟨behind, ended, last, after, closing, left, line, rest, more, between, brace, item, file⟩ := ends
  rcases between.option with ⟨-, rfl⟩ | ⟨_, ending⟩
  · -- The struct could be closed here, but then the brace behind the declaration is one too many.
    obtain ⟨newlines, -, taken⟩ := reads_mark brace
    obtain ⟨c, others, passed, held⟩ := calm.opens filled newlines
    rw [passed] at taken
    obtain ⟨rfl, rfl⟩ := List.cons.inj taken
    have shorter : Calm others := calm.suffix ((List.suffix_cons _ others).trans held)
    by_cases none : others = []
    · subst none
      have line : pass false ([] ++ probeEnd) = '\n' :: ['\x7d', '\n'] :=
        pass_solid (solid_terminator rfl _)
      obtain ⟨ending, -, taken, known⟩ := reads_terminator item
      rw [line] at taken
      rcases known with ⟨rfl, rfl⟩ | ⟨d, rfl, -⟩
      · cases taken
      · obtain rfl := (List.cons.inj taken).2
        exact not_reads_file_brace file
    · exact shorter.not_reads_terminator none item
  · exact calm.not_reads_terminator filled ending

/-- Every field has a type, and only a tag can come behind it. -/
theorem FieldForm.split {text rest : Text} {parts : List Tree} (form : FieldForm text parts rest) :
    ∃ front inner tagged last left, parts = front ++ .node .fieldType inner :: tagged ∧
      (∀ tree ∈ front, tree.isNode .fieldType = false ∧ tree.isNode .fieldTag = false) ∧
      Reads rules (opt fieldTag) last left tagged rest := by
  cases form with
  | @named one behind between left rest names typed tagged _ _ last first more type tag =>
    obtain ⟨newlines, inner, rfl, -⟩ := reads_node rfl rfl type
    refine ⟨.node .fieldName [.leaf .token one] :: (names ++ gap newlines between), inner, tagged, last,
      left, by simp, ?_, tag⟩
    refine List.forall_mem_cons.2 ⟨⟨rfl, rfl⟩, List.forall_mem_append.2 ⟨fun tree inside => ?_, ?_⟩⟩
    · exact ⟨lacksNode_of_reads .fieldType (by decide) more tree inside,
        lacksNode_of_reads .fieldTag (by decide) more tree inside⟩
    · exact fun tree inside => ⟨isNode_of_mem_gap _ tree inside, isNode_of_mem_gap _ tree inside⟩
  | embedded first package arguments tag => exact ⟨[], _, _, _, _, rfl, List.forall_mem_nil _, tag⟩
  | pointer star type tag =>
    obtain ⟨inner, -, rfl⟩ := type.children
    refine ⟨.leaf .token ['*'] :: inner.takeWhile Tree.isTrivia,
      inner.dropWhile Tree.isTrivia, _, _, _, ?_, ?_, tag⟩
    · simp [Tree.wrap]
    · refine List.forall_mem_cons.2 ⟨⟨rfl, rfl⟩, fun tree inside => ?_⟩
      have trivia := List.all_eq_true.1 List.all_takeWhile tree inside
      exact ⟨isNode_of_isTrivia _ trivia, isNode_of_isTrivia _ trivia⟩

theorem tagged_eq_nil {here : Accepts} {text rest : Text} {tagged : List Tree}
    (tag : Reads rules (opt fieldTag) here text tagged rest)
    (untagged : ∀ part ∈ tagged, part.isNode .fieldTag = false) : tagged = [] := by
  rcases reads_tag tag with ⟨none, -⟩ | ⟨⟨part, inside, own⟩, -⟩
  · exact none
  · rw [untagged part inside] at own
    cases own

theorem FieldForm.untagged {text rest : Text} {parts : List Tree} (form : FieldForm text parts rest)
    (untagged : ∀ part ∈ parts, part.isNode .fieldTag = false) :
    ∃ front inner, parts = front ++ [.node .fieldType inner] ∧
      ∀ tree ∈ front, tree.isNode .fieldType = false := by
  obtain ⟨front, inner, tagged, last, left, rfl, others, tag⟩ := form.split
  obtain rfl := tagged_eq_nil tag fun part inside =>
    untagged part (List.mem_append_right _ (List.mem_cons_of_mem _ inside))
  exact ⟨front, inner, rfl, fun tree inside => (others tree inside).1⟩

/-- A tag is a literal. -/
theorem FieldForm.untagged_of_isBare {text rest : Text} {parts : List Tree}
    (form : FieldForm text parts rest) (bare : isBare (Tree.textOfAll parts)) :
    ∀ part ∈ parts, part.isNode .fieldTag = false := by
  obtain ⟨front, inner, tagged, last, left, rfl, others, tag⟩ := form.split
  rcases reads_tag tag with ⟨rfl, -⟩ | ⟨-, c, quote, inside⟩
  · refine List.forall_mem_append.2 ⟨fun tree inside => (others tree inside).2, ?_⟩
    exact List.forall_mem_singleton.2 rfl
  · refine absurd quote ((isBare_iff.1 bare).1 c ?_)
    rw [Tree.textOfAll_append]
    exact List.mem_append_right _ (List.mem_append_right _ inside)

end GoGraft.Go
