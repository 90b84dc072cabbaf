import GoGraft.Proofs.FieldMatches

/-! A field that a directive asks for is checked by its words and by reading a file with it. Here the
two are compared. What was accepted is read as one field that starts where the declaration starts. If no
comment, literal or end of an item is glued to the words, and the brackets in them can be taken in one
way only, it is the field that was asked for. -/

namespace GoGraft

open Go (Tree)
open Go.Rule Go.Grammar

/-! ### Plain words -/

/-- Whether a word has no comment, no literal and nothing that ends an item. -/
def isCalm (word : Text) : Bool :=
  Go.isBare word && word.all (!Go.endsItem ·)

/-- Whether nothing in the words of a field can be taken for something else. Brackets behind the name of
an embedded type are arguments only if they are one pair, and brackets behind the name of a field are
no arguments only if there is more than one pair. -/
def FieldSpec.isPlain : FieldSpec → Bool
  | embedded type =>
    let arguments := type.dropWhile (· != '[')
    isCalm type && (arguments.isEmpty || Go.isBracketed arguments)
  | named _ type => isCalm type && !Go.isBracketed type && !type.head?.any ",.".toList.contains

theorem calm_word {word : Text} (calm : isCalm word) (solid : ∀ c ∈ word, Text.isBlank c = false) :
    Go.Calm word := by
  obtain ⟨bare, unended⟩ := Bool.and_eq_true_iff.1 calm
  refine ⟨bare, by simpa using unended, fun c last => ?_⟩
  exact isSpace_of_solid (solid c (List.mem_of_getLast? last))

theorem FieldSpec.display_named (name type : Text) :
    (named name type).display = name ++ ' ' :: type := by
  simp [display]

theorem calm_named {name type : Text} (word : FieldSpec.isName name) (calm : isCalm type)
    (filled : type ≠ []) (solid : ∀ c ∈ type, Text.isBlank c = false) :
    Go.Calm (FieldSpec.named name type).display := by
  obtain ⟨bare, unended, last⟩ := calm_word calm solid
  have chars : ∀ c ∈ name, FieldSpec.isNameChar c := List.all_eq_true.1 (Bool.and_eq_true_iff.1 word).2
  rw [FieldSpec.display_named]
  refine ⟨?_, ?_, ?_⟩
  · refine Go.isBare_between (by decide) (Go.isBare_of_all fun c inside => ?_)
      (Go.isBare_cons (by decide) bare)
    exact Go.Lexeme.not_mem_of (by decide +kernel) (chars c inside)
  · refine List.forall_mem_append.2 ⟨fun c inside => ?_, List.forall_mem_cons.2 ⟨rfl, unended⟩⟩
    have other : c ∉ ['\n', ';', '\x00'] := Go.Lexeme.not_mem_of (by decide +kernel) (chars c inside)
    simpa [Go.endsItem, not_or, and_assoc] using other
  · intro c ending
    apply last c
    have behind : (name ++ [' '] ++ type).getLast? = type.getLast? :=
      List.getLast?_append_of_ne_nil _ filled
    rwa [← behind, List.append_assoc]

/-- A field takes all of a declaration in which nothing ends it. -/
theorem text_of_calm {display front rest : Text} (calm : Go.Calm display)
    (spelled : front ++ rest = display ++ Go.probeEnd) (initial : front <+: display)
    (ends : EndsProbe rest) : front = display ∧ rest = Go.probeEnd := by
  obtain ⟨tail, rfl⟩ := initial
  rw [List.append_assoc] at spelled
  have left := List.append_cancel_left spelled
  subst left
  have none := Go.eq_nil_of_endsProbe (calm.suffix (List.suffix_append front tail)) ends
  subst none
  exact ⟨(List.append_nil front).symm, rfl⟩

section Named

variable {name type : Text} (word : FieldSpec.isName name) (filled : type ≠ [])
  (solid : ∀ c ∈ type, Text.isBlank c = false) (bare : Go.isBare type)
include filled solid bare

/-- Without comments, a space is all that stands between a name and its type. -/
theorem trivia_behind_name (newlines : Bool) :
    Go.gap newlines (' ' :: (type ++ Go.probeEnd)) = [.leaf .blank [' ']] ∧
      Go.pass newlines (' ' :: (type ++ Go.probeEnd)) = type ++ Go.probeEnd := by
  rcases gap_behind_name filled solid newlines with space | ⟨comment, more, blank, opens⟩
  · exact space
  · have whole : Go.isBare (' ' :: (type ++ Go.probeEnd)) :=
      Go.isBare_cons (by decide) (Go.isBare_probeEnd bare)
    rw [← Go.textOfAll_gap newlines (' ' :: (type ++ Go.probeEnd)), blank] at whole
    have held : Go.isBare comment :=
      (Go.isBare_append (Go.isBare_append (Go.isBare_append whole).1).2).1
    have plain := (Go.isBare_iff.1 held).2 comment (List.suffix_refl comment)
    rw [opens] at plain
    cases plain

/-- A mark that can be read behind a name is at the front of its type. -/
theorem head_of_mark {c : Char} {left : Text} {newlines : Bool}
    (passed : Go.pass newlines (' ' :: (type ++ Go.probeEnd)) = c :: left) : type.head? = some c := by
  rw [(trivia_behind_name filled solid bare newlines).2] at passed
  obtain ⟨d, more, rfl⟩ := List.exists_cons_of_ne_nil filled
  rw [(List.cons.inj passed).1]
  rfl

include word

/-- A name and a type are taken for an embedded type only if the type looks like a part of one. -/
theorem brackets_of_embedded {one behind between : Text} {dotted bracketed : List Tree}
    {here after : Go.Accepts}
    (first : Go.Lexeme.identifier? (name ++ ' ' :: (type ++ Go.probeEnd)) = some (one, behind))
    (package : Reads rules (opt (seq dot Go.Grammar.name)) here behind dotted between)
    (arguments : Reads rules (opt fieldTypeArguments) after between bracketed Go.probeEnd) :
    type.head? = some '.' ∨ Go.isBracketed type := by
  rcases Go.identifier?_isName word (by rintro _ ⟨⟩; rfl) first with
    ⟨rfl, rfl⟩ | ⟨x, tail, rfl, far, other⟩
  · rcases package.option with ⟨rfl, rfl⟩ | ⟨_, dotted⟩
    · rcases arguments.option with ⟨-, none⟩ | ⟨_, arguments⟩
      · cases none
      · obtain ⟨front, middle, back, after, brackets, ahead, rfl⟩ := arguments.parts
        cases ahead
        have own : Tree.textOfAll front = ' ' :: type :=
          List.append_cancel_right (brackets.spelled.trans (List.cons_append ..).symm)
        have held : Go.isBare (Tree.textOfAll front) := by
          rw [own]
          exact Go.isBare_cons (by decide) bare
        obtain ⟨newlines, inner, level, same⟩ :=
          @Go.reads_brackets _ _ _ _ [_, _, _] (by decide) brackets held
        rw [(trivia_behind_name filled solid bare newlines).1, own] at same
        exact .inr (Go.isBracketed_iff.2 ⟨inner, (List.cons.inj same).2, level⟩)
    · obtain ⟨front, middle, back, after, dot, -, -⟩ := dotted.parts
      obtain ⟨newlines, -, passed⟩ := reads_mark dot
      exact .inl (head_of_mark filled solid bare passed)
  · -- Nothing can be read behind a character that starts no token.
    have lacks := Go.lacks_of_foreign far other tail
    obtain ⟨-, rfl⟩ := package.idles_at (by decide) lacks trivial
    obtain ⟨-, same⟩ := arguments.idles_at (by decide) lacks trivial
    cases same
    exact absurd far (by decide)

omit bare in
/-- A name in front of a plain type is the only name of the field. -/
theorem countP_named {parts : List Tree}
    (form : Go.FieldForm (name ++ ' ' :: (type ++ Go.probeEnd)) parts Go.probeEnd)
    (plain : (FieldSpec.named name type).isPlain)
    (untagged : ∀ part ∈ parts, part.isNode .fieldTag = false) :
    parts.countP (Tree.isNode .fieldName) = 1 := by
  simp only [FieldSpec.isPlain, Bool.and_eq_true, Bool.not_eq_true'] at plain
  obtain ⟨⟨calm, unbracketed⟩, head⟩ := plain
  have bare : Go.isBare type := (Bool.and_eq_true_iff.1 calm).1
  cases form with
  | named first names typed tag =>
    obtain ⟨rfl, rfl⟩ := name_of_named word (by rintro _ ⟨⟩; rfl) first names typed
    rcases Go.reads_names names with ⟨rfl, rfl⟩ | ⟨-, newlines, left, passed⟩
    · rw [List.countP_cons_of_pos rfl, List.nil_append, List.countP_append,
        Go.countP_of_reads (by decide) typed, Go.countP_of_reads (by decide) tag]
    · rw [head_of_mark filled solid bare passed] at head
      cases head
  | @embedded _ _ _ left _ _ _ _ _ _ _ first package arguments tag =>
    obtain rfl := Go.tagged_eq_nil tag fun part inside => untagged part (List.mem_cons_of_mem _ inside)
    obtain rfl : Go.probeEnd = left := tag.spelled
    rcases brackets_of_embedded word filled solid bare first package arguments with dot | brackets
    · rw [dot] at head
      cases head
    · rw [brackets] at unbracketed
      cases unbracketed
  | pointer star typed tag =>
    obtain ⟨d, others, rfl, starts, -⟩ := isCode_of_isName word
    cases (List.cons.inj star).1
    cases starts

end Named

theorem opens_bracket (text : Text) : Go.Opens ['['] ('[' :: text) := by
  intro newlines
  exact ⟨'[', List.mem_singleton_self _, text, Go.pass_solid (Go.solid_of_isCode (by decide) _)⟩

/-- What starts with brackets and is a type goes on behind them. -/
theorem isBracketed_of_anyType {here : Go.Accepts} {text rest : Text} {trees : List Tree}
    (reads : Reads rules anyType here ('[' :: text) trees rest)
    (bare : Go.isBare (Tree.textOfAll trees)) : Go.isBracketed (Tree.textOfAll trees) = false := by
  have lacks := Go.lacks_of_opens (opens_bracket text)
  have element {middle : List (Go.Rule Name)}
      (level : ∀ rule ∈ middle, rule.depthAfter? Go.Token.bracketsAfter? 0 = some 0)
      (reads : Reads rules (seq (seq (mark "[") (.sequence (middle ++ [mark "]"]))) anyType) here
        ('[' :: text) trees rest) : Go.isBracketed (Tree.textOfAll trees) = false := by
    obtain ⟨front, between, back, after, brackets, type, rfl⟩ := reads.parts
    rw [Tree.textOfAll_append] at bare ⊢
    obtain ⟨newlines, inner, closed, same⟩ := Go.reads_brackets level brackets (Go.isBare_append bare).1
    rw [Go.gap_solid (Go.solid_of_isCode (by decide) _)] at same
    have filled : Tree.textOfAll back ≠ [] := by
      intro none
      have shorter := type.shorter Go.Grammar.bounds.consumes (by decide)
      rw [← type.spelled, none] at shorter
      exact absurd shorter (Nat.lt_irrefl _)
    have more := Go.isBracketed_more closed filled
    rw [same]
    simpa [Tree.textOfAll] using more
  cases reads with
  | ref made =>
    have made : Reads rules (alt (ref .simpleType) parenthesizedType) here ('[' :: text) trees rest :=
      made
    rcases made.choice with simple | round
    · cases simple with
      | ref simple =>
        -- Only the types of slices and arrays start with a bracket.
        obtain ⟨option, among, read⟩ := Reads.of_choice (List.cons_ne_nil _ _) simple
        simp only [List.mem_cons, List.not_mem_nil, or_false] at among
        rcases among with rfl | rfl | rfl | rfl | rfl | rfl | rfl | rfl | rfl | rfl | rfl
        case inr.inr.inl => exact @element [] (by decide) read
        case inr.inr.inr.inl => exact @element [expression] (by decide) read
        all_goals exact (read.fails_at (by decide) lacks trivial).elim
    · exact (round.fails_at (by decide) lacks trivial).elim

/-- Whether a rule is one of those of a type. -/
def isTypeRule : Name → Bool
  | .anyType => true
  | .simpleType => true
  | _ => false

theorem types_fail (name : Name) (type : isTypeRule name) :
    (rules name).outlook (Go.Token.avoids ['\n', '\x7d', '.']) isTypeRule = .fails := by
  cases name <;> first | decide | cases type

/-- An embedded type is taken for a name and a type only if brackets follow the name, and more follows
the brackets. -/
theorem brackets_of_named {name rest one behind between : Text} {names typed : List Tree}
    {here after : Go.Accepts} (word : FieldSpec.isName name)
    (shapes : rest = [] ∨ (∃ more, rest = '.' :: more) ∨ ∃ more, rest = '[' :: more)
    (bare : Go.isBare rest)
    (first : Go.Lexeme.identifier? (name ++ (rest ++ Go.probeEnd)) = some (one, behind))
    (more : Reads rules (many (seq (mark ",") (node .fieldName Go.Grammar.name))) here behind names
      between)
    (type : Reads rules (node .fieldType anyType) after between typed Go.probeEnd) :
    ∃ more, rest = '[' :: more ∧ Go.isBracketed rest = false := by
  have stop : ∀ c, (rest ++ Go.probeEnd).head? = some c → Text.continuesIdentifier c = false := by
    intro c head
    rcases shapes with rfl | ⟨others, rfl⟩ | ⟨others, rfl⟩ <;> cases head <;> rfl
  obtain ⟨rfl, rfl⟩ := name_of_named word stop first more type
  have blocked (opens : Go.Opens ['\n', '\x7d', '.'] (rest ++ Go.probeEnd)) : False := by
    have lacks := Go.lacks_of_opens opens
    obtain ⟨-, rfl⟩ := more.idles_at (by decide) lacks trivial
    exact type.fails (by decide) types_fail lacks trivial
  rcases shapes with rfl | ⟨others, rfl⟩ | ⟨others, rfl⟩
  · refine (blocked fun newlines => ?_).elim
    cases newlines
    · exact ⟨'\n', by decide, ['\x7d', '\n'], rfl⟩
    · exact ⟨'\x7d', by decide, ['\n'], rfl⟩
  · refine (blocked fun newlines => ⟨'.', by decide, others ++ Go.probeEnd, ?_⟩).elim
    exact Go.pass_solid (Go.solid_of_isCode (by decide) _)
  · refine ⟨others, rfl, ?_⟩
    have lacks := Go.lacks_of_opens (opens_bracket (others ++ Go.probeEnd))
    obtain ⟨rfl, rfl⟩ := more.idles_at (by decide) lacks trivial
    obtain ⟨inner, made, -⟩ := type.children
    have own : Tree.textOfAll inner = '[' :: others := List.append_cancel_right made.spelled
    rw [← own] at bare ⊢
    exact isBracketed_of_anyType made bare

/-- A plain embedded type is not taken for a name and a type. -/
theorem countP_embedded {type : Text} {parts : List Tree}
    (form : Go.FieldForm (type ++ Go.probeEnd) parts Go.probeEnd)
    (embedded : FieldSpec.isEmbeddedType type) (plain : (FieldSpec.embedded type).isPlain)
    (untagged : ∀ part ∈ parts, part.isNode .fieldTag = false) :
    parts.countP (Tree.isNode .fieldName) = 0 := by
  cases form with
  | @named _ _ _ left _ _ _ _ _ _ _ first more typed tag =>
    obtain rfl := Go.tagged_eq_nil tag fun part inside => untagged part
      (List.mem_cons_of_mem _ (List.mem_append_right _ (List.mem_append_right _ inside)))
    obtain rfl : Go.probeEnd = left := tag.spelled
    obtain ⟨star, name, rest, rfl, known, word, shapes⟩ := isEmbeddedType_parts embedded
    rcases known with rfl | rfl
    · obtain ⟨calm, brackets⟩ := Bool.and_eq_true_iff.1 plain
      rw [List.nil_append] at first calm brackets
      rw [List.append_assoc] at first
      have bare : Go.isBare rest := (Go.isBare_append (Bool.and_eq_true_iff.1 calm).1).2
      obtain ⟨others, rfl, unbracketed⟩ := brackets_of_named word shapes bare first more typed
      have outside : ∀ c ∈ name, (c != '[') = true := by
        intro c inside
        have char := List.all_eq_true.1 (Bool.and_eq_true_iff.1 word).2 c inside
        have other : c ∉ ['['] := Go.Lexeme.not_mem_of (by decide +kernel) char
        simpa using other
      rw [List.dropWhile_append_of_pos outside, List.dropWhile_cons_of_neg (by decide),
        unbracketed] at brackets
      cases brackets
    · cases first
  | embedded first package arguments tag =>
    rw [List.countP_cons_of_neg (by simp [Tree.isNode]), Go.countP_of_reads (by decide) tag]
  | pointer star typed tag =>
    rw [List.countP_cons_of_neg (by simp [Tree.isNode]), List.countP_append,
      Go.countP_of_reads (by decide) typed, Go.countP_of_reads (by decide) tag]

/-! ### Accepted fields -/

theorem Text.words_filled (text : Text) :
    ∀ word ∈ Text.words text, word ≠ [] ∧ ∀ c ∈ word, Text.isBlank c = false := by
  have held (start : Text) (plain : ∀ c ∈ start, Text.isBlank c = false) :
      ∀ word ∈ Text.words.go start text, word ≠ [] ∧ ∀ c ∈ word, Text.isBlank c = false := by
    induction text generalizing start with
    | nil =>
      intro word inside
      rw [Text.words.go] at inside
      split at inside
      next => cases inside
      next filled =>
        cases List.mem_singleton.1 inside
        exact ⟨by simpa using filled, fun c inside => plain c (List.mem_reverse.1 inside)⟩
    | cons c text ih =>
      intro word inside
      rw [Text.words.go] at inside
      split at inside
      next =>
        split at inside
        next => exact ih [] (List.forall_mem_nil _) word inside
        next filled =>
          rcases List.mem_cons.1 inside with rfl | later
          · exact ⟨by simpa using filled, fun c inside => plain c (List.mem_reverse.1 inside)⟩
          · exact ih [] (List.forall_mem_nil _) word later
      next code => exact ih (c :: start) (List.forall_mem_cons.2 ⟨by simpa using code, plain⟩) word inside
  exact held [] (List.forall_mem_nil _)

/-- What the words of a field are: an embedded type, or a name and a type, without white space. -/
inductive FieldSpec.Worded : FieldSpec → Prop where
  | embedded {type : Text} (form : isEmbeddedType type) (solid : ∀ c ∈ type, Text.isBlank c = false) :
      Worded (.embedded type)
  | named {name type : Text} (word : isName name) (filled : type ≠ [])
      (solid : ∀ c ∈ type, Text.isBlank c = false) : Worded (.named name type)

theorem worded_of_parse? {text : Text} {spec : FieldSpec}
    (accepted : FieldSpec.parse? text = some spec) : spec.Worded ∧ isFieldDeclaration spec.display := by
  obtain ⟨found, declared⟩ := Option.filter_eq_some_iff.1 accepted
  refine ⟨?_, declared⟩
  have words := Text.words_filled text
  unfold FieldSpec.ofWords? at found
  split at found
  next => cases found
  next type same =>
    rw [same] at words
    split at found
    next form =>
      cases found
      exact .embedded form (words type List.mem_cons_self).2
    next => cases found
  next name type others same =>
    rw [same] at words
    split at found
    next word =>
      cases found
      obtain ⟨filled, solid⟩ := words type (List.mem_cons_of_mem _ List.mem_cons_self)
      exact .named word filled solid
    next => cases found

theorem FieldSpec.Worded.head {spec : FieldSpec} (worded : spec.Worded) :
    ∃ c more, spec.display = c :: more ∧ Go.isCode c ∧ c ≠ '~' := by
  have named {name : Text} (word : isName name) (more : Text) :
      ∃ c others, name ++ more = c :: others ∧ Go.isCode c ∧ c ≠ '~' := by
    obtain ⟨c, others, rfl, starts, code⟩ := isCode_of_isName word
    refine ⟨c, others ++ more, rfl, code, ?_⟩
    rintro rfl
    cases starts
  cases worded with
  | embedded form =>
    obtain ⟨star, name, rest, rfl, known, word, -⟩ := isEmbeddedType_parts form
    rcases known with rfl | rfl
    · exact named word rest
    · exact ⟨'*', name ++ rest, rfl, by decide, by decide⟩
  | named word =>
    rw [FieldSpec.display_named]
    exact named word _

/-- An accepted declaration is read as one field that starts with it. -/
theorem reads_of_worded {spec : FieldSpec} (worded : spec.Worded)
    (declared : isFieldDeclaration spec.display) :
    ∃ node parts rest, SoleField spec.display node ∧ node.tree = .node .field parts ∧
      node.start.offset = "package p\n\ntype T struct \x7b\n\t".length ∧
      Go.FieldForm (spec.display ++ Go.probeEnd) parts rest ∧
      Tree.textOfAll parts ++ rest = spec.display ++ Go.probeEnd ∧
      Tree.textOfAll parts <+: spec.display ∧ EndsProbe rest := by
  obtain ⟨node, trivia, parts, here, rest, sole, tree, blank, start, reads, ends⟩ :=
    soleField_of_isFieldDeclaration declared
  obtain ⟨c, more, display, code, other⟩ := worded.head
  rw [display] at reads
  obtain ⟨children, form, same⟩ := Go.reads_field code other reads
  obtain ⟨rfl, last⟩ := List.append_inj' (show trivia ++ [_] = [_] ++ [_] from same) rfl
  cases last
  have text : Tree.textOfAll ([.leaf .blank "\n\t".toList] ++ [.node .field parts]) =
      "\n\t".toList ++ Tree.textOfAll parts := by
    simp [Tree.textOfAll, Tree.text]
  have spelled : Tree.textOfAll parts ++ rest = c :: more ++ Go.probeEnd := by
    have whole := reads.spelled
    rw [text, List.append_assoc] at whole
    exact List.append_cancel_left whole
  have closed : Go.Closed (Tree.textOfAll parts) := by
    have whole := reads.closed Go.Grammar.bounds.consumes Go.Grammar.rules_closing (by decide)
    rw [text] at whole
    intro last
    apply whole
    rw [List.getLast?_append, last]
    rfl
  rw [← display] at form spelled
  refine ⟨node, parts, rest, sole, tree, start, form, spelled, ?_, ends⟩
  exact Go.prefix_of_closed spelled closed (Go.brace_mem_of_endsProbe ends)

theorem fills_of_isPlain {spec : FieldSpec} (worded : spec.Worded) (plain : spec.isPlain)
    {node : Located} {parts : List Tree} {rest : Text} (tree : node.tree = .node .field parts)
    (form : Go.FieldForm (spec.display ++ Go.probeEnd) parts rest)
    (spelled : Tree.textOfAll parts ++ rest = spec.display ++ Go.probeEnd)
    (initial : Tree.textOfAll parts <+: spec.display) (ends : EndsProbe rest) : spec.Fills node := by
  rw [fills_iff tree]
  cases worded with
  | @embedded type embedded solid =>
    have whole : Go.Calm type := calm_word (Bool.and_eq_true_iff.1 plain).1 solid
    obtain ⟨text, rfl⟩ := text_of_calm whole spelled initial ends
    have bare : Go.isBare (Tree.textOfAll parts) := text ▸ whole.bare
    have untagged := form.untagged_of_isBare bare
    have unnamed := countP_embedded form embedded plain untagged
    exact ⟨text, unnamed, untagged, code_of_embedded form embedded unnamed untagged⟩
  | @named name type word filled solid =>
    have calm : isCalm type := (Bool.and_eq_true_iff.1 (Bool.and_eq_true_iff.1 plain).1).1
    have whole := calm_named word calm filled solid
    obtain ⟨text, rfl⟩ := text_of_calm whole spelled initial ends
    have bare : Go.isBare (Tree.textOfAll parts) := text ▸ whole.bare
    have untagged := form.untagged_of_isBare bare
    rw [FieldSpec.display_named, List.append_assoc, List.cons_append] at form
    have one := countP_named word filled solid form plain untagged
    refine ⟨text, one, untagged, ?_⟩
    obtain ⟨newlines, inner, rfl, -⟩ := named_parts form word one untagged
    rw [(trivia_behind_name filled solid (Bool.and_eq_true_iff.1 calm).1 newlines).1]
    simp [Tree.isComment]

/-- An accepted field is read back as the only field of a struct, and its text is a front part of what
was asked for. It has the names, the type and the tag that were asked for exactly if it takes all of
that text, has as many names and has no tag or comment among its parts. Plain words are always read back
so. -/
theorem accepted_field_reads_back {text : Text} {spec : FieldSpec}
    (accepted : FieldSpec.parse? text = some spec) :
    ∃ node, SoleField spec.display node ∧
      node.start.offset = "package p\n\ntype T struct \x7b\n\t".length ∧ node.text <+: spec.display ∧
      (spec.Matches (Field.ofNode node) ↔ spec.Fills node) ∧
      (spec.isPlain → spec.Matches (Field.ofNode node)) := by
  obtain ⟨worded, declared⟩ := worded_of_parse? accepted
  obtain ⟨node, parts, rest, sole, tree, start, form, spelled, initial, ends⟩ :=
    reads_of_worded worded declared
  have same : node.text = Tree.textOfAll parts := by rw [Located.text, tree, Tree.text]
  have fills := fun plain => fills_of_isPlain worded plain tree form spelled initial ends
  have matched : spec.Matches (Field.ofNode node) ↔ spec.Fills node := by
    cases worded with
    | embedded embedded solid => exact matches_embedded_iff tree form embedded solid initial
    | named word filled solid =>
      rw [FieldSpec.display_named, List.append_assoc, List.cons_append] at form
      exact matches_named_iff tree form word filled solid (Go.brace_mem_of_endsProbe ends)
  refine ⟨node, sole, start, ?_, matched, fun plain => matched.2 (fills plain)⟩
  rw [same]
  exact initial

/-- A type from a package with arguments, in a map, is read back as it was asked for. -/
theorem accepted_field_reads_back_of_map :
    FieldSpec.parse? "Opts map[string][]*v1.Set[T] kept".toList =
        some (.named "Opts".toList "map[string][]*v1.Set[T]".toList) ∧
      ∃ node, SoleField "Opts map[string][]*v1.Set[T]".toList node ∧
        (FieldSpec.named "Opts".toList "map[string][]*v1.Set[T]".toList).Matches (Field.ofNode node) := by
  have accepted : FieldSpec.parse? "Opts map[string][]*v1.Set[T] kept".toList =
      some (.named "Opts".toList "map[string][]*v1.Set[T]".toList) := by decide +kernel
  obtain ⟨node, sole, -, -, -, plain⟩ := accepted_field_reads_back accepted
  exact ⟨accepted, node, sole, plain (by decide +kernel)⟩

/-- A comment that is glued to a type is taken for a part of it, and is none. -/
theorem glued_comment_is_no_type :
    FieldSpec.parse? "X int//".toList = some (.named "X".toList "int//".toList) ∧
      ((SourceFile.parse? (Go.probe "X int//".toList)).bind fun file => file.structs.head?).map
        (fun struct => struct.fields.map fun field => (field.names, field.type, field.tag)) =
          some [(["X".toList], "int".toList, none)] := by
  decide +kernel

end GoGraft
