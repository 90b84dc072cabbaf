import GoGraft.Proofs.FieldReadings

/-! When a field that was read is the one that was asked for. Both have the same names, type and tag
exactly if the node of the field spells what was asked for, with as many names and with no tag and no
comment among its parts. -/

namespace GoGraft

open Go (Tree)
open Go.Rule Go.Grammar

def Go.Tree.isComment : Tree → Bool
  | .leaf .comment _ => true
  | _ => false

/-! ### The field of a node -/

theorem takeWhile_sideBySide (kind : Go.NodeKind) (place : Place) (trees : List Tree) :
    ((Located.sideBySide place trees).takeWhile fun child => !child.isNode kind).flatMap Located.text =
      Tree.textOfAll (trees.takeWhile fun tree => !tree.isNode kind) := by
  induction trees generalizing place with
  | nil => rfl
  | cons tree rest ih =>
    rw [Located.sideBySide, List.takeWhile_cons, List.takeWhile_cons, Located.isNode_eq]
    cases tree.isNode kind with
    | true => rfl
    | false => exact congrArg (tree.text ++ ·) (ih (place.after tree.text))

section Parts

variable {node : Located} {parts : List Tree} (form : node.tree = .node .field parts)
include form

theorem children_of_parts : node.children = Located.sideBySide node.start parts := by
  rw [Located.children, form]

theorem names_ofNode :
    (Field.ofNode node).names = (parts.filter (Tree.isNode .fieldName)).map Tree.text := by
  have own : Located.isNode .fieldName = Tree.isNode .fieldName ∘ Located.tree := by
    funext child
    exact Located.isNode_eq .fieldName child
  change ((node.children.filter (Located.isNode .fieldName)).map (Tree.text ∘ Located.tree)) = _
  rw [children_of_parts form, own, ← List.map_map, ← List.filter_map, Located.map_tree_sideBySide]

theorem tag_ofNode :
    (Field.ofNode node).tag = (parts.find? (Tree.isNode .fieldTag)).map Tree.text := by
  change (node.children.find? (Located.isNode .fieldTag)).map (Tree.text ∘ Located.tree) = _
  rw [children_of_parts form, ← Option.map_map, Located.find?_sideBySide]

/-- The type of a field, and the text in front of it. -/
theorem type_of_parts {front inner back : List Tree}
    (split : parts = front ++ .node .fieldType inner :: back)
    (none : ∀ tree ∈ front, tree.isNode .fieldType = false) :
    ((node.node? .fieldType).map Located.text).getD [] = Tree.textOfAll inner ∧
      (node.children.takeWhile fun child => !child.isNode .fieldType).flatMap Located.text =
        Tree.textOfAll front := by
  constructor
  · change ((node.children.find? (Located.isNode .fieldType)).map (Tree.text ∘ Located.tree)).getD [] = _
    have other : front.find? (Tree.isNode .fieldType) = Option.none :=
      List.find?_eq_none.2 fun tree inside => by simp [none tree inside]
    rw [children_of_parts form, ← Option.map_map, Located.find?_sideBySide, split, List.find?_append,
      other]
    rfl
  · have others : ∀ tree ∈ front, (!tree.isNode .fieldType) = true := by
      intro tree inside
      rw [none tree inside]
      rfl
    rw [children_of_parts form, takeWhile_sideBySide, split, List.takeWhile_append_of_pos others]
    exact congrArg Tree.textOfAll (List.append_nil front)

theorem type_ofNode {front inner back : List Tree}
    (split : parts = front ++ .node .fieldType inner :: back)
    (none : ∀ tree ∈ front, tree.isNode .fieldType = false) :
    (Field.ofNode node).type =
      if (Field.ofNode node).names.isEmpty then
        (Tree.textOfAll (front ++ [.node .fieldType inner])).filter fun c => !Text.isBlank c
      else Tree.textOfAll inner := by
  obtain ⟨type, before⟩ := type_of_parts form split none
  simp only [Field.ofNode]
  rw [type, before, Tree.textOfAll_append]
  simp only [Tree.textOfAll, Tree.text, List.append_nil]

end Parts

/-- Whether a node spells a field as it is asked for: with as many names, no tag and no comment between
its parts. -/
structure FieldSpec.Fills (spec : FieldSpec) (node : Located) : Prop where
  text : node.text = spec.display
  names : (node.nodes .fieldName).length = spec.toField.names.length
  untagged : node.node? .fieldTag = none
  code : ∀ child ∈ node.children, child.isComment = false

theorem fills_iff {node : Located} {parts : List Tree} (form : node.tree = .node .field parts)
    (spec : FieldSpec) :
    spec.Fills node ↔ Tree.textOfAll parts = spec.display ∧
      parts.countP (Tree.isNode .fieldName) = spec.toField.names.length ∧
      (∀ part ∈ parts, part.isNode .fieldTag = false) ∧ ∀ part ∈ parts, part.isComment = false := by
  have spelled : node.text = Tree.textOfAll parts := by
    rw [Located.text, form, Tree.text]
  have count : (node.nodes .fieldName).length = parts.countP (Tree.isNode .fieldName) := by
    rw [Located.nodes, children_of_parts form, length_nodes]
  have untagged : node.node? .fieldTag = none ↔ ∀ part ∈ parts, part.isNode .fieldTag = false := by
    rw [← Option.map_eq_none_iff (f := Located.tree), Located.node?, children_of_parts form,
      Located.find?_sideBySide, List.find?_eq_none]
    simp
  have code : (∀ child ∈ node.children, child.isComment = false) ↔
      ∀ part ∈ parts, part.isComment = false := by
    have same (child : Located) : child.isComment = child.tree.isComment := by
      rw [Located.isComment]
      cases child.tree with
      | leaf kind text => cases kind <;> rfl
      | node => rfl
    simp only [same]
    rw [← List.forall_mem_map (f := Located.tree) (P := fun tree => tree.isComment = false),
      children_of_parts form, Located.map_tree_sideBySide]
  constructor
  · rintro ⟨text, names, tag, comments⟩
    exact ⟨spelled ▸ text, count ▸ names, untagged.1 tag, code.1 comments⟩
  · rintro ⟨text, names, tag, comments⟩
    exact ⟨spelled ▸ text, count ▸ names, untagged.2 tag, code.2 comments⟩

/-- Whether a field has the names, the type and the tag that are asked for. -/
structure FieldSpec.Matches (spec : FieldSpec) (field : Field) : Prop where
  names : field.names = spec.toField.names
  type : field.type = spec.toField.type
  tag : field.tag = spec.toField.tag

/-- What stands behind the star of an embedded type: a name, and a dot or a bracket behind it. -/
theorem isEmbeddedType_name {text : Text} (held : (FieldSpec.isName (text.takeWhile FieldSpec.isNameChar) &&
    match text.dropWhile FieldSpec.isNameChar with
    | '.' :: rest =>
      FieldSpec.isName (rest.takeWhile FieldSpec.isNameChar) &&
        FieldSpec.isArguments (rest.dropWhile FieldSpec.isNameChar)
    | _ => FieldSpec.isArguments (text.dropWhile FieldSpec.isNameChar)) = true) :
    ∃ name rest, text = name ++ rest ∧ FieldSpec.isName name ∧
      (rest = [] ∨ (∃ more, rest = '.' :: more) ∨ ∃ more, rest = '[' :: more) := by
  obtain ⟨named, behind⟩ := Bool.and_eq_true_iff.1 held
  refine ⟨_, _, List.takeWhile_append_dropWhile.symm, named, ?_⟩
  split at behind
  next more same => exact .inr (.inl ⟨more, same⟩)
  next =>
    cases rest : text.dropWhile FieldSpec.isNameChar with
    | nil => exact .inl rfl
    | cons c more =>
      rw [rest] at behind
      simp only [FieldSpec.isArguments, Bool.and_eq_true] at behind
      rw [eq_of_beq behind.1.1]
      exact .inr (.inr ⟨more, rfl⟩)

/-- The words that are taken for an embedded type: a star, a name, and a dot or a bracket behind it. -/
theorem isEmbeddedType_parts {type : Text} (held : FieldSpec.isEmbeddedType type) :
    ∃ star name rest, type = star ++ (name ++ rest) ∧ (star = [] ∨ star = ['*']) ∧
      FieldSpec.isName name ∧ (rest = [] ∨ (∃ more, rest = '.' :: more) ∨ ∃ more, rest = '[' :: more) := by
  unfold FieldSpec.isEmbeddedType at held
  simp only [List.span_eq_takeWhile_dropWhile] at held
  split at held
  next text =>
    obtain ⟨name, rest, rfl, others⟩ := isEmbeddedType_name held
    exact ⟨['*'], name, rest, rfl, .inr rfl, others⟩
  next =>
    obtain ⟨name, rest, rfl, others⟩ := isEmbeddedType_name held
    exact ⟨[], name, rest, rfl, .inl rfl, others⟩

theorem isCode_of_isName {name : Text} (named : FieldSpec.isName name) :
    ∃ c more, name = c :: more ∧ FieldSpec.isNameStart c ∧ Go.isCode c := by
  cases name with
  | nil => cases named
  | cons c more =>
    have starts : FieldSpec.isNameStart c := (Bool.and_eq_true_iff.1 named).1
    exact ⟨c, more, rfl, starts, Go.isCode_of (by decide +kernel) starts⟩

/-- Between a star and the type behind it there is no comment. -/
theorem code_of_embedded {type rest : Text} {parts : List Tree}
    (form : Go.FieldForm (type ++ Go.probeEnd) parts rest) (embedded : FieldSpec.isEmbeddedType type)
    (unnamed : parts.countP (Tree.isNode .fieldName) = 0)
    (untagged : ∀ part ∈ parts, part.isNode .fieldTag = false) :
    ∀ part ∈ parts, part.isComment = false := by
  cases form with
  | named first more type tag => simp [Tree.isNode] at unnamed
  | embedded first package arguments tag =>
    obtain rfl := Go.tagged_eq_nil tag fun part inside => untagged part (List.mem_cons_of_mem _ inside)
    exact List.forall_mem_singleton.2 rfl
  | @pointer behind left rest typed tagged here last star typing tag =>
    obtain rfl := Go.tagged_eq_nil tag fun part inside =>
      untagged part (List.mem_cons_of_mem _ (List.mem_append_right _ inside))
    obtain ⟨mark, name, last, rfl, known, word, -⟩ := isEmbeddedType_parts embedded
    obtain ⟨c, more, rfl, starts, code⟩ := isCode_of_isName word
    rcases known with rfl | rfl
    · cases (List.cons.inj star).1
      cases starts
    · obtain rfl : c :: (more ++ (last ++ Go.probeEnd)) = behind := by simpa using star
      obtain ⟨newlines, inner, rfl, -⟩ := Go.reads_node (by decide) (by decide) typing
      rw [Go.gap_solid (Go.solid_of_isCode code _)]
      exact List.forall_mem_cons.2 ⟨rfl, List.forall_mem_singleton.2 rfl⟩

theorem isSpace_of_solid {c : Char} (solid : Text.isBlank c = false) : Go.Lexeme.isSpace c = false := by
  rw [Bool.eq_false_iff]
  intro space
  simp only [Go.Lexeme.isSpace, Bool.or_eq_true, beq_iff_eq] at space
  rcases space with ((((rfl | rfl) | rfl) | rfl) | rfl) | rfl <;> cases solid

/-- What stands between a name and its type: a space, and perhaps a comment. -/
theorem gap_behind_name {type : Text} (filled : type ≠ []) (solid : ∀ c ∈ type, Text.isBlank c = false)
    (newlines : Bool) :
    (Go.gap newlines (' ' :: (type ++ Go.probeEnd)) = [.leaf .blank [' ']] ∧
      Go.pass newlines (' ' :: (type ++ Go.probeEnd)) = type ++ Go.probeEnd) ∨
      ∃ comment more, Go.gap newlines (' ' :: (type ++ Go.probeEnd)) =
        .leaf .blank [' '] :: .leaf .comment comment :: more ∧ Go.opensComment comment := by
  obtain ⟨c, others, rfl⟩ := List.exists_cons_of_ne_nil filled
  have code : ¬ Go.isBlank newlines c := by
    intro blank
    have space := (Bool.and_eq_true_iff.1 blank).1
    rw [isSpace_of_solid (solid c List.mem_cons_self)] at space
    cases space
  have space : Go.isBlank newlines ' ' := by cases newlines <;> rfl
  have whole := Go.trivia_eq newlines (' ' :: (c :: others ++ Go.probeEnd))
  rw [List.takeWhile_cons_of_pos space, List.dropWhile_cons_of_pos space, List.cons_append,
    List.takeWhile_cons_of_neg code, List.dropWhile_cons_of_neg code] at whole
  dsimp only at whole
  split at whole
  next comment left read =>
    exact .inr ⟨comment, Go.gap newlines left, (Prod.mk.inj whole).1, Go.opensComment_of_comment? read⟩
  next => exact .inl (Prod.mk.inj whole)

/-- Where a name stands in front of a type, the whole name is read. -/
theorem name_of_named {word text one behind between left : Text} {names typed : List Tree}
    {here after : Go.Accepts} (named : FieldSpec.isName word)
    (stop : ∀ c, text.head? = some c → Text.continuesIdentifier c = false)
    (first : Go.Lexeme.identifier? (word ++ text) = some (one, behind))
    (more : Reads rules (many (seq (mark ",") (node .fieldName name))) here behind names between)
    (type : Reads rules (node .fieldType anyType) after between typed left) :
    one = word ∧ behind = text := by
  rcases Go.identifier?_isName named stop first with same | ⟨x, tail, rfl, far, other⟩
  · exact same
  · have lacks := Go.lacks_of_foreign far other tail
    obtain ⟨-, rfl⟩ := more.idles (by decide) (fun name _ => Go.Grammar.rules_fail_foreign name) lacks trivial
    exact (type.fails (by decide) (fun name _ => Go.Grammar.rules_fail_foreign name) lacks trivial).elim

theorem named_parts {name type rest : Text} {parts : List Tree}
    (form : Go.FieldForm (name ++ ' ' :: (type ++ Go.probeEnd)) parts rest)
    (word : FieldSpec.isName name) (one : parts.countP (Tree.isNode .fieldName) = 1)
    (untagged : ∀ part ∈ parts, part.isNode .fieldTag = false) :
    ∃ newlines inner, parts = .node .fieldName [.leaf .token name] ::
        (Go.gap newlines (' ' :: (type ++ Go.probeEnd)) ++ [.node .fieldType inner]) ∧
      Tree.textOfAll inner ++ rest = Go.pass newlines (' ' :: (type ++ Go.probeEnd)) := by
  cases form with
  | @named first behind between left rest names typed tagged here after last read more typing tag =>
    obtain rfl := Go.tagged_eq_nil tag fun part inside => untagged part
      (List.mem_cons_of_mem _ (List.mem_append_right _ (List.mem_append_right _ inside)))
    obtain ⟨rfl, rfl⟩ := name_of_named word (by rintro _ ⟨⟩; rfl) read more typing
    rcases Go.reads_names more with ⟨rfl, rfl⟩ | ⟨⟨part, inside, own⟩, -⟩
    · obtain ⟨newlines, inner, rfl, spelled⟩ := Go.reads_node rfl rfl typing
      obtain rfl : rest = left := tag.spelled
      exact ⟨newlines, inner, by simp, spelled⟩
    · have more_names := List.countP_pos_iff.2 ⟨part, inside, own⟩
      rw [List.countP_cons_of_pos rfl, List.countP_append] at one
      omega
  | embedded first package arguments tag =>
    rw [List.countP_cons_of_neg (by simp [Tree.isNode]), Go.countP_of_reads (by decide) tag] at one
    cases one
  | pointer star typing tag =>
    rw [List.countP_cons_of_neg (by simp [Tree.isNode]), List.countP_append,
      Go.countP_of_reads (by decide) typing, Go.countP_of_reads (by decide) tag] at one
    cases one

section Matches

variable {node : Located} {parts : List Tree} (tree : node.tree = .node .field parts)
include tree

theorem names_eq_nil_iff :
    (Field.ofNode node).names = [] ↔ parts.countP (Tree.isNode .fieldName) = 0 := by
  rw [names_ofNode tree, List.map_eq_nil_iff, List.countP_eq_length_filter, List.length_eq_zero_iff]

theorem tag_eq_none_iff :
    (Field.ofNode node).tag = none ↔ ∀ part ∈ parts, part.isNode .fieldTag = false := by
  rw [tag_ofNode tree, Option.map_eq_none_iff, List.find?_eq_none]
  simp

theorem matches_embedded_iff {type rest : Text} (form : Go.FieldForm (type ++ Go.probeEnd) parts rest)
    (named : FieldSpec.isEmbeddedType type) (solid : ∀ c ∈ type, Text.isBlank c = false)
    (initial : Tree.textOfAll parts <+: type) :
    (FieldSpec.embedded type).Matches (Field.ofNode node) ↔ (FieldSpec.embedded type).Fills node := by
  rw [fills_iff tree]
  -- Without names and tags, the type is all that the field spells.
  have whole (none : parts.countP (Tree.isNode .fieldName) = 0)
      (untagged : ∀ part ∈ parts, part.isNode .fieldTag = false) :
      (Field.ofNode node).type = Tree.textOfAll parts := by
    obtain ⟨front, inner, split, others⟩ := form.untagged untagged
    rw [type_ofNode tree split others, (names_eq_nil_iff tree).2 none, ← split]
    refine List.filter_eq_self.2 fun c inside => ?_
    rw [solid c (initial.subset inside)]
    rfl
  constructor
  · rintro ⟨names, same, tag⟩
    have none := (names_eq_nil_iff tree).1 names
    have untagged := (tag_eq_none_iff tree).1 tag
    refine ⟨(whole none untagged).symm.trans same, none, untagged, ?_⟩
    exact code_of_embedded form named none untagged
  · rintro ⟨text, none, untagged, -⟩
    exact ⟨(names_eq_nil_iff tree).2 none, (whole none untagged).trans text,
      (tag_eq_none_iff tree).2 untagged⟩

omit tree in
/-- The field of a name and a type with trivia between them. -/
theorem ofNode_named {name : Text} {newlines : Bool} {behind : Text} {inner : List Tree}
    (tree : node.tree = .node .field (.node .fieldName [.leaf .token name] ::
      (Go.gap newlines behind ++ [.node .fieldType inner]))) :
    (Field.ofNode node).names = [name] ∧ (Field.ofNode node).type = Tree.textOfAll inner := by
  have names : (Field.ofNode node).names = [name] := by
    have blank : (Go.gap newlines behind).filter (Tree.isNode .fieldName) = [] :=
      List.filter_eq_nil_iff.2 fun part inside => by simp [Go.isNode_of_mem_gap .fieldName part inside]
    rw [names_ofNode tree, List.filter_cons_of_pos rfl, List.filter_append, blank]
    simp [Tree.isNode, Tree.text, Tree.textOfAll]
  refine ⟨names, ?_⟩
  have others : ∀ part ∈ .node .fieldName [.leaf .token name] :: Go.gap newlines behind,
      part.isNode .fieldType = false :=
    List.forall_mem_cons.2 ⟨rfl, Go.isNode_of_mem_gap .fieldType⟩
  rw [type_ofNode tree rfl others, names]
  rfl

theorem matches_named_iff {name type rest : Text}
    (form : Go.FieldForm (name ++ ' ' :: (type ++ Go.probeEnd)) parts rest)
    (word : FieldSpec.isName name) (filled : type ≠ []) (solid : ∀ c ∈ type, Text.isBlank c = false)
    (brace : '\x7d' ∈ rest) :
    (FieldSpec.named name type).Matches (Field.ofNode node) ↔ (FieldSpec.named name type).Fills node := by
  rw [fills_iff tree]
  constructor
  · rintro ⟨names, same, tag⟩
    have one : parts.countP (Tree.isNode .fieldName) = 1 := by
      have length := congrArg List.length names
      rwa [names_ofNode tree, List.length_map, ← List.countP_eq_length_filter] at length
    have untagged := (tag_eq_none_iff tree).1 tag
    obtain ⟨newlines, inner, rfl, spelled⟩ := named_parts form word one untagged
    have type_text : Tree.textOfAll inner = type := (ofNode_named tree).2.symm.trans same
    rcases gap_behind_name filled solid newlines with ⟨blank, -⟩ | ⟨comment, more, blank, opens⟩
    · refine ⟨?_, one, untagged, ?_⟩
      · simp [blank, Tree.textOfAll, Tree.text, type_text, FieldSpec.display]
      · simp [blank, Tree.isComment]
    · -- With a comment in front of the type, the closing brace would be part of the field.
      have whole := Go.textOfAll_gap newlines (' ' :: (type ++ Go.probeEnd))
      rw [← spelled] at whole
      have long : 2 ≤ comment.length := by
        unfold Go.opensComment at opens
        split at opens
        · simp
        · simp
        · cases opens
      have short : rest.length ≤ ['\n'].length := by
        have length := congrArg List.length whole
        rw [blank, type_text] at length
        simp [Tree.textOfAll, Tree.text, Go.probeEnd] at length
        simp
        omega
      have behind : rest <:+ ' ' :: (type ++ Go.probeEnd) :=
        ⟨_, (List.append_assoc _ _ _).trans whole⟩
      have newline : ['\n'] <:+ ' ' :: (type ++ Go.probeEnd) :=
        ⟨' ' :: (type ++ ['\n', '\x7d']), by simp [Go.probeEnd]⟩
      have inside := (List.suffix_of_suffix_length_le behind newline short).subset brace
      exact absurd inside (by decide)
  · rintro ⟨text, one, untagged, code⟩
    obtain ⟨newlines, inner, rfl, spelled⟩ := named_parts form word one untagged
    obtain ⟨names, type_text⟩ := ofNode_named tree
    refine ⟨names, type_text.trans ?_, (tag_eq_none_iff tree).2 untagged⟩
    rcases gap_behind_name filled solid newlines with ⟨blank, -⟩ | ⟨comment, more, blank, -⟩
    · rw [blank] at text
      have same : Tree.textOfAll inner = type := by
        simpa [Tree.textOfAll, Tree.text, FieldSpec.display] using text
      exact same
    · have other := code (.leaf .comment comment) (by simp [blank])
      cases other

end Matches

end GoGraft
