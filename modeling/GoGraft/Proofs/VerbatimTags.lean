import GoGraft.Proofs.CheckedEmission
import GoGraft.Proofs.FieldTokens

/-! Tags in lines that are kept as they are. Whatever tags are set on the fields of a struct, such a line is
written as the source has it, but for the tags that are other than they were: each new tag stands in the
place of the old literal, or behind the type and a space where there was none. -/

namespace GoGraft

open Go (Tree)

/-! ### Setting tags -/

/-- The field with another tag, if there is one to be set. -/
def Field.retag (set : Option Text) (field : Field) : Field :=
  { field with tag := set.or field.tag }

namespace StructDeclaration

/-- The struct after tags were set one after another, each on the field of a number. -/
def setTags (struct : StructDeclaration) (calls : List (Nat × Text)) : StructDeclaration :=
  calls.foldl (fun struct call => (struct.setTag? call.1 call.2).getD struct) struct

/-- The tag that was set last on the field of a number. -/
def lastTag? (calls : List (Nat × Text)) (index : Nat) : Option Text :=
  (calls.filterMap fun call => if call.1 = index then some call.2 else none).getLast?

theorem lastTag?_concat (calls : List (Nat × Text)) (call : Nat × Text) (index : Nat) :
    lastTag? (calls ++ [call]) index = if call.1 = index then some call.2 else lastTag? calls index := by
  rw [lastTag?, List.filterMap_append, List.getLast?_append]
  by_cases same : call.1 = index
  · simp [same]
  · simp [same, lastTag?]

theorem fields_setTag (struct : StructDeclaration) (index other : Nat) (tag : Text) :
    ((struct.setTag? index tag).getD struct).fields[other]? =
      if index = other then struct.fields[other]?.map (Field.retag (some tag))
      else struct.fields[other]? := by
  rw [setTag?]
  split
  next absent =>
    split
    next same => rw [Option.getD_none, ← same, absent]; rfl
    next => rfl
  next field found =>
    split
    next already =>
      split
      next same => rw [← same, found, Option.map_some, Field.retag, Option.some_or, ← already]; exact found
      next => rfl
    next =>
      rw [Option.getD_some, List.getElem?_set]
      split
      next same =>
        obtain ⟨bound, _⟩ := List.getElem?_eq_some_iff.1 found
        rw [if_pos bound, ← same, found]
        rfl
      next => rfl

/-- A field has the tag that was set last, or the one that it had. -/
theorem fields_setTags (struct : StructDeclaration) (calls : List (Nat × Text)) (index : Nat) :
    (struct.setTags calls).fields[index]? =
      struct.fields[index]?.map (Field.retag (lastTag? calls index)) := by
  induction calls using List.reverseRecOn with
  | nil =>
    cases found : struct.fields[index]? with
    | none => exact found
    | some field => exact found
  | append_singleton calls call ih =>
    rw [setTags, List.foldl_append]
    change (((struct.setTags calls).setTag? call.1 call.2).getD (struct.setTags calls)).fields[index]? = _
    rw [fields_setTag, ih, lastTag?_concat]
    split
    · rw [Option.map_map]
      rfl
    · rfl

theorem extended_setTags (struct : StructDeclaration) (calls : List (Nat × Text)) :
    struct.Extended (struct.setTags calls) := by
  induction calls generalizing struct with
  | nil => exact .refl struct
  | cons call rest ih => exact (Extended.setTag struct call.1 call.2).trans (ih _)

theorem body_setTags (struct : StructDeclaration) (calls : List (Nat × Text)) :
    (struct.setTags calls).body = struct.body := by
  induction calls generalizing struct with
  | nil => rfl
  | cons call rest ih => exact (ih _).trans (SourceFile.places_setTag? struct call.1 call.2)

end StructDeclaration

/-! ### Texts with other tags -/

/-- `Retagged place text held out`: a text that starts at a place is `out` once the fields in it, each
given by its node and the tag that it has now, have their tags. A field whose tag is the one in the source
changes nothing. Else the tag stands in the place of the literal, or, if there is none, behind the type and
a space. All else is kept. -/
inductive Retagged : Nat → Text → List (Located × Option Text) → Text → Prop where
  | rest {place : Nat} {text : Text} : Retagged place text [] text
  | same {place : Nat} {text out : Text} {node : Located} {tag : Option Text}
      {held : List (Located × Option Text)}
      (unchanged : tag = (node.node? .fieldTag).map Located.text) (later : Retagged place text held out) :
      Retagged place text ((node, tag) :: held) out
  | replaced {place : Nat} {kept text out tag : Text} {node literal : Located}
      {held : List (Located × Option Text)} (tagged : node.node? .fieldTag = some literal)
      (differs : tag ≠ literal.text) (start : literal.start.offset = place + kept.length)
      (later : Retagged literal.stop.offset text held out) :
      Retagged place (kept ++ literal.text ++ text) ((node, some tag) :: held) (kept ++ tag ++ out)
  | inserted {place : Nat} {kept text out tag : Text} {node type : Located}
      {held : List (Located × Option Text)} (untagged : node.node? .fieldTag = none)
      (typed : node.node? .fieldType = some type) (start : type.start.offset = place + kept.length)
      (later : Retagged type.stop.offset text held out) :
      Retagged place (kept ++ type.text ++ text) ((node, some tag) :: held)
        (kept ++ type.text ++ ' ' :: tag ++ out)

/-- The tags leave one text. -/
theorem Retagged.unique {place : Nat} {text out other : Text} {held : List (Located × Option Text)}
    (one : Retagged place text held out) (two : Retagged place text held other) : out = other := by
  -- A part with a known place divides a text in one way only.
  have parts {place : Nat} {part : Located} {kept kept' back back' : Text}
      (start : part.start.offset = place + kept.length)
      (start' : part.start.offset = place + kept'.length)
      (whole : kept ++ part.text ++ back = kept' ++ part.text ++ back') : kept = kept' ∧ back = back' := by
    rw [List.append_assoc, List.append_assoc] at whole
    obtain ⟨front, rest⟩ := List.append_inj whole (by omega)
    exact ⟨front, List.append_cancel_left rest⟩
  induction one generalizing other with
  | rest => cases two; rfl
  | same unchanged _ ih =>
    cases two with
    | same _ later => exact ih later
    | replaced tagged differs => simp_all
    | inserted untagged => simp_all
  | @replaced place kept text out tag node literal held tagged differs start _ ih =>
    generalize whole : kept ++ literal.text ++ text = all at two
    cases two with
    | same unchanged => simp_all
    | replaced tagged' _ start' later =>
      cases tagged.symm.trans tagged'
      obtain ⟨rfl, rfl⟩ := parts start start' whole
      rw [ih later]
    | inserted untagged => simp_all
  | @inserted place kept text out tag node type held untagged typed start _ ih =>
    generalize whole : kept ++ type.text ++ text = all at two
    cases two with
    | same unchanged => simp_all
    | replaced tagged => simp_all
    | inserted _ typed' start' later =>
      cases typed.symm.trans typed'
      obtain ⟨rfl, rfl⟩ := parts start start' whole
      rw [ih later]

/-- What a tag asks for: nothing, another literal, or a literal behind the type. -/
theorem tagEdit?_retag {node type : Located} (typed : node.node? .fieldType = some type)
    (set : Option Text) :
    let field := (Field.ofNode node).retag set
    (field.tag = (node.node? .fieldTag).map Located.text ∧ field.tagEdit? = none) ∨
      (∃ literal tag, node.node? .fieldTag = some literal ∧ field.tag = some tag ∧ tag ≠ literal.text ∧
        field.tagEdit? = some ⟨literal.span, tag⟩) ∨
      ∃ tag, node.node? .fieldTag = none ∧ field.tag = some tag ∧
        field.tagEdit? = some ⟨⟨type.stop.offset, type.stop.offset⟩, ' ' :: tag⟩ := by
  cases tagged : node.node? .fieldTag with
  | none =>
    cases set with
    | none => simp [Field.retag, Field.ofNode, Field.tagEdit?, tagged]
    | some tag => simp [Field.retag, Field.ofNode, Field.tagEdit?, tagged, typed]
  | some literal =>
    cases set with
    | none => simp [Field.retag, Field.ofNode, Field.tagEdit?, tagged]
    | some tag =>
      by_cases unchanged : tag = literal.text
      · simp [Field.retag, Field.ofNode, Field.tagEdit?, tagged, unchanged]
      · simp [Field.retag, Field.ofNode, Field.tagEdit?, tagged, unchanged, Ne.symm unchanged]

/-- The children of nodes stand in a text, each between the ends of its node. -/
def ChildrenStand (place : Nat) (text : Text) (nodes : List Located) : Prop :=
  ∀ node ∈ nodes, ∀ child ∈ node.children, child.StandsAt place text ∧ child.span.Inside node.span

/-- Behind a part of one node stand the children of all nodes behind that node. -/
theorem ChildrenStand.behind {place : Nat} {kept back : Text} {node part : Located} {nodes : List Located}
    (inner : part.span.Inside node.span) (start : part.start.offset = place + kept.length)
    (stop : part.stop.offset = part.start.offset + part.text.length)
    (order : ∀ other ∈ nodes, node.stop.offset ≤ other.start.offset)
    (stand : ChildrenStand place (kept ++ part.text ++ back) nodes) :
    ChildrenStand part.stop.offset back nodes := by
  intro other among child held
  obtain ⟨stands, bounds⟩ := stand other among child held
  refine ⟨?_, bounds⟩
  have length : part.stop.offset = place + (kept ++ part.text).length := by
    rw [List.length_append]
    omega
  rw [length]
  apply stands.back
  have apart := order other among
  simp only [Span.Inside, Located.span] at inner bounds
  omega

/-- Edits of tags that were made are tags that were put in their places. -/
theorem retagged_of_spliced {nodes : List Located} {fields : List Field}
    (sets : List.Forall₂ (fun node field => ∃ set, field = (Field.ofNode node).retag set) nodes fields)
    (typed : ∀ node ∈ nodes, (node.node? .fieldType).isSome)
    (ordered : nodes.Pairwise fun one other => one.stop.offset ≤ other.start.offset)
    {place : Nat} {text out : Text} (stand : ChildrenStand place text nodes)
    (spliced : Edit.Spliced place text (fields.filterMap Field.tagEdit?) out) :
    Retagged place text (nodes.zip (fields.map Field.tag)) out := by
  induction sets generalizing place text out with
  | nil =>
    cases spliced
    exact .rest
  | @cons node _ nodes fields own _ ih =>
    obtain ⟨set, rfl⟩ := own
    obtain ⟨order, later⟩ := List.pairwise_cons.1 ordered
    obtain ⟨typedHere, typedLater⟩ := List.forall_mem_cons.1 typed
    obtain ⟨standHere, standLater⟩ := List.forall_mem_cons.1 stand
    obtain ⟨type, found⟩ := Option.isSome_iff_exists.1 typedHere
    rw [List.filterMap_cons] at spliced
    rw [List.map_cons, List.zip_cons_cons]
    rcases tagEdit?_retag found set with
      ⟨unchanged, none⟩ | ⟨literal, tag, tagged, now, differs, edit⟩ | ⟨tag, untagged, now, edit⟩
    · rw [none] at spliced
      exact .same unchanged (ih typedLater later standLater spliced)
    · rw [edit] at spliced
      obtain ⟨⟨kept, back, whole, start, stop⟩, inner⟩ := standHere literal (Located.mem_of_node? tagged).1
      obtain ⟨rest, rfl, others⟩ := spliced.first whole start stop
      subst whole
      rw [now]
      exact .replaced tagged differs start
        (ih typedLater later (.behind inner start stop order standLater) others)
    · rw [edit] at spliced
      obtain ⟨⟨kept, back, whole, start, stop⟩, inner⟩ := standHere type (Located.mem_of_node? found).1
      have parts : text = kept ++ type.text ++ [] ++ back := by rw [whole, List.append_nil]
      have here : type.stop.offset = place + (kept ++ type.text).length := by
        rw [List.length_append]
        omega
      obtain ⟨rest, rfl, others⟩ := spliced.first parts here rfl
      subst whole
      rw [now]
      exact .inserted untagged found start
        (ih typedLater later (.behind inner start stop order standLater) others)

/-! ### Lines of a file -/

theorem Go.FieldTrees.type_mem {parts : List Tree} {names : List Text} {tag : Option Text}
    (made : Go.FieldTrees parts names tag) : ∃ inner, Tree.node .fieldType inner ∈ parts := by
  cases made with
  | @named _ _ _ _ inner => exact ⟨inner, by simp⟩
  | @embedded _ inner => exact ⟨inner, by simp⟩

section Parsed

variable {source : Text} {trees : List Tree} (parsed : Go.parse? source = some trees)
include parsed

theorem fieldType_isSome {node : Located} (within : Located.Within (Located.sideBySide {} trees) node)
    (kind : node.isNode .field) : (node.node? .fieldType).isSome := by
  obtain ⟨children, form⟩ := Located.isNode_iff.1 kind
  obtain ⟨rule, whole, rfl, made, rfl⟩ :=
    Go.node_contents parsed (form ▸ (within.partOf parsed).occurs)
  obtain ⟨names, tag, parts⟩ := Go.derives_field made
  obtain ⟨inner, held⟩ := parts.type_mem
  rw [← Option.isSome_map (f := Located.tree), Located.node?, children_of_parts form,
    Located.find?_sideBySide, List.find?_isSome]
  exact ⟨_, held, rfl⟩

/-- The fields of a line that is kept get their tags in it. -/
theorem retagged_of_kept {line : ItemLine} (placed : line.Placed trees) {struct : StructDeclaration}
    {span : Span} {held : List Nat} (kept : line.KeptBy struct.fields (.verbatim span held))
    (calls : List (Nat × Text)) :
    Retagged span.start (Text.slice source span)
      ((line.items.filter (Located.isNode .field)).zip
        (held.map fun index => (struct.setTags calls).fields[index]?.bind Field.tag))
      ((struct.setTags calls).renderVerbatim source span held) := by
  have each {index : Nat} {field : Field} (found : struct.fields[index]? = some field) :
      ∃ now, (struct.setTags calls).fields[index]? = some now ∧ ∃ set, now = field.retag set := by
    rw [struct.fields_setTags, found]
    exact ⟨_, rfl, _, rfl⟩
  obtain ⟨fields, sets, found⟩ := StructDeclaration.fields_at each kept.1
  have tags : (held.map fun index => (struct.setTags calls).fields[index]?.bind Field.tag) =
      fields.map Field.tag := by
    calc _ = (held.map ((struct.setTags calls).fields[·]?)).map (·.bind Field.tag) := by
          rw [List.map_map]
          rfl
      _ = _ := by
          rw [found, List.map_map]
          rfl
  obtain ⟨fit, _⟩ := verbatimEdits_fit parsed placed (struct.extended_setTags calls).grown kept
  have spliced := Edit.replaceAll_spliced_at fit
  rw [tagEdits_of_fields found] at spliced
  rw [tags, StructDeclaration.renderVerbatim, tagEdits_of_fields found]
  refine retagged_of_spliced sets ?_ (placed.ordered.sublist List.filter_sublist) ?_ spliced
  · intro node among
    obtain ⟨item, kind⟩ := List.mem_filter.1 among
    exact fieldType_isSome parsed (placed.within node item) kind
  · intro node among child inside
    have item := (List.mem_filter.1 among).1
    have stands := ((placed.within node item).partOf parsed).stands
    have inner := stands.child_inside inside
    exact ⟨(stands.child inside).standsAt_slice (inner.trans (kept.2 node item)), inner⟩

end Parsed

/-- A line of a struct that is kept as it is has, after any tags were set, the text of its span in the
source with exactly the tags that are now other than in the source. Writing it by places in bytes, with
the edits made from the last to the first, succeeds and gives the same text. -/
theorem verbatim_lines_change_in_tags_only {source : Text} {file : SourceFile}
    (read : SourceFile.parse? source = some file) :
    ∃ trees, Go.parse? source = some trees ∧
      ∀ struct ∈ file.structs, ∃ type list, struct.ReadFrom trees type list ∧ ∀ calls,
        let after := struct.setTags calls
        after.body = struct.body ∧
        (∀ index, after.fields[index]? =
          struct.fields[index]?.map (Field.retag (StructDeclaration.lastTag? calls index))) ∧
        ∀ span held, BodyLine.verbatim span held ∈ after.body.lines →
          ∃ line ∈ ItemLine.divide (fieldItems list),
            line.KeptBy struct.fields (.verbatim span held) ∧
            (∀ out, after.renderVerbatim source span held = out ↔
              Retagged span.start (Text.slice source span)
                ((line.items.filter (Located.isNode .field)).zip
                  (held.map fun index => after.fields[index]?.bind Field.tag)) out) ∧
            (after.inBytes source).renderVerbatimBytes? source (span.inBytes source) held =
              some (after.renderVerbatim source span held) := by
  obtain ⟨trees, parsed, same⟩ := Option.map_eq_some_iff.1 read
  refine ⟨trees, parsed, fun struct inside => ?_⟩
  rw [← same] at inside
  obtain ⟨spec, declared, made⟩ := List.mem_filterMap.1 inside
  obtain ⟨type, list, -, readFrom⟩ := ofSpec?_readFrom declared made
  refine ⟨type, list, readFrom, fun calls => ?_⟩
  refine ⟨struct.body_setTags calls, struct.fields_setTags calls, fun span held present => ?_⟩
  rw [struct.body_setTags] at present
  have shown : BodyLine.verbatim span held ∈ struct.body.lines.filter (· ≠ .blank) :=
    List.mem_filter.2 ⟨present, rfl⟩
  obtain ⟨line, among, kept⟩ := exists_left_of_forall₂ readFrom.lines _ shown
  have placed := ItemLine.placed_of_mem_divide readFrom.list_within among
  have tagged := retagged_of_kept parsed placed kept calls
  refine ⟨line, among, kept, fun out => ⟨fun written => written ▸ tagged, tagged.unique⟩, ?_⟩
  exact renderVerbatimBytes?_inBytes (verbatim_inside parsed declared made present)
    (verbatimEdits_fit parsed placed (struct.extended_setTags calls).grown kept).1

/-- Two fields share a line with a comment. The first gets two tags in turn where it had none, the second
gets one that is longer than its own. -/
theorem verbatim_lines_change_in_tags_only_of_two_fields :
    let source := "package a\ntype A struct \x7b\n\tBé b; C, D c \x60x\x60 // é\n\x7d\n".toList
    let calls := [(0, "\x60p\x60".toList), (1, "\x60long\x60".toList), (0, "\x60r\x60".toList)]
    let out := "\tBé b \x60r\x60; C, D c \x60long\x60 // é".toList
    ∃ file, SourceFile.parse? source = some file ∧ ∃ struct ∈ file.structs,
      BodyLine.verbatim ⟨26, 48⟩ [0, 1] ∈ struct.body.lines ∧
      (∃ nodes tags, Retagged 26 (Text.slice source ⟨26, 48⟩) (List.zip nodes tags) out) ∧
      ((struct.setTags calls).inBytes source).renderVerbatimBytes? source
        (Span.inBytes source ⟨26, 48⟩) [0, 1] = some out := by
  intro source calls out
  have written : (SourceFile.parse? source).map (fun file => file.structs.map fun struct =>
      (struct.body.lines, (struct.setTags calls).renderVerbatim source ⟨26, 48⟩ [0, 1])) =
        some [([.verbatim ⟨26, 48⟩ [0, 1]], out)] := by decide +kernel
  obtain ⟨file, read, shown⟩ := Option.map_eq_some_iff.1 written
  obtain ⟨struct, inside, same⟩ : ∃ struct ∈ file.structs, (struct.body.lines,
      (struct.setTags calls).renderVerbatim source ⟨26, 48⟩ [0, 1]) =
        ([.verbatim ⟨26, 48⟩ [0, 1]], out) := by
    apply List.mem_map.1
    simp [shown]
  obtain ⟨lines, text⟩ := Prod.mk.inj same
  have present : BodyLine.verbatim ⟨26, 48⟩ [0, 1] ∈ struct.body.lines := by simp [lines]
  obtain ⟨_, _, all⟩ := verbatim_lines_change_in_tags_only read
  obtain ⟨_, _, _, each⟩ := all struct inside
  obtain ⟨body, _, kept⟩ := each calls
  obtain ⟨_, _, _, tagged, bytes⟩ := kept ⟨26, 48⟩ [0, 1] (body ▸ present)
  exact ⟨file, read, struct, inside, present, ⟨_, _, (tagged out).1 text⟩, text ▸ bytes⟩

end GoGraft
