import GoGraft.Proofs.ImportSpecs

/-! Reading a list of imports in brackets. -/

namespace GoGraft.Go

open Grammar Rule

namespace Grammar

/-- What follows a specification in a list, up to the bracket. -/
def listTail : Rule :=
  seq (many (seq terminator importSpec)) (opt terminator)

/-- What is left of a list, from one of its slots on. -/
def listRest : Slot → Rule
  | .before => seq (opt (terminatedList importSpec)) (mark ")")
  | .behind => seq listTail (mark ")")

theorem reading_many_isSome {rule : Rule} (bounded : (many rule).bounded depthOf)
    (here next : Accepts) (text : Text) : (reading (many rule) here next text).isSome := by
  induction size : text.length using Nat.strongRecOn generalizing text here with
  | ind length ih =>
    rw [reading_many _ _ _ bounded]
    split
    next trees rest first =>
      have shorter := run_shorter bounds.consumes first (Bool.and_eq_true_iff.1 bounded).2
      rw [Option.isSome_map]
      exact ih rest.length (by omega) _ rest rfl
    next => rfl

/-- One round of a list: a terminator and a specification, or else the end of the list. -/
theorem reading_listTail (text : Text) :
    reading listTail {} {} text =
      match reading (seq terminator importSpec) { terminator := true } { terminator := true } text with
      | some (trees, rest) =>
        (reading listTail {} {} rest).map fun (more, left) => (trees ++ more, left)
      | none => some ((reading terminator {} {} text).getD ([], text)) := by
  have unfolded (text : Text) : reading listTail {} {} text =
      (reading (many (seq terminator importSpec)) {} { terminator := true } text).map
        fun (trees, rest) =>
          (trees ++ ((reading terminator {} {} rest).getD ([], rest)).1,
            ((reading terminator {} {} rest).getD ([], rest)).2) := by
    rw [listTail, reading_seq _ _ _ (by decide)]
    change (reading (many (seq terminator importSpec)) {} { terminator := true } text).bind _ = _
    cases reading (many (seq terminator importSpec)) {} { terminator := true } text with
    | none => rfl
    | some found =>
      dsimp only [Option.bind_some]
      rw [ite_self, reading_opt]
      rfl
  rw [unfolded, reading_many _ _ _ (by decide)]
  change Option.map _ (match reading (seq terminator importSpec) { terminator := true }
    { terminator := true } text with | some (trees, rest) => _ | none => _) = _
  cases reading (seq terminator importSpec) { terminator := true } { terminator := true } text with
  | none => rfl
  | some found =>
    dsimp only
    rw [unfolded, Option.map_map, Option.map_map]
    congr 1
    funext ⟨more, left⟩
    simp only [Function.comp, List.append_assoc]

theorem reading_closing (next : Accepts) (text : Text) :
    reading (mark ")") {} next text =
      match pass true text with
      | ')' :: rest => some (gap true text ++ [.leaf .token [')']], rest)
      | _ => none := by
  rw [mark, reading_token]
  change ((Token.mark [')'] []).read? {} (pass true text)).map _ = _
  cases pass true text with
  | nil => rfl
  | cons c rest =>
    by_cases same : c = ')'
    · subst same
      cases rest <;> rfl
    · simp [Token.read?, Text.after?, same, Ne.symm same]

theorem reading_importSpec_of_closing {text rest : Text} (closing : pass true text = ')' :: rest)
    (next : Accepts) : reading importSpec {} next text = none := by
  rw [reading_importSpec, closing]
  rfl

theorem reading_terminator (here next : Accepts) (text : Text) :
    reading terminator here next text =
      match pass false text with
      | c :: rest =>
        if endsItem c then some (gap false text ++ [.leaf .terminator [c]], rest) else none
      | [] => some (gap false text ++ [.leaf .terminator []], []) := by
  have newlines : skipsNewlines here .terminator = false := by
    rw [skipsNewlines]
    exact Bool.and_false _
  rw [terminator, reading_token, newlines]
  cases pass false text with
  | nil => rfl
  | cons c rest =>
    change Option.map _ (if endsItem c then some ([c], rest) else none) =
      if endsItem c then _ else none
    cases endsItem c <;> rfl

theorem reading_listRest_behind (text : Text) :
    reading (listRest .behind) {} {} text =
      (reading listTail {} {} text).bind fun (trees, rest) =>
        (reading (mark ")") {} {} rest).map fun (more, left) => (trees ++ more, left) := by
  rw [listRest, reading_seq _ _ _ (by decide)]
  change (reading listTail {} {} text).bind _ = _
  simp only [ite_self]

theorem reading_listTail_isSome (text : Text) : (reading listTail {} {} text).isSome := by
  rw [listTail, reading_seq _ _ _ (by decide)]
  obtain ⟨found, many⟩ := Option.isSome_iff_exists.1 (reading_many_isSome
    (show (many (seq terminator importSpec)).bounded depthOf by decide) {}
    ((opt terminator : Rule).following {}) text)
  rw [many, Option.bind_some]
  dsimp only
  rw [reading_opt]
  rfl

theorem reading_listRest_before (text : Text) :
    reading (listRest .before) {} {} text =
      match reading importSpec {} {} text with
      | some (trees, left) =>
        (reading (listRest .behind) {} {} left).map fun (more, rest) => (trees ++ more, rest)
      | none => reading (mark ")") {} {} text := by
  have spec (next : Accepts) : reading importSpec {} next text = reading importSpec {} {} text := by
    rw [reading_importSpec, reading_importSpec]
  rw [listRest, reading_seq _ _ _ (by decide)]
  change (reading (opt (seq importSpec listTail)) {} {} text).bind _ = _
  rw [reading_opt]
  change Option.bind (some ((reading (seq importSpec listTail) {} {} text).getD ([], text))) _ = _
  rw [reading_seq _ _ _ (by decide), spec]
  cases reading importSpec {} {} text with
  | none =>
    change (reading (mark ")") {} {} text).map _ = _
    simp
  | some found =>
    obtain ⟨tail, total⟩ := Option.isSome_iff_exists.1 (reading_listTail_isSome found.2)
    simp only [reading_listRest_behind, ite_self, Option.bind_some, total, Option.map_some,
      Option.getD_some, Option.map_map]
    congr 1
    funext ⟨more, rest⟩
    simp

theorem reading_list_closing {text rest : Text} (closing : pass true text = ')' :: rest) :
    reading (listRest .before) {} {} text = some (gap true text ++ [.leaf .token [')']], rest) := by
  rw [reading_listRest_before, reading_importSpec_of_closing closing]
  dsimp only
  rw [reading_closing, closing]
  rfl

theorem reading_list_item {text : Text} (inside : ∀ rest, pass true text ≠ ')' :: rest) :
    reading (listRest .before) {} {} text =
      (reading importSpec {} {} text).bind fun (trees, left) =>
        (reading (listRest .behind) {} {} left).map fun (more, rest) => (trees ++ more, rest) := by
  rw [reading_listRest_before]
  cases reading importSpec {} {} text with
  | none =>
    dsimp only
    rw [reading_closing]
    split
    next rest closing => exact absurd closing (inside rest)
    next => rfl
  | some found => rfl

theorem reading_list_terminator {c : Char} {text left : Text} (ends : endsItem c)
    (found : pass false text = c :: left) :
    reading (listRest .behind) {} {} text =
      (reading (listRest .before) {} {} left).map fun (trees, rest) =>
        (gap false text ++ .leaf .terminator [c] :: trees, rest) := by
  have terminated (here next : Accepts) : reading terminator here next text =
      some (gap false text ++ [.leaf .terminator [c]], left) := by
    rw [reading_terminator, found]
    exact if_pos ends
  rw [reading_listRest_behind, reading_listTail, reading_seq _ _ _ (by decide), terminated,
    terminated, reading_listRest_before, Option.bind_some]
  dsimp only
  rw [if_neg (by simp), reading_importSpec { terminator := true }, ← reading_importSpec {}]
  cases reading importSpec {} {} left with
  | none =>
    dsimp only [Option.map_none, Option.getD_some, Option.bind_some]
    congr 1
    funext ⟨more, rest⟩
    simp
  | some found =>
    dsimp only [Option.map_some]
    rw [reading_listRest_behind]
    cases reading listTail {} {} found.2 with
    | none => rfl
    | some tail =>
      dsimp only [Option.map_some, Option.bind_some]
      rw [Option.map_map, Option.map_map]
      congr 1
      funext ⟨more, rest⟩
      simp

theorem reading_list_behind {c : Char} {text left : Text} (found : pass false text = c :: left)
    (goes : endsItem c = false) :
    reading (listRest .behind) {} {} text = reading (mark ")") {} {} text := by
  have none (here next : Accepts) : reading terminator here next text = none := by
    rw [reading_terminator, found]
    exact if_neg (Bool.eq_false_iff.1 goes)
  rw [reading_listRest_behind, reading_listTail, reading_seq _ _ _ (by decide), none, none]
  change (reading (mark ")") {} {} text).map _ = _
  simp

theorem reading_list_end {text : Text} (nothing : pass false text = []) :
    reading (listRest .behind) {} {} text = none := by
  have ended (here next : Accepts) : reading terminator here next text =
      some (gap false text ++ [.leaf .terminator []], []) := by
    rw [reading_terminator, nothing]
  have spec (next : Accepts) : reading importSpec {} next [] = none := by
    rw [reading_importSpec]
    rfl
  rw [reading_listRest_behind, reading_listTail, reading_seq _ _ _ (by decide), ended, ended,
    Option.bind_some]
  dsimp only
  rw [if_neg (by simp), spec]
  dsimp only [Option.map_none, Option.getD_some, Option.bind_some]
  rw [reading_closing]
  rfl

end Grammar

/-! ### Paths of a list -/

/-- The paths in what is left of a list, and the text behind its bracket. -/
def listPaths (slot : Slot) (text : Text) : Option (List Text × Text) :=
  (reading (listRest slot) {} {} text).map fun (trees, rest) => (Tree.specPaths trees, rest)

theorem specPaths_eq (trees : List Tree) :
    Tree.specPaths trees = trees.flatMap fun tree => tree.importPath?.toList :=
  List.filterMap_eq_flatMap_toList _ _

theorem specPaths_append (first second : List Tree) :
    Tree.specPaths (first ++ second) = Tree.specPaths first ++ Tree.specPaths second :=
  List.filterMap_append

theorem specPaths_gap (newlines : Bool) (text : Text) (kind : LeafKind) (found : Text)
    (more : List Tree) :
    Tree.specPaths (gap newlines text ++ .leaf kind found :: more) = Tree.specPaths more := by
  rw [specPaths_append, specPaths_trivia isTrivia_of_mem_gap]
  rfl

theorem listPaths_closing {text rest : Text} (closing : pass true text = ')' :: rest) :
    listPaths .before text = some ([], rest) := by
  rw [listPaths, reading_list_closing closing, Option.map_some]
  dsimp only
  rw [specPaths_gap]
  rfl

theorem listPaths_item {text : Text} (inside : ∀ rest, pass true text ≠ ')' :: rest) :
    listPaths .before text = (importAt? text).bind fun (path, left) =>
      (listPaths .behind left).map fun (more, rest) => (path :: more, rest) := by
  have paths := reading_importSpec_paths {} text
  rw [listPaths, reading_list_item inside]
  cases spec : reading importSpec {} {} text with
  | none =>
    rw [spec, Option.map_none, eq_comm, Option.map_eq_none_iff] at paths
    rw [paths]
    rfl
  | some found =>
    rw [spec, Option.map_some, eq_comm, Option.map_eq_some_iff] at paths
    obtain ⟨⟨path, left⟩, read, same⟩ := paths
    have both := Prod.ext_iff.1 same
    rw [read, Option.bind_some, Option.bind_some]
    dsimp only at both ⊢
    rw [both.2, listPaths, Option.map_map, Option.map_map]
    congr 1
    funext ⟨more, rest⟩
    simp only [Function.comp, specPaths_append, ← both.1, List.singleton_append]

theorem listPaths_terminator {c : Char} {text left : Text} (ends : endsItem c)
    (found : pass false text = c :: left) : listPaths .behind text = listPaths .before left := by
  rw [listPaths, reading_list_terminator ends found, listPaths, Option.map_map]
  congr 1
  funext ⟨trees, rest⟩
  simp only [Function.comp, specPaths_gap]

theorem listPaths_last {text rest : Text} (closing : pass false text = ')' :: rest) :
    listPaths .behind text = some ([], rest) := by
  have newline : (pass false text).head? ≠ some '\n' := by
    rw [closing]
    exact fun same => nomatch same
  rw [listPaths, reading_list_behind closing rfl, reading_closing, (pass_newlines newline).2, closing]
  change some (Tree.specPaths (_ ++ _), rest) = _
  rw [specPaths_gap]
  rfl

/-- Lists of imports. -/
def importReader : ListReader where
  item? text := (importAt? text).map fun (path, rest) => ([path], rest)
  view := listPaths
  held tree := tree.importPath?.toList
  held_leaf _ _ := rfl
  item := by
    intro text left found read
    rw [importAt?_pass] at read
    obtain ⟨⟨path, rest⟩, read, same⟩ := Option.map_eq_some_iff.1 read
    cases same
    rw [listPaths_item, read]
    · rfl
    · intro rest closing
      rw [← importAt?_pass, closing] at read
      cases read
  terminator := listPaths_terminator

/-- A tree that is read as one import, whatever comes behind it. -/
def ImportTree (tree : Tree) (_ : Text) : Prop :=
  ∃ path, tree.importPath? = some path ∧ IsImport tree.text path

theorem ImportTree.item {tree : Tree} {after : Text} (spec : ImportTree tree after) :
    importReader.Item tree after := by
  obtain ⟨path, known, whole⟩ := spec
  obtain ⟨c, more, same, opens⟩ := whole.opens
  constructor
  · rw [same]
    exact solid_of_opensImport opens _
  · change (importAt? (tree.text ++ after)).map _ = some (tree.importPath?.toList, after)
    rw [whole.read, known]
    rfl

theorem listPaths_laid {slot last : Slot} {trees : List Tree} {text after : Text}
    (laid : Laid ImportTree slot trees after last)
    (same : pass slot.newlines text = pass slot.newlines (Tree.textOfAll trees ++ after)) :
    ∃ left, pass last.newlines left = pass last.newlines after ∧
      listPaths slot text =
        (listPaths last left).map fun (more, rest) => (Tree.specPaths trees ++ more, rest) := by
  rw [specPaths_eq]
  exact ListReader.view_laid (laid.mono fun _ _ => ImportTree.item) same

theorem pass_length_le (newlines : Bool) (text : Text) : (pass newlines text).length ≤ text.length := by
  have whole := congrArg List.length (textOfAll_gap newlines text)
  rw [List.length_append] at whole
  omega

/-- What a list holds between its brackets is laid out as a list of imports. -/
theorem reading_list_laid {slot : Slot} {text rest : Text} {trees : List Tree}
    (read : reading (listRest slot) {} {} text = some (trees, rest)) :
    ∃ inner last, trees = inner ++ [.leaf .token [')']] ∧
      Laid ImportTree slot inner (')' :: rest) last := by
  -- Each item and each terminator makes the text shorter.
  induction size : text.length using Nat.strongRecOn generalizing slot text trees with
  | ind length ih =>
    have passed := @gap_laid ImportTree slot _ id text
    have spelled {slot : Slot} {left : Text} {inner : List Tree}
        (tail : reading (listRest slot) {} {} left = some (inner ++ [.leaf .token [')']], rest)) :
        Tree.textOfAll inner ++ ')' :: rest = left := by
      simpa [Tree.textOfAll, Tree.text] using (run_taken tail).spelled
    cases slot with
    | before =>
      by_cases closing : ∃ left, pass true text = ')' :: left
      · obtain ⟨left, closing⟩ := closing
        rw [reading_list_closing closing] at read
        cases read
        exact ⟨_, _, rfl, closing ▸ passed⟩
      · rw [reading_list_item fun left same => closing ⟨left, same⟩] at read
        obtain ⟨⟨spec, left⟩, item, behind⟩ := Option.bind_eq_some_iff.1 read
        obtain ⟨⟨more, last⟩, tail, same⟩ := Option.map_eq_some_iff.1 behind
        cases same
        obtain ⟨children, path, rfl, known, whole⟩ := reading_importSpec_eq_some item
        have shorter := run_shorter bounds.consumes item (by decide)
        obtain ⟨inner, last, rfl, laid⟩ := ih left.length (by omega) tail rfl
        have second : pass true text = Tree.textOfAll (.node .importSpec children :: inner) ++
            ')' :: rest := by
          have first := (run_taken item).spelled.trans (textOfAll_gap true text).symm
          rw [Tree.textOfAll_append, List.append_assoc, List.append_cancel_left_eq,
            ← spelled tail] at first
          simpa [Tree.textOfAll] using first.symm
        refine ⟨gap true text ++ .node .importSpec children :: inner, last, by simp, ?_⟩
        exact (second ▸ passed).append (.item ⟨path, known, whole⟩ laid)
    | behind =>
      cases found : pass false text with
      | nil =>
        rw [reading_list_end found] at read
        cases read
      | cons c left =>
        have shorter := pass_length_le false text
        rw [found, List.length_cons] at shorter
        cases ends : endsItem c with
        | true =>
          rw [reading_list_terminator ends found] at read
          obtain ⟨⟨more, last⟩, tail, same⟩ := Option.map_eq_some_iff.1 read
          cases same
          obtain ⟨inner, last, rfl, laid⟩ := ih left.length (by omega) tail rfl
          have second : pass false text = Tree.textOfAll (.leaf .terminator [c] :: inner) ++
              ')' :: rest := by
            rw [found, ← spelled tail]
            rfl
          refine ⟨gap false text ++ .leaf .terminator [c] :: inner, last, by simp, ?_⟩
          exact (second ▸ passed).append (.terminator ends laid)
        | false =>
          have newline : (pass false text).head? ≠ some '\n' := by
            rw [found]
            rintro same
            cases same
            cases ends
          obtain ⟨sameGap, samePass⟩ := pass_newlines newline
          rw [reading_list_behind found ends, reading_closing, sameGap, samePass] at read
          split at read
          next left closing =>
            cases read
            exact ⟨_, _, rfl, closing ▸ passed⟩
          next => cases read

/-! ### In front of any text -/

/-- An import ends where it did, whatever comes behind it. -/
theorem importAt?_closed {text path rest : Text} (read : importAt? text = some (path, rest)) :
    ∃ taken, text = taken ++ rest ∧ ∀ other, importAt? (taken ++ other) = some (path, other) := by
  have paths := reading_importSpec_paths {} text
  rw [read, Option.map_some] at paths
  obtain ⟨⟨trees, left⟩, spec, same⟩ := Option.map_eq_some_iff.1 paths
  obtain ⟨children, known, rfl, named, whole⟩ := reading_importSpec_eq_some spec
  obtain ⟨c, more, spelled, opens⟩ := whole.opens
  have passed : pass true text = Tree.textOfAll children ++ left := by
    have front := (run_taken spec).spelled.trans (textOfAll_gap true text).symm
    rw [Tree.textOfAll_append, List.append_assoc, List.append_cancel_left_eq] at front
    simpa [Tree.textOfAll, Tree.text] using front.symm
  rw [← importAt?_pass, passed, whole.read] at read
  cases read
  refine ⟨Tree.textOfAll (gap true text) ++ Tree.textOfAll children, ?_, fun other => ?_⟩
  · rw [List.append_assoc, ← passed, textOfAll_gap]
  · have same : (Tree.textOfAll children ++ other).head? = (pass true text).head? := by
      rw [passed, spelled]
      rfl
    rw [List.append_assoc, ← importAt?_pass]
    rw [show pass true (Tree.textOfAll (gap true text) ++ (Tree.textOfAll children ++ other)) =
      pass true (Tree.textOfAll children ++ other) from pass_gap .before (.inr same)]
    rw [importAt?_pass, whole.read]

theorem listPaths_bracket {slot : Slot} {text rest : Text}
    (closing : pass slot.newlines text = ')' :: rest) : listPaths slot text = some ([], rest) := by
  cases slot with
  | before => exact listPaths_closing closing
  | behind => exact listPaths_last closing

theorem pass_bracket (newlines : Bool) (rest : Text) : pass newlines (')' :: rest) = ')' :: rest := by
  refine pass_solid ⟨fun c first => ?_, rfl⟩
  cases first
  cases newlines <;> rfl

/-- A list ends where it did, whatever comes behind its bracket. -/
theorem listPaths_closed {text rest : Text} {paths : List Text}
    (read : listPaths .before text = some (paths, rest)) :
    ∃ taken, text = taken ++ rest ∧ ∀ other, listPaths .before (taken ++ other) = some (paths, other) := by
  obtain ⟨⟨trees, left⟩, list, same⟩ := Option.map_eq_some_iff.1 read
  cases same
  obtain ⟨inner, last, rfl, laid⟩ := reading_list_laid list
  have spelled := (run_taken list).spelled
  refine ⟨Tree.textOfAll inner ++ [')'], ?_, fun other => ?_⟩
  · simpa [Tree.textOfAll, Tree.text] using spelled.symm
  · have moved : Laid ImportTree .before inner (')' :: other) last :=
      laid.change (fun _ _ _ spec _ => spec) (.inr rfl)
    obtain ⟨left, behind, viewed⟩ := listPaths_laid moved rfl
    rw [List.append_assoc, List.singleton_append, viewed, listPaths_bracket (behind.trans (pass_bracket _ _)), specPaths_append]
    rfl

end GoGraft.Go
