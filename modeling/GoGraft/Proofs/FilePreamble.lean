import GoGraft.Proofs.ImportDeclarations

/-! The front of a file. As long as there are only package clauses and import declarations, a file
is a list of items, and its imports are those of the declarations; the first other tree ends this
part of the file. -/

namespace GoGraft.Go

open Grammar Rule

/-! ### Files -/

namespace Grammar

/-- What is left of a file, from one of its slots on. -/
def fileRest : Slot → Rule
  | .before => file
  | .behind => seq terminator file

theorem reading_round (next : Accepts) (text : Text) :
    reading (seq item terminator) {} next text =
      (reading item {} { terminator := true } text).bind fun (trees, left) =>
        (reading terminator {} {} left).map fun (more, rest) => (trees ++ more, rest) := by
  rw [reading_seq _ _ _ (by decide)]
  change (reading item {} { terminator := true } text).bind _ = _
  simp only [ite_self]
  rfl

theorem reading_file (text : Text) :
    reading file {} {} text =
      match reading (seq item terminator) {} {} text with
      | some (trees, rest) =>
        (reading file {} {} rest).map fun (more, left) => (trees ++ more, left)
      | none => reading (token .ending) {} {} text := by
  have unfolded (text : Text) : reading file {} {} text =
      (reading (many (seq item terminator)) {} {} text).bind fun (trees, rest) =>
        (reading (token .ending) {} {} rest).map fun (more, left) => (trees ++ more, left) := by
    rw [file, reading_seq _ _ _ (by decide)]
    change (reading (many (seq item terminator)) {} {} text).bind _ = _
    simp only [ite_self]
  rw [unfolded, reading_many _ _ _ (by decide)]
  change Option.bind (match reading (seq item terminator) {} _ text with
    | some (trees, rest) => _ | none => _) _ = _
  rw [reading_round, ← reading_round {}]
  cases reading (seq item terminator) {} {} text with
  | none =>
    change (reading (token .ending) {} {} text).map _ = _
    simp
  | some found =>
    dsimp only
    rw [unfolded, Option.map_bind, Option.bind_map]
    congr 1
    funext ⟨trees, rest⟩
    simp only [Function.comp, Option.map_map]
    congr 1
    funext ⟨more, left⟩
    simp

theorem reading_ending (text : Text) :
    reading (token .ending) {} {} text =
      if pass true text = [] then some (gap true text ++ [.leaf .token []], []) else none := by
  rw [reading_token]
  change (Token.read? {} (pass true text) .ending).map _ = _
  simp only [Token.read?, List.isEmpty_iff]
  split <;> rfl

theorem reading_fileRest_behind (text : Text) :
    reading (fileRest .behind) {} {} text =
      (reading terminator {} {} text).bind fun (trees, rest) =>
        (reading file {} {} rest).map fun (more, left) => (trees ++ more, left) := by
  rw [fileRest, reading_seq _ _ _ (by decide), reading_terminator {} _, ← reading_terminator {} {}]
  simp only [ite_self]

theorem reading_file_item {text left : Text} {trees : List Tree}
    (read : reading item {} { terminator := true } text = some (trees, left))
    (filled : pass true text ≠ []) :
    reading (fileRest .before) {} {} text =
      (reading (fileRest .behind) {} {} left).map fun (more, rest) => (trees ++ more, rest) := by
  rw [fileRest, reading_file, reading_round, read, Option.bind_some, reading_fileRest_behind]
  dsimp only
  cases reading terminator {} {} left with
  | none =>
    rw [reading_ending]
    exact if_neg filled
  | some found =>
    simp only [Option.map_some, Option.bind_some, Option.map_map]
    congr 1
    funext ⟨more, rest⟩
    simp [Function.comp]

theorem reading_file_terminator {c : Char} {text left : Text} (ends : endsItem c)
    (found : pass false text = c :: left) :
    reading (fileRest .behind) {} {} text =
      (reading (fileRest .before) {} {} left).map fun (trees, rest) =>
        (gap false text ++ .leaf .terminator [c] :: trees, rest) := by
  rw [reading_fileRest_behind, reading_terminator, found]
  dsimp only
  rw [if_pos ends, Option.bind_some, fileRest]
  simp

end Grammar

/-- The imported paths in what is left of a file. -/
def filePaths (slot : Slot) (text : Text) : Option (List Text × Text) :=
  (reading (fileRest slot) {} {} text).map fun (trees, rest) =>
    (trees.flatMap Tree.declaredPaths, rest)

/-- Files as lists of package clauses and import declarations. -/
def fileReader : ListReader where
  item? := preambleAt?
  view := filePaths
  held := Tree.declaredPaths
  held_leaf _ _ := rfl
  item := by
    intro text left paths read
    rw [preambleAt?_pass] at read
    obtain ⟨found, rest, held, word⟩ := preambleAt?_word read
    rw [preambleAt?_eq held word { terminator := true }] at read
    obtain ⟨⟨trees, left⟩, item, same⟩ := Option.map_eq_some_iff.1 read
    cases same
    have filled : pass true text ≠ [] := by
      intro none
      rw [none] at word
      cases word
    rw [filePaths, reading_file_item item filled, filePaths, Option.map_map, Option.map_map]
    congr 1
    funext ⟨more, rest⟩
    simp [Function.comp]
  terminator := by
    intro c text left ends found
    rw [filePaths, reading_file_terminator ends found, filePaths, Option.map_map]
    congr 1
    funext ⟨trees, rest⟩
    have alone := @flatMap_gap Tree.declaredPaths (fun _ _ => rfl) false text
      (.leaf .terminator [c])
    dsimp only [Function.comp]
    rw [List.append_cons, List.flatMap_append, alone]
    rfl

/-! ### The trees at the front of a file -/

/-- Where a tree stands that is no part of a preamble, only trivia stand in front of it. -/
theorem laid_of_led {Item : Tree → Text → Prop} {front back more : List Tree} {newlines : Bool}
    {text : Text} {tree : Tree} (split : front ++ back = gap newlines text ++ tree :: more)
    (spelled : Tree.textOfAll (front ++ back) = text)
    (plain : ∀ tree ∈ front, tree.isPreamble) (other : tree.isPreamble = false) :
    ∃ last, Laid Item .before front (Tree.textOfAll back) last := by
  obtain ⟨rest, inside, same⟩ : ∃ rest, gap newlines text = front ++ rest ∧
      back = rest ++ tree :: more := by
    rcases List.append_eq_append_iff.1 split with ⟨rest, inside, same⟩ | ⟨rest, same, behind⟩
    · exact ⟨rest, inside, same⟩
    · cases rest with
      | nil =>
        rw [List.append_nil] at same
        exact ⟨[], by rw [same, List.append_nil], behind.symm⟩
      | cons first rest =>
        cases behind
        have this := plain tree (same ▸ List.mem_append_right _ List.mem_cons_self)
        rw [this] at other
        cases other
  have after : pass newlines text = Tree.textOfAll (tree :: more) := by
    have whole := spelled.trans (textOfAll_gap newlines text).symm
    rw [split, Tree.textOfAll_append, List.append_cancel_left_eq] at whole
    exact whole.symm
  have laid := @gap_laid Item .before newlines (fun _ => rfl) text
  rw [inside, after] at laid
  obtain ⟨last, first, -⟩ := laid.split
  rw [same, Tree.textOfAll_append]
  exact ⟨last, first⟩

/-- The rules of items other than package clauses and import declarations. -/
def otherItem : Grammar.Rule :=
  alt functionDeclaration (alt methodDeclaration (within { item := true } (ref .statement)))

theorem reading_item_other {text : Text}
    (other : ¬ ∃ found left, found ∈ Token.itemWords ∧
      Lexeme.identifier? (pass true text) = some (found, left)) (next : Accepts) :
    reading item {} next text = reading otherItem {} next text := by
  have word (spelling : String) (held : spelling.toList ∈ Token.itemWords) (behind : Grammar.Rule)
      (bounded : (seq (word spelling) behind).bounded depthOf) :
      reading (seq (word spelling) behind) {} next text = none := by
    rw [reading_seq _ _ _ bounded, reading_word rfl]
    cases found : Lexeme.identifier? (pass true text) with
    | none => rfl
    | some pair =>
      have apart : pair.1 ≠ spelling.toList := fun same =>
        other ⟨pair.1, pair.2, same ▸ held, found⟩
      dsimp only [Option.bind_some]
      rw [if_neg apart]
      rfl
  have package : reading packageClause {} next text = none := by
    rw [packageClause, reading_node, word "package" (by decide) _ (by decide)]
    rfl
  have declaration : reading importDeclaration {} next text = none := by
    rw [importDeclaration, reading_node, word "import" (by decide) _ (by decide)]
    rfl
  have items : item = alt packageClause (alt importDeclaration otherItem) := rfl
  rw [items, reading_alt _ _ _ (by decide), reading_alt _ _ _ (by decide), package, declaration,
    Option.none_or, Option.none_or]

theorem reading_item_led {text rest : Text} {trees : List Tree} {next : Accepts}
    (other : ¬ ∃ found left, found ∈ Token.itemWords ∧
      Lexeme.identifier? (pass true text) = some (found, left))
    (read : reading item {} next text = some (trees, rest)) :
    ∃ newlines tree more, tree.isPreamble = false ∧ trees = gap newlines text ++ tree :: more := by
  rw [reading_item_other other] at read
  have led := (run_reads read).led bounds.consumes rules_leads (by decide)
  have shorter := run_shorter bounds.consumes read (by decide)
  obtain rfl | led := led
  · have spelled : rest = text := (run_taken read).spelled
    rw [spelled] at shorter
    exact absurd shorter (Nat.lt_irrefl _)
  · exact led

theorem PreambleTree.item {tree : Tree} {after : Text} (whole : PreambleTree tree after) :
    fileReader.Item tree after :=
  ⟨whole.solid, whole.paths⟩

theorem preamble_laid {text found tail left : Text} {kind : NodeKind} {children : List Tree}
    (held : found ∈ Token.itemWords)
    (word : Lexeme.identifier? (pass true text) = some (found, tail)) {next : Accepts}
    (read : reading item {} next text = some (gap true text ++ [.node kind children], left)) :
    Laid PreambleTree .before (gap true text ++ .node kind children :: gap false left)
      (pass false left) .behind := by
  have passed : pass true text = Tree.text (.node kind children) ++ left := by
    have front := (run_taken read).spelled.trans (textOfAll_gap true text).symm
    rw [Tree.textOfAll_append, List.append_assoc, List.append_cancel_left_eq] at front
    simpa [Tree.textOfAll] using front.symm
  have behind := textOfAll_gap false left
  have item : PreambleTree (.node kind children) (Tree.textOfAll (gap false left) ++
      pass false left) := by
    rw [behind]
    exact ⟨text, found, tail, next, passed, held, word, read⟩
  refine Laid.append ?_ (.item item (@gap_laid _ .behind false (fun wide => wide) left))
  rw [Tree.textOfAll, List.append_assoc, behind, ← passed]
  exact @gap_laid _ .before true (fun _ => rfl) text

theorem reading_terminator_eq_some {text rest : Text} {trees : List Tree}
    (read : reading terminator {} {} text = some (trees, rest)) :
    ∃ mark, trees = gap false text ++ [.leaf .terminator mark] ∧ pass false text = mark ++ rest ∧
      (mark = [] ∨ ∃ c, mark = [c] ∧ endsItem c) := by
  rw [reading_terminator] at read
  split at read
  next c left found =>
    split at read
    next ends =>
      cases read
      exact ⟨[c], rfl, found, .inr ⟨c, rfl, ends⟩⟩
    next => cases read
  next found =>
    cases read
    exact ⟨[], rfl, found, .inl rfl⟩

/-- The package clauses and import declarations at the front of a file are laid out as a list. -/
theorem file_laid {text : Text} {front back : List Tree}
    (read : reading file {} {} text = some (front ++ back, []))
    (plain : ∀ tree ∈ front, tree.isPreamble) :
    ∃ last, Laid PreambleTree .before front (Tree.textOfAll back) last := by
  -- Each item makes the text shorter.
  induction size : text.length using Nat.strongRecOn generalizing text front with
  | ind length ih =>
    have spelled := (run_taken read).spelled
    rw [List.append_nil] at spelled
    rw [reading_file] at read
    split at read
    next round rest found =>
      obtain ⟨⟨more, last⟩, behind, same⟩ := Option.map_eq_some_iff.1 read
      obtain ⟨split, rfl⟩ := Prod.mk.inj same
      rw [reading_round] at found
      obtain ⟨⟨trees, left⟩, item, ended⟩ := Option.bind_eq_some_iff.1 found
      obtain ⟨⟨term, rest⟩, ending, same⟩ := Option.map_eq_some_iff.1 ended
      cases same
      by_cases word : ∃ found behind, found ∈ Token.itemWords ∧
          Lexeme.identifier? (pass true text) = some (found, behind)
      · obtain ⟨found, tail, held, word⟩ := word
        obtain ⟨kind, children, rfl⟩ := reading_item_eq_some held word item
        have shorter := run_shorter bounds.consumes item (by decide)
        obtain ⟨mark, rfl, passed, marks⟩ := reading_terminator_eq_some ending
        have laid := preamble_laid held word item
        have after : pass false left = Tree.textOfAll (.leaf .terminator mark :: more) := by
          have tail := (run_taken behind).spelled
          rw [List.append_nil] at tail
          rw [passed, Tree.textOfAll, tail]
          rfl
        have halves : front ++ back = (gap true text ++ .node kind children :: gap false left) ++
            .leaf .terminator mark :: more := by
          simpa using split.symm
        rw [after] at laid
        rcases List.append_eq_append_iff.1 halves with ⟨inner, inside, tail⟩ | ⟨inner, rfl, tail⟩
        · rw [inside] at laid
          obtain ⟨last, first, -⟩ := laid.split
          rw [tail, Tree.textOfAll_append]
          exact ⟨last, first⟩
        · cases inner with
          | nil =>
            rw [List.append_nil]
            rw [List.nil_append] at tail
            exact ⟨_, tail ▸ laid⟩
          | cons first inner =>
            obtain ⟨rfl, rfl⟩ := List.cons.inj tail
            obtain ⟨written, others⟩ :=
              List.forall_mem_cons.1 (List.forall_mem_append.1 plain).2
            obtain rfl | ⟨c, rfl, ends⟩ := marks
            · cases written
            · have bound := pass_length_le false left
              rw [passed, List.singleton_append, List.length_cons] at bound
              obtain ⟨last, more⟩ := ih rest.length (by omega) behind others rfl
              refine ⟨last, Laid.append ?_ (.terminator ends more)⟩
              rwa [← Tree.textOfAll_append]
      · obtain ⟨newlines, tree, others, other, rfl⟩ := reading_item_led word item
        rw [List.append_assoc, List.append_assoc, List.cons_append] at split
        exact laid_of_led split.symm spelled plain other
    next =>
      rw [reading_ending] at read
      split at read
      next =>
        have split := congrArg Prod.fst (Option.some.inj read)
        exact laid_of_led split.symm spelled plain rfl
      next => cases read

theorem rules_make (name : Name) :
    (rules name).makes (· != .importDeclaration) true := by
  cases name <;> decide

theorem otherItem_makes {trees children : List Tree} {kind : NodeKind}
    (made : Derives rules otherItem trees) (inside : Tree.node kind children ∈ trees) :
    kind ≠ .importDeclaration := by
  have allowed : (kind != .importDeclaration) = true :=
    @Derives.makes _ _ (· != .importDeclaration) true (fun _ => rules_make) _ _ made (by decide) _ _
      inside
  exact bne_iff_ne.1 allowed

theorem no_node_in_gap {newlines : Bool} {text : Text} {kind : NodeKind} {children : List Tree} :
    Tree.node kind children ∉ gap newlines text := by
  intro inside
  cases isTrivia_of_mem_gap _ inside

/-- The import declarations of a file are read as such, whatever stands in front of them. -/
theorem preambleTree_of_mem {text rest : Text} {trees children : List Tree}
    (read : reading file {} {} text = some (trees, rest))
    (among : Tree.node .importDeclaration children ∈ trees) :
    ∃ after, PreambleTree (.node .importDeclaration children) after := by
  induction size : text.length using Nat.strongRecOn generalizing text trees with
  | ind length ih =>
    rw [reading_file] at read
    split at read
    next round behind found =>
      obtain ⟨⟨more, last⟩, later, same⟩ := Option.map_eq_some_iff.1 read
      cases same
      have shorter := run_shorter bounds.consumes found (by decide)
      rw [reading_round] at found
      obtain ⟨⟨trees, left⟩, item, ended⟩ := Option.bind_eq_some_iff.1 found
      obtain ⟨⟨term, behind⟩, ending, same⟩ := Option.map_eq_some_iff.1 ended
      cases same
      rcases List.mem_append.1 among with first | others
      · rcases List.mem_append.1 first with inside | mark
        · by_cases word : ∃ found behind, found ∈ Token.itemWords ∧
              Lexeme.identifier? (pass true text) = some (found, behind)
          · obtain ⟨found, tail, held, word⟩ := word
            obtain ⟨kind, inner, rfl⟩ := reading_item_eq_some held word item
            rcases List.mem_append.1 inside with trivia | own
            · exact absurd trivia no_node_in_gap
            · rw [List.mem_singleton.1 own]
              have laid := preamble_laid held word item
              obtain ⟨_, -, laid⟩ := laid.split
              cases laid with
              | item item _ => exact ⟨_, item⟩
          · rw [reading_item_other word] at item
            exact absurd rfl (otherItem_makes (run_taken item).made inside)
        · obtain ⟨_, rfl, -, -⟩ := reading_terminator_eq_some ending
          rcases List.mem_append.1 mark with trivia | leaf
          · exact absurd trivia no_node_in_gap
          · cases List.mem_singleton.1 leaf
      · exact ih behind.length (size ▸ shorter) later others rfl
    next =>
      rw [reading_ending] at read
      split at read
      next =>
        cases read
        rcases List.mem_append.1 among with trivia | leaf
        · exact absurd trivia no_node_in_gap
        · cases List.mem_singleton.1 leaf
      next => cases read

/-! ### What comes behind -/

theorem fileReader_item_behind (tree : Tree) (one two : Text) (item : fileReader.Item tree one)
    (same : two.head? = some '\n' ∨ two.head? = one.head?) : fileReader.Item tree two := by
  obtain ⟨solid, read⟩ := item
  obtain ⟨taken, passed, ⟨c, more, spelled, opens⟩, again⟩ := preambleAt?_behind read
  rw [pass_solid solid] at passed
  obtain rfl := List.append_cancel_right passed
  refine ⟨?_, again two same⟩
  rw [spelled]
  exact solid_of_opensImport opens _

end GoGraft.Go
