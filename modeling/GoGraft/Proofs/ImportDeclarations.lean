import GoGraft.Proofs.ImportLists
import GoGraft.Proofs.Openings

/-! Package clauses and import declarations: how they are read, which paths they hold, and what may
come behind them. -/

namespace GoGraft.Go

open Grammar Rule

/-! ### Import declarations -/

/-- The paths that a child of an import declaration holds. -/
def Tree.childPaths : Tree → List Text
  | .node .importSpec children => (Tree.node .importSpec children).importPath?.toList
  | .node _ children => specPaths children
  | .leaf _ _ => []

/-- The paths of an import declaration. -/
def Tree.declaredPaths : Tree → List Text
  | .node .importDeclaration children => children.flatMap childPaths
  | _ => []

/-- The paths behind the word `import`, and the text behind the declaration. -/
def importsAt? (text : Text) : Option (List Text × Text) :=
  match pass true text with
  | '(' :: inner => listPaths .before inner
  | _ => (importAt? text).map fun (path, rest) => ([path], rest)

/-- What is held by a list of trees with trivia in front is held by its last. -/
theorem flatMap_gap {held : Tree → List Text} (leaves : ∀ kind text, held (.leaf kind text) = [])
    (newlines : Bool) (text : Text) (tree : Tree) :
    (gap newlines text ++ [tree]).flatMap held = held tree := by
  have nothing : (gap newlines text).flatMap held = [] := by
    rw [List.flatMap_eq_nil_iff]
    intro trivia inside
    have blank := isTrivia_of_mem_gap trivia inside
    cases trivia with
    | leaf kind text => exact leaves kind text
    | node => cases blank
  rw [List.flatMap_append, nothing]
  simp

namespace Grammar

theorem importList_eq : importList = node .importList (seq (mark "(") (listRest .before)) := rfl

theorem reading_word {here : Accepts} (free : here.terminator = false) (spelling : String)
    (next : Accepts) (text : Text) :
    reading (word spelling) here next text =
      (Lexeme.identifier? (pass true text)).bind fun (found, rest) =>
        if found = spelling.toList then some (gap true text ++ [.leaf .token found], rest) else none := by
  have newlines : skipsNewlines here (.word spelling.toList) = true := by
    rw [skipsNewlines, free]
    rfl
  rw [word, reading_token, newlines]
  simp only [Token.read?]
  cases Lexeme.identifier? (pass true text) with
  | none => rfl
  | some found =>
    simp only [Option.bind_some, beq_iff_eq]
    split <;> rfl

theorem reading_word_eq {here : Accepts} (free : here.terminator = false) {spelling : String}
    (next : Accepts) {text rest : Text}
    (read : Lexeme.identifier? (pass true text) = some (spelling.toList, rest)) :
    reading (word spelling) here next text =
      some (gap true text ++ [.leaf .token spelling.toList], rest) := by
  rw [reading_word free, read]
  exact if_pos rfl

theorem reading_word_ne {here : Accepts} (free : here.terminator = false) {spelling : String}
    (next : Accepts) {text found rest : Text}
    (read : Lexeme.identifier? (pass true text) = some (found, rest))
    (other : found ≠ spelling.toList) : reading (word spelling) here next text = none := by
  rw [reading_word free, read]
  exact if_neg other

theorem reading_importList_opened {text inner : Text} (opened : pass true text = '(' :: inner)
    (next : Accepts) :
    reading importList {} next text =
      (reading (listRest .before) {} {} inner).map fun (trees, rest) =>
        (gap true text ++ [.node .importList (.leaf .token ['('] :: trees)], rest) := by
  have opening (next : Accepts) : reading (mark "(") {} next text =
      some (gap true text ++ [.leaf .token ['(']], inner) := by
    rw [mark, reading_token]
    change ((Token.mark ['('] []).read? {} (pass true text)).map _ = _
    rw [opened]
    cases inner <;> rfl
  have rest (next : Accepts) : reading (listRest .before) {} next inner =
      reading (listRest .before) {} {} inner := by
    rw [listRest, reading_seq _ _ _ (by decide), reading_seq _ _ _ (by decide)]
    simp only [ite_self, reading_closing]
    rfl
  rw [importList_eq, reading_node, reading_seq _ _ _ (by decide), opening, Option.bind_some]
  dsimp only
  rw [ite_self, rest, Option.map_map]
  congr 1
  funext found
  refine Prod.ext ?_ rfl
  simp only [Function.comp]
  rw [List.append_assoc]
  exact wrap_gap _ _ _ _ _ rfl

theorem reading_importList_none {text : Text} (closed : ∀ inner, pass true text ≠ '(' :: inner)
    (next : Accepts) : reading importList {} next text = none := by
  have opening (next : Accepts) : reading (mark "(") {} next text = none := by
    rw [mark, reading_token]
    change ((Token.mark ['('] []).read? {} (pass true text)).map _ = _
    cases start : pass true text with
    | nil => rfl
    | cons c rest =>
      have other : c ≠ '(' := by
        rintro rfl
        exact closed rest start
      simp [Token.read?, Text.after?, Ne.symm other]
  rw [importList_eq, reading_node, reading_seq _ _ _ (by decide), opening]
  rfl

theorem reading_importDeclaration {text left : Text}
    (read : Lexeme.identifier? (pass true text) = some ("import".toList, left)) (next : Accepts) :
    reading importDeclaration {} next text =
      ((reading importList {} next left).or (reading importSpec {} next left)).map
        fun (trees, rest) => (gap true text ++
          [.node .importDeclaration (.leaf .token "import".toList :: trees)], rest) := by
  rw [importDeclaration, reading_node, reading_seq _ _ _ (by decide),
    reading_word_eq rfl _ read, Option.bind_some]
  dsimp only
  rw [ite_self, reading_alt _ _ _ (by decide), Option.map_map]
  congr 1
  funext ⟨trees, left⟩
  refine Prod.ext ?_ rfl
  simp only [Function.comp]
  rw [List.append_assoc]
  exact wrap_gap _ _ _ _ _ rfl

/-- An import declaration holds the paths that are read behind its word. -/
theorem importDeclaration_paths {text left : Text}
    (read : Lexeme.identifier? (pass true text) = some ("import".toList, left)) (next : Accepts) :
    (reading importDeclaration {} next text).map (fun (trees, rest) =>
      (trees.flatMap Tree.declaredPaths, rest)) = importsAt? left := by
  have declared (trees : List Tree) : (gap true text ++ [Tree.node .importDeclaration
      (.leaf .token "import".toList :: trees)]).flatMap Tree.declaredPaths =
        trees.flatMap Tree.childPaths := by
    rw [flatMap_gap fun _ _ => rfl]
    rfl
  have paths : (reading importDeclaration {} next text).map (fun (trees, rest) =>
      (trees.flatMap Tree.declaredPaths, rest)) =
        ((reading importList {} next left).or (reading importSpec {} next left)).map
          fun (trees, rest) => (trees.flatMap Tree.childPaths, rest) := by
    rw [reading_importDeclaration read, Option.map_map]
    congr 1
    funext ⟨trees, rest⟩
    exact Prod.ext (declared trees) rfl
  rw [paths, importsAt?]
  split
  next inner opened =>
    have none : reading importSpec {} next left = none := by
      rw [reading_importSpec, opened]
      rfl
    rw [reading_importList_opened opened, none, Option.or_none, Option.map_map, listPaths]
    congr 1
    funext ⟨trees, rest⟩
    exact Prod.ext (flatMap_gap (fun _ _ => rfl) _ _ _) rfl
  next single =>
    rw [reading_importList_none, Option.none_or]
    · rw [← reading_importSpec_paths next]
      cases spec : reading importSpec {} next left with
      | none => rfl
      | some found =>
        obtain ⟨children, path, same, known, -⟩ := reading_importSpec_eq_some spec
        rw [Option.map_some, Option.map_some]
        dsimp only
        rw [specPaths_eq, same, flatMap_gap fun _ _ => rfl, flatMap_gap fun _ _ => rfl]
        rfl
    · exact fun inner opened => single inner opened

/-! ### Items -/

theorem opensWord_pass {words : List Text} {text word rest : Text} (among : word ∈ words)
    (read : Lexeme.identifier? (pass true text) = some (word, rest)) (newlines : Bool) :
    OpensWord words (pass newlines text) := by
  cases newlines with
  | true => exact .word among read
  | false =>
    by_cases line : (pass false text).head? = some '\n'
    · obtain ⟨rest, same⟩ := List.head?_eq_some_iff.1 line
      rw [same]
      exact .newline
    · rw [← (pass_newlines line).2]
      exact .word among read

/-- Only a package clause and an import declaration start with their words. -/
theorem reading_item {text found rest : Text} (held : found ∈ Token.itemWords)
    (read : Lexeme.identifier? (pass true text) = some (found, rest)) (next : Accepts) :
    reading item {} next text =
      (reading packageClause {} next text).or (reading importDeclaration {} next text) := by
  have function : found ≠ "func".toList := by
    rintro rfl
    exact absurd held (by decide)
  have func (behind : Rule) (bounded : (seq (word "func") behind).bounded depthOf) :
      reading (seq (word "func") behind) {} next text = none := by
    rw [reading_seq _ _ _ bounded, reading_word_ne rfl _ read function]
    rfl
  have declaration : reading functionDeclaration {} next text = none := func _ (by decide)
  have method : reading methodDeclaration {} next text = none := func _ (by decide)
  have statement : reading (within { item := true } (ref .statement)) {} next text = none := by
    rw [reading_within]
    exact run_of_fails (fun name _ => rules_refuse_items name) rfl
      (lacks_of_opensWord (opensWord_pass held read) true) (fun _ => by decide) _ next
  have items : item = alt packageClause (alt importDeclaration (alt functionDeclaration
    (alt methodDeclaration (within { item := true } (ref .statement))))) := rfl
  rw [items, reading_alt _ _ _ (by decide), reading_alt _ _ _ (by decide),
    reading_alt _ _ _ (by decide), reading_alt _ _ _ (by decide), declaration, method, statement]
  simp only [Option.or_none]

theorem reading_packageClause {text left : Text}
    (read : Lexeme.identifier? (pass true text) = some ("package".toList, left)) (next : Accepts) :
    reading packageClause {} next text =
      (Lexeme.identifier? (pass true left)).map fun (name, rest) => (gap true text ++
        [.node .package (.leaf .token "package".toList ::
          (gap true left ++ [.leaf .token name]))], rest) := by
  have named : reading name {} next left = (Lexeme.identifier? (pass true left)).map
      fun (name, rest) => (gap true left ++ [.leaf .token name], rest) := by
    rw [name, reading_token]
    change ((Token.name []).read? {} (pass true left)).map _ = _
    simp only [Token.read?]
    cases Lexeme.identifier? (pass true left) <;> rfl
  rw [packageClause, reading_node, reading_seq _ _ _ (by decide),
    reading_word_eq rfl _ read, Option.bind_some]
  dsimp only
  rw [ite_self, named, Option.map_map, Option.map_map]
  congr 1
  funext found
  refine Prod.ext ?_ rfl
  simp only [Function.comp]
  rw [List.append_assoc]
  exact wrap_gap _ _ _ _ _ rfl

theorem mem_itemWords {word : Text} :
    word ∈ Token.itemWords ↔ word = "import".toList ∨ word = "package".toList := by
  simp [Token.itemWords]

theorem reading_item_import {text left : Text}
    (read : Lexeme.identifier? (pass true text) = some ("import".toList, left)) (next : Accepts) :
    reading item {} next text = reading importDeclaration {} next text := by
  have package : reading packageClause {} next text = none := by
    rw [packageClause, reading_node, reading_seq _ _ _ (by decide),
      reading_word_ne rfl _ read (by decide)]
    rfl
  rw [reading_item (mem_itemWords.2 (.inl rfl)) read, package, Option.none_or]

theorem reading_item_package {text left : Text}
    (read : Lexeme.identifier? (pass true text) = some ("package".toList, left)) (next : Accepts) :
    reading item {} next text = reading packageClause {} next text := by
  have declaration : reading importDeclaration {} next text = none := by
    rw [importDeclaration, reading_node, reading_seq _ _ _ (by decide),
      reading_word_ne rfl _ read (by decide)]
    rfl
  rw [reading_item (mem_itemWords.2 (.inr rfl)) read, declaration, Option.or_none]

theorem reading_item_eq_some {text found left rest : Text} {trees : List Tree}
    (held : found ∈ Token.itemWords)
    (read : Lexeme.identifier? (pass true text) = some (found, left)) {next : Accepts}
    (whole : reading item {} next text = some (trees, rest)) :
    ∃ kind children, trees = gap true text ++ [.node kind children] := by
  rcases mem_itemWords.1 held with rfl | rfl
  · rw [reading_item_import read, reading_importDeclaration read] at whole
    obtain ⟨_, _, same⟩ := Option.map_eq_some_iff.1 whole
    cases same
    exact ⟨_, _, rfl⟩
  · rw [reading_item_package read, reading_packageClause read] at whole
    obtain ⟨_, _, same⟩ := Option.map_eq_some_iff.1 whole
    cases same
    exact ⟨_, _, rfl⟩

end Grammar

/-- The paths in the package clause or import declaration at the front of a text. -/
def preambleAt? (text : Text) : Option (List Text × Text) :=
  (Lexeme.identifier? (pass true text)).bind fun (word, left) =>
    if word = "package".toList then
      (Lexeme.identifier? (pass true left)).map fun (_, rest) => ([], rest)
    else if word = "import".toList then importsAt? left
    else none

theorem preambleAt?_pass (text : Text) : preambleAt? (pass true text) = preambleAt? text := by
  rw [preambleAt?, preambleAt?, pass_solid (solid_pass true text)]

theorem preambleAt?_word {text rest : Text} {paths : List Text}
    (read : preambleAt? text = some (paths, rest)) :
    ∃ found left, found ∈ Token.itemWords ∧
      Lexeme.identifier? (pass true text) = some (found, left) := by
  obtain ⟨⟨found, left⟩, word, behind⟩ := Option.bind_eq_some_iff.1 read
  refine ⟨found, left, ?_, word⟩
  dsimp only at behind
  rw [mem_itemWords]
  split at behind
  next package => exact .inr package
  next =>
    split at behind
    next declaration => exact .inl declaration
    next => cases behind

theorem preambleAt?_eq {text found left : Text} (held : found ∈ Token.itemWords)
    (read : Lexeme.identifier? (pass true text) = some (found, left)) (next : Accepts) :
    preambleAt? text = (reading item {} next text).map fun (trees, rest) =>
      (trees.flatMap Tree.declaredPaths, rest) := by
  rw [preambleAt?, read]
  rcases mem_itemWords.1 held with rfl | rfl
  · rw [reading_item_import read, importDeclaration_paths read]
    rfl
  · rw [reading_item_package read, reading_packageClause read, Option.map_map]
    change (Lexeme.identifier? (pass true left)).map _ = _
    congr 1
    funext ⟨name, rest⟩
    simp only [Function.comp]
    rw [flatMap_gap fun _ _ => rfl]
    rfl

/-! ### What comes behind -/

theorem importAt?_bracket {text inner : Text} (opened : pass true text = '(' :: inner) :
    importAt? text = none := by
  rw [← importAt?_pass, opened]
  rfl

/-- The imports behind the word `import` end where they did, whatever comes behind them. -/
theorem importsAt?_closed {text rest : Text} {paths : List Text}
    (read : importsAt? text = some (paths, rest)) :
    ∃ taken, text = taken ++ rest ∧ ∀ other, importsAt? (taken ++ other) = some (paths, other) := by
  rw [importsAt?] at read
  split at read
  next inner opened =>
    obtain ⟨taken, rfl, closed⟩ := listPaths_closed read
    refine ⟨Tree.textOfAll (gap true text) ++ '(' :: taken, ?_, fun other => ?_⟩
    · rw [List.append_assoc, List.cons_append, ← opened, textOfAll_gap]
    · have passed : pass true (Tree.textOfAll (gap true text) ++ '(' :: taken ++ other) =
          '(' :: (taken ++ other) := by
        rw [List.append_assoc, List.cons_append]
        refine (@pass_gap .before text _ (.inr ?_)).trans (pass_solid ⟨fun c first => ?_, rfl⟩)
        · change _ = (pass true text).head?
          rw [opened]
          rfl
        · cases first
          rfl
      rw [importsAt?, passed]
      exact closed other
  next single =>
    obtain ⟨⟨path, left⟩, spec, same⟩ := Option.map_eq_some_iff.1 read
    cases same
    obtain ⟨taken, rfl, closed⟩ := importAt?_closed spec
    refine ⟨taken, rfl, fun other => ?_⟩
    rw [importsAt?]
    split
    next inner opened =>
      have none := (closed other).symm.trans (importAt?_bracket opened)
      cases none
    next => rw [closed]; rfl

theorem solid_identifier {text taken rest : Text}
    (read : Lexeme.identifier? text = some (taken, rest)) (other : Text) :
    pass true (taken ++ other) = taken ++ other := by
  obtain ⟨c, more, rfl, starts, _⟩ := Lexeme.identifier?_parts read
  exact pass_solid (solid_of_opensImport (by simp [opensImport, starts]) _)

theorem head?_append_of_ne_nil {front : Text} (filled : front ≠ []) (one two : Text) :
    (front ++ one).head? = (front ++ two).head? := by
  cases front with
  | nil => exact absurd rfl filled
  | cons => rfl

theorem identifier?_ne_nil {text taken rest : Text}
    (read : Lexeme.identifier? text = some (taken, rest)) : taken ≠ [] := by
  obtain ⟨c, more, rfl, _⟩ := Lexeme.identifier?_parts read
  exact List.cons_ne_nil _ _

/-- A package clause or an import declaration ends where it did in front of a newline, or of the
character that came behind it. -/
theorem preambleAt?_behind {text rest : Text} {paths : List Text}
    (read : preambleAt? text = some (paths, rest)) :
    ∃ taken, pass true text = taken ++ rest ∧ (∃ c more, taken = c :: more ∧ opensImport c) ∧
      ∀ other, other.head? = some '\n' ∨ other.head? = rest.head? →
        preambleAt? (taken ++ other) = some (paths, other) := by
  obtain ⟨⟨word, left⟩, first, behind⟩ := Option.bind_eq_some_iff.1 read
  have whole := Lexeme.identifier?_append first
  obtain ⟨c, more, spelled, starts, _, stops⟩ := Lexeme.identifier?_parts first
  have opens (tail : Text) : ∃ c more, word ++ tail = c :: more ∧ opensImport c :=
    ⟨c, more ++ tail, by rw [spelled]; rfl, by simp [opensImport, starts]⟩
  -- The word is read again if what comes behind it starts as before.
  have word_again {tail : Text} (same : tail.head? = some '\n' ∨ tail.head? = left.head?) :
      Lexeme.identifier? (pass true (word ++ tail)) = some (word, tail) := by
    rw [solid_identifier first]
    refine Lexeme.identifier?_behind first fun c head => ?_
    rcases same with newline | same
    · cases newline.symm.trans head
      rfl
    · exact stops c (same ▸ head)
  dsimp only at behind
  split at behind
  next package =>
    obtain ⟨⟨name, last⟩, second, same⟩ := Option.map_eq_some_iff.1 behind
    cases same
    have tail := textOfAll_gap true left
    rw [← Lexeme.identifier?_append second] at tail
    refine ⟨word ++ (Tree.textOfAll (gap true left) ++ name), ?_, opens _, fun other same => ?_⟩
    · rw [← whole, List.append_assoc, List.append_assoc, tail]
    · have filled : Tree.textOfAll (gap true left) ++ name ≠ [] := by
        simp [identifier?_ne_nil second]
      have head := head?_append_of_ne_nil filled other last
      rw [List.append_assoc, List.append_assoc, tail] at head
      have passed : pass true (Tree.textOfAll (gap true left) ++ (name ++ other)) =
          name ++ other := by
        refine (@pass_gap .before left _ (.inr ?_)).trans (solid_identifier second other)
        change _ = (pass true left).head?
        rw [← Lexeme.identifier?_append second]
        exact head?_append_of_ne_nil (identifier?_ne_nil second) _ _
      have name_again : Lexeme.identifier? (name ++ other) = some (name, other) := by
        obtain ⟨_, _, _, _, _, stops⟩ := Lexeme.identifier?_parts second
        refine Lexeme.identifier?_behind second fun c head => ?_
        rcases same with newline | same
        · cases newline.symm.trans head
          rfl
        · exact stops c (same ▸ head)
      rw [List.append_assoc, List.append_assoc, preambleAt?, word_again (.inr head),
        Option.bind_some]
      dsimp only
      rw [if_pos package, passed, name_again]
      rfl
  next other_word =>
    split at behind
    next declaration =>
      obtain ⟨taken, rfl, closed⟩ := importsAt?_closed behind
      refine ⟨word ++ taken, by rw [List.append_assoc, whole], opens _, fun other same => ?_⟩
      have head : (taken ++ other).head? = some '\n' ∨ (taken ++ other).head? = (taken ++ rest).head? := by
        cases taken with
        | nil => exact same
        | cons => exact .inr rfl
      rw [List.append_assoc, preambleAt?, word_again head, Option.bind_some]
      dsimp only
      rw [if_neg other_word, if_pos declaration, closed]
    next => cases behind

/-! ### Their trees -/

/-- A package clause or an import declaration as it is read in front of a text. -/
def PreambleTree (tree : Tree) (after : Text) : Prop :=
  ∃ text found left next, pass true text = tree.text ++ after ∧ found ∈ Token.itemWords ∧
    Lexeme.identifier? (pass true text) = some (found, left) ∧
    reading item {} next text = some (gap true text ++ [tree], after)

theorem PreambleTree.solid {tree : Tree} {after : Text} (whole : PreambleTree tree after) :
    Solid true (tree.text ++ after) := by
  obtain ⟨text, _, _, _, passed, _⟩ := whole
  exact passed ▸ solid_pass true text

theorem PreambleTree.paths {tree : Tree} {after : Text} (whole : PreambleTree tree after) :
    preambleAt? (tree.text ++ after) = some (tree.declaredPaths, after) := by
  obtain ⟨text, found, left, next, passed, held, word, read⟩ := whole
  rw [← passed, preambleAt?_pass, preambleAt?_eq held word next, read, Option.map_some]
  dsimp only
  rw [flatMap_gap fun _ _ => rfl]

/-- The trees behind the word `import`: one import, or a list of imports between brackets. -/
inductive ImportShape : List Tree → Prop where
  | single {text path : Text} {children : List Tree}
      (known : (Tree.node .importSpec children).importPath? = some path)
      (whole : IsImport (Tree.textOfAll children) path) :
      ImportShape (gap true text ++ [.node .importSpec children])
  | group {text : Text} {inner : List Tree} {last : Slot} {behind rest : Text}
      (apart : ∀ c, text.head? = some c → Text.continuesIdentifier c = false)
      (opened : pass true text = '(' :: behind)
      (laid : Laid ImportTree .before inner (')' :: rest) last) :
      ImportShape (gap true text ++
        [.node .importList (.leaf .token ['('] :: (inner ++ [.leaf .token [')']]))])

theorem PreambleTree.shape {children : List Tree} {after : Text}
    (whole : PreambleTree (.node .importDeclaration children) after) :
    ∃ trees, children = .leaf .token "import".toList :: trees ∧ ImportShape trees := by
  obtain ⟨text, found, left, next, -, held, word, read⟩ := whole
  rcases mem_itemWords.1 held with rfl | rfl
  · rw [reading_item_import word, reading_importDeclaration word] at read
    obtain ⟨⟨trees, rest⟩, either, same⟩ := Option.map_eq_some_iff.1 read
    obtain ⟨split, rfl⟩ := Prod.mk.inj same
    cases List.append_cancel_left split
    refine ⟨trees, rfl, ?_⟩
    rcases Option.or_eq_some_iff.1 either with list | ⟨_, spec⟩
    · by_cases opened : ∃ inner, pass true left = '(' :: inner
      · obtain ⟨inner, opened⟩ := opened
        rw [reading_importList_opened opened] at list
        obtain ⟨⟨inside, rest⟩, list, same⟩ := Option.map_eq_some_iff.1 list
        cases same
        obtain ⟨inner, last, rfl, laid⟩ := reading_list_laid list
        obtain ⟨_, _, _, _, _, apart⟩ := Lexeme.identifier?_parts word
        exact .group apart opened laid
      · rw [reading_importList_none fun inner same => opened ⟨inner, same⟩] at list
        cases list
    · obtain ⟨children, path, rfl, known, whole⟩ := reading_importSpec_eq_some spec
      exact .single known whole
  · rw [reading_item_package word, reading_packageClause word] at read
    obtain ⟨_, _, same⟩ := Option.map_eq_some_iff.1 read
    have split := List.append_cancel_left (congrArg Prod.fst same)
    cases split

end GoGraft.Go
