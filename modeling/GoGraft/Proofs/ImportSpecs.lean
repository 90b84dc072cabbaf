import GoGraft.Proofs.ItemLists
import GoGraft.Source.Imports

/-! Reading one import. A string ends at its closing quote and a name at the first character that
does not continue it, so an import that was read is read again in front of any other text. A path
that is written in quotes is an import with this path or, if the quotes make no string of it, none
at all. -/

namespace GoGraft.Go

open Grammar Rule

namespace Lexeme

theorem afterHexDigits_closed {count : Nat} {text rest : Text}
    (read : afterHexDigits count text = some rest) :
    ∃ digits, text = digits ++ rest ∧ ∀ other, afterHexDigits count (digits ++ other) = some other := by
  induction count generalizing text with
  | zero => cases read; exact ⟨[], rfl, fun _ => rfl⟩
  | succ count ih =>
    cases text with
    | nil => cases read
    | cons c text =>
      rw [afterHexDigits] at read
      split at read
      next digit =>
        obtain ⟨digits, rfl, closed⟩ := ih read
        refine ⟨c :: digits, rfl, fun other => ?_⟩
        rw [List.cons_append, afterHexDigits, if_pos digit, closed]
      next => cases read

theorem afterEscape_closed {text rest : Text} (read : afterEscape text = some rest) :
    ∃ escape, text = escape ++ rest ∧ ∀ other, afterEscape (escape ++ other) = some other := by
  revert read
  fun_cases afterEscape text with
  | case1 digits =>
    intro read
    obtain ⟨taken, rfl, closed⟩ := afterHexDigits_closed read
    exact ⟨'x' :: taken, rfl, closed⟩
  | case2 digits =>
    intro read
    obtain ⟨taken, rfl, closed⟩ := afterHexDigits_closed read
    exact ⟨'u' :: taken, rfl, closed⟩
  | case3 digits =>
    intro read
    obtain ⟨taken, rfl, closed⟩ := afterHexDigits_closed read
    exact ⟨'U' :: taken, rfl, closed⟩
  | case4 c left notX notU notLong =>
    intro read
    cases read
    exact ⟨[c], rfl, fun other => afterEscape.eq_4 c other notX notU notLong⟩
  | case5 => intro read; cases read

theorem afterInterpreted_closed {fuel : Nat} {text rest : Text}
    (read : afterInterpreted fuel text = some rest) :
    ∃ body, text = body ++ rest ∧ ∀ other more, body.length ≤ more →
      afterInterpreted more (body ++ other) = some other := by
  induction fuel generalizing text with
  | zero => cases read
  | succ fuel ih =>
    cases text with
    | nil => cases read
    | cons c text =>
      rw [afterInterpreted] at read
      split at read
      next quote =>
        cases read
        refine ⟨[c], rfl, fun other more enough => ?_⟩
        obtain ⟨more, rfl⟩ := Nat.exists_eq_add_one.2 enough
        exact if_pos quote
      next quote =>
        split at read
        · cases read
        next line =>
          split at read
          next escaped =>
            obtain ⟨left, escape, inner⟩ := Option.bind_eq_some_iff.1 read
            obtain ⟨marks, rfl, first⟩ := afterEscape_closed escape
            obtain ⟨body, rfl, second⟩ := ih inner
            refine ⟨c :: (marks ++ body), by simp, fun other more enough => ?_⟩
            rw [List.length_cons, List.length_append] at enough
            obtain ⟨more, rfl⟩ := Nat.exists_eq_add_one.2 (show 0 < more by omega)
            rw [List.cons_append, List.append_assoc, afterInterpreted, if_neg quote, if_neg line,
              if_pos escaped, first, Option.bind_some, second _ _ (by omega)]
          next plain =>
            obtain ⟨body, rfl, closed⟩ := ih read
            refine ⟨c :: body, rfl, fun other more enough => ?_⟩
            rw [List.length_cons] at enough
            obtain ⟨more, rfl⟩ := Nat.exists_eq_add_one.2 (show 0 < more by omega)
            rw [List.cons_append, afterInterpreted, if_neg quote, if_neg line, if_neg plain,
              closed _ _ (by omega)]

theorem upTo_left (taken rest : Text) : upTo (taken ++ rest) rest = (taken, rest) := by
  rw [upTo, List.length_append, Nat.add_sub_cancel, List.take_left]

theorem interpretedString?_closed {text literal rest : Text}
    (read : interpretedString? text = some (literal, rest)) (other : Text) :
    interpretedString? (literal ++ other) = some (literal, other) := by
  revert read
  fun_cases interpretedString? text with
  | case1 inner =>
    intro read
    obtain ⟨left, found, same⟩ := Option.map_eq_some_iff.1 read
    obtain ⟨body, rfl, closed⟩ := afterInterpreted_closed found
    have taken (rest : Text) : upTo ('\x22' :: (body ++ rest)) rest = ('\x22' :: body, rest) :=
      upTo_left ('\x22' :: body) rest
    rw [taken] at same
    cases same
    rw [List.cons_append, interpretedString?, closed other _ (by simp), Option.map_some, taken]
  | case2 => intro read; cases read

theorem rawString?_closed {text literal rest : Text} (read : rawString? text = some (literal, rest))
    (other : Text) : rawString? (literal ++ other) = some (literal, other) := by
  revert read
  fun_cases rawString? text with
  | case1 inner c left stop =>
    intro read
    cases read
    have body : ∀ c ∈ inner.takeWhile (· != '\x60'), (c != '\x60') :=
      List.all_eq_true.1 List.all_takeWhile
    rw [List.append_assoc, List.cons_append, rawString?, List.dropWhile_append_of_pos body,
      List.takeWhile_append_of_pos body]
    simp
  | case2 => intro read; cases read
  | case3 => intro read; cases read

/-- A string ends at its closing quote, whatever comes behind it. -/
theorem string?_closed {text literal rest : Text} (read : string? text = some (literal, rest))
    (other : Text) : string? (literal ++ other) = some (literal, other) := by
  rw [string?] at read
  cases raw : rawString? text with
  | some found =>
    rw [raw] at read
    cases read
    rw [string?, rawString?_closed raw]
    rfl
  | none =>
    rw [raw] at read
    have closed := interpretedString?_closed read other
    have quote : ∃ body, literal ++ other = '\x22' :: body := by
      revert closed
      fun_cases interpretedString? (literal ++ other) with
      | case1 inner => exact fun _ => ⟨inner, rfl⟩
      | case2 => intro closed; cases closed
    obtain ⟨body, same⟩ := quote
    rw [string?, closed, same]
    rfl

/-! ### Identifiers -/

/-- An identifier stays one in front of a text that does not continue it. -/
theorem identifier?_behind {text taken rest other : Text}
    (read : identifier? text = some (taken, rest))
    (stops : ∀ c, other.head? = some c → Text.continuesIdentifier c = false) :
    identifier? (taken ++ other) = some (taken, other) := by
  obtain ⟨c, more, rfl, starts, continues, _⟩ := identifier?_parts read
  have nothing : other.takeWhile Text.continuesIdentifier = [] := by
    cases other with
    | nil => rfl
    | cons d other => exact List.takeWhile_cons_of_neg (by simp [stops d rfl])
  rw [List.cons_append, identifier?, if_pos starts, List.span_eq_takeWhile_dropWhile,
    List.takeWhile_append_of_pos continues, List.dropWhile_append_of_pos continues, nothing,
    Text.dropWhile_of_head stops, List.append_nil]

/-! ### Paths between quotes -/

theorem afterHexDigits_quote {count : Nat} {path behind left : Text}
    (read : afterHexDigits count (path ++ '\x22' :: behind) = some left) :
    ∃ rest, rest <:+ path ∧ left = rest ++ '\x22' :: behind := by
  induction count generalizing path with
  | zero => cases read; exact ⟨path, List.suffix_rfl, rfl⟩
  | succ count ih =>
    cases path with
    | nil => cases read
    | cons c path =>
      rw [List.cons_append, afterHexDigits] at read
      split at read
      next =>
        obtain ⟨rest, inside, same⟩ := ih read
        exact ⟨rest, inside.trans (List.suffix_cons c path), same⟩
      next => cases read

theorem afterEscape_quote {path behind left : Text}
    (read : afterEscape (path ++ '\x22' :: behind) = some left) :
    left = behind ∨ ∃ rest, rest <:+ path ∧ left = rest ++ '\x22' :: behind := by
  cases path with
  | nil => cases read; exact .inl rfl
  | cons c path =>
    have digits {count : Nat} (read : afterHexDigits count (path ++ '\x22' :: behind) = some left) :
        ∃ rest, rest <:+ c :: path ∧ left = rest ++ '\x22' :: behind := by
      obtain ⟨rest, inside, same⟩ := afterHexDigits_quote read
      exact ⟨rest, inside.trans (List.suffix_cons c path), same⟩
    rw [List.cons_append] at read
    revert read
    generalize text : c :: (path ++ '\x22' :: behind) = whole
    fun_cases afterEscape whole with
    | case1 => cases text; exact fun read => .inr (digits read)
    | case2 => cases text; exact fun read => .inr (digits read)
    | case3 => cases text; exact fun read => .inr (digits read)
    | case4 =>
      cases text
      intro read
      cases read
      exact .inr ⟨path, List.suffix_cons c path, rfl⟩
    | case5 => cases text

/-- A string without quotes inside ends at the quote behind it, unless that quote is escaped and the
line has no other. -/
theorem afterInterpreted_path {path behind : Text} (plain : ∀ c ∈ path, c ≠ '\x22')
    (unclosed : ∀ fuel, afterInterpreted fuel behind = none) (fuel : Nat) :
    afterInterpreted fuel (path ++ '\x22' :: behind) = none ∨
      afterInterpreted fuel (path ++ '\x22' :: behind) = some behind := by
  induction fuel generalizing path with
  | zero => exact .inl rfl
  | succ fuel ih =>
    cases path with
    | nil => exact .inr rfl
    | cons c path =>
      have quote := (List.forall_mem_cons.1 plain).1
      rw [List.cons_append, afterInterpreted, if_neg (by simpa using quote)]
      split
      · exact .inl rfl
      · split
        · cases escape : afterEscape (path ++ '\x22' :: behind) with
          | none => exact .inl rfl
          | some left =>
            rw [Option.bind_some]
            rcases afterEscape_quote escape with rfl | ⟨rest, inside, rfl⟩
            · exact .inl (unclosed fuel)
            · exact ih fun c held => plain c (List.mem_cons_of_mem _ (inside.subset held))
        · exact ih fun c held => plain c (List.mem_cons_of_mem _ held)

theorem afterInterpreted_line {front behind : Text}
    (calm : ∀ c ∈ front, c ≠ '\x22' ∧ c ≠ '\\') (fuel : Nat) :
    afterInterpreted fuel (front ++ '\n' :: behind) = none := by
  induction fuel generalizing front with
  | zero => rfl
  | succ fuel ih =>
    cases front with
    | nil => rfl
    | cons c front =>
      obtain ⟨⟨quote, escape⟩, others⟩ := List.forall_mem_cons.1 calm
      rw [List.cons_append, afterInterpreted, if_neg (by simpa using quote)]
      split
      · rfl
      · rw [if_neg (by simpa using escape), ih others]

end Lexeme

namespace Tree

def isNode (kind : NodeKind) : Tree → Bool
  | .node other _ => other == kind
  | .leaf _ _ => false

/-- The path of an import. -/
def importPath? : Tree → Option Text
  | .node .importSpec children =>
    (children.find? (isNode .importPath)).map fun path => unquoteLiteral path.text
  | _ => none

/-- The paths of the imports among some trees. -/
def specPaths (trees : List Tree) : List Text :=
  trees.filterMap importPath?

end Tree

/-! ### Reading an import -/

/-- The name in front of the path of an import. -/
def specName? (text : Text) : Option (Text × Text) :=
  ((Token.mark ['.'] ['.']).read? {} text).or ((Token.name []).read? {} text)

theorem reading_specName (text : Text) :
    reading (opt (alt dot name)) {} {} text =
      some (((specName? (pass true text)).map fun (name, left) =>
        (gap true text ++ [.leaf .token name], left)).getD ([], text)) := by
  rw [reading_opt, reading_alt _ _ _ (by decide), dot, name, reading_token, reading_token]
  change some (((((Token.mark ['.'] ['.']).read? {} (pass true text)).map _).or
    (((Token.name []).read? {} (pass true text)).map _)).getD _) = _
  rw [specName?]
  cases (Token.mark ['.'] ['.']).read? {} (pass true text) <;> rfl

theorem reading_importPath {here : Accepts} (free : here.terminator = false) (next : Accepts)
    (text : Text) :
    reading (node .importPath string) here next text =
      (Lexeme.string? (pass true text)).map fun (literal, rest) =>
        (gap true text ++ [.node .importPath [.leaf .token literal]], rest) := by
  have newlines : skipsNewlines here .string = true := by
    rw [skipsNewlines, free]
    rfl
  rw [reading_node, string, reading_token, newlines, Option.map_map]
  change (Lexeme.string? (pass true text)).map _ = _
  congr 1
  funext found
  exact Prod.ext (wrap_gap _ _ _ _ _ rfl) rfl

theorem reading_importSpec (next : Accepts) (text : Text) :
    reading importSpec {} next text =
      match specName? (pass true text) with
      | some (name, left) => (Lexeme.string? (pass true left)).map fun (literal, rest) =>
          (gap true text ++ [.node .importSpec (.leaf .token name ::
            (gap true left ++ [.node .importPath [.leaf .token literal]]))], rest)
      | none => (Lexeme.string? (pass true text)).map fun (literal, rest) =>
          (gap true text ++ [.node .importSpec [.node .importPath [.leaf .token literal]]], rest) := by
  rw [importSpec, reading_node, reading_seq _ _ _ (by decide)]
  change ((reading (opt (alt dot name)) {} {} text).bind _).map _ = _
  rw [reading_specName, Option.bind_some]
  cases specName? (pass true text) with
  | none =>
    change (((reading (node .importPath string) {} next text).map _)).map _ = _
    rw [reading_importPath rfl, Option.map_map, Option.map_map]
    congr 1
    funext ⟨literal, rest⟩
    exact Prod.ext (wrap_gap _ _ _ _ _ rfl) rfl
  | some found =>
    dsimp only [Option.map_some, Option.getD_some]
    rw [reading_importPath (by split <;> rfl), Option.map_map, Option.map_map]
    congr 1
    funext ⟨literal, rest⟩
    refine Prod.ext ?_ rfl
    dsimp only [Function.comp]
    rw [List.append_assoc]
    exact wrap_gap _ _ _ _ _ rfl


/-! ### Imports in front of any text -/

theorem specPaths_trivia {trivia : List Tree} (between : ∀ tree ∈ trivia, tree.isTrivia) :
    Tree.specPaths trivia = [] := by
  rw [Tree.specPaths, List.filterMap_eq_nil_iff]
  intro tree held
  have trivia := between tree held
  cases tree with
  | leaf => rfl
  | node => cases trivia

theorem importPath?_spec {front : List Tree} (leaves : ∀ tree ∈ front, tree.isNode .importPath = false)
    (literal : Text) :
    (Tree.node .importSpec (front ++ [.node .importPath [.leaf .token literal]])).importPath? =
      some (unquoteLiteral literal) := by
  have none : front.find? (Tree.isNode .importPath) = none := by
    rw [List.find?_eq_none]
    intro tree held
    simp [leaves tree held]
  rw [Tree.importPath?, List.find?_append, none]
  simp [Tree.isNode, Tree.text, Tree.textOfAll]

theorem isNode_of_mem_gap {newlines : Bool} {text : Text} (kind : NodeKind) :
    ∀ tree ∈ gap newlines text, tree.isNode kind = false := by
  intro tree held
  have trivia := isTrivia_of_mem_gap tree held
  cases tree with
  | leaf => rfl
  | node => cases trivia

/-- The text behind the name of an import, if it has one. -/
def behindName (text : Text) : Text :=
  ((specName? (pass true text)).map Prod.snd).getD text

/-- The path of the import at the front of a text, and the text that is left. -/
def importAt? (text : Text) : Option (Text × Text) :=
  (Lexeme.string? (pass true (behindName text))).map fun (literal, rest) =>
    (unquoteLiteral literal, rest)

theorem importAt?_pass (text : Text) : importAt? (pass true text) = importAt? text := by
  rw [importAt?, importAt?, behindName, behindName, pass_solid (solid_pass true text)]
  cases specName? (pass true text) with
  | none =>
    dsimp only [Option.map_none, Option.getD_none]
    rw [pass_solid (solid_pass true text)]
  | some found => rfl

/-- A character with which an import starts. -/
def opensImport (c : Char) : Bool :=
  c == '.' || c == '\x22' || c == '\x60' || Text.startsIdentifier c

theorem opensImport_ne {c : Char} (opens : opensImport c) (d : Char)
    (apart : opensImport d = false) : c ≠ d := by
  rintro rfl
  rw [opens] at apart
  cases apart

theorem solid_of_opensImport {c : Char} (opens : opensImport c) (text : Text) :
    Solid true (c :: text) := by
  constructor
  · intro d first
    cases first
    have apart := opensImport_ne opens
    simp [isBlank, Lexeme.isSpace, apart ' ' (by decide), apart '\t' (by decide),
      apart '\n' (by decide), apart '\r' (by decide), apart '\x0b' (by decide),
      apart '\x0c' (by decide)]
  · cases comment : Lexeme.comment? (c :: text) with
    | none => rfl
    | some found =>
      cases Lexeme.comment?_head comment
      cases opens

/-- A text that is read as one import with the given path, whatever comes behind it. -/
structure IsImport (text path : Text) : Prop where
  opens : ∃ c more, text = c :: more ∧ opensImport c
  read : ∀ other, importAt? (text ++ other) = some (path, other)

theorem specName?_behind {text name left other : Text} (read : specName? text = some (name, left))
    (same : other.head? = left.head?) :
    (∃ c more, name = c :: more ∧ opensImport c) ∧ specName? (name ++ other) = some (name, other) := by
  rw [specName?] at read
  cases dot : (Token.mark ['.'] ['.']).read? {} text with
  | some found =>
    rw [dot] at read
    cases read
    simp only [Token.read?] at dot
    split at dot
    next rest after =>
      split at dot
      next => cases dot
      next stop =>
        cases dot
        refine ⟨⟨'.', [], rfl, rfl⟩, ?_⟩
        rw [specName?]
        simp only [Token.read?, List.cons_append, List.nil_append, Text.after?, BEq.rfl, if_true,
          same, if_neg stop]
        rfl
    next => cases dot
  | none =>
    rw [dot, Option.none_or] at read
    simp only [Token.read?] at read
    split at read
    next found rest identifier =>
      split at read
      next => cases read
      next free =>
        cases read
        have stays : Lexeme.identifier? (name ++ other) = some (name, other) := by
          obtain ⟨_, _, _, _, _, stops⟩ := Lexeme.identifier?_parts identifier
          exact Lexeme.identifier?_behind identifier (same ▸ stops)
        obtain ⟨c, more, rfl, starts, _⟩ := Lexeme.identifier?_parts identifier
        have opens : opensImport c := by simp [opensImport, starts]
        refine ⟨⟨c, more, rfl, opens⟩, ?_⟩
        have noDot : (Token.mark ['.'] ['.']).read? {} (c :: more ++ other) = none := by
          have apart : ('.' == c) = false := by
            rw [beq_eq_false_iff_ne]
            rintro rfl
            cases starts
          simp [Token.read?, Text.after?, apart]
        rw [specName?, noDot, Option.none_or]
        simp only [Token.read?, stays, if_neg free]
    next => cases read

theorem string?_opens {text literal rest : Text} (read : Lexeme.string? text = some (literal, rest)) :
    ∃ c more, literal = c :: more ∧ opensImport c ∧ ∀ other, specName? (c :: other) = none := by
  have spelled := Lexeme.string?_closed read []
  rw [List.append_nil] at spelled
  cases literal with
  | nil => cases spelled
  | cons c more =>
    refine ⟨c, more, rfl, ?_⟩
    by_cases raw : c = '\x60'
    · subst raw
      exact ⟨rfl, fun other => rfl⟩
    · by_cases quote : c = '\x22'
      · subst quote
        exact ⟨rfl, fun other => rfl⟩
      · simp [Lexeme.string?, Lexeme.rawString?, Lexeme.interpretedString?, raw, quote] at spelled

theorem reading_importSpec_paths (next : Accepts) (text : Text) :
    ((reading importSpec {} next text).map fun (trees, rest) => (Tree.specPaths trees, rest)) =
      (importAt? text).map fun (path, rest) => ([path], rest) := by
  have alone (front : List Tree) (leaves : ∀ tree ∈ front, tree.isNode .importPath = false)
      (literal : Text) : Tree.specPaths (gap true text ++
        [.node .importSpec (front ++ [.node .importPath [.leaf .token literal]])]) =
          [unquoteLiteral literal] := by
    have trivia : List.filterMap Tree.importPath? (gap true text) = [] :=
      specPaths_trivia isTrivia_of_mem_gap
    rw [Tree.specPaths, List.filterMap_append, trivia, List.nil_append,
      List.filterMap_cons_some (importPath?_spec leaves literal)]
    rfl
  rw [reading_importSpec, importAt?, behindName]
  cases specName? (pass true text) with
  | none =>
    rw [Option.map_none, Option.getD_none, Option.map_map, Option.map_map]
    congr 1
    funext ⟨literal, rest⟩
    exact Prod.ext (alone [] (List.forall_mem_nil _) literal) rfl
  | some found =>
    rw [Option.map_some, Option.getD_some]
    dsimp only
    rw [Option.map_map, Option.map_map]
    congr 1
    funext ⟨literal, rest⟩
    have leaves : ∀ tree ∈ .leaf .token found.1 :: gap true found.2, tree.isNode .importPath = false :=
      List.forall_mem_cons.2 ⟨rfl, isNode_of_mem_gap .importPath⟩
    exact Prod.ext (alone _ leaves literal) rfl

theorem pass_literal {text literal rest : Text} (read : Lexeme.string? text = some (literal, rest))
    (other : Text) : pass true (literal ++ other) = literal ++ other := by
  obtain ⟨c, more, rfl, opens, _⟩ := string?_opens read
  exact pass_solid (solid_of_opensImport opens _)

theorem isImport_literal {text literal rest : Text}
    (read : Lexeme.string? text = some (literal, rest)) :
    IsImport literal (unquoteLiteral literal) := by
  obtain ⟨c, more, same, opens, nameless⟩ := string?_opens read
  refine ⟨⟨c, more, same, opens⟩, fun other => ?_⟩
  have none : specName? (literal ++ other) = none := by
    rw [same]
    exact nameless _
  rw [importAt?, behindName, pass_literal read, none, Option.map_none, Option.getD_none,
    pass_literal read, Lexeme.string?_closed read, Option.map_some]

theorem isImport_named {text name left literal rest : Text} (named : specName? text = some (name, left))
    (read : Lexeme.string? (pass true left) = some (literal, rest)) :
    IsImport (name ++ (Tree.textOfAll (gap true left) ++ literal)) (unquoteLiteral literal) := by
  obtain ⟨d, body, spelled, _⟩ := string?_opens read
  have whole := textOfAll_gap true left
  rw [← Lexeme.string?_append read, spelled] at whole
  obtain ⟨⟨c, more, same, opens⟩, _⟩ := specName?_behind named rfl
  refine ⟨⟨c, more ++ (Tree.textOfAll (gap true left) ++ literal), by rw [same]; rfl, opens⟩,
    fun other => ?_⟩
  have head : (Tree.textOfAll (gap true left) ++ (literal ++ other)).head? = left.head? := by
    refine Eq.trans ?_ (congrArg List.head? whole)
    rw [spelled]
    cases Tree.textOfAll (gap true left) <;> rfl
  have solid : pass true (name ++ (Tree.textOfAll (gap true left) ++ (literal ++ other))) =
      name ++ (Tree.textOfAll (gap true left) ++ (literal ++ other)) := by
    rw [same]
    exact pass_solid (solid_of_opensImport opens _)
  have passed : pass true (Tree.textOfAll (gap true left) ++ (literal ++ other)) = literal ++ other := by
    refine (pass_gap .before (.inr ?_)).trans (pass_literal read other)
    change _ = (pass true left).head?
    rw [← Lexeme.string?_append read, spelled]
    rfl
  rw [List.append_assoc, List.append_assoc, importAt?, behindName, solid,
    (specName?_behind named head).2, Option.map_some, Option.getD_some, passed,
    Lexeme.string?_closed read, Option.map_some]

/-- An import that was read is read again in front of any other text. -/
theorem reading_importSpec_eq_some {next : Accepts} {text rest : Text} {trees : List Tree}
    (read : reading importSpec {} next text = some (trees, rest)) :
    ∃ children path, trees = gap true text ++ [.node .importSpec children] ∧
      (Tree.node .importSpec children).importPath? = some path ∧
      IsImport (Tree.textOfAll children) path := by
  rw [reading_importSpec] at read
  split at read
  next name left named =>
    obtain ⟨⟨literal, rest⟩, string, same⟩ := Option.map_eq_some_iff.1 read
    cases same
    have leaves : ∀ tree ∈ .leaf .token name :: gap true left, tree.isNode .importPath = false :=
      List.forall_mem_cons.2 ⟨rfl, isNode_of_mem_gap .importPath⟩
    refine ⟨_, _, rfl, importPath?_spec leaves literal, ?_⟩
    simpa [Tree.textOfAll, Tree.text] using isImport_named named string
  next =>
    obtain ⟨⟨literal, rest⟩, string, same⟩ := Option.map_eq_some_iff.1 read
    cases same
    refine ⟨_, _, rfl, importPath?_spec (List.forall_mem_nil _) literal, ?_⟩
    simpa [Tree.textOfAll, Tree.text] using isImport_literal string

/-! ### Written paths -/

/-- Whether a path in quotes is a string. -/
def isLegalPath (path : Text) : Bool :=
  Lexeme.string? ('\x22' :: (path ++ ['\x22'])) == some ('\x22' :: (path ++ ['\x22']), [])

theorem isImport_path {path : Text} (legal : isLegalPath path) :
    IsImport ('\x22' :: (path ++ ['\x22'])) path := by
  have read := isImport_literal (eq_of_beq legal)
  rwa [unquoteLiteral, List.tail_cons, List.dropLast_concat] at read

/-- A path that is no string is not read if nothing on its line can end it. -/
theorem importAt?_of_not_legal {path behind : Text} (illegal : isLegalPath path = false)
    (plain : ∀ c ∈ path, c ≠ '\x22')
    (unclosed : ∀ fuel, Lexeme.afterInterpreted fuel behind = none) :
    importAt? ('\x22' :: (path ++ '\x22' :: behind)) = none := by
  have solid := pass_solid
    (solid_of_opensImport (c := '\x22') rfl (path ++ '\x22' :: behind))
  have nameless : specName? ('\x22' :: (path ++ '\x22' :: behind)) = none := rfl
  rw [importAt?, behindName, solid, nameless, Option.map_none, Option.getD_none, solid,
    Option.map_eq_none_iff]
  change Lexeme.interpretedString? ('\x22' :: (path ++ '\x22' :: behind)) = none
  rw [Lexeme.interpretedString?]
  rcases Lexeme.afterInterpreted_path plain unclosed (path ++ '\x22' :: behind).length
    with none | found
  · rw [none, Option.map_none]
  · refine absurd ?_ (Bool.eq_false_iff.1 illegal)
    have read : Lexeme.string? ('\x22' :: (path ++ '\x22' :: behind)) =
        some ('\x22' :: (path ++ ['\x22']), behind) := by
      change (Lexeme.afterInterpreted _ _).map _ = _
      have split := Lexeme.upTo_left ('\x22' :: (path ++ ['\x22'])) behind
      rw [List.cons_append, List.append_assoc] at split
      rw [found, Option.map_some]
      exact congrArg some split
    have closed := Lexeme.string?_closed read []
    rw [List.append_nil] at closed
    rw [isLegalPath, closed]
    exact beq_self_eq_true _

end GoGraft.Go
