import GoGraft.Proofs.Probes
import GoGraft.Proofs.Spellings

/-! What is accepted as the declaration of a field. The struct around it has one field then, but the struct
need not be all there is in the file: a brace of the declaration may close the struct, and more code may
come behind it, up to a struct that the last brace closes. This is so exactly if some brace of the declaration
closes what is not open in it. -/

namespace GoGraft.Go

namespace Lexeme

/-! ### Runes and comments -/

theorem afterRuneEscape_closed {text rest : Text} (read : afterRuneEscape text = some rest) :
    ∃ escape, text = escape ++ rest ∧ ∀ other, afterRuneEscape (escape ++ other) = some other := by
  revert read
  fun_cases afterRuneEscape text with
  | case1 digits =>
    intro read
    obtain ⟨taken, rfl, closed⟩ := afterHexDigits_closed read
    exact ⟨'x' :: taken, rfl, closed⟩
  | case2 digits =>
    intro read
    obtain ⟨taken, rfl, closed⟩ := afterHexDigits_closed read
    exact ⟨'u' :: taken, rfl, closed⟩
  | case3 digits =>
    intro read
    obtain ⟨taken, rfl, closed⟩ := afterHexDigits_closed read
    exact ⟨'U' :: taken, rfl, closed⟩
  | case4 c left notX notU notLong known =>
    intro read
    cases read
    refine ⟨[c], rfl, fun other => ?_⟩
    rw [List.singleton_append, afterRuneEscape.eq_4 c other notX notU notLong, if_pos known]
  | case5 c left notX notU notLong other a b d rest same octal =>
    intro read
    cases read
    cases same
    refine ⟨[c, b, d], rfl, fun more => ?_⟩
    have eq := afterRuneEscape.eq_4 c (b :: d :: more) notX notU notLong
    rw [if_neg other] at eq
    exact eq.trans (if_pos octal)
  | case6 => intro read; cases read
  | case7 => intro read; cases read
  | case8 => intro read; cases read

/-- A rune ends at its closing quote, whatever comes behind it. -/
theorem rune?_closed {text literal rest : Text} (read : rune? text = some (literal, rest))
    (other : Text) : rune? (literal ++ other) = some (literal, other) := by
  have taken (body rest : Text) : upTo ('\x27' :: (body ++ '\x27' :: rest)) rest =
      ('\x27' :: (body ++ ['\x27']), rest) := by
    have whole := upTo_left ('\x27' :: (body ++ ['\x27'])) rest
    rwa [List.cons_append, List.append_assoc, List.singleton_append] at whole
  unfold rune? at read
  split at read
  next text =>
    dsimp only at read
    split at read
    next left inner =>
      obtain ⟨body, rfl, closed⟩ : ∃ body, text = body ++ '\x27' :: left ∧
          rune? ('\x27' :: (body ++ '\x27' :: other)) =
            some (upTo ('\x27' :: (body ++ '\x27' :: other)) other) := by
        split at inner
        next escape =>
          obtain ⟨marks, rfl, closed⟩ := afterRuneEscape_closed inner
          refine ⟨'\\' :: marks, rfl, ?_⟩
          rw [List.cons_append, rune?, closed]
          rfl
        next d more escaped =>
          split at inner
          next => cases inner
          next different =>
            cases inner
            refine ⟨[d], rfl, ?_⟩
            rw [List.singleton_append, rune?]
            · simp [different]
            · exact escaped
        next => cases inner
      rw [taken] at read closed
      cases read
      rw [List.cons_append, List.append_assoc]
      exact closed
    next => cases read
  next => cases read

/-- A block comment ends in a slash. -/
theorem blockComment?_last {text taken rest : Text} (read : blockComment? text = some (taken, rest)) :
    taken.getLast? = some '/' := by
  fun_induction blockComment? text generalizing taken with
  | case1 left => cases read; rfl
  | case2 c text _ ih =>
    obtain ⟨⟨inner, left⟩, found, same⟩ := Option.map_eq_some_iff.1 read
    cases same
    rw [List.getLast?_cons, ih found]
    rfl
  | case3 => cases read

/-- A comment goes on to the end of its line, or ends in a slash. -/
theorem comment?_ends {text taken rest : Text} (read : comment? text = some (taken, rest)) :
    '\n' ∉ taken ∨ taken.getLast? = some '/' := by
  revert read
  fun_cases comment? text with
  | case1 line =>
    intro read
    cases read
    refine .inl fun inside => ?_
    have within : '\n' ∈ line.takeWhile (· != '\n') := by simpa using inside
    have other := List.all_eq_true.1 List.all_takeWhile '\n' within
    cases other
  | case2 text =>
    intro read
    obtain ⟨⟨inner, left⟩, found, same⟩ := Option.map_eq_some_iff.1 read
    cases same
    right
    rw [List.getLast?_cons, List.getLast?_cons, blockComment?_last found]
    rfl
  | case3 => intro read; cases read

/-- A comment or a literal at the front of a text, in which braces are no tokens. -/
def enclosed? (text : Text) : Option (Text × Text) :=
  (comment? text).orElse fun _ => (string? text).orElse fun _ => rune? text

theorem enclosed?_of_comment? {text : Text} {found : Text × Text} (read : comment? text = some found) :
    enclosed? text = some found := by
  rw [enclosed?, read]
  rfl

theorem enclosed?_of_string? {text : Text} {found : Text × Text} (code : comment? text = none)
    (read : string? text = some found) : enclosed? text = some found := by
  rw [enclosed?, code, read]
  rfl

theorem enclosed?_of_rune? {text : Text} {found : Text × Text} (read : rune? text = some found) :
    enclosed? text = some found := by
  have opens : text.head? = some '\x27' := by
    unfold rune? at read
    split at read
    · rfl
    · cases read
  obtain ⟨text, rfl⟩ := List.head?_eq_some_iff.1 opens
  exact read

theorem ne_of_isOrdinary {c d : Char} (ordinary : isOrdinary c) (special : d ∈ specials) : c ≠ d := by
  rintro rfl
  simp [isOrdinary, special] at ordinary

theorem enclosed?_of_isOrdinary {c : Char} (ordinary : isOrdinary c) (text : Text) :
    enclosed? (c :: text) = none := by
  have apart (d : Char) (special : d ∈ specials) : c ≠ d := ne_of_isOrdinary ordinary special
  simp [enclosed?, comment?, string?, rawString?, interpretedString?, rune?, apart '/' (by decide),
    apart '\x22' (by decide), apart '\x60' (by decide), apart '\x27' (by decide)]

end Lexeme

/-! ### Depth in braces -/

/-- The depth behind a character, unless it closes what is not open. -/
def braceStep? (depth : Nat) (c : Char) : Option Nat :=
  if c == '\x7b' then some (depth + 1)
  else if c == '\x7d' then
    match depth with
    | 0 => none
    | depth + 1 => some depth
  else some depth

/-- The depth in braces at the end of a text, unless a brace closes what is not open. Comments and literals
are passed over, and so are the characters that are left of one. -/
def braceDepth? : (passed depth : Nat) → Text → Option Nat
  | _, depth, [] => some depth
  | passed + 1, depth, _ :: rest => braceDepth? passed depth rest
  | 0, depth, c :: rest =>
    match Lexeme.enclosed? (c :: rest) with
    | some (taken, _) => braceDepth? (taken.length - 1) depth rest
    | none => (braceStep? depth c).bind fun next => braceDepth? 0 next rest

theorem braceDepth?_passed (front rest : Text) (depth : Nat) :
    braceDepth? front.length depth (front ++ rest) = braceDepth? 0 depth rest := by
  induction front with
  | nil => rfl
  | cons c front ih => exact ih

theorem braceDepth?_enclosed {taken rest : Text}
    (read : Lexeme.enclosed? (taken ++ rest) = some (taken, rest)) (depth : Nat) :
    braceDepth? 0 depth (taken ++ rest) = braceDepth? 0 depth rest := by
  cases taken with
  | nil => rfl
  | cons c taken =>
    rw [List.cons_append] at read ⊢
    rw [braceDepth?, read]
    exact braceDepth?_passed taken rest depth

theorem braceDepth?_ordinary {front : Text} (ordinary : ∀ c ∈ front, Lexeme.isOrdinary c) (rest : Text)
    (depth : Nat) : braceDepth? 0 depth (front ++ rest) = braceDepth? 0 depth rest := by
  induction front with
  | nil => rfl
  | cons c front ih =>
    obtain ⟨first, others⟩ := List.forall_mem_cons.1 ordinary
    have apart (d : Char) (special : d ∈ Lexeme.specials) : c ≠ d := Lexeme.ne_of_isOrdinary first special
    have step : braceStep? depth c = some depth := by
      simp [braceStep?, apart '\x7b' (by decide), apart '\x7d' (by decide)]
    rw [List.cons_append, braceDepth?, Lexeme.enclosed?_of_isOrdinary first]
    dsimp only
    rw [step]
    exact ih others

/-- Where no brace closes, none closes what is not open. -/
theorem isSome_braceDepth? {text : Text} (none : '\x7d' ∉ text) (passed depth : Nat) :
    (braceDepth? passed depth text).isSome := by
  fun_induction braceDepth? passed depth text with
  | case1 => rfl
  | case2 passed depth c rest ih => exact ih (List.not_mem_of_not_mem_cons none)
  | case3 depth c rest taken left read ih => exact ih (List.not_mem_of_not_mem_cons none)
  | case4 depth c rest read ih =>
    obtain ⟨first, others⟩ := not_or.1 (mt List.mem_cons.2 none)
    obtain ⟨next, step⟩ : ∃ next, braceStep? depth c = some next := by
      unfold braceStep?
      split
      · exact ⟨_, rfl⟩
      · rw [if_neg (by simpa using Ne.symm first)]
        exact ⟨depth, rfl⟩
    rw [step]
    exact ih next others

/-! ### The depth that leaves lead to

A leaf is read alike where what comes behind it ends early. -/

theorem comment?_shortened {text tail after : Text} (initial : tail <+: after)
    (read : Lexeme.comment? (text ++ after) = some (text, after)) :
    Lexeme.comment? (text ++ tail) = some (text, tail) := by
  cases tail with
  | nil =>
    rcases Lexeme.comment?_kinds read with closed | ⟨-, -, line⟩
    · exact closed []
    · have whole := line [] [] (List.forall_mem_nil _) nofun
      simpa using whole
  | cons c tail =>
    obtain ⟨more, rfl⟩ := initial
    exact Lexeme.comment?_behind read (.inr rfl)

theorem comment?_eq_none_shortened {text whole : Text} (initial : text <+: whole)
    (code : Lexeme.comment? whole = none) : Lexeme.comment? text = none := by
  obtain ⟨more, rfl⟩ := initial
  revert code
  fun_cases Lexeme.comment? text with
  | case1 line => intro code; cases code
  | case2 inner =>
    intro code
    rw [List.cons_append, List.cons_append, Lexeme.comment?, Option.map_eq_none_iff] at code
    cases read : Lexeme.blockComment? inner with
    | none => rfl
    | some found =>
      have closed := Lexeme.blockComment?_closed read (found.2 ++ more)
      rw [← List.append_assoc, Lexeme.blockComment?_append read, code] at closed
      cases closed
  | case3 => exact fun _ => rfl

theorem braceDepth?_slash {tail : Text} (code : Lexeme.comment? ('/' :: tail) = none) (depth : Nat) :
    braceDepth? 0 depth ('/' :: tail) = braceDepth? 0 depth tail := by
  have none : Lexeme.enclosed? ('/' :: tail) = none := by
    rw [Lexeme.enclosed?, code]
    rfl
  rw [braceDepth?, none]
  rfl

theorem braceDepth?_opening (tail : Text) (depth : Nat) :
    braceDepth? 0 depth ('\x7b' :: tail) = braceDepth? 0 (depth + 1) tail :=
  rfl

theorem braceDepth?_closing (tail : Text) (depth : Nat) :
    braceDepth? 0 (depth + 1) ('\x7d' :: tail) = braceDepth? 0 depth tail :=
  rfl

/-- A token leads from depth to depth as its brace does. -/
theorem braceDepth?_token {symbol : Token} {here : Accepts} {text after tail : Text}
    (plain : symbol.isPlain) (code : Lexeme.comment? (text ++ after) = none)
    (read : symbol.read? here (text ++ after) = some (text, after)) (initial : tail <+: after)
    {start stop : Nat} (step : start + (Tree.leaf symbol.leafKind text).brace = stop) :
    braceDepth? 0 start (text ++ tail) = braceDepth? 0 stop tail := by
  have shorter : Lexeme.comment? (text ++ tail) = none :=
    comment?_eq_none_shortened ((List.prefix_append_right_inj text).2 initial) code
  have flat (level : (Tree.leaf symbol.leafKind text).brace = 0) : start = stop := by omega
  rcases Token.read?_cases read with ⟨notBefore, rfl⟩ | ⟨level, spelling⟩
  · simp only [Token.isPlain, Bool.or_eq_true, beq_iff_eq] at plain
    rcases plain with (rfl | rfl) | all
    · change (start : Int) + 1 = stop at step
      rw [show stop = start + 1 by omega]
      exact braceDepth?_opening tail start
    · change (start : Int) + -1 = stop at step
      rw [show start = stop + 1 by omega]
      exact braceDepth?_closing tail stop
    · have ordinary := List.all_eq_true.1 all
      rw [flat (Tree.brace_of_ordinary ordinary)]
      exact braceDepth?_ordinary ordinary tail stop
  · rw [flat ((Token.read?_brace read).trans level)]
    rcases spelling with ordinary | string | rune | rfl | rfl
    · exact braceDepth?_ordinary ordinary tail stop
    · exact braceDepth?_enclosed (Lexeme.enclosed?_of_string? shorter (Lexeme.string?_closed string tail)) stop
    · exact braceDepth?_enclosed (Lexeme.enclosed?_of_rune? (Lexeme.rune?_closed rune tail)) stop
    · exact braceDepth?_slash shorter stop
    · have equals : ∀ c ∈ ['='], Lexeme.isOrdinary c := List.forall_mem_singleton.2 (by decide)
      exact (braceDepth?_slash shorter stop).trans (braceDepth?_ordinary equals tail stop)

theorem braceDepth?_leaf {leaf : Tree} {after tail : Text}
    (fits : LeafFits (fun symbol => symbol.isPlain) leaf after) (initial : tail <+: after)
    {start stop : Nat} (step : start + leaf.brace = stop) :
    braceDepth? 0 start (leaf.text ++ tail) = braceDepth? 0 stop tail := by
  cases fits with
  | blank gap =>
    have ordinary := ordinary_of_isGap gap
    rw [Tree.brace_of_ordinary ordinary] at step
    rw [show start = stop by omega]
    exact braceDepth?_ordinary ordinary tail stop
  | comment read =>
    change (start : Int) + 0 = stop at step
    rw [show start = stop by omega]
    exact braceDepth?_enclosed (Lexeme.enclosed?_of_comment? (comment?_shortened initial read)) stop
  | token held code read => exact braceDepth?_token held code read initial step

/-- Leaves lead from depth to depth as their braces do. -/
theorem braceDepth?_leaves {leaves : List Tree} {after tail : Text}
    (fits : Fits (fun symbol => symbol.isPlain) leaves after) (initial : tail <+: after)
    {start stop : Nat} (climbs : Climbs start leaves stop) :
    braceDepth? 0 start (Tree.textOfAll leaves ++ tail) = braceDepth? 0 stop tail := by
  induction leaves generalizing start with
  | nil =>
    have same := climbs.reached
    rw [Tree.climb_nil] at same
    rw [show start = stop by omega]
    rfl
  | cons leaf rest ih =>
    obtain ⟨own, others⟩ := fits
    obtain ⟨middle, step, later⟩ := climbs.cons
    have shorter := (List.prefix_append_right_inj (Tree.textOfAll rest)).2 initial
    rw [Tree.textOfAll, List.append_assoc, braceDepth?_leaf own shorter step]
    exact ih others later

/-! ### Nothing but spacing -/

/-- White space, a comment, or the end of a line or of the file. -/
def Tree.isSpacing : Tree → Bool
  | .leaf .token text => text.isEmpty
  | .leaf _ _ => true
  | .node _ _ => false

theorem Tree.leavesOfAll_spacing {trees : List Tree} (spacing : ∀ tree ∈ trees, tree.isSpacing) :
    leavesOfAll trees = trees := by
  induction trees with
  | nil => rfl
  | cons first rest ih =>
    obtain ⟨own, others⟩ := List.forall_mem_cons.1 spacing
    cases first with
    | leaf kind text => simp [leavesOfAll, leaves, ih others]
    | node kind children => cases own

/-- A leaf that is spacing holds no brace, unless it is a comment. -/
theorem LeafFits.spacing {leaf : Tree} {after : Text} (fits : LeafFits (fun symbol => symbol.isPlain) leaf after)
    (spacing : leaf.isSpacing) :
    '\x7d' ∉ leaf.text ∨
      leaf.text.head? = some '/' ∧ ('\n' ∉ leaf.text ∨ leaf.text.getLast? = some '/') := by
  have unbraced {text : Text} (ordinary : ∀ c ∈ text, Lexeme.isOrdinary c) : '\x7d' ∉ text := by
    intro inside
    cases ordinary _ inside
  cases fits with
  | blank gap => exact .inl (unbraced (ordinary_of_isGap gap))
  | comment read =>
    have all := comment?_shortened List.nil_prefix read
    rw [List.append_nil] at all
    exact .inr ⟨Lexeme.comment?_head all, Lexeme.comment?_ends all⟩
  | @token symbol here text _ held code read =>
    left
    by_cases ends : symbol = .terminator
    · subst ends
      exact unbraced (Token.read?_terminator read)
    · have kind : symbol.leafKind = .token := by cases symbol <;> first | rfl | exact absurd rfl ends
      rw [kind] at spacing
      have empty : text = [] := List.isEmpty_iff.1 spacing
      rw [empty]
      exact List.not_mem_nil

/-- A brace that starts the last line is no part of spacing. -/
theorem spacing_without_last_brace {leaves : List Tree}
    (fits : Fits (fun symbol => symbol.isPlain) leaves []) (spacing : ∀ leaf ∈ leaves, leaf.isSpacing)
    {front : Text} (line : front = [] ∨ front.getLast? = some '\n') :
    Tree.textOfAll leaves ≠ front ++ ['\x7d', '\n'] := by
  intro spelled
  induction leaves generalizing front with
  | nil => cases front <;> cases spelled
  | cons leaf rest ih =>
    obtain ⟨own, others⟩ := fits
    obtain ⟨first, later⟩ := List.forall_mem_cons.1 spacing
    rw [Tree.textOfAll] at spelled
    rcases List.append_eq_append_iff.1 spelled with ⟨more, rfl, parts⟩ | ⟨more, text, parts⟩
    · -- The leaf ends before the brace.
      refine ih others later ?_ parts
      cases more with
      | nil => exact .inl rfl
      | cons c more =>
        rw [List.getLast?_append_of_ne_nil _ (List.cons_ne_nil c more)] at line
        exact .inr (line.resolve_left (List.append_ne_nil_of_right_ne_nil _ (List.cons_ne_nil c more)))
    · cases more with
      | nil => exact ih others later (.inl rfl) parts.symm
      | cons c more =>
        -- The leaf holds the brace and what comes before it, but no comment can.
        have held := own.spacing first
        obtain ⟨rfl, -⟩ := List.cons.inj parts
        rw [text] at held
        rcases held with unbraced | ⟨slash, single | closed⟩
        · exact unbraced (List.mem_append_right _ List.mem_cons_self)
        · rcases line with rfl | ended
          · cases slash
          · exact single (List.mem_append_left _ (List.mem_of_getLast? ended))
        · rw [List.getLast?_append_of_ne_nil _ (List.cons_ne_nil _ more)] at closed
          have inside : '/' ∈ ['\x7d', '\n'] := parts ▸ List.mem_append_left _ (List.mem_of_getLast? closed)
          exact absurd inside (by decide)

/-! ### The end of the file -/

open Rule Grammar

theorem Tree.isSpacing_of_isTrivia {tree : Tree} (trivia : tree.isTrivia) : tree.isSpacing := by
  unfold isTrivia at trivia
  split at trivia
  · rfl
  · rfl
  · cases trivia

/-- A file without text has nothing but its end. -/
theorem spacing_of_reads_nil {more : List Tree} (reads : Reads rules file {} [] more []) :
    ∀ tree ∈ more, tree.isSpacing := by
  obtain ⟨items, middle, last, after, rounds, ending, rfl⟩ := reads.parts
  rcases rounds.rounds with ⟨rfl, rfl⟩ | ⟨_, _, _, _, round, _, _⟩
  · have spelled := ending.spelled
    cases ending with
    | @token symbol _ _ found _ read =>
      rw [Tree.textOfAll_append, List.append_nil, List.append_eq_nil_iff] at spelled
      rw [List.nil_append]
      refine List.forall_mem_append.2 ⟨fun tree inside => ?_, List.forall_mem_singleton.2 ?_⟩
      · exact Tree.isSpacing_of_isTrivia (isTrivia_of_mem_gap tree inside)
      · have empty : found = [] := by simpa [Tree.textOfAll, Tree.text] using spelled.2
        rw [empty]
        rfl
  · have shorter := round.shorter bounds.consumes (by decide)
    cases shorter

/-- Behind a declaration that ends a file is nothing but spacing. -/
theorem spacing_of_reads_newline {ended more : List Tree} {rest : Text}
    (ending : Reads rules terminator {} ['\n'] ended rest) (beyond : Reads rules file {} rest more []) :
    ∀ tree ∈ ended ++ more, tree.isSpacing := by
  have spelled := congrArg List.length ending.spelled
  obtain ⟨mark, rfl, -, kinds⟩ := reads_terminator ending
  have done : rest = [] := by
    rcases kinds with ⟨-, done⟩ | ⟨c, rfl, -⟩
    · exact done
    · simp only [Tree.textOfAll_append, Tree.textOfAll, Tree.text, List.length_append, List.length_cons,
        List.length_nil] at spelled
      exact List.eq_nil_of_length_eq_zero (by omega)
  subst done
  refine List.forall_mem_append.2 ⟨List.forall_mem_append.2 ⟨fun tree inside => ?_, ?_⟩,
    spacing_of_reads_nil beyond⟩
  · exact Tree.isSpacing_of_isTrivia (isTrivia_of_mem_gap tree inside)
  · exact List.forall_mem_singleton.2 rfl

end GoGraft.Go

namespace GoGraft

open Go (Tree)
open Go.Grammar (structTree)

theorem fieldList_occurs (children behind : List Tree) :
    (Go.Tree.node .fieldList children).Occurs (Go.probeFront ++ structTree children :: behind) := by
  refine .under (List.mem_append_right _ List.mem_cons_self) ?_
  refine .under (List.mem_of_getElem? (i := 2) rfl) ?_
  refine .under (List.mem_of_getElem? (i := 2) rfl) ?_
  refine .under (List.mem_of_getElem? (i := 0) rfl) ?_
  exact .among (List.mem_of_getElem? (i := 2) rfl)

theorem fits_probe {source : Text} {middle behind : List Tree}
    (parsed : Go.parse? source = some (Go.probeFront ++
      structTree (.leaf .token ['\x7b'] :: (middle ++ [.leaf .token ['\x7d']])) :: behind)) :
    Go.Fits (fun symbol => symbol.isPlain) (Tree.leavesOfAll middle) ('\x7d' :: Tree.textOfAll behind) ∧
      Go.Fits (fun symbol => symbol.isPlain) (Tree.leavesOfAll behind) [] := by
  have fits := Go.parse?_fits parsed
  obtain ⟨front, parts⟩ : ∃ front, Tree.leavesOfAll (Go.probeFront ++
      structTree (.leaf .token ['\x7b'] :: (middle ++ [.leaf .token ['\x7d']])) :: behind) =
        front ++ (Tree.leavesOfAll middle ++ (.leaf .token ['\x7d'] :: Tree.leavesOfAll behind)) := by
    refine ⟨Tree.leavesOfAll Go.probeFront ++ [.leaf .token "type".toList, .leaf .blank [' '],
      .leaf .token ['T'], .leaf .blank [' '], .leaf .token "struct".toList, .leaf .blank [' '],
      .leaf .token ['\x7b']], ?_⟩
    simp [structTree, Tree.leavesOfAll_append, Tree.leavesOfAll, Tree.leaves]
  rw [parts, Go.fits_append, Go.fits_append] at fits
  obtain ⟨-, inside, -, others⟩ := fits
  rw [Tree.textOfAll, Tree.textOfAll_leavesOfAll, List.append_nil] at inside
  exact ⟨inside, others⟩

/-- The brace that closes the struct around a declaration is the last one, or one of the declaration. -/
theorem closing_brace {front left declaration : Text}
    (spelled : front ++ '\x7d' :: left = Go.probeBody declaration) :
    (front = "\n\t".toList ++ (declaration ++ ['\n']) ∧ left = ['\n']) ∨
      ∃ more, "\n\t".toList ++ (declaration ++ ['\n']) = front ++ '\x7d' :: more ∧
        left = more ++ ['\x7d', '\n'] ∧ more.getLast? = some '\n' := by
  have body : Go.probeBody declaration =
      ("\n\t".toList ++ (declaration ++ ['\n'])) ++ ['\x7d', '\n'] := by
    simp [Go.probeBody, Go.probeEnd]
  rw [body] at spelled
  rcases List.append_eq_append_iff.1 spelled with ⟨middle, parts, behind⟩ | ⟨middle, rfl, behind⟩
  · cases middle with
    | nil =>
      cases behind
      exact .inl ⟨by rw [parts, List.append_nil], rfl⟩
    | cons c more =>
      obtain ⟨rfl, rfl⟩ := List.cons.inj behind
      refine .inr ⟨more, parts, rfl, ?_⟩
      have last := congrArg List.getLast? parts
      rw [← List.append_assoc, List.getLast?_append_of_ne_nil _ (List.cons_ne_nil _ _),
        List.getLast?_append_of_ne_nil _ (List.cons_ne_nil _ _)] at last
      cases more with
      | nil => cases last
      | cons d more => exact last.symm
  · cases middle with
    | nil =>
      cases behind
      exact .inl ⟨List.append_nil _, rfl⟩
    | cons c more =>
      obtain ⟨rfl, last⟩ := List.cons.inj behind
      have inside : '\x7d' ∈ ['\n'] := last ▸ List.mem_append_right more List.mem_cons_self
      exact absurd inside (by decide)

/-- The struct around a declaration ends its file exactly if no brace of the declaration closes what is not
open in it. -/
theorem AcceptedProbe.spacing_iff {declaration : Text} {trees inner behind : List Tree} {list : Located}
    (probe : AcceptedProbe declaration trees inner behind list) :
    (∀ tree ∈ behind, tree.isSpacing) ↔ (Go.braceDepth? 0 0 (declaration ++ ['\n'])).isSome := by
  have parsed := probe.parsed
  rw [probe.shape] at parsed
  obtain ⟨middle, children, climbs⟩ := Go.fieldList_climbs parsed (fieldList_occurs _ _)
  obtain rfl : inner = middle ++ [.leaf .token ['\x7d']] := (List.cons.inj children).2
  obtain ⟨within, others⟩ := fits_probe parsed
  obtain ⟨here, left, ended, rest, more, rfl, body, ending, beyond⟩ := probe.reads.reads
  have outside : Tree.textOfAll (ended ++ more) = left := by
    have last := beyond.spelled
    rw [List.append_nil] at last
    rw [Tree.textOfAll_append, last, ending.spelled]
  have spelled := body.spelled
  rw [Tree.textOfAll_append, List.append_assoc] at spelled
  have blank : "\n\t".toList.all Go.Lexeme.isOrdinary := by decide
  rw [← Go.braceDepth?_ordinary (List.all_eq_true.1 blank)]
  rcases closing_brace spelled with ⟨text, rfl⟩ | ⟨rest, text, rfl, line⟩
  · -- The last brace of the file closes the struct, and the leaves inside it are those of the declaration.
    have level := Go.braceDepth?_leaves within List.nil_prefix climbs
    rw [Tree.textOfAll_leavesOfAll, List.append_nil, text] at level
    rw [level]
    exact ⟨fun _ => rfl, fun _ => Go.spacing_of_reads_newline ending beyond⟩
  · -- A brace of the declaration closes the struct, and the last one of the file is code behind it.
    have initial : '\x7d' :: rest <+: '\x7d' :: Tree.textOfAll (ended ++ more) :=
      ⟨['\x7d', '\n'], by rw [outside]; rfl⟩
    have level := Go.braceDepth?_leaves within initial climbs
    rw [Tree.textOfAll_leavesOfAll, ← text] at level
    rw [level]
    refine ⟨fun spacing => ?_, nofun⟩
    rw [Tree.leavesOfAll_spacing spacing] at others
    exact absurd outside (Go.spacing_without_last_brace others spacing (.inr line))

/-- A declaration that is accepted is one field in the struct around it. The struct is all there is in its
file exactly if no brace of the declaration closes what is not open in it, comments and literals apart, so
that it is if no brace closes in the declaration at all. -/
theorem accepted_declaration_is_sole_iff {declaration : Text} (accepted : isFieldDeclaration declaration) :
    ∃ children behind,
      Go.parse? (Go.probe declaration) = some (Go.probeFront ++ structTree children :: behind) ∧
      children.countP (Tree.isNode .field) = 1 ∧
      ((∀ tree ∈ behind, tree.isSpacing) ↔ (Go.braceDepth? 0 0 (declaration ++ ['\n'])).isSome) ∧
      ('\x7d' ∉ declaration → ∀ tree ∈ behind, tree.isSpacing) := by
  obtain ⟨trees, inner, behind, list, probe⟩ := acceptedProbe_of_isFieldDeclaration accepted
  have parsed := probe.parsed
  rw [probe.shape] at parsed
  refine ⟨.leaf .token ['\x7b'] :: inner, behind, parsed, ?_, probe.spacing_iff, fun unclosed => ?_⟩
  · rw [List.countP_cons_of_neg (by decide)]
    exact probe.sole
  · apply probe.spacing_iff.2
    apply Go.isSome_braceDepth?
    simpa using unclosed

theorem accepted_declaration_is_sole_iff_of_braces :
    isFieldDeclaration "X struct \x7b Y int \x7d // \x7d".toList ∧ ∃ children behind,
      Go.parse? (Go.probe "X struct \x7b Y int \x7d // \x7d".toList) =
        some (Go.probeFront ++ structTree children :: behind) ∧
      children.countP (Tree.isNode .field) = 1 ∧ ∀ tree ∈ behind, tree.isSpacing := by
  have accepted : isFieldDeclaration "X struct \x7b Y int \x7d // \x7d".toList := by decide +kernel
  obtain ⟨children, behind, parsed, sole, spacing, -⟩ := accepted_declaration_is_sole_iff accepted
  exact ⟨accepted, children, behind, parsed, sole, spacing.2 (by decide +kernel)⟩

/-- A declaration that closes the struct and opens another one is accepted. -/
theorem declaration_of_two_structs_is_accepted :
    isFieldDeclaration "X int\x7d;type/**/U/**/struct\x7b".toList ∧
      (SourceFile.parse? (Go.probe "X int\x7d;type/**/U/**/struct\x7b".toList)).map
        (fun file => file.structs.map StructDeclaration.name) = some ["T".toList, "U".toList] := by
  decide +kernel

end GoGraft
