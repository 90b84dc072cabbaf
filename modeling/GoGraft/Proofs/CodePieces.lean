import GoGraft.Proofs.LineBraces

/-! Lines in pieces: stretches of code and complete literals, with a line comment behind them or none. Main
statement: the balance of a line is that of the braces in its code. A literal has no part in it, whatever
stands between its quotes: braces, slashes, quotes of other kinds and, behind a backslash, its own. -/

namespace GoGraft.Directive

/-! ### Pieces -/

/-- What stands for one character between quotes: the character, or a backslash and what it escapes. -/
inductive Quoted (quote : Char) where
  | plain (c : Char) (different : c ≠ quote ∧ c ≠ '\\')
  | escaped (c : Char)

def Quoted.text {quote : Char} : Quoted quote → Text
  | plain c _ => [c]
  | escaped c => ['\\', c]

/-- The quotes that open a literal. -/
def isQuote (c : Char) : Bool :=
  c == '\x22' || c == '\x60' || c == '\x27'

/-- A piece of a line. Code has no quotes of any kind and starts no line comment; nothing is escaped in a
raw string. Which escapes there are, and how many characters a rune may have, makes no difference here. -/
inductive Piece where
  | code (text : Text) (unquoted : text.any isQuote = false) (uncommented : ¬ "//".toList <:+: text)
  | interpreted (content : List (Quoted '\x22'))
  | raw (content : Text) (closed : '\x60' ∉ content)
  | rune (content : List (Quoted '\x27'))

namespace Piece

def text : Piece → Text
  | code text _ _ => text
  | interpreted content => '\x22' :: content.flatMap Quoted.text ++ ['\x22']
  | raw content _ => Text.inBackticks content
  | rune content => '\x27' :: content.flatMap Quoted.text ++ ['\x27']

/-- The code of a piece, which is nothing if the piece is a literal. -/
def ownCode : Piece → Text
  | code text _ _ => text
  | _ => []

end Piece

/-- Whether two slashes meet where one text ends and another one starts. -/
def SlashesMeet (front back : Text) : Prop :=
  front.getLast? = some '/' ∧ back.head? = some '/'

/-- No piece forms the mark of a comment with what comes behind it. That is the text of all pieces behind
it, so a piece without text does not hold two slashes apart. -/
def Joined : List Piece → Prop
  | [] => True
  | piece :: rest => ¬ SlashesMeet piece.text (rest.flatMap Piece.text) ∧ Joined rest

instance : DecidableRel SlashesMeet :=
  fun _ _ => inferInstanceAs (Decidable (_ ∧ _))

instance : DecidablePred Joined :=
  go
where
  go : (pieces : List Piece) → Decidable (Joined pieces)
    | [] => inferInstanceAs (Decidable True)
    | _ :: rest =>
      have := go rest
      inferInstanceAs (Decidable (_ ∧ _))

/-- A line in pieces. The comment may follow a slash of the code. -/
structure PiecedLine where
  pieces : List Piece
  joined : Joined pieces
  comment : Option Text

namespace PiecedLine

def text (line : PiecedLine) : Text :=
  line.pieces.flatMap Piece.text ++ line.comment.elim [] ("//".toList ++ ·)

def code (line : PiecedLine) : Text :=
  line.pieces.flatMap Piece.ownCode

end PiecedLine

/-- The opening braces of a text less its closing ones, wherever they stand. -/
def braces (text : Text) : Int :=
  text.count '\x7b' - text.count '\x7d'

theorem braces_append (front back : Text) : braces (front ++ back) = braces front + braces back := by
  simp only [braces, List.count_append, Int.natCast_add]
  omega

/-! ### Literals -/

theorem balanceFrom_content {quote : Char} (known : quote = '\x22' ∨ quote = '\x27')
    (content : List (Quoted quote)) (tail : Text) :
    balanceFrom (some quote) (content.flatMap Quoted.text ++ tail) = balanceFrom (some quote) tail := by
  induction content with
  | nil => rfl
  | cons unit content ih =>
    rw [List.flatMap_cons, List.append_assoc, ← ih]
    cases unit with
    | plain c different =>
      exact balanceFrom_inside (List.forall_mem_singleton.2 ⟨different.1, fun _ => different.2⟩) _
    | escaped c =>
      have digits : ∀ d ∈ ([] : Text), Go.Lexeme.isHexDigit d := List.forall_mem_nil _
      exact balanceFrom_escape known digits _

/-- A literal with escapes is passed over. Its closing quote is the first one that no backslash takes. -/
theorem balanceFrom_escaped_literal {quote : Char} (known : quote = '\x22' ∨ quote = '\x27')
    (content : List (Quoted quote)) (tail : Text) :
    balanceFrom none (quote :: content.flatMap Quoted.text ++ [quote] ++ tail) = balanceFrom none tail := by
  have opens : quote = '\x22' ∨ quote = '\x60' ∨ quote = '\x27' := known.imp_right .inr
  have different : quote ≠ '\\' := by rcases known with rfl | rfl <;> decide
  rw [List.append_assoc, List.cons_append, balanceFrom_open opens, balanceFrom_content known,
    List.singleton_append, balanceFrom_close quote different]

theorem balanceFrom_raw_literal {content : Text} (closed : '\x60' ∉ content) (tail : Text) :
    balanceFrom none (Text.inBackticks content ++ tail) = balanceFrom none tail := by
  have inside : ∀ c ∈ content, c ≠ '\x60' ∧ ('\x60' ≠ '\x60' → c ≠ '\\') :=
    fun c held => ⟨fun same => closed (same ▸ held), fun backtick => absurd rfl backtick⟩
  rw [Text.inBackticks, List.append_assoc, List.cons_append, balanceFrom_open (.inr (.inl rfl)),
    balanceFrom_inside inside, List.singleton_append, balanceFrom_close '\x60' (by decide)]

/-! ### Code -/

theorem balanceFrom_comment (said : Text) : balanceFrom none ("//".toList ++ said) = 0 := by
  change balanceFrom none ('/' :: '/' :: said) = 0
  rw [balanceFrom, if_neg (by decide), if_pos ⟨rfl, rfl⟩]

/-- One character of code is counted if it is a brace. -/
theorem balanceFrom_character {c : Char} (unquoted : isQuote c = false) {tail : Text}
    (uncommented : ¬ (c = '/' ∧ tail.head? = some '/')) :
    balanceFrom none (c :: tail) = braces [c] + balanceFrom none tail := by
  have quotes : ¬ (c = '\x22' ∨ c = '\x60' ∨ c = '\x27') := by simpa [isQuote, and_assoc] using unquoted
  rw [balanceFrom, if_neg quotes, if_neg uncommented]
  split
  next opening =>
    subst opening
    exact Int.add_comm _ _
  next other =>
    split
    next closing =>
      subst closing
      exact Int.add_comm _ _
    next neither =>
      have level : braces [c] = 0 := by simp [braces, other, neither]
      rw [level, Int.zero_add]

/-- A stretch of code is counted brace by brace. A slash at its end may meet another one only if a comment
starts behind the stretch, which then ends the count one character earlier. -/
theorem balanceFrom_code {text : Text} (unquoted : text.any isQuote = false)
    (uncommented : ¬ "//".toList <:+: text) {tail : Text}
    (meets : SlashesMeet text tail → "//".toList <+: tail) :
    balanceFrom none (text ++ tail) = braces text + balanceFrom none tail := by
  induction text with
  | nil => exact (Int.zero_add _).symm
  | cons c text ih =>
    rw [List.any_cons, Bool.or_eq_false_iff] at unquoted
    obtain ⟨first, others⟩ := unquoted
    by_cases comment : c = '/' ∧ (text ++ tail).head? = some '/'
    · obtain ⟨rfl, slash⟩ := comment
      cases text with
      | nil =>
        obtain ⟨said, rfl⟩ := meets ⟨rfl, slash⟩
        rw [balanceFrom_comment]
        exact balanceFrom_comment ('/' :: said)
      | cons d text =>
        cases Option.some.inj slash
        exact absurd ⟨[], text, rfl⟩ uncommented
    · have inner : ¬ "//".toList <:+: text :=
        fun found => uncommented (found.trans (List.suffix_cons c text).isInfix)
      have later : SlashesMeet text tail → "//".toList <+: tail := by
        rintro ⟨last, slash⟩
        exact meets ⟨by rw [List.getLast?_cons, last, Option.getD_some], slash⟩
      rw [List.cons_append, balanceFrom_character first comment, ih others inner later, ← Int.add_assoc,
        ← braces_append, List.singleton_append]

/-! ### Lines -/

/-- One piece adds the braces of its code. -/
theorem balanceFrom_piece (piece : Piece) {tail : Text}
    (meets : SlashesMeet piece.text tail → "//".toList <+: tail) :
    balanceFrom none (piece.text ++ tail) = braces piece.ownCode + balanceFrom none tail := by
  cases piece with
  | code text unquoted uncommented => exact balanceFrom_code unquoted uncommented meets
  | interpreted content =>
    exact (balanceFrom_escaped_literal (.inl rfl) content tail).trans (Int.zero_add _).symm
  | raw content closed =>
    exact (balanceFrom_raw_literal closed tail).trans (Int.zero_add _).symm
  | rune content =>
    exact (balanceFrom_escaped_literal (.inr rfl) content tail).trans (Int.zero_add _).symm

/-- Piece by piece, in front of nothing or of a comment. -/
theorem balanceFrom_pieces {pieces : List Piece} (joined : Joined pieces) {tail : Text}
    (ends : tail = [] ∨ "//".toList <+: tail) :
    balanceFrom none (pieces.flatMap Piece.text ++ tail) = braces (pieces.flatMap Piece.ownCode) := by
  induction pieces with
  | nil =>
    rcases ends with rfl | ⟨said, rfl⟩
    · rfl
    · exact balanceFrom_comment said
  | cons piece rest ih =>
    obtain ⟨apart, others⟩ := joined
    have meets : SlashesMeet piece.text (rest.flatMap Piece.text ++ tail) →
        "//".toList <+: rest.flatMap Piece.text ++ tail := by
      rintro ⟨last, slash⟩
      -- The slash behind the piece is not from another piece, so it is the first one of the comment.
      cases behind : rest.flatMap Piece.text with
      | nil =>
        rw [behind, List.nil_append] at slash
        rcases ends with rfl | comment
        · cases slash
        · exact comment
      | cons c more =>
        rw [behind] at slash apart
        exact absurd ⟨last, slash⟩ apart
    rw [List.flatMap_cons, List.flatMap_cons, List.append_assoc, balanceFrom_piece piece meets, ih others,
      braces_append]

/-- The balance of a line is the number of opening braces in its code less that of closing ones. -/
theorem braces_counted_in_code (line : PiecedLine) :
    braceBalance line.text = (line.code.count '\x7b' : Int) - line.code.count '\x7d' := by
  refine balanceFrom_pieces line.joined ?_
  cases line.comment with
  | none => exact .inl rfl
  | some said => exact .inr (List.prefix_append _ said)

/-- All kinds of pieces in a line: quotes and marks of comments in literals, an escaped backslash in front of
a closing quote, and a comment behind a slash. -/
theorem braces_counted_in_code_among_literals :
    braceBalance "T\x7b\"'\\\"//\x7d\\\\\", '\\'', \x60\x7b\"\\\x60 ///\x7b".toList = 1 :=
  braces_counted_in_code
    { pieces :=
        [.code "T\x7b".toList (by decide) (by decide),
          .interpreted [.plain '\x27' (by decide), .escaped '\x22', .plain '/' (by decide),
            .plain '/' (by decide), .plain '\x7d' (by decide), .escaped '\\'],
          .code ", ".toList (by decide) (by decide),
          .rune [.escaped '\x27'],
          .code ", ".toList (by decide) (by decide),
          .raw "\x7b\"\\".toList (by decide),
          .code " /".toList (by decide) (by decide)]
      joined := by decide
      comment := some "\x7b".toList }

end GoGraft.Directive
