import GoGraft.Go.Accepts
import GoGraft.Go.Lexeme
import GoGraft.Go.Tree

/-! A grammar is a rule for each of its names. This module says what rules are made of and how a
text is read by one. Reading tries alternatives in order and takes the first that succeeds. It
carries what else the grammar takes at the point where it stands (`here`) and what may follow the
rule that it reads (`next`): these decide whether a newline is white space or a terminator,
whether a word is an identifier or a keyword, and how far an operator reaches. -/

namespace GoGraft.Go

inductive Token where
  /-- A mark of punctuation, not followed by any of the given characters. -/
  | mark (spelling : Text) (notBefore : List Char)
  | word (spelling : Text)
  /-- An identifier other than the given words. -/
  | name (reserved : List Text)
  | number
  | string
  | rune
  /-- A binary operator. -/
  | operator
  /-- An assignment operator, `=` and `:=` included. -/
  | assignment
  /-- A newline, a semicolon, a null character or the end of the text. -/
  | terminator
  /-- The end of the text. -/
  | ending

namespace Token

def firstOf (spellings : List Text) (text : Text) : Option (Text × Text) :=
  spellings.findSome? fun spelling => (Text.after? spelling text).map fun rest => (spelling, rest)

/-- Binary operators, those of two characters first. -/
def operators : List Text :=
  ["<<", ">>", "&^", "==", "!=", "<=", ">=", "&&", "||",
   "*", "/", "%", "&", "+", "-", "|", "^", "<", ">"].map String.toList

def assignments : List Text :=
  ["<<=", ">>=", "&^=", ":=", "*=", "/=", "%=", "&=", "+=", "-=", "|=", "^=", "="].map String.toList

/-- Whether a binary operator is the beginning of a longer mark that the grammar takes here. -/
def isCut (here : Accepts) (spelling rest : Text) : Bool :=
  match spelling, rest with
  | [_], '=' :: _ => true
  | ['<', '<'], '=' :: _ => true
  | ['>', '>'], '=' :: _ => true
  | ['&', '^'], '=' :: _ => true
  | ['+'], '+' :: _ => here.step
  | ['-'], '-' :: _ => here.step
  | ['<'], '-' :: _ => here.step
  | _, _ => false

/-- The words that start a statement, save those that can also start an expression. -/
def statementWords : List Text :=
  ["break", "const", "continue", "defer", "fallthrough", "for", "go", "goto", "if", "return",
   "select", "switch", "type", "var"].map String.toList

/-- The words that stand for an operand. -/
def constantWords : List Text :=
  ["false", "iota", "make", "new", "nil", "true"].map String.toList

def clauseWords : List Text :=
  ["case", "default"].map String.toList

def itemWords : List Text :=
  ["import", "package"].map String.toList

def rangeWords : List Text :=
  ["range"].map String.toList

/-- Whether a word is a keyword because of what else the grammar takes here. -/
def isKeyword (here : Accepts) (word : Text) : Bool :=
  (here.statement && statementWords.contains word) || (here.clause && clauseWords.contains word) ||
    (here.operand && constantWords.contains word) || (here.item && itemWords.contains word) ||
    (here.range && rangeWords.contains word)

/-- Reads the token at the very front of a text. -/
def read? (here : Accepts) (text : Text) : Token → Option (Text × Text)
  | mark spelling notBefore =>
    match Text.after? spelling text with
    | some rest =>
      if rest.head?.any notBefore.contains then none else some (spelling, rest)
    | none => none
  | word spelling =>
    match Lexeme.identifier? text with
    | some (found, rest) => if found == spelling then some (found, rest) else none
    | none => none
  | name reserved =>
    match Lexeme.identifier? text with
    | some (found, rest) =>
      if reserved.contains found || isKeyword here found then none else some (found, rest)
    | none => none
  | number => Lexeme.number? text
  | string => Lexeme.string? text
  | rune => Lexeme.rune? text
  | operator =>
    match firstOf operators text with
    | some (spelling, rest) => if isCut here spelling rest then none else some (spelling, rest)
    | none => none
  | assignment => firstOf assignments text
  | terminator =>
    match text with
    | [] => some ([], [])
    | c :: rest => if c == '\n' || c == ';' || c == '\x00' then some ([c], rest) else none
  | ending => if text.isEmpty then some ([], []) else none

def leafKind : Token → LeafKind
  | terminator => .terminator
  | _ => .token

/-- What the grammar takes where this token may stand. -/
def first : Token → Accepts
  | mark spelling _ =>
    match spelling with
    | ['\x7b'] => { body := true }
    | ['+', '+'] => { step := true }
    | ['-', '-'] => { step := true }
    | ['<', '-'] => { step := true }
    | _ => {}
  | word spelling =>
    { clause := clauseWords.contains spelling, range := rangeWords.contains spelling }
  | terminator => { terminator := true }
  | _ => {}

end Token

/-- Takes the blanks and comments at the front of a text; newlines only if they are white space.
The fuel bounds the number of comments. -/
def takeTrivia (newlines : Bool) : (fuel : Nat) → Text → Option (List Tree × Text)
  | 0, _ => none
  | fuel + 1, text =>
    let isBlank (c : Char) : Bool := Lexeme.isSpace c && (newlines || c != '\n')
    let blank := text.takeWhile isBlank
    let rest := if blank.isEmpty then text else text.dropWhile isBlank
    match Lexeme.comment? rest with
    | some (comment, left) =>
      match takeTrivia newlines fuel left with
      | some (trees, last) =>
        let trees := .leaf .comment comment :: trees
        some (if blank.isEmpty then trees else .leaf .blank blank :: trees, last)
      | none => none
    | none => some (if blank.isEmpty then [] else [.leaf .blank blank], rest)

inductive Rule (Name : Type) where
  | empty
  | token (symbol : Token)
  | seq (first second : Rule Name)
  /-- The second rule where the first fails. -/
  | alt (first second : Rule Name)
  /-- The second rule after the first; the third where the first fails. -/
  | commit (first second third : Rule Name)
  | opt (rule : Rule Name)
  | many (rule : Rule Name)
  /-- A rule that continues what could already be complete. -/
  | tail (rule : Rule Name)
  | ref (name : Name)
  | node (kind : NodeKind) (rule : Rule Name)
  /-- Succeeds where the rule would, and takes nothing. -/
  | ahead (rule : Rule Name)
  /-- Succeeds where the rule would fail, and takes nothing. -/
  | notAhead (rule : Rule Name)
  /-- A rule at a point where the grammar takes more than the rule. -/
  | within (more : Accepts) (rule : Rule Name)
  /-- A rule after which the grammar takes more than what follows it here. -/
  | expecting (more : Accepts) (rule : Rule Name)
  /-- A rule that may start on a later line wherever it stands. -/
  | across (rule : Rule Name)
  /-- A rule for points where no body may follow it. -/
  | unlessBody (rule : Rule Name)
  /-- A rule for points where a body may follow it. -/
  | whereBody (rule : Rule Name)
  /-- A rule for points where no type switch guard may follow it. -/
  | unlessGuard (rule : Rule Name)

namespace Rule

variable {Name : Type}

def nullable : Rule Name → Bool
  | empty => true
  | token _ => false
  | seq first second => first.nullable && second.nullable
  | alt first second => first.nullable || second.nullable
  | commit first second third => (first.nullable && second.nullable) || third.nullable
  | opt _ => true
  | many _ => true
  | tail rule => rule.nullable
  | ref _ => false
  | node _ rule => rule.nullable
  | ahead _ => true
  | notAhead _ => true
  | within _ rule => rule.nullable
  | expecting _ rule => rule.nullable
  | across rule => rule.nullable
  | unlessBody rule => rule.nullable
  | whereBody rule => rule.nullable
  | unlessGuard rule => rule.nullable

/-- What the grammar takes where the rule may start. The rule of a name is not looked into: no rule
asks for what a named rule starts with. -/
def first : Rule Name → Accepts
  | empty => {}
  | token symbol => symbol.first
  | seq one two => if one.nullable then one.first ∪ two.first else one.first
  | alt one two => one.first ∪ two.first
  | commit one two three =>
    (if one.nullable then one.first ∪ two.first else one.first) ∪ three.first
  | opt rule => rule.first
  | many rule => rule.first
  | tail rule => rule.first
  | ref _ => {}
  | node _ rule => rule.first
  | ahead _ => {}
  | notAhead _ => {}
  | within _ rule => rule.first
  | expecting _ rule => rule.first
  | across rule => rule.first
  | unlessBody rule => rule.first
  | whereBody rule => rule.first
  | unlessGuard rule => rule.first

/-- What may follow a rule that stands before `rule`, when `next` may follow `rule`. -/
def following (rule : Rule Name) (next : Accepts) : Accepts :=
  if rule.nullable then rule.first ∪ next else rule.first

def sequence : List (Rule Name) → Rule Name
  | [] => empty
  | [rule] => rule
  | rule :: rest => seq rule (sequence rest)

def choice : List (Rule Name) → Rule Name
  | [] => empty
  | [rule] => rule
  | rule :: rest => alt rule (choice rest)

/-- Reads the front of a text by a rule: the trees it makes, and the text that is left. The fuel
bounds the depth of the reading. -/
def run (rules : Name → Rule Name) : (fuel : Nat) → Rule Name → (here next : Accepts) → Text →
    Option (List Tree × Text)
  | 0, _, _, _, _ => none
  | fuel + 1, rule, here, next, text =>
    match rule with
    | empty => some ([], text)
    | token symbol =>
      let newlines := !here.terminator && !(symbol.leafKind == .terminator)
      match takeTrivia newlines fuel text with
      | some (trivia, rest) =>
        match symbol.read? here rest with
        | some (found, left) => some (trivia ++ [.leaf symbol.leafKind found], left)
        | none => none
      | none => none
    | seq one two =>
      match run rules fuel one here (two.following next) text with
      | some (trees, rest) =>
        match run rules fuel two (if trees.isEmpty then here else {}) next rest with
        | some (more, left) => some (trees ++ more, left)
        | none => none
      | none => none
    | alt one two =>
      match run rules fuel one here next text with
      | some result => some result
      | none => run rules fuel two here next text
    | commit one two three =>
      match run rules fuel one here (two.following next) text with
      | some (trees, rest) =>
        match run rules fuel two (if trees.isEmpty then here else {}) next rest with
        | some (more, left) => some (trees ++ more, left)
        | none => none
      | none => run rules fuel three here next text
    | opt rule =>
      match run rules fuel rule (here ∪ next) next text with
      | some result => some result
      | none => some ([], text)
    | many rule =>
      match run rules fuel rule (here ∪ next) (rule.first ∪ next) text with
      | some (trees, rest) =>
        if trees.isEmpty then some ([], text)
        else match run rules fuel (many rule) {} next rest with
          | some (more, left) => some (trees ++ more, left)
          | none => none
      | none => some ([], text)
    | tail rule => run rules fuel rule (here ∪ next) next text
    | ref name => run rules fuel (rules name) here next text
    | node kind rule =>
      match run rules fuel rule here next text with
      | some (trees, rest) => some (Tree.wrap kind trees, rest)
      | none => none
    | ahead rule =>
      match run rules fuel rule here next text with
      | some _ => some ([], text)
      | none => none
    | notAhead rule =>
      match run rules fuel rule here next text with
      | some _ => none
      | none => some ([], text)
    | within more rule => run rules fuel rule (here ∪ more) next text
    | expecting more rule => run rules fuel rule here (next ∪ more) text
    | across rule => run rules fuel rule {} next text
    | unlessBody rule => if next.body then none else run rules fuel rule here next text
    | whereBody rule => if next.body then run rules fuel rule here next text else none
    | unlessGuard rule => if next.guard then none else run rules fuel rule here next text

end Rule

end GoGraft.Go
