import GoGraft.Go.Lexeme
import GoGraft.Proofs.Encoding
import GoGraft.Proofs.LineBraces
import GoGraft.Proofs.TagRoundTrip

/-! The string literals of Go and the bytes that they stand for, compared with how tags are read from
literals and written to them. A literal is read by dropping its backslashes, which gives the string that
it stands for exactly if they stand before backslashes and quotes only. A set of tags is written as a
literal of Go unless it has both a backtick and a newline. -/

namespace GoGraft

/-! ### Literals of Go -/

namespace Utf8

theorem encode_append (first second : Text) : encode (first ++ second) = encode first ++ encode second :=
  List.flatMap_append

theorem encode_cons (c : Char) (text : Text) :
    encode (c :: text) = String.utf8EncodeChar c ++ encode text :=
  List.flatMap_cons

theorem encode_singleton (c : Char) : encode [c] = String.utf8EncodeChar c :=
  List.append_nil _

theorem encode_inj {first second : Text} (same : encode first = encode second) : first = second := by
  have read := decode_encode first
  rw [same, decode_encode second] at read
  exact (Except.ok.inj read).symm

theorem length_le_encode (text : Text) : text.length ≤ (encode text).length := by
  induction text with
  | nil => exact Nat.le_refl 0
  | cons c text ih =>
    have first := c.utf8Size_pos
    rw [encode_cons, List.length_append, List.length_cons, String.length_utf8EncodeChar]
    omega

end Utf8

namespace Go.Literal

def digitValue (c : Char) : Nat :=
  if c.isDigit then c.toNat - '0'.toNat
  else if 'a' ≤ c then c.toNat - 'a'.toNat + 10
  else c.toNat - 'A'.toNat + 10

/-- The number that digits give in a base, the first one counting most. -/
def number (base : Nat) (digits : Text) : Nat :=
  digits.foldl (fun number digit => base * number + digitValue digit) 0

/-- The escapes of one character, and the characters that they stand for. -/
def shortEscapes : List (Char × Char) :=
  [('a', '\x07'), ('b', '\x08'), ('f', '\x0c'), ('n', '\n'), ('r', '\r'), ('t', '\t'), ('v', '\x0b'),
   ('\\', '\\'), ('\x22', '\x22')]

/-- What stands between the quotes of an interpreted literal, and the bytes of its string. Two hexadecimal
or three octal digits stand for one byte, all else for the UTF-8 form of a character. -/
inductive Denotes : Text → Bytes → Prop where
  | nil : Denotes [] []
  | char {c : Char} {rest : Text} {bytes : Bytes} (own : c ∉ ['\n', '\\', '\x22'])
      (more : Denotes rest bytes) : Denotes (c :: rest) (String.utf8EncodeChar c ++ bytes)
  | short {c meant : Char} {rest : Text} {bytes : Bytes} (known : (c, meant) ∈ shortEscapes)
      (more : Denotes rest bytes) : Denotes ('\\' :: c :: rest) (String.utf8EncodeChar meant ++ bytes)
  | octal {digits rest : Text} {bytes : Bytes} (three : digits.length = 3)
      (octal : ∀ digit ∈ digits, Lexeme.isOctalDigit digit) (byte : number 8 digits < 256)
      (more : Denotes rest bytes) :
      Denotes ('\\' :: (digits ++ rest)) (UInt8.ofNat (number 8 digits) :: bytes)
  | hex {digits rest : Text} {bytes : Bytes} (two : digits.length = 2)
      (hex : ∀ digit ∈ digits, Lexeme.isHexDigit digit) (more : Denotes rest bytes) :
      Denotes ('\\' :: 'x' :: (digits ++ rest)) (UInt8.ofNat (number 16 digits) :: bytes)
  | point {mark : Char} {digits rest : Text} {bytes : Bytes}
      (sized : (mark, digits.length) ∈ [('u', 4), ('U', 8)])
      (hex : ∀ digit ∈ digits, Lexeme.isHexDigit digit) (valid : (number 16 digits).isValidChar)
      (more : Denotes rest bytes) :
      Denotes ('\\' :: mark :: (digits ++ rest))
        (String.utf8EncodeChar (Char.ofNat (number 16 digits)) ++ bytes)

/-- A string literal and the bytes of its string. A raw literal stands for what is in it, carriage returns
left out. -/
inductive StandsFor : Text → Bytes → Prop where
  | raw {body : Text} (open_end : '\x60' ∉ body) :
      StandsFor (Text.inBackticks body) (Utf8.encode (body.filter (· != '\r')))
  | interpreted {inner : Text} {bytes : Bytes} (denotes : Denotes inner bytes) :
      StandsFor ("\"".toList ++ inner ++ "\"".toList) bytes

/-- Whether a text is, as a whole, one string literal. -/
def IsString (literal : Text) : Prop :=
  ∃ bytes, StandsFor literal bytes

/-- Whether backslashes stand before backslashes and double quotes only. -/
def escapesMarksOnly : Text → Bool
  | [] => true
  | '\\' :: c :: rest => (c == '\\' || c == '\x22') && escapesMarksOnly rest
  | _ :: rest => escapesMarksOnly rest

theorem escapesMarksOnly_cons {c : Char} (plain : c ≠ '\\') (rest : Text) :
    escapesMarksOnly (c :: rest) = escapesMarksOnly rest := by
  rw [escapesMarksOnly]
  exact fun _ _ same => absurd same plain

theorem not_backslash_of_isHexDigit {c : Char} (digit : Lexeme.isHexDigit c) : c ≠ '\\' := by
  rintro rfl
  cases digit

theorem not_newline_of_isHexDigit {c : Char} (digit : Lexeme.isHexDigit c) : c ≠ '\n' := by
  rintro rfl
  cases digit

end Go.Literal

namespace TagSet

open Go.Literal

/-! ### Reading literals -/

theorem unescape_cons {c : Char} (plain : c ≠ '\\') (rest : Text) :
    unescape (c :: rest) = c :: unescape rest := by
  rw [unescape]
  · exact fun same => absurd same plain
  · exact fun _ _ same => absurd same plain

theorem unescape_append {front : Text} (plain : ∀ c ∈ front, c ≠ '\\') (rest : Text) :
    unescape (front ++ rest) = front ++ unescape rest := by
  induction front with
  | nil => rfl
  | cons c front ih =>
    obtain ⟨first, others⟩ := List.forall_mem_cons.1 plain
    rw [List.cons_append, unescape_cons first, ih others, List.cons_append]

/-- A text between quotes without its backslashes has at least as many bytes as its string, and has the
bytes of the string exactly if only marks are escaped. -/
structure Unescapes (inner : Text) (bytes : Bytes) : Prop where
  bound : bytes.length ≤ (Utf8.encode (unescape inner)).length
  same_iff : Utf8.encode (unescape inner) = bytes ↔ escapesMarksOnly inner

/-- One piece in front of others: what is shown of it takes at least as many bytes as it stands for. -/
theorem Unescapes.cons {piece shown rest : Text} {meant bytes : Bytes} {plain : Bool}
    (later : Unescapes rest bytes) (split : unescape (piece ++ rest) = shown ++ unescape rest)
    (marks : escapesMarksOnly (piece ++ rest) = (plain && escapesMarksOnly rest))
    (bound : meant.length ≤ (Utf8.encode shown).length) (own : Utf8.encode shown = meant ↔ plain) :
    Unescapes (piece ++ rest) (meant ++ bytes) := by
  have others := later.bound
  refine ⟨?_, ?_⟩
  · rw [split, Utf8.encode_append, List.length_append, List.length_append]
    omega
  · rw [split, Utf8.encode_append, marks, Bool.and_eq_true, ← own, ← later.same_iff]
    constructor
    · intro same
      have lengths := congrArg List.length same
      rw [List.length_append, List.length_append] at lengths
      exact List.append_inj same (by omega)
    · rintro ⟨here, behind⟩
      rw [here, behind]

/-- An escape with digits shows more bytes than it stands for. -/
theorem Unescapes.digits {mark : Char} {digits rest : Text} {meant bytes : Bytes}
    (later : Unescapes rest bytes) (other : mark ∉ ['\\', '\x22'])
    (hex : ∀ digit ∈ digits, Go.Lexeme.isHexDigit digit) (long : meant.length ≤ digits.length) :
    Unescapes ('\\' :: mark :: (digits ++ rest)) (meant ++ bytes) := by
  have shown := Utf8.length_le_encode (mark :: digits)
  rw [List.length_cons] at shown
  refine @Unescapes.cons ('\\' :: mark :: digits) (mark :: digits) rest meant bytes false later ?_ ?_ (by omega) ?_
  · rw [List.cons_append, List.cons_append, unescape,
      unescape_append fun digit inside => not_backslash_of_isHexDigit (hex digit inside), List.cons_append]
  · simp_all [escapesMarksOnly]
  · refine iff_of_false (fun same => ?_) Bool.false_ne_true
    rw [same] at shown
    omega

theorem shortEscapes_shown : shortEscapes.all fun (c, meant) =>
    (String.utf8EncodeChar meant).length == (String.utf8EncodeChar c).length &&
      (String.utf8EncodeChar c == String.utf8EncodeChar meant) == (c == '\\' || c == '\x22') := by
  decide

theorem unescapes_of_denotes {inner : Text} {bytes : Bytes} (denotes : Denotes inner bytes) :
    Unescapes inner bytes := by
  induction denotes with
  | nil => exact ⟨Nat.le_refl 0, iff_of_true rfl rfl⟩
  | @char c rest bytes own _ later =>
    have plain : c ≠ '\\' := by
      rintro rfl
      simp at own
    refine @Unescapes.cons [c] [c] rest _ bytes true later (unescape_cons plain rest) ?_ ?_ ?_
    · exact escapesMarksOnly_cons plain rest
    · exact Nat.le_of_eq (by rw [Utf8.encode_singleton])
    · exact iff_of_true (Utf8.encode_singleton c) rfl
  | @short c meant rest bytes known _ later =>
    have shown := List.all_eq_true.1 shortEscapes_shown (c, meant) known
    simp only [Bool.and_eq_true, beq_iff_eq] at shown
    refine @Unescapes.cons ['\\', c] [c] rest _ bytes (c == '\\' || c == '\x22') later rfl rfl ?_ ?_
    · exact Nat.le_of_eq (by rw [Utf8.encode_singleton, shown.1])
    · rw [Utf8.encode_singleton, ← shown.2, beq_iff_eq]
  | @octal digits rest bytes three octal _ _ later =>
    cases digits with
    | nil => cases three
    | cons mark digits =>
      obtain ⟨first, others⟩ := List.forall_mem_cons.1 octal
      refine @Unescapes.digits mark digits rest [_] bytes later ?_ ?_ ?_
      · exact Go.Lexeme.not_mem_of (by decide) first
      · exact fun digit inside => Directive.isHexDigit_of_isOctalDigit (others digit inside)
      · rw [List.length_cons] at three
        rw [List.length_singleton]
        omega
  | @hex digits rest bytes two hex _ later =>
    exact @Unescapes.digits 'x' digits rest [_] bytes later (by decide) hex (by simp [two])
  | @point mark digits rest bytes sized hex _ _ later =>
    have most := Char.utf8Size_le_four (Char.ofNat (number 16 digits))
    refine later.digits ?_ hex ?_
    · rcases List.mem_cons.1 sized with same | same
      all_goals simp_all
    · rw [String.length_utf8EncodeChar]
      simp only [List.mem_cons, List.not_mem_nil, Prod.mk.injEq, or_false] at sized
      omega

/-- What is escaped stands for the text before. -/
theorem denotes_escape {body : Text} (line : '\n' ∉ body) : Denotes (escape body) (Utf8.encode body) := by
  induction body with
  | nil => exact .nil
  | cons c body ih =>
    obtain ⟨here, later⟩ := not_or.1 (mt List.mem_cons.2 line)
    have others := ih later
    have split : escape (c :: body) = (if c = '\\' ∨ c = '\x22' then ['\\', c] else [c]) ++ escape body := rfl
    rw [split, Utf8.encode_cons]
    split
    next marked =>
      refine .short ?_ others
      rcases marked with rfl | rfl <;> decide
    next plain =>
      refine .char ?_ others
      rw [not_or] at plain
      simp [plain, Ne.symm here]

/-- From a literal that stands for a text, tags are read as from the text if its backslashes only stand
before backslashes and quotes. Exactly then the text is what is left of it without backslashes. -/
theorem ofLiteral_of_denoted {inner text : Text} (denotes : Denotes inner (Utf8.encode text)) :
    (unescape inner = text ↔ escapesMarksOnly inner) ∧
      (escapesMarksOnly inner → ofLiteral ("\"".toList ++ inner ++ "\"".toList) = parse text) := by
  have same_iff : unescape inner = text ↔ escapesMarksOnly inner := by
    rw [← (unescapes_of_denotes denotes).same_iff]
    exact ⟨congrArg Utf8.encode, Utf8.encode_inj⟩
  refine ⟨same_iff, fun marks => ?_⟩
  rw [ofLiteral, unquote?_inQuotes]
  exact congrArg parse (same_iff.2 marks)

/-- A quote in a value is written with a backslash, the value with another one in front of it. -/
theorem ofLiteral_of_denoted_of_quotes :
    let inner := "a:\\\"say \\\\\\\"b\\\\\\\"\\\"".toList
    let text := "a:\"say \\\"b\\\"\"".toList
    Denotes inner (Utf8.encode text) ∧ escapesMarksOnly inner ∧
      ofLiteral ("\"".toList ++ inner ++ "\"".toList) = parse text := by
  intro inner text
  have denotes : Denotes inner (Utf8.encode text) := @denotes_escape text (by decide)
  have marks : escapesMarksOnly inner := by decide
  exact ⟨denotes, marks, (ofLiteral_of_denoted denotes).2 marks⟩

/-- The escape of a letter by its number is taken for a letter and digits. -/
theorem hex_escape_is_misread :
    let inner := "a:\\\"\\x41\\\"".toList
    let text := "a:\"A\"".toList
    Denotes inner (Utf8.encode text) ∧
      (ofLiteral ("\"".toList ++ inner ++ "\"".toList)).get? "a".toList = some "x41".toList ∧
      (parse text).get? "a".toList = some "A".toList := by
  refine ⟨?_, by decide +kernel, by decide +kernel⟩
  have quote {rest : Text} {bytes : Bytes} (more : Denotes rest bytes) :
      Denotes ('\\' :: '\x22' :: rest) (String.utf8EncodeChar '\x22' ++ bytes) := .short (by decide) more
  have digits : ∀ digit ∈ ['4', '1'], Go.Lexeme.isHexDigit digit :=
    List.forall_mem_cons.2 ⟨rfl, List.forall_mem_singleton.2 rfl⟩
  exact .char (by decide) (.char (by decide) (quote (.hex rfl digits (quote .nil))))

/-! ### Writing literals -/

theorem mem_of_mem_unescape {c : Char} {text : Text} (inside : c ∈ unescape text) : c ∈ text := by
  fun_induction unescape text with
  | case1 => cases inside
  | case2 => cases inside
  | case3 d rest ih =>
    rcases List.mem_cons.1 inside with rfl | later
    · simp
    · simp [ih later]
  | case4 d rest _ _ ih =>
    rcases List.mem_cons.1 inside with rfl | later
    · simp
    · simp [ih later]

/-- The characters of a value come from the text that it was read from. -/
theorem mem_of_mem_parse {text : Text} {pair : Text × Text} (held : pair ∈ (parse text).pairs) {c : Char}
    (inside : c ∈ pair.2) : c ∈ Text.trimOf '\x60' (Text.trim text) := by
  rcases mem_insertAll held with before | found
  · cases before
  · obtain ⟨place, rest, suffix, taken⟩ := Text.exists_of_mem_readAll found
    apply suffix.subset
    rw [(takePair?_sound taken).2, renderPair]
    simp [inside]

theorem mem_of_mem_ofLiteral {literal : Text} {pair : Text × Text}
    (held : pair ∈ (ofLiteral literal).pairs) {c : Char} (inside : c ∈ pair.2) : c ∈ literal := by
  rw [ofLiteral] at held
  split at held
  next inner quoted =>
    obtain ⟨behind, opened, closed⟩ := Option.bind_eq_some_iff.1 quoted
    rw [Text.after?_eq_some.1 opened, Text.before?_eq_some.1 closed]
    have own := mem_of_mem_unescape (Text.mem_of_mem_trim (Text.mem_of_mem_trimOf (mem_of_mem_parse held inside)))
    simp [own]
  next => exact Text.mem_of_mem_trim (Text.mem_of_mem_trimOf (mem_of_mem_parse held inside))

/-- The backticks of a raw literal get into no value. -/
theorem not_backtick_of_raw {body : Text} (open_end : '\x60' ∉ body) {pair : Text × Text}
    (held : pair ∈ (ofLiteral (Text.inBackticks body)).pairs) : '\x60' ∉ pair.2 := by
  have other {c : Char} (inside : c ∈ body) : (c == '\x60') = false := by
    rw [beq_eq_false_iff_ne]
    rintro rfl
    exact open_end inside
  have trimmed : Text.trimOf '\x60' (Text.trim (Text.inBackticks body)) = body := by
    rw [Text.trim_inBackticks]
    apply Text.trimOf_inBackticks
    · exact fun c first => other (List.mem_of_head? first)
    · exact fun c last => other (List.mem_of_getLast? last)
  intro inside
  rw [ofLiteral_inBackticks] at held
  exact open_end (trimmed ▸ mem_of_mem_parse held inside)

/-- What can be in no key is in a written set only if it is in a value. -/
theorem mem_body_iff {tags : TagSet} (regular : ∀ pair ∈ tags.pairs, Regular pair) {c : Char}
    (other : isKeyChar c = false) (apart : c ∉ " :\"".toList) :
    c ∈ tags.body ↔ ∃ pair ∈ tags.pairs, c ∈ pair.2 := by
  have rendered {pair : Text × Text} (held : pair ∈ tags.pairs) : c ∈ renderPair pair ↔ c ∈ pair.2 := by
    have key : c ∉ pair.1 := by
      intro inside
      rw [(regular pair held).key c inside] at other
      cases other
    simp_all [renderPair]
  rw [body, Text.mem_join (by simp_all)]
  constructor
  · rintro ⟨_, among, inside⟩
    obtain ⟨pair, held, rfl⟩ := List.mem_map.1 among
    exact ⟨pair, held, (rendered held).1 inside⟩
  · rintro ⟨pair, held, inside⟩
    exact ⟨_, List.mem_map_of_mem held, (rendered held).2 inside⟩

theorem newline_not_mem_of_denotes {inner : Text} {bytes : Bytes} (denotes : Denotes inner bytes) :
    '\n' ∉ inner := by
  have digits {digits rest : Text} (hex : ∀ digit ∈ digits, Go.Lexeme.isHexDigit digit)
      (later : '\n' ∉ rest) : '\n' ∉ digits ++ rest := by
    intro inside
    rcases List.mem_append.1 inside with here | behind
    · exact not_newline_of_isHexDigit (hex _ here) rfl
    · exact later behind
  induction denotes with
  | nil => exact List.not_mem_nil
  | char own _ later =>
    intro inside
    rcases List.mem_cons.1 inside with rfl | behind
    · simp at own
    · exact later behind
  | @short c meant rest bytes known _ later =>
    have other : c ≠ '\n' := by
      rintro rfl
      simp [shortEscapes] at known
    simp [later, other.symm]
  | octal _ octal _ _ later =>
    have inside := digits (fun digit held => Directive.isHexDigit_of_isOctalDigit (octal digit held)) later
    simpa using inside
  | hex _ hex _ later => simpa using digits hex later
  | @point mark _ _ _ sized hex _ _ later =>
    have other : mark ≠ '\n' := by
      rintro rfl
      simp at sized
    simpa [other.symm] using digits hex later

/-- A set with a backtick and a newline is all that is not written as a literal. -/
theorem isString_toLiteral_iff (tags : TagSet) :
    IsString tags.toLiteral ↔ ¬ ('\x60' ∈ tags.body ∧ '\n' ∈ tags.body) := by
  rw [toLiteral]
  split
  next marked =>
    have backtick : '\x60' ∈ tags.body := by simpa [Text.holds] using marked
    constructor
    · rintro ⟨bytes, stands⟩ ⟨-, line⟩
      generalize written : "\"".toList ++ escape tags.body ++ "\"".toList = literal at stands
      cases stands with
      | raw => cases written
      | interpreted denotes =>
        have same := List.append_cancel_left (List.append_cancel_right written)
        exact newline_not_mem_of_denotes denotes (same ▸ mem_escape line)
    · intro apart
      exact ⟨_, .interpreted (denotes_escape fun line => apart ⟨backtick, line⟩)⟩
  next plain =>
    have open_end : '\x60' ∉ tags.body := fun inside => plain (by simpa [Text.holds] using inside)
    exact iff_of_true ⟨_, .raw open_end⟩ fun both => open_end both.1

/-- Tags that are merged into those of a literal, or into none, are written as a literal of Go exactly if
not both a backtick and a newline are in values. So it is where nothing has a newline, and where tags
without a backtick come into a raw literal. -/
theorem merged_tags_isString_iff (old : Option Text) (text : Text) :
    let merged := ((old.map ofLiteral).getD .empty).merge (parse text)
    (IsString merged.toLiteral ↔
      ¬ ((∃ pair ∈ merged.pairs, '\x60' ∈ pair.2) ∧ ∃ pair ∈ merged.pairs, '\n' ∈ pair.2)) ∧
    ('\n' ∉ text → (∀ literal ∈ old, '\n' ∉ literal) → IsString merged.toLiteral) ∧
    ('\x60' ∉ text → (∀ literal ∈ old, ∃ body, literal = Text.inBackticks body ∧ '\x60' ∉ body) →
      IsString merged.toLiteral) := by
  intro merged
  have read : ((old.map ofLiteral).getD .empty).Read := by
    cases old with
    | none => exact .empty
    | some literal => exact .ofLiteral literal
  have regular := (Read.merge read (.parse text)).regular
  have written := isString_toLiteral_iff merged
  rw [mem_body_iff regular (by decide) (by decide), mem_body_iff regular (by decide) (by decide)] at written
  have incoming {c : Char} (absent : c ∉ text) {pair : Text × Text} (held : pair ∈ (parse text).pairs) :
      c ∉ pair.2 := fun inside =>
    absent (Text.mem_of_mem_trim (Text.mem_of_mem_trimOf (mem_of_mem_parse held inside)))
  refine ⟨written, fun absent lines => written.2 ?_, fun absent raw => written.2 ?_⟩
  · rintro ⟨-, pair, held, line⟩
    rcases mem_merge held with older | newer
    · cases old with
      | none => cases older
      | some literal => exact lines literal rfl (mem_of_mem_ofLiteral older line)
    · exact incoming absent newer line
  · rintro ⟨⟨pair, held, backtick⟩, -⟩
    rcases mem_merge held with older | newer
    · cases old with
      | none => cases older
      | some literal =>
        obtain ⟨body, rfl, open_end⟩ := raw literal rfl
        exact not_backtick_of_raw open_end older backtick
    · exact incoming absent newer backtick

/-- A value of two lines in a raw literal and a backtick in a new value. -/
theorem backtick_and_newline_make_no_string :
    let literal := "\x60a:\"x\ny\"\x60".toList
    let merged := (ofLiteral literal).merge (parse "b:\"\x60\"".toList)
    IsString literal ∧ merged.toLiteral = "\"a:\\\"x\ny\\\" b:\\\"\x60\\\"\"".toList ∧
      ¬ IsString merged.toLiteral := by
  intro literal merged
  refine ⟨⟨_, @StandsFor.raw "a:\"x\ny\"".toList (by decide)⟩, by decide +kernel, ?_⟩
  rw [isString_toLiteral_iff]
  exact fun apart => apart (by decide +kernel)

end TagSet

end GoGraft
