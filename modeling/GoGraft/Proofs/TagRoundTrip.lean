import GoGraft.Proofs.TagMerging
import GoGraft.Proofs.Texts
import GoGraft.Tag.Literal

/-! Tags survive being written and read again. Whatever is read from a text has keys without blanks,
colons, quotes and backticks, and values in which a quote only stands behind a backslash. Merging
adds no others, and a set of such pairs is read back from its literal, raw or interpreted. -/

namespace GoGraft.TagSet

open Text

/-- A value as it stands between its quotes: a backslash takes the next character of its line with
it, and no quote stands alone. -/
inductive Written : Text → Prop
  | nil : Written []
  | plain {c : Char} {rest : Text} (noQuote : c ≠ '\x22') (noBackslash : c ≠ '\\')
      (written : Written rest) : Written (c :: rest)
  | escaped {c : Char} {rest : Text} (sameLine : c ≠ '\n') (written : Written rest) :
      Written ('\\' :: c :: rest)

/-- A key and a value that reading a text can give. -/
structure Regular (pair : Text × Text) : Prop where
  named : pair.1 ≠ []
  key : ∀ c ∈ pair.1, isKeyChar c
  value : Written pair.2

theorem takeValue?_sound {text value rest : Text} (taken : takeValue? text = some (value, rest)) :
    Written value ∧ text = value ++ '\x22' :: rest := by
  fun_induction takeValue? text generalizing value with
  | case1 => cases taken
  | case2 => cases taken; exact ⟨.nil, rfl⟩
  | case3 => cases taken
  | case4 c text sameLine ih =>
    obtain ⟨⟨inner, left⟩, found, same⟩ := Option.map_eq_some_iff.1 taken
    cases same
    obtain ⟨written, split⟩ := ih found
    exact ⟨.escaped sameLine written, by rw [split]; rfl⟩
  | case5 c text noQuote noBackslash ih =>
    obtain ⟨⟨inner, left⟩, found, same⟩ := Option.map_eq_some_iff.1 taken
    cases same
    obtain ⟨written, split⟩ := ih found
    refine ⟨.plain noQuote ?_ written, by rw [split]; rfl⟩
    -- A backslash at the very end has no character behind it, and no value is found there.
    intro backslash
    cases text with
    | nil => cases found
    | cons d text => exact noBackslash d text backslash rfl

theorem takeValue?_complete {value : Text} (written : Written value) (rest : Text) :
    takeValue? (value ++ '\x22' :: rest) = some (value, rest) := by
  induction written with
  | nil => simp [takeValue?]
  | @plain c value noQuote noBackslash written ih =>
    rw [List.cons_append, takeValue?, ih]
    · rfl
    · exact noQuote
    · intro d text backslash
      exact absurd backslash noBackslash
  | @escaped c value sameLine written ih =>
    rw [List.cons_append, List.cons_append, takeValue?, if_neg sameLine, ih]
    rfl

private theorem colon_ends_key (rest : Text) :
    (":\"".toList ++ rest).span isKeyChar = ([], ":\"".toList ++ rest) := by
  simp [List.span, List.span.loop, isKeyChar]

private theorem span_key {key : Text} (valid : ∀ c ∈ key, isKeyChar c) (rest : Text) :
    (key ++ (":\"".toList ++ rest)).span isKeyChar = (key, ":\"".toList ++ rest) := by
  have none_left := colon_ends_key rest
  simp only [List.span_eq_takeWhile_dropWhile, Prod.mk.injEq] at none_left ⊢
  rw [List.takeWhile_append_of_pos valid, List.dropWhile_append_of_pos valid, none_left.1,
    none_left.2]
  simp

theorem takePair?_sound {text rest : Text} {pair : Text × Text}
    (taken : takePair? text = some (pair, rest)) : Regular pair ∧ text = renderPair pair ++ rest := by
  simp only [takePair?, List.span_eq_takeWhile_dropWhile] at taken
  split at taken
  next => cases taken
  next named =>
    split at taken
    next left opened =>
      obtain ⟨⟨value, left'⟩, found, same⟩ := Option.map_eq_some_iff.1 taken
      cases same
      obtain ⟨written, closed⟩ := takeValue?_sound found
      have key : ∀ c ∈ text.takeWhile isKeyChar, isKeyChar c :=
        List.all_eq_true.1 List.all_takeWhile
      refine ⟨⟨by simpa using named, key, written⟩, ?_⟩
      calc text = text.takeWhile isKeyChar ++ text.dropWhile isKeyChar :=
            List.takeWhile_append_dropWhile.symm
        _ = _ := by rw [after?_eq_some.1 opened, closed]; simp [renderPair]
    next => cases taken

theorem takePair?_complete {pair : Text × Text} (regular : Regular pair) (rest : Text) :
    takePair? (renderPair pair ++ rest) = some (pair, rest) := by
  have shape : renderPair pair ++ rest = pair.1 ++ (":\"".toList ++ (pair.2 ++ '\x22' :: rest)) := by
    simp [renderPair]
  have named : pair.1.isEmpty = false := by simp [regular.named]
  simp only [shape, takePair?, span_key regular.key, named, after?_append,
    takeValue?_complete regular.value]
  rfl

/-- The sets that reading texts and literals gives, and that merging makes of them. -/
inductive Read : TagSet → Prop
  | empty : Read .empty
  | parse (text : Text) : Read (parse text)
  | ofLiteral (literal : Text) : Read (ofLiteral literal)
  | merge {older newer : TagSet} (first : Read older) (second : Read newer) :
      Read (older.merge newer)

theorem parse_regular (text : Text) : ∀ pair ∈ (parse text).pairs, Regular pair := by
  intro pair inside
  rcases mem_insertAll inside with before | found
  · simp [empty] at before
  · obtain ⟨place, rest, -, taken⟩ := exists_of_mem_readAll found
    exact (takePair?_sound taken).1

theorem Read.regular {tags : TagSet} (read : Read tags) : ∀ pair ∈ tags.pairs, Regular pair := by
  induction read with
  | empty => simp [TagSet.empty]
  | parse text => exact parse_regular text
  | ofLiteral literal =>
    rw [TagSet.ofLiteral]
    split
    · exact parse_regular _
    · exact parse_regular _
  | merge first second older newer =>
    intro pair inside
    rcases mem_merge inside with held | held
    · exact older pair held
    · exact newer pair held

theorem mem_escape {c : Char} {text : Text} (held : c ∈ text) : c ∈ escape text := by
  refine List.mem_flatMap.2 ⟨c, held, ?_⟩
  split <;> simp

theorem unescape_escape (text : Text) : unescape (escape text) = text := by
  induction text with
  | nil => rfl
  | cons c text ih =>
    have split : escape (c :: text) =
        (if c = '\\' ∨ c = '\x22' then ['\\', c] else [c]) ++ escape text := by
      simp [escape]
    rw [split]
    by_cases special : c = '\\' ∨ c = '\x22'
    · rw [if_pos special]
      simp [unescape, ih]
    · rw [if_neg special]
      obtain ⟨noBackslash, -⟩ := not_or.1 special
      cases written : escape text with
      | nil => simp_all [unescape]
      | cons d rest => simp_all [unescape]

private theorem takePair?_blank (rest : Text) : takePair? (' ' :: rest) = none := by
  have skipped : (' ' :: rest).takeWhile isKeyChar = [] := by
    simp [isKeyChar, isBlank]
  simp [takePair?, skipped]

/-- Pairs with a space between them are read one by one. -/
theorem readAll_join {pairs : List (Text × Text)} (regular : ∀ pair ∈ pairs, Regular pair) :
    readAll takePair? 0 (join " ".toList (pairs.map renderPair)) = pairs := by
  have rendered (pair : Text × Text) : renderPair pair ≠ [] := by simp [renderPair]
  induction pairs with
  | nil => rfl
  | cons pair pairs ih =>
    have first := takePair?_complete (regular pair (by simp))
    have others := ih fun other inside => regular other (List.mem_cons_of_mem _ inside)
    cases pairs with
    | nil =>
      have alone := readAll_append (rendered pair) (first [])
      simpa [join, readAll] using alone
    | cons next pairs =>
      simp only [List.map_cons, join, List.append_assoc]
      rw [readAll_append (rendered pair) (first _)]
      rw [show " ".toList = [' '] from rfl, List.singleton_append,
        readAll_cons_of_none (takePair?_blank _)]
      exact congrArg (pair :: ·) others

private theorem getLast?_renderPair (pair : Text × Text) :
    (renderPair pair).getLast? = some '\x22' := by
  rw [renderPair, List.getLast?_append]
  rfl

private theorem getLast?_join (pair : Text × Text) (pairs : List (Text × Text)) :
    (join " ".toList ((pair :: pairs).map renderPair)).getLast? = some '\x22' := by
  induction pairs generalizing pair with
  | nil => exact getLast?_renderPair pair
  | cons next pairs ih =>
    rw [List.map_cons, List.map_cons, join, List.getLast?_append, ← List.map_cons, ih next]
    · rfl
    · simp

private theorem head?_join {pair : Text × Text} (regular : Regular pair) (pairs : List (Text × Text))
    {c : Char} (first : (join " ".toList ((pair :: pairs).map renderPair)).head? = some c) :
    isKeyChar c := by
  apply regular.key c
  obtain ⟨d, key, same⟩ := List.exists_cons_of_ne_nil regular.named
  cases pairs <;> simp_all [join, renderPair]

/-- What stands at the two ends of a written set is no blank and no backtick. -/
theorem body_ends {tags : TagSet} (regular : ∀ pair ∈ tags.pairs, Regular pair) :
    (∀ c, tags.body.head? = some c → isKeyChar c) ∧
      ∀ c, tags.body.getLast? = some c → c = '\x22' := by
  rw [body]
  cases held : tags.pairs with
  | nil => simp [join]
  | cons pair pairs =>
    refine ⟨fun c first => head?_join (regular pair (by simp [held])) pairs first, ?_⟩
    intro c last
    rw [getLast?_join] at last
    exact (Option.some.inj last).symm

private theorem not_blank_of_isKeyChar {c : Char} (key : isKeyChar c) : isBlank c = false := by
  simp_all [isKeyChar]

private theorem not_backtick_of_isKeyChar {c : Char} (key : isKeyChar c) : (c == '\x60') = false := by
  simp_all [isKeyChar]

theorem parse_body {tags : TagSet} (regular : ∀ pair ∈ tags.pairs, Regular pair) :
    parse tags.body = tags := by
  obtain ⟨first, last⟩ := body_ends regular
  have noBlank : trim tags.body = tags.body := by
    apply trim_of_ends
    · exact fun c head => not_blank_of_isKeyChar (first c head)
    · exact fun c tail => last c tail ▸ rfl
  have noBacktick : trimOf '\x60' tags.body = tags.body := by
    apply trimOf_of_ends
    · exact fun c head => not_backtick_of_isKeyChar (first c head)
    · exact fun c tail => last c tail ▸ rfl
  rw [parse, noBlank, noBacktick, body, readAll_join regular, ofPairs_pairs]

theorem parse_inBackticks_body {tags : TagSet} (regular : ∀ pair ∈ tags.pairs, Regular pair) :
    parse (inBackticks tags.body) = tags := by
  obtain ⟨first, last⟩ := body_ends regular
  have noBacktick : trimOf '\x60' (inBackticks tags.body) = tags.body := by
    apply trimOf_inBackticks
    · exact fun c head => not_backtick_of_isKeyChar (first c head)
    · exact fun c tail => last c tail ▸ rfl
  rw [parse, trim_inBackticks, noBacktick, body, readAll_join regular, ofPairs_pairs]

theorem unquote?_inQuotes (text : Text) :
    unquote? ("\"".toList ++ text ++ "\"".toList) = some text := by
  have opened : after? ['\x22'] ("\"".toList ++ text ++ "\"".toList) = some (text ++ ['\x22']) := by
    simp [after?_eq_some]
  rw [unquote?, opened, Option.bind_some, before?_eq_some]

theorem ofLiteral_inBackticks (text : Text) : ofLiteral (inBackticks text) = parse (inBackticks text) := by
  simp [ofLiteral, unquote?, inBackticks, after?]

theorem ofLiteral_toLiteral {tags : TagSet} (regular : ∀ pair ∈ tags.pairs, Regular pair) :
    ofLiteral tags.toLiteral = tags := by
  rw [toLiteral]
  split
  next =>
    rw [ofLiteral, unquote?_inQuotes]
    simp only [unescape_escape, parse_body regular]
  next => rw [ofLiteral_inBackticks, parse_inBackticks_body regular]

/-- A set that was read or merged is read back from its literal, whichever form the literal has. -/
theorem literal_round_trip {tags : TagSet} (read : Read tags) :
    ofLiteral tags.toLiteral = tags :=
  ofLiteral_toLiteral read.regular

/-- A value with an escaped quote keeps the raw form, one with a backtick takes the other. -/
theorem literal_round_trip_of_both_forms :
    let quoted := (parse "json:\"id\" doc:\"a\\\"b\"".toList).merge (parse "\x60json:\"-\"\x60".toList)
    let ticked := quoted.merge (ofLiteral "\"xml:\\\"use \x60x\x60\\\"\"".toList)
    quoted.toLiteral = "\x60doc:\"a\\\"b\" json:\"-\"\x60".toList ∧
      ofLiteral quoted.toLiteral = quoted ∧
      ticked.toLiteral.head? = some '\x22' ∧ ofLiteral ticked.toLiteral = ticked := by
  intro quoted ticked
  have quotedRead : Read quoted := .merge (.parse _) (.parse _)
  have tickedRead : Read ticked := .merge quotedRead (.ofLiteral _)
  exact ⟨by decide +kernel, literal_round_trip quotedRead, by decide +kernel,
    literal_round_trip tickedRead⟩

end GoGraft.TagSet
