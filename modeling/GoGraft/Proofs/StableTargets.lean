import GoGraft.Proofs.Marks
import Mathlib.Data.List.Pairwise

/-! The target of a tag directive, before and after its tags were merged into the tag of its line. The
target is the name in the `protobuf` tag. Merging sorts that tag among others and may write it with
other quotes. As long as it stays a raw literal and has the only `protobuf` mark, the name is found
again; in an interpreted literal the mark is not found, and the first name marker takes its place. -/

namespace GoGraft

open Text

namespace Directive

/-- What a `protobuf` tag starts with. -/
def protobufMark : Text :=
  "protobuf:\"".toList

theorem protobufMark_eq : protobufMark = "protobuf:".toList ++ ['\x22'] := by
  decide

/-- The last name in front of the first quote of a `protobuf` value. -/
def protobufNameIn? (value : Text) : Option Text :=
  lastNameMarker? (some '\x22') (value.takeWhile (· != '\x22'))

theorem protobufNameAt?_eq (text : Text) :
    protobufNameAt? text = (after? protobufMark text).bind protobufNameIn? := by
  unfold protobufNameAt? protobufMark protobufNameIn?
  generalize after? "protobuf:\"".toList text = found
  cases found <;> rfl

theorem protobufNameIn?_closed (value rest : Text) :
    protobufNameIn? (value ++ '\x22' :: rest) = protobufNameIn? value := by
  rw [protobufNameIn?, protobufNameIn?, takeWhile_cut (by decide)]

theorem opens_of_protobufNameAt? {place : Text} (found : (protobufNameAt? place).isSome) :
    protobufMark <+: place := by
  rw [protobufNameAt?_eq, Option.isSome_bind] at found
  obtain ⟨rest, here, -⟩ := Option.any_eq_true _ _ |>.1 found
  exact ⟨rest, (after?_eq_some.1 here).symm⟩

/-- The first mark is the one that counts if its value has a name. -/
theorem protobufName?_first {front rest name : Text} (none : ¬ protobufMark <:+: front)
    (named : protobufNameIn? rest = some name) :
    protobufName? (front ++ (protobufMark ++ rest)) = some name := by
  have clear : Clear protobufMark front (protobufMark ++ rest) := by
    rw [protobufMark_eq] at none ⊢
    exact clear_of_close (by decide) none rest
  have here : protobufNameAt? (protobufMark ++ rest) = some name := by
    rw [protobufNameAt?_eq, after?_append, Option.bind_some, named]
  rw [protobufName?, firstSuffix_clear (fun _ => opens_of_protobufNameAt?) clear]
  cases text : protobufMark ++ rest with
  | nil => rw [firstSuffix, ← text, here]
  | cons c tail => rw [firstSuffix, ← text, here]

theorem protobufName?_once {front rest : Text} (before : ¬ protobufMark <:+: front)
    (behind : ¬ protobufMark <:+: rest) :
    protobufName? (front ++ (protobufMark ++ rest)) = protobufNameIn? rest := by
  cases named : protobufNameIn? rest with
  | some name => exact protobufName?_first before named
  | none =>
    rw [protobufName?, firstSuffix_eq_none]
    rintro place ⟨start, same⟩
    rw [protobufNameAt?_eq, Option.bind_eq_none_iff]
    intro other here
    rw [after?_eq_some.1 here] at same
    rw [protobufMark_eq] at same before behind
    obtain ⟨-, rfl⟩ := place_unique (by decide) same before behind
    exact named

theorem protobufName?_none {text : Text} (none : ¬ protobufMark <:+: text) :
    protobufName? text = .none := by
  rw [protobufName?, firstSuffix_eq_none]
  intro place inside
  rw [← Option.not_isSome_iff_eq_none]
  intro found
  exact none ((opens_of_protobufNameAt? found).isInfix.trans inside.isInfix)

section Names

variable {c : Char} (noWord : isWordChar c = false) (other : c ∉ "name=".toList)

theorem nameAt?_of_isWordAt {first second : Option Char} (same : isWordAt first = isWordAt second)
    (text : Text) : nameAt? first text = nameAt? second text := by
  rw [nameAt?, nameAt?, same]

theorem nameMarker_of_isWordAt {first second : Option Char} (same : isWordAt first = isWordAt second)
    (text : Text) : firstSuffix nameAt? first text = firstSuffix nameAt? second text := by
  cases text with
  | nil => exact nameAt?_of_isWordAt same []
  | cons d text => rw [firstSuffix, firstSuffix, nameAt?_of_isWordAt same]

include noWord other

theorem nameAt?_cut (previous : Option Char) (front back : Text) :
    nameAt? previous (front ++ c :: back) = nameAt? previous front := by
  have word (rest : Text) : (takeWord (rest ++ c :: back)).1 = (takeWord rest).1 := by
    simp only [takeWord, List.span_eq_takeWhile_dropWhile]
    exact takeWhile_cut noWord rest back
  rw [nameAt?, nameAt?, after?_cut other]
  cases after? "name=".toList front with
  | none => rfl
  | some rest => simp only [Option.map_some, word]

theorem nameMarker_cut (previous : Option Char) (front back : Text) :
    firstSuffix nameAt? previous (front ++ c :: back) =
      (firstSuffix nameAt? previous front).or (nameMarker? back) := by
  induction front generalizing previous with
  | nil =>
    have empty : nameAt? previous [] = none := by
      rw [nameAt?]
      split <;> rfl
    have here : nameAt? previous (c :: back) = none :=
      (nameAt?_cut noWord other previous [] back).trans empty
    simp only [List.nil_append, firstSuffix, here, empty, Option.none_or]
    exact nameMarker_of_isWordAt (by simp [isWordAt, noWord]) back
  | cons d front ih =>
    have here := nameAt?_cut noWord other previous (d :: front) back
    rw [List.cons_append] at here ⊢
    rw [firstSuffix, here, firstSuffix, ih (some d)]
    cases nameAt? previous (d :: front) <;> rfl

end Names

theorem nameMarker_none {text : Text} (none : ¬ "name=".toList <:+: text) (previous : Option Char) :
    firstSuffix nameAt? previous text = .none := by
  have here {place : Text} (without : ¬ "name=".toList <+: place) (before : Option Char) :
      nameAt? before place = .none := by
    rw [nameAt?]
    split
    · rfl
    · cases found : after? "name=".toList place with
      | none => rfl
      | some rest => exact absurd ⟨rest, (after?_eq_some.1 found).symm⟩ without
  induction text generalizing previous with
  | nil => exact here (by decide) previous
  | cons c text ih =>
    rw [List.infix_cons_iff, not_or] at none
    rw [firstSuffix, here none.1]
    exact ih none.2 (some c)

end Directive

namespace TagSet

open Directive

section Escapes

theorem escape_cons_of_special {c : Char} (special : c = '\\' ∨ c = '\x22') (text : Text) :
    escape (c :: text) = '\\' :: c :: escape text := by
  rw [escape, List.flatMap_cons, if_pos special]
  rfl

theorem escape_cons_of_plain {c : Char} (plain : ¬ (c = '\\' ∨ c = '\x22')) (text : Text) :
    escape (c :: text) = c :: escape text := by
  rw [escape, List.flatMap_cons, if_neg plain]
  rfl

theorem escape_append (front back : Text) : escape (front ++ back) = escape front ++ escape back :=
  List.flatMap_append

variable {mark : Text} (plain : '\\' ∉ mark ∧ '\x22' ∉ mark)

include plain

theorem not_special {c : Char} (held : c ∈ mark) : ¬ (c = '\\' ∨ c = '\x22') := by
  rintro (rfl | rfl)
  · exact plain.1 held
  · exact plain.2 held

theorem after?_escape (text : Text) : after? mark (escape text) = (after? mark text).map escape := by
  induction mark generalizing text with
  | nil => rfl
  | cons m mark ih =>
    have rest := ih ⟨fun inside => plain.1 (List.mem_cons_of_mem _ inside),
      fun inside => plain.2 (List.mem_cons_of_mem _ inside)⟩
    have first := not_special plain List.mem_cons_self
    cases text with
    | nil => rfl
    | cons c text =>
      by_cases special : c = '\\' ∨ c = '\x22'
      · have ne : (m == c) = false := by
          rw [beq_eq_false_iff_ne]
          rintro rfl
          exact first special
        have slash : (m == '\\') = false := by
          rw [beq_eq_false_iff_ne]
          exact fun same => first (Or.inl same)
        simp [escape_cons_of_special special, after?, ne, slash]
      · simp only [escape_cons_of_plain special, after?]
        split
        · exact rest text
        · rfl

omit plain in
theorem exists_of_infix_escape {first : Char} (head : mark.head? = some first)
    (plain : ¬ (first = '\\' ∨ first = '\x22')) {text : Text} (inside : mark <:+: escape text) :
    ∃ rest, rest <:+ text ∧ mark <+: escape rest := by
  obtain ⟨mark, rfl⟩ := List.head?_eq_some_iff.1 head
  have other {c : Char} {rest : Text} (special : c = '\\' ∨ c = '\x22') :
      ¬ first :: mark <+: c :: rest := by
    intro opens
    obtain ⟨rfl, -⟩ := List.cons_prefix_cons.1 opens
    exact plain special
  induction text with
  | nil => simp [escape] at inside
  | cons c text ih =>
    by_cases special : c = '\\' ∨ c = '\x22'
    · rw [escape_cons_of_special special, List.infix_cons_iff, List.infix_cons_iff] at inside
      have later := (inside.resolve_left (other (Or.inl rfl))).resolve_left (other special)
      obtain ⟨rest, behind, opens⟩ := ih later
      exact ⟨rest, behind.trans (List.suffix_cons c text), opens⟩
    · rw [escape_cons_of_plain special, List.infix_cons_iff] at inside
      rcases inside with opens | later
      · exact ⟨c :: text, List.suffix_rfl, by rwa [escape_cons_of_plain special]⟩
      · obtain ⟨rest, behind, opens⟩ := ih later
        exact ⟨rest, behind.trans (List.suffix_cons c text), opens⟩

theorem infix_of_escape {text : Text} (inside : mark <:+: escape text) : mark <:+: text := by
  rcases head : mark.head? with _ | first
  · exact List.head?_eq_none_iff.1 head ▸ ⟨[], text, rfl⟩
  have plainFirst := not_special plain (List.mem_of_mem_head? head)
  obtain ⟨rest, behind, more, shape⟩ := exists_of_infix_escape head plainFirst inside
  have found := after?_escape plain rest
  rw [after?_eq_some.2 shape.symm] at found
  obtain ⟨left, here, -⟩ := Option.map_eq_some_iff.1 found.symm
  exact List.IsInfix.trans ⟨[], left, by simpa using (after?_eq_some.1 here).symm⟩ behind.isInfix

end Escapes

theorem takeWord_escape (text : Text) : (takeWord (escape text)).1 = (takeWord text).1 := by
  simp only [takeWord, List.span_eq_takeWhile_dropWhile]
  induction text with
  | nil => rfl
  | cons c text ih =>
    by_cases special : c = '\\' ∨ c = '\x22'
    · have noWord : isWordChar c = false := by rcases special with rfl | rfl <;> decide
      rw [escape_cons_of_special special, List.takeWhile_cons_of_neg (by decide),
        List.takeWhile_cons_of_neg (by simp [noWord])]
    · rw [escape_cons_of_plain special, List.takeWhile_cons, List.takeWhile_cons, ih]

theorem nameAt?_escape (previous : Option Char) (text : Text) :
    nameAt? previous (escape text) = nameAt? previous text := by
  rw [nameAt?, nameAt?, after?_escape (by decide)]
  cases after? "name=".toList text with
  | none => rfl
  | some rest => simp only [Option.map_some, takeWord_escape]

theorem nameMarker_escape (previous : Option Char) (text : Text) :
    firstSuffix nameAt? previous (escape text) = firstSuffix nameAt? previous text := by
  have passed {c : Char} (special : c = '\\' ∨ c = '\x22') (before : Option Char) (rest : Text) :
      firstSuffix nameAt? before (c :: rest) = nameMarker? rest := by
    have noWord : isWordChar c = false := by rcases special with rfl | rfl <;> decide
    have other : c ∉ "name=".toList := by rcases special with rfl | rfl <;> decide
    have nothing : firstSuffix nameAt? before [] = none := nameMarker_none (by decide) before
    have cut := nameMarker_cut noWord other before [] rest
    rwa [nothing, Option.none_or] at cut
  induction text generalizing previous with
  | nil => rfl
  | cons c text ih =>
    by_cases special : c = '\\' ∨ c = '\x22'
    · rw [escape_cons_of_special special, passed (Or.inl rfl), nameMarker?, passed special,
        passed special]
      exact ih none
    · have here := nameAt?_escape previous (c :: text)
      rw [escape_cons_of_plain special] at here ⊢
      rw [firstSuffix, firstSuffix, here, ih]

/-- Each quote in an escaped text stands behind a backslash, and so no value starts there. -/
theorem not_infix_escape (text : Text) : ¬ protobufMark <:+: escape text := by
  intro inside
  obtain ⟨rest, -, more, shape⟩ := exists_of_infix_escape rfl (by decide) inside
  have found := @after?_escape "protobuf:".toList (by decide) rest
  rw [← shape, protobufMark_eq, List.append_assoc, after?_append] at found
  obtain ⟨left, -, opens⟩ := Option.map_eq_some_iff.1 found.symm
  cases left with
  | nil => simp [escape] at opens
  | cons c left =>
    by_cases special : c = '\\' ∨ c = '\x22'
    · rw [escape_cons_of_special special] at opens
      exact absurd (List.cons.inj opens).1 (by decide)
    · rw [escape_cons_of_plain special] at opens
      exact special (Or.inr (List.cons.inj opens).1)

/-! ## Pairs in a text -/

theorem mem_of_mem_ofPairs {pairs : List (Text × Text)} {pair : Text × Text}
    (held : pair ∈ (ofPairs pairs).pairs) : pair ∈ pairs :=
  (mem_insertAll held).resolve_left (by simp [empty])

theorem renderPair_infix_of_mem {text : Text} {pair : Text × Text}
    (held : pair ∈ readAll takePair? 0 text) : renderPair pair <:+: text := by
  obtain ⟨place, rest, behind, taken⟩ := exists_of_mem_readAll held
  have opens : renderPair pair <+: place := ⟨rest, (takePair?_sound taken).2.symm⟩
  exact opens.isInfix.trans behind.isInfix

/-- Two pairs that are read do not overlap. -/
theorem readAll_apart (text : Text) : (readAll takePair? 0 text).Pairwise fun left right =>
    ∃ between, renderPair left ++ (between ++ renderPair right) <:+: text := by
  induction length : text.length using Nat.strong_induction_on generalizing text with
  | h size ih =>
    cases text with
    | nil => exact List.Pairwise.nil
    | cons c text =>
      cases taken : takePair? (c :: text) with
      | none =>
        rw [readAll_cons_of_none taken]
        refine (ih _ (by simp [← length]) text rfl).imp ?_
        rintro left right ⟨between, inside⟩
        exact ⟨between, inside.trans (List.suffix_cons c text).isInfix⟩
      | some found =>
        obtain ⟨pair, rest⟩ := found
        obtain ⟨regular, shape⟩ := takePair?_sound taken
        have filled : renderPair pair ≠ [] := by simp [renderPair]
        have shorter : rest.length < size := by
          rw [← length, shape, List.length_append]
          have := List.length_pos_of_ne_nil filled
          omega
        rw [shape] at taken ⊢
        rw [readAll_append filled taken, List.pairwise_cons]
        constructor
        · intro right held
          obtain ⟨between, behind, rest⟩ := renderPair_infix_of_mem held
          exact ⟨between, [], behind, by simp [← rest]⟩
        · refine (ih _ shorter rest rfl).imp ?_
          rintro left right ⟨between, inside⟩
          exact ⟨between, inside.trans (List.suffix_append _ _).isInfix⟩

theorem ofLiteral_raw {inner : Text} (raw : '\x60' ∉ inner) :
    ofLiteral (inBackticks inner) = ofPairs (readAll takePair? 0 inner) := by
  rw [ofLiteral_inBackticks, parse, trim_inBackticks, trimOf_inBackticks]
  · intro c first
    exact beq_false_of_ne fun same => raw (same ▸ List.mem_of_mem_head? first)
  · intro c last
    exact beq_false_of_ne fun same => raw (same ▸ List.mem_of_getLast? last)

/-- A tag in which the `protobuf` key with this value is the one place of its mark. -/
def Carries (value body : Text) : Prop :=
  ∃ before behind, body = before ++ (protobufMark ++ (value ++ '\x22' :: behind)) ∧
    ¬ protobufMark <:+: before ∧ ¬ protobufMark <:+: value ++ '\x22' :: behind

theorem renderPair_protobuf (value behind : Text) :
    renderPair ("protobuf".toList, value) ++ behind = protobufMark ++ (value ++ '\x22' :: behind) := by
  have mark : "protobuf".toList ++ ":\"".toList = protobufMark := by decide
  rw [renderPair, mark, List.append_assoc, List.append_assoc]
  rfl

theorem carries_of_mem {inner value : Text} (lone : ¬ Repeats protobufMark inner)
    (held : ("protobuf".toList, value) ∈ readAll takePair? 0 inner) : Carries value inner := by
  obtain ⟨before, behind, shape⟩ := renderPair_infix_of_mem held
  have body : inner = before ++ (protobufMark ++ (value ++ '\x22' :: behind)) := by
    rw [← shape, List.append_assoc, renderPair_protobuf]
  exact ⟨before, behind, body, not_repeats (body ▸ lone)⟩

/-- Of two pairs that are read one has no mark. -/
theorem not_infix_of_ne {mark inner : Text} (lone : ¬ Repeats mark inner) {left right : Text × Text}
    (first : left ∈ readAll takePair? 0 inner) (second : right ∈ readAll takePair? 0 inner)
    (different : left ≠ right) (inside : mark <:+: renderPair left) : ¬ mark <:+: renderPair right := by
  have apart : (readAll takePair? 0 inner).Pairwise fun left right =>
      ¬ (mark <:+: renderPair left ∧ mark <:+: renderPair right) := by
    refine (readAll_apart inner).imp ?_
    rintro left right ⟨between, start, stop, shape⟩ ⟨⟨a, b, one⟩, ⟨c, d, two⟩⟩
    refine lone ⟨b ++ (between ++ c), start ++ a, d ++ stop, ?_⟩
    simp [← shape, ← one, ← two]
  have symmetric : Std.Symm fun left right : Text × Text =>
      ¬ (mark <:+: renderPair left ∧ mark <:+: renderPair right) :=
    ⟨fun left right without both => without both.symm⟩
  exact fun other => apart.forall first second different ⟨inside, other⟩

theorem carries_body {tags : TagSet} {value : Text} (held : ("protobuf".toList, value) ∈ tags.pairs)
    (others : ∀ pair ∈ tags.pairs, pair ≠ ("protobuf".toList, value) → ¬ protobufMark <:+: renderPair pair)
    {rest : Text} (clean : ¬ protobufMark <:+: value ++ '\x22' :: rest) : Carries value tags.body := by
  obtain ⟨left, right, shape⟩ := List.append_of_mem held
  have sorted := tags.sorted
  rw [shape, List.pairwise_append, List.pairwise_cons] at sorted
  have noneLeft : ∀ text ∈ left.map renderPair, ¬ protobufMark <:+: text := by
    intro text inside
    obtain ⟨pair, member, rfl⟩ := List.mem_map.1 inside
    have less := sorted.2.2 pair member _ List.mem_cons_self
    refine others pair (by simp [shape, member]) ?_
    rintro rfl
    exact List.lt_irrefl _ less
  have noneRight : ∀ text ∈ right.map renderPair, ¬ protobufMark <:+: text := by
    intro text inside
    obtain ⟨pair, member, rfl⟩ := List.mem_map.1 inside
    have less := sorted.2.1.1 pair member
    refine others pair (by simp [shape, member]) ?_
    rintro rfl
    exact List.lt_irrefl _ less
  obtain ⟨before, behind, joined, noneBefore, noneBehind⟩ := 
    @exists_join_around protobufMark ' ' (by decide) (by decide) _ _
      (renderPair ("protobuf".toList, value)) noneLeft noneRight
  refine ⟨before, behind, ?_, noneBefore, ?_⟩
  · rw [body, shape, List.map_append, List.map_cons, ← renderPair_protobuf]
    exact joined
  · rw [protobufMark_eq, infix_close (by decide), not_or, not_or] at clean
    rw [protobufMark_eq] at noneBehind ⊢
    rw [infix_close (by decide), not_or, not_or]
    exact ⟨clean.1, clean.2.1, noneBehind⟩

theorem Carries.nameMarker {value body : Text} (carries : Carries value body)
    (named : (nameMarker? value).isSome) : (nameMarker? body).isSome := by
  obtain ⟨before, behind, rfl, -, -⟩ := carries
  have shape : before ++ (protobufMark ++ (value ++ '\x22' :: behind)) =
      (before ++ "protobuf:".toList) ++ '\x22' :: (value ++ '\x22' :: behind) := by
    rw [protobufMark_eq]
    simp
  rw [shape, nameMarker?, nameMarker_cut (by decide) (by decide), nameMarker?,
    nameMarker_cut (by decide) (by decide)]
  rw [nameMarker?] at named
  simp [named]

theorem mem_of_get? {tags : TagSet} {key value : Text} (found : tags.get? key = some value) :
    (key, value) ∈ tags.pairs := by
  obtain ⟨pair, here, rfl⟩ := Option.map_eq_some_iff.1 found
  have same : pair.1 = key := by simpa using List.find?_some here
  exact same ▸ List.mem_of_find?_eq_some here

theorem ne_of_get?_none {tags : TagSet} {key : Text} (none : tags.get? key = .none)
    {pair : Text × Text} (held : pair ∈ tags.pairs) : pair.1 ≠ key := by
  have without := List.find?_eq_none.1 (Option.map_eq_none_iff.1 none) pair held
  simpa using without

theorem renderPair_infix_of_parse {text : Text} {pair : Text × Text} (held : pair ∈ (parse text).pairs) :
    renderPair pair <:+: text := by
  have back (drops : Char → Bool) (text : Text) : (text.reverse.dropWhile drops).reverse <:+: text := by
    have ends := List.dropWhile_suffix drops (l := text.reverse)
    rw [← List.reverse_prefix, List.reverse_reverse] at ends
    exact ends.isInfix
  have front (drops : Char → Bool) (text : Text) : text.dropWhile drops <:+: text :=
    (List.dropWhile_suffix drops).isInfix
  refine (renderPair_infix_of_mem (mem_of_mem_ofPairs held)).trans ?_
  exact (back _ _).trans ((front _ _).trans ((back _ _).trans (front _ _)))

section Merging

variable {inner tags value : Text} (raw : '\x60' ∉ inner)

include raw

theorem infix_of_mem_merge {pair : Text × Text}
    (held : pair ∈ ((ofLiteral (inBackticks inner)).merge (parse tags)).pairs) :
    renderPair pair <:+: inner ∨ renderPair pair <:+: tags := by
  rcases mem_merge held with older | newer
  · rw [ofLiteral_raw raw] at older
    exact Or.inl (renderPair_infix_of_mem (mem_of_mem_ofPairs older))
  · exact Or.inr (renderPair_infix_of_parse newer)

theorem carries_inner (held : (ofLiteral (inBackticks inner)).get? "protobuf".toList = some value)
    (lone : ¬ Repeats protobufMark inner) : Carries value inner := by
  rw [ofLiteral_raw raw] at held
  exact carries_of_mem lone (mem_of_mem_ofPairs (mem_of_get? held))

theorem carries_merge (held : (ofLiteral (inBackticks inner)).get? "protobuf".toList = some value)
    (apart : (parse tags).get? "protobuf".toList = none) (lone : ¬ Repeats protobufMark inner)
    (without : ¬ protobufMark <:+: tags) :
    Carries value ((ofLiteral (inBackticks inner)).merge (parse tags)).body := by
  obtain ⟨-, rest, -, -, clean⟩ := carries_inner raw held lone
  have kept : ("protobuf".toList, value) ∈ ((ofLiteral (inBackticks inner)).merge (parse tags)).pairs :=
    mem_insertAll_of_forall_ne (mem_of_get? held) fun other inside => (ne_of_get?_none apart inside).symm
  refine carries_body kept (fun pair member different => ?_) clean
  rcases mem_merge member with older | newer
  · have mark : protobufMark <:+: renderPair ("protobuf".toList, value) :=
      ⟨[], value ++ ['\x22'], by simpa using (renderPair_protobuf value []).symm⟩
    have first := mem_of_get? held
    rw [ofLiteral_raw raw] at older first
    exact not_infix_of_ne lone (mem_of_mem_ofPairs first) (mem_of_mem_ofPairs older) different.symm mark
  · exact fun inside => without (inside.trans (renderPair_infix_of_parse newer))

theorem unmarked_merge (unmarked : ¬ tagsMarker <:+: inner ∧ ¬ tagsMarker <:+: tags) :
    ¬ tagsMarker <:+: ((ofLiteral (inBackticks inner)).merge (parse tags)).body := by
  refine not_infix_join (by decide) (by decide) fun text member => ?_
  obtain ⟨pair, held, rfl⟩ := List.mem_map.1 member
  intro inside
  rcases infix_of_mem_merge raw held with older | newer
  · exact unmarked.1 (inside.trans older)
  · exact unmarked.2 (inside.trans newer)

end Merging

end TagSet

namespace Directive

open TagSet

theorem opens_of_contentAt? {place : Text} (found : (contentAt? tagsMarker place).isSome) :
    tagsMarker <+: place := by
  cases here : after? tagsMarker place with
  | none => simp [contentAt?, here] at found
  | some rest => exact ⟨rest, (after?_eq_some.1 here).symm⟩

theorem exists_split {comment tags : Text} (directive : tags? comment = some tags) :
    ∃ before rest, splitAt? tagsMarker comment = some (before, rest) ∧ before <:+: comment := by
  have inside : tagsMarker <:+: comment := by
    by_contra none
    have nothing : firstSuffix (fun _ => contentAt? tagsMarker) .none comment = .none := by
      refine (firstSuffix_eq_none _).2 fun place behind => ?_
      rw [← Option.not_isSome_iff_eq_none]
      exact fun found => none ((opens_of_contentAt? found).isInfix.trans behind.isInfix)
    simp [tags?, nothing] at directive
  obtain ⟨⟨before, rest⟩, split⟩ := Option.isSome_iff_exists.1 (isSome_splitAt? inside)
  exact ⟨before, rest, split, [], tagsMarker ++ rest, (splitAt?_sound split).symm⟩

section Line

variable {quote : Char} (isQuote : quote ∈ ['\x60', '\x22']) {front text comment : Text}
  (unmarked : ¬ tagsMarker <:+: front ∧ ¬ tagsMarker <:+: text)

include isQuote unmarked

theorem clear_line : Clear tagsMarker (front ++ quote :: (text ++ [quote])) comment := by
  have other : quote ∉ tagsMarker := by
    rcases List.mem_pair.1 isQuote with rfl | rfl <;> decide
  have none : ¬ tagsMarker <:+: front ++ quote :: (text ++ [quote]) := by
    rw [infix_cut other, infix_cut other]
    simp only [not_or]
    exact ⟨unmarked.1, unmarked.2, by decide⟩
  rw [← List.cons_append, ← List.append_assoc] at none ⊢
  exact clear_of_cut other none comment

/-- The directive behind a tag is that of the line. -/
theorem tags?_line : tags? (front ++ quote :: (text ++ [quote]) ++ comment) = tags? comment := by
  rw [tags?, tags?, firstSuffix_clear (fun _ => opens_of_contentAt?) (clear_line isQuote unmarked)]

theorem tagTarget?_line {before rest : Text} (split : splitAt? tagsMarker comment = some (before, rest))
    (nameless : ¬ "name=".toList <:+: front) (named : (nameMarker? text).isSome) :
    tagTarget? (front ++ quote :: (text ++ [quote]) ++ comment) =
      (protobufName? (front ++ quote :: (text ++ quote :: before))).or (nameMarker? text) := by
  have noWord : isWordChar quote = false := by
    rcases List.mem_pair.1 isQuote with rfl | rfl <;> decide
  have other : quote ∉ "name=".toList := by
    rcases List.mem_pair.1 isQuote with rfl | rfl <;> decide
  have shape : front ++ quote :: (text ++ [quote]) ++ before =
      front ++ quote :: (text ++ quote :: before) := by simp
  obtain ⟨name, found⟩ := Option.isSome_iff_exists.1 named
  have first : nameMarker? (front ++ quote :: (text ++ quote :: before)) = some name := by
    rw [nameMarker?, nameMarker_cut noWord other, nameMarker_none nameless, Option.none_or,
      nameMarker?, nameMarker_cut noWord other]
    rw [nameMarker?] at found
    simp [found]
  rw [tagTarget?, splitAt?_clear (clear_line isQuote unmarked), split]
  simp only [Option.map_some, shape, first, found]
  cases protobufName? (front ++ quote :: (text ++ quote :: before)) <;> rfl

end Line

section Literals

variable {front before value body : Text} (carries : Carries value body)

include carries

theorem protobufName?_raw (plain : ¬ protobufMark <:+: front) {name : Text}
    (named : protobufNameIn? value = some name) :
    protobufName? (front ++ '\x60' :: (body ++ '\x60' :: before)) = some name := by
  obtain ⟨start, behind, rfl, none, -⟩ := carries
  have shape : front ++ '\x60' :: (start ++ (protobufMark ++ (value ++ '\x22' :: behind)) ++ '\x60' :: before) =
      (front ++ '\x60' :: start) ++ (protobufMark ++ (value ++ '\x22' :: (behind ++ '\x60' :: before))) := by
    simp
  rw [shape]
  refine protobufName?_first ?_ (by rw [protobufNameIn?_closed, named])
  rw [infix_cut (by decide), not_or]
  exact ⟨plain, none⟩

theorem protobufName?_raw_once (plain : ¬ protobufMark <:+: front) (without : ¬ protobufMark <:+: before) :
    protobufName? (front ++ '\x60' :: (body ++ '\x60' :: before)) = protobufNameIn? value := by
  obtain ⟨start, behind, rfl, none, clean⟩ := carries
  have shape : front ++ '\x60' :: (start ++ (protobufMark ++ (value ++ '\x22' :: behind)) ++ '\x60' :: before) =
      (front ++ '\x60' :: start) ++ (protobufMark ++ (value ++ '\x22' :: behind ++ '\x60' :: before)) := by
    simp
  rw [shape, protobufName?_once]
  · rw [List.append_assoc, List.cons_append, protobufNameIn?_closed]
  · rw [infix_cut (by decide), not_or]
    exact ⟨plain, none⟩
  · rw [infix_cut (by decide), not_or]
    exact ⟨clean, without⟩

omit carries in
/-- The mark is not found in an interpreted literal, where its quote is escaped. -/
theorem protobufName?_interpreted (ends : ∀ c, body.getLast? = some c → c = '\x22')
    (plain : ¬ "protobuf:".toList <:+: front) (without : ¬ protobufMark <:+: before) :
    protobufName? (front ++ '\x22' :: (escape body ++ '\x22' :: before)) = none := by
  have open_end : ¬ "protobuf:".toList <:+ escape body := by
    rcases List.eq_nil_or_concat' body with rfl | ⟨start, last, rfl⟩
    · exact by decide
    · obtain rfl := ends last (by simp)
      rw [escape_append, show escape ['\x22'] = ['\\', '\x22'] from rfl, ← List.singleton_append,
        ← List.append_assoc]
      intro suffix
      obtain ⟨rest, same, -⟩ := (List.suffix_concat_iff.1 suffix).resolve_left (by decide)
      exact absurd (congrArg List.getLast? same) (by simp)
  have escaped := not_infix_escape body
  apply protobufName?_none
  rw [protobufMark_eq] at without escaped ⊢
  rw [infix_close (by decide), infix_close (by decide)]
  rintro (suffix | inside | suffix | inside | inside)
  · exact plain suffix.isInfix
  · exact plain ((List.prefix_append _ _).isInfix.trans inside)
  · exact open_end suffix
  · exact escaped inside
  · exact without inside

end Literals

section Targets

variable {front comment tags value body : Text}
  (plain : ∀ mark ∈ ["protobuf:".toList, "name=".toList, tagsMarker], ¬ mark <:+: front)
  (directive : tags? comment = some tags) (unmarked : ¬ tagsMarker <:+: body)
  (carries : Carries value body) (named : (nameMarker? value).isSome)

theorem inBackticks_eq (text : Text) : inBackticks text = '\x60' :: (text ++ ['\x60']) :=
  rfl

include plain

theorem markless : ¬ protobufMark <:+: front := by
  intro inside
  rw [protobufMark_eq] at inside
  exact plain _ (by simp) ((List.prefix_append _ _).isInfix.trans inside)

include directive unmarked carries named

theorem tagTarget?_raw {name : Text} (found : protobufNameIn? value = some name) :
    tagTarget? (front ++ inBackticks body ++ comment) = some name := by
  obtain ⟨before, rest, split, -⟩ := exists_split directive
  rw [inBackticks_eq, tagTarget?_line (by simp) ⟨plain _ (by simp), unmarked⟩ split (plain _ (by simp))
    (carries.nameMarker named), protobufName?_raw carries (markless plain) found, Option.some_or]

theorem tagTarget?_raw_once (without : ¬ protobufMark <:+: comment) :
    tagTarget? (front ++ inBackticks body ++ comment) = (protobufNameIn? value).or (nameMarker? body) := by
  obtain ⟨before, rest, split, part⟩ := exists_split directive
  rw [inBackticks_eq, tagTarget?_line (by simp) ⟨plain _ (by simp), unmarked⟩ split (plain _ (by simp))
    (carries.nameMarker named), protobufName?_raw_once carries (markless plain)]
  exact fun inside => without (inside.trans part)

theorem tagTarget?_interpreted (without : ¬ protobufMark <:+: comment)
    (ends : ∀ c, body.getLast? = some c → c = '\x22') :
    tagTarget? (front ++ '\x22' :: (escape body ++ ['\x22']) ++ comment) = nameMarker? body := by
  obtain ⟨before, rest, split, part⟩ := exists_split directive
  have same : nameMarker? (escape body) = nameMarker? body := nameMarker_escape none body
  have escaped : ¬ tagsMarker <:+: escape body := fun inside =>
    unmarked (infix_of_escape (by decide) inside)
  rw [tagTarget?_line (by simp) ⟨plain _ (by simp), escaped⟩ split (plain _ (by simp))
    (same ▸ carries.nameMarker named), protobufName?_interpreted ends (plain _ (by simp)), same,
    Option.none_or]
  exact fun inside => without (inside.trans part)

end Targets

section Written

variable {written : TagSet} {front comment : Text}

theorem toLiteral_raw (plain : holds '\x60' written.body = false) :
    written.toLiteral = inBackticks written.body := by
  rw [toLiteral, plain]
  rfl

theorem toLiteral_interpreted (ticked : holds '\x60' written.body = true) :
    written.toLiteral = '\x22' :: (escape written.body ++ ['\x22']) := by
  rw [toLiteral, ticked]
  rfl

theorem tags?_toLiteral (unmarked : ¬ tagsMarker <:+: front ∧ ¬ tagsMarker <:+: written.body) :
    tags? (front ++ written.toLiteral ++ comment) = tags? comment := by
  cases ticks : holds '\x60' written.body with
  | false =>
    rw [toLiteral_raw ticks]
    exact tags?_line (by simp) unmarked
  | true =>
    rw [toLiteral_interpreted ticks]
    exact tags?_line (by simp)
      ⟨unmarked.1, fun inside => unmarked.2 (infix_of_escape (by decide) inside)⟩

end Written

end Directive

open Directive TagSet in
/-- A line with a raw tag and a tag directive behind it, before and after the directive's tags were
merged into the tag. The target is the name in the `protobuf` value, and stays so if the merged tag is
a raw literal. Otherwise, or if the value has its names behind a quote, it is the first name that
stands in the merged tag. -/
theorem tag_target_after_merge {front inner comment tags value : Text} (raw : '\x60' ∉ inner)
    (held : (ofLiteral (inBackticks inner)).get? "protobuf".toList = some value)
    (named : (nameMarker? value).isSome) (directive : tags? comment = some tags)
    (apart : (parse tags).get? "protobuf".toList = none)
    (plain : ∀ mark ∈ ["protobuf:".toList, "name=".toList, tagsMarker], ¬ mark <:+: front)
    (unmarked : ¬ tagsMarker <:+: inner ∧ ¬ tagsMarker <:+: tags)
    (lone : ¬ Repeats protobufMark inner ∧ ¬ protobufMark <:+: tags) :
    let merged := (ofLiteral (inBackticks inner)).merge (parse tags)
    let line := front ++ inBackticks inner ++ comment
    let after := front ++ merged.toLiteral ++ comment
    tags? line = some tags ∧ tags? after = some tags ∧
      (∀ name, protobufNameIn? value = some name → tagTarget? line = some name ∧
        (holds '\x60' merged.body = false → tagTarget? after = some name)) ∧
      (¬ protobufMark <:+: comment →
        (tagTarget? after = tagTarget? line ↔
          holds '\x60' merged.body = false ∧ (protobufNameIn? value).isSome ∨
            nameMarker? merged.body = tagTarget? line)) := by
  intro merged line after
  have clean : ¬ tagsMarker <:+: merged.body := unmarked_merge raw unmarked
  have old : Carries value inner := carries_inner raw held lone.1
  have new : Carries value merged.body := carries_merge raw held apart lone.1 lone.2
  have unmarkedFront : ¬ tagsMarker <:+: front := plain _ (by simp)
  have ends : ∀ c, merged.body.getLast? = some c → c = '\x22' :=
    (body_ends (Read.regular (Read.merge (.ofLiteral _) (.parse _)))).2
  have kept (name : Text) (found : protobufNameIn? value = some name) :
      tagTarget? line = some name ∧ (holds '\x60' merged.body = false → tagTarget? after = some name) := by
    refine ⟨tagTarget?_raw plain directive unmarked.1 old named found, fun ticks => ?_⟩
    rw [show after = _ from congrArg (front ++ · ++ comment) (toLiteral_raw ticks)]
    exact tagTarget?_raw plain directive clean new named found
  refine ⟨?_, ?_, kept, fun without => ?_⟩
  · exact (tags?_line (by simp) ⟨unmarkedFront, unmarked.1⟩).trans directive
  · exact (tags?_toLiteral ⟨unmarkedFront, clean⟩).trans directive
  · cases ticks : holds '\x60' merged.body with
    | true =>
      have target : tagTarget? after = nameMarker? merged.body := by
        rw [show after = _ from congrArg (front ++ · ++ comment) (toLiteral_interpreted ticks)]
        exact tagTarget?_interpreted plain directive clean new named without ends
      simp [target]
    | false =>
      cases found : protobufNameIn? value with
      | some name => simp [kept name found, ticks]
      | none =>
        have target : tagTarget? after = nameMarker? merged.body := by
          rw [show after = _ from congrArg (front ++ · ++ comment) (toLiteral_raw ticks)]
          rw [tagTarget?_raw_once plain directive clean new named without, found, Option.none_or]
        simp [target]

open Directive TagSet in
/-- A key that is sorted to the front and has a name marker, and a value that is replaced. -/
theorem tag_target_after_merge_of_index :
    let inner := "protobuf:\"bytes,1,opt,name=user_id,proto3\" json:\"id\"".toList
    let tags := "json:\"-\" gorm:\"index:name=idx_user\"".toList
    let value := "bytes,1,opt,name=user_id,proto3".toList
    let front := "\tId string ".toList
    let comment := " // @gotags: json:\"-\" gorm:\"index:name=idx_user\"".toList
    let after := (front ++ "\x60gorm:\"index:name=idx_user\" json:\"-\" ".toList ++
      "protobuf:\"bytes,1,opt,name=user_id,proto3\"\x60".toList ++ comment)
    '\x60' ∉ inner ∧ (ofLiteral (inBackticks inner)).get? "protobuf".toList = some value ∧
      (nameMarker? value).isSome ∧ tags? comment = some tags ∧
      (parse tags).get? "protobuf".toList = none ∧
      (∀ mark ∈ ["protobuf:".toList, "name=".toList, tagsMarker], ¬ mark <:+: front) ∧
      (¬ tagsMarker <:+: inner ∧ ¬ tagsMarker <:+: tags) ∧
      (¬ Repeats protobufMark inner ∧ ¬ protobufMark <:+: tags) ∧
      tagTarget? (front ++ inBackticks inner ++ comment) = some "user_id".toList ∧
      tagTarget? after = some "user_id".toList := by
  intro inner tags value front comment after
  have raw : '\x60' ∉ inner := by decide +kernel
  have held : (ofLiteral (inBackticks inner)).get? "protobuf".toList = some value := by decide +kernel
  have named : (nameMarker? value).isSome := by decide +kernel
  have directive : tags? comment = some tags := by decide +kernel
  have apart : (parse tags).get? "protobuf".toList = none := by decide +kernel
  have plain : ∀ mark ∈ ["protobuf:".toList, "name=".toList, tagsMarker], ¬ mark <:+: front := by
    decide +kernel
  have unmarked : ¬ tagsMarker <:+: inner ∧ ¬ tagsMarker <:+: tags := by decide +kernel
  have lone : ¬ Repeats protobufMark inner ∧ ¬ protobufMark <:+: tags := by decide +kernel
  have written : front ++ ((ofLiteral (inBackticks inner)).merge (parse tags)).toLiteral ++ comment =
      after := by
    decide +kernel
  obtain ⟨-, -, kept, -⟩ := tag_target_after_merge raw held named directive apart plain unmarked lone
  obtain ⟨old, new⟩ := kept "user_id".toList (by decide +kernel)
  exact ⟨raw, held, named, directive, apart, plain, unmarked, lone, old,
    written ▸ new (by decide +kernel)⟩

open Directive TagSet in
/-- A backtick in the new value: the merged tag is written with double quotes, and the marker in the
new value is the first. -/
theorem tag_target_moves :
    let inner := "protobuf:\"bytes,1,opt,name=id\"".toList
    let tags := "db:\"name=x\x60\"".toList
    let front := "\tId string ".toList
    let comment := " // @gotags: db:\"name=x\x60\"".toList
    let merged := (ofLiteral (inBackticks inner)).merge (parse tags)
    '\x60' ∉ inner ∧
      (ofLiteral (inBackticks inner)).get? "protobuf".toList = some "bytes,1,opt,name=id".toList ∧
      tags? comment = some tags ∧ (parse tags).get? "protobuf".toList = none ∧
      (∀ mark ∈ ["protobuf:".toList, "name=".toList, tagsMarker], ¬ mark <:+: front) ∧
      tagTarget? (front ++ inBackticks inner ++ comment) = some "id".toList ∧
      tagTarget? (front ++ merged.toLiteral ++ comment) = some "x".toList := by
  decide +kernel

end GoGraft
