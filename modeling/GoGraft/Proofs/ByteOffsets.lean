import GoGraft.Proofs.Splicing

/-! Places counted in bytes. Cutting a text at such a place can fail: the place may lie behind the end
of the text or inside a character. Main statement: edits that stand in order are made in bytes, each
cut succeeding, and give what they give in characters. -/

namespace GoGraft

namespace Text

/-! ### Sizes -/

@[simp] theorem byteSize_nil : byteSize [] = 0 := rfl

@[simp] theorem byteSize_cons (c : Char) (text : Text) :
    byteSize (c :: text) = c.utf8Size + byteSize text := rfl

@[simp] theorem byteSize_append (front back : Text) :
    byteSize (front ++ back) = byteSize front + byteSize back := by
  induction front with
  | nil => simp
  | cons c front ih => simp [ih, Nat.add_assoc]

theorem length_le_byteSize (text : Text) : text.length ≤ byteSize text := by
  induction text with
  | nil => exact Nat.le_refl 0
  | cons c text ih =>
    have positive := c.utf8Size_pos
    rw [List.length_cons, byteSize_cons]
    omega

/-- The bytes in front of a place. A place behind the end is as far behind it in bytes. -/
def byteAt (source : Text) (place : Nat) : Nat :=
  byteSize (source.take place) + (place - source.length)

theorem byteAt_length (front back : Text) : byteAt (front ++ back) front.length = byteSize front := by
  rw [byteAt, List.take_left, List.length_append, Nat.sub_eq_zero_of_le (Nat.le_add_right _ _),
    Nat.add_zero]

/-- The byte of a place that is not behind the end, from what stands in front of the place. -/
theorem byteAt_eq {source front back : Text} {place : Nat} (whole : source = front ++ back)
    (length : place = front.length) : byteAt source place = byteSize front := by
  rw [whole, length, byteAt_length]

@[simp] theorem byteAt_zero (source : Text) : byteAt source 0 = 0 := by
  simp [byteAt]

theorem byteAt_lt (source : Text) {low high : Nat} (order : low < high) :
    byteAt source low < byteAt source high := by
  have parts : source.take high = source.take low ++ (source.drop low).take (high - low) := by
    rw [← List.take_add, Nat.add_sub_cancel' (Nat.le_of_lt order)]
  have size := length_le_byteSize ((source.drop low).take (high - low))
  rw [List.length_take, List.length_drop] at size
  rw [byteAt, byteAt, parts, byteSize_append]
  omega

theorem byteAt_lt_iff (source : Text) {low high : Nat} :
    byteAt source low < byteAt source high ↔ low < high := by
  refine ⟨fun order => ?_, byteAt_lt source⟩
  rcases Nat.lt_trichotomy low high with less | same | greater
  · exact less
  · rw [same] at order
    exact absurd order (Nat.lt_irrefl _)
  · have := byteAt_lt source greater
    omega

theorem byteAt_le_iff (source : Text) {low high : Nat} :
    byteAt source low ≤ byteAt source high ↔ low ≤ high := by
  rw [← Nat.not_lt, byteAt_lt_iff, Nat.not_lt]

theorem byteAt_inj (source : Text) {one other : Nat} :
    byteAt source one = byteAt source other ↔ one = other := by
  rw [Nat.le_antisymm_iff, byteAt_le_iff, byteAt_le_iff, ← Nat.le_antisymm_iff]

/-- Behind a character of one byte there is one byte more. -/
theorem byteAt_succ {source : Text} {place : Nat} {c : Char} (found : source[place]? = some c)
    (small : c.utf8Size = 1) : byteAt source (place + 1) = byteAt source place + 1 := by
  obtain ⟨bound, rfl⟩ := List.getElem?_eq_some_iff.1 found
  rw [byteAt, byteAt, List.take_succ_eq_append_getElem bound, byteSize_append, byteSize_cons,
    byteSize_nil, small]
  omega

/-! ### Cutting -/

/-- A text cut behind a number of bytes, if it has so many and they end with a character. -/
def splitBytes? : Nat → Text → Option (Text × Text)
  | 0, text => some ([], text)
  | _ + 1, [] => none
  | bytes + 1, c :: rest =>
    if c.utf8Size ≤ bytes + 1 then
      (splitBytes? (bytes + 1 - c.utf8Size) rest).map fun (front, back) => (c :: front, back)
    else none

theorem splitBytes?_append (front back : Text) :
    splitBytes? (byteSize front) (front ++ back) = some (front, back) := by
  induction front with
  | nil => cases back <;> rfl
  | cons c front ih =>
    obtain ⟨rest, size⟩ := Nat.exists_eq_add_of_le' (Nat.succ_le_of_lt c.utf8Size_pos)
    have sum : byteSize (c :: front) = (rest + byteSize front) + 1 := by
      rw [byteSize_cons]
      omega
    have left : rest + byteSize front + 1 - c.utf8Size = byteSize front := by omega
    rw [sum, List.cons_append, splitBytes?, if_pos (by omega), left, ih]
    rfl

theorem splitBytes?_eq_some_iff {bytes : Nat} {text front back : Text} :
    splitBytes? bytes text = some (front, back) ↔ text = front ++ back ∧ byteSize front = bytes := by
  refine ⟨fun cut => ?_, fun ⟨whole, size⟩ => whole ▸ size ▸ splitBytes?_append front back⟩
  fun_induction splitBytes? bytes text generalizing front back with
  | case1 text =>
    cases cut
    exact ⟨rfl, rfl⟩
  | case2 => cases cut
  | case3 bytes c rest fits ih =>
    obtain ⟨⟨inner, behind⟩, found, same⟩ := Option.map_eq_some_iff.1 cut
    cases same
    obtain ⟨rfl, size⟩ := ih found
    refine ⟨rfl, ?_⟩
    rw [byteSize_cons]
    omega
  | case4 => cases cut

/-- The text between two places that are given in bytes. -/
def sliceBytes? (text : Text) (span : Span) : Option Text :=
  if span.start ≤ span.stop then do
    let (_, back) ← splitBytes? span.start text
    let (inner, _) ← splitBytes? (span.stop - span.start) back
    return inner
  else none

end Text

/-- The difference of two places, if the second is not behind the first. -/
def less? (high low : Nat) : Option Nat :=
  if low ≤ high then some (high - low) else none

/-- A span with its places in bytes. -/
def Span.inBytes (source : Text) (span : Span) : Span :=
  ⟨Text.byteAt source span.start, Text.byteAt source span.stop⟩

/-- A span in a text, with what stands before, in and behind it. -/
theorem Text.exists_parts {source : Text} {span : Span} (order : span.start ≤ span.stop)
    (bound : span.stop ≤ source.length) :
    ∃ front inner back, source = front ++ (inner ++ back) ∧ span.start = front.length ∧
      span.stop = front.length + inner.length ∧ slice source span = inner := by
  refine ⟨source.take span.start, slice source span,
    (source.drop span.start).drop (span.stop - span.start), ?_, ?_, ?_, rfl⟩
  · rw [slice, List.take_append_drop, List.take_append_drop]
  · rw [List.length_take_of_le (by omega)]
  · rw [slice, List.length_take, List.length_take, List.length_drop]
    omega

theorem Text.sliceBytes?_inBytes {source : Text} {span : Span} (order : span.start ≤ span.stop)
    (bound : span.stop ≤ source.length) :
    sliceBytes? source (span.inBytes source) = some (slice source span) := by
  obtain ⟨front, inner, back, whole, start, stop, same⟩ := exists_parts order bound
  have first : byteAt source span.start = byteSize front := byteAt_eq whole start
  have last : byteAt source span.stop = byteSize front + byteSize inner := by
    rw [← byteSize_append]
    refine byteAt_eq (whole.trans (List.append_assoc _ _ _).symm) ?_
    rw [stop, List.length_append]
  rw [same, sliceBytes?, Span.inBytes, if_pos ((byteAt_le_iff source).2 order), first, last, whole,
    Nat.add_sub_cancel_left, splitBytes?_append]
  simp only [Option.bind_eq_bind, Option.bind_some, splitBytes?_append]
  rfl

namespace Edit

/-! ### Edits -/

/-- An edit with its places in bytes. -/
def inBytes (source : Text) (edit : Edit) : Edit :=
  ⟨edit.span.inBytes source, edit.text⟩

theorem before_inBytes (source : Text) (one other : Edit) :
    before (one.inBytes source) (other.inBytes source) = before one other := by
  rw [Bool.eq_iff_iff, before_iff, before_iff]
  simp only [inBytes, Span.inBytes, Text.byteAt_lt_iff, Text.byteAt_inj, Text.byteAt_le_iff]

theorem overlap?_inBytes (source : Text) : (edits : List Edit) →
    overlap? (edits.map (inBytes source)) =
      (overlap? edits).map fun (one, other) => (one.inBytes source, other.inBytes source)
  | [] => rfl
  | [_] => rfl
  | one :: other :: rest => by
    have later := overlap?_inBytes source (other :: rest)
    by_cases overlaps : other.span.start < one.span.stop
    · have found : overlap? (one :: other :: rest) = some (one, other) := if_pos overlaps
      rw [found]
      exact if_pos ((Text.byteAt_lt_iff source).2 overlaps)
    · have clear : overlap? (one :: other :: rest) = overlap? (other :: rest) := if_neg overlaps
      rw [clear, ← later]
      exact if_neg (mt (Text.byteAt_lt_iff source).1 overlaps)

theorem mem_of_overlap? {one other : Edit} : {edits : List Edit} →
    overlap? edits = some (one, other) → one ∈ edits ∧ other ∈ edits
  | [], found => by cases found
  | [_], found => by cases found
  | first :: second :: rest, found => by
    by_cases overlaps : second.span.start < first.span.stop
    · have here : overlap? (first :: second :: rest) = some (first, second) := if_pos overlaps
      rw [here] at found
      cases found
      exact ⟨List.mem_cons_self, List.mem_cons_of_mem _ List.mem_cons_self⟩
    · have clear : overlap? (first :: second :: rest) = overlap? (second :: rest) := if_neg overlaps
      rw [clear] at found
      obtain ⟨left, right⟩ := mem_of_overlap? found
      exact ⟨List.mem_cons_of_mem _ left, List.mem_cons_of_mem _ right⟩

/-- Makes an edit in a text that starts at the given place, with all places in bytes. -/
def replaceBytes? (place : Nat) (edit : Edit) (text : Text) : Option Text := do
  let start ← less? edit.span.start place
  let stop ← less? edit.span.stop place
  let size ← less? stop start
  let (front, behind) ← Text.splitBytes? start text
  let (_, back) ← Text.splitBytes? size behind
  return front ++ edit.text ++ back

/-- Makes edits from the last to the first, with all places in bytes. -/
def replaceAllBytes? (place : Nat) (text : Text) (edits : List Edit) : Option Text :=
  edits.foldr (fun edit text => text.bind (replaceBytes? place edit)) (some text)

theorem replaceBytes?_append {place : Nat} {front old text : Text} {edit : Edit}
    (start : edit.span.start = place + Text.byteSize front)
    (stop : edit.span.stop = edit.span.start + Text.byteSize old) :
    replaceBytes? place edit (front ++ (old ++ text)) = some (front ++ edit.text ++ text) := by
  have first : less? edit.span.start place = some (Text.byteSize front) := by
    rw [less?, if_pos (by omega), start, Nat.add_sub_cancel_left]
  have last : less? edit.span.stop place = some (Text.byteSize front + Text.byteSize old) := by
    rw [less?, if_pos (by omega), stop, start, Nat.add_assoc, Nat.add_sub_cancel_left]
  have size : less? (Text.byteSize front + Text.byteSize old) (Text.byteSize front) =
      some (Text.byteSize old) := by
    rw [less?, if_pos (Nat.le_add_right _ _), Nat.add_sub_cancel_left]
  simp only [replaceBytes?, first, last, size, Option.bind_eq_bind, Option.bind_some,
    Text.splitBytes?_append]
  rfl

theorem Fit.starts_ordered {place stop : Nat} {edits : List Edit} (fit : Fit place stop edits) :
    edits.Pairwise fun one other => one.span.start ≤ other.span.start := by
  induction edits generalizing place with
  | nil => exact List.Pairwise.nil
  | cons edit rest ih =>
    obtain ⟨_, order, later⟩ := fit
    refine List.pairwise_cons.2 ⟨fun other held => ?_, ih later⟩
    exact Nat.le_trans order (later.behind other held).1

/-- Edits that can be made from left to right can be made from the last to the first in bytes. What
stands in front of them has no share in it. -/
theorem Spliced.replaceAllBytes? {source before front text behind out : Text} {place : Nat}
    {edits : List Edit} (spliced : Spliced place text edits out)
    (whole : source = before ++ (front ++ text) ++ behind)
    (start : place = before.length + front.length) :
    Edit.replaceAllBytes? (Text.byteAt source before.length) (front ++ text)
      (edits.map (inBytes source)) = some (front ++ out) := by
  induction spliced generalizing front with
  | rest => rfl
  | @edit place kept old text out edit edits first last _ ih =>
    -- The later edits see what this one replaces as part of what stands in front of them.
    have regroup : front ++ (kept ++ old ++ text) = front ++ kept ++ old ++ text := by
      simp only [List.append_assoc]
    have later := @ih (front ++ kept ++ old) (regroup ▸ whole) (by
      simp only [List.length_append]
      omega)
    have byte_before : Text.byteAt source before.length = Text.byteSize before :=
      Text.byteAt_eq (whole.trans (List.append_assoc _ _ _)) rfl
    have byte_start : Text.byteAt source edit.span.start =
        Text.byteSize before + Text.byteSize (front ++ kept) := by
      rw [← Text.byteSize_append]
      refine @Text.byteAt_eq source _ (old ++ text ++ behind) _ ?_ ?_
      · rw [whole]
        simp only [List.append_assoc]
      · simp only [List.length_append]
        omega
    have byte_stop : Text.byteAt source edit.span.stop =
        Text.byteSize before + Text.byteSize (front ++ kept) + Text.byteSize old := by
      rw [← Text.byteSize_append, ← Text.byteSize_append]
      refine @Text.byteAt_eq source _ (text ++ behind) _ ?_ ?_
      · rw [whole]
        simp only [List.append_assoc]
      · simp only [List.length_append]
        omega
    calc Edit.replaceAllBytes? (Text.byteAt source before.length) (front ++ (kept ++ old ++ text))
          ((edit :: edits).map (inBytes source))
        = (Edit.replaceAllBytes? (Text.byteAt source before.length) (front ++ kept ++ old ++ text)
            (edits.map (inBytes source))).bind
              (replaceBytes? (Text.byteAt source before.length) (edit.inBytes source)) := by
          rw [regroup]
          rfl
      _ = replaceBytes? (Text.byteAt source before.length) (edit.inBytes source)
            (front ++ kept ++ (old ++ out)) := by
          rw [later, Option.bind_some, List.append_assoc]
      _ = some (front ++ kept ++ edit.text ++ out) := by
          apply replaceBytes?_append
          · rw [byte_before]
            exact byte_start
          · simp only [inBytes, Span.inBytes]
            omega
      _ = some (front ++ (kept ++ edit.text ++ out)) := by simp only [List.append_assoc]

end Edit

end GoGraft
