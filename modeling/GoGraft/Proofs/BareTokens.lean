import GoGraft.Proofs.TokenStreams

/-! Texts whose blanks are taken out. Where tokens have only blanks between them, the text keeps its
tokens exactly if none of them has a blank inside, and each is still read by itself in front of what
then follows it. -/

namespace GoGraft.Go

open Lexeme Text

/-- A text without its blanks. -/
def bare (text : Text) : Text :=
  text.filter fun c => !Text.isBlank c

theorem bare_append (first second : Text) : bare (first ++ second) = bare first ++ bare second :=
  List.filter_append first second

theorem bare_cons_of_isBlank {c : Char} (blank : Text.isBlank c) (text : Text) :
    bare (c :: text) = bare text :=
  List.filter_cons_of_neg (by simp [blank])

/-! ### A step of the reader -/

/-- Some text is passed, which is a token or has none in it. -/
theorem tokens_step {text : Text} (more : text ≠ []) :
    ∃ passed rest, passed ≠ [] ∧ text = passed ++ rest ∧
      (tokens text = tokens rest ∨
        piece? text = some (some passed, rest) ∧ tokens text = passed :: tokens rest) := by
  cases read : piece? text with
  | none =>
    obtain ⟨c, rest, rfl⟩ := List.exists_cons_of_ne_nil more
    exact ⟨[c], rest, List.cons_ne_nil c [], rfl, .inl (tokens_none read)⟩
  | some found =>
    obtain ⟨value, rest⟩ := found
    obtain ⟨taken, filled, rfl, own⟩ := piece?_parts read
    have all := tokens_read read
    refine ⟨taken, rest, filled, rfl, ?_⟩
    cases value with
    | none => exact .inl all
    | some token =>
      cases own token rfl
      exact .inr ⟨rfl, all⟩

/-- Induction along the tokens of a text. -/
theorem tokens_induction {motive : Text → Prop} (nil : motive [])
    (pass : ∀ passed rest, tokens (passed ++ rest) = tokens rest → motive rest → motive (passed ++ rest))
    (token : ∀ token rest, tokens (token ++ rest) = token :: tokens rest → motive rest →
      motive (token ++ rest)) (text : Text) : motive text := by
  induction length : text.length using Nat.strong_induction_on generalizing text with
  | h size ih =>
    by_cases more : text = []
    · rw [more]
      exact nil
    · obtain ⟨passed, rest, filled, rfl, step⟩ := tokens_step more
      have shorter : rest.length < size := by
        have positive := List.length_pos_of_ne_nil filled
        rw [← length, List.length_append]
        omega
      have later := ih rest.length shorter rest rfl
      rcases step with none | ⟨-, found⟩
      · exact pass passed rest none later
      · exact token passed rest found later

/-- The tokens of a text, put together, are a part of it. -/
theorem flatten_tokens_sublist (text : Text) : (tokens text).flatten.Sublist text := by
  induction text using tokens_induction with
  | nil => exact .slnil
  | pass passed rest none later =>
    rw [none]
    exact later.trans (List.sublist_append_right passed rest)
  | token token rest found later =>
    rw [found]
    exact (List.Sublist.refl token).append later

theorem infix_of_mem_tokens {text token : Text} (inside : token ∈ tokens text) : token <:+: text := by
  induction text using tokens_induction with
  | nil => cases inside
  | pass passed rest none later =>
    rw [none] at inside
    exact (later inside).trans (List.suffix_append passed rest).isInfix
  | token first rest found later =>
    rw [found] at inside
    rcases List.mem_cons.1 inside with rfl | behind
    · exact (List.prefix_append token rest).isInfix
    · exact (later behind).trans (List.suffix_append first rest).isInfix

/-- A text that is nothing but its tokens starts with one. -/
theorem piece?_of_flatten {text : Text} (whole : (tokens text).flatten = text) (more : text ≠ []) :
    ∃ token rest, text = token ++ rest ∧ piece? text = some (some token, rest) ∧
      tokens text = token :: tokens rest := by
  obtain ⟨passed, rest, filled, split, step⟩ := tokens_step more
  rcases step with none | ⟨read, found⟩
  · have short := (flatten_tokens_sublist rest).length_le
    have positive := List.length_pos_of_ne_nil filled
    rw [none] at whole
    rw [whole, split, List.length_append] at short
    omega
  · exact ⟨passed, rest, split, read, found⟩

/-! ### Texts without their blanks -/

/-- A text of tokens that have only blanks between them. -/
inductive Uncommented : Text → Prop where
  | nil : Uncommented []
  | blank {c : Char} {rest : Text} (gap : isGap c) (blank : Text.isBlank c) (more : Uncommented rest) :
      Uncommented (c :: rest)
  | token {token rest : Text} (read : piece? (token ++ rest) = some (some token, rest))
      (more : Uncommented rest) : Uncommented (token ++ rest)

/-- Each token has no blank, and is read also where all blanks behind it are gone. -/
inductive ReadsBare : Text → Prop where
  | nil : ReadsBare []
  | blank {c : Char} {rest : Text} (gap : isGap c) (blank : Text.isBlank c) (more : ReadsBare rest) :
      ReadsBare (c :: rest)
  | token {token rest : Text} (read : piece? (token ++ rest) = some (some token, rest))
      (solid : ∀ c ∈ token, Text.isBlank c = false)
      (alike : piece? (token ++ bare rest) = some (some token, bare rest)) (more : ReadsBare rest) :
      ReadsBare (token ++ rest)

theorem tokens_blank {c : Char} (gap : isGap c) (text : Text) : tokens (c :: text) = tokens text :=
  @tokens_gap [c] (by simpa using gap) text

theorem ReadsBare.tokens_bare {text : Text} (reads : ReadsBare text) : tokens (bare text) = tokens text := by
  induction reads with
  | nil => rfl
  | blank gap blank more ih => rw [bare_cons_of_isBlank blank, tokens_blank gap, ih]
  | @token token rest read solid alike more ih =>
    have same : bare token = token := List.filter_eq_self.2 (by simpa using solid)
    rw [bare_append, same, tokens_read alike, tokens_read read, ih]

/-- All that is no blank is in the tokens. -/
theorem Uncommented.bare_sublist {text : Text} (plain : Uncommented text) :
    (bare text).Sublist (tokens text).flatten := by
  induction plain with
  | nil => exact .slnil
  | blank gap blank more ih =>
    rw [bare_cons_of_isBlank blank, tokens_blank gap]
    exact ih
  | token read more ih =>
    rw [bare_append, tokens_read read]
    exact List.filter_sublist.append ih

/-- Without its blanks, a text has the same tokens exactly if each of them is read as before. -/
theorem Uncommented.tokens_bare_iff {text : Text} (plain : Uncommented text) :
    tokens (bare text) = tokens text ↔ ReadsBare text := by
  refine ⟨fun same => ?_, ReadsBare.tokens_bare⟩
  induction plain with
  | nil => exact .nil
  | blank gap blank more ih =>
    rw [bare_cons_of_isBlank blank, tokens_blank gap] at same
    exact .blank gap blank (ih same)
  | @token token rest read more ih =>
    have found : tokens (token ++ rest) = token :: tokens rest := tokens_read read
    -- The text that is left is its tokens and nothing else, so no blank was in any of them.
    have whole : (tokens (bare (token ++ rest))).flatten = bare (token ++ rest) := by
      refine (flatten_tokens_sublist _).antisymm ?_
      rw [same]
      exact (Uncommented.token read more).bare_sublist
    have parts : bare token ++ bare rest = token ++ (tokens rest).flatten := by
      rw [← bare_append, ← whole, same, found, List.flatten_cons]
    have inner : (bare token).Sublist token := List.filter_sublist
    have solid : bare token = token := by
      have first := inner.length_le
      have second := more.bare_sublist.length_le
      have total := congrArg List.length parts
      rw [List.length_append, List.length_append] at total
      exact inner.eq_of_length (by omega)
    rw [bare_append, solid] at same whole
    have filled : token ++ bare rest ≠ [] := by
      intro none
      rw [none, found] at same
      cases same
    obtain ⟨first, left, split, alike, others⟩ := piece?_of_flatten whole filled
    obtain ⟨rfl, later⟩ := List.cons.inj (others.symm.trans (same.trans found))
    cases List.append_cancel_left split
    exact .token read (by simpa using List.filter_eq_self.1 solid) alike (ih later)

example : tokens (bare "* b . C [ D , *E ]".toList) = tokens "* b . C [ D , *E ]".toList := by decide +kernel

example : tokens (bare "C[3 - -2]".toList) ≠ tokens "C[3 - -2]".toList := by decide +kernel

end GoGraft.Go
