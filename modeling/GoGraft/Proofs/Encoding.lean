import GoGraft.Text.Utf8

/-! Text that is written as UTF-8 is read back. -/

namespace GoGraft.Utf8

theorem toNat_ofNat {n : Nat} (small : n < 256) : (UInt8.ofNat n).toNat = n := by
  rw [UInt8.toNat_ofNat', Nat.mod_eq_of_lt small]

/-- The ranges of the bytes that follow, by the number of the first byte. -/
theorem following?_ofNat {n : Nat} (small : n < 256) :
    following? (UInt8.ofNat n) =
      if n < 0x80 then some []
      else if 0xC2 ≤ n ∧ n ≤ 0xDF then some [(0x80, 0xBF)]
      else if n = 0xE0 then some [(0xA0, 0xBF), (0x80, 0xBF)]
      else if n = 0xED then some [(0x80, 0x9F), (0x80, 0xBF)]
      else if 0xE1 ≤ n ∧ n ≤ 0xEF then some [(0x80, 0xBF), (0x80, 0xBF)]
      else if n = 0xF0 then some [(0x90, 0xBF), (0x80, 0xBF), (0x80, 0xBF)]
      else if 0xF1 ≤ n ∧ n ≤ 0xF3 then some [(0x80, 0xBF), (0x80, 0xBF), (0x80, 0xBF)]
      else if n = 0xF4 then some [(0x80, 0x8F), (0x80, 0xBF), (0x80, 0xBF)]
      else none := by
  simp only [following?, UInt8.lt_iff_toNat_lt, UInt8.le_iff_toNat_le, ← UInt8.toNat_inj,
    toNat_ofNat small, UInt8.reduceToNat]

theorem decodeFrom_next {index size bits n : Nat} {low high : UInt8} {next : UInt8 × UInt8}
    {missing : List (UInt8 × UInt8)} {rest : Bytes} (small : n < 256)
    (inside : low.toNat ≤ n ∧ n ≤ high.toNat) :
    decodeFrom index size bits ((low, high) :: next :: missing) (UInt8.ofNat n :: rest) =
      decodeFrom index (size + 1) (bits * 64 + n % 64) (next :: missing) rest := by
  have range : low ≤ UInt8.ofNat n ∧ UInt8.ofNat n ≤ high := by
    simpa only [UInt8.le_iff_toNat_le, toNat_ofNat small] using inside
  rw [decodeFrom, if_pos range, toNat_ofNat small]
  rfl

theorem decodeFrom_last {index size bits n : Nat} {low high : UInt8} {rest : Bytes}
    (small : n < 256) (inside : low.toNat ≤ n ∧ n ≤ high.toNat) :
    decodeFrom index size bits [(low, high)] (UInt8.ofNat n :: rest) =
      (decodeFrom (index + size + 1) 0 0 [] rest).map (Char.ofNat (bits * 64 + n % 64) :: ·) := by
  have range : low ≤ UInt8.ofNat n ∧ UInt8.ofNat n ≤ high := by
    simpa only [UInt8.le_iff_toNat_le, toNat_ofNat small] using inside
  rw [decodeFrom, if_pos range, toNat_ofNat small]
  rfl

theorem decodeFrom_first {index n : Nat} {next : UInt8 × UInt8} {missing : List (UInt8 × UInt8)}
    {rest : Bytes} (follows : following? (UInt8.ofNat n) = some (next :: missing)) :
    decodeFrom index 0 0 [] (UInt8.ofNat n :: rest) =
      decodeFrom index 1 (leadingBits (UInt8.ofNat n) (missing.length + 1)) (next :: missing) rest := by
  rw [decodeFrom, follows]
  rfl

/-- The ranges of the second byte of three leave out what two bytes can say, and surrogates. -/
theorem following?_of_three {v : Nat} (large : 2047 < v) (small : v ≤ 65535)
    (valid : v < 0xD800 ∨ 0xDFFF < v) :
    ∃ low high : UInt8, following? (UInt8.ofNat (v / 4096 % 16 + 224)) =
        some [(low, high), (0x80, 0xBF)] ∧
      low.toNat ≤ v / 64 % 64 + 128 ∧ v / 64 % 64 + 128 ≤ high.toNat := by
  rw [following?_ofNat (by omega)]
  rw [if_neg (by omega), if_neg (by omega)]
  split
  · exact ⟨_, _, rfl, by simp only [UInt8.reduceToNat]; omega, by simp only [UInt8.reduceToNat]; omega⟩
  · split
    · exact ⟨_, _, rfl, by simp only [UInt8.reduceToNat]; omega, by simp only [UInt8.reduceToNat]; omega⟩
    · rw [if_pos (by omega)]
      exact ⟨_, _, rfl, by simp only [UInt8.reduceToNat]; omega, by simp only [UInt8.reduceToNat]; omega⟩

/-- The ranges of the second byte of four leave out what three bytes can say, and what is too large. -/
theorem following?_of_four {v : Nat} (large : 65535 < v) (small : v < 0x110000) :
    ∃ low high : UInt8, following? (UInt8.ofNat (v / 262144 % 8 + 240)) =
        some [(low, high), (0x80, 0xBF), (0x80, 0xBF)] ∧
      low.toNat ≤ v / 4096 % 64 + 128 ∧ v / 4096 % 64 + 128 ≤ high.toNat := by
  rw [following?_ofNat (by omega)]
  rw [if_neg (by omega), if_neg (by omega), if_neg (by omega), if_neg (by omega), if_neg (by omega)]
  split
  · exact ⟨_, _, rfl, by simp only [UInt8.reduceToNat]; omega, by simp only [UInt8.reduceToNat]; omega⟩
  · split
    · exact ⟨_, _, rfl, by simp only [UInt8.reduceToNat]; omega, by simp only [UInt8.reduceToNat]; omega⟩
    · rw [if_pos (by omega)]
      exact ⟨_, _, rfl, by simp only [UInt8.reduceToNat]; omega, by simp only [UInt8.reduceToNat]; omega⟩

/-- The bytes of a character are read as the character. -/
theorem decodeFrom_char (c : Char) (index : Nat) (rest : Bytes) :
    ∃ after, decodeFrom index 0 0 [] (String.utf8EncodeChar c ++ rest) =
      (decodeFrom after 0 0 [] rest).map (c :: ·) := by
  have valid : c.val.toNat < 0xD800 ∨ 0xDFFF < c.val.toNat ∧ c.val.toNat < 0x110000 := c.valid
  have same : Char.ofNat c.val.toNat = c := Char.ofNat_toNat c
  rw [String.utf8EncodeChar]
  generalize c.val.toNat = v at valid same ⊢
  subst same
  split
  next small =>
    refine ⟨index + 1, ?_⟩
    have follows : following? (UInt8.ofNat v) = some [] := by
      rw [following?_ofNat (by omega), if_pos (by omega)]
    rw [List.singleton_append, decodeFrom, follows, toNat_ofNat (by omega)]
  next large =>
    split
    next small =>
      have follows : following? (UInt8.ofNat (v / 64 % 32 + 192)) = some [(0x80, 0xBF)] := by
        rw [following?_ofNat (by omega), if_neg (by omega), if_pos (by omega)]
      have bits : leadingBits (UInt8.ofNat (v / 64 % 32 + 192)) 1 * 64 + (v % 64 + 128) % 64 = v := by
        rw [leadingBits, toNat_ofNat (by omega)]
        omega
      refine ⟨index + 1 + 1, ?_⟩
      rw [List.cons_append, List.singleton_append, decodeFrom_first follows,
        decodeFrom_last (by omega) (by simp only [UInt8.reduceToNat]; omega)]
      rw [List.length_nil, Nat.zero_add, bits]
    next large =>
      split
      next small =>
        obtain ⟨low, high, follows, inside⟩ := following?_of_three (by omega) small (by omega)
        have bits : (leadingBits (UInt8.ofNat (v / 4096 % 16 + 224)) 2 * 64 +
            (v / 64 % 64 + 128) % 64) * 64 + (v % 64 + 128) % 64 = v := by
          rw [leadingBits, toNat_ofNat (by omega)]
          omega
        refine ⟨index + (1 + 1) + 1, ?_⟩
        rw [List.cons_append, List.cons_append, List.singleton_append,
          decodeFrom_first follows, decodeFrom_next (by omega) inside,
          decodeFrom_last (by omega) (by simp only [UInt8.reduceToNat]; omega)]
        rw [List.length_singleton, bits]
      next large =>
        obtain ⟨low, high, follows, inside⟩ := @following?_of_four v (by omega) (by omega)
        have bits : ((leadingBits (UInt8.ofNat (v / 262144 % 8 + 240)) 3 * 64 +
            (v / 4096 % 64 + 128) % 64) * 64 + (v / 64 % 64 + 128) % 64) * 64 +
              (v % 64 + 128) % 64 = v := by
          rw [leadingBits, toNat_ofNat (by omega)]
          · omega
          all_goals omega
        refine ⟨index + (1 + 1 + 1) + 1, ?_⟩
        rw [List.cons_append, List.cons_append, List.cons_append, List.singleton_append,
          decodeFrom_first follows, decodeFrom_next (by omega) inside,
          decodeFrom_next (by omega) (by simp only [UInt8.reduceToNat]; omega),
          decodeFrom_last (by omega) (by simp only [UInt8.reduceToNat]; omega)]
        rw [List.length_cons, List.length_singleton, bits]

theorem decode_encode (text : Text) : decode (encode text) = .ok text := by
  have each (index : Nat) : decodeFrom index 0 0 [] (encode text) = .ok text := by
    induction text generalizing index with
    | nil => rfl
    | cons c rest ih =>
      rw [encode, List.flatMap_cons]
      obtain ⟨after, read⟩ := decodeFrom_char c index (encode rest)
      rw [encode] at read ih
      rw [read, ih]
      rfl
  exact each 0

end GoGraft.Utf8
