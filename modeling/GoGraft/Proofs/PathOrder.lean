import GoGraft.Command.Inputs
import GoGraft.Proofs.Splicing

/-! The order of paths. Paths are ordered component by component, which is a strict order up to the
equality of paths. A sorted list without the paths that repeat the one before them is therefore strictly
increasing, and the set of its paths is all that there is to know about it. -/

namespace GoGraft

/-! ### The order of paths -/

namespace PathComponent

theorem lt_iff {one other : PathComponent} : one < other ↔
    one.key.1 < other.key.1 ∨ one.key.1 = other.key.1 ∧ one.key.2 < other.key.2 :=
  Iff.rfl

theorem eq_of_key {one other : PathComponent} (same : one.key = other.key) : one = other := by
  cases one <;> cases other <;> simp_all [key]

instance : Std.Asymm fun one other : PathComponent => one < other where
  asymm one other less := by
    rw [lt_iff] at less ⊢
    rintro (more | ⟨equal, more⟩)
    · omega
    · rcases less with less | ⟨_, less⟩
      · omega
      · exact List.lt_asymm less more

instance : Trans (fun one other : PathComponent => one < other)
    (fun one other : PathComponent => one < other) fun one other => one < other where
  trans {one other third} first second := by
    rw [lt_iff] at first second ⊢
    rcases first with first | ⟨same, first⟩ <;> rcases second with second | ⟨equal, second⟩
    · exact .inl (Nat.lt_trans first second)
    · exact .inl (equal ▸ first)
    · exact .inl (same ▸ second)
    · exact .inr ⟨same.trans equal, List.lt_trans first second⟩

instance : Std.Trichotomous fun one other : PathComponent => one < other where
  trichotomous one other first second := by
    rw [lt_iff, not_or] at first second
    have rank : one.key.1 = other.key.1 := by omega
    have text : one.key.2 = other.key.2 :=
      List.le_antisymm (List.not_lt.1 fun less => second.2 ⟨rank.symm, less⟩)
        (List.not_lt.1 fun less => first.2 ⟨rank, less⟩)
    exact eq_of_key (Prod.ext rank text)

end PathComponent

namespace Path

theorem before_iff {one other : Path} : before one other ↔ ¬ other.components < one.components := by
  rw [before, Bool.not_eq_true', decide_eq_false_iff_not]

/-- Two paths are the same or one of them comes first. -/
theorem components_trichotomy (one other : Path) :
    one.components < other.components ∨ one.components = other.components ∨
      other.components < one.components := by
  by_cases less : one.components < other.components
  · exact .inl less
  · by_cases more : other.components < one.components
    · exact .inr (.inr more)
    · exact .inr (.inl (List.le_antisymm (List.not_lt.1 more) (List.not_lt.1 less)))

theorem before_total (one other : Path) : before one other ∨ before other one := by
  rw [before_iff, before_iff]
  by_cases less : other.components < one.components
  · exact .inr (List.lt_asymm less)
  · exact .inl less

theorem before_trans (one other third : Path) (first : before one other)
    (second : before other third) : before one third := by
  rw [before_iff] at first second ⊢
  intro less
  rcases components_trichotomy one other with earlier | same | later
  · exact second (List.lt_trans less earlier)
  · exact second (same ▸ less)
  · exact first later

/-! ### Each path once -/

theorem dropRepeated_sublist (paths : List Path) : (dropRepeated paths).Sublist paths := by
  induction paths with
  | nil => exact .slnil
  | cons path rest ih =>
    rw [dropRepeated]
    refine .cons_cons path ?_
    split
    next other more same =>
      rw [same] at ih
      split
      · exact (List.sublist_cons_self other more).trans ih
      · exact ih
    next => exact List.nil_sublist rest

/-- A path that is dropped is the same as one that is kept. -/
theorem exists_mem_dropRepeated {paths : List Path} {path : Path} (inside : path ∈ paths) :
    ∃ kept ∈ dropRepeated paths, kept.components = path.components := by
  induction paths with
  | nil => cases inside
  | cons first rest ih =>
    rcases List.mem_cons.1 inside with rfl | later
    · exact ⟨path, by rw [dropRepeated]; exact List.mem_cons_self, rfl⟩
    · obtain ⟨kept, held, same⟩ := ih later
      rw [dropRepeated]
      split
      next other more shape =>
        rw [shape] at held
        split
        next repeated =>
          rcases List.mem_cons.1 held with rfl | further
          · exact ⟨first, List.mem_cons_self, repeated.symm.trans same⟩
          · exact ⟨kept, List.mem_cons_of_mem first further, same⟩
        next => exact ⟨kept, List.mem_cons_of_mem first held, same⟩
      next none =>
        rw [none] at held
        cases held

theorem pairwise_dropRepeated {paths : List Path}
    (sorted : paths.Pairwise fun one other => before one other) :
    (dropRepeated paths).Pairwise fun one other => one.components < other.components := by
  induction paths with
  | nil => exact List.Pairwise.nil
  | cons path rest ih =>
    obtain ⟨first, later⟩ := List.pairwise_cons.1 sorted
    have others := ih later
    have part := dropRepeated_sublist rest
    rw [dropRepeated]
    split
    next other more shape =>
      rw [shape] at others part
      obtain ⟨next, further⟩ := List.pairwise_cons.1 others
      split
      next same =>
        refine List.pairwise_cons.2 ⟨fun third inside => ?_, further⟩
        exact same ▸ next third inside
      next different =>
        have behind : path.components < other.components := by
          have order := before_iff.1 (first other (part.subset List.mem_cons_self))
          rcases components_trichotomy path other with less | same | more
          · exact less
          · exact absurd same.symm different
          · exact absurd more order
        refine List.pairwise_cons.2 ⟨fun third inside => ?_, others⟩
        rcases List.mem_cons.1 inside with rfl | beyond
        · exact behind
        · exact List.lt_trans behind (next third beyond)
    next => exact List.pairwise_singleton _ _

/-- Paths in a strict order are known, up to equality, by the set that they make. -/
theorem map_components_eq {one other : List Path}
    (first : one.Pairwise fun path next => path.components < next.components)
    (second : other.Pairwise fun path next => path.components < next.components)
    (same : ∀ parts, parts ∈ one.map components ↔ parts ∈ other.map components) :
    one.map components = other.map components := by
  rw [← List.pairwise_map (f := components) (R := (· < ·))] at first second
  have distinct {paths : List (List PathComponent)} (sorted : paths.Pairwise (· < ·)) : paths.Nodup := by
    refine sorted.imp fun {path next} less same => ?_
    rw [same] at less
    exact List.lt_irrefl next less
  have perm := (List.perm_ext_iff_of_nodup (distinct first) (distinct second)).2 same
  exact perm.eq_of_pairwise (fun _ _ _ _ less more => absurd more (List.lt_asymm less)) first second

end Path

end GoGraft
