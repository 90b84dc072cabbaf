import GoGraft.Command.Store
import GoGraft.Proofs.Encoding
import GoGraft.Proofs.ExactReports

/-! Runs that only check. From one store and over files that lie apart, a run that checks tells the
same as a run that writes, except that it says "would change" where the other one rewrites. Main
statement: the outcome and the store of both runs, from what each file held before. -/

namespace GoGraft.Command

/-! Arguments -/

theorem eq_of_finish {options result : Options} (read : finish options = .run result) :
    result = options := by
  unfold finish at read
  split at read
  · cases read
  · exact (Request.run.inj read).symm

theorem finish_checking {options : Options} (read : finish options = .run options) :
    finish { options with check := true } = .run { options with check := true } := by
  unfold finish at read ⊢
  split at read
  · cases read
  · next named => exact if_neg named

theorem readLetters_ne_run {letters : Text} {options : Options} :
    readLetters letters ≠ some (.run options) := by
  fun_induction readLetters letters <;> simp_all

theorem check_of_readArguments {options result : Options} {arguments : List Text}
    (read : readArguments options arguments = .run result) (set : options.check = true) :
    result.check = true := by
  fun_induction readArguments options arguments with
  | case1 options => rw [eq_of_finish read]; exact set
  | case3 options rest => rw [eq_of_finish read]; exact set
  | case16 options rest c letters _ _ request asks => exact absurd (read ▸ asks) readLetters_ne_run
  | _ => simp_all

theorem readArguments_checking {options result : Options} {arguments : List Text}
    (read : readArguments options arguments = .run result) (unset : result.check = false) :
    readArguments { options with check := true } arguments = .run { result with check := true } := by
  fun_induction readArguments options arguments with
  | case1 options =>
    cases eq_of_finish read
    rw [readArguments]
    exact finish_checking read
  | case3 options rest =>
    cases eq_of_finish read
    rw [readArguments]
    exact finish_checking read
  | case16 options rest c letters _ _ request asks => exact absurd (read ▸ asks) readLetters_ne_run
  | case9 options =>
    rw [check_of_readArguments read rfl] at unset
    cases unset
  | _ => simp_all [readArguments]

/-- An option that asks for a check may stand before all other arguments. -/
theorem ofArguments_checking {arguments : List Text} {options : Options}
    (asked : Request.ofArguments arguments = .run options) (writes : options.check = false) :
    Request.ofArguments ("--check".toList :: arguments) = .run { options with check := true } := by
  have first : Request.ofArguments ("--check".toList :: arguments) =
      readArguments { check := true } arguments := rfl
  rw [first]
  exact readArguments_checking asked writes

/-! Inputs -/

/-- The files that a run works on, or the first path that names nothing. -/
def Options.inputs (options : Options) (environmentSuffix : Option Text) (store : Store) :
    Except Path (List Path) :=
  collectInputs ((options.suffix.orElse fun _ => environmentSuffix).getD defaultSuffix)
    (options.paths.map fun path => (path, store.find path))

theorem inputsOf?_eq_none_iff {suffix : Text} {path : Path} {found : Found} :
    inputsOf? suffix path found = none ↔ found = .missing := by
  cases found <;> simp [inputsOf?]

theorem gatherInputs_isOk_iff {suffix : Text} {paths : List (Path × Found)} :
    (∃ inputs, gatherInputs suffix paths = .ok inputs) ↔ ∀ path ∈ paths, path.2 ≠ .missing := by
  induction paths with
  | nil => simp [gatherInputs]
  | cons path rest ih =>
    obtain ⟨path, found⟩ := path
    rw [List.forall_mem_cons, ← ih, gatherInputs]
    cases named : inputsOf? suffix path found with
    | none => simp [inputsOf?_eq_none_iff.1 named]
    | some inputs =>
      have exists_found : found ≠ .missing := by
        intro missing
        rw [inputsOf?_eq_none_iff.2 missing] at named
        cases named
      cases gatherInputs suffix rest <;> simp [exists_found, Except.map]

theorem Options.inputs_isOk_iff {options : Options} {environmentSuffix : Option Text} {store : Store} :
    (∃ inputs, options.inputs environmentSuffix store = .ok inputs) ↔
      ∀ path ∈ options.paths, store.find path ≠ .missing := by
  have gathered := @gatherInputs_isOk_iff
    ((options.suffix.orElse fun _ => environmentSuffix).getD defaultSuffix)
    (options.paths.map fun path => (path, store.find path))
  rw [List.forall_mem_map] at gathered
  rw [← gathered, Options.inputs, collectInputs]
  cases gatherInputs _ _ <;> simp [Except.map]

namespace Store

/-! What writing leaves -/

/-- Stores with the same files and folders, whatever the files hold. -/
structure SameNames (one other : Store) : Prop where
  files : one.files.map Prod.fst = other.files.map Prod.fst
  folders : one.folders = other.folders

theorem SameNames.refl (store : Store) : store.SameNames store :=
  ⟨rfl, rfl⟩

theorem SameNames.trans {one other third : Store} (first : one.SameNames other)
    (second : other.SameNames third) : one.SameNames third :=
  ⟨first.files.trans second.files, first.folders.trans second.folders⟩

theorem SameNames.filesBelow {one other : Store} (same : one.SameNames other) (folder : Location) :
    one.filesBelow folder = other.filesBelow folder := by
  have named (store : Store) : store.files.filterMap (fun file => below? file.1 folder) =
      (store.files.map Prod.fst).filterMap (below? · folder) := by
    rw [List.filterMap_map]
    rfl
  rw [Store.filesBelow, Store.filesBelow, named, named, same.files]

theorem SameNames.isFolder {one other : Store} (same : one.SameNames other) (location : Location) :
    one.isFolder location = other.isFolder location := by
  rw [Store.isFolder, Store.isFolder, same.filesBelow, same.folders]

theorem SameNames.follow? {one other : Store} (same : one.SameNames other) (location : Location)
    (pieces : List Text) : one.follow? location pieces = other.follow? location pieces := by
  induction pieces generalizing location with
  | nil => rfl
  | cons piece rest ih => rw [Store.follow?, Store.follow?, same.isFolder, ih, ih, ih]

theorem SameNames.locate? {one other : Store} (same : one.SameNames other) (path : Path) :
    one.locate? path = other.locate? path := by
  rw [Store.locate?, Store.locate?, same.follow?]

theorem sameNames_write (store : Store) (path : Path) (content : Bytes) :
    (store.write path content).SameNames store := by
  unfold write
  split
  · exact .refl store
  · refine ⟨?_, rfl⟩
    rw [List.map_map]
    apply List.map_congr_left
    intro file _
    rw [Function.comp]
    split
    · next same => exact same.symm
    · rfl

/-- Writing to a path changes the file that the path leads to, and no other. -/
theorem content?_write (store : Store) (path : Path) (content : Bytes) (location : Location) :
    (store.write path content).content? location =
      if store.locate? path = some location then (store.content? location).map fun _ => content
      else store.content? location := by
  unfold write
  split
  next lost => rw [lost, if_neg (by simp)]
  next led leads =>
    rw [leads, Store.content?, Store.content?]
    simp only [Option.some.injEq]
    generalize store.files = files
    induction files with
    | nil => simp
    | cons file rest ih => grind

/-- Two paths that do not lead to one file. -/
def Apart (store : Store) (one other : Path) : Prop :=
  ∀ location, store.locate? one = some location → store.locate? other ≠ some location

theorem apart_of_ne {store : Store} {one other : Path}
    (ne : store.locate? one ≠ store.locate? other) : store.Apart one other := by
  intro location leads led
  exact ne (leads.trans led.symm)

theorem read_write_of_apart {store : Store} {path other : Path} (apart : store.Apart path other)
    (content : Bytes) : (store.write path content).read other = store.read other := by
  rw [Store.read, Store.read, (sameNames_write store path content).locate?]
  cases led : store.locate? other with
  | none => rfl
  | some location =>
    rw [Option.bind_some, Option.bind_some, content?_write, if_neg]
    intro leads
    exact apart location leads led

/-! One file -/

/-- What a run that writes makes of the content of a file, if it rewrites the file. -/
def rewriting? (store : Store) (path : Path) : Option Bytes :=
  (graft false (store.read path)).2

theorem rewriting?_eq_some {store : Store} {path : Path} {content : Bytes}
    (rewrites : store.rewriting? path = some content) :
    ∃ result, transformBytes (store.read path) = .ok result ∧ result.output ≠ result.source ∧
      content = Utf8.encode result.output := by
  unfold rewriting? graft at rewrites
  split at rewrites
  · cases rewrites
  next result ran =>
    split at rewrites
    · cases rewrites
    next changed =>
      refine ⟨result, ran, ?_, (Option.some.inj rewrites).symm⟩
      simpa [Transformed.changed] using changed

theorem transformBytes_nil : transformBytes [] = .ok ⟨[], [], {}⟩ := by
  decide

/-- A file that is rewritten is there, and what it gets is new. -/
theorem content?_of_rewriting? {store : Store} {path : Path} {content : Bytes}
    (rewrites : store.rewriting? path = some content) :
    ∃ location old, store.locate? path = some location ∧ store.content? location = some old ∧
      old ≠ content := by
  obtain ⟨result, ran, changed, rfl⟩ := rewriting?_eq_some rewrites
  have known : ((store.locate? path).bind store.content?).isSome := by
    rw [Option.isSome_iff_ne_none]
    intro unknown
    rw [Store.read, unknown, Option.getD_none, transformBytes_nil] at ran
    cases Except.ok.inj ran
    exact changed rfl
  obtain ⟨old, has⟩ := Option.isSome_iff_exists.1 known
  obtain ⟨location, leads, holds⟩ := Option.bind_eq_some_iff.1 has
  refine ⟨location, old, leads, holds, ?_⟩
  rintro rfl
  rw [Store.read, has, Option.getD_some, transformBytes, Utf8.decode_encode] at ran
  exact changed (source_of_transform ran).symm

/-- The store after one file of a run. -/
def afterFile (store : Store) (check : Bool) (path : Path) : Store :=
  match (graft check (store.read path)).2 with
  | some content => store.write path content
  | none => store

theorem run_processFile (check : Bool) (path : Path) (store : Store) :
    (processFile system check path).run store =
      (⟨path, (graft check (store.read path)).1⟩, store.afterFile check path) := by
  unfold processFile afterFile
  cases new : (graft check (store.read path)).2 <;> simp [system, new] <;> rfl

/-! Several files -/

theorem run_mapM_cons (check : Bool) (path : Path) (rest : List Path) (store : Store) :
    ((path :: rest).mapM (processFile system check)).run store =
      let others := (rest.mapM (processFile system check)).run (store.afterFile check path)
      (⟨path, (graft check (store.read path)).1⟩ :: others.1, others.2) := by
  rw [List.mapM_cons, StateT.run_bind, run_processFile]
  rfl

theorem graft_check (content : Bytes) : (graft true content).2 = none := by
  unfold graft
  grind

/-- A run that checks finds each file as it was at the start. -/
theorem run_mapM_checking (paths : List Path) (store : Store) :
    (paths.mapM (processFile system true)).run store =
      (paths.map fun path => ⟨path, (graft true (store.read path)).1⟩, store) := by
  induction paths with
  | nil => rfl
  | cons path rest ih =>
    have kept : store.afterFile true path = store := by rw [afterFile, graft_check]
    rw [run_mapM_cons, kept, ih]
    rfl

/-- The store after a run that writes: a file that is rewritten has its new content, and all others
have what they had. -/
structure Rewrites (store : Store) (paths : List Path) (after : Store) : Prop where
  names : after.SameNames store
  rewritten : ∀ path ∈ paths, ∀ content, store.rewriting? path = some content →
    ∀ location, store.locate? path = some location → after.content? location = some content
  kept : ∀ location, (∀ path ∈ paths, store.locate? path = some location →
    store.rewriting? path = none) → after.content? location = store.content? location
  idle : (∀ path ∈ paths, store.rewriting? path = none) → after = store

theorem afterFile_eq (store : Store) (path : Path) :
    store.afterFile false path = match store.rewriting? path with
      | some content => store.write path content
      | none => store :=
  rfl

theorem sameNames_afterFile (store : Store) (path : Path) :
    (store.afterFile false path).SameNames store := by
  rw [afterFile_eq]
  split
  · exact sameNames_write store path _
  · exact .refl store

theorem read_afterFile {store : Store} {path other : Path} (apart : store.Apart path other) :
    (store.afterFile false path).read other = store.read other := by
  rw [afterFile_eq]
  split
  · exact read_write_of_apart apart _
  · rfl

theorem content?_afterFile {store : Store} {path : Path} {location : Location}
    (other : store.locate? path = some location → store.rewriting? path = none) :
    (store.afterFile false path).content? location = store.content? location := by
  rw [afterFile_eq]
  split
  next content rewrites =>
    rw [content?_write, if_neg]
    intro leads
    rw [other leads] at rewrites
    cases rewrites
  · rfl

theorem content?_afterFile_of_rewriting? {store : Store} {path : Path} {location : Location}
    {content : Bytes} (rewrites : store.rewriting? path = some content)
    (leads : store.locate? path = some location) :
    (store.afterFile false path).content? location = some content := by
  obtain ⟨found, old, led, holds, -⟩ := content?_of_rewriting? rewrites
  cases leads.symm.trans led
  rw [afterFile_eq, rewrites]
  simp only
  rw [content?_write, if_pos leads, holds]
  rfl

theorem Rewrites.cons {store after : Store} {path : Path} {rest : List Path}
    (apart : ∀ other ∈ rest, store.Apart path other)
    (done : (store.afterFile false path).Rewrites rest after) : store.Rewrites (path :: rest) after := by
  have names := sameNames_afterFile store path
  have same {other : Path} (among : other ∈ rest) :
      (store.afterFile false path).rewriting? other = store.rewriting? other := by
    rw [rewriting?, rewriting?, read_afterFile (apart other among)]
  refine ⟨done.names.trans names, ?_, ?_, ?_⟩
  · intro other among content rewrites location leads
    rcases List.mem_cons.1 among with rfl | among
    · rw [done.kept, content?_afterFile_of_rewriting? rewrites leads]
      intro third within led
      exact absurd (names.locate? third ▸ led) (apart third within location leads)
    · exact done.rewritten other among content (same among ▸ rewrites) location
        (names.locate? other ▸ leads)
  · intro location idle
    rw [done.kept, content?_afterFile (idle path List.mem_cons_self)]
    intro other among leads
    rw [same among]
    exact idle other (List.mem_cons_of_mem path among) (names.locate? other ▸ leads)
  · intro idle
    have kept : store.afterFile false path = store := by
      rw [afterFile_eq, idle path List.mem_cons_self]
    rw [← kept]
    apply done.idle
    intro other among
    rw [same among]
    exact idle other (List.mem_cons_of_mem path among)

/-- A run that writes finds each file as it was at the start, if no file is met twice. -/
theorem run_mapM_writing {paths : List Path} {store : Store} (apart : paths.Pairwise store.Apart) :
    ∃ after, (paths.mapM (processFile system false)).run store =
        (paths.map fun path => ⟨path, (graft false (store.read path)).1⟩, after) ∧
      store.Rewrites paths after := by
  induction paths generalizing store with
  | nil =>
    exact ⟨store, rfl, .refl store, by simp, fun _ _ => rfl, fun _ => rfl⟩
  | cons path rest ih =>
    obtain ⟨first, others⟩ := List.pairwise_cons.1 apart
    have names := sameNames_afterFile store path
    obtain ⟨after, ran, done⟩ := @ih (store.afterFile false path) (by
      apply others.imp
      intro one other apart location
      rw [names.locate?, names.locate?]
      exact apart location)
    refine ⟨after, ?_, done.cons first⟩
    have found : (rest.map fun other =>
          (⟨other, (graft false ((store.afterFile false path).read other)).1⟩ : FileSummary)) =
        rest.map fun other => ⟨other, (graft false (store.read other)).1⟩ := by
      apply List.map_congr_left
      intro other among
      rw [read_afterFile (first other among)]
    rw [run_mapM_cons, ran, found]
    rfl

/-! Whole runs -/

theorem run_mapM_find (paths : List Path) (store : Store) :
    (paths.mapM fun path => do return (path, ← system.find path) : StateM Store _).run store =
      (paths.map fun path => (path, store.find path), store) := by
  induction paths with
  | nil => rfl
  | cons path rest ih =>
    rw [List.mapM_cons, List.map_cons]
    calc
      _ = (fun others : List (Path × Found) × Store =>
            ((path, store.find path) :: others.1, others.2))
          ((rest.mapM fun path => do return (path, ← system.find path) : StateM Store _).run store) := rfl
      _ = _ := by rw [ih]

theorem run_eq {environmentSuffix : Option Text} {arguments : List Text} {options : Options}
    (asked : Request.ofArguments arguments = .run options) (store : Store) :
    store.run environmentSuffix arguments =
      match options.inputs environmentSuffix store with
      | .error path => (fail (.notFound path) { exit := 1 }, store)
      | .ok inputs =>
        let ran := (inputs.mapM (processFile system options.check)).run store
        (conclude options.json ran.1, ran.2) := by
  unfold Store.run Command.run
  rw [asked]
  simp only [runOptions]
  rw [StateT.run_bind, run_mapM_find]
  change StateT.run (match options.inputs environmentSuffix store with
    | .error path => pure (fail (.notFound path) { exit := 1 })
    | .ok inputs => (inputs.mapM (processFile system options.check)).bind fun summaries =>
      pure (conclude options.json summaries)) store = _
  cases options.inputs environmentSuffix store with
  | error path => rfl
  | ok inputs => rfl

end Store

/-! Outcomes -/

/-- How a run that only checks tells of what a run that writes does. -/
def FileOutcome.foreseen : FileOutcome → FileOutcome
  | rewritten report => wouldChange report
  | unchanged report => unchanged report
  | wouldChange report => wouldChange report
  | failed error => failed error

def FileSummary.foreseen (summary : FileSummary) : FileSummary :=
  { summary with outcome := summary.outcome.foreseen }

/-- An outcome is what a run that writes has to tell of a file that held the given content. -/
def FileOutcome.Tells (content : Bytes) : FileOutcome → Prop
  | failed error => transformBytes content = .error error
  | unchanged report => ∃ result, transformBytes content = .ok result ∧ result.report = report ∧
      result.output = result.source
  | rewritten report => ∃ result, transformBytes content = .ok result ∧ result.report = report ∧
      result.output ≠ result.source
  | wouldChange _ => False

theorem graft_tells (content : Bytes) : (graft false content).1.Tells content := by
  unfold graft
  split
  next error ran => exact ran
  next result ran =>
    split
    next same => exact ⟨result, ran, rfl, by simpa [Transformed.changed] using same⟩
    next changed => exact ⟨result, ran, rfl, by simpa [Transformed.changed] using changed⟩

theorem graft_foreseen (content : Bytes) :
    (graft true content).1 = (graft false content).1.foreseen := by
  unfold graft
  split
  · rfl
  · split <;> rfl

theorem graft_rewritten_iff (content : Bytes) :
    (∃ report, (graft false content).1 = .rewritten report) ↔ (graft false content).2 ≠ none := by
  unfold graft
  split
  · simp
  · split <;> simp

theorem exit_conclude (json : Bool) (summaries : List FileSummary) :
    (conclude json summaries).exit = 0 ↔
      ∀ summary ∈ summaries, summary.outcome.isFailed = false ∧ summary.outcome.isPending = false := by
  have failing : failure? summaries = none ↔
      ∀ summary ∈ summaries, summary.outcome.isFailed = false ∧ summary.outcome.isPending = false := by
    unfold failure?
    grind [List.countP_pos_iff]
  rw [← failing]
  unfold conclude
  cases failure? summaries with
  | none => cases json <;> simp
  | some failure => simp [fail]

/-- A file keeps a run that checks from success if it fails or would be rewritten. -/
theorem FileOutcome.idle_foreseen_iff {content : Bytes} {outcome : FileOutcome}
    (tells : outcome.Tells content) :
    (outcome.foreseen.isFailed = false ∧ outcome.foreseen.isPending = false) ↔
      (outcome.isFailed = false ∧ outcome.isPending = false) ∧ ¬ ∃ report, outcome = .rewritten report := by
  cases outcome with
  | wouldChange report => exact tells.elim
  | unchanged report => simp [foreseen, isFailed, isPending]
  | rewritten report => simp [foreseen, isFailed, isPending]
  | failed error => simp [foreseen, isFailed, isPending]

/-- Two runs over the same files from one store, of which the first only checks and the second
writes. -/
structure Foresees (store : Store) (json : Bool) (inputs : List Path) (summaries : List FileSummary)
    (checked written : Outcome × Store) : Prop where
  /-- Both runs tell of all files in the same order, and of each what its old content brings. -/
  paths : summaries.map FileSummary.path = inputs
  tells : ∀ summary ∈ summaries, summary.outcome.Tells (store.read summary.path)
  outcome_written : written.1 = conclude json summaries
  outcome_checked : checked.1 = conclude json (summaries.map FileSummary.foreseen)
  /-- A run that checks leaves the store as it is; one that writes leaves the names of files and
  folders. -/
  unchanged : checked.2 = store
  names : written.2.SameNames store
  /-- A file that is rewritten is there, and gets what its old content became. -/
  rewritten : ∀ summary ∈ summaries, ∀ report, summary.outcome = .rewritten report →
    ∃ location old result, store.locate? summary.path = some location ∧
      store.content? location = some old ∧ transformBytes old = .ok result ∧
      written.2.content? location = some (Utf8.encode result.output) ∧ Utf8.encode result.output ≠ old
  /-- A file that no rewritten path leads to keeps its content. -/
  kept : ∀ location, (∀ summary ∈ summaries, store.locate? summary.path = some location →
    ∀ report, summary.outcome ≠ .rewritten report) →
    written.2.content? location = store.content? location
  exit_iff : checked.1.exit = 0 ↔ written.1.exit = 0 ∧ written.2 = store

/-- The summaries of a run that writes, from what the files hold before. -/
def Store.summaries (store : Store) (paths : List Path) : List FileSummary :=
  paths.map fun path => ⟨path, (graft false (store.read path)).1⟩

theorem Store.Rewrites.eq_iff {store after : Store} {paths : List Path}
    (done : store.Rewrites paths after) :
    after = store ↔ ∀ summary ∈ store.summaries paths, ¬ ∃ report, summary.outcome = .rewritten report := by
  simp only [summaries, List.forall_mem_map, graft_rewritten_iff, not_not]
  refine ⟨?_, done.idle⟩
  rintro rfl path among
  by_contra rewrites
  obtain ⟨content, rewrites⟩ := Option.ne_none_iff_exists'.1 rewrites
  obtain ⟨location, old, leads, holds, new⟩ := content?_of_rewriting? rewrites
  have gets := done.rewritten path among content rewrites location leads
  rw [holds] at gets
  exact new (Option.some.inj gets)

theorem foresees_of_rewrites {store after : Store} {json : Bool} {inputs : List Path}
    (done : store.Rewrites inputs after) :
    Foresees store json inputs (store.summaries inputs)
      (conclude json ((store.summaries inputs).map FileSummary.foreseen), store)
      (conclude json (store.summaries inputs), after) := by
  have tells : ∀ summary ∈ store.summaries inputs,
      summary.outcome.Tells (store.read summary.path) := by
    rw [Store.summaries, List.forall_mem_map]
    intro path _
    exact graft_tells _
  refine ⟨?_, tells, rfl, rfl, rfl, done.names, ?_, ?_, ?_⟩
  · rw [Store.summaries, List.map_map]
    exact List.map_id inputs
  · rw [Store.summaries, List.forall_mem_map]
    intro path among report outcome
    obtain ⟨content, rewrites⟩ := Option.ne_none_iff_exists'.1
      ((graft_rewritten_iff (store.read path)).1 ⟨report, outcome⟩)
    obtain ⟨location, old, leads, holds, new⟩ := Store.content?_of_rewriting? rewrites
    obtain ⟨result, ran, -, rfl⟩ := Store.rewriting?_eq_some rewrites
    have found : store.read path = old := by
      rw [Store.read, leads, Option.bind_some, holds, Option.getD_some]
    exact ⟨location, old, result, leads, holds, found ▸ ran,
      done.rewritten path among _ rewrites location leads, new.symm⟩
  · intro location idle
    apply done.kept
    rw [Store.summaries, List.forall_mem_map] at idle
    intro path among leads
    by_contra rewrites
    obtain ⟨report, outcome⟩ := (graft_rewritten_iff (store.read path)).2 rewrites
    exact idle path among leads report outcome
  · rw [exit_conclude, exit_conclude, List.forall_mem_map, done.eq_iff, ← forall₂_and]
    apply forall₂_congr
    intro summary among
    exact FileOutcome.idle_foreseen_iff (tells summary among)

/-- A run that only checks foresees a run that writes. If a path names nothing, both end with the same
failure and neither changes the store. -/
theorem check_foresees_run {environmentSuffix : Option Text} {arguments checking : List Text}
    {options : Options} (store : Store) (asked : Request.ofArguments arguments = .run options)
    (writes : options.check = false)
    (checks : Request.ofArguments checking = .run { options with check := true })
    (apart : ∀ inputs, options.inputs environmentSuffix store = .ok inputs →
      inputs.Pairwise store.Apart) :
    let written := store.run environmentSuffix arguments
    let checked := store.run environmentSuffix checking
    store.run environmentSuffix ("--check".toList :: arguments) = checked ∧
    ((∃ path ∈ options.paths, store.find path = .missing) →
      written.2 = store ∧ checked = written ∧ written.1.exit ≠ 0) ∧
    ((∀ path ∈ options.paths, store.find path ≠ .missing) →
      ∃ inputs summaries, options.inputs environmentSuffix store = .ok inputs ∧
        Foresees store options.json inputs summaries checked written) := by
  intro written checked
  have ran_writing : written = _ := Store.run_eq asked store
  have ran_checking : checked = _ := Store.run_eq checks store
  have first : store.run environmentSuffix ("--check".toList :: arguments) = _ :=
    Store.run_eq (ofArguments_checking asked writes) store
  have same : ({ options with check := true } : Options).inputs environmentSuffix store =
    options.inputs environmentSuffix store := rfl
  rw [same] at ran_checking
  refine ⟨first.trans (Store.run_eq checks store).symm, ?_, ?_⟩
  · rintro ⟨path, among, missing⟩
    cases collected : options.inputs environmentSuffix store with
    | ok inputs => exact absurd missing (Options.inputs_isOk_iff.1 ⟨inputs, collected⟩ path among)
    | error lost =>
      rw [collected] at ran_checking ran_writing
      rw [ran_writing, ran_checking]
      exact ⟨rfl, rfl, by simp [fail]⟩
  · intro named
    obtain ⟨inputs, collected⟩ := Options.inputs_isOk_iff.2 named
    obtain ⟨after, ran, done⟩ := Store.run_mapM_writing (apart inputs collected)
    refine ⟨inputs, store.summaries inputs, collected, ?_⟩
    rw [collected] at ran_checking ran_writing
    simp only [writes, ran] at ran_writing
    simp only [Store.run_mapM_checking] at ran_checking
    have told : (inputs.map fun path => (⟨path, (graft true (store.read path)).1⟩ : FileSummary)) =
        (store.summaries inputs).map FileSummary.foreseen := by
      rw [Store.summaries, List.map_map]
      apply List.map_congr_left
      intro path _
      rw [graft_foreseen]
      rfl
    rw [ran_writing, ran_checking, told]
    exact foresees_of_rewrites done

/-- In a folder with two files the first gets an import, and the second is no Go file. -/
theorem check_foresees_run_of_failing :
    let store : Store :=
      { files := [(["a.pb.go".toList], Utf8.encode "package a\n//@goimport:\"t\"\n".toList),
          (["b.pb.go".toList], Utf8.encode "x".toList)] }
    ∃ summaries, Foresees store false ["./a.pb.go".toList, "./b.pb.go".toList] summaries
      (store.run none ["--check".toList, ".".toList]) (store.run none [".".toList]) := by
  intro store
  have collected : ({ paths := [".".toList] } : Options).inputs none store =
      .ok ["./a.pb.go".toList, "./b.pb.go".toList] := by decide
  have foreseen := @check_foresees_run none [".".toList] ["--check".toList, ".".toList]
    { paths := [".".toList] } store rfl rfl rfl (by
      intro inputs found
      cases collected.symm.trans found
      exact List.pairwise_pair.2 (Store.apart_of_ne (by decide)))
  obtain ⟨inputs, summaries, found, told⟩ := foreseen.2.2 (by decide)
  cases collected.symm.trans found
  exact ⟨summaries, told⟩

end GoGraft.Command
