import GoGraft.Proofs.CheckRuns
import GoGraft.Proofs.PathOrder

/-! The files that a run works on. An argument stands for the file that it names, or for the files with
the right ending at any depth below the folder that it names. Main statement: a run fails at the first
argument that names nothing, and else works on what its arguments stand for, each file once and in the
order of paths, whatever the order of the arguments. In a directory tree every input leads to the file that
it stands for, and equal paths lead to one file. -/

namespace GoGraft.Command

/-! ### What arguments stand for -/

/-- What an argument stands for, where `find` tells what a path names. -/
inductive StandsFor (suffix : Text) (find : Path → Found) (argument : Path) : Path → Prop where
  | file (named : find argument = .file) : StandsFor suffix find argument argument
  | below {below : List (List Text)} {names : List Text} {name : Text}
      (named : find argument = .folder below) (held : names ++ [name] ∈ below) (ending : suffix <:+ name) :
      StandsFor suffix find argument ((names ++ [name]).foldl Path.join argument)

/-- The first argument that names nothing. -/
def FirstMissing (find : Path → Found) (arguments : List Path) (path : Path) : Prop :=
  ∃ before after, arguments = before ++ path :: after ∧ find path = .missing ∧
    ∀ other ∈ before, find other ≠ .missing

theorem hasSuffix_iff {suffix : Text} {names : List Text} :
    hasSuffix suffix names ↔ ∃ front name, names = front ++ [name] ∧ suffix <:+ name := by
  have ends (name : Text) : (Text.before? suffix name).isSome ↔ suffix <:+ name := by
    simp only [Option.isSome_iff_exists, Text.before?_eq_some]
    exact ⟨fun ⟨rest, split⟩ => ⟨rest, split.symm⟩, fun ⟨rest, split⟩ => ⟨rest, split.symm⟩⟩
  rcases List.eq_nil_or_concat' names with rfl | ⟨front, last, rfl⟩
  · simp [hasSuffix]
  · rw [hasSuffix, List.getLast?_concat, Option.any_some, ends]
    constructor
    · exact fun ending => ⟨front, last, rfl, ending⟩
    · rintro ⟨others, name, same, ending⟩
      cases (List.append_inj' same rfl).2
      exact ending

section Gathering

variable {suffix : Text} {find : Path → Found}

theorem mem_inputsOf?_iff {argument input : Path} {inputs : List Path}
    (named : inputsOf? suffix argument (find argument) = some inputs) :
    input ∈ inputs ↔ StandsFor suffix find argument input := by
  cases found : find argument with
  | missing =>
    rw [found] at named
    cases named
  | file =>
    rw [found] at named
    cases named
    rw [List.mem_singleton]
    constructor
    · rintro rfl
      exact .file found
    · rintro (_ | ⟨folder, _, _⟩)
      · rfl
      · rw [found] at folder
        cases folder
  | folder below =>
    rw [found] at named
    cases named
    rw [List.mem_map]
    constructor
    · rintro ⟨names, held, rfl⟩
      obtain ⟨inside, ends⟩ := List.mem_filter.1 held
      obtain ⟨front, name, rfl, ending⟩ := hasSuffix_iff.1 ends
      exact .below found inside ending
    · rintro (file | ⟨folder, held, ending⟩)
      · rw [found] at file
        cases file
      · cases found.symm.trans folder
        exact ⟨_, List.mem_filter.2 ⟨held, hasSuffix_iff.2 ⟨_, _, rfl, ending⟩⟩, rfl⟩

theorem mem_gatherInputs_iff {arguments inputs : List Path} {input : Path}
    (gathered : gatherInputs suffix (arguments.map fun path => (path, find path)) = .ok inputs) :
    input ∈ inputs ↔ ∃ argument ∈ arguments, StandsFor suffix find argument input := by
  induction arguments generalizing inputs with
  | nil =>
    cases gathered
    simp
  | cons argument rest ih =>
    rw [List.map_cons, gatherInputs] at gathered
    cases named : inputsOf? suffix argument (find argument) with
    | none =>
      rw [named] at gathered
      cases gathered
    | some own =>
      rw [named] at gathered
      cases others : gatherInputs suffix (rest.map fun path => (path, find path)) with
      | error path =>
        rw [others] at gathered
        cases gathered
      | ok later =>
        rw [others] at gathered
        cases gathered
        rw [List.mem_append, mem_inputsOf?_iff named, ih others, List.exists_mem_cons_iff]

theorem gatherInputs_eq_error_iff {arguments : List Path} {path : Path} :
    gatherInputs suffix (arguments.map fun path => (path, find path)) = .error path ↔
      FirstMissing find arguments path := by
  induction arguments with
  | nil => simp [gatherInputs, FirstMissing]
  | cons argument rest ih =>
    rw [List.map_cons, gatherInputs]
    by_cases missing : find argument = .missing
    · rw [inputsOf?_eq_none_iff.2 missing]
      constructor
      · rintro ⟨⟩
        exact ⟨[], rest, rfl, missing, List.forall_mem_nil _⟩
      · rintro ⟨before, after, parts, _, known⟩
        cases before with
        | nil =>
          cases parts
          rfl
        | cons other before =>
          cases parts
          exact absurd missing (known argument List.mem_cons_self)
    · obtain ⟨own, named⟩ := Option.ne_none_iff_exists'.1 (mt inputsOf?_eq_none_iff.1 missing)
      rw [named]
      have later : (gatherInputs suffix (rest.map fun path => (path, find path))).map (own ++ ·) =
          .error path ↔ FirstMissing find rest path := by
        rw [← ih]
        cases gatherInputs suffix (rest.map fun path => (path, find path)) <;> simp [Except.map]
      refine later.trans ⟨?_, ?_⟩
      · rintro ⟨before, after, rfl, lost, known⟩
        exact ⟨argument :: before, after, rfl, lost, List.forall_mem_cons.2 ⟨missing, known⟩⟩
      · rintro ⟨before, after, parts, lost, known⟩
        cases before with
        | nil =>
          cases parts
          exact absurd lost missing
        | cons other before =>
          cases parts
          exact ⟨before, after, rfl, lost, (List.forall_mem_cons.1 known).2⟩

end Gathering

/-! ### The list of inputs -/

/-- A list of all that arguments stand for, each path once and in the order of paths. -/
structure Collects (suffix : Text) (find : Path → Found) (arguments inputs : List Path) : Prop where
  increasing : inputs.Pairwise fun one other => one.components < other.components
  wanted : ∀ input ∈ inputs, ∃ argument ∈ arguments, StandsFor suffix find argument input
  complete : ∀ argument ∈ arguments, ∀ path, StandsFor suffix find argument path →
    ∃ input ∈ inputs, input.components = path.components

section Collecting

variable {suffix : Text} {find : Path → Found} {arguments inputs : List Path}

theorem collects_of_ok
    (collected : collectInputs suffix (arguments.map fun path => (path, find path)) = .ok inputs) :
    Collects suffix find arguments inputs := by
  rw [collectInputs] at collected
  cases gathered : gatherInputs suffix (arguments.map fun path => (path, find path)) with
  | error path =>
    rw [gathered] at collected
    cases collected
  | ok all =>
    rw [gathered] at collected
    cases collected
    have same := sortBy_perm Path.before all
    have sorted := pairwise_sortBy Path.before_total Path.before_trans all
    refine ⟨Path.pairwise_dropRepeated sorted, fun input inside => ?_, fun argument among path stands => ?_⟩
    · have held := same.mem_iff.1 ((Path.dropRepeated_sublist _).subset inside)
      exact (mem_gatherInputs_iff gathered).1 held
    · have held := (mem_gatherInputs_iff gathered).2 ⟨argument, among, stands⟩
      exact Path.exists_mem_dropRepeated (same.mem_iff.2 held)

theorem Collects.mem_components (collects : Collects suffix find arguments inputs)
    {parts : List PathComponent} : parts ∈ inputs.map Path.components ↔
      ∃ argument ∈ arguments, ∃ path, StandsFor suffix find argument path ∧ path.components = parts := by
  rw [List.mem_map]
  constructor
  · rintro ⟨input, inside, rfl⟩
    obtain ⟨argument, among, stands⟩ := collects.wanted input inside
    exact ⟨argument, among, input, stands, rfl⟩
  · rintro ⟨argument, among, path, stands, rfl⟩
    exact collects.complete argument among path stands

/-- The order of the arguments does not matter, nor how often each of them is given. -/
theorem Collects.unique {others again : List Path} (collects : Collects suffix find arguments inputs)
    (also : Collects suffix find others again) (same : ∀ path, path ∈ others ↔ path ∈ arguments) :
    again.map Path.components = inputs.map Path.components := by
  refine Path.map_components_eq also.increasing collects.increasing fun parts => ?_
  rw [also.mem_components, collects.mem_components]
  simp only [same]

theorem collectInputs_isOk_iff :
    (∃ inputs, collectInputs suffix (arguments.map fun path => (path, find path)) = .ok inputs) ↔
      ∀ path ∈ arguments, find path ≠ .missing := by
  have gathered := @gatherInputs_isOk_iff suffix (arguments.map fun path => (path, find path))
  rw [List.forall_mem_map] at gathered
  rw [← gathered, collectInputs]
  cases gatherInputs suffix _ <;> simp [Except.map]

theorem collectInputs_eq_error_iff {path : Path} :
    collectInputs suffix (arguments.map fun path => (path, find path)) = .error path ↔
      FirstMissing find arguments path := by
  rw [← @gatherInputs_eq_error_iff suffix, collectInputs]
  cases gatherInputs suffix _ <;> simp [Except.map]

end Collecting

end GoGraft.Command

namespace GoGraft.Path

/-! ### Paths into a folder -/

/-- A name that a file or a folder can have. -/
structure IsName (name : Text) : Prop where
  nonempty : name ≠ []
  single : '/' ∉ name
  other : name ≠ ['.'] ∧ name ≠ ['.', '.']

theorem pieces_ne_nil (path : Path) : pieces path ≠ [] := by
  fun_cases pieces path <;> simp

theorem pieces_append_slash (front back : Path) :
    pieces (front ++ '/' :: back) = pieces front ++ pieces back := by
  induction front with
  | nil => rfl
  | cons c front ih =>
    by_cases slash : c = '/'
    · subst slash
      rw [List.cons_append, pieces, ih, pieces]
      rfl
    · rw [List.cons_append, pieces, pieces, ih]
      · cases some_pieces : pieces front with
        | nil => exact absurd some_pieces (pieces_ne_nil front)
        | cons piece more => rfl
      · exact slash
      · exact slash

theorem pieces_of_single {name : Text} (single : '/' ∉ name) : pieces name = [name] := by
  induction name with
  | nil => rfl
  | cons c name ih =>
    obtain ⟨slash, others⟩ := not_or.1 (mt List.mem_cons.2 single)
    rw [pieces, ih others]
    exact Ne.symm slash

/-- A name is put behind the pieces of its folder; a slash at the end of the folder is not doubled. -/
theorem pieces_join {folder : Path} {name : Text} (single : '/' ∉ name) :
    ∃ front, (pieces folder = front ∨ pieces folder = front ++ [[]]) ∧
      pieces (join folder name) = front ++ [name] := by
  rw [join]
  split
  next slash =>
    obtain ⟨front, rfl⟩ := List.getLast?_eq_some_iff.1 slash
    refine ⟨pieces front, .inr (pieces_append_slash front []), ?_⟩
    rw [List.append_assoc, List.singleton_append, pieces_append_slash, pieces_of_single single]
  next => exact ⟨pieces folder, .inl rfl, by rw [pieces_append_slash, pieces_of_single single]⟩

end GoGraft.Path

namespace GoGraft.Command.Store

/-! ### Directory trees -/

/-- A store as directories are: files have names, and no file is below another one. -/
structure IsTree (store : Store) : Prop where
  named : ∀ file ∈ store.files, ∀ name ∈ file.1, Path.IsName name
  apart : ∀ file ∈ store.files, ∀ other ∈ store.files, file.1 <+: other.1 → file.1 = other.1

theorem below?_eq_some {location folder names : Location} :
    below? location folder = some names ↔ location = folder ++ names := by
  fun_induction below? location folder with
  | case1 => simp
  | case2 => simp
  | case3 location other folder ih => simp [ih]
  | case4 name location other folder different => simp [different]

theorem mem_filesBelow {store : Store} {folder names : Location} :
    names ∈ store.filesBelow folder ↔ names ≠ [] ∧ ∃ content, (folder ++ names, content) ∈ store.files := by
  simp only [filesBelow, List.mem_filter, List.mem_filterMap, below?_eq_some]
  constructor
  · rintro ⟨⟨⟨location, content⟩, held, rfl⟩, some_name⟩
    exact ⟨by simpa using some_name, content, held⟩
  · rintro ⟨some_name, content, held⟩
    exact ⟨⟨_, held, rfl⟩, by simpa using some_name⟩

theorem isSome_content?_iff {store : Store} {location : Location} :
    (store.content? location).isSome ↔ ∃ content, (location, content) ∈ store.files := by
  simp [content?]

theorem isFolder_of_file {store : Store} {location names : Location} {content : Bytes}
    (below : names ≠ []) (file : (location ++ names, content) ∈ store.files) : store.isFolder location := by
  have some_file : (store.filesBelow location).isEmpty = false := by
    rw [List.isEmpty_eq_false_iff_exists_mem]
    exact ⟨names, mem_filesBelow.2 ⟨below, content, file⟩⟩
  simp [isFolder, some_file]

theorem follow?_append (store : Store) (location : Location) (first second : List Text) :
    store.follow? location (first ++ second) =
      (store.follow? location first).bind fun place => store.follow? place second := by
  induction first generalizing location with
  | nil => rfl
  | cons piece rest ih =>
    rw [List.cons_append, follow?, follow?, ih, ih, ih]
    split
    · rfl
    · split
      · rfl
      · split
        · split <;> rfl
        · rfl

theorem follow?_name {store : Store} {location : Location} {name : Text} (folder : store.isFolder location)
    (named : Path.IsName name) : store.follow? location [name] = some (location ++ [name]) := by
  simp [follow?, folder, named.nonempty, named.other]

theorem locate?_join {store : Store} {folder : Path} {location : Location} {name : Text}
    (leads : store.locate? folder = some location) (isFolder : store.isFolder location)
    (named : Path.IsName name) : store.locate? (folder.join name) = some (location ++ [name]) := by
  rw [locate?] at leads
  split at leads
  · cases leads
  next relative =>
    obtain ⟨some_folder, first⟩ := not_or.1 relative
    have start : ¬ ((folder.join name).isEmpty ∨ (folder.join name).head? = some '/') := by
      cases folder with
      | nil => simp at some_folder
      | cons c folder => unfold Path.join; split <;> simpa using first
    obtain ⟨front, pieces, joined⟩ := @Path.pieces_join folder name named.single
    rw [locate?, if_neg start, joined, follow?_append]
    have reached : store.follow? [] front = some location := by
      rcases pieces with same | same
      · rwa [same] at leads
      · rw [same, follow?_append] at leads
        obtain ⟨place, led, rest⟩ := Option.bind_eq_some_iff.1 leads
        rw [follow?] at rest
        split at rest
        · cases rest
        · cases rest
          exact led
    rw [reached, Option.bind_some, follow?_name isFolder named]

/-- The path of a file below a folder leads to the file. -/
theorem locate?_below {store : Store} (tree : store.IsTree) {folder : Path} {location names : Location}
    {content : Bytes} (leads : store.locate? folder = some location)
    (file : (location ++ names, content) ∈ store.files) :
    store.locate? (names.foldl Path.join folder) = some (location ++ names) := by
  induction names generalizing folder location with
  | nil => rw [List.append_nil]; exact leads
  | cons name names ih =>
    have named := tree.named _ file name (by simp)
    have next := locate?_join leads (isFolder_of_file (List.cons_ne_nil _ _) file) named
    have parts : location ++ name :: names = location ++ [name] ++ names := by simp
    rw [parts] at file ⊢
    exact ih next file

/-- The location that components lead to from another one, whatever folders are there. -/
def walk? : Location → List PathComponent → Option Location
  | location, [] => some location
  | location, .name name :: rest => walk? (location ++ [name]) rest
  | location, .parent :: rest => if location.isEmpty then none else walk? location.dropLast rest
  | location, _ :: rest => walk? location rest

theorem walk?_of_follow? {store : Store} {location place : Location} {pieces : List Text}
    (leads : store.follow? location pieces = some place) :
    walk? location (pieces.filterMap PathComponent.ofPiece?) = some place := by
  fun_induction follow? store location pieces with
  | case1 => exact leads
  | case2 => cases leads
  | case3 location piece rest _ skipped ih =>
    rw [List.filterMap_cons_none (by rw [PathComponent.ofPiece?, if_pos skipped])]
    exact ih leads
  | case4 => cases leads
  | case5 location rest _ inside _ ih =>
    have up : PathComponent.ofPiece? ['.', '.'] = some .parent := rfl
    rw [List.filterMap_cons_some up, walk?, if_neg inside]
    exact ih leads
  | case6 location piece rest _ kept other ih =>
    rw [List.filterMap_cons_some (by rw [PathComponent.ofPiece?, if_neg kept, if_neg other]), walk?]
    exact ih leads

theorem walk?_components {store : Store} {path : Path} {place : Location}
    (leads : store.locate? path = some place) : walk? [] path.components = some place := by
  rw [locate?] at leads
  split at leads
  · cases leads
  next relative =>
    have led := walk?_of_follow? leads
    rw [Path.components]
    have start : Path.start? path = none ∨ Path.start? path = some .current := by
      fun_cases Path.start? path <;> simp_all
    rcases start with none | current
    · rw [none]
      exact led
    · rw [current]
      exact led

/-- Equal paths lead to one place, if they lead anywhere. -/
theorem locate?_eq_of_components {store : Store} {one other : Path} {place location : Location}
    (same : one.components = other.components) (first : store.locate? one = some place)
    (second : store.locate? other = some location) : place = location := by
  have led := walk?_components first
  rw [same, walk?_components second] at led
  exact (Option.some.inj led).symm

/-- What a store has where a path leads: a file, a folder with all files below it at any depth, or
neither. -/
def Shows (store : Store) (path : Path) : Found → Prop
  | .file => ∃ location content, store.locate? path = some location ∧ (location, content) ∈ store.files
  | .folder below => ∃ location, store.locate? path = some location ∧
      (∀ content, (location, content) ∉ store.files) ∧ store.isFolder location ∧
        ∀ names, names ∈ below ↔ names ≠ [] ∧ ∃ content, (location ++ names, content) ∈ store.files
  | .missing => ∀ location, store.locate? path = some location →
      (∀ content, (location, content) ∉ store.files) ∧ store.isFolder location = false

theorem shows_find (store : Store) (path : Path) : store.Shows path (store.find path) := by
  rw [find]
  split
  next astray => simp [Shows, astray]
  next location leads =>
    split
    next held =>
      obtain ⟨content, file⟩ := isSome_content?_iff.1 held
      exact ⟨location, content, leads, file⟩
    next absent =>
      have none := not_exists.1 (mt isSome_content?_iff.2 absent)
      split
      next folder => exact ⟨location, leads, none, folder, fun names => mem_filesBelow⟩
      next other =>
        intro place led
        cases leads.symm.trans led
        exact ⟨none, by simpa using other⟩

/-- What an argument stands for in a directory tree: the files that it leads to, or that lie below the
folder that it leads to; and the path of each of them leads to it. -/
theorem standsFor_iff {store : Store} (tree : store.IsTree) {suffix : Text} {argument path : Path} :
    StandsFor suffix store.find argument path ↔
      ∃ place location content, store.locate? argument = some place ∧
        store.locate? path = some location ∧ (location, content) ∈ store.files ∧
        (path = argument ∨ ∃ names name, location = place ++ (names ++ [name]) ∧
          path = (names ++ [name]).foldl Path.join argument ∧ suffix <:+ name) := by
  have shown := store.shows_find argument
  constructor
  · rintro (named | @⟨_, names, name, named, held, ending⟩)
    · rw [named] at shown
      obtain ⟨location, content, leads, file⟩ := shown
      exact ⟨location, location, content, leads, leads, file, .inl rfl⟩
    · rw [named] at shown
      obtain ⟨place, leads, _, _, below⟩ := shown
      obtain ⟨_, content, file⟩ := (below _).1 held
      exact ⟨place, _, content, leads, locate?_below tree leads file, file,
        .inr ⟨names, name, rfl, rfl, ending⟩⟩
  · rintro ⟨place, location, content, leads, led, file, rfl | ⟨names, name, rfl, rfl, ending⟩⟩
    · cases named : store.find path with
      | file => exact .file named
      | folder below =>
        rw [named] at shown
        obtain ⟨other, found, none, _⟩ := shown
        cases found.symm.trans led
        exact absurd file (none content)
      | missing =>
        rw [named] at shown
        exact absurd file ((shown location led).1 content)
    · -- A folder with a file below it is no file itself.
      have unheld : ∀ other, (place, other) ∉ store.files := by
        intro other held
        have same := tree.apart _ held _ file (List.prefix_append _ _)
        simp at same
      have folder := isFolder_of_file (by simp) file
      cases named : store.find argument with
      | file =>
        rw [named] at shown
        obtain ⟨other, old, found, held⟩ := shown
        cases found.symm.trans leads
        exact absurd held (unheld old)
      | missing =>
        rw [named] at shown
        have missing := (shown place leads).2
        rw [folder] at missing
        cases missing
      | folder below =>
        rw [named] at shown
        obtain ⟨other, found, _, _, all⟩ := shown
        cases found.symm.trans leads
        exact .below named ((all _).2 ⟨by simp, content, file⟩) ending

end GoGraft.Command.Store

namespace GoGraft.Command

/-- A run works on the files that its arguments stand for, or fails at the first argument that names
nothing. The inputs are strictly increasing in the order of paths, hold all that the arguments stand for and
nothing else, and are the same, up to the equality of paths, for the same arguments in any order and
number. In a directory tree a path names nothing if it leads to neither a file nor a folder; an argument
stands for the file that it leads to, or for all files with the right ending at any depth below the folder
that it leads to; the path of each of them leads to it, and equal paths lead to one file. -/
theorem inputs_collected (suffix : Text) (find : Path → Found) (arguments : List Path) :
    let collect := fun arguments => collectInputs suffix (arguments.map fun path => (path, find path))
    ((∃ inputs, collect arguments = .ok inputs) ↔ ∀ path ∈ arguments, find path ≠ .missing) ∧
    (∀ path, collect arguments = .error path ↔ FirstMissing find arguments path) ∧
    (∀ inputs, collect arguments = .ok inputs → Collects suffix find arguments inputs ∧
      ∀ others, (∀ path, path ∈ others ↔ path ∈ arguments) → ∃ again, collect others = .ok again ∧
        again.map Path.components = inputs.map Path.components) ∧
    ∀ store : Store, store.IsTree → (∀ path, store.Shows path (store.find path)) ∧
      (∀ argument path, StandsFor suffix store.find argument path ↔
        ∃ place location content, store.locate? argument = some place ∧
          store.locate? path = some location ∧ (location, content) ∈ store.files ∧
          (path = argument ∨ ∃ names name, location = place ++ (names ++ [name]) ∧
            path = (names ++ [name]).foldl Path.join argument ∧ suffix <:+ name)) ∧
      ∀ one other place location, one.components = other.components → store.locate? one = some place →
        store.locate? other = some location → place = location := by
  intro collect
  refine ⟨collectInputs_isOk_iff, fun path => collectInputs_eq_error_iff, fun inputs collected => ?_,
    fun store tree => ⟨store.shows_find, fun argument path => Store.standsFor_iff tree,
      fun _ _ _ _ => Store.locate?_eq_of_components⟩⟩
  refine ⟨collects_of_ok collected, fun others same => ?_⟩
  have named := collectInputs_isOk_iff.1 ⟨inputs, collected⟩
  obtain ⟨again, also⟩ := (@collectInputs_isOk_iff suffix find others).2
    fun path among => named path ((same path).1 among)
  exact ⟨again, also, (collects_of_ok collected).unique (collects_of_ok also) same⟩

/-- Arguments of which one names a file below two others, and one is given twice. -/
theorem inputs_collected_of_overlapping :
    let names := [["a", "x.pb.go"], ["a", "b", "y.pb.go"], ["a", "b", "z.go"]]
    let store : Store := { files := names.map fun location => (location.map String.toList, []) }
    let collect := fun (arguments : List String) =>
      collectInputs ".pb.go".toList ((arguments.map String.toList).map fun path => (path, store.find path))
    let inputs := ["a//b/y.pb.go", "a/b/z.go", "a/x.pb.go"].map String.toList
    store.IsTree ∧ collect ["a//b", "a", "a/b/z.go", "a"] = .ok inputs ∧
      Collects ".pb.go".toList store.find (["a//b", "a", "a/b/z.go", "a"].map String.toList) inputs ∧
      (∃ again, collect ["a/b/z.go", "a", "a//b"] = .ok again ∧
        again.map Path.components = inputs.map Path.components) ∧
      FirstMissing store.find (["a", "b", "c"].map String.toList) "b".toList := by
  intro names store collect inputs
  have tree : store.IsTree := by
    constructor
    · have all : ∀ file ∈ store.files, ∀ name ∈ file.1,
          name ≠ [] ∧ '/' ∉ name ∧ name ≠ ['.'] ∧ name ≠ ['.', '.'] := by decide +kernel
      exact fun file held name inside =>
        have ⟨nonempty, single, other⟩ := all file held name inside
        ⟨nonempty, single, other⟩
    · decide +kernel
  have collected : collect ["a//b", "a", "a/b/z.go", "a"] = .ok inputs := by decide +kernel
  obtain ⟨-, -, listed, -⟩ := inputs_collected ".pb.go".toList store.find
    (["a//b", "a", "a/b/z.go", "a"].map String.toList)
  obtain ⟨collects, again⟩ := listed inputs collected
  obtain ⟨-, fails, -⟩ := inputs_collected ".pb.go".toList store.find (["a", "b", "c"].map String.toList)
  refine ⟨tree, collected, collects, again _ fun path => ?_, (fails "b".toList).1 (by decide +kernel)⟩
  simp only [List.map_cons, List.map_nil, List.mem_cons, List.not_mem_nil]
  tauto

end GoGraft.Command
