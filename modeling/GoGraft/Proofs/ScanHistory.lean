import GoGraft.Proofs.EnclosingStruct

/-! The directives of a source as a history of its lines. Every directive is met on a line, with the
struct that is in force there; what is gathered from a source can be read off the list of all that was
met, without going through it line by line. -/

namespace GoGraft

/-! ### Maps and what they were made from -/

/-- The values that come with a key. -/
def valuesOf {α : Type} (key : Text) (pairs : List (Text × α)) : List α :=
  (pairs.filter fun pair => pair.1 = key).map Prod.snd

namespace Ordered

variable {α : Type}

theorem find?_updateEntries (key other : Text) (change : Option α → α) (entries : List (Text × α)) :
    find? other (updateEntries key change entries) =
      if other = key then some (change (find? key entries)) else find? other entries := by
  induction entries with
  | nil =>
    by_cases same : other = key
    · simp [updateEntries, find?, same]
    · simp [updateEntries, find?, same, Ne.symm same]
  | cons entry rest ih =>
    obtain ⟨held, value⟩ := entry
    rw [updateEntries]
    split
    next same =>
      subst same
      by_cases own : other = held
      · simp [find?, own]
      · simp [find?, own, Ne.symm own]
    next apart =>
      rw [find?, ih, find?, find?, if_neg apart]
      by_cases own : held = other
      · subst own
        rw [if_pos rfl, if_pos rfl, if_neg apart]
      · rw [if_neg own, if_neg own]

theorem get?_update (map : Ordered α) (key other : Text) (change : Option α → α) :
    (map.update key change).get? other =
      if other = key then some (change (map.get? key)) else map.get? other :=
  find?_updateEntries key other change map.entries

theorem keys_updateEntries (key : Text) (change : Option α → α) (entries : List (Text × α)) :
    (updateEntries key change entries).map Prod.fst =
      if key ∈ entries.map Prod.fst then entries.map Prod.fst else entries.map Prod.fst ++ [key] := by
  induction entries with
  | nil => rfl
  | cons entry rest ih =>
    obtain ⟨held, value⟩ := entry
    rw [updateEntries]
    split
    next same => simp [same]
    next apart =>
      rw [List.map_cons, ih, List.map_cons, apply_ite (held :: ·)]
      simp only [List.mem_cons, Ne.symm apart, false_or, List.cons_append]

theorem keys_update (map : Ordered α) (key : Text) (change : Option α → α) :
    (map.update key change).keys = if key ∈ map.keys then map.keys else map.keys ++ [key] :=
  keys_updateEntries key change map.entries

/-- A map made from pairs: its keys stand in the order in which they first come, and of the values
that come with a key one is picked. -/
structure Holds (pick : List α → Option α) (map : Ordered α) (pairs : List (Text × α)) : Prop where
  keys_eq : map.keys = (pairs.map Prod.fst).eraseDups
  get?_eq : ∀ key, map.get? key = pick (valuesOf key pairs)

theorem entries_eq_filterMap {entries : List (Text × α)} (distinct : (entries.map Prod.fst).Nodup) :
    entries = (entries.map Prod.fst).filterMap fun key =>
      (find? key entries).map fun value => (key, value) := by
  induction entries with
  | nil => rfl
  | cons entry rest ih =>
    obtain ⟨key, value⟩ := entry
    obtain ⟨fresh, others⟩ := List.nodup_cons.1 distinct
    have later : ∀ other ∈ rest.map Prod.fst, find? other ((key, value) :: rest) = find? other rest := by
      intro other held
      refine if_neg ?_
      rintro rfl
      exact fresh held
    conv_lhs => rw [ih others]
    rw [List.map_cons, List.filterMap_cons_some]
    · congr 1
      exact List.filterMap_congr fun other held => by rw [later other held]
    · simp [find?]

/-- A map is known by its keys and their values. -/
theorem eq_of_get?_eq {one other : Ordered α} (keys : one.keys = other.keys)
    (values : ∀ key, one.get? key = other.get? key) : one = other := by
  obtain ⟨entries, distinct⟩ := one
  obtain ⟨others, apart⟩ := other
  have same : entries = others := by
    rw [entries_eq_filterMap distinct, entries_eq_filterMap apart]
    change entries.map Prod.fst = others.map Prod.fst at keys
    rw [keys]
    exact List.filterMap_congr fun key _ => by rw [show find? key entries = _ from values key]; rfl
  subst same
  rfl

theorem Holds.unique {pick : List α → Option α} {one other : Ordered α} {pairs : List (Text × α)}
    (holds : one.Holds pick pairs) (also : other.Holds pick pairs) : one = other :=
  eq_of_get?_eq (holds.keys_eq.trans also.keys_eq.symm) fun key =>
    (holds.get?_eq key).trans (also.get?_eq key).symm

theorem mem_keys_iff (map : Ordered α) (key : Text) : key ∈ map.keys ↔ (map.get? key).isSome := by
  rw [keys, get?]
  induction map.entries with
  | nil => simp [find?]
  | cons entry rest ih =>
    obtain ⟨other, value⟩ := entry
    rw [List.map_cons, List.mem_cons, ih, find?]
    split
    next same => simp [same]
    next apart => simp [Ne.symm apart]

theorem eraseDups_concat (keys : List Text) (key : Text) :
    (keys ++ [key]).eraseDups =
      if key ∈ keys.eraseDups then keys.eraseDups else keys.eraseDups ++ [key] := by
  rw [List.eraseDups_append]
  by_cases held : key ∈ keys
  · simp [List.removeAll, List.mem_eraseDups, held]
  · simp [List.removeAll, List.mem_eraseDups, held, List.eraseDups_cons]

theorem Holds.update {pick : List α → Option α} {map : Ordered α} {pairs : List (Text × α)}
    (holds : map.Holds pick pairs) {value : α} {change : Option α → α}
    (picked : ∀ values, pick (values ++ [value]) = some (change (pick values))) (key : Text) :
    (map.update key change).Holds pick (pairs ++ [(key, value)]) := by
  constructor
  · rw [keys_update, holds.keys_eq, List.map_append, List.map_singleton, eraseDups_concat]
  · intro other
    rw [get?_update, holds.get?_eq, holds.get?_eq]
    by_cases same : other = key
    · subst same
      rw [if_pos rfl, ← picked]
      simp [valuesOf]
    · rw [if_neg same]
      simp [valuesOf, Ne.symm same]

theorem holds_empty {pick : List α → Option α} (nothing : pick [] = none) :
    (empty : Ordered α).Holds pick [] :=
  ⟨rfl, fun _ => nothing.symm⟩

/-- A value that is kept once it is there is the first one. -/
theorem Holds.keep {map : Ordered α} {pairs : List (Text × α)} (holds : map.Holds List.head? pairs)
    (key : Text) (value : α) : (map.keep key value).Holds List.head? (pairs ++ [(key, value)]) := by
  refine holds.update (fun values => ?_) key
  cases values <;> rfl

/-- A value that is put in place of others is the last one. -/
theorem Holds.put {map : Ordered α} {pairs : List (Text × α)}
    (holds : map.Holds List.getLast? pairs) (key : Text) (value : α) :
    (map.put key value).Holds List.getLast? (pairs ++ [(key, value)]) :=
  holds.update (fun _ => List.getLast?_concat) key

end Ordered

/-! ### What becomes of each directive -/

/-- What becomes of a directive: it is filed for the file or for a struct, or it is skipped. -/
inductive Filing where
  | addImport (path : Text) (line : Nat)
  | addField (declaration spec : Text) (line : Nat)
  | setTags (declaration target : Text) (update : TagUpdate)
  | leaveOut (skip : Skip)

namespace Filing

def import? : Filing → Option (Text × Nat)
  | addImport path line => some (path, line)
  | _ => none

def field? : Filing → Option (Text × Text × Nat)
  | addField declaration spec line => some (declaration, spec, line)
  | _ => none

def tags? : Filing → Option (Text × Text × TagUpdate)
  | setTags declaration target update => some (declaration, target, update)
  | _ => none

def declaration? : Filing → Option Text
  | addField declaration _ _ => some declaration
  | setTags declaration _ _ => some declaration
  | _ => none

def skip? : Filing → Option Skip
  | leaveOut skip => some skip
  | _ => none

def dropped (marker : String) (content : Text) (line : Nat) : Skip where
  kind := .droppedDirective
  line := line
  detail := marker.toList ++ " ".toList ++ content.inBackticks ++
    " before any struct declaration".toList

def untargeted (tags : Text) (line : Nat) : Skip where
  kind := .unresolvedTagTarget
  line := line
  detail := "no name= marker for ".toList ++ tags.inBackticks

/-- What becomes of a directive on a line with a number, where a struct is in force or none yet. -/
def ofDirective (declaration : Option Text) (line : Text) (number : Nat) : Directive → Filing
  | .addImport path => addImport path number
  | .addField spec =>
    match declaration with
    | some name => addField name spec number
    | none => leaveOut (dropped "@gofield" spec number)
  | .setTags tags =>
    match declaration, Directive.tagTarget? line with
    | some name, some field => setTags name (normalizeName field) ⟨tags, number⟩
    | some _, none => leaveOut (untargeted tags number)
    | none, _ => leaveOut (dropped "@gotags" tags number)

/-- What becomes of all directives of a source, line by line; on a line imports come before fields and
fields before tags. -/
def history (source : Text) : List Filing :=
  (Text.lines source).zipIdx.flatMap fun (line, row) =>
    (Directive.ofLine line).map
      (ofDirective (ScanContext.inForce source row).declaration line (row + 1))

end Filing

/-! ### Reading along the history -/

theorem filterMap_concat_some {α β : Type} {view : α → Option β} {items : List α} {item : α} {seen : β}
    (shown : view item = some seen) :
    (items ++ [item]).filterMap view = items.filterMap view ++ [seen] := by
  rw [List.filterMap_append, List.filterMap_cons_some shown, List.filterMap_nil]

theorem filterMap_concat_none {α β : Type} {view : α → Option β} {items : List α} {item : α}
    (hidden : view item = none) : (items ++ [item]).filterMap view = items.filterMap view := by
  rw [List.filterMap_append, List.filterMap_cons_none hidden, List.filterMap_nil, List.append_nil]

theorem valuesOf_concat {α : Type} (key other : Text) (value : α) (pairs : List (Text × α)) :
    valuesOf key (pairs ++ [(other, value)]) =
      if key = other then valuesOf key pairs ++ [value] else valuesOf key pairs := by
  by_cases same : key = other
  · simp [valuesOf, same]
  · simp [valuesOf, same, Ne.symm same]

theorem Registry.declaration?_changeDeclaration (registry : Registry) (name other : Text)
    (change : Declaration → Declaration) :
    ((registry.changeDeclaration name change).declaration? other).getD {} =
      if other = name then change ((registry.declaration? name).getD {})
      else (registry.declaration? other).getD {} := by
  rw [Registry.declaration?, Registry.changeDeclaration, Ordered.get?_update]
  split <;> rfl

namespace Scan

/-- What has been gathered is what a history says. -/
structure Tells (history : List Filing) (scan : Scan) : Prop where
  imports : scan.registry.imports.Holds List.head? (history.filterMap Filing.import?)
  declarations : scan.registry.declarations.keys = (history.filterMap Filing.declaration?).eraseDups
  fields : ∀ name, ((scan.registry.declaration? name).getD {}).fields.Holds List.head?
    (valuesOf name (history.filterMap Filing.field?))
  tags : ∀ name, ((scan.registry.declaration? name).getD {}).tags.Holds List.getLast?
    (valuesOf name (history.filterMap Filing.tags?))
  skipped : scan.skipped = history.filterMap Filing.skip?

/-- A history says all that there is to be gathered. -/
theorem Tells.unique {history : List Filing} {one other : Scan} (tells : one.Tells history)
    (also : other.Tells history) : one = other := by
  obtain ⟨⟨imports, declarations⟩, skipped⟩ := one
  obtain ⟨⟨otherImports, otherDeclarations⟩, otherSkipped⟩ := other
  have keys : declarations.keys = otherDeclarations.keys :=
    tells.declarations.trans also.declarations.symm
  have entries (name : Text) :
      (declarations.get? name).getD {} = (otherDeclarations.get? name).getD {} := by
    have fields := (tells.fields name).unique (also.fields name)
    have tags := (tells.tags name).unique (also.tags name)
    simp only [Registry.declaration?] at fields tags
    generalize (declarations.get? name).getD {} = entry at fields tags ⊢
    obtain ⟨_, _⟩ := entry
    generalize (otherDeclarations.get? name).getD {} = entry at fields tags ⊢
    obtain ⟨_, _⟩ := entry
    cases fields
    cases tags
    rfl
  have same : declarations = otherDeclarations := by
    refine Ordered.eq_of_get?_eq keys fun name => ?_
    have present := declarations.mem_keys_iff name
    rw [keys, otherDeclarations.mem_keys_iff] at present
    have entry := entries name
    revert present entry
    cases declarations.get? name <;> cases otherDeclarations.get? name <;> simp
  cases tells.imports.unique also.imports
  cases same
  cases tells.skipped.trans also.skipped.symm
  rfl

theorem tells_nothing : Tells [] {} :=
  ⟨Ordered.holds_empty rfl, rfl, fun _ => Ordered.holds_empty rfl, fun _ => Ordered.holds_empty rfl,
    rfl⟩

def file (scan : Scan) : Filing → Scan
  | .addImport path line => { scan with registry := scan.registry.addImport path line }
  | .addField declaration spec line =>
    { scan with registry := scan.registry.addField declaration spec line }
  | .setTags declaration target update =>
    { scan with registry := scan.registry.setTags declaration target update.text update.line }
  | .leaveOut skip => { scan with skipped := scan.skipped ++ [skip] }

theorem addDirective_eq (declaration : Option Text) (line : Text) (number : Nat) (scan : Scan)
    (directive : Directive) : scan.addDirective declaration line number directive =
      scan.file (.ofDirective declaration line number directive) := by
  cases directive with
  | addImport path => rfl
  | addField spec => cases declaration <;> rfl
  | setTags tags =>
    cases declaration with
    | none => rfl
    | some name =>
      simp only [addDirective, Filing.ofDirective]
      cases Directive.tagTarget? line <;> rfl

section Step

variable {history : List Filing} {scan : Scan} (tells : scan.Tells history)
include tells

theorem Tells.addImport (path : Text) (line : Nat) :
    (scan.file (.addImport path line)).Tells (history ++ [.addImport path line]) := by
  constructor
  · rw [filterMap_concat_some]
    exacts [tells.imports.keep path line, rfl]
  all_goals rw [filterMap_concat_none]
  exacts [tells.declarations, rfl, tells.fields, rfl, tells.tags, rfl, tells.skipped, rfl]

theorem Tells.addField (name spec : Text) (line : Nat) :
    (scan.file (.addField name spec line)).Tells (history ++ [.addField name spec line]) := by
  have entry (other : Text) := scan.registry.declaration?_changeDeclaration name other
    fun entry => { entry with fields := entry.fields.keep spec line }
  have filed : (history ++ [Filing.addField name spec line]).filterMap Filing.field? =
      history.filterMap Filing.field? ++ [(name, spec, line)] := filterMap_concat_some rfl
  constructor
  · rw [filterMap_concat_none]
    exacts [tells.imports, rfl]
  · rw [filterMap_concat_some, Ordered.eraseDups_concat, ← tells.declarations]
    exacts [Ordered.keys_update _ _ _, rfl]
  · intro other
    rw [file, Registry.addField, entry, filed, valuesOf_concat]
    split
    next same => exact same ▸ (tells.fields name).keep spec line
    next => exact tells.fields other
  · intro other
    rw [file, Registry.addField, entry, filterMap_concat_none]
    · split
      next same => exact same ▸ tells.tags name
      next => exact tells.tags other
    · rfl
  · rw [filterMap_concat_none]
    exacts [tells.skipped, rfl]

theorem Tells.setTags (name target : Text) (update : TagUpdate) :
    (scan.file (.setTags name target update)).Tells
      (history ++ [.setTags name target update]) := by
  have entry (other : Text) := scan.registry.declaration?_changeDeclaration name other
    fun entry => { entry with tags := entry.tags.put target update }
  have filed : (history ++ [Filing.setTags name target update]).filterMap Filing.tags? =
      history.filterMap Filing.tags? ++ [(name, target, update)] := filterMap_concat_some rfl
  constructor
  · rw [filterMap_concat_none]
    exacts [tells.imports, rfl]
  · rw [filterMap_concat_some, Ordered.eraseDups_concat, ← tells.declarations]
    exacts [Ordered.keys_update _ _ _, rfl]
  · intro other
    rw [file, Registry.setTags, entry, filterMap_concat_none]
    · split
      next same => exact same ▸ tells.fields name
      next => exact tells.fields other
    · rfl
  · intro other
    rw [file, Registry.setTags, entry, filed, valuesOf_concat]
    split
    next same => exact same ▸ (tells.tags name).put target update
    next => exact tells.tags other
  · rw [filterMap_concat_none]
    exacts [tells.skipped, rfl]

theorem Tells.leaveOut (skip : Skip) :
    (scan.file (.leaveOut skip)).Tells (history ++ [.leaveOut skip]) := by
  constructor
  case skipped =>
    rw [filterMap_concat_some, ← tells.skipped]
    exacts [rfl, rfl]
  all_goals rw [filterMap_concat_none]
  exacts [tells.imports, rfl, tells.declarations, rfl, tells.fields, rfl, tells.tags, rfl]

theorem Tells.file (filing : Filing) : (scan.file filing).Tells (history ++ [filing]) := by
  cases filing with
  | addImport path line => exact tells.addImport path line
  | addField name spec line => exact tells.addField name spec line
  | setTags name target update => exact tells.setTags name target update
  | leaveOut skip => exact tells.leaveOut skip

end Step

theorem foldl_file_tells {history : List Filing} {scan : Scan} (tells : scan.Tells history)
    (filings : List Filing) : (filings.foldl file scan).Tells (history ++ filings) := by
  induction filings generalizing history scan with
  | nil => simpa using tells
  | cons filing rest ih => simpa using ih (tells.file filing)

/-- A line is read by filing its directives one after another. -/
theorem addLine_eq (declaration : Option Text) (line : Text) (number : Nat) (scan : Scan) :
    scan.addLine declaration line number =
      ((Directive.ofLine line).map (.ofDirective declaration line number)).foldl file scan := by
  rw [addLine, List.foldl_map]
  congr 1
  funext scan directive
  exact addDirective_eq declaration line number scan directive

end Scan

namespace Filing

/-- The history of the lines of a text. -/
def ofLines (lines : List Text) : List Filing :=
  lines.zipIdx.flatMap fun (line, row) =>
    (Directive.ofLine line).map
      (ofDirective ((lines.take (row + 1)).foldl ScanContext.advance {}).declaration line (row + 1))

theorem history_eq (source : Text) : history source = ofLines (Text.lines source) :=
  rfl

/-- A line behind others does not change what became of their directives. -/
theorem ofLines_concat (lines : List Text) (line : Text) :
    ofLines (lines ++ [line]) = ofLines lines ++ (Directive.ofLine line).map
      (ofDirective ((lines.foldl ScanContext.advance {}).advance line).declaration line
        (lines.length + 1)) := by
  rw [ofLines, List.zipIdx_append, List.flatMap_append]
  congr 1
  · refine List.flatMap_congr fun (earlier, row) held => ?_
    have inside : row < lines.length := by simpa using (List.mem_zipIdx held).2.1
    dsimp only
    rw [List.take_append_of_le_length inside]
  · have all : (lines ++ [line]).take (lines.length + 1) = lines ++ [line] :=
      List.take_of_length_le (by simp)
    rw [List.zipIdx_singleton, List.flatMap_singleton, Nat.zero_add]
    dsimp only
    rw [all, List.foldl_append]
    rfl

end Filing

theorem addLines_tells (lines : List Text) :
    (Scan.addLines {} 1 {} lines).Tells (Filing.ofLines lines) := by
  induction lines using List.reverseRecOn with
  | nil => exact Scan.tells_nothing
  | append_singleton lines line ih =>
    rw [Scan.addLines_append, Scan.addLines, Scan.addLines, Filing.ofLines_concat, Scan.addLine_eq,
      Nat.add_comm 1]
    exact Scan.foldl_file_tells ih _

/-- The directives of a source are gathered as the history of its lines says: imports and fields with
the line where they first come, tags as they last come, structs in the order in which something is
first filed under them, and all that cannot be filed is skipped. -/
theorem scan_tells_history (source : Text) (found : Scan) :
    found.Tells (Filing.history source) ↔ found = scan source := by
  have tells : (scan source).Tells (Filing.history source) := by
    rw [Filing.history_eq]
    exact addLines_tells (Text.lines source)
  constructor
  · exact fun also => also.unique tells
  · rintro rfl
    exact tells

end GoGraft
