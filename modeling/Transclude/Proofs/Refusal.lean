import Mathlib
import Transclude.Proofs.FurtherContext
import Transclude.Proofs.Operations

/-! # Settings that are refused

Entries that make no settings are reported, and the command line ends with the code of
an error and leaves the files as they are. A few entries end it with a fault instead:
keys that are no texts, references to modules that cannot even be looked for, and base
paths in the home directory of a user who is not known or with a null character. -/

namespace Transclude

namespace Filter

/-- Why a module cannot even be looked for: its name is empty, or begins with a point. -/
inductive Unaskable : List Char → Fault → Prop
  | empty : Unaskable [] .badValue
  | relative (rest : List Char) : Unaskable ('.' :: rest) .wrongType

/-- A value that names a filter: a filter itself, or a text that leads to one in a module. -/
inductive Named (modules : Modules) : Datum → Prop
  | filter (id : String) : Named modules (.scalar (.filter id))
  | member {text id : String} {moduleName path : List Char} {members : List (String × Member)}
    (htext : text.toList = moduleName ++ ':' :: path) (hcolon : ':' ∉ moduleName)
    (hmodule : modules.lookup (String.ofList moduleName) = some members)
    (hmember : (Member.group members).follow ((path.splitOn '.').map String.ofList) =
      some (.filter id)) : Named modules (.str text)

/-- A reference to a member of a module that cannot even be looked for. -/
inductive Faulty (modules : Modules) : Datum → Fault → Prop
  | member {text : String} {moduleName path : List Char} {kind : Fault}
    (htext : text.toList = moduleName ++ ':' :: path) (hcolon : ':' ∉ moduleName)
    (hmodule : modules.lookup (String.ofList moduleName) = none)
    (hname : Unaskable moduleName kind) : Faulty modules (.str text) kind

variable {modules : Modules}

theorem findModule_of_lookup {moduleName : String} {members : List (String × Member)}
    (h : modules.lookup moduleName = some members) (filterName : String) :
    findModule modules filterName moduleName = .ok (.group members) := by
  unfold findModule
  rw [h]

/-- The search for a module that there is none of fails, and with a fault when it cannot even be
looked for. -/
theorem findModule_of_lookup_eq_none {moduleName : List Char}
    (h : modules.lookup (String.ofList moduleName) = none) (filterName : String) :
    (∃ problem, findModule modules filterName (String.ofList moduleName) =
        .error (.error problem)) ∧ (∀ kind, ¬ Unaskable moduleName kind) ∨
      ∃ kind, findModule modules filterName (String.ofList moduleName) = .error (.fault kind) ∧
        Unaskable moduleName kind := by
  unfold findModule
  rw [h, String.toList_ofList]
  cases moduleName with
  | nil => exact .inr ⟨.badValue, by rw [List.splitOn_nil], .empty⟩
  | cons c rest =>
      rw [List.splitOn, List.splitOnP_cons_eq_if_modifyHead]
      by_cases hc : c = '.'
      · subst hc
        refine .inr ⟨.wrongType, ?_, .relative rest⟩
        rw [if_pos (by decide)]
        cases hsplit : rest.splitOnP (· == '.') with
        | nil => exact absurd hsplit (List.splitOnP_ne_nil _ _)
        | cons first others => rfl
      · refine .inl ⟨?_, ?_⟩
        · rw [if_neg (by simpa using hc)]
          cases hsplit : rest.splitOnP (· == '.') with
          | nil => exact absurd hsplit (List.splitOnP_ne_nil _ _)
          | cons first others =>
              cases others with
              | nil => exact ⟨_, rfl⟩
              | cons second others =>
                  simp only [List.modifyHead_cons]
                  cases modules.lookup (String.ofList (c :: first)) <;> exact ⟨_, rfl⟩
        · rintro kind ⟨⟩
          exact hc rfl

theorem resolve_str {text : String} {moduleName path : List Char}
    (htext : text.toList = moduleName ++ ':' :: path) (hcolon : ':' ∉ moduleName) (name : String) :
    resolve modules name (.str text) = (do
      let found ← findModule modules name (String.ofList moduleName)
      match found.follow ((path.splitOn '.').map String.ofList) with
      | none => .error (.error (.noMember name (String.ofList moduleName) (String.ofList path)))
      | some (.filter id) => .ok (.scalar (.filter id))
      | some _ => .error (.error (.notCallable name text))) := by
  have hplain : ∀ c ∈ moduleName, (c != ':') = true := by
    intro c hc
    simp only [bne_iff_ne]
    rintro rfl
    exact hcolon hc
  have hbehind : text.toList.dropWhile (· != ':') = ':' :: path := by
    rw [htext, List.dropWhile_append_of_pos hplain, List.dropWhile_cons_of_neg (by decide)]
  have hfront : text.toList.takeWhile (· != ':') = moduleName := by
    rw [htext, List.takeWhile_append_of_pos hplain, List.takeWhile_cons_of_neg (by decide),
      List.append_nil]
  unfold resolve
  dsimp only
  generalize text.toList.dropWhile (· != ':') = behind at hbehind ⊢
  generalize text.toList.takeWhile (· != ':') = front at hfront ⊢
  subst hbehind hfront
  rfl

theorem resolve_plain {text : String} (h : ':' ∉ text.toList) (name : String) :
    resolve modules name (.str text) =
      .error (.error (.notAReference name (Value.shown (.str text : Datum)))) := by
  have hplain : text.toList.dropWhile (· != ':') = [] := by
    rw [List.dropWhile_eq_nil_iff]
    intro c hc
    simp only [bne_iff_ne]
    rintro rfl
    exact h hc
  unfold resolve
  dsimp only
  rw [hplain]

/-- A text that is no filter itself refers to one by the text before its first colon. -/
theorem resolve_str_cases (text : String) :
    ':' ∉ text.toList ∨ ∃ moduleName path, text.toList = moduleName ++ ':' :: path ∧
      ':' ∉ moduleName := by
  by_cases hcolon : ':' ∈ text.toList
  · exact .inr (List.eq_append_cons_of_mem hcolon)
  · exact .inl hcolon

/-- A reference gives a filter exactly when it names one. -/
theorem resolve_eq_ok_iff (name : String) {reference : Datum} :
    (∃ filter, resolve modules name reference = .ok filter) ↔ Named modules reference := by
  constructor
  · rintro ⟨filter, h⟩
    cases reference with
    | scalar s =>
        cases s with
        | filter id => exact .filter id
        | str text =>
            obtain hcolon | ⟨moduleName, path, htext, hcolon⟩ := resolve_str_cases text
            · rw [resolve_plain hcolon] at h
              cases h
            · rw [resolve_str htext hcolon] at h
              obtain ⟨found, hfound, h⟩ := bind_eq_ok.mp h
              cases hmodule : modules.lookup (String.ofList moduleName) with
              | none =>
                  obtain ⟨⟨problem, hproblem⟩, _⟩ | ⟨kind, hkind, _⟩ :=
                    findModule_of_lookup_eq_none hmodule name
                  · rw [hproblem] at hfound
                    cases hfound
                  · rw [hkind] at hfound
                    cases hfound
              | some members =>
                  rw [findModule_of_lookup hmodule] at hfound
                  cases hfound
                  split at h
                  next => cases h
                  next id hmember => exact .member htext hcolon hmodule hmember
                  next => cases h
        | _ => cases h
    | _ => cases h
  · rintro (id | ⟨htext, hcolon, hmodule, hmember⟩)
    · exact ⟨_, rfl⟩
    · rw [resolve_str htext hcolon, findModule_of_lookup hmodule, ok_bind, hmember]
      exact ⟨_, rfl⟩

/-- A reference ends with a fault exactly when its module cannot even be looked for. -/
theorem resolve_eq_fault_iff {name : String} {reference : Datum} {kind : Fault} :
    resolve modules name reference = .error (.fault kind) ↔ Faulty modules reference kind := by
  constructor
  · intro h
    cases reference with
    | scalar s =>
        cases s with
        | str text =>
            obtain hcolon | ⟨moduleName, path, htext, hcolon⟩ := resolve_str_cases text
            · rw [resolve_plain hcolon] at h
              cases h
            · rw [resolve_str htext hcolon] at h
              cases hmodule : modules.lookup (String.ofList moduleName) with
              | none =>
                  obtain ⟨⟨problem, hproblem⟩, _⟩ | ⟨kind', hkind, hname⟩ :=
                    findModule_of_lookup_eq_none hmodule name
                  · rw [hproblem] at h
                    cases h
                  · rw [hkind] at h
                    cases h
                    exact .member htext hcolon hmodule hname
              | some members =>
                  rw [findModule_of_lookup hmodule, ok_bind] at h
                  split at h <;> cases h
        | _ => cases h
    | _ => cases h
  · rintro ⟨htext, hcolon, hmodule, hname⟩
    rw [resolve_str htext hcolon]
    obtain ⟨_, hother⟩ | ⟨kind', hkind, hname'⟩ := findModule_of_lookup_eq_none hmodule name
    · exact absurd hname (hother kind)
    · rw [hkind]
      cases hname <;> cases hname' <;> rfl

/-- A registry is made of references that all name filters. -/
theorem resolveAll_eq_ok_iff (registry : Registry) {references : Data} :
    (∃ result, resolveAll modules registry references = .ok result) ↔
      ∀ entry ∈ references, Named modules entry.2 := by
  induction references generalizing registry with
  | nil => simp [resolveAll]
  | cons entry rest ih =>
      obtain ⟨key, reference⟩ := entry
      rw [List.forall_mem_cons, ← resolve_eq_ok_iff key.name]
      constructor
      · rintro ⟨result, h⟩
        obtain ⟨filter, hfilter, h⟩ := bind_eq_ok.mp h
        exact ⟨⟨filter, hfilter⟩, (ih _).mp ⟨result, h⟩⟩
      · rintro ⟨⟨filter, hfilter⟩, hrest⟩
        obtain ⟨result, h⟩ := (ih _).mpr hrest
        exact ⟨result, bind_eq_ok.mpr ⟨filter, hfilter, h⟩⟩

/-- A registry ends with the fault of a reference that others before it do not stop. -/
theorem resolveAll_eq_fault_iff {registry : Registry} {references : Data} {kind : Fault} :
    resolveAll modules registry references = .error (.fault kind) ↔
      ∃ before entry after, references = before ++ entry :: after ∧
        (∀ other ∈ before, Named modules other.2) ∧ Faulty modules entry.2 kind := by
  induction references generalizing registry with
  | nil => simp [resolveAll]
  | cons entry rest ih =>
      obtain ⟨key, reference⟩ := entry
      have hfirst : resolve modules key.name reference = .error (.fault kind) ↔
        Faulty modules reference kind := resolve_eq_fault_iff
      constructor
      · intro h
        obtain h | ⟨filter, hfilter, h⟩ := bind_eq_error.mp h
        · exact ⟨[], _, rest, rfl, nofun, hfirst.mp h⟩
        · obtain ⟨before, found, after, rfl, hbefore, hfaulty⟩ := ih.mp h
          refine ⟨(key, reference) :: before, found, after, rfl, ?_, hfaulty⟩
          exact List.forall_mem_cons.mpr ⟨(resolve_eq_ok_iff _).mp ⟨filter, hfilter⟩, hbefore⟩
      · rintro ⟨before, found, after, heq, hbefore, hfaulty⟩
        cases before with
        | nil =>
            cases heq
            exact bind_eq_error.mpr (.inl (hfirst.mpr hfaulty))
        | cons first before =>
            cases heq
            rw [List.forall_mem_cons] at hbefore
            obtain ⟨filter, hfilter⟩ := (resolve_eq_ok_iff key.name).mpr hbefore.1
            exact bind_eq_error.mpr
              (.inr ⟨filter, hfilter, ih.mpr ⟨before, found, after, rfl, hbefore.2, hfaulty⟩⟩)

end Filter

namespace FileTree

/-- A path in the home directory of another user. -/
def NamesUser (path : Path) : Prop :=
  path.root = .relative ∧
    ∃ first ∈ path.parts.head?, first.toList.head? = some '~' ∧ first ≠ "~"

/-- A path that leads nowhere from the root: it begins in the home directory of a user who is not
known, or has a null character. -/
inductive Lost (tree : FileTree) (path : Path) : Fault → Prop
  | user (huser : NamesUser path) : Lost tree path .noSuchUser
  | null {expanded : Path} (hhome : tree.expandHome path = .ok expanded)
    (hnull : isNameable expanded = false) : Lost tree path .badValue

variable {tree : FileTree}

theorem expandHome_eq_error_iff {path : Path} {kind : Fault} :
    tree.expandHome path = .error kind ↔ NamesUser path ∧ kind = .noSuchUser := by
  unfold expandHome NamesUser
  obtain ⟨root, parts⟩ := path
  cases root with
  | relative =>
      cases parts with
      | nil => simp
      | cons first rest =>
          dsimp only
          split
          next hhome => simp [hhome]
          next hhome =>
            split
            next hother => simpa [hhome, beq_iff_eq.mp hother] using eq_comm
            next hother => simpa [hhome] using fun h => absurd h (by simpa using hother)
  | single => simp
  | double => simp

theorem resolve_eq_error_iff {path : Path} {kind : Fault} :
    tree.resolve path = .error kind ↔ isNameable path = false ∧ kind = .badValue := by
  unfold resolve
  split
  next hname => simp [hname]
  next hname => simpa [hname] using eq_comm

/-- A path is lost exactly when it cannot be followed from the root. -/
theorem lost_iff {path : Path} {kind : Fault} :
    (tree.expandHome path >>= tree.resolve) = .error kind ↔ Lost tree path kind := by
  rw [bind_eq_error, expandHome_eq_error_iff]
  simp only [resolve_eq_error_iff]
  constructor
  · rintro (⟨huser, rfl⟩ | ⟨expanded, hhome, hnull, rfl⟩)
    · exact .user huser
    · exact .null hhome hnull
  · rintro (huser | ⟨hhome, hnull⟩)
    · exact .inl ⟨huser, rfl⟩
    · exact .inr ⟨_, hhome, hnull, rfl⟩

end FileTree

namespace Settings

/-! ## The names of settings -/

/-- Unknown keys are reported when they are texts. -/
theorem checkNames_of_unknown {entries : Data} (h : unknownKeys entries ≠ []) :
    checkNames entries = (do
      let texts ← ((unknownKeys entries).mapM keyText : Except Fault (List String))
      .error (.error (.unknownNames (texts.mergeSort fun a b => decide (a ≤ b))))) := by
  unfold checkNames
  cases hkeys : unknownKeys entries with
  | nil => exact absurd hkeys h
  | cons key rest => rfl

theorem checkNames_eq_ok_iff {entries : Data} :
    checkNames entries = .ok () ↔ unknownKeys entries = [] := by
  constructor
  · intro h
    by_contra hne
    rw [checkNames_of_unknown hne] at h
    obtain ⟨texts, _, h⟩ := bind_eq_ok.mp h
    cases h
  · intro h
    unfold checkNames
    rw [h]

theorem mapM_keyText_texts (texts : List String) :
    (texts.map Key.str).mapM keyText = .ok texts := by
  induction texts with
  | nil => rfl
  | cons text rest ih =>
      rw [List.map_cons, List.mapM_cons, ih]
      rfl

/-- Unknown keys that are all texts are reported in order. -/
theorem checkNames_of_texts {entries : Data} {texts : List String} (hne : texts ≠ [])
    (h : unknownKeys entries = texts.map Key.str) :
    checkNames entries = .error (.error (.unknownNames
      (texts.mergeSort fun a b => decide (a ≤ b)))) := by
  rw [checkNames_of_unknown (by rw [h]; simpa using hne), h, mapM_keyText_texts]
  rfl

theorem keyText_eq_error_iff {key : Key} {kind : Fault} :
    keyText key = .error kind ↔ kind = .wrongType ∧ ∀ text, key ≠ .str text := by
  cases key with
  | sequence items => simpa [keyText] using eq_comm
  | scalar s =>
      cases s with
      | str text => simp [keyText]
      | _ => simpa [keyText] using eq_comm

theorem mapM_keyText_eq_error_iff {keys : List Key} {kind : Fault} :
    keys.mapM keyText = .error kind ↔
      kind = .wrongType ∧ ∃ key ∈ keys, ∀ text, key ≠ .str text := by
  induction keys with
  | nil => simp [pure, Except.pure]
  | cons key rest ih =>
      rw [List.mapM_cons, List.exists_mem_cons_iff]
      refine bind_eq_error_iff (fun e => keyText_eq_error_iff) fun text => ?_
      rw [bind_pure_eq_error, ih]

/-- Unknown keys end with a fault exactly when one of them is no text. -/
theorem checkNames_eq_fault_iff {entries : Data} {kind : Fault} :
    checkNames entries = .error (.fault kind) ↔
      kind = .wrongType ∧ ∃ key ∈ unknownKeys entries, ∀ text, key ≠ .str text := by
  by_cases hne : unknownKeys entries = []
  · rw [checkNames_eq_ok_iff.mpr hne, hne]
    simp
  · rw [← mapM_keyText_eq_error_iff, checkNames_of_unknown hne, bind_eq_error, liftM_eq_fault]
    exact or_iff_left (by rintro ⟨_, _, ⟨⟩⟩)

/-! ## Filters -/

/-- The filters of entries stand: they are no more than false, or all name filters. -/
inductive FiltersStand (modules : Filter.Modules) (entries : Data) : Prop
  | unset (h : ∀ value ∈ Entries.get? entries (.str "filters"),
      value = .null ∨ value = .bool false ∨ ∃ n, value = .number n ∧ n.isZero = true)
  | named {mark : Mark} {references : Data}
    (h : Entries.get? entries (.str "filters") = some (.map mark references))
    (hnamed : ∀ entry ∈ references, Filter.Named modules entry.2)

variable {modules : Filter.Modules} {tree : FileTree}

theorem withFilters_eq_ok_iff {entries : Data} :
    (∃ filtered, withFilters modules entries = .ok filtered) ↔ FiltersStand modules entries := by
  unfold withFilters
  constructor
  · rintro ⟨filtered, h⟩
    split at h
    next hnone => exact .unset (by simp [hnone])
    next hnull => exact .unset (by simp [hnull])
    next hfalse => exact .unset (by simp [hfalse])
    next n hnumber =>
      split at h
      next hzero => exact .unset (by simpa [hnumber] using hzero)
      next => cases h
    next mark references hreferences =>
      obtain ⟨registry, hregistry, _⟩ := bind_eq_ok.mp h
      exact .named hreferences
        ((Filter.resolveAll_eq_ok_iff []).mp ⟨registry, mapError_eq_ok.mp hregistry⟩)
    next => cases h
  · rintro (h | ⟨h, hnamed⟩)
    · cases hvalue : Entries.get? entries (.str "filters") with
      | none => exact ⟨_, rfl⟩
      | some value =>
          obtain rfl | rfl | ⟨n, rfl, hzero⟩ := h value hvalue
          · exact ⟨_, rfl⟩
          · exact ⟨_, rfl⟩
          · exact ⟨_, if_pos hzero⟩
    · obtain ⟨registry, hregistry⟩ := (Filter.resolveAll_eq_ok_iff []).mpr hnamed
      rw [h]
      exact ⟨_, bind_eq_ok.mpr ⟨registry, mapError_eq_ok.mpr hregistry, rfl⟩⟩

theorem withFilters_eq_fault_iff {entries : Data} {kind : Fault} :
    withFilters modules entries = .error (.fault kind) ↔
      ∃ mark before entry after,
        Entries.get? entries (.str "filters") = some (.map mark (before ++ entry :: after)) ∧
        (∀ other ∈ before, Filter.Named modules other.2) ∧
          Filter.Faulty modules entry.2 kind := by
  unfold withFilters
  constructor
  · intro h
    split at h
    next => cases h
    next => cases h
    next => cases h
    next => split at h <;> cases h
    next mark references hreferences =>
      rw [bind_pure_eq_error, mapError_eq_fault] at h
      obtain ⟨before, entry, after, rfl, hbefore, hfaulty⟩ :=
        Filter.resolveAll_eq_fault_iff.mp h
      exact ⟨mark, before, entry, after, hreferences, hbefore, hfaulty⟩
    next => cases h
  · rintro ⟨mark, before, entry, after, hfilters, hbefore, hfaulty⟩
    rw [hfilters]
    dsimp only
    rw [bind_pure_eq_error, mapError_eq_fault]
    exact Filter.resolveAll_eq_fault_iff.mpr ⟨before, entry, after, rfl, hbefore, hfaulty⟩

/-! ## The base path -/

/-- A relative base path leads nowhere from a directory. -/
inductive Misplaced (tree : FileTree) (directory path : Path) : Fault → Prop
  | user (huser : FileTree.NamesUser path) : Misplaced tree directory path .noSuchUser
  | null {expanded : Path} (hhome : tree.expandHome path = .ok expanded)
    (hrelative : expanded.isAbsolute = false)
    (hnull : FileTree.isNameable (directory.join path) = false) :
    Misplaced tree directory path .badValue

theorem withBase_eq_error_iff {directory : Option Path} {entries : Data} {kind : Fault} :
    withBase tree directory entries = .error kind ↔
      ∃ place text, directory = some place ∧
        Entries.get? entries (.str "basepath") = some (.str text) ∧
        text.toList.head? ≠ some '@' ∧ Misplaced tree place (.ofText text) kind := by
  constructor
  · intro h
    unfold withBase at h
    split at h
    next place text hbase =>
      refine ⟨place, text, rfl, hbase, ?_⟩
      split at h
      next => cases h
      next hword =>
        refine ⟨by simpa using hword, ?_⟩
        obtain h | ⟨expanded, hhome, h⟩ := bind_eq_error.mp h
        · obtain ⟨huser, rfl⟩ := FileTree.expandHome_eq_error_iff.mp h
          exact .user huser
        · split at h
          next => cases h
          next hrelative =>
            rw [bind_pure_eq_error, FileTree.resolve_eq_error_iff] at h
            obtain ⟨hnull, rfl⟩ := h
            exact .null hhome (by simpa using hrelative) hnull
    next => cases h
  · rintro ⟨place, text, rfl, hbase, hword, hmisplaced⟩
    unfold withBase
    rw [hbase]
    dsimp only
    rw [if_neg (by simpa using hword), bind_eq_error]
    obtain huser | ⟨hhome, hrelative, hnull⟩ := hmisplaced
    · exact .inl (FileTree.expandHome_eq_error_iff.mpr ⟨huser, rfl⟩)
    · refine .inr ⟨_, hhome, ?_⟩
      rw [if_neg (by simpa using hrelative), bind_pure_eq_error, FileTree.resolve_eq_error_iff]
      exact ⟨hnull, rfl⟩

/-- A value that names a directory, and neither of the two words for one. -/
structure NamesDirectory (base : Datum) : Prop where
  notVoid : base.isVoid = false
  not_file : base.name ≠ fileWord
  not_root : base.name ≠ rootWord

/-- The base path that is left leads nowhere. -/
def Unanchored (tree : FileTree) (value : Option Datum) (kind : Fault) : Prop :=
  ∃ base ∈ value, NamesDirectory base ∧ tree.Lost (.ofText base.name) kind

theorem anchorOf_of_namesDirectory {base : Datum} (h : NamesDirectory base) :
    anchorOf tree (some base) =
      (tree.expandHome (.ofText base.name) >>= tree.resolve) >>= fun path =>
        pure (.directory path) := by
  unfold anchorOf
  simp only [h.notVoid, Bool.false_eq_true, if_false, if_neg h.not_file, if_neg h.not_root,
    bind_assoc]

theorem exists_anchorOf (tree : FileTree) {base : Datum} (h : ¬ NamesDirectory base) :
    ∃ anchor, anchorOf tree (some base) = .ok anchor := by
  unfold anchorOf
  cases hvoid : base.isVoid with
  | true => exact ⟨.file, by simp [hvoid]⟩
  | false =>
      by_cases hfile : base.name = fileWord
      · exact ⟨.file, by simp [hvoid, hfile]⟩
      · by_cases hroot : base.name = rootWord
        · exact ⟨.directory tree.workingPath, by simp [hvoid, hroot, rootWord, fileWord]⟩
        · exact absurd ⟨hvoid, hfile, hroot⟩ h

theorem anchorOf_eq_error_iff {value : Option Datum} {kind : Fault} :
    anchorOf tree value = .error kind ↔ Unanchored tree value kind := by
  cases value with
  | none => simp [anchorOf, Unanchored]
  | some base =>
      by_cases hnamed : NamesDirectory base
      · rw [anchorOf_of_namesDirectory hnamed, bind_pure_eq_error, FileTree.lost_iff]
        simp [Unanchored, hnamed]
      · obtain ⟨anchor, hanchor⟩ := exists_anchorOf tree hnamed
        simp [Unanchored, hnamed, hanchor]

/-! ## Settings -/

/-- The delimiters and the context of entries are ones. -/
structure PartsStand (entries : Data) : Prop where
  opening : ∃ delimiter, Settings.opening (given? entries "prefix") = .ok delimiter
  closing : ∃ delimiter, Settings.closing (given? entries "suffix") = .ok delimiter
  context : ∃ context, contextOf (given? entries "context") = .ok context

theorem partsStand_congr {entries entries' : Data}
    (hopening : given? entries "prefix" = given? entries' "prefix")
    (hclosing : given? entries "suffix" = given? entries' "suffix")
    (hcontext : given? entries "context" = given? entries' "context") :
    PartsStand entries ↔ PartsStand entries' :=
  ⟨fun h => ⟨hopening ▸ h.opening, hclosing ▸ h.closing, hcontext ▸ h.context⟩,
    fun h => ⟨hopening ▸ h.opening, hclosing ▸ h.closing, hcontext ▸ h.context⟩⟩

theorem ofEntries_eq_fault_iff {entries : Data} (hnames : unknownKeys entries = []) {kind : Fault} :
    ofEntries tree entries = .error (.fault kind) ↔
      PartsStand entries ∧ Unanchored tree (given? entries "basepath") kind := by
  unfold ofEntries
  rw [checkNames_eq_ok_iff.mpr hnames, ok_bind, ← anchorOf_eq_error_iff]
  constructor
  · intro h
    obtain h | ⟨opening, hopening, h⟩ := bind_eq_error.mp h
    · exact absurd h mapError_ne_fault
    obtain h | ⟨closing, hclosing, h⟩ := bind_eq_error.mp h
    · exact absurd h mapError_ne_fault
    obtain h | ⟨context, hcontext, h⟩ := bind_eq_error.mp h
    · exact absurd h mapError_ne_fault
    obtain h | ⟨anchor, _, h⟩ := bind_eq_error.mp h
    · exact ⟨⟨⟨_, mapError_eq_ok.mp hopening⟩, ⟨_, mapError_eq_ok.mp hclosing⟩,
        ⟨_, mapError_eq_ok.mp hcontext⟩⟩, liftM_eq_fault.mp h⟩
    obtain h | ⟨filters, _, h⟩ := bind_eq_error.mp h
    · exact absurd h mapError_ne_fault
    cases h
  · rintro ⟨⟨⟨opening, hopening⟩, ⟨closing, hclosing⟩, ⟨context, hcontext⟩⟩, hanchor⟩
    rw [hopening, hclosing, hcontext, hanchor]
    rfl

/-- What ends the making of settings with a fault, when nothing before it is reported: an unknown
key that is no text, a reference to a module that cannot even be looked for, or a base path that
leads nowhere, from the directory of the file or from the root. -/
inductive Breaks (tree : FileTree) (modules : Filter.Modules) (directory : Option Path)
    (entries : Data) : Fault → Prop
  | name {key : Key} (hkey : key ∈ unknownKeys entries) (htext : ∀ text, key ≠ .str text) :
    Breaks tree modules directory entries .wrongType
  | filter {mark : Mark} {before after : Data} {entry : Key × Datum} {kind : Fault}
    (hnames : unknownKeys entries = [])
    (hfilters : Entries.get? entries (.str "filters") =
      some (.map mark (before ++ entry :: after)))
    (hbefore : ∀ other ∈ before, Filter.Named modules other.2)
    (hfaulty : Filter.Faulty modules entry.2 kind) : Breaks tree modules directory entries kind
  | base {place : Path} {text : String} {kind : Fault} (hnames : unknownKeys entries = [])
    (hfilters : FiltersStand modules entries) (hdirectory : directory = some place)
    (hbase : Entries.get? entries (.str "basepath") = some (.str text))
    (hword : text.toList.head? ≠ some '@') (hmisplaced : Misplaced tree place (.ofText text) kind) :
    Breaks tree modules directory entries kind
  | anchor {based : Data} {kind : Fault} (hnames : unknownKeys entries = [])
    (hfilters : FiltersStand modules entries)
    (hbased : withBase tree directory entries = .ok based) (hparts : PartsStand entries)
    (hanchor : Unanchored tree (given? based "basepath") kind) :
    Breaks tree modules directory entries kind

theorem unknownKeys_edit (entries : Data) {name : String} (hname : name ∈ names)
    (value : Option Datum) : unknownKeys (edit entries name value) = unknownKeys entries := by
  cases value with
  | none => rfl
  | some value => exact unknownKeys_insert entries hname value

theorem get?_edit (entries : Data) (name : String) (value : Option Datum) :
    Entries.get? (edit entries name value) (.str name) =
      value.or (Entries.get? entries (.str name)) := by
  cases value with
  | none => rfl
  | some value => rw [edit, Entries.get?_insert_str, if_pos (Key.same_str.mpr rfl)]; rfl

/-- Behind their filters, entries of a file end with a fault when their base path leads nowhere. -/
theorem withBase_ofEntries_eq_fault_iff {directory : Option Path} {entries : Data}
    (hnames : unknownKeys entries = []) (filters : Option Datum) {kind : Fault} :
    (liftM (withBase tree directory (edit entries "filters" filters)) >>= ofEntries tree) =
        .error (.fault kind) ↔
      (∃ place text, directory = some place ∧
        Entries.get? entries (.str "basepath") = some (.str text) ∧
        text.toList.head? ≠ some '@' ∧ Misplaced tree place (.ofText text) kind) ∨
      ∃ based, withBase tree directory entries = .ok based ∧ PartsStand entries ∧
        Unanchored tree (given? based "basepath") kind := by
  have hbase := get?_edit_of_ne entries (by decide : "basepath" ≠ "filters") filters
  have hnames' (base : Option Datum) :
      unknownKeys (edit (edit entries "filters" filters) "basepath" base) = [] := by
    rw [unknownKeys_edit _ (by decide), unknownKeys_edit _ (by decide), hnames]
  have hgiven (base : Option Datum) {name : String} (hname : name ∉ ["filters", "basepath"]) :
      given? (edit (edit entries "filters" filters) "basepath" base) name =
        given? entries name := by
    rw [List.mem_pair, not_or] at hname
    rw [given?_edit_of_ne _ hname.2, given?_edit_of_ne _ hname.1]
  have hparts (base : Option Datum) :
      PartsStand (edit (edit entries "filters" filters) "basepath" base) ↔ PartsStand entries :=
    partsStand_congr (hgiven base (by decide)) (hgiven base (by decide)) (hgiven base (by decide))
  have hsame (base : Option Datum) :
      given? (edit (edit entries "filters" filters) "basepath" base) "basepath" =
        given? (edit entries "basepath" base) "basepath" := by
    unfold given?
    rw [get?_edit, get?_edit, hbase]
  rw [bind_eq_error, liftM_eq_fault, withBase_eq_error_iff, hbase]
  refine or_congr_right ⟨?_, ?_⟩
  · rintro ⟨based, hbased, h⟩
    obtain ⟨base, rfl, hbased'⟩ := withBase_agree hbase (liftM_eq_ok.mp hbased)
    rw [ofEntries_eq_fault_iff (hnames' base), hparts, hsame] at h
    exact ⟨_, hbased', h⟩
  · rintro ⟨based, hbased, hstand, hanchor⟩
    obtain ⟨base, rfl, hbased'⟩ := withBase_agree hbase.symm hbased
    refine ⟨_, liftM_eq_ok.mpr hbased', ?_⟩
    rw [ofEntries_eq_fault_iff (hnames' base), hparts, hsame]
    exact ⟨hstand, hanchor⟩

/-- Entries of a file end with a fault exactly when they break. -/
theorem ofFileEntries_eq_fault_iff {directory : Option Path} {entries : Data} {kind : Fault} :
    ofFileEntries tree modules directory entries = .error (.fault kind) ↔
      Breaks tree modules directory entries kind := by
  unfold ofFileEntries
  constructor
  · intro h
    obtain h | ⟨_, hnames, h⟩ := bind_eq_error.mp h
    · obtain ⟨rfl, key, hkey, htext⟩ := checkNames_eq_fault_iff.mp h
      exact .name hkey htext
    rw [checkNames_eq_ok_iff] at hnames
    obtain h | ⟨filtered, hfiltered, h⟩ := bind_eq_error.mp h
    · obtain ⟨mark, before, entry, after, hfilters, hbefore, hfaulty⟩ :=
        withFilters_eq_fault_iff.mp h
      exact .filter hnames hfilters hbefore hfaulty
    have hstand := withFilters_eq_ok_iff.mp ⟨filtered, hfiltered⟩
    obtain ⟨filters, rfl, _⟩ := withFilters_agree (.refl entries) hfiltered
    obtain ⟨place, text, hdirectory, hbase, hword, hmisplaced⟩ |
        ⟨based, hbased, hparts, hanchor⟩ := (withBase_ofEntries_eq_fault_iff hnames filters).mp h
    · exact .base hnames hstand hdirectory hbase hword hmisplaced
    · exact .anchor hnames hstand hbased hparts hanchor
  · intro h
    cases h with
    | name hkey htext =>
        exact bind_eq_error.mpr (.inl (checkNames_eq_fault_iff.mpr ⟨rfl, _, hkey, htext⟩))
    | filter hnames hfilters hbefore hfaulty =>
        rw [checkNames_eq_ok_iff.mpr hnames, ok_bind]
        exact bind_eq_error.mpr (.inl (withFilters_eq_fault_iff.mpr
          ⟨_, _, _, _, hfilters, hbefore, hfaulty⟩))
    | base hnames hfilters hdirectory hbase hword hmisplaced =>
        obtain ⟨filtered, hfiltered⟩ := withFilters_eq_ok_iff.mpr hfilters
        obtain ⟨filters, rfl, _⟩ := withFilters_agree (.refl entries) hfiltered
        rw [checkNames_eq_ok_iff.mpr hnames, ok_bind, hfiltered, ok_bind]
        exact (withBase_ofEntries_eq_fault_iff hnames filters).mpr
          (.inl ⟨_, _, hdirectory, hbase, hword, hmisplaced⟩)
    | anchor hnames hfilters hbased hparts hanchor =>
        obtain ⟨filtered, hfiltered⟩ := withFilters_eq_ok_iff.mpr hfilters
        obtain ⟨filters, rfl, _⟩ := withFilters_agree (.refl entries) hfiltered
        rw [checkNames_eq_ok_iff.mpr hnames, ok_bind, hfiltered, ok_bind]
        exact (withBase_ofEntries_eq_fault_iff hnames filters).mpr
          (.inr ⟨_, hbased, hparts, hanchor⟩)

/-- Entries whose names are known and of which a filter is none are reported, or break. -/
theorem ofFileEntries_of_unnamed {directory : Option Path} {entries : Data}
    (hnames : unknownKeys entries = []) {mark : Mark} {references : Data}
    (hfilters : Entries.get? entries (.str "filters") = some (.map mark references))
    {entry : Key × Datum} (hentry : entry ∈ references)
    (hunnamed : ¬ Filter.Named modules entry.2) :
    (∃ problem, ofFileEntries tree modules directory entries =
        .error (.error (.filter problem))) ∨
      ∃ kind, Breaks tree modules directory entries kind := by
  have hstand : ¬ FiltersStand modules entries := by
    rintro (h | ⟨h, hnamed⟩)
    · obtain h | h | ⟨_, h, _⟩ := h _ hfilters <;> cases h
    · cases hfilters.symm.trans h
      exact hunnamed (hnamed entry hentry)
  have hwith : withFilters modules entries = (do
      let registry ← (Filter.resolveAll modules [] references).mapError
        (Halt.map SettingsProblem.filter)
      return Entries.insert entries (.str "filters") (.map (.ofPlace []) registry)) := by
    unfold withFilters
    rw [hfilters]
  cases hregistry : Filter.resolveAll modules [] references with
  | ok registry =>
      refine absurd (withFilters_eq_ok_iff.mp ?_) hstand
      rw [hwith, hregistry]
      exact ⟨_, rfl⟩
  | error reason =>
      rw [hregistry] at hwith
      cases reason with
      | error problem =>
          refine .inl ⟨problem, ?_⟩
          unfold ofFileEntries
          rw [checkNames_eq_ok_iff.mpr hnames, ok_bind, hwith]
          rfl
      | fault kind =>
          obtain ⟨_, _, _, _, h⟩ := withFilters_eq_fault_iff.mp hwith
          exact .inr ⟨kind, .filter hnames h.1 h.2.1 h.2.2⟩

end Settings

namespace CommandLine

variable {modules : Filter.Modules} {tree : FileTree}

/-- The entries that the settings for a place are made from, and the directory of their file. -/
def Gathers (tree : FileTree) (choices : Choices) (start : Path) (directory : Option Path)
    (entries : Data) : Prop :=
  ∃ config further own, settingsFile tree choices start = .ok config ∧
    choices.contexts.foldlM
      (fun merged path => return Data.merge merged (← Settings.readContext tree path)) [] =
        .ok further ∧
    Settings.fileEntries tree config = .ok (own, directory) ∧
    Settings.withContext (Settings.override own choices.overrides) further = .ok entries

/-- The choices of a request and the place that it needs settings for. -/
def Request.settingsPlace? : Request → Option (Choices × Path)
  | .render file _ choices => some (choices, file.parent)
  | .build source _ _ choices => some (choices, source)
  | .help | .version => none

theorem outcome_loadSettings_of_gathers {choices : Choices} {start : Path}
    {directory : Option Path} {entries : Data} (h : Gathers tree choices start directory entries) :
    (loadSettings modules tree choices start).outcome =
      (Settings.ofFileEntries tree modules directory entries).mapError
        (Halt.map fun problem => ⟨.settings problem, none⟩) := by
  obtain ⟨config, further, own, hconfig, hfurther, hown, hentries⟩ := h
  have hload : Settings.load tree modules config choices.overrides further =
      Settings.ofFileEntries tree modules directory entries := by
    rw [Settings.load_eq, hown, ok_bind]
    dsimp only
    rw [hentries]
    rfl
  rw [outcome_loadSettings, hconfig, hfurther, ← hload]
  rfl

theorem replyOf_of_error {verbose : Bool} {run : Rendering Product} {error : Error}
    (h : run.outcome = .error (.error error)) :
    ∃ reply, replyOf verbose run = .ok reply ∧ reply.code = errorCode := by
  unfold replyOf
  dsimp only
  rw [h]
  exact ⟨_, rfl, rfl⟩

variable {choices : Choices} {error : Error}

theorem render_of_refused {file : Path}
    (h : (loadSettings modules tree choices file.parent).outcome = .error (.error error))
    (output : Option Path) :
    ∃ run, render modules tree file output choices = (tree, run) ∧
      run.outcome = .error (.error error) := by
  have hrun : (do
      let settings ← loadSettings modules tree choices file.parent
      return (← Renderer.renderFile ⟨tree, settings⟩ file none none).2 :
        Rendering (List Char)).outcome = .error (.error error) := by
    rw [Run.outcome_bind, h]
    rfl
  unfold render
  dsimp only
  rw [hrun]
  cases output with
  | none => exact ⟨_, rfl, by rw [Run.outcome_bind, hrun]; rfl⟩
  | some path => exact ⟨_, rfl, by rw [Run.outcome_bind, hrun]; rfl⟩

theorem build_of_refused {source : Path}
    (h : (loadSettings modules tree choices source).outcome = .error (.error error))
    (target : Path) (selection : Selection) :
    ∃ run error, build modules tree source target selection choices = (tree, run) ∧
      run.outcome = .error (.error error) := by
  unfold build
  split
  next => exact ⟨_, _, rfl, rfl⟩
  next =>
    dsimp only
    rw [h]
    exact ⟨_, _, rfl, rfl⟩

/-- A request whose settings are refused ends with the code of an error, and changes no file. -/
theorem execute_of_refused {request : Request} {start : Path}
    (hplace : request.settingsPlace? = some (choices, start))
    (h : (loadSettings modules tree choices start).outcome = .error (.error error)) :
    ∃ reply, execute modules tree request = (tree, .ok reply) ∧ reply.code = errorCode := by
  cases request with
  | help | version => cases hplace
  | render file output choices =>
      cases hplace
      obtain ⟨run, hrun, herror⟩ := render_of_refused h output
      obtain ⟨reply, hreply, hcode⟩ := replyOf_of_error herror
      exact ⟨reply, by rw [execute, hrun, ← hreply], hcode⟩
  | build source target selection choices =>
      cases hplace
      obtain ⟨run, cause, hrun, herror⟩ := build_of_refused h target selection
      obtain ⟨reply, hreply, hcode⟩ := replyOf_of_error herror
      exact ⟨reply, by rw [execute, hrun, ← hreply], hcode⟩

end CommandLine

end Transclude
