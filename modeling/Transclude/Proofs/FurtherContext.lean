import Mathlib
import Transclude.CommandLine.Execute
import Transclude.Proofs.Outcome
import Transclude.Proofs.Regrouping

/-! # Further data over the context of settings

Data from elsewhere change nothing in settings but their context, which becomes what
it was with them laid over it. The command line merges its files of data with each
other first; what documents see is the same as if each were laid over the context
in turn, as long as none hides a part of the context from a later one. -/

namespace Transclude

/-- Data in a JSON file are what its text writes. -/
theorem DataFile.read_json {tree : FileTree} {path : Path} {text : List Char} {value : Content}
    (hname : FileTree.isNameable path = true) (hjson : DataFile.isYaml path = false)
    (htext : DataFile.readText tree path = .ok text) (hread : Json.read text = .ok value) :
    DataFile.read tree path = .ok (value.placed []) := by
  have hparse : DataFile.parse path text = .ok (value.placed []) := by
    unfold DataFile.parse
    rw [hjson, hread]
    rfl
  unfold DataFile.read
  rw [if_pos hname, htext]
  exact hparse

namespace Settings

/-- Entries that give the same settings but for the context. -/
structure AgreeButContext (entries entries' : Data) : Prop where
  unknown : unknownKeys entries = unknownKeys entries'
  given : ∀ name, name ≠ "context" →
    Entries.get? entries (.str name) = Entries.get? entries' (.str name)

theorem unknownKeys_insert (entries : Data) {name : String} (hname : name ∈ names)
    (value : Datum) : unknownKeys (Entries.insert entries (.str name) value) =
      unknownKeys entries := by
  have hkeys := Entries.keys_insert entries (.str name) value
  have hknown : (names.any fun other => Key.same (.str name) (.str other)) = true :=
    List.any_eq_true.mpr ⟨name, hname, Key.same_str.mpr rfl⟩
  unfold Entries.keys at hkeys
  unfold unknownKeys
  rw [hkeys, Key.add]
  split
  next => rfl
  next => simp [List.filter_append, hknown]

namespace AgreeButContext

variable {entries entries' : Data}

theorem refl (entries : Data) : AgreeButContext entries entries := ⟨rfl, fun _ _ => rfl⟩

/-- Setting the context changes nothing else. -/
theorem insert_context (entries : Data) (value : Datum) :
    AgreeButContext entries (Entries.insert entries (.str "context") value) where
  unknown := (unknownKeys_insert entries (by decide) value).symm
  given := by
    intro name hname
    rw [Entries.get?_insert_str, if_neg]
    rw [Key.same_str]
    rintro ⟨⟩
    exact hname rfl

theorem insert (h : AgreeButContext entries entries') {name : String} (hname : name ∈ names)
    (value : Datum) : AgreeButContext (Entries.insert entries (.str name) value)
      (Entries.insert entries' (.str name) value) where
  unknown := by rw [unknownKeys_insert _ hname, unknownKeys_insert _ hname, h.unknown]
  given := by
    intro other hother
    rw [Entries.get?_insert_str, Entries.get?_insert_str, h.given other hother]

theorem given? (h : AgreeButContext entries entries') {name : String} (hname : name ≠ "context") :
    Settings.given? entries name = Settings.given? entries' name := by
  unfold Settings.given?
  rw [h.given name hname]

theorem checkNames (h : AgreeButContext entries entries') :
    Settings.checkNames entries = Settings.checkNames entries' := by
  unfold Settings.checkNames
  rw [h.unknown]

end AgreeButContext

/-- Entries with a value for a setting, if there is one. -/
def edit (entries : Data) (name : String) : Option Datum → Data
  | none => entries
  | some value => Entries.insert entries (.str name) value

theorem AgreeButContext.edit {entries entries' : Data} (h : AgreeButContext entries entries')
    {name : String} (hname : name ∈ names) (value : Option Datum) :
    AgreeButContext (Settings.edit entries name value) (Settings.edit entries' name value) := by
  cases value with
  | none => exact h
  | some value => exact h.insert hname value

theorem get?_edit_of_ne (entries : Data) {name other : String} (hne : other ≠ name)
    (value : Option Datum) :
    Entries.get? (edit entries name value) (.str other) = Entries.get? entries (.str other) := by
  cases value with
  | none => rfl
  | some value =>
      rw [edit, Entries.get?_insert_str, if_neg]
      rw [Key.same_str]
      rintro ⟨⟩
      exact hne rfl

theorem given?_edit_of_ne (entries : Data) {name other : String} (hne : other ≠ name)
    (value : Option Datum) : given? (edit entries name value) other = given? entries other := by
  unfold given?
  rw [get?_edit_of_ne entries hne]

/-- What the filters of entries are made into depends on what they give for the filters. -/
theorem withFilters_agree {modules : Filter.Modules} {entries entries' result : Data}
    (h : AgreeButContext entries entries') (hresult : withFilters modules entries = .ok result) :
    ∃ value, result = edit entries "filters" value ∧
      withFilters modules entries' = .ok (edit entries' "filters" value) := by
  unfold withFilters at hresult ⊢
  rw [h.given "filters" (by decide)] at hresult
  generalize Entries.get? entries' (.str "filters") = found at hresult ⊢
  rcases found with _ | (s | items | members | ⟨mark, items⟩ | ⟨mark, references⟩)
  case none =>
    cases hresult
    exact ⟨none, rfl, rfl⟩
  case some.map =>
    obtain ⟨registry, hregistry, hresult⟩ := bind_eq_ok.mp hresult
    cases hresult
    exact ⟨some _, rfl, bind_eq_ok.mpr ⟨registry, hregistry, rfl⟩⟩
  case some.scalar =>
    cases s with
    | null =>
        cases hresult
        exact ⟨none, rfl, rfl⟩
    | bool b =>
        cases b with
        | true => cases hresult
        | false =>
            cases hresult
            exact ⟨none, rfl, rfl⟩
    | number n =>
        dsimp only at hresult ⊢
        split at hresult
        next hzero =>
          cases hresult
          exact ⟨none, rfl, if_pos hzero⟩
        next => cases hresult
    | _ => cases hresult
  all_goals cases hresult

/-- What the base path of entries is made into depends on what they give for it. -/
theorem withBase_agree {tree : FileTree} {directory : Option Path}
    {entries entries' result : Data}
    (h : Entries.get? entries (.str "basepath") = Entries.get? entries' (.str "basepath"))
    (hresult : withBase tree directory entries = .ok result) :
    ∃ value, result = edit entries "basepath" value ∧
      withBase tree directory entries' = .ok (edit entries' "basepath" value) := by
  unfold withBase at hresult ⊢
  rw [h] at hresult
  generalize Entries.get? entries' (.str "basepath") = found at hresult ⊢
  split at hresult
  next directory text =>
    dsimp only
    split at hresult
    next hword =>
      cases hresult
      exact ⟨none, rfl, if_pos hword⟩
    next hword =>
      rw [if_neg hword]
      obtain ⟨home, hhome, hresult⟩ := bind_eq_ok.mp hresult
      split at hresult
      next habsolute =>
        cases hresult
        exact ⟨none, rfl, bind_eq_ok.mpr ⟨home, hhome, if_pos habsolute⟩⟩
      next habsolute =>
        obtain ⟨base, hbase, hresult⟩ := bind_eq_ok.mp hresult
        cases hresult
        refine ⟨some _, rfl, bind_eq_ok.mpr ⟨home, hhome, ?_⟩⟩
        rw [if_neg habsolute]
        exact bind_eq_ok.mpr ⟨base, hbase, rfl⟩
  next hother =>
    cases hresult
    exact ⟨none, rfl, rfl⟩

/-- The settings of entries with another context differ in the context. -/
theorem ofEntries_agree {tree : FileTree} {entries entries' : Data} {settings : Settings}
    (h : AgreeButContext entries entries') (hsettings : ofEntries tree entries = .ok settings)
    {context : Data} (hcontext : contextOf (given? entries' "context") = .ok context) :
    ofEntries tree entries' = .ok { settings with context := context } := by
  unfold ofEntries at hsettings ⊢
  rw [h.checkNames, h.given? (by decide : "prefix" ≠ "context"),
    h.given? (by decide : "suffix" ≠ "context"),
    h.given? (by decide : "basepath" ≠ "context"), h.given? (by decide : "filters" ≠ "context"),
    h.given? (by decide : "indent" ≠ "context")] at hsettings
  rw [hcontext]
  obtain ⟨_, hnames, hsettings⟩ := bind_eq_ok.mp hsettings
  obtain ⟨opening, hopening, hsettings⟩ := bind_eq_ok.mp hsettings
  obtain ⟨closing, hclosing, hsettings⟩ := bind_eq_ok.mp hsettings
  obtain ⟨_, _, hsettings⟩ := bind_eq_ok.mp hsettings
  obtain ⟨anchor, hanchor, hsettings⟩ := bind_eq_ok.mp hsettings
  obtain ⟨filters, hfilters, hsettings⟩ := bind_eq_ok.mp hsettings
  cases hsettings
  rw [hnames, hopening, hclosing, hanchor, hfilters]
  rfl

theorem contextOf_of_ofEntries {tree : FileTree} {entries : Data} {settings : Settings}
    (h : ofEntries tree entries = .ok settings) :
    contextOf (given? entries "context") = .ok settings.context := by
  unfold ofEntries at h
  obtain ⟨_, _, h⟩ := bind_eq_ok.mp h
  obtain ⟨_, _, h⟩ := bind_eq_ok.mp h
  obtain ⟨_, _, h⟩ := bind_eq_ok.mp h
  obtain ⟨context, hcontext, h⟩ := bind_eq_ok.mp h
  obtain ⟨_, _, h⟩ := bind_eq_ok.mp h
  obtain ⟨_, _, h⟩ := bind_eq_ok.mp h
  cases h
  cases hfound : contextOf (given? entries "context") with
  | error problem => rw [hfound] at hcontext; cases hcontext
  | ok found => rw [hfound] at hcontext; cases hcontext; rfl

/-- The settings of the entries of a file with another context differ in the context. -/
theorem ofFileEntries_agree {tree : FileTree} {modules : Filter.Modules}
    {directory : Option Path} {entries entries' : Data} {settings : Settings}
    (h : AgreeButContext entries entries')
    (hsettings : ofFileEntries tree modules directory entries = .ok settings) {context : Data}
    (hcontext : contextOf (given? entries' "context") = .ok context) :
    ofFileEntries tree modules directory entries' = .ok { settings with context := context } := by
  unfold ofFileEntries at hsettings ⊢
  obtain ⟨_, hnames, hsettings⟩ := bind_eq_ok.mp hsettings
  obtain ⟨filtered, hfiltered, hsettings⟩ := bind_eq_ok.mp hsettings
  obtain ⟨based, hbased, hsettings⟩ := bind_eq_ok.mp hsettings
  rw [liftM_eq_ok] at hbased
  obtain ⟨filters, rfl, hfiltered'⟩ := withFilters_agree h hfiltered
  have hagree := h.edit (by decide : "filters" ∈ names) filters
  obtain ⟨base, rfl, hbased'⟩ := withBase_agree (hagree.given "basepath" (by decide)) hbased
  rw [← h.checkNames, hnames, ok_bind, hfiltered', ok_bind, hbased']
  refine ofEntries_agree (hagree.edit (by decide : "basepath" ∈ names) base) hsettings ?_
  rwa [given?_edit_of_ne _ (by decide), given?_edit_of_ne _ (by decide)]

theorem contextOf_of_ofFileEntries {tree : FileTree} {modules : Filter.Modules}
    {directory : Option Path} {entries : Data} {settings : Settings}
    (h : ofFileEntries tree modules directory entries = .ok settings) :
    contextOf (given? entries "context") = .ok settings.context := by
  unfold ofFileEntries at h
  obtain ⟨_, _, h⟩ := bind_eq_ok.mp h
  obtain ⟨filtered, hfiltered, h⟩ := bind_eq_ok.mp h
  obtain ⟨based, hbased, h⟩ := bind_eq_ok.mp h
  rw [liftM_eq_ok] at hbased
  obtain ⟨filters, rfl, _⟩ := withFilters_agree (.refl entries) hfiltered
  obtain ⟨base, rfl, _⟩ := withBase_agree rfl hbased
  have hcontext := contextOf_of_ofEntries h
  rwa [given?_edit_of_ne _ (by decide), given?_edit_of_ne _ (by decide)] at hcontext

/-- The entries of a file of settings and its directory; without a file there are none. -/
def fileEntries (tree : FileTree) (file : Option Path) :
    Except (Halt SettingsProblem) (Data × Option Path) :=
  match file with
  | none => .ok ([], none)
  | some path => do
    if !tree.isFile path then throw (.error (.noSettingsFile path.toText))
    let entries ← readEntries tree path
    return (entries, some (← tree.resolve path).parent)

theorem load_eq (tree : FileTree) (modules : Filter.Modules) (file : Option Path)
    (overrides further : Data) : load tree modules file overrides further = (do
      let (entries, directory) ← fileEntries tree file
      let entries ← (withContext (override entries overrides) further).mapError Halt.error
      ofFileEntries tree modules directory entries) := by
  unfold load fileEntries
  cases file with
  | none => rfl
  | some path =>
      dsimp only
      split
      next => rfl
      next =>
        cases readEntries tree path with
        | error reason => rfl
        | ok entries => cases tree.resolve path <;> rfl

/-- Where entries give a context, or none, further data are laid over it. -/
theorem withContext_eq {entries context : Data}
    (hcontext : contextOf (given? entries "context") = .ok context) {further : Data}
    (hfurther : further ≠ []) : withContext entries further =
      .ok (Entries.insert entries (.str "context")
        (.map (.ofPlace []) (Data.merge context further))) := by
  unfold withContext
  rw [List.isEmpty_eq_false_iff.mpr hfurther]
  unfold given? at hcontext
  cases hfound : Entries.get? entries (.str "context") with
  | none =>
      rw [hfound] at hcontext
      cases hcontext
      rfl
  | some value =>
      rw [hfound] at hcontext
      cases value with
      | map mark context' =>
          cases hcontext
          rfl
      | scalar s =>
          cases s with
          | null =>
              cases hcontext
              rfl
          | _ => cases hcontext
      | _ => cases hcontext

theorem contextOf_insert (entries : Data) (context : Data) :
    contextOf (given? (Entries.insert entries (.str "context")
      (.map (.ofPlace []) context)) "context") = .ok context := by
  unfold given?
  rw [Entries.get?_insert_str, if_pos (Key.same_str.mpr rfl)]
  rfl

/-- Further data are laid over the context of the settings, and change nothing else. -/
theorem exists_load (tree : FileTree) (modules : Filter.Modules) (file : Option Path)
    (overrides : Data) {settings : Settings}
    (h : load tree modules file overrides [] = .ok settings) (further : Data) :
    ∃ context, load tree modules file overrides further =
        .ok { settings with context := context } ∧
      Data.contents context = Data.contents (Data.merge settings.context further) := by
  rw [load_eq] at h ⊢
  obtain ⟨⟨entries, directory⟩, hentries, h⟩ := bind_eq_ok.mp h
  have hsettings : ofFileEntries tree modules directory (override entries overrides) =
      .ok settings := h
  have hcontext := contextOf_of_ofFileEntries hsettings
  rw [hentries, ok_bind]
  by_cases hfurther : further = []
  · subst hfurther
    exact ⟨settings.context, hsettings, (Data.contents_merge settings.context []).symm⟩
  · refine ⟨Data.merge settings.context further, ?_, rfl⟩
    dsimp only
    rw [withContext_eq hcontext hfurther]
    exact ofFileEntries_agree (.insert_context _ _) hsettings (contextOf_insert _ _)

theorem readContext_of_read {tree : FileTree} {path : Path} {mark : Mark} {entries : Data}
    (hfile : tree.isFile path = true) (hread : DataFile.read tree path = .ok (.map mark entries)) :
    readContext tree path = .ok entries := by
  unfold readContext
  rw [hfile, hread]
  rfl

end Settings

namespace CommandLine

variable {modules : Filter.Modules} {tree : FileTree}

/-- The data of several files, each laid over those before it. -/
theorem foldlM_readContext {contexts : List Path} {files : List Data}
    (h : contexts.mapM (Settings.readContext tree) = .ok files) (base : Data) :
    contexts.foldlM (fun merged path => do
      return Data.merge merged (← Settings.readContext tree path)) base =
        .ok (files.foldl Data.merge base) := by
  induction contexts generalizing base files with
  | nil =>
      cases h
      rfl
  | cons path rest ih =>
      rw [List.mapM_cons] at h
      obtain ⟨first, hfirst, h⟩ := bind_eq_ok.mp h
      obtain ⟨others, hothers, h⟩ := bind_eq_ok.mp h
      cases h
      rw [List.foldlM_cons, hfirst]
      exact ih hothers (Data.merge base first)

/-- The file of settings that a request goes by: the chosen one, or the nearest. -/
def settingsFile (tree : FileTree) (choices : Choices) (start : Path) :
    Except Fault (Option Path) :=
  match choices.config with
  | some path => .ok (some path)
  | none => Settings.find? tree start

/-- Settings are loaded from the file that a request goes by, with the data of its further files
merged with each other. -/
theorem outcome_loadSettings (choices : Choices) (start : Path) :
    (loadSettings modules tree choices start).outcome = (do
      let config ← settingsFile tree choices start
      Except.mapError (Halt.map fun problem => ⟨.settings problem, none⟩) do
        let further ← choices.contexts.foldlM
          (fun merged path => return Data.merge merged (← Settings.readContext tree path)) []
        Settings.load tree modules config choices.overrides further) := by
  unfold loadSettings settingsFile
  cases choices.config with
  | some path => rfl
  | none =>
      cases Settings.find? tree start with
      | error kind => rfl
      | ok found => cases found <;> rfl

/-- The settings with files of data are those without them, but for the context: it holds what the
merged data hold when they are laid over it. -/
theorem exists_loadSettings {choices : Choices} {start : Path} {files : List Data}
    {settings : Settings}
    (hfiles : choices.contexts.mapM (Settings.readContext tree) = .ok files)
    (h : (loadSettings modules tree { choices with contexts := [] } start).outcome =
      .ok settings) :
    ∃ context, (loadSettings modules tree choices start).outcome =
        .ok { settings with context := context } ∧
      Data.contents context =
        Data.contents (Data.merge settings.context (files.foldl Data.merge [])) := by
  rw [outcome_loadSettings] at h ⊢
  obtain ⟨config, hconfig, h⟩ := bind_eq_ok.mp h
  have hload : Settings.load tree modules config choices.overrides [] = .ok settings := by
    cases hloaded : Settings.load tree modules config choices.overrides [] with
    | error problem => rw [List.foldlM_nil, pure_bind, hloaded] at h; cases h
    | ok loaded => rw [List.foldlM_nil, pure_bind, hloaded] at h; cases h; rfl
  obtain ⟨context, hcontext, hcontents⟩ :=
    Settings.exists_load tree modules config choices.overrides hload (files.foldl Data.merge [])
  refine ⟨context, bind_eq_ok.mpr ⟨config, hconfig, ?_⟩, hcontents⟩
  rw [foldlM_readContext hfiles, ok_bind, hcontext]
  rfl

/-- Merges of three mappings from the left and from the right hold the same just when nothing that
the middle one hides from the upper one would be added to it. The files of data of a request, which
are merged with each other first, change nothing in the settings but the context, and it holds the
same as if each file were laid over it in turn, as long as none hides from a later one a mapping
that would add to it. Both go for what is held in any order and in the same order. -/
theorem contexts_regroup (ordered : Bool) :
    (∀ base middle top : Data, middle.WellKeyed → top.WellKeyed →
      (Data.Alike ordered ((base.merge middle).merge top) (base.merge (middle.merge top)) ↔
        Data.Regroups ordered base middle top)) ∧
    (∀ (modules : Filter.Modules) (tree : FileTree) (choices : Choices) (start : Path)
      (files : List Data) (settings : Settings),
      choices.contexts.mapM (Settings.readContext tree) = .ok files →
      (loadSettings modules tree { choices with contexts := [] } start).outcome = .ok settings →
      (∀ file ∈ files, file.WellKeyed) →
      files.Pairwise (Data.Regroups ordered settings.context) →
        ∃ context, (loadSettings modules tree choices start).outcome =
            .ok { settings with context := context } ∧
          Data.Alike ordered context (settings.context.derive (files.map some))) := by
  constructor
  · intro base middle top hmiddle htop
    exact Data.alike_merge_merge_iff hmiddle htop
  · intro modules tree choices start files settings hfiles hsettings hkeyed hregroups
    obtain ⟨context, hcontext, hcontents⟩ := exists_loadSettings hfiles hsettings
    refine ⟨context, hcontext, ?_⟩
    rw [Data.Alike, hcontents]
    exact Data.alike_merge_foldl hkeyed hregroups

/-! A number that one file has at a key hides a mapping of the context from a mapping of the next
file. -/

namespace Hidden

/-- A mapping with a mapping at one key. -/
def nested (name : String) (n : Int) : Data :=
  [(.str "k", .map (.ofPlace [1]) [(.str name, .number (.int n))])]

/-- A mapping with a number at the same key. -/
def plain : Data := [(.str "k", .number (.int 5))]

def plainFile : Path := ⟨.single, ["site", "a.json"]⟩

def nestedFile : Path := ⟨.single, ["site", "b.json"]⟩

def plainText : List Char := "\x7b\"k\": 5\x7d".toList

def nestedText : List Char := "\x7b\"k\": \x7b\"x\": 2\x7d\x7d".toList

def site : FileTree :=
  ⟨[(["site", "a.json"], Text.encode plainText), (["site", "b.json"], Text.encode nestedText)],
    [["site"]], ["site"], ["home"]⟩

/-- A request with a context of its own and the two files. -/
def choices : Choices :=
  ⟨none, [plainFile, nestedFile], [(.str "context", .map (.ofPlace []) (nested "x" 1))], false⟩

def start : Path := ⟨.single, ["site"]⟩

theorem readContext_plainFile : Settings.readContext site plainFile = .ok plain := by
  have htext : DataFile.readText site plainFile = .ok plainText := by cbv
  have hread : Json.read plainText = .ok (.map () [(.str "k", .number (.int 5))]) := by cbv
  have hname : FileTree.isNameable plainFile = true := by cbv
  have hjson : DataFile.isYaml plainFile = false := by decide
  have hfile : site.isFile plainFile = true := by cbv
  have hdata : DataFile.read site plainFile = .ok (.map (.ofPlace []) plain) := by
    rw [DataFile.read_json hname hjson htext hread]
    cbv
  exact Settings.readContext_of_read hfile hdata

theorem readContext_nestedFile : Settings.readContext site nestedFile = .ok (nested "x" 2) := by
  have htext : DataFile.readText site nestedFile = .ok nestedText := by cbv
  have hread : Json.read nestedText =
      .ok (.map () [(.str "k", .map () [(.str "x", .number (.int 2))])]) := by cbv
  have hname : FileTree.isNameable nestedFile = true := by cbv
  have hjson : DataFile.isYaml nestedFile = false := by decide
  have hfile : site.isFile nestedFile = true := by cbv
  have hdata : DataFile.read site nestedFile = .ok (.map (.ofPlace []) (nested "x" 2)) := by
    rw [DataFile.read_json hname hjson htext hread]
    cbv
  exact Settings.readContext_of_read hfile hdata

/-- The settings without the files. -/
def settings : Settings := { Settings.standard with context := nested "x" 1 }

theorem loadSettings_alone :
    (loadSettings [] site { choices with contexts := [] } start).outcome =
      .ok settings := by
  rw [outcome_loadSettings]
  cbv

theorem eq_of_get?_singleton {k key : Key} {value found : Datum}
    (h : Entries.get? [(k, value)] key = some found) : found = value := by
  rw [Entries.get?_cons] at h
  split at h
  next => cases h; rfl
  next => cases h

theorem wellKeyed_singleton {k : Key} {value : Datum} (h : value.WellKeyed) :
    Data.WellKeyed [(k, value)] := by
  refine Value.WellKeyed.map (List.pairwise_singleton _ _) ?_
  intro key found hfound
  rwa [eq_of_get?_singleton hfound]

theorem wellKeyed_plain : plain.WellKeyed := wellKeyed_singleton (.of_not_isMap rfl)

theorem wellKeyed_nested (name : String) (n : Int) : (nested name n).WellKeyed := by
  refine wellKeyed_singleton (Value.WellKeyed.map (List.pairwise_singleton _ _) ?_)
  intro key found hfound
  rw [eq_of_get?_singleton hfound]
  exact .of_not_isMap rfl

/-- The number hides a mapping that would add nothing, since the next one has its keys. -/
theorem regroups (ordered : Bool) :
    Data.Regroups ordered (nested "x" 1) plain (nested "x" 2) := by
  intro path lower upper hhidden
  cases path with
  | nil => exact (Value.not_hiddenAt_nil hhidden).elim
  | cons key rest =>
      obtain ⟨a, b, c, ha, hb, hc, hinner⟩ := Value.hiddenAt_cons_iff.mp hhidden
      obtain rfl := eq_of_get?_singleton ha
      obtain rfl := eq_of_get?_singleton hb
      obtain rfl := eq_of_get?_singleton hc
      obtain ⟨⟨_, hbelow⟩, ⟨value, hbetween, _⟩, ⟨_, habove⟩⟩ := hinner
      cases rest with
      | nil =>
          cases hbelow
          cases habove
          exact Value.Alike.refl ordered _
      | cons key' rest' => cases hbetween

end Hidden

/-- The number of the first file hides a mapping of the context that has no key of its own. -/
theorem contexts_regroup_hidden :
    Hidden.choices.contexts.mapM (Settings.readContext Hidden.site) =
        .ok [Hidden.plain, Hidden.nested "x" 2] ∧
      (loadSettings [] Hidden.site { Hidden.choices with contexts := [] } Hidden.start).outcome =
        .ok Hidden.settings ∧
      ∃ context, (loadSettings [] Hidden.site Hidden.choices Hidden.start).outcome =
          .ok { Hidden.settings with context := context } ∧
        Data.Alike true context
          (Hidden.settings.context.derive [some Hidden.plain, some (Hidden.nested "x" 2)]) := by
  have hfiles : Hidden.choices.contexts.mapM (Settings.readContext Hidden.site) =
      .ok [Hidden.plain, Hidden.nested "x" 2] := by
    rw [Hidden.choices, List.mapM_cons, List.mapM_cons, Hidden.readContext_plainFile,
      Hidden.readContext_nestedFile]
    rfl
  refine ⟨hfiles, Hidden.loadSettings_alone,
    (contexts_regroup true).2 [] Hidden.site Hidden.choices Hidden.start _ Hidden.settings hfiles
      Hidden.loadSettings_alone ?_ ?_⟩
  · intro file hfile
    simp only [List.mem_cons, List.not_mem_nil, or_false] at hfile
    rcases hfile with rfl | rfl
    · exact Hidden.wellKeyed_plain
    · exact Hidden.wellKeyed_nested "x" 2
  · refine List.pairwise_cons.mpr ⟨?_, List.pairwise_singleton _ _⟩
    intro file hfile
    obtain rfl := List.mem_singleton.mp hfile
    exact Hidden.regroups true

/-- The groupings differ where the hidden mapping has a key that the next one lacks: merged from the
left, it is lost. -/
theorem not_contexts_regroup :
    ¬ Data.Alike false (((Hidden.nested "x" 1).merge Hidden.plain).merge (Hidden.nested "y" 2))
      ((Hidden.nested "x" 1).merge (Hidden.plain.merge (Hidden.nested "y" 2))) := by
  intro h
  have hvalue := h [.str "k", .str "x"]
  cbv at hvalue
  cases hvalue

end CommandLine

end Transclude
