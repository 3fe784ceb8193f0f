import Mathlib
import Transclude.Proofs.Parts
import Transclude.Proofs.Relocation
import Transclude.Proofs.Staging
import Transclude.Proofs.Stripping
import Transclude.Proofs.Template
import Transclude.Proofs.Unrolling

/-! # Looping over a file

A loop over a file and a loop over text that includes the file for each value do
the same with a list of JSON mappings, though the one hands the values over and the
other one writes them out and reads them again: the file is opened once for all
values or once for each, and rendered with the same data. -/

namespace Transclude

open Include (call passing)

namespace Include

/-- A document that loops over a file with the `items` of its data. -/
def loopText (path : List Char) : List Char := "@@loop('".toList ++ path ++ "', @@items)".toList

/-- A document that includes a file for each of the `items` of its data. -/
def forText (path : List Char) : List Char :=
  "@@for (x of items) \x7b@@include('".toList ++ path ++ "', $\x7bx\x7d)\x7d".toList

/-- A path that may be written in quotes inside a block. -/
structure Writable (path : List Char) : Prop where
  unquoted : '\'' ∉ path
  unescaped : '\\' ∉ path
  unopened : '\x7b' ∉ path
  unclosed : '\x7d' ∉ path
  unsigned : '@' ∉ path

/-- A mapping of JSON that its text can stand for as a parameter: as in all that is read from JSON,
no part of it stands at two places, and its text has no delimiter. -/
structure IsItem (item : Datum) : Prop where
  mapping : item.isMap = true
  json : item.IsJson
  unshared : item.Unshared
  unopened : ¬ ['@', '@'] <:+: item.written

theorem IsItem.unopenedText {item : Datum} (h : IsItem item) (rest : List Char) :
    Unopened item.written rest := by
  refine .of_single h.unopened ?_ rest
  obtain ⟨hmapping, hjson, _⟩ := h
  cases hjson with
  | map hnames _ hvalues =>
      rw [Value.written_map hnames hvalues, List.getLast?_concat]
      decide
  | _ => cases hmapping

theorem IsItem.toShownText {item : Datum} (h : IsItem item) :
    item.toShownText = .ok (String.ofList item.written) := by
  obtain ⟨hmapping, hjson, _⟩ := h
  cases item with
  | map mark entries => exact hjson.toJson_eq
  | _ => cases hmapping

theorem IsItem.datum (r : Relabeling) {item : Datum} (h : IsItem item) : IsItem (r.datum item) where
  mapping := by
    obtain ⟨hmapping, _⟩ := h
    cases item with
    | map mark entries => rfl
    | _ => cases hmapping
  json := h.json.mapIdentity _
  unshared := r.unshared_datum h.unshared
  unopened := by
    rw [Relabeling.datum, Value.written_mapIdentity]
    exact h.unopened

end Include

namespace Renderer

/-- The document that an include without filters puts in its place. -/
def opened (renderer : Renderer) (frame : Frame) (path : List Char) :
    Except (Halt Error) Document := do
  let target := renderer.target frame path
  (frame.checkRecursion target).mapError Halt.error
  let text ← renderer.readIncluded frame target
  return ⟨target, frame.document.base, text⟩

/-- A file rendered for an item, when it is included by the document at a path. -/
def renderItem (renderer : Renderer) (path base : Path) (file : List Char) (item : Datum) :
    Rendering (List Char) := do
  let outer : Document := ⟨path, base, []⟩
  let frame := Frame.outermost outer (renderer.sharedData outer) none
  let document ← renderer.opened frame file
  renderer.renderFrame (2 * renderer.tree.files.length + 1) (frame.inner document (itemData item))

/-- A file opened once and rendered for each item; without items it is not opened. -/
def renderEach (renderer : Renderer) (render : Frame → Rendering (List Char)) (frame : Frame)
    (path : List Char) (items : List Datum) : Rendering (List Char) := do
  if items.isEmpty then return []
  let document ← renderer.opened frame path
  renderItems render frame document items

variable {renderer : Renderer} {render : Frame → Rendering (List Char)} {frame : Frame}
  {path : List Char}

/-- The file is opened alike in documents at one place, whatever their texts and data are. -/
theorem renderEach_outermost (path base : Path) (shared : Data) (data : Option Data)
    (text text' : List Char) (file : List Char) (items : List Datum) :
    renderer.renderEach render (.outermost ⟨path, base, text⟩ shared data) file items =
      renderer.renderEach render (.outermost ⟨path, base, text'⟩ shared data) file items := by
  unfold renderEach
  split
  next => rfl
  next =>
    apply bind_congr
    intro document
    apply renderItems_congr
    intro parameter
    rfl

/-! ## The directives -/

theorem included_eq_opened (hindent : renderer.settings.indent = false) {directive : Directive}
    (hchain : Filter.chain directive.args = []) (arguments : Include.Arguments) :
    renderer.included frame directive arguments = liftM (renderer.opened frame arguments.path) := by
  have hprepare : ∀ text, renderer.prepare directive text = pure text := by
    intro text
    unfold prepare
    rw [hindent]
    cases renderer.settings.filters with
    | none => rfl
    | some registry =>
        simp only [Filter.applyCall, hchain]
        rfl
  unfold included opened
  simp only [hprepare, pure_bind]
  cases frame.checkRecursion (renderer.target frame arguments.path) with
  | error error => rfl
  | ok _ => cases renderer.readIncluded frame (renderer.target frame arguments.path) <;> rfl

/-- The name of the data as a parameter. -/
theorem unwrapped_items : Include.Unwrapped "@@items".toList where
  begins := ⟨'@', by decide, by decide⟩
  ends := ⟨'s', by decide, by decide⟩
  bracketless := by decide

theorem parameter_items (hdelimiters : renderer.settings.delimiters = .standard) {mark : Mark}
    {items : List Datum} (hitems : Entries.get? frame.data (.str "items") = some (.list mark items))
    (filters : List (List Char)) :
    renderer.parameter frame ⟨path, some "@@items".toList, filters⟩ = pure (.list mark items) := by
  unfold parameter
  rw [hdelimiters]
  have hsegments : Value.dottedSegments "items".toList = ["items"] := by cbv
  have hvalue : Value.lookupDotted (.map (.ofPlace []) frame.data) "items".toList =
      .ok (.list mark items) := by
    rw [Value.lookupDotted, hsegments]
    simp only [Value.lookupPath, Value.getProperty, Value.entryProperty_name, hitems, ok_bind,
      Option.getD_some]
  have hdefined : Value.list mark items ≠ .undefined := by rintro ⟨⟩
  rw [Include.Parameter.resolve_of_reference unwrapped_items.toTrimmed (by decide) (by decide)
    (by cbv)]
  exact Include.Parameter.fromData_of_defined hvalue hdefined

theorem loopItems_list (frame : Frame) (mark : Mark) (items : List Datum) :
    loopItems frame (.list mark items) = pure items := by
  cases items <;> rfl

/-- A loop over a file with the list of the data renders the file for each of its items. -/
theorem quiet_expandLoop (hdelimiters : renderer.settings.delimiters = .standard)
    (hindent : renderer.settings.indent = false) (hquote : '\'' ∉ path) {mark : Mark}
    {items : List Datum} (hitems : Entries.get? frame.data (.str "items") = some (.list mark items))
    {directive : Directive} (hargs : directive.args = passing path "@@items".toList) :
    (renderer.expandLoop render frame directive).quiet =
      some <$> (renderer.renderEach render frame path items).quiet := by
  unfold expandLoop
  rw [hargs, Include.parse?_passing hquote unwrapped_items]
  dsimp only
  rw [parameter_items hdelimiters hitems, pure_bind, loopItems_list, pure_bind, renderEach]
  split
  next => rfl
  next =>
    have hchain : Filter.chain directive.args = [] := by
      rw [hargs]
      exact Include.chain_passing unwrapped_items path
    rw [included_eq_opened hindent hchain]
    simp

/-- An include that passes the text of an item renders the file for the item. -/
theorem quiet_expandInclude (hdelimiters : renderer.settings.delimiters = .standard)
    (hindent : renderer.settings.indent = false)
    (hrender : ∀ (r : Relabeling) document parameter,
      render (frame.inner document (Option.map r.data parameter)) =
        render (frame.inner document parameter))
    (hquote : '\'' ∉ path) {item : Datum} (hitem : Include.IsItem item) {directive : Directive}
    (hargs : directive.args = passing path item.written) :
    (renderer.expandInclude render frame directive).quiet = (do
      let document ← renderer.opened frame path
      some <$> (render (frame.inner document (itemData item))).quiet) := by
  obtain ⟨hmapping, hjson, hunshared, hunopened⟩ := hitem
  obtain ⟨r, hr⟩ := Relabeling.exists_datum_placed hjson hunshared
  cases item with
  | map mark entries =>
      have hunwrapped := Include.Parameter.unwrapped_written hjson
      have hparameter : renderer.parameter frame
          ⟨path, some (Value.written (.map mark entries)), []⟩ = pure ((Value.content (.map mark entries)).placed []) := by
        unfold parameter
        rw [hdelimiters]
        exact Include.Parameter.resolve_written hjson hunopened
      -- the mapping that is read is the item with its parts at other places
      obtain ⟨mark', entries', hplaced⟩ : ∃ mark' entries',
          (Value.content (.map mark entries)).placed [] = .map mark' entries' := ⟨_, _, rfl⟩
      rw [hplaced] at hr hparameter
      obtain rfl : r.data entries' = entries := (Value.map.inj hr).2
      have hsame : ∀ document, render (frame.inner document (some entries')) =
          render (frame.inner document (some (r.data entries'))) :=
        fun document => (hrender r document (some entries')).symm
      unfold expandInclude
      rw [hargs, Include.parse?_passing hquote hunwrapped]
      dsimp only
      rw [included_eq_opened hindent (by rw [hargs]; exact Include.chain_passing hunwrapped path),
        hparameter]
      simp [includeData, itemData, hsame]
  | _ => cases hmapping

/-! ## The calls of a loop -/

/-- The calls that include a file for each item, as the scan for includes sees them. -/
def callSlots (path : List Char) (items : List Datum) : List Slot :=
  items.map fun item =>
    .found (call "include".toList path item.written) (passing path item.written) []

/-- When each call gives what the file is for its item, all of them do so one after the other. -/
theorem quiet_fill_of_calls {give : List Char → List Char → Rendering (Option (List Char))}
    {document : Document} {items : List Datum}
    (h : ∀ item ∈ items, (give (passing path item.written) []).quiet =
      some <$> (render (frame.inner document (itemData item))).quiet) :
    (Slot.fill give (callSlots path items)).quiet =
      (renderItems render frame document items).quiet := by
  induction items with
  | nil => rfl
  | cons item rest ih =>
      obtain ⟨hitem, hrest⟩ := List.forall_mem_cons.mp h
      have hslots : callSlots path (item :: rest) = .found (call "include".toList path item.written)
        (passing path item.written) [] :: callSlots path rest := rfl
      rw [hslots, Slot.fill_found, renderItems]
      simp only [Run.quiet_bind, Run.quiet_map, hitem, ih hrest, bind_map_left, Option.getD_some,
        bind_pure_comp]

/-- The text that an include puts in the place of its arguments. -/
def includeArguments (renderer : Renderer) (render : Frame → Rendering (List Char)) (frame : Frame)
    (args _body : List Char) : Rendering (Option (List Char)) :=
  renderer.expandInclude render frame ⟨args, [], 0, 0, []⟩

theorem expandInclude_eq_arguments (hindent : renderer.settings.indent = false)
    (directive : Directive) : renderer.expandInclude render frame directive =
      renderer.includeArguments render frame directive.args directive.body := by
  unfold includeArguments expandInclude included prepare
  simp only [hindent, Bool.false_eq_true, if_false]

/-- Includes for all items render the file for each of them, though each opens it anew. -/
theorem quiet_fill_callSlots (hdelimiters : renderer.settings.delimiters = .standard)
    (hindent : renderer.settings.indent = false)
    (hrender : ∀ (r : Relabeling) document parameter,
      render (frame.inner document (Option.map r.data parameter)) =
        render (frame.inner document parameter))
    (hquote : '\'' ∉ path) {items : List Datum} (hitems : ∀ item ∈ items, Include.IsItem item) :
    (Slot.fill (renderer.includeArguments render frame) (callSlots path items)).quiet =
      (renderer.renderEach render frame path items).quiet := by
  have hinclude : ∀ item ∈ items,
      (renderer.includeArguments render frame (passing path item.written) []).quiet = (do
        let document ← renderer.opened frame path
        some <$> (render (frame.inner document (itemData item))).quiet) :=
    fun item hitem =>
      quiet_expandInclude hdelimiters hindent hrender hquote (hitems item hitem) rfl
  cases items with
  | nil => rfl
  | cons item rest =>
      rw [renderEach, if_neg (by simp)]
      cases hopened : renderer.opened frame path with
      | error reason =>
          -- the first call already stops
          rw [hopened] at hinclude
          rw [callSlots, List.map_cons, Slot.fill_found, Run.quiet_bind,
            hinclude item List.mem_cons_self]
          rfl
      | ok document =>
          simp only [hopened, Run.lift_ok, pure_bind] at hinclude ⊢
          exact quiet_fill_of_calls hinclude

end Renderer

/-! ## The two documents -/

namespace Include

variable {path : List Char}

theorem loopText_eq (path : List Char) :
    loopText path = call "loop".toList path "@@items".toList := by
  unfold loopText call passing Chunk.quoted
  simp only [List.cons_append, List.append_assoc, List.nil_append, String.reduceToList]

theorem forText_eq (path : List Char) : forText path = '@' :: '@' ::
    Directive.blockText "for".toList "x of items".toList
      (call "include".toList path Loop.placeholder) := by
  unfold forText call passing Chunk.quoted Directive.blockText Loop.placeholder
  simp only [List.cons_append, List.append_assoc, List.nil_append, String.reduceToList]

theorem isName_of_word {word : List Char}
    (h : word ∈ ["include".toList, "loop".toList, "items".toList]) : Variable.IsName word := by
  simp only [List.mem_cons, List.not_mem_nil, or_false] at h
  rcases h with rfl | rfl | rfl
  · decide
  · decide
  · decide

theorem silent_loopText (h : '@' ∉ path) {name : List Char}
    (hname : name ∈ ["if".toList, "for".toList, "include".toList]) :
    Directive.Silent .standard name (loopText path) [] := by
  have hother : (∀ behind, Directive.nameEnds name ("loop".toList ++ '(' :: behind) = false) ∧
      Directive.nameEnds name ("items".toList ++ [')']) = false := by
    simp only [List.mem_cons, List.not_mem_nil, or_false] at hname
    rcases hname with rfl | rfl | rfl <;> exact ⟨fun _ => rfl, rfl⟩
  rw [loopText_eq]
  exact silent_call (by decide) ⟨'l', "oop".toList, rfl, by decide⟩ hother.1 h
    (Directive.silent_reference (by decide) ⟨'i', "tems".toList, rfl, by decide⟩ hother.2)

theorem strip_loopText (h : '@' ∉ path) :
    Comment.strip .standard (loopText path) = loopText path := by
  have hplain : '@' ∉ '(' :: Chunk.quoted path ++ [',', ' '] := by simpa [Chunk.quoted] using h
  have hsplit : loopText path = ('@' :: '@' :: "loop".toList) ++
      ('(' :: Chunk.quoted path ++ [',', ' '] ++ (('@' :: '@' :: "items".toList) ++ [')'])) := by
    rw [loopText_eq]
    simp only [call, passing, List.cons_append, List.append_assoc, List.nil_append,
      String.reduceToList]
  have hopening : ∀ text, Delimiters.standard.opening.isPrefixOf text = false →
      Comment.includeLength? .standard text = none := fun _ => Comment.includeLength?_of_no_opening
  refine Comment.strip_of_no_include ?_
  rw [hsplit]
  refine Everywhere.append
    (Comment.no_include_reference (by decide) ⟨'l', "oop".toList, rfl, by decide⟩ ?_)
    (Everywhere.append (.of_plain hopening hplain _)
      (Everywhere.append
        (Comment.no_include_reference (by decide) ⟨'i', "tems".toList, rfl, by decide⟩ ?_)
        (.of_plain hopening (by decide) _)))
  · exact fun hname => absurd (List.cons_prefix_cons.mp hname).1 (by decide)
  · intro hname
    have hletters := (List.cons_prefix_cons.mp hname).2
    exact absurd (List.cons_prefix_cons.mp hletters).1 (by decide)

theorem strip_forText (h : '@' ∉ path) : Comment.strip .standard (forText path) = forText path := by
  have hfront : '<' ∉ "@@for (x of items) \x7b@@include('".toList := by decide
  have hback : '@' ∉ "', $\x7bx\x7d)\x7d".toList := by decide
  have hplain : '@' ∉ path ++ "', $\x7bx\x7d)\x7d".toList := List.not_mem_append h hback
  have hsplit : forText path = "@@for (x of items) \x7b@@include('".toList ++
      (path ++ "', $\x7bx\x7d)\x7d".toList) := List.append_assoc _ _ _
  -- no comment begins in front of the include
  rw [hsplit, Comment.strip_append]
  · rw [Comment.strip_plain hplain]
  · refine (Comment.Passage.no_opening_of_not_mem hfront _).imp fun text hopening => ?_
    rw [Comment.length?, hopening]
    rfl

/-- The list stays in the call, since it has no text of its own. -/
theorem kept_loopText (h : '@' ∉ path) {data : Data}
    (hdata : Entries.hasKey data (.str "loop") = false) {mark : Mark} {items : List Datum}
    (hitems : Entries.get? data (.str "items") = some (.list mark items)) :
    Variable.Kept data (loopText path) [] := by
  have hnames : ∀ name ∈ ["items".toList], Variable.IsName name :=
    List.forall_mem_singleton.mpr (isName_of_word (by decide))
  have hkept : Variable.outcome data (Variable.dotted ["items".toList]) = .ok .kept := by
    rw [Variable.outcome_dotted hnames (List.cons_ne_nil _ _)]
    simp [Variable.ofNames, hitems, Variable.ofValue]
  have hparameter : Variable.Kept data ('@' :: '@' :: Variable.dotted ["items".toList]) [')'] := by
    refine .of_dotted hnames (List.cons_ne_nil _ _) ?_ hkept
    rintro c ⟨⟩
    decide
  rw [Variable.dotted_singleton] at hparameter
  rw [loopText_eq]
  exact kept_call (isName_of_word (by decide)) hdata h hparameter

theorem silent_forText (h : '@' ∉ path) :
    Directive.Silent .standard "if".toList (forText path) [] := by
  have hhead : '@' ∉ "for (x of items) \x7b".toList := by decide
  have hname : '@' ∉ "include('".toList := by decide
  have hback : '@' ∉ "', $\x7bx\x7d)\x7d".toList := by decide
  have hplain : '@' ∉ "include('".toList ++ (path ++ "', $\x7bx\x7d)\x7d".toList) :=
    List.not_mem_append hname (List.not_mem_append h hback)
  have hsplit : forText path = ('@' :: '@' :: "for (x of items) \x7b".toList) ++
      ('@' :: '@' :: ("include('".toList ++ (path ++ "', $\x7bx\x7d)\x7d".toList))) := by
    unfold forText
    simp only [List.cons_append, List.nil_append, String.reduceToList]
  rw [hsplit]
  refine Everywhere.append (Directive.silent_reference hhead ⟨'f', _, rfl, by decide⟩ ?_)
    (Directive.silent_reference hplain ⟨'i', _, rfl, by decide⟩ ?_)
  · rfl
  · rfl

theorem complete_forText (h : Writable path) :
    Directive.Complete .standard Loop.directiveName .block (forText path) "x of items".toList
      (call "include".toList path Loop.placeholder) [] := by
  have hheader : Expr.parseHeader "x of items".toList =
      .ok (.forEach "x" .values (.identifier "items")) := by cbv
  have hopen : '\x7b' ∉ callFront "include".toList path ++ ['$'] := by
    simpa [callFront, Chunk.quoted] using h.unopened
  have hclose : '\x7d' ∉ callFront "include".toList path ++ ['$'] := by
    simpa [callFront, Chunk.quoted] using h.unclosed
  have hplaceholder : Template.Braced "\x7bx\x7d)".toList := by decide
  have hsplit : call "include".toList path Loop.placeholder =
      (callFront "include".toList path ++ ['$']) ++ "\x7bx\x7d)".toList := by
    rw [call_eq]
    simp only [Loop.placeholder, List.cons_append, List.append_assoc, List.nil_append,
      String.reduceToList]
  have hbraces : Template.Braced (call "include".toList path Loop.placeholder) := by
    rw [hsplit]
    exact (Template.braced_of_not_mem hopen hclose).append hplaceholder
  rw [forText_eq]
  exact Directive.complete_block (by decide) (by decide) (Expr.leads_of_parseHeader hheader)
    hbraces []

end Include

namespace Renderer

variable {renderer : Renderer} {frame : Frame} {path : List Char}

/-- Before files are looked at, nothing changes in a document that loops over a file. -/
theorem renderText_loopText (hdelimiters : renderer.settings.delimiters = .standard)
    (htext : frame.document.text = Include.loopText path) (hsign : '@' ∉ path)
    (hdata : Entries.hasKey frame.data (.str "loop") = false) {mark : Mark} {items : List Datum}
    (hitems : Entries.get? frame.data (.str "items") = some (.list mark items)) :
    renderer.renderText frame = pure (Include.loopText path) := by
  have hif : Directive.Silent .standard "if".toList (Include.loopText path) [] :=
    Include.silent_loopText hsign (by decide)
  have hfor : Directive.Silent .standard Loop.directiveName (Include.loopText path) [] :=
    Include.silent_loopText hsign (by decide)
  unfold renderText
  simp only [hdelimiters, htext, Include.strip_loopText hsign, decideConditions,
    replaceDirectives_silent hif, replaceDirectives_silent hfor, pure_bind]
  exact (Include.kept_loopText hsign hdata hitems).replace

/-- The calls that include a file for each item. -/
def calls (path : List Char) (items : List Datum) : List Char :=
  items.flatMap fun item => call "include".toList path item.written

theorem quiet_unrollParts (h : Include.Writable path) {data : Data} {mark : Mark}
    {items : List Datum} (hitems : Entries.get? data (.str "items") = some (.list mark items))
    (hjson : ∀ item ∈ items, Include.IsItem item) (hlength : items.length ≤ Expr.maxIterations) :
    (unrollParts .standard (Scope.ofData data) "x of items".toList
      (call "include".toList path Loop.placeholder)).quiet = pure (some (calls path items)) := by
  let located (mark : Mark) : Origin := .data mark.place
  have hvalues : (Scope.ofData data).get? "items" =
      some (.list (located mark) (items.map (Value.mapIdentity located))) := by
    rw [Scope.get?_ofData, hitems, Option.map_some, Value.mapIdentity, Value.mapIdentities_eq_map]
  have hshown : ∀ value ∈ items.map (Value.mapIdentity located),
      value.toShownText = .ok (String.ofList value.written) := by
    intro value hvalue
    obtain ⟨item, hitem, rfl⟩ := List.mem_map.mp hvalue
    rw [Value.toShownText_mapIdentity, Value.written_mapIdentity]
    exact (hjson item hitem).toShownText
  have hrender := Loop.quiet_render (ω := Warning) h.unopened h.unsigned hvalues hshown
    (by rwa [List.length_map])
  have htext : ((items.map (Value.mapIdentity located)).flatMap fun value =>
      call "include".toList path value.written) = calls path items := by
    rw [List.flatMap_map]
    simp only [Value.written_mapIdentity, calls]
  rw [htext] at hrender
  unfold unrollParts unroll
  simp only [Run.quiet_bind, Run.quiet_mapError, hrender]
  change pure (some (String.ofList (calls path items)).toList) = _
  rw [String.toList_ofList]

theorem kept_calls (hsign : '@' ∉ path) {data : Data}
    (hdata : Entries.hasKey data (.str "include") = false) {items : List Datum}
    (hjson : ∀ item ∈ items, Include.IsItem item) : Variable.Kept data (calls path items) [] := by
  induction items with
  | nil => exact .nil data []
  | cons item rest ih =>
      obtain ⟨hitem, hrest⟩ := List.forall_mem_cons.mp hjson
      exact Variable.Kept.append (Include.kept_call (Include.isName_of_word (by decide)) hdata hsign
        (.of_unopened (hitem.unopenedText _))) (ih hrest)

/-- Before files are looked at, a document that includes a file for each item becomes the calls. -/
theorem quiet_renderText_forText (hdelimiters : renderer.settings.delimiters = .standard)
    (htext : frame.document.text = Include.forText path) (h : Include.Writable path)
    (hdata : Entries.hasKey frame.data (.str "include") = false) {mark : Mark} {items : List Datum}
    (hitems : Entries.get? frame.data (.str "items") = some (.list mark items))
    (hjson : ∀ item ∈ items, Include.IsItem item) (hlength : items.length ≤ Expr.maxIterations) :
    (renderer.renderText frame).quiet = pure (calls path items) := by
  have hlayout : Layout .standard Loop.directiveName .block (Include.forText path)
      [.found (Include.forText path) "x of items".toList
        (call "include".toList path Loop.placeholder)] := by
    have hfound := Layout.found (Include.complete_forText h) .nil
    rwa [List.append_nil] at hfound
  have hreplace : replaceDirectives .standard Loop.directiveName .block
      (unroll .standard (Scope.ofData frame.data)) (Include.forText path) =
        Slot.fill (unrollParts .standard (Scope.ofData frame.data)) _ :=
    replaceDirectives_eq_fill hlayout fun _ => rfl
  have hunrolled := quiet_unrollParts h hitems hjson hlength
  unfold renderText
  simp only [hdelimiters, htext, Include.strip_forText h.unsigned, decideConditions,
    replaceDirectives_silent (Include.silent_forText h.unsigned), pure_bind]
  rw [hreplace, Slot.fill_singleton, Run.quiet_bind, Run.quiet_map, hunrolled, map_pure, pure_bind,
    Option.getD_some, (kept_calls h.unsigned hdata hjson).replace, Run.quiet_pure]

/-! ## The rendered documents -/

theorem layout_calls (h : Include.Writable path) {items : List Datum}
    (hjson : ∀ item ∈ items, Include.IsItem item) :
    Layout .standard "include".toList .call (calls path items) (callSlots path items) := by
  induction items with
  | nil => exact .nil
  | cons item rest ih =>
      obtain ⟨hitem, hrest⟩ := List.forall_mem_cons.mp hjson
      exact .found (Include.complete_passing (by decide) (by decide) h.unquoted h.unescaped
        (hitem.json.leads 0) _) (ih hrest)

variable {render : Frame → Rendering (List Char)}

/-- The text that a loop over a file puts in the place of its arguments. -/
def loopArguments (renderer : Renderer) (render : Frame → Rendering (List Char)) (frame : Frame)
    (args _body : List Char) : Rendering (Option (List Char)) :=
  renderer.expandLoop render frame ⟨args, [], 0, 0, []⟩

theorem expandLoop_eq_arguments (hindent : renderer.settings.indent = false)
    (directive : Directive) : renderer.expandLoop render frame directive =
      renderer.loopArguments render frame directive.args directive.body := by
  unfold loopArguments expandLoop included prepare
  simp only [hindent, Bool.false_eq_true, if_false]

theorem quiet_expandFrame_loopText (hdelimiters : renderer.settings.delimiters = .standard)
    (hindent : renderer.settings.indent = false)
    (htext : frame.document.text = Include.loopText path) (h : Include.Writable path)
    (hdata : Entries.hasKey frame.data (.str "loop") = false) {mark : Mark} {items : List Datum}
    (hitems : Entries.get? frame.data (.str "items") = some (.list mark items)) :
    (renderer.expandFrame render frame).quiet =
      (renderer.renderEach render frame path items).quiet.mapError (·.locatedIn frame.file) := by
  have hinclude : Directive.Silent .standard "include".toList (Include.loopText path) [] :=
    Include.silent_loopText h.unsigned (by decide)
  have hharmless : Bracket.Leads true '(' ')' "@@items".toList 0 0 :=
    Expr.leads_of_harmless .round (by simp [Expr.Harmless, Bracket.isQuote, Bracket.Pair.opening,
      Bracket.Pair.closing]) 0
  have hlayout : Layout .standard "loop".toList .call (Include.loopText path)
      [.found (Include.loopText path) (passing path "@@items".toList) []] := by
    have hcomplete : Directive.Complete .standard "loop".toList .call
        (call "loop".toList path "@@items".toList) (passing path "@@items".toList) [] [] :=
      Include.complete_passing (by decide) (by decide) h.unquoted h.unescaped hharmless []
    have hfound := Layout.found hcomplete .nil
    rwa [List.append_nil, ← Include.loopText_eq] at hfound
  have hloops : replaceDirectives .standard "loop".toList .call (renderer.expandLoop render frame)
      (Include.loopText path) = _ :=
    replaceDirectives_eq_fill hlayout (expandLoop_eq_arguments hindent)
  have hexpanded : (renderer.expandLoop render frame
      ⟨passing path "@@items".toList, [], 0, 0, []⟩).quiet =
        some <$> (renderer.renderEach render frame path items).quiet :=
    quiet_expandLoop hdelimiters hindent h.unquoted hitems rfl
  unfold expandFrame
  dsimp only
  rw [hdelimiters, renderText_loopText hdelimiters htext h.unsigned hdata hitems, pure_bind,
    replaceDirectives_silent hinclude, pure_bind, hloops, Slot.fill_singleton, Run.quiet_mapError,
    Run.quiet_map, loopArguments, hexpanded, Functor.map_map]
  exact congrArg (Run.mapError _) (id_map _)

theorem not_mem_renderItems {c : Char} {document : Document} {items : List Datum}
    (hitems : ∀ item ∈ items, ∀ text,
      (render (frame.inner document (itemData item))).outcome = .ok text → c ∉ text)
    {text : List Char} (htext : (renderItems render frame document items).outcome = .ok text) :
    c ∉ text := by
  induction items generalizing text with
  | nil =>
      cases htext
      exact List.not_mem_nil
  | cons item rest ih =>
      obtain ⟨hitem, hrest⟩ := List.forall_mem_cons.mp hitems
      obtain ⟨first, hfirst, hrun⟩ := Run.bind_eq_ok.mp htext
      obtain ⟨following, hfollowing, hdone⟩ := Run.bind_eq_ok.mp hrun
      cases hdone
      exact List.not_mem_append (hitem first hfirst) (ih hrest hfollowing)

/-- What the file is without for all items, is missing from the whole. -/
theorem not_mem_renderEach {c : Char} {items : List Datum}
    (hitems : ∀ item ∈ items, ∀ document text, renderer.opened frame path = .ok document →
      (render (frame.inner document (itemData item))).outcome = .ok text → c ∉ text)
    {text : List Char} (htext : (renderer.renderEach render frame path items).outcome = .ok text) :
    c ∉ text := by
  unfold renderEach at htext
  split at htext
  next =>
    cases htext
    exact List.not_mem_nil
  next =>
    obtain ⟨document, hopened, hrun⟩ := Run.bind_eq_ok.mp htext
    exact not_mem_renderItems (fun item hitem text => hitems item hitem document text hopened) hrun

theorem quiet_expandFrame_forText (hdelimiters : renderer.settings.delimiters = .standard)
    (hindent : renderer.settings.indent = false)
    (hrender : ∀ (r : Relabeling) document parameter,
      render (frame.inner document (Option.map r.data parameter)) =
        render (frame.inner document parameter))
    (htext : frame.document.text = Include.forText path) (h : Include.Writable path)
    (hdata : Entries.hasKey frame.data (.str "include") = false) {mark : Mark} {items : List Datum}
    (hitems : Entries.get? frame.data (.str "items") = some (.list mark items))
    (hjson : ∀ item ∈ items, Include.IsItem item) (hlength : items.length ≤ Expr.maxIterations)
    (hplain : ∀ text,
      (renderer.renderEach render frame path items).outcome = .ok text → '@' ∉ text) :
    (renderer.expandFrame render frame).quiet =
      (renderer.renderEach render frame path items).quiet.mapError (·.locatedIn frame.file) := by
  have hincludes : replaceDirectives .standard "include".toList .call
      (renderer.expandInclude render frame) (calls path items) = _ :=
    replaceDirectives_eq_fill (layout_calls h hjson) (expandInclude_eq_arguments hindent)
  unfold expandFrame
  dsimp only
  rw [hdelimiters, Run.quiet_mapError, Run.quiet_bind,
    quiet_renderText_forText hdelimiters htext h hdata hitems hjson hlength, pure_bind, hincludes,
    Run.quiet_bind, quiet_fill_callSlots hdelimiters hindent hrender h.unquoted hjson]
  congr 1
  refine Run.bind_eq_self fun text hrun => ?_
  rw [replaceDirectives_silent (Directive.silent_of_plain (hplain text hrun) [])]
  rfl

/-- What a document is but for details is what its frame is. -/
theorem quiet_renderDocument (renderer : Renderer) (document : Document) (data : Option Data) :
    (renderer.renderDocument document data).quiet =
      (renderer.expandFrame (renderer.renderFrame (2 * renderer.tree.files.length + 1))
        (Frame.outermost document (renderer.sharedData document) data)).quiet := by
  rw [renderDocument, Run.quiet_bind, Run.quiet_detail, pure_bind]
  rfl

/-- Text without signs, before files are looked at, is what the frame is rendered to. -/
theorem outcome_expandFrame_of_plain {render : Frame → Rendering (List Char)}
    (hdelimiters : renderer.settings.delimiters = .standard) {text : List Char}
    (htext : (renderer.renderText frame).outcome = .ok text) (hplain : '@' ∉ text) :
    (renderer.expandFrame render frame).outcome = .ok text := by
  have hsilent : ∀ name, Directive.Silent .standard name text [] :=
    fun name => Directive.silent_of_plain hplain []
  unfold expandFrame
  simp only [Run.outcome_mapError, Run.outcome_bind, hdelimiters, htext, ok_bind,
    outcome_replaceDirectives_silent (hsilent _)]
  rfl

end Renderer

/-! ## A list of guests -/

namespace Guests

/-- The line of a guest in the list. -/
def line : Template :=
  .literal "- ".toList (.reference ["name".toList] (.literal ['\n'] .nil))

/-- The path of the list. -/
def root : Path := ⟨.single, ["site", "index.html"]⟩

/-- The path of the file with the line. -/
def part : Path := ⟨.single, ["site", "guest"]⟩

/-- The directory of the list, which has only the file with the line. -/
def renderer : Renderer :=
  ⟨⟨[(["site", "guest"], line.print.map fun c => c.toNat.toUInt8)], [["site"]], ["site"], []⟩,
    .standard⟩

/-- The frame of the list, whatever its text is. -/
def frame : Frame :=
  .outermost ⟨root, root.parent, []⟩ (renderer.sharedData ⟨root, root.parent, []⟩) none

/-- A guest with a name at a place of the list. -/
def guest (place : Nat) (name : String) : Datum :=
  .map (.ofPlace [place, 0]) [(.str "name", .str name)]

/-- Two guests, the second of whom has brackets, slashes and quotes in the name. -/
def guests : List Datum := [guest 0 "Ann", guest 1 "Bo)\x7b\\\""]

/-- The data with the guests. -/
def data : Data := [(.str "items", .list (.ofPlace [0]) guests)]

theorem isItem_guest {place : Nat} {name text : String}
    (htext : (guest place name).toJson = .ok text) (hopening : ¬ ['@', '@'] <:+: text.toList) :
    Include.IsItem (guest place name) where
  mapping := rfl
  json := .map (by simp) (by simp) (by simpa using .str name)
  unshared := ⟨List.nodup_singleton _, List.forall_mem_singleton.mpr rfl⟩
  unopened := by
    rw [Value.written_of_toJson htext]
    exact hopening

theorem isItem_of_mem : ∀ item ∈ guests, Include.IsItem item := by
  have hfirst : (guest 0 "Ann").toJson = .ok "\x7b\"name\":\"Ann\"\x7d" := by cbv
  have hsecond : (guest 1 "Bo)\x7b\\\"").toJson =
      .ok "\x7b\"name\":\"Bo)\x7b\\\\\\\"\"\x7d" := by cbv
  exact List.forall_mem_cons.mpr ⟨isItem_guest hfirst (by decide),
    List.forall_mem_singleton.mpr (isItem_guest hsecond (by decide))⟩

theorem proper_line : line.Proper false := by
  have hname : Template.IsReference ["name".toList] := by
    refine ⟨?_, _, _, rfl, by decide⟩
    intro name hmem
    rw [List.mem_singleton.mp hmem]
    decide
  have houtside : ∀ content, false = true → Template.Braced content :=
    fun _ hfalse => absurd hfalse (by decide)
  exact ⟨by decide, houtside _, hname, ⟨by decide, by decide⟩, by decide, houtside _, trivial⟩

theorem opened_guest :
    renderer.opened frame "guest".toList = .ok ⟨part, root.parent, line.print⟩ := by
  have htarget : renderer.target frame "guest".toList = part := rfl
  have hcheck : frame.checkRecursion part = .ok () := by
    have hother : part.sameFile root = false := by cbv
    have hdocument : frame.document.path = root := rfl
    have hstack : frame.stack = [root] := rfl
    unfold Frame.checkRecursion
    simp only [hdocument, hstack, hother, Bool.false_eq_true, if_false, List.dropWhile,
      Bool.not_false]
  have hread : DataFile.readText renderer.tree part = .ok line.print := by cbv
  unfold Renderer.opened Renderer.readIncluded
  simp only [htarget, hcheck, hread]
  rfl

/-- For a guest the file is the line with the name. -/
theorem outcome_renderItem {item : Datum} {text : List Char}
    (hvalue : line.evaluate (frame.inner ⟨part, root.parent, line.print⟩
      (Renderer.itemData item)).data none = .ok text) (hplain : '@' ∉ text) :
    (renderer.renderItem root root.parent "guest".toList item).outcome = .ok text := by
  change ((liftM (renderer.opened frame "guest".toList) : Rendering Document) >>= _).outcome = _
  rw [opened_guest, Run.lift_ok, pure_bind]
  refine Renderer.outcome_expandFrame_of_plain rfl ?_ hplain
  rw [Renderer.outcome_renderText_template rfl rfl proper_line, ← Template.evaluate_eq_prune]
  exact hvalue

theorem outcome_renderItem_first :
    (renderer.renderItem root root.parent "guest".toList (guest 0 "Ann")).outcome =
      .ok "- Ann\n".toList :=
  outcome_renderItem (by cbv) (by decide)

theorem outcome_renderItem_second :
    (renderer.renderItem root root.parent "guest".toList (guest 1 "Bo)\x7b\\\"")).outcome =
      .ok "- Bo)\x7b\\\"\n".toList :=
  outcome_renderItem (by cbv) (by decide)

theorem plain_of_mem : ∀ item ∈ guests, ∀ text,
    (renderer.renderItem root root.parent "guest".toList item).outcome = .ok text →
      '@' ∉ text := by
  refine List.forall_mem_cons.mpr ⟨?_, List.forall_mem_singleton.mpr ?_⟩
  · intro text htext
    rw [outcome_renderItem_first] at htext
    cases htext
    decide
  · intro text htext
    rw [outcome_renderItem_second] at htext
    cases htext
    decide

end Guests

end Transclude
