import Mathlib
import Transclude.Proofs.Evaluated
import Transclude.Proofs.Inclusion
import Transclude.Proofs.Outputs

/-! # Builds as lists of renderings

As long as no rendering reads below the target directory, what a build has written does
not show in what it renders next. A build is then the list of the renderings of its
sources, each by itself, up to the first one that fails, and it does the same when it is
repeated. -/

namespace Transclude

open FileTree Location

namespace FileTree

variable {tree : FileTree} {target place : Location} {path : Path}

/-- A path without steps upwards stays clear of a target that it does not end below. -/
theorem staysClear_of_isNormal (hnormal : path.IsNormal) (h : ¬ LeadsTo target path.parts) :
    tree.StaysClear target path := by
  obtain ⟨habsolute, hparts⟩ := Path.isNormal_iff.mp hnormal
  rw [StaysClear, if_pos habsolute]
  suffices hbypasses : ∀ (place : Location) (parts : List String), (∀ part ∈ parts, part ≠ "..") →
      ¬ LeadsTo target (place ++ parts) → tree.Bypasses target place parts from
    hbypasses [] path.parts hparts h
  intro place parts hparts h
  induction parts generalizing place with
  | nil => rwa [List.append_nil] at h
  | cons part rest ih =>
      have hpart := hparts part List.mem_cons_self
      refine ⟨fun hplace => h ?_, fun hup => absurd hup hpart, ?_⟩
      · obtain ⟨first, behind, rfl⟩ := hplace
        exact ⟨first, behind ++ part :: rest, by simp⟩
      · rw [step, if_neg hpart]
        refine ih _ (fun other hother => hparts other (List.mem_cons_of_mem part hother)) ?_
        rwa [List.append_assoc, List.singleton_append]

end FileTree

namespace Build

variable {settings : Settings} {directory target : Path} {tree grown : FileTree}
  {source : Location} {sources : List Location}

/-! ## Renderings of sources -/

/-- The paths that the rendering of a source evaluates. -/
def EvaluatedIn (renderer : Renderer) (directory source path : Path) : Prop :=
  ∃ text document, Renderer.readSource renderer.tree source = .ok text ∧
    Document.make renderer.tree source (some directory) text = .ok document ∧
    Renderer.Evaluates renderer
      (.outermost document (renderer.sharedData document) none) path

/-- The text of a source is that of its file, rendered with the source directory as its base. -/
theorem renderSource_eq (renderer : Renderer) (directory source : Path) :
    renderSource renderer directory source =
      (·.2) <$> renderer.renderFile source (some directory) none := by
  unfold renderSource Renderer.renderFile Renderer.render
  simp only [map_bind, map_pure, bind_pure]

/-- What has been written below a target does not show in the rendering of a source that stays clear
of it. -/
theorem renderSource_grown (htree : tree.WellFormed)
    (hgrown : Grows target.parts tree grown) {source : Path}
    (hsource : tree.StaysClear target.parts source)
    (hpaths : ∀ path, EvaluatedIn ⟨tree, settings⟩ directory source path →
      tree.StaysClear target.parts path) :
    renderSource ⟨grown, settings⟩ directory source =
      renderSource ⟨tree, settings⟩ directory source := by
  have hread : Renderer.readSource grown source = Renderer.readSource tree source := by
    rw [Renderer.readSource, Renderer.readSource, (hgrown.sameAt htree hsource).readText_eq]
  have hmake : ∀ text, Document.make grown source (some directory) text =
      Document.make tree source (some directory) text := by
    intro text
    unfold Document.make Document.absolutePath expandHome FileTree.absolute workingPath
    rw [hgrown.home, hgrown.workingDirectory]
  unfold renderSource
  dsimp only
  rw [hread]
  apply Run.bind_congr_of_ok
  intro text htext
  rw [hmake]
  apply Run.bind_congr_of_ok
  intro document hdocument
  refine Renderer.renderDocument_congr hgrown.workingDirectory document none fun path hpath => ?_
  exact hgrown.sameAt htree
    (hpaths path ⟨text, document, htext, Run.outcome_liftM_eq_ok.mp hdocument, hpath⟩)

/-! ## Builds and their repetition -/

/-- What keeps a build from seeing what it writes. -/
structure Undisturbed (settings : Settings) (tree : FileTree) (src dst : Path)
    (sources : List Location) : Prop where
  wellFormed : tree.WellFormed
  nameable : isNameable dst = true
  /-- The target is neither the source directory nor above it. -/
  around : ¬ dst.parts <+: src.parts
  /-- A target inside of the source directory begins at the same root. -/
  root : src.parts <+: dst.parts → src.root = dst.root
  /-- Nothing is in the way of the outputs. -/
  free : ∀ source ∈ kept src dst sources, tree.Free (dst.parts ++ source)
  /-- No path that is evaluated for a source leads below the target, or goes up out of a directory
  that is made for it. -/
  clear : ∀ source ∈ kept src dst sources, ∀ path,
    EvaluatedIn ⟨tree, settings⟩ src (src.join ⟨.relative, source⟩) path →
      tree.StaysClear dst.parts path

/-- The rendering of a source by itself. -/
def alone (settings : Settings) (tree : FileTree) (src : Path) (source : Location) :
    Rendering (Document × List Char) :=
  Renderer.renderFile ⟨tree, settings⟩ (src.join ⟨.relative, source⟩) (some src) none

/-- The text of a source rendered by itself. -/
def textAlone (settings : Settings) (tree : FileTree) (src : Path) (source : Location) :
    Rendering (List Char) :=
  (·.2) <$> alone settings tree src source

/-- The end of a build, which writes down how many files have been written. -/
def closing (src : Path) (report : Rendering (List Path)) : Rendering (List Path) := do
  let written ← report
  Run.detail ("Built " ++ toString written.length ++ " file(s) from " ++ src.toText)
  return written

theorem outcome_closing (src : Path) (report : Rendering (List Path)) :
    (closing src report).outcome = report.outcome := by
  simp only [closing, Run.outcome_bind, Run.outcome_detail, ok_bind, Run.outcome_pure]
  exact bind_pure _

theorem textAlone_eq_ok {src : Path} {text : List Char} :
    (textAlone settings tree src source).outcome = .ok text ↔
      ∃ document, (alone settings tree src source).outcome = .ok (document, text) := by
  rw [textAlone, ← bind_pure_comp, Run.bind_eq_ok]
  constructor
  · rintro ⟨⟨document, found⟩, halone, hfound⟩
    cases hfound
    exact ⟨document, halone⟩
  · rintro ⟨document, halone⟩
    exact ⟨_, halone, rfl⟩

theorem textAlone_of_error {src : Path} {reason : Halt Error}
    (h : (alone settings tree src source).outcome = .error reason) :
    (textAlone settings tree src source).outcome = .error reason := by
  rw [textAlone, ← bind_pure_comp, Run.outcome_bind, h, error_bind]

theorem finished_textAlone (src : Path) (sources : List Location) :
    finished (textAlone settings tree src) sources =
      finished (alone settings tree src) sources :=
  finished_map _ _ _

namespace Undisturbed

variable {selection : Selection} {src dst : Path}

/-- A source is left out when it lies below the place of the target. -/
theorem liesIn_iff (h : Undisturbed settings tree src dst sources) (source : Location) :
    (src.join ⟨.relative, source⟩).LiesIn dst ↔ LeadsTo dst.parts (src.parts ++ source) := by
  refine ⟨fun hlies => hlies.2, fun hleads => ⟨?_, hleads⟩⟩
  obtain habove | hbelow := List.prefix_or_prefix_of_prefix hleads.isPrefix
    (List.prefix_append src.parts source)
  · exact absurd habove h.around
  · exact (h.root hbelow).symm

/-- Sources are rendered by themselves, whatever has been written below the target. -/
theorem renderSource_eq_alone (h : Undisturbed settings tree src dst sources)
    (hnormal : src.IsNormal) (hsources : ∀ source ∈ sources, source ∈ tree.filesBelow src)
    (hsource : source ∈ kept src dst sources) (hgrown : Grows dst.parts tree grown) :
    renderSource ⟨grown, settings⟩ src (src.join ⟨.relative, source⟩) =
      textAlone settings tree src source := by
  rw [textAlone, alone, ← renderSource_eq]
  refine renderSource_grown h.wellFormed hgrown (staysClear_of_isNormal ?_ ?_)
    (h.clear source hsource)
  · refine Path.isNormal_iff.mpr ⟨hnormal.1, fun part hpart => ?_⟩
    obtain ⟨_, bytes, hfile⟩ :=
      mem_filesBelow hnormal (hsources source (List.mem_of_mem_filter hsource))
    exact (h.wellFormed.names _ hfile part hpart).1
  · have hkept := List.of_mem_filter hsource
    rwa [decide_eq_true_eq, h.liesIn_iff] at hkept

/-- What has been written below the target does not show in what is written there. -/
theorem kept_grown (h : Undisturbed settings tree src dst sources) (hnormal : src.IsNormal)
    (hsources : selection.sources tree src = .ok sources)
    (hdirectory : tree.hasDirectory src.parts = true) (hgrown : Grows dst.parts tree grown) :
    ∃ others, selection.sources grown src = .ok others ∧
      kept src dst others = kept src dst sources := by
  obtain ⟨selects, hselects⟩ := Selection.exists_of_sources hsources
  refine ⟨_, hselects grown, ?_⟩
  have hlisted := h.wellFormed.filter_filesBelow hgrown.wellFormed hnormal hdirectory
    (hgrown.hasDirectory _ hdirectory) (fun place => ¬ LeadsTo dst.parts place) hgrown.files.symm
  rw [← Except.ok.inj ((hselects tree).symm.trans hsources)]
  simp only [kept, h.liesIn_iff]
  rw [List.filter_comm, ← hlisted, List.filter_comm]

/-- A build of a grown tree writes the texts of the sources rendered by themselves. -/
theorem buildAll_eq_report (h : Undisturbed settings tree src dst sources) (hsrc : src.IsNormal)
    (hsources : selection.sources tree src = .ok sources)
    (hready : Ready dst (kept src dst sources) grown) (hgrown : Grows dst.parts tree grown) :
    buildAll settings src dst grown (kept src dst sources) =
        (putAll dst (textAlone settings tree src) grown (kept src dst sources),
          report dst (textAlone settings tree src) (kept src dst sources)) ∧
      Ready dst (kept src dst sources)
        (putAll dst (textAlone settings tree src) grown (kept src dst sources)) ∧
      Grows dst.parts tree
        (putAll dst (textAlone settings tree src) grown (kept src dst sources)) :=
  buildAll_eq hready hgrown (fun _ hsource => hsource) fun _ hsource _ hgrown =>
    h.renderSource_eq_alone hsrc (mem_filesBelow_of_sources hsources) hsource hgrown

variable (h : Undisturbed settings tree src dst sources) (hsrc : tree.absolute directory = src)
  (hdst : tree.absolute target = dst) (hsources : selection.sources tree src = .ok sources)

include h hsrc hdst hsources

theorem ready : Ready dst (kept src dst sources) tree :=
  ready_of_sources h.wellFormed (hsrc ▸ isNormal_absolute tree directory)
    (hdst ▸ isNormal_absolute tree target) h.nameable (fun source hsource =>
      mem_filesBelow_of_sources hsources source (List.mem_of_mem_filter hsource)) h.free

/-- A build writes the texts of its sources, each rendered by itself. -/
theorem build_eq_report : build settings selection directory target tree =
    (putAll dst (textAlone settings tree src) tree (kept src dst sources),
      closing src (report dst (textAlone settings tree src) (kept src dst sources))) := by
  have hbuilt := (h.buildAll_eq_report (hsrc ▸ isNormal_absolute tree directory) hsources
    (h.ready hsrc hdst hsources) (.refl h.wellFormed dst.parts)).1
  subst hsrc hdst
  rw [build_eq hsources, hbuilt]
  rfl

/-- A second build finds everything written. -/
theorem build_again : build settings selection directory target
      (putAll dst (textAlone settings tree src) tree (kept src dst sources)) =
    (putAll dst (textAlone settings tree src) tree (kept src dst sources),
      closing src (report dst (textAlone settings tree src) (kept src dst sources))) := by
  have hnormal : src.IsNormal := hsrc ▸ isNormal_absolute tree directory
  obtain ⟨_, hready, hgrown⟩ := h.buildAll_eq_report hnormal hsources
    (h.ready hsrc hdst hsources) (.refl h.wellFormed dst.parts)
  have hagain := (h.buildAll_eq_report hnormal hsources hready hgrown).1
  rw [putAll_putAll] at hagain
  by_cases hdirectory : tree.hasDirectory src.parts = true
  · obtain ⟨others, hothers, hkept⟩ := h.kept_grown hnormal hsources hdirectory hgrown
    -- the second build starts from another tree, in which the paths and the sources are the same
    generalize putAll dst (textAlone settings tree src) tree (kept src dst sources) = after at *
    have habsolute : ∀ path, after.absolute path = tree.absolute path := by
      intro path
      rw [FileTree.absolute, FileTree.absolute, workingPath, workingPath, hgrown.workingDirectory]
    rw [← hkept] at hagain ⊢
    subst hsrc hdst
    rw [← habsolute directory, ← habsolute target] at hagain ⊢
    rw [build_eq (habsolute directory ▸ hothers), hagain]
    rfl
  · -- without a source directory nothing is written
    have hnone : kept src dst sources = [] := by
      refine List.eq_nil_iff_forall_not_mem.mpr fun source hsource => hdirectory ?_
      exact (mem_filesBelow hnormal (mem_filesBelow_of_sources hsources source
        (List.mem_of_mem_filter hsource))).1
    have hbuilt := h.build_eq_report hsrc hdst hsources
    rw [hnone] at hbuilt ⊢
    exact hbuilt

end Undisturbed

theorem kept_onePage :
    kept (.ofText "/site/a") (.ofText "/site/b") [["x.html"]] = [["x.html"]] := by decide

theorem undisturbed_onePage :
    Undisturbed .standard onePage (.ofText "/site/a") (.ofText "/site/b") [["x.html"]] where
  wellFormed := wellFormed_onePage
  nameable := by decide
  around := by decide
  root := by decide
  free := by decide
  clear := by
    rw [kept_onePage]
    rintro source hsource path ⟨text, document, htext, hdocument, hevaluates⟩
    obtain rfl := List.mem_singleton.mp hsource
    have hread : Renderer.readSource onePage (.ofText "/site/a/x.html") = .ok ['A'] := by cbv
    cases hread.symm.trans htext
    have hmade : Document.make onePage (.ofText "/site/a/x.html") (some (.ofText "/site/a")) ['A'] =
        .ok ⟨.ofText "/site/a/x.html", .ofText "/site/a", ['A']⟩ := by cbv
    cases hmade.symm.trans hdocument
    exact absurd hevaluates (Renderer.not_evaluates_of_plain rfl (by decide) path)

namespace Detour

/-- A page that loops over a data file, which it names by way of a directory that is not there. -/
def page : List Char := "@@loop('p','n/../d')".toList

def site : FileTree :=
  ((((FileTree.empty ["site"] ["home"]).put ["s", "a"] (Text.encode ['A'])).put ["s", "b"]
    (Text.encode page)).put ["s", "d"] (Text.encode "[1]".toList)).put ["s", "p"]
      (Text.encode ['P'])

/-- The tree in which the first page has been written, and with it the directory. -/
def written : FileTree := site.put ["s", "n", "o", "a"] (Text.encode ['A'])

def pages : Selection := ⟨["a", "b"], []⟩

def src : Path := ⟨.single, ["s"]⟩

def dst : Path := ⟨.single, ["s", "n", "o"]⟩

def document : Document := ⟨⟨.single, ["s", "b"]⟩, src, page⟩

def frame : Frame := .outermost document (Renderer.sharedData ⟨site, .standard⟩ document) none

def call : Directive := ⟨"'p','n/../d'".toList, [], 0, 20, []⟩

def arguments : Include.Arguments := ⟨['p'], some "'n/../d'".toList, []⟩

theorem silent_page {name : List Char}
    (h : Directive.nameEnds name "loop('p','n/../d')".toList = false) :
    Directive.Silent .standard name page [] :=
  Directive.silent_reference (by decide) ⟨'l', "oop('p','n/../d')".toList, rfl, by decide⟩ h

theorem pieces_page : Directive.pieces .standard "loop".toList .call page =
    [.directive call page] := by cbv

theorem parse?_call : Include.Arguments.parse? call.args = some arguments := by cbv

theorem outcome_renderText (tree : FileTree) :
    (Renderer.renderText ⟨tree, .standard⟩ frame).outcome = .ok page := by
  have hstrip : Comment.strip .standard page = page :=
    Comment.strip_eq_self_of_not_holdsInclude (Comment.not_holdsInclude_of_not_mem (by decide))
  have hif : Directive.Silent .standard "if".toList page [] := silent_page (by decide)
  have hfor : Directive.Silent .standard Loop.directiveName page [] := silent_page (by decide)
  have hreplace : (Variable.replace .standard frame.data page).outcome = .ok page := by cbv
  have hdelimiters : Settings.standard.delimiters = .standard := rfl
  have htext : frame.document.text = page := rfl
  unfold Renderer.renderText
  simp only [hdelimiters, htext, hstrip, Renderer.decideConditions,
    Renderer.replaceDirectives_silent hif, Renderer.replaceDirectives_silent hfor, pure_bind,
    hreplace]

theorem silent_include : Directive.Silent Settings.standard.delimiters "include".toList page [] :=
  silent_page (by decide)

/-- The page is what its loop is expanded to. -/
theorem outcome_renderFrame {tree : FileTree} {depth : Nat} {text : List Char}
    (h : (Renderer.expandLoop ⟨tree, .standard⟩ (Renderer.renderFrame ⟨tree, .standard⟩ depth)
      frame call).outcome = .ok (some text)) :
    (Renderer.renderFrame ⟨tree, .standard⟩ (depth + 1) frame).outcome = .ok text := by
  have hloop : (Renderer.replaceDirectives .standard "loop".toList .call
      (Renderer.expandLoop ⟨tree, .standard⟩ (Renderer.renderFrame ⟨tree, .standard⟩ depth) frame)
      page).outcome = .ok text := by
    rw [Renderer.replaceDirectives, pieces_page]
    simp only [Piece.assemble, Run.outcome_bind, h, ok_bind, Run.outcome_pure, Option.getD_some,
      List.append_nil]
  rw [Renderer.renderFrame, Renderer.expandFrame]
  simp only [Run.outcome_mapError, Run.outcome_bind, outcome_renderText, ok_bind,
    Renderer.outcome_replaceDirectives_silent silent_include]
  exact mapError_eq_ok.mpr hloop

theorem parameter_site :
    (Renderer.parameter ⟨site, .standard⟩ frame arguments).outcome = .ok .null := by cbv

theorem parameter_written :
    (Renderer.parameter ⟨written, .standard⟩ frame arguments).outcome =
      .ok (.list (.ofPlace []) [.number (.int 1)]) := by cbv

theorem readSource_page {tree : FileTree} (h : tree = site ∨ tree = written) :
    Renderer.readSource tree document.path = .ok page := by
  obtain rfl | rfl := h <;> cbv

theorem make_page {tree : FileTree} (h : tree = site ∨ tree = written) :
    Document.make tree document.path (some src) page = .ok document := by
  obtain rfl | rfl := h <;> cbv

theorem outcome_renderSource {tree : FileTree} {depth : Nat} {text : List Char}
    (htree : tree = site ∨ tree = written)
    (hdepth : Renderer.depthBound ⟨tree, .standard⟩ = depth + 1)
    (h : (Renderer.expandLoop ⟨tree, .standard⟩ (Renderer.renderFrame ⟨tree, .standard⟩ depth)
      frame call).outcome = .ok (some text)) :
    (renderSource ⟨tree, .standard⟩ src document.path).outcome = .ok text := by
  have hframe : (Renderer.renderFrame ⟨tree, .standard⟩ (Renderer.depthBound ⟨tree, .standard⟩)
      (.outermost document (Renderer.sharedData ⟨tree, .standard⟩ document) none)).outcome =
        .ok text := by
    rw [hdepth]
    exact outcome_renderFrame h
  unfold renderSource
  simp only [readSource_page htree, Run.outcome_bind, Run.outcome_lift, ok_bind, make_page htree]
  rw [Run.outcome_liftM_eq_ok.mpr rfl, ok_bind, Renderer.renderDocument, Run.outcome_bind,
    Run.outcome_detail, ok_bind]
  exact hframe

/-- Without the directory the loop has no items. -/
theorem render_site : (renderSource ⟨site, .standard⟩ src document.path).outcome = .ok [] := by
  refine outcome_renderSource (.inl rfl) (show _ = 9 + 1 by decide) ?_
  unfold Renderer.expandLoop
  rw [parse?_call]
  simp only [Run.outcome_bind, parameter_site, ok_bind]
  rfl

/-- Once the directory has been made, it has one. -/
theorem render_written : (renderSource ⟨written, .standard⟩ src document.path).outcome =
    .ok ['P'] := by
  have hcheck : frame.checkRecursion ⟨.single, ["s", "p"]⟩ = .ok () := by
    have hnew : (⟨.single, ["s", "p"]⟩ : Path).sameFile document.path = false := by cbv
    unfold Frame.checkRecursion frame Frame.outermost
    simp only [hnew, Bool.false_eq_true, if_false, List.dropWhile, Bool.not_false]
  have hread : Renderer.readIncluded ⟨written, .standard⟩ frame ⟨.single, ["s", "p"]⟩ =
      .ok ['P'] := by cbv
  have htarget : Renderer.target ⟨written, .standard⟩ frame ['p'] = ⟨.single, ["s", "p"]⟩ := by
    decide
  have hinner : (Renderer.renderFrame ⟨written, .standard⟩ 11
      (frame.inner ⟨⟨.single, ["s", "p"]⟩, src, ['P']⟩ none)).outcome = .ok ['P'] := by cbv
  refine outcome_renderSource (.inr rfl) (show _ = 11 + 1 by decide) ?_
  unfold Renderer.expandLoop
  rw [parse?_call]
  have hpath : arguments.path = ['p'] := rfl
  have hprepare : (Renderer.prepare ⟨written, .standard⟩ call ['P']).outcome = .ok ['P'] := rfl
  have hitem : Renderer.itemData (.number (.int 1)) = none := rfl
  have hbase : frame.document.base = src := rfl
  simp only [Run.outcome_bind, parameter_written, ok_bind, Renderer.loopItems, Value.isVoid,
    List.isEmpty_cons, Bool.false_eq_true, if_false, Run.outcome_pure, Renderer.included,
    Run.outcome_lift, Run.outcome_detail, hpath, htarget, hcheck, Except.mapError, hread, hprepare,
    hbase, Renderer.renderItems, hitem, hinner, List.append_nil]

/-- The only path that the rendering of the page evaluates leads up out of the directory. -/
theorem evaluates_page {path : Path} (h : Renderer.Evaluates ⟨site, .standard⟩ frame path) :
    path = ⟨.single, ["s", "n", "..", "d"]⟩ := by
  have hincludes := Renderer.not_includes_of_silent (outcome_renderText site) silent_include
  have hloops : ∀ {found arguments'}, Renderer.Loops ⟨site, .standard⟩ frame found →
      Include.Arguments.parse? found.args = some arguments' → arguments' = arguments := by
    intro found arguments' hfound hparse
    obtain ⟨source, hmem⟩ := hfound.mem_of_silent (outcome_renderText site) silent_include
    replace hmem : Piece.directive found source ∈
        Directive.pieces .standard "loop".toList .call page := hmem
    rw [pieces_page, List.mem_singleton] at hmem
    cases hmem
    exact Option.some.inj (hparse.symm.trans parse?_call)
  have hitems : ∀ {parameter items},
      (Renderer.parameter ⟨site, .standard⟩ frame arguments).outcome = .ok parameter →
        (Renderer.loopItems frame parameter).outcome = .ok items → items = [] := by
    intro parameter items hparameter hitems
    cases parameter_site.symm.trans hparameter
    cases hitems
    rfl
  cases h with
  | includeFile hfound => exact absurd hfound (hincludes _)
  | includeData hfound => exact absurd hfound (hincludes _)
  | includeInner hfound => exact absurd hfound (hincludes _)
  | loopData hfound harguments hpath =>
      obtain rfl := hloops hfound harguments
      have hfile : Renderer.dataFile? frame arguments =
          some ⟨.single, ["s", "n", "..", "d"]⟩ := by cbv
      exact Option.some.inj (hpath.symm.trans hfile)
  | loopFile hfound harguments hparameter hitems' hne =>
      obtain rfl := hloops hfound harguments
      exact absurd (hitems hparameter hitems') hne
  | loopInner hfound harguments hparameter hitems' _ hitem =>
      obtain rfl := hloops hfound harguments
      rw [hitems hparameter hitems'] at hitem
      cases hitem

theorem sources_site : pages.sources site src = .ok [["a"], ["b"]] := by cbv

theorem kept_site : kept src dst [["a"], ["b"]] = [["a"], ["b"]] := by decide

theorem evaluated_page {path : Path} (h : EvaluatedIn ⟨site, .standard⟩ src document.path path) :
    path = ⟨.single, ["s", "n", "..", "d"]⟩ := by
  obtain ⟨text, found, htext, hfound, hevaluates⟩ := h
  cases (readSource_page (.inl rfl)).symm.trans htext
  cases (make_page (.inl rfl)).symm.trans hfound
  exact evaluates_page hevaluates

/-- The first page evaluates no path. -/
theorem not_evaluated_plain (path : Path) :
    ¬ EvaluatedIn ⟨site, .standard⟩ src (src.join ⟨.relative, ["a"]⟩) path := by
  rintro ⟨text, found, htext, hfound, hevaluates⟩
  have hread : Renderer.readSource site (src.join ⟨.relative, ["a"]⟩) = .ok ['A'] := by cbv
  cases hread.symm.trans htext
  have hmade : Document.make site (src.join ⟨.relative, ["a"]⟩) (some src) ['A'] =
      .ok ⟨⟨.single, ["s", "a"]⟩, src, ['A']⟩ := by cbv
  cases hmade.symm.trans hfound
  exact Renderer.not_evaluates_of_plain rfl (by decide) path hevaluates

theorem render_plain :
    (renderSource ⟨site, .standard⟩ src (src.join ⟨.relative, ["a"]⟩)).outcome = .ok ['A'] := by
  cbv

/-- In the build the second page is rendered after the first one has been written. -/
theorem bytesAt?_build :
    (build .standard pages (.ofText "/s") (.ofText "/s/n/o") site).1.bytesAt? ["s", "n", "o", "b"] =
      some (Text.encode ['P']) := by
  have hsrc : site.absolute (.ofText "/s") = src := by decide
  have hdst : site.absolute (.ofText "/s/n/o") = dst := by decide
  have hplain := @buildSource_of_ok .standard src dst site ["a"] ['A'] render_plain (by decide)
    (by decide) (by decide)
  have hpage := @buildSource_of_ok .standard src dst written ["b"] ['P'] render_written (by decide)
    (by decide) (by decide)
  rw [build_eq (hsrc ▸ sources_site), hsrc, hdst, kept_site, buildAll_of_ok hplain rfl,
    show site.put (dst.parts ++ ["a"]) (Text.encode ['A']) = written from rfl,
    buildAll_of_ok hpage rfl]
  exact (bytesAt?_put ..).trans (if_pos rfl)

end Detour

theorem sources_otherRoot : allPages.sources onePage (.ofText "//site") = .ok [["a", "x.html"]] := by
  cbv

/-- A page in the target is written below it again, when the source directory begins at another
root. -/
theorem outcome_build_otherRoot :
    (build .standard allPages (.ofText "//site") (.ofText "/site/a") onePage).2.outcome =
      .ok [.ofText "/site/a/a/x.html"] := by
  have hsrc : onePage.absolute (.ofText "//site") = .ofText "//site" := by decide
  have hdst : onePage.absolute (.ofText "/site/a") = .ofText "/site/a" := by decide
  have hkept : kept (.ofText "//site") (.ofText "/site/a") [["a", "x.html"]] =
      [["a", "x.html"]] := by decide
  have hrender : (renderSource ⟨onePage, .standard⟩ (.ofText "//site")
      ((Path.ofText "//site").join ⟨.relative, ["a", "x.html"]⟩)).outcome = .ok ['A'] := by cbv
  have hbuilt := @buildSource_of_ok .standard (.ofText "//site") (.ofText "/site/a") onePage
    ["a", "x.html"] ['A'] hrender (by decide) (by decide) (by decide)
  rw [build_eq (hsrc ▸ sources_otherRoot), hsrc, hdst, hkept, buildAll_of_ok hbuilt rfl]
  decide

end Build

end Transclude
