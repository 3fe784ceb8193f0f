import Mathlib
import Transclude.Proofs.Chains
import Transclude.Proofs.Frames
import Transclude.Proofs.Keys

/-! # Expansion of includes

A document whose files only include is rendered to its expansion, unless a chain
of includes meets a file again. The error of a file that is met again is that of
the first such chain, depth first. -/

namespace Transclude

/-- The error of a file that is met again. -/
def Site.Again.error (again : Site.Again) : Error :=
  if again.target.sameFile again.path then
    ⟨.recursion again.path.toText [], some again.path.toText⟩
  else
    let chain := (again.above ++ [again.path]).dropWhile (fun seen => !again.target.sameFile seen) ++
      [again.target]
    ⟨.recursion again.target.toText (chain.map Path.toText), some again.target.toText⟩

theorem Site.Again.exists_error (again : Site.Again) :
    ∃ path chain, again.error = ⟨.recursion path chain, some path⟩ := by
  unfold error
  split
  next => exact ⟨_, _, rfl⟩
  next => exact ⟨_, _, rfl⟩

/-- The outcome of a rendering that goes through the chunks of a file. -/
def Site.present (result : Except Site.Again (List Char)) : Except (Halt Error) (List Char) :=
  result.mapError fun again => .error again.error

/-- An outcome is that of going through the chunks of a file. A text holds no sign `@`. -/
def Site.Settles (site : Site) (above : List Path) (path : Path) (chunks : List Chunk)
    (outcome : Except (Halt Error) (List Char)) : Prop :=
  ∃ result, site.Explores above path chunks result ∧ outcome = Site.present result ∧
    ∀ text, result = .ok text → '@' ∉ text

namespace Site.Settles

variable {site : Site} {above : List Path} {path : Path} {rest : List Chunk}
  {outcome inner : Except (Halt Error) (List Char)}

theorem nil : site.Settles above path [] (.ok []) := by
  refine ⟨.ok [], .nil above path, rfl, ?_⟩
  rintro text ⟨⟩
  exact List.not_mem_nil

theorem text {content : List Char} (hcontent : '@' ∉ content)
    (h : site.Settles above path rest outcome) :
    site.Settles above path (.text content :: rest) (outcome.map (content ++ ·)) := by
  obtain ⟨result, hresult, rfl, hsignless⟩ := h
  refine ⟨_, .text content hresult, ?_, ?_⟩
  · cases result <;> rfl
  · intro text htext
    cases result with
    | ok following =>
        cases htext
        simp [hcontent, hsignless following rfl]
    | error again => cases htext

theorem again {call : List Char}
    (hseen : ∃ seen ∈ above ++ [path], (site.target path call).sameFile seen = true) :
    site.Settles above path (.call call :: rest)
      (.error (.error (Again.error ⟨above, path, site.target path call⟩))) := by
  refine ⟨_, .again hseen, rfl, ?_⟩
  intro text htext
  cases htext

/-- The rest of a file is gone through when what is met in front of it has a text. -/
theorem call {call : List Char}
    (hnew : ∀ seen ∈ above ++ [path], (site.target path call).sameFile seen = false)
    (hinner : site.Settles (above ++ [path]) (site.target path call)
      (site.chunks (site.target path call)) inner)
    (hrest : site.Settles above path rest outcome) :
    site.Settles above path (.call call :: rest)
      (inner >>= fun text => outcome.map (text ++ ·)) := by
  obtain ⟨result, hresult, rfl, hsignless⟩ := hinner
  obtain ⟨behind, hbehind, rfl, hplain⟩ := hrest
  cases result with
  | error again =>
      refine ⟨_, .inside hnew hresult, rfl, ?_⟩
      intro text htext
      cases htext
  | ok text =>
      refine ⟨_, .call hnew hresult hbehind, ?_, ?_⟩
      · cases behind <;> rfl
      · intro whole hwhole
        cases behind with
        | ok following =>
            cases hwhole
            simp [hsignless text rfl, hplain following rfl]
        | error again => cases hwhole

end Site.Settles

/-- A file is met behind others on a chain from a root that repeats no file. -/
inductive Site.Meets (site : Site) (root : Path) : List Path → Path → Prop
  | root : Meets site root [] root
  | call {above : List Path} {path : Path} {call : List Char} (hmeets : Meets site root above path)
    (hcall : .call call ∈ site.chunks path)
    (hnew : ∀ seen ∈ above ++ [path], (site.target path call).sameFile seen = false) :
    Meets site root (above ++ [path]) (site.target path call)

/-- The files that a document leads to only include, and neither the settings nor the data give
another meaning to that. -/
structure Renderer.OnlyIncludes (renderer : Renderer) (document : Document) (data : Option Data)
    (site : Site) : Prop where
  tree : site.tree = renderer.tree
  delimiters : renderer.settings.delimiters = .standard
  anchor : renderer.settings.anchor = .file
  filters : renderer.settings.filters = none
  indent : renderer.settings.indent = false
  context : Entries.hasKey renderer.settings.context (.str "include") = false
  data : Entries.hasKey (data.getD []) (.str "include") = false
  text : document.text = Chunk.sources (site.chunks document.path)
  plain : ∀ above path, site.Meets document.path above path →
    ∀ chunk ∈ site.chunks path, chunk.Plain
  readable : ∀ above path, site.Meets document.path above path → above ≠ [] →
    DataFile.readText site.tree path = .ok (Chunk.sources (site.chunks path))

/-- No text that a root leads to has an include in a comment. -/
def Site.Uncommented (site : Site) (root : Path) : Prop :=
  ∀ above path, site.Meets root above path →
    ¬ Comment.HoldsInclude (Chunk.sources (site.chunks path))

/-- A document is rendered to its expansion unless a chain of includes repeats a file, and to the
error of the first such chain otherwise. -/
structure Renderer.ExpandsExactly (renderer : Renderer) (document : Document) (data : Option Data)
    (site : Site) : Prop where
  recursion_iff : (∃ path chain location, (renderer.renderDocument document data).outcome =
      .error (.error ⟨.recursion path chain, location⟩)) ↔
    (site.repeating document.path).Nonempty
  first : (site.repeating document.path).Nonempty →
    ∃ numbers again, IsLeast (site.repeating document.path) numbers ∧
      site.chain document.path numbers = some (again.above ++ [again.path, again.target]) ∧
      (renderer.renderDocument document data).outcome = .error (.error (Site.Again.error again))
  expansion : ¬ (site.repeating document.path).Nonempty →
    ∃ text, (renderer.renderDocument document data).outcome = .ok text ∧
      site.Expands document.path (site.chunks document.path) text

/-! ## A frame of a document that only includes -/

/-- Before any file is included nothing but comments is removed from a text that only includes. -/
theorem Renderer.outcome_renderText {renderer : Renderer} {frame : Frame} {chunks : List Chunk}
    (hdelimiters : renderer.settings.delimiters = .standard)
    (hdata : Entries.hasKey frame.data (.str "include") = false)
    (hstrip : Comment.strip .standard frame.document.text = Chunk.sources chunks)
    (hplain : ∀ chunk ∈ chunks, chunk.Plain) :
    (renderer.renderText frame).outcome = .ok (Chunk.sources chunks) := by
  have hif : Directive.Silent .standard "if".toList (Chunk.sources chunks) [] :=
    Chunk.silent (fun _ _ => rfl) hplain
  have hfor : Directive.Silent .standard Loop.directiveName (Chunk.sources chunks) [] :=
    Chunk.silent (fun _ _ => rfl) hplain
  unfold renderText
  simp only [hdelimiters, hstrip, decideConditions, Run.outcome_bind,
    outcome_replaceDirectives_silent hif, outcome_replaceDirectives_silent hfor, ok_bind]
  exact Chunk.outcome_replace hdata hplain

/-- What an include with the arguments gives, wherever it stands. -/
def Renderer.given (renderer : Renderer) (render : Frame → Rendering (List Char)) (frame : Frame)
    (args body : List Char) : Except (Halt Error) (Option (List Char)) :=
  (renderer.expandInclude render frame ⟨args, body, 0, 0, []⟩).outcome

/-- Without indentation nothing but its arguments counts of an include. -/
theorem Renderer.outcome_expandInclude {renderer : Renderer}
    (hindent : renderer.settings.indent = false) (render : Frame → Rendering (List Char))
    (frame : Frame) (directive : Directive) :
    (renderer.expandInclude render frame directive).outcome =
      renderer.given render frame directive.args directive.body := by
  unfold given expandInclude included prepare
  simp only [hindent, Bool.false_eq_true, if_false]

/-- A text that only includes is filled by what its calls give, and then scanned for loops. -/
theorem Renderer.outcome_expandFrame {renderer : Renderer} {frame : Frame} {chunks : List Chunk}
    (hdelimiters : renderer.settings.delimiters = .standard)
    (hindent : renderer.settings.indent = false)
    (hdata : Entries.hasKey frame.data (.str "include") = false)
    (hstrip : Comment.strip .standard frame.document.text = Chunk.sources chunks)
    (hplain : ∀ chunk ∈ chunks, chunk.Plain) (render : Frame → Rendering (List Char)) :
    (renderer.expandFrame render frame).outcome =
      (Slot.fill (renderer.given render frame) (chunks.map Chunk.slot) >>= fun text =>
        (replaceDirectives .standard "loop".toList .call (renderer.expandLoop render frame)
          text).outcome).mapError (Halt.map fun error => error.locatedIn frame.file) := by
  have htext := outcome_renderText hdelimiters hdata hstrip hplain
  have hincludes := outcome_replaceDirectives (Chunk.layout hplain)
    (outcome_expandInclude hindent render frame)
  unfold expandFrame
  simp only [Run.outcome_mapError, Run.outcome_bind, hdelimiters, htext, ok_bind, hincludes]

/-- A frame stands at a file that is met behind others, with the text of its chunks. -/
structure Frame.StandsAt (frame : Frame) (site : Site) (root : Path) (above : List Path) :
    Prop where
  nested : frame.WellNested site.tree
  stack : frame.stack = above ++ [frame.document.path]
  meets : site.Meets root above frame.document.path
  text : frame.document.text = Chunk.sources (site.chunks frame.document.path)
  data : Entries.hasKey frame.data (.str "include") = false
  shared : Entries.hasKey frame.shared (.str "include") = false

namespace Renderer.OnlyIncludes

variable {renderer : Renderer} {document : Document} {data : Option Data} {site : Site}
  {frame : Frame} {above : List Path} {call : List Char}

/-- The outermost frame stands at the root. -/
theorem standsAt_outermost (h : renderer.OnlyIncludes document data site) :
    (Frame.outermost document (renderer.sharedData document) data).StandsAt site document.path
      [] where
  nested := Frame.outermost_wellNested _ _ _ _
  stack := rfl
  meets := .root
  text := h.text
  data := Frame.hasKey_dataOf rfl (hasKey_sharedData rfl h.context document) h.data _
  shared := hasKey_sharedData rfl h.context document

/-- An include of a file that is being rendered ends the rendering. -/
theorem checkRecursion_of_seen (hframe : frame.StandsAt site document.path above) {target : Path}
    (hseen : ∃ seen ∈ above ++ [frame.document.path], target.sameFile seen = true) :
    frame.checkRecursion target =
      .error (Site.Again.error ⟨above, frame.document.path, target⟩) := by
  unfold Frame.checkRecursion Site.Again.error
  dsimp only
  split
  next => rfl
  next =>
    rw [hframe.stack]
    split
    next hnone =>
      obtain ⟨seen, hmem, hsame⟩ := hseen
      have hdifferent := List.dropWhile_eq_nil_iff.mp hnone seen hmem
      rw [hsame] at hdifferent
      cases hdifferent
    next => rfl

/-- An include of a file that is not being rendered is let through. -/
theorem checkRecursion_of_new (hframe : frame.StandsAt site document.path above) {target : Path}
    (hnew : ∀ seen ∈ above ++ [frame.document.path], target.sameFile seen = false) :
    frame.checkRecursion target = .ok () := by
  unfold Frame.checkRecursion
  dsimp only
  rw [hnew _ (by simp), if_neg (by simp), hframe.stack,
    List.dropWhile_eq_nil_iff.mpr fun seen hmem => by rw [hnew seen hmem]; rfl]

/-- The document that a call opens. -/
def opened (site : Site) (frame : Frame) (call : List Char) : Document :=
  ⟨site.target frame.document.path call, frame.document.base,
    Chunk.sources (site.chunks (site.target frame.document.path call))⟩

/-- The frame that a call opens stands at the file that the call means. -/
theorem standsAt_opened (h : renderer.OnlyIncludes document data site)
    (hframe : frame.StandsAt site document.path above)
    (hcall : .call call ∈ site.chunks frame.document.path)
    (hnew : ∀ seen ∈ above ++ [frame.document.path],
      (site.target frame.document.path call).sameFile seen = false) :
    (frame.inner (opened site frame call) (some [])).StandsAt site document.path
      (above ++ [frame.document.path]) := by
  have hmeets := Site.Meets.call hframe.meets hcall hnew
  refine ⟨?_, ?_, hmeets, rfl, Frame.hasKey_dataOf rfl hframe.shared rfl _, hframe.shared⟩
  · refine hframe.nested.inner _ (FileTree.isNormal_absolute _ _)
      ⟨_, h.readable _ _ hmeets (by simp)⟩ ?_
    rwa [hframe.stack]
  · rw [Frame.inner, hframe.stack]

theorem target_eq (h : renderer.OnlyIncludes document data site) (frame : Frame)
    (call : List Char) : renderer.target frame call = site.target frame.document.path call := by
  rw [target, Settings.includeBase, h.anchor, Site.target, h.tree]

/-- A call that means a file again ends the rendering with its error. -/
theorem outcome_expandInclude_of_seen (h : renderer.OnlyIncludes document data site)
    (hframe : frame.StandsAt site document.path above) (hquote : '\'' ∉ call)
    (hseen : ∃ seen ∈ above ++ [frame.document.path],
      (site.target frame.document.path call).sameFile seen = true)
    (render : Frame → Rendering (List Char)) {directive : Directive}
    (hargs : directive.args = Chunk.quoted call) :
    (renderer.expandInclude render frame directive).outcome =
      .error (.error (Site.Again.error
        ⟨above, frame.document.path, site.target frame.document.path call⟩)) := by
  unfold expandInclude
  rw [hargs, Include.parse?_quoted hquote]
  simp only [included, Run.outcome_bind, Run.outcome_lift, h.target_eq,
    checkRecursion_of_seen hframe hseen]
  rfl

/-- A call that means a new file is replaced by what the frame of that file is rendered to. -/
theorem outcome_expandInclude_of_new (h : renderer.OnlyIncludes document data site)
    (hframe : frame.StandsAt site document.path above)
    (hcall : .call call ∈ site.chunks frame.document.path)
    (hnew : ∀ seen ∈ above ++ [frame.document.path],
      (site.target frame.document.path call).sameFile seen = false)
    (render : Frame → Rendering (List Char)) {directive : Directive}
    (hargs : directive.args = Chunk.quoted call) :
    (renderer.expandInclude render frame directive).outcome =
      (render (frame.inner (opened site frame call) (some []))).outcome.map some := by
  have hquote := (h.plain _ _ hframe.meets _ hcall).1
  have hread := h.readable _ _ (Site.Meets.call hframe.meets hcall hnew) (by simp)
  rw [h.tree] at hread
  have hincluded : (renderer.included frame directive ⟨call, none, []⟩).outcome =
      .ok (opened site frame call) := by
    simp only [included, Run.outcome_bind, Run.outcome_lift, h.target_eq,
      checkRecursion_of_new hframe hnew, readIncluded, hread, prepare, h.indent, h.filters]
    rfl
  unfold expandInclude
  rw [hargs, Include.parse?_quoted hquote]
  have hparameter : (renderer.parameter frame ⟨call, none, []⟩).outcome =
      .ok (.map (.ofPlace []) []) := rfl
  simp only [Run.outcome_bind, hincluded, hparameter, includeData, Run.outcome_pure,
    Run.outcome_detail, ok_bind]
  cases (render (frame.inner (opened site frame call) (some []))).outcome <;> rfl

/-- What the scan for includes makes of the chunks of a file, when the frames below are rendered as
they should be. -/
theorem settles_fill (h : renderer.OnlyIncludes document data site)
    (hframe : frame.StandsAt site document.path above) {render : Frame → Rendering (List Char)}
    (hrender : ∀ child above, child.StandsAt site document.path above →
      child.stack.length = frame.stack.length + 1 →
      site.Settles above child.document.path (site.chunks child.document.path)
        (render child).outcome)
    {chunks : List Chunk} (hchunks : ∀ chunk ∈ chunks, chunk ∈ site.chunks frame.document.path) :
    site.Settles above frame.document.path chunks
      (Slot.fill (renderer.given render frame) (chunks.map Chunk.slot)) := by
  induction chunks with
  | nil => exact .nil
  | cons chunk rest ih =>
      have hrest := ih fun other hother => hchunks other (by simp [hother])
      have hchunk := hchunks chunk (by simp)
      have hplain := h.plain _ _ hframe.meets _ hchunk
      rw [List.map_cons]
      cases chunk with
      | text content =>
          rw [Chunk.slot, Slot.fill_text]
          exact .text hplain hrest
      | call call =>
          rw [Chunk.slot, Slot.fill_found, given]
          by_cases hseen : ∃ seen ∈ above ++ [frame.document.path],
              (site.target frame.document.path call).sameFile seen = true
          · rw [h.outcome_expandInclude_of_seen hframe hplain.1 hseen render rfl]
            exact .again hseen
          · have hnew : ∀ seen ∈ above ++ [frame.document.path],
                (site.target frame.document.path call).sameFile seen = false :=
              fun seen hmem => Bool.eq_false_iff.mpr fun hsame => hseen ⟨seen, hmem, hsame⟩
            have hinner := hrender _ _ (h.standsAt_opened hframe hchunk hnew)
              (by simp [Frame.inner])
            have hcall := Site.Settles.call hnew hinner hrest
            rw [h.outcome_expandInclude_of_new hframe hchunk hnew render rfl]
            cases houtcome : (render (frame.inner (opened site frame call) (some []))).outcome with
            | ok text => rwa [houtcome] at hcall
            | error reason => rwa [houtcome] at hcall

/-- A frame is rendered as it should be when the frames below are. -/
theorem settles_expandFrame (h : renderer.OnlyIncludes document data site)
    (huncommented : site.Uncommented document.path)
    (hframe : frame.StandsAt site document.path above) {render : Frame → Rendering (List Char)}
    (hrender : ∀ child above, child.StandsAt site document.path above →
      child.stack.length = frame.stack.length + 1 →
      site.Settles above child.document.path (site.chunks child.document.path)
        (render child).outcome) :
    site.Settles above frame.document.path (site.chunks frame.document.path)
      (renderer.expandFrame render frame).outcome := by
  obtain ⟨result, hresult, hfill, hplain⟩ := h.settles_fill hframe hrender fun _ hchunk => hchunk
  refine ⟨result, hresult, ?_, hplain⟩
  have hstrip := Comment.strip_eq_self_of_not_holdsInclude (huncommented _ _ hframe.meets)
  rw [← hframe.text] at hstrip
  rw [outcome_expandFrame h.delimiters h.indent hframe.data (hstrip.trans hframe.text)
    (h.plain _ _ hframe.meets), hfill]
  cases result with
  | ok text =>
      have hloop : Directive.Silent .standard "loop".toList text [] :=
        Directive.silent_of_plain (hplain text rfl) []
      simp only [Site.present, Except.mapError, ok_bind, outcome_replaceDirectives_silent hloop]
  | error again =>
      -- the error has its file already and is not given that of the frame
      obtain ⟨path, chain, herror⟩ := again.exists_error
      have hlocated : again.error.locatedIn frame.file = again.error := by rw [herror]; rfl
      simp only [Site.present, Except.mapError, error_bind, Halt.map, hlocated]

/-- With enough depth a frame is rendered to what comes of going through its chunks. -/
theorem settles_renderFrame (h : renderer.OnlyIncludes document data site)
    (huncommented : site.Uncommented document.path) {depth : Nat}
    (hframe : frame.StandsAt site document.path above)
    (hdepth : site.tree.filePaths.length + 2 ≤ frame.stack.length + depth) :
    site.Settles above frame.document.path (site.chunks frame.document.path)
      (renderer.renderFrame depth frame).outcome := by
  induction depth generalizing frame above with
  | zero =>
      -- the tree does not have that many different files
      have hle := hframe.nested.length_stack_le
      omega
  | succ depth ih =>
      refine h.settles_expandFrame huncommented hframe ?_
      intro child above hchild hlength
      apply ih hchild
      omega

/-- A document is rendered to what comes of going through its chunks. -/
theorem settles_renderDocument (h : renderer.OnlyIncludes document data site)
    (huncommented : site.Uncommented document.path) :
    site.Settles [] document.path (site.chunks document.path)
      (renderer.renderDocument document data).outcome := by
  have hframe := h.standsAt_outermost
  refine h.settles_renderFrame huncommented hframe ?_
  have hle := site.tree.length_filePaths_le
  simp only [Frame.outermost, List.length_singleton, depthBound, ← h.tree]
  omega

end Renderer.OnlyIncludes

/-- Includes are expanded exactly, and exactly those documents are refused that a chain of includes
leads back to a file from. -/
theorem Renderer.renderDocument_expands_exactly {renderer : Renderer} {document : Document}
    {data : Option Data} {site : Site} (h : renderer.OnlyIncludes document data site)
    (huncommented : site.Uncommented document.path) :
    renderer.ExpandsExactly document data site := by
  obtain ⟨result, hresult, houtcome, _⟩ := h.settles_renderDocument huncommented
  have hdistinct : ¬ Site.Repeats ([] ++ [document.path]) :=
    not_not_intro (List.pairwise_singleton _ _)
  have hsame : site.repeating document.path =
      { numbers | site.RepeatsAlong [] document.path (site.chunks document.path) numbers } :=
    Set.ext fun numbers => Site.mem_repeating
  cases result with
  | ok text =>
      have hnone : ¬ (site.repeating document.path).Nonempty := by
        rintro ⟨numbers, hnumbers⟩
        exact hresult.not_repeatsAlong hdistinct numbers (Site.mem_repeating.mp hnumbers)
      refine ⟨?_, fun hsome => absurd hsome hnone, fun _ => ⟨text, houtcome, hresult.expands⟩⟩
      refine iff_of_false ?_ hnone
      rintro ⟨path, chain, location, herror⟩
      rw [houtcome] at herror
      cases herror
  | error again =>
      obtain ⟨numbers, files, hfiles, hchain, hleast⟩ := hresult.isLeast hdistinct
      rw [← hsame] at hleast
      have hsome : (site.repeating document.path).Nonempty := ⟨numbers, hleast.1⟩
      refine ⟨iff_of_true ?_ hsome, fun _ => ⟨numbers, again, hleast, ?_, houtcome⟩,
        fun hnone => absurd hsome hnone⟩
      · obtain ⟨path, chain, herror⟩ := again.exists_error
        exact ⟨path, chain, some path, by rw [houtcome, Site.present, Except.mapError, herror]⟩
      · rw [Site.chain, hfiles, ← hchain]
        rfl

/-! ## Pages that include files by name -/

namespace Site

/-- The path of a page. -/
def pageRoot : Path := ⟨.single, ["site", "index.html"]⟩

/-- The file of a name, beside the page. -/
def pageFile (name : String) : Path := ⟨.single, ["site", name]⟩

/-- The site of a page that includes the files of some names and nothing else. -/
def page (names : List String) : Site :=
  ⟨⟨names.dedup.map fun name => (["site", name], [65]), [["site"]], ["site"], ["home", "user"]⟩,
    fun path => if path = pageRoot then names.map (.call ·.toList) else [.text ['A']]⟩

/-- The page, and what it is rendered with. -/
def pageDocument (names : List String) : Document :=
  ⟨pageRoot, pageRoot.parent, Chunk.sources ((page names).chunks pageRoot)⟩

def pageRenderer (names : List String) : Renderer := ⟨(page names).tree, .standard⟩

def pageFrame (names : List String) : Frame :=
  .outermost (pageDocument names) ((pageRenderer names).sharedData (pageDocument names)) none

variable {names : List String} {name : String} {above : List Path} {path : Path}

theorem chunks_page_file (hother : name ≠ "index.html") :
    (page names).chunks (pageFile name) = [.text ['A']] :=
  if_neg (by simpa [pageRoot, pageFile] using hother)

/-- Each name means the file beside the page. -/
def Places (names : List String) : Prop :=
  ∀ name ∈ names, name ≠ "index.html" ∧ (page names).target pageRoot name.toList = pageFile name

/-- Nothing is met but the page and, behind it, its files. -/
theorem meets_page (hplaces : Places names) (h : (page names).Meets pageRoot above path) :
    (above = [] ∧ path = pageRoot) ∨ ∃ name ∈ names, path = pageFile name := by
  induction h with
  | root => exact .inl ⟨rfl, rfl⟩
  | @call _ path call _ hcall _ ih =>
      obtain ⟨_, rfl⟩ | ⟨name, hname, rfl⟩ := ih
      · have hmem : Chunk.call call ∈ names.map (Chunk.call ·.toList) := hcall
        obtain ⟨name, hname, heq⟩ := List.mem_map.mp hmem
        obtain rfl := Chunk.call.inj heq
        exact .inr ⟨name, hname, (hplaces name hname).2⟩
      · rw [chunks_page_file (hplaces name hname).1] at hcall
        simp at hcall

theorem page_onlyIncludes (hplaces : Places names)
    (hplain : ∀ name ∈ names, (Chunk.call name.toList).Plain)
    (hreads : ∀ name ∈ names, DataFile.readText (page names).tree (pageFile name) = .ok ['A']) :
    (pageRenderer names).OnlyIncludes (pageDocument names) none (page names) where
  tree := rfl
  delimiters := rfl
  anchor := rfl
  filters := rfl
  indent := rfl
  context := rfl
  data := rfl
  text := rfl
  plain := by
    intro above path hmeets chunk hchunk
    obtain ⟨_, rfl⟩ | ⟨name, hname, rfl⟩ := meets_page hplaces hmeets
    · have hmem : chunk ∈ names.map (Chunk.call ·.toList) := hchunk
      obtain ⟨name, hname, rfl⟩ := List.mem_map.mp hmem
      exact hplain name hname
    · rw [chunks_page_file (hplaces name hname).1, List.mem_singleton] at hchunk
      subst hchunk
      simp [Chunk.Plain]
  readable := by
    intro above path hmeets habove
    obtain ⟨hnil, _⟩ | ⟨name, hname, rfl⟩ := meets_page hplaces hmeets
    · exact absurd hnil habove
    · rw [chunks_page_file (hplaces name hname).1]
      exact hreads name hname

/-- The names of a page that includes a file twice. -/
def twice : List String := ["a", "a"]

/-- The names of a page on which the include of the second file stands in a comment, which begins in
the path of the first one and ends in that of the third one. -/
def commented : List String := ["<!--a", "b", "c-->"]

theorem twice_onlyIncludes :
    (pageRenderer twice).OnlyIncludes (pageDocument twice) none (page twice) := by
  apply page_onlyIncludes
  case hplaces => exact List.forall_mem_cons.mpr ⟨⟨by decide, rfl⟩, by decide⟩
  case hplain => decide
  case hreads =>
    have hread : DataFile.readText (page twice).tree (pageFile "a") = .ok ['A'] := by cbv
    simp only [twice, List.forall_mem_cons]
    exact ⟨hread, hread, List.forall_mem_nil _⟩

theorem commented_onlyIncludes :
    (pageRenderer commented).OnlyIncludes (pageDocument commented) none (page commented) := by
  apply page_onlyIncludes
  case hplaces =>
    unfold Places
    decide
  case hplain => decide
  case hreads =>
    simp only [commented, List.forall_mem_cons]
    exact ⟨by cbv, by cbv, by cbv, List.forall_mem_nil _⟩

/-- An include of the directory of the page finds no file. -/
theorem given_nothing (render : Frame → Rendering (List Char)) :
    (pageRenderer commented).given render (pageFrame commented) (Chunk.quoted []) [] =
      .error (.error ⟨.notFound "/site", some "/site/index.html"⟩) := by
  have htarget : (pageRenderer commented).target (pageFrame commented) [] =
      ⟨.single, ["site"]⟩ := rfl
  have hsame : (⟨.single, ["site"]⟩ : Path).sameFile pageRoot = false := by cbv
  have hcheck : (pageFrame commented).checkRecursion ⟨.single, ["site"]⟩ = .ok () := by
    unfold Frame.checkRecursion pageFrame Frame.outermost pageDocument
    simp only [hsame, Bool.false_eq_true, if_false, List.dropWhile, Bool.not_false]
  have hread : (pageRenderer commented).readIncluded (pageFrame commented)
      ⟨.single, ["site"]⟩ = .error (.error ⟨.notFound "/site", some "/site/index.html"⟩) := rfl
  unfold Renderer.given Renderer.expandInclude
  rw [Include.parse?_quoted (by simp)]
  simp only [Renderer.included, Run.outcome_bind, Run.outcome_lift, htarget, hcheck, hread]
  rfl

/-- When the comment is removed with the include in it, an include of nothing is left. -/
theorem outcome_commented :
    ((pageRenderer commented).renderDocument (pageDocument commented) none).outcome =
      .error (.error ⟨.notFound "/site", some "/site/index.html"⟩) := by
  have hplain : ∀ chunk ∈ [Chunk.call []], chunk.Plain := by decide
  have hstrip : Comment.strip .standard (pageFrame commented).document.text =
      Chunk.sources [.call []] := by decide +kernel
  change ((pageRenderer commented).expandFrame ((pageRenderer commented).renderFrame 7)
    (pageFrame commented)).outcome = _
  rw [Renderer.outcome_expandFrame rfl rfl rfl hstrip hplain]
  simp only [List.map_cons, Chunk.slot, Slot.fill, given_nothing]
  rfl

end Site

/-- A file that is included twice is no recursion. -/
theorem Renderer.renderDocument_expands_twice :
    (Site.pageRenderer Site.twice).OnlyIncludes (Site.pageDocument Site.twice) none
        (Site.page Site.twice) ∧
      (Site.page Site.twice).Uncommented Site.pageRoot ∧
      (Site.pageRenderer Site.twice).ExpandsExactly (Site.pageDocument Site.twice) none
        (Site.page Site.twice) := by
  have honly := Site.twice_onlyIncludes
  have huncommented : (Site.page Site.twice).Uncommented Site.pageRoot := by
    intro above path hmeets
    obtain ⟨_, rfl⟩ | ⟨name, hname, rfl⟩ := Site.meets_page (by unfold Site.Places; decide) hmeets
    · exact Comment.not_holdsInclude_of_not_mem (by decide)
    · rw [Site.chunks_page_file (by rintro rfl; revert hname; decide)]
      exact Comment.not_holdsInclude_of_not_mem (by decide)
  exact ⟨honly, huncommented, Renderer.renderDocument_expands_exactly honly huncommented⟩

/-- Paths may make the include between them one in a comment, and then it is not expanded. -/
theorem Renderer.not_expands_exactly_commented :
    (Site.pageRenderer Site.commented).OnlyIncludes (Site.pageDocument Site.commented) none
        (Site.page Site.commented) ∧
      (∀ path content, .text content ∈ (Site.page Site.commented).chunks path →
        ¬ "<!--".toList <:+: content) ∧
      (Site.pageDocument Site.commented).text =
        "@@include('<!--a')@@include('b')@@include('c-->')".toList ∧
      ((Site.pageRenderer Site.commented).renderDocument (Site.pageDocument Site.commented)
        none).outcome = .error (.error ⟨.notFound "/site", some "/site/index.html"⟩) ∧
      ¬ (Site.pageRenderer Site.commented).ExpandsExactly (Site.pageDocument Site.commented) none
        (Site.page Site.commented) := by
  have houtcome := Site.outcome_commented
  refine ⟨Site.commented_onlyIncludes, ?_, by decide, houtcome, ?_⟩
  · intro path content hcontent
    change _ ∈ ite _ _ _ at hcontent
    split at hcontent
    next => simp at hcontent
    next =>
      obtain rfl : content = ['A'] := by simpa using hcontent
      decide
  · intro hexact
    have hrepeats : ¬ ((Site.page Site.commented).repeating Site.pageRoot).Nonempty := by
      intro hrepeats
      obtain ⟨path, chain, location, herror⟩ := hexact.recursion_iff.mpr hrepeats
      rw [houtcome] at herror
      cases herror
    obtain ⟨text, htext, _⟩ := hexact.expansion hrepeats
    rw [houtcome] at htext
    cases htext

end Transclude
