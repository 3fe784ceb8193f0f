import Mathlib
import Transclude.Proofs.Frames
import Transclude.Proofs.Inclusion
import Transclude.Proofs.Keys
import Transclude.Proofs.Nesting

/-! # What the data of a document reach

An included document is rendered without the data of the including one. These reach
what it leaves behind: a call of a loop in the text that an include has put in its
place is expanded by the including document, and may refer to its data. Nothing
else of them shows in a document that only includes. -/

namespace Transclude

/-! ## Parameters that refer to data -/

namespace Include

/-- The arguments of a call refer to the data of the document that the call stands in. -/
def RefersToData (args : List Char) : Prop :=
  ∃ arguments, Arguments.parse? args = some arguments ∧
    (Parameter.reference? .standard (Text.trim (arguments.parameter.getD []))).isSome = true

theorem trimLeft_sublist (text : List Char) : (Text.trimLeft text).Sublist text :=
  List.dropWhile_sublist _

theorem trimRight_sublist (text : List Char) : (Text.trimRight text).Sublist text := by
  rw [← List.reverse_sublist, Text.trimRight, List.reverse_reverse]
  exact List.dropWhile_sublist _

theorem trim_sublist (text : List Char) : (Text.trim text).Sublist text :=
  (trimRight_sublist _).trans (trimLeft_sublist text)

theorem link?_sublist {text name inside : List Char}
    (h : Filter.link? text = some (name, inside)) : inside.Sublist text := by
  unfold Filter.link? at h
  split at h
  next => cases h
  next c rest =>
    split at h
    next =>
      split at h
      next behind hbehind =>
        cases h
        have hcall := (trimLeft_sublist _).trans
          (List.dropWhile_sublist Text.isIdentifierPart (l := rest))
        rw [hbehind] at hcall
        exact (trimLeft_sublist behind).trans
          ((List.sublist_cons_self _ behind).trans (hcall.trans (List.sublist_cons_self c rest)))
      next => cases h
    next => cases h

theorem openCalls_sublist (text : List Char) : (Filter.openCalls text).2.Sublist text := by
  fun_induction Filter.openCalls text with
  | case1 text => exact .refl text
  | case2 text name inside hlink names innermost heq ih =>
      rw [heq] at ih
      exact ih.trans (link?_sublist hlink)

theorem withoutClosings?_sublist {names : List (List Char)} {text inner : List Char}
    (h : Filter.withoutClosings? names text = some inner) : inner.Sublist text := by
  induction names generalizing text with
  | nil =>
      cases h
      exact .refl _
  | cons name names ih =>
      rw [Filter.withoutClosings?] at h
      split at h
      next => exact (ih h).trans ((trimRight_sublist _).trans (List.dropLast_sublist text))
      next => cases h

theorem splitChain_sublist (call : List Char) : (Filter.splitChain call).2.Sublist call := by
  unfold Filter.splitChain
  split
  next => exact .refl call
  next =>
    split
    next inner hinner =>
      exact (withoutClosings?_sublist hinner).trans
        ((trimRight_sublist _).trans ((openCalls_sublist _).trans (trimLeft_sublist call)))
    next => exact .refl call

theorem parameter?_sublist {text : List Char} {parameter : Option (List Char)}
    (h : parameter? text = some parameter) : (parameter.getD []).Sublist text := by
  unfold parameter? at h
  split at h
  next =>
    cases h
    exact List.nil_sublist text
  next rest hrest =>
    have hbehind := trimLeft_sublist text
    rw [hrest] at hbehind
    cases h
    split
    next => exact List.nil_sublist text
    next => exact (trim_sublist rest).trans ((List.sublist_cons_self ',' rest).trans hbehind)
  next => cases h

theorem pathAndParameter?_sublist {quote : Char} {text path : List Char}
    {parameter : Option (List Char)}
    (h : pathAndParameter? quote text = some (path, parameter)) :
    (parameter.getD []).Sublist text := by
  induction text generalizing path with
  | nil => cases h
  | cons c rest ih =>
      rw [pathAndParameter?] at h
      split at h
      next found hfound =>
        cases h
        split at hfound
        next => exact (parameter?_sublist hfound).trans (List.sublist_cons_self c rest)
        next => cases hfound
      next =>
        obtain ⟨⟨inner, found⟩, hinner, heq⟩ := Option.map_eq_some_iff.mp h
        cases heq
        exact (ih hinner).trans (List.sublist_cons_self c rest)

/-- A parameter is a part of the arguments that it stands in. -/
theorem Arguments.parameter_sublist {args : List Char} {arguments : Arguments}
    (h : Arguments.parse? args = some arguments) :
    (arguments.parameter.getD []).Sublist args := by
  unfold Arguments.parse? at h
  dsimp only at h
  split at h
  next => cases h
  next quote rest hrest =>
    split at h
    next =>
      obtain ⟨⟨path, parameter⟩, hfound, heq⟩ := Option.map_eq_some_iff.mp h
      cases heq
      have hinner := (trimLeft_sublist _).trans (splitChain_sublist args)
      rw [hrest] at hinner
      exact (pathAndParameter?_sublist hfound).trans
        ((List.sublist_cons_self quote rest).trans hinner)
    next => cases h

/-- Arguments without a sign do not refer to data. -/
theorem not_refersToData_of_not_mem {args : List Char} (h : '@' ∉ args) : ¬ RefersToData args := by
  rintro ⟨arguments, hparse, href⟩
  have hsublist := (trim_sublist _).trans (Arguments.parameter_sublist hparse)
  unfold Parameter.reference? at href
  dsimp only at href
  split at href
  next hshape =>
    rw [Bool.and_eq_true, Bool.and_eq_true] at hshape
    have hbegins := List.isPrefixOf_iff_prefix.mp hshape.1.2
    exact h (hsublist.subset (hbegins.subset (by simp [Delimiters.standard])))
  next => cases href

/-- A parameter that is no reference does not depend on the data. -/
theorem Parameter.resolve_congr {ε : Type} {tree : FileTree} {base : Path}
    {origin : Option String} {parameter : Option (List Char)}
    (h : Parameter.reference? .standard (Text.trim (parameter.getD [])) = none)
    (data data' : Data) :
    (resolve tree .standard data base origin parameter : Run Warning ε Datum) =
      resolve tree .standard data' base origin parameter := by
  unfold resolve
  simp only [h, ite_self]

end Include

namespace Renderer

variable {renderer : Renderer} {render : Frame → Rendering (List Char)} {frame : Frame}
  {directive : Directive}

theorem parameter_withData (hdelimiters : renderer.settings.delimiters = .standard)
    {arguments : Include.Arguments} (hargs : ¬ Include.RefersToData directive.args)
    (hparse : Include.Arguments.parse? directive.args = some arguments) (data : Data) :
    renderer.parameter { frame with data := data } arguments =
      renderer.parameter frame arguments := by
  have hnone : Include.Parameter.reference? .standard
      (Text.trim (arguments.parameter.getD [])) = none := by
    rw [← Option.not_isSome_iff_eq_none]
    exact fun hsome => hargs ⟨arguments, hparse, hsome⟩
  unfold parameter
  rw [hdelimiters]
  exact Include.Parameter.resolve_congr hnone _ _

/-- An include that does not refer to the data of its document is expanded without them. -/
theorem expandInclude_withData (hdelimiters : renderer.settings.delimiters = .standard)
    (hargs : ¬ Include.RefersToData directive.args) (frame : Frame) (data : Data) :
    renderer.expandInclude render { frame with data := data } directive =
      renderer.expandInclude render frame directive := by
  unfold expandInclude
  split
  next => rfl
  next arguments hparse => rw [parameter_withData hdelimiters hargs hparse]; rfl

theorem renderItems_withData (data : Data) (document : Document) (items : List Datum) :
    renderItems render { frame with data := data } document items =
      renderItems render frame document items := by
  apply renderItems_congr
  intro parameter
  rfl

/-- A loop that does not refer to the data of its document is expanded without them. -/
theorem expandLoop_withData (hdelimiters : renderer.settings.delimiters = .standard)
    (hargs : ¬ Include.RefersToData directive.args) (frame : Frame) (data : Data) :
    renderer.expandLoop render { frame with data := data } directive =
      renderer.expandLoop render frame directive := by
  unfold expandLoop
  split
  next => rfl
  next arguments hparse =>
    rw [parameter_withData hdelimiters hargs hparse]
    simp only [renderItems_withData]
    rfl

end Renderer

/-! ## Texts with one include -/

/-- Two signs in a row stand at one place of a text that has no others. -/
theorem append_signs_inj {front back before behind : List Char} (hbefore : '@' ∉ before)
    (hbehind : '@' ∉ behind)
    (h : front ++ '@' :: '@' :: back = before ++ '@' :: '@' :: behind) :
    front = before ∧ back = behind := by
  induction before generalizing front with
  | nil =>
      cases front with
      | nil => simpa using h
      | cons c front =>
          obtain ⟨rfl, hrest⟩ := List.cons.inj h
          -- a second sign in front would leave one for the text behind
          refine absurd ?_ hbehind
          cases front with
          | nil => rw [← (List.cons.inj hrest).2]; exact List.mem_cons_self
          | cons d front => rw [← (List.cons.inj hrest).2]; simp
  | cons c before ih =>
      rw [List.mem_cons, not_or] at hbefore
      cases front with
      | nil => exact absurd (List.cons.inj h).1 hbefore.1
      | cons d front =>
          obtain ⟨rfl, hrest⟩ := List.cons.inj h
          obtain ⟨rfl, hback⟩ := ih hbefore.2 hrest
          exact ⟨rfl, hback⟩

/-- What a text with one include begins its call with, behind the signs. -/
def callHead : List Char := "include(".toList

theorem not_mem_callHead : '@' ∉ callHead := by decide

/-- A text with no sign but those of at most one call of an include. -/
inductive OneInclude : List Char → Prop
  | none {text : List Char} (hplain : '@' ∉ text) : OneInclude text
  | one {front behind : List Char} (hfront : '@' ∉ front) (hbehind : '@' ∉ behind) :
    OneInclude (front ++ '@' :: '@' :: (callHead ++ behind))

namespace OneInclude

variable {text : List Char}

/-- A commented include that begins in front of the call reaches beyond its signs. -/
theorem not_mem_drop {front behind : List Char} (hfront : '@' ∉ front) (hbehind : '@' ∉ behind)
    {length : Nat}
    (h : Comment.length? .standard (front ++ '@' :: '@' :: behind) = some length) :
    1 ≤ length ∧ '@' ∉ (front ++ '@' :: '@' :: behind).drop length := by
  obtain ⟨line, back, inner, hback, _, hfound, rfl⟩ := Comment.exists_of_length? h
  obtain ⟨spaces, inside, after, _, rfl, rfl⟩ := Comment.exists_of_includeLength? hfound
  generalize spaces ++ ("include".toList ++ (inside ++ Comment.ending .standard)) = middle at *
  have hsplit : front ++ '@' :: '@' :: behind =
      (Comment.opening ++ line) ++ '@' :: '@' :: (middle ++ after) := by
    simpa [Delimiters.standard] using hback
  obtain ⟨rfl, rfl⟩ := append_signs_inj hfront hbehind hsplit.symm
  refine ⟨by simp [Comment.opening]; omega, ?_⟩
  have hdrop : (Comment.opening ++ line ++ '@' :: '@' :: (middle ++ after)).drop
      (Comment.opening.length + (line.length +
        (Delimiters.standard.opening ++ middle).length)) = after := by
    have hfirst : Comment.opening ++ line ++ '@' :: '@' :: (middle ++ after) =
        (Comment.opening ++ (line ++ (Delimiters.standard.opening ++ middle))) ++ after := by
      simp [Delimiters.standard]
    rw [hfirst, List.drop_left']
    simp only [List.length_append]
  rw [hdrop]
  exact fun hmem => hbehind (List.mem_append_right _ hmem)

/-- Removing commented includes leaves the include alone or takes it away. -/
theorem strip (h : OneInclude text) : OneInclude (Comment.strip .standard text) := by
  cases h with
  | none hplain => exact .none fun hmem => hplain ((Comment.strip_sublist _ _).subset hmem)
  | @one front behind hfront hbehind =>
      have hrest : '@' ∉ callHead ++ behind := List.not_mem_append not_mem_callHead hbehind
      induction front with
      | nil =>
          have hnone : ∀ rest, Comment.length? .standard ('@' :: rest) = Option.none :=
            fun _ => rfl
          rw [List.nil_append, Comment.strip, hnone]
          dsimp only
          rw [Comment.strip, hnone]
          dsimp only
          rw [Comment.strip_plain hrest]
          exact .one List.not_mem_nil hbehind
      | cons c front ih =>
          have hfront' := hfront
          rw [List.mem_cons, not_or] at hfront'
          rw [List.cons_append, Comment.strip]
          split
          next length hlength =>
            obtain ⟨hpos, hplain⟩ := not_mem_drop hfront hrest hlength
            obtain ⟨less, rfl⟩ := Nat.exists_eq_add_of_le' hpos
            rw [List.cons_append, List.drop_succ_cons] at hplain
            exact .none fun hmem => hplain ((Comment.strip_sublist _ _).subset hmem)
          next =>
            generalize hkept : Comment.strip .standard _ = kept at ih
            cases ih hfront'.2 with
            | none hplain => exact .none (List.not_mem_cons_of_ne_of_not_mem hfront'.1 hplain)
            | one hbefore hbehind =>
                exact .one (List.not_mem_cons_of_ne_of_not_mem hfront'.1 hbefore) hbehind

/-- A text with one include is silent to the scans for other names. -/
theorem silent {name : List Char}
    (hname : ∀ behind, Directive.nameEnds name (callHead ++ behind) = false)
    (h : OneInclude text) : Directive.Silent .standard name text [] := by
  cases h with
  | none hplain => exact Directive.silent_of_plain hplain []
  | @one front behind hfront hbehind =>
      have hname : Directive.nameEnds name (callHead ++ behind ++ []) = false := by
        rw [List.append_nil]
        exact hname behind
      exact Everywhere.append (Directive.silent_of_plain hfront _)
        (Directive.silent_reference (List.not_mem_append not_mem_callHead hbehind)
          ⟨_, _, rfl, by decide⟩ hname)

/-- An include is no variable unless the data have its name. -/
theorem replace {data : Data} (hdata : Entries.hasKey data (.str "include") = false)
    (h : OneInclude text) : Variable.replace .standard data text = pure text := by
  cases h with
  | none hplain =>
      have hreplace := Variable.replace_plain hplain data []
      rw [Variable.replace_nil, List.append_nil, map_pure, List.append_nil] at hreplace
      exact hreplace
  | @one front behind hfront hbehind =>
      have hends : Variable.Ends ('(' :: behind) := by
        rintro c ⟨⟩
        decide
      have hplain : '@' ∉ '(' :: behind :=
        List.not_mem_cons_of_ne_of_not_mem (by decide) hbehind
      have hkept := Variable.replace_dotted_kept Chunk.isName_include (by simp) hends
        (Chunk.outcome_include hdata)
      have hbehind' := Variable.replace_plain hplain data []
      rw [Variable.replace_nil, List.append_nil, map_pure, List.append_nil] at hbehind'
      rw [Variable.dotted_singleton, hbehind', map_pure] at hkept
      rw [Variable.replace_plain hfront]
      change _ <$> Variable.replace .standard data
        ('@' :: '@' :: ("include".toList ++ '(' :: behind)) = _
      rw [hkept, map_pure]
      rfl

/-- The arguments of a directive of the text hold no sign. -/
theorem not_mem_args {name : List Char} {shape : Shape} {found : Directive} {source : List Char}
    (h : OneInclude text)
    (hfound : .directive found source ∈ Directive.pieces .standard name shape text) :
    '@' ∉ found.args := by
  obtain ⟨before, back, hback, hargs⟩ := Directive.args_of_mem_pieces hfound
  cases h with
  | none hplain => exact absurd (by rw [hback]; simp [Delimiters.standard]) hplain
  | @one front behind hfront hbehind =>
      have hrest := List.not_mem_append not_mem_callHead hbehind
      have hsplit : before ++ '@' :: '@' :: back = front ++ '@' :: '@' :: (callHead ++ behind) := by
        simpa [Delimiters.standard] using hback.symm
      obtain ⟨rfl, rfl⟩ := append_signs_inj hfront hrest hsplit
      exact fun hmem => hrest (hargs.subset hmem)

end OneInclude

namespace Renderer

variable {renderer : Renderer} {document : Document} {frame : Frame}

/-- Before any file is included nothing but comments is removed from a text with one include. -/
theorem renderText_oneInclude (hdelimiters : renderer.settings.delimiters = .standard)
    (hdata : Entries.hasKey frame.data (.str "include") = false)
    (h : OneInclude frame.document.text) :
    renderer.renderText frame = pure (Comment.strip .standard frame.document.text) := by
  have hstripped := h.strip
  have hif : Directive.Silent .standard "if".toList (Comment.strip .standard frame.document.text)
      [] := hstripped.silent fun _ => rfl
  have hfor : Directive.Silent .standard Loop.directiveName
      (Comment.strip .standard frame.document.text) [] := hstripped.silent fun _ => rfl
  unfold renderText
  simp only [hdelimiters, decideConditions, replaceDirectives_silent hif,
    replaceDirectives_silent hfor, pure_bind, hstripped.replace hdata]

/-- The text of a document in which its includes have been expanded, as it is then scanned for
loops. -/
def includedText (renderer : Renderer) (document : Document) (data : Option Data) :
    Rendering (List Char) := do
  let frame := Frame.outermost document (renderer.sharedData document) data
  let text ← renderer.renderText frame
  replaceDirectives renderer.settings.delimiters "include".toList .call
    (renderer.expandInclude (renderer.renderFrame (2 * renderer.tree.files.length + 1)) frame) text

/-- A document is scanned for loops last. -/
theorem renderDocument_eq (renderer : Renderer) (document : Document) (data : Option Data) :
    renderer.renderDocument document data = (do
      let frame := Frame.outermost document (renderer.sharedData document) data
      Run.detail ("Resolving " ++ document.path.toText ++ " (base " ++ document.base.toText ++ ")")
      Run.mapError (fun error => error.locatedIn frame.file) (renderer.includedText document data >>=
        replaceDirectives renderer.settings.delimiters "loop".toList .call
          (renderer.expandLoop (renderer.renderFrame (2 * renderer.tree.files.length + 1))
            frame))) := by
  unfold renderDocument depthBound renderFrame expandFrame includedText
  simp only [bind_assoc]

/-- The data of a document with one include do not show in what the include puts in its place. -/
theorem includedText_congr (hdelimiters : renderer.settings.delimiters = .standard)
    (hcontext : Entries.hasKey renderer.settings.context (.str "include") = false)
    (h : OneInclude document.text) {first second : Option Data}
    (hfirst : Entries.hasKey (first.getD []) (.str "include") = false)
    (hsecond : Entries.hasKey (second.getD []) (.str "include") = false) :
    renderer.includedText document first = renderer.includedText document second := by
  have hshared := hasKey_sharedData rfl hcontext document
  have htext : ∀ {data : Option Data}, Entries.hasKey (data.getD []) (.str "include") = false →
      renderer.renderText (.outermost document (renderer.sharedData document) data) =
        pure (Comment.strip .standard document.text) :=
    fun hdata => renderText_oneInclude hdelimiters (Frame.hasKey_dataOf rfl hshared hdata _) h
  unfold includedText
  simp only [htext hfirst, htext hsecond, pure_bind, hdelimiters]
  apply Piece.assemble_congr
  intro found source hfound
  have hargs := Include.not_refersToData_of_not_mem (h.strip.not_mem_args hfound)
  exact expandInclude_withData hdelimiters hargs
    (.outermost document (renderer.sharedData document) second) _

/-- A document with one include is rendered alike whatever its data are, if no loop in the text in
which the include has been expanded refers to them. -/
theorem renderDocument_ignores_data (hdelimiters : renderer.settings.delimiters = .standard)
    (hcontext : Entries.hasKey renderer.settings.context (.str "include") = false)
    {front behind : List Char} (hfront : '@' ∉ front) (hbehind : '@' ∉ behind)
    (htext : document.text = front ++ "@@include(".toList ++ behind) {first second : Option Data}
    (hfirst : Entries.hasKey (first.getD []) (.str "include") = false)
    (hsecond : Entries.hasKey (second.getD []) (.str "include") = false)
    (hloops : ∀ text, (renderer.includedText document first).outcome = .ok text →
      ∀ found ∈ Directive.all .standard "loop".toList .call text,
        ¬ Include.RefersToData found.args) :
    renderer.renderDocument document first = renderer.renderDocument document second := by
  have hone : OneInclude document.text := by
    have hsplit : document.text = front ++ '@' :: '@' :: (callHead ++ behind) := by
      rw [htext, List.append_assoc]
      rfl
    rw [hsplit]
    exact .one hfront hbehind
  rw [renderDocument_eq, renderDocument_eq,
    ← includedText_congr hdelimiters hcontext hone hfirst hsecond]
  dsimp only
  congr 1
  funext _
  congr 1
  apply Run.bind_congr_of_ok
  intro text hincluded
  rw [hdelimiters]
  apply Piece.assemble_congr
  intro found source hfound
  have hargs := hloops text hincluded found (List.mem_filterMap.mpr ⟨_, hfound, rfl⟩)
  exact expandLoop_withData hdelimiters hargs
    (.outermost document (renderer.sharedData document) second) _

end Renderer

/-! ## A call that is closed behind an include -/

namespace Unclosed

/-- The path of a document. -/
def root : Path := ⟨.single, ["site", "index.html"]⟩

/-- The path of the file that the document includes. -/
def part : Path := ⟨.single, ["site", "part"]⟩

/-- The document closes behind the include a bracket that it does not open. -/
def document : Document := ⟨root, root.parent, "@@include('part'))".toList⟩

/-- The directory of the document, which has no file but the included one, with a text. -/
def renderer (left : List Char) : Renderer :=
  ⟨⟨[(["site", "part"], left.map fun c => c.toNat.toUInt8)], [["site"]], ["site"], []⟩, .standard⟩

/-- The data with a list of one number. -/
def items : Data := [(.str "items", .list (.ofPlace [1]) [.number (.int 7)])]

/-- The frame of the document. -/
def frame (data : Data) : Frame :=
  .outermost document [(.str Settings.webRootName, .str ".")] (some data)

/-- The frame of the included file. -/
def inner (left : List Char) : Frame := (frame []).inner ⟨part, root.parent, left⟩ (some [])

variable {left : List Char} {data : Data}

theorem checkRecursion_of_new {name : String}
    (hname : (⟨.single, ["site", name]⟩ : Path).sameFile root = false) (data : Data) :
    (frame data).checkRecursion ⟨.single, ["site", name]⟩ = .ok () := by
  unfold Frame.checkRecursion frame Frame.outermost document
  simp only [hname, Bool.false_eq_true, if_false, List.dropWhile, Bool.not_false]

theorem outcome_included (hread : DataFile.readText (renderer left).tree part = .ok left)
    (found : Directive) :
    ((renderer left).included (frame data) found ⟨"part".toList, none, []⟩).outcome =
      .ok ⟨part, root.parent, left⟩ := by
  have htarget : (renderer left).target (frame data) "part".toList = part := rfl
  have hcheck : (frame data).checkRecursion part = .ok () := checkRecursion_of_new (by cbv) data
  simp only [Renderer.included, Run.outcome_bind, Run.outcome_lift, htarget, hcheck,
    Renderer.readIncluded, hread]
  rfl

theorem outcome_expandInclude (hread : DataFile.readText (renderer left).tree part = .ok left)
    {render : Frame → Rendering (List Char)} (hrender : (render (inner left)).outcome = .ok left)
    {found : Directive} (hargs : found.args = Chunk.quoted "part".toList) :
    ((renderer left).expandInclude render (frame data) found).outcome = .ok (some left) := by
  have hparameter : ((renderer left).parameter (frame data) ⟨"part".toList, none, []⟩).outcome =
      .ok (.map (.ofPlace []) []) := rfl
  have hinner : (frame data).inner ⟨part, root.parent, left⟩ (some []) = inner left := rfl
  unfold Renderer.expandInclude
  rw [hargs, Include.parse?_quoted (by decide)]
  simp only [Run.outcome_bind, outcome_included hread, hparameter, Renderer.includeData,
    Run.outcome_pure, Run.outcome_detail, ok_bind, hinner, hrender]

theorem sharedData_eq (left : List Char) :
    (renderer left).sharedData document = [(.str Settings.webRootName, .str ".")] := by
  unfold Renderer.sharedData
  rfl

/-- What the file leaves stands before the bracket when the include has been expanded. -/
theorem outcome_includedText (hread : DataFile.readText (renderer left).tree part = .ok left)
    (hrender : ((renderer left).renderFrame 3 (inner left)).outcome = .ok left)
    (hdata : Entries.hasKey data (.str "include") = false) :
    ((renderer left).includedText document (some data)).outcome = .ok (left ++ [')']) := by
  have hone : OneInclude ([] ++ '@' :: '@' :: (callHead ++ "'part'))".toList)) :=
    .one (by decide) (by decide)
  have hkey : Entries.hasKey (frame data).data (.str "include") = false := by
    have hparameter : Entries.hasKey ((some data : Option Data).getD []) (.str "include") = false :=
      hdata
    exact Frame.hasKey_dataOf rfl rfl hparameter _
  have htext : (renderer left).renderText (frame data) =
      pure (Comment.strip .standard document.text) :=
    Renderer.renderText_oneInclude rfl hkey hone
  have hstrip : Comment.strip .standard document.text = document.text :=
    Comment.strip_eq_self_of_not_holdsInclude (Comment.not_holdsInclude_of_not_mem (by decide))
  have hframe : Frame.outermost document ((renderer left).sharedData document) (some data) =
      frame data := by
    rw [sharedData_eq]
    rfl
  have hpieces : Directive.pieces .standard "include".toList .call document.text =
      [.directive ⟨Chunk.quoted "part".toList, [], 0, 17, []⟩ "@@include('part')".toList,
        .literal [')']] := by cbv
  have hcall : ((renderer left).expandInclude ((renderer left).renderFrame 3) (frame data)
      ⟨Chunk.quoted "part".toList, [], 0, 17, []⟩).outcome = .ok (some left) :=
    outcome_expandInclude hread hrender rfl
  unfold Renderer.includedText
  simp only [hframe, htext, pure_bind]
  change (Renderer.replaceDirectives .standard "include".toList .call
    ((renderer left).expandInclude ((renderer left).renderFrame 3) (frame data))
    (Comment.strip .standard document.text)).outcome = _
  rw [hstrip, Renderer.replaceDirectives, hpieces]
  simp only [Piece.assemble, Run.outcome_bind, hcall, Run.outcome_pure, ok_bind]
  rfl

/-- What is the beginning of a loop to the scan for loops, and text to all others, is left. -/
theorem outcome_renderFrame (hplain : '<' ∉ left)
    (hif : Directive.pieces .standard "if".toList .block left = [.literal left])
    (hfor : Directive.pieces .standard Loop.directiveName .block left = [.literal left])
    (hvariables : (Variable.replace .standard (inner left).data left).outcome = .ok left)
    (hinclude : Directive.pieces .standard "include".toList .call left = [.literal left])
    (hloop : Directive.pieces .standard "loop".toList .call left =
      [.unbalanced .arguments 0, .literal left]) (depth : Nat) :
    ((renderer left).renderFrame (depth + 1) (inner left)).outcome = .ok left := by
  have hdelimiters : (renderer left).settings.delimiters = .standard := rfl
  have hstrip : Comment.strip .standard (inner left).document.text = left :=
    Comment.strip_eq_self_of_not_holdsInclude (Comment.not_holdsInclude_of_not_mem hplain)
  have hkept : ∀ name shape handler, Directive.pieces .standard name shape left = [.literal left] →
      Renderer.replaceDirectives .standard name shape handler left = pure left := by
    intro name shape handler hpieces
    simp [Renderer.replaceDirectives, hpieces, Piece.assemble]
  unfold Renderer.renderFrame Renderer.expandFrame Renderer.renderText Renderer.decideConditions
  simp only [Run.outcome_mapError, Run.outcome_bind, hdelimiters, hstrip, hkept _ _ _ hif,
    hkept _ _ _ hfor, Run.outcome_pure, ok_bind, hvariables, hkept _ _ _ hinclude]
  simp only [Renderer.replaceDirectives, hloop, Piece.assemble, Run.outcome_bind,
    Run.outcome_detail, ok_bind, Run.outcome_pure, List.append_nil]
  rfl

/-- The loop that is closed behind the include is expanded with the data of the document. -/
theorem outcome_renderDocument (data : Data) {found : Directive} {source : List Char}
    (hincluded : ((renderer left).includedText document (some data)).outcome =
      .ok (left ++ [')']))
    (hpieces : Directive.pieces .standard "loop".toList .call (left ++ [')']) =
      [.directive found source]) :
    ((renderer left).renderDocument document (some data)).outcome =
      ((((renderer left).expandLoop ((renderer left).renderFrame 3) (frame data) found).outcome).map
        fun replacement => replacement.getD source).mapError
          (Halt.map fun error => error.locatedIn root.toText) := by
  have hdelimiters : (renderer left).settings.delimiters = .standard := rfl
  have hframe : Frame.outermost document ((renderer left).sharedData document) (some data) =
      frame data := by
    rw [sharedData_eq]
    rfl
  rw [Renderer.renderDocument_eq]
  simp only [Run.outcome_bind, Run.outcome_detail, ok_bind, Run.outcome_mapError, hincluded,
    hdelimiters, hframe, Renderer.replaceDirectives, hpieces, Piece.assemble, Run.outcome_pure,
    List.append_nil]
  congr 1

/-- The file leaves a loop over the items of the document. -/
theorem outcome_includedText_items (hdata : Entries.hasKey data (.str "include") = false) :
    ((renderer "@@loop('item',@@items".toList).includedText document (some data)).outcome =
      .ok ("@@loop('item',@@items".toList ++ [')']) :=
  outcome_includedText (by cbv)
    (outcome_renderFrame (by decide) (by cbv) (by cbv) (by cbv) (by cbv) (by cbv) 2) hdata

/-- Without data there are no items. -/
theorem outcome_renderDocument_nothing :
    ((renderer "@@loop('item',@@items".toList).renderDocument document (some [])).outcome =
      .ok [] := by
  have hparse : Include.Arguments.parse? "'item',@@items".toList =
      some ⟨"item".toList, some "@@items".toList, []⟩ := by cbv
  have hparameter : ((renderer "@@loop('item',@@items".toList).parameter (frame [])
      ⟨"item".toList, some "@@items".toList, []⟩).outcome = .ok .null := by cbv
  have hpieces : Directive.pieces .standard "loop".toList .call
      ("@@loop('item',@@items".toList ++ [')']) =
        [.directive ⟨"'item',@@items".toList, [], 0, 22, []⟩ "@@loop('item',@@items)".toList] := by
    cbv
  rw [outcome_renderDocument [] (outcome_includedText_items rfl) hpieces]
  unfold Renderer.expandLoop
  simp only [hparse, Run.outcome_bind, hparameter, ok_bind]
  rfl

/-- With an item the loop looks for its file. -/
theorem outcome_renderDocument_items :
    ((renderer "@@loop('item',@@items".toList).renderDocument document (some items)).outcome =
      .error (.error ⟨.notFound "/site/item", some "/site/index.html"⟩) := by
  have hparse : Include.Arguments.parse? "'item',@@items".toList =
      some ⟨"item".toList, some "@@items".toList, []⟩ := by cbv
  have hparameter : ((renderer "@@loop('item',@@items".toList).parameter (frame items)
      ⟨"item".toList, some "@@items".toList, []⟩).outcome =
        .ok (.list ⟨[1, 1], false⟩ [.number (.int 7)]) := by cbv
  have htarget : (renderer "@@loop('item',@@items".toList).target (frame items) "item".toList =
      ⟨.single, ["site", "item"]⟩ := rfl
  have hcheck : (frame items).checkRecursion ⟨.single, ["site", "item"]⟩ = .ok () :=
    checkRecursion_of_new (by cbv) items
  have hread : (renderer "@@loop('item',@@items".toList).readIncluded (frame items)
      ⟨.single, ["site", "item"]⟩ =
        .error (.error ⟨.notFound "/site/item", some "/site/index.html"⟩) := by cbv
  have hpieces : Directive.pieces .standard "loop".toList .call
      ("@@loop('item',@@items".toList ++ [')']) =
        [.directive ⟨"'item',@@items".toList, [], 0, 22, []⟩ "@@loop('item',@@items)".toList] := by
    cbv
  rw [outcome_renderDocument items (outcome_includedText_items rfl) hpieces]
  unfold Renderer.expandLoop
  simp only [hparse, Run.outcome_bind, hparameter, ok_bind, Renderer.loopItems, Value.isVoid,
    List.isEmpty_cons, Bool.false_eq_true, if_false, Run.outcome_pure, Renderer.included,
    Run.outcome_lift, htarget, hcheck, hread]
  rfl

end Unclosed

/-- A loop that an included file leaves behind is expanded with the data of the including document,
when its text behind the include closes it. -/
theorem Renderer.not_ignores_data :
    ¬ ∀ (renderer : Renderer) (document : Document) (path front behind : List Char)
      (first second : Data),
      renderer.settings.delimiters = .standard →
      Entries.hasKey renderer.settings.context (.str "include") = false →
      '@' ∉ front → '@' ∉ behind →
      '\'' ∉ path → '"' ∉ path → '\\' ∉ path → '@' ∉ path →
      document.text = front ++ "@@include('".toList ++ path ++ "')".toList ++ behind →
      Entries.hasKey first (.str "include") = false →
      Entries.hasKey second (.str "include") = false →
      (renderer.renderDocument document (some first)).outcome =
        (renderer.renderDocument document (some second)).outcome := by
  intro h
  have hsame := h (Unclosed.renderer "@@loop('item',@@items".toList) Unclosed.document
    "part".toList [] [')'] [] Unclosed.items rfl rfl (by decide) (by decide) (by decide) (by decide)
    (by decide) (by decide) rfl rfl rfl
  rw [Unclosed.outcome_renderDocument_nothing, Unclosed.outcome_renderDocument_items] at hsame
  cases hsame

/-- A loop over a list of its own is expanded alike whatever the data are. -/
theorem Renderer.renderDocument_ignores_data_items :
    ((Unclosed.renderer "@@loop('item',[]".toList).includedText Unclosed.document
        (some Unclosed.items)).outcome = .ok "@@loop('item',[])".toList ∧
      (Unclosed.renderer "@@loop('item',[]".toList).renderDocument Unclosed.document
          (some Unclosed.items) =
        (Unclosed.renderer "@@loop('item',[]".toList).renderDocument Unclosed.document
          (some []) := by
  have hincluded : ((Unclosed.renderer "@@loop('item',[]".toList).includedText Unclosed.document
      (some Unclosed.items)).outcome = .ok "@@loop('item',[])".toList :=
    Unclosed.outcome_includedText (by cbv)
      (Unclosed.outcome_renderFrame (by decide) (by cbv) (by cbv) (by cbv) (by cbv) (by cbv) 2) rfl
  have htext : Unclosed.document.text = [] ++ "@@include(".toList ++ "'part'))".toList := rfl
  refine ⟨hincluded, Renderer.renderDocument_ignores_data rfl rfl List.not_mem_nil (by decide) htext
    rfl rfl ?_⟩
  intro text htext found hfound
  rw [hincluded] at htext
  cases htext
  have hall : Directive.all .standard "loop".toList .call "@@loop('item',[])".toList =
      [⟨"'item',[]".toList, [], 0, 17, []⟩] := by cbv
  rw [hall, List.mem_singleton] at hfound
  rw [hfound]
  exact Include.not_refersToData_of_not_mem (by decide)

end Transclude
