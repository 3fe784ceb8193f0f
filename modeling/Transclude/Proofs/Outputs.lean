import Mathlib
import Transclude.Proofs.Building
import Transclude.Proofs.Growing

/-! # Outputs of renderings

A list of sources, each rendered by itself, gives a tree with the texts of those before
the first one that fails, and a report of where they are. This is what a build of the
sources does when they render alike in every tree that it comes to on the way. -/

namespace Transclude

open FileTree Location

namespace Build

variable {settings : Settings} {directory target : Path} {tree grown : FileTree}
  {source : Location} {sources : List Location}

/-! ## What a list of renderings gives -/

/-- The sources before the first one whose rendering fails. -/
def finished {α : Type} (render : Location → Rendering α) (sources : List Location) :
    List Location :=
  sources.takeWhile fun source => (render source).outcome.isOk

/-- The tree with the outputs of the renderings of some sources, up to the first one that fails. -/
def putAll (target : Path) (render : Location → Rendering (List Char)) :
    FileTree → List Location → FileTree
  | tree, [] => tree
  | tree, source :: rest =>
    match (render source).outcome with
    | .ok text => putAll target render (tree.put (target.parts ++ source) (Text.encode text)) rest
    | .error _ => tree

/-- What is reported of the rendering of a source: where its output goes. -/
def output (target : Path) (render : Location → Rendering (List Char)) (source : Location) :
    Rendering Path := do
  let written := target.join ⟨.relative, source⟩
  let _ ← render source
  Run.emit (.notice ("/".intercalate source ++ " -> " ++ written.toText))
  return written

/-- What is reported of the renderings of some sources, up to the first one that fails. -/
def report (target : Path) (render : Location → Rendering (List Char)) :
    List Location → Rendering (List Path)
  | [] => return []
  | source :: rest => do return (← output target render source) :: (← report target render rest)

variable {render : Location → Rendering (List Char)}

theorem finished_cons_of_ok {text : List Char} (h : (render source).outcome = .ok text)
    (rest : List Location) : finished render (source :: rest) = source :: finished render rest := by
  rw [finished, List.takeWhile_cons, h]
  rfl

theorem finished_cons_of_error {reason : Halt Error} (h : (render source).outcome = .error reason)
    (rest : List Location) : finished render (source :: rest) = [] := by
  rw [finished, List.takeWhile_cons, h]
  rfl

theorem finished_map {α β : Type} (f : α → β) (render : Location → Rendering α)
    (sources : List Location) :
    finished (fun source => f <$> render source) sources = finished render sources := by
  unfold finished
  congr 1
  funext source
  dsimp only
  rw [← bind_pure_comp, Run.outcome_bind]
  cases (render source).outcome <;> rfl

theorem putAll_cons_of_ok {text : List Char} (h : (render source).outcome = .ok text)
    (tree : FileTree) (rest : List Location) : putAll target render tree (source :: rest) =
      putAll target render (tree.put (target.parts ++ source) (Text.encode text)) rest := by
  rw [putAll, h]

theorem putAll_cons_of_error {reason : Halt Error} (h : (render source).outcome = .error reason)
    (tree : FileTree) (rest : List Location) :
    putAll target render tree (source :: rest) = tree := by
  rw [putAll, h]

theorem output_of_ok {text : List Char} (h : (render source).outcome = .ok text) :
    output target render source = ⟨(render source).events ++
      [.notice ("/".intercalate source ++ " -> " ++ (target.join ⟨.relative, source⟩).toText)],
      .ok (target.join ⟨.relative, source⟩)⟩ := by
  change Run.andThen (render source) _ = _
  rw [Run.andThen, h]
  rfl

theorem output_of_error {reason : Halt Error} (h : (render source).outcome = .error reason) :
    output target render source = ⟨(render source).events, .error reason⟩ := by
  change Run.andThen (render source) _ = _
  rw [Run.andThen, h]

theorem report_cons_of_error {reason : Halt Error} (h : (render source).outcome = .error reason)
    (rest : List Location) :
    report target render (source :: rest) = ⟨(render source).events, .error reason⟩ := by
  rw [report, output_of_error h]
  rfl

/-- A build of sources that render alike in every grown tree is the list of their renderings. -/
theorem buildAll_eq {all : List Location} (hready : Ready target all grown)
    (hgrown : Grows target.parts tree grown) (hsub : ∀ source ∈ sources, source ∈ all)
    (hrender : ∀ source ∈ sources, ∀ grown, Grows target.parts tree grown →
      renderSource ⟨grown, settings⟩ directory (directory.join ⟨.relative, source⟩) =
        render source) :
    buildAll settings directory target grown sources =
        (putAll target render grown sources, report target render sources) ∧
      Ready target all (putAll target render grown sources) ∧
      Grows target.parts tree (putAll target render grown sources) := by
  -- whatever has been written, the tree has still grown out of the first one
  induction sources generalizing grown with
  | nil => exact ⟨rfl, hready, hgrown⟩
  | cons source rest ih =>
      have hmem := hsub source List.mem_cons_self
      have hsource := hrender source List.mem_cons_self grown hgrown
      cases houtcome : (render source).outcome with
      | error reason =>
          rw [putAll_cons_of_error houtcome, report_cons_of_error houtcome]
          rw [← hsource] at houtcome ⊢
          exact ⟨buildAll_of_error (buildSource_of_error houtcome) rfl rest, hready, hgrown⟩
      | ok text =>
          have hput : Grows target.parts tree
              (grown.put (target.parts ++ source) (Text.encode text)) := by
            refine hgrown.put (leadsTo_iff.mpr ⟨List.prefix_append _ _, ?_⟩) (hready.isName hmem)
              (hready.free source hmem) _
            simp [hready.ne_nil source hmem]
          obtain ⟨hrest, hrestReady, hrestGrown⟩ := ih (hready.put hmem _) hput
            (fun other hother => hsub other (List.mem_cons_of_mem source hother))
            fun other hother => hrender other (List.mem_cons_of_mem source hother)
          have houtput := @output_of_ok target source render text houtcome
          rw [putAll_cons_of_ok houtcome]
          refine ⟨?_, hrestReady, hrestGrown⟩
          rw [← hsource] at houtcome houtput
          have hbuilt := buildSource_of_ok houtcome (hready.isNormal hmem)
            (hready.isNameable hmem) (hready.free source hmem)
          rw [← houtput] at hbuilt
          rw [buildAll_of_ok hbuilt (by rw [houtput]), hrest]
          rfl

/-! ## What has been written -/

/-- Where no finished source has its output, the tree has the same files. -/
theorem bytesAt?_putAll {place : Location} (tree : FileTree)
    (h : ∀ source ∈ finished render sources, place ≠ target.parts ++ source) :
    (putAll target render tree sources).bytesAt? place = tree.bytesAt? place := by
  induction sources generalizing tree with
  | nil => rfl
  | cons source rest ih =>
      cases houtcome : (render source).outcome with
      | error reason => rw [putAll_cons_of_error houtcome]
      | ok text =>
          rw [finished_cons_of_ok houtcome] at h
          rw [putAll_cons_of_ok houtcome, ih _ fun other hother =>
            h other (List.mem_cons_of_mem source hother), bytesAt?_put,
            if_neg (h source List.mem_cons_self)]

/-- Every finished source has its text in its output. -/
theorem bytesAt?_putAll_of_mem (tree : FileTree) (hsource : source ∈ finished render sources) :
    ∃ text, (render source).outcome = .ok text ∧
      (putAll target render tree sources).bytesAt? (target.parts ++ source) =
        some (Text.encode text) := by
  induction sources generalizing tree with
  | nil => cases hsource
  | cons first rest ih =>
      cases houtcome : (render first).outcome with
      | error reason =>
          rw [finished_cons_of_error houtcome] at hsource
          cases hsource
      | ok text =>
          rw [putAll_cons_of_ok houtcome]
          -- a source that comes again is written again, with the same text
          by_cases hrest : source ∈ finished render rest
          · exact ih _ hrest
          · rw [finished_cons_of_ok houtcome] at hsource
            obtain rfl := (List.mem_cons.mp hsource).resolve_right hrest
            refine ⟨text, houtcome, ?_⟩
            rw [bytesAt?_putAll, bytesAt?_put, if_pos rfl]
            intro other hother heq
            exact hrest (List.append_cancel_left heq ▸ hother)

/-- The new directories are those that lead to the outputs of the finished sources. -/
theorem hasDirectory_putAll {directory : Location} (tree : FileTree) :
    (putAll target render tree sources).hasDirectory directory = true ↔
      tree.hasDirectory directory = true ∨
        ∃ source ∈ finished render sources, LeadsTo directory (target.parts ++ source) := by
  induction sources generalizing tree with
  | nil => simp [putAll, finished]
  | cons source rest ih =>
      cases houtcome : (render source).outcome with
      | error reason =>
          rw [putAll_cons_of_error houtcome, finished_cons_of_error houtcome]
          simp
      | ok text =>
          rw [putAll_cons_of_ok houtcome, finished_cons_of_ok houtcome, ih, hasDirectory_put,
            or_assoc, List.exists_mem_cons_iff]

/-- Writing again what is there changes nothing. -/
theorem putAll_eq_self
    (hbytes : ∀ source ∈ finished render sources, ∀ text, (render source).outcome = .ok text →
      tree.bytesAt? (target.parts ++ source) = some (Text.encode text))
    (hleading : ∀ source ∈ finished render sources, ∀ above,
      LeadsTo above (target.parts ++ source) → tree.hasDirectory above = true) :
    putAll target render tree sources = tree := by
  induction sources with
  | nil => rfl
  | cons source rest ih =>
      cases houtcome : (render source).outcome with
      | error reason => exact putAll_cons_of_error houtcome tree rest
      | ok text =>
          rw [finished_cons_of_ok houtcome] at hbytes hleading
          rw [putAll_cons_of_ok houtcome, put_eq_self
            (hbytes source List.mem_cons_self text houtcome) (hleading source List.mem_cons_self)]
          exact ih (fun other hother => hbytes other (List.mem_cons_of_mem source hother))
            fun other hother => hleading other (List.mem_cons_of_mem source hother)

theorem putAll_putAll (tree : FileTree) (sources : List Location) :
    putAll target render (putAll target render tree sources) sources =
      putAll target render tree sources := by
  refine putAll_eq_self (fun source hsource text htext => ?_) fun source hsource above habove => ?_
  · obtain ⟨text', htext', hbytes⟩ := @bytesAt?_putAll_of_mem target _ _ render tree hsource
    rw [htext] at htext'
    cases htext'
    exact hbytes
  · exact (hasDirectory_putAll tree).mpr (.inr ⟨source, hsource, habove⟩)

/-! ## What has been reported -/

theorem outcome_report_of_finished (h : finished render sources = sources) :
    (report target render sources).outcome =
      .ok (sources.map fun source => target.join ⟨.relative, source⟩) := by
  induction sources with
  | nil => rfl
  | cons source rest ih =>
      cases houtcome : (render source).outcome with
      | error reason =>
          rw [finished_cons_of_error houtcome] at h
          cases h
      | ok text =>
          rw [finished_cons_of_ok houtcome, List.cons.injEq] at h
          rw [report, output_of_ok houtcome]
          simp only [Run.outcome_bind, Run.outcome_pure, ok_bind, ih h.2, List.map_cons]

/-- A build ends with the error of the first source that fails. -/
theorem outcome_report_of_error {rest : List Location} {reason : Halt Error}
    (h : sources = finished render sources ++ source :: rest)
    (hreason : (render source).outcome = .error reason) :
    (report target render sources).outcome = .error reason := by
  induction sources with
  | nil => simp at h
  | cons first others ih =>
      cases houtcome : (render first).outcome with
      | error reason' =>
          rw [finished_cons_of_error houtcome, List.nil_append, List.cons.injEq] at h
          rw [h.1, hreason] at houtcome
          cases houtcome
          rw [report_cons_of_error (h.1 ▸ hreason)]
      | ok text =>
          rw [finished_cons_of_ok houtcome, List.cons_append, List.cons.injEq] at h
          rw [report, output_of_ok houtcome]
          simp only [Run.outcome_bind, ok_bind, ih h.2, error_bind]

end Build

end Transclude
