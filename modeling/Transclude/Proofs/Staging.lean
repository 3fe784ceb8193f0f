import Mathlib
import Transclude.Proofs.Nesting
import Transclude.Proofs.Template

/-! # One pass over a template

A document that is a template is rendered in stages, each of which goes through
the text that the one before has left. Together they come to what a single pass
over the tree gives. -/

namespace Transclude

namespace Template

/-! ## Conditions decided in the tree -/

/-- One template behind another. -/
def append : Template → Template → Template
  | nil, last => last
  | literal content rest, last => literal content (append rest last)
  | reference names rest, last => reference names (append rest last)
  | block condition body rest, last => block condition body (append rest last)

/-- The template with its conditions decided: the bodies of those that hold take their places. -/
def prune (data : Data) (file : Option String) : Template → Except (Halt Error) Template
  | nil => .ok nil
  | literal content rest => do return literal content (← prune data file rest)
  | reference names rest => do return reference names (← prune data file rest)
  | block condition body rest => do
    let held ← holds data file condition
    let inner ← bif held then prune data file body else .ok nil
    return append inner (← prune data file rest)

/-- A template without blocks, as conditions leave it. -/
def Flat : Template → Prop
  | nil => True
  | literal content rest => '@' ∉ content ∧ Flat rest
  | reference names rest => IsReference names ∧ StartsApart rest ∧ Flat rest
  | block _ _ _ => False

variable {template : Template} {data : Data} {file : Option String}

theorem write_append (text : List (List Char) → List Char) (first last : Template) :
    (append first last).write text = first.write text ++ last.write text := by
  induction first with
  | nil => rfl
  | literal content rest ih => rw [append, write, write, ih, List.append_assoc]
  | reference names rest ih => rw [append, write, write, ih, List.append_assoc]
  | block condition body rest _ ih => rw [append, write, write, ih, List.append_assoc]

theorem StartsApart.append {first : Template} (h : StartsApart first) (last : Template) :
    StartsApart (first.append last) := by
  cases first with
  | literal content rest => cases content <;> exact h
  | _ => cases h

theorem Flat.append {first last : Template} (hfirst : first.Flat) (hlast : last.Flat) :
    (first.append last).Flat := by
  induction first with
  | nil => exact hlast
  | literal content rest ih => exact ⟨hfirst.1, ih hfirst.2⟩
  | reference names rest ih => exact ⟨hfirst.1, hfirst.2.1.append last, ih hfirst.2.2⟩
  | block condition body rest => cases hfirst

theorem references_append (first last : Template) :
    (first.append last).references = first.references ++ last.references := by
  induction first with
  | nil => rfl
  | literal content rest ih => exact ih
  | reference names rest ih => rw [Template.append, references, references, ih]; rfl
  | block condition body rest _ ih =>
      rw [Template.append, references, references, ih, List.append_assoc]

theorem StartsApart.prune {rest pruned : Template} (h : StartsApart rest)
    (hpruned : rest.prune data file = .ok pruned) : StartsApart pruned := by
  cases rest with
  | literal content rest =>
      obtain ⟨following, _, heq⟩ := bind_eq_ok.mp hpruned
      cases heq
      cases content <;> exact h
  | _ => cases h

/-- Decided conditions leave a template without blocks and with no other references. -/
theorem flat_of_prune {inside : Bool} {pruned : Template} (h : template.Proper inside)
    (hpruned : template.prune data file = .ok pruned) :
    pruned.Flat ∧ pruned.references ⊆ template.references := by
  induction template generalizing inside pruned with
  | nil =>
      cases hpruned
      exact ⟨trivial, List.Subset.refl _⟩
  | literal content rest ih =>
      obtain ⟨following, hfollowing, heq⟩ := bind_eq_ok.mp hpruned
      cases heq
      obtain ⟨hflat, hsubset⟩ := ih h.2.2 hfollowing
      exact ⟨⟨h.1, hflat⟩, hsubset⟩
  | reference names rest ih =>
      obtain ⟨following, hfollowing, heq⟩ := bind_eq_ok.mp hpruned
      cases heq
      obtain ⟨hflat, hsubset⟩ := ih h.2.2 hfollowing
      exact ⟨⟨h.1, h.2.1.prune hfollowing, hflat⟩, List.cons_subset_cons names hsubset⟩
  | block condition body rest ihbody ihrest =>
      obtain ⟨held, _, hpruned⟩ := bind_eq_ok.mp hpruned
      obtain ⟨inner, hinner, hpruned⟩ := bind_eq_ok.mp hpruned
      obtain ⟨following, hfollowing, heq⟩ := bind_eq_ok.mp hpruned
      cases heq
      obtain ⟨hflat, hsubset⟩ := ihrest h.2.2 hfollowing
      rw [references_append, references]
      cases held with
      | true =>
          obtain ⟨hflat', hsubset'⟩ := ihbody h.2.1 hinner
          exact ⟨hflat'.append hflat, List.append_subset.mpr
            ⟨List.subset_append_of_subset_left _ hsubset',
              List.subset_append_of_subset_right _ hsubset⟩⟩
      | false =>
          cases hinner
          exact ⟨hflat, List.subset_append_of_subset_right _ hsubset⟩

/-- Evaluating a template is writing what its conditions leave, with the values of references. -/
theorem evaluate_eq_prune (data : Data) (file : Option String) (template : Template) :
    template.evaluate data file =
      (template.prune data file).map fun pruned => pruned.write (valueText data) := by
  induction template with
  | nil => rfl
  | literal content rest ih =>
      rw [evaluate, prune, ih]
      cases rest.prune data file <;> rfl
  | reference names rest ih =>
      rw [evaluate, prune, ih]
      cases rest.prune data file <;> rfl
  | block condition body rest ihbody ihrest =>
      rw [evaluate, prune, ihbody, ihrest]
      cases holds data file condition with
      | error reason => rfl
      | ok holds =>
          cases holds with
          | false =>
              cases rest.prune data file with
              | error reason => rfl
              | ok following => rfl
          | true =>
              cases body.prune data file with
              | error reason => rfl
              | ok inner =>
                  cases rest.prune data file with
                  | error reason => rfl
                  | ok following =>
                      exact congrArg Except.ok (write_append (valueText data) inner following).symm

/-- Errors may be given their file before or afterwards. -/
theorem mapError_prune (data : Data) (file : String) (template : Template) :
    (template.prune data none).mapError (Halt.map fun error => error.locatedIn file) =
      template.prune data (some file) := by
  have hholds : ∀ condition, holds data (some file) condition =
      (holds data none condition).mapError (Halt.map fun error => error.locatedIn file) := by
    intro condition
    unfold holds
    cases Expr.holds condition (Scope.ofData data) with
    | ok value => rfl
    | error reason => cases reason <;> rfl
  induction template with
  | nil => rfl
  | literal content rest ih =>
      rw [prune, prune, ← ih]
      cases rest.prune data none <;> rfl
  | reference names rest ih =>
      rw [prune, prune, ← ih]
      cases rest.prune data none <;> rfl
  | block condition body rest ihbody ihrest =>
      rw [prune, prune, ← ihbody, ← ihrest, hholds]
      cases holds data none condition with
      | error reason => rfl
      | ok holds =>
          cases holds with
          | false => cases rest.prune data none <;> rfl
          | true =>
              cases body.prune data none with
              | error reason => rfl
              | ok inner => cases rest.prune data none <;> rfl

/-! ## What the scans see of a template -/

/-- No place of a template begins an include, not even one that a comment could end in. -/
theorem everywhere_no_include {inside : Bool} (h : template.Proper inside) (rest : List Char) :
    Everywhere (fun text => Comment.includeLength? .standard text = none) template.print rest := by
  have hopening : ∀ text, Delimiters.standard.opening.isPrefixOf text = false →
      Comment.includeLength? .standard text = none := fun _ => Comment.includeLength?_of_no_opening
  induction template generalizing inside rest with
  | nil => exact .nil _ rest
  | literal content following ih =>
      exact Everywhere.append (.of_plain hopening h.1 _) (ih h.2.2 rest)
  | reference names following ih =>
      exact Everywhere.append (Comment.no_include_reference h.1.not_mem h.1.exists_cons
        (h.1.not_begins (List.mem_cons_self : "include".toList ∈ directiveNames)
          (ends_of_startsApart h.2.1 mention rest))) (ih h.2.2 rest)
  | block condition body following ihbody ihrest =>
      have hfront : '@' ∉ 'i' :: 'f' :: ' ' :: '(' :: (condition ++ [')', ' ', '\x7b']) := by
        simpa using h.1.signless
      -- only the head of the block begins with signs; what follows is seen piece by piece
      have hsplit : (block condition body following).print =
          '@' :: '@' :: ('i' :: 'f' :: ' ' :: '(' :: (condition ++ [')', ' ', '\x7b'])) ++
            (body.print ++ (['\x7d'] ++ following.print)) := by
        simp [print, write, enclose]
      rw [hsplit]
      refine Everywhere.append
        (Comment.no_include_reference hfront ⟨_, _, rfl, by decide⟩ fun hinclude => ?_)
        (Everywhere.append (ihbody h.2.1 _)
          (Everywhere.append (.of_plain hopening (by decide) _) (ihrest h.2.2 rest)))
      have hletters := (List.cons_prefix_cons.mp hinclude).2
      exact absurd (List.cons_prefix_cons.mp hletters).1 (by decide)

theorem strip_print {inside : Bool} (h : template.Proper inside) :
    Comment.strip .standard template.print = template.print :=
  Comment.strip_of_no_include (everywhere_no_include h [])

/-- The slots of a template for the scan for conditions. -/
def slots : Template → List Slot
  | nil => []
  | literal content rest => .text content :: slots rest
  | reference names rest => .text (mention names) :: slots rest
  | block condition body rest =>
    .found (enclose condition body.print) condition body.print :: slots rest

theorem layout_print {inside : Bool} (h : template.Proper inside) :
    Layout .standard "if".toList .block template.print template.slots := by
  induction template generalizing inside with
  | nil => exact .nil
  | literal content rest ih => exact .text (Directive.silent_of_plain h.1 _) (ih h.2.2)
  | reference names rest ih =>
      exact .text (h.1.silent (by decide) (ends_print h.2.1)) (ih h.2.2)
  | block condition body rest _ ih =>
      exact .found (complete_enclose h.1 (braced_print h.2.1) _) (ih h.2.2)

/-- A template without blocks is silent to all scans for directives, with the values of its
references too. -/
theorem Flat.silent (h : template.Flat) {word : List Char} (hword : word ∈ directiveNames)
    {text : List (List Char) → List Char}
    (htext : ∀ names ∈ template.references, text names = mention names ∨ '@' ∉ text names) :
    Directive.Silent .standard word (template.write text) [] := by
  induction template with
  | nil => exact .nil _ []
  | literal content rest ih =>
      exact Everywhere.append (Directive.silent_of_plain h.1 _) (ih h.2 htext)
  | reference names rest ih =>
      obtain ⟨hname, hrest⟩ := List.forall_mem_cons.mp htext
      refine Everywhere.append ?_ (ih h.2.2 hrest)
      rcases hname with heq | hplain
      · rw [heq]
        exact h.1.silent hword (ends_of_startsApart h.2.1 text [])
      · exact Directive.silent_of_plain hplain _
  | block condition body rest => cases h

/-- The variables of a template without blocks are its references. -/
theorem Flat.outcome_replace (h : template.Flat) (data : Data) :
    (Variable.replace .standard data template.print).outcome =
      .ok (template.write (valueText data)) := by
  induction template with
  | nil => exact Variable.outcome_replace_nil data
  | literal content rest ih =>
      change (Variable.replace .standard data (content ++ rest.print)).outcome = _
      rw [Variable.outcome_replace_plain h.1, ih h.2]
      rfl
  | reference names rest ih =>
      change (Variable.replace .standard data
        ('@' :: '@' :: (Variable.dotted names ++ rest.print))).outcome = _
      rw [Variable.outcome_replace_dotted h.1.1 h.1.ne_nil (ends_print h.2.1)
        (Variable.outcome_dotted h.1.1 h.1.ne_nil data), ih h.2.2]
      rfl
  | block condition body rest => cases h

/-! ## The stages -/

/-- What deciding a block puts in its place. -/
def given (data : Data) (condition body : List Char) : Except (Halt Error) (Option (List Char)) := do
  let held ← holds data none condition
  let inner ← bif held then (Renderer.decided .standard (Scope.ofData data) body).outcome else .ok []
  return some inner

theorem outcome_decided_eq_fill {inside : Bool} (h : template.Proper inside) (data : Data) :
    (Renderer.decided .standard (Scope.ofData data) template.print).outcome =
      Slot.fill (given data) template.slots := by
  rw [Renderer.decided_eq]
  refine Renderer.outcome_replaceDirectives (layout_print h) ?_
  intro directive
  have hholds : Renderer.conditionHolds (Scope.ofData data) directive =
      holds data none directive.args := rfl
  simp only [Run.outcome_bind, Run.outcome_lift, hholds, given]
  cases holds data none directive.args with
  | error reason => rfl
  | ok held =>
      cases held with
      | true =>
          simp only [ok_bind, if_true, Run.outcome_bind]
          rfl
      | false => rfl

/-- Deciding the conditions in the text of a template is deciding them in the tree. -/
theorem outcome_decided {inside : Bool} (h : template.Proper inside) (data : Data) :
    (Renderer.decided .standard (Scope.ofData data) template.print).outcome =
      (template.prune data none).map print := by
  rw [outcome_decided_eq_fill h]
  induction template generalizing inside with
  | nil => rfl
  | literal content rest ih =>
      rw [slots, Slot.fill, ih h.2.2, prune]
      cases rest.prune data none <;> rfl
  | reference names rest ih =>
      rw [slots, Slot.fill, ih h.2.2, prune]
      cases rest.prune data none <;> rfl
  | block condition body rest ihbody ihrest =>
      -- the body is decided by a scan of its own, to which the hypothesis applies
      rw [slots, Slot.fill, given, outcome_decided_eq_fill h.2.1, ihbody h.2.1, ihrest h.2.2, prune]
      cases holds data none condition with
      | error reason => rfl
      | ok held =>
          cases held with
          | false => cases rest.prune data none <;> rfl
          | true =>
              cases body.prune data none with
              | error reason => rfl
              | ok inner =>
                  cases rest.prune data none with
                  | error reason => rfl
                  | ok following =>
                      exact congrArg Except.ok (write_append mention inner following).symm

/-- What references are replaced by holds no sign. -/
def Signless (data : Data) (template : Template) : Prop :=
  ∀ names ∈ template.references, ∀ text,
    Variable.ofNames data names = .replaced text → '@' ∉ text.toList

theorem Signless.valueText (h : template.Signless data) : ∀ names ∈ template.references,
    valueText data names = mention names ∨ '@' ∉ valueText data names := by
  intro names hnames
  unfold Template.valueText
  cases houtcome : Variable.ofNames data names with
  | kept => exact .inl rfl
  | empty => exact .inr (by simp [Variable.Outcome.text])
  | replaced text => exact .inr (h names hnames text houtcome)

end Template

namespace Renderer

variable {renderer : Renderer} {frame : Frame} {template : Template}

/-- The stages before any file is included come to the value of the template. -/
theorem outcome_renderText_template (hdelimiters : renderer.settings.delimiters = .standard)
    (htext : frame.document.text = template.print) (hproper : template.Proper false) :
    (renderer.renderText frame).outcome =
      (template.prune frame.data none).map fun pruned =>
        pruned.write (Template.valueText frame.data) := by
  unfold renderText
  have hdecided := Template.outcome_decided hproper frame.data
  rw [decided] at hdecided
  simp only [hdelimiters, htext, Template.strip_print hproper, Run.outcome_bind, hdecided]
  cases hpruned : template.prune frame.data none with
  | error reason => rfl
  | ok pruned =>
      obtain ⟨hflat, _⟩ := Template.flat_of_prune hproper hpruned
      have hfor : Directive.Silent .standard Loop.directiveName pruned.print [] :=
        hflat.silent (by decide) fun _ _ => .inl rfl
      simp only [Except.map, ok_bind, outcome_replaceDirectives_silent hfor,
        hflat.outcome_replace]

/-- A document that is a template is rendered to what a single pass over its tree gives. -/
theorem renderDocument_template {renderer : Renderer} {document : Document} {data : Option Data}
    {template : Template} (hdelimiters : renderer.settings.delimiters = .standard)
    (htext : document.text = template.print) (hproper : template.Proper false)
    (hsignless : template.Signless
      (Frame.outermost document (renderer.sharedData document) data).data) :
    (renderer.renderDocument document data).outcome =
      template.evaluate (Frame.outermost document (renderer.sharedData document) data).data
        (some document.path.toText) := by
  change (renderer.expandFrame (renderer.renderFrame (2 * renderer.tree.files.length + 1))
    (Frame.outermost document (renderer.sharedData document) data)).outcome = _
  generalize hframe : Frame.outermost document (renderer.sharedData document) data = frame at *
  have hdocument : frame.document = document := by rw [← hframe]; rfl
  rw [← hdocument] at htext ⊢
  unfold expandFrame
  rw [Template.evaluate_eq_prune, ← Template.mapError_prune]
  simp only [Run.outcome_mapError, Run.outcome_bind, hdelimiters,
    outcome_renderText_template hdelimiters htext hproper]
  cases hpruned : template.prune frame.data none with
  | error reason => rfl
  | ok pruned =>
      obtain ⟨hflat, hreferences⟩ := Template.flat_of_prune hproper hpruned
      -- no value holds a sign, so that nothing in their places begins a directive
      have hvalues : ∀ names ∈ pruned.references, _ :=
        fun names hnames => hsignless.valueText names (hreferences hnames)
      have hinclude := hflat.silent (by decide : "include".toList ∈ Template.directiveNames) hvalues
      have hloop := hflat.silent (by decide : "loop".toList ∈ Template.directiveNames) hvalues
      simp only [Except.map, ok_bind, outcome_replaceDirectives_silent hinclude,
        outcome_replaceDirectives_silent hloop]
      rfl

end Renderer

/-! ## A greeting -/

namespace Template

/-- A greeting by name, with a mark for those who are known. -/
def greeting : Template :=
  literal "Hi ".toList (reference ["user".toList, "name".toList] (literal ['!']
    (block "user.known".toList (literal [' '] (reference ["mark".toList] (literal ['!'] nil))) nil)))

/-- The document of the greeting, and the settings with a user in their context. -/
def greetingDocument : Document :=
  ⟨⟨.single, ["site", "index.html"]⟩, ⟨.single, ["site"]⟩, greeting.print⟩

def greetingRenderer : Renderer :=
  ⟨FileTree.empty ["site"] ["home"], { Settings.standard with
    context := [(.str "user", .map (.ofPlace [])
      [(.str "name", .str "Ann"), (.str "known", .bool true)]), (.str "mark", .str "*")] }⟩

/-- The data of the document of the greeting. -/
def greetingData : Data :=
  (Frame.outermost greetingDocument (greetingRenderer.sharedData greetingDocument) none).data

theorem proper_greeting : greeting.Proper false := by
  have hname : IsReference ["user".toList, "name".toList] := by
    refine ⟨?_, _, _, rfl, by decide⟩
    intro name hmem
    simp only [List.mem_cons, List.not_mem_nil, or_false] at hmem
    rcases hmem with rfl | rfl
    · decide
    · decide
  have hmark : IsReference ["mark".toList] := by
    refine ⟨?_, _, _, rfl, by decide⟩
    intro name hmem
    rw [List.mem_singleton.mp hmem]
    decide
  have hcondition : IsCondition "user.known".toList :=
    ⟨⟨.member (.identifier "user") "known", by cbv⟩, by decide, by decide, by decide⟩
  have hbody : Proper true (literal [' '] (reference ["mark".toList] (literal ['!'] nil))) :=
    ⟨by decide, fun _ => by decide, hmark, ⟨by decide, by decide⟩, by decide, fun _ => by decide,
      trivial⟩
  have houtside : ∀ content, false = true → Braced content :=
    fun _ hfalse => absurd hfalse (by decide)
  exact ⟨by decide, houtside _, hname, ⟨by decide, by decide⟩, by decide, houtside _, hcondition,
    hbody, trivial⟩

theorem signless_greeting : greeting.Signless greetingData := by
  have hname : Variable.ofNames greetingData ["user".toList, "name".toList] = .replaced "Ann" := by
    cbv
  have hmark : Variable.ofNames greetingData ["mark".toList] = .replaced "*" := by cbv
  intro names hnames text htext
  have hmem : names ∈ [["user".toList, "name".toList], ["mark".toList]] := hnames
  simp only [List.mem_cons, List.not_mem_nil, or_false] at hmem
  rcases hmem with rfl | rfl
  · rw [hname] at htext
    cases htext
    decide
  · rw [hmark] at htext
    cases htext
    decide

end Template

/-- A greeting is rendered with the name and, since its condition holds, with the mark. -/
theorem Renderer.renderDocument_template_greeting :
    Template.greeting.Proper false ∧ Template.greeting.Signless Template.greetingData ∧
      (Template.greetingRenderer.renderDocument Template.greetingDocument none).outcome =
        .ok "Hi Ann! *!".toList := by
  have hvalue : Template.greeting.evaluate Template.greetingData (some "/site/index.html") =
      .ok "Hi Ann! *!".toList := by cbv
  refine ⟨Template.proper_greeting, Template.signless_greeting, ?_⟩
  rw [Renderer.renderDocument_template rfl rfl Template.proper_greeting Template.signless_greeting]
  exact hvalue

end Transclude
