import Mathlib
import Transclude.Proofs.Paths

/-! # The way from a file back to its base

The way to a directory goes up to the deepest directory above both ends and down from
there by names. Read as a path and put behind the directory where it begins, it leads
to the directory where it ends: every step upwards takes one name away. -/

namespace Transclude.Path

/-- A name that a directory may hold, without the separator of other systems. -/
structure IsComponent (name : String) : Prop where
  nonempty : name ≠ ""
  notHere : name ≠ "."
  notUp : name ≠ ".."
  noSlash : '/' ∉ name.toList
  noBackslash : '\\' ∉ name.toList

instance (name : String) : Decidable (IsComponent name) :=
  decidable_of_iff (name ≠ "" ∧ name ≠ "." ∧ name ≠ ".." ∧ '/' ∉ name.toList ∧ '\\' ∉ name.toList)
    ⟨fun ⟨hempty, hhere, hup, hslash, hbackslash⟩ => ⟨hempty, hhere, hup, hslash, hbackslash⟩,
      fun h => ⟨h.nonempty, h.notHere, h.notUp, h.noSlash, h.noBackslash⟩⟩

/-- A normalized path that begins with one slash. -/
structure IsPlace (path : Path) : Prop where
  root : path.root = .single
  components : ∀ name ∈ path.parts, IsComponent name

/-- A directory lies a number of directories below another one. -/
def LiesBelow (directory : Path) (depth : Nat) (base : Path) : Prop :=
  ∃ names : List String, names.length = depth ∧ directory = base.join ⟨.relative, names⟩

/-- A directory is another one or lies above it. -/
def AtOrAbove (directory other : Path) : Prop :=
  directory.root = other.root ∧ directory.parts <+: other.parts

/-- The deepest directory at or above two. -/
structure IsDeepestCommon (common start target : Path) : Prop where
  aboveStart : common.AtOrAbove start
  aboveTarget : common.AtOrAbove target
  deepest : ∀ other : Path, other.AtOrAbove start → other.AtOrAbove target →
    other.AtOrAbove common

theorem IsPlace.parent {path : Path} (h : path.IsPlace) : path.parent.IsPlace where
  root := h.root
  components name hname := h.components name (List.mem_of_mem_dropLast hname)

/-! ## Up and down -/

/-- What is left of two sequences stands behind their longest common beginning. -/
theorem dropCommon_spec (start target : List String) :
    ∃ common, common ++ (dropCommon start target).1 = start ∧
      common ++ (dropCommon start target).2 = target ∧
      ∀ other, other <+: start → other <+: target → other <+: common := by
  fun_induction dropCommon start target with
  | case1 start first target ih =>
      obtain ⟨common, hstart, htarget, hlongest⟩ := ih
      refine ⟨first :: common, congrArg (first :: ·) hstart, congrArg (first :: ·) htarget, ?_⟩
      intro other hother hother'
      cases other with
      | nil => exact List.nil_prefix
      | cons name other =>
          rw [List.cons_prefix_cons] at hother hother' ⊢
          exact ⟨hother.1, hlongest other hother.2 hother'.2⟩
  | case2 first start other target hne =>
      refine ⟨[], rfl, rfl, fun both hboth hboth' => ?_⟩
      cases both with
      | nil => exact List.nil_prefix
      | cons name both =>
          rw [List.cons_prefix_cons] at hboth hboth'
          exact absurd (hboth.1.symm.trans hboth'.1) hne
  | case3 start target hends =>
      refine ⟨[], rfl, rfl, fun both hboth hboth' => ?_⟩
      cases start with
      | nil => exact hboth
      | cons first start =>
          cases target with
          | nil => exact hboth'
          | cons other target => exact (hends first start other target rfl rfl).elim

/-- A step upwards takes a name away. -/
theorem pushPart_up {absolute : Bool} {name : String} (h : name ≠ "..") (reversed : List String) :
    pushPart absolute (name :: reversed) ".." = reversed := by
  unfold pushPart
  rw [if_pos rfl]
  split
  next heq => cases heq
  next heq => exact absurd (List.cons.inj heq).1 h
  next heq => exact (List.cons.inj heq).2.symm

/-- As many steps upwards as there are names take all of them away. -/
theorem foldl_pushPart_replicate (absolute : Bool) {names : List String}
    (h : ∀ name ∈ names, name ≠ "..") (reversed : List String) :
    (List.replicate names.length "..").foldl (pushPart absolute) (names ++ reversed) =
      reversed := by
  induction names with
  | nil => rfl
  | cons name names ih =>
      obtain ⟨hname, hnames⟩ := List.forall_mem_cons.mp h
      rw [List.length_cons, List.replicate_succ, List.foldl_cons, List.cons_append,
        pushPart_up hname, ih hnames]

/-- Up from the end of a common beginning and down by other names leads behind that beginning. -/
theorem foldl_pushPart_way (absolute : Bool) {common up down : List String}
    (hstart : ∀ name ∈ common ++ up, name ≠ "..") (hdown : ∀ name ∈ down, name ≠ "..") :
    (common ++ up ++ (List.replicate up.length ".." ++ down)).foldl (pushPart absolute) [] =
      (common ++ down).reverse := by
  have hup : ∀ name ∈ up.reverse, name ≠ ".." := fun name hname =>
    hstart name (List.mem_append_right common (List.mem_reverse.mp hname))
  -- names are pushed on in reverse, so that the steps upwards meet the last of them first
  have hback := foldl_pushPart_replicate absolute hup common.reverse
  rw [List.length_reverse] at hback
  rw [List.foldl_append, foldl_pushPart_eq [] hstart, List.append_nil, List.reverse_append,
    List.foldl_append, hback, foldl_pushPart_eq _ hdown, List.reverse_append]

/-- The way from one directory to another leads there. -/
theorem normalize_join_relativeParts {start target : Path} (hstart : start.IsPlace)
    (htarget : target.IsPlace) :
    (start.join ⟨.relative, relativeParts start target⟩).normalize = target := by
  obtain ⟨common, hup, hdown, -⟩ := dropCommon_spec start.parts target.parts
  have hstarts : ∀ name ∈ common ++ (dropCommon start.parts target.parts).1, name ≠ ".." :=
    fun name hname => (hstart.components name (hup ▸ hname)).notUp
  have hends : ∀ name ∈ (dropCommon start.parts target.parts).2, name ≠ ".." :=
    fun name hname => (htarget.components name (hdown ▸ List.mem_append_right common hname)).notUp
  have hway := foldl_pushPart_way start.isAbsolute hstarts hends
  rw [hup, hdown] at hway
  change (⟨start.root, ((start.parts ++ relativeParts start target).foldl
    (pushPart start.isAbsolute) []).reverse⟩ : Path) = target
  rw [relativeParts]
  dsimp only
  rw [hway, List.reverse_reverse, hstart.root, ← htarget.root]

/-! ## The text of the way -/

/-- A part that the way to a place is made of. -/
def IsStep (part : String) : Prop := part = ".." ∨ IsComponent part

theorem IsStep.facts {part : String} (h : IsStep part) :
    part ≠ "" ∧ part ≠ "." ∧ '/' ∉ part.toList ∧ '\\' ∉ part.toList := by
  obtain rfl | h := h
  · decide
  · exact ⟨h.nonempty, h.notHere, h.noSlash, h.noBackslash⟩

theorem isStep_of_mem_relativeParts (start : Path) {target : Path} (htarget : target.IsPlace) :
    ∀ part ∈ relativeParts start target, IsStep part := by
  obtain ⟨common, -, hdown, -⟩ := dropCommon_spec start.parts target.parts
  intro part hpart
  rw [relativeParts] at hpart
  obtain hpart | hpart := List.mem_append.mp hpart
  · exact .inl (List.eq_of_mem_replicate hpart)
  · exact .inr (htarget.components part (hdown ▸ List.mem_append_right common hpart))

/-- Joined parts hold no character that is neither in one of them nor the separator. -/
theorem not_mem_intercalate {c separator : Char} (hc : c ≠ separator) {parts : List (List Char)}
    (h : ∀ part ∈ parts, c ∉ part) : c ∉ [separator].intercalate parts := by
  induction parts with
  | nil => exact List.not_mem_nil
  | cons first rest ih =>
      obtain ⟨hfirst, hrest⟩ := List.forall_mem_cons.mp h
      cases rest with
      | nil => rwa [List.intercalate_singleton]
      | cons second rest =>
          rw [List.intercalate_cons_cons]
          simp [hfirst, hc, ih hrest]

/-- Parts that are joined by a separator begin with the first of them. -/
theorem exists_intercalate_eq_append (separator : List Char) (first : List Char)
    (rest : List (List Char)) : ∃ more, separator.intercalate (first :: rest) = first ++ more := by
  cases rest with
  | nil => exact ⟨[], by rw [List.intercalate_singleton, List.append_nil]⟩
  | cons second rest =>
      exact ⟨separator ++ separator.intercalate (second :: rest), by
        rw [List.intercalate_cons_cons, List.append_assoc]⟩

theorem rootOf_cons {c : Char} (hc : c ≠ '/') (text : List Char) :
    rootOf (c :: text) = .relative := by
  rw [rootOf, List.takeWhile_cons_of_neg (by simpa using hc)]
  rfl

section

variable {first : String} {rest : List String} (h : ∀ part ∈ first :: rest, IsStep part)

include h

/-- A relative path is read back from its parts. -/
theorem ofText_intercalate :
    ofText ("/".intercalate (first :: rest)) = ⟨.relative, first :: rest⟩ := by
  obtain ⟨hempty, -, hslash, -⟩ := (h first (by simp)).facts
  obtain ⟨c, more, hfirst⟩ := List.exists_cons_of_ne_nil (mt String.toList_eq_nil_iff.mp hempty)
  have hc : c ≠ '/' := by
    rintro rfl
    exact hslash (by simp [hfirst])
  have hroot : rootOf (['/'].intercalate ((first :: rest).map String.toList)) = .relative := by
    obtain ⟨behind, hbehind⟩ :=
      exists_intercalate_eq_append ['/'] first.toList (rest.map String.toList)
    rw [List.map_cons, hbehind, hfirst, List.cons_append, rootOf_cons hc]
  have hsplit : (['/'].intercalate ((first :: rest).map String.toList)).splitOn '/' =
      (first :: rest).map String.toList :=
    List.splitOn_intercalate '/'
      (List.forall_mem_map.mpr fun part hpart => (h part hpart).facts.2.2.1) (by simp)
  have hkept : ((first :: rest).map String.toList).filter
      (fun part => part != [] && part != ['.']) = (first :: rest).map String.toList := by
    refine List.filter_eq_self.mpr (List.forall_mem_map.mpr fun part hpart => ?_)
    obtain ⟨hempty, hhere, -⟩ := (h part hpart).facts
    rw [Bool.and_eq_true, bne_iff_ne, bne_iff_ne]
    exact ⟨mt String.toList_eq_nil_iff.mp hempty, fun heq => hhere (String.toList_injective heq)⟩
  have htext : "/".toList = ['/'] := rfl
  rw [ofText, ofChars, String.toList_intercalate, htext, hroot, hsplit, hkept, List.map_map]
  simp

theorem not_mem_intercalate_toList : '\\' ∉ ("/".intercalate (first :: rest)).toList := by
  rw [String.toList_intercalate]
  exact not_mem_intercalate (by decide)
    (List.forall_mem_map.mpr fun part hpart => (h part hpart).facts.2.2.2)

end

/-- The way to a place is written as a path. -/
theorem way_eq_toText (start : Path) {target : Path} (htarget : target.IsPlace) :
    way start target = toText ⟨.relative, relativeParts start target⟩ ∧
      ofText (way start target) = ⟨.relative, relativeParts start target⟩ := by
  have hsteps := isStep_of_mem_relativeParts start htarget
  unfold way
  generalize relativeParts start target = parts at hsteps ⊢
  cases parts with
  | nil => exact ⟨rfl, rfl⟩
  | cons first rest =>
      have hbackslash := not_mem_intercalate_toList hsteps
      have hsame : ("/".intercalate (first :: rest)).toList.map
          (fun c => if c == '\\' then '/' else c) = ("/".intercalate (first :: rest)).toList := by
        refine (List.map_congr_left fun c hc => ?_).trans (List.map_id' _)
        rw [if_neg]
        intro heq
        exact hbackslash (beq_iff_eq.mp heq ▸ hc)
      have htext : toText ⟨.relative, first :: rest⟩ = "/".intercalate (first :: rest) :=
        String.empty_append
      dsimp only
      rw [List.isEmpty_cons, if_neg Bool.false_ne_true, hsame, String.ofList_toList, htext]
      exact ⟨rfl, ofText_intercalate hsteps⟩

/-! ## Common directories -/

/-- From below a directory, and from the directory itself, there is no name to go down by. -/
theorem dropCommon_append (names behind : List String) :
    dropCommon (names ++ behind) names = (behind, []) := by
  induction names with
  | nil => cases behind <;> rfl
  | cons name names ih => rw [List.cons_append, dropCommon, if_pos rfl, ih]

theorem relativeParts_of_below {start target : Path} {names : List String}
    (h : start.parts = target.parts ++ names) :
    relativeParts start target = List.replicate names.length ".." := by
  rw [relativeParts, h, dropCommon_append]
  exact List.append_nil _

theorem relativeParts_eq_nil_iff {start target : Path} :
    relativeParts start target = [] ↔ start.parts = target.parts := by
  constructor
  · obtain ⟨common, hup, hdown, -⟩ := dropCommon_spec start.parts target.parts
    intro h
    obtain ⟨hsteps, hnames⟩ := List.append_eq_nil_iff.mp h
    rw [List.replicate_eq_nil_iff, List.length_eq_zero_iff] at hsteps
    rw [← hup, hsteps, ← hnames, hdown]
  · intro h
    rw [relativeParts_of_below (h.trans (List.append_nil _).symm)]
    rfl

theorem way_eq_here_iff {start target : Path} (hstart : start.IsPlace) (htarget : target.IsPlace) :
    way start target = "." ↔ start = target := by
  obtain ⟨htext, hread⟩ := way_eq_toText start htarget
  -- no name and no step upwards is a point, so that only the empty way is written as one
  have hempty : way start target = "." ↔ relativeParts start target = [] := by
    constructor
    · intro h
      rw [h] at hread
      exact (congrArg Path.parts hread).symm
    · intro h
      rw [htext, h]
      rfl
  rw [hempty, relativeParts_eq_nil_iff]
  constructor
  · intro h
    obtain ⟨root, parts⟩ := start
    obtain ⟨root', parts'⟩ := target
    cases hstart.root
    cases htarget.root
    exact congrArg (Path.mk .single) h
  · exact congrArg Path.parts

/-- The way goes up to the deepest common directory and down from there by names. -/
theorem exists_isDeepestCommon {start target : Path} (hroot : start.root = target.root) :
    ∃ (common : Path) (down : List String), IsDeepestCommon common start target ∧
      common.parts ++ down = target.parts ∧
      relativeParts start target =
        List.replicate (start.parts.length - common.parts.length) ".." ++ down := by
  obtain ⟨common, hup, hdown, hlongest⟩ := dropCommon_spec start.parts target.parts
  refine ⟨⟨start.root, common⟩, (dropCommon start.parts target.parts).2,
    ⟨⟨rfl, ?_⟩, ⟨hroot, ?_⟩, ?_⟩, hdown, ?_⟩
  · exact ⟨_, hup⟩
  · exact ⟨_, hdown⟩
  · exact fun other hstart htarget => ⟨hstart.1, hlongest _ hstart.2 htarget.2⟩
  · have hlength := congrArg List.length hup
    rw [List.length_append] at hlength
    rw [relativeParts, ← hlength, Nat.add_sub_cancel_left]

/-- The way from the directory of a file to a base is the text of a relative path that leads from
there to the base. It says to stay exactly when the file lies directly in the base, goes up once for
each directory when the file lies below the base, and in any case goes up to the deepest common
directory and down from there by names. -/
theorem way_leads_to_base {file base : Path} (hfile : file.IsPlace) (hbase : base.IsPlace) :
    (way file.parent base = "." ↔ file.parent = base) ∧
    ∃ steps : List String, way file.parent base = toText ⟨.relative, steps⟩ ∧
      ofText (way file.parent base) = ⟨.relative, steps⟩ ∧
      (file.parent.join (ofText (way file.parent base))).normalize = base ∧
      (∀ depth, file.parent.LiesBelow depth base → steps = List.replicate depth "..") ∧
      ∃ (common : Path) (down : List String), IsDeepestCommon common file.parent base ∧
        common.parts ++ down = base.parts ∧ ".." ∉ down ∧
        steps = List.replicate (file.parent.parts.length - common.parts.length) ".." ++ down := by
  have hstart := hfile.parent
  obtain ⟨htext, hread⟩ := way_eq_toText file.parent hbase
  obtain ⟨common, down, hcommon, hdown, hsteps⟩ :=
    exists_isDeepestCommon (hstart.root.trans hbase.root.symm)
  have hnames : ".." ∉ down := fun hup =>
    (hbase.components ".." (hdown ▸ List.mem_append_right _ hup)).notUp rfl
  refine ⟨way_eq_here_iff hstart hbase, _, htext, hread, ?_, ?_, common, down, hcommon, hdown,
    hnames, hsteps⟩
  · rw [hread]
    exact normalize_join_relativeParts hstart hbase
  · rintro depth ⟨names, rfl, hbelow⟩
    exact relativeParts_of_below (congrArg Path.parts hbelow)

/-- From `docs` to `do`, whose name is only the beginning of the other one, the way goes up to the
directory that holds both. -/
theorem way_leads_to_base_beside :
    IsPlace ⟨.single, ["site", "docs", "a", "x.html"]⟩ ∧ IsPlace ⟨.single, ["site", "do"]⟩ ∧
    way ⟨.single, ["site", "docs", "a"]⟩ ⟨.single, ["site", "do"]⟩ = "../../do" ∧
    (join ⟨.single, ["site", "docs", "a"]⟩ (ofText "../../do")).normalize =
      ⟨.single, ["site", "do"]⟩ ∧
    ∃ (common : Path) (down : List String),
      IsDeepestCommon common ⟨.single, ["site", "docs", "a"]⟩ ⟨.single, ["site", "do"]⟩ ∧
      common.parts ++ down = ["site", "do"] ∧ ".." ∉ down ∧
      ["..", "..", "do"] = List.replicate (3 - common.parts.length) ".." ++ down := by
  have hfile : IsPlace ⟨.single, ["site", "docs", "a", "x.html"]⟩ := ⟨rfl, by decide⟩
  have hbase : IsPlace ⟨.single, ["site", "do"]⟩ := ⟨rfl, by decide⟩
  have hway : way ⟨.single, ["site", "docs", "a"]⟩ ⟨.single, ["site", "do"]⟩ = "../../do" := by
    decide
  obtain ⟨-, steps, -, hread, hleads, -, common, down, hcommon, hdown, hnames, hsteps⟩ :=
    way_leads_to_base hfile hbase
  have hsteps' : steps = ["..", "..", "do"] := by
    have hread' : ofText (way ⟨.single, ["site", "docs", "a"]⟩ ⟨.single, ["site", "do"]⟩) =
        ⟨.relative, ["..", "..", "do"]⟩ := by decide
    exact congrArg Path.parts (hread.symm.trans hread')
  exact ⟨hfile, hbase, hway, hway ▸ hleads, common, down, hcommon, hdown, hnames, hsteps' ▸ hsteps⟩

end Transclude.Path
