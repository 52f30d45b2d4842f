/-
Stencil/Proofs/DirectoryPaths.lean

Where the files of a directory of sources lie.  A path is split at its slashes
(`pathPieces_join`), and so its components are known from those of the paths that it is
joined from: behind any base, a path that neither starts at the root nor at `.` adds its
steps and nothing else (`components_joinPaths`).

The main result, `path_below_base`: an identifier is taken exactly if all that it says is
names, and then the path that is read is that of the base with one or more names behind
it.  What is joined from names by slashes is taken.
-/
import Mathlib
import Stencil.Proofs.Splitting
import Stencil.Sources

namespace Stencil

variable {path identifier : String}

/-! ### Pieces -/

namespace Text

/-- The characters of a part are those of the text. -/
theorem Parts.subset {separator cs : List Char} {parts : List (List Char)} (h : Parts separator cs parts) :
    ∀ part ∈ parts, part ⊆ cs := by
  induction h with
  | last => exact List.forall_mem_singleton.mpr (List.Subset.refl _)
  | part _ _ ih =>
    refine List.forall_mem_cons.mpr ⟨fun c hc => by simp [hc], fun part hpart c hc => ?_⟩
    exact List.mem_append_right _ (ih part hpart hc)

/-- Around a mark, the parts of a text are those of the text in front and those of the text behind. -/
theorem splitAll_append (mark : Char) (front after : List Char) :
    splitAll [mark] (front ++ mark :: after) = splitAll [mark] front ++ splitAll [mark] after := by
  have hmark : [mark] ≠ [] := List.cons_ne_nil _ _
  have hparts := parts_splitAll hmark front
  generalize splitAll [mark] front = parts at hparts ⊢
  induction hparts with
  | @last cs hno =>
    have hcut : mark ∉ cs := fun hmem => hno ((List.singleton_infix_iff _ _).mpr hmem)
    rw [splitAll_eq hmark, splitFirst?_mark hcut]
    rfl
  | @part before rest parts hfirst _ ih =>
    have hcut := hfirst.splitFirst? hmark (rest ++ mark :: after)
    rw [splitAll_eq hmark, List.append_assoc _ rest, hcut, List.cons_append, ← ih]

end Text

/-- The pieces of a path that is joined from two by a slash are those of the two. -/
theorem pathPieces_join (front after : String) :
    pathPieces (front ++ "/" ++ after) = pathPieces front ++ pathPieces after := by
  have hchars : (front ++ "/" ++ after).toList = front.toList ++ '/' :: after.toList := by
    rw [String.toList_append, String.toList_append, List.append_assoc]
    rfl
  rw [pathPieces, hchars, Text.splitAll_append, List.map_append]
  rfl

theorem pathPieces_slash (path : String) : pathPieces (path ++ "/") = pathPieces path ++ [""] := by
  have hjoin := pathPieces_join path ""
  rwa [String.append_empty] at hjoin

theorem pathPieces_ne_nil (path : String) : pathPieces path ≠ [] := by
  rw [pathPieces, Ne, List.map_eq_nil_iff]
  exact (Text.parts_splitAll (List.cons_ne_nil _ _) _).ne_nil

theorem slash_notMem_of_mem_pathPieces {piece : String} (h : piece ∈ pathPieces path) :
    '/' ∉ piece.toList := by
  obtain ⟨cs, hcs, rfl⟩ := List.mem_map.mp h
  have hno := (Text.parts_splitAll (List.cons_ne_nil _ _) path.toList).apart (List.cons_ne_nil _ _) cs hcs
  rw [String.toList_ofList, ← List.singleton_infix_iff]
  exact hno

/-- A path without a slash is one piece. -/
theorem pathPieces_of_notMem (h : '/' ∉ path.toList) : pathPieces path = [path] := by
  rw [pathPieces, Text.splitAll_eq (List.cons_ne_nil _ _), Text.splitFirst?_mark_eq_none h]
  simp [String.ofList_toList]

/-- Only a path that is empty or starts with a slash has an empty piece first. -/
theorem head?_pathPieces_ne (hne : path ≠ "") (hstart : path.toList.head? ≠ some '/') :
    (pathPieces path).head? ≠ some "" := by
  rw [pathPieces, Text.splitAll_eq (List.cons_ne_nil _ _)]
  cases hsplit : Text.splitFirst? ['/'] path.toList with
  | none => simpa [String.ofList_toList] using hne
  | some split =>
    obtain ⟨front, after⟩ := split
    obtain ⟨hpath, -⟩ := (Text.splitFirst?_eq_some_iff (List.cons_ne_nil _ _)).mp hsplit
    have hfront : front ≠ [] := by
      rintro rfl
      exact hstart (by rw [hpath]; rfl)
    simpa using hfront

/-- An absolute path has an empty piece first. -/
theorem head?_pathPieces_of_slash (hstart : path.toList.head? = some '/') :
    (pathPieces path).head? = some "" := by
  obtain ⟨after, hpath⟩ := List.head?_eq_some_iff.mp hstart
  have hcut := Text.splitFirst?_mark (List.not_mem_nil (a := '/')) after
  rw [pathPieces, hpath, Text.splitAll_eq (List.cons_ne_nil _ _), ← List.nil_append ('/' :: after), hcut]
  rfl

/-- A character of a piece is one of the path. -/
theorem mem_of_mem_pathPieces {piece : String} (h : piece ∈ pathPieces path) {c : Char}
    (hc : c ∈ piece.toList) : c ∈ path.toList := by
  obtain ⟨cs, hcs, rfl⟩ := List.mem_map.mp h
  rw [String.toList_ofList] at hc
  exact (Text.parts_splitAll (List.cons_ne_nil _ _) path.toList).subset cs hcs hc

/-! ### Components -/

theorem mem_pathSteps {piece : String} :
    piece ∈ pathSteps path ↔ piece ∈ pathPieces path ∧ piece ≠ "" ∧ piece ≠ "." := by
  simp [pathSteps]

theorem pathStart?_eq_none_iff :
    pathStart? path = none ↔
      path.toList.head? ≠ some '/' ∧ (pathPieces path).head? ≠ some "." := by
  rw [pathStart?]
  split_ifs with hroot hhere <;> simp [*]

/-- A path that starts nowhere in particular starts with a name or a step up. -/
theorem pathSteps_ne_nil (hne : path ≠ "") (h : pathStart? path = none) : pathSteps path ≠ [] := by
  obtain ⟨hroot, hhere⟩ := pathStart?_eq_none_iff.mp h
  have hfirst := head?_pathPieces_ne hne hroot
  obtain ⟨first, rest, hpieces⟩ := List.exists_cons_of_ne_nil (pathPieces_ne_nil path)
  rw [hpieces, List.head?_cons, Ne, Option.some_inj] at hfirst hhere
  have hmem : first ∈ pathPieces path := hpieces ▸ List.mem_cons_self
  exact List.ne_nil_of_mem (mem_pathSteps.mpr ⟨hmem, hfirst, hhere⟩)

/-! ### Joining -/

theorem pathSteps_join (front after : String) :
    pathSteps (front ++ "/" ++ after) = pathSteps front ++ pathSteps after := by
  rw [pathSteps, pathPieces_join, List.filter_append]
  rfl

theorem pathSteps_slash (path : String) : pathSteps (path ++ "/") = pathSteps path := by
  rw [pathSteps, pathPieces_slash, List.filter_append]
  exact List.append_nil _

/-- Where a path starts is known as soon as it has a slash. -/
theorem pathStart?_join (front after : String) :
    pathStart? (front ++ "/" ++ after) = pathStart? (front ++ "/") := by
  have hpieces : (pathPieces (front ++ "/" ++ after)).head? = (pathPieces (front ++ "/")).head? := by
    obtain ⟨first, rest, hfront⟩ := List.exists_cons_of_ne_nil (pathPieces_ne_nil front)
    rw [pathPieces_slash, pathPieces_join, hfront]
    rfl
  have hchars : (front ++ "/" ++ after).toList.head? = (front ++ "/").toList.head? := by
    rw [String.toList_append]
    exact List.head?_append_of_ne_nil _ (by simp)
  rw [pathStart?, pathStart?, hpieces, hchars]

/-- A slash behind a path does not change where it starts, unless it is the whole path. -/
theorem pathStart?_slash (hne : path ≠ "") : pathStart? (path ++ "/") = pathStart? path := by
  have hpieces : (pathPieces (path ++ "/")).head? = (pathPieces path).head? := by
    obtain ⟨first, rest, hpath⟩ := List.exists_cons_of_ne_nil (pathPieces_ne_nil path)
    rw [pathPieces_slash, hpath]
    rfl
  have hchars : (path ++ "/").toList.head? = path.toList.head? := by
    rw [String.toList_append]
    exact List.head?_append_of_ne_nil _ (by simpa using hne)
  rw [pathStart?, pathStart?, hpieces, hchars]

theorem components_join (front after : String) :
    components (front ++ "/" ++ after) = components (front ++ "/") ++ pathSteps after := by
  rw [components, components, pathStart?_join, pathSteps_join, pathSteps_slash, List.append_assoc]

theorem components_slash (hne : path ≠ "") : components (path ++ "/") = components path := by
  rw [components, components, pathStart?_slash hne, pathSteps_slash]

/-- A path followed by another: an absolute one replaces it, any other goes on behind a slash. -/
def joinPaths (base path : String) : String :=
  if path.toList.head? = some '/' then path
  else if base.isEmpty || base.toList.getLast? = some '/' then base ++ path
  else base ++ "/" ++ path

/-- Behind a base, a path that starts nowhere in particular adds its steps. -/
theorem components_joinPaths (h : pathStart? path = none) (base : String) :
    components (joinPaths base path) = components base ++ pathSteps path := by
  rw [joinPaths, if_neg (pathStart?_eq_none_iff.mp h).1]
  by_cases hempty : base = ""
  · subst hempty
    have hbase : components "" = [] := by decide
    rw [if_pos (by simp), String.empty_append, hbase, components, h]
    rfl
  · by_cases hslash : base.toList.getLast? = some '/'
    · obtain ⟨front, hfront⟩ := List.getLast?_eq_some_iff.mp hslash
      obtain rfl : base = String.ofList front ++ "/" := by
        rw [← String.toList_inj, hfront]
        simp
      rw [if_pos (by simp), components_join]
    · rw [if_neg (by simp [hempty, hslash]), components_join, components_slash hempty]

/-! ### Identifiers -/

/-- The text has none of the characters that identifiers do not have. -/
def IsAllowed (text : String) : Prop := ∀ c ∈ text.toList, c ≠ '\n' ∧ c ≠ '\r' ∧ c ≠ '\x00'

/-- The text is the name of a file or a directory below another, and can occur in an identifier. -/
structure IsPlainName (name : String) : Prop where
  ne_empty : name ≠ ""
  ne_here : name ≠ "."
  ne_up : name ≠ ".."
  noSlash : '/' ∉ name.toList
  allowed : IsAllowed name

theorem any_isForbidden_eq_false_iff {text : String} :
    text.toList.any isForbidden = false ↔ IsAllowed text := by
  simp [IsAllowed, isForbidden, and_assoc]

theorem IsAllowed.append {text more : String} (h : IsAllowed text) (hmore : IsAllowed more) :
    IsAllowed (text ++ more) := by
  rw [IsAllowed, String.toList_append]
  exact List.forall_mem_append.mpr ⟨h, hmore⟩

theorem components_of_start (h : pathStart? path = none) : components path = pathSteps path := by
  rw [components, h]
  rfl

/-- All components are names exactly if the path starts nowhere in particular and never steps up. -/
theorem all_isPathName_iff :
    (components path).all isPathName = true ↔ pathStart? path = none ∧ ".." ∉ pathSteps path := by
  have hsteps : (pathSteps path).all isPathName = true ↔ ".." ∉ pathSteps path := by
    rw [List.all_eq_true]
    constructor
    · intro hall hmem
      exact absurd (hall _ hmem) (by decide)
    · intro hup piece hmem
      obtain ⟨hpiece, -, hhere⟩ := mem_pathSteps.mp hmem
      have hslash : piece ≠ "/" := by
        rintro rfl
        exact slash_notMem_of_mem_pathPieces hpiece (by decide)
      have hne : piece ≠ ".." := fun heq => hup (heq ▸ hmem)
      simp [isPathName, hslash, hhere, hne]
  have hstart : (pathStart? path).toList.all isPathName = true ↔ pathStart? path = none := by
    rw [pathStart?]
    split_ifs <;> simp [isPathName]
  rw [components, List.all_append, Bool.and_eq_true, hstart, hsteps]

theorem relativePath?_eq_some_iff {names : Path} :
    relativePath? identifier = some names ↔
      identifier ≠ "" ∧ IsAllowed identifier ∧
      pathStart? identifier = none ∧ ".." ∉ pathSteps identifier ∧ pathSteps identifier = names := by
  have hgood : (identifier.isEmpty || identifier.toList.any isForbidden) = false ↔
      identifier ≠ "" ∧ IsAllowed identifier := by
    rw [Bool.or_eq_false_iff, any_isForbidden_eq_false_iff, String.isEmpty_eq_false_iff]
  rw [← and_assoc, ← hgood, relativePath?]
  split_ifs with hbad hall
  · simp [hbad]
  · obtain ⟨hstart, hup⟩ := all_isPathName_iff.mp hall
    simp [hbad, hstart, hup, components_of_start hstart]
  · simp only [false_iff]
    rintro ⟨-, hstart, hup, -⟩
    exact hall (all_isPathName_iff.mpr ⟨hstart, hup⟩)

/-- The names that an identifier leads down are plain, and there are some. -/
theorem isPlainName_of_mem (hchars : IsAllowed identifier)
    (hup : ".." ∉ pathSteps identifier) : ∀ name ∈ pathSteps identifier, IsPlainName name := by
  intro name hmem
  obtain ⟨hpiece, hne, hhere⟩ := mem_pathSteps.mp hmem
  exact {
    ne_empty := hne
    ne_here := hhere
    ne_up := fun heq => hup (heq ▸ hmem)
    noSlash := slash_notMem_of_mem_pathPieces hpiece
    allowed := fun c hc => hchars c (mem_of_mem_pathPieces hpiece hc) }

/-! ### Names joined by slashes -/

theorem pathPieces_intercalate {names : List String} (hne : names ≠ [])
    (hplain : ∀ name ∈ names, IsPlainName name) : pathPieces ("/".intercalate names) = names := by
  induction names with
  | nil => exact absurd rfl hne
  | cons name rest ih =>
    obtain ⟨hname, hrest⟩ := List.forall_mem_cons.mp hplain
    have hpiece := pathPieces_of_notMem hname.noSlash
    cases rest with
    | nil => rw [String.intercalate_singleton, hpiece]
    | cons next rest =>
      rw [String.intercalate_cons_cons, pathPieces_join, hpiece, ih (List.cons_ne_nil _ _) hrest]
      rfl

theorem isAllowed_intercalate {names : List String} (hplain : ∀ name ∈ names, IsPlainName name) :
    IsAllowed ("/".intercalate names) := by
  induction names with
  | nil => exact nofun
  | cons name rest ih =>
    obtain ⟨hname, hrest⟩ := List.forall_mem_cons.mp hplain
    cases rest with
    | nil => rw [String.intercalate_singleton]; exact hname.allowed
    | cons next rest =>
      have hslash : IsAllowed "/" := List.forall_mem_singleton.mpr (by decide)
      rw [String.intercalate_cons_cons]
      exact (hname.allowed.append hslash).append (ih hrest)

/-- Plain names joined by slashes are taken for a path of these names. -/
theorem relativePath?_intercalate {names : List String} (hne : names ≠ [])
    (hplain : ∀ name ∈ names, IsPlainName name) :
    relativePath? ("/".intercalate names) = some names := by
  have hpieces := pathPieces_intercalate hne hplain
  have hsteps : pathSteps ("/".intercalate names) = names := by
    rw [pathSteps, hpieces, List.filter_eq_self]
    intro name hmem
    simp [(hplain name hmem).ne_empty, (hplain name hmem).ne_here]
  obtain ⟨first, rest, rfl⟩ := List.exists_cons_of_ne_nil hne
  have hfirst := hplain first List.mem_cons_self
  have hstart : pathStart? ("/".intercalate (first :: rest)) = none := by
    refine pathStart?_eq_none_iff.mpr ⟨fun hroot => ?_, ?_⟩
    · have hempty := head?_pathPieces_of_slash hroot
      rw [hpieces] at hempty
      exact hfirst.ne_empty (Option.some.inj hempty)
    · rw [hpieces]
      exact fun hhere => hfirst.ne_here (Option.some.inj hhere)
  refine relativePath?_eq_some_iff.mpr ⟨fun hempty => ?_, isAllowed_intercalate hplain, hstart, ?_, hsteps⟩
  · rw [hempty] at hsteps
    cases hsteps
  · rw [hsteps]
    exact fun hmem => (hplain _ hmem).ne_up rfl

/-! ### Files below a base -/

/-- An identifier is taken exactly if its text is one of a relative path and its components are names. -/
theorem isSome_relativePath?_iff :
    (relativePath? identifier).isSome = true ↔
      identifier ≠ "" ∧ IsAllowed identifier ∧
      identifier.toList.head? ≠ some '/' ∧ (components identifier).head? ≠ some "." ∧
      ".." ∉ components identifier := by
  have hup : ".." ∈ components identifier ↔ ".." ∈ pathSteps identifier := by
    rw [components, List.mem_append, or_iff_right_iff_imp, pathStart?]
    split_ifs <;> simp
  have hstart : pathStart? identifier = none ↔
      identifier.toList.head? ≠ some '/' ∧ (components identifier).head? ≠ some "." := by
    constructor
    · intro hnone
      refine ⟨(pathStart?_eq_none_iff.mp hnone).1, fun hhere => ?_⟩
      rw [components_of_start hnone] at hhere
      exact (mem_pathSteps.mp (List.mem_of_head? hhere)).2.2 rfl
    · rintro ⟨hroot, hhere⟩
      rw [components, pathStart?, if_neg hroot] at hhere
      rw [pathStart?, if_neg hroot]
      split_ifs at hhere ⊢ with hdot
      · exact absurd rfl hhere
      · rfl
  rw [Option.isSome_iff_exists, hup, ← and_assoc (a := _ ≠ some '/'), ← hstart]
  simp only [relativePath?_eq_some_iff, exists_and_left, exists_eq', and_true]

/-- What is read is the text of one of the files, at the path that the identifier names. -/
theorem Directory.read?_eq_some {d : Directory} {text : String} (h : d.read? identifier = some text) :
    ∃ path content, d.path? identifier = some path ∧ (path, content) ∈ d.files ∧
      String.fromUTF8? content = some text := by
  rw [read?] at h
  cases hpath : d.path? identifier with
  | none => rw [hpath] at h; cases h
  | some path =>
    simp only [hpath] at h
    split at h
    · obtain ⟨content, hlookup, htext⟩ := Option.bind_eq_some_iff.mp h
      obtain ⟨before, after, hfiles, -⟩ := List.lookup_eq_some_iff.mp hlookup
      exact ⟨path, content, rfl, by rw [hfiles]; simp, htext⟩
    · cases h

/-- **A directory of sources does not leave its base.**  An identifier is taken exactly if it is not empty,
holds none of the three forbidden characters, is relative, does not start at `.` and never steps up.  The
path of the file is then that of the base with one or more plain names behind it, which are the pieces of
the identifier without the empty ones and those that are `.`; and no other path is read.  Plain names
joined by slashes are always taken. -/
theorem path_below_base (base : String) (files : List (Path × ByteArray)) :
    let d : Directory := ⟨components base, files⟩
    (∀ identifier, (d.path? identifier).isSome = true ↔
      identifier ≠ "" ∧ IsAllowed identifier ∧
      identifier.toList.head? ≠ some '/' ∧ (components identifier).head? ≠ some "." ∧
      ".." ∉ components identifier) ∧
    (∀ identifier path, d.path? identifier = some path →
      components (joinPaths base identifier) = path ∧
      ∃ names, names ≠ [] ∧ (∀ name ∈ names, IsPlainName name) ∧ path = components base ++ names ∧
        names = (pathPieces identifier).filter fun piece => piece ≠ "" && piece ≠ ".") ∧
    (∀ identifier text, d.read? identifier = some text →
      ∃ path content, d.path? identifier = some path ∧ (path, content) ∈ files ∧
        String.fromUTF8? content = some text) ∧
    (∀ names, names ≠ [] → (∀ name ∈ names, IsPlainName name) →
      d.path? ("/".intercalate names) = some (components base ++ names)) := by
  intro d
  refine ⟨fun identifier => ?_, fun identifier path hpath => ?_, fun identifier text => d.read?_eq_some,
    fun names hne hplain => ?_⟩
  · rw [Directory.path?, Option.isSome_map, isSome_relativePath?_iff]
  · obtain ⟨names, hrelative, rfl⟩ := Option.map_eq_some_iff.mp hpath
    obtain ⟨hne, hchars, hstart, hup, rfl⟩ := relativePath?_eq_some_iff.mp hrelative
    exact ⟨components_joinPaths hstart base, _, pathSteps_ne_nil hne hstart,
      isPlainName_of_mem hchars hup, rfl, rfl⟩
  · rw [Directory.path?, relativePath?_intercalate hne hplain, Option.map_some]

/-- A file two names below a base that itself starts at `.`: slashes that are repeated and inner dots
vanish, and a step up from the base is refused. -/
theorem path_below_base_mail :
    let base := "./templates/"
    let path := [".", "templates", "mail", "welcome.html"]
    let d : Directory := ⟨components base, [(path, "Hello".toByteArray)]⟩
    d.path? "mail//./welcome.html" = some path ∧
    components (joinPaths base "mail//./welcome.html") = path ∧
    (∃ names, names ≠ [] ∧ (∀ name ∈ names, IsPlainName name) ∧ path = components base ++ names) ∧
    d.read? "mail//./welcome.html" = some "Hello" ∧
    d.path? "mail/../../secret" = none ∧
    d.path? ("/".intercalate ["mail", "welcome.html"]) = some path := by
  intro base path d
  obtain ⟨htaken, hbelow, -, hjoined⟩ := path_below_base base d.files
  have hpath : d.path? "mail//./welcome.html" = some path := by decide
  obtain ⟨hcomponents, names, hne, hplain, hnames, hpieces⟩ := hbelow _ _ hpath
  have hread : d.read? "mail//./welcome.html" = some "Hello" := by
    have hcontent : String.fromUTF8? "Hello".toByteArray = some "Hello" := by
      rw [String.fromUTF8?, dif_pos "Hello".isValidUTF8]
      rfl
    rw [Directory.read?, hpath]
    exact hcontent
  have hup : d.path? "mail/../../secret" = none := by
    refine Option.not_isSome_iff_eq_none.mp fun hsome => ?_
    obtain ⟨-, -, -, -, hno⟩ := (htaken "mail/../../secret").mp hsome
    exact hno (by decide)
  refine ⟨hpath, hcomponents, ⟨names, hne, hplain, hnames⟩, hread, hup, ?_⟩
  -- the names that the identifier leads down are plain, so they can be joined again
  obtain rfl : names = ["mail", "welcome.html"] := hpieces.trans (by decide)
  exact (hjoined _ hne hplain).trans (congrArg some hnames.symm)

end Stencil
