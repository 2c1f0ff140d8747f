import Stencil.Proofs.Asking
import Stencil.Proofs.Nesting
import Stencil.Proofs.Paths
import Stencil.Snippet.Files

/-!
# Which snippet files are opened

The path of a snippet's file is made of the name as it is, and a name can come from anywhere: it is
written in a call, or a variable holds it. So a rendering opens the paths of the names that its
calls ask for, and what these paths are is up to the names. An absolute name leaves the folder of
the snippets aside, and two dots lead out of it. Names without a slash stay in the folder, unless
they make dots together with the extension.
-/

namespace Stencil

open Rendering

variable {σ : Type}

/-! ### Names that calls ask for -/

namespace Request

/-- No quotes are left in a name that is called. -/
theorem unquoted_snippetName (request : Request) (caller : Context) :
    Unquoted (request.snippetName caller) := by
  have removed (text : String) : Unquoted (unquoted text) := by
    intro c member
    rw [unquoted, String.toList_ofList, List.mem_filter, Bool.not_eq_true'] at member
    exact member.2
  simp only [snippetName]
  split <;> exact removed _

end Request

/-- The name that a call asks for has no quotes. -/
theorem Execution.unquoted_of_asked? {execution : Execution σ} {name : String}
    (asked : execution.asked? = some name) : Unquoted name := by
  simp only [asked?] at asked
  split at asked
  · cases asked
  · cases asked
    exact Request.unquoted_snippetName _ _

namespace Environment

/-- The files in which an environment looks for snippets. -/
def files (env : Environment σ) : SnippetFiles := ⟨env.options.snippetsDir, env.options.extension⟩

/-- The names for which a rendering asks the source, in order. -/
def asked (env : Environment σ) (source : Source σ) (template : Template) (assigns : Value) :
    List String :=
  match scope assigns with
  | .error _ => []
  | .ok outermost =>
    (template.executions (env.engine source) ⟨.top outermost, "", env.store⟩).filterMap
      Execution.asked?

variable {source : Source σ} {template : Template} {assigns : Value}

/-- After a rendering the source was asked for these names and no others. -/
theorem source_render (env : Environment σ) (source : Source σ) (template : Template)
    (assigns : Value) :
    (env.render source template assigns).2.store.source =
      source.afterAsking (env.asked source template assigns) env.store.source := by
  cases given : scope assigns with
  | error e =>
    simp only [render_of_no_scope given, asked, given]
    rfl
  | ok outermost =>
    simp only [render_of_scope given, asked, given]
    exact template.source_after (env.engine source) ⟨.top outermost, "", env.store⟩

/-- Names that are asked for have no quotes. -/
theorem unquoted_of_mem_asked {env : Environment σ} {name : String}
    (member : name ∈ env.asked source template assigns) : Unquoted name := by
  unfold asked at member
  split at member
  · cases member
  · obtain ⟨execution, -, asked⟩ := List.mem_filterMap.mp member
    exact execution.unquoted_of_asked? asked

/-- A call of the snippet that a variable names asks for that name, if it has no quotes and the
store does not hold it. -/
theorem mem_asked_of_variable {env : Environment σ} {name : String} (plain : Unquoted name)
    (missing : env.store.held name = none) :
    name ∈ env.asked source [.call (.plain "page".toList)] (.object [("page", .string name)]) := by
  let start : Run σ := ⟨.top [("page", .string name)], "", env.store⟩
  have called : (Request.plain "page".toList).snippetName start.context = name := by
    have held : start.context.get? (String.ofList "page".toList) = some (.string name) := rfl
    simp only [Request.snippetName, Request.plain, held, Option.some_or]
    exact (Request.unquoted_eq_self_iff name).mpr plain
  have asked : Execution.asked? ⟨.plain "page".toList, start⟩ = some name := by
    have left : start.context.levelsLeft ≠ 0 := Nat.succ_ne_zero 99
    have notHeld : start.store.held name = none := missing
    simp only [Execution.asked?, called, left, notHeld, Option.isSome_none, Bool.false_eq_true,
      or_self, if_false]
  obtain ⟨later, executed⟩ :=
    Template.executions_call (env.engine source) (.plain "page".toList) start
  show name ∈ List.filterMap Execution.asked? _
  rw [executed, List.filterMap_cons, asked]
  exact List.mem_cons_self

end Environment

/-! ### Files of names -/

namespace SnippetFiles

/-- What stands for the file of a name, in the folder or on its own. -/
def file (files : SnippetFiles) (name : String) : String := name ++ "." ++ files.extension

variable {files : SnippetFiles} {name : String}

/-- A file starts where its name starts. -/
theorem isAbsolute_file (files : SnippetFiles) (name : String) :
    Path.isAbsolute (files.file name) = Path.isAbsolute name := by
  by_cases empty : name = ""
  · have dot : name ++ "." = "." := by rw [empty, String.empty_append]
    rw [file, dot, empty, Path.isAbsolute_append (by decide)]
    decide +kernel
  · rw [file, String.append_assoc]
    exact Path.isAbsolute_append empty _

/-- An absolute name leaves the folder aside. -/
theorem path_of_absolute (absolute : Path.isAbsolute name = true) :
    files.path name = files.file name := by
  have starts : (files.file name).startsWith "/" = true :=
    (files.isAbsolute_file name).trans absolute
  show Path.join files.folder (files.file name) = files.file name
  rw [Path.join, starts, Bool.true_or, if_pos rfl]

/-- So it has to name the folder itself for its path to lie there. -/
theorem below_path_iff_of_absolute (absolute : Path.isAbsolute name = true) :
    Path.Below files.folder (files.path name) ↔ Path.isAbsolute files.folder = true ∧
      Path.resolved files.folder <+: Path.resolved (files.file name) ∧
      Path.resolved files.folder ≠ Path.resolved (files.file name) := by
  rw [path_of_absolute absolute]
  exact Path.below_iff_of_absolute ((files.isAbsolute_file name).trans absolute) files.folder

/-- Any other name is looked for from the folder on. -/
theorem below_path_iff (relative : Path.isAbsolute name = false) :
    Path.Below files.folder (files.path name) ↔ Path.Descends files.folder (files.file name) :=
  Path.below_join_iff ((files.isAbsolute_file name).trans relative) files.folder

/-- A name without a slash stays in the folder, unless it makes dots with the extension. -/
theorem below_path_of_name (whole : '/' ∉ name.toList) (flat : '/' ∉ files.extension.toList)
    (dot : files.file name ≠ ".") (dots : files.file name ≠ "..") :
    Path.Below files.folder (files.path name) := by
  have text : (files.file name).toList = name.toList ++ '.' :: files.extension.toList := by
    rw [file, String.toList_append, String.toList_append, List.append_assoc]
    rfl
  have flatFile : '/' ∉ (files.file name).toList := by
    rw [text]
    simp only [List.mem_append, List.mem_cons, whole, flat, or_false, false_or]
    decide
  have nonempty : files.file name ≠ "" := by
    rw [Ne, ← String.toList_inj, text]
    exact List.append_ne_nil_of_right_ne_nil _ (List.cons_ne_nil _ _)
  have leads : Path.stays (files.file name) = false := by
    simp only [Path.stays, nonempty, dot, decide_false, Bool.or_self]
  exact Path.below_join_of_name flatFile leads dots files.folder

/-- Some name leads outside of any folder but the root. -/
theorem exists_outside (flat : '/' ∉ files.extension.toList)
    (inside : Path.isAbsolute files.folder = false ∨ Path.resolved files.folder ≠ []) :
    ∃ name, Unquoted name ∧ ¬Path.Below files.folder (files.path name) := by
  have absolute : Path.isAbsolute "/x" = true := by decide +kernel
  have file : files.file "/x" = "" ++ "/" ++ ("x." ++ files.extension) := by
    rw [SnippetFiles.file, ← String.append_assoc]
    rfl
  have text : ("x." ++ files.extension).toList = 'x' :: '.' :: files.extension.toList := by
    rw [String.toList_append]
    rfl
  have different (other : String) (short : other.toList.head? ≠ some 'x') :
      "x." ++ files.extension ≠ other := by
    rintro rfl
    exact short (by rw [text]; rfl)
  have flatFile : '/' ∉ ("x." ++ files.extension).toList := by
    rw [text]
    simp only [List.mem_cons, flat, or_false]
    decide
  have leads : Path.stays ("x." ++ files.extension) = false := by
    simp only [Path.stays, different "" (by decide), different "." (by decide), decide_false,
      Bool.or_self]
  have left : Path.resolved (files.file "/x") = ["x." ++ files.extension] := by
    rw [Path.resolved, file, Path.steps_append, Path.steps_empty, List.nil_append,
      Path.steps_of_name flatFile leads, List.foldl_cons,
      Path.advance_of_ne (different ".." (by decide))]
    rfl
  have plain : Unquoted "/x" := (Request.unquoted_eq_self_iff "/x").mp (by decide +kernel)
  refine ⟨"/x", plain, fun below => ?_⟩
  obtain ⟨root, starts, different⟩ := (below_path_iff_of_absolute absolute).mp below
  rw [left] at starts different
  rcases inside with relative | nonempty
  · rw [relative] at root
    cases root
  · -- One step is all that there is, so the folder would be the file.
    rcases List.prefix_cons_iff.mp starts with empty | ⟨rest, folder, more⟩
    · exact nonempty empty
    · rw [List.prefix_nil.mp more] at folder
      exact different folder

/-- Asking files for names opens their paths in turn. -/
theorem afterAsking_source (files : SnippetFiles) (read : String → FileText)
    (asked opened : List String) :
    (files.source read).afterAsking asked opened = (asked.map files.path).reverse ++ opened := by
  induction asked generalizing opened with
  | nil => rfl
  | cons name asked inductionHypothesis =>
    have first : (files.source read).afterAsking (name :: asked) opened =
        (files.source read).afterAsking asked (files.path name :: opened) := rfl
    rw [first, inductionHypothesis, List.map_cons, List.reverse_cons, List.append_assoc,
      List.singleton_append]

end SnippetFiles

namespace Environment

/-- The path of a name without quotes is opened if a variable holds it whose snippet is called. -/
theorem opens_path_of_variable (options : Options) (files : SnippetFiles)
    (read : String → FileText) {name : String} (plain : Unquoted name) :
    files.path name ∈ ((Environment.new options []).renderText (files.source read)
      "\x7b% render page %\x7d" (.object [("page", .string name)])).2.store.source := by
  have parsed : (Environment.new options ([] : List String)).parse "\x7b% render page %\x7d" =
      .ok [.call (.plain "page".toList)] := by
    have read : Template.parse .standard "\x7b% render page %\x7d".toList =
        .ok [.call (.plain "page".toList)] := by cbv
    exact congrArg (Except.mapError Error.malformed) read
  have asked : name ∈ (Environment.new options []).asked (files.source read)
      [.call (.plain "page".toList)] (.object [("page", .string name)]) :=
    mem_asked_of_variable plain rfl
  simp only [renderText, parsed]
  rw [source_render, files.afterAsking_source]
  exact List.mem_append_left _ (List.mem_reverse.mpr (List.mem_map_of_mem asked))

end Environment

/-- Which paths a rendering opens, and which of them lie below the folder of the snippets. These
are the paths of the names that calls ask for, in order, and such names have no quotes. A relative
name leads below the folder exactly if it descends from there. An absolute one leaves the folder
aside, so it has to name the folder itself. A name without a slash stays inside, unless it makes
dots with the extension. Nothing else stands in the way of a name: each one without quotes is
asked for if a variable holds it, so if the folder is not the root, one that leads outside is. -/
theorem opened_paths_placed (env : Environment (List String)) (read : String → FileText)
    (flat : '/' ∉ env.options.extension.toList) (template : Template) (assigns : Value) :
    let files := env.files
    let source := files.source read
    let asked := env.asked source template assigns
    ((env.render source template assigns).2.store.source =
        (asked.map files.path).reverse ++ env.store.source ∧ ∀ name ∈ asked, Unquoted name) ∧
      (∀ name, Path.isAbsolute name = false →
        (Path.Below files.folder (files.path name) ↔
          Path.Descends files.folder (files.file name))) ∧
      (∀ name, Path.isAbsolute name = true → files.path name = files.file name ∧
        (Path.Below files.folder (files.path name) ↔ Path.isAbsolute files.folder = true ∧
          Path.resolved files.folder <+: Path.resolved (files.file name) ∧
          Path.resolved files.folder ≠ Path.resolved (files.file name))) ∧
      (∀ name, '/' ∉ name.toList → files.file name ≠ "." → files.file name ≠ ".." →
        Path.Below files.folder (files.path name)) ∧
      (∀ name, Unquoted name → files.path name ∈
        ((Environment.new env.options []).renderText source "\x7b% render page %\x7d"
          (.object [("page", .string name)])).2.store.source) ∧
      (Path.isAbsolute files.folder = false ∨ Path.resolved files.folder ≠ [] →
        ∃ name, Unquoted name ∧ ¬Path.Below files.folder (files.path name)) := by
  intro files source asked
  refine ⟨⟨?_, fun name => Environment.unquoted_of_mem_asked⟩,
    fun name => SnippetFiles.below_path_iff,
    fun name absolute => ⟨SnippetFiles.path_of_absolute absolute,
      SnippetFiles.below_path_iff_of_absolute absolute⟩,
    fun name whole => SnippetFiles.below_path_of_name whole flat,
    fun name => Environment.opens_path_of_variable env.options files read,
    SnippetFiles.exists_outside flat⟩
  rw [env.source_render, files.afterAsking_source]

/-- A name that leads out of the folder and in again is asked for, and its path lies below. -/
theorem returning_path_placed :
    let env : Environment (List String) := .new ⟨"site/snippets", "liquid", true⟩ []
    let path := "site/snippets/../snippets/card.liquid"
    '/' ∉ env.options.extension.toList ∧
      (∀ read : String → FileText, path ∈ (env.renderText (env.files.source read)
        "\x7b% render page %\x7d" (.object [("page", .string "../snippets/card")])).2.store.source) ∧
      Path.Below env.files.folder path := by
  intro env path
  have flat : '/' ∉ env.options.extension.toList := by decide
  have plain : Unquoted "../snippets/card" :=
    (Request.unquoted_eq_self_iff _).mp (by decide +kernel)
  have whole : env.files.path "../snippets/card" = path := by decide +kernel
  refine ⟨flat, fun read => ?_, ?_⟩
  · obtain ⟨-, -, -, -, opened, -⟩ := opened_paths_placed env read flat [] .null
    exact whole ▸ opened "../snippets/card" plain
  · obtain ⟨-, relative, -⟩ := opened_paths_placed env (fun _ => .missing) flat [] .null
    have folder : Path.resolved env.files.folder = ["site", "snippets"] := by
      rw [Path.resolved, Path.steps_eq]
      decide +kernel
    have file : Path.resolved (env.files.file "../snippets/card") =
        ["..", "snippets", "card.liquid"] := by
      rw [Path.resolved, Path.steps_eq]
      decide +kernel
    rw [← whole]
    refine (relative "../snippets/card" (by decide +kernel)).mpr
      ⟨1, ["snippets"], ["card.liquid"], file, by decide, by decide, ⟨["site"], folder.symm⟩, ?_⟩
    exact .inl rfl

/-- A rendering opens a path outside of the folder if the name that a variable holds leads there. -/
theorem path_outside_opened : ¬∀ (options : Options) (read : String → FileText) (text : String)
    (assigns : Value), '/' ∉ options.extension.toList →
    let env : Environment (List String) := .new options []
    ∀ path ∈ (env.renderText (env.files.source read) text assigns).2.store.source,
      Path.Below options.snippetsDir path := by
  intro below
  have plain : Unquoted "../secret" := (Request.unquoted_eq_self_iff _).mp (by decide +kernel)
  have opened := Environment.opens_path_of_variable .default ⟨"snippets", "liquid"⟩
    (fun _ => .found "key") plain
  obtain ⟨-, inner, -, -, whole⟩ := below .default _ _ _ (by decide) _ opened
  have folder : Path.resolved "snippets" = ["snippets"] := by
    rw [Path.resolved, Path.steps_eq]
    decide +kernel
  have file : Path.resolved (SnippetFiles.path ⟨"snippets", "liquid"⟩ "../secret") =
      ["secret.liquid"] := by
    rw [Path.resolved, Path.steps_eq]
    decide +kernel
  have first : "secret.liquid" = "snippets" := by
    rw [file, Options.default, folder] at whole
    exact (List.cons.inj whole).1
  exact absurd first (by decide)

end Stencil
