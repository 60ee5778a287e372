/-
`Index/FunctionIndex.lean` -- the functions of a source tree, file by file.

Mirrors `build_sync`, `update_file` and `remove_file` of `FunctionIndex`
(`index/function_index/core.rs`) and `collect_source_files`, `get_language_category` and
`index_file_with_language` (`indexing.rs`). The build walks the tree and groups its files by
language; an update takes the file that it is given.

# Which files

The build takes a file when the walker yields it, its extension is in the build's own list,
and it is not too large (`build_lookup`). An update asks for a language and for nothing else,
and two extensions have a language but are not in the list.

# What an edit changes elsewhere

The walker reads ignore files. An edit of one of them changes which files a build takes, and
no entry of the index.

The index is that of a new build if and only if neither happens to a file that has functions
(`rebuilt_iff`). The walker, the parsers and the extractors are arbitrary.
-/
import Querymt.Library.Encodings
import Querymt.Library.HashMaps
import Querymt.Library.Strings

set_option autoImplicit false

open Encodings Strings HashMaps

namespace Querymt.FunctionIndex

/-! ## 1. Files -/

/-- A path by its components. -/
abbrev PathBuf := List Str

/-- `Path::extension`: what is behind the last dot of the name, if something is before it. -/
def extension (path : PathBuf) : Option Str :=
  match path.getLast? with
  | none => none
  | some name =>
      if name = "..".toList then none
      else
        let ext := name.reverse.takeWhile (· ≠ '.')
        -- the dot and what is before it
        let before := name.reverse.dropWhile (· ≠ '.')
        if before.length ≤ 1 then none else some ext.reverse

/-- The files of a directory, with their contents. -/
structure Tree where
  file : PathBuf → Option (List UInt8)

namespace Tree

def is_file (tree : Tree) (path : PathBuf) : Bool := (tree.file path).isSome

/-- `fs::read_to_string`. -/
def read_to_string (tree : Tree) (path : PathBuf) : Option String :=
  (tree.file path).bind from_utf8

def set (tree : Tree) (path : PathBuf) (content : Option (List UInt8)) : Tree :=
  ⟨fun p => if p = path then content else tree.file p⟩

end Tree

/-- The languages have their names in the source. -/
def get_language_category (ext : Str) : Option String :=
  if (["ts", "tsx", "js", "jsx", "mjs", "cjs"].map String.toList).contains ext then some "typescript"
  else if ext = "rs".toList then some "rust"
  else if ext = "go".toList then some "go"
  else if ext = "java".toList then some "java"
  else if (["c", "h"].map String.toList).contains ext then some "c"
  else if (["cpp", "cc", "cxx", "hpp", "hxx", "c++"].map String.toList).contains ext then
    some "cpp"
  else if ext = "cs".toList then some "csharp"
  else if ext = "rb".toList then some "ruby"
  else if ext = "py".toList then some "python"
  else none

def supported_extensions : List Str :=
  ["ts", "tsx", "js", "jsx", "mjs", "cjs", "rs", "go", "java", "c", "h", "cpp", "hpp", "cc",
    "cxx", "cs", "rb", "py"].map String.toList

/-- `max_file_bytes` is the part of the configuration that the index reads itself. -/
structure FunctionIndexConfig where
  min_function_lines : ℕ
  max_file_bytes : ℕ

/-- The walker of the tree, whether a language has a parser (`SimilarityParser::new`), and what the
extractors read (`index_units` is `index_with_parser`). -/
structure Libraries (Entry : Type) where
  walk : Tree → List PathBuf
  opens : String → Bool
  index_typescript_file : PathBuf → String → FunctionIndexConfig → Except String (List Entry)
  index_units :
    String → PathBuf → String → FunctionIndexConfig → Except String (List Entry)

section

variable {Entry : Type} (libs : Libraries Entry) (config : FunctionIndexConfig)

/-! ## 2. The build -/

def collect_source_files (tree : Tree) : List PathBuf :=
  (libs.walk tree).filter fun path =>
    tree.is_file path && (extension path).any fun ext => supported_extensions.contains ext

/-- A file that is read, not too large, and of a known language. -/
def file_content (tree : Tree) (path : PathBuf) : Option (PathBuf × String × String) :=
  (tree.read_to_string path).bind fun content =>
    if config.max_file_bytes < (as_bytes content).length then none
    else (extension path).bind fun ext =>
      (get_language_category ext).map fun lang => (path, content, lang)

/-- What a language's loop does with a file; a parser or an extraction that fails gives
nothing. -/
def index_group_file (lang : String) (path : PathBuf) (source : String) :
    Option (PathBuf × List Entry) :=
  let entries :=
    if lang = "typescript" then (libs.index_typescript_file path source config).toOption
    else if libs.opens lang then
      (libs.index_units lang path source config).toOption
    else none
  entries.bind fun entries => if entries.isEmpty then none else some (path, entries)

/-- The loop of a language: its files, and the inserts. -/
def index_group (file_contents : List (PathBuf × String × String))
    (functions : HashMap PathBuf (List Entry)) (lang : String) : HashMap PathBuf (List Entry) :=
  let files := file_contents.filter fun f => f.2.2 = lang
  let results := files.filterMap fun f => index_group_file libs config lang f.1 f.2.1
  results.foldl (fun m r => m.insert r.1 r.2) functions

/-- The languages in the order of their loops. -/
def languages : List String :=
  ["typescript", "rust", "go", "java", "c", "cpp", "csharp", "ruby", "python"]

def build_sync (tree : Tree) : HashMap PathBuf (List Entry) :=
  let file_contents := (collect_source_files libs tree).filterMap (file_content config tree)
  languages.foldl (index_group libs config file_contents) ∅

/-! ## 3. Updates -/

def index_file_with_language (path : PathBuf) (source language : String) : List Entry :=
  if language = "typescript" then
    ((libs.index_typescript_file path source config).toOption).getD []
  else if libs.opens language then
    ((libs.index_units language path source config).toOption).getD []
  else []

def update_file (functions : HashMap PathBuf (List Entry)) (path : PathBuf) (source : String) :
    HashMap PathBuf (List Entry) :=
  let ext := (extension path).getD []
  match get_language_category ext with
  | none => functions.erase path
  | some language =>
      let entries := index_file_with_language libs config path source language
      if entries.isEmpty then functions.erase path else functions.insert path entries

def remove_file (functions : HashMap PathBuf (List Entry)) (path : PathBuf) :
    HashMap PathBuf (List Entry) :=
  functions.erase path

/-- An edit of a file inside of the tree. -/
inductive Edit where
  | Write (path : PathBuf) (source : String)
  | Delete (path : PathBuf)

namespace Edit

def path : Edit → PathBuf
  | Write path _ => path
  | Delete path => path

/-- What the edit does to the tree. -/
def edit (tree : Tree) : Edit → Tree
  | Write path source => tree.set path (some (as_bytes source))
  | Delete path => tree.set path none

/-- The call that reports the edit. -/
def report (functions : HashMap PathBuf (List Entry)) : Edit → HashMap PathBuf (List Entry)
  | Write path source => update_file libs config functions path source
  | Delete path => remove_file functions path

end Edit

/-! ## 4. What is compared -/

/-- The functions of a file, whatever its size. -/
def functions_of (path : PathBuf) (source : String) : List Entry :=
  match get_language_category ((extension path).getD []) with
  | none => []
  | some language => index_file_with_language libs config path source language

/-- The extension is in the build's list and the file is not too large. -/
def Eligible (path : PathBuf) (source : String) : Prop :=
  (∃ ext ∈ supported_extensions, extension path = some ext) ∧
    (as_bytes source).length ≤ config.max_file_bytes

/-- Of the files with functions, a new build takes each one that was written, and takes the
others exactly when the first build did. -/
def Current (tree : Tree) (edits : List Edit) : Prop :=
  ∀ path source, (edits.foldl Edit.edit tree).read_to_string path = some source →
    functions_of libs config path source ≠ [] →
      (path ∈ edits.map Edit.path →
        path ∈ libs.walk (edits.foldl Edit.edit tree) ∧ Eligible config path source) ∧
      (path ∉ edits.map Edit.path → Eligible config path source →
        (path ∈ libs.walk (edits.foldl Edit.edit tree) ↔ path ∈ libs.walk tree))

end

/-! ## 5. What a build takes -/

section

variable {Entry : Type} {libs : Libraries Entry} {config : FunctionIndexConfig} {tree : Tree}
  {path : PathBuf} {source : String}

/-- The loops of the build and the update read a file in the same way. -/
theorem index_group_file_eq (lang : String) (path : PathBuf) (source : String) :
    index_group_file libs config lang path source =
      if index_file_with_language libs config path source lang = [] then none
      else some (path, index_file_with_language libs config path source lang) := by
  have hsame : ∀ entries : Option (List Entry),
      (entries.bind fun entries => if entries.isEmpty then none else some (path, entries)) =
        if entries.getD [] = [] then none else some (path, entries.getD []) := by
    intro entries
    cases entries with
    | none => rfl
    | some entries => cases entries <;> rfl
  unfold index_group_file index_file_with_language
  dsimp only
  by_cases hts : lang = "typescript"
  · rw [if_pos hts, if_pos hts, hsame]
  · rw [if_neg hts, if_neg hts]
    by_cases hparser : libs.opens lang = true
    · rw [if_pos hparser, if_pos hparser, hsame]
    · rw [if_neg hparser, if_neg hparser]
      rfl

theorem mem_file_contents {lang : String} (hread : tree.read_to_string path = some source) :
    (path, source, lang) ∈ (collect_source_files libs tree).filterMap (file_content config tree) ↔
      (path ∈ libs.walk tree ∧ Eligible config path source) ∧
        (extension path).bind get_language_category = some lang := by
  have hfile : tree.is_file path = true := by
    obtain ⟨content, hcontent, -⟩ := Option.bind_eq_some_iff.1 hread
    rw [Tree.is_file, hcontent]
    rfl
  rw [List.mem_filterMap]
  constructor
  · rintro ⟨p, hp, hcontent⟩
    obtain ⟨s, hs, hcontent⟩ := Option.bind_eq_some_iff.1 hcontent
    by_cases hsize : config.max_file_bytes < (as_bytes s).length
    · rw [if_pos hsize] at hcontent
      cases hcontent
    · rw [if_neg hsize] at hcontent
      obtain ⟨ext, hext, hlang⟩ := Option.bind_eq_some_iff.1 hcontent
      obtain ⟨l, hl, heq⟩ := Option.map_eq_some_iff.1 hlang
      cases heq
      obtain ⟨hwalk, hkept⟩ := List.mem_filter.1 hp
      rw [hext, Bool.and_eq_true, Option.any_some] at hkept
      exact ⟨⟨hwalk, ⟨ext, List.contains_iff_mem.1 hkept.2, hext⟩, Nat.not_lt.1 hsize⟩,
        by rw [hext]; exact hl⟩
  · rintro ⟨⟨hwalk, ⟨ext, hsupported, hext⟩, hsize⟩, hlang⟩
    rw [hext, Option.bind_some] at hlang
    refine ⟨path, List.mem_filter.2 ⟨hwalk, ?_⟩, ?_⟩
    · rw [hfile, hext]
      exact List.contains_iff_mem.2 hsupported
    · unfold file_content
      rw [hread, Option.bind_some, if_neg (Nat.not_lt.2 hsize), hext, Option.bind_some, hlang]
      rfl

/-- What a build knows of the files that it has read. -/
theorem file_contents_spec {f : PathBuf × String × String}
    (hf : f ∈ (collect_source_files libs tree).filterMap (file_content config tree)) :
    tree.read_to_string f.1 = some f.2.1 ∧
      (extension f.1).bind get_language_category = some f.2.2 := by
  obtain ⟨p, -, hcontent⟩ := List.mem_filterMap.1 hf
  obtain ⟨s, hs, hcontent⟩ := Option.bind_eq_some_iff.1 hcontent
  by_cases hsize : config.max_file_bytes < (as_bytes s).length
  · rw [if_pos hsize] at hcontent
    cases hcontent
  · rw [if_neg hsize] at hcontent
    obtain ⟨ext, hext, hlang⟩ := Option.bind_eq_some_iff.1 hcontent
    obtain ⟨l, hl, rfl⟩ := Option.map_eq_some_iff.1 hlang
    exact ⟨hs, by rw [hext]; exact hl⟩

theorem functions_of_eq {lang : String}
    (hlang : (extension path).bind get_language_category = some lang) :
    functions_of libs config path source = index_file_with_language libs config path source lang := by
  obtain ⟨ext, hext, hcategory⟩ := Option.bind_eq_some_iff.1 hlang
  unfold functions_of
  rw [hext, Option.getD_some, hcategory]

/-- What the loop of a language inserts. -/
theorem mem_results {lang : String} {r : PathBuf × List Entry} :
    r ∈ (((collect_source_files libs tree).filterMap (file_content config tree)).filter
        fun f => f.2.2 = lang).filterMap (fun f => index_group_file libs config lang f.1 f.2.1) ↔
      ∃ s, (r.1, s, lang) ∈ (collect_source_files libs tree).filterMap (file_content config tree) ∧
        functions_of libs config r.1 s ≠ [] ∧ functions_of libs config r.1 s = r.2 := by
  rw [List.mem_filterMap]
  constructor
  · rintro ⟨⟨p, s, l⟩, hf, hgroup⟩
    obtain ⟨hmem, hlang⟩ := List.mem_filter.1 hf
    obtain rfl : l = lang := of_decide_eq_true hlang
    have hcategory := (file_contents_spec hmem).2
    rw [index_group_file_eq, ← functions_of_eq hcategory] at hgroup
    split_ifs at hgroup with hempty
    cases hgroup
    exact ⟨s, hmem, hempty, rfl⟩
  · rintro ⟨s, hf, hfunctions, hr⟩
    have hcategory := (file_contents_spec hf).2
    refine ⟨(r.1, s, lang), List.mem_filter.2 ⟨hf, decide_eq_true rfl⟩, ?_⟩
    rw [index_group_file_eq, ← functions_of_eq hcategory, if_neg hfunctions, hr]

theorem index_group_taken (functions : HashMap PathBuf (List Entry)) {lang : String}
    (hmem : (path, source, lang) ∈
      (collect_source_files libs tree).filterMap (file_content config tree))
    (hfunctions : functions_of libs config path source ≠ []) :
    (index_group libs config
        ((collect_source_files libs tree).filterMap (file_content config tree)) functions lang).lookup
          path = some (functions_of libs config path source) := by
  have hread := (file_contents_spec hmem).1
  refine lookup_foldl_of_mem Prod.fst Prod.snd ?_ ?_ functions
  · rintro r hr rfl
    obtain ⟨s, hf, -, hvalue⟩ := mem_results.1 hr
    have hs : s = source := Option.some.inj ((file_contents_spec hf).1.symm.trans hread)
    rw [← hvalue, hs]
  · exact List.mem_map.2 ⟨(path, functions_of libs config path source),
      mem_results.2 ⟨source, hmem, hfunctions, rfl⟩, rfl⟩

theorem index_group_left (functions : HashMap PathBuf (List Entry)) {lang : String}
    (h : ∀ s, (path, s, lang) ∈
        (collect_source_files libs tree).filterMap (file_content config tree) →
      functions_of libs config path s = []) :
    (index_group libs config
        ((collect_source_files libs tree).filterMap (file_content config tree)) functions lang).lookup
          path = functions.lookup path := by
  refine lookup_foldl_of_not_mem Prod.fst Prod.snd ?_ functions
  intro hmem
  obtain ⟨r, hr, rfl⟩ := List.mem_map.1 hmem
  obtain ⟨s, hf, hfunctions, -⟩ := mem_results.1 hr
  exact hfunctions (h s hf)

/-- Every supported extension has a language, and every language has a loop. -/
theorem supported_category {ext : Str} (h : ext ∈ supported_extensions) :
    ∃ lang ∈ languages, get_language_category ext = some lang := by
  revert ext
  unfold supported_extensions
  rw [List.forall_mem_map]
  decide +kernel

/-- A file that a build takes: the induction is on the loops, and one of them takes it. -/
theorem build_taken (hread : tree.read_to_string path = some source) (hwalk : path ∈ libs.walk tree)
    (heligible : Eligible config path source)
    (hfunctions : functions_of libs config path source ≠ []) :
    (build_sync libs config tree).lookup path = some (functions_of libs config path source) := by
  obtain ⟨ext, hsupported, hext⟩ := heligible.1
  obtain ⟨lang, hlang, hcategory⟩ := supported_category hsupported
  have hmem : (path, source, lang) ∈
      (collect_source_files libs tree).filterMap (file_content config tree) :=
    (mem_file_contents hread).2 ⟨⟨hwalk, heligible⟩, by rw [hext]; exact hcategory⟩
  have hloops : ∀ (langs : List String) (functions : HashMap PathBuf (List Entry)),
      (lang ∈ langs ∨ functions.lookup path = some (functions_of libs config path source)) →
      (langs.foldl (index_group libs config
        ((collect_source_files libs tree).filterMap (file_content config tree))) functions).lookup
          path = some (functions_of libs config path source) := by
    intro langs
    induction langs with
    | nil => exact fun functions h => h.resolve_left List.not_mem_nil
    | cons l langs ih =>
        intro functions h
        rw [List.foldl_cons]
        apply ih
        by_cases hl : (path, source, l) ∈
            (collect_source_files libs tree).filterMap (file_content config tree)
        · exact .inr (index_group_taken functions hl hfunctions)
        · have hleft := @index_group_left _ libs config tree path functions l (fun s hs => by
            have hread' := (file_contents_spec hs).1
            rw [hread, Option.some_inj] at hread'
            exact absurd (hread' ▸ hs) hl)
          rw [hleft]
          refine h.imp_left fun hl' => (List.mem_cons.1 hl').resolve_left ?_
          rintro rfl
          exact hl hmem
  exact hloops languages ∅ (.inl hlang)

/-- A file that it does not take. -/
theorem build_left
    (h : ∀ s, tree.read_to_string path = some s → path ∈ libs.walk tree → Eligible config path s →
      functions_of libs config path s = []) :
    (build_sync libs config tree).lookup path = none := by
  have hloops : ∀ (langs : List String) (functions : HashMap PathBuf (List Entry)),
      (langs.foldl (index_group libs config
        ((collect_source_files libs tree).filterMap (file_content config tree))) functions).lookup
          path = functions.lookup path := by
    intro langs
    induction langs with
    | nil => exact fun _ => rfl
    | cons l langs ih =>
        intro functions
        rw [List.foldl_cons, ih, index_group_left]
        intro s hs
        have hread := (file_contents_spec hs).1
        have htaken := ((mem_file_contents hread).1 hs).1
        exact h s hread htaken.1 htaken.2
  exact hloops languages ∅

end

/-! ## 6. A run of edits -/

section

variable {Entry : Type} {libs : Libraries Entry} {config : FunctionIndexConfig}

/-- The last edit of a file. -/
def last_edit (edits : List Edit) (path : PathBuf) : Option Edit :=
  edits.reverse.find? fun e => e.path = path

theorem last_edit_concat (edits : List Edit) (e : Edit) (path : PathBuf) :
    last_edit (edits ++ [e]) path = if e.path = path then some e else last_edit edits path := by
  unfold last_edit
  rw [List.reverse_append, List.reverse_singleton, List.singleton_append, List.find?_cons]
  by_cases h : e.path = path
  · simp [h]
  · simp [h]

theorem last_edit_eq_none {edits : List Edit} {path : PathBuf} :
    last_edit edits path = none ↔ path ∉ edits.map Edit.path := by
  unfold last_edit
  rw [List.find?_eq_none]
  simp [eq_comm]

/-- What the last edit has left in the tree. -/
theorem file_edits (tree : Tree) (edits : List Edit) (path : PathBuf) :
    (edits.foldl Edit.edit tree).file path =
      match last_edit edits path with
      | none => tree.file path
      | some (.Write _ source) => some (as_bytes source)
      | some (.Delete _) => none := by
  induction edits using List.reverseRecOn with
  | nil => rfl
  | append_singleton edits e ih =>
      rw [List.foldl_append, List.foldl_cons, List.foldl_nil, last_edit_concat]
      cases e with
      | Write p source =>
          by_cases hp : p = path
          · subst hp
            simp [Edit.edit, Edit.path, Tree.set]
          · have hset : (Edit.edit (edits.foldl Edit.edit tree) (.Write p source)).file path =
                (edits.foldl Edit.edit tree).file path := if_neg (Ne.symm hp)
            rw [hset, ih, Edit.path, if_neg hp]
      | Delete p =>
          by_cases hp : p = path
          · subst hp
            simp [Edit.edit, Edit.path, Tree.set]
          · have hset : (Edit.edit (edits.foldl Edit.edit tree) (.Delete p)).file path =
                (edits.foldl Edit.edit tree).file path := if_neg (Ne.symm hp)
            rw [hset, ih, Edit.path, if_neg hp]

theorem update_file_self (functions : HashMap PathBuf (List Entry)) (path : PathBuf)
    (source : String) :
    (update_file libs config functions path source).lookup path =
      if (functions_of libs config path source).isEmpty then none
      else some (functions_of libs config path source) := by
  unfold update_file functions_of
  dsimp only
  cases get_language_category ((extension path).getD []) with
  | none => exact AList.lookup_erase path functions
  | some language =>
      dsimp only
      by_cases hempty : (index_file_with_language libs config path source language).isEmpty = true
      · rw [if_pos hempty, if_pos hempty, AList.lookup_erase]
      · rw [if_neg hempty, if_neg hempty, AList.lookup_insert]

theorem update_file_other (functions : HashMap PathBuf (List Entry)) {path other : PathBuf}
    (h : other ≠ path) (source : String) :
    (update_file libs config functions path source).lookup other = functions.lookup other := by
  unfold update_file
  dsimp only
  split
  · exact AList.lookup_erase_ne h
  · split_ifs
    · exact AList.lookup_erase_ne h
    · exact AList.lookup_insert_ne h

/-- What the last report has left in the index. -/
theorem lookup_reports (functions : HashMap PathBuf (List Entry)) (edits : List Edit)
    (path : PathBuf) :
    (edits.foldl (Edit.report libs config) functions).lookup path =
      match last_edit edits path with
      | none => functions.lookup path
      | some (.Write _ source) =>
          if (functions_of libs config path source).isEmpty then none
          else some (functions_of libs config path source)
      | some (.Delete _) => none := by
  induction edits using List.reverseRecOn with
  | nil => rfl
  | append_singleton edits e ih =>
      rw [List.foldl_append, List.foldl_cons, List.foldl_nil, last_edit_concat]
      cases e with
      | Write p source =>
          rw [Edit.report, Edit.path]
          by_cases hp : p = path
          · subst hp
            rw [if_pos rfl, update_file_self]
          · rw [update_file_other _ (Ne.symm hp), ih, if_neg hp]
      | Delete p =>
          rw [Edit.report, Edit.path, remove_file]
          by_cases hp : p = path
          · subst hp
            rw [if_pos rfl, AList.lookup_erase]
          · rw [AList.lookup_erase_ne (Ne.symm hp), ih, if_neg hp]

theorem write_of_last {edits : List Edit} {path p : PathBuf} {source : String}
    (h : last_edit edits path = some (.Write p source)) : path ∈ edits.map Edit.path := by
  by_contra hmem
  rw [last_edit_eq_none.2 hmem] at h
  cases h

/-- After a run of edits the index is that of a new build exactly when the new build takes
each file with functions that was written, and the others as the first build did. -/
theorem rebuilt_iff (libs : Libraries Entry) (config : FunctionIndexConfig) (tree : Tree)
    (edits : List Edit) :
    (∀ path, (edits.foldl (Edit.report libs config) (build_sync libs config tree)).lookup path =
        (build_sync libs config (edits.foldl Edit.edit tree)).lookup path) ↔
      Current libs config tree edits := by
  constructor
  · intro hsame path source hread hfunctions
    have hsame := hsame path
    rw [lookup_reports] at hsame
    constructor
    · intro hmem
      by_contra htaken
      have hnone : (build_sync libs config (edits.foldl Edit.edit tree)).lookup path = none := by
        apply build_left
        intro s hs hwalk heligible
        rw [hread, Option.some_inj] at hs
        exact absurd ⟨hwalk, hs ▸ heligible⟩ htaken
      rw [hnone] at hsame
      cases hlast : last_edit edits path with
      | none => exact last_edit_eq_none.1 hlast hmem
      | some e =>
          have hfile := file_edits tree edits path
          rw [hlast] at hsame hfile
          cases e with
          | Write p s =>
              rw [Tree.read_to_string, hfile, Option.bind_some, from_utf8_as_bytes] at hread
              obtain rfl : s = source := Option.some.inj hread
              have hempty : ¬ (functions_of libs config path s).isEmpty = true := by
                rwa [List.isEmpty_iff]
              dsimp only at hsame
              rw [if_neg hempty] at hsame
              cases hsame
          | Delete p =>
              rw [Tree.read_to_string, hfile] at hread
              cases hread
    · intro hmem heligible
      have hlast := last_edit_eq_none.2 hmem
      have hfile := file_edits tree edits path
      rw [hlast] at hsame hfile
      have hread' : tree.read_to_string path = some source := by
        rw [Tree.read_to_string, hfile] at hread
        exact hread
      dsimp only at hsame
      constructor
      · intro hwalk
        by_contra hbefore
        rw [build_taken hread hwalk heligible hfunctions,
          build_left fun s _ hwalk' _ => absurd hwalk' hbefore] at hsame
        cases hsame
      · intro hwalk
        by_contra hafter
        rw [build_taken hread' hwalk heligible hfunctions,
          build_left fun s _ hwalk' _ => absurd hwalk' hafter] at hsame
        cases hsame
  · intro hcurrent path
    rw [lookup_reports]
    have hfile := file_edits tree edits path
    cases hlast : last_edit edits path with
    | none =>
        rw [hlast] at hfile
        dsimp only at hfile ⊢
        have hread : (edits.foldl Edit.edit tree).read_to_string path = tree.read_to_string path :=
          congrArg (Option.bind · from_utf8) hfile
        by_cases htaken : ∃ s, tree.read_to_string path = some s ∧ path ∈ libs.walk tree ∧
            Eligible config path s ∧ functions_of libs config path s ≠ []
        · obtain ⟨s, hs, hwalk, heligible, hfunctions⟩ := htaken
          have hafter := hread.trans hs
          have hsame := (hcurrent path s hafter hfunctions).2 (last_edit_eq_none.1 hlast) heligible
          rw [build_taken hs hwalk heligible hfunctions,
            build_taken hafter (hsame.2 hwalk) heligible hfunctions]
        · have hnone : ∀ s, tree.read_to_string path = some s → path ∈ libs.walk tree →
              Eligible config path s → functions_of libs config path s = [] :=
            fun s hs hwalk heligible => by
              by_contra hfunctions
              exact htaken ⟨s, hs, hwalk, heligible, hfunctions⟩
          rw [build_left hnone, build_left]
          intro s hs hwalk heligible
          by_contra hfunctions
          have hsame := (hcurrent path s hs hfunctions).2 (last_edit_eq_none.1 hlast) heligible
          exact hfunctions (hnone s (hread.symm.trans hs) (hsame.1 hwalk) heligible)
    | some e =>
        rw [hlast] at hfile
        cases e with
        | Write p source =>
            have hread : (edits.foldl Edit.edit tree).read_to_string path = some source := by
              rw [Tree.read_to_string, hfile]
              exact from_utf8_as_bytes source
            dsimp only
            by_cases hfunctions : functions_of libs config path source = []
            · rw [if_pos (List.isEmpty_iff.2 hfunctions), build_left]
              intro s hs _ _
              rw [hread, Option.some_inj] at hs
              exact hs ▸ hfunctions
            · obtain ⟨hwalk, heligible⟩ :=
                (hcurrent path source hread hfunctions).1 (write_of_last hlast)
              have hempty : ¬ (functions_of libs config path source).isEmpty = true := by
                rwa [List.isEmpty_iff]
              rw [if_neg hempty, build_taken hread hwalk heligible hfunctions]
        | Delete p =>
            dsimp only
            rw [build_left]
            intro s hs
            rw [Tree.read_to_string, hfile] at hs
            cases hs

end

/-! ### A file that grows -/

def sample_path : PathBuf := ["a.rs".toList]

/-- Every text is one function. -/
def sample_libraries : Libraries String where
  walk := fun _ => [sample_path]
  opens := fun _ => true
  index_typescript_file := fun _ source _ => .ok [source]
  index_units := fun _ _ source _ => .ok [source]

def sample_tree : Tree := (Tree.mk fun _ => none).set sample_path (some (as_bytes "fn a"))

/-- The file is then longer than the four bytes that the build takes. -/
theorem grown_file_stays :
    (([Edit.Write sample_path "fn ab"].foldl (Edit.report sample_libraries ⟨1, 4⟩)
        (build_sync sample_libraries ⟨1, 4⟩ sample_tree)).lookup sample_path = some ["fn ab"]) ∧
      (build_sync sample_libraries ⟨1, 4⟩
        ([Edit.Write sample_path "fn ab"].foldl Edit.edit sample_tree)).lookup sample_path =
          none := by
  decide +kernel

end Querymt.FunctionIndex
