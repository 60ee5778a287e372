/-
`Tools/Edits.lean` -- the edit tools of one response, run together.

`transition_processing_tool_calls` (`transitions.rs`) runs the tool calls of a response
with `join_all`, and `edit`, `multiedit` and `replace_symbol` each read whole files,
compute, and write whole files, with an `await` at every read and write and nothing
that holds a file in between. The calls are jobs of `Library/Transactions.lean`; what
they compute is whatever the source's pure functions return.

Modelled are the calls from the first read on, with resolved paths; a call whose
arguments are rejected touches no file.
-/
import Querymt.Library.Transactions

set_option autoImplicit false

open Runs Transactions

namespace Querymt.Tools

/-! ## 1. The three tools -/

/-- A call on one file: read it, compute, write it back. -/
def single_file (file_path : String) (compute : String → Except String String) :
    Job String String String where
  requests := [(file_path, fun _ => .ok ())]
  validate := fun _ => .ok ()
  order := [file_path]
  apply := fun contents path =>
    match contents path with
    | some content => compute content
    | none => .error "not read"
  missing := fun _ => "Failed to read file: No such file or directory (os error 2)"
  some_request := List.cons_ne_nil _ _
  distinct := List.nodup_singleton _
  covers := fun _ => Iff.rfl

/-- The loop of `MultiEditTool::call` over its edits, in memory. -/
def apply_edits (total : ℕ) :
    ℕ → List (String → Except String String) → String → Except String String
  | _, [], content => .ok content
  | index, edit :: edits, content =>
      match edit content with
      | .error e =>
          .error ("multiedit failed at edit " ++ toString (index + 1) ++ " of " ++
            toString total ++ ": " ++ e ++ "; no changes written")
      | .ok content' => apply_edits total (index + 1) edits content'

/-- What `replace_symbol` resolves a request to. -/
structure ResolvedReplacement where
  path : String
  qualified_name : String
  start_byte : ℕ
  end_byte : ℕ
  new_text : String

/-- One request: its path, and the symbol found (and its hash checked) in the content. -/
structure SymbolRequest where
  path : String
  resolve : String → Except String ResolvedReplacement

/-- The arguments of `replace_symbol` and the functions it computes with;
`files_to_write` are the files in the order of the map it iterates over. -/
structure SymbolReplacements where
  requests : List SymbolRequest
  validate_no_overlaps : List ResolvedReplacement → Except String Unit
  apply_replacements_to_file : String → List ResolvedReplacement → Except String String
  files_to_write : List String
  some_request : requests ≠ []
  distinct : files_to_write.Nodup
  covers : ∀ path, path ∈ files_to_write ↔ path ∈ requests.map SymbolRequest.path

/-- The requests resolved against what was read. -/
def SymbolReplacements.resolved (r : SymbolReplacements) (contents : Store String String) :
    List ResolvedReplacement :=
  r.requests.filterMap fun request =>
    (contents request.path).bind fun content => (request.resolve content).toOption

/-- `ReplaceSymbolTool::call`: all files are read and all symbols resolved before the
first write; each file's new content is computed right before it is written. -/
def SymbolReplacements.job (r : SymbolReplacements) : Job String String String where
  requests := r.requests.map fun request =>
    (request.path, fun content => (request.resolve content).map fun _ => ())
  validate := fun contents => r.validate_no_overlaps (r.resolved contents)
  order := r.files_to_write
  apply := fun contents path =>
    match contents path with
    | some content =>
        r.apply_replacements_to_file content
          ((r.resolved contents).filter fun replacement => replacement.path = path)
    | none => .error "not read"
  missing := fun path =>
    "Failed to read " ++ path ++ ": No such file or directory (os error 2)"
  some_request := fun h => r.some_request (List.map_eq_nil_iff.1 h)
  distinct := r.distinct
  covers := fun path => by
    rw [r.covers, List.map_map]
    rfl

inductive EditToolCall where
  /-- `replace` is `EditTool::replace_with_metadata` with the strings of the call -/
  | Edit (file_path : String) (replace : String → Except String String)
  | MultiEdit (file_path : String) (edits : List (String → Except String String))
  | ReplaceSymbol (replacements : SymbolReplacements)

def EditToolCall.job : EditToolCall → Job String String String
  | .Edit file_path replace => single_file file_path replace
  | .MultiEdit file_path edits => single_file file_path (apply_edits edits.length 0 edits)
  | .ReplaceSymbol replacements => replacements.job

/-! ## 2. One response -/

section

variable (calls : List EditToolCall) (files : Store String String)

/-- The calls by their position in the response. -/
def call_job (i : Fin calls.length) : Job String String String := (calls.get i).job

/-- `join_all` over the calls: `schedule` is the order in which their reads and writes
happen, each with its I/O error if it has one. -/
def join_all (schedule : List (Fin calls.length × Option String)) :
    System String String String (Fin calls.length) :=
  run (step (call_job calls)) (start (call_job calls) files) schedule

/-- The call is reported as successful. -/
def Successful (schedule : List (Fin calls.length × Option String)) (i : Fin calls.length) : Prop :=
  ((join_all calls files schedule).phase i).succeeded = true

instance (schedule : List (Fin calls.length × Option String)) :
    DecidablePred (Successful calls files schedule) :=
  fun i => inferInstanceAs
    (Decidable (((join_all calls files schedule).phase i).succeeded = true))

/-- **No lost update**: the files are what the successful calls leave one after another,
in some order, in which each of them applies to the files the ones before it left. -/
def NoLostUpdate (schedule : List (Fin calls.length × Option String)) : Prop :=
  ∃ order : List (Fin calls.length), order.Nodup ∧
    (∀ i, i ∈ order ↔ Successful calls files schedule i) ∧
    (join_all calls files schedule).store = serial (call_job calls) order files ∧
    ∀ before i after, order = before ++ i :: after →
      Applies (call_job calls i) (serial (call_job calls) before files)

/-- **The condition**: no file is written while another call that goes on to succeed has
read it and is still to write it, and only calls that succeed write. -/
def WindowsKept (schedule : List (Fin calls.length × Option String)) : Prop :=
  Along (step (call_job calls)) (Undisturbed (call_job calls) (Successful calls files schedule))
    (start (call_job calls) files) schedule

instance (schedule : List (Fin calls.length × Option String)) :
    Decidable (WindowsKept calls files schedule) :=
  inferInstanceAs (Decidable (Along (step (call_job calls))
    (Undisturbed (call_job calls) (Successful calls files schedule))
    (start (call_job calls) files) schedule))

/-- **Undisturbed calls lose no update**, in whatever order their steps happen. -/
theorem windows_kept_no_lost_update (schedule : List (Fin calls.length × Option String))
    (h : WindowsKept calls files schedule) : NoLostUpdate calls files schedule :=
  exists_serial (call_job calls) files schedule h

end

/-- `edit` with `oldString` "one" and `newString` "1", on the contents of the example. -/
def edit_one : EditToolCall :=
  .Edit "numbers.txt" fun content =>
    if content = "one two" then .ok "1 two"
    else if content = "one 2" then .ok "1 2"
    else .error "oldString not found in content"

/-- `edit` with `oldString` "two" and `newString` "2". -/
def edit_two : EditToolCall :=
  .Edit "numbers.txt" fun content =>
    if content = "one two" then .ok "one 2"
    else if content = "1 two" then .ok "1 2"
    else .error "oldString not found in content"

def numbers : Store String String :=
  fun path => if path = "numbers.txt" then some "one two" else none

/-- Both calls read the file before either writes it. -/
def overlapping : List (Fin [edit_one, edit_two].length × Option String) :=
  [(0, none), (1, none), (0, none), (1, none)]

/-- Both are reported as successful, and the first edit is gone. -/
theorem overlapping_edits_lose_update :
    Successful [edit_one, edit_two] numbers overlapping 0 ∧
      Successful [edit_one, edit_two] numbers overlapping 1 ∧
      (join_all [edit_one, edit_two] numbers overlapping).store "numbers.txt" = some "one 2" ∧
      ¬ NoLostUpdate [edit_one, edit_two] numbers overlapping := by
  have hfirst : Successful [edit_one, edit_two] numbers overlapping 0 := by decide
  have hsecond : Successful [edit_one, edit_two] numbers overlapping 1 := by decide
  refine ⟨hfirst, hsecond, by decide, ?_⟩
  rintro ⟨order, hnodup, hmem, hstore, -⟩
  have hperm : order.Perm [0, 1] := by
    rw [List.perm_ext_iff_of_nodup hnodup (by decide)]
    intro i
    rw [hmem]
    fin_cases i
    · exact ⟨fun _ => by decide, fun _ => hfirst⟩
    · exact ⟨fun _ => by decide, fun _ => hsecond⟩
  have hfile := congrFun hstore "numbers.txt"
  -- in either order both edits would be in the file
  have horder : order = [0, 1] ∨ order = [1, 0] := by
    have hin := List.mem_permutations'.2 hperm
    have hall : ([0, 1] : List (Fin 2)).permutations' = [[0, 1], [1, 0]] := by decide
    rw [hall] at hin
    simpa using hin
  rcases horder with rfl | rfl
  · exact absurd hfile (by decide)
  · exact absurd hfile (by decide)

/-- One call after the other. -/
theorem one_by_one_no_lost_update :
    NoLostUpdate [edit_one, edit_two] numbers [(0, none), (0, none), (1, none), (1, none)] :=
  windows_kept_no_lost_update [edit_one, edit_two] numbers
    [(0, none), (0, none), (1, none), (1, none)] (by decide)

end Querymt.Tools
