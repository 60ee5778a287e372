/-
`Provider/ModelRefs.lean` -- references to models, and their canonical ids.

Mirrors `parse_model_ref`, `canonical_id_from_hf`, `canonical_id_from_file` and
`parse_canonical_id` (`provider-common/src/lib.rs`), on a Unix system: a path is separated by
slashes.

# Where the canonical id is read differently

A short reference `<repo>:<selector>` is cut at its last colon, and the canonical id at its
first one: a repository with a colon in it does not come back. Of a canonical id of a file
every `file:` at its front is taken away, and so is one that belongs to the path. On all other
texts the canonical id comes back as the reference it was made from, and two references with
one id are the same (`canonical_ids_iff`).
-/
import Querymt.Library.Strings

set_option autoImplicit false

open Strings

namespace Querymt.ModelRefs

/-! ## 1. The code -/

structure HfModelRef where
  repo : Str
  file : Str
  deriving DecidableEq

inductive ModelRef where
  | LocalPath (path : Str)
  | Hf (ref : HfModelRef)
  | HfRepo (repo : Str)
  deriving DecidableEq

inductive ModelRefError where
  | Invalid (msg : String)
  | Download (msg : String)
  deriving DecidableEq

def HF : Str := ['h', 'f', ':']

def FILE : Str := ['f', 'i', 'l', 'e', ':']

def DOT_GGUF : Str := ['.', 'g', 'g', 'u', 'f']

def DASH_GGUF : Str := ['-', 'G', 'G', 'U', 'F']

/-- `str::split_once` of a colon. -/
def split_once (s : Str) : Option (Str × Str) := Texts.cut [':'] s

/-- `str::rsplit_once` of a colon. -/
def rsplit_once (s : Str) : Option (Str × Str) :=
  (split_once s.reverse).map fun r => (r.2.reverse, r.1.reverse)

/-- `str::trim_start_matches` of a pattern: a text with `n` characters has at most `n` of it. -/
def strip_matches (pat : Str) : ℕ → Str → Str
  | 0, s => s
  | n + 1, s => if pat <+: s then strip_matches pat n (s.drop pat.length) else s

def trim_start_matches (pat s : Str) : Str := strip_matches pat s.length s

def is_windows_abs_path : Str → Bool
  | a :: ':' :: c :: _ => a.isAlpha && (c = '\\' || c = '/')
  | _ => false

/-- `repo.rsplit('/').next()`. -/
def repo_name (repo : Str) : Str := repo.rtakeWhile (· ≠ '/')

def infer_gguf_filename (repo selector : Str) : Str :=
  if DOT_GGUF <:+ selector then selector
  else
    let repo_name := repo_name repo
    let base := if DASH_GGUF <:+ repo_name then repo_name.rdrop DASH_GGUF.length else repo_name
    base ++ '-' :: (selector ++ DOT_GGUF)

/-- The reference in a text that is not named a file or a canonical id: its last colon is
before a selector; `existing` tells which paths exist. -/
def parse_bare (existing : Str → Bool) (raw : Str) : Except ModelRefError ModelRef :=
  match rsplit_once raw with
  | some (left, right) =>
      let repo := trim left
      let selector := trim right
      if repo = [] ∨ selector = [] then
        .error (.Invalid "model must be formatted as <repo>:<selector>")
      else if !repo.contains '/' then
        .error (.Invalid "Hugging Face model repo must include owner/name")
      else .ok (.Hf ⟨repo, infer_gguf_filename repo selector⟩)
  | none =>
      let looks_like_path := DOT_GGUF <:+ raw ∨ ['.'] <+: raw ∨ ['/'] <+: raw ∨
        ['\\', '\\'] <+: raw ∨ raw.contains '\\' ∨ existing raw
      if looks_like_path then .ok (.LocalPath raw)
      else if raw.contains '/' then .ok (.HfRepo raw)
      else .error (.Invalid
        "model must be a local .gguf path, <repo>:<selector>, or <owner>/<repo>")

def parse_model_ref (existing : Str → Bool) (input : Str) : Except ModelRefError ModelRef :=
  let raw := trim input
  if raw = [] then .error (.Invalid "model cannot be empty")
  else if HF <+: raw then
    match split_once (raw.drop HF.length) with
    | some (repo, filename) => .ok (.Hf ⟨repo, filename⟩)
    | none => .error (.Invalid "hf: model refs must be formatted as hf:<repo>:<filename>")
  else if FILE <+: raw then
    let file := trim (trim_start_matches FILE raw)
    if file = [] then .error (.Invalid "file: model refs must include a path")
    else .ok (.LocalPath file)
  else if is_windows_abs_path raw then .ok (.LocalPath raw)
  else parse_bare existing raw

def canonical_id_from_hf (repo filename : Str) : Str := HF ++ (repo ++ ':' :: filename)

def canonical_id_from_file (path : Str) : Str := FILE ++ path

def parse_canonical_id (existing : Str → Bool) (id : Str) : Except ModelRefError ModelRef :=
  parse_model_ref existing id

/-! ## 2. The law and the condition -/

/-- The canonical id of a reference to a file. -/
def ModelRef.canonical_id : ModelRef → Option Str
  | .LocalPath path => some (canonical_id_from_file path)
  | .Hf ref => some (canonical_id_from_hf ref.repo ref.file)
  | .HfRepo _ => none

/-- The first component of a path: of one that starts with a slash it is the slash. -/
def first_component (path : Str) : Str :=
  if path.takeWhile (· ≠ '/') = [] then ['/'] else path.takeWhile (· ≠ '/')

/-- `Path::components`: of those behind the first, empty ones and dots do not count. -/
def components (path : Str) : List Str :=
  if path = [] then []
  else first_component path ::
    ((path.dropWhile (· ≠ '/')).splitOn '/').filter fun c => c ≠ [] ∧ c ≠ ['.']

/-- Two references are equal; of paths the components are compared. -/
def ModelRef.Same : ModelRef → ModelRef → Prop
  | .LocalPath path, .LocalPath path' => components path = components path'
  | a, b => a = b

/-- The canonical id of a reference is read as the reference. -/
def RoundTrips (existing : Str → Bool) (m : ModelRef) : Prop :=
  ∀ id, m.canonical_id = some id →
    ∃ m', parse_canonical_id existing id = .ok m' ∧ ModelRef.Same m' m

/-- **Canonical ids of two references**: both are read as their reference, and one id means one
reference. -/
structure Canonical (existing : Str → Bool) (m m' : ModelRef) : Prop where
  first : RoundTrips existing m
  second : RoundTrips existing m'
  distinct : m.canonical_id = m'.canonical_id → ModelRef.Same m m'

/-- **The condition** on a text: the path of a file does not itself start with `file:`, and a
short reference has one colon. -/
def Readable (s : Str) : Prop :=
  if FILE <+: trim s then ¬ FILE <+: trim (trim_start_matches FILE (trim s))
  else HF <+: trim s ∨ is_windows_abs_path (trim s) = true ∨ (trim s).count ':' ≤ 1

/-! ## 3. What a text is read as -/

section

variable {existing : Str → Bool} {s raw : Str} {m : ModelRef}

theorem split_once_of_not_mem {a b : Str} (ha : ':' ∉ a) :
    split_once (a ++ ':' :: b) = some (a, b) :=
  Texts.cut_append ⟨':', [], rfl, List.not_mem_nil⟩ (Texts.not_infix_of_not_mem ha)

/-- The text is cut at its first colon. -/
theorem split_once_cases (s : Str) :
    (':' ∉ s ∧ split_once s = none) ∨
      ∃ a b, s = a ++ ':' :: b ∧ ':' ∉ a ∧ split_once s = some (a, b) := by
  by_cases hmem : ':' ∈ s
  · obtain ⟨a, b, rfl, ha⟩ := List.eq_append_cons_of_mem hmem
    exact .inr ⟨a, b, rfl, ha, split_once_of_not_mem ha⟩
  · exact .inl ⟨hmem, Texts.cut_eq_none (Texts.not_infix_of_not_mem hmem)⟩

/-- The text is cut at its last colon. -/
theorem rsplit_once_cases (s : Str) :
    (':' ∉ s ∧ rsplit_once s = none) ∨
      ∃ a b, s = a ++ ':' :: b ∧ ':' ∉ b ∧ rsplit_once s = some (a, b) := by
  unfold rsplit_once
  obtain ⟨hmem, hnone⟩ | ⟨a, b, hs, ha, hsome⟩ := split_once_cases s.reverse
  · exact .inl ⟨fun h => hmem (List.mem_reverse.2 h), by rw [hnone]; rfl⟩
  · refine .inr ⟨b.reverse, a.reverse, ?_, fun h => ha (List.mem_reverse.1 h), by rw [hsome]; rfl⟩
    rw [← List.reverse_reverse s, hs, List.reverse_append, List.reverse_cons, List.append_assoc]
    rfl

/-- **What a text can be read as**, with its blanks at the ends taken away. -/
inductive Reads (raw : Str) : ModelRef → Prop
  | canonical (repo filename : Str) : raw = canonical_id_from_hf repo filename → ':' ∉ repo →
      Reads raw (.Hf ⟨repo, filename⟩)
  | file : FILE <+: raw → trim (trim_start_matches FILE raw) ≠ [] →
      Reads raw (.LocalPath (trim (trim_start_matches FILE raw)))
  | windows : ¬ FILE <+: raw → ¬ HF <+: raw → is_windows_abs_path raw = true →
      Reads raw (.LocalPath raw)
  | short (left right : Str) : ¬ FILE <+: raw → ¬ HF <+: raw → is_windows_abs_path raw = false →
      raw = left ++ ':' :: right → ':' ∉ right → trim right ≠ [] →
      Reads raw (.Hf ⟨trim left, infer_gguf_filename (trim left) (trim right)⟩)
  | path : ':' ∉ raw → Reads raw (.LocalPath raw)
  | repo : ':' ∉ raw → Reads raw (.HfRepo raw)

theorem reads_bare (hfile : ¬ FILE <+: raw) (hhf : ¬ HF <+: raw)
    (hwindows : is_windows_abs_path raw = false) (h : parse_bare existing raw = .ok m) :
    Reads raw m := by
  unfold parse_bare at h
  obtain ⟨hmem, hnone⟩ | ⟨left, right, hraw, hright, hsome⟩ := rsplit_once_cases raw
  · rw [hnone] at h
    dsimp only at h
    split_ifs at h
    · obtain rfl := Except.ok.inj h
      exact .path hmem
    · obtain rfl := Except.ok.inj h
      exact .repo hmem
  · rw [hsome] at h
    dsimp only at h
    split_ifs at h with hempty
    obtain rfl := Except.ok.inj h
    exact .short left right hfile hhf hwindows hraw hright fun hnil => hempty (.inr hnil)

theorem reads_of_parse (h : parse_model_ref existing s = .ok m) : trim s ≠ [] ∧ Reads (trim s) m := by
  unfold parse_model_ref at h
  dsimp only at h
  split_ifs at h with hempty hhf hfile hnil hwindows
  · refine ⟨hempty, ?_⟩
    obtain ⟨rest, hrest⟩ := hhf
    rw [← hrest, List.drop_left] at h
    obtain ⟨-, hnone⟩ | ⟨a, b, rfl, ha, hsome⟩ := split_once_cases rest
    · rw [hnone] at h
      cases h
    · rw [hsome] at h
      obtain rfl := Except.ok.inj h
      rw [← hrest]
      exact .canonical a b rfl ha
  · obtain rfl := Except.ok.inj h
    exact ⟨hempty, .file hfile hnil⟩
  · obtain rfl := Except.ok.inj h
    exact ⟨hempty, .windows hfile hhf hwindows⟩
  · exact ⟨hempty, reads_bare hfile hhf (Bool.eq_false_iff.2 hwindows) h⟩

/-! ## 4. Canonical ids of Hugging Face -/

theorem colon_not_blank : is_whitespace ':' = false := by decide

/-- The file of a reference to Hugging Face does not end blank. -/
theorem infer_gguf_filename_tight {repo selector : Str} (hs : Texts.Tight is_whitespace selector)
    (hne : selector ≠ []) (h : infer_gguf_filename repo selector ≠ []) :
    ¬ is_whitespace ((infer_gguf_filename repo selector).getLast h) = true := by
  revert h
  unfold infer_gguf_filename
  dsimp only
  intro h
  by_cases hgguf : DOT_GGUF <:+ selector
  · simp only [if_pos hgguf] at h ⊢
    exact hs.2 hne
  · simp only [if_neg hgguf] at h ⊢
    have hlast : ∀ t : Str, (t ++ DOT_GGUF).getLast? = some 'f' := fun t => by
      rw [List.getLast?_append]
      rfl
    have hend := hlast ((if DASH_GGUF <:+ repo_name repo
      then (repo_name repo).rdrop DASH_GGUF.length else repo_name repo) ++ '-' :: selector)
    rw [List.append_assoc, List.cons_append, List.getLast?_eq_some_getLast h] at hend
    rw [Option.some.inj hend]
    decide

/-- A canonical id whose file does not end blank is read as it is. -/
theorem trim_canonical_hf {repo filename : Str}
    (h : ∀ hne : filename ≠ [], ¬ is_whitespace (filename.getLast hne) = true) :
    trim (canonical_id_from_hf repo filename) = canonical_id_from_hf repo filename := by
  apply Texts.trim_eq_self_iff.2
  refine ⟨fun _ => (by decide : ¬ is_whitespace 'h' = true), fun hne => ?_⟩
  unfold canonical_id_from_hf
  by_cases hnil : filename = []
  · subst hnil
    have hlast : (HF ++ (repo ++ [':'])).getLast? = some ':' := by
      rw [← List.append_assoc, List.getLast?_append]
      rfl
    rw [List.getLast?_eq_some_getLast (by simp)] at hlast
    rw [Option.some.inj hlast]
    decide
  · have hlast : (HF ++ (repo ++ ':' :: filename)).getLast? = some (filename.getLast hnil) := by
      rw [← List.append_assoc, List.getLast?_append, List.getLast?_cons,
        List.getLast?_eq_some_getLast hnil]
      rfl
    rw [List.getLast?_eq_some_getLast (by simp)] at hlast
    rw [Option.some.inj hlast]
    exact h hnil

/-- **The canonical id of a file at Hugging Face** is read as it exactly if there is no colon in
the repository. -/
theorem roundTrips_hf {repo filename : Str}
    (h : trim (canonical_id_from_hf repo filename) = canonical_id_from_hf repo filename) :
    RoundTrips existing (.Hf ⟨repo, filename⟩) ↔ ':' ∉ repo := by
  have hparse : ∀ {a b : Str}, repo ++ ':' :: filename = a ++ ':' :: b → ':' ∉ a →
      parse_canonical_id existing (canonical_id_from_hf repo filename) = .ok (.Hf ⟨a, b⟩) := by
    intro a b hsplit ha
    unfold parse_canonical_id parse_model_ref
    rw [h, canonical_id_from_hf, hsplit]
    dsimp only
    rw [if_neg (by simp [HF]), if_pos (List.prefix_append _ _), List.drop_left,
      split_once_of_not_mem ha]
  constructor
  · intro hround hmem
    obtain ⟨a, b, hrepo, ha⟩ := List.eq_append_cons_of_mem hmem
    obtain ⟨m', hm', hsame⟩ := hround _ rfl
    have hsplit : repo ++ ':' :: filename = a ++ ':' :: (b ++ ':' :: filename) := by
      rw [hrepo, List.append_assoc, List.cons_append]
    rw [hparse hsplit ha, Except.ok.injEq] at hm'
    subst hm'
    -- the repository that is read has no colon
    have heq : a = repo := congrArg HfModelRef.repo (ModelRef.Hf.inj hsame)
    rw [heq] at ha
    exact ha hmem
  · intro hrepo id hid
    obtain rfl := Option.some.inj hid
    exact ⟨_, hparse rfl hrepo, rfl⟩

/-! ## 5. Canonical ids of files -/

/-- What is taken away of a pattern is made of its characters. -/
theorem strip_matches_split (pat : Str) (n : ℕ) (s : Str) :
    ∃ front, s = front ++ strip_matches pat n s ∧ ∀ c ∈ front, c ∈ pat := by
  induction n generalizing s with
  | zero => exact ⟨[], rfl, fun c hc => absurd hc List.not_mem_nil⟩
  | succ n ih =>
      rw [strip_matches]
      by_cases hpat : pat <+: s
      · rw [if_pos hpat]
        obtain ⟨rest, rfl⟩ := hpat
        rw [List.drop_left]
        obtain ⟨front, hrest, hfront⟩ := ih rest
        refine ⟨pat ++ front, ?_, fun c hc => ?_⟩
        · rw [List.append_assoc, ← hrest]
        · exact (List.mem_append.1 hc).elim id (hfront c)
      · rw [if_neg hpat]
        exact ⟨[], rfl, fun c hc => absurd hc List.not_mem_nil⟩

theorem strip_matches_of_not {pat s : Str} (h : ¬ pat <+: s) (n : ℕ) :
    strip_matches pat n s = s := by
  cases n with
  | zero => rfl
  | succ n => exact if_neg h

theorem strip_matches_append (pat s : Str) (n : ℕ) :
    strip_matches pat (n + 1) (pat ++ s) = strip_matches pat n s := by
  rw [strip_matches, if_pos (List.prefix_append _ _), List.drop_left]

/-- With something before it that has no slash, a path has a longer first component. -/
theorem components_ne {front path rest : Str} (hfront : front ≠ []) (hslash : '/' ∉ front)
    (hpath : path ≠ []) : components (front ++ (path ++ rest)) ≠ components path := by
  have hall : ∀ c ∈ front, (decide (c ≠ '/')) = true := fun c hc =>
    decide_eq_true fun heq => hslash (heq ▸ hc)
  intro h
  rw [components, if_neg (by simp [hfront]), components, if_neg hpath, List.cons.injEq] at h
  have hfirst := h.1
  unfold first_component at hfirst
  rw [List.takeWhile_append_of_pos hall, if_neg (by simp [hfront])] at hfirst
  split_ifs at hfirst with hroot
  · -- a slash is no part of the front
    obtain ⟨c, front, rfl⟩ := List.exists_cons_of_ne_nil hfront
    have hc : c = '/' := (List.cons.inj hfirst).1
    exact hslash (hc ▸ List.mem_cons_self)
  · have hlen := congrArg List.length hfirst
    have hpos := List.length_pos_of_ne_nil hfront
    rw [List.length_append, List.takeWhile_append] at hlen
    split_ifs at hlen with hwhole
    · rw [List.length_append] at hlen
      omega
    · omega

theorem parse_canonical_file {path : Str} (htight : Texts.Tight is_whitespace path)
    (hne : path ≠ []) :
    parse_canonical_id existing (canonical_id_from_file path) =
      if trim (trim_start_matches FILE (FILE ++ path)) = [] then
        .error (.Invalid "file: model refs must include a path")
      else .ok (.LocalPath (trim (trim_start_matches FILE (FILE ++ path)))) := by
  have hfile : Texts.Tight is_whitespace FILE :=
    Texts.tight_of_ends (by decide : is_whitespace 'f' = false) colon_not_blank ['i', 'l', 'e']
  have htrim : trim (FILE ++ path) = FILE ++ path :=
    Texts.trim_eq_self_iff.2 (hfile.join htight (List.cons_ne_nil _ _) hne [])
  unfold parse_canonical_id parse_model_ref canonical_id_from_file
  rw [htrim]
  dsimp only
  rw [if_neg (by simp [FILE]), if_neg (by simp [FILE, HF]), if_pos (List.prefix_append _ _)]

/-- **The canonical id of a file** is read as its path exactly if that does not start with
`file:`. -/
theorem roundTrips_file {path : Str} (htight : Texts.Tight is_whitespace path) (hne : path ≠ []) :
    RoundTrips existing (.LocalPath path) ↔ ¬ FILE <+: path := by
  have hlength : (FILE ++ path).length = path.length + 4 + 1 := by
    rw [List.length_append, Nat.add_comm]
    rfl
  have hstrip : trim_start_matches FILE (FILE ++ path) =
      strip_matches FILE (path.length + 4) path := by
    rw [trim_start_matches, hlength, strip_matches_append]
  constructor
  · rintro hround ⟨rest, rfl⟩
    obtain ⟨m', hm', hsame⟩ := hround _ rfl
    rw [parse_canonical_file htight hne, hstrip] at hm'
    split_ifs at hm' with hnil
    obtain rfl := Except.ok.inj hm'
    have hshorter : strip_matches FILE ((FILE ++ rest).length + 4) (FILE ++ rest) =
        strip_matches FILE ((FILE ++ rest).length + 3) rest := strip_matches_append _ _ _
    rw [hshorter] at hnil hsame
    -- before what is read there are `file:` and blanks, and no slash
    obtain ⟨front, hrest, hfront⟩ := strip_matches_split FILE ((FILE ++ rest).length + 3) rest
    obtain ⟨w, w', hpad, hw, -⟩ := Texts.exists_pad is_whitespace
      (strip_matches FILE ((FILE ++ rest).length + 3) rest)
    have hpath : FILE ++ rest = (FILE ++ (front ++ w)) ++
        (trim (strip_matches FILE ((FILE ++ rest).length + 3) rest) ++ w') := by
      conv_lhs => rw [hrest, hpad]
      simp only [List.append_assoc]
      rfl
    have hslash : '/' ∉ FILE ++ (front ++ w) := by
      intro hmem
      obtain hmem | hmem := List.mem_append.1 hmem
      · exact absurd hmem (by decide)
      · obtain hmem | hmem := List.mem_append.1 hmem
        · exact absurd (hfront _ hmem) (by decide)
        · exact absurd (hw _ hmem) (by decide)
    have hdiffer := @components_ne _ _ w' (by simp [FILE]) hslash hnil
    rw [← hpath] at hdiffer
    exact hdiffer hsame.symm
  · intro hnot id hid
    obtain rfl := Option.some.inj hid
    have hself : trim path = path := Texts.trim_eq_self_iff.2 htight
    refine ⟨.LocalPath path, ?_, rfl⟩
    rw [parse_canonical_file htight hne, hstrip, strip_matches_of_not hnot, hself, if_neg hne]

/-! ## 6. Canonical ids -/

/-- What a text is read as comes back exactly if the text is readable. -/
theorem roundTrips_iff_readable (h : parse_model_ref existing s = .ok m)
    (hm : m.canonical_id.isSome = true) : RoundTrips existing m ↔ Readable s := by
  obtain ⟨hempty, hreads⟩ := reads_of_parse h
  have htight : Texts.Tight is_whitespace (trim s) := Texts.tight_trim _ _
  have htrim : trim (trim s) = trim s := Texts.trim_eq_self_iff.2 htight
  unfold Readable
  generalize trim s = raw at hempty hreads htight htrim ⊢
  cases hreads with
  | canonical repo filename hraw hrepo =>
      rw [hraw] at htrim ⊢
      have hnot : ¬ FILE <+: canonical_id_from_hf repo filename := by
        simp [canonical_id_from_hf, FILE, HF]
      rw [roundTrips_hf htrim, if_neg hnot]
      exact iff_of_true hrepo (.inl (List.prefix_append _ _))
  | file hfile hnil =>
      rw [if_pos hfile]
      exact roundTrips_file (Texts.tight_trim _ _) hnil
  | windows hfile hhf hwindows =>
      rw [if_neg hfile, roundTrips_file htight hempty]
      exact iff_of_true hfile (.inr (.inl hwindows))
  | short left right hfile hhf hwindows hraw hright hselector =>
      have hend : Texts.Tight is_whitespace (trim right) := Texts.tight_trim _ _
      have hid := @trim_canonical_hf (trim left) _
        (@infer_gguf_filename_tight (trim left) _ hend hselector)
      have hmem : ':' ∈ trim left ↔ ':' ∈ left := Texts.mem_trim colon_not_blank
      -- the last colon is one more than those in the repository
      have hcount : raw.count ':' = left.count ':' + 1 := by
        rw [hraw, List.count_append, List.count_cons_self, List.count_eq_zero.2 hright]
      rw [roundTrips_hf hid, if_neg hfile, hmem, hcount, ← List.count_eq_zero]
      constructor
      · intro hleft
        exact .inr (.inr (by omega))
      · intro hreadable
        have hle := (hreadable.resolve_left hhf).resolve_left (Bool.eq_false_iff.1 hwindows)
        omega
  | path hcolon =>
      have hfile : ¬ FILE <+: raw := by
        rintro ⟨rest, rfl⟩
        exact hcolon (by simp [FILE])
      rw [if_neg hfile, roundTrips_file htight hempty]
      exact iff_of_true hfile (.inr (.inr (by rw [List.count_eq_zero.2 hcolon]; omega)))
  | repo hcolon => cases hm

theorem ModelRef.Same.symm {a b : ModelRef} (h : ModelRef.Same a b) : ModelRef.Same b a := by
  cases a <;> cases b <;> exact Eq.symm h

theorem ModelRef.Same.trans {a b c : ModelRef} (h : ModelRef.Same a b) (h' : ModelRef.Same b c) :
    ModelRef.Same a c := by
  cases a <;> cases b <;> cases c <;> first | exact Eq.trans h h' | cases h | cases h'

end

/-- **Canonical ids round-trip** and tell references apart if and only if they are made of
readable texts. -/
theorem canonical_ids_iff (existing : Str → Bool) (s s' : Str) (m m' : ModelRef)
    (h : parse_model_ref existing s = .ok m) (h' : parse_model_ref existing s' = .ok m')
    (hm : m.canonical_id.isSome = true) (hm' : m'.canonical_id.isSome = true) :
    Canonical existing m m' ↔ Readable s ∧ Readable s' := by
  rw [← roundTrips_iff_readable h hm, ← roundTrips_iff_readable h' hm']
  constructor
  · intro hcanonical
    exact ⟨hcanonical.first, hcanonical.second⟩
  · rintro ⟨hround, hround'⟩
    refine ⟨hround, hround', fun heq => ?_⟩
    -- the one id is read as both
    obtain ⟨id, hid⟩ := Option.isSome_iff_exists.1 hm
    obtain ⟨a, ha, hsame⟩ := hround id hid
    obtain ⟨b, hb, hsame'⟩ := hround' id (heq ▸ hid)
    obtain rfl := Except.ok.inj (ha.symm.trans hb)
    exact hsame.symm.trans hsame'

theorem canonical_ids_sample :
    Canonical (fun _ => false) (.Hf ⟨"foo/bar".toList, "baz.gguf".toList⟩)
        (.LocalPath "/tmp/m.gguf".toList) ↔
      Readable "hf:foo/bar:baz.gguf".toList ∧ Readable " /tmp/m.gguf".toList := by
  apply canonical_ids_iff
  · decide +kernel
  · decide +kernel
  · rfl
  · rfl

/-- The address of a repository: its canonical id names the repository `https`. -/
theorem address_not_round_trip :
    parse_model_ref (fun _ => false) "https://hf.co/foo/bar:Q8_0".toList =
        .ok (.Hf ⟨"https://hf.co/foo/bar".toList, "bar-Q8_0.gguf".toList⟩) ∧
      ¬ RoundTrips (fun _ => false)
        (.Hf ⟨"https://hf.co/foo/bar".toList, "bar-Q8_0.gguf".toList⟩) := by
  have hparse : parse_model_ref (fun _ => false) "https://hf.co/foo/bar:Q8_0".toList =
      .ok (.Hf ⟨"https://hf.co/foo/bar".toList, "bar-Q8_0.gguf".toList⟩) := by decide +kernel
  refine ⟨hparse, fun h => ?_⟩
  exact absurd ((roundTrips_iff_readable hparse rfl).1 h) (by unfold Readable; decide +kernel)

end Querymt.ModelRefs
