/-
`ToolFormats.lean` -- which texts of the tool grammars are read as they were meant.

The grammars and the extractors of `providers/llama-cpp/src/chat_format.rs` are written
apart from each other, and they agree only on a text that keeps clear of what the
extractor searches for. For each format there is a predicate that says what a call has
to keep clear of; under it, and if the text holds no body of another format,
`extract_tool_calls` finds the calls of the tree: each one, once, in order, with its name
and its argument object.

For `Qwen3` there is no such call: the grammar writes the name of the tool without
quotes, and the extractor reads the whole call as JSON.

Each format has a lemma about one call, with the text as the search hands it over, and
one about the whole text. What they share comes first: how a search walks over a list of
calls, and how the list of what was found is put together.
-/
import Querymt.Provider.ToolTokens

set_option autoImplicit false

open Encodings Faults Texts

namespace Querymt.Llama

variable {S : Serde} {L : Gbnf} {tools : List (Tool S.Number)}

/-! ## Searching -/

theorem Many.length_le {α : Type} {rule : Text → α → Prop} {t : Text} {as : List α}
    (hrule : ∀ t a, rule t a → t ≠ []) (h : Many rule t as) : as.length ≤ t.length := by
  induction h with
  | one ht => exact List.length_pos_of_ne_nil (hrule _ _ ht)
  | cons ht _ ih =>
      have hpos := List.length_pos_of_ne_nil (hrule _ _ ht)
      rw [List.length_cons, List.length_append]
      omega

theorem Many.ne_nil {α : Type} {rule : Text → α → Prop} {t : Text} {as : List α}
    (h : Many rule t as) : as ≠ [] := by
  cases h <;> exact List.cons_ne_nil _ _

theorem Many.rule_of_mem {α : Type} {rule : Text → α → Prop} {t : Text} {as : List α}
    (h : Many rule t as) {a : α} (ha : a ∈ as) : ∃ t, rule t a := by
  induction h with
  | one ht =>
      rw [List.mem_singleton.1 ha]
      exact ⟨_, ht⟩
  | cons ht _ ih =>
      obtain rfl | ha := List.mem_cons.1 ha
      · exact ⟨_, ht⟩
      · exact ih ha

/-- A tag does not occur within blanks. -/
theorem not_infix_ws {p : Char} {ps w : Text} (hp : p ∉ [' ', '\t', '\n', '\r']) (hw : Ws w) :
    ¬ p :: ps <:+: w :=
  not_infix_of_not_mem (hw.not_mem hp)

section Bodies

variable {α : Type} {rule : Text → α → Prop} (text : α → Text)

variable {start_tag end_tag : Text} (hstart : Tag start_tag) (hend : Tag end_tag)
  (hws : ∀ w, Ws w → ¬ start_tag <:+: w)

include hstart hend hws

theorem bodies_within_cons {w body : Text} (hw : Ws w) (hbody : ¬ end_tag <:+: body) (fuel : ℕ)
    (rest : Text) :
    bodies_within start_tag end_tag (fuel + 1) (w ++ (start_tag ++ (body ++ (end_tag ++ rest)))) =
      body :: bodies_within start_tag end_tag fuel rest := by
  rw [bodies_within, cut_append hstart (hws w hw)]
  dsimp only
  rw [cut_append hend hbody]

variable (hrule : ∀ t a, rule t a → ∃ w, Ws w ∧ t = start_tag ++ (text a ++ (end_tag ++ w)))

include hrule

theorem bodies_of_many {t : Text} {as : List α} (h : Many rule t as)
    (has : ∀ a ∈ as, ¬ end_tag <:+: text a) {fuel : ℕ} (hfuel : as.length < fuel) {w : Text}
    (hw : Ws w) : bodies_within start_tag end_tag fuel (w ++ t) = as.map text := by
  induction h generalizing fuel w with
  | one ht =>
      obtain ⟨w', hw', rfl⟩ := hrule _ _ ht
      obtain ⟨fuel, rfl⟩ : ∃ k, fuel = k + 2 := ⟨fuel - 2, by simp at hfuel; omega⟩
      rw [bodies_within_cons hstart hend hws hw (has _ (List.mem_cons_self ..)), bodies_within,
        cut_eq_none (hws w' hw')]
      rfl
  | cons ht _ ih =>
      obtain ⟨w', hw', rfl⟩ := hrule _ _ ht
      obtain ⟨fuel, rfl⟩ : ∃ k, fuel = k + 1 := ⟨fuel - 1, by omega⟩
      rw [List.append_assoc, List.append_assoc, List.append_assoc,
        bodies_within_cons hstart hend hws hw (has _ (List.mem_cons_self ..)),
        ih (fun a ha => has a (List.mem_cons_of_mem _ ha)) (by simp at hfuel; omega) hw']
      rfl

/-- The bodies between the tags are those of the calls, if none holds the end tag. -/
theorem tag_bodies_of_many {t : Text} {as : List α} (h : Many rule t as)
    (has : ∀ a ∈ as, ¬ end_tag <:+: text a) :
    extract_tag_bodies t start_tag end_tag = as.map text := by
  have hlen : as.length ≤ t.length := by
    refine h.length_le fun t a ht => ?_
    obtain ⟨w, -, rfl⟩ := hrule _ _ ht
    obtain ⟨p, ps, rfl, -⟩ := hstart
    exact List.cons_ne_nil _ _
  exact bodies_of_many text hstart hend hws hrule h has (Nat.lt_succ_of_le hlen) ws_nil

end Bodies

/-! ## What was found -/

/-- The call as it is to be found. -/
def Call.function (S : Serde) (c : Call S.Number) : FunctionCall := ⟨c.name, S.to_string c.arguments⟩

/-- Where every part gives its call, all calls are found, in order. -/
theorem filter_map_of_forall₂ {f : Text → Run (Option ToolCall)} {parts : List Text}
    {calls : List (Call S.Number)}
    (h : List.Forall₂ (fun part c => ∃ found, f part = .ok (some found) ∧
      found.function = c.function S) parts calls) :
    ∃ found, filter_map f parts = .ok found ∧
      found.map ToolCall.function = calls.map (Call.function S) := by
  induction h with
  | nil => exact ⟨[], rfl, rfl⟩
  | cons hcall _ ih =>
      obtain ⟨call, hf, hcall⟩ := hcall
      obtain ⟨found, hrest, hfound⟩ := ih
      refine ⟨call :: found, ?_, ?_⟩
      · rw [filter_map, hf, hrest]
        rfl
      · rw [List.map_cons, List.map_cons, hcall, hfound]

theorem filterMap_of_forall₂ {f : Text → Option ToolCall} {parts : List Text}
    {calls : List (Call S.Number)}
    (h : List.Forall₂ (fun part c => ∃ found, f part = some found ∧
      found.function = c.function S) parts calls) :
    (parts.filterMap f).map ToolCall.function = calls.map (Call.function S) := by
  induction h with
  | nil => rfl
  | cons hcall _ ih =>
      obtain ⟨call, hf, hcall⟩ := hcall
      rw [List.filterMap_cons_some hf, List.map_cons, List.map_cons, hcall, ih]

theorem forall₂_texts {P : Text → Call S.Number → Prop} {calls : List (Call S.Number)}
    (h : ∀ c ∈ calls, P c.text c) : List.Forall₂ P (calls.map Call.text) calls := by
  rw [List.forall₂_map_left_iff, List.forall₂_same]
  exact h

/-- Arguments that are read one by one make up the object. -/
theorem foldl_of_forall₂ {f : List (Text × Json S.Number) → Text → List (Text × Json S.Number)}
    {parts : List Text} {args : List (Arg S.Number)}
    (h : List.Forall₂ (fun part a => ∀ acc, f acc part = insert_member acc (a.key, a.value))
      parts args) (acc : List (Text × Json S.Number)) :
    parts.foldl f acc = (args.map fun a => (a.key, a.value)).foldl insert_member acc := by
  induction h generalizing acc with
  | nil => rfl
  | cons hpart _ ih =>
      rw [List.foldl_cons, hpart, ih]
      rfl

/-- An argument list is cut and read item by item; a blank part, which is all there is of
an empty list, adds nothing. -/
theorem arguments_of_listed {rule : Text → Arg S.Number → Prop} {P Q : Arg S.Number → Prop}
    {f : List (Text × Json S.Number) → Text → List (Text × Json S.Number)}
    (hP : ∀ t a, rule t a → P a → Scan.pass ',' .start t = some .start)
    (hQ : ∀ t a w, rule t a → Q a → Ws w → (Scan.pass ',' .start (t ++ w)).isSome)
    (hblank : ∀ w, Ws w → f [] w = [])
    (hitem : ∀ part a, Segment rule part a → ∀ acc, f acc part = insert_member acc (a.key, a.value))
    {w t w' : Text} {args : List (Arg S.Number)} (ht : Listed rule t args)
    (hargs : AllButLast P Q args) (hw : Ws w) (hw' : Ws w') :
    .obj ((split_top_level (w ++ (t ++ w')) ',').foldl f []) = arguments_of S args := by
  unfold arguments_of Json.object
  obtain ⟨rfl, rfl⟩ | ht := ht
  · have hws : Ws (w ++ ([] ++ w')) := hw.append hw'
    rw [split_blank hws, List.foldl_cons, List.foldl_nil, hblank _ hws]
    rfl
  · have hparts := split_separated hP hQ ht hargs hw hw'
    exact congrArg Json.obj (foldl_of_forall₂ (hparts.imp hitem) [])

/-! ## Cutting out -/

theorem find_append {c : Char} {a : Text} (ha : c ∉ a) (b : Text) :
    find c (a ++ c :: b) = some a.length := by
  unfold find
  induction a with
  | nil => simp [List.idxOf?_cons]
  | cons x a ih =>
      rw [List.mem_cons, not_or] at ha
      rw [List.cons_append, List.idxOf?_cons, if_neg (by simpa using Ne.symm ha.1), ih ha.2]
      rfl

theorem rfind_append (c : Char) (a : Text) : rfind c (a ++ [c]) = some a.length := by
  unfold rfind
  rw [List.reverse_append, List.reverse_singleton, List.singleton_append, List.idxOf?_cons,
    if_pos (by simp), Option.map_some, List.length_append, List.length_singleton]
  rfl

theorem rfind_between (a : Text) (o c : Char) (b : Text) :
    rfind c (a ++ o :: (b ++ [c])) = some (a ++ o :: b).length := by
  rw [← rfind_append c]
  simp

theorem strip_start_append (tag s : Text) : strip_start tag (tag ++ s) = some s := by
  rw [strip_start, if_pos (List.prefix_append tag s), List.drop_left]

theorem strip_end_append (tag s : Text) : strip_end tag (s ++ tag) = some s := by
  rw [strip_end, if_pos (List.suffix_append s tag), List.length_append, Nat.add_sub_cancel,
    List.take_left]

theorem slice_between (a : Text) (o c : Char) (b : Text) :
    slice (a ++ o :: (b ++ [c])) (a.length + 1) (a ++ o :: b).length = (.ok b : Run Text) := by
  have hsplit : (a ++ o :: (b ++ [c])).drop (a.length + 1) = b ++ [c] := by
    rw [← List.drop_drop, List.drop_left]
    rfl
  refine slice_of_drop hsplit ?_ ?_
  · simp
    omega
  · simp

/-! ## `Lfm2` -/

/-- `serde_json` accepts the value. -/
def Leaf.Accepted (S : Serde) : Leaf → Prop
  | .json t => (S.from_str t).isSome
  | .text _ => True

structure Lfm2Clean (S : Serde) (c : Call S.Number) : Prop where
  name_trimmed : trim c.name = c.name
  name_no_paren : '(' ∉ c.name
  name_crossed : Scan.pass ',' .start c.name = some .start
  accepted : ∀ l ∈ c.leaves, l.Accepted S
  closed : ¬ "<|tool_call_end|>".toList <:+: c.text

theorem from_str_of_accepted (hS : S.Lawful) {t : Text} {v : Json S.Number}
    (h : Derives S t (.value v)) (ht : (S.from_str t).isSome) : S.from_str t = some v := by
  obtain ⟨u, hu⟩ := Option.isSome_iff_exists.1 ht
  rw [hu, hS.agrees h hu]

theorem parse_pythonish_of_some {t : Text} {v : Json S.Number} (h : S.from_str t = some v) :
    parse_pythonish_value S t = v := by
  unfold parse_pythonish_value
  rw [h]

theorem parse_pythonish_of_accepted (hS : S.Lawful) {t : Text} {v : Json S.Number}
    (h : Derives S t (.value v)) (ht : (S.from_str t).isSome) : parse_pythonish_value S t = v :=
  parse_pythonish_of_some (from_str_of_accepted hS h ht)

theorem insert_kwarg_segment (hS : S.Lawful) {part : Text} {a : Arg S.Number}
    (h : Segment (Kwarg S) part a) (ha : a.leaf.Accepted S) (acc : List (Text × Json S.Number)) :
    insert_kwarg S acc part = insert_member acc (a.key, a.value) := by
  obtain ⟨w, t, w', hw, ht, hw', rfl⟩ := h
  obtain ⟨hkey, hw₁, hw₂, hv⟩ := ht
  unfold insert_kwarg
  rw [trim_ws hw hw', (solid_keyed hkey hv.solid ..).trim_eq, if_neg (by simp),
    split_keyed hkey hw₁ (.inr (.inl rfl))]
  dsimp only
  rw [trim_key hkey hw₁, trim_ws_left hw₂, hv.solid.trim_eq, parse_pythonish_of_accepted hS hv ha]

theorem pass_kwarg {n : ℤ} (hn : 0 ≤ n) {t : Text} {a : Arg S.Number} (h : Kwarg S t a) :
    Scan.pass ',' (.at_depth n) t = some (.at_depth n) := by
  obtain ⟨hkey, hw, hw', hv⟩ := h
  rw [pass_keyed hkey (.inl rfl) hw hw']
  exact hv.pass (.inl rfl) hn

theorem pass_kwargs {n : ℤ} (hn : 1 ≤ n) {t : Text} {args : List (Arg S.Number)}
    (h : Separated (Kwarg S) t args) : Scan.pass ',' (.at_depth n) t = some (.at_depth n) := by
  have hn₀ : 0 ≤ n := by omega
  induction h with
  | one ht => exact pass_kwarg hn₀ ht
  | cons ht hw _ ih =>
      rw [pass_trans (pass_kwarg hn₀ ht), ← List.nil_append (',' :: _),
        pass_nested (.inl rfl) (.inl rfl) ws_nil hw hn]
      exact ih

/-- The arguments between the parentheses. -/
theorem lfm2_arguments (hS : S.Lawful) {w t w' : Text} {args : List (Arg S.Number)} (hw : Ws w)
    (ht : Listed (Kwarg S) t args) (hw' : Ws w') (hargs : ∀ l ∈ args.map Arg.leaf, l.Accepted S) :
    .obj ((split_top_level (w ++ (t ++ w')) ',').foldl (insert_kwarg S) []) =
      arguments_of S args := by
  have ht := ht.attach (P := fun a => a.leaf.Accepted S) fun a ha =>
    hargs _ (List.mem_map_of_mem ha)
  refine arguments_of_listed (P := fun _ => True) (Q := fun _ => True)
    (fun t a ht _ => pass_kwarg (le_refl 0) ht.1)
    (fun t a w ht _ hw => isSome_pass_padded (pass_kwarg (le_refl 0) ht.1) hw) ?_ ?_ ht
    (.of_forall (fun _ _ => trivial) fun _ _ => trivial) hw hw'
  · intro w hw
    rw [insert_kwarg, trim_blank hw, if_pos rfl]
  · rintro part a ⟨w, t, w', hw, ⟨ht, ha⟩, hw', hpart⟩ acc
    exact insert_kwarg_segment hS ⟨w, t, w', hw, ht, hw', hpart⟩ ha acc

theorem pass_lfm2_call {t : Text} {c : Call S.Number} (h : Lfm2Call S L tools t c)
    (hc : Lfm2Clean S c) : Scan.pass ',' .start t = some .start := by
  obtain ⟨hname, hw, ht, hw'⟩ := h
  obtain rfl := hname.eq
  rw [pass_trans hc.name_crossed]
  refine pass_brackets (.inl rfl) (.inl rfl) ?_
  obtain ⟨rfl, rfl⟩ | ht := ht
  · exact pass_blank (.inl rfl) (hw.append hw') _
  · exact pass_padded (.inl rfl) hw hw' (pass_kwargs (by omega) ht)

theorem parse_lfm2_segment (hS : S.Lawful) {part : Text} {c : Call S.Number}
    (h : Segment (Lfm2Call S L tools) part c) (hc : Lfm2Clean S c) :
    ∃ found, parse_lfm2_call S part = .ok (some found) ∧ found.function = c.function S := by
  obtain ⟨w, t, w', hw, ht, hw', rfl⟩ := h
  obtain ⟨hname, hw₁, hargs, hw₂⟩ := ht
  rename_i name text w₁ t w₂ args
  obtain rfl := hname.eq
  have htight : Tight is_whitespace (text ++ '(' :: (w₁ ++ (t ++ w₂) ++ [')'])) := by
    obtain hnil | hne := eq_or_ne text []
    · rw [hnil]
      exact tight_of_ends rfl rfl _
    · have hparen : Tight is_whitespace [')'] := ⟨fun _ => Bool.false_ne_true, fun _ =>
        Bool.false_ne_true⟩
      exact (trim_eq_self_iff.1 hc.name_trimmed).join hparen hne (List.cons_ne_nil _ _)
        ('(' :: (w₁ ++ (t ++ w₂)))
  unfold parse_lfm2_call
  rw [trim_ws hw hw', trim_of_tight htight]
  dsimp only
  rw [find_append hc.name_no_paren, rfind_between]
  dsimp only
  rw [slice_between, List.take_left, hc.name_trimmed]
  refine ⟨_, rfl, ?_⟩
  exact congrArg (FunctionCall.mk text) (congrArg S.to_string
    (lfm2_arguments hS hw₁ hargs hw₂ hc.accepted))

/-- A tag that holds no blank and no comma is in a list only if it is in an item. -/
theorem not_infix_separated {α : Type} {rule : Text → α → Prop} (text : α → Text) {pat : Text}
    (hpat : pat ≠ []) (hmem : ∀ c ∈ [',', ' ', '\t', '\n', '\r'], c ∉ pat)
    (hrule : ∀ t a, rule t a → t = text a) {t : Text} {as : List α} (h : Separated rule t as)
    (has : ∀ a ∈ as, ¬ pat <:+: text a) : ¬ pat <:+: t := by
  induction h with
  | one ht =>
      rw [hrule _ _ ht]
      exact has _ (List.mem_cons_self ..)
  | cons ht hw _ ih =>
      rw [infix_append_of_not_mem (hmem ',' (List.mem_cons_self ..)), not_or, hrule _ _ ht]
      refine ⟨has _ (List.mem_cons_self ..), fun hin => ?_⟩
      exact ih (fun a ha => has a (List.mem_cons_of_mem _ ha))
        (infix_of_infix_append hpat (fun c hc => hmem c (List.mem_cons_of_mem _ (hw c hc))) hin)

/-- The only body of the format. -/
theorem lfm2_body {body w : Text} {calls : List (Call S.Number)}
    (h : Separated (Lfm2Call S L tools) body calls) (hw : Ws w)
    (hcalls : ∀ c ∈ calls, Lfm2Clean S c) :
    extract_tag_bodies ("<|tool_call_start|>".toList ++ ('[' :: (body ++ [']']) ++
        ("<|tool_call_end|>".toList ++ w))) "<|tool_call_start|>".toList "<|tool_call_end|>".toList =
      ['[' :: (body ++ [']'])] := by
  have hclosed : ¬ "<|tool_call_end|>".toList <:+: '[' :: (body ++ [']']) := by
    have hbody : ¬ "<|tool_call_end|>".toList <:+: body := by
      refine not_infix_separated Call.text (by decide) (by simp) ?_ h
        fun c hc => (hcalls c hc).closed
      rintro t c ⟨-, -, -, -⟩
      rfl
    rw [← List.nil_append ('[' :: _), infix_append_of_not_mem (by decide),
      infix_append_of_not_mem (by decide)]
    rintro (hnil | hbody' | hnil)
    · exact absurd (List.infix_nil.1 hnil) (by decide)
    · exact hbody hbody'
    · exact absurd (List.infix_nil.1 hnil) (by decide)
  -- one tagged body, as a list of one
  have hmany : Many (fun t b => ∃ w, Ws w ∧
      t = "<|tool_call_start|>".toList ++ (b ++ ("<|tool_call_end|>".toList ++ w))) _
      ['[' :: (body ++ [']'])] := .one ⟨w, hw, rfl⟩
  refine tag_bodies_of_many id ⟨'<', "|tool_call_start|>".toList, rfl, by decide⟩
    ⟨'<', "|tool_call_end|>".toList, rfl, by decide⟩ (fun w hw => not_infix_ws (by decide) hw)
    (fun t b ht => ht) hmany ?_
  intro b hb
  rw [List.mem_singleton.1 hb]
  exact hclosed

theorem lfm2_found (hS : S.Lawful) {body w : Text} {calls : List (Call S.Number)}
    (h : Separated (Lfm2Call S L tools) body calls) (hw : Ws w)
    (hcalls : ∀ c ∈ calls, Lfm2Clean S c) :
    ∃ found, extract_lfm2_tool_calls S ("<|tool_call_start|>".toList ++ ('[' :: (body ++ [']']) ++
        ("<|tool_call_end|>".toList ++ w))) = .ok found ∧
      found.map ToolCall.function = calls.map (Call.function S) := by
  have hattached := h.attach hcalls
  have hparts := split_separated_of_crossed (fun t c ht => pass_lfm2_call ht.1 ht.2) hattached
    ws_nil ws_nil
  rw [List.nil_append, List.append_nil] at hparts
  obtain ⟨found, hfound, hcalls'⟩ := filter_map_of_forall₂ (f := parse_lfm2_call S) (hparts.imp
    (by
      rintro part c ⟨w, t, w', hw, ⟨ht, hc⟩, hw', hpart⟩
      exact parse_lfm2_segment hS ⟨w, t, w', hw, ht, hw', hpart⟩ hc))
  refine ⟨found, ?_, hcalls'⟩
  have hstart : strip_start ['['] ('[' :: (body ++ [']'])) = some (body ++ [']']) :=
    strip_start_append ['['] _
  unfold extract_lfm2_tool_calls
  rw [lfm2_body h hw hcalls, filter_map, trim_of_tight (tight_of_ends rfl rfl body)]
  dsimp only
  rw [hstart, Option.getD_some, strip_end_append, Option.getD_some, hfound, filter_map]
  show Except.ok ([found] ++ []).flatten = Except.ok found
  simp

/-! ## `FunctionGemma` -/

/-- The value as it is written. -/
def Leaf.written : Leaf → Text
  | .json t => t
  | .text t => t

/-- Neither JSON nor one of the words and quoted texts of Python. -/
def Leaf.ReadAsText (S : Serde) (l : Leaf) : Prop :=
  S.from_str l.written = none ∧ l.written ≠ "True".toList ∧ l.written ≠ "False".toList ∧
    l.written ≠ "None".toList ∧ ¬ (l.written.length ≥ 2 ∧ l.written.head? = some '\'' ∧
      l.written.getLast? = some '\'')

structure FunctionGemmaClean (S : Serde) (c : Call S.Number) : Prop where
  name_trimmed : trim c.name = c.name
  name_no_brace : '\x7b' ∉ c.name
  texts : ∀ l ∈ c.leaves, l.ReadAsText S
  crossed : AllButLast (fun l => Scan.pass ',' .start l.written = some .start)
    (fun l => (Scan.pass ',' .start l.written).isSome) c.leaves
  closed : ¬ "<end_function_call>".toList <:+: c.text

theorem parse_pythonish_of_text {s : Text} (h : (Leaf.text s).ReadAsText S) :
    parse_pythonish_value S s = .str s := by
  obtain ⟨hjson, htrue, hfalse, hnone, hquoted⟩ := h
  dsimp only [Leaf.written] at hjson htrue hfalse hnone hquoted
  unfold parse_pythonish_value
  rw [hjson]
  dsimp only
  rw [if_neg htrue, if_neg hfalse, if_neg hnone, if_neg hquoted]

theorem escape_solid (s : Text) : Solid ("<escape>".toList ++ (s ++ "<escape>".toList)) := by
  have hescape : Solid "<escape>".toList :=
    ⟨⟨fun _ => Bool.false_ne_true, fun _ => Bool.false_ne_true⟩, by decide⟩
  exact hescape.join hescape s

theorem insert_gemma_param_segment {part : Text} {a : Arg S.Number}
    (h : Segment (GemmaParam S) part a) (ha : a.leaf.ReadAsText S)
    (acc : List (Text × Json S.Number)) :
    insert_gemma_param S acc part = insert_member acc (a.key, a.value) := by
  obtain ⟨w, t, w', hw, ht, hw', rfl⟩ := h
  obtain ⟨hkey, hw₁, hw₂, -⟩ := ht
  unfold insert_gemma_param
  rw [trim_ws hw hw', (solid_keyed hkey (escape_solid _) ..).trim_eq,
    split_keyed hkey hw₁ (.inr (.inr rfl))]
  dsimp only
  rw [trim_key hkey hw₁, trim_ws_left hw₂, (escape_solid _).trim_eq, strip_start_append,
    Option.bind_some, strip_end_append, Option.getD_some, parse_pythonish_of_text ha]

/-- The scanner before the value of a parameter. -/
theorem pass_gemma_param {key w w' : Text} (hkey : Identifier key) (hw : Ws w) (hw' : Ws w')
    (r : Text) : Scan.pass ',' .start (key ++ w ++ ':' :: (w' ++ ("<escape>".toList ++ r))) =
      Scan.pass ',' .start r := by
  have hescape : Scan.pass ',' (.at_depth 0) "<escape>".toList = some (.at_depth 0) := by decide
  rw [Scan.start, pass_keyed hkey (.inr rfl) hw hw', pass_trans hescape]

theorem pass_gemma_param_closed {t : Text} {a : Arg S.Number} (h : GemmaParam S t a)
    (ha : Scan.pass ',' .start a.leaf.written = some .start) :
    Scan.pass ',' .start t = some .start := by
  obtain ⟨hkey, hw, hw', -⟩ := h
  dsimp only [Leaf.written] at ha
  rw [pass_gemma_param hkey hw hw', pass_trans ha]
  decide

theorem pass_gemma_param_last {t w : Text} {a : Arg S.Number} (h : GemmaParam S t a)
    (ha : (Scan.pass ',' .start a.leaf.written).isSome) (hw : Ws w) :
    (Scan.pass ',' .start (t ++ w)).isSome := by
  obtain ⟨hkey, hw₁, hw₂, -⟩ := h
  rename_i key w₁ w₂ s
  obtain ⟨st, hst⟩ := Option.isSome_iff_exists.1 ha
  dsimp only [Leaf.written] at hst
  have htext : key ++ w₁ ++ ':' :: (w₂ ++ ("<escape>".toList ++ (s ++ "<escape>".toList))) ++ w =
      key ++ w₁ ++ ':' :: (w₂ ++ ("<escape>".toList ++ (s ++ ("<escape>".toList ++ w)))) := by
    simp
  rw [htext, pass_gemma_param hkey hw₁ hw₂, pass_trans hst]
  refine pass_isSome_of_not_mem st fun hmem => ?_
  obtain hmem | hmem := List.mem_append.1 hmem
  · revert hmem
    decide
  · exact hw.not_mem (by decide) hmem

/-- The parameters between the braces. -/
theorem function_gemma_arguments {w t w' : Text} {args : List (Arg S.Number)} (hw : Ws w)
    (ht : Listed (GemmaParam S) t args) (hw' : Ws w')
    (htexts : ∀ l ∈ args.map Arg.leaf, l.ReadAsText S)
    (hcrossed : AllButLast (fun l => Scan.pass ',' .start l.written = some .start)
      (fun l => (Scan.pass ',' .start l.written).isSome) (args.map Arg.leaf)) :
    .obj ((split_top_level (w ++ (t ++ w')) ',').foldl (insert_gemma_param S) []) =
      arguments_of S args := by
  have ht := ht.attach (P := fun a => a.leaf.ReadAsText S) fun a ha =>
    htexts _ (List.mem_map_of_mem ha)
  refine arguments_of_listed
    (P := fun a => Scan.pass ',' .start (Arg.leaf a).written = some .start)
    (Q := fun a => (Scan.pass ',' .start (Arg.leaf a).written).isSome)
    (fun t a ht ha => pass_gemma_param_closed ht.1 ha)
    (fun t a w ht ha hw => pass_gemma_param_last ht.1 ha hw) ?_ ?_ ht hcrossed.of_map hw hw'
  · intro w hw
    rw [insert_gemma_param, trim_blank hw]
    rfl
  · rintro part a ⟨w, t, w', hw, ⟨ht, ha⟩, hw', hpart⟩ acc
    exact insert_gemma_param_segment ⟨w, t, w', hw, ht, hw', hpart⟩ ha acc

theorem parse_function_gemma_call {t : Text} {c : Call S.Number}
    (h : FunctionGemmaCall S L tools t c) (hc : FunctionGemmaClean S c) :
    ∃ found, parse_gemma_call_body S c.text = .ok (some found) ∧
      found.function = c.function S := by
  obtain ⟨hname, hw, hargs, hw', -, rfl⟩ := h
  rename_i name text w t w' w'' args
  obtain rfl := hname.eq
  have htight : Tight is_whitespace ("call:".toList ++
      (text ++ '\x7b' :: (w ++ (t ++ w') ++ ['\x7d']))) := by
    have hends := tight_of_ends (p := is_whitespace) (c := 'c') (d := '\x7d') rfl rfl
      ("all:".toList ++ (text ++ '\x7b' :: (w ++ (t ++ w'))))
    simpa using hends
  unfold parse_gemma_call_body
  dsimp only
  rw [trim_of_tight htight, strip_start_append]
  dsimp only
  rw [find_append hc.name_no_brace, rfind_between]
  dsimp only
  rw [slice_between, List.take_left, hc.name_trimmed]
  refine ⟨_, rfl, ?_⟩
  exact congrArg (FunctionCall.mk text) (congrArg S.to_string
    (function_gemma_arguments hw hargs hw' hc.texts hc.crossed))

theorem function_gemma_found {t : Text} {calls : List (Call S.Number)}
    (h : Many (FunctionGemmaCall S L tools) t calls)
    (hcalls : ∀ c ∈ calls, FunctionGemmaClean S c) :
    ∃ found, extract_function_gemma_tool_calls S t = .ok found ∧
      found.map ToolCall.function = calls.map (Call.function S) := by
  have hbodies : extract_tag_bodies t "<start_function_call>".toList "<end_function_call>".toList =
      calls.map Call.text := by
    refine tag_bodies_of_many Call.text ⟨'<', "start_function_call>".toList, rfl, by decide⟩
      ⟨'<', "end_function_call>".toList, rfl, by decide⟩ (fun w hw => not_infix_ws (by decide) hw)
      ?_ h fun c hc => (hcalls c hc).closed
    rintro t c ⟨-, -, -, -, hw, -⟩
    exact ⟨_, hw, rfl⟩
  unfold extract_function_gemma_tool_calls
  rw [hbodies]
  refine filter_map_of_forall₂ (forall₂_texts fun c hc => ?_)
  obtain ⟨t, ht⟩ := h.rule_of_mem hc
  exact parse_function_gemma_call ht (hcalls c hc)

/-! ## `Gemma4` -/

/-- A number that `serde_json` accepts, or a string without an escape. -/
def Leaf.Unescaped (S : Serde) : Leaf → Prop
  | .json t => (S.from_str t).isSome
  | .text t => '\\' ∉ t

structure Gemma4Clean (S : Serde) (c : Call S.Number) : Prop where
  name_trimmed : trim c.name = c.name
  name_no_brace : '\x7b' ∉ c.name
  unescaped : ∀ l ∈ c.leaves, l.Unescaped S
  closed : ¬ "<tool_call|>".toList <:+: c.text

theorem strip_quote_eq_none {s : Text} (h : s.head? ≠ some '<') :
    strip_start gemma_quote s = none := by
  rw [strip_start, if_neg]
  rintro ⟨r, rfl⟩
  exact h rfl

theorem getLast?_ends (c d : Char) (s : Text) : (c :: (s ++ [d])).getLast? = some d := by
  rw [← List.cons_append, List.getLast?_concat]

/-- Words and numbers are left to `serde_json`. -/
theorem parse_gemma4_word {s : Text} (hs : ∀ c ∈ s, c.isAlphanum ∨ c ∈ ['_', '-', '+', '.'])
    (fuel : ℕ) : parse_gemma4_value S (fuel + 1) s = parse_pythonish_value S s := by
  have hhead : ∀ c, ¬ (c.isAlphanum ∨ c ∈ ['_', '-', '+', '.']) → s.head? ≠ some c := by
    intro c hc hhead
    exact hc (hs c (List.mem_of_mem_head? hhead))
  rw [parse_gemma4_value, strip_quote_eq_none (hhead '<' (by decide)), Option.bind_none]
  dsimp only
  rw [if_neg fun hobj => hhead '\x7b' (by decide) hobj.1,
    if_neg fun harr => hhead '[' (by decide) harr.1]

theorem parse_gemma4_string {s : Text} (hs : '\\' ∉ s) (fuel : ℕ) :
    parse_gemma4_value S (fuel + 1) (gemma_quote ++ (s ++ gemma_quote)) = string_value S s := by
  rw [parse_gemma4_value, strip_start_append, Option.bind_some, strip_end_append, string_value,
    unescape_of_not_mem hs]
  rfl

theorem parse_gemma4_array (inner : Text) (fuel : ℕ) :
    parse_gemma4_value S (fuel + 1) ('[' :: (inner ++ [']'])) =
      .arr (((split_top_level inner ',').filter fun s => trim s ≠ []).map fun s =>
        parse_gemma4_value S fuel (trim s)) := by
  have hinner : (('[' :: (inner ++ [']'])).drop 1).take (('[' :: (inner ++ [']'])).length - 2) =
      inner := by
    simp
  rw [parse_gemma4_value, strip_quote_eq_none (by simp), Option.bind_none]
  dsimp only
  rw [if_neg (by simp), if_pos ⟨rfl, getLast?_ends ..⟩, hinner]

theorem gemma4_object_braces (value : Text → Json S.Number) (inner : Text) :
    gemma4_object S value ('\x7b' :: (inner ++ ['\x7d'])) =
      some (.obj ((split_top_level inner ',').foldl (insert_gemma4_member S value) [])) := by
  have hstart : strip_start ['\x7b'] ('\x7b' :: (inner ++ ['\x7d'])) = some (inner ++ ['\x7d']) :=
    strip_start_append ['\x7b'] _
  rw [gemma4_object, trim_of_tight (tight_of_ends rfl rfl inner), hstart]
  dsimp only [Option.bind_eq_bind, Option.bind_some]
  rw [strip_end_append]
  rfl

theorem parse_gemma4_braces (inner : Text) (fuel : ℕ) :
    parse_gemma4_value S (fuel + 1) ('\x7b' :: (inner ++ ['\x7d'])) =
      .obj ((split_top_level inner ',').foldl
        (insert_gemma4_member S (parse_gemma4_value S fuel)) []) := by
  rw [parse_gemma4_value, strip_quote_eq_none (by simp), Option.bind_none]
  dsimp only
  rw [if_pos ⟨rfl, getLast?_ends ..⟩, gemma4_object_braces]
  rfl

theorem pass_gemma4_member {k w w' t : Text} {v : Json S.Number} {ls : List Leaf}
    (hk : Identifier k) (hw : Ws w) (hw' : Ws w') (ht : Gemma S t (.value v) ls) :
    Scan.pass ',' .start (k ++ w ++ ':' :: (w' ++ t)) = some .start := by
  rw [Scan.start, pass_keyed hk (.inr rfl) hw hw']
  exact ht.pass (.inl rfl) (le_refl 0)

theorem insert_gemma4_member_padded {k w w' t : Text} {v : Json S.Number} {ls : List Leaf}
    (hk : Identifier k) (hw : Ws w) (hw' : Ws w') (ht : Gemma S t (.value v) ls)
    {value : Text → Json S.Number} (hvalue : value t = v) {p p' : Text} (hp : Ws p) (hp' : Ws p')
    (acc : List (Text × Json S.Number)) :
    insert_gemma4_member S value acc (p ++ (k ++ w ++ ':' :: (w' ++ t) ++ p')) =
      insert_member acc (k, v) := by
  unfold insert_gemma4_member
  rw [trim_ws hp hp', (solid_keyed hk ht.solid ..).trim_eq, if_neg (by simp),
    split_keyed hk hw (.inr (.inr rfl))]
  dsimp only
  rw [trim_key hk hw, trim_ws_left hw', ht.solid.trim_eq, hvalue]

/-- What the extractor makes of a part of a value. -/
def Part.Read (S : Serde) (t : Text) : Part S.Number → Prop
  | .value v => ∀ fuel, t.length < fuel → parse_gemma4_value S fuel t = v
  | .elements vs => ∀ fuel w w', t.length < fuel → Ws w → Ws w' →
      (((split_top_level (w ++ (t ++ w')) ',').filter fun s => trim s ≠ []).map fun s =>
        parse_gemma4_value S fuel (trim s)) = vs
  | .members ms => ∀ fuel w w' acc, t.length < fuel → Ws w → Ws w' →
      (split_top_level (w ++ (t ++ w')) ',').foldl
        (insert_gemma4_member S (parse_gemma4_value S fuel)) acc = ms.foldl insert_member acc

theorem read_word {t : Text} {v : Json S.Number}
    (ht : ∀ c ∈ t, c.isAlphanum ∨ c ∈ ['_', '-', '+', '.']) (hv : parse_pythonish_value S t = v) :
    (Part.value v).Read S t := by
  rintro (_ | fuel) hfuel
  · cases hfuel
  · rw [parse_gemma4_word ht, hv]

/-- A value of an array is not blank, and is read without its blanks. -/
theorem filter_map_padded {t w w' : Text} {v : Json S.Number} {ls : List Leaf}
    (ht : Gemma S t (.value v) ls) (hw : Ws w) (hw' : Ws w') {β : Type} (f : Text → β)
    (parts : List Text) :
    (((w ++ (t ++ w')) :: parts).filter fun s => trim s ≠ []).map (fun s => f (trim s)) =
      f t :: (parts.filter fun s => trim s ≠ []).map fun s => f (trim s) := by
  have htrim : trim (w ++ (t ++ w')) = t := by rw [trim_ws hw hw', ht.solid.trim_eq]
  rw [List.filter_cons_of_pos (by simpa [htrim] using ht.solid.2), List.map_cons, htrim]

/-- Values without escapes are read as what they stand for. -/
theorem Gemma.read (hS : S.Lawful) {t : Text} {part : Part S.Number} {ls : List Leaf}
    (h : Gemma S t part ls) (hls : ∀ l ∈ ls, l.Unescaped S) : part.Read S t := by
  induction h with
  | null => exact read_word (word_of_alphanum rfl) (parse_pythonish_of_some hS.null)
  | «true» => exact read_word (word_of_alphanum rfl) (parse_pythonish_of_some hS.true)
  | «false» => exact read_word (word_of_alphanum rfl) (parse_pythonish_of_some hS.false)
  | number hnum =>
      exact read_word hnum.word
        (parse_pythonish_of_accepted hS (.number hnum) (hls _ (List.mem_cons_self ..)))
  | string _ =>
      rintro (_ | fuel) hfuel
      · cases hfuel
      · exact parse_gemma4_string (hls _ (List.mem_cons_self ..)) fuel
  | array_empty hw =>
      rintro (_ | fuel) hfuel
      · cases hfuel
      · rw [parse_gemma4_array, split_blank hw, List.filter_cons_of_neg (by simp [trim_blank hw])]
        rfl
  | array hw _ hw' ih =>
      rintro (_ | fuel) hfuel
      · cases hfuel
      · simp only [List.length_cons, List.length_append] at hfuel
        rw [parse_gemma4_array, ih hls fuel _ _ (by omega) hw hw']
  | object_empty hw =>
      rintro (_ | fuel) hfuel
      · cases hfuel
      · rw [parse_gemma4_braces, split_blank hw, List.foldl_cons, List.foldl_nil,
          insert_gemma4_member, trim_blank hw, if_pos rfl]
  | object hw _ hw' ih =>
      rintro (_ | fuel) hfuel
      · cases hfuel
      · simp only [List.length_cons, List.length_append] at hfuel
        rw [parse_gemma4_braces, ih hls fuel _ _ [] (by omega) hw hw']
        rfl
  | element ht ih =>
      intro fuel w w' hfuel hw hw'
      rw [split_last (isSome_pass_padded (ht.pass (.inl rfl) (le_refl 0)) hw') hw,
        filter_map_padded ht hw hw', ih hls fuel hfuel]
      rfl
  | elements ht hw₁ _ ih ih' =>
      intro fuel w w' hfuel hw hw'
      simp only [List.length_cons, List.length_append] at hfuel
      rw [split_item (ht.pass (.inl rfl) (le_refl 0)) hw, filter_map_padded ht hw ws_nil,
        ih (fun l hl => hls l (List.mem_append_left _ hl)) fuel (by omega),
        ih' (fun l hl => hls l (List.mem_append_right _ hl)) fuel _ _ (by omega) hw₁ hw']
  | member hk hw₁ hw₂ ht ih =>
      intro fuel w w' acc hfuel hw hw'
      simp only [List.length_cons, List.length_append] at hfuel
      rw [split_last (isSome_pass_padded (pass_gemma4_member hk hw₁ hw₂ ht) hw') hw,
        List.foldl_cons, List.foldl_nil,
        insert_gemma4_member_padded hk hw₁ hw₂ ht (ih hls fuel (by omega)) hw hw']
      rfl
  | members hk hw₁ hw₂ ht hw₃ _ ih ih' =>
      intro fuel w w' acc hfuel hw hw'
      simp only [List.length_cons, List.length_append] at hfuel
      rw [split_item (pass_gemma4_member hk hw₁ hw₂ ht) hw, List.foldl_cons,
        insert_gemma4_member_padded hk hw₁ hw₂ ht
          (ih (fun l hl => hls l (List.mem_append_left _ hl)) fuel (by omega)) hw ws_nil,
        ih' (fun l hl => hls l (List.mem_append_right _ hl)) fuel _ _ _ (by omega) hw₃ hw']
      rfl

theorem Gemma.braces {t : Text} {ms : List (Text × Json S.Number)} {ls : List Leaf}
    (h : Gemma S t (.value (.obj ms)) ls) : ∃ inner, t = '\x7b' :: (inner ++ ['\x7d']) := by
  generalize hpart : Part.value (Json.obj ms) = part at h
  cases h with
  | object_empty _ => exact ⟨_, rfl⟩
  | object _ _ _ => exact ⟨_, rfl⟩
  | number _ =>
      rw [number_value] at hpart
      cases hnumber : S.number t <;> rw [hnumber] at hpart <;> cases hpart
  | @string s _ =>
      rw [string_value] at hpart
      cases hstring : unescape s <;> rw [hstring] at hpart <;> cases hpart
  | null | «true» | «false» | array_empty _ | array _ _ _ => cases hpart
  | element _ | elements _ _ _ | member _ _ _ _ | members _ _ _ _ _ _ => cases hpart

theorem parse_gemma4_object_read (hS : S.Lawful) {t : Text} {ms : List (Text × Json S.Number)}
    {ls : List Leaf} (h : Gemma S t (.value (.obj ms)) ls) (hls : ∀ l ∈ ls, l.Unescaped S) :
    parse_gemma4_object S t = some (.obj ms) := by
  have hread := h.read hS hls (t.length + 2) (by omega)
  obtain ⟨inner, rfl⟩ := h.braces
  rw [parse_gemma4_braces] at hread
  rw [parse_gemma4_object, gemma4_object_braces, hread]

theorem parse_gemma4_call_read (hS : S.Lawful) {t : Text} {c : Call S.Number}
    (h : Gemma4Call S L tools t c) (hc : Gemma4Clean S c) :
    ∃ found, parse_gemma4_call S c.text = .ok (some found) ∧ found.function = c.function S := by
  obtain ⟨hname, hobj, -, rfl⟩ := h
  rename_i name text obj w ms ls
  obtain rfl := hname.eq
  have hobject := parse_gemma4_object_read hS hobj hc.unescaped
  obtain ⟨inner, rfl⟩ := hobj.braces
  have htight : Tight is_whitespace ("call:".toList ++ (text ++ '\x7b' :: (inner ++ ['\x7d']))) := by
    have hends := tight_of_ends (p := is_whitespace) (c := 'c') (d := '\x7d') rfl rfl
      ("all:".toList ++ (text ++ '\x7b' :: inner))
    simpa using hends
  have hslice : slice (text ++ '\x7b' :: (inner ++ ['\x7d'])) text.length
      ((text ++ '\x7b' :: inner).length + 1) =
        (.ok ('\x7b' :: (inner ++ ['\x7d'])) : Run Text) := by
    have hdrop : (text ++ '\x7b' :: (inner ++ ['\x7d'])).drop text.length =
        '\x7b' :: (inner ++ ['\x7d']) ++ [] := by
      rw [List.drop_left, List.append_nil]
    refine slice_of_drop hdrop ?_ ?_
    · simp
      omega
    · simp
  unfold parse_gemma4_call
  rw [trim_of_tight htight, strip_start_append]
  dsimp only
  rw [find_append hc.name_no_brace, rfind_between]
  dsimp only
  rw [hslice, List.take_left, hc.name_trimmed]
  refine ⟨tool_call text ("call:".toList ++ (text ++ '\x7b' :: (inner ++ ['\x7d'])))
    (S.to_string (.obj ms)), ?_, rfl⟩
  show Except.ok ((parse_gemma4_object S ('\x7b' :: (inner ++ ['\x7d']))).map _) = _
  rw [hobject, Option.map_some]

theorem gemma4_found (hS : S.Lawful) {t : Text} {calls : List (Call S.Number)}
    (h : Many (Gemma4Call S L tools) t calls) (hcalls : ∀ c ∈ calls, Gemma4Clean S c) :
    ∃ found, extract_gemma4_tool_calls S t = .ok found ∧
      found.map ToolCall.function = calls.map (Call.function S) := by
  have hbodies : extract_tag_bodies t "<|tool_call>".toList "<tool_call|>".toList =
      calls.map Call.text := by
    refine tag_bodies_of_many Call.text ⟨'<', "|tool_call>".toList, rfl, by decide⟩
      ⟨'<', "tool_call|>".toList, rfl, by decide⟩ (fun w hw => not_infix_ws (by decide) hw)
      ?_ h fun c hc => (hcalls c hc).closed
    rintro t c ⟨-, -, hw, -⟩
    exact ⟨_, hw, rfl⟩
  unfold extract_gemma4_tool_calls
  rw [hbodies]
  refine filter_map_of_forall₂ (forall₂_texts fun c hc => ?_)
  obtain ⟨t, ht⟩ := h.rule_of_mem hc
  exact parse_gemma4_call_read hS ht (hcalls c hc)

/-! ## `Ministral3` -/

structure MinistralClean (S : Serde) (c : Call S.Number) : Prop where
  name_trimmed : trim c.name = c.name
  name_ne_nil : c.name ≠ []
  name_no_mark : ¬ "[ARGS]".toList <:+: c.name
  accepted : ∀ l ∈ c.leaves, l.Accepted S
  closed : ∀ l ∈ c.leaves, ¬ "[TOOL_CALLS]".toList <:+: l.written

/-- The next call, or nothing. -/
def AtCall (t : Text) : Prop := t = [] ∨ ∃ r, t = "[TOOL_CALLS]".toList ++ r

/-- One round of the loop. -/
theorem ministral_calls_step (hS : S.Lawful) {t : Text} {c : Call S.Number}
    (h : MinistralCall S L tools t c) (hc : MinistralClean S c) {rest : Text} (hrest : AtCall rest)
    (fuel : ℕ) : ∃ found, ministral_calls S (fuel + 1) (t ++ rest) =
        found :: ministral_calls S fuel rest ∧ found.function = c.function S := by
  obtain ⟨hname, hobj, hw⟩ := h
  rename_i name text obj w ms
  obtain rfl := hname.eq
  have hcalls : Tag "[TOOL_CALLS]".toList := ⟨'[', "TOOL_CALLS]".toList, rfl, by decide⟩
  have hargs : Tag "[ARGS]".toList := ⟨'[', "ARGS]".toList, rfl, by decide⟩
  have hraw : ¬ "[TOOL_CALLS]".toList <:+: obj ++ w := by
    have hblank : ∀ x ∈ [' ', '\t', '\n', '\r'], x ∉ "[TOOL_CALLS]".toList := by simp
    intro hin
    exact hc.closed _ (List.mem_cons_self ..)
      (infix_of_infix_append_right (by decide) (fun x hx => hblank x (hw x hx)) hin)
  have htext : "[TOOL_CALLS]".toList ++ (text ++ ("[ARGS]".toList ++ (obj ++ w))) ++ rest =
      [] ++ ("[TOOL_CALLS]".toList ++ (text ++ ("[ARGS]".toList ++ (obj ++ w ++ rest)))) := by
    simp
  -- what the search for the next call gives, with and without one
  have hnext : split_at_call (obj ++ w ++ rest) = (obj ++ w, rest) := by
    unfold split_at_call
    obtain rfl | ⟨r, rfl⟩ := hrest
    · rw [List.append_nil, cut_eq_none hraw]
    · rw [cut_append hcalls hraw]
  refine ⟨tool_call text obj (S.to_string (.obj ms)), ?_, rfl⟩
  have hjson : S.from_str obj = some (.obj ms) :=
    from_str_of_accepted hS hobj (hc.accepted _ (List.mem_cons_self ..))
  rw [htext, ministral_calls, cut_append hcalls (by simp)]
  dsimp only
  rw [cut_append hargs hc.name_no_mark]
  dsimp only
  rw [hnext]
  dsimp only
  rw [hc.name_trimmed, if_neg hc.name_ne_nil, trim_ws_right hw, hobj.solid.trim_eq, hjson]
  rfl

theorem ministral_at_call {t : Text} {calls : List (Call S.Number)}
    (h : Many (MinistralCall S L tools) t calls) : AtCall t := by
  cases h with
  | one ht =>
      obtain ⟨-, -, -⟩ := ht
      exact .inr ⟨_, rfl⟩
  | cons ht _ =>
      obtain ⟨-, -, -⟩ := ht
      exact .inr ⟨_, List.append_assoc ..⟩

theorem ministral_calls_found (hS : S.Lawful) {t : Text} {calls : List (Call S.Number)}
    (h : Many (MinistralCall S L tools) t calls) (hcalls : ∀ c ∈ calls, MinistralClean S c)
    {fuel : ℕ} (hfuel : calls.length < fuel) :
    (ministral_calls S fuel t).map ToolCall.function = calls.map (Call.function S) := by
  induction h generalizing fuel with
  | one ht =>
      obtain ⟨fuel, rfl⟩ : ∃ k, fuel = k + 2 := ⟨fuel - 2, by simp at hfuel; omega⟩
      obtain ⟨found, hfound, hcall⟩ := ministral_calls_step hS ht
        (hcalls _ (List.mem_cons_self ..)) (.inl rfl) (fuel + 1)
      rw [List.append_nil] at hfound
      rw [hfound, List.map_cons, hcall]
      rfl
  | cons ht hrest ih =>
      obtain ⟨fuel, rfl⟩ : ∃ k, fuel = k + 1 := ⟨fuel - 1, by omega⟩
      obtain ⟨found, hfound, hcall⟩ := ministral_calls_step hS ht
        (hcalls _ (List.mem_cons_self ..)) (ministral_at_call hrest) fuel
      rw [hfound, List.map_cons, hcall,
        ih (fun c hc => hcalls c (List.mem_cons_of_mem _ hc)) (by simp at hfuel; omega)]
      rfl

theorem ministral_found (hS : S.Lawful) {t : Text} {calls : List (Call S.Number)}
    (h : Many (MinistralCall S L tools) t calls) (hcalls : ∀ c ∈ calls, MinistralClean S c) :
    (extract_ministral_tool_calls S t).map ToolCall.function = calls.map (Call.function S) := by
  refine ministral_calls_found hS h hcalls (Nat.lt_succ_of_le (h.length_le ?_))
  rintro t c ⟨-, -, -⟩
  exact List.cons_ne_nil _ _

/-! ## `QwenFunction` -/

/-- A name that its literal keeps, and the search for the end of the tag. -/
structure PlainName (k : Text) : Prop where
  trimmed : trim k = k
  no_bracket : '>' ∉ k
  no_quote : '"' ∉ k
  no_backslash : '\\' ∉ k

/-- A typed value that `serde_json` accepts, or a trimmed text that it refuses. -/
def Leaf.ReadAsTyped (S : Serde) : Leaf → Prop
  | .json t => (S.from_str t).isSome
  | .text t => trim t = t ∧ S.from_str t = none

structure QwenFunctionClean (S : Serde) (c : Call S.Number) : Prop where
  name : PlainName c.name
  params : ∀ k ∈ c.params, PlainName k ∧ ¬ "</function>".toList <:+: k ++ ['>']
  typed : ∀ l ∈ c.leaves, l.ReadAsTyped S
  values : ∀ l ∈ c.leaves, ¬ "</parameter>".toList <:+: l.written ∧
    ¬ "</function>".toList <:+: l.written
  closed : ¬ "</tool_call>".toList <:+: c.text

/-- A value is read as its type says. -/
theorem ParameterValue.read (hS : S.Lawful) {schema v : Json S.Number} {s : Text} {leaf : Leaf}
    (h : ParameterValue S L schema s v leaf) (hl : leaf.ReadAsTyped S) :
    Tight is_whitespace s ∧ (S.from_str s).getD (.str s) = v ∧ leaf.written = s := by
  have htyped : ∀ {t : Text} {v : Json S.Number}, Derives S t (.value v) → (S.from_str t).isSome →
      Tight is_whitespace t ∧ (S.from_str t).getD (.str t) = v ∧ (Leaf.json t).written = t := by
    intro t v ht hsome
    refine ⟨ht.solid.1, ?_, rfl⟩
    rw [from_str_of_accepted hS ht hsome, Option.getD_some]
  have htext : ∀ {t : Text}, trim t = t ∧ S.from_str t = none →
      Tight is_whitespace t ∧ (S.from_str t).getD (.str t) = .str t ∧ (Leaf.text t).written = t := by
    intro t ht
    refine ⟨trim_eq_self_iff.1 ht.1, ?_, rfl⟩
    rw [ht.2, Option.getD_none]
  cases h with
  | text _ _ _ => exact htext hl
  | enum _ _ _ => exact htext hl
  | number _ hnum => exact htyped (.number hnum) hl
  | «true» _ => exact htyped .true hl
  | «false» _ => exact htyped .false hl
  | null _ => exact htyped .null hl
  | array _ hd => exact htyped hd hl
  | object _ hd => exact htyped hd hl

/-- What a clean parameter is: the key within its tag, and a value that is read as it was
meant. -/
structure PlainParam (S : Serde) (t : Text) (a : Arg S.Number) (s : Text) : Prop where
  text : t = "<parameter=".toList ++ (a.key ++ '>' :: '\n' :: (s ++ '\n' ::
    ("</parameter>".toList ++ ['\n'])))
  key : PlainName a.key
  key_open : ¬ "</function>".toList <:+: a.key ++ ['>']
  tight : Tight is_whitespace s
  value : (S.from_str s).getD (.str s) = a.value
  no_parameter : ¬ "</parameter>".toList <:+: s
  no_function : ¬ "</function>".toList <:+: s

theorem QwenParam.plain (hS : S.Lawful) {props : List (Text × Json S.Number)} {rule t : Text}
    {a : Arg S.Number} (h : QwenParam S L props rule t a)
    (hkey : PlainName a.key ∧ ¬ "</function>".toList <:+: a.key ++ ['>'])
    (htyped : a.leaf.ReadAsTyped S) (hvalue : ¬ "</parameter>".toList <:+: a.leaf.written ∧
      ¬ "</function>".toList <:+: a.leaf.written) : ∃ s, PlainParam S t a s := by
  obtain ⟨-, -, -, -, hhead, hv⟩ := h
  rename_i p q head s v leaf
  obtain ⟨htight, hread, hwritten⟩ := hv.read hS htyped
  dsimp only at hvalue hkey
  rw [hwritten] at hvalue
  have hopen : ∀ c ∈ "<parameter=".toList, c ≠ '"' ∧ c ≠ '\\' := by simp
  rw [literal_of_plain hopen hkey.1.no_quote hkey.1.no_backslash hhead]
  refine ⟨s, ?_, hkey.1, hkey.2, htight, hread, hvalue.1, hvalue.2⟩
  simp

inductive PlainParams (S : Serde) : Text → List (Arg S.Number) → Prop
  | nil : PlainParams S [] []
  | cons {t s t' : Text} {a : Arg S.Number} {args : List (Arg S.Number)} : PlainParam S t a s →
      PlainParams S t' args → PlainParams S (t ++ t') (a :: args)

theorem QwenParams.plain (hS : S.Lawful) {props ps : List (Text × Json S.Number)}
    {required : List Text} {t : Text} {args : List (Arg S.Number)}
    (h : QwenParams S L props required ps t args)
    (hkeys : ∀ k ∈ args.map Arg.key, PlainName k ∧ ¬ "</function>".toList <:+: k ++ ['>'])
    (htyped : ∀ l ∈ args.map Arg.leaf, l.ReadAsTyped S)
    (hvalues : ∀ l ∈ args.map Arg.leaf, ¬ "</parameter>".toList <:+: l.written ∧
      ¬ "</function>".toList <:+: l.written) : PlainParams S t args := by
  induction h with
  | nil => exact .nil
  | skip _ _ ih => exact ih hkeys htyped hvalues
  | take hparam _ ih =>
      obtain ⟨s, hplain⟩ := hparam.plain hS (hkeys _ (List.mem_cons_self ..))
        (htyped _ (List.mem_cons_self ..)) (hvalues _ (List.mem_cons_self ..))
      exact .cons hplain (ih (fun k hk => hkeys k (List.mem_cons_of_mem _ hk))
        (fun l hl => htyped l (List.mem_cons_of_mem _ hl))
        fun l hl => hvalues l (List.mem_cons_of_mem _ hl))

/-- No parameter ends the function: the line breaks keep its tag within one of the
parts. -/
theorem PlainParams.not_infix {t : Text} {args : List (Arg S.Number)} (h : PlainParams S t args) :
    ¬ "</function>".toList <:+: '\n' :: t := by
  have hbreak : '\n' ∉ "</function>".toList := by decide
  induction h with
  | nil => decide
  | @cons t s t' a args hparam _ ih =>
      have htext : '\n' :: (t ++ t') = [] ++ '\n' :: (("<parameter".toList ++ '=' ::
          (a.key ++ ['>'])) ++ '\n' :: (s ++ '\n' :: ("</parameter>".toList ++ '\n' :: t'))) := by
        rw [hparam.text]
        simp
      rw [htext, infix_append_of_not_mem hbreak, infix_append_of_not_mem hbreak,
        infix_append_of_not_mem (by decide), infix_append_of_not_mem hbreak,
        infix_append_of_not_mem hbreak]
      rintro (hnil | (hopen | hkey) | hvalue | hclose | hrest)
      · exact absurd hnil (by decide)
      · exact absurd hopen (by decide)
      · exact hparam.key_open hkey
      · exact hparam.no_function hvalue
      · exact absurd hclose (by decide)
      · exact ih (hrest.trans (List.suffix_cons _ _).isInfix)

/-- What stands between the tags of a parameter is the value between line breaks. -/
theorem trim_value {s : Text} (h : Tight is_whitespace s) :
    trim (trim_newlines ('\n' :: (s ++ ['\n']))) = s := by
  have hnewline : ∀ c ∈ ['\n'], (c == '\n') = true := by simp
  have hmono : Tight (· == '\n') s := h.mono fun c hc => by
    rw [beq_iff_eq.1 hc]
    rfl
  have hinner : trim_newlines ('\n' :: (s ++ ['\n'])) = s := by
    rw [trim_newlines, ← List.singleton_append, trim_pad hnewline hnewline]
    exact trim_eq_self_iff.2 hmono
  rw [hinner, trim_of_tight h]

/-- One round of the loop. -/
theorem parse_parameters_step {t s : Text} {a : Arg S.Number} (h : PlainParam S t a s) (t' : Text)
    (fuel : ℕ) (acc : List (Text × Json S.Number)) :
    parse_parameters S (fuel + 1) ('\n' :: (t ++ t')) acc =
      parse_parameters S fuel ('\n' :: t') (insert_member acc (a.key, a.value)) := by
  have htext : '\n' :: (t ++ t') = ['\n'] ++ ("<parameter=".toList ++ (a.key ++ (['>'] ++
      (('\n' :: (s ++ ['\n'])) ++ ("</parameter>".toList ++ '\n' :: t'))))) := by
    rw [h.text]
    simp
  have hvalue : ¬ "</parameter>".toList <:+: '\n' :: (s ++ ['\n']) := by
    have hbreak : ∀ c ∈ ['\n'], c ∉ "</parameter>".toList := by simp
    intro hin
    exact h.no_parameter (infix_of_infix_append_right (by decide) hbreak
      (infix_of_infix_append (by decide) hbreak hin))
  have hopen : Tag "<parameter=".toList := ⟨'<', "parameter=".toList, rfl, by decide⟩
  have hclose : Tag "</parameter>".toList := ⟨'<', "/parameter>".toList, rfl, by decide⟩
  rw [htext, parse_parameters, cut_append hopen (by decide)]
  dsimp only
  rw [cut_append ⟨'>', [], rfl, List.not_mem_nil⟩ (not_infix_of_not_mem h.key.no_bracket)]
  dsimp only
  rw [cut_append hclose hvalue]
  dsimp only
  rw [trim_value h.tight, h.key.trimmed, h.value]

theorem PlainParams.parse {t : Text} {args : List (Arg S.Number)} (h : PlainParams S t args)
    {fuel : ℕ} (hfuel : args.length < fuel) (acc : List (Text × Json S.Number)) :
    parse_parameters S fuel ('\n' :: t) acc =
      (args.map fun a => (a.key, a.value)).foldl insert_member acc := by
  induction h generalizing fuel acc with
  | nil =>
      obtain ⟨fuel, rfl⟩ : ∃ k, fuel = k + 1 := ⟨fuel - 1, by omega⟩
      rw [parse_parameters, cut_eq_none (by decide)]
      rfl
  | cons hparam _ ih =>
      obtain ⟨fuel, rfl⟩ : ∃ k, fuel = k + 1 := ⟨fuel - 1, by omega⟩
      rw [parse_parameters_step hparam, ih (by simpa using hfuel)]
      rfl

theorem PlainParams.length_le {t : Text} {args : List (Arg S.Number)} (h : PlainParams S t args) :
    args.length ≤ t.length := by
  induction h with
  | nil => exact le_refl 0
  | @cons t s t' a args hparam _ ih =>
      have hpos : 0 < t.length := by
        rw [hparam.text]
        exact Nat.succ_pos _
      rw [List.length_cons, List.length_append]
      omega

/-- What a clean call is within its tags. -/
theorem QwenFunctionCall.plain (hS : S.Lawful) {t : Text} {c : Call S.Number}
    (h : QwenFunctionCall S L tools t c) (hc : QwenFunctionClean S c) :
    ∃ p args, PlainParams S p args ∧ c.arguments = arguments_of S args ∧
      c.text = ['\n'] ++ ("<function=".toList ++ (c.name ++ (['>'] ++ (('\n' :: p) ++
        ("</function>".toList ++ ['\n']))))) := by
  obtain ⟨-, hhead, hparams⟩ := h
  rename_i tool head t args
  have hopen : ∀ c ∈ "<function=".toList, c ≠ '"' ∧ c ≠ '\\' := by simp
  have hheadtext := literal_of_plain hopen hc.name.no_quote hc.name.no_backslash hhead
  refine ⟨t, args, hparams.plain hS hc.params hc.typed hc.values, rfl, ?_⟩
  dsimp only at hheadtext ⊢
  rw [hheadtext]
  simp

theorem parse_function_read (hS : S.Lawful) {t : Text} {c : Call S.Number}
    (h : QwenFunctionCall S L tools t c) (hc : QwenFunctionClean S c) :
    ∃ found, parse_function_tool_call S c.text = some found ∧ found.function = c.function S := by
  obtain ⟨p, args, hplain, hargs, htext⟩ := h.plain hS hc
  refine ⟨tool_call c.name c.text (S.to_string c.arguments), ?_, rfl⟩
  have hparams : parse_parameters S (('\n' :: p).length + 1) ('\n' :: p) [] =
      (args.map fun a => (a.key, a.value)).foldl insert_member [] := by
    refine hplain.parse ?_ []
    have hlen := hplain.length_le
    rw [List.length_cons]
    omega
  have hopen : Tag "<function=".toList := ⟨'<', "function=".toList, rfl, by decide⟩
  have hclose : Tag "</function>".toList := ⟨'<', "/function>".toList, rfl, by decide⟩
  have hcut : cut "<function=".toList c.text = some (['\n'], c.name ++ (['>'] ++ (('\n' :: p) ++
      ("</function>".toList ++ ['\n'])))) := by
    rw [htext]
    exact cut_append hopen (by decide)
  unfold parse_function_tool_call
  rw [hcut]
  dsimp only [Option.bind_eq_bind, Option.bind_some]
  rw [cut_append ⟨'>', [], rfl, List.not_mem_nil⟩ (not_infix_of_not_mem hc.name.no_bracket)]
  dsimp only [Option.bind_some]
  rw [cut_append hclose hplain.not_infix, Option.map_some, Option.getD_some, hparams,
    hc.name.trimmed, hargs]
  rfl

theorem qwen_function_bodies {t : Text} {calls : List (Call S.Number)}
    (h : Many (QwenFunctionCall S L tools) t calls) (hcalls : ∀ c ∈ calls, QwenFunctionClean S c) :
    extract_tag_bodies t "<tool_call>".toList "</tool_call>".toList = calls.map Call.text := by
  have hstart : Tag "<tool_call>".toList := ⟨'<', "tool_call>".toList, rfl, by decide⟩
  have hend : Tag "</tool_call>".toList := ⟨'<', "/tool_call>".toList, rfl, by decide⟩
  refine tag_bodies_of_many Call.text hstart hend (fun w hw => not_infix_ws (by decide) hw)
    ?_ h fun c hc => (hcalls c hc).closed
  rintro t c ⟨-, -, -⟩
  exact ⟨[], ws_nil, by rw [List.append_nil]⟩

theorem qwen_function_found (hS : S.Lawful) {t : Text} {calls : List (Call S.Number)}
    (h : Many (QwenFunctionCall S L tools) t calls) (hcalls : ∀ c ∈ calls, QwenFunctionClean S c) :
    (extract_qwen_function_tool_calls S t).map ToolCall.function =
      calls.map (Call.function S) := by
  unfold extract_qwen_function_tool_calls
  rw [qwen_function_bodies h hcalls]
  refine filterMap_of_forall₂ (forall₂_texts fun c hc => ?_)
  obtain ⟨t, ht⟩ := h.rule_of_mem hc
  exact parse_function_read hS ht (hcalls c hc)

/-- The extractor of `Qwen3` looks at the same bodies, and a tag is no JSON. -/
theorem qwen_json_silent (hS : S.Lawful) {t : Text} {calls : List (Call S.Number)}
    (h : Many (QwenFunctionCall S L tools) t calls) (hcalls : ∀ c ∈ calls, QwenFunctionClean S c) :
    extract_qwen_json_tool_calls S t = [] := by
  unfold extract_qwen_json_tool_calls
  rw [qwen_function_bodies h hcalls, List.filterMap_eq_nil_iff]
  intro body hbody
  obtain ⟨c, hc, rfl⟩ := List.mem_map.1 hbody
  obtain ⟨t, ht⟩ := h.rule_of_mem hc
  obtain ⟨p, args, -, -, htext⟩ := ht.plain hS (hcalls c hc)
  have hnewline : Ws ['\n'] := by simp [Ws]
  obtain ⟨s, hs⟩ : ∃ s, trim c.text = '<' :: s := by
    rw [htext, trim_ws_left hnewline]
    exact trim_cons rfl _
  rw [hs, parse_json_tool_call, hS.no_tag]
  rfl

/-! ## A reader of words

A small reader of JSON, which knows the three words and one string and prints objects of
them, and the grammar's literals, for the calls of one tool. -/

def print_word : Json Empty → Text
  | .bool true => "true".toList
  | .bool false => "false".toList
  | .str s => '"' :: (s ++ ['"'])
  | _ => "null".toList

def print_member (m : Text × Json Empty) : Text := '"' :: (m.1 ++ '"' :: ':' :: print_word m.2)

def word_serde : Serde where
  Number := Empty
  number := fun _ => none
  from_str := fun t =>
    if t = "true".toList then some (.bool true)
    else if t = "false".toList then some (.bool false)
    else if t = "null".toList then some .null
    else if t = "\"src\"".toList then some (.str "src".toList)
    else none
  to_string := fun v =>
    match v with
    | .obj ms => '\x7b' :: ([','].intercalate (ms.map print_member) ++ ['\x7d'])
    | v => print_word v

theorem Number.head {s : Text} (h : Number s) : ∃ c cs, s = c :: cs ∧ (c = '-' ∨ c.isDigit) := by
  obtain ⟨sign, int, frac, exp, rfl, rfl | rfl, ⟨c, cs, rfl, hc, -⟩, -⟩ := h
  · exact ⟨c, _, rfl, .inr hc⟩
  · exact ⟨'-', _, rfl, .inl rfl⟩

/-- The words and the string stand for nothing else. -/
theorem value_of_word {t : Text} {v : Json S.Number} (h : Derives S t (.value v)) :
    (t = "true".toList → v = .bool true) ∧ (t = "false".toList → v = .bool false) ∧
      (t = "null".toList → v = .null) ∧ (t = "\"src\"".toList → v = .str "src".toList) := by
  have hother : ∀ {c : Char} {cs : Text} {P Q R T : Prop}, c ≠ 't' ∧ c ≠ 'f' ∧ c ≠ 'n' ∧ c ≠ '"' →
      (c :: cs = "true".toList → P) ∧ (c :: cs = "false".toList → Q) ∧
        (c :: cs = "null".toList → R) ∧ (c :: cs = "\"src\"".toList → T) := by
    intro c cs P Q R T hc
    exact ⟨fun heq => absurd (List.cons.inj heq).1 hc.1,
      fun heq => absurd (List.cons.inj heq).1 hc.2.1,
      fun heq => absurd (List.cons.inj heq).1 hc.2.2.1,
      fun heq => absurd (List.cons.inj heq).1 hc.2.2.2⟩
  cases h with
  | null => exact ⟨nofun, nofun, fun _ => rfl, nofun⟩
  | «true» => exact ⟨fun _ => rfl, nofun, nofun, nofun⟩
  | «false» => exact ⟨nofun, fun _ => rfl, nofun, nofun⟩
  | number hnum =>
      obtain ⟨c, cs, rfl, hc⟩ := hnum.head
      refine hother ⟨?_, ?_, ?_, ?_⟩ <;> rintro rfl <;> revert hc <;> decide
  | @string s _ =>
      refine ⟨nofun, nofun, nofun, fun heq => ?_⟩
      have hs : s ++ ['"'] = "src".toList ++ ['"'] := (List.cons.inj heq).2
      rw [List.append_cancel_right hs]
      rfl
  | array_empty _ => exact hother (by decide)
  | array _ _ _ => exact hother (by decide)
  | object_empty _ => exact hother (by decide)
  | object _ _ _ => exact hother (by decide)

theorem word_serde_lawful : word_serde.Lawful where
  agrees := by
    intro t u v h hread
    obtain ⟨htrue, hfalse, hnull, hsrc⟩ := value_of_word h
    dsimp only [word_serde] at hread
    split at hread
    · next ht => exact (Option.some.inj hread).symm.trans (htrue ht).symm
    split at hread
    · next ht => exact (Option.some.inj hread).symm.trans (hfalse ht).symm
    split at hread
    · next ht => exact (Option.some.inj hread).symm.trans (hnull ht).symm
    split at hread
    · next ht => exact (Option.some.inj hread).symm.trans (hsrc ht).symm
    · cases hread
  null := rfl
  true := rfl
  false := rfl
  no_tag := by
    intro s
    have hword : ∀ w : Text, w.head? ≠ some '<' → ¬ '<' :: s = w := by
      rintro w hw rfl
      exact hw rfl
    dsimp only [word_serde]
    rw [if_neg (hword _ (by decide)), if_neg (hword _ (by decide)), if_neg (hword _ (by decide)),
      if_neg (hword _ (by decide))]

/-- A literal with the escapes that are written. -/
def read_literal : Text → Option Text
  | [] => some []
  | '\\' :: '\\' :: s => (read_literal s).map ('\\' :: ·)
  | '\\' :: '"' :: s => (read_literal s).map ('"' :: ·)
  | '\\' :: 'n' :: s => (read_literal s).map ('\n' :: ·)
  | '\\' :: 'r' :: s => (read_literal s).map ('\r' :: ·)
  | '\\' :: 't' :: s => (read_literal s).map ('\t' :: ·)
  | c :: s => if c = '\\' ∨ c = '"' then none else (read_literal s).map (c :: ·)

def sample_gbnf : Gbnf where
  literal := read_literal
  literal_nil := rfl
  literal_plain := by
    intro c s hq hb
    rw [read_literal, if_neg (not_or.2 ⟨hb, hq⟩)]
    all_goals
      intros
      exact hb ‹c = '\\'›
  literal_backslash := fun _ => rfl
  literal_quote := fun _ => rfl
  literal_newline := fun _ => rfl
  literal_return := fun _ => rfl
  literal_tab := fun _ => rfl

def glob : Tool Empty := ⟨"glob".toList, .obj []⟩

theorem glob_name : ToolName word_serde sample_gbnf [glob] "glob".toList "glob".toList :=
  ⟨⟨glob, List.mem_singleton_self glob, rfl⟩, rfl⟩

/-- The keyword argument `all=true`. -/
theorem all_kwarg : Kwarg word_serde ("all".toList ++ [] ++ '=' :: ([] ++ "true".toList))
    ⟨"all".toList, .bool true, .json "true".toList⟩ :=
  .kwarg ⟨'a', "ll".toList, rfl, .inl rfl, by simp⟩ ws_nil ws_nil .true

/-- The keyword argument `dir="src"`. -/
theorem dir_kwarg : Kwarg word_serde ("dir".toList ++ [] ++ '=' :: ([] ++ "\"src\"".toList))
    ⟨"dir".toList, .str "src".toList, .json "\"src\"".toList⟩ :=
  .kwarg ⟨'d', "ir".toList, rfl, .inl rfl, by simp⟩ ws_nil ws_nil
    (.string (.plain (by decide) (by decide) (.plain (by decide) (by decide)
      (.plain (by decide) (by decide) .nil))))

def glob_dir_call : Call Empty where
  name := "glob".toList
  arguments := arguments_of word_serde
    [⟨"dir".toList, .str "src".toList, .json "\"src\"".toList⟩,
      ⟨"all".toList, .bool true, .json "true".toList⟩]
  params := []
  leaves := [.json "\"src\"".toList, .json "true".toList]
  text := "glob(dir=\"src\", all=true)".toList

def glob_call : Call Empty where
  name := "glob".toList
  arguments := arguments_of word_serde [⟨"all".toList, .bool true, .json "true".toList⟩]
  params := []
  leaves := [.json "true".toList]
  text := "glob(all=true)".toList

/-- The call without arguments, as the grammar of `Qwen3` writes it. -/
def bare_glob_call : Call Empty where
  name := "glob".toList
  arguments := .obj []
  params := []
  leaves := [.json "\x7b\x7d".toList]
  text := "\x7b\"name\":glob,\"arguments\":\x7b\x7d\x7d".toList

/-! ## The six together -/

/-- The tags a format is searched by. -/
def ToolFormat.tags : ToolFormat → Text × Text
  | Qwen3 => ("<tool_call>".toList, "</tool_call>".toList)
  | QwenFunction => ("<tool_call>".toList, "</tool_call>".toList)
  | Ministral3 => ("[TOOL_CALLS]".toList, "[ARGS]".toList)
  | Lfm2 => ("<|tool_call_start|>".toList, "<|tool_call_end|>".toList)
  | FunctionGemma => ("<start_function_call>".toList, "<end_function_call>".toList)
  | Gemma4 => ("<|tool_call>".toList, "<tool_call|>".toList)

/-- Nothing stands between the tags of the format. -/
def ToolFormat.Absent (t : Text) (format : ToolFormat) : Prop :=
  extract_tag_bodies t format.tags.1 format.tags.2 = []

def ToolFormat.CleanCall (S : Serde) (c : Call S.Number) : ToolFormat → Prop
  | Qwen3 => False
  | QwenFunction => QwenFunctionClean S c
  | Ministral3 => MinistralClean S c
  | Lfm2 => Lfm2Clean S c
  | FunctionGemma => FunctionGemmaClean S c
  | Gemma4 => Gemma4Clean S c

/-- The calls keep clear of what their extractor searches for, and the text of what the
others do. -/
structure ToolFormat.Clean (S : Serde) (format : ToolFormat) (t : Text)
    (calls : List (Call S.Number)) : Prop where
  calls : ∀ c ∈ calls, format.CleanCall S c
  alone : ∀ other : ToolFormat, other.tags ≠ format.tags → other.Absent t

section Silent

variable {t : Text}

theorem qwen_json_absent (h : ToolFormat.Qwen3.Absent t) : extract_qwen_json_tool_calls S t = [] := by
  dsimp only [ToolFormat.Absent, ToolFormat.tags] at h
  rw [extract_qwen_json_tool_calls, h]
  rfl

theorem qwen_function_absent (h : ToolFormat.QwenFunction.Absent t) :
    extract_qwen_function_tool_calls S t = [] := by
  dsimp only [ToolFormat.Absent, ToolFormat.tags] at h
  rw [extract_qwen_function_tool_calls, h]
  rfl

theorem lfm2_absent (h : ToolFormat.Lfm2.Absent t) : extract_lfm2_tool_calls S t = .ok [] := by
  dsimp only [ToolFormat.Absent, ToolFormat.tags] at h
  rw [extract_lfm2_tool_calls, h]
  rfl

theorem function_gemma_absent (h : ToolFormat.FunctionGemma.Absent t) :
    extract_function_gemma_tool_calls S t = .ok [] := by
  dsimp only [ToolFormat.Absent, ToolFormat.tags] at h
  rw [extract_function_gemma_tool_calls, h]
  rfl

theorem gemma4_absent (h : ToolFormat.Gemma4.Absent t) : extract_gemma4_tool_calls S t = .ok [] := by
  dsimp only [ToolFormat.Absent, ToolFormat.tags] at h
  rw [extract_gemma4_tool_calls, h]
  rfl

theorem ministral_absent (h : ToolFormat.Ministral3.Absent t) :
    extract_ministral_tool_calls S t = [] := by
  have hbodies : bodies_within "[TOOL_CALLS]".toList "[ARGS]".toList (t.length + 1) t = [] := h
  rw [bodies_within] at hbodies
  rw [extract_ministral_tool_calls, ministral_calls]
  cases hstart : cut "[TOOL_CALLS]".toList t with
  | none => rfl
  | some r =>
      rw [hstart] at hbodies
      dsimp only at hbodies ⊢
      cases hend : cut "[ARGS]".toList r.2 with
      | none => rfl
      | some r' =>
          rw [hend] at hbodies
          cases hbodies

end Silent

/-- What the extractors found, if the others are put in place. -/
theorem extract_tool_calls_eq {t : Text} {json function ministral lfm2 gemma gemma4 : List ToolCall}
    (h₁ : extract_qwen_json_tool_calls S t = json)
    (h₂ : extract_qwen_function_tool_calls S t = function)
    (h₃ : extract_ministral_tool_calls S t = ministral)
    (h₄ : extract_lfm2_tool_calls S t = .ok lfm2)
    (h₅ : extract_function_gemma_tool_calls S t = .ok gemma)
    (h₆ : extract_gemma4_tool_calls S t = .ok gemma4)
    (hne : json ++ function ++ ministral ++ lfm2 ++ gemma ++ gemma4 ≠ []) :
    extract_tool_calls S t =
      .ok (some (json ++ function ++ ministral ++ lfm2 ++ gemma ++ gemma4)) := by
  rw [extract_tool_calls, h₁, h₂, h₃, h₄, h₅, h₆]
  show Except.ok _ = _
  rw [if_neg hne]

theorem ne_nil_of_functions {found : List ToolCall} {calls : List (Call S.Number)}
    (h : found.map ToolCall.function = calls.map (Call.function S)) (hcalls : calls ≠ []) :
    found ≠ [] := by
  rintro rfl
  exact hcalls (List.map_eq_nil_iff.1 h.symm)

theorem Separated.ne_nil {α : Type} {rule : Text → α → Prop} {t : Text} {as : List α}
    (h : Separated rule t as) : as ≠ [] := by
  cases h <;> exact List.cons_ne_nil _ _

/-- From a text of the grammar whose calls keep clear of what is searched for, exactly
the calls of its tree are extracted, in order, each with its name and its arguments. -/
theorem clean_calls_extracted (hS : S.Lawful) {format : ToolFormat} {t : Text}
    {calls : List (Call S.Number)} (h : format.Language S L tools t calls)
    (hclean : format.Clean S t calls) :
    ∃ found, extract_tool_calls S t = .ok (some found) ∧
      found.map ToolCall.function = calls.map (Call.function S) := by
  obtain ⟨hcalls, halone⟩ := hclean
  cases format with
  | Qwen3 =>
      -- there is a call, and no call is clean
      obtain ⟨c, hc⟩ := List.exists_mem_of_ne_nil _ (Many.ne_nil h)
      exact (hcalls c hc).elim
  | QwenFunction =>
      have hfound := qwen_function_found hS h hcalls
      have heq := extract_tool_calls_eq (qwen_json_silent hS h hcalls) rfl
        (ministral_absent (halone .Ministral3 (by decide))) (lfm2_absent (halone .Lfm2 (by decide)))
        (function_gemma_absent (halone .FunctionGemma (by decide)))
        (gemma4_absent (halone .Gemma4 (by decide)))
        (by simpa using ne_nil_of_functions hfound (Many.ne_nil h))
      exact ⟨_, heq, by simpa using hfound⟩
  | Ministral3 =>
      have hfound := ministral_found hS h hcalls
      have heq := extract_tool_calls_eq (qwen_json_absent (halone .Qwen3 (by decide)))
        (qwen_function_absent (halone .QwenFunction (by decide))) rfl
        (lfm2_absent (halone .Lfm2 (by decide)))
        (function_gemma_absent (halone .FunctionGemma (by decide)))
        (gemma4_absent (halone .Gemma4 (by decide)))
        (by simpa using ne_nil_of_functions hfound (Many.ne_nil h))
      exact ⟨_, heq, by simpa using hfound⟩
  | Lfm2 =>
      obtain ⟨body, w, hbody, hw, rfl⟩ := h
      obtain ⟨found, hlfm2, hfound⟩ := lfm2_found hS hbody hw hcalls
      have heq := extract_tool_calls_eq (qwen_json_absent (halone .Qwen3 (by decide)))
        (qwen_function_absent (halone .QwenFunction (by decide)))
        (ministral_absent (halone .Ministral3 (by decide))) hlfm2
        (function_gemma_absent (halone .FunctionGemma (by decide)))
        (gemma4_absent (halone .Gemma4 (by decide)))
        (by simpa using ne_nil_of_functions hfound hbody.ne_nil)
      exact ⟨_, heq, by simpa using hfound⟩
  | FunctionGemma =>
      obtain ⟨found, hgemma, hfound⟩ := function_gemma_found h hcalls
      have heq := extract_tool_calls_eq (qwen_json_absent (halone .Qwen3 (by decide)))
        (qwen_function_absent (halone .QwenFunction (by decide)))
        (ministral_absent (halone .Ministral3 (by decide))) (lfm2_absent (halone .Lfm2 (by decide)))
        hgemma (gemma4_absent (halone .Gemma4 (by decide)))
        (by simpa using ne_nil_of_functions hfound (Many.ne_nil h))
      exact ⟨_, heq, by simpa using hfound⟩
  | Gemma4 =>
      obtain ⟨found, hgemma4, hfound⟩ := gemma4_found hS h hcalls
      have heq := extract_tool_calls_eq (qwen_json_absent (halone .Qwen3 (by decide)))
        (qwen_function_absent (halone .QwenFunction (by decide)))
        (ministral_absent (halone .Ministral3 (by decide))) (lfm2_absent (halone .Lfm2 (by decide)))
        (function_gemma_absent (halone .FunctionGemma (by decide))) hgemma4
        (by simpa using ne_nil_of_functions hfound (Many.ne_nil h))
      exact ⟨_, heq, by simpa using hfound⟩

theorem glob_call_extracted :
    ∃ found, extract_tool_calls word_serde
        ("<|tool_call_start|>[glob(dir=\"src\", all=true), ".toList ++
          "glob(all=true)]<|tool_call_end|>".toList) = .ok (some found) ∧
      found.map ToolCall.function =
        [⟨"glob".toList, "\x7b\"dir\":\"src\",\"all\":true\x7d".toList⟩,
          ⟨"glob".toList, "\x7b\"all\":true\x7d".toList⟩] := by
  have hblank : Ws [' '] := by simp [Ws]
  have hdir : Lfm2Call word_serde sample_gbnf [glob] "glob(dir=\"src\", all=true)".toList
      glob_dir_call :=
    .call glob_name ws_nil (.inr (.cons dir_kwarg hblank (.one all_kwarg))) ws_nil
  have hcall : Lfm2Call word_serde sample_gbnf [glob] "glob(all=true)".toList glob_call :=
    .call glob_name ws_nil (.inr (.one all_kwarg)) ws_nil
  have hlanguage : ToolFormat.Lfm2.Language word_serde sample_gbnf [glob]
      ("<|tool_call_start|>[glob(dir=\"src\", all=true), ".toList ++
        "glob(all=true)]<|tool_call_end|>".toList) [glob_dir_call, glob_call] :=
    ⟨"glob(dir=\"src\", all=true), glob(all=true)".toList, [], .cons hdir hblank (.one hcall),
      ws_nil, rfl⟩
  refine clean_calls_extracted word_serde_lawful hlanguage ⟨?_, ?_⟩
  · refine List.forall_mem_cons.2 ⟨?_, List.forall_mem_singleton.2 ?_⟩
    · refine ⟨by decide, by decide, by decide, ?_, by decide⟩
      exact List.forall_mem_cons.2 ⟨rfl, List.forall_mem_singleton.2 rfl⟩
    · exact ⟨by decide, by decide, by decide, List.forall_mem_singleton.2 rfl, by decide⟩
  · rintro (_ | _ | _ | _ | _ | _) hother
    · rfl
    · rfl
    · rfl
    · exact absurd rfl hother
    · rfl
    · rfl

/-- The name without quotes is no JSON, and the call is lost. -/
theorem bare_glob_call_lost :
    ToolFormat.Qwen3.Language word_serde sample_gbnf [glob]
        "<tool_call>\x7b\"name\":glob,\"arguments\":\x7b\x7d\x7d</tool_call>".toList
        [bare_glob_call] ∧
      extract_tool_calls word_serde
        "<tool_call>\x7b\"name\":glob,\"arguments\":\x7b\x7d\x7d</tool_call>".toList =
          .ok none := by
  refine ⟨.one ?_, rfl⟩
  exact .call glob_name (.object_empty ws_nil) ws_nil ws_nil ws_nil ws_nil ws_nil ws_nil ws_nil
    ws_nil ws_nil ws_nil ws_nil rfl

end Querymt.Llama
