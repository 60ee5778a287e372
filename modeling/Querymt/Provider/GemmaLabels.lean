/-
`Provider/GemmaLabels.lean` -- the label of a channel, in a stream.

Mirrors the use of `strip_reasoning_prefix_from` in `ThinkingStreamParser::push` (`common_chat.rs`).
The label `thought\n` is taken from the start of whatever part of a block is emitted. A block
is given without its one label, however the text is divided into chunks, exactly if no part of
it can start with the label but the first part of a block whose label was in the prompt
(`labels_removed_iff`).
-/
import Querymt.Provider.Reasoning

set_option autoImplicit false

open Texts Holding

namespace Querymt.Llama

open ReasoningFormat (label)

/-! ## 1. Taking the label away -/

section

variable {implicit : Bool} {x y : Text}

theorem strip_of_label (h : label <+: x) :
    ReasoningFormat.strip_reasoning_prefix_from (.GemmaChannel implicit) x =
      x.drop label.length := by
  change (strip_start label x).getD x = _
  rw [strip_start, if_pos h]
  rfl

theorem strip_of_not_label (h : ¬label <+: x) :
    ReasoningFormat.strip_reasoning_prefix_from (.GemmaChannel implicit) x = x := by
  change (strip_start label x).getD x = _
  rw [strip_start, if_neg h]
  rfl

theorem strip_append_of_label (h : label <+: x) (y : Text) :
    ReasoningFormat.strip_reasoning_prefix_from (.GemmaChannel implicit) (x ++ y) =
      ReasoningFormat.strip_reasoning_prefix_from (.GemmaChannel implicit) x ++ y := by
  rw [strip_of_label h, strip_of_label (h.trans (List.prefix_append x y)),
    List.drop_append_of_le_length h.length_le]

/-- Two labels do not overlap. -/
theorem label_of_append (hx : x ≠ []) (hy : label <+: y) (h : label <+: x ++ y) : label <+: x := by
  by_cases hlength : label.length ≤ x.length
  · exact List.prefix_of_prefix_length_le h (List.prefix_append x y) hlength
  · exfalso
    have hpre : x <+: label :=
      List.prefix_of_prefix_length_le (List.prefix_append x y) h (by omega)
    obtain ⟨rest, hrest⟩ := hpre
    have hstart : rest <+: label := by
      rw [← hrest, List.prefix_append_right_inj] at h
      apply List.prefix_of_prefix_length_le h hy
      rw [← hrest, List.length_append]
      omega
    -- what is left of the label does not start like it
    have hoverlap : ∀ n < 8, 0 < n → ¬label.drop n <+: label := by decide +kernel
    have hrest' : rest = label.drop x.length := by rw [← hrest, List.drop_left]
    rw [hrest'] at hstart
    have hlt : x.length < 8 := by
      have height : label.length = 8 := by decide +kernel
      omega
    exact hoverlap x.length hlt (List.length_pos_of_ne_nil hx) hstart

theorem close_tag_head (implicit : Bool) :
    (ReasoningFormat.GemmaChannel implicit).close_tag.head? = some '<' :=
  (by decide +kernel : "<channel|>".toList.head? = some '<')

/-- What is held back does not take part in a label. -/
theorem strip_append_held (x y : Text) :
    ReasoningFormat.strip_reasoning_prefix_from (.GemmaChannel implicit)
        (x ++ held (ReasoningFormat.GemmaChannel implicit).close_tag y) =
      ReasoningFormat.strip_reasoning_prefix_from (.GemmaChannel implicit) x ++
        held (ReasoningFormat.GemmaChannel implicit).close_tag y := by
  have hproper : Proper (ReasoningFormat.GemmaChannel implicit).close_tag
      (held (ReasoningFormat.GemmaChannel implicit).close_tag y) :=
    proper_held (tags_ne_nil (.GemmaChannel implicit) true) y
  generalize held (ReasoningFormat.GemmaChannel implicit).close_tag y = z at hproper
  by_cases h : label <+: x
  · exact strip_append_of_label h z
  · have hnot : ¬label <+: x ++ z := by
      intro hlong
      cases z with
      | nil => exact h (by rwa [List.append_nil] at hlong)
      | cons c z =>
          -- the label would hold the first character of the tag
          have hlength : x.length < label.length := by
            by_contra hge
            exact h (List.prefix_of_prefix_length_le hlong (List.prefix_append x _) (by omega))
          obtain ⟨rest, hrest⟩ := hlong
          have hc : label[x.length]? = some c := by
            have hat : (label ++ rest)[x.length]? = (x ++ c :: z)[x.length]? := by rw [hrest]
            rw [List.getElem?_append_left hlength] at hat
            rw [hat, List.getElem?_append_right (Nat.le_refl _), Nat.sub_self]
            rfl
          obtain ⟨tail, htail⟩ := hproper.1
          have hhead : c = '<' := by
            have hopen := close_tag_head implicit
            rw [← htail] at hopen
            exact Option.some.inj hopen
          have hmem := List.mem_of_getElem? hc
          rw [hhead] at hmem
          exact absurd hmem (by decide +kernel)
    rw [strip_of_not_label h, strip_of_not_label hnot]

end

/-! ## 2. Where a label can be met -/

/-- A part can start with a label only where the prompt gave it. -/
def Clear (implied : Bool) (blocks : List Text) : Prop :=
  ∀ i block c, blocks[i]? = some block → label <+: block.drop c →
    held (ReasoningFormat.GemmaChannel implied).close_tag (block.take c) = [] →
    implied = true ∧ i = 0 ∧ c = 0

/-- The thinking that was given is that of the blocks without their labels. -/
def LabelsRemoved (implicit : Bool) (blocks : List Text) (deltas : List ParsedDelta) : Prop :=
  ∃ parts : List Text, (deltas.filterMap ParsedDelta.thinking).flatten = parts.flatten ∧
    parts.map trim =
      blocks.map fun b =>
        trim (ReasoningFormat.strip_reasoning_prefix_from (.GemmaChannel implicit) b)

section

variable {implicit : Bool}

/-- Parts that start with no label are given as they are. -/
theorem strip_parts {before : Text} {parts : List Text}
    (hbroken : Broken (ReasoningFormat.GemmaChannel implicit).close_tag before parts)
    (hclear : ∀ c, before.length ≤ c → label <+: (before ++ parts.flatten).drop c →
      held (ReasoningFormat.GemmaChannel implicit).close_tag
        ((before ++ parts.flatten).take c) ≠ []) :
    parts.map (ReasoningFormat.strip_reasoning_prefix_from (.GemmaChannel implicit)) = parts := by
  induction parts generalizing before with
  | nil => rfl
  | cons part parts ih =>
      obtain ⟨hpart, hrest⟩ := hbroken
      have hnot : ¬label <+: part := by
        intro hlabel
        have hne : part ≠ [] := by
          rintro rfl
          exact absurd (List.prefix_nil.1 hlabel) (by decide +kernel)
        rcases hpart hne with hhead | hheld
        · -- the tag starts otherwise than the label
          obtain ⟨rest, rfl⟩ := hlabel
          have hlabel : label.head? = some 't' := by decide +kernel
          rw [close_tag_head, List.head?_append, hlabel, Option.some_or] at hhead
          exact absurd hhead (by decide +kernel)
        · apply hclear before.length (Nat.le_refl _)
          · rw [List.drop_left, List.flatten_cons]
            exact hlabel.trans (List.prefix_append part _)
          · rw [List.take_left]
            exact hheld
      rw [List.map_cons, strip_of_not_label hnot, ih hrest]
      intro c hc
      have hc' : before.length ≤ c := by
        rw [List.length_append] at hc
        omega
      have hhere := hclear c hc'
      rwa [List.flatten_cons, ← List.append_assoc] at hhere

/-- A block is given as the parts of it without labels, up to blanks. -/
theorem Group.trim_text_eq {g : Group} (hkind : g.in_thinking = true) :
    trim (g.text (.GemmaChannel implicit)) =
      trim (g.all.map
        (ReasoningFormat.strip_reasoning_prefix_from (.GemmaChannel implicit))).flatten := by
  have hgiven : given (.GemmaChannel implicit) true false =
      ReasoningFormat.strip_reasoning_prefix_from (.GemmaChannel implicit) := by
    funext part
    rw [given, if_pos rfl, if_neg fun h => Bool.false_ne_true h.1]
  rw [Group.text, Group.all, hkind, hgiven, List.map_append, List.flatten_append, List.map_singleton,
    List.flatten_singleton, given, if_pos rfl]
  by_cases hblank :
      trim (ReasoningFormat.strip_reasoning_prefix_from (.GemmaChannel implicit) g.last) = []
  · rw [if_pos ⟨rfl, hblank⟩, List.append_nil]
    exact (Texts.trim_append_right (Texts.blank_of_trim hblank) _).symm
  · rw [if_neg fun h => hblank h.2]

/-- One block, met in parts. -/
theorem Group.trim_text_of_clear {g : Group} {implied : Bool} (hkind : g.in_thinking = true)
    (hbroken : g.Broken (.GemmaChannel implicit))
    (hclear : ∀ c, label <+: g.piece.2.drop c →
      held (ReasoningFormat.GemmaChannel implicit).close_tag (g.piece.2.take c) = [] →
      implied = true ∧ c = 0)
    (hfirst : implied = true → ∃ part parts, g.all = part :: parts ∧ label <+: part) :
    trim (g.text (.GemmaChannel implicit)) =
      trim (ReasoningFormat.strip_reasoning_prefix_from (.GemmaChannel implicit) g.piece.2) := by
  have hpiece : g.piece.2 = g.all.flatten := by simp [Group.piece, Group.all]
  have htag : (ReasoningFormat.GemmaChannel implicit).tags g.in_thinking =
      (ReasoningFormat.GemmaChannel implicit).close_tag := by rw [hkind]; rfl
  rw [Group.Broken, htag] at hbroken
  rw [Group.trim_text_eq hkind, hpiece]
  rw [hpiece] at hclear
  by_cases himplied : implied = true
  · -- the first part has the label, and no other part
    obtain ⟨part, parts, hall, hlabel⟩ := hfirst himplied
    rw [hall] at hbroken hclear ⊢
    have hrest : parts.map (ReasoningFormat.strip_reasoning_prefix_from (.GemmaChannel implicit)) =
        parts := by
      apply strip_parts hbroken.2
      intro c hc hat hheld
      rw [List.nil_append] at hc hat hheld
      have hzero := (hclear c hat hheld).2
      have hpos := List.length_pos_of_ne_nil
        (show part ≠ [] from fun hnil => absurd (List.prefix_nil.1 (hnil ▸ hlabel))
          (by decide +kernel))
      omega
    rw [List.map_cons, hrest, List.flatten_cons, List.flatten_cons, strip_append_of_label hlabel]
  · have hno : ∀ c, label <+: g.all.flatten.drop c →
        held (ReasoningFormat.GemmaChannel implicit).close_tag (g.all.flatten.take c) ≠ [] :=
      fun c hat hheld => himplied (hclear c hat hheld).1
    have hall : g.all.map
        (ReasoningFormat.strip_reasoning_prefix_from (.GemmaChannel implicit)) = g.all :=
      strip_parts hbroken fun c _ hat => hno c hat
    rw [hall, strip_of_not_label]
    exact fun hlabel => hno 0 hlabel rfl

end

/-! ## 3. Counting what is given -/

/-- The characters of a text that are not blank. -/
def weight (s : Text) : ℕ := s.countP fun c => !is_whitespace c

/-- What is given of some pieces, if each comes at once. -/
def given_weight (implicit : Bool) (ps : List (Bool × Text)) : ℕ :=
  weight (((thinking_blocks ps).map
    (ReasoningFormat.strip_reasoning_prefix_from (.GemmaChannel implicit))).flatten)

def thinking_weight (deltas : List ParsedDelta) : ℕ :=
  weight (deltas.filterMap ParsedDelta.thinking).flatten

section

variable {implicit : Bool}

theorem weight_append (s t : Text) : weight (s ++ t) = weight s + weight t :=
  List.countP_append

theorem weight_trim (s : Text) : weight (trim s) = weight s :=
  Texts.countP_trim is_whitespace s

theorem thinking_weight_append (ds es : List ParsedDelta) :
    thinking_weight (ds ++ es) = thinking_weight ds + thinking_weight es := by
  rw [thinking_weight, List.filterMap_append, List.flatten_append, weight_append]
  rfl

theorem weight_of_trim {parts blocks : List Text} (h : parts.map trim = blocks.map trim) :
    weight parts.flatten = weight blocks.flatten := by
  induction parts generalizing blocks with
  | nil =>
      cases blocks with
      | nil => rfl
      | cons => cases h
  | cons part parts ih =>
      cases blocks with
      | nil => cases h
      | cons block blocks =>
          obtain ⟨hone, hrest⟩ := List.cons.inj h
          rw [List.flatten_cons, List.flatten_cons, weight_append, weight_append, ih hrest,
            ← weight_trim part, ← weight_trim block, hone]

theorem given_weight_cons (q : Bool × Text) (ps : List (Bool × Text)) :
    given_weight implicit (q :: ps) =
      (if q.1 then weight (ReasoningFormat.strip_reasoning_prefix_from (.GemmaChannel implicit) q.2)
        else 0) + given_weight implicit ps := by
  rw [given_weight, thinking_blocks_cons]
  by_cases hkind : q.1 = true
  · rw [if_pos hkind, if_pos hkind, List.singleton_append, List.map_cons, List.flatten_cons,
      weight_append]
    rfl
  · rw [if_neg hkind, if_neg hkind, List.nil_append, Nat.zero_add]
    rfl

theorem given_weight_append (ps qs : List (Bool × Text)) :
    given_weight implicit (ps ++ qs) = given_weight implicit ps + given_weight implicit qs := by
  induction ps with
  | nil => simp [given_weight, thinking_blocks, weight]
  | cons q ps ih => rw [List.cons_append, given_weight_cons, given_weight_cons, ih, Nat.add_assoc]

/-- A part that is given, counted. -/
theorem weight_emitted (in_thinking closing : Bool) (part : Text) :
    thinking_weight (emitted (.GemmaChannel implicit) in_thinking closing part) =
      if in_thinking then
        weight (ReasoningFormat.strip_reasoning_prefix_from (.GemmaChannel implicit) part)
      else 0 := by
  have hkind : ∀ d ∈ emitted (.GemmaChannel implicit) in_thinking closing part,
      d.in_thinking = in_thinking := fun d hd => emitted_in_thinking hd
  obtain ⟨-, hthinking⟩ := filterMap_content hkind
  rw [thinking_weight, hthinking]
  cases in_thinking with
  | false => rfl
  | true =>
      rw [if_pos rfl, if_pos rfl, emitted_text, given, if_pos rfl]
      by_cases hblank : closing = true ∧
          trim (ReasoningFormat.strip_reasoning_prefix_from (.GemmaChannel implicit) part) = []
      · rw [if_pos hblank]
        rw [← weight_trim,
          ← weight_trim (ReasoningFormat.strip_reasoning_prefix_from (.GemmaChannel implicit) part),
          hblank.2]
        rfl
      · rw [if_neg hblank]

theorem weight_pieces (ps : List (Bool × Text)) :
    thinking_weight (ps.flatMap fun q => emitted (.GemmaChannel implicit) q.1 true q.2) =
      given_weight implicit ps := by
  induction ps with
  | nil => rfl
  | cons q ps ih => rw [List.flatMap_cons, thinking_weight_append, ih, weight_emitted,
      given_weight_cons]

/-- The last piece loses nothing by being held back in part. -/
theorem weight_last (in_thinking : Bool) (q : Text) :
    thinking_weight (emitted (.GemmaChannel implicit) in_thinking false
        (free ((ReasoningFormat.GemmaChannel implicit).tags in_thinking) q)) +
      thinking_weight (emitted (.GemmaChannel implicit) in_thinking false
        (held ((ReasoningFormat.GemmaChannel implicit).tags in_thinking) q)) =
      given_weight implicit [(in_thinking, q)] := by
  rw [weight_emitted, weight_emitted, given_weight_cons]
  cases in_thinking with
  | false => rfl
  | true =>
      rw [if_pos rfl, if_pos rfl, if_pos rfl]
      have hsplit := free_append_held (ReasoningFormat.GemmaChannel implicit).close_tag q
      have hstrip := @strip_append_held implicit
        (free (ReasoningFormat.GemmaChannel implicit).close_tag q) q
      have hheld := @strip_append_held implicit [] q
      rw [hsplit] at hstrip
      rw [List.nil_append] at hheld
      have hnil :
          ReasoningFormat.strip_reasoning_prefix_from (.GemmaChannel implicit) [] = [] := rfl
      rw [hnil, List.nil_append] at hheld
      rw [hstrip, weight_append]
      change weight _ + weight (ReasoningFormat.strip_reasoning_prefix_from (.GemmaChannel implicit)
        (held (ReasoningFormat.GemmaChannel implicit).close_tag q)) = _
      rw [hheld]
      rfl

end

/-! ## 4. Two chunks -/

/-- A text in two chunks, the first of which ends where nothing is held back. -/
theorem streamed_two {fmt : ReasoningFormat} {starts j k : Bool} {t₁ t₂ x q : Text}
    {ps qs : List (Bool × Text)}
    (hfirst : Pieces fmt.tags starts (initial_pending fmt starts ++ t₁) (ps ++ [(j, x)]))
    (hheld : held (fmt.tags j) x = [])
    (hsecond : Pieces fmt.tags j t₂ (qs ++ [(k, q)])) :
    streamed fmt starts [t₁, t₂] =
      ((ps.flatMap fun q => emitted fmt q.1 true q.2) ++ emitted fmt j false x) ++
        ((qs.flatMap fun q => emitted fmt q.1 true q.2) ++
          (emitted fmt k false (free (fmt.tags k) q) ++
            emitted fmt k false (held (fmt.tags k) q))) := by
  have hfree : free (fmt.tags j) x = x := by
    have hsplit := free_append_held (fmt.tags j) x
    rwa [hheld, List.append_nil] at hsplit
  obtain ⟨closed, j', x', heq, hloop⟩ := push_loop_pieces hfirst (Nat.lt_succ_self _)
  obtain ⟨rfl, hlast⟩ := List.append_inj' heq rfl
  obtain ⟨rfl, rfl⟩ := Prod.mk.inj (List.singleton_inj.1 hlast)
  obtain ⟨closed', k', q', heq', hloop'⟩ := push_loop_pieces hsecond (Nat.lt_succ_self _)
  obtain ⟨rfl, hlast'⟩ := List.append_inj' heq' rfl
  obtain ⟨rfl, rfl⟩ := Prod.mk.inj (List.singleton_inj.1 hlast')
  have hone : update (.new fmt starts) t₁ =
      ((ps.flatMap fun q => emitted fmt q.1 true q.2) ++ emitted fmt j false x,
        ⟨state_of j, [], fmt⟩) := by
    rw [@update_eq fmt (.new fmt starts) starts rfl rfl]
    rw [show (ThinkingStreamParser.new fmt starts).pending = initial_pending fmt starts from rfl,
      hloop, hfree, hheld]
  have htwo : update ⟨state_of j, [], fmt⟩ t₂ =
      ((qs.flatMap fun q => emitted fmt q.1 true q.2) ++ emitted fmt k false (free (fmt.tags k) q),
        ⟨state_of k, held (fmt.tags k) q, fmt⟩) := by
    rw [@update_eq fmt ⟨state_of j, [], fmt⟩ j rfl rfl, List.nil_append, hloop']
  have hend : (finish ⟨state_of k, held (fmt.tags k) q, fmt⟩).1 =
      emitted fmt k false (held (fmt.tags k) q) := by
    have hcut : cut (fmt.tags k) (held (fmt.tags k) q) = none := by
      apply cut_eq_none
      intro hin
      apply hsecond.last_free
      rw [← free_append_held (fmt.tags k) q]
      exact hin.trans (List.suffix_append _ _).isInfix
    simp [finish, push, push_loop_last hcut]
  simp only [streamed, Parts.run, hone, htwo, hend, List.append_assoc, List.append_nil]

/-- A block that is emitted in two parts weighs as much as one that is not, if every chunking
gives the blocks without their labels. -/
theorem weight_split {implicit starts : Bool} {t₁ t₂ x y : Text} {ps qs : List (Bool × Text)}
    (hfirst : Pieces (ReasoningFormat.GemmaChannel implicit).tags starts
      (initial_pending (.GemmaChannel implicit) starts ++ t₁) (ps ++ [(true, x)]))
    (hheld : held (ReasoningFormat.GemmaChannel implicit).close_tag x = [])
    (hsecond : Pieces (ReasoningFormat.GemmaChannel implicit).tags true t₂ ((true, y) :: qs))
    (hgood : LabelsRemoved implicit (thinking_blocks (ps ++ (true, x ++ y) :: qs))
      (streamed (.GemmaChannel implicit) starts [t₁, t₂])) :
    weight (ReasoningFormat.strip_reasoning_prefix_from (.GemmaChannel implicit) (x ++ y)) =
      weight (ReasoningFormat.strip_reasoning_prefix_from (.GemmaChannel implicit) x) +
        weight (ReasoningFormat.strip_reasoning_prefix_from (.GemmaChannel implicit) y) := by
  obtain ⟨parts, hparts, htrim⟩ := hgood
  have hexpected : thinking_weight (streamed (.GemmaChannel implicit) starts [t₁, t₂]) =
      given_weight implicit (ps ++ (true, x ++ y) :: qs) := by
    rw [thinking_weight, hparts, given_weight]
    apply weight_of_trim
    rw [htrim, List.map_map]
    rfl
  obtain ⟨front, ⟨k, q⟩, hsplit⟩ := List.eq_nil_or_concat ((true, y) :: qs) |>.resolve_left (by simp)
  rw [hsplit, List.concat_eq_append] at hsecond
  have hsum := streamed_two hfirst hheld hsecond
  have hback : given_weight implicit front + given_weight implicit [(k, q)] =
      weight (ReasoningFormat.strip_reasoning_prefix_from (.GemmaChannel implicit) y) +
        given_weight implicit qs := by
    rw [← given_weight_append, ← List.concat_eq_append, ← hsplit, given_weight_cons, if_pos rfl]
  rw [hsum, thinking_weight_append, thinking_weight_append, thinking_weight_append,
    thinking_weight_append, weight_pieces, weight_pieces, weight_last, weight_emitted, if_pos rfl,
    hback, given_weight_append, given_weight_cons, if_pos rfl] at hexpected
  dsimp only at hexpected
  omega

/-- A label where a part may start is taken away, or left, by mistake. -/
theorem weight_ne {implicit : Bool} {x y : Text} (hx : x ≠ [])
    (h : label <+: y ∨ x.length < label.length ∧ label <+: x ++ y) :
    weight (ReasoningFormat.strip_reasoning_prefix_from (.GemmaChannel implicit) (x ++ y)) ≠
      weight (ReasoningFormat.strip_reasoning_prefix_from (.GemmaChannel implicit) x) +
        weight (ReasoningFormat.strip_reasoning_prefix_from (.GemmaChannel implicit) y) := by
  have hlabel : ∀ s : Text, label <+: s →
      weight (ReasoningFormat.strip_reasoning_prefix_from (.GemmaChannel implicit) s) + 7 =
        weight s := by
    intro s hs
    have hsplit := List.prefix_iff_eq_append.1 hs
    have hseven : weight label = 7 := by decide +kernel
    rw [strip_of_label hs]
    conv_rhs => rw [← hsplit, weight_append, hseven]
    omega
  by_cases hy : label <+: y
  · have hweight := hlabel y hy
    by_cases hxy : label <+: x ++ y
    · have hlx := hlabel x (label_of_append hx hy hxy)
      have hlxy := hlabel (x ++ y) hxy
      rw [weight_append] at hlxy
      omega
    · have hlx : ¬label <+: x := fun h => hxy (h.trans (List.prefix_append x y))
      rw [strip_of_not_label hxy, strip_of_not_label hlx, weight_append]
      omega
  · obtain ⟨hshort, hxy⟩ := h.resolve_left hy
    have hlx : ¬label <+: x := fun h => absurd h.length_le (by omega)
    have hlxy := hlabel (x ++ y) hxy
    rw [weight_append] at hlxy
    rw [strip_of_not_label hlx, strip_of_not_label hy]
    omega

/-! ## 5. When the labels are removed -/

theorem exists_block {ps : List (Bool × Text)} {i : ℕ} {block : Text}
    (h : (thinking_blocks ps)[i]? = some block) :
    ∃ front back, ps = front ++ (true, block) :: back ∧ (thinking_blocks front).length = i := by
  induction ps generalizing i with
  | nil => cases h
  | cons q ps ih =>
      rw [thinking_blocks_cons] at h
      by_cases hkind : q.1 = true
      · rw [if_pos hkind, List.singleton_append] at h
        cases i with
        | zero =>
            have hblock : q.2 = block := Option.some.inj h
            exact ⟨[], ps, by rw [← hblock, ← hkind]; rfl, rfl⟩
        | succ i =>
            obtain ⟨front, back, rfl, hlength⟩ := ih h
            refine ⟨q :: front, back, rfl, ?_⟩
            rw [thinking_blocks_cons, if_pos hkind, List.singleton_append, List.length_cons,
              hlength]
      · rw [if_neg hkind, List.nil_append] at h
        obtain ⟨front, back, rfl, hlength⟩ := ih h
        refine ⟨q :: front, back, rfl, ?_⟩
        rw [thinking_blocks_cons, if_neg hkind, List.nil_append, hlength]

/-- The first piece of a text whose label was in the prompt has the label. -/
theorem first_piece_label {starts : Bool} {implicit : Bool} {text p : Text}
    {ps : List (Bool × Text)} (himplied : (starts && implicit) = true)
    (h : Pieces (ReasoningFormat.GemmaChannel implicit).tags starts
      (initial_pending (.GemmaChannel implicit) starts ++ text) ((starts, p) :: ps)) :
    label <+: p := by
  have hfree := initial_pending_free (.GemmaChannel implicit) starts
  have hpre := h.prefix_of_free (not_infix_of_cut hfree.1) hfree.2
  obtain ⟨rfl, rfl⟩ := Bool.and_eq_true_iff.1 himplied
  exact hpre

/-- **If** no part can start with a label but the one that was implied. -/
theorem labels_removed_of_clear {implicit starts : Bool} {chunks : List Text}
    {ps : List (Bool × Text)}
    (hps : Pieces (ReasoningFormat.GemmaChannel implicit).tags starts
      (initial_pending (.GemmaChannel implicit) starts ++ chunks.flatten) ps)
    (hclear : Clear (starts && implicit) (thinking_blocks ps)) :
    LabelsRemoved implicit (thinking_blocks ps)
      (streamed (.GemmaChannel implicit) starts chunks) := by
  obtain ⟨groups, hpieces, hdeltas, hbroken, part, more, hall, hpart⟩ :=
    streamed_groups (.GemmaChannel implicit) starts chunks
  obtain rfl := hps.unique hpieces
  refine ⟨(groups.filter Group.in_thinking).map (Group.text (.GemmaChannel implicit)), ?_, ?_⟩
  · rw [hdeltas, thinking_of_groups]
  rw [thinking_blocks_map] at hclear ⊢
  rw [List.map_map, List.map_map]
  apply List.map_congr_left
  intro g hg
  obtain ⟨i, hi⟩ := List.mem_iff_getElem?.1 hg
  have hkind : g.in_thinking = true := (List.mem_filter.1 hg).2
  have hblock : ((groups.filter Group.in_thinking).map fun g => g.piece.2)[i]? = some g.piece.2 := by
    rw [List.getElem?_map, hi]
    rfl
  apply @Group.trim_text_of_clear implicit g ((starts && implicit) && decide (i = 0)) hkind
    (hbroken g (List.mem_filter.1 hg).1)
  · intro c hat hheld
    obtain ⟨himplied, rfl, rfl⟩ := hclear i g.piece.2 c hblock hat hheld
    exact ⟨by rw [himplied]; rfl, rfl⟩
  · intro hboth
    obtain ⟨himplied, hzero⟩ := Bool.and_eq_true_iff.1 hboth
    obtain rfl : i = 0 := of_decide_eq_true hzero
    obtain ⟨hstarts, himplicit⟩ := Bool.and_eq_true_iff.1 himplied
    -- the first block is the first piece
    obtain ⟨p, qs, rest, heq, -⟩ := hpieces.exists_cons
    obtain ⟨g₀, groups, rfl⟩ : ∃ g₀ gs, groups = g₀ :: gs := by
      cases groups with
      | nil => cases heq
      | cons g₀ gs => exact ⟨g₀, gs, rfl⟩
    have hpiece := (List.cons.inj heq).1
    have hstart : g₀.in_thinking = true := by
      have hfst := congrArg Prod.fst hpiece
      exact hfst.trans hstarts
    rw [List.filter_cons_of_pos hstart] at hi
    obtain rfl : g₀ = g := Option.some.inj hi
    rw [List.flatMap_cons] at hall
    cases hg₀ : g₀.all with
    | nil => simp [Group.all] at hg₀
    | cons part' parts =>
        rw [hg₀, List.cons_append] at hall
        refine ⟨part', parts, rfl, ?_⟩
        rw [(List.cons.inj hall).1]
        subst hstarts himplicit
        exact hpart

/-- **Only if**: a text with another such place is divided there. -/
theorem clear_of_labels_removed {implicit starts : Bool} {text : Text} {ps : List (Bool × Text)}
    (hps : Pieces (ReasoningFormat.GemmaChannel implicit).tags starts
      (initial_pending (.GemmaChannel implicit) starts ++ text) ps)
    (hgood : ∀ chunks, chunks.flatten = text → LabelsRemoved implicit (thinking_blocks ps)
      (streamed (.GemmaChannel implicit) starts chunks)) :
    Clear (starts && implicit) (thinking_blocks ps) := by
  intro i block c hblock hat hheld
  obtain ⟨front, back, rfl, hlength⟩ := exists_block hblock
  by_contra hnot
  have hlong : label.length = 8 := by decide +kernel
  -- where the block is divided: at the label, or inside it if it starts the block
  obtain ⟨x, y, rfl, hx, hheldx, hlabel, hwhere⟩ : ∃ x y, block = x ++ y ∧ x ≠ [] ∧
      held (ReasoningFormat.GemmaChannel implicit).close_tag x = [] ∧
      (label <+: y ∨ x.length < label.length ∧ label <+: x ++ y) ∧
      (c = 0 ∨ label <+: y) := by
    by_cases hc : c = 0
    · subst hc
      obtain ⟨rest, hrest⟩ := hat
      rw [List.drop_zero] at hrest
      have hlabel : label = 't' :: "hought\n".toList := by decide +kernel
      refine ⟨['t'], "hought\n".toList ++ rest, ?_, List.cons_ne_nil _ _, ?_, .inr ⟨?_, ?_⟩,
        .inl rfl⟩
      · rw [← hrest, hlabel]
        rfl
      · exact (by decide +kernel : held "<channel|>".toList ['t'] = [])
      · rw [hlong, List.length_singleton]
        omega
      · refine ⟨rest, ?_⟩
        rw [hlabel]
        rfl
    · refine ⟨block.take c, block.drop c, (List.take_append_drop c block).symm, ?_, hheld, .inl hat,
        .inr hat⟩
      intro hnil
      rcases List.take_eq_nil_iff.1 hnil with hzero | rfl
      · exact hc hzero
      · rw [List.drop_nil] at hat
        exact absurd (List.prefix_nil.1 hat) (by decide +kernel)
  obtain ⟨s₁, t₂, htext, hfirst, hsecond⟩ :=
    hps.split_at (tags_ne_nil (.GemmaChannel implicit)) hheldx
  -- the first half has the implied label
  have hinitial : initial_pending (.GemmaChannel implicit) starts <+: s₁ := by
    have hpre : initial_pending (.GemmaChannel implicit) starts <+: s₁ ++ t₂ :=
      htext ▸ List.prefix_append _ text
    apply List.prefix_of_prefix_length_le hpre (List.prefix_append s₁ t₂)
    by_contra hshort
    have himplied : (starts && implicit) = true := by
      by_contra himplied
      have hnil : initial_pending (.GemmaChannel implicit) starts = [] := by
        rw [initial_pending, if_neg]
        rintro ⟨rfl, hfmt⟩
        exact himplied (by rw [(ReasoningFormat.GemmaChannel.inj hfmt)]; rfl)
      rw [hnil] at hshort
      exact hshort (Nat.zero_le _)
    -- otherwise it is the start of the first block, and shorter than the label
    have hstart : s₁ <+: initial_pending (.GemmaChannel implicit) starts :=
      List.prefix_of_prefix_length_le (List.prefix_append s₁ t₂) hpre (by omega)
    have hcut : cut ((ReasoningFormat.GemmaChannel implicit).tags starts) s₁ = none := by
      apply cut_eq_none
      intro hin
      exact not_infix_of_cut (initial_pending_free (.GemmaChannel implicit) starts).1
        (hin.trans hstart.isInfix)
    have hone := hfirst.unique (.last hcut)
    obtain ⟨rfl, hlast⟩ : front = [] ∧ [(true, x)] = [(starts, s₁)] := by
      rw [← List.nil_append [(starts, s₁)]] at hone
      exact List.append_inj' hone rfl
    obtain ⟨rfl, rfl⟩ := Prod.mk.inj (List.singleton_inj.1 hlast)
    have hfirstlabel := first_piece_label himplied hps
    rcases hwhere with rfl | hy
    · exact hnot ⟨himplied, hlength.symm, rfl⟩
    · have hlx := label_of_append hx hy hfirstlabel
      have himplicit := (Bool.and_eq_true_iff.1 himplied).2
      subst himplicit
      exact hshort hlx.length_le
  obtain ⟨t₁, rfl⟩ := hinitial
  rw [List.append_assoc] at htext
  have hchunks : [t₁, t₂].flatten = text := by
    rw [List.append_cancel_left htext]
    simp
  exact weight_ne hx hlabel (weight_split hfirst hheldx hsecond (hgood _ hchunks))

/-- **The labels, exactly**: every chunking of the text gives each block of thinking without its
one label, up to blanks, if and only if a part can start with a label nowhere but at the start
of a block whose label was in the prompt. -/
theorem labels_removed_iff (implicit starts_in_thinking : Bool) (text : Text) :
    ∃ ps, Pieces (ReasoningFormat.GemmaChannel implicit).tags starts_in_thinking
        (initial_pending (.GemmaChannel implicit) starts_in_thinking ++ text) ps ∧
      ((∀ chunks : List Text, chunks.flatten = text →
          LabelsRemoved implicit (thinking_blocks ps)
            (streamed (.GemmaChannel implicit) starts_in_thinking chunks)) ↔
        Clear (starts_in_thinking && implicit) (thinking_blocks ps)) := by
  obtain ⟨ps, hps⟩ := exists_pieces (tags_ne_nil (.GemmaChannel implicit)) starts_in_thinking
    (initial_pending (.GemmaChannel implicit) starts_in_thinking ++ text)
  refine ⟨ps, hps, fun hgood => clear_of_labels_removed hps hgood, ?_⟩
  rintro hclear chunks rfl
  exact labels_removed_of_clear hps hclear

/-- The same text, at once and with a chunk that ends inside the label. -/
theorem label_leaks :
    ["<|channel>thought\nplan<channel|>".toList].flatten =
        ["<|channel>thought".toList, "\nplan<channel|>".toList].flatten ∧
      streamed (.GemmaChannel false) false ["<|channel>thought\nplan<channel|>".toList] =
        [.Thinking "plan".toList] ∧
      streamed (.GemmaChannel false) false
          ["<|channel>thought".toList, "\nplan<channel|>".toList] =
        [.Thinking "thought".toList, .Thinking "\nplan".toList] := by
  refine ⟨?_, ?_, ?_⟩ <;> decide +kernel

end Querymt.Llama
