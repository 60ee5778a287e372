/-
`Provider/HttpStream.lean` -- the lines of a streamed HTTP answer.

Mirrors `LLMProviderFromHTTP::chat_stream_with_tools` (`adapters.rs` of `querymt`): the
response body arrives in pieces of any size; the adapter collects them in a buffer, hands
every complete line to the parser of the provider, and gives out the chunks that the
parser returns. The parser is any state machine.

# How the end is known

Two pieces are chained to the network's: a newline, so that the last line is complete,
and an empty piece, which means that the stream has ended. So an empty piece from the
network means it too.

# What an error takes with it

The chunks of a piece are collected before they are given out. When a line fails, the
error is returned in their place: what earlier lines of the same piece gave is gone.
Both make the items depend on the cuts (`chunking_independent_iff`).
-/
import Mathlib
import Querymt.Library.Lines

set_option autoImplicit false

namespace Querymt.Http

/-! ## 1. The adapter -/

/-- `ChatStreamParser`, for chunks `γ` and errors `ε`: what a line gives, and the state after
it. -/
structure ChatStreamParser (σ γ ε : Type) where
  parse_chunk : σ → List UInt8 → Except ε (List γ) × σ
  finish : σ → Except ε (List γ) × σ

def newline : UInt8 := 10

variable {σ γ ε : Type}

/-- The state of the `scan`: the buffer, the flag, and the parser that the closure owns. -/
structure Scan (σ : Type) where
  buffer : List UInt8
  done : Bool
  parser : σ

section

variable (parser : ChatStreamParser σ γ ε)

/-- The loop over the buffer: `line` is `buffer[start..i]`. It returns the chunks of the lines
and the bytes after the last of them. -/
def parse_buffer : σ → List UInt8 → List γ → List UInt8 → Except ε (List γ × List UInt8) × σ
  | s, line, chunks, [] => (.ok (chunks, line), s)
  | s, line, chunks, b :: rest =>
      if b = newline then
        match parser.parse_chunk s (line ++ [b]) with
        | (.ok parsed_chunks, s) => parse_buffer s [] (chunks ++ parsed_chunks) rest
        -- the chunks so far are dropped with the loop
        | (.error e, s) => (.error e, s)
      else parse_buffer s (line ++ [b]) chunks rest

/-- The closure of the `scan`; `none` ends the stream. -/
def receive (st : Scan σ) (res : Except ε (List UInt8)) :
    Option (Except ε (List γ)) × Scan σ :=
  if st.done then (none, st)
  else
    match res with
    | .error e => (some (.error e), { st with done := true })
    | .ok bytes =>
        match parse_buffer parser st.parser [] [] (st.buffer ++ bytes) with
        | (.error e, s) => (some (.error e), ⟨st.buffer ++ bytes, true, s⟩)
        | (.ok (chunks, buffer), s) =>
            if bytes.isEmpty then
              match parser.finish s with
              | (.ok tail, s) => (some (.ok (chunks ++ tail)), ⟨buffer, true, s⟩)
              | (.error e, s) => (some (.error e), ⟨buffer, true, s⟩)
            else (some (.ok chunks), ⟨buffer, false, s⟩)

/-- `StreamExt::scan`. -/
def scan : Scan σ → List (Except ε (List UInt8)) → List (Except ε (List γ))
  | _, [] => []
  | st, res :: rest =>
      match receive parser st res with
      | (none, _) => []
      | (some out, st) => out :: scan st rest

/-- The closure of the `flat_map`. -/
def to_items : Except ε (List γ) → List (Except ε γ)
  | .ok chunks => chunks.map .ok
  | .error e => [.error e]

/-- `chat_stream_with_tools`, from the pieces that the network gives. -/
def chat_stream_with_tools (s : σ) (stream : List (Except ε (List UInt8))) : List (Except ε γ) :=
  (scan parser ⟨[], false, s⟩ (stream ++ [.ok [newline], .ok []])).flatMap to_items

/-! ## 2. The law and the condition -/

/-- The items of some lines, up to and including the first error, and then those of
`finish`. -/
def items_of_lines : σ → List (List UInt8) → List (Except ε γ)
  | s, [] => to_items (parser.finish s).1
  | s, line :: lines =>
      match parser.parse_chunk s line with
      | (.ok chunks, s) => chunks.map .ok ++ items_of_lines s lines
      | (.error e, _) => [.error e]

/-- The lines of a body, with a newline supplied at its end. -/
def lines_of (body : List UInt8) : List (List UInt8) :=
  (Lines.split newline [] (body ++ [newline])).1

/-- **Cutting does not matter**: the items are those of the lines of the body. -/
def Independent (s : σ) (pieces : List (List UInt8)) : Prop :=
  chat_stream_with_tools parser s (pieces.map .ok) = items_of_lines parser s (lines_of pieces.flatten)

/-- The chunks of some lines up to the first error, whether there is one, and the state
after them. -/
def feed : σ → List (List UInt8) → List γ × Option ε × σ
  | s, [] => ([], none, s)
  | s, line :: lines =>
      match parser.parse_chunk s line with
      | (.ok chunks, s) => (chunks ++ (feed s lines).1, (feed s lines).2)
      | (.error e, s) => ([], some e, s)

/-- When a line fails, no line before it that the same piece completes has given a chunk. -/
def NothingDropped : σ → List (List (List UInt8)) → Prop
  | _, [] => True
  | s, lines :: pieces =>
      match feed parser s lines with
      | (chunks, some _, _) => chunks = []
      | (_, none, s) => NothingDropped s pieces

/-- The lines that each piece completes, and the line that the supplied newline does. -/
def lines_by_piece (pieces : List (List UInt8)) : List (List (List UInt8)) :=
  Lines.by_piece newline [] (pieces ++ [[newline]])

/-! ## 3. What a piece gives -/

/-- The items of the lines of each piece, as the code gives them out. -/
def items_by_piece : σ → List (List (List UInt8)) → List (Except ε γ)
  | s, [] => to_items (parser.finish s).1
  | s, lines :: pieces =>
      match feed parser s lines with
      | (chunks, none, s) => chunks.map .ok ++ items_by_piece s pieces
      | (_, some e, _) => [.error e]

end

variable {parser : ChatStreamParser σ γ ε} {s s' : σ} {line data buffer : List UInt8}
  {chunks : List γ} {lines : List (List UInt8)} {e : ε}

theorem feed_cons_ok {parsed : List γ} {s₁ : σ} (h : parser.parse_chunk s line = (.ok parsed, s₁)) :
    feed parser s (line :: lines) =
      (parsed ++ (feed parser s₁ lines).1, (feed parser s₁ lines).2) := by
  rw [feed, h]

theorem feed_cons_error {s₁ : σ} (h : parser.parse_chunk s line = (.error e, s₁)) :
    feed parser s (line :: lines) = ([], some e, s₁) := by
  rw [feed, h]

/-- The loop over the buffer feeds the lines of the buffer to the parser. -/
theorem parse_buffer_eq (parser : ChatStreamParser σ γ ε) (s : σ) (line : List UInt8)
    (chunks : List γ) (data : List UInt8) :
    parse_buffer parser s line chunks data =
      match feed parser s (Lines.split newline line data).1 with
      | (more, none, s') => (.ok (chunks ++ more, (Lines.split newline line data).2), s')
      | (_, some e, s') => (.error e, s') := by
  induction data generalizing s line chunks with
  | nil =>
      rw [parse_buffer, Lines.split, feed]
      dsimp only
      rw [List.append_nil]
  | cons b data ih =>
      rw [parse_buffer, Lines.split]
      by_cases hb : b = newline
      · rw [if_pos hb, if_pos hb]
        rcases hparse : parser.parse_chunk s (line ++ [b]) with ⟨e | parsed, s₁⟩
        · rw [feed_cons_error hparse]
        · rw [feed_cons_ok hparse]
          dsimp only
          rw [ih]
          rcases hfeed : feed parser s₁ (Lines.split newline [] data).1 with ⟨more, _ | e, s₂⟩
          · dsimp only
            rw [List.append_assoc]
          · rfl
      · rw [if_neg hb, if_neg hb, ih]

/-- Once it is done the stream has ended. -/
theorem scan_done (parser : ChatStreamParser σ γ ε) {st : Scan σ} (h : st.done = true)
    (stream : List (Except ε (List UInt8))) : scan parser st stream = [] := by
  cases stream with
  | nil => rfl
  | cons res stream =>
      unfold scan receive
      rw [if_pos h]

/-- A piece with at least one byte. -/
theorem receive_piece (parser : ChatStreamParser σ γ ε) (s : σ) (hbuffer : newline ∉ buffer)
    {piece : List UInt8} (hpiece : piece ≠ []) :
    receive parser ⟨buffer, false, s⟩ (.ok piece) =
      match feed parser s (Lines.split newline buffer piece).1 with
      | (chunks, none, s') =>
          (some (.ok chunks), ⟨(Lines.split newline buffer piece).2, false, s'⟩)
      | (_, some e, s') => (some (.error e), ⟨buffer ++ piece, true, s'⟩) := by
  have hparse := parse_buffer_eq parser s [] [] (buffer ++ piece)
  rw [Lines.split_unfinished hbuffer] at hparse
  have hnonempty : piece.isEmpty = false := by
    rw [Bool.eq_false_iff, Ne, List.isEmpty_iff]
    exact hpiece
  unfold receive
  rw [if_neg Bool.false_ne_true]
  dsimp only
  rw [hparse]
  rcases feed parser s (Lines.split newline buffer piece).1 with ⟨chunks, _ | e, s'⟩
  · dsimp only
    rw [hnonempty, if_neg Bool.false_ne_true, List.nil_append]
  · rfl

/-- An empty piece: the stream has ended, whatever comes after it. -/
theorem scan_empty (parser : ChatStreamParser σ γ ε) (s : σ) (hbuffer : newline ∉ buffer)
    (stream : List (Except ε (List UInt8))) :
    (scan parser ⟨buffer, false, s⟩ (.ok [] :: stream)).flatMap to_items =
      to_items (parser.finish s).1 := by
  have hparse := parse_buffer_eq parser s [] [] (buffer ++ [])
  rw [Lines.split_unfinished hbuffer, Lines.split, feed] at hparse
  dsimp only at hparse
  rw [scan]
  unfold receive
  rw [if_neg Bool.false_ne_true]
  dsimp only
  rw [hparse]
  dsimp only
  rw [if_pos List.isEmpty_nil]
  rcases parser.finish s with ⟨e | tail, s'⟩
  · dsimp only
    rw [List.flatMap_cons, scan_done parser rfl, List.flatMap_nil, List.append_nil]
  · dsimp only
    rw [List.flatMap_cons, scan_done parser rfl, List.flatMap_nil, List.append_nil, List.nil_append,
      List.nil_append]

/-- **The items of a stream**, up to its first empty piece. -/
theorem scan_pieces (parser : ChatStreamParser σ γ ε) (s : σ) (hbuffer : newline ∉ buffer)
    {pieces : List (List UInt8)} (hpieces : ∀ piece ∈ pieces, piece ≠ [])
    (stream : List (Except ε (List UInt8))) :
    (scan parser ⟨buffer, false, s⟩ (pieces.map .ok ++ .ok [] :: stream)).flatMap to_items =
      items_by_piece parser s (Lines.by_piece newline buffer pieces) := by
  induction pieces generalizing s buffer with
  | nil => exact scan_empty parser s hbuffer stream
  | cons piece pieces ih =>
      rw [List.map_cons, List.cons_append, scan,
        receive_piece parser s hbuffer (hpieces piece List.mem_cons_self), Lines.by_piece,
        items_by_piece]
      rcases feed parser s (Lines.split newline buffer piece).1 with ⟨chunks, _ | e, s'⟩
      · dsimp only
        rw [List.flatMap_cons, ih s' (Lines.not_mem_unfinished hbuffer piece)
          fun p hp => hpieces p (List.mem_cons_of_mem _ hp)]
        rfl
      · dsimp only
        rw [List.flatMap_cons, scan_done parser rfl, List.flatMap_nil, List.append_nil]
        rfl

/-! ## 4. What is lost -/

theorem items_of_lines_append (parser : ChatStreamParser σ γ ε) (s : σ)
    (lines more : List (List UInt8)) :
    items_of_lines parser s (lines ++ more) =
      match feed parser s lines with
      | (chunks, none, s') => chunks.map .ok ++ items_of_lines parser s' more
      | (chunks, some e, _) => chunks.map .ok ++ [.error e] := by
  induction lines generalizing s with
  | nil => rfl
  | cons line lines ih =>
      rw [List.cons_append, items_of_lines]
      rcases hparse : parser.parse_chunk s line with ⟨e | parsed, s₁⟩
      · rw [feed_cons_error hparse]
        rfl
      · rw [feed_cons_ok hparse]
        dsimp only
        rw [ih]
        rcases feed parser s₁ lines with ⟨chunks, _ | e, s₂⟩
        · dsimp only
          rw [List.map_append, List.append_assoc]
        · dsimp only
          rw [List.map_append, List.append_assoc]

/-- The code gives out what the lines give exactly when nothing is dropped. -/
theorem items_by_piece_eq_iff (parser : ChatStreamParser σ γ ε) (s : σ)
    (pieces : List (List (List UInt8))) :
    items_by_piece parser s pieces = items_of_lines parser s pieces.flatten ↔
      NothingDropped parser s pieces := by
  induction pieces generalizing s with
  | nil => exact ⟨fun _ => trivial, fun _ => rfl⟩
  | cons lines pieces ih =>
      rw [items_by_piece, List.flatten_cons, items_of_lines_append, NothingDropped]
      rcases feed parser s lines with ⟨chunks, _ | e, s'⟩
      · dsimp only
        rw [List.append_cancel_left_eq, ih]
      · dsimp only
        rw [List.self_eq_append_left, List.map_eq_nil_iff]

/-- For each parser, on a cut without empty pieces. -/
theorem independent_iff_nothingDropped (parser : ChatStreamParser σ γ ε) (s : σ)
    {pieces : List (List UInt8)} (hpieces : ∀ piece ∈ pieces, piece ≠ []) :
    Independent parser s pieces ↔ NothingDropped parser s (lines_by_piece pieces) := by
  have hall : ∀ piece ∈ pieces ++ [[newline]], piece ≠ [] := by
    intro piece hpiece
    rcases List.mem_append.1 hpiece with hpiece | hpiece
    · exact hpieces piece hpiece
    · rw [List.mem_singleton.1 hpiece]
      exact List.cons_ne_nil _ _
  have hscan := scan_pieces parser s List.not_mem_nil hall []
  rw [List.map_append, List.append_assoc] at hscan
  have hlines : lines_of pieces.flatten = (lines_by_piece pieces).flatten := by
    rw [lines_of, lines_by_piece, Lines.flatten_by_piece, List.flatten_append]
    rfl
  rw [Independent, chat_stream_with_tools, hlines, ← items_by_piece_eq_iff]
  have hstream : (scan parser ⟨[], false, s⟩
      (pieces.map .ok ++ [.ok [newline], .ok []])).flatMap to_items =
      items_by_piece parser s (lines_by_piece pieces) := hscan
  rw [hstream]

/-- A piece that completes one line at most has nothing to lose. -/
theorem nothingDropped_of_short (parser : ChatStreamParser σ γ ε) (s : σ)
    {pieces : List (List (List UInt8))} (h : ∀ lines ∈ pieces, lines.length ≤ 1) :
    NothingDropped parser s pieces := by
  induction pieces generalizing s with
  | nil => trivial
  | cons lines pieces ih =>
      have hrest := fun s' => ih s' fun l hl => h l (List.mem_cons_of_mem _ hl)
      have hshort := h lines List.mem_cons_self
      rw [NothingDropped]
      match lines with
      | [] => exact hrest s
      | [line] =>
          rcases hparse : parser.parse_chunk s line with ⟨e | parsed, s₁⟩
          · rw [feed_cons_error hparse]
          · rw [feed_cons_ok hparse]
            exact hrest s₁
      | line :: line' :: more =>
          simp only [List.length_cons] at hshort
          omega

/-! ## 5. Parsers that tell the cuts apart -/

/-- Counts the lines, and gives the count at the end. -/
def counting : ChatStreamParser ℕ ℕ Unit where
  parse_chunk n _ := (.ok [], n + 1)
  finish n := (.ok [n], n)

/-- Gives a chunk for every line, and fails at the line number `k`. -/
def failing_at (k : ℕ) : ChatStreamParser ℕ Unit Unit where
  parse_chunk n _ := if n = k then (.error (), n) else (.ok [()], n + 1)
  finish n := (.ok [], n)

theorem feed_counting (n : ℕ) (lines : List (List UInt8)) :
    feed counting n lines = ([], none, n + lines.length) := by
  induction lines generalizing n with
  | nil => rfl
  | cons line lines ih =>
      have hparse : counting.parse_chunk n line = (.ok [], n + 1) := rfl
      rw [feed_cons_ok hparse, ih, List.length_cons, List.nil_append, Nat.add_assoc, Nat.add_comm 1]

theorem items_by_piece_counting (n : ℕ) (pieces : List (List (List UInt8))) :
    items_by_piece counting n pieces = [.ok (n + pieces.flatten.length)] := by
  induction pieces generalizing n with
  | nil => rfl
  | cons lines pieces ih =>
      rw [items_by_piece, feed_counting]
      dsimp only
      rw [ih, List.flatten_cons, List.length_append, Nat.add_assoc]
      rfl

theorem items_of_lines_counting (n : ℕ) (lines : List (List UInt8)) :
    items_of_lines counting n lines = [.ok (n + lines.length)] := by
  have hall := items_of_lines_append counting n lines []
  rw [List.append_nil, feed_counting] at hall
  exact hall

/-- An empty piece ends the count early. -/
theorem not_independent_of_empty {pieces : List (List UInt8)} (h : [] ∈ pieces) :
    ¬ Independent counting 0 pieces := by
  obtain ⟨before, rest, hpieces, hbefore⟩ := List.eq_append_cons_of_mem h
  intro hindependent
  have hnonempty : ∀ piece ∈ before, piece ≠ [] := fun piece hpiece =>
    ne_of_mem_of_not_mem hpiece hbefore
  have hscan := scan_pieces counting 0 List.not_mem_nil hnonempty
    (rest.map .ok ++ [.ok [newline], .ok []])
  rw [items_by_piece_counting, Lines.flatten_by_piece, Lines.length_split] at hscan
  rw [Independent, chat_stream_with_tools, hpieces, List.map_append, List.map_cons,
    List.append_assoc, List.cons_append, hscan, items_of_lines_counting, lines_of,
    Lines.length_split, List.flatten_append, List.flatten_cons] at hindependent
  simp only [List.nil_append, List.count_append, List.cons.injEq, Except.ok.injEq, and_true,
    List.count_singleton_self] at hindependent
  omega

theorem parse_failing {n k : ℕ} (h : n ≠ k) (line : List UInt8) :
    (failing_at k).parse_chunk n line = (.ok [()], n + 1) :=
  if_neg h

/-- Before the line `k` nothing fails. -/
theorem feed_failing {n k : ℕ} {lines : List (List UInt8)} (h : n + lines.length ≤ k) :
    ∃ chunks, feed (failing_at k) n lines = (chunks, none, n + lines.length) := by
  induction lines generalizing n with
  | nil => exact ⟨[], rfl⟩
  | cons line lines ih =>
      rw [List.length_cons] at h ⊢
      obtain ⟨chunks, hfeed⟩ := ih (n := n + 1) (by omega)
      rw [feed_cons_ok (parse_failing (by omega) line), hfeed]
      exact ⟨[()] ++ chunks, by rw [Nat.add_assoc, Nat.add_comm 1]⟩

/-- The second line of a piece fails, and takes the chunk of the first with it. -/
theorem not_nothingDropped_failing {n k : ℕ} {before : List (List (List UInt8))}
    (h : n + before.flatten.length + 1 = k) (line line' : List UInt8) (lines : List (List UInt8))
    (pieces : List (List (List UInt8))) :
    ¬ NothingDropped (failing_at k) n (before ++ (line :: line' :: lines) :: pieces) := by
  induction before generalizing n with
  | nil =>
      rw [List.flatten_nil, List.length_nil] at h
      have hfails : (failing_at k).parse_chunk (n + 1) line' = (.error (), n + 1) :=
        if_pos (by omega)
      rw [List.nil_append, NothingDropped, feed_cons_ok (parse_failing (by omega) line),
        feed_cons_error hfails]
      exact List.cons_ne_nil _ _
  | cons group before ih =>
      rw [List.flatten_cons, List.length_append] at h
      obtain ⟨chunks, hfeed⟩ := @feed_failing n k group (by omega)
      rw [List.cons_append, NothingDropped, hfeed]
      exact ih (by omega)

/-- Two lines in one piece. -/
theorem not_independent_of_two {pieces : List (List UInt8)} (hpieces : ∀ piece ∈ pieces, piece ≠ [])
    {piece : List UInt8} (hpiece : piece ∈ pieces) (htwo : 2 ≤ piece.count newline) :
    ∃ k, ¬ Independent (failing_at k) 0 pieces := by
  obtain ⟨before, rest, heq⟩ := List.append_of_mem hpiece
  refine ⟨0 + (Lines.by_piece newline [] before).flatten.length + 1, ?_⟩
  rw [independent_iff_nothingDropped _ _ hpieces, lines_by_piece, heq, List.append_assoc,
    Lines.by_piece_append, List.cons_append, Lines.by_piece]
  have hlines := @Lines.length_split _ _ newline (Lines.split newline [] before.flatten).2 piece
  rcases hsplit : (Lines.split newline (Lines.split newline [] before.flatten).2 piece).1 with
    _ | ⟨line, _ | ⟨line', lines⟩⟩
  · rw [hsplit, List.length_nil] at hlines
    omega
  · rw [hsplit, List.length_singleton] at hlines
    omega
  · exact not_nothingDropped_failing rfl line line' lines _

/-! ## 6. The result -/

/-- **When cutting does not matter**: for every parser at once, exactly when no piece is empty
or completes two lines; for one parser, on a cut without empty pieces, exactly when
no line fails after a chunk that the same piece gave. -/
theorem chunking_independent_iff (pieces : List (List UInt8)) :
    ((∀ (σ γ ε : Type) (parser : ChatStreamParser σ γ ε) (s : σ), Independent parser s pieces) ↔
      ∀ piece ∈ pieces, piece ≠ [] ∧ piece.count newline ≤ 1) ∧
    ((∀ piece ∈ pieces, piece ≠ []) → ∀ (σ γ ε : Type) (parser : ChatStreamParser σ γ ε) (s : σ),
      Independent parser s pieces ↔ NothingDropped parser s (lines_by_piece pieces)) := by
  refine ⟨⟨?_, ?_⟩, fun hpieces σ γ ε parser s => independent_iff_nothingDropped parser s hpieces⟩
  · intro hall
    have hpieces : ∀ piece ∈ pieces, piece ≠ [] := by
      intro piece hpiece hempty
      rw [hempty] at hpiece
      exact not_independent_of_empty hpiece (hall ℕ ℕ Unit counting 0)
    refine fun piece hpiece => ⟨hpieces piece hpiece, ?_⟩
    by_contra htwo
    obtain ⟨k, hnot⟩ := not_independent_of_two hpieces hpiece (by omega)
    exact hnot (hall ℕ Unit Unit (failing_at k) 0)
  · intro hshort σ γ ε parser s
    rw [independent_iff_nothingDropped parser s fun piece hpiece => (hshort piece hpiece).1]
    apply nothingDropped_of_short
    intro lines hlines
    obtain ⟨piece, hpiece, hlength⟩ := Lines.length_of_mem_by_piece hlines
    rw [hlength]
    rcases List.mem_append.1 hpiece with hpiece | hpiece
    · exact (hshort piece hpiece).2
    · rw [List.mem_singleton.1 hpiece]
      exact le_rfl

/-- One piece with two lines, the second of which fails: the chunk of the first is lost. -/
theorem chunk_dropped : ¬ Independent (failing_at 1) 0 [[97, 10, 98, 10]] := by
  rw [Independent]
  decide

end Querymt.Http
