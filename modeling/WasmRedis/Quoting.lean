import WasmRedis.Command

/-!
# Quoting

What `split` is for is to undo quoting. A token is written as pieces one after the
other, each of them a bare run of characters or a text between two quotation marks
in which that mark does not occur; tokens stand apart by blanks. `Layout` is such an
input, well formed by its fields, and `split` returns the tokens it was made of
(`split_layout`). Every list of texts can be written so (`exists_layout`), since a
character that one mark cannot quote, the other can.

The scanner carries five variables, but between pieces only three of them matter:
the tokens cut so far, the word under way, and whether some of it was quoted
(`scan_pieces`).
-/

namespace WasmRedis

open GoString

/-! ## How tokens are written -/

/-- The characters that quote. -/
def IsQuote (c : Char) : Prop := c = '\x27' ∨ c = '\x22'

/-- The characters that stand between tokens. -/
def Separates (c : Char) : Prop := c = ' ' ∨ c = '\t' ∨ c = '\r' ∨ c = '\n'

/-- A piece of a token. -/
inductive Piece where
  /-- A run of characters that neither quote nor separate. -/
  | bare (text : List Char) (ne : text ≠ []) (plain : ∀ c ∈ text, ¬ IsQuote c ∧ ¬ Separates c)
  /-- A text between two quotation marks. -/
  | quoted (quote : Char) (isQuote : IsQuote quote) (text : List Char) (free : quote ∉ text)

namespace Piece

/-- The characters of the piece. -/
def written : Piece → List Char
  | bare text _ _ => text
  | quoted quote _ text _ => quote :: (text ++ [quote])

/-- What it stands for. -/
def text : Piece → List Char
  | bare text _ _ => text
  | quoted _ _ text _ => text

/-- Whether it is quoted. -/
def isQuoted : Piece → Bool
  | bare _ _ _ => false
  | quoted _ _ _ _ => true

end Piece

/-- A token as it is written. -/
structure Written where
  /-- Its pieces. -/
  pieces : List Piece
  /-- It has some. -/
  ne : pieces ≠ []

namespace Written

/-- The characters of the token. -/
def written (w : Written) : List Char := w.pieces.flatMap Piece.written

/-- The token. -/
def token (w : Written) : Token where
  text := encodeRunes (w.pieces.flatMap Piece.text)
  quoted := w.pieces.any Piece.isQuoted

end Written

/-- Characters between tokens. -/
structure Gap where
  /-- The characters. -/
  chars : List Char
  /-- They all separate. -/
  blank : ∀ c ∈ chars, Separates c

/-- An input: tokens, each with the gap that follows it. -/
structure Layout where
  /-- What comes before the first token. -/
  lead : Gap
  /-- The tokens. -/
  tokens : List (Written × Gap)
  /-- The gap between two tokens is not empty. -/
  apart : ∀ t ∈ tokens.dropLast, t.2.chars ≠ []

/-- The tokens and the gaps that follow them, in a row. -/
def tokensWritten (tokens : List (Written × Gap)) : List Char :=
  tokens.flatMap (fun t => t.1.written ++ t.2.chars)

/-- The input. -/
def Layout.input (l : Layout) : GoString := encodeRunes (l.lead.chars ++ tokensWritten l.tokens)

/-! ## The scanner on a layout -/

namespace Scanner

/-- What `split` returns of what was scanned. -/
def result (s : Scanner) : Except Err (List Token) :=
  if s.quote ≠ none then .error (.new (str "guillemet non fermé"))
  else if s.started then .ok (s.args ++ [⟨s.word, s.quoted⟩])
  else .ok s.args

theorem split_eq (input : GoString) : split input = ((runes input).foldl scan {}).result := rfl

variable {args : List Token} {word : GoString} {started quoted : Bool}

theorem scan_quote {c : Char} (h : IsQuote c) :
    scan ⟨args, word, none, started, quoted⟩ c = ⟨args, word, some c, true, true⟩ := if_pos h

theorem scan_separator {c : Char} (h : Separates c) :
    scan ⟨args, word, none, started, quoted⟩ c
      = if started then ⟨args ++ [⟨word, quoted⟩], [], none, false, false⟩
        else ⟨args, word, none, started, quoted⟩ := by
  have hquote : ¬ IsQuote c := by
    rcases h with rfl | rfl | rfl | rfl <;> rintro (h | h) <;> exact absurd h (by decide)
  exact (if_neg hquote).trans (if_pos h)

theorem scan_plain {c : Char} (hquote : ¬ IsQuote c) (h : ¬ Separates c) :
    scan ⟨args, word, none, started, quoted⟩ c
      = ⟨args, word ++ runeBytes c, none, true, quoted⟩ := (if_neg hquote).trans (if_neg h)

/-- A gap between tokens changes nothing. -/
theorem scan_gap {chars : List Char} (h : ∀ c ∈ chars, Separates c) :
    chars.foldl scan ⟨args, word, none, false, quoted⟩ = ⟨args, word, none, false, quoted⟩ := by
  induction chars with
  | nil => rfl
  | cons c chars ih =>
    rw [List.foldl_cons, scan_separator (h c List.mem_cons_self)]
    exact ih (fun c hc => h c (List.mem_cons_of_mem _ hc))

/-- A bare run is added to the word. -/
theorem scan_bare {text : List Char} (h : ∀ c ∈ text, ¬ IsQuote c ∧ ¬ Separates c) :
    text.foldl scan ⟨args, word, none, started, quoted⟩
      = ⟨args, word ++ encodeRunes text, none, started || !text.isEmpty, quoted⟩ := by
  induction text generalizing word started with
  | nil => simp
  | cons c text ih =>
    obtain ⟨hquote, hsep⟩ := h c List.mem_cons_self
    rw [List.foldl_cons, scan_plain hquote hsep, ih (fun c hc => h c (List.mem_cons_of_mem _ hc))]
    simp

/-- Between quotation marks, every other character is added to the word. -/
theorem scan_text {quote : Char} {text : List Char} (h : quote ∉ text) :
    text.foldl scan ⟨args, word, some quote, started, quoted⟩
      = ⟨args, word ++ encodeRunes text, some quote, started, quoted⟩ := by
  induction text generalizing word with
  | nil => simp
  | cons c text ih =>
    rw [List.mem_cons, not_or] at h
    have hscan : scan ⟨args, word, some quote, started, quoted⟩ c
        = ⟨args, word ++ runeBytes c, some quote, started, quoted⟩ := if_neg (Ne.symm h.1)
    rw [List.foldl_cons, hscan, ih h.2]
    simp

/-- **A piece** is added to the word. -/
theorem scan_piece (p : Piece) :
    p.written.foldl scan ⟨args, word, none, started, quoted⟩
      = ⟨args, word ++ encodeRunes p.text, none, true, quoted || p.isQuoted⟩ := by
  cases p with
  | bare text ne plain =>
    have hempty : text.isEmpty = false := by simpa using ne
    show text.foldl scan _ = _
    rw [scan_bare plain, hempty]
    simp [Piece.text, Piece.isQuoted]
  | quoted quote isQuote text free =>
    have hclose : scan ⟨args, word ++ encodeRunes text, some quote, true, true⟩ quote
        = ⟨args, word ++ encodeRunes text, none, true, true⟩ := if_pos rfl
    show (quote :: (text ++ [quote])).foldl scan _ = _
    rw [List.foldl_cons, scan_quote isQuote, List.foldl_append, scan_text free, List.foldl_cons,
      hclose]
    simp [Piece.text, Piece.isQuoted]

/-- **The pieces of a token**, one after the other. -/
theorem scan_pieces (pieces : List Piece) :
    (pieces.flatMap Piece.written).foldl scan ⟨args, word, none, started, quoted⟩
      = ⟨args, word ++ encodeRunes (pieces.flatMap Piece.text), none,
          started || !pieces.isEmpty, quoted || pieces.any Piece.isQuoted⟩ := by
  induction pieces generalizing word started quoted with
  | nil => simp
  | cons p pieces ih =>
    rw [List.flatMap_cons, List.foldl_append, scan_piece, ih]
    simp [encodeRunes, Bool.or_assoc]

/-- A token, with the gap that follows it. -/
theorem scan_token (w : Written) (gap : Gap) :
    (w.written ++ gap.chars).foldl scan ⟨args, [], none, false, false⟩
      = if gap.chars = [] then ⟨args, w.token.text, none, true, w.token.quoted⟩
        else ⟨args ++ [w.token], [], none, false, false⟩ := by
  have hne : w.pieces.isEmpty = false := by simpa using w.ne
  have hword : w.written.foldl scan ⟨args, [], none, false, false⟩
      = ⟨args, w.token.text, none, true, w.token.quoted⟩ := by
    rw [Written.written, scan_pieces, hne]
    rfl
  rw [List.foldl_append, hword]
  cases hgap : gap.chars with
  | nil => rfl
  | cons c chars =>
    have hblank : ∀ c' ∈ c :: chars, Separates c' := hgap ▸ gap.blank
    rw [List.foldl_cons, scan_separator (hblank c List.mem_cons_self), if_pos rfl,
      scan_gap (fun c' hc => hblank c' (List.mem_cons_of_mem _ hc))]
    rfl

/-- **The tokens of a layout.** -/
theorem scan_tokens {tokens : List (Written × Gap)}
    (h : ∀ t ∈ tokens.dropLast, t.2.chars ≠ []) :
    ((tokensWritten tokens).foldl scan ⟨args, [], none, false, false⟩).result
      = .ok (args ++ tokens.map (fun t => t.1.token)) := by
  induction tokens generalizing args with
  | nil => exact congrArg _ (List.append_nil _).symm
  | cons t tokens ih =>
    obtain ⟨w, gap⟩ := t
    rw [tokensWritten, List.flatMap_cons, List.foldl_append, scan_token]
    cases tokens with
    | nil =>
      split_ifs
      · rfl
      · rfl
    | cons t tokens =>
      rw [List.dropLast_cons_cons] at h
      rw [if_neg (h _ List.mem_cons_self)]
      refine (ih (fun t ht => h t (List.mem_cons_of_mem _ ht))).trans ?_
      rw [List.append_assoc]
      rfl

end Scanner

/-- **`split` undoes quoting.** -/
theorem split_layout (l : Layout) : split l.input = .ok (l.tokens.map (fun t => t.1.token)) := by
  have hstart : ({} : Scanner) = ⟨[], [], none, false, false⟩ := rfl
  rw [Scanner.split_eq, Layout.input, runes_encodeRunes, List.foldl_append, hstart,
    Scanner.scan_gap l.lead.blank, Scanner.scan_tokens l.apart]
  rfl

/-! ## Every list of texts can be written -/

/-- A character between the marks that are not that character. -/
theorem exists_piece (c : Char) : ∃ p : Piece, p.text = [c] := by
  by_cases hc : c = '\x27'
  · refine ⟨.quoted '\x22' (.inr rfl) [c] ?_, rfl⟩
    rw [hc]
    decide
  · exact ⟨.quoted '\x27' (.inl rfl) [c] (fun h => hc (List.mem_singleton.mp h).symm), rfl⟩

/-- Characters quoted one by one. -/
theorem exists_pieces (chars : List Char) :
    ∃ pieces : List Piece, pieces.flatMap Piece.text = chars := by
  induction chars with
  | nil => exact ⟨[], rfl⟩
  | cons c chars ih =>
    obtain ⟨p, hp⟩ := exists_piece c
    obtain ⟨pieces, hpieces⟩ := ih
    exact ⟨p :: pieces, by rw [List.flatMap_cons, hp, hpieces, List.singleton_append]⟩

/-- **Every text is a token**: it starts with an empty quotation, which is all of an
empty text. -/
theorem exists_written {text : GoString} (h : IsUTF8 text) :
    ∃ w : Written, w.token.text = text := by
  obtain ⟨chars, rfl⟩ := h
  obtain ⟨pieces, rfl⟩ := exists_pieces chars
  exact ⟨⟨.quoted '\x27' (.inl rfl) [] List.not_mem_nil :: pieces, List.cons_ne_nil _ _⟩, rfl⟩

/-- **Every list of texts is the tokens of a layout.** -/
theorem exists_layout {texts : List GoString} (h : ∀ text ∈ texts, IsUTF8 text) :
    ∃ l : Layout, l.tokens.map (fun t => t.1.token.text) = texts := by
  have hblank : ∀ c ∈ [' '], Separates c := fun c hc => .inl (List.mem_singleton.mp hc)
  have hwritten : ∀ text : {text // text ∈ texts}, ∃ w : Written, w.token.text = text.1 :=
    fun text => exists_written (h text.1 text.2)
  choose written hw using hwritten
  refine ⟨⟨⟨[], List.forall_mem_nil _⟩,
    texts.attach.map (fun text => (written text, ⟨[' '], hblank⟩)), fun t ht => ?_⟩, ?_⟩
  · obtain ⟨text, _, rfl⟩ := List.mem_map.mp (List.dropLast_subset _ ht)
    exact List.cons_ne_nil _ _
  · rw [List.map_map]
    exact (List.map_congr_left (fun text _ => hw text)).trans (List.attach_map_subtype_val texts)

/-! ## Quotes left open -/

/-- Every quotation of the characters is closed. -/
inductive Closed : List Char → Prop
  /-- There is nothing. -/
  | nil : Closed []
  /-- A character that does not quote. -/
  | plain {c : Char} {chars : List Char} (hc : ¬ IsQuote c) : Closed chars → Closed (c :: chars)
  /-- A quotation. -/
  | quoted {quote : Char} {text chars : List Char} (isQuote : IsQuote quote)
      (free : quote ∉ text) : Closed chars → Closed (quote :: (text ++ quote :: chars))

/-- The characters end inside an open quote: after quotations that are all closed, one
begins whose mark does not come back. -/
def EndsOpen (chars : List Char) : Prop :=
  ∃ closed quote text, Closed closed ∧ IsQuote quote ∧ quote ∉ text
    ∧ chars = closed ++ quote :: text

theorem EndsOpen.plain {c : Char} {chars : List Char} (hc : ¬ IsQuote c) (h : EndsOpen chars) :
    EndsOpen (c :: chars) := by
  obtain ⟨closed, quote, text, hclosed, isQuote, free, rfl⟩ := h
  exact ⟨c :: closed, quote, text, .plain hc hclosed, isQuote, free, rfl⟩

theorem EndsOpen.quoted {quote : Char} {text chars : List Char} (isQuote : IsQuote quote)
    (free : quote ∉ text) (h : EndsOpen chars) :
    EndsOpen (quote :: (text ++ quote :: chars)) := by
  obtain ⟨closed, quote', text', hclosed, isQuote', free', rfl⟩ := h
  refine ⟨quote :: (text ++ quote :: closed), quote', text', .quoted isQuote free hclosed,
    isQuote', free', ?_⟩
  rw [List.cons_append, List.append_assoc, List.cons_append]

/-- Characters either close all their quotations or end inside one. -/
theorem closed_or_endsOpen (chars : List Char) : Closed chars ∨ EndsOpen chars := by
  induction hn : chars.length using Nat.strongRecOn generalizing chars with
  | ind n ih =>
    cases chars with
    | nil => exact .inl .nil
    | cons c chars =>
      rw [List.length_cons] at hn
      by_cases hc : IsQuote c
      · by_cases hmem : c ∈ chars
        · obtain ⟨text, rest, rfl, free⟩ := List.eq_append_cons_of_mem hmem
          rw [List.length_append, List.length_cons] at hn
          exact (ih rest.length (by omega) rest rfl).imp (.quoted hc free)
            (.quoted hc free)
        · exact .inr ⟨[], c, chars, .nil, hc, hmem, rfl⟩
      · exact (ih chars.length (by omega) chars rfl).imp (.plain hc) (.plain hc)

namespace Scanner

/-- A character that does not quote leaves no quote open. -/
theorem quote_scan {s : Scanner} {c : Char} (hs : s.quote = none) (hc : ¬ IsQuote c) :
    (s.scan c).quote = none := by
  obtain ⟨args, word, quote, started, quoted⟩ := s
  obtain rfl : quote = none := hs
  by_cases hsep : Separates c
  · rw [scan_separator hsep]
    split_ifs
    · rfl
    · rfl
  · rw [scan_plain hc hsep]

/-- A mark opens a quotation, which its text leaves open. -/
theorem quote_scan_text {s : Scanner} {quote : Char} {text : List Char} (hs : s.quote = none)
    (isQuote : IsQuote quote) (free : quote ∉ text) :
    ((quote :: text).foldl scan s).quote = some quote := by
  obtain ⟨args, word, open', started, quoted⟩ := s
  obtain rfl : open' = none := hs
  rw [List.foldl_cons, scan_quote isQuote, scan_text free]

/-- Once every quotation is closed, no quote is open. -/
theorem quote_of_closed {chars : List Char} (h : Closed chars) {s : Scanner}
    (hs : s.quote = none) : (chars.foldl scan s).quote = none := by
  induction h generalizing s with
  | nil => exact hs
  | plain hc _ ih => exact ih (quote_scan hs hc)
  | @quoted quote text chars isQuote free _ ih =>
    rw [← List.cons_append, List.foldl_append, List.foldl_cons]
    have hopen := quote_scan_text hs isQuote free
    generalize (quote :: text).foldl scan s = s' at hopen
    obtain ⟨args, word, open', started, quoted⟩ := s'
    obtain rfl : open' = some quote := hopen
    have hclose : scan ⟨args, word, some quote, started, quoted⟩ quote
        = ⟨args, word, none, started, quoted⟩ := if_pos rfl
    rw [hclose]
    exact ih rfl

/-- Inside an open quotation, its quote is open. -/
theorem quote_of_endsOpen {chars : List Char} (h : EndsOpen chars) :
    (chars.foldl scan {}).quote ≠ none := by
  obtain ⟨closed, quote, text, hclosed, isQuote, free, rfl⟩ := h
  rw [List.foldl_append, quote_scan_text (quote_of_closed hclosed rfl) isQuote free]
  exact Option.some_ne_none quote

end Scanner

/-- **`split` fails exactly on an input that ends inside an open quote.** -/
theorem split_error_iff (input : GoString) :
    (∃ err, split input = .error err) ↔ EndsOpen (runes input) := by
  rw [Scanner.split_eq]
  constructor
  · rintro ⟨err, herr⟩
    refine (closed_or_endsOpen _).resolve_left (fun h => ?_)
    rw [Scanner.result, Scanner.quote_of_closed h rfl] at herr
    split_ifs at herr with hne
    exact hne rfl
  · exact fun h => ⟨_, if_pos (Scanner.quote_of_endsOpen h)⟩

/-! ## The law -/

/-- **The tokenizer inverts quoting**: it returns the tokens of every layout, each with
its text and with whether a piece of it is quoted; every list of texts is what it returns
of some layout; and it fails on the inputs that end inside an open quote, and on no
others. -/
theorem split_inverts_quoting :
    (∀ l : Layout, split l.input = .ok (l.tokens.map (fun t => t.1.token)))
    ∧ (∀ texts : List GoString, (∀ text ∈ texts, IsUTF8 text) →
        ∃ (l : Layout) (tokens : List Token),
          split l.input = .ok tokens ∧ tokens.map Token.text = texts)
    ∧ (∀ input : GoString, (∃ err, split input = .error err) ↔ EndsOpen (runes input)) := by
  refine ⟨split_layout, fun texts h => ?_, split_error_iff⟩
  obtain ⟨l, hl⟩ := exists_layout h
  exact ⟨l, _, split_layout l, by rw [List.map_map]; exact hl⟩

/-- A text that holds both marks and an empty text; and an open quotation. -/
theorem split_inverts_quoting_marks :
    (∃ (l : Layout) (tokens : List Token),
      split l.input = .ok tokens ∧ tokens.map Token.text = [str "\x27\x22", str ""])
    ∧ ∃ err, split (str "\x22a") = .error err :=
  ⟨split_inverts_quoting.2.1 _ (by decide),
    (split_inverts_quoting.2.2 _).mpr
      ⟨[], '\x22', ['a'], .nil, .inr rfl, by decide, by decide⟩⟩

end WasmRedis
