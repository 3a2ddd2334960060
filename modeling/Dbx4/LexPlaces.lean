import Mathlib.Data.List.Forall2
import Mathlib.Data.List.Induction
import Dbx4.Counters
import Dbx4.LexCover

/-!
Where the tokens of a text start.

The cursor of the lexer counts lines and columns in an `int` as it goes. It has moved over
everything before the place it shows, so a token has the line and the column of its first
character as long as these can be shown.
-/

namespace Dbx4.LexPlaces

open Dbx4.Word32 Dbx4.Loops Dbx4.Counters Dbx4.SqlAst Dbx4.SqlLexer Dbx4.LexText Dbx4.LexCover

/-! ### Lines and columns -/

/-- The line of what stands behind a text. -/
def lineOf (before : Bytes) : ℕ := before.count '\n'.toUInt8 + 1

/-- Its column: the characters since the last newline. -/
def columnOf (before : Bytes) : ℕ :=
  (before.reverse.takeWhile fun c => c ≠ '\n'.toUInt8).length + 1

/-- The source text of the token starts at the offset; that of the last token is empty. -/
def Starts (input : Bytes) (offset : ℕ) (t : Token) : Prop :=
  (t.type = .EOF_TOKEN ∧ offset = input.length) ∨
    ∃ text rest, input.drop offset = text ++ rest ∧ Source text t.type t.value

/-- The tokens start at the offsets, one behind the other, and the last at the end. -/
structure Placed (input : Bytes) (offsets : List ℕ) (tokens : List Token) : Prop where
  starts : List.Forall₂ (Starts input) offsets tokens
  increasing : offsets.Pairwise (· < ·)
  last : offsets.getLast? = some input.length

/-- The token has the line and the column of the offset. -/
def Positioned (input : Bytes) (offset : ℕ) (t : Token) : Prop :=
  t.line.toInt = lineOf (input.take offset) ∧ t.column.toInt = columnOf (input.take offset)

/-- An `int` can show the line and the column. -/
def Fits (input : Bytes) (offset : ℕ) : Prop :=
  lineOf (input.take offset) < 2 ^ 31 ∧ columnOf (input.take offset) < 2 ^ 31

lemma lineOf_concat (before : Bytes) (c : UInt8) :
    lineOf (before ++ [c]) = lineOf before + if c = '\n'.toUInt8 then 1 else 0 := by
  rw [lineOf, lineOf, List.count_append, List.count_singleton]
  simp only [beq_iff_eq]
  omega

lemma columnOf_concat (before : Bytes) (c : UInt8) :
    columnOf (before ++ [c]) = if c = '\n'.toUInt8 then 1 else columnOf before + 1 := by
  rw [columnOf, List.reverse_concat]
  by_cases hc : c = '\n'.toUInt8
  · rw [if_pos hc, List.takeWhile_cons_of_neg (by simpa using hc), List.length_nil]
  · rw [if_neg hc, List.takeWhile_cons_of_pos (by simpa using hc), List.length_cons, columnOf]

/-- The cursor behind a text. -/
def cursorAt (before : Bytes) : Cursor :=
  { line := Int32.ofNat (lineOf before), column := Int32.ofNat (columnOf before) }

/-- **The cursor counts** lines and columns. -/
lemma foldl_advance (before : Bytes) :
    before.foldl Cursor.advance {} = cursorAt before := by
  induction before using List.reverseRecOn with
  | nil => rfl
  | append_singleton before c ih =>
    rw [List.foldl_append, ih, List.foldl_cons, List.foldl_nil, Cursor.advance, cursorAt,
      cursorAt, lineOf_concat, columnOf_concat]
    split_ifs
    · rw [Int32.ofNat_add]
      rfl
    · rw [Nat.add_zero, Int32.ofNat_add _ 1]
      rfl

lemma positioned_iff_fits (input : Bytes) (offset : ℕ) (type : TokenType) (value : Bytes) :
    Positioned input offset ((cursorAt (input.take offset)).token type value) ↔
      Fits input offset :=
  and_congr (toInt_ofNat_iff _) (toInt_ofNat_iff _)

/-! ### Turns -/

/-- The token starts at the offset, and the cursor was there when it was read. -/
def Marked (input : Bytes) (offset : ℕ) (t : Token) : Prop :=
  Starts input offset t ∧ t = (cursorAt (input.take offset)).token t.type t.value

/-- The lexer has moved over a text, which holds the tokens in their order. -/
structure Inv (input : Bytes) (s : Scan) (offsets : List ℕ) (before : Bytes) : Prop where
  passes : Passes { rest := input } before s.lexer
  marked : List.Forall₂ (Marked input) offsets s.tokens
  increasing : (offsets ++ [before.length]).Pairwise (· < ·)
  stopped : s.stopped → s.lexer.current = 0

lemma lt_of_increasing {offsets : List ℕ} {n : ℕ} (h : (offsets ++ [n]).Pairwise (· < ·)) :
    ∀ offset ∈ offsets, offset < n :=
  fun _ hoffset => (List.pairwise_append.mp h).2.2 _ hoffset n (List.mem_singleton.mpr rfl)

lemma increasing_concat {offsets : List ℕ} {n : ℕ} (h : offsets.Pairwise (· < ·))
    (hlt : ∀ offset ∈ offsets, offset < n) : (offsets ++ [n]).Pairwise (· < ·) := by
  refine List.pairwise_append.mpr ⟨h, List.pairwise_singleton _ _, fun offset hoffset m hm => ?_⟩
  rw [List.mem_singleton.mp hm]
  exact hlt offset hoffset

lemma Passes.cursor_eq {input before : Bytes} {l : SQLLexer}
    (h : Passes { rest := input } before l) : l.cursor = cursorAt before :=
  h.cursor.trans (foldl_advance before)

/-- A token that is read behind the text starts there. -/
lemma marked_of_reads {input before : Bytes} {l : SQLLexer} {r : Token × SQLLexer}
    (h : Passes { rest := input } before l) (hread : Reads l r) :
    Marked input before.length r.1 ∧
      ∃ text, text ≠ [] ∧ Passes { rest := input } (before ++ text) r.2 := by
  obtain ⟨text, type, value, htoken, hsource, hpass⟩ := hread
  have hinput : input = before ++ l.rest := h.rest
  refine ⟨⟨.inr ⟨text, r.2.rest, ?_, htoken ▸ hsource⟩, ?_⟩, text, hsource.ne_nil, h.trans hpass⟩
  · rw [hinput, List.drop_left, hpass.rest]
  · rw [hinput, List.take_left, ← Passes.cursor_eq h, htoken]
    rfl

/-- The lexer moves over more text. -/
lemma Inv.move {input before text : Bytes} {s : Scan} {offsets : List ℕ} {l : SQLLexer}
    (h : Inv input s offsets before) (hpass : Passes s.lexer text l) :
    Inv input { s with lexer := l, stopped := false } offsets (before ++ text) := by
  have hbefore := List.pairwise_append.mp h.increasing
  refine ⟨h.passes.trans hpass, h.marked, increasing_concat hbefore.1 fun offset hoffset => ?_,
    Bool.noConfusion⟩
  have hlt := lt_of_increasing h.increasing offset hoffset
  rw [List.length_append]
  omega

lemma turn_inv {input : Bytes} {s s' : Scan} (hs : ∃ offsets before, Inv input s offsets before)
    (h : turn s = .ok (some s')) : ∃ offsets before, Inv input s' offsets before := by
  obtain ⟨offsets, before, hinv⟩ := hs
  obtain ⟨space, hspace, -⟩ := skipWhitespace_spec s.lexer
  have hmoved := hinv.move hspace
  obtain ⟨hgo, -, ⟨hnul, rfl⟩ | ⟨l, hcomment, hskip, rfl⟩ | ⟨r, hline, hblock, hread, rfl⟩⟩ :=
    turn_cases h
  · exact ⟨offsets, _, hmoved.passes, hmoved.marked, hmoved.increasing, fun _ => hnul⟩
  · obtain ⟨text, htext⟩ : ∃ text, Passes s.lexer.skipWhitespace text l := by
      obtain ⟨body, -, htext | ⟨htext, -⟩⟩ | ⟨text, -, htext⟩ := skipComment_cases hcomment hskip
      · exact ⟨_, htext⟩
      · exact ⟨_, htext⟩
      · exact ⟨_, htext⟩
    have hcommented := hmoved.move htext
    exact ⟨offsets, _, hcommented.passes, hcommented.marked, hcommented.increasing,
      fun hstop => absurd hstop hgo⟩
  · obtain ⟨hmarked, text, hne, htext⟩ := marked_of_reads hmoved.passes (readToken_spec hread)
    refine ⟨offsets ++ [(before ++ space).length], _, htext,
      List.rel_append hmoved.marked (.cons hmarked .nil), ?_, fun hstop => absurd hstop hgo⟩
    refine increasing_concat hmoved.increasing fun offset hoffset => ?_
    have hpos := List.length_pos_iff.mpr hne
    have hlength : (before ++ space ++ text).length = (before ++ space).length + text.length :=
      List.length_append
    rw [hlength]
    rcases List.mem_append.mp hoffset with hoffset | hoffset
    · have hlt := lt_of_increasing hmoved.increasing offset hoffset
      omega
    · rw [List.mem_singleton.mp hoffset]
      omega

/-! ### Runs -/

/-- Where a run ends in an input without NUL bytes. -/
lemma Inv.finish {input before : Bytes} {s : Scan} {offsets : List ℕ} (hnul : 0 ∉ input)
    (h : Inv input s offsets before) (hstop : turn s = .ok none) :
    s.lexer.rest = [] ∧ before = input := by
  have hinput : input = before ++ s.lexer.rest := h.passes.rest
  have hrest : s.lexer.rest = [] := by
    rcases turn_eq_none hstop with hstop | hstop
    · rcases hrest : s.lexer.rest with _ | ⟨c, rest⟩
      · rfl
      · have hc : c = 0 := by
          have hcurrent := h.stopped hstop
          rwa [SQLLexer.current, hrest] at hcurrent
        refine absurd ?_ hnul
        rw [hinput, hrest, hc]
        exact List.mem_append_right _ List.mem_cons_self
    · exact hstop
  exact ⟨hrest, by rw [hinput, hrest, List.append_nil]⟩

/-- Tokens with the cursor's line and column have their position as far as an `int` goes. -/
lemma positioned_iff_of_marked {input : Bytes} {offsets : List ℕ} {tokens : List Token}
    (h : List.Forall₂ (Marked input) offsets tokens) :
    List.Forall₂ (Positioned input) offsets tokens ↔ ∀ offset ∈ offsets, Fits input offset := by
  induction h with
  | nil => simp
  | cons hmarked h ih =>
    rw [List.forall₂_cons, List.forall_mem_cons, ih, hmarked.2, positioned_iff_fits]

/-- **Where tokens are**: `tokenize` throws, or else it gives the tokens in the order in which
they start in the input, and the line and the column of each exactly when an `int` can show
them all. -/
theorem throws_or_positioned_iff {input : Bytes} (hnul : 0 ∉ input) :
    (∃ e, Throws (tokenize { rest := input }) e) ∨
      ∃ r offsets, Returns (tokenize { rest := input }) r ∧ Placed input offsets r.1 ∧
        (List.Forall₂ (Positioned input) offsets r.1 ↔
          ∀ offset ∈ offsets, Fits input offset) := by
  rcases throws_or_returns left (fun _ _ => left_lt) { lexer := { rest := input } } with
    ⟨e, he⟩ | ⟨s, hs, hreach, hstop⟩
  · exact .inl ⟨e, he.bind _⟩
  · have hstart : Inv input { lexer := { rest := input } } [] [] :=
      ⟨.nil _, .nil, List.pairwise_singleton _ _, Bool.noConfusion⟩
    obtain ⟨offsets, before, hinv⟩ := hreach.inv (P := fun s => ∃ offsets before,
      Inv input s offsets before) ⟨[], [], hstart⟩ fun _ _ => turn_inv
    obtain ⟨hrest, rfl⟩ := hinv.finish hnul hstop
    have heof : Marked before before.length (s.lexer.cursor.token .EOF_TOKEN []) := by
      refine ⟨.inl ⟨rfl, rfl⟩, ?_⟩
      rw [Passes.cursor_eq hinv.passes, List.take_length]
      rfl
    have hmarked := List.rel_append hinv.marked (.cons heof .nil)
    refine .inr ⟨_, offsets ++ [before.length], hs.bind (returns_const _),
      ⟨hmarked.imp fun _ _ h => h.1, hinv.increasing, List.getLast?_concat⟩,
      positioned_iff_of_marked hmarked⟩

/-- One letter. -/
theorem throws_or_positioned_iff_letter :
    (∃ e, Throws (tokenize { rest := [97] }) e) ∨
      ∃ r offsets, Returns (tokenize { rest := [97] }) r ∧ Placed [97] offsets r.1 ∧
        (List.Forall₂ (Positioned [97]) offsets r.1 ↔ ∀ offset ∈ offsets, Fits [97] offset) :=
  throws_or_positioned_iff (by decide)

/-! ### Long lines -/

/-- White space gives the last token alone. -/
lemma returns_spaces {input : Bytes} (h : ∀ c ∈ input, isspace c) (hne : input ≠ []) :
    Returns (tokenize { rest := input })
      ([(cursorAt input).token .EOF_TOKEN []], ⟨[], cursorAt input⟩) := by
  have hskip : ({ rest := input } : SQLLexer).skipWhitespace = ⟨[], cursorAt input⟩ := by
    have hread := readWhile_append h (show isspace (([] : Bytes).headD 0) = false from rfl) {}
    rw [List.append_nil, foldl_advance] at hread
    rw [SQLLexer.skipWhitespace, hread]
  have hturn : turn { lexer := { rest := input } } =
      .ok (some { lexer := ⟨[], cursorAt input⟩, stopped := true }) := by
    rw [turn, if_neg (by simpa using hne)]
    dsimp only
    rw [hskip]
    exact if_pos rfl
  exact (returns_step hturn (returns_stop rfl)).bind (returns_const _)

lemma columnOf_spaces (n : ℕ) : columnOf (List.replicate n 32) = n + 1 := by
  rw [columnOf, List.reverse_replicate, List.takeWhile_replicate, if_pos (by decide),
    List.length_replicate]

/-- A line so long that the column of its end cannot be shown. -/
theorem not_forall_positioned : ¬∀ input r, (∀ c ∈ input, c ≠ 0 ∧ c < 128) →
    Returns (tokenize { rest := input }) r →
      ∃ offsets, Placed input offsets r.1 ∧ List.Forall₂ (Positioned input) offsets r.1 := by
  obtain ⟨n, hn⟩ : ∃ n, n + 1 = 2 ^ 31 := ⟨2 ^ 31 - 1, rfl⟩
  intro h
  have hspace (c : UInt8) (hc : c ∈ List.replicate n (32 : UInt8)) : c = 32 :=
    List.eq_of_mem_replicate hc
  have hne : List.replicate n (32 : UInt8) ≠ [] := by
    rw [Ne, List.replicate_eq_nil_iff]
    omega
  obtain ⟨offsets, hplaced, hpositioned⟩ := h (List.replicate n 32) _
    (fun c hc => by rw [hspace c hc]; decide)
    (returns_spaces (fun c hc => by rw [hspace c hc]; rfl) hne)
  rcases hpositioned with _ | ⟨hpos, hnil⟩
  cases hnil
  obtain rfl := Option.some.inj hplaced.last
  have hfits := (positioned_iff_fits (List.replicate n 32) _ .EOF_TOKEN []).mp
    (by rwa [List.take_length])
  have hcolumn := hfits.2
  rw [List.take_length, columnOf_spaces, hn] at hcolumn
  exact absurd hcolumn (Nat.lt_irrefl _)

end Dbx4.LexPlaces
