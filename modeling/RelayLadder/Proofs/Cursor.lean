import RelayLadder.Proofs.Records

/-! # The row cursor is a cursor over data lines

A listing text is read once into its data lines (`dataLines`): each carriage return and line
feed pair becomes a line feed, then each carriage return left; the text is split at line feeds,
the lines that trim to nothing are dropped, and so is a first line that reads as a column
header. From then on the row cursor is a bare position `p` in these lines, from `0` to their
number (`ListCursor.Step`). The next row is that of the first line from `p` on that reads as a
row, and `p` moves past that line; when there is none, `p` moves to the end. Peeking answers
the same and stays. `hasMore` asks whether `p` is before the end, malformed lines counted.
`reset` goes back to `0`, and reading all gives the rows of the lines from `p` on and moves to
the end.

The cursor answers every sequence of calls as this list cursor does, and only so, since the
list cursor is deterministic (`RowCursor.performAll_eq_iff`). Between resets, the rows handed
out and then the rows still ahead are the rows that were ahead at the start
(`ListCursor.Run.rowsFrom_eq`): every well-formed data line is handed out once, in order.
-/

namespace RelayLadder

/-! ## Data lines -/

/-- Replaces each carriage return and line feed pair by a line feed, from left to right. -/
def replaceCrLf : List Char → List Char
  | '\r' :: '\n' :: r => '\n' :: replaceCrLf r
  | c :: r => c :: replaceCrLf r
  | [] => []

/-- Unifying line ends in one pass is replacing each carriage return and line feed pair by a
line feed, and then each carriage return left. -/
theorem unifyLineEnds_eq_replace (cs : List Char) :
    unifyLineEnds cs = (replaceCrLf cs).map fun c => if c = '\r' then '\n' else c := by
  fun_induction unifyLineEnds cs with
  | case1 r ih => simp [replaceCrLf, ih]
  | case2 r hr ih =>
    -- a carriage return that no line feed follows is kept by the first replacement
    have hkeep : replaceCrLf ('\r' :: r) = '\r' :: replaceCrLf r := by
      cases r with
      | nil => rfl
      | cons d r => simp [replaceCrLf, show d ≠ '\n' from fun h => hr r (h ▸ rfl)]
    simp [hkeep, ih]
  | case3 c r _ hc ih =>
    have hkeep : replaceCrLf (c :: r) = c :: replaceCrLf r := by
      cases r <;> simp [replaceCrLf]
    simp only [hkeep, List.map_cons, if_neg hc, ih]
  | case4 => rfl

theorem Text.trimChars_eq_nil_iff (cs : List Char) :
    Text.trimChars cs = [] ↔ ∀ c ∈ cs, Text.isBlank c = true := by
  -- what is left after the blanks in front is all blank only when nothing is left
  have hfront : (∀ c ∈ cs.dropWhile Text.isBlank, Text.isBlank c = true) ↔
      ∀ c ∈ cs, Text.isBlank c = true := by
    constructor
    · intro h
      have hnil := List.dropWhile_eq_nil_iff.mpr h
      rw [List.dropWhile_idempotent] at hnil
      exact List.dropWhile_eq_nil_iff.mp hnil
    · exact fun h c hc => h c ((List.dropWhile_suffix _).subset hc)
  simp only [Text.trimChars, List.reverse_eq_nil_iff, List.dropWhile_eq_nil_iff,
    List.mem_reverse, hfront]

/-- Trimming leaves nothing exactly when the text is all white space. -/
theorem Text.trim_eq_empty_iff (s : String) : Text.trim s = "" ↔ Text.isBlankText s = true := by
  rw [Text.trim, String.ofList_eq_empty_iff, Text.trimChars_eq_nil_iff, Text.isBlankText,
    List.all_eq_true]

/-- The lines of a text that are not blank: line ends made line feeds, each carriage return
and line feed pair first and then each carriage return left, the text split at line feeds, and
the lines that trim to nothing dropped. -/
def nonBlankLines (text : String) : List String :=
  ((((replaceCrLf text.toList).map fun c => if c = '\r' then '\n' else c).splitOn '\n').map
    String.ofList).filter fun l => Text.trim l ≠ ""

/-- The data lines of a listing text: its lines that are not blank, less the first when it
reads as a column header. -/
def dataLines (text : String) : List String :=
  match nonBlankLines text with
  | first :: rest => if isHeader first then rest else first :: rest
  | [] => []

theorem RowCursor.textLines_eq (text : String) : textLines text = nonBlankLines text := by
  rw [textLines, nonBlankLines, unifyLineEnds_eq_replace]
  refine List.filter_congr fun l _ => ?_
  simp [Text.trim_eq_empty_iff]

theorem RowCursor.ofText_lines (text : String) : (ofText text).lines = dataLines text := by
  rw [ofText, dataLines, textLines_eq]
  cases nonBlankLines text with
  | nil => rfl
  | cons first rest => by_cases h : isHeader first <;> simp [h]

/-! ## Calls on a cursor -/

/-- A call on a row cursor. -/
inductive CursorCall where
  /-- Take the next row. -/
  | nextRow
  /-- Look at the next row without taking it. -/
  | peek
  /-- Ask whether a data line is left. -/
  | hasMore
  /-- Go back to the first data line. -/
  | reset
  /-- Take all rows left. -/
  | readAll
  /-- Ask for the number of data lines. -/
  | lineCount
  deriving DecidableEq, Repr

/-- What a call on a row cursor answers. -/
inductive CursorReply where
  /-- A row, or none at the end: the answer of `nextRow` and `peek`. -/
  | row (r : Option Row)
  /-- The answer of `hasMore`. -/
  | flag (b : Bool)
  /-- The answer of `readAll`. -/
  | rows (rs : List Row)
  /-- The answer of `lineCount`. -/
  | count (n : Nat)
  /-- The answer of `reset`, which tells nothing. -/
  | done
  deriving DecidableEq, Repr

/-- The rows that a call hands out: the row that `nextRow` takes, the rows that `readAll`
takes, and none for every other call. -/
def CursorCall.taken : CursorCall → CursorReply → List Row
  | .nextRow, .row r => r.toList
  | .readAll, .rows rs => rs
  | _, _ => []

namespace RowCursor

/-- Performs one call: its answer, and the cursor after it. -/
def perform (c : RowCursor) : CursorCall → CursorReply × RowCursor
  | .nextRow => (.row c.next.1, c.next.2)
  | .peek => (.row c.peek, c)
  | .hasMore => (.flag c.hasMore, c)
  | .reset => (.done, c.reset)
  | .readAll => (.rows c.readAll.1, c.readAll.2)
  | .lineCount => (.count c.lineCount, c)

/-- Performs calls in order: their answers, and the cursor after the last. -/
def performAll (c : RowCursor) : List CursorCall → List CursorReply × RowCursor
  | [] => ([], c)
  | k :: ks =>
    let rest := (c.perform k).2.performAll ks
    ((c.perform k).1 :: rest.1, rest.2)

end RowCursor

/-! ## The list cursor -/

namespace ListCursor

variable (L : List String)

/-- The row that line `i` reads as; none when it is malformed or past the end. -/
def rowAt (i : Nat) : Option Row := L[i]?.bind Row.parse?

/-- Line `j` is the first line from `p` on that reads as a row, and it reads as `r`. -/
def FirstRow (p j : Nat) (r : Row) : Prop :=
  p ≤ j ∧ rowAt L j = some r ∧ ∀ i, p ≤ i → i < j → rowAt L i = none

/-- No line from `p` on reads as a row. -/
def NoRow (p : Nat) : Prop := ∀ i, p ≤ i → rowAt L i = none

/-- The rows of the lines from `p` on, in order. -/
def rowsFrom (p : Nat) : List Row := (L.drop p).filterMap Row.parse?

/-- One call on the list cursor over lines `L`: at position `p`, the call answers and moves to
a position. -/
inductive Step : Nat → CursorCall → CursorReply → Nat → Prop
  /-- The next row is that of the first line from `p` on that reads as a row; it is taken. -/
  | nextRow {p j : Nat} {r : Row} : FirstRow L p j r → Step p .nextRow (.row (some r)) (j + 1)
  /-- With no row left, there is none, and the cursor goes to the end. -/
  | nextEnd {p : Nat} : NoRow L p → Step p .nextRow (.row none) L.length
  | peekRow {p j : Nat} {r : Row} : FirstRow L p j r → Step p .peek (.row (some r)) p
  | peekEnd {p : Nat} : NoRow L p → Step p .peek (.row none) p
  /-- A line is left, well-formed or not, before the end. -/
  | hasMore {p : Nat} : Step p .hasMore (.flag (decide (p < L.length))) p
  | reset {p : Nat} : Step p .reset .done 0
  | readAll {p : Nat} : Step p .readAll (.rows (rowsFrom L p)) L.length
  | lineCount {p : Nat} : Step p .lineCount (.count L.length) p

/-- Calls in order on the list cursor over lines `L`: from position `p`, the calls answer in
order and end at a position. -/
inductive Run : Nat → List CursorCall → List CursorReply → Nat → Prop
  | nil {p : Nat} : Run p [] [] p
  | cons {p q r : Nat} {k : CursorCall} {a : CursorReply} {ks : List CursorCall}
      {as : List CursorReply} : Step L p k a q → Run q ks as r → Run p (k :: ks) (a :: as) r

variable {L}

theorem rowAt_of_drop_eq_cons {ls : List String} {p : Nat} {l : String}
    (h : L.drop p = l :: ls) : rowAt L p = Row.parse? l ∧ L.drop (p + 1) = ls := by
  have hget : L[p]? = some l := by
    show L[p + 0]? = some l
    rw [← List.getElem?_drop, h]
    rfl
  refine ⟨by simp [rowAt, hget], ?_⟩
  rw [← List.tail_drop, h]
  rfl

theorem lt_length_of_rowAt {i : Nat} {r : Row} (h : rowAt L i = some r) : i < L.length := by
  by_contra hi
  simp [rowAt, List.getElem?_eq_none (Nat.le_of_not_lt hi)] at h

/-! ### The first row from a position -/

/-- The first row is unique: a line that reads as a row before another stops the search. -/
theorem FirstRow.unique {p j j' : Nat} {r r' : Row} (h : FirstRow L p j r)
    (h' : FirstRow L p j' r') : j = j' ∧ r = r' := by
  obtain ⟨hp, hr, hbefore⟩ := h
  obtain ⟨hp', hr', hbefore'⟩ := h'
  have hj : j = j' := by
    rcases Nat.lt_trichotomy j j' with hlt | heq | hgt
    · simp [hbefore' j hp hlt] at hr
    · exact heq
    · simp [hbefore j' hp' hgt] at hr'
  subst hj
  exact ⟨rfl, Option.some.inj (hr.symm.trans hr')⟩

theorem FirstRow.not_noRow {p j : Nat} {r : Row} (h : FirstRow L p j r) : ¬ NoRow L p :=
  fun hnone => absurd (h.2.1.symm.trans (hnone j h.1)) (by simp)

/-- A line before the first row that is no row leaves the first row as it is. -/
theorem FirstRow.of_succ {p j : Nat} {r : Row} (h : FirstRow L (p + 1) j r)
    (hp : rowAt L p = none) : FirstRow L p j r := by
  obtain ⟨hle, hr, hbefore⟩ := h
  refine ⟨by omega, hr, fun i hi hij => ?_⟩
  rcases Nat.eq_or_lt_of_le hi with rfl | hi
  · exact hp
  · exact hbefore i hi hij

theorem NoRow.of_succ {p : Nat} (h : NoRow L (p + 1)) (hp : rowAt L p = none) : NoRow L p := by
  intro i hi
  rcases Nat.eq_or_lt_of_le hi with rfl | hi
  · exact hp
  · exact h i hi

/-! ### Rows ahead -/

/-- The rows from a position are the row of its line, if any, and the rows after it. -/
theorem rowsFrom_eq_rowAt (p : Nat) : rowsFrom L p = (rowAt L p).toList ++ rowsFrom L (p + 1) := by
  by_cases hp : p < L.length
  · rw [rowsFrom, List.drop_eq_getElem_cons hp, List.filterMap_cons, rowAt,
      List.getElem?_eq_getElem hp, Option.bind_some]
    cases Row.parse? L[p] <;> rfl
  · have hend : L.length ≤ p := Nat.le_of_not_lt hp
    simp [rowsFrom, rowAt, List.drop_eq_nil_of_le hend, List.drop_eq_nil_of_le (Nat.le_succ_of_le hend),
      List.getElem?_eq_none hend]

/-- Lines that read as no row add nothing to the rows ahead. -/
theorem rowsFrom_skip {p j : Nat} (hpj : p ≤ j) (h : ∀ i, p ≤ i → i < j → rowAt L i = none) :
    rowsFrom L p = rowsFrom L j := by
  induction j, hpj using Nat.le_induction with
  | base => rfl
  | succ j hpj ih =>
    rw [ih fun i hi hij => h i hi (Nat.lt_succ_of_lt hij), rowsFrom_eq_rowAt j,
      h j hpj (Nat.lt_succ_self j)]
    rfl

theorem rowsFrom_length : rowsFrom L L.length = [] := by
  simp [rowsFrom]

theorem rowsFrom_of_firstRow {p j : Nat} {r : Row} (h : FirstRow L p j r) :
    rowsFrom L p = r :: rowsFrom L (j + 1) := by
  rw [rowsFrom_skip h.1 h.2.2, rowsFrom_eq_rowAt j, h.2.1]
  rfl

theorem rowsFrom_of_noRow {p : Nat} (h : NoRow L p) : rowsFrom L p = [] := by
  rw [rowsFrom_skip (Nat.le_add_right p L.length) fun i hi _ => h i hi]
  simp [rowsFrom, List.drop_eq_nil_of_le (Nat.le_add_left L.length p)]

/-! ### What a call and a run keep -/

/-- The list cursor is deterministic: a call at a position has one answer and one position
after it. -/
theorem Step.deterministic {p q q' : Nat} {k : CursorCall} {a a' : CursorReply}
    (h : Step L p k a q) (h' : Step L p k a' q') : a = a' ∧ q = q' := by
  cases h with
  | nextRow hf =>
    cases h' with
    | nextRow hf' => obtain ⟨rfl, rfl⟩ := hf.unique hf'; exact ⟨rfl, rfl⟩
    | nextEnd hn => exact absurd hn hf.not_noRow
  | nextEnd hn =>
    cases h' with
    | nextRow hf' => exact absurd hn hf'.not_noRow
    | nextEnd _ => exact ⟨rfl, rfl⟩
  | peekRow hf =>
    cases h' with
    | peekRow hf' => obtain ⟨rfl, rfl⟩ := hf.unique hf'; exact ⟨rfl, rfl⟩
    | peekEnd hn => exact absurd hn hf.not_noRow
  | peekEnd hn =>
    cases h' with
    | peekRow hf' => exact absurd hn hf'.not_noRow
    | peekEnd _ => exact ⟨rfl, rfl⟩
  | hasMore | reset | readAll | lineCount => cases h'; exact ⟨rfl, rfl⟩

theorem Run.deterministic {p q q' : Nat} {ks : List CursorCall} {as as' : List CursorReply}
    (h : Run L p ks as q) (h' : Run L p ks as' q') : as = as' ∧ q = q' := by
  induction h generalizing as' with
  | nil => cases h'; exact ⟨rfl, rfl⟩
  | cons hstep _ ih =>
    cases h' with
    | cons hstep' hrun' =>
      obtain ⟨rfl, rfl⟩ := hstep.deterministic hstep'
      obtain ⟨rfl, rfl⟩ := ih hrun'
      exact ⟨rfl, rfl⟩

/-- A call never moves the cursor past the end. -/
theorem Step.le_length {p q : Nat} {k : CursorCall} {a : CursorReply} (h : Step L p k a q)
    (hp : p ≤ L.length) : q ≤ L.length := by
  cases h with
  | nextRow hf => exact lt_length_of_rowAt hf.2.1
  | reset => exact Nat.zero_le _
  | nextEnd _ | readAll => exact Nat.le_refl _
  | peekRow _ | peekEnd _ | hasMore | lineCount => exact hp

theorem Run.le_length {p q : Nat} {ks : List CursorCall} {as : List CursorReply}
    (h : Run L p ks as q) (hp : p ≤ L.length) : q ≤ L.length := by
  induction h with
  | nil => exact hp
  | cons hstep _ ih => exact ih (hstep.le_length hp)

/-- A call other than `reset` hands out rows from the front of the rows ahead. -/
theorem Step.rowsFrom_eq {p q : Nat} {k : CursorCall} {a : CursorReply} (h : Step L p k a q)
    (hk : k ≠ .reset) : rowsFrom L p = k.taken a ++ rowsFrom L q := by
  cases h with
  | nextRow hf => exact rowsFrom_of_firstRow hf
  | nextEnd hn => simp [CursorCall.taken, rowsFrom_of_noRow hn, rowsFrom_length]
  | readAll => simp [CursorCall.taken, rowsFrom_length]
  | reset => exact absurd rfl hk
  | peekRow _ | peekEnd _ | hasMore | lineCount => rfl

/-- Between resets every row ahead is handed out once, in order: the rows handed out and then
the rows still ahead are the rows ahead at the start. -/
theorem Run.rowsFrom_eq {p q : Nat} {ks : List CursorCall} {as : List CursorReply}
    (h : Run L p ks as q) (hk : CursorCall.reset ∉ ks) :
    rowsFrom L p = (List.zipWith CursorCall.taken ks as).flatten ++ rowsFrom L q := by
  induction h with
  | nil => simp
  | cons hstep _ ih =>
    obtain ⟨hhead, htail⟩ := not_or.mp (List.mem_cons.not.mp hk)
    rw [hstep.rowsFrom_eq (Ne.symm hhead), ih htail, List.zipWith_cons_cons, List.flatten_cons,
      List.append_assoc]

end ListCursor

/-! ## The row cursor refines the list cursor -/

namespace RowCursor

open ListCursor

/-- The search for the next row finds the first line from the cursor that reads as a row. -/
theorem firstRow_eq_some {L : List String} :
    ∀ {ls : List String} {p q : Nat} {r : Row}, L.drop p = ls → firstRow ls p = some (r, q) →
      ∃ j, q = j + 1 ∧ FirstRow L p j r
  | [], _, _, _, _, h => by simp [firstRow] at h
  | l :: ls, p, q, r, hls, h => by
    obtain ⟨hat, hrest⟩ := rowAt_of_drop_eq_cons hls
    rw [firstRow] at h
    split at h
    · rename_i r' hr'
      obtain ⟨rfl, rfl⟩ := Prod.mk.inj (Option.some.inj h)
      exact ⟨p, rfl, Nat.le_refl p, hat.trans hr', fun i hi hip => absurd hip (by omega)⟩
    · rename_i hnone
      obtain ⟨j, rfl, hj⟩ := firstRow_eq_some hrest h
      exact ⟨j, rfl, hj.of_succ (hat.trans hnone)⟩

/-- The search finds nothing only when no line from the cursor reads as a row. -/
theorem noRow_of_firstRow_eq_none {L : List String} :
    ∀ {ls : List String} {p : Nat}, L.drop p = ls → firstRow ls p = none → NoRow L p
  | [], p, hls, _ => fun i hi => by
    have hend : L.length ≤ i := by
      have := List.drop_eq_nil_iff.mp hls
      omega
    simp [rowAt, List.getElem?_eq_none hend]
  | l :: ls, p, hls, h => by
    obtain ⟨hat, hrest⟩ := rowAt_of_drop_eq_cons hls
    rw [firstRow] at h
    split at h
    · exact absurd h (by simp)
    · rename_i hnone
      exact (noRow_of_firstRow_eq_none hrest h).of_succ (hat.trans hnone)

theorem step_next (c : RowCursor) :
    Step c.lines c.pos .nextRow (.row c.next.1) c.next.2.pos ∧ c.next.2 = { c with pos := c.next.2.pos } := by
  unfold next
  split
  · rename_i r q h
    obtain ⟨j, rfl, hj⟩ := firstRow_eq_some rfl h
    exact ⟨.nextRow hj, rfl⟩
  · rename_i h
    exact ⟨.nextEnd (noRow_of_firstRow_eq_none rfl h), rfl⟩

theorem step_peek (c : RowCursor) : Step c.lines c.pos .peek (.row c.peek) c.pos := by
  have hstep := (step_next c).1
  rw [peek]
  generalize c.next.1 = r at hstep ⊢
  generalize c.next.2.pos = q at hstep
  cases hstep with
  | nextRow hf => exact .peekRow hf
  | nextEnd hn => exact .peekEnd hn

/-- One call on the cursor is one step of the list cursor over its lines, and moves nothing
but the position. -/
theorem step_perform (c : RowCursor) (k : CursorCall) :
    Step c.lines c.pos k (c.perform k).1 (c.perform k).2.pos ∧
      (c.perform k).2 = { c with pos := (c.perform k).2.pos } := by
  cases k with
  | nextRow => exact step_next c
  | peek => exact ⟨step_peek c, rfl⟩
  | hasMore => exact ⟨by simpa [perform, hasMore] using Step.hasMore, rfl⟩
  | reset => exact ⟨.reset, rfl⟩
  | readAll => exact ⟨.readAll, rfl⟩
  | lineCount => exact ⟨.lineCount, rfl⟩

/-- Calls on the cursor are a run of the list cursor over its lines. -/
theorem run_performAll (c : RowCursor) (ks : List CursorCall) :
    Run c.lines c.pos ks (c.performAll ks).1 (c.performAll ks).2.pos ∧
      (c.performAll ks).2 = { c with pos := (c.performAll ks).2.pos } := by
  induction ks generalizing c with
  | nil => exact ⟨.nil, rfl⟩
  | cons k ks ih =>
    obtain ⟨hstep, hc⟩ := step_perform c k
    generalize (c.perform k).2.pos = q at hstep hc
    obtain ⟨hrun, hc'⟩ := ih { c with pos := q }
    simp only [performAll]
    rw [hc]
    exact ⟨.cons hstep hrun, hc'⟩

/-- The cursor answers calls exactly as the list cursor over its lines does. -/
theorem performAll_eq_iff (c : RowCursor) (ks : List CursorCall) (as : List CursorReply)
    (q : Nat) : c.performAll ks = (as, { c with pos := q }) ↔ Run c.lines c.pos ks as q := by
  obtain ⟨hrun, hc⟩ := run_performAll c ks
  constructor
  · intro h
    rw [h] at hrun
    exact hrun
  · intro h
    obtain ⟨has, hq⟩ := hrun.deterministic h
    rw [← has, ← hq, ← hc]

end RowCursor

/-- The row cursor of a listing text is a cursor over its data lines that starts at the first
line: it answers any sequence of calls exactly as the list cursor does, never moves past the
last line, and between resets hands out every row of the data lines once, in order. -/
theorem RowCursor.ofText_refines_listCursor (text : String) (calls : List CursorCall)
    (replies : List CursorReply) (p : Nat) :
    ((RowCursor.ofText text).performAll calls = (replies, { RowCursor.ofText text with pos := p }) ↔
      ListCursor.Run (dataLines text) 0 calls replies p) ∧
    (ListCursor.Run (dataLines text) 0 calls replies p → p ≤ (dataLines text).length ∧
      (CursorCall.reset ∉ calls → (dataLines text).filterMap Row.parse? =
        (List.zipWith CursorCall.taken calls replies).flatten ++
          ListCursor.rowsFrom (dataLines text) p)) := by
  have hlines := ofText_lines text
  have hpos := ofText_pos text
  refine ⟨?_, fun hrun => ⟨hrun.le_length (Nat.zero_le _), fun hk => ?_⟩⟩
  · rw [performAll_eq_iff, hlines, hpos]
  · simpa [ListCursor.rowsFrom] using hrun.rowsFrom_eq hk

end RelayLadder
