import Mathlib.Data.List.Basic

/-!
# Newline-delimited streams

`lines s` is what the loop `while ((nl = buf.find('\n')) != npos)` takes off
a buffer: the complete lines, without their newlines, and the rest
(`lines_none`, `lines_line`, `lines_flatten`).

* `lines_texts_iff`: texts written with a newline behind each are the lines of
  the stream exactly when none of them has a newline.
* `feed_chunks`: what a reader with a handler for each line does depends on
  the stream only, not on the chunks in which it arrives.
* `readWhile_stops`: where a reader stops that looks at its state between
  chunks only.
-/

namespace Framing

/-- The newline byte. -/
abbrev newline : UInt8 := 10

/-- `cur` is the line read so far. -/
def linesFrom (cur : List UInt8) : List UInt8 → List (List UInt8) × List UInt8
  | [] => ([], cur)
  | b :: s =>
    if b = newline then (cur :: (linesFrom [] s).1, (linesFrom [] s).2)
    else linesFrom (cur ++ [b]) s

def lines (s : List UInt8) : List (List UInt8) × List UInt8 := linesFrom [] s

theorem linesFrom_append (s t : List UInt8) : ∀ cur : List UInt8,
    linesFrom cur (s ++ t) = ((linesFrom cur s).1 ++ (linesFrom (linesFrom cur s).2 t).1,
      (linesFrom (linesFrom cur s).2 t).2) := by
  induction s with
  | nil => intro cur; rfl
  | cons b s ih =>
    intro cur
    rw [List.cons_append, linesFrom, linesFrom]
    split
    · rw [ih]; rfl
    · rw [ih]

/-- Bytes without a newline stay in the current line. -/
theorem linesFrom_of_not_mem {s : List UInt8} (h : newline ∉ s) (t : List UInt8) :
    ∀ cur : List UInt8, linesFrom cur (s ++ t) = linesFrom (cur ++ s) t := by
  induction s with
  | nil => intro cur; rw [List.append_nil, List.nil_append]
  | cons b s ih =>
    intro cur
    obtain ⟨hb, hs⟩ := not_or.mp (List.mem_cons.not.mp h)
    rw [List.cons_append, linesFrom, if_neg (Ne.symm hb), ih hs, List.append_assoc]
    rfl

theorem rest_not_mem (s : List UInt8) : ∀ cur : List UInt8, newline ∉ cur →
    newline ∉ (linesFrom cur s).2 := by
  induction s with
  | nil => intro cur h; exact h
  | cons b s ih =>
    intro cur h
    rw [linesFrom]
    split
    · exact ih [] List.not_mem_nil
    · rename_i hb
      refine ih _ ?_
      rw [List.mem_append, List.mem_singleton, not_or]
      exact ⟨h, Ne.symm hb⟩

/-- No newline: the loop takes nothing. -/
theorem lines_none {s : List UInt8} (h : newline ∉ s) : lines s = ([], s) := by
  have := linesFrom_of_not_mem h [] []
  rw [List.append_nil] at this
  exact this

/-- One turn of the loop takes the bytes up to the first newline. -/
theorem lines_line {l : List UInt8} (h : newline ∉ l) (s : List UInt8) :
    lines (l ++ newline :: s) = (l :: (lines s).1, (lines s).2) := by
  rw [lines, linesFrom_of_not_mem h, List.nil_append, linesFrom, if_pos rfl]
  rfl

/-- Reading on from the rest of what came first gives the lines of the whole
stream. -/
theorem lines_append (s t : List UInt8) :
    lines (s ++ t) =
      ((lines s).1 ++ (lines ((lines s).2 ++ t)).1, (lines ((lines s).2 ++ t)).2) := by
  have hrest : lines ((lines s).2 ++ t) = linesFrom (lines s).2 t :=
    linesFrom_of_not_mem (rest_not_mem s [] List.not_mem_nil) t []
  rw [hrest, lines, linesFrom_append]
  rfl

/-- A stream of lines, each with its newline. -/
theorem lines_flatten {ls : List (List UInt8)} (h : ∀ l ∈ ls, newline ∉ l) (s : List UInt8) :
    lines ((ls.map (· ++ [newline])).flatten ++ s) = (ls ++ (lines s).1, (lines s).2) := by
  induction ls with
  | nil => rfl
  | cons l ls ih =>
    obtain ⟨hl, hls⟩ := List.forall_mem_cons.mp h
    rw [List.map_cons, List.flatten_cons, List.append_assoc, List.append_assoc,
      List.singleton_append, lines_line hl, ih hls]
    rfl

/-! ## Texts that are written with a newline behind each -/

theorem linesFrom_length (s : List UInt8) : ∀ cur : List UInt8,
    (linesFrom cur s).1.length = s.count newline := by
  induction s with
  | nil => intro cur; rfl
  | cons b s ih =>
    intro cur
    rw [linesFrom, List.count_cons]
    split
    · rename_i hb
      simp [ih, hb]
    · rename_i hb
      simp [ih, hb]

/-- A stream has as many lines as newlines. -/
theorem lines_length (s : List UInt8) : (lines s).1.length = s.count newline :=
  linesFrom_length s []

theorem le_count_newline (ws : List (List UInt8)) :
    ws.length ≤ (ws.map (· ++ [newline])).flatten.count newline := by
  induction ws with
  | nil => exact Nat.le_refl 0
  | cons w ws ih =>
    simp only [List.map_cons, List.flatten_cons, List.count_append, List.count_singleton_self,
      List.length_cons]
    omega

/-- The stream has one line a text exactly when no text has a newline. -/
theorem lines_texts_length_iff (ws : List (List UInt8)) :
    (lines (ws.map (· ++ [newline])).flatten).1.length = ws.length ↔ ∀ w ∈ ws, newline ∉ w := by
  rw [lines_length]
  induction ws with
  | nil => exact iff_of_true rfl (List.forall_mem_nil _)
  | cons w ws ih =>
    have hle := le_count_newline ws
    rw [List.forall_mem_cons, ← ih, ← List.count_eq_zero, List.map_cons, List.flatten_cons,
      List.count_append, List.count_append, List.count_singleton_self, List.length_cons]
    omega

/-- Then its lines are the texts. -/
theorem lines_texts_iff (ws : List (List UInt8)) :
    lines (ws.map (· ++ [newline])).flatten = (ws, []) ↔ ∀ w ∈ ws, newline ∉ w := by
  constructor
  · intro h
    rw [← lines_texts_length_iff, h]
  · intro h
    have := lines_flatten h []
    rwa [List.append_nil, lines_none List.not_mem_nil, List.append_nil] at this

/-! ## A reader with a handler for each line -/

section Feed

variable {σ ε : Type} (handle : σ → List UInt8 → Except ε σ)

/-- One chunk, with the reader's state and its pending bytes. -/
def feed (st : σ × List UInt8) (chunk : List UInt8) : Except ε (σ × List UInt8) :=
  ((lines (st.2 ++ chunk)).1.foldlM handle st.1).map fun s => (s, (lines (st.2 ++ chunk)).2)

/-- **Chunking.** What a reader does depends on the stream only, not on how it
was cut. -/
theorem feed_chunks (chunks : List (List UInt8)) : ∀ (s : σ) (p : List UInt8), newline ∉ p →
    chunks.foldlM (feed handle) (s, p) =
      ((lines (p ++ chunks.flatten)).1.foldlM handle s).map
        fun s => (s, (lines (p ++ chunks.flatten)).2) := by
  induction chunks with
  | nil =>
    intro s p hp
    rw [List.flatten_nil, List.append_nil, lines_none hp]
    rfl
  | cons c chunks ih =>
    intro s p hp
    rw [List.foldlM_cons, List.flatten_cons, ← List.append_assoc, lines_append, List.foldlM_append]
    simp only [feed]
    cases h : (lines (p ++ c)).1.foldlM handle s with
    | error e => rfl
    | ok t => exact ih t _ (rest_not_mem (p ++ c) [] List.not_mem_nil)

/-- The reader takes the next chunk while `go` holds of its state. -/
def readWhile (go : σ → Bool) (st : σ × List UInt8) :
    List (List UInt8) → Except ε (σ × List UInt8)
  | [] => .ok st
  | chunk :: chunks =>
    if go st.1 then
      match feed handle st chunk with
      | .error e => .error e
      | .ok st => readWhile go st chunks
    else .ok st

/-- **Stopping.** Such a reader handles all the lines that the chunks up to one
complete: up to the first behind which `go` is false, or to the last. -/
theorem readWhile_stops (go : σ → Bool) (chunks : List (List UInt8)) :
    ∀ (s : σ) (p : List UInt8), newline ∉ p → ∃ k ≤ chunks.length,
      readWhile handle go (s, p) chunks =
        ((lines (p ++ (chunks.take k).flatten)).1.foldlM handle s).map
          (fun s => (s, (lines (p ++ (chunks.take k).flatten)).2)) ∧
      (k < chunks.length → ∀ t,
        (lines (p ++ (chunks.take k).flatten)).1.foldlM handle s = .ok t → go t = false) ∧
      ∀ i < k, ∃ t,
        (lines (p ++ (chunks.take i).flatten)).1.foldlM handle s = .ok t ∧ go t = true := by
  induction chunks with
  | nil =>
    intro s p hp
    refine ⟨0, Nat.le_refl 0, ?_, fun h => absurd h (Nat.lt_irrefl 0),
      fun i hi => absurd hi (Nat.not_lt_zero i)⟩
    rw [List.take_zero, List.flatten_nil, List.append_nil, lines_none hp]
    rfl
  | cons c chunks ih =>
    intro s p hp
    have hzero : lines (p ++ ((c :: chunks).take 0).flatten) = ([], p) := by
      rw [List.take_zero, List.flatten_nil, List.append_nil, lines_none hp]
    have hsucc : ∀ i, lines (p ++ ((c :: chunks).take (i + 1)).flatten) =
        ((lines (p ++ c)).1 ++ (lines ((lines (p ++ c)).2 ++ (chunks.take i).flatten)).1,
          (lines ((lines (p ++ c)).2 ++ (chunks.take i).flatten)).2) := by
      intro i
      rw [List.take_succ_cons, List.flatten_cons, ← List.append_assoc, lines_append]
    rw [readWhile]
    cases hgo : go s with
    | false =>
      refine ⟨0, Nat.zero_le _, ?_, fun _ t ht => ?_, fun i hi => absurd hi (Nat.not_lt_zero i)⟩
      · rw [hzero, if_neg Bool.false_ne_true]
        rfl
      · rw [hzero] at ht
        cases ht
        exact hgo
    | true =>
      have hstart : ∃ t, (lines (p ++ ((c :: chunks).take 0).flatten)).1.foldlM handle s = .ok t ∧
          go t = true := by
        rw [hzero]
        exact ⟨s, rfl, hgo⟩
      rw [if_pos rfl]
      simp only [feed]
      cases hfirst : (lines (p ++ c)).1.foldlM handle s with
      | error e =>
        -- the handler of a line of this chunk ends the reader
        have hone : (lines (p ++ ((c :: chunks).take 1).flatten)).1.foldlM handle s =
            .error e := by
          rw [hsucc, List.foldlM_append, hfirst]
          rfl
        refine ⟨1, Nat.succ_le_succ (Nat.zero_le _), ?_, fun _ t ht => ?_, fun i hi => ?_⟩
        · rw [hone]
          rfl
        · rw [hone] at ht
          cases ht
        · rw [Nat.lt_one_iff.mp hi]
          exact hstart
      | ok t =>
        have hrest : ∀ i, (lines (p ++ ((c :: chunks).take (i + 1)).flatten)).1.foldlM handle s =
            (lines ((lines (p ++ c)).2 ++ (chunks.take i).flatten)).1.foldlM handle t := by
          intro i
          rw [hsucc, List.foldlM_append, hfirst]
          rfl
        obtain ⟨k, hk, hrun, hstop, hbefore⟩ :=
          ih t _ (rest_not_mem (p ++ c) [] List.not_mem_nil)
        refine ⟨k + 1, Nat.succ_le_succ hk, ?_, fun h => ?_, fun i hi => ?_⟩
        · rw [hrest, hsucc]
          exact hrun
        · rw [hrest]
          exact hstop (Nat.lt_of_succ_lt_succ h)
        · cases i with
          | zero => exact hstart
          | succ i =>
            rw [hrest]
            exact hbefore i (Nat.lt_of_succ_lt_succ hi)

end Feed

/-- More chunks complete more lines. -/
theorem lines_take_mono (chunks : List (List UInt8)) {i j : Nat} (h : i ≤ j) :
    (lines (chunks.take i).flatten).1 <+: (lines (chunks.take j).flatten).1 := by
  obtain ⟨t, ht⟩ := List.take_prefix_take_left h (l := chunks)
  rw [← ht, List.flatten_append, lines_append]
  exact List.prefix_append _ _

theorem lines_take_all (chunks : List (List UInt8)) (i : Nat) :
    (lines (chunks.take i).flatten).1 <+: (lines chunks.flatten).1 := by
  have h := lines_take_mono chunks (Nat.le_max_left i chunks.length)
  rwa [List.take_of_length_le (Nat.le_max_right i chunks.length)] at h

end Framing
