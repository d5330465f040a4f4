import FileGuard.L4Controller.Resolver
import FileGuard.L6Cli.RunEvents

/-!
# `guardctl events --count N`

The limit of `run_events` (`src/cli.cpp`), on a stream of the lines that
`include/fileguard/daemon.hpp` documents, with the branch of `parse_cli` that
reads it. The loop compares its count with the limit before each call of `recv`
only, so it prints every event that the last chunk completes.

* `parseEvents_count`: what `--count` sets.
* `receive_stops`: the loop stops behind the first chunk that brings the count
  to the limit.
* `events_count_iff`: it prints the first `N` events exactly when the stream
  has no more, or some chunk ends with the `N`-th as its last event.
-/
namespace FileGuard

open Framing

/-! ## The arguments -/

/-- `std::isspace` in the C locale -/
def isCSpace (b : UInt8) : Bool := b = 32 || (9 ≤ b && b ≤ 13)

/-- `std::atoi`, which is defined for the values of `int` only. -/
def atoi (s : Str) : Int32 :=
  let s := s.dropWhile isCSpace
  let digits := if s.head? = some 45 ∨ s.head? = some 43 then s.tail else s
  let n : Nat := (digits.takeWhile JsonText.isDigit).foldl (fun n b => 10 * n + (b.toNat - 48)) 0
  Int32.ofInt (if s.head? = some 45 then -(n : Int) else n)

/-- mirrors include/fileguard/cli.hpp:16, 18-19 -/
structure EventsArgs extends CliArgs where
  runtimeDir : Str

/-- The options of `events`.
mirrors src/cli.cpp:482-493 -/
def parseEvents (args : EventsArgs) : List Str → Result EventsArgs
  | [] => .ok args
  | [t] =>
    if t = str "--json" then .ok { args with jsonOutput := true }
    else err (str "unknown events option: '" ++ t ++ str "'")
  | t :: v :: tokens =>
    if t = str "--json" then parseEvents { args with jsonOutput := true } (v :: tokens)
    else if t = str "--count" then parseEvents { args with eventCount := atoi v } tokens
    else if t = str "--runtime-dir" then parseEvents { args with runtimeDir := v } tokens
    else err (str "unknown events option: '" ++ t ++ str "'")

theorem foldl_digits : ∀ (cs : List Char) (n : Nat), (∀ c ∈ cs, c.isDigit = true) →
    (cs.flatMap String.utf8EncodeChar).foldl (fun n b => 10 * n + (b.toNat - 48)) n =
      Nat.ofDigitChars 10 cs n
  | [], _, _ => rfl
  | c :: cs, n, h => by
    obtain ⟨hc, hcs⟩ := List.forall_mem_cons.mp h
    obtain ⟨hchar, -⟩ := utf8EncodeChar_digit hc
    have hbyte : (UInt8.ofNat c.val.toNat).toNat = c.toNat := by
      have : 48 ≤ c.val.toNat ∧ c.val.toNat ≤ 57 := by
        simpa [Char.isDigit, UInt32.le_iff_toNat_le] using hc
      rw [UInt8.toNat_ofNat', Nat.mod_eq_of_lt (by omega)]
      rfl
    rw [List.flatMap_cons, hchar, List.singleton_append, List.foldl_cons, hbyte,
      foldl_digits cs _ hcs, Nat.ofDigitChars_cons]
    rfl

/-- A decimal text of an `int` is read as its number. -/
theorem atoi_toStr {n : Nat} (hn : n < 2147483648) : (atoi (toStr n)).toInt = n := by
  obtain ⟨b, s, hs, hb⟩ := toStr_head n
  obtain ⟨hspace, hminus, hplus⟩ : isCSpace b = false ∧ b ≠ 45 ∧ b ≠ 43 := by
    have := JsonText.forall_byte (P := fun b => JsonText.isDigit b = true →
      isCSpace b = false ∧ b ≠ 45 ∧ b ≠ 43) (by decide +kernel)
    exact this b hb
  have hdrop : (toStr n).dropWhile isCSpace = toStr n := by
    rw [hs, List.dropWhile_cons_of_neg (by simp [hspace])]
  have hhead : (toStr n).head? = some b := by rw [hs]; rfl
  have hdigits : (toStr n).takeWhile JsonText.isDigit = toStr n := by
    have := (JsonText.span_digits (isDigit_toStr n) JsonText.Stops.nil).1
    rwa [List.append_nil] at this
  have hvalue : (toStr n).foldl (fun n b => 10 * n + (b.toNat - 48)) 0 = n := by
    rw [toStr_digits, foldl_digits _ _ fun c hc =>
      Nat.isDigit_of_mem_toDigits (by decide) (Nat.le_refl 10) hc]
    exact Nat.ofDigitChars_ten_toDigits
  have h45 : ¬ (some b = some (45 : UInt8)) := fun h => hminus (Option.some.inj h)
  have h43 : ¬ (some b = some (43 : UInt8)) := fun h => hplus (Option.some.inj h)
  simp only [atoi, hdrop, hhead, h45, h43, or_self, if_false, hdigits, hvalue]
  exact Int32.toInt_ofInt_of_le (by omega) (by omega)

/-- `--count N` sets the limit `N`. -/
theorem parseEvents_count (args : EventsArgs) {n : Nat} (hn : n < 2147483648) :
    ∃ args', parseEvents args [str "--count", toStr n] = .ok args' ∧
      args'.eventCount.toInt = n :=
  ⟨{ args with eventCount := atoi (toStr n) }, by
    rw [parseEvents, if_neg (by decide), if_pos rfl, parseEvents], atoi_toStr hn⟩

/-! ## The documented stream -/

variable {lib : JsonLib} {args : CliArgs}

/-- A line of the stream: `{"event":{...}}` with an event that decodes, an
acknowledgement, a blank line, or a line that is no JSON. -/
inductive StreamLine (lib : JsonLib) (line : Str) : Prop
  | blank (h : line = [])
  | malformed {e : JsonEx} (h : lib.parse line = .error e) (hkind : e.kind = .parseError)
  | acknowledgement {j : Json} (h : lib.parse line = .ok j)
    (hevent : j.find (str "event") = none)
    (hok : lib.value lib.getBool j (str "ok") false = .ok true)
  | event {j event : Json} {e : SecurityEvent} (h : lib.parse line = .ok j)
    (hevent : j.find (str "event") = some event) (he : eventFromJson lib event = .ok e)

/-- The event of a line. -/
def lineEvent (lib : JsonLib) (line : Str) : Option Json :=
  match lib.parse line with
  | .ok j => j.find (str "event")
  | .error _ => none

/-- The events of the complete lines of `s`. -/
def eventsOf (lib : JsonLib) (s : Str) : List Json := (lines s).1.filterMap (lineEvent lib)

/-- The line of an event that the daemon can send is one of the stream. -/
theorem streamLine_envelope (hlib : lib.Documented) {e : SecurityEvent} (he : e.Named)
    {text : Str} (h : lib.dump (eventEnvelope e) = .ok text) :
    StreamLine lib text ∧ lineEvent lib text = some (jsonOfObject e) := by
  have hparse := hlib.parse_exact (eventEnvelope_exact e) h
  refine ⟨.event hparse (eventEnvelope_find e) (eventFromJson_object hlib he), ?_⟩
  simp only [lineEvent, hparse, eventEnvelope_find]

/-! ## What the loop has printed -/

/-- The output is that of exactly the events `evs`, in order: their texts, or
the table of the decoded events. -/
def Printed (lib : JsonLib) (args : CliArgs) (evs : List Json) (st : EventsState) : Prop :=
  if args.jsonOutput then
    st.table = .console false [] ∧ ∃ texts, evs.mapM lib.dump = .ok texts ∧
      st.out = (texts.map (· ++ [newline])).flatten
  else
    st.out = [] ∧ ∃ es, evs.mapM (eventFromJson lib) = .ok es ∧ st.table.Wrote lib es

/-- A part of the events, in order, has another output. -/
theorem Printed.eq_of_sublist {evs evs' : List Json} {st : EventsState}
    (h : Printed lib args evs st) (h' : Printed lib args evs' st) (hsub : evs.Sublist evs') :
    evs = evs' := by
  unfold Printed at h h'
  split at h
  · rename_i hjson
    rw [if_pos hjson] at h'
    obtain ⟨-, texts, ht, ho⟩ := h
    obtain ⟨-, texts', ht', ho'⟩ := h'
    obtain ⟨part, hp, hpart⟩ := Traverse.mapM_sublist_ok hsub ht'
    cases hp.symm.trans ht
    have htexts := eq_of_map_flatten_eq hpart (fun t => by simp) (ho.symm.trans ho')
    refine hsub.eq_of_length ?_
    rw [← Traverse.mapM_ok_length ht, ← Traverse.mapM_ok_length ht', htexts]
  · rename_i hjson
    rw [if_neg hjson] at h'
    obtain ⟨-, es, he, hw⟩ := h
    obtain ⟨-, es', he', hw'⟩ := h'
    obtain ⟨part, hp, hpart⟩ := Traverse.mapM_sublist_ok hsub he'
    cases hp.symm.trans he
    have hes := hw.eq_of_sublist hw' hpart
    refine hsub.eq_of_length ?_
    rw [← Traverse.mapM_ok_length he, ← Traverse.mapM_ok_length he', hes]

/-- The state of the loop when it has shown `evs`. -/
structure Shown (lib : JsonLib) (args : CliArgs) (evs : List Json) (st : EventsState) : Prop where
  printed : Printed lib args evs st
  table : st.table.isJson = false
  seen : st.recognised = evs

theorem Shown.nil : Shown lib args [] {} where
  printed := by
    unfold Printed
    split
    · exact ⟨rfl, [], rfl, rfl⟩
    · exact ⟨rfl, [], rfl, rfl, rfl⟩
  table := rfl
  seen := rfl

/-- An event that decodes is shown behind those before it. -/
theorem showEvent_shown (hlib : lib.Documented) {event : Json} {e : SecurityEvent}
    (hutf : event.utf8 = true) (he : eventFromJson lib event = .ok e) {evs : List Json}
    {st : EventsState} (hst : Shown lib args evs st) :
    ∃ st', showEvent lib args event st = .ok st' ∧ Printed lib args (evs ++ [event]) st' ∧
      st'.table.isJson = false ∧ st'.recognised = evs := by
  have hprinted := hst.printed
  unfold Printed at hprinted
  unfold showEvent Printed
  split at hprinted
  · rename_i hjson
    rw [if_pos hjson]
    obtain ⟨htable, texts, htexts, hout⟩ := hprinted
    obtain ⟨text, htext⟩ := hlib.dump_utf8 _ hutf
    rw [htext]
    refine ⟨_, rfl, ?_, hst.table, hst.seen⟩
    rw [if_pos hjson]
    refine ⟨htable, texts ++ [text], Traverse.mapM_concat_ok htexts htext, ?_⟩
    simp [hout]
  · rename_i hjson
    rw [if_neg hjson]
    obtain ⟨hout, es, hes, hwrote⟩ := hprinted
    obtain ⟨table, htable⟩ := (Sink.write_ok_iff hlib e st.table).mpr fun h => by
      rw [hst.table] at h; cases h
    simp only [he, htable, if_neg hjson]
    exact ⟨_, rfl, ⟨hout, es ++ [e], Traverse.mapM_concat_ok hes he, hwrote.write htable⟩,
      (Sink.write_isJson htable).trans hst.table, hst.seen⟩

/-- One line. -/
theorem eventsLine_shown (hlib : lib.Documented) {line : Str} (hline : StreamLine lib line)
    {evs : List Json} {st : EventsState} (hst : Shown lib args evs st) :
    ∃ st', eventsLine lib args st line = .ok st' ∧
      Shown lib args (evs ++ (lineEvent lib line).toList) st' := by
  have hskip : lineEvent lib line = none → eventsLine lib args st line = .ok st →
      ∃ st', eventsLine lib args st line = .ok st' ∧
        Shown lib args (evs ++ (lineEvent lib line).toList) st' := by
    intro hnone h
    rw [hnone, Option.toList_none, List.append_nil]
    exact ⟨st, h, hst⟩
  cases hline with
  | blank h =>
    refine hskip ?_ (if_pos h)
    cases hp : lib.parse line with
    | error e => simp only [lineEvent, hp]
    | ok j => exact absurd (h ▸ hp) (hlib.parse_empty j)
  | malformed h hkind =>
    refine hskip (by simp only [lineEvent, h]) ?_
    unfold eventsLine
    split
    · rfl
    · simp only [h, hkind, if_true]
  | acknowledgement h hevent hok =>
    refine hskip (by simp only [lineEvent, h, hevent]) ?_
    unfold eventsLine
    split
    · rfl
    · simp only [h, hevent, hok]
  | event h hevent he =>
    rename_i j event e
    have hne : line ≠ [] := fun hnil => hlib.parse_empty j (hnil ▸ h)
    obtain ⟨st', hshow, hprinted, htable, hseen⟩ := showEvent_shown hlib
      (Json.utf8_find (hlib.parse_utf8 _ _ h) hevent) he hst
    have hlineEvent : lineEvent lib line = some event := by simp only [lineEvent, h, hevent]
    rw [hlineEvent, Option.toList_some]
    refine ⟨{ st' with recognised := st'.recognised ++ [event] }, ?_, hprinted, htable,
      congrArg (· ++ [event]) hseen⟩
    unfold eventsLine
    rw [if_neg hne]
    simp only [h, hevent, hshow]
    rfl

/-- All the lines that a chunk completes. -/
theorem eventsLines_shown (hlib : lib.Documented) : ∀ {ls : List Str} {evs : List Json}
    {st : EventsState}, (∀ line ∈ ls, StreamLine lib line) → Shown lib args evs st →
    ∃ st', ls.foldlM (eventsLine lib args) st = .ok st' ∧
      Shown lib args (evs ++ ls.filterMap (lineEvent lib)) st'
  | [], evs, st, _, hst => ⟨st, rfl, by rwa [List.filterMap_nil, List.append_nil]⟩
  | line :: ls, evs, st, hls, hst => by
    obtain ⟨hline, hls⟩ := List.forall_mem_cons.mp hls
    obtain ⟨st1, h1, hst1⟩ := eventsLine_shown hlib hline hst
    obtain ⟨st2, h2, hst2⟩ := eventsLines_shown hlib hls hst1
    refine ⟨st2, ?_, ?_⟩
    · rw [List.foldlM_cons, h1]
      exact h2
    · rw [← List.singleton_append, List.filterMap_append, ← List.append_assoc]
      cases hevent : lineEvent lib line with
      | none => simpa [hevent] using hst2
      | some event => simpa [hevent] using hst2

/-! ## The loop -/

/-- The test of the loop. -/
def wantsMore (args : CliArgs) (st : EventsState) : Bool :=
  args.eventCount < 0 ∨ (st.recognised.length : Int) < args.eventCount.toInt

theorem wantsMore_iff {N : Nat} (hN : args.eventCount.toInt = N) {evs : List Json}
    {st : EventsState} (hst : Shown lib args evs st) :
    wantsMore args st = true ↔ evs.length < N := by
  have hcount : ¬ args.eventCount < 0 := by
    rw [Int32.lt_iff_toInt_lt, hN]
    exact Int.not_lt.mpr (Int.natCast_nonneg N)
  rw [wantsMore, decide_eq_true_iff, or_iff_right hcount, hst.seen, hN]
  exact Int.ofNat_lt

theorem receive_eq (args : CliArgs) : ∀ (chunks : List Str) (st : EventsState × Str),
    (∀ chunk ∈ chunks, chunk ≠ []) →
    receive lib args st chunks = readWhile (eventsLine lib args) (wantsMore args) st chunks
  | [], st, _ => rfl
  | chunk :: chunks, st, hne => by
    obtain ⟨hc, hne⟩ := List.forall_mem_cons.mp hne
    simp only [receive, readWhile, if_neg hc, wantsMore, decide_eq_true_iff]
    split
    · cases feed (eventsLine lib args) st chunk with
      | error e => rfl
      | ok st => exact receive_eq args chunks st hne
    · rfl

/-- The loop stops behind the first chunk that brings the count to the limit,
with everything shown that the chunks so far have completed. -/
theorem receive_stops (hlib : lib.Documented) {N : Nat} (hN : args.eventCount.toInt = N)
    {chunks : List Str} (hne : ∀ chunk ∈ chunks, chunk ≠ [])
    (hstream : ∀ line ∈ (lines chunks.flatten).1, StreamLine lib line) :
    ∃ k ≤ chunks.length, ∃ st p, receive lib args ({}, []) chunks = .ok (st, p) ∧
      Shown lib args (eventsOf lib (chunks.take k).flatten) st ∧
      (k < chunks.length → N ≤ (eventsOf lib (chunks.take k).flatten).length) ∧
      ∀ i < k, (eventsOf lib (chunks.take i).flatten).length < N := by
  have hshown : ∀ i, ∃ st,
      (lines (chunks.take i).flatten).1.foldlM (eventsLine lib args) {} = .ok st ∧
        Shown lib args (eventsOf lib (chunks.take i).flatten) st := fun i =>
    eventsLines_shown hlib
      (fun line hline => hstream line ((lines_take_all chunks i).subset hline)) Shown.nil
  obtain ⟨k, hk, hrun, hstop, hbefore⟩ :=
    readWhile_stops (eventsLine lib args) (wantsMore args) chunks {} [] List.not_mem_nil
  simp only [List.nil_append] at hrun hstop hbefore
  obtain ⟨st, hst, hst'⟩ := hshown k
  refine ⟨k, hk, st, (lines (chunks.take k).flatten).2, ?_, hst', fun hlt => ?_, fun i hi => ?_⟩
  · rw [receive_eq args chunks _ hne, hrun, hst]
    rfl
  · have hoff := hstop hlt st hst
    refine Nat.not_lt.mp fun hless => ?_
    rw [(wantsMore_iff hN hst').mpr hless] at hoff
    cases hoff
  · obtain ⟨t, ht, hon⟩ := hbefore i hi
    obtain ⟨t', ht', hshown'⟩ := hshown i
    rw [ht] at ht'
    cases ht'
    exact (wantsMore_iff hN hshown').mp hon

/-- A stream that comes in one chunk is shown whole, unless the limit is zero. -/
theorem receive_one_chunk (hlib : lib.Documented) {N : Nat} (hN : args.eventCount.toInt = N)
    (hpos : 0 < N) {chunk : Str} (hne : chunk ≠ [])
    (hstream : ∀ line ∈ (lines chunk).1, StreamLine lib line) :
    ∃ st p, receive lib args ({}, []) [chunk] = .ok (st, p) ∧
      Shown lib args (eventsOf lib chunk) st := by
  obtain ⟨k, hk, st, p, hrun, hst, hstop, -⟩ := receive_stops hlib hN
    (List.forall_mem_singleton.mpr hne) (by rwa [List.flatten_singleton])
  have hone : k = 1 := by
    refine Nat.le_antisymm hk (Nat.not_lt.mp fun hlt => ?_)
    have hlimit := hstop hlt
    rw [Nat.lt_one_iff.mp hlt] at hlimit
    exact absurd hlimit (Nat.not_le.mpr hpos)
  rw [hone, List.take_of_length_le (Nat.le_refl 1), List.flatten_singleton] at hst
  exact ⟨st, p, hrun, hst⟩

/-- More chunks bring more events. -/
theorem eventsOf_take_mono (lib : JsonLib) (chunks : List Str) {i j : Nat} (h : i ≤ j) :
    eventsOf lib (chunks.take i).flatten <+: eventsOf lib (chunks.take j).flatten :=
  (lines_take_mono chunks h).filterMap _

/-- A count that grows to `total` in `n` steps and is stopped at step `k`, the
first to reach the limit, stops at the limit or the total when it takes the
limit as a value. -/
theorem stops_at_limit_iff {count : Nat → Nat} {k n limit total : Nat} (hk : k ≤ n)
    (hmono : ∀ i j, i ≤ j → count i ≤ count j) (htotal : ∀ i, n ≤ i → count i = total)
    (hstop : k < n → limit ≤ count k) (hbefore : ∀ i < k, count i < limit) :
    count k = min limit total ↔ total ≤ limit ∨ ∃ i, count i = limit := by
  have hle : count k ≤ total := by
    rw [← htotal n (Nat.le_refl n)]
    exact hmono k n hk
  constructor
  · intro h
    rcases Nat.le_total total limit with ht | ht
    · exact .inl ht
    · exact .inr ⟨k, by rw [h, Nat.min_eq_left ht]⟩
  · rintro (ht | ⟨i, hi⟩)
    · rcases Nat.lt_or_ge k n with hlt | hge
      · have := hstop hlt
        omega
      · have := htotal k hge
        omega
    · have hki : k ≤ i := Nat.not_lt.mp fun hik => by
        have := hbefore i hik
        omega
      have hcount := hmono k i hki
      rcases Nat.lt_or_ge k n with hlt | hge
      · have := hstop hlt
        omega
      · have htk := htotal k hge
        have hti := htotal i (Nat.le_trans hge hki)
        omega

/-- **The limit.** `guardctl events --count N` prints exactly the first `N` events
of the stream if and only if the stream has at most `N`, or some chunk ends with
the `N`-th event complete and no later one. -/
theorem events_count_iff (lib : JsonLib) (hlib : lib.Documented) (args : CliArgs) (N : Nat)
    (hN : args.eventCount.toInt = N) (chunks : List Str)
    (hchunks : ∀ chunk ∈ chunks, chunk ≠ [] ∧ chunk.length ≤ 4096)
    (hstream : ∀ line ∈ (lines chunks.flatten).1, StreamLine lib line) :
    (∃ st, runEvents lib args (.ok chunks) = .ok (st, 0) ∧
        Printed lib args ((eventsOf lib chunks.flatten).take N) st) ↔
      (eventsOf lib chunks.flatten).length ≤ N ∨
        ∃ k, (eventsOf lib (chunks.take k).flatten).length = N := by
  obtain ⟨k, hk, st, p, hrun, hst, hstop, hbefore⟩ :=
    receive_stops hlib hN (fun c hc => (hchunks c hc).1) hstream
  have hall : ∀ i, chunks.length ≤ i →
      eventsOf lib (chunks.take i).flatten = eventsOf lib chunks.flatten := by
    intro i hi
    rw [List.take_of_length_le hi]
  have hprefix : eventsOf lib (chunks.take k).flatten <+: eventsOf lib chunks.flatten :=
    hall chunks.length (Nat.le_refl _) ▸ eventsOf_take_mono lib chunks hk
  have hout : (∃ st, runEvents lib args (.ok chunks) = .ok (st, 0) ∧
      Printed lib args ((eventsOf lib chunks.flatten).take N) st) ↔
      Printed lib args ((eventsOf lib chunks.flatten).take N) st := by
    simp only [runEvents, hrun, Except.map]
    constructor
    · rintro ⟨st', h, hp⟩
      cases h
      exact hp
    · intro hp
      exact ⟨_, rfl, hp⟩
  -- the output is that of the events up to the end of chunk `k`, and of no others
  have hprinted : Printed lib args ((eventsOf lib chunks.flatten).take N) st ↔
      (eventsOf lib (chunks.take k).flatten).length =
        min N (eventsOf lib chunks.flatten).length := by
    rw [← List.length_take]
    constructor
    · intro h
      rcases List.prefix_or_prefix_of_prefix hprefix (List.take_prefix N _) with hp | hp
      · rw [hst.printed.eq_of_sublist h hp.sublist]
      · rw [h.eq_of_sublist hst.printed hp.sublist]
    · intro h
      have hsame : eventsOf lib (chunks.take k).flatten =
          (eventsOf lib chunks.flatten).take N := by
        rcases List.prefix_or_prefix_of_prefix hprefix (List.take_prefix N _) with hp | hp
        · exact hp.eq_of_length h
        · exact (hp.eq_of_length h.symm).symm
      rw [← hsame]
      exact hst.printed
  rw [hout, hprinted]
  refine stops_at_limit_iff hk ?_ (fun i hi => congrArg List.length (hall i hi)) hstop hbefore
  exact fun i j hij => (eventsOf_take_mono lib chunks hij).length_le

/-! ## Two events, cut between them and in one chunk -/

def envelopeText : Str := str "\x7b\"event\":" ++ catText ++ str "\x7d"

theorem envelope_dump : JsonText.textLib.dump (eventEnvelope { pid := 1, comm := str "cat" }) =
    .ok envelopeText := by
  decide +kernel

/-- The acknowledgement and two events. -/
def countLines : List Str := [streamAckText, envelopeText, envelopeText]

theorem countLines_stream : ∀ line ∈ (lines (countLines.map (· ++ [newline])).flatten).1,
    StreamLine JsonText.textLib line := by
  have hlines := (lines_texts_iff countLines).mpr (by decide +kernel)
  have hack : StreamLine JsonText.textLib streamAckText :=
    .acknowledgement
      (JsonText.textLib_documented.parse_exact streamReply_exact streamReply_dump)
      (by decide +kernel) (streamReply_ok JsonText.textLib_documented)
  have hevent : StreamLine JsonText.textLib envelopeText :=
    (streamLine_envelope JsonText.textLib_documented ⟨rfl, rfl, rfl⟩ envelope_dump).1
  rw [hlines]
  simp only [countLines, List.forall_mem_cons]
  exact ⟨hack, hevent, hevent, List.forall_mem_nil _⟩

theorem events_count_sample :
    ∃ st, runEvents JsonText.textLib { eventCount := 1 } (.ok
        [streamAckText ++ [newline] ++ envelopeText ++ [newline], envelopeText ++ [newline]]) =
      .ok (st, 0) ∧
      Printed JsonText.textLib { eventCount := 1 }
        ((eventsOf JsonText.textLib [streamAckText ++ [newline] ++ envelopeText ++ [newline],
          envelopeText ++ [newline]].flatten).take 1) st := by
  refine (events_count_iff JsonText.textLib JsonText.textLib_documented { eventCount := 1 } 1 rfl
    [streamAckText ++ [newline] ++ envelopeText ++ [newline], envelopeText ++ [newline]]
    (by decide +kernel) ?_).mpr (.inr ⟨1, by decide +kernel⟩)
  have hsame : [streamAckText ++ [newline] ++ envelopeText ++ [newline],
      envelopeText ++ [newline]].flatten = (countLines.map (· ++ [newline])).flatten := by
    simp [countLines]
  rw [hsame]
  exact countLines_stream

/-- With both events in one chunk, `--count 1` prints both. -/
theorem count_overshoots : ¬ ∀ (lib : JsonLib), lib.Documented → ∀ (args : CliArgs) (N : Nat),
    args.eventCount.toInt = N → ∀ chunks : List Str,
      (∀ chunk ∈ chunks, chunk ≠ [] ∧ chunk.length ≤ 4096) →
      (∀ line ∈ (lines chunks.flatten).1, StreamLine lib line) →
      ∃ st, runEvents lib args (.ok chunks) = .ok (st, 0) ∧
        Printed lib args ((eventsOf lib chunks.flatten).take N) st := by
  intro h
  have hflatten : [(countLines.map (· ++ [newline])).flatten].flatten =
      (countLines.map (· ++ [newline])).flatten := List.flatten_singleton
  obtain ⟨st, hrun, hprinted⟩ := h JsonText.textLib JsonText.textLib_documented
    { eventCount := 1 } 1 rfl [(countLines.map (· ++ [newline])).flatten] (by decide +kernel)
    (by rw [hflatten]; exact countLines_stream)
  have hne : (countLines.map (· ++ [newline])).flatten ≠ [] := by decide +kernel
  obtain ⟨st', p, hrun', hst⟩ := receive_one_chunk JsonText.textLib_documented
    (show ({ eventCount := 1 } : CliArgs).eventCount.toInt = (1 : Nat) from rfl)
    Nat.zero_lt_one hne countLines_stream
  simp only [runEvents, hrun', Except.map, Except.ok.injEq, Prod.mk.injEq, and_true] at hrun
  rw [← hrun, hflatten] at hprinted
  have hsame := hprinted.eq_of_sublist hst.printed (List.take_sublist 1 _)
  exact absurd (congrArg List.length hsame) (by decide +kernel)

end FileGuard
