import FileGuard.Core.JsonPrefix
import FileGuard.Core.Liveness
import FileGuard.Core.PrefixCode
import FileGuard.L4Controller.StreamClient

/-!
# The event feed, byte by byte

The writer thread of a stream client with the loop of `write_all` in it
(`src/daemon.cpp`): the kernel takes any number of bytes a call, a call may
fail between any two, and pushes and `shutdown` come in between.

The feed has no newline and no length between two events.

* `eventTexts_prefixCode`: the texts of events are a prefix code all the same.
* `wire_decodes`: what is on the wire is the texts of the first accepted events
  and a part of the next, and nothing else reads so.
* `shutdown_joins`: the thread of a client that has been shut down comes to its
  end.
-/
namespace FileGuard

open PrefixCode

/-- A client, the text that `write_all` is sending with the number of bytes that
have gone, and the bytes on the wire. -/
structure WireClient where
  client : StreamClient := {}
  current : Option (Str × Nat) := none
  wire : Str := []
  deriving DecidableEq, Repr

inductive WireLabel
  | push (e : SecurityEvent)
  | shutdown
  | writer
  | send (n : Nat)
  | sendFails

/-- The writer thread between two calls of `send`; `none` while it waits for a
text or has bytes left to send.
mirrors src/daemon.cpp:90-100 -/
def WireClient.writerStep (w : WireClient) : Option WireClient :=
  match w.current with
  | some (text, off) =>
    if off < text.length then none
    else some { w with
      current := none
      client := { w.client with sent := w.client.sent ++ [text], writer := .check } }
  | none =>
    match w.client.writer with
    | .check => some { w with
        client := { w.client with writer := if w.client.closed then .exited else .pop } }
    | .pop =>
      match w.client.queue with
      | text :: queue =>
        some { w with client := { w.client with queue := queue }, current := some (text, 0) }
      | [] =>
        if w.client.stop then
          some { w with client := { w.client with closed := true, writer := .exited } }
        else none
    | .exited => none

/-- mirrors src/daemon.cpp:47-58, 74-100 -/
def wireStep (lib : JsonLib) (w : WireClient) : WireLabel → Option WireClient
  | .push e =>
    match w.client.push lib e with
    | .ok client => some { w with client := client }
    | .error _ => none
  | .shutdown => some { w with client := w.client.shutdown }
  | .writer => w.writerStep
  | .send n =>
    match w.current with
    | some (text, off) =>
      if 0 < n ∧ off + n ≤ text.length then
        some { w with current := some (text, off + n), wire := w.wire ++ (text.drop off).take n }
      else none
    | none => none
  | .sendFails =>
    match w.current with
    | some _ => some { w with
        current := none
        client := { w.client with closed := true, writer := .exited } }
    | none => none

/-- Any interleaving of pushes, `shutdown` and the calls of the writer thread. -/
def wireSystem (lib : JsonLib) : LTS WireClient WireLabel :=
  .ofFn (fun w => w = {}) (wireStep lib)

/-! ## The code of the events -/

/-- The text of an event. -/
def EventText (lib : JsonLib) (text : Str) : Prop := ∃ e, jsonOf lib e = .ok text

theorem eventTexts_prefixCode {lib : JsonLib} (hlib : lib.Documented) (hfree : lib.PrefixFree) :
    PrefixCode (EventText lib) where
  nonempty := by
    intro text h hnil
    obtain ⟨e, he⟩ := h
    obtain ⟨j, hj, -⟩ := hlib.parse_dump _ _ he
    rw [hnil] at hj
    exact hlib.parse_empty j hj
  free := by
    intro u v hu hv hpre
    obtain ⟨e, he⟩ := hu
    obtain ⟨e', he'⟩ := hv
    by_contra hne
    obtain ⟨x, hx, -⟩ := hfree _ v u he' hpre hne
    obtain ⟨j, hj, -⟩ := hlib.parse_dump _ _ he
    rw [hj] at hx
    cases hx

/-! ## What is on the wire -/

variable {lib : JsonLib}

/-- The accepted events' texts are those sent and those still to be sent; of the
next one a part is on the wire. -/
structure WireClient.Synced (lib : JsonLib) (w : WireClient) (rest : List Str) (part : Str) :
    Prop where
  texts : w.client.accepted.mapM (jsonOf lib) = .ok (w.client.sent ++ rest)
  wire : w.wire = w.client.sent.flatten ++ part
  started : part = [] ∨ ∃ text ∈ rest.head?, part <+: text
  idle : w.current = none → w.client.writer ≠ .exited → rest = w.client.queue ∧ part = []
  sending : ∀ text off, w.current = some (text, off) → w.client.writer = .pop ∧
    rest = text :: w.client.queue ∧ part = text.take off ∧ off ≤ text.length

section Steps

variable {w w' : WireClient} {rest : List Str} {part : Str}

theorem WireClient.Synced.push {e : SecurityEvent} {c : StreamClient}
    (hs : w.Synced lib rest part) (h : w.client.push lib e = .ok c) :
    ∃ rest, WireClient.Synced lib { w with client := c } rest part := by
  unfold StreamClient.push at h
  split at h
  · cases h; exact ⟨rest, hs⟩
  split at h
  · cases h
  rename_i text htext
  split at h
  · cases h; exact ⟨rest, ⟨hs.texts, hs.wire, hs.started, hs.idle, hs.sending⟩⟩
  · cases h
    refine ⟨rest ++ [text], ⟨?_, hs.wire, ?_, fun hc hw => ?_, fun t off hc => ?_⟩⟩
    · rw [Traverse.mapM_concat_ok hs.texts htext, List.append_assoc]
    · refine hs.started.imp_right fun ⟨t, ht, hpre⟩ => ⟨t, ?_, hpre⟩
      rw [List.head?_append, Option.mem_def.mp ht]
      rfl
    · exact ⟨congrArg (· ++ [text]) (hs.idle hc hw).1, (hs.idle hc hw).2⟩
    · obtain ⟨hpop, hrest, hpart, hoff⟩ := hs.sending t off hc
      exact ⟨hpop, by rw [hrest]; rfl, hpart, hoff⟩

/-- The writer thread is over. -/
theorem WireClient.Synced.exit (hs : w.Synced lib rest part) :
    WireClient.Synced lib { w with
      current := none
      client := { w.client with closed := true, writer := .exited } } rest part :=
  ⟨hs.texts, hs.wire, hs.started, fun _ hw => absurd rfl hw, (fun _ _ hc => by cases hc)⟩

theorem WireClient.Synced.writer (hs : w.Synced lib rest part) (h : w.writerStep = some w') :
    ∃ rest part, w'.Synced lib rest part := by
  unfold WireClient.writerStep at h
  split at h
  · rename_i text off hc
    split at h
    · cases h
    rename_i hend
    cases h
    obtain ⟨-, hrest, hpart, hoff⟩ := hs.sending text off hc
    have hwhole : part = text := by rw [hpart, List.take_of_length_le (Nat.not_lt.mp hend)]
    refine ⟨w.client.queue, [], ?_, ?_, .inl rfl, fun _ _ => ⟨rfl, rfl⟩, ?_⟩
    · rw [hs.texts, hrest, List.append_assoc]
      rfl
    · show w.wire = (w.client.sent ++ [text]).flatten ++ []
      rw [hs.wire, hwhole, List.flatten_append, List.flatten_singleton, List.append_nil]
    · intro _ _ hc
      cases hc
  · rename_i hc
    split at h
    · rename_i hw
      cases h
      have hidle := hs.idle hc (by rw [hw]; simp)
      exact ⟨rest, part, hs.texts, hs.wire, hs.started, fun _ _ => hidle, fun _ _ h => by
        rw [hc] at h; cases h⟩
    · rename_i hw
      obtain ⟨hrest, hpart⟩ := hs.idle hc (by rw [hw]; simp)
      split at h
      · rename_i text queue hqueue
        cases h
        rw [hqueue] at hrest
        refine ⟨rest, part, hs.texts, hs.wire, hs.started, (fun h _ => by cases h),
          fun t off ht => ?_⟩
        cases ht
        exact ⟨hw, hrest, hpart, Nat.zero_le _⟩
      · split at h
        · cases h
          refine ⟨rest, part, hs.texts, hs.wire, hs.started, fun _ h => absurd rfl h,
            fun _ _ h => ?_⟩
          rw [hc] at h; cases h
        · cases h
    · cases h

theorem WireClient.Synced.send {text : Str} {off n : Nat} (hs : w.Synced lib rest part)
    (hc : w.current = some (text, off)) (hn : off + n ≤ text.length) :
    WireClient.Synced lib { w with
      current := some (text, off + n), wire := w.wire ++ (text.drop off).take n } rest
      (text.take (off + n)) := by
  obtain ⟨hpop, hrest, hpart, -⟩ := hs.sending text off hc
  refine ⟨hs.texts, ?_, .inr ⟨text, by rw [hrest]; rfl, List.take_prefix _ _⟩,
    (fun h => by cases h), fun t o h => ?_⟩
  · show w.wire ++ _ = _
    rw [hs.wire, hpart, List.append_assoc, List.take_add]
  · cases h
    exact ⟨hpop, hrest, rfl, hn⟩

end Steps

theorem wire_synced (w : WireClient) (h : (wireSystem lib).Reachable w) :
    ∃ rest part, w.Synced lib rest part := by
  refine LTS.Inductive.reachable (I := fun w => ∃ rest part, w.Synced lib rest part) ⟨?_, ?_⟩ w h
  · intro w hw
    cases hw
    exact ⟨[], [], rfl, rfl, .inl rfl, fun _ _ => ⟨rfl, rfl⟩, fun _ _ h => by cases h⟩
  · intro w l w' hi hstep
    obtain ⟨rest, part, hs⟩ := hi
    have hstep : wireStep lib w l = some w' := hstep
    cases l with
    | push e =>
      simp only [wireStep] at hstep
      split at hstep <;> cases hstep
      rename_i c hc
      obtain ⟨rest, hs⟩ := hs.push hc
      exact ⟨rest, part, hs⟩
    | shutdown =>
      cases hstep
      exact ⟨rest, part, hs.texts, hs.wire, hs.started, hs.idle, hs.sending⟩
    | writer => exact hs.writer hstep
    | send n =>
      simp only [wireStep] at hstep
      split at hstep
      · rename_i text off hc
        split at hstep <;> cases hstep
        rename_i hn
        exact ⟨rest, _, hs.send hc hn.2⟩
      · cases hstep
    | sendFails =>
      simp only [wireStep] at hstep
      split at hstep <;> cases hstep
      exact ⟨rest, part, hs.exit⟩

theorem eventTexts_of_mapM {es : List SecurityEvent} {ts : List Str}
    (h : es.mapM (jsonOf lib) = .ok ts) : ∀ t ∈ ts, EventText lib t := by
  intro t ht
  obtain ⟨e, -, he⟩ := Traverse.mapM_ok_mem h t ht
  exact ⟨e, he⟩

theorem part_nil (hlib : lib.Documented) (hfree : lib.PrefixFree) : Part (EventText lib) [] := by
  obtain ⟨text, ht⟩ := hlib.dump_utf8 (jsonOfObject {}) (by decide)
  have hword : EventText lib text := ⟨{}, ht⟩
  exact ⟨text, hword, List.nil_prefix,
    ((eventTexts_prefixCode hlib hfree).nonempty text hword).symm⟩

/-- **The wire.** However the bytes are cut and wherever a send fails, what has gone
over the socket is the texts of the first accepted events, in order, and a proper
part of the next one's; and it is so in one way only, for all that nothing stands
between two events. -/
theorem wire_decodes (lib : JsonLib) (hlib : lib.Documented) (hfree : lib.PrefixFree)
    (w : WireClient) (h : (wireSystem lib).Reachable w) :
    ∃ ts n part, w.client.accepted.mapM (jsonOf lib) = .ok ts ∧ n ≤ ts.length ∧
      w.wire = (ts.take n).flatten ++ part ∧
      (part = [] ∨ ∃ text, ts[n]? = some text ∧ part <+: text ∧ part ≠ text) ∧
      ∀ (es : List SecurityEvent) (ts' : List Str) (part' : Str), es.mapM (jsonOf lib) = .ok ts' →
        Part (EventText lib) part' → w.wire = ts'.flatten ++ part' →
          ts' = ts.take n ∧ part' = part := by
  obtain ⟨rest, part, hs⟩ := wire_synced w h
  have hcode := eventTexts_prefixCode hlib hfree
  have hwords := eventTexts_of_mapM hs.texts
  -- whatever `n` and `part` are, they are the only ones
  have honly : ∀ n part, w.wire = ((w.client.sent ++ rest).take n).flatten ++ part →
      Part (EventText lib) part → ∀ (es : List SecurityEvent) (ts' : List Str) (part' : Str),
        es.mapM (jsonOf lib) = .ok ts' → Part (EventText lib) part' →
        w.wire = ts'.flatten ++ part' → ts' = (w.client.sent ++ rest).take n ∧ part' = part := by
    intro n part hwire hpart es ts' part' hes hpart' hwire'
    exact hcode.unique (eventTexts_of_mapM hes) (fun t ht => hwords t (List.mem_of_mem_take ht))
      hpart' hpart (hwire'.symm.trans hwire)
  have hsent : (w.client.sent ++ rest).take w.client.sent.length = w.client.sent := List.take_left
  rcases hs.started with rfl | ⟨text, htext, hpre⟩
  · have hwire : w.wire = ((w.client.sent ++ rest).take w.client.sent.length).flatten ++ [] := by
      rw [hsent]
      exact hs.wire
    exact ⟨_, w.client.sent.length, [], hs.texts, by simp, hwire, .inl rfl,
      honly _ _ hwire (part_nil hlib hfree)⟩
  · obtain ⟨rest, rfl⟩ : ∃ tail, rest = text :: tail := by
      cases rest with
      | nil => cases htext
      | cons t tail => cases htext; exact ⟨tail, rfl⟩
    by_cases hwhole : part = text
    · -- the text has gone, and its `write_all` has not returned
      subst hwhole
      have hwire : w.wire =
          ((w.client.sent ++ part :: rest).take (w.client.sent.length + 1)).flatten ++ [] := by
        rw [List.take_length_add_append, List.take_succ_cons, List.take_zero, List.flatten_append,
          List.flatten_singleton, List.append_nil]
        exact hs.wire
      exact ⟨_, w.client.sent.length + 1, [], hs.texts, by simp, hwire, .inl rfl,
        honly _ _ hwire (part_nil hlib hfree)⟩
    · have hwire : w.wire =
          ((w.client.sent ++ text :: rest).take w.client.sent.length).flatten ++ part := by
        rw [hsent]
        exact hs.wire
      have hword : EventText lib text := hwords text (by simp)
      exact ⟨_, w.client.sent.length, part, hs.texts, by simp, hwire,
        .inr ⟨text, by simp, hpre, hwhole⟩, honly _ _ hwire ⟨text, hword, hpre, hwhole⟩⟩

/-- Two events, the first sent in two parts; then the connection breaks. -/
def brokenFeed : List WireLabel := [
  .push { comm := str "cat" }, .writer, .writer, .send 100, .push { comm := str "dog" },
  .send 60, .writer, .writer, .writer, .send 9, .sendFails]

theorem wire_decodes_sample : ∃ w : WireClient, (w.client.sent.length, w.wire.length) = (1, 169) ∧
    ∃ ts n part, w.client.accepted.mapM (jsonOf JsonText.textLib) = .ok ts ∧ n ≤ ts.length ∧
      w.wire = (ts.take n).flatten ++ part ∧
      (part = [] ∨ ∃ text, ts[n]? = some text ∧ part <+: text ∧ part ≠ text) ∧
      ∀ (es : List SecurityEvent) (ts' : List Str) (part' : Str),
        es.mapM (jsonOf JsonText.textLib) = .ok ts' → Part (EventText JsonText.textLib) part' →
        w.wire = ts'.flatten ++ part' → ts' = ts.take n ∧ part' = part := by
  have hex : ((LTS.exec (wireStep JsonText.textLib) {} brokenFeed).map fun w =>
      (w.client.sent.length, w.wire.length)) = some (1, 169) := by
    decide +kernel
  obtain ⟨w, hw, hends⟩ := Option.map_eq_some_iff.mp hex
  exact ⟨w, hends, wire_decodes JsonText.textLib JsonText.textLib_documented
    JsonText.textLib_prefixFree w ⟨_, _, rfl, LTS.run_of_exec _ hw⟩⟩

/-! ## The end of the writer thread -/

section Shutdown

variable {w w' : WireClient} {l : WireLabel}

/-- A step of the writer thread. -/
def WireLabel.Thread : WireLabel → Prop
  | .writer | .send _ | .sendFails => True
  | _ => False

/-- How many texts the writer of a closed client can still finish. -/
def WireClient.unfinished (w : WireClient) : Nat :=
  if w.current.isSome || w.client.writer = .pop then 1 else 0

/-- Where the writer of a closed client stands, and the bytes it has to send. -/
def WireClient.rank (w : WireClient) : Nat ×ₗ Nat :=
  match w.current with
  | some (text, off) => toLex (2, text.length - off)
  | none =>
    match w.client.writer with
    | .exited => toLex (0, 0)
    | .check => toLex (1, 0)
    | .pop => toLex (3, 0)

/-- A step of a closed client. -/
structure WireClient.Winds (w : WireClient) (l : WireLabel) (w' : WireClient) : Prop where
  closed : w'.client.closed = true
  stop : w.client.stop = true → w'.client.stop = true
  sent : w'.client.sent.length + w'.unfinished ≤ w.client.sent.length + w.unfinished
  le : w'.rank ≤ w.rank
  lt : l.Thread → w'.rank < w.rank

/-- A step of its thread. -/
theorem WireClient.Winds.of_lt (hc : w'.client.closed = true)
    (hs : w'.client.stop = w.client.stop)
    (hsent : w'.client.sent.length + w'.unfinished ≤ w.client.sent.length + w.unfinished)
    (hlt : w'.rank < w.rank) : w.Winds l w' :=
  ⟨hc, fun h => hs.trans h, hsent, hlt.le, fun _ => hlt⟩

theorem wireStep_winds (hc : w.client.closed = true) (h : wireStep lib w l = some w') :
    w.Winds l w' := by
  cases l with
  | push e =>
    simp only [wireStep, StreamClient.push, hc, if_true] at h
    cases h
    exact ⟨hc, id, Nat.le_refl _, le_rfl, fun hl => hl.elim⟩
  | shutdown =>
    cases h
    exact ⟨rfl, fun _ => rfl, Nat.le_refl _, le_rfl, fun hl => hl.elim⟩
  | send n =>
    simp only [wireStep] at h
    split at h
    · rename_i text off hcur
      split at h <;> cases h
      rename_i hn
      refine .of_lt hc rfl (by simp [WireClient.unfinished, hcur]) ?_
      simp only [WireClient.rank, hcur]
      exact Prod.Lex.toLex_lt_toLex.mpr (.inr ⟨rfl, by omega⟩)
    · cases h
  | sendFails =>
    simp only [wireStep] at h
    split at h <;> cases h
    rename_i x hcur
    refine .of_lt rfl rfl (by simp [WireClient.unfinished]) ?_
    simp only [WireClient.rank, hcur]
    exact Prod.Lex.toLex_lt_toLex.mpr (.inl (Nat.zero_lt_succ _))
  | writer =>
    simp only [wireStep, WireClient.writerStep] at h
    split at h
    · rename_i text off hcur
      split at h <;> cases h
      refine .of_lt hc rfl (by simp [WireClient.unfinished, hcur]) ?_
      simp only [WireClient.rank, hcur]
      exact Prod.Lex.toLex_lt_toLex.mpr (.inl (by omega))
    · rename_i hcur
      split at h
      · rename_i hw
        cases h
        refine .of_lt hc rfl (by simp [WireClient.unfinished, hcur, hc]) ?_
        simp only [WireClient.rank, hcur, hw, hc, if_true]
        exact Prod.Lex.toLex_lt_toLex.mpr (.inl Nat.zero_lt_one)
      · rename_i hw
        split at h
        · cases h
          refine .of_lt hc rfl (by simp [WireClient.unfinished, hw]) ?_
          simp only [WireClient.rank, hcur, hw]
          exact Prod.Lex.toLex_lt_toLex.mpr (.inl (by omega))
        · split at h <;> cases h
          refine .of_lt rfl rfl (by simp [WireClient.unfinished, hcur]) ?_
          simp only [WireClient.rank, hcur, hw]
          exact Prod.Lex.toLex_lt_toLex.mpr (.inl (by omega))
      · cases h

/-- What a run of a closed client can still do. -/
theorem wire_run_winds {ls : List WireLabel} (h : (wireSystem lib).Run w ls w')
    (hc : w.client.closed = true) : w'.client.closed = true ∧
      (w.client.stop = true → w'.client.stop = true) ∧
      w'.client.sent.length + w'.unfinished ≤ w.client.sent.length + w.unfinished := by
  induction h with
  | nil => exact ⟨hc, id, Nat.le_refl _⟩
  | cons h1 _ ih =>
    have hw := wireStep_winds hc h1
    obtain ⟨hc', hs', hsent'⟩ := ih hw.closed
    exact ⟨hc', fun h => hs' (hw.stop h), Nat.le_trans hsent' hw.sent⟩

/-- The thread of a stopped client never waits. -/
theorem wire_enabled (lib : JsonLib) (hs : w.client.stop = true) :
    w.client.writer = .exited ∨ ∃ l : WireLabel, l.Thread ∧ (wireStep lib w l).isSome = true := by
  cases hcur : w.current with
  | some x =>
    obtain ⟨text, off⟩ := x
    refine .inr ?_
    by_cases hoff : off < text.length
    · refine ⟨.send 1, trivial, ?_⟩
      have hn : off + 1 ≤ text.length := hoff
      simp [wireStep, hcur, hn]
    · refine ⟨.writer, trivial, ?_⟩
      simp [wireStep, WireClient.writerStep, hcur, hoff]
  | none =>
    cases hw : w.client.writer with
    | exited => exact .inl rfl
    | check => exact .inr ⟨.writer, trivial, by simp [wireStep, WireClient.writerStep, hcur, hw]⟩
    | pop =>
      refine .inr ⟨.writer, trivial, ?_⟩
      cases hq : w.client.queue with
      | nil => simp [wireStep, WireClient.writerStep, hcur, hw, hq, hs]
      | cons text queue => simp [wireStep, WireClient.writerStep, hcur, hw, hq]

end Shutdown

/-- **Shutdown.** After `shutdown` the writer thread finishes one text more at most,
takes finitely many steps, and can always take one until it has exited: the join in
the destructor returns, as long as every call of `send` does. -/
theorem shutdown_joins (lib : JsonLib) (w : WireClient) (hc : w.client.closed = true)
    (hs : w.client.stop = true) :
    (∀ ls w', (wireSystem lib).Run w ls w' →
      w'.client.sent.length ≤ w.client.sent.length + 1 ∧
        (w'.client.writer = .exited ∨
          ∃ l : WireLabel, l.Thread ∧ (wireStep lib w' l).isSome = true)) ∧
    ∀ (f : Nat → WireClient) (ls : Nat → WireLabel), f 0 = w →
      (∀ i, wireStep lib (f i) (ls i) = some (f (i + 1))) → ∃ n, ∀ i ≥ n, ¬ (ls i).Thread := by
  refine ⟨fun ls w' hrun => ?_, fun f ls h0 hf => ?_⟩
  · obtain ⟨-, hstop, hsent⟩ := wire_run_winds hrun hc
    refine ⟨?_, wire_enabled lib (hstop hs)⟩
    have hone : w.unfinished ≤ 1 := by
      unfold WireClient.unfinished
      split <;> omega
    omega
  · -- the runs from here
    let M : LTS WireClient WireLabel := .ofFn (fun v => v = w) (wireStep lib)
    have hclosed : ∀ v, M.Reachable v → v.client.closed = true := by
      rintro v ⟨u, l, hu, hrun⟩
      have hu : u = w := hu
      have hrun : (wireSystem lib).Run w l v := hu ▸ hrun.mono fun _ _ _ _ h => h
      exact (wire_run_winds hrun hc).1
    have hranks : M.Ranks WireLabel.Thread WireClient.rank :=
      ⟨fun v l v' hv h => (wireStep_winds (hclosed v hv) h).le,
        fun v l v' hv h => (wireStep_winds (hclosed v hv) h).lt⟩
    exact LTS.Forever.eventually_not hranks ⟨h0, hf⟩

/-- A client shut down while its first text is being sent. -/
def windingClient : WireClient where
  client := { closed := true, stop := true, queue := [str "two"], writer := .pop }
  current := some (str "one", 1)

theorem shutdown_joins_sample :
    (∀ ls w', (wireSystem JsonText.textLib).Run windingClient ls w' →
      w'.client.sent.length ≤ windingClient.client.sent.length + 1 ∧
        (w'.client.writer = .exited ∨
          ∃ l : WireLabel, l.Thread ∧ (wireStep JsonText.textLib w' l).isSome = true)) ∧
    ∀ (f : Nat → WireClient) (ls : Nat → WireLabel), f 0 = windingClient →
      (∀ i, wireStep JsonText.textLib (f i) (ls i) = some (f (i + 1))) →
        ∃ n, ∀ i ≥ n, ¬ (ls i).Thread :=
  shutdown_joins JsonText.textLib windingClient rfl rfl

end FileGuard
