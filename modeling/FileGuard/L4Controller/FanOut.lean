import FileGuard.L4Controller.Consumer

/-!
# Fan-out to sinks and stream clients

What `consumer_loop` (`src/controller.cpp:240-257`) does for one client does not
depend on the others: taking every other client out of a run leaves a run.

* `solo_run`: the steps of a run that do not concern other clients only are a run
  of the pipeline with client `id` alone.
* `accounted_step`: what is offered to an open client is accepted or counted.
* `fan_out`: every event goes to every sink once, and what a client is offered
  and accepts is the same in two runs that differ in the others only.
-/
namespace FileGuard

deriving instance DecidableEq for ThreadLabel
deriving instance DecidableEq for PipelineLabel

/-- The entries of client `id`. -/
def onlyClient (id : Nat) (l : List Subscriber) : List Subscriber := l.filter fun c => c.id = id

/-- The loop's place when it goes over the entries of `id` only. About to push
into another client it is on its way to the next. -/
def Pipeline.soloPc (id : Nat) (s : Pipeline) : ConsumerPc :=
  match s.pc with
  | .clients e i => .clients e (onlyClient id (s.clients.take i)).length
  | .push e i =>
    if s.clients[i]?.any (fun c => c.id ≠ id) then
      .clients e (onlyClient id (s.clients.take i)).length
    else .push e (onlyClient id (s.clients.take i)).length
  | pc => pc

/-- The pipeline without the clients other than `id`. -/
def Pipeline.solo (id : Nat) (s : Pipeline) : Pipeline :=
  { s with clients := onlyClient id s.clients, pc := s.soloPc id }

/-- The step concerns only clients other than `id`. -/
def Pipeline.concernsOthers (id : Nat) (s : Pipeline) : PipelineLabel → Bool
  | .consumer =>
    match s.pc with
    | .clients _ i | .push _ i => s.clients[i]?.any fun c => c.id ≠ id
    | _ => false
  | .thread l =>
    match l with
    | .addClient j | .removeClient j | .shutdownClient j | .clientWriter j _ => j ≠ id
    | .record _ | .ringPush | .swapResolver _ | .requestStop => false

/-- The labels of a run without those of steps that concern other clients only. -/
def concerning (lib : JsonLib) (clock : Clock) (id : Nat) :
    Pipeline → List PipelineLabel → List PipelineLabel :=
  LTS.shown (pipelineStep lib clock) (Pipeline.concernsOthers id)

/-- The same pipeline with the loop elsewhere. -/
def Pipeline.moved (s : Pipeline) (clients : List Subscriber) (pc : ConsumerPc) : Pipeline :=
  { s with clients := clients, pc := pc }

theorem onlyClient_append (id : Nat) (l l' : List Subscriber) :
    onlyClient id (l ++ l') = onlyClient id l ++ onlyClient id l' := List.filter_append ..

section Loop

variable {lib : JsonLib} {clock : Clock} {s s' : Pipeline} {e : SecurityEvent} {id : Nat}
  {l₁ l₂ : List Subscriber} {c : Subscriber}

theorem onlyClient_cons (h : c.id = id) (l : List Subscriber) :
    onlyClient id (c :: l) = c :: onlyClient id l := List.filter_cons_of_pos (by simpa using h)

theorem onlyClient_cons_other (h : c.id ≠ id) (l : List Subscriber) :
    onlyClient id (c :: l) = onlyClient id l := List.filter_cons_of_neg (by simpa using h)

/-! ## The loop at one client -/

theorem consumerStep_look : consumerStep lib (s.moved (l₁ ++ c :: l₂) (.clients e l₁.length)) =
    some (if c.client.closed then s.moved (l₁ ++ l₂) (.clients e l₁.length)
      else s.moved (l₁ ++ c :: l₂) (.push e l₁.length)) := by
  have hi : (l₁ ++ c :: l₂)[l₁.length]? = some c := by simp
  have he : (l₁ ++ c :: l₂).eraseIdx l₁.length = l₁ ++ l₂ := by
    simp [List.eraseIdx_append_of_length_le]
  simp only [consumerStep, Pipeline.moved, hi, he]
  split <;> rfl

theorem consumerStep_push : consumerStep lib (s.moved (l₁ ++ c :: l₂) (.push e l₁.length)) =
    some (match c.client.push lib e with
      | .ok client => s.moved
          (l₁ ++ { c with client := client, offered := c.offered ++ [e] } :: l₂)
          (.clients e (l₁.length + 1))
      | .error x => s.moved (l₁ ++ c :: l₂) (.terminated x)) := by
  have hi : (l₁ ++ c :: l₂)[l₁.length]? = some c := by simp
  have hset : ∀ d, (l₁ ++ c :: l₂).set l₁.length d = l₁ ++ d :: l₂ := by simp
  simp only [consumerStep, Pipeline.moved, hi, hset]
  cases c.client.push lib e <;> rfl

/-! ## The loop and the client alone -/

theorem soloPc_clients {i : Nat} (h : s.pc = .clients e i) :
    s.soloPc id = .clients e (onlyClient id (s.clients.take i)).length := by
  simp only [Pipeline.soloPc, h]

/-- Between two clients. -/
theorem solo_between : (s.moved (l₁ ++ l₂) (.clients e l₁.length)).solo id =
    s.moved (onlyClient id l₁ ++ onlyClient id l₂) (.clients e (onlyClient id l₁).length) := by
  simp only [Pipeline.solo, Pipeline.soloPc, Pipeline.moved, List.take_left, onlyClient_append]

/-- About to push into the client. -/
theorem solo_at_own (hc : c.id = id) : (s.moved (l₁ ++ c :: l₂) (.push e l₁.length)).solo id =
    s.moved (onlyClient id l₁ ++ c :: onlyClient id l₂) (.push e (onlyClient id l₁).length) := by
  simp [Pipeline.solo, Pipeline.soloPc, Pipeline.moved, hc, onlyClient_append, onlyClient_cons]

/-- About to push into another client. -/
theorem solo_at_other (hc : c.id ≠ id) :
    (s.moved (l₁ ++ c :: l₂) (.push e l₁.length)).solo id =
      s.moved (onlyClient id l₁ ++ onlyClient id l₂) (.clients e (onlyClient id l₁).length) := by
  simp [Pipeline.solo, Pipeline.soloPc, Pipeline.moved, hc, onlyClient_append,
    onlyClient_cons_other]

theorem solo_after_own (hc : c.id = id) :
    (s.moved (l₁ ++ c :: l₂) (.clients e (l₁.length + 1))).solo id =
      s.moved (onlyClient id l₁ ++ c :: onlyClient id l₂)
        (.clients e ((onlyClient id l₁).length + 1)) := by
  have hl : l₁ ++ c :: l₂ = (l₁ ++ [c]) ++ l₂ := by simp
  have hlen : l₁.length + 1 = (l₁ ++ [c]).length := by simp
  rw [hl, hlen, solo_between, onlyClient_append, onlyClient_cons hc]
  simp [onlyClient]

theorem solo_after_other (hc : c.id ≠ id) :
    (s.moved (l₁ ++ c :: l₂) (.clients e (l₁.length + 1))).solo id =
      s.moved (onlyClient id l₁ ++ onlyClient id l₂) (.clients e (onlyClient id l₁).length) := by
  have hl : l₁ ++ c :: l₂ = (l₁ ++ [c]) ++ l₂ := by simp
  have hlen : l₁.length + 1 = (l₁ ++ [c]).length := by simp
  rw [hl, hlen, solo_between, onlyClient_append, onlyClient_cons_other hc]
  simp [onlyClient]

theorem solo_look_other (hc : c.id ≠ id)
    (h : consumerStep lib (s.moved (l₁ ++ c :: l₂) (.clients e l₁.length)) = some s') :
    s'.solo id = (s.moved (l₁ ++ c :: l₂) (.clients e l₁.length)).solo id := by
  rw [consumerStep_look] at h
  cases h
  rw [solo_between, onlyClient_cons_other hc]
  split
  · exact solo_between
  · exact solo_at_other hc

theorem solo_look_own (hc : c.id = id)
    (h : consumerStep lib (s.moved (l₁ ++ c :: l₂) (.clients e l₁.length)) = some s') :
    consumerStep lib ((s.moved (l₁ ++ c :: l₂) (.clients e l₁.length)).solo id) =
      some (s'.solo id) := by
  rw [consumerStep_look] at h
  cases h
  rw [solo_between, onlyClient_cons hc, consumerStep_look]
  split
  · rw [solo_between]
  · rw [solo_at_own hc]

theorem solo_push_other (hc : c.id ≠ id)
    (h : consumerStep lib (s.moved (l₁ ++ c :: l₂) (.push e l₁.length)) = some s')
    (halive : s'.pc.isTerminated = false) :
    s'.solo id = (s.moved (l₁ ++ c :: l₂) (.push e l₁.length)).solo id := by
  rw [consumerStep_push] at h
  cases hp : c.client.push lib e with
  | error x =>
    rw [hp] at h
    cases h
    cases halive
  | ok client =>
    rw [hp] at h
    cases h
    rw [solo_at_other hc]
    exact solo_after_other hc

theorem solo_push_own (hc : c.id = id)
    (h : consumerStep lib (s.moved (l₁ ++ c :: l₂) (.push e l₁.length)) = some s')
    (halive : s'.pc.isTerminated = false) :
    consumerStep lib ((s.moved (l₁ ++ c :: l₂) (.push e l₁.length)).solo id) =
      some (s'.solo id) := by
  rw [consumerStep_push] at h
  rw [solo_at_own hc, consumerStep_push]
  cases hp : c.client.push lib e with
  | error x =>
    rw [hp] at h
    cases h
    cases halive
  | ok client =>
    rw [hp] at h
    cases h
    refine congrArg some (Eq.symm ?_)
    exact solo_after_own hc

/-- A list split at its entry `i`. -/
theorem split_at {α : Type} {l : List α} {i : Nat} {a : α} (h : l[i]? = some a) :
    ∃ l₁ l₂, l = l₁ ++ a :: l₂ ∧ i = l₁.length := by
  obtain ⟨hi, rfl⟩ := List.getElem?_eq_some_iff.mp h
  refine ⟨l.take i, l.drop (i + 1), ?_, ?_⟩
  · rw [List.getElem_cons_drop, List.take_append_drop]
  · rw [List.length_take, Nat.min_eq_left (Nat.le_of_lt hi)]

/-- Somewhere among the clients. -/
theorem moved_at {pc : ConsumerPc} (hpc : s.pc = pc) (hl : s.clients = l₁ ++ c :: l₂) :
    s = s.moved (l₁ ++ c :: l₂) pc := by
  rw [← hpc, ← hl]
  rfl

/-- A step of the loop at another client leaves the pipeline with `id` alone as
it was. -/
theorem solo_consumer_other (hh : s.concernsOthers id .consumer = true)
    (h : consumerStep lib s = some s') (halive : s'.pc.isTerminated = false) :
    s'.solo id = s.solo id := by
  have hclient : ∀ i, (s.clients[i]?.any fun c => c.id ≠ id) = true →
      ∃ l₁ c l₂, s.clients = l₁ ++ c :: l₂ ∧ i = l₁.length ∧ c.id ≠ id := by
    intro i hi
    cases hc : s.clients[i]? with
    | none => simp [hc] at hi
    | some c =>
      rw [hc, Option.any_some] at hi
      obtain ⟨l₁, l₂, hl, hlen⟩ := split_at hc
      exact ⟨l₁, c, l₂, hl, hlen, by simpa using hi⟩
  cases hpc : s.pc with
  | clients e i =>
    simp only [Pipeline.concernsOthers, hpc] at hh
    obtain ⟨l₁, c, l₂, hl, rfl, hc⟩ := hclient i hh
    rw [moved_at hpc hl] at h ⊢
    exact solo_look_other hc h
  | push e i =>
    simp only [Pipeline.concernsOthers, hpc] at hh
    obtain ⟨l₁, c, l₂, hl, rfl, hc⟩ := hclient i hh
    rw [moved_at hpc hl] at h ⊢
    exact solo_push_other hc h halive
  | _ => simp [Pipeline.concernsOthers, hpc] at hh

/-- Past the last client. -/
theorem consumerStep_end {i : Nat} (hpc : s.pc = .clients e i) (hi : s.clients[i]? = none) :
    consumerStep lib s = some { s with pc := .idle, finished := s.finished ++ [e] } := by
  simp only [consumerStep, hpc, hi]

/-- Where the loop does not hold `clients_mu_`. -/
theorem solo_unlocked (hpc : s.pc.locked = false) :
    s.solo id = s.moved (onlyClient id s.clients) s.pc := by
  have hplace : s.soloPc id = s.pc := by
    unfold Pipeline.soloPc
    cases h : s.pc with
    | clients e i => rw [h] at hpc; cases hpc
    | push e i => rw [h] at hpc; cases hpc
    | _ => rfl
  simp only [Pipeline.solo, Pipeline.moved, hplace]

theorem solo_idle (hpc : s.pc = .idle) (h : consumerStep lib s = some s') :
    consumerStep lib (s.solo id) = some (s'.solo id) := by
  rw [solo_unlocked (by rw [hpc]; rfl), hpc]
  simp only [consumerStep, hpc, Pipeline.moved] at h ⊢
  cases hq : s.queue with
  | cons e queue =>
    rw [hq] at h
    cases h
    rw [solo_unlocked rfl]
    rfl
  | nil =>
    rw [hq] at h
    by_cases hstop : s.stop = true
    · simp only [if_pos hstop] at h
      cases h
      rw [solo_unlocked rfl]
      exact if_pos hstop
    · simp only [if_neg hstop] at h
      cases h

theorem solo_sinks {n : Nat} (hpc : s.pc = .sinks e n) (h : consumerStep lib s = some s')
    (halive : s'.pc.isTerminated = false) :
    consumerStep lib (s.solo id) = some (s'.solo id) := by
  rw [solo_unlocked (by rw [hpc]; rfl), hpc]
  simp only [consumerStep, hpc, Pipeline.moved] at h ⊢
  split
  · rename_i hn
    rw [hn] at h
    cases h
    rfl
  · rename_i sink hn
    rw [hn] at h
    cases hw : sink.write lib e with
    | ok sink' =>
      simp only [hw] at h ⊢
      cases h
      rw [solo_unlocked rfl]
      rfl
    | error x =>
      simp only [hw] at h
      cases h
      cases halive

/-- Past the last client the loop ends for `id` alone as well. -/
theorem solo_end {i : Nat} (hpc : s.pc = .clients e i) (hi : s.clients[i]? = none)
    (h : consumerStep lib s = some s') : consumerStep lib (s.solo id) = some (s'.solo id) := by
  rw [consumerStep_end hpc hi] at h
  cases h
  have hall : s.clients.take i = s.clients :=
    List.take_of_length_le (List.getElem?_eq_none_iff.mp hi)
  have hplace : (s.solo id).pc = .clients e (onlyClient id s.clients).length := by
    rw [Pipeline.solo, soloPc_clients hpc, hall]
  rw [consumerStep_end hplace (List.getElem?_eq_none (Nat.le_refl _))]
  exact congrArg some (Eq.symm (solo_unlocked
    (s := { s with pc := .idle, finished := s.finished ++ [e] }) rfl))

/-- Every other step of the loop is one of the loop with `id` alone. -/
theorem solo_consumer (hh : s.concernsOthers id .consumer = false)
    (h : consumerStep lib s = some s') (halive : s'.pc.isTerminated = false) :
    consumerStep lib (s.solo id) = some (s'.solo id) := by
  have hclient : ∀ i c, s.clients[i]? = some c →
      (s.clients[i]?.any fun c => c.id ≠ id) = false →
      ∃ l₁ l₂, s.clients = l₁ ++ c :: l₂ ∧ i = l₁.length ∧ c.id = id := by
    intro i c hc hi
    rw [hc, Option.any_some] at hi
    obtain ⟨l₁, l₂, hl, hlen⟩ := split_at hc
    exact ⟨l₁, l₂, hl, hlen, by simpa using hi⟩
  cases hpc : s.pc with
  | idle => exact solo_idle hpc h
  | sinks e n => exact solo_sinks hpc h halive
  | clients e i =>
    simp only [Pipeline.concernsOthers, hpc] at hh
    cases hi : s.clients[i]? with
    | none => exact solo_end hpc hi h
    | some c =>
      obtain ⟨l₁, l₂, hl, rfl, hc⟩ := hclient i c hi hh
      rw [moved_at hpc hl] at h ⊢
      exact solo_look_own hc h
  | push e i =>
    simp only [Pipeline.concernsOthers, hpc] at hh
    cases hi : s.clients[i]? with
    | none => simp [consumerStep, hpc, hi] at h
    | some c =>
      obtain ⟨l₁, l₂, hl, rfl, hc⟩ := hclient i c hi hh
      rw [moved_at hpc hl] at h ⊢
      exact solo_push_own hc h halive
  | returned => simp [consumerStep, hpc] at h
  | terminated x => simp [consumerStep, hpc] at h

end Loop

/-! ## The other threads and the client alone -/

section Threads

variable {lib : JsonLib} {clock : Clock} {s s' : Pipeline} {id j : Nat}

/-- Every client keeps its id. -/
theorem onlyClient_map {f : Subscriber → Subscriber} (hf : ∀ c, (f c).id = c.id)
    (l : List Subscriber) : onlyClient id (l.map f) = (onlyClient id l).map f := by
  simp only [onlyClient, List.filter_map, Function.comp_def, hf]

theorem soloPc_map {f : Subscriber → Subscriber} (hf : ∀ c, (f c).id = c.id) :
    Pipeline.soloPc id { s with clients := s.clients.map f } = s.soloPc id := by
  simp only [Pipeline.soloPc, List.getElem?_map, Option.any_map, hf,
    ← List.map_take, onlyClient_map hf, List.length_map]

theorem solo_modify_own (f : StreamClient → StreamClient) :
    (s.modifyClient id f).solo id = (s.solo id).modifyClient id f := by
  have hf : ∀ c : Subscriber,
      (if c.id = id then { c with client := f c.client } else c : Subscriber).id = c.id := by
    intro c
    split <;> rfl
  simp only [Pipeline.modifyClient, Pipeline.solo, onlyClient_map hf, soloPc_map hf]

theorem solo_modify_other (hj : j ≠ id) (f : StreamClient → StreamClient) :
    (s.modifyClient j f).solo id = s.solo id := by
  have hf : ∀ c : Subscriber,
      (if c.id = j then { c with client := f c.client } else c : Subscriber).id = c.id := by
    intro c
    split <;> rfl
  have hsame : (onlyClient id s.clients).map
      (fun c => if c.id = j then { c with client := f c.client } else c) =
        onlyClient id s.clients := by
    refine (List.map_congr_left fun c hc => ?_).trans (List.map_id _)
    have hid : c.id = id := by simpa using (List.mem_filter.mp hc).2
    rw [if_neg (fun h => hj (h.symm.trans hid))]
    rfl
  simp only [Pipeline.modifyClient, Pipeline.solo, onlyClient_map hf, soloPc_map hf, hsame]

theorem solo_locked : (s.solo id).pc.locked = s.pc.locked := by
  simp only [Pipeline.solo, Pipeline.soloPc]
  split
  · rename_i h; rw [h]; rfl
  · rename_i h; rw [h]; split <;> rfl
  · rfl

theorem solo_isTerminated : (s.solo id).pc.isTerminated = s.pc.isTerminated := by
  simp only [Pipeline.solo, Pipeline.soloPc]
  split
  · rename_i h; rw [h]; rfl
  · rename_i h; rw [h]; split <;> rfl
  · rfl

theorem solo_thread_other {l : ThreadLabel} (hh : s.concernsOthers id (.thread l) = true)
    (h : threadStep clock s l = some s') : s'.solo id = s.solo id := by
  cases threadStep_tr h with
  | records | discards | pushes | swaps | stops => cases hh
  | adds j hl =>
    have hj : j ≠ id := by simpa [Pipeline.concernsOthers] using hh
    have hnew : onlyClient id (s.clients ++ [{ id := j, since := s.finished.length }]) =
        onlyClient id s.clients := by
      rw [onlyClient_append, onlyClient_cons_other hj]
      exact List.append_nil _
    rw [solo_unlocked hl, solo_unlocked (by exact hl), hnew]
    rfl
  | removes j hl =>
    have hj : j ≠ id := by simpa [Pipeline.concernsOthers] using hh
    have hrest : onlyClient id (s.clients.filter (·.id ≠ j)) = onlyClient id s.clients := by
      rw [onlyClient, List.filter_filter]
      refine List.filter_congr fun c _ => ?_
      by_cases hc : c.id = id
      · simp [hc, hj.symm]
      · simp [hc]
    rw [solo_unlocked hl, solo_unlocked (by exact hl), hrest]
    rfl
  | shuts j | sends j =>
    have hj : j ≠ id := by simpa [Pipeline.concernsOthers] using hh
    exact solo_modify_other hj _

theorem solo_ringPush (h : threadStep clock s .ringPush = some s') :
    threadStep clock (s.solo id) .ringPush = some (s'.solo id) := by
  cases threadStep_tr h with
  | discards hring hstop => simp [threadStep, Pipeline.solo, Pipeline.soloPc, hring, hstop]
  | pushes hring hstop hroom =>
    simp [threadStep, Pipeline.solo, Pipeline.soloPc, hring, hstop, hroom]

theorem solo_addClient (hl : s.pc.locked = false) (hnew : id ∉ s.clients.map (·.id)) :
    threadStep clock (s.solo id) (.addClient id) = some (Pipeline.solo id
      { s with clients := s.clients ++ [{ id := id, since := s.finished.length }] }) := by
  have hno : ¬ ((s.solo id).pc.locked = true ∨ id ∈ (s.solo id).clients.map (·.id)) := by
    rw [solo_locked, hl]
    rintro (h | h)
    · cases h
    · obtain ⟨c, hc, hid⟩ := List.mem_map.mp h
      exact hnew (List.mem_map.mpr ⟨c, (List.mem_filter.mp hc).1, hid⟩)
  have hlist : onlyClient id (s.clients ++ [{ id := id, since := s.finished.length }]) =
      onlyClient id s.clients ++ [{ id := id, since := s.finished.length }] := by
    have hid : ({ id := id, since := s.finished.length } : Subscriber).id = id := rfl
    rw [onlyClient_append, onlyClient_cons hid]
    rfl
  simp only [threadStep, if_neg hno]
  rw [solo_unlocked hl, solo_unlocked (by exact hl), hlist]
  rfl

theorem solo_removeClient (hl : s.pc.locked = false) :
    threadStep clock (s.solo id) (.removeClient id) =
      some (Pipeline.solo id { s with clients := s.clients.filter (·.id ≠ id) }) := by
  have hrest : onlyClient id (s.clients.filter (·.id ≠ id)) =
      (onlyClient id s.clients).filter (·.id ≠ id) := by
    simp only [onlyClient, List.filter_filter, Bool.and_comm]
  simp only [threadStep, solo_locked, hl, Bool.false_eq_true, if_false]
  rw [solo_unlocked hl, solo_unlocked (by exact hl), hrest]
  rfl

theorem solo_thread {l : ThreadLabel} (hh : s.concernsOthers id (.thread l) = false)
    (h : threadStep clock s l = some s') : threadStep clock (s.solo id) l = some (s'.solo id) := by
  cases threadStep_tr h with
  | records data hring => exact if_neg (by rw [Pipeline.solo, hring]; exact Bool.false_ne_true)
  | discards | pushes => exact solo_ringPush h
  | swaps | stops => rfl
  | adds j hl hnew =>
    obtain rfl : j = id := by simpa [Pipeline.concernsOthers] using hh
    exact solo_addClient hl hnew
  | removes j hl =>
    obtain rfl : j = id := by simpa [Pipeline.concernsOthers] using hh
    exact solo_removeClient hl
  | shuts j | sends j =>
    obtain rfl : j = id := by simpa [Pipeline.concernsOthers] using hh
    rw [solo_modify_own]
    rfl

/-- The steps that do not concern other clients only are a run with `id` alone. -/
theorem solo_run (hlib : lib.Documented) {ls : List PipelineLabel}
    (h : ((pipeline lib clock).restrict Pipeline.Writable).Run s ls s') :
    (pipeline lib clock).Run (s.solo id) (concerning lib clock id s ls) (s'.solo id) := by
  refine LTS.Run.project ?_ ?_ h
  · intro s l s' hw hstep hh
    cases l with
    | consumer =>
      exact solo_consumer_other hh hstep (((consumerStep_tr hstep).writable hlib).mp hw)
    | thread l =>
      obtain ⟨-, hthread⟩ := (Option.ite_none_left_eq_some).mp hstep
      exact solo_thread_other hh hthread
  · intro s l s' hw hstep hh
    cases l with
    | consumer => exact solo_consumer hh hstep (((consumerStep_tr hstep).writable hlib).mp hw)
    | thread l =>
      obtain ⟨halive, hthread⟩ := (Option.ite_none_left_eq_some).mp hstep
      rw [pipelineStep, solo_isTerminated, if_neg halive]
      exact solo_thread hh hthread

end Threads

/-! ## Events with valid strings -/

section Valid

variable {lib : JsonLib} {clock : Clock} {s s' : Pipeline} {l : PipelineLabel}

/-- No event leaves `emitted`, and no sink comes or goes. -/
theorem pipelineStep_grows (h : pipelineStep lib clock s l = some s') :
    s.emitted ⊆ s'.emitted ∧ s'.sinks.length = s.sinks.length := by
  cases l with
  | consumer =>
    have htr := consumerStep_tr h
    refine ⟨fun e he => htr.pending.1 ▸ he, ?_⟩
    cases htr with
    | writes hpc hn hw => exact List.length_set
    | _ => rfl
  | thread l =>
    obtain ⟨-, h⟩ := (Option.ite_none_left_eq_some).mp h
    cases threadStep_tr h with
    | pushes => exact ⟨List.subset_append_left _ _, rfl⟩
    | _ => exact ⟨List.Subset.refl _, rfl⟩

theorem pipeline_grows {ls : List PipelineLabel} (h : (pipeline lib clock).Run s ls s') :
    s.emitted ⊆ s'.emitted ∧ s'.sinks.length = s.sinks.length := by
  induction h with
  | nil s => exact ⟨List.Subset.refl _, rfl⟩
  | cons h1 _ ih =>
    obtain ⟨he, hn⟩ := pipelineStep_grows h1
    exact ⟨List.Subset.trans he ih.1, ih.2.trans hn⟩

/-- When all the events have valid strings, every step may be taken. -/
theorem pipeline_writable (hlib : lib.Documented) {ls : List PipelineLabel}
    (h : (pipeline lib clock).Run s ls s') (hd : s.Delivered lib)
    (hutf8 : ∀ e ∈ s'.emitted, e.Utf8Texts) :
    ((pipeline lib clock).restrict Pipeline.Writable).Run s ls s' := by
  induction h with
  | nil s => exact .nil s
  | @cons s s₁ s' l ls h1 htail ih =>
    have hsub := (pipeline_grows (.cons h1 htail)).1
    have hw : s.Writable l := by
      cases l with
      | thread l => trivial
      | consumer =>
        refine writable_of_utf8 fun e he => hutf8 e (hsub ?_)
        rw [hd.queued, List.append_assoc]
        exact List.mem_append_right _ he
    exact .cons ⟨hw, h1⟩ (ih (hd.step hlib hw h1) hutf8)

end Valid

/-! ## What a client accepts -/

/-- Each event offered to an open client was accepted or counted as dropped. -/
structure Subscriber.Accounted (c : Subscriber) : Prop where
  accepted : c.client.accepted.Sublist c.offered
  dropped : c.client.closed = false →
    c.offered.length = c.client.accepted.length + c.client.dropped

section Accounts

variable {lib : JsonLib} {clock : Clock} {s s' : Pipeline} {c : Subscriber} {e : SecurityEvent}

theorem Subscriber.Accounted.push (h : c.Accounted) {client : StreamClient}
    (hp : c.client.push lib e = .ok client) :
    Subscriber.Accounted { c with client := client, offered := c.offered ++ [e] } := by
  have hkeep : c.client.accepted.Sublist (c.offered ++ [e]) :=
    h.accepted.trans (List.sublist_append_left _ _)
  unfold StreamClient.push at hp
  split at hp
  · -- closed since the loop looked
    rename_i hclosed
    cases hp
    exact ⟨hkeep, fun hopen => absurd (hclosed.symm.trans hopen) (by decide)⟩
  · rename_i hopen
    have hcount := h.dropped (by simpa using hopen)
    split at hp
    · cases hp
    split at hp
    · cases hp
      exact ⟨hkeep, fun _ => by simp only [List.length_append, List.length_singleton]; omega⟩
    · cases hp
      exact ⟨h.accepted.append (List.Sublist.refl _),
        fun _ => by simp only [List.length_append, List.length_singleton]; omega⟩

/-- The writer thread leaves the accounts alone. -/
theorem StreamClient.writerStep_accounts {sends : Bool} {c c' : StreamClient}
    (h : c.writerStep sends = some c') : c'.accepted = c.accepted ∧ c'.dropped = c.dropped := by
  unfold StreamClient.writerStep at h
  split at h
  · cases h; exact ⟨rfl, rfl⟩
  · split at h
    · split at h
      · cases h; exact ⟨rfl, rfl⟩
      · cases h; exact ⟨rfl, rfl⟩
    · split at h
      · cases h; exact ⟨rfl, rfl⟩
      · cases h
  · cases h

theorem Subscriber.Accounted.modify (h : c.Accounted) {f : StreamClient → StreamClient}
    (hf : (f c.client).accepted = c.client.accepted ∧ (f c.client).dropped = c.client.dropped)
    (hclosed : (f c.client).closed = false → c.client.closed = false) :
    Subscriber.Accounted { c with client := f c.client } :=
  ⟨hf.1 ▸ h.accepted, fun hopen => by rw [hf.1, hf.2]; exact h.dropped (hclosed hopen)⟩

theorem accounted_modifyClient (h : ∀ c ∈ s.clients, c.Accounted) (id : Nat)
    {f : StreamClient → StreamClient}
    (hf : ∀ c, (f c).accepted = c.accepted ∧ (f c).dropped = c.dropped)
    (hclosed : ∀ c, (f c).closed = false → c.closed = false) :
    ∀ c ∈ (s.modifyClient id f).clients, c.Accounted := by
  intro d hd
  obtain ⟨c, hc, rfl⟩ := List.mem_map.mp hd
  split
  · exact (h c hc).modify (hf _) (hclosed _)
  · exact h c hc

theorem accounted_step {l : PipelineLabel} (h : ∀ c ∈ s.clients, c.Accounted)
    (hstep : pipelineStep lib clock s l = some s') : ∀ c ∈ s'.clients, c.Accounted := by
  cases l with
  | consumer =>
    cases consumerStep_tr hstep with
    | drops hpc hi => exact fun c hc => h c (List.mem_of_mem_eraseIdx hc)
    | pushes hpc hi hp =>
      intro d hd
      rcases List.mem_or_eq_of_mem_set hd with hd | rfl
      · exact h d hd
      · exact (h _ (List.mem_of_getElem? hi)).push hp
    | _ => exact h
  | thread l =>
    obtain ⟨-, hstep⟩ := (Option.ite_none_left_eq_some).mp hstep
    cases threadStep_tr hstep with
    | records | discards | pushes | swaps | stops => exact h
    | adds id =>
      intro c hc
      rcases List.mem_append.mp hc with hc | hc
      · exact h c hc
      · rw [List.mem_singleton.mp hc]
        exact ⟨List.Sublist.refl _, fun _ => rfl⟩
    | removes id => exact fun c hc => h c (List.mem_filter.mp hc).1
    | shuts id => exact accounted_modifyClient h id (fun c => ⟨rfl, rfl⟩) fun c hc => by cases hc
    | sends id ok =>
      refine accounted_modifyClient h id (fun c => ?_) fun c hc => StreamClient.sends_closed hc
      cases hw : c.writerStep ok with
      | none => exact ⟨rfl, rfl⟩
      | some c' => exact StreamClient.writerStep_accounts hw

/-- **Fan-out.** In every run whose events have valid strings each sink has been
written each event once, in queue order, and the loop goes on until all that is
queued is. A client that is open has been offered the events the loop was done with
since it was added, in order, and each was accepted or counted as dropped. Any
other run with the same steps apart from those that concern other clients only ends
with the same client. -/
theorem fan_out (lib : JsonLib) (hlib : lib.Documented) (clock : Clock) (s₀ s : Pipeline)
    (ls : List PipelineLabel) (h₀ : s₀.Init) (hrun : (pipeline lib clock).Run s₀ ls s)
    (hutf8 : ∀ e ∈ s.emitted, e.Utf8Texts) :
    s.sinks.length = s₀.sinks.length ∧
    s.emitted = s.finished ++ s.pc.event.toList ++ s.queue ∧
    (∀ n (sink : Sink), s.sinks[n]? = some sink →
      sink.Wrote lib (s.finished ++ (s.pc.toSink n).toList)) ∧
    (∃ k t, (pipeline lib clock).Run s (List.replicate k .consumer) t ∧
      t.Drained ∧ t.Delivered lib ∧ t.finished = s.emitted) ∧
    (∀ n (c : Subscriber), s.clients[n]? = some c → c.client.closed = false →
      c.offered = s.finished.drop c.since ++ (s.pc.toClient n).toList ∧
      c.client.accepted.Sublist c.offered ∧
      c.offered.length = c.client.accepted.length + c.client.dropped) ∧
    ∀ (id : Nat) (s' : Pipeline) (ls' : List PipelineLabel),
      (pipeline lib clock).Run s₀ ls' s' → (∀ e ∈ s'.emitted, e.Utf8Texts) →
      concerning lib clock id s₀ ls = concerning lib clock id s₀ ls' →
      onlyClient id s.clients = onlyClient id s'.clients := by
  have hd₀ : s₀.Delivered lib := h₀.delivered
  have hw := pipeline_writable hlib hrun hd₀ hutf8
  have hd : s.Delivered lib := hw.inv (fun _ _ _ hd hs => hd.step hlib hs.1 hs.2) hd₀
  have hacc : ∀ c ∈ s.clients, c.Accounted := by
    refine hrun.inv (I := fun s => ∀ c ∈ s.clients, c.Accounted)
      (fun _ _ _ h hs => accounted_step h hs) fun c hc => ?_
    rw [h₀.clients] at hc
    cases hc
  refine ⟨(pipeline_grows hrun).2, hd.queued, hd.sinks, ?_, fun n c hn hopen => ?_,
    fun id s' ls' hrun' hutf8' hsame => ?_⟩
  · have hpending : ∀ e ∈ s.pc.event.toList ++ s.queue, e.Utf8Texts := by
      intro e he
      refine hutf8 e ?_
      rw [hd.queued, List.append_assoc]
      exact List.mem_append_right _ he
    obtain ⟨k, t, hk, ht⟩ :=
      Pipeline.Delivered.drains hlib clock s.work s (Nat.le_refl _) hd hpending
    exact ⟨k, t, hk.of_restrict, ht⟩
  · have ha := hacc c (List.mem_of_getElem? hn)
    exact ⟨hd.clients n c hn hopen, ha.accepted, ha.dropped hopen⟩
  · have h : (pipeline lib clock).Run (s₀.solo id) (concerning lib clock id s₀ ls) (s.solo id) :=
      solo_run hlib hw
    have h' : (pipeline lib clock).Run (s₀.solo id) (concerning lib clock id s₀ ls') (s'.solo id) :=
      solo_run hlib (pipeline_writable hlib hrun' hd₀ hutf8')
    rw [← hsame] at h'
    exact congrArg Pipeline.clients (LTS.run_unique h h')

end Accounts

/-- `eventRun` with a second client before the first, which is closed before the
loop comes to it. -/
def crowdedRun (comm : Str) (n : Nat) : List PipelineLabel :=
  .thread (.addClient 2) :: .thread (.shutdownClient 2) :: eventRun comm n

theorem crowdedRun_concerning : concerning JsonText.textLib sampleClock 1 samplePipeline
    (eventRun (str "cat") 7) = concerning JsonText.textLib sampleClock 1 samplePipeline
      (crowdedRun (str "cat") 8) := by
  decide +kernel

theorem crowdedRun_exec : ∀ ls ∈ [eventRun (str "cat") 7, crowdedRun (str "cat") 8],
    (LTS.exec (pipelineStep JsonText.textLib sampleClock) samplePipeline ls).map (fun s =>
      (decide (∀ e ∈ s.emitted, e.Utf8Texts), s.clients.map fun c => c.offered.map (·.comm))) =
        some (true, [[str "cat"]]) := by
  decide +kernel

theorem fan_out_sample : ∃ s s' : Pipeline,
    (s.clients.map fun c => c.offered.map (·.comm)) = [[str "cat"]] ∧
    onlyClient 1 s.clients = onlyClient 1 s'.clients := by
  have hone := crowdedRun_exec _ List.mem_cons_self
  have htwo := crowdedRun_exec _ (List.mem_cons_of_mem _ List.mem_cons_self)
  obtain ⟨s, hs, hseen⟩ := Option.map_eq_some_iff.mp hone
  obtain ⟨s', hs', hseen'⟩ := Option.map_eq_some_iff.mp htwo
  obtain ⟨hutf8, hoffered⟩ := Prod.mk.inj hseen
  have hfan := fan_out JsonText.textLib JsonText.textLib_documented sampleClock samplePipeline s _
    samplePipeline_init (LTS.run_of_exec Pipeline.Init hs) (of_decide_eq_true hutf8)
  exact ⟨s, s', hoffered, hfan.2.2.2.2.2 1 s' _ (LTS.run_of_exec Pipeline.Init hs')
    (of_decide_eq_true (Prod.mk.inj hseen').1) crowdedRun_concerning⟩

end FileGuard
