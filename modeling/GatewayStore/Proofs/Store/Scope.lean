import GatewayStore.Proofs.Store.Moves

/-
  Prefixes as scopes. A put or a delete of a key that is not under a prefix leaves the listing of the
  prefix and the streams under it alone (`keysUnder_run`, `stream?_run`), and in every run the streams
  hold nothing but events under their prefixes (`Scoped.actAll`).
-/

namespace GatewayStore

/-- A listing depends only on the keys under its prefix. -/
theorem KeyMap.listedUnder_congr {index index' : KeyMap Record} {keyPrefix : String}
    (h : ∀ k, Text.startsWith keyPrefix k = true → index.get? k = index'.get? k) :
    index.listedUnder keyPrefix = index'.listedUnder keyPrefix := by
  have hfilter : index.filter (fun k _ => Text.startsWith keyPrefix k) =
      index'.filter fun k _ => Text.startsWith keyPrefix k := by
    ext k : 1
    rw [get?_filter, get?_filter]
    cases hk : Text.startsWith keyPrefix k with
    | true => rw [h k hk]
    | false => cases index.get? k <;> cases index'.get? k <;> rfl
  exact congrArg (fun m : KeyMap Record => m.entries.map fun e => e.2.listed e.1) hfilter

/-! ## The events on a stream -/

namespace Stream

variable {stream : Stream}

/-- Everything that is queued is under the stream's prefix. -/
def Scoped (stream : Stream) : Prop :=
  ∀ e ∈ queuedEvents stream.queue, e.isUnder stream.keyPrefix = true

theorem offer_of_not_under {e : Event} (h : Text.startsWith stream.keyPrefix e.key = false) :
    stream.offer e = stream := by
  simp [offer, h]

theorem Scoped.offer (h : stream.Scoped) (e : Event) : (stream.offer e).Scoped := by
  intro e' he'
  rw [queue_offer] at he'
  rw [keyPrefix_offer]
  cases hp : stream.isOpen && Text.startsWith stream.keyPrefix e.key with
  | false =>
    rw [hp] at he'
    exact h e' (by simpa using he')
  | true =>
    rw [hp, if_pos rfl, queuedEvents_append] at he'
    rcases List.mem_append.1 he' with he' | he'
    · exact h e' he'
    · have heq : e' = e := List.mem_singleton.1 he'
      rw [heq]
      exact (Bool.and_eq_true_iff.1 hp).2

theorem Scoped.fail (h : stream.Scoped) (cause : Failure) : (stream.fail cause).Scoped := by
  intro e he
  rw [queue_fail, queuedEvents_append] at he
  rw [keyPrefix_fail]
  rcases List.mem_append.1 he with he | he
  · exact h e he
  · split at he <;> simp [queuedEvents] at he

theorem Scoped.receive (h : stream.Scoped) : stream.receive.2.Scoped := by
  unfold Stream.receive
  split
  · exact h
  · next d rest hqueue =>
    intro e he
    refine h e ?_
    rw [hqueue, queuedEvents, List.flatMap_cons]
    exact List.mem_append_right _ he

end Stream

namespace Store

variable {s : Store} {step : StoreStep} {key keyPrefix : String}

theorem scoped_watchStream (s : Store) (keyPrefix : String) (start : Nat) :
    (s.watchStream keyPrefix start).Scoped := by
  unfold watchStream
  generalize (if start = 0 then s.revision + 1 else start) = first
  dsimp only
  split
  · intro e he
    simp [queuedEvents] at he
  · intro e he
    rw [queuedEvents_replay] at he
    exact (Bool.and_eq_true_iff.1 (List.mem_filter.1 he).2).2

/-! ## What other keys leave alone -/

/-- A change of a key that is not under a prefix does not show in its listing. -/
theorem keysUnder_run (hstep : step.written? = some key)
    (hkey : Text.startsWith keyPrefix key = false) :
    (s.run step).2.keysUnder keyPrefix = s.keysUnder keyPrefix := by
  rw [keysUnder_eq, keysUnder_eq]
  refine KeyMap.listedUnder_congr fun k hk => s.get?_run_of_ne ?_
  rw [hstep]
  rintro ⟨⟩
  rw [hkey] at hk
  cases hk

/-- Nothing is queued for a change of a key that is not under the prefix. -/
theorem stream?_run {stream : Stream} {id : Nat} (hstep : step.written? = some key)
    (hstream : s.stream? id = some stream)
    (hkey : Text.startsWith stream.keyPrefix key = false) :
    (s.run step).2.stream? id = some stream := by
  have houtage : step.outage? = none := by
    cases step with
    | put | delete => rfl
    | _ => cases hstep
  rcases s.run_cases step with ⟨hs, -⟩ | ⟨written, change, hwritten, -, hs, -⟩ | ⟨revision, hs, -⟩ |
    ⟨a, b, hs, -⟩ | ⟨a, b, cause, -, -, ho, -⟩
  · rw [hs, hstream]
  · cases hstep.symm.trans hwritten
    have hsame := stream.offer_of_not_under (e := ⟨key, change, s.revision + 1⟩) hkey
    rw [hs, stream?_recorded, hstream, Option.map_some, hsame]
  · rw [hs, stream?_compact, hstream]
  · rw [hs]
    exact hstream
  · rw [houtage] at ho
    cases ho

/-! ## Runs -/

theorem streams_compact (s : Store) (revision : Nat) : (s.compact revision).streams = s.streams := by
  unfold compact
  dsimp only
  split <;> rfl

theorem mem_streams {id : Nat} {stream : Stream} (h : s.stream? id = some stream) :
    (id, stream) ∈ s.streams := by
  obtain ⟨before, after, hsplit, -⟩ := List.lookup_eq_some_iff.1 h
  rw [hsplit]
  exact List.mem_append_right _ List.mem_cons_self

/-- Every stream holds only events under its prefix. -/
def Scoped (s : Store) : Prop := ∀ e ∈ s.streams, e.2.Scoped

theorem scoped_withRetention (retention : Nat) : (withRetention retention).Scoped := by
  intro e he
  cases he

theorem Scoped.of_map (h : s.Scoped) {s' : Store} {f : Stream → Stream}
    (hstreams : s'.streams = s.streams.map fun e => (e.1, f e.2))
    (hf : ∀ stream, stream.Scoped → (f stream).Scoped) : s'.Scoped := by
  intro e he
  rw [hstreams] at he
  obtain ⟨old, hold, rfl⟩ := List.mem_map.1 he
  exact hf old.2 (h old hold)

theorem Scoped.run (h : s.Scoped) (step : StoreStep) : (s.run step).2.Scoped := by
  rcases s.run_cases step with ⟨hs, -⟩ | ⟨key, change, -, -, hs, -⟩ | ⟨revision, hs, -⟩ |
    ⟨a, b, hs, -⟩ | ⟨a, b, cause, hs, -⟩
  · rw [hs]
    exact h
  · rw [hs]
    exact h.of_map (s.streams_recorded key change) fun stream hstream => hstream.offer _
  · rw [hs, Scoped, streams_compact]
    exact h
  · rw [hs]
    exact h
  · rw [hs]
    exact h.of_map rfl fun stream hstream => hstream.fail _

theorem Scoped.act (h : s.Scoped) (m : StoreMove) : (s.act m).Scoped := by
  cases m with
  | operate step => exact h.run step
  | subscribe keyPrefix start =>
    rw [Store.act]
    rcases s.served_watch keyPrefix start with hs | ⟨-, hs⟩
    · rw [hs]
      exact h
    · rw [hs]
      intro e he
      rcases List.mem_append.1 he with he | he
      · exact h e he
      · rw [List.mem_singleton.1 he]
        exact s.scoped_watchStream keyPrefix start
  | take id =>
    rw [Store.act]
    unfold receive
    split
    · exact h
    · next stream hstream =>
      intro e he
      obtain ⟨old, hold, rfl⟩ := List.mem_map.1 he
      split
      · exact (h _ (mem_streams hstream)).receive
      · exact h old hold
  | abandon id => exact fun e he => h e (List.mem_filter.1 he).1

theorem Scoped.actAll (h : s.Scoped) (moves : List StoreMove) : (s.actAll moves).Scoped := by
  induction moves generalizing s with
  | nil => exact h
  | cons m moves ih => exact ih (h.act m)

end Store

end GatewayStore
