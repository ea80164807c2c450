import GatewayStore.Proofs.Watch.Phases
import GatewayStore.Simulation.World
import Mathlib.Data.List.Forall2
import Mathlib.Data.List.Induction

/-
  What becomes of the watch loops of a world. Whatever runs there, the hub stays and each of its loops
  takes signals (`Continues`). A worker that gets a signal is one such step (`continues_signal`); all
  that a world does by itself is made of them, up to the running of a whole program
  (`continues_run`). Only `openHub` puts a new hub in the place of the old one, with loops that were
  started (`hub_openHub`), and a started loop stays one (`Runs.after`). So `stopLoops` finds loops
  that a shutdown closes (`loops_stopLoops`, `closed_of_stopLoops`).
-/

namespace GatewayStore

namespace WatchLoop

variable {w : WatchLoop}

theorem Runs.after (h : w.Runs) (signals : List Signal) : (w.after signals).Runs := by
  induction signals generalizing w with
  | nil => exact h
  | cons s later ih => exact ih ((w.transition_react s).runs h)

/-- A start reaches every loop that waits for it. -/
theorem runs_react_start (hidle : w.stage = .idle) : (w.react .start).Runs := by
  have hready : (w.react .start).stage = .ready := by simp only [react, hidle]
  rw [Runs, hready]
  decide

/-- One loop is another after some signals. -/
def Reaches (w w' : WatchLoop) : Prop := ∃ signals, w' = w.after signals

theorem Reaches.refl (w : WatchLoop) : w.Reaches w := ⟨[], rfl⟩

theorem Reaches.trans {w' w'' : WatchLoop} (h : w.Reaches w') (h' : w'.Reaches w'') :
    w.Reaches w'' := by
  obtain ⟨signals, rfl⟩ := h
  obtain ⟨later, rfl⟩ := h'
  exact ⟨signals ++ later, (after_append w signals later).symm⟩

end WatchLoop

namespace World

variable {w w' : World}

/-- The loops of the hub. -/
def loops (w : World) : List WatchLoop := w.workers.map Worker.loop

theorem loops_of_hub_eq (h : w'.hub = w.hub) : w'.loops = w.loops := by
  unfold loops workers
  rw [h]

/-- One world is another after a while: the hub is still there, and its loops took signals. -/
structure Continues (w w' : World) : Prop where
  hub_isSome : w'.hub.isSome = w.hub.isSome
  loops : List.Forall₂ WatchLoop.Reaches w.loops w'.loops

namespace Continues

theorem of_loops_eq (hhub : w'.hub.isSome = w.hub.isSome) (hloops : w'.loops = w.loops) :
    w.Continues w' :=
  ⟨hhub, hloops ▸ List.forall₂_same.2 fun l _ => .refl l⟩

theorem of_hub_eq (h : w'.hub = w.hub) : w.Continues w' :=
  of_loops_eq (by rw [h]) (loops_of_hub_eq h)

/-- What happens outside the hub may come first. -/
theorem after_outside {w'' : World} (h : w'.Continues w'') (hhub : w'.hub = w.hub) :
    w.Continues w'' :=
  ⟨h.hub_isSome.trans (by rw [hhub]), loops_of_hub_eq hhub ▸ h.loops⟩

theorem refl (w : World) : w.Continues w := of_hub_eq rfl

theorem trans {w'' : World} (h : w.Continues w') (h' : w'.Continues w'') : w.Continues w'' := by
  refine ⟨h'.hub_isSome.trans h.hub_isSome, ?_⟩
  have hfirst := h.loops
  have hlater := h'.loops
  generalize w.loops = l, w'.loops = l', w''.loops = l'' at hfirst hlater
  induction hfirst generalizing l'' with
  | nil => exact hlater
  | cons hreaches _ ih =>
    cases hlater with
    | cons hreaches' hlater => exact .cons (hreaches.trans hreaches') (ih _ hlater)

/-- What every signal keeps of a loop is kept for all loops. -/
theorem forall_loops {P : WatchLoop → Prop} (h : w.Continues w')
    (hafter : ∀ l signals, P l → P (l.after signals)) (hall : ∀ l ∈ w.loops, P l) :
    ∀ l ∈ w'.loops, P l := by
  have hloops := h.loops
  generalize w.loops = l, w'.loops = l' at hloops hall
  induction hloops with
  | nil => exact List.forall_mem_nil P
  | cons hreaches _ ih =>
    obtain ⟨signals, rfl⟩ := hreaches
    rw [List.forall_mem_cons] at hall ⊢
    exact ⟨hafter _ signals hall.1, ih hall.2⟩

end Continues

/-! ## One worker -/

theorem loops_setWorker (w : World) (i : Nat) (worker : Worker) :
    (w.setWorker i worker).loops = w.loops.set i worker.loop := by
  cases hhub : w.hub with
  | none => simp [loops, workers, setWorker, hhub]
  | some hub => simp [loops, workers, setWorker, hhub, List.map_set]

theorem hub_isSome_setWorker (w : World) (i : Nat) (worker : Worker) :
    (w.setWorker i worker).hub.isSome = w.hub.isSome :=
  Option.isSome_map

theorem continues_setWorker {i : Nat} {worker : Worker} {l : WatchLoop} (hat : w.loops[i]? = some l)
    (hreaches : l.Reaches worker.loop) : w.Continues (w.setWorker i worker) := by
  refine ⟨w.hub_isSome_setWorker i worker, ?_⟩
  rw [loops_setWorker]
  generalize w.loops = all at hat
  induction all generalizing i with
  | nil => exact .nil
  | cons first rest ih =>
    cases i with
    | zero =>
      cases hat
      exact .cons hreaches (List.forall₂_same.2 fun l _ => .refl l)
    | succ i => exact .cons (.refl first) (ih hat)

theorem loops_signal (w : World) (i : Nat) (worker : Worker) (s : Signal) :
    (w.signal i worker s).loops = w.loops.set i (worker.loop.react s) :=
  loops_setWorker _ i _

section

variable {i : Nat} {worker : Worker}

theorem continues_signal (hat : w.loops[i]? = some worker.loop) (s : Signal) :
    w.Continues (w.signal i worker s) := by
  refine .after_outside (continues_setWorker ?_ ⟨[s], rfl⟩) rfl
  exact hat

theorem continues_finishCall (hat : w.loops[i]? = some worker.loop) (r : Request) :
    w.Continues (w.finishCall i worker r) := by
  unfold finishCall
  dsimp only
  split
  · exact .refl w
  · refine .after_outside (continues_signal ?_ _) rfl
    exact hat

theorem continues_wake (hat : w.loops[i]? = some worker.loop) : w.Continues (w.wake i worker) := by
  unfold wake
  split
  · exact continues_finishCall hat _
  · exact continues_signal hat _

theorem continues_block (hat : w.loops[i]? = some worker.loop) (delay : Nat) (outcome : Outcome) :
    w.Continues (w.block i worker delay outcome) := by
  unfold block
  split
  · exact continues_wake hat
  · exact .after_outside (continues_setWorker hat (.refl _)) rfl

theorem continues_beginCall (hat : w.loops[i]? = some worker.loop) (r : Request) :
    w.Continues (w.beginCall i worker r) := by
  unfold beginCall
  dsimp only
  refine .after_outside (continues_block ?_ _ _) rfl
  exact hat

theorem continues_goOn (hat : w.loops[i]? = some worker.loop) : w.Continues (w.goOn i worker) := by
  unfold goOn
  split
  · exact continues_block hat _ _
  · exact continues_beginCall hat _
  · exact continues_signal hat _

theorem continues_read (hat : w.loops[i]? = some worker.loop) : w.Continues (w.read i worker) := by
  unfold read
  split
  · exact .refl w
  · dsimp only
    refine .after_outside (continues_signal ?_ _) rfl
    exact hat

end

/-! ## What happens by itself -/

theorem mem_of_firstBy {measure : Worker → Nat} {l : List (Worker × Nat)} {e : Worker × Nat}
    (h : firstBy measure l = some e) : e ∈ l := by
  -- a fold from the left: the last worker is the first of all, or it changes nothing
  induction l using List.reverseRecOn generalizing e with
  | nil => cases h
  | append_singleton l last ih =>
    unfold firstBy at h ih
    rw [List.foldl_append, List.foldl_cons, List.foldl_nil] at h
    rw [List.mem_append, List.mem_singleton]
    split at h
    · exact .inr (Option.some.inj h).symm
    · split at h
      · exact .inr (Option.some.inj h).symm
      · exact .inl (ih h)

theorem mem_numbered_of_nextDue? {time : Nat} {e : Worker × Nat} (h : w.nextDue? time = some e) :
    e ∈ w.numbered := by
  unfold nextDue? at h
  exact List.mem_of_mem_filter (List.mem_of_mem_filter (mem_of_firstBy h))

theorem getElem?_loops_of_mem_numbered {e : Worker × Nat} (h : e ∈ w.numbered) :
    w.loops[e.2]? = some e.1.loop := by
  rw [loops, List.getElem?_map, List.mem_zipIdx_iff_getElem?.1 h]
  rfl

theorem continues_step? (h : w.step? = some w') : w.Continues w' := by
  unfold step? at h
  split at h
  · next worker i hfind =>
    cases h
    exact continues_goOn (getElem?_loops_of_mem_numbered (List.mem_of_find?_eq_some hfind))
  · split at h
    · next worker i hfirst =>
      cases h
      exact continues_read
        (getElem?_loops_of_mem_numbered (List.mem_of_mem_filter (mem_of_firstBy hfirst)))
    · obtain ⟨e, hdue, rfl⟩ := Option.map_eq_some_iff.1 h
      exact continues_wake (getElem?_loops_of_mem_numbered (mem_numbered_of_nextDue? hdue))

theorem continues_settleFrom (fuel : Nat) (w : World) : w.Continues (w.settleFrom fuel) := by
  induction fuel generalizing w with
  | zero => exact .refl w
  | succ fuel ih =>
    unfold settleFrom
    split
    · exact .refl w
    · next w' hstep => exact (continues_step? hstep).trans (ih w')

theorem continues_passFrom (fuel : Nat) (w : World) (limit : Nat) :
    w.Continues (w.passFrom fuel limit) := by
  induction fuel generalizing w with
  | zero => exact .refl w
  | succ fuel ih =>
    have hsettle : w.Continues w.settle := continues_settleFrom _ w
    unfold passFrom
    dsimp only
    split
    · exact hsettle
    · exact hsettle.trans (.after_outside (ih _) rfl)

theorem continues_passUntil (w : World) (moment : Nat) : w.Continues (w.passUntil moment) := by
  unfold passUntil
  split
  · exact .refl w
  · exact (continues_passFrom _ w _).trans (.of_hub_eq rfl)

theorem continues_sleep (w : World) (milliseconds : Nat) : w.Continues (w.sleep milliseconds) :=
  (continues_passFrom stepLimit w _).trans
    (.after_outside (continues_settleFrom stepLimit _) rfl)

/-! ## Calls and programs -/

theorem continues_perform (w : World) (r : Request) (deadlines : List Deadline) :
    w.Continues (w.perform r deadlines).2 := by
  unfold perform
  dsimp only
  have hpass : w.Continues ({ w with script := (w.script.beginCall w.now r).2 }.passUntil
      (w.now + (settleCall (w.script.beginCall w.now r).1 deadlines).1)) :=
    .after_outside (continues_passUntil _ _) rfl
  split
  · exact hpass
  · exact hpass.trans (.of_hub_eq rfl)

theorem continues_run {α : Type} (w : World) (program : Program α) :
    w.Continues (w.run program).2 := by
  induction program generalizing w with
  | done a => exact .refl w
  | failed cause => exact .refl w
  | call r next ih => exact (w.continues_perform r _).trans (ih _ _)
  | readClock next ih => exact ih _ w
  | drawId next ih =>
    refine .trans (.of_loops_eq Option.isSome_map ?_) (ih _ _)
    cases hhub : w.hub <;> simp [loops, workers, hhub]
  | readCaches next ih => exact ih _ w

/-! ## Hubs -/

theorem continues_syncKind (w : World) (settings : WatchSettings) (kind : Kind) :
    w.Continues (w.syncKind settings kind).2 := by
  unfold syncKind
  dsimp only
  split
  · exact w.continues_perform _ _
  · exact w.continues_perform _ _

/-- A loop that has its first listing waits for the start. -/
theorem stage_syncKind {settings : WatchSettings} {kind : Kind} {loop : WatchLoop}
    (h : w.syncKind settings kind = (.ok loop, w')) : loop.stage = .idle := by
  unfold syncKind at h
  dsimp only at h
  split at h
  · cases h
  · cases h
    rfl

theorem continues_syncKinds (w : World) (settings : WatchSettings) (kinds : List Kind) :
    w.Continues (w.syncKinds settings kinds).2 := by
  induction kinds generalizing w with
  | nil => exact .refl w
  | cons kind rest ih =>
    have hfirst := w.continues_syncKind settings kind
    unfold syncKinds
    split
    · next hsync => rwa [hsync] at hfirst
    · next loop first hsync =>
      rw [hsync] at hfirst
      have hrest := hfirst.trans (ih first)
      split
      · next hsyncs => rwa [hsyncs] at hrest
      · next hsyncs => rwa [hsyncs] at hrest

theorem stage_syncKinds {settings : WatchSettings} {kinds : List Kind} {loops : List WatchLoop}
    (h : w.syncKinds settings kinds = (.ok loops, w')) : ∀ l ∈ loops, l.stage = .idle := by
  induction kinds generalizing w loops with
  | nil =>
    cases h
    exact List.forall_mem_nil _
  | cons kind rest ih =>
    unfold syncKinds at h
    split at h
    · cases h
    · next loop first hsync =>
      split at h
      · cases h
      · next hsyncs =>
        cases h
        rw [List.forall_mem_cons]
        exact ⟨stage_syncKind hsync, ih hsyncs⟩

/-- A hub that could not be opened leaves the one that is there. -/
theorem continues_openHub {settings : WatchSettings} {kinds : List Kind} {node : Nat}
    {cause : Failure} (h : w.openHub settings kinds node = (.error cause, w')) :
    w.Continues w' := by
  have hsyncs := w.continues_syncKinds settings kinds.eraseDups
  unfold openHub at h
  split at h
  · next heq =>
    cases h
    rwa [heq] at hsyncs
  · cases h

/-- All loops of a new hub are started. -/
theorem hub_openHub {settings : WatchSettings} {kinds : List Kind} {node : Nat}
    (h : w.openHub settings kinds node = (.ok (), w')) :
    w'.hub.isSome = true ∧ ∀ l ∈ w'.loops, l.Runs := by
  unfold openHub at h
  split at h
  · cases h
  · next loops _ heq =>
    cases h
    refine ⟨rfl, fun l hl => ?_⟩
    obtain ⟨worker, hworker, rfl⟩ := List.mem_map.1 hl
    obtain ⟨begun, hbegun, rfl⟩ := List.mem_map.1 hworker
    exact WatchLoop.runs_react_start (stage_syncKinds heq begun hbegun)

/-- Loops are stopped in their order: those that have stopped stand before those that have not. -/
theorem loops_foldl_shutdown (held : List Worker) (stopped : List WatchLoop)
    (h : w.loops = stopped ++ held.map Worker.loop) :
    ((held.zipIdx stopped.length).foldl (fun w e => w.signal e.2 e.1 .shutdown) w).loops =
      stopped ++ held.map fun x => x.loop.react .shutdown := by
  induction held generalizing w stopped with
  | nil => exact h
  | cons worker held ih =>
    have hnow : (w.signal stopped.length worker .shutdown).loops =
        (stopped ++ [worker.loop.react .shutdown]) ++ held.map Worker.loop := by
      rw [loops_signal, h]
      simp
    have hlater := ih _ hnow
    rw [List.length_append, List.length_singleton] at hlater
    rw [List.zipIdx_cons, List.foldl_cons, hlater]
    simp

/-- A shutdown reaches every loop, in its place. -/
theorem loops_stopLoops (w : World) :
    w.stopLoops.loops = w.loops.map fun l => l.react .shutdown := by
  calc w.stopLoops.loops
    _ = [] ++ w.workers.map fun x => x.loop.react .shutdown := loops_foldl_shutdown w.workers [] rfl
    _ = (w.workers.map Worker.loop).map fun l => l.react .shutdown := by
      rw [List.map_map, List.nil_append]
      rfl

/-- The loops of a hub that was opened all close. -/
theorem closed_of_stopLoops (hruns : ∀ l ∈ w.loops, l.Runs) :
    ∀ l ∈ w.stopLoops.loops, l.session.phase = .closed := by
  rw [loops_stopLoops]
  intro l hl
  obtain ⟨held, hheld, rfl⟩ := List.mem_map.1 hl
  have h := hruns held hheld
  exact WatchLoop.phase_react_shutdown h.1 h.2

end World

end GatewayStore
