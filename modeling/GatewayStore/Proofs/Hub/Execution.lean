import GatewayStore.Simulation.World

/-
  A program that runs by itself. Its surroundings answer its calls and show it the clock, new ids and
  the caches, and nobody else comes in between. `execute` keeps the calls that it makes. A simulation is
  such a run (`World.run_eq_execute`), and so is one against a store that has no other user
  (`Store.alone`).
-/

namespace GatewayStore

/-- What a program runs in. A new id leaves the caches as they are. -/
structure Surroundings (σ : Type) where
  serve : σ → (r : Request) → Except Failure r.Answer × σ
  clock : σ → WallTime
  draw : σ → String × σ
  caches : σ → Caches
  caches_draw : ∀ s, caches (draw s).2 = caches s

/-- What running a program comes to, with the calls that it made and the state that it left. -/
structure Execution (σ α : Type) where
  outcome : Except Failure α
  calls : List Request
  left : σ

variable {σ α β : Type}

/-- An execution to which earlier calls belong. -/
def Execution.after (calls : List Request) (e : Execution σ α) : Execution σ α :=
  { e with calls := calls ++ e.calls }

@[simp]
theorem Execution.after_nil (e : Execution σ α) : e.after [] = e := rfl

namespace Program

variable (around : Surroundings σ)

/-- Runs a program by itself. -/
def execute : Program α → σ → Execution σ α
  | .done result, s => ⟨.ok result, [], s⟩
  | .failed cause, s => ⟨.error cause, [], s⟩
  | .call r next, s =>
    let (answer, left) := around.serve s r
    ((next answer).execute left).after [r]
  | .readClock next, s => (next (around.clock s)).execute s
  | .drawId next, s =>
    let (id, left) := around.draw s
    (next id).execute left
  | .readCaches next, s => (next (around.caches s)).execute s

/-- A sequence runs its second part from what the first part left, unless that failed. -/
theorem execute_bind (p : Program α) (f : α → Program β) (s : σ) :
    (p >>= f).execute around s =
      match p.execute around s with
      | ⟨.ok result, calls, left⟩ => ((f result).execute around left).after calls
      | ⟨.error cause, calls, left⟩ => ⟨.error cause, calls, left⟩ := by
  show (p.bind f).execute around s = _
  induction p generalizing s with
  | done result => rfl
  | failed cause => rfl
  | call r next ih =>
    rw [Program.bind, execute, execute]
    dsimp only
    rw [ih, Execution.after]
    rcases (next (around.serve s r).1).execute around (around.serve s r).2 with
      ⟨result | cause, calls, left⟩ <;> simp [Execution.after]
  | readClock next ih => exact ih (around.clock s) s
  | drawId next ih => exact ih (around.draw s).1 (around.draw s).2
  | readCaches next ih => exact ih (around.caches s) s

theorem execute_ofExcept_bind (check : Except Failure α) (f : α → Program β) (s : σ) :
    (Program.ofExcept check >>= f).execute around s =
      match check with
      | .ok result => (f result).execute around s
      | .error cause => ⟨.error cause, [], s⟩ := by
  cases check <;> rfl

@[simp]
theorem execute_clock_bind (f : WallTime → Program β) (s : σ) :
    (Program.clock >>= f).execute around s = (f (around.clock s)).execute around s := rfl

@[simp]
theorem execute_caches_bind (f : Caches → Program β) (s : σ) :
    (Program.caches >>= f).execute around s = (f (around.caches s)).execute around s := rfl

theorem execute_attempt_bind (r : Request) (f : Except Failure r.Answer → Program β) (s : σ) :
    (Program.attempt r >>= f).execute around s =
      ((f (around.serve s r).1).execute around (around.serve s r).2).after [r] := rfl

end Program

/-! ## Surroundings -/

namespace World

/-- A simulation as what a program runs in. -/
def surroundings : Surroundings World where
  serve w r := w.perform r (w.client.deadlines r)
  clock := wall
  draw w :=
    let ids := w.ids.advance w.wall
    (ids.text, { w with hub := w.hub.map fun (h : Hub) => { h with ids := ids } })
  caches := caches
  caches_draw w := by
    funext kind
    cases h : w.hub <;> simp [caches, Hub.caches, h]

theorem run_eq_execute (w : World) (p : Program α) :
    w.run p = ((p.execute surroundings w).outcome, (p.execute surroundings w).left) := by
  induction p generalizing w with
  | done result => rfl
  | failed cause => rfl
  | call r next ih =>
    rw [run, Program.execute]
    exact ih (w.perform r (w.client.deadlines r)).1 (w.perform r (w.client.deadlines r)).2
  | readClock next ih => exact ih w.wall w
  | drawId next ih => exact ih (surroundings.draw w).1 (surroundings.draw w).2
  | readCaches next ih => exact ih w.caches w

end World

/-- A store that nobody else uses, while the clock stands still. -/
def Store.alone (now : WallTime) (fresh : String) (caches : Caches) : Surroundings Store where
  serve := Store.call
  clock _ := now
  draw s := (fresh, s)
  caches _ := caches
  caches_draw _ := rfl

end GatewayStore
