import GatewayStore.Hub.Collection

/-
  What a program may do, whatever it observes. `Keeps` bounds the calls that a program makes and the
  results that it gives by what it has observed before; it is proved by following the program text
  (`keeps_bind`) and holds at every point of a run (`Keeps.observe`). `Ends` says the same of how a
  program ends, with its failures.
-/

namespace GatewayStore

/-- What a program gets to see: an answer, the clock, a new id or the caches. -/
inductive Observation where
  | answered (request : Request) (answer : Except Failure request.Answer)
  | time (now : WallTime)
  | id (text : String)
  | cached (caches : Caches)

namespace Program

variable {α β : Type}

/-- The call that a program waits for. -/
def request? : Program α → Option Request
  | .call request _ => some request
  | _ => none

/-- What is left of a program that sees what it waits for. -/
def resume? : Program α → Observation → Option (Program α)
  | .call request next, .answered request' answer =>
    if h : request' = request then some (next (h ▸ answer)) else none
  | .readClock next, .time now => some (next now)
  | .drawId next, .id text => some (next text)
  | .readCaches next, .cached caches => some (next caches)
  | _, _ => none

/-- From what it has observed on, a program makes only calls and gives only results of some kind. -/
def Keeps (calls : List Observation → Request → Prop) (results : List Observation → α → Prop) :
    List Observation → Program α → Prop
  | past, .done a => results past a
  | _, .failed _ => True
  | past, .call request next => calls past request ∧
    ∀ answer, (next answer).Keeps calls results (past ++ [.answered request answer])
  | past, .readClock next => ∀ now, (next now).Keeps calls results (past ++ [.time now])
  | past, .drawId next => ∀ text, (next text).Keeps calls results (past ++ [.id text])
  | past, .readCaches next => ∀ caches, (next caches).Keeps calls results (past ++ [.cached caches])

variable {calls : List Observation → Request → Prop} {results : List Observation → α → Prop}
  {past : List Observation}

theorem Keeps.imp {calls' : List Observation → Request → Prop}
    {results' : List Observation → α → Prop} {p : Program α} (h : p.Keeps calls results past)
    (hcalls : ∀ past request, calls past request → calls' past request)
    (hresults : ∀ past a, results past a → results' past a) : p.Keeps calls' results' past := by
  induction p generalizing past with
  | done a => exact hresults past a h
  | failed cause => trivial
  | call request next ih =>
    exact ⟨hcalls past request h.1, fun answer => ih answer (h.2 answer)⟩
  | readClock next ih => exact fun now => ih now (h now)
  | drawId next ih => exact fun text => ih text (h text)
  | readCaches next ih => exact fun caches => ih caches (h caches)

/-- One program after another: the second goes on from what the first observed. -/
theorem keeps_bind {results : List Observation → β → Prop} {p : Program α} {f : α → Program β}
    (h : p.Keeps calls (fun past a => (f a).Keeps calls results past) past) :
    (p >>= f).Keeps calls results past := by
  induction p generalizing past with
  | done a => exact h
  | failed cause => trivial
  | call request next ih => exact ⟨h.1, fun answer => ih answer (h.2 answer)⟩
  | readClock next ih => exact fun now => ih now (h now)
  | drawId next ih => exact fun text => ih text (h text)
  | readCaches next ih => exact fun caches => ih caches (h caches)

theorem keeps_ofExcept {result : Except Failure α}
    (h : ∀ a, result = .ok a → results past a) : (ofExcept result).Keeps calls results past := by
  cases result with
  | ok a => exact h a rfl
  | error cause => trivial

/-- A program that goes on keeps to what it kept to. -/
theorem Keeps.observe {p rest : Program α} {o : Observation} (h : p.Keeps calls results past)
    (ho : p.resume? o = some rest) : rest.Keeps calls results (past ++ [o]) := by
  cases p with
  | done a => cases o <;> cases ho
  | failed cause => cases o <;> cases ho
  | call request next =>
    cases o with
    | answered request' answer =>
      simp only [resume?] at ho
      split at ho
      · next heq =>
        subst heq
        cases ho
        exact h.2 answer
      · cases ho
    | _ => cases ho
  | readClock next =>
    cases o with
    | time now => cases ho; exact h now
    | _ => cases ho
  | drawId next =>
    cases o with
    | id text => cases ho; exact h text
    | _ => cases ho
  | readCaches next =>
    cases o with
    | cached caches => cases ho; exact h caches
    | _ => cases ho

/-! ## Outcomes -/

/-- Whether a program has a result or has failed. -/
def isOver : Program α → Bool
  | .done _ | .failed _ => true
  | _ => false

/-- From what it has observed on, a program ends only in outcomes of some kind. -/
def Ends (outcomes : List Observation → Except Failure α → Prop) :
    List Observation → Program α → Prop
  | past, .done a => outcomes past (.ok a)
  | past, .failed cause => outcomes past (.error cause)
  | past, .call request next =>
    ∀ answer, (next answer).Ends outcomes (past ++ [.answered request answer])
  | past, .readClock next => ∀ now, (next now).Ends outcomes (past ++ [.time now])
  | past, .drawId next => ∀ text, (next text).Ends outcomes (past ++ [.id text])
  | past, .readCaches next => ∀ caches, (next caches).Ends outcomes (past ++ [.cached caches])

variable {outcomes : List Observation → Except Failure α → Prop}

theorem Ends.imp {outcomes' : List Observation → Except Failure α → Prop} {p : Program α}
    (h : p.Ends outcomes past)
    (himp : ∀ past result, outcomes past result → outcomes' past result) :
    p.Ends outcomes' past := by
  induction p generalizing past with
  | done a => exact himp past _ h
  | failed cause => exact himp past _ h
  | call request next ih => exact fun answer => ih answer (h answer)
  | readClock next ih => exact fun now => ih now (h now)
  | drawId next ih => exact fun text => ih text (h text)
  | readCaches next ih => exact fun caches => ih caches (h caches)

theorem ends_of_forall (h : ∀ past result, outcomes past result) (p : Program α) :
    p.Ends outcomes past := by
  induction p generalizing past with
  | done a => exact h past _
  | failed cause => exact h past _
  | call request next ih => exact fun answer => ih answer
  | readClock next ih => exact fun now => ih now
  | drawId next ih => exact fun text => ih text
  | readCaches next ih => exact fun caches => ih caches

/-- One program after another: a failure of the first ends both. -/
theorem ends_bind {outcomes : List Observation → Except Failure β → Prop} {p : Program α}
    {f : α → Program β}
    (h : p.Ends (fun past result => match result with
      | .ok a => (f a).Ends outcomes past
      | .error cause => outcomes past (.error cause)) past) : (p >>= f).Ends outcomes past := by
  induction p generalizing past with
  | done a => exact h
  | failed cause => exact h
  | call request next ih => exact fun answer => ih answer (h answer)
  | readClock next ih => exact fun now => ih now (h now)
  | drawId next ih => exact fun text => ih text (h text)
  | readCaches next ih => exact fun caches => ih caches (h caches)

theorem ends_ofExcept {result : Except Failure α} (h : outcomes past result) :
    (ofExcept result).Ends outcomes past := by
  cases result with
  | ok a => exact h
  | error cause => exact h

/-- A program that goes on still ends so. -/
theorem Ends.observe {p rest : Program α} {o : Observation} (h : p.Ends outcomes past)
    (ho : p.resume? o = some rest) : rest.Ends outcomes (past ++ [o]) := by
  cases p with
  | done a => cases o <;> cases ho
  | failed cause => cases o <;> cases ho
  | call request next =>
    cases o with
    | answered request' answer =>
      simp only [resume?] at ho
      split at ho
      · next heq =>
        subst heq
        cases ho
        exact h answer
      · cases ho
    | _ => cases ho
  | readClock next =>
    cases o with
    | time now => cases ho; exact h now
    | _ => cases ho
  | drawId next =>
    cases o with
    | id text => cases ho; exact h text
    | _ => cases ho
  | readCaches next =>
    cases o with
    | cached caches => cases ho; exact h caches
    | _ => cases ho

/-- Some observations bring a program to an end; it takes more of them if it is not over. -/
theorem Ends.exists_outcome {p : Program α} (h : p.Ends outcomes past) :
    ∃ later result, outcomes (past ++ later) result ∧ (p.isOver = false → later ≠ []) := by
  induction p generalizing past with
  | done a => exact ⟨[], .ok a, by rwa [List.append_nil], fun hover => by cases hover⟩
  | failed cause => exact ⟨[], .error cause, by rwa [List.append_nil], fun hover => by cases hover⟩
  | call request next ih =>
    obtain ⟨later, result, houtcome, -⟩ := ih (.error (.notFound "")) (h _)
    exact ⟨_ :: later, result, by rwa [List.append_cons], fun _ => List.cons_ne_nil _ _⟩
  | readClock next ih =>
    obtain ⟨later, result, houtcome, -⟩ := ih ⟨0⟩ (h _)
    exact ⟨_ :: later, result, by rwa [List.append_cons], fun _ => List.cons_ne_nil _ _⟩
  | drawId next ih =>
    obtain ⟨later, result, houtcome, -⟩ := ih "" (h _)
    exact ⟨_ :: later, result, by rwa [List.append_cons], fun _ => List.cons_ne_nil _ _⟩
  | readCaches next ih =>
    obtain ⟨later, result, houtcome, -⟩ := ih (fun _ => none) (h _)
    exact ⟨_ :: later, result, by rwa [List.append_cons], fun _ => List.cons_ne_nil _ _⟩

/-- A program that ends within a number of observations has not made more, and fewer if it goes on. -/
theorem Ends.length_le {bound : Nat} {p : Program α}
    (h : p.Ends (fun past _ => past.length ≤ bound) past) :
    past.length ≤ bound ∧ (p.isOver = false → past.length < bound) := by
  obtain ⟨later, -, hle, hlonger⟩ := h.exists_outcome
  rw [List.length_append] at hle
  refine ⟨by omega, fun hover => ?_⟩
  have hpos := List.length_pos_iff.2 (hlonger hover)
  omega

end Program

end GatewayStore
