import Mathlib
import SeviriImagery.Error

/-!
# Outcomes

A computation that succeeded did so step by step.  The facts of this file take a success apart, one
for each way in which outcomes are put together, and are used wherever a program of the library is
read backwards from its result.

A failure comes from one of the steps.  `FailsOnly` says of which kind the errors of a computation
are, and is put together in the same ways.

Some computations change a state in place as they go.  One that fails half-way leaves the state as it
is by then; the last facts say what each step leaves to the next.
-/

namespace SeviriImagery.Outcome

variable {ε ε' α β : Type}

@[simp] theorem ok_bind (a : α) (next : α → Except ε β) : (Except.ok a >>= next) = next a := rfl

@[simp] theorem error_bind (e : ε) (next : α → Except ε β) :
    (Except.error e >>= next) = .error e := rfl

@[simp] theorem ok_map (f : α → β) (a : α) : (Except.ok a : Except ε α).map f = .ok (f a) := rfl

@[simp] theorem error_map (f : α → β) (e : ε) :
    (Except.error e : Except ε α).map f = .error e := rfl

@[simp] theorem ok_mapError (f : ε → ε') (a : α) :
    (Except.ok a : Except ε α).mapError f = .ok a := rfl

@[simp] theorem error_mapError (f : ε → ε') (e : ε) :
    (Except.error e : Except ε α).mapError f = .error (f e) := rfl

@[simp] theorem ok_inFile (path : String) (a : α) : inFile path (.ok a) = .ok a := rfl

/-- Two steps succeed if the first one does and then the second. -/
theorem bind_eq_ok_iff {first : Except ε α} {next : α → Except ε β} {b : β} :
    (first >>= next) = .ok b ↔ ∃ a, first = .ok a ∧ next a = .ok b := by
  cases first <;> simp

/-- What is made of a success is made of its value. -/
theorem map_eq_ok_iff {first : Except ε α} {f : α → β} {b : β} :
    first.map f = .ok b ↔ ∃ a, first = .ok a ∧ f a = b := by
  cases first <;> simp

/-- Another name for its errors does not change a success. -/
@[simp] theorem mapError_eq_ok_iff {first : Except ε α} {f : ε → ε'} {a : α} :
    first.mapError f = .ok a ↔ first = .ok a := by
  cases first <;> simp

/-- A list is gone through with success if each of its members is. -/
theorem mapM_eq_ok_iff {f : α → Except ε β} {xs : List α} {ys : List β} :
    xs.mapM f = .ok ys ↔ List.Forall₂ (fun x y => f x = .ok y) xs ys := by
  induction xs generalizing ys with
  | nil =>
      simp only [List.mapM_nil, List.forall₂_nil_left_iff, pure, Except.pure, Except.ok.injEq]
      exact eq_comm
  | cons x xs ih =>
      rw [List.mapM_cons, bind_eq_ok_iff]
      simp only [bind_eq_ok_iff, ih, pure, Except.pure, Except.ok.injEq]
      constructor
      · intro hgiven
        obtain ⟨y, hy, rest, hrest, rfl⟩ := hgiven
        exact .cons hy hrest
      · intro hall
        cases hall with
        | cons hy hrest => exact ⟨_, hy, _, hrest, rfl⟩

/-- A list of which each member can be gone through is gone through, and what comes of it comes of
its members. -/
theorem exists_mapM {f : α → Except ε β} {xs : List α} (hall : ∀ x ∈ xs, ∃ y, f x = .ok y) :
    ∃ ys, xs.mapM f = .ok ys ∧ ∀ y, y ∈ ys ↔ ∃ x ∈ xs, f x = .ok y := by
  induction xs with
  | nil => exact ⟨[], rfl, by simp⟩
  | cons x xs ih =>
      obtain ⟨y, hy⟩ := hall x List.mem_cons_self
      obtain ⟨ys, hys, hmem⟩ := ih fun x' hx' => hall x' (List.mem_cons_of_mem x hx')
      refine ⟨y :: ys, ?_, ?_⟩
      · rw [List.mapM_cons, hy, hys]
        rfl
      · intro y'
        rw [List.mem_cons, hmem]
        simp only [List.mem_cons, exists_eq_or_imp, hy, Except.ok.injEq]
        exact or_congr_left eq_comm

theorem isOk_iff {first : Except ε α} : first.isOk = true ↔ ∃ a, first = .ok a := by
  cases first <;> simp [Except.isOk, Except.toBool]

/-- What is made of a result does not decide whether there is one. -/
theorem isOk_bind_pure (first : Except ε α) (f : α → β) :
    (first >>= fun a => pure (f a)).isOk = first.isOk := by
  cases first <;> rfl

/-- A list is gone through if each of its members can be. -/
theorem isOk_mapM_iff {f : α → Except ε β} {xs : List α} :
    (xs.mapM f).isOk = true ↔ ∀ x ∈ xs, (f x).isOk = true := by
  induction xs with
  | nil => simp [isOk_iff, pure, Except.pure]
  | cons x xs ih =>
      rw [List.mapM_cons, List.forall_mem_cons, ← ih]
      cases hx : f x with
      | error e => simp [Except.isOk, Except.toBool]
      | ok y =>
          rw [ok_bind, isOk_bind_pure]
          exact (and_iff_right rfl).symm

/-- A success in a file is a success. -/
@[simp] theorem inFile_eq_ok_iff {path : String} {outcome : Except ContentError α} {a : α} :
    inFile path outcome = .ok a ↔ outcome = .ok a := by
  cases outcome <;> simp [inFile]

/-- A step before which a check is made succeeds if the check lets it pass. -/
theorem guard_eq_ok_iff {c : Prop} [Decidable c] {e : ε} {next : Unit → Except ε β} {b : β} :
    (if c then throw e >>= next else next ()) = .ok b ↔ ¬c ∧ next () = .ok b := by
  split
  · rename_i hc
    simp [hc, throw, throwThe, MonadExceptOf.throw]
  · rename_i hc
    simp [hc]

/-- All errors of an outcome are of a kind. -/
def FailsOnly (kind : ε → Prop) (outcome : Except ε α) : Prop := ∀ e, outcome = .error e → kind e

section FailsOnly

variable {kind : ε → Prop} {kind' : ε' → Prop}

theorem failsOnly_ok (a : α) : FailsOnly kind (.ok a : Except ε α) := nofun

theorem failsOnly_error {e : ε} (he : kind e) : FailsOnly kind (.error e : Except ε α) := by
  intro e' hsame
  cases hsame
  exact he

/-- Two steps fail as the first one does, or as the second does behind a success of the first. -/
theorem FailsOnly.bind {first : Except ε α} {next : α → Except ε β} (hfirst : FailsOnly kind first)
    (hnext : ∀ a, first = .ok a → FailsOnly kind (next a)) : FailsOnly kind (first >>= next) := by
  cases first with
  | error e => exact failsOnly_error (hfirst e rfl)
  | ok a => exact hnext a rfl

theorem FailsOnly.map {first : Except ε α} (f : α → β) (hfirst : FailsOnly kind first) :
    FailsOnly kind (first.map f) := by
  cases first with
  | error e => exact failsOnly_error (hfirst e rfl)
  | ok a => exact failsOnly_ok (f a)

/-- With another name for its errors an outcome fails as these names say. -/
theorem FailsOnly.mapError {first : Except ε α} {f : ε → ε'} (hname : ∀ e, kind e → kind' (f e))
    (hfirst : FailsOnly kind first) : FailsOnly kind' (first.mapError f) := by
  cases first with
  | error e => exact failsOnly_error (hname e (hfirst e rfl))
  | ok a => exact failsOnly_ok a

end FailsOnly

section InPlace

variable {σ ε α β : Type}

/-- A step that looks at the state goes on with the state that it finds. -/
theorem run_get_bind (next : σ → ExceptT ε (StateM σ) β) (s : σ) :
    (get >>= next).run s = (next s).run s := rfl

/-- A step that changes the state goes on with what it made of it. -/
theorem run_modify_bind (change : σ → σ) (next : PUnit → ExceptT ε (StateM σ) β) (s : σ) :
    (modify change >>= next).run s = (next ⟨⟩).run (change s) := rfl

/-- A step that can only fail leaves the state alone, whether it fails or not. -/
theorem run_ofExcept_bind (outcome : Except ε α) (next : α → ExceptT ε (StateM σ) β) (s : σ) :
    (ofExcept outcome >>= next).run s =
      match outcome with
      | .ok a => (next a).run s
      | .error e => (.error e, s) := by
  cases outcome <;> rfl

/-- Two steps that may both change the state, and fail after that. -/
theorem run_bind (first : ExceptT ε (StateM σ) α) (next : α → ExceptT ε (StateM σ) β) (s : σ) :
    (first >>= next).run s =
      match first.run s with
      | (.ok a, behind) => (next a).run behind
      | (.error e, behind) => (.error e, behind) := by
  show (ExceptT.bindCont next (first.run s).1 : StateM σ _) (first.run s).2 = _
  generalize first.run s = r
  obtain ⟨r, behind⟩ := r
  cases r <;> rfl

end InPlace

end SeviriImagery.Outcome
