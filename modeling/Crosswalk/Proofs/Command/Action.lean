import Crosswalk.Command.System

/-!
# Actions in a world

An action that only reads leaves the world that it runs in as it is. A chain of actions of which all
but the last one only read leaves the world if it fails, provided that the last one does.

* `World.Stays`: an action leaves a world as it is, whether it fails or not.
* `World.Gives`: an action succeeds with a value and leaves a world as it is.
* `World.StaysOnError`: an action that fails leaves a world as it is.
* `World.Stays.run_bind_eq_ok_iff`: one action behind another one that only reads.
-/

namespace Crosswalk

variable {α β : Type} {w w' : World} {x : Action α} {f : α → Action β} {a : α} {b : β} {e : Error}

namespace World

/-- An action leaves a world as it is, whether it fails or not. -/
def Stays (w : World) (x : Action α) : Prop := (w.run x).2 = w

/-- An action succeeds with a value and leaves a world as it is. -/
def Gives (w : World) (x : Action α) (a : α) : Prop := w.run x = (.ok a, w)

/-- An action that fails leaves a world as it is. -/
def StaysOnError (w : World) (x : Action α) : Prop := ∀ e w', w.run x = (.error e, w') → w' = w

/-! ## Chains -/

theorem run_bind (w : World) (x : Action α) (f : α → Action β) :
    w.run (x >>= f) = match w.run x with
      | (.ok a, w') => w'.run (f a)
      | (.error e, w') => (.error e, w') := by
  change (StateT.run (ExceptT.run x >>= ExceptT.bindCont f) w) = _
  rw [StateT.run_bind]
  unfold run
  rcases StateT.run (ExceptT.run x) w with ⟨_ | _, _⟩ <;> rfl

theorem Stays.run_eq (h : w.Stays x) : w.run x = ((w.run x).1, w) := Prod.ext rfl h

theorem Gives.run_bind_eq (h : w.Gives x a) (f : α → Action β) :
    w.run (x >>= f) = w.run (f a) := by
  rw [run_bind, show w.run x = _ from h]

theorem run_bind_of_error (h : w.run x = (.error e, w')) (f : α → Action β) :
    w.run (x >>= f) = (.error e, w') := by
  rw [run_bind, h]

/-- An action that only reads gives a value or fails. -/
theorem Stays.gives_or_fails (h : w.Stays x) :
    (∃ a, w.Gives x a) ∨ ∃ e, w.run x = (.error e, w) := by
  have hrun := h.run_eq
  cases hresult : (w.run x).1 with
  | ok a => exact .inl ⟨a, by rw [Gives, hrun, hresult]⟩
  | error e => exact .inr ⟨e, by rw [hrun, hresult]⟩

/-- An action behind one that only reads succeeds if the first one gives a value and the second one
succeeds with it, from the same world. -/
theorem Stays.run_bind_eq_ok_iff (h : w.Stays x) :
    w.run (x >>= f) = (.ok b, w') ↔ ∃ a, w.Gives x a ∧ w.run (f a) = (.ok b, w') := by
  constructor
  · intro hok
    rcases h.gives_or_fails with ⟨a, ha⟩ | ⟨e, he⟩
    · rw [ha.run_bind_eq] at hok
      exact ⟨a, ha, hok⟩
    · rw [run_bind_of_error he] at hok
      cases hok
  · rintro ⟨a, ha, hok⟩
    rw [ha.run_bind_eq, hok]

theorem Stays.gives_bind_iff (h : w.Stays x) :
    w.Gives (x >>= f) b ↔ ∃ a, w.Gives x a ∧ w.Gives (f a) b := h.run_bind_eq_ok_iff

/-- A chain of actions that only read only reads. -/
theorem Stays.bind (h : w.Stays x) (hf : ∀ a, w.Gives x a → w.Stays (f a)) :
    w.Stays (x >>= f) := by
  rcases h.gives_or_fails with ⟨a, ha⟩ | ⟨e, he⟩
  · rw [Stays, ha.run_bind_eq]
    exact hf a ha
  · rw [Stays, run_bind_of_error he]

/-- Two chains of actions that only read come to the same in two worlds if their actions do. -/
theorem Stays.result_bind_congr {x' : Action α} {f' : α → Action β} (h : w.Stays x)
    (h' : w'.Stays x') (hx : (w'.run x').1 = (w.run x).1)
    (hf : ∀ a, w.Gives x a → (w'.run (f' a)).1 = (w.run (f a)).1) :
    (w'.run (x' >>= f')).1 = (w.run (x >>= f)).1 := by
  have hrun := h'.run_eq
  rw [hx] at hrun
  rcases h.gives_or_fails with ⟨a, ha⟩ | ⟨e, he⟩
  · have ha' : w'.Gives x' a := by rw [Gives, hrun, show w.run x = _ from ha]
    rw [ha.run_bind_eq, ha'.run_bind_eq]
    exact hf a ha
  · rw [he] at hrun
    rw [run_bind_of_error he, run_bind_of_error hrun]

/-- An action that leaves the world if it fails does so behind actions that only read. -/
theorem Stays.bind_staysOnError (h : w.Stays x) (hf : ∀ a, w.Gives x a → w.StaysOnError (f a)) :
    w.StaysOnError (x >>= f) := by
  rcases h.gives_or_fails with ⟨a, ha⟩ | ⟨e, he⟩
  · intro e w'
    rw [ha.run_bind_eq]
    exact hf a ha e w'
  · intro e' w' he'
    rw [run_bind_of_error he] at he'
    exact (Prod.mk.inj he').2.symm

/-! ## Single actions -/

theorem stays_pure (a : α) : w.Stays (pure a) := rfl

theorem gives_pure_iff {a' : α} : w.Gives (pure a') a ↔ a' = a := by
  rw [Gives, show w.run (pure a') = (.ok a', w) from rfl]
  simp

/-- A step that looks at nothing in the world. -/
theorem run_lift (w : World) (r : Outcome α) : w.run (liftM r : Action α) = (r, w) := rfl

theorem stays_lift (r : Outcome α) : w.Stays (liftM r : Action α) := rfl

theorem gives_lift_iff {r : Outcome α} : w.Gives (liftM r : Action α) a ↔ r = .ok a := by
  rw [Gives, run_lift]
  simp

end World

end Crosswalk
