/-
# StagedRollout.Proofs.Outcome -- steps that may fail

Writing, reading and editing are chains of steps that end at the first failure. These equations
open such a chain: at a step whose outcome is known, and, from the success of the whole chain, at
its first step.
-/

namespace StagedRollout.Outcome

variable {ε α β : Type}

@[simp]
theorem pure_eq_ok (a : α) : (pure a : Except ε α) = .ok a := rfl

@[simp]
theorem ok_bind (a : α) (f : α → Except ε β) : (Except.ok a >>= f) = f a := rfl

@[simp]
theorem error_bind (e : ε) (f : α → Except ε β) : (Except.error e >>= f) = .error e := rfl

@[simp]
theorem map_ok (f : α → β) (a : α) : f <$> (Except.ok a : Except ε α) = .ok (f a) := rfl

@[simp]
theorem map_error (f : α → β) (e : ε) : f <$> (Except.error e : Except ε α) = .error e := rfl

/-- A computation in two steps succeeds just when both steps do. -/
theorem bind_eq_ok {x : Except ε α} {f : α → Except ε β} {b : β} :
    (x >>= f) = .ok b ↔ ∃ a, x = .ok a ∧ f a = .ok b := by
  cases x <;> simp

/-- A result that is only changed was there before. -/
theorem map_eq_ok {x : Except ε α} {f : α → β} {b : β} :
    f <$> x = .ok b ↔ ∃ a, x = .ok a ∧ f a = b := by
  cases x <;> simp

theorem exists_of_isOk {x : Except ε α} (h : x.isOk = true) : ∃ a, x = .ok a := by
  cases x with
  | ok a => exact ⟨a, rfl⟩
  | error e => exact absurd h (by simp [Except.isOk, Except.toBool])

/-- A step for every item makes one thing of each. -/
theorem length_of_mapM {f : α → Except ε β} {items : List α} {made : List β}
    (h : items.mapM f = .ok made) : made.length = items.length := by
  induction items generalizing made with
  | nil =>
    obtain rfl : [] = made := Except.ok.inj h
    rfl
  | cons item rest ih =>
    rw [List.mapM_cons] at h
    obtain ⟨b, -, h⟩ := bind_eq_ok.1 h
    obtain ⟨tail, hrest, h⟩ := bind_eq_ok.1 h
    obtain rfl := Except.ok.inj h
    rw [List.length_cons, List.length_cons, ih hrest]

/-- Of a list for whose items a step succeeds, one item can be exchanged: what is made of the others
stays, in front of it and behind it. -/
theorem exists_mapM_around {f : α → Except ε β} {front behind : List α} {a : α} {made : List β}
    (h : (front ++ a :: behind).mapM f = .ok made) :
    ∃ before after, before.length = front.length ∧ ∀ other,
      (front ++ other :: behind).mapM f = (fun b => before ++ b :: after) <$> f other := by
  rw [List.mapM_append] at h
  obtain ⟨before, hfront, h⟩ := bind_eq_ok.1 h
  obtain ⟨rest, hrest, -⟩ := bind_eq_ok.1 h
  rw [List.mapM_cons] at hrest
  obtain ⟨b, -, hrest⟩ := bind_eq_ok.1 hrest
  obtain ⟨after, hbehind, -⟩ := bind_eq_ok.1 hrest
  refine ⟨before, after, length_of_mapM hfront, fun other => ?_⟩
  rw [List.mapM_append, List.mapM_cons, hfront, hbehind]
  cases f other <;> rfl

/-- A step with an outcome that passes a test. -/
theorem exists_of_any {x : Except ε α} {p : α → Bool} (h : x.toOption.any p = true) :
    ∃ a, x = .ok a ∧ p a = true := by
  cases x with
  | ok a => exact ⟨a, rfl, h⟩
  | error e => exact absurd h (by simp [Except.toOption])

end StagedRollout.Outcome
