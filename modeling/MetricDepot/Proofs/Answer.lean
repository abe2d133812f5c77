/-!
# Answers — results that may be errors, one step after another

    A program in `Except` is a chain of steps of which the first error ends the chain.  These
    are the ways to take such a chain apart: from a good end, that every step was good; past a
    guard, that the guard let through; and from an error told in other words, the error.
-/

namespace MetricDepot

variable {ε α β : Type}

/-- A chain that ends well went well at its first step, and went on from there. -/
theorem bind_eq_ok {x : Except ε α} {next : α → Except ε β} {b : β} :
    x >>= next = .ok b ↔ ∃ a, x = .ok a ∧ next a = .ok b := by
  constructor
  · intro h
    cases x with
    | error e => cases h
    | ok a => exact ⟨a, rfl, h⟩
  · rintro ⟨a, rfl, h⟩
    exact h

/-- A chain goes on from a first step that went well. -/
theorem bind_eq_of_ok {x : Except ε α} {next : α → Except ε β} {a : α} {y : Except ε β} (h : x = .ok a)
    (hnext : next a = y) : x >>= next = y := by
  rw [h]
  exact hnext

/-- A chain ends with an error of its first step. -/
theorem bind_eq_of_error {x : Except ε α} {next : α → Except ε β} {e : ε} (h : x = .error e) :
    x >>= next = .error e := by
  rw [h]
  rfl

theorem map_eq_ok {f : α → β} {x : Except ε α} {b : β} :
    x.map f = .ok b ↔ ∃ a, x = .ok a ∧ f a = b := by
  constructor
  · intro h
    cases x with
    | error e => cases h
    | ok a => exact ⟨a, rfl, Except.ok.inj h⟩
  · rintro ⟨a, rfl, rfl⟩
    rfl

/-- A chain goes past a guard only if the guard finds nothing to refuse. -/
theorem guard_eq_ok {p : Prop} [Decidable p] {e : ε} {next : Unit → Except ε β} {b : β} :
    (if p then (throw e : Except ε Unit) >>= next else next ()) = .ok b ↔ ¬ p ∧ next () = .ok b := by
  by_cases h : p
  · rw [if_pos h]
    exact ⟨fun hok => (nomatch hok), fun hok => absurd h hok.1⟩
  · rw [if_neg h]
    exact ⟨fun hok => ⟨h, hok⟩, fun hok => hok.2⟩

/-- Steps that all go well. -/
theorem mapM_of_ok {f : α → Except ε β} {g : α → β} {xs : List α} (h : ∀ x ∈ xs, f x = .ok (g x)) :
    xs.mapM f = .ok (xs.map g) := by
  induction xs with
  | nil => rfl
  | cons x xs ih =>
    rw [List.mapM_cons, h x List.mem_cons_self, ih (fun x hx => h x (List.mem_cons_of_mem _ hx))]
    rfl

/-- Steps that all went well, taken apart. -/
theorem eq_ok_of_mapM {f : α → Except ε β} {xs : List α} {ys : List β} (h : xs.mapM f = .ok ys) :
    ∀ x ∈ xs, ∃ y, f x = .ok y := by
  induction xs generalizing ys with
  | nil => exact fun _ hx => nomatch hx
  | cons x xs ih =>
    rw [List.mapM_cons] at h
    obtain ⟨y, hy, h⟩ := bind_eq_ok.mp h
    obtain ⟨rest, hrest, -⟩ := bind_eq_ok.mp h
    intro x' hx'
    rcases List.mem_cons.mp hx' with rfl | hmem
    · exact ⟨y, hy⟩
    · exact ih hrest x' hmem

end MetricDepot
