import MetricDepot.Json.Reader
/-!
# Yields — what is true of everything that a reader gives

    `Yields read P` says that whatever document `read` succeeds on, what it gives satisfies
    `P`.  A fold over the members of an object, or over the fields of a record, yields what
    each of its steps keeps; the steps may come in any order and number.
-/

namespace MetricDepot.Json

variable {α β σ κ : Type}

/-- Whatever the reader gives satisfies `P`. -/
def Yields (read : Reader α) (P : α → Prop) : Prop :=
  ∀ s x rest, read s = .ok (x, rest) → P x

namespace Yields

/-- Every reader yields something. -/
theorem any (read : Reader α) : Yields read (fun _ => True) := fun _ _ _ _ => trivial

/-- A value that is given without reading is what was given. -/
theorem pure {P : α → Prop} {x : α} (h : P x) : Yields (Pure.pure x) P := by
  intro s y rest hread
  obtain ⟨rfl, -⟩ := Prod.mk.inj (Except.ok.inj hread)
  exact h

/-- A reader that always fails yields whatever one likes. -/
theorem fail {P : α → Prop} : Yields (Json.fail : Reader α) P := fun _ _ _ hread => nomatch hread

/-- What the second reader yields may rest on what the first one does. -/
theorem bind {P : α → Prop} {Q : β → Prop} {read : Reader α} {next : α → Reader β}
    (hread : Yields read P) (hnext : ∀ x, P x → Yields (next x) Q) : Yields (read >>= next) Q := by
  intro s y rest h
  have h : (read s >>= fun step => next step.1 step.2) = .ok (y, rest) := h
  cases hstep : read s with
  | error e =>
    rw [hstep] at h
    cases h
  | ok step =>
    rw [hstep] at h
    exact hnext step.1 (hread s step.1 step.2 hstep) step.2 y rest h

/-- What comes after a step of which nothing has to be known. -/
theorem after {Q : β → Prop} {read : Reader α} {next : α → Reader β}
    (hnext : ∀ x, Yields (next x) Q) : Yields (read >>= next) Q :=
  bind (any read) fun x _ => hnext x

/-- Of two readers either yields what both do. -/
theorem ite {P : α → Prop} {c : Prop} [Decidable c] {yes no : Reader α} (hyes : Yields yes P)
    (hno : Yields no P) : Yields (if c then yes else no) P := by
  split
  · exact hyes
  · exact hno

/-- A value that may be missing is there if the reader does not fail. -/
theorem orFail (o : Option α) : Yields (Json.orFail o : Reader α) (fun x => o = some x) := by
  cases o with
  | none => exact fail
  | some x => exact pure rfl

/-- A field that may come once is read as its reader does it. -/
theorem once {P : α → Prop} {present : Option α} {read : Reader α} (h : Yields read P) :
    Yields (Json.once present read) (fun o => ∀ x, o = some x → P x) := by
  refine ite fail ?_
  intro s o rest hread
  have hread : (read s >>= fun step => Except.ok (some step.1, step.2)) = .ok (o, rest) := hread
  cases hstep : read s with
  | error e =>
    rw [hstep] at hread
    cases hread
  | ok step =>
    rw [hstep] at hread
    obtain ⟨rfl, -⟩ := Prod.mk.inj (Except.ok.inj hread)
    intro x hx
    rw [← Option.some.inj hx]
    exact h s step.1 step.2 hstep

-- ── Folds ───────────────────────────────────────────────────────────────────

/-- The members of an object yield what each of them keeps, however many there are. -/
theorem membersFrom {P : σ → Prop} {key : Reader κ} {member : σ → κ → Reader σ}
    (keep : ∀ seen k, P seen → Yields (member seen k) P) (fuel : Nat) (seen : σ) (h : P seen) :
    Yields (Json.membersFrom key member fuel seen) P := by
  induction fuel generalizing seen with
  | zero => exact fail
  | succ fuel ih =>
    refine after fun k => after fun _ => bind (keep seen k h) fun seen' hseen' => after fun b => ?_
    exact ite (ih seen' hseen') (ite (pure hseen') fail)

/-- So do the items of a list that stand for named fields. -/
theorem namedItemsFrom {P : σ → Prop} {field : σ → String → Reader σ}
    (keep : ∀ seen name, P seen → Yields (field seen name) P) (names : List String) (seen : σ)
    (h : P seen) : Yields (Json.namedItemsFrom field names seen) P := by
  induction names generalizing seen with
  | nil => exact fail
  | cons name names ih =>
    refine bind (keep seen name h) fun seen' hseen' => after fun b => ?_
    exact ite (ih seen' hseen') (ite (pure hseen') fail)

/-- **A record yields what each of its fields keeps.** -/
theorem record {P : σ → Prop} {names : List String} {field : σ → String → Reader σ} {start : σ}
    (h : P start) (keep : ∀ seen name, P seen → Yields (field seen name) P) :
    Yields (Json.record names field start) P := by
  refine after fun b => ite ?_ (ite ?_ fail)
  · refine after fun closed => ite (pure h) (after fun rest => ?_)
    exact membersFrom keep _ start h
  · refine after fun closed => ite (pure h) ?_
    exact namedItemsFrom keep names start h

end Yields

/-- A document is what its reader takes, with blanks behind it. -/
theorem document_eq_ok {read : Reader α} {text : Bytes} {x : α} (h : document read text = .ok x) :
    ∃ rest, read text = .ok (x, rest) ∧ skipBlank rest = [] := by
  have h : (read text >>= fun step =>
      if skipBlank step.2 = [] then Except.ok step.1 else throw Fault.malformed) = .ok x := h
  cases hstep : read text with
  | error e =>
    rw [hstep] at h
    cases h
  | ok step =>
    rw [hstep] at h
    by_cases hblank : skipBlank step.2 = []
    · have h : (if skipBlank step.2 = [] then Except.ok step.1 else throw Fault.malformed) = .ok x := h
      rw [if_pos hblank] at h
      rw [← Except.ok.inj h]
      exact ⟨step.2, rfl, hblank⟩
    · have h : (if skipBlank step.2 = [] then Except.ok step.1 else throw Fault.malformed) = .ok x := h
      rw [if_neg hblank] at h
      cases h

end MetricDepot.Json
