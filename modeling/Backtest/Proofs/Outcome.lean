/-!
# Computations that may fail

What is known of a computation that gives a value or an error is known of both: a property of its
value and a property of its error. Each step of a longer computation adds its own.

## Main definitions

* `Ends` — a computation that ends with values of one kind, or fails with errors of another.
* `Ends.bind` — one computation after another.
* `ends_mapM` — one computation for each member of a list.
* `bind_eq_ok_iff`, `mapM_eq_ok_iff` — when there is a value, and which.
-/
namespace Backtest

variable {α β ε : Type}

/-- A computation that ends with a value of one kind or fails with an error of another. -/
def Ends (value : α → Prop) (failure : ε → Prop) : Except ε α → Prop
  | .ok a => value a
  | .error e => failure e

variable {value : α → Prop} {failure : ε → Prop} {x : Except ε α}

theorem exists_eq_ok (h : x.isOk = true) : ∃ a, x = .ok a := by
  cases x with
  | error e => cases h
  | ok a => exact ⟨a, rfl⟩

/-- The error of a computation that fails. -/
def error? : Except ε α → Option ε
  | .ok _ => none
  | .error e => some e

theorem error?_eq_some_iff {e : ε} : error? x = some e ↔ x = .error e := by
  cases x with
  | error e' => exact ⟨fun h => congrArg _ (Option.some.inj h), fun h => congrArg error? h⟩
  | ok a => exact ⟨fun h => (nomatch h), fun h => (nomatch h)⟩

/-- A computation that does not fail has no error. -/
theorem isOk_eq_isNone_error? (x : Except ε α) : x.isOk = (error? x).isNone := by
  cases x with
  | error e => rfl
  | ok a => rfl

theorem eq_ok_of_toOption_eq {a : α} (h : x.toOption = some a) : x = .ok a := by
  cases x with
  | error e => cases h
  | ok b => exact congrArg _ (Option.some.inj h)

/-- What was computed of a value was computed of one that there is. -/
theorem exists_of_toOption_map {f : α → β} {b : β} (h : x.toOption.map f = some b) :
    ∃ a, x = .ok a ∧ f a = b := by
  cases x with
  | error e => cases h
  | ok a => exact ⟨a, rfl, Option.some.inj h⟩

theorem Ends.value_of_eq_ok {a : α} (h : Ends value failure x) (hx : x = .ok a) : value a := by
  subst hx
  exact h

theorem Ends.failure_of_eq_error {e : ε} (h : Ends value failure x) (hx : x = .error e) :
    failure e := by
  subst hx
  exact h

theorem Ends.imp {value' : α → Prop} {failure' : ε → Prop} (h : Ends value failure x)
    (hvalue : ∀ a, value a → value' a) (hfailure : ∀ e, failure e → failure' e) :
    Ends value' failure' x := by
  cases x with
  | error e => exact hfailure e h
  | ok a => exact hvalue a h

/-- What follows a value ends as it does for every value of its kind. -/
theorem Ends.bind {value' : β → Prop} {f : α → Except ε β} (hx : Ends value failure x)
    (hf : ∀ a, value a → Ends value' failure (f a)) : Ends value' failure (x >>= f) := by
  cases x with
  | error e => exact hx
  | ok a => exact hf a hx

/-- Values one after the other. -/
theorem ends_mapM {value' : β → Prop} {f : α → Except ε β} {l : List α}
    (hf : ∀ a ∈ l, Ends value' failure (f a)) :
    Ends (fun bs : List β => ∀ b ∈ bs, value' b) failure (l.mapM f) := by
  induction l with
  | nil => exact fun b hb => nomatch hb
  | cons a rest ih =>
    obtain ⟨ha, hrest⟩ := List.forall_mem_cons.1 hf
    rw [List.mapM_cons]
    exact ha.bind fun b hb => (ih hrest).bind fun bs hbs => List.forall_mem_cons.2 ⟨hb, hbs⟩

theorem bind_eq_ok_iff {x : Except ε α} {f : α → Except ε β} {b : β} :
    (x >>= f) = .ok b ↔ ∃ a, x = .ok a ∧ f a = .ok b := by
  cases x with
  | error e => exact ⟨fun h => (nomatch h), fun ⟨_, h, _⟩ => (nomatch h)⟩
  | ok a => exact ⟨fun h => ⟨a, rfl, h⟩, fun ⟨_, h, hf⟩ => by cases h; exact hf⟩

/-- A first step without a value of its own has to pass. -/
theorem unit_bind_eq_ok_iff {x : Except ε Unit} {f : Unit → Except ε β} {b : β} :
    (x >>= f) = .ok b ↔ x = .ok () ∧ f () = .ok b := by
  rw [bind_eq_ok_iff]
  exact ⟨fun ⟨⟨⟩, h⟩ => h, fun h => ⟨(), h⟩⟩

/-- An error that the second step never makes is the error of the first. -/
theorem bind_eq_error_iff {x : Except ε α} {f : α → Except ε β} {e : ε}
    (hf : ∀ a, f a ≠ .error e) : (x >>= f) = .error e ↔ x = .error e := by
  cases x with
  | error e' => exact ⟨fun h => congrArg _ (Except.error.inj h), fun h => by cases h; rfl⟩
  | ok a => exact iff_of_false (hf a) fun h => nomatch h

/-- Values one after the other are the values of all, if all have one. -/
theorem mapM_eq_ok_iff {f : α → Except ε β} {l : List α} {bs : List β} :
    l.mapM f = .ok bs ↔
      (∀ a ∈ l, (f a).isOk = true) ∧ bs = l.filterMap fun a => (f a).toOption := by
  induction l generalizing bs with
  | nil =>
    constructor
    · intro h
      cases h
      exact ⟨fun a ha => (nomatch ha), rfl⟩
    · rintro ⟨-, rfl⟩
      rfl
  | cons a rest ih =>
    rw [List.mapM_cons, bind_eq_ok_iff, List.forall_mem_cons, List.filterMap_cons]
    simp only [bind_eq_ok_iff, ih]
    cases ha : f a with
    | error e =>
      constructor
      · rintro ⟨b, hb, -⟩
        cases hb
      · rintro ⟨⟨hok, -⟩, -⟩
        cases hok
    | ok b =>
      constructor
      · rintro ⟨b', hb, ds, ⟨hall, rfl⟩, h⟩
        cases hb
        cases h
        exact ⟨⟨rfl, hall⟩, rfl⟩
      · rintro ⟨⟨-, hall⟩, rfl⟩
        exact ⟨b, rfl, _, ⟨hall, rfl⟩, rfl⟩

end Backtest
