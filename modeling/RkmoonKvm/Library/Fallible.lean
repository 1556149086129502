import Mathlib.Data.List.Range

/-! Actions on a state that may end with an error, and keep what they did before it. -/

structure Fallible (S E A : Type) where
  run : S → Except E A × S

namespace Fallible

variable {S E A B : Type}

def andThen (m : Fallible S E A) (f : A → Fallible S E B) : Fallible S E B where
  run s :=
    match m.run s with
    | (.ok a, t) => (f a).run t
    | (.error e, t) => (.error e, t)

instance : Monad (Fallible S E) where
  pure a := ⟨fun s => (.ok a, s)⟩
  bind := andThen

def fail (e : E) : Fallible S E A := ⟨fun s => (.error e, s)⟩

def demand (c : Prop) [Decidable c] (e : E) : Fallible S E Unit := if c then pure () else fail e

def lift (r : Except E A) : Fallible S E A := ⟨fun s => (r, s)⟩

def reads (f : S → A) : Fallible S E A := ⟨fun s => (.ok (f s), s)⟩

def update (f : S → S) : Fallible S E Unit := ⟨fun s => (.ok (), f s)⟩

/-- What the handler does, begins where the error left the state. -/
def rescue (m : Fallible S E A) (handler : E → Fallible S E A) : Fallible S E A where
  run s :=
    match m.run s with
    | (.ok a, t) => (.ok a, t)
    | (.error e, t) => (handler e).run t

def each (body : A → Fallible S E Unit) : List A → Fallible S E Unit
  | [] => pure ()
  | a :: as => do
    body a
    each body as

variable {m : Fallible S E A} {f : A → Fallible S E B} {s t : S} {a : A} {b : B} {e : E}

@[simp] theorem run_pure (a : A) (s : S) : (pure a : Fallible S E A).run s = (.ok a, s) := rfl

theorem run_bind (m : Fallible S E A) (f : A → Fallible S E B) (s : S) : (m >>= f).run s =
    match m.run s with
    | (.ok a, t) => (f a).run t
    | (.error e, t) => (.error e, t) := rfl

theorem bind_ok (first : m.run s = (.ok a, t)) : (m >>= f).run s = (f a).run t := by
  rw [run_bind, first]

theorem bind_error (first : m.run s = (.error e, t)) : (m >>= f).run s = (.error e, t) := by
  rw [run_bind, first]

theorem rescue_ok {handler : E → Fallible S E A} (returned : m.run s = (.ok a, t)) :
    (rescue m handler).run s = (.ok a, t) := by
  simp only [rescue, returned]

theorem rescue_error {handler : E → Fallible S E A} (raised : m.run s = (.error e, t)) :
    (rescue m handler).run s = (handler e).run t := by
  simp only [rescue, raised]

@[simp] theorem pure_bind (a : A) (f : A → Fallible S E B) : (pure a >>= f) = f a := rfl

@[simp] theorem reads_bind (g : S → A) (f : A → Fallible S E B) (s : S) :
    (reads g >>= f).run s = (f (g s)).run s := rfl

@[simp] theorem update_bind (g : S → S) (f : Unit → Fallible S E B) (s : S) :
    (update g >>= f).run s = (f ()).run (g s) := rfl

theorem bind_returned {u : S} : (m >>= f).run s = (.ok b, u) ↔
    ∃ a t, m.run s = (.ok a, t) ∧ (f a).run t = (.ok b, u) := by
  constructor
  · intro returned
    cases first : m.run s with
    | mk r t =>
      cases r with
      | ok a => exact ⟨a, t, rfl, (bind_ok first).symm.trans returned⟩
      | error e => cases (bind_error first).symm.trans returned
  · rintro ⟨a, t, first, next⟩
    rw [bind_ok first, next]

theorem demand_true {c : Prop} [Decidable c] (h : c) (e : E) :
    (demand c e : Fallible S E Unit) = pure () := if_pos h

theorem demand_false {c : Prop} [Decidable c] (h : ¬ c) (e : E) :
    (demand c e : Fallible S E Unit) = fail e := if_neg h

theorem demand_bind_returned {c : Prop} [Decidable c] {f : Unit → Fallible S E B} {u : S} :
    (demand c e >>= f).run s = (.ok b, u) ↔ c ∧ (f ()).run s = (.ok b, u) := by
  by_cases h : c
  · rw [demand_true h, pure_bind]
    exact (and_iff_right h).symm
  · rw [demand_false h]
    exact iff_of_false nofun fun both => h both.1

theorem lift_bind_returned {r : Except E A} {u : S} :
    (lift r >>= f).run s = (.ok b, u) ↔ ∃ a, r = .ok a ∧ (f a).run s = (.ok b, u) := by
  cases r with
  | ok x =>
    refine ⟨fun returned => ⟨x, rfl, returned⟩, ?_⟩
    rintro ⟨a, same, returned⟩
    cases same
    exact returned
  | error e => exact iff_of_false nofun fun ⟨_, same, _⟩ => nomatch same

def Keeps (I : S → Prop) (m : Fallible S E A) : Prop := ∀ s, I s → I (m.run s).2

section keeps
variable {I : S → Prop}

theorem keeps_pure (a : A) : Keeps I (pure a : Fallible S E A) := fun _ => id

theorem keeps_fail (e : E) : Keeps I (fail e : Fallible S E A) := fun _ => id

theorem keeps_lift (r : Except E A) : Keeps I (lift r : Fallible S E A) := fun _ => id

theorem keeps_reads (g : S → A) : Keeps I (reads g : Fallible S E A) := fun _ => id

theorem keeps_update {g : S → S} (kept : ∀ s, I s → I (g s)) : Keeps I (update g : Fallible S E Unit) :=
  kept

theorem keeps_demand (c : Prop) [Decidable c] (e : E) : Keeps I (demand c e : Fallible S E Unit) := by
  by_cases h : c
  · rw [demand_true h]
    exact keeps_pure ()
  · rw [demand_false h]
    exact keeps_fail e

theorem keeps_bind (first : Keeps I m) (next : ∀ a, Keeps I (f a)) : Keeps I (m >>= f) := by
  intro s start
  have middle := first s start
  cases ran : m.run s with
  | mk r t =>
    rw [ran] at middle
    cases r with
    | ok a =>
      rw [bind_ok ran]
      exact next a t middle
    | error e =>
      rw [bind_error ran]
      exact middle

end keeps

theorem each_range_returned {body : Nat → Fallible S E Unit} (I : Nat → S → Prop)
    (step : ∀ k s t, I k s → (body k).run s = (.ok (), t) → I (k + 1) t) {first count : Nat}
    (begun : I first s) (returned : (each body (List.range' first count)).run s = (.ok (), t)) :
    I (first + count) t := by
  induction count generalizing first s with
  | zero =>
    cases returned
    exact begun
  | succ count ih =>
    rw [List.range'_succ] at returned
    obtain ⟨_, u, one, rest⟩ := bind_returned.mp returned
    have next := ih (step first s u begun one) rest
    rwa [Nat.add_right_comm] at next

end Fallible
