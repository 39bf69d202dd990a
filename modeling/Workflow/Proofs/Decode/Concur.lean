import Mathlib.Data.List.Forall2
import Workflow.Decode.Error

/-!
# Attempts that concur

Two attempts concur if both fail, with whatever errors, or both succeed with values that are related.
What is made of attempts that concur concurs, step by step and along lists, and steps that can be
interchanged can be made in any order.
-/

namespace Workflow

/-- Where a chain comes out well, its first link has. -/
theorem ok_of_bind {ε α β : Type} {first : Except ε α} {next : α → Except ε β} {value : β}
    (h : (first >>= next) = .ok value) : ∃ between, first = .ok between ∧ next between = .ok value := by
  cases first with
  | error error => cases h
  | ok between => exact ⟨between, rfl, h⟩

theorem ok_of_map {ε α β : Type} {first : Except ε α} {f : α → β} {value : β}
    (h : first.map f = .ok value) : ∃ between, first = .ok between ∧ f between = value := by
  cases first with
  | error error => cases h
  | ok between => exact ⟨between, rfl, Except.ok.inj h⟩

/-- Both attempts fail, or both succeed with related values. -/
inductive Concur {α β : Type} (R : α → β → Prop) :
    Except DecodeError α → Except DecodeError β → Prop
  | ok {value : α} {other : β} (h : R value other) : Concur R (.ok value) (.ok other)
  | error (error other : DecodeError) : Concur R (.error error) (.error other)

namespace Concur

variable {α β γ δ : Type} {R : α → β → Prop} {S : γ → δ → Prop}

theorem refl (attempt : Except DecodeError α) : Concur (· = ·) attempt attempt := by
  cases attempt with
  | ok value => exact .ok rfl
  | error error => exact .error error error

theorem symm {first second : Except DecodeError α} (h : Concur (· = ·) first second) :
    Concur (· = ·) second first := by
  cases h with
  | ok heq => exact .ok heq.symm
  | error error other => exact .error other error

theorem trans {first second third : Except DecodeError α} (h : Concur (· = ·) first second)
    (hthird : Concur (· = ·) second third) : Concur (· = ·) first third := by
  cases h with
  | ok heq => rwa [heq]
  | error error other =>
      cases hthird with
      | error _ last => exact .error error last

/-- Attempts that concur come out well together. -/
theorem eq_ok_iff {attempt other : Except DecodeError α} (h : Concur (· = ·) attempt other)
    {result : α} : attempt = .ok result ↔ other = .ok result := by
  cases h with
  | ok heq => rw [heq]
  | error error other => exact ⟨fun heq => (nomatch heq), fun heq => (nomatch heq)⟩

theorem bind {first : Except DecodeError α} {second : Except DecodeError β}
    {next : α → Except DecodeError γ} {other : β → Except DecodeError δ} (h : Concur R first second)
    (hnext : ∀ value result, R value result → Concur S (next value) (other result)) :
    Concur S (first >>= next) (second >>= other) := by
  cases h with
  | ok hvalue => exact hnext _ _ hvalue
  | error error other => exact .error error other

/-- The same attempt with continuations that concur. -/
theorem bind_self {attempt : Except DecodeError α} {next : α → Except DecodeError γ}
    {other : α → Except DecodeError δ} (hnext : ∀ value, Concur S (next value) (other value)) :
    Concur S (attempt >>= next) (attempt >>= other) :=
  (refl attempt).bind fun value _ heq => heq ▸ hnext value

theorem map {first : Except DecodeError α} {second : Except DecodeError β} (h : Concur R first second)
    {f : α → γ} {g : β → δ} (hmap : ∀ value other, R value other → S (f value) (g other)) :
    Concur S (first.map f) (second.map g) := by
  cases h with
  | ok hvalue => exact .ok (hmap _ _ hvalue)
  | error error other => exact .error error other

/-- Two attempts that change a state in places of their own can be made in any order. -/
theorem map_comm {first : Except DecodeError α} {second : Except DecodeError β} (put : γ → α → γ)
    (other : γ → β → γ) (state : γ)
    (h : ∀ value result, other (put state value) result = put (other state result) value) :
    Concur (· = ·) (first.map (put state) >>= fun state => second.map (other state))
      (second.map (other state) >>= fun state => first.map (put state)) := by
  cases first with
  | error error =>
      cases second with
      | error other => exact .error error other
      | ok result => exact .error error error
  | ok value =>
      cases second with
      | error other => exact .error other other
      | ok result => exact .ok (h value result)

theorem mapM {ι κ : Type} {f : ι → Except DecodeError α} {g : κ → Except DecodeError β} {xs : List ι}
    {ys : List κ} (h : List.Forall₂ (fun x y => Concur R (f x) (g y)) xs ys) :
    Concur (List.Forall₂ R) (xs.mapM f) (ys.mapM g) := by
  induction h with
  | nil => exact .ok .nil
  | cons hhead _ ih =>
      rw [List.mapM_cons, List.mapM_cons]
      exact hhead.bind fun _ _ hvalue => ih.bind fun _ _ hvalues => .ok (.cons hvalue hvalues)

theorem foldlM {ι κ : Type} {step : α → ι → Except DecodeError α}
    {other : α → κ → Except DecodeError α} {xs : List ι} {ys : List κ}
    (h : List.Forall₂ (fun x y => ∀ state, Concur (· = ·) (step state x) (other state y)) xs ys)
    (state : α) : Concur (· = ·) (xs.foldlM step state) (ys.foldlM other state) := by
  induction h generalizing state with
  | nil => exact .ok rfl
  | cons hhead _ ih =>
      rw [List.foldlM_cons, List.foldlM_cons]
      exact (hhead state).bind fun value _ heq => heq ▸ ih value

/-- Two steps that may change places. -/
def Interchange {ι : Type} (step : α → ι → Except DecodeError α) (x y : ι) : Prop :=
  ∀ state, Concur (· = ·) (step state x >>= fun state => step state y)
    (step state y >>= fun state => step state x)

/-- Steps of which any two may change places are made in any order. -/
theorem foldlM_of_perm {ι : Type} {step : α → ι → Except DecodeError α} {xs ys : List ι}
    (hperm : xs.Perm ys) (hsteps : xs.Pairwise (Interchange step)) (state : α) :
    Concur (· = ·) (xs.foldlM step state) (ys.foldlM step state) := by
  induction hperm generalizing state with
  | nil => exact refl _
  | cons x _ ih =>
      rw [List.foldlM_cons, List.foldlM_cons]
      exact bind_self (ih hsteps.of_cons)
  | swap x y rest =>
      have hswap : Interchange step y x := List.rel_of_pairwise_cons hsteps List.mem_cons_self
      simp only [List.foldlM_cons, ← bind_assoc]
      exact (hswap state).bind fun value _ heq => heq ▸ refl _
  | trans hfirst _ ihfirst ihsecond =>
      have hsymm : ∀ {x y}, Interchange step x y → Interchange step y x := fun h state => (h state).symm
      exact (ihfirst hsteps state).trans (ihsecond ((hfirst.pairwise_iff hsymm).mp hsteps) state)

end Concur

end Workflow
