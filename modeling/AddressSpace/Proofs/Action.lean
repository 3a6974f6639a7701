import AddressSpace.Action
/-!
# How actions end

`a.Ends s ok fail` says how the action `a` ends when it is run from the state `s`: it gives a value and a state with `ok`,
or a failure and a state with `fail`. There is one rule for each way in which actions are put together, so that the steps of
an action are followed by rewriting with the rules, and one statement says both what success has done and what failure has
left undone.
-/

namespace AddressSpace.Action

variable {σ τ α β : Type}

/-- Run from `s`, the action gives a value and a state with `ok`, or a failure and a state with `fail`. -/
def Ends (a : Action σ α) (s : σ) (ok : α → σ → Prop) (fail : Failure → σ → Prop) : Prop :=
  match a s with
  | .ok x t => ok x t
  | .error e t => fail e t

variable {ok : β → σ → Prop} {fail : Failure → σ → Prop} {s : σ}

/-! ## What an end says of a run -/

/-- How an action may end, one ending at a time. -/
theorem ends_iff {a : Action σ β} :
    a.Ends s ok fail ↔ (∀ x t, a s = .ok x t → ok x t) ∧ ∀ e t, a s = .error e t → fail e t := by
  unfold Ends
  cases a s <;> simp

/-- An action that ends in one way ends in every weaker one. -/
theorem Ends.imp {a : Action σ β} {ok' : β → σ → Prop} {fail' : Failure → σ → Prop} (h : a.Ends s ok fail)
    (hok : ∀ x t, ok x t → ok' x t) (hfail : ∀ e t, fail e t → fail' e t) : a.Ends s ok' fail' := by
  unfold Ends at *
  cases h' : a s with
  | ok x t => rw [h'] at h; exact hok x t h
  | error e t => rw [h'] at h; exact hfail e t h

/-- Where every ending is right, an action ends rightly. -/
theorem Ends.of_forall {a : Action σ β} (hok : ∀ x t, ok x t) (hfail : ∀ e t, fail e t) : a.Ends s ok fail :=
  ends_iff.2 ⟨fun x t _ => hok x t, fun e t _ => hfail e t⟩

/-- An action that gives a value gives a right one. -/
theorem Ends.ok_of_eq {a : Action σ β} (h : a.Ends s ok fail) {x : β} {t : σ} (hr : a s = .ok x t) : ok x t :=
  (ends_iff.1 h).1 x t hr

/-- A run that gives a value gives a right one. -/
theorem Ends.ok_of_run {a : Action σ β} (h : a.Ends s ok fail) {x : β} {t : σ} (hr : a.run s = (.ok x, t)) : ok x t := by
  unfold run at hr
  cases h' : a s with
  | ok y u => rw [h'] at hr; cases hr; exact h.ok_of_eq h'
  | error e u => rw [h'] at hr; cases hr

/-- A run that fails fails rightly. -/
theorem Ends.fail_of_run {a : Action σ β} (h : a.Ends s ok fail) {e : Failure} (hr : (a.run s).1 = .error e) :
    fail e (a.run s).2 := by
  unfold Ends at h
  unfold run at hr ⊢
  cases h' : a s with
  | ok y u => rw [h'] at hr; cases hr
  | error f u => rw [h'] at h hr; cases hr; exact h

/-- A run that gives a value is known by the value and the state that it leaves. -/
theorem run_eq_ok {a : Action σ β} {x : β} (h : (a.run s).1 = .ok x) : a.run s = (.ok x, (a.run s).2) := Prod.ext h rfl

/-- An action whose value is dropped leaves the same state. -/
theorem run_discard_state (a : Action σ β) (s : σ) : ((discard a).run s).2 = (a.run s).2 := by
  have hdiscard : (discard a) s = EStateM.map (fun _ => PUnit.unit) a s := rfl
  unfold run
  rw [hdiscard, EStateM.map]
  cases a s <;> rfl

/-- An action that does not fail gives a value. -/
theorem Ends.exists_run {a : Action σ β} (h : a.Ends s ok fun _ _ => False) : ∃ x t, a.run s = (.ok x, t) ∧ ok x t := by
  unfold Ends at h
  unfold run
  cases h' : a s with
  | ok x t => rw [h'] at h; exact ⟨x, t, rfl, h⟩
  | error e t => rw [h'] at h; exact h.elim

/-- An action that does not give a value fails. -/
theorem Ends.exists_error {a : Action σ β} (h : a.Ends s (fun _ _ => False) fail) :
    ∃ e t, a.run s = (.error e, t) ∧ fail e t := by
  unfold Ends at h
  unfold run
  cases h' : a s with
  | ok x t => rw [h'] at h; exact h.elim
  | error e t => rw [h'] at h; exact ⟨e, t, rfl, h⟩

/-- The state that an action leaves has what holds of it after success as well as after failure. -/
theorem Ends.state {a : Action σ β} {q : σ → Prop} (h : a.Ends s (fun _ t => q t) fun _ t => q t) : q (a.run s).2 := by
  unfold Ends at h
  unfold run
  cases h' : a s with
  | ok x t => rw [h'] at h; exact h
  | error e t => rw [h'] at h; exact h

/-- Two facts about the end of one run hold together. -/
theorem Ends.and {a : Action σ β} {ok' : β → σ → Prop} {fail' : Failure → σ → Prop} (h : a.Ends s ok fail)
    (h' : a.Ends s ok' fail') :
    a.Ends s (fun x t => ok x t ∧ ok' x t) fun e t => fail e t ∧ fail' e t := by
  unfold Ends at *
  cases hr : a s with
  | ok x t => rw [hr] at h h'; exact ⟨h, h'⟩
  | error e t => rw [hr] at h h'; exact ⟨h, h'⟩

/-- Run from `s`, the action gives a value. -/
def Succeeds (a : Action σ β) (s : σ) : Prop := a.Ends s (fun _ _ => True) fun _ _ => False

/-- Of an action that succeeds it does not matter how it would have failed. -/
theorem Ends.succeeded {a : Action σ β} {fail' : Failure → σ → Prop} (h : a.Ends s ok fail) (hs : a.Succeeds s) :
    a.Ends s ok fail' :=
  (h.and hs).imp (fun _ _ ht => ht.1) fun _ _ ht => ht.2.elim

/-! ## Rules -/

@[simp] theorem ends_pure (x : β) : (pure x : Action σ β).Ends s ok fail ↔ ok x s := Iff.rfl

@[simp] theorem ends_throw (e : Failure) : (throw e : Action σ β).Ends s ok fail ↔ fail e s := Iff.rfl

@[simp] theorem ends_get {ok : σ → σ → Prop} : (get : Action σ σ).Ends s ok fail ↔ ok s s := Iff.rfl

@[simp] theorem ends_set {ok : PUnit → σ → Prop} (t : σ) : (set t : Action σ PUnit).Ends s ok fail ↔ ok () t := Iff.rfl

@[simp] theorem ends_modify {ok : PUnit → σ → Prop} (f : σ → σ) :
    (modify f : Action σ PUnit).Ends s ok fail ↔ ok () (f s) := Iff.rfl

/-- A sequence ends as its second part does behind the first, or fails with the first. -/
@[simp] theorem ends_bind (a : Action σ α) (f : α → Action σ β) :
    (a >>= f).Ends s ok fail ↔ a.Ends s (fun x t => (f x).Ends t ok fail) fail := by
  unfold Ends
  show (match EStateM.bind a f s with | .ok x t => ok x t | .error e t => fail e t) ↔ _
  unfold EStateM.bind
  cases a s <;> rfl

/-- A mapped action ends with the images of the values. -/
@[simp] theorem ends_map {ok : β → σ → Prop} (f : α → β) (a : Action σ α) :
    (f <$> a).Ends s ok fail ↔ a.Ends s (fun x t => ok (f x) t) fail := by
  unfold Ends
  show (match EStateM.map f a s with | .ok x t => ok x t | .error e t => fail e t) ↔ _
  unfold EStateM.map
  cases a s <;> rfl

/-- An outcome ends as itself, with the state as it is. -/
@[simp] theorem ends_ofExcept (x : Except Failure β) :
    (ofExcept x : Action σ β).Ends s ok fail ↔ (∀ y, x = .ok y → ok y s) ∧ ∀ e, x = .error e → fail e s := by
  cases x <;> simp [ofExcept]

@[simp] theorem ends_liftM (x : Except Failure β) :
    (liftM x : Action σ β).Ends s ok fail ↔ (∀ y, x = .ok y → ok y s) ∧ ∀ e, x = .error e → fail e s :=
  ends_ofExcept x

/-- A demand ends with the value that is there, or with its failure. -/
@[simp] theorem ends_demand (f : Failure) (x : Option β) :
    (demand f x : Action σ β).Ends s ok fail ↔ (∀ y, x = some y → ok y s) ∧ (x = none → fail f s) := by
  cases x <;> simp [demand]

/-- An action on a part of the state ends as on that part alone. -/
@[simp] theorem ends_on (part : σ → τ) (withPart : σ → τ → σ) (a : Action τ β) :
    (on part withPart a).Ends s ok fail ↔
      a.Ends (part s) (fun x t => ok x (withPart s t)) (fun e t => fail e (withPart s t)) := by
  unfold Ends on
  cases a (part s) <;> rfl

/-- An action with reworded failures ends with these. -/
@[simp] theorem ends_rewording (f : Failure → Failure) (a : Action σ β) :
    (rewording f a).Ends s ok fail ↔ a.Ends s ok (fun e t => fail (f e) t) := by
  unfold Ends rewording
  cases a s <;> rfl

/-- A choice ends as the branch that is taken. -/
@[simp] theorem ends_ite (c : Prop) [Decidable c] (a b : Action σ β) :
    (if c then a else b).Ends s ok fail ↔ (c → a.Ends s ok fail) ∧ (¬c → b.Ends s ok fail) := by
  by_cases h : c <;> simp [h]

/-- What each action of a sequence keeps, the sequence keeps. -/
theorem ends_forM {q : σ → Prop} {f : α → Action σ PUnit} {xs : List α}
    (hf : ∀ x s, q s → (f x).Ends s (fun _ t => q t) fun _ _ => True) (s : σ) (hs : q s) :
    (xs.forM f).Ends s (fun _ t => q t) fun _ _ => True := by
  induction xs generalizing s with
  | nil => exact hs
  | cons x xs ih => exact ends_bind .. |>.2 ((hf x s hs).imp (fun _ t ht => ih t ht) fun _ _ h => h)

end AddressSpace.Action
