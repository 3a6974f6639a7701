import AddressSpace.Proofs.Action
import AddressSpace.Proofs.Outcome
/-!
# Two runs side by side

`a.Paired b s t rel same` says that the action `a`, run from `s`, and the action `b`, run from `t`, end alike: both give values in
the relation `same`, or both fail for the same reason, and the states that they leave are in the relation `rel`. The rules take
two actions of one shape apart together, so that a relation which each step keeps is kept by the whole.
-/

namespace AddressSpace

variable {α β γ δ : Type} {same : α → β → Prop} {same' : γ → δ → Prop}

/-- Two lists look the same when their members do, one by one. -/
theorem map_eq_map_iff_forall₂ {f : α → γ} {g : β → γ} {xs : List α} {ys : List β} :
    xs.map f = ys.map g ↔ List.Forall₂ (fun x y => f x = g y) xs ys := by
  rw [← List.forall₂_eq_eq_eq, List.forall₂_map_left_iff, List.forall₂_map_right_iff]

/-- Two options look the same when both have no member, or members that do. -/
theorem rel_of_map_eq {f : α → γ} {g : β → γ} {x : Option α} {y : Option β} (h : x.map f = y.map g) :
    Option.Rel (fun x y => f x = g y) x y := by
  cases x with
  | none =>
    cases y with
    | none => exact .none
    | some y => cases h
  | some x =>
    cases y with
    | none => cases h
    | some y => exact .some (Option.some.inj h)

/-! ## Outcomes -/

/-- Two outcomes are values in relation, or one and the same failure. -/
inductive Agree (same : α → β → Prop) : Except Failure α → Except Failure β → Prop where
  | ok {x : α} {y : β} (h : same x y) : Agree same (.ok x) (.ok y)
  | error (e : Failure) : Agree same (.error e) (.error e)

namespace Agree

variable {x : Except Failure α} {y : Except Failure β}

theorem of_eq {x y : Except Failure α} (h : x = y) : Agree Eq x y := by
  subst h
  cases x with
  | ok a => exact .ok rfl
  | error e => exact .error e

theorem eq {x y : Except Failure α} (h : Agree Eq x y) : x = y := by
  cases h with
  | ok h => rw [h]
  | error e => rfl

/-- Outcomes that are used alike agree, if they agree on the way. -/
theorem bind {f : α → Except Failure γ} {g : β → Except Failure δ} (h : Agree same x y)
    (hf : ∀ a b, same a b → Agree same' (f a) (g b)) : Agree same' (x >>= f) (y >>= g) := by
  cases h with
  | ok h => exact hf _ _ h
  | error e => exact .error e

/-- Outcomes agree with their failures reworded alike. -/
theorem mapError (h : Agree same x y) (f : Failure → Failure) : Agree same (x.mapError f) (y.mapError f) := by
  cases h with
  | ok h => exact .ok h
  | error e => exact .error (f e)

/-- Lists whose members have outcomes that agree have outcomes that agree. -/
theorem mapM {f : γ → Except Failure α} {g : δ → Except Failure β} {xs : List γ} {ys : List δ}
    (h : List.Forall₂ (fun x y => Agree same (f x) (g y)) xs ys) : Agree (List.Forall₂ same) (xs.mapM f) (ys.mapM g) := by
  induction h with
  | nil => exact .ok .nil
  | cons hx _ ih =>
    rw [List.mapM_cons, List.mapM_cons]
    exact hx.bind fun _ _ ha => ih.bind fun _ _ has => .ok (.cons ha has)

end Agree

/-! ## Actions -/

namespace Action

variable {σ τ σ' τ' : Type} {s : σ} {t : τ} {rel : σ → τ → Prop}

/-- Two results are values in relation or one and the same failure, with states in relation. -/
inductive Ended (rel : σ → τ → Prop) (same : α → β → Prop) : EStateM.Result Failure σ α → EStateM.Result Failure τ β → Prop where
  | ok {x : α} {y : β} {s : σ} {t : τ} (h : same x y) (hrel : rel s t) : Ended rel same (.ok x s) (.ok y t)
  | error (e : Failure) {s : σ} {t : τ} (hrel : rel s t) : Ended rel same (.error e s) (.error e t)

/-- Run from `s` and `t`, the actions give values in relation or the same failure, and leave states in relation. -/
def Paired (a : Action σ α) (b : Action τ β) (s : σ) (t : τ) (rel : σ → τ → Prop) (same : α → β → Prop) : Prop :=
  Ended rel same (a s) (b t)

/-- How two runs end that are paired. -/
theorem Paired.run {a : Action σ α} {b : Action τ β} (h : a.Paired b s t rel same) :
    Agree same (a.run s).1 (b.run t).1 ∧ rel (a.run s).2 (b.run t).2 := by
  unfold Paired at h
  unfold Action.run
  generalize a s = x, b t = y at h
  cases h with
  | ok h hrel => exact ⟨.ok h, hrel⟩
  | error e hrel => exact ⟨.error e, hrel⟩

/-- Paired actions are paired under every weaker relation of their values. -/
theorem Paired.imp {a : Action σ α} {b : Action τ β} {same' : α → β → Prop} (h : a.Paired b s t rel same)
    (hsame : ∀ x y, same x y → same' x y) : a.Paired b s t rel same' := by
  unfold Paired at *
  generalize a s = x, b t = y at *
  cases h with
  | ok h hrel => exact .ok (hsame _ _ h) hrel
  | error e hrel => exact .error e hrel

/-! ## Rules -/

/-- An action ends as it does. -/
theorem paired_self (a : Action σ α) (s : σ) : a.Paired a s s Eq Eq := by
  unfold Paired
  cases a s with
  | ok x t => exact .ok rfl rfl
  | error e t => exact .error e rfl

theorem paired_pure {x : α} {y : β} (hrel : rel s t) (h : same x y) : (pure x : Action σ α).Paired (pure y) s t rel same :=
  .ok h hrel

theorem paired_throw (e : Failure) (hrel : rel s t) :
    (throw e : Action σ α).Paired (throw e : Action τ β) s t rel same := .error e hrel

theorem paired_set {s' : σ} {t' : τ} (h : rel s' t') :
    (set s' : Action σ PUnit).Paired (set t' : Action τ PUnit) s t rel Eq := .ok rfl h

theorem paired_modify {f : σ → σ} {g : τ → τ} (h : rel (f s) (g t)) :
    (modify f : Action σ PUnit).Paired (modify g : Action τ PUnit) s t rel Eq := .ok rfl h

/-- Outcomes that agree are paired. -/
theorem paired_ofExcept {x : Except Failure α} {y : Except Failure β} (hrel : rel s t) (h : Agree same x y) :
    (ofExcept x : Action σ α).Paired (ofExcept y : Action τ β) s t rel same := by
  cases h with
  | ok h => exact .ok h hrel
  | error e => exact .error e hrel

/-- Demands for values in relation are paired. -/
theorem paired_demand {x : Option α} {y : Option β} (e : Failure) (hrel : rel s t) (h : Option.Rel same x y) :
    (demand e x : Action σ α).Paired (demand e y : Action τ β) s t rel same := by
  cases h with
  | none => exact .error e hrel
  | some h => exact .ok h hrel

/-- The rest of two actions may rely on how their first steps have ended. -/
theorem Paired.bind_of_eq {a : Action σ α} {b : Action τ β} {f : α → Action σ γ} {g : β → Action τ δ}
    (h : a.Paired b s t rel same)
    (hf : ∀ x y s' t', a s = .ok x s' → b t = .ok y t' → same x y → rel s' t' → (f x).Paired (g y) s' t' rel same') :
    (a >>= f).Paired (b >>= g) s t rel same' := by
  unfold Paired at h ⊢
  show Ended rel same' (EStateM.bind a f s) (EStateM.bind b g t)
  unfold EStateM.bind
  generalize hx : a s = x, hy : b t = y at h
  cases h with
  | ok h hrel => exact hf _ _ _ _ hx hy h hrel
  | error e hrel => exact .error e hrel

/-- Sequences of paired actions are paired. -/
theorem Paired.bind {a : Action σ α} {b : Action τ β} {f : α → Action σ γ} {g : β → Action τ δ}
    (h : a.Paired b s t rel same)
    (hf : ∀ x y s' t', same x y → rel s' t' → (f x).Paired (g y) s' t' rel same') :
    (a >>= f).Paired (b >>= g) s t rel same' := h.bind_of_eq fun x y s' t' _ _ => hf x y s' t'

/-- Outcomes that depend on no state leave the states as they are. -/
theorem paired_ofExcept_bind {x : Except Failure α} {y : Except Failure β} {f : α → Action σ γ} {g : β → Action τ δ}
    (hrel : rel s t) (h : Agree same x y)
    (hf : ∀ a b, x = .ok a → y = .ok b → same a b → (f a).Paired (g b) s t rel same') :
    (ofExcept x >>= f).Paired (ofExcept y >>= g) s t rel same' := by
  cases h with
  | ok h => exact hf _ _ rfl rfl h
  | error e => exact .error e hrel

/-- Sequences that begin with outcomes that agree are paired, if they go on alike behind their values. -/
theorem paired_liftM_bind {x : Except Failure α} {y : Except Failure β} {f : α → Action σ γ} {g : β → Action τ δ}
    (hrel : rel s t) (h : Agree same x y)
    (hf : ∀ a b, x = .ok a → y = .ok b → same a b → (f a).Paired (g b) s t rel same') :
    (liftM x >>= f : Action σ γ).Paired (liftM y >>= g : Action τ δ) s t rel same' := paired_ofExcept_bind hrel h hf

/-- Both actions look at their states first. -/
theorem paired_get_bind {f : σ → Action σ γ} {g : τ → Action τ δ} (h : (f s).Paired (g t) s t rel same') :
    (get >>= f : Action σ γ).Paired (get >>= g) s t rel same' := h

/-- Paired actions are paired without their values. -/
theorem Paired.discard {a : Action σ α} {b : Action τ β} (h : a.Paired b s t rel same) :
    (Functor.discard a : Action σ Unit).Paired (Functor.discard b) s t rel Eq :=
  Paired.bind (f := fun _ => pure ()) (g := fun _ => pure ()) h fun _ _ _ _ _ hrel => paired_pure hrel rfl

/-- Choices under the same condition are paired when their branches are. -/
theorem paired_ite {c d : Prop} [Decidable c] [Decidable d] {a a' : Action σ α} {b b' : Action τ β} (hcd : c ↔ d)
    (h : c → a.Paired b s t rel same) (h' : ¬c → a'.Paired b' s t rel same) :
    (if c then a else a').Paired (if d then b else b') s t rel same := by
  by_cases hc : c
  · rw [if_pos hc, if_pos (hcd.1 hc)]
    exact h hc
  · rw [if_neg hc, if_neg (mt hcd.2 hc)]
    exact h' hc

/-- Paired actions on parts of the state are paired on the whole. -/
theorem Paired.on {part : σ → σ'} {withPart : σ → σ' → σ} {part' : τ → τ'} {withPart' : τ → τ' → τ} {a : Action σ' α}
    {b : Action τ' β} {rel' : σ' → τ' → Prop} (h : a.Paired b (part s) (part' t) rel' same)
    (hwith : ∀ s' t', rel' s' t' → rel (withPart s s') (withPart' t t')) :
    (on part withPart a).Paired (on part' withPart' b) s t rel same := by
  unfold Paired Action.on at *
  generalize a (part s) = x, b (part' t) = y at *
  cases h with
  | ok h hrel => exact .ok h (hwith _ _ hrel)
  | error e hrel => exact .error e (hwith _ _ hrel)

/-- Paired actions are paired with their failures reworded alike. -/
theorem Paired.rewording {a : Action σ α} {b : Action τ β} (h : a.Paired b s t rel same) (f : Failure → Failure) :
    (rewording f a).Paired (rewording f b) s t rel same := by
  unfold Paired Action.rewording at *
  generalize a s = x, b t = y at *
  cases h with
  | ok h hrel => exact .ok h hrel
  | error e hrel => exact .error (f e) hrel

/-- An action that does nothing is paired with one that succeeds and keeps to the relation. -/
theorem Ends.paired_pure_left {b : Action τ β} {x : α}
    (h : b.Ends t (fun y t' => same x y ∧ rel s t') fun _ _ => False) : (pure x : Action σ α).Paired b s t rel same := by
  unfold Ends at h
  unfold Paired
  cases hb : b t with
  | ok y t' =>
    rw [hb] at h
    exact .ok h.1 h.2
  | error e t' =>
    rw [hb] at h
    exact h.elim

/-- An action that cannot fail and keeps the relation is paired with doing nothing. -/
theorem Ends.paired_pure_right {a : Action σ α} {y : β}
    (h : a.Ends s (fun x s' => same x y ∧ rel s' t) fun _ _ => False) : a.Paired (pure y : Action τ β) s t rel same := by
  unfold Ends at h
  unfold Paired
  cases ha : a s with
  | ok x s' =>
    rw [ha] at h
    exact .ok h.1 h.2
  | error e s' =>
    rw [ha] at h
    exact h.elim

end Action

end AddressSpace
