import AddressSpace.Proofs.Engine.Pools
import AddressSpace.Proofs.Pool.Local
/-!
# Operations on rows, run on an engine

What an operation on rows answers and what it makes of an engine is its effect and nothing else: it answers with the rows of the
effect, or fails as the effect does (`RowOperation.outcome_eq`), and the engine after it follows the effect
(`RowOperation.after_follows`).
-/

namespace AddressSpace

open AddressSpace.Action

variable {F : Family} {α : Type} {e e' : Engine} {stamp : Stamp} {user : Option String}

/-- The effect makes `e'` of the engine: it changes the pool of its family, and the supernets follow. -/
def Effect.Follows (d : Effect F) (stamp : Stamp) (user : Option String) (e e' : Engine) : Prop :=
  ∃ q, d.Made stamp user (e.pool F) q ∧ e' = Engine.followed F e q d.spans

/-- Rows that stay make nothing of an engine. -/
theorem Effect.follows_stay (h : e.Sound) (rows : List (Range F)) : (stay rows).Follows stamp user e e := by
  refine ⟨e.pool F, made_stay (h.pool F).toAtRest .., ?_⟩
  simp [Engine.followed, stay]

/-- An effect that supernets follow keeps the engine sound. -/
theorem Effect.Follows.sound {d : Effect F} (hd : d.Follows stamp user e e') (h : e.Sound) : e'.Sound := by
  obtain ⟨q, hmade, rfl⟩ := hd
  exact h.followed ⟨_, _, _, hmade.transition, hmade.became⟩

/-- An effect on an engine is made on the pool of its family. -/
theorem Effect.Follows.made {d : Effect F} (hd : d.Follows stamp user e e') : d.Made stamp user (e.pool F) (e'.pool F) := by
  obtain ⟨q, hmade, rfl⟩ := hd
  rw [Engine.followed, Engine.rangesChanged_pool, Engine.pool_withPool]
  exact hmade

namespace RowOperation

/-- Runs the operation. It answers with the rows that it has been about or has made. -/
def answer (stamp : Stamp) (user : Option String) : RowOperation F → Action Engine (List (Range F))
  | delete id => ([·]) <$> Engine.delete F stamp id user
  | reserve id org => ([·]) <$> Engine.reserve F stamp id org user
  | assign id org => ([·]) <$> Engine.assign F stamp id org user
  | recover id => ([·]) <$> Engine.recover F stamp id user
  | remark id userRemark adminRemark privileged => ([·]) <$> Engine.remark F stamp id userRemark adminRemark privileged
  | split id target => Engine.split F stamp id target user
  | splitAlong id plan => Engine.splitAlong stamp id plan user
  | merge ids target => ([·]) <$> Engine.merge F stamp ids target user

/-- The rows that the operation answers with, or its failure. -/
def outcome (stamp : Stamp) (user : Option String) (e : Engine) (op : RowOperation F) : Except Failure (List (Range F)) :=
  ((op.answer stamp user).run e).1

/-- The engine after the operation, whether it has failed or not. -/
def after (stamp : Stamp) (user : Option String) (e : Engine) (op : RowOperation F) : Engine :=
  ((op.answer stamp user).run e).2

/-- What becomes of the rows named. When the operation fails they stay. -/
def does (p : Pool F) (op : RowOperation F) : Effect F :=
  match op.effect p with
  | .ok d => d
  | .error _ => .stay []

/-- An operation that a pool decides ends on the engine as is decided. -/
theorem manage_decided {a : Action (Pool F) (Announced F α)} {x : Except Failure (Effect F)} {rows : α → List (Range F)}
    (ha : (e.pool F).Decided stamp user x rows a) :
    (Engine.manage F a).Ends e (fun v e' => ∃ d, x = .ok d ∧ rows v = d.answer stamp ∧ d.Follows stamp user e e')
      (fun f e' => x = .error f ∧ e' = e) := by
  refine (Engine.ends_manage a).2 (Ends.imp ha ?_ ?_)
  · intro out q hout
    obtain ⟨d, hd, hrows, hspans, hmade⟩ := hout
    exact ⟨d, hd, hrows, q, hmade, by rw [hspans]⟩
  · intro f q hf
    obtain ⟨hx, rfl⟩ := hf
    exact ⟨hx, Engine.withPool_pool F e⟩

/-- The operation ends as its effect has it, as long as the identifiers of new rows are new. -/
theorem answer_ends (h : e.Sound) (op : RowOperation F) (hfresh : stamp.Fresh (e.pool F).store.table (op.adds (e.pool F))) :
    (op.answer stamp user).Ends e
      (fun rows e' => ∃ d, op.effect (e.pool F) = .ok d ∧ rows = d.answer stamp ∧ d.Follows stamp user e e')
      (fun f e' => op.effect (e.pool F) = .error f ∧ e' = e) := by
  have hpool := h.pool F
  cases op with
  | delete id => exact ends_map .. |>.2 (manage_decided (Pool.delete_decided hpool id))
  | reserve id org => exact ends_map .. |>.2 (manage_decided (Pool.reserve_decided hpool id org))
  | assign id org => exact ends_map .. |>.2 (manage_decided (Pool.assign_decided hpool id org))
  | recover id => exact ends_map .. |>.2 (manage_decided (Pool.recover_decided hpool id))
  | remark id userRemark adminRemark privileged =>
    have hends := @Pool.remark_decided F (e.pool F) stamp user hpool id userRemark adminRemark privileged
    refine ends_map .. |>.2 (ends_on .. |>.2 (hends.imp ?_ ?_))
    · intro r q hr
      obtain ⟨d, hd, hrows, hspans, hmade⟩ := hr
      refine ⟨d, hd, hrows, q, hmade, ?_⟩
      rw [hspans, Engine.followed, Engine.rangesChanged_nil]
    · intro f q hf
      obtain ⟨hx, rfl⟩ := hf
      exact ⟨hx, Engine.withPool_pool F e⟩
  | split id target => exact manage_decided (Pool.split_decided hpool id target hfresh)
  | splitAlong id plan => exact manage_decided (Pool.splitAlong_decided hpool id plan hfresh)
  | merge ids target => exact ends_map .. |>.2 (manage_decided (Pool.merge_decided hpool ids target hfresh))

/-- With a fresh stamp, an operation on rows answers with what its effect says. -/
theorem outcome_eq (h : e.Sound) (op : RowOperation F) (hfresh : stamp.Fresh (e.pool F).store.table (op.adds (e.pool F))) :
    op.outcome stamp user e = (op.effect (e.pool F)).map fun d => d.answer stamp := by
  have hends := @answer_ends F e stamp user h op hfresh
  unfold outcome
  cases hrun : ((op.answer stamp user).run e).1 with
  | ok rows =>
    obtain ⟨d, hd, rfl, -⟩ := hends.ok_of_run (run_eq_ok hrun)
    rw [hd]
    rfl
  | error f =>
    obtain ⟨hf, -⟩ := hends.fail_of_run hrun
    rw [hf]
    rfl

/-- With a fresh stamp, an operation on rows leaves the engine that its effect makes. -/
theorem after_follows (h : e.Sound) (op : RowOperation F)
    (hfresh : stamp.Fresh (e.pool F).store.table (op.adds (e.pool F))) :
    (op.does (e.pool F)).Follows stamp user e (op.after stamp user e) := by
  refine Ends.state (q := fun e' => (op.does (e.pool F)).Follows stamp user e e') ((answer_ends h op hfresh).imp ?_ ?_)
  · intro rows e' hok
    obtain ⟨d, hd, -, hfollows⟩ := hok
    unfold does
    rw [hd]
    exact hfollows
  · intro f e' hfail
    obtain ⟨hf, rfl⟩ := hfail
    unfold does
    rw [hf]
    exact Effect.follows_stay h []

/-- The effect of an operation takes out and puts in nothing but the rows that the operation names and those that it adds. -/
theorem does_local {p : Pool F} (h : p.store.table.Valid) (op : RowOperation F) : (op.does p).Local op.names (op.adds p) := by
  unfold does
  cases hd : op.effect p with
  | ok d => exact effect_local h op hd
  | error f => exact Effect.local_stay []

end RowOperation

end AddressSpace
