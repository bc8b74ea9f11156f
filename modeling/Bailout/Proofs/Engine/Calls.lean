import Bailout.Engine.Basic
import Bailout.Proofs.Compile.Workers
import Bailout.Proofs.Registry.History

/-!
# Calls on the registry

The operations of an engine that publish, install or discard, each with its arguments, so that a
sequence of them is a list. Compiling several functions takes the order in which the workers act.
-/

namespace Bailout.Engine

variable {e e' : Engine}

theorem record_eq_ok {id : DeoptId} {r : Record} : e.record id = .ok r ↔ e.record? id = some r := by
  unfold record
  cases e.record? id <;> simp

theorem record_eq_error {id : DeoptId} {err : EngineError} :
    e.record id = .error err ↔ e.record? id = none ∧ err = .unknownDeopt id := by
  unfold record
  cases e.record? id <;> simp [eq_comm]

theorem inRegistry_same {α : Type} {f : Registry → α × Registry} {a : α}
    (h : f e.registry.value = (a, e.registry.value)) : e.inRegistry f = (a, e) := by
  unfold inRegistry Section.update
  rw [h]

inductive Call where
  | install (unit : CompiledUnit)
  | compile (func : Function)
  | compileAll (funcs : List Function) (schedule : List Nat)
  | addRecord (record : Record)
  | discard (id : UnitId)

/-- What a call that succeeds gives back. -/
inductive Reply where
  | unit (id : UnitId)
  | units (results : List (Except EngineError UnitId))
  | record (id : DeoptId)
  | done

def perform (e : Engine) : Call → Except Fault (Except EngineError Reply × Engine)
  | .install u => return (e.install u).map (·.map .unit) id
  | .compile f => return (← e.compile f).map (·.map .unit) id
  | .compileAll fs schedule => return (← e.compileAllBy schedule fs).map (.ok ∘ .units) id
  | .addRecord r => return (e.addRecord r).map (·.map .record) id
  | .discard u => return (e.discard u).map (·.map fun _ => .done) id

theorem perform_eq_ok {c : Call} {reply : Except EngineError Reply}
    (h : e.perform c = .ok (reply, e')) :
    match c with
    | .install u => reply = (e.install u).1.map .unit ∧ e' = (e.install u).2
    | .compile f => ∃ result, e.compile f = .ok (result, e') ∧ reply = result.map .unit
    | .compileAll fs schedule =>
      ∃ results, e.compileAllBy schedule fs = .ok (results, e') ∧ reply = .ok (.units results)
    | .addRecord r => reply = (e.addRecord r).1.map .record ∧ e' = (e.addRecord r).2
    | .discard id => reply = (e.discard id).1.map (fun _ => .done) ∧ e' = (e.discard id).2 := by
  cases c with
  | install u =>
    injection h with h
    injection h with hr he
    exact ⟨hr.symm, he.symm⟩
  | compile f =>
    obtain ⟨⟨result, e₁⟩, hc, h⟩ := bind_eq_ok.1 h
    injection h with h
    injection h with hr he
    exact ⟨result, he ▸ hc, hr.symm⟩
  | compileAll fs schedule =>
    obtain ⟨⟨results, e₁⟩, hc, h⟩ := bind_eq_ok.1 h
    injection h with h
    injection h with hr he
    exact ⟨results, he ▸ hc, hr.symm⟩
  | addRecord r =>
    injection h with h
    injection h with hr he
    exact ⟨hr.symm, he.symm⟩
  | discard id =>
    injection h with h
    injection h with hr he
    exact ⟨hr.symm, he.symm⟩

theorem compile_eq_ok {f : Function} {result : Except EngineError UnitId}
    (h : e.compile f = .ok (result, e')) :
    ∃ nonce, (∃ err, f.compile e.config.compile e.nonce = .ok (.error err, nonce) ∧
        result = .error (.compile err) ∧ e' = { e with nonce }) ∨
      ∃ u, f.compile e.config.compile e.nonce = .ok (.ok u, nonce) ∧
        (result, e') = { e with nonce }.install u := by
  obtain ⟨⟨compiled, nonce⟩, hc, h⟩ := bind_eq_ok.1 h
  refine ⟨nonce, ?_⟩
  cases compiled with
  | error err =>
    injection h with h
    injection h with hr he
    exact .inl ⟨err, hc, hr.symm, he.symm⟩
  | ok u => exact .inr ⟨u, hc, (Except.ok.inj h).symm⟩

theorem footers_perform {c : Call} {reply : Except EngineError Reply}
    (h : e.perform c = .ok (reply, e')) : e'.footers = e.footers := by
  have h := perform_eq_ok h
  cases c with
  | install u =>
    obtain ⟨-, rfl⟩ := h
    rfl
  | compile f =>
    obtain ⟨result, hc, -⟩ := h
    rcases compile_eq_ok hc with ⟨nonce, ⟨_, -, -, rfl⟩ | ⟨u, -, hi⟩⟩
    · rfl
    · obtain ⟨-, rfl⟩ := Prod.mk.inj hi
      rfl
  | compileAll fs schedule =>
    obtain ⟨results, hc, -⟩ := h
    obtain ⟨built, -, hc⟩ := bind_eq_ok.1 hc
    obtain ⟨-, rfl⟩ := Prod.mk.inj (Except.ok.inj hc)
    rfl
  | addRecord r =>
    obtain ⟨-, rfl⟩ := h
    rfl
  | discard id =>
    obtain ⟨-, rfl⟩ := h
    rfl

/-! ## Errors -/

theorem inRegistry_error {α : Type} {f : Registry → Except EngineError α × Registry}
    (hf : ∀ {r err}, (f r).1 = .error err → (f r).2 = r) {err : EngineError}
    (h : (e.inRegistry f).1 = .error err) : (e.inRegistry f).2 = e := by
  have hsame : f e.registry.value = ((f e.registry.value).1, e.registry.value) :=
    Prod.ext rfl (hf h)
  rw [inRegistry_same hsame]

/-- A call that returns an error leaves the engine alone; compiling has drawn nonces. -/
theorem perform_error {c : Call} {err : EngineError} (h : e.perform c = .ok (.error err, e')) :
    match c with
    | .compile _ => ∃ nonce, e' = { e with nonce }
    | _ => e' = e := by
  have h := perform_eq_ok h
  cases c with
  | install u =>
    obtain ⟨hr, rfl⟩ := h
    exact inRegistry_error Registry.install_error (error_eq_map.1 hr)
  | compile f =>
    obtain ⟨result, hc, hr⟩ := h
    rcases compile_eq_ok hc with ⟨nonce, ⟨_, -, -, rfl⟩ | ⟨u, -, hi⟩⟩
    · exact ⟨nonce, rfl⟩
    · obtain ⟨rfl, rfl⟩ := Prod.mk.inj hi
      exact ⟨nonce, inRegistry_error Registry.install_error (error_eq_map.1 hr)⟩
  | compileAll fs schedule =>
    obtain ⟨results, -, hr⟩ := h
    cases hr
  | addRecord r =>
    obtain ⟨hr, rfl⟩ := h
    exact inRegistry_error Registry.publish_error (error_eq_map.1 hr)
  | discard id =>
    obtain ⟨hr, rfl⟩ := h
    exact inRegistry_error Registry.discard_error (error_eq_map.1 hr)

end Bailout.Engine
