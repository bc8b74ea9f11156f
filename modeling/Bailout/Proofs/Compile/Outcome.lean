import Bailout.Proofs.Compile

/-!
# Compiling, whatever the nonces

Nonces name records and do nothing else. `Function.outcome` is what compiling a function gives apart from
them, and `compile_outcome` says that it gives this from any nonce. `Function.rest` is what is still to
come once some records are built, under whatever nonces.
-/

namespace Bailout

/-- A record without its nonce. -/
def Record.anonymous (r : Record) : Record := { r with nonce := 0 }

/-- A unit without the nonces of its records. -/
def CompiledUnit.anonymous (u : CompiledUnit) : CompiledUnit :=
  { u with records := u.records.map Record.anonymous }

/-! ## Locations -/

/-- The layout for some registers. -/
def Layout.plan (regs : List Reg) (settings : Settings) (spillAll : Bool) :
    Except Fault (Except CompileError Layout) := do
  if settings.slotSize = 0 ∨ settings.slotSize % wordSize ≠ 0 then
    return .error (.unsupportedLocation (.slotSize settings.slotSize))
  let budget := if spillAll then 0 else settings.registerBudget
  if 256 < budget then return .error (.unsupportedLocation (.budget budget))
  match ← placeAll budget settings.slotSize {} regs with
  | .error e => return .error e
  | .ok l =>
    return .ok { l with frameSize := ← Checked.size .multiply (l.spillSlots * settings.slotSize) }

/-- Locations are assigned by the registers alone. -/
theorem Layout.assign_eq_plan (records : List Record) (settings : Settings) (spillAll : Bool) :
    assign records settings spillAll =
      (·.map fun l => (l, records.map l.fill)) <$> plan (recovered records) settings spillAll := by
  unfold assign plan
  by_cases hsize : settings.slotSize = 0 ∨ settings.slotSize % wordSize ≠ 0
  · rw [if_pos hsize, if_pos hsize]
    rfl
  · rw [if_neg hsize, if_neg hsize]
    dsimp only
    by_cases hbudget : 256 < if spillAll then 0 else settings.registerBudget
    · rw [if_pos hbudget, if_pos hbudget]
      rfl
    · rw [if_neg hbudget, if_neg hbudget]
      unfold recovered
      cases placeAll _ settings.slotSize {} (records.flatMap fun r => r.live.map (·.reg)) with
      | error e => rfl
      | ok placed =>
        cases placed with
        | error e => rfl
        | ok l =>
          cases hframe : Checked.size .multiply (l.spillSlots * settings.slotSize) with
          | error e => simp [hframe]
          | ok frameSize => simp [hframe, Except.map]

theorem Layout.recovered_anonymous (records : List Record) :
    recovered (records.map Record.anonymous) = recovered records := by
  unfold recovered
  rw [List.flatMap_map]
  rfl

theorem Layout.anonymous_fill (l : Layout) (r : Record) : (l.fill r).anonymous = l.fill r.anonymous := rfl

theorem Layout.map_anonymous_fill (l : Layout) (records : List Record) :
    (records.map l.fill).map Record.anonymous = (records.map Record.anonymous).map l.fill := by
  simp only [List.map_map]
  exact List.map_congr_left fun r _ => l.anonymous_fill r

namespace Function

variable {f : Function} {settings : Settings}

theorem buildRecord_zero (f : Function) (i : Instr) (nonce : Nat) :
    f.buildRecord i 0 = (·.map Record.anonymous) <$> f.buildRecord i nonce := by
  cases hfs : i.frameState with
  | none =>
    unfold buildRecord
    rw [hfs]
    rfl
  | some fs =>
    rw [buildRecord_eq 0 hfs, buildRecord_eq nonce hfs]
    cases f.capture i with
    | error e => rfl
    | ok captured =>
      cases fs.frames.mapM (f.frameRecord (LiveReg.distinct i.live)) with
      | error e => rfl
      | ok frames => rfl

theorem finish_map_anonymous (f : Function) (settings : Settings) (records : List Record) :
    (·.map CompiledUnit.anonymous) <$> f.finish settings (records.map Record.anonymous) =
      (·.map CompiledUnit.anonymous) <$> f.finish settings records := by
  unfold finish
  rw [Layout.assign_eq_plan, Layout.assign_eq_plan, Layout.recovered_anonymous]
  cases Layout.plan (Layout.recovered records) settings f.code.isGeneratorLike with
  | error e => rfl
  | ok planned =>
    cases planned with
    | error e => rfl
    | ok l =>
      have htwice : (records.map Record.anonymous).map Record.anonymous =
          records.map Record.anonymous := by
        rw [List.map_map]
        rfl
      have hfill : ((records.map Record.anonymous).map l.fill).map Record.anonymous =
          (records.map l.fill).map Record.anonymous := by
        rw [l.map_anonymous_fill, l.map_anonymous_fill, htwice]
      show Except.ok (Except.ok (CompiledUnit.mk _ _ _ _ _)) = _
      rw [hfill]
      rfl

theorem finish_congr {records records' : List Record}
    (h : records.map Record.anonymous = records'.map Record.anonymous) :
    (·.map CompiledUnit.anonymous) <$> f.finish settings records =
      (·.map CompiledUnit.anonymous) <$> f.finish settings records' := by
  rw [← f.finish_map_anonymous, h, f.finish_map_anonymous]

/-! ## Outcomes -/

/-- What is still to come, without nonces, once some records are built and some sites are to go. -/
def rest (f : Function) (settings : Settings) :
    List Site → List Record → Except Fault (Except CompileError CompiledUnit)
  | [], done => (·.map CompiledUnit.anonymous) <$> f.finish settings done
  | s :: todo, done => do
    match ← f.buildRecord (← f.instr s) 0 with
    | .error e => return .error e
    | .ok r => f.rest settings todo (done ++ [r])

theorem rest_cons (f : Function) (settings : Settings) (s : Site) (todo : List Site)
    (done : List Record) :
    f.rest settings (s :: todo) done =
      (f.instr s >>= fun i => f.buildRecord i 0 >>= fun built =>
        match built with
        | .error e => .ok (.error e)
        | .ok r => f.rest settings todo (done ++ [r])) := rfl

theorem rest_congr {todo : List Site} {done done' : List Record}
    (h : done.map Record.anonymous = done'.map Record.anonymous) :
    f.rest settings todo done = f.rest settings todo done' := by
  induction todo generalizing done done' with
  | nil => exact finish_congr h
  | cons s todo ih =>
    rw [rest_cons, rest_cons]
    cases f.instr s with
    | error e => rfl
    | ok i =>
      rw [ok_bind, ok_bind]
      cases f.buildRecord i 0 with
      | error e => rfl
      | ok built =>
        cases built with
        | error e => rfl
        | ok r => exact ih (by rw [List.map_append, List.map_append, h])

theorem rest_cons_ok {s : Site} {i : Instr} {nonce : Nat} {r : Record} (hi : f.instr s = .ok i)
    (hr : f.buildRecord i nonce = .ok (.ok r)) (todo : List Site) (done : List Record) :
    f.rest settings (s :: todo) done = f.rest settings todo (done ++ [r]) := by
  have hzero : f.buildRecord i 0 = .ok (.ok r.anonymous) := by
    rw [f.buildRecord_zero i nonce, hr]
    rfl
  rw [rest_cons, hi, ok_bind, hzero, ok_bind]
  refine rest_congr ?_
  rw [List.map_append, List.map_append]
  rfl

theorem rest_cons_error {s : Site} {i : Instr} {nonce : Nat} {e : CompileError} (hi : f.instr s = .ok i)
    (hr : f.buildRecord i nonce = .ok (.error e)) (todo : List Site) (done : List Record) :
    f.rest settings (s :: todo) done = .ok (.error e) := by
  have hzero : f.buildRecord i 0 = .ok (.error e) := by
    rw [f.buildRecord_zero i nonce, hr]
    rfl
  rw [rest_cons, hi, ok_bind, hzero, ok_bind]

theorem rest_cons_fault {s : Site} (nonce : Nat) {fault : Fault}
    (h : (f.instr s >>= fun i => f.buildRecord i nonce) = .error fault) (todo : List Site)
    (done : List Record) : f.rest settings (s :: todo) done = .error fault := by
  rw [rest_cons]
  cases hi : f.instr s with
  | error e => simpa [hi] using h
  | ok i =>
    rw [hi, ok_bind] at h
    rw [ok_bind, f.buildRecord_zero i nonce, h]
    rfl

/-- What compiling gives, without nonces. -/
def outcome (f : Function) (settings : Settings) : Except Fault (Except CompileError CompiledUnit) :=
  match f.precheck settings with
  | .error e => .ok (.error e)
  | .ok () => f.rest settings f.deoptSites []

theorem buildRecords_rest (f : Function) (settings : Settings) (sites : List Site) (done : List Record)
    (nonce : Nat) :
    (f.buildRecords sites nonce >>= fun p =>
      match p.1 with
      | .error e => .ok (.error e)
      | .ok records => (·.map CompiledUnit.anonymous) <$> f.finish settings (done ++ records)) =
      f.rest settings sites done := by
  induction sites generalizing nonce done with
  | nil => simp [buildRecords, rest]
  | cons s sites ih =>
    unfold buildRecords
    cases hi : f.instr s with
    | error e =>
      rw [rest_cons_fault nonce (by rw [hi]; rfl)]
      rfl
    | ok i =>
      rw [ok_bind]
      cases hr : f.buildRecord i nonce with
      | error e =>
        rw [rest_cons_fault nonce (by rw [hi, ok_bind, hr])]
        rfl
      | ok built =>
        cases built with
        | error e =>
          rw [rest_cons_error hi hr]
          rfl
        | ok r =>
          rw [rest_cons_ok hi hr, ← ih (done ++ [r]) (nonce + 1), ok_bind]
          cases f.buildRecords sites (nonce + 1) with
          | error e => rfl
          | ok p =>
            obtain ⟨result, n⟩ := p
            cases result with
            | error e => rfl
            | ok records =>
              show _ <$> f.finish settings (done ++ r :: records) = _
              rw [← List.singleton_append, ← List.append_assoc]
              rfl

/-- **Compiling gives the outcome**, from whatever nonce. -/
theorem compile_outcome (f : Function) (settings : Settings) (nonce : Nat) :
    (fun p => p.1.map CompiledUnit.anonymous) <$> f.compile settings nonce = f.outcome settings := by
  unfold compile outcome
  cases f.precheck settings with
  | error e => rfl
  | ok =>
    rw [← f.buildRecords_rest settings f.deoptSites [] nonce]
    cases f.buildRecords f.deoptSites nonce with
    | error e => rfl
    | ok p =>
      obtain ⟨result, n⟩ := p
      cases result with
      | error e => rfl
      | ok records =>
        show _ <$> (f.finish settings records >>= fun finished => pure (finished, n)) =
          _ <$> f.finish settings records
        cases f.finish settings records with
        | error e => rfl
        | ok finished => rfl

theorem compile_of_outcome {o : Except CompileError CompiledUnit}
    (h : f.outcome settings = .ok (o.map CompiledUnit.anonymous)) (nonce : Nat) :
    ∃ result last, f.compile settings nonce = .ok (result, last) ∧
      result.map CompiledUnit.anonymous = o.map CompiledUnit.anonymous := by
  rw [← f.compile_outcome settings nonce] at h
  obtain ⟨⟨result, last⟩, hc, heq⟩ := map_eq_ok.1 h
  exact ⟨result, last, hc, heq⟩

end Function

end Bailout
