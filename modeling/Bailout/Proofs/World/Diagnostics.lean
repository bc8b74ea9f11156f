import Bailout.Proofs.World.Calls

/-!
# Diagnostics

Reporting exits and counting them are settings of their own. `w.diagnosed d stats` is a world with other
settings and counters, and `w.silent` is the world that neither reports nor counts. A call does what the
silent call does and then reports (`call_diagnosed`); a report on a record that has no frame is a fault,
and it is the only trace that the settings leave.

`transcript_diagnostics` says so of two runs. They answer alike and leave the same worlds, counters apart,
unless only one of them reports and the calls leave compiled code at a record without frames; then the
one that reports ends there.
-/

namespace Bailout

/-- The setting that neither reports nor counts. -/
def DeoptSettings.silent : DeoptSettings := { logDeopts := false, collectStats := false }

/-- The report on a record names its innermost frame. -/
def DeoptSettings.report (d : DeoptSettings) (r : Record) : Except Fault Unit :=
  if d.logDeopts ∧ r.frames = [] then .error (.noFrames r.nonce) else .ok ()

namespace Engine

/-- The engine with other settings for leaving compiled code and other counters. -/
def diagnosed (e : Engine) (d : DeoptSettings) (stats : Stats) : Engine :=
  { e with config := { e.config with deopt := d }, stats }

def silent (e : Engine) : Engine := e.diagnosed .silent {}

variable (e : Engine) (d : DeoptSettings) (stats : Stats)

theorem count_diagnosed (f : Stats → Stats) :
    ∃ stats', (e.diagnosed d stats).count f = e.diagnosed d stats' := by
  unfold count
  split
  · exact ⟨f stats, rfl⟩
  · exact ⟨stats, rfl⟩

/-- An exit is counted and reported, which changes nothing but the counters. -/
theorem recordDeopt_diagnosed (r : Record) (n : Nat) :
    ∃ stats', (e.diagnosed d stats).recordDeopt r n =
      (fun _ => e.diagnosed d stats') <$> d.report r := by
  unfold recordDeopt
  obtain ⟨stats', hcount⟩ := e.count_diagnosed d stats fun s =>
    { s.record r.reason with framesMaterialized := (s.record r.reason).framesMaterialized + n }
  refine ⟨stats', ?_⟩
  simp only [hcount]
  show (if d.logDeopts then _ else _) = _
  unfold DeoptSettings.report
  by_cases hlog : d.logDeopts
  · rw [if_pos hlog]
    cases hlast : r.frames.getLast? with
    | none =>
      rw [if_pos ⟨hlog, List.getLast?_eq_none_iff.1 hlast⟩, Record.innermost, hlast]
      rfl
    | some fr =>
      have hframes : r.frames ≠ [] := by
        intro hnil
        rw [hnil] at hlast
        cases hlast
      rw [if_neg fun h => hframes h.2, Record.innermost, hlast]
      rfl
  · rw [if_neg hlog, if_neg fun h => hlog h.1]
    rfl

/-- Publishing, installing and compiling read other settings and keep no counters. -/
theorem perform_diagnosed (c : Call) :
    (e.diagnosed d stats).perform c =
      (fun out => (out.1, out.2.diagnosed d stats)) <$> e.silent.perform c := by
  cases c with
  | install | addRecord | discard => rfl
  | compile f =>
    unfold perform compile
    show (f.compile e.config.compile e.nonce >>= _ >>= _) =
      _ <$> (f.compile e.config.compile e.nonce >>= _ >>= _)
    cases f.compile e.config.compile e.nonce with
    | error fault => rfl
    | ok out =>
      obtain ⟨result, nonce⟩ := out
      cases result <;> rfl
  | compileAll fs schedule =>
    unfold perform compileAllBy
    show (Bailout.compileAllBy schedule fs e.config.compile e.nonce e.registry _ >>= _ >>= _) =
      _ <$> (Bailout.compileAllBy schedule fs e.config.compile e.nonce e.registry _ >>= _ >>= _)
    cases Bailout.compileAllBy schedule fs e.config.compile e.nonce e.registry
      fun u r => r.install u <;> rfl

end Engine

namespace World

/-- The world with other settings for leaving compiled code and other counters. -/
def diagnosed (w : World) (d : DeoptSettings) (stats : Stats) : World :=
  { w with engine := w.engine.diagnosed d stats }

def silent (w : World) : World := w.diagnosed .silent {}

def Outcome.diagnosed {α : Type} (out : Outcome α) (d : DeoptSettings) (stats : Stats) : Outcome α :=
  (out.1, out.2.diagnosed d stats)

/-- What is left of an outcome when settings and counters are ignored. -/
def Outcome.silent {α : Type} (out : Outcome α) : Outcome α := (out.1, out.2.silent)

/-- The record at which a call leaves compiled code. A suspended generator is not listed: its record has
one frame. -/
def exit? (w : World) : Call → Option Record
  | .deoptimize site _ | .deoptimizeRunning _ site _ => w.engine.record? site
  | _ => none

/-- The report on a call, if it leaves compiled code. -/
def report (w : World) (d : DeoptSettings) (c : Call) : Except Fault Unit :=
  (w.exit? c).elim (.ok ()) d.report

/-! ## One call -/

section Step

variable (w : World) (d : DeoptSettings) (stats : Stats)

@[simp] theorem heap_diagnosed : (w.diagnosed d stats).heap = w.heap := rfl

@[simp] theorem chain_diagnosed : (w.diagnosed d stats).chain = w.chain := rfl

@[simp] theorem record_diagnosed (site : DeoptId) :
    (w.diagnosed d stats).engine.record site = w.engine.record site := rfl

@[simp] theorem footer?_diagnosed (gen : Handle) :
    (w.diagnosed d stats).engine.footer? gen = w.engine.footer? gen := rfl

@[simp] theorem unit?_diagnosed (unit : UnitId) :
    (w.diagnosed d stats).engine.unit? unit = w.engine.unit? unit := rfl

@[simp] theorem suspendedFooter_diagnosed (gen : Handle) :
    (w.diagnosed d stats).suspendedFooter gen = w.suspendedFooter gen := rfl

theorem materialize_diagnosed (site : DeoptId) (snap : Snapshot) (targets : List Frame) :
    ∃ stats', (w.diagnosed d stats).materialize site snap targets =
      (do return (← w.silent.materialize site snap targets).diagnosed d stats') := by
  unfold materialize silent
  simp only [record_diagnosed, heap_diagnosed]
  cases w.engine.record site with
  | error e => exact ⟨stats, rfl⟩
  | ok r =>
    simp only
    cases r.materialize snap w.heap targets with
    | error fault => exact ⟨stats, rfl⟩
    | ok out =>
      obtain ⟨frames, heap, n⟩ := out
      obtain ⟨stats', hcount⟩ := w.engine.count_diagnosed d stats fun s =>
        { s with framesMaterialized := s.framesMaterialized + n }
      exact ⟨stats', congrArg
        (fun engine => Except.ok (Except.ok frames, ({ w with engine, heap } : World))) hcount⟩

theorem deoptimizeInto_diagnosed (gen : Option Handle) (site : DeoptId) (snap : Snapshot) :
    ∃ stats', (w.diagnosed d stats).deoptimizeInto gen site snap = (do
      let out ← w.silent.deoptimizeInto gen site snap
      (w.engine.record? site).elim (.ok ()) d.report
      return out.diagnosed d stats') := by
  unfold deoptimizeInto silent
  simp only [record_diagnosed, heap_diagnosed, chain_diagnosed]
  cases hr : w.engine.record site with
  | error e =>
    obtain ⟨hnone, -⟩ := Engine.record_eq_error.1 hr
    exact ⟨stats, by rw [hnone]; rfl⟩
  | ok r =>
    rw [Engine.record_eq_ok.1 hr]
    simp only
    cases r.materialize snap w.heap _ with
    | error fault => exact ⟨stats, rfl⟩
    | ok out =>
      obtain ⟨frames, heap, n⟩ := out
      simp only [ok_bind]
      cases r.releaseNative snap heap with
      | error fault => exact ⟨stats, rfl⟩
      | ok heap' =>
        obtain ⟨stats', hrecord⟩ := w.engine.recordDeopt_diagnosed d stats r n
        refine ⟨stats', ?_⟩
        show ((w.engine.diagnosed d stats).recordDeopt r n >>= _) = _
        rw [hrecord]
        show _ = (d.report r >>= _)
        cases d.report r <;> rfl

theorem deoptimizeRunning_diagnosed (gen : Handle) (site : DeoptId) (snap : Snapshot) :
    ∃ stats', (w.diagnosed d stats).deoptimizeRunning gen site snap = (do
      let out ← w.silent.deoptimizeRunning gen site snap
      (w.engine.record? site).elim (.ok ()) d.report
      return out.diagnosed d stats') := by
  have hinto := fun heap : Heap => deoptimizeInto_diagnosed
    { w with engine := w.engine.eraseFooter gen, heap } d stats (some gen) site snap
  unfold deoptimizeRunning silent
  simp only [footer?_diagnosed, heap_diagnosed]
  cases w.engine.footer? gen with
  | none =>
    simp only
    cases w.heap.setGenStatus gen .running with
    | error fault => exact ⟨stats, rfl⟩
    | ok heap => exact hinto heap
  | some footer =>
    cases hspill : footer.spill.isEmpty with
    | false => exact ⟨stats, by simp only [hspill]; rfl⟩
    | true =>
      simp only [hspill, Bool.not_true, Bool.false_eq_true, if_false]
      cases w.heap.setGenStatus gen .running with
      | error fault => exact ⟨stats, rfl⟩
      | ok heap => exact hinto heap

theorem suspend_diagnosed (gen : Handle) (unit : UnitId) (site : DeoptId) (spill : List Word) :
    (w.diagnosed d stats).suspend gen unit site spill =
      (do return (← w.silent.suspend gen unit site spill).diagnosed d stats) := by
  unfold suspend silent
  simp only [unit?_diagnosed, record_diagnosed, footer?_diagnosed, heap_diagnosed]
  by_cases hunit : (w.engine.unit? unit).isNone
  · simp only [hunit, if_true]
    rfl
  · simp only [hunit, Bool.false_eq_true, if_false]
    cases w.engine.record site with
    | error e => rfl
    | ok record =>
      by_cases hreason : record.reason = .generatorYield
      · simp only [hreason, ne_eq, not_true, if_false]
        cases w.engine.footer? gen with
        | none => cases w.heap.setGenStatus gen .suspended <;> rfl
        | some footer =>
          cases hsusp : footer.isSuspended with
          | false =>
            simp only [hsusp]
            cases w.heap.setGenStatus gen .suspended <;> rfl
          | true =>
            simp only [hsusp]
            rfl
      · simp only [hreason, ne_eq, not_false_eq_true, if_true]
        rfl

theorem resume_diagnosed (gen : Handle) :
    (w.diagnosed d stats).resume gen =
      (do return (← w.silent.resume gen).diagnosed d stats) := by
  unfold resume silent
  simp only [suspendedFooter_diagnosed, heap_diagnosed]
  cases w.suspendedFooter gen with
  | error e => rfl
  | ok footer => cases w.heap.setGenStatus gen .running <;> rfl

/-- The record of a suspended generator has a frame to report. -/
theorem deoptSuspended_diagnosed (gen : Handle) :
    ∃ stats', (w.diagnosed d stats).deoptSuspended gen =
      (do return (← w.silent.deoptSuspended gen).diagnosed d stats') := by
  unfold deoptSuspended silent
  simp only [suspendedFooter_diagnosed, heap_diagnosed]
  cases w.suspendedFooter gen with
  | error e => exact ⟨stats, rfl⟩
  | ok footer =>
    simp only
    split
    · next fr hfr =>
      cases footer.record.materializeFrame (.ofSpill footer.spill) w.heap fr true
        { code := fr.code } with
      | error fault => exact ⟨stats, rfl⟩
      | ok out =>
        simp only [ok_bind]
        cases footer.record.releaseNative (.ofSpill footer.spill) out.2 with
        | error fault => exact ⟨stats, rfl⟩
        | ok heap =>
          obtain ⟨stats₁, hcount⟩ := (w.engine.eraseFooter gen).count_diagnosed d stats fun s =>
            { s with suspendedGenerators := s.suspendedGenerators + 1 }
          obtain ⟨stats₂, hrecord⟩ :=
            (w.engine.eraseFooter gen).recordDeopt_diagnosed d stats₁ footer.record 1
          have hreport : d.report footer.record = .ok () := if_neg fun h => by simp [hfr] at h
          rw [← hcount, hreport] at hrecord
          let finish (engine : Engine) : Outcome Frame :=
            (.ok { out.1 with gen := some gen, status := .suspended }, { w with engine, heap })
          exact ⟨stats₂, congrArg (fun x => x >>= fun engine => pure (finish engine)) hrecord⟩
    · exact ⟨stats, rfl⟩

theorem releaseGenerator_diagnosed (gen : Handle) :
    (w.diagnosed d stats).releaseGenerator gen =
      (fun out => (out.1, out.2.diagnosed d stats)) <$> w.silent.releaseGenerator gen := by
  unfold releaseGenerator silent
  simp only [footer?_diagnosed, heap_diagnosed]
  cases w.engine.footer? gen with
  | none => rfl
  | some footer =>
    cases hsusp : footer.isSuspended with
    | false =>
      simp only [hsusp]
      rfl
    | true =>
      simp only [hsusp, if_true]
      cases footer.record.releaseNative (.ofSpill footer.spill) w.heap <;> rfl

variable {w d stats} in
theorem answer_diagnosed {α : Type} {f : α → Reply} {x y : Except Fault (Outcome α)}
    (report : Except Fault Unit)
    (h : x = (do
      let out ← y
      report
      return out.diagnosed d stats)) :
    answer f <$> x = (do
      let out ← answer f <$> y
      report
      return out.diagnosed d stats) := by
  rw [h]
  cases y with
  | error fault => rfl
  | ok out => cases report <;> rfl

/-- A call does what the silent call does and then reports; besides, it counts. -/
theorem call_diagnosed (c : Call) :
    ∃ stats', (w.diagnosed d stats).call c = (do
      let out ← w.silent.call c
      w.report d c
      return out.diagnosed d stats') := by
  cases c with
  | engine c =>
    refine ⟨stats, ?_⟩
    show _ <$> (w.engine.diagnosed d stats).perform c = (_ <$> w.engine.silent.perform c >>= _)
    rw [Engine.perform_diagnosed]
    cases w.engine.silent.perform c <;> rfl
  | materialize site snap targets =>
    obtain ⟨stats', h⟩ := w.materialize_diagnosed d stats site snap targets
    exact ⟨stats', answer_diagnosed (.ok ()) h⟩
  | deoptimize site snap =>
    obtain ⟨stats', h⟩ := w.deoptimizeInto_diagnosed d stats none site snap
    exact ⟨stats', answer_diagnosed _ h⟩
  | deoptimizeRunning gen site snap =>
    obtain ⟨stats', h⟩ := w.deoptimizeRunning_diagnosed d stats gen site snap
    exact ⟨stats', answer_diagnosed _ h⟩
  | suspend gen unit site spill =>
    exact ⟨stats, answer_diagnosed (.ok ()) (w.suspend_diagnosed d stats gen unit site spill)⟩
  | resume gen => exact ⟨stats, answer_diagnosed (.ok ()) (w.resume_diagnosed d stats gen)⟩
  | deoptSuspended gen =>
    obtain ⟨stats', h⟩ := w.deoptSuspended_diagnosed d stats gen
    exact ⟨stats', answer_diagnosed (.ok ()) h⟩
  | releaseGenerator gen =>
    refine ⟨stats, ?_⟩
    show _ <$> (w.diagnosed d stats).releaseGenerator gen = (_ <$> w.silent.releaseGenerator gen >>= _)
    rw [releaseGenerator_diagnosed]
    cases w.silent.releaseGenerator gen <;> rfl

end Step

/-! ## Runs -/

/-- What a run shows: for each call the reply, and the world after it but for settings and counters. A
fault ends the run. -/
def transcript (w : World) : List Call → List (Except Fault (Outcome Reply))
  | [] => []
  | c :: calls =>
    match w.call c with
    | .error fault => [.error fault]
    | .ok out => .ok out.silent :: out.2.transcript calls

/-- The `n`-th call of a run leaves compiled code at a record that has no frames. -/
def LeavesFrameless (w : World) (calls : List Call) (n : Nat) (r : Record) : Prop :=
  ∃ c now out, calls[n]? = some c ∧ w.run (calls.take n) = .ok now ∧ now.call c = .ok out ∧
    now.exit? c = some r ∧ r.frames = []

section Run

variable {w : World} {d : DeoptSettings} {c : Call} {calls : List Call} {n : Nat} {r : Record}

theorem leavesFrameless_zero : w.LeavesFrameless (c :: calls) 0 r ↔
    ∃ out, w.call c = .ok out ∧ w.exit? c = some r ∧ r.frames = [] := by
  constructor
  · rintro ⟨c', now, out, hc, hrun, hcall, hexit, hframes⟩
    obtain rfl := Option.some.inj hc
    obtain rfl := Except.ok.inj hrun
    exact ⟨out, hcall, hexit, hframes⟩
  · rintro ⟨out, hcall, hexit, hframes⟩
    exact ⟨c, w, out, rfl, rfl, hcall, hexit, hframes⟩

theorem leavesFrameless_succ : w.LeavesFrameless (c :: calls) (n + 1) r ↔
    ∃ out, w.call c = .ok out ∧ out.2.LeavesFrameless calls n r := by
  constructor
  · rintro ⟨c', now, out, hc, hrun, hcall, hexit, hframes⟩
    obtain ⟨w', hstep, hrun⟩ := foldlM_cons_eq_ok.1 hrun
    obtain ⟨first, hfirst, rfl⟩ := map_eq_ok.1 hstep
    exact ⟨first, hfirst, c', now, out, hc, hrun, hcall, hexit, hframes⟩
  · rintro ⟨first, hfirst, c', now, out, hc, hrun, hcall, hexit, hframes⟩
    exact ⟨c', now, out, hc, foldlM_cons_eq_ok.2 ⟨first.2, map_eq_ok.2 ⟨first, hfirst, rfl⟩, hrun⟩,
      hcall, hexit, hframes⟩

theorem not_leavesFrameless_nil : ¬ w.LeavesFrameless [] n r := by
  rintro ⟨c, -, -, hc, -⟩
  cases hc

theorem getElem?_transcript (h : w.LeavesFrameless calls n r) :
    ∃ out, (w.transcript calls)[n]? = some (.ok out) := by
  induction calls generalizing w n with
  | nil => exact absurd h not_leavesFrameless_nil
  | cons c calls ih =>
    cases n with
    | zero =>
      obtain ⟨out, hcall, -⟩ := leavesFrameless_zero.1 h
      exact ⟨out.silent, by rw [transcript, hcall]; rfl⟩
    | succ n =>
      obtain ⟨out, hcall, hrest⟩ := leavesFrameless_succ.1 h
      obtain ⟨out', hout'⟩ := ih hrest
      exact ⟨out', by rw [transcript, hcall]; exact hout'⟩

theorem not_leavesFrameless_of_fault {fault : Fault} (hcall : w.call c = .error fault) :
    ¬ w.LeavesFrameless (c :: calls) n r := by
  intro h
  cases n with
  | zero =>
    obtain ⟨out, hok, -⟩ := leavesFrameless_zero.1 h
    rw [hcall] at hok
    cases hok
  | succ n =>
    obtain ⟨out, hok, -⟩ := leavesFrameless_succ.1 h
    rw [hcall] at hok
    cases hok

theorem report_eq_ok : w.report d c = .ok () ↔
    ∀ r, d.logDeopts → w.exit? c = some r → r.frames ≠ [] := by
  unfold report DeoptSettings.report
  cases w.exit? c with
  | none => simp
  | some r => by_cases hlog : d.logDeopts <;> by_cases hframes : r.frames = [] <;> simp [hlog, hframes]

theorem report_eq_error {fault : Fault} (h : w.report d c = .error fault) :
    d.logDeopts ∧ ∃ r, w.exit? c = some r ∧ r.frames = [] ∧ fault = .noFrames r.nonce := by
  unfold report at h
  cases hexit : w.exit? c with
  | none =>
    rw [hexit] at h
    cases h
  | some r =>
    rw [hexit] at h
    by_cases hfails : d.logDeopts ∧ r.frames = []
    · obtain rfl : .noFrames r.nonce = fault := by simpa [DeoptSettings.report, hfails] using h
      exact ⟨hfails.1, r, rfl, hfails.2, rfl⟩
    · simp [DeoptSettings.report, hfails] at h

/-- Counting alone shows nowhere. -/
theorem transcript_congr (w : World) {d₁ d₂ : DeoptSettings} (hlog : d₁.logDeopts = d₂.logDeopts)
    (stats₁ stats₂ : Stats) (calls : List Call) :
    (w.diagnosed d₁ stats₁).transcript calls = (w.diagnosed d₂ stats₂).transcript calls := by
  induction calls generalizing w stats₁ stats₂ with
  | nil => rfl
  | cons c calls ih =>
    obtain ⟨stats₁', hrun₁⟩ := w.call_diagnosed d₁ stats₁ c
    obtain ⟨stats₂', hrun₂⟩ := w.call_diagnosed d₂ stats₂ c
    have hreport : w.report d₁ c = w.report d₂ c := by
      unfold report DeoptSettings.report
      rw [hlog]
    rw [transcript, transcript, hrun₁, hrun₂, hreport]
    cases w.silent.call c with
    | error fault => rfl
    | ok out =>
      cases w.report d₂ c with
      | error fault => rfl
      | ok u => exact congrArg (_ :: ·) (ih out.2 stats₁' stats₂')

/-- A run against the silent one: they show the same, or the first ends at a record without frames. -/
theorem transcript_diagnosed (w : World) (d : DeoptSettings) (stats stats₀ : Stats)
    (calls : List Call) :
    let run := (w.diagnosed d stats).transcript calls
    let silent := w.diagnosed .silent stats₀
    (run = silent.transcript calls ∧ (d.logDeopts → ∀ n r, ¬ silent.LeavesFrameless calls n r)) ∨
    (d.logDeopts ∧ ∃ n r, silent.LeavesFrameless calls n r ∧
      run = (silent.transcript calls).take n ++ [.error (.noFrames r.nonce)]) := by
  induction calls generalizing w stats stats₀ with
  | nil => exact .inl ⟨rfl, fun _ _ _ => not_leavesFrameless_nil⟩
  | cons c calls ih =>
    obtain ⟨stats', hrun⟩ := w.call_diagnosed d stats c
    obtain ⟨stats₀', hsilent⟩ := w.call_diagnosed .silent stats₀ c
    -- both runs make the same silent call, so only the report can tell them apart
    have hquiet : w.report .silent c = .ok () := report_eq_ok.2 fun r hlog => by cases hlog
    simp only [transcript]
    cases hcall : w.silent.call c with
    | error fault =>
      rw [hcall, error_bind] at hrun hsilent
      refine .inl ⟨by rw [hrun, hsilent], ?_⟩
      intro _ n r
      exact not_leavesFrameless_of_fault hsilent
    | ok out =>
      rw [hcall, ok_bind, hquiet, ok_bind, pure_eq_ok] at hsilent
      rw [hcall, ok_bind] at hrun
      cases hreport : w.report d c with
      | error fault =>
        rw [hreport, error_bind] at hrun
        obtain ⟨hlog, r, hexit, hframes, rfl⟩ := report_eq_error hreport
        refine .inr ⟨hlog, 0, r, leavesFrameless_zero.2 ⟨_, hsilent, hexit, hframes⟩, ?_⟩
        rw [hrun]
        rfl
      | ok u =>
        rw [hreport, ok_bind, pure_eq_ok] at hrun
        rw [hrun, hsilent]
        rcases ih out.2 stats' stats₀' with ⟨hsame, hnone⟩ | ⟨hlog, n, r, hleaves, hends⟩
        · refine .inl ⟨congrArg (_ :: ·) hsame, ?_⟩
          intro hlog n r h
          cases n with
          | zero =>
            obtain ⟨-, -, hexit, hframes⟩ := leavesFrameless_zero.1 h
            exact report_eq_ok.1 hreport r hlog hexit hframes
          | succ n =>
            obtain ⟨out', hok, hleaves⟩ := leavesFrameless_succ.1 h
            obtain rfl := Except.ok.inj (hsilent.symm.trans hok)
            exact hnone hlog n r hleaves
        · refine .inr ⟨hlog, n + 1, r, leavesFrameless_succ.2 ⟨_, hsilent, hleaves⟩, ?_⟩
          exact congrArg (_ :: ·) hends

/-- What was cut short is not the whole: the call at which it ends has succeeded. -/
theorem LeavesFrameless.cut_ne (h : w.LeavesFrameless calls n r) (fault : Fault) :
    (w.transcript calls).take n ++ [.error fault] ≠ w.transcript calls := by
  obtain ⟨out, hout⟩ := getElem?_transcript h
  obtain ⟨hlt, -⟩ := List.getElem?_eq_some_iff.1 hout
  have hlen : ((w.transcript calls).take n).length = n :=
    List.length_take_of_le (Nat.le_of_lt hlt)
  intro heq
  have hat : ((w.transcript calls).take n ++ [.error fault])[n]? = some (.error fault) := by
    rw [List.getElem?_append_right (Nat.le_of_eq hlen), hlen, Nat.sub_self]
    rfl
  rw [heq, hout] at hat
  cases hat

/-- A run that reports against one that does not: they differ exactly if the first ends early. -/
theorem transcript_reporting (w : World) {d d' : DeoptSettings} (hd : d.logDeopts)
    (hd' : d'.logDeopts = false) (stats stats' : Stats) (calls : List Call) :
    let run := (w.diagnosed d stats).transcript calls
    let run' := (w.diagnosed d' stats').transcript calls
    (run = run' ↔ ∀ n r, ¬ w.silent.LeavesFrameless calls n r) ∧
    (run ≠ run' → ∃ n r, w.silent.LeavesFrameless calls n r ∧
      run = run'.take n ++ [.error (.noFrames r.nonce)]) := by
  have hsilent : (w.diagnosed d' stats').transcript calls = w.silent.transcript calls :=
    w.transcript_congr hd' stats' {} calls
  rw [hsilent]
  rcases w.transcript_diagnosed d stats {} calls with ⟨hsame, hnone⟩ | ⟨-, n, r, hleaves, hends⟩
  · exact ⟨⟨fun _ => hnone hd, fun _ => hsame⟩, fun hne => absurd hsame hne⟩
  · refine ⟨⟨fun hsame => ?_, fun hnone => absurd hleaves (hnone n r)⟩,
      fun _ => ⟨n, r, hleaves, hends⟩⟩
    exact absurd (hends.symm.trans hsame) (hleaves.cut_ne _)

/-- **Diagnostics change nothing but counters, unless there is no frame to report.** Runs that differ
only in them show the same exactly if both report or neither does, or if no exit is at a record without
frames; otherwise the one that reports ends at such an exit with a fault. -/
theorem transcript_diagnostics (w : World) (d₁ d₂ : DeoptSettings) (stats₁ stats₂ : Stats)
    (calls : List Call) :
    let run₁ := (w.diagnosed d₁ stats₁).transcript calls
    let run₂ := (w.diagnosed d₂ stats₂).transcript calls
    (run₁ = run₂ ↔
      d₁.logDeopts = d₂.logDeopts ∨ ∀ n r, ¬ w.silent.LeavesFrameless calls n r) ∧
    (d₁.logDeopts → run₁ ≠ run₂ → ∃ n r, w.silent.LeavesFrameless calls n r ∧
      run₁ = run₂.take n ++ [.error (.noFrames r.nonce)]) := by
  intro run₁ run₂
  by_cases hlog : d₁.logDeopts = d₂.logDeopts
  · have hsame : run₁ = run₂ := w.transcript_congr hlog stats₁ stats₂ calls
    exact ⟨⟨fun _ => .inl hlog, fun _ => hsame⟩, fun _ hne => absurd hsame hne⟩
  · cases hd₁ : d₁.logDeopts with
    | true =>
      have hd₂ : d₂.logDeopts = false := by simpa [hd₁] using Ne.symm hlog
      obtain ⟨hsame, hends⟩ := w.transcript_reporting hd₁ hd₂ stats₁ stats₂ calls
      exact ⟨hsame.trans (by simp [hd₂]), fun _ => hends⟩
    | false =>
      have hd₂ : d₂.logDeopts := by simpa [hd₁] using Ne.symm hlog
      obtain ⟨hsame, -⟩ := w.transcript_reporting hd₂ hd₁ stats₂ stats₁ calls
      exact ⟨eq_comm.trans (hsame.trans (by simp [hd₂])), fun hd => by cases hd⟩

end Run

namespace Frameless

def record : Record := { live := [], frames := [], reason := .guardFailure, nonce := 7 }

def calls : List Call := [.engine (.addRecord record), .deoptimize ⟨0⟩ {}]

def reporting : DeoptSettings := { logDeopts := true }

theorem leaves : (silent {}).LeavesFrameless calls 1 record := ⟨_, _, _, rfl, rfl, rfl, rfl, rfl⟩

end Frameless

/-- A record without frames is published and compiled code left there: an exit for one engine, the end
for the other. -/
theorem transcript_diagnostics_frameless :
    let run := (diagnosed {} Frameless.reporting {}).transcript Frameless.calls
    let quiet := (silent {}).transcript Frameless.calls
    run ≠ quiet ∧ quiet.length = 2 ∧ run = quiet.take 1 ++ [.error (.noFrames 7)] := by
  obtain ⟨hsame, -⟩ := transcript_diagnostics {} Frameless.reporting .silent {} {} Frameless.calls
  refine ⟨?_, rfl, rfl⟩
  intro h
  rcases hsame.1 h with hlog | hnone
  · cases hlog
  · exact hnone 1 _ Frameless.leaves

end World

end Bailout
