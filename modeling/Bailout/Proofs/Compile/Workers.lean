import Bailout.Compile
import Bailout.Proofs.Fallible
import Mathlib.Data.List.Nodup
import Mathlib.Data.List.Perm.Subperm

/-!
# Workers under any schedule

`compileAllBy` compiles with the workers acting in any given order; taking turns is one such order. Two
facts hold of every order. What publication keeps, the whole compilation keeps
(`compileAllBy_induct`), and what the section holds may be looked at through a projection that
publication respects (`compileAllBy_map`). The results that come back are among those that publication
gave (`compileAllBy_results`).
-/

namespace Bailout

variable {σ τ ρ κ : Type}

/-- A section seen through a function of its value. -/
def Section.map (v : σ → τ) (s : Section σ) : Section τ :=
  { value := v s.value, episodes := s.episodes, entered := s.entered }

theorem asWorkerFault_eq_ok {α : Type} {x : Except Fault α} {a : α} :
    asWorkerFault x = .ok a ↔ x = .ok a := by
  cases x <;> simp [asWorkerFault]

variable {settings : Settings} {publish : CompiledUnit → σ → ρ × σ}

theorem compileAllBy_eq_ok {schedule : List Nat} {funcs : List Function} {nonce nonce' : Nat}
    {shared shared' : Section σ} {results : List (Except CompileError ρ)}
    (h : compileAllBy schedule funcs settings nonce shared publish = .ok (results, nonce', shared')) :
    (results = [] ∧ nonce' = nonce ∧ shared' = shared) ∨
    ∃ workers p, (Pool.start funcs workers nonce shared).run settings publish schedule = .ok p ∧
      results = p.inOrder funcs.length ∧ nonce' = p.nonce ∧ shared' = p.shared.endEpisode := by
  unfold compileAllBy at h
  split at h
  · simp only [pure_eq_ok, Except.ok.injEq, Prod.mk.injEq] at h
    exact .inl ⟨h.1.symm, h.2.1.symm, h.2.2.symm⟩
  · obtain ⟨p, hp, h⟩ := bind_eq_ok.1 h
    simp only [pure_eq_ok, Except.ok.injEq, Prod.mk.injEq] at h
    exact .inr ⟨_, p, asWorkerFault_eq_ok.1 hp, h.1.symm, h.2.1.symm, h.2.2.symm⟩

namespace Pool

/-- One action of a worker leaves the section alone, and reports at most an error; or it publishes a unit
and reports what publication gave. -/
theorem step_eq_ok {p p' : Pool σ ρ} {w : Nat} (h : p.step settings publish w = .ok p') :
    (p'.shared = p.shared ∧
      (p'.results = p.results ∨ ∃ place e, p'.results = (place, .error e) :: p.results)) ∨
    ∃ unit place, p'.shared = { p.shared with value := (publish unit p.shared.value).2 } ∧
      p'.results = (place, .ok (publish unit p.shared.value).1) :: p.results := by
  unfold step at h
  split at h
  · obtain rfl : p = p' := by simpa using h
    exact .inl ⟨rfl, .inl rfl⟩
  · obtain rfl : p.take settings w = p' := by simpa using h
    unfold take
    split
    · exact .inl ⟨rfl, .inl rfl⟩
    · dsimp only
      split
      · exact .inl ⟨rfl, .inr ⟨_, _, rfl⟩⟩
      · exact .inl ⟨rfl, .inl rfl⟩
  · unfold publishUnit at h
    obtain ⟨result, -, h⟩ := bind_eq_ok.1 h
    split at h
    · obtain rfl := Except.ok.inj h
      exact .inl ⟨rfl, .inr ⟨_, _, rfl⟩⟩
    · obtain rfl := Except.ok.inj h
      exact .inr ⟨_, _, rfl, rfl⟩
  · obtain ⟨instr, -, h⟩ := bind_eq_ok.1 h
    obtain ⟨result, -, h⟩ := bind_eq_ok.1 h
    split at h
    · obtain rfl := Except.ok.inj h
      exact .inl ⟨rfl, .inr ⟨_, _, rfl⟩⟩
    · obtain rfl := Except.ok.inj h
      exact .inl ⟨rfl, .inl rfl⟩

/-! ## What publication keeps -/

theorem run_induct (P : σ → Prop) (hpub : ∀ u s, P s → P (publish u s).2) {p p' : Pool σ ρ}
    {schedule : List Nat} (h : p.run settings publish schedule = .ok p') (hp : P p.shared.value) :
    P p'.shared.value := by
  refine foldlM_induct (fun p : Pool σ ρ => P p.shared.value) ?_ hp h
  intro w _ p p' hp h
  rcases step_eq_ok h with ⟨hs, -⟩ | ⟨unit, place, hs, -⟩
  · rw [hs]
    exact hp
  · rw [hs]
    exact hpub unit _ hp

/-! ## Results -/

/-- The publications that a list of results tells of, as `g` reads them. -/
def published (g : ρ → Option κ) (results : List (Except CompileError ρ)) : List κ :=
  results.filterMap fun r => r.toOption.bind g

/-- If publication logs what it gives, then the log grows by what the results tell. -/
theorem run_published {g : ρ → Option κ} {log : σ → List κ}
    (hlog : ∀ u s, log (publish u s).2 = log s ++ (g (publish u s).1).toList) {p p' : Pool σ ρ}
    {schedule : List Nat} (h : p.run settings publish schedule = .ok p') (hp : p.results = []) :
    (log p'.shared.value).Perm (log p.shared.value ++ published g (p'.results.map (·.2))) := by
  refine foldlM_induct (fun q : Pool σ ρ =>
    (log q.shared.value).Perm (log p.shared.value ++ published g (q.results.map (·.2)))) ?_ ?_ h
  · intro w _ q q' hq h
    rcases step_eq_ok h with ⟨hs, hr | ⟨place, e, hr⟩⟩ | ⟨unit, place, hs, hr⟩
    · rw [hs, hr]
      exact hq
    · rw [hs, hr]
      exact hq
    · rw [hs, hr]
      have hnew : published g (((place, Except.ok (publish unit q.shared.value).1) ::
          q.results).map (·.2)) =
          (g (publish unit q.shared.value).1).toList ++ published g (q.results.map (·.2)) := by
        cases hg : g (publish unit q.shared.value).1 with
        | none => simp [published, hg, Except.toOption]
        | some k => simp [published, hg, Except.toOption]
      rw [hnew, hlog]
      calc List.Perm (log q.shared.value ++ (g (publish unit q.shared.value).1).toList)
            ((g (publish unit q.shared.value).1).toList ++ log q.shared.value) := List.perm_append_comm
        List.Perm _ ((g (publish unit q.shared.value).1).toList ++
            (log p.shared.value ++ published g (q.results.map (·.2)))) := hq.append_left _
        List.Perm _ (log p.shared.value ++ ((g (publish unit q.shared.value).1).toList ++
            published g (q.results.map (·.2)))) := by
          rw [← List.append_assoc, ← List.append_assoc]
          exact List.perm_append_comm.append_right _
  · rw [hp]
    simp [published]

theorem inOrder_subperm (p : Pool σ ρ) (n : Nat) :
    (p.inOrder n).Subperm (p.results.map (·.2)) := by
  let found (i : Nat) := p.results.find? fun r => r.1 == i
  have place : ∀ i r, r ∈ found i → r.1 = i := fun i r hr => by
    simpa using List.find?_some hr
  have hnodup : ((List.range n).filterMap found).Nodup :=
    List.Nodup.filterMap (fun i j r hi hj => (place i r hi).symm.trans (place j r hj)) List.nodup_range
  have hsub : ((List.range n).filterMap found) ⊆ p.results := by
    intro r hr
    obtain ⟨i, -, hi⟩ := List.mem_filterMap.1 hr
    exact List.mem_of_find?_eq_some hi
  have hmap : p.inOrder n = ((List.range n).filterMap found).map (·.2) := by
    rw [inOrder, List.map_filterMap]
  rw [hmap]
  obtain ⟨l, hl, hsub⟩ := hnodup.subperm hsub
  exact ⟨l.map (·.2), hl.map _, hsub.map _⟩

theorem published_subperm (g : ρ → Option κ) {l l' : List (Except CompileError ρ)}
    (h : l.Subperm l') : (published g l).Subperm (published g l') := by
  obtain ⟨m, hm, hsub⟩ := h
  exact ⟨published g m, hm.filterMap _, hsub.filterMap _⟩

/-! ## Looking at the section through a projection -/

/-- A pool whose section is seen through a function. -/
def view (v : σ → τ) (p : Pool σ ρ) : Pool τ ρ :=
  { queue := p.queue, tasks := p.tasks, nonce := p.nonce, shared := p.shared.map v
    results := p.results }

variable {v : σ → τ} {publish' : CompiledUnit → τ → ρ × τ}

@[simp] theorem queue_view (p : Pool σ ρ) : (p.view v).queue = p.queue := rfl

@[simp] theorem tasks_view (p : Pool σ ρ) : (p.view v).tasks = p.tasks := rfl

theorem start_map (workers nonce : Nat) (funcs : List Function) (shared : Section σ) :
    (start funcs workers nonce (shared.map v) : Pool τ ρ) = (start funcs workers nonce shared).view v :=
  rfl

theorem take_view (p : Pool σ ρ) (w : Nat) :
    (p.view v).take settings w = (p.take settings w).view v := by
  unfold take
  rw [queue_view]
  cases p.queue with
  | nil => rfl
  | cons job queue =>
    dsimp only
    cases job.func.precheck settings with
    | error e => rfl
    | ok => rfl

theorem publishUnit_view (hv : ∀ u s, publish' u (v s) = ((publish u s).1, v (publish u s).2))
    (p : Pool σ ρ) (w : Nat) (job : Job) (records : List Record) :
    (p.view v).publishUnit settings publish' w job records =
      view v <$> p.publishUnit settings publish w job records := by
  unfold publishUnit
  rw [map_bind]
  congr 1
  funext result
  cases result with
  | error e => rfl
  | ok unit =>
    simp only [Section.update, view, Section.map, hv]
    rfl

/-- A worker acts in the same way whatever the section is seen through, if publication respects it. -/
theorem step_view (hv : ∀ u s, publish' u (v s) = ((publish u s).1, v (publish u s).2))
    (p : Pool σ ρ) (w : Nat) :
    (p.view v).step settings publish' w = view v <$> p.step settings publish w := by
  unfold step
  rw [tasks_view]
  match p.tasks[w]? with
  | none => rfl
  | some .idle =>
    change Except.ok ((p.view v).take settings w) = Except.ok ((p.take settings w).view v)
    rw [take_view]
  | some (.building job [] done) => exact publishUnit_view hv p w job done
  | some (.building job (s :: todo) done) =>
    dsimp only
    rw [map_bind]
    congr 1
    funext instr
    rw [map_bind]
    congr 1
    funext result
    cases result with
    | error e => rfl
    | ok r => rfl

theorem run_view (hv : ∀ u s, publish' u (v s) = ((publish u s).1, v (publish u s).2))
    (p : Pool σ ρ) (schedule : List Nat) :
    (p.view v).run settings publish' schedule = view v <$> p.run settings publish schedule := by
  unfold run
  induction schedule generalizing p with
  | nil => rfl
  | cons w schedule ih =>
    rw [List.foldlM_cons, List.foldlM_cons, step_view hv, map_bind]
    cases p.step settings publish w with
    | error e => rfl
    | ok q => exact ih q

end Pool

/-! ## Whole compilations -/

section Compilation

variable {schedule : List Nat} {funcs : List Function} {nonce nonce' : Nat} {shared shared' : Section σ}
  {results : List (Except CompileError ρ)}

theorem compileAllBy_induct (P : σ → Prop) (hpub : ∀ u s, P s → P (publish u s).2)
    (h : compileAllBy schedule funcs settings nonce shared publish = .ok (results, nonce', shared'))
    (hs : P shared.value) : P shared'.value := by
  rcases compileAllBy_eq_ok h with ⟨-, -, rfl⟩ | ⟨workers, p, hrun, -, -, rfl⟩
  · exact hs
  · exact Pool.run_induct P hpub hrun hs

/-- If publication logs what it gives, then the log only grows, and what the results tell was logged,
each result apart. -/
theorem compileAllBy_results (g : ρ → Option κ) (log : σ → List κ)
    (hlog : ∀ u s, log (publish u s).2 = log s ++ (g (publish u s).1).toList)
    (h : compileAllBy schedule funcs settings nonce shared publish = .ok (results, nonce', shared')) :
    (log shared.value ++ Pool.published g results).Subperm (log shared'.value) := by
  rcases compileAllBy_eq_ok h with ⟨rfl, -, rfl⟩ | ⟨workers, p, hrun, rfl, -, rfl⟩
  · rw [Pool.published, List.filterMap_nil, List.append_nil]
  · have hlogged := Pool.run_published hlog hrun rfl
    have hreturned := Pool.published_subperm g (p.inOrder_subperm funcs.length)
    exact ((List.Subperm.refl _).append hreturned).trans hlogged.symm.subperm

/-- Compiling in a section seen through a projection is compiling in the section, seen afterwards. -/
theorem compileAllBy_map (v : σ → τ) (shared : Section σ) (publish' : CompiledUnit → τ → ρ × τ)
    (hv : ∀ u s, publish' u (v s) = ((publish u s).1, v (publish u s).2)) :
    compileAllBy schedule funcs settings nonce (shared.map v) publish' =
      (fun (results, nonce, shared) => (results, nonce, shared.map v)) <$>
        compileAllBy schedule funcs settings nonce shared publish := by
  unfold compileAllBy
  split
  · rfl
  · dsimp only
    rw [Pool.start_map, Pool.run_view hv]
    cases (Pool.start funcs _ nonce shared).run settings publish schedule with
    | error e => rfl
    | ok p => rfl

end Compilation

end Bailout
