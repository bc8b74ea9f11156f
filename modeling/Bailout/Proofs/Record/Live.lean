import Bailout.Record
import Mathlib.Data.List.Nodup

/-!
# The live registers of a record

An instruction may list a register more than once; the first entry counts (`Instr.live?`).
`LiveReg.distinct` keeps exactly these entries, in order of first occurrence, so that a position in it
stands for a register (`getElem?_position?`).
-/

namespace Bailout

/-- The entry that counts for a register: the first one. -/
def Instr.live? (i : Instr) (r : Reg) : Option LiveReg := i.live.find? fun l => l.reg == r

theorem Instr.live?_eq_some {i : Instr} {r : Reg} {l : LiveReg} (h : i.live? r = some l) :
    l ∈ i.live ∧ l.reg = r :=
  ⟨List.mem_of_find?_eq_some h, by simpa using List.find?_some h⟩

/-- What a recovered value is known by: its register, ownership and representation. -/
def LiveValue.liveReg (v : LiveValue) : LiveReg := ⟨v.reg, v.refKind, v.valueKind⟩

@[simp] theorem LiveValue.liveReg_ofLiveReg (l : LiveReg) : (LiveValue.ofLiveReg l).liveReg = l := rfl

namespace LiveReg

/-- One step of `distinct`. -/
private def distinctStep (acc : List LiveReg) (l : LiveReg) : List LiveReg :=
  if acc.any (·.reg == l.reg) then acc else acc ++ [l]

private theorem distinct_eq (states : List LiveReg) :
    distinct states = states.foldl distinctStep [] := rfl

private theorem find?_foldl_distinctStep (r : Reg) (states acc : List LiveReg) :
    (states.foldl distinctStep acc).find? (·.reg == r) =
      (acc.find? (·.reg == r)).or (states.find? (·.reg == r)) := by
  induction states generalizing acc with
  | nil => simp
  | cons l states ih =>
    rw [List.foldl_cons, ih, distinctStep]
    split
    · next h =>
      obtain ⟨x, hx, hxl⟩ := List.any_eq_true.1 h
      by_cases hr : l.reg = r
      · have hsome : (acc.find? (·.reg == r)).isSome :=
          List.find?_isSome.2 ⟨x, hx, by simpa [hr] using hxl⟩
        obtain ⟨y, hy⟩ := Option.isSome_iff_exists.1 hsome
        simp [hy]
      · simp [hr]
    · rw [List.find?_append, Option.or_assoc]
      by_cases hr : l.reg = r <;> simp [hr]

theorem find?_distinct (states : List LiveReg) (r : Reg) :
    (distinct states).find? (·.reg == r) = states.find? (·.reg == r) := by
  rw [distinct_eq, find?_foldl_distinctStep]
  simp

/-- The registers of `distinct` come in the order of their first occurrence. -/
theorem pairwise_distinct (states : List LiveReg) :
    (distinct states).Pairwise fun a b =>
      states.findIdx (·.reg == a.reg) < states.findIdx (·.reg == b.reg) := by
  -- `done` has been gone through: every entry kept so far was first met in it
  suffices h : ∀ rest done acc, states = done ++ rest →
      (∀ a ∈ acc, states.findIdx (·.reg == a.reg) < done.length) →
      (∀ l ∈ done, acc.any (·.reg == l.reg)) →
      acc.Pairwise (fun a b =>
        states.findIdx (·.reg == a.reg) < states.findIdx (·.reg == b.reg)) →
      (rest.foldl distinctStep acc).Pairwise (fun a b =>
        states.findIdx (·.reg == a.reg) < states.findIdx (·.reg == b.reg)) from
    h states [] [] rfl (by simp) (by simp) .nil
  intro rest
  induction rest with
  | nil => exact fun _ _ _ _ _ hp => hp
  | cons l rest ih =>
    intro done acc hs hlt hmem hp
    have hs' : states = (done ++ [l]) ++ rest := by simp [hs]
    rw [List.foldl_cons, distinctStep]
    split
    · next h =>
      refine ih (done ++ [l]) acc hs' (fun a ha => ?_) (fun x hx => ?_) hp
      · have := hlt a ha
        simp; omega
      · rcases List.mem_append.1 hx with hx | hx
        · exact hmem x hx
        · obtain rfl := List.mem_singleton.1 hx
          exact h
    · next h =>
      have hfirst : states.findIdx (·.reg == l.reg) = done.length := by
        have hd : ∀ x ∈ done, (x.reg == l.reg) = false := by
          intro x hx
          obtain ⟨a, ha, hax⟩ := List.any_eq_true.1 (hmem x hx)
          by_contra hxl
          refine h (List.any_eq_true.2 ⟨a, ha, ?_⟩)
          simp only [beq_iff_eq] at hax
          simpa [hax] using hxl
        rw [hs, List.findIdx_append, if_neg]
        · simp [List.findIdx_cons]
        · rw [List.findIdx_eq_length_of_false hd]
          omega
      refine ih (done ++ [l]) (acc ++ [l]) hs' (fun a ha => ?_) (fun x hx => ?_) ?_
      · rcases List.mem_append.1 ha with ha | ha
        · have := hlt a ha
          simp; omega
        · obtain rfl := List.mem_singleton.1 ha
          simp [hfirst]
      · rcases List.mem_append.1 hx with hx | hx
        · rw [List.any_append, hmem x hx, Bool.true_or]
        · obtain rfl := List.mem_singleton.1 hx
          simp
      · refine List.pairwise_append.2 ⟨hp, List.pairwise_singleton .., fun a ha b hb => ?_⟩
        obtain rfl := List.mem_singleton.1 hb
        rw [hfirst]
        exact hlt a ha

theorem nodup_distinct (states : List LiveReg) : ((distinct states).map (·.reg)).Nodup := by
  rw [List.nodup_iff_pairwise_ne, List.pairwise_map]
  refine (pairwise_distinct states).imp fun {a b} h hab => ?_
  rw [hab] at h
  exact Nat.lt_irrefl _ h

private theorem foldl_distinctStep_of_nodup (states acc : List LiveReg)
    (hn : ((acc ++ states).map (·.reg)).Nodup) : states.foldl distinctStep acc = acc ++ states := by
  induction states generalizing acc with
  | nil => simp
  | cons l states ih =>
    have hnew : ¬ acc.any (·.reg == l.reg) := by
      rw [List.map_append, List.nodup_append] at hn
      intro hany
      obtain ⟨a, ha, hal⟩ := List.any_eq_true.1 hany
      exact hn.2.2 _ (List.mem_map_of_mem ha) _ List.mem_cons_self (by simpa using hal)
    rw [List.foldl_cons, distinctStep, if_neg hnew, ih _ (by simpa using hn), List.append_assoc]
    rfl

theorem distinct_eq_self {states : List LiveReg} (hn : (states.map (·.reg)).Nodup) :
    distinct states = states := foldl_distinctStep_of_nodup states [] hn

/-! ## Positions -/

theorem getElem?_position? {states : List LiveReg} (r : Reg) :
    (position? states r).bind (states[·]?) = states.find? (·.reg == r) := by
  rw [List.find?_eq_bind_findIdx?_getElem?]
  rfl

theorem position?_eq_none_iff {states : List LiveReg} {r : Reg} :
    position? states r = none ↔ states.find? (·.reg == r) = none := by
  simp [position?]

theorem findIdx?_of_nodup_map {α β : Type} [DecidableEq β] {key : α → β} {xs : List α}
    (hn : (xs.map key).Nodup) {p : Nat} {a : α} (h : xs[p]? = some a) :
    xs.findIdx? (fun x => key x == key a) = some p := by
  have hp : p < xs.length := (List.getElem?_eq_some_iff.1 h).1
  rw [List.findIdx?_eq_some_iff_getElem]
  refine ⟨hp, by simp [(List.getElem?_eq_some_iff.1 h).2], fun j hj hja => ?_⟩
  have hne := List.nodup_iff_pairwise_ne.1 hn
  rw [List.pairwise_map, List.pairwise_iff_getElem] at hne
  refine hne j p (by omega) hp hj ?_
  rw [(List.getElem?_eq_some_iff.1 h).2]
  simpa using hja

theorem position?_getElem? {states : List LiveReg} (hn : (states.map (·.reg)).Nodup) {p : Nat}
    {l : LiveReg} (h : states[p]? = some l) : position? states l.reg = some p :=
  findIdx?_of_nodup_map hn h

theorem indexOf_eq_dead_iff {states : List LiveReg} {o : Option Reg} :
    indexOf states o = LiveIndex.dead ↔ o.bind (position? states) = none := by
  unfold indexOf
  split
  · next p hp =>
    simp [hp, LiveIndex.dead]
  · next hp => simp [hp]

/-- A register of a stack is recorded as dead exactly when it is not live. -/
theorem indexOf_distinct_eq_dead {i : Instr} {r : Reg} :
    indexOf (distinct i.live) (some r) = LiveIndex.dead ↔ i.live? r = none := by
  rw [indexOf_eq_dead_iff, Option.bind_some, position?_eq_none_iff, find?_distinct]
  rfl

end LiveReg

end Bailout
