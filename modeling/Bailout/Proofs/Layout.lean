import Bailout.Layout
import Bailout.Proofs.Fallible

/-!
# Which location a register gets

`Layout.ofRegs` writes a layout down: the register that is `k`-th in order of first use is in machine
register `k`, or in the spill slot numbered from the end of the budget. Placing registers one after
another, when it succeeds, gives exactly this layout (`placeAll_eq_ok`), and it succeeds when the spill
offsets fit (`placeAll_ok`).
-/

namespace Bailout

namespace Layout

variable {budget slotSize : Nat} {rs regs : List Reg} {r : Reg} {l : Layout}

/-- The location of the register that is `k`-th in order of first use. -/
def locationAt (budget slotSize k : Nat) : Location :=
  if k < budget then .reg k else .spill ((k - budget) * slotSize : Nat)

/-- The layout of registers given in order of first use. -/
def ofRegs (budget slotSize : Nat) (rs : List Reg) : Layout where
  locations := rs.zipIdx.map fun p => (p.1, locationAt budget slotSize p.2)
  spillSlots := rs.length - budget

/-- The offsets of the spill slots of `n` registers are 32-bit. -/
def SpillFits (budget slotSize n : Nat) : Prop := ∀ k < n - budget, k * slotSize < 0x80000000

/-! ## Looking a register up -/

theorem find?_zipIdx (rs : List Reg) (r : Reg) (n : Nat) :
    (rs.zipIdx n).find? (fun p => p.1 == r) = (rs.idxOf? r).map fun k => (r, n + k) := by
  induction rs generalizing n with
  | nil => rfl
  | cons a rs ih =>
    by_cases ha : a = r
    · simp [ha, List.idxOf?_cons]
    · simp [ha, ih, List.idxOf?_cons, Nat.add_assoc, Nat.add_comm 1, Function.comp_def]

theorem location?_ofRegs (budget slotSize : Nat) (rs : List Reg) (r : Reg) :
    (ofRegs budget slotSize rs).location? r = (rs.idxOf? r).map (locationAt budget slotSize) := by
  simp [location?, ofRegs, List.find?_map, Function.comp_def, find?_zipIdx]

theorem location?_ofRegs_eq_none :
    (ofRegs budget slotSize rs).location? r = none ↔ r ∉ rs := by
  simp [location?_ofRegs]

/-! ## Placing one register -/

theorem ofRegs_concat (budget slotSize : Nat) (rs : List Reg) (r : Reg) :
    ofRegs budget slotSize (rs ++ [r]) = {
      locations := (ofRegs budget slotSize rs).locations ++ [(r, locationAt budget slotSize rs.length)]
      spillSlots := rs.length + 1 - budget } := by
  simp [ofRegs, List.zipIdx_append]

theorem place_of_mem (h : r ∈ rs) :
    (ofRegs budget slotSize rs).place budget slotSize r = .ok (.ok (ofRegs budget slotSize rs)) := by
  cases hl : (ofRegs budget slotSize rs).location? r with
  | none => exact absurd h (location?_ofRegs_eq_none.1 hl)
  | some loc => simp [place, hl]

/-- A new register goes to the next machine register, or else to the next spill slot. -/
theorem place_of_not_mem (h : r ∉ rs) :
    (ofRegs budget slotSize rs).place budget slotSize r =
      if rs.length < budget then .ok (.ok (ofRegs budget slotSize (rs ++ [r])))
      else do
        let offset ← Checked.size .multiply ((rs.length - budget) * slotSize)
        if 0x80000000 ≤ offset then return .error (.unsupportedLocation (.spillOffset offset))
        return .ok (ofRegs budget slotSize (rs ++ [r])) := by
  have hnone : (ofRegs budget slotSize rs).location? r = none := location?_ofRegs_eq_none.2 h
  have hlen : (ofRegs budget slotSize rs).locations.length = rs.length := by simp [ofRegs]
  have hslots : (ofRegs budget slotSize rs).spillSlots = rs.length - budget := rfl
  unfold place
  rw [hnone]
  simp only [hlen, hslots, ofRegs_concat]
  by_cases hb : rs.length < budget
  · have h₁ : rs.length - (rs.length - budget) = rs.length := by omega
    have h₂ : rs.length + 1 - budget = rs.length - budget := by omega
    have h₃ : (ofRegs budget slotSize rs).frameSize = 0 := rfl
    simp [hb, h₁, h₂, h₃, locationAt]
  · have h₁ : ¬ rs.length - (rs.length - budget) < budget := by omega
    have h₂ : rs.length + 1 - budget = rs.length - budget + 1 := by omega
    have h₃ : (ofRegs budget slotSize rs).frameSize = 0 := rfl
    simp only [hb, h₁, if_false]
    unfold Checked.size
    split
    · simp [h₂, h₃, hb, locationAt]
    · rfl

theorem place_ok (hfit : rs.length < budget ∨ (rs.length - budget) * slotSize < 0x80000000)
    (h : r ∉ rs) :
    (ofRegs budget slotSize rs).place budget slotSize r =
      .ok (.ok (ofRegs budget slotSize (rs ++ [r]))) := by
  rw [place_of_not_mem h]
  split
  · rfl
  · have hlt : (rs.length - budget) * slotSize < 0x80000000 := hfit.resolve_left ‹_›
    have hsize : (rs.length - budget) * slotSize < 0x10000000000000000 := by omega
    rw [Checked.size, Checked.isSize, decide_eq_true hsize, if_pos rfl, ok_bind,
      if_neg (Nat.not_le.2 hlt)]
    rfl

theorem place_eq_ok (hp : (ofRegs budget slotSize rs).place budget slotSize r = .ok (.ok l))
    (h : r ∉ rs) : l = ofRegs budget slotSize (rs ++ [r]) := by
  rw [place_of_not_mem h] at hp
  split at hp
  · simpa using hp.symm
  · obtain ⟨offset, -, hp⟩ := bind_eq_ok.1 hp
    split at hp
    · simp at hp
    · simpa using hp.symm

/-! ## Placing all registers -/

theorem eraseDups_concat (seen : List Reg) (r : Reg) :
    (seen ++ [r]).eraseDups = if r ∈ seen then seen.eraseDups else seen.eraseDups ++ [r] := by
  rw [List.eraseDups_append]
  by_cases h : r ∈ seen
  · simp [h, List.removeAll]
  · simp [h, List.removeAll, List.eraseDups_cons]

theorem placeAll_ok (seen : List Reg)
    (hfit : SpillFits budget slotSize (seen ++ regs).eraseDups.length) :
    (ofRegs budget slotSize seen.eraseDups).placeAll budget slotSize regs =
      .ok (.ok (ofRegs budget slotSize (seen ++ regs).eraseDups)) := by
  induction regs generalizing seen with
  | nil => simp [placeAll]
  | cons r rest ih =>
    have hsplit : seen ++ r :: rest = (seen ++ [r]) ++ rest := by simp
    rw [hsplit] at hfit ⊢
    rw [← ih _ hfit]
    simp only [placeAll]
    rw [eraseDups_concat]
    by_cases hr : r ∈ seen
    · rw [place_of_mem (List.mem_eraseDups.2 hr)]
      simp [hr]
    · have hlen : seen.eraseDups.length < (seen ++ [r] ++ rest).eraseDups.length := by
        rw [List.eraseDups_append, eraseDups_concat, if_neg hr]
        simp
      have hplace : seen.eraseDups.length < budget ∨
          (seen.eraseDups.length - budget) * slotSize < 0x80000000 := by
        by_cases hb : seen.eraseDups.length < budget
        · exact .inl hb
        · exact .inr (hfit _ (by omega))
      rw [place_ok hplace (mt List.mem_eraseDups.1 hr)]
      simp [hr]

theorem placeAll_eq_ok (seen : List Reg)
    (h : (ofRegs budget slotSize seen.eraseDups).placeAll budget slotSize regs = .ok (.ok l)) :
    l = ofRegs budget slotSize (seen ++ regs).eraseDups := by
  induction regs generalizing seen with
  | nil => simpa [placeAll] using h.symm
  | cons r rest ih =>
    have hsplit : seen ++ r :: rest = (seen ++ [r]) ++ rest := by simp
    simp only [placeAll] at h
    obtain ⟨placed, hplace, h⟩ := bind_eq_ok.1 h
    cases placed with
    | error e => simp at h
    | ok l₁ =>
      rw [hsplit]
      refine ih (seen ++ [r]) ?_
      rw [eraseDups_concat]
      by_cases hr : r ∈ seen
      · rw [place_of_mem (List.mem_eraseDups.2 hr)] at hplace
        obtain rfl : _ = l₁ := by simpa using hplace
        simpa [hr] using h
      · obtain rfl := place_eq_ok hplace (mt List.mem_eraseDups.1 hr)
        simpa [hr] using h

/-! ## Whole units -/

/-- The registers to recover, in order of use. -/
def recovered (records : List Record) : List Reg := records.flatMap fun r => r.live.map (·.reg)

theorem frameSize_lt {n : Nat} (hslot : slotSize < 0x10000000000000000)
    (hfit : ∀ k < n, k * slotSize < 0x80000000) : n * slotSize < 0x10000000000000000 := by
  match n with
  | 0 => simp
  | 1 => simpa using hslot
  | n + 2 =>
    have h₁ := hfit 1 (by omega)
    have h₂ := hfit (n + 1) (by omega)
    have h₃ : (n + 2) * slotSize = (n + 1) * slotSize + 1 * slotSize := by rw [← Nat.add_mul]
    omega

theorem ofRegs_nil (budget slotSize : Nat) : ofRegs budget slotSize [] = {} := by simp [ofRegs]

/-- The layout of registers given in order of first use, with the size of the frame. -/
def finished (budget slotSize : Nat) (rs : List Reg) : Layout :=
  { ofRegs budget slotSize rs with frameSize := (rs.length - budget) * slotSize }

/-- The machine registers for a unit; one that spills everything has none. -/
def budgetOf (settings : Settings) (spillAll : Bool) : Nat :=
  if spillAll then 0 else settings.registerBudget

/-- Assignment succeeds when the slot size is a word multiple, the budget is in range and the spill
offsets fit. -/
theorem assign_ok {records : List Record} {settings : Settings} {spillAll : Bool}
    (hpos : settings.slotSize ≠ 0) (hword : settings.slotSize % wordSize = 0)
    (hslot : settings.slotSize < 0x10000000000000000) (hbudget : budgetOf settings spillAll ≤ 256)
    (hfit : SpillFits (budgetOf settings spillAll) settings.slotSize
      (recovered records).eraseDups.length) :
    assign records settings spillAll = .ok (.ok
      (finished (budgetOf settings spillAll) settings.slotSize (recovered records).eraseDups,
        records.map (finished (budgetOf settings spillAll) settings.slotSize
          (recovered records).eraseDups).fill)) := by
  have hsize := frameSize_lt hslot hfit
  have hplace := placeAll_ok [] (by simpa using hfit)
  rw [List.eraseDups_nil, ofRegs_nil, List.nil_append] at hplace
  unfold assign
  rw [← budgetOf]
  simp only [hpos, hword, ne_eq, not_true, or_self, if_false, Nat.not_lt.2 hbudget]
  rw [← recovered, hplace]
  simp only [ok_bind, Checked.size, Checked.isSize, ofRegs, hsize, decide_true, if_true]
  rfl

/-- A successful assignment has a word-sized slot, a budget in range, and the layout of the registers to
recover. -/
theorem assign_eq_finished {records filled : List Record} {settings : Settings} {spillAll : Bool}
    (h : assign records settings spillAll = .ok (.ok (l, filled))) :
    0 < settings.slotSize ∧ settings.slotSize % wordSize = 0 ∧ budgetOf settings spillAll ≤ 256 ∧
      l = finished (budgetOf settings spillAll) settings.slotSize (recovered records).eraseDups ∧
      filled = records.map l.fill := by
  unfold assign at h
  rw [← budgetOf] at h
  split at h
  · simp at h
  · next hsize =>
    rw [not_or, Decidable.not_not] at hsize
    simp only at h
    split at h
    · simp at h
    · next hbudget =>
      obtain ⟨placed, hplace, h⟩ := bind_eq_ok.1 h
      cases placed with
      | error e => simp at h
      | ok l₁ =>
        obtain rfl : l₁ = ofRegs (budgetOf settings spillAll) settings.slotSize
            (recovered records).eraseDups := by
          refine placeAll_eq_ok [] ?_
          rw [List.eraseDups_nil, ofRegs_nil]
          exact hplace
        obtain ⟨frameSize, hframe, h⟩ := bind_eq_ok.1 h
        obtain rfl : _ = frameSize := by
          unfold Checked.size at hframe
          split at hframe
          · exact Except.ok.inj hframe
          · cases hframe
        obtain ⟨rfl, rfl⟩ := Prod.mk.inj (Except.ok.inj (Except.ok.inj h))
        exact ⟨Nat.pos_of_ne_zero hsize.1, hsize.2, Nat.not_lt.1 hbudget, rfl, rfl⟩

theorem assign_eq_ok {records filled : List Record} {settings : Settings} {spillAll : Bool}
    (h : assign records settings spillAll = .ok (.ok (l, filled))) :
    filled = records.map l.fill ∧ ∀ r ∈ recovered records, (l.location? r).isSome := by
  obtain ⟨-, -, -, hl, hfilled⟩ := assign_eq_finished h
  refine ⟨hfilled, fun r hr => Option.isSome_iff_ne_none.2 fun hnone => ?_⟩
  rw [hl] at hnone
  exact location?_ofRegs_eq_none.1 hnone (List.mem_eraseDups.2 hr)

end Layout

end Bailout
