import Bailout.Intern
import Mathlib.Data.Finset.Card

/-!
# Histories of an intern table

A table is called again and again, to intern a string or only to look something up. `InternTable.run`
plays the calls from the empty table on and writes down each call with its answer. What the table knows is
what this log says (`get?_table`), so a symbol belongs to one string, and a string to one symbol, for as
long as the table lives: `bijection_of_calls`.
-/

namespace Bailout

namespace InternTable

variable {t : InternTable} {s s' : String} {sym : Symbol}

/-! ## One table -/

theorem get?_eq_some : t.get? s = some sym ↔ t.resolve? sym = some s := t.inverse s sym

theorem mem_strings : s ∈ t.strings ↔ ∃ sym, t.get? s = some sym := by
  rw [List.mem_iff_getElem?]
  constructor
  · rintro ⟨i, hi⟩
    exact ⟨⟨i⟩, get?_eq_some.2 hi⟩
  · rintro ⟨sym, hsym⟩
    exact ⟨sym.index, get?_eq_some.1 hsym⟩

theorem nodup_strings (t : InternTable) : t.strings.Nodup := by
  rw [List.nodup_iff_getElem?_ne_getElem?]
  intro i j hij hlt heq
  have hsome : t.strings[j]? = some t.strings[j] := List.getElem?_eq_getElem hlt
  have hi : t.get? t.strings[j] = some ⟨i⟩ := get?_eq_some.2 (heq.trans hsome)
  have hj : t.get? t.strings[j] = some ⟨j⟩ := get?_eq_some.2 hsome
  have heq : Symbol.mk i = ⟨j⟩ := Option.some.inj (hi.symm.trans hj)
  exact Nat.ne_of_lt hij (Symbol.mk.inj heq)

theorem lt_size_iff {i : Nat} : i < t.size ↔ ∃ s, t.resolve? ⟨i⟩ = some s := by
  rw [← Option.isSome_iff_exists]
  simp [resolve?, size]

/-! ## Interning -/

theorem intern_of_get? (h : t.get? s = some sym) : t.intern s = (sym, t) := by
  unfold intern
  split <;> simp_all

theorem intern_of_get?_eq_none (h : t.get? s = none) : t.intern s = (t.next, t.add s h) := by
  unfold intern
  split <;> simp_all

/-- Interning tells the table the symbol of one string, and nothing else. -/
theorem get?_intern : (t.intern s).2.get? s' = some sym ↔
    t.get? s' = some sym ∨ s' = s ∧ (t.intern s).1 = sym := by
  cases h : t.get? s with
  | some old =>
    rw [intern_of_get? h]
    constructor
    · exact .inl
    · rintro (hs' | ⟨rfl, rfl⟩)
      · exact hs'
      · exact h
  | none =>
    rw [intern_of_get?_eq_none h]
    by_cases hs : s' = s
    · subst hs
      rw [h]
      simp [add, get?]
    · have hne : (s' == s) = false := beq_false_of_ne hs
      simp [add, get?, List.lookup_cons, hne, hs]

theorem resolve?_intern (t : InternTable) (s : String) :
    (t.intern s).2.resolve? (t.intern s).1 = some s :=
  get?_eq_some.1 (get?_intern.2 (.inr ⟨rfl, rfl⟩))

theorem resolve?_intern_of_some (h : t.resolve? sym = some s) (s' : String) :
    (t.intern s').2.resolve? sym = some s :=
  get?_eq_some.1 (get?_intern.2 (.inl (get?_eq_some.2 h)))

/-! ## Calls -/

inductive Call where
  | intern (s : String)
  | get (s : String)
  | resolve (sym : Symbol)
  | size
deriving DecidableEq, Repr

inductive Answer where
  | symbol (sym : Symbol)
  | found (sym : Option Symbol)
  | text (s : Option String)
  | count (n : Nat)
deriving DecidableEq, Repr

/-- The string that a call interns. -/
def Call.interned? : Call → Option String
  | .intern s => some s
  | _ => none

def perform (t : InternTable) : Call → Answer × InternTable
  | .intern s => (.symbol (t.intern s).1, (t.intern s).2)
  | .get s => (.found (t.get? s), t)
  | .resolve sym => (.text (t.resolve? sym), t)
  | .size => (.count t.size, t)

/-- A history: the calls with their answers, oldest first, and the table they lead to. -/
structure History where
  log : List (Call × Answer) := []
  table : InternTable := {}
deriving DecidableEq, Repr

def History.add (h : History) (call : Call) : History where
  log := h.log ++ [(call, (h.table.perform call).1)]
  table := (h.table.perform call).2

/-- The history of some calls on a new table. -/
def run (calls : List Call) : History := calls.foldl History.add {}

/-- The strings that some calls intern, in the order of the calls. -/
def interned (calls : List Call) : List String := calls.filterMap Call.interned?

/-- One of the calls interned the string and was given the symbol. -/
def Gave (calls : List Call) (s : String) (sym : Symbol) : Prop :=
  (.intern s, .symbol sym) ∈ (run calls).log

variable {calls : List Call} {call : Call}

theorem run_concat (calls : List Call) (call : Call) : run (calls ++ [call]) = (run calls).add call := by
  simp [run]

theorem gave_concat : Gave (calls ++ [call]) s sym ↔
    Gave calls s sym ∨ call = .intern s ∧ ((run calls).table.intern s).1 = sym := by
  unfold Gave
  rw [run_concat, History.add, List.mem_append, List.mem_singleton, Prod.mk.injEq]
  refine or_congr_right ⟨?_, ?_⟩
  · rintro ⟨rfl, h⟩
    exact ⟨rfl, (Answer.symbol.inj h).symm⟩
  · rintro ⟨rfl, rfl⟩
    exact ⟨rfl, rfl⟩

/-- A call adds to what the table knows what its answer says. -/
theorem get?_perform : (t.perform call).2.get? s = some sym ↔
    t.get? s = some sym ∨ call = .intern s ∧ (t.intern s).1 = sym := by
  cases call with
  | intern s' =>
    rw [Call.intern.injEq]
    refine get?_intern.trans (or_congr_right ⟨?_, ?_⟩)
    · rintro ⟨rfl, h⟩
      exact ⟨rfl, h⟩
    · rintro ⟨rfl, h⟩
      exact ⟨rfl, h⟩
  | get s' => simp [perform]
  | resolve sym' => simp [perform]
  | size => simp [perform]

/-- The table knows of a string what the log says. -/
theorem get?_table : (run calls).table.get? s = some sym ↔ Gave calls s sym := by
  induction calls using List.reverseRecOn with
  | nil => simp [run, Gave, get?]
  | append_singleton calls call ih =>
    rw [gave_concat, ← ih, run_concat]
    exact get?_perform

theorem exists_gave : (∃ sym, Gave calls s sym) ↔ s ∈ interned calls := by
  induction calls using List.reverseRecOn with
  | nil => simp [run, Gave, interned]
  | append_singleton calls call ih =>
    simp only [gave_concat, exists_or, ih]
    cases call <;> simp [interned, Call.interned?, eq_comm]

theorem size_table (calls : List Call) : (run calls).table.size = (interned calls).toFinset.card := by
  rw [size, ← List.toFinset_card_of_nodup (nodup_strings _)]
  refine congrArg Finset.card (Finset.ext fun s => ?_)
  rw [List.mem_toFinset, List.mem_toFinset, mem_strings, ← exists_gave]
  exact exists_congr fun _ => get?_table

theorem Gave.append (h : Gave calls s sym) (later : List Call) : Gave (calls ++ later) s sym := by
  induction later using List.reverseRecOn with
  | nil => simpa using h
  | append_singleton later call ih =>
    rw [← List.append_assoc]
    exact gave_concat.2 (.inl ih)

/-! ## The bijection -/

/-- After some calls, symbols and interned strings belong together one by one. -/
structure Bijection (calls : List Call) : Prop where
  symbol_eq_iff : ∀ s s' a b, Gave calls s a → Gave calls s' b → (a = b ↔ s = s')
  /-- A symbol that was given resolves to its string, now and after any later calls. -/
  resolve : ∀ s a later, Gave calls s a → (run (calls ++ later)).table.resolve? a = some s
  get_iff : ∀ s a, (run calls).table.get? s = some a ↔ Gave calls s a
  get_isSome : ∀ s, ((run calls).table.get? s).isSome ↔ s ∈ interned calls
  /-- Calls that intern nothing change nothing. -/
  lookup : ∀ call : Call, call.interned? = none → (run (calls ++ [call])).table = (run calls).table
  /-- A string that is new is given the number of the strings before it. -/
  first : ∀ s, s ∉ interned calls →
    Gave (calls ++ [.intern s]) s ⟨(interned calls).toFinset.card⟩
  size : (run calls).table.size = (interned calls).toFinset.card
  /-- The symbols given so far are the numbers below the size. -/
  lt_size_iff : ∀ i, i < (run calls).table.size ↔ ∃ s, Gave calls s ⟨i⟩

/-- **Interning is a stable bijection**, whatever the calls were. -/
theorem bijection_of_calls (calls : List Call) : Bijection calls where
  symbol_eq_iff s s' a b ha hb := by
    rw [← get?_table] at ha hb
    constructor
    · rintro rfl
      exact Option.some.inj ((get?_eq_some.1 ha).symm.trans (get?_eq_some.1 hb))
    · rintro rfl
      exact Option.some.inj (ha.symm.trans hb)
  resolve s a later h := get?_eq_some.1 (get?_table.2 (h.append later))
  get_iff s a := get?_table
  get_isSome s := by
    rw [Option.isSome_iff_exists, ← exists_gave]
    exact exists_congr fun _ => get?_table
  lookup call h := by
    rw [run_concat]
    cases call with
    | intern s => cases h
    | get s => rfl
    | resolve sym => rfl
    | size => rfl
  first s h := by
    have hnone : (run calls).table.get? s = none := by
      refine Option.eq_none_iff_forall_ne_some.2 fun sym hsym => h ?_
      exact exists_gave.1 ⟨sym, get?_table.1 hsym⟩
    rw [gave_concat, intern_of_get?_eq_none hnone, ← size_table]
    exact .inr ⟨rfl, rfl⟩
  size := size_table calls
  lt_size_iff i := by
    rw [InternTable.lt_size_iff]
    exact exists_congr fun s => get?_eq_some.symm.trans get?_table

/-- A repeated string keeps its symbol, and looking up takes none. -/
example : (run [.intern "outer", .get "gen", .intern "gen", .intern "outer", .size]).log.map (·.2) =
    [.symbol ⟨0⟩, .found none, .symbol ⟨1⟩, .symbol ⟨0⟩, .count 2] := by decide

end InternTable

end Bailout
