import Bailout.Ident

/-!
# Interned strings

Each distinct string gets a symbol when it is first seen, and keeps it. Symbols count up from zero. A
table lists the strings by symbol and maps them back to their symbols; it carries the proof that the two
agree, so that no operation can let them drift apart.
-/

namespace Bailout

theorem inverse_nil (s : String) (sym : Symbol) :
    ([] : List (String × Symbol)).lookup s = some sym ↔ ([] : List String)[sym.index]? = some s := by
  simp

structure InternTable where
  /-- The string of each symbol. -/
  strings : List String := []
  /-- The symbol of each string, the newest first. -/
  symbols : List (String × Symbol) := []
  inverse : ∀ s sym, symbols.lookup s = some sym ↔ strings[sym.index]? = some s := by
    exact inverse_nil
deriving DecidableEq, Repr

namespace InternTable

/-- The symbol of a string seen before. -/
def get? (t : InternTable) (s : String) : Option Symbol := t.symbols.lookup s

def resolve? (t : InternTable) (sym : Symbol) : Option String := t.strings[sym.index]?

def size (t : InternTable) : Nat := t.strings.length

/-- The symbol of the next new string. -/
def next (t : InternTable) : Symbol := ⟨t.size⟩

theorem notMem_of_get?_eq_none {t : InternTable} {s : String} (h : t.get? s = none) : s ∉ t.strings := by
  intro hmem
  obtain ⟨i, hi⟩ := List.mem_iff_getElem?.1 hmem
  have hget : t.get? s = some ⟨i⟩ := (t.inverse s ⟨i⟩).2 hi
  rw [h] at hget
  cases hget

theorem getElem?_concat_eq_some {strings : List String} {s s' : String} {i : Nat} :
    (strings ++ [s])[i]? = some s' ↔ strings[i]? = some s' ∨ i = strings.length ∧ s' = s := by
  rw [List.getElem?_append]
  split <;> grind

/-- A new string gets the place behind all others, and no other string moves. -/
theorem inverse_add {t : InternTable} {s : String} (h : t.get? s = none) (s' : String) (sym : Symbol) :
    ((s, t.next) :: t.symbols).lookup s' = some sym ↔ (t.strings ++ [s])[sym.index]? = some s' := by
  obtain ⟨i⟩ := sym
  rw [getElem?_concat_eq_some]
  by_cases hs : s' = s
  · subst hs
    have hold : t.strings[i]? ≠ some s' := fun hi =>
      notMem_of_get?_eq_none h (List.mem_of_getElem? hi)
    simp [hold, next, size, eq_comm]
  · rw [List.lookup_cons, beq_false_of_ne hs]
    exact (t.inverse s' ⟨i⟩).trans (by simp [hs])

/-- The table with one more string. -/
def add (t : InternTable) (s : String) (h : t.get? s = none) : InternTable where
  strings := t.strings ++ [s]
  symbols := (s, t.next) :: t.symbols
  inverse := inverse_add h

/-- The symbol of a string, and the table that knows it. -/
def intern (t : InternTable) (s : String) : Symbol × InternTable :=
  match h : t.get? s with
  | some sym => (sym, t)
  | none => (t.next, t.add s h)

end InternTable

end Bailout
