/-!
Finite maps as lists of pairs, in the order in which the keys were first written. A second write
to a key replaces its value in place, so writing a pair that is already there changes nothing.
-/
namespace ContractLang

structure Assoc (κ α : Type) where
  entries : List (κ × α)
deriving DecidableEq, Repr

namespace Assoc
variable {κ α : Type} [DecidableEq κ]

def empty : Assoc κ α := ⟨[]⟩

/-- The first value at a key. -/
def lookup (k : κ) : List (κ × α) → Option α
  | [] => none
  | (j, a) :: rest => if j = k then some a else lookup k rest

/-- Replaces the first value at a key, or adds the pair at the end. -/
def write (k : κ) (a : α) : List (κ × α) → List (κ × α)
  | [] => [(k, a)]
  | (j, b) :: rest => if j = k then (j, a) :: rest else (j, b) :: write k a rest

def get? (m : Assoc κ α) (k : κ) : Option α := lookup k m.entries

def insert (m : Assoc κ α) (k : κ) (a : α) : Assoc κ α := ⟨write k a m.entries⟩

def size (m : Assoc κ α) : Nat := m.entries.length

/-- The pairs in ascending order of a rank of the keys. -/
def sortedBy (m : Assoc κ α) (rank : κ → Nat) : List (κ × α) :=
  m.entries.mergeSort fun x y => rank x.1 ≤ rank y.1

@[simp] theorem get?_empty (k : κ) : (empty : Assoc κ α).get? k = none := rfl

theorem lookup_write (k j : κ) (a : α) (l : List (κ × α)) :
    lookup j (write k a l) = if k = j then some a else lookup j l := by
  induction l with
  | nil => rfl
  | cons p rest ih =>
    by_cases h : p.1 = k
    · by_cases hj : k = j <;> simp_all [write, lookup]
    · by_cases hj : p.1 = j <;> simp_all [write, lookup]
      intro hk
      exact absurd (hk ▸ rfl) h

theorem get?_insert (m : Assoc κ α) (k j : κ) (a : α) :
    (m.insert k a).get? j = if k = j then some a else m.get? j :=
  lookup_write k j a m.entries

@[simp] theorem get?_insert_self (m : Assoc κ α) (k : κ) (a : α) :
    (m.insert k a).get? k = some a := by
  rw [get?_insert, if_pos rfl]

theorem write_of_lookup {k : κ} {a : α} {l : List (κ × α)} (h : lookup k l = some a) :
    write k a l = l := by
  induction l with
  | nil => cases h
  | cons p rest ih =>
    obtain ⟨j, b⟩ := p
    by_cases hk : j = k <;> simp_all [write, lookup]

/-- Writing adds at most the key that is written. -/
theorem mem_keys_write {k j : κ} {a : α} {l : List (κ × α)} :
    j ∈ (write k a l).map Prod.fst ↔ j ∈ l.map Prod.fst ∨ j = k := by
  induction l with
  | nil => simp [write]
  | cons p rest ih =>
    obtain ⟨i, b⟩ := p
    by_cases hi : i = k
    · simp [write, hi]
      exact fun h => Or.inl h
    · simp only [write, hi, if_neg, not_false_eq_true, List.map_cons, List.mem_cons, ih, or_assoc]

/-- No key is held twice. -/
theorem nodup_keys_write {k : κ} {a : α} {l : List (κ × α)} (h : (l.map Prod.fst).Nodup) :
    ((write k a l).map Prod.fst).Nodup := by
  induction l with
  | nil => simp [write]
  | cons p rest ih =>
    obtain ⟨i, b⟩ := p
    by_cases hi : i = k
    · simpa [write, hi] using h
    · simp only [List.map_cons, List.nodup_cons] at h
      simp only [write, hi, if_neg, not_false_eq_true, List.map_cons, List.nodup_cons]
      exact ⟨fun hm => (mem_keys_write.1 hm).elim h.1 hi, ih h.2⟩

theorem lookup_of_mem {k : κ} {a : α} {l : List (κ × α)} (hn : (l.map Prod.fst).Nodup)
    (h : (k, a) ∈ l) : lookup k l = some a := by
  induction l with
  | nil => cases h
  | cons p rest ih =>
    obtain ⟨i, b⟩ := p
    simp only [List.map_cons, List.nodup_cons] at hn
    rcases List.mem_cons.1 h with he | hm
    · cases he
      exact if_pos rfl
    · have hne : i ≠ k := by
        rintro rfl
        exact hn.1 (List.mem_map_of_mem hm)
      rw [lookup, if_neg hne, ih hn.2 hm]

/-- Every key has one value. -/
def Keyed (m : Assoc κ α) : Prop := (m.entries.map Prod.fst).Nodup

omit [DecidableEq κ] in
theorem keyed_empty : (empty : Assoc κ α).Keyed := List.nodup_nil

theorem Keyed.insert {m : Assoc κ α} (h : m.Keyed) (k : κ) (a : α) : (m.insert k a).Keyed :=
  nodup_keys_write h

theorem Keyed.get?_of_mem {m : Assoc κ α} (h : m.Keyed) {p : κ × α} (hp : p ∈ m.entries) :
    m.get? p.1 = some p.2 := lookup_of_mem h hp

/-- Writing what is already there changes nothing. -/
theorem insert_of_get? {m : Assoc κ α} {k : κ} {a : α} (h : m.get? k = some a) :
    m.insert k a = m := by
  cases m
  exact congrArg mk (write_of_lookup h)

end Assoc
end ContractLang
