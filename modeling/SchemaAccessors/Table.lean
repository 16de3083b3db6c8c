/-!
# Tables

A table holds values under keys, in the order in which the keys came up. A key that comes up again keeps its
place and takes the later value.
-/

namespace SchemaAccessors

abbrev Table (κ α : Type) := List (κ × α)

namespace Table

variable {κ α : Type} [DecidableEq κ]

def keys (t : Table κ α) : List κ :=
  t.map (·.1)

/-- Gives a key a value. -/
def put (t : Table κ α) (key : κ) (value : α) : Table κ α :=
  if key ∈ t.keys then t.map fun e => if e.1 = key then (key, value) else e else t ++ [(key, value)]

/-- The table of some entries, taken one after another. -/
def ofEntries (entries : List (κ × α)) : Table κ α :=
  entries.foldl (fun t e => t.put e.1 e.2) []

/-- The entries of a list whose keys have not come up before in it. -/
def firsts : List (κ × α) → Table κ α
  | [] => []
  | e :: t => e :: (firsts t).filter (·.1 ≠ e.1)

theorem keys_put (t : Table κ α) (key : κ) (value : α) :
    (t.put key value).keys = if key ∈ t.keys then t.keys else t.keys ++ [key] := by
  unfold put
  split
  · simp only [keys, List.map_map]
    apply List.map_congr_left
    intro e _
    by_cases h : e.1 = key <;> simp [h]
  · simp [keys]

section Lookup

variable [BEq κ] [LawfulBEq κ]

theorem lookup_filter_ne (entries : List (κ × α)) {key other : κ} (h : key ≠ other) :
    (entries.filter (·.1 ≠ other)).lookup key = entries.lookup key := by
  induction entries with
  | nil => rfl
  | cons e entries ih =>
    obtain ⟨k, x⟩ := e
    by_cases hk : k = other
    · subst hk
      have hkey : (key == k) = false := by simpa using h
      rw [List.filter_cons_of_neg (by simp), List.lookup_cons, hkey]
      exact ih
    · rw [List.filter_cons_of_pos (by simpa using hk), List.lookup_cons, List.lookup_cons, ih]

theorem lookup_firsts (entries : List (κ × α)) (key : κ) : (firsts entries).lookup key = entries.lookup key := by
  induction entries with
  | nil => rfl
  | cons e entries ih =>
    rw [firsts, List.lookup_cons, List.lookup_cons]
    by_cases h : key = e.1
    · simp [h]
    · rw [lookup_filter_ne _ h, ih]

end Lookup

/-- Where no key comes up twice, all entries stay. -/
theorem firsts_eq_self {entries : List (κ × α)} (h : (keys entries).Nodup) : firsts entries = entries := by
  induction entries with
  | nil => rfl
  | cons e entries ih =>
    obtain ⟨hnew, hrest⟩ := List.nodup_cons.1 h
    rw [firsts, ih hrest, List.filter_eq_self.2]
    intro other hother
    have hapart : other.1 ≠ e.1 := fun hkey => hnew (List.mem_map.2 ⟨other, hother, hkey⟩)
    simpa using hapart

end Table

end SchemaAccessors
