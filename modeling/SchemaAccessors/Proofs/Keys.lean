import Mathlib.Data.List.Nodup
import Mathlib.Tactic.Common
import SchemaAccessors.Json.Reader
import SchemaAccessors.Proofs.Outcome

/-!
# Keys of objects

The members of an object are a list, so that its order is there, and a list could hold a key twice. In what is
read from a text no object does, since keys that come to be the same leave one member.
-/

namespace SchemaAccessors.Json

/-! ## Keys that are apart -/

mutual

/-- Whether no object in a value has a key twice. -/
def keysApart : Json → Bool
  | arr xs => keysApartInElements xs
  | obj ms => decide (ms.map (·.1)).Nodup && keysApartInMembers ms
  | _ => true

def keysApartInElements : List Json → Bool
  | [] => true
  | x :: xs => keysApart x && keysApartInElements xs

def keysApartInMembers : Members → Bool
  | [] => true
  | (_, x) :: ms => keysApart x && keysApartInMembers ms

end

lemma keysApartInElements_iff {xs : List Json} : keysApartInElements xs = true ↔ ∀ x ∈ xs, x.keysApart = true := by
  induction xs with
  | nil => simp [keysApartInElements]
  | cons x xs ih => rw [keysApartInElements, Bool.and_eq_true, ih, List.forall_mem_cons]

lemma keysApartInMembers_iff {ms : Members} : keysApartInMembers ms = true ↔ ∀ m ∈ ms, m.2.keysApart = true := by
  induction ms with
  | nil => simp [keysApartInMembers]
  | cons m ms ih => rw [keysApartInMembers, Bool.and_eq_true, ih, List.forall_mem_cons]

lemma keysApart_arr {xs : List Json} : (arr xs).keysApart = true ↔ ∀ x ∈ xs, x.keysApart = true := by
  rw [keysApart, keysApartInElements_iff]

lemma keysApart_obj {ms : Members} :
    (obj ms).keysApart = true ↔ (ms.map (·.1)).Nodup ∧ ∀ m ∈ ms, m.2.keysApart = true := by
  rw [keysApart, Bool.and_eq_true, decide_eq_true_eq, keysApartInMembers_iff]

end Json

/-! ## What was read -/

namespace Table

variable {κ α : Type} [DecidableEq κ]

lemma mem_of_mem_firsts {entries : List (κ × α)} {e : κ × α} (h : e ∈ firsts entries) : e ∈ entries := by
  induction entries with
  | nil => cases h
  | cons first entries ih =>
    rcases List.mem_cons.1 h with rfl | h
    · exact List.mem_cons_self
    · exact List.mem_cons_of_mem _ (ih (List.mem_filter.1 h).1)

lemma nodup_keys_firsts (entries : List (κ × α)) : (keys (firsts entries)).Nodup := by
  induction entries with
  | nil => exact List.nodup_nil
  | cons first entries ih =>
    refine List.nodup_cons.2 ⟨fun h => ?_, (List.filter_sublist.map _).nodup ih⟩
    obtain ⟨e, he, hkey⟩ := List.mem_map.1 h
    exact of_decide_eq_true (List.mem_filter.1 he).2 hkey

end Table

namespace Decoded

open Json

mutual

/-- Without its surrogates a value has no object with a key twice. -/
theorem keysApart_json : (value : Decoded) → value.json.keysApart = true
  | null | bool _ | int _ | float _ | str _ => rfl
  | arr xs => keysApartInElements_iff.2 (keysApart_of_mem_jsonElements xs)
  | obj ms => keysApart_obj.2 ⟨Table.nodup_keys_firsts _, fun m hm =>
      keysApart_of_mem_jsonEntries ms m (Table.mem_of_mem_firsts hm)⟩

theorem keysApart_of_mem_jsonElements : (xs : List Decoded) → ∀ x ∈ jsonElements xs, x.keysApart = true
  | [] => nofun
  | x :: xs => List.forall_mem_cons.2 ⟨keysApart_json x, keysApart_of_mem_jsonElements xs⟩

theorem keysApart_of_mem_jsonEntries : (ms : Members) → ∀ m ∈ jsonEntries ms, m.2.keysApart = true
  | [] => nofun
  | (_, x) :: ms => List.forall_mem_cons.2 ⟨keysApart_json x, keysApart_of_mem_jsonEntries ms⟩

end

end Decoded

end SchemaAccessors
