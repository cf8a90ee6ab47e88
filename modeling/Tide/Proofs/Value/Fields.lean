import Mathlib
import Tide.Value.Basic

/-!
# The two halves of an object

An object has its keys, in order, and apart from them a value under each key. Whoever lists it goes
through the keys and looks each one up, so the halves must never differ. Fields cannot let them
differ in content, since one list holds both; what is left to show is that no key comes twice, that
the order is the order of first appearance, and that setting a key does to each half what it would
do if the halves were kept apart.
-/
namespace Tide

/-- The keys of an object in order, and apart from them what is stored under each key. -/
@[ext]
structure Halves (α : Type) where
  keys : List Bytes
  values : Bytes → Option α

namespace Halves

variable {α : Type}

def empty : Halves α := ⟨[], fun _ => none⟩

/-- A key with nothing stored under it goes behind the others; then the value is stored. -/
def set (halves : Halves α) (key : Bytes) (value : α) : Halves α where
  keys := if (halves.values key).isSome then halves.keys else halves.keys ++ [key]
  values := Function.update halves.values key (some value)

/-- No key comes twice, and the keys are those with a value. -/
structure InStep (halves : Halves α) : Prop where
  nodup : halves.keys.Nodup
  mem_iff : ∀ key, key ∈ halves.keys ↔ (halves.values key).isSome

theorem inStep_empty : (empty : Halves α).InStep := ⟨List.nodup_nil, by simp [empty]⟩

theorem InStep.set {halves : Halves α} (same : halves.InStep) (key : Bytes) (value : α) :
    (halves.set key value).InStep := by
  constructor
  · by_cases present : (halves.values key).isSome
    · rw [Halves.set, if_pos present]
      exact same.nodup
    · -- What has no value is not listed, so it may be listed now.
      have new : key ∉ halves.keys := mt (same.mem_iff key).mp present
      rw [Halves.set, if_neg present]
      exact List.nodup_append'.mpr ⟨same.nodup, List.nodup_singleton key, by simpa using new⟩
  · intro other
    simp only [Halves.set, Function.update_apply]
    by_cases that : other = key
    · subst that
      by_cases present : (halves.values other).isSome <;> simp [present, same.mem_iff]
    · by_cases present : (halves.values key).isSome <;> simp [present, that, same.mem_iff]

/-- What is there after the entries were set one after the other, beginning with nothing. -/
def ofList (entries : List (Bytes × α)) : Halves α :=
  entries.foldl (fun halves entry => halves.set entry.1 entry.2) empty

theorem ofList_concat (entries : List (Bytes × α)) (key : Bytes) (value : α) :
    ofList (entries ++ [(key, value)]) = (ofList entries).set key value := by
  simp [ofList]

theorem inStep_ofList (entries : List (Bytes × α)) : (ofList entries).InStep :=
  List.foldlRecOn entries _ inStep_empty fun _ same entry _ => same.set entry.1 entry.2

/-- The last value that was set counts. -/
theorem values_ofList (entries : List (Bytes × α)) (key : Bytes) :
    (ofList entries).values key = entries.reverse.lookup key := by
  -- From the end: the last entry decides about its own key and leaves all the others alone.
  induction entries using List.reverseRecOn with
  | nil => rfl
  | append_singleton before entry ih =>
    obtain ⟨last, value⟩ := entry
    rw [ofList_concat, List.reverse_append, List.reverse_singleton, List.singleton_append,
      List.lookup_cons]
    by_cases that : key = last
    · simp [Halves.set, that]
    · have passed : (key == last) = false := by simpa using that
      simpa [Halves.set, that, passed] using ih

theorem isSome_values_ofList (entries : List (Bytes × α)) (key : Bytes) :
    ((ofList entries).values key).isSome ↔ key ∈ entries.map Prod.fst := by
  rw [values_ofList, ← Option.ne_none_iff_isSome, ne_eq, List.lookup_eq_none_iff]
  simp

/-- The first time that a key was set counts. -/
theorem keys_ofList (entries : List (Bytes × α)) :
    (ofList entries).keys = (entries.map Prod.fst).eraseDups := by
  induction entries using List.reverseRecOn with
  | nil => rfl
  | append_singleton before entry ih =>
    obtain ⟨last, value⟩ := entry
    rw [ofList_concat, Halves.set, List.map_append, List.map_singleton, List.eraseDups_append, ih]
    -- The last key adds nothing to either side if it was there before, and itself otherwise.
    by_cases known : last ∈ before.map Prod.fst
    · have nothing : [last].removeAll (before.map Prod.fst) = [] := by
        simp [List.removeAll, known]
      rw [if_pos ((isSome_values_ofList before last).mpr known), nothing]
      simp
    · have itself : [last].removeAll (before.map Prod.fst) = [last] := by
        simp [List.removeAll, known]
      rw [if_neg (mt (isSome_values_ofList before last).mp known), itself]
      rfl

end Halves

namespace Fields

variable {α : Type}

/-- The halves that one list holds. -/
def halves (fields : Fields α) : Halves α := ⟨fields.keys, fields.get?⟩

@[simp]
theorem keys_cons (entry : Bytes × α) (rest : Fields α) :
    keys (entry :: rest) = entry.1 :: keys rest := rfl

theorem mem_keys_iff (fields : Fields α) (key : Bytes) :
    key ∈ fields.keys ↔ (fields.get? key).isSome := by
  induction fields with
  | nil => simp [keys, get?]
  | cons entry rest ih =>
    obtain ⟨k, v⟩ := entry
    by_cases that : k = key
    · simp [keys, get?, that]
    · simpa [keys, get?, that, Ne.symm that] using ih

/-- Where no key comes twice, no entry hides another. -/
theorem get?_of_mem (fields : Fields α) (nodup : fields.keys.Nodup) {entry : Bytes × α}
    (member : entry ∈ fields) : fields.get? entry.1 = some entry.2 := by
  induction fields with
  | nil => cases member
  | cons first rest ih =>
    obtain ⟨new, nodup⟩ := List.nodup_cons.mp nodup
    rcases List.mem_cons.mp member with rfl | member
    · rw [get?, if_pos rfl]
    · have other : first.1 ≠ entry.1 := fun same =>
        new (List.mem_map.mpr ⟨entry, member, same.symm⟩)
      rw [get?, if_neg other]
      exact ih nodup member

theorem keys_set (fields : Fields α) (key : Bytes) (value : α) :
    (fields.set key value).keys =
      if key ∈ fields.keys then fields.keys else fields.keys ++ [key] := by
  induction fields with
  | nil => rfl
  | cons entry rest ih =>
    obtain ⟨k, v⟩ := entry
    by_cases that : k = key
    · subst that
      simp [set]
    · rw [set, if_neg that, keys_cons, keys_cons, ih]
      by_cases present : key ∈ keys rest
      · rw [if_pos present, if_pos (List.mem_cons_of_mem k present)]
      · have new : key ∉ k :: keys rest := by simp [present, Ne.symm that]
        rw [if_neg present, if_neg new, List.cons_append]

theorem get?_set (fields : Fields α) (key : Bytes) (value : α) (other : Bytes) :
    (fields.set key value).get? other = if other = key then some value else fields.get? other := by
  induction fields with
  | nil => simp [set, get?, eq_comm]
  | cons entry rest ih =>
    obtain ⟨k, v⟩ := entry
    by_cases that : k = key
    · subst that
      by_cases found : k = other
      · simp [set, get?, found]
      · simp [set, get?, found, Ne.symm found]
    · rw [set, if_neg that, get?, get?, ih]
      by_cases found : k = other
      · subst found
        simp [that]
      · simp [found]

theorem halves_set (fields : Fields α) (key : Bytes) (value : α) :
    (fields.set key value).halves = fields.halves.set key value := by
  ext1
  · -- The list asks its keys whether the key is there, the halves ask the values.
    have present := fields.mem_keys_iff key
    by_cases there : key ∈ fields.keys
    · simp [halves, Halves.set, keys_set, there, present.mp there]
    · simp [halves, Halves.set, keys_set, there, mt present.mpr there]
  · funext other
    simp [halves, Halves.set, get?_set, Function.update_apply]

/-- One list in place of the two halves makes no difference. -/
theorem halves_ofList (entries : List (Bytes × α)) :
    (ofList entries).halves = Halves.ofList entries := by
  induction entries using List.reverseRecOn with
  | nil => rfl
  | append_singleton before entry ih =>
    rw [Halves.ofList_concat, ← ih, ← halves_set]
    simp [ofList]

theorem nodup_keys_ofList (entries : List (Bytes × α)) : (ofList entries).keys.Nodup := by
  have same : (ofList entries).keys = (Halves.ofList entries).keys :=
    congrArg Halves.keys (halves_ofList entries)
  rw [same]
  exact (Halves.inStep_ofList entries).nodup

theorem keys_ofList (entries : List (Bytes × α)) :
    (ofList entries).keys = (entries.map Prod.fst).eraseDups := by
  rw [← Halves.keys_ofList, ← halves_ofList, halves]

theorem get?_ofList (entries : List (Bytes × α)) (key : Bytes) :
    (ofList entries).get? key = entries.reverse.lookup key := by
  rw [← Halves.values_ofList, ← halves_ofList, halves]

end Fields

namespace Value

theorem renderFields_eq_map (fields : Fields Value) :
    renderFields fields =
      fields.map fun entry => entry.1 ++ utf8 ": " ++ nested entry.2 (render entry.2) := by
  induction fields with
  | nil => rfl
  | cons entry rest ih => rw [renderFields, ih, List.map_cons]

/-- The text of an object goes through the keys and shows what looking each of them up gives. -/
theorem renderFields_lookUps {fields : Fields Value} (nodup : fields.keys.Nodup) :
    List.Forall₂ (fun key part => ∃ value, fields.get? key = some value ∧
      part = key ++ utf8 ": " ++ nested value (render value)) fields.keys (renderFields fields) := by
  rw [renderFields_eq_map, Fields.keys, List.forall₂_map_left_iff, List.forall₂_map_right_iff,
    List.forall₂_same]
  intro entry member
  exact ⟨entry.2, fields.get?_of_mem nodup member, rfl⟩

end Value
end Tide
