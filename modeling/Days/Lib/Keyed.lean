/-
  Days.Lib.Keyed — a list of values as a finite map from keys to values.

  The values lie in the list in any order; the map files each of them under its
  key.  Inserting and removing keep the two in step, and in key order the list
  is the list of the map's values.
-/
import Mathlib.Data.List.Sort

namespace Lib

universe u v

variable {K : Type u} {V : Type v} [LinearOrder K]

/-! ## §1. Lists in key order. -/

section Sorted

variable (key : V → K)

/-- Distinct keys in order are in strict order. -/
theorem strict_of_sorted {l : List V} (h : l.Pairwise fun a b => key a ≤ key b)
    (hnodup : (l.map key).Nodup) : l.Pairwise fun a b => key a < key b := by
  rw [List.Nodup, List.pairwise_map] at hnodup
  exact (h.and hnodup).imp fun ⟨hle, hne⟩ => lt_of_le_of_ne hle hne

/-- Two strictly ordered lists with the same members are equal. -/
theorem eq_of_perm_of_strict {as bs : List V} (hperm : as.Perm bs)
    (ha : as.Pairwise fun a b => key a < key b) (hb : bs.Pairwise fun a b => key a < key b) :
    as = bs :=
  hperm.eq_of_pairwise (fun _ _ _ _ hab hba => absurd (hab.trans hba) (lt_irrefl _)) ha hb

theorem sorted_insertionSort (l : List V) :
    (l.insertionSort fun a b => key a ≤ key b).Pairwise fun a b => key a ≤ key b := by
  have : Std.Total fun a b : V => key a ≤ key b := ⟨fun a b => le_total (key a) (key b)⟩
  have : IsTrans V fun a b => key a ≤ key b := ⟨fun _ _ _ => le_trans⟩
  exact List.pairwise_insertionSort _ l

end Sorted

/-! ## §2. The map of a list. -/

/-- The map holds the members of the list, each under its key. -/
structure Lists (key : V → K) (l : List V) (m : Std.ExtTreeMap K V) : Prop where
  nodup : (l.map key).Nodup
  lookup : ∀ k v, m[k]? = some v ↔ v ∈ l ∧ key v = k

namespace Lists

variable {key : V → K} {l l' : List V} {m : Std.ExtTreeMap K V}

theorem nil : Lists key [] (∅ : Std.ExtTreeMap K V) := ⟨by simp, by simp⟩

section

variable (h : Lists key l m)

include h

theorem mem_iff {k : K} : k ∈ m ↔ k ∈ l.map key := by
  rw [Std.ExtTreeMap.mem_iff_isSome_getElem?, Option.isSome_iff_exists, List.mem_map]
  constructor
  · rintro ⟨v, hv⟩
    exact ⟨v, (h.lookup k v).1 hv⟩
  · rintro ⟨v, hv⟩
    exact ⟨v, (h.lookup k v).2 hv⟩

theorem eq_none_iff {k : K} : m[k]? = none ↔ ∀ v ∈ l, key v ≠ k := by
  rw [← Option.not_isSome_iff_eq_none, ← Std.ExtTreeMap.mem_iff_isSome_getElem?, h.mem_iff,
    List.mem_map]
  simp

/-- A member is known by its key. -/
theorem unique {a b : V} (ha : a ∈ l) (hb : b ∈ l) (hkey : key a = key b) : a = b := by
  have hma := (h.lookup (key b) a).2 ⟨ha, hkey⟩
  have hmb := (h.lookup (key b) b).2 ⟨hb, rfl⟩
  exact Option.some.inj (hma.symm.trans hmb)

theorem eq_some {v : V} (hv : v ∈ l) : m[key v]? = some v :=
  (h.lookup (key v) v).2 ⟨hv, rfl⟩

/-- Only the members of the list matter. -/
theorem perm (hperm : l.Perm l') : Lists key l' m :=
  ⟨(hperm.map key).nodup_iff.1 h.nodup, fun k v => by rw [h.lookup, hperm.mem_iff]⟩

variable [Std.LawfulEqCmp (compare : K → K → Ordering)]

/-- Entries are filed under their key. -/
theorem entry_key {k : K} {v : V} (hentry : (k, v) ∈ m.toList) : key v = k :=
  ((h.lookup k v).1 (Std.ExtTreeMap.mem_toList_iff_getElem?_eq_some.1 hentry)).2

theorem cons {v : V} (hfresh : key v ∉ l.map key) : Lists key (v :: l) (m.insert (key v) v) := by
  refine ⟨List.nodup_cons.2 ⟨hfresh, h.nodup⟩, fun k w => ?_⟩
  rw [Std.ExtTreeMap.getElem?_insert, List.mem_cons]
  split
  · next heq =>
    obtain rfl : key v = k := by simpa using heq
    constructor
    · rintro ⟨⟩
      exact ⟨.inl rfl, rfl⟩
    · rintro ⟨rfl | hmem, hkey⟩
      · rfl
      · exact absurd (List.mem_map.2 ⟨w, hmem, hkey⟩) hfresh
  · next hne =>
    rw [h.lookup]
    constructor
    · rintro ⟨hmem, hkey⟩
      exact ⟨.inr hmem, hkey⟩
    · rintro ⟨rfl | hmem, hkey⟩
      · exact absurd (by simp [hkey]) hne
      · exact ⟨hmem, hkey⟩

end

theorem tail {v : V} (h : Lists key (v :: l) m) : Lists key l (m.erase (key v)) := by
  have hnodup := List.nodup_cons.1 h.nodup
  refine ⟨hnodup.2, fun k w => ?_⟩
  rw [Std.ExtTreeMap.getElem?_erase]
  split
  · next heq =>
    obtain rfl : key v = k := by simpa using heq
    refine ⟨by simp, fun ⟨hmem, hkey⟩ => ?_⟩
    exact absurd (List.mem_map.2 ⟨w, hmem, hkey⟩) hnodup.1
  · next hne =>
    rw [h.lookup, List.mem_cons]
    constructor
    · rintro ⟨rfl | hmem, hkey⟩
      · exact absurd (by simp [hkey]) hne
      · exact ⟨hmem, hkey⟩
    · rintro ⟨hmem, hkey⟩
      exact ⟨.inr hmem, hkey⟩

/-- A member is exchanged for one with the same key. -/
theorem replace {v w : V} (h : Lists key (v :: l) m) (hkey : key w = key v) :
    Lists key (w :: l) (m.insert (key w) w) := by
  have hcons := h.tail.cons (v := w) (hkey ▸ (List.nodup_cons.1 h.nodup).1)
  refine ⟨hcons.nodup, fun k x => ?_⟩
  rw [← hcons.lookup, Std.ExtTreeMap.getElem?_insert, Std.ExtTreeMap.getElem?_insert,
    Std.ExtTreeMap.getElem?_erase, ← hkey]
  split
  · rfl
  · rfl

section

variable (h : Lists key l m)

include h

/-- Erasing a key that is not there changes nothing. -/
theorem erase_absent {k : K} (habsent : ∀ v ∈ l, key v ≠ k) : Lists key l (m.erase k) := by
  refine ⟨h.nodup, fun k' v => ?_⟩
  rw [Std.ExtTreeMap.getElem?_erase]
  split
  · next heq =>
    obtain rfl : k = k' := by simpa using heq
    refine ⟨by simp, fun ⟨hmem, hkey⟩ => absurd hkey (habsent v hmem)⟩
  · exact h.lookup k' v

/-! ## §3. The values in key order. -/

theorem mem_values {v : V} : v ∈ m.toList.map (·.2) ↔ v ∈ l := by
  rw [List.mem_map]
  constructor
  · rintro ⟨⟨k, w⟩, hentry, rfl⟩
    exact ((h.lookup k w).1 (Std.ExtTreeMap.mem_toList_iff_getElem?_eq_some.1 hentry)).1
  · intro hmem
    exact ⟨(key v, v), Std.ExtTreeMap.mem_toList_iff_getElem?_eq_some.2
      ((h.lookup _ _).2 ⟨hmem, rfl⟩), rfl⟩

theorem values_strict : (m.toList.map (·.2)).Pairwise fun a b => key a < key b := by
  rw [List.pairwise_map]
  refine (Std.ExtTreeMap.ordered_keys_toList (t := m)).imp_of_mem fun {a b} ha hb hlt => ?_
  obtain ⟨ka, va⟩ := a
  obtain ⟨kb, vb⟩ := b
  rw [h.entry_key ha, h.entry_key hb]
  exact compare_lt_iff_lt.1 hlt

theorem values_perm : (m.toList.map (·.2)).Perm l := by
  refine (List.perm_ext_iff_of_nodup ?_ (List.Nodup.of_map _ h.nodup)).2 fun v => h.mem_values
  exact h.values_strict.imp fun hlt heq => absurd (heq ▸ hlt) (lt_irrefl _)

theorem size_eq : m.size = l.length := by
  rw [← Std.ExtTreeMap.length_toList, ← h.values_perm.length_eq, List.length_map]

/-- Sorting the list gives the values of the map. -/
theorem insertionSort_eq : l.insertionSort (fun a b => key a ≤ key b) = m.toList.map (·.2) := by
  have hperm := List.perm_insertionSort (fun a b : V => key a ≤ key b) l
  have hnodup := (hperm.map key).nodup_iff.2 h.nodup
  exact eq_of_perm_of_strict key (hperm.trans h.values_perm.symm)
    (strict_of_sorted key (sorted_insertionSort key l) hnodup) h.values_strict

end

end Lists

end Lib
