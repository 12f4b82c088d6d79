import WebOfTrust.Table

/-!
# `WebOfTrust.Proofs.Table`: tables by their look-ups

A table lists its entries in the order of their keys, but what is asked of it is what it has under a
key. These lemmas say of each reading of a table what it is in terms of `Table.find?`, so that
nobody else looks at the order.

- `Table.mem_entries_iff`, `Table.mem_values_iff`: the entries and the values of a table;
- `Table.filter_values`: values that tell their keys;
- `Table.mem_keys_iff`, `Table.nodup_keys`: its keys;
- `Table.find?_map`, `Table.find?_filterKeys`: values replaced in place, and entries left out;
- `Table.ext_find?`: a table is what is found in it.
-/

set_option autoImplicit false

namespace WebOfTrust

namespace Table

variable {α β γ : Type} [Ord α]

/-- Nothing is found in a table without entries. It holds by definition, whatever the order on the
keys is. -/
@[simp] theorem find?_empty (k : α) : (∅ : Table α β).find? k = none := rfl

/-- A key is in a table if something is found under it. It opens `k ∈ t` where a value is needed. -/
theorem mem_iff {t : Table α β} {k : α} : k ∈ t ↔ (t.find? k).isSome = true := Iff.rfl

/-- No key is in a table without entries. Passes start with empty sets, so this settles their first
step. -/
@[simp] theorem not_mem_empty (k : α) : k ∉ (∅ : Table α β) := by
  simp [mem_iff]

/-- In ascending entries each key has one place, so what is found under a key is what stands there.
The induction is on the entries. -/
theorem findEntry_eq_some_iff [Std.LawfulEqOrd α] {k : α} {v : β} {l : List (α × β)}
    (h : l.Pairwise fun p q => compare p.1 q.1 = .lt) :
    findEntry k l = some v ↔ (k, v) ∈ l := by
  induction l with
  | nil => simp [findEntry]
  | cons p l ih =>
    obtain ⟨j, w⟩ := p
    obtain ⟨hhead, htail⟩ := List.pairwise_cons.1 h
    have ih := ih htail
    by_cases hk : k = j
    · subst hk
      -- No entry behind the first has its key.
      have hrest : (k, v) ∉ l := fun hmem => by
        have hlt := hhead _ hmem
        simp at hlt
      simp [findEntry, hrest, eq_comm]
    · simp [findEntry, hk, ih]

/-- The entries are what is found. By this whatever is told of `find?` is told of the list that is
written. -/
theorem mem_entries_iff [Std.LawfulEqOrd α] {t : Table α β} {k : α} {v : β} :
    (k, v) ∈ t.entries ↔ t.find? k = some v :=
  (findEntry_eq_some_iff t.ascending).symm

/-- The values are what is found under some key. `values` is a list, and this is its membership in
terms of `find?`. -/
theorem mem_values_iff [Std.LawfulEqOrd α] {t : Table α β} {v : β} :
    v ∈ t.values ↔ ∃ k, t.find? k = some v := by
  simp only [values, List.mem_map, Prod.exists, exists_eq_right, mem_entries_iff]

/-- A table that is not empty has a value. `CommittedKey.isInteresting` asks for this of the
certifications. -/
theorem isEmpty_eq_false_iff [Std.LawfulEqOrd α] {t : Table α β} :
    t.isEmpty = false ↔ ∃ v, v ∈ t.values := by
  rw [isEmpty, values]
  cases t.entries <;> simp

/-- The list of the keys has the members of the table. The list is what is written, and the table is
what is looked up. -/
theorem mem_keys_iff [Std.LawfulEqOrd α] {t : Table α β} {k : α} : k ∈ t.keys ↔ k ∈ t := by
  simp only [keys, List.mem_map, Prod.exists, exists_and_right, exists_eq_right, mem_entries_iff,
    mem_iff, Option.isSome_iff_exists]

/-- A table without members has no entries. It is the negation of `isEmpty_eq_false_iff`, in terms
of keys. -/
theorem isEmpty_iff [Std.LawfulEqOrd α] {t : Table α β} : t.isEmpty = true ↔ ∀ k, k ∉ t := by
  have hkeys : t.isEmpty = true ↔ t.keys = [] := by
    rw [isEmpty, keys, List.isEmpty_iff, List.map_eq_nil_iff]
  rw [hkeys, List.eq_nil_iff_forall_not_mem]
  exact forall_congr' fun k => not_congr mem_keys_iff

/-- No key is listed twice, because the keys are listed in strictly ascending order.
`Table.ascending` is all that it needs. -/
theorem nodup_keys [Std.LawfulEqOrd α] (t : Table α β) : t.keys.Nodup := by
  rw [keys, List.Nodup, List.pairwise_map]
  refine t.ascending.imp fun {p q} hlt heq => ?_
  rw [heq] at hlt
  simp at hlt

/-- If the values of a table tell their keys, those that tell a key are what is found under it. So
there is at most one, whatever the other values are. -/
theorem filter_values [Std.LawfulEqOrd α] [DecidableEq α] {t : Table α β} {f : β → α}
    (hf : ∀ k v, t.find? k = some v → f v = k) (k : α) :
    t.values.filter (fun v => f v = k) = (t.find? k).toList := by
  have entries {l : List (α × β)} (hl : l.Pairwise fun p q => compare p.1 q.1 = .lt) :
      (l.filter fun p => p.1 = k).map Prod.snd = (findEntry k l).toList := by
    induction l with
    | nil => rfl
    | cons p l ih =>
      obtain ⟨hhead, htail⟩ := List.pairwise_cons.1 hl
      rw [List.filter_cons, findEntry]
      by_cases hp : p.1 = k
      · -- No entry behind the first has its key.
        have hrest : l.filter (fun q => q.1 = k) = [] := List.filter_eq_nil_iff.2 fun q hq => by
          have hlt := hhead q hq
          rw [decide_eq_true_eq]
          rintro rfl
          rw [hp] at hlt
          simp at hlt
        simp [hp, hrest]
      · have hne : ¬ compare k p.1 = .eq := fun heq => hp (Std.LawfulEqCmp.eq_of_compare heq).symm
        simp [hp, hne, ih htail]
  have hkeys : t.entries.filter (fun p => f p.2 = k) = t.entries.filter fun p => p.1 = k :=
    List.filter_congr fun p hp => by rw [hf p.1 p.2 (mem_entries_iff.1 hp)]
  rw [values, List.filter_map]
  show (t.entries.filter fun p => f p.2 = k).map Prod.snd = _
  rw [hkeys]
  exact entries t.ascending

/-- A table whose values are changed has the same keys, each with its changed value. The function
gets the key as well as the value. -/
theorem find?_map [Std.LawfulEqOrd α] (f : α → β → γ) (t : Table α β) (k : α) :
    (t.map f).find? k = (t.find? k).map (f k) := by
  -- On the list of entries, where the order has no part.
  have entries (l : List (α × β)) :
      findEntry k (l.map fun p => (p.1, f p.1 p.2)) = (findEntry k l).map (f k) := by
    induction l with
    | nil => rfl
    | cons p l ih =>
      obtain ⟨j, w⟩ := p
      by_cases hk : k = j
      · subst hk
        simp [findEntry]
      · simp [findEntry, hk, ih]
  exact entries t.entries

/-- What is found after some keys were dropped was found before, under the keys that were not. -/
theorem find?_filterKeys [Std.LawfulEqOrd α] (p : α → Bool) (t : Table α β) (k : α) :
    (t.filterKeys p).find? k = if p k = true then t.find? k else none := by
  ext v
  rw [← mem_entries_iff, filterKeys, List.mem_filter, mem_entries_iff]
  by_cases hk : p k = true <;> simp [hk]

/-- Two tables in which the same is found are the same: both list it in the order of the keys.
Equality of tables, and so of artifacts, comes down to questions about single keys. -/
theorem ext_find? [Std.TransOrd α] [Std.LawfulEqOrd α] {s t : Table α β}
    (h : ∀ k, s.find? k = t.find? k) : s = t := by
  have nodup (t : Table α β) : t.entries.Nodup :=
    List.Pairwise.of_map Prod.fst (fun _ _ hne heq => hne (congrArg Prod.fst heq)) t.nodup_keys
  have hperm : s.entries.Perm t.entries := by
    rw [List.perm_ext_iff_of_nodup (nodup s) (nodup t)]
    rintro ⟨k, v⟩
    rw [mem_entries_iff, mem_entries_iff, h]
  refine ext (hperm.eq_of_pairwise (fun p q _ _ hpq hqp => ?_) s.ascending t.ascending)
  -- No two keys are in both orders.
  rw [Std.OrientedCmp.gt_of_lt hpq] at hqp
  cases hqp

end Table

namespace KeySet

/-- A set is its members: two sets with the same ones are the same list. It is `Table.ext_find?` for
sets, where there is only one value. -/
theorem ext_mem {α : Type} [Ord α] [Std.TransOrd α] [Std.LawfulEqOrd α] {s t : KeySet α}
    (h : ∀ k, k ∈ s ↔ k ∈ t) : s = t :=
  Table.ext_find? fun k => Option.ext fun v => by
    have found (s : KeySet α) : s.find? k = some v ↔ k ∈ s := by
      rw [Table.mem_iff, Option.isSome_iff_exists]
      exact ⟨fun hv => ⟨v, hv⟩, fun ⟨_, hv⟩ => hv⟩
    rw [found, found, h]

end KeySet

end WebOfTrust
